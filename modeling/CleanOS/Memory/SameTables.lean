import CleanOS.Memory.MapPage

/-!
# States with the same tables

What keeps every directory and table keeps every mapping: kernel pages are taken, frames are
taken or given back, and pages are written that are neither directories nor tables.
-/

namespace CleanOS.Memory

open CleanOS.Common

variable {mem next : MemState} {dirs : List Nat} {dir page other idx : Nat}

structure Grows (before after : AddrAlloc) : Prop where
  start : after.start = before.start
  pageSize : after.pageSize = before.pageSize
  bytesLen : after.bitmap.bytesLen = before.bitmap.bytesLen
  bits : ∀ {idx}, before.bitmap.bit idx = true → after.bitmap.bit idx = true

theorem Grows.refl (alloc : AddrAlloc) : Grows alloc alloc :=
  ⟨rfl, rfl, rfl, id⟩

theorem Grows.trans {first second third : AddrAlloc} (one : Grows first second)
    (two : Grows second third) : Grows first third where
  start := two.start.trans one.start
  pageSize := two.pageSize.trans one.pageSize
  bytesLen := two.bytesLen.trans one.bytesLen
  bits := fun isSet => two.bits (one.bits isSet)

theorem Grows.set (alloc : AddrAlloc) (idx : Nat) :
    Grows alloc { alloc with bitmap := alloc.bitmap.set idx true } := by
  refine ⟨rfl, rfl, rfl, ?_⟩
  intro other isSet
  dsimp only
  rw [Bitmap.bit_set]
  split
  next => rfl
  next => exact isSet

section

variable {before after : AddrAlloc}

theorem Grows.pages (grows : Grows before after) : after.pages = before.pages := by
  rw [AddrAlloc.pages, grows.bytesLen]
  rfl

theorem Grows.addr (grows : Grows before after) : after.addr = before.addr := by
  funext idx
  rw [AddrAlloc.addr, grows.start]
  rfl

theorem Grows.paged (grows : Grows before after) (paged : before.Paged) : after.Paged := by
  refine ⟨grows.pageSize.trans paged.pageSize, ?_, ?_⟩
  · rw [grows.start]
    exact paged.aligned
  · rw [grows.start, grows.bytesLen]
    exact paged.below

theorem Grows.clearPages (grows : Grows before after) : after.clearPages ⊆ before.clearPages := by
  intro idx isClear
  obtain ⟨inside, clear⟩ := AddrAlloc.mem_clearPages.mp isClear
  apply AddrAlloc.mem_clearPages.mpr
  refine ⟨grows.pages ▸ inside, ?_⟩
  cases isSet : before.bitmap.bit idx with
  | false => rfl
  | true => exact absurd (grows.bits isSet) (by rw [clear]; rintro ⟨⟩)

end

theorem userPde_congr (start : next.userPhy.start = mem.userPhy.start) :
    next.userPde = mem.userPde := by
  rw [MemState.userPde, start]
  rfl

theorem UserPage.congr (user : UserPage mem page)
    (start : next.userPhy.start = mem.userPhy.start) : UserPage next page :=
  ⟨userPde_congr start ▸ user.lower, user.upper⟩

structure SameTables (mem next : MemState) (dirs : List Nat) : Prop where
  start : next.userPhy.start = mem.userPhy.start
  grows : Grows mem.kernelVir next.kernelVir
  sameDir : ∀ dir ∈ dirs, next.words dir = mem.words dir
  sameTable : ∀ {dir entry table}, UserTable mem dirs dir entry table →
    next.words table = mem.words table

namespace SameTables

theorem userPde (same : SameTables mem next dirs) : next.userPde = mem.userPde :=
  userPde_congr same.start

theorem userPage (same : SameTables mem next dirs) (user : UserPage mem page) :
    UserPage next page :=
  user.congr same.start

theorem userTable {entry table : Nat} (same : SameTables mem next dirs) :
    UserTable next dirs dir entry table ↔ UserTable mem dirs dir entry table := by
  constructor
  · rintro ⟨isDir, lower, upper, isPresent, isTable⟩
    rw [same.sameDir dir isDir] at isPresent isTable
    exact ⟨isDir, same.userPde ▸ lower, upper, isPresent, isTable⟩
  · rintro ⟨isDir, lower, upper, isPresent, isTable⟩
    rw [← same.sameDir dir isDir] at isPresent isTable
    exact ⟨isDir, same.userPde ▸ lower, upper, isPresent, isTable⟩

theorem kernelPage (same : SameTables mem next dirs) (kernel : KernelPage mem page) :
    KernelPage next page := by
  obtain ⟨idx, inside, isSet, rfl⟩ := kernel
  refine ⟨idx, ?_, same.grows.bits isSet, ?_⟩
  · rw [same.grows.pages]
    exact inside
  · rw [same.grows.addr]

theorem tables (same : SameTables mem next dirs) (tables : Tables mem dirs) :
    Tables next dirs := by
  constructor
  · exact same.grows.paged tables.paged
  · rw [same.grows.start]
    exact tables.positive
  · intro dir isDir
    exact same.kernelPage (tables.dirPage dir isDir)
  · intro dir entry table isTable
    obtain ⟨kernel, notDir⟩ := tables.tablePage (same.userTable.mp isTable)
    exact ⟨same.kernelPage kernel, notDir⟩
  · intro dir entry dir' entry' table isTable isTable'
    exact tables.own (same.userTable.mp isTable) (same.userTable.mp isTable')

theorem frameAt (same : SameTables mem next dirs) (tables : Tables mem dirs) (isDir : dir ∈ dirs)
    (user : UserPage mem page) : next.frameAt dir page = mem.frameAt dir page := by
  rcases user.table_cases isDir with absent | ⟨table, isTable⟩
  · rw [frameAt_absent absent]
    apply frameAt_absent
    rw [same.sameDir dir isDir]
    exact absent
  · rw [(same.tables tables).frameAt (same.userTable.mpr isTable), tables.frameAt isTable,
      same.sameTable isTable]

theorem apart (same : SameTables mem next dirs) (apart : Apart mem dirs other) :
    Apart next dirs other where
  notDir := apart.notDir
  notTable := fun isTable => apart.notTable (same.userTable.mp isTable)
  notClear := by
    intro idx isClear
    rw [same.grows.addr]
    exact apart.notClear idx (same.grows.clearPages isClear)

theorem write {target : Nat} (apart : Apart mem dirs target)
    (start : next.userPhy.start = mem.userPhy.start) (grows : Grows mem.kernelVir next.kernelVir)
    (words : ∀ other, other ≠ target → next.words other = mem.words other) :
    SameTables mem next dirs where
  start := start
  grows := grows
  sameDir := by
    intro dir isDir
    apply words
    rintro rfl
    exact apart.notDir isDir
  sameTable := fun isTable => words _ (apart.notTable isTable)

theorem take (userPhy : next.userPhy = mem.userPhy) (grows : Grows mem.kernelVir next.kernelVir)
    (words : next.words = mem.words) : SameTables mem next dirs where
  start := by rw [userPhy]
  grows := grows
  sameDir := fun _ _ => by rw [words]
  sameTable := fun _ => by rw [words]

end SameTables

end CleanOS.Memory
