import CleanOS.Memory.Paging
import Mathlib.Data.Finset.Card
import Mathlib.Data.Nat.Bitwise

/-!
# Mappings

What the page directories of the user address spaces map.  Directories and tables are
kernel pages of their own, so that writing an entry changes the mapping of one page of one
address space.
-/

namespace CleanOS.Memory

open CleanOS.Common

section Bits

variable {btm : Bitmap} {bitIdx count other : Nat} {use : Bool}

@[simp]
theorem setBits_bytesLen : (setBits btm bitIdx count use).bytesLen = btm.bytesLen := by
  induction count generalizing btm bitIdx with
  | zero => rfl
  | succ count ih => rw [setBits, ih, Bitmap.set_bytesLen]

theorem setBits_bit : (setBits btm bitIdx count use).bit other =
    if bitIdx ≤ other ∧ other < bitIdx + count then use else btm.bit other := by
  induction count generalizing btm bitIdx with
  | zero =>
      have outside : ¬ (bitIdx ≤ other ∧ other < bitIdx + 0) := by omega
      rw [setBits, if_neg outside]
  | succ count ih =>
      rw [setBits, ih, Bitmap.bit_set]
      by_cases later : bitIdx + 1 ≤ other ∧ other < bitIdx + 1 + count
      · rw [if_pos later, if_pos (by omega)]
      · rw [if_neg later]
        by_cases here : other = bitIdx
        · rw [if_pos here, if_pos (by omega)]
        · rw [if_neg here, if_neg (by omega)]

end Bits

/-- An allocator of pages: the pages are aligned and lie below the end of memory. -/
structure AddrAlloc.Paged (alloc : AddrAlloc) : Prop where
  pageSize : alloc.pageSize = memPageSize
  aligned : alloc.start % memPageSize = 0
  below : alloc.start + alloc.bitmap.bytesLen * 8 * memPageSize ≤ 2 ^ 32

def AddrAlloc.pages (alloc : AddrAlloc) : Nat :=
  alloc.bitmap.bytesLen * 8

def AddrAlloc.addr (alloc : AddrAlloc) (idx : Nat) : Nat :=
  alloc.start + idx * memPageSize

section Alloc

variable {alloc : AddrAlloc} {idx other : Nat} {pageCount : Int} {use : Bool}

theorem allocMemUse_addr (paged : alloc.Paged) (inside : idx < alloc.pages) :
    allocMemUse alloc (alloc.addr idx) pageCount use =
      { alloc with bitmap := setBits alloc.bitmap idx pageCount.toNat use } := by
  have below := paged.below
  have bitIdx : (alloc.addr idx + 2 ^ 32 - alloc.start) % 2 ^ 32 / alloc.pageSize = idx := by
    rw [paged.pageSize]
    simp only [AddrAlloc.addr, AddrAlloc.pages, memPageSize] at *
    omega
  rw [allocMemUse, bitIdx]

theorem allocRange_found (paged : alloc.Paged) {start : Nat} (positive : 0 < pageCount)
    (small : pageCount < 2 ^ 32) (found : alloc.bitmap.scan pageCount.toNat = start)
    (inside : start + pageCount.toNat ≤ alloc.pages) :
    allocRange alloc pageCount = (alloc.addr start,
      { alloc with bitmap := setBits alloc.bitmap start pageCount.toNat true }) := by
  have below := paged.below
  have count : pageCount % 2 ^ 32 = pageCount := by omega
  have addr : (alloc.start + start * alloc.pageSize) % 2 ^ 32 = alloc.addr start := by
    rw [paged.pageSize]
    simp only [AddrAlloc.addr, AddrAlloc.pages, memPageSize] at *
    omega
  have nonneg : ¬ (start : Int) < 0 := by omega
  simp only [allocRange, count, found, if_neg nonneg, Int.toNat_natCast, addr]
  rw [allocMemUse_addr paged (by omega)]

theorem allocRange_one (paged : alloc.Paged) :
    (∃ idx, idx < alloc.pages ∧ alloc.bitmap.bit idx = false ∧
      allocRange alloc 1 =
        (alloc.addr idx, { alloc with bitmap := alloc.bitmap.set idx true })) ∨
    (allocRange alloc 1 = (failed, alloc) ∧
      ∀ idx, idx < alloc.pages → alloc.bitmap.bit idx = true) := by
  rcases alloc.bitmap.scan_one with ⟨idx, found, inside, clear, -⟩ | ⟨missing, full⟩
  · refine .inl ⟨idx, inside, clear, ?_⟩
    exact allocRange_found paged (by decide) (by decide) found (Nat.succ_le_of_lt inside)
  · refine .inr ⟨?_, full⟩
    have one : ((1 : Int) % 2 ^ 32).toNat = 1 := by decide
    have negative : (-1 : Int) < 0 := by decide
    simp only [allocRange, one, missing, if_pos negative]

def AddrAlloc.clearPages (alloc : AddrAlloc) : Finset Nat :=
  (Finset.range alloc.pages).filter fun idx => alloc.bitmap.bit idx = false

theorem AddrAlloc.mem_clearPages :
    idx ∈ alloc.clearPages ↔ idx < alloc.pages ∧ alloc.bitmap.bit idx = false := by
  simp [AddrAlloc.clearPages]

theorem AddrAlloc.Paged.set (paged : alloc.Paged) :
    AddrAlloc.Paged { alloc with bitmap := alloc.bitmap.set idx use } :=
  ⟨paged.pageSize, paged.aligned, paged.below⟩

theorem aligned_ne_failed {addr : Nat} (aligned : addr % memPageSize = 0) : addr ≠ failed := by
  simp only [memPageSize, failed] at aligned ⊢
  omega

theorem AddrAlloc.Paged.addr_aligned (paged : alloc.Paged) (idx : Nat) :
    alloc.addr idx % memPageSize = 0 := by
  have aligned := paged.aligned
  simp only [AddrAlloc.addr, memPageSize] at *
  omega

structure FramesTaken (before after : AddrAlloc) (frames : List Nat) : Prop where
  pages : after.pages = before.pages
  start : after.start = before.start
  paged : after.Paged
  nodup : frames.Nodup
  clear : ∀ frame ∈ frames, frame < before.pages ∧ before.bitmap.bit frame = false
  bits : ∀ other, after.bitmap.bit other =
    (before.bitmap.bit other || decide (other ∈ frames))

theorem allocPages_spec {count : Nat} (paged : alloc.Paged)
    (enough : count ≤ alloc.clearPages.card) :
    ∃ frames after, allocPages alloc count = (frames.map alloc.addr, after) ∧
      frames.length = count ∧ FramesTaken alloc after frames := by
  induction count generalizing alloc with
  | zero =>
      exact ⟨[], alloc, rfl, rfl, rfl, rfl, paged, List.nodup_nil, by simp, by simp⟩
  | succ count ih =>
      obtain ⟨clear, clearMem⟩ : alloc.clearPages.Nonempty :=
        Finset.card_pos.mp (by omega)
      obtain ⟨clearInside, isClear⟩ := AddrAlloc.mem_clearPages.mp clearMem
      obtain ⟨frame, frameInside, frameClear, allocEq⟩ : ∃ frame, frame < alloc.pages ∧
          alloc.bitmap.bit frame = false ∧ allocPhyMem alloc 1 =
            (alloc.addr frame, { alloc with bitmap := alloc.bitmap.set frame true }) := by
        rcases allocRange_one paged with found | ⟨-, full⟩
        · exact found
        · rw [full clear clearInside] at isClear
          cases isClear
      obtain ⟨next, nextEq⟩ : ∃ next : AddrAlloc, next =
          { alloc with bitmap := alloc.bitmap.set frame true } := ⟨_, rfl⟩
      have nextPages : next.pages = alloc.pages := by rw [nextEq]; rfl
      have nextStart : next.start = alloc.start := by rw [nextEq]
      have nextBit : ∀ other, next.bitmap.bit other =
          if other = frame then true else alloc.bitmap.bit other := by
        intro other
        rw [nextEq, Bitmap.bit_set]
      have left : next.clearPages = alloc.clearPages.erase frame := by
        ext other
        rw [Finset.mem_erase, AddrAlloc.mem_clearPages, AddrAlloc.mem_clearPages, nextBit,
          nextPages]
        by_cases same : other = frame <;> simp [same]
      have leftCard := Finset.card_erase_of_mem
        (AddrAlloc.mem_clearPages.mpr ⟨frameInside, frameClear⟩)
      obtain ⟨frames, after, restEq, length, taken⟩ := @ih next (by rw [nextEq]; exact paged.set)
        (by rw [left]; omega)
      have fresh : frame ∉ frames := by
        intro again
        have := (taken.clear frame again).2
        rw [nextBit, if_pos rfl] at this
        cases this
      have sameAddr : next.addr = alloc.addr := by
        funext other
        simp only [AddrAlloc.addr, nextStart]
      refine ⟨frame :: frames, after, ?_, by simp [length], ?_⟩
      · simp only [allocPages, allocEq, ← nextEq, restEq, List.map_cons, sameAddr]
      · refine ⟨taken.pages.trans nextPages, taken.start.trans nextStart, taken.paged,
          List.nodup_cons.mpr ⟨fresh, taken.nodup⟩, ?_, ?_⟩
        · intro other member
          rcases List.mem_cons.mp member with rfl | later
          · exact ⟨frameInside, frameClear⟩
          · obtain ⟨inside, isClear⟩ := taken.clear other later
            rw [nextBit] at isClear
            split at isClear
            · cases isClear
            · exact ⟨nextPages ▸ inside, isClear⟩
        · intro other
          rw [taken.bits, nextBit]
          by_cases same : other = frame <;> simp [same]

end Alloc

def MemState.userPde (mem : MemState) : Nat :=
  pdeIndex mem.userPhy.start

def KernelPage (mem : MemState) (page : Nat) : Prop :=
  ∃ idx, idx < mem.kernelVir.pages ∧ mem.kernelVir.bitmap.bit idx = true ∧
    page = mem.kernelVir.addr idx

/-- A present entry of the user part of a directory, and its table. -/
structure UserTable (mem : MemState) (dirs : List Nat) (dir entry table : Nat) : Prop where
  isDir : dir ∈ dirs
  lower : mem.userPde ≤ entry
  upper : entry < 1024
  isPresent : present (mem.words dir entry) = true
  isTable : pePhyAddr (mem.words dir entry) = table

/-- The directories and the tables of their user parts are kernel pages in use, each table
behind one entry. -/
structure Tables (mem : MemState) (dirs : List Nat) : Prop where
  paged : mem.kernelVir.Paged
  positive : 0 < mem.kernelVir.start
  dirPage : ∀ dir ∈ dirs, KernelPage mem dir
  tablePage : ∀ {dir entry table}, UserTable mem dirs dir entry table →
    KernelPage mem table ∧ table ∉ dirs
  own : ∀ {dir entry dir' entry' table}, UserTable mem dirs dir entry table →
    UserTable mem dirs dir' entry' table → dir = dir' ∧ entry = entry'

def MemState.frameAt (mem : MemState) (dir page : Nat) : Option Nat :=
  vaddr2paddr mem.words dir (page * memPageSize)

/-- A page of the user part. -/
structure UserPage (mem : MemState) (page : Nat) : Prop where
  lower : mem.userPde * 1024 ≤ page
  upper : page < 2 ^ 20

theorem Tables.withUserPhy {mem : MemState} {dirs : List Nat} {phy : AddrAlloc}
    (tables : Tables mem dirs) (start : phy.start = mem.userPhy.start) :
    Tables { mem with userPhy := phy } dirs := by
  have pde : MemState.userPde { mem with userPhy := phy } = mem.userPde := by
    rw [MemState.userPde, start]
    rfl
  have user : ∀ {dir entry table}, UserTable { mem with userPhy := phy } dirs dir entry table →
      UserTable mem dirs dir entry table := by
    intro dir entry table user
    exact ⟨user.isDir, pde ▸ user.lower, user.upper, user.isPresent, user.isTable⟩
  refine ⟨tables.paged, tables.positive, tables.dirPage, ?_, ?_⟩
  · intro dir entry table isTable
    exact tables.tablePage (user isTable)
  · intro dir entry dir' entry' table isTable isTable'
    exact tables.own (user isTable) (user isTable')

section Entry

variable {mem : MemState} {dirs : List Nat} {dir entry table page paddr : Nat}

theorem pdeIndex_page : pdeIndex (page * memPageSize) = page / 1024 := by
  simp only [pdeIndex, memPageSize]
  omega

theorem pteIndex_page : pteIndex (page * memPageSize) = page % 1024 := by
  simp only [pteIndex, memPageSize]
  omega

theorem or_flags {flags : Nat} (aligned : paddr % memPageSize = 0) (small : flags < 4096) :
    paddr ||| flags = paddr + flags := by
  have split : 2 ^ 12 * (paddr / 4096) = paddr := by
    simp only [memPageSize] at aligned
    omega
  rw [← split]
  exact (Nat.two_pow_add_eq_or_of_lt small _).symm

theorem present_flags {flags : Nat} (aligned : paddr % memPageSize = 0) (odd : flags % 2 = 1) :
    present (paddr + flags) = true := by
  simp only [memPageSize] at aligned
  simp only [present, decide_eq_true_eq]
  omega

theorem pePhyAddr_flags {flags : Nat} (aligned : paddr % memPageSize = 0)
    (small : flags < 4096) : pePhyAddr (paddr + flags) = paddr := by
  simp only [memPageSize] at aligned
  simp only [pePhyAddr]
  omega

theorem KernelPage.aligned (tables : Tables mem dirs) (kernel : KernelPage mem page) :
    page % memPageSize = 0 ∧ 0 < page := by
  obtain ⟨idx, -, -, rfl⟩ := kernel
  have aligned := tables.paged.aligned
  have positive := tables.positive
  simp only [AddrAlloc.addr, memPageSize] at *
  omega

theorem frameAt_absent (absent : present (mem.words dir (page / 1024)) = false) :
    mem.frameAt dir page = none := by
  simp only [MemState.frameAt, vaddr2paddr, getPte, pdeIndex_page, absent]
  by_cases null : dir = 0 <;> simp [null]

theorem Tables.frameAt (tables : Tables mem dirs)
    (user : UserTable mem dirs dir (page / 1024) table) :
    mem.frameAt dir page =
      if present (mem.words table (page % 1024)) then
        some (pePhyAddr (mem.words table (page % 1024)))
      else none := by
  have dirPositive := ((tables.dirPage dir user.isDir).aligned tables).2
  have tablePositive := ((tables.tablePage user).1.aligned tables).2
  have dirNonzero : dir ≠ 0 := by omega
  have tableNonzero : table ≠ 0 := by omega
  have offset : page * memPageSize % 1024 = 0 := by
    simp only [memPageSize]
    omega
  simp only [MemState.frameAt, vaddr2paddr, getPte, pdeIndex_page, pteIndex_page, if_neg dirNonzero,
    user.isPresent, not_true_eq_false, if_false, user.isTable, tableNonzero, offset,
    Nat.add_zero]

theorem UserPage.table_cases (user : UserPage mem page) (isDir : dir ∈ dirs) :
    present (mem.words dir (page / 1024)) = false ∨
      ∃ table, UserTable mem dirs dir (page / 1024) table := by
  have lower := user.lower
  have upper := user.upper
  cases isPresent : present (mem.words dir (page / 1024)) with
  | false => exact .inl rfl
  | true => exact .inr ⟨_, isDir, by omega, by omega, isPresent, rfl⟩

def MemState.setEntry (mem : MemState) (table idx value : Nat) : MemState :=
  { mem with words := setWord mem.words table idx value }

theorem setEntry_words_ne {other idx value otherIdx : Nat} (different : other ≠ table) :
    (mem.setEntry table idx value).words other otherIdx = mem.words other otherIdx := by
  simp [MemState.setEntry, setWord, different]

theorem setEntry_userTable {idx value other otherEntry otherTable : Nat} (apart : table ∉ dirs) :
    UserTable (mem.setEntry table idx value) dirs other otherEntry otherTable ↔
      UserTable mem dirs other otherEntry otherTable := by
  constructor
  · intro user
    have different : other ≠ table := fun same => apart (same ▸ user.isDir)
    have isPresent := user.isPresent
    have isTable := user.isTable
    rw [setEntry_words_ne different] at isPresent isTable
    exact ⟨user.isDir, user.lower, user.upper, isPresent, isTable⟩
  · intro user
    have different : other ≠ table := fun same => apart (same ▸ user.isDir)
    refine ⟨user.isDir, user.lower, user.upper, ?_, ?_⟩
    · rw [setEntry_words_ne different]
      exact user.isPresent
    · rw [setEntry_words_ne different]
      exact user.isTable

theorem Tables.setEntry {idx value : Nat} (tables : Tables mem dirs) (apart : table ∉ dirs) :
    Tables (mem.setEntry table idx value) dirs := by
  refine ⟨tables.paged, tables.positive, tables.dirPage, ?_, ?_⟩
  · intro dir entry other user
    exact tables.tablePage ((setEntry_userTable apart).mp user)
  · intro dir entry dir' entry' other user user'
    exact tables.own ((setEntry_userTable apart).mp user) ((setEntry_userTable apart).mp user')

theorem Tables.frameAt_setEntry {value other otherPage : Nat} (tables : Tables mem dirs)
    (user : UserTable mem dirs dir (page / 1024) table) (isDir : other ∈ dirs)
    (isUser : UserPage mem otherPage) :
    (mem.setEntry table (page % 1024) value).frameAt other otherPage =
      if other = dir ∧ otherPage = page then
        if present value then some (pePhyAddr value) else none
      else mem.frameAt other otherPage := by
  have apart := (tables.tablePage user).2
  have written := @Tables.setEntry _ _ _ (page % 1024) value tables apart
  have different : other ≠ table := fun same => apart (same ▸ isDir)
  rcases isUser.table_cases isDir with absent | ⟨otherTable, otherUser⟩
  · have notSame : ¬ (other = dir ∧ otherPage = page) := by
      rintro ⟨rfl, rfl⟩
      rw [user.isPresent] at absent
      cases absent
    rw [if_neg notSame, frameAt_absent absent, frameAt_absent]
    rw [setEntry_words_ne different]
    exact absent
  · rw [written.frameAt ((setEntry_userTable apart).mpr otherUser), tables.frameAt otherUser]
    by_cases sameTable : otherTable = table
    · subst sameTable
      obtain ⟨sameDir, sameEntry⟩ := tables.own otherUser user
      by_cases sameIdx : otherPage % 1024 = page % 1024
      · have samePage : otherPage = page := by omega
        have same : other = dir ∧ otherPage = page := ⟨sameDir, samePage⟩
        simp only [MemState.setEntry, setWord, sameIdx, and_self, if_true, if_pos same]
      · have notSame : ¬ (other = dir ∧ otherPage = page) := by
          rintro ⟨-, rfl⟩
          exact sameIdx rfl
        rw [if_neg notSame]
        simp [MemState.setEntry, setWord, sameIdx]
    · have notSame : ¬ (other = dir ∧ otherPage = page) := by
        rintro ⟨rfl, rfl⟩
        exact sameTable (otherUser.isTable.symm.trans user.isTable)
      rw [if_neg notSame]
      simp only [MemState.setEntry, setWord, sameTable, false_and, if_false]

def MemState.addTable (mem : MemState) (vir phy : AddrAlloc) (dir entry table : Nat) :
    MemState :=
  { mem with
    kernelVir := vir
    kernelPhy := phy
    words := clearPage (setWord mem.words dir entry (table ||| 7)) table }

section AddTable

variable {vir phy : AddrAlloc} {idx : Nat}

theorem KernelPage.ne_clear (kernel : KernelPage mem page)
    (clear : mem.kernelVir.bitmap.bit idx = false) : page ≠ mem.kernelVir.addr idx := by
  obtain ⟨used, -, isUsed, rfl⟩ := kernel
  intro same
  have sameIdx : used = idx := by
    simp only [AddrAlloc.addr, memPageSize] at same
    omega
  rw [sameIdx, clear] at isUsed
  cases isUsed

theorem addTable_kernelPage (virEq : vir = { mem.kernelVir with
      bitmap := mem.kernelVir.bitmap.set idx true })
    (kernel : KernelPage mem page ∨ idx < mem.kernelVir.pages ∧ page = mem.kernelVir.addr idx) :
    KernelPage (mem.addTable vir phy dir entry table) page := by
  have bit : ∀ other, vir.bitmap.bit other =
      if other = idx then true else mem.kernelVir.bitmap.bit other := by
    intro other
    rw [virEq, Bitmap.bit_set]
  have pages : vir.pages = mem.kernelVir.pages := by rw [virEq]; rfl
  have addr : vir.addr = mem.kernelVir.addr := by rw [virEq]; rfl
  rcases kernel with ⟨used, inside, isUsed, rfl⟩ | ⟨inside, rfl⟩
  · refine ⟨used, pages ▸ inside, ?_, by rw [← addr]; rfl⟩
    change vir.bitmap.bit used = true
    rw [bit, isUsed]
    exact ite_self true
  · refine ⟨idx, pages ▸ inside, ?_, by rw [← addr]; rfl⟩
    change vir.bitmap.bit idx = true
    rw [bit, if_pos rfl]

theorem addTable_dirWords {other otherEntry : Nat} (tables : Tables mem dirs)
    (clear : mem.kernelVir.bitmap.bit idx = false) (member : other ∈ dirs) :
    (mem.addTable vir phy dir entry (mem.kernelVir.addr idx)).words other otherEntry =
      if other = dir ∧ otherEntry = entry then mem.kernelVir.addr idx + 7
      else mem.words other otherEntry := by
  have different := (tables.dirPage other member).ne_clear clear
  have flags : mem.kernelVir.addr idx ||| 7 = mem.kernelVir.addr idx + 7 :=
    or_flags (tables.paged.addr_aligned idx) (by decide)
  simp only [MemState.addTable, clearPage, if_neg different, setWord, flags]

theorem addTable_words_ne {other : Nat} (notDir : other ≠ dir) (notTable : other ≠ table) :
    (mem.addTable vir phy dir entry table).words other = mem.words other := by
  funext otherIdx
  simp only [MemState.addTable, clearPage, if_neg notTable, setWord, notDir, false_and, if_false]

theorem addTable_userTable {other otherEntry otherTable : Nat} (tables : Tables mem dirs)
    (clear : mem.kernelVir.bitmap.bit idx = false)
    (user : UserTable (mem.addTable vir phy dir entry (mem.kernelVir.addr idx)) dirs other
      otherEntry otherTable) :
    (other = dir ∧ otherEntry = entry ∧ otherTable = mem.kernelVir.addr idx) ∨
      UserTable mem dirs other otherEntry otherTable := by
  have isPresent := user.isPresent
  have isTable := user.isTable
  rw [addTable_dirWords tables clear user.isDir] at isPresent isTable
  by_cases same : other = dir ∧ otherEntry = entry
  · rw [if_pos same, pePhyAddr_flags (tables.paged.addr_aligned idx) (by decide)] at isTable
    exact .inl ⟨same.1, same.2, isTable.symm⟩
  · rw [if_neg same] at isPresent isTable
    exact .inr ⟨user.isDir, user.lower, user.upper, isPresent, isTable⟩

theorem Tables.addTable (tables : Tables mem dirs) (isDir : dir ∈ dirs)
    (lower : mem.userPde ≤ entry) (upper : entry < 1024)
    (absent : present (mem.words dir entry) = false)
    (inside : idx < mem.kernelVir.pages) (clear : mem.kernelVir.bitmap.bit idx = false)
    (virEq : vir = { mem.kernelVir with bitmap := mem.kernelVir.bitmap.set idx true })
    (tableEq : table = mem.kernelVir.addr idx) :
    Tables (mem.addTable vir phy dir entry table) dirs ∧
      UserTable (mem.addTable vir phy dir entry table) dirs dir entry table ∧
      ∀ other ∈ dirs, ∀ otherPage, UserPage mem otherPage →
        (mem.addTable vir phy dir entry table).frameAt other otherPage =
          mem.frameAt other otherPage := by
  subst tableEq
  have aligned := tables.paged.addr_aligned idx
  have fresh : ∀ {used}, KernelPage mem used → used ≠ mem.kernelVir.addr idx :=
    fun kernel => kernel.ne_clear clear
  have dirWords : ∀ other ∈ dirs, ∀ otherEntry,
      (mem.addTable vir phy dir entry (mem.kernelVir.addr idx)).words other otherEntry =
        if other = dir ∧ otherEntry = entry then mem.kernelVir.addr idx + 7
        else mem.words other otherEntry :=
    fun other member otherEntry => addTable_dirWords tables clear member
  have tableWords : ∀ {other otherEntry otherTable},
      UserTable mem dirs other otherEntry otherTable →
        (mem.addTable vir phy dir entry (mem.kernelVir.addr idx)).words otherTable =
          mem.words otherTable := by
    intro other otherEntry otherTable user
    obtain ⟨kernel, apart⟩ := tables.tablePage user
    exact addTable_words_ne (fun same => apart (same ▸ isDir)) (fresh kernel)
  have added : UserTable (mem.addTable vir phy dir entry (mem.kernelVir.addr idx)) dirs dir
      entry (mem.kernelVir.addr idx) := by
    refine ⟨isDir, lower, upper, ?_, ?_⟩
    · rw [dirWords dir isDir, if_pos ⟨rfl, rfl⟩]
      exact present_flags aligned (by decide)
    · rw [dirWords dir isDir, if_pos ⟨rfl, rfl⟩]
      exact pePhyAddr_flags aligned (by decide)
  have keeps : Tables (mem.addTable vir phy dir entry (mem.kernelVir.addr idx)) dirs := by
    refine ⟨?_, ?_, ?_, ?_, ?_⟩
    · change vir.Paged
      rw [virEq]
      exact tables.paged.set
    · change 0 < vir.start
      rw [virEq]
      exact tables.positive
    · intro other member
      exact addTable_kernelPage virEq (.inl (tables.dirPage other member))
    · intro other otherEntry otherTable user
      rcases addTable_userTable tables clear user with ⟨-, -, rfl⟩ | user
      · refine ⟨addTable_kernelPage virEq (.inr ⟨inside, rfl⟩), ?_⟩
        intro member
        exact fresh (tables.dirPage _ member) rfl
      · obtain ⟨kernel, apart⟩ := tables.tablePage user
        exact ⟨addTable_kernelPage virEq (.inl kernel), apart⟩
    · intro other otherEntry other' otherEntry' otherTable user user'
      rcases addTable_userTable tables clear user with ⟨rfl, rfl, rfl⟩ | old
      · rcases addTable_userTable tables clear user' with ⟨rfl, rfl, -⟩ | old'
        · exact ⟨rfl, rfl⟩
        · exact absurd rfl (fresh (tables.tablePage old').1)
      · rcases addTable_userTable tables clear user' with ⟨-, -, rfl⟩ | old'
        · exact absurd rfl (fresh (tables.tablePage old).1)
        · exact tables.own old old'
  refine ⟨keeps, added, ?_⟩
  intro other member otherPage isUser
  rcases isUser.table_cases member with wasAbsent | ⟨otherTable, otherUser⟩
  · rw [frameAt_absent wasAbsent]
    by_cases same : other = dir ∧ otherPage / 1024 = entry
    · obtain ⟨rfl, rfl⟩ := same
      rw [keeps.frameAt added]
      simp [MemState.addTable, clearPage, present]
    · rw [frameAt_absent]
      rw [dirWords other member, if_neg same]
      exact wasAbsent
  · have different : ¬ (other = dir ∧ otherPage / 1024 = entry) := by
      rintro ⟨rfl, rfl⟩
      rw [otherUser.isPresent] at absent
      cases absent
    have user' : UserTable (mem.addTable vir phy dir entry (mem.kernelVir.addr idx)) dirs other
        (otherPage / 1024) otherTable := by
      refine ⟨member, otherUser.lower, otherUser.upper, ?_, ?_⟩
      · rw [dirWords other member, if_neg different]
        exact otherUser.isPresent
      · rw [dirWords other member, if_neg different]
        exact otherUser.isTable
    rw [keeps.frameAt user', tables.frameAt otherUser, tableWords otherUser]

end AddTable

/-- What `find_pte_alloc` of a user page finds: the table behind its entry, a fresh one, or
no free kernel page. -/
inductive FindsPte (mem : MemState) (dirs : List Nat) (dir page : Nat) : Prop where
  | found (table : Nat) (isTable : UserTable mem dirs dir (page / 1024) table)
      (returns : findPteAlloc mem dir (page * memPageSize) = some ((table, page % 1024), mem))
  | fresh (idx : Nat) (phy : AddrAlloc) (absent : present (mem.words dir (page / 1024)) = false)
      (inside : idx < mem.kernelVir.pages) (clear : mem.kernelVir.bitmap.bit idx = false)
      (returns : findPteAlloc mem dir (page * memPageSize) =
        some ((mem.kernelVir.addr idx, page % 1024),
          mem.addTable { mem.kernelVir with bitmap := mem.kernelVir.bitmap.set idx true } phy dir
            (page / 1024) (mem.kernelVir.addr idx)))
  | full (absent : present (mem.words dir (page / 1024)) = false)
      (full : ∀ idx, idx < mem.kernelVir.pages → mem.kernelVir.bitmap.bit idx = true)
      (returns : findPteAlloc mem dir (page * memPageSize) = none)

theorem findPteAlloc_absent {vaddr : Nat} (paged : mem.kernelVir.Paged)
    (absent : present (mem.words dir (pdeIndex vaddr)) = false) :
    (∃ idx phy, idx < mem.kernelVir.pages ∧ mem.kernelVir.bitmap.bit idx = false ∧
      findPteAlloc mem dir vaddr = some ((mem.kernelVir.addr idx, pteIndex vaddr),
        mem.addTable { mem.kernelVir with bitmap := mem.kernelVir.bitmap.set idx true } phy dir
          (pdeIndex vaddr) (mem.kernelVir.addr idx))) ∨
    ((∀ idx, idx < mem.kernelVir.pages → mem.kernelVir.bitmap.bit idx = true) ∧
      findPteAlloc mem dir vaddr = none) := by
  have notLarge : ¬ (1 : Int) > mallocMaxPage := by decide
  rcases allocRange_one paged with ⟨idx, inside, clear, allocEq⟩ | ⟨missing, full⟩
  · have notFailed := aligned_ne_failed (paged.addr_aligned idx)
    have oneNat : (1 : Int).toNat = 1 := rfl
    refine .inl ⟨idx, (allocPages mem.kernelPhy 1).2, inside, clear, ?_⟩
    simp only [findPteAlloc, absent, Bool.false_eq_true, if_false, allocKernelMem,
      if_neg notLarge, allocMemPage, allocVirMem, allocEq, oneNat, if_neg notFailed,
      MemState.addTable]
  · refine .inr ⟨full, ?_⟩
    simp only [findPteAlloc, absent, Bool.false_eq_true, if_false, allocKernelMem,
      if_neg notLarge, allocMemPage, allocVirMem, missing, if_true]

theorem findPteAlloc_cases (tables : Tables mem dirs) (isDir : dir ∈ dirs)
    (user : UserPage mem page) : FindsPte mem dirs dir page := by
  rcases user.table_cases isDir with absent | ⟨table, isTable⟩
  · rcases @findPteAlloc_absent mem dir (page * memPageSize) tables.paged
      (pdeIndex_page.symm ▸ absent) with ⟨idx, phy, inside, clear, returns⟩ | ⟨full, returns⟩
    · rw [pdeIndex_page, pteIndex_page] at returns
      exact .fresh idx phy absent inside clear returns
    · exact .full absent full returns
  · apply FindsPte.found table isTable
    simp only [findPteAlloc, pdeIndex_page, pteIndex_page, isTable.isPresent, if_true,
      isTable.isTable]

theorem findPteAlloc_spec {pte : Nat × Nat} {next : MemState} (tables : Tables mem dirs)
    (isDir : dir ∈ dirs) (user : UserPage mem page)
    (returns : findPteAlloc mem dir (page * memPageSize) = some (pte, next)) :
    ∃ table, pte = (table, page % 1024) ∧ next.userPhy = mem.userPhy ∧
      Tables next dirs ∧ UserTable next dirs dir (page / 1024) table ∧
      ∀ other ∈ dirs, ∀ otherPage, UserPage mem otherPage →
        next.frameAt other otherPage = mem.frameAt other otherPage := by
  have lower := user.lower
  have upper := user.upper
  cases findPteAlloc_cases tables isDir user with
  | found table isTable found =>
      cases found.symm.trans returns
      exact ⟨table, rfl, rfl, tables, isTable, fun _ _ _ _ => rfl⟩
  | fresh idx phy absent inside clear found =>
      cases found.symm.trans returns
      obtain ⟨keeps, added, same⟩ := @Tables.addTable mem dirs dir (page / 1024)
        (mem.kernelVir.addr idx) _ phy idx tables isDir (by omega) (by omega) absent inside clear
        rfl rfl
      exact ⟨mem.kernelVir.addr idx, rfl, rfl, keeps, added, same⟩
  | full absent full missing => cases missing.symm.trans returns

/-- `map_mem` of one user page that is not mapped writes the entry that `find_pte_alloc`
finds. -/
theorem mapMem_eq (tables : Tables mem dirs) (isDir : dir ∈ dirs) (user : UserPage mem page)
    (aligned : paddr % memPageSize = 0) (free : mem.frameAt dir page = none) :
    mapMem mem dir (page * memPageSize) paddr 1 true =
      (findPteAlloc mem dir (page * memPageSize)).map fun (pte, found) =>
        (page * memPageSize, found.setEntry pte.1 pte.2 (paddr + 7)) := by
  have pageDown : down2 (page * memPageSize) = page * memPageSize := by
    simp only [down2, memPageSize]
    omega
  have paddrDown : down2 paddr = paddr := by
    rw [down2, aligned]
    omega
  have oneNat : (1 : Int).toNat = 1 := rfl
  have value : paddr ||| userPermit ||| 1 = paddr + 7 := by
    rw [Nat.or_assoc]
    exact or_flags aligned (by decide)
  cases findEq : findPteAlloc mem dir (page * memPageSize) with
  | none =>
      simp only [mapMem, pageDown, paddrDown, oneNat, mapMemLoop, not_true_eq_false, and_false,
        if_false, createMemMap, findEq, Option.bind_eq_bind, Option.bind_none, Option.map_none]
  | some pair =>
      obtain ⟨pte, found⟩ := pair
      obtain ⟨table, rfl, samePhy, foundTables, isTable, sameFrames⟩ :=
        findPteAlloc_spec tables isDir user findEq
      have notPresent : present (found.words table (page % 1024)) = false := by
        have unmapped := (sameFrames dir isDir page user).trans free
        rw [foundTables.frameAt isTable] at unmapped
        cases isPresent : present (found.words table (page % 1024)) with
        | false => rfl
        | true => rw [isPresent, if_pos rfl] at unmapped; cases unmapped
      simp only [mapMem, pageDown, paddrDown, oneNat, mapMemLoop, not_true_eq_false, and_false,
        if_false, createMemMap, findEq, notPresent, Bool.false_eq_true, value, ne_eq,
        Option.bind_eq_bind, Option.bind_some, Option.map_some, if_true, MemState.setEntry]

theorem mapMem_spec {result : Nat} {next : MemState} (tables : Tables mem dirs)
    (isDir : dir ∈ dirs) (user : UserPage mem page) (aligned : paddr % memPageSize = 0)
    (free : mem.frameAt dir page = none)
    (returns : mapMem mem dir (page * memPageSize) paddr 1 true = some (result, next)) :
    next.userPhy = mem.userPhy ∧ Tables next dirs ∧
      ∀ other ∈ dirs, ∀ otherPage, UserPage mem otherPage →
        next.frameAt other otherPage =
          if other = dir ∧ otherPage = page then some paddr else mem.frameAt other otherPage := by
  rw [mapMem_eq tables isDir user aligned free, Option.map_eq_some_iff] at returns
  obtain ⟨⟨pte, found⟩, findEq, writeEq⟩ := returns
  cases writeEq
  obtain ⟨table, rfl, samePhy, foundTables, isTable, sameFrames⟩ :=
    findPteAlloc_spec tables isDir user findEq
  refine ⟨samePhy, foundTables.setEntry (foundTables.tablePage isTable).2, ?_⟩
  intro other member otherPage isUser
  have foundUser : UserPage found otherPage :=
    ⟨by rw [MemState.userPde, samePhy]; exact isUser.lower, isUser.upper⟩
  have written := @Tables.frameAt_setEntry found dirs dir table page (paddr + 7) other otherPage
    foundTables isTable member foundUser
  rw [present_flags aligned (by decide), if_pos rfl, pePhyAddr_flags aligned (by decide),
    sameFrames other member otherPage isUser] at written
  exact written

/-- `map_mem_page` of user pages that are not mapped, when it returns: these pages are
mapped, each to its frame, and every other mapping is as before. -/
theorem mapMemPageLoop_spec {paddrs : List Nat} {next : MemState} (tables : Tables mem dirs)
    (isDir : dir ∈ dirs) (lower : mem.userPde * 1024 ≤ page)
    (upper : page + paddrs.length ≤ 2 ^ 20) (aligned : ∀ paddr ∈ paddrs, paddr % memPageSize = 0)
    (free : ∀ i, i < paddrs.length → mem.frameAt dir (page + i) = none)
    (returns : mapMemPageLoop dir true mem (page * memPageSize % 2 ^ 32) paddrs = some next) :
    next.userPhy = mem.userPhy ∧ Tables next dirs ∧
      ∀ other ∈ dirs, ∀ otherPage, UserPage mem otherPage →
        next.frameAt other otherPage =
          if other = dir ∧ page ≤ otherPage ∧ otherPage < page + paddrs.length then
            paddrs[otherPage - page]?
          else mem.frameAt other otherPage := by
  induction paddrs generalizing mem page with
  | nil =>
      cases returns
      refine ⟨rfl, tables, ?_⟩
      intro other member otherPage isUser
      have outside : ¬ (other = dir ∧ page ≤ otherPage ∧
          otherPage < page + ([] : List Nat).length) := by
        rintro ⟨-, inside⟩
        simp only [List.length_nil] at inside
        omega
      rw [if_neg outside]
  | cons paddr paddrs ih =>
      simp only [List.length_cons] at upper free
      have inside : page * memPageSize % 2 ^ 32 = page * memPageSize := by
        simp only [memPageSize]
        omega
      have nextPage : (page * memPageSize + memPageSize) % 2 ^ 32 =
          (page + 1) * memPageSize % 2 ^ 32 := by rw [Nat.add_mul, Nat.one_mul]
      simp only [mapMemPageLoop, inside, nextPage, Option.bind_eq_bind,
        Option.bind_eq_some_iff, Prod.exists] at returns
      obtain ⟨result, made, mapEq, restEq⟩ := returns
      have user : UserPage mem page := ⟨lower, by omega⟩
      obtain ⟨samePhy, madeTables, madeFrames⟩ := mapMem_spec tables isDir user
        (aligned paddr List.mem_cons_self) (free 0 (by omega)) mapEq
      have madePde : made.userPde = mem.userPde := by rw [MemState.userPde, samePhy]; rfl
      obtain ⟨lastPhy, lastTables, lastFrames⟩ := @ih made (page + 1) madeTables
        (by rw [madePde]; omega) (by omega)
        (fun other member => aligned other (List.mem_cons_of_mem _ member)) (by
          intro i small
          rw [madeFrames dir isDir (page + 1 + i) ⟨by omega, by omega⟩, if_neg (by omega)]
          have := free (i + 1) (by omega)
          rwa [← Nat.add_assoc, Nat.add_right_comm] at this) restEq
      refine ⟨lastPhy.trans samePhy, lastTables, ?_⟩
      intro other member otherPage isUser
      rw [lastFrames other member otherPage ⟨by rw [madePde]; exact isUser.lower, isUser.upper⟩,
        madeFrames other member otherPage isUser]
      by_cases later : other = dir ∧ page + 1 ≤ otherPage ∧
          otherPage < page + 1 + paddrs.length
      · have position : otherPage - page = otherPage - (page + 1) + 1 := by omega
        rw [if_pos later, if_pos ⟨later.1, by omega, by simp only [List.length_cons]; omega⟩,
          position, List.getElem?_cons_succ]
      · rw [if_neg later]
        by_cases here : other = dir ∧ otherPage = page
        · rw [if_pos here, if_pos ⟨here.1, by omega, by simp only [List.length_cons]; omega⟩,
            here.2, Nat.sub_self, List.getElem?_cons_zero]
        · rw [if_neg here, if_neg]
          rintro ⟨same, first, last⟩
          simp only [List.length_cons] at last
          by_cases equal : otherPage = page
          · exact here ⟨same, equal⟩
          · exact later ⟨same, by omega, by omega⟩

theorem unmapPage_spec (tables : Tables mem dirs) (isDir : dir ∈ dirs) (user : UserPage mem page) :
    ∃ next : MemState, unmapMemLoop dir mem.words (page * memPageSize) 1 = next.words ∧
      next.userPhy = mem.userPhy ∧ next.kernelVir = mem.kernelVir ∧
      next.kernelPhy = mem.kernelPhy ∧ Tables next dirs ∧
      ∀ other ∈ dirs, ∀ otherPage, UserPage mem otherPage →
        next.frameAt other otherPage =
          if other = dir ∧ otherPage = page then none else mem.frameAt other otherPage := by
  rcases user.table_cases isDir with absent | ⟨table, isTable⟩
  · refine ⟨mem, ?_, rfl, rfl, rfl, tables, ?_⟩
    · simp only [unmapMemLoop, pdeIndex_page, absent, Bool.false_eq_true, if_false]
    · intro other member otherPage isUser
      by_cases same : other = dir ∧ otherPage = page
      · rw [if_pos same, same.1, same.2, frameAt_absent absent]
      · rw [if_neg same]
  · refine ⟨mem.setEntry table (page % 1024) (mem.words table (page % 1024) / 2 * 2), ?_, rfl,
      rfl, rfl, tables.setEntry (tables.tablePage isTable).2, ?_⟩
    · simp only [unmapMemLoop, pdeIndex_page, pteIndex_page, isTable.isPresent, if_true,
        isTable.isTable, MemState.setEntry]
    · intro other member otherPage isUser
      have reset : present (mem.words table (page % 1024) / 2 * 2) = false := by
        simp [present]
      rw [tables.frameAt_setEntry isTable member isUser, reset]
      simp

theorem unmapMemLoop_spec {count : Nat} (tables : Tables mem dirs) (isDir : dir ∈ dirs)
    (lower : mem.userPde * 1024 ≤ page) (upper : page + count ≤ 2 ^ 20) :
    ∃ next : MemState,
      next = { mem with words := unmapMemLoop dir mem.words (page * memPageSize % 2 ^ 32) count } ∧
      Tables next dirs ∧
      ∀ other ∈ dirs, ∀ otherPage, UserPage mem otherPage →
        next.frameAt other otherPage =
          if other = dir ∧ page ≤ otherPage ∧ otherPage < page + count then none
          else mem.frameAt other otherPage := by
  induction count generalizing mem page with
  | zero =>
      refine ⟨mem, rfl, tables, ?_⟩
      intro other member otherPage isUser
      rw [if_neg (by omega)]
  | succ count ih =>
      have inside : page * memPageSize % 2 ^ 32 = page * memPageSize := by
        simp only [memPageSize]
        omega
      have nextPage : (page * memPageSize + memPageSize) % 2 ^ 32 =
          (page + 1) * memPageSize % 2 ^ 32 := by rw [Nat.add_mul, Nat.one_mul]
      obtain ⟨reset, resetEq, samePhy, sameVir, sameKernelPhy, resetTables, resetFrames⟩ :=
        @unmapPage_spec mem dirs dir page tables isDir ⟨lower, by omega⟩
      have resetPde : reset.userPde = mem.userPde := by rw [MemState.userPde, samePhy]; rfl
      obtain ⟨next, nextEq, nextTables, nextFrames⟩ := @ih reset (page + 1) resetTables
        (by rw [resetPde]; omega) (by omega)
      refine ⟨next, ?_, nextTables, ?_⟩
      · have loop : unmapMemLoop dir mem.words (page * memPageSize) (count + 1) =
            unmapMemLoop dir (unmapMemLoop dir mem.words (page * memPageSize) 1)
              ((page + 1) * memPageSize % 2 ^ 32) count := by
          simp only [unmapMemLoop, nextPage]
        rw [nextEq, inside, loop, resetEq, samePhy, sameVir, sameKernelPhy]
      · intro other member otherPage isUser
        rw [nextFrames other member otherPage
          ⟨by rw [resetPde]; exact isUser.lower, isUser.upper⟩,
          resetFrames other member otherPage isUser]
        by_cases later : other = dir ∧ page + 1 ≤ otherPage ∧ otherPage < page + 1 + count
        · rw [if_pos later, if_pos ⟨later.1, by omega, by omega⟩]
        · rw [if_neg later]
          by_cases here : other = dir ∧ otherPage = page
          · rw [if_pos here, if_pos ⟨here.1, by omega, by omega⟩]
          · rw [if_neg here, if_neg]
            rintro ⟨same, first, last⟩
            by_cases equal : otherPage = page
            · exact here ⟨same, equal⟩
            · exact later ⟨same, by omega, by omega⟩

end Entry

end CleanOS.Memory
