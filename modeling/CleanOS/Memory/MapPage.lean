import CleanOS.Memory.Mapping

/-!
# Mapping one page

`map_mem` of a user page returns as long as a kernel page is free for its table.  Besides
the mapping, this says what it leaves alone: pages that are neither directories nor tables,
and all but one entry of the directory.
-/

namespace CleanOS.Memory

open CleanOS.Common

structure Apart (mem : MemState) (dirs : List Nat) (page : Nat) : Prop where
  notDir : page ∉ dirs
  notTable : ∀ {dir entry table}, UserTable mem dirs dir entry table → table ≠ page
  notClear : ∀ idx ∈ mem.kernelVir.clearPages, mem.kernelVir.addr idx ≠ page

def MemState.missing (mem : MemState) (dir entry : Nat) : Nat :=
  if present (mem.words dir entry) then 0 else 1

variable {mem found next : MemState} {dirs : List Nat} {dir page table paddr : Nat}

theorem clearPages_set {alloc : AddrAlloc} {idx : Nat} :
    AddrAlloc.clearPages { alloc with bitmap := alloc.bitmap.set idx true } =
      alloc.clearPages.erase idx := by
  ext other
  rw [Finset.mem_erase, AddrAlloc.mem_clearPages, AddrAlloc.mem_clearPages, Bitmap.bit_set]
  by_cases same : other = idx
  · simp [same]
  · simp [same, AddrAlloc.pages]

/-- The entry of a page in its table, and what `find_pte_alloc` left alone. -/
structure PteFound (mem found : MemState) (dirs : List Nat) (dir page table : Nat) : Prop where
  isTable : UserTable found dirs dir (page / 1024) table
  apart : ∀ {other}, Apart mem dirs other →
    Apart found dirs other ∧ found.words other = mem.words other
  entries : ∀ entry, present (found.words dir entry) = true ↔
    present (mem.words dir entry) = true ∨ entry = page / 1024
  left : mem.kernelVir.clearPages.card ≤
    found.kernelVir.clearPages.card + mem.missing dir (page / 1024)

structure PageMapped (mem next : MemState) (dirs : List Nat) (dir page paddr : Nat) : Prop where
  tables : Tables next dirs
  userPhy : next.userPhy = mem.userPhy
  frameAt : ∀ other ∈ dirs, ∀ otherPage, UserPage mem otherPage →
    next.frameAt other otherPage =
      if other = dir ∧ otherPage = page then some paddr else mem.frameAt other otherPage
  apart : ∀ {other}, Apart mem dirs other →
    Apart next dirs other ∧ next.words other = mem.words other
  entries : ∀ entry, present (next.words dir entry) = true ↔
    present (mem.words dir entry) = true ∨ entry = page / 1024
  left : mem.kernelVir.clearPages.card ≤
    next.kernelVir.clearPages.card + mem.missing dir (page / 1024)

theorem PteFound.same (isTable : UserTable mem dirs dir (page / 1024) table) :
    PteFound mem mem dirs dir page table where
  isTable := isTable
  apart := fun apart => ⟨apart, rfl⟩
  entries := by
    intro entry
    constructor
    · exact .inl
    · rintro (isPresent | rfl)
      · exact isPresent
      · exact isTable.isPresent
  left := Nat.le_add_right _ _

theorem PteFound.addTable {idx : Nat} {phy : AddrAlloc} (tables : Tables mem dirs)
    (isDir : dir ∈ dirs) (user : UserPage mem page)
    (absent : present (mem.words dir (page / 1024)) = false)
    (inside : idx < mem.kernelVir.pages) (clear : mem.kernelVir.bitmap.bit idx = false) :
    PteFound mem
      (mem.addTable { mem.kernelVir with bitmap := mem.kernelVir.bitmap.set idx true } phy dir
        (page / 1024) (mem.kernelVir.addr idx)) dirs dir page (mem.kernelVir.addr idx) := by
  have lower := user.lower
  have upper := user.upper
  have inClear : idx ∈ mem.kernelVir.clearPages := AddrAlloc.mem_clearPages.mpr ⟨inside, clear⟩
  constructor
  · exact (@Tables.addTable mem dirs dir (page / 1024) (mem.kernelVir.addr idx) _ phy idx tables
      isDir (by omega) (by omega) absent inside clear rfl rfl).2.1
  · intro other apart
    constructor
    · constructor
      · exact apart.notDir
      · intro otherDir entry otherTable isTable
        rcases addTable_userTable tables clear isTable with ⟨_, _, rfl⟩ | old
        · exact apart.notClear idx inClear
        · exact apart.notTable old
      · intro otherIdx isClear
        apply apart.notClear otherIdx
        change otherIdx ∈ AddrAlloc.clearPages _ at isClear
        rw [MemState.addTable, clearPages_set] at isClear
        exact Finset.mem_of_mem_erase isClear
    · apply addTable_words_ne
      · intro same
        exact apart.notDir (same ▸ isDir)
      · exact (apart.notClear idx inClear).symm
  · intro entry
    rw [addTable_dirWords tables clear isDir]
    by_cases same : entry = page / 1024
    · rw [if_pos ⟨rfl, same⟩, present_flags (tables.paged.addr_aligned idx) (by decide)]
      exact iff_of_true rfl (.inr same)
    · rw [if_neg fun both => same both.2]
      constructor
      · exact .inl
      · intro either
        exact either.resolve_right same
  · have oneLess := Finset.card_erase_add_one inClear
    rw [MemState.missing, absent, MemState.addTable, clearPages_set]
    exact oneLess.ge

theorem Apart.setEntry {other idx value : Nat} (apart : Apart mem dirs other)
    (notDir : table ∉ dirs) : Apart (mem.setEntry table idx value) dirs other where
  notDir := apart.notDir
  notTable := fun isTable => apart.notTable ((setEntry_userTable notDir).mp isTable)
  notClear := apart.notClear

theorem mapMem_mapped (tables : Tables mem dirs) (isDir : dir ∈ dirs) (user : UserPage mem page)
    (aligned : paddr % memPageSize = 0) (free : mem.frameAt dir page = none)
    (enough : mem.missing dir (page / 1024) ≤ mem.kernelVir.clearPages.card) :
    ∃ next, mapMem mem dir (page * memPageSize) paddr 1 true = some (page * memPageSize, next) ∧
      PageMapped mem next dirs dir page paddr := by
  have mapped : ∀ {found table}, findPteAlloc mem dir (page * memPageSize) =
      some ((table, page % 1024), found) → PteFound mem found dirs dir page table →
      ∃ next, mapMem mem dir (page * memPageSize) paddr 1 true = some (page * memPageSize, next) ∧
        PageMapped mem next dirs dir page paddr := by
    intro found table findEq isFound
    have returns := mapMem_eq tables isDir user aligned free
    rw [findEq] at returns
    obtain ⟨samePhy, nextTables, frameAt⟩ := mapMem_spec tables isDir user aligned free returns
    obtain ⟨_, _, _, foundTables, _⟩ := findPteAlloc_spec tables isDir user findEq
    have notDir := (foundTables.tablePage isFound.isTable).2
    refine ⟨_, returns, nextTables, samePhy, frameAt, ?_, ?_, isFound.left⟩
    · intro other apart
      obtain ⟨foundApart, same⟩ := isFound.apart apart
      refine ⟨foundApart.setEntry notDir, ?_⟩
      funext idx
      rw [setEntry_words_ne (foundApart.notTable isFound.isTable).symm, same]
    · intro entry
      have different : dir ≠ table := fun same => notDir (same ▸ isDir)
      rw [setEntry_words_ne different]
      exact isFound.entries entry
  cases findPteAlloc_cases tables isDir user with
  | found table isTable findEq => exact mapped findEq (.same isTable)
  | fresh idx phy absent inside clear findEq =>
      exact mapped findEq (.addTable tables isDir user absent inside clear)
  | full absent full =>
      rw [MemState.missing, absent] at enough
      obtain ⟨idx, isClear⟩ := Finset.card_pos.mp (Nat.lt_of_lt_of_le Nat.zero_lt_one enough)
      obtain ⟨inside, clear⟩ := AddrAlloc.mem_clearPages.mp isClear
      rw [full idx inside] at clear
      cases clear

end CleanOS.Memory
