import CleanOS.Memory.MapPage
import CleanOS.Memory.PageWalk

/-!
# One directory

What a directory of any process or of the kernel maps, page by page, and how single entries
change it.  Tables are pages of their own; entries for pages of four megabytes have none.
-/

namespace CleanOS.Memory

open CleanOS.Common

/-- A present entry of a directory with a table. -/
structure SmallTable (words : Words) (dir entry table : Nat) : Prop where
  inside : entry < 1024
  isPresent : present (words dir entry) = true
  small : pageSizeBit (words dir entry) = false
  isTable : pePhyAddr (words dir entry) = table

/-- The tables of a directory are pages of their own, each behind one entry.  They and the
directory are in use. -/
structure Directory (mem : MemState) (dir : Nat) : Prop where
  paged : mem.kernelVir.Paged
  positive : 0 < mem.kernelVir.start
  named : dir ≠ 0
  dirTaken : ∀ idx ∈ mem.kernelVir.clearPages, mem.kernelVir.addr idx ≠ dir
  tableNamed : ∀ {entry table}, SmallTable mem.words dir entry table → table ≠ 0 ∧ table ≠ dir
  tableTaken : ∀ {entry table}, SmallTable mem.words dir entry table →
    ∀ idx ∈ mem.kernelVir.clearPages, mem.kernelVir.addr idx ≠ table
  own : ∀ {entry other table}, SmallTable mem.words dir entry table →
    SmallTable mem.words dir other table → entry = other

def MemState.pageAt (mem : MemState) (dir page : Nat) : Option Nat :=
  mmuWalk mem.words dir (page * memPageSize)

def MemState.BigAt (mem : MemState) (dir page : Nat) : Prop :=
  InBigPage mem.words dir (page * memPageSize)

section Entries

variable {mem : MemState} {dir table entry page other value : Nat}

theorem bigAt_iff : mem.BigAt dir page ↔ present (mem.words dir (page / 1024)) = true ∧
    pageSizeBit (mem.words dir (page / 1024)) = true := by
  rw [MemState.BigAt, InBigPage, pdeIndex_page]

theorem entry_cases (inside : page < 2 ^ 20) :
    present (mem.words dir (page / 1024)) = false ∨
      (∃ table, SmallTable mem.words dir (page / 1024) table) ∨ mem.BigAt dir page := by
  cases isPresent : present (mem.words dir (page / 1024)) with
  | false => exact .inl rfl
  | true =>
      cases big : pageSizeBit (mem.words dir (page / 1024)) with
      | false => exact .inr (.inl ⟨_, by omega, isPresent, big, rfl⟩)
      | true => exact .inr (.inr (bigAt_iff.mpr ⟨isPresent, big⟩))

theorem pageAt_absent (absent : present (mem.words dir (page / 1024)) = false) :
    mem.pageAt dir page = none := by
  simp [MemState.pageAt, mmuWalk, pdeIndex_page, absent]

theorem SmallTable.pageAt (isTable : SmallTable mem.words dir (page / 1024) table) :
    mem.pageAt dir page =
      if present (mem.words table (page % 1024)) then
        some (pePhyAddr (mem.words table (page % 1024)))
      else none := by
  have offset : page * memPageSize % memPageSize = 0 := Nat.mul_mod_left _ _
  simp only [MemState.pageAt, mmuWalk, pdeIndex_page, pteIndex_page, isTable.isPresent,
    isTable.small, isTable.isTable, not_true_eq_false, if_false, Bool.false_eq_true, offset,
    Nat.add_zero]

theorem SmallTable.notBig (isTable : SmallTable mem.words dir (page / 1024) table) :
    ¬ mem.BigAt dir page := by
  intro big
  cases isTable.small.symm.trans (bigAt_iff.mp big).2

theorem pageAt_big (big : mem.BigAt dir page) : mem.pageAt dir page =
    some (mem.words dir (page / 1024) / mb4 * mb4 + page * memPageSize % mb4) := by
  obtain ⟨isPresent, isBig⟩ := bigAt_iff.mp big
  simp [MemState.pageAt, mmuWalk, pdeIndex_page, isPresent, isBig]

theorem Directory.vaddr2paddr_page (directory : Directory mem dir) (inside : page < 2 ^ 20)
    (small : ¬ mem.BigAt dir page) :
    vaddr2paddr mem.words dir (page * memPageSize) = mem.pageAt dir page := by
  have right : WalkRight mem dir (page * memPageSize) := by
    apply walkRight_iff.mpr
    refine ⟨small, ?_, ?_⟩
    · intro _
      rw [Nat.mul_mod_left]
      decide
    · intro mapped
      refine ⟨directory.named, ?_⟩
      rw [pdeIndex_page]
      rcases entry_cases inside with absent | ⟨table, isTable⟩ | big
      · exact absurd (pageAt_absent absent) mapped
      · rw [isTable.isTable]
        exact (directory.tableNamed isTable).1
      · exact absurd big small
  exact right.agrees

end Entries

/-! ## Entries of tables -/

section SetEntry

variable {mem : MemState} {dir table entry page other idx value : Nat}

theorem setEntry_smallTable (apart : table ≠ dir) {otherTable : Nat} :
    SmallTable (mem.setEntry table idx value).words dir entry otherTable ↔
      SmallTable mem.words dir entry otherTable := by
  constructor
  · intro isTable
    obtain ⟨inside, isPresent, small, isTable⟩ := isTable
    rw [setEntry_words_ne apart.symm] at isPresent small isTable
    exact ⟨inside, isPresent, small, isTable⟩
  · intro isTable
    obtain ⟨inside, isPresent, small, isTable⟩ := isTable
    refine ⟨inside, ?_, ?_, ?_⟩
    · rw [setEntry_words_ne apart.symm, isPresent]
    · rw [setEntry_words_ne apart.symm, small]
    · rw [setEntry_words_ne apart.symm, isTable]

theorem Directory.setEntry (directory : Directory mem dir) (apart : table ≠ dir) :
    Directory (mem.setEntry table idx value) dir where
  paged := directory.paged
  positive := directory.positive
  named := directory.named
  dirTaken := directory.dirTaken
  tableNamed := fun isTable => directory.tableNamed ((setEntry_smallTable apart).mp isTable)
  tableTaken := fun isTable => directory.tableTaken ((setEntry_smallTable apart).mp isTable)
  own := fun isTable isOther =>
    directory.own ((setEntry_smallTable apart).mp isTable) ((setEntry_smallTable apart).mp isOther)

theorem setEntry_bigAt (apart : table ≠ dir) :
    (mem.setEntry table idx value).BigAt dir page ↔ mem.BigAt dir page := by
  rw [bigAt_iff, bigAt_iff, setEntry_words_ne apart.symm]

theorem Directory.pageAt_setEntry (directory : Directory mem dir)
    (isTable : SmallTable mem.words dir (page / 1024) table) (inside : other < 2 ^ 20) :
    (mem.setEntry table (page % 1024) value).pageAt dir other =
      if other = page then if present value then some (pePhyAddr value) else none
      else mem.pageAt dir other := by
  have apart := (directory.tableNamed isTable).2
  rcases @entry_cases mem dir other inside with absent | ⟨otherTable, isOther⟩ | big
  · have different : other ≠ page := by
      rintro rfl
      cases isTable.isPresent.symm.trans absent
    have stillAbsent : present ((mem.setEntry table (page % 1024) value).words dir
        (other / 1024)) = false := by
      rw [setEntry_words_ne apart.symm, absent]
    rw [if_neg different, pageAt_absent absent, pageAt_absent stillAbsent]
  · rw [((setEntry_smallTable apart).mpr isOther).pageAt, isOther.pageAt]
    by_cases sameTable : otherTable = table
    · subst sameTable
      have sameEntry := directory.own isOther isTable
      by_cases same : other = page
      · subst same
        simp [MemState.setEntry, setWord]
      · have differs : other % 1024 ≠ page % 1024 := by omega
        simp [MemState.setEntry, setWord, same, differs]
    · have different : other ≠ page := by
        rintro rfl
        exact sameTable (isOther.isTable.symm.trans isTable.isTable)
      rw [if_neg different, setEntry_words_ne sameTable]
  · have different : other ≠ page := by
      rintro rfl
      exact isTable.notBig big
    rw [if_neg different, pageAt_big big, pageAt_big ((setEntry_bigAt apart).mpr big),
      setEntry_words_ne apart.symm]

end SetEntry

/-! ## Fresh tables -/

def AddrAlloc.take (alloc : AddrAlloc) (idx : Nat) : AddrAlloc :=
  { alloc with bitmap := alloc.bitmap.set idx true }

section Fresh

variable {mem : MemState} {dir table entry page other idx : Nat} {phy : AddrAlloc}

abbrev MemState.withTable (mem : MemState) (phy : AddrAlloc) (dir entry idx : Nat) : MemState :=
  mem.addTable (mem.kernelVir.take idx) phy dir entry (mem.kernelVir.addr idx)

theorem Directory.withTable_dir (directory : Directory mem dir)
    (clear : idx ∈ mem.kernelVir.clearPages) :
    (mem.withTable phy dir entry idx).words dir other =
      if other = entry then mem.kernelVir.addr idx + 7 else mem.words dir other := by
  have different := (directory.dirTaken idx clear).symm
  have flags : mem.kernelVir.addr idx ||| 7 = mem.kernelVir.addr idx + 7 :=
    or_flags (directory.paged.addr_aligned idx) (by decide)
  simp only [MemState.addTable, clearPage, if_neg different, setWord, flags, true_and]

theorem withTable_fresh :
    (mem.withTable phy dir entry idx).words (mem.kernelVir.addr idx) other = 0 := by
  simp only [MemState.addTable, clearPage, if_true]

theorem Directory.withTable_smallTable (directory : Directory mem dir)
    (clear : idx ∈ mem.kernelVir.clearPages)
    (absent : present (mem.words dir entry) = false) (upper : entry < 1024) :
    SmallTable (mem.withTable phy dir entry idx).words dir other table ↔
      (other = entry ∧ table = mem.kernelVir.addr idx) ∨ SmallTable mem.words dir other table := by
  have aligned := directory.paged.addr_aligned idx
  have fresh : SmallTable (mem.withTable phy dir entry idx).words dir entry
      (mem.kernelVir.addr idx) := by
    have value := @Directory.withTable_dir mem dir entry entry idx phy directory clear
    rw [if_pos rfl] at value
    refine ⟨upper, ?_, ?_, ?_⟩
    · rw [value, present_flags aligned (by decide)]
    · rw [value, pageSizeBit, decide_eq_false_iff_not]
      simp only [memPageSize] at aligned
      omega
    · rw [value, pePhyAddr_flags aligned (by decide)]
  constructor
  · intro isTable
    by_cases same : other = entry
    · subst same
      exact .inl ⟨rfl, isTable.isTable.symm.trans fresh.isTable⟩
    · obtain ⟨inside, isPresent, small, isTable⟩ := isTable
      rw [directory.withTable_dir clear, if_neg same] at isPresent small isTable
      exact .inr ⟨inside, isPresent, small, isTable⟩
  · rintro (⟨rfl, rfl⟩ | isTable)
    · exact fresh
    · have different : other ≠ entry := by
        rintro rfl
        cases isTable.isPresent.symm.trans absent
      obtain ⟨inside, isPresent, small, isTable⟩ := isTable
      refine ⟨inside, ?_, ?_, ?_⟩
      · rw [directory.withTable_dir clear, if_neg different, isPresent]
      · rw [directory.withTable_dir clear, if_neg different, small]
      · rw [directory.withTable_dir clear, if_neg different, isTable]

theorem take_clearPages {alloc : AddrAlloc} :
    (alloc.take idx).clearPages = alloc.clearPages.erase idx :=
  clearPages_set

theorem Directory.withTable (directory : Directory mem dir)
    (clear : idx ∈ mem.kernelVir.clearPages)
    (absent : present (mem.words dir entry) = false) (upper : entry < 1024) :
    Directory (mem.withTable phy dir entry idx) dir := by
  have fewer : ∀ {free}, free ∈ (mem.kernelVir.take idx).clearPages →
      free ≠ idx ∧ free ∈ mem.kernelVir.clearPages := by
    intro free isClear
    rw [take_clearPages] at isClear
    exact Finset.mem_erase.mp isClear
  have positive := directory.positive
  have iff {entry' table' : Nat} := @Directory.withTable_smallTable mem dir table' entry entry' idx
    phy directory clear absent upper
  constructor
  · exact directory.paged.set
  · exact positive
  · exact directory.named
  · intro free isClear
    exact directory.dirTaken free (fewer isClear).2
  · intro entry' table' isTable
    rcases iff.mp isTable with ⟨-, rfl⟩ | isTable
    · refine ⟨?_, directory.dirTaken idx clear⟩
      simp only [AddrAlloc.addr]
      omega
    · exact directory.tableNamed isTable
  · intro entry' table' isTable free isClear
    obtain ⟨notSame, wasClear⟩ := fewer isClear
    rcases iff.mp isTable with ⟨-, rfl⟩ | isTable
    · change mem.kernelVir.addr free ≠ mem.kernelVir.addr idx
      simp only [AddrAlloc.addr, memPageSize]
      omega
    · exact directory.tableTaken isTable free wasClear
  · intro first second table' isFirst isSecond
    rcases iff.mp isFirst with ⟨rfl, rfl⟩ | isFirst
    · rcases iff.mp isSecond with ⟨rfl, -⟩ | isSecond
      · rfl
      · exact absurd rfl (directory.tableTaken isSecond idx clear)
    · rcases iff.mp isSecond with ⟨-, rfl⟩ | isSecond
      · exact absurd rfl (directory.tableTaken isFirst idx clear)
      · exact directory.own isFirst isSecond

theorem Directory.withTable_bigAt (directory : Directory mem dir)
    (clear : idx ∈ mem.kernelVir.clearPages)
    (absent : present (mem.words dir entry) = false) (upper : entry < 1024) :
    (mem.withTable phy dir entry idx).BigAt dir page ↔ mem.BigAt dir page := by
  rw [bigAt_iff, bigAt_iff, directory.withTable_dir clear]
  by_cases same : page / 1024 = entry
  · have isTable := (@Directory.withTable_smallTable mem dir (mem.kernelVir.addr idx) entry entry
      idx phy directory clear absent upper).mpr (.inl ⟨rfl, rfl⟩)
    have small := isTable.small
    rw [directory.withTable_dir clear, if_pos rfl] at small
    rw [if_pos same, same, small, absent]
    simp
  · rw [if_neg same]

theorem Directory.pageAt_withTable (directory : Directory mem dir)
    (clear : idx ∈ mem.kernelVir.clearPages)
    (absent : present (mem.words dir entry) = false) (upper : entry < 1024)
    (inside : page < 2 ^ 20) :
    (mem.withTable phy dir entry idx).pageAt dir page = mem.pageAt dir page := by
  have iff {entry' table' : Nat} := @Directory.withTable_smallTable mem dir table' entry entry' idx
    phy directory clear absent upper
  rcases @entry_cases mem dir page inside with noEntry | ⟨table, isTable⟩ | big
  · rw [pageAt_absent noEntry]
    by_cases same : page / 1024 = entry
    · rw [(iff.mpr (.inl ⟨same, rfl⟩)).pageAt, withTable_fresh]
      rfl
    · rw [pageAt_absent]
      rw [directory.withTable_dir clear, if_neg same, noEntry]
  · have notDir := (directory.tableNamed isTable).2
    have notFresh := (directory.tableTaken isTable idx clear).symm
    rw [(iff.mpr (.inr isTable)).pageAt, isTable.pageAt]
    change (if present ((mem.withTable phy dir entry idx).words table (page % 1024)) = true then _
      else _) = _
    rw [addTable_words_ne notDir notFresh]
  · have different : page / 1024 ≠ entry := by
      rintro rfl
      cases (bigAt_iff.mp big).1.symm.trans absent
    rw [pageAt_big big, pageAt_big ((directory.withTable_bigAt clear absent upper).mpr big),
      directory.withTable_dir clear, if_neg different]

end Fresh

/-! ## `find_pte_alloc` -/

/-- What `find_pte_alloc` finds: the table behind the entry of the directory, a fresh one, or
no free kernel page. -/
inductive FindsEntry (mem : MemState) (dir vaddr : Nat) : Prop where
  | found (table : Nat) (isTable : SmallTable mem.words dir (pdeIndex vaddr) table)
      (returns : findPteAlloc mem dir vaddr = some ((table, pteIndex vaddr), mem))
  | fresh (idx : Nat) (phy : AddrAlloc) (clear : idx ∈ mem.kernelVir.clearPages)
      (absent : present (mem.words dir (pdeIndex vaddr)) = false)
      (returns : findPteAlloc mem dir vaddr =
        some ((mem.kernelVir.addr idx, pteIndex vaddr),
          mem.withTable phy dir (pdeIndex vaddr) idx))
  | full (absent : present (mem.words dir (pdeIndex vaddr)) = false)
      (full : mem.kernelVir.clearPages = ∅) (returns : findPteAlloc mem dir vaddr = none)

theorem Directory.findPteAlloc_cases {mem : MemState} {dir vaddr : Nat}
    (directory : Directory mem dir) (inside : vaddr < 2 ^ 32)
    (small : ¬ InBigPage mem.words dir vaddr) : FindsEntry mem dir vaddr := by
  cases isPresent : present (mem.words dir (pdeIndex vaddr)) with
  | true =>
      have notBig : pageSizeBit (mem.words dir (pdeIndex vaddr)) = false :=
        Bool.eq_false_iff.mpr fun big => small ⟨isPresent, big⟩
      have entryInside : pdeIndex vaddr < 1024 := by
        simp only [pdeIndex]
        omega
      apply FindsEntry.found _ ⟨entryInside, isPresent, notBig, rfl⟩
      simp only [findPteAlloc, isPresent, if_true]
  | false =>
      rcases findPteAlloc_absent directory.paged isPresent with
        ⟨idx, phy, idxInside, clear, returns⟩ | ⟨full, returns⟩
      · exact .fresh idx phy (AddrAlloc.mem_clearPages.mpr ⟨idxInside, clear⟩) isPresent returns
      · refine .full isPresent (Finset.eq_empty_of_forall_notMem ?_) returns
        intro idx isClear
        obtain ⟨idxInside, clear⟩ := AddrAlloc.mem_clearPages.mp isClear
        cases clear.symm.trans (full idx idxInside)

/-! ## One page -/

structure PageAdded (mem next : MemState) (dir page paddr : Nat) : Prop where
  directory : Directory next dir
  pageAt : ∀ other < 2 ^ 20, next.pageAt dir other =
    if other = page then some paddr else mem.pageAt dir other
  bigAt : ∀ other, next.BigAt dir other ↔ mem.BigAt dir other
  entries : ∀ entry, present (next.words dir entry) = true ↔
    present (mem.words dir entry) = true ∨ entry = page / 1024
  left : mem.kernelVir.clearPages.card ≤
    next.kernelVir.clearPages.card + mem.missing dir (page / 1024)

section AddPage

variable {mem found next : MemState} {dir page table paddr permit : Nat}

theorem entry_frame (aligned : paddr % memPageSize = 0) (small : permit < 4096) :
    pePhyAddr (paddr ||| permit ||| 1) = paddr := by
  have flags : permit ||| 1 < 4096 := @Nat.or_lt_two_pow permit 1 12 small (by decide)
  rw [Nat.or_assoc, or_flags aligned flags]
  exact pePhyAddr_flags aligned flags

theorem entry_present : present (paddr ||| permit ||| 1) = true :=
  decide_eq_true (Nat.or_mod_two_eq_one.mpr (.inr rfl))

theorem Directory.setFrame (directory : Directory mem dir)
    (isTable : SmallTable mem.words dir (page / 1024) table) :
    PageAdded mem (mem.setEntry table (page % 1024) (paddr ||| permit ||| 1)) dir page
      (pePhyAddr (paddr ||| permit ||| 1)) := by
  have apart := (directory.tableNamed isTable).2
  constructor
  · exact directory.setEntry apart
  · intro other inside
    rw [directory.pageAt_setEntry isTable inside, entry_present, if_pos rfl]
  · intro other
    exact setEntry_bigAt apart
  · intro entry
    rw [setEntry_words_ne apart.symm]
    constructor
    · exact .inl
    · rintro (isEntry | rfl)
      · exact isEntry
      · exact isTable.isPresent
  · exact Nat.le_add_right _ _

theorem Directory.createMemMap_mapped (directory : Directory mem dir) (inside : page < 2 ^ 20)
    (small : ¬ mem.BigAt dir page) (mapped : mem.pageAt dir page ≠ none) :
    createMemMap dir permit mem (page * memPageSize) paddr 1 = some (-1, mem) := by
  have below : page * memPageSize < 2 ^ 32 := by
    simp only [memPageSize]
    omega
  rcases @entry_cases mem dir page inside with absent | ⟨table, isTable⟩ | big
  · exact absurd (pageAt_absent absent) mapped
  · have isPresent : present (mem.words table (page % 1024)) = true := by
      by_contra absent
      apply mapped
      rw [isTable.pageAt, if_neg absent]
    cases directory.findPteAlloc_cases below small with
    | found other isOther returns =>
        rw [pdeIndex_page] at isOther
        obtain rfl := isOther.isTable.symm.trans isTable.isTable
        rw [pteIndex_page] at returns
        simp only [createMemMap, returns, isPresent, Option.bind_eq_bind, Option.bind_some,
          if_true]
    | fresh idx phy clear absent returns =>
        rw [pdeIndex_page] at absent
        cases isTable.isPresent.symm.trans absent
    | full absent full returns =>
        rw [pdeIndex_page] at absent
        cases isTable.isPresent.symm.trans absent
  · exact absurd big small

theorem Directory.createMemMap_cases (directory : Directory mem dir) (inside : page < 2 ^ 20)
    (small : ¬ mem.BigAt dir page) (free : mem.pageAt dir page = none) :
    (createMemMap dir permit mem (page * memPageSize) paddr 1 = none ∧
      mem.kernelVir.clearPages.card < mem.missing dir (page / 1024)) ∨
    ∃ next, createMemMap dir permit mem (page * memPageSize) paddr 1 = some (0, next) ∧
      PageAdded mem next dir page (pePhyAddr (paddr ||| permit ||| 1)) ∧
      next.userPhy = mem.userPhy := by
  have below : page * memPageSize < 2 ^ 32 := by
    simp only [memPageSize]
    omega
  have upper : page / 1024 < 1024 := by omega
  have oneMore {found : MemState} {table : Nat}
      (returns : findPteAlloc mem dir (page * memPageSize) = some ((table, page % 1024), found))
      (clear : present (found.words table (page % 1024)) = false) :
      createMemMap dir permit mem (page * memPageSize) paddr 1 =
        some (0, found.setEntry table (page % 1024) (paddr ||| permit ||| 1)) := by
    simp only [createMemMap, returns, clear, Option.bind_eq_bind, Option.bind_some,
      Bool.false_eq_true, if_false, MemState.setEntry]
  cases directory.findPteAlloc_cases below small with
  | found table isTable returns =>
      rw [pdeIndex_page] at isTable
      rw [pteIndex_page] at returns
      have clear : present (mem.words table (page % 1024)) = false := by
        rw [isTable.pageAt] at free
        by_contra isPresent
        rw [if_pos (Bool.not_eq_false _ ▸ isPresent)] at free
        cases free
      exact .inr ⟨_, oneMore returns clear, directory.setFrame isTable, rfl⟩
  | fresh idx phy clear absent returns =>
      rw [pdeIndex_page] at absent returns
      rw [pteIndex_page] at returns
      have isTable := (@Directory.withTable_smallTable mem dir (mem.kernelVir.addr idx) (page / 1024)
        (page / 1024) idx phy directory clear absent upper).mpr (.inl ⟨rfl, rfl⟩)
      have withTable := @Directory.withTable mem dir (page / 1024) idx phy directory clear absent
        upper
      have empty : present ((mem.withTable phy dir (page / 1024) idx).words
          (mem.kernelVir.addr idx) (page % 1024)) = false := by
        rw [withTable_fresh]
        rfl
      have added := @Directory.setFrame _ _ _ _ paddr permit withTable isTable
      refine .inr ⟨_, oneMore returns empty, ⟨added.directory, ?_, ?_, ?_, ?_⟩, rfl⟩
      · intro other otherInside
        rw [added.pageAt other otherInside,
          directory.pageAt_withTable clear absent upper otherInside]
      · intro other
        rw [added.bigAt, directory.withTable_bigAt clear absent upper]
      · intro entry
        rw [added.entries, directory.withTable_dir clear]
        by_cases same : entry = page / 1024
        · exact iff_of_true (.inr same) (.inr same)
        · rw [if_neg same]
      · have oneLess := Finset.card_erase_add_one clear
        rw [MemState.missing, absent]
        change _ ≤ (mem.kernelVir.take idx).clearPages.card + _
        rw [take_clearPages]
        exact oneLess.ge
  | full absent full returns =>
      left
      rw [pdeIndex_page] at absent
      constructor
      · simp only [createMemMap, returns, Option.bind_eq_bind, Option.bind_none]
      · rw [MemState.missing, absent, full]
        exact Nat.zero_lt_one

@[inherit_doc Directory.createMemMap_cases]
theorem Directory.createMemMap_free (directory : Directory mem dir) (inside : page < 2 ^ 20)
    (small : ¬ mem.BigAt dir page) (free : mem.pageAt dir page = none)
    (aligned : paddr % memPageSize = 0) (flags : permit < 4096)
    (enough : mem.missing dir (page / 1024) ≤ mem.kernelVir.clearPages.card) :
    ∃ next, createMemMap dir permit mem (page * memPageSize) paddr 1 = some (0, next) ∧
      PageAdded mem next dir page paddr := by
  rcases @Directory.createMemMap_cases mem dir page paddr permit directory inside small free with
    ⟨-, short⟩ | ⟨next, returns, added, -⟩
  · exact absurd enough (Nat.not_le.mpr short)
  · rw [entry_frame aligned flags] at added
    exact ⟨next, returns, added⟩

end AddPage

end CleanOS.Memory
