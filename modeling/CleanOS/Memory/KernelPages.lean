import CleanOS.Lib.Calls
import CleanOS.Memory.InitPaging

/-!
# Kernel pages

`alloc_kernel_mem` and `unalloc_kernel_mem` of `kernel/memory/paging.c`, called in any order
after `init_paging`.  Addresses are taken as one run and frames one by one, and nothing maps
the addresses to these frames: the mapping is the one that `init_paging` made.
-/

namespace CleanOS.Memory

open CleanOS.Common CleanOS.Lib

/-- `unalloc_kernel_mem`: `unmalloc_mem` for the kernel, which unmaps nothing. -/
def unallocKernelMem (kernelPageDir : Nat) (mem : MemState) (vaddr : Nat) (pageCount : Int) :
    Int × MemState :=
  let (err, kernel, mem) := unallocMem mem ⟨kernelPageDir, mem.kernelVir⟩ vaddr pageCount
  (err, { mem with kernelVir := kernel.vir })

/-- A range of pages, as `alloc_kernel_mem` returned it. -/
structure KernelRange where
  vaddr : Nat
  pageCount : Nat
  deriving DecidableEq

/-- The memory, and the ranges that were returned and are not released. -/
structure KernelRanges where
  mem : MemState
  live : List KernelRange

/-- A call of the kernel for its pages, or a word that it writes in between. -/
inductive KernelCall where
  | alloc (pageCount : Int)
  | unalloc (range : KernelRange)
  | write (page idx value : Nat)

def kernelCall (kernelPageDir : Nat) (state : KernelRanges) :
    KernelCall → Option (Int × KernelRanges)
  | .alloc pageCount =>
      let (vaddr, mem) := allocKernelMem state.mem pageCount
      some (vaddr,
        { mem := mem
          live :=
            if 0 < pageCount ∧ vaddr ≠ failed then ⟨vaddr, pageCount.toNat⟩ :: state.live
            else state.live })
  | .unalloc range =>
      let (err, mem) := unallocKernelMem kernelPageDir state.mem range.vaddr range.pageCount
      some (err, ⟨mem, state.live.erase range⟩)
  | .write page idx value =>
      some (0, { state with
        mem := { state.mem with words := setWord state.mem.words page idx value } })

/-- The page that the processor finds at a kernel address, unless it raises a page fault.  An
entry of the directory with the bit for the page size maps four megabytes. -/
def kernelFrame (words : Words) (cr3 vaddr : Nat) : Option Nat :=
  let pde := words cr3 (pdeIndex vaddr)
  if present pde ∧ pde / 2 ^ 7 % 2 = 1 then
    some (pde / mb4 * mb4 + vaddr % mb4 / memPageSize * memPageSize)
  else translate words cr3 vaddr

def KernelRange.Covers (range : KernelRange) (page : Nat) : Prop :=
  page % memPageSize = 0 ∧ range.vaddr ≤ page ∧
    page < range.vaddr + range.pageCount * memPageSize

def KernelRange.Reaches (range : KernelRange) (words : Words) (kernelPageDir paddr : Nat) : Prop :=
  ∃ page, range.Covers page ∧ kernelFrame words kernelPageDir page = some paddr

/-- The live ranges are disjoint ranges of the `pages` kernel pages, and both bitmaps say
which pages they have: the one of addresses and, under the kernel's mapping, the one of
frames. -/
structure BitmapsAgree (kernelPageDir pages : Nat) (state : KernelRanges) : Prop where
  inside : ∀ range ∈ state.live, ∀ page, range.Covers page →
    ∃ idx, idx < pages ∧ page = state.mem.kernelVir.addr idx
  disjoint : state.live.Pairwise fun range other =>
    ∀ page, range.Covers page → ¬ other.Covers page
  vir : ∀ idx, idx < state.mem.kernelVir.pages →
    (state.mem.kernelVir.bitmap.bit idx = true ↔
      ∃ range ∈ state.live, range.Covers (state.mem.kernelVir.addr idx))
  phy : ∀ idx, idx < state.mem.kernelPhy.pages →
    (state.mem.kernelPhy.bitmap.bit idx = true ↔
      ∃ range ∈ state.live,
        range.Reaches state.mem.words kernelPageDir (state.mem.kernelPhy.addr idx))

def ReleaseRight (kernelPageDir : Nat) (state : KernelRanges) (range : KernelRange) (result : Int)
    (after : KernelRanges) : Prop :=
  result = 0 ∧
    (∀ idx, idx < state.mem.kernelVir.pages →
      (after.mem.kernelVir.bitmap.bit idx = true ↔ state.mem.kernelVir.bitmap.bit idx = true ∧
        ¬ range.Covers (state.mem.kernelVir.addr idx))) ∧
    ∀ idx, idx < state.mem.kernelPhy.pages →
      (after.mem.kernelPhy.bitmap.bit idx = true ↔ state.mem.kernelPhy.bitmap.bit idx = true ∧
        ¬ range.Reaches state.mem.words kernelPageDir (state.mem.kernelPhy.addr idx))

def KernelRight (kernelPageDir : Nat) (state : KernelRanges) :
    KernelCall → Int → KernelRanges → Prop
  | .unalloc range => ReleaseRight kernelPageDir state range
  | _ => fun _ _ => True

/-- The first `count` clear bits lie next to each other. -/
structure FirstFree (btm : Bitmap) (pages start count : Nat) : Prop where
  inside : start + count ≤ pages
  before : ∀ idx, idx < start → btm.bit idx = true
  clear : ∀ idx, start ≤ idx → idx < start + count → btm.bit idx = false

/-- From the fourth megabyte on `get_pte` takes the page at the start of each four megabytes
for their table.  The word of this page where it would have the entry names the page itself. -/
def NamesItself (words : Words) (vaddr : Nat) : Prop :=
  present (words (vaddr / mb4 * mb4) (pteIndex vaddr)) = true ∧
    pePhyAddr (words (vaddr / mb4 * mb4) (pteIndex vaddr)) = vaddr

/-- An allocation while enough memory remains, a release of a live range, or a word that is
not part of the kernel's mapping. -/
def KernelScope (kernelPageDir pages : Nat) (state : KernelRanges) : KernelCall → Prop
  | .alloc pageCount => 0 < pageCount → pageCount ≤ mallocMaxPage →
      ∃ run, run + pageCount.toNat ≤ pages ∧
        ∀ idx, run ≤ idx → idx < run + pageCount.toNat → state.mem.kernelVir.bitmap.bit idx = false
  | .unalloc range => range ∈ state.live
  | .write page idx value =>
      KernelMapped kernelPageDir pages (setWord state.mem.words page idx value)

/-- The first free pages lie next to each other when pages are allocated.  A released range
starts below the fourth megabyte, or where the word that is taken for its entry names it. -/
def KernelGuard (pages : Nat) (state : KernelRanges) : KernelCall → Prop
  | .alloc pageCount => 0 < pageCount → pageCount ≤ mallocMaxPage →
      ∃ start, FirstFree state.mem.kernelVir.bitmap pages start pageCount.toNat
  | .unalloc range => range.vaddr < mb4 ∨ NamesItself state.mem.words range.vaddr
  | .write _ _ _ => True

structure KernelAgree (kernelPageDir pages : Nat) (state : KernelRanges) : Prop where
  same : state.mem.kernelPhy = state.mem.kernelVir
  paged : state.mem.kernelVir.Paged
  start : state.mem.kernelVir.start = memExtStart
  size : pages ≤ state.mem.kernelVir.pages
  user : state.mem.kernelVir.addr pages ≤ state.mem.userPhy.start
  small : state.mem.userPhy.start ≤ 2 ^ 32
  mapped : KernelMapped kernelPageDir pages state.mem.words
  ranges : ∀ range ∈ state.live, ∃ first, range.vaddr = state.mem.kernelVir.addr first ∧
    0 < range.pageCount ∧ first + range.pageCount ≤ pages
  disjoint : state.live.Pairwise fun range other =>
    ∀ page, range.Covers page → ¬ other.Covers page
  bits : ∀ idx, idx < state.mem.kernelVir.pages →
    (state.mem.kernelVir.bitmap.bit idx = true ↔
      ∃ range ∈ state.live, range.Covers (state.mem.kernelVir.addr idx))

section Mapped

variable {words : Words} {dir pages page vaddr : Nat}

theorem KernelMapped.frame_eq (mapped : KernelMapped dir pages words) (lower : 768 ≤ page)
    (upper : page < 768 + pages) :
    kernelFrame words dir (page * memPageSize) = some (page * memPageSize) := by
  rw [kernelFrame]
  by_cases small : page < 1024
  · have entry : page / 1024 = 0 := by omega
    have offset : page % 1024 = page := by omega
    obtain ⟨isPresent, noSize, isTable⟩ := mapped.table
    obtain ⟨pagePresent, pageFrame⟩ := mapped.small page lower small
    have notBig : ¬ words dir 0 / 2 ^ 7 % 2 = 1 := by omega
    simp only [pdeIndex_page, pteIndex_page, entry, offset, notBig, and_false, translate,
      isPresent, isTable, pagePresent, pageFrame, not_true_eq_false, if_false]
  · obtain ⟨isPresent, size, frame⟩ := mapped.big (page / 1024) (by omega) (by omega)
    have base : words dir (page / 1024) / mb4 = page / 1024 := by
      simp only [pePhyAddr, mb4] at frame ⊢
      omega
    have found : page / 1024 * mb4 + page * memPageSize % mb4 / memPageSize * memPageSize =
        page * memPageSize := by
      simp only [mb4, memPageSize]
      omega
    rw [← base] at found
    simp only [pdeIndex_page, isPresent, size, and_self, if_true, found]

theorem KernelMapped.paddr_big (mapped : KernelMapped dir pages words) (lower : 1024 ≤ page)
    (upper : page < 768 + pages) :
    vaddr2paddr words dir (page * memPageSize) =
      if present (words (page * memPageSize / mb4 * mb4) (pteIndex (page * memPageSize))) then
        some (pePhyAddr (words (page * memPageSize / mb4 * mb4) (pteIndex (page * memPageSize))))
      else none := by
  have noOffset : page * memPageSize % 1024 = 0 := by
    simp only [memPageSize]
    omega
  have base : page * memPageSize / mb4 * mb4 = page / 1024 * mb4 := by
    simp only [memPageSize, mb4]
    omega
  have notNull : page / 1024 * mb4 ≠ 0 := by
    simp only [mb4]
    omega
  obtain ⟨isPresent, -, isTable⟩ := mapped.big (page / 1024) (by omega) (by omega)
  simp only [vaddr2paddr, getPte, if_neg mapped.dir, base, pdeIndex_page, pteIndex_page,
    isPresent, isTable, if_neg notNull, not_true_eq_false, if_false, noOffset, Nat.add_zero]

theorem KernelMapped.paddr_eq (mapped : KernelMapped dir pages words) (lower : 768 ≤ page)
    (upper : page < 768 + pages)
    (named : page * memPageSize < mb4 ∨ NamesItself words (page * memPageSize)) :
    vaddr2paddr words dir (page * memPageSize) = some (page * memPageSize) := by
  have noOffset : page * memPageSize % 1024 = 0 := by
    simp only [memPageSize]
    omega
  by_cases small : page < 1024
  · have entry : page / 1024 = 0 := by omega
    have offset : page % 1024 = page := by omega
    have notNull : memExtStart ≠ 0 := by decide
    obtain ⟨isPresent, -, isTable⟩ := mapped.table
    obtain ⟨pagePresent, pageFrame⟩ := mapped.small page lower small
    simp only [vaddr2paddr, getPte, if_neg mapped.dir, pdeIndex_page, pteIndex_page, entry,
      offset, isPresent, isTable, notNull, pagePresent, pageFrame, not_true_eq_false, if_false,
      if_true, noOffset, Nat.add_zero]
  · have large : ¬ page * memPageSize < mb4 := by
      simp only [memPageSize, mb4]
      omega
    obtain ⟨wordPresent, wordFrame⟩ := named.resolve_left large
    rw [mapped.paddr_big (by omega) upper, if_pos wordPresent, wordFrame]

end Mapped

section Steps

variable {alloc : AddrAlloc} {state : KernelRanges} {dir pages start count idx : Nat}
  {pageCount : Int} {range : KernelRange}

def AddrAlloc.mark (alloc : AddrAlloc) (start count : Nat) (use : Bool) : AddrAlloc :=
  { alloc with bitmap := setBits alloc.bitmap start count use }

theorem AddrAlloc.Paged.mark {use : Bool} (paged : alloc.Paged) :
    (alloc.mark start count use).Paged := by
  refine ⟨paged.pageSize, paged.aligned, ?_⟩
  rw [AddrAlloc.mark, setBits_bytesLen]
  exact paged.below

theorem AddrAlloc.mark_pages {use : Bool} : (alloc.mark start count use).pages = alloc.pages := by
  rw [AddrAlloc.pages, AddrAlloc.mark, setBits_bytesLen]
  rfl

theorem AddrAlloc.mark_bit {use : Bool} : (alloc.mark start count use).bitmap.bit idx =
    if start ≤ idx ∧ idx < start + count then use else alloc.bitmap.bit idx :=
  setBits_bit

theorem FirstFree.shorter {btm : Bitmap} {extra : Nat}
    (free : FirstFree btm pages start (count + extra)) : FirstFree btm pages start count := by
  have inside := free.inside
  refine ⟨by omega, free.before, ?_⟩
  intro idx lower upper
  exact free.clear idx lower (by omega)

theorem FirstFree.mark {extra : Nat} (free : FirstFree alloc.bitmap pages start (count + extra)) :
    FirstFree (alloc.mark start count true).bitmap pages (start + count) extra := by
  have inside := free.inside
  constructor
  · omega
  · intro idx upper
    rw [AddrAlloc.mark_bit]
    by_cases taken : start ≤ idx
    · rw [if_pos ⟨taken, upper⟩]
    · rw [if_neg fun both => taken both.1]
      exact free.before idx (by omega)
  · intro idx lower upper
    rw [AddrAlloc.mark_bit, if_neg (by omega)]
    exact free.clear idx (by omega) (by omega)

theorem allocPages_run (paged : alloc.Paged)
    (free : FirstFree alloc.bitmap alloc.pages start count) :
    (allocPages alloc count).2 = alloc.mark start count true := by
  induction count generalizing alloc start with
  | zero => rfl
  | succ count ih =>
      have inside := free.inside
      have found : alloc.bitmap.scan (1 : Int).toNat = (start : Nat) := by
        apply alloc.bitmap.scan_first Nat.zero_lt_one free.before
        · exact Nat.le_trans (by omega) inside
        · intro idx lower upper
          exact free.clear idx lower (by omega)
      have one : allocRange alloc 1 = (alloc.addr start, alloc.mark start 1 true) :=
        allocRange_found paged Int.zero_lt_one (by decide) found (Nat.le_trans (by omega) inside)
      have next : FirstFree alloc.bitmap alloc.pages start (1 + count) :=
        Nat.add_comm count 1 ▸ free
      have rest := @ih (alloc.mark start 1 true) (start + 1) paged.mark
        (AddrAlloc.mark_pages.symm ▸ next.mark)
      simp only [allocPages, allocPhyMem, one, rest]
      rfl

def KernelRanges.mark (state : KernelRanges) (start count : Nat) (use : Bool)
    (live : List KernelRange) : KernelRanges :=
  { mem := { state.mem with
      kernelPhy := state.mem.kernelVir.mark start count use
      kernelVir := state.mem.kernelVir.mark start count use }
    live := live }

theorem KernelAgree.alloc_found {taken : AddrAlloc} (agree : KernelAgree dir pages state)
    (positive : 0 < pageCount) (small : pageCount ≤ mallocMaxPage)
    (found : state.mem.kernelVir.bitmap.scan pageCount.toNat = start)
    (inside : start + pageCount.toNat ≤ pages)
    (frames : (allocPages state.mem.kernelVir pageCount.toNat).2 = taken) :
    kernelCall dir state (.alloc pageCount) = some ((state.mem.kernelVir.addr start : Int),
      { mem := { state.mem with
          kernelPhy := taken
          kernelVir := state.mem.kernelVir.mark start pageCount.toNat true }
        live := ⟨state.mem.kernelVir.addr start, pageCount.toNat⟩ :: state.live }) := by
  have vir := allocRange_found agree.paged positive (by simp only [mallocMaxPage] at small; omega)
    found (Nat.le_trans inside agree.size)
  have notFailed := aligned_ne_failed (agree.paged.addr_aligned start)
  simp only [kernelCall, allocKernelMem, if_neg (Int.not_lt.mpr small), allocMemPage, allocVirMem,
    vir, agree.same, frames, if_pos (And.intro positive notFailed)]
  rfl

theorem KernelAgree.alloc_eq (agree : KernelAgree dir pages state)
    (positive : 0 < pageCount) (small : pageCount ≤ mallocMaxPage)
    (free : FirstFree state.mem.kernelVir.bitmap pages start pageCount.toNat) :
    kernelCall dir state (.alloc pageCount) = some ((state.mem.kernelVir.addr start : Int),
      state.mark start pageCount.toNat true
        (⟨state.mem.kernelVir.addr start, pageCount.toNat⟩ :: state.live)) := by
  have fits := Nat.le_trans free.inside agree.size
  apply agree.alloc_found positive small _ free.inside
  · exact allocPages_run agree.paged ⟨fits, free.before, free.clear⟩
  · exact state.mem.kernelVir.bitmap.scan_first (by omega) free.before fits free.clear

theorem covers_addr (paged : alloc.Paged) (first : range.vaddr = alloc.addr start) :
    range.Covers (alloc.addr idx) ↔ start ≤ idx ∧ idx < start + range.pageCount := by
  have aligned := paged.aligned
  simp only [KernelRange.Covers, first, AddrAlloc.addr, memPageSize] at *
  omega

theorem covers_inside {page : Nat} (paged : alloc.Paged) (first : range.vaddr = alloc.addr start)
    (covers : range.Covers page) :
    ∃ idx, idx < start + range.pageCount ∧ page = alloc.addr idx := by
  have aligned := paged.aligned
  refine ⟨(page - alloc.start) / memPageSize, ?_⟩
  simp only [KernelRange.Covers, first, AddrAlloc.addr, memPageSize] at *
  omega

theorem KernelAgree.frame_addr (agree : KernelAgree dir pages state) (inside : idx < pages) :
    kernelFrame state.mem.words dir (state.mem.kernelVir.addr idx) =
      some (state.mem.kernelVir.addr idx) := by
  have addr : state.mem.kernelVir.addr idx = (768 + idx) * memPageSize := by
    simp only [AddrAlloc.addr, agree.start, memExtStart, memPageSize]
    omega
  rw [addr]
  exact agree.mapped.frame_eq (Nat.le_add_right _ _) (Nat.add_lt_add_left inside _)

theorem KernelAgree.reaches_addr (agree : KernelAgree dir pages state)
    (first : range.vaddr = state.mem.kernelVir.addr start)
    (inside : start + range.pageCount ≤ pages) :
    range.Reaches state.mem.words dir (state.mem.kernelVir.addr idx) ↔
      range.Covers (state.mem.kernelVir.addr idx) := by
  constructor
  · rintro ⟨page, covers, frame⟩
    obtain ⟨other, upper, rfl⟩ := covers_inside agree.paged first covers
    rw [agree.frame_addr (by omega), Option.some.injEq] at frame
    exact frame ▸ covers
  · intro covers
    have bounds := (covers_addr agree.paged first).mp covers
    exact ⟨_, covers, agree.frame_addr (by omega)⟩

theorem KernelAgree.bitmapsAgree (agree : KernelAgree dir pages state) :
    BitmapsAgree dir pages state := by
  constructor
  · intro range live page covers
    obtain ⟨first, isFirst, -, inside⟩ := agree.ranges range live
    obtain ⟨idx, upper, isAddr⟩ := covers_inside agree.paged isFirst covers
    exact ⟨idx, by omega, isAddr⟩
  · exact agree.disjoint
  · exact agree.bits
  · intro idx inside
    rw [agree.same] at inside ⊢
    rw [agree.bits idx inside]
    apply exists_congr
    intro range
    apply and_congr_right
    intro live
    obtain ⟨first, isFirst, -, upper⟩ := agree.ranges range live
    exact (agree.reaches_addr isFirst upper).symm

theorem KernelAgree.alloc_mark (agree : KernelAgree dir pages state) (positive : 0 < count)
    (free : FirstFree state.mem.kernelVir.bitmap pages start count) :
    KernelAgree dir pages (state.mark start count true
      (⟨state.mem.kernelVir.addr start, count⟩ :: state.live)) := by
  have sizes : (state.mem.kernelVir.mark start count true).pages = state.mem.kernelVir.pages :=
    AddrAlloc.mark_pages
  obtain ⟨range, rangeEq⟩ : ∃ range : KernelRange,
    ⟨state.mem.kernelVir.addr start, count⟩ = range := ⟨_, rfl⟩
  have rangeStart : range.vaddr = state.mem.kernelVir.addr start := by rw [← rangeEq]
  have rangeCount : range.pageCount = count := by rw [← rangeEq]
  have inside := free.inside
  rw [rangeEq]
  constructor
  · rfl
  · exact agree.paged.mark
  · exact agree.start
  · exact sizes ▸ agree.size
  · exact agree.user
  · exact agree.small
  · exact agree.mapped
  · intro other live
    rcases List.mem_cons.mp live with rfl | live
    · exact ⟨start, rangeStart, by omega, by omega⟩
    · exact agree.ranges other live
  · refine List.pairwise_cons.mpr ⟨?_, agree.disjoint⟩
    intro other live page covers otherCovers
    obtain ⟨idx, upper, rfl⟩ := covers_inside agree.paged rangeStart covers
    obtain ⟨lower, -⟩ := (covers_addr agree.paged rangeStart).mp covers
    have isSet := (agree.bits idx (Nat.lt_of_lt_of_le (by omega) agree.size)).mpr
      ⟨other, live, otherCovers⟩
    rw [free.clear idx lower (by omega)] at isSet
    cases isSet
  · intro idx bound
    have old := agree.bits idx (sizes ▸ bound)
    have covers := @covers_addr state.mem.kernelVir start idx range agree.paged rangeStart
    change (state.mem.kernelVir.mark start count true).bitmap.bit idx = true ↔
      ∃ other ∈ range :: state.live, other.Covers (state.mem.kernelVir.addr idx)
    rw [List.exists_mem_cons_iff, AddrAlloc.mark_bit, covers, rangeCount, ← old]
    by_cases taken : start ≤ idx ∧ idx < start + count
    · rw [if_pos taken]
      exact iff_of_true rfl (.inl taken)
    · rw [if_neg taken]
      exact (or_iff_right taken).symm

theorem allocKernelMem_none {mem : MemState}
    (none : pageCount ≤ 0 ∨ pageCount > mallocMaxPage) :
    (allocKernelMem mem pageCount).2 = mem ∧
      ¬ (0 < pageCount ∧ (allocKernelMem mem pageCount).1 ≠ failed) := by
  by_cases large : pageCount > mallocMaxPage
  · simp [allocKernelMem, if_pos large]
  · have empty : pageCount ≤ 0 := none.resolve_right large
    have noPage : pageCount.toNat = 0 := Int.toNat_of_nonpos empty
    have notPositive : ¬ 0 < pageCount := Int.not_lt.mpr empty
    refine ⟨?_, fun both => notPositive both.1⟩
    simp only [allocKernelMem, if_neg large, allocMemPage, allocVirMem, allocRange, noPage,
      allocPages, allocMemUse, setBits]
    split <;> rfl

/-- Releasing a live range of which `get_pte` finds the page clears the bits of the range. -/
theorem KernelAgree.unalloc_eq (agree : KernelAgree dir pages state)
    (isFirst : range.vaddr = state.mem.kernelVir.addr start) (positive : 0 < range.pageCount)
    (inside : start + range.pageCount ≤ pages)
    (named : range.vaddr < mb4 ∨ NamesItself state.mem.words range.vaddr) :
    kernelCall dir state (.unalloc range) =
      some (0, state.mark start range.pageCount false (state.live.erase range)) := by
  have addr : range.vaddr = (768 + start) * memPageSize := by
    simp only [isFirst, AddrAlloc.addr, agree.start, memExtStart, memPageSize]
    omega
  have found : vaddr2paddr state.mem.words dir range.vaddr = some range.vaddr := by
    rw [addr] at named ⊢
    exact agree.mapped.paddr_eq (Nat.le_add_right _ _) (by omega) named
  have kernel : range.vaddr < state.mem.userPhy.start := by
    have user := agree.user
    simp only [isFirst, AddrAlloc.addr, memPageSize] at user ⊢
    omega
  have released : allocMemUse state.mem.kernelVir range.vaddr range.pageCount false =
      state.mem.kernelVir.mark start range.pageCount false := by
    rw [isFirst, allocMemUse_addr agree.paged (Nat.lt_of_lt_of_le (by omega) agree.size),
      Int.toNat_natCast]
    rfl
  simp only [kernelCall, unallocKernelMem, unallocMem, found, freePhyMem, if_pos kernel,
    freeVirMem, agree.same, released]
  rfl

theorem KernelAgree.mark_released (agree : KernelAgree dir pages state)
    (isFirst : range.vaddr = state.mem.kernelVir.addr start) :
    (state.mem.kernelVir.mark start range.pageCount false).bitmap.bit idx = true ↔
      state.mem.kernelVir.bitmap.bit idx = true ∧
        ¬ range.Covers (state.mem.kernelVir.addr idx) := by
  rw [AddrAlloc.mark_bit, covers_addr agree.paged isFirst]
  by_cases member : start ≤ idx ∧ idx < start + range.pageCount
  · rw [if_pos member]
    exact iff_of_false Bool.false_ne_true fun both => both.2 member
  · rw [if_neg member]
    exact (and_iff_left member).symm

theorem KernelAgree.unalloc_right (agree : KernelAgree dir pages state)
    (isFirst : range.vaddr = state.mem.kernelVir.addr start)
    (inside : start + range.pageCount ≤ pages) :
    ReleaseRight dir state range 0
      (state.mark start range.pageCount false (state.live.erase range)) := by
  refine ⟨rfl, fun idx _ => agree.mark_released isFirst, ?_⟩
  intro idx _
  rw [agree.same, agree.reaches_addr isFirst inside]
  exact agree.mark_released isFirst

theorem KernelAgree.unalloc_mark (agree : KernelAgree dir pages state) (live : range ∈ state.live)
    (isFirst : range.vaddr = state.mem.kernelVir.addr start) :
    KernelAgree dir pages
      (state.mark start range.pageCount false (state.live.erase range)) := by
  have sizes : (state.mem.kernelVir.mark start range.pageCount false).pages =
      state.mem.kernelVir.pages := AddrAlloc.mark_pages
  -- the range is disjoint from all that stay
  have perm := List.perm_cons_erase live
  have apart := (perm.pairwise_iff fun {first second} disjoint page covers other =>
    disjoint page other covers).mp agree.disjoint
  obtain ⟨fromRange, others⟩ := List.pairwise_cons.mp apart
  constructor
  · rfl
  · exact agree.paged.mark
  · exact agree.start
  · exact sizes ▸ agree.size
  · exact agree.user
  · exact agree.small
  · exact agree.mapped
  · intro other stays
    exact agree.ranges other (List.mem_of_mem_erase stays)
  · exact others
  · intro idx bound
    refine (agree.mark_released isFirst).trans ?_
    rw [agree.bits idx (sizes ▸ bound)]
    constructor
    · rintro ⟨⟨other, member, otherCovers⟩, notRange⟩
      rcases List.mem_cons.mp (perm.subset member) with rfl | stays
      · exact absurd otherCovers notRange
      · exact ⟨other, stays, otherCovers⟩
    · rintro ⟨other, stays, otherCovers⟩
      refine ⟨⟨other, List.mem_of_mem_erase stays, otherCovers⟩, fun rangeCovers => ?_⟩
      exact fromRange other stays _ rangeCovers otherCovers

theorem KernelAgree.call {call : KernelCall} (agree : KernelAgree dir pages state)
    (inScope : KernelScope dir pages state call) (guarded : KernelGuard pages state call) :
    ∃ result after, kernelCall dir state call = some (result, after) ∧
      KernelRight dir state call result after ∧ KernelAgree dir pages after := by
  cases call with
  | alloc pageCount =>
      by_cases none : pageCount ≤ 0 ∨ pageCount > mallocMaxPage
      · obtain ⟨sameMem, notLive⟩ := @allocKernelMem_none pageCount state.mem none
        refine ⟨((allocKernelMem state.mem pageCount).1 : Int), state, ?_, trivial, agree⟩
        simp only [kernelCall, sameMem, if_neg notLive]
      · obtain ⟨positive, small⟩ := not_or.mp none
        rw [Int.not_le] at positive
        rw [Int.not_lt] at small
        obtain ⟨start, free⟩ := guarded positive small
        exact ⟨_, _, agree.alloc_eq positive small free, trivial,
          agree.alloc_mark (by omega) free⟩
  | unalloc range =>
      obtain ⟨start, isFirst, positive, inside⟩ := agree.ranges range inScope
      exact ⟨_, _, agree.unalloc_eq isFirst positive inside guarded,
        agree.unalloc_right isFirst inside, agree.unalloc_mark inScope isFirst⟩
  | write page idx value =>
      exact ⟨_, _, rfl, trivial, { agree with mapped := inScope }⟩

theorem allocPages_grows (paged : alloc.Paged) :
    ∃ btm, (allocPages alloc count).2 = { alloc with bitmap := btm } ∧
      btm.bytesLen = alloc.bitmap.bytesLen ∧
      ∀ idx, alloc.bitmap.bit idx = true → btm.bit idx = true := by
  induction count generalizing alloc with
  | zero => exact ⟨alloc.bitmap, rfl, rfl, fun _ => id⟩
  | succ count ih =>
      rcases allocRange_one paged with ⟨first, -, -, one⟩ | ⟨one, -⟩
      · obtain ⟨btm, rest, size, grows⟩ := ih (@AddrAlloc.Paged.set alloc first true paged)
        refine ⟨btm, ?_, size, ?_⟩
        · simp only [allocPages, allocPhyMem, one, rest]
        · intro idx isSet
          apply grows idx
          rw [Bitmap.bit_set, isSet]
          exact ite_self true
      · obtain ⟨btm, rest, size, grows⟩ := ih paged
        refine ⟨btm, ?_, size, grows⟩
        simp only [allocPages, allocPhyMem, one, rest]

theorem allocPages_first (paged : alloc.Paged) (positive : 0 < count)
    (inside : idx < alloc.pages) (clear : alloc.bitmap.bit idx = false) :
    ∃ low btm, low ≤ idx ∧ alloc.bitmap.bit low = false ∧
      (∀ other, other < low → alloc.bitmap.bit other = true) ∧
      (allocPages alloc count).2 = { alloc with bitmap := btm } ∧
      btm.bytesLen = alloc.bitmap.bytesLen ∧ btm.bit low = true := by
  obtain ⟨count, rfl⟩ := Nat.exists_eq_succ_of_ne_zero (Nat.ne_of_gt positive)
  rcases alloc.bitmap.scan_one with ⟨low, found, lowInside, lowClear, before⟩ | ⟨-, full⟩
  · have one := allocRange_found paged Int.zero_lt_one (by decide) found lowInside
    obtain ⟨btm, rest, size, grows⟩ := @allocPages_grows
      { alloc with bitmap := alloc.bitmap.set low true } count paged.set
    refine ⟨low, btm, ?_, lowClear, before, ?_, size, grows low (Bitmap.bit_set_self _ _ _)⟩
    · by_contra behind
      rw [before idx (by omega)] at clear
      cases clear
    · simp only [allocPages, allocPhyMem, one]
      exact rest
  · rw [full idx inside] at clear
    cases clear

theorem KernelAgree.firstFree {result : Int} {after : KernelRanges}
    (agree : KernelAgree dir pages state) (positive : 0 < pageCount)
    (small : pageCount ≤ mallocMaxPage)
    (inScope : KernelScope dir pages state (.alloc pageCount))
    (called : kernelCall dir state (.alloc pageCount) = some (result, after))
    (good : BitmapsAgree dir pages after) :
    ∃ start, FirstFree state.mem.kernelVir.bitmap pages start pageCount.toNat := by
  obtain ⟨run, runInside, runClear⟩ := inScope positive small
  have fits := Nat.le_trans runInside agree.size
  obtain ⟨start, found, notBehind, clear⟩ :=
    state.mem.kernelVir.bitmap.scan_least (by omega) fits runClear
  have inside : start + pageCount.toNat ≤ pages := by omega
  have startClear := clear start (Nat.le_refl _) (by omega)
  obtain ⟨low, btm, isLow, lowClear, before, frames, size, taken⟩ := allocPages_first agree.paged
    (show 0 < pageCount.toNat by omega) (show start < state.mem.kernelVir.pages by omega)
    startClear
  rw [agree.alloc_found positive small found inside frames] at called
  cases called
  refine ⟨start, inside, ?_, clear⟩
  have lowInside : low < AddrAlloc.pages { state.mem.kernelVir with bitmap := btm } := by
    rw [AddrAlloc.pages, size]
    exact Nat.lt_of_le_of_lt isLow (Nat.lt_of_lt_of_le (by omega) fits)
  obtain ⟨range, member, reaches⟩ := (good.phy low lowInside).mp taken
  rcases List.mem_cons.mp member with rfl | live
  · have covers := (agree.reaches_addr rfl inside).mp reaches
    obtain ⟨notBefore, -⟩ := (covers_addr agree.paged rfl).mp covers
    rwa [Nat.le_antisymm isLow notBefore] at before
  · obtain ⟨first, isFirst, -, upper⟩ := agree.ranges range live
    have covers := (agree.reaches_addr isFirst upper).mp reaches
    have inPool : low < state.mem.kernelVir.pages := by omega
    rw [(agree.bits low inPool).mpr ⟨range, live, covers⟩] at lowClear
    cases lowClear

theorem KernelAgree.freed_first {paddr : Nat} (agree : KernelAgree dir pages state)
    (positive : 0 < count) (inside : start + count ≤ pages) (aligned : paddr % memPageSize = 0)
    (used : ∀ idx, start ≤ idx → idx < start + count →
      state.mem.kernelVir.bitmap.bit idx = true)
    (freed : ∀ idx, start ≤ idx → idx < start + count →
      (freePhyMem state.mem paddr count).kernelPhy.bitmap.bit idx = false) :
    paddr = state.mem.kernelVir.addr start := by
  by_cases kernel : paddr < state.mem.userPhy.start
  · obtain ⟨bitIdx, bitEq⟩ : ∃ bitIdx, (paddr + 2 ^ 32 - state.mem.kernelVir.start) % 2 ^ 32 /
      state.mem.kernelVir.pageSize = bitIdx := ⟨_, rfl⟩
    have among (idx : Nat) (lower : start ≤ idx) (upper : idx < start + count) :
        bitIdx ≤ idx ∧ idx < bitIdx + count := by
      have isClear := freed idx lower upper
      simp only [freePhyMem, if_pos kernel, agree.same, allocMemUse, setBits_bit, bitEq,
        Int.toNat_natCast] at isClear
      by_contra outside
      rw [if_neg outside, used idx lower upper] at isClear
      cases isClear
    obtain ⟨notBehind, -⟩ := among start (Nat.le_refl _) (by omega)
    obtain ⟨-, notBefore⟩ := among (start + count - 1) (by omega) (by omega)
    have same : bitIdx = start := by omega
    have below := agree.paged.below
    have size := agree.size
    have small := agree.small
    rw [same, agree.paged.pageSize, agree.start] at bitEq
    rw [agree.start] at below
    simp only [AddrAlloc.addr, AddrAlloc.pages, agree.start, memExtStart, memPageSize] at *
    omega
  · have isClear := freed start (Nat.le_refl _) (by omega)
    simp only [freePhyMem, if_neg kernel, agree.same] at isClear
    rw [used start (Nat.le_refl _) (by omega)] at isClear
    cases isClear

theorem KernelAgree.named {result : Int} {after : KernelRanges}
    (agree : KernelAgree dir pages state) (live : range ∈ state.live)
    (called : kernelCall dir state (.unalloc range) = some (result, after))
    (right : ReleaseRight dir state range result after) :
    range.vaddr < mb4 ∨ NamesItself state.mem.words range.vaddr := by
  obtain ⟨first, isFirst, positive, inside⟩ := agree.ranges range live
  obtain ⟨isOk, -, cleared⟩ := right
  have addr : range.vaddr = (768 + first) * memPageSize := by
    simp only [isFirst, AddrAlloc.addr, agree.start, memExtStart, memPageSize]
    omega
  rw [or_iff_not_imp_left]
  intro large
  have big := @KernelMapped.paddr_big _ _ _ (768 + first) agree.mapped (by
    simp only [mb4, memPageSize] at large addr
    omega) (by omega)
  rw [← addr] at big
  obtain ⟨word, wordEq⟩ : ∃ word,
    state.mem.words (range.vaddr / mb4 * mb4) (pteIndex range.vaddr) = word := ⟨_, rfl⟩
  rw [NamesItself, wordEq]
  rw [wordEq] at big
  cases isPresent : present word with
  | false =>
      rw [isPresent, if_neg Bool.false_ne_true] at big
      simp only [kernelCall, unallocKernelMem, unallocMem, big] at called
      cases called
      cases isOk
  | true =>
      rw [isPresent, if_pos rfl] at big
      simp only [kernelCall, unallocKernelMem, unallocMem, big] at called
      cases called
      refine ⟨rfl, ?_⟩
      have released (idx : Nat) (lower : first ≤ idx) (upper : idx < first + range.pageCount) :
          (freePhyMem state.mem (pePhyAddr word) range.pageCount).kernelPhy.bitmap.bit idx =
            false := by
        have covers := (covers_addr agree.paged isFirst).mpr ⟨lower, upper⟩
        have reaches := (agree.reaches_addr isFirst inside).mpr covers
        have inPool : idx < state.mem.kernelPhy.pages := by
          rw [agree.same]
          exact Nat.lt_of_lt_of_le (by omega) agree.size
        apply eq_false_of_ne_true
        intro isSet
        exact ((cleared idx inPool).mp isSet).2 (agree.same ▸ reaches)
      rw [isFirst]
      apply agree.freed_first positive inside _ _ released
      · exact Nat.mul_mod_left _ _
      · intro idx lower upper
        apply (agree.bits idx (Nat.lt_of_lt_of_le (by omega) agree.size)).mpr
        exact ⟨range, live, (covers_addr agree.paged isFirst).mpr ⟨lower, upper⟩⟩

end Steps

section Init

variable {image : KernelImage} {allMem : Nat} {words : Words}

theorem initPaging_agree (placed : image.Placed)
    (large : memExtStart + memPageSize ≤ kernelAllMemory allMem) :
    ∃ mem, initPaging image allMem words = some mem ∧
      mem.kernelVir = (kernelPool allMem).firstTaken ∧
      KernelAgree image.pageDir (kernelPages allMem) ⟨mem, [⟨memExtStart, 1⟩]⟩ := by
  obtain ⟨mem, returns, vir, phy, user, mapped⟩ := @initPaging_spec image allMem words placed large
  have some : 0 < kernelPages allMem := by
    simp only [kernelPages, memExtStart, memPageSize] at large ⊢
    omega
  have first : memExtStart = mem.kernelVir.addr 0 := by
    rw [vir, AddrAlloc.addr, Nat.zero_mul, Nat.add_zero]
    rfl
  have sizes : mem.kernelVir.pages = (kernelPool allMem).pages := by
    rw [vir, AddrAlloc.firstTaken_pages]
  have paged : mem.kernelVir.Paged := vir ▸ (kernelPool_paged allMem).firstTaken
  refine ⟨mem, returns, vir, ?_⟩
  constructor
  · exact phy.trans vir.symm
  · exact paged
  · rw [vir]
    rfl
  · exact sizes ▸ kernelPages_le allMem
  · rw [vir, user]
    simp only [AddrAlloc.addr, AddrAlloc.firstTaken, kernelPool, initAddrAlloc, kernelPages,
      memExtStart, memPageSize] at large ⊢
    omega
  · rw [user]
    exact Nat.le_trans (Nat.min_le_right _ _) (by decide)
  · exact mapped
  · intro range live
    obtain rfl := List.mem_singleton.mp live
    exact ⟨0, first, Nat.zero_lt_one, some⟩
  · exact List.pairwise_singleton _ _
  · intro idx inside
    have inPool : idx < (kernelPool allMem).pages := sizes ▸ inside
    have clear : (kernelPool allMem).bitmap.bit idx = false := Bitmap.bit_init _ inPool
    have covers := @covers_addr mem.kernelVir 0 idx ⟨memExtStart, 1⟩ paged first
    change mem.kernelVir.bitmap.bit idx = true ↔ ∃ range ∈ [(⟨memExtStart, 1⟩ : KernelRange)],
      range.Covers (mem.kernelVir.addr idx)
    rw [List.exists_mem_cons_iff, covers, vir, AddrAlloc.firstTaken, Bitmap.bit_set, clear]
    by_cases isFirst : idx = 0
    · rw [if_pos isFirst]
      have member : 0 ≤ idx ∧ idx < 0 + 1 := by omega
      exact iff_of_true rfl (.inl member)
    · rw [if_neg isFirst]
      refine iff_of_false Bool.false_ne_true ?_
      rintro (⟨-, upper⟩ | ⟨range, member, -⟩)
      · exact isFirst (Nat.lt_one_iff.mp upper)
      · cases member

theorem initPaging_free {mem : MemState} {count : Nat}
    (vir : mem.kernelVir = (kernelPool allMem).firstTaken)
    (inside : 1 + count ≤ kernelPages allMem) :
    FirstFree mem.kernelVir.bitmap (kernelPages allMem) 1 count := by
  have size := kernelPages_le allMem
  rw [vir, AddrAlloc.firstTaken]
  constructor
  · exact inside
  · intro idx isFirst
    rw [Nat.lt_one_iff.mp isFirst]
    exact Bitmap.bit_set_self _ _ _
  · intro idx lower upper
    rw [Bitmap.bit_set_ne _ _ (by omega)]
    exact Bitmap.bit_init _ (Nat.lt_of_lt_of_le (by omega) size)

/-- In every sequence of calls after `init_paging` in which memory suffices and whole live ranges
are released, the bitmaps agree with the live ranges and every release is right exactly when
every allocation finds the first free pages next to each other and `get_pte` finds the first
page of every range that is released. -/
theorem kernelPages_right (placed : image.Placed)
    (large : memExtStart + memPageSize ≤ kernelAllMemory allMem) :
    ∃ mem, initPaging image allMem words = some mem ∧ ∀ calls,
      AllGuarded (kernelCall image.pageDir) (KernelScope image.pageDir (kernelPages allMem))
        ⟨mem, [⟨memExtStart, 1⟩]⟩ calls →
      (AllRight (kernelCall image.pageDir) (BitmapsAgree image.pageDir (kernelPages allMem))
          (KernelRight image.pageDir) ⟨mem, [⟨memExtStart, 1⟩]⟩ calls ↔
        AllGuarded (kernelCall image.pageDir) (KernelGuard (kernelPages allMem))
          ⟨mem, [⟨memExtStart, 1⟩]⟩ calls) := by
  obtain ⟨mem, returns, -, agree⟩ := @initPaging_agree image allMem words placed large
  refine ⟨mem, returns, fun calls within => ?_⟩
  refine allRight_iff_allGuarded_within (KernelAgree image.pageDir (kernelPages allMem)) ?_ ?_ calls
    agree agree.bitmapsAgree within
  · intro state call holds _ inScope guarded
    obtain ⟨result, after, called, right, afterHolds⟩ := holds.call inScope guarded
    exact ⟨result, after, called, right, afterHolds.bitmapsAgree, afterHolds⟩
  · intro state call result after holds _ inScope called right good
    cases call with
    | alloc pageCount =>
        intro positive small
        exact holds.firstFree positive small inScope called good
    | unalloc range => exact holds.named inScope called right
    | write page idx value => trivial

theorem samplePlaced : KernelImage.Placed ⟨0, 0x10000, 0x20000, 0x20000, 0x24000⟩ :=
  ⟨by decide, by decide, by decide, by decide, by decide, by decide⟩

theorem kernelPages_right_sample :
    KernelImage.Placed ⟨0, 0x10000, 0x20000, 0x20000, 0x24000⟩ ∧
      memExtStart + memPageSize ≤ kernelAllMemory (2 ^ 24) ∧
      ∃ mem, initPaging ⟨0, 0x10000, 0x20000, 0x20000, 0x24000⟩ (2 ^ 24) (fun _ _ => 0) =
          some mem ∧
        AllGuarded (kernelCall 0x24000) (KernelScope 0x24000 (kernelPages (2 ^ 24)))
          ⟨mem, [⟨memExtStart, 1⟩]⟩ [.alloc 3, .unalloc ⟨0x301000, 3⟩] ∧
        AllRight (kernelCall 0x24000) (BitmapsAgree 0x24000 (kernelPages (2 ^ 24)))
          (KernelRight 0x24000) ⟨mem, [⟨memExtStart, 1⟩]⟩
          [.alloc 3, .unalloc ⟨0x301000, 3⟩] := by
  have large : memExtStart + memPageSize ≤ kernelAllMemory (2 ^ 24) := by decide
  obtain ⟨mem, returns, rights⟩ := @kernelPages_right _ _ (fun _ _ => 0) samplePlaced large
  obtain ⟨same, sameReturns, vir, agree⟩ := @initPaging_agree _ _ (fun _ _ => 0) samplePlaced large
  cases returns.symm.trans sameReturns
  have addr : mem.kernelVir.addr 1 = 0x301000 := by
    rw [AddrAlloc.addr, agree.start]
    rfl
  have free := initPaging_free vir (show 1 + 3 ≤ kernelPages (2 ^ 24) by decide)
  have called := @KernelAgree.alloc_eq _ _ _ 1 3 agree (by decide) (by decide) free
  rw [addr] at called
  have within : AllGuarded (kernelCall 0x24000) (KernelScope 0x24000 (kernelPages (2 ^ 24)))
      ⟨mem, [⟨memExtStart, 1⟩]⟩ [.alloc 3, .unalloc ⟨0x301000, 3⟩] := by
    apply AllGuarded.cons called
    · exact fun _ _ => ⟨1, free.inside, free.clear⟩
    · exact ⟨List.mem_cons_self, fun _ _ _ => trivial⟩
  refine ⟨samplePlaced, large, mem, returns, within, (rights _ within).mpr ?_⟩
  apply AllGuarded.cons called
  · exact fun _ _ => ⟨1, free⟩
  · exact ⟨.inl (by decide), fun _ _ _ => trivial⟩

/-- Two pages are allocated and the first one is released: the next two addresses lie behind
both, but one of the frames is that of the released page. -/
theorem split_pages_not_right :
    ∃ mem, initPaging ⟨0, 0x10000, 0x20000, 0x20000, 0x24000⟩ (2 ^ 24) (fun _ _ => 0) =
        some mem ∧
      AllGuarded (kernelCall 0x24000) (KernelScope 0x24000 (kernelPages (2 ^ 24)))
        ⟨mem, [⟨memExtStart, 1⟩]⟩ [.alloc 1, .alloc 1, .unalloc ⟨0x301000, 1⟩, .alloc 2] ∧
      ¬ AllRight (kernelCall 0x24000) (BitmapsAgree 0x24000 (kernelPages (2 ^ 24)))
        (KernelRight 0x24000) ⟨mem, [⟨memExtStart, 1⟩]⟩
        [.alloc 1, .alloc 1, .unalloc ⟨0x301000, 1⟩, .alloc 2] := by
  have large : memExtStart + memPageSize ≤ kernelAllMemory (2 ^ 24) := by decide
  obtain ⟨mem, returns, vir, agree⟩ := @initPaging_agree _ _ (fun _ _ => 0) samplePlaced large
  have addr : mem.kernelVir.addr 1 = 0x301000 := by
    rw [AddrAlloc.addr, agree.start]
    rfl
  have run := initPaging_free vir (show 1 + (1 + (1 + 2)) ≤ kernelPages (2 ^ 24) by decide)
  have first := @KernelAgree.alloc_eq _ _ _ 1 1 agree (by decide) (by decide) run.shorter
  have firstAgree := agree.alloc_mark Nat.zero_lt_one run.shorter
  have firstRun := run.mark
  have second := @KernelAgree.alloc_eq _ _ _ 2 1 firstAgree (by decide) (by decide)
    firstRun.shorter
  have secondAgree := firstAgree.alloc_mark Nat.zero_lt_one firstRun.shorter
  have secondRun := firstRun.mark
  have third := @KernelAgree.unalloc_eq _ _ _ 1 ⟨0x301000, 1⟩ secondAgree addr.symm
    Nat.zero_lt_one (by decide) (.inl (by decide))
  have live : ∀ {range : KernelRange} {others : List KernelRange},
      (⟨0x301000, 1⟩ : KernelRange) ∈ range :: ⟨mem.kernelVir.addr 1, 1⟩ :: others := by
    intro range others
    rw [addr]
    exact List.mem_cons_of_mem _ List.mem_cons_self
  have thirdAgree := secondAgree.unalloc_mark live addr.symm
  -- the first page behind the table is free again, and the next one is not
  have isFree : (((mem.kernelVir.mark 1 1 true).mark 2 1 true).mark 1 1 false).bitmap.bit 1 =
      false := by
    rw [AddrAlloc.mark_bit]
    rfl
  have others (idx : Nat) (other : idx ≠ 1) :
      (((mem.kernelVir.mark 1 1 true).mark 2 1 true).mark 1 1 false).bitmap.bit idx =
        ((mem.kernelVir.mark 1 1 true).mark 2 1 true).bitmap.bit idx := by
    rw [AddrAlloc.mark_bit, if_neg (by omega)]
  have room : ∀ idx, 3 ≤ idx → idx < 3 + 2 →
      (((mem.kernelVir.mark 1 1 true).mark 2 1 true).mark 1 1 false).bitmap.bit idx =
        false := by
    intro idx lower upper
    rw [others idx (by omega)]
    exact secondRun.clear idx lower upper
  refine ⟨mem, returns, ?_, ?_⟩
  · apply AllGuarded.cons first
    · exact fun _ _ => ⟨1, run.shorter.inside, run.shorter.clear⟩
    apply AllGuarded.cons second
    · exact fun _ _ => ⟨2, firstRun.shorter.inside, firstRun.shorter.clear⟩
    apply AllGuarded.cons third live
    exact ⟨fun _ _ => ⟨3, secondRun.inside, room⟩, fun _ _ _ => trivial⟩
  · intro allRight
    have last := ((allRight.tail first).tail second).tail third
    obtain ⟨-, result, after, fourth, -, good⟩ := last
    obtain ⟨start, -, before, clear⟩ := @KernelAgree.firstFree _ _ _ 2 _ _ thirdAgree (by decide)
      (by decide) (fun _ _ => ⟨3, secondRun.inside, room⟩) fourth good
    have used (idx : Nat) (small : idx < 3) (other : idx ≠ 1) (lower : start ≤ idx)
        (upper : idx < start + 2) : False := by
      have isClear := clear idx lower upper
      have isSet := (others idx other).trans (secondRun.before idx small)
      cases isSet.symm.trans isClear
    rcases Nat.lt_trichotomy start 1 with first | isOne | behind
    · exact used 0 (by decide) (by decide) (by omega) (by omega)
    · exact used 2 (by decide) (by decide) (by omega) (by omega)
    · cases (before 1 behind).symm.trans isFree

end Init

end CleanOS.Memory
