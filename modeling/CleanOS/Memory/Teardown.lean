import CleanOS.Memory.CreateUvm
import Mathlib.Tactic.Linarith

/-!
# Releasing an address space

`alloc_vm_for_page_dir`, `free_vm_for_page_dir` and `destroy_uvm` of `kernel/memory/paging.c`.
Both loops of `destroy_uvm` add their counter to a pointer that they keep, so that they step
over most entries and leave the directory and its tables; `free_vm_for_page_dir` returns as
soon as a frame is freed.
-/

namespace CleanOS.Memory

open CleanOS.Common CleanOS.Lib

/-- `alloc_phy_mem` of one frame, from the allocator for the directory. -/
def takeFrame (kernelPageDir pageDir : Nat) (mem : MemState) : Nat × MemState :=
  if pageDir = kernelPageDir then
    let (paddr, kernelPhy) := allocPhyMem mem.kernelPhy 1
    (paddr, { mem with kernelPhy := kernelPhy })
  else
    let (paddr, userPhy) := allocPhyMem mem.userPhy 1
    (paddr, { mem with userPhy := userPhy })

/-- The loop of `alloc_vm_for_page_dir`. -/
def allocVmLoop (kernelPageDir pageDir perm : Nat) :
    MemState → Nat → Nat → Option (Int × MemState)
  | mem, _, 0 => some (0, mem)
  | mem, vstart, count + 1 =>
      let (paddr, mem) := takeFrame kernelPageDir pageDir mem
      if paddr = 0 then some (-1, mem)
      else do
        let (err, mem) ← createMemMap pageDir perm mem vstart paddr 1
        if err ≠ 0 then some (err, freePhyMem mem paddr 1)
        else allocVmLoop kernelPageDir pageDir perm mem ((vstart + memPageSize) % 2 ^ 32) count

/-- The arguments of `alloc_vm_for_page_dir` behind the directory. -/
structure VmCall where
  vstart : Nat
  size : Nat
  perm : Nat

def VmCall.pageCount (call : VmCall) : Nat :=
  up2 call.size memPageSize / memPageSize

/-- `alloc_vm_for_page_dir`. -/
def allocVmForPageDir (kernelPageDir : Nat) (mem : MemState) (pageDir : Nat) (call : VmCall) :
    Option (Int × MemState) :=
  allocVmLoop kernelPageDir pageDir call.perm mem call.vstart call.pageCount

/-- The loop of `free_vm_for_page_dir`.  `free_phy_mem` returns zero, with which the loop
ends. -/
def freeVmLoop (pageDir : Nat) : MemState → Nat → Nat → Int × MemState
  | mem, _, 0 => (0, mem)
  | mem, vstart, count + 1 =>
      match vaddr2paddr mem.words pageDir vstart with
      | none => (-1, mem)
      | some paddr =>
          let (err, mem) : Int × MemState := (0, freePhyMem mem paddr 1)
          if err = 0 then (err, mem)
          else
            match getPte mem.words pageDir vstart with
            | none => freeVmLoop pageDir mem vstart count
            | some (table, idx) =>
                if ¬ present (mem.words table idx) then freeVmLoop pageDir mem vstart count
                else
                  freeVmLoop pageDir { mem with words := setWord mem.words table idx 0 }
                    ((vstart + memPageSize) % 2 ^ 32) count

/-- `free_vm_for_page_dir` of a range. -/
def freeVmForPageDir (mem : MemState) (pageDir : Nat) (call : VmCall) : Int × MemState :=
  freeVmLoop pageDir mem call.vstart call.pageCount

def readEntry (words : Words) (addr : Nat) : Nat :=
  words (down2 addr) (addr % memPageSize / 4)

/-- The memory, and the addresses of the entries that were read. -/
structure Walked where
  mem : MemState
  reads : List Nat

/-- The inner loop of `destroy_uvm`. -/
def destroyPtes : Nat → Nat → Nat → Walked → Walked
  | 0, _, _, walked => walked
  | left + 1, i, pte, walked =>
      let pte := (pte + 4 * i) % 2 ^ 32
      let entry := readEntry walked.mem.words pte
      let mem := if present entry then freePhyMem walked.mem (pePhyAddr entry) 1 else walked.mem
      destroyPtes left (i + 1) pte ⟨mem, pte :: walked.reads⟩

/-- The table behind an entry of the directory, if there is one, is released with its pages.
The entry itself stays. -/
def destroyPde (pde : Nat) (walked : Walked) : Walked :=
  let entry := readEntry walked.mem.words pde
  let table := pePhyAddr entry
  let walked : Walked := ⟨walked.mem, pde :: walked.reads⟩
  if present entry ∧ table ≠ 0 then
    let walked := destroyPtes 1024 0 table walked
    { walked with mem := freePhyMem walked.mem table 1 }
  else walked

/-- The outer loop of `destroy_uvm`. -/
def destroyPdes : Nat → Nat → Nat → Walked → Walked
  | 0, _, _, walked => walked
  | left + 1, i, pde, walked =>
      let pde := (pde + 4 * i) % 2 ^ 32
      destroyPdes left (i + 1) pde (destroyPde pde walked)

/-- `destroy_uvm`. -/
def destroyUvm (mem : MemState) (pageDir : Nat) : Walked :=
  let start := pdeIndex mem.userPhy.start
  let walked := destroyPdes (1024 - start) start pageDir ⟨mem, []⟩
  { walked with mem := freePhyMem walked.mem pageDir 1 }

/-- A sequence of calls of `alloc_vm_for_page_dir`, with those that return zero. -/
def allocVms (kernelPageDir pageDir : Nat) :
    MemState → List VmCall → Option (List VmCall × MemState)
  | mem, [] => some ([], mem)
  | mem, call :: calls => do
      let (err, mem) ← allocVmForPageDir kernelPageDir mem pageDir call
      let (ranges, mem) ← allocVms kernelPageDir pageDir mem calls
      some (if err = 0 then call :: ranges else ranges, mem)

/-! ## What a release should do -/

def VmCall.Covers (call : VmCall) (page : Nat) : Prop :=
  call.vstart / memPageSize ≤ page ∧ page < call.vstart / memPageSize + call.pageCount

/-- A page-aligned range of user addresses. -/
structure VmCall.User (call : VmCall) (userStart : Nat) : Prop where
  aligned : call.vstart % memPageSize = 0
  below : call.vstart < 2 ^ 32
  lower : userStart ≤ call.vstart
  inside : call.vstart + call.size ≤ 2 ^ 32

/-- The pages of the range are not mapped any more, and exactly their frames are free. -/
structure FreeVmRight (dir : Nat) (mem : MemState) (call : VmCall) (result : Int)
    (after : MemState) : Prop where
  result : result = 0
  cleared : ∀ page, call.Covers page → after.pageAt dir page = none
  others : ∀ page < 2 ^ 20, ¬ call.Covers page → after.pageAt dir page = mem.pageAt dir page
  kernelPhy : after.kernelPhy = mem.kernelPhy
  frames : ∀ idx < mem.userPhy.pages, after.userPhy.bitmap.bit idx = true ↔
    mem.userPhy.bitmap.bit idx = true ∧
      ∀ page, call.Covers page → mem.pageAt dir page ≠ some (mem.userPhy.addr idx)

def SameBits (before after : AddrAlloc) : Prop :=
  ∀ idx < before.pages, after.bitmap.bit idx = before.bitmap.bit idx

def InDirectory (words : Words) (dir addr : Nat) : Prop :=
  down2 addr = dir ∨ ∃ entry, SmallTable words dir entry (down2 addr)

/-- `destroy_uvm` gives back what was taken since the directory was created, and reads entries
of the directory and of its tables only. -/
structure DestroyRight (before : MemState) (dir : Nat) (mem : MemState) : Prop where
  kernelPhy : SameBits before.kernelPhy (destroyUvm mem dir).mem.kernelPhy
  userPhy : SameBits before.userPhy (destroyUvm mem dir).mem.userPhy
  reads : ∀ addr ∈ (destroyUvm mem dir).reads, InDirectory mem.words dir addr

/-- Some of the allocated ranges are released one by one, and after each the rest of the
address space can be destroyed. -/
def TeardownRight (before mem : MemState) (dir : Nat) (ranges : List VmCall) : Prop :=
  ∀ freed, freed.Subperm ranges →
    AllRight (fun mem call => some (freeVmForPageDir mem dir call)) (DestroyRight before dir)
      (FreeVmRight dir) mem freed

/-! ## `alloc_vm_for_page_dir` -/

/-- The frames for user pages: the page at zero is none of them. -/
structure UserFrames (phy : AddrAlloc) : Prop where
  pageSize : phy.pageSize = memPageSize
  positive : 0 < phy.start
  below : phy.start + phy.pages * memPageSize ≤ 2 ^ 32

structure VmAdded (mem after : MemState) (dir page count : Nat) : Prop where
  directory : Directory after dir
  frames : SameShape mem.userPhy after.userPhy
  bigAt : ∀ other, after.BigAt dir other ↔ mem.BigAt dir other
  others : ∀ other < 2 ^ 20, ¬ (page ≤ other ∧ other < page + count) →
    after.pageAt dir other = mem.pageAt dir other

section AllocVm

variable {mem after : MemState} {alloc phy : AddrAlloc} {call : VmCall} {calls ranges : List VmCall}
  {kernelPageDir dir vstart perm page count userStart : Nat} {err : Int}

theorem SameShape.userFrames {other : AddrAlloc} (same : SameShape alloc other)
    (frames : UserFrames alloc) : UserFrames other := by
  constructor
  · exact same.pageSize.trans frames.pageSize
  · exact same.start ▸ frames.positive
  · rw [same.start, same.pages]
    exact frames.below

theorem allocPhyMem_ne_zero (frames : UserFrames alloc) : (allocPhyMem alloc 1).1 ≠ 0 := by
  have below := frames.below
  have positive := frames.positive
  have one : ((1 : Int) % 2 ^ 32).toNat = 1 := by decide
  rw [allocPhyMem, allocRange, one]
  rcases alloc.bitmap.scan_one with ⟨idx, found, inside, -⟩ | ⟨missing, -⟩
  · have nonneg : ¬ (idx : Int) < 0 := by omega
    rw [found, if_neg nonneg, Int.toNat_natCast, frames.pageSize]
    simp only [AddrAlloc.pages, memPageSize] at below ⊢
    omega
  · have notZero : failed ≠ 0 := by decide
    rw [missing, if_pos (by decide)]
    exact notZero

theorem Directory.withUserPhy (directory : Directory mem dir) :
    Directory { mem with userPhy := phy } dir :=
  ⟨directory.paged, directory.positive, directory.named, directory.dirTaken,
    directory.tableNamed, directory.tableTaken, directory.own⟩

theorem Directory.allocVmLoop_added (directory : Directory mem dir) (apart : dir ≠ kernelPageDir)
    (frames : UserFrames mem.userPhy) (isStart : vstart = page * memPageSize % 2 ^ 32)
    (inside : page + count ≤ 2 ^ 20)
    (small : ∀ other, page ≤ other → other < page + count → ¬ mem.BigAt dir other)
    (free : ∀ other, page ≤ other → other < page + count → mem.pageAt dir other = none)
    (returns : allocVmLoop kernelPageDir dir perm mem vstart count = some (err, after)) :
    err = 0 ∧ VmAdded mem after dir page count := by
  induction count generalizing mem vstart page with
  | zero =>
      cases returns
      exact ⟨rfl, directory, .refl _, fun _ => Iff.rfl, fun _ _ _ => rfl⟩
  | succ count ih =>
      have here : vstart = page * memPageSize := by
        simp only [memPageSize] at isStart ⊢
        omega
      obtain ⟨taken, takenEq⟩ : ∃ taken : MemState, taken =
        { mem with userPhy := (allocPhyMem mem.userPhy 1).2 } := ⟨_, rfl⟩
      have takenDirectory : Directory taken dir := takenEq ▸ directory.withUserPhy
      have samePages : taken.pageAt dir = mem.pageAt dir := by
        rw [takenEq]
        rfl
      have sameBig : taken.BigAt dir = mem.BigAt dir := by
        rw [takenEq]
        rfl
      rw [allocVmLoop, takeFrame, if_neg apart] at returns
      simp only [if_neg (allocPhyMem_ne_zero frames), ← takenEq, here] at returns
      have firstSmall : ¬ taken.BigAt dir page := by
        rw [sameBig]
        exact small page (Nat.le_refl _) (by omega)
      have firstFree : taken.pageAt dir page = none := by
        rw [samePages]
        exact free page (Nat.le_refl _) (by omega)
      rcases @Directory.createMemMap_cases taken dir page (allocPhyMem mem.userPhy 1).1 perm
        takenDirectory (by omega) firstSmall firstFree with ⟨noTable, -⟩ | ⟨next, mapEq, added, phy⟩
      · rw [noTable] at returns
        cases returns
      · rw [mapEq] at returns
        have takenShape : SameShape mem.userPhy next.userPhy := by
          rw [phy, takenEq]
          exact allocRange_shape
        have later : ∀ other, page + 1 ≤ other → other < page + 1 + count →
            ¬ next.BigAt dir other ∧ next.pageAt dir other = none := by
          intro other lower upper
          rw [added.bigAt, added.pageAt other (by omega), if_neg (by omega), sameBig, samePages]
          exact ⟨small other (by omega) (by omega), free other (by omega) (by omega)⟩
        obtain ⟨noErr, rest⟩ := @ih next ((page * memPageSize + memPageSize) % 2 ^ 32) (page + 1)
          added.directory (takenShape.userFrames frames)
          (by simp only [memPageSize]; omega) (by omega)
          (fun other lower upper => (later other lower upper).1)
          (fun other lower upper => (later other lower upper).2) returns
        refine ⟨noErr, rest.directory, takenShape.trans rest.frames, ?_, ?_⟩
        · intro other
          rw [rest.bigAt, added.bigAt, sameBig]
        · intro other otherInside outside
          rw [rest.others other otherInside (by omega), added.pageAt other otherInside,
            if_neg (by omega), samePages]

theorem VmCall.User.pages (user : call.User userStart) :
    call.vstart = call.vstart / memPageSize * memPageSize % 2 ^ 32 ∧
      call.vstart / memPageSize + call.pageCount ≤ 2 ^ 20 := by
  obtain ⟨aligned, below, -, inside⟩ := user
  simp only [VmCall.pageCount, up2, memPageSize] at *
  split <;> omega

theorem allocVms_all (directory : Directory mem dir) (apart : dir ≠ kernelPageDir)
    (frames : UserFrames mem.userPhy) (user : ∀ call ∈ calls, call.User userStart)
    (small : ∀ call ∈ calls, ∀ page, call.Covers page → ¬ mem.BigAt dir page)
    (free : ∀ call ∈ calls, ∀ page, call.Covers page → mem.pageAt dir page = none)
    (disjoint : calls.Pairwise fun call other => ∀ page, call.Covers page → ¬ other.Covers page)
    (returns : allocVms kernelPageDir dir mem calls = some (ranges, after)) : ranges = calls := by
  induction calls generalizing mem ranges after with
  | nil =>
      cases returns
      rfl
  | cons call calls ih =>
      obtain ⟨⟨err, next⟩, called, later⟩ := Option.bind_eq_some_iff.mp returns
      obtain ⟨⟨rest, final⟩, restEq, isRanges⟩ := Option.bind_eq_some_iff.mp later
      cases isRanges
      obtain ⟨isStart, inside⟩ := (user call List.mem_cons_self).pages
      obtain ⟨apartCalls, restDisjoint⟩ := List.pairwise_cons.mp disjoint
      obtain ⟨noErr, added⟩ := directory.allocVmLoop_added apart frames isStart inside
        (fun page lower upper => small call List.mem_cons_self page ⟨lower, upper⟩)
        (fun page lower upper => free call List.mem_cons_self page ⟨lower, upper⟩) called
      have all : rest = calls := by
        apply ih added.directory (added.frames.userFrames frames)
          (fun other member => user other (List.mem_cons_of_mem _ member)) ?_ ?_ restDisjoint restEq
        · intro other member page covers
          rw [added.bigAt]
          exact small other (List.mem_cons_of_mem _ member) page covers
        · intro other member page covers
          have otherInside := (user other (List.mem_cons_of_mem _ member)).pages.2
          have pageInside : page < 2 ^ 20 := Nat.lt_of_lt_of_le covers.2 otherInside
          rw [added.others page pageInside fun both => apartCalls other member page both covers]
          exact free other (List.mem_cons_of_mem _ member) page covers
      rw [noErr, if_pos rfl, all]

theorem allocVms_nothing (none : ∀ call ∈ calls, call.pageCount = 0) :
    allocVms kernelPageDir dir mem calls = some (calls, mem) := by
  induction calls with
  | nil => rfl
  | cons call calls ih =>
      have first : allocVmForPageDir kernelPageDir mem dir call = some (0, mem) := by
        rw [allocVmForPageDir, none call List.mem_cons_self]
        rfl
      have rest := ih fun other member => none other (List.mem_cons_of_mem _ member)
      simp [allocVms, first, rest]

end AllocVm

/-! ## `free_vm_for_page_dir` -/

section FreeVm

variable {mem : MemState} {call : VmCall} {dir page userStart count : Nat}

theorem vaddr2paddr_unmapped (unmapped : mem.pageAt dir page = none) :
    vaddr2paddr mem.words dir (page * memPageSize) = none := by
  rw [MemState.pageAt, mmuWalk] at unmapped
  rw [vaddr2paddr, getPte]
  by_cases named : dir = 0
  · rw [if_pos named]
  · rw [if_neg named]
    cases isPresent : present (mem.words dir (pdeIndex (page * memPageSize))) with
    | false => simp [isPresent]
    | true =>
        by_cases noTable : pePhyAddr (mem.words dir (pdeIndex (page * memPageSize))) = 0
        · simp [isPresent, noTable]
        · simp only [isPresent, not_true_eq_false, if_false, noTable] at unmapped ⊢
          split at unmapped
          · cases unmapped
          · split at unmapped
            · cases unmapped
            · rw [if_neg ‹_›]

theorem freeVmLoop_first : freeVmLoop dir mem (page * memPageSize) (count + 1) =
    match vaddr2paddr mem.words dir (page * memPageSize) with
    | none => (-1, mem)
    | some paddr => (0, freePhyMem mem paddr 1) := by
  rw [freeVmLoop]
  cases vaddr2paddr mem.words dir (page * memPageSize) with
  | none => rfl
  | some paddr => simp

theorem freePhyMem_words {paddr : Nat} {pageCount : Int} :
    (freePhyMem mem paddr pageCount).words = mem.words := by
  rw [freePhyMem]
  split <;> rfl

theorem freePhyMem_pageAt {paddr : Nat} {pageCount : Int} :
    (freePhyMem mem paddr pageCount).pageAt dir page = mem.pageAt dir page := by
  rw [MemState.pageAt, MemState.pageAt, freePhyMem_words]

theorem freeVm_right_iff (user : call.User userStart) :
    FreeVmRight dir mem call (freeVmForPageDir mem dir call).1
      (freeVmForPageDir mem dir call).2 ↔ call.pageCount = 0 := by
  have noneCovered (none : call.pageCount = 0) {page : Nat} : ¬ call.Covers page := by
    rintro ⟨lower, upper⟩
    omega
  constructor
  · intro right
    by_contra some
    obtain ⟨count, isCount⟩ := Nat.exists_eq_succ_of_ne_zero some
    obtain ⟨page, isPage⟩ : ∃ page, page = call.vstart / memPageSize := ⟨_, rfl⟩
    have start : call.vstart = page * memPageSize := by
      have aligned := user.aligned
      simp only [memPageSize] at aligned isPage ⊢
      omega
    have covers : call.Covers page := by
      rw [VmCall.Covers, ← isPage]
      omega
    have cleared := right.cleared page covers
    have result := right.result
    rw [freeVmForPageDir, isCount, start, freeVmLoop_first] at cleared result
    cases isFrame : vaddr2paddr mem.words dir (page * memPageSize) with
    | none =>
        rw [isFrame] at result
        cases result
    | some paddr =>
        rw [isFrame] at cleared
        have unmapped := freePhyMem_pageAt.symm.trans cleared
        cases isFrame.symm.trans (vaddr2paddr_unmapped unmapped)
  · intro none
    rw [freeVmForPageDir, none]
    refine ⟨rfl, ?_, fun _ _ _ => rfl, rfl, ?_⟩
    · intro page covers
      exact absurd covers (noneCovered none)
    · intro idx _
      constructor
      · intro isSet
        exact ⟨isSet, fun page covers => absurd covers (noneCovered none)⟩
      · exact And.left

end FreeVm

/-! ## `destroy_uvm` -/

section Destroy

variable {before mem : MemState} {walked : Walked} {dir left i pde pte addr : Nat}

theorem destroyPtes_reads (isRead : addr ∈ walked.reads) :
    addr ∈ (destroyPtes left i pte walked).reads := by
  induction left generalizing i pte walked with
  | zero => exact isRead
  | succ left ih =>
      apply ih
      exact List.mem_cons_of_mem _ isRead

theorem destroyPde_reads (isRead : addr = pde ∨ addr ∈ walked.reads) :
    addr ∈ (destroyPde pde walked).reads := by
  rw [← List.mem_cons] at isRead
  rw [destroyPde]
  split
  · dsimp only
    exact destroyPtes_reads isRead
  · exact isRead

theorem destroyPdes_last : ∃ offset,
    2 * offset + (left + 1) = (left + 1) * (2 * i + (left + 1)) ∧
      (pde + 4 * offset) % 2 ^ 32 ∈ (destroyPdes (left + 1) i pde walked).reads := by
  induction left generalizing i pde walked with
  | zero =>
      refine ⟨i, by omega, ?_⟩
      exact destroyPde_reads (.inl rfl)
  | succ left ih =>
      obtain ⟨offset, sum, isRead⟩ := @ih (destroyPde ((pde + 4 * i) % 2 ^ 32) walked) (i + 1)
        ((pde + 4 * i) % 2 ^ 32)
      have sameAddr : ((pde + 4 * i) % 2 ^ 32 + 4 * offset) % 2 ^ 32 =
          (pde + 4 * (i + offset)) % 2 ^ 32 := by omega
      refine ⟨i + offset, ?_, ?_⟩
      · linarith
      · rw [← sameAddr]
        exact isRead

theorem not_destroyRight (lower : memExtStart ≤ dir) (aligned : dir % memPageSize = 0)
    (below : dir < 2 ^ 32) (user : mem.userPhy.start ≤ 2 ^ 30)
    (table : ∀ {entry table}, SmallTable mem.words dir entry table → table = memExtStart) :
    ¬ DestroyRight before dir mem := by
  intro right
  obtain ⟨left, isLeft⟩ : ∃ left, 1024 - pdeIndex mem.userPhy.start = left + 1 := by
    refine ⟨1023 - pdeIndex mem.userPhy.start, ?_⟩
    simp only [pdeIndex]
    omega
  have atMost : pdeIndex mem.userPhy.start ≤ 256 := by
    simp only [pdeIndex]
    omega
  obtain ⟨offset, sum, isRead⟩ := @destroyPdes_last ⟨mem, []⟩ left (pdeIndex mem.userPhy.start) dir
  rw [← isLeft] at sum isRead
  have near : 768 * 1024 ≤ 2 * offset + (1024 - pdeIndex mem.userPhy.start) := by
    rw [sum]
    exact Nat.mul_le_mul (by omega) (by omega)
  have far : 2 * offset + (1024 - pdeIndex mem.userPhy.start) ≤ 1024 * 1280 := by
    rw [sum]
    exact Nat.mul_le_mul (by omega) (by omega)
  have outside {page : Nat} (either : page = dir ∨ page = memExtStart) :
      down2 ((dir + 4 * offset) % 2 ^ 32) ≠ page := by
    simp only [down2, memPageSize, memExtStart] at *
    omega
  rcases right.reads _ isRead with isDir | ⟨entry, isTable⟩
  · exact outside (.inl rfl) isDir
  · exact outside (.inr (table isTable)) rfl

end Destroy

/-! ## After `create_uvm` -/

/-- A state in which the kernel's mapping is intact: the kernel's table is in use, and the
entries below the user part map the kernel's pages. -/
structure Booted (kernelPageDir pages : Nat) (mem : MemState) : Prop where
  paged : mem.kernelVir.Paged
  start : mem.kernelVir.start = memExtStart
  tableTaken : mem.kernelVir.bitmap.bit 0 = true
  dirBelow : kernelPageDir < memExtStart
  mapped : KernelMapped kernelPageDir pages mem.words
  entries : pdeIndex mem.userPhy.start * 1024 ≤ 768 + pages
  user : mem.userPhy.start ≤ 2 ^ 30
  frames : UserFrames mem.userPhy

structure NewDirectory (kernelPageDir dir : Nat) (mem after : MemState) : Prop where
  directory : Directory after dir
  apart : dir ≠ kernelPageDir
  lower : memExtStart ≤ dir
  aligned : dir % memPageSize = 0
  below : dir < 2 ^ 32
  userPhy : after.userPhy = mem.userPhy
  table : ∀ {entry table}, SmallTable after.words dir entry table → table = memExtStart
  user : ∀ {entry}, pdeIndex mem.userPhy.start ≤ entry → after.words dir entry = 0

section Created

variable {mem new : MemState} {kernelPageDir pages dir : Nat}

theorem Booted.taken (booted : Booted kernelPageDir pages mem)
    (returns : createUvm mem kernelPageDir = some (dir, new)) :
    ∃ idx < mem.kernelVir.pages, 0 < idx ∧ dir = memExtStart + idx * memPageSize ∧
      new.kernelVir = mem.kernelVir.take idx ∧ new.userPhy = mem.userPhy := by
  obtain ⟨idx, clear, isDir, vir, phy, -⟩ := createUvm_taken booted.paged returns
  obtain ⟨inside, isClear⟩ := AddrAlloc.mem_clearPages.mp clear
  refine ⟨idx, inside, Nat.pos_of_ne_zero ?_, ?_, vir, phy⟩
  · rintro rfl
    cases isClear.symm.trans booted.tableTaken
  · rw [isDir, AddrAlloc.addr, booted.start]

theorem Booted.onlyTable {entry table : Nat} (booted : Booted kernelPageDir pages mem)
    (shares : SharesPdes mem new kernelPageDir dir)
    (isTable : SmallTable new.words dir entry table) : entry = 0 ∧ table = memExtStart := by
  have isPresent := isTable.isPresent
  have small := isTable.small
  have word := shares.dirWords entry
  by_cases shared : entry < pdeIndex mem.userPhy.start ∧
      present (mem.words kernelPageDir entry) = true
  · rw [if_pos shared] at word
    have first : entry = 0 := by
      by_contra notZero
      have entries := booted.entries
      obtain ⟨-, big, -⟩ := booted.mapped.big entry (by omega) (by omega)
      rw [word, pageSizeBit, decide_eq_false_iff_not] at small
      exact small big
    refine ⟨first, ?_⟩
    rw [← isTable.isTable, word, first]
    exact booted.mapped.table.2.2
  · rw [word, if_neg shared] at isPresent
    cases isPresent

theorem Booted.left {idx free : Nat} (booted : Booted kernelPageDir pages mem)
    (vir : new.kernelVir = mem.kernelVir.take idx) (isFree : free ∈ new.kernelVir.clearPages) :
    free ≠ idx ∧ 0 < free ∧ new.kernelVir.addr free = memExtStart + free * memPageSize := by
  rw [vir, take_clearPages] at isFree
  obtain ⟨different, wasFree⟩ := Finset.mem_erase.mp isFree
  refine ⟨different, Nat.pos_of_ne_zero ?_, ?_⟩
  · rintro rfl
    cases (AddrAlloc.mem_clearPages.mp wasFree).2.symm.trans booted.tableTaken
  · rw [vir, ← booted.start]
    rfl

theorem Booted.directory (booted : Booted kernelPageDir pages mem)
    (returns : createUvm mem kernelPageDir = some (dir, new)) : Directory new dir := by
  have shares := createUvm_shares booted.paged (booted.start ▸ booted.dirBelow) returns
  obtain ⟨idx, -, positive, isDir, vir, -⟩ := booted.taken returns
  constructor
  · rw [vir]
    exact booted.paged.set
  · rw [vir]
    exact booted.start ▸ (by decide : 0 < memExtStart)
  · simp only [memExtStart] at isDir
    omega
  · intro free isFree
    obtain ⟨different, -, isAddr⟩ := booted.left vir isFree
    rw [isAddr, isDir]
    simp only [memPageSize]
    omega
  · intro entry table isTable
    rw [(booted.onlyTable shares isTable).2, isDir]
    simp only [memExtStart, memPageSize]
    omega
  · intro entry table isTable free isFree
    obtain ⟨-, behind, isAddr⟩ := booted.left vir isFree
    rw [isAddr, (booted.onlyTable shares isTable).2]
    simp only [memPageSize]
    omega
  · intro entry other table isTable isOther
    exact (booted.onlyTable shares isTable).1.trans (booted.onlyTable shares isOther).1.symm

theorem Booted.created (booted : Booted kernelPageDir pages mem)
    (returns : createUvm mem kernelPageDir = some (dir, new)) :
    NewDirectory kernelPageDir dir mem new := by
  have dirBelow := booted.dirBelow
  have shares := createUvm_shares booted.paged (booted.start ▸ dirBelow) returns
  obtain ⟨idx, inside, -, isDir, -, phy⟩ := booted.taken returns
  have below := booted.paged.below
  rw [booted.start] at below
  constructor
  · exact booted.directory returns
  · omega
  · omega
  · simp only [memExtStart, memPageSize] at isDir ⊢
    omega
  · simp only [AddrAlloc.pages, memExtStart, memPageSize] at isDir below inside
    omega
  · exact phy
  · exact fun isTable => (booted.onlyTable shares isTable).2
  · intro entry upper
    rw [shares.dirWords, if_neg fun both => Nat.not_lt.mpr upper both.1]

/-- `init_paging` leads to such a state, for every memory that addresses of 32 bits reach. -/
theorem initPaging_booted {image : KernelImage} {allMem : Nat} {words : Words}
    (placed : image.Placed) (large : memExtStart + memPageSize ≤ kernelAllMemory allMem)
    (small : allMem + 8 * memPageSize ≤ 2 ^ 32) :
    ∃ mem, initPaging image allMem words = some mem ∧
      Booted image.pageDir (kernelPages allMem) mem := by
  obtain ⟨mem, returns, vir, -, user, mapped⟩ := @initPaging_spec image allMem words placed large
  have phy := initPaging_userPhy returns
  have quarter : kernelAllMemory allMem ≤ 2 ^ 30 ∧ kernelAllMemory allMem ≤ allMem := by
    rw [kernelAllMemory]
    omega
  refine ⟨mem, returns, ?_, ?_, ?_, placed.dirBelow, mapped, ?_, ?_, ?_⟩
  · rw [vir]
    exact (kernelPool_paged allMem).firstTaken
  · rw [vir]
    rfl
  · rw [vir]
    exact Bitmap.bit_set_self _ _ _
  · rw [user]
    simp only [pdeIndex, kernelPages, memExtStart, memPageSize] at large ⊢
    omega
  · rw [user]
    exact quarter.1
  · rw [phy]
    refine ⟨rfl, ?_, ?_⟩
    · exact Nat.lt_of_lt_of_le (by decide) large
    · simp only [AddrAlloc.pages, initAddrAlloc, Bitmap.init, memPageSize] at small ⊢
      omega

theorem initPaging_booted_small : ∃ mem,
    initPaging ⟨0, 0x10000, 0x20000, 0x20000, 0x24000⟩ (2 ^ 25) (fun _ _ => 0) = some mem ∧
      Booted 0x24000 (kernelPages (2 ^ 25)) mem :=
  initPaging_booted ⟨by decide, by decide, by decide, by decide, by decide, by decide⟩
    (by decide) (by decide)

end Created

/-! ## The contract -/

section Contract

variable {before mem new after : MemState} {kernelPageDir pages dir userStart page : Nat}
  {call : VmCall} {calls ranges : List VmCall}

theorem TeardownRight.noPages (right : TeardownRight before mem dir ranges)
    (isRange : call ∈ ranges) (user : call.User userStart) : call.pageCount = 0 := by
  obtain ⟨-, result, after, called, released, -⟩ :=
    right [call] (List.singleton_subperm_iff.mpr isRange)
  have isPair : freeVmForPageDir mem dir call = (result, after) := Option.some.inj called
  apply (freeVm_right_iff user).mp
  rw [isPair]
  exact released

theorem VmCall.User.entry (user : call.User userStart) (covers : call.Covers page) :
    pdeIndex userStart ≤ page / 1024 := by
  have lower := user.lower
  have first := covers.1
  simp only [pdeIndex, memPageSize] at first ⊢
  omega

/-- Whatever is allocated in a new address space, its release is not right: where a range has
a page, the page stays mapped, and where none has, entries outside of the directory are read. -/
theorem teardown_never_right (booted : Booted kernelPageDir pages mem)
    (created : createUvm mem kernelPageDir = some (dir, new))
    (user : ∀ call ∈ calls, call.User mem.userPhy.start)
    (disjoint : calls.Pairwise fun call other => ∀ page, call.Covers page → ¬ other.Covers page)
    (allocated : allocVms kernelPageDir dir new calls = some (ranges, after)) :
    ¬ TeardownRight mem after dir ranges := by
  intro right
  have isNew := booted.created created
  have noEntry : ∀ call ∈ calls, ∀ page, call.Covers page →
      present (new.words dir (page / 1024)) = false := by
    intro call isCall page covers
    rw [isNew.user ((user call isCall).entry covers)]
    rfl
  have all : ranges = calls := by
    apply allocVms_all isNew.directory isNew.apart (isNew.userPhy ▸ booted.frames) user ?_ ?_
      disjoint allocated
    · intro call isCall page covers big
      cases (noEntry call isCall page covers).symm.trans (bigAt_iff.mp big).1
    · intro call isCall page covers
      exact pageAt_absent (noEntry call isCall page covers)
  subst all
  have same := @allocVms_nothing new _ kernelPageDir dir
    fun call isCall => right.noPages isCall (user call isCall)
  cases same.symm.trans allocated
  refine not_destroyRight isNew.lower isNew.aligned isNew.below ?_ isNew.table
    (right [] List.nil_subperm)
  rw [isNew.userPhy]
  exact booted.user

end Contract

/-- The state after `init_paging` with sixteen megabytes: the kernel has the first four. -/
def sampleKernel : MemState :=
  { kernelPhy := ⟨memExtStart, memPageSize, ⟨32, fun byteIdx => if byteIdx = 0 then 1 else 0⟩⟩
    kernelVir := ⟨memExtStart, memPageSize, ⟨32, fun byteIdx => if byteIdx = 0 then 1 else 0⟩⟩
    userPhy := ⟨0x400000, memPageSize, ⟨384, fun _ => 0⟩⟩
    words := fun page idx =>
      if page = 0x24000 ∧ idx = 0 then memExtStart + 7
      else if page = memExtStart then idx * memPageSize + 3
      else 0 }

theorem sampleKernel_booted : Booted 0x24000 256 sampleKernel := by
  refine ⟨⟨rfl, by decide, by decide⟩, rfl, by decide, by decide, ?_, by decide, by decide,
    ⟨rfl, by decide, by decide⟩⟩
  refine ⟨by decide, by decide, ?_, ?_⟩
  · intro page _ _
    have aligned : page * memPageSize % memPageSize = 0 := Nat.mul_mod_left _ _
    exact ⟨present_flags aligned (by decide), pePhyAddr_flags aligned (by decide)⟩
  · intro entry lower upper
    omega

theorem teardown_never_right_sample : ∃ dir new after,
    Booted 0x24000 256 sampleKernel ∧ createUvm sampleKernel 0x24000 = some (dir, new) ∧
      (∀ call ∈ [(⟨0x40000000, 4, 6⟩ : VmCall), ⟨0x40001000, 0x2000, 6⟩],
        call.User sampleKernel.userPhy.start) ∧
      [(⟨0x40000000, 4, 6⟩ : VmCall), ⟨0x40001000, 0x2000, 6⟩].Pairwise
        (fun call other => ∀ page, call.Covers page → ¬ other.Covers page) ∧
      allocVms 0x24000 dir new [⟨0x40000000, 4, 6⟩, ⟨0x40001000, 0x2000, 6⟩] =
        some ([⟨0x40000000, 4, 6⟩, ⟨0x40001000, 0x2000, 6⟩], after) ∧
      ¬ TeardownRight sampleKernel after dir [⟨0x40000000, 4, 6⟩, ⟨0x40001000, 0x2000, 6⟩] := by
  have user : ∀ call ∈ [(⟨0x40000000, 4, 6⟩ : VmCall), ⟨0x40001000, 0x2000, 6⟩],
      call.User sampleKernel.userPhy.start := by
    intro call member
    rcases List.mem_pair.mp member with rfl | rfl
    · exact ⟨by decide, by decide, by decide, by decide⟩
    · exact ⟨by decide, by decide, by decide, by decide⟩
  have disjoint : [(⟨0x40000000, 4, 6⟩ : VmCall), ⟨0x40001000, 0x2000, 6⟩].Pairwise
      fun call other => ∀ page, call.Covers page → ¬ other.Covers page := by
    apply List.pairwise_pair.mpr
    rintro page ⟨-, upper⟩ ⟨lower, -⟩
    have onePage : VmCall.pageCount ⟨0x40000000, 4, 6⟩ = 1 := by decide
    rw [onePage] at upper
    simp only [memPageSize] at upper lower
    omega
  refine ⟨_, _, _, sampleKernel_booted, rfl, user, disjoint, rfl, ?_⟩
  exact teardown_never_right sampleKernel_booted rfl user disjoint rfl

/-- A word is allocated and released: the release succeeds, and the page is still mapped. -/
theorem released_page_mapped : ∃ dir new after,
    createUvm sampleKernel 0x24000 = some (dir, new) ∧
      allocVms 0x24000 dir new [⟨0x40000000, 4, 6⟩] = some ([⟨0x40000000, 4, 6⟩], after) ∧
      (freeVmForPageDir after dir ⟨0x40000000, 4, 6⟩).1 = 0 ∧
      (freeVmForPageDir after dir ⟨0x40000000, 4, 6⟩).2.pageAt dir 0x40000 = some 0x400000 ∧
      ¬ TeardownRight sampleKernel after dir [⟨0x40000000, 4, 6⟩] := by
  refine ⟨_, _, _, rfl, rfl, by decide, by decide, ?_⟩
  intro right
  have user : VmCall.User ⟨0x40000000, 4, 6⟩ 0x400000 :=
    ⟨by decide, by decide, by decide, by decide⟩
  have noPages := right.noPages List.mem_cons_self user
  revert noPages
  decide

end CleanOS.Memory
