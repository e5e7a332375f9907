import CleanOS.Memory.KernelPages
import CleanOS.Memory.PageWalk

/-!
# Running out of memory

What `malloc_mem`, `malloc_mem_vaddr`, `alloc_mem_page` and `alloc_phy_mem_page` of
`kernel/memory/paging.c` do when a request cannot be satisfied.  Their tests for the error
value are `addr < 0` on unsigned addresses and never taken, so that only the tests in front
of the first allocation refuse a request.
-/

namespace CleanOS.Memory

open CleanOS.Common

/-- Whose memory a call takes.  `main_thread` has a copy of `kernel_vir_addr_alloc`, with the
same bits. -/
inductive Owner where
  | kernel
  | mainThread
  | user (space : Space)

/-- The `vir_addr_alloc` of an owner. -/
def Owner.vir (mem : MemState) : Owner → AddrAlloc
  | .kernel => mem.kernelVir
  | .mainThread => mem.kernelVir
  | .user space => space.vir

/-- The `phy_addr_alloc` that goes with it. -/
def Owner.phy (mem : MemState) : Owner → AddrAlloc
  | .kernel => mem.kernelPhy
  | .mainThread => mem.kernelPhy
  | .user _ => mem.userPhy

def Owner.pageDir (kernelPageDir : Nat) : Owner → Nat
  | .kernel => kernelPageDir
  | .mainThread => kernelPageDir
  | .user space => space.pageDir

def Owner.withAllocs (mem : MemState) (vir phy : AddrAlloc) : Owner → Owner × MemState
  | .kernel => (.kernel, { mem with kernelVir := vir, kernelPhy := phy })
  | .mainThread => (.mainThread, { mem with kernelVir := vir, kernelPhy := phy })
  | .user space => (.user { space with vir := vir }, { mem with userPhy := phy })

/-- The loop of `map_mem_page`. -/
def mapMemPageWithLoop (permit pageDir : Nat) (override : Bool) :
    MemState → Nat → List Nat → Option MemState
  | mem, _, [] => some mem
  | mem, vaddr, paddr :: paddrs => do
      let (_, mem) ← mapMemWith permit mem pageDir vaddr paddr 1 override
      mapMemPageWithLoop permit pageDir override mem ((vaddr + memPageSize) % 2 ^ 32) paddrs

/-- `map_mem_page` of at most `MALLOC_MAX_PAGE` pages, with the permissions for the
directory. -/
def mapMemPageWith (permit : Nat) (mem : MemState) (pageDir vaddr : Nat) (paddrs : List Nat)
    (override : Bool) : Option (Nat × MemState) := do
  let mem ← mapMemPageWithLoop permit pageDir override mem (down2 vaddr) paddrs
  some (down2 vaddr, mem)

/-- A call that takes memory. -/
inductive MemRequest where
  | allocPhyMemPage
  | allocMemPage
  | mallocMem
  | mallocMemVaddr (vaddr : Nat)

/-- A call for some pages, with the result `-1` as a word. -/
def memRequest (kernelPageDir : Nat) (mem : MemState) (owner : Owner) (pageCount : Int) :
    MemRequest → Option (Nat × Owner × MemState)
  | .allocPhyMemPage =>
      if pageCount > mallocMaxPage then some (failed, owner, mem)
      else
        let (_, phy) := allocPages (owner.phy mem) pageCount.toNat
        some (0, owner.withAllocs mem (owner.vir mem) phy)
  | .allocMemPage =>
      let pages := allocMemPage (owner.vir mem) (owner.phy mem) pageCount
      some (0, owner.withAllocs mem pages.vir pages.phy)
  | .mallocMem =>
      if pageCount > mallocMaxPage then some (failed, owner, mem)
      else
        let pages := allocMemPage (owner.vir mem) (owner.phy mem) pageCount
        let pageDir := owner.pageDir kernelPageDir
        match owner.withAllocs mem pages.vir pages.phy with
        | (.kernel, mem) => some (pages.vaddr, .kernel, mem)
        | (owner, mem) => do
            let (vaddr, mem) ← mapMemPageWith (mapPermit kernelPageDir pageDir) mem pageDir
              pages.vaddr pages.paddrs true
            some (vaddr, owner, mem)
  | .mallocMemVaddr vaddr =>
      let vaddr := down2 vaddr
      let pageDir := owner.pageDir kernelPageDir
      if anyPresent mem.words pageDir vaddr pageCount.toNat then some (failed, owner, mem)
      else if pageCount > mallocMaxPage then some (failed, owner, mem)
      else do
        let (paddrs, phy) := allocPages (owner.phy mem) pageCount.toNat
        let vir := allocMemUse (owner.vir mem) vaddr pageCount true
        let (owner, mem) := owner.withAllocs mem vir phy
        let (vaddr, mem) ← mapMemPageWith (mapPermit kernelPageDir pageDir) mem pageDir vaddr
          paddrs true
        some (vaddr, owner, mem)

/-- No run of addresses is long enough, or the frames run out, or no kernel page is left for
a table. -/
def Unsatisfiable (kernelPageDir : Nat) (mem : MemState) (owner : Owner) (pageCount : Int)
    (request : MemRequest) : Prop :=
  (owner.phy mem).clearPages.card < pageCount ∨
    memRequest kernelPageDir mem owner pageCount request = none ∨
    match request with
    | .allocMemPage => ¬ (owner.vir mem).bitmap.HasRun (owner.vir mem).pages pageCount.toNat
    | .mallocMem => ¬ (owner.vir mem).bitmap.HasRun (owner.vir mem).pages pageCount.toNat
    | _ => False

/-- The call returns `-1`, and the bitmaps and all tables are as before: no entry points to
anything that it did not point to. -/
def RolledBack (kernelPageDir : Nat) (mem : MemState) (owner : Owner) (pageCount : Int)
    (request : MemRequest) : Prop :=
  memRequest kernelPageDir mem owner pageCount request = some (failed, owner, mem)

/-- More than `MALLOC_MAX_PAGE` pages are asked for where the call looks at this, or a page
of the range is mapped where it looks at that, or the kernel has neither a run of addresses
nor a single frame. -/
def RollbackGuard (kernelPageDir : Nat) (mem : MemState) (owner : Owner) (pageCount : Int) :
    MemRequest → Prop
  | .allocPhyMemPage => mallocMaxPage < pageCount
  | .allocMemPage => False
  | .mallocMem => mallocMaxPage < pageCount ∨
      match owner with
      | .kernel => mem.kernelPhy.clearPages = ∅ ∧
          ¬ mem.kernelVir.bitmap.HasRun (mem.kernelVir.bitmap.scanLimit pageCount.toNat)
            pageCount.toNat
      | _ => False
  | .mallocMemVaddr vaddr => mallocMaxPage < pageCount ∨
      anyPresent mem.words (owner.pageDir kernelPageDir) (down2 vaddr) pageCount.toNat = true

section Results

variable {mem next : MemState} {alloc : AddrAlloc} {owner after : Owner}
  {kernelPageDir permit pageDir vaddr result count : Nat} {paddrs : List Nat}
  {pageCount : Int} {override : Bool} {request : MemRequest}

theorem mapMemPageWith_result
    (returns : mapMemPageWith permit mem pageDir vaddr paddrs override = some (result, next)) :
    result ≠ failed := by
  obtain ⟨mid, -, isResult⟩ := Option.bind_eq_some_iff.mp returns
  cases isResult
  apply aligned_ne_failed
  simp only [down2, memPageSize]
  omega

theorem allocPages_none (paged : alloc.Paged) (empty : alloc.clearPages = ∅) :
    (allocPages alloc count).2 = alloc := by
  induction count with
  | zero => rfl
  | succ count ih =>
      rcases allocRange_one paged with ⟨idx, inside, clear, -⟩ | ⟨missing, -⟩
      · have member := AddrAlloc.mem_clearPages.mpr ⟨inside, clear⟩
        rw [empty] at member
        cases member
      · simp only [allocPages, allocPhyMem, missing, ih]

theorem allocPages_same_iff (paged : alloc.Paged) (positive : 0 < count) :
    (allocPages alloc count).2 = alloc ↔ alloc.clearPages = ∅ := by
  constructor
  · intro same
    apply Finset.eq_empty_of_forall_notMem
    intro idx member
    obtain ⟨inside, clear⟩ := AddrAlloc.mem_clearPages.mp member
    obtain ⟨low, btm, -, lowClear, -, taken, -, lowTaken⟩ :=
      allocPages_first paged positive inside clear
    rw [← taken.symm.trans same] at lowClear
    cases lowTaken.symm.trans lowClear
  · exact allocPages_none paged

theorem allocVirMem_cases (paged : alloc.Paged) (positive : 0 < pageCount)
    (small : pageCount ≤ mallocMaxPage) :
    ((allocVirMem alloc pageCount).1 ≠ failed ∧
        alloc.bitmap.HasRun (alloc.bitmap.scanLimit pageCount.toNat) pageCount.toNat) ∨
      (allocVirMem alloc pageCount = (failed, alloc) ∧
        ¬ alloc.bitmap.HasRun (alloc.bitmap.scanLimit pageCount.toNat) pageCount.toNat) := by
  have count : pageCount % 2 ^ 32 = pageCount := by
    simp only [mallocMaxPage] at small
    omega
  rcases @Bitmap.scan_cases alloc.bitmap pageCount.toNat (by omega) with
    ⟨missing, noRun⟩ | ⟨start, found, inside, clear, -⟩
  · right
    refine ⟨?_, noRun⟩
    have negative : (-1 : Int) < 0 := by decide
    simp only [allocVirMem, allocRange, count, missing, if_pos negative]
  · left
    refine ⟨?_, start, inside, clear⟩
    have nonneg : ¬ (start : Int) < 0 := by omega
    have aligned := paged.aligned
    simp only [allocVirMem, allocRange, count, found, if_neg nonneg, Int.toNat_natCast]
    apply aligned_ne_failed
    rw [paged.pageSize]
    simp only [memPageSize] at aligned ⊢
    omega

theorem kernel_rolledBack_iff (virPaged : mem.kernelVir.Paged) (phyPaged : mem.kernelPhy.Paged)
    (positive : 0 < pageCount) :
    RolledBack kernelPageDir mem .kernel pageCount .mallocMem ↔
      RollbackGuard kernelPageDir mem .kernel pageCount .mallocMem := by
  by_cases large : pageCount > mallocMaxPage
  · refine iff_of_true ?_ (.inl large)
    simp only [RolledBack, memRequest, if_pos large]
  · have request : memRequest kernelPageDir mem .kernel pageCount .mallocMem =
        some ((allocVirMem mem.kernelVir pageCount).1, .kernel,
          { mem with
            kernelVir := (allocVirMem mem.kernelVir pageCount).2
            kernelPhy := (allocPages mem.kernelPhy pageCount.toNat).2 }) := by
      rw [memRequest, if_neg large]
      rfl
    have samePhy := @allocPages_same_iff mem.kernelPhy pageCount.toNat phyPaged (by omega)
    rw [RolledBack, request]
    rcases allocVirMem_cases virPaged positive (not_lt.mp large) with
      ⟨notFailed, hasRun⟩ | ⟨missing, noRun⟩
    · constructor
      · intro same
        exact absurd (congrArg Prod.fst (Option.some.inj same)) notFailed
      · rintro (tooMany | ⟨-, noRun⟩)
        · exact absurd tooMany large
        · exact absurd hasRun noRun
    · rw [missing]
      constructor
      · intro same
        have sameMem := congrArg (fun state => state.2.2.kernelPhy) (Option.some.inj same)
        exact .inr ⟨samePhy.mp sameMem, noRun⟩
      · rintro (tooMany | ⟨empty, -⟩)
        · exact absurd tooMany large
        · rw [samePhy.mpr empty]

theorem not_rolledBack_of_mapped {found : MemState} {taker : Owner}
    (mapped : memRequest kernelPageDir mem owner pageCount request =
      (mapMemPageWith permit found pageDir vaddr paddrs override).bind fun (vaddr, next) =>
        some (vaddr, taker, next)) :
    ¬ RolledBack kernelPageDir mem owner pageCount request := by
  intro rolledBack
  obtain ⟨⟨result, next⟩, returns, same⟩ := Option.bind_eq_some_iff.mp
    (mapped.symm.trans rolledBack)
  exact mapMemPageWith_result returns (congrArg Prod.fst (Option.some.inj same))

theorem rolledBack_iff (virPaged : mem.kernelVir.Paged) (phyPaged : mem.kernelPhy.Paged)
    (positive : 0 < pageCount) (request : MemRequest) :
    RolledBack kernelPageDir mem owner pageCount request ↔
      RollbackGuard kernelPageDir mem owner pageCount request := by
  cases request with
  | allocPhyMemPage =>
      by_cases large : pageCount > mallocMaxPage
      · refine iff_of_true ?_ large
        simp only [RolledBack, memRequest, if_pos large]
      · refine iff_of_false ?_ large
        intro rolledBack
        simp only [RolledBack, memRequest, if_neg large] at rolledBack
        cases congrArg Prod.fst (Option.some.inj rolledBack)
  | allocMemPage =>
      refine iff_of_false ?_ id
      intro rolledBack
      cases congrArg Prod.fst (Option.some.inj rolledBack)
  | mallocMem =>
      cases owner with
      | kernel => exact kernel_rolledBack_iff virPaged phyPaged positive
      | mainThread =>
          by_cases large : pageCount > mallocMaxPage
          · refine iff_of_true ?_ (.inl large)
            simp only [RolledBack, memRequest, if_pos large]
          · refine iff_of_false ?_ (not_or.mpr ⟨large, id⟩)
            apply not_rolledBack_of_mapped
            rw [memRequest, if_neg large]
            rfl
      | user space =>
          by_cases large : pageCount > mallocMaxPage
          · refine iff_of_true ?_ (.inl large)
            simp only [RolledBack, memRequest, if_pos large]
          · refine iff_of_false ?_ (not_or.mpr ⟨large, id⟩)
            apply not_rolledBack_of_mapped
            rw [memRequest, if_neg large]
            rfl
  | mallocMemVaddr vaddr =>
      by_cases isPresent :
          anyPresent mem.words (owner.pageDir kernelPageDir) (down2 vaddr) pageCount.toNat = true
      · refine iff_of_true ?_ (.inr isPresent)
        simp only [RolledBack, memRequest, if_pos isPresent]
      · by_cases large : pageCount > mallocMaxPage
        · refine iff_of_true ?_ (.inl large)
          simp only [RolledBack, memRequest, if_neg isPresent, if_pos large]
        · refine iff_of_false ?_ (not_or.mpr ⟨large, isPresent⟩)
          apply not_rolledBack_of_mapped
          rw [memRequest, if_neg isPresent, if_neg large]
          rfl

/-- For every state and every request, when it cannot be satisfied it is rolled back exactly
under the guard. -/
theorem outOfMemory_right (virPaged : mem.kernelVir.Paged) (phyPaged : mem.kernelPhy.Paged)
    (positive : 0 < pageCount) (kernelPageDir : Nat) (owner : Owner) (request : MemRequest) :
    (Unsatisfiable kernelPageDir mem owner pageCount request →
        RolledBack kernelPageDir mem owner pageCount request) ↔
      (Unsatisfiable kernelPageDir mem owner pageCount request →
        RollbackGuard kernelPageDir mem owner pageCount request) :=
  imp_congr_right fun _ => rolledBack_iff virPaged phyPaged positive request

theorem outOfMemory_right_large :
    sampleDirectory.kernelVir.Paged ∧ sampleDirectory.kernelPhy.Paged ∧ (0 : Int) < 1025 ∧
      (Unsatisfiable 0x24000 sampleDirectory .kernel 1025 .allocPhyMemPage →
        RolledBack 0x24000 sampleDirectory .kernel 1025 .allocPhyMemPage) := by
  have paged : sampleDirectory.kernelVir.Paged := ⟨rfl, by decide, by decide⟩
  refine ⟨paged, paged, by decide, ?_⟩
  exact (outOfMemory_right paged paged (by decide) 0x24000 .kernel .allocPhyMemPage).mpr
    fun _ => (by decide : mallocMaxPage < 1025)

def sampleSpace : Space :=
  ⟨memExtStart, ⟨0x40000000, memPageSize, ⟨1, fun _ => 0⟩⟩⟩

def withoutFrames : MemState :=
  { sampleDirectory with userPhy := ⟨0x800000, memPageSize, ⟨0, fun _ => 0⟩⟩ }

/-- One page is asked for and there is no frame: an address is returned, and it is mapped to
the page of the error value. -/
theorem missing_frame_mapped :
    Unsatisfiable 0x24000 withoutFrames (.user sampleSpace) 1 .mallocMem ∧
      ∃ owner after,
        memRequest 0x24000 withoutFrames (.user sampleSpace) 1 .mallocMem =
            some (0x40000000, owner, after) ∧
          vaddr2paddr after.words memExtStart 0x40000000 = some 0xfffff000 ∧
          ¬ RolledBack 0x24000 withoutFrames (.user sampleSpace) 1 .mallocMem := by
  constructor
  · left
    have empty : ((Owner.user sampleSpace).phy withoutFrames).clearPages = ∅ := rfl
    rw [empty]
    decide
  · have returns : ∃ owner after, memRequest 0x24000 withoutFrames (.user sampleSpace) 1 .mallocMem =
        some (0x40000000, owner, after) ∧
          vaddr2paddr after.words memExtStart 0x40000000 = some 0xfffff000 :=
      ⟨_, _, rfl, by decide⟩
    obtain ⟨owner, after, request, mapped⟩ := returns
    refine ⟨owner, after, request, mapped, ?_⟩
    intro rolledBack
    cases congrArg Prod.fst (Option.some.inj (request.symm.trans rolledBack))

end Results

end CleanOS.Memory
