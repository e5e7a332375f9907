import CleanOS.Memory.CopyPage
import CleanOS.Memory.Directory
import CleanOS.Memory.KernelPages

/-!
# Kernel pages in every directory

`create_uvm` of `kernel/memory/paging.c`.  It copies the entries of `kernel_page_dir` below
the one of `kernel_all_memory`.  Where that one maps the last pages of the kernel, a process
does not see them.
-/

namespace CleanOS.Memory

open CleanOS.Common CleanOS.Lib

/-- Calls of the kernel for its pages lead to a state in which `alloc_kernel_mem` returns an
address. -/
def CanReturn (kernelPageDir : Nat) (start : KernelRanges) (vaddr : Nat) : Prop :=
  ∃ calls state pageCount, runAll (kernelCall kernelPageDir) start calls = some state ∧
    0 < pageCount ∧ (allocKernelMem state.mem pageCount).1 = vaddr ∧ vaddr ≠ failed

/-- Every directory that `create_uvm` makes maps the addresses that `alloc_kernel_mem` can
return as `kernel_page_dir` does, and maps nothing behind the kernel's memory. -/
def UvmRight (kernelPageDir kernelAll : Nat) (start : KernelRanges) : Prop :=
  ∀ calls state, runAll (kernelCall kernelPageDir) start calls = some state →
    ∀ dir after, createUvm state.mem kernelPageDir = some (dir, after) →
      (∀ vaddr, CanReturn kernelPageDir start vaddr →
        mmuWalk after.words dir vaddr = mmuWalk after.words kernelPageDir vaddr) ∧
      ∀ vaddr, kernelAll ≤ vaddr → mmuWalk after.words dir vaddr = none

/-- The kernel's memory ends less than a page behind a multiple of four megabytes: it has its
largest size of one gigabyte, or a quarter of the memory is such a size. -/
def UvmGuard (allMem : Nat) : Prop :=
  2 ^ 32 ≤ allMem ∨ allMem % 2 ^ 24 < 2 ^ 14

section Shape

structure SameShape (before after : AddrAlloc) : Prop where
  start : after.start = before.start
  pageSize : after.pageSize = before.pageSize
  bytesLen : after.bitmap.bytesLen = before.bitmap.bytesLen

variable {alloc before after : AddrAlloc} {mem : MemState} {vaddr kernelPageDir : Nat}
  {pageCount : Int} {use : Bool}

theorem SameShape.refl (alloc : AddrAlloc) : SameShape alloc alloc :=
  ⟨rfl, rfl, rfl⟩

theorem SameShape.trans {last : AddrAlloc} (first : SameShape before after)
    (second : SameShape after last) : SameShape before last :=
  ⟨second.start.trans first.start, second.pageSize.trans first.pageSize,
    second.bytesLen.trans first.bytesLen⟩

theorem SameShape.paged (same : SameShape before after) (paged : before.Paged) : after.Paged := by
  constructor
  · exact same.pageSize.trans paged.pageSize
  · exact same.start ▸ paged.aligned
  · rw [same.start, same.bytesLen]
    exact paged.below

theorem SameShape.addr (same : SameShape before after) (idx : Nat) :
    after.addr idx = before.addr idx := by
  rw [AddrAlloc.addr, AddrAlloc.addr, same.start]

theorem SameShape.pages (same : SameShape before after) :
    after.pages = before.pages := by
  rw [AddrAlloc.pages, AddrAlloc.pages, same.bytesLen]

theorem firstTaken_shape : SameShape alloc alloc.firstTaken :=
  ⟨rfl, rfl, rfl⟩

theorem allocMemUse_shape : SameShape alloc (allocMemUse alloc vaddr pageCount use) :=
  ⟨rfl, rfl, setBits_bytesLen⟩

theorem allocRange_shape : SameShape alloc (allocRange alloc pageCount).2 := by
  rw [allocRange]
  split
  · exact .refl _
  · exact allocMemUse_shape

structure SamePlaces (before after : MemState) : Prop where
  kernelVir : SameShape before.kernelVir after.kernelVir
  user : after.userPhy.start = before.userPhy.start

theorem allocKernelMem_places : SamePlaces mem (allocKernelMem mem pageCount).2 := by
  rw [allocKernelMem]
  split
  · exact ⟨.refl _, rfl⟩
  · exact ⟨allocRange_shape, rfl⟩

theorem unallocKernelMem_places :
    SamePlaces mem (unallocKernelMem kernelPageDir mem vaddr pageCount).2 := by
  have released : ∀ {paddr}, (freePhyMem mem paddr pageCount).userPhy.start = mem.userPhy.start := by
    intro paddr
    rw [freePhyMem]
    split <;> rfl
  rw [unallocKernelMem, unallocMem]
  cases vaddr2paddr mem.words kernelPageDir vaddr with
  | none => exact ⟨.refl _, rfl⟩
  | some paddr => exact ⟨allocMemUse_shape, released⟩

theorem kernelCall_places {state next : KernelRanges} {call : KernelCall} {result : Int}
    (called : kernelCall kernelPageDir state call = some (result, next)) :
    SamePlaces state.mem next.mem := by
  cases call with
  | alloc pageCount =>
      have isNext : next.mem = (allocKernelMem state.mem pageCount).2 := by
        cases called
        rfl
      rw [isNext]
      exact allocKernelMem_places
  | unalloc range =>
      have isNext : next.mem =
          (unallocKernelMem kernelPageDir state.mem range.vaddr range.pageCount).2 := by
        cases called
        rfl
      rw [isNext]
      exact unallocKernelMem_places
  | write page idx value =>
      cases called
      exact ⟨.refl _, rfl⟩

theorem run_places {start final : KernelRanges} (calls : List KernelCall)
    (ran : runAll (kernelCall kernelPageDir) start calls = some final) :
    SamePlaces start.mem final.mem := by
  refine @runAll_invariant _ _ _ _ (fun state => SamePlaces start.mem state.mem) ?_ calls _ _
    ⟨.refl _, rfl⟩ ran
  intro state call result next kept called
  obtain ⟨shape, user⟩ := kernelCall_places called
  exact ⟨kept.kernelVir.trans shape, user.trans kept.user⟩

theorem allocKernelMem_addr (paged : mem.kernelVir.Paged)
    (positive : 0 < pageCount) (given : (allocKernelMem mem pageCount).1 ≠ failed) :
    ∃ idx < mem.kernelVir.pages, (allocKernelMem mem pageCount).1 = mem.kernelVir.addr idx := by
  by_cases large : pageCount > mallocMaxPage
  · rw [allocKernelMem, if_pos large] at given
    exact absurd rfl given
  · have count : pageCount % 2 ^ 32 = pageCount := by
      simp only [mallocMaxPage] at large
      omega
    have isRange : (allocKernelMem mem pageCount).1 = (allocRange mem.kernelVir pageCount).1 := by
      rw [allocKernelMem, if_neg large]
      rfl
    rw [isRange] at given ⊢
    rcases @Bitmap.scan_cases mem.kernelVir.bitmap pageCount.toNat (by omega) with
      ⟨missing, -⟩ | ⟨start, found, inside, -⟩
    · have negative : (-1 : Int) < 0 := by decide
      rw [allocRange, count, missing, if_pos negative] at given
      exact absurd rfl given
    · have startInside : start < mem.kernelVir.pages := by
        rw [Bitmap.scanLimit] at inside
        rw [AddrAlloc.pages]
        split at inside <;> omega
      have nonneg : ¬ (start : Int) < 0 := by omega
      have below := paged.below
      refine ⟨start, startInside, ?_⟩
      rw [allocRange, count, found, if_neg nonneg, Int.toNat_natCast, paged.pageSize]
      simp only [AddrAlloc.addr, AddrAlloc.pages, memPageSize] at *
      omega

end Shape

section Shared

variable {mem after : MemState} {words : Words} {kernelPageDir dir count other idx vaddr : Nat}

theorem sharePdes_words (apart : dir ≠ kernelPageDir) :
    sharePdes kernelPageDir dir count words dir idx =
      if idx < count ∧ present (words kernelPageDir idx) = true then words kernelPageDir idx
      else words dir idx := by
  induction count generalizing words with
  | zero =>
      rw [if_neg fun both => Nat.not_lt_zero _ both.1]
      rfl
  | succ count ih =>
      rw [sharePdes, ih]
      by_cases isPresent : present (words kernelPageDir count) = true
      · have sameKernel : setWord words dir count (words kernelPageDir count) kernelPageDir =
            words kernelPageDir := by
          funext entry
          rw [setWord, if_neg fun both => apart both.1.symm]
        rw [if_pos isPresent, sameKernel]
        by_cases isLast : idx = count
        · subst isLast
          rw [if_neg (by omega), if_pos ⟨by omega, isPresent⟩, setWord, if_pos ⟨rfl, rfl⟩]
        · have sameDir : setWord words dir count (words kernelPageDir count) dir idx =
              words dir idx := by
            rw [setWord, if_neg fun both => isLast both.2]
          have earlier : idx < count + 1 ↔ idx < count := by omega
          rw [sameDir]
          simp only [earlier]
      · rw [if_neg isPresent]
        by_cases isLast : idx = count
        · subst isLast
          rw [if_neg (by omega), if_neg fun both => isPresent both.2]
        · have earlier : idx < count + 1 ↔ idx < count := by omega
          simp only [earlier]

/-- The directory that `create_uvm` makes. -/
structure SharesPdes (mem after : MemState) (kernelPageDir dir : Nat) : Prop where
  kernelWords : after.words kernelPageDir = mem.words kernelPageDir
  dirWords : ∀ idx, after.words dir idx =
    if idx < pdeIndex mem.userPhy.start ∧ present (mem.words kernelPageDir idx) = true then
      mem.words kernelPageDir idx
    else 0

theorem createUvm_taken (paged : mem.kernelVir.Paged)
    (returns : createUvm mem kernelPageDir = some (dir, after)) :
    ∃ idx ∈ mem.kernelVir.clearPages, dir = mem.kernelVir.addr idx ∧
      after.kernelVir = mem.kernelVir.take idx ∧ after.userPhy = mem.userPhy ∧
      after.words = sharePdes kernelPageDir dir (pdeIndex mem.userPhy.start)
        (clearPage mem.words dir) := by
  have notLarge : ¬ (1 : Int) > mallocMaxPage := by decide
  simp only [createUvm, allocKernelMem, if_neg notLarge, allocMemPage, allocVirMem] at returns
  rcases allocRange_one paged with ⟨idx, inside, clear, allocEq⟩ | ⟨missing, -⟩
  · rw [allocEq, if_neg (aligned_ne_failed (paged.addr_aligned idx))] at returns
    cases returns
    exact ⟨idx, AddrAlloc.mem_clearPages.mpr ⟨inside, clear⟩, rfl, rfl, rfl, rfl⟩
  · rw [missing, if_pos rfl] at returns
    cases returns

theorem createUvm_shares (paged : mem.kernelVir.Paged)
    (below : kernelPageDir < mem.kernelVir.start)
    (returns : createUvm mem kernelPageDir = some (dir, after)) :
    SharesPdes mem after kernelPageDir dir := by
  obtain ⟨idx, -, isIdx, -, -, words⟩ := createUvm_taken paged returns
  have apart : dir ≠ kernelPageDir := by
    rw [isIdx, AddrAlloc.addr]
    omega
  constructor
  · funext entry
    rw [words, sharePdes_outside (.inl apart.symm), clearPage, if_neg apart.symm]
  · intro entry
    rw [words, sharePdes_words apart]
    simp only [clearPage, if_neg apart.symm, if_true]

theorem SharesPdes.same (shares : SharesPdes mem after kernelPageDir dir)
    (below : pdeIndex vaddr < pdeIndex mem.userPhy.start) :
    mmuWalk after.words dir vaddr = mmuWalk after.words kernelPageDir vaddr := by
  have entry := shares.dirWords (pdeIndex vaddr)
  rw [← shares.kernelWords] at entry
  cases isPresent : present (after.words kernelPageDir (pdeIndex vaddr)) with
  | true =>
      rw [if_pos ⟨below, isPresent⟩] at entry
      simp only [mmuWalk, entry]
  | false =>
      rw [if_neg fun both => Bool.false_ne_true (isPresent.symm.trans both.2)] at entry
      have absent : present (after.words dir (pdeIndex vaddr)) = false := by
        rw [entry]
        rfl
      simp [mmuWalk, isPresent, absent]

theorem SharesPdes.nothing (shares : SharesPdes mem after kernelPageDir dir)
    (behind : pdeIndex mem.userPhy.start ≤ pdeIndex vaddr) :
    mmuWalk after.words dir vaddr = none := by
  have entry := shares.dirWords (pdeIndex vaddr)
  rw [if_neg fun both => Nat.not_lt.mpr behind both.1] at entry
  have absent : present (after.words dir (pdeIndex vaddr)) = false := by
    rw [entry]
    rfl
  simp [mmuWalk, absent]

end Shared

section Boundary

variable {image : KernelImage} {allMem dir pages start count vaddr : Nat} {words : Words}
  {state : KernelRanges}

theorem KernelAgree.canReturn (agree : KernelAgree dir pages state)
    (free : FirstFree state.mem.kernelVir.bitmap pages start (count + 1)) :
    CanReturn dir state (state.mem.kernelVir.addr (start + count)) := by
  have notFailed (idx : Nat) : state.mem.kernelVir.addr idx ≠ failed :=
    aligned_ne_failed (agree.paged.addr_aligned idx)
  have first : FirstFree state.mem.kernelVir.bitmap pages start 1 := by
    rw [Nat.add_comm] at free
    exact free.shorter
  have called := @KernelAgree.alloc_eq _ _ _ start 1 agree (by decide) (by decide) first
  induction count generalizing state start with
  | zero =>
      refine ⟨[], state, 1, rfl, Int.zero_lt_one, ?_, notFailed _⟩
      have result := congrArg Prod.fst (Option.some.inj called)
      exact Int.ofNat_inj.mp result
  | succ count ih =>
      have nextFree : FirstFree (state.mem.kernelVir.mark start 1 true).bitmap pages (start + 1)
          (count + 1) := by
        apply FirstFree.mark
        rw [Nat.add_comm]
        exact free
      have nextAgree := agree.alloc_mark Nat.zero_lt_one first
      have nextFirst : FirstFree (state.mem.kernelVir.mark start 1 true).bitmap pages
          (start + 1) 1 := by
        rw [Nat.add_comm count 1] at nextFree
        exact nextFree.shorter
      have nextCalled := @KernelAgree.alloc_eq _ _ _ (start + 1) 1 nextAgree (by decide)
        (by decide) nextFirst
      obtain ⟨calls, final, pageCount, ran, positive, isVaddr, given⟩ :=
        ih nextAgree nextFree notFailed nextFirst nextCalled
      refine ⟨.alloc 1 :: calls, final, pageCount, ?_, positive, ?_, notFailed _⟩
      · rw [runAll, called]
        exact ran
      · rw [isVaddr, Nat.add_right_comm, Nat.add_assoc start count 1]
        rfl

theorem uvmGuard_iff :
    UvmGuard allMem ↔ kernelAllMemory allMem % mb4 < memPageSize := by
  simp only [UvmGuard, kernelAllMemory, mb4, memPageSize]
  omega

theorem pool_below (large : 2 ^ 25 ≤ allMem) (guard : UvmGuard allMem) {idx : Nat}
    (inside : idx < (kernelPool allMem).pages) :
    pdeIndex ((kernelPool allMem).addr idx) < pdeIndex (kernelAllMemory allMem) := by
  rw [uvmGuard_iff] at guard
  have lower : 2 ^ 23 ≤ kernelAllMemory allMem := by
    simp only [kernelAllMemory]
    omega
  simp only [AddrAlloc.pages, kernelPool, initAddrAlloc, Bitmap.init, down2, memPageSize] at inside
  simp only [AddrAlloc.addr, kernelPool, initAddrAlloc, memPageSize, pdeIndex]
  simp only [mb4, memPageSize, memExtStart] at *
  omega

theorem boundary_page (large : 2 ^ 25 ≤ allMem) (noGuard : ¬ UvmGuard allMem) :
    768 < pdeIndex (kernelAllMemory allMem) * 1024 ∧
      pdeIndex (kernelAllMemory allMem) * 1024 < 768 + kernelPages allMem := by
  rw [uvmGuard_iff] at noGuard
  have lower : 2 ^ 23 ≤ kernelAllMemory allMem := by
    simp only [kernelAllMemory]
    omega
  simp only [pdeIndex, kernelPages, memExtStart, memPageSize, mb4] at *
  omega

theorem KernelMapped.mapped {entry : Nat} {other : Words} (mapped : KernelMapped dir pages words)
    (same : other dir = words dir) (positive : 1 ≤ entry) (inside : entry * 1024 < 768 + pages) :
    mmuWalk other dir (entry * mb4) ≠ none := by
  obtain ⟨isPresent, isBig, -⟩ := mapped.big entry positive inside
  have isEntry : pdeIndex (entry * mb4) = entry := by
    simp only [pdeIndex, mb4]
    omega
  have big : pageSizeBit (words dir entry) = true := decide_eq_true isBig
  simp [mmuWalk, isEntry, same, isPresent, big]

theorem initPaging_shares (placed : image.Placed) (large : 2 ^ 25 ≤ allMem) :
    ∃ mem, initPaging image allMem words = some mem ∧
      mem.kernelVir = (kernelPool allMem).firstTaken ∧
      KernelAgree image.pageDir (kernelPages allMem) ⟨mem, [⟨memExtStart, 1⟩]⟩ ∧
      ∀ {calls state dir after},
        runAll (kernelCall image.pageDir) ⟨mem, [⟨memExtStart, 1⟩]⟩ calls = some state →
        createUvm state.mem image.pageDir = some (dir, after) →
          SharesPdes state.mem after image.pageDir dir ∧
            state.mem.userPhy.start = kernelAllMemory allMem := by
  have kernelLarge : memExtStart + memPageSize ≤ kernelAllMemory allMem := by
    simp only [kernelAllMemory, memExtStart, memPageSize]
    omega
  obtain ⟨mem, returns, vir, agree⟩ := @initPaging_agree image allMem words placed kernelLarge
  obtain ⟨same, sameReturns, -, -, user, -⟩ := @initPaging_spec image allMem words placed kernelLarge
  cases returns.symm.trans sameReturns
  refine ⟨mem, returns, vir, agree, ?_⟩
  intro calls state dir after ran created
  have places := run_places calls ran
  refine ⟨createUvm_shares (places.kernelVir.paged agree.paged) ?_ created,
    places.user.trans user⟩
  rw [places.kernelVir.start]
  exact Nat.lt_of_lt_of_eq placed.dirBelow agree.start.symm

theorem uvmGuard_of_right (placed : image.Placed) (large : 2 ^ 25 ≤ allMem)
    (allRight : ∃ mem, initPaging image allMem words = some mem ∧
      UvmRight image.pageDir (kernelAllMemory allMem) ⟨mem, [⟨memExtStart, 1⟩]⟩) :
    UvmGuard allMem := by
  obtain ⟨mem, returns, vir, agree, shares⟩ := @initPaging_shares image allMem words placed large
  obtain ⟨other, otherReturns, right⟩ := allRight
  cases returns.symm.trans otherReturns
  by_contra noGuard
  obtain ⟨behindTable, isKernel⟩ := boundary_page large noGuard
  -- a directory is created at once
  have first := initPaging_free vir (show 1 + 1 ≤ kernelPages allMem by omega)
  have called := @KernelAgree.alloc_eq _ _ _ 1 1 agree (by decide) (by decide) first
  have given : (allocKernelMem mem 1).1 ≠ failed := by
    have result : (allocKernelMem mem 1).1 = mem.kernelVir.addr 1 :=
      Int.ofNat_inj.mp (congrArg Prod.fst (Option.some.inj called))
    rw [result]
    exact aligned_ne_failed (agree.paged.addr_aligned 1)
  obtain ⟨dir, after, created⟩ : ∃ dir after, createUvm mem image.pageDir = some (dir, after) := by
    simp only [createUvm, if_neg given]
    exact ⟨_, _, rfl⟩
  obtain ⟨isShared, sameUser⟩ := @shares [] _ _ _ rfl created
  -- and the page is returned after all pages in front of it
  obtain ⟨count, isCount⟩ : ∃ count, count + 769 = pdeIndex (kernelAllMemory allMem) * 1024 :=
    ⟨_, Nat.sub_add_cancel behindTable⟩
  have later := agree.canReturn (initPaging_free vir (show 1 + (count + 1) ≤ _ by omega))
  have isAddr : mem.kernelVir.addr (1 + count) = pdeIndex (kernelAllMemory allMem) * mb4 := by
    have start : mem.kernelVir.start = memExtStart := agree.start
    simp only [AddrAlloc.addr, start, memExtStart, memPageSize, mb4]
    omega
  change CanReturn _ _ (mem.kernelVir.addr (1 + count)) at later
  rw [isAddr] at later
  have isEntry : pdeIndex (pdeIndex (kernelAllMemory allMem) * mb4) =
      pdeIndex (kernelAllMemory allMem) := by
    simp only [pdeIndex, mb4]
    omega
  have samePage := (right [] _ rfl dir after created).1 _ later
  rw [isShared.nothing (Nat.le_of_eq ((congrArg pdeIndex sameUser).trans isEntry.symm))]
    at samePage
  exact agree.mapped.mapped isShared.kernelWords (by omega) isKernel samePage.symm

/-- For every size of memory from 32 megabytes on, every process sees all pages of the kernel
exactly under the guard. -/
theorem createUvm_right (placed : image.Placed) (large : 2 ^ 25 ≤ allMem) (words : Words) :
    (∃ mem, initPaging image allMem words = some mem ∧
      UvmRight image.pageDir (kernelAllMemory allMem) ⟨mem, [⟨memExtStart, 1⟩]⟩) ↔
      UvmGuard allMem := by
  refine ⟨uvmGuard_of_right placed large, ?_⟩
  intro guard
  obtain ⟨mem, returns, vir, agree, shares⟩ := @initPaging_shares image allMem words placed large
  refine ⟨mem, returns, ?_⟩
  intro calls state ran dir after created
  obtain ⟨isShared, sameUser⟩ := shares ran created
  constructor
  · rintro vaddr ⟨otherCalls, final, pageCount, otherRan, positive, isVaddr, given⟩
    have places := run_places otherCalls otherRan
    obtain ⟨idx, inside, isIdx⟩ := allocKernelMem_addr (places.kernelVir.paged agree.paged)
      positive (isVaddr.symm ▸ given)
    apply isShared.same
    have poolShape : SameShape (kernelPool allMem) final.mem.kernelVir :=
      (vir ▸ firstTaken_shape).trans places.kernelVir
    rw [poolShape.pages] at inside
    rw [sameUser, ← isVaddr, isIdx, poolShape.addr]
    exact pool_below large guard inside
  · intro vaddr behind
    apply isShared.nothing
    rw [sameUser]
    exact Nat.div_le_div_right behind

theorem createUvm_right_32 :
    KernelImage.Placed ⟨0, 0x10000, 0x20000, 0x20000, 0x24000⟩ ∧ 2 ^ 25 ≤ 2 ^ 25 ∧
      ∃ mem, initPaging ⟨0, 0x10000, 0x20000, 0x20000, 0x24000⟩ (2 ^ 25) (fun _ _ => 0) =
          some mem ∧
        UvmRight 0x24000 (kernelAllMemory (2 ^ 25)) ⟨mem, [⟨memExtStart, 1⟩]⟩ := by
  refine ⟨samplePlaced, Nat.le_refl _, ?_⟩
  exact (createUvm_right samplePlaced (Nat.le_refl _) _).mpr (.inr (by decide))

/-- With forty megabytes the kernel has ten, and the last two are not seen. -/
theorem last_megabytes_unseen :
    KernelImage.Placed ⟨0, 0x10000, 0x20000, 0x20000, 0x24000⟩ ∧
      ¬ ∃ mem, initPaging ⟨0, 0x10000, 0x20000, 0x20000, 0x24000⟩ (40 * 2 ^ 20) (fun _ _ => 0) =
          some mem ∧
        UvmRight 0x24000 (kernelAllMemory (40 * 2 ^ 20)) ⟨mem, [⟨memExtStart, 1⟩]⟩ := by
  refine ⟨samplePlaced, ?_⟩
  intro allRight
  rcases uvmGuard_of_right samplePlaced (by decide) allRight with large | aligned
  · revert large
    decide
  · revert aligned
    decide

end Boundary

end CleanOS.Memory
