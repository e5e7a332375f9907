import CleanOS.Lib.Calls
import CleanOS.Memory.InitPaging

/-!
# The page walk

`vaddr2paddr` of `kernel/memory/paging.c` beside the walk of the processor.  The processor
takes an entry of the directory with the bit for the page size as a page of four megabytes,
the walk of the source as one with a table; and where the processor adds the low twelve bits
of an address, the source adds the low ten.
-/

namespace CleanOS.Memory

open CleanOS.Lib

/-- The bit `ps` of an entry of the directory. -/
def pageSizeBit (pde : Nat) : Bool :=
  pde / 2 ^ 7 % 2 = 1

/-- The address that the processor finds, with `CR4.PSE` set, unless it raises a page fault. -/
def mmuWalk (words : Words) (cr3 vaddr : Nat) : Option Nat :=
  let pde := words cr3 (pdeIndex vaddr)
  if ¬ present pde then none
  else if pageSizeBit pde then some (pde / mb4 * mb4 + vaddr % mb4)
  else
    let pte := words (pePhyAddr pde) (pteIndex vaddr)
    if present pte then some (pePhyAddr pte + vaddr % memPageSize) else none

/-- The permissions that `map_mem` gives: `PTE_W`, and `PTE_U` outside of `kernel_page_dir`. -/
def mapPermit (kernelPageDir pageDir : Nat) : Nat :=
  if pageDir ≠ kernelPageDir then 6 else 2

/-- The loop of `map_mem`; `true` when every page is mapped. -/
def mapMemWithLoop (pageDir permit : Nat) (override : Bool) :
    MemState → Nat → Nat → Nat → Option (Bool × MemState)
  | mem, _, _, 0 => some (true, mem)
  | mem, vaddr, paddr, count + 1 =>
      if (vaddr2paddr mem.words pageDir vaddr).isSome ∧ ¬ override then some (false, mem)
      else do
        let (err, mem) ← createMemMap pageDir permit mem vaddr paddr 1
        if err ≠ 0 then some (false, mem)
        else
          mapMemWithLoop pageDir permit override mem ((vaddr + memPageSize) % 2 ^ 32)
            ((paddr + memPageSize) % 2 ^ 32) count

/-- `map_mem`, with the permissions for the directory. -/
def mapMemWith (permit : Nat) (mem : MemState) (pageDir vaddr paddr : Nat) (pageCount : Int)
    (override : Bool) : Option (Nat × MemState) := do
  let (mapped, mem) ← mapMemWithLoop pageDir permit override mem (down2 vaddr) (down2 paddr)
    pageCount.toNat
  some (if mapped then down2 vaddr else failed, mem)

/-- A call that changes a directory. -/
inductive DirCall where
  | createMemMap (vaddr paddr : Nat) (pageCount : Int) (perm : Nat)
  | createBigMemMap (vaddr size paddr perm : Nat)
  | mapMem (vaddr paddr : Nat) (pageCount : Int) (override : Bool)
  | unmapMem (vaddr : Nat) (pageCount : Int)

def dirCall (kernelPageDir pageDir : Nat) (mem : MemState) : DirCall → Option (Unit × MemState)
  | .createMemMap vaddr paddr pageCount perm =>
      (createMemMap pageDir perm mem vaddr paddr pageCount.toNat).map fun (_, mem) => ((), mem)
  | .createBigMemMap vaddr size paddr perm =>
      (createBigMemMap pageDir mem vaddr size paddr perm).map fun mem => ((), mem)
  | .mapMem vaddr paddr pageCount override =>
      (mapMemWith (mapPermit kernelPageDir pageDir) mem pageDir vaddr paddr pageCount
        override).map fun (_, mem) => ((), mem)
  | .unmapMem vaddr pageCount => some ((), unmapMem mem pageDir vaddr pageCount)

def InBigPage (words : Words) (pageDir vaddr : Nat) : Prop :=
  present (words pageDir (pdeIndex vaddr)) = true ∧
    pageSizeBit (words pageDir (pdeIndex vaddr)) = true

/-- The walk of the source finds what the processor finds, and neither `get_pte` nor
`find_pte_alloc` takes a page of four megabytes for a table. -/
structure WalkRight (mem : MemState) (pageDir vaddr : Nat) : Prop where
  agrees : vaddr2paddr mem.words pageDir vaddr = mmuWalk mem.words pageDir vaddr
  getPte : getPte mem.words pageDir vaddr ≠ none → ¬ InBigPage mem.words pageDir vaddr
  findPteAlloc : findPteAlloc mem pageDir vaddr ≠ none → ¬ InBigPage mem.words pageDir vaddr

/-- The address lies in no page of four megabytes and, where it is mapped, in the first
quarter of its page.  No table lies at address zero. -/
structure WalkGuard (words : Words) (pageDir vaddr : Nat) : Prop where
  small : ¬ InBigPage words pageDir vaddr
  quarter : mmuWalk words pageDir vaddr ≠ none → vaddr % memPageSize < 1024
  table : mmuWalk words pageDir vaddr ≠ none →
    pageDir ≠ 0 ∧ pePhyAddr (words pageDir (pdeIndex vaddr)) ≠ 0

section Walk

variable {mem : MemState} {words : Words} {dir vaddr kernelPageDir : Nat}

theorem offset_eq_iff : vaddr % 1024 = vaddr % memPageSize ↔ vaddr % memPageSize < 1024 := by
  simp only [memPageSize]
  omega

theorem mmuWalk_small (small : ¬ InBigPage words dir vaddr) :
    mmuWalk words dir vaddr = (translate words dir vaddr).map (· + vaddr % memPageSize) := by
  cases isPresent : present (words dir (pdeIndex vaddr)) with
  | false => simp [mmuWalk, translate, isPresent]
  | true =>
      have notBig : ¬ pageSizeBit (words dir (pdeIndex vaddr)) = true :=
        fun big => small ⟨isPresent, big⟩
      simp only [mmuWalk, translate, isPresent, not_true_eq_false, if_false, if_neg notBig]
      cases present (words (pePhyAddr (words dir (pdeIndex vaddr))) (pteIndex vaddr)) with
      | false => rfl
      | true => rfl

theorem vaddr2paddr_named
    (named : dir ≠ 0 ∧ pePhyAddr (words dir (pdeIndex vaddr)) ≠ 0) :
    vaddr2paddr words dir vaddr = (translate words dir vaddr).map (· + vaddr % 1024) := by
  cases isPresent : present (words dir (pdeIndex vaddr)) with
  | false => simp [vaddr2paddr, getPte, translate, named.1, isPresent]
  | true =>
      simp only [vaddr2paddr, getPte, translate, if_neg named.1, if_neg named.2, isPresent,
        not_true_eq_false, if_false]
      cases present (words (pePhyAddr (words dir (pdeIndex vaddr))) (pteIndex vaddr)) with
      | false => rfl
      | true => rfl

theorem vaddr2paddr_unnamed
    (unnamed : ¬ (dir ≠ 0 ∧ pePhyAddr (words dir (pdeIndex vaddr)) ≠ 0)) :
    vaddr2paddr words dir vaddr = none := by
  by_cases isDir : dir = 0
  · simp [vaddr2paddr, getPte, isDir]
  · have noTable : pePhyAddr (words dir (pdeIndex vaddr)) = 0 :=
      not_not.mp fun isTable => unnamed ⟨isDir, isTable⟩
    simp [vaddr2paddr, getPte, noTable]

theorem InBigPage.findPteAlloc_ne (big : InBigPage mem.words dir vaddr) :
    findPteAlloc mem dir vaddr ≠ none := by
  simp [findPteAlloc, big.1]

theorem walkRight_iff : WalkRight mem dir vaddr ↔ WalkGuard mem.words dir vaddr := by
  constructor
  · intro right
    have small : ¬ InBigPage mem.words dir vaddr := by
      intro big
      exact right.findPteAlloc big.findPteAlloc_ne big
    have table : mmuWalk mem.words dir vaddr ≠ none →
        dir ≠ 0 ∧ pePhyAddr (mem.words dir (pdeIndex vaddr)) ≠ 0 := by
      intro mapped
      by_contra unnamed
      exact mapped (right.agrees.symm.trans (vaddr2paddr_unnamed unnamed))
    refine ⟨small, ?_, table⟩
    intro mapped
    have agrees := right.agrees
    rw [vaddr2paddr_named (table mapped), mmuWalk_small small] at agrees
    rw [mmuWalk_small small] at mapped
    obtain ⟨frame, isFrame⟩ := Option.ne_none_iff_exists'.mp (Option.map_eq_none_iff.not.mp mapped)
    rw [isFrame, Option.map_some, Option.map_some, Option.some.injEq] at agrees
    exact offset_eq_iff.mp (Nat.add_left_cancel agrees)
  · intro guard
    refine ⟨?_, fun _ => guard.small, fun _ => guard.small⟩
    by_cases named : dir ≠ 0 ∧ pePhyAddr (mem.words dir (pdeIndex vaddr)) ≠ 0
    · rw [vaddr2paddr_named named, mmuWalk_small guard.small]
      cases isFrame : translate mem.words dir vaddr with
      | none => rfl
      | some frame =>
          have mapped : mmuWalk mem.words dir vaddr ≠ none := by
            simp [mmuWalk_small guard.small, isFrame]
          rw [offset_eq_iff.mpr (guard.quarter mapped)]
    · rw [vaddr2paddr_unnamed named]
      by_contra different
      exact named (guard.table (Ne.symm different))

/-- In every state that calls which change a directory reach, the walk of the source is right
for exactly the addresses that the guard says. -/
theorem pageWalk_right (kernelPageDir pageDir : Nat) (start : MemState) (calls : List DirCall) :
    AllGood (dirCall kernelPageDir pageDir)
      (fun mem => ∀ vaddr, WalkRight mem pageDir vaddr ↔ WalkGuard mem.words pageDir vaddr)
      start calls := by
  induction calls generalizing start with
  | nil => exact fun vaddr => walkRight_iff
  | cons call calls ih => exact ⟨fun vaddr => walkRight_iff, fun _ after _ => ih after⟩

end Walk

def sampleDirectory : MemState :=
  { kernelPhy := ⟨memExtStart, memPageSize, ⟨1, fun _ => 1⟩⟩
    kernelVir := ⟨memExtStart, memPageSize, ⟨1, fun _ => 1⟩⟩
    userPhy := ⟨0x800000, memPageSize, ⟨1, fun _ => 0⟩⟩
    words := fun _ _ => 0 }

/-- One page is mapped: in its second quarter the walk of the source finds the start of the
page. -/
theorem second_quarter_wrong :
    ∃ after, runAll (dirCall 0x24000 memExtStart) sampleDirectory
        [.createMemMap 0x40000000 0x800000 1 6] = some after ∧
      vaddr2paddr after.words memExtStart 0x40000400 = some 0x800000 ∧
      mmuWalk after.words memExtStart 0x40000400 = some 0x800400 ∧
      ¬ WalkRight after memExtStart 0x40000400 := by
  refine ⟨_, rfl, by decide, by decide, ?_⟩
  intro right
  have agrees := right.agrees
  revert agrees
  decide

end CleanOS.Memory
