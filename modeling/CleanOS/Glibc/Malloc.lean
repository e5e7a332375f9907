import CleanOS.Lib.Calls
import Mathlib.Data.List.Nodup
import Mathlib.Logic.Function.Basic
import Mathlib.Tactic.Positivity
import Mathlib.Tactic.Ring

/-!
# The heap

`glibc/memory/malloc/malloc.c`, after `init_malloc`.  The allocator of pages is a function
pointer of the state; its answer to a request is given with each call, and `none` stands for
no pages, in which case the null pointer is written through.  Sizes and addresses are
unsigned words of 32 bits.
-/

namespace CleanOS.Glibc

open CleanOS.Lib

abbrev memPageSize : Nat := 4096

/-- `MEM_BLOCK_CNT`. -/
abbrev memBlockCnt : Nat := 8

/-- `sizeof(mem_arena)`. -/
abbrev memArenaSize : Nat := 12

/-- `down2`. -/
def down2 (origin bound : Nat) : Nat :=
  origin - origin % bound

/-- `up2`. -/
def up2 (origin bound : Nat) : Nat :=
  if origin % bound = 0 then origin else (down2 origin bound + bound) % 2 ^ 32

/-- `mem_block_desc`, with the addresses of its free blocks in their order. -/
structure MemBlockDesc where
  blockSize : Nat
  freeBlocks : List Nat
  blocksPerArena : Nat

/-- `mem_arena`, with the index of its descriptor. -/
structure MemArena where
  desc : Option Nat
  freeCnt : Nat
  large : Bool

/-- `malloc_state`, and the arena headers in memory. -/
structure MallocState where
  descs : Nat → MemBlockDesc
  arenas : Nat → MemArena

/-- The loop of `init_malloc_desc`. -/
def initMallocDescLoop : Nat → Nat → Nat → (Nat → MemBlockDesc) → Nat → MemBlockDesc
  | 0, _, _, descs => descs
  | fuel + 1, i, blockSize, descs =>
      initMallocDescLoop fuel (i + 1) (blockSize * 2 % 2 ^ 32)
        (Function.update descs i ⟨blockSize, [], (memPageSize - memArenaSize) / blockSize⟩)

/-- `init_malloc_desc`. -/
def initMallocDesc (descs : Nat → MemBlockDesc) : Nat → MemBlockDesc :=
  initMallocDescLoop memBlockCnt 0 (1 <<< 3) descs

/-- `arena2block`. -/
def arena2block (arena blockSize blockIdx : Nat) : Nat :=
  (arena + memArenaSize + blockIdx * blockSize) % 2 ^ 32

/-- `block2arena`. -/
def block2arena (block : Nat) : Nat :=
  block / 2 ^ 12 * 2 ^ 12

namespace MallocState

def isLarge (state : MallocState) (size : Nat) : Prop :=
  (state.descs (memBlockCnt - 1)).blockSize < size

instance (state : MallocState) (size : Nat) : Decidable (state.isLarge size) :=
  inferInstanceAs (Decidable (_ < _))

/-- The loop of `_malloc` that chooses a class of blocks. -/
def sizeClass (state : MallocState) (size : Nat) : Nat → Nat → Nat
  | 0, idx => idx
  | fuel + 1, idx =>
      if size ≤ (state.descs idx).blockSize then idx else state.sizeClass size fuel (idx + 1)

def largeBytes (size : Nat) : Nat :=
  up2 ((size + memArenaSize) % 2 ^ 32) memPageSize

/-- The bytes that `_malloc` asks the allocator for. -/
def request (state : MallocState) (size : Nat) : Option Nat :=
  if state.isLarge size then some (largeBytes size)
  else if (state.descs (state.sizeClass size memBlockCnt 0)).freeBlocks = [] then
    some memPageSize
  else none

/-- The pages of a large block.  `a->desc == NULL` is a comparison, and the field is cleared
with the pages. -/
def mallocLarge (state : MallocState) (size a : Nat) : MallocState × Nat :=
  let bytes := largeBytes size
  let desc := if bytes = 0 then (state.arenas a).desc else none
  ({ state with arenas := Function.update state.arenas a ⟨desc, bytes / memPageSize, true⟩ },
    (a + memArenaSize) % 2 ^ 32)

def newArena (state : MallocState) (idx arena : Nat) : MallocState :=
  let desc := state.descs idx
  { descs := Function.update state.descs idx
      { desc with
        freeBlocks := desc.freeBlocks ++
          (List.range desc.blocksPerArena).map (arena2block arena desc.blockSize) }
    arenas := Function.update state.arenas arena ⟨some idx, desc.blocksPerArena, false⟩ }

def takeBlock (state : MallocState) (idx : Nat) : Option (MallocState × Nat) :=
  let desc := state.descs idx
  match desc.freeBlocks with
  | [] => none
  | b :: freeBlocks =>
      let arena := state.arenas (block2arena b)
      some ({ descs := Function.update state.descs idx { desc with freeBlocks := freeBlocks }
              arenas := Function.update state.arenas (block2arena b)
                { arena with freeCnt := (arena.freeCnt + 2 ^ 32 - 1) % 2 ^ 32 } }, b)

/-- `_malloc`, with the answer of the allocator. -/
def malloc (state : MallocState) (size : Nat) (answer : Option Nat) :
    Option (MallocState × Nat) :=
  if state.isLarge size then answer.map (state.mallocLarge size)
  else
    let idx := state.sizeClass size memBlockCnt 0
    if (state.descs idx).freeBlocks = [] then
      answer.bind fun arena => (state.newArena idx arena).takeBlock idx
    else state.takeBlock idx

def removeBlocks (desc : MemBlockDesc) (arena count : Nat) : List Nat :=
  (List.range count).foldl
    (fun freeBlocks i => freeBlocks.erase (arena2block arena desc.blockSize i)) desc.freeBlocks

/-- `_free`, with the pages that go back to the allocator. -/
def free (state : MallocState) (ptr : Nat) : Option (MallocState × Option (Nat × Nat)) :=
  if ptr = 0 then some (state, none)
  else
    let address := block2arena ptr
    let arena := state.arenas address
    if arena.large then some (state, some (address, arena.freeCnt * memPageSize % 2 ^ 32))
    else
      match arena.desc with
      | none => none
      | some idx =>
          let desc := state.descs idx
          let desc := { desc with freeBlocks := desc.freeBlocks ++ [ptr] }
          let arena := { arena with freeCnt := (arena.freeCnt + 1) % 2 ^ 32 }
          let arenas := Function.update state.arenas address arena
          if desc.blocksPerArena * 2 ≤ desc.freeBlocks.length ∧
              arena.freeCnt = desc.blocksPerArena then
            let desc := { desc with freeBlocks := removeBlocks desc address arena.freeCnt }
            some (⟨Function.update state.descs idx desc, arenas⟩, some (address, memPageSize))
          else some (⟨Function.update state.descs idx desc, arenas⟩, none)

end MallocState

/-- Bytes of the memory. -/
structure Span where
  start : Nat
  bytes : Nat
  deriving DecidableEq

def Span.Apart (first second : Span) : Prop :=
  first.start + first.bytes ≤ second.start ∨ second.start + second.bytes ≤ first.start

instance : Std.Symm Span.Apart :=
  ⟨fun _ _ => Or.symm⟩

/-- The state, the pages that the allocator handed out and did not get back, and the blocks
that were returned and are not freed, with the sizes they were asked for. -/
structure Heap where
  state : MallocState
  pages : List Span
  live : List Span

/-- A call of the heap. -/
inductive HeapCall where
  | malloc (size : UInt32) (answer : Option Nat)
  | free (ptr : Nat)

namespace Heap

/-- The heap after `init_malloc`. -/
def start (descs : Nat → MemBlockDesc) (arenas : Nat → MemArena) : Heap :=
  ⟨⟨initMallocDesc descs, arenas⟩, [], []⟩

def grant (heap : Heap) : Option Nat → Option Nat → List Span
  | some bytes, some start => ⟨start, bytes⟩ :: heap.pages
  | _, _ => heap.pages

theorem grant_none (heap : Heap) (answer : Option Nat) : heap.grant none answer = heap.pages := by
  cases answer <;> rfl

def giveBack (heap : Heap) : Option (Nat × Nat) → List Span
  | some (start, bytes) => heap.pages.erase ⟨start, bytes⟩
  | none => heap.pages

end Heap

def heapCall (heap : Heap) : HeapCall → Option (Nat × Heap)
  | .malloc size answer =>
      (heap.state.malloc size.toNat answer).map fun (state, ptr) =>
        (ptr,
          { state := state
            pages := heap.grant (heap.state.request size.toNat) answer
            live := if ptr = 0 then heap.live else ⟨ptr, size.toNat⟩ :: heap.live })
  | .free ptr =>
      (heap.state.free ptr).map fun (state, back) =>
        (0,
          { state := state
            pages := heap.giveBack back
            live := heap.live.filter (·.start ≠ ptr) })

/-- The allocator answers with whole pages that are not in use, and only blocks that are in
use are freed. -/
def HeapScope (heap : Heap) : HeapCall → Prop
  | .malloc size answer => ∀ bytes start, heap.state.request size.toNat = some bytes →
      answer = some start → start % memPageSize = 0 ∧ 0 < start ∧ start + bytes ≤ 2 ^ 32 ∧
        ∀ page ∈ heap.pages, Span.Apart ⟨start, bytes⟩ page
  | .free ptr => ptr = 0 ∨ ∃ block ∈ heap.live, block.start = ptr

/-- The bytes behind a pointer lie in pages of the allocator, behind their header, and in no
block that is in use. -/
structure Usable (heap after : Heap) (ptr size : Nat) : Prop where
  inPages : ∃ page ∈ after.pages,
    page.start + memArenaSize ≤ ptr ∧ ptr + size ≤ page.start + page.bytes
  apart : ∀ block ∈ heap.live, Span.Apart ⟨ptr, size⟩ block

/-- The sizes that `_malloc` computes are those of the numbers, and the pointer it returns is
null or has the bytes behind it. -/
structure MallocRight (heap : Heap) (size result : Nat) (after : Heap) : Prop where
  large : heap.state.isLarge size →
    MallocState.largeBytes size = (size + memArenaSize + (memPageSize - 1)) / memPageSize *
        memPageSize ∧
      memArenaSize + size ≤ MallocState.largeBytes size
  small : ¬ heap.state.isLarge size → ∃ idx < memBlockCnt,
    heap.state.sizeClass size memBlockCnt 0 = idx ∧ size ≤ (heap.state.descs idx).blockSize
  arena : ∀ idx < memBlockCnt, (heap.state.descs idx).blocksPerArena *
    (heap.state.descs idx).blockSize + memArenaSize ≤ memPageSize
  usable : result = 0 ∨ Usable heap after result size

def HeapRight (heap : Heap) : HeapCall → Nat → Heap → Prop
  | .malloc size _ => fun result after => MallocRight heap size.toNat result after
  | .free _ => fun _ _ => True

/-- The size with its header can be rounded up to pages, and a request is granted. -/
def HeapGuard (heap : Heap) : HeapCall → Prop
  | .malloc size answer => size.toNat ≤ 2 ^ 32 - memPageSize - memArenaSize ∧
      (heap.state.request size.toNat ≠ none → answer ≠ none)
  | .free _ => True

theorem up2_le {size : Nat} (fits : size ≤ 2 ^ 32 - memPageSize) :
    up2 size memPageSize = (size + (memPageSize - 1)) / memPageSize * memPageSize := by
  simp only [up2, down2, memPageSize] at fits ⊢
  split <;> omega

theorem largeBytes_eq {size : Nat} (fits : size ≤ 2 ^ 32 - memPageSize - memArenaSize) :
    MallocState.largeBytes size =
      (size + memArenaSize + (memPageSize - 1)) / memPageSize * memPageSize := by
  have word : size + memArenaSize < 2 ^ 32 := by
    simp only [memPageSize, memArenaSize] at fits ⊢
    omega
  rw [MallocState.largeBytes, Nat.mod_eq_of_lt word]
  apply up2_le
  simp only [memPageSize, memArenaSize] at fits ⊢
  omega

theorem largeBytes_lt {size : Nat} (word : size < 2 ^ 32)
    (tooLarge : 2 ^ 32 - memPageSize - memArenaSize < size) :
    MallocState.largeBytes size < memArenaSize + size := by
  simp only [MallocState.largeBytes, up2, down2, memPageSize, memArenaSize] at tooLarge ⊢
  split <;> omega

def classSize (idx : Nat) : Nat :=
  8 * 2 ^ idx

def classBlocks (idx : Nat) : Nat :=
  (memPageSize - memArenaSize) / classSize idx

theorem classSize_pos (idx : Nat) : 0 < classSize idx := by
  unfold classSize
  positivity

theorem classBlocks_fit (idx : Nat) :
    classBlocks idx * classSize idx + memArenaSize ≤ memPageSize := by
  have fits := Nat.div_mul_le_self (memPageSize - memArenaSize) (classSize idx)
  simp only [classBlocks, memPageSize, memArenaSize] at fits ⊢
  omega

/-- The classes are those that `init_malloc_desc` sets. -/
def MallocState.Classes (state : MallocState) : Prop :=
  ∀ idx < memBlockCnt, (state.descs idx).blockSize = classSize idx ∧
    (state.descs idx).blocksPerArena = classBlocks idx

theorem initMallocDescLoop_spec {fuel i blockSize idx : Nat} {descs : Nat → MemBlockDesc}
    (fits : blockSize * 2 ^ fuel < 2 ^ 32) :
    initMallocDescLoop fuel i blockSize descs idx =
      if i ≤ idx ∧ idx < i + fuel then
        ⟨blockSize * 2 ^ (idx - i), [],
          (memPageSize - memArenaSize) / (blockSize * 2 ^ (idx - i))⟩
      else descs idx := by
  induction fuel generalizing i blockSize descs with
  | zero =>
      rw [if_neg (by omega)]
      rfl
  | succ fuel ih =>
      have double : blockSize * 2 ^ (fuel + 1) = blockSize * 2 * 2 ^ fuel := by ring
      have least : blockSize * 2 ≤ blockSize * 2 * 2 ^ fuel :=
        Nat.le_mul_of_pos_right _ (by positivity)
      have noWrap : blockSize * 2 % 2 ^ 32 = blockSize * 2 := by
        apply Nat.mod_eq_of_lt
        omega
      rw [initMallocDescLoop, noWrap, ih (by omega)]
      by_cases first : idx = i
      · subst first
        rw [if_neg (by omega), if_pos (by omega), Function.update_self, Nat.sub_self]
        simp
      · rw [Function.update_of_ne first]
        by_cases inside : i ≤ idx ∧ idx < i + (fuel + 1)
        · have exponent : idx - i = idx - (i + 1) + 1 := by omega
          have power : blockSize * 2 ^ (idx - i) = blockSize * 2 * 2 ^ (idx - (i + 1)) := by
            rw [exponent]
            ring
          rw [if_pos (by omega), if_pos inside, power]
        · rw [if_neg (by omega), if_neg inside]

theorem initMallocDesc_spec {descs : Nat → MemBlockDesc} {idx : Nat}
    (inside : idx < memBlockCnt) :
    initMallocDesc descs idx = ⟨classSize idx, [], classBlocks idx⟩ := by
  rw [initMallocDesc, initMallocDescLoop_spec (by decide), if_pos (by omega)]
  rfl

theorem MallocState.sizeClass_spec {state : MallocState} {size fuel : Nat} (idx : Nat)
    (fits : size ≤ (state.descs (idx + fuel)).blockSize) :
    state.sizeClass size (fuel + 1) idx ≤ idx + fuel ∧
      size ≤ (state.descs (state.sizeClass size (fuel + 1) idx)).blockSize := by
  induction fuel generalizing idx with
  | zero =>
      have enough : size ≤ (state.descs idx).blockSize := fits
      rw [MallocState.sizeClass, if_pos enough]
      exact ⟨Nat.le_refl _, enough⟩
  | succ fuel ih =>
      rw [MallocState.sizeClass]
      split
      · rename_i enough
        exact ⟨by omega, enough⟩
      · have later := ih (idx + 1) (by
          rwa [show idx + 1 + fuel = idx + (fuel + 1) by omega])
        exact ⟨by omega, later.2⟩

theorem MallocState.sizeClass_small {state : MallocState} {size : Nat}
    (isSmall : ¬ state.isLarge size) :
    state.sizeClass size memBlockCnt 0 < memBlockCnt ∧
      size ≤ (state.descs (state.sizeClass size memBlockCnt 0)).blockSize := by
  have chosen := @MallocState.sizeClass_spec state size 7 0 (Nat.not_lt.mp isSmall)
  exact ⟨Nat.lt_succ_of_le (by simpa using chosen.1), chosen.2⟩

end CleanOS.Glibc
