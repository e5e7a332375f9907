import CleanOS.Net.Pktbuf
import Mathlib.Data.List.Perm.Basic
import Mathlib.Algebra.BigOperators.Group.List.Basic
import Mathlib.Tactic.Ring

/-!
# Contents of packets

The bytes of a packet, what it means for its block list to be well formed, and what
the operations that change the block list do to both.
-/

namespace CleanOS.Net

open scoped List

@[simp]
theorem length_slice {payload : Nat → UInt8} {start count : Nat} :
    (slice payload start count).length = count := by
  simp [slice]

@[simp]
theorem slice_zero {payload : Nat → UInt8} {start : Nat} : slice payload start 0 = [] :=
  rfl

theorem slice_add {payload : Nat → UInt8} {start first second : Nat} :
    slice payload start (first + second) =
      slice payload start first ++ slice payload (start + first) second := by
  simp [slice, List.range_add, Nat.add_assoc, Function.comp_def]

theorem slice_congr {before after : Nat → UInt8} {start start' count : Nat}
    (same : ∀ i < count, before (start + i) = after (start' + i)) :
    slice before start count = slice after start' count := by
  apply List.map_congr_left
  intro i inside
  exact same i (List.mem_range.mp inside)

theorem slice_getElem? {payload : Nat → UInt8} {start count i : Nat} (inside : i < count) :
    (slice payload start count)[i]? = some (payload (start + i)) := by
  simp [slice, inside]

namespace Pktblk

/-- The bytes between `data` and `data + size`. -/
def window (blk : Pktblk) : List UInt8 :=
  slice blk.payload blk.data.toNat blk.size.toNat

/-- The window of a block lies inside its payload. -/
structure InPayload (blk : Pktblk) : Prop where
  data : 0 ≤ blk.data
  size : 0 ≤ blk.size
  inside : blk.data + blk.size ≤ pktbufBlkSize

instance (blk : Pktblk) : Decidable blk.InPayload :=
  decidable_of_iff (0 ≤ blk.data ∧ 0 ≤ blk.size ∧ blk.data + blk.size ≤ pktbufBlkSize)
    ⟨fun ⟨data, size, inside⟩ => ⟨data, size, inside⟩,
      fun holds => ⟨holds.data, holds.size, holds.inside⟩⟩

@[simp]
theorem length_window {blk : Pktblk} : blk.window.length = blk.size.toNat := by
  simp [window]

theorem window_split {blk : Pktblk} (holds : blk.InPayload) {count : Int}
    (lower : 0 ≤ count) (upper : count ≤ blk.size) :
    blk.window = slice blk.payload blk.data.toNat count.toNat ++
      { blk with data := blk.data + count, size := blk.size - count }.window := by
  have sizes : blk.size.toNat = count.toNat + (blk.size - count).toNat := by omega
  have starts : (blk.data + count).toNat = blk.data.toNat + count.toNat := by
    have := holds.data
    omega
  simp only [window, starts]
  rw [sizes, slice_add]

theorem window_take {blk : Pktblk} {count : Int} (upper : count ≤ blk.size) :
    { blk with size := count }.window = blk.window.take count.toNat := by
  have sizes : blk.size.toNat = count.toNat + (blk.size.toNat - count.toNat) := by omega
  simp only [window]
  rw [sizes, slice_add, List.take_append_of_le_length (by simp), List.take_of_length_le]
  simp

theorem window_drop {blk : Pktblk} (holds : blk.InPayload) {count : Int}
    (lower : 0 ≤ count) (upper : count ≤ blk.size) :
    { blk with data := blk.data + count, size := blk.size - count }.window =
      blk.window.drop count.toNat := by
  rw [window_split holds lower upper, List.drop_append_of_le_length (by simp),
    List.drop_of_length_le (by simp), List.nil_append]

theorem store_inside {blk : Pktblk} {offset : Int} {bytes : List UInt8}
    (lower : 0 ≤ offset) (upper : offset + bytes.length ≤ pktbufBlkSize) :
    ∃ payload, blk.store offset bytes = some { blk with payload := payload } ∧
      (∀ i < offset.toNat, payload i = blk.payload i) ∧
      slice payload offset.toNat bytes.length = bytes ∧
      ∀ i, offset.toNat + bytes.length ≤ i → payload i = blk.payload i := by
  refine ⟨_, by rw [store, if_pos ⟨lower, upper⟩], ?_, ?_, ?_⟩
  · intro i below
    simp [below]
  · apply List.ext_getElem (by simp)
    intro i inside inside'
    simp [slice, inside']
  · intro i above
    have notBelow : ¬ i < offset.toNat := by omega
    have notInside : bytes.length ≤ i - offset.toNat := by omega
    simp [notBelow, notInside]

theorem store_window {blk : Pktblk} {offset : Int} {bytes : List UInt8} (holds : blk.InPayload)
    (lower : 0 ≤ offset) (upper : offset + bytes.length ≤ blk.size) :
    ∃ payload, blk.store (blk.data + offset) bytes = some { blk with payload := payload } ∧
      window { blk with payload := payload } =
        blk.window.take offset.toNat ++ (bytes ++ blk.window.drop (offset.toNat + bytes.length)) := by
  have data := holds.data
  have inside := holds.inside
  obtain ⟨payload, storeEq, before, stored, after⟩ :=
    @store_inside blk (blk.data + offset) bytes (by omega) (by omega)
  have sizes : blk.size.toNat =
      offset.toNat + (bytes.length + (blk.size - offset - bytes.length).toNat) := by omega
  have start : (blk.data + offset).toNat = blk.data.toNat + offset.toNat := by omega
  rw [start] at stored after before
  have old : blk.window = slice blk.payload blk.data.toNat offset.toNat ++
      (slice blk.payload (blk.data.toNat + offset.toNat) bytes.length ++
        slice blk.payload (blk.data.toNat + offset.toNat + bytes.length)
          (blk.size - offset - bytes.length).toNat) := by
    rw [window, sizes, slice_add, slice_add]
  refine ⟨payload, storeEq, ?_⟩
  rw [old, List.take_left' (by simp), ← List.drop_drop, List.drop_left' (by simp),
    List.drop_left' (by simp)]
  simp only [window, sizes, slice_add, stored]
  congr 1
  · apply slice_congr
    intro i below
    exact before _ (by omega)
  · congr 1
    apply slice_congr
    intro i _
    exact after _ (by omega)

theorem load_inside {blk : Pktblk} {offset count : Int} (lower : 0 ≤ offset)
    (nonneg : 0 ≤ count) (upper : offset + count ≤ pktbufBlkSize) :
    blk.load offset count = some (slice blk.payload offset.toNat count.toNat) := by
  rw [load, if_pos ⟨lower, nonneg, upper⟩]

end Pktblk

def blksContent (blks : List Pktblk) : List UInt8 :=
  blks.flatMap Pktblk.window

/-- The elements of `block_buffer` that make up a chain. -/
def blkIds (blks : List Pktblk) : List Nat :=
  blks.map Pktblk.id

def Windows (blks : List Pktblk) : Prop :=
  ∀ blk ∈ blks, blk.InPayload

section Chains

variable {blk : Pktblk} {blks others : List Pktblk}

@[simp]
theorem blksSize_nil : blksSize [] = 0 :=
  rfl

@[simp]
theorem blksSize_cons : blksSize (blk :: blks) = blk.size + blksSize blks := by
  simp [blksSize]

@[simp]
theorem blksSize_append : blksSize (blks ++ others) = blksSize blks + blksSize others := by
  simp [blksSize]

@[simp]
theorem blksContent_nil : blksContent [] = [] :=
  rfl

@[simp]
theorem blksContent_cons :
    blksContent (blk :: blks) = blk.window ++ blksContent blks :=
  rfl

@[simp]
theorem blksContent_append :
    blksContent (blks ++ others) = blksContent blks ++ blksContent others := by
  simp [blksContent]

@[simp]
theorem blkIds_nil : blkIds [] = [] :=
  rfl

@[simp]
theorem blkIds_cons : blkIds (blk :: blks) = blk.id :: blkIds blks :=
  rfl

@[simp]
theorem blkIds_append : blkIds (blks ++ others) = blkIds blks ++ blkIds others := by
  simp [blkIds]

@[simp]
theorem windows_nil : Windows [] := by
  simp [Windows]

@[simp]
theorem windows_cons : Windows (blk :: blks) ↔ blk.InPayload ∧ Windows blks := by
  simp [Windows]

@[simp]
theorem windows_append : Windows (blks ++ others) ↔ Windows blks ∧ Windows others := by
  simp [Windows, or_imp, forall_and]

theorem Windows.size_nonneg (holds : Windows blks) : 0 ≤ blksSize blks := by
  induction blks with
  | nil => simp
  | cons blk rest ih =>
      rw [windows_cons] at holds
      have := holds.1.size
      have := ih holds.2
      simp only [blksSize_cons]
      omega

theorem Windows.size_le (holds : Windows blks) : blksSize blks ≤ pktbufBlkSize * blks.length := by
  induction blks with
  | nil => simp
  | cons blk rest ih =>
      rw [windows_cons] at holds
      have restSize := ih holds.2
      have data := holds.1.data
      have inside := holds.1.inside
      simp only [blksSize_cons, List.length_cons, pktbufBlkSize] at restSize inside ⊢
      push_cast
      omega

theorem Windows.length_content (holds : Windows blks) :
    (blksContent blks).length = (blksSize blks).toNat := by
  induction blks with
  | nil => simp
  | cons blk rest ih =>
      rw [windows_cons] at holds
      have := holds.1.size
      have := holds.2.size_nonneg
      simp only [blksContent_cons, List.length_append, Pktblk.length_window, ih holds.2,
        blksSize_cons]
      omega

end Chains

/-- The total size of a packet is that of its blocks, whose windows lie inside their
payloads. -/
structure Pktbuf.WellFormed (buf : Pktbuf) : Prop where
  total : buf.totalSize = blksSize buf.blkList
  windows : Windows buf.blkList

def Pktbuf.content (buf : Pktbuf) : List UInt8 :=
  blksContent buf.blkList

theorem Pktbuf.WellFormed.length_content {buf : Pktbuf} (holds : buf.WellFormed) :
    (buf.content.length : Int) = buf.totalSize := by
  have nonneg := holds.windows.size_nonneg
  rw [Pktbuf.content, holds.windows.length_content, holds.total]
  omega

section Allocation

variable {size : Int} {addFront : Bool} {chain free left : List Pktblk}

structure Allocated (size : Int) (free chain left : List Pktblk) : Prop where
  total : blksSize chain = size
  windows : Windows chain
  ids : (blkIds chain ++ blkIds left).Perm (blkIds free)
  nonempty : size ≠ 0 → chain ≠ []
  length : (chain.length : Int) = (size + 63) / 64

def extendChain (addFront : Bool) (added chain : List Pktblk) : List Pktblk :=
  if addFront then added ++ chain else chain ++ added

theorem allocLoop_fits (nonneg : 0 ≤ size) (room : size ≤ pktbufBlkSize * free.length) :
    ∃ added left, pktblockAllocLoop addFront size chain free =
      (extendChain addFront added chain, left) ∧ Allocated size free added left := by
  induction free generalizing size chain with
  | nil =>
      have zero : size = 0 := by
        simp at room
        omega
      refine ⟨[], [], ?_, ⟨by simp [zero], by simp, by simp, by simp [zero], by simp [zero]⟩⟩
      simp [pktblockAllocLoop, zero, extendChain]
  | cons block free ih =>
      by_cases zero : size = 0
      · refine ⟨[], block :: free, ?_,
          ⟨by simp [zero], by simp, by simp, by simp [zero], by simp [zero]⟩⟩
        simp [pktblockAllocLoop, zero, extendChain]
      · -- The new block takes all that is left, or is filled.
        obtain ⟨currSize, currSizeEq⟩ :
            ∃ currSize, (if size > pktbufBlkSize then pktbufBlkSize else size) = currSize :=
          ⟨_, rfl⟩
        have bounds : 0 ≤ currSize ∧ currSize ≤ 64 ∧ 0 ≤ size - currSize ∧
            size - currSize ≤ pktbufBlkSize * free.length ∧
            (size + 63) / 64 = (size - currSize + 63) / 64 + 1 := by
          simp only [pktbufBlkSize, List.length_cons] at currSizeEq room ⊢
          push_cast at room
          by_cases large : size > 64
          · rw [if_pos large] at currSizeEq
            omega
          · rw [if_neg large] at currSizeEq
            omega
        obtain ⟨lower, upper, nonneg', room', blocks⟩ := bounds
        cases addFront with
        | true =>
            obtain ⟨added, left, loopEq, allocated⟩ := @ih (size - currSize)
              ({ block with size := currSize, data := pktbufBlkSize - currSize } :: chain)
              nonneg' room'
            refine ⟨added ++ [{ block with
              size := currSize, data := pktbufBlkSize - currSize }], left, ?_, ?_⟩
            · simp only [pktblockAllocLoop, if_neg zero, currSizeEq, if_true, loopEq]
              simp [extendChain]
            · refine ⟨?_, ?_, ?_, by simp, ?_⟩
              · simp [allocated.total]
              · rw [windows_append, windows_cons]
                refine ⟨allocated.windows, ⟨?_, lower, ?_⟩, windows_nil⟩ <;>
                  simp only [pktbufBlkSize] <;> omega
              · have ids := allocated.ids
                simp only [blkIds_append, blkIds_cons, blkIds_nil, List.append_assoc,
                  List.singleton_append]
                exact List.perm_middle.trans (ids.cons _)
              · rw [List.length_append, List.length_singleton, blocks, ← allocated.length]
                omega
        | false =>
            obtain ⟨added, left, loopEq, allocated⟩ := @ih (size - currSize)
              (chain ++ [{ block with size := currSize, data := 0 }]) nonneg' room'
            refine ⟨{ block with size := currSize, data := 0 } :: added, left, ?_, ?_⟩
            · simp only [pktblockAllocLoop, if_neg zero, currSizeEq, Bool.false_eq_true,
                if_false, loopEq]
              simp [extendChain]
            · refine ⟨?_, ?_, ?_, by simp, ?_⟩
              · simp [allocated.total]
              · rw [windows_cons]
                exact ⟨⟨Int.le_refl 0, lower, by simp only [pktbufBlkSize]; omega⟩,
                  allocated.windows⟩
              · exact allocated.ids.cons _
              · rw [List.length_cons, blocks, ← allocated.length]
                omega

theorem allocLoop_exhausted (short : pktbufBlkSize * free.length < size) :
    ∃ left, pktblockAllocLoop addFront size chain free = ([], left) ∧
      (blkIds left).Perm (blkIds chain ++ blkIds free) := by
  induction free generalizing size chain with
  | nil =>
      have nonzero : size ≠ 0 := by
        simp at short
        omega
      exact ⟨chain, by simp [pktblockAllocLoop, nonzero], by simp⟩
  | cons block free ih =>
      have filled : size ≠ 0 ∧ size > pktbufBlkSize ∧
          pktbufBlkSize * free.length < size - pktbufBlkSize := by
        simp only [pktbufBlkSize, List.length_cons] at short ⊢
        push_cast at short
        omega
      obtain ⟨nonzero, large, short'⟩ := filled
      cases addFront with
      | true =>
          obtain ⟨left, loopEq, ids⟩ := @ih (size - pktbufBlkSize)
            ({ block with size := pktbufBlkSize, data := pktbufBlkSize - pktbufBlkSize }
              :: chain) short'
          refine ⟨left, ?_, ?_⟩
          · simp only [pktblockAllocLoop, if_neg nonzero, if_pos large, if_true, loopEq]
          · exact ids.trans (by simpa using List.perm_middle.symm)
      | false =>
          obtain ⟨left, loopEq, ids⟩ := @ih (size - pktbufBlkSize)
            (chain ++ [{ block with size := pktbufBlkSize, data := 0 }]) short'
          refine ⟨left, ?_, ?_⟩
          · simp only [pktblockAllocLoop, if_neg nonzero, if_pos large,
              Bool.false_eq_true, if_false, loopEq]
          · simpa using ids

theorem pktblockAllocList_cases (nonneg : 0 ≤ size) :
    (∃ chain left, pktblockAllocList size addFront free = (chain, left) ∧
      size ≤ pktbufBlkSize * free.length ∧ Allocated size free chain left) ∨
    (∃ left, pktblockAllocList size addFront free = ([], left) ∧
      pktbufBlkSize * free.length < size ∧ (blkIds left).Perm (blkIds free)) := by
  by_cases room : size ≤ pktbufBlkSize * free.length
  · obtain ⟨chain, left, loopEq, allocated⟩ :=
      @allocLoop_fits size addFront [] free nonneg room
    refine .inl ⟨chain, left, ?_, room, allocated⟩
    cases addFront <;> simpa [pktblockAllocList, extendChain] using loopEq
  · obtain ⟨left, loopEq, ids⟩ :=
      @allocLoop_exhausted size addFront [] free (Int.not_le.mp room)
    exact .inr ⟨left, loopEq, Int.not_le.mp room, by simpa using ids⟩

end Allocation

/-- What the operations on the block list of a packet keep: the packet is well formed
and shares the same blocks with the free list. -/
structure Reshaped (buf : Pktbuf) (free : List Pktblk) (after : Pktbuf)
    (left : List Pktblk) : Prop where
  wellFormed : after.WellFormed
  ids : (blkIds left ++ blkIds after.blkList).Perm (blkIds free ++ blkIds buf.blkList)
  ref : after.ref = buf.ref

section Structure

variable {buf : Pktbuf} {block : Pktblk} {rest chain free left : List Pktblk} {size : Int}

theorem Reshaped.same (holds : buf.WellFormed)
    (ids : (blkIds left).Perm (blkIds free)) : Reshaped buf free buf left :=
  ⟨holds, ids.append_right _, rfl⟩

theorem Reshaped.trans {next last : Pktbuf} {free' : List Pktblk}
    (first : Reshaped buf free next left) (second : Reshaped next left last free') :
    Reshaped buf free last free' :=
  ⟨second.wellFormed, second.ids.trans first.ids, second.ref.trans first.ref⟩

theorem Reshaped.insert (holds : buf.WellFormed) (addLast : Bool)
    (allocated : Allocated size free chain left) :
    Reshaped buf free (pktbufInsertBlkList buf chain addLast) left := by
  have taken : (blkIds left ++ (blkIds buf.blkList ++ blkIds chain)).Perm
      (blkIds free ++ blkIds buf.blkList) := by
    calc blkIds left ++ (blkIds buf.blkList ++ blkIds chain)
      _ ~ blkIds left ++ (blkIds chain ++ blkIds buf.blkList) :=
          List.perm_append_comm.append_left _
      _ = (blkIds left ++ blkIds chain) ++ blkIds buf.blkList := by simp
      _ ~ (blkIds chain ++ blkIds left) ++ blkIds buf.blkList :=
          List.perm_append_comm.append_right _
      _ ~ blkIds free ++ blkIds buf.blkList := allocated.ids.append_right _
  cases addLast with
  | true =>
      refine ⟨⟨?_, ?_⟩, ?_, rfl⟩
      · simp [pktbufInsertBlkList, holds.total]
      · simp [pktbufInsertBlkList, holds.windows, allocated.windows]
      · simpa [pktbufInsertBlkList] using taken
  | false =>
      refine ⟨⟨?_, ?_⟩, ?_, rfl⟩
      · simp only [pktbufInsertBlkList, holds.total, Bool.false_eq_true, if_false,
          blksSize_append]
        omega
      · simp [pktbufInsertBlkList, holds.windows, allocated.windows]
      · simp only [pktbufInsertBlkList, Bool.false_eq_true, if_false, blkIds_append]
        exact (List.perm_append_comm.append_left _).trans taken

theorem content_grown (holds : buf.WellFormed) (blks : buf.blkList = block :: rest)
    (lower : 0 ≤ size) (upper : size ≤ block.data) :
    blksContent ({ block with size := block.size + size, data := block.data - size } :: rest) =
      slice block.payload (block.data - size).toNat size.toNat ++ buf.content := by
  have windows := holds.windows
  rw [blks, windows_cons] at windows
  have sizeNonneg := windows.1.size
  have inside := windows.1.inside
  have grownWindow : Pktblk.InPayload
      { block with size := block.size + size, data := block.data - size } := by
    refine ⟨?_, ?_, ?_⟩ <;> simp only <;> omega
  have split := Pktblk.window_split grownWindow lower (by simp only; omega)
  simp only [Int.sub_add_cancel, Int.add_sub_cancel] at split
  simp only [Pktbuf.content, blks, blksContent_cons, split, List.append_assoc]

theorem Reshaped.extendFront (holds : buf.WellFormed) (blks : buf.blkList = block :: rest)
    (lower : 0 ≤ size) (upper : size ≤ block.data) :
    let grown := { buf with
      blkList := { block with size := block.size + size, data := block.data - size } :: rest
      totalSize := buf.totalSize + size }
    Reshaped buf free grown free ∧
      ∃ header, header.length = size.toNat ∧ grown.content = header ++ buf.content := by
  have windows := holds.windows
  rw [blks, windows_cons] at windows
  obtain ⟨blockWindow, restWindows⟩ := windows
  have sizeNonneg := blockWindow.size
  have inside := blockWindow.inside
  have grownWindow : Pktblk.InPayload
      { block with size := block.size + size, data := block.data - size } := by
    refine ⟨?_, ?_, ?_⟩ <;> simp only <;> omega
  refine ⟨⟨⟨?_, ?_⟩, by simp [blks], rfl⟩,
    slice block.payload (block.data - size).toNat size.toNat, by simp,
    content_grown holds blks lower upper⟩
  · simp only [holds.total, blks, blksSize_cons]
    omega
  · simp only [windows_cons]
    exact ⟨grownWindow, restWindows⟩

def Pktbuf.Leads (buf : Pktbuf) (size : Int) : Prop :=
  ∃ first rest, buf.blkList = first :: rest ∧ size ≤ first.size

theorem pktbufAddHeader_spec (holds : buf.WellFormed) (nonempty : buf.blkList ≠ [])
    (nonneg : 0 ≤ size) (cont : Bool) :
    ∃ err after left, pktbufAddHeader buf size cont free = some (err, after, left) ∧
      Reshaped buf free after left ∧
      ∃ header, after.content = header ++ buf.content ∧
        (err = .ok → header.length = size.toNat ∧ (cont = true → after.Leads size)) := by
  obtain ⟨block, rest, blks⟩ := List.exists_cons_of_ne_nil nonempty
  have windows := holds.windows
  rw [blks, windows_cons] at windows
  have data := windows.1.data
  have blockSize := windows.1.size
  by_cases fits : size ≤ block.data
  · obtain ⟨reshaped, header, length, content⟩ :=
      @Reshaped.extendFront buf block rest free size holds blks nonneg fits
    refine ⟨.ok, _, free, ?_, reshaped, header, content,
      fun _ => ⟨length, fun _ => ⟨_, rest, rfl, ?_⟩⟩⟩
    · simp only [pktbufAddHeader, blks, if_pos fits]
    · simp only
      omega
  · cases cont with
    | true =>
        by_cases large : size > pktbufBlkSize
        · refine ⟨.none, buf, free, ?_, .same holds (List.Perm.refl _), [], rfl, by simp⟩
          simp only [pktbufAddHeader, blks, if_neg fits, if_true, if_pos large]
        · rcases @pktblockAllocList_cases size true free (by omega) with
            ⟨chain, left, chainEq, -, allocated⟩ | ⟨left, chainEq, -, ids⟩
          · obtain ⟨first, others, rfl⟩ :=
              List.exists_cons_of_ne_nil (allocated.nonempty (by omega))
            refine ⟨.ok, _, left, ?_, .insert holds false allocated,
              blksContent (first :: others), ?_, fun _ => ⟨?_, fun _ => ?_⟩⟩
            · simp only [pktbufAddHeader, blks, if_neg fits, if_true, if_neg large, chainEq]
            · simp [pktbufInsertBlkList, Pktbuf.content]
            · rw [allocated.windows.length_content, allocated.total]
            · -- What fits into one block is allocated as one.
              have one := allocated.length
              have total := allocated.total
              simp only [pktbufBlkSize] at large
              have noOthers : others = [] := by
                apply List.length_eq_zero_iff.mp
                rw [List.length_cons] at one
                omega
              subst noOthers
              refine ⟨first, buf.blkList, rfl, ?_⟩
              rw [blksSize_cons, blksSize_nil] at total
              omega
          · refine ⟨.none, buf, left, ?_, .same holds ids, [], rfl, by simp⟩
            simp only [pktbufAddHeader, blks, if_neg fits, if_true, if_neg large, chainEq]
    | false =>
        obtain ⟨reshaped, front, frontLength, frontContent⟩ :=
          @Reshaped.extendFront buf block rest free block.data holds blks data (Int.le_refl _)
        simp only [Int.sub_self] at reshaped frontContent
        rcases @pktblockAllocList_cases (size - block.data) true free (by omega) with
          ⟨chain, left, chainEq, -, allocated⟩ | ⟨left, chainEq, -, ids⟩
        · obtain ⟨first, others, rfl⟩ :=
            List.exists_cons_of_ne_nil (allocated.nonempty (by omega))
          have inserted := Reshaped.insert reshaped.wellFormed false allocated
          refine ⟨.ok, _, left, ?_,
            ⟨inserted.wellFormed, inserted.ids.trans reshaped.ids, inserted.ref⟩,
            blksContent (first :: others) ++ front, ?_, fun _ => ⟨?_, nofun⟩⟩
          · simp only [pktbufAddHeader, blks, if_neg fits, Bool.false_eq_true, if_false,
              chainEq]
          · simp only [Pktbuf.content] at frontContent
            simp only [pktbufInsertBlkList, Pktbuf.content, Bool.false_eq_true, if_false,
              blksContent_append, frontContent, List.append_assoc]
          · rw [List.length_append, frontLength, allocated.windows.length_content,
              allocated.total]
            omega
        · refine ⟨.none, _, left, ?_,
            ⟨reshaped.wellFormed, (ids.append_right _).trans reshaped.ids, rfl⟩,
            front, frontContent, by simp⟩
          simp only [pktbufAddHeader, blks, if_neg fits, Bool.false_eq_true, if_false,
            chainEq]

theorem removeHeaderLoop_spec {total : Int} {blks : List Pktblk} (windows : Windows blks)
    (lower : 0 ≤ size) (upper : size ≤ blksSize blks) :
    ∃ kept left, removeHeaderLoop size total blks free = some (total - size, kept, left) ∧
      Windows kept ∧ blksSize kept = blksSize blks - size ∧
      (blkIds left ++ blkIds kept).Perm (blkIds free ++ blkIds blks) ∧
      blksContent kept = (blksContent blks).drop size.toNat ∧
      kept.length ≤ blks.length := by
  induction blks generalizing size total free with
  | nil =>
      have zero : size = 0 := by
        simp at upper
        omega
      exact ⟨[], free, by simp [removeHeaderLoop, zero], windows_nil, by simp [zero],
        List.Perm.refl _, by simp, Nat.le_refl _⟩
  | cons block rest ih =>
      rw [windows_cons] at windows
      have sizeNonneg := windows.1.size
      by_cases zero : size = 0
      · exact ⟨block :: rest, free, by simp [removeHeaderLoop, zero],
          windows_cons.mpr windows, by simp [zero], List.Perm.refl _, by simp [zero],
          Nat.le_refl _⟩
      · by_cases within : size < block.size
        · refine ⟨{ block with data := block.data + size, size := block.size - size } :: rest,
            free, by simp only [removeHeaderLoop, if_neg zero, if_pos within],
            ?_, ?_, List.Perm.refl _, ?_, Nat.le_refl _⟩
          · have data := windows.1.data
            have inside := windows.1.inside
            rw [windows_cons]
            refine ⟨⟨?_, ?_, ?_⟩, windows.2⟩ <;> simp only <;> omega
          · simp only [blksSize_cons]
            omega
          · rw [blksContent_cons, blksContent_cons,
              Pktblk.window_drop windows.1 lower (by omega),
              List.drop_append_of_le_length (by simp; omega)]
        · simp only [blksSize_cons] at upper
          obtain ⟨kept, left, loopEq, keptWindows, keptSize, ids, content, shorter⟩ :=
            @ih (free ++ [block]) (size - block.size) (total - block.size) windows.2
              (by omega) (by omega)
          refine ⟨kept, left, ?_, keptWindows, ?_, ?_, ?_, Nat.le_succ_of_le shorter⟩
          · simp only [removeHeaderLoop, if_neg zero, if_neg within, loopEq]
            congr 2
            omega
          · simp only [keptSize, blksSize_cons]
            omega
          · simpa using ids
          · have sizes : size.toNat = block.window.length + (size - block.size).toNat := by
              rw [Pktblk.length_window]
              omega
            rw [content, blksContent_cons, sizes, List.drop_append]
            simp

theorem removeHeaderLoop_ids {total totalAfter : Int} {blks kept : List Pktblk}
    (removed : removeHeaderLoop size total blks free = some (totalAfter, kept, left)) :
    blkIds kept <:+ blkIds blks := by
  induction blks generalizing size total free with
  | nil =>
      simp only [removeHeaderLoop, Option.ite_none_right_eq_some, Option.some.injEq,
        Prod.mk.injEq] at removed
      exact removed.2.2.1 ▸ List.suffix_refl _
  | cons block rest ih =>
      unfold removeHeaderLoop at removed
      split at removed
      · cases removed
        exact List.suffix_refl _
      · split at removed
        · cases removed
          exact List.suffix_refl _
        · exact (ih removed).trans (List.suffix_cons _ _)

theorem pktbufRemoveHeader_ids {err : NetErr} {after : Pktbuf}
    (removed : pktbufRemoveHeader buf size free = some (err, after, left)) :
    blkIds after.blkList <:+ blkIds buf.blkList := by
  obtain ⟨⟨total, kept, free'⟩, loopEq, rest⟩ := Option.bind_eq_some_iff.mp removed
  cases rest
  exact removeHeaderLoop_ids loopEq

theorem pktbufRemoveHeader_spec (holds : buf.WellFormed) (lower : 0 ≤ size)
    (upper : size ≤ buf.totalSize) :
    ∃ after left, pktbufRemoveHeader buf size free = some (.ok, after, left) ∧
      Reshaped buf free after left ∧ after.totalSize = buf.totalSize - size ∧
      after.content = buf.content.drop size.toNat ∧
      after.blkList.length ≤ buf.blkList.length := by
  have total := holds.total
  obtain ⟨kept, left, loopEq, windows, keptSize, ids, content, shorter⟩ :=
    @removeHeaderLoop_spec free size buf.totalSize buf.blkList holds.windows lower
      (by omega)
  refine ⟨{ buf with totalSize := buf.totalSize - size, blkList := kept }, left,
    by simp only [pktbufRemoveHeader, loopEq]; rfl, ⟨⟨?_, windows⟩, ids, rfl⟩, rfl,
    content, shorter⟩
  simp only [keptSize, total]

theorem findTailBlk_spec {toSize total : Int} {blks : List Pktblk}
    (windows : Windows blks) (lower : total ≤ toSize) (upper : toSize < total + blksSize blks) :
    ∃ front tail behind, findTailBlk toSize total blks = some (front, tail, behind) ∧
      blks = front ++ tail :: behind ∧ total + blksSize front ≤ toSize ∧
      toSize ≤ total + blksSize front + tail.size := by
  induction blks generalizing total with
  | nil =>
      simp at upper
      omega
  | cons block rest ih =>
      rw [windows_cons] at windows
      by_cases reached : total + block.size ≥ toSize
      · refine ⟨[], block, rest, by simp only [findTailBlk, if_pos reached], rfl, ?_, ?_⟩ <;>
          simp <;> omega
      · simp only [blksSize_cons] at upper
        obtain ⟨front, tail, behind, findEq, blksEq, below, above⟩ :=
          @ih (total + block.size) windows.2 (by omega) (by omega)
        refine ⟨block :: front, tail, behind, ?_, by simp [blksEq], ?_, ?_⟩
        · simp [findTailBlk, if_neg reached, findEq]
        · simp only [blksSize_cons]
          omega
        · simp only [blksSize_cons]
          omega

theorem Reshaped.extendBack {front : List Pktblk} (holds : buf.WellFormed)
    (blks : buf.blkList = front ++ [block]) (lower : 0 ≤ size)
    (upper : size ≤ currBlkTailFree block) :
    let grown := { buf with
      blkList := front ++ [{ block with size := block.size + size }]
      totalSize := buf.totalSize + size }
    Reshaped buf free grown free ∧
      ∃ tail, tail.length = size.toNat ∧ grown.content = buf.content ++ tail := by
  have windows := holds.windows
  rw [blks, windows_append, windows_cons] at windows
  obtain ⟨frontWindows, blockWindow, -⟩ := windows
  have data := blockWindow.data
  have sizeNonneg := blockWindow.size
  simp only [currBlkTailFree] at upper
  refine ⟨⟨⟨?_, ?_⟩, by simp [blks], rfl⟩,
    slice block.payload (block.data.toNat + block.size.toNat) size.toNat, by simp, ?_⟩
  · simp only [holds.total, blks, blksSize_append, blksSize_cons, blksSize_nil]
    omega
  · rw [windows_append, windows_cons]
    refine ⟨frontWindows, ⟨data, ?_, ?_⟩, windows_nil⟩ <;> simp only <;> omega
  · have sizes : (block.size + size).toNat = block.size.toNat + size.toNat := by omega
    simp only [Pktbuf.content, blks, blksContent_append, blksContent_cons,
      blksContent_nil, Pktblk.window, sizes, slice_add, List.append_nil,
      List.append_assoc]

theorem Reshaped.cut {front behind : List Pktblk} (holds : buf.WellFormed)
    (blks : buf.blkList = front ++ block :: behind) (lower : blksSize front ≤ size)
    (upper : size ≤ blksSize front + block.size) :
    let shrunk := { buf with
      blkList := front ++ [{ block with size := size - blksSize front }]
      totalSize := size }
    Reshaped buf free shrunk (free ++ behind) ∧
      shrunk.content = buf.content.take size.toNat := by
  have windows := holds.windows
  rw [blks, windows_append, windows_cons] at windows
  obtain ⟨frontWindows, blockWindow, -⟩ := windows
  have data := blockWindow.data
  have inside := blockWindow.inside
  have frontNonneg := frontWindows.size_nonneg
  refine ⟨⟨⟨?_, ?_⟩, ?_, rfl⟩, ?_⟩
  · simp
  · rw [windows_append, windows_cons]
    refine ⟨frontWindows, ⟨data, ?_, ?_⟩, windows_nil⟩ <;> simp only <;> omega
  · simp only [blks, blkIds_append, blkIds_cons, blkIds_nil, List.append_assoc]
    apply List.Perm.append_left
    exact (List.perm_append_comm.trans (by simp)).trans (List.Perm.refl _)
  · have sizes : size.toNat =
        (blksContent front).length + (size - blksSize front).toNat := by
      rw [frontWindows.length_content]
      omega
    simp only [Pktbuf.content, blks, blksContent_append, blksContent_cons,
      blksContent_nil, List.append_nil]
    have rest : (size - blksSize front).toNat ≤ block.window.length := by
      rw [Pktblk.length_window]
      omega
    rw [Pktblk.window_take (by omega), sizes, List.take_length_add_append,
      List.take_append_of_le_length rest]

theorem pktbufResize_cut {toSize : Int} (holds : buf.WellFormed) (lower : 0 ≤ toSize)
    (upper : toSize ≤ buf.totalSize) :
    ∃ after left, pktbufResize buf toSize free = some (.ok, after, left) ∧
      Reshaped buf free after left ∧ after.totalSize = toSize ∧
      after.content = buf.content.take toSize.toNat := by
  by_cases same : toSize = buf.totalSize
  · refine ⟨buf, free, by simp [pktbufResize, same], .same holds (List.Perm.refl _),
      same.symm, ?_⟩
    rw [List.take_of_length_le]
    have := holds.length_content
    omega
  · have total := holds.total
    obtain ⟨front, tail, behind, findEq, blks, below, above⟩ :=
      findTailBlk_spec holds.windows lower (by omega : toSize < 0 + blksSize buf.blkList)
    have cutEq : tail.size - (buf.totalSize - blksSize behind - toSize) =
        toSize - blksSize front := by
      rw [total, blks]
      simp only [blksSize_append, blksSize_cons]
      omega
    obtain ⟨reshaped, content⟩ := @Reshaped.cut buf tail free toSize front behind holds
      blks (by omega) (by omega)
    refine ⟨_, free ++ behind, ?_, reshaped, rfl, content⟩
    have nonzero : buf.totalSize ≠ 0 := by omega
    have notLarger : ¬ toSize > buf.totalSize := by omega
    simp only [pktbufResize, if_neg same, if_neg nonzero, if_neg notLarger, findEq, cutEq]

theorem pktbufResize_extend {toSize : Int} (holds : buf.WellFormed)
    (larger : buf.totalSize < toSize) :
    (∃ after left, pktbufResize buf toSize free = some (.ok, after, left) ∧
      Reshaped buf free after left ∧ after.totalSize = toSize ∧
      ∃ tail, after.content = buf.content ++ tail) ∨
    (∃ err left, pktbufResize buf toSize free = some (err, buf, left) ∧
      err.isError ∧ Reshaped buf free buf left ∧
      (buf.totalSize ≠ 0 → ∀ front block, buf.blkList = front ++ [block] →
        pktbufBlkSize * free.length < toSize - buf.totalSize - currBlkTailFree block)) := by
  have total := holds.total
  have different : toSize ≠ buf.totalSize := by omega
  by_cases empty : buf.totalSize = 0
  · rcases @pktblockAllocList_cases toSize false free (by omega) with
      ⟨chain, left, chainEq, -, allocated⟩ | ⟨left, chainEq, -, ids⟩
    · obtain ⟨first, others, rfl⟩ :=
        List.exists_cons_of_ne_nil (allocated.nonempty (by omega))
      refine .inl ⟨_, left, ?_, .insert holds true allocated, ?_,
        blksContent (first :: others), ?_⟩
      · simp only [pktbufResize, if_neg different, if_pos empty, chainEq]
      · simp only [pktbufInsertBlkList, allocated.total, empty, Int.zero_add]
      · simp [pktbufInsertBlkList, Pktbuf.content]
    · refine .inr ⟨.mem, left, ?_, rfl, .same holds ids, fun nonzero => absurd empty nonzero⟩
      simp only [pktbufResize, if_neg different, if_pos empty, chainEq]
  · have nonempty : buf.blkList ≠ [] := by
      intro none
      rw [none] at total
      exact empty total
    obtain ⟨front, block, blks⟩ := List.eq_nil_or_concat' buf.blkList |>.resolve_left nonempty
    have tailEq : buf.blkList.getLast? = some block := by simp [blks]
    have frontEq : buf.blkList.dropLast = front := by simp [blks]
    have windows := holds.windows
    rw [blks, windows_append, windows_cons] at windows
    have room : 0 ≤ currBlkTailFree block := by
      have := windows.2.1.inside
      simp only [currBlkTailFree]
      omega
    by_cases fits : currBlkTailFree block ≥ toSize - buf.totalSize
    · obtain ⟨reshaped, tail, -, content⟩ := @Reshaped.extendBack buf block free
        (toSize - buf.totalSize) front holds blks (by omega) fits
      refine .inl ⟨_, free, ?_, reshaped, ?_, tail, content⟩
      · simp only [pktbufResize, if_neg different, if_neg empty, if_pos larger, tailEq,
          frontEq, if_pos fits]
      · simp only
        omega
    · obtain ⟨reshaped, tail, -, content⟩ := @Reshaped.extendBack buf block free
        (currBlkTailFree block) front holds blks room (Int.le_refl _)
      rcases @pktblockAllocList_cases
          (toSize - buf.totalSize - currBlkTailFree block) false free (by omega) with
        ⟨chain, left, chainEq, -, allocated⟩ | ⟨left, chainEq, short, ids⟩
      · obtain ⟨first, others, rfl⟩ :=
          List.exists_cons_of_ne_nil (allocated.nonempty (by omega))
        have inserted := Reshaped.insert reshaped.wellFormed true allocated
        refine .inl ⟨_, left, ?_,
          ⟨inserted.wellFormed, inserted.ids.trans reshaped.ids, inserted.ref⟩, ?_,
          tail ++ blksContent (first :: others), ?_⟩
        · simp only [pktbufResize, if_neg different, if_neg empty, if_pos larger, tailEq,
            frontEq, if_neg fits, chainEq]
        · simp only [pktbufInsertBlkList, allocated.total]
          omega
        · simp only [Pktbuf.content] at content
          simp only [pktbufInsertBlkList, Pktbuf.content, if_true, blksContent_append,
            List.append_assoc] at content ⊢
          rw [← List.append_assoc, content, List.append_assoc]
      · refine .inr ⟨.none, left, ?_, rfl, .same holds ids, ?_⟩
        · simp only [pktbufResize, if_neg different, if_neg empty, if_pos larger, tailEq,
            if_neg fits, chainEq]
        · intro _ front' last lastEq
          rw [blks] at lastEq
          obtain ⟨-, rfl⟩ := List.append_inj' lastEq rfl |>.imp_right List.singleton_inj.mp
          exact short

theorem pktbufJoin_eq (dest src : Pktbuf) :
    pktbufJoin dest src =
      ({ dest with
          blkList := dest.blkList ++ src.blkList
          totalSize := dest.totalSize + blksSize src.blkList },
        { src with blkList := [] }) := by
  suffices loop : ∀ blks dest,
      List.foldl (fun dest block => pktbufInsertBlkList dest [block] true) dest blks =
        { dest with
          blkList := dest.blkList ++ blks
          totalSize := dest.totalSize + blksSize blks } by
    simp [pktbufJoin, loop]
  intro blks
  induction blks with
  | nil =>
      intro dest
      simp
  | cons block rest ih =>
      intro dest
      rw [List.foldl_cons, ih]
      simp [pktbufInsertBlkList, Int.add_assoc]

theorem pktbufJoin_wellFormed {dest src : Pktbuf} (destHolds : dest.WellFormed)
    (srcHolds : src.WellFormed) :
    (pktbufJoin dest src).1.WellFormed ∧
      (pktbufJoin dest src).1.content = dest.content ++ src.content := by
  rw [pktbufJoin_eq]
  refine ⟨⟨?_, ?_⟩, ?_⟩
  · simp [destHolds.total]
  · simp [destHolds.windows, srcHolds.windows]
  · simp [Pktbuf.content]

theorem moveToStart_spec (holds : block.InPayload) {count : Nat}
    (upper : (count : Int) ≤ block.size) :
    ∃ payload, moveToStart block count = some { block with payload := payload } ∧
      slice payload 0 count = slice block.payload block.data.toNat count ∧
      ∀ i, count ≤ i → payload i = block.payload i := by
  have data := holds.data
  have inside := holds.inside
  induction count with
  | zero => exact ⟨block.payload, rfl, rfl, fun _ _ => rfl⟩
  | succ count ih =>
      obtain ⟨payload, moveEq, moved, kept⟩ := ih (by omega)
      have loadEq : Pktblk.load { block with payload := payload } (block.data + count) 1 =
          some [block.payload (block.data.toNat + count)] := by
        rw [Pktblk.load_inside (by omega) (by omega) (by omega)]
        have start : (block.data + (count : Int)).toNat = block.data.toNat + count := by
          omega
        simp only [start, slice, Int.toNat_one, List.range_one, List.map_cons, List.map_nil,
          Nat.add_zero, kept _ (Nat.le_add_left count block.data.toNat)]
      obtain ⟨payload', storeEq, before, stored, behind⟩ :=
        @Pktblk.store_inside { block with payload := payload } count
          [block.payload (block.data.toNat + count)] (by omega)
          (by simp only [List.length_singleton]; omega)
      refine ⟨payload', ?_, ?_, ?_⟩
      · simp only [moveToStart, moveEq, Option.bind_eq_bind, Option.bind_some, loadEq,
          storeEq]
      · rw [slice_add, slice_add]
        congr 1
        · rw [← moved]
          apply slice_congr
          intro i below
          exact before _ (by simpa using below)
        · simpa [slice] using stored
      · intro i above
        simp only [Int.toNat_natCast, List.length_singleton] at behind
        rw [behind i above]
        exact kept i (by omega)

theorem setContLoop_spec {first : Pktblk} {remain : Int} {blks : List Pktblk}
    (firstHolds : first.InPayload) (atStart : first.data = 0)
    (room : first.size + remain ≤ pktbufBlkSize) (windows : Windows blks)
    (lower : 0 ≤ remain) (upper : remain ≤ blksSize blks) :
    ∃ filled kept left, setContLoop first remain blks free = some (filled, kept, left) ∧
      filled.InPayload ∧ filled.id = first.id ∧ filled.size = first.size + remain ∧
      Windows kept ∧ blksSize kept = blksSize blks - remain ∧
      (blkIds left ++ blkIds kept).Perm (blkIds free ++ blkIds blks) ∧
      filled.window ++ blksContent kept = first.window ++ blksContent blks := by
  induction blks generalizing first remain free with
  | nil =>
      have zero : remain = 0 := by
        simp at upper
        omega
      exact ⟨first, [], free, rfl, firstHolds, rfl, by omega, windows_nil, by simp [zero],
        List.Perm.refl _, rfl⟩
  | cons curr rest ih =>
      rw [windows_cons] at windows
      obtain ⟨currHolds, restWindows⟩ := windows
      have currData := currHolds.data
      have currNonneg := currHolds.size
      have currInside := currHolds.inside
      have firstNonneg := firstHolds.size
      simp only [blksSize_cons] at upper
      by_cases zero : remain = 0
      · exact ⟨first, curr :: rest, free, by simp only [setContLoop, if_pos zero],
          firstHolds, rfl, by omega, windows_cons.mpr ⟨currHolds, restWindows⟩,
          by simp [zero], List.Perm.refl _, rfl⟩
      · obtain ⟨count, countEq⟩ :
            ∃ count, (if curr.size > remain then remain else curr.size) = count := ⟨_, rfl⟩
        have bounds : 0 ≤ count ∧ count ≤ curr.size ∧ count ≤ remain ∧
            (curr.size - count = 0 ∨ count = remain) := by
          split at countEq <;> omega
        obtain ⟨countNonneg, countCurr, countRemain, ends⟩ := bounds
        have loadEq := @Pktblk.load_inside curr curr.data count currData countNonneg
          (by omega)
        obtain ⟨payload, storeEq, before, stored, -⟩ :=
          @Pktblk.store_inside first first.size
            (slice curr.payload curr.data.toNat count.toNat) firstNonneg
            (by rw [length_slice]; omega)
        rw [length_slice] at stored
        -- The first block after the copy holds its window and the bytes copied.
        have grownHolds : Pktblk.InPayload
            { first with payload := payload, size := first.size + count } := by
          refine ⟨firstHolds.data, ?_, ?_⟩ <;> simp only <;> omega
        have grownWindow :
            Pktblk.window { first with payload := payload, size := first.size + count } =
              first.window ++ slice curr.payload curr.data.toNat count.toNat := by
          have sizes : (first.size + count).toNat = first.size.toNat + count.toNat := by
            omega
          simp only [Pktblk.window, sizes, slice_add, atStart, Int.toNat_zero,
            Nat.zero_add, stored]
          congr 1
          apply slice_congr
          intro i below
          exact before _ (by omega)
        have currWindow := Pktblk.window_split currHolds countNonneg countCurr
        by_cases used : curr.size - count = 0
        · obtain ⟨filled, kept, left, loopEq, filledHolds, filledId, filledSize,
            keptWindows, keptSize, ids, content⟩ :=
            @ih (free ++ [{ curr with data := curr.data + count, size := curr.size - count }])
              { first with payload := payload, size := first.size + count }
              (remain - count) grownHolds atStart (by simp only; omega) restWindows
              (by omega) (by omega)
          refine ⟨filled, kept, left, ?_, filledHolds, filledId, ?_, keptWindows, ?_, ?_, ?_⟩
          · simp only [setContLoop, if_neg zero, countEq, loadEq, Option.bind_eq_bind,
              Option.bind_some, storeEq, if_pos used, loopEq]
          · rw [filledSize]
            simp only
            omega
          · rw [keptSize, blksSize_cons]
            omega
          · simpa using ids
          · have nothing : Pktblk.window
                { curr with data := curr.data + count, size := curr.size - count } = [] := by
              simp [Pktblk.window, used]
            rw [content, grownWindow, blksContent_cons, currWindow, nothing]
            simp
        · refine ⟨_, { curr with data := curr.data + count, size := curr.size - count } :: rest,
            free, ?_, grownHolds, rfl, ?_, ?_, ?_, List.Perm.refl _, ?_⟩
          · simp only [setContLoop, if_neg zero, countEq, loadEq, Option.bind_eq_bind,
              Option.bind_some, storeEq, if_neg used]
          · simp only
            omega
          · rw [windows_cons]
            refine ⟨⟨?_, ?_, ?_⟩, restWindows⟩ <;> simp only <;> omega
          · simp only [blksSize_cons]
            omega
          · rw [grownWindow, blksContent_cons, blksContent_cons, currWindow]
            simp

theorem pktbufSetCont_spec (holds : buf.WellFormed) (nonempty : buf.blkList ≠ []) :
    ∃ err after left, pktbufSetCont buf size free = some (err, after, left) ∧
      Reshaped buf free after left ∧ after.totalSize = buf.totalSize ∧
      after.content = buf.content ∧
      (size ≤ buf.totalSize → size ≤ pktbufBlkSize →
        err = .ok ∧ after.Leads size) := by
  by_cases long : size > buf.totalSize
  · exact ⟨.size, buf, free, by simp only [pktbufSetCont, if_pos long],
      .same holds (List.Perm.refl _), rfl, rfl, fun within => absurd long (by omega)⟩
  by_cases large : size > pktbufBlkSize
  · exact ⟨.size, buf, free, by simp only [pktbufSetCont, if_neg long, if_pos large],
      .same holds (List.Perm.refl _), rfl, rfl, fun _ within => absurd large (by omega)⟩
  obtain ⟨first, rest, blks⟩ := List.exists_cons_of_ne_nil nonempty
  by_cases enough : size ≤ first.size
  · exact ⟨.ok, buf, free,
      by simp only [pktbufSetCont, if_neg long, if_neg large, blks, if_pos enough],
      .same holds (List.Perm.refl _), rfl, rfl,
      fun _ _ => ⟨rfl, first, rest, blks, enough⟩⟩
  have total := holds.total
  have windows := holds.windows
  rw [blks, blksSize_cons] at total
  rw [blks, windows_cons] at windows
  obtain ⟨firstHolds, restWindows⟩ := windows
  have firstNonneg := firstHolds.size
  obtain ⟨payload, moveEq, moved, -⟩ :=
    @moveToStart_spec first firstHolds first.size.toNat (by omega)
  have movedHolds : Pktblk.InPayload { first with payload := payload, data := 0 } := by
    refine ⟨Int.le_refl 0, firstNonneg, ?_⟩
    simp only
    omega
  have movedWindow :
      Pktblk.window { first with payload := payload, data := 0 } = first.window := moved
  obtain ⟨filled, kept, left, loopEq, filledHolds, filledId, filledSize, keptWindows,
    keptSize, ids, content⟩ := @setContLoop_spec free
      { first with payload := payload, data := 0 } (size - first.size) rest movedHolds rfl
      (by simp only; omega) restWindows (by omega) (by omega)
  refine ⟨.ok, { buf with blkList := filled :: kept }, left, ?_, ⟨⟨?_, ?_⟩, ?_, rfl⟩, rfl,
    ?_, fun _ _ => ⟨rfl, filled, kept, rfl, ?_⟩⟩
  · simp only [pktbufSetCont, if_neg long, if_neg large, blks, if_neg enough, moveEq,
      Option.bind_eq_bind, Option.bind_some, loopEq]
  · simp only [total, blksSize_cons, filledSize, keptSize]
    omega
  · exact windows_cons.mpr ⟨filledHolds, keptWindows⟩
  · simp only [blkIds_cons, blks, filledId]
    exact List.perm_middle.trans ((ids.cons _).trans List.perm_middle.symm)
  · simp only [Pktbuf.content, blks, blksContent_cons, content, movedWindow]
  · rw [filledSize]
    simp only
    omega

end Structure

end CleanOS.Net
