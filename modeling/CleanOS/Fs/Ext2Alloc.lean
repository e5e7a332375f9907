import Mathlib.Data.List.Nodup
import CleanOS.Fs.Ext2

/-!
# Exclusive block allocation

When the blocks that `alloc_block` hands out are free and handed out once.  It takes the
first clear bits of the bitmap of the first group, adds the number of the first data block
to each, and writes nothing back, so that the next call finds the same bits.
-/

namespace CleanOS.Fs

open CleanOS.Common

namespace Ext2

def formatBlockSize (volume : Ext2) : Nat :=
  1024 * 2 ^ volume.superBlock.blockSizeKb.toNat

def bitmapBit (volume : Ext2) (group bit : Nat) : Bool :=
  (volume.disk ((volume.blockGroups group).blockBitmap.toNat * volume.formatBlockSize +
    bit / 8)).toBitVec.getLsbD (bit % 8)

def MarkedFree (volume : Ext2) (block : UInt32) : Prop :=
  let start := volume.superBlock.superBlockId.toNat
  let size := volume.superBlock.blocksPerGroup.toNat
  start ≤ block.toNat ∧ block < volume.superBlock.blocksTotal ∧
    volume.bitmapBit ((block.toNat - start) / size) ((block.toNat - start) % size) = false

/-- The bitmap that `alloc_block` searches. -/
def searched (volume : Ext2) : Bitmap where
  bytesLen := volume.blockSize.toNat
  bits := fun byteIdx =>
    (blockRead volume.disk volume.blockSize (volume.blockGroups 0).blockBitmap byteIdx).toBitVec

/-- What `alloc_block` adds to a bit. -/
def dataBlockStart (volume : Ext2) : UInt32 :=
  (volume.blockGroups 0).inodeTable +
    volume.superBlock.inodesPerGroup * volume.superBlock.inodeSize.toUInt32 / volume.blockSize + 1

def available (volume : Ext2) (count : UInt32) (must : Bool) : Nat :=
  if (volume.blockGroups 0).unallocatedBlockCount.toNat < count.toNat then 0
  else if volume.searched.clearBits.length < count.toNat then
    if must then 0 else volume.searched.clearBits.length
  else count.toNat

/-- The numbers that the first clear bits stand for in `alloc_block`. -/
def candidates (volume : Ext2) (count : Nat) : List UInt32 :=
  (volume.searched.clearBits.take count).map fun idx =>
    UInt32.ofNat idx + volume.dataBlockStart

/-- A call of `alloc_block`, with what it returns. -/
structure AllocAnswer where
  before : Ext2
  success : UInt32
  blocks : List UInt32
  after : Ext2

/-- Calls of `alloc_block` in a row. -/
def allocCalls : Ext2 → List (UInt32 × Bool) → List AllocAnswer
  | _, [] => []
  | volume, (count, must) :: calls =>
      let (success, blocks, after) := volume.allocBlock count must
      ⟨volume, success, blocks.take success.toNat, after⟩ :: allocCalls after calls

def AllocAnswer.Accounts (answer : AllocAnswer) : Prop :=
  (answer.after.blockGroups 0).unallocatedBlockCount.toNat + answer.success.toNat =
    (answer.before.blockGroups 0).unallocatedBlockCount.toNat ∧
  answer.after.superBlock.unallocatedBlockCount.toNat + answer.success.toNat =
    answer.before.superBlock.unallocatedBlockCount.toNat ∧
  (answer.success = 0 → answer.after = answer.before)

/-- Every block that is returned is marked free before the call, none is returned twice,
and the counters follow. -/
def Exclusive (answers : List AllocAnswer) : Prop :=
  (∀ answer ∈ answers, ∀ block ∈ answer.blocks, answer.before.MarkedFree block) ∧
  (answers.flatMap AllocAnswer.blocks).Nodup ∧
  ∀ answer ∈ answers, answer.Accounts

/-- At most one call finds blocks, and for that one the numbers of the bits are those of
free blocks, which the super block counts. -/
def FindsOnce : Ext2 → Bool → List (UInt32 × Bool) → Prop
  | _, _, [] => True
  | volume, given, (count, must) :: calls =>
      let found := volume.available count must
      (0 < found → given = false ∧ (∀ block ∈ volume.candidates found, volume.MarkedFree block) ∧
        found ≤ volume.superBlock.unallocatedBlockCount.toNat) ∧
      FindsOnce (volume.allocBlock count must).2.2 (given || decide (0 < found)) calls

variable {volume : Ext2} {count : UInt32} {must : Bool}

theorem allocLoop_eq (start : UInt32) (must : Bool) (count : Nat) (bitmap : Bitmap)
    (blocks : List UInt32) (success : UInt32) :
    allocLoop start must count bitmap blocks success =
      if must ∧ bitmap.clearBits.length < count then none
      else some (blocks ++ (bitmap.clearBits.take count).map (fun idx => UInt32.ofNat idx + start) ++
          List.replicate (count - bitmap.clearBits.length) 0,
        success + UInt32.ofNat (min count bitmap.clearBits.length)) := by
  induction count generalizing bitmap blocks success with
  | zero => simp [allocLoop]
  | succ count ih =>
      rw [allocLoop]
      cases isClear : bitmap.clearBits with
      | nil =>
          rw [Bitmap.scan_one_nil isClear, if_neg (by decide)]
          cases must with
          | true => simp
          | false =>
              rw [if_neg Bool.false_ne_true, ih, isClear]
              simp [List.replicate_succ]
      | cons idx rest =>
          rw [Bitmap.scan_one_cons isClear, if_pos (by omega), ih, Int.toNat_natCast,
            Bitmap.clearBits_set isClear]
          have counts : success + 1 + UInt32.ofNat (min count rest.length) =
              success + UInt32.ofNat (min (count + 1) (idx :: rest).length) := by
            rw [List.length_cons, Nat.add_min_add_right, UInt32.ofNat_add, UInt32.add_assoc,
              UInt32.add_comm 1]
            rfl
          rw [counts]
          simp only [Nat.add_lt_add_iff_right, List.take_succ_cons, List.map_cons, List.length_cons,
            Nat.add_sub_add_right, List.append_assoc, List.cons_append, List.nil_append]

def taking (volume : Ext2) (success : UInt32) : Ext2 :=
  let group := volume.blockGroups 0
  { volume with
    superBlock := { volume.superBlock with
      unallocatedBlockCount := volume.superBlock.unallocatedBlockCount - success }
    blockGroups := Function.update volume.blockGroups 0 { group with
      unallocatedBlockCount := group.unallocatedBlockCount - success.toUInt16 } }

theorem taking_zero (volume : Ext2) : volume.taking 0 = volume := by
  have group : ∀ desc : BlockGroupDesc, { desc with
      unallocatedBlockCount := desc.unallocatedBlockCount - (0 : UInt32).toUInt16 } = desc := by
    intro desc
    have zero : desc.unallocatedBlockCount - (0 : UInt32).toUInt16 =
        desc.unallocatedBlockCount := UInt16.sub_zero _
    rw [zero]
  rw [taking, group, UInt32.sub_zero, Function.update_eq_self]

theorem allocBlock_def (volume : Ext2) (count : UInt32) (must : Bool) :
    volume.allocBlock count must =
      if (volume.blockGroups 0).unallocatedBlockCount.toUInt32 < count then (0, [], volume)
      else
        match allocLoop volume.dataBlockStart must count.toNat volume.searched [] 0 with
        | none => (0, [], volume)
        | some (blocks, success) => (success, blocks, volume.taking success) :=
  rfl

theorem available_le (volume : Ext2) (count : UInt32) (must : Bool) :
    volume.available count must ≤ count.toNat ∧
      volume.available count must ≤ (volume.blockGroups 0).unallocatedBlockCount.toNat ∧
      volume.available count must ≤ volume.searched.clearBits.length := by
  unfold available
  split
  next => omega
  next =>
    split
    next =>
      split <;> omega
    next => omega

theorem allocBlock_eq (volume : Ext2) (count : UInt32) (must : Bool) :
    (volume.allocBlock count must).1 = UInt32.ofNat (volume.available count must) ∧
      (volume.allocBlock count must).2.1.take (volume.available count must) =
        volume.candidates (volume.available count must) ∧
      (volume.allocBlock count must).2.2 =
        volume.taking (UInt32.ofNat (volume.available count must)) := by
  rw [allocBlock_def, allocLoop_eq]
  unfold available candidates
  by_cases few : (volume.blockGroups 0).unallocatedBlockCount.toNat < count.toNat
  · have less : (volume.blockGroups 0).unallocatedBlockCount.toUInt32 < count := few
    rw [if_pos less, if_pos few]
    exact ⟨rfl, rfl, (taking_zero volume).symm⟩
  · have notLess : ¬ (volume.blockGroups 0).unallocatedBlockCount.toUInt32 < count := few
    rw [if_neg notLess, if_neg few]
    by_cases short : volume.searched.clearBits.length < count.toNat
    · rw [if_pos short]
      cases must with
      | true =>
          rw [if_pos rfl, if_pos ⟨rfl, short⟩]
          exact ⟨rfl, rfl, (taking_zero volume).symm⟩
      | false =>
          rw [if_neg Bool.false_ne_true, if_neg (by simp), Nat.min_eq_right (by omega)]
          have all : volume.searched.clearBits.take count.toNat = volume.searched.clearBits :=
            List.take_of_length_le (by omega)
          dsimp only
          rw [UInt32.zero_add, List.nil_append, all, List.take_left' (List.length_map _),
            List.take_length]
          exact ⟨rfl, rfl, rfl⟩
    · rw [if_neg short, if_neg fun both => short both.2, Nat.min_eq_left (by omega)]
      dsimp only
      have taken : ((volume.searched.clearBits.take count.toNat).map fun idx =>
          UInt32.ofNat idx + volume.dataBlockStart).length = count.toNat := by
        rw [List.length_map, List.length_take, Nat.min_eq_left (by omega)]
      rw [UInt32.zero_add, List.nil_append, List.take_left' taken]
      exact ⟨rfl, rfl, rfl⟩

@[simp] theorem taking_searched (volume : Ext2) (success : UInt32) :
    (volume.taking success).searched = volume.searched := by
  dsimp only [searched, taking, blockSize]
  rw [Function.update_self]

@[simp] theorem taking_dataBlockStart (volume : Ext2) (success : UInt32) :
    (volume.taking success).dataBlockStart = volume.dataBlockStart := by
  dsimp only [dataBlockStart, taking, blockSize]
  rw [Function.update_self]

theorem candidates_nodup (valid : volume.superBlock.blockSizeKb ≤ 6) (count : Nat) :
    (volume.candidates count).Nodup := by
  refine List.Nodup.map_on ?_ (volume.searched.clearBits_nodup.sublist (List.take_sublist _ _))
  have small : volume.searched.bytesLen * 8 ≤ 57344 := by
    have kb : volume.superBlock.blockSizeKb.toNat ≤ 6 := valid
    have size : volume.searched.bytesLen = (volume.superBlock.blockSizeKb.toNat + 1) * 1024 := by
      dsimp only [searched, blockSize, kbSize]
      rw [UInt32.toNat_mul, UInt32.toNat_add, UInt32.toNat_one]
      have inWord : (1024 : UInt32).toNat = 1024 := rfl
      rw [inWord]
      omega
    omega
  have inside : ∀ idx ∈ volume.searched.clearBits.take count, idx < UInt32.size := by
    intro idx member
    have clear := Bitmap.mem_clearBits.mp (List.mem_of_mem_take member)
    have large : UInt32.size = 4294967296 := rfl
    omega
  intro one oneMember two twoMember same
  have equal := congrArg UInt32.toNat ((UInt32.add_left_inj _).mp same)
  rwa [UInt32.toNat_ofNat_of_lt' (inside one oneMember),
    UInt32.toNat_ofNat_of_lt' (inside two twoMember)] at equal

theorem candidates_first {found : Nat} (positive : 0 < found)
    (enough : found ≤ volume.searched.clearBits.length) :
    ∃ idx rest, volume.searched.clearBits = idx :: rest ∧
      UInt32.ofNat idx + volume.dataBlockStart ∈ volume.candidates found := by
  cases isClear : volume.searched.clearBits with
  | nil =>
      rw [isClear, List.length_nil] at enough
      omega
  | cons idx rest =>
      refine ⟨idx, rest, rfl, ?_⟩
      obtain ⟨more, rfl⟩ : ∃ more, found = more + 1 := ⟨found - 1, by omega⟩
      rw [candidates, isClear, List.take_succ_cons, List.map_cons]
      exact List.mem_cons_self

theorem accounts_iff {found : Nat} {blocks : List UInt32}
    (counted : found ≤ (volume.blockGroups 0).unallocatedBlockCount.toNat) :
    AllocAnswer.Accounts
      ⟨volume, UInt32.ofNat found, blocks, volume.taking (UInt32.ofNat found)⟩ ↔
      found ≤ volume.superBlock.unallocatedBlockCount.toNat := by
  have counter := (volume.blockGroups 0).unallocatedBlockCount.toNat_lt
  have large : UInt32.size = 4294967296 := rfl
  have number : (UInt32.ofNat found).toNat = found :=
    UInt32.toNat_ofNat_of_lt' (by omega)
  have short : (UInt32.ofNat found).toUInt16.toNat = found := by
    rw [UInt32.toNat_toUInt16, number]
    omega
  have group : ((volume.taking (UInt32.ofNat found)).blockGroups 0).unallocatedBlockCount.toNat +
      found = (volume.blockGroups 0).unallocatedBlockCount.toNat := by
    dsimp only [taking]
    rw [Function.update_self]
    dsimp only
    rw [UInt16.toNat_sub_of_le, short]
    · omega
    · rw [UInt16.le_iff_toNat_le, short]
      exact counted
  constructor
  · rintro ⟨_, super, _⟩
    dsimp only at super
    omega
  · intro counted
    refine ⟨?_, ?_, ?_⟩
    · dsimp only
      rw [number]
      exact group
    · dsimp only [taking]
      rw [number, UInt32.toNat_sub_of_le, number]
      · omega
      · rw [UInt32.le_iff_toNat_le, number]
        exact counted
    · intro zero
      dsimp only at zero ⊢
      rw [zero, taking_zero]

theorem exclusive_from (calls : List (UInt32 × Bool)) (volume : Ext2)
    (valid : volume.superBlock.blockSizeKb ≤ 6) (given : Bool) (earlier : List UInt32)
    (nodup : earlier.Nodup) (notGiven : given = false → earlier = [])
    (isGiven : given = true → ∃ idx rest, volume.searched.clearBits = idx :: rest ∧
      UInt32.ofNat idx + volume.dataBlockStart ∈ earlier) :
    ((∀ answer ∈ volume.allocCalls calls, ∀ block ∈ answer.blocks,
        answer.before.MarkedFree block) ∧
      (earlier ++ (volume.allocCalls calls).flatMap AllocAnswer.blocks).Nodup ∧
      ∀ answer ∈ volume.allocCalls calls, answer.Accounts) ↔
    volume.FindsOnce given calls := by
  induction calls generalizing volume given earlier with
  | nil => simpa [allocCalls, FindsOnce] using nodup
  | cons call calls ih =>
      obtain ⟨count, must⟩ := call
      obtain ⟨success, blocks, after⟩ := volume.allocBlock_eq count must
      obtain ⟨inCount, inGroup, inBits⟩ := volume.available_le count must
      have number : (UInt32.ofNat (volume.available count must)).toNat =
          volume.available count must :=
        UInt32.toNat_ofNat_of_lt' (Nat.lt_of_le_of_lt inCount count.toNat_lt)
      have isCons : volume.allocCalls ((count, must) :: calls) =
          ⟨volume, UInt32.ofNat (volume.available count must),
            volume.candidates (volume.available count must),
            volume.taking (UInt32.ofNat (volume.available count must))⟩ ::
          (volume.taking (UInt32.ofNat (volume.available count must))).allocCalls calls := by
        dsimp only [allocCalls]
        rw [success, after, number, blocks]
      rw [isCons, FindsOnce, List.flatMap_cons, List.forall_mem_cons, List.forall_mem_cons,
        accounts_iff inGroup, after]
      dsimp only
      rcases Nat.eq_zero_or_pos (volume.available count must) with zero | positive
      · have same : volume.taking (UInt32.ofNat 0) = volume := volume.taking_zero
        have noBlocks : volume.candidates 0 = [] := rfl
        rw [zero, same, noBlocks, List.nil_append, decide_eq_false (Nat.lt_irrefl 0), Bool.or_false,
          ← ih volume valid given earlier nodup notGiven isGiven]
        simp
      · obtain ⟨idx, rest, isClear, first⟩ := candidates_first positive inBits
        have further := ih (volume.taking (UInt32.ofNat (volume.available count must))) valid true
        rw [taking_searched, taking_dataBlockStart] at further
        cases given with
        | true =>
            obtain ⟨sameIdx, _, isSame, inEarlier⟩ := isGiven rfl
            rw [isClear] at isSame
            cases isSame
            constructor
            · rintro ⟨_, distinct, _⟩
              have apart := (List.nodup_append.mp distinct).2.2
              exact absurd rfl (apart _ inEarlier _ (List.mem_append_left _ first))
            · rintro ⟨once, _⟩
              cases (once positive).1
        | false =>
            rw [notGiven rfl, List.nil_append, decide_eq_true positive, Bool.false_or,
              ← further _ (candidates_nodup valid _) (by rintro ⟨⟩) fun _ =>
                ⟨idx, rest, isClear, first⟩]
            constructor
            · rintro ⟨⟨free, laterFree⟩, distinct, counted, accounts⟩
              exact ⟨fun _ => ⟨rfl, free, counted⟩, laterFree, distinct, accounts⟩
            · rintro ⟨once, laterFree, distinct, accounts⟩
              obtain ⟨_, free, counted⟩ := once positive
              exact ⟨⟨free, laterFree⟩, distinct, counted, accounts⟩

/-- A file system of 64 blocks whose bitmap is in block 3 and whose inodes are in block 5,
with the first bytes of the bitmap. -/
def smallVolume (first : UInt8) : Ext2 where
  superBlock := ⟨8, 64, 50, 1, 0, 8192, 8, 128⟩
  blockGroups := fun _ => ⟨3, 4, 5, 50⟩
  disk := fun address => if address = 3 * 1024 then first else 0
  heap := fun _ => 0
  writes := []

theorem smallVolume_clearBits : (smallVolume 0).searched.clearBits = List.range 8192 := by
  have zero : ∀ byteIdx, (smallVolume 0).searched.bits byteIdx = 0#8 := by
    intro byteIdx
    simp only [searched, smallVolume, blockRead, ite_self]
    rfl
  have length : (smallVolume 0).searched.bytesLen * 8 = 8192 := rfl
  rw [Bitmap.clearBits, length, List.filter_eq_self]
  intro idx _
  rw [Bitmap.bit, zero, BitVec.getLsbD_zero]
  rfl

end Ext2

end CleanOS.Fs
