import Mathlib.Algebra.Group.Int.Defs
import Mathlib.Algebra.Group.Nat.Defs
import Mathlib.Logic.Basic

/-!
# Seeking in files

`fat16_seek` of `kernel/fs/fat16fs.c` and `ext2_seek` of `kernel/fs/ext2.c`, which have the same
body.
-/

namespace CleanOS.Fs

/-- `SEEK_SET`. -/
def seekSet : Int32 := 0

/-- `SEEK_CUR`. -/
def seekCur : Int32 := 1

/-- `SEEK_END`. -/
def seekEnd : Int32 := 2

/-- `EINVAL`. -/
def einval : Int32 := -3

/-- `EOVERFLOW`. -/
def eoverflow : Int32 := -4

/-- The body of both functions, from `pos` and `size` of a file: the new `pos` and what is
returned. -/
def seekBody (pos size : UInt32) (offset whence : Int32) : UInt32 × Int32 :=
  if whence = seekSet then
    let offset := if offset > 0 then offset else 0
    let newPos := offset.toUInt32
    (newPos, (newPos - pos).toInt32)
  else if whence = seekCur then
    -- the sum has 32 bits, and the bound is 1 << 4
    if 16 ≤ (pos + offset.toUInt32).toUInt64 then (pos, eoverflow)
    else
      let newPos := pos + offset.toUInt32
      (newPos, (newPos - pos).toInt32)
  else if whence = seekEnd then
    let newPos := if size + offset.toUInt32 > 0 then size + offset.toUInt32 else 0
    -- the case has no break
    (newPos, einval)
  else (pos, einval)

/-- `fat16_seek`. -/
def fat16Seek (pos size : UInt32) (offset whence : Int32) : UInt32 × Int32 :=
  seekBody pos size offset whence

/-- `ext2_seek`. -/
def ext2Seek (pos size : UInt32) (offset whence : Int32) : UInt32 × Int32 :=
  seekBody pos size offset whence

def seekTarget (pos size : UInt32) (offset whence : Int32) : Option Int :=
  if whence = seekSet then some offset.toInt
  else if whence = seekCur then some (pos.toNat + offset.toInt)
  else if whence = seekEnd then some (size.toNat + offset.toInt)
  else none

/-- A seek goes to a position of 31 bits, and fails without an effect for every other.  An error
is a negative result. -/
def Seeks (pos : UInt32) (target : Option Int) (result : UInt32 × Int32) : Prop :=
  match target with
  | none => result.1 = pos ∧ result.2 < 0
  | some target =>
      if 0 ≤ target ∧ target < 2 ^ 31 then (result.1.toNat : Int) = target ∧ 0 ≤ result.2
      else result.1 = pos ∧ result.2 < 0

def SeekCond (pos size : UInt32) (offset whence : Int32) : Prop :=
  if whence = seekSet then
    0 ≤ offset.toInt ∧ (pos.toNat ≤ offset.toInt ∨ offset.toInt + 2 ^ 31 < pos.toNat)
  else if whence = seekCur then
    0 ≤ offset.toInt ∧ pos.toNat + offset.toInt < 16 ∨
      pos.toNat + offset.toInt < 0 ∨
      2 ^ 31 ≤ pos.toNat + offset.toInt ∧ pos.toNat + offset.toInt < 2 ^ 32 ∨
      2 ^ 32 + 16 ≤ pos.toNat + offset.toInt
  else if whence = seekEnd then
    ¬ (0 ≤ size.toNat + offset.toInt ∧ size.toNat + offset.toInt < 2 ^ 31) ∧
      (size.toNat + offset.toInt) % 2 ^ 32 = pos.toNat
  else True

variable {pos size : UInt32} {offset whence : Int32}

theorem toInt_eq (value : Int32) :
    value.toInt = if 2 * value.toUInt32.toNat < 2 ^ 32 then (value.toUInt32.toNat : Int)
      else value.toUInt32.toNat - (2 ^ 32 : Nat) :=
  BitVec.toInt_eq_toNat_cond value.toBitVec

theorem toUInt32_emod (value : Int32) : (value.toUInt32.toNat : Int) = value.toInt % 2 ^ 32 := by
  have small := value.toUInt32.toNat_lt
  rw [toInt_eq]
  split <;> omega

theorem sub_nonneg_iff (left right : UInt32) :
    0 ≤ (left - right).toInt32 ↔ ((left.toNat : Int) - right.toNat) % 2 ^ 32 < 2 ^ 31 := by
  have small := (left - right).toNat_lt
  have isSub := UInt32.toNat_sub left right
  have rightSmall := right.toNat_lt
  rw [Int32.le_iff_toInt_le, toInt_eq]
  change (0 : Int) ≤ (if 2 * (left - right).toNat < 2 ^ 32 then ((left - right).toNat : Int)
    else (left - right).toNat - (2 ^ 32 : Nat)) ↔ _
  split <;> omega

theorem eoverflow_neg : eoverflow < 0 := by
  decide

theorem einval_neg : einval < 0 := by
  decide

theorem add_emod (place : UInt32) (offset : Int32) :
    ((place + offset.toUInt32).toNat : Int) = (place.toNat + offset.toInt) % 2 ^ 32 := by
  have sum := UInt32.toNat_add place offset.toUInt32
  have isOffset := toUInt32_emod offset
  omega

theorem clamp_eq (offset : Int32) :
    ((if offset > 0 then offset else 0).toUInt32.toNat : Int) = max offset.toInt 0 := by
  have below := offset.toInt_lt
  have isOffset := toUInt32_emod offset
  by_cases positive : offset > 0
  · have isPositive : (0 : Int) < offset.toInt := Int32.lt_iff_toInt_lt.mp positive
    rw [if_pos positive, isOffset]
    omega
  · have isNegative : offset.toInt ≤ 0 := Int32.le_iff_toInt_le.mp (Int32.not_lt.mp positive)
    rw [if_neg positive]
    change (0 : Int) = _
    omega

/-- `SEEK_SET` goes to 0 for a negative offset, and returns the way from the old position, which
may be negative. -/
theorem seekBody_set :
    Seeks pos (seekTarget pos size offset seekSet) (seekBody pos size offset seekSet) ↔
      SeekCond pos size offset seekSet := by
  have below := offset.toInt_lt
  have posSmall := pos.toNat_lt
  obtain ⟨newPos, isNewPos⟩ :
      ∃ newPos, newPos = (if offset > 0 then offset else 0).toUInt32 := ⟨_, rfl⟩
  have place : (newPos.toNat : Int) = max offset.toInt 0 := by
    rw [isNewPos]
    exact clamp_eq offset
  have body : seekBody pos size offset seekSet = (newPos, (newPos - pos).toInt32) := by
    rw [isNewPos]
    rfl
  rw [body]
  change (if 0 ≤ offset.toInt ∧ offset.toInt < 2 ^ 31 then
      (newPos.toNat : Int) = offset.toInt ∧ 0 ≤ (newPos - pos).toInt32
    else newPos = pos ∧ (newPos - pos).toInt32 < 0) ↔
    (0 ≤ offset.toInt ∧ (pos.toNat ≤ offset.toInt ∨ offset.toInt + 2 ^ 31 < pos.toNat))
  by_cases inside : 0 ≤ offset.toInt ∧ offset.toInt < 2 ^ 31
  · rw [if_pos inside, sub_nonneg_iff]
    omega
  · rw [if_neg inside, ← Int32.not_le, sub_nonneg_iff]
    constructor
    · rintro ⟨rfl, negative⟩
      omega
    · intro holds
      omega

theorem seekBody_cur :
    Seeks pos (seekTarget pos size offset seekCur) (seekBody pos size offset seekCur) ↔
      SeekCond pos size offset seekCur := by
  have below := offset.toInt_lt
  have above := offset.le_toInt
  have posSmall := pos.toNat_lt
  have sum := add_emod pos offset
  obtain ⟨newPos, isNewPos⟩ : ∃ newPos, newPos = pos + offset.toUInt32 := ⟨_, rfl⟩
  have body : seekBody pos size offset seekCur =
      if 16 ≤ newPos.toUInt64 then (pos, eoverflow) else (newPos, (newPos - pos).toInt32) := by
    rw [isNewPos]
    rfl
  have bound : 16 ≤ newPos.toUInt64 ↔ 16 ≤ newPos.toNat := UInt64.le_iff_toNat_le
  rw [← isNewPos] at sum
  rw [body]
  change (if 0 ≤ (pos.toNat + offset.toInt) ∧ (pos.toNat + offset.toInt) < 2 ^ 31 then _ ∧ _
    else _ ∧ _) ↔ (_ ∨ _)
  by_cases tooLarge : 16 ≤ newPos.toUInt64
  · rw [if_pos tooLarge]
    rw [bound] at tooLarge
    by_cases inside : 0 ≤ (pos.toNat + offset.toInt) ∧ (pos.toNat + offset.toInt) < 2 ^ 31
    · rw [if_pos inside]
      constructor
      · intro fails
        exact absurd fails.2 (Int32.not_le.mpr eoverflow_neg)
      · intro holds
        omega
    · rw [if_neg inside]
      constructor
      · intro _
        omega
      · intro _
        exact ⟨rfl, eoverflow_neg⟩
  · rw [if_neg tooLarge]
    rw [bound] at tooLarge
    by_cases inside : 0 ≤ (pos.toNat + offset.toInt) ∧ (pos.toNat + offset.toInt) < 2 ^ 31
    · rw [if_pos inside]
      change (newPos.toNat : Int) = _ ∧ 0 ≤ (newPos - pos).toInt32 ↔ _
      rw [sub_nonneg_iff]
      omega
    · rw [if_neg inside]
      change newPos = pos ∧ (newPos - pos).toInt32 < 0 ↔ _
      rw [← Int32.not_le, sub_nonneg_iff]
      constructor
      · rintro ⟨rfl, negative⟩
        omega
      · intro holds
        omega

theorem seekBody_end :
    Seeks pos (seekTarget pos size offset seekEnd) (seekBody pos size offset seekEnd) ↔
      SeekCond pos size offset seekEnd := by
  have sum := add_emod size offset
  obtain ⟨newPos, isNewPos⟩ : ∃ newPos, newPos = size + offset.toUInt32 := ⟨_, rfl⟩
  have clamp : (if size + offset.toUInt32 > 0 then size + offset.toUInt32 else 0) = newPos := by
    rw [← isNewPos]
    by_cases positive : newPos > 0
    · exact if_pos positive
    · rw [if_neg positive]
      exact (UInt32.le_zero_iff.mp (UInt32.not_lt.mp positive)).symm
  have body : seekBody pos size offset seekEnd = (newPos, einval) := by
    rw [← clamp]
    rfl
  have same : newPos = pos ↔ (newPos.toNat : Int) = pos.toNat := by
    rw [← UInt32.toNat_inj, Int.natCast_inj]
  rw [← isNewPos] at sum
  rw [body]
  change (if 0 ≤ (size.toNat + offset.toInt) ∧ (size.toNat + offset.toInt) < 2 ^ 31 then _ ∧ _
    else _ ∧ _) ↔ (¬ _ ∧ _)
  by_cases inside : 0 ≤ (size.toNat + offset.toInt) ∧ (size.toNat + offset.toInt) < 2 ^ 31
  · rw [if_pos inside]
    constructor
    · intro fails
      exact absurd fails.2 (Int32.not_le.mpr einval_neg)
    · intro holds
      exact absurd inside holds.1
  · rw [if_neg inside, ← sum, ← same]
    constructor
    · intro stays
      exact ⟨inside, stays.1⟩
    · intro stays
      exact ⟨stays.2, einval_neg⟩

theorem seekBody_iff :
    Seeks pos (seekTarget pos size offset whence) (seekBody pos size offset whence) ↔
      SeekCond pos size offset whence := by
  by_cases isSet : whence = seekSet
  · rw [isSet]
    exact seekBody_set
  · by_cases isCur : whence = seekCur
    · rw [isCur]
      exact seekBody_cur
    · by_cases isEnd : whence = seekEnd
      · rw [isEnd]
        exact seekBody_end
      · rw [seekTarget, seekBody, SeekCond]
        simp only [if_neg isSet, if_neg isCur, if_neg isEnd]
        constructor
        · intro _
          trivial
        · intro _
          exact ⟨rfl, einval_neg⟩

/-- Both functions seek as they should just on these inputs, and agree on all. -/
theorem seek_iff (pos size : UInt32) (offset whence : Int32) :
    (Seeks pos (seekTarget pos size offset whence) (fat16Seek pos size offset whence) ∧
        Seeks pos (seekTarget pos size offset whence) (ext2Seek pos size offset whence) ∧
        fat16Seek pos size offset whence = ext2Seek pos size offset whence) ↔
      SeekCond pos size offset whence := by
  rw [fat16Seek, ext2Seek, seekBody_iff]
  constructor
  · intro holds
    exact holds.1
  · intro holds
    exact ⟨holds, holds, rfl⟩

/-- Seeking to position 16 from the beginning fails, and seeking to the end fails after it has
moved. -/
theorem seek_fails :
    ¬ Seeks 0 (seekTarget 0 100 16 seekCur) (fat16Seek 0 100 16 seekCur) ∧
      ¬ Seeks 0 (seekTarget 0 100 0 seekEnd) (fat16Seek 0 100 0 seekEnd) := by
  constructor
  · intro seeks
    have found : _ ∧ 0 ≤ eoverflow := seeks
    exact absurd found.2 (Int32.not_le.mpr eoverflow_neg)
  · intro seeks
    have found : _ ∧ 0 ≤ einval := seeks
    exact absurd found.2 (Int32.not_le.mpr einval_neg)

end CleanOS.Fs
