import Mathlib.Algebra.BigOperators.Group.List.Basic
import Mathlib.Data.Nat.ModEq

/-!
# One's complement sums

Addition of the numbers up to `top`, the number of all ones, where a carry out of the top
is added back.  There are two representations of zero: zero itself, which only a sum of
zeros has, and `top`.
-/

namespace CleanOS.Lib

def onesAdd (top left right : Nat) : Nat :=
  if left + right ≤ top then left + right else left + right - top

def onesNorm (top number : Nat) : Nat :=
  if number = 0 then 0 else (number - 1) % top + 1

variable {top number left right : Nat}

theorem onesNorm_le (positive : 0 < top) : onesNorm top number ≤ top := by
  unfold onesNorm
  split
  · exact Nat.zero_le top
  · exact Nat.mod_lt _ positive

theorem onesNorm_of_le (small : number ≤ top) : onesNorm top number = number := by
  unfold onesNorm
  split
  next zero => exact zero.symm
  next nonzero =>
    rw [Nat.mod_eq_of_lt (by omega)]
    omega

theorem onesNorm_pos (positive : 0 < number) : 0 < onesNorm top number := by
  rw [onesNorm, if_neg (Nat.ne_of_gt positive)]
  exact Nat.succ_pos _

theorem onesNorm_eq_zero : onesNorm top number = 0 ↔ number = 0 := by
  constructor
  · intro zero
    by_contra nonzero
    exact absurd zero (Nat.ne_of_gt (onesNorm_pos (Nat.pos_of_ne_zero nonzero)))
  · intro zero
    rw [zero]
    rfl

theorem onesNorm_modEq : onesNorm top number ≡ number [MOD top] := by
  unfold onesNorm
  split
  next zero => rw [zero]
  next nonzero =>
    have shift : number - 1 + 1 = number := by omega
    calc (number - 1) % top + 1
      _ ≡ number - 1 + 1 [MOD top] := (Nat.mod_modEq _ _).add_right 1
      _ = number := shift

theorem eq_onesNorm {value : Nat} (positive : 0 < top) (small : value ≤ top)
    (congruent : value ≡ number [MOD top]) (zero : value = 0 ↔ number = 0) :
    value = onesNorm top number := by
  by_cases isZero : number = 0
  · rw [onesNorm, if_pos isZero]
    exact zero.mpr isZero
  · have valuePos : 0 < value := Nat.pos_of_ne_zero fun none => isZero (zero.mp none)
    have normPos := @onesNorm_pos top number (Nat.pos_of_ne_zero isZero)
    have normLe := @onesNorm_le top number positive
    have same : value - 1 ≡ onesNorm top number - 1 [MOD top] := by
      apply Nat.ModEq.add_right_cancel' 1
      rw [Nat.sub_add_cancel valuePos, Nat.sub_add_cancel normPos]
      exact congruent.trans onesNorm_modEq.symm
    have eq := Nat.ModEq.eq_of_lt_of_lt same (by omega) (by omega)
    omega

theorem onesNorm_congr {other : Nat} (positive : 0 < top) (congruent : other ≡ number [MOD top])
    (zero : other = 0 ↔ number = 0) : onesNorm top other = onesNorm top number := by
  apply eq_onesNorm positive (onesNorm_le positive) (onesNorm_modEq.trans congruent)
  rw [onesNorm_eq_zero, zero]

theorem onesNorm_add_left (positive : 0 < top) :
    onesNorm top (onesNorm top left + right) = onesNorm top (left + right) := by
  apply onesNorm_congr positive (onesNorm_modEq.add_right right)
  rw [Nat.add_eq_zero_iff, Nat.add_eq_zero_iff, onesNorm_eq_zero]

theorem onesAdd_eq (leftSmall : left ≤ top) (rightSmall : right ≤ top) :
    onesAdd top left right = onesNorm top (left + right) := by
  unfold onesAdd
  split
  next small => exact (onesNorm_of_le small).symm
  next large =>
    have split : left + right - 1 = (left + right - top - 1) + top := by omega
    rw [onesNorm, if_neg (by omega), split, Nat.add_mod_right, Nat.mod_eq_of_lt (by omega)]
    omega

theorem foldl_onesAdd {numbers : List Nat} {start : Nat} (positive : 0 < top)
    (startSmall : start ≤ top) (small : ∀ number ∈ numbers, number ≤ top) :
    numbers.foldl (onesAdd top) start = onesNorm top (start + numbers.sum) := by
  induction numbers generalizing start with
  | nil => exact (onesNorm_of_le startSmall).symm
  | cons first rest ih =>
      have firstSmall := small first List.mem_cons_self
      have restSmall := fun number member => small number (List.mem_cons_of_mem first member)
      rw [List.foldl_cons, onesAdd_eq startSmall firstSmall,
        ih (onesNorm_le positive) restSmall, onesNorm_add_left positive, List.sum_cons,
        Nat.add_assoc]

theorem onesNorm_complement (positive : 0 < top) :
    onesNorm top (number + (top - onesNorm top number)) = top := by
  have normLe := @onesNorm_le top number positive
  symm
  apply eq_onesNorm positive (Nat.le_refl top)
  · calc top
      _ = onesNorm top number + (top - onesNorm top number) := by omega
      _ ≡ number + (top - onesNorm top number) [MOD top] := onesNorm_modEq.add_right _
  · constructor
    · intro zero
      omega
    · intro zero
      have numberZero : number = 0 := by omega
      have normZero := (@onesNorm_eq_zero top number).mpr numberZero
      omega

end CleanOS.Lib
