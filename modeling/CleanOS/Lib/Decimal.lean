import Mathlib.Data.List.Basic
import Mathlib.Data.List.Induction
import Mathlib.Tactic.Ring

/-!
# Decimal texts

Strings of decimal digits as bytes, and the numbers they denote.
-/

namespace CleanOS.Lib.Decimal

def IsDigit (c : UInt8) : Prop :=
  48 ≤ c.toNat ∧ c.toNat ≤ 57

instance (c : UInt8) : Decidable (IsDigit c) :=
  inferInstanceAs (Decidable (_ ∧ _))

def digit (c : UInt8) : Nat :=
  c.toNat - 48

def value (text : List UInt8) : Nat :=
  text.foldl (fun acc c => 10 * acc + digit c) 0

/-- At least one digit, and nothing else. -/
structure IsNumber (text : List UInt8) : Prop where
  nonempty : text ≠ []
  digits : ∀ c ∈ text, IsDigit c

/-- The text of a number that has no needless zero in front. -/
structure Canonical (n : Nat) (text : List UInt8) : Prop where
  isNumber : IsNumber text
  denotes : value text = n
  leading : text.head? = some 48 → text = [48]

variable {c : UInt8} {text : List UInt8} {n : Nat}

@[simp] theorem value_nil : value [] = 0 :=
  rfl

@[simp] theorem value_append_digit : value (text ++ [c]) = 10 * value text + digit c :=
  List.foldl_concat _ _ _ _

theorem value_cons : value (c :: text) = digit c * 10 ^ text.length + value text := by
  induction text using List.reverseRecOn with
  | nil =>
      show 10 * 0 + digit c = _
      simp
  | append_singleton text last ih =>
      rw [← List.cons_append, value_append_digit, value_append_digit, ih, List.length_append,
        List.length_singleton, pow_succ]
      ring

theorem IsNumber.append_digit (isNumber : IsNumber text) (isDigit : IsDigit c) :
    IsNumber (text ++ [c]) := by
  constructor
  · exact List.append_ne_nil_of_left_ne_nil isNumber.nonempty _
  · intro d member
    rcases List.mem_append.mp member with inText | isLast
    · exact isNumber.digits d inText
    · exact List.mem_singleton.mp isLast ▸ isDigit

theorem IsNumber.singleton (isDigit : IsDigit c) : IsNumber [c] := by
  constructor
  · exact List.cons_ne_nil _ _
  · intro d member
    exact List.mem_singleton.mp member ▸ isDigit

theorem Canonical.append_digit (canonical : Canonical n text) (isDigit : IsDigit c)
    (positive : 0 < n) : Canonical (10 * n + digit c) (text ++ [c]) := by
  constructor
  · exact canonical.isNumber.append_digit isDigit
  · rw [value_append_digit, canonical.denotes]
  · intro zero
    obtain ⟨first, rest, rfl⟩ := List.exists_cons_of_ne_nil canonical.isNumber.nonempty
    have noDigits : value (first :: rest) = 0 := by
      rw [canonical.leading zero]
      rfl
    rw [canonical.denotes] at noDigits
    omega

theorem Canonical.singleton (isDigit : IsDigit c) : Canonical (digit c) [c] := by
  constructor
  · exact IsNumber.singleton isDigit
  · show 10 * 0 + digit c = digit c
    omega
  · intro zero
    rw [Option.some.inj zero]

theorem value_lt (digits : ∀ c ∈ text, IsDigit c) : value text < 10 ^ text.length := by
  induction text using List.reverseRecOn with
  | nil => exact Nat.one_pos
  | append_singleton text last ih =>
      have below := ih fun c member => digits c (List.mem_append_left _ member)
      have isDigit := digits last (List.mem_append_right _ List.mem_cons_self)
      have small : digit last ≤ 9 := Nat.sub_le_of_le_add isDigit.right
      rw [value_append_digit, List.length_append, List.length_singleton, pow_succ]
      omega

theorem Canonical.length_bounds (canonical : Canonical n text) :
    n < 10 ^ text.length ∧ (1 < text.length → 10 ^ (text.length - 1) ≤ n) := by
  have below := value_lt canonical.isNumber.digits
  rw [canonical.denotes] at below
  refine ⟨below, ?_⟩
  intro several
  obtain ⟨first, rest, rfl⟩ := List.exists_cons_of_ne_nil canonical.isNumber.nonempty
  have isDigit := canonical.isNumber.digits first List.mem_cons_self
  have nonzero : first ≠ 48 := by
    rintro rfl
    rw [canonical.leading rfl] at several
    exact absurd several (by decide)
  have positive : 1 ≤ digit first := by
    have above : first.toNat ≠ 48 := fun same => nonzero (UInt8.toNat_inj.mp same)
    have low := isDigit.left
    rw [digit]
    omega
  have denotes := canonical.denotes
  rw [value_cons] at denotes
  rw [← denotes, List.length_cons, Nat.add_sub_cancel]
  exact Nat.le_add_right_of_le (Nat.le_mul_of_pos_left _ positive)

end CleanOS.Lib.Decimal
