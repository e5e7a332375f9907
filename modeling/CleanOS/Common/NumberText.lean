import CleanOS.Common.Stdio
import Mathlib.Data.List.GetD

/-!
# Numbers as texts

`strreverse` and `num2str` of `common/lib/string.c`, and what `str2num` of the same file makes of
any string.  An `int` is wrapped to 32 bits where the source multiplies it by minus one.
-/

namespace CleanOS.Common

open CleanOS.Lib.Decimal Stdio

/-- `strreverse`, which exchanges characters from both ends. -/
def strreverse (str : List UInt8) (size : Nat) : List UInt8 :=
  (List.range (size / 2)).foldl
    (fun str i => (str.set i (str.getD (size - 1 - i) 0)).set (size - 1 - i) (str.getD i 0)) str

/-- The loop of `num2str`, with the room that is left in `buf`. -/
def num2strLoop : Nat → Int → Option (List UInt8)
  | 0, number => if 0 < number then none else some []
  | room + 1, number =>
      if 0 < number then do
        let buf ← num2strLoop room (number / 10)
        return (number % 10 + 48).toNat.toUInt8 :: buf
      else some []

/-- `num2str`. -/
def num2str (num : Int32) (mem : List UInt8) (str : Nat) : Option (List UInt8) := do
  let number := num.toInt
  let (mem, str, number) ←
    if number < 0 then
      (memcpy mem str [45]).map fun mem => (mem, str + 1, (-number).bmod (2 ^ 32))
    else some (mem, str, number)
  let buf ← num2strLoop 64 number
  memcpy mem str (strreverse buf buf.length)

def decimalText (n : Int) : List UInt8 :=
  (if n < 0 then [45] else []) ++ numeral 10 n.natAbs

/-- The bits of an `int`. -/
def bitsOf (n : Int) : UInt32 :=
  UInt32.ofNat (n % 2 ^ 32).toNat

/-- A text of digits, perhaps behind a minus sign, and its number. -/
inductive DenotesInt : List UInt8 → Int → Prop where
  | unsigned {digits : List UInt8} : IsNumber digits → DenotesInt digits (value digits)
  | negative {digits : List UInt8} :
      IsNumber digits → DenotesInt (45 :: digits) (-(value digits : Int))

def zeros (size : Nat) : List UInt8 :=
  List.replicate size 0

def PrintsRight (n : Int32) : Prop :=
  ∀ front back size, 12 ≤ size →
    let text := decimalText n.toInt
    let after := front ++ text ++ (zeros (size - text.length) ++ back)
    num2str n (front ++ zeros size ++ back) front.length = some after ∧
      ∀ num, str2num after front.length num = some (0, bitsOf n.toInt)

/-- A string that denotes an `int` is read as it, and another one is not read. -/
def ReadsRight (s : CText) : Prop :=
  ∀ front back num,
    let answer := str2num (front ++ s.chars ++ 0 :: back) front.length num
    (∀ n : Int32, DenotesInt s.chars n.toInt → answer = some (0, bitsOf n.toInt)) ∧
      ((¬ ∃ n : Int32, DenotesInt s.chars n.toInt) → answer = some (-1, num))

/-! ## Reversing -/

section Reverse

variable {str : List UInt8}

theorem exchange_getD {k : Nat} (half : k ≤ str.length / 2) :
    let after := (List.range k).foldl (fun after i =>
      (after.set i (after.getD (str.length - 1 - i) 0)).set (str.length - 1 - i)
        (after.getD i 0)) str
    after.length = str.length ∧ ∀ j < str.length, after.getD j 0 =
      str.getD (if j < k ∨ str.length - k ≤ j then str.length - 1 - j else j) 0 := by
  induction k with
  | zero =>
      refine ⟨rfl, fun j inside => ?_⟩
      rw [if_neg (by omega)]
      rfl
  | succ k ih =>
      obtain ⟨length, places⟩ := ih (by omega)
      rw [List.range_succ, List.foldl_append]
      dsimp only [List.foldl_cons, List.foldl_nil]
      generalize (List.range k).foldl (fun after i =>
        (after.set i (after.getD (str.length - 1 - i) 0)).set (str.length - 1 - i)
          (after.getD i 0)) str = before at length places ⊢
      constructor
      · rw [List.length_set, List.length_set, length]
      · intro j inside
        have atFront := places k (by omega)
        have atBack := places (str.length - 1 - k) (by omega)
        rw [if_neg (by omega)] at atFront atBack
        rw [List.getD_eq_getElem?_getD, List.getElem?_set, List.getElem?_set, List.length_set,
          length]
        by_cases isBack : str.length - 1 - k = j
        · rw [if_pos isBack, if_pos (by omega), Option.getD_some, atFront, if_pos (by omega)]
          congr 1
          omega
        · rw [if_neg isBack]
          by_cases isFront : k = j
          · rw [if_pos isFront, if_pos (by omega), Option.getD_some, atBack, if_pos (by omega),
              isFront]
          · rw [if_neg isFront, ← List.getD_eq_getElem?_getD, places j inside]
            congr 1
            split_ifs <;> omega

theorem strreverse_eq (str : List UInt8) : strreverse str str.length = str.reverse := by
  obtain ⟨length, places⟩ := @exchange_getD str _ (Nat.le_refl _)
  rw [strreverse]
  apply List.ext_getElem (length.trans List.length_reverse.symm)
  intro j inside _
  rw [length] at inside
  have place := places j inside
  rw [List.getD_eq_getElem _ _ (length.symm ▸ inside)] at place
  rw [place, List.getElem_reverse, ← List.getD_eq_getElem _ 0]
  congr 1
  split_ifs <;> omega

end Reverse

/-! ## Printing -/

section Printing

variable {mem front back text : List UInt8} {size : Nat}

theorem itoa_eq_numeral (valid : 1 < base) (n : Nat) : itoa base valid n = numeral base n := by
  induction n using Nat.strong_induction_on with
  | _ n ih =>
      rw [itoa]
      split
      · next more =>
          have nonzero : n ≠ 0 := by
            rintro rfl
            exact more (Nat.zero_div base)
          rw [ih (n / base) (Nat.div_lt_self (Nat.pos_of_ne_zero nonzero) valid), numeral, numeral,
            canonicalDigits_step valid more, List.map_append]
          rfl
      · next single =>
          have small := (Nat.div_eq_zero_iff_lt (Nat.zero_lt_of_lt valid)).mp
            (Decidable.not_not.mp single)
          rw [numeral, canonicalDigits_of_lt small, Nat.mod_eq_of_lt small]
          rfl

theorem numeral_canonical (n : Nat) : Canonical n (numeral 10 n) := by
  have valid : 1 < 10 := Nat.lt_add_left 8 Nat.one_lt_two
  rw [← itoa_eq_numeral valid]
  exact itoa_canonical n valid

theorem num2strLoop_eq {room number : Nat} (small : number < 10 ^ room) :
    num2strLoop room number = some ((Nat.digits 10 number).map digitChar) := by
  induction room generalizing number with
  | zero =>
      rw [Nat.lt_one_iff.mp small]
      rfl
  | succ room ih =>
      rw [num2strLoop]
      by_cases positive : number = 0
      · rw [positive]
        rfl
      · have nonneg : 0 < (number : Int) := by omega
        have digit : ((number : Int) % 10 + 48).toNat.toUInt8 = digitChar (number % 10) := by
          rw [digitChar, if_pos (Nat.mod_lt number (Nat.succ_pos 9))]
          congr 1
        have quotient : (number : Int) / 10 = ((number / 10 : Nat) : Int) := rfl
        have shorter : number / 10 < 10 ^ room := by
          rw [pow_succ] at small
          omega
        rw [if_pos nonneg, digit, quotient, ih shorter,
          Nat.digits_eq_cons_digits_div (Nat.lt_add_left 8 Nat.one_lt_two) positive]
        rfl

/-- The number that the loop of `num2str` prints: nothing at zero, and at the least `int`, which
is its own negation. -/
def printedNumber (n : Int) : Int :=
  if n < 0 then (-n).bmod (2 ^ 32) else n

/-- The characters that `num2str` writes. -/
def printedText (n : Int) : List UInt8 :=
  (if n < 0 then [45] else []) ++ (Nat.digits 10 (printedNumber n).toNat).reverse.map digitChar

theorem num2str_eq (n : Int32) (str : Nat) :
    num2str n mem str = memcpy mem str (printedText n.toInt) := by
  have low := n.le_toInt
  have high := n.toInt_lt
  have small : (printedNumber n.toInt).toNat < 10 ^ 64 := by
    have bound := @Int.bmod_le (-n.toInt) (2 ^ 32) (by omega)
    rw [printedNumber]
    split
    · omega
    · omega
  have loop : num2strLoop 64 (printedNumber n.toInt) =
      some ((Nat.digits 10 (printedNumber n.toInt).toNat).map digitChar) := by
    by_cases positive : 0 < printedNumber n.toInt
    · have cast : (((printedNumber n.toInt).toNat : Nat) : Int) = printedNumber n.toInt :=
        Int.toNat_of_nonneg (Int.le_of_lt positive)
      rw [← num2strLoop_eq small, cast]
    · have none : (printedNumber n.toInt).toNat = 0 :=
        Int.toNat_eq_zero.mpr (Int.not_lt.mp positive)
      rw [num2strLoop, if_neg positive, none]
      rfl
  rw [num2str, printedText]
  by_cases negative : n.toInt < 0
  · have step : (-n.toInt).bmod (2 ^ 32) = printedNumber n.toInt := (if_pos negative).symm
    simp only [if_pos negative, step, ← memcpy_append, Option.bind_eq_bind, Option.bind_map,
      Function.comp_def, loop, Option.bind_some, strreverse_eq, List.map_reverse]
    rfl
  · have step : printedNumber n.toInt = n.toInt := if_neg negative
    rw [step] at loop ⊢
    simp only [if_neg negative, Option.bind_eq_bind, Option.bind_some, loop, strreverse_eq,
      List.map_reverse, List.nil_append]

/-- The text is right but for zero, of which nothing is printed, and for the least `int`, of
which only the sign is. -/
theorem printedText_eq_iff (n : Int32) :
    printedText n.toInt = decimalText n.toInt ↔ n.toInt ≠ 0 ∧ n.toInt ≠ -2 ^ 31 := by
  have low := n.le_toInt
  have high := n.toInt_lt
  have isText (m : Nat) : numeral 10 m ≠ [] := (numeral_canonical m).isNumber.nonempty
  rw [printedText, decimalText, List.append_cancel_left_eq]
  constructor
  · intro same
    constructor
    · intro zero
      rw [zero] at same
      exact isText 0 same.symm
    · intro least
      rw [least] at same
      exact isText _ same.symm
  · rintro ⟨nonzero, notLeast⟩
    have magnitude : (printedNumber n.toInt).toNat = n.toInt.natAbs := by
      rw [printedNumber]
      split
      · rw [Int.bmod_eq_of_le (by omega) (by omega)]
        omega
      · omega
    rw [magnitude, numeral, canonicalDigits, if_neg (Int.natAbs_ne_zero.mpr nonzero)]

theorem memcpy_zeros (room : text.length ≤ size) :
    memcpy (front ++ zeros size ++ back) front.length text =
      some (front ++ text ++ (zeros (size - text.length) ++ back)) := by
  have length : (front ++ zeros size ++ back).length = front.length + size + back.length := by
    rw [List.length_append, List.length_append, zeros, List.length_replicate]
  rw [memcpy_isSome (by omega), List.append_assoc front, List.take_left, List.drop_append,
    Nat.add_sub_cancel_left, List.drop_of_length_le (Nat.le_add_right _ _), List.nil_append,
    List.drop_append, zeros, List.length_replicate, List.drop_replicate,
    Nat.sub_eq_zero_of_le room, List.drop_zero]
  rfl

theorem decimalText_length {n : Int} (small : n.natAbs < 2 ^ 31 + 1) :
    (decimalText n).length ≤ 11 := by
  have bounds := (numeral_canonical n.natAbs).length_bounds.2
  have digits : (numeral 10 n.natAbs).length ≤ 10 := by
    by_contra long
    have few := bounds (by omega)
    have many : 10 ^ 10 ≤ 10 ^ ((numeral 10 n.natAbs).length - 1) :=
      Nat.pow_le_pow_right (Nat.succ_pos 9) (by omega)
    omega
  rw [decimalText, List.length_append]
  split
  · rw [List.length_singleton]
    omega
  · rw [List.length_nil]
    omega

end Printing

/-! ## Reading -/

section Reading

variable {front back digits text : List UInt8} {num : UInt32}

theorem not_isDigit_minus : ¬ IsDigit 45 := by
  decide

theorem str2numLoop_none {chars : List UInt8} (other : ∃ c ∈ chars, ¬ IsDigit c) (j : Nat)
    (ret : UInt32) : str2numLoop chars j ret = none := by
  induction chars generalizing j ret with
  | nil =>
      obtain ⟨c, member, -⟩ := other
      exact absurd member List.not_mem_nil
  | cons ch chars ih =>
      rw [str2numLoop]
      by_cases isDigit : IsDigit ch
      · rw [if_neg (digit_inside isDigit)]
        apply ih
        obtain ⟨c, member, notDigit⟩ := other
        rcases List.mem_cons.mp member with rfl | later
        · exact absurd isDigit notDigit
        · exact ⟨c, later, notDigit⟩
      · rw [if_pos]
        by_contra inside
        obtain ⟨low, high⟩ := not_or.mp inside
        exact isDigit ⟨UInt8.not_lt.mp low, UInt8.not_lt.mp high⟩

theorem all_isDigit : (digits.all fun c => decide (IsDigit c)) = true ↔ ∀ c ∈ digits, IsDigit c := by
  simp only [List.all_eq_true, decide_eq_true_iff]

theorem str2num_eq (noNul : 0 ∉ text) :
    str2num (front ++ text ++ 0 :: back) front.length num =
      if text = [] then some (-1, num)
      else
        let digits := if text.head? = some 45 then text.tail else text
        if digits.all fun c => decide (IsDigit c) then
          some (0, if text.head? = some 45 then 0 - UInt32.ofNat (value digits)
            else UInt32.ofNat (value digits))
        else some (-1, num) := by
  have chars : ((front ++ text ++ 0 :: back).drop front.length).take text.length = text := by
    rw [List.append_assoc, List.drop_left, List.take_left]
  rw [str2num, strlen_text noNul]
  by_cases empty : text = []
  · simp only [empty, List.length_nil, Option.bind_eq_bind, Option.bind_some]
    rfl
  · have positive : ¬ text.length < 1 := by
      have := List.length_pos_of_ne_nil empty
      omega
    simp only [Option.bind_eq_bind, Option.bind_some, if_neg positive, if_neg empty, chars]
    generalize (if text.head? = some 45 then text.tail else text) = digits
    by_cases isDigits : ∀ c ∈ digits, IsDigit c
    · simp only [str2numLoop_eq isDigits, if_pos (all_isDigit.mpr isDigits), pow_zero, Nat.mul_one,
        UInt32.zero_add]
    · have other : ∃ c ∈ digits.reverse, ¬ IsDigit c := by
        obtain ⟨c, found⟩ := not_forall.mp isDigits
        obtain ⟨member, notDigit⟩ := Classical.not_imp.mp found
        exact ⟨c, List.mem_reverse.mpr member, notDigit⟩
      simp only [str2numLoop_none other, if_neg (mt all_isDigit.mp isDigits)]

theorem bitsOf_nat (n : Nat) : UInt32.ofNat n = bitsOf n := by
  apply UInt32.toNat_inj.mp
  rw [bitsOf, UInt32.toNat_ofNat', UInt32.toNat_ofNat']
  omega

theorem bitsOf_neg (n : Nat) : 0 - UInt32.ofNat n = bitsOf (-n) := by
  apply UInt32.toNat_inj.mp
  rw [bitsOf, UInt32.toNat_sub, UInt32.toNat_ofNat', UInt32.toNat_ofNat', UInt32.toNat_zero]
  omega

theorem str2num_denotes {n : Int} (noNul : 0 ∉ text) (denotes : DenotesInt text n) :
    str2num (front ++ text ++ 0 :: back) front.length num = some (0, bitsOf n) := by
  rw [str2num_eq noNul]
  cases denotes with
  | unsigned isNumber =>
      have notMinus : text.head? ≠ some 45 := by
        intro minus
        exact not_isDigit_minus (isNumber.digits 45 (List.mem_of_head? minus))
      simp only [if_neg isNumber.nonempty, if_neg notMinus,
        if_pos (all_isDigit.mpr isNumber.digits), bitsOf_nat]
  | negative isNumber =>
      simp only [if_neg (List.cons_ne_nil _ _), List.head?_cons, if_true, List.tail_cons,
        if_pos (all_isDigit.mpr isNumber.digits), bitsOf_neg]

theorem str2num_other (noNul : 0 ∉ text) (other : ¬ ∃ n, DenotesInt text n) :
    str2num (front ++ text ++ 0 :: back) front.length num =
      some (if text = [45] then (0, 0) else (-1, num)) := by
  rw [str2num_eq noNul]
  by_cases empty : text = []
  · rw [if_pos empty, empty]
    rfl
  · rw [if_neg empty]
    obtain ⟨first, rest, rfl⟩ := List.exists_cons_of_ne_nil empty
    simp only [List.head?_cons, Option.some.injEq, List.tail_cons]
    by_cases minus : first = 45
    · subst minus
      simp only [if_true]
      by_cases lone : rest = []
      · subst lone
        rw [if_pos List.all_nil, if_pos rfl]
        rfl
      · have notDigits : ¬ ∀ c ∈ rest, IsDigit c := by
          intro isDigits
          exact other ⟨_, .negative ⟨lone, isDigits⟩⟩
        have different : 45 :: rest ≠ [45] := by
          intro same
          exact lone (List.cons.inj same).2
        rw [if_neg (mt all_isDigit.mp notDigits), if_neg different]
    · simp only [if_neg minus]
      have notDigits : ¬ ∀ c ∈ first :: rest, IsDigit c := by
        intro isDigits
        exact other ⟨_, .unsigned ⟨List.cons_ne_nil _ _, isDigits⟩⟩
      have different : first :: rest ≠ [45] := by
        intro same
        exact minus (List.cons.inj same).1
      rw [if_neg (mt all_isDigit.mp notDigits), if_neg different]

theorem decimalText_denotes (n : Int) : DenotesInt (decimalText n) n := by
  have canonical := numeral_canonical n.natAbs
  rw [decimalText]
  by_cases negative : n < 0
  · have denoted := DenotesInt.negative canonical.isNumber
    rw [canonical.denotes] at denoted
    have same : -(n.natAbs : Int) = n := by
      omega
    rw [same] at denoted
    rwa [if_pos negative, List.singleton_append]
  · have denoted := DenotesInt.unsigned canonical.isNumber
    rw [canonical.denotes] at denoted
    have same : (n.natAbs : Int) = n := by
      omega
    rw [same] at denoted
    rwa [if_neg negative, List.nil_append]

theorem DenotesInt.noNul {n : Int} (denotes : DenotesInt text n) : 0 ∉ text := by
  have noZero : ¬ IsDigit 0 := by
    decide
  intro member
  cases denotes with
  | unsigned isNumber => exact noZero (isNumber.digits 0 member)
  | negative isNumber =>
      rcases List.mem_cons.mp member with minus | inDigits
      · exact absurd minus (by decide)
      · exact noZero (isNumber.digits 0 inDigits)

theorem not_denotesInt_minus : ¬ ∃ n, DenotesInt [45] n := by
  rintro ⟨n, denotes⟩
  cases denotes with
  | unsigned isNumber => exact not_isDigit_minus (isNumber.digits 45 List.mem_cons_self)
  | negative isNumber => exact isNumber.nonempty rfl

theorem DenotesInt.unique {n other : Int} (denotes : DenotesInt text n)
    (again : DenotesInt text other) : n = other := by
  cases denotes with
  | unsigned isNumber =>
      cases again with
      | unsigned _ => rfl
      | negative _ => exact absurd (isNumber.digits 45 List.mem_cons_self) not_isDigit_minus
  | negative isNumber =>
      cases again with
      | unsigned minus => exact absurd (minus.digits 45 List.mem_cons_self) not_isDigit_minus
      | negative _ => rfl

end Reading

/-! ## Both directions -/

theorem printedText_noNul (n : Int) : 0 ∉ printedText n := by
  intro member
  rcases List.mem_append.mp member with sign | inDigits
  · split at sign
    · exact absurd sign (by decide)
    · exact List.not_mem_nil sign
  · obtain ⟨d, isDigit, zero⟩ := List.mem_map.mp inDigits
    have small : d < 10 := Nat.digits_lt_base (Nat.lt_add_left 8 Nat.one_lt_two)
      (List.mem_reverse.mp isDigit)
    have low := (digitChar_isDigit small).1.1
    rw [zero] at low
    exact absurd low (by decide)

theorem zeros_behind {text other : List UInt8} {left otherLeft : Nat} (some : 0 < left)
    (otherSome : 0 < otherLeft) (noNul : 0 ∉ text) (otherNoNul : 0 ∉ other)
    (same : text ++ zeros left = other ++ zeros otherLeft) : text = other := by
  obtain ⟨left, rfl⟩ := Nat.exists_eq_succ_of_ne_zero (Nat.ne_of_gt some)
  obtain ⟨otherLeft, rfl⟩ := Nat.exists_eq_succ_of_ne_zero (Nat.ne_of_gt otherSome)
  rw [zeros, zeros, List.replicate_succ, List.replicate_succ] at same
  have length := @strlen_text [] (List.replicate left 0) text noNul
  have otherLength := @strlen_text [] (List.replicate otherLeft 0) other otherNoNul
  rw [List.nil_append] at length otherLength
  rw [same, otherLength] at length
  exact (List.append_inj same (Option.some.inj length).symm).1

theorem printsRight_iff (n : Int32) :
    PrintsRight n ↔ n.toInt ≠ 0 ∧ n.toInt ≠ -2 ^ 31 := by
  have low := n.le_toInt
  have high := n.toInt_lt
  have short := @decimalText_length n.toInt (by omega)
  rw [← printedText_eq_iff]
  constructor
  · intro right
    have printed := (right [] [] (12 + (printedText n.toInt).length) (Nat.le_add_right 12 _)).1
    have written := @memcpy_zeros [] [] (printedText n.toInt) _ (Nat.le_add_left _ 12)
    rw [num2str_eq, written] at printed
    have same := Option.some.inj printed
    simp only [List.nil_append, List.append_nil] at same
    exact zeros_behind (by omega) (by omega) (printedText_noNul n.toInt)
      (decimalText_denotes n.toInt).noNul same
  · intro same front back size enough
    have room : (decimalText n.toInt).length ≤ size := by
      omega
    refine ⟨?_, fun num => ?_⟩
    · rw [num2str_eq, same]
      exact memcpy_zeros room
    · obtain ⟨left, isLeft⟩ : ∃ left, size - (decimalText n.toInt).length = left + 1 :=
        ⟨size - (decimalText n.toInt).length - 1, by omega⟩
      have denotes := decimalText_denotes n.toInt
      rw [isLeft, zeros, List.replicate_succ, List.cons_append]
      exact str2num_denotes denotes.noNul denotes

/-- Every string is read right that is no lone minus sign and denotes no number that is too large
for an `int`. -/
theorem readsRight_iff (s : CText) :
    ReadsRight s ↔
      s.chars ≠ [45] ∧ ∀ n, DenotesInt s.chars n → -2 ^ 31 ≤ n ∧ n < 2 ^ 31 := by
  constructor
  · intro right
    constructor
    · intro minus
      have answer := (right [] [] 0).2
      rw [minus] at answer
      have none : ¬ ∃ n : Int32, DenotesInt [45] n.toInt := by
        rintro ⟨n, denotes⟩
        exact not_denotesInt_minus ⟨n.toInt, denotes⟩
      have read := answer none
      rw [str2num_other (minus ▸ s.noNul) not_denotesInt_minus, if_pos rfl] at read
      cases read
    · intro n denotes
      by_contra large
      have none : ¬ ∃ n : Int32, DenotesInt s.chars n.toInt := by
        rintro ⟨small, again⟩
        rw [denotes.unique again] at large
        exact large ⟨small.le_toInt, small.toInt_lt⟩
      have read := (right [] [] 0).2 none
      rw [str2num_denotes s.noNul denotes] at read
      cases read
  · rintro ⟨notMinus, fits⟩ front back num
    constructor
    · intro n denotes
      exact str2num_denotes s.noNul denotes
    · intro none
      have other : ¬ ∃ n, DenotesInt s.chars n := by
        rintro ⟨n, denotes⟩
        obtain ⟨low, high⟩ := fits n denotes
        apply none
        refine ⟨Int32.ofInt n, ?_⟩
        rwa [Int32.toInt_ofInt_of_le low high]
      rw [str2num_other s.noNul other, if_neg notMinus]

/-- Numbers are printed right but for zero and the least one, and strings are read right but for
a lone minus sign and the texts of numbers that are too large. -/
theorem numberText_iff (n : Int32) (s : CText) :
    (PrintsRight n ↔ n.toInt ≠ 0 ∧ n.toInt ≠ -2 ^ 31) ∧
      (ReadsRight s ↔
        s.chars ≠ [45] ∧ ∀ n, DenotesInt s.chars n → -2 ^ 31 ≤ n ∧ n < 2 ^ 31) :=
  ⟨printsRight_iff n, readsRight_iff s⟩

/-- A lone minus sign is read, and the number zero is printed as nothing. -/
theorem numberText_fails :
    num2str 0 [0, 0] 0 = some [0, 0] ∧ ¬ PrintsRight 0 ∧
      str2num [45, 0] 0 7 = some (0, 0) ∧ ¬ ReadsRight ⟨[45], by decide⟩ := by
  refine ⟨by decide, ?_, by decide, ?_⟩
  · rw [printsRight_iff]
    exact fun right => right.1 rfl
  · rw [readsRight_iff]
    exact fun right => right.1 rfl

end CleanOS.Common
