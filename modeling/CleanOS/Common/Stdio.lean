import CleanOS.Common.CString
import Mathlib.Data.Nat.Digits.Defs
import Mathlib.Algebra.GroupWithZero.Nat
import Mathlib.Algebra.Group.Int.Defs

/-!
# Printing digits

`itoa` of `common/lib/stdio.c` and `div_u64_rem` of `common/tool/math.h`, on words of their
widths.  `none` stands for a divide instruction that faults, for a byte that is written outside
the memory, and for recursion that is deeper than the fuel.
-/

namespace CleanOS.Common.Stdio

open CleanOS.Lib.Decimal

/-- The conversion of an integer to `uint64_t`. -/
def toU64 (n : Int) : UInt64 :=
  UInt64.ofNat (n % 2 ^ 64).toNat

/-- `divl`, which divides `high:low` and faults when the quotient is no 32-bit number. -/
def divl (low high divisor : UInt32) : Option (UInt32 × UInt32) :=
  if divisor ≤ high then none
  else
    let dividend := high.toNat * 2 ^ 32 + low.toNat
    some (UInt32.ofNat (dividend / divisor.toNat), UInt32.ofNat (dividend % divisor.toNat))

/-- `div_u64_rem`, as the quotient and the remainder. -/
def divU64Rem (dividend : UInt64) (divisor : UInt32) : Option (UInt64 × UInt32) := do
  let low := UInt32.ofNat dividend.toNat
  let upper := UInt32.ofNat (dividend.toNat / 2 ^ 32)
  let high := if divisor ≤ upper then upper / divisor else 0
  let upper := if divisor ≤ upper then upper % divisor else upper
  let (low, remainder) ← divl low upper divisor
  return (UInt64.ofNat (high.toNat * 2 ^ 32 + low.toNat), remainder)

/-- `itoa`: the memory and the pointer after it. -/
def itoa : Nat → List UInt8 → Nat → UInt64 → UInt32 → Option (List UInt8 × Nat)
  | 0, _, _, _, _ => none
  | fuel + 1, mem, ptr, value, base => do
      let (i, m) ← divU64Rem value base
      let (mem, ptr) ← if i ≠ 0 then itoa fuel mem ptr i base else some (mem, ptr)
      let mem ← memcpy mem ptr [if m < 10 then m.toUInt8 + 48 else m.toUInt8 - 10 + 65]
      return (mem, ptr + 1)

def canonicalDigits (base n : Nat) : List Nat :=
  if n = 0 then [0] else (Nat.digits base n).reverse

def numeral (base n : Nat) : List UInt8 :=
  (canonicalDigits base n).map digitChar

def append (mem : List UInt8) (ptr : Nat) (text : List UInt8) : Option (List UInt8 × Nat) :=
  (memcpy mem ptr text).map fun mem => (mem, ptr + text.length)

theorem toU64_toNat (n : Int) : (toU64 n).toNat = (n % 2 ^ 64).toNat := by
  rw [toU64]
  apply UInt64.toNat_ofNat_of_lt'
  rw [UInt64.size]
  omega

theorem divl_eq {low high divisor : UInt32} (below : high < divisor) :
    ∃ quotient remainder, divl low high divisor = some (quotient, remainder) ∧
      quotient.toNat = (high.toNat * 2 ^ 32 + low.toNat) / divisor.toNat ∧
      remainder.toNat = (high.toNat * 2 ^ 32 + low.toNat) % divisor.toNat := by
  have small := UInt32.lt_iff_toNat_lt.mp below
  have lowSmall := low.toNat_lt
  have divisorSmall := divisor.toNat_lt
  have quotientSmall : (high.toNat * 2 ^ 32 + low.toNat) / divisor.toNat < UInt32.size := by
    apply (Nat.div_lt_iff_lt_mul (Nat.zero_lt_of_lt small)).mpr
    rw [UInt32.size] at *
    omega
  have remainderSmall := Nat.mod_lt (high.toNat * 2 ^ 32 + low.toNat) (Nat.zero_lt_of_lt small)
  refine ⟨_, _, if_neg (UInt32.not_le.mpr below), ?_, ?_⟩
  · exact UInt32.toNat_ofNat_of_lt' quotientSmall
  · exact UInt32.toNat_ofNat_of_lt' (Nat.lt_trans remainderSmall divisorSmall)

theorem divl_words {n : Nat} {low high upper divisor : UInt32} (small : n < 2 ^ 64)
    (parts : n = (divisor.toNat * high.toNat + upper.toNat) * 2 ^ 32 + low.toNat)
    (below : upper.toNat < divisor.toNat) :
    ∃ quotient remainder, ((divl low upper divisor).bind fun (low, remainder) =>
        some (UInt64.ofNat (high.toNat * 2 ^ 32 + low.toNat), remainder)) =
          some (quotient, remainder) ∧
      quotient.toNat = n / divisor.toNat ∧ remainder.toNat = n % divisor.toNat := by
  have positive := Nat.zero_lt_of_lt below
  obtain ⟨word, remainder, divided, isQuotient, isRemainder⟩ :=
    @divl_eq low _ _ (UInt32.lt_iff_toNat_lt.mpr below)
  have total : n = divisor.toNat * (high.toNat * 2 ^ 32) +
      (upper.toNat * 2 ^ 32 + low.toNat) := by
    rw [parts]
    ring
  have quotient : n / divisor.toNat = high.toNat * 2 ^ 32 + word.toNat := by
    rw [total, Nat.mul_add_div positive, isQuotient]
  have quotientSmall : high.toNat * 2 ^ 32 + word.toNat < UInt64.size := by
    rw [← quotient]
    exact Nat.lt_of_le_of_lt (Nat.div_le_self n divisor.toNat) small
  rw [divided]
  refine ⟨_, remainder, rfl, ?_, ?_⟩
  · rw [quotient]
    exact UInt64.toNat_ofNat_of_lt' quotientSmall
  · rw [isRemainder, total, Nat.mul_add_mod]

theorem divU64Rem_eq (dividend : UInt64) {divisor : UInt32} (positive : 0 < divisor.toNat) :
    ∃ quotient remainder, divU64Rem dividend divisor = some (quotient, remainder) ∧
      quotient.toNat = dividend.toNat / divisor.toNat ∧
      remainder.toNat = dividend.toNat % divisor.toNat := by
  have small := dividend.toNat_lt
  have lowWord : (UInt32.ofNat dividend.toNat).toNat = dividend.toNat % 2 ^ 32 := rfl
  have highWord : (UInt32.ofNat (dividend.toNat / 2 ^ 32)).toNat = dividend.toNat / 2 ^ 32 := by
    apply UInt32.toNat_ofNat_of_lt'
    exact Nat.div_lt_of_lt_mul small
  have parts : dividend.toNat = dividend.toNat / 2 ^ 32 * 2 ^ 32 + dividend.toNat % 2 ^ 32 := by
    omega
  rw [divU64Rem]
  by_cases large : divisor ≤ UInt32.ofNat (dividend.toNat / 2 ^ 32)
  · simp only [if_pos large]
    apply divl_words small
    · rw [UInt32.toNat_div, UInt32.toNat_mod, Nat.div_add_mod, highWord, lowWord]
      exact parts
    · rw [UInt32.toNat_mod]
      exact Nat.mod_lt _ positive
  · simp only [if_neg large]
    apply divl_words small
    · rw [UInt32.toNat_zero, Nat.mul_zero, Nat.zero_add, highWord, lowWord]
      exact parts
    · exact UInt32.lt_iff_toNat_lt.mp (UInt32.not_le.mp large)

theorem canonicalDigits_of_lt {base n : Nat} (small : n < base) :
    canonicalDigits base n = [n] := by
  rw [canonicalDigits]
  split
  · next zero => rw [zero]
  · next nonzero => rw [Nat.digits_of_lt base n nonzero small, List.reverse_singleton]

theorem canonicalDigits_step {base n : Nat} (valid : 1 < base) (more : n / base ≠ 0) :
    canonicalDigits base n = canonicalDigits base (n / base) ++ [n % base] := by
  have nonzero : n ≠ 0 := by
    rintro rfl
    exact more (Nat.zero_div base)
  rw [canonicalDigits, canonicalDigits, if_neg nonzero, if_neg more,
    Nat.digits_eq_cons_digits_div valid nonzero, List.reverse_cons]

theorem append_append {mem front back : List UInt8} {ptr : Nat} :
    ((append mem ptr front).bind fun (mem, ptr) => append mem ptr back) =
      append mem ptr (front ++ back) := by
  have copied := @memcpy_append mem front ptr back
  rw [append, append, ← copied]
  cases memcpy mem ptr front with
  | none => rfl
  | some after =>
      simp only [Option.map_some, Option.bind_some, append, List.length_append, Nat.add_assoc]

theorem digit_byte {m : UInt32} (small : m.toNat < 16) :
    (if m < 10 then m.toUInt8 + 48 else m.toUInt8 - 10 + 65) = digitChar m.toNat := by
  apply UInt8.toNat_inj.mp
  rw [digitChar]
  by_cases decimal : m.toNat < 10
  · have below : m < 10 := UInt32.lt_iff_toNat_lt.mpr decimal
    rw [if_pos below, if_pos decimal, UInt8.toNat_add, UInt32.toNat_toUInt8]
    show (m.toNat % 2 ^ 8 + 48) % 2 ^ 8 = (m.toNat + 48) % 2 ^ 8
    omega
  · have notBelow : ¬ m < 10 := fun below => decimal (UInt32.lt_iff_toNat_lt.mp below)
    rw [if_neg notBelow, if_neg decimal, UInt8.toNat_add, UInt8.toNat_sub, UInt32.toNat_toUInt8]
    show ((2 ^ 8 - 10 + m.toNat % 2 ^ 8) % 2 ^ 8 + 65) % 2 ^ 8 = (m.toNat - 10 + 65) % 2 ^ 8
    omega

theorem itoa_eq {base : UInt32} (low : 2 ≤ base.toNat) (high : base.toNat ≤ 16) {fuel : Nat}
    (value : UInt64) (enough : value.toNat < 2 ^ fuel) (positive : 0 < fuel)
    (mem : List UInt8) (ptr : Nat) :
    itoa fuel mem ptr value base = append mem ptr (numeral base.toNat value.toNat) := by
  induction fuel generalizing value mem ptr with
  | zero => cases positive
  | succ fuel ih =>
      obtain ⟨i, m, divided, isQuotient, isRemainder⟩ :=
        divU64Rem_eq value (Nat.lt_of_lt_of_le Nat.two_pos low)
      have digitSmall : m.toNat < 16 := by
        rw [isRemainder]
        exact Nat.lt_of_lt_of_le (Nat.mod_lt _ (Nat.lt_of_lt_of_le Nat.two_pos low)) high
      have last : ∀ mem ptr, ((memcpy mem ptr
          [if m < 10 then m.toUInt8 + 48 else m.toUInt8 - 10 + 65]).bind fun mem =>
            some (mem, ptr + 1)) = append mem ptr [digitChar (value.toNat % base.toNat)] := by
        intro mem ptr
        rw [digit_byte digitSmall, isRemainder, append, Option.map_eq_bind]
        rfl
      rw [itoa]
      simp only [divided, Option.bind_eq_bind, Option.bind_some, Option.pure_def, last]
      by_cases more : i = 0
      · have single : value.toNat < base.toNat := by
          rw [more] at isQuotient
          exact (Nat.div_eq_zero_iff_lt (Nat.lt_of_lt_of_le Nat.two_pos low)).mp isQuotient.symm
        rw [if_neg (not_not_intro more), numeral, canonicalDigits_of_lt single,
          Nat.mod_eq_of_lt single]
        rfl
      · have nonzero : value.toNat / base.toNat ≠ 0 := by
          rw [← isQuotient]
          exact fun zero => more (UInt64.toNat_inj.mp zero)
        have half : i.toNat < 2 ^ fuel := by
          have bound : value.toNat / base.toNat ≤ value.toNat / 2 :=
            Nat.div_le_div_left low Nat.two_pos
          rw [pow_succ] at enough
          omega
        have fuelLeft : 0 < fuel := by
          by_contra none
          rw [Nat.eq_zero_of_not_pos none, pow_zero] at half
          exact more (UInt64.toNat_inj.mp (Nat.lt_one_iff.mp half))
        rw [if_pos more, ih i half fuelLeft, isQuotient, append_append, numeral, numeral,
          canonicalDigits_step low nonzero, List.map_append]
        rfl

/-- `itoa` returns for every 64-bit number, and appends its digits in the base. -/
theorem itoa_numeral :
    (∀ (dividend : UInt64) (divisor : UInt32), 1 ≤ divisor.toNat →
      ∃ quotient remainder, divU64Rem dividend divisor = some (quotient, remainder) ∧
        quotient.toNat = dividend.toNat / divisor.toNat ∧
        remainder.toNat = dividend.toNat % divisor.toNat) ∧
    ∀ (value : UInt64) (base : UInt32), 2 ≤ base.toNat → base.toNat ≤ 16 →
      ∀ fuel, 64 ≤ fuel → ∀ mem ptr,
        itoa fuel mem ptr value base = append mem ptr (numeral base.toNat value.toNat) := by
  refine ⟨fun dividend divisor positive => divU64Rem_eq dividend positive, ?_⟩
  intro value base low high fuel enough mem ptr
  have small : value.toNat < 2 ^ fuel :=
    Nat.lt_of_lt_of_le value.toNat_lt (Nat.pow_le_pow_right Nat.two_pos enough)
  exact itoa_eq low high value small (Nat.lt_of_lt_of_le (Nat.succ_pos 63) enough) mem ptr

theorem itoa_numeral_max :
    (∃ quotient remainder, divU64Rem 0xffffffffffffffff 10 = some (quotient, remainder) ∧
      quotient.toNat = (0xffffffffffffffff : UInt64).toNat / (10 : UInt32).toNat ∧
      remainder.toNat = (0xffffffffffffffff : UInt64).toNat % (10 : UInt32).toNat) ∧
    itoa 64 (List.replicate 20 0) 1 0xffffffffffffffff 16 =
      append (List.replicate 20 0) 1
        (numeral (16 : UInt32).toNat (0xffffffffffffffff : UInt64).toNat) := by
  constructor
  · exact itoa_numeral.1 0xffffffffffffffff 10 (by decide)
  · exact itoa_numeral.2 0xffffffffffffffff 16 (by decide) (by decide) 64 (Nat.le_refl 64) _ 1

end CleanOS.Common.Stdio
