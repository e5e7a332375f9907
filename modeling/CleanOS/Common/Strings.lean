import Mathlib.Data.Nat.Find

/-!
# Strings behind pointers

A string of C is the memory from a pointer on, in which some byte is zero.  What lies behind the
first zero is any memory.
-/

namespace CleanOS.Common

/-- A string of C. -/
structure CString where
  bytes : Nat → UInt8
  ends : ∃ size, bytes size = 0

/-- `memcmp`, from a place on. -/
def memcmpFrom (a b : Nat → UInt8) : (size place : Nat) → Int
  | 0, _ => 0
  | size + 1, place =>
      if a place ≠ b place then if b place < a place then 1 else -1
      else memcmpFrom a b size (place + 1)

/-- `memcmp`. -/
def memcmp (a b : Nat → UInt8) (size : Nat) : Int :=
  memcmpFrom a b size 0

variable {a b : Nat → UInt8} {size place : Nat}

theorem memcmpFrom_eq_zero :
    memcmpFrom a b size place = 0 ↔ ∀ pos < size, a (place + pos) = b (place + pos) := by
  induction size generalizing place with
  | zero =>
      constructor
      · intro _ pos inside
        exact absurd inside (Nat.not_lt_zero _)
      · intro _
        rfl
  | succ size ih =>
      rw [memcmpFrom]
      by_cases same : a place = b place
      · rw [if_neg (not_not.mpr same), ih]
        constructor
        · intro later pos inside
          cases pos with
          | zero => exact same
          | succ pos =>
              have found := later pos (Nat.lt_of_succ_lt_succ inside)
              rwa [Nat.add_assoc, Nat.add_comm 1 pos] at found
        · intro all pos inside
          have found := all (pos + 1) (Nat.succ_lt_succ inside)
          rwa [Nat.add_assoc, Nat.add_comm 1 pos]
      · rw [if_pos same]
        constructor
        · intro zero
          split at zero
          · cases zero
          · cases zero
        · intro all
          exact absurd (all 0 (Nat.succ_pos _)) same

theorem memcmp_eq_zero : memcmp a b size = 0 ↔ ∀ pos < size, a pos = b pos := by
  rw [memcmp, memcmpFrom_eq_zero]
  simp only [Nat.zero_add]

namespace CString

variable (str : CString)

/-- `strlen`. -/
def strlen : Nat :=
  Nat.find str.ends

theorem bytes_strlen : str.bytes str.strlen = 0 :=
  Nat.find_spec str.ends

variable {str}

theorem bytes_ne_zero {pos : Nat} (inside : pos < str.strlen) : str.bytes pos ≠ 0 :=
  Nat.find_min str.ends inside

theorem strlen_eq {size : Nat} (ends : str.bytes size = 0)
    (before : ∀ pos < size, str.bytes pos ≠ 0) : str.strlen = size :=
  (Nat.find_eq_iff str.ends).mpr ⟨ends, before⟩

def Same (str other : CString) : Prop :=
  str.strlen = other.strlen ∧ ∀ pos < str.strlen, str.bytes pos = other.bytes pos

theorem memcmp_max_iff {other : CString} :
    memcmp str.bytes other.bytes (max str.strlen other.strlen) = 0 ↔ str.Same other := by
  rw [memcmp_eq_zero]
  constructor
  · intro all
    have sameLength : str.strlen = other.strlen := by
      rcases Nat.lt_trichotomy str.strlen other.strlen with shorter | same | longer
      · have found := all str.strlen (Nat.lt_of_lt_of_le shorter (Nat.le_max_right _ _))
        rw [bytes_strlen] at found
        exact absurd found.symm (bytes_ne_zero shorter)
      · exact same
      · have found := all other.strlen (Nat.lt_of_lt_of_le longer (Nat.le_max_left _ _))
        rw [bytes_strlen] at found
        exact absurd found (bytes_ne_zero longer)
    exact ⟨sameLength, fun pos inside => all pos (Nat.lt_of_lt_of_le inside (Nat.le_max_left _ _))⟩
  · intro same pos inside
    rw [← same.1, Nat.max_self] at inside
    exact same.2 pos inside

def ofChars (chars : List UInt8) : CString where
  bytes := fun pos => chars.getD pos 0
  ends := ⟨chars.length, by
    rw [List.getD_eq_getElem?_getD, List.getElem?_eq_none (Nat.le_refl _)]
    rfl⟩

theorem bytes_ofChars {chars : List UInt8} {pos : Nat} (inside : pos < chars.length) :
    (ofChars chars).bytes pos = chars[pos] := by
  change chars.getD pos 0 = _
  rw [List.getD_eq_getElem?_getD, List.getElem?_eq_getElem inside, Option.getD_some]

theorem strlen_ofChars {chars : List UInt8} (noNul : 0 ∉ chars) :
    (ofChars chars).strlen = chars.length := by
  apply strlen_eq
  · change chars.getD chars.length 0 = 0
    rw [List.getD_eq_getElem?_getD, List.getElem?_eq_none (Nat.le_refl _)]
    rfl
  · intro pos inside isNul
    rw [bytes_ofChars inside] at isNul
    exact noNul (isNul ▸ List.getElem_mem inside)

/-- `strcmp`, which compares as many bytes as the shorter string has. -/
def strcmp (a b : CString) : Int :=
  memcmp a.bytes b.bytes (min a.strlen b.strlen)

theorem strcmp_eq_zero {chars others : List UInt8} (noNul : 0 ∉ chars) (noNul' : 0 ∉ others) :
    strcmp (ofChars chars) (ofChars others) = 0 ↔
      ∀ pos < min chars.length others.length, chars[pos]? = others[pos]? := by
  rw [strcmp, memcmp_eq_zero, strlen_ofChars noNul, strlen_ofChars noNul']
  constructor
  · intro same pos inside
    have inChars := Nat.lt_of_lt_of_le inside (Nat.min_le_left _ _)
    have inOthers := Nat.lt_of_lt_of_le inside (Nat.min_le_right _ _)
    have atPos := same pos inside
    rw [bytes_ofChars inChars, bytes_ofChars inOthers] at atPos
    rw [List.getElem?_eq_getElem inChars, List.getElem?_eq_getElem inOthers, atPos]
  · intro same pos inside
    have inChars := Nat.lt_of_lt_of_le inside (Nat.min_le_left _ _)
    have inOthers := Nat.lt_of_lt_of_le inside (Nat.min_le_right _ _)
    have atPos := same pos inside
    rw [List.getElem?_eq_getElem inChars, List.getElem?_eq_getElem inOthers] at atPos
    rw [bytes_ofChars inChars, bytes_ofChars inOthers, Option.some.inj atPos]

end CString

end CleanOS.Common
