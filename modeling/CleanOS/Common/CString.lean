import CleanOS.Lib.Decimal

/-!
# Strings in memory

The functions of `common/lib/string.c` and `common/lib/stdio.c` that texts of addresses are
read and written with.  A string is a position in a memory of bytes; `none` means that a byte
outside the memory is read or written.
-/

namespace CleanOS.Common

open CleanOS.Lib.Decimal

/-- A string of C: bytes that are not zero. -/
structure CText where
  chars : List UInt8
  noNul : 0 ∉ chars

/-- `strlen`. -/
def strlen (mem : List UInt8) (str : Nat) : Option Nat :=
  let size := (mem.drop str).findIdx (· = 0)
  if str + size < mem.length then some size else none

/-- `memcpy` of bytes to a position. -/
def memcpy (mem : List UInt8) (dst : Nat) (src : List UInt8) : Option (List UInt8) :=
  if dst + src.length ≤ mem.length then
    some (mem.take dst ++ src ++ mem.drop (dst + src.length))
  else none

/-- `memset`. -/
def memset (mem : List UInt8) (dst : Nat) (c : UInt8) (len : Nat) : Option (List UInt8) :=
  memcpy mem dst (List.replicate len c)

/-- `strspn`. -/
def strspn (mem : List UInt8) (s : Nat) (accept : List UInt8) : Option Nat :=
  let size := (mem.drop s).findIdx fun c => c = 0 ∨ c ∉ accept
  if s + size < mem.length then some size else none

/-- `strcspn`. -/
def strcspn (mem : List UInt8) (s : Nat) (reject : List UInt8) : Option Nat :=
  let size := (mem.drop s).findIdx fun c => c = 0 ∨ c ∈ reject
  if s + size < mem.length then some size else none

/-- `strtok`: the token, the value of `save_ptr`, and the memory.  The position is absent where
the source passes `NULL`. -/
def strtok (mem : List UInt8) (str : Option Nat) (delim : List UInt8) (savePtr : Nat) :
    Option (Option Nat × Nat × List UInt8) := do
  let str := str.getD savePtr
  if (← mem[str]?) = 0 then some (none, str, mem)
  else
    let str := str + (← strspn mem str delim)
    if (← mem[str]?) = 0 then some (none, str, mem)
    else
      let stop := str + (← strcspn mem str delim)
      if (← mem[stop]?) = 0 then some (some str, stop, mem)
      else some (some str, stop + 1, mem.set stop 0)

/-- `pow`. -/
def pow (x : UInt32) : Nat → UInt32
  | 0 => 1
  | y + 1 => pow x y * x

/-- The loop of `str2num`, from the last character on, or nothing at a character that is no
digit. -/
def str2numLoop : List UInt8 → Nat → UInt32 → Option UInt32
  | [], _, ret => some ret
  | ch :: chars, j, ret =>
      if ch < 48 ∨ 57 < ch then none
      else str2numLoop chars (j + 1) (ret + (ch - 48).toUInt32 * pow 10 j)

/-- `str2num`, as what it returns and the bits of `num`. -/
def str2num (mem : List UInt8) (str : Nat) (num : UInt32) : Option (Int × UInt32) := do
  let size ← strlen mem str
  if size < 1 then some (-1, num)
  else
    let chars := (mem.drop str).take size
    let negative := chars.head? = some 45
    match str2numLoop (if negative then chars.tail else chars).reverse 0 0 with
    | none => some (-1, num)
    | some ret => some (0, if negative then 0 - ret else ret)

/-- A digit of `itoa`. -/
def digitChar (m : Nat) : UInt8 :=
  if m < 10 then (m + 48).toUInt8 else (m - 10 + 65).toUInt8

/-- The characters that `itoa` writes. -/
def itoa (base : Nat) (valid : 1 < base) (value : Nat) : List UInt8 :=
  if value / base ≠ 0 then
    itoa base valid (value / base) ++ [digitChar (value % base)]
  else [digitChar (value % base)]
termination_by value
decreasing_by
  apply Nat.div_lt_self _ valid
  apply Nat.pos_of_ne_zero
  rintro rfl
  simp_all

/-- The characters that `vsprintf` writes, for the conversions of an `int`.  `none` stands for
another conversion, or an argument that is missing. -/
def formatted : List UInt8 → List Int → Option (List UInt8)
  | [], _ => some []
  | 37 :: 100 :: format, arg :: args => do
      let rest ← formatted format args
      let sign := if arg < 0 then [45] else []
      -- the least `int` is its own negation
      let magnitude := if arg < 0 then (0 - arg).bmod (2 ^ 32) else arg
      some (sign ++ itoa 10 (by decide) (magnitude % 2 ^ 64).toNat ++ rest)
  | 37 :: 120 :: format, arg :: args => do
      let rest ← formatted format args
      some (itoa 16 (by decide) (arg % 2 ^ 64).toNat ++ rest)
  | 37 :: _, _ => none
  | c :: format, args => do
      let rest ← formatted format args
      some (c :: rest)

/-- `sprintf`.  No zero is written behind the characters. -/
def sprintf (buf format : List UInt8) (args : List Int) : Option (Nat × List UInt8) := do
  let chars ← formatted format args
  let buf ← memcpy buf 0 chars
  let size ← strlen buf 0
  some (size, buf)

variable {mem front field back text : List UInt8} {sep c : UInt8} {dst size : Nat}

theorem memcpy_nil (inside : dst ≤ mem.length) : memcpy mem dst [] = some mem := by
  rw [memcpy, List.length_nil, Nat.add_zero, if_pos inside, List.append_nil,
    List.take_append_drop]

theorem memcpy_append {text' : List UInt8} :
    ((memcpy mem dst text).bind fun mem => memcpy mem (dst + text.length) text') =
      memcpy mem dst (text ++ text') := by
  rw [memcpy]
  split
  · next room =>
      have upTo : (mem.take dst ++ text).length = dst + text.length := by
        rw [List.length_append, List.length_take]
        omega
      have total : (mem.take dst ++ text ++ mem.drop (dst + text.length)).length =
          mem.length := by
        rw [List.length_append, upTo, List.length_drop]
        omega
      have behind : (mem.take dst ++ text ++ mem.drop (dst + text.length)).drop
          (dst + text.length + text'.length) = mem.drop (dst + text.length + text'.length) := by
        rw [List.drop_append, upTo, List.drop_of_length_le (upTo.trans_le (by omega)),
          List.nil_append, List.drop_drop, Nat.add_sub_cancel_left]
      rw [Option.bind_some, memcpy, memcpy, total, List.length_append, ← Nat.add_assoc, behind,
        List.take_left' upTo, List.append_assoc (mem.take dst)]
  · next full =>
      rw [Option.bind_none, memcpy, List.length_append, if_neg (by omega)]

theorem memcpy_size {mem' : List UInt8} (copied : memcpy mem dst text = some mem') :
    dst + text.length ≤ mem.length ∧ mem'.length = mem.length := by
  rw [memcpy] at copied
  split at copied
  · next room =>
      refine ⟨room, ?_⟩
      rw [← Option.some.inj copied]
      simp only [List.length_append, List.length_take, List.length_drop]
      omega
  · cases copied

theorem memcpy_isSome (room : dst + text.length ≤ mem.length) :
    memcpy mem dst text = some (mem.take dst ++ text ++ mem.drop (dst + text.length)) :=
  if_pos room

theorem findIdx_stop {p : UInt8 → Bool} (before : ∀ d ∈ text, p d = false) (isStop : p c = true) :
    (text ++ c :: back).findIdx p = text.length := by
  rw [List.findIdx_append, List.findIdx_eq_length_of_false before, if_neg (Nat.lt_irrefl _),
    List.findIdx_cons, isStop]
  exact Nat.zero_add _

theorem span_text {p : UInt8 → Bool} (before : ∀ d ∈ text, p d = false) (isStop : p c = true) :
    (if front.length + ((front ++ text ++ c :: back).drop front.length).findIdx p <
        (front ++ text ++ c :: back).length then
      some (((front ++ text ++ c :: back).drop front.length).findIdx p)
    else none) = some text.length := by
  rw [List.append_assoc, List.drop_left, findIdx_stop before isStop]
  apply if_pos
  simp only [List.length_append, List.length_cons]
  omega

theorem strlen_text (noNul : 0 ∉ text) :
    strlen (front ++ text ++ 0 :: back) front.length = some text.length := by
  apply span_text _ rfl
  intro d member
  apply decide_eq_false
  rintro rfl
  exact noNul member

theorem strlen_none (noNul : 0 ∉ mem) : strlen mem 0 = none := by
  have stops : mem.findIdx (· = 0) = mem.length := by
    apply List.findIdx_eq_length_of_false
    intro d member
    apply decide_eq_false
    rintro rfl
    exact noNul member
  rw [strlen, List.drop_zero, stops]
  exact if_neg (by omega)

section Token

variable {delim : List UInt8} {str : Option Nat} {savePtr : Nat}

theorem strcspn_field (noSep : ∀ d ∈ field, d ≠ 0 ∧ d ∉ delim) (isSep : c = 0 ∨ c ∈ delim) :
    strcspn (front ++ field ++ c :: back) front.length delim = some field.length := by
  apply span_text _ (decide_eq_true isSep)
  intro d member
  apply decide_eq_false
  rintro (isNul | isDelim)
  · exact (noSep d member).left isNul
  · exact (noSep d member).right isDelim

theorem strspn_seps {seps : List UInt8} (isSeps : ∀ d ∈ seps, d ≠ 0 ∧ d ∈ delim)
    (isStop : c = 0 ∨ c ∉ delim) :
    strspn (front ++ seps ++ c :: back) front.length delim = some seps.length := by
  apply span_text _ (decide_eq_true isStop)
  intro d member
  apply decide_eq_false
  rintro (isNul | notDelim)
  · exact (isSeps d member).left isNul
  · exact notDelim (isSeps d member).right

theorem strspn_none (isStop : c = 0 ∨ c ∉ delim) :
    strspn (front ++ c :: back) front.length delim = some 0 := by
  have spans := @strspn_seps front back c delim [] (fun _ member => absurd member List.not_mem_nil)
    isStop
  rwa [List.append_nil] at spans

theorem strspn_field (nonempty : field ≠ []) (noSep : ∀ d ∈ field, d ≠ 0 ∧ d ∉ delim) :
    strspn (front ++ field ++ back) front.length delim = some 0 := by
  obtain ⟨first, rest, rfl⟩ := List.exists_cons_of_ne_nil nonempty
  rw [List.append_assoc, List.cons_append]
  exact strspn_none (.inr (noSep first List.mem_cons_self).right)

theorem getElem?_behind : (front ++ c :: back)[front.length]? = some c := by
  rw [List.getElem?_append_right (Nat.le_refl _), Nat.sub_self, List.getElem?_cons_zero]

theorem getElem?_field (nonempty : field ≠ []) (noSep : ∀ d ∈ field, d ≠ 0 ∧ d ∉ delim) :
    ∃ d, d ≠ 0 ∧ (front ++ field ++ back)[front.length]? = some d := by
  obtain ⟨first, rest, rfl⟩ := List.exists_cons_of_ne_nil nonempty
  refine ⟨first, (noSep first List.mem_cons_self).left, ?_⟩
  rw [List.append_assoc, List.cons_append]
  exact getElem?_behind

theorem strtok_stop (start : str.getD savePtr = front.length) (nonempty : field ≠ [])
    (noSep : ∀ d ∈ field, d ≠ 0 ∧ d ∉ delim) (isStop : c = 0 ∨ c ∈ delim) :
    strtok (front ++ field ++ c :: back) str delim savePtr =
      if c = 0 then
        some (some front.length, front.length + field.length, front ++ field ++ c :: back)
      else some (some front.length, front.length + field.length + 1,
        front ++ field ++ 0 :: back) := by
  obtain ⟨first, notNul, atFirst⟩ :=
    @getElem?_field front field (c :: back) delim nonempty noSep
  have atStop : (front ++ field ++ c :: back)[front.length + field.length]? = some c := by
    rw [← List.length_append]
    exact getElem?_behind
  have cleared : (front ++ field ++ c :: back).set (front.length + field.length) 0 =
      front ++ field ++ 0 :: back := by
    rw [← List.length_append, List.set_append_right _ _ (Nat.le_refl _), Nat.sub_self,
      List.set_cons_zero]
  rw [strtok]
  simp only [start, atFirst, strspn_field nonempty noSep, strcspn_field noSep isStop,
    Option.bind_eq_bind, Option.bind_some, if_neg notNul, Nat.add_zero, atStop, cleared]

theorem strtok_field (start : str.getD savePtr = front.length) (nonempty : field ≠ [])
    (noSep : ∀ d ∈ field, d ≠ 0 ∧ d ∉ delim) (isSep : c ∈ delim) (isNonzero : c ≠ 0) :
    strtok (front ++ field ++ c :: back) str delim savePtr =
      some (some front.length, front.length + field.length + 1,
        front ++ field ++ 0 :: back) := by
  rw [strtok_stop start nonempty noSep (.inr isSep), if_neg isNonzero]

theorem strtok_last (start : str.getD savePtr = front.length) (nonempty : field ≠ [])
    (noSep : ∀ d ∈ field, d ≠ 0 ∧ d ∉ delim) :
    strtok (front ++ field ++ 0 :: back) str delim savePtr =
      some (some front.length, front.length + field.length, front ++ field ++ 0 :: back) := by
  rw [strtok_stop start nonempty noSep (.inl rfl), if_pos rfl]

theorem strtok_end : strtok (front ++ 0 :: back) none delim front.length =
    some (none, front.length, front ++ 0 :: back) := by
  rw [strtok]
  simp only [Option.getD_none, getElem?_behind, Option.bind_eq_bind, Option.bind_some, if_true]

theorem strtok_skip {seps : List UInt8} (start : str.getD savePtr = front.length)
    (isSeps : ∀ d ∈ seps, d ≠ 0 ∧ d ∈ delim) (isStop : c = 0 ∨ c ∉ delim) :
    strtok (front ++ seps ++ c :: back) str delim savePtr =
      strtok (front ++ seps ++ c :: back) (some (front.length + seps.length)) delim savePtr := by
  have atStop : (front ++ seps ++ c :: back)[front.length + seps.length]? = some c := by
    rw [← List.length_append]
    exact getElem?_behind
  have skips := @strspn_seps front back c delim seps isSeps isStop
  have stays : strspn (front ++ seps ++ c :: back) (front.length + seps.length) delim =
      some 0 := by
    rw [← List.length_append]
    exact strspn_none isStop
  cases seps with
  | nil =>
      rw [strtok, strtok, start]
      rfl
  | cons sep seps =>
      have atSep : (front ++ sep :: seps ++ c :: back)[front.length]? = some sep := by
        rw [List.append_assoc, List.cons_append]
        exact getElem?_behind
      have notNul := (isSeps sep List.mem_cons_self).left
      rw [strtok, strtok]
      simp only [start, atSep, skips, Option.bind_eq_bind, Option.bind_some, if_neg notNul,
        Option.getD_some, atStop]
      by_cases isNul : c = 0
      · rw [if_pos isNul, if_pos isNul]
      · simp only [if_neg isNul, stays, Option.bind_some, Nat.add_zero, atStop]

end Token

section Number

theorem digit_bits (isDigit : IsDigit c) : (c - 48).toUInt32 = UInt32.ofNat (digit c) := by
  have low : 48 ≤ c := isDigit.left
  rw [← UInt32.ofNat_uInt8ToNat, UInt8.toNat_sub_of_le _ _ low]
  rfl

theorem digit_inside (isDigit : IsDigit c) : ¬ (c < 48 ∨ 57 < c) := by
  rintro (low | high)
  · exact absurd isDigit.left (Nat.not_le_of_lt low)
  · exact absurd isDigit.right (Nat.not_le_of_lt high)

theorem pow_eq (x y : Nat) : pow (UInt32.ofNat x) y = UInt32.ofNat (x ^ y) := by
  induction y with
  | zero => rfl
  | succ y ih => rw [pow, ih, pow_succ, UInt32.ofNat_mul]

theorem str2numLoop_eq (digits : ∀ d ∈ field, IsDigit d) (j : Nat) (ret : UInt32) :
    str2numLoop field.reverse j ret =
      some (ret + UInt32.ofNat (value field * 10 ^ j)) := by
  induction field using List.reverseRecOn generalizing j ret with
  | nil =>
      rw [value_nil, Nat.zero_mul]
      exact congrArg some (UInt32.add_zero ret).symm
  | append_singleton field last ih =>
      have isDigit : IsDigit last := digits last (List.mem_append_right _ List.mem_cons_self)
      have inFront : ∀ d ∈ field, IsDigit d := by
        intro d member
        exact digits d (List.mem_append_left _ member)
      have sum : value (field ++ [last]) * 10 ^ j =
          digit last * 10 ^ j + value field * 10 ^ (j + 1) := by
        rw [value_append_digit, pow_succ]
        ring
      rw [List.reverse_append, List.reverse_singleton, List.singleton_append, str2numLoop,
        if_neg (digit_inside isDigit), ih inFront, digit_bits isDigit, sum, UInt32.ofNat_add,
        UInt32.ofNat_mul (digit last), ← UInt32.add_assoc]
      rw [← pow_eq]
      rfl

theorem str2num_field (isNumber : IsNumber field) (num : UInt32) :
    str2num (front ++ field ++ 0 :: back) front.length num =
      some (0, UInt32.ofNat (value field)) := by
  have noNul : 0 ∉ field := by
    intro member
    exact absurd (isNumber.digits 0 member).left (by decide)
  have chars : ((front ++ field ++ 0 :: back).drop front.length).take field.length = field := by
    rw [List.append_assoc, List.drop_left, List.take_left]
  have positive : ¬ field.length < 1 := by
    have := List.length_pos_of_ne_nil isNumber.nonempty
    omega
  have unsigned : field.head? ≠ some 45 := by
    intro minus
    have isDigit := isNumber.digits 45 (List.mem_of_head? minus)
    exact absurd isDigit.left (by decide)
  rw [str2num, strlen_text noNul]
  simp only [Option.bind_eq_bind, Option.bind_some, if_neg positive, chars,
    if_neg unsigned, str2numLoop_eq isNumber.digits, pow_zero, Nat.mul_one, UInt32.zero_add]

end Number

section Print

theorem digitChar_isDigit {m : Nat} (small : m < 10) :
    IsDigit (digitChar m) ∧ digit (digitChar m) = m := by
  have bits : (digitChar m).toNat = m + 48 := by
    rw [digitChar, if_pos small]
    exact Nat.mod_eq_of_lt (by omega)
  constructor
  · constructor
    · omega
    · omega
  · rw [digit, bits, Nat.add_sub_cancel]

theorem itoa_canonical (n : Nat) (valid : 1 < 10) : Canonical n (itoa 10 valid n) := by
  induction n using Nat.strong_induction_on with
  | _ n ih =>
      obtain ⟨isDigit, isLast⟩ := digitChar_isDigit (Nat.mod_lt n (by decide : 0 < 10))
      rw [itoa]
      split
      · next more =>
          have front := ih (n / 10) (Nat.div_lt_self (by omega) valid)
          have canonical := front.append_digit isDigit (Nat.pos_of_ne_zero more)
          rw [isLast, Nat.div_add_mod] at canonical
          exact canonical
      · next single =>
          have canonical := Canonical.singleton isDigit
          have small : n % 10 = n := by
            omega
          rw [isLast, small] at canonical
          rw [small]
          exact canonical

end Print

end CleanOS.Common
