import CleanOS.Common.Strings
import CleanOS.Common.Tokens
import Mathlib.Data.List.DropRight

/-!
# Comparing, copying and trimming strings

What `strcmp`, `strcpy`, `trim_right` and `strchrs` of `common/lib/string.c` do with strings.
-/

namespace CleanOS.Common

/-- The value of `strcmp`, whose type is `size_t`. -/
def strcmpSize (a b : CString) : UInt32 :=
  UInt32.ofInt (CString.strcmp a b)

/-- `strcpy`, from the memory of the source on. -/
def strcpy (mem : List UInt8) (dst : Nat) (src : List UInt8) : Option (List UInt8) := do
  let size ← strlen src 0
  memcpy mem dst (src.take size)

/-- The loop of `trim_right`, over the value of `i + 1`. -/
def trimRightLoop : Nat → List UInt8 → Option (List UInt8)
  | 0, str => some str
  | i + 1, str => do
      if (← str[i]?) = 0x20 then trimRightLoop i (str.set i 0) else some str

/-- `trim_right`, as the memory and the count.  `strlen(str) - 1` becomes an `int`. -/
def trimRight (str : List UInt8) : Option (List UInt8 × Nat) := do
  let size ← strlen str 0
  let i := ((size : Int) - 1).bmod (2 ^ 32)
  let str ← trimRightLoop (i + 1).toNat str
  some (str, 0)

/-- The loop of `strchrs`, with a bound on its passes, or nothing where they do not suffice.  The
pointer stays where it is. -/
def strchrsLoop (str : List UInt8) (ch : UInt8) : Nat → UInt32 → Option UInt32
  | 0, _ => none
  | passes + 1, chCnt => do
      let c ← str[0]?
      if c = 0 then some chCnt
      else strchrsLoop str ch passes (if c = ch then chCnt + 1 else chCnt)

def CString.chars (str : CString) : List UInt8 :=
  (List.range' 0 str.strlen).map str.bytes

/-- Zero for equal strings, and else the sign of the first difference.  A string is smaller than
those that it is the beginning of. -/
def Compares (a b : List UInt8) (value : Int) : Prop :=
  (value = 0 ↔ a = b) ∧ (value < 0 ↔ a < b) ∧ (0 < value ↔ b < a)

section Compare

theorem memcmpFrom_cases {a b : Nat → UInt8} (size size' place : Nat) :
    let chars := (List.range' place size).map a
    let others := (List.range' place size').map b
    let value := memcmpFrom a b (min size size') place
    value = 0 ∧ (chars <+: others ∨ others <+: chars) ∨
      value = -1 ∧ chars < others ∧ ¬ chars <+: others ∨
      value = 1 ∧ others < chars ∧ ¬ others <+: chars := by
  induction size generalizing size' place with
  | zero =>
      rw [Nat.zero_min]
      exact .inl ⟨rfl, .inl List.nil_prefix⟩
  | succ size ih =>
      cases size' with
      | zero => exact .inl ⟨rfl, .inr List.nil_prefix⟩
      | succ size' =>
          simp only [Nat.succ_min_succ, List.range'_succ, List.map_cons, memcmpFrom,
            List.cons_lt_cons_iff, List.cons_prefix_cons]
          by_cases same : a place = b place
          · rw [if_neg (not_not.mpr same)]
            simpa [same] using ih size' (place + 1)
          · rw [if_pos same]
            simp only [same, Ne.symm same, false_and, not_false_eq_true, and_true, or_false]
            rcases UInt8.lt_or_lt_of_ne same with smaller | greater
            · rw [if_neg (UInt8.lt_asymm smaller)]
              exact .inr (.inl ⟨rfl, smaller⟩)
            · rw [if_pos greater]
              exact .inr (.inr ⟨rfl, greater⟩)

variable {a b : CString}

theorem strcmp_cases (a b : CString) :
    CString.strcmp a b = 0 ∧ (a.chars <+: b.chars ∨ b.chars <+: a.chars) ∨
      CString.strcmp a b = -1 ∧ a.chars < b.chars ∧ ¬ a.chars <+: b.chars ∨
      CString.strcmp a b = 1 ∧ b.chars < a.chars ∧ ¬ b.chars <+: a.chars :=
  memcmpFrom_cases a.strlen b.strlen 0

theorem compares_zero {chars others : List UInt8} : Compares chars others 0 ↔ chars = others := by
  constructor
  · intro compares
    exact compares.1.mp rfl
  · rintro rfl
    have irrefl := List.lt_irrefl chars
    exact ⟨iff_of_true rfl rfl, iff_of_false (Int.lt_irrefl 0) irrefl,
      iff_of_false (Int.lt_irrefl 0) irrefl⟩

theorem compares_pos {chars others : List UInt8} {value : Int} (positive : 0 < value) :
    Compares chars others value ↔ others < chars := by
  constructor
  · intro compares
    exact compares.2.2.mp positive
  · intro greater
    refine ⟨iff_of_false (Int.ne_of_gt positive) ?_,
      iff_of_false (Int.not_lt.mpr (Int.le_of_lt positive)) (List.lt_asymm greater),
      iff_of_true positive greater⟩
    rintro rfl
    exact List.lt_irrefl chars greater

theorem compares_neg {chars others : List UInt8} {value : Int} :
    Compares chars others (-value) ↔ Compares others chars value := by
  unfold Compares
  rw [Int.neg_eq_zero, Int.neg_neg_iff_pos, Int.neg_pos, @eq_comm _ chars,
    and_comm (a := 0 < value ↔ _)]

theorem strcmp_iff : Compares a.chars b.chars (CString.strcmp a b) ↔
    a.chars = b.chars ∨ ¬ a.chars <+: b.chars ∧ ¬ b.chars <+: a.chars := by
  rcases strcmp_cases a b with ⟨value, prefixes⟩ | ⟨value, smaller, other⟩ |
    ⟨value, greater, other⟩
  · rw [value, compares_zero]
    constructor
    · exact .inl
    · rintro (same | ⟨notBefore, notBehind⟩)
      · exact same
      · exact absurd prefixes (not_or.mpr ⟨notBefore, notBehind⟩)
  · rw [value, compares_neg, compares_pos (by decide)]
    exact iff_of_true smaller (.inr ⟨other, fun begins => begins.le smaller⟩)
  · rw [value, compares_pos (by decide)]
    exact iff_of_true greater (.inr ⟨fun begins => begins.le greater, other⟩)

/-- As a `size_t` the value is right for equal strings, and where the first difference makes the
first string the greater one. -/
theorem strcmpSize_iff :
    Compares a.chars b.chars (strcmpSize a b).toNat ↔
      a.chars = b.chars ∨ b.chars < a.chars ∧ ¬ b.chars <+: a.chars := by
  rcases strcmp_cases a b with ⟨value, prefixes⟩ | ⟨value, smaller, other⟩ |
    ⟨value, greater, other⟩
  · have isSize : ((strcmpSize a b).toNat : Int) = 0 := by
      rw [strcmpSize, value]
      rfl
    rw [isSize, compares_zero]
    constructor
    · exact .inl
    · rintro (same | ⟨greater, other⟩)
      · exact same
      · exact absurd greater (prefixes.resolve_right other).le
  · have isSize : ((strcmpSize a b).toNat : Int) = 4294967295 := by
      rw [strcmpSize, value]
      rfl
    rw [isSize, compares_pos (by decide)]
    constructor
    · intro greater
      exact absurd greater (List.lt_asymm smaller)
    · rintro (same | ⟨greater, -⟩)
      · exact absurd (same ▸ List.prefix_rfl) other
      · exact greater
  · have isSize : ((strcmpSize a b).toNat : Int) = 1 := by
      rw [strcmpSize, value]
      rfl
    rw [isSize, compares_pos (by decide)]
    exact iff_of_true greater (.inr ⟨greater, other⟩)

end Compare

section Memory

variable {mem text tail back : List UInt8} {dst : Nat} {ch : UInt8}

theorem stringAt_split (isText : stringAt mem = some text) : ∃ back, mem = text ++ 0 :: back := by
  rw [stringAt, strlen, List.drop_zero, Nat.zero_add] at isText
  split at isText
  · next inside =>
      have isNul := List.findIdx_getElem (w := inside)
      have split : mem.take (mem.findIdx (· = 0)) ++ mem[mem.findIdx (· = 0)] ::
          mem.drop (mem.findIdx (· = 0) + 1) = mem := by
        rw [List.getElem_cons_drop, List.take_append_drop]
      have isTake : mem.take (mem.findIdx (· = 0)) = text := Option.some.inj isText
      rw [of_decide_eq_true isNul, isTake] at split
      exact ⟨_, split.symm⟩
  · cases isText

theorem stringAt_append (noNul : 0 ∉ text) :
    stringAt (text ++ tail) = some text ↔ tail.head? = some 0 := by
  constructor
  · intro isText
    obtain ⟨back, split⟩ := stringAt_split isText
    rw [List.append_cancel_left split]
    rfl
  · intro isNul
    obtain ⟨back, rfl⟩ := List.head?_eq_some_iff.mp isNul
    exact stringAt_text noNul

theorem strcpy_iff (src : CText) :
    (∃ after, strcpy mem dst (src.chars ++ 0 :: back) = some after ∧
      HoldsText after dst src.chars) ↔ mem[dst + src.chars.length]? = some 0 := by
  have copies : strcpy mem dst (src.chars ++ 0 :: back) = memcpy mem dst src.chars := by
    rw [strcpy, strlen_start src.noNul, Option.bind_eq_bind, Option.bind_some, List.take_left]
  rw [copies]
  by_cases room : dst + src.chars.length ≤ mem.length
  · have before : (mem.take dst).length = dst := List.length_take_of_le (by omega)
    rw [memcpy_isSome room]
    simp only [Option.some.injEq, exists_eq_left', HoldsText]
    rw [List.append_assoc, List.drop_left' before, stringAt_append src.noNul, List.head?_drop]
  · rw [memcpy, if_neg room, List.getElem?_eq_none (by omega)]
    simp

theorem trimRightLoop_text (text : List UInt8) :
    ∀ back, ∃ zeros, trimRightLoop text.length (text ++ 0 :: back) =
      some (text.rdropWhile (· = 0x20) ++ 0 :: (List.replicate zeros 0 ++ back)) := by
  induction text using List.reverseRecOn with
  | nil => exact fun back => ⟨0, rfl⟩
  | append_singleton text c ih =>
      intro back
      have atLast : (text ++ [c] ++ 0 :: back)[text.length]? = some c := by
        rw [List.append_assoc]
        exact getElem?_behind
      rw [List.length_append, List.length_singleton, trimRightLoop, atLast]
      simp only [Option.bind_eq_bind, Option.bind_some]
      by_cases isBlank : c = 0x20
      · have cleared : (text ++ [c] ++ 0 :: back).set text.length 0 = text ++ 0 :: 0 :: back := by
          rw [List.append_assoc, List.set_append_right _ _ (Nat.le_refl _), Nat.sub_self]
          rfl
        obtain ⟨zeros, trims⟩ := ih (0 :: back)
        refine ⟨zeros + 1, ?_⟩
        rw [if_pos isBlank, cleared, trims, List.rdropWhile_concat,
          if_pos (decide_eq_true isBlank), List.replicate_succ', List.append_assoc]
        rfl
      · refine ⟨0, ?_⟩
        rw [if_neg isBlank, List.rdropWhile_concat, if_neg (by simpa using isBlank)]
        rfl

theorem trimRight_iff (text : CText) (fits : text.chars.length < 2 ^ 32) :
    ((trimRight (text.chars ++ 0 :: back)).bind fun result => stringAt result.1) =
        some (text.chars.rdropWhile (· = 0x20)) ↔
      text.chars.length ≤ 2 ^ 31 ∨ text.chars.getLast? ≠ some 0x20 := by
  rw [trimRight, strlen_start text.noNul]
  simp only [Option.bind_eq_bind, Option.bind_some]
  by_cases short : text.chars.length ≤ 2 ^ 31
  · have passes : (((text.chars.length : Int) - 1).bmod (2 ^ 32) + 1).toNat =
        text.chars.length := by
      rw [Int.bmod_eq_of_le] <;> omega
    obtain ⟨zeros, trims⟩ := trimRightLoop_text text.chars back
    rw [passes, trims]
    refine iff_of_true ?_ (.inl short)
    apply stringAt_text
    intro member
    exact text.noNul ((List.rdropWhile_prefix _ _).mem member)
  · have passes : (((text.chars.length : Int) - 1).bmod (2 ^ 32) + 1).toNat = 0 := by
      rw [Int.bmod_def]
      split
      · omega
      · omega
    rw [passes]
    simp only [trimRightLoop, Option.bind_some, stringAt_text text.noNul, Option.some.injEq, short,
      false_or]
    have nonempty : text.chars ≠ [] := by
      intro isNil
      rw [isNil] at short
      exact short (Nat.zero_le _)
    rw [eq_comm, List.rdropWhile_eq_self_iff, List.getLast?_eq_some_getLast nonempty]
    simp [nonempty]

theorem strchrsLoop_none {c : UInt8} (notNul : c ≠ 0) (passes : Nat) :
    ∀ chCnt, strchrsLoop (c :: tail) ch passes chCnt = none := by
  induction passes with
  | zero =>
      intro chCnt
      rfl
  | succ passes ih =>
      intro chCnt
      rw [strchrsLoop]
      simp only [List.getElem?_cons_zero, Option.bind_eq_bind, Option.bind_some, if_neg notNul]
      exact ih _

theorem strchrs_iff (text : CText) :
    (∃ passes, strchrsLoop (text.chars ++ 0 :: back) ch passes 0 =
      some (UInt32.ofNat (text.chars.count ch))) ↔ text.chars = [] := by
  obtain ⟨chars, noNul⟩ := text
  cases chars with
  | nil => exact iff_of_true ⟨1, rfl⟩ rfl
  | cons c chars =>
      have notNul : c ≠ 0 := fun isNul => noNul (isNul ▸ List.mem_cons_self)
      refine iff_of_false ?_ (List.cons_ne_nil _ _)
      rintro ⟨passes, ends⟩
      rw [List.cons_append, strchrsLoop_none notNul] at ends
      cases ends

/-- The comparison is right exactly if the strings are the same or the first difference makes the
first one greater, and its `int` exactly if they are the same or none begins with the other; the
copy exactly if there is a zero behind it; the end that is cut off exactly if the index of the last
character is an `int` or no blank is there; and the count only for the empty string. -/
theorem stringPrimitives_iff (a b : CString) (src text : CText) (mem back : List UInt8)
    (dst : Nat) (ch : UInt8) (fits : text.chars.length < 2 ^ 32) :
    (Compares a.chars b.chars (strcmpSize a b).toNat ↔
      a.chars = b.chars ∨ b.chars < a.chars ∧ ¬ b.chars <+: a.chars) ∧
    (Compares a.chars b.chars (CString.strcmp a b) ↔
      a.chars = b.chars ∨ ¬ a.chars <+: b.chars ∧ ¬ b.chars <+: a.chars) ∧
    ((∃ after, strcpy mem dst (src.chars ++ 0 :: back) = some after ∧
      HoldsText after dst src.chars) ↔ mem[dst + src.chars.length]? = some 0) ∧
    (((trimRight (text.chars ++ 0 :: back)).bind fun result => stringAt result.1) =
        some (text.chars.rdropWhile (· = 0x20)) ↔
      text.chars.length ≤ 2 ^ 31 ∨ text.chars.getLast? ≠ some 0x20) ∧
    ((∃ passes, strchrsLoop (src.chars ++ 0 :: back) ch passes 0 =
      some (UInt32.ofNat (src.chars.count ch))) ↔ src.chars = []) :=
  ⟨strcmpSize_iff, strcmp_iff, strcpy_iff src, trimRight_iff text fits, strchrs_iff src⟩

theorem trims_a_blank : [97, 0x20].length < 2 ^ 32 ∧
    ((trimRight [97, 0x20, 0]).bind fun result => stringAt result.1) =
      some (List.rdropWhile (· = 0x20) [97, 0x20]) :=
  ⟨by decide, (stringPrimitives_iff (.ofChars []) (.ofChars []) ⟨[], List.not_mem_nil⟩
    ⟨[97, 0x20], by decide⟩ [] [] 0 0 (by decide)).2.2.2.1.mpr (.inl (by decide))⟩

/-- `a` is no smaller than `ab`, its copy over a longer string does not end, and counting in it
neither. -/
theorem primitives_of_a :
    ¬ Compares (CString.ofChars [97]).chars (CString.ofChars [97, 98]).chars
        (strcmpSize (.ofChars [97]) (.ofChars [97, 98])).toNat ∧
      ¬ (∃ after, strcpy [120, 120, 0] 0 [97, 0] = some after ∧ HoldsText after 0 [97]) ∧
      ∀ passes, strchrsLoop [97, 0] 97 passes 0 = none := by
  refine ⟨?_, ?_, fun passes => strchrsLoop_none (by decide) passes 0⟩
  · have value : CString.strcmp (.ofChars [97]) (.ofChars [97, 98]) = 0 :=
      (CString.strcmp_eq_zero (by decide) (by decide)).mpr (by decide)
    intro compares
    rw [strcmpSize, value] at compares
    have sizes := congrArg List.length (compares.1.mp rfl)
    rw [CString.chars, CString.chars, List.length_map, List.length_map, List.length_range',
      List.length_range', CString.strlen_ofChars (by decide),
      CString.strlen_ofChars (by decide)] at sizes
    cases sizes
  · rintro ⟨after, copies, holds⟩
    cases copies
    revert holds
    unfold HoldsText
    decide

end Memory

end CleanOS.Common
