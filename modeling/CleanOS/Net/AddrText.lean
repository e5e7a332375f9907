import CleanOS.Common.CString
import CleanOS.Net.Ip
import Mathlib.Data.List.Forall2

/-!
# Addresses as texts

`ipaddr_from_str` of `kernel/net/ip.c`, and `ip2str` and `str2ip` of `include/net_util.h`.  The
first takes any number of fields of any size, and `str2ip` copies a text without its end.
-/

namespace CleanOS.Net

open CleanOS.Common CleanOS.Lib CleanOS.Lib.Decimal

/-- The loop of `ipaddr_from_str`, over the memory from `str` on; `p` counts the bytes written.
`none` means that a byte outside of `dest` is written. -/
def ipaddrFromStrLoop : List UInt8 → List UInt8 → Nat → UInt8 → Option (NetErr × List UInt8)
  | [], _, _, _ => none
  | c :: str, dest, p, subAddr =>
      if c = 0 then (memcpy dest p [subAddr]).map fun dest => (.ok, dest)
      else if 48 ≤ c ∧ c ≤ 57 then ipaddrFromStrLoop str dest p (subAddr * 10 + c - 48)
      else if c = 46 then
        (memcpy dest p [subAddr]).bind fun dest => ipaddrFromStrLoop str dest (p + 1) 0
      else some (.param, dest)

/-- `ipaddr_from_str` of pointers that are not null. -/
def ipaddrFromStr (str : List UInt8) : Option (NetErr × List UInt8) :=
  ipaddrFromStrLoop str (List.replicate 4 0) 0 0

/-- The format `"%d.%d.%d.%d"`. -/
def addrFormat : List UInt8 :=
  [37, 100, 46, 37, 100, 46, 37, 100, 46, 37, 100]

/-- `ip2str`. -/
def ip2str (ip : List UInt8) (str : List UInt8) : Option (List UInt8) := do
  let size ← strlen str 0
  let str ← memset str 0 0 size
  let (_, str) ← sprintf str addrFormat ((List.range 4).map fun i => ((ip.getD i 0).toNat : Int))
  some str

/-- What `str2ip` finds in memory that it has not written: the bytes behind `str`, the bytes of
`addr`, the value of `num` in each pass, and `save_ptr`. -/
structure Str2ipFrame where
  behind : List UInt8
  addr : List UInt8
  num : Nat → UInt32
  savePtr : Nat

/-- The loop of `str2ip`, which has `left` passes left. -/
def str2ipLoop (num : Nat → UInt32) :
    Nat → List UInt8 → Option Nat → Nat → List UInt8 → Option (List UInt8)
  | 0, addr, _, _, _ => some addr
  | _ + 1, addr, none, _, _ => some addr
  | left + 1, addr, some token, savePtr, mem => do
      let idx := 3 - left
      let (_, num') ← str2num mem token (num idx)
      let (token, savePtr, mem) ← strtok mem none [46] savePtr
      str2ipLoop num left (addr.set idx num'.toUInt8) token savePtr mem

/-- `str2ip`. -/
def str2ip (frame : Str2ipFrame) (ipStr : List UInt8) : Option IpAddr := do
  let size ← strlen ipStr 0
  let mem ← memcpy (List.replicate 15 0 ++ frame.behind) 0 (ipStr.take size)
  let (token, savePtr, mem) ← strtok mem (some 0) [46] frame.savePtr
  let addr ← str2ipLoop frame.num 4 frame.addr token savePtr mem
  some (ipAddrFromBuf addr)

def dotted : List (List UInt8) → List UInt8
  | [] => []
  | [field] => field
  | field :: fields => field ++ 46 :: dotted fields

def IsAddrText (addr text : List UInt8) : Prop :=
  ∃ fields, addr.length = 4 ∧ text = dotted fields ∧
    List.Forall₂ (fun byte field => IsNumber field ∧ value field = byte.toNat) addr fields

def CanonicalText (addr text : List UInt8) : Prop :=
  ∃ fields, text = dotted fields ∧
    List.Forall₂ (fun byte field => Canonical byte.toNat field) addr fields

def IsAddrChar (c : UInt8) : Prop :=
  IsDigit c ∨ c = 46

instance (c : UInt8) : Decidable (IsAddrChar c) :=
  inferInstanceAs (Decidable (_ ∨ _))

/-- `ipaddr_from_str` accepts exactly the texts of addresses, stores their bytes, and writes
nothing outside of `dest`. -/
def FromStrRight (text : CText) : Prop :=
  ∃ err dest, ipaddrFromStr (text.chars ++ [0]) = some (err, dest) ∧
    (err = .ok ↔ ∃ addr, IsAddrText addr text.chars) ∧
    ∀ addr, IsAddrText addr text.chars → dest = addr

/-- The text is that of an address, or has a character that is no digit and no dot with at most
four dots before it. -/
def FromStrCond (text : CText) : Prop :=
  (∃ addr, IsAddrText addr text.chars) ∨
    ∃ front c back, text.chars = front ++ c :: back ∧ (∀ d ∈ front, IsAddrChar d) ∧
      ¬ IsAddrChar c ∧ front.count 46 ≤ 4

/-- `ip2str` writes a canonical text with a zero behind it, and both parsers recover the bytes
from it, `str2ip` whatever lies in its frame. -/
def TextRight (addr str : List UInt8) : Prop :=
  ∃ text rest, ip2str addr str = some (text ++ 0 :: rest) ∧ CanonicalText addr text ∧
    ipaddrFromStr (text ++ 0 :: rest) = some (.ok, addr) ∧
    ∀ frame : Str2ipFrame, frame.addr.length = 4 →
      str2ip frame (text ++ 0 :: rest) = some (ipAddrFromBuf addr)

def digitsOf (byte : UInt8) : Nat :=
  if byte < 10 then 1 else if byte < 100 then 2 else 3

def textSize (addr : List UInt8) : Nat :=
  (addr.map digitsOf).sum + 3

/-- The array holds a string and has room, what stands where the text is to end is cleared or
zero, and one of the bytes has fewer than three digits. -/
def TextCond (addr str : List UInt8) : Prop :=
  0 ∈ str ∧ textSize addr < str.length ∧
    (textSize addr ≤ str.findIdx (· = 0) ∨ str.getD (textSize addr) 0 = 0) ∧
    ∃ byte ∈ addr, byte < 100

section Fields

variable {fields : List (List UInt8)} {field last back dest text addr : List UInt8} {c : UInt8}
  {p n : Nat}

theorem dotted_cons (more : fields ≠ []) :
    dotted (field :: fields) = field ++ 46 :: dotted fields := by
  cases fields with
  | nil => exact absurd rfl more
  | cons => rfl

theorem ipaddrFromStrLoop_digits (digits : ∀ c ∈ field, IsDigit c) :
    ipaddrFromStrLoop (field ++ back) dest p (UInt8.ofNat n) =
      ipaddrFromStrLoop back dest p
        (UInt8.ofNat (field.foldl (fun acc c => 10 * acc + digit c) n)) := by
  induction field generalizing n with
  | nil => rfl
  | cons c field ih =>
      have isDigit := digits c List.mem_cons_self
      have low : 48 ≤ c := isDigit.left
      have notNul : c ≠ 0 := by
        rintro rfl
        exact absurd low (by decide)
      have step : UInt8.ofNat n * 10 + c - 48 = UInt8.ofNat (10 * n + digit c) := by
        have bits : c - 48 = UInt8.ofNat (digit c) := by
          rw [← UInt8.ofNat_toNat (x := c - 48), UInt8.toNat_sub_of_le _ _ low]
          rfl
        rw [UInt8.ofNat_add, UInt8.ofNat_mul, ← bits, UInt8.mul_comm, UInt8.sub_eq_add_neg,
          UInt8.sub_eq_add_neg, UInt8.add_assoc]
        rfl
      rw [List.cons_append, ipaddrFromStrLoop, if_neg notNul, if_pos ⟨low, isDigit.right⟩, step,
        ih fun d member => digits d (List.mem_cons_of_mem _ member)]
      rfl

theorem ipaddrFromStrLoop_dotted (digits : ∀ field ∈ fields, ∀ c ∈ field, IsDigit c)
    (lastDigits : ∀ c ∈ last, IsDigit c) (inside : p ≤ dest.length) :
    ipaddrFromStrLoop (dotted (fields ++ [last]) ++ back) dest p 0 =
      (memcpy dest p (fields.map fun field => UInt8.ofNat (value field))).bind fun dest =>
        ipaddrFromStrLoop back dest (p + fields.length) (UInt8.ofNat (value last)) := by
  induction fields generalizing dest p with
  | nil =>
      rw [List.map_nil, memcpy_nil inside]
      exact ipaddrFromStrLoop_digits (n := 0) lastDigits
  | cons field fields ih =>
      have inField := digits field List.mem_cons_self
      have inFields : ∀ field ∈ fields, ∀ c ∈ field, IsDigit c := by
        intro field member
        exact digits field (List.mem_cons_of_mem _ member)
      have isValue := @ipaddrFromStrLoop_digits field
        (46 :: (dotted (fields ++ [last]) ++ back)) dest p 0 inField
      have more : fields ++ [last] ≠ [] :=
        List.append_ne_nil_of_right_ne_nil _ (List.cons_ne_nil _ _)
      rw [List.cons_append, dotted_cons more, List.append_assoc, List.cons_append]
      refine isValue.trans ?_
      have stores : (memcpy dest p [UInt8.ofNat (value field)]).bind (fun dest =>
            memcpy dest (p + 1) (fields.map fun field => UInt8.ofNat (value field))) =
          memcpy dest p
            (UInt8.ofNat (value field) :: fields.map fun field => UInt8.ofNat (value field)) :=
        memcpy_append
      rw [ipaddrFromStrLoop, if_neg (by decide), if_neg (by decide), if_pos rfl, List.map_cons,
        ← stores, Option.bind_assoc]
      apply Option.bind_congr
      intro dest' stored
      have room : p + 1 ≤ dest'.length := by
        obtain ⟨upTo, size⟩ := memcpy_size stored
        rw [size]
        exact upTo
      rw [ih inFields room, List.length_cons, Nat.add_right_comm, Nat.add_assoc]

theorem exists_dotted (allowed : ∀ c ∈ text, IsAddrChar c) :
    ∃ fields last, text = dotted (fields ++ [last]) ∧
      (∀ field ∈ fields, ∀ c ∈ field, IsDigit c) ∧ (∀ c ∈ last, IsDigit c) ∧
      fields.length = text.count 46 := by
  induction text with
  | nil =>
      refine ⟨[], [], rfl, ?_, ?_, rfl⟩
      · intro field member
        exact absurd member List.not_mem_nil
      · intro c member
        exact absurd member List.not_mem_nil
  | cons c text ih =>
      obtain ⟨fields, last, rfl, digits, lastDigits, count⟩ :=
        ih fun d member => allowed d (List.mem_cons_of_mem _ member)
      rcases allowed c List.mem_cons_self with isDigit | rfl
      · have notDot : c ≠ 46 := by
          rintro rfl
          exact absurd isDigit.left (by decide)
        have sameCount : (c :: dotted (fields ++ [last])).count 46 =
            (dotted (fields ++ [last])).count 46 :=
          List.count_cons_of_ne notDot
        rw [sameCount]
        cases fields with
        | nil =>
            refine ⟨[], c :: last, rfl, digits, ?_, count⟩
            intro d member
            rcases List.mem_cons.mp member with rfl | inLast
            · exact isDigit
            · exact lastDigits d inLast
        | cons field fields =>
            have more : fields ++ [last] ≠ [] :=
              List.append_ne_nil_of_right_ne_nil _ (List.cons_ne_nil _ _)
            refine ⟨(c :: field) :: fields, last, ?_, ?_, lastDigits, count⟩
            · rw [List.cons_append, List.cons_append, dotted_cons more, dotted_cons more]
              rfl
            · intro other member d inOther
              rcases List.mem_cons.mp member with rfl | inFields
              · rcases List.mem_cons.mp inOther with rfl | inField
                · exact isDigit
                · exact digits field List.mem_cons_self d inField
              · exact digits other (List.mem_cons_of_mem _ inFields) d inOther
      · refine ⟨[] :: fields, last, ?_, ?_, lastDigits, ?_⟩
        · have more : fields ++ [last] ≠ [] :=
            List.append_ne_nil_of_right_ne_nil _ (List.cons_ne_nil _ _)
          rw [List.cons_append, dotted_cons more]
          rfl
        · intro field member
          rcases List.mem_cons.mp member with rfl | inFields
          · intro d inField
            exact absurd inField List.not_mem_nil
          · exact digits field inFields
        · rw [List.count_cons_self, List.length_cons, count]

theorem dotted_chars (digits : ∀ field ∈ fields, ∀ c ∈ field, IsDigit c) :
    ∀ c ∈ dotted fields, IsAddrChar c := by
  induction fields with
  | nil =>
      intro c member
      exact absurd member List.not_mem_nil
  | cons field fields ih =>
      intro c member
      have inField : ∀ c ∈ field, IsDigit c := digits field List.mem_cons_self
      cases fields with
      | nil => exact Or.inl (inField c member)
      | cons next fields =>
          rcases List.mem_append.mp member with isIn | behind
          · exact Or.inl (inField c isIn)
          · rcases List.mem_cons.mp behind with rfl | inRest
            · exact Or.inr rfl
            · apply ih _ c inRest
              intro other isOther
              exact digits other (List.mem_cons_of_mem _ isOther)

theorem ipaddrFromStr_dotted (digits : ∀ field ∈ fields, ∀ c ∈ field, IsDigit c)
    (lastDigits : ∀ c ∈ last, IsDigit c) :
    ipaddrFromStr (dotted (fields ++ [last]) ++ 0 :: back) =
      (memcpy (List.replicate 4 0) 0
        ((fields ++ [last]).map fun field => UInt8.ofNat (value field))).map
          fun dest => (.ok, dest) := by
  rw [ipaddrFromStr, ipaddrFromStrLoop_dotted digits lastDigits (Nat.zero_le _),
    List.map_append, ← memcpy_append, List.length_map, Option.map_bind]
  apply Option.bind_congr
  intro dest _
  rw [ipaddrFromStrLoop, if_pos rfl]
  rfl

theorem ipaddrFromStr_refuses (digits : ∀ field ∈ fields, ∀ c ∈ field, IsDigit c)
    (lastDigits : ∀ c ∈ last, IsDigit c) (isBad : ¬ IsAddrChar c) (isNonzero : c ≠ 0) :
    ipaddrFromStr (dotted (fields ++ [last]) ++ c :: back) =
      (memcpy (List.replicate 4 0) 0 (fields.map fun field => UInt8.ofNat (value field))).map
        fun dest => (.param, dest) := by
  rw [ipaddrFromStr, ipaddrFromStrLoop_dotted digits lastDigits (Nat.zero_le _),
    Option.map_eq_bind]
  apply Option.bind_congr
  intro dest _
  have notDigit : ¬ (48 ≤ c ∧ c ≤ 57) := fun isDigit => isBad (Or.inl isDigit)
  have notDot : c ≠ 46 := fun isDot => isBad (Or.inr isDot)
  rw [ipaddrFromStrLoop, if_neg isNonzero, if_neg notDigit, if_neg notDot]
  rfl

theorem map_value_eq (numbers : List.Forall₂ (fun byte field => IsNumber field ∧
    value field = byte.toNat) addr fields) :
    (fields.map fun field => UInt8.ofNat (value field)) = addr ∧
      ∀ field ∈ fields, ∀ c ∈ field, IsDigit c := by
  induction numbers with
  | nil => exact ⟨rfl, fun field member => absurd member List.not_mem_nil⟩
  | cons isByte _ ih =>
      obtain ⟨isNumber, isValue⟩ := isByte
      constructor
      · rw [List.map_cons, ih.left, isValue, UInt8.ofNat_toNat]
      · intro field member
        rcases List.mem_cons.mp member with rfl | inFields
        · exact isNumber.digits
        · exact ih.right field inFields

theorem IsAddrText.split (isText : IsAddrText addr text) :
    ∃ fields last, text = dotted (fields ++ [last]) ∧ addr.length = 4 ∧
      ((fields ++ [last]).map fun field => UInt8.ofNat (value field)) = addr ∧
      (∀ field ∈ fields, ∀ c ∈ field, IsDigit c) ∧ ∀ c ∈ last, IsDigit c := by
  obtain ⟨fields, size, rfl, numbers⟩ := isText
  obtain ⟨values, digits⟩ := map_value_eq numbers
  rcases List.eq_nil_or_concat' fields with rfl | ⟨front, last, rfl⟩
  · cases numbers
    cases size
  · refine ⟨front, last, rfl, size, values, ?_, ?_⟩
    · intro field member
      exact digits field (List.mem_append_left _ member)
    · exact digits last (List.mem_append_right _ List.mem_cons_self)

theorem ipaddrFromStr_text (isText : IsAddrText addr text) :
    ipaddrFromStr (text ++ 0 :: back) = some (.ok, addr) := by
  obtain ⟨fields, last, rfl, size, values, digits, lastDigits⟩ := isText.split
  rw [ipaddrFromStr_dotted digits lastDigits, values, memcpy_isSome, List.take_zero,
    List.drop_of_length_le, List.append_nil]
  · rfl
  · rw [List.length_replicate, size]
  · rw [List.length_replicate, size]

theorem IsAddrText.chars (isText : IsAddrText addr text) : ∀ c ∈ text, IsAddrChar c := by
  obtain ⟨fields, -, rfl, numbers⟩ := isText
  exact dotted_chars (map_value_eq numbers).right

theorem exists_first_bad (isBad : ¬ ∀ c ∈ text, IsAddrChar c) :
    ∃ front c back, text = front ++ c :: back ∧ (∀ d ∈ front, IsAddrChar d) ∧
      ¬ IsAddrChar c := by
  induction text with
  | nil => exact absurd (fun c member => absurd member List.not_mem_nil) isBad
  | cons c text ih =>
      by_cases isChar : IsAddrChar c
      · have behind : ¬ ∀ d ∈ text, IsAddrChar d := by
          intro allowed
          apply isBad
          intro d member
          rcases List.mem_cons.mp member with rfl | inText
          · exact isChar
          · exact allowed d inText
        obtain ⟨front, d, back, rfl, before, dBad⟩ := ih behind
        refine ⟨c :: front, d, back, rfl, ?_, dBad⟩
        intro e member
        rcases List.mem_cons.mp member with rfl | inFront
        · exact isChar
        · exact before e inFront
      · exact ⟨[], c, text, rfl, fun d member => absurd member List.not_mem_nil, isChar⟩

theorem fromStrRight_iff (string : CText) : FromStrRight string ↔ FromStrCond string := by
  constructor
  · rintro ⟨err, dest, run, accepted, -⟩
    by_cases allowed : ∀ c ∈ string.chars, IsAddrChar c
    · obtain ⟨fields, last, isDotted, digits, lastDigits, -⟩ := exists_dotted allowed
      rw [isDotted, ipaddrFromStr_dotted digits lastDigits] at run
      obtain ⟨_, -, isOk⟩ := Option.map_eq_some_iff.mp run
      exact Or.inl (accepted.mp (Prod.mk.inj isOk).left.symm)
    · obtain ⟨front, c, back, split, before, isBad⟩ := exists_first_bad allowed
      refine Or.inr ⟨front, c, back, split, before, isBad, ?_⟩
      obtain ⟨fields, last, isDotted, digits, lastDigits, count⟩ := exists_dotted before
      have isNonzero : c ≠ 0 := by
        rintro rfl
        exact string.noNul (split ▸ List.mem_append_right _ List.mem_cons_self)
      rw [split, List.append_assoc, List.cons_append, isDotted,
        ipaddrFromStr_refuses digits lastDigits isBad isNonzero] at run
      obtain ⟨_, stored, -⟩ := Option.map_eq_some_iff.mp run
      have room := (memcpy_size stored).left
      rw [List.length_map, List.length_replicate] at room
      omega
  · rintro (⟨addr, isText⟩ | ⟨front, c, back, split, before, isBad, count⟩)
    · have run : ipaddrFromStr (string.chars ++ [0]) = some (.ok, addr) :=
        ipaddrFromStr_text isText
      refine ⟨.ok, addr, run, ?_, ?_⟩
      · exact iff_of_true rfl ⟨addr, isText⟩
      · intro other isOther
        have run' : ipaddrFromStr (string.chars ++ [0]) = some (.ok, other) :=
          ipaddrFromStr_text isOther
        rw [run] at run'
        exact (Prod.mk.inj (Option.some.inj run')).right
    · have noText : ∀ addr, ¬ IsAddrText addr string.chars := by
        intro addr isText
        apply isBad
        apply isText.chars
        rw [split]
        exact List.mem_append_right _ List.mem_cons_self
      obtain ⟨fields, last, isDotted, digits, lastDigits, isCount⟩ := exists_dotted before
      have isNonzero : c ≠ 0 := by
        rintro rfl
        exact string.noNul (split ▸ List.mem_append_right _ List.mem_cons_self)
      have room : 0 + (fields.map fun field => UInt8.ofNat (value field)).length ≤
          (List.replicate 4 (0 : UInt8)).length := by
        rw [List.length_map, List.length_replicate]
        omega
      have run := @ipaddrFromStr_refuses fields last (back ++ [0]) c digits lastDigits isBad
        isNonzero
      rw [memcpy_isSome room, ← isDotted, ← List.cons_append, ← List.append_assoc, ← split] at run
      refine ⟨.param, _, run, ?_, ?_⟩
      · apply iff_of_false
        · intro same
          cases same
        · rintro ⟨addr, isText⟩
          exact noText addr isText
      · intro addr isText
        exact absurd isText (noText addr)

end Fields

section Tokens

variable {front field back mem mem' : List UInt8} {num : Nat → UInt32} {addr : List UInt8}
  {left start savePtr savePtr' : Nat} {token : Option Nat}

theorem number_noSep (isNumber : IsNumber field) : ∀ d ∈ field, d ≠ 0 ∧ d ∉ [46] := by
  intro d member
  have low := (isNumber.digits d member).left
  constructor
  · rintro rfl
    exact absurd low (by decide)
  · intro isDot
    rw [List.mem_singleton.mp isDot] at low
    exact absurd low (by decide)

theorem str2ipLoop_field (isNumber : IsNumber field) (pos : front.length = start)
    (isMem : front ++ field ++ 0 :: back = mem)
    (next : strtok mem none [46] savePtr = some (token, savePtr', mem')) :
    str2ipLoop num (left + 1) addr (some start) savePtr mem =
      str2ipLoop num left (addr.set (3 - left) (UInt8.ofNat (value field))) token savePtr'
        mem' := by
  subst isMem pos
  rw [str2ipLoop]
  simp only [str2num_field isNumber, Option.bind_eq_bind, Option.bind_some, next]
  rw [UInt32.toUInt8_ofNat']

theorem str2ip_fields {f₀ f₁ f₂ f₃ : List UInt8} (isNumber₀ : IsNumber f₀)
    (isNumber₁ : IsNumber f₁) (isNumber₂ : IsNumber f₂) (isNumber₃ : IsNumber f₃)
    (size : addr.length = 4) :
    ((strtok (dotted [f₀, f₁, f₂, f₃] ++ 0 :: back) (some 0) [46] savePtr).bind
      fun (token, savePtr, mem) => str2ipLoop num 4 addr token savePtr mem) =
      some ([f₀, f₁, f₂, f₃].map fun field => UInt8.ofNat (value field)) := by
  -- one token after the other, each with the dot behind it cleared
  have token₀ := @strtok_field [] f₀ (f₁ ++ 46 :: (f₂ ++ 46 :: (f₃ ++ 0 :: back))) 46 [46]
    (some 0) savePtr rfl isNumber₀.nonempty (number_noSep isNumber₀) List.mem_cons_self
    (by decide)
  have token₁ := @strtok_field (f₀ ++ [0]) f₁ (f₂ ++ 46 :: (f₃ ++ 0 :: back)) 46 [46]
    none (f₀ ++ [0]).length rfl isNumber₁.nonempty (number_noSep isNumber₁) List.mem_cons_self
    (by decide)
  have token₂ := @strtok_field (f₀ ++ [0] ++ f₁ ++ [0]) f₂ (f₃ ++ 0 :: back) 46 [46]
    none (f₀ ++ [0] ++ f₁ ++ [0]).length rfl isNumber₂.nonempty (number_noSep isNumber₂)
    List.mem_cons_self (by decide)
  have token₃ := @strtok_last (f₀ ++ [0] ++ f₁ ++ [0] ++ f₂ ++ [0]) f₃ back [46]
    none (f₀ ++ [0] ++ f₁ ++ [0] ++ f₂ ++ [0]).length rfl isNumber₃.nonempty
    (number_noSep isNumber₃)
  have token₄ := @strtok_end (f₀ ++ [0] ++ f₁ ++ [0] ++ f₂ ++ [0] ++ f₃) back [46]
  simp only [List.length_append, List.length_singleton, List.length_nil, Nat.zero_add]
    at token₀ token₁ token₂ token₃ token₄
  simp only [List.append_assoc, List.cons_append, List.nil_append]
    at token₀ token₁ token₂ token₃ token₄
  have isMem : dotted [f₀, f₁, f₂, f₃] ++ 0 :: back =
      f₀ ++ 46 :: (f₁ ++ 46 :: (f₂ ++ 46 :: (f₃ ++ 0 :: back))) := by
    simp only [dotted, List.append_assoc, List.cons_append]
  rw [isMem, token₀, Option.bind_some]
  dsimp only
  have at₁ : (f₀ ++ [0]).length = f₀.length + 1 := by
    simp only [List.length_append, List.length_singleton]
  have at₂ : (f₀ ++ [0] ++ f₁ ++ [0]).length = f₀.length + 1 + f₁.length + 1 := by
    simp only [List.length_append, List.length_singleton]
  have at₃ : (f₀ ++ [0] ++ f₁ ++ [0] ++ f₂ ++ [0]).length =
      f₀.length + 1 + f₁.length + 1 + f₂.length + 1 := by
    simp only [List.length_append, List.length_singleton]
  have isMem₁ : f₀ ++ [0] ++ f₁ ++ 0 :: (f₂ ++ 46 :: (f₃ ++ 0 :: back)) =
      f₀ ++ 0 :: (f₁ ++ 0 :: (f₂ ++ 46 :: (f₃ ++ 0 :: back))) := by
    simp only [List.append_assoc, List.cons_append, List.nil_append]
  have isMem₂ : f₀ ++ [0] ++ f₁ ++ [0] ++ f₂ ++ 0 :: (f₃ ++ 0 :: back) =
      f₀ ++ 0 :: (f₁ ++ 0 :: (f₂ ++ 0 :: (f₃ ++ 0 :: back))) := by
    simp only [List.append_assoc, List.cons_append, List.nil_append]
  have isMem₃ : f₀ ++ [0] ++ f₁ ++ [0] ++ f₂ ++ [0] ++ f₃ ++ 0 :: back =
      f₀ ++ 0 :: (f₁ ++ 0 :: (f₂ ++ 0 :: (f₃ ++ 0 :: back))) := by
    simp only [List.append_assoc, List.cons_append, List.nil_append]
  refine (str2ipLoop_field isNumber₀ List.length_nil rfl token₁).trans ?_
  refine (str2ipLoop_field isNumber₁ at₁ isMem₁ token₂).trans ?_
  refine (str2ipLoop_field isNumber₂ at₂ isMem₂ token₃).trans ?_
  refine (str2ipLoop_field isNumber₃ at₃ isMem₃ token₄).trans ?_
  match addr, size with
  | [_, _, _, _], _ => rfl

end Tokens

section Text

variable {addr text str buf : List UInt8} {byte : UInt8} {field : List UInt8}

theorem CanonicalText.isAddrText (size : addr.length = 4) (canonical : CanonicalText addr text) :
    IsAddrText addr text := by
  obtain ⟨fields, rfl, isCanonical⟩ := canonical
  refine ⟨fields, size, rfl, isCanonical.imp ?_⟩
  intro byte field isText
  exact ⟨isText.isNumber, isText.denotes⟩

theorem IsAddrText.noNul (isText : IsAddrText addr text) : 0 ∉ text := by
  intro member
  rcases isText.chars 0 member with isDigit | isDot
  · exact absurd isDigit.left (by decide)
  · exact absurd isDot (by decide)

theorem Canonical.length_eq (canonical : Canonical byte.toNat field) :
    field.length = digitsOf byte := by
  obtain ⟨below, above⟩ := canonical.length_bounds
  have positive := List.length_pos_of_ne_nil canonical.isNumber.nonempty
  have isByte : byte.toNat < 256 := byte.toNat_lt
  have small : field.length < 4 := by
    by_contra large
    have power : 10 ^ 3 ≤ 10 ^ (field.length - 1) := Nat.pow_le_pow_right (by decide) (by omega)
    have := above (by omega)
    omega
  have ten : byte < 10 ↔ byte.toNat < 10 := Iff.rfl
  have hundred : byte < 100 ↔ byte.toNat < 100 := Iff.rfl
  rw [digitsOf]
  match isLength : field.length with
  | 0 => omega
  | 1 =>
      rw [isLength] at below
      rw [if_pos (ten.mpr below)]
  | 2 =>
      rw [isLength] at below above
      have low := above (by decide)
      rw [if_neg (mt ten.mp (by omega)), if_pos (hundred.mpr below)]
  | 3 =>
      rw [isLength] at above
      have low := above (by decide)
      rw [if_neg (mt ten.mp (by omega)), if_neg (mt hundred.mp (by omega))]
  | n + 4 => omega

theorem canonicalText_four {a₀ a₁ a₂ a₃ : UInt8} (canonical : CanonicalText [a₀, a₁, a₂, a₃] text) :
    ∃ f₀ f₁ f₂ f₃, text = dotted [f₀, f₁, f₂, f₃] ∧ Canonical a₀.toNat f₀ ∧
      Canonical a₁.toNat f₁ ∧ Canonical a₂.toNat f₂ ∧ Canonical a₃.toNat f₃ := by
  obtain ⟨fields, rfl, isCanonical⟩ := canonical
  cases isCanonical with
  | cons isText₀ rest =>
      cases rest with
      | cons isText₁ rest =>
          cases rest with
          | cons isText₂ rest =>
              cases rest with
              | cons isText₃ rest =>
                  cases rest
                  exact ⟨_, _, _, _, rfl, isText₀, isText₁, isText₂, isText₃⟩

theorem CanonicalText.length_eq {a₀ a₁ a₂ a₃ : UInt8}
    (canonical : CanonicalText [a₀, a₁, a₂, a₃] text) :
    text.length = textSize [a₀, a₁, a₂, a₃] := by
  obtain ⟨f₀, f₁, f₂, f₃, rfl, isText₀, isText₁, isText₂, isText₃⟩ := canonicalText_four canonical
  simp only [dotted, textSize, List.length_append, List.length_cons, List.map_cons, List.map_nil,
    List.sum_cons, List.sum_nil, Canonical.length_eq isText₀, Canonical.length_eq isText₁,
    Canonical.length_eq isText₂, Canonical.length_eq isText₃]
  omega

theorem one_lt_ten : 1 < 10 := by decide

/-- The text that `sprintf` makes of four bytes. -/
def addrText (addr : List UInt8) : List UInt8 :=
  dotted (addr.map fun byte => itoa 10 one_lt_ten byte.toNat)

theorem addrText_canonical : CanonicalText addr (addrText addr) := by
  refine ⟨_, rfl, ?_⟩
  apply List.forall₂_map_right_iff.mpr
  apply List.forall₂_same.mpr
  intro byte _
  exact itoa_canonical byte.toNat _

theorem formatted_addr (a₀ a₁ a₂ a₃ : UInt8) :
    formatted addrFormat ((List.range 4).map fun i => (([a₀, a₁, a₂, a₃].getD i 0).toNat : Int)) =
      some (addrText [a₀, a₁, a₂, a₃]) := by
  have positive (a : UInt8) : ¬ ((a.toNat : Int) < 0) := by
    omega
  have args : (List.range 4).map (fun i => (([a₀, a₁, a₂, a₃].getD i 0).toNat : Int)) =
      [(a₀.toNat : Int), (a₁.toNat : Int), (a₂.toNat : Int), (a₃.toNat : Int)] :=
    rfl
  have unchanged (a : UInt8) : ((a.toNat : Int) % 18446744073709551616).toNat = a.toNat := by
    have small := a.toNat_lt
    omega
  rw [args, addrFormat]
  simp [formatted, positive, unchanged, addrText, dotted]

def cleared (str : List UInt8) : List UInt8 :=
  List.replicate (str.findIdx (· = 0)) 0 ++ str.drop (str.findIdx (· = 0))

theorem ip2str_eq {a₀ a₁ a₂ a₃ : UInt8} (isString : 0 ∈ str) :
    ip2str [a₀, a₁, a₂, a₃] str =
      (memcpy (cleared str) 0 (addrText [a₀, a₁, a₂, a₃])).bind fun buf =>
        (strlen buf 0).map fun _ => buf := by
  have inside : str.findIdx (· = 0) < str.length :=
    List.findIdx_lt_length_of_exists ⟨0, isString, rfl⟩
  have size : strlen str 0 = some (str.findIdx (· = 0)) := by
    rw [strlen, List.drop_zero, Nat.zero_add]
    exact if_pos inside
  have clears : memset str 0 0 (str.findIdx (· = 0)) = some (cleared str) := by
    rw [memset, memcpy_isSome, List.length_replicate, Nat.zero_add]
    · rfl
    · rw [List.length_replicate, Nat.zero_add]
      exact Nat.le_of_lt inside
  rw [ip2str, size, Option.bind_eq_bind, Option.bind_some, clears, Option.bind_eq_bind,
    Option.bind_some, sprintf, formatted_addr]
  simp only [Option.bind_eq_bind, Option.bind_some, Option.bind_assoc, Option.map_eq_bind]
  rfl

theorem cleared_length (isString : 0 ∈ str) : (cleared str).length = str.length := by
  have inside : str.findIdx (· = 0) < str.length :=
    List.findIdx_lt_length_of_exists ⟨0, isString, rfl⟩
  rw [cleared, List.length_append, List.length_replicate, List.length_drop]
  omega

theorem cleared_getD (isString : 0 ∈ str) (i : Nat) : (cleared str).getD i 0 =
    if i ≤ str.findIdx (· = 0) then 0 else str.getD i 0 := by
  have inside : str.findIdx (· = 0) < str.length :=
    List.findIdx_lt_length_of_exists ⟨0, isString, rfl⟩
  have atEnd : str[str.findIdx (· = 0)]? = some 0 := by
    rw [List.getElem?_eq_getElem inside]
    exact congrArg some (of_decide_eq_true (List.findIdx_getElem (w := inside)))
  rw [List.getD_eq_getElem?_getD, List.getD_eq_getElem?_getD, cleared]
  rcases Nat.lt_trichotomy i (str.findIdx (· = 0)) with before | rfl | behind
  · rw [if_pos (Nat.le_of_lt before), List.getElem?_append_left, List.getElem?_replicate,
      if_pos before]
    · rfl
    · rw [List.length_replicate]
      exact before
  · rw [if_pos (Nat.le_refl _), List.getElem?_append_right, List.length_replicate,
      List.getElem?_drop, Nat.sub_self, Nat.add_zero, atEnd]
    · rfl
    · rw [List.length_replicate]
  · rw [if_neg (by omega), List.getElem?_append_right, List.length_replicate,
      List.getElem?_drop]
    · congr 2
      omega
    · rw [List.length_replicate]
      omega

theorem str2ip_eq {frame : Str2ipFrame} (noNul : 0 ∉ text)
    (room : text.length ≤ 15 + frame.behind.length) :
    str2ip frame (text ++ 0 :: str) =
      ((strtok (text ++ (List.replicate 15 0 ++ frame.behind).drop text.length) (some 0) [46]
        frame.savePtr).bind fun (token, savePtr, mem) =>
          str2ipLoop frame.num 4 frame.addr token savePtr mem).map ipAddrFromBuf := by
  have size : strlen (text ++ 0 :: str) 0 = some text.length := @strlen_text [] str text noNul
  have copied : memcpy (List.replicate 15 0 ++ frame.behind) 0 text =
      some (text ++ (List.replicate 15 0 ++ frame.behind).drop text.length) := by
    rw [memcpy_isSome, List.take_zero, List.nil_append, Nat.zero_add]
    rw [List.length_append, List.length_replicate, Nat.zero_add]
    exact room
  rw [str2ip, size, Option.bind_eq_bind, Option.bind_some, List.take_left, copied]
  simp only [Option.bind_eq_bind, Option.bind_some, Option.map_eq_bind, Option.bind_assoc]
  rfl

theorem str2ip_short {a₀ a₁ a₂ a₃ : UInt8} {frame : Str2ipFrame}
    (canonical : CanonicalText [a₀, a₁, a₂, a₃] text) (short : text.length ≤ 14)
    (size : frame.addr.length = 4) :
    str2ip frame (text ++ 0 :: str) = some (ipAddrFromBuf [a₀, a₁, a₂, a₃]) := by
  have noNul := (canonical.isAddrText rfl).noNul
  obtain ⟨f₀, f₁, f₂, f₃, rfl, isText₀, isText₁, isText₂, isText₃⟩ := canonicalText_four canonical
  have ends : ∃ back, (List.replicate 15 0 ++ frame.behind).drop
      (dotted [f₀, f₁, f₂, f₃]).length = 0 :: back := by
    have left : 15 - (dotted [f₀, f₁, f₂, f₃]).length =
        14 - (dotted [f₀, f₁, f₂, f₃]).length + 1 := by
      omega
    rw [List.drop_append_of_le_length (by rw [List.length_replicate]; omega),
      List.drop_replicate, left, List.replicate_succ]
    exact ⟨_, rfl⟩
  obtain ⟨back, behind⟩ := ends
  rw [str2ip_eq noNul (by omega), behind, str2ip_fields isText₀.isNumber isText₁.isNumber
    isText₂.isNumber isText₃.isNumber size]
  simp only [List.map_cons, List.map_nil, isText₀.denotes, isText₁.denotes, isText₂.denotes,
    isText₃.denotes, UInt8.ofNat_toNat, Option.map_some]

theorem str2ip_long {a₀ a₁ a₂ a₃ : UInt8} {frame : Str2ipFrame}
    (canonical : CanonicalText [a₀, a₁, a₂, a₃] text) (long : text.length = 15)
    (size : frame.addr.length = 4) (behind : frame.behind = [48, 0]) :
    str2ip frame (text ++ 0 :: str) =
      some (ipAddrFromBuf [a₀, a₁, a₂, UInt8.ofNat (10 * a₃.toNat)]) := by
  have noNul := (canonical.isAddrText rfl).noNul
  obtain ⟨f₀, f₁, f₂, f₃, rfl, isText₀, isText₁, isText₂, isText₃⟩ := canonicalText_four canonical
  have isDigit : IsDigit 48 := by
    decide
  have copied : dotted [f₀, f₁, f₂, f₃] ++ (List.replicate 15 0 ++ frame.behind).drop
      (dotted [f₀, f₁, f₂, f₃]).length = dotted [f₀, f₁, f₂, f₃ ++ [48]] ++ 0 :: [] := by
    rw [long, behind]
    simp only [dotted, List.append_assoc, List.cons_append, List.nil_append]
    rfl
  rw [str2ip_eq noNul (by omega), copied, str2ip_fields isText₀.isNumber isText₁.isNumber
    isText₂.isNumber (isText₃.isNumber.append_digit isDigit) size]
  simp only [List.map_cons, List.map_nil, isText₀.denotes, isText₁.denotes, isText₂.denotes,
    isText₃.denotes, UInt8.ofNat_toNat, Option.map_some, value_append_digit]
  rfl

theorem ipAddrFromBuf_last {a₀ a₁ a₂ a₃ b : UInt8}
    (same : ipAddrFromBuf [a₀, a₁, a₂, b] = ipAddrFromBuf [a₀, a₁, a₂, a₃]) : b = a₃ := by
  have bits (c : UInt8) : (ipAddrFromBuf [a₀, a₁, a₂, c]).toNat =
      a₀.toNat + 256 * a₁.toNat + 65536 * a₂.toNat + 16777216 * c.toNat := by
    have bound₀ := a₀.toNat_lt
    have bound₁ := a₁.toNat_lt
    have bound₂ := a₂.toNat_lt
    have bound := c.toNat_lt
    have inside : a₀.toNat + 256 * a₁.toNat + 65536 * a₂.toNat + 16777216 * c.toNat < 2 ^ 32 := by
      omega
    exact Nat.mod_eq_of_lt inside
  have values := congrArg UInt32.toNat same
  rw [bits, bits] at values
  apply UInt8.toNat_inj.mp
  omega

theorem textSize_eq {a₀ a₁ a₂ a₃ : UInt8} :
    textSize [a₀, a₁, a₂, a₃] ≤ 15 ∧
      (textSize [a₀, a₁, a₂, a₃] = 15 ↔ ∀ byte ∈ [a₀, a₁, a₂, a₃], ¬ byte < 100) := by
  have most (byte : UInt8) : digitsOf byte ≤ 3 ∧ (digitsOf byte = 3 ↔ ¬ byte < 100) := by
    rw [digitsOf]
    split
    · next small =>
        have below : byte < 100 := UInt8.lt_trans small (by decide)
        exact ⟨by decide, iff_of_false (by decide) (not_not_intro below)⟩
    · split
      · next below => exact ⟨by decide, iff_of_false (by decide) (not_not_intro below)⟩
      · next above => exact ⟨by decide, iff_of_true rfl above⟩
  simp only [List.forall_mem_cons, List.not_mem_nil, false_implies, implies_true, and_true,
    ← (most _).right, textSize, List.map_cons, List.map_nil, List.sum_cons, List.sum_nil]
  have least₀ := (most a₀).left
  have least₁ := (most a₁).left
  have least₂ := (most a₂).left
  have least₃ := (most a₃).left
  omega

theorem textRight_iff {a₀ a₁ a₂ a₃ : UInt8} :
    TextRight [a₀, a₁, a₂, a₃] str ↔ TextCond [a₀, a₁, a₂, a₃] str := by
  have isText := @addrText_canonical [a₀, a₁, a₂, a₃]
  have isLength := isText.length_eq
  constructor
  · rintro ⟨text, rest, run, canonical, -, recovers⟩
    have isString : 0 ∈ str := by
      by_contra noNul
      rw [ip2str, strlen_none noNul] at run
      cases run
    rw [ip2str_eq isString] at run
    obtain ⟨buf, written, read⟩ := Option.bind_eq_some_iff.mp run
    obtain ⟨_, -, rfl⟩ := Option.map_eq_some_iff.mp read
    have room := (memcpy_size written).left
    rw [memcpy_isSome room, List.take_zero, List.nil_append, Nat.zero_add, isLength] at written
    -- both texts have the same length, so the array goes on with the zero
    have sameLength : (addrText [a₀, a₁, a₂, a₃]).length = text.length :=
      isLength.trans canonical.length_eq.symm
    have behind := (List.append_inj (Option.some.inj written) sameLength).right
    have inside : textSize [a₀, a₁, a₂, a₃] < (cleared str).length := by
      have size := congrArg List.length behind
      rw [List.length_drop, List.length_cons] at size
      omega
    have ends : (cleared str).getD (textSize [a₀, a₁, a₂, a₃]) 0 = 0 := by
      have first := congrArg (fun bytes => bytes.getD 0 0) behind
      rw [List.getD_eq_getElem?_getD] at first ⊢
      rw [← Nat.add_zero (textSize _), ← List.getElem?_drop]
      exact first
    rw [cleared_getD isString] at ends
    refine ⟨isString, cleared_length isString ▸ inside, ?_, ?_⟩
    · split at ends
      · next upTo => exact Or.inl upTo
      · exact Or.inr ends
    · by_contra noSmall
      have full : ∀ byte ∈ [a₀, a₁, a₂, a₃], ¬ byte < 100 := by
        intro byte member less
        exact noSmall ⟨byte, member, less⟩
      have long := canonical.length_eq.trans (textSize_eq.right.mpr full)
      let frame : Str2ipFrame := ⟨[48, 0], [0, 0, 0, 0], fun _ => 0, 0⟩
      have read := recovers frame rfl
      rw [@str2ip_long text rest a₀ a₁ a₂ a₃ frame canonical long rfl rfl] at read
      have same := congrArg UInt8.toNat (ipAddrFromBuf_last (Option.some.inj read))
      rw [UInt8.toNat_ofNat'] at same
      have large : ¬ a₃.toNat < 100 := full a₃ (by simp)
      omega
  · rintro ⟨isString, room, ends, byte, member, small⟩
    have inside : textSize [a₀, a₁, a₂, a₃] < (cleared str).length :=
      (cleared_length isString).symm ▸ room
    have isZero : (cleared str).getD (textSize [a₀, a₁, a₂, a₃]) 0 = 0 := by
      rw [cleared_getD isString]
      split
      · rfl
      · next behind => exact ends.resolve_left behind
    have behind : (cleared str).drop (textSize [a₀, a₁, a₂, a₃]) =
        0 :: (cleared str).drop (textSize [a₀, a₁, a₂, a₃] + 1) := by
      rw [List.drop_eq_getElem_cons inside]
      rw [List.getD_eq_getElem?_getD, List.getElem?_eq_getElem inside] at isZero
      exact congrArg (· :: _) isZero
    have written : memcpy (cleared str) 0 (addrText [a₀, a₁, a₂, a₃]) = some
        (addrText [a₀, a₁, a₂, a₃] ++ 0 :: (cleared str).drop (textSize [a₀, a₁, a₂, a₃] + 1)) := by
      rw [memcpy_isSome, List.take_zero, List.nil_append, Nat.zero_add, isLength, behind]
      rw [isLength, Nat.zero_add]
      exact Nat.le_of_lt inside
    have noNul := (isText.isAddrText rfl).noNul
    refine ⟨addrText [a₀, a₁, a₂, a₃], (cleared str).drop (textSize [a₀, a₁, a₂, a₃] + 1), ?_,
      isText, ipaddrFromStr_text (isText.isAddrText rfl), ?_⟩
    · have size := @strlen_text [] ((cleared str).drop (textSize [a₀, a₁, a₂, a₃] + 1)) _ noNul
      rw [List.nil_append, List.length_nil] at size
      rw [ip2str_eq isString, written, Option.bind_some, size]
      rfl
    · intro frame size
      apply str2ip_short isText _ size
      obtain ⟨most, isLong⟩ := @textSize_eq a₀ a₁ a₂ a₃
      have notLong : textSize [a₀, a₁, a₂, a₃] ≠ 15 := by
        intro long
        exact isLong.mp long byte member small
      rw [isLength]
      omega

end Text

/-- `ipaddr_from_str` is right exactly for addresses and for texts that a wrong character ends
in time; a printed text is right and read back exactly if its array is cleared where it ends and
one of the bytes has fewer than three digits. -/
theorem addrText_right (string : CText) (a₀ a₁ a₂ a₃ : UInt8) (str : List UInt8) :
    (FromStrRight string ↔ FromStrCond string) ∧
      (TextRight [a₀, a₁, a₂, a₃] str ↔ TextCond [a₀, a₁, a₂, a₃] str) := by
  constructor
  · exact fromStrRight_iff string
  · exact textRight_iff

/-- `1.1.1.1.1` is written over the end of the four bytes, and `100.100.100.100` from a cleared
array is not read back. -/
theorem long_texts_wrong :
    (∃ string, ¬ FromStrRight string) ∧
      ∃ a₀ a₁ a₂ a₃ str, ¬ TextRight [a₀, a₁, a₂, a₃] str := by
  constructor
  · refine ⟨⟨[49, 46, 49, 46, 49, 46, 49, 46, 49], by decide⟩, ?_⟩
    rintro ⟨err, dest, run, -⟩
    have outside : ipaddrFromStr ([49, 46, 49, 46, 49, 46, 49, 46, 49] ++ [0]) = none := by
      decide
    rw [outside] at run
    cases run
  · refine ⟨100, 100, 100, 100, List.replicate 16 0, ?_⟩
    intro right
    obtain ⟨-, -, -, byte, member, small⟩ := textRight_iff.mp right
    simp only [List.mem_cons, List.not_mem_nil, or_false, or_self] at member
    rw [member] at small
    exact absurd small (by decide)

end CleanOS.Net
