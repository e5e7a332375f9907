import CleanOS.Common.Strings
import CleanOS.Common.Trim
import CleanOS.Lib.StoreLog

/-!
# Short file names

`to_sfn`, `from_sfn` and `match_sfn` of `kernel/fs/fat16fs.c`.  A short name has eight characters
and three more, filled up with blanks, and no dot.
-/

namespace CleanOS.Fs

open CleanOS.Common CleanOS.Lib

/-- `SFN_LEN`. -/
def sfnLen : Nat := 11

/-- The stores that the loop of `to_sfn` makes from the index `j` on, in their order.  A dot sets
the index to seven, and the pass adds one. -/
def toSfnLoop : List UInt8 → Nat → List (Nat × UInt8)
  | [], _ => []
  | c :: path, j =>
      if c = 0x2e then toSfnLoop path (7 + 1)
      else
        let c := if 0x61 ≤ c ∧ c ≤ 0x7a then c - 0x61 + 0x41 else c
        (j, c) :: toSfnLoop path (j + 1)

/-- The stores of `to_sfn`, of which `memset` makes the first. -/
def toSfnStores (path : CText) : List (Nat × UInt8) :=
  (List.range sfnLen).map (fun pos => (pos, 0x20)) ++ toSfnLoop path.chars 0

/-- `to_sfn`. -/
def toSfn (buf : Nat → UInt8) (path : CText) : Nat → UInt8 :=
  applyStores some (toSfnStores path) buf

/-- `from_sfn` into a memory, from the memory that begins with a short name.  There is no result
when something is written behind the memory. -/
def fromSfn (dst sfn : List UInt8) : Option (List UInt8) := do
  let dst ← memcpy dst 0 (sfn.take 8)
  if 0 < trimStrlen (sfn.drop 8) then
    let dst ← memcpy dst (trimStrlen dst) [0x2e]
    memcpy dst (trimStrlen dst) ((sfn.drop 8).take 3)
  else some dst

/-- `match_sfn`. -/
def matchSfn (entryName : Nat → UInt8) (path : CText) : Bool :=
  memcmp entryName (toSfn (fun _ => 0) path) sfnLen = 0

def upper (c : UInt8) : UInt8 :=
  if 0x61 ≤ c ∧ c ≤ 0x7a then c - 0x20 else c

def upperName (path : CText) : List UInt8 :=
  path.chars.map upper

def dotSegments (path : CText) : List (List UInt8) :=
  path.chars.splitOnP (· = 0x2e)

def firstSegment (path : CText) : List UInt8 :=
  (dotSegments path).headD []

def laterSegments (path : CText) : List (List UInt8) :=
  (dotSegments path).tail

def NameFits (path : CText) : Prop :=
  (firstSegment path).length ≤ 11 ∧ ∀ segment ∈ laterSegments path, segment.length ≤ 3

def baseChar (path : CText) (pos : Nat) : UInt8 :=
  ((firstSegment path)[pos]?.map upper).getD 0x20

/-- The character at a place behind a dot: of the last piece that is long enough, else what the
first piece has behind its eighth character, else a blank. -/
def extChar (path : CText) (pos : Nat) : UInt8 :=
  ((((laterSegments path).filterMap fun segment => segment[pos]?).getLast?.or
    (firstSegment path)[8 + pos]?).map upper).getD 0x20

def segmentStores (j : Nat) (segment : List UInt8) : List (Nat × UInt8) :=
  (segment.zipIdx j).map fun entry => (entry.2, upper entry.1)

variable {c : UInt8} {path segment : List UInt8} {segments : List (List UInt8)} {j pos : Nat}

theorem upper_eq : (if 0x61 ≤ c ∧ c ≤ 0x7a then c - 0x61 + 0x41 else c) = upper c := by
  rw [upper]
  split
  · grind
  · rfl

theorem toSfnLoop_segments (first : List UInt8) (later : List (List UInt8))
    (isPath : path.splitOnP (· = 0x2e) = first :: later) :
    toSfnLoop path j = segmentStores j first ++ later.flatMap (segmentStores 8) := by
  induction path generalizing j first later with
  | nil =>
      rw [List.splitOnP_nil] at isPath
      cases isPath
      rfl
  | cons c path ih =>
      obtain ⟨next, others, isRest⟩ :=
        List.exists_cons_of_ne_nil (List.splitOnP_ne_nil (· = 0x2e) path)
      rw [List.splitOnP_cons_eq_if_modifyHead, isRest] at isPath
      by_cases dot : c = 0x2e
      · rw [if_pos (decide_eq_true dot)] at isPath
        cases isPath
        rw [toSfnLoop, if_pos dot, ih next others isRest]
        rfl
      · rw [if_neg (by simpa using dot)] at isPath
        cases isPath
        rw [toSfnLoop, if_neg dot, ih next _ isRest, upper_eq]
        rfl

theorem lastStore_segment :
    lastStore (segmentStores j segment) pos =
      if j ≤ pos then segment[pos - j]?.map upper else none := by
  induction segment generalizing j with
  | nil =>
      rw [List.getElem?_nil, Option.map_none, ite_self]
      rfl
  | cons c segment ih =>
      change (lastStore (segmentStores (j + 1) segment) pos).or
        (if j = pos then some (upper c) else none) = _
      rw [ih]
      rcases Nat.lt_trichotomy j pos with before | rfl | behind
      · rw [if_pos (Nat.succ_le_of_lt before), if_neg (Nat.ne_of_lt before), Option.or_none,
          if_pos (Nat.le_of_lt before), show pos - j = pos - (j + 1) + 1 by omega,
          List.getElem?_cons_succ]
      · rw [if_neg (Nat.not_succ_le_self j), if_pos rfl, if_pos (Nat.le_refl j), Nat.sub_self]
        rfl
      · rw [if_neg (by omega), if_neg (by omega), if_neg (by omega)]
        rfl

theorem lastStore_segments :
    lastStore (segments.flatMap (segmentStores 8)) pos =
      if 8 ≤ pos then (segments.filterMap fun segment => segment[pos - 8]?).getLast?.map upper
      else none := by
  induction segments with
  | nil => exact (ite_self _).symm
  | cons segment segments ih =>
      rw [List.flatMap_cons, lastStore_append, ih, lastStore_segment]
      by_cases behind : 8 ≤ pos
      · rw [if_pos behind, if_pos behind, if_pos behind, List.filterMap_cons]
        cases here : segment[pos - 8]? with
        | none => exact Option.or_none
        | some c =>
            rw [List.getLast?_cons]
            cases (segments.filterMap fun segment => segment[pos - 8]?).getLast? <;> rfl
      · rw [if_neg behind, if_neg behind, if_neg behind]
        rfl

variable {path : CText} {buf : Nat → UInt8}

theorem toSfnLoop_path :
    toSfnLoop path.chars 0 =
      segmentStores 0 (firstSegment path) ++ (laterSegments path).flatMap (segmentStores 8) := by
  obtain ⟨first, later, isPath⟩ :=
    List.exists_cons_of_ne_nil (List.splitOnP_ne_nil (· = 0x2e) path.chars)
  rw [toSfnLoop_segments first later isPath, firstSegment, laterSegments, dotSegments, isPath]
  rfl

theorem lastStore_blanks (inside : pos < sfnLen) :
    lastStore ((List.range sfnLen).map fun pos => (pos, (0x20 : UInt8))) pos = some 0x20 := by
  apply lastStore_eq_some
  · exact ⟨(pos, 0x20), List.mem_map.mpr ⟨pos, List.mem_range.mpr inside, rfl⟩, rfl⟩
  · intro entry member _
    obtain ⟨_, _, rfl⟩ := List.mem_map.mp member
    rfl

theorem toSfn_name (inside : pos < sfnLen) :
    toSfn buf path pos = if pos < 8 then baseChar path pos else extChar path (pos - 8) := by
  have stored : toSfn buf path pos = (lastStore (toSfnStores path) pos).getD (buf pos) := by
    apply applyStores_at rfl
    intro entry _ same
    exact Option.some.inj same
  rw [stored, toSfnStores, lastStore_append, lastStore_blanks inside, toSfnLoop_path,
    lastStore_append, lastStore_segments, lastStore_segment, if_pos (Nat.zero_le _), Nat.sub_zero]
  by_cases base : pos < 8
  · rw [if_pos base, if_neg (Nat.not_le_of_lt base), Option.none_or, baseChar]
    cases (firstSegment path)[pos]? <;> rfl
  · have behind : 8 ≤ pos := Nat.le_of_not_lt base
    rw [if_neg base, if_pos behind, extChar, Nat.add_sub_cancel' behind]
    cases ((laterSegments path).filterMap fun segment => segment[pos - 8]?).getLast? with
    | some c => rfl
    | none => cases (firstSegment path)[pos]? <;> rfl

theorem segmentStores_below {bound : Nat} (room : j ≤ bound) :
    (∀ store ∈ segmentStores j segment, store.1 < bound) ↔ j + segment.length ≤ bound := by
  induction segment generalizing j with
  | nil =>
      constructor
      · intro _
        exact room
      · intro _ store member
        cases member
  | cons c segment ih =>
      change (∀ store ∈ (j, upper c) :: segmentStores (j + 1) segment, store.1 < bound) ↔ _
      rw [List.forall_mem_cons, List.length_cons, ← Nat.add_assoc, Nat.add_right_comm]
      constructor
      · intro all
        exact (ih all.1).mp all.2
      · intro fits
        have below : j < bound := by omega
        exact ⟨below, (ih below).mpr fits⟩

def WritesNameOnly (path : CText) : Prop :=
  ∀ store ∈ toSfnStores path, store.1 < sfnLen

theorem writesNameOnly_iff : WritesNameOnly path ↔ NameFits path := by
  have blanks : ∀ store ∈ (List.range sfnLen).map fun pos => (pos, (0x20 : UInt8)),
      store.1 < sfnLen := by
    intro store member
    obtain ⟨pos, inside, rfl⟩ := List.mem_map.mp member
    exact List.mem_range.mp inside
  have first := @segmentStores_below (firstSegment path) 0 sfnLen (Nat.zero_le sfnLen)
  have later : (∀ store ∈ (laterSegments path).flatMap (segmentStores 8), store.1 < sfnLen) ↔
      ∀ segment ∈ laterSegments path, segment.length ≤ 3 := by
    rw [List.forall_mem_flatMap]
    apply forall₂_congr
    intro segment _
    rw [segmentStores_below (by decide), sfnLen]
    omega
  rw [WritesNameOnly, toSfnStores, toSfnLoop_path, List.forall_mem_append, List.forall_mem_append,
    later, first, Nat.zero_add]
  exact and_iff_right blanks

theorem matchSfn_iff {other : CText} :
    matchSfn (toSfn buf path) other = true ↔
      (∀ pos < 8, baseChar path pos = baseChar other pos) ∧
        ∀ pos < 3, extChar path pos = extChar other pos := by
  rw [matchSfn, decide_eq_true_iff, memcmp_eq_zero]
  constructor
  · intro same
    constructor
    · intro pos inside
      have found := same pos (Nat.lt_trans inside (by decide))
      rwa [toSfn_name (Nat.lt_trans inside (by decide)),
        toSfn_name (Nat.lt_trans inside (by decide)), if_pos inside, if_pos inside] at found
    · intro pos inside
      have within : 8 + pos < sfnLen := Nat.add_lt_add_left inside 8
      have found := same (8 + pos) within
      rwa [toSfn_name within, toSfn_name within, if_neg (by omega), if_neg (by omega),
        Nat.add_sub_cancel_left] at found
  · intro same pos inside
    rw [toSfn_name inside, toSfn_name inside]
    by_cases base : pos < 8
    · rw [if_pos base, if_pos base]
      exact same.1 pos base
    · rw [if_neg base, if_neg base]
      apply same.2
      rw [sfnLen] at inside
      omega

/-- Names that differ in more than the case of letters, and that are stored without entries for a
long name, do not match each other's entries. -/
def MatchesApart (path other : CText) : Prop :=
  path.chars.length ≤ sfnLen → other.chars.length ≤ sfnLen → upperName path ≠ upperName other →
    ∀ entry, matchSfn (toSfn entry path) other = false

def PlacesDiffer (path other : CText) : Prop :=
  path.chars.length ≤ sfnLen → other.chars.length ≤ sfnLen → upperName path ≠ upperName other →
    (∃ pos < 8, baseChar path pos ≠ baseChar other pos) ∨
      ∃ pos < 3, extChar path pos ≠ extChar other pos

theorem matchesApart_iff {other : CText} : MatchesApart path other ↔ PlacesDiffer path other := by
  apply imp_congr_right
  intro _
  apply imp_congr_right
  intro _
  apply imp_congr_right
  intro _
  constructor
  · intro apart
    have noMatch := apart fun _ => 0
    by_contra none
    rw [not_or] at none
    rw [matchSfn_iff.mpr] at noMatch
    · cases noMatch
    · constructor
      · intro pos inside
        by_contra differ
        exact none.1 ⟨pos, inside, differ⟩
      · intro pos inside
        by_contra differ
        exact none.2 ⟨pos, inside, differ⟩
  · intro differ entry
    apply Bool.eq_false_iff.mpr
    intro isMatch
    obtain ⟨base, ext⟩ := matchSfn_iff.mp isMatch
    rcases differ with ⟨pos, inside, other⟩ | ⟨pos, inside, other⟩
    · exact other (base pos inside)
    · exact other (ext pos inside)

/-- A path is safe as a short name, beside another path, just when both fit the places of a short
name and, unless they are the same name, differ at one of them. -/
theorem shortNamesSafe_iff (path other : CText) :
    (WritesNameOnly path ∧ WritesNameOnly other ∧ MatchesApart path other) ↔
      NameFits path ∧ NameFits other ∧ PlacesDiffer path other := by
  rw [writesNameOnly_iff, writesNameOnly_iff, matchesApart_iff]

def twelveChars : CText :=
  ⟨[0x61, 0x62, 0x63, 0x64, 0x65, 0x66, 0x67, 0x68, 0x69, 0x6a, 0x6b, 0x6c], by decide⟩

def nineChars : CText :=
  ⟨[0x61, 0x62, 0x63, 0x64, 0x65, 0x66, 0x67, 0x68, 0x78], by decide⟩

def nineCharsDotted : CText :=
  ⟨[0x61, 0x62, 0x63, 0x64, 0x65, 0x66, 0x67, 0x68, 0x2e, 0x78], by decide⟩

/-- The twelfth character is written behind the name, and a ninth character is where the
extension would be. -/
theorem shortNamesSafe_fails :
    ¬ WritesNameOnly twelveChars ∧ ¬ MatchesApart nineChars nineCharsDotted := by
  constructor
  · rw [writesNameOnly_iff]
    intro fits
    exact absurd fits.1 (by decide)
  · rw [matchesApart_iff]
    intro differ
    rcases differ (by decide) (by decide) (by decide) with base | ext
    · exact absurd base (by decide)
    · exact absurd ext (by decide)

theorem upper_upper : upper (upper c) = upper c := by
  rw [upper, upper]
  split
  · rw [if_neg]
    grind
  · rfl

theorem upper_eq_dot : upper c = 0x2e ↔ c = 0x2e := by
  rw [upper]
  split
  · grind
  · rfl

theorem toSfnLoop_upper {path : List UInt8} :
    toSfnLoop (path.map upper) j = toSfnLoop path j := by
  induction path generalizing j with
  | nil => rfl
  | cons c path ih =>
      rw [List.map_cons, toSfnLoop, toSfnLoop, ih, ih, upper_eq, upper_eq, upper_upper]
      by_cases dot : c = 0x2e
      · rw [if_pos dot, if_pos (upper_eq_dot.mpr dot)]
      · rw [if_neg dot, if_neg fun same => dot (upper_eq_dot.mp same)]

theorem toSfn_congr {other : CText} (same : upperName path = upperName other) :
    toSfn buf path = toSfn buf other := by
  have stores : toSfnStores path = toSfnStores other := by
    rw [toSfnStores, toSfnStores, ← toSfnLoop_upper, ← @toSfnLoop_upper _ other.chars]
    exact congrArg (fun chars => _ ++ toSfnLoop chars 0) same
  rw [toSfn, toSfn, stores]

theorem matchSfn_iff_bytes {other : CText} :
    matchSfn (toSfn buf path) other = true ↔
      (List.range sfnLen).map (toSfn buf path) =
        (List.range sfnLen).map (toSfn (fun _ => 0) other) := by
  rw [matchSfn, decide_eq_true_iff, memcmp_eq_zero, List.map_inj_left]
  simp only [List.mem_range]

/-- A valid short name. -/
structure ShortName where
  base : List UInt8
  ext : List UInt8
  baseSize : 1 ≤ base.length ∧ base.length ≤ 8
  extSize : ext.length ≤ 3
  plain : ∀ c ∈ base ++ ext, c ≠ 0 ∧ c ≠ 0x20 ∧ c ≠ 0x2e

namespace ShortName

variable (name : ShortName)

def chars : List UInt8 :=
  if name.ext = [] then name.base else name.base ++ 0x2e :: name.ext

theorem zero_notMem_chars : 0 ∉ name.chars := by
  intro member
  rw [chars] at member
  split at member
  · exact (name.plain 0 (List.mem_append_left _ member)).1 rfl
  · rcases List.mem_append.mp member with base | behind
    · exact (name.plain 0 (List.mem_append_left _ base)).1 rfl
    · rcases List.mem_cons.mp behind with dot | ext
      · exact absurd dot (by decide)
      · exact (name.plain 0 (List.mem_append_right _ ext)).1 rfl

def text : CText :=
  ⟨name.chars, name.zero_notMem_chars⟩

def encoded : List UInt8 :=
  (name.base.map upper ++ List.replicate (8 - name.base.length) 0x20) ++
    (name.ext.map upper ++ List.replicate (3 - name.ext.length) 0x20)

variable {name}

theorem noDot_base : ∀ c ∈ name.base, decide (c = 0x2e) = false := by
  intro c member
  exact decide_eq_false (name.plain c (List.mem_append_left _ member)).2.2

theorem noDot_ext : ∀ c ∈ name.ext, decide (c = 0x2e) = false := by
  intro c member
  exact decide_eq_false (name.plain c (List.mem_append_right _ member)).2.2

theorem dotSegments_text :
    dotSegments name.text = if name.ext = [] then [name.base] else [name.base, name.ext] := by
  change name.chars.splitOnP _ = _
  rw [chars]
  split
  · exact List.splitOnP_eq_singleton noDot_base
  · rw [List.splitOnP_append_cons_of_forall_mem noDot_base _ (decide_eq_true rfl),
      List.splitOnP_eq_singleton noDot_ext]

theorem baseChar_text (pos : Nat) :
    baseChar name.text pos = (name.base[pos]?.map upper).getD 0x20 := by
  have first : firstSegment name.text = name.base := by
    rw [firstSegment, dotSegments_text]
    split <;> rfl
  rw [baseChar, first]

theorem extChar_text (pos : Nat) :
    extChar name.text pos = (name.ext[pos]?.map upper).getD 0x20 := by
  have first : (firstSegment name.text)[8 + pos]? = none := by
    apply List.getElem?_eq_none
    rw [firstSegment, dotSegments_text]
    have short := name.baseSize.2
    split <;> exact Nat.le_trans short (Nat.le_add_right 8 pos)
  rw [extChar, first, Option.or_none, laterSegments, dotSegments_text]
  by_cases noExt : name.ext = []
  · rw [if_pos noExt, noExt]
    rfl
  · rw [if_neg noExt]
    change ((((([name.ext].filterMap fun segment => segment[pos]?).getLast?)).map upper).getD _) = _
    rw [List.filterMap_cons]
    cases name.ext[pos]? <;> rfl

theorem padded_getElem? {size : Nat} (inside : pos < size) :
    (segment.map upper ++ List.replicate (size - segment.length) 0x20)[pos]? =
      some ((segment[pos]?.map upper).getD 0x20) := by
  by_cases within : pos < segment.length
  · rw [List.getElem?_append_left (by rwa [List.length_map]), List.getElem?_map,
      List.getElem?_eq_getElem within]
    rfl
  · have behind : segment.length ≤ pos := Nat.le_of_not_lt within
    rw [List.getElem?_append_right (by rwa [List.length_map]), List.getElem?_eq_none behind,
      List.length_map, List.getElem?_replicate, if_pos (by omega)]
    rfl

theorem base_length :
    (name.base.map upper ++ List.replicate (8 - name.base.length) 0x20).length = 8 := by
  have short := name.baseSize.2
  simp only [List.length_append, List.length_map, List.length_replicate]
  omega

theorem ext_length :
    (name.ext.map upper ++ List.replicate (3 - name.ext.length) 0x20).length = 3 := by
  have short := name.extSize
  simp only [List.length_append, List.length_map, List.length_replicate]
  omega

theorem encoded_length : name.encoded.length = sfnLen := by
  rw [encoded, List.length_append, base_length, ext_length]
  rfl

theorem toSfn_text : (List.range sfnLen).map (toSfn buf name.text) = name.encoded := by
  apply List.ext_getElem?
  intro pos
  by_cases inside : pos < sfnLen
  · rw [List.getElem?_map, List.getElem?_range inside, Option.map_some, toSfn_name inside, encoded]
    by_cases base : pos < 8
    · rw [if_pos base, List.getElem?_append_left (by rwa [base_length]), padded_getElem? base,
        baseChar_text]
    · rw [if_neg base, List.getElem?_append_right (by rw [base_length]; omega), base_length,
        padded_getElem? (by rw [sfnLen] at inside; omega), extChar_text]
  · rw [List.getElem?_eq_none (by simpa using inside),
      List.getElem?_eq_none (by rw [encoded_length]; omega)]

theorem upper_plain (plain : c ≠ 0 ∧ c ≠ 0x20 ∧ c ≠ 0x2e) : upper c ≠ 0x20 ∧ upper c ≠ 0 := by
  rw [upper]
  split
  · next letter =>
      constructor
      · grind
      · grind
  · exact ⟨plain.2.1, plain.1⟩

theorem plainUpper_base : ∀ d ∈ name.base.map upper, d ≠ 0x20 ∧ d ≠ 0 := by
  intro d member
  obtain ⟨c, inside, rfl⟩ := List.mem_map.mp member
  exact upper_plain (name.plain c (List.mem_append_left _ inside))

theorem plainUpper_ext : ∀ d ∈ name.ext.map upper, d ≠ 0x20 ∧ d ≠ 0 := by
  intro d member
  obtain ⟨c, inside, rfl⟩ := List.mem_map.mp member
  exact upper_plain (name.plain c (List.mem_append_right _ inside))

theorem upperName_text :
    upperName name.text =
      if name.ext = [] then name.base.map upper
      else name.base.map upper ++ [0x2e] ++ name.ext.map upper := by
  change name.chars.map upper = _
  rw [chars]
  split
  · rfl
  · rw [List.map_append, List.append_assoc]
    rfl

theorem plainUpper_dotted : ∀ d ∈ name.base.map upper ++ [0x2e], d ≠ 0x20 ∧ d ≠ 0 := by
  intro d member
  rcases List.mem_append.mp member with base | dot
  · exact plainUpper_base d base
  · rw [List.mem_singleton.mp dot]
    constructor
    · decide
    · decide

theorem plainUpper_text : ∀ d ∈ upperName name.text, d ≠ 0x20 ∧ d ≠ 0 := by
  intro d member
  rw [upperName_text] at member
  split at member
  · exact plainUpper_base d member
  · rcases List.mem_append.mp member with dotted | ext
    · exact plainUpper_dotted d dotted
    · exact plainUpper_ext d ext

theorem fromSfn_base {size : Nat} (room : 13 ≤ size) (behind : List UInt8) :
    memcpy (List.replicate size 0) 0 ((name.encoded ++ behind).take 8) =
      some (name.base.map upper ++ blankTail (8 - name.base.length) (size - 8)) := by
  have bytes : (name.encoded ++ behind).take 8 =
      name.base.map upper ++ List.replicate (8 - name.base.length) 0x20 := by
    rw [encoded, List.append_assoc]
    exact List.take_left' base_length
  have copied := @memcpy_behind [] (List.replicate size 0)
    (name.base.map upper ++ List.replicate (8 - name.base.length) 0x20)
    (by rw [base_length, List.length_replicate]; omega)
  rw [base_length, List.drop_replicate, List.nil_append, List.nil_append, List.append_assoc]
    at copied
  rw [bytes]
  exact copied

theorem drop_encoded (behind : List UInt8) :
    (name.encoded ++ behind).drop 8 =
      name.ext.map upper ++ List.replicate (3 - name.ext.length) 0x20 ++ behind := by
  rw [encoded, List.append_assoc]
  exact List.drop_left' base_length

theorem trimStrlen_ext (behind : List UInt8) :
    0 < trimStrlen
        (name.ext.map upper ++ List.replicate (3 - name.ext.length) 0x20 ++ behind) ↔
      name.ext ≠ [] := by
  have plain : ∀ d ∈ name.ext.map upper, d ≠ 0x20 ∧ d ≠ 0 := plainUpper_ext
  cases isExt : name.ext with
  | nil =>
      constructor
      · intro positive
        exact absurd positive (Nat.not_lt_zero 0)
      · intro some
        exact absurd rfl some
  | cons c ext =>
      constructor
      · intro _
        exact List.cons_ne_nil c ext
      · intro _
        have first := plain (upper c) (by rw [isExt]; exact List.mem_cons_self)
        change 0 < List.findIdx _ (upper c :: (ext.map upper ++ _ ++ behind))
        rw [List.findIdx_cons, decide_eq_false (not_or.mpr first)]
        exact Nat.succ_pos _

theorem fromSfn_encoded {size : Nat} (room : 13 ≤ size) (behind : List UInt8) :
    ∃ blanks zeros, 0 < zeros ∧
      fromSfn (List.replicate size 0) (name.encoded ++ behind) =
        some (upperName name.text ++ blankTail blanks zeros) := by
  rw [fromSfn, fromSfn_base room, drop_encoded]
  by_cases noExt : name.ext = []
  · refine ⟨8 - name.base.length, size - 8, by omega, ?_⟩
    rw [upperName_text, if_pos noExt]
    exact if_neg fun positive => (trimStrlen_ext behind).mp positive noExt
  · have taken : (name.ext.map upper ++ List.replicate (3 - name.ext.length) 0x20 ++ behind).take 3 =
        name.ext.map upper ++ List.replicate (3 - name.ext.length) 0x20 :=
      List.take_left' ext_length
    obtain ⟨blanks, zeros, enough, isTail⟩ : ∃ blanks zeros, 3 < zeros ∧
        (blankTail (8 - name.base.length) (size - 8)).drop 1 = blankTail blanks zeros := by
      refine ⟨_, _, ?_, drop_blankTail 1⟩
      omega
    have oneRoom : [(0x2e : UInt8)].length ≤
        (blankTail (8 - name.base.length) (size - 8)).length := by
      rw [blankTail, List.length_append, List.length_replicate, List.length_replicate,
        List.length_singleton]
      omega
    have extRoom : (name.ext.map upper ++ List.replicate (3 - name.ext.length) 0x20).length ≤
        (blankTail blanks zeros).length := by
      rw [ext_length, blankTail, List.length_append, List.length_replicate, List.length_replicate]
      omega
    have someZeros : 0 < size - 8 := by omega
    have moreZeros : 0 < zeros := by omega
    refine ⟨3 - name.ext.length + (blanks - 3), zeros - (3 - blanks), by omega, ?_⟩
    simp only [Option.bind_eq_bind, Option.bind_some,
      if_pos ((trimStrlen_ext behind).mpr noExt), trimStrlen_blankTail plainUpper_base someZeros,
      memcpy_behind oneRoom]
    rw [List.length_singleton, isTail, trimStrlen_blankTail plainUpper_dotted moreZeros,
      taken, memcpy_behind extRoom, ext_length, drop_blankTail, upperName_text, if_neg noExt,
      ← replicate_blankTail]
    simp only [List.append_assoc]

theorem fromSfn_trim {size : Nat} (room : 13 ≤ size) (behind : List UInt8) :
    ((fromSfn (List.replicate size 0) (name.encoded ++ behind)).bind fun dst =>
      (trim dst).bind fun result => stringAt result.1) = some (upperName name.text) := by
  obtain ⟨blanks, zeros, some, isMemory⟩ := @fromSfn_encoded name _ room behind
  rw [isMemory]
  exact trim_blankTail plainUpper_text some

end ShortName

/-- A short name is read back in upper case, and matches just the names that differ from it in the
case of letters at most. -/
theorem shortName_identifies (name other : ShortName) (entry : Nat → UInt8) (behind : List UInt8)
    {size : Nat} (room : 13 ≤ size) :
    ((fromSfn (List.replicate size 0)
        ((List.range sfnLen).map (toSfn entry name.text) ++ behind)).bind fun dst =>
      (trim dst).bind fun result => stringAt result.1) = some (upperName name.text) ∧
    (matchSfn (toSfn entry name.text) other.text = true ↔
      upperName name.text = upperName other.text) := by
  constructor
  · rw [ShortName.toSfn_text]
    exact ShortName.fromSfn_trim room behind
  · rw [matchSfn_iff_bytes, ShortName.toSfn_text, ShortName.toSfn_text]
    constructor
    · intro same
      have read := @ShortName.fromSfn_trim name _ room behind
      rw [same, ShortName.fromSfn_trim room behind] at read
      exact (Option.some.inj read).symm
    · intro same
      rw [← @ShortName.toSfn_text entry, toSfn_congr same, ShortName.toSfn_text]

def kernelName : ShortName where
  base := [0x6b, 0x65, 0x72, 0x6e, 0x65, 0x6c, 0x30, 0x31]
  ext := [0x6f]
  baseSize := by decide
  extSize := by decide
  plain := by
    intro c member
    simp only [List.cons_append, List.nil_append, List.mem_cons, List.not_mem_nil,
      or_false] at member
    rcases member with rfl | rfl | rfl | rfl | rfl | rfl | rfl | rfl | rfl
    all_goals decide

/-- The name is read into the buffer of `fat16_readdir`. -/
theorem shortName_identifies_kernelName :
    ((fromSfn (List.replicate 128 0)
        ((List.range sfnLen).map (toSfn (fun _ => 0) kernelName.text) ++ [0x20, 0])).bind
      fun dst => (trim dst).bind fun result => stringAt result.1) = some (upperName kernelName.text) ∧
    (matchSfn (toSfn (fun _ => 0) kernelName.text) kernelName.text = true ↔
      upperName kernelName.text = upperName kernelName.text) :=
  shortName_identifies kernelName kernelName (fun _ => 0) [0x20, 0] (by decide)

end CleanOS.Fs
