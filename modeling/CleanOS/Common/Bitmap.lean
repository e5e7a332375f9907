import Mathlib.Logic.Function.Basic

/-!
# Bitmaps

`common/lib/bitmap.c`.  `bits` is the memory behind the `bits` pointer, so an
index at or past `bytesLen` reads whatever lies after the bitmap; the scan of
the source does so for the one bit after its end.
-/

namespace CleanOS.Common

/-- `bitmap_t`. -/
structure Bitmap where
  bytesLen : Nat
  bits : Nat → BitVec 8

namespace Bitmap

/-- `bitmap_init`. -/
def init (btm : Bitmap) : Bitmap :=
  { btm with
    bits := fun byteIdx => if byteIdx < btm.bytesLen then 0 else btm.bits byteIdx }

/-- `bitmap_scan_test`. -/
def scanTest (btm : Bitmap) (bitIdx : Nat) : Bool :=
  (btm.bits (bitIdx / 8) &&& (1#8 <<< (bitIdx % 8))) != 0

/-- `bitmap_set`. -/
def set (btm : Bitmap) (bitIdx : Nat) (value : Bool) : Bitmap :=
  let byteIdx := bitIdx / 8
  let mask := 1#8 <<< (bitIdx % 8)
  { btm with
    bits := Function.update btm.bits byteIdx
      (if value then btm.bits byteIdx ||| mask
        else btm.bits byteIdx &&& ~~~mask) }

/-- The loop over full bytes, with `left` bytes of the bitmap ahead. -/
def skipFull (btm : Bitmap) : Nat → Nat → Nat
  | 0, byteIdx => byteIdx
  | left + 1, byteIdx =>
      if btm.bits byteIdx = 0xff then skipFull btm left (byteIdx + 1)
      else byteIdx

def skipSet (byte : BitVec 8) : Nat → Nat → Nat
  | 0, bitIdx => bitIdx
  | left + 1, bitIdx =>
      if byte &&& (1#8 <<< bitIdx) ≠ 0 then skipSet byte left (bitIdx + 1)
      else bitIdx

/-- The loop counting clear bits, with `bitLeft` iterations ahead. -/
def scanRun (btm : Bitmap) (cnt : Nat) : Nat → Nat → Nat → Int
  | 0, _, _ => -1
  | bitLeft + 1, nextBit, findCnt =>
      let findCnt := if btm.scanTest nextBit then 0 else findCnt + 1
      if findCnt = cnt then (nextBit : Int) - cnt + 1
      else scanRun btm cnt bitLeft (nextBit + 1) findCnt

/-- `bitmap_scan`. -/
def scan (btm : Bitmap) (cnt : Nat) : Int :=
  let byteIdx := skipFull btm btm.bytesLen 0
  if byteIdx ≥ btm.bytesLen then -1
  else
    let bitIdx := skipSet (btm.bits byteIdx) 8 0
    if cnt = 1 then ((byteIdx * 8 + bitIdx : Nat) : Int)
    else
      scanRun btm cnt (btm.bytesLen * 8 - (byteIdx * 8 + bitIdx))
        (byteIdx * 8 + bitIdx + 1) 1

/-- The visits of the bits in order, until the visitor returns false. -/
def visit {α : Type} (btm : Bitmap) (visitor : Bitmap → Nat → α → Bool × α) : List Nat → α → α
  | [], arg => arg
  | idxBit :: bits, arg =>
      let (more, arg) := visitor btm idxBit arg
      if more then btm.visit visitor bits arg else arg

/-- The bits of a byte, if it has a value and `fastValue` is not 0, or neither. -/
def visited (btm : Bitmap) (fastValue : BitVec 8) (idxByte : Nat) : List Nat :=
  let hasValue : Bool := 0 < btm.bits idxByte
  if (fastValue != 0 && hasValue) || (fastValue == 0 && !hasValue) then
    (List.range 8).map (idxByte * 8 + ·)
  else []

/-- `bitmap_foreach`. -/
def foreach {α : Type} (btm : Bitmap) (fastValue : BitVec 8)
    (visitor : Bitmap → Nat → α → Bool × α) (arg : α) : α :=
  btm.visit visitor ((List.range btm.bytesLen).flatMap (btm.visited fastValue)) arg

/-- The bit `idx` of the memory behind the bitmap. -/
def bit (btm : Bitmap) (idx : Nat) : Bool :=
  (btm.bits (idx / 8)).getLsbD (idx % 8)

private theorem getLsbD_mask (offset position : Nat) (bound : position < 8) :
    (1#8 <<< offset).getLsbD position = decide (position = offset) := by
  simp only [BitVec.getLsbD_shiftLeft, bound, decide_true, Bool.true_and,
    BitVec.getLsbD_one]
  by_cases same : position = offset
  · subst same
    simp
  · by_cases below : position < offset
    · simp [below, same]
    · have : position - offset ≠ 0 := by omega
      simp [this, same]

private theorem and_mask_eq_zero (byte : BitVec 8) (offset : Nat)
    (bound : offset < 8) :
    byte &&& (1#8 <<< offset) = 0 ↔ byte.getLsbD offset = false := by
  constructor
  · intro zero
    have bitZero := congrArg (fun value => value.getLsbD offset) zero
    simpa [bound] using bitZero
  · intro clear
    apply BitVec.eq_of_getLsbD_eq
    intro position positionBound
    by_cases same : position = offset
    · subst same
      simp [clear]
    · have shifted : (1#8 <<< offset).getLsbD position = false := by
        simp [getLsbD_mask _ _ positionBound, same]
      simp only [BitVec.getLsbD_and, shifted, Bool.and_false]
      simp

@[simp] theorem scanTest_eq_bit (btm : Bitmap) (idx : Nat) :
    btm.scanTest idx = btm.bit idx := by
  have equivalence := and_mask_eq_zero (btm.bits (idx / 8)) (idx % 8)
    (Nat.mod_lt _ (by decide))
  unfold scanTest bit
  cases value : (btm.bits (idx / 8)).getLsbD (idx % 8) with
  | false =>
      have zero := equivalence.mpr value
      simp [zero]
  | true =>
      have nonzero : btm.bits (idx / 8) &&& (1#8 <<< (idx % 8)) ≠ 0 := by
        intro zero
        have clear := equivalence.mp zero
        simp [clear] at value
      simpa using nonzero

@[simp] theorem set_bytesLen (btm : Bitmap) (idx : Nat) (value : Bool) :
    (btm.set idx value).bytesLen = btm.bytesLen := rfl

theorem bit_set (btm : Bitmap) (idx other : Nat) (value : Bool) :
    (btm.set idx value).bit other =
      if other = idx then value else btm.bit other := by
  have otherBound : other % 8 < 8 := Nat.mod_lt _ (by decide)
  unfold bit set
  by_cases sameByte : other / 8 = idx / 8
  · rw [sameByte]
    simp only [Function.update_self]
    by_cases same : other = idx
    · subst same
      cases value <;> simp [otherBound]
    · have differentOffset : ¬ other % 8 = idx % 8 := by omega
      have maskClear : (1#8 <<< (idx % 8)).getLsbD (other % 8) = false := by
        simp [getLsbD_mask _ _ otherBound, differentOffset]
      cases value <;>
        simp only [Bool.false_eq_true, if_true, if_false, BitVec.getLsbD_or,
          BitVec.getLsbD_and, BitVec.getLsbD_not, maskClear, otherBound,
          decide_true, Bool.not_false, Bool.and_true, Bool.or_false, same]
  · have same : other ≠ idx := by
      intro equality
      exact sameByte (by rw [equality])
    simp [sameByte, same]

@[simp] theorem bit_set_self (btm : Bitmap) (idx : Nat) (value : Bool) :
    (btm.set idx value).bit idx = value := by
  simp [bit_set]

theorem bit_set_ne (btm : Bitmap) {idx other : Nat} (value : Bool)
    (different : other ≠ idx) :
    (btm.set idx value).bit other = btm.bit other := by
  simp [bit_set, different]

theorem bit_init (btm : Bitmap) {idx : Nat} (inside : idx < btm.bytesLen * 8) :
    btm.init.bit idx = false := by
  have byteInside : idx / 8 < btm.bytesLen := by omega
  simp [bit, init, byteInside]

theorem skipFull_spec (btm : Bitmap) (left byteIdx : Nat) :
    let found := skipFull btm left byteIdx
    byteIdx ≤ found ∧ found ≤ byteIdx + left ∧
      (∀ other, byteIdx ≤ other → other < found → btm.bits other = 0xff) ∧
      (found < byteIdx + left → btm.bits found ≠ 0xff) := by
  induction left generalizing byteIdx with
  | zero =>
      refine ⟨Nat.le_refl _, by simp [skipFull], ?_, ?_⟩
      · intro other lower upper
        simp only [skipFull] at upper
        omega
      · intro below
        simp [skipFull] at below
  | succ left ih =>
      by_cases full : btm.bits byteIdx = 0xff
      · obtain ⟨lower, upper, before, stopped⟩ := ih (byteIdx + 1)
        simp only [skipFull, full, if_true]
        refine ⟨by omega, by omega, ?_, ?_⟩
        · intro other otherLower otherUpper
          by_cases same : other = byteIdx
          · rw [same, full]
          · exact before other (by omega) otherUpper
        · intro below
          exact stopped (by omega)
      · simp only [skipFull, full, if_false]
        refine ⟨Nat.le_refl _, by omega, ?_, ?_⟩
        · intro other lower upper
          omega
        · intro _
          exact full

private theorem skipSet_spec (byte : BitVec 8) (left bitIdx : Nat)
    (total : bitIdx + left = 8) :
    let found := skipSet byte left bitIdx
    bitIdx ≤ found ∧ found ≤ 8 ∧
      (∀ other, bitIdx ≤ other → other < found → byte.getLsbD other = true) ∧
      (found < 8 → byte.getLsbD found = false) := by
  induction left generalizing bitIdx with
  | zero =>
      refine ⟨Nat.le_refl _, by simp [skipSet]; omega, ?_, ?_⟩
      · intro other lower upper
        simp only [skipSet] at upper
        omega
      · intro below
        simp only [skipSet] at below
        omega
  | succ left ih =>
      have test := and_mask_eq_zero byte bitIdx (by omega)
      by_cases clear : byte &&& (1#8 <<< bitIdx) = 0
      · simp only [skipSet, clear, ne_eq, not_true_eq_false, if_false]
        refine ⟨Nat.le_refl _, by omega, ?_, ?_⟩
        · intro other lower upper
          omega
        · intro _
          exact test.mp clear
      · obtain ⟨lower, upper, before, stopped⟩ := ih (bitIdx + 1) (by omega)
        simp only [skipSet, clear, ne_eq, not_false_eq_true, if_true]
        refine ⟨by omega, upper, ?_, stopped⟩
        intro other otherLower otherUpper
        by_cases same : other = bitIdx
        · subst same
          by_contra bitClear
          exact clear (test.mpr (by simpa using bitClear))
        · exact before other (by omega) otherUpper

private theorem byte_full (byte : BitVec 8)
    (allSet : ∀ offset, offset < 8 → byte.getLsbD offset = true) :
    byte = 0xff := by
  apply BitVec.eq_of_getLsbD_eq
  intro offset bound
  rw [allSet offset bound]
  have : ∀ offset : Fin 8, (0xff#8).getLsbD offset = true := by decide
  exact (this ⟨offset, bound⟩).symm

theorem bit_of_full (btm : Bitmap) {idx : Nat}
    (full : btm.bits (idx / 8) = 0xff) : btm.bit idx = true := by
  have allSet : ∀ offset : Fin 8, (0xff#8).getLsbD offset = true := by decide
  rw [bit, full]
  exact allSet ⟨idx % 8, Nat.mod_lt _ (by decide)⟩

theorem firstClear (btm : Bitmap)
    (below : skipFull btm btm.bytesLen 0 < btm.bytesLen) :
    let byteIdx := skipFull btm btm.bytesLen 0
    let start := byteIdx * 8 + skipSet (btm.bits byteIdx) 8 0
    start < btm.bytesLen * 8 ∧ btm.bit start = false ∧
      ∀ other, other < start → btm.bit other = true := by
  intro byteIdx start
  obtain ⟨-, -, fullBefore, notFull⟩ := skipFull_spec btm btm.bytesLen 0
  obtain ⟨-, upper, setBefore, stopped⟩ :=
    skipSet_spec (btm.bits byteIdx) 8 0 (by omega)
  have offsetBound : skipSet (btm.bits byteIdx) 8 0 < 8 := by
    rcases Nat.lt_or_ge (skipSet (btm.bits byteIdx) 8 0) 8 with small | large
    · exact small
    · exfalso
      apply notFull (by simpa using below)
      apply byte_full
      intro offset bound
      exact setBefore offset (by omega) (by omega)
  have startByte : start / 8 = byteIdx := by omega
  have startOffset : start % 8 = skipSet (btm.bits byteIdx) 8 0 := by omega
  refine ⟨by omega, ?_, ?_⟩
  · rw [bit, startByte, startOffset]
    exact stopped offsetBound
  · intro other before
    by_cases earlier : other / 8 < byteIdx
    · exact bit_of_full btm (fullBefore _ (by omega) earlier)
    · have sameByte : other / 8 = byteIdx := by omega
      rw [bit, sameByte]
      exact setBefore _ (by omega) (by omega)

theorem scan_one (btm : Bitmap) :
    (∃ idx : Nat, btm.scan 1 = (idx : Int) ∧ idx < btm.bytesLen * 8 ∧
      btm.bit idx = false ∧ ∀ other, other < idx → btm.bit other = true) ∨
    (btm.scan 1 = -1 ∧ ∀ idx, idx < btm.bytesLen * 8 → btm.bit idx = true) := by
  by_cases below : skipFull btm btm.bytesLen 0 < btm.bytesLen
  · left
    obtain ⟨inside, clear, before⟩ := firstClear btm below
    refine ⟨_, ?_, inside, clear, before⟩
    simp [scan, Nat.not_le.mpr below]
  · right
    obtain ⟨-, -, fullBefore, -⟩ := skipFull_spec btm btm.bytesLen 0
    refine ⟨by simp [scan, Nat.not_lt.mp below], ?_⟩
    intro idx inside
    exact bit_of_full btm (fullBefore _ (by omega) (by omega))

private theorem scanRun_sound (btm : Bitmap) {cnt : Nat} (positive : 0 < cnt)
    (bitLeft nextBit findCnt : Nat) (countBound : findCnt ≤ nextBit)
    (clearBehind : ∀ idx, nextBit - findCnt ≤ idx → idx < nextBit →
      btm.bit idx = false) :
    scanRun btm cnt bitLeft nextBit findCnt = -1 ∨
      ∃ start : Nat, scanRun btm cnt bitLeft nextBit findCnt = (start : Int) ∧
        start + cnt ≤ nextBit + bitLeft ∧
        ∀ idx, start ≤ idx → idx < start + cnt → btm.bit idx = false := by
  induction bitLeft generalizing nextBit findCnt with
  | zero => exact .inl rfl
  | succ bitLeft ih =>
      simp only [scanRun, scanTest_eq_bit]
      cases bitValue : btm.bit nextBit with
      | true =>
          simp only [if_true]
          rw [if_neg (by omega : ¬ 0 = cnt)]
          rcases ih (nextBit + 1) 0 (by omega) (by
            intro idx lower upper
            omega) with missing | ⟨start, equality, bound, clear⟩
          · exact .inl missing
          · exact .inr ⟨start, equality, by omega, clear⟩
      | false =>
          simp only [Bool.false_eq_true, if_false]
          have clearNow : ∀ idx, nextBit + 1 - (findCnt + 1) ≤ idx →
              idx < nextBit + 1 → btm.bit idx = false := by
            intro idx lower upper
            by_cases same : idx = nextBit
            · rw [same, bitValue]
            · exact clearBehind idx (by omega) (by omega)
          by_cases enough : findCnt + 1 = cnt
          · rw [if_pos enough]
            refine .inr ⟨nextBit + 1 - cnt, by omega, by omega, ?_⟩
            intro idx lower upper
            exact clearNow idx (by omega) (by omega)
          · rw [if_neg enough]
            rcases ih (nextBit + 1) (findCnt + 1) (by omega) clearNow with
              missing | ⟨start, equality, bound, clear⟩
            · exact .inl missing
            · exact .inr ⟨start, equality, by omega, clear⟩

theorem scan_sound (btm : Bitmap) {cnt : Nat} (positive : 0 < cnt) :
    btm.scan cnt = -1 ∨
      ∃ start : Nat, btm.scan cnt = (start : Int) ∧
        start + cnt ≤ btm.bytesLen * 8 + 1 ∧
        ∀ idx, start ≤ idx → idx < start + cnt → btm.bit idx = false := by
  by_cases single : cnt = 1
  · subst single
    rcases btm.scan_one with ⟨idx, found, inside, clear, -⟩ | ⟨missing, -⟩
    · refine .inr ⟨idx, found, by omega, ?_⟩
      intro other lower upper
      rw [show other = idx by omega, clear]
    · exact .inl missing
  · by_cases below : skipFull btm btm.bytesLen 0 < btm.bytesLen
    · obtain ⟨inside, clear, -⟩ := firstClear btm below
      simp only [scan, ge_iff_le, Nat.not_le.mpr below, if_false, single]
      rcases scanRun_sound btm positive
        (btm.bytesLen * 8 - (skipFull btm btm.bytesLen 0 * 8 +
          skipSet (btm.bits (skipFull btm btm.bytesLen 0)) 8 0))
        (skipFull btm btm.bytesLen 0 * 8 +
          skipSet (btm.bits (skipFull btm btm.bytesLen 0)) 8 0 + 1) 1
        (by omega) (by
          intro idx lower upper
          rw [show idx = skipFull btm btm.bytesLen 0 * 8 +
            skipSet (btm.bits (skipFull btm btm.bytesLen 0)) 8 0 by omega]
          exact clear) with missing | ⟨start, equality, bound, allClear⟩
      · exact .inl missing
      · exact .inr ⟨start, equality, by omega, allClear⟩
    · left
      simp [scan, Nat.not_lt.mp below]

private theorem scanRun_least (btm : Bitmap) {cnt bitLeft nextBit findCnt run : Nat}
    (shorter : findCnt < cnt) (behind : findCnt ≤ nextBit) (ahead : nextBit - findCnt ≤ run)
    (inside : run + cnt ≤ nextBit + bitLeft)
    (clear : ∀ idx, run ≤ idx → idx < run + cnt → btm.bit idx = false) :
    ∃ start : Nat, scanRun btm cnt bitLeft nextBit findCnt = (start : Int) ∧ start ≤ run := by
  induction bitLeft generalizing nextBit findCnt with
  | zero => omega
  | succ bitLeft ih =>
      simp only [scanRun, scanTest_eq_bit]
      cases bitValue : btm.bit nextBit with
      | true =>
          -- the run has only clear bits, so it starts behind this bit
          have later : nextBit < run := by
            by_contra notLater
            rw [clear nextBit (by omega) (by omega)] at bitValue
            cases bitValue
          simp only [if_true]
          rw [if_neg (by omega : ¬ 0 = cnt)]
          exact ih (by omega) (Nat.zero_le _) (by omega) (by omega)
      | false =>
          simp only [Bool.false_eq_true, if_false]
          by_cases enough : findCnt + 1 = cnt
          · rw [if_pos enough]
            exact ⟨nextBit - findCnt, by omega, ahead⟩
          · rw [if_neg enough]
            exact ih (by omega) (by omega) (by omega) (by omega)

def HasRun (btm : Bitmap) (limit cnt : Nat) : Prop :=
  ∃ run, run + cnt ≤ limit ∧ ∀ idx, run ≤ idx → idx < run + cnt → btm.bit idx = false

/-- The bits that a scan looks at: those of the bitmap and, for more than one, the bit behind
them. -/
def scanLimit (btm : Bitmap) (cnt : Nat) : Nat :=
  btm.bytesLen * 8 + if cnt = 1 then 0 else 1

/-- Where a run of clear bits is, one is found that is not behind it. -/
theorem scan_least_limit (btm : Bitmap) {cnt run : Nat} (positive : 0 < cnt)
    (inside : run + cnt ≤ btm.scanLimit cnt)
    (clear : ∀ idx, run ≤ idx → idx < run + cnt → btm.bit idx = false) :
    ∃ start : Nat, btm.scan cnt = (start : Int) ∧ start ≤ run ∧
      ∀ idx, start ≤ idx → idx < start + cnt → btm.bit idx = false := by
  have runClear := clear run (Nat.le_refl _) (by omega)
  have runInside : run < btm.bytesLen * 8 := by
    rw [scanLimit] at inside
    split at inside <;> omega
  have found : ∃ start : Nat, btm.scan cnt = (start : Int) ∧ start ≤ run := by
    have below : skipFull btm btm.bytesLen 0 < btm.bytesLen := by
      by_contra full
      obtain ⟨-, -, fullBefore, -⟩ := skipFull_spec btm btm.bytesLen 0
      rw [bit_of_full btm (fullBefore (run / 8) (by omega) (by omega))] at runClear
      cases runClear
    obtain ⟨first, isFirst⟩ : ∃ first, skipFull btm btm.bytesLen 0 * 8 +
      skipSet (btm.bits (skipFull btm btm.bytesLen 0)) 8 0 = first := ⟨_, rfl⟩
    obtain ⟨firstInside, -, before⟩ := firstClear btm below
    rw [isFirst] at firstInside before
    have notBefore : first ≤ run := by
      by_contra later
      rw [before run (by omega)] at runClear
      cases runClear
    simp only [scan, ge_iff_le, Nat.not_le.mpr below, if_false, isFirst]
    by_cases single : cnt = 1
    · rw [if_pos single]
      exact ⟨first, rfl, notBefore⟩
    · rw [scanLimit, if_neg single] at inside
      rw [if_neg single]
      exact scanRun_least btm (by omega) (by omega) (by omega) (by omega) clear
  obtain ⟨start, isStart, notBehind⟩ := found
  refine ⟨start, isStart, notBehind, ?_⟩
  rcases btm.scan_sound positive with missing | ⟨other, isOther, -, otherClear⟩
  · omega
  · obtain rfl : start = other := by omega
    exact otherClear

@[inherit_doc scan_least_limit]
theorem scan_least (btm : Bitmap) {cnt run : Nat} (positive : 0 < cnt)
    (inside : run + cnt ≤ btm.bytesLen * 8)
    (clear : ∀ idx, run ≤ idx → idx < run + cnt → btm.bit idx = false) :
    ∃ start : Nat, btm.scan cnt = (start : Int) ∧ start ≤ run ∧
      ∀ idx, start ≤ idx → idx < start + cnt → btm.bit idx = false :=
  btm.scan_least_limit positive (Nat.le_trans inside (Nat.le_add_right _ _)) clear

theorem scan_cases (btm : Bitmap) {cnt : Nat} (positive : 0 < cnt) :
    (btm.scan cnt = -1 ∧ ¬ btm.HasRun (btm.scanLimit cnt) cnt) ∨
      ∃ start : Nat, btm.scan cnt = (start : Int) ∧ start + cnt ≤ btm.scanLimit cnt ∧
        (∀ idx, start ≤ idx → idx < start + cnt → btm.bit idx = false) ∧
        ∀ run, run + cnt ≤ btm.scanLimit cnt →
          (∀ idx, run ≤ idx → idx < run + cnt → btm.bit idx = false) → start ≤ run := by
  rcases btm.scan_sound positive with missing | ⟨start, isStart, inside, clear⟩
  · refine .inl ⟨missing, ?_⟩
    rintro ⟨run, runInside, runClear⟩
    obtain ⟨start, isStart, -⟩ := btm.scan_least_limit positive runInside runClear
    omega
  · refine .inr ⟨start, isStart, ?_, clear, ?_⟩
    · rw [scanLimit]
      split
      · subst cnt
        rcases btm.scan_one with ⟨idx, isIdx, idxInside, -⟩ | ⟨missing, -⟩
        · omega
        · omega
      · exact inside
    · intro run runInside runClear
      obtain ⟨least, isLeast, notBehind, -⟩ := btm.scan_least_limit positive runInside runClear
      omega

theorem scan_first (btm : Bitmap) {cnt start : Nat} (positive : 0 < cnt)
    (before : ∀ other, other < start → btm.bit other = true)
    (inside : start + cnt ≤ btm.bytesLen * 8)
    (clear : ∀ idx, start ≤ idx → idx < start + cnt → btm.bit idx = false) :
    btm.scan cnt = (start : Int) := by
  obtain ⟨found, isFound, notBehind, foundClear⟩ := btm.scan_least positive inside clear
  have same : found = start := by
    by_contra different
    have isClear := foundClear found (Nat.le_refl _) (by omega)
    rw [before found (by omega)] at isClear
    cases isClear
  rw [isFound, same]

def clearBits (btm : Bitmap) : List Nat :=
  (List.range (btm.bytesLen * 8)).filter fun idx => !btm.bit idx

theorem mem_clearBits {btm : Bitmap} {idx : Nat} :
    idx ∈ btm.clearBits ↔ idx < btm.bytesLen * 8 ∧ btm.bit idx = false := by
  rw [clearBits, List.mem_filter, List.mem_range, Bool.not_eq_true']

theorem clearBits_sorted (btm : Bitmap) : btm.clearBits.Pairwise (· < ·) :=
  List.pairwise_lt_range.sublist List.filter_sublist

theorem clearBits_nodup (btm : Bitmap) : btm.clearBits.Nodup :=
  btm.clearBits_sorted.imp Nat.ne_of_lt

theorem scan_one_nil {btm : Bitmap} (none : btm.clearBits = []) : btm.scan 1 = -1 := by
  rcases btm.scan_one with ⟨idx, -, inside, clear, -⟩ | ⟨missing, -⟩
  · have member := mem_clearBits.mpr ⟨inside, clear⟩
    rw [none] at member
    cases member
  · exact missing

theorem scan_one_cons {btm : Bitmap} {idx : Nat} {rest : List Nat}
    (first : btm.clearBits = idx :: rest) : btm.scan 1 = (idx : Int) := by
  have isClear : idx ∈ btm.clearBits := first ▸ List.mem_cons_self
  obtain ⟨inside, clear⟩ := mem_clearBits.mp isClear
  rcases btm.scan_one with ⟨found, isFound, foundInside, foundClear, before⟩ | ⟨-, allSet⟩
  · have foundMember := mem_clearBits.mpr ⟨foundInside, foundClear⟩
    rw [first] at foundMember
    have sorted := btm.clearBits_sorted
    rw [first] at sorted
    have notAfter : ¬ found > idx := fun after => by
      rw [before idx after] at clear
      cases clear
    rcases List.mem_cons.mp foundMember with same | later
    · rw [isFound, same]
    · exact absurd (List.rel_of_pairwise_cons sorted later) notAfter
  · rw [allSet idx inside] at clear
    cases clear

theorem clearBits_set {btm : Bitmap} {idx : Nat} {rest : List Nat}
    (first : btm.clearBits = idx :: rest) : (btm.set idx true).clearBits = rest := by
  have nodup := btm.clearBits_nodup
  have others : (btm.set idx true).clearBits = btm.clearBits.filter fun other => other ≠ idx := by
    rw [clearBits, clearBits, List.filter_filter, set_bytesLen]
    refine List.filter_congr fun other _ => ?_
    rw [bit_set]
    by_cases same : other = idx
    · simp [same]
    · simp [same]
  rw [first] at nodup others
  obtain ⟨notIn, -⟩ := List.nodup_cons.mp nodup
  rw [others, List.filter_cons_of_neg (by simp), List.filter_eq_self]
  intro other member
  simpa using ne_of_mem_of_not_mem member notIn

end Bitmap

end CleanOS.Common
