import CleanOS.Common.Bitmap
import Mathlib.Algebra.Group.Nat.Defs
import Mathlib.Algebra.GroupWithZero.Nat
import Mathlib.Tactic.Basic

/-!
# What a bitmap scan reads

`bitmap_scan` returns an `int`, and its loops read the bytes behind `bits` one at a time.
The loop over full bytes reads a byte before it compares the index with `bytes_len`, and the
counting loop makes as many passes as there are bits from the first clear one on, although it
starts behind that bit.
-/

namespace CleanOS.Common

namespace Bitmap

def skipFullReads (btm : Bitmap) : Nat → Nat → List Nat
  | 0, byteIdx => [byteIdx]
  | left + 1, byteIdx =>
      byteIdx :: if btm.bits byteIdx = 0xff then skipFullReads btm left (byteIdx + 1) else []

def scanRunWords (btm : Bitmap) (cnt : Nat) : Nat → Nat → Nat → Int × List Nat
  | 0, _, _ => (-1, [])
  | bitLeft + 1, nextBit, findCnt =>
      let findCnt := if btm.scanTest nextBit then 0 else findCnt + 1
      if findCnt = cnt then (((nextBit : Int) - cnt + 1).bmod (2 ^ 32), [nextBit / 8])
      else
        let (answer, reads) := scanRunWords btm cnt bitLeft ((nextBit + 1) % 2 ^ 32) findCnt
        (answer, nextBit / 8 :: reads)

/-- `bitmap_scan` on 32-bit words: the `int` that it returns and the bytes that it reads. -/
def scanWords (btm : Bitmap) (cnt : Nat) : Int × List Nat :=
  let byteIdx := skipFull btm btm.bytesLen 0
  let skipped := skipFullReads btm btm.bytesLen 0
  if byteIdx ≥ btm.bytesLen then (-1, skipped)
  else
    let bitIdx := skipSet (btm.bits byteIdx) 8 0
    -- the condition of the loop over set bits holds `bitIdx` times
    let reads := skipped ++ List.replicate (bitIdx + 1) byteIdx
    let first : Nat := (byteIdx * 8 + bitIdx) % 2 ^ 32
    if cnt = 1 then ((first : Int).bmod (2 ^ 32), reads)
    else
      let bitLeft : Nat := (btm.bytesLen * 8 + (2 ^ 32 - first)) % 2 ^ 32
      let (answer, counted) := scanRunWords btm cnt bitLeft ((first + 1) % 2 ^ 32) 1
      (answer, reads ++ counted)

/-- The first run of `cnt` clear bits inside the bitmap. -/
structure IsFirstRun (btm : Bitmap) (cnt start : Nat) : Prop where
  inside : start + cnt ≤ btm.bytesLen * 8
  clear : ∀ idx, start ≤ idx → idx < start + cnt → btm.bit idx = false
  least : ∀ run, run + cnt ≤ btm.bytesLen * 8 →
    (∀ idx, run ≤ idx → idx < run + cnt → btm.bit idx = false) → start ≤ run

/-- A scan finds the first run, says when there is none, and reads only the bitmap. -/
structure ScanRight (btm : Bitmap) (cnt : Nat) : Prop where
  found : ∀ start, btm.IsFirstRun cnt start → (btm.scanWords cnt).1 = start
  missing : (btm.scanWords cnt).1 = -1 ↔ ¬ ∃ start, btm.IsFirstRun cnt start
  reads : ∀ byteIdx ∈ (btm.scanWords cnt).2, byteIdx < btm.bytesLen

variable {btm : Bitmap} {cnt start : Nat}

theorem IsFirstRun.unique {other : Nat} (first : btm.IsFirstRun cnt start)
    (again : btm.IsFirstRun cnt other) : start = other :=
  Nat.le_antisymm (first.least other again.inside again.clear)
    (again.least start first.inside first.clear)

theorem IsFirstRun.scan_eq (first : btm.IsFirstRun cnt start) (positive : 0 < cnt) :
    btm.scan cnt = start := by
  obtain ⟨found, isFound, notBehind, clear⟩ := btm.scan_least positive first.inside first.clear
  have inside := first.inside
  have notBefore := first.least found (by omega) clear
  rw [isFound, Nat.le_antisymm notBehind notBefore]

theorem exists_first {run : Nat} (positive : 0 < cnt) (inside : run + cnt ≤ btm.bytesLen * 8)
    (clear : ∀ idx, run ≤ idx → idx < run + cnt → btm.bit idx = false) :
    ∃ start, btm.IsFirstRun cnt start := by
  obtain ⟨found, isFound, notBehind, foundClear⟩ := btm.scan_least positive inside clear
  refine ⟨found, by omega, foundClear, ?_⟩
  intro other otherInside otherClear
  obtain ⟨least, isLeast, before, -⟩ := btm.scan_least positive otherInside otherClear
  omega

theorem skipFullReads_le {left byteIdx : Nat} :
    ∀ read ∈ skipFullReads btm left byteIdx, read ≤ skipFull btm left byteIdx := by
  induction left generalizing byteIdx with
  | zero =>
      intro read member
      rw [List.mem_singleton.mp member]
      exact Nat.le_refl byteIdx
  | succ left ih =>
      intro read member
      rw [skipFullReads] at member
      rw [skipFull]
      split
      · next full =>
          rw [if_pos full] at member
          rcases List.mem_cons.mp member with rfl | later
          · exact Nat.le_trans (Nat.le_succ read) (skipFull_spec btm left (read + 1)).1
          · exact ih read later
      · next notFull =>
          rw [if_neg notFull] at member
          exact Nat.le_of_eq (List.mem_singleton.mp member)

theorem skipFull_mem_reads (left byteIdx : Nat) :
    skipFull btm left byteIdx ∈ skipFullReads btm left byteIdx := by
  induction left generalizing byteIdx with
  | zero => exact List.mem_singleton_self byteIdx
  | succ left ih =>
      rw [skipFull, skipFullReads]
      split
      · exact List.mem_cons_of_mem byteIdx (ih (byteIdx + 1))
      · exact List.mem_cons_self

def scanRunReads (btm : Bitmap) (cnt : Nat) : Nat → Nat → Nat → List Nat
  | 0, _, _ => []
  | bitLeft + 1, nextBit, findCnt =>
      let findCnt := if btm.scanTest nextBit then 0 else findCnt + 1
      nextBit / 8 ::
        if findCnt = cnt then [] else scanRunReads btm cnt bitLeft (nextBit + 1) findCnt

/-- Nothing wraps around as long as the bits are numbered by words. -/
theorem scanRunWords_eq {bitLeft nextBit findCnt : Nat} (fits : nextBit + bitLeft ≤ 2 ^ 32) :
    scanRunWords btm cnt bitLeft nextBit findCnt =
      ((scanRun btm cnt bitLeft nextBit findCnt).bmod (2 ^ 32),
        scanRunReads btm cnt bitLeft nextBit findCnt) := by
  induction bitLeft generalizing nextBit findCnt with
  | zero => rfl
  | succ bitLeft ih =>
      rw [scanRunWords, scanRun, scanRunReads]
      dsimp only
      generalize (if btm.scanTest nextBit = true then 0 else findCnt + 1) = counted
      by_cases enough : counted = cnt
      · rw [if_pos enough, if_pos enough, if_pos enough]
      · rw [if_neg enough, if_neg enough, if_neg enough]
        cases bitLeft with
        | zero => rfl
        | succ left => rw [Nat.mod_eq_of_lt (by omega), ih (by omega)]

theorem scanRunReads_inside {bitLeft nextBit findCnt run : Nat} (shorter : findCnt < cnt)
    (behind : findCnt ≤ nextBit) (ahead : nextBit - findCnt ≤ run)
    (clear : ∀ idx, run ≤ idx → idx < run + cnt → btm.bit idx = false) :
    ∀ read ∈ scanRunReads btm cnt bitLeft nextBit findCnt, read * 8 < run + cnt := by
  induction bitLeft generalizing nextBit findCnt with
  | zero =>
      intro read member
      exact absurd member List.not_mem_nil
  | succ bitLeft ih =>
      intro read member
      rw [scanRunReads, scanTest_eq_bit] at member
      rcases List.mem_cons.mp member with rfl | later
      · omega
      · cases bitValue : btm.bit nextBit with
        | true =>
            -- the run has only clear bits, so it starts behind this bit
            have notInRun : nextBit < run := by
              by_contra notLater
              rw [clear nextBit (by omega) (by omega)] at bitValue
              cases bitValue
            simp only [bitValue, if_true, if_neg (by omega : ¬ 0 = cnt)] at later
            exact ih (by omega) (Nat.zero_le _) (by omega) read later
        | false =>
            simp only [bitValue, Bool.false_eq_true, if_false] at later
            split at later
            · exact absurd later List.not_mem_nil
            · exact ih (by omega) (by omega) (by omega) read later

theorem scanRunReads_last {bitLeft nextBit findCnt : Nat} (behind : findCnt ≤ nextBit)
    (clearBehind : ∀ idx, nextBit - findCnt ≤ idx → idx < nextBit → btm.bit idx = false)
    (positive : 0 < cnt)
    (noRun : ∀ run, run + cnt ≤ nextBit + bitLeft →
      ¬ ∀ idx, run ≤ idx → idx < run + cnt → btm.bit idx = false) :
    (nextBit + bitLeft) / 8 ∈ scanRunReads btm cnt (bitLeft + 1) nextBit findCnt := by
  induction bitLeft generalizing nextBit findCnt with
  | zero => exact List.mem_cons_self
  | succ bitLeft ih =>
      rw [scanRunReads, scanTest_eq_bit]
      apply List.mem_cons_of_mem
      have sameEnd : nextBit + (bitLeft + 1) = nextBit + 1 + bitLeft := by omega
      rw [sameEnd] at noRun ⊢
      cases bitValue : btm.bit nextBit with
      | true =>
          simp only [if_true, if_neg (by omega : ¬ 0 = cnt)]
          apply ih (Nat.zero_le _) _ noRun
          intro idx lower upper
          omega
      | false =>
          have clearNow : ∀ idx, nextBit + 1 - (findCnt + 1) ≤ idx → idx < nextBit + 1 →
              btm.bit idx = false := by
            intro idx lower upper
            by_cases same : idx = nextBit
            · rw [same, bitValue]
            · exact clearBehind idx (by omega) (by omega)
          have notEnough : ¬ findCnt + 1 = cnt := by
            intro enough
            apply noRun (nextBit - findCnt) (by omega)
            intro idx lower upper
            exact clearNow idx (by omega) (by omega)
          simp only [Bool.false_eq_true, if_false, if_neg notEnough]
          exact ih (by omega) clearNow noRun

/-- The bytes that `bitmap_scan` reads. -/
def scanReads (btm : Bitmap) (cnt : Nat) : List Nat :=
  let byteIdx := skipFull btm btm.bytesLen 0
  skipFullReads btm btm.bytesLen 0 ++
    if byteIdx ≥ btm.bytesLen then []
    else
      let bitIdx := skipSet (btm.bits byteIdx) 8 0
      List.replicate (bitIdx + 1) byteIdx ++
        if cnt = 1 then []
        else
          scanRunReads btm cnt (btm.bytesLen * 8 - (byteIdx * 8 + bitIdx))
            (byteIdx * 8 + bitIdx + 1) 1

@[inherit_doc scanRunWords_eq]
theorem scanWords_eq (fits : btm.bytesLen * 8 < 2 ^ 32) :
    btm.scanWords cnt = ((btm.scan cnt).bmod (2 ^ 32), btm.scanReads cnt) := by
  rw [scanWords, scan, scanReads]
  by_cases below : skipFull btm btm.bytesLen 0 < btm.bytesLen
  · obtain ⟨inside, -, -⟩ := firstClear btm below
    obtain ⟨place, isPlace⟩ : ∃ place, skipFull btm btm.bytesLen 0 * 8 +
      skipSet (btm.bits (skipFull btm btm.bytesLen 0)) 8 0 = place := ⟨_, rfl⟩
    rw [isPlace] at inside
    have left : (btm.bytesLen * 8 + (2 ^ 32 - place)) % 2 ^ 32 = btm.bytesLen * 8 - place := by
      omega
    simp only [ge_iff_le, Nat.not_le.mpr below, if_false, isPlace,
      Nat.mod_eq_of_lt (Nat.lt_trans inside fits)]
    split
    · rw [List.append_nil]
    · rw [left, Nat.mod_eq_of_lt (by omega), scanRunWords_eq (by omega), List.append_assoc]
  · simp only [ge_iff_le, Nat.not_lt.mp below, if_true, List.append_nil]
    rfl

theorem scanReads_inside (first : btm.IsFirstRun cnt start) (positive : 0 < cnt) :
    ∀ byteIdx ∈ btm.scanReads cnt, byteIdx < btm.bytesLen := by
  have inside := first.inside
  have startClear := first.clear start (Nat.le_refl _) (by omega)
  have below : skipFull btm btm.bytesLen 0 < btm.bytesLen := by
    by_contra full
    obtain ⟨-, -, fullBefore, -⟩ := skipFull_spec btm btm.bytesLen 0
    rw [bit_of_full btm (fullBefore (start / 8) (by omega) (by omega))] at startClear
    cases startClear
  obtain ⟨-, -, before⟩ := firstClear btm below
  have notBehind : skipFull btm btm.bytesLen 0 * 8 +
      skipSet (btm.bits (skipFull btm btm.bytesLen 0)) 8 0 ≤ start := by
    by_contra later
    rw [before start (by omega)] at startClear
    cases startClear
  intro byteIdx member
  rw [scanReads] at member
  simp only [ge_iff_le, Nat.not_le.mpr below, if_false] at member
  rcases List.mem_append.mp member with skipped | rest
  · exact Nat.lt_of_le_of_lt (skipFullReads_le byteIdx skipped) below
  · rcases List.mem_append.mp rest with atByte | counted
    · rw [List.eq_of_mem_replicate atByte]
      exact below
    · split at counted
      · exact absurd counted List.not_mem_nil
      · have read := scanRunReads_inside (by omega) (by omega) (by omega) first.clear byteIdx
          counted
        omega

theorem scanReads_outside (positive : 0 < cnt)
    (noRun : ¬ ∃ start, btm.IsFirstRun cnt start) : btm.bytesLen ∈ btm.scanReads cnt := by
  rw [scanReads]
  by_cases below : skipFull btm btm.bytesLen 0 < btm.bytesLen
  · obtain ⟨inside, clear, -⟩ := firstClear btm below
    obtain ⟨place, isPlace⟩ : ∃ place, skipFull btm btm.bytesLen 0 * 8 +
      skipSet (btm.bits (skipFull btm btm.bytesLen 0)) 8 0 = place := ⟨_, rfl⟩
    rw [isPlace] at inside clear
    have several : cnt ≠ 1 := by
      intro single
      apply noRun
      refine @exists_first btm cnt place positive (by omega) ?_
      intro idx lower upper
      rw [Nat.le_antisymm (by omega) lower]
      exact clear
    simp only [ge_iff_le, Nat.not_le.mpr below, if_false, several, isPlace]
    apply List.mem_append_right
    apply List.mem_append_right
    obtain ⟨passes, isPasses⟩ : ∃ passes, btm.bytesLen * 8 - place = passes + 1 :=
      ⟨btm.bytesLen * 8 - place - 1, by omega⟩
    have lastBit : (place + 1 + passes) / 8 = btm.bytesLen := by omega
    rw [isPasses, ← lastBit]
    refine scanRunReads_last (Nat.le_add_left 1 place) ?_ positive ?_
    · intro idx lower upper
      rw [Nat.le_antisymm (by omega) lower]
      exact clear
    · intro run runInside runClear
      exact noRun (exists_first positive (by omega) runClear)
  · have atEnd : skipFull btm btm.bytesLen 0 = btm.bytesLen := by
      obtain ⟨-, upper, -, -⟩ := skipFull_spec btm btm.bytesLen 0
      omega
    apply List.mem_append_left
    have read := @skipFull_mem_reads btm btm.bytesLen 0
    rwa [atEnd] at read

/-- A scan of a bitmap, whose number of bits is a `uint32_t`, is right exactly when a run of
clear bits is there and the first one starts at an `int`. -/
theorem scanRight_iff (positive : 0 < cnt) (fits : btm.bytesLen * 8 < 2 ^ 32) :
    btm.ScanRight cnt ↔ ∃ start, btm.IsFirstRun cnt start ∧ start < 2 ^ 31 := by
  have words := @scanWords_eq btm cnt fits
  constructor
  · intro right
    by_cases some : ∃ start, btm.IsFirstRun cnt start
    · obtain ⟨start, first⟩ := some
      refine ⟨start, first, ?_⟩
      have answer := right.found start first
      rw [words, first.scan_eq positive] at answer
      have small := @Int.bmod_lt start (2 ^ 32) (by omega)
      omega
    · have reads := right.reads btm.bytesLen
      rw [words] at reads
      exact absurd (reads (scanReads_outside positive some)) (Nat.lt_irrefl _)
  · rintro ⟨start, first, small⟩
    have isInt : (start : Int).bmod (2 ^ 32) = start := by
      apply Int.bmod_eq_of_le <;> omega
    have answer : (btm.scanWords cnt).1 = start := by
      rw [words]
      dsimp only
      rw [first.scan_eq positive, isInt]
    refine ⟨?_, ?_, ?_⟩
    · intro other again
      rw [answer, first.unique again]
    · rw [answer]
      constructor
      · intro negative
        omega
      · intro none
        exact absurd ⟨start, first⟩ none
    · rw [words]
      exact scanReads_inside first positive

def oneByte (byte : BitVec 8) : Bitmap :=
  ⟨1, fun byteIdx => if byteIdx = 0 then byte else 0⟩

theorem scanRight_halfByte : (oneByte 0x0f).ScanRight 2 := by
  apply (scanRight_iff (Nat.succ_pos 1) (by decide)).mpr
  refine ⟨4, ⟨by decide, ?_, ?_⟩, by decide⟩
  · intro idx lower upper
    obtain rfl | rfl : idx = 4 ∨ idx = 5 := by omega
    · rfl
    · rfl
  · intro run _ clear
    by_contra before
    have allSet : ∀ idx : Fin 4, (oneByte 0x0f).bit idx = true := by decide
    have isSet := allSet ⟨run, Nat.lt_of_not_le before⟩
    rw [clear run (Nat.le_refl run) (Nat.lt_add_of_pos_right (Nat.succ_pos 1))] at isSet
    cases isSet

/-- Two bits are found where the bitmap has only its last one left. -/
theorem scan_past_end :
    (oneByte 0x7f).scanWords 2 = (7, [0, 0, 0, 0, 0, 0, 0, 0, 0, 1]) ∧
      ¬ (oneByte 0x7f).ScanRight 2 := by
  have answer : (oneByte 0x7f).scanWords 2 = (7, [0, 0, 0, 0, 0, 0, 0, 0, 0, 1]) := by decide
  refine ⟨answer, fun right => ?_⟩
  have inside := right.reads 1
  rw [answer] at inside
  exact absurd (inside (by decide)) (by decide)

end Bitmap

end CleanOS.Common
