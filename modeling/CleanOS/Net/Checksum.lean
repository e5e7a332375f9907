import CleanOS.Lib.OnesComplement
import CleanOS.Net.Ip
import CleanOS.Net.PacketCursor

/-!
# Internet checksums

`checksum16` over a chain of blocks, as the one's complement sum of the words of the bytes
in the chain, wherever the blocks divide them.
-/

namespace CleanOS.Net

open CleanOS.Lib

def leWords : List UInt8 → List Nat
  | [] => []
  | [last] => [last.toNat]
  | low :: high :: rest => (low.toNat + 256 * high.toNat) :: leWords rest

def onesSum (preSum : Nat) (bytes : List UInt8) : Nat :=
  (leWords bytes).foldl (onesAdd 65535) preSum

section Words

variable {start preSum : Nat} {bytes first second : List UInt8}

theorem wordSum_eq_sum : wordSum bytes = (leWords bytes).sum := by
  fun_induction wordSum bytes with
  | case1 => rfl
  | case2 last => simp [leWords]
  | case3 low high rest ih => rw [leWords, List.sum_cons, ih]

theorem leWords_le : ∀ word ∈ leWords bytes, word ≤ 65535 := by
  fun_induction leWords bytes with
  | case1 => nofun
  | case2 last =>
      intro word member
      have := last.toNat_lt
      rw [List.mem_singleton] at member
      omega
  | case3 low high rest ih =>
      intro word member
      have := low.toNat_lt
      have := high.toNat_lt
      rcases List.mem_cons.mp member with here | later
      · omega
      · exact ih word later

theorem onesSum_eq (small : preSum ≤ 65535) :
    onesSum preSum bytes = onesNorm 65535 (preSum + wordSum bytes) := by
  rw [onesSum, foldl_onesAdd (by decide) small leWords_le, wordSum_eq_sum]

theorem wordSum_append (even : first.length % 2 = 0) :
    wordSum (first ++ second) = wordSum first + wordSum second := by
  fun_induction wordSum first with
  | case1 => simp
  | case2 last => simp at even
  | case3 low high rest ih =>
      simp only [List.length_cons] at even
      simp only [List.cons_append, wordSum, ih (by omega)]
      omega

theorem wordSum_lt : wordSum bytes ≤ 65535 * bytes.length := by
  fun_induction wordSum bytes with
  | case1 => simp
  | case2 last =>
      have := last.toNat_lt
      simp only [List.length_singleton]
      omega
  | case3 low high rest ih =>
      have := low.toNat_lt
      have := high.toNat_lt
      simp only [List.length_cons]
      omega

theorem length_bytes16 {value : Nat} : (bytes16 value).length = 2 :=
  rfl

theorem wordSum_bytes16 {value : Nat} (small : value < 65536) :
    wordSum (bytes16 value) = value := by
  simp only [bytes16, wordSum, Nat.toUInt8, UInt8.toNat_ofNat']
  omega

theorem wordSum_overwrite {place value : Nat} (even : place % 2 = 0)
    (inside : place + 2 ≤ bytes.length) (empty : (bytes.drop place).take 2 = [0, 0])
    (small : value < 65536) :
    wordSum (overwrite bytes place (bytes16 value)) = wordSum bytes + value := by
  have split : bytes = bytes.take place ++ ([0, 0] ++ bytes.drop (place + 2)) := by
    rw [← empty, ← List.drop_drop, List.take_append_drop, List.take_append_drop]
  have frontLength : (bytes.take place).length = place := by
    rw [List.length_take]
    omega
  have oldSum : wordSum bytes =
      wordSum (bytes.take place) + wordSum (bytes.drop (place + 2)) := by
    conv_lhs => rw [split]
    rw [wordSum_append (by rw [frontLength]; exact even), wordSum_append rfl]
    simp [wordSum]
  rw [overwrite, length_bytes16, wordSum_append (by rw [frontLength]; exact even),
    wordSum_append (by rw [length_bytes16]), wordSum_bytes16 small, oldSum]
  omega

theorem foldCarry_eq {passes sum : Nat} (enough : sum ≤ passes) :
    foldCarry passes sum = onesNorm 65535 sum := by
  induction passes generalizing sum with
  | zero =>
      have zero : sum = 0 := by omega
      rw [zero]
      rfl
  | succ passes ih =>
      by_cases small : sum / 65536 = 0
      · rw [foldCarry, if_pos small, onesNorm_of_le (by omega)]
      · rw [foldCarry, if_neg small, ih (by omega)]
        apply onesNorm_congr (by decide)
        · unfold Nat.ModEq
          omega
        · omega

def laneSum : Nat → List UInt8 → Nat
  | _, [] => 0
  | start, byte :: rest =>
      (if start % 2 = 0 then byte.toNat else 256 * byte.toNat) + laneSum (start + 1) rest

theorem laneSum_append :
    laneSum start (first ++ second) = laneSum start first + laneSum (start + first.length) second := by
  induction first generalizing start with
  | nil => simp [laneSum]
  | cons byte rest ih =>
      have place : start + 1 + rest.length = start + (rest.length + 1) := by omega
      rw [List.cons_append, laneSum, laneSum, ih, List.length_cons, place]
      omega

theorem laneSum_even (even : start % 2 = 0) : laneSum start bytes = wordSum bytes := by
  fun_induction wordSum bytes generalizing start with
  | case1 => rfl
  | case2 last => simp [laneSum, even]
  | case3 low high rest ih =>
      have odd : ¬ (start + 1) % 2 = 0 := by omega
      have next := @ih (start + 1 + 1) (by omega)
      simp only [laneSum, if_pos even, if_neg odd, next]
      omega

theorem laneSum_odd {byte : UInt8} {rest : List UInt8} (odd : start % 2 = 1) :
    laneSum start (byte :: rest) = 256 * byte.toNat + wordSum rest := by
  have notEven : ¬ start % 2 = 0 := by omega
  rw [laneSum, if_neg notEven, laneSum_even (by omega)]

theorem laneSum_le : laneSum start bytes ≤ 65535 * bytes.length := by
  induction bytes generalizing start with
  | nil => simp [laneSum]
  | cons byte rest ih =>
      have := byte.toNat_lt
      have := @ih (start + 1)
      rw [laneSum, List.length_cons]
      split <;> omega

end Words

/-- The functions that are like `checksum16`. -/
abbrev Sum16 := Nat → List UInt8 → Nat → Bool → Option Nat

/-- `checksum16` where a sum that leaves 32 bits is no result.  The sum only grows while
bytes are added, and is below 32 bits while carries are added back. -/
def checkedSum16 : Sum16 := fun offset bytes preSum complement =>
  if preSum + laneSum offset bytes < 2 ^ 32 then checksum16 offset bytes preSum complement
  else none

def Sum16.Sums (sum16 : Sum16) : Prop :=
  ∀ {start preSum : Nat} {bytes : List UInt8} {complement : Bool},
    start % 2 = 0 ∨ bytes ≠ [] → preSum + laneSum start bytes < 2 ^ 32 →
    sum16 start bytes preSum complement = some
      (if complement then 65535 - onesNorm 65535 (preSum + laneSum start bytes)
        else onesNorm 65535 (preSum + laneSum start bytes))

theorem checksum16_sums : Sum16.Sums checksum16 := by
  intro start preSum bytes complement ready small
  by_cases odd : start % 2 = 1
  · obtain ⟨first, rest, rfl⟩ := List.exists_cons_of_ne_nil (ready.resolve_left (by omega))
    rw [laneSum_odd odd] at small ⊢
    have noOverflow : (preSum + 256 * first.toNat + wordSum rest) % 2 ^ 32 =
        preSum + (256 * first.toNat + wordSum rest) := by
      rw [Nat.mod_eq_of_lt (by omega)]
      omega
    simp only [checksum16, if_pos odd, noOverflow, Option.bind_eq_bind, Option.bind_some,
      foldCarry_eq (Nat.le_refl _)]
  · rw [laneSum_even (by omega)] at small ⊢
    simp only [checksum16, if_neg odd, Nat.mod_eq_of_lt small, Option.bind_eq_bind,
      Option.bind_some, foldCarry_eq (Nat.le_refl _)]

theorem checkedSum16_sums : Sum16.Sums checkedSum16 := by
  intro start preSum bytes complement ready small
  rw [checkedSum16, if_pos small]
  exact checksum16_sums ready small

/-- What the loop of `pktbuf_checksum16` does with the bytes at the cursor. -/
def sumAccess (sum16 : Sum16) : Access (Nat × Nat) := fun (sum, start) blk offset count => do
  let bytes ← blk.load offset count
  let sum ← sum16 start bytes sum false
  some ((sum, start + count.toNat), blk)

/-- `pktbuf_checksum16` over a function that is like `checksum16`. -/
def pktbufSum16 (sum16 : Sum16) (buf : Pktbuf) (size : Int) (preSum : Nat) (complement : Bool) :
    Option (Nat × Pktbuf) :=
  if totalBlkRemain buf < size then some (0, buf)
  else do
    let (buf, sum, _) ← cursorLoop (sumAccess sum16) buf.blkList.length buf (preSum, 0) size
    let sum := sum % 2 ^ 16
    some (if complement then 65535 - sum else sum, buf)

theorem pktbufSum16_checksum16 : pktbufSum16 checksum16 = pktbufChecksum16 :=
  rfl

def sumPieces (sum16 : Sum16) : List (List UInt8) → Nat × Nat → Option (Nat × Nat)
  | [], state => some state
  | piece :: rest, (sum, start) => do
      let sum ← sum16 start piece sum false
      sumPieces sum16 rest (sum, start + piece.length)

section Pieces

variable {buf : Pktbuf} {passes blocks start preSum : Nat} {before bytes later : List UInt8}
variable {pieces : List (List UInt8)} {sum16 : Sum16} {complement : Bool}

theorem sumLoop_pieces (windows : Windows buf.blkList)
    (filled : ∀ blk ∈ buf.blkList, 0 < blk.size) (cursor : CursorAt buf blocks)
    (enough : blocks ≤ passes) (content : buf.content = before ++ (bytes ++ later))
    (length : (before.length : Int) = buf.pos) :
    ∃ pieces after, pieces.flatten = bytes ∧ (∀ piece ∈ pieces.tail, piece ≠ []) ∧
      (AtStart buf → ∀ piece ∈ pieces, piece ≠ []) ∧ Current after ∧ SameLayout buf after ∧
      after.content = buf.content ∧ after.pos = buf.pos + bytes.length ∧
      ∀ (sum16 : Sum16) (sum start : Nat),
        cursorLoop (sumAccess sum16) passes buf (sum, start) bytes.length =
          (sumPieces sum16 pieces (sum, start)).map fun state => (after, state) := by
  induction passes generalizing buf blocks before bytes with
  | zero =>
      cases bytes with
      | nil =>
          refine ⟨[], buf, rfl, nofun, fun _ => nofun, ⟨_, cursor⟩, .refl buf, rfl, by simp, ?_⟩
          intro sum16 sum start
          exact cursorLoop_nothing (Int.le_refl 0)
      | cons byte rest =>
          obtain ⟨front, blk, behind, -, count⟩ := cursor.focus windows content length (by simp)
          omega
  | succ passes ih =>
      by_cases none : bytes = []
      · subst none
        refine ⟨[], buf, rfl, nofun, fun _ => nofun, ⟨_, cursor⟩, .refl buf, rfl, by simp, ?_⟩
        intro sum16 sum start
        exact cursorLoop_nothing (Int.le_refl 0)
      obtain ⟨front, blk, behind, focus, blocksEq⟩ :=
        cursor.focus windows content length (by simp [none])
      have lower := focus.lower
      have member : blk ∈ buf.blkList := by simp [focus.blks]
      have holds : blk.InPayload := windows blk member
      have data := holds.data
      have inside := holds.inside
      have positive : (bytes.length : Int) > 0 := by
        have := List.length_pos_iff.mpr none
        omega
      obtain ⟨first, second, bytesEq, firstLength, firstUpper, ends⟩ := focus.chunk bytes
      have content' : buf.content = before ++ (first ++ (second ++ later)) := by
        rw [content, bytesEq, List.append_assoc]
      have read := focus.read windows content' length firstUpper
      obtain ⟨written, moved, storeEq, movedEq, pos, layout, movedContent, stays, leaves⟩ :=
        @Focus.pass buf front behind blk before first first (second ++ later) focus windows
          content' length firstUpper rfl
      have unchanged : written = blk := by
        have same := @Pktblk.store_same blk buf.blkOffset first.length (by omega) (by omega)
          (by omega)
        rwa [Int.toNat_natCast, read, storeEq, Option.some.injEq] at same
      rw [unchanged] at movedEq
      have hasBytes : AtStart buf → first ≠ [] := by
        intro atStart noFirst
        have size := filled _ member
        have offset := atStart _ focus.current
        rw [noFirst, List.length_nil] at firstLength
        split at firstLength <;> omega
      have loadEq : blk.load buf.blkOffset first.length = some first := by
        rw [Pktblk.load_inside (by omega) (by omega) (by omega), Int.toNat_natCast, read]
      have remaining : (bytes.length : Int) - first.length = second.length := by
        rw [bytesEq, List.length_append]
        omega
      have movedSame : moved.content = buf.content := movedContent.trans content'.symm
      -- The rest starts at the start of a block, unless there is nothing left.
      have rest : ∃ pieces after, pieces.flatten = second ∧ (∀ piece ∈ pieces, piece ≠ []) ∧
          Current after ∧ SameLayout moved after ∧ after.content = moved.content ∧
          after.pos = moved.pos + second.length ∧
          ∀ (sum16 : Sum16) (sum start : Nat),
            cursorLoop (sumAccess sum16) passes moved (sum, start) second.length =
              (sumPieces sum16 pieces (sum, start)).map fun state => (after, state) := by
        by_cases whole : (first.length : Int) = blk.data + blk.size - buf.blkOffset
        · obtain ⟨pieces, after, flatten, -, nonempty, others⟩ :=
            @ih moved behind.length (before ++ first) second
              (windows_of_frames layout.frames windows) (by
                intro other otherMember
                obtain ⟨same, sameMember, sizeEq, -⟩ := mem_of_frames layout.frames otherMember
                exact sizeEq ▸ filled same sameMember)
              (leaves whole).1 (by omega) (by rw [movedContent, List.append_assoc])
              (by rw [List.length_append, pos]; omega)
          exact ⟨pieces, after, flatten, nonempty (leaves whole).2, others⟩
        · have nothing : second = [] := ends.resolve_right whole
          subst nothing
          refine ⟨[], moved, rfl, nofun, ⟨_, stays (by omega)⟩, .refl moved, rfl, by simp, ?_⟩
          intro sum16 sum start
          exact cursorLoop_nothing (Int.le_refl 0)
      obtain ⟨pieces, after, flatten, nonempty, current, afterLayout, afterContent, afterPos,
        loopEq⟩ := rest
      refine ⟨first :: pieces, after, by rw [List.flatten_cons, flatten, bytesEq], nonempty,
        fun atStart => List.forall_mem_cons.mpr ⟨hasBytes atStart, nonempty⟩, current,
        layout.trans afterLayout, afterContent.trans movedSame, by rw [afterPos, pos]; omega, ?_⟩
      intro sum16 sum start
      have accessEq : sumAccess sum16 (sum, start) blk buf.blkOffset first.length =
          (sum16 start first sum false).map fun sum => ((sum, start + first.length), blk) := by
        simp only [sumAccess, loadEq, Option.bind_eq_bind, Option.bind_some, Int.toNat_natCast]
        cases sum16 start first sum false <;> rfl
      simp only [cursorLoop, if_pos positive, focus.remain, Option.bind_eq_bind,
        Option.bind_some, firstLength, focus.current, accessEq, sumPieces]
      cases sum16 start first sum false with
      | none => rfl
      | some next =>
          simp only [Option.map_some, Option.bind_some, movedEq, remaining, loopEq]

theorem checksum16_returns (ready : start % 2 = 0 ∨ bytes ≠ []) :
    ∃ result, checksum16 start bytes preSum complement = some result := by
  unfold checksum16
  by_cases odd : start % 2 = 1
  · obtain ⟨first, rest, bytesEq⟩ :=
      List.exists_cons_of_ne_nil (ready.resolve_left (by omega))
    simp [odd, bytesEq]
  · simp [odd]

theorem sumPieces_returns (tail : ∀ piece ∈ pieces.tail, piece ≠ [])
    (head : start % 2 = 0 ∨ ∀ piece ∈ pieces, piece ≠ []) :
    ∃ result, sumPieces checksum16 pieces (preSum, start) = some result := by
  induction pieces generalizing start preSum with
  | nil => exact ⟨_, rfl⟩
  | cons piece rest ih =>
      have ready : start % 2 = 0 ∨ piece ≠ [] :=
        head.imp_right fun nonempty => nonempty piece List.mem_cons_self
      obtain ⟨sum, sumEq⟩ := @checksum16_returns start preSum piece false ready
      obtain ⟨result, resultEq⟩ := @ih (start + piece.length) sum
        (fun other member => tail other (List.mem_of_mem_tail member)) (.inr tail)
      refine ⟨result, ?_⟩
      simp only [sumPieces, sumEq, Option.bind_eq_bind, Option.bind_some, resultEq]

theorem sumPieces_eq (sums : sum16.Sums) (tail : ∀ piece ∈ pieces.tail, piece ≠ [])
    (head : start % 2 = 0 ∨ ∀ piece ∈ pieces, piece ≠ []) (small : preSum ≤ 65535)
    (short : pieces.flatten.length ≤ 65535) :
    sumPieces sum16 pieces (preSum, start) = some
      (onesNorm 65535 (preSum + laneSum start pieces.flatten), start + pieces.flatten.length) := by
  induction pieces generalizing start preSum with
  | nil =>
      rw [sumPieces, List.flatten_nil, laneSum, Nat.add_zero, onesNorm_of_le small]
      rfl
  | cons piece rest ih =>
      have ready : start % 2 = 0 ∨ piece ≠ [] :=
        head.imp_right fun nonempty => nonempty piece List.mem_cons_self
      rw [List.flatten_cons, List.length_append] at short
      have bound := @laneSum_le start piece
      have sumEq := @sums start preSum piece false ready (by omega)
      rw [if_neg Bool.false_ne_true] at sumEq
      have restEq := @ih (start + piece.length) (onesNorm 65535 (preSum + laneSum start piece))
        (fun other member => tail other (List.mem_of_mem_tail member)) (.inr tail)
        (onesNorm_le (by decide)) (by omega)
      simp only [sumPieces, sumEq, Option.bind_eq_bind, Option.bind_some, restEq,
        List.flatten_cons, laneSum_append, List.length_append, onesNorm_add_left (by decide :
          0 < 65535), Nat.add_assoc]

theorem Current.divided {size : Int} (holds : buf.WellFormed) (current : Current buf)
    (filled : ∀ blk ∈ buf.blkList, 0 < blk.size) (nonneg : 0 ≤ size)
    (within : size ≤ totalBlkRemain buf) :
    ∃ pieces after, pieces.flatten = (buf.content.drop buf.pos.toNat).take size.toNat ∧
      (∀ piece ∈ pieces.tail, piece ≠ []) ∧ Current after ∧ SameLayout buf after ∧
      after.content = buf.content ∧ after.pos = buf.pos + size ∧
      ∀ (sum16 : Sum16) (sum start : Nat),
        cursorLoop (sumAccess sum16) buf.blkList.length buf (sum, start) size =
          (sumPieces sum16 pieces (sum, start)).map fun state => (after, state) := by
  obtain ⟨posNonneg, posUpper, length⟩ := current.split holds
  have total := holds.length_content
  simp only [totalBlkRemain] at within
  have bytesLength :
      (((buf.content.drop buf.pos.toNat).take size.toNat).length : Int) = size := by
    rw [List.length_take, List.length_drop]
    omega
  obtain ⟨blocks, cursor⟩ := current
  obtain ⟨pieces, after, flatten, tail, -, rest⟩ :=
    @sumLoop_pieces buf buf.blkList.length blocks
      (buf.content.take buf.pos.toNat) ((buf.content.drop buf.pos.toNat).take size.toNat)
      ((buf.content.drop buf.pos.toNat).drop size.toNat) holds.windows filled cursor
      cursor.le_length (by simp only [List.take_append_drop]) length
  rw [bytesLength] at rest
  exact ⟨pieces, after, flatten, tail, rest⟩

theorem pktbufChecksum16_returns {size : Int} (holds : buf.WellFormed) (current : Current buf)
    (filled : ∀ blk ∈ buf.blkList, 0 < blk.size) :
    ∃ result after, pktbufChecksum16 buf size preSum complement = some (result, after) ∧
      Current after := by
  by_cases short : totalBlkRemain buf < size
  · exact ⟨0, buf, by simp only [pktbufChecksum16, if_pos short], current⟩
  by_cases negative : size ≤ 0
  · refine ⟨if complement then 65535 - preSum % 2 ^ 16 else preSum % 2 ^ 16, buf, ?_, current⟩
    simp only [pktbufChecksum16, if_neg short, cursorLoop_nothing negative,
      Option.bind_eq_bind, Option.bind_some]
  obtain ⟨pieces, after, -, tail, currentAfter, -, -, -, loopEq⟩ :=
    @Current.divided buf size holds current filled (by omega) (by omega)
  obtain ⟨⟨sum, start⟩, sumEq⟩ := @sumPieces_returns 0 preSum pieces tail (.inl rfl)
  have plainEq := loopEq checksum16 preSum 0
  rw [sumEq, Option.map_some] at plainEq
  refine ⟨if complement then 65535 - sum % 2 ^ 16 else sum % 2 ^ 16, after, ?_, currentAfter⟩
  rw [← pktbufSum16_checksum16]
  simp only [pktbufSum16, if_neg short, plainEq, Option.bind_eq_bind, Option.bind_some]

theorem pktbufSum16_eq {size : Nat} (holds : buf.WellFormed) (current : Current buf)
    (filled : ∀ blk ∈ buf.blkList, 0 < blk.size) (within : (size : Int) ≤ totalBlkRemain buf)
    (short : size ≤ 65535) (small : preSum ≤ 65535) :
    ∃ after, Current after ∧ SameLayout buf after ∧ after.content = buf.content ∧
      after.pos = buf.pos + size ∧
      ∀ sum16 : Sum16, sum16.Sums → ∀ complement : Bool,
        pktbufSum16 sum16 buf size preSum complement = some
          (if complement then 65535 - onesSum preSum ((buf.content.drop buf.pos.toNat).take size)
            else onesSum preSum ((buf.content.drop buf.pos.toNat).take size), after) := by
  obtain ⟨pieces, after, flatten, tail, currentAfter, layout, content, pos, loopEq⟩ :=
    @Current.divided buf size holds current filled (Int.natCast_nonneg size) within
  refine ⟨after, currentAfter, layout, content, pos, ?_⟩
  intro sum16 sums complement
  rw [Int.toNat_natCast] at flatten
  have sumEq := @sumPieces_eq 0 preSum pieces sum16 sums tail (.inl rfl) small (by
    rw [flatten, List.length_take]
    omega)
  rw [flatten, laneSum_even rfl, ← onesSum_eq small] at sumEq
  have fits : onesSum preSum ((buf.content.drop buf.pos.toNat).take size) % 2 ^ 16 =
      onesSum preSum ((buf.content.drop buf.pos.toNat).take size) := by
    apply Nat.mod_eq_of_lt
    rw [onesSum_eq small]
    exact Nat.lt_succ_of_le (onesNorm_le (by decide))
  have enough : ¬ totalBlkRemain buf < size := by omega
  simp only [pktbufSum16, if_neg enough, loopEq, sumEq, Option.map_some, Option.bind_eq_bind,
    Option.bind_some, fits]

end Pieces

def rfc1071 (preSum : Nat) (bytes : List UInt8) (complement : Bool) : Nat :=
  if complement then 65535 - onesSum preSum bytes else onesSum preSum bytes

/-- `pktbuf_checksum16` over a packet of some bytes, whatever its blocks are, and
`checksum16` over the bytes themselves return a sum, and they do so without leaving 32
bits. -/
structure ChecksumsTo (bytes : List UInt8) (preSum : Nat) (complement : Bool) (sum : Nat) :
    Prop where
  chained : ∀ buf : Pktbuf, buf.WellFormed → (blkIds buf.blkList).Nodup →
    (∀ blk ∈ buf.blkList, 0 < blk.size) → buf.content = bytes →
    ∃ after, pktbufChecksum16 (pktbufResetAcc buf) bytes.length preSum complement =
        some (sum, after) ∧
      pktbufSum16 checkedSum16 (pktbufResetAcc buf) bytes.length preSum complement =
        some (sum, after)
  contiguous : checksum16 0 bytes preSum complement = some sum
  bounded : checkedSum16 0 bytes preSum complement = some sum

section Partition

variable {bytes : List UInt8} {preSum : Nat}

theorem checksumsTo_rfc1071 (short : bytes.length ≤ 65535) (small : preSum ≤ 65535)
    (complement : Bool) : ChecksumsTo bytes preSum complement (rfc1071 preSum bytes complement) := by
  have contiguous : ∀ sum16 : Sum16, sum16.Sums →
      sum16 0 bytes preSum complement = some (rfc1071 preSum bytes complement) := by
    intro sum16 sums
    have bound := @laneSum_le 0 bytes
    rw [sums (.inl rfl) (by omega), laneSum_even rfl, rfc1071, onesSum_eq small]
  refine ⟨?_, contiguous _ checksum16_sums, contiguous _ checkedSum16_sums⟩
  rintro buf holds distinct filled rfl
  obtain ⟨current, pos, blks, layout⟩ := pktbufResetAcc_spec holds distinct
  have resetHolds := layout.wellFormed holds
  have sameContent : (pktbufResetAcc buf).content = buf.content := by
    rw [Pktbuf.content, blks, Pktbuf.content]
  have within : (buf.content.length : Int) ≤ totalBlkRemain (pktbufResetAcc buf) := by
    have total := holds.length_content
    rw [totalBlkRemain, layout.total, pos]
    omega
  obtain ⟨after, -, -, -, -, sumEq⟩ := @pktbufSum16_eq _ preSum buf.content.length resetHolds
    current (by rwa [blks]) within short small
  rw [pos, Int.toNat_zero, List.drop_zero, sameContent, List.take_length] at sumEq
  exact ⟨after, sumEq checksum16 checksum16_sums complement,
    sumEq checkedSum16 checkedSum16_sums complement⟩

theorem pktbufChecksum16_eq {buf : Pktbuf} {size : Nat} (holds : buf.WellFormed)
    (current : Current buf) (filled : ∀ blk ∈ buf.blkList, 0 < blk.size)
    (within : (size : Int) ≤ totalBlkRemain buf) (short : size ≤ 65535) (small : preSum ≤ 65535)
    (complement : Bool) :
    ∃ after, SameLayout buf after ∧ after.content = buf.content ∧ after.pos = buf.pos + size ∧
      pktbufChecksum16 buf size preSum complement = some
        (rfc1071 preSum ((buf.content.drop buf.pos.toNat).take size) complement, after) := by
  obtain ⟨after, -, layout, content, pos, sumEq⟩ :=
    pktbufSum16_eq holds current filled within short small
  exact ⟨after, layout, content, pos, sumEq checksum16 checksum16_sums complement⟩

theorem rfc1071_lt : rfc1071 0 bytes true < 65536 := by
  rw [rfc1071, if_pos rfl]
  omega

theorem rfc1071_overwrite {place : Nat} (even : place % 2 = 0)
    (inside : place + 2 ≤ bytes.length) (empty : (bytes.drop place).take 2 = [0, 0]) :
    rfc1071 0 (overwrite bytes place (bytes16 (rfc1071 0 bytes true))) true = 0 := by
  have checksumEq : rfc1071 0 bytes true = 65535 - onesNorm 65535 (wordSum bytes) := by
    rw [rfc1071, if_pos rfl, onesSum_eq (Nat.zero_le _), Nat.zero_add]
  rw [rfc1071, if_pos rfl, onesSum_eq (Nat.zero_le _), Nat.zero_add,
    wordSum_overwrite even inside empty rfc1071_lt, checksumEq, onesNorm_complement (by decide)]

/-- The checksum of a byte sequence does not depend on the blocks it is stored in; it is the
one of RFC 1071, and where its complement is put into an empty aligned field, the bytes sum
up to the complement of zero. -/
theorem checksum_partition (short : bytes.length ≤ 65535) :
    (∀ preSum ≤ 65535, ∀ complement,
      ChecksumsTo bytes preSum complement (rfc1071 preSum bytes complement)) ∧
    ∀ place, place % 2 = 0 → place + 2 ≤ bytes.length → (bytes.drop place).take 2 = [0, 0] →
      ChecksumsTo (overwrite bytes place (bytes16 (rfc1071 0 bytes true))) 0 true 0 := by
  refine ⟨fun preSum small complement => checksumsTo_rfc1071 short small complement, ?_⟩
  intro place even inside empty
  have length : (overwrite bytes place (bytes16 (rfc1071 0 bytes true))).length =
      bytes.length := by
    simp only [overwrite, List.length_append, List.length_take, List.length_drop, length_bytes16]
    omega
  have verifies := @checksumsTo_rfc1071 (overwrite bytes place (bytes16 (rfc1071 0 bytes true))) 0
    (by rw [length]; exact short) (Nat.zero_le _) true
  rwa [rfc1071_overwrite even inside empty] at verifies

/-- Five bytes with an empty field in the middle. -/
theorem checksum_partition_five :
    ChecksumsTo [0xff, 0xff, 0, 0, 7] 1 false 8 ∧
      ChecksumsTo [0xff, 0xff, 0xf8, 0xff, 7] 0 true 0 :=
  ⟨(@checksum_partition [0xff, 0xff, 0, 0, 7] (by decide)).1 1 (by decide) false,
    (@checksum_partition [0xff, 0xff, 0, 0, 7] (by decide)).2 2 rfl (by decide) rfl⟩

end Partition

end CleanOS.Net
