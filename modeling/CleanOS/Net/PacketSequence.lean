import CleanOS.Net.PacketCursor

/-!
# Packets as sequences with a position

The calls through a cursor, seen as sequential access to the bytes of a packet.  Every
call is also run under a guard that refuses accesses outside the window of the current
block: it does the same.
-/

namespace CleanOS.Net

/-- A sequence of bytes with a position. -/
structure Tape where
  content : List UInt8
  pos : Nat

namespace Tape

def next (tape : Tape) (size : Nat) : List UInt8 :=
  (tape.content.drop tape.pos).take size

def skip (tape : Tape) (size : Nat) : Tape :=
  { tape with pos := tape.pos + size }

def put (tape : Tape) (bytes : List UInt8) : Tape :=
  ⟨overwrite tape.content tape.pos bytes, tape.pos + bytes.length⟩

variable {tape : Tape} {size : Nat}

theorem length_next (fits : tape.pos + size ≤ tape.content.length) :
    (tape.next size).length = size := by
  rw [next, List.length_take, List.length_drop]
  omega

theorem put_next (fits : tape.pos + size ≤ tape.content.length) :
    tape.put (tape.next size) = tape.skip size := by
  rw [put, skip, overwrite, length_next fits, next, ← List.drop_drop, List.take_append_drop,
    List.take_append_drop]

end Tape

/-- The calls that work through cursors. -/
inductive CursorCall where
  | seek (buf : Nat) (offset : Int)
  | read (buf : Nat) (size : Nat)
  | write (buf : Nat) (src : Nat → UInt8) (size : Nat)
  | fill (buf : Nat) (value : UInt8) (size : Nat)
  | copy (dest src : Nat) (size : Nat)

namespace CursorCall

def named : CursorCall → List Nat
  | .seek buf _ | .read buf _ | .write buf _ _ | .fill buf _ _ => [buf]
  | .copy dest src _ => [dest, src]

def Proper : CursorCall → Prop
  | .seek _ _ => True
  | .read _ size | .write _ _ size | .fill _ _ size => 0 < size
  | .copy dest src size => 0 < size ∧ dest ≠ src

def step (packets : Nat → Pktbuf) :
    CursorCall → Option ((NetErr × List UInt8) × (Nat → Pktbuf))
  | .seek buf offset => do
      let (err, packet) ← pktbufSeek (packets buf) offset
      some ((err, []), Function.update packets buf packet)
  | .read buf size => do
      let (err, packet, dest) ← pktbufRead (packets buf) true size
      some ((err, dest), Function.update packets buf packet)
  | .write buf src size => do
      let (err, packet) ← pktbufWrite (packets buf) (some src) size
      some ((err, []), Function.update packets buf packet)
  | .fill buf value size => do
      let (err, packet) ← pktbufFill (packets buf) value size
      some ((err, []), Function.update packets buf packet)
  | .copy dest src size => do
      let (err, destPacket, srcPacket) ← pktbufCopy (packets dest) (packets src) size
      some ((err, []), Function.update (Function.update packets dest destPacket) src srcPacket)

def tapeStep (tapes : Nat → Tape) : CursorCall → (NetErr × List UInt8) × (Nat → Tape)
  | .seek buf offset =>
      if offset = (tapes buf).pos ∨ 0 ≤ offset ∧ offset < (tapes buf).content.length then
        ((.ok, []), Function.update tapes buf { tapes buf with pos := offset.toNat })
      else ((.size, []), tapes)
  | .read buf size =>
      if (tapes buf).pos + size ≤ (tapes buf).content.length then
        ((.ok, (tapes buf).next size), Function.update tapes buf ((tapes buf).skip size))
      else ((.size, []), tapes)
  | .write buf src size =>
      if (tapes buf).pos + size ≤ (tapes buf).content.length then
        ((.ok, []), Function.update tapes buf ((tapes buf).put (slice src 0 size)))
      else ((.size, []), tapes)
  | .fill buf value size =>
      if (tapes buf).pos + size ≤ (tapes buf).content.length then
        ((.ok, []), Function.update tapes buf ((tapes buf).put (List.replicate size value)))
      else ((.size, []), tapes)
  | .copy dest src size =>
      if (tapes dest).pos + size ≤ (tapes dest).content.length ∧
          (tapes src).pos + size ≤ (tapes src).content.length then
        ((.ok, []), Function.update
          (Function.update tapes dest ((tapes dest).put ((tapes src).next size)))
          src ((tapes src).skip size))
      else ((.size, []), tapes)

end CursorCall

section Guarded

variable {σ : Type}

def guardedLoop (guard : Guard) (access : Access σ) (buf : Pktbuf) (start : σ) (size : Int) :
    Option (NetErr × Pktbuf × σ) :=
  if totalBlkRemain buf < size then some (.size, buf, start)
  else do
    let (buf, state) ← cursorLoop (guarded guard access) buf.blkList.length buf start size
    some (.ok, buf, state)

/-- `pktbuf_read` to a destination. -/
def guardedRead (guard : Guard) (buf : Pktbuf) (size : Int) :
    Option (NetErr × Pktbuf × List UInt8) :=
  if size = 0 then some (.ok, buf, []) else guardedLoop guard readAccess buf [] size

/-- `pktbuf_write` from a source. -/
def guardedWrite (guard : Guard) (buf : Pktbuf) (src : Nat → UInt8) (size : Int) :
    Option (NetErr × Pktbuf) :=
  if size = 0 then some (.param, buf)
  else (guardedLoop guard (writeAccess src) buf 0 size).map fun (err, buf, _) => (err, buf)

/-- `pktbuf_fill`. -/
def guardedFill (guard : Guard) (buf : Pktbuf) (value : UInt8) (size : Int) :
    Option (NetErr × Pktbuf) :=
  if size = 0 then some (.param, buf)
  else (guardedLoop guard (fillAccess value) buf () size).map fun (err, buf, _) => (err, buf)

/-- `pktbuf_seek`. -/
def guardedSeek (guard : Guard) (buf : Pktbuf) (offset : Int) : Option (NetErr × Pktbuf) :=
  if buf.pos = offset then some (.ok, buf)
  else if offset < 0 ∨ offset ≥ buf.totalSize then some (.size, buf)
  else if offset < buf.pos then
    match buf.blkList.head? with
    | none => none
    | some first => do
        let buf := { buf with currBlk := some first.id, blkOffset := first.data, pos := 0 }
        let (buf, _) ← cursorLoop (guarded guard seekAccess) buf.blkList.length buf () offset
        some (.ok, buf)
  else do
    let (buf, _) ←
      cursorLoop (guarded guard seekAccess) buf.blkList.length buf () (offset - buf.pos)
    some (.ok, buf)

/-- `pktbuf_copy` between two packets. -/
def guardedCopy (guard : Guard) (dest src : Pktbuf) (size : Int) :
    Option (NetErr × Pktbuf × Pktbuf) :=
  if totalBlkRemain dest < size ∨ totalBlkRemain src < size then some (.size, dest, src)
  else do
    let (dest, src) ←
      guardedCopyLoop guard (dest.blkList.length + src.blkList.length) dest src size
    some (.ok, dest, src)

end Guarded

def CursorCall.guardedStep (guard : Guard) (packets : Nat → Pktbuf) :
    CursorCall → Option ((NetErr × List UInt8) × (Nat → Pktbuf))
  | .seek buf offset => do
      let (err, packet) ← guardedSeek guard (packets buf) offset
      some ((err, []), Function.update packets buf packet)
  | .read buf size => do
      let (err, packet, dest) ← guardedRead guard (packets buf) size
      some ((err, dest), Function.update packets buf packet)
  | .write buf src size => do
      let (err, packet) ← guardedWrite guard (packets buf) src size
      some ((err, []), Function.update packets buf packet)
  | .fill buf value size => do
      let (err, packet) ← guardedFill guard (packets buf) value size
      some ((err, []), Function.update packets buf packet)
  | .copy dest src size => do
      let (err, destPacket, srcPacket) ← guardedCopy guard (packets dest) (packets src) size
      some ((err, []), Function.update (Function.update packets dest destPacket) src srcPacket)

section Everywhere

variable {buf : Pktbuf} {size : Int}

theorem guardedRead_everywhere :
    guardedRead .everywhere buf size = pktbufRead buf true size := by
  simp only [guardedRead, pktbufRead, guardedLoop, not_true_eq_false, false_or]
  rfl

theorem guardedWrite_everywhere {src : Nat → UInt8} :
    guardedWrite .everywhere buf src size = pktbufWrite buf (some src) size := by
  unfold guardedWrite pktbufWrite guardedLoop
  dsimp only
  split
  · rfl
  · split
    · rfl
    · change Option.map _ (Option.bind (cursorLoop (writeAccess src) _ _ _ _) _) =
        Option.bind (cursorLoop (writeAccess src) _ _ _ _) _
      cases cursorLoop (writeAccess src) buf.blkList.length buf 0 size <;> rfl

theorem guardedFill_everywhere {value : UInt8} :
    guardedFill .everywhere buf value size = pktbufFill buf value size := by
  unfold guardedFill pktbufFill guardedLoop
  split
  · rfl
  · split
    · rfl
    · change Option.map _ (Option.bind (cursorLoop (fillAccess value) _ _ _ _) _) =
        Option.bind (cursorLoop (fillAccess value) _ _ _ _) _
      cases cursorLoop (fillAccess value) buf.blkList.length buf () size <;> rfl

theorem guardedSeek_everywhere {offset : Int} :
    guardedSeek .everywhere buf offset = pktbufSeek buf offset :=
  rfl

theorem guardedCopy_everywhere {dest src : Pktbuf} :
    guardedCopy .everywhere dest src size = pktbufCopy dest src size := by
  simp only [guardedCopy, pktbufCopy, guardedCopyLoop_everywhere]

theorem CursorCall.guardedStep_everywhere {packets : Nat → Pktbuf} {call : CursorCall} :
    call.guardedStep .everywhere packets = call.step packets := by
  cases call with
  | seek => simp only [guardedStep, step, guardedSeek_everywhere]
  | read => simp only [guardedStep, step, guardedRead_everywhere]
  | write => simp only [guardedStep, step, guardedWrite_everywhere]
  | fill => simp only [guardedStep, step, guardedFill_everywhere]
  | copy => simp only [guardedStep, step, guardedCopy_everywhere]

end Everywhere

def Pktbuf.tape (buf : Pktbuf) : Tape :=
  ⟨buf.content, buf.pos.toNat⟩

structure Steady (buf : Pktbuf) : Prop where
  wellFormed : buf.WellFormed
  current : Current buf

namespace Steady

variable {σ : Type} {access : Access σ} {act : σ → List UInt8 → σ × List UInt8}
variable {buf : Pktbuf} {start : σ} {size : Nat}

theorem pos (steady : Steady buf) : (buf.tape.pos : Int) = buf.pos :=
  Int.toNat_of_nonneg (steady.current.split steady.wellFormed).1

theorem length (steady : Steady buf) : (buf.tape.content.length : Int) = buf.totalSize :=
  steady.wellFormed.length_content

theorem short_iff (steady : Steady buf) :
    totalBlkRemain buf < size ↔ ¬ buf.tape.pos + size ≤ buf.tape.content.length := by
  have pos := steady.pos
  have length := steady.length
  simp only [totalBlkRemain]
  omega

theorem of_layout {after : Pktbuf} (steady : Steady buf) (current : Current after)
    (layout : SameLayout buf after) : Steady after :=
  ⟨layout.wellFormed steady.wellFormed, current⟩

theorem loop_short (steady : Steady buf)
    (short : ¬ buf.tape.pos + size ≤ buf.tape.content.length) (guard : Guard) :
    guardedLoop guard access buf start size = some (.size, buf, start) :=
  if_pos (steady.short_iff.mpr short)

theorem loop_fits (law : ByteAccess access act) (steady : Steady buf)
    (fits : buf.tape.pos + size ≤ buf.tape.content.length) :
    ∃ after, (∀ guard : Guard, guard.Admits → guardedLoop guard access buf start size =
        some (.ok, after, (act start (buf.tape.next size)).1)) ∧
      Steady after ∧ SameLayout buf after ∧
      after.tape = buf.tape.put (act start (buf.tape.next size)).2 := by
  have enough : ¬ totalBlkRemain buf < size := fun short => steady.short_iff.mp short fits
  obtain ⟨after, loopEq, current, pos, layout, content⟩ :=
    @Current.loop_guarded σ access act buf start size law steady.wellFormed steady.current
      (by omega) (by omega)
  rw [Int.toNat_natCast] at loopEq content
  refine ⟨after, ?_, steady.of_layout current layout, layout, ?_⟩
  · intro guard admits
    simp only [guardedLoop, if_neg enough, loopEq guard admits, Option.bind_eq_bind,
      Option.bind_some, Pktbuf.tape, Tape.next]
  · have oldPos := steady.pos
    simp only [Pktbuf.tape] at oldPos
    have length := law.length start (buf.tape.next size)
    rw [Tape.length_next fits] at length
    rw [Tape.put, length]
    simp only [Pktbuf.tape, Tape.next, content, Tape.mk.injEq, true_and]
    omega

theorem guardedSeek_eq (steady : Steady buf) {guard : Guard} (admits : guard.Admits)
    (offset : Int) : guardedSeek guard buf offset = pktbufSeek buf offset := by
  have same : ∀ {packet : Pktbuf} {count : Int}, Steady packet → 0 ≤ count →
      count ≤ totalBlkRemain packet →
      cursorLoop (guarded guard seekAccess) packet.blkList.length packet () count =
        cursorLoop seekAccess packet.blkList.length packet () count := by
    intro packet count isSteady nonneg within
    obtain ⟨after, loopEq, -⟩ :=
      isSteady.current.visit_guarded isSteady.wellFormed nonneg within
    exact (loopEq guard admits).trans (loopEq .everywhere Guard.everywhere_admits).symm
  obtain ⟨posNonneg, posUpper, -⟩ := steady.current.split steady.wellFormed
  unfold guardedSeek pktbufSeek
  split
  · rfl
  · split
    · rfl
    · split
      · cases isFirst : buf.blkList.head? with
        | none => rfl
        | some first =>
          obtain ⟨resetCurrent, resetPos, -, resetLayout⟩ :=
            pktbufResetAcc_spec steady.wellFormed steady.current.nodup
          have reset : pktbufResetAcc buf =
              { buf with currBlk := some first.id, blkOffset := first.data, pos := 0 } := by
            simp only [pktbufResetAcc, isFirst]
          have total := resetLayout.total
          have loopEq := @same (pktbufResetAcc buf) offset
            (steady.of_layout resetCurrent resetLayout) (by omega)
            (by simp only [totalBlkRemain, resetPos, total]; omega)
          rw [reset] at loopEq
          dsimp only at loopEq ⊢
          rw [loopEq]
      · rw [same steady (by omega) (by simp only [totalBlkRemain]; omega)]

theorem seek_refused (steady : Steady buf) {offset : Int} (guard : Guard)
    (outside : ¬ (offset = buf.tape.pos ∨ 0 ≤ offset ∧ offset < buf.tape.content.length)) :
    guardedSeek guard buf offset = some (.size, buf) := by
  have pos := steady.pos
  have length := steady.length
  have moved : ¬ buf.pos = offset := by omega
  rw [guardedSeek, if_neg moved, if_pos (by omega)]

theorem seek_done (steady : Steady buf) {offset : Int}
    (inside : offset = buf.tape.pos ∨ 0 ≤ offset ∧ offset < buf.tape.content.length) :
    ∃ after, (∀ guard : Guard, guard.Admits → guardedSeek guard buf offset = some (.ok, after)) ∧
      Steady after ∧ SameLayout buf after ∧
      after.tape = { buf.tape with pos := offset.toNat } := by
  have pos := steady.pos
  have length := steady.length
  by_cases unmoved : buf.pos = offset
  · refine ⟨buf, fun guard _ => if_pos unmoved, steady, .refl buf, ?_⟩
    rw [← unmoved]
    rfl
  · obtain ⟨err, after, seekEq, current, layout, content, done⟩ :=
      pktbufSeek_spec steady.wellFormed steady.current offset
    obtain ⟨rfl, posEq⟩ := done (by omega) (by omega)
    refine ⟨after, ?_, steady.of_layout current layout, layout, ?_⟩
    · intro guard admits
      rw [steady.guardedSeek_eq admits, seekEq]
    · rw [Pktbuf.tape, content, posEq]
      rfl

theorem copy_short {dest src : Pktbuf} (destSteady : Steady dest) (srcSteady : Steady src)
    (short : ¬ (dest.tape.pos + size ≤ dest.tape.content.length ∧
      src.tape.pos + size ≤ src.tape.content.length)) (guard : Guard) :
    guardedCopy guard dest src size = some (.size, dest, src) := by
  apply if_pos
  rw [destSteady.short_iff, srcSteady.short_iff]
  omega

theorem copy_fits {dest src : Pktbuf} (destSteady : Steady dest) (srcSteady : Steady src)
    (destFits : dest.tape.pos + size ≤ dest.tape.content.length)
    (srcFits : src.tape.pos + size ≤ src.tape.content.length) :
    ∃ dest' src', (∀ guard : Guard, guard.Admits →
        guardedCopy guard dest src size = some (.ok, dest', src')) ∧
      Steady dest' ∧ SameLayout dest dest' ∧ Steady src' ∧ SameLayout src src' ∧
      dest'.tape = dest.tape.put (src.tape.next size) ∧ src'.tape = src.tape.skip size := by
  have destEnough : ¬ totalBlkRemain dest < size := fun short =>
    destSteady.short_iff.mp short destFits
  have srcEnough : ¬ totalBlkRemain src < size := fun short => srcSteady.short_iff.mp short srcFits
  obtain ⟨dest', src', loopEq, destCurrent, srcCurrent, destLayout, srcLayout, destPos, srcPos,
    srcBlks, content⟩ := @Current.copy_guarded dest src size destSteady.wellFormed
      srcSteady.wellFormed destSteady.current srcSteady.current (by omega) (by omega) (by omega)
  rw [Int.toNat_natCast] at content
  have oldDest := destSteady.pos
  have oldSrc := srcSteady.pos
  simp only [Pktbuf.tape] at oldDest oldSrc
  refine ⟨dest', src', ?_, destSteady.of_layout destCurrent destLayout, destLayout,
    srcSteady.of_layout srcCurrent srcLayout, srcLayout, ?_, ?_⟩
  · intro guard admits
    have enough : ¬ (totalBlkRemain dest < size ∨ totalBlkRemain src < size) := by omega
    simp only [guardedCopy, if_neg enough, loopEq guard admits, Option.bind_eq_bind,
      Option.bind_some]
  · rw [Tape.put, Tape.length_next srcFits]
    simp only [Pktbuf.tape, Tape.next, content, Tape.mk.injEq, true_and]
    omega
  · simp only [Pktbuf.tape, Tape.skip, Tape.mk.injEq]
    refine ⟨?_, by omega⟩
    rw [Pktbuf.content, srcBlks, Pktbuf.content]

end Steady

structure Follows (live : List Nat) (packets : Nat → Pktbuf) (tapes : Nat → Tape) : Prop where
  steady : ∀ id ∈ live, Steady (packets id)
  tape : ∀ id ∈ live, (packets id).tape = tapes id

namespace Follows

variable {live : List Nat} {packets : Nat → Pktbuf} {tapes : Nat → Tape} {id : Nat}
variable {call : CursorCall} {buf : Pktbuf} {tape : Tape}

theorem update (follows : Follows live packets tapes) (steady : Steady buf)
    (same : buf.tape = tape) :
    Follows live (Function.update packets id buf) (Function.update tapes id tape) := by
  constructor
  · intro other member
    by_cases isId : other = id
    · subst isId
      simpa using steady
    · simpa [isId] using follows.steady other member
  · intro other member
    by_cases isId : other = id
    · subst isId
      simpa using same
    · simpa [isId] using follows.tape other member

/-- Where a call leads: it returns under every guard that admits windows what the sequences
say, and the packets go on following them.  A refused call changes nothing. -/
def Matches (live : List Nat) (packets : Nat → Pktbuf) (tapes : Nat → Tape) (call : CursorCall) :
    Prop :=
  ∃ after, (∀ guard : Guard, guard.Admits →
      call.guardedStep guard packets = some ((call.tapeStep tapes).1, after)) ∧
    Follows live after (call.tapeStep tapes).2 ∧
    ((call.tapeStep tapes).1.1 ≠ .ok → after = packets)

theorem accepted {bytes : List UInt8} (follows : Follows live packets tapes)
    (accept : call.tapeStep tapes = ((.ok, bytes), Function.update tapes id tape))
    (returns : ∀ guard : Guard, guard.Admits → call.guardedStep guard packets =
      some ((.ok, bytes), Function.update packets id buf))
    (steady : Steady buf) (same : buf.tape = tape) : Matches live packets tapes call := by
  refine ⟨Function.update packets id buf, fun guard admits => ?_, ?_, ?_⟩
  · rw [accept, returns guard admits]
  · rw [accept]
    exact follows.update steady same
  · rw [accept]
    exact fun notOk => absurd rfl notOk

theorem refused (follows : Follows live packets tapes)
    (refuse : call.tapeStep tapes = ((.size, []), tapes))
    (returns : ∀ guard, call.guardedStep guard packets = some ((.size, []), packets)) :
    Matches live packets tapes call := by
  refine ⟨packets, fun guard _ => ?_, ?_, fun _ => rfl⟩
  · rw [refuse, returns]
  · rw [refuse]
    exact follows

theorem looped {σ : Type} {access : Access σ} {act : σ → List UInt8 → σ × List UInt8}
    (start : σ) (size : Nat) (seen : σ → List UInt8) (follows : Follows live packets tapes)
    (member : id ∈ live) (law : ByteAccess access act) (nothing : seen start = [])
    (tapeEq : call.tapeStep tapes =
      if (tapes id).pos + size ≤ (tapes id).content.length then
        ((.ok, seen (act start ((tapes id).next size)).1),
          Function.update tapes id ((tapes id).put (act start ((tapes id).next size)).2))
      else ((.size, []), tapes))
    (stepEq : ∀ guard, call.guardedStep guard packets =
      (guardedLoop guard access (packets id) start size).map fun (err, buf, state) =>
        ((err, seen state), Function.update packets id buf)) :
    Matches live packets tapes call := by
  have steady := follows.steady id member
  have sameTape := follows.tape id member
  by_cases fits : (tapes id).pos + size ≤ (tapes id).content.length
  · obtain ⟨buf, returns, isSteady, -, isTape⟩ :=
      @Steady.loop_fits σ access act (packets id) start size law steady (by rwa [sameTape])
    rw [sameTape] at returns isTape
    refine follows.accepted (tapeEq.trans (if_pos fits)) (fun guard admits => ?_) isSteady isTape
    rw [stepEq, returns guard admits]
    rfl
  · refine follows.refused (tapeEq.trans (if_neg fits)) fun guard => ?_
    rw [stepEq, steady.loop_short (by rwa [sameTape]) guard, Option.map_some]
    simp only [nothing, Function.update_eq_self]

theorem step (follows : Follows live packets tapes) (proper : call.Proper)
    (named : ∀ id ∈ call.named, id ∈ live) : Matches live packets tapes call := by
  cases call with
  | seek id offset =>
      have member := named id (by simp [CursorCall.named])
      have steady := follows.steady id member
      have sameTape := follows.tape id member
      by_cases inside : offset = (tapes id).pos ∨
          0 ≤ offset ∧ offset < (tapes id).content.length
      · obtain ⟨buf, returns, isSteady, -, isTape⟩ :=
          steady.seek_done (by rwa [sameTape])
        refine follows.accepted (if_pos inside) (fun guard admits => ?_) isSteady
          (by rw [isTape, sameTape])
        rw [CursorCall.guardedStep, returns guard admits]
        rfl
      · refine follows.refused (if_neg inside) fun guard => ?_
        rw [CursorCall.guardedStep, steady.seek_refused guard (by rwa [sameTape])]
        exact congrArg (fun packets => some ((NetErr.size, []), packets))
          (Function.update_eq_self id packets)
  | read id size =>
      have nonzero : (size : Int) ≠ 0 := Int.natCast_ne_zero.mpr (Nat.ne_of_gt proper)
      refine looped [] size (fun dest => dest) follows (named id (by simp [CursorCall.named]))
        readAccess_bytes rfl ?_ fun guard => ?_
      · by_cases fits : (tapes id).pos + size ≤ (tapes id).content.length
        · simp only [CursorCall.tapeStep, if_pos fits, Tape.put_next fits, List.nil_append]
        · simp only [CursorCall.tapeStep, if_neg fits]
      · simp only [CursorCall.guardedStep, guardedRead, if_neg nonzero]
        cases guardedLoop guard readAccess (packets id) [] size <;> rfl
  | write id src size =>
      have nonzero : (size : Int) ≠ 0 := Int.natCast_ne_zero.mpr (Nat.ne_of_gt proper)
      refine looped 0 size (fun _ => []) follows (named id (by simp [CursorCall.named]))
        (writeAccess_bytes src) rfl ?_ fun guard => ?_
      · by_cases fits : (tapes id).pos + size ≤ (tapes id).content.length
        · simp only [CursorCall.tapeStep, if_pos fits, Tape.length_next fits]
        · simp only [CursorCall.tapeStep, if_neg fits]
      · simp only [CursorCall.guardedStep, guardedWrite, if_neg nonzero]
        cases guardedLoop guard (writeAccess src) (packets id) 0 size <;> rfl
  | fill id value size =>
      have nonzero : (size : Int) ≠ 0 := Int.natCast_ne_zero.mpr (Nat.ne_of_gt proper)
      refine looped () size (fun _ => []) follows (named id (by simp [CursorCall.named]))
        (fillAccess_bytes value) rfl ?_ fun guard => ?_
      · by_cases fits : (tapes id).pos + size ≤ (tapes id).content.length
        · simp only [CursorCall.tapeStep, if_pos fits, Tape.length_next fits]
        · simp only [CursorCall.tapeStep, if_neg fits]
      · simp only [CursorCall.guardedStep, guardedFill, if_neg nonzero]
        cases guardedLoop guard (fillAccess value) (packets id) () size <;> rfl
  | copy dest src size =>
      have destMember := named dest (by simp [CursorCall.named])
      have srcMember := named src (by simp [CursorCall.named])
      have destSteady := follows.steady dest destMember
      have srcSteady := follows.steady src srcMember
      have destTape := follows.tape dest destMember
      have srcTape := follows.tape src srcMember
      by_cases fits : (tapes dest).pos + size ≤ (tapes dest).content.length ∧
          (tapes src).pos + size ≤ (tapes src).content.length
      · obtain ⟨dest', src', returns, destSteady', -, srcSteady', -, destTape', srcTape'⟩ :=
          @Steady.copy_fits size _ _ destSteady srcSteady (by rw [destTape]; exact fits.1)
            (by rw [srcTape]; exact fits.2)
        rw [destTape, srcTape] at destTape'
        rw [srcTape] at srcTape'
        have accept : (CursorCall.copy dest src size).tapeStep tapes = _ := if_pos fits
        refine ⟨Function.update (Function.update packets dest dest') src src',
          fun guard admits => ?_, ?_, ?_⟩
        · simp only [CursorCall.guardedStep, returns guard admits, accept, Option.bind_eq_bind,
            Option.bind_some]
        · rw [accept]
          exact (follows.update destSteady' destTape').update srcSteady' srcTape'
        · rw [accept]
          exact fun notOk => absurd rfl notOk
      · refine follows.refused (if_neg fits) fun guard => ?_
        rw [CursorCall.guardedStep, destSteady.copy_short srcSteady (by rwa [destTape, srcTape])]
        simp only [Option.bind_eq_bind, Option.bind_some, Function.update_eq_self]

end Follows

/-- What any sequence of proper calls on the packets leads to, after `pktbuf_reset_acc`, and
what it leads to for sequences. -/
inductive CursorReach (live : List Nat) (packets : Nat → Pktbuf) :
    (Nat → Pktbuf) → (Nat → Tape) → Prop where
  | resetAcc : CursorReach live packets (fun id => pktbufResetAcc (packets id))
      fun id => ⟨(packets id).content, 0⟩
  | call {now after : Nat → Pktbuf} {tapes : Nat → Tape} {call : CursorCall}
      {result : NetErr × List UInt8} (reached : CursorReach live packets now tapes)
      (proper : call.Proper) (named : ∀ id ∈ call.named, id ∈ live)
      (stepEq : call.step now = some (result, after)) :
      CursorReach live packets after (call.tapeStep tapes).2

section Runs

variable {live : List Nat} {packets now : Nat → Pktbuf} {tapes : Nat → Tape}

theorem CursorReach.follows (holds : ∀ id ∈ live, (packets id).WellFormed)
    (distinct : ∀ id ∈ live, (blkIds (packets id).blkList).Nodup)
    (reached : CursorReach live packets now tapes) : Follows live now tapes := by
  induction reached with
  | resetAcc =>
      constructor
      · intro id member
        obtain ⟨current, -, -, layout⟩ :=
          pktbufResetAcc_spec (holds id member) (distinct id member)
        exact ⟨layout.wellFormed (holds id member), current⟩
      · intro id member
        obtain ⟨-, pos, blks, -⟩ := pktbufResetAcc_spec (holds id member) (distinct id member)
        rw [Pktbuf.tape, pos, Pktbuf.content, blks]
        rfl
  | @call now after tapes call result reached proper named stepEq ih =>
      obtain ⟨last, returns, follows, -⟩ := ih.step proper named
      have same := returns .everywhere Guard.everywhere_admits
      rw [CursorCall.guardedStep_everywhere, stepEq] at same
      cases same
      exact follows

/-- The calls through cursors refine sequential access to the bytes of the packets.  In
every state that calls lead to, every packet has the bytes and the position that its
sequence has, and every further call comes to an end, also when it may access nothing
outside the window of the current block; it returns what the sequences say, and a call that
does not succeed changes nothing. -/
theorem cursor_refines (holds : ∀ id ∈ live, (packets id).WellFormed)
    (distinct : ∀ id ∈ live, (blkIds (packets id).blkList).Nodup)
    (reached : CursorReach live packets now tapes) :
    (∀ id ∈ live, (now id).content = (tapes id).content ∧ (now id).pos = (tapes id).pos) ∧
      ∀ call : CursorCall, call.Proper → (∀ id ∈ call.named, id ∈ live) →
        ∃ after, call.step now = some ((call.tapeStep tapes).1, after) ∧
          call.guardedStep .inWindow now = some ((call.tapeStep tapes).1, after) ∧
          ((call.tapeStep tapes).1.1 ≠ .ok → after = now) := by
  have follows := reached.follows holds distinct
  constructor
  · intro id member
    have pos := (follows.steady id member).pos
    rw [follows.tape id member] at pos
    exact ⟨congrArg Tape.content (follows.tape id member), pos.symm⟩
  · intro call proper named
    obtain ⟨after, returns, -, refused⟩ := follows.step proper named
    refine ⟨after, ?_, returns .inWindow Guard.inWindow_admits, refused⟩
    rw [← CursorCall.guardedStep_everywhere]
    exact returns .everywhere Guard.everywhere_admits

def scatteredPacket : Pktbuf where
  totalSize := 5
  blkList := [⟨0, 0, 20, fun _ => 0⟩, ⟨1, 2, 62, fun _ => 1⟩, ⟨2, 3, 0, fun _ => 2⟩]
  ref := 1
  pos := 0
  currBlk := none
  blkOffset := 0

theorem scatteredPacket_wellFormed : scatteredPacket.WellFormed :=
  ⟨by decide, by simp only [scatteredPacket, windows_cons, windows_nil, and_true]; decide⟩

/-- Four bytes of the packet are read across its blocks. -/
theorem cursor_refines_scattered :
    ∃ after, (CursorCall.read 0 4).step (fun _ => pktbufResetAcc scatteredPacket) =
      some ((.ok, [1, 1, 2, 2]), after) := by
  obtain ⟨-, calls⟩ := @cursor_refines [0] (fun _ => scatteredPacket) _ _
    (fun _ _ => scatteredPacket_wellFormed) (fun _ _ => by decide) .resetAcc
  obtain ⟨after, stepEq, -⟩ := calls (.read 0 4) (Nat.succ_pos 3) (by simp [CursorCall.named])
  exact ⟨after, stepEq⟩

end Runs

end CleanOS.Net
