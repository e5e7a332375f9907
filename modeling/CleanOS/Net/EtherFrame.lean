import CleanOS.Net.Handover
import CleanOS.Net.IpInput

/-!
# Ethernet frames

What `ether_raw_out` makes of a packet: the padding behind it and the header in front of it,
in whatever blocks the packet is stored and whatever the free blocks held before.
-/

namespace CleanOS.Net

def etherPad (buf : Pktbuf) (free : List Pktblk) : Option (NetErr × Pktbuf × List Pktblk) :=
  let size := buf.totalSize
  if size < ethDataMin then do
    let (err, buf, free) ← pktbufResize buf ethDataMin free
    if err.isError then some (err, buf, free)
    else
      let buf := pktbufResetAcc buf
      let (_, buf) ← pktbufSeek buf size
      let (_, buf) ← pktbufFill buf 0 (ethDataMin - size)
      some (.ok, buf, free)
  else some (.ok, buf, free)

def putEtherHdr (buf : Pktbuf) (free : List Pktblk) (hdr : List UInt8) :
    Option (NetErr × Pktbuf × List Pktblk) := do
  let (err, buf, free) ← pktbufAddHeader buf etherHdrLen true free
  if err.isError then some (.size, buf, free)
  else
    let buf ← setPktHdr buf hdr
    some (.ok, buf, free)

/-- The bytes of a frame: both addresses, the protocol, the packet, and zeros up to the
shortest frame. -/
def etherBytes (dest src : HwAddr) (protocol : Nat) (packet : List UInt8) : List UInt8 :=
  (dest ++ src ++ netBytes16 protocol) ++
    (packet ++ List.replicate (ethDataMin.toNat - packet.length) 0)

variable {buf after : Pktbuf} {free left : List Pktblk} {dest src : HwAddr} {protocol : Nat}
  {hdr : List UInt8} {err : NetErr}

theorem etherFrame_eq :
    etherFrame buf free dest src protocol =
      (etherPad buf free).bind fun (err, buf, free) =>
        if err.isError then some (err, buf, free)
        else putEtherHdr buf free (dest ++ src ++ netBytes16 protocol) := by
  unfold etherFrame etherPad
  dsimp only
  split
  next =>
    simp only [Option.bind_eq_bind, Option.bind_assoc]
    congr 1
    funext ⟨err, resized, free⟩
    dsimp only
    split
    next => rfl
    next =>
      simp only [Option.bind_assoc]
      rfl
  next => rfl

theorem length_netBytes16 (value : Nat) : (netBytes16 value).length = 2 := by
  rw [netBytes16, List.length_reverse, length_bytes16]

theorem length_etherHdr (destLength : dest.length = 6) (srcLength : src.length = 6) :
    (dest ++ src ++ netBytes16 protocol).length = etherHdrLen := by
  rw [List.length_append, List.length_append, destLength, srcLength, length_netBytes16]
  rfl

theorem pktbufResize_short {toSize : Int} {blk : Pktblk} (holds : buf.WellFormed)
    (nonzero : buf.totalSize ≠ 0) (larger : buf.totalSize < toSize)
    (short : toSize - buf.totalSize ≤ pktbufBlkSize)
    (resized : pktbufResize buf toSize (blk :: free) = some (err, after, left)) :
    err = .ok ∧ free.length ≤ left.length := by
  have different : toSize ≠ buf.totalSize := by omega
  rw [pktbufResize, if_neg different, if_neg nonzero, if_pos larger] at resized
  cases last : buf.blkList.getLast? with
  | none =>
      rw [last] at resized
      cases resized
  | some tail =>
      have inside := (holds.windows tail (List.mem_of_getLast? last)).inside
      have room : 0 ≤ currBlkTailFree tail := by
        rw [currBlkTailFree]
        omega
      rw [last] at resized
      dsimp only at resized
      split at resized
      next =>
        cases resized
        exact ⟨rfl, Nat.le_succ _⟩
      next noRoom =>
        rw [NetStack.pktblockAllocList_one (by omega) (by omega)] at resized
        cases resized
        exact ⟨rfl, Nat.le_refl _⟩

theorem overwrite_tail {content tail bytes : List UInt8} (length : tail.length = bytes.length) :
    overwrite (content ++ tail) content.length bytes = content ++ bytes := by
  rw [overwrite, List.take_left, ← length, ← List.length_append, List.drop_length, List.append_nil]

theorem pktbufFill_tail {tail : List UInt8} {size : Int} (holds : buf.WellFormed)
    (distinct : (blkIds buf.blkList).Nodup) {content : List UInt8}
    (contents : buf.content = content ++ tail) (isSize : size = content.length)
    (nonempty : tail ≠ []) :
    ∃ sought filled, pktbufSeek (pktbufResetAcc buf) size = some (.ok, sought) ∧
      pktbufFill sought 0 (buf.totalSize - size) = some (.ok, filled) ∧
      SameLayout buf filled ∧ filled.content = content ++ List.replicate tail.length 0 := by
  have total := holds.length_content
  have tailLength := List.length_pos_of_ne_nil nonempty
  rw [contents, List.length_append] at total
  obtain ⟨resetCurrent, -, resetBlks, resetLayout⟩ := pktbufResetAcc_spec holds distinct
  have resetHolds := resetLayout.wellFormed holds
  obtain ⟨seekErr, sought, seek, current, soughtLayout, soughtContent, reached⟩ :=
    pktbufSeek_spec resetHolds resetCurrent size
  obtain ⟨isOk, pos⟩ := reached (by omega) (by rw [resetLayout.total]; omega)
  subst isOk
  have soughtTotal : sought.totalSize = buf.totalSize :=
    soughtLayout.total.trans resetLayout.total
  have remain : totalBlkRemain sought = buf.totalSize - size := by
    rw [totalBlkRemain, soughtTotal, pos]
  have soughtHolds := soughtLayout.wellFormed resetHolds
  obtain ⟨filled, fill, -, -, filledLayout, filledContent⟩ :=
    @pktbufFill_spec sought (buf.totalSize - size) 0 soughtHolds current (by omega)
      (Int.le_of_eq remain.symm)
  refine ⟨sought, filled, seek, fill, (resetLayout.trans soughtLayout).trans filledLayout, ?_⟩
  have startsWith : sought.content = content ++ tail := by
    rw [soughtContent, Pktbuf.content, resetBlks]
    exact contents
  have atEnd : sought.pos.toNat = content.length := by omega
  have missing : (buf.totalSize - size).toNat = tail.length := by omega
  rw [filledContent, startsWith, atEnd, missing]
  exact overwrite_tail List.length_replicate.symm

theorem etherPad_spec (holds : buf.WellFormed)
    (distinct : (blkIds free ++ blkIds buf.blkList).Nodup) :
    ∃ err after left, etherPad buf free = some (err, after, left) ∧
      Reshaped buf free after left ∧
      (err.isError = false → after.content =
        buf.content ++ List.replicate (ethDataMin.toNat - buf.content.length) 0) ∧
      (buf.content ≠ [] → free ≠ [] → err = .ok ∧ free.length ≤ left.length + 1) := by
  have total := holds.length_content
  by_cases short : buf.totalSize < ethDataMin
  · rcases @pktbufResize_extend buf free ethDataMin holds short with
      ⟨grown, left, resize, reshaped, grownTotal, tail, contents⟩ |
      ⟨err, left, resize, isError, reshaped, -⟩
    · have grownHolds := reshaped.wellFormed
      have grownLength := grownHolds.length_content
      rw [contents, List.length_append, grownTotal] at grownLength
      have nonempty : tail ≠ [] := by
        intro none
        rw [none, List.length_nil] at grownLength
        omega
      have grownDistinct : (blkIds grown.blkList).Nodup :=
        (List.nodup_append.mp (reshaped.ids.nodup_iff.mpr distinct)).2.1
      obtain ⟨sought, filled, seek, fill, layout, filledContent⟩ :=
        pktbufFill_tail grownHolds grownDistinct contents total.symm nonempty
      rw [grownTotal] at fill
      refine ⟨.ok, filled, left, ?_, reshaped.trans (layout.reshaped grownHolds), fun _ => ?_, ?_⟩
      · have accepted : ¬ NetErr.ok.isError = true := Bool.false_ne_true
        simp only [etherPad, if_pos short, resize, Option.bind_eq_bind, Option.bind_some,
          if_neg accepted, seek, fill]
      · have missing : tail.length = ethDataMin.toNat - buf.content.length := by omega
        rw [filledContent, missing]
      · intro notEmpty someFree
        obtain ⟨blk, others, rfl⟩ := List.exists_cons_of_ne_nil someFree
        have positive := List.length_pos_of_ne_nil notEmpty
        have small : ethDataMin - buf.totalSize ≤ pktbufBlkSize := by
          rw [ethDataMin, pktbufBlkSize]
          omega
        obtain ⟨-, kept⟩ := pktbufResize_short holds (by omega) short small resize
        exact ⟨rfl, Nat.succ_le_succ kept⟩
    · refine ⟨err, buf, left, ?_, reshaped, fun noError => ?_, ?_⟩
      · simp only [etherPad, if_pos short, resize, Option.bind_eq_bind, Option.bind_some,
          if_pos isError]
      · rw [isError] at noError
        cases noError
      · intro notEmpty someFree
        obtain ⟨blk, others, rfl⟩ := List.exists_cons_of_ne_nil someFree
        have positive := List.length_pos_of_ne_nil notEmpty
        have small : ethDataMin - buf.totalSize ≤ pktbufBlkSize := by
          rw [ethDataMin, pktbufBlkSize]
          omega
        obtain ⟨isOk, -⟩ := pktbufResize_short holds (by omega) short small resize
        subst isOk
        cases isError
  · refine ⟨.ok, buf, free, ?_, .same holds (List.Perm.refl _), fun _ => ?_,
      fun _ _ => ⟨rfl, Nat.le_succ _⟩⟩
    · simp only [etherPad, if_neg short]
    · have nothing : ethDataMin.toNat - buf.content.length = 0 := by omega
      rw [nothing, List.replicate_zero, List.append_nil]

theorem setPktHdr_eq : setPktHdr buf hdr = setDataAt buf 0 hdr := by
  unfold setPktHdr setDataAt
  cases buf.blkList with
  | nil => rfl
  | cons first rest => simp only [Int.add_zero]

theorem headerBytes_eq_none {size : Int} (nonempty : buf.blkList ≠ [])
    (full : headerBytes buf free size = none) : free = [] := by
  obtain ⟨first, rest, blks⟩ := List.exists_cons_of_ne_nil nonempty
  rw [headerBytes, blks] at full
  dsimp only at full
  split at full
  next => cases full
  next => exact List.head?_eq_none_iff.mp (Option.map_eq_none_iff.mp full)

theorem putEtherHdr_spec (holds : buf.WellFormed) (nonempty : buf.blkList ≠ [])
    (length : hdr.length = etherHdrLen) :
    ∃ err after left, putEtherHdr buf free hdr = some (err, after, left) ∧
      Reshaped buf free after left ∧
      (err.isError = false → after.content = hdr ++ buf.content) ∧
      (free ≠ [] → err = .ok) := by
  cases room : headerBytes buf free etherHdrLen with
  | none =>
      have noBlock := headerBytes_eq_none nonempty room
      subst noBlock
      have add := pktbufAddHeader_full nonempty (by decide) (by decide) room
      refine ⟨.size, buf, [], ?_, .same holds (List.Perm.refl _), ?_, fun some => absurd rfl some⟩
      · have isError : NetErr.none.isError = true := rfl
        simp only [putEtherHdr, add, Option.bind_eq_bind, Option.bind_some, if_pos isError]
      · intro noError
        cases noError
  | some header =>
      obtain ⟨added, left, add, reshaped, -, ⟨data, size, starts, fits⟩, -, headerLength,
        contents⟩ := pktbufAddHeader_bytes holds (by decide) (by decide) room
      have upper : 0 + (hdr.length : Int) ≤ size := by omega
      obtain ⟨written, write, layout, writtenContent, -⟩ :=
        setDataAt_spec reshaped.wellFormed.windows starts (Int.le_refl 0) upper
      refine ⟨.ok, written, left, ?_, reshaped.trans (layout.reshaped reshaped.wellFormed),
        fun _ => ?_, fun _ => rfl⟩
      · have accepted : ¬ NetErr.ok.isError = true := Bool.false_ne_true
        simp only [putEtherHdr, add, Option.bind_eq_bind, Option.bind_some, if_neg accepted,
          setPktHdr_eq, write]
      · have sameLength : hdr.length = header.length := by
          rw [length, headerLength]
          rfl
        rw [writtenContent, contents, overwrite, Int.toNat_zero, List.take_zero, List.nil_append,
          Nat.zero_add, sameLength, List.drop_left]

theorem etherFrame_spec (holds : buf.WellFormed)
    (distinct : (blkIds free ++ blkIds buf.blkList).Nodup) (destLength : dest.length = 6)
    (srcLength : src.length = 6) :
    ∃ err after left, etherFrame buf free dest src protocol = some (err, after, left) ∧
      Reshaped buf free after left ∧
      (err.isError = false → after.content = etherBytes dest src protocol buf.content) ∧
      (buf.content ≠ [] → 2 ≤ free.length → err = .ok) := by
  obtain ⟨padErr, padded, padLeft, pad, padReshaped, padContent, padOk⟩ :=
    etherPad_spec holds distinct
  rw [etherFrame_eq, pad, Option.bind_some]
  dsimp only
  by_cases isError : padErr.isError = true
  · rw [if_pos isError]
    refine ⟨padErr, padded, padLeft, rfl, padReshaped, fun noError => ?_, ?_⟩
    · rw [isError] at noError
      cases noError
    · intro notEmpty enough
      exact (padOk notEmpty (List.ne_nil_of_length_pos (by omega))).1
  · rw [if_neg isError]
    have paddedContent := padContent (Bool.eq_false_iff.mpr isError)
    have nonempty : padded.blkList ≠ [] := by
      intro none
      have lengths := congrArg List.length paddedContent
      rw [Pktbuf.content, none, List.length_append, List.length_replicate, ethDataMin] at lengths
      simp only [blksContent_nil, List.length_nil] at lengths
      omega
    obtain ⟨err, after, left, put, reshaped, content, putOk⟩ :=
      @putEtherHdr_spec padded padLeft (dest ++ src ++ netBytes16 protocol)
        padReshaped.wellFormed nonempty (length_etherHdr destLength srcLength)
    refine ⟨err, after, left, put, padReshaped.trans reshaped, fun noError => ?_, ?_⟩
    · rw [content noError, paddedContent]
      rfl
    · intro notEmpty enough
      have kept := (padOk notEmpty (List.ne_nil_of_length_pos (by omega))).2
      exact putOk (List.ne_nil_of_length_pos (by omega))

end CleanOS.Net
