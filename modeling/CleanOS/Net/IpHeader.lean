import CleanOS.Net.Checksum

/-!
# IPv4 headers

The header at the start of a packet as bytes of its contents, the fields that
`ipv4_out` writes and `ipv4_in` reads, and the header checksum.
-/

namespace CleanOS.Net

open CleanOS.Lib

def HdrReady (buf : Pktbuf) : Prop :=
  ∃ first rest, buf.blkList = first :: rest ∧ (ipv4HdrLen : Int) ≤ first.size

section Packet

variable {buf after : Pktbuf}

theorem SameLayout.hdrReady (same : SameLayout buf after) (ready : HdrReady buf) :
    HdrReady after := by
  obtain ⟨first, rest, blks, size⟩ := ready
  have frames := same.frames
  simp only [blks, blkFrames, List.map_cons] at frames
  obtain ⟨first', rest', blks', frame, -⟩ := List.map_eq_cons_iff.mp frames
  refine ⟨first', rest', blks', ?_⟩
  simp only [Pktblk.frame, Prod.mk.injEq] at frame
  omega

theorem Current.of_layout (current : Current buf) (same : SameLayout buf after)
    (pos : after.pos = buf.pos) (curr : after.currBlk = buf.currBlk)
    (offset : after.blkOffset = buf.blkOffset) : Current after := by
  obtain ⟨blocks, cursor⟩ := current
  cases cursor with
  | @inside front behind blk focus =>
      have frames := same.frames
      simp only [focus.blks, blkFrames, List.map_append, List.map_cons] at frames
      obtain ⟨front', tail, blks', frontFrames, tailFrames⟩ := List.map_eq_append_iff.mp frames
      obtain ⟨blk', behind', rfl, frame, -⟩ := List.map_eq_cons_iff.mp tailFrames
      have frontSize := blksSize_of_frames frontFrames
      simp only [Pktblk.frame, Prod.mk.injEq] at frame
      obtain ⟨id, size, data⟩ := frame
      refine ⟨_, .inside ⟨blks', ?_, ?_, ?_, ?_, ?_⟩⟩
      · rw [blkIds_of_frames same.frames]
        exact focus.nodup
      · rw [curr, focus.curr, id]
      · rw [offset, data]
        exact focus.lower
      · rw [offset, data, size]
        exact focus.upper
      · rw [pos, offset, data, frontSize]
        exact focus.pos
  | atEnd nodup none atPos =>
      refine ⟨0, .atEnd ?_ (curr.trans none) ?_⟩
      · rw [blkIds_of_frames same.frames]
        exact nodup
      · rw [pos, blksSize_of_frames same.frames]
        exact atPos

theorem pktHdr_eq (windows : Windows buf.blkList) (ready : HdrReady buf) :
    pktHdr buf = some (buf.content.take ipv4HdrLen) := by
  obtain ⟨first, rest, blks, size⟩ := ready
  rw [blks, windows_cons] at windows
  have data := windows.1.data
  have inside := windows.1.inside
  have split : first.size.toNat = ipv4HdrLen + (first.size.toNat - ipv4HdrLen) := by omega
  simp only [pktHdr, blks, List.head?_cons, Option.bind_eq_bind, Option.bind_some,
    Pktbuf.content, blksContent_cons]
  rw [Pktblk.load_inside data (by omega) (by omega),
    List.take_append_of_le_length (by rw [Pktblk.length_window]; omega), Pktblk.window, split,
    slice_add, List.take_left' (by simp)]
  rfl

theorem setPktHdr_spec {hdr : List UInt8} (windows : Windows buf.blkList)
    (ready : HdrReady buf) (length : hdr.length = ipv4HdrLen) :
    ∃ after, setPktHdr buf hdr = some after ∧ SameLayout buf after ∧
      after.content = hdr ++ buf.content.drop ipv4HdrLen ∧ after.pos = buf.pos ∧
      after.currBlk = buf.currBlk ∧ after.blkOffset = buf.blkOffset := by
  obtain ⟨first, rest, blks, size⟩ := ready
  rw [blks, windows_cons] at windows
  have data := windows.1.data
  have inside := windows.1.inside
  obtain ⟨payload, storeEq, -, stored, behind⟩ :=
    @Pktblk.store_inside first first.data hdr data (by omega)
  have split : first.size.toNat = ipv4HdrLen + (first.size.toNat - ipv4HdrLen) := by omega
  refine ⟨{ buf with blkList := { first with payload := payload } :: rest }, ?_,
    ⟨rfl, by simp [blks, blkFrames, Pktblk.frame], rfl⟩, ?_, rfl, rfl, rfl⟩
  · simp only [setPktHdr, blks, storeEq, Option.bind_eq_bind, Option.bind_some]
  · simp only [Pktbuf.content, blks, blksContent_cons]
    rw [List.drop_append_of_le_length (by rw [Pktblk.length_window]; omega), Pktblk.window,
      Pktblk.window]
    simp only
    rw [split, slice_add, slice_add, List.drop_left' (by simp), ← length, stored,
      List.append_assoc]
    congr 2
    apply slice_congr
    intro i _
    exact behind _ (by omega)

end Packet

section Checksum

theorem length_setChecksum {hdr : List UInt8} {checksum : Nat} (length : hdr.length = 20) :
    (setChecksum hdr checksum).length = ipv4HdrLen := by
  simp [setChecksum, length_bytes16, length]

def hdrChecksum (hdr : List UInt8) : Nat :=
  65535 - foldCarry (wordSum hdr) (wordSum hdr)

def HdrVerifies (hdr : List UInt8) : Prop :=
  checksum16 0 hdr 0 true = some 0

instance : DecidablePred HdrVerifies := fun hdr =>
  inferInstanceAs (Decidable (checksum16 0 hdr 0 true = some 0))

theorem checksum16_hdr {hdr : List UInt8} {complement : Bool}
    (length : hdr.length = ipv4HdrLen) :
    checksum16 0 hdr 0 complement =
      some (if complement then hdrChecksum hdr else foldCarry (wordSum hdr) (wordSum hdr)) := by
  have twenty : hdr.length = 20 := length
  have bound := @wordSum_lt hdr
  have small : wordSum hdr % 4294967296 = wordSum hdr := by omega
  simp [checksum16, small, hdrChecksum]

theorem setChecksum_verifies {hdr : List UInt8} (length : hdr.length = ipv4HdrLen)
    (emptyField : (hdr.drop 10).take 2 = [0, 0]) :
    HdrVerifies (setChecksum hdr (hdrChecksum hdr)) := by
  have twenty : hdr.length = 20 := length
  have asWord : setChecksum hdr (hdrChecksum hdr) = overwrite hdr 10 (bytes16 (hdrChecksum hdr)) :=
    List.append_assoc _ _ _
  have checksumSmall : hdrChecksum hdr < 65536 := by
    unfold hdrChecksum
    omega
  have newSum : wordSum (setChecksum hdr (hdrChecksum hdr)) = wordSum hdr + hdrChecksum hdr := by
    rw [asWord, wordSum_overwrite rfl (by omega) emptyField checksumSmall]
  rw [HdrVerifies, checksum16_hdr (length_setChecksum twenty), if_pos rfl]
  rw [hdrChecksum, newSum, hdrChecksum, foldCarry_eq (Nat.le_refl _),
    foldCarry_eq (Nat.le_refl _), onesNorm_complement (by decide)]

end Checksum

section Fields

variable {totalLen id fragAll checksum : Nat} {protocol : UInt8} {src dest : IpAddr}

theorem bytes16_value {value : Nat} (small : value < 65536) :
    value.toUInt8.toNat + 256 * (value / 256).toUInt8.toNat = value := by
  simp only [Nat.toUInt8, UInt8.toNat_ofNat']
  omega

theorem ipAddrFromBuf_toBuf (ip : IpAddr) (rest : List UInt8) :
    ipAddrFromBuf (ipAddrToBuf ip ++ rest) = ip := by
  have bound := ip.toNat_lt
  have value : ip.toNat.toUInt8.toNat + 256 * (ip.toNat / 256).toUInt8.toNat +
      65536 * (ip.toNat / 65536).toUInt8.toNat +
      16777216 * (ip.toNat / 16777216).toUInt8.toNat = ip.toNat := by
    simp only [Nat.toUInt8, UInt8.toNat_ofNat']
    omega
  have parts : ipAddrFromBuf (ipAddrToBuf ip ++ rest) = (ip.toNat.toUInt8.toNat +
      256 * (ip.toNat / 256).toUInt8.toNat + 65536 * (ip.toNat / 65536).toUInt8.toNat +
      16777216 * (ip.toNat / 16777216).toUInt8.toNat).toUInt32 := rfl
  rw [parts, value]
  exact UInt32.ofNat_toNat

def wireHdr (totalLen id fragAll : Nat) (protocol : UInt8) (src dest : IpAddr) : List UInt8 :=
  let hdr := iphdrHtons (ipv4Hdr totalLen id fragAll protocol src dest)
  setChecksum hdr (hdrChecksum hdr)

theorem length_iphdrHtons {hdr : List UInt8} : (iphdrHtons hdr).length = hdr.length := by
  unfold iphdrHtons
  split <;> simp

theorem length_wireHdr :
    (wireHdr totalLen id fragAll protocol src dest).length = ipv4HdrLen :=
  rfl

theorem wireHdr_verifies : HdrVerifies (wireHdr totalLen id fragAll protocol src dest) :=
  setChecksum_verifies rfl rfl

theorem iphdrHtons_wireHdr :
    ∃ checksum, iphdrHtons (wireHdr totalLen id fragAll protocol src dest) =
      setChecksum (ipv4Hdr totalLen id fragAll protocol src dest) checksum :=
  ⟨_, rfl⟩

theorem length_hostHdr :
    (setChecksum (ipv4Hdr totalLen id fragAll protocol src dest) checksum).length =
      ipv4HdrLen :=
  rfl

theorem hostHdr_size :
    ipv4HdrSize (setChecksum (ipv4Hdr totalLen id fragAll protocol src dest) checksum) =
      ipv4HdrLen := by
  change (0x45 : UInt8).toNat % 16 * 4 = 20
  decide

theorem hostHdr_totalLen (small : totalLen < 65536) :
    hdrTotalLen (setChecksum (ipv4Hdr totalLen id fragAll protocol src dest) checksum) =
      totalLen :=
  bytes16_value small

theorem hostHdr_id (small : id < 65536) :
    hdrId (setChecksum (ipv4Hdr totalLen id fragAll protocol src dest) checksum) = id :=
  bytes16_value small

theorem hostHdr_fragAll (small : fragAll < 65536) :
    field16 (setChecksum (ipv4Hdr totalLen id fragAll protocol src dest) checksum) 6 =
      fragAll :=
  bytes16_value small

theorem hostHdr_srcIp :
    hdrSrcIp (setChecksum (ipv4Hdr totalLen id fragAll protocol src dest) checksum) = src :=
  ipAddrFromBuf_toBuf src (ipAddrToBuf dest)

theorem hostHdr_destIp :
    hdrDestIp (setChecksum (ipv4Hdr totalLen id fragAll protocol src dest) checksum) = dest :=
  ipAddrFromBuf_toBuf dest []

end Fields

section Finish

variable {buf : Pktbuf}

theorem Current.atHdr (holds : buf.WellFormed) (current : Current buf) (ready : HdrReady buf)
    (atZero : buf.pos = 0) :
    ∃ first rest, Focus buf [] first rest ∧ (ipv4HdrLen : Int) ≤ first.size ∧
      buf.blkOffset = first.data := by
  obtain ⟨first, rest, blks, size⟩ := ready
  have twenty : (20 : Int) ≤ first.size := size
  obtain ⟨blocks, cursor⟩ := current
  cases cursor with
  | @inside front behind blk focus =>
      have pos := focus.pos
      have lower := focus.lower
      have windows := holds.windows
      cases front with
      | nil =>
          have same : blk = first := by
            have both := focus.blks
            rw [blks] at both
            exact (List.cons.inj both).1.symm
          subst same
          exact ⟨blk, behind, focus, size, by simp at pos; omega⟩
      | cons head tail =>
          have same : head = first := by
            have both := focus.blks
            rw [blks] at both
            exact (List.cons.inj both).1.symm
          subst same
          rw [focus.blks, List.cons_append, windows_cons, windows_append] at windows
          have tailNonneg := windows.2.1.size_nonneg
          rw [blksSize_cons] at pos
          omega
  | atEnd nodup none pos =>
      have windows := holds.windows
      rw [blks, windows_cons] at windows
      have restNonneg := windows.2.size_nonneg
      rw [blks, blksSize_cons] at pos
      omega

theorem finishHdr_spec (holds : buf.WellFormed) (current : Current buf) (ready : HdrReady buf)
    (atZero : buf.pos = 0) (fiveWords : ipv4HdrSize (buf.content.take ipv4HdrLen) = ipv4HdrLen) :
    ∃ after, finishHdr buf = some after ∧ SameLayout buf after ∧
      after.content = setChecksum (buf.content.take ipv4HdrLen)
        (hdrChecksum (buf.content.take ipv4HdrLen)) ++ buf.content.drop ipv4HdrLen := by
  obtain ⟨first, rest, focus, size, offset⟩ := current.atHdr holds ready atZero
  have twenty : (20 : Int) ≤ first.size := size
  have total := holds.length_content
  have firstHolds : first.InPayload := holds.windows first (by simp [focus.blks])
  have data := firstHolds.data
  have inside := firstHolds.inside
  have totalSize := holds.total
  have windows := holds.windows
  rw [focus.blks, List.nil_append, windows_cons] at windows
  have restNonneg := windows.2.size_nonneg
  rw [focus.blks, List.nil_append, blksSize_cons] at totalSize
  have hdrLength : (buf.content.take ipv4HdrLen).length = 20 := by
    rw [List.length_take]
    exact Nat.min_eq_left (by omega)
  have content : buf.content = [] ++ (buf.content.take ipv4HdrLen ++
      buf.content.drop ipv4HdrLen) := by simp
  have read := focus.read holds.windows content (by simp [atZero])
    (by rw [hdrLength, offset]; omega)
  obtain ⟨written, moved, storeEq, movedEq, pos, layout, movedContent, -, -⟩ :=
    @Focus.pass buf [] rest first [] (buf.content.take ipv4HdrLen)
      (buf.content.take ipv4HdrLen) (buf.content.drop ipv4HdrLen) focus holds.windows content
      (by simp [atZero]) (by rw [hdrLength, offset]; omega) rfl
  rw [hdrLength] at read movedEq
  have unchanged : written = first := by
    have same := @Pktblk.store_same first buf.blkOffset 20 (by omega) (by omega) (by omega)
    have twentyNat : (20 : Int).toNat = 20 := rfl
    rwa [twentyNat, read, storeEq, Option.some.injEq] at same
  rw [unchanged] at movedEq
  have accessEq : checksumAccess (0, 0) first buf.blkOffset 20 =
      some ((foldCarry (wordSum (buf.content.take ipv4HdrLen))
        (wordSum (buf.content.take ipv4HdrLen)), 20), first) := by
    have loadEq := @Pktblk.load_inside first buf.blkOffset 20 (by omega) (by omega) (by omega)
    have twentyNat : (20 : Int).toNat = 20 := rfl
    rw [twentyNat, read] at loadEq
    simp only [checksumAccess, loadEq, Option.bind_eq_bind, Option.bind_some,
      checksum16_hdr (hdrLength : _ = ipv4HdrLen), Bool.false_eq_true, if_false, twentyNat]
  have loopEq : cursorLoop checksumAccess buf.blkList.length buf (0, 0) 20 =
      some (moved, (foldCarry (wordSum (buf.content.take ipv4HdrLen))
        (wordSum (buf.content.take ipv4HdrLen)), 20)) := by
    have blocks : buf.blkList.length = rest.length + 1 := by simp [focus.blks]
    have fits : ¬ (20 : Int) > first.data + first.size - buf.blkOffset := by omega
    have twentyCast : (((20 : Nat) : Int)) = 20 := rfl
    rw [twentyCast] at movedEq
    simp only [blocks, cursorLoop, if_pos (by omega : (20 : Int) > 0), focus.remain,
      Option.bind_eq_bind, Option.bind_some, if_neg fits, focus.current, accessEq, movedEq]
    exact cursorLoop_nothing (by omega)
  have movedHolds := layout.wellFormed holds
  obtain ⟨after, afterEq, afterLayout, afterContent, -⟩ :=
    @setPktHdr_spec moved (setChecksum (buf.content.take ipv4HdrLen)
      (hdrChecksum (buf.content.take ipv4HdrLen))) movedHolds.windows
      (layout.hdrReady ready) (length_setChecksum hdrLength)
  refine ⟨after, ?_, layout.trans afterLayout, ?_⟩
  · have enough : ¬ totalBlkRemain buf < ((20 : Nat) : Int) := by
      simp only [totalBlkRemain, atZero]
      omega
    have bound : foldCarry (wordSum (buf.content.take ipv4HdrLen))
        (wordSum (buf.content.take ipv4HdrLen)) < 65536 := by
      rw [foldCarry_eq (Nat.le_refl _)]
      exact Nat.lt_succ_of_le (onesNorm_le (by decide))
    have checksumEq : pktbufChecksum16 buf ((20 : Nat) : Int) 0 true =
        some (hdrChecksum (buf.content.take ipv4HdrLen), moved) := by
      rw [pktbufChecksum16, if_neg enough]
      simp [loopEq, Nat.mod_eq_of_lt bound, hdrChecksum]
    simp only [finishHdr, pktHdr_eq holds.windows ready, Option.bind_eq_bind,
      Option.bind_some, fiveWords, checksumEq]
    exact afterEq
  · rw [afterContent, movedContent]
    rw [List.nil_append, List.drop_left' hdrLength]

end Finish

end CleanOS.Net
