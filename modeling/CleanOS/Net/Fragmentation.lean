import CleanOS.Net.InPlace

/-!
# Fragmentation

The packets that `ipv4_out` passes to `netif_out`: their headers, and the part of the
payload each of them carries.
-/

namespace CleanOS.Net

open scoped List

section Size

variable {mtu total : Int}

theorem fragSize_bounds (wide : 28 ≤ mtu) (int : mtu < 2 ^ 31) (positive : 0 < total) :
    0 < fragSize mtu total ∧ fragSize mtu total ≤ total ∧ fragSize mtu total + 20 ≤ mtu ∧
      (fragSize mtu total < total → fragSize mtu total % 8 = 0) := by
  have room : (mtu - ((20 : Nat) : Int)) % 2 ^ 32 = mtu - 20 := by omega
  by_cases larger : total > mtu - 20
  · have value : fragSize mtu total = mtu - 20 - (mtu - 20) % 8 := by
      simp only [fragSize, room, if_pos larger]
    omega
  · have value : fragSize mtu total = total := by
      simp only [fragSize, room, if_neg larger, Int.lt_irrefl, if_false]
    omega

end Size

def fragSizes (mtu : Int) : Nat → Int → List Int
  | 0, _ => []
  | fuel + 1, total =>
      if total = 0 then []
      else fragSize mtu total :: fragSizes mtu fuel (total - fragSize mtu total)

def fragContent (sending : Sending) (id : Nat) (offset : Int) (more : Bool)
    (chunk : List UInt8) : List UInt8 :=
  wireHdr (chunk.length + 20) id ((offset / 8).toNat % 8192 + if more then 8192 else 0)
    sending.protocol sending.srcIp sending.dest ++ chunk

def fragContents (sending : Sending) (id : Nat) :
    Int → List Int → List UInt8 → List (List UInt8)
  | _, [], _ => []
  | offset, size :: rest, payload =>
      fragContent sending id offset (!rest.isEmpty) (payload.take size.toNat) ::
        fragContents sending id (offset + size) rest (payload.drop size.toNat)

section Alloc

variable {mem : PktMem} {size : Int}

theorem pktblockAllocList_first {free chain left : List Pktblk} (atLeast : 20 ≤ size)
    (room : size ≤ pktbufBlkSize * free.length)
    (chainEq : pktblockAllocList size false free = (chain, left)) :
    ∃ first rest, chain = first :: rest ∧ 20 ≤ first.size := by
  cases free with
  | nil => simp at room; omega
  | cons block free =>
      have nonzero : size ≠ 0 := by omega
      obtain ⟨currSize, currSizeEq⟩ :
          ∃ currSize, (if size > pktbufBlkSize then pktbufBlkSize else size) = currSize :=
        ⟨_, rfl⟩
      have bounds : 20 ≤ currSize ∧ 0 ≤ size - currSize ∧
          size - currSize ≤ pktbufBlkSize * free.length := by
        simp only [pktbufBlkSize, List.length_cons] at room currSizeEq ⊢
        push_cast at room
        split at currSizeEq <;> omega
      obtain ⟨added, left', loopEq, -⟩ := @allocLoop_fits (size - currSize) false
        [{ block with size := currSize, data := 0 }] free bounds.2.1 bounds.2.2
      simp only [pktblockAllocList, pktblockAllocLoop, if_neg nonzero, currSizeEq,
        Bool.false_eq_true, if_false, List.nil_append, loopEq, extendChain,
        Prod.mk.injEq] at chainEq
      exact ⟨_, added, chainEq.1.symm, bounds.1⟩

theorem pktbufAlloc_fresh (nonneg : 0 ≤ size) (nodup : (blkIds mem.blockList).Nodup) :
    (∃ after, mem.pktbufAlloc size = (none, after)) ∨
    ∃ buf after, mem.pktbufAlloc size = (some buf, after) ∧
      buf.WellFormed ∧ buf.totalSize = size ∧ Current buf ∧ buf.pos = 0 ∧
      (blkIds buf.blkList ++ blkIds after.blockList).Perm (blkIds mem.blockList) ∧
      (size ≠ 0 → size ≤ pktbufBlkSize * mem.blockList.length ∧
        ∃ left, pktblockAllocList size false mem.blockList = (buf.blkList, left)) := by
  by_cases noHeader : mem.headers = 0
  · exact .inl ⟨mem, by simp only [PktMem.pktbufAlloc, if_pos noHeader]⟩
  obtain ⟨empty, emptyEq⟩ : ∃ empty : Pktbuf, empty =
      { totalSize := 0, blkList := [], ref := 1, pos := 0, currBlk := none,
        blkOffset := 0 } := ⟨_, rfl⟩
  have emptyBlks : empty.blkList = [] := by rw [emptyEq]
  have emptyHolds : empty.WellFormed := by
    rw [emptyEq]
    exact ⟨rfl, windows_nil⟩
  by_cases zero : size = 0
  · refine .inr ⟨empty, { mem with headers := mem.headers - 1 }, ?_, emptyHolds, ?_, ?_, ?_, ?_,
      fun nonzero => absurd zero nonzero⟩
    · simp only [PktMem.pktbufAlloc, if_neg noHeader, if_pos zero, ← emptyEq]
    · rw [emptyEq, zero]
    · refine ⟨0, .atEnd ?_ ?_ ?_⟩
      · rw [emptyBlks]
        exact List.nodup_nil
      · rw [emptyEq]
      · rw [emptyBlks, emptyEq, blksSize_nil]
    · rw [emptyEq]
    · rw [emptyBlks]
      exact List.Perm.refl _
  rcases @pktblockAllocList_cases size false mem.blockList nonneg with
    ⟨chain, left, chainEq, room, allocated⟩ | ⟨left, chainEq, -⟩
  · obtain ⟨first, rest, rfl⟩ := List.exists_cons_of_ne_nil (allocated.nonempty zero)
    have inserted := Reshaped.insert emptyHolds true allocated
    have blks : (pktbufInsertBlkList empty (first :: rest) true).blkList = first :: rest := by
      simp [pktbufInsertBlkList, emptyBlks]
    have insertedNodup :
        (blkIds (pktbufInsertBlkList empty (first :: rest) true).blkList).Nodup := by
      rw [blks]
      exact (List.nodup_append.mp (allocated.ids.nodup_iff.mpr nodup)).1
    obtain ⟨current, pos, sameBlks, layout⟩ :=
      pktbufResetAcc_spec inserted.wellFormed insertedNodup
    refine .inr ⟨pktbufResetAcc (pktbufInsertBlkList empty (first :: rest) true),
      ⟨left, mem.headers - 1⟩, ?_, layout.wellFormed inserted.wellFormed, ?_, current, pos, ?_,
      fun _ => ⟨room, left, ?_⟩⟩
    · simp only [PktMem.pktbufAlloc, if_neg noHeader, if_neg zero, chainEq, ← emptyEq]
    · rw [layout.total]
      simp [pktbufInsertBlkList, allocated.total, emptyEq]
    · rw [sameBlks, blks]
      exact allocated.ids
    · rw [sameBlks, blks, chainEq]
  · refine .inl ⟨⟨left, mem.headers⟩, ?_⟩
    simp only [PktMem.pktbufAlloc, if_neg noHeader, if_neg zero, chainEq]

theorem pktbufAlloc_cases (atLeast : 20 ≤ size) (nodup : (blkIds mem.blockList).Nodup) :
    (∃ after, mem.pktbufAlloc size = (none, after)) ∨
    ∃ buf after, mem.pktbufAlloc size = (some buf, after) ∧
      buf.WellFormed ∧ buf.totalSize = size ∧ HdrReady buf ∧ Current buf ∧ buf.pos = 0 ∧
      (blkIds buf.blkList ++ blkIds after.blockList).Perm (blkIds mem.blockList) := by
  have nonneg : 0 ≤ size := by omega
  rcases pktbufAlloc_fresh nonneg nodup with
    none | ⟨buf, after, alloc, holds, total, current, pos, ids, chain⟩
  · exact .inl none
  · obtain ⟨room, left, chainEq⟩ := chain (by omega)
    have ready : HdrReady buf := pktblockAllocList_first atLeast room chainEq
    exact .inr ⟨buf, after, alloc, holds, total, ready, current, pos, ids⟩

end Alloc

section Pass

variable {sending : Sending} {id : Nat} {offset total : Int} {buf : Pktbuf} {mem : PktMem}

structure PassLeaves (buf : Pktbuf) (mem : PktMem) (size : Int) (packet left : Pktbuf)
    (after : PktMem) : Prop where
  wellFormed : left.WellFormed
  total : left.totalSize = buf.totalSize - size
  content : left.content = buf.content.drop size.toNat
  current : Current left
  pos : left.pos = 0
  ids : (blkIds packet.blkList ++ (blkIds left.blkList ++ blkIds after.blockList)).Perm
    (blkIds buf.blkList ++ blkIds mem.blockList)

theorem fillFrag_spec {fresh : Pktbuf} {hdr : List UInt8} {size : Int}
    (freshHolds : fresh.WellFormed) (freshReady : HdrReady fresh) (freshCurrent : Current fresh)
    (freshTotal : fresh.totalSize = size + 20) (hdrLength : hdr.length = 20)
    (holds : buf.WellFormed) (current : Current buf) (atZero : buf.pos = 0) (positive : 0 < size)
    (upper : size ≤ buf.totalSize) :
    ∃ started seekErr sought copied read, setPktHdr fresh hdr = some started ∧
      pktbufSeek started 20 = some (seekErr, sought) ∧
      pktbufCopy sought buf size = some (.ok, copied, read) ∧
      SameLayout fresh copied ∧ Current copied ∧
      copied.content = hdr ++ buf.content.take size.toNat ∧
      SameLayout buf read ∧ read.blkList = buf.blkList := by
  have bufLength := holds.length_content
  have freshContent := freshHolds.length_content
  obtain ⟨started, startedEq, startedLayout, startedContent, startedPos, startedCurr,
    startedOffset⟩ := @setPktHdr_spec fresh hdr freshHolds.windows freshReady hdrLength
  have startedHolds := startedLayout.wellFormed freshHolds
  have startedCurrent := freshCurrent.of_layout startedLayout startedPos startedCurr startedOffset
  obtain ⟨seekErr, sought, soughtEq, soughtCurrent, soughtLayout, soughtContent, soughtPos⟩ :=
    pktbufSeek_spec startedHolds startedCurrent 20
  have soughtAt : sought.pos = 20 :=
    (soughtPos (by omega) (by rw [startedLayout.total, freshTotal]; omega)).2
  have soughtHolds := soughtLayout.wellFormed startedHolds
  have soughtTotal : sought.totalSize = size + 20 := by
    rw [soughtLayout.total, startedLayout.total, freshTotal]
  obtain ⟨copied, read, copyEq, copiedCurrent, readCurrent, copiedLayout, readLayout, copiedPos,
    readPos, readBlks, copiedContent⟩ := @pktbufCopy_spec sought buf size soughtHolds holds
      soughtCurrent current (by omega) (by simp only [totalBlkRemain]; omega)
      (by simp only [totalBlkRemain]; omega)
  refine ⟨started, seekErr, sought, copied, read, startedEq, soughtEq, copyEq,
    (startedLayout.trans soughtLayout).trans copiedLayout, copiedCurrent, ?_, readLayout, readBlks⟩
  have chunkLength : (buf.content.take size.toNat).length = size.toNat := by
    rw [List.length_take]
    omega
  have twentyNat : (20 : Int).toNat = 20 := rfl
  rw [copiedContent, overwrite, soughtAt, atZero, soughtContent, startedContent, twentyNat]
  simp only [Int.toNat_zero, List.drop_zero, chunkLength]
  rw [List.take_left' hdrLength, List.drop_append, List.drop_of_length_le (by omega),
    List.drop_of_length_le]
  · simp
  · have twenty : ipv4HdrLen = 20 := rfl
    rw [List.length_drop]
    omega

theorem finishFrag_spec {copied : Pktbuf} {hdr chunk : List UInt8} (holds : copied.WellFormed)
    (ready : HdrReady copied) (current : Current copied) (content : copied.content = hdr ++ chunk)
    (hdrLength : hdr.length = 20) (fiveWords : ipv4HdrSize (iphdrHtons hdr) = ipv4HdrLen) :
    ∃ swapped rewindErr rewound packet, pktHdr copied = some hdr ∧
      setPktHdr copied (iphdrHtons hdr) = some swapped ∧
      pktbufSeek swapped 0 = some (rewindErr, rewound) ∧ finishHdr rewound = some packet ∧
      SameLayout copied packet ∧
      packet.content = setChecksum (iphdrHtons hdr) (hdrChecksum (iphdrHtons hdr)) ++ chunk := by
  have htonsLength : (iphdrHtons hdr).length = 20 := by
    rw [length_iphdrHtons]
    exact hdrLength
  have copiedHdr : pktHdr copied = some hdr := by
    rw [pktHdr_eq holds.windows ready, content, List.take_left' hdrLength]
  obtain ⟨swapped, swappedEq, swappedLayout, swappedContent, swappedPos, swappedCurr,
    swappedOffset⟩ := @setPktHdr_spec copied (iphdrHtons hdr) holds.windows ready htonsLength
  have swappedHolds := swappedLayout.wellFormed holds
  have swappedCurrent := current.of_layout swappedLayout swappedPos swappedCurr swappedOffset
  have swappedPositive : 0 < swapped.totalSize := by
    have length := holds.length_content
    rw [content, List.length_append] at length
    rw [swappedLayout.total]
    omega
  obtain ⟨rewindErr, rewound, rewoundEq, rewoundCurrent, rewoundLayout, rewoundContent,
    rewoundPos⟩ := pktbufSeek_spec swappedHolds swappedCurrent 0
  have rewoundContent' : rewound.content = iphdrHtons hdr ++ chunk := by
    rw [rewoundContent, swappedContent, content, List.drop_left' hdrLength]
  have rewoundHdr : rewound.content.take ipv4HdrLen = iphdrHtons hdr := by
    rw [rewoundContent', List.take_left' htonsLength]
  obtain ⟨packet, packetEq, packetLayout, packetContent⟩ :=
    finishHdr_spec (rewoundLayout.wellFormed swappedHolds) rewoundCurrent
      (rewoundLayout.hdrReady (swappedLayout.hdrReady ready))
      (rewoundPos (Int.le_refl 0) swappedPositive).2 (by rw [rewoundHdr]; exact fiveWords)
  refine ⟨swapped, rewindErr, rewound, packet, copiedHdr, swappedEq, rewoundEq, packetEq,
    (swappedLayout.trans rewoundLayout).trans packetLayout, ?_⟩
  rw [packetContent, rewoundHdr, rewoundContent', List.drop_left' htonsLength]

theorem fragOutPass_cases (holds : buf.WellFormed) (current : Current buf)
    (atZero : buf.pos = 0) (totalEq : buf.totalSize = total) (positive : 0 < total)
    (wide : 28 ≤ sending.netif.mtu) (int : sending.netif.mtu < 2 ^ 31)
    (nodup : (blkIds buf.blkList ++ blkIds mem.blockList).Nodup) :
    (∃ after, fragOutPass sending id offset total buf mem = some (.mem, buf, buf, after)) ∨
    ∃ packet left after,
      fragOutPass sending id offset total buf mem = some (.ok, packet, left, after) ∧
      packet.WellFormed ∧
      packet.totalSize = fragSize sending.netif.mtu total + 20 ∧
      packet.content = fragContent sending id offset
        (total > fragSize sending.netif.mtu total)
        (buf.content.take (fragSize sending.netif.mtu total).toNat) ∧
      PassLeaves buf mem (fragSize sending.netif.mtu total) packet left after := by
  obtain ⟨sizePositive, sizeUpper, -, -⟩ := fragSize_bounds wide int positive
  obtain ⟨size, sizeEq⟩ : ∃ size, fragSize sending.netif.mtu total = size := ⟨_, rfl⟩
  rw [sizeEq] at sizePositive sizeUpper ⊢
  have memNodup := (List.nodup_append.mp nodup).2.1
  have bufLength := holds.length_content
  have twentyCast : ((ipv4HdrLen : Nat) : Int) = 20 := rfl
  rcases @pktbufAlloc_cases mem (size + 20) (by omega) memNodup with ⟨after, allocEq⟩ |
    ⟨fresh, taken, allocEq, freshHolds, freshTotal, freshReady, freshCurrent, freshPos,
      freshIds⟩
  · refine .inl ⟨after, ?_⟩
    simp only [fragOutPass, sizeEq, twentyCast, allocEq]
  refine .inr ?_
  obtain ⟨fragAll, fragAllEq⟩ : ∃ fragAll, fragAll =
      (offset / 8).toNat % 8192 + if total > size then 8192 else 0 := ⟨_, rfl⟩
  obtain ⟨hdr, hdrEq⟩ : ∃ hdr, hdr = ipv4Hdr fresh.totalSize.toNat id fragAll
      sending.protocol sending.srcIp sending.dest := ⟨_, rfl⟩
  have hdrLength : hdr.length = 20 := by rw [hdrEq]; rfl
  obtain ⟨started, seekErr, sought, copied, read, startedEq, soughtEq, copyEq, copiedLayout,
    copiedCurrent, copiedContent, readLayout, readBlks⟩ :=
    fillFrag_spec freshHolds freshReady freshCurrent freshTotal hdrLength holds current atZero
      (by omega) (by omega)
  have readHolds := readLayout.wellFormed holds
  -- The payload copied is cut off from the packet.
  obtain ⟨cut, left, cutEq, cutReshaped, cutTotal, cutContent, -⟩ :=
    @pktbufRemoveHeader_spec read taken.blockList size readHolds (by omega)
      (by rw [readLayout.total]; omega)
  have cutNodup : (blkIds cut.blkList).Nodup := by
    have shared : (blkIds left ++ blkIds cut.blkList).Nodup := by
      refine cutReshaped.ids.nodup_iff.mpr ?_
      rw [readBlks]
      refine (List.perm_append_comm.nodup_iff).mp ?_
      have all : (blkIds buf.blkList ++ (blkIds fresh.blkList ++ blkIds taken.blockList)).Nodup :=
        (freshIds.append_left _).nodup_iff.mpr nodup
      exact (List.perm_append_comm_assoc _ _ _).nodup_iff.mp all |> List.Nodup.of_append_right
    exact (List.nodup_append.mp shared).2.1
  obtain ⟨resetCurrent, resetPos, resetBlks, resetLayout⟩ :=
    pktbufResetAcc_spec cutReshaped.wellFormed cutNodup
  obtain ⟨swapped, rewindErr, rewound, packet, copiedHdr, swappedEq, rewoundEq, packetEq,
    packetLayout, packetContent⟩ :=
    finishFrag_spec (copiedLayout.wellFormed freshHolds) (copiedLayout.hdrReady freshReady)
      copiedCurrent copiedContent hdrLength
      (by rw [hdrEq]; change (0x45 : UInt8).toNat % 16 * 4 = 20; decide)
  have layout : SameLayout fresh packet := copiedLayout.trans packetLayout
  have packetIds : blkIds packet.blkList = blkIds fresh.blkList :=
    blkIds_of_frames layout.frames
  refine ⟨packet, pktbufResetAcc cut, { taken with blockList := left }, ?_,
    layout.wellFormed freshHolds, ?_, ?_, ⟨?_, ?_, ?_, resetCurrent, resetPos, ?_⟩⟩
  · simp only [fragOutPass, sizeEq, twentyCast, allocEq, ← fragAllEq, ← hdrEq, startedEq,
      Option.bind_eq_bind, Option.bind_some, soughtEq, copyEq, NetErr.isError,
      Bool.false_eq_true, if_false, cutEq, copiedHdr, swappedEq, rewoundEq, packetEq]
  · rw [layout.total, freshTotal]
  · have chunkLength : (buf.content.take size.toNat).length = size.toNat := by
      rw [List.length_take]
      omega
    rw [packetContent, fragContent, wireHdr, chunkLength]
    have totalLen : fresh.totalSize.toNat = size.toNat + 20 := by omega
    rw [hdrEq, totalLen, fragAllEq]
    simp
  · exact resetLayout.wellFormed cutReshaped.wellFormed
  · rw [resetLayout.total, cutTotal, readLayout.total]
  · rw [Pktbuf.content, resetBlks, ← Pktbuf.content, cutContent, Pktbuf.content, readBlks,
      ← Pktbuf.content]
  · rw [packetIds, resetBlks]
    calc blkIds fresh.blkList ++ (blkIds cut.blkList ++ blkIds left)
      _ ~ blkIds fresh.blkList ++ (blkIds left ++ blkIds cut.blkList) :=
        List.perm_append_comm.append_left _
      _ ~ blkIds fresh.blkList ++ (blkIds taken.blockList ++ blkIds read.blkList) :=
        cutReshaped.ids.append_left _
      _ = (blkIds fresh.blkList ++ blkIds taken.blockList) ++ blkIds buf.blkList := by
        rw [readBlks, List.append_assoc]
      _ ~ blkIds mem.blockList ++ blkIds buf.blkList := freshIds.append_right _
      _ ~ blkIds buf.blkList ++ blkIds mem.blockList := List.perm_append_comm

end Pass

section Loop

variable {sending : Sending} {id fuel passes : Nat} {offset total : Int} {buf : Pktbuf}
variable {mem : PktMem} {netifOut : NetifOut} {next : IpAddr} {emitted : List Pktbuf}

theorem fragSizes_isEmpty (nonneg : 0 ≤ total) (enough : total ≤ fuel) :
    (fragSizes sending.netif.mtu fuel total).isEmpty = decide (total = 0) := by
  cases fuel with
  | zero =>
      have zero : total = 0 := by omega
      simp [fragSizes, zero]
  | succ fuel =>
      by_cases zero : total = 0
      · simp [fragSizes, zero]
      · simp [fragSizes, zero]

/-- The loop passes the fragments of the payload to `netif_out`, in order, unless the
pools are exhausted. -/
theorem fragOutLoop_cases (accepts : ∀ hop packet, netifOut hop packet = .ok)
    (wide : 28 ≤ sending.netif.mtu) (int : sending.netif.mtu < 2 ^ 31)
    (holds : buf.WellFormed) (current : Current buf) (atZero : buf.pos = 0)
    (totalEq : buf.totalSize = total)
    (nodup : (blkIds buf.blkList ++ blkIds mem.blockList).Nodup) (enough : total ≤ fuel) :
    (∃ left after packets,
      fragOutLoop netifOut sending next id passes offset total buf mem emitted =
        some (.mem, left, after, packets)) ∨
    ∃ left after packets,
      fragOutLoop netifOut sending next id passes offset total buf mem emitted =
        some (.ok, left, after, emitted ++ packets) ∧
      packets.map Pktbuf.content = fragContents sending id offset
        (fragSizes sending.netif.mtu fuel total) buf.content ∧
      ∀ packet ∈ packets, packet.WellFormed ∧ packet.totalSize ≤ sending.netif.mtu := by
  have nonneg : 0 ≤ total := by
    rw [← totalEq, holds.total]
    exact holds.windows.size_nonneg
  induction fuel generalizing passes offset total buf mem emitted with
  | zero =>
      have zero : total = 0 := by omega
      refine .inr ⟨buf, mem, [], ?_, rfl, by simp⟩
      cases passes <;> simp [fragOutLoop, zero]
  | succ fuel ih =>
      by_cases zero : total = 0
      · refine .inr ⟨buf, mem, [], ?_, ?_, by simp⟩
        · cases passes <;> simp [fragOutLoop, zero]
        · simp [fragSizes, zero, fragContents]
      obtain ⟨sizePositive, sizeUpper, sizeMtu, -⟩ :=
        @fragSize_bounds sending.netif.mtu total wide int (by omega)
      cases passes with
      | zero => exact .inl ⟨buf, mem, emitted, by simp only [fragOutLoop, if_neg zero]⟩
      | succ passes =>
          rcases @fragOutPass_cases sending id offset total buf mem holds current atZero
            totalEq (by omega) wide int nodup with ⟨after, passEq⟩ | ⟨packet, left, after,
              passEq, packetHolds, packetTotal, packetContent, leaves⟩
          · refine .inl ⟨buf, after, emitted, ?_⟩
            have error : NetErr.isError .mem = true := rfl
            simp only [fragOutLoop, if_neg zero, passEq, Option.bind_eq_bind,
              Option.bind_some, error, if_true]
          have leftNodup : (blkIds left.blkList ++ blkIds after.blockList).Nodup :=
            (List.nodup_append.mp (leaves.ids.nodup_iff.mpr nodup)).2.1
          have ok : NetErr.isError .ok = false := rfl
          have loopStep : fragOutLoop netifOut sending next id (passes + 1) offset total buf
              mem emitted = fragOutLoop netifOut sending next id passes
                (offset + fragSize sending.netif.mtu total)
                (total - fragSize sending.netif.mtu total) left after
                (emitted ++ [packet]) := by
            simp only [fragOutLoop, if_neg zero, passEq, Option.bind_eq_bind,
              Option.bind_some, ok, Bool.false_eq_true, if_false, accepts]
          rcases @ih passes (offset + fragSize sending.netif.mtu total)
            (total - fragSize sending.netif.mtu total) left after (emitted ++ [packet])
            leaves.wellFormed leaves.current leaves.pos (by rw [leaves.total, totalEq])
            leftNodup (by omega) (by omega) with
            ⟨last, lastMem, packets, loopEq⟩ | ⟨last, lastMem, packets, loopEq, contents, sound⟩
          · exact .inl ⟨last, lastMem, packets, loopStep.trans loopEq⟩
          refine .inr ⟨last, lastMem, packet :: packets, ?_, ?_, ?_⟩
          · rw [loopStep, loopEq, List.append_assoc, List.singleton_append]
          · have more : (!(fragSizes sending.netif.mtu fuel
                (total - fragSize sending.netif.mtu total)).isEmpty) =
                decide (total > fragSize sending.netif.mtu total) := by
              rw [fragSizes_isEmpty (by omega) (by omega), ← decide_not]
              exact decide_eq_decide.mpr (by omega)
            rw [List.map_cons, contents, packetContent, leaves.content, fragSizes,
              if_neg zero, fragContents, more]
          · intro member isMember
            rcases List.mem_cons.mp isMember with rfl | later
            · exact ⟨packetHolds, by omega⟩
            · exact sound member later

end Loop

section Out

variable {out : IpOut} {buf : Pktbuf} {netifOut : NetifOut} {table : List IpRouteEntry}
variable {protocol : UInt8} {dest : IpAddr} {src : Option IpAddr} {rt : IpRouteEntry}

theorem pktbufAddHeader_cont {free : List Pktblk} (holds : buf.WellFormed)
    (nonempty : buf.blkList ≠ []) :
    (∃ left, pktbufAddHeader buf 20 true free = some (.none, buf, left)) ∨
    ∃ after left header, pktbufAddHeader buf 20 true free = some (.ok, after, left) ∧
      Reshaped buf free after left ∧ after.totalSize = buf.totalSize + 20 ∧
      HdrReady after ∧ header.length = 20 ∧ after.content = header ++ buf.content := by
  cases room : headerBytes buf free 20 with
  | none => exact .inl ⟨[], pktbufAddHeader_full nonempty (by decide) (by decide) room⟩
  | some header =>
      obtain ⟨after, left, added, reshaped, total, ⟨data, long, starts, enough⟩, -, length,
        content⟩ := pktbufAddHeader_bytes holds (by decide) (by decide) room
      exact .inr ⟨after, left, header, added, reshaped, total, starts.leads enough, length, content⟩

def wirePackets (sending : Sending) (id : Nat) (payload : List UInt8) : List (List UInt8) :=
  if payload.length + 20 ≤ sending.netif.mtu then
    [fragContent sending id 0 false payload]
  else
    fragContents sending id 0 (fragSizes sending.netif.mtu payload.length payload.length)
      payload

theorem ipv4HdrSize_swapped {totalLen id fragAll : Nat} {source target : IpAddr} :
    ipv4HdrSize (iphdrHtons (ipv4Hdr totalLen id fragAll protocol source target)) = ipv4HdrLen := by
  change (0x45 : UInt8).toNat % 16 * 4 = 20
  decide

def PoolExhausted (err : NetErr) : Prop :=
  err = .mem ∨ err = .none

/-- A payload that fits is passed to `netif_out` as it is, behind the header that has been
made room for. -/
theorem ipv4Out_whole {grown : Pktbuf} {left : List Pktblk} {header : List UInt8}
    (route : routeFind dest table = some rt)
    (fits : rt.netif.mtu = 0 ∨ (buf.totalSize + 20) % 2 ^ 32 ≤ rt.netif.mtu % 2 ^ 32)
    (grownEq : pktbufAddHeader buf 20 true out.mem.blockList = some (.ok, grown, left))
    (grownHolds : grown.WellFormed) (distinct : (blkIds grown.blkList).Nodup)
    (ready : HdrReady grown) (headerLength : header.length = 20)
    (content : grown.content = header ++ buf.content) :
    ∃ packet, packet.WellFormed ∧ packet.totalSize = grown.totalSize ∧
      packet.content = wireHdr (buf.content.length + 20) out.packetId 0 protocol
        (Sending.srcIp ⟨protocol, dest, src, rt.netif⟩) dest ++ buf.content ∧
      ∀ netifOut : NetifOut,
        let err := netifOut (if rt.nextHop = 0 then dest else rt.nextHop) packet
        ipv4Out netifOut table protocol dest src out buf = some (err,
          ⟨⟨left, out.mem.headers⟩, (out.packetId + 1) % 65536⟩,
          if err.isError then [] else [packet]) := by
  have twentyCast : ((ipv4HdrLen : Nat) : Int) = 20 := rfl
  have whole : ¬ (rt.netif.mtu ≠ 0 ∧ (buf.totalSize + 20) % 2 ^ 32 > rt.netif.mtu % 2 ^ 32) := by
    omega
  have totalLen : grown.totalSize.toNat = buf.content.length + 20 := by
    have total := grownHolds.length_content
    rw [content, List.length_append] at total
    omega
  obtain ⟨hdr, hdrEq⟩ : ∃ hdr, hdr = ipv4Hdr grown.totalSize.toNat out.packetId 0 protocol
      (Sending.srcIp ⟨protocol, dest, src, rt.netif⟩) dest := ⟨_, rfl⟩
  have hdrLength : hdr.length = 20 := by rw [hdrEq]; rfl
  obtain ⟨written, writtenEq, writtenLayout, writtenContent, -⟩ :=
    @setPktHdr_spec grown (iphdrHtons hdr) grownHolds.windows ready
      (by rw [length_iphdrHtons]; exact hdrLength)
  have writtenHolds := writtenLayout.wellFormed grownHolds
  obtain ⟨resetCurrent, resetPos, resetBlks, resetLayout⟩ := pktbufResetAcc_spec writtenHolds
    (by rw [blkIds_of_frames writtenLayout.frames]; exact distinct)
  have resetContent : (pktbufResetAcc written).content = iphdrHtons hdr ++ buf.content := by
    rw [Pktbuf.content, resetBlks, ← Pktbuf.content, writtenContent, content,
      List.drop_left' headerLength]
  have resetHdr : (pktbufResetAcc written).content.take ipv4HdrLen = iphdrHtons hdr := by
    rw [resetContent, List.take_left' (by rw [length_iphdrHtons]; exact hdrLength)]
  obtain ⟨packet, packetEq, packetLayout, packetContent⟩ :=
    finishHdr_spec (resetLayout.wellFormed writtenHolds) resetCurrent
      (resetLayout.hdrReady (writtenLayout.hdrReady ready)) resetPos
      (by rw [resetHdr, hdrEq, ipv4HdrSize_swapped])
  refine ⟨packet, packetLayout.wellFormed (resetLayout.wellFormed writtenHolds), ?_, ?_, ?_⟩
  · rw [packetLayout.total, resetLayout.total, writtenLayout.total]
  · rw [packetContent, resetHdr, resetContent,
      List.drop_left' (by rw [length_iphdrHtons]; exact hdrLength), wireHdr, hdrEq, totalLen]
  · intro netifOut
    have ok : NetErr.isError .ok = false := rfl
    simp only [ipv4Out, route, twentyCast, if_neg whole, grownEq, Option.bind_eq_bind,
      Option.bind_some, ok, Bool.false_eq_true, if_false, ← hdrEq, writtenEq, packetEq]
    cases (netifOut (if rt.nextHop = 0 then dest else rt.nextHop) packet).isError <;> rfl

/-- `ipv4_out` passes the packets of a payload to `netif_out`, unless the pools are
exhausted. -/
theorem ipv4Out_cases (accepts : ∀ hop packet, netifOut hop packet = .ok)
    (route : routeFind dest table = some rt) (wide : 28 ≤ rt.netif.mtu)
    (int : rt.netif.mtu < 2 ^ 31) (holds : buf.WellFormed) (nonempty : buf.blkList ≠ [])
    (small : buf.totalSize < 2 ^ 16)
    (nodup : (blkIds buf.blkList ++ blkIds out.mem.blockList).Nodup) :
    (∃ err after packets, PoolExhausted err ∧
      ipv4Out netifOut table protocol dest src out buf = some (err, after, packets)) ∨
    ∃ after packets,
      ipv4Out netifOut table protocol dest src out buf = some (.ok, after, packets) ∧
      packets.map Pktbuf.content =
        wirePackets ⟨protocol, dest, src, rt.netif⟩ out.packetId buf.content ∧
      ∀ packet ∈ packets, packet.WellFormed ∧ packet.totalSize ≤ rt.netif.mtu := by
  have length := holds.length_content
  have bufNodup := (List.nodup_append.mp nodup).1
  have twentyCast : ((ipv4HdrLen : Nat) : Int) = 20 := rfl
  have mtuMod : rt.netif.mtu % 2 ^ 32 = rt.netif.mtu := by omega
  have sizeMod : (buf.totalSize + 20) % 2 ^ 32 = buf.totalSize + 20 := by omega
  by_cases fits : (buf.content.length : Int) + 20 ≤ rt.netif.mtu
  · have whole : ¬ (rt.netif.mtu ≠ 0 ∧ buf.totalSize + 20 > rt.netif.mtu) := by omega
    rcases @pktbufAddHeader_cont buf out.mem.blockList holds nonempty with ⟨left, failedEq⟩ |
      ⟨grown, left, header, grownEq, reshaped, grownTotal, ready, headerLength, grownContent⟩
    · refine .inl ⟨.none, ⟨⟨left, out.mem.headers⟩, out.packetId⟩, [], .inr rfl, ?_⟩
      have error : NetErr.isError .none = true := rfl
      simp only [ipv4Out, route, twentyCast, mtuMod, sizeMod, if_neg whole, failedEq,
        Option.bind_eq_bind, Option.bind_some, error, if_true]
    have grownNodup : (blkIds grown.blkList).Nodup := by
      have shared := reshaped.ids.nodup_iff.mpr (List.perm_append_comm.nodup_iff.mp nodup)
      exact (List.nodup_append.mp shared).2.1
    obtain ⟨packet, packetHolds, packetTotal, packetContent, outEq⟩ :=
      @ipv4Out_whole out buf table protocol dest src rt grown left header route (by omega) grownEq
        reshaped.wellFormed grownNodup ready headerLength grownContent
    refine .inr ⟨⟨⟨left, out.mem.headers⟩, (out.packetId + 1) % 65536⟩, [packet], ?_, ?_, ?_⟩
    · have ok : NetErr.isError .ok = false := rfl
      simp only [outEq, accepts, ok, Bool.false_eq_true, if_false]
    · simp only [List.map_cons, List.map_nil, wirePackets, if_pos fits]
      simp [packetContent, fragContent]
    · intro member isMember
      rw [List.mem_singleton.mp isMember]
      exact ⟨packetHolds, by omega⟩
  · have split : rt.netif.mtu ≠ 0 ∧ buf.totalSize + 20 > rt.netif.mtu := by omega
    obtain ⟨resetCurrent, resetPos, resetBlks, resetLayout⟩ := pktbufResetAcc_spec holds bufNodup
    have resetContent : (pktbufResetAcc buf).content = buf.content := by
      rw [Pktbuf.content, resetBlks, ← Pktbuf.content]
    have resetTotal : (pktbufResetAcc buf).totalSize = (buf.content.length : Int) := by
      rw [resetLayout.total]
      omega
    rcases @fragOutLoop_cases
      ⟨protocol, dest, src, rt.netif⟩ out.packetId buf.content.length out.mem.headers 0
      buf.content.length (pktbufResetAcc buf) out.mem netifOut
      (if rt.nextHop = 0 then dest else rt.nextHop) [] accepts wide int
      (resetLayout.wellFormed holds) resetCurrent resetPos resetTotal
      (by rw [resetBlks]; exact nodup) (Int.le_refl _) with
      ⟨left, after, packets, loopEq⟩ | ⟨left, after, packets, loopEq, contents, sound⟩
    · refine .inl ⟨.mem, ⟨after, out.packetId⟩, packets, .inl rfl, ?_⟩
      have error : NetErr.isError .mem = true := rfl
      simp only [ipv4Out, route, twentyCast, mtuMod, sizeMod, if_pos split, ipv4FragOut,
        resetTotal, loopEq, Option.bind_eq_bind, Option.bind_some, error, if_true]
    · refine .inr ⟨⟨after.pktbufFree left, (out.packetId + 1) % 65536⟩, packets, ?_, ?_, sound⟩
      · have ok : NetErr.isError .ok = false := rfl
        simp only [ipv4Out, route, twentyCast, mtuMod, sizeMod, if_pos split, ipv4FragOut,
          resetTotal, loopEq, Option.bind_eq_bind, Option.bind_some, ok, Bool.false_eq_true,
          if_false, List.nil_append]
      · rw [contents, resetContent, wirePackets, if_neg fits]

end Out

end CleanOS.Net
