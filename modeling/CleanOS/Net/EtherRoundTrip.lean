import CleanOS.Net.EtherFlush
import Mathlib.Data.List.GetD

/-!
# Sending and receiving a packet over Ethernet

A packet in any blocks is sent as one frame, padded with zeros, and a frame in any blocks is
received as the packet in it.
-/

namespace CleanOS.Net

open Tracked

namespace NetStack

/-- A frame for an address goes to the end of the queue that it belongs into; the device
takes the oldest one of its queue. -/
def QueuedIn (stack after : NetStack) (netif : Nat) (dest : HwAddr) (buf : Nat) : Prop :=
  if (stack.netif netif).mac = dest then
    (after.netif netif).inQ = (stack.netif netif).inQ ++ [buf]
  else ∃ oldest, (stack.netif netif).outQ ++ [buf] = oldest :: (after.netif netif).outQ

/-- A packet was taken from the input queue: it is linked nowhere, and the packets that are
linked in a queue are in use and linked once. -/
structure Receiving (stack : NetStack) (netif buf : Nat) (live : List Nat) : Prop where
  sound : Sound ⟨stack.pool, live⟩
  mine : buf ∈ live
  mac : (stack.netif netif).mac.length = 6
  unowned : stack.Unowned buf
  once : ∀ place, place ≠ .free → ∀ other ∈ stack.holds place,
    other ∈ live ∧ stack.OwnedOnce other

end NetStack

/-- Whatever blocks a packet is in, and whatever the free ones held, it is queued as the frame
of its bytes. -/
def SendsFrame (packet : List UInt8) : Prop :=
  ∀ (stack : NetStack) netif protocol dest buf,
    Stored packet stack.mem (stack.packet buf) → dest.length = 6 →
    (stack.netif netif).mac.length = 6 → 2 ≤ stack.blockList.length → stack.Room netif dest →
    ∃ after, stack.etherRawOut netif protocol dest buf = some (.ok, after) ∧
      stack.QueuedIn after netif dest buf ∧
      (after.packet buf).content = etherBytes dest (stack.netif netif).mac protocol packet

/-- Whatever blocks the frame of a packet for an interface is in, the bytes of the packet are
passed on, with three fields of its header in host order. -/
def ReceivesPacket (packet : List UInt8) : Prop :=
  ∀ (stack : NetStack) netif buf live dest src, stack.Receiving netif buf live →
    dest.length = 6 → src.length = 6 →
    (stack.packet buf).content = etherBytes dest src netProtocolIpv4 packet →
    ipaddrIsMatch (hdrDestIp packet) (stack.netif netif).desc.ipAddr
      (stack.netif netif).desc.netMask →
    ∃ after got mem, stack.etherIn netif buf = some (.ok, after) ∧
      ipv4Check (after.netif netif).desc after.mem (after.packet buf) =
        some (.passed (iphdrHtons (packet.take ipv4HdrLen)) got mem) ∧
      got.content = iphdrHtons packet

namespace NetStack

variable {stack after : NetStack} {netif protocol buf index : Nat} {live : List Nat}
  {dest src : HwAddr}

theorem etherRawOut_queues {content : Pktbuf} {blockList : List Pktblk}
    (frame : etherFrame (stack.packet buf) stack.blockList dest (stack.netif netif).mac protocol =
      some (.ok, content, blockList))
    (room : stack.Room netif dest) :
    ∃ after, stack.etherRawOut netif protocol dest buf = some (.ok, after) ∧
      stack.QueuedIn after netif dest buf ∧ after.packet buf = content := by
  obtain ⟨err, after, out⟩ := etherRawOut_returns frame
  have passable : stack.Passable netif protocol dest buf := by
    refine ⟨?_, room⟩
    rw [frame]
    rfl
  have noError := (etherRawOut_noError_iff out).mpr passable
  cases rawOut_of_etherRawOut out with
  | frameError built isError =>
      rw [isError] at noError
      cases noError
  | inFull => cases noError
  | outFull => cases noError
  | looped built _ own =>
      rw [frame] at built
      cases built
      refine ⟨_, out, ?_, setPacket_packet _ buf content⟩
      rw [QueuedIn, if_pos own, setNetif_netif, if_pos rfl]
  | @transmitted _ _ _ oldest rest built _ other _ isOldest =>
      rw [frame] at built
      cases built
      refine ⟨_, out, ?_, setPacket_packet _ buf content⟩
      rw [QueuedIn, if_neg other]
      have queue : (((({ stack with blockList }.setPacket buf content).setNetif netif
          { stack.netif netif with outQ := rest }).pktbufFree oldest).netif netif).outQ = rest := by
        change (Function.update stack.netif netif { stack.netif netif with outQ := rest }
          netif).outQ = rest
        rw [Function.update_self]
      exact ⟨oldest, queue.symm ▸ isOldest⟩

end NetStack

theorem sendsFrame {packet : List UInt8} (nonempty : packet ≠ []) : SendsFrame packet := by
  intro stack netif protocol dest buf stored destLength macLength blocks room
  obtain ⟨err, content, left, frame, -, framed, isOk⟩ :=
    @etherFrame_spec _ _ dest (stack.netif netif).mac protocol stored.wellFormed stored.distinct
      destLength macLength
  have noError := isOk (stored.content ▸ nonempty) blocks
  subst noError
  obtain ⟨after, out, queued, same⟩ := NetStack.etherRawOut_queues frame room
  refine ⟨after, out, queued, ?_⟩
  rw [same, framed rfl, stored.content]

section Bytes

variable {dest src : HwAddr} {protocol : Nat} {packet : List UInt8}

theorem etherBytes_take (destLength : dest.length = 6) (srcLength : src.length = 6) :
    (etherBytes dest src protocol packet).take etherHdrLen = dest ++ src ++ netBytes16 protocol :=
  List.take_left' (length_etherHdr destLength srcLength)

theorem etherBytes_drop (destLength : dest.length = 6) (srcLength : src.length = 6) :
    (etherBytes dest src protocol packet).drop etherHdrLen =
      packet ++ List.replicate (ethDataMin.toNat - packet.length) 0 :=
  List.drop_left' (length_etherHdr destLength srcLength)

theorem length_etherBytes (destLength : dest.length = 6) (srcLength : src.length = 6) :
    (etherBytes dest src protocol packet).length =
      etherHdrLen + (packet.length + (ethDataMin.toNat - packet.length)) := by
  rw [etherBytes, List.length_append, length_etherHdr destLength srcLength, List.length_append,
    List.length_replicate]

theorem netField16_etherHdr (destLength : dest.length = 6) (srcLength : src.length = 6) :
    netField16 (dest ++ src ++ netBytes16 netProtocolIpv4) 12 = netProtocolIpv4 := by
  have addresses : (dest ++ src).length = 12 := by
    rw [List.length_append, destLength, srcLength]
  have high : (dest ++ src ++ netBytes16 netProtocolIpv4).getD 12 0 = 8 := by
    rw [List.getD_append_right _ _ _ _ (Nat.le_of_eq addresses), addresses]
    rfl
  have low : (dest ++ src ++ netBytes16 netProtocolIpv4).getD 13 0 = 0 := by
    rw [List.getD_append_right _ _ _ _ (by omega), addresses]
    rfl
  rw [netField16, high, low]
  rfl

theorem iphdrHtons_append {rest : List UInt8} (long : 8 ≤ packet.length) :
    iphdrHtons (packet ++ rest) = iphdrHtons packet ++ rest := by
  obtain ⟨b0, b1, b2, b3, b4, b5, b6, b7, others, rfl⟩ := exists_fields long
  rfl

theorem wireTotalLen_append {rest : List UInt8} (long : 8 ≤ packet.length) :
    wireTotalLen (packet ++ rest) = wireTotalLen packet := by
  obtain ⟨b0, b1, b2, b3, b4, b5, b6, b7, others, rfl⟩ := exists_fields long
  rfl

theorem hdrDestIp_append {rest : List UInt8} (long : ipv4HdrLen ≤ packet.length) :
    hdrDestIp (packet ++ rest) = hdrDestIp packet := by
  have twenty : 20 ≤ packet.length := long
  rw [hdrDestIp, hdrDestIp, List.drop_append_of_le_length (by omega), ← ipAddrFromBuf_take,
    List.take_append_of_le_length (by rw [List.length_drop]; omega), ipAddrFromBuf_take]

theorem ipv4Check_padded {netif : Netif} {mem : PktMem} {buf : Pktbuf} {rest : List UInt8}
    (holds : buf.WellFormed) (contents : buf.content = packet ++ rest)
    (long : ipv4HdrLen ≤ packet.length) (isTotal : wireTotalLen packet = packet.length)
    (isMatch : ipaddrIsMatch (hdrDestIp packet) netif.ipAddr netif.netMask) :
    ∃ got left, ipv4Check netif mem buf =
        some (.passed (iphdrHtons (packet.take ipv4HdrLen)) got left) ∧
      got.content = iphdrHtons packet := by
  have eight : 8 ≤ packet.length := Nat.le_trans (by decide) long
  have longer : ipv4HdrLen ≤ buf.content.length := by
    rw [contents, List.length_append]
    exact Nat.le_trans long (Nat.le_add_right _ _)
  obtain ⟨swapped, free, reshaped, swappedContent, -, -, -, check⟩ :=
    @ipv4Check_eq netif mem buf holds longer
  have swappedHolds := reshaped.wellFormed
  have total := swappedHolds.length_content
  rw [swappedContent, contents, length_iphdrHtons, List.length_append] at total
  obtain ⟨cut, left, resize, -, -, cutContent⟩ :=
    @pktbufResize_cut swapped free packet.length swappedHolds (Int.natCast_nonneg _) (by omega)
  have accepted : ¬ NetErr.ok.isError = true := Bool.false_ne_true
  refine ⟨cut, { mem with blockList := left }, ?_, ?_⟩
  · rw [check, contents, wireTotalLen_append eight, isTotal, resize, Option.bind_some]
    dsimp only
    rw [if_neg accepted, hdrDestIp_append long, if_neg (not_not.mpr isMatch),
      List.take_append_of_le_length long]
  · rw [cutContent, swappedContent, contents, iphdrHtons_append eight, Int.toNat_natCast]
    exact List.take_left' length_iphdrHtons

end Bytes

theorem pktData_eq {buf : Pktbuf} {count : Nat} (windows : Windows buf.blkList)
    (leads : buf.Leads count) : pktData buf count = some (buf.content.take count) := by
  obtain ⟨data, size, starts, enough⟩ := leads.starts
  have read := @dataAt_eq buf data size 0 count windows starts (Int.le_refl 0)
    (Int.natCast_nonneg _) (by omega)
  have same : dataAt buf 0 count = pktData buf count := by
    simp only [dataAt, pktData, Int.add_zero]
  rw [← same, read]
  rfl

namespace NetStack

variable {stack after : NetStack} {netif buf index : Nat} {live : List Nat}

theorem OwnedOnce.refs_add_le {first second : Place} (once : stack.OwnedOnce buf)
    (different : first ≠ second) : stack.refs buf first + stack.refs buf second ≤ 1 := by
  obtain ⟨place, counts⟩ := once
  rw [counts first, counts second]
  by_cases isFirst : first = place
  · rw [if_pos isFirst, if_neg fun isSecond => different (isFirst.trans isSecond.symm)]
  · rw [if_neg isFirst, Nat.zero_add]
    split <;> omega

theorem Receiving.flushable (receiving : Receiving stack netif buf live) (index : Nat) :
    Flushable stack netif buf live (stack.cache.entry index).bufList := by
  have linkedOnce : ∀ other ∈ (stack.netif netif).outQ ++ (stack.cache.entry index).bufList,
      other ∈ live ∧ stack.OwnedOnce other := by
    intro other linked
    rcases List.mem_append.mp linked with inQueue | isWaiting
    · exact receiving.once (.output netif) Place.noConfusion other inQueue
    · exact receiving.once (.arp index) Place.noConfusion other isWaiting
  constructor
  · exact receiving.sound
  · exact receiving.mac
  · rw [List.nodup_iff_count_le_one]
    intro other
    by_cases linked : other ∈ (stack.netif netif).outQ ++ (stack.cache.entry index).bufList
    · rw [List.count_append]
      have different : Place.output netif ≠ .arp index := Place.noConfusion
      exact (linkedOnce other linked).2.refs_add_le different
    · rw [List.count_eq_zero.mpr linked]
      exact Nat.zero_le 1
  · exact fun other linked => (linkedOnce other linked).1
  · intro linked
    rcases List.mem_append.mp linked with inQueue | isWaiting
    · exact List.count_eq_zero.mp (receiving.unowned (.output netif)) inQueue
    · exact List.count_eq_zero.mp (receiving.unowned (.arp index)) isWaiting

theorem Receiving.rearrange {content : Pktbuf} {blockList : List Pktblk}
    (receiving : Receiving stack netif buf live)
    (reshaped : Reshaped (stack.packet buf) stack.blockList content blockList) :
    Receiving ({ stack with blockList }.setPacket buf content) netif buf live := by
  have same := sameRefs_content stack blockList buf content
  constructor
  · exact sound_setPacket receiving.sound receiving.mine reshaped
  · exact receiving.mine
  · exact receiving.mac
  · exact (same buf).unowned receiving.unowned
  · intro place inQueue other linked
    have linkedBefore : other ∈ stack.holds place := by
      cases place <;> exact linked
    obtain ⟨inUse, owner, counts⟩ := receiving.once place inQueue other linkedBefore
    exact ⟨inUse, owner, fun elsewhere => (same other elsewhere).trans (counts elsewhere)⟩

theorem Receiving.setCont {size : Nat} (receiving : Receiving stack netif buf live)
    (long : size ≤ (stack.packet buf).content.length) (nonzero : size ≠ 0)
    (small : (size : Int) ≤ pktbufBlkSize) :
    ∃ content blockList,
      pktbufSetCont (stack.packet buf) size stack.blockList = some (.ok, content, blockList) ∧
      Receiving ({ stack with blockList }.setPacket buf content) netif buf live ∧
      content.content = (stack.packet buf).content ∧
      content.totalSize = (stack.packet buf).content.length ∧
      pktData content size = some ((stack.packet buf).content.take size) := by
  have holds : (stack.packet buf).WellFormed := receiving.sound.wellFormed buf receiving.mine
  have total := holds.length_content
  have nonempty : (stack.packet buf).blkList ≠ [] := by
    intro none
    rw [Pktbuf.content, none] at long
    exact nonzero (Nat.le_zero.mp long)
  obtain ⟨err, content, blockList, setCont, reshaped, sameTotal, same, leads⟩ :=
    @pktbufSetCont_spec (stack.packet buf) stack.blockList size holds nonempty
  obtain ⟨isOk, first⟩ := leads (by omega) small
  subst isOk
  refine ⟨content, blockList, setCont, receiving.rearrange reshaped, same, ?_, ?_⟩
  · rw [sameTotal]
    exact total.symm
  · rw [pktData_eq reshaped.wellFormed.windows first, same]

theorem etherCheckIn_ipv4 (receiving : Receiving stack netif buf live)
    (atLeast : etherHdrLen ≤ (stack.packet buf).content.length)
    (atMost : (stack.packet buf).content.length ≤ etherHdrLen + ethMtu)
    (protocol : netField16 ((stack.packet buf).content.take etherHdrLen) 12 = netProtocolIpv4) :
    ∃ after, stack.etherCheckIn buf = some (.ok, after, netProtocolIpv4) ∧
      Receiving after netif buf live ∧
      (after.packet buf).content = (stack.packet buf).content ∧ after.netif = stack.netif := by
  obtain ⟨content, blockList, setCont, next, same, total, data⟩ :=
    receiving.setCont atLeast (by decide) (by decide)
  have checked : pktBufCheck content.totalSize = .ok := by
    rw [total, pktBufCheck, if_neg (by omega), if_neg (by omega)]
  have accepted : ¬ NetErr.ok.isError = true := Bool.false_ne_true
  have notArp : netProtocolIpv4 ≠ netProtocolArp := by decide
  refine ⟨{ stack with blockList }.setPacket buf content, ?_, next, ?_, rfl⟩
  · simp only [etherCheckIn, setCont, Option.bind_eq_bind, Option.bind_some, checked,
      if_neg accepted, data, protocol, if_neg notArp]
  · rw [setPacket_packet]
    exact same

theorem arpUpdateFromIpbuf_undisturbed (receiving : Receiving stack netif buf live)
    (long : ipv4HdrLen + etherHdrLen ≤ (stack.packet buf).content.length) :
    ∃ after, stack.arpUpdateFromIpbuf netif buf = some after ∧
      (after.packet buf).WellFormed ∧
      (after.packet buf).content = (stack.packet buf).content ∧
      (after.netif netif).desc = (stack.netif netif).desc := by
  obtain ⟨content, blockList, setCont, next, same, total, data⟩ :=
    receiving.setCont long (by decide) (by decide)
  rw [Nat.cast_add] at setCont
  obtain ⟨checked, isChecked⟩ : ∃ checked, checked =
    { stack with blockList }.setPacket buf content := ⟨_, rfl⟩
  have packet : checked.packet buf = content := isChecked ▸ setPacket_packet _ buf content
  rw [← isChecked] at next
  have holds : (checked.packet buf).WellFormed := next.sound.wellFormed buf next.mine
  have accepted : ¬ NetErr.ok.isError = true := Bool.false_ne_true
  obtain ⟨learns, check⟩ : ∃ learns, stack.ipbufCheckIn netif buf = some (learns, checked,
      (stack.packet buf).content.take (ipv4HdrLen + etherHdrLen)) := by
    unfold ipbufCheckIn
    simp only [setCont, Option.bind_eq_bind, Option.bind_some, if_neg accepted, data]
    rw [← isChecked]
    split
    next => exact ⟨_, rfl⟩
    next =>
      split
      next => exact ⟨_, rfl⟩
      next => exact ⟨_, rfl⟩
  have desc : (checked.netif netif).desc = (stack.netif netif).desc := by
    rw [isChecked]
    rfl
  cases learns with
  | false =>
      refine ⟨checked, ?_, holds, packet ▸ same, desc⟩
      simp only [arpUpdateFromIpbuf, check, Option.bind_eq_bind, Option.bind_some,
        Bool.false_eq_true, if_false]
  | true =>
      obtain ⟨frame, isFrame⟩ : ∃ frame, frame =
        (stack.packet buf).content.take (ipv4HdrLen + etherHdrLen) := ⟨_, rfl⟩
      have length : ((frame.drop 6).take 6).length = 6 := by
        have enough : 34 ≤ (stack.packet buf).content.length := long
        rw [isFrame, List.length_take, List.length_drop, List.length_take]
        change min 6 (min 34 (stack.packet buf).content.length - 6) = 6
        omega
      obtain ⟨err, after, insert, kept⟩ :=
        @cacheInsert_returns checked netif buf live (hdrSrcIp (frame.drop etherHdrLen))
          ((frame.drop 6).take 6) length next.flushable
      rw [← isFrame] at check
      refine ⟨after, ?_, kept.packet ▸ holds, ?_, kept.desc.trans desc⟩
      · simp only [arpUpdateFromIpbuf, check, Option.bind_eq_bind, Option.bind_some, if_true,
          insert]
      · rw [kept.packet, packet]
        exact same

theorem etherIn_ipv4 (receiving : Receiving stack netif buf live)
    (atLeast : ipv4HdrLen + etherHdrLen ≤ (stack.packet buf).content.length)
    (atMost : (stack.packet buf).content.length ≤ etherHdrLen + ethMtu)
    (protocol : netField16 ((stack.packet buf).content.take etherHdrLen) 12 = netProtocolIpv4) :
    ∃ after, stack.etherIn netif buf = some (.ok, after) ∧ (after.packet buf).WellFormed ∧
      (after.packet buf).content = (stack.packet buf).content.drop etherHdrLen ∧
      (after.netif netif).desc = (stack.netif netif).desc := by
  obtain ⟨checked, check, next, same, interfaces⟩ :=
    etherCheckIn_ipv4 receiving (Nat.le_trans (by decide) atLeast) atMost protocol
  obtain ⟨updated, update, holds, sameUpdated, desc⟩ :=
    arpUpdateFromIpbuf_undisturbed next (same.symm ▸ atLeast)
  have length := holds.length_content
  rw [sameUpdated, same] at length
  have within : (etherHdrLen : Int) ≤ (updated.packet buf).totalSize := by
    have enough : etherHdrLen ≤ (stack.packet buf).content.length :=
      Nat.le_trans (by decide) atLeast
    omega
  obtain ⟨stripped, blockList, remove, reshaped, -, content, -⟩ :=
    @pktbufRemoveHeader_spec (updated.packet buf) updated.blockList etherHdrLen holds
      (Int.natCast_nonneg _) within
  have accepted : ¬ NetErr.ok.isError = true := Bool.false_ne_true
  have notArp : netProtocolIpv4 ≠ netProtocolArp := by decide
  refine ⟨{ updated with blockList }.setPacket buf stripped, ?_, ?_, ?_, ?_⟩
  · simp only [etherIn, check, Option.bind_eq_bind, Option.bind_some, if_neg accepted,
      if_neg notArp, if_true, update, remove]
  · rw [setPacket_packet]
    exact reshaped.wellFormed
  · rw [setPacket_packet, content, sameUpdated, same]
    rfl
  · exact desc.trans (congrArg (fun interfaces => (interfaces netif).desc) interfaces)

end NetStack

theorem receivesPacket {packet : List UInt8} (atLeast : ipv4HdrLen ≤ packet.length)
    (atMost : packet.length ≤ ethMtu) (isTotal : wireTotalLen packet = packet.length) :
    ReceivesPacket packet := by
  intro stack netif buf live dest src receiving destLength srcLength contents isMatch
  have length := @length_etherBytes dest src netProtocolIpv4 packet destLength srcLength
  have sizes : etherHdrLen = 14 ∧ ipv4HdrLen = 20 ∧ ethMtu = 1500 ∧ ethDataMin.toNat = 46 :=
    ⟨rfl, rfl, rfl, rfl⟩
  obtain ⟨after, input, holds, content, desc⟩ := NetStack.etherIn_ipv4 receiving
    (by rw [contents]; omega) (by rw [contents]; omega)
    (by rw [contents, etherBytes_take destLength srcLength]
        exact netField16_etherHdr destLength srcLength)
  rw [contents, etherBytes_drop destLength srcLength] at content
  rw [← desc] at isMatch
  obtain ⟨got, left, check, gotContent⟩ :=
    @ipv4Check_padded packet (after.netif netif).desc after.mem (after.packet buf) _ holds content
      atLeast isTotal isMatch
  exact ⟨after, got, left, input, check, gotContent⟩

/-- An IPv4 packet that names its own length and fits into a frame is sent as that frame, and
received from it as it was. -/
theorem etherRoundTrip {packet : List UInt8} (atLeast : ipv4HdrLen ≤ packet.length)
    (atMost : packet.length ≤ ethMtu) (isTotal : wireTotalLen packet = packet.length) :
    SendsFrame packet ∧ ReceivesPacket packet := by
  have nonempty : packet ≠ [] := List.ne_nil_of_length_pos (Nat.lt_of_lt_of_le (by decide) atLeast)
  exact ⟨sendsFrame nonempty, receivesPacket atLeast atMost isTotal⟩

def headerOnly : List UInt8 :=
  [0x45, 0, 0, 20, 0, 1, 0, 0, 64, 17, 0, 0, 10, 0, 0, 1, 10, 0, 0, 2]

def sampleFramed : NetStack :=
  let stack := (NetStack.sampleStack.pktbufAlloc 60).2
  match setPktHdr (stack.packet 0) (etherBytes [2, 0, 0, 0, 0, 2] [2, 0, 0, 0, 0, 1]
      netProtocolIpv4 headerOnly) with
  | some content => stack.setPacket 0 content
  | none => stack

theorem sampleFramed_receiving : sampleFramed.Receiving 0 0 [0] := by
  constructor
  · constructor
    · exact List.perm_append_singleton 0 _
    · exact List.perm_append_singleton 0 _
    · intro id member
      obtain rfl := List.mem_singleton.mp member
      refine ⟨rfl, fun blk inPacket => ?_⟩
      obtain rfl := List.mem_singleton.mp inPacket
      exact ⟨by decide, by decide, by decide⟩
    · intro id member
      obtain rfl := List.mem_singleton.mp member
      rfl
  · exact List.mem_singleton_self 0
  · rfl
  · intro place
    cases place <;> rfl
  · intro place inQueue other linked
    cases place with
    | free => exact absurd rfl inQueue
    | arp => cases linked
    | input => cases linked
    | output => cases linked

theorem etherRoundTrip_header :
    SendsFrame headerOnly ∧ ∃ after got mem, sampleFramed.etherIn 0 0 = some (.ok, after) ∧
      ipv4Check (after.netif 0).desc after.mem (after.packet 0) =
        some (.passed (iphdrHtons headerOnly) got mem) ∧
      got.content = iphdrHtons headerOnly := by
  obtain ⟨sends, receives⟩ :=
    @etherRoundTrip headerOnly (by decide) (by decide) (by decide)
  exact ⟨sends, receives sampleFramed 0 0 [0] [2, 0, 0, 0, 0, 2] [2, 0, 0, 0, 0, 1]
    sampleFramed_receiving rfl rfl rfl rfl⟩

end CleanOS.Net
