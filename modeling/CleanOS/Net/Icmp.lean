import CleanOS.Net.Fragmentation
import CleanOS.Net.IpInput
import CleanOS.Net.Receive

/-!
# ICMP echo replies

`icmp_in`, which makes the reply of the request: the IP header is taken off, the ICMP header
is patched in place and `ipv4_out` puts a new IP header in front of it.  Packets that are no
echo requests go to the raw sockets.
-/

namespace CleanOS.Net

/-- `NET_PROTOCOL_ICMPv4`. -/
def protocolIcmp : UInt8 := 1

/-- `sizeof(icmp_hdr_t)`. -/
abbrev icmpHdrLen : Nat := 4

/-- `ICMP_ECHO_REPLY`. -/
def icmpEchoReplyType : UInt8 := 0

/-- `ICMP_ECHO_REQUEST`. -/
def icmpEchoRequest : UInt8 := 8

/-- `raw_find`. -/
def rawFind (socks : SockPool) (src dest : IpAddr) (protocol : Int) : Option Nat :=
  socks.opened.find? fun block =>
    let sock := socks.sock block
    ! (sock.protocol ≠ protocol ∨ (sock.localIp ≠ 0 ∧ sock.localIp ≠ dest) ∨
      (sock.remoteIp ≠ 0 ∧ sock.remoteIp ≠ src))

/-- `raw_in`, with the socket that the packet is queued at. -/
def rawIn (layer : SockLayer) (buf : Pktbuf) : Option (NetErr × Option Nat × SockLayer) := do
  let hdr ← pktHdr buf
  match rawFind layer.socks (hdrSrcIp hdr) (hdrDestIp hdr) (hdr.getD 9 0).toNat with
  | none => some (.unreach, none, layer)
  | some raw =>
      let (placed, layer) := layer.append raw buf
      some (.ok, placed, layer)

/-- `icmp_pkt_check`. -/
def icmpPktCheck (size : Int) (buf : Pktbuf) : Option (NetErr × Pktbuf) :=
  -- The size is compared as an unsigned number.
  if size % 2 ^ 32 ≤ (icmpHdrLen : Int) then some (.size, buf)
  else do
    let (checksum, buf) ← pktbufChecksum16 buf size 0 true
    if checksum ≠ 0 then some (.checksum, buf) else some (.ok, buf)

/-- `icmp_out`: the packets passed to `netif_out`.  It ends without a return value. -/
def icmpOut (netifOut : NetifOut) (table : List IpRouteEntry) (src dest : IpAddr) (out : IpOut)
    (buf : Pktbuf) : Option (IpOut × List Pktbuf) := do
  let (_, buf) ← pktbufSeek buf 0
  let (checksum, buf) ← pktbufChecksum16 buf buf.totalSize 0 true
  let buf ← setDataAt buf 2 (bytes16 checksum)
  let (_, out, packets) ← ipv4Out netifOut table protocolIcmp dest (some src) out buf
  some (out, packets)

/-- `icmp_echo_reply`. -/
def icmpEchoReply (netifOut : NetifOut) (table : List IpRouteEntry) (src dest : IpAddr)
    (out : IpOut) (buf : Pktbuf) : Option (IpOut × List Pktbuf) := do
  let buf ← setDataAt buf 0 [icmpEchoReplyType]
  let buf ← setDataAt buf 2 [0, 0]
  icmpOut netifOut table dest src out buf

/-- What `icmp_in` does with a packet: it returns an error, passes packets to `netif_out`, or
returns what `raw_in` returns. -/
inductive IcmpAnswer where
  | refused (err : NetErr)
  | replied (packets : List Pktbuf)
  | raw (err : NetErr) (placed : Option Nat)

/-- The packets passed to `netif_out`. -/
def IcmpAnswer.packets : IcmpAnswer → List Pktbuf
  | .replied packets => packets
  | _ => []

/-- The end of `icmp_in`, behind its check: the packet is answered, or goes to the raw
sockets. -/
def icmpAccepted (netifOut : NetifOut) (table : List IpRouteEntry) (layer : SockLayer)
    (packetId : Nat) (src dest : IpAddr) (hdrSize : Nat) (buf : Pktbuf) :
    Option (IcmpAnswer × SockLayer × Nat) := do
  let type ← dataAt buf hdrSize 1
  if type = [icmpEchoRequest] then
    let (_, buf, free) ← pktbufRemoveHeader buf hdrSize layer.mem.blockList
    let out : IpOut := ⟨{ layer.mem with blockList := free }, packetId⟩
    let (out, packets) ← icmpEchoReply netifOut table src dest out buf
    some (.replied packets, { layer with mem := out.mem }, out.packetId)
  else
    let (err, placed, layer) ← rawIn layer buf
    some (.raw err placed, layer, packetId)

/-- `icmp_in`, over the raw sockets and `packet_id`. -/
def icmpIn (netifOut : NetifOut) (table : List IpRouteEntry) (layer : SockLayer) (packetId : Nat)
    (src dest : IpAddr) (buf : Pktbuf) : Option (IcmpAnswer × SockLayer × Nat) := do
  let hdrSize := ipv4HdrSize (← dataAt buf 0 1)
  let (err, buf, free) ← pktbufSetCont buf ((icmpHdrLen + hdrSize : Nat) : Int)
    layer.mem.blockList
  let layer := { layer with mem := { layer.mem with blockList := free } }
  if err.isError then some (.refused err, layer, packetId)
  else
    let (_, buf) ← pktbufSeek (pktbufResetAcc buf) hdrSize
    let (err, buf) ← icmpPktCheck (buf.totalSize - hdrSize) buf
    if err.isError then some (.refused err, layer, packetId)
    else icmpAccepted netifOut table layer packetId src dest hdrSize buf

def icmpBytes (packet : List UInt8) : List UInt8 :=
  packet.drop (ipv4HdrSize packet)

/-- A packet with an echo request that has more than its header, and verifies. -/
structure EchoRequest (packet : List UInt8) : Prop where
  long : icmpHdrLen < (icmpBytes packet).length
  verifies : rfc1071 0 (icmpBytes packet) true = 0
  type : (icmpBytes packet).getD 0 0 = icmpEchoRequest

/-- An IPv4 packet with the reply to a request: its ICMP header has the type of a reply and
the same code, all bytes behind it are those of the request, and both checksums verify. -/
structure EchoReply (request reply : List UInt8) (src dest : IpAddr) : Prop where
  valid : ValidIpv4 reply
  whole : wireTotalLen reply = reply.length
  unfragmented : field16 reply 6 = 0
  protocol : reply.getD 9 0 = protocolIcmp
  srcIp : hdrSrcIp reply = src
  destIp : hdrDestIp reply = dest
  verifies : rfc1071 0 (icmpBytes reply) true = 0
  type : (icmpBytes reply).getD 0 0 = icmpEchoReplyType
  code : (icmpBytes reply).getD 1 0 = (icmpBytes request).getD 1 0
  rest : (icmpBytes reply).drop icmpHdrLen = (icmpBytes request).drop icmpHdrLen

def FitsMtu (netif : Netif) (bytes : List UInt8) : Prop :=
  netif.mtu = 0 ∨ ((bytes.length + ipv4HdrLen : Nat) : Int) % 2 ^ 32 ≤ netif.mtu % 2 ^ 32

def replyBytes (bytes : List UInt8) : List UInt8 :=
  let patched := overwrite (overwrite bytes 0 [icmpEchoReplyType]) 2 [0, 0]
  overwrite patched 2 (bytes16 (rfc1071 0 patched true))

section Bytes

variable {request bytes : List UInt8}

theorem replyBytes_cons (long : icmpHdrLen ≤ bytes.length) :
    ∃ high low, replyBytes bytes =
      icmpEchoReplyType :: bytes.getD 1 0 :: high :: low :: bytes.drop icmpHdrLen := by
  match bytes, long with
  | _ :: _ :: _ :: _ :: _, _ => exact ⟨_, _, rfl⟩

theorem length_replyBytes (long : icmpHdrLen ≤ bytes.length) :
    (replyBytes bytes).length = bytes.length := by
  obtain ⟨high, low, eq⟩ := replyBytes_cons long
  have four : icmpHdrLen = 4 := rfl
  rw [eq]
  simp only [List.length_cons, List.length_drop]
  omega

theorem replyBytes_verifies (long : icmpHdrLen ≤ bytes.length) :
    rfc1071 0 (replyBytes bytes) true = 0 := by
  match bytes, long with
  | _ :: _ :: _ :: _ :: rest, _ =>
      apply rfc1071_overwrite rfl
      · change 4 ≤ rest.length + 4
        omega
      · rfl

theorem wireHdr_echoReply {id : Nat} {src dest : IpAddr}
    (long : icmpHdrLen ≤ (icmpBytes request).length)
    (short : (icmpBytes request).length + 20 < 65536) :
    EchoReply request (wireHdr ((icmpBytes request).length + 20) id 0 protocolIcmp src dest ++
      replyBytes (icmpBytes request)) src dest := by
  obtain ⟨reply, replyEq⟩ : ∃ reply, wireHdr ((icmpBytes request).length + 20) id 0 protocolIcmp
      src dest ++ replyBytes (icmpBytes request) = reply := ⟨_, rfl⟩
  have hdrSize : ipv4HdrSize reply = ipv4HdrLen := by
    rw [← replyEq]
    change (0x45 : UInt8).toNat % 16 * 4 = 20
    decide
  have length : reply.length = (icmpBytes request).length + 20 := by
    rw [← replyEq, List.length_append, length_wireHdr, length_replyBytes long, Nat.add_comm]
  have totalLen : wireTotalLen reply = reply.length := by
    rw [length, ← replyEq]
    exact bytes16_value short
  have behind : icmpBytes reply = replyBytes (icmpBytes request) := by
    rw [icmpBytes, hdrSize, ← replyEq]
    exact List.drop_left' length_wireHdr
  obtain ⟨high, low, bytesEq⟩ := replyBytes_cons long
  rw [replyEq]
  constructor
  · constructor
    · rw [← replyEq]
      change (0x45 : UInt8).toNat / 16 = 4
      decide
    · exact Nat.le_of_eq hdrSize.symm
    · rw [hdrSize, totalLen, length]
      exact Nat.le_add_left _ _
    · exact Nat.le_of_eq totalLen
    · rw [hdrSize, ← replyEq, List.take_left' length_wireHdr]
      exact wireHdr_verifies
  · exact totalLen
  · rw [← replyEq]
    rfl
  · rw [← replyEq]
    rfl
  · rw [← replyEq]
    exact ipAddrFromBuf_toBuf src _
  · rw [← replyEq]
    exact ipAddrFromBuf_toBuf dest _
  · rw [behind]
    exact replyBytes_verifies long
  · rw [behind, bytesEq]
    rfl
  · rw [behind, bytesEq]
    rfl
  · rw [behind, bytesEq]
    rfl

end Bytes

section Out

variable {buf : Pktbuf} {data size : Int} {table : List IpRouteEntry} {rt : IpRouteEntry}
variable {src dest : IpAddr} {out : IpOut}

theorem pktbufSeek_start (starts : buf.Starts data size) (someBytes : 0 < buf.totalSize)
    (behind : 0 < buf.pos) : pktbufSeek buf 0 = some (.ok, pktbufResetAcc buf) := by
  obtain ⟨first, rest, blks, -, -⟩ := starts
  have outside : ¬ ((0 : Int) < 0 ∨ (0 : Int) ≥ buf.totalSize) := by omega
  have resetEq : pktbufResetAcc buf =
      { buf with currBlk := some first.id, blkOffset := first.data, pos := 0 } := by
    simp [pktbufResetAcc, blks]
  simp only [pktbufSeek, if_neg (Int.ne_of_gt behind), if_neg outside, if_pos behind, blks,
    List.head?_cons, cursorLoop_nothing (Int.le_refl 0), Option.bind_eq_bind, Option.bind_some]
  rw [resetEq, blks]

theorem icmpOut_spec (holds : buf.WellFormed) (distinct : (blkIds buf.blkList).Nodup)
    (filled : buf.Filled) (short : buf.content.length ≤ 65535) (starts : buf.Starts data size)
    (long : (icmpHdrLen : Int) ≤ size) (room : (ipv4HdrLen : Int) ≤ data) (behind : 0 < buf.pos)
    (route : routeFind dest table = some rt) (fits : FitsMtu rt.netif buf.content) :
    ∃ packet, packet.WellFormed ∧
      packet.content = wireHdr (buf.content.length + 20) out.packetId 0 protocolIcmp
        (Sending.srcIp ⟨protocolIcmp, dest, some src, rt.netif⟩) dest ++
        overwrite buf.content 2 (bytes16 (rfc1071 0 buf.content true)) ∧
      ∀ netifOut : NetifOut,
        icmpOut netifOut table src dest out buf = some (⟨out.mem, (out.packetId + 1) % 65536⟩,
          if (netifOut (if rt.nextHop = 0 then dest else rt.nextHop) packet).isError then []
          else [packet]) := by
  have four : ((icmpHdrLen : Nat) : Int) = 4 := rfl
  have twenty : ((ipv4HdrLen : Nat) : Int) = 20 := rfl
  have total := holds.length_content
  have inFirst := starts.le_length holds
  have seekEq := pktbufSeek_start starts (by omega) behind
  obtain ⟨current, pos, blks, layout⟩ := pktbufResetAcc_spec holds distinct
  have content : (pktbufResetAcc buf).content = buf.content := by
    rw [Pktbuf.content, blks, Pktbuf.content]
  obtain ⟨summed, sumLayout, sumContent, -, checksumEq⟩ :=
    @pktbufChecksum16_eq 0 (pktbufResetAcc buf) buf.content.length (layout.wellFormed holds) current
      (layout.filled filled) (by rw [totalBlkRemain, layout.total, pos]; omega) short
      (Nat.zero_le _) true
  rw [pos, content, Int.toNat_zero, List.drop_zero, List.take_length] at checksumEq
  rw [content] at sumContent
  have sumHolds := sumLayout.wellFormed (layout.wellFormed holds)
  obtain ⟨patched, patchEq, patchLayout, patchContent, -⟩ :=
    @setDataAt_spec summed data size 2 (bytes16 (rfc1071 0 buf.content true)) sumHolds.windows
      (sumLayout.starts (layout.starts starts)) (by decide) (by rw [length_bytes16]; omega)
  rw [sumContent] at patchContent
  have allLayout := (layout.trans sumLayout).trans patchLayout
  have patchHolds := allLayout.wellFormed holds
  have patchLength : patched.content.length = buf.content.length := by
    have patchTotal := patchHolds.length_content
    rw [allLayout.total] at patchTotal
    omega
  obtain ⟨grown, growEq, grownHolds, grownStarts, grownIds, front, frontLength, grownContent⟩ :=
    @pktbufAddHeader_room patched data size 20 out.mem.blockList true patchHolds
      (allLayout.starts starts) (by decide) (by omega)
  obtain ⟨packet, packetHolds, -, packetContent, outEq⟩ :=
    @ipv4Out_whole out patched table protocolIcmp dest (some src) rt grown out.mem.blockList front
      route (by
        rw [allLayout.total, ← total]
        exact fits) growEq grownHolds
      (by rw [grownIds, blkIds_of_frames allLayout.frames]; exact distinct)
      (grownStarts.leads (by omega)) frontLength grownContent
  refine ⟨packet, packetHolds, ?_, ?_⟩
  · rw [packetContent, patchLength, patchContent]
    rfl
  · intro netifOut
    have lengthEq : (pktbufResetAcc buf).totalSize = (buf.content.length : Int) := by
      rw [layout.total, total]
    simp only [icmpOut, seekEq, lengthEq, checksumEq, patchEq, outEq, Option.bind_eq_bind,
      Option.bind_some]

theorem icmpEchoReply_spec (holds : buf.WellFormed) (distinct : (blkIds buf.blkList).Nodup)
    (filled : buf.Filled) (short : buf.content.length ≤ 65515) (starts : buf.Starts data size)
    (long : (icmpHdrLen : Int) ≤ size) (room : (ipv4HdrLen : Int) ≤ data) (behind : 0 < buf.pos)
    (route : routeFind src table = some rt) (fits : FitsMtu rt.netif buf.content) :
    ∃ packet, packet.WellFormed ∧
      packet.content = wireHdr (buf.content.length + 20) out.packetId 0 protocolIcmp
        (Sending.srcIp ⟨protocolIcmp, src, some dest, rt.netif⟩) src ++ replyBytes buf.content ∧
      ∀ netifOut : NetifOut,
        icmpEchoReply netifOut table src dest out buf =
          some (⟨out.mem, (out.packetId + 1) % 65536⟩,
            if (netifOut (if rt.nextHop = 0 then src else rt.nextHop) packet).isError then []
            else [packet]) := by
  have four : ((icmpHdrLen : Nat) : Int) = 4 := rfl
  have total := holds.length_content
  obtain ⟨typed, typeEq, typeLayout, typeContent, typePos, -⟩ :=
    @setDataAt_spec buf data size 0 [icmpEchoReplyType] holds.windows starts (by decide) (by
      simp only [List.length_singleton]
      omega)
  have typeHolds := typeLayout.wellFormed holds
  obtain ⟨patched, patchEq, patchLayout, patchContent, patchPos, -⟩ :=
    @setDataAt_spec typed data size 2 [0, 0] typeHolds.windows (typeLayout.starts starts)
      (by decide) (by
        simp only [List.length_cons, List.length_nil]
        omega)
  have layout := typeLayout.trans patchLayout
  have patchHolds := layout.wellFormed holds
  have length : patched.content.length = buf.content.length := by
    have patchTotal := patchHolds.length_content
    rw [layout.total] at patchTotal
    omega
  obtain ⟨packet, packetHolds, packetContent, outEq⟩ :=
    @icmpOut_spec patched data size table rt dest src out patchHolds
      (by rw [blkIds_of_frames layout.frames]; exact distinct) (layout.filled filled) (by omega)
      (layout.starts starts) long room (by omega) route
      (by rw [FitsMtu, length]; exact fits)
  refine ⟨packet, packetHolds, ?_, ?_⟩
  · rw [packetContent, length, patchContent, typeContent]
    rfl
  · intro netifOut
    simp only [icmpEchoReply, typeEq, patchEq, outEq, Option.bind_eq_bind, Option.bind_some]

end Out

section In

variable {buf : Pktbuf} {data size : Int} {hdrSize packetId : Nat} {table : List IpRouteEntry}
variable {layer : SockLayer} {rt : IpRouteEntry} {src dest : IpAddr}

theorem icmpPktCheck_eq (holds : buf.WellFormed) (current : Current buf) (filled : buf.Filled)
    (short : buf.content.length ≤ 65535) (atBytes : buf.pos = hdrSize)
    (long : icmpHdrLen < (buf.content.drop hdrSize).length) :
    ∃ after, SameLayout buf after ∧ after.content = buf.content ∧ 0 < after.pos ∧
      icmpPktCheck (buf.totalSize - hdrSize) buf =
        some (if rfc1071 0 (buf.content.drop hdrSize) true = 0 then .ok else .checksum, after) := by
  have four : icmpHdrLen = 4 := rfl
  have total := holds.length_content
  rw [List.length_drop] at long
  have sizeEq : buf.totalSize - hdrSize = ((buf.content.length - hdrSize : Nat) : Int) := by omega
  obtain ⟨after, layout, content, pos, checksumEq⟩ :=
    @pktbufChecksum16_eq 0 buf (buf.content.length - hdrSize) holds current filled
      (by rw [totalBlkRemain]; omega) (by omega) (Nat.zero_le _) true
  rw [atBytes, Int.toNat_natCast, List.take_of_length_le (by rw [List.length_drop])] at checksumEq
  refine ⟨after, layout, content, by omega, ?_⟩
  have enough : ¬ ((buf.content.length - hdrSize : Nat) : Int) % 2 ^ 32 ≤ (icmpHdrLen : Int) := by
    omega
  simp only [icmpPktCheck, sizeEq, if_neg enough, checksumEq, Option.bind_eq_bind,
    Option.bind_some]
  by_cases verifies : rfc1071 0 (buf.content.drop hdrSize) true = 0
  · simp only [verifies, ne_eq, not_true_eq_false, if_false, if_true]
  · simp only [verifies, ne_eq, not_false_eq_true, if_true, if_false]

/-- `icmp_in` refuses a packet that is no echo request, or accepts it, with its bytes where
the header can be patched, when it has more than a header and verifies. -/
theorem icmpIn_cases (handed : HandedUp buf) (hdrLen : ipv4HdrLen ≤ ipv4HdrSize buf.content) :
    (∃ err after, ¬ EchoRequest buf.content ∧ ∀ netifOut : NetifOut,
      icmpIn netifOut table layer packetId src dest buf = some (.refused err, after, packetId)) ∨
    ∃ checked data size free, checked.WellFormed ∧ (blkIds checked.blkList).Nodup ∧
      checked.Filled ∧ checked.content = buf.content ∧ checked.Starts data size ∧
      ((icmpHdrLen + ipv4HdrSize buf.content : Nat) : Int) ≤ size ∧ 0 < checked.pos ∧
      icmpHdrLen < (icmpBytes buf.content).length ∧ rfc1071 0 (icmpBytes buf.content) true = 0 ∧
      ∀ netifOut : NetifOut, icmpIn netifOut table layer packetId src dest buf =
        icmpAccepted netifOut table { layer with mem := { layer.mem with blockList := free } }
          packetId src dest (ipv4HdrSize buf.content) checked := by
  have four : icmpHdrLen = 4 := rfl
  have headerLen : ipv4HdrLen = 20 := rfl
  have sixty : ipv4HdrSize buf.content ≤ 60 := by
    rw [ipv4HdrSize]
    omega
  have holds := handed.wellFormed
  have total := holds.length_content
  have accepted : ¬ NetErr.ok.isError = true := Bool.false_ne_true
  have nonempty : buf.content ≠ [] := by
    intro none
    rw [none] at hdrLen
    exact absurd hdrLen (by decide)
  obtain ⟨byte, byteEq, byteSize⟩ := handed.firstByte
  have byteSize := byteSize nonempty
  by_cases inPacket : icmpHdrLen + ipv4HdrSize buf.content ≤ buf.content.length
  case neg =>
    have refused : buf.totalSize < ((icmpHdrLen + ipv4HdrSize buf.content : Nat) : Int) ∨
        pktbufBlkSize < ((icmpHdrLen + ipv4HdrSize buf.content : Nat) : Int) := by omega
    refine .inl ⟨.size, layer, fun request => ?_, fun netifOut => ?_⟩
    · have long := request.long
      rw [icmpBytes, List.length_drop] at long
      omega
    · simp only [icmpIn, byteEq, byteSize, pktbufSetCont_refused refused, Option.bind_eq_bind,
        Option.bind_some]
      rfl
  case pos =>
    obtain ⟨cont, free, data, size, contEq, made⟩ :=
      @HandedUp.setCont buf _ layer.mem.blockList handed nonempty inPacket (by
        simp only [pktbufBlkSize]
        omega)
    have contHolds := made.wellFormed
    obtain ⟨resetCurrent, resetPos, resetBlks, resetLayout⟩ :=
      pktbufResetAcc_spec contHolds made.distinct
    have resetContent : (pktbufResetAcc cont).content = buf.content := by
      rw [Pktbuf.content, resetBlks, ← Pktbuf.content, made.content]
    obtain ⟨seekErr, sought, seekEq, current, seekLayout, seekContent, seekPos⟩ :=
      pktbufSeek_spec (resetLayout.wellFormed contHolds) resetCurrent (ipv4HdrSize buf.content)
    obtain ⟨-, atBytes⟩ := seekPos (by omega) (by rw [resetLayout.total, made.total]; omega)
    rw [resetContent] at seekContent
    have layout := resetLayout.trans seekLayout
    have soughtHolds := layout.wellFormed contHolds
    have soughtFilled := layout.filled made.filled
    have soughtTotal : sought.totalSize = (buf.content.length : Int) := by
      rw [layout.total, made.total]
    have inEq (netifOut : NetifOut) : icmpIn netifOut table layer packetId src dest buf =
        (icmpPktCheck (sought.totalSize - ipv4HdrSize buf.content) sought).bind
          fun (err, checked) =>
            if err.isError then some (.refused err,
              { layer with mem := { layer.mem with blockList := free } }, packetId)
            else icmpAccepted netifOut table
              { layer with mem := { layer.mem with blockList := free } } packetId src dest
              (ipv4HdrSize buf.content) checked := by
      simp only [icmpIn, byteEq, byteSize, contEq, Option.bind_eq_bind, Option.bind_some,
        if_neg accepted, seekEq]
    by_cases long : icmpHdrLen < (icmpBytes buf.content).length
    case neg =>
      refine .inl ⟨.size, { layer with mem := { layer.mem with blockList := free } },
        fun request => long request.long, fun netifOut => ?_⟩
      have only : (sought.totalSize - ipv4HdrSize buf.content) % 2 ^ 32 ≤ (icmpHdrLen : Int) := by
        rw [icmpBytes, List.length_drop] at long
        omega
      rw [inEq, icmpPktCheck, if_pos only, Option.bind_some]
      rfl
    case pos =>
      obtain ⟨checked, checkLayout, checkContent, checkPos, checkEq⟩ :=
        @icmpPktCheck_eq sought (ipv4HdrSize buf.content) soughtHolds current soughtFilled
          (by rw [seekContent]; exact handed.short) atBytes (by rw [seekContent]; exact long)
      rw [seekContent] at checkContent checkEq
      rw [← icmpBytes] at checkEq
      by_cases verifies : rfc1071 0 (icmpBytes buf.content) true = 0
      · have allLayout := layout.trans checkLayout
        refine .inr ⟨checked, data, size, free, allLayout.wellFormed contHolds, ?_,
          allLayout.filled made.filled, checkContent, allLayout.starts made.starts, made.long,
          checkPos, long, verifies, fun netifOut => ?_⟩
        · rw [blkIds_of_frames allLayout.frames]
          exact made.distinct
        · rw [inEq, checkEq, if_pos verifies, Option.bind_some]
          exact if_neg accepted
      · refine .inl ⟨.checksum, { layer with mem := { layer.mem with blockList := free } },
          fun request => verifies request.verifies, fun netifOut => ?_⟩
        rw [inEq, checkEq, if_neg verifies, Option.bind_some]
        rfl

theorem icmpAccepted_request (holds : buf.WellFormed)
    (distinct : (blkIds buf.blkList).Nodup) (filled : buf.Filled)
    (short : buf.content.length ≤ 65535) (starts : buf.Starts data size)
    (hdrLen : ipv4HdrLen ≤ hdrSize) (leads : ((icmpHdrLen + hdrSize : Nat) : Int) ≤ size)
    (behind : 0 < buf.pos) (type : (buf.content.drop hdrSize).getD 0 0 = icmpEchoRequest)
    (route : routeFind src table = some rt)
    (fits : FitsMtu rt.netif (buf.content.drop hdrSize)) :
    ∃ packet, packet.WellFormed ∧
      packet.content = wireHdr ((buf.content.drop hdrSize).length + 20) packetId 0 protocolIcmp
        (Sending.srcIp ⟨protocolIcmp, src, some dest, rt.netif⟩) src ++
        replyBytes (buf.content.drop hdrSize) ∧
      ∀ netifOut : NetifOut,
        icmpAccepted netifOut table layer packetId src dest hdrSize buf = some
          (.replied (if (netifOut (if rt.nextHop = 0 then src else rt.nextHop) packet).isError
            then [] else [packet]), layer, (packetId + 1) % 65536) := by
  have four : icmpHdrLen = 4 := rfl
  have headerLen : ipv4HdrLen = 20 := rfl
  have total := holds.length_content
  have inFirst := starts.le_length holds
  have data_nonneg : 0 ≤ data := by
    obtain ⟨first, rest, blks, rfl, -⟩ := starts
    exact (holds.windows first (by rw [blks]; exact List.mem_cons_self)).data
  have typeEq : dataAt buf hdrSize 1 = some [icmpEchoRequest] := by
    rw [dataAt_eq holds.windows starts (by omega) (by decide) (by omega), Int.toNat_natCast, ← type]
    obtain ⟨byte, rest, cons⟩ : ∃ byte rest, buf.content.drop hdrSize = byte :: rest := by
      apply List.exists_cons_of_length_pos
      rw [List.length_drop]
      omega
    rw [cons]
    rfl
  obtain ⟨kept, keptEq, keptStarts, keptIds, keptPos, keptFilled⟩ :=
    @pktbufRemoveHeader_first buf data size hdrSize layer.mem.blockList starts (by omega)
  obtain ⟨stripped, left, strippedEq, reshaped, -, content, -⟩ :=
    @pktbufRemoveHeader_spec buf layer.mem.blockList hdrSize holds (by omega) (by omega)
  rw [keptEq] at strippedEq
  cases strippedEq
  rw [Int.toNat_natCast] at content
  obtain ⟨packet, packetHolds, packetContent, outEq⟩ :=
    @icmpEchoReply_spec kept _ _ table rt src dest ⟨layer.mem, packetId⟩ reshaped.wellFormed
      (by rw [keptIds]; exact distinct) (keptFilled filled)
      (by rw [content, List.length_drop]; omega) keptStarts (by omega) (by omega)
      (by rw [keptPos]; exact behind) route (by rw [content]; exact fits)
  rw [content] at packetContent
  refine ⟨packet, packetHolds, packetContent, fun netifOut => ?_⟩
  simp only [icmpAccepted, typeEq, if_true, keptEq, outEq, Option.bind_eq_bind, Option.bind_some]

theorem icmpAccepted_other (holds : buf.WellFormed) (starts : buf.Starts data size)
    (hdrLen : ipv4HdrLen ≤ hdrSize) (leads : ((icmpHdrLen + hdrSize : Nat) : Int) ≤ size)
    (type : (buf.content.drop hdrSize).getD 0 0 ≠ icmpEchoRequest) :
    ∃ err placed after, ∀ netifOut : NetifOut,
      icmpAccepted netifOut table layer packetId src dest hdrSize buf =
        some (.raw err placed, after, packetId) := by
  have four : icmpHdrLen = 4 := rfl
  have headerLen : ipv4HdrLen = 20 := rfl
  have inFirst := starts.le_length holds
  obtain ⟨byte, typeEq, other⟩ : ∃ byte, dataAt buf hdrSize 1 = some byte ∧
      byte ≠ [icmpEchoRequest] := by
    refine ⟨_, dataAt_eq holds.windows starts (by omega) (by decide) (by omega), ?_⟩
    rw [Int.toNat_natCast]
    intro isRequest
    apply type
    obtain ⟨byte, rest, cons⟩ : ∃ byte rest, buf.content.drop hdrSize = byte :: rest := by
      apply List.exists_cons_of_length_pos
      rw [List.length_drop]
      omega
    rw [cons] at isRequest ⊢
    exact List.singleton_inj.mp isRequest
  have hdrEq := pktHdr_eq holds.windows (starts.leads (by omega))
  obtain ⟨result, rawEq⟩ : ∃ result, rawIn layer buf = some result := by
    simp only [rawIn, hdrEq, Option.bind_eq_bind, Option.bind_some]
    split
    · exact ⟨_, rfl⟩
    · exact ⟨_, rfl⟩
  refine ⟨result.1, result.2.1, result.2.2, fun netifOut => ?_⟩
  simp only [icmpAccepted, typeEq, if_neg other, rawEq, Option.bind_eq_bind, Option.bind_some]

/-- An echo request is answered by one packet, its reply to where it came from; other packets
are not answered. -/
theorem echo_reply (handed : HandedUp buf) (hdrLen : ipv4HdrLen ≤ ipv4HdrSize buf.content) :
    (EchoRequest buf.content → ∀ rt, routeFind src table = some rt →
      FitsMtu rt.netif (icmpBytes buf.content) →
      ∃ packet after, packet.WellFormed ∧
        EchoReply buf.content packet.content (if dest = 0 then rt.netif.ipAddr else dest) src ∧
        ∀ netifOut : NetifOut, icmpIn netifOut table layer packetId src dest buf = some
          (.replied (if (netifOut (if rt.nextHop = 0 then src else rt.nextHop) packet).isError
            then [] else [packet]), after, (packetId + 1) % 65536)) ∧
    (¬ EchoRequest buf.content → ∃ answer after, answer.packets = [] ∧
      ∀ netifOut : NetifOut,
        icmpIn netifOut table layer packetId src dest buf = some (answer, after, packetId)) := by
  have headerLen : ipv4HdrLen = 20 := rfl
  rcases @icmpIn_cases buf packetId table layer src dest handed hdrLen with
    ⟨err, after, noRequest, inEq⟩ |
    ⟨checked, data, size, free, holds, distinct, filled, content, starts, leads, behind, long,
      verifies, inEq⟩
  · exact ⟨fun request => absurd request noRequest, fun _ => ⟨.refused err, after, rfl, inEq⟩⟩
  have bytesEq : checked.content.drop (ipv4HdrSize buf.content) = icmpBytes buf.content := by
    rw [content, icmpBytes]
  have short := handed.short
  constructor
  · intro request rt route fits
    obtain ⟨packet, packetHolds, packetContent, acceptedEq⟩ :=
      @icmpAccepted_request checked data size (ipv4HdrSize buf.content) packetId table
        { layer with mem := { layer.mem with blockList := free } } rt src dest holds distinct filled
        (by rw [content]; exact short) starts hdrLen leads behind
        (by rw [bytesEq]; exact request.type) route (by rw [bytesEq]; exact fits)
    refine ⟨packet, _, packetHolds, ?_, fun netifOut => (inEq netifOut).trans (acceptedEq netifOut)⟩
    rw [packetContent, bytesEq]
    apply wireHdr_echoReply (Nat.le_of_lt long)
    rw [icmpBytes, List.length_drop]
    omega
  · intro noRequest
    have other : (checked.content.drop (ipv4HdrSize buf.content)).getD 0 0 ≠ icmpEchoRequest := by
      rw [bytesEq]
      exact fun type => noRequest ⟨long, verifies, type⟩
    obtain ⟨err, placed, after, acceptedEq⟩ :=
      @icmpAccepted_other checked data size (ipv4HdrSize buf.content) packetId table
        { layer with mem := { layer.mem with blockList := free } } src dest holds starts hdrLen leads
        other
    exact ⟨.raw err placed, after, rfl, fun netifOut => (inEq netifOut).trans (acceptedEq netifOut)⟩

end In

def noRawSocks : SockLayer where
  socks := { free := [], opened := [], sock := fun _ => Sock.sockInit 0 1 }
  recvList := fun _ => []
  recvWait := fun _ => .sockWaitInit .ok
  mem := ⟨[], 0⟩

def sampleRequest : Pktbuf where
  totalSize := 29
  blkList := [
    { id := 0
      size := 22
      data := 14
      payload := fun i => [0x45, 0, 29, 0, 1, 0, 0, 0, 64, 1, 0, 0, 10, 0, 0, 2, 10, 0, 0, 1, 8,
        0].getD (i - 14) 0 },
    { id := 1
      size := 7
      data := 0
      payload := fun i => [0xee, 0xfd, 0, 1, 0, 1, 9].getD i 0 }]
  ref := 1
  pos := 0
  currBlk := none
  blkOffset := 0

theorem sampleRequest_handedUp : HandedUp sampleRequest where
  wellFormed := ⟨rfl, windows_cons.mpr ⟨⟨by decide, by decide, by decide⟩,
    windows_cons.mpr ⟨⟨by decide, by decide, by decide⟩, windows_nil⟩⟩⟩
  distinct := by decide
  filled := fun _ => by
    intro blk member
    rcases List.mem_cons.mp member with rfl | member
    · exact (by decide : (0 : Int) < 22)
    · rw [List.mem_singleton.mp member]
      exact (by decide : (0 : Int) < 7)
  header := ⟨_, _, rfl, by decide⟩
  short := by simp [Pktbuf.content, sampleRequest]

/-- The request is answered by a reply from 10.0.0.1. -/
theorem echo_reply_sample :
    EchoRequest sampleRequest.content ∧ ∃ packet after, packet.WellFormed ∧
      EchoReply sampleRequest.content packet.content 0x0100000a 0x0200000a ∧
      icmpIn (fun _ _ => .ok) [⟨0, 0, 0, ⟨0x0100000a, 0xffffff, 1500⟩⟩] noRawSocks 7 0x0200000a
        0x0100000a sampleRequest = some (.replied [packet], after, 8) := by
  have request : EchoRequest sampleRequest.content :=
    ⟨by decide, by decide, by decide⟩
  obtain ⟨packet, after, holds, reply, inEq⟩ :=
    (@echo_reply sampleRequest 7 [⟨0, 0, 0, ⟨0x0100000a, 0xffffff, 1500⟩⟩] noRawSocks 0x0200000a
      0x0100000a sampleRequest_handedUp (by decide)).1 request _ rfl
      (.inr (by decide))
  exact ⟨request, packet, after, holds, reply, inEq _⟩

end CleanOS.Net
