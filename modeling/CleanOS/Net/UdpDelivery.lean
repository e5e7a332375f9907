import CleanOS.Lib.Calls
import CleanOS.Net.IpInput
import CleanOS.Net.Receive

/-!
# Delivery of UDP datagrams

`udp_in`, which makes a queued packet of an IP packet by taking its headers off and growing
it again by the address of its sender, and `udp_receive_from`, which undoes this.  Over them,
the receive lists as mailboxes.
-/

namespace CleanOS.Net

open CleanOS.Lib

/-- `NET_PROTOCOL_UDP`. -/
def protocolUdp : UInt8 := 17

/-- `sizeof(udp_hdr_t)`. -/
abbrev udpHdrLen : Nat := 8

/-- `checksum_peso`. -/
def checksumPeso (srcIp destIp : IpAddr) (protocol : UInt8) (buf : Pktbuf) :
    Option (Nat × Pktbuf) := do
  let len := swapU16 (buf.totalSize % 2 ^ 16).toNat.toUInt16
  let sum ← checksum16 0 (ipAddrToBuf srcIp) 0 false
  let sum ← checksum16 4 (ipAddrToBuf destIp) sum false
  let sum ← checksum16 8 [0, protocol] sum false
  let sum ← checksum16 10 (bytes16 len.toNat) sum false
  pktbufChecksum16 (pktbufResetAcc buf) buf.totalSize sum true

/-- `udp_find`. -/
def udpFind (socks : SockPool) (srcIp : IpAddr) (srcPort : UInt16) (destIp : IpAddr)
    (destPort : UInt16) : Option Nat :=
  socks.opened.find? fun block =>
    let sock := socks.sock block
    ! ((sock.localIp ≠ 0 ∧ sock.localIp ≠ destIp) ∨ (destPort ≠ 0 ∧ sock.localPort ≠ destPort) ∨
      (sock.remoteIp ≠ 0 ∧ sock.remoteIp ≠ srcIp) ∨
      (sock.remotePort ≠ 0 ∧ sock.remotePort ≠ srcPort))

def udpField (hdr : List UInt8) (i : Nat) : UInt16 :=
  swapU16 (field16 hdr i).toUInt16

def udpHdrNtohs (hdr : List UInt8) : List UInt8 :=
  bytes16 (udpField hdr 0).toNat ++ bytes16 (udpField hdr 2).toNat ++
    bytes16 (udpField hdr 4).toNat ++ hdr.drop 6

/-- The test of the checksum in `udp_in`: zero when it verifies or is not there. -/
def udpVerify (buf : Pktbuf) (src dest : IpAddr) : Option (Nat × Pktbuf) := do
  let hdr ← dataAt buf 0 udpHdrLen
  if field16 hdr 6 ≠ 0 then checksumPeso dest src protocolUdp (pktbufResetAcc buf)
  else some (0, buf)

/-- The part of `udp_in` that puts the sender's address and port in front of the data. -/
def udpSetFrom (buf : Pktbuf) (src : IpAddr) (remotePort : UInt16) (free : List Pktblk) :
    Option (Pktbuf × List Pktblk) := do
  let hdr ← dataAt buf 0 udpHdrLen
  let buf ← setDataAt buf 0 (udpHdrNtohs hdr)
  -- `udp_from_t` is longer than the header, so that a negative number of bytes is removed.
  let (_, buf, free) ← pktbufRemoveHeader buf (udpHdrLen - udpFromLen) free
  let buf ← setDataAt buf 24 (bytes16 remotePort.toNat)
  let buf ← setDataAt buf 4 (ipAddrToBuf src)
  some (buf, free)

/-- `udp_in`, with the socket that the packet is queued at.  `udp_pkt_check` accepts every
packet. -/
def udpIn (layer : SockLayer) (buf : Pktbuf) (src dest : IpAddr) :
    Option (NetErr × Option Nat × SockLayer) := do
  let iphdrSize := ipv4HdrSize (← dataAt buf 0 1)
  let (err, buf, free) ← pktbufSetCont buf ((udpHdrLen + iphdrSize : Nat) : Int)
    layer.mem.blockList
  let layer := { layer with mem := { layer.mem with blockList := free } }
  if err.isError then some (err, none, layer)
  else
    let hdr ← dataAt buf iphdrSize udpHdrLen
    let localPort := udpField hdr 2
    let remotePort := udpField hdr 0
    match udpFind layer.socks src remotePort dest localPort with
    | none => some (.unreach, none, layer)
    | some udp =>
        let (_, buf, free) ← pktbufRemoveHeader buf iphdrSize free
        let (sum, buf) ← udpVerify buf src dest
        if sum ≠ 0 then
          some (.checksum, none, { layer with mem := { layer.mem with blockList := free } })
        else
          let (buf, free) ← udpSetFrom buf src remotePort free
          let layer := { layer with mem := { layer.mem with blockList := free } }
          let (placed, layer) := layer.append udp buf
          some (.ok, placed, layer)

/-- What the other side of the sockets and the network do: a packet comes in, a user reads, a
socket is closed, or the sockets' addresses or the pools change. -/
inductive UdpEvent where
  | arrive (buf : Pktbuf) (src dest : IpAddr)
  | receive (block : Nat) (len : UInt32)
  | close (block : Nat)
  | other (socks : SockPool) (mem : PktMem)

/-- What an event is answered with. -/
inductive UdpAnswer where
  | input (err : NetErr) (placed : Option Nat)
  | output (received : Received)
  | done

def SockLayer.sock (layer : SockLayer) (block : Nat) : SockRecv where
  recvList := layer.recvList block
  recvWait := layer.recvWait block
  mem := layer.mem

def udpCall (layer : SockLayer) : UdpEvent → Option (UdpAnswer × SockLayer)
  | .arrive buf src dest => do
      let (err, placed, layer) ← udpIn layer buf src dest
      some (.input err placed, layer)
  | .receive block len => do
      let (received, sock) ← udpReceiveFrom (layer.sock block) true len true 0
      some (.output received, { layer with
        recvList := Function.update layer.recvList block sock.recvList
        recvWait := Function.update layer.recvWait block sock.recvWait
        mem := sock.mem })
  | .close block =>
      some (.done, { layer with
        socks := (layer.socks.close block).2
        recvList := Function.update layer.recvList block []
        mem := (layer.recvList block).foldl PktMem.pktbufFree layer.mem })
  | .other socks mem => some (.done, { layer with socks, mem })

def udpBytes (packet : List UInt8) : List UInt8 :=
  packet.drop (ipv4HdrSize packet)

/-- The field `dest_port`, in host order. -/
def udpDestPort (packet : List UInt8) : UInt16 :=
  udpField (udpBytes packet) 2

/-- The field `total_len`, in host order. -/
def udpTotalLen (packet : List UInt8) : Nat :=
  (udpField (udpBytes packet) 4).toNat

/-- A datagram for its receiver; the port is in network order. -/
structure UdpEntry where
  src : IpAddr
  srcPort : UInt16
  payload : List UInt8

/-- The datagram that a sender put into a packet. -/
structure SentIn (packet : List UInt8) (src : IpAddr) (entry : UdpEntry) : Prop where
  src : entry.src = src
  srcPort : entry.srcPort = (field16 (udpBytes packet) 0).toUInt16
  hasHeader : udpHdrLen ≤ udpTotalLen packet
  inPacket : udpTotalLen packet ≤ (udpBytes packet).length
  payload : entry.payload = ((udpBytes packet).take (udpTotalLen packet)).drop udpHdrLen

/-- A queued packet that holds a datagram. -/
structure Holds (queued : Pktbuf) (entry : UdpEntry) : Prop where
  datagram : Datagram .udp queued
  payload : SockOps.udp.payload queued = entry.payload
  port : dataAt queued 24 2 = some (bytes16 (swapU16 entry.srcPort).toNat)
  addr : dataAt queued 4 4 = some (ipAddrToBuf entry.src)

def pseudoPacket (srcIp destIp : IpAddr) (protocol : UInt8) (bytes : List UInt8) : List UInt8 :=
  ipAddrToBuf srcIp ++ (ipAddrToBuf destIp ++ ([0, protocol] ++
    (bytes16 (swapU16 bytes.length.toUInt16).toNat ++ bytes)))

/-- The tests of `udp_in` let a packet through to a socket. -/
structure Taken (layer : SockLayer) (buf : Pktbuf) (src dest : IpAddr) (block : Nat) : Prop where
  inBlock : ((udpHdrLen + ipv4HdrSize buf.content : Nat) : Int) ≤ pktbufBlkSize
  inPacket : udpHdrLen + ipv4HdrSize buf.content ≤ buf.content.length
  found : udpFind layer.socks src (udpField (udpBytes buf.content) 0) dest
    (udpDestPort buf.content) = some block
  verifies : field16 (udpBytes buf.content) 6 ≠ 0 →
    rfc1071 0 (pseudoPacket dest src protocolUdp (udpBytes buf.content)) true = 0
  room : (layer.recvList block).length < maxRecv

/-- The sender's address fits in front of the data: the IP header is long enough for it, or
the first block has room and is left where it is. -/
def HeadRoom (buf : Pktbuf) : Prop :=
  udpFromLen - udpHdrLen ≤ ipv4HdrSize buf.content ∨
    ∃ first rest, buf.blkList = first :: rest ∧
      ((udpHdrLen + ipv4HdrSize buf.content : Nat) : Int) ≤ first.size ∧
      udpFromLen - udpHdrLen ≤ first.data + ipv4HdrSize buf.content

/-- A packet that is let through is queued, with all its windows in their payloads, at a
socket of its port, and holds what was sent. -/
def ArrivesRight (layer : SockLayer) (buf : Pktbuf) (src dest : IpAddr) : Prop :=
  ∀ block, Taken layer buf src dest block →
    ∃ after queued entry, udpIn layer buf src dest = some (.ok, some block, after) ∧
      after.recvList = Function.update layer.recvList block (layer.recvList block ++ [queued]) ∧
      (layer.socks.sock block).localPort = udpDestPort buf.content ∧
      SentIn buf.content src entry ∧ Holds queued entry

/-- A packet that is let through has head room, its port is not zero, unless that of the
socket is, and its length is that of all bytes behind the IP header. -/
def ArrivalSound (layer : SockLayer) (buf : Pktbuf) (src dest : IpAddr) : Prop :=
  ∀ block, Taken layer buf src dest block →
    HeadRoom buf ∧ (udpDestPort buf.content = 0 → (layer.socks.sock block).localPort = 0) ∧
      udpTotalLen buf.content = (udpBytes buf.content).length

section Checksum

variable {buf : Pktbuf}

@[simp]
theorem length_ipAddrToBuf {ip : IpAddr} : (ipAddrToBuf ip).length = 4 :=
  rfl

theorem checksum16_step {offset : Nat} {before piece : List UInt8} (even : offset % 2 = 0)
    (evenBefore : before.length % 2 = 0) (short : piece.length ≤ 60000) :
    checksum16 offset piece (onesSum 0 before) false = some (onesSum 0 (before ++ piece)) := by
  have bound := @wordSum_lt piece
  have normLe := @onesNorm_le 65535 (0 + wordSum before) (by decide)
  rw [onesSum_eq (Nat.zero_le _), onesSum_eq (Nat.zero_le _), wordSum_append evenBefore]
  have sums := @checksum16_sums offset (onesNorm 65535 (0 + wordSum before)) piece false
    (.inl even) (by rw [laneSum_even even]; omega)
  rw [sums, if_neg Bool.false_ne_true, laneSum_even even, onesNorm_add_left (by decide),
    Nat.add_assoc]

theorem checksumPeso_eq (srcIp destIp : IpAddr) (protocol : UInt8) (holds : buf.WellFormed)
    (distinct : (blkIds buf.blkList).Nodup) (filled : buf.Filled)
    (short : buf.content.length ≤ 65535) :
    ∃ after, checksumPeso srcIp destIp protocol buf =
        some (rfc1071 0 (pseudoPacket srcIp destIp protocol buf.content) true, after) ∧
      SameLayout buf after ∧ after.content = buf.content := by
  have total := holds.length_content
  have lenEq : ((buf.content.length : Int) % 2 ^ 16).toNat = buf.content.length := by omega
  obtain ⟨current, pos, blks, layout⟩ := pktbufResetAcc_spec holds distinct
  have content : (pktbufResetAcc buf).content = buf.content := by rw [Pktbuf.content, blks]; rfl
  have remain : (buf.content.length : Int) ≤ totalBlkRemain (pktbufResetAcc buf) := by
    rw [totalBlkRemain, pos, layout.total]
    omega
  obtain ⟨hdr, hdrEq⟩ : ∃ hdr, ipAddrToBuf srcIp ++ (ipAddrToBuf destIp ++ ([0, protocol] ++
      bytes16 (swapU16 buf.content.length.toUInt16).toNat)) = hdr := ⟨_, rfl⟩
  have hdrLength : hdr.length = 12 := by rw [← hdrEq]; rfl
  have small : onesSum 0 hdr ≤ 65535 := by
    rw [onesSum_eq (Nat.zero_le _)]
    exact onesNorm_le (by decide)
  obtain ⟨after, -, afterLayout, afterContent, -, sumEq⟩ :=
    @pktbufSum16_eq (pktbufResetAcc buf) (onesSum 0 hdr) buf.content.length
      (layout.wellFormed holds) current (layout.filled filled) remain short small
  have packetEq : onesSum (onesSum 0 hdr) buf.content =
      onesSum 0 (pseudoPacket srcIp destIp protocol buf.content) := by
    have wholeEq : pseudoPacket srcIp destIp protocol buf.content = hdr ++ buf.content := by
      rw [← hdrEq, pseudoPacket]
      simp only [List.append_assoc]
    rw [onesSum_eq small, wholeEq, onesSum_eq (Nat.zero_le _), onesSum_eq (Nat.zero_le _),
      onesNorm_add_left (by decide), wordSum_append (by rw [hdrLength]), Nat.add_assoc]
  have lastEq := sumEq checksum16 checksum16_sums true
  rw [pos, content, Int.toNat_zero, List.drop_zero, List.take_length, packetEq,
    pktbufSum16_checksum16] at lastEq
  refine ⟨after, ?_, layout.trans afterLayout, afterContent.trans content⟩
  have first := @checksum16_step 0 [] (ipAddrToBuf srcIp) rfl rfl (by simp)
  have second := @checksum16_step 4 (ipAddrToBuf srcIp) (ipAddrToBuf destIp) rfl (by simp) (by simp)
  have third := @checksum16_step 8 (ipAddrToBuf srcIp ++ ipAddrToBuf destIp) [0, protocol] rfl
    (by simp) (by simp)
  have fourth := @checksum16_step 10 (ipAddrToBuf srcIp ++ ipAddrToBuf destIp ++ [0, protocol])
    (bytes16 (swapU16 buf.content.length.toUInt16).toNat) rfl (by simp)
    (by simp [length_bytes16])
  have noneSum : onesSum 0 [] = 0 := rfl
  rw [noneSum, List.nil_append] at first
  have hdrAssoc : ipAddrToBuf srcIp ++ ipAddrToBuf destIp ++ [0, protocol] ++
      bytes16 (swapU16 buf.content.length.toUInt16).toNat = hdr := by
    rw [← hdrEq]
    simp only [List.append_assoc]
  rw [hdrAssoc] at fourth
  simp only [checksumPeso, ← total, lenEq, first, second, third, fourth, Option.bind_eq_bind,
    Option.bind_some, lastEq, rfc1071]

end Checksum

section Rewriting

variable {buf : Pktbuf} {data size : Int} {free : List Pktblk}

theorem field16_take {bytes : List UInt8} {count i : Nat} (inside : i + 2 ≤ count) :
    field16 (bytes.take count) i = field16 bytes i := by
  simp only [field16, List.getD_eq_getElem?_getD, List.getElem?_take_of_lt (by omega : i < count),
    List.getElem?_take_of_lt (by omega : i + 1 < count)]

theorem udpField_take {bytes : List UInt8} {count i : Nat} (inside : i + 2 ≤ count) :
    udpField (bytes.take count) i = udpField bytes i := by
  rw [udpField, field16_take inside, udpField]

theorem length_udpHdrNtohs {hdr : List UInt8} (length : hdr.length = udpHdrLen) :
    (udpHdrNtohs hdr).length = udpHdrLen := by
  simp only [udpHdrNtohs, List.length_append, length_bytes16, List.length_drop, length]
  rfl

theorem udpVerify_eq (src dest : IpAddr) (holds : buf.WellFormed)
    (distinct : (blkIds buf.blkList).Nodup) (filled : buf.Filled)
    (short : buf.content.length ≤ 65535) (starts : buf.Starts data size)
    (long : (udpHdrLen : Int) ≤ size) :
    ∃ sum after, udpVerify buf src dest = some (sum, after) ∧ SameLayout buf after ∧
      after.content = buf.content ∧
      (sum = 0 ↔ (field16 buf.content 6 ≠ 0 →
        rfc1071 0 (pseudoPacket dest src protocolUdp buf.content) true = 0)) := by
  have hdrEq := @dataAt_eq buf data size 0 udpHdrLen holds.windows starts (by decide) (by decide)
    (by omega)
  have fieldEq : field16 ((buf.content.drop 0).take udpHdrLen) 6 = field16 buf.content 6 := by
    rw [List.drop_zero, field16_take (by decide)]
  by_cases none : field16 buf.content 6 = 0
  · refine ⟨0, buf, ?_, .refl buf, rfl, fun _ some => absurd none some, fun _ => rfl⟩
    simp only [udpVerify, hdrEq, Option.bind_eq_bind, Option.bind_some, Int.toNat_zero,
      Int.toNat_natCast, fieldEq, none, ne_eq, not_true_eq_false, if_false]
  · obtain ⟨current, pos, blks, layout⟩ := pktbufResetAcc_spec holds distinct
    have content : (pktbufResetAcc buf).content = buf.content := by rw [Pktbuf.content, blks]; rfl
    obtain ⟨after, pesoEq, afterLayout, afterContent⟩ :=
      checksumPeso_eq dest src protocolUdp (layout.wellFormed holds) (by rw [blks]; exact distinct)
        (layout.filled filled) (by rw [content]; exact short)
    rw [content] at pesoEq afterContent
    refine ⟨_, after, ?_, layout.trans afterLayout, afterContent, fun zero _ => zero,
      fun verifies => verifies none⟩
    simp only [udpVerify, hdrEq, Option.bind_eq_bind, Option.bind_some, Int.toNat_zero,
      Int.toNat_natCast, fieldEq, ne_eq, none, not_false_eq_true, if_true, pesoEq]

theorem udpSetFrom_holds {entry : UdpEntry} (holds : buf.WellFormed)
    (distinct : (blkIds buf.blkList).Nodup) (short : buf.content.length ≤ 65535)
    (starts : buf.Starts data size) (long : (udpHdrLen : Int) ≤ size)
    (room : udpFromLen - udpHdrLen ≤ data)
    (payload : entry.payload = buf.content.drop udpHdrLen) :
    ∃ queued left, udpSetFrom buf entry.src (swapU16 entry.srcPort) free = some (queued, left) ∧
      Holds queued entry := by
  have eight : ((udpHdrLen : Nat) : Int) = 8 := rfl
  have fromLen : udpFromLen = 28 := rfl
  have total := holds.length_content
  have inFirst := starts.le_length holds
  have hdrEq := @dataAt_eq buf data size 0 udpHdrLen holds.windows starts (by decide) (by decide)
    (by omega)
  rw [Int.toNat_zero, List.drop_zero, Int.toNat_natCast] at hdrEq
  have hdrLength : (udpHdrNtohs (buf.content.take udpHdrLen)).length = udpHdrLen := by
    apply length_udpHdrNtohs
    rw [List.length_take]
    omega
  obtain ⟨hosted, hostEq, hostLayout, hostContent, -⟩ :=
    @setDataAt_spec buf data size 0 (udpHdrNtohs (buf.content.take udpHdrLen)) holds.windows starts
      (by decide) (by rw [hdrLength]; omega)
  have hostHolds := hostLayout.wellFormed holds
  obtain ⟨grown, growEq, grownHolds, grownStarts, grownIds, front, frontLength, grownContent⟩ :=
    @pktbufAddHeader_room hosted data size 20 free true hostHolds (hostLayout.starts starts)
      (by decide) (by omega)
  rw [← pktbufRemoveHeader_back hostHolds (hostLayout.starts starts) (by decide) (by omega)]
    at growEq
  obtain ⟨ported, portEq, portLayout, portContent, -⟩ :=
    @setDataAt_spec grown _ _ 24 (bytes16 (swapU16 entry.srcPort).toNat) grownHolds.windows
      grownStarts (by decide) (by rw [length_bytes16]; omega)
  have portHolds := portLayout.wellFormed grownHolds
  have portStarts := portLayout.starts grownStarts
  obtain ⟨queued, addrEq, addrLayout, addrContent, -⟩ :=
    @setDataAt_spec ported _ _ 4 (ipAddrToBuf entry.src) portHolds.windows portStarts
      (by decide) (by rw [length_ipAddrToBuf]; omega)
  have queuedHolds := addrLayout.wellFormed portHolds
  have queuedStarts := addrLayout.starts portStarts
  -- The bytes: twenty taken back, the header, and the data.
  have hostLength : hosted.content.length = buf.content.length := by
    rw [hostContent, length_overwrite (by rw [hdrLength]; simp only [Int.toNat_zero]; omega)]
  have grownLength : grown.content.length = 20 + buf.content.length := by
    rw [grownContent, List.length_append, frontLength, hostLength]
    rfl
  have portInside : (24 : Int).toNat + (bytes16 (swapU16 entry.srcPort).toNat).length ≤
      grown.content.length := by
    rw [length_bytes16, grownLength]
    omega
  have portLength : ported.content.length = 20 + buf.content.length := by
    rw [portContent, length_overwrite portInside, grownLength]
  have addrInside : (4 : Int).toNat + (ipAddrToBuf entry.src).length ≤ ported.content.length := by
    rw [length_ipAddrToBuf, portLength]
    omega
  have queuedLength : queued.content.length = 20 + buf.content.length := by
    rw [addrContent, length_overwrite addrInside, portLength]
  have dataEq : queued.content.drop 28 = buf.content.drop udpHdrLen := by
    have hostInside : (0 : Int).toNat + (udpHdrNtohs (buf.content.take udpHdrLen)).length ≤
        buf.content.length := by
      rw [hdrLength]
      simp only [Int.toNat_zero]
      omega
    rw [addrContent, overwrite_behind addrInside (by rw [length_ipAddrToBuf]; decide), portContent,
      overwrite_behind portInside (by rw [length_bytes16]; decide), grownContent,
      show 28 = front.length + udpHdrLen by rw [frontLength]; rfl, List.drop_length_add_append,
      hostContent, overwrite_behind hostInside (by rw [hdrLength]; decide)]
  refine ⟨queued, free, ?_, ⟨⟨queuedHolds, ?_, ?_, ?_, ?_⟩, ?_, ?_, ?_⟩⟩
  · have minusTwenty : ((udpHdrLen : Nat) : Int) - udpFromLen = -20 := rfl
    simp only [udpSetFrom, hdrEq, hostEq, minusTwenty, growEq, portEq, addrEq,
      Option.bind_eq_bind, Option.bind_some]
  · rw [blkIds_of_frames addrLayout.frames, blkIds_of_frames portLayout.frames, grownIds,
      blkIds_of_frames hostLayout.frames]
    exact distinct
  · obtain ⟨first, rest, blks, firstData, firstSize⟩ := queuedStarts
    have inside := queuedHolds.windows first (by rw [blks]; exact List.mem_cons_self) |>.inside
    refine ⟨first, rest, blks, ?_⟩
    simp only [SockOps.headerLen]
    omega
  · rw [queuedLength]
    simp only [SockOps.frontLen]
    omega
  · have queuedTotal := queuedHolds.length_content
    omega
  · rw [payload, ← dataEq]
    rfl
  · rw [dataAt_eq queuedHolds.windows queuedStarts (by decide) (by decide) (by omega), addrContent,
      overwrite_behind addrInside (by rw [length_ipAddrToBuf]; decide), portContent]
    exact congrArg some (overwrite_at portInside)
  · rw [dataAt_eq queuedHolds.windows queuedStarts (by decide) (by decide) (by omega), addrContent]
    exact congrArg some (overwrite_at addrInside)

theorem udpSetFrom_outside {src : IpAddr} {port : UInt16} {queued : Pktbuf} {left : List Pktblk}
    (starts : buf.Starts data size) (long : (udpHdrLen : Int) ≤ size)
    (noRoom : data < udpFromLen - udpHdrLen)
    (ran : udpSetFrom buf src port free = some (queued, left)) : ¬ queued.WellFormed := by
  obtain ⟨hdr, -, ran⟩ := Option.bind_eq_some_iff.mp ran
  obtain ⟨hosted, hostEq, ran⟩ := Option.bind_eq_some_iff.mp ran
  obtain ⟨⟨err, grown, free'⟩, removeEq, ran⟩ := Option.bind_eq_some_iff.mp ran
  obtain ⟨ported, portEq, ran⟩ := Option.bind_eq_some_iff.mp ran
  obtain ⟨addressed, addrEq, ran⟩ := Option.bind_eq_some_iff.mp ran
  cases ran
  have hostStarts := (setDataAt_layout hostEq).starts starts
  obtain ⟨kept, keptEq, grownStarts, -⟩ :=
    @pktbufRemoveHeader_first hosted data size (udpHdrLen - udpFromLen) free hostStarts (by
      simp only [udpFromLen] at noRoom ⊢
      omega)
  rw [keptEq] at removeEq
  cases removeEq
  have queuedStarts := (setDataAt_layout addrEq).starts ((setDataAt_layout portEq).starts grownStarts)
  intro wellFormed
  exact queuedStarts.not_windows (by omega) wellFormed.windows

end Rewriting

section Arrival

variable {layer : SockLayer} {buf : Pktbuf} {src dest : IpAddr} {block : Nat}

theorem udpIn_refused (handed : HandedUp buf)
    (misses : ¬ (buf.content ≠ [] ∧ udpHdrLen + ipv4HdrSize buf.content ≤ buf.content.length ∧
      ((udpHdrLen + ipv4HdrSize buf.content : Nat) : Int) ≤ pktbufBlkSize)) :
    udpIn layer buf src dest = some (.size, none, layer) := by
  have eight : ((udpHdrLen : Nat) : Int) = 8 := rfl
  have total := handed.wellFormed.length_content
  obtain ⟨byte, byteEq, byteSize⟩ := handed.firstByte
  have refused : buf.totalSize < ((udpHdrLen + ipv4HdrSize byte : Nat) : Int) ∨
      pktbufBlkSize < ((udpHdrLen + ipv4HdrSize byte : Nat) : Int) := by
    by_cases empty : buf.content = []
    · rw [empty, List.length_nil] at total
      omega
    · rw [byteSize empty]
      simp only [ne_eq, empty, not_false_eq_true, true_and, not_and_or, Nat.not_le,
        Int.not_le] at misses
      omega
  simp only [udpIn, byteEq, pktbufSetCont_refused refused, Option.bind_eq_bind, Option.bind_some]
  rfl

/-- There is head room where the IP header was, in the first block of the packet that
`pktbuf_set_cont` leaves. -/
theorem headRoom_iff {cont : Pktbuf} {data size : Int} (windows : Windows buf.blkList)
    (starts : cont.Starts data size)
    (long : ((udpHdrLen + ipv4HdrSize buf.content : Nat) : Int) ≤ size)
    (moved : cont = buf ∨ (∃ first rest, buf.blkList = first :: rest ∧
      first.size < ((udpHdrLen + ipv4HdrSize buf.content : Nat) : Int)) ∧
      ∃ grown, cont.Starts 0 grown) :
    HeadRoom buf ↔ udpFromLen - udpHdrLen ≤ data + ipv4HdrSize buf.content := by
  have eight : ((udpHdrLen : Nat) : Int) = 8 := rfl
  have fromLen : udpFromLen = 28 := rfl
  rcases moved with rfl | ⟨⟨first, rest, blks, small⟩, grown, startsZero⟩
  · have nonneg : 0 ≤ data := by
      obtain ⟨first, rest, blks, rfl, -⟩ := starts
      exact windows first (by rw [blks]; exact List.mem_cons_self) |>.data
    constructor
    · rintro (long | ⟨first, rest, blks, -, enough⟩)
      · omega
      · obtain ⟨rfl, -⟩ := starts.unique ⟨first, rest, blks, rfl, rfl⟩
        exact enough
    · intro enough
      obtain ⟨first, rest, blks, rfl, rfl⟩ := starts
      exact .inr ⟨first, rest, blks, long, enough⟩
  · obtain ⟨rfl, -⟩ := starts.unique startsZero
    constructor
    · rintro (long | ⟨first', rest', blks', enough, -⟩)
      · omega
      · rw [blks] at blks'
        cases blks'
        omega
    · intro enough
      exact .inl (by omega)

/-- `udp_in` from the search for a socket on, of a packet whose headers are in one block. -/
theorem udpIn_search {cont kept : Pktbuf} {free : List Pktblk} {err : NetErr}
    (handed : HandedUp buf) (nonempty : buf.content ≠ [])
    (contEq : pktbufSetCont buf ((udpHdrLen + ipv4HdrSize buf.content : Nat) : Int)
      layer.mem.blockList = some (.ok, cont, free))
    (hdrEq : dataAt cont (ipv4HdrSize buf.content) udpHdrLen =
      some ((buf.content.drop (ipv4HdrSize buf.content)).take udpHdrLen))
    (keptEq : pktbufRemoveHeader cont (ipv4HdrSize buf.content) free = some (err, kept, free)) :
    udpIn layer buf src dest =
      match udpFind layer.socks src (udpField (udpBytes buf.content) 0) dest
          (udpDestPort buf.content) with
      | none => some (.unreach, none,
          { layer with mem := { layer.mem with blockList := free } })
      | some udp =>
          (udpVerify kept src dest).bind fun (sum, buf') =>
            if sum ≠ 0 then
              some (.checksum, none, { layer with mem := { layer.mem with blockList := free } })
            else
              (udpSetFrom buf' src (udpField (udpBytes buf.content) 0) free).bind
                fun (buf, free) =>
                  let (placed, layer) := SockLayer.append
                    { layer with mem := { layer.mem with blockList := free } } udp buf
                  some (.ok, placed, layer) := by
  obtain ⟨byte, byteEq, byteSize⟩ := handed.firstByte
  have accepted : ¬ NetErr.ok.isError = true := Bool.false_ne_true
  have portEq (i : Nat) (inside : i + 2 ≤ udpHdrLen) :
      udpField (((buf.content.drop (ipv4HdrSize buf.content))).take udpHdrLen) i =
        udpField (udpBytes buf.content) i := udpField_take inside
  simp only [udpIn, byteEq, byteSize nonempty, contEq, hdrEq, Option.bind_eq_bind,
    Option.bind_some, if_neg accepted, portEq 0 (by decide), portEq 2 (by decide), udpDestPort]
  cases udpFind layer.socks src (udpField (udpBytes buf.content) 0) dest
      (udpField (udpBytes buf.content) 2) with
  | none => rfl
  | some udp => simp only [keptEq, Option.bind_some]

theorem udpIn_cases (handed : HandedUp buf) :
    (∃ err mem, udpIn layer buf src dest = some (err, none, { layer with mem }) ∧
      ∀ block, ¬ Taken layer buf src dest block) ∨
    ∃ block ready data size free, ready.WellFormed ∧ (blkIds ready.blkList).Nodup ∧
      ready.content = udpBytes buf.content ∧ ready.Starts data size ∧ (udpHdrLen : Int) ≤ size ∧
      (HeadRoom buf ↔ udpFromLen - udpHdrLen ≤ data) ∧
      ((layer.recvList block).length < maxRecv → Taken layer buf src dest block) ∧
      (∀ other, Taken layer buf src dest other → other = block) ∧
      udpFind layer.socks src (udpField (udpBytes buf.content) 0) dest
        (udpDestPort buf.content) = some block ∧
      udpIn layer buf src dest =
        (udpSetFrom ready src (udpField (udpBytes buf.content) 0) free).map fun (buf, free) =>
          let (placed, layer) :=
            SockLayer.append { layer with mem := { layer.mem with blockList := free } } block buf
          (.ok, placed, layer) := by
  have eight : ((udpHdrLen : Nat) : Int) = 8 := rfl
  by_cases fits : buf.content ≠ [] ∧ udpHdrLen + ipv4HdrSize buf.content ≤ buf.content.length ∧
      ((udpHdrLen + ipv4HdrSize buf.content : Nat) : Int) ≤ pktbufBlkSize
  case neg =>
    refine .inl ⟨.size, layer.mem, udpIn_refused handed fits, fun block taken =>
      fits ⟨?_, taken.inPacket, taken.inBlock⟩⟩
    intro empty
    have long := taken.inPacket
    rw [empty, List.length_nil] at long
    omega
  case pos =>
    obtain ⟨nonempty, inPacket, inBlock⟩ := fits
    obtain ⟨cont, free, data, size, contEq, made⟩ :=
      @HandedUp.setCont buf _ layer.mem.blockList handed nonempty inPacket inBlock
    have contStarts := made.starts
    have contLong := made.long
    have hdrEq := @dataAt_eq cont data size (ipv4HdrSize buf.content) udpHdrLen
      made.wellFormed.windows contStarts (by omega) (by decide) (by omega)
    rw [made.content, Int.toNat_natCast, Int.toNat_natCast] at hdrEq
    obtain ⟨kept, keptEq, keptStarts, keptIds, -, keptFilled⟩ :=
      @pktbufRemoveHeader_first cont data size (ipv4HdrSize buf.content) free contStarts (by omega)
    obtain ⟨stripped, left, strippedEq, strippedReshaped, -, content, -⟩ :=
      @pktbufRemoveHeader_spec cont free (ipv4HdrSize buf.content) made.wellFormed (by omega)
        (by rw [made.total]; omega)
    rw [keptEq] at strippedEq
    cases strippedEq
    rw [made.content, Int.toNat_natCast] at content
    have distinct : (blkIds kept.blkList).Nodup := by
      rw [keptIds]
      exact made.distinct
    obtain ⟨sum, ready, verifyEq, layout, readyContent, verifies⟩ :=
      udpVerify_eq src dest strippedReshaped.wellFormed distinct (keptFilled made.filled)
        (by
          have short := handed.short
          rw [content, List.length_drop]
          omega) keptStarts (by omega)
    rw [content] at readyContent verifies
    have room := headRoom_iff handed.wellFormed.windows contStarts contLong made.moved
    have findEq := @udpIn_search layer buf src dest cont kept free _ handed nonempty contEq hdrEq
      keptEq
    cases found : udpFind layer.socks src (udpField (udpBytes buf.content) 0) dest
        (udpDestPort buf.content) with
    | none =>
        refine .inl ⟨.unreach, { layer.mem with blockList := free }, ?_, fun block taken => ?_⟩
        · rw [findEq, found]
        · have foundBlock := taken.found
          rw [found] at foundBlock
          cases foundBlock
    | some block =>
        have only (other : Nat) (taken : Taken layer buf src dest other) : other = block := by
          have foundOther := taken.found
          rw [found] at foundOther
          exact (Option.some.inj foundOther).symm
        simp only [found, verifyEq, Option.bind_some] at findEq
        by_cases wrong : sum = 0
        · refine .inr ⟨block, ready, _, _, free, layout.wellFormed strippedReshaped.wellFormed,
            ?_, readyContent, layout.starts keptStarts, by omega, room, ?_, only, rfl, ?_⟩
          · rw [blkIds_of_frames layout.frames]
            exact distinct
          · exact fun hasRoom => ⟨inBlock, inPacket, found, verifies.mp wrong, hasRoom⟩
          · rw [findEq]
            simp only [wrong, ne_eq, not_true_eq_false, if_false]
            cases udpSetFrom ready src (udpField (udpBytes buf.content) 0) free <;> rfl
        · refine .inl ⟨.checksum, { layer.mem with blockList := free }, ?_, fun other taken => ?_⟩
          · rw [findEq]
            exact if_pos wrong
          · exact wrong (verifies.mpr taken.verifies)

theorem udpFind_port {socks : SockPool} {srcIp destIp : IpAddr} {srcPort destPort : UInt16}
    (found : udpFind socks srcIp srcPort destIp destPort = some block) (nonzero : destPort ≠ 0) :
    (socks.sock block).localPort = destPort := by
  have accepted := List.find?_some found
  simp only [Bool.not_eq_true', decide_eq_false_iff_not, not_or, not_and, not_not] at accepted
  exact accepted.2.1 nonzero

theorem udpIn_holds (handed : HandedUp buf) (taken : Taken layer buf src dest block)
    (hasRoom : HeadRoom buf) :
    ∃ after queued, udpIn layer buf src dest = some (.ok, some block, after) ∧
      after.recvList = Function.update layer.recvList block (layer.recvList block ++ [queued]) ∧
      Holds queued ⟨src, (field16 (udpBytes buf.content) 0).toUInt16,
        (udpBytes buf.content).drop udpHdrLen⟩ := by
  rcases @udpIn_cases layer buf src dest handed with
    ⟨err, mem, -, notTaken⟩ |
    ⟨other, ready, data, size, free, holds, distinct, content, starts, long, room, -, only,
      found, inEq⟩
  · exact absurd taken (notTaken block)
  obtain rfl := only block taken
  have short : ready.content.length ≤ 65535 := by
    have packet := handed.short
    rw [content, udpBytes, List.length_drop]
    omega
  obtain ⟨entry, entryEq⟩ : ∃ entry : UdpEntry, (⟨src,
      (field16 (udpBytes buf.content) 0).toUInt16, (udpBytes buf.content).drop udpHdrLen⟩ :
        UdpEntry) = entry := ⟨_, rfl⟩
  have payload : entry.payload = ready.content.drop udpHdrLen := by
    rw [← entryEq, content]
  obtain ⟨queued, left, setEq, held⟩ :=
    @udpSetFrom_holds ready data size free entry holds distinct short starts long
      (room.mp hasRoom) payload
  obtain ⟨after, appendEq, afterList⟩ := @SockLayer.append_room
    { layer with mem := { layer.mem with blockList := left } } block queued taken.room
  rw [← entryEq] at setEq held
  refine ⟨after, queued, ?_, afterList, held⟩
  rw [inEq]
  refine (congrArg _ setEq).trans ?_
  simp only [Option.map_some, appendEq]

theorem arrivesRight_iff (handed : HandedUp buf) :
    ArrivesRight layer buf src dest ↔ ArrivalSound layer buf src dest := by
  rcases @udpIn_cases layer buf src dest handed with
    ⟨err, mem, -, notTaken⟩ |
    ⟨block, ready, data, size, free, holds, distinct, content, starts, long, room, -, only,
      found, inEq⟩
  · exact ⟨fun _ block taken => absurd taken (notTaken block),
      fun _ block taken => absurd taken (notTaken block)⟩
  have short : ready.content.length ≤ 65535 := by
    have packet := handed.short
    rw [content, udpBytes, List.length_drop]
    omega
  -- The datagram that is queued when there is head room.
  obtain ⟨entry, entryEq⟩ : ∃ entry : UdpEntry, (⟨src,
      (field16 (udpBytes buf.content) 0).toUInt16, (udpBytes buf.content).drop udpHdrLen⟩ :
        UdpEntry) = entry := ⟨_, rfl⟩
  have setFrom (enough : udpFromLen - udpHdrLen ≤ data) :
      ∃ queued left, udpSetFrom ready src (udpField (udpBytes buf.content) 0) free =
        some (queued, left) ∧ Holds queued entry := by
    have payload : entry.payload = ready.content.drop udpHdrLen := by
      rw [← entryEq, content]
    obtain ⟨queued, left, setEq, queuedHolds⟩ :=
      @udpSetFrom_holds ready data size free entry holds distinct short starts long enough payload
    refine ⟨queued, left, ?_, queuedHolds⟩
    rw [← entryEq] at setEq
    exact setEq
  constructor
  · intro right other taken
    obtain rfl := only other taken
    obtain ⟨after, queued, sent, ran, appended, port, sentIn, held⟩ := right other taken
    rw [inEq] at ran
    obtain ⟨⟨placed, left⟩, setEq, result⟩ := Option.map_eq_some_iff.mp ran
    obtain ⟨next, appendEq, nextList⟩ := @SockLayer.append_room
      { layer with mem := { layer.mem with blockList := left } } other placed taken.room
    simp only [appendEq] at result
    cases result
    have same : placed = queued := by
      have lists := congrFun (nextList.symm.trans appended) other
      rw [Function.update_self, Function.update_self] at lists
      exact List.singleton_inj.mp (List.append_cancel_left lists)
    subst same
    have enough : udpFromLen - udpHdrLen ≤ data := by
      by_contra noRoom
      exact udpSetFrom_outside starts long (Int.not_le.mp noRoom) setEq held.datagram.wellFormed
    refine ⟨room.mpr enough, fun zero => by rw [port, zero], ?_⟩
    obtain ⟨again, left', againEq, againHeld⟩ := setFrom enough
    rw [setEq] at againEq
    cases againEq
    have payloads := againHeld.payload.symm.trans (held.payload.trans sentIn.payload)
    rw [← entryEq] at payloads
    have lengths := congrArg List.length payloads
    have hasHeader := sentIn.hasHeader
    have inPacket := sentIn.inPacket
    simp only [List.length_drop, List.length_take] at lengths
    omega
  · intro sound other taken
    obtain ⟨hasRoom, portZero, length⟩ := sound other taken
    obtain ⟨after, queued, ran, afterList, held⟩ := udpIn_holds handed taken hasRoom
    rw [entryEq] at held
    obtain rfl := only other taken
    refine ⟨after, queued, entry, ran, afterList, ?_, ?_, held⟩
    · by_cases zero : udpDestPort buf.content = 0
      · rw [portZero zero, zero]
      · exact udpFind_port found zero
    · have inPacket := taken.inPacket
      rw [← entryEq]
      refine ⟨rfl, rfl, ?_, Nat.le_of_eq length, ?_⟩
      · rw [length, udpBytes, List.length_drop]
        omega
      · rw [length, List.take_length]

end Arrival

/-- The datagrams of the mailboxes are queued in their order, every window in its payload. -/
def Mirrors (layer : SockLayer) (mail : Nat → List UdpEntry) : Prop :=
  ∀ block, List.Forall₂ Holds (layer.recvList block) (mail block)

/-- What an event does to the mailboxes, and its answer: a packet that is let through is the
last datagram at a socket of its port, and a reader is given the first one, with its sender
and as many of its bytes as there is room for. -/
inductive MailStep (layer : SockLayer) (mail : Nat → List UdpEntry) :
    UdpEvent → UdpAnswer → (Nat → List UdpEntry) → Prop where
  | dropped {buf : Pktbuf} {src dest : IpAddr} {err : NetErr} :
      (∀ block, ¬ Taken layer buf src dest block) →
      MailStep layer mail (.arrive buf src dest) (.input err none) mail
  | queued {buf : Pktbuf} {src dest : IpAddr} {block : Nat} {entry : UdpEntry} :
      Taken layer buf src dest block →
      (layer.socks.sock block).localPort = udpDestPort buf.content →
      SentIn buf.content src entry →
      MailStep layer mail (.arrive buf src dest) (.input .ok (some block))
        (Function.update mail block (mail block ++ [entry]))
  | waits {block : Nat} {len : UInt32} :
      mail block = [] →
      MailStep layer mail (.receive block len) (.output ⟨.needWait, 0, none, []⟩) mail
  | received {block : Nat} {len : UInt32} {entry : UdpEntry} {rest : List UdpEntry} :
      mail block = entry :: rest →
      MailStep layer mail (.receive block len)
        (.output ⟨.ok, (min len.toNat entry.payload.length : Nat),
          some ⟨entry.srcPort, entry.src⟩, entry.payload.take len.toNat⟩)
        (Function.update mail block rest)
  | closed {block : Nat} :
      MailStep layer mail (.close block) .done (Function.update mail block [])
  | other {socks : SockPool} {mem : PktMem} :
      MailStep layer mail (.other socks mem) .done mail

def Due (layer : SockLayer) : UdpEvent → Prop
  | .arrive buf src dest => ∃ block, Taken layer buf src dest block
  | _ => True

/-- The sockets are mailboxes: in every state they mirror them, and every event that is due is
answered as the mailboxes answer it. -/
def Delivers : (Nat → List UdpEntry) → SockLayer → List UdpEvent → Prop
  | mail, layer, [] => Mirrors layer mail
  | mail, layer, event :: events =>
      Mirrors layer mail ∧ (Due layer event → (udpCall layer event).isSome) ∧
        ∀ answer after, udpCall layer event = some (answer, after) →
          ∃ mail', MailStep layer mail event answer mail' ∧ Delivers mail' after events

/-- A packet comes from `ipv4_in` and is sound, and a length is not negative as an `int`. -/
def EventSound (layer : SockLayer) : UdpEvent → Prop
  | .arrive buf src dest => HandedUp buf ∧ ArrivalSound layer buf src dest
  | .receive _ len => len.toNat < 2 ^ 31
  | _ => True

section Mailboxes

variable {layer after : SockLayer} {mail : Nat → List UdpEntry} {sock : SockRecv}
variable {queued : Pktbuf} {entry : UdpEntry} {rest : List Pktbuf} {len : UInt32}

theorem field16_bytes16 (value : UInt16) : (field16 (bytes16 value.toNat) 0).toUInt16 = value := by
  have inWord := value.toNat_lt
  apply UInt16.toNat_inj.mp
  simp [field16, bytes16]
  omega

def ReadsRight (sock : SockRecv) (entry : UdpEntry) (rest : List Pktbuf) (len : UInt32) : Prop :=
  ∃ mem, udpReceiveFrom sock true len true 0 =
    some (⟨.ok, (min len.toNat entry.payload.length : Nat), some ⟨entry.srcPort, entry.src⟩,
      entry.payload.take len.toNat⟩, { sock with recvList := rest, mem })

theorem Holds.readsRight_iff (list : sock.recvList = queued :: rest) (held : Holds queued entry) :
    ReadsRight sock entry rest len ↔ len.toNat < 2 ^ 31 := by
  obtain ⟨mem, readEq⟩ :=
    @udpReceiveFrom_eq sock queued rest len 0 _ _ list held.datagram held.port held.addr
  rw [held.payload, field16_bytes16, swapU16_swapU16] at readEq
  have addr := ipAddrFromBuf_toBuf entry.src []
  rw [List.append_nil] at addr
  rw [addr] at readEq
  constructor
  · rintro ⟨mem', right⟩
    by_contra large
    have negative := asInt_large (Nat.not_lt.mp large)
    rw [readEq] at right
    simp only [Option.some.injEq, Prod.mk.injEq, Received.mk.injEq] at right
    omega
  · intro small
    have sizeEq : min (asInt len) (entry.payload.length : Int) =
        (min len.toNat entry.payload.length : Nat) := by
      rw [asInt_small small]
      omega
    rw [sizeEq, Int.toNat_natCast, ← List.take_eq_take_min] at readEq
    exact ⟨mem, readEq⟩

theorem Mirrors.update {block : Nat} {packets : List Pktbuf} {entries : List UdpEntry}
    (mirrors : Mirrors layer mail) (lists : after.recvList =
      Function.update layer.recvList block packets) (held : List.Forall₂ Holds packets entries) :
    Mirrors after (Function.update mail block entries) := by
  intro other
  rw [lists]
  by_cases same : other = block
  · subst same
    rw [Function.update_self, Function.update_self]
    exact held
  · rw [Function.update_of_ne same, Function.update_of_ne same]
    exact mirrors other

theorem Mirrors.arrive {buf : Pktbuf} {src dest : IpAddr} (mirrors : Mirrors layer mail)
    (handed : HandedUp buf) (sound : ArrivalSound layer buf src dest) {answer : UdpAnswer}
    (called : udpCall layer (.arrive buf src dest) = some (answer, after)) :
    ∃ mail', MailStep layer mail (.arrive buf src dest) answer mail' ∧ Mirrors after mail' := by
  obtain ⟨⟨err, placed, layer'⟩, inEq, pairEq⟩ := Option.bind_eq_some_iff.mp called
  cases pairEq
  by_cases isTaken : ∃ block, Taken layer buf src dest block
  · obtain ⟨block, taken⟩ := isTaken
    obtain ⟨last, queued, entry, ranEq, lists, port, sent, held⟩ :=
      (arrivesRight_iff handed).mpr sound block taken
    rw [ranEq] at inEq
    cases inEq
    refine ⟨_, .queued taken port sent, mirrors.update lists ?_⟩
    exact List.rel_append (mirrors block) (.cons held .nil)
  · have notTaken (block : Nat) (taken : Taken layer buf src dest block) : False :=
      isTaken ⟨block, taken⟩
    rcases @udpIn_cases layer buf src dest handed with
      ⟨err', mem, ranEq, -⟩ |
      ⟨block, ready, data, size, free, -, -, -, -, -, -, allTaken, -, -, ranEq⟩
    · rw [ranEq] at inEq
      cases inEq
      exact ⟨mail, .dropped notTaken, mirrors⟩
    · rw [ranEq] at inEq
      obtain ⟨⟨queued, left⟩, -, result⟩ := Option.map_eq_some_iff.mp inEq
      have full : ¬ (layer.recvList block).length < maxRecv :=
        fun room => notTaken block (allTaken room)
      simp only [SockLayer.append, if_neg full] at result
      cases result
      exact ⟨mail, .dropped notTaken, mirrors⟩

theorem Mirrors.receive (mirrors : Mirrors layer mail) (block : Nat) (small : len.toNat < 2 ^ 31) :
    ∃ answer after mail', udpCall layer (.receive block len) = some (answer, after) ∧
      MailStep layer mail (.receive block len) answer mail' ∧ Mirrors after mail' := by
  have held := mirrors block
  cases lists : layer.recvList block with
  | nil =>
      rw [lists] at held
      have empty : mail block = [] := List.forall₂_nil_left_iff.mp held
      have readEq : udpReceiveFrom (layer.sock block) true len true 0 =
          some (⟨.needWait, 0, none, []⟩, layer.sock block) := by
        simp only [udpReceiveFrom, SockLayer.sock, lists]
      refine ⟨_, _, mail, by rw [udpCall, readEq]; rfl, .waits empty, ?_⟩
      intro other
      change List.Forall₂ Holds (Function.update layer.recvList block (layer.recvList block) other)
        (mail other)
      rw [Function.update_eq_self]
      exact mirrors other
  | cons queued rest =>
      rw [lists] at held
      obtain ⟨entry, entries, entryHeld, restHeld, mailEq⟩ := List.forall₂_cons_left_iff.mp held
      obtain ⟨mem, readEq⟩ :=
        (@Holds.readsRight_iff (layer.sock block) queued entry rest len lists entryHeld).mpr small
      exact ⟨_, _, _, by rw [udpCall, readEq]; rfl, .received mailEq, mirrors.update rfl restHeld⟩

theorem Mirrors.step {event : UdpEvent} (mirrors : Mirrors layer mail)
    (sound : EventSound layer event) :
    (Due layer event → (udpCall layer event).isSome) ∧
      ∀ answer after, udpCall layer event = some (answer, after) →
        ∃ mail', MailStep layer mail event answer mail' ∧ Mirrors after mail' := by
  cases event with
  | arrive buf src dest =>
      obtain ⟨handed, arrivalSound⟩ := sound
      refine ⟨?_, fun answer after called => mirrors.arrive handed arrivalSound called⟩
      rintro ⟨block, taken⟩
      obtain ⟨last, queued, entry, ranEq, -⟩ :=
        (arrivesRight_iff handed).mpr arrivalSound block taken
      rw [udpCall, ranEq]
      rfl
  | receive block len =>
      obtain ⟨answer, last, mail', ranEq, stepped, mirrors'⟩ := mirrors.receive block sound
      rw [ranEq]
      refine ⟨fun _ => rfl, fun answer' after called => ?_⟩
      cases called
      exact ⟨mail', stepped, mirrors'⟩
  | close block =>
      refine ⟨fun _ => rfl, fun answer after called => ?_⟩
      cases called
      exact ⟨_, .closed, mirrors.update rfl .nil⟩
  | other socks mem =>
      refine ⟨fun _ => rfl, fun answer after called => ?_⟩
      cases called
      exact ⟨_, .other, mirrors⟩

theorem Mirrors.delivers (events : List UdpEvent) (mirrors : Mirrors layer mail)
    (guarded : AllGuarded udpCall EventSound layer events) : Delivers mail layer events := by
  induction events generalizing layer mail with
  | nil => exact mirrors
  | cons event events ih =>
      obtain ⟨sound, later⟩ := guarded
      obtain ⟨answered, kept⟩ := mirrors.step sound
      refine ⟨mirrors, answered, fun answer after called => ?_⟩
      obtain ⟨mail', stepped, mirrors'⟩ := kept answer after called
      exact ⟨mail', stepped, ih mirrors' (later answer after called)⟩

end Mailboxes

def sampleLayer : SockLayer where
  socks :=
    { free := []
      opened := [0]
      sock := fun _ => { Sock.sockInit 0 17 with localPort := 53 } }
  recvList := fun _ => []
  recvWait := fun _ => .sockWaitInit .ok
  mem := ⟨[], 0⟩

/-- A packet of four bytes to a port, as `ipv4_in` hands it over. -/
def sampleDatagram (port : UInt8) : Pktbuf where
  totalSize := 32
  blkList := [{
    id := 0
    size := 32
    data := 14
    payload := fun i => [0x45, 0, 32, 0, 1, 0, 0, 0, 64, 17, 0, 0, 10, 0, 0, 2, 10, 0, 0, 1,
      0x12, 0x34, 0, port, 0, 12, 0, 0, 7, 8, 9, 10].getD (i - 14) 0 }]
  ref := 1
  pos := 0
  currBlk := none
  blkOffset := 0

theorem sampleDatagram_handedUp {port : UInt8} : HandedUp (sampleDatagram port) where
  wellFormed := ⟨rfl, windows_cons.mpr ⟨⟨(by decide : (0 : Int) ≤ 14),
    (by decide : (0 : Int) ≤ 32), (by decide : (14 : Int) + 32 ≤ pktbufBlkSize)⟩, windows_nil⟩⟩
  distinct := List.nodup_singleton 0
  filled := fun _ blk member => by
    rw [List.mem_singleton.mp member]
    exact (by decide : (0 : Int) < 32)
  header := ⟨_, [], rfl, (by decide : (14 : Int) + (ipv4HdrLen : Int) ≤ pktbufBlkSize)⟩
  short := by simp [Pktbuf.content, sampleDatagram]

end CleanOS.Net
