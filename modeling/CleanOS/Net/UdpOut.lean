import CleanOS.Net.UdpDelivery

/-!
# Sending UDP datagrams

`udp_out`, which puts a header into bytes of the packet pool and sums up the datagram with what
these bytes held before.
-/

namespace CleanOS.Net

open CleanOS.Lib

/-- What `udp_out` hands to `ipv4_out`, or the error that it returns before. -/
inductive UdpSent where
  | refused (err : NetErr) (free : List Pktblk)
  | handed (src : IpAddr) (buf : Pktbuf) (free : List Pktblk)

/-- The fields that `udp_out` writes into the header, in their order. -/
def udpSetHdr (src dest : IpAddr) (sport dport : UInt16) (buf : Pktbuf) : Option Pktbuf := do
  let buf ← setDataAt buf 0 (bytes16 (swapU16 sport).toNat)
  let buf ← setDataAt buf 2 (bytes16 (swapU16 dport).toNat)
  let buf ← setDataAt buf 4 (bytes16 (swapU16 (buf.totalSize % 2 ^ 16).toNat.toUInt16).toNat)
  let (sum, buf) ← checksumPeso src dest protocolUdp buf
  setDataAt buf 6 (bytes16 sum)

/-- The source address that `udp_out` sends with: its own one, or that of the interface. -/
def sourceOf (table : List IpRouteEntry) (dest src : IpAddr) : Option IpAddr :=
  if src = 0 then (routeFind dest table).map fun entry => entry.netif.ipAddr else some src

/-- `udp_out` up to the call of `ipv4_out`. -/
def udpHandOver (table : List IpRouteEntry) (dest : IpAddr) (dport : UInt16) (src : IpAddr)
    (sport : UInt16) (buf : Pktbuf) (free : List Pktblk) : Option UdpSent :=
  match sourceOf table dest src with
  | none => some (.refused .unreach free)
  | some src => do
      let (err, buf, free) ← pktbufAddHeader buf udpHdrLen true free
      if err.isError then some (.refused .size free)
      else
        let buf ← udpSetHdr src dest sport dport buf
        some (.handed src buf free)

/-- `udp_out`. -/
def udpOut (netifOut : NetifOut) (table : List IpRouteEntry) (dest : IpAddr) (dport : UInt16)
    (src : IpAddr) (sport : UInt16) (out : IpOut) (buf : Pktbuf) :
    Option (NetErr × IpOut × List Pktbuf) := do
  match ← udpHandOver table dest dport src sport buf out.mem.blockList with
  | .refused err free =>
      some (err, { out with mem := { out.mem with blockList := free } }, [])
  | .handed src buf free =>
      let out := { out with mem := { out.mem with blockList := free } }
      let (err, out, emitted) ← ipv4Out netifOut table protocolUdp dest (some src) out buf
      some (if err.isError then err else .ok, out, emitted)

/-- A payload in blocks of the pool, none of which is empty. -/
structure PayloadIn (payload : List UInt8) (buf : Pktbuf) (free : List Pktblk) : Prop where
  wellFormed : buf.WellFormed
  content : buf.content = payload
  distinct : (blkIds free ++ blkIds buf.blkList).Nodup
  filled : buf.Filled

/-- A packet in blocks of its own, none of which is empty. -/
structure PacketOf (bytes : List UInt8) (buf : Pktbuf) : Prop where
  wellFormed : buf.WellFormed
  distinct : (blkIds buf.blkList).Nodup
  filled : buf.Filled
  content : buf.content = bytes

def OneWordChanged (bytes changed : List UInt8) : Prop :=
  changed.length = bytes.length ∧ ∃ i word, i < (leWords bytes).length ∧
    leWords changed = (leWords bytes).set i word ∧
    word % 65535 ≠ (leWords bytes).getD i 0 % 65535

/-- A datagram as it should be handed to `ipv4_out`: its length is that of header and payload,
the test of `udp_in` accepts it in whatever blocks it arrives, `udp_in` queues its port and
payload at the socket that it finds for its ports, and the test fails if one word is changed. -/
structure DatagramRight (src dest : IpAddr) (sport dport : UInt16) (payload bytes : List UInt8) :
    Prop where
  length : (udpField bytes 4).toNat = payload.length + udpHdrLen
  accepted : ∀ buf, PacketOf bytes buf → (∃ data size, buf.Starts data size ∧ udpHdrLen ≤ size) →
    ∃ after, udpVerify buf src dest = some (0, after)
  extracted : ∀ layer buf iphdr block, HandedUp buf → buf.content = iphdr ++ bytes →
    iphdr.length = ipv4HdrLen → ipv4HdrSize buf.content = ipv4HdrLen →
    udpFind layer.socks src sport dest dport = some block →
    (layer.recvList block).length < maxRecv →
    ∃ after queued, udpIn layer buf src dest = some (.ok, some block, after) ∧
      after.recvList = Function.update layer.recvList block (layer.recvList block ++ [queued]) ∧
      Holds queued ⟨src, swapU16 sport, payload⟩
  detects : ∀ changed, OneWordChanged bytes changed → ∀ buf, PacketOf changed buf →
    ∃ sum after, checksumPeso dest src protocolUdp buf = some (sum, after) ∧ sum ≠ 0

/-- `udp_out` reads and writes nothing outside of its packet, and what it hands over is right. -/
def SendsRight (table : List IpRouteEntry) (dest : IpAddr) (dport : UInt16) (src : IpAddr)
    (sport : UInt16) (payload : List UInt8) (buf : Pktbuf) (free : List Pktblk) : Prop :=
  ∃ sent, udpHandOver table dest dport src sport buf free = some sent ∧
    ∀ src' buf' free', sent = .handed src' buf' free' →
      DatagramRight src' dest sport dport payload buf'.content

/-- There is no source address; or the packet has a block and, if there is room for a header,
the datagram is short enough for its length field, and the bytes that the checksum is written to
hold 0 or 65535. -/
def SendCond (table : List IpRouteEntry) (dest src : IpAddr) (payload : List UInt8)
    (buf : Pktbuf) (free : List Pktblk) : Prop :=
  sourceOf table dest src = none ∨ buf.blkList ≠ [] ∧
    ∀ header, headerBytes buf free udpHdrLen = some header →
      payload.length + udpHdrLen < 2 ^ 16 ∧
        (field16 header 6 = 0 ∨ field16 header 6 = 65535)

section Sum

variable {bytes changed payload header : List UInt8} {src dest : IpAddr}

theorem onesNorm_eq_top {n : Nat} : onesNorm 65535 n = 65535 ↔ n % 65535 = 0 ∧ n ≠ 0 := by
  unfold onesNorm
  split <;> omega

def pseudoSum (src dest : IpAddr) (length : Nat) : Nat :=
  wordSum (ipAddrToBuf src) + wordSum (ipAddrToBuf dest) + wordSum [0, protocolUdp] +
    (swapU16 length.toUInt16).toNat

theorem wordSum_pseudoPacket :
    wordSum (pseudoPacket src dest protocolUdp bytes) =
      pseudoSum src dest bytes.length + wordSum bytes := by
  have evenAddr (ip : IpAddr) : (ipAddrToBuf ip).length % 2 = 0 := by
    rw [length_ipAddrToBuf]
  have evenWord (value : Nat) : (bytes16 value).length % 2 = 0 := by
    rw [length_bytes16]
  rw [pseudoPacket, wordSum_append (evenAddr src), wordSum_append (evenAddr dest),
    wordSum_append (by rfl), wordSum_append (evenWord _),
    wordSum_bytes16 (swapU16 _).toNat_lt, pseudoSum]
  omega

theorem pseudoSum_pos {length : Nat} : 0 < pseudoSum src dest length := by
  have protocol : 0 < wordSum [0, protocolUdp] := by
    decide
  rw [pseudoSum]
  omega

theorem pseudoSum_comm {length : Nat} : pseudoSum dest src length = pseudoSum src dest length := by
  rw [pseudoSum, pseudoSum, Nat.add_comm (wordSum (ipAddrToBuf dest))]

theorem rfc1071_pseudoPacket :
    rfc1071 0 (pseudoPacket src dest protocolUdp bytes) true =
      65535 - onesNorm 65535 (pseudoSum src dest bytes.length + wordSum bytes) := by
  rw [rfc1071, if_pos rfl, onesSum_eq (Nat.zero_le _), Nat.zero_add, wordSum_pseudoPacket]

theorem peso_zero_iff :
    rfc1071 0 (pseudoPacket src dest protocolUdp bytes) true = 0 ↔
      (pseudoSum src dest bytes.length + wordSum bytes) % 65535 = 0 := by
  have least := @pseudoSum_pos src dest bytes.length
  have most := @onesNorm_le 65535 (pseudoSum src dest bytes.length + wordSum bytes) (by decide)
  have top := @onesNorm_eq_top (pseudoSum src dest bytes.length + wordSum bytes)
  rw [rfc1071_pseudoPacket]
  omega

theorem sum_set {words : List Nat} {i word : Nat} (inside : i < words.length) :
    (words.set i word).sum + words.getD i 0 = words.sum + word := by
  induction words generalizing i with
  | nil => exact absurd inside (Nat.not_lt_zero i)
  | cons first rest ih =>
      cases i with
      | zero =>
          rw [List.set_cons_zero, List.sum_cons, List.sum_cons, List.getD_cons_zero]
          omega
      | succ i =>
          have more := ih (Nat.lt_of_succ_lt_succ inside)
          rw [List.set_cons_succ, List.sum_cons, List.sum_cons, List.getD_cons_succ]
          omega

/-- The header and payload that `udp_out` hands over. -/
def datagram (sport dport : UInt16) (sum : Nat) (payload : List UInt8) : List UInt8 :=
  bytes16 (swapU16 sport).toNat ++ (bytes16 (swapU16 dport).toNat ++
    (bytes16 (swapU16 (payload.length + udpHdrLen).toUInt16).toNat ++ (bytes16 sum ++ payload)))

theorem length_datagram {sport dport : UInt16} {sum : Nat} :
    (datagram sport dport sum payload).length = payload.length + udpHdrLen := by
  simp only [datagram, List.length_append, length_bytes16, udpHdrLen]
  omega

theorem wordSum_datagram {sport dport : UInt16} {sum : Nat} (small : sum < 65536) :
    wordSum (datagram sport dport sum payload) =
      (swapU16 sport).toNat + (swapU16 dport).toNat +
        (swapU16 (payload.length + udpHdrLen).toUInt16).toNat + sum + wordSum payload := by
  have even (value : Nat) : (bytes16 value).length % 2 = 0 := by
    rw [length_bytes16]
  rw [datagram, wordSum_append (even _), wordSum_append (even _), wordSum_append (even _),
    wordSum_append (even _), wordSum_bytes16 (swapU16 _).toNat_lt,
    wordSum_bytes16 (swapU16 _).toNat_lt,
    wordSum_bytes16 (swapU16 _).toNat_lt, wordSum_bytes16 small]
  omega

theorem peso_datagram {sport dport : UInt16} {old sum : Nat} (small : old < 65536)
    (isSum : sum = rfc1071 0
      (pseudoPacket src dest protocolUdp (datagram sport dport old payload)) true) :
    sum < 65536 ∧ ((pseudoSum dest src (payload.length + udpHdrLen) +
      wordSum (datagram sport dport sum payload) + old) % 65535 = 0) := by
  rw [rfc1071_pseudoPacket, length_datagram, wordSum_datagram small] at isSum
  have most := @onesNorm_le 65535 (pseudoSum src dest (payload.length + udpHdrLen) +
    ((swapU16 sport).toNat + (swapU16 dport).toNat +
      (swapU16 (payload.length + udpHdrLen).toUInt16).toNat + old + wordSum payload)) (by decide)
  have congruent := @onesNorm_modEq 65535 (pseudoSum src dest (payload.length + udpHdrLen) +
    ((swapU16 sport).toNat + (swapU16 dport).toNat +
      (swapU16 (payload.length + udpHdrLen).toUInt16).toNat + old + wordSum payload))
  have below : sum < 65536 := by omega
  refine ⟨below, ?_⟩
  rw [wordSum_datagram below, pseudoSum_comm]
  unfold Nat.ModEq at congruent
  omega

end Sum

section Out

variable {buf : Pktbuf} {header payload : List UInt8} {src dest : IpAddr} {sport dport : UInt16}
  {data size : Int} {free : List Pktblk} {table : List IpRouteEntry}

theorem overwrite_between {front old new back : List UInt8} (same : new.length = old.length) :
    overwrite (front ++ (old ++ back)) front.length new = front ++ (new ++ back) := by
  rw [overwrite, List.take_left, same, ← List.length_append, ← List.append_assoc front old,
    List.drop_left]

theorem bytes16_field16 {a b : UInt8} : bytes16 (field16 [a, b] 0) = [a, b] := by
  have below := a.toNat_lt
  have isLow : (a.toNat + 256 * b.toNat).toUInt8 = a := by
    apply UInt8.toNat_inj.mp
    simp only [Nat.toUInt8, UInt8.toNat_ofNat']
    omega
  have isHigh : ((a.toNat + 256 * b.toNat) / 256).toUInt8 = b := by
    have high := b.toNat_lt
    apply UInt8.toNat_inj.mp
    simp only [Nat.toUInt8, UInt8.toNat_ofNat']
    omega
  show [_, _] = _
  rw [field16]
  simp only [List.getD_cons_zero, List.getD_cons_succ, isLow, isHigh]

theorem setDataAt_between {front old new back : List UInt8} {offset : Int}
    (holds : buf.WellFormed) (starts : buf.Starts data size)
    (content : buf.content = front ++ (old ++ back)) (same : new.length = old.length)
    (isOffset : offset = front.length) (upper : offset + new.length ≤ size) :
    ∃ after, setDataAt buf offset new = some after ∧ SameLayout buf after ∧
      after.content = front ++ (new ++ back) := by
  obtain ⟨after, setEq, layout, written, -⟩ := @setDataAt_spec buf data size offset new
    holds.windows starts (by omega) upper
  refine ⟨after, setEq, layout, ?_⟩
  rw [written, content, isOffset, Int.toNat_natCast, overwrite_between same]

theorem udpSetHdr_spec (holds : buf.WellFormed) (distinct : (blkIds buf.blkList).Nodup)
    (filled : buf.Filled) (starts : buf.Starts data size) (long : (udpHdrLen : Int) ≤ size)
    (headerLength : header.length = udpHdrLen) (content : buf.content = header ++ payload)
    (short : payload.length + udpHdrLen < 2 ^ 16) :
    ∃ after, udpSetHdr src dest sport dport buf = some after ∧ SameLayout buf after ∧
      after.content = datagram sport dport (rfc1071 0 (pseudoPacket src dest protocolUdp
        (datagram sport dport (field16 header 6) payload)) true) payload := by
  have eight : ((udpHdrLen : Nat) : Int) = 8 := rfl
  have two (value : Nat) : ((bytes16 value).length : Int) = 2 := rfl
  have total := holds.length_content
  obtain ⟨h₀, h₁, h₂, h₃, h₄, h₅, h₆, h₇, rfl⟩ : ∃ h₀ h₁ h₂ h₃ h₄ h₅ h₆ h₇,
      header = [h₀, h₁, h₂, h₃, h₄, h₅, h₆, h₇] := by
    match header, headerLength with
    | [h₀, h₁, h₂, h₃, h₄, h₅, h₆, h₇], _ => exact ⟨h₀, h₁, h₂, h₃, h₄, h₅, h₆, h₇, rfl⟩
  obtain ⟨first, firstEq, firstLayout, firstContent⟩ :=
    @setDataAt_between buf data size [] [h₀, h₁] (bytes16 (swapU16 sport).toNat)
      ([h₂, h₃] ++ ([h₄, h₅] ++ ([h₆, h₇] ++ payload))) 0 holds starts content rfl rfl
      (by rw [two]; omega)
  have firstHolds := firstLayout.wellFormed holds
  obtain ⟨second, secondEq, secondLayout, secondContent⟩ :=
    @setDataAt_between first data size (bytes16 (swapU16 sport).toNat) [h₂, h₃]
      (bytes16 (swapU16 dport).toNat) ([h₄, h₅] ++ ([h₆, h₇] ++ payload)) 2 firstHolds
      (firstLayout.starts starts) firstContent rfl rfl (by rw [two]; omega)
  have secondHolds := secondLayout.wellFormed firstHolds
  have secondStarts := secondLayout.starts (firstLayout.starts starts)
  have lenEq : ((second.totalSize % 2 ^ 16).toNat).toUInt16 =
      (payload.length + udpHdrLen).toUInt16 := by
    have size := congrArg List.length content
    rw [List.length_append, headerLength] at size
    rw [secondLayout.total, firstLayout.total, ← total, size]
    congr 1
    omega
  rw [← List.append_assoc] at secondContent
  obtain ⟨third, thirdEq, thirdLayout, thirdContent⟩ :=
    @setDataAt_between second data size
      (bytes16 (swapU16 sport).toNat ++ bytes16 (swapU16 dport).toNat) [h₄, h₅]
      (bytes16 (swapU16 (payload.length + udpHdrLen).toUInt16).toNat) ([h₆, h₇] ++ payload) 4
      secondHolds secondStarts secondContent rfl rfl (by rw [two]; omega)
  have thirdHolds := thirdLayout.wellFormed secondHolds
  have thirdStarts := thirdLayout.starts secondStarts
  have layout := (firstLayout.trans secondLayout).trans thirdLayout
  have unsummed : third.content = datagram sport dport (field16 [h₆, h₇] 0) payload := by
    rw [thirdContent, datagram, bytes16_field16, List.append_assoc]
  have thirdIds : (blkIds third.blkList).Nodup := by
    rw [blkIds_of_frames layout.frames]
    exact distinct
  obtain ⟨summed, sumEq, sumLayout, sumContent⟩ := checksumPeso_eq src dest protocolUdp thirdHolds
    thirdIds (layout.filled filled) (by rw [unsummed, length_datagram]; omega)
  have summedContent : summed.content = bytes16 (swapU16 sport).toNat ++
      bytes16 (swapU16 dport).toNat ++
        bytes16 (swapU16 (payload.length + udpHdrLen).toUInt16).toNat ++ ([h₆, h₇] ++ payload) := by
    rw [sumContent, thirdContent, List.append_assoc (_ ++ _) (bytes16 _)]
  obtain ⟨after, afterEq, afterLayout, afterContent⟩ :=
    @setDataAt_between summed data size (bytes16 (swapU16 sport).toNat ++
      bytes16 (swapU16 dport).toNat ++
        bytes16 (swapU16 (payload.length + udpHdrLen).toUInt16).toNat) [h₆, h₇]
      (bytes16 (rfc1071 0 (pseudoPacket src dest protocolUdp third.content) true)) payload 6
      (sumLayout.wellFormed thirdHolds) (sumLayout.starts thirdStarts) summedContent rfl rfl
      (by rw [two]; omega)
  refine ⟨after, ?_, (layout.trans sumLayout).trans afterLayout, ?_⟩
  · simp only [udpSetHdr, firstEq, secondEq, lenEq, thirdEq, sumEq, afterEq, Option.bind_eq_bind,
      Option.bind_some]
  · rw [afterContent, unsummed, List.append_assoc, List.append_assoc]
    rfl

end Out

section Right

variable {src dest : IpAddr} {sport dport : UInt16} {payload bytes changed : List UInt8}
  {buf : Pktbuf} {sum : Nat}

theorem udpField_datagram :
    udpField (datagram sport dport sum payload) 0 = sport ∧
      udpField (datagram sport dport sum payload) 2 = dport ∧
      udpField (datagram sport dport sum payload) 4 = (payload.length + udpHdrLen).toUInt16 := by
  have read (v : UInt16) : swapU16 (field16 (bytes16 (swapU16 v).toNat) 0).toUInt16 = v := by
    rw [field16_bytes16, swapU16_swapU16]
  exact ⟨read sport, read dport, read _⟩

theorem changed_sum (sound : (pseudoSum dest src bytes.length + wordSum bytes) % 65535 = 0)
    (isChanged : OneWordChanged bytes changed) :
    (pseudoSum dest src changed.length + wordSum changed) % 65535 ≠ 0 := by
  obtain ⟨sameLength, i, word, inside, words, differs⟩ := isChanged
  have sums := @sum_set _ i word inside
  rw [← words] at sums
  rw [wordSum_eq_sum] at sound ⊢
  rw [sameLength]
  omega

theorem datagramRight (short : payload.length + udpHdrLen < 2 ^ 16)
    (sound : (pseudoSum dest src (payload.length + udpHdrLen) +
      wordSum (datagram sport dport sum payload)) % 65535 = 0) :
    DatagramRight src dest sport dport payload (datagram sport dport sum payload) := by
  have length := @length_datagram payload sport dport sum
  obtain ⟨sportEq, dportEq, lengthEq⟩ := @udpField_datagram sport dport payload sum
  rw [← length] at sound
  have verifies : rfc1071 0 (pseudoPacket dest src protocolUdp
      (datagram sport dport sum payload)) true = 0 :=
    peso_zero_iff.mpr sound
  constructor
  · rw [lengthEq]
    exact Nat.mod_eq_of_lt short
  · rintro buf ⟨holds, distinct, filled, content⟩ ⟨data, size, starts, long⟩
    obtain ⟨result, after, verifyEq, -, -, isZero⟩ := udpVerify_eq src dest holds distinct filled
      (by rw [content, length]; omega) starts long
    rw [content] at isZero
    refine ⟨after, ?_⟩
    rw [verifyEq, isZero.mpr fun _ => verifies]
  · intro layer buf iphdr block handed content hdrLength hdrSize found room
    have udp : udpBytes buf.content = datagram sport dport sum payload := by
      rw [udpBytes, hdrSize, content, ← hdrLength, List.drop_left]
    have taken : Taken layer buf src dest block := by
      refine ⟨?_, ?_, ?_, ?_, room⟩
      · rw [hdrSize]
        decide
      · rw [hdrSize, content, List.length_append, hdrLength, length]
        omega
      · rw [udpDestPort, udp, sportEq, dportEq]
        exact found
      · intro _
        rw [udp]
        exact verifies
    have hasRoom : HeadRoom buf := by
      apply Or.inl
      rw [hdrSize]
      decide
    obtain ⟨after, queued, ran, afterList, held⟩ := udpIn_holds handed taken hasRoom
    refine ⟨after, queued, ran, afterList, ?_⟩
    rw [udp] at held
    have port : (field16 (datagram sport dport sum payload) 0).toUInt16 = swapU16 sport :=
      field16_bytes16 (swapU16 sport)
    rw [port] at held
    exact held
  · rintro changed isChanged buf ⟨holds, distinct, filled, content⟩
    have sameLength := isChanged.left
    obtain ⟨after, pesoEq, -⟩ := checksumPeso_eq dest src protocolUdp holds distinct filled
      (by rw [content, sameLength, length]; omega)
    refine ⟨_, after, pesoEq, ?_⟩
    rw [content]
    exact fun zero => changed_sum sound isChanged (peso_zero_iff.mp zero)

theorem leWords_bytes16 {value : Nat} (small : value < 65536) :
    leWords (bytes16 value ++ bytes) = value :: leWords bytes := by
  have word : value.toUInt8.toNat + 256 * (value / 256).toUInt8.toNat = value := by
    simp only [Nat.toUInt8, UInt8.toNat_ofNat']
    omega
  show (_ + _) :: _ = _
  rw [word]
  rfl

theorem old_of_detects {data size : Int} {old : Nat}
    (detects : ∀ changed, OneWordChanged (datagram sport dport sum payload) changed → ∀ buf,
      PacketOf changed buf →
      ∃ sum after, checksumPeso dest src protocolUdp buf = some (sum, after) ∧ sum ≠ 0)
    (short : payload.length + udpHdrLen < 2 ^ 16)
    (packet : PacketOf (datagram sport dport sum payload) buf) (starts : buf.Starts data size)
    (long : (udpHdrLen : Int) ≤ size)
    (summed : (pseudoSum dest src (payload.length + udpHdrLen) +
      wordSum (datagram sport dport sum payload) + old) % 65535 = 0) : old % 65535 = 0 := by
  by_contra added
  obtain ⟨holds, distinct, filled, content⟩ := packet
  obtain ⟨rest, restEq⟩ : ∃ rest, bytes16 (swapU16 dport).toNat ++
    (bytes16 (swapU16 (payload.length + udpHdrLen).toUInt16).toNat ++ (bytes16 sum ++ payload)) =
      rest := ⟨_, rfl⟩
  have isDatagram : datagram sport dport sum payload = bytes16 (swapU16 sport).toNat ++ rest := by
    rw [datagram, restEq]
  have isWord : ((swapU16 sport).toNat + old) % 65535 < 65536 := by
    omega
  have oldWord := (swapU16 sport).toNat_lt
  have isChanged : OneWordChanged (datagram sport dport sum payload)
      (bytes16 (((swapU16 sport).toNat + old) % 65535) ++ rest) := by
    rw [isDatagram]
    refine ⟨rfl, 0, ((swapU16 sport).toNat + old) % 65535, ?_, ?_, ?_⟩
    · rw [leWords_bytes16 oldWord]
      exact Nat.succ_pos _
    · rw [leWords_bytes16 oldWord, leWords_bytes16 isWord, List.set_cons_zero]
    · rw [leWords_bytes16 oldWord, List.getD_cons_zero]
      omega
  rw [isDatagram] at content
  obtain ⟨after, -, layout, afterContent⟩ := @setDataAt_between buf data size []
    (bytes16 (swapU16 sport).toNat) (bytes16 (((swapU16 sport).toNat + old) % 65535)) rest 0 holds
    starts content rfl rfl (by
      have two : ((bytes16 (((swapU16 sport).toNat + old) % 65535)).length : Int) = 2 := rfl
      have eight : ((udpHdrLen : Nat) : Int) = 8 := rfl
      omega)
  have afterIds : (blkIds after.blkList).Nodup := by
    rw [blkIds_of_frames layout.frames]
    exact distinct
  have isPacket : PacketOf (bytes16 (((swapU16 sport).toNat + old) % 65535) ++ rest) after :=
    ⟨layout.wellFormed holds, afterIds, layout.filled filled, afterContent⟩
  obtain ⟨result, last, pesoEq, isWrong⟩ := detects _ isChanged after isPacket
  have length := @length_datagram payload sport dport sum
  obtain ⟨_, pesoEq', -⟩ := checksumPeso_eq dest src protocolUdp isPacket.wellFormed
    isPacket.distinct isPacket.filled (by
      rw [isPacket.content, isChanged.left, length]
      omega)
  rw [pesoEq] at pesoEq'
  apply isWrong
  rw [(Prod.mk.inj (Option.some.inj pesoEq')).left, isPacket.content]
  apply peso_zero_iff.mpr
  have even (value : Nat) : (bytes16 value).length % 2 = 0 := by
    rw [length_bytes16]
  rw [isDatagram, wordSum_append (even _), wordSum_bytes16 oldWord] at summed
  rw [isChanged.left, length, wordSum_append (even _), wordSum_bytes16 isWord]
  omega

end Right

section HandOver

variable {table : List IpRouteEntry} {dest src source : IpAddr} {sport dport : UInt16}
  {payload header : List UInt8} {buf : Pktbuf} {free : List Pktblk}

theorem udpHandOver_unreach (noSource : sourceOf table dest src = none) :
    udpHandOver table dest dport src sport buf free = some (.refused .unreach free) := by
  simp only [udpHandOver, noSource]

theorem udpHandOver_noBlock (isSource : sourceOf table dest src = some source)
    (empty : buf.blkList = []) : udpHandOver table dest dport src sport buf free = none := by
  simp only [udpHandOver, isSource, pktbufAddHeader, empty]
  rfl

theorem udpHandOver_full (isSource : sourceOf table dest src = some source)
    (nonempty : buf.blkList ≠ []) (full : headerBytes buf free udpHdrLen = none) :
    udpHandOver table dest dport src sport buf free = some (.refused .size []) := by
  have fullEq := @pktbufAddHeader_full buf free udpHdrLen nonempty (by decide) (by decide) full
  simp only [udpHandOver, isSource, fullEq, Option.bind_eq_bind, Option.bind_some]
  rfl

theorem udpHandOver_grown (holds : PayloadIn payload buf free)
    (isSource : sourceOf table dest src = some source)
    (room : headerBytes buf free udpHdrLen = some header) :
    ∃ grown left data size, grown.WellFormed ∧ (blkIds grown.blkList).Nodup ∧ grown.Filled ∧
      grown.Starts data size ∧ (udpHdrLen : Int) ≤ size ∧ header.length = udpHdrLen ∧
      grown.content = header ++ payload ∧
      udpHandOver table dest dport src sport buf free =
        (udpSetHdr source dest sport dport grown).map fun buf => .handed source buf left := by
  have accepted : ¬ NetErr.ok.isError = true := Bool.false_ne_true
  obtain ⟨grown, left, growEq, reshaped, -, ⟨data, size, starts, long⟩, fills, headerLength,
    content⟩ := pktbufAddHeader_bytes holds.wellFormed (by decide) (by decide) room
  rw [holds.content] at content
  have distinct : (blkIds grown.blkList).Nodup :=
    (reshaped.ids.nodup_iff.mpr holds.distinct).of_append_right
  refine ⟨grown, left, data, size, reshaped.wellFormed, distinct, fills holds.filled, starts, long,
    headerLength, content, ?_⟩
  simp only [udpHandOver, isSource, growEq, Option.bind_eq_bind, Option.bind_some,
    if_neg accepted, Option.map_eq_bind]
  rfl

theorem SendsRight.sendCond (holds : PayloadIn payload buf free)
    (right : SendsRight table dest dport src sport payload buf free) :
    SendCond table dest src payload buf free := by
  obtain ⟨sent, ran, isRight⟩ := right
  cases isSource : sourceOf table dest src with
  | none => exact Or.inl isSource
  | some source =>
      refine Or.inr ⟨?_, ?_⟩
      · intro empty
        rw [udpHandOver_noBlock isSource empty] at ran
        cases ran
      · intro header room
        obtain ⟨grown, left, data, size, grownHolds, distinct, filled, starts, long, headerLength,
          content, run⟩ := @udpHandOver_grown table dest src source sport dport payload header buf
            free holds isSource room
        rw [run] at ran
        obtain ⟨after, setEq, rfl⟩ := Option.map_eq_some_iff.mp ran
        have datagramRight := isRight _ _ _ rfl
        have short : payload.length + udpHdrLen < 2 ^ 16 := by
          rw [← datagramRight.length]
          exact UInt16.toNat_lt _
        obtain ⟨after', setEq', layout, afterContent⟩ := @udpSetHdr_spec grown header payload
          source dest sport dport data size grownHolds distinct filled starts long headerLength
          content short
        rw [setEq] at setEq'
        cases setEq'
        have afterIds : (blkIds after.blkList).Nodup := by
          rw [blkIds_of_frames layout.frames]
          exact distinct
        have packet : PacketOf after.content after :=
          ⟨layout.wellFormed grownHolds, afterIds, layout.filled filled, rfl⟩
        have detects := datagramRight.detects
        rw [afterContent] at detects packet
        have oldWord : field16 header 6 < 65536 := field16_lt
        have summed := (@peso_datagram payload source dest sport dport (field16 header 6) _
          oldWord rfl).right
        have isOld := old_of_detects detects short packet (layout.starts starts) long summed
        exact ⟨short, by omega⟩

end HandOver

def oneByteBuf : Pktbuf :=
  ⟨1, [⟨0, 1, 0, fun _ => 7⟩], 1, 0, none, 0⟩

theorem oneByteBuf_payload (stale : UInt8) :
    PayloadIn [7] oneByteBuf [⟨1, 0, 0, fun _ => stale⟩] := by
  have distinct : [1, 0].Nodup := by
    decide
  refine ⟨⟨rfl, ?_⟩, rfl, distinct, ?_⟩
  · intro blk member
    rw [List.mem_singleton.mp member]
    exact ⟨by decide, by decide, by decide⟩
  · intro blk member
    rw [List.mem_singleton.mp member]
    decide

end CleanOS.Net
