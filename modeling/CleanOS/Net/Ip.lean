import CleanOS.Net.Pktbuf

/-!
# IPv4

Input, reassembly, output and fragmentation of `kernel/net/ip.c`.  A packet is owned by
the list it is linked into; the blocks of a packet that is freed go back to the pool.
What `ipv4_normal_in` does with a packet and how `netif_out` answers are parameters.
-/

namespace CleanOS.Net

/-- The pools of `pktbuf.c`: the free blocks and the number of free packet headers. -/
structure PktMem where
  blockList : List Pktblk
  headers : Nat

/-- `pktbuf_free` of the only reference to a packet. -/
def PktMem.pktbufFree (mem : PktMem) (buf : Pktbuf) : PktMem :=
  { blockList := mem.blockList ++ buf.blkList, headers := mem.headers + 1 }

/-- `pktbuf_alloc`. -/
def PktMem.pktbufAlloc (mem : PktMem) (size : Int) : Option Pktbuf × PktMem :=
  if mem.headers = 0 then (none, mem)
  else
    let empty : Pktbuf :=
      { totalSize := 0, blkList := [], ref := 1, pos := 0, currBlk := none, blkOffset := 0 }
    if size = 0 then (some empty, { mem with headers := mem.headers - 1 })
    else
      match pktblockAllocList size false mem.blockList with
      | ([], free) => (none, { mem with blockList := free })
      | (chain, free) =>
          (some (pktbufResetAcc (pktbufInsertBlkList empty chain true)),
            { blockList := free, headers := mem.headers - 1 })

/-- `ip_addr_t`, as its `q_addr`. -/
abbrev IpAddr := UInt32

/-- `ip_addr_from_buf`: the first byte is the lowest one of `q_addr`. -/
def ipAddrFromBuf (bytes : List UInt8) : IpAddr :=
  ((bytes.getD 0 0).toNat + 256 * (bytes.getD 1 0).toNat + 65536 * (bytes.getD 2 0).toNat +
    16777216 * (bytes.getD 3 0).toNat).toUInt32

/-- `ip_addr_to_buf`. -/
def ipAddrToBuf (ip : IpAddr) : List UInt8 :=
  [ip.toNat.toUInt8, (ip.toNat / 256).toUInt8, (ip.toNat / 65536).toUInt8,
    (ip.toNat / 16777216).toUInt8]

/-- `ipaddr_get_net`. -/
def ipaddrGetNet (ip mask : IpAddr) : IpAddr :=
  ip &&& mask

/-- `ipaddr_is_direct_broadcast`. -/
def ipaddrIsDirectBroadcast (ip mask : IpAddr) : Bool :=
  ip &&& ~~~mask = 0xffffffff &&& ~~~mask

/-- `ipaddr_is_match`. -/
def ipaddrIsMatch (dest src mask : IpAddr) : Bool :=
  dest = 0xffffffff ∨
    (ipaddrIsDirectBroadcast dest mask ∧ ipaddrGetNet dest mask = ipaddrGetNet src mask) ∨
    dest = src

def field16 (hdr : List UInt8) (i : Nat) : Nat :=
  (hdr.getD i 0).toNat + 256 * (hdr.getD (i + 1) 0).toNat

/-- `sizeof(ipv4_hdr_t)`. -/
abbrev ipv4HdrLen : Nat := 20

/-- `ipv4_hdr_size`: four times the field `shdr`. -/
def ipv4HdrSize (hdr : List UInt8) : Nat :=
  (hdr.getD 0 0).toNat % 16 * 4

/-- The field `total_len`. -/
def hdrTotalLen (hdr : List UInt8) : Nat :=
  field16 hdr 2

/-- The field `id`. -/
def hdrId (hdr : List UInt8) : Nat :=
  field16 hdr 4

/-- The bit field `offset` of `frag_all`. -/
def hdrOffset (hdr : List UInt8) : Nat :=
  field16 hdr 6 % 8192

/-- The bit field `more` of `frag_all`. -/
def hdrMore (hdr : List UInt8) : Bool :=
  field16 hdr 6 / 8192 % 2 = 1

/-- The field `src_ip`. -/
def hdrSrcIp (hdr : List UInt8) : IpAddr :=
  ipAddrFromBuf (hdr.drop 12)

/-- The field `dest_ip`. -/
def hdrDestIp (hdr : List UInt8) : IpAddr :=
  ipAddrFromBuf (hdr.drop 16)

/-- `iphdr_htons`: the bytes of `total_len`, `id` and `frag_all` are swapped. -/
def iphdrHtons : List UInt8 → List UInt8
  | b0 :: b1 :: b2 :: b3 :: b4 :: b5 :: b6 :: b7 :: rest =>
      b0 :: b1 :: b3 :: b2 :: b5 :: b4 :: b7 :: b6 :: rest
  | hdr => hdr

/-- The IPv4 header at `pktbuf_data`. -/
def pktHdr (buf : Pktbuf) : Option (List UInt8) := do
  let first ← buf.blkList.head?
  first.load first.data ipv4HdrLen

/-- The bytes at `pktbuf_data` are written. -/
def setPktHdr (buf : Pktbuf) (hdr : List UInt8) : Option Pktbuf :=
  match buf.blkList with
  | [] => none
  | first :: rest => do
      let first ← first.store first.data hdr
      some { buf with blkList := first :: rest }

/-- `ipv4_frag_t`; its time-out is never used. -/
structure Ipv4Frag where
  ip : IpAddr
  id : Nat
  bufList : List Pktbuf

/-- `IP_FRAGS_MAX_NR`. -/
abbrev ipFragsMaxNr : Nat := 10

/-- The state of reassembly: `frag_list`, the number of free entries in `frag_mblock`,
and the packet pools. -/
structure IpState where
  fragList : List Ipv4Frag
  fragFree : Nat
  mem : PktMem

/-- `init_ip`. -/
def initIp (mem : PktMem) : IpState :=
  { fragList := [], fragFree := ipFragsMaxNr, mem := mem }

/-- `frag_find`: the first entry of the source, and the others. -/
def fragFind (ip : IpAddr) : List Ipv4Frag → Option (Ipv4Frag × List Ipv4Frag)
  | [] => none
  | frag :: rest =>
      if ip = frag.ip then some (frag, rest)
      else (fragFind ip rest).map fun (found, others) => (found, frag :: others)

/-- `frag_free_buf_list`. -/
def fragFreeBufList (mem : PktMem) (frag : Ipv4Frag) : PktMem :=
  frag.bufList.foldl PktMem.pktbufFree mem

/-- `frag_alloc`, taken to return the entry it selects: a free one, or else the last one
of `frag_list`, whose packets are freed.  Without either the entry is null. -/
def fragAlloc (state : IpState) : Option IpState :=
  if state.fragFree = 0 then
    match state.fragList.getLast? with
    | none => none
    | some frag => some { state with
        fragList := state.fragList.dropLast
        mem := fragFreeBufList state.mem frag }
  else some { state with fragFree := state.fragFree - 1 }

/-- `frag_add`. -/
def fragAdd (state : IpState) (ip : IpAddr) (id : Nat) : IpState :=
  { state with fragList := { ip := ip, id := id, bufList := [] } :: state.fragList }

/-- `frag_free` of the entry at the front. -/
def fragFreeEntry (state : IpState) (frag : Ipv4Frag) (others : List Ipv4Frag) : IpState :=
  { fragList := others
    fragFree := state.fragFree + 1
    mem := fragFreeBufList state.mem frag }

/-- `get_data_size`. -/
def getDataSize (hdr : List UInt8) : Int :=
  hdrTotalLen hdr - ipv4HdrSize hdr

/-- `get_frag_start`. -/
def getFragStart (hdr : List UInt8) : Nat :=
  hdrOffset hdr * 8

/-- `get_frag_end`, a 16-bit value. -/
def getFragEnd (hdr : List UInt8) : Nat :=
  ((getFragStart hdr + getDataSize hdr) % 65536).toNat

/-- The loop of `frag_insert`: the packet goes before the first one that starts behind
its end. -/
def fragInsertLoop (hdr : List UInt8) (buf : Pktbuf) :
    List Pktbuf → Option (NetErr × List Pktbuf)
  | [] => some (.ok, [buf])
  | cur :: rest => do
      let curHdr ← pktHdr cur
      if getFragStart hdr = getFragStart curHdr then some (.exist, cur :: rest)
      else if getFragEnd hdr ≤ getFragStart curHdr then some (.ok, buf :: cur :: rest)
      else
        let (err, inserted) ← fragInsertLoop hdr buf rest
        some (err, cur :: inserted)

/-- The loop of `frag_all_arrived`: the offset expected next and the header seen last. -/
def fragAllArrivedLoop : Int → Option (List UInt8) → List Pktbuf → Option Bool
  | _, none, [] => some false
  | _, some hdr, [] => some (!hdrMore hdr)
  | offset, _, buf :: rest => do
      let hdr ← pktHdr buf
      if (getFragStart hdr : Int) ≠ offset then some false
      else fragAllArrivedLoop (offset + getDataSize hdr) (some hdr) rest

/-- `frag_all_arrived`. -/
def fragAllArrived (frag : Ipv4Frag) : Option Bool :=
  fragAllArrivedLoop 0 none frag.bufList

/-- The loop of `frag_join`: the packets behind the first one lose their headers and are
joined to it.  `pktbuf_remove_header` and `pktbuf_join` return no error. -/
def fragJoinLoop (target : Pktbuf) : List Pktbuf → PktMem → Option (Pktbuf × PktMem)
  | [], mem => some (target, mem)
  | cur :: rest, mem => do
      let hdr ← pktHdr cur
      let (_, cur, free) ← pktbufRemoveHeader cur (ipv4HdrSize hdr) mem.blockList
      let (target, _) := pktbufJoin target cur
      fragJoinLoop target rest { blockList := free, headers := mem.headers + 1 }

/-- A packet handed to `ipv4_normal_in`, with the fragments it was joined from. -/
structure Handed where
  parts : List Pktbuf
  all : Pktbuf

/-- What `ipv4_normal_in` answers, and the pools it leaves. -/
abbrev NormalIn := Pktbuf → PktMem → NetErr × PktMem

/-- The end of `ipv4_frag_in`: a packet has been inserted into the entry at the front. -/
def fragComplete (normalIn : NormalIn) (state : IpState) (frag : Ipv4Frag)
    (others : List Ipv4Frag) : Option (NetErr × IpState × Option Handed) := do
  let arrived ← fragAllArrived frag
  if arrived then
    match frag.bufList with
    | [] => some (.ok, { state with fragList := frag :: others }, none)
    | target :: rest =>
        let (all, mem) ← fragJoinLoop target rest state.mem
        let state := fragFreeEntry { state with mem := mem } { frag with bufList := [] } others
        let (err, mem) := normalIn all state.mem
        if err.isError then
          some (err, { state with mem := mem.pktbufFree all }, some ⟨frag.bufList, all⟩)
        else some (.ok, { state with mem := mem }, some ⟨frag.bufList, all⟩)
  else some (.ok, { state with fragList := frag :: others }, none)

/-- `frag_insert` into the entry at the front, and the rest of `ipv4_frag_in`. -/
def fragInsert (normalIn : NormalIn) (state : IpState) (frag : Ipv4Frag)
    (others : List Ipv4Frag) (hdr : List UInt8) (buf : Pktbuf) :
    Option (NetErr × IpState × Option Handed) :=
  if frag.bufList.length ≥ ipFragsMaxNr then
    some (.full, fragFreeEntry state frag others, none)
  else do
    let (err, bufList) ← fragInsertLoop hdr buf frag.bufList
    let frag := { frag with bufList := bufList }
    if err.isError then some (err, { state with fragList := frag :: others }, none)
    else fragComplete normalIn state frag others

/-- `ipv4_frag_in`. -/
def ipv4FragIn (normalIn : NormalIn) (state : IpState) (src : IpAddr) (buf : Pktbuf) :
    Option (NetErr × IpState × Option Handed) := do
  let hdr ← pktHdr buf
  match fragFind src state.fragList with
  | some (frag, others) => fragInsert normalIn state frag others hdr buf
  | none =>
      let state ← fragAlloc state
      let state := fragAdd state src (hdrId hdr)
      match state.fragList with
      | frag :: others => fragInsert normalIn state frag others hdr buf
      | [] => none

/-- What IPv4 uses of a `netif_t`. -/
structure Netif where
  ipAddr : IpAddr
  netMask : IpAddr
  mtu : Int

/-- `ipv4_in`. -/
def ipv4In (normalIn : NormalIn) (netif : Netif) (state : IpState) (buf : Pktbuf) :
    Option (NetErr × IpState × Option Handed) := do
  let (err, buf, free) ← pktbufSetCont buf ipv4HdrLen state.mem.blockList
  let state := { state with mem := { state.mem with blockList := free } }
  if err.isError then some (err, state, none)
  else
    let hdr ← pktHdr buf
    let hdr := iphdrHtons hdr
    let buf ← setPktHdr buf hdr
    let (err, buf, free) ← pktbufResize buf (hdrTotalLen hdr) state.mem.blockList
    let state := { state with mem := { state.mem with blockList := free } }
    if err.isError then some (err, state, none)
    else if ¬ ipaddrIsMatch (hdrDestIp hdr) netif.ipAddr netif.netMask then
      some (.notMatch, { state with mem := state.mem.pktbufFree buf }, none)
    else if hdrMore hdr ∨ hdrOffset hdr ≠ 0 then
      ipv4FragIn normalIn state (hdrSrcIp hdr) buf
    else
      let (err, mem) := normalIn buf state.mem
      some (err, { state with mem := mem }, some ⟨[buf], buf⟩)

/-- `ip_route_entry_t`. -/
structure IpRouteEntry where
  net : IpAddr
  netMask : IpAddr
  nextHop : IpAddr
  netif : Netif

/-- `route_find`: the first entry whose network the address lies in. -/
def routeFind (ip : IpAddr) (table : List IpRouteEntry) : Option IpRouteEntry :=
  table.find? fun entry => ipaddrGetNet ip entry.netMask = entry.net

def bytes16 (value : Nat) : List UInt8 :=
  [value.toUInt8, (value / 256).toUInt8]

/-- The header that `ipv4_out` and `ipv4_frag_out` write: version 4, five words long,
`NET_IP_DEF_TTL`, checksum zero. -/
def ipv4Hdr (totalLen id fragAll : Nat) (protocol : UInt8) (src dest : IpAddr) : List UInt8 :=
  [0x45, 0] ++ bytes16 totalLen ++ bytes16 id ++ bytes16 fragAll ++ [64, protocol, 0, 0] ++
    ipAddrToBuf src ++ ipAddrToBuf dest

/-- The field `hdr_checksum` is written. -/
def setChecksum (hdr : List UInt8) (checksum : Nat) : List UInt8 :=
  hdr.take 10 ++ bytes16 checksum ++ hdr.drop 12

/-- The state of output: the packet pools and `packet_id`. -/
structure IpOut where
  mem : PktMem
  packetId : Nat

/-- What a datagram is sent with.  A source address that is null or zero stands for the
address of the interface. -/
structure Sending where
  protocol : UInt8
  dest : IpAddr
  src : Option IpAddr
  netif : Netif

def Sending.srcIp (sending : Sending) : IpAddr :=
  match sending.src with
  | none => sending.netif.ipAddr
  | some src => if src = 0 then sending.netif.ipAddr else src

/-- The header is put into network order and given its checksum, which is taken over the
packet from its cursor on. -/
def finishHdr (buf : Pktbuf) : Option Pktbuf := do
  let hdr ← pktHdr buf
  let (checksum, buf) ← pktbufChecksum16 buf (ipv4HdrSize hdr) 0 true
  setPktHdr buf (setChecksum hdr checksum)

def fragSize (mtu total : Int) : Int :=
  let room := (mtu - ipv4HdrLen) % 2 ^ 32
  let currSize := if total > room then room else total
  if currSize < total then currSize - currSize % 8 else currSize

/-- One pass of the loop of `ipv4_frag_out`: the fragment, what is left of the packet and
the pools.  An error leaves the packet to the caller. -/
def fragOutPass (sending : Sending) (id : Nat) (offset total : Int) (buf : Pktbuf)
    (mem : PktMem) : Option (NetErr × Pktbuf × Pktbuf × PktMem) := do
  let currSize := fragSize sending.netif.mtu total
  match mem.pktbufAlloc (currSize + ipv4HdrLen) with
  | (none, mem) => some (.mem, buf, buf, mem)
  | (some destBuf, mem) =>
      let fragAll := (offset / 8).toNat % 8192 + if total > currSize then 8192 else 0
      let destBuf ← setPktHdr destBuf (ipv4Hdr destBuf.totalSize.toNat id fragAll
        sending.protocol sending.srcIp sending.dest)
      let (_, destBuf) ← pktbufSeek destBuf ipv4HdrLen
      let (err, destBuf, buf) ← pktbufCopy destBuf buf currSize
      if err.isError then some (err, destBuf, buf, mem.pktbufFree destBuf)
      else
        let (_, buf, free) ← pktbufRemoveHeader buf currSize mem.blockList
        let buf := pktbufResetAcc buf
        let hdr ← pktHdr destBuf
        let destBuf ← setPktHdr destBuf (iphdrHtons hdr)
        let (_, destBuf) ← pktbufSeek destBuf 0
        let destBuf ← finishHdr destBuf
        some (.ok, destBuf, buf, { mem with blockList := free })

/-- The answer of `netif_out` to a packet for a next hop. -/
abbrev NetifOut := IpAddr → Pktbuf → NetErr

/-- The loop of `ipv4_frag_out`.  Each pass takes a packet header, so the free headers
bound the passes. -/
def fragOutLoop (netifOut : NetifOut) (sending : Sending) (next : IpAddr) (id : Nat) :
    Nat → Int → Int → Pktbuf → PktMem → List Pktbuf →
    Option (NetErr × Pktbuf × PktMem × List Pktbuf)
  | 0, _, total, buf, mem, emitted =>
      if total = 0 then some (.ok, buf, mem, emitted) else some (.mem, buf, mem, emitted)
  | passes + 1, offset, total, buf, mem, emitted =>
      if total = 0 then some (.ok, buf, mem, emitted)
      else do
        let (err, destBuf, buf, mem) ← fragOutPass sending id offset total buf mem
        if err.isError then some (err, buf, mem, emitted)
        else
          let err := netifOut next destBuf
          if err.isError then some (err, buf, mem.pktbufFree destBuf, emitted)
          else
            let currSize := fragSize sending.netif.mtu total
            fragOutLoop netifOut sending next id passes (offset + currSize) (total - currSize)
              buf mem (emitted ++ [destBuf])

/-- `ipv4_frag_out`: the packets passed to `netif_out`, in order. -/
def ipv4FragOut (netifOut : NetifOut) (sending : Sending) (next : IpAddr) (out : IpOut)
    (buf : Pktbuf) : Option (NetErr × IpOut × List Pktbuf) := do
  let buf := pktbufResetAcc buf
  let (err, buf, mem, emitted) ← fragOutLoop netifOut sending next out.packetId
    out.mem.headers 0 buf.totalSize buf out.mem []
  if err.isError then some (err, { out with mem := mem }, emitted)
  else some (.ok, { mem := mem.pktbufFree buf, packetId := (out.packetId + 1) % 65536 }, emitted)

/-- `ipv4_out`: the packets passed to `netif_out`, in order. -/
def ipv4Out (netifOut : NetifOut) (table : List IpRouteEntry) (protocol : UInt8)
    (dest : IpAddr) (src : Option IpAddr) (out : IpOut) (buf : Pktbuf) :
    Option (NetErr × IpOut × List Pktbuf) :=
  match routeFind dest table with
  | none => some (.unreach, out, [])
  | some rt =>
      let next := if rt.nextHop = 0 then dest else rt.nextHop
      let sending : Sending := ⟨protocol, dest, src, rt.netif⟩
      if rt.netif.mtu ≠ 0 ∧ (buf.totalSize + ipv4HdrLen) % 2 ^ 32 > rt.netif.mtu % 2 ^ 32 then
        ipv4FragOut netifOut sending next out buf
      else do
        let (err, buf, free) ← pktbufAddHeader buf ipv4HdrLen true out.mem.blockList
        let out := { out with mem := { out.mem with blockList := free } }
        if err.isError then some (err, out, [])
        else
          let hdr := ipv4Hdr buf.totalSize.toNat out.packetId 0 protocol sending.srcIp dest
          let buf ← setPktHdr buf (iphdrHtons hdr)
          let buf ← finishHdr (pktbufResetAcc buf)
          let out := { out with packetId := (out.packetId + 1) % 65536 }
          let err := netifOut next buf
          if err.isError then some (err, out, [])
          else some (err, out, [buf])

end CleanOS.Net
