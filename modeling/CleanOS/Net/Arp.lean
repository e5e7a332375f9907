import CleanOS.Net.Ip
import CleanOS.Net.NetifInput

/-!
# Ethernet output and the ARP cache

`kernel/net/arp.c`, `kernel/net/ether.c`, and the output half of
`kernel/net/netif.c` and `kernel/net/driver/rtl8139.c`.  Packets are named by the
index of their header in the pool of `pktbuf.c`; the queues of the interfaces and
of the ARP entries hold such names.  The functions run one after the other here, so
a queue is the list of its messages.  A result `none` stands for a call without a
defined result, as for packet buffers.

Two fields of the state record history: the hardware address learned last for each
protocol address, and the IPv4 frames that were passed on.
-/

namespace CleanOS.Net

/-- A hardware address: its six bytes. -/
abbrev HwAddr := List UInt8

/-- The field `state` of `arp_entry_t`; `cleared` is the zero that `memset`
leaves. -/
inductive ArpEntryState where
  | cleared
  | free
  | resolved
  | waiting
  deriving DecidableEq

/-- `arp_entry_t`. -/
structure ArpEntry where
  paddr : IpAddr
  haddr : HwAddr
  state : ArpEntryState
  tmo : Nat
  rety : Nat
  netif : Option Nat
  bufList : List Nat

namespace ArpEntry

/-- An entry after `memset`, `nlist_node_init` and `nlist_init`. -/
def zero : ArpEntry where
  paddr := 0
  haddr := [0, 0, 0, 0, 0, 0]
  state := .cleared
  tmo := 0
  rety := 0
  netif := none
  bufList := []

/-- `cache_entry_set`. -/
def cacheEntrySet (entry : ArpEntry) (hwAddr : HwAddr) (ipAddr : IpAddr) (netif : Nat)
    (state : ArpEntryState) : ArpEntry :=
  { entry with
    haddr := hwAddr
    paddr := ipAddr
    state := state
    netif := some netif
    tmo := if state = .resolved then 20 * 60 else 3
    rety := 5 }

end ArpEntry

/-- `ARP_CACHE_SIZE`. -/
def arpCacheSize : Nat := 50

/-- `ARP_CACHE_MAX`. -/
def arpCacheMax : Nat := 50

/-- The static data of `arp.c`: `pool` is the free list of `cache_mblock`. -/
structure ArpCache where
  pool : List Nat
  cacheList : List Nat
  entry : Nat → ArpEntry

namespace ArpCache

/-- `init_arp`. -/
def initArp : ArpCache where
  pool := List.range arpCacheSize
  cacheList := []
  entry := fun _ => .zero

/-- `cache_find`: the entry found goes to the front. -/
def cacheFind (cache : ArpCache) (ip : IpAddr) : Option Nat × ArpCache :=
  match cache.cacheList.find? fun index => (cache.entry index).paddr = ip with
  | none => (none, cache)
  | some index => (some index, { cache with cacheList := index :: cache.cacheList.erase index })

def setEntry (cache : ArpCache) (index : Nat) (entry : ArpEntry) : ArpCache :=
  { cache with entry := Function.update cache.entry index entry }

end ArpCache

/-- `NETIF_OUTQ_SIZE`. -/
def netifOutqSize : Nat := 50

/-- `ETH_DATA_MIN`. -/
def ethDataMin : Int := 46

/-- `sizeof(ether_hdr_t)`. -/
def etherHdrLen : Nat := 14

/-- `sizeof(arp_pkt_t)`. -/
def arpPktLen : Nat := 28

/-- `NET_PROTOCOL_ARP` and `NET_PROTOCOL_IPv4`. -/
def netProtocolArp : Nat := 0x0806

@[inherit_doc netProtocolArp]
def netProtocolIpv4 : Nat := 0x0800

def netBytes16 (value : Nat) : List UInt8 :=
  (bytes16 value).reverse

def netField16 (bytes : List UInt8) (i : Nat) : Nat :=
  256 * (bytes.getD i 0).toNat + (bytes.getD (i + 1) 0).toNat

/-- The bytes at `pktbuf_data`. -/
def pktData (buf : Pktbuf) (count : Nat) : Option (List UInt8) := do
  let first ← buf.blkList.head?
  first.load first.data count

/-- `ARP_HW_ETHER`. -/
def arpHwEther : Nat := 1

/-- `ARP_REQUEST` and `ARP_REPLY`. -/
def arpRequest : Nat := 1

@[inherit_doc arpRequest]
def arpReply : Nat := 2

/-- The sender and the target of an `arp_pkt_t`. -/
def sendHaddr (pkt : List UInt8) : HwAddr :=
  (pkt.drop 8).take 6

@[inherit_doc sendHaddr]
def sendPaddr (pkt : List UInt8) : IpAddr :=
  ipAddrFromBuf (pkt.drop 14)

@[inherit_doc sendHaddr]
def targetPaddr (pkt : List UInt8) : IpAddr :=
  ipAddrFromBuf (pkt.drop 24)

/-- `arp_pkt_check`; the size it compares with is the one of a pointer. -/
def arpPktCheck (pkt : List UInt8) (size : Int) : NetErr :=
  if size < 4 then .size
  else if netField16 pkt 0 ≠ arpHwEther ∨ (pkt.getD 4 0).toNat ≠ 6 ∨
      netField16 pkt 2 ≠ netProtocolIpv4 ∨ (pkt.getD 5 0).toNat ≠ 4 then .notSupport
  else if netField16 pkt 6 ≠ arpRequest ∧ netField16 pkt 6 ≠ arpReply then .notSupport
  else .ok

/-- `ETH_MTU`. -/
def ethMtu : Nat := 1500

/-- `pkt_buf_check`. -/
def pktBufCheck (totalSize : Int) : NetErr :=
  if totalSize > etherHdrLen + ethMtu then .size
  else if totalSize < etherHdrLen then .size
  else .ok

/-- What Ethernet uses of a `netif_t`. -/
structure Interface where
  desc : Netif
  mac : HwAddr
  linkLayer : Bool
  inQ : List Nat
  outQ : List Nat

/-- `ip_route_entry_t`, with the number of its interface. -/
structure StackRoute where
  net : IpAddr
  netMask : IpAddr
  nextHop : IpAddr
  netif : Nat

/-- An IPv4 frame passed on, with the address it is for and the hardware address
that had been learned for it last. -/
structure SentFrame where
  ip : IpAddr
  dest : HwAddr
  buf : Nat
  latest : Option HwAddr

structure NetStack where
  packet : Nat → Pktbuf
  bufFree : List Nat
  blockList : List Pktblk
  cache : ArpCache
  netif : Nat → Interface
  routes : List StackRoute
  packetId : Nat
  nullBytes : HwAddr
  learned : IpAddr → Option HwAddr
  sent : List SentFrame

def Pktbuf.blank : Pktbuf :=
  { totalSize := 0, blkList := [], ref := 0, pos := 0, currBlk := none, blkOffset := 0 }

/-- The stack after `pktbuf_init` and `init_arp`; `nullBytes` is what the null pointer
points to. -/
def initStack (netif : Nat → Interface) (routes : List StackRoute)
    (nullBytes : HwAddr) : NetStack where
  packet := fun _ => .blank
  bufFree := List.range pktbufBufCnt
  blockList := (List.range pktbufBlkCnt).map fun id =>
    { id := id, size := 0, data := 0, payload := fun _ => 0 }
  cache := .initArp
  netif := netif
  routes := routes
  packetId := 0
  nullBytes := nullBytes
  learned := fun _ => none
  sent := []

/-- The padding to the shortest frame and the header in front, as `ether_raw_out`
builds them. -/
def etherFrame (buf : Pktbuf) (free : List Pktblk) (dest src : HwAddr) (protocol : Nat) :
    Option (NetErr × Pktbuf × List Pktblk) := do
  let size := buf.totalSize
  let (err, buf, free) ←
    if size < ethDataMin then do
      let (err, buf, free) ← pktbufResize buf ethDataMin free
      if err.isError then some (err, buf, free)
      else
        let buf := pktbufResetAcc buf
        let (_, buf) ← pktbufSeek buf size
        let (_, buf) ← pktbufFill buf 0 (ethDataMin - size)
        some (.ok, buf, free)
    else some (.ok, buf, free)
  if err.isError then some (err, buf, free)
  else
    let (err, buf, free) ← pktbufAddHeader buf etherHdrLen true free
    if err.isError then some (.size, buf, free)
    else
      let buf ← setPktHdr buf (dest ++ src ++ netBytes16 protocol)
      some (.ok, buf, free)

namespace NetStack

def mem (stack : NetStack) : PktMem :=
  { blockList := stack.blockList, headers := stack.bufFree.length }

def setPacket (stack : NetStack) (buf : Nat) (content : Pktbuf) : NetStack :=
  { stack with packet := Function.update stack.packet buf content }

def setEntry (stack : NetStack) (index : Nat) (entry : ArpEntry) : NetStack :=
  { stack with cache := stack.cache.setEntry index entry }

def setNetif (stack : NetStack) (netif : Nat) (interface : Interface) : NetStack :=
  { stack with netif := Function.update stack.netif netif interface }

/-- `pktbuf_alloc`.  Without blocks for it the header goes back to the end of its
free list. -/
def pktbufAlloc (stack : NetStack) (size : Int) : Option Nat × NetStack :=
  match stack.bufFree with
  | [] => (none, stack)
  | buf :: bufFree =>
      match stack.mem.pktbufAlloc size with
      | (none, mem) =>
          (none, { stack with bufFree := bufFree ++ [buf], blockList := mem.blockList })
      | (some content, mem) =>
          (some buf, { stack with bufFree, blockList := mem.blockList }.setPacket buf content)

/-- `pktbuf_free` of the only reference to a packet. -/
def pktbufFree (stack : NetStack) (buf : Nat) : NetStack :=
  { stack with
    bufFree := stack.bufFree ++ [buf]
    blockList := (stack.mem.pktbufFree (stack.packet buf)).blockList }

/-- `netif_put_in`, up to the notification of the worker. -/
def netifPutIn (stack : NetStack) (netif buf : Nat) : NetErr × NetStack :=
  let interface := stack.netif netif
  if netifInqSize ≤ interface.inQ.length then (.full, stack)
  else (.ok, stack.setNetif netif { interface with inQ := interface.inQ ++ [buf] })

/-- `netif_put_out`. -/
def netifPutOut (stack : NetStack) (netif buf : Nat) : NetErr × NetStack :=
  let interface := stack.netif netif
  if netifOutqSize ≤ interface.outQ.length then (.full, stack)
  else (.ok, stack.setNetif netif { interface with outQ := interface.outQ ++ [buf] })

/-- `rtl8139_xmit`: the oldest packet is copied to the device and freed. -/
def xmit (stack : NetStack) (netif : Nat) : Option (NetErr × NetStack) :=
  let interface := stack.netif netif
  match interface.outQ with
  | [] => none
  | buf :: outQ =>
      some (.ok, (stack.setNetif netif { interface with outQ }).pktbufFree buf)

/-- `ether_raw_out`. -/
def etherRawOut (stack : NetStack) (netif protocol : Nat) (dest : HwAddr) (buf : Nat) :
    Option (NetErr × NetStack) := do
  let mac := (stack.netif netif).mac
  let (err, content, blockList) ← etherFrame (stack.packet buf) stack.blockList dest mac protocol
  let stack := { stack with blockList }.setPacket buf content
  if err.isError then some (err, stack)
  else if mac = dest then some (stack.netifPutIn netif buf)
  else
    let (err, stack) := stack.netifPutOut netif buf
    if err.isError then some (err, stack)
    else stack.xmit netif

/-- `ether_raw_out` of a packet for a protocol address. -/
def etherIpv4Out (stack : NetStack) (netif : Nat) (ip : IpAddr) (dest : HwAddr) (buf : Nat) :
    Option (NetErr × NetStack) := do
  let (err, stack) ← stack.etherRawOut netif netProtocolIpv4 dest buf
  if err.isError then some (err, stack)
  else some (err, { stack with
    sent := stack.sent ++ [⟨ip, dest, buf, stack.learned ip⟩] })

def realMac : HwAddr := [0x16, 0x0d, 0x6a, 0x2b, 0xec, 0x76]

/-- `arp_make_request`. -/
def arpMakeRequest (stack : NetStack) (netif : Nat) (proAddr : IpAddr) :
    Option (NetErr × NetStack) :=
  match stack.pktbufAlloc arpPktLen with
  | (none, stack) => some (.none, stack)
  | (some buf, stack) => do
      let interface := stack.netif netif
      let (_, content, blockList) ← pktbufSetCont (stack.packet buf) arpPktLen stack.blockList
      let content ← setPktHdr content (netBytes16 1 ++ netBytes16 netProtocolIpv4 ++ [6, 4] ++
        netBytes16 1 ++ interface.mac ++ ipAddrToBuf interface.desc.ipAddr ++
        [0, 0, 0, 0, 0, 0] ++ ipAddrToBuf proAddr)
      let stack := { stack with blockList }.setPacket buf content
      let (err, stack) ← stack.etherRawOut netif netProtocolArp realMac buf
      if err.isError then some (err, stack.pktbufFree buf) else some (err, stack)

/-- `cache_clear_all`. -/
def cacheClearAll (stack : NetStack) (index : Nat) : NetStack :=
  let entry := stack.cache.entry index
  (entry.bufList.foldl pktbufFree stack).setEntry index { entry with bufList := [] }

/-- `cache_alloc`. -/
def cacheAlloc (stack : NetStack) (force : Bool) : Option Nat × NetStack :=
  match mblockAlloc stack.cache.pool (-1) with
  | some (index, pool) =>
      (some index, { stack with cache := { stack.cache with pool } }.setEntry index .zero)
  | none =>
      if force then
        match stack.cache.cacheList.getLast? with
        | none => (none, stack)
        | some index =>
            let stack := { stack with
              cache := { stack.cache with cacheList := stack.cache.cacheList.dropLast } }
            (some index, (stack.cacheClearAll index).setEntry index .zero)
      else (none, stack)

/-- `cache_find`. -/
def cacheFind (stack : NetStack) (ip : IpAddr) : Option Nat × NetStack :=
  let (found, cache) := stack.cache.cacheFind ip
  (found, { stack with cache })

/-- The loop of `cache_send_all`, with what is left of the list of the entry. -/
def cacheSendLoop (index : Nat) : List Nat → NetStack → Option (NetErr × NetStack)
  | [], stack => some (.ok, stack)
  | buf :: bufList, stack => do
      let entry := stack.cache.entry index
      let stack := stack.setEntry index { entry with bufList }
      let netif ← entry.netif
      let (err, stack) ← stack.etherIpv4Out netif entry.paddr entry.haddr buf
      if err.isError then some (err, stack.pktbufFree buf)
      else cacheSendLoop index bufList stack

/-- `cache_send_all`. -/
def cacheSendAll (stack : NetStack) (index : Nat) : Option (NetErr × NetStack) :=
  cacheSendLoop index (stack.cache.entry index).bufList stack

/-- `cache_entry_set` of a resolved entry. -/
def learn (stack : NetStack) (index netif : Nat) (ip : IpAddr) (hwAddr : HwAddr) : NetStack :=
  { stack.setEntry index
      ((stack.cache.entry index).cacheEntrySet hwAddr ip netif .resolved) with
    learned := Function.update stack.learned ip (some hwAddr) }

/-- `cache_insert`. -/
def cacheInsert (stack : NetStack) (netif : Nat) (ip : IpAddr) (hwAddr : HwAddr)
    (force : Bool) : Option (NetErr × NetStack) :=
  match stack.cacheFind ip with
  | (none, stack) =>
      match stack.cacheAlloc force with
      | (none, stack) => some (.none, stack)
      | (some index, stack) =>
          let stack := stack.learn index netif ip hwAddr
          some (.ok, { stack with
            cache := { stack.cache with cacheList := index :: stack.cache.cacheList } })
  | (some index, stack) =>
      let stack := stack.learn index netif ip hwAddr
      let stack :=
        if stack.cache.cacheList.head? = some index then stack
        else { stack with
          cache := { stack.cache with
            cacheList := index :: stack.cache.cacheList.erase index } }
      stack.cacheSendAll index

/-- `arp_find`. -/
def arpFind (stack : NetStack) (ip : IpAddr) : Option HwAddr × NetStack :=
  match stack.cacheFind ip with
  | (none, stack) => (none, stack)
  | (some index, stack) => (some (stack.cache.entry index).haddr, stack)

/-- `arp_resolve`.  A new entry gets its hardware address from the null
pointer. -/
def arpResolve (stack : NetStack) (netif : Nat) (addr : IpAddr) (buf : Nat) :
    Option (NetErr × NetStack) :=
  match stack.cacheFind addr with
  | (some index, stack) =>
      let entry := stack.cache.entry index
      if entry.state = .resolved then stack.etherIpv4Out netif addr entry.haddr buf
      else if entry.bufList.length > arpCacheMax then some (.full, stack)
      else some (.ok, stack.setEntry index { entry with bufList := buf :: entry.bufList })
  | (none, stack) =>
      match stack.cacheAlloc true with
      | (none, stack) => some (.mem, stack)
      | (some index, stack) =>
          let entry :=
            (stack.cache.entry index).cacheEntrySet stack.nullBytes addr netif .waiting
          let stack := stack.setEntry index { entry with bufList := buf :: entry.bufList }
          let stack := { stack with
            cache := { stack.cache with cacheList := stack.cache.cacheList ++ [index] } }
          stack.arpMakeRequest netif addr

/-- `ether_out`. -/
def etherOut (stack : NetStack) (netif : Nat) (ip : IpAddr) (buf : Nat) :
    Option (NetErr × NetStack) :=
  let interface := stack.netif netif
  if interface.desc.ipAddr = ip then do
    let (_, stack) ← stack.etherRawOut netif netProtocolIpv4 interface.mac buf
    some (.ok, stack)
  else
    match stack.arpFind ip with
    | (none, stack) => stack.arpResolve netif ip buf
    | (some hwAddr, stack) => stack.etherIpv4Out netif ip hwAddr buf

/-- `arp_make_reply`. -/
def arpMakeReply (stack : NetStack) (netif buf : Nat) (pkt : List UInt8) :
    Option (NetErr × NetStack) := do
  let interface := stack.netif netif
  let content ← setPktHdr (stack.packet buf) (pkt.take 6 ++ netBytes16 arpReply ++
    interface.mac ++ ipAddrToBuf interface.desc.ipAddr ++ (pkt.drop 8).take 10)
  (stack.setPacket buf content).etherRawOut netif netProtocolArp (sendHaddr pkt) buf

/-- `arp_in`, up to `arp_pkt_check`: the ARP packet, when it passes. -/
def arpCheckIn (stack : NetStack) (buf : Nat) :
    Option (NetErr × NetStack × List UInt8) := do
  let (err, content, blockList) ← pktbufSetCont (stack.packet buf) arpPktLen stack.blockList
  let stack := { stack with blockList }.setPacket buf content
  if err.isError then some (err, stack, [])
  else
    let pkt ← pktData content arpPktLen
    some (arpPktCheck pkt content.totalSize, stack, pkt)

/-- `arp_in`. -/
def arpIn (stack : NetStack) (netif buf : Nat) : Option (NetErr × NetStack) := do
  let (err, stack, pkt) ← stack.arpCheckIn buf
  if err ≠ .ok then some (err, stack)
  else if targetPaddr pkt = (stack.netif netif).desc.ipAddr then
    let (_, stack) ← stack.cacheInsert netif (sendPaddr pkt) (sendHaddr pkt) true
    if netField16 pkt 6 = arpRequest then stack.arpMakeReply netif buf pkt
    else some (.ok, stack)
  else
    let (_, stack) ← stack.cacheInsert netif (sendPaddr pkt) (sendHaddr pkt) false
    some (.ok, stack.pktbufFree buf)

/-- `arp_update_from_ipbuf`, up to its checks: the frame, when it passes.  At its end
the function returns nothing. -/
def ipbufCheckIn (stack : NetStack) (netif buf : Nat) :
    Option (Bool × NetStack × List UInt8) := do
  let (err, content, blockList) ←
    pktbufSetCont (stack.packet buf) (ipv4HdrLen + etherHdrLen) stack.blockList
  let stack := { stack with blockList }.setPacket buf content
  if err.isError then some (false, stack, [])
  else
    let frame ← pktData content (ipv4HdrLen + etherHdrLen)
    let ipHdr := frame.drop etherHdrLen
    let totalLen : Int := netField16 ipHdr 2
    let desc := (stack.netif netif).desc
    if (ipHdr.getD 0 0).toNat / 16 ≠ 4 then some (false, stack, frame)
    else if totalLen < ipv4HdrLen ∨ content.totalSize < totalLen then some (false, stack, frame)
    else some (ipaddrIsMatch desc.ipAddr (hdrDestIp ipHdr) desc.netMask, stack, frame)

/-- `arp_update_from_ipbuf`. -/
def arpUpdateFromIpbuf (stack : NetStack) (netif buf : Nat) : Option NetStack := do
  let (learns, stack, frame) ← stack.ipbufCheckIn netif buf
  if learns then
    let (_, stack) ← stack.cacheInsert netif (hdrSrcIp (frame.drop etherHdrLen))
      ((frame.drop 6).take 6) false
    some stack
  else some stack

/-- `ether_in`, up to the protocols: the protocol of the frame, when it passes.  An
ARP packet loses its Ethernet header here. -/
def etherCheckIn (stack : NetStack) (buf : Nat) : Option (NetErr × NetStack × Nat) := do
  let (_, content, blockList) ← pktbufSetCont (stack.packet buf) etherHdrLen stack.blockList
  let stack := { stack with blockList }.setPacket buf content
  let err := pktBufCheck content.totalSize
  if err.isError then some (err, stack, 0)
  else
    let hdr ← pktData content etherHdrLen
    let protocol := netField16 hdr 12
    if protocol = netProtocolArp then
      let (_, content, blockList) ← pktbufRemoveHeader content etherHdrLen blockList
      some (.ok, { stack with blockList }.setPacket buf content, protocol)
    else some (.ok, stack, protocol)

/-- `ether_in`, up to the call of `ipv4_in`. -/
def etherIn (stack : NetStack) (netif buf : Nat) : Option (NetErr × NetStack) := do
  let (err, stack, protocol) ← stack.etherCheckIn buf
  if err.isError then some (err, stack)
  else if protocol = netProtocolArp then stack.arpIn netif buf
  else if protocol = netProtocolIpv4 then
    let stack ← stack.arpUpdateFromIpbuf netif buf
    let (_, content, blockList) ←
      pktbufRemoveHeader (stack.packet buf) etherHdrLen stack.blockList
    some (.ok, { stack with blockList }.setPacket buf content)
  else some (.ok, stack)

end NetStack

end CleanOS.Net
