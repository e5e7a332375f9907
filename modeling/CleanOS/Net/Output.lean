import CleanOS.Net.Arp

/-!
# Output through the interfaces

`netif_out`, `ipv4_frag_out` and `ipv4_out` over the whole stack.  The work on a
packet is the one of `ipv4_out` for a single packet; here the packets are linked into
the queues of the interfaces and of the ARP entries.
-/

namespace CleanOS.Net

namespace NetStack

/-- `netif_out`. -/
def netifOut (stack : NetStack) (netif : Nat) (ip : IpAddr) (buf : Nat) :
    Option (NetErr × NetStack) :=
  if (stack.netif netif).linkLayer then do
    let (err, stack) ← stack.etherOut netif ip buf
    if err.isError then some (err, stack) else some (.ok, stack)
  else
    let (err, stack) := stack.netifPutOut netif buf
    if err.isError then some (err, stack) else stack.xmit netif

/-- `route_find`. -/
def routeFind (stack : NetStack) (ip : IpAddr) : Option StackRoute :=
  stack.routes.find? fun entry => ipaddrGetNet ip entry.netMask = entry.net

/-- The next fragment of a packet, as `ipv4_frag_out` makes it. -/
def fragMake (stack : NetStack) (sending : Sending) (offset total : Int) (buf : Nat) :
    Option (NetErr × Option Nat × NetStack) :=
  match stack.bufFree with
  | [] => some (.mem, none, stack)
  | destBuf :: bufFree => do
      let (err, dest, content, mem) ←
        fragOutPass sending stack.packetId offset total (stack.packet buf) stack.mem
      let stack := { stack with blockList := mem.blockList }.setPacket buf content
      if err.isError then some (err, none, { stack with bufFree := bufFree ++ [destBuf] })
      else some (.ok, some destBuf, { stack with bufFree }.setPacket destBuf dest)

/-- The loop of `ipv4_frag_out`, up to a number of passes. -/
def fragOutLoop (sending : Sending) (netif : Nat) (next : IpAddr) (buf : Nat) :
    Nat → Int → Int → NetStack → Option (NetErr × NetStack)
  | 0, _, _, _ => none
  | passes + 1, offset, total, stack =>
      if total = 0 then some (.ok, stack)
      else do
        let (err, destBuf, stack) ← stack.fragMake sending offset total buf
        match destBuf with
        | none => some (err, stack)
        | some destBuf =>
            let (err, stack) ← stack.netifOut netif next destBuf
            if err.isError then some (err, stack.pktbufFree destBuf)
            else
              let currSize := fragSize sending.netif.mtu total
              fragOutLoop sending netif next buf passes (offset + currSize) (total - currSize) stack

/-- `ipv4_frag_out`, when it ends after at most so many passes. -/
def ipv4FragOut (stack : NetStack) (passes : Nat) (sending : Sending) (netif : Nat)
    (next : IpAddr) (buf : Nat) : Option (NetErr × NetStack) := do
  let content := pktbufResetAcc (stack.packet buf)
  let (err, stack) ← fragOutLoop sending netif next buf passes 0 content.totalSize
    (stack.setPacket buf content)
  if err.isError then some (err, stack)
  else some (.ok, { stack with
    packetId := (stack.packetId + 1) % 65536 }.pktbufFree buf)

def ipv4Header (stack : NetStack) (sending : Sending) (buf : Nat) :
    Option (NetErr × NetStack) := do
  let (err, content, blockList) ←
    pktbufAddHeader (stack.packet buf) ipv4HdrLen true stack.blockList
  let stack := { stack with blockList }.setPacket buf content
  if err.isError then some (err, stack)
  else
    let hdr := ipv4Hdr content.totalSize.toNat stack.packetId 0 sending.protocol sending.srcIp
      sending.dest
    let content ← setPktHdr content (iphdrHtons hdr)
    let content ← finishHdr (pktbufResetAcc content)
    some (.ok, { stack with
      packetId := (stack.packetId + 1) % 65536 }.setPacket buf content)

/-- `ipv4_out`, when its fragmentation ends after at most so many passes. -/
def ipv4Out (stack : NetStack) (passes : Nat) (protocol : UInt8) (dest : IpAddr)
    (src : Option IpAddr) (buf : Nat) : Option (NetErr × NetStack) :=
  match stack.routeFind dest with
  | none => some (.unreach, stack)
  | some rt =>
      let next := if rt.nextHop = 0 then dest else rt.nextHop
      let desc := (stack.netif rt.netif).desc
      let sending : Sending := ⟨protocol, dest, src, desc⟩
      if desc.mtu ≠ 0 ∧
          ((stack.packet buf).totalSize + ipv4HdrLen) % 2 ^ 32 > desc.mtu % 2 ^ 32 then
        stack.ipv4FragOut passes sending rt.netif next buf
      else do
        let (err, stack) ← stack.ipv4Header sending buf
        if err.isError then some (err, stack)
        else stack.netifOut rt.netif next buf

end NetStack

end CleanOS.Net
