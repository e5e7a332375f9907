import CleanOS.Net.Exmsg
import CleanOS.Net.Ip

/-!
# Sockets

The socket table of `kernel/net/sock.c` and the control blocks of `kernel/net/udp.c` and
`kernel/net/raw.c` that its entries point to.  The receive lists and the waiting threads of
a socket are left out; they have no part in what these functions do to ports and tables.
What a function reads from a variable that it never set is an argument.  A result `none`
stands for a call without a defined result: a null function is called, an unmapped address
is read, or a control block is used that went back to its pool.
-/

namespace CleanOS.Net

/-- `swap_u16`, which is both `htons` and `ntohs`. -/
def swapU16 (v : UInt16) : UInt16 :=
  ((v &&& 0xFF) <<< 8) ||| ((v >>> 8) &&& 0xFF)

theorem swapU16_toNat (v : UInt16) :
    (swapU16 v).toNat = v.toNat % 256 * 256 + v.toNat / 256 := by
  have inWord := v.toNat_lt
  have low : (v &&& 0xFF).toNat = v.toNat % 256 := by
    rw [UInt16.toNat_and]
    exact Nat.and_two_pow_sub_one_eq_mod _ 8
  have high : ((v >>> 8) &&& 0xFF).toNat = v.toNat / 256 := by
    have shift : v.toNat >>> 8 = v.toNat / 256 := Nat.shiftRight_eq_div_pow _ 8
    have bits := Nat.and_two_pow_sub_one_eq_mod (v.toNat >>> 8) 8
    rw [UInt16.toNat_and, UInt16.toNat_shiftRight]
    refine bits.trans ?_
    rw [shift]
    exact Nat.mod_eq_of_lt (by omega)
  have shifted : ((v &&& 0xFF) <<< 8).toNat = (v.toNat % 256) <<< 8 := by
    have eight : (8 : UInt16).toNat % 16 = 8 := rfl
    rw [UInt16.toNat_shiftLeft, low, eight, Nat.shiftLeft_eq]
    exact Nat.mod_eq_of_lt (by omega)
  rw [swapU16, UInt16.toNat_or, shifted, high,
    ← Nat.shiftLeft_add_eq_or_of_lt (by omega : v.toNat / 256 < 2 ^ 8), Nat.shiftLeft_eq]

theorem swapU16_swapU16 (v : UInt16) : swapU16 (swapU16 v) = v := by
  have inWord := v.toNat_lt
  apply UInt16.toNat_inj.mp
  rw [swapU16_toNat, swapU16_toNat]
  omega

/-- `sock_addr_in_t`: the port as it is stored, and `q_addr`, which is what
`ip_addr_from_buf` makes of the bytes. -/
structure SockAddrIn where
  sinPort : UInt16
  inAddr : IpAddr
  deriving DecidableEq

/-- `sock_t`. -/
structure Sock where
  localIp : IpAddr
  localPort : UInt16
  remoteIp : IpAddr
  remotePort : UInt16
  family : Int
  protocol : Int
  err : NetErr
  deriving DecidableEq

/-- The control blocks of one protocol: the free blocks of `udp_mblock`, the list
`udp_list` and the blocks of `udp_tbl`. -/
structure SockPool where
  free : List Nat
  opened : List Nat
  sock : Nat → Sock

/-- `UDP_MAX_NR` and `RAW_MAX_NR`. -/
def sockMaxNr : Nat := 10

namespace Sock

/-- `sock_init`. -/
def sockInit (family protocol : Int) : Sock where
  localIp := 0
  localPort := 0
  remoteIp := 0
  remotePort := 0
  family := family
  protocol := protocol
  err := .ok

/-- The address is one that `sock_bind` accepts: zero, or that of an interface. -/
def bindable (routes : List IpRouteEntry) (addr : SockAddrIn) : Bool :=
  if addr.inAddr ≠ 0 then
    match routeFind addr.inAddr routes with
    | none => false
    | some entry => entry.netif.ipAddr = addr.inAddr
  else true

/-- `sock_bind`. -/
def sockBind (sock : Sock) (routes : List IpRouteEntry) (addr : SockAddrIn) : NetErr × Sock :=
  if bindable routes addr then
    (.ok, { sock with localIp := addr.inAddr, localPort := addr.sinPort })
  else (.param, sock)

/-- `sock_connect`. -/
def sockConnect (sock : Sock) (addr : SockAddrIn) : NetErr × Sock :=
  (.ok, { sock with remoteIp := addr.inAddr, remotePort := addr.sinPort })

end Sock

/-- What the variable `udp` of `udp_bind` holds before it is set: whether it is null, and
the local address and port that are read through it, if its target is mapped. -/
structure StaleUdp where
  isNull : Bool
  pointee : Option (IpAddr × UInt16)

namespace SockPool

/-- `init_udp` and `init_raw`. -/
def init (sock : Nat → Sock) : SockPool where
  free := List.range sockMaxNr
  opened := []
  sock := sock

def setSock (pool : SockPool) (block : Nat) (sock : Sock) : SockPool :=
  { pool with sock := Function.update pool.sock block sock }

/-- `udp_create` and `raw_create`.  `waitInit` is what `sock_wait_init` returns, which has
no return statement. -/
def create (pool : SockPool) (family protocol waitInit : Int) : Option Nat × SockPool :=
  match mblockAlloc pool.free 0 with
  | none => (none, pool)
  | some (block, free) =>
      let pool := { pool with free }.setSock block (.sockInit family protocol)
      -- at `create_failed` the block does not go back to the pool
      if waitInit < 0 then (none, pool)
      else (some block, { pool with opened := pool.opened ++ [block] })

/-- `udp_close` and `raw_close`. -/
def close (pool : SockPool) (block : Nat) : NetErr × SockPool :=
  (.ok, { pool with opened := pool.opened.erase block, free := mblockFree pool.free block })

/-- `sock_bind` of a control block. -/
def sockBind (pool : SockPool) (block : Nat) (routes : List IpRouteEntry) (addr : SockAddrIn) :
    NetErr × SockPool :=
  let (err, sock) := (pool.sock block).sockBind routes addr
  (err, pool.setSock block sock)

/-- `sock_connect` of a control block. -/
def sockConnect (pool : SockPool) (block : Nat) (addr : SockAddrIn) : NetErr × SockPool :=
  let (err, sock) := (pool.sock block).sockConnect addr
  (err, pool.setSock block sock)

/-- `udp_bind`. -/
def udpBind (pool : SockPool) (block : Nat) (routes : List IpRouteEntry) (stale : StaleUdp)
    (addr : SockAddrIn) : Option (NetErr × SockPool) :=
  if (pool.sock block).localIp ≠ 0 then some (.binded, pool)
  else
    let port := swapU16 addr.sinPort
    let others := pool.opened.filter fun getUdp => getUdp ≠ block
    if others = [] then
      if stale.isNull then some (pool.sockBind block routes addr) else some (.binded, pool)
    else
      -- the loop compares what `udp` points to, not the socket of the list
      match stale.pointee with
      | none => none
      | some (localIp, localPort) =>
          if localIp = addr.inAddr ∧ localPort = port then some (.binded, pool)
          else if stale.isNull then some (pool.sockBind block routes addr)
          else some (.binded, pool)

/-- `is_port_used`. -/
def isPortUsed (pool : SockPool) (port : UInt16) : Bool :=
  pool.opened.any fun block => (pool.sock block).localPort = port

/-- `PORT_DYN_START`. -/
def portDynStart : Nat := 1024

/-- `PORT_DYN_END`. -/
def portDynEnd : Nat := 65535

/-- `alloc_port`. -/
def allocPort (pool : SockPool) (block : Nat) : NetErr × SockPool :=
  match (List.range' portDynStart (portDynEnd - portDynStart)).find?
      fun i => ! pool.isPortUsed (UInt16.ofNat i) with
  | none => (.none, pool)
  | some i => (.ok, pool.setSock block { pool.sock block with localPort := UInt16.ofNat i })

/-- The test of the destination in `udp_send_to`. -/
def refuses (sock : Sock) (dest : SockAddrIn) : Bool :=
  dest.inAddr ≠ 0 ∧ (dest.inAddr ≠ sock.remoteIp ∨ swapU16 dest.sinPort ≠ sock.remotePort)

/-- The ports in `udp_send_to`: whether it goes on to send. -/
def sendPort (pool : SockPool) (block : Nat) : Bool × SockPool :=
  if (pool.sock block).localPort ≠ 0 then
    let (err, pool) := pool.allocPort block
    let pool := pool.setSock block { pool.sock block with err := err }
    (! err.isError, pool)
  else (true, pool)

/-- `udp_send_to`: `hasBuf` says whether there is a buffer, and `sent` is the result of
filling a packet and passing it on. -/
def udpSendTo (pool : SockPool) (block : Nat) (hasBuf : Bool) (sent : NetErr)
    (dest : SockAddrIn) : NetErr × SockPool :=
  if refuses (pool.sock block) dest then (.connected, pool)
  else
    match pool.sendPort block with
    | (false, pool) => (.none, pool)
    | (true, pool) => (if hasBuf then (if sent.isError then sent else .ok) else .mem, pool)

/-- `raw_send_to`. -/
def rawSendTo (pool : SockPool) (block : Nat) (hasBuf : Bool) (sent : NetErr)
    (dest : SockAddrIn) : NetErr × SockPool :=
  if (pool.sock block).remoteIp ≠ 0 ∧ (pool.sock block).remoteIp ≠ dest.inAddr then
    (.connected, pool)
  else (if hasBuf then (if sent.isError then sent else .ok) else .mem, pool)

/-- `sock_send` on top of the `send_to` of the protocol. -/
def sockSend (pool : SockPool) (block : Nat) (sendTo : SockAddrIn → NetErr × SockPool) :
    NetErr × SockPool :=
  if (pool.sock block).remoteIp = 0 then (.unreach, pool)
  else sendTo ⟨swapU16 (pool.sock block).remotePort, (pool.sock block).remoteIp⟩

end SockPool

/-- Which `sock_ops_t` a `sock_t` has. -/
inductive SockOps where
  | raw | udp
  deriving DecidableEq

/-- A `sock_t` pointer: the protocol and the control block. -/
structure SockPtr where
  ops : SockOps
  block : Nat
  deriving DecidableEq

/-- The states of a `socket_t`. -/
inductive SocketState where
  | free | used
  deriving DecidableEq

/-- `socket_t`. -/
structure SocketT where
  state : SocketState
  sock : Option SockPtr
  deriving DecidableEq

/-- `SOCKET_MAX_NR`. -/
def socketMaxNr : Nat := 100

/-- `socket_tbl` and the control blocks. -/
structure Sockets where
  table : List SocketT
  raw : SockPool
  udp : SockPool

namespace Sockets

/-- `init_socket`, `init_raw` and `init_udp`. -/
def init (sock : Nat → Sock) : Sockets where
  table := List.replicate socketMaxNr ⟨.free, none⟩
  raw := .init sock
  udp := .init sock

def pool (sockets : Sockets) : SockOps → SockPool
  | .raw => sockets.raw
  | .udp => sockets.udp

def setPool (sockets : Sockets) (ops : SockOps) (pool : SockPool) : Sockets :=
  match ops with
  | .raw => { sockets with raw := pool }
  | .udp => { sockets with udp := pool }

def setSocket (sockets : Sockets) (idx : Nat) (socket : SocketT) : Sockets :=
  { sockets with table := sockets.table.set idx socket }

/-- `get_socket`: the `sock` of the entry, which is not null. -/
def getSocket (sockets : Sockets) (idx : Int) : Option SockPtr :=
  if idx < 0 ∨ socketMaxNr ≤ idx then none
  else (sockets.table[idx.toNat]?).bind (·.sock)

/-- `socket_alloc`. -/
def socketAlloc (sockets : Sockets) : Option (Nat × Sockets) :=
  (sockets.table.findIdx? fun socket => socket.state = .free).map fun idx =>
    (idx, { sockets with table := sockets.table.modify idx fun socket =>
      { socket with state := .used } })

/-- `socket_free`. -/
def socketFree (sockets : Sockets) (idx : Nat) : Sockets :=
  sockets.setSocket idx ⟨.free, none⟩

/-- The entry of `sock_tbl` for a type: its protocol and its `create`, which is null where
the table has no entry. -/
def sockInfo (type : Int) : Int × Option SockOps :=
  if type = 1 then (0, some .raw) else if type = 2 then (17, some .udp) else (0, none)

/-- `handle_sock_create`, with the number of the socket, which is -1 before the call. -/
def handleSockCreate (sockets : Sockets) (family type protocol waitInit : Int) :
    Option (NetErr × Int × Sockets) :=
  match sockets.socketAlloc with
  | none => some (.mem, -1, sockets)
  | some (idx, sockets) =>
      if type < 0 ∨ 3 ≤ type then some (.param, -1, sockets.socketFree idx)
      else
        let (default, create) := sockInfo type
        let protocol := if protocol = 0 then default else protocol
        match create with
        | none => none
        | some ops =>
            match (sockets.pool ops).create family protocol waitInit with
            | (none, pool) => some (.mem, -1, (sockets.setPool ops pool).socketFree idx)
            | (some block, pool) =>
                some (.ok, idx, (sockets.setPool ops pool).setSocket idx ⟨.used, some ⟨ops, block⟩⟩)

def IsOpen (sockets : Sockets) (sock : SockPtr) : Prop :=
  sock.block ∈ (sockets.pool sock.ops).opened

instance (sockets : Sockets) (sock : SockPtr) : Decidable (sockets.IsOpen sock) :=
  inferInstanceAs (Decidable (_ ∈ _))

def onSocket (sockets : Sockets) (sockFd : Int)
    (operation : SockPtr → SockPool → Option (NetErr × SockPool)) :
    Option (NetErr × Sockets) :=
  match sockets.getSocket sockFd with
  | none => some (.param, sockets)
  | some sock =>
      if sockets.IsOpen sock then do
        let (err, pool) ← operation sock (sockets.pool sock.ops)
        some (err, sockets.setPool sock.ops pool)
      else none

/-- `handle_sock_close`. -/
def handleSockClose (sockets : Sockets) (sockFd : Int) : Option (NetErr × Sockets) :=
  sockets.onSocket sockFd fun sock pool => some (pool.close sock.block)

/-- `handle_sock_bind`. -/
def handleSockBind (sockets : Sockets) (sockFd : Int) (routes : List IpRouteEntry)
    (stale : StaleUdp) (addr : SockAddrIn) : Option (NetErr × Sockets) :=
  sockets.onSocket sockFd fun sock pool =>
    match sock.ops with
    | .raw => some (pool.sockBind sock.block routes addr)
    | .udp => pool.udpBind sock.block routes stale addr

/-- `handle_sock_connect`. -/
def handleSockConnect (sockets : Sockets) (sockFd : Int) (addr : SockAddrIn) :
    Option (NetErr × Sockets) :=
  sockets.onSocket sockFd fun sock pool => some (pool.sockConnect sock.block addr)

/-- `handle_sock_send`. -/
def handleSockSend (sockets : Sockets) (sockFd : Int) (hasBuf : Bool) (sent : NetErr) :
    Option (NetErr × Sockets) :=
  sockets.onSocket sockFd fun sock pool =>
    let pool := pool.setSock sock.block { pool.sock sock.block with err := .ok }
    match sock.ops with
    | .raw => some (pool.sockSend sock.block (pool.rawSendTo sock.block hasBuf sent))
    | .udp => some (pool.sockSend sock.block (pool.udpSendTo sock.block hasBuf sent))

/-- `handle_sock_receive`: `received` is the result of reading a packet. -/
def handleSockReceive (sockets : Sockets) (sockFd : Int) (received : NetErr) :
    Option (NetErr × Sockets) :=
  sockets.onSocket sockFd fun _ pool => some (received, pool)

end Sockets

end CleanOS.Net
