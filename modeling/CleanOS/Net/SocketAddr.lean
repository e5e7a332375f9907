import CleanOS.Net.UdpOut
import CleanOS.Net.UdpPorts

/-!
# Addresses of UDP sockets

The addresses that go through `socket_send_to`, `socket_receive_from`, `socket_connect` and
`socket_send` of `kernel/net/socket.c` to the datagrams on the wire.  The request carries an
address to the worker thread, where neither `handle_sock_send` nor `handle_sock_receive` uses it.
-/

namespace CleanOS.Net

/-- The arguments of a call of `udp_out`. -/
structure OutCall where
  dest : IpAddr
  dport : UInt16
  src : IpAddr
  sport : UInt16
  payload : List UInt8

namespace SockPool

/-- `udp_send_to`, with the call of `udp_out` if it comes to one; `out` is the answer of filling
a packet and passing it on. -/
def udpSendToOut (pool : SockPool) (block : Nat) (buf : Option (List UInt8))
    (out : OutCall → NetErr) (dest : SockAddrIn) : NetErr × SockPool × Option OutCall :=
  if refuses (pool.sock block) dest then (.connected, pool, none)
  else
    match pool.sendPort block, buf with
    | (false, pool), _ => (.none, pool, none)
    | (true, pool), none => (.mem, pool, none)
    | (true, pool), some bytes =>
        let sock := pool.sock block
        let call : OutCall :=
          ⟨dest.inAddr, swapU16 dest.sinPort, sock.localIp, sock.localPort, bytes⟩
        (if (out call).isError then out call else .ok, pool, some call)

/-- `sock_send` of a UDP socket, which makes an address of the remote one. -/
def sockSendOut (pool : SockPool) (block : Nat) (buf : Option (List UInt8))
    (out : OutCall → NetErr) : NetErr × SockPool × Option OutCall :=
  let sock := pool.sock block
  if sock.remoteIp = 0 then (.unreach, pool, none)
  else pool.udpSendToOut block buf out ⟨swapU16 sock.remotePort, sock.remoteIp⟩

/-- `handle_sock_send` of a UDP socket, which does not use the address of the request. -/
def handleSendOut (pool : SockPool) (block : Nat) (buf : Option (List UInt8))
    (_addr : Option SockAddrIn) (out : OutCall → NetErr) : NetErr × SockPool × Option OutCall :=
  (pool.setSock block { pool.sock block with err := .ok }).sockSendOut block buf out

/-- The loop of `socket_send` and `socket_send_to`: an accepted request sends all bytes. -/
def sendLoop (pool : SockPool) (block : Nat) (buf : List UInt8) (addr : Option SockAddrIn)
    (out : OutCall → NetErr) : Int × SockPool × Option OutCall :=
  if buf = [] then (0, pool, none)
  else
    match pool.handleSendOut block (some buf) addr out with
    | (err, pool, call) => (if err.isError then -1 else buf.length, pool, call)

/-- `socket_send_to` with an address of `AF_INET` and its size. -/
def socketSendTo (pool : SockPool) (block : Nat) (buf : List UInt8) (dest : SockAddrIn)
    (out : OutCall → NetErr) : Int × SockPool × Option OutCall :=
  if buf = [] then (-1, pool, none) else pool.sendLoop block buf (some dest) out

/-- `socket_send`. -/
def socketSend (pool : SockPool) (block : Nat) (buf : List UInt8) (out : OutCall → NetErr) :
    Int × SockPool × Option OutCall :=
  pool.sendLoop block buf none out

/-- `socket_connect` with an address of `AF_INET` and its size. -/
def socketConnect (pool : SockPool) (block : Nat) (addr : SockAddrIn) : Int × SockPool :=
  if addr.inAddr = 0 then (-1, pool)
  else
    let (err, pool) := pool.sockConnect block addr
    (if err.isError then -1 else 0, pool)

end SockPool

/-- `socket_receive_from` with what lies at `src`: the request carries its address, and
`sock_receive` passes that of a variable of its own to `udp_receive_from`. -/
def socketReceiveFromAt (sock : SockRecv) (len : UInt32) (src : SockAddrIn) :
    Option (UserResult × List UInt8 × SockAddrIn × SockRecv) :=
  (socketReceiveFrom .udp sock true len true true).map fun (result, bytes, sock) =>
    (result, bytes, src, sock)

/-- The datagram of a call of `udp_out` has the address as its destination, whatever its
checksum is. -/
def OutCall.Carries (call : OutCall) (addr : SockAddrIn) : Prop :=
  call.dest = addr.inAddr ∧ ∀ sum,
    (field16 (datagram call.sport call.dport sum call.payload) 2).toUInt16 = addr.sinPort

def UnconnectedOrTo (sock : Sock) (addr : SockAddrIn) : Prop :=
  sock.remoteIp = 0 ∨ (sock.remoteIp = addr.inAddr ∧ sock.remotePort = addr.sinPort)

def Palindromic (port : UInt16) : Prop :=
  swapU16 port = port

instance (port : UInt16) : Decidable (Palindromic port) :=
  inferInstanceAs (Decidable (_ = _))

/-- `socket_send_to` sends nothing that does not carry the address. -/
def SendToRight (pool : SockPool) (block : Nat) (buf : List UInt8) (dest : SockAddrIn)
    (out : OutCall → NetErr) : Prop :=
  ∀ call ∈ (pool.socketSendTo block buf dest out).2.2, call.Carries dest

/-- `socket_send_to` sends a datagram, and it carries the address. -/
def SendToReaches (pool : SockPool) (block : Nat) (buf : List UInt8) (addr : SockAddrIn)
    (out : OutCall → NetErr) : Prop :=
  ∃ call, (pool.socketSendTo block buf addr out).2.2 = some call ∧ call.Carries addr

/-- `socket_connect` and then `socket_send` send a datagram, and it carries the address. -/
def ConnectReaches (pool : SockPool) (block : Nat) (buf : List UInt8) (addr : SockAddrIn)
    (out : OutCall → NetErr) : Prop :=
  ∃ call, ((pool.socketConnect block addr).2.socketSend block buf out).2.2 = some call ∧
    call.Carries addr

namespace SockPool

variable {pool : SockPool} {block : Nat} {buf : List UInt8} {out : OutCall → NetErr}
  {dest addr : SockAddrIn} {call : OutCall}

theorem udpSendToOut_eq (pool : SockPool) (block : Nat) (buf : List UInt8)
    (out : OutCall → NetErr) (dest : SockAddrIn) :
    ∃ sent, (pool.udpSendToOut block (some buf) out dest).1 =
        (pool.udpSendTo block true sent dest).1 ∧
      (pool.udpSendToOut block (some buf) out dest).2.1 =
        (pool.udpSendTo block true sent dest).2 := by
  unfold udpSendToOut udpSendTo
  split
  · exact ⟨.ok, rfl, rfl⟩
  · cases pool.sendPort block with
    | mk goesOn after =>
        cases goesOn with
        | false => exact ⟨.ok, rfl, rfl⟩
        | true => exact ⟨_, rfl, rfl⟩

theorem sendPort_goesOn (divided : pool.Divided) (block : Nat) :
    (pool.sendPort block).1 = true := by
  unfold sendPort
  split
  · obtain ⟨port, -, -, allocEq⟩ := allocPort_eq divided block
    rw [allocEq]
    rfl
  · rfl

theorem cleared_sock : (pool.setSock block { pool.sock block with err := .ok }).sock block =
    { pool.sock block with err := .ok } :=
  setSock_self pool block _

theorem handleSendOut_call (divided : pool.Divided)
    (isConnected : (pool.sock block).remoteIp ≠ 0) (addr : Option SockAddrIn) :
    ∃ call, (pool.handleSendOut block (some buf) addr out).2.2 = some call ∧
      call.dest = (pool.sock block).remoteIp ∧ call.dport = (pool.sock block).remotePort := by
  have goesOn := sendPort_goesOn
    (divided_setSock divided block { pool.sock block with err := .ok }) block
  have accepted := not_refuses_remote { pool.sock block with err := .ok }
  simp only [handleSendOut, sockSendOut, cleared_sock, if_neg isConnected, udpSendToOut]
  rw [if_neg (Bool.eq_false_iff.mp accepted)]
  cases sent : (pool.setSock block { pool.sock block with err := .ok }).sendPort block with
  | mk ready after =>
      rw [sent] at goesOn
      obtain rfl : ready = true := goesOn
      exact ⟨_, rfl, rfl, swapU16_swapU16 _⟩

theorem handleSendOut_unconnected (unconnected : (pool.sock block).remoteIp = 0)
    (addr : Option SockAddrIn) :
    (pool.handleSendOut block (some buf) addr out).2.2 = none := by
  simp only [handleSendOut, sockSendOut, cleared_sock, if_pos unconnected]

theorem carries_iff : call.Carries addr ↔
    call.dest = addr.inAddr ∧ swapU16 call.dport = addr.sinPort := by
  have wire (sum : Nat) : (field16 (datagram call.sport call.dport sum call.payload) 2).toUInt16 =
      swapU16 call.dport :=
    field16_bytes16 (swapU16 call.dport)
  unfold OutCall.Carries
  simp only [wire, forall_const]

theorem sendToReaches_iff (divided : pool.Divided) (nonempty : buf ≠ []) :
    SendToReaches pool block buf addr out ↔ (pool.sock block).remoteIp ≠ 0 ∧
      (pool.sock block).remoteIp = addr.inAddr ∧
        swapU16 (pool.sock block).remotePort = addr.sinPort := by
  unfold SendToReaches socketSendTo sendLoop
  rw [if_neg nonempty, if_neg nonempty]
  by_cases unconnected : (pool.sock block).remoteIp = 0
  · apply iff_of_false
    · rintro ⟨call, isCall, -⟩
      rw [handleSendOut_unconnected unconnected] at isCall
      cases isCall
    · rintro ⟨isConnected, -⟩
      exact isConnected unconnected
  · obtain ⟨call, isCall, dest, dport⟩ := handleSendOut_call divided unconnected (some addr)
    rw [isCall, ← dest, ← dport]
    constructor
    · rintro ⟨other, same, carries⟩
      obtain rfl := Option.some.inj same
      exact ⟨dest ▸ unconnected, carries_iff.mp carries⟩
    · rintro ⟨-, carries⟩
      exact ⟨call, rfl, carries_iff.mpr carries⟩

theorem sendToRight_iff (divided : pool.Divided) (nonempty : buf ≠ [])
    (isTo : UnconnectedOrTo (pool.sock block) dest) :
    SendToRight pool block buf dest out ↔
      (pool.sock block).remoteIp = 0 ∨ Palindromic dest.sinPort := by
  unfold SendToRight socketSendTo sendLoop
  rw [if_neg nonempty, if_neg nonempty]
  by_cases unconnected : (pool.sock block).remoteIp = 0
  · apply iff_of_true
    · intro call isCall
      rw [handleSendOut_unconnected unconnected] at isCall
      cases isCall
    · exact Or.inl unconnected
  · obtain ⟨remoteIp, remotePort⟩ := isTo.resolve_left unconnected
    obtain ⟨call, isCall, isDest, isPort⟩ := handleSendOut_call divided unconnected (some dest)
    rw [isCall]
    constructor
    · intro right
      have carries := carries_iff.mp (right call rfl)
      rw [isPort, remotePort] at carries
      exact Or.inr carries.right
    · rintro (isZero | palindromic) other same
      · exact absurd isZero unconnected
      · obtain rfl := Option.some.inj same
        apply carries_iff.mpr
        rw [isDest, isPort, remoteIp, remotePort]
        exact ⟨rfl, palindromic⟩

theorem connectReaches_iff (divided : pool.Divided) (nonempty : buf ≠ [])
    (isAddr : addr.inAddr ≠ 0) :
    ConnectReaches pool block buf addr out ↔ Palindromic addr.sinPort := by
  have connects : (pool.socketConnect block addr).2 =
      pool.setSock block { pool.sock block with
        remoteIp := addr.inAddr, remotePort := addr.sinPort } := by
    unfold socketConnect
    rw [if_neg isAddr]
    rfl
  have after : ((pool.socketConnect block addr).2.sock block) =
      { pool.sock block with remoteIp := addr.inAddr, remotePort := addr.sinPort } := by
    rw [connects, setSock_self]
  have dividedAfter : (pool.socketConnect block addr).2.Divided := by
    rw [connects]
    exact divided_setSock divided block _
  have isConnected : ((pool.socketConnect block addr).2.sock block).remoteIp ≠ 0 := by
    rw [after]
    exact isAddr
  obtain ⟨call, isCall, isDest, isPort⟩ :=
    @handleSendOut_call _ block buf out dividedAfter isConnected none
  rw [after] at isDest isPort
  unfold ConnectReaches socketSend sendLoop
  rw [if_neg nonempty, isCall]
  constructor
  · rintro ⟨other, same, carries⟩
    obtain rfl := Option.some.inj same
    have port := (carries_iff.mp carries).right
    rw [isPort] at port
    exact port
  · intro palindromic
    refine ⟨call, rfl, ?_⟩
    apply carries_iff.mpr
    rw [isDest, isPort]
    exact ⟨rfl, palindromic⟩

end SockPool

theorem socketReceiveFromAt_src {sock after : SockRecv} {len : UInt32} {src src' : SockAddrIn}
    {result : UserResult} {bytes : List UInt8}
    (run : socketReceiveFromAt sock len src = some (result, bytes, src', after)) : src' = src := by
  obtain ⟨_, -, same⟩ := Option.map_eq_some_iff.mp run
  cases same
  rfl

/-- What `socket_send_to` sends carries the address, and an address that a socket is connected
to is reached, exactly if the bytes of the port are the same; the sender's address is at `src`
exactly if it was there before; and `socket_send_to` reaches an address exactly if the socket
is connected to it with the bytes of the port swapped. -/
theorem addressing_right {pool : SockPool} {block : Nat} (divided : pool.Divided)
    {buf : List UInt8} (nonempty : buf ≠ []) (out : OutCall → NetErr) :
    (∀ dest, UnconnectedOrTo (pool.sock block) dest →
      (SendToRight pool block buf dest out ↔
        (pool.sock block).remoteIp = 0 ∨ Palindromic dest.sinPort)) ∧
    (∀ (sock : SockRecv) (queued : Pktbuf) rest (entry : UdpEntry) len src result bytes src' after,
      sock.recvList = queued :: rest → Holds queued entry →
      socketReceiveFromAt sock len src = some (result, bytes, src', after) →
      (src' = ⟨entry.srcPort, entry.src⟩ ↔ src = ⟨entry.srcPort, entry.src⟩)) ∧
    ∀ addr : SockAddrIn, addr.inAddr ≠ 0 →
      (ConnectReaches pool block buf addr out ↔ Palindromic addr.sinPort) ∧
      (SendToReaches pool block buf addr out ↔ (pool.sock block).remoteIp = addr.inAddr ∧
        swapU16 (pool.sock block).remotePort = addr.sinPort) := by
  refine ⟨?_, ?_, ?_⟩
  · intro dest isTo
    exact SockPool.sendToRight_iff divided nonempty isTo
  · intro sock queued rest entry len src result bytes src' after _ _ run
    rw [socketReceiveFromAt_src run]
  · intro addr isAddr
    refine ⟨SockPool.connectReaches_iff divided nonempty isAddr, ?_⟩
    rw [SockPool.sendToReaches_iff divided nonempty]
    constructor
    · rintro ⟨-, reaches⟩
      exact reaches
    · rintro ⟨remoteIp, remotePort⟩
      exact ⟨remoteIp ▸ isAddr, remoteIp, remotePort⟩

def connected53 : SockPool :=
  ((SockPool.init fun _ => .sockInit 0 17).sockConnect 0 ⟨0x3500, 0x0500000a⟩).2

theorem connected53_divided : connected53.Divided :=
  SockPool.divided_setSock (SockPool.divided_init _) 0 _

theorem addressing_right_palindrome :
    ConnectReaches connected53 0 [1] ⟨0x3535, 0x0500000a⟩ (fun _ => .ok) ∧
      SendToRight connected53 1 [1] ⟨0x3500, 0x0500000a⟩ (fun _ => .ok) := by
  have right := @addressing_right connected53 0 connected53_divided [1] (List.cons_ne_nil _ _)
    fun _ => .ok
  have other := @addressing_right connected53 1 connected53_divided [1] (List.cons_ne_nil _ _)
    fun _ => .ok
  constructor
  · have reaches := right.right.right ⟨0x3535, 0x0500000a⟩ (by decide)
    exact reaches.left.mpr (by decide)
  · have unconnected : (connected53.sock 1).remoteIp = 0 := rfl
    exact (other.left ⟨0x3500, 0x0500000a⟩ (Or.inl unconnected)).mpr (Or.inl unconnected)

/-- A socket that is connected to the port 53 sends to the port 13568, the address of a sender is
not stored, and a socket that is not connected sends nothing. -/
theorem port53_wrong :
    ¬ SendToRight connected53 0 [1] ⟨0x3500, 0x0500000a⟩ (fun _ => .ok) ∧
      ¬ ConnectReaches connected53 1 [1] ⟨0x3500, 0x0500000a⟩ (fun _ => .ok) ∧
      ¬ SendToReaches connected53 1 [1] ⟨0x3500, 0x0500000a⟩ (fun _ => .ok) ∧
      ∀ sock len src result bytes src' after,
        socketReceiveFromAt sock len src = some (result, bytes, src', after) → src' = src := by
  have different : ¬ Palindromic 0x3500 := by
    decide
  refine ⟨?_, ?_, ?_, ?_⟩
  · intro right
    have isTo : UnconnectedOrTo (connected53.sock 0) ⟨0x3500, 0x0500000a⟩ := Or.inr ⟨rfl, rfl⟩
    have cond := (SockPool.sendToRight_iff connected53_divided (List.cons_ne_nil _ _) isTo).mp right
    rcases cond with isZero | palindromic
    · exact absurd isZero (by decide)
    · exact different palindromic
  · intro reaches
    have isAddr : (0x0500000a : IpAddr) ≠ 0 := by
      decide
    have sends := @SockPool.connectReaches_iff connected53 1 [1] (fun _ => .ok)
      ⟨0x3500, 0x0500000a⟩ connected53_divided (List.cons_ne_nil _ _) isAddr
    exact different (sends.mp reaches)
  · intro reaches
    have sends := @SockPool.sendToReaches_iff connected53 1 [1] (fun _ => .ok)
      ⟨0x3500, 0x0500000a⟩ connected53_divided (List.cons_ne_nil _ _)
    have unconnected : (connected53.sock 1).remoteIp = 0 := rfl
    exact (sends.mp reaches).left unconnected
  · intro sock len src result bytes src' after run
    exact socketReceiveFromAt_src run

end CleanOS.Net
