import CleanOS.Net.InPlace
import CleanOS.Net.Sock
import CleanOS.Net.SockWait

/-!
# Receiving a queued datagram

`socket_receive` and `socket_receive_from` of `kernel/net/socket.c`, up to their first
return or wait, with `handle_sock_receive` and the functions of UDP and of raw sockets that
it calls.  The result of a call, the request to wait and the number of bytes go through one
number.
-/

namespace CleanOS.Net

/-- `sizeof(udp_from_t)`. -/
abbrev udpFromLen : Int := 28

/-- The cast of a length to `int`. -/
def asInt (len : UInt32) : Int :=
  len.toInt32.toInt

/-- What a function `receive_from` returns and stores: at the pointer to the number of
bytes, at the source address and in the buffer. -/
structure Received where
  err : NetErr
  resultLen : Int
  src : Option SockAddrIn
  bytes : List UInt8

/-- The receive side of a socket, with the pools its packets go back to. -/
structure SockRecv where
  recvList : List Pktbuf
  recvWait : SockWait
  mem : PktMem

/-- The sockets of one protocol: their control blocks, the members `recv_list` and `recv_wait`
of `udp_t` or `raw_t`, and the packet pools. -/
structure SockLayer where
  socks : SockPool
  recvList : Nat → List Pktbuf
  recvWait : Nat → SockWait
  mem : PktMem

/-- The end of `udp_in` and of `raw_in`: the packet is queued and a waiting thread woken, or
it is freed. -/
def SockLayer.append (layer : SockLayer) (block : Nat) (buf : Pktbuf) : Option Nat × SockLayer :=
  if (layer.recvList block).length < maxRecv then
    (some block, { layer with
      socks := layer.socks.setSock block { layer.socks.sock block with err := .ok }
      recvList := Function.update layer.recvList block (layer.recvList block ++ [buf])
      recvWait := Function.update layer.recvWait block ((layer.recvWait block).sockWaitLeave .ok) })
  else (none, { layer with mem := layer.mem.pktbufFree buf })

theorem SockLayer.append_room {layer : SockLayer} {block : Nat} {queued : Pktbuf}
    (room : (layer.recvList block).length < maxRecv) :
    ∃ after, layer.append block queued = (some block, after) ∧
      after.recvList = Function.update layer.recvList block (layer.recvList block ++ [queued]) :=
  ⟨_, if_pos room, rfl⟩

/-- `udp_receive_from`; `resultLen` is the number of bytes stored before the call. -/
def udpReceiveFrom (sock : SockRecv) (hasBuf : Bool) (len : UInt32) (hasSrc : Bool)
    (resultLen : Int) : Option (Received × SockRecv) :=
  match sock.recvList with
  | [] => some (⟨.needWait, 0, none, []⟩, sock)
  | pktbuf :: recvList => do
      let port ← dataAt pktbuf 24 2
      let addr ← dataAt pktbuf 4 4
      if ¬ hasSrc then none
      else
        let src : SockAddrIn :=
          { sinPort := swapU16 (field16 port 0).toUInt16, inAddr := ipAddrFromBuf addr }
        let (_, pktbuf, free) ← pktbufRemoveHeader pktbuf udpFromLen sock.mem.blockList
        let mem := { sock.mem with blockList := free }
        let size := if pktbuf.totalSize > asInt len then asInt len else pktbuf.totalSize
        let (err, pktbuf, bytes) ← pktbufRead (pktbufResetAcc pktbuf) hasBuf size
        let sock := { sock with recvList, mem := mem.pktbufFree pktbuf }
        if err.isError then some (⟨err, resultLen, some src, bytes⟩, sock)
        else some (⟨.ok, size, some src, bytes⟩, sock)

/-- `raw_receive_from`.  A packet that cannot be read is not freed; the pointer to the
buffer is, which has no defined result. -/
def rawReceiveFrom (sock : SockRecv) (hasBuf : Bool) (len : UInt32) (hasSrc : Bool)
    (resultLen : Int) : Option (Received × SockRecv) :=
  match sock.recvList with
  | [] => some (⟨.needWait, resultLen, none, []⟩, sock)
  | pktBuf :: recvList => do
      let addr ← dataAt pktBuf 12 4
      if ¬ hasSrc then none
      else
        let src : SockAddrIn := { sinPort := 0, inAddr := ipAddrFromBuf addr }
        -- The size of the packet is compared as an unsigned number.
        let size := if pktBuf.totalSize % 2 ^ 32 > len.toNat then (len.toNat : Int)
          else pktBuf.totalSize
        let (err, pktBuf, bytes) ← pktbufRead (pktbufResetAcc pktBuf) hasBuf size
        if err.isError then none
        else some (⟨.ok, size, some src, bytes⟩,
          { sock with recvList, mem := sock.mem.pktbufFree pktBuf })

/-- The member `receive_from` of `sock_ops_t`. -/
def SockOps.receiveFrom : SockOps → SockRecv → Bool → UInt32 → Bool → Int →
    Option (Received × SockRecv)
  | .udp => udpReceiveFrom
  | .raw => rawReceiveFrom

/-- `sock_receive`, which has a source address of its own. -/
def sockReceive (ops : SockOps) (sock : SockRecv) (hasBuf : Bool) (len : UInt32)
    (resultLen : Int) : Option (Received × SockRecv) :=
  ops.receiveFrom sock hasBuf len true resultLen

/-- `handle_sock_receive`, with whether it sets the request's wait. -/
def handleSockReceive (ops : SockOps) (sock : SockRecv) (hasBuf : Bool) (len : UInt32) :
    Option (Received × Bool × SockRecv) := do
  let (received, sock) ← sockReceive ops sock hasBuf len 0
  if received.err = .needWait then
    some (received, true, { sock with recvWait := sock.recvWait.sockWaitAdd })
  else some (received, false, sock)

/-- How far a call of the user comes: it returns, or it enters a wait, which is null when
the request has none. -/
inductive UserResult where
  | returned (value : Int)
  | blocked
  | nullWait
deriving DecidableEq

/-- One pass of the loop of `socket_receive` and `socket_receive_from`. -/
def receivePass (ops : SockOps) (sock : SockRecv) (hasBuf : Bool) (len : UInt32) :
    Option (UserResult × List UInt8 × SockRecv) := do
  let (received, hasWait, sock) ← handleSockReceive ops sock hasBuf len
  if received.err.isError then some (.returned (-1), received.bytes, sock)
  else if received.resultLen ≠ 0 then
    some (.returned received.resultLen, received.bytes, sock)
  else if hasWait then some (.blocked, received.bytes, sock)
  else some (.nullWait, received.bytes, sock)

/-- `socket_receive`, to its first return or wait. -/
def socketReceive (ops : SockOps) (sock : SockRecv) (hasBuf : Bool) (len : UInt32) :
    Option (UserResult × List UInt8 × SockRecv) :=
  if len = 0 then some (.returned (-1), [], sock) else receivePass ops sock hasBuf len

/-- `socket_receive_from`, to its first return or wait. -/
def socketReceiveFrom (ops : SockOps) (sock : SockRecv) (hasBuf : Bool) (len : UInt32)
    (hasSrc hasSrcLen : Bool) : Option (UserResult × List UInt8 × SockRecv) :=
  if len = 0 ∨ ¬ hasSrcLen ∨ ¬ hasSrc then some (.returned (-1), [], sock)
  else receivePass ops sock hasBuf len

/-- A call with a buffer, and with a place for the source where one is asked for. -/
structure UserCall where
  withSource : Bool
  len : UInt32

def UserCall.run (call : UserCall) (ops : SockOps) (sock : SockRecv) :
    Option (UserResult × List UInt8 × SockRecv) :=
  if call.withSource then socketReceiveFrom ops sock true call.len true true
  else socketReceive ops sock true call.len

def receiveAll (ops : SockOps) : SockRecv → List UserCall →
    Option (List (UserResult × List UInt8) × SockRecv)
  | sock, [] => some ([], sock)
  | sock, call :: calls => do
      let (result, bytes, sock) ← call.run ops sock
      let (results, sock) ← receiveAll ops sock calls
      some ((result, bytes) :: results, sock)

def SockOps.frontLen : SockOps → Nat
  | .udp => 28
  | .raw => 0

def SockOps.headerLen : SockOps → Int
  | .udp => 28
  | .raw => 20

def SockOps.payload (ops : SockOps) (buf : Pktbuf) : List UInt8 :=
  buf.content.drop ops.frontLen

/-- A packet as a receive list holds it: what is read in place lies in one block. -/
structure Datagram (ops : SockOps) (buf : Pktbuf) : Prop where
  wellFormed : buf.WellFormed
  distinct : (blkIds buf.blkList).Nodup
  header : ∃ first rest, buf.blkList = first :: rest ∧ first.data + ops.headerLen ≤ pktbufBlkSize
  front : ops.frontLen ≤ buf.content.length
  int : buf.totalSize < 2 ^ 31

/-- The call has room for bytes, and the packet has some; the room for those of a UDP packet
is not negative as an `int`. -/
def Receivable (ops : SockOps) (buf : Pktbuf) (call : UserCall) : Prop :=
  call.len ≠ 0 ∧ ops.payload buf ≠ [] ∧ (ops = .udp → call.len.toNat < 2 ^ 31)

def delivered (ops : SockOps) (buf : Pktbuf) (call : UserCall) : UserResult × List UInt8 :=
  (.returned (min call.len.toNat (ops.payload buf).length : Nat),
    (ops.payload buf).take call.len.toNat)

/-- Calls that all return at once, with the first packets in their order, and take these and
no others. -/
def ReceivesEach (ops : SockOps) (sock : SockRecv) (calls : List UserCall) : Prop :=
  ∃ after, receiveAll ops sock calls =
      some (List.zipWith (delivered ops) sock.recvList calls, after) ∧
    after.recvList = sock.recvList.drop calls.length

section Lengths

variable {len : UInt32}

theorem asInt_small (small : len.toNat < 2 ^ 31) : asInt len = len.toNat := by
  have cond := BitVec.toInt_eq_toNat_cond len.toBitVec
  have fits : 2 * len.toBitVec.toNat < 2 ^ 32 := by
    change 2 * len.toNat < 2 ^ 32
    omega
  rw [if_pos fits] at cond
  exact cond

theorem asInt_large (large : 2 ^ 31 ≤ len.toNat) : asInt len < 0 := by
  have cond := BitVec.toInt_eq_toNat_cond len.toBitVec
  have inWord := len.toNat_lt
  have wraps : ¬ 2 * len.toBitVec.toNat < 2 ^ 32 := by
    change ¬ 2 * len.toNat < 2 ^ 32
    omega
  rw [if_neg wraps] at cond
  have negative : ((len.toNat : Nat) : Int) - ((2 ^ 32 : Nat) : Int) < 0 := by omega
  exact lt_of_eq_of_lt cond negative

end Lengths

section Receive

variable {ops : SockOps} {sock : SockRecv} {buf : Pktbuf} {rest : List Pktblk}

theorem pktbufRead_first {size : Int} (holds : buf.WellFormed)
    (distinct : (blkIds buf.blkList).Nodup) (within : size ≤ buf.totalSize) :
    ∃ after, pktbufRead (pktbufResetAcc buf) true size =
      some (.ok, after, buf.content.take size.toNat) := by
  obtain ⟨current, pos, blks, layout⟩ := pktbufResetAcc_spec holds distinct
  have content : (pktbufResetAcc buf).content = buf.content := by rw [Pktbuf.content, blks]; rfl
  have remain : totalBlkRemain (pktbufResetAcc buf) = buf.totalSize := by
    rw [totalBlkRemain, pos, layout.total, Int.sub_zero]
  by_cases positive : 0 < size
  · obtain ⟨after, readEq, -⟩ := @pktbufRead_spec _ size (layout.wellFormed holds) current positive
      (by omega)
    refine ⟨after, ?_⟩
    rw [readEq, pos, content]
    rfl
  · have none : size.toNat = 0 := by omega
    by_cases zero : size = 0
    · exact ⟨_, by rw [none]; exact if_pos (.inr zero)⟩
    · have given : ¬ (¬ true ∨ size = 0) := by
        simp
        omega
      have enough : ¬ totalBlkRemain (pktbufResetAcc buf) < size := by
        have nonneg := holds.length_content
        omega
      refine ⟨pktbufResetAcc buf, ?_⟩
      rw [none, List.take_zero, pktbufRead, if_neg given, if_neg enough,
        cursorLoop_nothing (by omega)]
      rfl

theorem Datagram.dataAt (datagram : Datagram ops buf) {offset count : Int} (lower : 0 ≤ offset)
    (nonneg : 0 ≤ count) (upper : offset + count ≤ ops.headerLen) :
    ∃ bytes, CleanOS.Net.dataAt buf offset count = some bytes := by
  obtain ⟨first, rest, blks, header⟩ := datagram.header
  have window : first.InPayload := datagram.wellFormed.windows first (by rw [blks]; simp)
  have data := window.data
  have inside : 0 ≤ first.data + offset ∧ 0 ≤ count ∧
      first.data + offset + count ≤ pktbufBlkSize := by omega
  refine ⟨slice first.payload (first.data + offset).toNat count.toNat, ?_⟩
  rw [CleanOS.Net.dataAt, blks]
  exact if_pos inside

theorem udpReceiveFrom_eq {recvList : List Pktbuf} {len : UInt32} {resultLen : Int}
    {port addr : List UInt8} (queued : sock.recvList = buf :: recvList)
    (datagram : Datagram .udp buf) (portEq : dataAt buf 24 2 = some port)
    (addrEq : dataAt buf 4 4 = some addr) :
    let size := min (asInt len) (SockOps.udp.payload buf).length
    let src : SockAddrIn := ⟨swapU16 (field16 port 0).toUInt16, ipAddrFromBuf addr⟩
    ∃ mem, udpReceiveFrom sock true len true resultLen =
      some (⟨.ok, size, some src, (SockOps.udp.payload buf).take size.toNat⟩,
        { sock with recvList, mem }) := by
  intro size src
  have total := datagram.wellFormed.length_content
  have front : 28 ≤ buf.content.length := datagram.front
  obtain ⟨stripped, free, removeEq, reshaped, newTotal, content, -⟩ :=
    @pktbufRemoveHeader_spec buf sock.mem.blockList udpFromLen datagram.wellFormed
      (by decide) (by simp only [udpFromLen]; omega)
  have distinct : (blkIds stripped.blkList).Nodup :=
    datagram.distinct.sublist (pktbufRemoveHeader_ids removeEq).sublist
  have payloadEq : stripped.content = SockOps.udp.payload buf := content
  have payloadLen := reshaped.wellFormed.length_content
  rw [payloadEq] at payloadLen
  have sizeEq : (if stripped.totalSize > asInt len then asInt len else stripped.totalSize) =
      size := by
    simp only [size, payloadLen]
    omega
  obtain ⟨after, readEq⟩ := @pktbufRead_first stripped size reshaped.wellFormed distinct
    (by simp only [size]; omega)
  refine ⟨PktMem.pktbufFree { sock.mem with blockList := free } after, ?_⟩
  have accepted : ¬ NetErr.ok.isError = true := Bool.false_ne_true
  simp only [udpReceiveFrom, queued, portEq, addrEq, removeEq, sizeEq, readEq,
    Option.bind_eq_bind, Option.bind_some, not_true_eq_false, if_false, if_neg accepted,
    payloadEq, src]

theorem udpReceiveFrom_datagram {recvList : List Pktbuf} {len : UInt32} {resultLen : Int}
    (queued : sock.recvList = buf :: recvList) (datagram : Datagram .udp buf) :
    let size := min (asInt len) (SockOps.udp.payload buf).length
    ∃ src mem, udpReceiveFrom sock true len true resultLen =
      some (⟨.ok, size, some src, (SockOps.udp.payload buf).take size.toNat⟩,
        { sock with recvList, mem }) := by
  obtain ⟨port, portEq⟩ :=
    @Datagram.dataAt .udp buf datagram 24 2 (by decide) (by decide) (by decide)
  obtain ⟨addr, addrEq⟩ :=
    @Datagram.dataAt .udp buf datagram 4 4 (by decide) (by decide) (by decide)
  exact ⟨_, udpReceiveFrom_eq queued datagram portEq addrEq⟩

theorem rawReceiveFrom_datagram {recvList : List Pktbuf} {len : UInt32} {resultLen : Int}
    (queued : sock.recvList = buf :: recvList) (datagram : Datagram .raw buf) :
    let size := min len.toNat (SockOps.raw.payload buf).length
    ∃ src mem, rawReceiveFrom sock true len true resultLen =
      some (⟨.ok, size, some src, (SockOps.raw.payload buf).take size⟩,
        { sock with recvList, mem }) := by
  intro size
  obtain ⟨addr, addrEq⟩ :=
    @Datagram.dataAt .raw buf datagram 12 4 (by decide) (by decide) (by decide)
  have total := datagram.wellFormed.length_content
  have int := datagram.int
  have whole : SockOps.raw.payload buf = buf.content := List.drop_zero
  have sizeEq : (if buf.totalSize % 2 ^ 32 > len.toNat then (len.toNat : Int)
      else buf.totalSize) = size := by
    simp only [size, whole]
    omega
  obtain ⟨after, readEq⟩ := @pktbufRead_first buf size datagram.wellFormed datagram.distinct
    (by simp only [size, whole]; omega)
  refine ⟨{ sinPort := 0, inAddr := ipAddrFromBuf addr }, sock.mem.pktbufFree after, ?_⟩
  have accepted : ¬ NetErr.ok.isError = true := Bool.false_ne_true
  simp only [rawReceiveFrom, queued, addrEq, sizeEq, readEq, Option.bind_eq_bind,
    Option.bind_some, not_true_eq_false, if_false, if_neg accepted, whole, Int.toNat_natCast]

def SockOps.sizeFor (ops : SockOps) (len : UInt32) (count : Nat) : Int :=
  match ops with
  | .udp => min (asInt len) count
  | .raw => min (len.toNat : Int) count

theorem receivePass_datagram {recvList : List Pktbuf} {len : UInt32}
    (queued : sock.recvList = buf :: recvList) (datagram : Datagram ops buf) :
    let size := ops.sizeFor len (ops.payload buf).length
    ∃ mem, receivePass ops sock true len =
      some (if size = 0 then .nullWait else .returned size, (ops.payload buf).take size.toNat,
        { sock with recvList, mem }) := by
  intro size
  obtain ⟨src, mem, receiveEq⟩ : ∃ src mem, ops.receiveFrom sock true len true 0 =
      some (⟨.ok, size, some src, (ops.payload buf).take size.toNat⟩,
        { sock with recvList, mem }) := by
    cases ops with
    | udp => exact udpReceiveFrom_datagram queued datagram
    | raw =>
        obtain ⟨src, mem, receiveEq⟩ := @rawReceiveFrom_datagram sock buf recvList len 0 queued
          datagram
        have sizeEq : size = (min len.toNat (SockOps.raw.payload buf).length : Nat) := by
          simp only [size, SockOps.sizeFor]
          omega
        rw [sizeEq]
        exact ⟨src, mem, receiveEq⟩
  refine ⟨mem, ?_⟩
  have accepted : ¬ NetErr.ok.isError = true := Bool.false_ne_true
  have noWait : ¬ NetErr.ok = NetErr.needWait := nofun
  simp only [receivePass, handleSockReceive, sockReceive, receiveEq, Option.bind_eq_bind,
    Option.bind_some, if_neg accepted, if_neg noWait, Bool.false_eq_true, if_false]
  by_cases zero : size = 0
  · simp only [zero, ne_eq, not_true_eq_false, if_false, if_true]
  · simp only [ne_eq, zero, not_false_eq_true, if_true, if_false]

theorem UserCall.run_eq (call : UserCall) :
    call.run ops sock =
      if call.len = 0 then some (.returned (-1), [], sock)
      else receivePass ops sock true call.len := by
  cases call with
  | mk withSource len =>
      cases withSource with
      | true => simp [UserCall.run, socketReceiveFrom]
      | false => simp [UserCall.run, socketReceive]

theorem Receivable.run {recvList : List Pktbuf} {call : UserCall}
    (queued : sock.recvList = buf :: recvList) (datagram : Datagram ops buf)
    (receivable : Receivable ops buf call) :
    ∃ mem, call.run ops sock =
      some ((delivered ops buf call).1, (delivered ops buf call).2,
        { sock with recvList, mem }) := by
  obtain ⟨room, some, small⟩ := receivable
  have positive : 0 < (ops.payload buf).length := List.length_pos_of_ne_nil some
  have roomPositive : 0 < call.len.toNat := by
    apply Nat.pos_of_ne_zero
    intro zero
    exact room (UInt32.toNat_inj.mp zero)
  have sizeEq : ops.sizeFor call.len (ops.payload buf).length =
      (min call.len.toNat (ops.payload buf).length : Nat) := by
    cases ops with
    | udp =>
        rw [SockOps.sizeFor, asInt_small (small rfl)]
        omega
    | raw =>
        rw [SockOps.sizeFor]
        omega
  obtain ⟨mem, passEq⟩ := @receivePass_datagram ops sock buf recvList call.len queued datagram
  refine ⟨mem, ?_⟩
  have nonzero : ¬ ((min call.len.toNat (ops.payload buf).length : Nat) : Int) = 0 := by omega
  rw [call.run_eq, if_neg room, passEq, sizeEq, if_neg nonzero, Int.toNat_natCast,
    ← List.take_eq_take_min]
  rfl

theorem run_of_not_receivable {recvList : List Pktbuf} {call : UserCall}
    (queued : sock.recvList = buf :: recvList) (datagram : Datagram ops buf)
    (unreceivable : ¬ Receivable ops buf call) :
    ∃ result bytes after, call.run ops sock = some (result, bytes, after) ∧
      result ≠ (delivered ops buf call).1 := by
  by_cases room : call.len = 0
  · refine ⟨.returned (-1), [], sock, by rw [call.run_eq, if_pos room], ?_⟩
    intro same
    have value := UserResult.returned.inj same
    omega
  obtain ⟨mem, passEq⟩ := @receivePass_datagram ops sock buf recvList call.len queued datagram
  refine ⟨_, _, _, by rw [call.run_eq, if_neg room, passEq], ?_⟩
  intro same
  by_cases zero : ops.sizeFor call.len (ops.payload buf).length = 0
  · rw [if_pos zero] at same
    cases same
  · rw [if_neg zero] at same
    have sizeEq := UserResult.returned.inj same
    refine unreceivable ⟨room, ?_, ?_⟩
    · intro none
      rw [none, List.length_nil, Nat.min_zero] at sizeEq
      rw [none, List.length_nil] at zero
      exact zero sizeEq
    · rintro rfl
      by_contra large
      have negative := asInt_large (Nat.not_lt.mp large)
      rw [SockOps.sizeFor] at sizeEq
      omega

theorem receivesEach_iff {calls : List UserCall}
    (datagrams : ∀ buf ∈ sock.recvList, Datagram ops buf)
    (enough : calls.length ≤ sock.recvList.length) :
    ReceivesEach ops sock calls ↔
      ∀ pair ∈ sock.recvList.zip calls, Receivable ops pair.1 pair.2 := by
  induction calls generalizing sock with
  | nil => simp [ReceivesEach, receiveAll]
  | cons call calls ih =>
      obtain ⟨buf, recvList, queued⟩ : ∃ buf recvList, sock.recvList = buf :: recvList :=
        List.exists_cons_of_length_pos (Nat.lt_of_lt_of_le (Nat.succ_pos _) enough)
      rw [queued] at datagrams enough
      have datagram := datagrams buf List.mem_cons_self
      by_cases receivable : Receivable ops buf call
      · obtain ⟨mem, runEq⟩ := receivable.run queued datagram
        have later := @ih { sock with recvList, mem }
          (fun other member => datagrams other (List.mem_cons_of_mem _ member))
          (Nat.le_of_succ_le_succ enough)
        rw [queued, List.zip_cons_cons, List.forall_mem_cons]
        refine Iff.trans ?_ (later.trans (and_iff_right receivable).symm)
        simp only [ReceivesEach, receiveAll, runEq, queued, List.zipWith_cons_cons,
          List.length_cons, List.drop_succ_cons, Option.bind_eq_bind, Option.bind_some]
        constructor
        · rintro ⟨after, allEq, left⟩
          obtain ⟨⟨results, last⟩, restEq, pairEq⟩ := Option.bind_eq_some_iff.mp allEq
          cases pairEq
          exact ⟨last, restEq, left⟩
        · rintro ⟨after, allEq, left⟩
          exact ⟨after, by rw [allEq]; rfl, left⟩
      · obtain ⟨result, bytes, after, runEq, different⟩ :=
          run_of_not_receivable queued datagram receivable
        constructor
        · rintro ⟨last, allEq, -⟩
          simp only [receiveAll, runEq, queued, List.zipWith_cons_cons, Option.bind_eq_bind,
            Option.bind_some] at allEq
          obtain ⟨⟨results, last'⟩, -, pairEq⟩ := Option.bind_eq_some_iff.mp allEq
          simp only [Option.some.injEq, Prod.mk.injEq, List.cons.injEq] at pairEq
          exact absurd (congrArg Prod.fst pairEq.1.1) different
        · intro all
          rw [queued, List.zip_cons_cons, List.forall_mem_cons] at all
          exact absurd all.1 receivable

theorem pktbufRead_not_needWait {after : Pktbuf} {hasDest : Bool} {size : Int} {err : NetErr}
    {bytes : List UInt8} (readEq : pktbufRead buf hasDest size = some (err, after, bytes)) :
    err ≠ .needWait := by
  unfold pktbufRead at readEq
  split at readEq
  · cases readEq
    nofun
  · split at readEq
    · cases readEq
      nofun
    · obtain ⟨⟨dest, state⟩, -, pairEq⟩ := Option.bind_eq_some_iff.mp readEq
      cases pairEq
      nofun

theorem receiveFrom_not_needWait {recvList : List Pktbuf} {hasBuf hasSrc : Bool} {len : UInt32}
    {resultLen : Int} {received : Received} {after : SockRecv}
    (queued : sock.recvList = buf :: recvList)
    (receiveEq : ops.receiveFrom sock hasBuf len hasSrc resultLen = some (received, after)) :
    received.err ≠ .needWait := by
  cases ops with
  | udp =>
      simp only [SockOps.receiveFrom, udpReceiveFrom, queued] at receiveEq
      obtain ⟨port, -, receiveEq⟩ := Option.bind_eq_some_iff.mp receiveEq
      obtain ⟨addr, -, receiveEq⟩ := Option.bind_eq_some_iff.mp receiveEq
      split at receiveEq
      · cases receiveEq
      · obtain ⟨⟨removeErr, stripped, free⟩, -, receiveEq⟩ :=
          Option.bind_eq_some_iff.mp receiveEq
        obtain ⟨⟨err, read, bytes⟩, readEq, receiveEq⟩ := Option.bind_eq_some_iff.mp receiveEq
        dsimp only at receiveEq
        split at receiveEq
        · cases receiveEq
          exact pktbufRead_not_needWait readEq
        · cases receiveEq
          nofun
  | raw =>
      simp only [SockOps.receiveFrom, rawReceiveFrom, queued] at receiveEq
      obtain ⟨addr, -, receiveEq⟩ := Option.bind_eq_some_iff.mp receiveEq
      split at receiveEq
      · cases receiveEq
      · obtain ⟨⟨err, read, bytes⟩, readEq, receiveEq⟩ := Option.bind_eq_some_iff.mp receiveEq
        dsimp only at receiveEq
        split at receiveEq
        · cases receiveEq
        · cases receiveEq
          nofun

theorem run_blocked {call : UserCall} {bytes : List UInt8} {after : SockRecv}
    (runEq : call.run ops sock = some (.blocked, bytes, after)) : sock.recvList = [] := by
  by_contra nonempty
  obtain ⟨buf, recvList, queued⟩ := List.exists_cons_of_ne_nil nonempty
  rw [call.run_eq] at runEq
  split at runEq
  · cases runEq
  · obtain ⟨⟨received, hasWait, handled⟩, handleEq, passEq⟩ :=
      Option.bind_eq_some_iff.mp runEq
    obtain ⟨⟨received', after'⟩, receiveEq, waitEq⟩ := Option.bind_eq_some_iff.mp handleEq
    have served : ¬ received'.err = .needWait := receiveFrom_not_needWait queued receiveEq
    dsimp only at waitEq passEq
    rw [if_neg served] at waitEq
    cases waitEq
    split at passEq
    · cases passEq
    · split at passEq
      · cases passEq
      · cases passEq

def UserResult.phase (len : Nat) : UserResult → ReceiverPhase
  | .returned _ => .idle
  | .blocked => .answered len
  | .nullWait => .fault

end Receive

/-- A UDP packet as `udp_in` queues it, in one block. -/
def queuedPacket (id count : Nat) : Pktbuf where
  totalSize := 28 + count
  blkList := [{ id, size := 28 + count, data := 0, payload := fun i => i.toUInt8 }]
  ref := 1
  pos := 0
  currBlk := none
  blkOffset := 0

theorem queuedPacket_datagram {id count : Nat} (fits : count ≤ 36) :
    Datagram .udp (queuedPacket id count) where
  wellFormed := by
    refine ⟨by simp [queuedPacket], windows_cons.mpr ⟨⟨Int.le_refl 0, ?_, ?_⟩, windows_nil⟩⟩
    · simp only
      omega
    · simp only [pktbufBlkSize]
      omega
  distinct := List.nodup_singleton id
  header := by
    refine ⟨_, [], rfl, ?_⟩
    simp only [SockOps.headerLen, pktbufBlkSize]
    omega
  front := by
    simp only [Pktbuf.content, queuedPacket, blksContent_cons, blksContent_nil, List.append_nil,
      Pktblk.length_window, SockOps.frontLen]
    omega
  int := by
    simp only [queuedPacket]
    omega

def queuedSock (counts : List Nat) : SockRecv where
  recvList := counts.map (queuedPacket 0)
  recvWait := .sockWaitInit .ok
  mem := ⟨[], 0⟩

/-- An empty packet is taken from the list, and the call goes on to a null wait. -/
example : ∃ after, receiveAll .udp (queuedSock [0]) [⟨false, 8⟩] =
    some ([(.nullWait, [])], after) ∧ after.recvList = [] :=
  ⟨_, rfl, rfl⟩

end CleanOS.Net
