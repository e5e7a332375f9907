import Mathlib.Data.List.Nodup
import CleanOS.Net.UdpPorts

/-!
# The lifecycle of sockets

How the handlers of `kernel/net/sock.c` keep the socket table in step with the control
blocks.  A socket that is made takes an entry and a control block; closing one gives the
control block back and leaves the entry as it is.
-/

namespace CleanOS.Net

open CleanOS.Lib

/-- The handlers, with what the messages hold. -/
inductive SockCall where
  | create (family type protocol waitInit : Int)
  | close (sockFd : Int)
  | bind (sockFd : Int) (routes : List IpRouteEntry) (stale : StaleUdp) (addr : SockAddrIn)
  | connect (sockFd : Int) (addr : SockAddrIn)
  | send (sockFd : Int) (hasBuf : Bool) (sent : NetErr)
  | receive (sockFd : Int) (received : NetErr)

/-- The sockets, and the numbers that were closed and not returned again since. -/
structure SockLife where
  sockets : Sockets
  closed : List Int

namespace SockLife

def init (sock : Nat → Sock) : SockLife where
  sockets := .init sock
  closed := []

def sockCall (state : SockLife) : SockCall → Option (NetErr × SockLife)
  | .create family type protocol waitInit => do
      let (err, sockFd, sockets) ← state.sockets.handleSockCreate family type protocol waitInit
      let closed :=
        if err.isError then state.closed else state.closed.filter fun fd => fd ≠ sockFd
      some (err, ⟨sockets, closed⟩)
  | .close sockFd => do
      let (err, sockets) ← state.sockets.handleSockClose sockFd
      some (err, ⟨sockets, if err.isError then state.closed else sockFd :: state.closed⟩)
  | .bind sockFd routes stale addr => do
      let (err, sockets) ← state.sockets.handleSockBind sockFd routes stale addr
      some (err, { state with sockets })
  | .connect sockFd addr => do
      let (err, sockets) ← state.sockets.handleSockConnect sockFd addr
      some (err, { state with sockets })
  | .send sockFd hasBuf sent => do
      let (err, sockets) ← state.sockets.handleSockSend sockFd hasBuf sent
      some (err, { state with sockets })
  | .receive sockFd received => do
      let (err, sockets) ← state.sockets.handleSockReceive sockFd received
      some (err, { state with sockets })

/-- The table and the open sockets agree. -/
structure Accounted (state : SockLife) : Prop where
  used : ∀ socket ∈ state.sockets.table, socket.state = .used ↔ socket.sock ≠ none
  owned : ∀ sock, state.sockets.IsOpen sock →
    state.sockets.table.countP (fun socket => socket.sock = some sock) = 1
  rejected : ∀ sockFd ∈ state.closed, state.sockets.getSocket sockFd = none
  total : state.sockets.table.countP (fun socket => socket.state = .free) +
    (state.sockets.raw.opened.length + state.sockets.udp.opened.length) = socketMaxNr

def Lives (state : SockLife) (calls : List SockCall) : Prop :=
  AllRight sockCall Accounted (fun _ _ _ _ => True) state calls

/-- No socket is found to close, none of type zero is made while an entry is free, and
where `udp_bind` gets to its loop, the variable that it never set can be read through. -/
def Harmless (state : SockLife) : SockCall → Prop
  | .create _ type _ _ => type = 0 → ∀ socket ∈ state.sockets.table, socket.state ≠ .free
  | .close sockFd => state.sockets.getSocket sockFd = none
  | .bind sockFd _ stale _ => ∀ block, state.sockets.getSocket sockFd = some ⟨.udp, block⟩ →
      (state.sockets.udp.sock block).localIp = 0 →
      (∃ other ∈ state.sockets.udp.opened, other ≠ block) → stale.pointee ≠ none
  | _ => True

def AllHarmless (state : SockLife) (calls : List SockCall) : Prop :=
  AllGuarded sockCall Harmless state calls

end SockLife

namespace Sockets

variable {sockets after : Sockets} {ops : SockOps} {idx : Nat}

def openSocks (sockets : Sockets) : List SockPtr :=
  sockets.raw.opened.map (SockPtr.mk .raw) ++ sockets.udp.opened.map (SockPtr.mk .udp)

structure Linked (sockets : Sockets) : Prop where
  sized : sockets.table.length = socketMaxNr
  used : ∀ socket ∈ sockets.table, socket.state = .used ↔ socket.sock ≠ none
  divided : ∀ ops, (sockets.pool ops).Divided
  entries : (sockets.table.filterMap (·.sock)).Perm sockets.openSocks

theorem linked_init (sock : Nat → Sock) : (init sock).Linked where
  sized := List.length_replicate
  used := by
    intro socket member
    rw [List.eq_of_mem_replicate member]
    decide
  divided := by
    intro ops
    cases ops <;> exact SockPool.divided_init sock
  entries := by
    rw [List.filterMap_eq_nil_iff.mpr]
    · exact .refl _
    · intro socket member
      rw [List.eq_of_mem_replicate member]

theorem mem_openSocks {sock : SockPtr} : sock ∈ sockets.openSocks ↔ sockets.IsOpen sock := by
  obtain ⟨ops, block⟩ := sock
  cases ops <;> simp [openSocks, IsOpen, pool]

theorem openSocks_nodup (linked : sockets.Linked) : sockets.openSocks.Nodup := by
  have opened : ∀ ops, (sockets.pool ops).opened.Nodup := fun ops =>
    (List.nodup_append.mp (linked.divided ops).nodup).1
  have injective : ∀ ops, Function.Injective (SockPtr.mk ops) := by
    intro ops one two same
    exact congrArg SockPtr.block same
  refine List.nodup_append.mpr
    ⟨List.Nodup.map (injective .raw) (opened .raw),
      List.Nodup.map (injective .udp) (opened .udp), ?_⟩
  intro one isRaw two isUdp same
  obtain ⟨_, _, rfl⟩ := List.mem_map.mp isRaw
  obtain ⟨_, _, rfl⟩ := List.mem_map.mp isUdp
  cases same

theorem openSocks_setPool {pool : SockPool} {block : Nat}
    (isOpen : pool.opened = (sockets.pool ops).opened ++ [block]) :
    (sockets.setPool ops pool).openSocks.Perm (⟨ops, block⟩ :: sockets.openSocks) := by
  cases ops with
  | raw =>
      dsimp only [openSocks, setPool]
      rw [isOpen, List.map_append, List.append_assoc]
      exact List.perm_middle
  | udp =>
      dsimp only [openSocks, setPool]
      rw [isOpen, List.map_append, ← List.append_assoc]
      exact List.perm_append_singleton _ _

theorem openSocks_eq {pool : SockPool} (isOpen : pool.opened = (sockets.pool ops).opened) :
    (sockets.setPool ops pool).openSocks = sockets.openSocks := by
  cases ops with
  | raw =>
      dsimp only [openSocks, setPool]
      rw [isOpen]
      rfl
  | udp =>
      dsimp only [openSocks, setPool]
      rw [isOpen]
      rfl

theorem setPool_table (sockets : Sockets) (ops : SockOps) (pool : SockPool) :
    (sockets.setPool ops pool).table = sockets.table := by
  cases ops <;> rfl

theorem setPool_pool (sockets : Sockets) (ops : SockOps) :
    sockets.setPool ops (sockets.pool ops) = sockets := by
  cases ops <;> rfl

theorem divided_setPool {pool : SockPool} (divided : ∀ ops, (sockets.pool ops).Divided)
    (poolDivided : pool.Divided) (other : SockOps) :
    ((sockets.setPool ops pool).pool other).Divided := by
  cases ops <;> cases other
  next => exact poolDivided
  next => exact divided .udp
  next => exact divided .raw
  next => exact poolDivided

theorem Linked.setPool (linked : sockets.Linked) {pool : SockPool}
    (isOpen : pool.opened = (sockets.pool ops).opened) (divided : pool.Divided) :
    (sockets.setPool ops pool).Linked where
  sized := by rw [setPool_table, linked.sized]
  used := by
    rw [setPool_table]
    exact linked.used
  divided := divided_setPool linked.divided divided
  entries := by
    rw [setPool_table, openSocks_eq isOpen]
    exact linked.entries

theorem Linked.setSocket (linked : sockets.Linked)
    (isFree : sockets.table[idx]? = some ⟨.free, none⟩) {pool : SockPool} {block : Nat}
    (isOpen : pool.opened = (sockets.pool ops).opened ++ [block]) (divided : pool.Divided) :
    ((sockets.setPool ops pool).setSocket idx ⟨.used, some ⟨ops, block⟩⟩).Linked where
  sized := by
    dsimp only [Sockets.setSocket]
    rw [setPool_table, List.length_set, linked.sized]
  used := by
    dsimp only [Sockets.setSocket]
    rw [setPool_table]
    exact forall_mem_set linked.used (by simp)
  divided := divided_setPool linked.divided divided
  entries := by
    have opened : ((sockets.setPool ops pool).setSocket idx
        ⟨.used, some ⟨ops, block⟩⟩).openSocks = (sockets.setPool ops pool).openSocks := rfl
    refine List.Perm.trans (List.perm_iff_count.mpr fun sock => ?_)
      (opened ▸ (openSocks_setPool isOpen).symm)
    have count := count_filterMap_set isFree ⟨.used, some ⟨ops, block⟩⟩ (·.sock) sock
    dsimp only [Sockets.setSocket]
    rw [setPool_table, List.count_cons, ← linked.entries.count_eq sock]
    simp only [Option.toList, List.count_nil, List.count_singleton] at count
    omega

theorem Linked.owned (linked : sockets.Linked) {sock : SockPtr} (isOpen : sockets.IsOpen sock) :
    sockets.table.countP (fun socket => socket.sock = some sock) = 1 := by
  have once : (sockets.table.filterMap (·.sock)).count sock = 1 := by
    rw [linked.entries.count_eq]
    exact List.count_eq_one_of_mem (openSocks_nodup linked) (mem_openSocks.mpr isOpen)
  rw [List.count_filterMap] at once
  rw [← once]
  exact List.countP_congr fun socket _ => by simp

theorem Linked.total (linked : sockets.Linked) :
    sockets.table.countP (fun socket => socket.state = .free) +
      (sockets.raw.opened.length + sockets.udp.opened.length) = socketMaxNr := by
  have inUse : sockets.raw.opened.length + sockets.udp.opened.length =
      sockets.table.countP fun socket => socket.sock.isSome := by
    have length := linked.entries.length_eq
    rw [List.length_filterMap_eq_countP, openSocks, List.length_append, List.length_map,
      List.length_map] at length
    exact length.symm
  have notFree : (sockets.table.countP fun socket => socket.sock.isSome) =
      sockets.table.countP fun socket => ! decide (socket.state = .free) := by
    refine List.countP_congr fun socket member => ?_
    have used := linked.used socket member
    obtain ⟨state, sock⟩ := socket
    cases state <;> cases sock <;> simp_all
  have all := List.length_eq_countP_add_countP (fun socket : SocketT => decide (socket.state = .free))
    (l := sockets.table)
  rw [linked.sized] at all
  rw [inUse, notFree, all]
  simp

theorem Linked.isOpen (linked : sockets.Linked) {sockFd : Int} {sock : SockPtr}
    (found : sockets.getSocket sockFd = some sock) : sockets.IsOpen sock := by
  unfold getSocket at found
  split at found
  next => cases found
  next =>
    obtain ⟨socket, isEntry, isSock⟩ := Option.bind_eq_some_iff.mp found
    have member : sock ∈ sockets.table.filterMap (·.sock) :=
      List.mem_filterMap.mpr ⟨socket, List.mem_of_getElem? isEntry, isSock⟩
    exact mem_openSocks.mp (linked.entries.mem_iff.mp member)

theorem socketAlloc_eq
    (used : ∀ socket ∈ sockets.table, socket.state = .used ↔ socket.sock ≠ none)
    (alloc : sockets.socketAlloc = some (idx, after)) :
    sockets.table.findIdx? (fun socket => socket.state = .free) = some idx ∧
      sockets.table[idx]? = some ⟨.free, none⟩ ∧ after = sockets.setSocket idx ⟨.used, none⟩ := by
  obtain ⟨number, found, same⟩ := Option.map_eq_some_iff.mp alloc
  cases same
  obtain ⟨inside, isFree, _⟩ := List.findIdx?_eq_some_iff_getElem.mp found
  have isEntry := List.getElem?_eq_getElem inside
  have isUsed := used _ (List.mem_of_getElem? isEntry)
  have entry : sockets.table[idx] = ⟨.free, none⟩ := by
    have notUsed : sockets.table[idx].state ≠ .used := by
      rw [of_decide_eq_true isFree]
      decide
    have noSock := not_not.mp (mt isUsed.mpr notUsed)
    rw [← of_decide_eq_true isFree, ← noSock]
  rw [entry] at isEntry
  refine ⟨found, isEntry, ?_⟩
  rw [setSocket, List.modify_eq_set_getElem?, isEntry]
  rfl

theorem setSocket_setSocket (sockets : Sockets) (idx : Nat) (one two : SocketT) :
    (sockets.setSocket idx one).setSocket idx two = sockets.setSocket idx two := by
  rw [setSocket, setSocket, List.set_set]
  rfl

theorem setSocket_same {socket : SocketT} (isEntry : sockets.table[idx]? = some socket) :
    sockets.setSocket idx socket = sockets := by
  obtain ⟨inside, same⟩ := List.getElem?_eq_some_iff.mp isEntry
  rw [setSocket, ← same, List.set_getElem_self]

theorem setPool_setSocket (sockets : Sockets) (ops : SockOps) (pool : SockPool)
    (socket : SocketT) :
    (sockets.setSocket idx socket).setPool ops pool =
      (sockets.setPool ops pool).setSocket idx socket := by
  cases ops <;> rfl

theorem pool_setSocket (sockets : Sockets) (socket : SocketT) (ops : SockOps) :
    (sockets.setSocket idx socket).pool ops = sockets.pool ops := by
  cases ops <;> rfl

end Sockets

theorem SockPool.sameLists_rawSend (pool : SockPool) (block : Nat) (hasBuf : Bool)
    (sent : NetErr) :
    SameLists pool (pool.sockSend block (pool.rawSendTo block hasBuf sent)).2 := by
  unfold sockSend rawSendTo
  split
  next => exact ⟨rfl, rfl⟩
  next => split <;> exact ⟨rfl, rfl⟩

theorem SockPool.create_opened (pool : SockPool) (family protocol waitInit : Int) :
    (∃ after, pool.create family protocol waitInit = (none, after) ∧
      after.opened = pool.opened) ∨
    ∃ block after, pool.create family protocol waitInit = (some block, after) ∧
      after.opened = pool.opened ++ [block] ∧ block ∈ pool.free ∧ 0 ≤ waitInit := by
  unfold create mblockAlloc
  rw [if_neg (by simp)]
  cases pool.free with
  | nil => exact .inl ⟨_, rfl, rfl⟩
  | cons block free =>
      dsimp only
      split
      next => exact .inl ⟨_, rfl, rfl⟩
      next noError => exact .inr ⟨block, _, rfl, rfl, List.mem_cons_self, Int.not_lt.mp noError⟩

namespace Sockets

variable {sockets : Sockets}

/-- What `handle_sock_create` needs to make a socket: a free entry, a protocol for the type,
a free control block, and no error from `sock_wait_init`. -/
structure CanCreate (sockets : Sockets) (type waitInit : Int) (idx : Nat) (ops : SockOps)
    (block : Nat) : Prop where
  entry : sockets.table.findIdx? (fun socket => socket.state = .free) = some idx
  info : (sockInfo type).2 = some ops
  block : block ∈ (sockets.pool ops).free
  waits : 0 ≤ waitInit

theorem handleSockCreate_cases
    (used : ∀ socket ∈ sockets.table, socket.state = .used ↔ socket.sock ≠ none)
    (divided : ∀ ops, (sockets.pool ops).Divided) (family type protocol waitInit : Int) :
    (type = 0 ∧ (∃ socket ∈ sockets.table, socket.state = .free) ∧
      sockets.handleSockCreate family type protocol waitInit = none) ∨
    (∃ err ops pool, (type = 0 → ∀ socket ∈ sockets.table, socket.state ≠ .free) ∧
      NetErr.isError err = true ∧
      sockets.handleSockCreate family type protocol waitInit =
        some (err, -1, sockets.setPool ops pool) ∧
      pool.opened = (sockets.pool ops).opened ∧ pool.Divided) ∨
    ∃ (idx : Nat) (ops : SockOps) (block : Nat) (pool : SockPool), type ≠ 0 ∧
      sockets.CanCreate type waitInit idx ops block ∧
      sockets.table[idx]? = some ⟨.free, none⟩ ∧
      sockets.handleSockCreate family type protocol waitInit =
        some (NetErr.ok, (idx : Int),
          (sockets.setPool ops pool).setSocket idx ⟨.used, some ⟨ops, block⟩⟩) ∧
      pool.opened = (sockets.pool ops).opened ++ [block] ∧ pool.Divided := by
  unfold handleSockCreate
  split
  next full =>
    refine .inr (.inl ⟨.mem, .raw, sockets.pool .raw, fun _ socket member isFree => ?_, rfl, ?_,
      rfl, divided .raw⟩)
    · have noFree := List.findIdx?_eq_none_iff.mp (Option.map_eq_none_iff.mp full) socket member
      rw [isFree] at noFree
      cases noFree
    · rw [setPool_pool]
  next idx allocated alloc =>
    obtain ⟨isFirst, isFree, rfl⟩ := socketAlloc_eq used alloc
    have given : (sockets.setSocket idx ⟨.used, none⟩).socketFree idx = sockets := by
      rw [socketFree, setSocket_setSocket, setSocket_same isFree]
    split
    next invalid =>
      refine .inr (.inl ⟨.param, .raw, sockets.pool .raw, fun zero => by omega, rfl, ?_, rfl,
        divided .raw⟩)
      rw [setPool_pool, given]
    next valid =>
      dsimp only
      split
      next isNull =>
        refine .inl ⟨?_, ⟨_, List.mem_of_getElem? isFree, rfl⟩, rfl⟩
        unfold sockInfo at isNull
        split at isNull
        next => cases isNull
        next =>
          split at isNull
          next => cases isNull
          next => omega
      next ops hasCreate =>
        have notZero : type ≠ 0 := by
          rintro rfl
          cases hasCreate
        rw [pool_setSocket]
        have poolDivided := SockPool.create_divided (divided ops) family
          (if protocol = 0 then (sockInfo type).1 else protocol) waitInit
        rcases (sockets.pool ops).create_opened family
          (if protocol = 0 then (sockInfo type).1 else protocol) waitInit with
          ⟨pool, isPool, opened⟩ | ⟨block, pool, isPool, opened, wasFree, waits⟩
        · rw [isPool] at poolDivided ⊢
          refine .inr (.inl ⟨.mem, ops, pool, fun zero => absurd zero notZero, rfl, ?_, opened,
            poolDivided⟩)
          dsimp only
          rw [setPool_setSocket, socketFree, setSocket_setSocket, setSocket_same]
          rwa [setPool_table]
        · rw [isPool] at poolDivided ⊢
          refine .inr (.inr ⟨idx, ops, block, pool, notZero, ⟨isFirst, hasCreate, wasFree, waits⟩,
            isFree, ?_, opened, poolDivided⟩)
          dsimp only
          rw [setPool_setSocket, setSocket_setSocket]

theorem onSocket_kept (linked : sockets.Linked) {sockFd : Int}
    {operation : SockPtr → SockPool → Option (NetErr × SockPool)}
    (returns : ∀ sock, sockets.getSocket sockFd = some sock → ∃ err pool,
      operation sock (sockets.pool sock.ops) = some (err, pool) ∧
        (sockets.pool sock.ops).SameLists pool) :
    ∃ err after, sockets.onSocket sockFd operation = some (err, after) ∧ after.Linked ∧
      after.table = sockets.table := by
  unfold onSocket
  split
  next => exact ⟨.param, sockets, rfl, linked, rfl⟩
  next sock found =>
    obtain ⟨err, pool, operated, same⟩ := returns sock found
    rw [if_pos (linked.isOpen found), operated]
    exact ⟨err, _, rfl, linked.setPool same.opened (same.divided (linked.divided sock.ops)),
      setPool_table sockets sock.ops pool⟩

theorem handleSockBind_kept (linked : sockets.Linked) {sockFd : Int} {stale : StaleUdp}
    (readable : ∀ block, sockets.getSocket sockFd = some ⟨.udp, block⟩ →
      (sockets.udp.sock block).localIp = 0 →
      (∃ other ∈ sockets.udp.opened, other ≠ block) → stale.pointee ≠ none)
    (routes : List IpRouteEntry) (addr : SockAddrIn) :
    ∃ err after, sockets.handleSockBind sockFd routes stale addr = some (err, after) ∧
      after.Linked ∧ after.table = sockets.table := by
  refine onSocket_kept linked fun sock found => ?_
  obtain ⟨ops, block⟩ := sock
  cases ops with
  | raw => exact ⟨_, _, rfl, SockPool.sameLists_sockBind _ block routes addr⟩
  | udp =>
      rcases sockets.udp.udpBind_cases block routes stale addr with
        ⟨refused, _⟩ | ⟨_, unbound, other, unmapped⟩ | ⟨binds, _⟩
      · exact ⟨_, _, refused, rfl, rfl⟩
      · exact absurd unmapped (readable block found unbound other)
      · exact ⟨_, _, binds, SockPool.sameLists_sockBind _ block routes addr⟩

theorem handleSockConnect_kept (linked : sockets.Linked) (sockFd : Int) (addr : SockAddrIn) :
    ∃ err after, sockets.handleSockConnect sockFd addr = some (err, after) ∧
      after.Linked ∧ after.table = sockets.table :=
  onSocket_kept linked fun _ _ => ⟨_, _, rfl, rfl, rfl⟩

theorem handleSockSend_kept (linked : sockets.Linked) (sockFd : Int) (hasBuf : Bool)
    (sent : NetErr) :
    ∃ err after, sockets.handleSockSend sockFd hasBuf sent = some (err, after) ∧
      after.Linked ∧ after.table = sockets.table := by
  refine onSocket_kept linked fun sock found => ?_
  obtain ⟨ops, block⟩ := sock
  cases ops with
  | raw =>
      have same := SockPool.sameLists_rawSend ((sockets.pool .raw).setSock block
        { (sockets.pool .raw).sock block with err := .ok }) block hasBuf sent
      exact ⟨_, _, rfl, same.opened, same.free⟩
  | udp =>
      have same := SockPool.sameLists_sockSend ((sockets.pool .udp).setSock block
        { (sockets.pool .udp).sock block with err := .ok }) block hasBuf sent
      exact ⟨_, _, rfl, same.opened, same.free⟩

theorem handleSockReceive_kept (linked : sockets.Linked) (sockFd : Int) (received : NetErr) :
    ∃ err after, sockets.handleSockReceive sockFd received = some (err, after) ∧
      after.Linked ∧ after.table = sockets.table :=
  onSocket_kept linked fun _ _ => ⟨_, _, rfl, rfl, rfl⟩

theorem getSocket_congr {after : Sockets} (same : after.table = sockets.table) (sockFd : Int) :
    after.getSocket sockFd = sockets.getSocket sockFd := by
  rw [getSocket, getSocket, same]

theorem getSocket_setSocket_ne {idx : Nat} {sockFd : Int} (other : sockFd ≠ idx)
    (socket : SocketT) :
    (sockets.setSocket idx socket).getSocket sockFd = sockets.getSocket sockFd := by
  unfold getSocket setSocket
  split
  next => rfl
  next inside =>
    have ne : idx ≠ sockFd.toNat := by omega
    dsimp only
    rw [List.getElem?_set_ne ne]

end Sockets

namespace SockLife

variable {state after : SockLife} {call : SockCall} {err : NetErr}

theorem accounted_of_linked (linked : state.sockets.Linked)
    (rejected : ∀ sockFd ∈ state.closed, state.sockets.getSocket sockFd = none) :
    state.Accounted where
  used := linked.used
  owned := fun _ => linked.owned
  rejected := rejected
  total := linked.total

theorem accounted_of_table {sockets : Sockets} (accounted : state.Accounted)
    (linked : sockets.Linked) (same : sockets.table = state.sockets.table) :
    SockLife.Accounted { state with sockets } :=
  accounted_of_linked linked fun sockFd isClosed =>
    (Sockets.getSocket_congr same sockFd).trans (accounted.rejected sockFd isClosed)

theorem create_accounted (linked : state.sockets.Linked) (accounted : state.Accounted)
    {family type protocol waitInit : Int}
    (harmless : state.Harmless (.create family type protocol waitInit)) :
    ∃ err after, state.sockCall (.create family type protocol waitInit) = some (err, after) ∧
      after.Accounted ∧ after.sockets.Linked := by
  dsimp only [sockCall]
  rcases Sockets.handleSockCreate_cases linked.used linked.divided family type protocol
      waitInit with
    ⟨zero, ⟨socket, member, isFree⟩, _⟩ | ⟨err, ops, pool, _, failed, created, opened, divided⟩ |
    ⟨idx, ops, block, pool, _, _, isFree, created, opened, divided⟩
  · exact absurd isFree (harmless zero socket member)
  · rw [created]
    have afterLinked := linked.setPool opened divided
    refine ⟨err, _, rfl, ?_, afterLinked⟩
    rw [if_pos failed]
    exact accounted_of_table accounted afterLinked (Sockets.setPool_table _ _ _)
  · rw [created]
    have afterLinked := linked.setSocket isFree opened divided
    refine ⟨.ok, _, rfl, accounted_of_linked afterLinked fun sockFd isClosed => ?_, afterLinked⟩
    dsimp only at isClosed
    rw [if_neg (by decide : ¬ NetErr.ok.isError = true)] at isClosed
    obtain ⟨before, other⟩ := List.mem_filter.mp isClosed
    dsimp only
    rw [Sockets.getSocket_setSocket_ne (of_decide_eq_true other),
      Sockets.getSocket_congr (Sockets.setPool_table _ _ _)]
    exact accounted.rejected sockFd before

theorem kept_accounted (accounted : state.Accounted)
    {handled : Option (NetErr × Sockets)}
    (kept : ∃ err sockets, handled = some (err, sockets) ∧ sockets.Linked ∧
      sockets.table = state.sockets.table) :
    ∃ err after, (do let (err, sockets) ← handled; some (err, { state with sockets })) =
        some (err, after) ∧ after.Accounted ∧ after.sockets.Linked := by
  obtain ⟨err, sockets, rfl, linked, same⟩ := kept
  exact ⟨err, _, rfl, accounted_of_table accounted linked same, linked⟩

theorem accounted_of_harmless (linked : state.sockets.Linked) (accounted : state.Accounted)
    (harmless : state.Harmless call) :
    ∃ err after, state.sockCall call = some (err, after) ∧ True ∧ after.Accounted ∧
      after.sockets.Linked := by
  have drops : (∃ err after, state.sockCall call = some (err, after) ∧ after.Accounted ∧
      after.sockets.Linked) → ∃ err after, state.sockCall call = some (err, after) ∧ True ∧
        after.Accounted ∧ after.sockets.Linked := by
    rintro ⟨err, after, called, holds⟩
    exact ⟨err, after, called, trivial, holds⟩
  apply drops
  cases call with
  | create family type protocol waitInit => exact create_accounted linked accounted harmless
  | close sockFd =>
      have unknown : state.sockets.getSocket sockFd = none := harmless
      refine ⟨.param, state, ?_, accounted, linked⟩
      dsimp only [sockCall, Sockets.handleSockClose, Sockets.onSocket]
      rw [unknown]
      rfl
  | bind sockFd routes stale addr =>
      exact kept_accounted accounted (Sockets.handleSockBind_kept linked harmless routes addr)
  | connect sockFd addr =>
      exact kept_accounted accounted (Sockets.handleSockConnect_kept linked sockFd addr)
  | send sockFd hasBuf sent =>
      exact kept_accounted accounted (Sockets.handleSockSend_kept linked sockFd hasBuf sent)
  | receive sockFd received =>
      exact kept_accounted accounted (Sockets.handleSockReceive_kept linked sockFd received)

theorem harmless_of_accounted (linked : state.sockets.Linked)
    (called : state.sockCall call = some (err, after)) (accounted : after.Accounted) :
    state.Harmless call := by
  cases call with
  | create family type protocol waitInit =>
      intro zero
      dsimp only [sockCall] at called
      rcases Sockets.handleSockCreate_cases linked.used linked.divided family type protocol
          waitInit with
        ⟨_, _, faults⟩ | ⟨_, _, _, full, _⟩ | ⟨_, _, _, _, notZero, _⟩
      · rw [faults] at called
        cases called
      · exact full zero
      · exact absurd zero notZero
  | close sockFd =>
      by_contra found
      obtain ⟨sock, isSock⟩ := Option.ne_none_iff_exists'.mp found
      dsimp only [sockCall, Sockets.handleSockClose, Sockets.onSocket] at called
      rw [isSock] at called
      dsimp only at called
      rw [if_pos (linked.isOpen isSock)] at called
      cases called
      have rejected := accounted.rejected sockFd List.mem_cons_self
      rw [Sockets.getSocket_congr (Sockets.setPool_table _ _ _), isSock] at rejected
      cases rejected
  | bind sockFd routes stale addr =>
      intro block isSock unbound other unmapped
      rcases state.sockets.udp.udpBind_cases block routes stale addr with
        ⟨_, bound | ⟨mapped, _⟩⟩ | ⟨faults, _⟩ | ⟨_, _, _, mapped⟩
      · exact bound unbound
      · exact mapped other unmapped
      · dsimp only [sockCall, Sockets.handleSockBind, Sockets.onSocket] at called
        rw [isSock] at called
        dsimp only [Sockets.pool] at called
        rw [if_pos (linked.isOpen isSock), faults] at called
        cases called
      · exact (mapped other).1 unmapped
  | _ => trivial

/-- From the start of the system, the socket table is accounted for over a sequence of
handlers if and only if every handler of it is harmless. -/
theorem lives_iff (sock : Nat → Sock) (calls : List SockCall) :
    (init sock).Lives calls ↔ (init sock).AllHarmless calls := by
  refine allRight_iff_allGuarded (fun state => state.sockets.Linked) ?_ ?_ calls
    (Sockets.linked_init sock) ?_
  · intro state call linked accounted harmless
    exact accounted_of_harmless linked accounted harmless
  · intro state call err after linked _ called _ accounted
    exact harmless_of_accounted linked called accounted
  · refine accounted_of_linked (Sockets.linked_init sock) fun sockFd isClosed => ?_
    cases isClosed

/-- A socket that was closed keeps its entry, so that its number is not rejected and the
entry is lost. -/
theorem close_keeps_entry :
    (runAll sockCall (init fun _ => .sockInit 0 0) [.create 0 2 0 0, .close 0]).map
        (fun state => (state.closed, state.sockets.getSocket 0, state.sockets.udp.opened,
          state.sockets.table.countP fun socket => socket.state = .free)) =
      some ([0], some ⟨.udp, 0⟩, [], 99) ∧
    ¬ (init fun _ => .sockInit 0 0).Lives [.create 0 2 0 0, .close 0] := by
  refine ⟨by decide +kernel, ?_⟩
  rintro ⟨_, _, _, one, _, _, _, _, two, _, accounted⟩
  cases one
  cases two
  exact absurd accounted.total (by decide +kernel)

end SockLife

end CleanOS.Net
