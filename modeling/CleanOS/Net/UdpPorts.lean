import Mathlib.Data.List.Perm.Subperm
import Mathlib.Data.List.Range
import CleanOS.Lib.Calls
import CleanOS.Net.Sock

/-!
# Ports of UDP sockets

When the local ports of UDP sockets stay apart over a sequence of calls, when binding
refuses a clash, and when sending gives a port to a socket without one and leaves that of
the others alone.  `udp_bind` looks at the wrong variable, and `udp_send_to` tests its port
the wrong way round.
-/

namespace CleanOS.Net

open CleanOS.Lib

/-- The functions of UDP that a socket goes through, with their arguments. -/
inductive UdpCall where
  | create (family protocol waitInit : Int)
  | bind (block : Nat) (routes : List IpRouteEntry) (stale : StaleUdp) (addr : SockAddrIn)
  | connect (block : Nat) (addr : SockAddrIn)
  | sendTo (block : Nat) (hasBuf : Bool) (sent : NetErr) (dest : SockAddrIn)
  | send (block : Nat) (hasBuf : Bool) (sent : NetErr)
  | close (block : Nat)

def UdpCall.block : UdpCall → Option Nat
  | .create _ _ _ => none
  | .bind block _ _ _ | .connect block _ | .sendTo block _ _ _ | .send block _ _
  | .close block => some block

namespace SockPool

def udpRun (pool : SockPool) : UdpCall → Option (NetErr × SockPool)
  | .create family protocol waitInit =>
      let (block, pool) := pool.create family protocol waitInit
      some (if block.isSome then .ok else .mem, pool)
  | .bind block routes stale addr => pool.udpBind block routes stale addr
  | .connect block addr => some (pool.sockConnect block addr)
  | .sendTo block hasBuf sent dest => some (pool.udpSendTo block hasBuf sent dest)
  | .send block hasBuf sent => some (pool.sockSend block (pool.udpSendTo block hasBuf sent))
  | .close block => some (pool.close block)

def udpCall (pool : SockPool) (call : UdpCall) : Option (NetErr × SockPool) :=
  if ∀ block ∈ call.block, block ∈ pool.opened then pool.udpRun call else none

def Apart (pool : SockPool) : Prop :=
  ∀ one ∈ pool.opened, ∀ two ∈ pool.opened,
    (pool.sock one).localPort ≠ 0 → (pool.sock two).localPort = (pool.sock one).localPort →
    (pool.sock two).localIp = (pool.sock one).localIp → two = one

/-- Bound to an address that it can have, the socket would clash with another one. -/
def WouldClash (pool : SockPool) (block : Nat) (routes : List IpRouteEntry)
    (addr : SockAddrIn) : Prop :=
  addr.sinPort ≠ 0 ∧ Sock.bindable routes addr = true ∧
    ∃ other ∈ pool.opened, other ≠ block ∧
      (pool.sock other).localPort = addr.sinPort ∧ (pool.sock other).localIp = addr.inAddr

def Sends (pool : SockPool) : UdpCall → Prop
  | .sendTo block _ _ dest => refuses (pool.sock block) dest = false
  | .send block _ _ => (pool.sock block).remoteIp ≠ 0
  | _ => False

def PortAlone (pool : SockPool) (block : Nat) : Prop :=
  ∀ other ∈ pool.opened, (pool.sock other).localPort = (pool.sock block).localPort →
    other = block

/-- Sending leaves every port alone, and gives one of its own to a socket without. -/
structure SendsWell (pool after : SockPool) (block : Nat) : Prop where
  kept : ∀ one ∈ pool.opened, (pool.sock one).localPort ≠ 0 →
    (after.sock one).localPort = (pool.sock one).localPort
  given : (pool.sock block).localPort = 0 →
    (after.sock block).localPort ≠ 0 ∧ after.PortAlone block

def Respects (pool : SockPool) (call : UdpCall) (err : NetErr) (after : SockPool) : Prop :=
  match call with
  | .bind block routes _ addr =>
      pool.WouldClash block routes addr → err = .binded ∧ after = pool
  | .sendTo block _ _ _ | .send block _ _ => pool.Sends call → SendsWell pool after block
  | _ => True

/-- Every call of the sequence returns and does as it should, and the ports are apart at
all times. -/
def OwnsPorts (pool : SockPool) (calls : List UdpCall) : Prop :=
  AllRight udpCall Apart Respects pool calls

/-- The socket is open; when `udp_bind` gets to its loop, the variable that it never set
can be read through, and for an address that would clash it is not null or reads as that
address with the bytes of the port swapped; and nothing is sent. -/
def Harmless (pool : SockPool) (call : UdpCall) : Prop :=
  (∀ block ∈ call.block, block ∈ pool.opened) ∧ ¬ pool.Sends call ∧
    match call with
    | .bind block routes stale addr =>
        (pool.sock block).localIp = 0 →
          ((∃ other ∈ pool.opened, other ≠ block) → stale.pointee ≠ none) ∧
          (pool.WouldClash block routes addr → stale.isNull = true →
            stale.pointee = some (addr.inAddr, swapU16 addr.sinPort))
    | _ => True

def AllHarmless (pool : SockPool) (calls : List UdpCall) : Prop :=
  AllGuarded udpCall Harmless pool calls

/-- A block is in use or free, but not both. -/
structure Divided (pool : SockPool) : Prop where
  nodup : (pool.opened ++ pool.free).Nodup
  length : pool.opened.length + pool.free.length ≤ sockMaxNr

variable {pool after : SockPool} {block : Nat} {call : UdpCall} {err : NetErr}

theorem divided_init (sock : Nat → Sock) : (init sock).Divided where
  nodup := List.nodup_range
  length := by simp [init]

theorem divided_setSock (divided : pool.Divided) (block : Nat) (sock : Sock) :
    (pool.setSock block sock).Divided :=
  ⟨divided.nodup, divided.length⟩

theorem setSock_ne {one : Nat} (other : one ≠ block) (sock : Sock) :
    (pool.setSock block sock).sock one = pool.sock one :=
  Function.update_of_ne other _ _

theorem setSock_self (pool : SockPool) (block : Nat) (sock : Sock) :
    (pool.setSock block sock).sock block = sock :=
  Function.update_self _ _ _

theorem setSock_same (pool : SockPool) (block : Nat) :
    pool.setSock block (pool.sock block) = pool := by
  rw [setSock, Function.update_eq_self]

theorem Apart.mono (apart : pool.Apart)
    (stay : ∀ one ∈ after.opened, one ∈ pool.opened ∧
      (after.sock one).localPort = (pool.sock one).localPort ∧
      (after.sock one).localIp = (pool.sock one).localIp) : after.Apart := by
  intro one oneOpen two twoOpen hasPort samePort sameIp
  obtain ⟨oneBefore, onePort, oneIp⟩ := stay one oneOpen
  obtain ⟨twoBefore, twoPort, twoIp⟩ := stay two twoOpen
  rw [onePort] at hasPort samePort
  rw [twoPort] at samePort
  rw [oneIp, twoIp] at sameIp
  exact apart one oneBefore two twoBefore hasPort samePort sameIp

theorem sockConnect_apart (apart : pool.Apart) (block : Nat) (addr : SockAddrIn) :
    (pool.sockConnect block addr).2.Apart := by
  refine apart.mono fun one oneOpen => ⟨oneOpen, ?_⟩
  dsimp only [sockConnect, Sock.sockConnect]
  by_cases same : one = block
  · rw [same, setSock_self]
    exact ⟨rfl, rfl⟩
  · rw [setSock_ne same]
    exact ⟨rfl, rfl⟩

theorem sockBind_eq (pool : SockPool) (block : Nat) (routes : List IpRouteEntry)
    (addr : SockAddrIn) :
    pool.sockBind block routes addr =
      if Sock.bindable routes addr then
        (.ok, pool.setSock block { pool.sock block with
          localIp := addr.inAddr, localPort := addr.sinPort })
      else (.param, pool) := by
  dsimp only [sockBind, Sock.sockBind]
  by_cases bindable : Sock.bindable routes addr = true
  · rw [if_pos bindable, if_pos bindable]
  · rw [if_neg bindable, if_neg bindable, setSock_same]

theorem apart_bound (apart : pool.Apart) {routes : List IpRouteEntry} {addr : SockAddrIn}
    (bindable : Sock.bindable routes addr = true)
    (noClash : ¬ pool.WouldClash block routes addr) :
    (pool.setSock block { pool.sock block with
      localIp := addr.inAddr, localPort := addr.sinPort }).Apart := by
  intro one oneOpen two twoOpen hasPort samePort sameIp
  by_cases oneIs : one = block
  · by_cases twoIs : two = block
    · rw [oneIs, twoIs]
    · rw [oneIs, setSock_self] at hasPort samePort sameIp
      rw [setSock_ne twoIs] at samePort sameIp
      exact absurd ⟨hasPort, bindable, two, twoOpen, twoIs, samePort, sameIp⟩ noClash
  · rw [setSock_ne oneIs] at hasPort samePort sameIp
    by_cases twoIs : two = block
    · rw [twoIs, setSock_self] at samePort sameIp
      dsimp only at samePort sameIp
      rw [← samePort] at hasPort
      have clashes : pool.WouldClash block routes addr :=
        ⟨hasPort, bindable, one, oneOpen, oneIs, samePort.symm, sameIp.symm⟩
      exact absurd clashes noClash
    · rw [setSock_ne twoIs] at samePort sameIp
      exact apart one oneOpen two twoOpen hasPort samePort sameIp

/-- `udp_bind` refuses, or faults, or calls `sock_bind`; the last of these when the
variable is null and no other socket is listed, or what it points to is another address. -/
theorem udpBind_cases (pool : SockPool) (block : Nat) (routes : List IpRouteEntry)
    (stale : StaleUdp) (addr : SockAddrIn) :
    (pool.udpBind block routes stale addr = some (.binded, pool) ∧
      ((pool.sock block).localIp ≠ 0 ∨
        ((∃ other ∈ pool.opened, other ≠ block) → stale.pointee ≠ none) ∧
          (stale.isNull = false ∨
            stale.pointee = some (addr.inAddr, swapU16 addr.sinPort)))) ∨
    (pool.udpBind block routes stale addr = none ∧ (pool.sock block).localIp = 0 ∧
      (∃ other ∈ pool.opened, other ≠ block) ∧ stale.pointee = none) ∨
    (pool.udpBind block routes stale addr = some (pool.sockBind block routes addr) ∧
      (pool.sock block).localIp = 0 ∧ stale.isNull = true ∧
      ((∃ other ∈ pool.opened, other ≠ block) → stale.pointee ≠ none ∧
        stale.pointee ≠ some (addr.inAddr, swapU16 addr.sinPort))) := by
  unfold udpBind
  split
  next bound => exact .inl ⟨rfl, .inl bound⟩
  next unbound =>
    have free : (pool.sock block).localIp = 0 := not_not.mp unbound
    dsimp only
    split
    next alone =>
      have noOther : ¬ ∃ other ∈ pool.opened, other ≠ block := by
        rintro ⟨other, isOpen, ne⟩
        have member : other ∈ pool.opened.filter fun getUdp => getUdp ≠ block :=
          List.mem_filter.mpr ⟨isOpen, decide_eq_true ne⟩
        rw [alone] at member
        cases member
      split
      next isNull =>
        exact .inr (.inr ⟨rfl, free, isNull, fun other => absurd other noOther⟩)
      next notNull =>
        exact .inl ⟨rfl, .inr ⟨fun other => absurd other noOther,
          .inl (Bool.eq_false_iff.mpr notNull)⟩⟩
    next others =>
      have hasOther : ∃ other ∈ pool.opened, other ≠ block := by
        obtain ⟨other, member⟩ := List.exists_mem_of_ne_nil _ others
        obtain ⟨isOpen, ne⟩ := List.mem_filter.mp member
        exact ⟨other, isOpen, of_decide_eq_true ne⟩
      split
      next unmapped => exact .inr (.inl ⟨rfl, free, hasOther, unmapped⟩)
      next localIp localPort isPointee =>
        have mapped : stale.pointee ≠ none := by
          rw [isPointee]
          exact Option.some_ne_none _
        split
        next same =>
          refine .inl ⟨rfl, .inr ⟨fun _ => mapped, .inr ?_⟩⟩
          rw [isPointee, same.1, same.2]
        next different =>
          have notSame : stale.pointee ≠ some (addr.inAddr, swapU16 addr.sinPort) := by
            rw [isPointee]
            intro same
            cases same
            exact different ⟨rfl, rfl⟩
          split
          next isNull => exact .inr (.inr ⟨rfl, free, isNull, fun _ => ⟨mapped, notSame⟩⟩)
          next notNull =>
            exact .inl ⟨rfl, .inr ⟨fun _ => mapped, .inl (Bool.eq_false_iff.mpr notNull)⟩⟩

theorem allocPort_eq (divided : pool.Divided) (block : Nat) :
    ∃ port : UInt16, port ≠ 0 ∧ pool.isPortUsed port = false ∧
      pool.allocPort block =
        (.ok, pool.setSock block { pool.sock block with localPort := port }) := by
  have inWord : ∀ i ∈ List.range' portDynStart (portDynEnd - portDynStart),
      1024 ≤ i ∧ i < 65536 := by
    intro i member
    rw [List.mem_range'_1] at member
    unfold portDynStart portDynEnd at member
    omega
  unfold allocPort
  split
  next allUsed =>
    exfalso
    have used : ∀ i ∈ List.range' portDynStart (portDynEnd - portDynStart),
        i ∈ pool.opened.map fun block => (pool.sock block).localPort.toNat := by
      intro i member
      have isUsed := List.find?_eq_none.mp allUsed i member
      simp only [Bool.not_eq_true', Bool.not_eq_false, isPortUsed, List.any_eq_true,
        decide_eq_true_eq] at isUsed
      obtain ⟨block, isOpen, port⟩ := isUsed
      refine List.mem_map.mpr ⟨block, isOpen, ?_⟩
      rw [port]
      exact UInt16.toNat_ofNat_of_lt' (inWord i member).2
    have distinct : (List.range' portDynStart (portDynEnd - portDynStart)).Nodup :=
      List.nodup_range'
    have count := (List.subperm_of_subset distinct used).length_le
    have few := divided.length
    rw [List.length_range', List.length_map] at count
    unfold portDynStart portDynEnd at count
    unfold sockMaxNr at few
    omega
  next i found =>
    obtain ⟨low, high⟩ := inWord i (List.mem_of_find?_eq_some found)
    refine ⟨UInt16.ofNat i, ?_, by simpa using List.find?_some found, rfl⟩
    intro zero
    have isZero := congrArg UInt16.toNat zero
    rw [UInt16.toNat_ofNat_of_lt' high, UInt16.toNat_zero] at isZero
    omega

theorem sendPort_not_well (divided : pool.Divided) (isOpen : block ∈ pool.opened) :
    ¬ SendsWell pool (pool.sendPort block).2 block := by
  intro well
  unfold sendPort at well
  by_cases hasPort : (pool.sock block).localPort ≠ 0
  · obtain ⟨port, _, unused, isAlloc⟩ := allocPort_eq divided block
    rw [if_pos hasPort, isAlloc] at well
    have kept := well.kept block isOpen hasPort
    dsimp only at kept
    rw [setSock_self, setSock_self] at kept
    dsimp only at kept
    have used : pool.isPortUsed port = true :=
      List.any_eq_true.mpr ⟨block, isOpen, decide_eq_true kept.symm⟩
    rw [unused] at used
    cases used
  · rw [if_neg hasPort] at well
    exact hasPort (well.given (not_not.mp hasPort)).1

theorem udpSendTo_eq {dest : SockAddrIn} (accepted : refuses (pool.sock block) dest = false)
    (hasBuf : Bool) (sent : NetErr) :
    (pool.udpSendTo block hasBuf sent dest).2 = (pool.sendPort block).2 := by
  unfold udpSendTo
  rw [accepted, if_neg Bool.false_ne_true]
  split
  next same => rw [same]
  next same => rw [same]

theorem not_refuses_remote (sock : Sock) :
    refuses sock ⟨swapU16 sock.remotePort, sock.remoteIp⟩ = false := by
  simp [refuses, swapU16_swapU16]

theorem create_divided (divided : pool.Divided) (family protocol waitInit : Int) :
    (pool.create family protocol waitInit).2.Divided := by
  unfold create mblockAlloc
  rw [if_neg (by simp)]
  cases isFree : pool.free with
  | nil => exact divided
  | cons block free =>
      have nodup := divided.nodup
      have length := divided.length
      rw [isFree] at nodup length
      rw [List.length_cons] at length
      dsimp only
      split
      next =>
        refine ⟨nodup.sublist ?_, by dsimp only [setSock]; omega⟩
        exact (List.sublist_cons_self block free).append_left pool.opened
      next =>
        constructor
        · dsimp only [setSock]
          rw [List.append_assoc]
          exact nodup
        · dsimp only [setSock]
          rw [List.length_append, List.length_singleton]
          omega

theorem create_apart (divided : pool.Divided) (apart : pool.Apart)
    (family protocol waitInit : Int) : (pool.create family protocol waitInit).2.Apart := by
  unfold create mblockAlloc
  rw [if_neg (by simp)]
  cases isFree : pool.free with
  | nil => exact apart
  | cons block free =>
      have nodup := divided.nodup
      rw [isFree] at nodup
      have isNew : ∀ one ∈ pool.opened, one ≠ block := fun one isOpen =>
        (List.nodup_append.mp nodup).2.2 one isOpen block List.mem_cons_self
      have others : ∀ one ∈ pool.opened,
          (({ pool with free }).setSock block (.sockInit family protocol)).sock one =
            pool.sock one := fun one isOpen => setSock_ne (isNew one isOpen) _
      dsimp only
      split
      next =>
        refine apart.mono fun one isOpen => ⟨isOpen, ?_⟩
        rw [others one isOpen]
        exact ⟨rfl, rfl⟩
      next =>
        have noPort : ((({ pool with free }).setSock block
            (.sockInit family protocol)).sock block).localPort = 0 := by
          rw [setSock_self]
          rfl
        intro one oneOpen two twoOpen hasPort samePort sameIp
        dsimp only at hasPort samePort sameIp
        rcases List.mem_append.mp oneOpen with oneBefore | oneNew
        · rw [others one oneBefore] at hasPort samePort sameIp
          rcases List.mem_append.mp twoOpen with twoBefore | twoNew
          · rw [others two twoBefore] at samePort sameIp
            exact apart one oneBefore two twoBefore hasPort samePort sameIp
          · rw [List.mem_singleton.mp twoNew, noPort] at samePort
            exact absurd samePort.symm hasPort
        · rw [List.mem_singleton.mp oneNew] at hasPort
          exact absurd noPort hasPort

theorem close_divided (divided : pool.Divided) (isOpen : block ∈ pool.opened) :
    (pool.close block).2.Divided := by
  have perm : (pool.opened.erase block ++ mblockFree pool.free block).Perm
      (pool.opened ++ pool.free) := by
    have first : (pool.opened.erase block ++ (pool.free ++ [block])).Perm
        (block :: (pool.opened.erase block ++ pool.free)) := by
      rw [← List.append_assoc]
      exact List.perm_append_singleton _ _
    exact first.trans ((List.perm_cons_erase isOpen).symm.append_right pool.free)
  refine ⟨perm.nodup_iff.mpr divided.nodup, ?_⟩
  have same := perm.length_eq
  rw [List.length_append, List.length_append] at same
  have length := divided.length
  dsimp only [close]
  omega

structure SameLists (pool after : SockPool) : Prop where
  opened : after.opened = pool.opened
  free : after.free = pool.free

theorem SameLists.divided (same : SameLists pool after) (divided : pool.Divided) :
    after.Divided := by
  refine ⟨?_, ?_⟩
  · rw [same.opened, same.free]
    exact divided.nodup
  · rw [same.opened, same.free]
    exact divided.length

theorem sameLists_sockBind (pool : SockPool) (block : Nat) (routes : List IpRouteEntry)
    (addr : SockAddrIn) : SameLists pool (pool.sockBind block routes addr).2 :=
  ⟨rfl, rfl⟩

theorem sameLists_udpBind {routes : List IpRouteEntry} {stale : StaleUdp} {addr : SockAddrIn}
    (bound : pool.udpBind block routes stale addr = some (err, after)) :
    SameLists pool after := by
  rcases pool.udpBind_cases block routes stale addr with
    ⟨refused, _⟩ | ⟨faults, _⟩ | ⟨binds, _⟩
  · rw [refused] at bound
    cases bound
    exact ⟨rfl, rfl⟩
  · rw [faults] at bound
    cases bound
  · rw [binds] at bound
    have same := sameLists_sockBind pool block routes addr
    rwa [Option.some.inj bound] at same

theorem sameLists_allocPort (pool : SockPool) (block : Nat) :
    SameLists pool (pool.allocPort block).2 := by
  unfold allocPort
  split <;> exact ⟨rfl, rfl⟩

theorem sameLists_udpSendTo (pool : SockPool) (block : Nat) (hasBuf : Bool) (sent : NetErr)
    (dest : SockAddrIn) : SameLists pool (pool.udpSendTo block hasBuf sent dest).2 := by
  cases accepted : refuses (pool.sock block) dest with
  | true =>
      rw [udpSendTo, accepted]
      exact ⟨rfl, rfl⟩
  | false =>
      rw [udpSendTo_eq accepted, sendPort]
      split
      next =>
        have same := sameLists_allocPort pool block
        exact ⟨same.opened, same.free⟩
      next => exact ⟨rfl, rfl⟩

theorem sameLists_sockSend (pool : SockPool) (block : Nat) (hasBuf : Bool) (sent : NetErr) :
    SameLists pool (pool.sockSend block (pool.udpSendTo block hasBuf sent)).2 := by
  unfold sockSend
  split
  next => exact ⟨rfl, rfl⟩
  next => exact sameLists_udpSendTo pool block hasBuf sent _

theorem udpCall_divided (divided : pool.Divided)
    (called : pool.udpCall call = some (err, after)) : after.Divided := by
  unfold udpCall at called
  split at called
  next isOpen =>
    cases call with
    | create family protocol waitInit =>
        cases called
        exact create_divided divided family protocol waitInit
    | bind block routes stale addr => exact (sameLists_udpBind called).divided divided
    | connect block addr =>
        cases called
        exact divided_setSock divided _ _
    | sendTo block hasBuf sent dest =>
        have same := sameLists_udpSendTo pool block hasBuf sent dest
        rw [Option.some.inj called] at same
        exact same.divided divided
    | send block hasBuf sent =>
        have same := sameLists_sockSend pool block hasBuf sent
        rw [Option.some.inj called] at same
        exact same.divided divided
    | close block =>
        cases called
        exact close_divided divided (isOpen block rfl)
  next => cases called

theorem udpCall_eq (isOpen : ∀ block ∈ call.block, block ∈ pool.opened) :
    pool.udpCall call = pool.udpRun call :=
  if_pos isOpen

theorem respects_of_harmless (divided : pool.Divided) (apart : pool.Apart)
    (harmless : pool.Harmless call) :
    ∃ err after, pool.udpCall call = some (err, after) ∧ pool.Respects call err after ∧
      after.Apart := by
  obtain ⟨isOpen, silent, well⟩ := harmless
  rw [udpCall_eq isOpen]
  cases call with
  | create family protocol waitInit =>
      exact ⟨_, _, rfl, trivial, create_apart divided apart family protocol waitInit⟩
  | bind block routes stale addr =>
      rcases pool.udpBind_cases block routes stale addr with
        ⟨refused, _⟩ | ⟨_, unbound, other, unmapped⟩ | ⟨binds, unbound, isNull, differs⟩
      · exact ⟨_, _, refused, fun _ => ⟨rfl, rfl⟩, apart⟩
      · exact absurd unmapped ((well unbound).1 other)
      · have noClash : ¬ pool.WouldClash block routes addr := by
          intro clashes
          have ⟨_, _, other, otherOpen, ne, _⟩ := clashes
          exact (differs ⟨other, otherOpen, ne⟩).2 ((well unbound).2 clashes isNull)
        by_cases bindable : Sock.bindable routes addr = true
        · rw [sockBind_eq, if_pos bindable] at binds
          exact ⟨_, _, binds, fun clashes => absurd clashes noClash,
            apart_bound apart bindable noClash⟩
        · rw [sockBind_eq, if_neg bindable] at binds
          exact ⟨_, _, binds, fun clashes => absurd clashes noClash, apart⟩
  | connect block addr =>
      exact ⟨_, _, rfl, trivial, sockConnect_apart apart block addr⟩
  | sendTo block hasBuf sent dest =>
      have refused : refuses (pool.sock block) dest = true := (Bool.not_eq_false _).mp silent
      have isRefused : pool.udpSendTo block hasBuf sent dest = (.connected, pool) :=
        if_pos refused
      exact ⟨_, _, congrArg some isRefused, fun sends => absurd sends silent, apart⟩
  | send block hasBuf sent =>
      have unconnected : (pool.sock block).remoteIp = 0 := not_not.mp silent
      have isRefused : pool.sockSend block (pool.udpSendTo block hasBuf sent) =
          (.unreach, pool) := if_pos unconnected
      exact ⟨_, _, congrArg some isRefused, fun sends => absurd sends silent, apart⟩
  | close block =>
      refine ⟨_, _, rfl, trivial, apart.mono fun one oneOpen => ?_⟩
      exact ⟨List.mem_of_mem_erase oneOpen, rfl, rfl⟩

theorem harmless_of_respects (divided : pool.Divided)
    (called : pool.udpCall call = some (err, after)) (respects : pool.Respects call err after) :
    pool.Harmless call := by
  have isOpen : ∀ block ∈ call.block, block ∈ pool.opened := by
    by_contra closed
    rw [udpCall, if_neg closed] at called
    cases called
  rw [udpCall_eq isOpen] at called
  refine ⟨isOpen, ?_, ?_⟩
  · cases call with
    | sendTo block hasBuf sent dest =>
        intro accepted
        have well : SendsWell pool after block := respects accepted
        have isAfter := udpSendTo_eq accepted hasBuf sent
        rw [Option.some.inj called] at isAfter
        dsimp only at isAfter
        rw [isAfter] at well
        exact sendPort_not_well divided (isOpen block rfl) well
    | send block hasBuf sent =>
        intro connected
        have well : SendsWell pool after block := respects connected
        have isAfter := udpSendTo_eq (not_refuses_remote (pool.sock block)) hasBuf sent
        rw [udpRun, sockSend, if_neg connected] at called
        rw [Option.some.inj called] at isAfter
        dsimp only at isAfter
        rw [isAfter] at well
        exact sendPort_not_well divided (isOpen block rfl) well
    | _ => exact id
  · cases call with
    | bind block routes stale addr =>
        intro unbound
        rcases pool.udpBind_cases block routes stale addr with
          ⟨_, bound | ⟨mapped, notNull | same⟩⟩ | ⟨faults, _⟩ | ⟨binds, _, _, differs⟩
        · exact absurd unbound bound
        · refine ⟨mapped, fun _ isNull => ?_⟩
          rw [notNull] at isNull
          cases isNull
        · exact ⟨mapped, fun _ _ => same⟩
        · rw [udpRun, faults] at called
          cases called
        · refine ⟨fun other => (differs other).1, fun clashes => ?_⟩
          obtain ⟨refused, _⟩ := respects clashes
          rw [udpRun, binds, sockBind_eq, if_pos clashes.2.1, refused] at called
          cases called
    | _ => trivial

/-- From the start of the system, UDP sockets own their ports over a sequence of calls if
and only if every call of it is harmless. -/
theorem ownsPorts_iff (sock : Nat → Sock) (calls : List UdpCall) :
    (init sock).OwnsPorts calls ↔ (init sock).AllHarmless calls := by
  refine allRight_iff_allGuarded Divided ?_ ?_ calls (divided_init sock) ?_
  · intro pool call divided apart harmless
    obtain ⟨err, after, called, respects, afterApart⟩ :=
      respects_of_harmless divided apart harmless
    exact ⟨err, after, called, respects, afterApart, udpCall_divided divided called⟩
  · intro pool call err after divided _ called respects _
    exact harmless_of_respects divided called respects
  · intro one isOpen
    cases isOpen

def blank : SockPool :=
  .init fun _ => .sockInit 0 0

def port80 : SockAddrIn where
  sinPort := 0x5000
  inAddr := 0

def portsAfter (calls : List UdpCall) : Option (List UInt16) :=
  (runAll udpCall blank calls).map fun pool =>
    pool.opened.map fun block => (pool.sock block).localPort

/-- Two sockets get the same port where the variable is null, a bound socket has another port
after it sent a message, and one without a port has none. -/
theorem ports_not_owned :
    portsAfter [.create 0 17 0, .create 0 17 0, .bind 0 [] ⟨true, some (1, 0)⟩ port80,
        .bind 1 [] ⟨true, some (1, 0)⟩ port80] = some [0x5000, 0x5000] ∧
      ¬ blank.OwnsPorts [.create 0 17 0, .create 0 17 0,
        .bind 0 [] ⟨true, some (1, 0)⟩ port80, .bind 1 [] ⟨true, some (1, 0)⟩ port80] ∧
      portsAfter [.create 0 17 0, .bind 0 [] ⟨true, some (1, 0)⟩ port80,
        .sendTo 0 true .ok ⟨0, 0⟩] = some [1024] ∧
      portsAfter [.create 0 17 0, .sendTo 0 true .ok ⟨0, 0⟩] = some [0] := by
  refine ⟨by decide, ?_, by decide, by decide⟩
  rintro ⟨_, _, _, one, _, _, _, _, two, _, _, _, _, three, _, _, _, _, four, _, apart⟩
  cases one
  cases two
  cases three
  cases four
  exact absurd (apart 0 (by decide) 1 (by decide) (by decide) rfl rfl) (by decide)

end SockPool

end CleanOS.Net
