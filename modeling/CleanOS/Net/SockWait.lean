import CleanOS.Lib.Machine
import CleanOS.Net.Pktbuf

/-!
# Receivers of a socket

The wait protocol of `kernel/net/sock.c` between the user threads in
`socket_receive` or `socket_receive_from` of `kernel/net/socket.c`, the worker
that runs `handle_sock_receive` for them, and `udp_in` or `raw_in`, which queue a
packet and call `sock_wakeup`.  The two kinds of sockets differ only in how a
packet is read, which is the parameter `read`: the result and the number of bytes
that `receive_from` reports for a packet and the length of the caller's buffer.
The segment is an ideal counting semaphore.
-/

namespace CleanOS.Net

open CleanOS.Lib

/-- `UDP_MAX_RECV` and `RAW_MAX_RECV`. -/
def maxRecv : Nat := 50

/-- `sock_wait_t`. -/
structure SockWait where
  err : NetErr
  waiting : Int
  sem : Nat

namespace SockWait

/-- `sock_wait_init`, which leaves `err` as it is. -/
def sockWaitInit (err : NetErr) : SockWait where
  err := err
  waiting := 0
  sem := 0

/-- `sock_wait_leave`. -/
def sockWaitLeave (wait : SockWait) (err : NetErr) : SockWait :=
  if 0 < wait.waiting then
    { err, waiting := wait.waiting - 1, sem := wait.sem + 1 }
  else wait

/-- What `sock_wait_add` does to the counter. -/
def sockWaitAdd (wait : SockWait) : SockWait :=
  { wait with waiting := wait.waiting + 1 }

end SockWait

/-- Where a user thread stands.  `posted` threads have handed
`handle_sock_receive` to the worker, for the first time or again; `answered` ones
were told to wait, `entered` ones are in `sock_wait_enter`, and `woken` ones have
left it.  In `fault` the thread has called `sock_wait_enter` with the null pointer
that `req.wait` holds when an empty packet was received. -/
inductive ReceiverPhase where
  | idle
  | posted (len : Nat) (again : Bool)
  | answered (len : Nat)
  | entered (len : Nat)
  | woken (len : Nat)
  | fault
  deriving DecidableEq

/-- The receive side of a socket and the threads that use it. -/
structure SockReceive (α : Type) where
  recvList : List α
  recvWait : SockWait
  threads : List ReceiverPhase

/-- A call of `socket_receive`, the worker's run of `handle_sock_receive` for a
thread, the arrival of a packet, and the next step of a thread on its own. -/
inductive ReceiveAction (α : Type) where
  | call (thread len : Nat)
  | handle (thread : Nat)
  | arrive (packet : α)
  | thread (thread : Nat)

namespace SockReceive

variable {α : Type}

def init (err : NetErr) (threads : Nat) : SockReceive α where
  recvList := []
  recvWait := .sockWaitInit err
  threads := List.replicate threads .idle

def setThread (system : SockReceive α) (thread : Nat) (phase : ReceiverPhase) :
    SockReceive α :=
  { system with threads := system.threads.set thread phase }

/-- `handle_sock_receive` for a thread, and what the thread does with the
answer. -/
def handleSockReceive (read : α → Nat → NetErr × Nat) (system : SockReceive α)
    (thread len : Nat) : SockReceive α :=
  match system.recvList with
  | [] =>
      { system with recvWait := system.recvWait.sockWaitAdd }.setThread thread (.answered len)
  | packet :: recvList =>
      let (err, compLen) := read packet len
      if err.isError || compLen ≠ 0 then { system with recvList }.setThread thread .idle
      else { system with recvList }.setThread thread .fault

/-- The end of `udp_in` and `raw_in`. -/
def packetIn (system : SockReceive α) (packet : α) : SockReceive α :=
  if system.recvList.length < maxRecv then
    { system with
      recvList := system.recvList ++ [packet]
      recvWait := system.recvWait.sockWaitLeave .ok }
  else system

def step (read : α → Nat → NetErr × Nat) (system : SockReceive α) :
    ReceiveAction α → Option (SockReceive α)
  | .call thread len =>
      match system.threads[thread]? with
      | some .idle =>
          if len = 0 then some system
          else some (system.setThread thread (.posted len false))
      | _ => none
  | .handle thread =>
      match system.threads[thread]? with
      | some (.posted len _) => some (system.handleSockReceive read thread len)
      | _ => none
  | .arrive packet => some (system.packetIn packet)
  | .thread thread =>
      match system.threads[thread]? with
      | some (.answered len) => some (system.setThread thread (.entered len))
      | some (.entered len) =>
          if 0 < system.recvWait.sem then
            let wait := { system.recvWait with sem := system.recvWait.sem - 1 }
            if wait.err.isError then some ({ system with recvWait := wait }.setThread thread .idle)
            else some ({ system with recvWait := wait }.setThread thread (.woken len))
          else none
      | some (.woken len) => some (system.setThread thread (.posted len true))
      | _ => none

def isWaiting : ReceiverPhase → Bool
  | .answered _ | .entered _ => true
  | _ => false

def isReturning : ReceiverPhase → Bool
  | .woken _ | .posted _ true => true
  | _ => false

/-- The threads that were given a permit and have not yet run
`handle_sock_receive` again: those that still have to leave `sock_wait_enter`, and
those that have left it. -/
def permitted (system : SockReceive α) : Nat :=
  system.recvWait.sem + system.threads.countP isReturning

/-- What a run keeps.  A permit stands for a thread that was told to wait; the
counter stands for the others. -/
structure Attended (system : SockReceive α) : Prop where
  waiting_nonneg : 0 ≤ system.recvWait.waiting
  waiting_add : system.recvWait.waiting + system.recvWait.sem =
    system.threads.countP isWaiting
  err_ok : 0 < system.recvWait.sem → system.recvWait.err = .ok
  attended : 0 < system.recvWait.waiting → system.recvList.length ≤ system.permitted

theorem attended_init (err : NetErr) (threads : Nat) :
    Attended (init err threads : SockReceive α) where
  waiting_nonneg := Int.le_refl 0
  waiting_add := by
    simp only [init, SockWait.sockWaitInit, List.countP_replicate, isWaiting,
      Bool.false_eq_true, if_false]
    rfl
  err_ok := fun positive => absurd positive (Nat.lt_irrefl 0)
  attended := fun positive => absurd positive (Int.lt_irrefl 0)

namespace Attended

variable {system after : SockReceive α} {read : α → Nat → NetErr × Nat}

theorem setThread (attended : Attended system) {thread : Nat} {before phase : ReceiverPhase}
    (found : system.threads[thread]? = some before) {recvList : List α} {wait : SockWait}
    (waiting_nonneg : 0 ≤ wait.waiting)
    (waiting_add : wait.waiting + wait.sem + (isWaiting before).toNat =
      system.recvWait.waiting + system.recvWait.sem + (isWaiting phase).toNat)
    (err_ok : 0 < wait.sem → wait.err = .ok)
    (served : 0 < wait.waiting → recvList.length = 0 ∨ 0 < system.recvWait.waiting ∧
      recvList.length + system.recvWait.sem + (isReturning before).toNat ≤
        system.recvList.length + wait.sem + (isReturning phase).toNat) :
    Attended ({ system with recvList, recvWait := wait }.setThread thread phase) := by
  have waits := countP_set found phase isWaiting
  have returns := countP_set found phase isReturning
  refine ⟨waiting_nonneg, ?_, err_ok, ?_⟩
  · show wait.waiting + wait.sem = ((system.threads.set thread phase).countP isWaiting : Int)
    have before := attended.waiting_add
    omega
  · intro positive
    show recvList.length ≤ wait.sem + (system.threads.set thread phase).countP isReturning
    rcases served positive with empty | ⟨wasPositive, moved⟩
    · omega
    · have bound := attended.attended wasPositive
      unfold permitted at bound
      omega

theorem setPhase (attended : Attended system) {thread : Nat} {before phase : ReceiverPhase}
    (found : system.threads[thread]? = some before)
    (sameWaiting : isWaiting before = isWaiting phase)
    (sameReturning : isReturning before = isReturning phase) :
    Attended (system.setThread thread phase) := by
  refine attended.setThread found attended.waiting_nonneg ?_ attended.err_ok ?_
  · rw [sameWaiting]
  · intro positive
    rw [sameReturning]
    exact .inr ⟨positive, Nat.le_refl _⟩

theorem handle (attended : Attended system) {thread len : Nat} {again : Bool}
    (found : system.threads[thread]? = some (.posted len again)) :
    Attended (system.handleSockReceive read thread len) := by
  unfold handleSockReceive
  split
  next empty =>
    refine attended.setThread found ?_ ?_ attended.err_ok fun _ => .inl ?_
    · have nonneg := attended.waiting_nonneg
      show 0 ≤ system.recvWait.waiting + 1
      omega
    · show system.recvWait.waiting + 1 + (system.recvWait.sem : Int) + 0 =
        system.recvWait.waiting + system.recvWait.sem + 1
      omega
    · rw [empty]
      rfl
  next packet rest list =>
    have served (phase : ReceiverPhase) (positive : 0 < system.recvWait.waiting) :
        rest.length = 0 ∨ 0 < system.recvWait.waiting ∧
          rest.length + system.recvWait.sem + (isReturning (.posted len again)).toNat ≤
            system.recvList.length + system.recvWait.sem + (isReturning phase).toNat := by
      refine .inr ⟨positive, ?_⟩
      have one := Bool.toNat_le (isReturning (.posted len again))
      rw [list, List.length_cons]
      omega
    dsimp only
    split
    · exact attended.setThread found attended.waiting_nonneg rfl attended.err_ok (served _)
    · exact attended.setThread found attended.waiting_nonneg rfl attended.err_ok (served _)

theorem packetIn (attended : Attended system) (packet : α) :
    Attended (system.packetIn packet) := by
  unfold SockReceive.packetIn
  split
  next room =>
    unfold SockWait.sockWaitLeave
    split
    next waits =>
      have add := attended.waiting_add
      have bound := attended.attended waits
      refine ⟨?_, ?_, fun _ => rfl, fun _ => ?_⟩
      · show 0 ≤ system.recvWait.waiting - 1
        omega
      · show system.recvWait.waiting - 1 + ((system.recvWait.sem + 1 : Nat) : Int) =
          system.threads.countP isWaiting
        omega
      · show (system.recvList ++ [packet]).length ≤
          system.recvWait.sem + 1 + system.threads.countP isReturning
        unfold permitted at bound
        rw [List.length_append, List.length_singleton]
        omega
    next noneWaits =>
      exact ⟨attended.waiting_nonneg, attended.waiting_add, attended.err_ok,
        fun waits => absurd waits noneWaits⟩
  next => exact attended

theorem leave (attended : Attended system) {thread len : Nat}
    (found : system.threads[thread]? = some (.entered len)) (permit : 0 < system.recvWait.sem) :
    Attended ({ system with
      recvWait := { system.recvWait with sem := system.recvWait.sem - 1 } }.setThread thread
        (.woken len)) := by
  refine attended.setThread found attended.waiting_nonneg ?_ ?_ ?_
  · show system.recvWait.waiting + ((system.recvWait.sem - 1 : Nat) : Int) + 1 =
      system.recvWait.waiting + system.recvWait.sem + 0
    omega
  · exact fun _ => attended.err_ok permit
  · intro positive
    refine .inr ⟨positive, ?_⟩
    show system.recvList.length + system.recvWait.sem + 0 ≤
      system.recvList.length + (system.recvWait.sem - 1) + 1
    omega

theorem step {action : ReceiveAction α} (attended : Attended system)
    (stepped : system.step read action = some after) : Attended after := by
  cases action with
  | call thread len =>
      simp only [SockReceive.step] at stepped
      split at stepped
      next found =>
        split at stepped
        next =>
          rw [← Option.some.inj stepped]
          exact attended
        next =>
          rw [← Option.some.inj stepped]
          exact attended.setPhase found rfl rfl
      next => cases stepped
  | handle thread =>
      simp only [SockReceive.step] at stepped
      split at stepped
      next len again found =>
        rw [← Option.some.inj stepped]
        exact attended.handle found
      next => cases stepped
  | arrive packet =>
      rw [← Option.some.inj stepped]
      exact attended.packetIn packet
  | thread thread =>
      simp only [SockReceive.step] at stepped
      split at stepped
      next len found =>
        rw [← Option.some.inj stepped]
        exact attended.setPhase found rfl rfl
      next len found =>
        split at stepped
        next permit =>
          have noError : system.recvWait.err.isError = false := by
            rw [attended.err_ok permit]
            rfl
          rw [noError] at stepped
          rw [← Option.some.inj stepped]
          exact attended.leave found permit
        next => cases stepped
      next len found =>
        rw [← Option.some.inj stepped]
        exact attended.setPhase found rfl rfl
      next => cases stepped

end Attended

/-- While threads are counted as waiting there are no more packets than threads
that come for them, and no packet is left when all threads in a call are blocked
without a permit. -/
structure NoLostWakeup (system : SockReceive α) : Prop where
  attended : 0 < system.recvWait.waiting → system.recvList.length ≤ system.permitted
  blocked : system.recvWait.sem = 0 →
    (∃ phase ∈ system.threads, isWaiting phase) →
    (∀ phase ∈ system.threads, isReturning phase = false) → system.recvList = []

theorem Attended.noLostWakeup {system : SockReceive α} (attended : Attended system) :
    NoLostWakeup system where
  attended := attended.attended
  blocked := by
    intro noPermit someWaits noneReturns
    have counted := List.countP_pos_iff.mpr someWaits
    have add := attended.waiting_add
    have waits : 0 < system.recvWait.waiting := by omega
    have bound := attended.attended waits
    have noneCounted : system.threads.countP isReturning = 0 := by
      rw [List.countP_eq_zero]
      intro phase member
      rw [noneReturns phase member]
      exact Bool.false_ne_true
    rw [permitted, noPermit, noneCounted] at bound
    exact List.eq_nil_of_length_eq_zero (Nat.le_zero.mp bound)

/-- No run loses a wake-up, for any number of threads and any way of reading a
packet. -/
theorem reaches_noLostWakeup (read : α → Nat → NetErr × Nat) (err : NetErr) (threads : Nat)
    {system : SockReceive α}
    (reached : Reaches (step read) (fun _ _ => True) (init err threads) system) :
    NoLostWakeup system := by
  have attended : Attended system :=
    reached.invariant Attended (attended_init err threads)
      fun held _ stepped => held.step stepped
  exact attended.noLostWakeup

/-- Two threads wait; one packet arrives and a third thread takes it before the
woken one comes back, which then waits again. -/
theorem reaches_noLostWakeup_three : ∃ system : SockReceive Nat,
    Reaches (step fun packet len => (.ok, min packet len)) (fun _ _ => True) (init .io 3)
      system ∧ system.recvWait.waiting = 2 ∧ NoLostWakeup system := by
  have executed : ∃ system : SockReceive Nat,
      execute (step fun packet len => (.ok, min packet len)) (fun _ _ => True) (init .io 3)
        [.call 0 8, .handle 0, .call 1 8, .handle 1, .thread 0, .arrive 5, .call 2 8, .handle 2,
          .thread 0, .thread 0, .handle 0] = some system ∧ system.recvWait.waiting = 2 :=
    ⟨_, rfl, rfl⟩
  obtain ⟨system, executed, waiting⟩ := executed
  have reached := Reaches.of_execute executed
  exact ⟨system, reached, waiting, reaches_noLostWakeup _ .io 3 reached⟩

end SockReceive

end CleanOS.Net
