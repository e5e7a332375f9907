import CleanOS.Net.Fixq
import CleanOS.Net.Pktbuf

/-!
# Calls and notifications of the network worker

`kernel/net/exmsg.c`: user threads hand functions to the worker thread, and
`exmsg_netif_in` notifies it of received packets.  Both take a message block from
one pool and put it into one queue.  A context is a place from which
`exmsg_netif_in` is called: context zero is the worker itself, the others are
interrupt handlers.  The page directories that the worker switches between are
left out.
-/

namespace CleanOS.Net

open CleanOS.Lib

/-- `EXMSG_MSG_CNT`. -/
def exmsgMsgCnt : Nat := 10

/-- `exmsg_t`: its type with the member of the union that goes with it.  A call
stands for the `func_msg_t` on the stack of its caller. -/
inductive Exmsg where
  | netifIn (netif : Nat)
  | fun (call : Nat)
  deriving DecidableEq

/-- The fields of `func_msg_t` that change during a call. -/
structure FuncMsg where
  err : NetErr
  waitSem : Nat

/-- `mblock_alloc` on the list of free blocks; `none` is the null pointer. -/
def mblockAlloc (free : List Nat) (ms : Int) : Option (Nat × List Nat) :=
  if ms < 0 && free.length = 0 then none
  else
    match free with
    | [] => none
    | block :: free => some (block, free)

/-- `mblock_free`. -/
def mblockFree (free : List Nat) (block : Nat) : List Nat :=
  free ++ [block]

/-- Where a user thread stands in `exmsg_func_exec`.  In `fault` it has written
through a null message pointer. -/
inductive CallerPhase where
  | idle
  | alloc (call : Nat)
  | sendTest (call block : Nat)
  | sendWait (call block : Nat)
  | storing (call block : Nat)
  | waiting (call : Nat)
  | fault
  deriving DecidableEq

/-- Where a context stands in `exmsg_netif_in`. -/
inductive NotifierPhase where
  | idle
  | alloc (netif : Nat)
  | sendTest (netif block : Nat)
  | sendWait (netif block : Nat)
  | storing (netif block : Nat)
  deriving DecidableEq

/-- Where the worker stands in `net_work_thread`. -/
inductive WorkerPhase where
  | receiving
  | taking
  | dispatch (block : Nat)
  | draining (block netif : Nat)
  | running (block call : Nat)
  | freeing (block : Nat)
  deriving DecidableEq

/-- The static data of `exmsg.c`, the threads that use it, and the history of the
calls: how many were issued, which were queued, executed and returned, in this
order and with their results. -/
structure ExmsgState where
  msgQueue : Fixq Nat
  msgBlock : List Nat
  message : Nat → Exmsg
  funcMsg : Nat → FuncMsg
  callers : List CallerPhase
  notifiers : List NotifierPhase
  worker : WorkerPhase
  issued : Nat
  queued : List Nat
  executed : List (Nat × NetErr)
  returned : List (Nat × NetErr)

/-- A new call, the next step of a caller, a new notification from a context, its
next step, and the next step of the worker.  `result` is what the function
returns when this step runs one. -/
inductive ExmsgAction where
  | exec (caller : Nat)
  | caller (caller : Nat)
  | netifIn (context netif : Nat)
  | notifier (context : Nat)
  | worker (result : NetErr)

namespace ExmsgState

/-- `exmsg_init`, with the threads not yet in a call. -/
def exmsgInit (slots : Nat → Nat) (message : Nat → Exmsg) (callers contexts : Nat) :
    ExmsgState where
  msgQueue := .fixqInit slots exmsgMsgCnt
  msgBlock := List.range exmsgMsgCnt
  message := message
  funcMsg := fun _ => ⟨.ok, 0⟩
  callers := List.replicate callers .idle
  notifiers := List.replicate (contexts + 1) .idle
  worker := .receiving
  issued := 0
  queued := []
  executed := []
  returned := []

def setCaller (state : ExmsgState) (caller : Nat) (phase : CallerPhase) : ExmsgState :=
  { state with callers := state.callers.set caller phase }

def setNotifier (state : ExmsgState) (context : Nat) (phase : NotifierPhase) :
    ExmsgState :=
  { state with notifiers := state.notifiers.set context phase }

/-- The start of `exmsg_func_exec`: the message of the call is set up. -/
def exec (state : ExmsgState) (caller : Nat) : Option ExmsgState :=
  match state.callers[caller]? with
  | some .idle =>
      some ({ state with
        funcMsg := Function.update state.funcMsg state.issued ⟨.ok, 0⟩
        issued := state.issued + 1 }.setCaller caller (.alloc state.issued))
  | _ => none

/-- The steps of `exmsg_func_exec`. -/
def callerStep (state : ExmsgState) (caller : Nat) : Option ExmsgState :=
  match state.callers[caller]? with
  | some (.alloc call) =>
      match mblockAlloc state.msgBlock 0 with
      | none => some (state.setCaller caller .fault)
      | some (block, msgBlock) =>
          some ({ state with
            msgBlock
            message := Function.update state.message block (.fun call) }.setCaller caller
              (.sendTest call block))
  | some (.sendTest call block) =>
      if state.msgQueue.sendFull 0 then
        some ({ state with
          msgBlock := mblockFree state.msgBlock block
          returned := state.returned ++ [(call, NetErr.full)] }.setCaller caller .idle)
      else some (state.setCaller caller (.sendWait call block))
  | some (.sendWait call block) => do
      let msgQueue ← state.msgQueue.acquireSend
      return { state with msgQueue }.setCaller caller (.storing call block)
  | some (.storing call block) =>
      some ({ state with
        msgQueue := state.msgQueue.store block
        queued := state.queued ++ [call] }.setCaller caller (.waiting call))
  | some (.waiting call) =>
      let funcMsg := state.funcMsg call
      if 0 < funcMsg.waitSem then
        some ({ state with
          funcMsg := Function.update state.funcMsg call
            { funcMsg with waitSem := funcMsg.waitSem - 1 }
          returned := state.returned ++ [(call, funcMsg.err)] }.setCaller caller .idle)
      else none
  | _ => none

/-- The start of `exmsg_netif_in`.  The worker can call it only while it handles
a message. -/
def netifIn (state : ExmsgState) (context netif : Nat) : Option ExmsgState :=
  match state.notifiers[context]?, context, state.worker with
  | some .idle, 0, .draining _ _ => some (state.setNotifier context (.alloc netif))
  | some .idle, 0, .running _ _ => some (state.setNotifier context (.alloc netif))
  | some .idle, _ + 1, _ => some (state.setNotifier context (.alloc netif))
  | _, _, _ => none

/-- The steps of `exmsg_netif_in`. -/
def notifierStep (state : ExmsgState) (context : Nat) : Option ExmsgState :=
  match state.notifiers[context]? with
  | some (.alloc netif) =>
      match mblockAlloc state.msgBlock (-1) with
      | none => some (state.setNotifier context .idle)
      | some (block, msgBlock) =>
          some ({ state with
            msgBlock
            message := Function.update state.message block (.netifIn netif) }.setNotifier
              context (.sendTest netif block))
  | some (.sendTest netif block) =>
      if state.msgQueue.sendFull (-1) then
        some ({ state with
          msgBlock := mblockFree state.msgBlock block }.setNotifier context .idle)
      else some (state.setNotifier context (.sendWait netif block))
  | some (.sendWait netif block) => do
      let msgQueue ← state.msgQueue.acquireSend
      return { state with msgQueue }.setNotifier context (.storing netif block)
  | some (.storing _ block) =>
      some ({ state with msgQueue := state.msgQueue.store block }.setNotifier context .idle)
  | _ => none

/-- The steps of `net_work_thread`, with `do_netif_in` as one step that ends.  A
notification that the worker itself has started comes first. -/
def workerStep (state : ExmsgState) (result : NetErr) : Option ExmsgState :=
  if state.notifiers[0]? = some .idle then
    match state.worker with
    | .receiving => do
        let msgQueue ← state.msgQueue.acquireReceive
        return { state with msgQueue, worker := .taking }
    | .taking =>
        let (block, msgQueue) := state.msgQueue.take
        some { state with msgQueue, worker := .dispatch block }
    | .dispatch block =>
        match state.message block with
        | .netifIn netif => some { state with worker := .draining block netif }
        | .fun call => some { state with worker := .running block call }
    | .draining block _ => some { state with worker := .freeing block }
    | .running block call =>
        some { state with
          funcMsg := Function.update state.funcMsg call
            ⟨result, (state.funcMsg call).waitSem + 1⟩
          executed := state.executed ++ [(call, result)]
          worker := .freeing block }
    | .freeing block =>
        some { state with
          msgBlock := mblockFree state.msgBlock block
          worker := .receiving }
  else none

def step (state : ExmsgState) : ExmsgAction → Option ExmsgState
  | .exec caller => state.exec caller
  | .caller caller => state.callerStep caller
  | .netifIn context netif => state.netifIn context netif
  | .notifier context => state.notifierStep context
  | .worker result => state.workerStep result

inductive Move (state : ExmsgState) : ExmsgAction → ExmsgState → Prop where
  | exec {caller : Nat} (found : state.callers[caller]? = some .idle) :
      Move state (.exec caller) ({ state with
        funcMsg := Function.update state.funcMsg state.issued ⟨.ok, 0⟩
        issued := state.issued + 1 }.setCaller caller (.alloc state.issued))
  | callerFault {caller call : Nat} (found : state.callers[caller]? = some (.alloc call))
      (empty : state.msgBlock = []) :
      Move state (.caller caller) (state.setCaller caller .fault)
  | callerAlloc {caller call block : Nat} {rest : List Nat}
      (found : state.callers[caller]? = some (.alloc call))
      (free : state.msgBlock = block :: rest) :
      Move state (.caller caller) ({ state with
        msgBlock := rest
        message := Function.update state.message block (.fun call) }.setCaller caller
          (.sendTest call block))
  | callerTest {caller call block : Nat}
      (found : state.callers[caller]? = some (.sendTest call block)) :
      Move state (.caller caller) (state.setCaller caller (.sendWait call block))
  | callerAcquire {caller call block : Nat} {msgQueue : Fixq Nat}
      (found : state.callers[caller]? = some (.sendWait call block))
      (acquired : state.msgQueue.acquireSend = some msgQueue) :
      Move state (.caller caller)
        ({ state with msgQueue }.setCaller caller (.storing call block))
  | callerStore {caller call block : Nat}
      (found : state.callers[caller]? = some (.storing call block)) :
      Move state (.caller caller) ({ state with
        msgQueue := state.msgQueue.store block
        queued := state.queued ++ [call] }.setCaller caller (.waiting call))
  | callerReturn {caller call : Nat} (found : state.callers[caller]? = some (.waiting call))
      (released : 0 < (state.funcMsg call).waitSem) :
      Move state (.caller caller) ({ state with
        funcMsg := Function.update state.funcMsg call
          { state.funcMsg call with waitSem := (state.funcMsg call).waitSem - 1 }
        returned := state.returned ++ [(call, (state.funcMsg call).err)] }.setCaller caller
          .idle)
  | netifIn {context netif : Nat} (found : state.notifiers[context]? = some .idle) :
      Move state (.netifIn context netif) (state.setNotifier context (.alloc netif))
  | notifierNone {context netif : Nat}
      (found : state.notifiers[context]? = some (.alloc netif)) (empty : state.msgBlock = []) :
      Move state (.notifier context) (state.setNotifier context .idle)
  | notifierAlloc {context netif block : Nat} {rest : List Nat}
      (found : state.notifiers[context]? = some (.alloc netif))
      (free : state.msgBlock = block :: rest) :
      Move state (.notifier context) ({ state with
        msgBlock := rest
        message := Function.update state.message block (.netifIn netif) }.setNotifier context
          (.sendTest netif block))
  | notifierFull {context netif block : Nat}
      (found : state.notifiers[context]? = some (.sendTest netif block))
      (full : state.msgQueue.sendFull (-1)) :
      Move state (.notifier context) ({ state with
        msgBlock := mblockFree state.msgBlock block }.setNotifier context .idle)
  | notifierTest {context netif block : Nat}
      (found : state.notifiers[context]? = some (.sendTest netif block)) :
      Move state (.notifier context) (state.setNotifier context (.sendWait netif block))
  | notifierAcquire {context netif block : Nat} {msgQueue : Fixq Nat}
      (found : state.notifiers[context]? = some (.sendWait netif block))
      (acquired : state.msgQueue.acquireSend = some msgQueue) :
      Move state (.notifier context)
        ({ state with msgQueue }.setNotifier context (.storing netif block))
  | notifierStore {context netif block : Nat}
      (found : state.notifiers[context]? = some (.storing netif block)) :
      Move state (.notifier context)
        ({ state with msgQueue := state.msgQueue.store block }.setNotifier context .idle)
  | workerAcquire {msgQueue : Fixq Nat} {result : NetErr} (phase : state.worker = .receiving)
      (acquired : state.msgQueue.acquireReceive = some msgQueue) :
      Move state (.worker result) { state with msgQueue, worker := .taking }
  | workerTake {result : NetErr} (phase : state.worker = .taking) :
      Move state (.worker result) { state with
        msgQueue := state.msgQueue.take.2
        worker := .dispatch state.msgQueue.take.1 }
  | workerNetifIn {result : NetErr} {block netif : Nat} (phase : state.worker = .dispatch block)
      (message : state.message block = .netifIn netif) :
      Move state (.worker result) { state with worker := .draining block netif }
  | workerFun {result : NetErr} {block call : Nat} (phase : state.worker = .dispatch block)
      (message : state.message block = .fun call) :
      Move state (.worker result) { state with worker := .running block call }
  | workerDrained {result : NetErr} {block netif : Nat}
      (phase : state.worker = .draining block netif) :
      Move state (.worker result) { state with worker := .freeing block }
  | workerRun {result : NetErr} {block call : Nat} (phase : state.worker = .running block call) :
      Move state (.worker result) { state with
        funcMsg := Function.update state.funcMsg call
          ⟨result, (state.funcMsg call).waitSem + 1⟩
        executed := state.executed ++ [(call, result)]
        worker := .freeing block }
  | workerFree {result : NetErr} {block : Nat} (phase : state.worker = .freeing block) :
      Move state (.worker result) { state with
        msgBlock := mblockFree state.msgBlock block
        worker := .receiving }

theorem mblockAlloc_eq_none_iff {free : List Nat} {ms : Int} :
    mblockAlloc free ms = none ↔ free = [] := by
  cases free with
  | nil => simp [mblockAlloc]
  | cons block rest => simp [mblockAlloc]

theorem mblockAlloc_eq_some_iff {free rest : List Nat} {ms : Int} {block : Nat} :
    mblockAlloc free ms = some (block, rest) ↔ free = block :: rest := by
  cases free with
  | nil => simp [mblockAlloc]
  | cons head tail => simp [mblockAlloc]

theorem sendFull_zero (queue : Fixq Nat) : queue.sendFull 0 = false := by
  simp [Fixq.sendFull]

section Moves

variable {state after : ExmsgState}

theorem move_of_callerStep {caller : Nat} (stepped : state.callerStep caller = some after) :
    Move state (.caller caller) after := by
  unfold callerStep at stepped
  split at stepped
  next call found =>
    split at stepped
    next empty =>
      rw [← Option.some.inj stepped]
      exact .callerFault found (mblockAlloc_eq_none_iff.mp empty)
    next block rest free =>
      rw [← Option.some.inj stepped]
      exact .callerAlloc found (mblockAlloc_eq_some_iff.mp free)
  next call block found =>
    rw [sendFull_zero] at stepped
    rw [← Option.some.inj stepped]
    exact .callerTest found
  next call block found =>
    obtain ⟨msgQueue, acquired, returned⟩ := Option.bind_eq_some_iff.mp stepped
    rw [← Option.some.inj returned]
    exact .callerAcquire found acquired
  next call block found =>
    rw [← Option.some.inj stepped]
    exact .callerStore found
  next call found =>
    dsimp only at stepped
    split at stepped
    next released =>
      rw [← Option.some.inj stepped]
      exact .callerReturn found released
    next => cases stepped
  next => cases stepped

theorem move_of_netifIn {context netif : Nat}
    (stepped : state.netifIn context netif = some after) :
    Move state (.netifIn context netif) after := by
  unfold netifIn at stepped
  split at stepped
  next found =>
    rw [← Option.some.inj stepped]
    exact .netifIn found
  next found =>
    rw [← Option.some.inj stepped]
    exact .netifIn found
  next found =>
    rw [← Option.some.inj stepped]
    exact .netifIn found
  next => cases stepped

theorem move_of_notifierStep {context : Nat}
    (stepped : state.notifierStep context = some after) :
    Move state (.notifier context) after := by
  unfold notifierStep at stepped
  split at stepped
  next netif found =>
    split at stepped
    next empty =>
      rw [← Option.some.inj stepped]
      exact .notifierNone found (mblockAlloc_eq_none_iff.mp empty)
    next block rest free =>
      rw [← Option.some.inj stepped]
      exact .notifierAlloc found (mblockAlloc_eq_some_iff.mp free)
  next netif block found =>
    split at stepped
    next full =>
      rw [← Option.some.inj stepped]
      exact .notifierFull found full
    next =>
      rw [← Option.some.inj stepped]
      exact .notifierTest found
  next netif block found =>
    obtain ⟨msgQueue, acquired, returned⟩ := Option.bind_eq_some_iff.mp stepped
    rw [← Option.some.inj returned]
    exact .notifierAcquire found acquired
  next netif block found =>
    rw [← Option.some.inj stepped]
    exact .notifierStore found
  next => cases stepped

theorem move_of_workerStep {result : NetErr} (stepped : state.workerStep result = some after) :
    Move state (.worker result) after := by
  unfold workerStep at stepped
  split at stepped
  next =>
    split at stepped
    next phase =>
      obtain ⟨msgQueue, acquired, returned⟩ := Option.bind_eq_some_iff.mp stepped
      rw [← Option.some.inj returned]
      exact .workerAcquire phase acquired
    next phase =>
      rw [← Option.some.inj stepped]
      exact .workerTake phase
    next block phase =>
      split at stepped
      next netif message =>
        rw [← Option.some.inj stepped]
        exact .workerNetifIn phase message
      next call message =>
        rw [← Option.some.inj stepped]
        exact .workerFun phase message
    next block netif phase =>
      rw [← Option.some.inj stepped]
      exact .workerDrained phase
    next block call phase =>
      rw [← Option.some.inj stepped]
      exact .workerRun phase
    next block phase =>
      rw [← Option.some.inj stepped]
      exact .workerFree phase
  next => cases stepped

theorem move_of_step {action : ExmsgAction} (stepped : state.step action = some after) :
    Move state action after := by
  cases action with
  | exec caller =>
      change state.exec caller = some after at stepped
      unfold exec at stepped
      split at stepped
      next found =>
        rw [← Option.some.inj stepped]
        exact .exec found
      next => cases stepped
  | caller caller => exact move_of_callerStep stepped
  | netifIn context netif => exact move_of_netifIn stepped
  | notifier context => exact move_of_notifierStep stepped
  | worker result => exact move_of_workerStep stepped

end Moves

end ExmsgState

end CleanOS.Net
