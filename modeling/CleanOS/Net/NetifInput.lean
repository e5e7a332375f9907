import CleanOS.Net.RemoteCall

/-!
# Input queues of the interfaces

`netif_put_in` of `kernel/net/netif.c` and `do_netif_in` of `kernel/net/exmsg.c`:
packets go into the input queue of their interface, and the worker is notified
when the queue has just become non-empty.  As in the model of `exmsg.c`, context
zero is the worker, which calls `netif_put_in` while it runs a function or
handles a packet; the other contexts are interrupt handlers.
-/

namespace CleanOS.Net

open CleanOS.Lib

/-- `NETIF_INQ_SIZE`. -/
def netifInqSize : Nat := 50

/-- Where a context stands in `netif_put_in`, up to its call of
`exmsg_netif_in`. -/
inductive PutPhase where
  | idle
  | sendWait (netif buf : Nat)
  | storing (netif buf : Nat)
  | counting (netif : Nat)
  deriving DecidableEq

/-- Where the worker stands in the loop of `do_netif_in`. -/
inductive DrainPhase where
  | head
  | recvWait
  | taking
  | delivering (buf : Nat)
  deriving DecidableEq

/-- The channel to the worker, the input queues, and the threads that use them. -/
structure NetifSystem where
  exmsg : ExmsgState
  inQ : Nat → Fixq Nat
  puts : List PutPhase
  drain : DrainPhase

/-- A step of the channel, a new call of `netif_put_in`, its next step, and the
next step of the worker in `do_netif_in`. -/
inductive NetifAction where
  | exmsg (action : ExmsgAction)
  | putIn (context netif buf : Nat) (tmo : Int)
  | put (context : Nat)
  | drain

namespace NetifSystem

def init (slots : Nat → Nat) (message : Nat → Exmsg) (inQBuf : Nat → Nat → Nat)
    (callers contexts : Nat) : NetifSystem where
  exmsg := .exmsgInit slots message callers contexts
  inQ := fun netif => .fixqInit (inQBuf netif) netifInqSize
  puts := List.replicate (contexts + 1) .idle
  drain := .head

def setPut (system : NetifSystem) (context : Nat) (phase : PutPhase) : NetifSystem :=
  { system with puts := system.puts.set context phase }

def setInQ (system : NetifSystem) (netif : Nat) (queue : Fixq Nat) : NetifSystem :=
  { system with inQ := Function.update system.inQ netif queue }

/-- The worker calls `netif_put_in` only while it runs a function or handles a
packet. -/
def mayPut (system : NetifSystem) (context : Nat) : Bool :=
  match context, system.exmsg.worker, system.drain with
  | 0, .running _ _, _ => true
  | 0, .draining _ _, .delivering _ => true
  | 0, _, _ => false
  | _ + 1, _, _ => true

/-- The start of `netif_put_in`: the test of `fixq_send`. -/
def putIn (system : NetifSystem) (context netif buf : Nat) (tmo : Int) :
    Option NetifSystem :=
  if system.puts[context]? = some .idle ∧ system.exmsg.notifiers[context]? = some .idle ∧
      system.mayPut context then
    if (system.inQ netif).sendFull tmo then some system
    else some (system.setPut context (.sendWait netif buf))
  else none

/-- The steps of `netif_put_in`.  When the count is one, `exmsg_netif_in` is
called, and `netif_put_in` returns when that returns. -/
def putStep (system : NetifSystem) (context : Nat) : Option NetifSystem :=
  match system.puts[context]? with
  | some (.sendWait netif buf) => do
      let queue ← (system.inQ netif).acquireSend
      return (system.setInQ netif queue).setPut context (.storing netif buf)
  | some (.storing netif buf) =>
      some ((system.setInQ netif ((system.inQ netif).store buf)).setPut context
        (.counting netif))
  | some (.counting netif) =>
      if (system.inQ netif).fixqCount = 1 then do
        let exmsg ← system.exmsg.netifIn context netif
        return { system with exmsg }.setPut context .idle
      else some (system.setPut context .idle)
  | _ => none

/-- The steps of `do_netif_in`, up to the return to `net_work_thread`. -/
def drainStep (system : NetifSystem) : Option NetifSystem :=
  match system.exmsg.worker with
  | .draining _ netif =>
      if system.puts[0]? = some .idle ∧ system.exmsg.notifiers[0]? = some .idle then
        match system.drain with
        | .head =>
            if (system.inQ netif).recvEmpty (-1) then do
              let exmsg ← system.exmsg.workerStep .ok
              return { system with exmsg }
            else some { system with drain := .recvWait }
        | .recvWait => do
            let queue ← (system.inQ netif).acquireReceive
            return { system.setInQ netif queue with drain := .taking }
        | .taking =>
            let (buf, queue) := (system.inQ netif).take
            some { system.setInQ netif queue with drain := .delivering buf }
        | .delivering _ => some { system with drain := .head }
      else none
  | _ => none

def exmsgStep (system : NetifSystem) : ExmsgAction → Option NetifSystem
  | .netifIn _ _ => none
  | .worker result =>
      match system.exmsg.worker with
      | .draining _ _ => none
      | _ =>
          if system.puts[0]? = some .idle then
            (system.exmsg.workerStep result).map fun exmsg => { system with exmsg }
          else none
  | action => (system.exmsg.step action).map fun exmsg => { system with exmsg }

def step (system : NetifSystem) : NetifAction → Option NetifSystem
  | .exmsg action => system.exmsgStep action
  | .putIn context netif buf tmo => system.putIn context netif buf tmo
  | .put context => system.putStep context
  | .drain => system.drainStep

end NetifSystem

/-- The worker has taken a notification for the interface and not yet found its
input queue empty. -/
def WorkerPhase.Drains (message : Nat → Exmsg) (netif : Nat) : WorkerPhase → Prop
  | .dispatch block => message block = .netifIn netif
  | .draining _ drained => drained = netif
  | _ => False

instance (message : Nat → Exmsg) (netif : Nat) (phase : WorkerPhase) :
    Decidable (phase.Drains message netif) :=
  match phase with
  | .dispatch block => inferInstanceAs (Decidable (message block = .netifIn netif))
  | .draining _ drained => inferInstanceAs (Decidable (drained = netif))
  | .receiving | .taking | .running _ _ | .freeing _ => .isFalse id

namespace ExmsgState

def Queued (state : ExmsgState) (netif : Nat) : Prop :=
  ∃ block ∈ state.msgQueue.messages, state.message block = .netifIn netif

/-- A context is in `exmsg_netif_in` for the interface. -/
def Posting (state : ExmsgState) (netif : Nat) : Prop :=
  ∃ phase ∈ state.notifiers, phase.netif = some netif

def Announced (state : ExmsgState) (netif : Nat) : Prop :=
  state.worker.Drains state.message netif ∨ state.Queued netif ∨ state.Posting netif

instance (state : ExmsgState) (netif : Nat) : Decidable (state.Announced netif) :=
  inferInstanceAs (Decidable (_ ∨ (∃ block ∈ state.msgQueue.messages, _) ∨
    ∃ phase ∈ state.notifiers, _))

def noticeFree (state : ExmsgState) : ExmsgAction → Bool
  | .notifier context =>
      match state.notifiers[context]? with
      | some (.alloc _) => state.msgBlock ≠ []
      | _ => true
  | _ => true

namespace Announced

variable {state after : ExmsgState} {netif : Nat}

theorem of_callers (announced : Announced state netif)
    (worker : after.worker = state.worker) (notifiers : after.notifiers = state.notifiers)
    (drains : state.worker.Drains state.message netif →
      state.worker.Drains after.message netif)
    (queued : ∀ block ∈ state.msgQueue.messages, block ∈ after.msgQueue.messages ∧
      after.message block = state.message block) : Announced after netif := by
  rcases announced with draining | ⟨block, member, content⟩ | ⟨phase, member, isNetif⟩
  · left
    rw [worker]
    exact drains draining
  · obtain ⟨stays, same⟩ := queued block member
    exact .inr (.inl ⟨block, stays, same.trans content⟩)
  · exact .inr (.inr ⟨phase, notifiers ▸ member, isNetif⟩)

theorem of_notifier (announced : Announced state netif) {context : Nat}
    {before phase : NotifierPhase} (found : state.notifiers[context]? = some before)
    (worker : after.worker = state.worker)
    (notifiers : after.notifiers = state.notifiers.set context phase)
    (drains : state.worker.Drains state.message netif →
      state.worker.Drains after.message netif)
    (queued : ∀ block ∈ state.msgQueue.messages, block ∈ after.msgQueue.messages ∧
      after.message block = state.message block)
    (posted : before.netif = some netif → phase.netif = some netif ∨ after.Queued netif) :
    Announced after netif := by
  rcases announced with draining | ⟨block, member, content⟩ | ⟨other, member, isNetif⟩
  · left
    rw [worker]
    exact drains draining
  · obtain ⟨stays, same⟩ := queued block member
    exact .inr (.inl ⟨block, stays, same.trans content⟩)
  · right
    rcases mem_set_or_eq found phase member with stays | rfl
    · exact .inr ⟨other, notifiers ▸ stays, isNetif⟩
    · rcases posted isNetif with isNext | isQueued
      · exact .inr ⟨phase, notifiers ▸ mem_set_self found phase, isNext⟩
      · exact .inl isQueued

theorem of_worker (announced : Announced state netif)
    (notifiers : after.notifiers = state.notifiers)
    (drains : state.worker.Drains state.message netif → Announced after netif)
    (queued : state.Queued netif → Announced after netif) : Announced after netif := by
  rcases announced with draining | isQueued | ⟨phase, member, isNetif⟩
  · exact drains draining
  · exact queued isQueued
  · exact .inr (.inr ⟨phase, notifiers ▸ member, isNetif⟩)

theorem write_free (sound : Sound state) {block : Nat} {rest : List Nat}
    (free : state.msgBlock = block :: rest) (content : Exmsg) :
    (state.worker.Drains state.message netif →
      state.worker.Drains (Function.update state.message block content) netif) ∧
    ∀ other ∈ state.msgQueue.messages, other ∈ state.msgQueue.messages ∧
      Function.update state.message block content other = state.message other := by
  obtain ⟨notQueued, -, -, notWorker⟩ := sound.pooled.free_apart free
  constructor
  · intro draining
    cases phase : state.worker with
    | dispatch other =>
        rw [phase] at draining notWorker
        have different : other ≠ block := by
          rintro rfl
          exact notWorker rfl
        show Function.update state.message block content other = .netifIn netif
        rw [Function.update_of_ne different]
        exact draining
    | draining other drained =>
        rw [phase] at draining
        exact draining
    | _ =>
        rw [phase] at draining
        exact draining
  · intro other member
    have different : other ≠ block := by
      rintro rfl
      exact notQueued member
    exact ⟨member, Function.update_of_ne different ..⟩

theorem not_sendFull (sound : Sound state) {context other block : Nat}
    (found : state.notifiers[context]? = some (.sendTest other block)) :
    state.msgQueue.sendFull (-1) = false := by
  have holds : 0 < state.notifiers.countP fun phase => phase.block.isSome :=
    List.countP_pos_iff.mpr ⟨_, List.mem_of_getElem? found, rfl⟩
  have length := sound.length_blocks
  have notFull : ¬ (state.msgQueue.size : Int) ≤ state.msgQueue.cnt := by
    rw [sound.pooled.size_eq, sound.pooled.stores.cnt_eq]
    omega
  unfold Fixq.sendFull
  rw [decide_eq_false notFull, Bool.false_and]

theorem move {action : ExmsgAction} (announced : Announced state netif) (sound : Sound state)
    (moved : Move state action after) (free : state.noticeFree action)
    (notDrained : ∀ block result, state.worker = .draining block netif →
      action ≠ .worker result) : Announced after netif := by
  have stores := sound.pooled.stores
  have same (block : Nat) (member : block ∈ state.msgQueue.messages) :
      block ∈ state.msgQueue.messages ∧ state.message block = state.message block :=
    ⟨member, rfl⟩
  have acquired {msgQueue : Fixq Nat} (isAcquired : state.msgQueue.acquireSend = some msgQueue)
      (block : Nat) (member : block ∈ state.msgQueue.messages) :
      block ∈ msgQueue.messages ∧ state.message block = state.message block := by
    rw [(stores.acquireSend isAcquired).messages_eq]
    exact ⟨member, rfl⟩
  have stored {others : Nat} (storing : state.storing = others + 1) (last block : Nat)
      (member : block ∈ state.msgQueue.messages) :
      block ∈ (state.msgQueue.store last).messages ∧
        state.message block = state.message block := by
    have messages := ((storing ▸ stores).store last).messages_eq
    rw [messages]
    exact ⟨List.mem_append_left _ member, rfl⟩
  cases moved with
  | exec found => exact announced.of_callers rfl rfl id same
  | callerFault found empty => exact announced.of_callers rfl rfl id same
  | callerAlloc found isFree =>
      obtain ⟨drains, queued⟩ := write_free sound isFree _
      exact announced.of_callers rfl rfl drains queued
  | callerTest found => exact announced.of_callers rfl rfl id same
  | callerAcquire found isAcquired =>
      exact announced.of_callers rfl rfl id (acquired isAcquired)
  | callerStore found =>
      obtain ⟨others, storing⟩ := Pooled.exists_storing_caller found
      exact announced.of_callers rfl rfl id (stored storing _)
  | callerReturn found released => exact announced.of_callers rfl rfl id same
  | netifIn found =>
      refine announced.of_notifier found rfl rfl id same ?_
      intro isNetif
      cases isNetif
  | notifierNone found empty =>
      simp only [noticeFree, found, empty, ne_eq, not_true_eq_false, decide_false,
        Bool.false_eq_true] at free
  | notifierAlloc found isFree =>
      obtain ⟨drains, queued⟩ := write_free sound isFree _
      exact announced.of_notifier found rfl rfl drains queued .inl
  | notifierFull found full =>
      rw [not_sendFull sound found] at full
      cases full
  | notifierTest found => exact announced.of_notifier found rfl rfl id same .inl
  | notifierAcquire found isAcquired =>
      exact announced.of_notifier found rfl rfl id (acquired isAcquired) .inl
  | @notifierStore context other block found =>
      obtain ⟨others, storing⟩ := Pooled.exists_storing_notifier found
      refine announced.of_notifier found rfl rfl id (stored storing _) ?_
      intro isNetif
      right
      refine ⟨block, ?_, ?_⟩
      · show block ∈ (state.msgQueue.store block).messages
        have messages := ((storing ▸ stores).store block).messages_eq
        rw [messages]
        exact List.mem_append_right _ (List.mem_singleton_self block)
      · exact sound.ordered.notifiers _ (List.mem_of_getElem? found) netif block isNetif rfl
  | workerAcquire phase isAcquired =>
      refine announced.of_worker rfl ?_ ?_
      · intro draining
        rw [phase] at draining
        exact draining.elim
      · rintro ⟨block, member, content⟩
        refine .inr (.inl ⟨block, ?_, content⟩)
        rw [(stores.acquireReceive isAcquired).messages_eq]
        exact member
  | workerTake phase =>
      refine announced.of_worker rfl ?_ ?_
      · intro draining
        rw [phase] at draining
        exact draining.elim
      · rintro ⟨block, member, content⟩
        have taking : state.msgQueue.Stores state.msgQueue.messages state.storing (0 + 1) := by
          rwa [phase] at stores
        obtain ⟨first, rest, messages, taken, storesRest⟩ := taking.take
        rw [messages] at member
        rcases List.mem_cons.mp member with rfl | later
        · left
          show state.message state.msgQueue.take.1 = .netifIn netif
          rw [taken]
          exact content
        · refine .inr (.inl ⟨block, ?_, content⟩)
          rw [storesRest.messages_eq]
          exact later
  | workerNetifIn phase content =>
      refine announced.of_worker rfl ?_ fun queued => .inr (.inl queued)
      intro draining
      rw [phase] at draining
      exact .inl (Exmsg.netifIn.inj (content.symm.trans draining))
  | workerFun phase content =>
      refine announced.of_worker rfl ?_ fun queued => .inr (.inl queued)
      intro draining
      rw [phase] at draining
      cases content.symm.trans draining
  | workerDrained phase =>
      refine announced.of_worker rfl ?_ fun queued => .inr (.inl queued)
      intro draining
      rw [phase] at draining
      cases draining
      exact absurd rfl (notDrained _ _ phase)
  | workerRun phase =>
      refine announced.of_worker rfl ?_ fun queued => .inr (.inl queued)
      intro draining
      rw [phase] at draining
      exact draining.elim
  | workerFree phase =>
      refine announced.of_worker rfl ?_ fun queued => .inr (.inl queued)
      intro draining
      rw [phase] at draining
      exact draining.elim

end Announced

end ExmsgState

theorem ExmsgState.Move.worker_eq {state after : ExmsgState} {action : ExmsgAction}
    (moved : state.Move action after) (notWorker : ∀ result, action ≠ .worker result) :
    after.worker = state.worker := by
  cases moved with
  | workerAcquire | workerTake | workerNetifIn | workerFun | workerDrained | workerRun
  | workerFree => exact absurd rfl (notWorker _)
  | _ => rfl

namespace NetifSystem

def storesTo (netif : Nat) : PutPhase → Bool
  | .storing target _ => target = netif
  | _ => false

def storing (system : NetifSystem) (netif : Nat) : Nat :=
  system.puts.countP (storesTo netif)

def takingOf (netif : Nat) : WorkerPhase → DrainPhase → Nat
  | .draining _ drained, .taking => (decide (drained = netif)).toNat
  | _, _ => 0

def Counting (system : NetifSystem) (netif : Nat) : Prop :=
  PutPhase.counting netif ∈ system.puts

def Covered (system : NetifSystem) (netif : Nat) : Prop :=
  0 < (system.inQ netif).cnt →
    system.exmsg.Announced netif ∨ (system.inQ netif).cnt = 1 ∧ system.Counting netif

structure Tended (system : NetifSystem) : Prop where
  sound : system.exmsg.Sound
  idleDrain : (∀ block netif, system.exmsg.worker ≠ .draining block netif) →
    system.drain = .head
  queues : ∀ netif, ∃ items, (system.inQ netif).Stores items (system.storing netif)
    (takingOf netif system.exmsg.worker system.drain)
  covered : ∀ netif, system.Covered netif

theorem tended_init (slots : Nat → Nat) (message : Nat → Exmsg) (inQBuf : Nat → Nat → Nat)
    (callers contexts : Nat) : Tended (init slots message inQBuf callers contexts) where
  sound := ExmsgState.sound_exmsgInit slots message callers contexts
  idleDrain := fun _ => rfl
  queues := by
    intro netif
    have noneStoring : (init slots message inQBuf callers contexts).storing netif = 0 := by
      simp only [storing, init, List.countP_replicate, storesTo, Bool.false_eq_true, if_false]
    rw [noneStoring]
    exact ⟨[], Fixq.stores_fixqInit (by decide) _⟩
  covered := by
    intro netif nonempty
    exact absurd nonempty (Int.lt_irrefl 0)

/-- A notification finds a free block, as does a caller, and a packet is stored
only into an empty queue or one whose input is announced. -/
def allowed (system : NetifSystem) : NetifAction → Bool
  | .exmsg action => system.exmsg.blockFree action && system.exmsg.noticeFree action
  | .put context =>
      match system.puts[context]? with
      | some (.storing netif _) =>
          (system.inQ netif).cnt = 0 || decide (system.exmsg.Announced netif)
      | _ => true
  | _ => true

namespace Tended

variable {system after : NetifSystem}

theorem exmsg (tended : Tended system) {action : ExmsgAction} {next : ExmsgState}
    (moved : system.exmsg.Move action next) (blockFree : system.exmsg.blockFree action)
    (noticeFree : system.exmsg.noticeFree action)
    (outside : (∀ result, action ≠ .worker result) ∨
      ∀ block netif, system.exmsg.worker ≠ .draining block netif) :
    Tended { system with exmsg := next } := by
  have sound := tended.sound.move moved blockFree
  have worker : next.worker = system.exmsg.worker ∨ system.drain = .head := by
    rcases outside with notWorker | outside
    · exact .inl (moved.worker_eq notWorker)
    · exact .inr (tended.idleDrain outside)
  refine ⟨sound, ?_, ?_, ?_⟩
  · intro notDraining
    rcases worker with same | head
    · apply tended.idleDrain
      rwa [← same]
    · exact head
  · intro netif
    obtain ⟨items, stores⟩ := tended.queues netif
    refine ⟨items, ?_⟩
    have sameTaking : takingOf netif next.worker system.drain =
        takingOf netif system.exmsg.worker system.drain := by
      rcases worker with same | head
      · rw [same]
      · rw [head]
        cases next.worker <;> cases system.exmsg.worker <;> rfl
    show (system.inQ netif).Stores items (system.storing netif)
      (takingOf netif next.worker system.drain)
    rw [sameTaking]
    exact stores
  · intro netif nonempty
    rcases tended.covered netif nonempty with announced | counting
    · left
      refine announced.move tended.sound moved noticeFree ?_
      rintro block result draining rfl
      rcases outside with notWorker | outside
      · exact notWorker result rfl
      · exact outside block netif draining
    · exact .inr counting

theorem setPut (tended : Tended system) {context target : Nat} {before phase : PutPhase}
    (found : system.puts[context]? = some before) {queue : Fixq Nat}
    (others : ∀ netif, netif ≠ target → storesTo netif before = storesTo netif phase)
    (stores : ∃ items, queue.Stores items
      ((system.puts.set context phase).countP (storesTo target))
      (takingOf target system.exmsg.worker system.drain))
    (covered : 0 < queue.cnt → system.exmsg.Announced target ∨
      queue.cnt = 1 ∧ .counting target ∈ system.puts.set context phase)
    (notCounting : ∀ netif, netif ≠ target → before ≠ .counting netif) :
    Tended ((system.setInQ target queue).setPut context phase) := by
  refine ⟨tended.sound, tended.idleDrain, ?_, ?_⟩
  · intro netif
    show ∃ items, (Function.update system.inQ target queue netif).Stores items
      ((system.puts.set context phase).countP (storesTo netif))
      (takingOf netif system.exmsg.worker system.drain)
    by_cases same : netif = target
    · subst same
      rw [Function.update_self]
      exact stores
    · have counted := countP_set found phase (storesTo netif)
      rw [others netif same] at counted
      rw [Function.update_of_ne same, Nat.add_right_cancel counted]
      exact tended.queues netif
  · intro netif
    show 0 < (Function.update system.inQ target queue netif).cnt →
      system.exmsg.Announced netif ∨ (Function.update system.inQ target queue netif).cnt = 1 ∧
        .counting netif ∈ system.puts.set context phase
    by_cases same : netif = target
    · subst same
      rw [Function.update_self]
      exact covered
    · rw [Function.update_of_ne same]
      intro nonempty
      rcases tended.covered netif nonempty with announced | ⟨one, counting⟩
      · exact .inl announced
      · right
        refine ⟨one, ?_⟩
        rcases mem_set_or_eq found phase counting with stays | isBefore
        · exact stays
        · exact absurd isBefore.symm (notCounting netif same)

theorem setInQ_self (system : NetifSystem) (netif : Nat) :
    system.setInQ netif (system.inQ netif) = system := by
  unfold setInQ
  rw [Function.update_eq_self]

theorem setPhase (tended : Tended system) (target : Nat) {context : Nat}
    {before phase : PutPhase}
    (found : system.puts[context]? = some before)
    (same : ∀ netif, storesTo netif before = storesTo netif phase)
    (covered : 0 < (system.inQ target).cnt → system.exmsg.Announced target ∨
      (system.inQ target).cnt = 1 ∧ .counting target ∈ system.puts.set context phase)
    (notCounting : ∀ netif, netif ≠ target → before ≠ .counting netif) :
    Tended (system.setPut context phase) := by
  have counted := countP_set found phase (storesTo target)
  rw [same target] at counted
  rw [← setInQ_self system target]
  refine tended.setPut found (fun netif _ => same netif) ?_ covered notCounting
  rw [Nat.add_right_cancel counted]
  exact tended.queues target

theorem putIn (tended : Tended system) {context netif buf : Nat} {tmo : Int}
    (stepped : system.putIn context netif buf tmo = some after) : Tended after := by
  unfold NetifSystem.putIn at stepped
  split at stepped
  next ready =>
    split at stepped
    next =>
      rw [← Option.some.inj stepped]
      exact tended
    next =>
      rw [← Option.some.inj stepped]
      have found := ready.1
      refine tended.setPhase netif found (fun _ => rfl) ?_ ?_
      · intro nonempty
        rcases tended.covered netif nonempty with announced | ⟨one, counting⟩
        · exact .inl announced
        · right
          refine ⟨one, ?_⟩
          rcases mem_set_or_eq found _ counting with stays | isIdle
          · exact stays
          · cases isIdle
      · intro other _ isCounting
        cases isCounting
  next => cases stepped

theorem putSendWait (tended : Tended system) {context netif buf : Nat} {queue : Fixq Nat}
    (found : system.puts[context]? = some (.sendWait netif buf))
    (acquired : (system.inQ netif).acquireSend = some queue) :
    Tended ((system.setInQ netif queue).setPut context (.storing netif buf)) := by
  obtain ⟨items, stores⟩ := tended.queues netif
  have storesNext := stores.acquireSend acquired
  have sameCnt : queue.cnt = (system.inQ netif).cnt := by
    rw [storesNext.cnt_eq, stores.cnt_eq]
  have counted := countP_set found (.storing netif buf) (storesTo netif)
  have oneMore : (system.puts.set context (.storing netif buf)).countP (storesTo netif) =
      system.storing netif + 1 := by
    simpa only [NetifSystem.storing, storesTo, decide_true, Bool.toNat_true, Bool.toNat_false,
      Nat.add_zero] using counted
  refine tended.setPut found ?_ ⟨items, ?_⟩ ?_ ?_
  · intro other different
    simp only [storesTo, Ne.symm different, decide_false]
  · rw [oneMore]
    exact storesNext
  · rw [sameCnt]
    intro nonempty
    rcases tended.covered netif nonempty with announced | ⟨one, counting⟩
    · exact .inl announced
    · right
      refine ⟨one, ?_⟩
      rcases mem_set_or_eq found _ counting with stays | isSend
      · exact stays
      · cases isSend
  · intro other _ isCounting
    cases isCounting

theorem putStoring (tended : Tended system) {context netif buf : Nat}
    (found : system.puts[context]? = some (.storing netif buf))
    (allowed : (system.inQ netif).cnt = 0 ∨ system.exmsg.Announced netif) :
    Tended ((system.setInQ netif ((system.inQ netif).store buf)).setPut context
      (.counting netif)) := by
  obtain ⟨items, stores⟩ := tended.queues netif
  have counted := countP_set found (.counting netif) (storesTo netif)
  have oneLess : (system.puts.set context (.counting netif)).countP (storesTo netif) + 1 =
      system.storing netif := by
    simpa only [NetifSystem.storing, storesTo, decide_true, Bool.toNat_true, Bool.toNat_false,
      Nat.add_zero] using counted
  rw [← oneLess] at stores
  refine tended.setPut found ?_ ⟨_, stores.store buf⟩ ?_ ?_
  · intro other different
    simp only [storesTo, Ne.symm different, decide_false]
  · intro _
    rcases allowed with empty | announced
    · right
      refine ⟨?_, mem_set_self found _⟩
      show (system.inQ netif).cnt + 1 = 1
      rw [empty]
      rfl
    · exact .inl announced
  · intro other _ isCounting
    cases isCounting

theorem putCounting (tended : Tended system) {context netif : Nat}
    (found : system.puts[context]? = some (.counting netif))
    (announced : 0 < (system.inQ netif).cnt → system.exmsg.Announced netif) :
    Tended (system.setPut context .idle) := by
  refine tended.setPhase netif found (fun _ => rfl) (fun nonempty => .inl (announced nonempty)) ?_
  intro other different isCounting
  cases isCounting
  exact different rfl

theorem putStep (tended : Tended system) {context : Nat}
    (stepped : system.putStep context = some after) (allowed : system.allowed (.put context)) :
    Tended after := by
  unfold NetifSystem.putStep at stepped
  split at stepped
  next netif buf found =>
    obtain ⟨queue, acquired, returned⟩ := Option.bind_eq_some_iff.mp stepped
    rw [← Option.some.inj returned]
    exact tended.putSendWait found acquired
  next netif buf found =>
    rw [← Option.some.inj stepped]
    simp only [NetifSystem.allowed, found, Bool.or_eq_true, decide_eq_true_eq] at allowed
    exact tended.putStoring found allowed
  next netif found =>
    split at stepped
    next isOne =>
      obtain ⟨next, started, returned⟩ := Option.bind_eq_some_iff.mp stepped
      rw [← Option.some.inj returned]
      have moved := ExmsgState.move_of_netifIn started
      have started := tended.exmsg moved rfl rfl (.inl fun _ isWorker => by cases isWorker)
      refine started.putCounting found fun _ => .inr (.inr ?_)
      cases moved with
      | netifIn idle => exact ⟨_, mem_set_self idle _, rfl⟩
    next notOne =>
      rw [← Option.some.inj stepped]
      refine tended.putCounting found fun nonempty => ?_
      rcases tended.covered netif nonempty with announced | ⟨one, -⟩
      · exact announced
      · exact absurd one notOne
  next => cases stepped

theorem setDrain (tended : Tended system) {block netif : Nat}
    (phase : system.exmsg.worker = .draining block netif) {drain : DrainPhase}
    (before : system.drain ≠ .taking) (next : drain ≠ .taking) :
    Tended { system with drain } := by
  have notTaking (other : Nat) {phase : DrainPhase} (different : phase ≠ .taking) :
      takingOf other (.draining block netif) phase = 0 := by
    cases phase <;> first | rfl | exact absurd rfl different
  refine ⟨tended.sound, ?_, ?_, tended.covered⟩
  · intro notDraining
    exact absurd phase (notDraining block netif)
  · intro other
    obtain ⟨items, stores⟩ := tended.queues other
    rw [phase, notTaking other before] at stores
    refine ⟨items, ?_⟩
    show (system.inQ other).Stores items (system.storing other)
      (takingOf other system.exmsg.worker drain)
    rw [phase, notTaking other next]
    exact stores

theorem setDrained (tended : Tended system) {block netif : Nat}
    (phase : system.exmsg.worker = .draining block netif) {queue : Fixq Nat}
    {drain : DrainPhase}
    (stores : ∃ items, queue.Stores items (system.storing netif)
      (takingOf netif (.draining block netif) drain)) :
    Tended { system.setInQ netif queue with drain } := by
  have othersZero (other : Nat) (different : other ≠ netif) (phase : DrainPhase) :
      takingOf other (.draining block netif) phase = 0 := by
    cases phase with
    | taking => simp only [takingOf, Ne.symm different, decide_false, Bool.toNat_false]
    | _ => rfl
  refine ⟨tended.sound, ?_, ?_, ?_⟩
  · intro notDraining
    exact absurd phase (notDraining block netif)
  · intro other
    show ∃ items, (Function.update system.inQ netif queue other).Stores items
      (system.storing other) (takingOf other system.exmsg.worker drain)
    rw [phase]
    by_cases same : other = netif
    · subst same
      rw [Function.update_self]
      exact stores
    · obtain ⟨items, storesOther⟩ := tended.queues other
      rw [phase, othersZero other same] at storesOther
      rw [Function.update_of_ne same, othersZero other same]
      exact ⟨items, storesOther⟩
  · intro other
    show 0 < (Function.update system.inQ netif queue other).cnt →
      system.exmsg.Announced other ∨
        (Function.update system.inQ netif queue other).cnt = 1 ∧ _ ∈ system.puts
    by_cases same : other = netif
    · subst same
      intro _
      left
      left
      rw [phase]
      rfl
    · rw [Function.update_of_ne same]
      exact tended.covered other

theorem drained (tended : Tended system) {block netif : Nat} {next : ExmsgState}
    (phase : system.exmsg.worker = .draining block netif)
    (head : system.drain = .head) (empty : (system.inQ netif).cnt = 0)
    (moved : system.exmsg.Move (.worker .ok) next) : Tended { system with exmsg := next } := by
  have sound := tended.sound.move moved rfl
  have headTaking (other : Nat) (worker : WorkerPhase) : takingOf other worker .head = 0 := by
    cases worker <;> rfl
  refine ⟨sound, fun _ => head, ?_, ?_⟩
  · intro other
    obtain ⟨items, stores⟩ := tended.queues other
    refine ⟨items, ?_⟩
    show (system.inQ other).Stores items (system.storing other)
      (takingOf other next.worker system.drain)
    rw [head, headTaking] at stores ⊢
    exact stores
  · intro other nonempty
    have different : other ≠ netif := by
      rintro rfl
      rw [show (system.inQ other).cnt = 0 from empty] at nonempty
      exact absurd nonempty (Int.lt_irrefl 0)
    rcases tended.covered other nonempty with announced | counting
    · left
      refine announced.move tended.sound moved rfl ?_
      intro _ _ draining
      rw [phase] at draining
      cases draining
      exact absurd rfl different
    · exact .inr counting

theorem drainStep (tended : Tended system) (stepped : system.drainStep = some after) :
    Tended after := by
  unfold NetifSystem.drainStep at stepped
  split at stepped
  next block netif phase =>
    obtain ⟨items, stores⟩ := tended.queues netif
    split at stepped
    next =>
      split at stepped
      next head =>
        split at stepped
        next empty =>
          obtain ⟨next, worked, returned⟩ := Option.bind_eq_some_iff.mp stepped
          rw [← Option.some.inj returned]
          have isZero : (system.inQ netif).cnt = 0 := by
            simp only [Fixq.recvEmpty, Bool.and_eq_true, decide_eq_true_eq] at empty
            exact empty.1
          exact tended.drained phase head isZero (ExmsgState.move_of_workerStep worked)
        next =>
          rw [← Option.some.inj stepped]
          refine tended.setDrain phase ?_ ?_
          · rw [head]
            intro taking
            cases taking
          · intro taking
            cases taking
      next recvWait =>
        obtain ⟨queue, acquired, returned⟩ := Option.bind_eq_some_iff.mp stepped
        rw [← Option.some.inj returned]
        rw [phase, recvWait] at stores
        refine tended.setDrained phase ⟨items, ?_⟩
        have one : takingOf netif (.draining block netif) .taking = 0 + 1 := by
          simp only [takingOf, decide_true, Bool.toNat_true]
        rw [one]
        exact stores.acquireReceive acquired
      next taking =>
        rw [← Option.some.inj stepped]
        have one : takingOf netif (.draining block netif) .taking = 0 + 1 := by
          simp only [takingOf, decide_true, Bool.toNat_true]
        rw [phase, taking, one] at stores
        obtain ⟨msg, rest, -, -, storesRest⟩ := stores.take
        exact tended.setDrained phase ⟨rest, storesRest⟩
      next buf delivering =>
        rw [← Option.some.inj stepped]
        refine tended.setDrain phase ?_ ?_
        · rw [delivering]
          intro taking
          cases taking
        · intro taking
          cases taking
    next => cases stepped
  next => cases stepped

theorem exmsgStep (tended : Tended system) {action : ExmsgAction}
    (stepped : system.exmsgStep action = some after)
    (allowed : system.allowed (.exmsg action)) : Tended after := by
  simp only [NetifSystem.allowed, Bool.and_eq_true] at allowed
  obtain ⟨blockFree, noticeFree⟩ := allowed
  have others (notWorker : ∀ result, action ≠ .worker result)
      (moved : (system.exmsg.step action).map (fun exmsg => { system with exmsg }) = some after) :
      Tended after := by
    obtain ⟨next, isNext, rfl⟩ := Option.map_eq_some_iff.mp moved
    exact tended.exmsg (ExmsgState.move_of_step isNext) blockFree noticeFree (.inl notWorker)
  cases action with
  | netifIn context netif => cases stepped
  | exec caller => exact others (fun _ isWorker => by cases isWorker) stepped
  | caller caller => exact others (fun _ isWorker => by cases isWorker) stepped
  | notifier context => exact others (fun _ isWorker => by cases isWorker) stepped
  | worker result =>
      simp only [NetifSystem.exmsgStep] at stepped
      split at stepped
      next => cases stepped
      next outside =>
        split at stepped
        next =>
          obtain ⟨next, isNext, rfl⟩ := Option.map_eq_some_iff.mp stepped
          exact tended.exmsg (ExmsgState.move_of_workerStep isNext) blockFree noticeFree
            (.inr outside)
        next => cases stepped

theorem step (tended : Tended system) {action : NetifAction}
    (stepped : system.step action = some after) (allowed : system.allowed action) :
    Tended after := by
  cases action with
  | exmsg action => exact tended.exmsgStep stepped allowed
  | putIn context netif buf tmo => exact tended.putIn stepped
  | put context => exact tended.putStep stepped allowed
  | drain => exact tended.drainStep stepped

end Tended

/-- Wherever packets wait in an input queue that the worker is not draining, a
notification is in the queue or on its way there. -/
def NoneStranded (system : NetifSystem) : Prop :=
  ∀ netif, 0 < (system.inQ netif).cnt →
    ¬ system.exmsg.worker.Drains system.exmsg.message netif →
    system.exmsg.Queued netif ∨ system.exmsg.Posting netif ∨ system.Counting netif

theorem Tended.noneStranded {system : NetifSystem} (tended : Tended system) :
    NoneStranded system := by
  intro netif nonempty notDraining
  rcases tended.covered netif nonempty with announced | ⟨-, counting⟩
  · rcases announced with draining | queued | posting
    · exact absurd draining notDraining
    · exact .inl queued
    · exact .inr (.inl posting)
  · exact .inr (.inr counting)

end NetifSystem

end CleanOS.Net
