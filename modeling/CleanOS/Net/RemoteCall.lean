import CleanOS.Net.Exmsg

/-!
# Remote calls

A call handed to the network worker is executed once and in the order of the
queue, its caller gets its result, and every message block goes back to the pool,
as long as a caller that asks for a block finds one.  The invariant is built in
three layers: where the blocks are, which calls the queued blocks stand for, and
how far each call has come.
-/

namespace CleanOS.Net

open CleanOS.Lib

/-! ### What the threads hold -/

namespace Exmsg

def call : Exmsg → Option Nat
  | .netifIn _ => none
  | .fun call => some call

end Exmsg

namespace CallerPhase

def block : CallerPhase → Option Nat
  | .sendTest _ block | .sendWait _ block | .storing _ block => some block
  | _ => none

def call : CallerPhase → Option Nat
  | .alloc call | .sendTest call _ | .sendWait call _ | .storing call _
  | .waiting call => some call
  | _ => none

def isStoring : CallerPhase → Bool
  | .storing _ _ => true
  | _ => false

end CallerPhase

namespace NotifierPhase

def block : NotifierPhase → Option Nat
  | .sendTest _ block | .sendWait _ block | .storing _ block => some block
  | _ => none

def netif : NotifierPhase → Option Nat
  | .idle => none
  | .alloc netif | .sendTest netif _ | .sendWait netif _ | .storing netif _ => some netif

def isStoring : NotifierPhase → Bool
  | .storing _ _ => true
  | _ => false

end NotifierPhase

namespace WorkerPhase

def block : WorkerPhase → Option Nat
  | .dispatch block | .draining block _ | .running block _ | .freeing block => some block
  | _ => none

def isTaking : WorkerPhase → Bool
  | .taking => true
  | _ => false

def call (message : Nat → Exmsg) : WorkerPhase → Option Nat
  | .dispatch block => (message block).call
  | .running _ call => some call
  | _ => none

end WorkerPhase

namespace ExmsgState

/-! ### Blocks and permits -/

def blocks (state : ExmsgState) : List Nat :=
  state.msgBlock ++ state.msgQueue.messages ++ state.callers.filterMap CallerPhase.block ++
    state.notifiers.filterMap NotifierPhase.block ++ state.worker.block.toList

def storing (state : ExmsgState) : Nat :=
  state.callers.countP CallerPhase.isStoring + state.notifiers.countP NotifierPhase.isStoring

structure Pooled (state : ExmsgState) : Prop where
  size_eq : state.msgQueue.size = exmsgMsgCnt
  stores : state.msgQueue.Stores state.msgQueue.messages state.storing
    state.worker.isTaking.toNat
  blocks_perm : state.blocks.Perm (List.range exmsgMsgCnt)

namespace Pooled

variable {state after : ExmsgState}

theorem count_blocks (state : ExmsgState) (block : Nat) :
    state.blocks.count block =
      state.msgBlock.count block + state.msgQueue.messages.count block +
        (state.callers.filterMap CallerPhase.block).count block +
        (state.notifiers.filterMap NotifierPhase.block).count block +
        state.worker.block.toList.count block := by
  simp only [blocks, List.count_append]

theorem of_count (pooled : Pooled state) (size : after.msgQueue.size = state.msgQueue.size)
    (stores : ∃ items, after.msgQueue.Stores items after.storing after.worker.isTaking.toNat)
    (same : ∀ block, after.blocks.count block = state.blocks.count block) :
    Pooled after where
  size_eq := size.trans pooled.size_eq
  stores := by
    obtain ⟨items, stores⟩ := stores
    rw [stores.messages_eq]
    exact stores
  blocks_perm := (List.perm_iff_count.mpr same).trans pooled.blocks_perm

theorem setCaller (pooled : Pooled state) {caller : Nat} {before phase : CallerPhase}
    (found : state.callers[caller]? = some before)
    (callers : after.callers = state.callers.set caller phase)
    (notifiers : after.notifiers = state.notifiers) (worker : after.worker = state.worker)
    (size : after.msgQueue.size = state.msgQueue.size)
    {items : List Nat} {storing : Nat}
    (stores : after.msgQueue.Stores items storing state.worker.isTaking.toNat)
    (storing_eq : storing + before.isStoring.toNat = state.storing + phase.isStoring.toNat)
    (moved : ∀ block,
      after.msgBlock.count block + items.count block + phase.block.toList.count block =
        state.msgBlock.count block + state.msgQueue.messages.count block +
          before.block.toList.count block) : Pooled after := by
  have counted := countP_set found phase CallerPhase.isStoring
  refine pooled.of_count size ⟨items, ?_⟩ ?_
  · have sameStoring : after.storing = storing := by
      simp only [ExmsgState.storing, callers, notifiers] at storing_eq ⊢
      omega
    rw [sameStoring, worker]
    exact stores
  · intro block
    have held := count_filterMap_set found phase CallerPhase.block block
    have moves := moved block
    rw [count_blocks, count_blocks, callers, notifiers, worker, stores.messages_eq]
    omega

theorem setNotifier (pooled : Pooled state) {context : Nat} {before phase : NotifierPhase}
    (found : state.notifiers[context]? = some before)
    (notifiers : after.notifiers = state.notifiers.set context phase)
    (callers : after.callers = state.callers) (worker : after.worker = state.worker)
    (size : after.msgQueue.size = state.msgQueue.size)
    {items : List Nat} {storing : Nat}
    (stores : after.msgQueue.Stores items storing state.worker.isTaking.toNat)
    (storing_eq : storing + before.isStoring.toNat = state.storing + phase.isStoring.toNat)
    (moved : ∀ block,
      after.msgBlock.count block + items.count block + phase.block.toList.count block =
        state.msgBlock.count block + state.msgQueue.messages.count block +
          before.block.toList.count block) : Pooled after := by
  have counted := countP_set found phase NotifierPhase.isStoring
  refine pooled.of_count size ⟨items, ?_⟩ ?_
  · have sameStoring : after.storing = storing := by
      simp only [ExmsgState.storing, callers, notifiers] at storing_eq ⊢
      omega
    rw [sameStoring, worker]
    exact stores
  · intro block
    have held := count_filterMap_set found phase NotifierPhase.block block
    have moves := moved block
    rw [count_blocks, count_blocks, callers, notifiers, worker, stores.messages_eq]
    omega

theorem setWorker (pooled : Pooled state)
    (callers : after.callers = state.callers) (notifiers : after.notifiers = state.notifiers)
    (size : after.msgQueue.size = state.msgQueue.size)
    {items : List Nat}
    (stores : after.msgQueue.Stores items state.storing after.worker.isTaking.toNat)
    (moved : ∀ block,
      after.msgBlock.count block + items.count block + after.worker.block.toList.count block =
        state.msgBlock.count block + state.msgQueue.messages.count block +
          state.worker.block.toList.count block) : Pooled after := by
  refine pooled.of_count size ⟨items, ?_⟩ ?_
  · have sameStoring : after.storing = state.storing := by
      simp only [ExmsgState.storing, callers, notifiers]
    rw [sameStoring]
    exact stores
  · intro block
    have moves := moved block
    rw [count_blocks, count_blocks, callers, notifiers, stores.messages_eq]
    omega

theorem keepWorker (pooled : Pooled state) {current : WorkerPhase}
    (phase : state.worker = current) (callers : after.callers = state.callers)
    (notifiers : after.notifiers = state.notifiers) (queue : after.msgQueue = state.msgQueue)
    (free : after.msgBlock = state.msgBlock)
    (taking : after.worker.isTaking = current.isTaking)
    (block : after.worker.block = current.block) : Pooled after := by
  have stores := pooled.stores
  rw [phase, ← taking, ← queue] at stores
  refine pooled.setWorker callers notifiers (congrArg Fixq.size queue) stores ?_
  intro other
  rw [free, queue, block, phase]

theorem exists_storing_caller {caller call block : Nat}
    (found : state.callers[caller]? = some (.storing call block)) :
    ∃ others, state.storing = others + 1 := by
  have counted : 0 < state.callers.countP CallerPhase.isStoring :=
    List.countP_pos_iff.mpr ⟨_, List.mem_of_getElem? found, rfl⟩
  exact Nat.exists_eq_add_one.mpr (Nat.add_pos_left counted _)

theorem exists_storing_notifier {context netif block : Nat}
    (found : state.notifiers[context]? = some (.storing netif block)) :
    ∃ others, state.storing = others + 1 := by
  have counted : 0 < state.notifiers.countP NotifierPhase.isStoring :=
    List.countP_pos_iff.mpr ⟨_, List.mem_of_getElem? found, rfl⟩
  exact Nat.exists_eq_add_one.mpr (Nat.add_pos_right _ counted)

theorem move {action : ExmsgAction} (pooled : Pooled state)
    (moved : Move state action after) : Pooled after := by
  cases moved with
  | exec found =>
      exact pooled.setCaller found rfl rfl rfl rfl pooled.stores rfl fun _ => rfl
  | callerFault found empty =>
      exact pooled.setCaller found rfl rfl rfl rfl pooled.stores rfl fun _ => rfl
  | callerAlloc found free =>
      refine pooled.setCaller found rfl rfl rfl rfl pooled.stores rfl fun other => ?_
      simp only [ExmsgState.setCaller, free, CallerPhase.block, Option.toList, List.count_cons,
        List.count_nil]
      omega
  | callerTest found =>
      exact pooled.setCaller found rfl rfl rfl rfl pooled.stores rfl fun _ => rfl
  | callerAcquire found acquired =>
      exact pooled.setCaller found rfl rfl rfl (Fixq.size_acquireSend acquired)
        (pooled.stores.acquireSend acquired) rfl fun _ => rfl
  | callerStore found =>
      obtain ⟨others, storing⟩ := exists_storing_caller found
      refine pooled.setCaller found rfl rfl rfl rfl ((storing ▸ pooled.stores).store _)
        storing.symm fun other => ?_
      simp only [ExmsgState.setCaller, CallerPhase.block, Option.toList, List.count_append,
        List.count_nil]
      omega
  | callerReturn found released =>
      exact pooled.setCaller found rfl rfl rfl rfl pooled.stores rfl fun _ => rfl
  | netifIn found =>
      exact pooled.setNotifier found rfl rfl rfl rfl pooled.stores rfl fun _ => rfl
  | notifierNone found empty =>
      exact pooled.setNotifier found rfl rfl rfl rfl pooled.stores rfl fun _ => rfl
  | notifierAlloc found free =>
      refine pooled.setNotifier found rfl rfl rfl rfl pooled.stores rfl fun other => ?_
      simp only [ExmsgState.setNotifier, free, NotifierPhase.block, Option.toList,
        List.count_cons, List.count_nil]
      omega
  | notifierFull found full =>
      refine pooled.setNotifier found rfl rfl rfl rfl pooled.stores rfl fun other => ?_
      simp only [ExmsgState.setNotifier, mblockFree, NotifierPhase.block, Option.toList,
        List.count_append, List.count_nil]
      omega
  | notifierTest found =>
      exact pooled.setNotifier found rfl rfl rfl rfl pooled.stores rfl fun _ => rfl
  | notifierAcquire found acquired =>
      exact pooled.setNotifier found rfl rfl rfl (Fixq.size_acquireSend acquired)
        (pooled.stores.acquireSend acquired) rfl fun _ => rfl
  | notifierStore found =>
      obtain ⟨others, storing⟩ := exists_storing_notifier found
      refine pooled.setNotifier found rfl rfl rfl rfl ((storing ▸ pooled.stores).store _)
        storing.symm fun other => ?_
      simp only [ExmsgState.setNotifier, NotifierPhase.block, Option.toList,
        List.count_append, List.count_nil]
      omega
  | workerAcquire phase acquired =>
      have stores := pooled.stores.acquireReceive acquired
      rw [phase] at stores
      refine pooled.setWorker rfl rfl (Fixq.size_acquireReceive acquired) stores fun _ => ?_
      rw [phase]
      rfl
  | workerTake phase =>
      have stores : state.msgQueue.Stores state.msgQueue.messages state.storing (0 + 1) := by
        have stores := pooled.stores
        rwa [phase] at stores
      obtain ⟨block, rest, messages, taken, storesRest⟩ := stores.take
      refine pooled.setWorker rfl rfl rfl storesRest fun other => ?_
      rw [messages, phase, taken]
      simp only [WorkerPhase.block, Option.toList, List.count_cons, List.count_nil]
      omega
  | workerNetifIn phase message =>
      exact pooled.keepWorker phase rfl rfl rfl rfl rfl rfl
  | workerFun phase message =>
      exact pooled.keepWorker phase rfl rfl rfl rfl rfl rfl
  | workerDrained phase =>
      exact pooled.keepWorker phase rfl rfl rfl rfl rfl rfl
  | workerRun phase =>
      exact pooled.keepWorker phase rfl rfl rfl rfl rfl rfl
  | workerFree phase =>
      have stores := pooled.stores
      rw [phase] at stores
      refine pooled.setWorker rfl rfl rfl stores fun other => ?_
      rw [phase]
      simp only [mblockFree, WorkerPhase.block, Option.toList, List.count_append,
        List.count_nil]
      omega

theorem free_apart (pooled : Pooled state) {block : Nat} {rest : List Nat}
    (free : state.msgBlock = block :: rest) :
    block ∉ state.msgQueue.messages ∧ (∀ phase ∈ state.callers, phase.block ≠ some block) ∧
      (∀ phase ∈ state.notifiers, phase.block ≠ some block) ∧
      state.worker.block ≠ some block := by
  have nodup : state.blocks.Nodup := pooled.blocks_perm.nodup_iff.mpr List.nodup_range
  have once := List.nodup_iff_count.mp nodup block
  have inPool : 0 < state.msgBlock.count block := by
    rw [free]
    exact List.count_pos_iff.mpr List.mem_cons_self
  rw [count_blocks] at once
  refine ⟨?_, ?_, ?_, ?_⟩
  · exact List.count_eq_zero.mp (by omega)
  · intro phase member held
    have absent : block ∉ state.callers.filterMap CallerPhase.block :=
      List.count_eq_zero.mp (by omega)
    exact absent (List.mem_filterMap.mpr ⟨phase, member, held⟩)
  · intro phase member held
    have absent : block ∉ state.notifiers.filterMap NotifierPhase.block :=
      List.count_eq_zero.mp (by omega)
    exact absent (List.mem_filterMap.mpr ⟨phase, member, held⟩)
  · intro held
    have absent : block ∉ state.worker.block.toList := List.count_eq_zero.mp (by omega)
    exact absent (Option.mem_toList.mpr held)

end Pooled

/-! ### The calls behind the queued blocks -/

def CarriesCall (message : Nat → Exmsg) (phase : CallerPhase) : Prop :=
  ∀ call block, phase.call = some call → phase.block = some block → message block = .fun call

def CarriesNetif (message : Nat → Exmsg) (phase : NotifierPhase) : Prop :=
  ∀ netif block, phase.netif = some netif → phase.block = some block →
    message block = .netifIn netif

def waitingCalls (state : ExmsgState) : List Nat :=
  state.msgQueue.messages.filterMap fun block => (state.message block).call

/-- The queued calls are the executed ones, then the one in the hands of the
worker, then those still in the queue. -/
structure Ordered (state : ExmsgState) : Prop where
  callers : ∀ phase ∈ state.callers, CarriesCall state.message phase
  notifiers : ∀ phase ∈ state.notifiers, CarriesNetif state.message phase
  order : state.queued = state.executed.map Prod.fst ++
    (state.worker.call state.message).toList ++ state.waitingCalls

namespace Ordered

variable {state after : ExmsgState}

theorem carriesCall_of_block_none {message : Nat → Exmsg} {phase : CallerPhase}
    (none : phase.block = none) : CarriesCall message phase := by
  intro call block _ held
  rw [none] at held
  cases held

theorem carriesNetif_of_block_none {message : Nat → Exmsg} {phase : NotifierPhase}
    (none : phase.block = none) : CarriesNetif message phase := by
  intro netif block _ held
  rw [none] at held
  cases held

theorem write_free (ordered : Ordered state) (pooled : Pooled state) {block : Nat}
    {rest : List Nat} (free : state.msgBlock = block :: rest) (content : Exmsg) :
    Ordered { state with
      msgBlock := rest
      message := Function.update state.message block content } := by
  obtain ⟨notQueued, notCaller, notNotifier, notWorker⟩ := pooled.free_apart free
  refine ⟨?_, ?_, ?_⟩
  · intro phase member call other isCall held
    have different : other ≠ block := by
      rintro rfl
      exact notCaller phase member held
    show Function.update state.message block content other = .fun call
    rw [Function.update_of_ne different]
    exact ordered.callers phase member call other isCall held
  · intro phase member netif other isNetif held
    have different : other ≠ block := by
      rintro rfl
      exact notNotifier phase member held
    show Function.update state.message block content other = .netifIn netif
    rw [Function.update_of_ne different]
    exact ordered.notifiers phase member netif other isNetif held
  · have sameQueue :
        state.msgQueue.messages.filterMap
            (fun other => (Function.update state.message block content other).call) =
          state.waitingCalls := by
      apply List.filterMap_congr
      intro other member
      have different : other ≠ block := by
        rintro rfl
        exact notQueued member
      rw [Function.update_of_ne different]
    have sameWorker :
        state.worker.call (Function.update state.message block content) =
          state.worker.call state.message := by
      cases phase : state.worker with
      | dispatch other =>
          have different : other ≠ block := by
            rintro rfl
            exact notWorker (by rw [phase]; rfl)
          show (Function.update state.message block content other).call = _
          rw [Function.update_of_ne different]
          rfl
      | _ => rfl
    show state.queued = state.executed.map Prod.fst ++
      (state.worker.call (Function.update state.message block content)).toList ++
        state.msgQueue.messages.filterMap _
    rw [sameQueue, sameWorker]
    exact ordered.order

theorem carriesCall_next (ordered : Ordered state) {caller : Nat} {before phase : CallerPhase}
    (found : state.callers[caller]? = some before) (sameCall : phase.call = before.call)
    (sameBlock : phase.block = before.block) : CarriesCall state.message phase := by
  intro call block isCall held
  rw [sameCall] at isCall
  rw [sameBlock] at held
  exact ordered.callers before (List.mem_of_getElem? found) call block isCall held

theorem carriesNetif_next (ordered : Ordered state) {context : Nat}
    {before phase : NotifierPhase} (found : state.notifiers[context]? = some before)
    (sameNetif : phase.netif = before.netif) (sameBlock : phase.block = before.block) :
    CarriesNetif state.message phase := by
  intro netif block isNetif held
  rw [sameNetif] at isNetif
  rw [sameBlock] at held
  exact ordered.notifiers before (List.mem_of_getElem? found) netif block isNetif held

theorem order_acquire (ordered : Ordered state) {items : List Nat} {msgQueue : Fixq Nat}
    {storing taking : Nat} {worker : WorkerPhase}
    (stores : msgQueue.Stores items storing taking)
    (messages : items = state.msgQueue.messages)
    (sameCall : worker.call state.message = state.worker.call state.message) :
    state.queued = state.executed.map Prod.fst ++ (worker.call state.message).toList ++
      msgQueue.messages.filterMap fun block => (state.message block).call := by
  rw [stores.messages_eq, messages, sameCall]
  exact ordered.order

theorem move {action : ExmsgAction} (ordered : Ordered state) (pooled : Pooled state)
    (moved : Move state action after) : Ordered after := by
  cases moved with
  | exec found =>
      exact ⟨forall_mem_set ordered.callers (carriesCall_of_block_none rfl),
        ordered.notifiers, ordered.order⟩
  | callerFault found empty =>
      exact ⟨forall_mem_set ordered.callers (carriesCall_of_block_none rfl),
        ordered.notifiers, ordered.order⟩
  | @callerAlloc caller call block rest found free =>
      have written := ordered.write_free pooled free (.fun call)
      refine ⟨forall_mem_set written.callers ?_, written.notifiers, written.order⟩
      intro _ _ isCall held
      cases isCall
      cases held
      exact Function.update_self ..
  | callerTest found =>
      exact ⟨forall_mem_set ordered.callers (ordered.carriesCall_next found rfl rfl),
        ordered.notifiers, ordered.order⟩
  | callerAcquire found acquired =>
      exact ⟨forall_mem_set ordered.callers (ordered.carriesCall_next found rfl rfl),
        ordered.notifiers,
        ordered.order_acquire (pooled.stores.acquireSend acquired) rfl rfl⟩
  | @callerStore caller call block found =>
      refine ⟨forall_mem_set ordered.callers (carriesCall_of_block_none rfl),
        ordered.notifiers, ?_⟩
      obtain ⟨others, storing⟩ := Pooled.exists_storing_caller found
      have messages := ((storing ▸ pooled.stores).store block).messages_eq
      have content : state.message block = .fun call :=
        ordered.carriesCall_next found rfl rfl call block rfl rfl
      show state.queued ++ [call] = _ ++
        (state.msgQueue.store block).messages.filterMap fun block => (state.message block).call
      rw [messages, filterMap_concat_toList, content, ← List.append_assoc]
      exact congrArg (· ++ [call]) ordered.order
  | callerReturn found released =>
      exact ⟨forall_mem_set ordered.callers (carriesCall_of_block_none rfl),
        ordered.notifiers, ordered.order⟩
  | netifIn found =>
      exact ⟨ordered.callers,
        forall_mem_set ordered.notifiers (carriesNetif_of_block_none rfl), ordered.order⟩
  | notifierNone found empty =>
      exact ⟨ordered.callers,
        forall_mem_set ordered.notifiers (carriesNetif_of_block_none rfl), ordered.order⟩
  | @notifierAlloc context netif block rest found free =>
      have written := ordered.write_free pooled free (.netifIn netif)
      refine ⟨written.callers, forall_mem_set written.notifiers ?_, written.order⟩
      intro _ _ isNetif held
      cases isNetif
      cases held
      exact Function.update_self ..
  | notifierFull found full =>
      exact ⟨ordered.callers,
        forall_mem_set ordered.notifiers (carriesNetif_of_block_none rfl), ordered.order⟩
  | notifierTest found =>
      exact ⟨ordered.callers,
        forall_mem_set ordered.notifiers (ordered.carriesNetif_next found rfl rfl), ordered.order⟩
  | notifierAcquire found acquired =>
      exact ⟨ordered.callers,
        forall_mem_set ordered.notifiers (ordered.carriesNetif_next found rfl rfl),
        ordered.order_acquire (pooled.stores.acquireSend acquired) rfl rfl⟩
  | @notifierStore context netif block found =>
      refine ⟨ordered.callers,
        forall_mem_set ordered.notifiers (carriesNetif_of_block_none rfl), ?_⟩
      obtain ⟨others, storing⟩ := Pooled.exists_storing_notifier found
      have messages := ((storing ▸ pooled.stores).store block).messages_eq
      have content : state.message block = .netifIn netif :=
        ordered.carriesNetif_next found rfl rfl netif block rfl rfl
      show state.queued = _ ++
        (state.msgQueue.store block).messages.filterMap fun block => (state.message block).call
      rw [messages, filterMap_concat_toList, content, Exmsg.call, Option.toList,
        List.append_nil]
      exact ordered.order
  | workerAcquire phase acquired =>
      refine ⟨ordered.callers, ordered.notifiers,
        ordered.order_acquire (pooled.stores.acquireReceive acquired) rfl ?_⟩
      rw [phase]
      rfl
  | workerTake phase =>
      refine ⟨ordered.callers, ordered.notifiers, ?_⟩
      have stores : state.msgQueue.Stores state.msgQueue.messages state.storing (0 + 1) := by
        have stores := pooled.stores
        rwa [phase] at stores
      obtain ⟨block, rest, messages, taken, storesRest⟩ := stores.take
      have order := ordered.order
      rw [phase, waitingCalls, messages] at order
      show state.queued = _ ++
        ((state.message state.msgQueue.take.1).call).toList ++
          state.msgQueue.take.2.messages.filterMap fun block => (state.message block).call
      have noCall : WorkerPhase.call state.message .taking = none := rfl
      rw [taken, storesRest.messages_eq, order, filterMap_cons_toList, noCall, Option.toList,
        List.append_nil, List.append_assoc]
  | workerNetifIn phase message =>
      refine ⟨ordered.callers, ordered.notifiers, ?_⟩
      have order := ordered.order
      rw [phase, WorkerPhase.call, message] at order
      exact order
  | workerFun phase message =>
      refine ⟨ordered.callers, ordered.notifiers, ?_⟩
      have order := ordered.order
      rw [phase, WorkerPhase.call, message] at order
      exact order
  | workerDrained phase =>
      refine ⟨ordered.callers, ordered.notifiers, ?_⟩
      have order := ordered.order
      rw [phase] at order
      exact order
  | workerRun phase =>
      refine ⟨ordered.callers, ordered.notifiers, ?_⟩
      have order := ordered.order
      rw [phase] at order
      show state.queued = (state.executed ++ [_]).map Prod.fst ++ [] ++ state.waitingCalls
      rw [order, List.map_append, List.append_nil]
      rfl
  | workerFree phase =>
      refine ⟨ordered.callers, ordered.notifiers, ?_⟩
      have order := ordered.order
      rw [phase] at order
      exact order

end Ordered

/-! ### How far a call has come -/

def blockFree (state : ExmsgState) : ExmsgAction → Bool
  | .caller caller =>
      match state.callers[caller]? with
      | some (.alloc _) => state.msgBlock ≠ []
      | _ => true
  | _ => true

/-- Every call is with its caller until it returns, was queued once when its
caller waits, and has released its caller once when it was executed. -/
structure Called (state : ExmsgState) : Prop where
  calls : ∀ call,
    (state.callers.filterMap CallerPhase.call).count call +
      (state.returned.map Prod.fst).count call = if call < state.issued then 1 else 0
  queued : ∀ call,
    state.callers.countP (fun phase => phase = .waiting call) +
      (state.returned.map Prod.fst).count call = state.queued.count call
  released : ∀ call,
    (state.funcMsg call).waitSem + (state.returned.map Prod.fst).count call =
      (state.executed.map Prod.fst).count call
  results : ∀ result ∈ state.executed, (state.funcMsg result.1).err = result.2
  returned : ∀ result ∈ state.returned, result ∈ state.executed

namespace Called

variable {state after : ExmsgState}

theorem countP_waiting_le (table : List CallerPhase) (call : Nat) :
    table.countP (fun phase => phase = .waiting call) ≤
      (table.filterMap CallerPhase.call).count call := by
  induction table with
  | nil => exact Nat.le_refl 0
  | cons phase table ih =>
      rw [List.countP_cons, filterMap_cons_toList, List.count_append]
      by_cases waiting : phase = .waiting call
      · subst waiting
        simp only [decide_true, if_true, CallerPhase.call, Option.toList, List.count_singleton_self]
        omega
      · simp only [waiting, decide_false, Bool.false_eq_true, if_false]
        omega

theorem count_queued_le (called : Called state) (call : Nat) :
    state.queued.count call ≤ if call < state.issued then 1 else 0 := by
  have calls := called.calls call
  have queued := called.queued call
  have waiting := countP_waiting_le state.callers call
  omega

theorem queued_nodup (called : Called state) : state.queued.Nodup := by
  refine List.nodup_iff_count.mpr fun call => (called.count_queued_le call).trans ?_
  split
  · exact Nat.le_refl 1
  · exact Nat.zero_le 1

theorem queued_lt (called : Called state) {call : Nat} (member : call ∈ state.queued) :
    call < state.issued := by
  have positive := List.count_pos_iff.mpr member
  have bound := called.count_queued_le call
  split at bound
  next issued => exact issued
  next => omega

theorem executed_subset (ordered : Ordered state) {call : Nat}
    (member : call ∈ state.executed.map Prod.fst) : call ∈ state.queued := by
  rw [ordered.order]
  exact List.mem_append_left _ (List.mem_append_left _ member)

theorem running_not_executed (called : Called state) (ordered : Ordered state)
    {block call : Nat} (phase : state.worker = .running block call) :
    call ∉ state.executed.map Prod.fst := by
  have nodup := called.queued_nodup
  rw [ordered.order, phase, List.append_assoc] at nodup
  intro executed
  exact (List.nodup_append.mp nodup).2.2 call executed call
    (List.mem_append_left _ (List.mem_singleton_self call)) rfl

theorem setCaller (called : Called state) {caller : Nat} {before phase : CallerPhase}
    (found : state.callers[caller]? = some before)
    (callers : after.callers = state.callers.set caller phase)
    (calls : ∀ call,
      phase.call.toList.count call + (after.returned.map Prod.fst).count call +
          (if call < state.issued then 1 else 0) =
        before.call.toList.count call + (state.returned.map Prod.fst).count call +
          if call < after.issued then 1 else 0)
    (queued : ∀ call,
      (decide (phase = .waiting call)).toNat + (after.returned.map Prod.fst).count call +
          state.queued.count call =
        (decide (before = .waiting call)).toNat + (state.returned.map Prod.fst).count call +
          after.queued.count call)
    (released : ∀ call,
      (after.funcMsg call).waitSem + (after.returned.map Prod.fst).count call =
        (after.executed.map Prod.fst).count call)
    (results : ∀ result ∈ after.executed, (after.funcMsg result.1).err = result.2)
    (returned : ∀ result ∈ after.returned, result ∈ after.executed) : Called after where
  calls := by
    intro call
    have held := count_filterMap_set found phase CallerPhase.call call
    have before := called.calls call
    have change := calls call
    rw [callers]
    omega
  queued := by
    intro call
    have held := countP_set found phase fun phase => phase = .waiting call
    have before := called.queued call
    have change := queued call
    rw [callers]
    omega
  released := released
  results := results
  returned := returned

theorem exec (called : Called state) (ordered : Ordered state) {caller : Nat}
    (found : state.callers[caller]? = some .idle) :
    Called ({ state with
      funcMsg := Function.update state.funcMsg state.issued ⟨.ok, 0⟩
      issued := state.issued + 1 }.setCaller caller (.alloc state.issued)) := by
  have fresh : state.issued ∉ state.executed.map Prod.fst := by
    intro executed
    exact Nat.lt_irrefl _ (called.queued_lt (executed_subset ordered executed))
  refine called.setCaller found rfl ?_ (fun _ => rfl) ?_ ?_ called.returned
  · intro call
    show [state.issued].count call + (state.returned.map Prod.fst).count call +
        (if call < state.issued then 1 else 0) =
      [].count call + (state.returned.map Prod.fst).count call +
        if call < state.issued + 1 then 1 else 0
    by_cases new : state.issued = call
    · subst new
      rw [List.count_singleton_self, List.count_nil, if_neg (Nat.lt_irrefl _),
        if_pos (Nat.lt_succ_self _)]
      omega
    · rw [List.count_singleton, List.count_nil]
      simp only [beq_iff_eq, new, if_false]
      split <;> split <;> omega
  · intro call
    have released := called.released call
    by_cases new : call = state.issued
    · subst new
      rw [List.count_eq_zero.mpr fresh] at released
      show (Function.update state.funcMsg state.issued ⟨.ok, 0⟩ state.issued).waitSem +
        (state.returned.map Prod.fst).count state.issued =
          (state.executed.map Prod.fst).count state.issued
      rw [Function.update_self, List.count_eq_zero.mpr fresh]
      exact (Nat.zero_add _).trans (Nat.eq_zero_of_add_eq_zero released).2
    · show (Function.update state.funcMsg state.issued ⟨.ok, 0⟩ call).waitSem + _ = _
      rw [Function.update_of_ne new]
      exact released
  · intro result member
    have old : result.1 ≠ state.issued := by
      intro new
      exact fresh (new ▸ List.mem_map_of_mem member)
    show (Function.update state.funcMsg state.issued ⟨.ok, 0⟩ result.1).err = result.2
    rw [Function.update_of_ne old]
    exact called.results result member

theorem callerStore (called : Called state) {caller call block : Nat}
    (found : state.callers[caller]? = some (.storing call block)) :
    Called ({ state with
      msgQueue := state.msgQueue.store block
      queued := state.queued ++ [call] }.setCaller caller (.waiting call)) := by
  refine called.setCaller found rfl (fun _ => rfl) ?_ called.released called.results
    called.returned
  intro other
  show (decide (CallerPhase.waiting call = .waiting other)).toNat + _ + _ = _ + _ +
    (state.queued ++ [call]).count other
  rw [List.count_append, List.count_singleton]
  by_cases same : call = other
  · subst same
    simp only [ExmsgState.setCaller, decide_true, reduceCtorEq, decide_false, Bool.toNat_true,
      Bool.toNat_false, BEq.rfl, if_true]
    omega
  · simp only [ExmsgState.setCaller, CallerPhase.waiting.injEq, same, reduceCtorEq,
      decide_false, Bool.toNat_false, beq_iff_eq, if_false]
    omega

theorem callerReturn (called : Called state) {caller call : Nat}
    (found : state.callers[caller]? = some (.waiting call))
    (released : 0 < (state.funcMsg call).waitSem) :
    Called ({ state with
      funcMsg := Function.update state.funcMsg call
        { state.funcMsg call with waitSem := (state.funcMsg call).waitSem - 1 }
      returned := state.returned ++ [(call, (state.funcMsg call).err)] }.setCaller caller
        .idle) := by
  have count (other : Nat) :
      ((state.returned ++ [(call, (state.funcMsg call).err)]).map Prod.fst).count other =
        (state.returned.map Prod.fst).count other + [call].count other := by
    rw [List.map_append, List.count_append]
    rfl
  have sameErr (other : Nat) :
      (Function.update state.funcMsg call
        { state.funcMsg call with waitSem := (state.funcMsg call).waitSem - 1 } other).err =
        (state.funcMsg other).err := by
    by_cases same : other = call
    · subst same
      rw [Function.update_self]
    · rw [Function.update_of_ne same]
  refine called.setCaller found rfl ?_ ?_ ?_ ?_ ?_
  · intro other
    show [].count other + ((state.returned ++ _).map Prod.fst).count other + _ =
      [call].count other + _ + _
    rw [count, List.count_nil]
    show 0 + _ + (if other < state.issued then 1 else 0) =
      _ + _ + (if other < state.issued then 1 else 0)
    omega
  · intro other
    show 0 + ((state.returned ++ _).map Prod.fst).count other + state.queued.count other =
      (decide (CallerPhase.waiting call = .waiting other)).toNat + _ + state.queued.count other
    rw [count, List.count_singleton]
    by_cases same : call = other
    · subst same
      simp only [decide_true, Bool.toNat_true, BEq.rfl, if_true]
      omega
    · simp only [CallerPhase.waiting.injEq, same, decide_false, Bool.toNat_false, beq_iff_eq,
        if_false]
      omega
  · intro other
    have before := called.released other
    show (Function.update state.funcMsg call _ other).waitSem +
      ((state.returned ++ _).map Prod.fst).count other =
        (state.executed.map Prod.fst).count other
    rw [count, List.count_singleton]
    by_cases same : other = call
    · subst same
      rw [Function.update_self]
      simp only [BEq.rfl, if_true]
      omega
    · rw [Function.update_of_ne same]
      simp only [beq_iff_eq, Ne.symm same, if_false]
      omega
  · intro result member
    exact (sameErr result.1).trans (called.results result member)
  · intro result member
    rcases List.mem_append.mp member with old | new
    · exact called.returned result old
    · rw [List.mem_singleton] at new
      subst new
      have executed : call ∈ state.executed.map Prod.fst := by
        have before := called.released call
        exact List.count_pos_iff.mp (by omega)
      obtain ⟨⟨_, err⟩, run, rfl⟩ := List.mem_map.mp executed
      rw [called.results _ run]
      exact run

theorem workerRun (called : Called state) (ordered : Ordered state) {block call : Nat}
    (phase : state.worker = .running block call) (result : NetErr) :
    Called { state with
      funcMsg := Function.update state.funcMsg call
        ⟨result, (state.funcMsg call).waitSem + 1⟩
      executed := state.executed ++ [(call, result)]
      worker := .freeing block } := by
  have notExecuted := called.running_not_executed ordered phase
  refine ⟨called.calls, called.queued, ?_, ?_, ?_⟩
  · intro other
    have before := called.released other
    show (Function.update state.funcMsg call _ other).waitSem + _ =
      ((state.executed ++ [(call, result)]).map Prod.fst).count other
    rw [List.map_append, List.count_append, List.map_singleton, List.count_singleton]
    by_cases same : other = call
    · subst same
      rw [Function.update_self]
      simp only [BEq.rfl, if_true]
      omega
    · rw [Function.update_of_ne same]
      simp only [beq_iff_eq, Ne.symm same, if_false]
      omega
  · intro run member
    rcases List.mem_append.mp member with old | new
    · have different : run.1 ≠ call := by
        rintro rfl
        exact notExecuted (List.mem_map_of_mem old)
      show (Function.update state.funcMsg call _ run.1).err = run.2
      rw [Function.update_of_ne different]
      exact called.results run old
    · rw [List.mem_singleton] at new
      subst new
      show (Function.update state.funcMsg call _ call).err = result
      rw [Function.update_self]
  · intro run member
    exact List.mem_append_left _ (called.returned run member)

theorem move {action : ExmsgAction} (called : Called state) (ordered : Ordered state)
    (moved : Move state action after) (allowed : state.blockFree action) : Called after := by
  cases moved with
  | exec found => exact called.exec ordered found
  | callerFault found empty =>
      simp only [blockFree, found, empty, ne_eq, not_true_eq_false, decide_false,
        Bool.false_eq_true] at allowed
  | callerAlloc found free =>
      exact called.setCaller found rfl (fun _ => rfl) (fun _ => rfl) called.released
        called.results called.returned
  | callerTest found =>
      exact called.setCaller found rfl (fun _ => rfl) (fun _ => rfl) called.released
        called.results called.returned
  | callerAcquire found acquired =>
      exact called.setCaller found rfl (fun _ => rfl) (fun _ => rfl) called.released
        called.results called.returned
  | callerStore found => exact called.callerStore found
  | callerReturn found released => exact called.callerReturn found released
  | workerRun phase => exact called.workerRun ordered phase _
  | _ => exact ⟨called.calls, called.queued, called.released, called.results, called.returned⟩

end Called

/-! ### Progress -/

def continues : ExmsgAction → Bool
  | .exec _ | .netifIn _ _ => false
  | _ => true

def Quiescent (state : ExmsgState) : Prop :=
  ∀ action, continues action → state.blockFree action → state.step action = none

def callerWork : CallerPhase → Nat
  | .idle | .fault => 0
  | .waiting _ => 1
  | .storing _ _ => 8
  | .sendWait _ _ => 9
  | .sendTest _ _ => 10
  | .alloc _ => 11

def notifierWork : NotifierPhase → Nat
  | .idle => 0
  | .storing _ _ => 7
  | .sendWait _ _ => 8
  | .sendTest _ _ => 9
  | .alloc _ => 10

def workerWork : WorkerPhase → Nat
  | .taking => 0
  | .receiving => 1
  | .freeing _ => 2
  | .draining _ _ | .running _ _ => 3
  | .dispatch _ => 4

def work (state : ExmsgState) : Nat :=
  (state.callers.map callerWork).sum + (state.notifiers.map notifierWork).sum +
    workerWork state.worker + 6 * state.msgQueue.messages.length

structure Sound (state : ExmsgState) : Prop where
  pooled : Pooled state
  ordered : Ordered state
  called : Called state
  noFault : CallerPhase.fault ∉ state.callers
  contexts : 0 < state.notifiers.length

theorem pooled_exmsgInit (slots : Nat → Nat) (message : Nat → Exmsg)
    (callers contexts : Nat) : Pooled (exmsgInit slots message callers contexts) := by
  have stores : (Fixq.fixqInit slots exmsgMsgCnt).Stores [] 0 0 :=
    Fixq.stores_fixqInit (by decide) slots
  refine ⟨rfl, ?_, ?_⟩
  · have noneStoring : (exmsgInit slots message callers contexts).storing = 0 := by
      simp only [storing, exmsgInit, List.countP_replicate, CallerPhase.isStoring,
        NotifierPhase.isStoring, Bool.false_eq_true, if_false]
    rw [noneStoring]
    exact stores
  · have noCaller : (List.replicate callers CallerPhase.idle).filterMap CallerPhase.block = [] :=
      List.filterMap_replicate_of_none rfl
    have noNotifier :
        (List.replicate (contexts + 1) NotifierPhase.idle).filterMap NotifierPhase.block = [] :=
      List.filterMap_replicate_of_none rfl
    show (List.range exmsgMsgCnt ++ (Fixq.fixqInit slots exmsgMsgCnt).messages ++
      (List.replicate callers CallerPhase.idle).filterMap CallerPhase.block ++
      (List.replicate (contexts + 1) NotifierPhase.idle).filterMap NotifierPhase.block ++
      []).Perm (List.range exmsgMsgCnt)
    rw [stores.messages_eq, noCaller, noNotifier, List.append_nil, List.append_nil,
      List.append_nil, List.append_nil]

theorem sound_exmsgInit (slots : Nat → Nat) (message : Nat → Exmsg) (callers contexts : Nat) :
    Sound (exmsgInit slots message callers contexts) where
  pooled := pooled_exmsgInit slots message callers contexts
  ordered := by
    refine ⟨?_, ?_, rfl⟩
    · intro phase member
      rw [List.eq_of_mem_replicate member]
      exact Ordered.carriesCall_of_block_none rfl
    · intro phase member
      rw [List.eq_of_mem_replicate member]
      exact Ordered.carriesNetif_of_block_none rfl
  called := by
    refine ⟨?_, ?_, fun _ => rfl, ?_, ?_⟩
    · intro call
      have noCall : (List.replicate callers CallerPhase.idle).filterMap CallerPhase.call = [] :=
        List.filterMap_replicate_of_none rfl
      show ((List.replicate callers CallerPhase.idle).filterMap CallerPhase.call).count call +
        0 = if call < 0 then 1 else 0
      rw [noCall, if_neg (Nat.not_lt_zero call), List.count_nil]
    · intro call
      show (List.replicate callers CallerPhase.idle).countP _ + 0 = 0
      simp only [List.countP_replicate, reduceCtorEq, decide_false, Bool.false_eq_true,
        if_false]
    · intro result member
      cases member
    · intro result member
      cases member
  noFault := by
    intro member
    cases List.eq_of_mem_replicate member
  contexts := by
    show 0 < (List.replicate (contexts + 1) NotifierPhase.idle).length
    rw [List.length_replicate]
    exact Nat.succ_pos _

namespace Sound

variable {state after : ExmsgState}

theorem move {action : ExmsgAction} (sound : Sound state) (moved : Move state action after)
    (allowed : state.blockFree action) : Sound after where
  pooled := sound.pooled.move moved
  ordered := sound.ordered.move sound.pooled moved
  called := sound.called.move sound.ordered moved allowed
  noFault := by
    have keeps {caller : Nat} {phase : CallerPhase} (fine : phase ≠ .fault) :
        CallerPhase.fault ∉ state.callers.set caller phase := by
      intro member
      rcases List.mem_or_eq_of_mem_set member with old | new
      · exact sound.noFault old
      · exact fine new.symm
    cases moved with
    | exec | callerAlloc | callerTest | callerAcquire | callerStore | callerReturn =>
        apply keeps
        intro equal
        cases equal
    | callerFault found empty =>
        simp only [blockFree, found, empty, ne_eq, not_true_eq_false, decide_false,
          Bool.false_eq_true] at allowed
    | _ => exact sound.noFault
  contexts := by
    cases moved with
    | netifIn | notifierNone | notifierAlloc | notifierFull | notifierTest | notifierAcquire
    | notifierStore =>
        show 0 < (state.notifiers.set _ _).length
        rw [List.length_set]
        exact sound.contexts
    | _ => exact sound.contexts

theorem acquireSend_isSome (sound : Sound state)
    (holder : state.storing + state.msgQueue.messages.length < exmsgMsgCnt) :
    state.msgQueue.acquireSend.isSome := by
  have account := sound.pooled.stores.sendSem_add
  rw [sound.pooled.size_eq] at account
  unfold Fixq.acquireSend
  rw [if_pos (by omega)]
  rfl

theorem length_blocks (sound : Sound state) :
    state.msgBlock.length + state.msgQueue.messages.length +
      state.callers.countP (fun phase => phase.block.isSome) +
      state.notifiers.countP (fun phase => phase.block.isSome) +
      state.worker.block.toList.length = exmsgMsgCnt := by
  have length := sound.pooled.blocks_perm.length_eq
  rw [List.length_range] at length
  simpa only [blocks, List.length_append, List.length_filterMap_eq_countP] using length

theorem callerStoring_le (state : ExmsgState) :
    state.callers.countP CallerPhase.isStoring ≤
      state.callers.countP fun phase => phase.block.isSome :=
  List.countP_mono_left fun phase _ storing => by
    cases phase <;> first | rfl | cases storing

theorem notifierStoring_le (state : ExmsgState) :
    state.notifiers.countP NotifierPhase.isStoring ≤
      state.notifiers.countP fun phase => phase.block.isSome :=
  List.countP_mono_left fun phase _ storing => by
    cases phase <;> first | rfl | cases storing

theorem caller_acquires (sound : Sound state) {caller call block : Nat}
    (found : state.callers[caller]? = some (.sendWait call block)) :
    state.msgQueue.acquireSend.isSome := by
  apply sound.acquireSend_isSome
  have more : state.callers.countP CallerPhase.isStoring <
      state.callers.countP fun phase => phase.block.isSome := by
    refine countP_lt_countP ?_ (List.mem_of_getElem? found) rfl rfl
    intro phase storing
    cases phase <;> first | rfl | cases storing
  have others := notifierStoring_le state
  have length := sound.length_blocks
  unfold storing
  omega

theorem notifier_acquires (sound : Sound state) {context netif block : Nat}
    (found : state.notifiers[context]? = some (.sendWait netif block)) :
    state.msgQueue.acquireSend.isSome := by
  apply sound.acquireSend_isSome
  have more : state.notifiers.countP NotifierPhase.isStoring <
      state.notifiers.countP fun phase => phase.block.isSome := by
    refine countP_lt_countP ?_ (List.mem_of_getElem? found) rfl rfl
    intro phase storing
    cases phase <;> first | rfl | cases storing
  have others := callerStoring_le state
  have length := sound.length_blocks
  unfold storing
  omega

theorem notifierStep_isSome (sound : Sound state) {context : Nat} {phase : NotifierPhase}
    (found : state.notifiers[context]? = some phase) (busy : phase ≠ .idle) :
    (state.notifierStep context).isSome := by
  unfold notifierStep
  rw [found]
  cases phase with
  | idle => exact absurd rfl busy
  | alloc netif =>
      dsimp only
      split <;> rfl
  | sendTest netif block =>
      dsimp only
      split <;> rfl
  | sendWait netif block =>
      obtain ⟨msgQueue, acquired⟩ := Option.isSome_iff_exists.mp (sound.notifier_acquires found)
      dsimp only
      rw [acquired]
      rfl
  | storing netif block => rfl

theorem workerStep_isSome (result : NetErr) (context : state.notifiers[0]? = some .idle)
    (busy : state.worker ≠ .receiving) : (state.workerStep result).isSome := by
  unfold workerStep
  rw [if_pos context]
  cases phase : state.worker with
  | receiving => exact absurd phase busy
  | dispatch block =>
      dsimp only
      split <;> rfl
  | _ => rfl

theorem workerStep_receives (sound : Sound state) (result : NetErr)
    (context : state.notifiers[0]? = some .idle) (receiving : state.worker = .receiving)
    (messages : state.msgQueue.messages ≠ []) : (state.workerStep result).isSome := by
  have receives := sound.pooled.stores.receiveSem_add
  rw [receiving] at receives
  have some_ := List.length_pos_of_ne_nil messages
  have permit : 0 < state.msgQueue.receiveSem := by
    rw [← receives] at some_
    exact some_
  unfold workerStep Fixq.acquireReceive
  rw [if_pos context, receiving, if_pos permit]
  rfl

theorem callerStep_isSome (sound : Sound state) {caller : Nat} {phase : CallerPhase}
    (found : state.callers[caller]? = some phase) (busy : phase.block.isSome) :
    (state.callerStep caller).isSome := by
  unfold callerStep
  rw [found]
  cases phase with
  | sendTest call block =>
      dsimp only
      split <;> rfl
  | sendWait call block =>
      obtain ⟨msgQueue, acquired⟩ := Option.isSome_iff_exists.mp (sound.caller_acquires found)
      dsimp only
      rw [acquired]
      rfl
  | storing call block => rfl
  | _ => cases busy

theorem quiescent_notifiers (sound : Sound state) (quiet : Quiescent state)
    {context : Nat} {phase : NotifierPhase}
    (found : state.notifiers[context]? = some phase) : phase = .idle := by
  by_contra busy
  have enabled := sound.notifierStep_isSome found busy
  have stuck : state.notifierStep context = none := quiet (.notifier context) rfl rfl
  rw [stuck] at enabled
  cases enabled

theorem quiescent_worker (sound : Sound state) (quiet : Quiescent state) :
    state.worker = .receiving ∧ state.msgQueue.messages = [] := by
  have context : state.notifiers[0]? = some .idle := by
    have found := List.getElem?_eq_getElem sound.contexts
    rw [found, sound.quiescent_notifiers quiet found]
  have stuck : state.workerStep .ok = none := quiet (.worker .ok) rfl rfl
  have receiving : state.worker = .receiving := by
    by_contra busy
    have enabled := workerStep_isSome .ok context busy
    rw [stuck] at enabled
    cases enabled
  refine ⟨receiving, ?_⟩
  by_contra messages
  have enabled := sound.workerStep_receives .ok context receiving messages
  rw [stuck] at enabled
  cases enabled

theorem blockFree_caller {caller : Nat} {phase : CallerPhase}
    (found : state.callers[caller]? = some phase)
    (free : ∀ call, phase = .alloc call → state.msgBlock ≠ []) :
    state.blockFree (.caller caller) = true := by
  simp only [blockFree, found]
  cases phase with
  | alloc call => exact decide_eq_true (free call rfl)
  | _ => rfl

theorem quiescent_block (sound : Sound state) (quiet : Quiescent state) {caller : Nat}
    {phase : CallerPhase} (found : state.callers[caller]? = some phase) :
    phase.block = none := by
  by_contra holding
  have holds : phase.block.isSome := Option.isSome_iff_ne_none.mpr holding
  have allowed : state.blockFree (.caller caller) = true := by
    apply blockFree_caller found
    rintro call rfl
    cases holds
  have enabled := sound.callerStep_isSome found holds
  have stuck : state.callerStep caller = none := quiet (.caller caller) rfl allowed
  rw [stuck] at enabled
  cases enabled

theorem quiescent_pool (sound : Sound state) (quiet : Quiescent state) :
    state.msgBlock ≠ [] := by
  obtain ⟨receiving, noMessages⟩ := sound.quiescent_worker quiet
  have noCaller : state.callers.countP (fun phase => phase.block.isSome) = 0 := by
    rw [List.countP_eq_zero]
    intro phase member
    obtain ⟨caller, found⟩ := List.getElem?_of_mem member
    rw [sound.quiescent_block quiet found]
    exact Bool.false_ne_true
  have noNotifier : state.notifiers.countP (fun phase => phase.block.isSome) = 0 := by
    rw [List.countP_eq_zero]
    intro phase member
    obtain ⟨context, found⟩ := List.getElem?_of_mem member
    rw [sound.quiescent_notifiers quiet found]
    exact Bool.false_ne_true
  have length := sound.length_blocks
  rw [noCaller, noNotifier, noMessages, receiving] at length
  intro empty
  rw [empty] at length
  cases length

theorem quiescent_callers (sound : Sound state) (quiet : Quiescent state)
    {caller : Nat} {phase : CallerPhase}
    (found : state.callers[caller]? = some phase) : phase = .idle := by
  have allowed : state.blockFree (.caller caller) = true :=
    blockFree_caller found fun _ _ => sound.quiescent_pool quiet
  have stuck : state.callerStep caller = none := quiet (.caller caller) rfl allowed
  have noBlock := sound.quiescent_block quiet found
  unfold callerStep at stuck
  rw [found] at stuck
  cases phase with
  | idle => rfl
  | fault => exact absurd (List.mem_of_getElem? found) sound.noFault
  | waiting call =>
      -- nothing is queued any more, so the call was executed and has released its caller
      obtain ⟨receiving, noMessages⟩ := sound.quiescent_worker quiet
      have order := sound.ordered.order
      rw [waitingCalls, noMessages, receiving] at order
      have waits : 0 < state.callers.countP fun phase => phase = .waiting call :=
        List.countP_pos_iff.mpr ⟨_, List.mem_of_getElem? found, decide_eq_true rfl⟩
      have queued := sound.called.queued call
      have released := sound.called.released call
      have sameCount : state.queued.count call = (state.executed.map Prod.fst).count call := by
        rw [order]
        simp only [WorkerPhase.call, Option.toList, List.filterMap_nil, List.append_nil]
      dsimp only at stuck
      rw [if_pos (by omega)] at stuck
      cases stuck
  | alloc call =>
      dsimp only at stuck
      split at stuck <;> cases stuck
  | sendTest call block => cases noBlock
  | sendWait call block => cases noBlock
  | storing call block => cases noBlock

theorem quiescent_returned (sound : Sound state) (quiet : Quiescent state) {call : Nat}
    (issued : call < state.issued) : call ∈ state.returned.map Prod.fst := by
  have idle : state.callers.filterMap CallerPhase.call = [] := by
    rw [List.filterMap_eq_nil_iff]
    intro phase member
    obtain ⟨caller, found⟩ := List.getElem?_of_mem member
    rw [sound.quiescent_callers quiet found]
    rfl
  have calls := sound.called.calls call
  rw [idle, if_pos issued, List.count_nil, Nat.zero_add] at calls
  exact List.count_pos_iff.mp (by omega)

theorem work_setCaller {caller : Nat} {before phase : CallerPhase}
    (found : state.callers[caller]? = some before)
    (callers : after.callers = state.callers.set caller phase)
    (notifiers : after.notifiers = state.notifiers) (worker : after.worker = state.worker)
    {items : List Nat} (messages : after.msgQueue.messages = items)
    (less : callerWork phase + 6 * items.length <
      callerWork before + 6 * state.msgQueue.messages.length) : after.work < state.work := by
  have changed := sum_map_set found phase callerWork
  unfold work
  rw [callers, notifiers, worker, messages]
  omega

theorem work_setNotifier {context : Nat} {before phase : NotifierPhase}
    (found : state.notifiers[context]? = some before)
    (notifiers : after.notifiers = state.notifiers.set context phase)
    (callers : after.callers = state.callers) (worker : after.worker = state.worker)
    {items : List Nat} (messages : after.msgQueue.messages = items)
    (less : notifierWork phase + 6 * items.length <
      notifierWork before + 6 * state.msgQueue.messages.length) : after.work < state.work := by
  have changed := sum_map_set found phase notifierWork
  unfold work
  rw [callers, notifiers, worker, messages]
  omega

theorem work_setWorker {before : WorkerPhase} (phase : state.worker = before)
    (callers : after.callers = state.callers) (notifiers : after.notifiers = state.notifiers)
    {items : List Nat} (messages : after.msgQueue.messages = items)
    (less : workerWork after.worker + 6 * items.length <
      workerWork before + 6 * state.msgQueue.messages.length) : after.work < state.work := by
  unfold work
  rw [callers, notifiers, phase, messages]
  omega

theorem work_lt (sound : Sound state) {action : ExmsgAction} (moved : Move state action after)
    (goesOn : continues action) : after.work < state.work := by
  have stores := sound.pooled.stores
  have less {first second : Nat} (count : Nat) (smaller : first < second) :
      first + 6 * count < second + 6 * count := Nat.add_lt_add_right smaller _
  have length (block : Nat) :
      (state.msgQueue.messages ++ [block]).length = state.msgQueue.messages.length + 1 :=
    List.length_append
  cases moved with
  | exec => cases goesOn
  | netifIn => cases goesOn
  | callerFault found =>
      exact work_setCaller found rfl rfl rfl rfl (less _ (Nat.zero_lt_succ 10))
  | callerAlloc found =>
      exact work_setCaller found rfl rfl rfl rfl (less _ (Nat.lt_succ_self 10))
  | callerTest found =>
      exact work_setCaller found rfl rfl rfl rfl (less _ (Nat.lt_succ_self 9))
  | callerAcquire found acquired =>
      exact work_setCaller found rfl rfl rfl (stores.acquireSend acquired).messages_eq
        (less _ (Nat.lt_succ_self 8))
  | @callerStore caller call block found =>
      obtain ⟨others, storing⟩ := Pooled.exists_storing_caller found
      refine work_setCaller found rfl rfl rfl ((storing ▸ stores).store block).messages_eq ?_
      rw [length, callerWork, callerWork]
      omega
  | callerReturn found =>
      exact work_setCaller found rfl rfl rfl rfl (less _ (Nat.lt_succ_self 0))
  | notifierNone found =>
      exact work_setNotifier found rfl rfl rfl rfl (less _ (Nat.zero_lt_succ 9))
  | notifierAlloc found =>
      exact work_setNotifier found rfl rfl rfl rfl (less _ (Nat.lt_succ_self 9))
  | notifierFull found =>
      exact work_setNotifier found rfl rfl rfl rfl (less _ (Nat.zero_lt_succ 8))
  | notifierTest found =>
      exact work_setNotifier found rfl rfl rfl rfl (less _ (Nat.lt_succ_self 8))
  | notifierAcquire found acquired =>
      exact work_setNotifier found rfl rfl rfl (stores.acquireSend acquired).messages_eq
        (less _ (Nat.lt_succ_self 7))
  | @notifierStore context netif block found =>
      obtain ⟨others, storing⟩ := Pooled.exists_storing_notifier found
      refine work_setNotifier found rfl rfl rfl ((storing ▸ stores).store block).messages_eq ?_
      rw [length, notifierWork, notifierWork]
      omega
  | workerAcquire phase acquired =>
      exact work_setWorker phase rfl rfl (stores.acquireReceive acquired).messages_eq
        (less _ (Nat.lt_succ_self 0))
  | workerTake phase =>
      have taking : state.msgQueue.Stores state.msgQueue.messages state.storing (0 + 1) := by
        rwa [phase] at stores
      obtain ⟨block, rest, messages, taken, storesRest⟩ := taking.take
      refine work_setWorker phase rfl rfl storesRest.messages_eq ?_
      rw [messages, List.length_cons, workerWork, workerWork]
      omega
  | workerNetifIn phase =>
      exact work_setWorker phase rfl rfl rfl (less _ (Nat.lt_succ_self 3))
  | workerFun phase =>
      exact work_setWorker phase rfl rfl rfl (less _ (Nat.lt_succ_self 3))
  | workerDrained phase =>
      exact work_setWorker phase rfl rfl rfl (less _ (Nat.lt_succ_self 2))
  | workerRun phase =>
      exact work_setWorker phase rfl rfl rfl (less _ (Nat.lt_succ_self 2))
  | workerFree phase =>
      exact work_setWorker phase rfl rfl rfl (less _ (Nat.lt_succ_self 1))

end Sound

/-! ### Remote calls -/

/-- The worker runs the calls in the order of the queue and each once, a caller
gets the result of its own call, every block is in one place, nobody writes
through a null pointer, and when nothing new begins the system comes to rest with
every call executed and returned. -/
structure RemoteCalls (state : ExmsgState) : Prop where
  in_order : state.executed.map Prod.fst <+: state.queued
  once : (state.executed.map Prod.fst).Nodup
  own_result : ∀ result ∈ state.returned, result ∈ state.executed
  blocks_perm : state.blocks.Perm (List.range exmsgMsgCnt)
  noFault : CallerPhase.fault ∉ state.callers
  work_lt : ∀ action after, continues action → state.step action = some after →
    after.work < state.work
  completes : state.Quiescent → ∀ call < state.issued,
    call ∈ state.executed.map Prod.fst ∧ call ∈ state.returned.map Prod.fst

theorem Sound.remoteCalls {state : ExmsgState} (sound : Sound state) : RemoteCalls state where
  in_order := by
    rw [sound.ordered.order, List.append_assoc]
    exact List.prefix_append _ _
  once := by
    have nodup := sound.called.queued_nodup
    rw [sound.ordered.order, List.append_assoc] at nodup
    exact (List.nodup_append.mp nodup).1
  own_result := sound.called.returned
  blocks_perm := sound.pooled.blocks_perm
  noFault := sound.noFault
  work_lt := fun _ _ goesOn stepped => sound.work_lt (move_of_step stepped) goesOn
  completes := by
    intro quiet call issued
    have returned := sound.quiescent_returned quiet issued
    refine ⟨?_, returned⟩
    obtain ⟨result, member, rfl⟩ := List.mem_map.mp returned
    exact List.mem_map_of_mem (sound.called.returned result member)

end ExmsgState

end CleanOS.Net
