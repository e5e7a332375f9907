import CleanOS.Lib.Machine
import CleanOS.Lib.Ring

/-!
# Message queues of fixed length

`kernel/net/fixq.c`.  The two segments of a queue are ideal counting semaphores
here: a wait takes one permit and is not enabled without one.  Each call is a
test of the time-out, a wait, and an update of the slots with the wake-up that
follows it.
-/

namespace CleanOS.Net

open CleanOS.Lib

/-- `fixq_t`, with `inPos` for the field `in`. -/
structure Fixq (α : Type) where
  size : Nat
  buf : Nat → α
  inPos : Nat
  out : Nat
  cnt : Int
  sendSem : Nat
  receiveSem : Nat

namespace Fixq

variable {α : Type}

/-- `fixq_init`. -/
def fixqInit (buf : Nat → α) (size : Nat) : Fixq α where
  size := size
  buf := buf
  inPos := 0
  out := 0
  cnt := 0
  sendSem := size
  receiveSem := 0

/-- The test at the start of `fixq_send`: the queue is full and the caller does
not want to wait. -/
def sendFull (queue : Fixq α) (tmo : Int) : Bool :=
  (queue.size : Int) ≤ queue.cnt && tmo < 0

/-- The wait of `fixq_send`. -/
def acquireSend (queue : Fixq α) : Option (Fixq α) :=
  if 0 < queue.sendSem then some { queue with sendSem := queue.sendSem - 1 } else none

/-- The rest of `fixq_send`. -/
def store (queue : Fixq α) (msg : α) : Fixq α :=
  { queue with
    buf := Function.update queue.buf queue.inPos msg
    inPos := if queue.size ≤ queue.inPos + 1 then 0 else queue.inPos + 1
    cnt := queue.cnt + 1
    receiveSem := queue.receiveSem + 1 }

/-- The test at the start of `fixq_recv`: the queue is empty and the caller does
not want to wait. -/
def recvEmpty (queue : Fixq α) (tmo : Int) : Bool :=
  queue.cnt = 0 && tmo < 0

/-- The wait of `fixq_recv`. -/
def acquireReceive (queue : Fixq α) : Option (Fixq α) :=
  if 0 < queue.receiveSem then
    some { queue with receiveSem := queue.receiveSem - 1 }
  else none

/-- The rest of `fixq_recv`. -/
def take (queue : Fixq α) : α × Fixq α :=
  (queue.buf queue.out,
    { queue with
      out := if queue.size ≤ queue.out + 1 then 0 else queue.out + 1
      cnt := queue.cnt - 1
      sendSem := queue.sendSem + 1 })

/-- `fixq_count`. -/
def fixqCount (queue : Fixq α) : Int :=
  queue.cnt

def messages (queue : Fixq α) : List α :=
  (List.range queue.cnt.toNat).map fun offset => queue.buf ((queue.out + offset) % queue.size)

theorem size_acquireSend {queue after : Fixq α} (acquired : queue.acquireSend = some after) :
    after.size = queue.size := by
  unfold Fixq.acquireSend at acquired
  split at acquired
  next => exact Option.some.inj acquired ▸ rfl
  next => cases acquired

theorem size_acquireReceive {queue after : Fixq α} (acquired : queue.acquireReceive = some after) :
    after.size = queue.size := by
  unfold Fixq.acquireReceive at acquired
  split at acquired
  next => exact Option.some.inj acquired ▸ rfl
  next => cases acquired

/-- The queue stores the items, in order, while `storing` senders and `taking`
receivers hold a permit that they have not used yet. -/
structure Stores (queue : Fixq α) (items : List α) (storing taking : Nat) : Prop where
  holds : Ring.Holds queue.size queue.buf queue.out items
  cnt_eq : queue.cnt = items.length
  inPos_eq : queue.inPos = (queue.out + items.length) % queue.size
  sendSem_add : queue.sendSem + items.length + storing = queue.size
  receiveSem_add : queue.receiveSem + taking = items.length

theorem stores_fixqInit {size : Nat} (positive : 0 < size) (buf : Nat → α) :
    Stores (fixqInit buf size) [] 0 0 where
  holds := .nil positive
  cnt_eq := rfl
  inPos_eq := (Nat.zero_mod size).symm
  sendSem_add := rfl
  receiveSem_add := rfl

namespace Stores

variable {queue : Fixq α} {items : List α} {storing taking : Nat}

theorem messages_eq (stored : Stores queue items storing taking) :
    queue.messages = items := by
  have length : queue.cnt.toNat = items.length := by
    rw [stored.cnt_eq, Int.toNat_natCast]
  apply List.ext_getElem
  · rw [messages, List.length_map, List.length_range, length]
  · intro offset _ inside
    simp only [messages, List.getElem_map, List.getElem_range]
    exact stored.holds.slot offset items[offset] (List.getElem?_eq_getElem inside)

theorem acquireSend {after : Fixq α} (stored : Stores queue items storing taking)
    (acquired : queue.acquireSend = some after) :
    Stores after items (storing + 1) taking := by
  unfold Fixq.acquireSend at acquired
  split at acquired
  next permit =>
    cases acquired
    refine ⟨stored.holds, stored.cnt_eq, stored.inPos_eq, ?_, stored.receiveSem_add⟩
    have account := stored.sendSem_add
    show queue.sendSem - 1 + items.length + (storing + 1) = queue.size
    omega
  next => cases acquired

theorem store (stored : Stores queue items (storing + 1) taking) (msg : α) :
    Stores (queue.store msg) (items ++ [msg]) storing taking := by
  have account := stored.sendSem_add
  have room : items.length < queue.size := by omega
  have inside : queue.inPos < queue.size := by
    rw [stored.inPos_eq]
    exact Nat.mod_lt _ (by omega)
  have length : (items ++ [msg]).length = items.length + 1 := by
    rw [List.length_append, List.length_singleton]
  refine ⟨?_, ?_, ?_, ?_, ?_⟩
  · show Ring.Holds queue.size (Function.update queue.buf queue.inPos msg) queue.out _
    rw [stored.inPos_eq]
    exact stored.holds.push room msg
  · show queue.cnt + 1 = ((items ++ [msg]).length : Int)
    rw [stored.cnt_eq, length]
    omega
  · show Ring.next queue.size queue.inPos = (queue.out + (items ++ [msg]).length) % queue.size
    rw [Ring.next_eq_mod inside, length, stored.inPos_eq, Nat.mod_add_mod, Nat.add_assoc]
  · show queue.sendSem + (items ++ [msg]).length + storing = queue.size
    omega
  · show queue.receiveSem + 1 + taking = (items ++ [msg]).length
    have receives := stored.receiveSem_add
    omega

theorem acquireReceive {after : Fixq α} (stored : Stores queue items storing taking)
    (acquired : queue.acquireReceive = some after) :
    Stores after items storing (taking + 1) := by
  unfold Fixq.acquireReceive at acquired
  split at acquired
  next permit =>
    cases acquired
    refine ⟨stored.holds, stored.cnt_eq, stored.inPos_eq, stored.sendSem_add, ?_⟩
    have account := stored.receiveSem_add
    show queue.receiveSem - 1 + (taking + 1) = items.length
    omega
  next => cases acquired

theorem take (stored : Stores queue items storing (taking + 1)) :
    ∃ msg rest, items = msg :: rest ∧ queue.take.1 = msg ∧
      Stores queue.take.2 rest storing taking := by
  cases items with
  | nil =>
      have receives := stored.receiveSem_add
      rw [List.length_nil] at receives
      omega
  | cons msg rest =>
      have receives := stored.receiveSem_add
      have account := stored.sendSem_add
      have start := stored.holds.start_lt
      rw [List.length_cons] at receives account
      refine ⟨msg, rest, rfl, stored.holds.first, stored.holds.pop, ?_, ?_, ?_, ?_⟩
      · show queue.cnt - 1 = (rest.length : Int)
        rw [stored.cnt_eq, List.length_cons]
        omega
      · show queue.inPos = (Ring.next queue.size queue.out + rest.length) % queue.size
        rw [stored.inPos_eq, Ring.next_eq_mod start, Nat.mod_add_mod, List.length_cons]
        congr 1
        omega
      · show queue.sendSem + 1 + rest.length + storing = queue.size
        omega
      · show queue.receiveSem + taking = rest.length
        omega

end Stores

end Fixq

/-- Where a thread stands in its call of `fixq_send` or `fixq_recv`. -/
inductive FixqPhase (α : Type) where
  | idle
  | sendWait (msg : α)
  | storing (msg : α)
  | recvWait
  | taking

namespace FixqPhase

variable {α : Type}

def isStoring : FixqPhase α → Bool
  | .storing _ => true
  | _ => false

def isTaking : FixqPhase α → Bool
  | .taking => true
  | _ => false

end FixqPhase

/-- A queue, the threads that use it, and what they have stored and taken so
far. -/
structure FixqSystem (α : Type) where
  queue : Fixq α
  threads : List (FixqPhase α)
  sent : List α
  received : List α

/-- The steps of the threads: the start of a call, its wait, and its update. -/
inductive FixqAction (α : Type) where
  | send (thread : Nat) (msg : α) (tmo : Int)
  | recv (thread : Nat) (tmo : Int)
  | acquire (thread : Nat)
  | update (thread : Nat)

namespace FixqSystem

variable {α : Type}

def start (buf : Nat → α) (size threads : Nat) : FixqSystem α where
  queue := .fixqInit buf size
  threads := List.replicate threads .idle
  sent := []
  received := []

def setPhase (system : FixqSystem α) (thread : Nat) (phase : FixqPhase α) :
    FixqSystem α :=
  { system with threads := system.threads.set thread phase }

def step (system : FixqSystem α) : FixqAction α → Option (FixqSystem α)
  | .send thread msg tmo =>
      match system.threads[thread]? with
      | some .idle =>
          if system.queue.sendFull tmo then some system
          else some (system.setPhase thread (.sendWait msg))
      | _ => none
  | .recv thread tmo =>
      match system.threads[thread]? with
      | some .idle =>
          if system.queue.recvEmpty tmo then some system
          else some (system.setPhase thread .recvWait)
      | _ => none
  | .acquire thread =>
      match system.threads[thread]? with
      | some (.sendWait msg) => do
          let queue ← system.queue.acquireSend
          return { system with queue }.setPhase thread (.storing msg)
      | some .recvWait => do
          let queue ← system.queue.acquireReceive
          return { system with queue }.setPhase thread .taking
      | _ => none
  | .update thread =>
      match system.threads[thread]? with
      | some (.storing msg) =>
          let queue := system.queue.store msg
          some ({ system with queue, sent := system.sent ++ [msg] }.setPhase thread .idle)
      | some .taking =>
          let (msg, queue) := system.queue.take
          some ({ system with queue, received := system.received ++ [msg] }.setPhase thread
            .idle)
      | _ => none

def storing (system : FixqSystem α) : Nat :=
  system.threads.countP FixqPhase.isStoring

def taking (system : FixqSystem α) : Nat :=
  system.threads.countP FixqPhase.isTaking

/-- The system is a bounded queue: the received messages are the oldest of the
sent ones, the others are stored, and all permits are accounted for. -/
structure BoundedFifo (system : FixqSystem α) : Prop where
  received_prefix : system.received <+: system.sent
  cnt_nonneg : 0 ≤ system.queue.cnt
  cnt_le : system.queue.cnt ≤ system.queue.size
  stored : ∃ items, system.sent = system.received ++ items ∧
    system.queue.cnt = items.length ∧
    Ring.Holds system.queue.size system.queue.buf system.queue.out items
  inPos_eq : (system.queue.inPos : Int) =
    (system.queue.out + system.queue.cnt) % system.queue.size
  send_account :
    (system.queue.sendSem : Int) + system.queue.cnt + system.storing = system.queue.size
  receive_account : (system.queue.receiveSem : Int) + system.taking = system.queue.cnt

structure Fifo (system : FixqSystem α) (items : List α) : Prop where
  stores : system.queue.Stores items system.storing system.taking
  sent_eq : system.sent = system.received ++ items

theorem fifo_start {size : Nat} (positive : 0 < size) (buf : Nat → α) (threads : Nat) :
    Fifo (start buf size threads) [] where
  stores := by
    have noneStoring : (start buf size threads).storing = 0 := by
      simp only [storing, start, List.countP_replicate]
      rfl
    have noneTaking : (start buf size threads).taking = 0 := by
      simp only [taking, start, List.countP_replicate]
      rfl
    rw [noneStoring, noneTaking]
    exact Fixq.stores_fixqInit positive buf
  sent_eq := rfl

theorem setPhase_counts {system : FixqSystem α} {thread : Nat} {before : FixqPhase α}
    (found : system.threads[thread]? = some before) (after : FixqPhase α) :
    (system.setPhase thread after).storing + before.isStoring.toNat =
        system.storing + after.isStoring.toNat ∧
      (system.setPhase thread after).taking + before.isTaking.toNat =
        system.taking + after.isTaking.toNat :=
  ⟨countP_set found after _, countP_set found after _⟩

theorem fifo_setPhase {system : FixqSystem α} {items : List α} {thread : Nat}
    {before : FixqPhase α} {storing taking : Nat} (after : FixqPhase α)
    (found : system.threads[thread]? = some before)
    (stores : system.queue.Stores items storing taking)
    (sent : system.sent = system.received ++ items)
    (storing_eq : storing + before.isStoring.toNat =
      system.storing + after.isStoring.toNat)
    (taking_eq : taking + before.isTaking.toNat = system.taking + after.isTaking.toNat) :
    Fifo (system.setPhase thread after) items where
  stores := by
    obtain ⟨storingAfter, takingAfter⟩ := setPhase_counts found after
    have sameStoring : (system.setPhase thread after).storing = storing := by omega
    have sameTaking : (system.setPhase thread after).taking = taking := by omega
    rw [sameStoring, sameTaking]
    exact stores
  sent_eq := sent

theorem Fifo.acquire {system after : FixqSystem α} {items : List α} {thread : Nat}
    (fifo : Fifo system items) (stepped : system.step (.acquire thread) = some after) :
    Fifo after items := by
  simp only [step] at stepped
  split at stepped
  next msg found =>
    obtain ⟨queue, acquired, returned⟩ := Option.bind_eq_some_iff.mp stepped
    rw [← Option.some.inj returned]
    exact fifo_setPhase _ found (fifo.stores.acquireSend acquired) fifo.sent_eq rfl rfl
  next found =>
    obtain ⟨queue, acquired, returned⟩ := Option.bind_eq_some_iff.mp stepped
    rw [← Option.some.inj returned]
    exact fifo_setPhase _ found (fifo.stores.acquireReceive acquired) fifo.sent_eq rfl rfl
  next => cases stepped

theorem exists_storing {system : FixqSystem α} {thread : Nat} {msg : α}
    (found : system.threads[thread]? = some (.storing msg)) :
    ∃ others, system.storing = others + 1 :=
  Nat.exists_eq_add_one.mpr
    (List.countP_pos_iff.mpr ⟨_, List.mem_of_getElem? found, rfl⟩)

theorem exists_taking {system : FixqSystem α} {thread : Nat}
    (found : system.threads[thread]? = some .taking) :
    ∃ others, system.taking = others + 1 :=
  Nat.exists_eq_add_one.mpr
    (List.countP_pos_iff.mpr ⟨_, List.mem_of_getElem? found, rfl⟩)

theorem Fifo.update {system after : FixqSystem α} {items : List α} {thread : Nat}
    (fifo : Fifo system items) (stepped : system.step (.update thread) = some after) :
    ∃ items, Fifo after items := by
  simp only [step] at stepped
  split at stepped
  next msg found =>
    obtain ⟨others, storing⟩ := exists_storing found
    have stores := fifo.stores
    rw [storing] at stores
    rw [← Option.some.inj stepped]
    refine ⟨items ++ [msg], fifo_setPhase _ found (stores.store msg) ?_ storing.symm rfl⟩
    show system.sent ++ [msg] = system.received ++ (items ++ [msg])
    rw [fifo.sent_eq, List.append_assoc]
  next found =>
    obtain ⟨others, taking⟩ := exists_taking found
    have stores := fifo.stores
    rw [taking] at stores
    obtain ⟨msg, rest, rfl, taken, storesRest⟩ := stores.take
    rw [← Option.some.inj stepped]
    refine ⟨rest, fifo_setPhase _ found storesRest ?_ rfl taking.symm⟩
    show system.sent = system.received ++ [system.queue.take.1] ++ rest
    rw [fifo.sent_eq, taken, List.append_assoc, List.singleton_append]
  next => cases stepped

theorem Fifo.call {system after : FixqSystem α} {items : List α}
    {action : FixqAction α} (fifo : Fifo system items)
    (isCall : (∃ thread msg tmo, action = .send thread msg tmo) ∨
      ∃ thread tmo, action = .recv thread tmo)
    (stepped : system.step action = some after) : Fifo after items := by
  rcases isCall with ⟨thread, msg, tmo, rfl⟩ | ⟨thread, tmo, rfl⟩
  all_goals
    simp only [step] at stepped
    split at stepped
    next found =>
      split at stepped
      next =>
        rw [← Option.some.inj stepped]
        exact fifo
      next =>
        rw [← Option.some.inj stepped]
        exact fifo_setPhase _ found fifo.stores fifo.sent_eq rfl rfl
    next => cases stepped

theorem Fifo.step {system after : FixqSystem α} {action : FixqAction α}
    (fifo : ∃ items, Fifo system items) (stepped : system.step action = some after) :
    ∃ items, Fifo after items := by
  obtain ⟨items, fifo⟩ := fifo
  cases action with
  | send thread msg tmo =>
      exact ⟨items, fifo.call (.inl ⟨thread, msg, tmo, rfl⟩) stepped⟩
  | recv thread tmo =>
      exact ⟨items, fifo.call (.inr ⟨thread, tmo, rfl⟩) stepped⟩
  | acquire thread => exact ⟨items, fifo.acquire stepped⟩
  | update thread => exact fifo.update stepped

theorem Fifo.boundedFifo {system : FixqSystem α} {items : List α}
    (fifo : Fifo system items) : BoundedFifo system where
  received_prefix := ⟨items, fifo.sent_eq.symm⟩
  cnt_nonneg := by
    rw [fifo.stores.cnt_eq]
    exact Int.natCast_nonneg _
  cnt_le := by
    rw [fifo.stores.cnt_eq]
    exact Int.ofNat_le.mpr fifo.stores.holds.length_le
  stored := ⟨items, fifo.sent_eq, fifo.stores.cnt_eq, fifo.stores.holds⟩
  inPos_eq := by
    rw [fifo.stores.cnt_eq, fifo.stores.inPos_eq]
    norm_cast
  send_account := by
    rw [fifo.stores.cnt_eq]
    exact_mod_cast fifo.stores.sendSem_add
  receive_account := by
    rw [fifo.stores.cnt_eq]
    exact_mod_cast fifo.stores.receiveSem_add

/-- In every run of any number of threads the queue is a bounded queue that
neither loses, duplicates nor reorders a message. -/
theorem reaches_boundedFifo {size : Nat} (positive : 0 < size) (buf : Nat → α)
    (threads : Nat) {system : FixqSystem α}
    (reached : Reaches step (fun _ _ => True) (start buf size threads) system) :
    BoundedFifo system := by
  have fifo : ∃ items, Fifo system items :=
    reached.invariant (fun system => ∃ items, Fifo system items)
      ⟨[], fifo_start positive buf threads⟩ fun held _ stepped => Fifo.step held stepped
  obtain ⟨items, fifo⟩ := fifo
  exact fifo.boundedFifo

/-- Two senders and a receiver on a queue of one slot, with the second sender
waiting for the receiver. -/
theorem reaches_boundedFifo_one : ∃ system : FixqSystem Nat,
    Reaches step (fun _ _ => True) (start (fun _ => 0) 1 3) system ∧
      system.received = [7] ∧ system.sent = [7, 8] ∧ BoundedFifo system := by
  have executed : ∃ system,
      execute step (fun _ _ => True) (start (fun _ => 0) 1 3)
        [.send 0 7 0, .send 1 8 0, .acquire 0, .update 0, .recv 2 0, .acquire 2, .update 2,
          .acquire 1, .update 1] = some system ∧
        system.received = [7] ∧ system.sent = [7, 8] :=
    ⟨_, rfl, rfl, rfl⟩
  obtain ⟨system, executed, received, sent⟩ := executed
  have reached := Reaches.of_execute executed
  exact ⟨system, reached, received, sent, reaches_boundedFifo (by decide) _ 3 reached⟩

end FixqSystem

end CleanOS.Net
