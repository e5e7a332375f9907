import CleanOS.Lib.Ring
import Mathlib.Tactic.SplitIfs

/-!
# Blocking queues

`common/lib/block_queue.c`.  A queue is a ring of 1024 slots of which one stays free.  The
caller's thread number is an argument of `queue_get` and `queue_put`, since the functions
behind `wait` and `wakeup` store it in the queue.  Each of the two is one pass of its loop: a
caller that waits makes another pass once it is woken.
-/

namespace CleanOS.Common

open CleanOS.Lib

/-- `queue_buf_size`. -/
def queueBufSize : Nat := 1024

/-- `block_queue`, where `wait` and `wakeup` say whether the functions are given. -/
structure BlockQueue (α : Type) where
  producer : Nat
  consumer : Nat
  wait : Bool
  wakeup : Bool
  buf : Nat → α
  head : Nat
  tail : Nat

/-- `next_pos`. -/
def nextPos (pos : Nat) : Nat :=
  (pos + 1) % queueBufSize

theorem ring_next_eq_nextPos {pos : Nat} (inside : pos < queueBufSize) :
    Ring.next queueBufSize pos = nextPos pos :=
  Ring.next_eq_mod inside

namespace BlockQueue

variable {α : Type}

/-- `init_queue`. -/
def initQueue (buf : Nat → α) (wait wakeup : Bool) : BlockQueue α where
  producer := 0
  consumer := 0
  wait := wait
  wakeup := wakeup
  buf := buf
  head := 0
  tail := 0

/-- `queue_full`. -/
def queueFull (queue : BlockQueue α) : Bool :=
  nextPos queue.head = queue.tail

/-- `queue_empty`. -/
def queueEmpty (queue : BlockQueue α) : Bool :=
  queue.head = queue.tail

/-- `queue_len`. -/
def queueLen (queue : BlockQueue α) : Nat :=
  if queue.tail ≤ queue.head then queue.head - queue.tail
  else queueBufSize - (queue.tail - queue.head)

/-- `queue_get`: nothing when the caller has to wait, and otherwise a value or `NULL`. -/
def queueGet (pid : Nat) (queue : BlockQueue α) : Option (Option α) × BlockQueue α :=
  if queue.queueEmpty && queue.wait then (none, { queue with consumer := pid })
  else if queue.queueEmpty then (some none, queue)
  else
    (some (some (queue.buf queue.tail)),
      { queue with
        tail := nextPos queue.tail
        producer := if queue.producer ≠ 0 && queue.wakeup then 0 else queue.producer })

/-- `queue_put`: whether the value is stored, which it is not when the caller has to wait. -/
def queuePut (pid : Nat) (queue : BlockQueue α) (value : α) : Bool × BlockQueue α :=
  if queue.queueFull && queue.wait then (false, { queue with producer := pid })
  else
    (true,
      { queue with
        buf := Function.update queue.buf queue.head value
        head := nextPos queue.head
        consumer := if queue.consumer ≠ 0 && queue.wakeup then 0 else queue.consumer })

theorem queueGet_wait (queue : BlockQueue α) (pid : Nat) :
    (queue.queueGet pid).2.wait = queue.wait := by
  unfold queueGet
  split_ifs <;> rfl

theorem queuePut_wait (queue : BlockQueue α) (pid : Nat) (value : α) :
    (queue.queuePut pid value).2.wait = queue.wait := by
  unfold queuePut
  split_ifs <;> rfl

def contents (queue : BlockQueue α) : List α :=
  (List.range queue.queueLen).map fun offset =>
    queue.buf ((queue.tail + offset) % queueBufSize)

/-- The queue stores these values, in order. -/
structure Stores (queue : BlockQueue α) (items : List α) : Prop where
  holds : Ring.Holds queueBufSize queue.buf queue.tail items
  length_lt : items.length < queueBufSize
  head_eq : queue.head = (queue.tail + items.length) % queueBufSize

theorem stores_initQueue (buf : Nat → α) (wait wakeup : Bool) :
    Stores (initQueue buf wait wakeup) [] where
  holds := .nil (Nat.zero_lt_succ 1023)
  length_lt := Nat.zero_lt_succ 1023
  head_eq := rfl

namespace Stores

variable {queue : BlockQueue α} {items : List α}

theorem head_cases (stores : queue.Stores items) :
    queue.head = queue.tail + items.length ∧ queue.tail + items.length < queueBufSize ∨
      queue.head + queueBufSize = queue.tail + items.length := by
  have tailInside := stores.holds.start_lt
  have short := stores.length_lt
  have head := stores.head_eq
  rcases Nat.lt_or_ge (queue.tail + items.length) queueBufSize with inside | wraps
  · rw [Nat.mod_eq_of_lt inside] at head
    exact .inl ⟨head, inside⟩
  · rw [Nat.mod_eq_sub_mod wraps, Nat.mod_eq_of_lt (by omega)] at head
    exact .inr (by omega)

theorem queueLen_eq (stores : queue.Stores items) : queue.queueLen = items.length := by
  have tailInside := stores.holds.start_lt
  have short := stores.length_lt
  have cases := stores.head_cases
  unfold queueLen
  split <;> omega

theorem queueEmpty_iff (stores : queue.Stores items) : queue.queueEmpty = true ↔ items = [] := by
  have tailInside := stores.holds.start_lt
  have short := stores.length_lt
  have cases := stores.head_cases
  rw [queueEmpty, decide_eq_true_iff, ← List.length_eq_zero_iff]
  omega

theorem queueFull_iff (stores : queue.Stores items) :
    queue.queueFull = true ↔ items.length + 1 = queueBufSize := by
  have tailInside := stores.holds.start_lt
  have short := stores.length_lt
  have cases := stores.head_cases
  rw [queueFull, decide_eq_true_iff, nextPos]
  rw [queueBufSize] at *
  omega

theorem contents_eq (stores : queue.Stores items) : queue.contents = items := by
  apply List.ext_getElem?
  intro offset
  rw [contents, stores.queueLen_eq, List.getElem?_map]
  rcases Nat.lt_or_ge offset items.length with inside | outside
  · rw [List.getElem?_range inside, Option.map_some, List.getElem?_eq_getElem inside]
    exact congrArg some
      (stores.holds.slot offset items[offset] (List.getElem?_eq_getElem inside))
  · rw [List.getElem?_eq_none (by rwa [List.length_range]), List.getElem?_eq_none outside,
      Option.map_none]

theorem put (stores : queue.Stores items) (notFull : queue.queueFull = false) (pid : Nat)
    (value : α) : queue.queuePut pid value = (true, (queue.queuePut pid value).2) ∧
      (queue.queuePut pid value).2.Stores (items ++ [value]) := by
  have short := stores.length_lt
  have notLast : items.length + 1 ≠ queueBufSize := by
    intro last
    rw [stores.queueFull_iff.mpr last] at notFull
    cases notFull
  rw [queuePut, notFull, Bool.false_and, if_neg Bool.false_ne_true]
  refine ⟨rfl, ?_, ?_, ?_⟩
  · have pushed := stores.holds.push short value
    rwa [← stores.head_eq] at pushed
  · rw [List.length_append, List.length_singleton]
    omega
  · show nextPos queue.head = _
    rw [nextPos, stores.head_eq, Nat.mod_add_mod, List.length_append, List.length_singleton,
      Nat.add_assoc]

theorem get {first : α} (stores : queue.Stores (first :: items)) (pid : Nat) :
    (queue.queueGet pid).1 = some (some first) ∧ (queue.queueGet pid).2.Stores items := by
  have notEmpty : queue.queueEmpty = false := by
    rw [← Bool.not_eq_true, stores.queueEmpty_iff]
    exact List.cons_ne_nil first items
  have tailInside := stores.holds.start_lt
  have short := stores.length_lt
  rw [List.length_cons] at short
  rw [queueGet, notEmpty, Bool.false_and, if_neg Bool.false_ne_true, if_neg Bool.false_ne_true]
  refine ⟨?_, ?_, Nat.lt_of_succ_lt short, ?_⟩
  · exact congrArg (fun value => some (some value)) stores.holds.first
  · have popped := stores.holds.pop
    rwa [ring_next_eq_nextPos tailInside] at popped
  · show queue.head = _
    rw [stores.head_eq, List.length_cons, nextPos, Nat.mod_add_mod]
    congr 1
    omega

theorem get_nil (stores : queue.Stores ([] : List α)) (waits : queue.wait = true) (pid : Nat) :
    queue.queueGet pid = (none, { queue with consumer := pid }) := by
  rw [queueGet, stores.queueEmpty_iff.mpr rfl, waits, Bool.true_and, if_pos rfl]

end Stores

/-- A pass of `queue_put` or `queue_get` by a thread. -/
inductive QueueStep (α : Type) where
  | put (pid : Nat) (value : α)
  | get (pid : Nat)

/-- A queue with the values put so far and the answers of the gets that did not wait, where no
value is `NULL`. -/
structure QueueRun (α : Type) where
  queue : BlockQueue α
  put : List α
  obtained : List (Option α)

def QueueRun.step (run : QueueRun α) : QueueStep α → QueueRun α
  | .put pid value =>
      let (stored, queue) := run.queue.queuePut pid value
      { run with queue := queue, put := if stored then run.put ++ [value] else run.put }
  | .get pid =>
      let (answer, queue) := run.queue.queueGet pid
      { run with queue := queue, obtained := run.obtained ++ answer.toList }

def runQueue (buf : Nat → α) (steps : List (QueueStep α)) : QueueRun α :=
  steps.foldl QueueRun.step ⟨initQueue buf true true, [], []⟩

structure QueueRun.Fifo (run : QueueRun α) (items : List α) : Prop where
  stores : run.queue.Stores items
  waits : run.queue.wait = true
  put_eq : run.put.map some = run.obtained ++ items.map some

theorem queuePut_full {queue : BlockQueue α} (full : queue.queueFull = true)
    (waits : queue.wait = true) (pid : Nat) (value : α) :
    queue.queuePut pid value = (false, { queue with producer := pid }) := by
  rw [queuePut, full, waits, Bool.true_and, if_pos rfl]

theorem Stores.waiting {queue : BlockQueue α} {items : List α} (stores : queue.Stores items)
    (consumer producer : Nat) :
    { queue with consumer := consumer, producer := producer }.Stores items :=
  ⟨stores.holds, stores.length_lt, stores.head_eq⟩

namespace QueueRun.Fifo

variable {run : QueueRun α} {items : List α}

theorem step_put (fifo : run.Fifo items) (pid : Nat) (value : α) :
    ∃ after, (run.step (.put pid value)).Fifo after := by
  cases full : run.queue.queueFull with
  | true =>
      have waited := queuePut_full full fifo.waits pid value
      simp only [QueueRun.step, waited, Bool.false_eq_true, if_false]
      exact ⟨items, fifo.stores.waiting run.queue.consumer pid, fifo.waits, fifo.put_eq⟩
  | false =>
      obtain ⟨done, stores⟩ := fifo.stores.put full pid value
      have waits := (queuePut_wait run.queue pid value).trans fifo.waits
      have stored : (run.queue.queuePut pid value).1 = true := congrArg Prod.fst done
      refine ⟨items ++ [value], stores, waits, ?_⟩
      simp only [QueueRun.step, stored, if_true, List.map_append, fifo.put_eq, List.append_assoc]

theorem step_get (fifo : run.Fifo items) (pid : Nat) :
    ∃ after, (run.step (.get pid)).Fifo after := by
  cases items with
  | nil =>
      have waited := fifo.stores.get_nil fifo.waits pid
      simp only [QueueRun.step, waited, Option.toList_none, List.append_nil]
      exact ⟨[], fifo.stores.waiting pid run.queue.producer, fifo.waits, fifo.put_eq⟩
  | cons first rest =>
      obtain ⟨answer, stores⟩ := fifo.stores.get pid
      have waits : (run.queue.queueGet pid).2.wait = true :=
        (queueGet_wait run.queue pid).trans fifo.waits
      refine ⟨rest, stores, waits, ?_⟩
      simp only [QueueRun.step, answer, fifo.put_eq, Option.toList_some, List.map_cons,
        List.append_assoc, List.singleton_append]

theorem step (fifo : run.Fifo items) (pass : QueueStep α) : ∃ after, (run.step pass).Fifo after := by
  cases pass with
  | put pid value => exact fifo.step_put pid value
  | get pid => exact fifo.step_get pid

theorem steps (fifo : run.Fifo items) (passes : List (QueueStep α)) :
    ∃ after, (passes.foldl QueueRun.step run).Fifo after := by
  induction passes generalizing run items with
  | nil => exact ⟨items, fifo⟩
  | cons pass passes ih =>
      obtain ⟨next, nextFifo⟩ := fifo.step pass
      exact ih nextFifo

end QueueRun.Fifo

theorem runQueue_holds (buf : Nat → α) (steps : List (QueueStep α)) :
    ∃ items, (runQueue buf steps).Fifo items :=
  QueueRun.Fifo.steps ⟨stores_initQueue buf true true, rfl, rfl⟩ steps

/-- After any passes the values obtained are the first values put, the others are stored in
order, and the queue knows how many they are.  A pass waits only at a full or an empty queue, and
then changes neither the values nor the indices. -/
theorem runQueue_fifo (buf : Nat → α) (steps : List (QueueStep α)) :
    let run := runQueue buf steps
    run.obtained <+: run.put.map some ∧
      run.put.map some = run.obtained ++ run.queue.contents.map some ∧
      run.put.length = run.obtained.length + run.queue.queueLen ∧
      run.queue.queueLen ≤ queueBufSize - 1 ∧
      (run.queue.queueEmpty = true ↔ run.queue.queueLen = 0) ∧
      (run.queue.queueFull = true ↔ run.queue.queueLen = queueBufSize - 1) ∧
      run.queue.head < queueBufSize ∧ run.queue.tail < queueBufSize ∧
      (∀ pid value, if run.queue.queueFull
        then run.queue.queuePut pid value = (false, { run.queue with producer := pid })
        else (run.queue.queuePut pid value).1 = true) ∧
      ∀ pid, if run.queue.queueEmpty
        then run.queue.queueGet pid = (none, { run.queue with consumer := pid })
        else (run.queue.queueGet pid).1.isSome = true := by
  intro run
  obtain ⟨items, fifo⟩ := runQueue_holds buf steps
  have contents := fifo.stores.contents_eq
  have length := fifo.stores.queueLen_eq
  have short := fifo.stores.length_lt
  have counted := congrArg List.length fifo.put_eq
  rw [List.length_map, List.length_append, List.length_map, ← length] at counted
  refine ⟨⟨items.map some, fifo.put_eq.symm⟩, ?_, counted, ?_, ?_, ?_, ?_,
    fifo.stores.holds.start_lt, ?_, ?_⟩
  · rw [contents]
    exact fifo.put_eq
  · rw [length]
    exact Nat.le_pred_of_lt short
  · rw [fifo.stores.queueEmpty_iff, length, List.length_eq_zero_iff]
  · rw [fifo.stores.queueFull_iff, length, queueBufSize]
    omega
  · rw [fifo.stores.head_eq]
    exact Nat.mod_lt _ (Nat.succ_pos 1023)
  · intro pid value
    split
    · next full => exact queuePut_full full fifo.waits pid value
    · next notFull =>
        exact congrArg Prod.fst (fifo.stores.put (Bool.eq_false_iff.mpr notFull) pid value).1
  · intro pid
    split
    · next empty =>
        have none := fifo.stores.queueEmpty_iff.mp empty
        subst none
        exact fifo.stores.get_nil fifo.waits pid
    · next notEmpty =>
        cases items with
        | nil => exact absurd (fifo.stores.queueEmpty_iff.mpr rfl) notEmpty
        | cons first rest => rw [(fifo.stores.get pid).1, Option.isSome_some]

end BlockQueue

end CleanOS.Common
