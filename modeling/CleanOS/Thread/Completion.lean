import CleanOS.Lib.Calls
import Mathlib.Data.List.Basic
import Mathlib.Logic.Function.Basic

/-!
# Completions

`kernel/thread/schedule/completion.c`.  The calls are made with interrupts off, so that a call
runs up to `thread_block` or to its end in one step.  A waiter puts a node of its stack into
the list and blocks; the state `TASK_WAITING` is also left without a call on the completion,
when a child exits or when no other task is ready.
-/

namespace CleanOS.Thread

open CleanOS.Lib

/-- `swait_node`, with a number in place of its address. -/
structure SwaitNode where
  task : Nat
  tag : Nat
  deriving DecidableEq, Repr

/-- A call of `do_wait_for_common` that has blocked, and whether its task is ready again. -/
structure Waiter where
  node : SwaitNode
  timeout : Int
  ready : Bool
  deriving DecidableEq, Repr

/-- `completion`, the calls that wait, the number of the next node, and a record of the calls
made: how many of `complete`, whether one of `complete_all`, and how many waits returned. -/
structure Completion where
  done : UInt32
  wait : List SwaitNode
  waiters : Nat → Option Waiter
  nextTag : Nat
  completes : Nat
  allCompleted : Bool
  returned : Nat

/-- `0 - 1` as an unsigned number. -/
def doneAll : UInt32 := 0xffffffff

/-- `SCHEDULE_TIMEOUT_MAX`. -/
def scheduleTimeoutMax : Int := -1

/-- `schedule_timeout`. -/
def scheduleTimeout (timeout : Int) : Int :=
  if timeout = scheduleTimeoutMax then
    if timeout < 0 then 0 else timeout
  else timeout - 100

namespace Completion

/-- `init_completion`. -/
def initCompletion : Completion where
  done := 0
  wait := []
  waiters := fun _ => none
  nextTag := 0
  completes := 0
  allCompleted := false
  returned := 0

/-- The end of `do_wait_for_common` once the completion is done. -/
def takeDone (completion : Completion) : Completion :=
  { completion with
    done := if completion.done = doneAll then completion.done else completion.done - 1
    returned := completion.returned + 1 }

/-- `wait_for_completion` up to where it blocks or returns. -/
def waitForCompletion (completion : Completion) (task : Nat) : Completion :=
  if completion.done = 0 then
    let node : SwaitNode := { task := task, tag := completion.nextTag }
    { completion with
      wait := completion.wait ++ [node]
      waiters := Function.update completion.waiters task
        (some { node := node, timeout := scheduleTimeoutMax, ready := false })
      nextTag := completion.nextTag + 1 }
  else completion.takeDone

/-- The rest of the loop of `do_wait_for_common` for a task that runs again. -/
def resume (completion : Completion) (task : Nat) (waiter : Waiter) : Completion :=
  let timeout := scheduleTimeout waiter.timeout
  if completion.done = 0 ∧ timeout ≠ 0 then
    { completion with
      wait := completion.wait ++ [waiter.node]
      waiters := Function.update completion.waiters task
        (some { waiter with timeout := timeout, ready := false }) }
  else
    let left := { completion with waiters := Function.update completion.waiters task none }
    if left.done = 0 then { left with returned := left.returned + 1 } else left.takeDone

/-- `set_thread_status` of the task of a node that was taken off the list.  A node of a call
that has returned is no longer there. -/
def wakeNode (completion : Completion) (node : SwaitNode) : Option Completion :=
  match completion.waiters node.task with
  | some waiter =>
      if waiter.node = node then
        some { completion with
          waiters := Function.update completion.waiters node.task
            (some { waiter with ready := true }) }
      else none
  | none => none

/-- `complete`. -/
def complete (completion : Completion) : Option Completion :=
  let counted := { completion with
    done := if completion.done = doneAll then completion.done else completion.done + 1
    completes := completion.completes + 1 }
  match counted.wait with
  | [] => some counted
  | node :: wait => wakeNode { counted with wait := wait } node

/-- `complete_all`. -/
def completeAll (completion : Completion) : Option Completion :=
  completion.wait.foldlM wakeNode
    { completion with done := doneAll, wait := [], allCompleted := true }

end Completion

inductive CompletionEvent where
  /-- A task calls `wait_for_completion`. -/
  | wait (task : Nat)
  /-- A task that is ready runs on in `wait_for_completion`. -/
  | resume (task : Nat)
  /-- A waiting task is made ready by something else, such as the exit of a child. -/
  | wake (task : Nat)
  | complete
  | completeAll
  deriving DecidableEq, Repr

namespace Completion

def step (completion : Completion) : CompletionEvent → Option (Unit × Completion)
  | .wait task =>
      match completion.waiters task with
      | none => some ((), completion.waitForCompletion task)
      | some _ => none
  | .resume task =>
      match completion.waiters task with
      | some waiter =>
          if waiter.ready then some ((), completion.resume task waiter) else none
      | none => none
  | .wake task =>
      match completion.waiters task with
      | some waiter =>
          some ((), { completion with
            waiters := Function.update completion.waiters task
              (some { waiter with ready := true }) })
      | none => none
  | .complete => (completion.complete).map ((), ·)
  | .completeAll => (completion.completeAll).map ((), ·)

/-- No more waits returned than there were calls of `complete`, unless `complete_all` was
called, and no node of a wait that returned is in the list. -/
structure Accounted (completion : Completion) : Prop where
  counted : completion.allCompleted = false → completion.returned ≤ completion.completes
  linked : ∀ node ∈ completion.wait, ∃ waiter,
    completion.waiters node.task = some waiter ∧ waiter.node = node

/-- A waiter runs on only after its node was taken off the list, while `done` is not used up,
and `complete` does not count up to the mark of `complete_all`. -/
def Served (completion : Completion) : CompletionEvent → Prop
  | .resume task => ∀ waiter, completion.waiters task = some waiter →
      waiter.node ∉ completion.wait ∧ completion.done ≠ 0
  | .complete => completion.done + 1 ≠ doneAll
  | _ => True

/-- `done` is the number of the calls of `complete` that no wait has used up. -/
structure Balanced (completion : Completion) : Prop where
  counting : completion.allCompleted = false →
    completion.returned + completion.done.toNat = completion.completes ∧
      completion.done ≠ doneAll
  marked : completion.allCompleted = true → completion.done = doneAll
  linked : ∀ node ∈ completion.wait, ∃ waiter,
    completion.waiters node.task = some waiter ∧ waiter.node = node
  waiting : ∀ task waiter, completion.waiters task = some waiter →
    waiter.node.task = task ∧ waiter.timeout = scheduleTimeoutMax

theorem Balanced.accounted {completion : Completion} (balanced : completion.Balanced) :
    completion.Accounted where
  counted := by
    intro notAll
    have counting := (balanced.counting notAll).1
    omega
  linked := balanced.linked

theorem balanced_initCompletion : initCompletion.Balanced where
  counting := fun _ => ⟨rfl, by decide⟩
  marked := by
    intro isAll
    cases isAll
  linked := fun _ inside => absurd inside List.not_mem_nil
  waiting := by
    intro task waiter found
    cases found

theorem toNat_sub_one {done : UInt32} (positive : done ≠ 0) :
    (done - 1).toNat + 1 = done.toNat := by
  have notZero : done.toNat ≠ 0 := fun isZero => positive (UInt32.toNat_inj.mp isZero)
  rw [UInt32.toNat_sub_of_le]
  · show done.toNat - 1 + 1 = done.toNat
    omega
  · rw [UInt32.le_iff_toNat_le]
    show 1 ≤ done.toNat
    omega

theorem Balanced.takeDone {completion : Completion} (balanced : completion.Balanced)
    (isDone : completion.done ≠ 0) : completion.takeDone.Balanced where
  counting := by
    intro notAll
    obtain ⟨counting, notMark⟩ := balanced.counting notAll
    have less := toNat_sub_one isDone
    have below := completion.done.toNat_lt
    dsimp only [Completion.takeDone]
    rw [if_neg notMark]
    refine ⟨by omega, fun isMark => ?_⟩
    rw [isMark] at less
    have mark : doneAll.toNat = 4294967295 := rfl
    omega
  marked := by
    intro isAll
    have isMark := balanced.marked isAll
    dsimp only [Completion.takeDone]
    rw [if_pos isMark, isMark]
  linked := balanced.linked
  waiting := balanced.waiting

theorem Balanced.wait {completion : Completion} (balanced : completion.Balanced) {task : Nat}
    (notWaiting : completion.waiters task = none) :
    (completion.waitForCompletion task).Balanced := by
  unfold waitForCompletion
  split
  next notDone =>
    refine ⟨balanced.counting, balanced.marked, fun node inside => ?_, fun other waiter found => ?_⟩
    · rcases List.mem_append.mp inside with old | new
      · obtain ⟨waiter, found, same⟩ := balanced.linked node old
        have different : node.task ≠ task := by
          rintro rfl
          rw [notWaiting] at found
          cases found
        exact ⟨waiter, (Function.update_of_ne different _ _).trans found, same⟩
      · rw [List.mem_singleton.mp new]
        exact ⟨_, Function.update_self _ _ _, rfl⟩
    · rcases eq_or_ne other task with rfl | different
      · cases (Function.update_self other _ _).symm.trans found
        exact ⟨rfl, rfl⟩
      · exact balanced.waiting other waiter
          ((Function.update_of_ne different _ _).symm.trans found)
  next isDone => exact balanced.takeDone isDone

theorem Balanced.resume {completion : Completion} (balanced : completion.Balanced) {task : Nat}
    {waiter : Waiter} (found : completion.waiters task = some waiter)
    (unlinked : waiter.node ∉ completion.wait) (isDone : completion.done ≠ 0) :
    (completion.resume task waiter).Balanced := by
  have left : ({ completion with
      waiters := Function.update completion.waiters task none } : Completion).Balanced := by
    refine ⟨balanced.counting, balanced.marked, fun node inside => ?_, fun other left stays => ?_⟩
    · obtain ⟨other, otherFound, same⟩ := balanced.linked node inside
      have different : node.task ≠ task := by
        rintro rfl
        rw [found] at otherFound
        cases otherFound
        exact unlinked (same ▸ inside)
      exact ⟨other, (Function.update_of_ne different _ _).trans otherFound, same⟩
    · rcases eq_or_ne other task with rfl | different
      · cases (Function.update_self other _ _).symm.trans stays
      · exact balanced.waiting other left
          ((Function.update_of_ne different _ _).symm.trans stays)
  unfold Completion.resume
  dsimp only
  rw [if_neg fun again => isDone again.1, if_neg isDone]
  exact left.takeDone isDone

/-- A wait that runs on always returns, and it is accounted for exactly if its node was taken off
the list and `done` is not used up. -/
theorem Balanced.accounted_resume_iff {completion : Completion} (balanced : completion.Balanced)
    {task : Nat} {waiter : Waiter} (found : completion.waiters task = some waiter) :
    (completion.resume task waiter).Accounted ↔
      waiter.node ∉ completion.wait ∧ completion.done ≠ 0 := by
  constructor
  · intro accounted
    obtain ⟨ownTask, isMax⟩ := balanced.waiting task waiter found
    have expires : scheduleTimeout waiter.timeout = 0 := by
      rw [isMax]
      rfl
    unfold Completion.resume at accounted
    dsimp only at accounted
    rw [if_neg fun again => again.2 expires] at accounted
    constructor
    · intro linked
      have stillWaiting : ∃ other,
          Function.update completion.waiters task none waiter.node.task = some other ∧
            other.node = waiter.node := by
        split at accounted
        next => exact accounted.linked waiter.node linked
        next => exact accounted.linked waiter.node linked
      obtain ⟨other, stays, _⟩ := stillWaiting
      rw [ownTask, Function.update_self] at stays
      cases stays
    · intro usedUp
      rw [if_pos usedUp] at accounted
      cases isAll : completion.allCompleted with
      | true =>
          rw [balanced.marked isAll] at usedUp
          cases usedUp
      | false =>
          have balance := (balanced.counting isAll).1
          have counted : completion.returned + 1 ≤ completion.completes := accounted.counted isAll
          rw [usedUp] at balance
          have zero : (0 : UInt32).toNat = 0 := rfl
          omega
  · intro served
    exact (balanced.resume found served.1 served.2).accounted

theorem accounted_resume_waiting : ¬ ((initCompletion.waitForCompletion 5).resume 5
    ⟨⟨5, 0⟩, scheduleTimeoutMax, false⟩).Accounted := by
  rw [Balanced.accounted_resume_iff (balanced_initCompletion.wait rfl) rfl]
  exact fun served => served.2 rfl

theorem Balanced.ready {completion : Completion} (balanced : completion.Balanced) {task : Nat}
    {waiter : Waiter} (found : completion.waiters task = some waiter) :
    ({ completion with
      waiters := Function.update completion.waiters task
        (some { waiter with ready := true }) } : Completion).Balanced := by
  refine ⟨balanced.counting, balanced.marked, fun node inside => ?_, fun other woken stays => ?_⟩
  · obtain ⟨other, otherFound, same⟩ := balanced.linked node inside
    rcases eq_or_ne node.task task with rfl | different
    · rw [found] at otherFound
      cases otherFound
      exact ⟨_, Function.update_self _ _ _, same⟩
    · exact ⟨other, (Function.update_of_ne different _ _).trans otherFound, same⟩
  · rcases eq_or_ne other task with rfl | different
    · cases (Function.update_self other _ _).symm.trans stays
      exact balanced.waiting other waiter found
    · exact balanced.waiting other woken ((Function.update_of_ne different _ _).symm.trans stays)

theorem Balanced.wakeNode {completion after : Completion} (balanced : completion.Balanced)
    {node : SwaitNode} (woken : completion.wakeNode node = some after) : after.Balanced := by
  unfold Completion.wakeNode at woken
  split at woken
  next waiter found =>
    split at woken
    next =>
      cases woken
      exact balanced.ready found
    next => cases woken
  next => cases woken

theorem Balanced.complete {completion after : Completion} (balanced : completion.Balanced)
    (below : completion.done + 1 ≠ doneAll) (completed : completion.complete = some after) :
    after.Balanced := by
  have counted (wait : List SwaitNode) (suffix : wait <:+ completion.wait) :
      ({ completion with
        done := if completion.done = doneAll then completion.done else completion.done + 1
        wait := wait
        completes := completion.completes + 1 } : Completion).Balanced := by
    refine ⟨fun notAll => ?_, fun isAll => ?_, fun node inside => ?_, balanced.waiting⟩
    · obtain ⟨counting, notMark⟩ := balanced.counting notAll
      dsimp only
      rw [if_neg notMark]
      refine ⟨?_, below⟩
      have notLast : completion.done.toNat ≠ 4294967295 := fun isLast =>
        notMark (UInt32.toNat_inj.mp isLast)
      have small := completion.done.toNat_lt
      have more : (completion.done + 1).toNat = completion.done.toNat + 1 := by
        rw [UInt32.toNat_add]
        exact Nat.mod_eq_of_lt (by show completion.done.toNat + 1 < _; omega)
      omega
    · have isMark := balanced.marked isAll
      dsimp only
      rw [if_pos isMark, isMark]
    · exact balanced.linked node (suffix.subset inside)
  unfold Completion.complete at completed
  dsimp only at completed
  split at completed
  next isEmpty =>
    cases completed
    exact counted completion.wait List.suffix_rfl
  next node wait isCons =>
    refine (counted wait ?_).wakeNode completed
    rw [isCons]
    exact List.suffix_cons node wait

theorem Balanced.foldlM_wakeNode (nodes : List SwaitNode) {completion after : Completion}
    (balanced : completion.Balanced) (woken : nodes.foldlM Completion.wakeNode completion = some after) :
    after.Balanced := by
  induction nodes generalizing completion with
  | nil =>
      cases woken
      exact balanced
  | cons node nodes ih =>
      rw [List.foldlM_cons] at woken
      obtain ⟨between, first, rest⟩ := Option.bind_eq_some_iff.mp woken
      exact ih (balanced.wakeNode first) rest

theorem Balanced.completeAll {completion after : Completion} (balanced : completion.Balanced)
    (completed : completion.completeAll = some after) : after.Balanced := by
  refine Balanced.foldlM_wakeNode completion.wait ?_ completed
  refine ⟨fun notAll => ?_, fun _ => rfl, fun _ inside => absurd inside List.not_mem_nil,
    balanced.waiting⟩
  cases notAll

theorem Balanced.step {completion after : Completion} {event : CompletionEvent}
    (balanced : completion.Balanced) (served : completion.Served event)
    (stepped : completion.step event = some ((), after)) : after.Balanced := by
  cases event with
  | wait task =>
      dsimp only [Completion.step] at stepped
      split at stepped
      next notWaiting =>
        cases stepped
        exact balanced.wait notWaiting
      next => cases stepped
  | resume task =>
      dsimp only [Completion.step] at stepped
      split at stepped
      next waiter found =>
        split at stepped
        next =>
          cases stepped
          obtain ⟨unlinked, isDone⟩ := served waiter found
          exact balanced.resume found unlinked isDone
        next => cases stepped
      next => cases stepped
  | wake task =>
      dsimp only [Completion.step] at stepped
      split at stepped
      next waiter found =>
        cases stepped
        exact balanced.ready found
      next => cases stepped
  | complete =>
      obtain ⟨_, completed, same⟩ := Option.map_eq_some_iff.mp stepped
      cases same
      exact balanced.complete served completed
  | completeAll =>
      obtain ⟨_, completed, same⟩ := Option.map_eq_some_iff.mp stepped
      cases same
      exact balanced.completeAll completed

/-- In every sequence of events in which a waiter runs on only after its node was taken off the
list and while `done` is not used up, every wait that returns is accounted for. -/
theorem accounted_of_served (events : List CompletionEvent)
    (served : AllGuarded step Served initCompletion events) :
    AllGood step Accounted initCompletion events := by
  have balanced : AllGood step Balanced initCompletion events :=
    allGood_of_allGuarded (fun balanced served stepped => balanced.step served stepped) events
      balanced_initCompletion served
  exact balanced.mono Balanced.accounted events

/-- A wait, a call of `complete`, and the rest of the wait. -/
theorem accounted_of_one_complete :
    AllGood step Accounted initCompletion [.wait 1, .complete, .resume 1] := by
  refine accounted_of_served [.wait 1, .complete, .resume 1]
    ⟨trivial, fun _ _ waits => ⟨?_, fun _ _ completes => ⟨?_, fun _ _ _ => trivial⟩⟩⟩
  · cases waits
    exact (by decide : (0 : UInt32) + 1 ≠ doneAll)
  · cases waits
    cases completes
    rintro waiter ⟨⟩
    decide

/-- A waiter is made ready by the exit of a child and returns without any call of `complete`,
leaving its node in the list. -/
theorem wake_returns_unaccounted :
    ∃ completion, runAll step initCompletion [.wait 1, .wake 1, .resume 1] = some completion ∧
      completion.returned = 1 ∧ completion.completes = 0 ∧ completion.allCompleted = false ∧
      completion.wait = [{ task := 1, tag := 0 }] ∧ completion.waiters 1 = none ∧
      ¬ completion.Accounted := by
  refine ⟨_, rfl, rfl, rfl, rfl, rfl, rfl, fun accounted => ?_⟩
  exact absurd (accounted.counted rfl) (by decide)

end Completion

end CleanOS.Thread
