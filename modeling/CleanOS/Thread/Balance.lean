import CleanOS.Thread.Queues

/-!
# Which tasks are queued

The invariant of the scheduler over sequences of tasks.  `Balanced` relates
membership in the ready and sleeping tasks to the recorded status; it leaves the
running task open, because a running task that has just blocked or gone to sleep
is in transit until `schedule` has replaced it.  `Settled` is the state between
two steps.
-/

namespace CleanOS.Thread

open CleanOS.Lib CleanOS.Common

/-- The two states of a task that wants the processor.  A fresh fork child
carries the `running` of its parent. -/
def Runnable (status : TaskStatus) : Prop :=
  status = .ready ∨ status = .running

instance (status : TaskStatus) : Decidable (Runnable status) :=
  inferInstanceAs (Decidable (_ ∨ _))

namespace Queues

def status (queues : Queues) (task : TaskId) : TaskStatus :=
  (queues.task task).status

/-- Membership in the lists follows the status of every task but the running
one. -/
structure Balanced (idle : TaskId) (queues : Queues) : Prop where
  curAlive : queues.cur ∈ queues.all
  readyAlive : ∀ task ∈ queues.ready, task ∈ queues.all
  sleepAlive : ∀ task ∈ queues.sleep, task ∈ queues.all
  sleepIff : ∀ task ∈ queues.all,
    (task ∈ queues.sleep ↔ queues.status task = .sleep)
  readyIff : ∀ task ∈ queues.all, task ≠ queues.cur →
    (task ∈ queues.ready ↔ Runnable (queues.status task))
  idleRunnable : idle ∈ queues.all → Runnable (queues.status idle)

/-- Between two steps the running task is runnable and not queued. -/
structure Settled (idle : TaskId) (queues : Queues) : Prop
    extends Balanced idle queues where
  curNotReady : queues.cur ∉ queues.ready
  curRunnable : Runnable (queues.status queues.cur)

/-- A running task that calls `schedule`: it is not ready, asleep only at the
end of the sleepers, and may have stopped only if the idle thread can take
over. -/
structure Departing (idle : TaskId) (queues : Queues) : Prop
    extends Balanced idle queues where
  curNotReady : queues.cur ∉ queues.ready
  curSleepsLast : queues.cur ∈ queues.sleep →
    ∃ front, queues.sleep = front ++ [queues.cur]
  takeover : ¬ Runnable (queues.status queues.cur) →
    idle ∈ queues.all ∧ queues.cur ≠ idle

/-- A running task on its way through `schedule`, after the expired sleepers
have been woken. -/
structure Choosing (idle : TaskId) (queues : Queues) : Prop
    extends Balanced idle queues where
  curOnlyFirst : queues.cur ∉ queues.ready.tail
  curReady : queues.cur ∈ queues.ready → queues.status queues.cur = .ready
  takeover : ¬ Runnable (queues.status queues.cur) →
    idle ∈ queues.all ∧ queues.cur ≠ idle

variable {idle : TaskId} {queues : Queues}

theorem not_runnable_sleep {status : TaskStatus} (asleep : status = .sleep) :
    ¬ Runnable status := by
  simp [Runnable, asleep]

theorem Balanced.curAwake (balanced : Balanced idle queues)
    (runnable : Runnable (queues.status queues.cur)) :
    queues.cur ∉ queues.sleep := by
  intro asleep
  exact not_runnable_sleep ((balanced.sleepIff _ balanced.curAlive).mp asleep)
    runnable

theorem Settled.departing (settled : Settled idle queues) :
    Departing idle queues where
  toBalanced := settled.toBalanced
  curNotReady := settled.curNotReady
  curSleepsLast := fun asleep =>
    absurd asleep (settled.curAwake settled.curRunnable)
  takeover := fun stopped => absurd settled.curRunnable stopped

theorem Balanced.withTask {records : TaskId → Task}
    (balanced : Balanced idle queues)
    (sameStatus : ∀ task ∈ queues.all,
      (records task).status = queues.status task) :
    Balanced idle { queues with task := records } where
  curAlive := balanced.curAlive
  readyAlive := balanced.readyAlive
  sleepAlive := balanced.sleepAlive
  sleepIff := by
    intro task alive
    simpa only [status, sameStatus task alive] using balanced.sleepIff task alive
  readyIff := by
    intro task alive different
    simpa only [status, sameStatus task alive] using
      balanced.readyIff task alive different
  idleRunnable := by
    intro alive
    simpa only [status, sameStatus idle alive] using balanced.idleRunnable alive

theorem Settled.withTask {records : TaskId → Task}
    (settled : Settled idle queues)
    (sameStatus : ∀ task ∈ queues.all,
      (records task).status = queues.status task) :
    Settled idle { queues with task := records } where
  toBalanced := settled.toBalanced.withTask sameStatus
  curNotReady := settled.curNotReady
  curRunnable := by
    simpa only [status, sameStatus _ settled.curAlive] using settled.curRunnable

theorem status_modifyTask_self (task : TaskId) (change : Task → Task) :
    (queues.modifyTask task change).status task =
      (change (queues.task task)).status := by
  simp [status, modifyTask]

theorem status_modifyTask_of_ne {task other : TaskId} (change : Task → Task)
    (different : other ≠ task) :
    (queues.modifyTask task change).status other = queues.status other := by
  simp [status, modifyTask, different]

theorem Settled.modifyTask {task : TaskId} {change : Task → Task}
    (settled : Settled idle queues)
    (sameStatus : (change (queues.task task)).status = queues.status task) :
    Settled idle (queues.modifyTask task change) := by
  refine settled.withTask ?_
  intro other _
  by_cases same : other = task
  · subst same
    simpa using sameStatus
  · simp [same, status]

theorem Balanced.modifyCur {sleepers : List TaskId} {change : Task → Task}
    (balanced : Balanced idle queues)
    (others : ∀ task, task ≠ queues.cur → (task ∈ sleepers ↔ task ∈ queues.sleep))
    (curSleeps : queues.cur ∈ sleepers ↔
      (change (queues.task queues.cur)).status = .sleep)
    (curIdle : queues.cur = idle →
      Runnable (change (queues.task queues.cur)).status) :
    Balanced idle
      (Queues.modifyTask { queues with sleep := sleepers } queues.cur change) where
  curAlive := balanced.curAlive
  readyAlive := balanced.readyAlive
  sleepAlive := by
    intro task member
    by_cases isCur : task = queues.cur
    · exact isCur ▸ balanced.curAlive
    · exact balanced.sleepAlive task ((others task isCur).mp member)
  sleepIff := by
    intro task alive
    by_cases isCur : task = queues.cur
    · subst isCur
      rw [status_modifyTask_self]
      exact curSleeps
    · rw [status_modifyTask_of_ne _ isCur]
      exact (others task isCur).trans (balanced.sleepIff task alive)
  readyIff := by
    intro task alive isOther
    rw [status_modifyTask_of_ne _ (show task ≠ queues.cur from isOther)]
    exact balanced.readyIff task alive isOther
  idleRunnable := by
    intro alive
    by_cases isCur : idle = queues.cur
    · rw [isCur, status_modifyTask_self]
      exact curIdle isCur.symm
    · rw [status_modifyTask_of_ne _ isCur]
      exact balanced.idleRunnable alive

theorem Settled.yield (settled : Settled idle queues) :
    Departing idle
      (queues.modifyTask queues.cur fun task => { task with status := .ready }) where
  toBalanced := settled.toBalanced.modifyCur (fun _ _ => Iff.rfl)
    (iff_of_false (settled.curAwake settled.curRunnable) (by simp))
    (fun _ => .inl rfl)
  curNotReady := settled.curNotReady
  curSleepsLast := fun asleep =>
    absurd asleep (settled.curAwake settled.curRunnable)
  takeover := by
    intro stopped
    rw [show (queues.modifyTask queues.cur _).cur = queues.cur from rfl,
      status_modifyTask_self] at stopped
    exact absurd (.inl rfl) stopped

theorem Settled.stop {status : TaskStatus} (settled : Settled idle queues)
    (idleAlive : idle ∈ queues.all) (notIdle : queues.cur ≠ idle)
    (awake : status ≠ .sleep) :
    Departing idle
      (queues.modifyTask queues.cur fun task => { task with status }) where
  toBalanced := settled.toBalanced.modifyCur (fun _ _ => Iff.rfl)
    (iff_of_false (settled.curAwake settled.curRunnable) awake)
    (fun isIdle => absurd isIdle notIdle)
  curNotReady := settled.curNotReady
  curSleepsLast := fun asleep =>
    absurd asleep (settled.curAwake settled.curRunnable)
  takeover := fun _ => ⟨idleAlive, notIdle⟩

theorem Settled.fallAsleep (settled : Settled idle queues) (change : Task → Task)
    (idleAlive : idle ∈ queues.all) (notIdle : queues.cur ≠ idle)
    (asleep : (change (queues.task queues.cur)).status = .sleep) :
    Departing idle
      (Queues.modifyTask { queues with sleep := queues.sleep ++ [queues.cur] }
        queues.cur change) where
  toBalanced := settled.toBalanced.modifyCur
    (fun task different => by simp [different])
    (iff_of_true (by simp) asleep)
    (fun isIdle => absurd isIdle notIdle)
  curNotReady := settled.curNotReady
  curSleepsLast := fun _ => ⟨queues.sleep, rfl⟩
  takeover := fun _ => ⟨idleAlive, notIdle⟩

def makeReady (queues : Queues) (task : TaskId) (first : Bool) : Queues :=
  Queues.modifyTask
    { queues with
      ready := if first then task :: queues.ready else queues.ready ++ [task] }
    task fun record => { record with status := .ready }

theorem Settled.makeReady {task : TaskId} {ready : List TaskId}
    (settled : Settled idle queues) (alive : task ∈ queues.all)
    (stopped : ¬ Runnable (queues.status task))
    (awake : queues.status task ≠ .sleep)
    (members : ∀ other, other ∈ ready ↔ other = task ∨ other ∈ queues.ready) :
    Settled idle
      (Queues.modifyTask { queues with ready } task
        fun record => { record with status := .ready }) := by
  have notCur : task ≠ queues.cur := by
    rintro rfl
    exact stopped settled.curRunnable
  refine ⟨⟨settled.curAlive, ?_, settled.sleepAlive, ?_, ?_, ?_⟩, ?_, ?_⟩
  · intro other member
    rcases (members other).mp member with rfl | old
    · exact alive
    · exact settled.readyAlive other old
  · intro other otherAlive
    have before := settled.sleepIff other otherAlive
    by_cases same : other = task
    · subst same
      rw [status_modifyTask_self]
      exact iff_of_false (fun asleep => awake (before.mp asleep)) (by simp)
    · rw [status_modifyTask_of_ne _ same]
      exact before
  · intro other otherAlive isOther
    by_cases same : other = task
    · subst same
      rw [status_modifyTask_self]
      exact iff_of_true ((members other).mpr (.inl rfl)) (.inl rfl)
    · rw [status_modifyTask_of_ne _ same]
      exact ((members other).trans (or_iff_right same)).trans
        (settled.readyIff other otherAlive isOther)
  · intro idleAlive
    by_cases same : idle = task
    · rw [same, status_modifyTask_self]
      exact .inl rfl
    · rw [status_modifyTask_of_ne _ same]
      exact settled.idleRunnable idleAlive
  · intro member
    rcases (members _).mp member with same | old
    · exact notCur same.symm
    · exact settled.curNotReady old
  · rw [show (Queues.modifyTask { queues with ready } task _).cur = queues.cur
      from rfl, status_modifyTask_of_ne _ (Ne.symm notCur)]
    exact settled.curRunnable

theorem Settled.exit {task : TaskId} {change : Task → Task}
    (settled : Settled idle queues) (nodup : queues.all.Nodup)
    (alive : task ∈ queues.all) (stopped : ¬ Runnable (queues.status task))
    (awake : queues.status task ≠ .sleep) :
    Settled idle
      { queues.modifyTask task change with all := queues.all.erase task } := by
  have notCur : task ≠ queues.cur := by
    rintro rfl
    exact stopped settled.curRunnable
  have notReady : task ∉ queues.ready := fun member =>
    stopped ((settled.readyIff task alive notCur).mp member)
  have notAsleep : task ∉ queues.sleep := fun member =>
    awake ((settled.sleepIff task alive).mp member)
  have remains : ∀ other, other ∈ queues.all.erase task ↔
      other ≠ task ∧ other ∈ queues.all := fun other => nodup.mem_erase_iff
  have kept : ∀ other, other ∈ queues.all.erase task →
      Queues.status { queues.modifyTask task change with
        all := queues.all.erase task } other = queues.status other := by
    intro other member
    exact status_modifyTask_of_ne _ ((remains other).mp member).1
  have curRemains := (remains queues.cur).mpr ⟨Ne.symm notCur, settled.curAlive⟩
  refine ⟨⟨curRemains, ?_, ?_, ?_, ?_, ?_⟩, settled.curNotReady, ?_⟩
  · intro other member
    refine (remains other).mpr ⟨?_, settled.readyAlive other member⟩
    rintro rfl
    exact notReady member
  · intro other member
    refine (remains other).mpr ⟨?_, settled.sleepAlive other member⟩
    rintro rfl
    exact notAsleep member
  · intro other member
    rw [kept other member]
    exact settled.sleepIff other ((remains other).mp member).2
  · intro other member isOther
    rw [kept other member]
    exact settled.readyIff other ((remains other).mp member).2 isOther
  · intro member
    rw [kept idle member]
    exact settled.idleRunnable ((remains idle).mp member).2
  · exact (kept queues.cur curRemains) ▸ settled.curRunnable

def expiring (queues : Queues) : Nat :=
  (queues.all.filter fun task => queues.status task = .sleep ∧
    (queues.task task).tickSleep.sleepTicks = 0).length

theorem Balanced.length_expired (balanced : Balanced idle queues)
    (sleepNodup : queues.sleep.Nodup) (allNodup : queues.all.Nodup) :
    queues.expired.length = queues.expiring := by
  apply List.Perm.length_eq
  rw [expired, List.perm_ext_iff_of_nodup (sleepNodup.filter _) (allNodup.filter _)]
  intro task
  simp only [List.mem_filter, decide_eq_true_eq]
  constructor
  · rintro ⟨asleep, ends⟩
    have alive := balanced.sleepAlive task asleep
    exact ⟨alive, (balanced.sleepIff task alive).mp asleep, ends⟩
  · rintro ⟨alive, asleep, ends⟩
    exact ⟨(balanced.sleepIff task alive).mpr asleep, ends⟩

theorem expiring_modifyTask {task : TaskId} (change : Task → Task)
    (awakeBefore : queues.status task ≠ .sleep)
    (awakeAfter : (change (queues.task task)).status ≠ .sleep) :
    (queues.modifyTask task change).expiring = queues.expiring := by
  refine congrArg List.length (List.filter_congr ?_)
  intro other _
  by_cases same : other = task
  · subst same
    rw [status_modifyTask_self]
    simp [awakeBefore, awakeAfter]
  · rw [status_modifyTask_of_ne _ same]
    simp [modifyTask, same]

theorem expiring_makeReady {task : TaskId} {first : Bool}
    (awake : queues.status task ≠ .sleep) :
    (queues.makeReady task first).expiring = queues.expiring := by
  rw [← expiring_modifyTask (fun record => { record with status := .ready }) awake
    (by simp)]
  rfl

theorem status_tick (task : TaskId) : queues.tick.status task = queues.status task := by
  simp only [status, tick]
  split
  · rfl
  · rfl

theorem Balanced.tick (balanced : Balanced idle queues) :
    Balanced idle queues.tick :=
  balanced.withTask fun task _ => status_tick task

theorem status_wake {woken : List TaskId} (task : TaskId) :
    (queues.wake woken).status task =
      if task ∈ woken then .ready else queues.status task := by
  simp only [status, wake]
  split
  · rfl
  · rfl

theorem Balanced.wake {woken : List TaskId} (balanced : Balanced idle queues)
    (asleep : ∀ task ∈ woken, task ∈ queues.sleep) :
    Balanced idle (queues.wake woken) where
  curAlive := balanced.curAlive
  readyAlive := by
    intro task member
    rcases List.mem_append.mp member with new | old
    · exact balanced.sleepAlive task (asleep task (List.mem_reverse.mp new))
    · exact balanced.readyAlive task old
  sleepAlive := by
    intro task member
    exact balanced.sleepAlive task (List.mem_filter.mp member).1
  sleepIff := by
    intro task alive
    have before := balanced.sleepIff task alive
    rw [status_wake]
    by_cases wakes : task ∈ woken
    · simp [Queues.wake, wakes]
    · simpa [Queues.wake, wakes] using before
  readyIff := by
    intro task alive different
    have before := balanced.readyIff task alive different
    rw [status_wake]
    by_cases wakes : task ∈ woken
    · simp [Queues.wake, wakes, Runnable]
    · simpa [Queues.wake, wakes] using before
  idleRunnable := by
    intro alive
    rw [status_wake]
    split
    · exact .inl rfl
    · exact balanced.idleRunnable alive

theorem mem_expired {task : TaskId} (member : task ∈ queues.expired) :
    task ∈ queues.sleep :=
  (List.mem_filter.mp member).1

theorem Departing.cur_not_mem_tail (departing : Departing idle queues)
    (nodup : queues.sleep.Nodup) :
    queues.cur ∉ (queues.tick.wake queues.expired).ready.tail := by
  change queues.cur ∉ (queues.expired.reverse ++ queues.ready).tail
  by_cases wakes : queues.cur ∈ queues.expired
  · obtain ⟨front, split⟩ := departing.curSleepsLast (mem_expired wakes)
    have outside : queues.cur ∉ front := by
      rw [split, List.nodup_append] at nodup
      intro inFront
      exact nodup.2.2 _ inFront _ (by simp) rfl
    have expiredSplit : ∃ earlier, queues.expired = earlier ++ [queues.cur] ∧
        queues.cur ∉ earlier := by
      have ends := (List.mem_filter.mp wakes).2
      refine ⟨front.filter fun task =>
        (queues.task task).tickSleep.sleepTicks = 0, ?_, ?_⟩
      · rw [expired, split, List.filter_append, List.filter_singleton, ends]
        rfl
      · intro member
        exact outside (List.mem_filter.mp member).1
    obtain ⟨earlier, equality, outsideEarlier⟩ := expiredSplit
    rw [equality]
    simp [outsideEarlier, departing.curNotReady]
  · intro member
    rcases List.mem_append.mp (List.mem_of_mem_tail member) with new | old
    · exact wakes (List.mem_reverse.mp new)
    · exact departing.curNotReady old

theorem Departing.choosing (departing : Departing idle queues)
    (nodup : queues.sleep.Nodup) :
    Choosing idle (queues.tick.wake queues.expired) where
  toBalanced := departing.toBalanced.tick.wake fun _ => mem_expired
  curOnlyFirst := departing.cur_not_mem_tail nodup
  curReady := by
    intro member
    rw [status_wake]
    rcases List.mem_append.mp member with new | old
    · rw [if_pos (List.mem_reverse.mp new)]
    · exact absurd old departing.curNotReady
  takeover := by
    intro stopped
    rw [status_wake, status_tick] at stopped
    split at stopped
    · exact absurd (.inl rfl) stopped
    · exact departing.takeover stopped

theorem requeueCurrent_eq (queues : Queues) :
    queues.requeueCurrent =
      if Runnable (queues.status queues.cur) then
        { queues with
          ready := queues.ready ++ [queues.cur]
          task := Function.update queues.task queues.cur
            { queues.task queues.cur with status := .ready } }
      else queues := by
  simp only [requeueCurrent, status, Runnable]
  by_cases running : (queues.task queues.cur).status = .running
  · simp [running, modifyTask]
  · by_cases isReady : (queues.task queues.cur).status = .ready
    · have unchanged : { queues.task queues.cur with status := .ready } =
          queues.task queues.cur := by
        rw [← isReady]
      simp [isReady, unchanged]
    · simp [running, isReady]

theorem dispatch_of_nil (split : queues.ready = []) : queues.dispatch = queues := by
  simp [dispatch, split]

theorem dispatch_of_eq {next : TaskId} {rest : List TaskId}
    (split : queues.ready = next :: rest) (same : queues.cur = next) :
    queues.dispatch = Queues.modifyTask { queues with ready := rest } next
      fun task => { task with ticks := task.priority } := by
  simp [dispatch, split, Queues.modifyTask, same]

theorem dispatch_of_ne {next : TaskId} {rest : List TaskId}
    (split : queues.ready = next :: rest) (different : queues.cur ≠ next) :
    let switched := queues.dispatch
    switched.cur = next ∧ switched.all = queues.all ∧
      switched.sleep = queues.sleep ∧
      (switched.ready = if Runnable (queues.status queues.cur) then
        rest ++ [queues.cur] else rest) ∧
      ∀ task, switched.status task =
        if task = next then .running
        else if task = queues.cur ∧ Runnable (queues.status queues.cur) then .ready
        else queues.status task := by
  simp only [dispatch, split, requeueCurrent_eq]
  rw [if_neg (by simpa [Queues.modifyTask] using different)]
  by_cases runnable : Runnable (queues.status queues.cur)
  · rw [if_pos (by simpa [status, Queues.modifyTask, different] using runnable),
      if_pos runnable]
    refine ⟨rfl, rfl, rfl, rfl, ?_⟩
    intro task
    simp only [runnable, and_true]
    by_cases isNext : task = next
    · simp [status, Queues.modifyTask, isNext]
    · by_cases isCur : task = queues.cur
      · simp [status, Queues.modifyTask, isCur, different]
      · simp [status, Queues.modifyTask, isNext, isCur]
  · rw [if_neg (by simpa [status, Queues.modifyTask, different] using runnable),
      if_neg runnable]
    refine ⟨rfl, rfl, rfl, rfl, ?_⟩
    intro task
    simp only [runnable, and_false, if_false]
    by_cases isNext : task = next
    · simp [status, Queues.modifyTask, isNext]
    · simp [status, Queues.modifyTask, isNext]

theorem all_dispatch (queues : Queues) : queues.dispatch.all = queues.all := by
  cases split : queues.ready with
  | nil => rw [dispatch_of_nil split]
  | cons next rest =>
      by_cases same : queues.cur = next
      · rw [dispatch_of_eq split same]
        rfl
      · exact (dispatch_of_ne split same).2.1

theorem Choosing.dispatch_switch {next : TaskId} {rest : List TaskId}
    (choosing : Choosing idle queues) (nodup : queues.ready.Nodup)
    (split : queues.ready = next :: rest) (different : queues.cur ≠ next) :
    Settled idle queues.dispatch := by
  have balanced := choosing.toBalanced
  obtain ⟨curEq, allEq, sleepEq, readyEq, statusEq⟩ := dispatch_of_ne split different
  have nextAlive : next ∈ queues.all := balanced.readyAlive next (by simp [split])
  have nextRunnable : Runnable (queues.status next) :=
    (balanced.readyIff next nextAlive (Ne.symm different)).mp (by simp [split])
  have nextOutside : next ∉ rest := by
    rw [split] at nodup
    exact (List.nodup_cons.mp nodup).1
  have curOutside : queues.cur ∉ rest := by
    simpa [split] using choosing.curOnlyFirst
  refine ⟨⟨?_, ?_, ?_, ?_, ?_, ?_⟩, ?_, ?_⟩
  · rw [curEq, allEq]
    exact nextAlive
  · intro task member
    rw [allEq]
    rw [readyEq] at member
    have inRest : task ∈ rest ∨ task = queues.cur := by
      split at member
      · simpa using member
      · exact .inl member
    rcases inRest with old | rfl
    · exact balanced.readyAlive task (by simp [split, old])
    · exact balanced.curAlive
  · intro task member
    rw [allEq]
    exact balanced.sleepAlive task (sleepEq ▸ member)
  · intro task alive
    rw [allEq] at alive
    have before := balanced.sleepIff task alive
    rw [sleepEq, statusEq, before]
    by_cases isNext : task = next
    · have notAsleep : queues.status next ≠ .sleep := fun asleep =>
        not_runnable_sleep asleep nextRunnable
      simp [isNext, notAsleep]
    · by_cases requeued : task = queues.cur ∧ Runnable (queues.status queues.cur)
      · have notAsleep : queues.status queues.cur ≠ .sleep := fun asleep =>
          not_runnable_sleep asleep requeued.2
        simp [requeued, notAsleep, different]
      · simp [isNext, requeued]
  · intro task alive isOther
    rw [allEq] at alive
    rw [curEq] at isOther
    rw [readyEq, statusEq, if_neg isOther]
    by_cases isCur : task = queues.cur
    · subst isCur
      by_cases runnable : Runnable (queues.status queues.cur)
      · rw [if_pos runnable, if_pos ⟨rfl, runnable⟩]
        simp [Runnable]
      · rw [if_neg runnable, if_neg (by simp [runnable])]
        exact iff_of_false curOutside runnable
    · have before := balanced.readyIff task alive isCur
      rw [split, List.mem_cons] at before
      simp only [isOther, false_or] at before
      have keepsStatus : ¬ (task = queues.cur ∧
          Runnable (queues.status queues.cur)) := fun both => isCur both.1
      rw [if_neg keepsStatus, ← before]
      split
      · simp [isCur]
      · rfl
  · intro alive
    rw [allEq] at alive
    rw [statusEq]
    split
    · exact .inr rfl
    · split
      · exact .inl rfl
      · exact balanced.idleRunnable alive
  · rw [curEq, readyEq]
    split
    · simp [nextOutside, Ne.symm different]
    · exact nextOutside
  · rw [curEq, statusEq, if_pos rfl]
    exact .inr rfl

theorem Choosing.dispatch (choosing : Choosing idle queues)
    (nodup : queues.ready.Nodup) : Settled idle queues.dispatch := by
  have balanced := choosing.toBalanced
  cases split : queues.ready with
  | nil =>
      rw [dispatch_of_nil split]
      refine ⟨balanced, by simp [split], ?_⟩
      by_contra stopped
      obtain ⟨idleAlive, different⟩ := choosing.takeover stopped
      have idleReady := (balanced.readyIff idle idleAlive (Ne.symm different)).mpr
        (balanced.idleRunnable idleAlive)
      simp [split] at idleReady
  | cons next rest =>
      by_cases same : queues.cur = next
      · have curReady := choosing.curReady (by simp [split, same])
        have popped : Settled idle { queues with ready := rest } := by
          refine ⟨⟨balanced.curAlive, ?_, balanced.sleepAlive, balanced.sleepIff,
            ?_, balanced.idleRunnable⟩, ?_, .inl curReady⟩
          · intro task member
            exact balanced.readyAlive task (by simp [split, member])
          · intro task alive different
            have before := balanced.readyIff task alive different
            rw [split, List.mem_cons, ← same] at before
            simpa only [different, false_or, status] using before
          · simpa [split] using choosing.curOnlyFirst
        rw [dispatch_of_eq split same]
        exact popped.modifyTask rfl
      · exact choosing.dispatch_switch nodup split same

theorem Departing.schedule (departing : Departing idle queues)
    (sleepNodup : queues.sleep.Nodup) (readyNodup : queues.ready.Nodup)
    (separate : ∀ task ∈ queues.ready, task ∉ queues.sleep) :
    Settled idle queues.schedule := by
  have choosing := departing.choosing sleepNodup
  unfold Queues.schedule
  dsimp only
  split
  · rename_i keeps
    have notReady : queues.cur ∉ (queues.tick.wake queues.expired).ready := by
      intro member
      have isReady := choosing.curReady member
      have isRunning : (queues.tick.wake queues.expired).status queues.cur =
        .running := keeps.1
      rw [show (queues.tick.wake queues.expired).cur = queues.cur from rfl,
        isRunning] at isReady
      cases isReady
    have settled : Settled idle (queues.tick.wake queues.expired) :=
      ⟨choosing.toBalanced, notReady, .inr keeps.1⟩
    exact settled.modifyTask rfl
  · refine choosing.dispatch ?_
    change (queues.expired.reverse ++ queues.ready).Nodup
    rw [List.nodup_append]
    refine ⟨List.nodup_reverse.mpr (sleepNodup.filter _), readyNodup, ?_⟩
    intro task expires other inReady same
    exact separate other inReady
      (same ▸ mem_expired (List.mem_reverse.mp expires))

theorem Departing.status_schedule {task : TaskId}
    (departing : Departing idle queues) (nodup : queues.sleep.Nodup)
    (alive : task ∈ queues.all) (stopped : ¬ Runnable (queues.status task))
    (awake : queues.status task ≠ .sleep) :
    queues.schedule.status task = queues.status task := by
  have choosing := departing.choosing nodup
  have notExpired : task ∉ queues.expired := by
    intro expires
    exact awake ((departing.sleepIff task alive).mp (mem_expired expires))
  have kept : (queues.tick.wake queues.expired).status task =
      queues.status task := by
    rw [status_wake, if_neg notExpired, status_tick]
  unfold Queues.schedule
  dsimp only
  split
  · rename_i keeps
    refine (status_modifyTask_of_ne _ ?_).trans kept
    rintro rfl
    exact stopped (kept ▸ .inr keeps.1)
  · cases split : (queues.tick.wake queues.expired).ready with
    | nil =>
        rw [dispatch_of_nil split]
        exact kept
    | cons next rest =>
        have inReady : next ∈ (queues.tick.wake queues.expired).ready := by
          simp [split]
        by_cases same : (queues.tick.wake queues.expired).cur = next
        · have different : task ≠ next := by
            rintro rfl
            have isReady := choosing.curReady (same ▸ inReady)
            rw [same, kept] at isReady
            exact stopped (.inl isReady)
          rw [dispatch_of_eq split same, status_modifyTask_of_ne _ different]
          exact kept
        · have different : task ≠ next := by
            rintro rfl
            have runnable := (choosing.readyIff task
              (choosing.readyAlive task inReady) (Ne.symm same)).mp inReady
            exact stopped (kept ▸ runnable)
          obtain ⟨-, -, -, -, statusEq⟩ := dispatch_of_ne split same
          rw [statusEq, if_neg different, if_neg ?_, kept]
          rintro ⟨rfl, runnable⟩
          exact stopped (kept ▸ runnable)

theorem all_schedule (queues : Queues) : queues.schedule.all = queues.all := by
  unfold Queues.schedule
  dsimp only
  split
  · rfl
  · exact all_dispatch _

end Queues

end CleanOS.Thread
