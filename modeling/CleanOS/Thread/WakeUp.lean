import CleanOS.Thread.Scheduler
import Mathlib.Algebra.Group.Nat.Defs

/-!
# Timed sleep

What a call of `schedule` does to the sleepers, and after how many calls a task that called
`thread_sleep` is ready again.  The tick that a sleeper has left is an unsigned word, which
wraps when it is lowered from zero, and `wake_up_list` has room for ten tasks.
-/

namespace CleanOS.Thread

open CleanOS.Lib CleanOS.Common LinkMemory

/-- After the first half of `schedule` every sleeper has one tick less, those with none left
are ready, and the others are asleep in their order. -/
structure WokenRight (kernel woken : Kernel) (ready sleep : List TaskId) : Prop where
  lowered : ∀ task ∈ sleep,
    (woken.task task).sleepTicks.toNat + 1 = (kernel.task task).sleepTicks.toNat
  status : ∀ task ∈ sleep, (woken.task task).status =
    if (woken.task task).sleepTicks = 0 then .ready else (kernel.task task).status
  fields : ∀ task ∈ sleep, woken.task task =
    { kernel.task task with
      sleepTicks := (woken.task task).sleepTicks, status := (woken.task task).status }
  others : ∀ task, task ∉ sleep → woken.task task = kernel.task task
  sleepHolds : QueueHolds woken.links woken.sleepTasks .sleep .general
    (sleep.filter fun task => (woken.task task).sleepTicks ≠ 0)
  readyHolds : QueueHolds woken.links woken.readyTasks .ready .general
    ((sleep.filter fun task => (woken.task task).sleepTicks = 0).reverse ++ ready)

/-- A call of `schedule` treats the sleepers right before it goes on to the running task.  It
would not get there if it wrote behind `wake_up_list`. -/
def WakesRight (kernel : Kernel) (ready sleep : List TaskId) : Prop :=
  ∃ bound woken, (∀ fuel, bound ≤ fuel →
      kernel.wakeUp fuel = some woken ∧ kernel.schedule fuel = woken.keepOrDispatch) ∧
    WokenRight kernel woken ready sleep

def WakeGuard (kernel : Kernel) (sleep : List TaskId) : Prop :=
  (∀ task ∈ sleep, (kernel.task task).sleepTicks ≠ 0) ∧
    (sleep.filter fun task => (kernel.task task).sleepTicks = 1).length ≤ 10

/-! ### One call -/

theorem pred_eq_zero {ticks : UInt32} : ticks - 1 = 0 ↔ ticks = 1 := by
  rw [UInt32.sub_eq_iff_eq_add]
  rfl

theorem toNat_pred {ticks : UInt32} (left : ticks ≠ 0) : (ticks - 1).toNat + 1 = ticks.toNat := by
  have positive : 1 ≤ ticks.toNat := by
    rw [Nat.one_le_iff_ne_zero]
    exact fun zero => left (UInt32.toNat_inj.mp zero)
  have word := ticks.toNat_lt
  rw [UInt32.toNat_sub, show (1 : UInt32).toNat = 1 from rfl]
  omega

namespace Queues

variable {queues : Queues} {task : TaskId}

theorem expired_eq : queues.expired =
    queues.sleep.filter fun task => (queues.task task).sleepTicks = 1 := by
  unfold expired
  apply List.filter_congr
  intro task _
  exact decide_eq_decide.mpr pred_eq_zero

theorem mem_expired_iff (asleep : task ∈ queues.sleep) :
    task ∈ queues.expired ↔ (queues.task task).sleepTicks = 1 := by
  rw [expired_eq, List.mem_filter, decide_eq_true_eq]
  exact and_iff_right asleep

theorem woken_sleeper (asleep : task ∈ queues.sleep) :
    (queues.tick.wake queues.expired).task task =
      { queues.task task with
        sleepTicks := (queues.task task).sleepTicks - 1
        status := if (queues.task task).sleepTicks = 1 then .ready
          else (queues.task task).status } := by
  have expires := mem_expired_iff asleep
  by_cases ends : (queues.task task).sleepTicks = 1
  · simp [wake, tick, asleep, expires.mpr ends, ends, Task.tickSleep]
  · simp [wake, tick, asleep, expires, ends, Task.tickSleep]

theorem woken_other (awake : task ∉ queues.sleep) :
    (queues.tick.wake queues.expired).task task = queues.task task := by
  have stays : task ∉ queues.expired := fun member => awake (mem_expired member)
  simp [wake, tick, awake, stays]

end Queues

namespace Tracks

variable {kernel : Kernel} {queues : Queues}

theorem wakeUp_overflow (tracks : Tracks kernel kernel queues)
    (overflow : 10 < queues.expired.length) (fuel : Nat) : kernel.wakeUp fuel = none := by
  simp [Kernel.wakeUp, tracks.tickLoop_overflow overflow]

theorem wakesRight_of_guard (tracks : Tracks kernel kernel queues)
    (guard : WakeGuard kernel queues.sleep) : WakesRight kernel queues.ready queues.sleep := by
  obtain ⟨ticking, few⟩ := guard
  have taskEq := tracks.represents.task
  have room : queues.expired.length ≤ 10 := by
    rw [Queues.expired_eq, ← taskEq]
    exact few
  obtain ⟨woken, success, wokenTracks⟩ := tracks.wakeUp room
  have wokenTask := wokenTracks.represents.task
  have sleeper : ∀ task ∈ queues.sleep, woken.task task =
      { kernel.task task with
        sleepTicks := (kernel.task task).sleepTicks - 1
        status := if (kernel.task task).sleepTicks = 1 then .ready
          else (kernel.task task).status } := by
    intro task asleep
    rw [wokenTask, taskEq]
    exact Queues.woken_sleeper asleep
  have zero : ∀ task ∈ queues.sleep,
      ((woken.task task).sleepTicks = 0 ↔ (kernel.task task).sleepTicks = 1) := by
    intro task asleep
    rw [sleeper task asleep]
    exact pred_eq_zero
  refine ⟨queues.sleep.length + 1, woken, ?_, ?_⟩
  · intro fuel enough
    have woke := success fuel enough
    exact ⟨woke, by rw [Kernel.schedule_eq, woke, Option.bind_some]⟩
  constructor
  · intro task asleep
    rw [sleeper task asleep]
    exact toNat_pred (ticking task asleep)
  · intro task asleep
    simp only [zero task asleep]
    rw [sleeper task asleep]
  · intro task asleep
    rw [sleeper task asleep]
  · intro task awake
    rw [wokenTask, taskEq]
    exact Queues.woken_other awake
  · have asleep := wokenTracks.represents.sleep
    have same : (queues.tick.wake queues.expired).sleep =
        queues.sleep.filter fun task => (woken.task task).sleepTicks ≠ 0 := by
      apply List.filter_congr
      intro task member
      have expires := @Queues.mem_expired_iff queues task member
      rw [← taskEq] at expires
      exact decide_eq_decide.mpr (not_congr (expires.trans (zero task member).symm))
    rwa [same] at asleep
  · have ready := wokenTracks.represents.ready
    have same : queues.expired =
        queues.sleep.filter fun task => (woken.task task).sleepTicks = 0 := by
      rw [Queues.expired_eq, ← taskEq]
      apply List.filter_congr
      intro task member
      rw [decide_eq_decide]
      exact (zero task member).symm
    rw [← same]
    exact ready

theorem guard_of_wakesRight (tracks : Tracks kernel kernel queues)
    (right : WakesRight kernel queues.ready queues.sleep) : WakeGuard kernel queues.sleep := by
  obtain ⟨bound, woken, success, isRight⟩ := right
  constructor
  · intro task asleep noTick
    have lowered := isRight.lowered task asleep
    rw [noTick] at lowered
    exact absurd lowered (Nat.succ_ne_zero _)
  · by_contra overflow
    rw [tracks.represents.task, ← Queues.expired_eq] at overflow
    have stopped := (success bound (Nat.le_refl _)).1
    rw [tracks.wakeUp_overflow (Nat.lt_of_not_le overflow)] at stopped
    cases stopped

end Tracks

/-! ### How long a task sleeps -/

/-- The calls of `schedule` until a sleeper with these ticks has none left.  A sleeper without
a tick is lowered to the largest word first. -/
def remaining (ticks : UInt32) : Nat :=
  if ticks = 0 then 2 ^ 32 else ticks.toNat

/-- The calls of `schedule` after which a task that calls `thread_sleep` is ready; the product
of `HZ` and the milliseconds is a word. -/
def sleepCalls (ms : UInt32) : Nat :=
  remaining (100 * ms / 1000)

/-- The states after `first`, with the number of calls of `schedule` since then. -/
inductive Later (idle : TaskId) (first : Kernel) (alive : List TaskId) :
    Nat → Kernel → List TaskId → Prop where
  | refl : Later idle first alive 0 first alive
  | step {calls : Nat} {kernel after : Kernel} {tasks : List TaskId} {operation : Operation}
      (later : Later idle first alive calls kernel tasks)
      (allowed : operation.Allowed idle tasks kernel)
      (returns : operation.Returns kernel after) :
      Later idle first alive (calls + operation.schedules.toNat) after (operation.tasks tasks)

/-- The running task calls `thread_sleep` and is asleep until the given call of `schedule`,
the one of `thread_sleep` being the first.  That call makes it ready, and may choose it. -/
def WakesAfter (idle : TaskId) (kernel : Kernel) (alive : List TaskId) (ms : UInt32)
    (call : Nat) : Prop :=
  ∀ first, (Operation.threadSleep ms).Returns kernel first →
    ∀ calls after tasks, Later idle first alive calls after tasks →
      (calls + 1 < call → (after.task kernel.cur).status = .sleep) ∧
        (calls + 1 = call → Runnable (after.task kernel.cur).status)

/-- The milliseconds make at least one tick, and times `HZ` they are a word. -/
def SleepGuard (ms : UInt32) : Prop :=
  10 ≤ ms.toNat ∧ ms.toNat ≤ 42949672

theorem sleepCalls_eq_iff (ms : UInt32) :
    sleepCalls ms = max 1 (100 * ms.toNat / 1000) ↔ SleepGuard ms := by
  have word := ms.toNat_lt
  have ticks : (100 * ms / 1000 : UInt32).toNat = 100 * ms.toNat % 2 ^ 32 / 1000 := by
    rw [UInt32.toNat_div, UInt32.toNat_mul]
    rfl
  have none : (100 * ms / 1000 : UInt32) = 0 ↔ 100 * ms.toNat % 2 ^ 32 / 1000 = 0 := by
    rw [← ticks, ← UInt32.toNat_inj]
    rfl
  simp only [sleepCalls, remaining, none, ticks, SleepGuard]
  by_cases fits : ms.toNat ≤ 42949672
  · rw [Nat.mod_eq_of_lt (show 100 * ms.toNat < 2 ^ 32 by omega)]
    split <;> omega
  · have wraps : 100 * ms.toNat % 2 ^ 32 + 2 ^ 32 ≤ 100 * ms.toNat := by
      have more : 1 ≤ 100 * ms.toNat / 2 ^ 32 := (Nat.one_le_div_iff (by decide)).mpr (by omega)
      omega
    generalize 100 * ms.toNat % 2 ^ 32 = product at wraps
    refine iff_of_false ?_ fun guard => fits guard.2
    split <;> omega

theorem remaining_eq_one {ticks : UInt32} : remaining ticks = 1 ↔ ticks = 1 := by
  unfold remaining
  split
  · rename_i zero
    rw [zero]
    decide
  · exact @UInt32.toNat_inj ticks 1

theorem remaining_pos (ticks : UInt32) : 0 < remaining ticks := by
  unfold remaining
  split
  · decide
  · rename_i left
    rw [Nat.pos_iff_ne_zero]
    exact fun zero => left (UInt32.toNat_inj.mp zero)

theorem remaining_pred {ticks : UInt32} (notLast : ticks ≠ 1) :
    remaining (ticks - 1) + 1 = remaining ticks := by
  have left : ticks - 1 ≠ 0 := fun zero => notLast (pred_eq_zero.mp zero)
  rw [remaining, if_neg left]
  unfold remaining
  split
  · rename_i zero
    rw [zero]
    rfl
  · rename_i some
    exact toNat_pred some

namespace Queues

variable {idle : TaskId} {queues : Queues} {task : TaskId}

theorem sleepTicks_modifyTask {other : TaskId} (change : Task → Task)
    (keeps : ∀ record, (change record).sleepTicks = record.sleepTicks) :
    ((queues.modifyTask other change).task task).sleepTicks = (queues.task task).sleepTicks := by
  by_cases same : task = other
  · subst same
    simp [modifyTask, keeps]
  · simp [modifyTask, same]

theorem sleepTicks_requeueCurrent :
    (queues.requeueCurrent.task task).sleepTicks = (queues.task task).sleepTicks := by
  rw [requeueCurrent_eq]
  split
  · exact sleepTicks_modifyTask (fun record => { record with status := .ready }) fun _ => rfl
  · rfl

theorem sleepTicks_dispatch :
    (queues.dispatch.task task).sleepTicks = (queues.task task).sleepTicks := by
  have refilled : ∀ (rest : List TaskId) (next : TaskId),
      ((Queues.modifyTask { queues with ready := rest } next
        fun record => { record with ticks := record.priority }).task task).sleepTicks =
        (queues.task task).sleepTicks := by
    intro rest next
    apply sleepTicks_modifyTask
    exact fun _ => rfl
  unfold dispatch
  cases queues.ready with
  | nil => rfl
  | cons next rest =>
      dsimp only
      split
      · exact refilled rest next
      · dsimp only
        rw [sleepTicks_modifyTask, sleepTicks_requeueCurrent]
        · exact refilled rest next
        · exact fun _ => rfl

theorem runnable_dispatch (runnable : Runnable (queues.status task)) :
    Runnable (queues.dispatch.status task) := by
  cases split : queues.ready with
  | nil =>
      rw [dispatch_of_nil split]
      exact runnable
  | cons next rest =>
      by_cases same : queues.cur = next
      · rw [dispatch_of_eq split same]
        by_cases isNext : task = next
        · subst isNext
          rw [status_modifyTask_self]
          exact runnable
        · rw [status_modifyTask_of_ne _ isNext]
          exact runnable
      · obtain ⟨-, -, -, -, statusEq⟩ := dispatch_of_ne split same
        rw [statusEq]
        split
        · exact .inr rfl
        · split
          · exact .inl rfl
          · exact runnable

theorem Choosing.asleep_dispatch (choosing : Choosing idle queues)
    (asleep : queues.status task = .sleep) : queues.dispatch.status task = .sleep := by
  cases split : queues.ready with
  | nil =>
      rw [dispatch_of_nil split]
      exact asleep
  | cons next rest =>
      have inReady : next ∈ queues.ready := by simp [split]
      by_cases same : queues.cur = next
      · rw [dispatch_of_eq split same]
        by_cases isNext : task = next
        · subst isNext
          rw [status_modifyTask_self]
          exact asleep
        · rw [status_modifyTask_of_ne _ isNext]
          exact asleep
      · have different : task ≠ next := by
          rintro rfl
          have runnable := (choosing.readyIff task (choosing.readyAlive task inReady)
            (Ne.symm same)).mp inReady
          exact not_runnable_sleep asleep runnable
        obtain ⟨-, -, -, -, statusEq⟩ := dispatch_of_ne split same
        rw [statusEq, if_neg different, if_neg ?_]
        · exact asleep
        · rintro ⟨rfl, runnable⟩
          exact not_runnable_sleep asleep runnable

theorem Departing.sleeper_schedule (departing : Departing idle queues)
    (nodup : queues.sleep.Nodup) (alive : task ∈ queues.all)
    (asleep : queues.status task = .sleep) :
    ((queues.task task).sleepTicks = 1 → Runnable (queues.schedule.status task)) ∧
      ((queues.task task).sleepTicks ≠ 1 → queues.schedule.status task = .sleep ∧
        (queues.schedule.task task).sleepTicks = (queues.task task).sleepTicks - 1) := by
  have choosing := departing.choosing nodup
  have woken := woken_sleeper ((departing.sleepIff task alive).mpr asleep)
  constructor
  · intro last
    have isReady : (queues.tick.wake queues.expired).status task = .ready := by
      rw [status, woken]
      exact if_pos last
    unfold Queues.schedule
    dsimp only
    split
    · rename_i keeps
      by_cases isCur : task = queues.cur
      · have running : (queues.tick.wake queues.expired).status task = .running := isCur ▸ keeps.1
        rw [isReady] at running
        cases running
      · have kept := @status_modifyTask_of_ne (queues.tick.wake queues.expired) _ _
          (fun record => { record with
            elapsetTicks := record.elapsetTicks + 1, ticks := record.ticks - 1 }) isCur
        exact .inl (kept.trans isReady)
    · exact runnable_dispatch (.inl isReady)
  · intro notLast
    have still : (queues.tick.wake queues.expired).status task = .sleep := by
      rw [status, woken]
      exact (if_neg notLast).trans asleep
    have ticks : ((queues.tick.wake queues.expired).task task).sleepTicks =
        (queues.task task).sleepTicks - 1 := by
      rw [woken]
    unfold Queues.schedule
    dsimp only
    split
    · rename_i keeps
      have isOther : task ≠ queues.cur := by
        rintro rfl
        have running : (queues.tick.wake queues.expired).status queues.cur = .running := keeps.1
        rw [still] at running
        cases running
      constructor
      · exact (status_modifyTask_of_ne _ isOther).trans still
      · rw [sleepTicks_modifyTask]
        · exact ticks
        · exact fun _ => rfl
    · exact ⟨choosing.asleep_dispatch still, sleepTicks_dispatch.trans ticks⟩

end Queues

/-! ### One step of a run -/

theorem Kernel.task_of_pushReadyLast {kernel after : Kernel} {task : TaskId}
    (success : kernel.pushReadyLast task = some after) : after.task = kernel.task := by
  obtain ⟨⟨links, readyTasks⟩, -, rest⟩ := Option.bind_eq_some_iff.mp success
  cases rest
  rfl

theorem Kernel.task_of_pushAll {kernel after : Kernel} {task : TaskId}
    (success : kernel.pushAll task = some after) : after.task = kernel.task := by
  obtain ⟨⟨links, allTasks⟩, -, rest⟩ := Option.bind_eq_some_iff.mp success
  cases rest
  rfl

theorem Prepared.task_created {kernel prepared after : Kernel} {thread task : TaskId}
    (prepares : Prepared kernel prepared thread)
    (success : (prepared.pushReadyLast thread >>= fun pushed => pushed.pushAll thread) =
      some after)
    (different : task ≠ thread) : after.task task = kernel.task task := by
  obtain ⟨pushed, pushSuccess, allSuccess⟩ := Option.bind_eq_some_iff.mp success
  rw [Kernel.task_of_pushAll allSuccess, Kernel.task_of_pushReadyLast pushSuccess]
  exact prepares.others task different

namespace Stable

variable {idle : TaskId} {kernel after : Kernel} {queues : Queues} {operation : Operation}
  {task : TaskId}

/-- A step that does not call `schedule` keeps the record of a task that is runnable or
asleep. -/
theorem task_of_not_schedules (stable : Stable idle kernel queues)
    (allowed : operation.Allowed idle queues.all kernel)
    (returns : operation.Returns kernel after) (quiet : operation.schedules = false)
    (alive : task ∈ queues.all)
    (waitsNot : Runnable (kernel.task task).status ∨ (kernel.task task).status = .sleep) :
    after.task task = kernel.task task := by
  obtain ⟨bound, success⟩ := returns
  cases operation with
  | threadStart thread priority =>
      have different : task ≠ thread := fun same => allowed (same ▸ alive)
      have prepares := (Prepared.initThread kernel thread priority).modifyTask
        fun task =>
          { task with
            pid := ((kernel.initThread thread priority).task kernel.cur).pid
            parentPid := ((kernel.initThread thread priority).task kernel.cur).parentPid
            pageDir := ((kernel.initThread thread priority).task kernel.cur).pageDir }
      exact prepares.task_created (success bound (Nat.le_refl _)) different
  | processClone thread pageDir sharesVm keepsParent =>
      have different : task ≠ thread := fun same => allowed (same ▸ alive)
      have prepares := fun change => ((Prepared.initThread kernel thread
        (kernel.task kernel.cur).priority).allocPid).modifyTask change
      exact (prepares _).task_created (success bound (Nat.le_refl _)) different
  | processFork thread pageDir copyErr =>
      have different : task ≠ thread := fun same => allowed (same ▸ alive)
      have copied := fun record => (Prepared.initThread kernel thread
        (kernel.task kernel.cur).priority).copyPage kernel.cur record
      have forked := success bound (Nat.le_refl _)
      by_cases failed : copyErr = 0
      · have prepares := fun record change => (((copied record).modifyTask
          change).allocPid).modifyTask
        simp only [Operation.exec, Kernel.processFork, Kernel.copyProcess, failed, ne_eq,
          not_true_eq_false, if_false] at forked
        exact (prepares _ _ _).task_created forked different
      · simp only [Operation.exec, Kernel.processFork, Kernel.copyProcess, ne_eq, failed,
          not_false_eq_true, if_true] at forked
        cases forked
        exact (copied _).others task different
  | threadReady other needSchedule now =>
      obtain ⟨otherAlive, stopped⟩ := allowed
      have different : task ≠ other := by
        rintro rfl
        rcases stopped with status | status <;> simp [status, Runnable] at waitsNot
      obtain rfl : needSchedule = false := quiet
      rw [stable.tracks.represents.task] at stopped
      obtain ⟨calling, called, callTracks, -⟩ :=
        stable.tracks.threadReady stable.settled otherAlive stopped false now
      have same : calling = after := by
        have result := success bound (Nat.le_refl _)
        rw [Operation.exec, called bound] at result
        exact Option.some.inj result
      rw [← same, callTracks.represents.task, stable.tracks.represents.task]
      simp [Queues.makeReady, Queues.modifyTask, different]
  | threadExit other =>
      obtain ⟨otherAlive, hanging⟩ := allowed
      have different : task ≠ other := by
        rintro rfl
        simp [hanging, Runnable] at waitsNot
      rw [stable.tracks.represents.task] at hanging
      obtain ⟨exited, exits, exitTracks, -⟩ :=
        stable.tracks.threadExit stable.settled otherAlive hanging
      have same : exited = after := by
        have result := success (max bound (queues.ready.length + queues.all.length + 1))
          (Nat.le_max_left _ _)
        rw [Operation.exec, exits _ (Nat.le_max_right _ _)] at result
        exact Option.some.inj result
      rw [← same, exitTracks.represents.task, stable.tracks.represents.task]
      simp [Queues.modifyTask, different]
  | schedule => cases quiet
  | threadYield => cases quiet
  | threadSleep ms => cases quiet
  | threadBlock status => cases quiet

theorem departed_sleeper (stable : Stable idle kernel queues)
    (allowed : operation.Allowed idle queues.all kernel)
    (asleep : queues.status task = .sleep) :
    (departed queues operation).task task = queues.task task := by
  have notCur : task ≠ queues.cur := by
    rintro rfl
    exact Queues.not_runnable_sleep asleep stable.settled.curRunnable
  cases operation with
  | threadReady other needSchedule now =>
      have different : task ≠ other := by
        rintro rfl
        obtain ⟨-, stopped⟩ := allowed
        rw [stable.tracks.represents.task] at stopped
        rw [Queues.status] at asleep
        rcases stopped with status | status <;> simp [status] at asleep
      simp [departed, Queues.makeReady, Queues.modifyTask, different]
  | _ => simp [departed, Queues.modifyTask, notCur]

end Stable

/-! ### Runs -/

/-- The task is asleep for this many calls of `schedule`, and runnable when there are none. -/
structure Task.SleepsFor (task : Task) (left : Nat) : Prop where
  asleep : 0 < left → task.status = .sleep ∧ remaining task.sleepTicks = left
  awake : left = 0 → Runnable task.status

theorem Queues.Departing.sleepsFor_schedule {idle : TaskId} {queues : Queues} {task : TaskId}
    {left : Nat} (departing : queues.Departing idle) (nodup : queues.sleep.Nodup)
    (alive : task ∈ queues.all) (some : 0 < left) (sleeps : (queues.task task).SleepsFor left) :
    (queues.schedule.task task).SleepsFor (left - 1) := by
  obtain ⟨asleep, ticks⟩ := sleeps.asleep some
  obtain ⟨wakes, stays⟩ := departing.sleeper_schedule nodup alive asleep
  by_cases last : (queues.task task).sleepTicks = 1
  · have one : left = 1 := by
      rw [← ticks]
      exact remaining_eq_one.mpr last
    constructor
    · omega
    · exact fun _ => wakes last
  · obtain ⟨still, lowered⟩ := stays last
    have pred := remaining_pred last
    have positive := remaining_pos ((queues.task task).sleepTicks - 1)
    constructor
    · intro _
      refine ⟨still, ?_⟩
      rw [lowered]
      omega
    · omega

namespace Stable

variable {idle : TaskId} {kernel after : Kernel} {queues : Queues} {operation : Operation}
  {task : TaskId}

theorem sleepsFor_step (stable : Stable idle kernel queues)
    (allowed : operation.Allowed idle queues.all kernel)
    (returns : operation.Returns kernel after) (alive : task ∈ queues.all) {left : Nat}
    (enough : operation.schedules.toNat ≤ left) (sleeps : (kernel.task task).SleepsFor left) :
    (after.task task).SleepsFor (left - operation.schedules.toNat) := by
  cases schedules : operation.schedules with
  | false =>
      have waitsNot : Runnable (kernel.task task).status ∨
          (kernel.task task).status = .sleep := by
        rcases Nat.eq_zero_or_pos left with none | some
        · exact .inl (sleeps.awake none)
        · exact .inr (sleeps.asleep some).1
      rw [stable.task_of_not_schedules allowed returns schedules alive waitsNot]
      exact sleeps
  | true =>
      rw [schedules] at enough
      obtain ⟨calling, calls, reached⟩ := stable.scheduled allowed schedules returns
      rw [stable.tracks.represents.task] at sleeps
      have kept := stable.departed_sleeper allowed (sleeps.asleep enough).1
      rw [reached.represents.task]
      exact calls.departing.sleepsFor_schedule calls.tracks.represents.sleep.nodup
        (calls.sameAll ▸ alive) enough (kept.symm ▸ sleeps)

theorem sleepsFor_threadSleep {ms : UInt32} (stable : Stable idle kernel queues)
    (allowed : (Operation.threadSleep ms).Allowed idle queues.all kernel)
    (returns : (Operation.threadSleep ms).Returns kernel after) :
    (after.task kernel.cur).SleepsFor (sleepCalls ms - 1) := by
  obtain ⟨calling, calls, reached⟩ := stable.scheduled allowed rfl returns
  have asleep : ((departed queues (.threadSleep ms)).task queues.cur).SleepsFor
      (sleepCalls ms) := by
    constructor
    · intro _
      simp [departed, Queues.modifyTask, sleepCalls]
    · exact fun none => absurd none (Nat.ne_of_gt (remaining_pos _))
  rw [reached.represents.task, stable.tracks.represents.cur]
  exact calls.departing.sleepsFor_schedule calls.tracks.represents.sleep.nodup
    (calls.sameAll ▸ stable.settled.curAlive) (remaining_pos _) asleep

end Stable

theorem Later.sleepsFor {idle task : TaskId} {first after : Kernel} {alive tasks : List TaskId}
    {calls left : Nat} {queues : Queues} (later : Later idle first alive calls after tasks)
    (stable : Stable idle first queues) (all : queues.all = alive) (isAlive : task ∈ alive)
    (sleeps : (first.task task).SleepsFor left) (enough : calls ≤ left) :
    ∃ result, Stable idle after result ∧ result.all = tasks ∧ task ∈ tasks ∧
      (after.task task).SleepsFor (left - calls) := by
  induction later with
  | refl => exact ⟨queues, stable, all, isAlive, sleeps⟩
  | @step calls kernel after tasks operation later allowed returns ih =>
      obtain ⟨result, resultStable, rfl, member, resultSleeps⟩ := ih (by omega)
      obtain ⟨next, step, nextAll⟩ := resultStable.step_of_returns allowed returns
      have stays : operation ≠ .threadExit task := by
        rintro rfl
        have hanging := allowed.2
        rcases Nat.eq_zero_or_pos (left - calls) with none | some
        · have awake := resultSleeps.awake none
          simp [hanging, Runnable] at awake
        · have asleep := (resultSleeps.asleep some).1
          rw [hanging] at asleep
          cases asleep
      refine ⟨next, step.stable, nextAll, Operation.mem_tasks member stays, ?_⟩
      have counted := resultStable.sleepsFor_step allowed returns member (by omega) resultSleeps
      rwa [Nat.sub_sub] at counted

theorem Stable.wakesAfter {idle : TaskId} {kernel : Kernel} {queues : Queues} {ms : UInt32}
    (stable : Stable idle kernel queues)
    (allowed : (Operation.threadSleep ms).Allowed idle queues.all kernel) :
    WakesAfter idle kernel queues.all ms (sleepCalls ms) := by
  intro first returns calls after tasks later
  obtain ⟨result, step, all⟩ := stable.step_of_returns allowed returns
  have alive : kernel.cur ∈ queues.all :=
    stable.tracks.represents.cur ▸ stable.settled.curAlive
  have sleeps := stable.sleepsFor_threadSleep allowed returns
  constructor
  · intro before
    obtain ⟨-, -, -, -, still⟩ :=
      later.sleepsFor step.stable all alive sleeps (by omega)
    exact (still.asleep (by omega)).1
  · intro ends
    obtain ⟨-, -, -, -, still⟩ :=
      later.sleepsFor step.stable all alive sleeps (by omega)
    exact still.awake (by omega)

/-- A call of `schedule` treats the sleepers right exactly where each of them has a tick left
and at most ten have only that one.  A task that calls `thread_sleep` is ready after the call
that its ticks stand for, which is the one that the milliseconds ask for exactly where they
make a tick and do not wrap. -/
theorem schedule_wakes_iff {kernel : Kernel} {queues : Queues}
    (tracks : Tracks kernel kernel queues) :
    (WakesRight kernel queues.ready queues.sleep ↔ WakeGuard kernel queues.sleep) ∧
      ∀ (idle : TaskId) (ms : UInt32), queues.Settled idle →
        (Operation.threadSleep ms).Allowed idle queues.all kernel →
        WakesAfter idle kernel queues.all ms (sleepCalls ms) ∧
          (sleepCalls ms = max 1 (100 * ms.toNat / 1000) ↔ SleepGuard ms) := by
  refine ⟨⟨tracks.guard_of_wakesRight, tracks.wakesRight_of_guard⟩, ?_⟩
  intro idle ms settled allowed
  exact ⟨Stable.wakesAfter ⟨tracks, settled⟩ allowed, sleepCalls_eq_iff ms⟩

/-- The main thread sleeps for a second. -/
theorem schedule_wakes_second :
    ∃ kernel, Run 2 kernel [1, 2] ∧ WakesAfter 2 kernel [1, 2] 1000 100 := by
  obtain ⟨kernel, run, cur⟩ := run_idle_started
  obtain ⟨queues, stable, all⟩ := run.stable
  have allowed : (Operation.threadSleep 1000).Allowed 2 queues.all kernel := by
    rw [all]
    exact ⟨by decide, by rw [cur]; decide⟩
  have wakes := ((schedule_wakes_iff stable.tracks).2 2 1000 stable.settled allowed).1
  rw [all] at wakes
  exact ⟨kernel, run, wakes⟩

/-- A sleep of five milliseconds makes no tick, and lasts for `2 ^ 32` calls. -/
theorem short_sleep_overslept : ∃ kernel, Run 2 kernel [1, 2] ∧
    ¬ WakesAfter 2 kernel [1, 2] 5 (max 1 (100 * 5 / 1000)) := by
  obtain ⟨kernel, run, cur⟩ := run_idle_started
  obtain ⟨queues, stable, all⟩ := run.stable
  refine ⟨kernel, run, fun wakes => ?_⟩
  have allowed : (Operation.threadSleep 5).Allowed 2 queues.all kernel := by
    rw [all]
    exact ⟨by decide, by rw [cur]; decide⟩
  have room : (Operation.threadSleep 5).Room kernel queues.all := by
    rw [all]
    exact Nat.le_trans (List.length_filter_le _ _) (by decide)
  obtain ⟨first, -, returns, -⟩ := stable.step allowed fun _ => room
  have sleeps := stable.wakesAfter allowed first returns 0 first _ .refl
  have runnable := (wakes first returns 0 first _ .refl).2 rfl
  rw [sleeps.1 (by decide)] at runnable
  simp [Runnable] at runnable

end CleanOS.Thread
