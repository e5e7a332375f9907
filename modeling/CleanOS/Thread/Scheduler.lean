import CleanOS.Thread.Balance

/-!
# Runs of the scheduler

The steps that tasks and the timer take, the conditions under which they may
take them, and the invariant of the scheduler's lists over every run from
`enter_main_thread`.
-/

namespace CleanOS.Thread

open CleanOS.Lib CleanOS.Common LinkMemory

/-! ### Steps and runs -/

/-- The atomic steps.  `threadBlock` is the running task stopping itself, and
`threadReady` covers `set_thread_status` to `TASK_READY`, which is `thread_ready`
with `now` false. -/
inductive Operation where
  | threadStart (thread : TaskId) (priority : UInt32)
  | processFork (thread : TaskId) (pageDir : UInt32) (copyErr : Int)
  | processClone (thread : TaskId) (pageDir : UInt32)
      (sharesVm keepsParent : Bool)
  | schedule
  | threadYield
  | threadSleep (ms : UInt32)
  | threadBlock (status : TaskStatus)
  | threadReady (task : TaskId) (needSchedule now : Bool)
  | threadExit (task : TaskId)

namespace Operation

def exec (fuel : Nat) (kernel : Kernel) : Operation → Option Kernel
  | threadStart thread priority => kernel.threadStart thread priority
  | processFork thread pageDir copyErr =>
      kernel.processFork thread pageDir copyErr
  | processClone thread pageDir sharesVm keepsParent =>
      kernel.processClone thread pageDir sharesVm keepsParent
  | schedule => kernel.schedule fuel
  | threadYield => kernel.threadYield fuel
  | threadSleep ms => kernel.threadSleep fuel ms
  | threadBlock status => kernel.threadBlock fuel kernel.cur status
  | threadReady task needSchedule now =>
      kernel.threadReady fuel task needSchedule now
  | threadExit task => kernel.threadExit fuel task

/-- The step ends without a fault: from some amount of fuel on, its result no
longer depends on the fuel. -/
def Returns (operation : Operation) (kernel after : Kernel) : Prop :=
  ∃ bound, ∀ fuel, bound ≤ fuel → operation.exec fuel kernel = some after

def tasks (alive : List TaskId) : Operation → List TaskId
  | threadStart thread _ => alive ++ [thread]
  | processFork thread _ copyErr =>
      if copyErr = 0 then alive ++ [thread] else alive
  | processClone thread _ _ _ => alive ++ [thread]
  | threadExit task => alive.erase task
  | _ => alive

/-- A task whose sleep ends with the next tick, as seen by the `schedule` of the
step: the running task may just have started to sleep. -/
def Expires (kernel : Kernel) (task : TaskId) : Operation → Bool
  | threadSleep ms =>
      if task = kernel.cur then 100 * ms / 1000 - 1 = 0
      else (kernel.task task).status = .sleep ∧
        (kernel.task task).tickSleep.sleepTicks = 0
  | _ => (kernel.task task).status = .sleep ∧
      (kernel.task task).tickSleep.sleepTicks = 0

/-- The sleepers that expire fit into `wake_up_list`. -/
def Room (operation : Operation) (kernel : Kernel) (alive : List TaskId) : Prop :=
  (alive.filter fun task => operation.Expires kernel task).length ≤ 10

/-- Whether the step calls `schedule`. -/
def schedules : Operation → Bool
  | schedule => true
  | threadYield => true
  | threadSleep _ => true
  | threadBlock _ => true
  | threadReady _ needSchedule _ => needSchedule
  | _ => false

/-- When the step may be taken.  New tasks are given a page that no task uses;
the running task stops only once the idle thread has been started, and the idle
thread never stops. -/
def Allowed (idle : TaskId) (alive : List TaskId) (kernel : Kernel) :
    Operation → Prop
  | threadStart thread _ => thread ∉ alive
  | processFork thread _ _ => thread ∉ alive
  | processClone thread _ _ _ => thread ∉ alive
  | schedule => True
  | threadYield => True
  | threadSleep _ => idle ∈ alive ∧ kernel.cur ≠ idle
  | threadBlock status =>
      (status = .blocked ∨ status = .waiting ∨ status = .hanging) ∧
        idle ∈ alive ∧ kernel.cur ≠ idle
  | threadReady task _ _ =>
      task ∈ alive ∧
        ((kernel.task task).status = .blocked ∨
          (kernel.task task).status = .waiting)
  | threadExit task => task ∈ alive ∧ (kernel.task task).status = .hanging

theorem mem_tasks {operation : Operation} {alive : List TaskId} {task : TaskId}
    (member : task ∈ alive) (stays : operation ≠ threadExit task) :
    task ∈ operation.tasks alive := by
  cases operation with
  | threadExit other =>
      have different : task ≠ other := fun same => stays (by rw [same])
      exact (List.mem_erase_of_ne different).mpr member
  | processFork thread pageDir copyErr =>
      simp only [tasks]
      split
      · exact List.mem_append_left _ member
      · exact member
  | threadStart thread priority => exact List.mem_append_left _ member
  | processClone thread pageDir sharesVm keepsParent =>
      exact List.mem_append_left _ member
  | _ => exact member

end Operation

/-- The states that runs reach, each with the tasks that exist in it. -/
inductive Run (idle : TaskId) : Kernel → List TaskId → Prop where
  | start {boot kernel : Kernel} {kernelPageDir : UInt32}
      (entered : boot.initTask.enterMainThread kernelPageDir = some kernel) :
      Run idle kernel [boot.cur]
  | step {kernel after : Kernel} {alive : List TaskId} {operation : Operation}
      (run : Run idle kernel alive)
      (allowed : operation.Allowed idle alive kernel)
      (returns : operation.Returns kernel after) :
      Run idle after (operation.tasks alive)

/-- What the lists of the scheduler hold in a state with the tasks `alive`. -/
structure ListsConsistent (kernel : Kernel) (alive ready sleep : List TaskId) :
    Prop where
  readyHolds : QueueHolds kernel.links kernel.readyTasks .ready .general ready
  sleepHolds : QueueHolds kernel.links kernel.sleepTasks .sleep .general sleep
  readyNodup : ready.Nodup
  sleepNodup : sleep.Nodup
  readySize : kernel.readyTasks.size = ready.length
  sleepSize : kernel.sleepTasks.size = sleep.length
  readyAlive : ∀ task ∈ ready, task ∈ alive
  sleepAlive : ∀ task ∈ sleep, task ∈ alive
  readyIff : ∀ task ∈ alive, task ≠ kernel.cur →
    (task ∈ ready ↔ (kernel.task task).status = .ready ∨
      (kernel.task task).status = .running)
  curNotReady : kernel.cur ∉ ready
  sleepIff : ∀ task ∈ alive,
    (task ∈ sleep ↔ (kernel.task task).status = .sleep)

/-! ### New tasks -/

def TaskNode (thread : TaskId) (tag : Tag) : Prop :=
  ∃ embedded : Embedded, tag = embedded.tag thread

theorem QueueHolds.frame_taskNode {links after : FieldMemory Tag}
    {l : KernelList Tag} {queue : Queue} {embedded : Embedded}
    {tasks : List TaskId} {thread : TaskId}
    (holds : QueueHolds links l queue embedded tasks)
    (writes : Writes (TaskNode thread) links after) (outside : thread ∉ tasks) :
    QueueHolds after l queue embedded tasks := by
  refine ⟨holds.head, holds.tail, holds.holds.frame writes ?_⟩
  intro node member other touched
  rw [KernelList.mem_span, holds.head, holds.tail] at member
  rw [FieldMemory.apart_iff]
  obtain ⟨second, rfl⟩ := touched
  rcases member with rfl | member | rfl
  · exact (Embedded.tag_ne_head _ _ _).symm
  · obtain ⟨task, taskMember, rfl⟩ := List.mem_map.mp member
    intro equality
    obtain ⟨-, rfl⟩ := Embedded.tag_inj.mp equality
    exact outside taskMember
  · exact (Embedded.tag_ne_tail _ _ _).symm

/-- `prepared` differs from `kernel` only in the record and the nodes of
`thread` and in the pid bitmap. -/
structure Prepared (kernel prepared : Kernel) (thread : TaskId) : Prop where
  writes : Writes (TaskNode thread) kernel.links prepared.links
  readyTasks : prepared.readyTasks = kernel.readyTasks
  sleepTasks : prepared.sleepTasks = kernel.sleepTasks
  allTasks : prepared.allTasks = kernel.allTasks
  cur : prepared.cur = kernel.cur
  others : ∀ task, task ≠ thread → prepared.task task = kernel.task task

namespace Prepared

variable {kernel prepared : Kernel} {thread : TaskId}

theorem clearTag {links : FieldMemory Tag} (embedded : Embedded) :
    Writes (TaskNode thread) links
      (Kernel.clearTag links (embedded.tag thread)) :=
  .setNext _ (.setPre _ (.refl _) ⟨embedded, rfl⟩) ⟨embedded, rfl⟩

theorem copyTag {links : FieldMemory Tag} (embedded : Embedded) (source : Tag) :
    Writes (TaskNode thread) links
      (Kernel.copyTag links (embedded.tag thread) source) :=
  .setNext _ (.setPre _ (.refl _) ⟨embedded, rfl⟩) ⟨embedded, rfl⟩

theorem initThread (kernel : Kernel) (thread : TaskId) (priority : UInt32) :
    Prepared kernel (kernel.initThread thread priority) thread where
  writes := ((clearTag .general).trans (clearTag .waiter)).trans (clearTag .all)
  readyTasks := rfl
  sleepTasks := rfl
  allTasks := rfl
  cur := rfl
  others := by
    intro task different
    simp [Kernel.initThread, different]

theorem modifyTask (ready : Prepared kernel prepared thread)
    (change : Task → Task) :
    Prepared kernel (prepared.modifyTask thread change) thread where
  writes := ready.writes
  readyTasks := ready.readyTasks
  sleepTasks := ready.sleepTasks
  allTasks := ready.allTasks
  cur := ready.cur
  others := by
    intro task different
    simpa [Kernel.modifyTask, different] using ready.others task different

theorem allocPid (ready : Prepared kernel prepared thread) :
    Prepared kernel prepared.allocPid.1 thread := by
  unfold Kernel.allocPid
  dsimp only
  split
  · exact ready
  · exact ⟨ready.writes, ready.readyTasks, ready.sleepTasks, ready.allTasks,
      ready.cur, ready.others⟩

theorem copyPage (ready : Prepared kernel prepared thread) (source : TaskId)
    (record : Task) :
    Prepared kernel
      { prepared with
        links := Kernel.copyTag (Kernel.copyTag (Kernel.copyTag prepared.links
          (.general thread) (.general source)) (.waiter thread) (.waiter source))
          (.all thread) (.all source)
        task := Function.update prepared.task thread record } thread where
  writes := ((ready.writes.trans (copyTag .general _)).trans
    (copyTag .waiter _)).trans (copyTag .all _)
  readyTasks := ready.readyTasks
  sleepTasks := ready.sleepTasks
  allTasks := ready.allTasks
  cur := ready.cur
  others := by
    intro task different
    simpa [different] using ready.others task different

end Prepared

@[simp] theorem Kernel.allocPid_task (kernel : Kernel) :
    kernel.allocPid.1.task = kernel.task := by
  unfold Kernel.allocPid
  dsimp only
  split <;> rfl

theorem Kernel.initThread_runnable (kernel : Kernel) (thread : TaskId)
    (priority : UInt32) :
    Runnable ((kernel.initThread thread priority).task thread).status := by
  simp only [Kernel.initThread, Function.update_self, Runnable]
  split <;> simp

@[simp] theorem Kernel.allocPid_links (kernel : Kernel) :
    kernel.allocPid.1.links = kernel.links := by
  unfold Kernel.allocPid
  dsimp only
  split <;> rfl

/-! ### What a step preserves -/

structure Stable (idle : TaskId) (kernel : Kernel) (queues : Queues) : Prop where
  tracks : Tracks kernel kernel queues
  settled : queues.Settled idle

def Scratch (alive : List TaskId) (tag : Tag) : Prop :=
  SchedulerNode tag ∨ ∃ thread, thread ∉ alive ∧ TaskNode thread tag

/-- A step from one stable state to another.  Only `readied` may leave the
blocked state. -/
structure Step (idle : TaskId) (readied : Option TaskId) (kernel : Kernel)
    (queues : Queues) (after : Kernel) (result : Queues) : Prop where
  stable : Stable idle after result
  writes : Writes (Scratch queues.all) kernel.links after.links
  blocked : ∀ task ∈ queues.all, queues.status task = .blocked →
    some task ≠ readied → result.status task = .blocked

theorem Tracks.rebase {origin kernel : Kernel} {queues : Queues}
    (tracks : Tracks origin kernel queues) : Tracks kernel kernel queues :=
  ⟨tracks.represents, tracks.cleared, .refl _⟩

theorem Tracks.prepare {origin kernel prepared : Kernel} {queues : Queues}
    {thread : TaskId} (tracks : Tracks origin kernel queues)
    (prepares : Prepared kernel prepared thread) (fresh : thread ∉ queues.all)
    (readyAlive : ∀ task ∈ queues.ready, task ∈ queues.all)
    (sleepAlive : ∀ task ∈ queues.sleep, task ∈ queues.all) :
    Tracks prepared prepared { queues with task := prepared.task } := by
  obtain ⟨⟨ready, sleep, all, separate, -, cur⟩, cleared, -⟩ := tracks
  have readyOutside : thread ∉ queues.ready := fun member =>
    fresh (readyAlive thread member)
  have sleepOutside : thread ∉ queues.sleep := fun member =>
    fresh (sleepAlive thread member)
  refine ⟨⟨?_, ?_, ?_, separate, rfl, prepares.cur.trans cur⟩, ?_, .refl _⟩
  · rw [prepares.readyTasks]
    exact ready.frame_taskNode prepares.writes readyOutside
  · rw [prepares.sleepTasks]
    exact sleep.frame_taskNode prepares.writes sleepOutside
  · rw [prepares.allTasks]
    exact all.frame_taskNode prepares.writes fresh
  · intro task alive outsideReady outsideSleep
    have kept : pre prepared.links (.general task) =
        pre kernel.links (.general task) := by
      refine (prepares.writes.frame ?_).1
      rintro other ⟨embedded, rfl⟩
      rw [FieldMemory.apart_iff]
      intro equality
      obtain ⟨-, rfl⟩ := Embedded.tag_inj.mp
        (show Embedded.general.tag task = embedded.tag thread from equality)
      exact fresh alive
    exact kept.trans (cleared task alive outsideReady outsideSleep)

theorem Queues.Settled.start {idle : TaskId} {queues : Queues} {thread : TaskId}
    {records : TaskId → Task} (settled : queues.Settled idle)
    (fresh : thread ∉ queues.all)
    (others : ∀ task, task ≠ thread → records task = queues.task task)
    (runnable : Runnable (records thread).status) :
    Queues.Settled idle
      { queues with
        ready := queues.ready ++ [thread], all := queues.all ++ [thread]
        task := records } := by
  have different : ∀ task ∈ queues.all, task ≠ thread := by
    rintro task alive rfl
    exact fresh alive
  have sleepOutside : thread ∉ queues.sleep := fun member =>
    fresh (settled.sleepAlive thread member)
  refine ⟨⟨by simp [settled.curAlive], ?_, ?_, ?_, ?_, ?_⟩, ?_, ?_⟩
  · intro task member
    rcases List.mem_append.mp member with old | new
    · simp [settled.readyAlive task old]
    · simp [List.mem_singleton.mp new]
  · intro task member
    simp [settled.sleepAlive task member]
  · intro task alive
    rcases List.mem_append.mp alive with old | new
    · simpa [Queues.status, others task (different task old)] using
        settled.sleepIff task old
    · rw [List.mem_singleton.mp new]
      exact iff_of_false sleepOutside fun asleep =>
        Queues.not_runnable_sleep asleep runnable
  · intro task alive isOther
    rcases List.mem_append.mp alive with old | new
    · simpa [Queues.status, others task (different task old),
        different task old] using settled.readyIff task old isOther
    · rw [List.mem_singleton.mp new]
      exact iff_of_true (by simp) runnable
  · intro alive
    rcases List.mem_append.mp alive with old | new
    · simpa [Queues.status, others idle (different idle old)] using
        settled.idleRunnable old
    · rw [List.mem_singleton.mp new]
      exact runnable
  · simp [settled.curNotReady, different _ settled.curAlive]
  · simpa [Queues.status, others _ (different _ settled.curAlive)] using
      settled.curRunnable

namespace Stable

variable {idle : TaskId} {kernel : Kernel} {queues : Queues}

theorem create {prepared : Kernel} {thread : TaskId}
    (stable : Stable idle kernel queues)
    (prepares : Prepared kernel prepared thread) (fresh : thread ∉ queues.all)
    (runnable : Runnable (prepared.task thread).status) :
    ∃ after result,
      (prepared.pushReadyLast thread >>= fun pushed => pushed.pushAll thread) =
        some after ∧
      Step idle none kernel queues after result ∧
      result.all = queues.all ++ [thread] := by
  have settled := stable.settled
  have notReady : thread ∉ queues.ready := fun member =>
    fresh (settled.readyAlive thread member)
  have notAsleep : thread ∉ queues.sleep := fun member =>
    fresh (settled.sleepAlive thread member)
  have prepareTracks := stable.tracks.prepare prepares fresh settled.readyAlive
    settled.sleepAlive
  obtain ⟨pushed, pushSuccess, pushTracks⟩ :=
    prepareTracks.pushReadyLast notReady notAsleep
  obtain ⟨after, allSuccess, allTracks⟩ :=
    pushTracks.pushAll fresh (.inl (by simp))
  have others : ∀ task, task ≠ thread → prepared.task task = queues.task task := by
    intro task different
    rw [prepares.others task different, stable.tracks.represents.task]
  refine ⟨after, _, by simp [pushSuccess, allSuccess],
    ⟨⟨allTracks.rebase, settled.start fresh others runnable⟩, ?_, ?_⟩, rfl⟩
  · refine (prepares.writes.mono fun tag node => ?_).trans
      (allTracks.writes.mono fun tag node => .inl node)
    exact .inr ⟨thread, fresh, node⟩
  · intro task alive isBlocked _
    have different : task ≠ thread := fun same => fresh (same ▸ alive)
    simpa [Queues.status, others task different] using isBlocked

theorem abandon {prepared : Kernel} {thread : TaskId}
    (stable : Stable idle kernel queues)
    (prepares : Prepared kernel prepared thread) (fresh : thread ∉ queues.all) :
    Step idle none kernel queues prepared
      { queues with task := prepared.task } := by
  have settled := stable.settled
  have sameRecord : ∀ task ∈ queues.all,
      prepared.task task = queues.task task := by
    intro task alive
    have different : task ≠ thread := fun same => fresh (same ▸ alive)
    rw [prepares.others task different, stable.tracks.represents.task]
  refine ⟨⟨stable.tracks.prepare prepares fresh settled.readyAlive
    settled.sleepAlive, settled.withTask ?_⟩, ?_, ?_⟩
  · intro task alive
    rw [sameRecord task alive]
    rfl
  · exact prepares.writes.mono fun tag node => .inr ⟨thread, fresh, node⟩
  · intro task alive isBlocked _
    simpa [Queues.status, sameRecord task alive] using isBlocked

theorem threadStart {thread : TaskId} (stable : Stable idle kernel queues)
    (fresh : thread ∉ queues.all) (priority : UInt32) :
    ∃ after result, kernel.threadStart thread priority = some after ∧
      Step idle none kernel queues after result ∧
      result.all = queues.all ++ [thread] := by
  have prepares := (Prepared.initThread kernel thread priority).modifyTask
    fun task =>
      { task with
        pid := ((kernel.initThread thread priority).task kernel.cur).pid
        parentPid := ((kernel.initThread thread priority).task kernel.cur).parentPid
        pageDir := ((kernel.initThread thread priority).task kernel.cur).pageDir }
  refine stable.create prepares fresh ?_
  simp only [Kernel.modifyTask, Function.update_self]
  exact Kernel.initThread_runnable ..

theorem processClone {thread : TaskId} (stable : Stable idle kernel queues)
    (fresh : thread ∉ queues.all) (pageDir : UInt32) (sharesVm keepsParent : Bool) :
    ∃ after result,
      kernel.processClone thread pageDir sharesVm keepsParent = some after ∧
      Step idle none kernel queues after result ∧
      result.all = queues.all ++ [thread] := by
  have prepares := fun change => ((Prepared.initThread kernel thread
    (kernel.task kernel.cur).priority).allocPid).modifyTask change
  unfold Kernel.processClone
  dsimp only
  refine stable.create (prepares _) fresh ?_
  simp only [Kernel.modifyTask, Function.update_self, Kernel.allocPid_task]
  exact Kernel.initThread_runnable ..

theorem processFork {thread : TaskId} (stable : Stable idle kernel queues)
    (fresh : thread ∉ queues.all) (pageDir : UInt32) (copyErr : Int) :
    ∃ after result,
      kernel.processFork thread pageDir copyErr = some after ∧
      Step idle none kernel queues after result ∧
      result.all = if copyErr = 0 then queues.all ++ [thread] else queues.all := by
  have settled := stable.settled
  have curDifferent : kernel.cur ≠ thread := by
    intro same
    rw [stable.tracks.represents.cur] at same
    exact fresh (same ▸ settled.curAlive)
  have copied := fun record => (Prepared.initThread kernel thread
    (kernel.task kernel.cur).priority).copyPage kernel.cur record
  by_cases failed : copyErr = 0
  · rw [if_pos failed]
    have prepares := fun record change => (((copied record).modifyTask
      change).allocPid).modifyTask
    simp only [Kernel.processFork, Kernel.copyProcess, failed, ne_eq,
      not_true_eq_false, if_false]
    refine stable.create (prepares _ _ _) fresh ?_
    -- The child's page still holds the status of its running parent.
    have parentRunnable := settled.curRunnable
    rw [Queues.status, ← stable.tracks.represents.task,
      ← stable.tracks.represents.cur] at parentRunnable
    simpa [Kernel.modifyTask, Kernel.initThread, curDifferent] using parentRunnable
  · rw [if_neg failed]
    simp only [Kernel.processFork, Kernel.copyProcess, ne_eq, failed,
      not_false_eq_true, if_true]
    exact ⟨_, _, rfl, stable.abandon (copied _) fresh, rfl⟩

end Stable

/-! ### Steps of existing tasks -/

theorem Represents.unallocPid {kernel : Kernel} {queues : Queues}
    (represents : Represents kernel queues) (pid : UInt32) :
    Represents (kernel.unallocPid pid) queues :=
  ⟨represents.ready, represents.sleep, represents.all, represents.separate,
    represents.task, represents.cur⟩

namespace Tracks

variable {idle : TaskId} {origin kernel : Kernel} {queues : Queues}

theorem schedule_departing (tracks : Tracks origin kernel queues)
    (departing : queues.Departing idle) (room : queues.expiring ≤ 10) :
    ∃ after,
      (∀ fuel, queues.sleep.length < fuel → kernel.schedule fuel = some after) ∧
      Tracks origin after queues.schedule ∧ queues.schedule.Settled idle := by
  have represents := tracks.represents
  have sleepNodup := represents.sleep.nodup
  have choosing := departing.choosing sleepNodup
  rw [← departing.length_expired sleepNodup represents.all.nodup] at room
  obtain ⟨after, success, afterTracks⟩ := tracks.schedule room
    choosing.curOnlyFirst (fun wants => choosing.curAwake (Or.symm wants))
  exact ⟨after, success, afterTracks, departing.schedule sleepNodup
    represents.ready.nodup represents.separate⟩

theorem schedule_overflow (tracks : Tracks origin kernel queues)
    (departing : queues.Departing idle) (overflow : 10 < queues.expiring)
    (fuel : Nat) : kernel.schedule fuel = none := by
  have represents := tracks.represents
  rw [← departing.length_expired represents.sleep.nodup represents.all.nodup]
    at overflow
  simp [Kernel.schedule, tracks.tickLoop_overflow overflow]

theorem threadYield (tracks : Tracks origin kernel queues)
    (settled : queues.Settled idle) :
    ∃ calling, (∀ fuel, kernel.threadYield fuel = calling.schedule fuel) ∧
      Tracks origin calling (queues.modifyTask queues.cur
        fun task => { task with status := .ready }) := by
  refine ⟨_, ?_, tracks.modifyTask _ _⟩
  intro fuel
  have runnable := settled.curRunnable
  rw [Queues.status, ← tracks.represents.task, ← tracks.represents.cur] at runnable
  rw [← tracks.represents.cur]
  rcases runnable with isReady | isRunning
  · simp [Kernel.threadYield, Kernel.setThreadStatus, isReady]
  · simp [Kernel.threadYield, Kernel.setThreadStatus, isRunning]

theorem threadBlock {status : TaskStatus} (tracks : Tracks origin kernel queues)
    (settled : queues.Settled idle)
    (stops : status = .blocked ∨ status = .waiting ∨ status = .hanging) :
    ∃ calling,
      (∀ fuel, queues.ready.length < fuel →
        kernel.threadBlock fuel kernel.cur status = calling.schedule fuel) ∧
      Tracks origin calling
        (queues.modifyTask queues.cur fun task => { task with status }) := by
  refine ⟨_, ?_, tracks.modifyTask _ _⟩
  intro fuel enough
  have missing := tracks.removeReady_missing settled.curAlive settled.curNotReady
    (settled.curAwake settled.curRunnable) enough
  rw [← tracks.represents.cur] at missing ⊢
  rcases stops with rfl | rfl | rfl <;>
    simp [Kernel.threadBlock, Kernel.setThreadStatus, missing]

theorem threadSleep (tracks : Tracks origin kernel queues)
    (settled : queues.Settled idle) (ms : UInt32) :
    ∃ calling,
      (∀ fuel, queues.ready.length < fuel →
        kernel.threadSleep fuel ms = calling.schedule fuel) ∧
      Tracks origin calling (Queues.modifyTask
        { queues with sleep := queues.sleep ++ [queues.cur] } queues.cur
        fun task =>
          { task with sleepTicks := 100 * ms / 1000, status := .sleep }) := by
  have notReady := settled.curNotReady
  have notAsleep := settled.curAwake settled.curRunnable
  have timed := tracks.modifyTask queues.cur
    fun task => { task with sleepTicks := 100 * ms / 1000 }
  obtain ⟨pushed, pushSuccess, pushTracks⟩ := timed.pushSleep notReady notAsleep
  have marked := pushTracks.modifyTask queues.cur
    fun task => { task with status := .sleep }
  refine ⟨_, ?_, by simpa [Queues.modifyTask] using marked⟩
  intro fuel enough
  have missing := timed.removeReady_missing settled.curAlive notReady notAsleep
    enough
  rw [← tracks.represents.cur] at missing pushSuccess ⊢
  simp only [Kernel.threadSleep, Kernel.setThreadStatus]
  rw [show (kernel.modifyTask kernel.cur fun task =>
    { task with sleepTicks := 100 * ms / 1000 }).cur = kernel.cur from rfl]
  simp [missing, pushSuccess]

theorem threadReady {task : TaskId} (tracks : Tracks origin kernel queues)
    (settled : queues.Settled idle) (alive : task ∈ queues.all)
    (stopped : queues.status task = .blocked ∨ queues.status task = .waiting)
    (needSchedule now : Bool) :
    ∃ calling,
      (∀ fuel, kernel.threadReady fuel task needSchedule now =
        if needSchedule then calling.schedule fuel else some calling) ∧
      Tracks origin calling (queues.makeReady task now) ∧
      (queues.makeReady task now).Settled idle := by
  have notRunnable : ¬ Runnable (queues.status task) := by
    rcases stopped with equality | equality <;> simp [equality, Runnable]
  have awake : queues.status task ≠ .sleep := by
    rcases stopped with equality | equality <;> simp [equality]
  have notCur : task ≠ queues.cur := by
    rintro rfl
    exact notRunnable settled.curRunnable
  have notReady : task ∉ queues.ready := fun member =>
    notRunnable ((settled.readyIff task alive notCur).mp member)
  have notAsleep : task ∉ queues.sleep := fun member =>
    awake ((settled.sleepIff task alive).mp member)
  have pushNeeded : (kernel.task task).status ≠ .ready ∧
      (kernel.task task).status ≠ .running := by
    rw [tracks.represents.task]
    exact not_or.mp notRunnable
  have readiedSettled : (queues.makeReady task now).Settled idle := by
    refine settled.makeReady alive notRunnable awake ?_
    intro other
    cases now
    · simp [or_comm]
    · simp
  cases now with
  | false =>
      obtain ⟨pushed, pushSuccess, pushTracks⟩ :=
        tracks.pushReadyLast notReady notAsleep
      refine ⟨_, ?_, pushTracks.modifyTask _ _, readiedSettled⟩
      intro fuel
      simp [Kernel.threadReady, Kernel.setThreadStatus, pushNeeded, pushSuccess]
  | true =>
      obtain ⟨pushed, pushSuccess, pushTracks⟩ :=
        tracks.pushReadyFirst notReady notAsleep
      refine ⟨_, ?_, pushTracks.modifyTask _ _, readiedSettled⟩
      intro fuel
      simp [Kernel.threadReady, Kernel.setThreadStatus, pushNeeded, pushSuccess]

theorem threadExit {task : TaskId} (tracks : Tracks origin kernel queues)
    (settled : queues.Settled idle) (alive : task ∈ queues.all)
    (hanging : queues.status task = .hanging) :
    let exited : Queues :=
      { queues.modifyTask task (fun record => { record with status := .died })
        with all := queues.all.erase task }
    ∃ after,
      (∀ fuel, queues.ready.length + queues.all.length < fuel →
        kernel.threadExit fuel task = some after) ∧
      Tracks origin after exited ∧ exited.Settled idle := by
  intro exited
  have notRunnable : ¬ Runnable (queues.status task) := by
    simp [hanging, Runnable]
  have awake : queues.status task ≠ .sleep := by simp [hanging]
  have notCur : task ≠ queues.cur := by
    rintro rfl
    exact notRunnable settled.curRunnable
  have notReady : task ∉ queues.ready := fun member =>
    notRunnable ((settled.readyIff task alive notCur).mp member)
  have notAsleep : task ∉ queues.sleep := fun member =>
    awake ((settled.sleepIff task alive).mp member)
  have marked := tracks.modifyTask task
    fun record => { record with status := .died }
  obtain ⟨removed, removeSuccess, removeTracks, removedTask⟩ :=
    marked.removeAll alive
  refine ⟨removed.unallocPid (removed.task task).pid, ?_, ?_,
    settled.exit tracks.represents.all.nodup alive notRunnable awake⟩
  · intro fuel enough
    have enoughReady : queues.ready.length < fuel := by omega
    have missing := tracks.removeReady_missing alive notReady notAsleep enoughReady
    have missingAgain := marked.removeReady_missing alive notReady notAsleep
      enoughReady
    have erased := removeSuccess fuel (by
      change queues.all.length ≤ fuel
      omega)
    simp [Kernel.threadExit, Kernel.setThreadStatus, missing, missingAgain, erased]
  · exact ⟨removeTracks.represents.unallocPid _, removeTracks.cleared,
      removeTracks.writes⟩

end Tracks

/-! ### Every step and every run -/

namespace Queues

variable {idle : TaskId} {queues : Queues} {task : TaskId}

theorem Settled.ne_cur_of_blocked (settled : queues.Settled idle)
    (blocked : queues.status task = .blocked) : task ≠ queues.cur := by
  rintro rfl
  have runnable := settled.curRunnable
  simp [blocked, Runnable] at runnable

theorem Departing.blocked_schedule (departing : queues.Departing idle)
    (nodup : queues.sleep.Nodup) (alive : task ∈ queues.all)
    (blocked : queues.status task = .blocked) :
    queues.schedule.status task = .blocked := by
  rw [departing.status_schedule nodup alive (by simp [blocked, Runnable])
    (by simp [blocked]), blocked]

end Queues

namespace Stable

variable {idle : TaskId} {kernel : Kernel} {queues : Queues}

/-- What each step does before it calls `schedule`. -/
def departed (queues : Queues) : Operation → Queues
  | .threadYield =>
      queues.modifyTask queues.cur fun task => { task with status := .ready }
  | .threadSleep ms =>
      Queues.modifyTask { queues with sleep := queues.sleep ++ [queues.cur] }
        queues.cur fun task =>
          { task with sleepTicks := 100 * ms / 1000, status := .sleep }
  | .threadBlock status =>
      queues.modifyTask queues.cur fun task => { task with status }
  | .threadReady task _ now => queues.makeReady task now
  | _ => queues

def readied : Operation → Option TaskId
  | .threadReady task _ _ => some task
  | _ => none

/-- A step that calls `schedule` calls it from a state in which the running task
may leave. -/
structure Calls (idle : TaskId) (operation : Operation) (kernel : Kernel)
    (queues : Queues) (calling : Kernel) : Prop where
  returns : ∃ bound, ∀ fuel, bound ≤ fuel →
    operation.exec fuel kernel = calling.schedule fuel
  tracks : Tracks kernel calling (departed queues operation)
  departing : (departed queues operation).Departing idle
  room : operation.Room kernel queues.all ↔
    (departed queues operation).expiring ≤ 10
  sameAll : (departed queues operation).all = queues.all
  blocked : ∀ task, queues.status task = .blocked →
    some task ≠ readied operation →
    (departed queues operation).status task = .blocked

private theorem room_iff (stable : Stable idle kernel queues)
    {operation : Operation}
    (plain : ∀ task, operation.Expires kernel task =
      decide ((kernel.task task).status = .sleep ∧
        (kernel.task task).tickSleep.sleepTicks = 0)) :
    operation.Room kernel queues.all ↔ queues.expiring ≤ 10 := by
  unfold Operation.Room Queues.expiring Queues.status
  rw [← stable.tracks.represents.task]
  simp only [plain]

theorem calls {operation : Operation} (stable : Stable idle kernel queues)
    (allowed : operation.Allowed idle queues.all kernel)
    (schedules : operation.schedules = true) :
    ∃ calling, Calls idle operation kernel queues calling := by
  have tracks := stable.tracks
  have settled := stable.settled
  have curEq := tracks.represents.cur
  have taskEq := tracks.represents.task
  have curAwake : queues.status queues.cur ≠ .sleep := fun asleep =>
    Queues.not_runnable_sleep asleep settled.curRunnable
  have different : ∀ task, queues.status task = .blocked → task ≠ queues.cur :=
    fun task => settled.ne_cur_of_blocked
  cases operation with
  | schedule =>
      exact ⟨kernel, ⟨0, fun _ _ => rfl⟩, tracks, settled.departing,
        stable.room_iff fun _ => rfl, rfl, fun _ blocked _ => blocked⟩
  | threadYield =>
      obtain ⟨calling, success, callTracks⟩ := tracks.threadYield settled
      refine ⟨calling, ⟨0, fun fuel _ => success fuel⟩, callTracks, settled.yield,
        ?_, rfl, ?_⟩
      · rw [departed, Queues.expiring_modifyTask _ curAwake (by simp)]
        exact stable.room_iff fun _ => rfl
      · intro task blocked _
        rw [departed, Queues.status_modifyTask_of_ne _ (different task blocked),
          blocked]
  | threadSleep ms =>
      obtain ⟨idleAlive, notIdle⟩ := allowed
      obtain ⟨calling, success, callTracks⟩ := tracks.threadSleep settled ms
      refine ⟨calling, ⟨_, fun fuel enough => success fuel enough⟩, callTracks,
        settled.fallAsleep (fun task =>
          { task with sleepTicks := 100 * ms / 1000, status := .sleep })
          idleAlive (curEq ▸ notIdle) rfl, ?_, rfl, ?_⟩
      · refine iff_of_eq (congrArg (· ≤ 10) (congrArg List.length ?_))
        apply List.filter_congr
        intro task _
        by_cases isCur : task = queues.cur
        · simp [Operation.Expires, departed, curEq, isCur, Queues.status,
            Queues.modifyTask, Task.tickSleep]
        · simp [Operation.Expires, departed, curEq, taskEq, isCur, Queues.status,
            Queues.modifyTask]
      · intro task blocked _
        rw [departed, Queues.status_modifyTask_of_ne _ (different task blocked)]
        exact blocked
  | threadBlock status =>
      obtain ⟨stops, idleAlive, notIdle⟩ := allowed
      have awake : status ≠ .sleep := by
        rcases stops with rfl | rfl | rfl <;> simp
      obtain ⟨calling, success, callTracks⟩ := tracks.threadBlock settled stops
      refine ⟨calling, ⟨_, fun fuel enough => success fuel enough⟩, callTracks,
        settled.stop idleAlive (curEq ▸ notIdle) awake, ?_, rfl, ?_⟩
      · rw [departed, Queues.expiring_modifyTask _ curAwake awake]
        exact stable.room_iff fun _ => rfl
      · intro task blocked _
        rw [departed, Queues.status_modifyTask_of_ne _ (different task blocked),
          blocked]
  | threadReady task needSchedule now =>
      obtain ⟨alive, stopped⟩ := allowed
      rw [taskEq] at stopped
      obtain rfl : needSchedule = true := schedules
      have awake : queues.status task ≠ .sleep := by
        rcases stopped with equality | equality <;> simp [Queues.status, equality]
      obtain ⟨calling, success, callTracks, readiedSettled⟩ :=
        tracks.threadReady settled alive stopped true now
      refine ⟨calling, ⟨0, fun fuel _ => success fuel⟩, callTracks,
        readiedSettled.departing, ?_, rfl, ?_⟩
      · rw [departed, Queues.expiring_makeReady awake]
        exact stable.room_iff fun _ => rfl
      · intro other blocked notReadied
        have notTask : other ≠ task := fun same =>
          notReadied (by simp [same, readied])
        rw [departed, Queues.makeReady, Queues.status_modifyTask_of_ne _ notTask]
        exact blocked
  | _ => cases schedules

theorem room_of_returns {operation : Operation} {after : Kernel}
    (stable : Stable idle kernel queues)
    (allowed : operation.Allowed idle queues.all kernel)
    (schedules : operation.schedules = true)
    (returns : operation.Returns kernel after) :
    operation.Room kernel queues.all := by
  obtain ⟨calling, ⟨callBound, callSuccess⟩, tracks, departing, room, -, -⟩ :=
    stable.calls allowed schedules
  obtain ⟨bound, success⟩ := returns
  rw [room]
  by_contra overflow
  have result := success (max bound callBound) (Nat.le_max_left ..)
  rw [callSuccess _ (Nat.le_max_right ..),
    tracks.schedule_overflow departing (Nat.lt_of_not_le overflow)] at result
  cases result

theorem step_schedules {operation : Operation} (stable : Stable idle kernel queues)
    (allowed : operation.Allowed idle queues.all kernel)
    (schedules : operation.schedules = true)
    (room : operation.Room kernel queues.all) :
    ∃ after result, operation.Returns kernel after ∧
      Step idle (readied operation) kernel queues after result ∧
      result.all = queues.all := by
  obtain ⟨calling, ⟨bound, success⟩, tracks, departing, roomIff, sameAll,
    blocked⟩ := stable.calls allowed schedules
  obtain ⟨after, scheduled, afterTracks, settled⟩ :=
    tracks.schedule_departing departing (roomIff.mp room)
  refine ⟨after, _, ⟨max bound ((departed queues operation).sleep.length + 1), ?_⟩,
    ⟨⟨afterTracks.rebase, settled⟩, afterTracks.writes.mono fun _ => .inl, ?_⟩,
    (Queues.all_schedule _).trans sameAll⟩
  · intro fuel enough
    rw [success fuel (by omega), scheduled fuel (by omega)]
  · intro task alive isBlocked notReadied
    exact departing.blocked_schedule tracks.represents.sleep.nodup
      (sameAll ▸ alive) (blocked task isBlocked notReadied)

theorem step {operation : Operation} (stable : Stable idle kernel queues)
    (allowed : operation.Allowed idle queues.all kernel)
    (room : operation.schedules = true → operation.Room kernel queues.all) :
    ∃ after result, operation.Returns kernel after ∧
      Step idle (readied operation) kernel queues after result ∧
      result.all = operation.tasks queues.all := by
  cases operation with
  | threadStart thread priority =>
      obtain ⟨after, result, success, step, all⟩ :=
        stable.threadStart allowed priority
      exact ⟨after, result, ⟨0, fun _ _ => success⟩, step, all⟩
  | processFork thread pageDir copyErr =>
      obtain ⟨after, result, success, step, all⟩ :=
        stable.processFork allowed pageDir copyErr
      exact ⟨after, result, ⟨0, fun _ _ => success⟩, step, all⟩
  | processClone thread pageDir sharesVm keepsParent =>
      obtain ⟨after, result, success, step, all⟩ :=
        stable.processClone allowed pageDir sharesVm keepsParent
      exact ⟨after, result, ⟨0, fun _ _ => success⟩, step, all⟩
  | threadReady task needSchedule now =>
      cases needSchedule with
      | true => exact stable.step_schedules allowed rfl (room rfl)
      | false =>
          obtain ⟨alive, stopped⟩ := allowed
          rw [stable.tracks.represents.task] at stopped
          obtain ⟨after, success, afterTracks, settled⟩ :=
            stable.tracks.threadReady stable.settled alive stopped false now
          refine ⟨after, _, ⟨0, fun fuel _ => success fuel⟩,
            ⟨⟨afterTracks.rebase, settled⟩, afterTracks.writes.mono fun _ => .inl,
              ?_⟩, rfl⟩
          intro other _ blocked notReadied
          have different : other ≠ task := fun same =>
            notReadied (by simp [same, readied])
          rw [Queues.makeReady, Queues.status_modifyTask_of_ne _ different]
          exact blocked
  | threadExit task =>
      obtain ⟨alive, hanging⟩ := allowed
      rw [stable.tracks.represents.task] at hanging
      obtain ⟨after, success, afterTracks, afterSettled⟩ :=
        stable.tracks.threadExit stable.settled alive hanging
      refine ⟨after, _, ⟨_, fun fuel enough => success fuel enough⟩,
        ⟨⟨afterTracks.rebase, afterSettled⟩,
          afterTracks.writes.mono fun _ => .inl, ?_⟩, rfl⟩
      intro other _ blocked _
      have different : other ≠ task := by
        rintro rfl
        rw [Queues.status, hanging] at blocked
        cases blocked
      simpa [Queues.status, Queues.modifyTask, different] using blocked
  | schedule => exact stable.step_schedules allowed rfl (room rfl)
  | threadYield => exact stable.step_schedules allowed rfl (room rfl)
  | threadSleep ms => exact stable.step_schedules allowed rfl (room rfl)
  | threadBlock status => exact stable.step_schedules allowed rfl (room rfl)

theorem step_of_returns {operation : Operation} {after : Kernel}
    (stable : Stable idle kernel queues)
    (allowed : operation.Allowed idle queues.all kernel)
    (returns : operation.Returns kernel after) :
    ∃ result, Step idle (readied operation) kernel queues after result ∧
      result.all = operation.tasks queues.all := by
  obtain ⟨reached, result, ⟨bound, success⟩, step, all⟩ := stable.step allowed
    fun schedules => stable.room_of_returns allowed schedules returns
  obtain ⟨otherBound, otherSuccess⟩ := returns
  obtain rfl : reached = after := by
    have first := success (max bound otherBound) (Nat.le_max_left ..)
    rw [otherSuccess _ (Nat.le_max_right ..)] at first
    exact (Option.some.inj first).symm
  exact ⟨result, step, all⟩

theorem scheduled {operation : Operation} {after : Kernel}
    (stable : Stable idle kernel queues)
    (allowed : operation.Allowed idle queues.all kernel)
    (schedules : operation.schedules = true)
    (returns : operation.Returns kernel after) :
    ∃ calling, Calls idle operation kernel queues calling ∧
      Tracks kernel after (departed queues operation).schedule := by
  have room := stable.room_of_returns allowed schedules returns
  obtain ⟨calling, calls⟩ := stable.calls allowed schedules
  obtain ⟨callBound, callSuccess⟩ := calls.returns
  obtain ⟨reached, scheduled, reachedTracks, -⟩ :=
    calls.tracks.schedule_departing calls.departing (calls.room.mp room)
  obtain ⟨bound, success⟩ := returns
  obtain rfl : reached = after := by
    have result := success (max bound (max callBound
      ((departed queues operation).sleep.length + 1))) (by omega)
    rw [callSuccess _ (by omega), scheduled _ (by omega)] at result
    exact Option.some.inj result
  exact ⟨calling, calls, reachedTracks⟩

theorem status_threadBlock {after : Kernel} (stable : Stable idle kernel queues)
    (allowed : Operation.Allowed idle queues.all kernel (.threadBlock .blocked))
    (returns : (Operation.threadBlock .blocked).Returns kernel after) :
    (after.task kernel.cur).status = .blocked := by
  obtain ⟨calling, calls, reachedTracks⟩ := stable.scheduled allowed rfl returns
  rw [reachedTracks.represents.task, stable.tracks.represents.cur]
  refine calls.departing.blocked_schedule calls.tracks.represents.sleep.nodup
    stable.settled.curAlive ?_
  rw [departed, Queues.status_modifyTask_self]

theorem listsConsistent (stable : Stable idle kernel queues) :
    ListsConsistent kernel queues.all queues.ready queues.sleep := by
  obtain ⟨⟨⟨ready, sleep, -, -, task, cur⟩, -, -⟩, settled⟩ := stable
  refine ⟨ready, sleep, ready.nodup, sleep.nodup, ready.size, sleep.size,
    settled.readyAlive, settled.sleepAlive, ?_, ?_, ?_⟩
  · rw [task, cur]
    exact settled.readyIff
  · rw [cur]
    exact settled.curNotReady
  · rw [task]
    exact settled.sleepIff

end Stable

theorem tracks_initTask (boot : Kernel) :
    Tracks boot.initTask boot.initTask
      { ready := [], sleep := [], all := [], task := boot.task, cur := boot.cur } := by
  have ready := QueueHolds.init boot.links .ready .general
  have all := QueueHolds.init
    (KernelList.initList boot.links (Kernel.emptyList .ready)).1 .all .all
  have allWrites := QueueHolds.init_writes
    (KernelList.initList boot.links (Kernel.emptyList .ready)).1 .all .all
  have sleepWrites := QueueHolds.init_writes (KernelList.initList
    (KernelList.initList boot.links (Kernel.emptyList .ready)).1
    (Kernel.emptyList .all)).1 .sleep .general
  refine ⟨⟨?_, QueueHolds.init _ .sleep .general, ?_, by simp, rfl, rfl⟩,
    by simp, .refl _⟩
  · exact (ready.frame allWrites (by simp) (by simp)).frame sleepWrites (by simp)
      (by simp)
  · exact all.frame sleepWrites (by simp) (by simp)

theorem stable_enterMainThread (idle : TaskId) (boot : Kernel)
    (kernelPageDir : UInt32) :
    ∃ kernel queues,
      boot.initTask.enterMainThread kernelPageDir = some kernel ∧
      Stable idle kernel queues ∧ queues.all = [boot.cur] := by
  let entering : Kernel := { boot.initTask with mainThread := boot.cur }
  have prepares : ∀ change, Prepared boot.initTask
      (((entering.initThread boot.cur 31).allocPid.1).modifyTask boot.cur change)
      boot.cur := by
    intro change
    have initialised : Prepared boot.initTask (entering.initThread boot.cur 31)
        boot.cur := by
      obtain ⟨writes, readyTasks, sleepTasks, allTasks, cur, others⟩ :=
        Prepared.initThread entering boot.cur 31
      exact ⟨writes, readyTasks, sleepTasks, allTasks, cur, others⟩
    exact initialised.allocPid.modifyTask change
  have prepareTracks := fun change => (tracks_initTask boot).prepare
    (prepares change) (by simp) (by simp) (by simp)
  have pushes := fun change => (prepareTracks change).pushAll
    (show boot.cur ∉ [] by simp) (.inr (.inr (by
      simp [Kernel.modifyTask, Kernel.initThread, Kernel.clearTag,
        FieldMemory.apart_iff])))
  have running : ∀ change : Task → Task,
      (∀ task, (change task).status = task.status) →
      (((((entering.initThread boot.cur 31).allocPid.1).modifyTask boot.cur
        change).task boot.cur).status = .running) := by
    intro change keeps
    simp [Kernel.modifyTask, keeps, Kernel.initThread, entering]
  let change : Task → Task := fun task =>
    { task with
      pageDir := kernelPageDir, pid := (entering.initThread boot.cur 31).allocPid.2
      parentPid := 0xffffffff }
  obtain ⟨kernel, success, tracks⟩ := pushes change
  have isRunning := running change fun _ => rfl
  refine ⟨kernel, _, ?_, ⟨tracks.rebase, ?_⟩, rfl⟩
  · rw [← success]
    rfl
  · refine ⟨⟨by simp, by simp, by simp, ?_, ?_, ?_⟩, by simp, .inr isRunning⟩
    · intro task alive
      rw [show task = boot.cur by simpa using alive]
      simp [Queues.status, isRunning]
    · intro task alive isOther
      exact absurd (by simpa using alive) isOther
    · intro alive
      rw [show idle = boot.cur by simpa using alive]
      exact .inr isRunning

theorem Run.stable {idle : TaskId} {kernel : Kernel} {alive : List TaskId}
    (run : Run idle kernel alive) :
    ∃ queues, Stable idle kernel queues ∧ queues.all = alive := by
  induction run with
  | @start boot kernel kernelPageDir entered =>
      obtain ⟨reached, queues, success, stable, all⟩ :=
        stable_enterMainThread idle boot kernelPageDir
      obtain rfl : reached = kernel := by
        rw [success] at entered
        exact Option.some.inj entered
      exact ⟨queues, stable, all⟩
  | @step kernel after alive operation run allowed returns ih =>
      obtain ⟨queues, stable, rfl⟩ := ih
      obtain ⟨result, step, all⟩ := stable.step_of_returns allowed returns
      exact ⟨result, step.stable, all⟩

/-- In every state that a run reaches, the lists are consistent with the task
records, and every step that is allowed there ends without a fault unless more
than ten sleepers expire in it. -/
theorem run_listsConsistent {idle : TaskId} {kernel : Kernel} {alive : List TaskId}
    (run : Run idle kernel alive) :
    (∃ ready sleep, ListsConsistent kernel alive ready sleep) ∧
      ∀ operation : Operation, operation.Allowed idle alive kernel →
        operation.Room kernel alive → ∃ after, operation.Returns kernel after := by
  obtain ⟨queues, stable, rfl⟩ := run.stable
  refine ⟨⟨queues.ready, queues.sleep, stable.listsConsistent⟩, ?_⟩
  intro operation allowed room
  obtain ⟨after, result, returns, -⟩ := stable.step allowed fun _ => room
  exact ⟨after, returns⟩

def Kernel.blank : Kernel where
  links := { pre := fun _ => none, next := fun _ => none }
  readyTasks := emptyList .ready
  sleepTasks := emptyList .sleep
  allTasks := emptyList .all
  pidAlloc := { bytesLen := 0, bits := fun _ => 0 }
  mainThread := 0
  task := fun _ =>
    { status := .unknown, pid := 0, parentPid := 0, priority := 0, ticks := 0
      elapsetTicks := 0, sleepTicks := 0, pageDir := 0 }
  cur := 1

theorem run_idle_started : ∃ kernel, Run 2 kernel [1, 2] ∧ kernel.cur = 1 := by
  obtain ⟨main, queues, entered, stable, all⟩ :=
    stable_enterMainThread 2 Kernel.blank 0
  have mainRun : Run 2 main [1] := .start entered
  have fresh : (2 : TaskId) ∉ queues.all := by
    rw [all]
    decide
  obtain ⟨started, -, success, -⟩ := stable.threadStart fresh 31
  have returns : (Operation.threadStart 2 31).Returns main started :=
    ⟨0, fun _ _ => success⟩
  refine ⟨started, mainRun.step (by simp [Operation.Allowed]) returns, ?_⟩
  have evaluated : ((Kernel.blank.initTask.enterMainThread 0).bind
      fun kernel => kernel.threadStart 2 31).map Kernel.cur = some 1 := rfl
  rw [entered, Option.bind_some, success] at evaluated
  exact Option.some.inj evaluated

theorem run_listsConsistent_idle :
    ∃ kernel, Run 2 kernel [1, 2] ∧
      ∃ ready sleep, ListsConsistent kernel [1, 2] ready sleep := by
  obtain ⟨kernel, run, -⟩ := run_idle_started
  exact ⟨kernel, run, (run_listsConsistent run).1⟩

end CleanOS.Thread
