import CleanOS.Thread.TaskQueue

/-!
# The scheduler over sequences

`Queues` is the scheduler with sequences of tasks in place of linked lists.
Each operation of `Kernel` runs without a fault from a state that tracks a
`Queues` and ends in one that tracks the result of the operation there.
-/

namespace CleanOS.Thread

open CleanOS.Lib CleanOS.Common LinkMemory

/-- The tasks in each list, the task records and the running task. -/
structure Queues where
  ready : List TaskId
  sleep : List TaskId
  all : List TaskId
  task : TaskId → Task
  cur : TaskId

namespace Queues

def modifyTask (queues : Queues) (task : TaskId) (change : Task → Task) : Queues :=
  { queues with
    task := Function.update queues.task task (change (queues.task task)) }

def tick (queues : Queues) : Queues :=
  { queues with
    task := fun task =>
      if task ∈ queues.sleep then (queues.task task).tickSleep
      else queues.task task }

def expired (queues : Queues) : List TaskId :=
  queues.sleep.filter fun task => (queues.task task).tickSleep.sleepTicks = 0

def wake (queues : Queues) (woken : List TaskId) : Queues :=
  { queues with
    ready := woken.reverse ++ queues.ready
    sleep := queues.sleep.filter (· ∉ woken)
    task := fun task =>
      if task ∈ woken then { queues.task task with status := .ready }
      else queues.task task }

def wakeOne (queues : Queues) (task : TaskId) : Queues :=
  { queues with
    ready := task :: queues.ready
    sleep := queues.sleep.erase task
    task := Function.update queues.task task
      { queues.task task with status := .ready } }

theorem wake_wakeOne {queues : Queues} {task : TaskId} {woken : List TaskId}
    (nodup : queues.sleep.Nodup) (notLater : task ∉ woken) :
    (queues.wakeOne task).wake woken = queues.wake (task :: woken) := by
  simp only [wake, wakeOne, Queues.mk.injEq, and_true, List.reverse_cons,
    List.append_assoc, List.singleton_append, true_and]
  refine ⟨?_, ?_⟩
  · rw [nodup.erase_eq_filter, List.filter_filter]
    apply List.filter_congr
    intro other _
    by_cases same : other = task <;> simp [same, notLater]
  · funext other
    by_cases same : other = task
    · subst same
      simp [notLater]
    · simp [same]

def requeueCurrent (queues : Queues) : Queues :=
  let queues :=
    if (queues.task queues.cur).status = .running then
      queues.modifyTask queues.cur fun task => { task with status := .ready }
    else queues
  if (queues.task queues.cur).status = .ready then
    { queues with ready := queues.ready ++ [queues.cur] }
  else queues

def dispatch (queues : Queues) : Queues :=
  match queues.ready with
  | [] => queues
  | next :: rest =>
      let queues := { queues with ready := rest }
      let queues := queues.modifyTask next fun task =>
        { task with ticks := task.priority }
      if queues.cur = next then queues
      else
        { queues.requeueCurrent.modifyTask next
            (fun task => { task with status := .running })
          with cur := next }

def schedule (queues : Queues) : Queues :=
  let queues := queues.tick.wake queues.expired
  if (queues.task queues.cur).status = .running ∧
      0 < (queues.task queues.cur).ticks then
    queues.modifyTask queues.cur fun task =>
      { task with
        elapsetTicks := task.elapsetTicks + 1, ticks := task.ticks - 1 }
  else queues.dispatch

end Queues

def SchedulerNode (tag : Tag) : Prop :=
  tag = .head .ready ∨ tag = .tail .ready ∨ tag = .head .sleep ∨
    tag = .tail .sleep ∨ tag = .head .all ∨ tag = .tail .all ∨
    (∃ task, tag = .general task) ∨ (∃ task, tag = .all task)

theorem schedulerNode_ready {tasks : List TaskId} {tag : Tag}
    (node : QueueNode .ready .general tasks tag) : SchedulerNode tag := by
  rcases node with rfl | rfl | ⟨task, -, rfl⟩
  · simp [SchedulerNode]
  · simp [SchedulerNode]
  · simp [SchedulerNode, Embedded.tag]

theorem schedulerNode_sleep {tasks : List TaskId} {tag : Tag}
    (node : QueueNode .sleep .general tasks tag) : SchedulerNode tag := by
  rcases node with rfl | rfl | ⟨task, -, rfl⟩
  · simp [SchedulerNode]
  · simp [SchedulerNode]
  · simp [SchedulerNode, Embedded.tag]

theorem schedulerNode_all {tasks : List TaskId} {tag : Tag}
    (node : QueueNode .all .all tasks tag) : SchedulerNode tag := by
  rcases node with rfl | rfl | ⟨task, -, rfl⟩
  · simp [SchedulerNode]
  · simp [SchedulerNode]
  · simp [SchedulerNode, Embedded.tag]

/-- The three lists of a kernel state thread the sequences of `queues`. -/
structure Represents (kernel : Kernel) (queues : Queues) : Prop where
  ready : QueueHolds kernel.links kernel.readyTasks .ready .general queues.ready
  sleep : QueueHolds kernel.links kernel.sleepTasks .sleep .general queues.sleep
  all : QueueHolds kernel.links kernel.allTasks .all .all queues.all
  separate : ∀ task ∈ queues.ready, task ∉ queues.sleep
  task : kernel.task = queues.task
  cur : kernel.cur = queues.cur

/-- A state that represents `queues`, in which tasks that are neither ready nor
asleep have a cleared node, and whose links differ from those of `origin` only
at the scheduler's nodes. -/
structure Tracks (origin kernel : Kernel) (queues : Queues) : Prop where
  represents : Represents kernel queues
  cleared : ∀ task ∈ queues.all, task ∉ queues.ready → task ∉ queues.sleep →
    pre kernel.links (.general task) = none
  writes : Writes SchedulerNode origin.links kernel.links

namespace Tracks

variable {origin kernel : Kernel} {queues : Queues} {task : TaskId}

theorem modifyTask (tracks : Tracks origin kernel queues) (task : TaskId)
    (change : Task → Task) :
    Tracks origin (kernel.modifyTask task change)
      (queues.modifyTask task change) := by
  obtain ⟨⟨ready, sleep, all, separate, taskEq, cur⟩, cleared, writes⟩ := tracks
  refine ⟨⟨ready, sleep, all, separate, ?_, cur⟩, cleared, writes⟩
  simp [Kernel.modifyTask, Queues.modifyTask, taskEq]

theorem withTask (tracks : Tracks origin kernel queues)
    (records : TaskId → Task) :
    Tracks origin { kernel with task := records }
      { queues with task := records } := by
  obtain ⟨⟨ready, sleep, all, separate, -, cur⟩, cleared, writes⟩ := tracks
  exact ⟨⟨ready, sleep, all, separate, rfl, cur⟩, cleared, writes⟩

theorem withCur (tracks : Tracks origin kernel queues) (next : TaskId) :
    Tracks origin { kernel with cur := next } { queues with cur := next } := by
  obtain ⟨⟨ready, sleep, all, separate, taskEq, -⟩, cleared, writes⟩ := tracks
  exact ⟨⟨ready, sleep, all, separate, taskEq, rfl⟩, cleared, writes⟩

private theorem enterReady (tracks : Tracks origin kernel queues)
    (notAsleep : task ∉ queues.sleep) {links : FieldMemory Tag} {grown : KernelList Tag}
    {ready : List TaskId} (holds : QueueHolds links grown .ready .general ready)
    (wrote : Writes (QueueNode .ready .general (task :: queues.ready)) kernel.links links)
    (entered : ∀ other, other ∈ ready ↔ other = task ∨ other ∈ queues.ready) :
    Tracks origin { kernel with links, readyTasks := grown } { queues with ready := ready } := by
  obtain ⟨⟨-, sleep, all, separate, taskEq, cur⟩, cleared, writes⟩ := tracks
  refine ⟨⟨holds, sleep.frame wrote (by simp) ?_, all.frame wrote (by simp) (by simp),
      ?_, taskEq, cur⟩, ?_, writes.trans (wrote.mono fun _ => schedulerNode_ready)⟩
  · intro _ other member
    simp only [List.mem_cons, not_or]
    refine ⟨?_, fun inReady => separate other inReady member⟩
    intro same
    exact notAsleep (same ▸ member)
  · intro other member
    rcases (entered other).mp member with new | old
    · rw [new]
      exact notAsleep
    · exact separate other old
  · intro other alive outsideReady outsideSleep
    simp only [entered, not_or] at outsideReady
    have kept := pre_of_queue_writes .general other wrote (by simp [outsideReady])
    exact kept.trans (cleared other alive outsideReady.2 outsideSleep)

theorem pushReadyLast (tracks : Tracks origin kernel queues)
    (notReady : task ∉ queues.ready) (notAsleep : task ∉ queues.sleep) :
    ∃ after, kernel.pushReadyLast task = some after ∧
      Tracks origin after { queues with ready := queues.ready ++ [task] } := by
  obtain ⟨links, grown, success, holds, wrote⟩ := tracks.represents.ready.pushr notReady
  simp only [Embedded.tag] at success
  refine ⟨_, by simp [Kernel.pushReadyLast, success],
    tracks.enterReady notAsleep holds wrote ?_⟩
  simp [or_comm]

theorem pushReadyFirst (tracks : Tracks origin kernel queues)
    (notReady : task ∉ queues.ready) (notAsleep : task ∉ queues.sleep) :
    ∃ after, kernel.pushReadyFirst task = some after ∧
      Tracks origin after { queues with ready := task :: queues.ready } := by
  obtain ⟨links, grown, success, holds, wrote⟩ := tracks.represents.ready.pushl notReady
  simp only [Embedded.tag] at success
  refine ⟨_, by simp [Kernel.pushReadyFirst, success],
    tracks.enterReady notAsleep holds wrote ?_⟩
  simp

theorem pushSleep (tracks : Tracks origin kernel queues)
    (notReady : task ∉ queues.ready) (notAsleep : task ∉ queues.sleep) :
    ∃ after, kernel.pushSleep task = some after ∧
      Tracks origin after { queues with sleep := queues.sleep ++ [task] } := by
  obtain ⟨⟨ready, sleep, all, separate, taskEq, cur⟩, cleared, writes⟩ := tracks
  obtain ⟨links, grown, success, holds, wrote⟩ := sleep.pushr notAsleep
  simp only [Embedded.tag] at success
  refine ⟨{ kernel with links, sleepTasks := grown },
    by simp [Kernel.pushSleep, success],
    ⟨ready.frame wrote (by simp) ?_, holds, all.frame wrote (by simp) (by simp),
      ?_, taskEq, cur⟩, ?_, writes.trans (wrote.mono fun _ => schedulerNode_sleep)⟩
  · intro _ other member
    simp only [List.mem_cons, not_or]
    refine ⟨?_, separate other member⟩
    intro same
    exact notReady (same ▸ member)
  · intro other member
    simp only [List.mem_append, List.mem_singleton, not_or]
    refine ⟨separate other member, ?_⟩
    intro same
    exact notReady (same ▸ member)
  · intro other alive outsideReady outsideSleep
    simp only [List.mem_append, List.mem_singleton, not_or] at outsideSleep
    have kept := pre_of_queue_writes .general other
      wrote (by simp [outsideSleep])
    exact kept.trans (cleared other alive outsideReady outsideSleep.1)

theorem pushAll (tracks : Tracks origin kernel queues)
    (fresh : task ∉ queues.all)
    (queued : task ∈ queues.ready ∨ task ∈ queues.sleep ∨
      pre kernel.links (.general task) = none) :
    ∃ after, kernel.pushAll task = some after ∧
      Tracks origin after { queues with all := queues.all ++ [task] } := by
  obtain ⟨⟨ready, sleep, all, separate, taskEq, cur⟩, cleared, writes⟩ := tracks
  obtain ⟨links, grown, success, holds, wrote⟩ := all.pushr fresh
  simp only [Embedded.tag] at success
  refine ⟨{ kernel with links, allTasks := grown },
    by simp [Kernel.pushAll, success],
    ⟨ready.frame wrote (by simp) (by simp), sleep.frame wrote (by simp) (by simp),
      holds, separate, taskEq, cur⟩, ?_,
    writes.trans (wrote.mono fun _ => schedulerNode_all)⟩
  intro other alive outsideReady outsideSleep
  have kept := pre_of_queue_writes .general other
    wrote (by simp)
  refine kept.trans ?_
  rcases List.mem_append.mp alive with old | new
  · exact cleared other old outsideReady outsideSleep
  · rw [List.mem_singleton.mp new] at outsideReady outsideSleep ⊢
    rcases queued with isReady | isAsleep | clear
    · exact absurd isReady outsideReady
    · exact absurd isAsleep outsideSleep
    · exact clear

theorem removeReady_missing (tracks : Tracks origin kernel queues)
    (alive : task ∈ queues.all) (notReady : task ∉ queues.ready)
    (notAsleep : task ∉ queues.sleep) {fuel : Nat}
    (enough : queues.ready.length < fuel) :
    kernel.removeReady fuel task = some kernel := by
  have missing := tracks.represents.ready.remove_missing notReady enough
    (tracks.cleared task alive notReady notAsleep)
  simp only [Embedded.tag] at missing
  simp [Kernel.removeReady, missing]

theorem removeAll (tracks : Tracks origin kernel queues)
    (alive : task ∈ queues.all) :
    ∃ after,
      (∀ fuel, queues.all.length ≤ fuel →
        kernel.removeAll fuel task = some after) ∧
      Tracks origin after { queues with all := queues.all.erase task } ∧
      after.task = kernel.task := by
  obtain ⟨⟨ready, sleep, all, separate, taskEq, cur⟩, cleared, writes⟩ := tracks
  obtain ⟨links, shrunk, success, holds, wrote⟩ := all.remove alive
  simp only [Embedded.tag] at success
  refine ⟨{ kernel with links, allTasks := shrunk },
    fun fuel enough => by simp [Kernel.removeAll, success fuel enough],
    ⟨⟨ready.frame wrote (by simp) (by simp),
      sleep.frame wrote (by simp) (by simp), holds, separate, taskEq, cur⟩, ?_,
      writes.trans (wrote.mono fun _ => schedulerNode_all)⟩, rfl⟩
  intro other otherAlive outsideReady outsideSleep
  have kept := pre_of_queue_writes .general other
    wrote (by simp)
  exact kept.trans (cleared other (List.mem_of_mem_erase otherAlive)
    outsideReady outsideSleep)

theorem popReady_cons (tracks : Tracks origin kernel queues)
    {next : TaskId} {rest : List TaskId} (split : queues.ready = next :: rest) :
    ∃ links readyTasks,
      KernelList.popl kernel.links kernel.readyTasks =
        some (links, readyTasks, some (.general next)) ∧
      Tracks origin { kernel with links, readyTasks }
        { queues with ready := rest } := by
  obtain ⟨⟨ready, sleep, all, separate, taskEq, cur⟩, cleared, writes⟩ := tracks
  rw [split] at ready
  obtain ⟨links, shrunk, success, holds, wrote, clear⟩ := ready.popl_cons
  simp only [Embedded.tag] at success clear
  refine ⟨links, shrunk, success,
    ⟨holds, sleep.frame wrote (by simp) ?_, all.frame wrote (by simp) (by simp),
      ?_, taskEq, cur⟩, ?_, writes.trans (wrote.mono fun _ => schedulerNode_ready)⟩
  · intro _ other member inReady
    exact separate other (split ▸ inReady) member
  · intro other member
    exact separate other (by simp [split, member])
  · intro other alive outsideReady outsideSleep
    by_cases same : other = next
    · rw [same]
      exact clear
    · have outside : other ∉ next :: rest := by
        simp [same]
        exact outsideReady
      have kept := pre_of_queue_writes .general other
        wrote (fun _ => outside)
      exact kept.trans (cleared other alive (split ▸ outside) outsideSleep)

theorem wakeOne (tracks : Tracks origin kernel queues)
    (asleep : task ∈ queues.sleep) :
    ∃ removed pushed,
      (∀ fuel, queues.sleep.length ≤ fuel →
        kernel.removeSleep fuel task = some removed) ∧
      removed.pushReadyFirst task = some pushed ∧
      Tracks origin
        (pushed.modifyTask task fun record => { record with status := .ready })
        (queues.wakeOne task) := by
  obtain ⟨⟨ready, sleep, all, separate, taskEq, cur⟩, cleared, writes⟩ := tracks
  have notReady : task ∉ queues.ready := fun inReady =>
    separate task inReady asleep
  have gone : task ∉ queues.sleep.erase task := sleep.nodup.not_mem_erase
  have stillAsleep : ∀ other, other ∈ queues.sleep.erase task →
      other ∈ queues.sleep := fun _ => List.mem_of_mem_erase
  obtain ⟨middle, shrunk, removeSuccess, sleepHolds, removeWrote⟩ :=
    sleep.remove asleep
  have readyMiddle := ready.frame removeWrote (by simp) (by
    intro _ other inReady inSleep
    exact separate other inReady (stillAsleep other inSleep))
  obtain ⟨links, grown, pushSuccess, readyHolds, pushWrote⟩ :=
    readyMiddle.pushl notReady
  simp only [Embedded.tag] at removeSuccess pushSuccess
  refine ⟨{ kernel with links := middle, sleepTasks := shrunk },
    { kernel with links, readyTasks := grown, sleepTasks := shrunk },
    fun fuel enough => by simp [Kernel.removeSleep, removeSuccess fuel enough],
    by simp [Kernel.pushReadyFirst, pushSuccess],
    ⟨readyHolds, sleepHolds.frame pushWrote (by simp) ?_,
      (all.frame removeWrote (by simp) (by simp)).frame pushWrote (by simp)
        (by simp), ?_, ?_, cur⟩, ?_,
    (writes.trans (removeWrote.mono fun _ => schedulerNode_sleep)).trans
      (pushWrote.mono fun _ => schedulerNode_ready)⟩
  · intro _ other member
    simp only [List.mem_cons, not_or]
    refine ⟨?_, fun inReady => separate other inReady (stillAsleep other member)⟩
    intro same
    exact gone (same ▸ member)
  · intro other member inSleep
    rcases List.mem_cons.mp member with new | old
    · exact gone (new ▸ inSleep)
    · exact separate other old (stillAsleep other inSleep)
  · simp [Kernel.modifyTask, Queues.wakeOne, taskEq]
  · intro other alive outsideReady outsideSleep
    simp only [Queues.wakeOne, List.mem_cons, not_or] at outsideReady outsideSleep
    have notAsleep : other ∉ queues.sleep := by
      intro inSleep
      exact outsideSleep ((List.mem_erase_of_ne outsideReady.1).mpr inSleep)
    have keptMiddle := pre_of_queue_writes .general other
      removeWrote (fun _ => outsideSleep)
    have keptLast := pre_of_queue_writes .general other
      pushWrote (by simp [outsideReady])
    exact keptLast.trans (keptMiddle.trans
      (cleared other alive outsideReady.2 notAsleep))

theorem wakeLoop (tracks : Tracks origin kernel queues) (woken : List TaskId)
    (asleep : ∀ task ∈ woken, task ∈ queues.sleep) (nodup : woken.Nodup) :
    ∃ after,
      (∀ fuel, queues.sleep.length ≤ fuel →
        Kernel.wakeLoop fuel woken kernel = some after) ∧
      Tracks origin after (queues.wake woken) := by
  induction woken generalizing kernel queues with
  | nil =>
      refine ⟨kernel, fun _ _ => rfl, ?_⟩
      simpa [Queues.wake] using tracks
  | cons task rest ih =>
      obtain ⟨removed, pushed, removeSuccess, pushSuccess, tracked⟩ :=
        tracks.wakeOne (asleep task (by simp))
      have notLater : task ∉ rest := (List.nodup_cons.mp nodup).1
      obtain ⟨after, success, afterTracks⟩ := ih tracked
        (by
          intro other member
          have different : other ≠ task := fun same => notLater (same ▸ member)
          exact (List.mem_erase_of_ne different).mpr
            (asleep other (by simp [member])))
        (List.nodup_cons.mp nodup).2
      refine ⟨after, ?_, ?_⟩
      · intro fuel enough
        have stillEnough : (queues.sleep.erase task).length ≤ fuel :=
          Nat.le_trans (List.length_erase_le ..) enough
        simp [Kernel.wakeLoop, removeSuccess fuel enough, pushSuccess,
          success fuel stillEnough]
      rw [← Queues.wake_wakeOne tracks.represents.sleep.nodup notLater]
      exact afterTracks

private theorem filter_expired {rest : List TaskId} {task : TaskId} {records : TaskId → Task}
    (outside : task ∉ rest) :
    (rest.filter fun other => ((Function.update records task (records task).tickSleep)
        other).tickSleep.sleepTicks = 0) =
      rest.filter fun other => (records other).tickSleep.sleepTicks = 0 := by
  apply List.filter_congr
  intro other member
  have different : other ≠ task := fun same => outside (same ▸ member)
  simp [different]

/-- The loop over the sleepers decrements each of them once and collects the
expired ones in order; the eleventh one is written past the end of `wake_up_list`. -/
private theorem tickLoop_chain {links : FieldMemory Tag} {rest : List TaskId} {fuel : Nat}
    {records : TaskId → Task} {wakeUpList : List TaskId}
    (chain : List.IsChain (Adjacent links) (rest.map Tag.general ++ [.tail .sleep]))
    (nodup : rest.Nodup) (bounded : wakeUpList.length ≤ 10) :
    Kernel.tickLoop links (.tail .sleep) fuel (rest.map Tag.general ++ [Tag.tail .sleep]).head?
        records wakeUpList =
      if rest.length < fuel ∧ (wakeUpList ++ rest.filter fun task =>
          (records task).tickSleep.sleepTicks = 0).length ≤ 10 then
        some (fun task =>
          if task ∈ rest then (records task).tickSleep else records task,
          wakeUpList ++ rest.filter fun task => (records task).tickSleep.sleepTicks = 0)
      else none := by
  induction rest generalizing fuel records wakeUpList with
  | nil =>
      cases fuel with
      | zero => rfl
      | succ fuel => simp [Kernel.tickLoop, bounded]
  | cons task rest ih =>
      cases fuel with
      | zero => simp [Kernel.tickLoop]
      | succ fuel =>
          have outside : task ∉ rest := (List.nodup_cons.mp nodup).1
          obtain ⟨isNext, restChain⟩ := chain_next (List.cons_ne_nil _ _) chain
          -- The rest of the loop sees the records with `task` already decremented.
          have recordsEq : (fun other =>
              if other ∈ rest then
                (Function.update records task (records task).tickSleep other).tickSleep
              else Function.update records task (records task).tickSleep other) =
              fun other => if other ∈ task :: rest then (records other).tickSleep
                else records other := by
            funext other
            by_cases same : other = task
            · subst same
              simp [outside]
            · simp [same]
          have step := fun wakeUpList => @ih fuel
            (Function.update records task (records task).tickSleep)
            wakeUpList restChain (List.nodup_cons.mp nodup).2
          rw [filter_expired outside, recordsEq] at step
          rw [List.map_cons, List.cons_append, List.head?_cons, Kernel.tickLoop]
          simp only [reduceCtorEq, if_false, Function.update_self, isNext]
          by_cases ends : (records task).tickSleep.sleepTicks = 0
          · rw [List.filter_cons_of_pos (by simpa using ends), if_pos ends]
            by_cases roomNow : wakeUpList.length < 10
            · rw [if_pos roomNow, step _ (by rw [List.length_append]; exact roomNow)]
              simp
            · rw [if_neg roomNow, if_neg]
              simp
              omega
          · rw [List.filter_cons_of_neg (by simpa using ends), if_neg ends, step _ bounded]
            simp

private theorem tickLoop_eq {fuel : Nat} (tracks : Tracks origin kernel queues) :
    Kernel.tickLoop kernel.links kernel.sleepTasks.tail fuel
        (next kernel.links kernel.sleepTasks.head) kernel.task [] =
      if queues.sleep.length < fuel ∧ queues.expired.length ≤ 10 then
        some (queues.tick.task, queues.expired)
      else none := by
  have sleep := tracks.represents.sleep
  obtain ⟨isNext, chain⟩ := chain_next (List.cons_ne_nil _ _) sleep.holds.linked.chain
  rw [isNext, sleep.tail, tracks.represents.task]
  rw [sleep.tail] at chain
  exact tickLoop_chain chain sleep.nodup (Nat.zero_le _)

theorem tickLoop {fuel : Nat} (tracks : Tracks origin kernel queues)
    (enough : queues.sleep.length < fuel)
    (room : queues.expired.length ≤ 10) :
    Kernel.tickLoop kernel.links kernel.sleepTasks.tail fuel
        (next kernel.links kernel.sleepTasks.head) kernel.task [] =
      some (queues.tick.task, queues.expired) := by
  rw [tracks.tickLoop_eq, if_pos ⟨enough, room⟩]

theorem tickLoop_overflow {fuel : Nat} (tracks : Tracks origin kernel queues)
    (overflow : 10 < queues.expired.length) :
    Kernel.tickLoop kernel.links kernel.sleepTasks.tail fuel
        (next kernel.links kernel.sleepTasks.head) kernel.task [] = none := by
  rw [tracks.tickLoop_eq, if_neg fun both => Nat.not_le.mpr overflow both.2]

theorem requeueCurrent (tracks : Tracks origin kernel queues)
    (notReady : queues.cur ∉ queues.ready)
    (awake : (queues.task queues.cur).status = .running ∨
      (queues.task queues.cur).status = .ready → queues.cur ∉ queues.sleep) :
    ∃ after, kernel.requeueCurrent = some after ∧
      Tracks origin after queues.requeueCurrent := by
  have curEq := tracks.represents.cur
  have taskEq := tracks.represents.task
  by_cases running : (queues.task queues.cur).status = .running
  · have preempted := tracks.modifyTask queues.cur
      fun task => { task with status := .ready }
    have pushed := preempted.pushReadyLast notReady (awake (.inl running))
    simpa [Kernel.requeueCurrent, Queues.requeueCurrent, Kernel.modifyTask,
      Queues.modifyTask, curEq, taskEq, running] using pushed
  · by_cases isReady : (queues.task queues.cur).status = .ready
    · have pushed := tracks.pushReadyLast notReady (awake (.inr isReady))
      simpa [Kernel.requeueCurrent, Queues.requeueCurrent, curEq, taskEq,
        isReady] using pushed
    · simpa [Kernel.requeueCurrent, Queues.requeueCurrent, curEq, taskEq,
        running, isReady] using tracks

theorem dispatch (tracks : Tracks origin kernel queues)
    (notWaiting : queues.cur ∉ queues.ready.tail)
    (awake : (queues.task queues.cur).status = .running ∨
      (queues.task queues.cur).status = .ready → queues.cur ∉ queues.sleep) :
    ∃ after, kernel.dispatch = some after ∧
      Tracks origin after queues.dispatch := by
  have curEq := tracks.represents.cur
  cases split : queues.ready with
  | nil =>
      have ready := tracks.represents.ready
      rw [split] at ready
      refine ⟨kernel, by simp [Kernel.dispatch, ready.popl_nil], ?_⟩
      simpa [Queues.dispatch, split] using tracks
  | cons chosen rest =>
      obtain ⟨links, readyTasks, success, popped⟩ := tracks.popReady_cons split
      have refilled := popped.modifyTask chosen
        fun task => { task with ticks := task.priority }
      have outside : queues.cur ∉ rest := by simpa [split] using notWaiting
      simp only [Kernel.dispatch, success, Option.bind_eq_bind, Option.bind_some,
        Queues.dispatch, split]
      by_cases same : queues.cur = chosen
      · rw [if_pos (by simpa [Kernel.modifyTask, curEq] using same),
          if_pos (by simpa [Queues.modifyTask] using same)]
        exact ⟨_, rfl, refilled⟩
      · rw [if_neg (by simpa [Kernel.modifyTask, curEq] using same),
          if_neg (by simpa [Queues.modifyTask] using same)]
        obtain ⟨requeued, requeueSuccess, requeueTracks⟩ :=
          refilled.requeueCurrent outside (by
            simpa [Queues.modifyTask, same] using awake)
        rw [requeueSuccess]
        exact ⟨_, rfl, (requeueTracks.modifyTask _ _).withCur chosen⟩

theorem wakeUp (tracks : Tracks origin kernel queues)
    (room : queues.expired.length ≤ 10) :
    ∃ woken,
      (∀ fuel, queues.sleep.length < fuel → kernel.wakeUp fuel = some woken) ∧
      Tracks origin woken (queues.tick.wake queues.expired) := by
  have ticked : Tracks origin { kernel with task := queues.tick.task }
      queues.tick := tracks.withTask queues.tick.task
  obtain ⟨woken, success, wokenTracks⟩ := ticked.wakeLoop queues.expired
    (fun task member => (List.mem_filter.mp member).1)
    (tracks.represents.sleep.nodup.filter _)
  refine ⟨woken, ?_, wokenTracks⟩
  intro fuel enough
  simp only [Kernel.wakeUp, tracks.tickLoop enough room, Option.bind_eq_bind,
    Option.bind_some]
  exact success fuel (Nat.le_of_lt enough)

/-- `schedule` follows the abstract scheduler from any state in which the
running task is not queued, except for sleeping at the end of the list. -/
theorem schedule (tracks : Tracks origin kernel queues)
    (room : queues.expired.length ≤ 10)
    (notWaiting :
      queues.cur ∉ (queues.tick.wake queues.expired).ready.tail)
    (awake :
      ((queues.tick.wake queues.expired).task queues.cur).status = .running ∨
      ((queues.tick.wake queues.expired).task queues.cur).status = .ready →
        queues.cur ∉ (queues.tick.wake queues.expired).sleep) :
    ∃ after,
      (∀ fuel, queues.sleep.length < fuel →
        kernel.schedule fuel = some after) ∧
      Tracks origin after queues.schedule := by
  obtain ⟨woken, wakeSuccess, wokenTracks⟩ := tracks.wakeUp room
  have wokenCur := wokenTracks.represents.cur
  have wokenTask := wokenTracks.represents.task
  have curKept : (queues.tick.wake queues.expired).cur = queues.cur := rfl
  have unfolded : ∀ fuel, queues.sleep.length < fuel →
      kernel.schedule fuel = woken.keepOrDispatch := by
    intro fuel enough
    rw [Kernel.schedule_eq, wakeSuccess fuel enough, Option.bind_some]
  simp only [Kernel.keepOrDispatch] at unfolded
  rw [wokenTask, wokenCur] at unfolded
  unfold Queues.schedule
  dsimp only
  split at unfolded
  · rename_i keeps
    rw [if_pos keeps]
    exact ⟨_, unfolded, wokenTracks.modifyTask _ _⟩
  · rename_i changes
    rw [if_neg changes]
    obtain ⟨after, success, afterTracks⟩ :=
      wokenTracks.dispatch (curKept ▸ notWaiting) (curKept ▸ awake)
    exact ⟨after, fun fuel enough => (unfolded fuel enough).trans success,
      afterTracks⟩

end Tracks

end CleanOS.Thread
