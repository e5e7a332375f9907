import CleanOS.Thread.Scheduler

/-!
# Segments

`kernel/thread/schedule/segment.c`: counting semaphores whose waiters are queued
through the `waiter_tag` of their tasks.  A pid pointer is modelled by the value
it points to, and the null pointer by `none`.
-/

namespace CleanOS.Thread

open CleanOS.Lib CleanOS.Common LinkMemory

/-- `segment_t`. -/
structure Segment where
  count : UInt32
  waiters : KernelList Tag

/-- `init_segment`, for the segment with the given address. -/
def initSegment (kernel : Kernel) (address : Nat) (count : UInt32) :
    Kernel × Segment :=
  let (links, waiters) :=
    KernelList.initList kernel.links (Kernel.emptyList (.waiters address))
  ({ kernel with links }, { count, waiters })

/-- `segment_wait`.  The last component is what the pid pointer then points
to. -/
def segmentWait (fuel : Nat) (kernel : Kernel) (segment : Segment)
    (pid : Option UInt32) : Option (Kernel × Segment × Option UInt32) :=
  let pid := pid.map fun _ => (kernel.task kernel.cur).pid
  if 0 < segment.count then
    some (kernel, { segment with count := segment.count - 1 }, pid)
  else do
    let (links, waiters) ←
      KernelList.pushr kernel.links segment.waiters (.waiter kernel.cur)
    let kernel ←
      { kernel with links }.setThreadStatus fuel kernel.cur .blocked true false
    return (kernel, { segment with waiters }, pid)

/-- `find_by_pid_visitor`. -/
def findByPidVisitor (kernel : Kernel) (pid : UInt32) : Tag → Bool
  | .waiter task => (kernel.task task).pid = pid
  | _ => false

/-- `segment_wakeup`.  `*pid` is written only when a waiter was found. -/
def segmentWakeup (fuel : Nat) (kernel : Kernel) (segment : Segment)
    (pid : Option UInt32) : Option (Kernel × Segment × Option UInt32) := do
  let (kernel, segment, tag) ←
    match pid with
    | some wanted =>
        if wanted ≠ 0 then do
          let tag ← KernelList.find fuel kernel.links segment.waiters
            (findByPidVisitor kernel wanted)
          some (kernel, segment, tag)
        else do
          let (links, waiters, tag) ←
            KernelList.popl kernel.links segment.waiters
          some ({ kernel with links }, { segment with waiters }, tag)
    | none => do
        let (links, waiters, tag) ← KernelList.popl kernel.links segment.waiters
        some ({ kernel with links }, { segment with waiters }, tag)
  match tag with
  | some (.waiter task) =>
      match pid with
      | none => none
      | some _ => do
          let pid := (kernel.task task).pid
          let kernel ← kernel.threadReady fuel task false true
          return (kernel, segment, some pid)
  | some _ => none
  | none => return (kernel, { segment with count := segment.count + 1 }, pid)

/-- What can happen to a segment: calls by the running task, and steps of the
scheduler that are not about this segment. -/
inductive SegmentCall where
  | wait (pid : Option UInt32)
  | wakeup (pid : Option UInt32)
  | other (operation : Operation)

def SegmentCall.exec (fuel : Nat) (kernel : Kernel) (segment : Segment) :
    SegmentCall → Option (Kernel × Segment × Option UInt32)
  | wait pid => segmentWait fuel kernel segment pid
  | wakeup pid => segmentWakeup fuel kernel segment pid
  | other operation => do
      let kernel ← operation.exec fuel kernel
      return (kernel, segment, none)

/-- A state together with what has happened so far: the existing tasks, the
tasks suspended inside `segment_wait`, how many calls of it have completed, how
many wakeups there were, and the pids that waits have stored. -/
structure History where
  kernel : Kernel
  segment : Segment
  alive : List TaskId
  inside : List TaskId
  completed : Nat
  wakeups : Nat
  stored : List UInt32

namespace History

def Returns (history : History) (call : SegmentCall) (kernel : Kernel)
    (segment : Segment) (pid : Option UInt32) : Prop :=
  ∃ bound, ∀ fuel, bound ≤ fuel →
    call.exec fuel history.kernel history.segment = some (kernel, segment, pid)

/-- When the step may be taken.  The idle thread never blocks, and tasks that
wait for this segment are made ready by nobody else.  A wakeup passes no pointer,
or one to a pid that a wait has stored. -/
def Allowed (idle : TaskId) (history : History) : SegmentCall → Prop
  | .wait _ => history.segment.count = 0 →
      Operation.Allowed idle history.alive history.kernel (.threadBlock .blocked)
  | .wakeup pid => ∀ wanted, pid = some wanted → wanted ∈ history.stored
  | .other operation => operation.Allowed idle history.alive history.kernel ∧
      ∀ task ∈ history.inside, some task ≠ Stable.readied operation

/-- A wakeup that behaves: nobody waits, or the caller provides a pid that is
zero. -/
def Safe (history : History) : SegmentCall → Prop
  | .wakeup pid => history.segment.waiters.size = 0 ∨ pid = some 0
  | _ => True

/-- Bring the books up to date after a step.  `entering` are the tasks that the
step suspended inside `segment_wait`; one that is no longer blocked leaves. -/
def advance (history : History) (kernel : Kernel) (segment : Segment)
    (entering : List TaskId) : History :=
  { history with
    kernel, segment
    inside := (history.inside ++ entering).filter
      fun task => (kernel.task task).status = .blocked
    completed := history.completed + ((history.inside ++ entering).filter
      fun task => (kernel.task task).status ≠ .blocked).length }

def after (history : History) (kernel : Kernel) (segment : Segment)
    (pid : Option UInt32) : SegmentCall → History
  | .wait _ =>
      let stored := history.stored ++ pid.toList
      if 0 < history.segment.count then
        let advanced := history.advance kernel segment []
        { advanced with stored, completed := advanced.completed + 1 }
      else { history.advance kernel segment [history.kernel.cur] with stored }
  | .wakeup _ =>
      { history.advance kernel segment [] with wakeups := history.wakeups + 1 }
  | .other operation =>
      { history.advance kernel segment [] with
        alive := operation.tasks history.alive }

def start (kernel : Kernel) (alive : List TaskId) (address : Nat)
    (count : UInt32) : History where
  kernel := (initSegment kernel address count).1
  segment := (initSegment kernel address count).2
  alive := alive
  inside := []
  completed := 0
  wakeups := 0
  stored := []

end History

/-- The histories of a segment in which every call is permitted. -/
inductive SegmentRun (permitted : History → SegmentCall → Prop) (idle : TaskId)
    (address : Nat) (count : UInt32) : History → Prop where
  | start {kernel : Kernel} {alive : List TaskId} (run : Run idle kernel alive) :
      SegmentRun permitted idle address count
        (History.start kernel alive address count)
  | step {history : History} {call : SegmentCall} {kernel : Kernel}
      {segment : Segment} {pid : Option UInt32}
      (run : SegmentRun permitted idle address count history)
      (allowed : history.Allowed idle call) (permits : permitted history call)
      (returns : history.Returns call kernel segment pid) :
      SegmentRun permitted idle address count
        (history.after kernel segment pid call)

/-- What a segment guarantees in every state. -/
structure SegmentSound (permitted : History → SegmentCall → Prop) (idle : TaskId)
    (address : Nat) (count : UInt32) (history : History) : Prop where
  waiters : ∃ waiting,
    QueueHolds history.kernel.links history.segment.waiters (.waiters address)
      .waiter waiting ∧
    waiting.Nodup ∧ (∀ task, task ∈ waiting ↔ task ∈ history.inside) ∧
    (0 < history.segment.count → waiting = [])
  permits : history.completed ≤ count.toNat + history.wakeups
  noNullWrite : ∀ pid, history.Allowed idle (.wakeup pid) →
    permitted history (.wakeup pid) →
    ∃ kernel segment stored, history.Returns (.wakeup pid) kernel segment stored

theorem QueueHolds.frame_scratch {links after : FieldMemory Tag}
    {l : KernelList Tag} {address : Nat} {tasks alive : List TaskId}
    (holds : QueueHolds links l (.waiters address) .waiter tasks)
    (writes : Writes (Scratch alive) links after)
    (existing : ∀ task ∈ tasks, task ∈ alive) :
    QueueHolds after l (.waiters address) .waiter tasks := by
  refine ⟨holds.head, holds.tail, holds.holds.frame writes ?_⟩
  intro node member other touched
  rw [KernelList.mem_span, holds.head, holds.tail] at member
  rw [FieldMemory.apart_iff]
  rcases touched with scheduler | ⟨thread, fresh, embedded, rfl⟩
  · rcases member with rfl | member | rfl
    · rcases scheduler with h | h | h | h | h | h | ⟨task, h⟩ | ⟨task, h⟩ <;>
        simp [h]
    · obtain ⟨task, -, rfl⟩ := List.mem_map.mp member
      rcases scheduler with h | h | h | h | h | h | ⟨task, h⟩ | ⟨task, h⟩ <;>
        simp [h, Embedded.tag]
    · rcases scheduler with h | h | h | h | h | h | ⟨task, h⟩ | ⟨task, h⟩ <;>
        simp [h]
  · rcases member with rfl | member | rfl
    · exact (Embedded.tag_ne_head _ _ _).symm
    · obtain ⟨task, taskMember, rfl⟩ := List.mem_map.mp member
      intro equality
      obtain ⟨-, rfl⟩ := Embedded.tag_inj.mp equality
      exact fresh (existing _ taskMember)
    · exact (Embedded.tag_ne_tail _ _ _).symm

theorem Stable.withLinks {idle : TaskId} {kernel : Kernel} {queues : Queues}
    {links : FieldMemory Tag} {address : Nat} {tasks : List TaskId}
    (stable : Stable idle kernel queues)
    (writes : Writes (QueueNode (.waiters address) .waiter tasks)
      kernel.links links) :
    Stable idle { kernel with links } queues := by
  obtain ⟨⟨⟨ready, sleep, all, separate, task, cur⟩, cleared, -⟩, settled⟩ := stable
  refine ⟨⟨⟨ready.frame writes (by simp) (by simp),
    sleep.frame writes (by simp) (by simp), all.frame writes (by simp) (by simp),
    separate, task, cur⟩, ?_, .refl _⟩, settled⟩
  intro other alive outsideReady outsideSleep
  have kept := pre_of_queue_writes .general other
    writes (by simp)
  exact kept.trans (cleared other alive outsideReady outsideSleep)

structure SegmentInvariant (idle : TaskId) (address : Nat) (count : UInt32)
    (history : History) (queues : Queues) : Prop where
  stable : Stable idle history.kernel queues
  alive : queues.all = history.alive
  waiters : QueueHolds history.kernel.links history.segment.waiters
    (.waiters address) .waiter history.inside
  existing : ∀ task ∈ history.inside, task ∈ history.alive
  blocked : ∀ task ∈ history.inside, queues.status task = .blocked
  exhausted : 0 < history.segment.count → history.inside = []
  permits : history.completed + history.segment.count.toNat ≤
    count.toNat + history.wakeups

theorem History.advance_of_blocked {history : History} {kernel : Kernel}
    {segment : Segment} {entering : List TaskId}
    (blocked : ∀ task ∈ history.inside ++ entering,
      (kernel.task task).status = .blocked) :
    history.advance kernel segment entering =
      { history with kernel, segment, inside := history.inside ++ entering } := by
  have all : (history.inside ++ entering).filter
      (fun task => (kernel.task task).status = .blocked) =
        history.inside ++ entering := by
    rw [List.filter_eq_self]
    simpa using blocked
  have none : (history.inside ++ entering).filter
      (fun task => (kernel.task task).status ≠ .blocked) = [] := by
    rw [List.filter_eq_nil_iff]
    simpa using blocked
  rw [advance, all, none]
  rfl

namespace SegmentInvariant

variable {idle : TaskId} {address : Nat} {count : UInt32} {history : History}
  {queues : Queues}

theorem cur_not_mem (invariant : SegmentInvariant idle address count history queues) :
    history.kernel.cur ∉ history.inside := by
  intro member
  have different := invariant.stable.settled.ne_cur_of_blocked
    (invariant.blocked _ member)
  exact different invariant.stable.tracks.represents.cur

theorem start {kernel : Kernel} {alive : List TaskId} (address : Nat)
    (count : UInt32) (run : Run idle kernel alive) :
    ∃ queues, SegmentInvariant idle address count
      (History.start kernel alive address count) queues := by
  obtain ⟨queues, stable, rfl⟩ := run.stable
  exact ⟨queues, stable.withLinks
    (QueueHolds.init_writes kernel.links (.waiters address) .waiter), rfl,
    QueueHolds.init kernel.links (.waiters address) .waiter,
    by simp [History.start], by simp [History.start], fun _ => rfl,
    by simp [History.start, initSegment]⟩

theorem frame {kernel after : Kernel} {result : Queues} {segment : Segment}
    {readied : Option TaskId} {inside : List TaskId}
    (step : Step idle readied kernel queues after result)
    (waiters : QueueHolds kernel.links segment.waiters (.waiters address) .waiter
      inside)
    (existing : ∀ task ∈ inside, task ∈ queues.all)
    (blocked : ∀ task ∈ inside, queues.status task = .blocked)
    (untouched : ∀ task ∈ inside, some task ≠ readied) :
    QueueHolds after.links segment.waiters (.waiters address) .waiter inside ∧
      ∀ task ∈ inside, result.status task = .blocked :=
  ⟨waiters.frame_scratch step.writes existing, fun task member =>
    step.blocked task (existing task member) (blocked task member)
      (untouched task member)⟩

theorem step_other {operation : Operation} {kernel : Kernel} {segment : Segment}
    {pid : Option UInt32}
    (invariant : SegmentInvariant idle address count history queues)
    (allowed : history.Allowed idle (.other operation))
    (returns : history.Returns (.other operation) kernel segment pid) :
    ∃ result, SegmentInvariant idle address count
      (history.after kernel segment pid (.other operation)) result := by
  obtain ⟨stable, alive, waiters, existing, blocked, exhausted, permits⟩ := invariant
  obtain ⟨permitted, untouched⟩ := allowed
  obtain ⟨bound, success⟩ := returns
  have opReturns : operation.Returns history.kernel kernel ∧
      segment = history.segment := by
    have split : ∀ fuel, bound ≤ fuel →
        operation.exec fuel history.kernel = some kernel ∧
          history.segment = segment := by
      intro fuel enough
      have result := success fuel enough
      simp only [SegmentCall.exec, Option.bind_eq_bind,
        Option.bind_eq_some_iff] at result
      obtain ⟨reached, reachedEq, rest⟩ := result
      simp only [pure, Option.some.injEq, Prod.mk.injEq] at rest
      exact ⟨rest.1 ▸ reachedEq, rest.2.1⟩
    exact ⟨⟨bound, fun fuel enough => (split fuel enough).1⟩,
      ((split bound (Nat.le_refl _)).2).symm⟩
  obtain ⟨opReturns, rfl⟩ := opReturns
  rw [← alive] at permitted
  obtain ⟨result, step, all⟩ := stable.step_of_returns permitted opReturns
  obtain ⟨waitersAfter, blockedAfter⟩ := frame step waiters
    (fun task member => alive ▸ existing task member) blocked untouched
  have taskEq := step.stable.tracks.represents.task
  have stays : ∀ task ∈ history.inside ++ [],
      (kernel.task task).status = .blocked := by
    intro task member
    rw [taskEq]
    exact blockedAfter task (by simpa using member)
  refine ⟨result, ?_⟩
  simp only [History.after, History.advance_of_blocked stays, List.append_nil]
  refine ⟨step.stable, all.trans (by rw [alive]), waitersAfter, ?_, blockedAfter,
    exhausted, permits⟩
  intro task member
  exact Operation.mem_tasks (existing task member) (by
    intro exits
    subst exits
    have hanging := permitted.2
    rw [stable.tracks.represents.task] at hanging
    have isBlocked := blocked task member
    rw [Queues.status, hanging] at isBlocked
    cases isBlocked)

theorem step_passes {asked pid : Option UInt32} {kernel : Kernel}
    {segment : Segment}
    (invariant : SegmentInvariant idle address count history queues)
    (available : 0 < history.segment.count)
    (returns : history.Returns (.wait asked) kernel segment pid) :
    SegmentInvariant idle address count
      (history.after kernel segment pid (.wait asked)) queues := by
  obtain ⟨bound, success⟩ := returns
  have result := success bound (Nat.le_refl _)
  simp only [SegmentCall.exec, segmentWait, if_pos available, Option.some.injEq,
    Prod.mk.injEq] at result
  obtain ⟨rfl, rfl, -⟩ := result
  have nobody := invariant.exhausted available
  obtain ⟨stable, alive, waiters, existing, blocked, exhausted, permits⟩ := invariant
  have stays : ∀ task ∈ history.inside ++ [],
      (history.kernel.task task).status = .blocked := by
    simp [nobody]
  simp only [History.after, if_pos available, History.advance_of_blocked stays,
    List.append_nil]
  refine ⟨stable, alive, waiters, existing, blocked, fun _ => nobody, ?_⟩
  have one : 1 ≤ history.segment.count.toNat :=
    UInt32.lt_iff_toNat_lt.mp available
  have taken : (history.segment.count - 1).toNat =
      history.segment.count.toNat - 1 :=
    UInt32.toNat_sub_of_le _ _ (UInt32.le_iff_toNat_le.mpr one)
  change history.completed + 1 + (history.segment.count - 1).toNat ≤
    count.toNat + history.wakeups
  omega

theorem step_suspends {asked pid : Option UInt32} {kernel : Kernel}
    {segment : Segment}
    (invariant : SegmentInvariant idle address count history queues)
    (empty : ¬ 0 < history.segment.count)
    (allowed : history.Allowed idle (.wait asked))
    (returns : history.Returns (.wait asked) kernel segment pid) :
    (∃ result, SegmentInvariant idle address count
      (history.after kernel segment pid (.wait asked)) result) ∧
    (history.after kernel segment pid (.wait asked)).inside =
      history.inside ++ [history.kernel.cur] := by
  have notInside := invariant.cur_not_mem
  obtain ⟨stable, alive, waiters, existing, blocked, -, permits⟩ := invariant
  obtain ⟨links, grown, pushed, holds, writes⟩ := waiters.pushr notInside
  simp only [Embedded.tag] at pushed
  have entered := stable.withLinks writes
  have noPermit : history.segment.count = 0 := by
    rw [UInt32.lt_iff_toNat_lt] at empty
    exact UInt32.toNat_inj.mp (by simpa using empty)
  obtain ⟨bound, success⟩ := returns
  have unfolded : ∀ fuel, bound ≤ fuel →
      ({ history.kernel with links }.threadBlock fuel history.kernel.cur
          .blocked = some kernel ∧
        { history.segment with waiters := grown } = segment) := by
    intro fuel enough
    have result := success fuel enough
    simp only [SegmentCall.exec, segmentWait, if_neg empty, pushed,
      Option.bind_eq_bind, Option.bind_some, Option.bind_eq_some_iff] at result
    obtain ⟨reached, reachedEq, rest⟩ := result
    simp only [pure, Option.some.injEq, Prod.mk.injEq] at rest
    exact ⟨rest.1 ▸ reachedEq, rest.2.1⟩
  obtain rfl := (unfolded bound (Nat.le_refl _)).2
  have blockReturns : (Operation.threadBlock .blocked).Returns
      { history.kernel with links } kernel :=
    ⟨bound, fun fuel enough => (unfolded fuel enough).1⟩
  have blockAllowed : Operation.Allowed idle queues.all
      { history.kernel with links } (.threadBlock .blocked) :=
    alive ▸ allowed noPermit
  obtain ⟨result, step, all⟩ := entered.step_of_returns blockAllowed blockReturns
  have curBlocked := entered.status_threadBlock blockAllowed blockReturns
  have existingAfter : ∀ task ∈ history.inside ++ [history.kernel.cur],
      task ∈ queues.all := by
    intro task member
    rcases List.mem_append.mp member with old | new
    · exact alive ▸ existing task old
    · rw [List.mem_singleton.mp new, stable.tracks.represents.cur]
      exact stable.settled.curAlive
  have taskEq := step.stable.tracks.represents.task
  have stays : ∀ task ∈ history.inside ++ [history.kernel.cur],
      (kernel.task task).status = .blocked := by
    intro task member
    rcases List.mem_append.mp member with old | new
    · rw [taskEq]
      exact step.blocked task (alive ▸ existing task old) (blocked task old)
        (by simp [Stable.readied])
    · rw [List.mem_singleton.mp new]
      exact curBlocked
  simp only [History.after, if_neg empty, History.advance_of_blocked stays,
    and_true]
  refine ⟨result, step.stable, all.trans alive,
    holds.frame_scratch step.writes existingAfter,
    fun task member => alive ▸ existingAfter task member, ?_,
    fun available => absurd available empty, permits⟩
  intro task member
  rw [Queues.status, ← taskEq]
  exact stays task member

theorem wakeup_empty {pid : Option UInt32}
    (invariant : SegmentInvariant idle address count history queues)
    (nobody : history.inside = []) :
    history.Returns (.wakeup pid) history.kernel
      { history.segment with count := history.segment.count + 1 } pid := by
  have waiters := invariant.waiters
  rw [nobody] at waiters
  refine ⟨1, ?_⟩
  intro fuel enough
  have popped := waiters.popl_nil
  have searched := fun found => KernelList.find_holds waiters.holds enough found
  simp only [List.map_nil, List.find?_nil] at searched
  cases pid with
  | none => simp [SegmentCall.exec, segmentWakeup, popped]
  | some wanted =>
      by_cases zero : wanted = 0
      · simp [SegmentCall.exec, segmentWakeup, popped, zero]
      · simp [SegmentCall.exec, segmentWakeup, zero, searched]

theorem wakeup_first {first : TaskId} {rest : List TaskId}
    (invariant : SegmentInvariant idle address count history queues)
    (waiting : history.inside = first :: rest) :
    ∃ kernel waiters pid,
      history.Returns (.wakeup (some 0)) kernel
        { history.segment with waiters } (some pid) ∧
      QueueHolds kernel.links waiters (.waiters address) .waiter rest ∧
      Stable idle kernel (queues.makeReady first true) := by
  obtain ⟨stable, alive, waiters, existing, blocked, -, -⟩ := invariant
  rw [waiting] at waiters existing blocked
  obtain ⟨links, shrunk, popped, holds, writes, -⟩ := waiters.popl_cons
  simp only [Embedded.tag] at popped
  have entered := stable.withLinks writes
  have firstAlive : first ∈ queues.all := alive ▸ existing first (by simp)
  obtain ⟨kernel, success, tracks, settled⟩ := entered.tracks.threadReady
    entered.settled firstAlive (.inl (blocked first (by simp))) false true
  have scratch : Writes (Scratch history.alive) links kernel.links :=
    tracks.writes.mono fun _ => .inl
  refine ⟨kernel, shrunk, (history.kernel.task first).pid, ⟨0, ?_⟩,
    holds.frame_scratch scratch fun task member => existing task (by simp [member]),
    ⟨tracks.rebase, settled⟩⟩
  intro fuel _
  have woken := success fuel
  simp only [Bool.false_eq_true, if_false] at woken
  simp [SegmentCall.exec, segmentWakeup, popped, woken]

theorem wakeup_null {first : TaskId} {rest : List TaskId}
    (invariant : SegmentInvariant idle address count history queues)
    (waiting : history.inside = first :: rest) (fuel : Nat) :
    segmentWakeup fuel history.kernel history.segment none = none := by
  have waiters := invariant.waiters
  rw [waiting] at waiters
  obtain ⟨links, shrunk, popped, -⟩ := waiters.popl_cons
  simp only [Embedded.tag] at popped
  simp [segmentWakeup, popped]

theorem wait_returns
    (invariant : SegmentInvariant idle address count history queues)
    (asked : Option UInt32)
    (empty : ¬ 0 < history.segment.count)
    (allowed : Operation.Allowed idle history.alive history.kernel
      (.threadBlock .blocked))
    (room : (Operation.threadBlock .blocked).Room history.kernel history.alive) :
    ∃ kernel segment pid, history.Returns (.wait asked) kernel segment pid := by
  have notInside := invariant.cur_not_mem
  obtain ⟨stable, alive, waiters, -, -, -, -⟩ := invariant
  obtain ⟨links, grown, pushed, -, writes⟩ := waiters.pushr notInside
  simp only [Embedded.tag] at pushed
  have blockAllowed : Operation.Allowed idle queues.all
      { history.kernel with links } (.threadBlock .blocked) := alive ▸ allowed
  have blockRoom : (Operation.threadBlock .blocked).Room
      { history.kernel with links } queues.all := alive ▸ room
  obtain ⟨kernel, -, ⟨bound, success⟩, -⟩ :=
    (stable.withLinks writes).step blockAllowed fun _ => blockRoom
  refine ⟨kernel, { history.segment with waiters := grown },
    asked.map fun _ => (history.kernel.task history.kernel.cur).pid, bound, ?_⟩
  intro fuel enough
  have blocks := success fuel enough
  simp only [Operation.exec, Kernel.threadBlock] at blocks
  simp [SegmentCall.exec, segmentWait, empty, pushed, blocks]

end SegmentInvariant

theorem History.Returns.unique {history : History} {call : SegmentCall}
    {kernel kernel' : Kernel} {segment segment' : Segment}
    {pid pid' : Option UInt32}
    (first : history.Returns call kernel segment pid)
    (second : history.Returns call kernel' segment' pid') :
    kernel = kernel' ∧ segment = segment' ∧ pid = pid' := by
  obtain ⟨bound, success⟩ := first
  obtain ⟨bound', success'⟩ := second
  have result := success (max bound bound') (Nat.le_max_left ..)
  rw [success' _ (Nat.le_max_right ..)] at result
  simp only [Option.some.injEq, Prod.mk.injEq] at result
  exact ⟨result.1.symm, result.2.1.symm, result.2.2.symm⟩

namespace SegmentInvariant

variable {idle : TaskId} {address : Nat} {count : UInt32} {history : History}
  {queues : Queues}

theorem step_wakeup {asked pid : Option UInt32} {kernel : Kernel}
    {segment : Segment}
    (invariant : SegmentInvariant idle address count history queues)
    (safe : history.Safe (.wakeup asked))
    (returns : history.Returns (.wakeup asked) kernel segment pid) :
    ∃ result, SegmentInvariant idle address count
      (history.after kernel segment pid (.wakeup asked)) result := by
  cases waiting : history.inside with
  | nil =>
      obtain ⟨rfl, rfl, -⟩ := returns.unique (invariant.wakeup_empty waiting)
      obtain ⟨stable, alive, waiters, existing, blocked, -, permits⟩ := invariant
      have stays : ∀ task ∈ history.inside ++ [],
          (history.kernel.task task).status = .blocked := by
        simp [waiting]
      simp only [History.after, History.advance_of_blocked stays, List.append_nil]
      refine ⟨queues, stable, alive, waiters, existing, blocked,
        fun _ => waiting, ?_⟩
      have added : (history.segment.count + 1).toNat ≤
          history.segment.count.toNat + 1 := by
        rw [UInt32.toNat_add]
        exact Nat.mod_le ..
      change history.completed + (history.segment.count + 1).toNat ≤
        count.toNat + (history.wakeups + 1)
      omega
  | cons first rest =>
      obtain rfl : asked = some 0 := by
        rcases safe with nobody | zero
        · have size := invariant.waiters.size
          rw [nobody, waiting, List.length_cons] at size
          omega
        · exact zero
      obtain ⟨woken, waiters, stored, success, holds, stable⟩ :=
        invariant.wakeup_first waiting
      obtain ⟨rfl, rfl, -⟩ := returns.unique success
      obtain ⟨-, alive, oldWaiters, existing, blocked, exhausted, permits⟩ := invariant
      have taskEq := stable.tracks.represents.task
      have nodup := oldWaiters.nodup
      rw [waiting] at existing blocked nodup
      have outside : first ∉ rest := (List.nodup_cons.mp nodup).1
      have firstReady : (kernel.task first).status = .ready := by
        rw [taskEq]
        simp [Queues.makeReady, Queues.modifyTask]
      have restBlocked : ∀ task ∈ rest,
          (kernel.task task).status = .blocked := by
        intro task member
        have different : task ≠ first := fun same => outside (same ▸ member)
        rw [taskEq]
        exact (Queues.status_modifyTask_of_ne _ different).trans
          (blocked task (by simp [member]))
      have stay : (first :: rest).filter
          (fun task => (kernel.task task).status = .blocked) = rest := by
        rw [List.filter_cons_of_neg (by simp [firstReady]), List.filter_eq_self]
        simpa using restBlocked
      have leave : (first :: rest).filter
          (fun task => (kernel.task task).status ≠ .blocked) = [first] := by
        rw [List.filter_cons_of_pos (by simp [firstReady]),
          List.filter_eq_nil_iff.mpr (by simpa using restBlocked)]
      simp only [History.after, History.advance, List.append_nil, waiting, stay,
        leave]
      refine ⟨_, stable, alive, holds, fun task member => existing task
        (by simp [member]), ?_, ?_, ?_⟩
      · intro task member
        rw [Queues.status, ← taskEq]
        exact restBlocked task member
      · intro available
        have nobody := exhausted available
        rw [waiting] at nobody
        cases nobody
      · change history.completed + 1 + history.segment.count.toNat ≤
          count.toNat + (history.wakeups + 1)
        omega

theorem sound (invariant : SegmentInvariant idle address count history queues) :
    SegmentSound History.Safe idle address count history where
  waiters := ⟨history.inside, invariant.waiters, invariant.waiters.nodup,
    fun _ => Iff.rfl, invariant.exhausted⟩
  permits := by
    have permits := invariant.permits
    omega
  noNullWrite := by
    intro pid _ safe
    cases waiting : history.inside with
    | nil => exact ⟨_, _, _, invariant.wakeup_empty waiting⟩
    | cons first rest =>
        obtain rfl : pid = some 0 := by
          rcases safe with nobody | zero
          · have size := invariant.waiters.size
            rw [nobody, waiting, List.length_cons] at size
            omega
          · exact zero
        obtain ⟨kernel, waiters, stored, success, -⟩ :=
          invariant.wakeup_first waiting
        exact ⟨_, _, _, success⟩

end SegmentInvariant

theorem SegmentRun.invariant {idle : TaskId} {address : Nat} {count : UInt32}
    {history : History}
    (run : SegmentRun History.Safe idle address count history) :
    ∃ queues, SegmentInvariant idle address count history queues := by
  induction run with
  | start run => exact SegmentInvariant.start address count run
  | @step history call kernel segment pid run allowed safe returns ih =>
      obtain ⟨queues, invariant⟩ := ih
      cases call with
      | wait asked =>
          by_cases available : 0 < history.segment.count
          · exact ⟨queues, invariant.step_passes available returns⟩
          · exact (invariant.step_suspends available allowed returns).1
      | wakeup asked => exact invariant.step_wakeup safe returns
      | other operation => exact invariant.step_other allowed returns

end CleanOS.Thread
