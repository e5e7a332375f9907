import CleanOS.Common.Bitmap
import CleanOS.Common.List
import CleanOS.Lib.FieldMemory

/-!
# Tasks and the scheduler

`kernel/thread/thread.c` and the queueing part of `kernel/thread/process.c`.
A task is named by the address of its kernel page.  A fresh page for a new task
is an argument of the functions that create one; which page that may be is the
business of the kernel page allocator.  `none` stands for a run into a null
pointer, an overfull `wake_up_list`, or a list traversal that does not end
within the given fuel.
-/

namespace CleanOS.Thread

open CleanOS.Lib CleanOS.Common

abbrev TaskId := Nat

/-- `task_status`. -/
inductive TaskStatus where
  | unknown
  | running
  | ready
  | blocked
  | sleep
  | waiting
  | hanging
  | died
  deriving DecidableEq, Repr

/-- The lists that hold tasks; `waiters` are those of the segments. -/
inductive Queue where
  | ready
  | sleep
  | all
  | waiters (segment : Nat)
  deriving DecidableEq, Repr

/-- List nodes: the sentinels of each list and the three nodes embedded in a
task. -/
inductive Tag where
  | head (queue : Queue)
  | tail (queue : Queue)
  | general (task : TaskId)
  | waiter (task : TaskId)
  | all (task : TaskId)
  deriving DecidableEq, Repr

/-- The part of `task_struct` that scheduling and process creation use. -/
structure Task where
  status : TaskStatus
  pid : UInt32
  parentPid : UInt32
  priority : UInt32
  ticks : UInt32
  elapsetTicks : UInt32
  sleepTicks : UInt32
  pageDir : UInt32
  deriving DecidableEq, Repr

/-- One decrement of the unsigned `sleep_ticks`. -/
def Task.tickSleep (task : Task) : Task :=
  { task with sleepTicks := task.sleepTicks - 1 }

/-- The scheduler's global variables, the tasks, and the running task. -/
structure Kernel where
  links : FieldMemory Tag
  readyTasks : KernelList Tag
  sleepTasks : KernelList Tag
  allTasks : KernelList Tag
  pidAlloc : Bitmap
  mainThread : TaskId
  task : TaskId → Task
  cur : TaskId

namespace Kernel

def modifyTask (kernel : Kernel) (task : TaskId) (change : Task → Task) : Kernel :=
  { kernel with
    task := Function.update kernel.task task (change (kernel.task task)) }

def emptyList (queue : Queue) : KernelList Tag :=
  { head := .head queue, tail := .tail queue, size := 0 }

/-- `init_task`: the three lists and the pid bitmap of 128 bytes. -/
def initTask (kernel : Kernel) : Kernel :=
  let (links, readyTasks) := KernelList.initList kernel.links (emptyList .ready)
  let (links, allTasks) := KernelList.initList links (emptyList .all)
  let (links, sleepTasks) := KernelList.initList links (emptyList .sleep)
  { kernel with
    links, readyTasks, allTasks, sleepTasks
    pidAlloc := Bitmap.init { kernel.pidAlloc with bytesLen := 128 } }

/-- `alloc_pid`. -/
def allocPid (kernel : Kernel) : Kernel × UInt32 :=
  let bitIdx := kernel.pidAlloc.scan 1
  if bitIdx < 0 then (kernel, 0xffffffff)
  else
    ({ kernel with pidAlloc := kernel.pidAlloc.set bitIdx.toNat true },
      UInt32.ofNat bitIdx.toNat)

/-- `unalloc_pid`. -/
def unallocPid (kernel : Kernel) (pid : UInt32) : Kernel :=
  { kernel with pidAlloc := kernel.pidAlloc.set pid.toNat false }

def clearTag (links : FieldMemory Tag) (tag : Tag) : FieldMemory Tag :=
  LinkMemory.setNext (LinkMemory.setPre links tag none) tag none

def copyTag (links : FieldMemory Tag) (dest src : Tag) : FieldMemory Tag :=
  LinkMemory.setNext
    (LinkMemory.setPre links dest (LinkMemory.pre links src)) dest
    (LinkMemory.next links src)

/-- `init_thread`. -/
def initThread (kernel : Kernel) (thread : TaskId) (priority : UInt32) : Kernel :=
  let links := clearTag kernel.links (.general thread)
  let links := clearTag links (.waiter thread)
  let links := clearTag links (.all thread)
  let status := if thread = kernel.mainThread then .running else .ready
  { kernel with
    links
    task := Function.update kernel.task thread
      { status, pid := 0, parentPid := 0, priority, ticks := priority
        elapsetTicks := 0, sleepTicks := 0, pageDir := 0 } }

def pushReadyLast (kernel : Kernel) (task : TaskId) : Option Kernel := do
  let (links, readyTasks) ←
    KernelList.pushr kernel.links kernel.readyTasks (.general task)
  return { kernel with links, readyTasks }

def pushReadyFirst (kernel : Kernel) (task : TaskId) : Option Kernel := do
  let (links, readyTasks) ←
    KernelList.pushl kernel.links kernel.readyTasks (.general task)
  return { kernel with links, readyTasks }

def pushAll (kernel : Kernel) (task : TaskId) : Option Kernel := do
  let (links, allTasks) ←
    KernelList.pushr kernel.links kernel.allTasks (.all task)
  return { kernel with links, allTasks }

def pushSleep (kernel : Kernel) (task : TaskId) : Option Kernel := do
  let (links, sleepTasks) ←
    KernelList.pushr kernel.links kernel.sleepTasks (.general task)
  return { kernel with links, sleepTasks }

def removeReady (fuel : Nat) (kernel : Kernel) (task : TaskId) : Option Kernel := do
  let (links, readyTasks) ←
    KernelList.remove fuel kernel.links kernel.readyTasks (.general task)
  return { kernel with links, readyTasks }

def removeSleep (fuel : Nat) (kernel : Kernel) (task : TaskId) : Option Kernel := do
  let (links, sleepTasks) ←
    KernelList.remove fuel kernel.links kernel.sleepTasks (.general task)
  return { kernel with links, sleepTasks }

def removeAll (fuel : Nat) (kernel : Kernel) (task : TaskId) : Option Kernel := do
  let (links, allTasks) ←
    KernelList.remove fuel kernel.links kernel.allTasks (.all task)
  return { kernel with links, allTasks }

/-- `enter_main_thread`, running on the page of the first task. -/
def enterMainThread (kernel : Kernel) (kernelPageDir : UInt32) : Option Kernel :=
  let kernel := { kernel with mainThread := kernel.cur }
  let kernel := kernel.initThread kernel.mainThread 31
  let (kernel, pid) := kernel.allocPid
  let kernel := kernel.modifyTask kernel.mainThread fun task =>
    { task with pageDir := kernelPageDir, pid, parentPid := 0xffffffff }
  kernel.pushAll kernel.mainThread

/-- `thread_start` with the page `thread`. -/
def threadStart (kernel : Kernel) (thread : TaskId) (priority : UInt32) :
    Option Kernel := do
  let kernel := kernel.initThread thread priority
  let cur := kernel.task kernel.cur
  let kernel := kernel.modifyTask thread fun task =>
    { task with
      pid := cur.pid, parentPid := cur.parentPid, pageDir := cur.pageDir }
  let kernel ← kernel.pushReadyLast thread
  kernel.pushAll thread

/-- `copy_process`: the task page is copied as a whole, list nodes included.
`copyErr` is what `copy_process_mem` leaves in the return register; it has no
return statement. -/
def copyProcess (kernel : Kernel) (thread : TaskId) (pageDir : UInt32)
    (copyErr : Int) : Kernel × Bool :=
  let kernel := kernel.initThread thread (kernel.task kernel.cur).priority
  let cur := kernel.cur
  let links := copyTag kernel.links (.general thread) (.general cur)
  let links := copyTag links (.waiter thread) (.waiter cur)
  let links := copyTag links (.all thread) (.all cur)
  let kernel :=
    { kernel with
      links
      task := Function.update kernel.task thread
        { kernel.task cur with pageDir } }
  if copyErr ≠ 0 then (kernel, false)
  else
    let kernel := kernel.modifyTask thread fun task =>
      { task with parentPid := (kernel.task cur).pid }
    let (kernel, pid) := kernel.allocPid
    (kernel.modifyTask thread fun task => { task with pid }, true)

/-- `process_fork`. -/
def processFork (kernel : Kernel) (thread : TaskId) (pageDir : UInt32)
    (copyErr : Int) : Option Kernel :=
  match kernel.copyProcess thread pageDir copyErr with
  | (kernel, false) => some kernel
  | (kernel, true) => do
      let kernel ← kernel.pushReadyLast thread
      kernel.pushAll thread

/-- `process_clone` up to the wait on `vfork_done`.  `sharesVm` and
`keepsParent` are the flags `CLONE_VM` and `CLONE_PARENT`. -/
def processClone (kernel : Kernel) (thread : TaskId) (pageDir : UInt32)
    (sharesVm keepsParent : Bool) : Option Kernel := do
  let kernel := kernel.initThread thread (kernel.task kernel.cur).priority
  let cur := kernel.task kernel.cur
  let (kernel, pid) := kernel.allocPid
  let kernel := kernel.modifyTask thread fun task =>
    { task with
      parentPid := if keepsParent then cur.parentPid else cur.pid
      pid
      pageDir := if sharesVm then cur.pageDir else pageDir }
  let kernel ← kernel.pushReadyLast thread
  kernel.pushAll thread

/-- The loop of `schedule` over the sleepers, which have room for ten expired
ones. -/
def tickLoop (links : FieldMemory Tag) (tail : Tag) :
    Nat → Option Tag → (TaskId → Task) → List TaskId →
      Option ((TaskId → Task) × List TaskId)
  | 0, _, _, _ => none
  | _ + 1, none, task, wakeUpList => some (task, wakeUpList)
  | fuel + 1, some node, task, wakeUpList =>
      if node = tail then some (task, wakeUpList)
      else
        match node with
        | .general sleeper =>
            let task := Function.update task sleeper (task sleeper).tickSleep
            if (task sleeper).sleepTicks = 0 then
              if wakeUpList.length < 10 then
                tickLoop links tail fuel (LinkMemory.next links node) task
                  (wakeUpList ++ [sleeper])
              else none
            else
              tickLoop links tail fuel (LinkMemory.next links node) task wakeUpList
        | _ => none

/-- The loop of `schedule` that moves the expired sleepers. -/
def wakeLoop (fuel : Nat) : List TaskId → Kernel → Option Kernel
  | [], kernel => some kernel
  | sleeper :: wakeUpList, kernel => do
      let kernel ← kernel.removeSleep fuel sleeper
      let kernel ← kernel.pushReadyFirst sleeper
      wakeLoop fuel wakeUpList
        (kernel.modifyTask sleeper fun task => { task with status := .ready })

/-- The statements of `schedule` that put the running task back into the ready
list: a running task becomes ready, and a ready one is queued. -/
def requeueCurrent (kernel : Kernel) : Option Kernel :=
  let kernel :=
    if (kernel.task kernel.cur).status = .running then
      kernel.modifyTask kernel.cur fun task => { task with status := .ready }
    else kernel
  if (kernel.task kernel.cur).status = .ready then
    kernel.pushReadyLast kernel.cur
  else some kernel

/-- The second half of `schedule`: choosing and switching to the next task. -/
def dispatch (kernel : Kernel) : Option Kernel := do
  let (links, readyTasks, nextTag) ←
    KernelList.popl kernel.links kernel.readyTasks
  let kernel := { kernel with links, readyTasks }
  match nextTag with
  | none => return kernel
  | some (.general next) =>
      let kernel := kernel.modifyTask next fun task =>
        { task with ticks := task.priority }
      if kernel.cur = next then return kernel
      else
        let kernel ← kernel.requeueCurrent
        let kernel := kernel.modifyTask next fun task =>
          { task with status := .running }
        return { kernel with cur := next }
  | some _ => none

/-- `schedule`. -/
def schedule (fuel : Nat) (kernel : Kernel) : Option Kernel := do
  let (task, wakeUpList) ←
    tickLoop kernel.links kernel.sleepTasks.tail fuel
      (LinkMemory.next kernel.links kernel.sleepTasks.head) kernel.task []
  let kernel ← wakeLoop fuel wakeUpList { kernel with task }
  let cur := kernel.task kernel.cur
  if cur.status = .running ∧ 0 < cur.ticks then
    return kernel.modifyTask kernel.cur fun task =>
      { task with
        elapsetTicks := task.elapsetTicks + 1, ticks := task.ticks - 1 }
  else kernel.dispatch

/-- The first half of `schedule`: the loops over the sleepers and over the expired ones. -/
def wakeUp (fuel : Nat) (kernel : Kernel) : Option Kernel := do
  let (task, wakeUpList) ←
    tickLoop kernel.links kernel.sleepTasks.tail fuel
      (LinkMemory.next kernel.links kernel.sleepTasks.head) kernel.task []
  wakeLoop fuel wakeUpList { kernel with task }

/-- The second half of `schedule`: the running task keeps the processor for another tick, or
another one is chosen. -/
def keepOrDispatch (kernel : Kernel) : Option Kernel :=
  let cur := kernel.task kernel.cur
  if cur.status = .running ∧ 0 < cur.ticks then
    some (kernel.modifyTask kernel.cur fun task =>
      { task with
        elapsetTicks := task.elapsetTicks + 1, ticks := task.ticks - 1 })
  else kernel.dispatch

theorem schedule_eq (fuel : Nat) (kernel : Kernel) :
    kernel.schedule fuel = (kernel.wakeUp fuel).bind keepOrDispatch := by
  simp only [schedule, wakeUp, Option.bind_eq_bind, Option.bind_assoc]
  rfl

/-- `_set_thread_status`. -/
def setThreadStatus (fuel : Nat) (kernel : Kernel) (task : TaskId)
    (status : TaskStatus) (needSchedule first : Bool) : Option Kernel := do
  let old := (kernel.task task).status
  let kernel ←
    if old ≠ .ready ∧ old ≠ .running ∧ status = .ready then
      if first then kernel.pushReadyFirst task else kernel.pushReadyLast task
    else some kernel
  let kernel ←
    if status ≠ .ready then kernel.removeReady fuel task else some kernel
  let kernel ← if status = .sleep then kernel.pushSleep task else some kernel
  let kernel := kernel.modifyTask task fun record => { record with status }
  if needSchedule then kernel.schedule fuel else return kernel

/-- `thread_yield`. -/
def threadYield (fuel : Nat) (kernel : Kernel) : Option Kernel :=
  kernel.setThreadStatus fuel kernel.cur .ready true false

/-- `thread_sleep`, with `HZ` 100. -/
def threadSleep (fuel : Nat) (kernel : Kernel) (ms : UInt32) : Option Kernel :=
  let kernel := kernel.modifyTask kernel.cur fun task =>
    { task with sleepTicks := 100 * ms / 1000 }
  kernel.setThreadStatus fuel kernel.cur .sleep true false

/-- `thread_block`. -/
def threadBlock (fuel : Nat) (kernel : Kernel) (task : TaskId)
    (status : TaskStatus) : Option Kernel :=
  kernel.setThreadStatus fuel task status true false

/-- `thread_ready`. -/
def threadReady (fuel : Nat) (kernel : Kernel) (task : TaskId)
    (needSchedule now : Bool) : Option Kernel :=
  kernel.setThreadStatus fuel task .ready needSchedule now

/-- `thread_exit` without rescheduling, as `process_wait` calls it.  The pages
it hands back belong to the page allocator. -/
def threadExit (fuel : Nat) (kernel : Kernel) (task : TaskId) : Option Kernel := do
  let kernel ← kernel.setThreadStatus fuel task .died false false
  let kernel ← kernel.removeReady fuel task
  let kernel ← kernel.removeAll fuel task
  return kernel.unallocPid (kernel.task task).pid

end Kernel

end CleanOS.Thread
