import CleanOS.Lib.Machine
import CleanOS.Thread.Thread

/-!
# Exit and wait

`process_fork`, `process_clone`, `process_wait` and `process_exit` of
`kernel/thread/process.c`, with `pid2task`, `thread_child` and `thread_exit` of
`kernel/thread/thread.c`.  A step is one of these calls up to the point where it blocks,
or what a task does after it was woken.  Any task that is ready or running may make the
next step; the lists `ready_tasks` and `sleep_tasks` and the memory of the tasks are left
out.  A step without a result stands for a run into a null pointer or into a completion
that is no longer on any stack.
-/

namespace CleanOS.Thread

open CleanOS.Lib CleanOS.Common

/-- Where a task stands: in none of the calls, in the loop of `process_wait`, or in
`process_clone`, where it waits for the completion on its stack.  `queued` says whether
the list of the completion still has its node.  The count of the completion is left out,
as the wait ends after the first time the task is woken. -/
inductive Blocked where
  | no
  | wait
  | vfork (queued : Bool)
  deriving DecidableEq

/-- The part of `task_struct` that exit and wait use, with the page of the task.
`vforkDone` is the task on whose stack the completion lies. -/
structure Process where
  page : TaskId
  pid : UInt32
  parentPid : UInt32
  status : TaskStatus
  exitCode : Int
  vforkDone : Option TaskId
  blocked : Blocked
  deriving DecidableEq

/-- A task that exited, and its status. -/
structure Exited where
  page : TaskId
  pid : UInt32
  exitCode : Int
  deriving DecidableEq

/-- `INIT_PID`. -/
def initPid : UInt32 := 1

/-- The parent of the main task, and what `alloc_pid` returns when all are in use. -/
def noPid : UInt32 := 0xffffffff

def Process.exited (task : Process) : Exited where
  page := task.page
  pid := task.pid
  exitCode := task.exitCode

def Process.CanRun (task : Process) : Prop :=
  task.status = .ready ∨ task.status = .running

instance (task : Process) : Decidable task.CanRun :=
  inferInstanceAs (Decidable (_ ∨ _))

/-- `all_tasks` and `pid_alloc`.  `exits` and `returns` record what tasks passed to
`process_exit` and what `process_wait` returned. -/
structure Processes where
  tasks : List Process
  pidAlloc : Bitmap
  exits : List Exited
  returns : List Exited

def modifyTask (tasks : List Process) (page : TaskId) (change : Process → Process) :
    List Process :=
  tasks.map fun task => if task.page = page then change task else task

/-- `set_thread_status`, but for the lists of ready and of sleeping tasks. -/
def setStatus (tasks : List Process) (page : TaskId) (status : TaskStatus) : List Process :=
  modifyTask tasks page fun task => { task with status }

/-- `pid2task`. -/
def pid2task (tasks : List Process) (pid : UInt32) : Option Process :=
  tasks.find? fun task => task.pid = pid

/-- `thread_child`, where no status stands for `TASK_UNKNOWN`. -/
def threadChild (tasks : List Process) (parent : Process) (status : Option TaskStatus) :
    Option Process :=
  tasks.find? fun task => task.parentPid = parent.pid ∧ (status = none ∨ status = some task.status)

/-- The visitor `rechild2init`. -/
def rechild2init (parentPid : UInt32) (task : Process) : Process :=
  if task.parentPid = parentPid then { task with parentPid := initPid } else task

/-- `complete` on the `vfork_done` of a task, if it has one. -/
def completeVfork (tasks : List Process) : Option TaskId → Option (List Process)
  | none => some tasks
  | some owner =>
      match tasks.find? fun task => task.page = owner with
      | none => none
      | some task =>
          match task.blocked with
          | .vfork true => some (modifyTask tasks owner fun task =>
              { task with status := .ready, blocked := .vfork false })
          | .vfork false => some tasks
          | _ => none

/-- `alloc_pid`. -/
def allocPid (pidAlloc : Bitmap) : Bitmap × UInt32 :=
  let bitIdx := pidAlloc.scan 1
  if bitIdx < 0 then (pidAlloc, noPid)
  else (pidAlloc.set bitIdx.toNat true, UInt32.ofNat bitIdx.toNat)

/-- What `process_wait` returns, when it does. -/
inductive WaitResult where
  | child (pid : UInt32) (exitCode : Int)
  | noChild
  | blocks

namespace Processes

/-- `process_fork`, with the page for the new task.  `copied` says whether
`copy_process_mem` left zero in the return register. -/
def processFork (state : Processes) (cur : Process) (thread : TaskId) (copied : Bool) :
    Processes :=
  if copied then
    let (pidAlloc, pid) := allocPid state.pidAlloc
    let child := { cur with page := thread, parentPid := cur.pid, pid }
    { state with tasks := state.tasks ++ [child], pidAlloc }
  else state

/-- `process_clone`, with the page for the new task.  `keepsParent` and `vfork` are the
flags `CLONE_PARENT` and `CLONE_VFORK`. -/
def processClone (state : Processes) (cur : Process) (thread : TaskId)
    (keepsParent vfork : Bool) : Processes :=
  let (pidAlloc, pid) := allocPid state.pidAlloc
  let child : Process :=
    { page := thread
      pid
      parentPid := if keepsParent then cur.parentPid else cur.pid
      status := .ready
      exitCode := 0
      vforkDone := if vfork then some cur.page else none
      blocked := .no }
  let tasks := state.tasks ++ [child]
  if vfork then
    { state with
      tasks := modifyTask tasks cur.page fun task =>
        { task with status := .waiting, blocked := .vfork true }
      pidAlloc }
  else { state with tasks, pidAlloc }

/-- The task is back from `process_wait` or from the wait in `process_clone`. -/
def leave (state : Processes) (cur : Process) : Processes :=
  { state with
    tasks := modifyTask state.tasks cur.page fun task => { task with blocked := .no } }

/-- `thread_exit` of a child that hangs. -/
def threadExit (state : Processes) (child : Process) : Processes :=
  { state with
    tasks := state.tasks.erase child
    pidAlloc := state.pidAlloc.set child.pid.toNat false
    returns := state.returns ++ [child.exited] }

/-- One round of the loop of `process_wait`. -/
def processWait (state : Processes) (cur : Process) : WaitResult × Processes :=
  match threadChild state.tasks cur (some .hanging) with
  | some child => (.child child.pid child.exitCode, (state.threadExit child).leave cur)
  | none =>
      match threadChild state.tasks cur none with
      | none => (.noChild, state.leave cur)
      | some _ =>
          (.blocks, { state with
            tasks := modifyTask state.tasks cur.page fun task =>
              { task with status := .waiting, blocked := .wait } })

/-- `process_exit`. -/
def processExit (state : Processes) (cur : Process) (status : Int) : Option Processes := do
  let tasks := modifyTask state.tasks cur.page fun task => { task with exitCode := status }
  let tasks := tasks.map (rechild2init cur.pid)
  let cur := rechild2init cur.pid { cur with exitCode := status }
  -- The result of `pid2task` is not checked.
  let parent ← pid2task tasks cur.parentPid
  let tasks := if parent.status = .waiting then setStatus tasks parent.page .ready else tasks
  let tasks ← completeVfork tasks cur.vforkDone
  return { state with
    tasks := setStatus tasks cur.page .hanging
    exits := state.exits ++ [cur.exited] }

end Processes

/-- The calls of the task of a page, and what it does after it was woken. -/
inductive ProcessCall where
  | fork (page thread : TaskId) (copied : Bool)
  | clone (page thread : TaskId) (keepsParent vfork : Bool)
  | wait (page : TaskId)
  | exit (page : TaskId) (status : Int)
  | resume (page : TaskId)

namespace Processes

def runnable (state : Processes) (page : TaskId) : Option Process :=
  state.tasks.find? fun task => task.page = page ∧ task.CanRun

def calling (state : Processes) (page : TaskId) : Option Process :=
  state.tasks.find? fun task => task.page = page ∧ task.CanRun ∧ task.blocked = .no

def step (state : Processes) : ProcessCall → Option Processes
  | .fork page thread copied =>
      (state.calling page).map fun cur => state.processFork cur thread copied
  | .clone page thread keepsParent vfork =>
      (state.calling page).map fun cur => state.processClone cur thread keepsParent vfork
  | .wait page => (state.calling page).map fun cur => (state.processWait cur).2
  | .exit page status => (state.calling page).bind fun cur => state.processExit cur status
  | .resume page => do
      let cur ← state.runnable page
      match cur.blocked with
      | .no => none
      | .wait => return (state.processWait cur).2
      | .vfork _ => return state.leave cur

/-- A task after `init_thread` and after its pids were set. -/
def threadOf (pid parentPid : UInt32) (status : TaskStatus) (page : TaskId) : Process where
  page := page
  pid := pid
  parentPid := parentPid
  status := status
  exitCode := 0
  vforkDone := none
  blocked := .no

/-- The tasks after the start of the system: the main task, the threads it started before
and after init, which share its pid, and init. -/
def start (main init : TaskId) (before after : List TaskId) : Processes where
  tasks :=
    threadOf 0 noPid .running main :: before.map (threadOf 0 noPid .ready) ++
      threadOf initPid 0 .ready init :: after.map (threadOf 0 noPid .ready)
  pidAlloc := ((Bitmap.init ⟨128, fun _ => 0⟩).set 0 true).set 1 true
  exits := []
  returns := []

end Processes

end CleanOS.Thread
