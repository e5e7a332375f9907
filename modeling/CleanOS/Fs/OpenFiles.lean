import Mathlib.Data.List.Perm.Basic
import Mathlib.Logic.Function.Basic
import CleanOS.Lib.Machine

/-!
# Open files

`alloc_file`, `ref_file` and `free_file` of `kernel/fs/file.c`, the system calls of
`kernel/fs/fs.c` that change file tables, and what `fork`, exit and wait do with the
file table of a task.  A step is one system call; what a file system answers to `open`
is part of it.  A step without a result stands for a call that panics or writes to
memory that is no file.
-/

namespace CleanOS.Fs

open CleanOS.Lib

/-- What `fs.c` uses of a `file_t`. -/
structure FileT where
  ref : Int
  mode : Int
  desc : Option Nat

/-- `FILE_TABLE_SIZE`. -/
def fileTableSize : Nat := 2048

/-- `TASK_FILE_SIZE`. -/
def taskFileSize : Nat := 128

/-- `FILENO_UNKNOWN` and `EBADF`. -/
def filenoUnknown : Int := -1

@[inherit_doc filenoUnknown]
def ebadf : Int := -2

/-- What a `task_struct` has to do with files: its `file_table`, and whether the task
hangs. -/
structure TaskFiles where
  table : List (Option Nat)
  hanging : Bool

/-- A task after `init_thread`. -/
def TaskFiles.init : TaskFiles where
  table := List.replicate taskFileSize none
  hanging := false

/-- The table `file_table`, the mount points in the order of `mounted_fs`, the tasks in
the order of `all_tasks`, and the files for which the file system's `close` ran. -/
structure OpenFiles where
  file : Nat → FileT
  mounted : List (List UInt8)
  tasks : List TaskFiles
  closed : List Nat

/-- `task_file`. -/
def taskFile (table : List (Option Nat)) (fd : Int) : Option Nat :=
  if fd < 0 ∨ taskFileSize ≤ fd then none else (table[fd.toNat]?).join

/-- `task_free_fd`. -/
def taskFreeFd (table : List (Option Nat)) (fd : Int) : List (Option Nat) :=
  if fd < 0 ∨ taskFileSize ≤ fd then table else table.set fd.toNat none

/-- `task_alloc_fd`. -/
def taskAllocFd (table : List (Option Nat)) (file : Nat) : Option (Nat × List (Option Nat)) :=
  (table.findIdx? Option.isNone).map fun fd => (fd, table.set fd (some file))

/-- The store of `task_set_file`, which does not check the number: behind the table it
hits other data of the task. -/
def taskSetFile (table : List (Option Nat)) (fd : Int) (file : Nat) : List (Option Nat) :=
  if fd < 0 ∨ taskFileSize ≤ fd then table else table.set fd.toNat (some file)

namespace OpenFiles

def setRef (state : OpenFiles) (file : Nat) (ref : Int) : OpenFiles :=
  { state with file := Function.update state.file file { state.file file with ref := ref } }

/-- `ref_file`. -/
def refFile (state : OpenFiles) (file : Nat) : OpenFiles :=
  state.setRef file ((state.file file).ref + 1)

/-- `free_file`. -/
def freeFile (state : OpenFiles) (file : Nat) : OpenFiles :=
  state.setRef file ((state.file file).ref - 1)

/-- `alloc_file`. -/
def allocFile (state : OpenFiles) : Option (Nat × OpenFiles) :=
  ((List.range fileTableSize).find? fun file => (state.file file).ref = 0).map fun file =>
    (file, state.setRef file 1)

/-- The file system of a path, as `mounted_fs_visitor_by_path` finds it. -/
def fsOf (state : OpenFiles) (path : List UInt8) : Option Nat :=
  state.mounted.findIdx? fun mountPoint => mountPoint.isPrefixOf path

def setTable (state : OpenFiles) (task : Nat) (table : List (Option Nat)) : OpenFiles :=
  { state with tasks := state.tasks.set task ⟨table, false⟩ }

/-- `sys_open`.  Where no file system is found, the test of `file` reads a local variable
that was never set: `stale`.  `opens` is the answer of the file system. -/
def sysOpen (state : OpenFiles) (task : Nat) (table : List (Option Nat)) (path : List UInt8)
    (flag : Int) (stale : Option Nat) (opens : Bool) : Option (Int × OpenFiles) :=
  match state.fsOf path with
  | none =>
      match stale with
      | none => some (filenoUnknown, state)
      | some file =>
          if file < fileTableSize then some (filenoUnknown, state.freeFile file) else none
  | some fs =>
      match state.allocFile with
      | none => some (filenoUnknown, state)
      | some (file, state) =>
          match taskAllocFd table file with
          | none => some (filenoUnknown, state.freeFile file)
          | some (fd, table) =>
              let state := state.setTable task table
              let opened := { state.file file with mode := flag, desc := some fs }
              let state := { state with file := Function.update state.file file opened }
              if opens then some (fd, state)
              else some (filenoUnknown, state.freeFile file)

/-- `sys_dup`. -/
def sysDup (state : OpenFiles) (task : Nat) (table : List (Option Nat)) (fd : Int) :
    Option (Int × OpenFiles) :=
  match taskFile table fd with
  | none => some (ebadf, state)
  | some file =>
      match taskAllocFd table file with
      | none => some (-1, state)
      | some (newFd, table) => some (newFd, (state.setTable task table).refFile file)

/-- `sys_dup2`. -/
def sysDup2 (state : OpenFiles) (task : Nat) (table : List (Option Nat)) (dst source : Int) :
    Option (Int × OpenFiles) :=
  if dst = source then some (dst, state)
  else
    match taskFile table source with
    | none => some (ebadf, state)
    | some file =>
        let (state, table) :=
          match taskFile table dst with
          | none => (state, table)
          | some _ => (state.freeFile file, taskFreeFd table dst)
        some (dst, (state.setTable task (taskSetFile table dst file)).refFile file)

/-- `sys_close`; `socket` says whether there is a socket of this number. -/
def sysClose (state : OpenFiles) (task : Nat) (table : List (Option Nat)) (fd : Int)
    (socket : Bool) : Option (Int × OpenFiles) :=
  if socket then some (0, state)
  else
    match taskFile table fd with
    | none => some (ebadf, state)
    | some file =>
        if 0 < (state.file file).ref then
          let state := state.freeFile file
          let state :=
            if (state.file file).ref = 0 then { state with closed := state.closed ++ [file] }
            else state
          some (0, state.setTable task (taskFreeFd table fd))
        else none

end OpenFiles

/-- The system calls, with the position of the calling task in `all_tasks`.  `create`
stands for the calls that start a task with an empty table, and `reap` for the end of
`process_wait`, which gives the memory of a task back. -/
inductive FileCall where
  | open (task : Nat) (path : List UInt8) (flag : Int) (stale : Option Nat) (opens : Bool)
  | dup (task : Nat) (fd : Int)
  | dup2 (task : Nat) (dst source : Int)
  | close (task : Nat) (fd : Int) (socket : Bool)
  | create
  | fork (task : Nat) (copied : Bool)
  | exit (task : Nat)
  | reap (task : Nat)

namespace OpenFiles

def running (state : OpenFiles) (task : Nat) : Option (List (Option Nat)) :=
  match state.tasks[task]? with
  | none => none
  | some entry => if entry.hanging then none else some entry.table

def call (state : OpenFiles) : FileCall → Option (Int × OpenFiles)
  | .open task path flag stale opens => do
      state.sysOpen task (← state.running task) path flag stale opens
  | .dup task fd => do state.sysDup task (← state.running task) fd
  | .dup2 task dst source => do state.sysDup2 task (← state.running task) dst source
  | .close task fd socket => do state.sysClose task (← state.running task) fd socket
  | .create => some (0, { state with tasks := state.tasks ++ [.init] })
  -- `copy_process_mem` copies the page of the parent, its file table included.
  | .fork task copied => do
      let table ← state.running task
      if copied then some (0, { state with tasks := state.tasks ++ [⟨table, false⟩] })
      else some (-1, state)
  -- `process_exit` leaves the file table of the task as it is.
  | .exit task => do
      let table ← state.running task
      some (0, { state with tasks := state.tasks.set task ⟨table, true⟩ })
  | .reap task =>
      match state.tasks[task]? with
      | some ⟨_, true⟩ => some (0, { state with tasks := state.tasks.eraseIdx task })
      | _ => none

def step (state : OpenFiles) (action : FileCall) : Option OpenFiles :=
  (state.call action).map (·.2)

def refs (table : List (Option Nat)) (file : Nat) : Nat :=
  table.countP fun entry => entry = some file

def entries (state : OpenFiles) (file : Nat) : Nat :=
  (state.tasks.map fun entry => refs entry.table file).sum

def Counted (state : OpenFiles) : Prop :=
  ∀ file, (state.file file).ref = state.entries file

/-- `sys_open` gets as far as the `open` of the file system. -/
def ReachesOpen (state : OpenFiles) (task : Nat) (path : List UInt8) : Prop :=
  (state.fsOf path).isSome ∧ state.allocFile.isSome ∧
    ∃ table, state.running task = some table ∧ none ∈ table

/-- A path without a file system is opened only while the stale variable is null, the
file system opens what it is asked to open, `dup2` is given a number that is free or
refers to the same file, and neither a task that forks nor one that is reaped refers to
a file. -/
def Guard (state : OpenFiles) : FileCall → Prop
  | .open task path _ stale opens =>
      (state.fsOf path = none → stale = none) ∧ (state.ReachesOpen task path → opens = true)
  | .dup2 task dst source => dst = source ∨ ∀ table file,
      state.running task = some table → taskFile table source = some file →
      0 ≤ dst ∧ dst < taskFileSize ∧ (taskFile table dst = none ∨ taskFile table dst = some file)
  | .fork task copied => copied = true → ∀ table, state.running task = some table →
      ∀ entry ∈ table, entry = none
  | .reap task => ∀ entry, state.tasks[task]? = some entry → ∀ file ∈ entry.table, file = none
  | _ => True

variable {state after : OpenFiles} {task file other fd : Nat} {table : List (Option Nat)}
  {entry : TaskFiles} {old new : Option Nat}

theorem refs_set (found : table[fd]? = some old) (new : Option Nat) (file : Nat) :
    refs (table.set fd new) file + (decide (old = some file)).toNat =
      refs table file + (decide (new = some file)).toNat :=
  countP_set found new _

theorem entries_setTable (found : state.tasks[task]? = some entry)
    (table : List (Option Nat)) (file : Nat) :
    (state.setTable task table).entries file + refs entry.table file =
      state.entries file + refs table file :=
  sum_map_set found ⟨table, false⟩ fun entry => refs entry.table file

theorem tasks_of_running (found : state.running task = some table) :
    state.tasks[task]? = some ⟨table, false⟩ := by
  unfold running at found
  split at found
  next => cases found
  next entry isEntry =>
    split at found
    next => cases found
    next notHanging =>
      cases found
      rw [isEntry]
      cases entry
      simp_all

theorem setRef_ref (state : OpenFiles) (file other : Nat) (ref : Int) :
    ((state.setRef file ref).file other).ref =
      if other = file then ref else (state.file other).ref := by
  dsimp only [setRef]
  rw [Function.update_apply]
  split <;> rfl

theorem refFile_ref (state : OpenFiles) (file other : Nat) :
    ((state.refFile file).file other).ref =
      (state.file other).ref + (decide (some file = some other)).toNat := by
  rw [refFile, setRef_ref]
  by_cases same : other = file
  · simp [same]
  · simp [same, Ne.symm same]

theorem freeFile_ref (state : OpenFiles) (file other : Nat) :
    ((state.freeFile file).file other).ref =
      (state.file other).ref - (decide (some file = some other)).toNat := by
  rw [freeFile, setRef_ref]
  by_cases same : other = file
  · simp [same]
  · simp [same, Ne.symm same]

theorem taskFile_eq_some {fd : Int} (found : taskFile table fd = some file) :
    0 ≤ fd ∧ fd < taskFileSize ∧ table[fd.toNat]? = some (some file) := by
  unfold taskFile at found
  split at found
  next => cases found
  next inside =>
    rw [not_or, Int.not_lt, Int.not_le] at inside
    exact ⟨inside.1, inside.2, Option.join_eq_some_iff.mp found⟩

theorem taskFile_eq_none {fd : Int} (missing : taskFile table fd = none) (lower : 0 ≤ fd)
    (upper : fd < table.length) (sized : table.length = taskFileSize) :
    table[fd.toNat]? = some none := by
  have outside : ¬ (fd < 0 ∨ (taskFileSize : Int) ≤ fd) := by omega
  rw [taskFile, if_neg outside] at missing
  have inside : fd.toNat < table.length := by omega
  rw [List.getElem?_eq_getElem inside] at missing ⊢
  exact congrArg some missing

theorem taskAllocFd_eq_some {newTable : List (Option Nat)}
    (alloc : taskAllocFd table file = some (fd, newTable)) :
    table[fd]? = some none ∧ newTable = table.set fd (some file) := by
  obtain ⟨number, found, same⟩ := Option.map_eq_some_iff.mp alloc
  cases same
  obtain ⟨inside, isNone, _⟩ := List.findIdx?_eq_some_iff_getElem.mp found
  refine ⟨?_, rfl⟩
  rw [List.getElem?_eq_getElem inside, Option.isNone_iff_eq_none.mp isNone]

theorem allocFile_eq_some (alloc : state.allocFile = some (file, after)) :
    (state.file file).ref = 0 ∧ after = state.setRef file 1 := by
  obtain ⟨number, found, same⟩ := Option.map_eq_some_iff.mp alloc
  cases same
  exact ⟨by simpa using List.find?_some found, rfl⟩

structure Sound (state : OpenFiles) : Prop where
  counted : state.Counted
  sized : ∀ entry ∈ state.tasks, entry.table.length = taskFileSize

/-- The file system's `close` ran for the files whose last reference went. -/
def Closes (state after : OpenFiles) : Prop :=
  ∃ dropped, after.closed = state.closed ++ dropped ∧ ∀ file, dropped.count file =
    if 0 < (state.file file).ref ∧ (after.file file).ref = 0 then 1 else 0

theorem Closes.of_kept (closed : after.closed = state.closed)
    (kept : ∀ file, 0 < (state.file file).ref → (after.file file).ref ≠ 0) :
    Closes state after := by
  refine ⟨[], by rw [closed, List.append_nil], fun file => ?_⟩
  rw [List.count_nil, if_neg fun both => kept file both.1 both.2]

/-- One entry of a running task changes from `old` to `new`, and the reference counts
change with it. -/
theorem Sound.of_set (sound : state.Sound) (running : state.running task = some table)
    (found : table[fd]? = some old) (new : Option Nat)
    (tasks : after.tasks = (state.setTable task (table.set fd new)).tasks)
    (ref : ∀ file, (after.file file).ref + (decide (old = some file)).toNat =
      (state.file file).ref + (decide (new = some file)).toNat) : after.Sound := by
  have isTask := tasks_of_running running
  constructor
  · intro file
    have changed := entries_setTable isTask (table.set fd new) file
    have inTable := refs_set found new file
    have counted := sound.counted file
    have counts := ref file
    have same : after.entries file = (state.setTable task (table.set fd new)).entries file := by
      rw [entries, entries, tasks]
    dsimp only at changed
    rw [same]
    omega
  · rw [tasks]
    refine forall_mem_set sound.sized ?_
    rw [List.length_set]
    exact sound.sized _ (List.mem_of_getElem? isTask)

variable {fd dst source flag result : Int} {path : List UInt8} {stale : Option Nat}
  {opens socket copied : Bool}

theorem update_opened_ref (files : Nat → FileT) (file other : Nat) (mode : Int)
    (desc : Option Nat) :
    (Function.update files file { files file with mode, desc } other).ref = (files other).ref := by
  rw [Function.update_apply]
  split
  next same => rw [same]
  next => rfl

theorem sysOpen_sound (sound : state.Sound) (running : state.running task = some table)
    (hasFs : state.fsOf path = none → stale = none)
    (canOpen : state.ReachesOpen task path → opens = true)
    (opened : state.sysOpen task table path flag stale opens = some (result, after)) :
    after.Sound ∧ Closes state after ∧
      (result < 0 → after.tasks = state.tasks ∧
        ∀ file, (after.file file).ref = (state.file file).ref) := by
  have unchanged : state.Sound ∧ Closes state state ∧ (result < 0 → state.tasks = state.tasks ∧
      ∀ file, (state.file file).ref = (state.file file).ref) :=
    ⟨sound, .of_kept rfl fun file positive => by omega, fun _ => ⟨rfl, fun _ => rfl⟩⟩
  unfold sysOpen at opened
  split at opened
  next noFs =>
    rw [hasFs noFs] at opened
    cases opened
    exact unchanged
  next fs isFs =>
    split at opened
    next noFile =>
      cases opened
      exact unchanged
    next file allocated alloc =>
      obtain ⟨isFree, rfl⟩ := allocFile_eq_some alloc
      split at opened
      next noFd =>
        cases opened
        have refs : ∀ other, (((state.setRef file 1).freeFile file).file other).ref =
            (state.file other).ref := by
          intro other
          rw [freeFile, setRef_ref, setRef_ref, setRef_ref, if_pos rfl]
          split
          next same => rw [same, isFree]; rfl
          next => rfl
        refine ⟨⟨fun other => ?_, sound.sized⟩, .of_kept rfl fun other positive => ?_,
          fun _ => ⟨rfl, refs⟩⟩
        · rw [refs]
          exact sound.counted other
        · rw [refs]
          omega
      next fd newTable fdAlloc =>
        obtain ⟨isNone, rfl⟩ := taskAllocFd_eq_some fdAlloc
        have reached : state.ReachesOpen task path :=
          ⟨Option.isSome_of_mem isFs, Option.isSome_of_mem alloc, table, running,
            List.mem_of_getElem? isNone⟩
        rw [canOpen reached, if_pos rfl] at opened
        obtain ⟨isResult, isAfter⟩ := Prod.mk.inj (Option.some.inj opened)
        have ref : ∀ other, (after.file other).ref =
            if other = file then 1 else (state.file other).ref := by
          intro other
          rw [← isAfter]
          exact (update_opened_ref _ _ _ _ _).trans (setRef_ref _ _ _ _)
        refine ⟨sound.of_set running isNone (some file) ?_ ?_, .of_kept ?_ ?_, ?_⟩
        · rw [← isAfter]
          rfl
        · intro other
          rw [ref]
          by_cases same : other = file
          · rw [if_pos same, same, isFree]
            simp
          · rw [if_neg same]
            simp [Ne.symm same]
        · rw [← isAfter]
          rfl
        · intro other positive
          rw [ref]
          split <;> omega
        · omega

theorem Closes.of_same (closed : after.closed = state.closed) (file : after.file = state.file) :
    Closes state after :=
  .of_kept closed fun other positive => by
    rw [file]
    omega

theorem Closes.refl (state : OpenFiles) : Closes state state :=
  .of_same rfl rfl

theorem sysDup_sound (sound : state.Sound) (running : state.running task = some table)
    (dup : state.sysDup task table fd = some (result, after)) :
    after.Sound ∧ Closes state after := by
  unfold sysDup at dup
  split at dup
  next =>
    cases dup
    exact ⟨sound, .refl _⟩
  next file isFile =>
    split at dup
    next =>
      cases dup
      exact ⟨sound, .refl _⟩
    next newFd newTable alloc =>
      cases dup
      obtain ⟨isNone, rfl⟩ := taskAllocFd_eq_some alloc
      refine ⟨sound.of_set running isNone (some file) rfl fun other => ?_,
        .of_kept rfl fun other positive => ?_⟩
      · rw [refFile_ref]
        simp [setTable]
      · rw [refFile_ref]
        dsimp only [setTable]
        omega

theorem sysDup2_sound (sound : state.Sound) (running : state.running task = some table)
    (isDst : dst = source ∨ ∀ file, taskFile table source = some file →
      0 ≤ dst ∧ dst < taskFileSize ∧ (taskFile table dst = none ∨ taskFile table dst = some file))
    (dup : state.sysDup2 task table dst source = some (result, after)) :
    after.Sound ∧ Closes state after := by
  unfold sysDup2 at dup
  split at dup
  next =>
    cases dup
    exact ⟨sound, .refl _⟩
  next different =>
    split at dup
    next =>
      cases dup
      exact ⟨sound, .refl _⟩
    next file isFile =>
      obtain ⟨lower, upper, isDst⟩ := isDst.resolve_left different file isFile
      have inside : ¬ (dst < 0 ∨ (taskFileSize : Int) ≤ dst) := by omega
      have sized : table.length = taskFileSize :=
        sound.sized _ (List.mem_of_getElem? (tasks_of_running running))
      rcases isDst with free | same
      · rw [free] at dup
        have isNone := taskFile_eq_none free lower (by omega) sized
        simp only [taskSetFile, if_neg inside] at dup
        cases dup
        refine ⟨sound.of_set running isNone (some file) rfl fun other => ?_,
          .of_kept rfl fun other positive => ?_⟩
        · rw [refFile_ref]
          simp [setTable]
        · rw [refFile_ref]
          dsimp only [setTable]
          omega
      · rw [same] at dup
        obtain ⟨_, _, isSame⟩ := taskFile_eq_some same
        simp only [taskSetFile, taskFreeFd, if_neg inside, List.set_set] at dup
        cases dup
        have ref : ∀ other, ((((state.freeFile file).setTable task (table.set dst.toNat
            (some file))).refFile file).file other).ref = (state.file other).ref := by
          intro other
          rw [refFile_ref]
          exact (congrArg (· + _) (freeFile_ref state file other)).trans (Int.sub_add_cancel _ _)
        refine ⟨sound.of_set running isSame (some file) rfl fun other => ?_,
          .of_kept rfl fun other positive => ?_⟩
        · rw [ref]
        · rw [ref]
          omega

theorem sysClose_file (isFile : taskFile table fd = some file)
    (close : state.sysClose task table fd false = some (result, after)) :
    result = 0 ∧ after.tasks = (state.setTable task (table.set fd.toNat none)).tasks ∧
      (∀ other, (after.file other).ref =
        (state.file other).ref - (decide (some file = some other)).toNat) ∧
      after.closed = state.closed ++ if (state.file file).ref = 1 then [file] else [] := by
  obtain ⟨lower, upper, _⟩ := taskFile_eq_some isFile
  have inside : ¬ (fd < 0 ∨ (taskFileSize : Int) ≤ fd) := by omega
  unfold sysClose at close
  rw [if_neg Bool.false_ne_true, isFile] at close
  dsimp only at close
  split at close
  next positive =>
    obtain ⟨isResult, isAfter⟩ := Prod.mk.inj (Option.some.inj close)
    refine ⟨isResult.symm, ?_, fun other => ?_, ?_⟩
    · rw [← isAfter, taskFreeFd, if_neg inside]
      dsimp only [setTable]
      split <;> rfl
    · rw [← freeFile_ref, ← isAfter]
      dsimp only [setTable]
      split <;> rfl
    · have last : ((state.freeFile file).file file).ref = 0 ↔ (state.file file).ref = 1 := by
        rw [freeFile_ref]
        simp only [decide_true, Bool.toNat_true]
        omega
      rw [← isAfter]
      dsimp only [setTable]
      by_cases isLast : (state.file file).ref = 1
      · rw [if_pos (last.mpr isLast), if_pos isLast]
        rfl
      · rw [if_neg (mt last.mp isLast), if_neg isLast, List.append_nil]
        rfl
  next => cases close

theorem sysClose_sound (sound : state.Sound) (running : state.running task = some table)
    (close : state.sysClose task table fd socket = some (result, after)) :
    after.Sound ∧ Closes state after := by
  cases socket with
  | true =>
      cases close
      exact ⟨sound, .refl _⟩
  | false =>
      cases isFile : taskFile table fd with
      | none =>
          unfold sysClose at close
          rw [if_neg Bool.false_ne_true, isFile] at close
          cases close
          exact ⟨sound, .refl _⟩
      | some file =>
          obtain ⟨_, _, found⟩ := taskFile_eq_some isFile
          obtain ⟨_, tasks, ref, closed⟩ := sysClose_file isFile close
          refine ⟨sound.of_set running found none tasks fun other => ?_, _, closed, fun other => ?_⟩
          · rw [ref]
            simp
          · rw [ref]
            by_cases same : file = other
            · subst same
              by_cases isLast : (state.file file).ref = 1
              · rw [if_pos isLast, isLast]
                simp
              · rw [if_neg isLast, if_neg, List.count_nil]
                simp only [decide_true, Bool.toNat_true]
                omega
            · have kept : ¬ (0 < (state.file other).ref ∧ (state.file other).ref -
                  (decide (some file = some other)).toNat = 0) := by
                rw [decide_eq_false (mt Option.some.inj same), Bool.toNat_false]
                omega
              rw [if_neg kept]
              split
              next => rw [List.count_singleton, if_neg (by simpa using same)]
              next => rfl

theorem Sound.of_tasks (sound : state.Sound) (file : after.file = state.file)
    (entries : ∀ file, after.entries file = state.entries file)
    (sized : ∀ entry ∈ after.tasks, entry.table.length = taskFileSize) : after.Sound where
  counted := fun other => by
    rw [file, entries]
    exact sound.counted other
  sized := sized

theorem refs_empty (empty : ∀ entry ∈ table, entry = none) (file : Nat) : refs table file = 0 := by
  rw [refs, List.countP_eq_zero]
  intro entry member
  rw [empty entry member]
  simp

theorem entries_append (state : OpenFiles) (entry : TaskFiles) (file : Nat) :
    { state with tasks := state.tasks ++ [entry] }.entries file =
      state.entries file + refs entry.table file := by
  rw [entries, entries, List.map_append, List.sum_append, List.map_singleton, List.sum_singleton]

/-- A call that meets the condition keeps the count, closes what lost its last
reference, and, when it is an `open` that fails, changes no table and no count. -/
theorem call_sound {action : FileCall} (sound : state.Sound) (guard : state.Guard action)
    (called : state.call action = some (result, after)) :
    after.Sound ∧ Closes state after ∧ ∀ task path flag stale opens,
      action = .open task path flag stale opens → result < 0 →
      after.tasks = state.tasks ∧ ∀ file, (after.file file).ref = (state.file file).ref := by
  cases action with
  | «open» task path flag stale opens =>
      obtain ⟨table, running, opened⟩ := Option.bind_eq_some_iff.mp called
      obtain ⟨afterSound, closes, failed⟩ := sysOpen_sound sound running guard.1 guard.2 opened
      exact ⟨afterSound, closes, fun _ _ _ _ _ _ => failed⟩
  | dup task fd =>
      obtain ⟨table, running, dup⟩ := Option.bind_eq_some_iff.mp called
      obtain ⟨afterSound, closes⟩ := sysDup_sound sound running dup
      exact ⟨afterSound, closes, by rintro _ _ _ _ _ ⟨⟩⟩
  | dup2 task dst source =>
      obtain ⟨table, running, dup⟩ := Option.bind_eq_some_iff.mp called
      obtain ⟨afterSound, closes⟩ := sysDup2_sound sound running
        (guard.imp_right fun inRange file => inRange table file running) dup
      exact ⟨afterSound, closes, by rintro _ _ _ _ _ ⟨⟩⟩
  | close task fd socket =>
      obtain ⟨table, running, close⟩ := Option.bind_eq_some_iff.mp called
      obtain ⟨afterSound, closes⟩ := sysClose_sound sound running close
      exact ⟨afterSound, closes, by rintro _ _ _ _ _ ⟨⟩⟩
  | create =>
      cases called
      refine ⟨sound.of_tasks rfl (fun file => ?_) ?_, .of_same rfl rfl,
        by rintro _ _ _ _ _ ⟨⟩⟩
      · rw [entries_append, TaskFiles.init, refs_empty fun entry => List.eq_of_mem_replicate,
          Nat.add_zero]
      · intro entry member
        rcases List.mem_append.mp member with old | new
        · exact sound.sized entry old
        · rw [List.mem_singleton.mp new]
          exact List.length_replicate
  | fork task copied =>
      obtain ⟨table, running, rest⟩ := Option.bind_eq_some_iff.mp called
      split at rest
      next isCopied =>
        cases rest
        refine ⟨sound.of_tasks rfl (fun file => ?_) ?_, .of_same rfl rfl,
          by rintro _ _ _ _ _ ⟨⟩⟩
        · rw [entries_append, refs_empty (guard isCopied table running), Nat.add_zero]
        · intro entry member
          rcases List.mem_append.mp member with old | new
          · exact sound.sized entry old
          · rw [List.mem_singleton.mp new]
            exact sound.sized _ (List.mem_of_getElem? (tasks_of_running running))
      next =>
        cases rest
        exact ⟨sound, .refl _, by rintro _ _ _ _ _ ⟨⟩⟩
  | exit task =>
      obtain ⟨table, running, rest⟩ := Option.bind_eq_some_iff.mp called
      cases rest
      have isTask := tasks_of_running running
      refine ⟨sound.of_tasks rfl (fun file => ?_) ?_, .of_same rfl rfl,
        by rintro _ _ _ _ _ ⟨⟩⟩
      · have changed := sum_map_set isTask ⟨table, true⟩ fun entry => refs entry.table file
        exact Nat.add_right_cancel changed
      · have sized := sound.sized _ (List.mem_of_getElem? isTask)
        exact forall_mem_set sound.sized sized
  | reap task =>
      dsimp only [call] at called
      split at called
      next table isTask =>
        cases called
        obtain ⟨inside, isEntry⟩ := List.getElem?_eq_some_iff.mp isTask
        have perm := List.getElem_cons_eraseIdx_perm inside
        refine ⟨sound.of_tasks rfl (fun file => ?_) fun entry member => ?_, .of_same rfl rfl,
          by rintro _ _ _ _ _ ⟨⟩⟩
        · have sum := (perm.map fun entry => refs entry.table file).sum_nat
          rw [List.map_cons, List.sum_cons, isEntry, refs_empty (guard _ isTask),
            Nat.zero_add] at sum
          exact sum
        · exact sound.sized entry (List.mem_of_mem_eraseIdx member)
      next => cases called

/-- The files after `init_file_table`, with the main task. -/
def start (mounted : List (List UInt8)) : OpenFiles where
  file := fun _ => ⟨0, 0, none⟩
  mounted := mounted
  tasks := [.init]
  closed := []

theorem start_sound (mounted : List (List UInt8)) : (start mounted).Sound where
  counted := fun file => by
    rw [entries, start, List.map_singleton, List.sum_singleton, TaskFiles.init,
      refs_empty fun entry => List.eq_of_mem_replicate]
    rfl
  sized := fun entry member => by
    rw [List.mem_singleton.mp member]
    exact List.length_replicate

theorem entries_pos (member : entry ∈ state.tasks) (refers : some file ∈ entry.table) :
    0 < state.entries file := by
  have inTable : 0 < refs entry.table file := List.countP_pos_iff.mpr ⟨_, refers, by simp⟩
  exact List.sum_pos_iff_exists_pos_nat.mpr ⟨_, List.mem_map_of_mem member, inTable⟩

/-- In a guarded run the reference counts are right, a file without a reference is in no
table, and every further guarded call closes what it drops and undoes a failed
`open`. -/
theorem reaches_counted {mounted : List (List UInt8)}
    (reached : Reaches step Guard (start mounted) state) :
    state.Counted ∧
    (∀ file, (state.file file).ref = 0 → ∀ entry ∈ state.tasks, some file ∉ entry.table) ∧
    ∀ action result after, state.Guard action → state.call action = some (result, after) →
      Closes state after ∧ ∀ task path flag stale opens,
        action = .open task path flag stale opens → result < 0 →
        after.tasks = state.tasks ∧ ∀ file, (after.file file).ref = (state.file file).ref := by
  have sound : state.Sound := by
    refine reached.invariant Sound (start_sound mounted) fun sound guard stepped => ?_
    obtain ⟨⟨result, _⟩, called, rfl⟩ := Option.map_eq_some_iff.mp stepped
    exact (call_sound sound guard called).1
  refine ⟨sound.counted, fun file unreferenced entry member refers => ?_,
    fun action result after guard called => (call_sound sound guard called).2⟩
  have counted := sound.counted file
  have positive := entries_pos member refers
  omega

set_option maxRecDepth 8192 in
theorem reaches_counted_dup : ∃ state, Reaches step Guard (start [[47]]) state ∧
    (state.file 0).ref = 2 ∧ state.Counted := by
  have started : Reaches step Guard (start [[47]]) (start [[47]]) := .refl
  have opened := started.by_action (.open 0 [47] 0 none true) ⟨by decide, fun _ => rfl⟩ rfl
  have duplicated := opened.by_action (.dup 0 0) trivial rfl
  exact ⟨_, duplicated, rfl, (reaches_counted duplicated).1⟩

/-- When the file system refuses to open a file, the file is freed and its number stays
in the table. -/
theorem sysOpen_keeps_fd : ((start [[47]]).call (.open 0 [47] 0 none false)).map (fun answer =>
    (answer.1, (answer.2.file 0).ref, answer.2.entries 0)) = some (-1, 0, 1) := by
  decide +kernel

end OpenFiles

end CleanOS.Fs
