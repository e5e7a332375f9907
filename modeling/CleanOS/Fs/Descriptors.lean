import CleanOS.Fs.OpenFiles
import CleanOS.Net.SockTable

/-!
# The numbers of files and sockets

Files have the numbers of a table of their task, sockets those of one table for all tasks,
and `sys_close` of `kernel/fs/fs.c` asks the second table first.  A task is given a number
by `sys_open`, `sys_dup` or `create_socket`; the numbers that tasks were given are kept
beside the tables.
-/

namespace CleanOS.Fs

open CleanOS.Lib CleanOS.Net

/-- What a number refers to. -/
inductive Object where
  | file (file : Nat)
  | socket (sock : SockPtr)
  deriving DecidableEq

/-- The file tables, the socket table, and what the numbers refer to that a task was given
and did not close since. -/
structure Descriptors where
  files : OpenFiles
  sockets : Sockets
  names : Nat → Int → Option Object

/-- The calls of a task; `posted` says whether the network worker gets the message of
`create_socket` or `close_socket`. -/
inductive DescriptorCall where
  | open (task : Nat) (path : List UInt8) (flag : Int) (stale : Option Nat) (opens : Bool)
  | dup (task : Nat) (fd : Int)
  | createSocket (task : Nat) (posted : Bool) (family type protocol waitInit : Int)
  | close (task : Nat) (fd : Int) (posted : Bool)

def OpenFiles.entry (state : OpenFiles) (task : Nat) (fd : Int) : Option Nat :=
  (state.running task).bind fun table => taskFile table fd

namespace Descriptors

def setName (state : Descriptors) (task : Nat) (fd : Int) (object : Option Object) :
    Descriptors :=
  { state with names := fun other number =>
      if other = task ∧ number = fd then object else state.names other number }

/-- A number that `sys_open` or `sys_dup` returned refers to the file in the table. -/
def give (state : Descriptors) (task : Nat) (fd : Int) : Descriptors :=
  if fd < 0 then state else state.setName task fd ((state.files.entry task fd).map .file)

def call (state : Descriptors) : DescriptorCall → Option (Int × Descriptors)
  | .open task path flag stale opens => do
      let (fd, files) ← state.files.call (.open task path flag stale opens)
      some (fd, { state with files }.give task fd)
  | .dup task fd => do
      let (newFd, files) ← state.files.call (.dup task fd)
      some (newFd, { state with files }.give task newFd)
  | .createSocket task posted family type protocol waitInit =>
      if posted then do
        let (err, sockFd, sockets) ←
          state.sockets.handleSockCreate family type protocol waitInit
        if err.isError then some (-1, { state with sockets })
        else
          let sock := sockets.getSocket sockFd
          some (sockFd, { state with sockets }.setName task sockFd (sock.map .socket))
      else some (-1, state)
  -- `sys_close`, with `close_socket` where there is a socket of this number
  | .close task fd posted =>
      match state.sockets.getSocket fd with
      | some _ =>
          if posted then do
            let (err, sockets) ← state.sockets.handleSockClose fd
            some (if err.isError then -1 else 0, { state with sockets }.setName task fd none)
          else some (-1, state)
      | none => do
          let (result, files) ← state.files.call (.close task fd false)
          some (result, { state with files }.setName task fd none)

/-- Every number that a task was given refers to an open file of its table or to an open
socket, and no number is in the table of a task and that of an open socket. -/
structure Named (state : Descriptors) : Prop where
  file : ∀ task fd file, state.names task fd = some (.file file) →
    state.files.entry task fd = some file ∧ 0 < (state.files.file file).ref
  socket : ∀ task fd sock, state.names task fd = some (.socket sock) →
    state.sockets.getSocket fd = some sock ∧ state.sockets.IsOpen sock
  apart : ∀ task fd file other sock, state.files.entry task fd = some file →
    state.names other fd ≠ some (.socket sock)

/-- One reference to the file is gone, that of a number of the task, and the file is closed
if there is no other. -/
structure DropsFile (state after : OpenFiles) (task : Nat) (fd : Int) (file : Nat) : Prop where
  entry : ∀ other number, after.entry other number =
    if other = task ∧ number = fd then none else state.entry other number
  ref : ∀ other, (after.file other).ref =
    (state.file other).ref - (decide (some file = some other)).toNat
  closed : after.closed = state.closed ++ if (state.file file).ref = 1 then [file] else []

/-- `sys_close` releases what the task was given under the number, and only that. -/
def Releases (state after : Descriptors) (task : Nat) (fd : Int) : Prop :=
  match state.names task fd with
  | none => after.files = state.files ∧ after.sockets = state.sockets
  | some (.file file) =>
      after.sockets = state.sockets ∧ DropsFile state.files after.files task fd file
  | some (.socket sock) =>
      after.files = state.files ∧
        ∀ other, after.sockets.IsOpen other ↔ other ≠ sock ∧ state.sockets.IsOpen other

def Respects (state : Descriptors) (call : DescriptorCall) (_ : Int) (after : Descriptors) :
    Prop :=
  match call with
  | .close task fd _ => Releases state after task fd
  | _ => True

def NoSocket (state : Descriptors) (fd : Int) : Prop :=
  ∀ task sock, state.names task fd ≠ some (.socket sock)

/-- The task runs.  A file takes no number of an open socket, a socket none that is in the
table of some task, and where `sys_close` finds a socket, the task was given the number for
it and did not close it since, and the worker gets the message.  A call of `sys_open` also
meets the condition under which the counts of open files are right. -/
def Guard (state : Descriptors) : DescriptorCall → Prop
  | .open task path flag stale opens => (state.files.running task).isSome ∧
      state.files.Guard (.open task path flag stale opens) ∧
      (state.files.ReachesOpen task path → ∀ table fd, state.files.running task = some table →
        table.findIdx? Option.isNone = some fd → state.NoSocket fd)
  | .dup task fd => (state.files.running task).isSome ∧
      (state.files.entry task fd ≠ none → ∀ table newFd,
        state.files.running task = some table →
        table.findIdx? Option.isNone = some newFd → state.NoSocket newFd)
  | .createSocket task posted _ type _ waitInit => (state.files.running task).isSome ∧
      (posted = true →
        (type = 0 → ∀ socket ∈ state.sockets.table, socket.state ≠ .free) ∧
        ∀ idx ops block, state.sockets.CanCreate type waitInit idx ops block →
          ∀ other, state.files.entry other idx = none)
  | .close task fd posted => (state.files.running task).isSome ∧
      ∀ sock, state.sockets.getSocket fd = some sock →
        posted = true ∧ state.names task fd = some (.socket sock)

structure Sound (state : Descriptors) : Prop where
  files : state.files.Sound
  sized : state.sockets.table.length = socketMaxNr
  used : ∀ socket ∈ state.sockets.table, socket.state = .used ↔ socket.sock ≠ none
  divided : ∀ ops, (state.sockets.pool ops).Divided
  entry : ∀ task fd file, state.names task fd = some (.file file) ↔
    state.files.entry task fd = some file
  socket : ∀ task fd sock, state.names task fd = some (.socket sock) →
    state.sockets.getSocket fd = some sock ∧ state.sockets.IsOpen sock
  alone : ∀ task fd sock other number, state.names task fd = some (.socket sock) →
    state.names other number = some (.socket sock) → other = task ∧ number = fd
  apart : ∀ task fd file other sock, state.names task fd = some (.file file) →
    state.names other fd ≠ some (.socket sock)

end Descriptors

namespace OpenFiles

variable {state after : OpenFiles} {task file other number fd : Nat} {table : List (Option Nat)}
  {result i : Int}

theorem running_congr (same : after.tasks = state.tasks) (task : Nat) :
    after.running task = state.running task := by
  rw [running, running, same]

theorem entry_congr (same : after.tasks = state.tasks) (task : Nat) (i : Int) :
    after.entry task i = state.entry task i := by
  rw [entry, entry, running_congr same]

theorem running_setTable (running : state.running task = some table)
    (new : List (Option Nat)) (other : Nat) :
    (state.setTable task new).running other =
      if other = task then some new else state.running other := by
  obtain ⟨inside, _⟩ := List.getElem?_eq_some_iff.mp (tasks_of_running running)
  dsimp only [OpenFiles.running, setTable]
  by_cases same : other = task
  · rw [if_pos same, same, List.getElem?_set_self inside]
    rfl
  · rw [if_neg same, List.getElem?_set_ne (Ne.symm same)]

theorem taskFile_set (sized : table.length = taskFileSize) (inside : number < table.length)
    (new : Option Nat) (i : Int) :
    taskFile (table.set number new) i = if i = number then new else taskFile table i := by
  unfold taskFile
  by_cases same : i = number
  · have inRange : ¬ (i < 0 ∨ (taskFileSize : Int) ≤ i) := by omega
    have isNumber : i.toNat = number := by omega
    rw [if_pos same, if_neg inRange, isNumber, List.getElem?_set_self inside]
    rfl
  · rw [if_neg same]
    split
    next => rfl
    next inRange =>
      have ne : number ≠ i.toNat := by omega
      rw [List.getElem?_set_ne ne]

theorem entry_set (sound : state.Sound) (running : state.running task = some table)
    (inside : number < table.length) (new : Option Nat)
    (tasks : after.tasks = (state.setTable task (table.set number new)).tasks)
    (other : Nat) (i : Int) :
    after.entry other i = if other = task ∧ i = number then new else state.entry other i := by
  have sized := sound.sized _ (List.mem_of_getElem? (tasks_of_running running))
  rw [entry, running_congr tasks, running_setTable running]
  by_cases same : other = task
  · rw [if_pos same, Option.bind_some, taskFile_set sized inside, entry, same, running]
    by_cases isNumber : i = number
    · rw [if_pos isNumber, if_pos ⟨rfl, isNumber⟩]
    · rw [if_neg isNumber, if_neg fun both => isNumber both.2]
      rfl
  · rw [if_neg same, if_neg fun both => same both.1]
    rfl

theorem taskAllocFd_first {newTable : List (Option Nat)}
    (alloc : taskAllocFd table file = some (fd, newTable)) :
    table.findIdx? Option.isNone = some fd ∧ fd < table.length ∧
      newTable = table.set fd (some file) := by
  obtain ⟨isNone, isSet⟩ := taskAllocFd_eq_some alloc
  obtain ⟨first, found, same⟩ := Option.map_eq_some_iff.mp alloc
  cases same
  obtain ⟨inside, _⟩ := List.getElem?_eq_some_iff.mp isNone
  exact ⟨found, inside, rfl⟩

/-- What `sys_open` and `sys_dup` do to the tables: nothing where they fail, and otherwise
they take the first free number of the task. -/
def TakesNumber (state after : OpenFiles) (task : Nat) (table : List (Option Nat))
    (result : Int) : Prop :=
  (result < 0 ∧ after.tasks = state.tasks) ∨
  ∃ fd file : Nat, result = fd ∧ table.findIdx? Option.isNone = some fd ∧ fd < table.length ∧
    after.tasks = (state.setTable task (table.set fd (some file))).tasks

theorem sysOpen_takes {path : List UInt8} (flag : Int) {stale : Option Nat} {opens : Bool}
    (running : state.running task = some table)
    (hasFs : state.fsOf path = none → stale = none)
    (canOpen : state.ReachesOpen task path → opens = true) :
    ∃ result after, state.sysOpen task table path flag stale opens = some (result, after) ∧
      TakesNumber state after task table result ∧
      (0 ≤ result → state.ReachesOpen task path) := by
  unfold sysOpen
  split
  next noFs =>
    rw [hasFs noFs]
    exact ⟨_, _, rfl, .inl ⟨by decide, rfl⟩, fun nonneg => absurd nonneg (by decide)⟩
  next fs isFs =>
    split
    next => exact ⟨_, _, rfl, .inl ⟨by decide, rfl⟩, fun nonneg => absurd nonneg (by decide)⟩
    next file allocated alloc =>
      obtain ⟨isFree, rfl⟩ := allocFile_eq_some alloc
      split
      next => exact ⟨_, _, rfl, .inl ⟨by decide, rfl⟩, fun nonneg => absurd nonneg (by decide)⟩
      next fd newTable fdAlloc =>
        obtain ⟨isNone, _⟩ := taskAllocFd_eq_some fdAlloc
        obtain ⟨first, inside, rfl⟩ := taskAllocFd_first fdAlloc
        have reached : state.ReachesOpen task path :=
          ⟨Option.isSome_of_mem isFs, Option.isSome_of_mem alloc, table, running,
            List.mem_of_getElem? isNone⟩
        rw [canOpen reached]
        exact ⟨_, _, rfl, .inr ⟨fd, file, rfl, first, inside, rfl⟩, fun _ => reached⟩

theorem sysDup_takes (task : Nat) (table : List (Option Nat)) (i : Int) :
    ∃ result after, state.sysDup task table i = some (result, after) ∧
      TakesNumber state after task table result ∧ (0 ≤ result → taskFile table i ≠ none) := by
  unfold sysDup
  split
  next => exact ⟨_, _, rfl, .inl ⟨by decide, rfl⟩, fun nonneg => absurd nonneg (by decide)⟩
  next file isFile =>
    split
    next => exact ⟨_, _, rfl, .inl ⟨by decide, rfl⟩, fun nonneg => absurd nonneg (by decide)⟩
    next newFd newTable alloc =>
      obtain ⟨first, inside, rfl⟩ := taskAllocFd_first alloc
      refine ⟨_, _, rfl, .inr ⟨newFd, file, rfl, first, inside, rfl⟩, fun _ missing => ?_⟩
      rw [isFile] at missing
      cases missing

theorem ref_pos (sound : state.Sound) (isEntry : state.entry task i = some file) :
    0 < (state.file file).ref := by
  obtain ⟨table, running, isFile⟩ := Option.bind_eq_some_iff.mp isEntry
  obtain ⟨_, _, found⟩ := taskFile_eq_some isFile
  have positive := entries_pos (List.mem_of_getElem? (tasks_of_running running))
    (List.mem_of_getElem? found)
  rw [sound.counted file]
  exact_mod_cast positive

theorem close_file (sound : state.Sound) (isEntry : state.entry task i = some file) :
    ∃ result after, state.call (.close task i false) = some (result, after) ∧ after.Sound ∧
      Descriptors.DropsFile state after task i file := by
  have positive := ref_pos sound isEntry
  obtain ⟨table, running, isFile⟩ := Option.bind_eq_some_iff.mp isEntry
  obtain ⟨lower, _, found⟩ := taskFile_eq_some isFile
  have returns : ∃ answer, state.sysClose task table i false = some answer := by
    unfold sysClose
    rw [if_neg Bool.false_ne_true, isFile]
    exact ⟨_, if_pos positive⟩
  obtain ⟨⟨result, after⟩, closes⟩ := returns
  obtain ⟨_, tasks, ref, closed⟩ := sysClose_file isFile closes
  have inside : i.toNat < table.length := (List.getElem?_eq_some_iff.mp found).1
  refine ⟨result, after, ?_, (sysClose_sound sound running closes).1, fun other number => ?_,
    ref, closed⟩
  · dsimp only [call]
    rw [running]
    exact closes
  · have same : (i.toNat : Int) = i := Int.toNat_of_nonneg lower
    rw [entry_set sound running inside none tasks, same]

theorem close_unknown (running : (state.running task).isSome) (unknown : state.entry task i = none) :
    state.call (.close task i false) = some (ebadf, state) := by
  obtain ⟨table, isTable⟩ := Option.isSome_iff_exists.mp running
  rw [entry, isTable, Option.bind_some] at unknown
  dsimp only [call]
  rw [isTable, Option.bind_eq_bind, Option.bind_some, sysClose, if_neg Bool.false_ne_true, unknown]

end OpenFiles

namespace Descriptors

variable {state : Descriptors} {task : Nat} {fd : Int} {call : DescriptorCall}

theorem Sound.named (sound : state.Sound) : state.Named where
  file := fun task fd file isNamed =>
    ⟨(sound.entry task fd file).mp isNamed,
      OpenFiles.ref_pos sound.files ((sound.entry task fd file).mp isNamed)⟩
  socket := sound.socket
  apart := fun task fd file other sock isEntry =>
    sound.apart task fd file other sock ((sound.entry task fd file).mpr isEntry)

theorem give_sound (sound : state.Sound) {files : OpenFiles} (filesSound : files.Sound)
    {table : List (Option Nat)} (running : state.files.running task = some table) {result : Int}
    (takes : state.files.TakesNumber files task table result)
    (noSocket : 0 ≤ result → ∀ first, table.findIdx? Option.isNone = some first →
      state.NoSocket first) :
    Sound ({ state with files }.give task result) := by
  rcases takes with ⟨failed, tasks⟩ | ⟨first, file, rfl, isFirst, inside, tasks⟩
  · rw [give, if_pos failed]
    refine ⟨filesSound, sound.sized, sound.used, sound.divided, fun task fd file => ?_,
      sound.socket, sound.alone, sound.apart⟩
    dsimp only
    rw [OpenFiles.entry_congr tasks]
    exact sound.entry task fd file
  · have entry := OpenFiles.entry_set sound.files running inside (some file) tasks
    have isNew : files.entry task first = some file := by
      rw [entry, if_pos ⟨rfl, rfl⟩]
    have free := noSocket (Int.natCast_nonneg first) first isFirst
    rw [give, if_neg (by omega)]
    dsimp only
    rw [isNew, Option.map_some]
    refine ⟨filesSound, sound.sized, sound.used, sound.divided, ?_, ?_, ?_, ?_⟩
    · intro other number otherFile
      dsimp only [setName]
      rw [entry]
      split
      next => simp
      next => exact sound.entry other number otherFile
    · intro other number sock isNamed
      dsimp only [setName] at isNamed
      split at isNamed
      next => cases isNamed
      next => exact sound.socket other number sock isNamed
    · intro one oneFd sock two twoFd oneNamed twoNamed
      dsimp only [setName] at oneNamed twoNamed
      split at oneNamed
      next => cases oneNamed
      next =>
        split at twoNamed
        next => cases twoNamed
        next => exact sound.alone one oneFd sock two twoFd oneNamed twoNamed
    · intro one number oneFile two sock oneNamed twoNamed
      dsimp only [setName] at oneNamed twoNamed
      split at twoNamed
      next => cases twoNamed
      next =>
        split at oneNamed
        next isFd =>
          rw [isFd.2] at twoNamed
          exact free two sock twoNamed
        next => exact sound.apart one number oneFile two sock oneNamed twoNamed

theorem open_sound (sound : state.Sound) {path : List UInt8} {flag : Int} {stale : Option Nat}
    {opens : Bool} (guard : state.Guard (.open task path flag stale opens)) :
    ∃ result after, state.call (.open task path flag stale opens) = some (result, after) ∧
      after.Sound := by
  obtain ⟨isRunning, filesGuard, noSocket⟩ := guard
  obtain ⟨table, running⟩ := Option.isSome_iff_exists.mp isRunning
  obtain ⟨result, files, opened, takes, reached⟩ :=
    OpenFiles.sysOpen_takes flag running filesGuard.1 filesGuard.2
  have filesSound := (OpenFiles.sysOpen_sound sound.files running filesGuard.1 filesGuard.2
    opened).1
  have called : state.files.call (.open task path flag stale opens) = some (result, files) := by
    dsimp only [OpenFiles.call]
    rw [running]
    exact opened
  refine ⟨result, { state with files }.give task result, ?_,
    give_sound sound filesSound running takes fun nonneg first isFirst =>
      noSocket (reached nonneg) table first running isFirst⟩
  dsimp only [Descriptors.call]
  rw [called]
  rfl

theorem dup_sound (sound : state.Sound) (guard : state.Guard (.dup task fd)) :
    ∃ result after, state.call (.dup task fd) = some (result, after) ∧ after.Sound := by
  obtain ⟨isRunning, noSocket⟩ := guard
  obtain ⟨table, running⟩ := Option.isSome_iff_exists.mp isRunning
  obtain ⟨result, files, dup, takes, hasFile⟩ := state.files.sysDup_takes task table fd
  have filesSound := (OpenFiles.sysDup_sound sound.files running dup).1
  have called : state.files.call (.dup task fd) = some (result, files) := by
    dsimp only [OpenFiles.call]
    rw [running]
    exact dup
  have isEntry : 0 ≤ result → state.files.entry task fd ≠ none := by
    intro nonneg
    rw [OpenFiles.entry, running]
    exact hasFile nonneg
  refine ⟨result, { state with files }.give task result, ?_,
    give_sound sound filesSound running takes fun nonneg first isFirst =>
      noSocket (isEntry nonneg) table first running isFirst⟩
  dsimp only [Descriptors.call]
  rw [called]
  rfl

variable {sockets : Sockets} {ops : SockOps} {pool : SockPool} {sock : SockPtr}

theorem isOpen_setPool (opened : pool.opened = (sockets.pool ops).opened) :
    (sockets.setPool ops pool).IsOpen sock ↔ sockets.IsOpen sock := by
  rw [← Sockets.mem_openSocks, ← Sockets.mem_openSocks, Sockets.openSocks_eq opened]

theorem isOpen_setPool_new {block : Nat}
    (opened : pool.opened = (sockets.pool ops).opened ++ [block]) :
    (sockets.setPool ops pool).IsOpen sock ↔ sock = ⟨ops, block⟩ ∨ sockets.IsOpen sock := by
  rw [← Sockets.mem_openSocks, ← Sockets.mem_openSocks,
    (Sockets.openSocks_setPool opened).mem_iff, List.mem_cons]

theorem Sound.setPool (sound : state.Sound)
    (opened : pool.opened = (state.sockets.pool ops).opened) (divided : pool.Divided) :
    Sound { state with sockets := state.sockets.setPool ops pool } where
  files := sound.files
  sized := (congrArg List.length (Sockets.setPool_table _ _ _)).trans sound.sized
  used := by
    dsimp only
    rw [Sockets.setPool_table]
    exact sound.used
  divided := Sockets.divided_setPool sound.divided divided
  entry := sound.entry
  socket := by
    intro task fd sock isNamed
    obtain ⟨found, isOpen⟩ := sound.socket task fd sock isNamed
    exact ⟨(Sockets.getSocket_congr (Sockets.setPool_table _ _ _) fd).trans found,
      (isOpen_setPool opened).mpr isOpen⟩
  alone := sound.alone
  apart := sound.apart

theorem getSocket_free {idx : Nat} (isFree : sockets.table[idx]? = some ⟨.free, none⟩) :
    sockets.getSocket idx = none := by
  unfold Sockets.getSocket
  split
  next => rfl
  next => rw [Int.toNat_natCast, isFree, Option.bind_some]

theorem getSocket_setSocket {idx : Nat} (sized : sockets.table.length = socketMaxNr)
    (inside : idx < sockets.table.length) (sock : SockPtr) :
    (sockets.setSocket idx ⟨.used, some sock⟩).getSocket idx = some sock := by
  unfold Sockets.getSocket Sockets.setSocket
  rw [if_neg (by omega), Int.toNat_natCast, List.getElem?_set_self inside]
  rfl

theorem created_sound (sound : state.Sound) (task : Nat) {idx block : Nat}
    (isFree : state.sockets.table[idx]? = some ⟨.free, none⟩)
    (blockFree : block ∈ (state.sockets.pool ops).free)
    (noFile : ∀ other, state.files.entry other idx = none)
    (opened : pool.opened = (state.sockets.pool ops).opened ++ [block])
    (divided : pool.Divided) :
    Sound (setName
      { state with
        sockets := (state.sockets.setPool ops pool).setSocket idx ⟨.used, some ⟨ops, block⟩⟩ }
      task idx (some (.socket ⟨ops, block⟩))) := by
  have inside : idx < state.sockets.table.length := (List.getElem?_eq_some_iff.mp isFree).1
  have table := Sockets.setPool_table state.sockets ops pool
  have notNamed : ∀ other object, state.names other idx ≠ some object := by
    intro other object isNamed
    cases object with
    | file file =>
        have isEntry := (sound.entry other idx file).mp isNamed
        rw [noFile other] at isEntry
        cases isEntry
    | socket sock =>
        have found := (sound.socket other idx sock isNamed).1
        rw [getSocket_free isFree] at found
        cases found
  have isNew : ∀ other number, state.names other number ≠ some (.socket ⟨ops, block⟩) := by
    intro other number isNamed
    have isOpen := (sound.socket other number _ isNamed).2
    exact (List.nodup_append.mp (sound.divided ops).nodup).2.2 block isOpen block blockFree rfl
  refine ⟨sound.files, ?_, ?_, Sockets.divided_setPool sound.divided divided, ?_, ?_, ?_, ?_⟩
  · dsimp only [setName, Sockets.setSocket]
    rw [List.length_set, table, sound.sized]
  · dsimp only [setName, Sockets.setSocket]
    rw [table]
    exact forall_mem_set sound.used (by simp)
  · intro other number file
    dsimp only [setName]
    split
    next same =>
      rw [same.2, noFile]
      simp
    next => exact sound.entry other number file
  · intro other number sock isNamed
    dsimp only [setName] at isNamed ⊢
    split at isNamed
    next same =>
      cases isNamed
      refine ⟨?_, (isOpen_setPool_new opened).mpr (.inl rfl)⟩
      rw [same.2]
      exact getSocket_setSocket (table ▸ sound.sized) (table ▸ inside) _
    next =>
      obtain ⟨found, isOpen⟩ := sound.socket other number sock isNamed
      have ne : number ≠ idx := by
        rintro rfl
        exact notNamed other _ isNamed
      refine ⟨?_, (isOpen_setPool_new opened).mpr (.inr isOpen)⟩
      rw [Sockets.getSocket_setSocket_ne ne, Sockets.getSocket_congr table, found]
  · intro one oneFd sock two twoFd oneNamed twoNamed
    dsimp only [setName] at oneNamed twoNamed
    split at oneNamed
    next oneIs =>
      cases oneNamed
      split at twoNamed
      next twoIs => exact ⟨twoIs.1.trans oneIs.1.symm, twoIs.2.trans oneIs.2.symm⟩
      next => exact absurd twoNamed (isNew two twoFd)
    next =>
      split at twoNamed
      next =>
        cases twoNamed
        exact absurd oneNamed (isNew one oneFd)
      next => exact sound.alone one oneFd sock two twoFd oneNamed twoNamed
  · intro one number file two sock oneNamed twoNamed
    dsimp only [setName] at oneNamed twoNamed
    split at oneNamed
    next => cases oneNamed
    next =>
      split at twoNamed
      next twoIs =>
        rw [twoIs.2] at oneNamed
        exact notNamed one _ oneNamed
      next => exact sound.apart one number file two sock oneNamed twoNamed

theorem createSocket_sound (sound : state.Sound) {posted : Bool}
    {family type protocol waitInit : Int}
    (guard : state.Guard (.createSocket task posted family type protocol waitInit)) :
    ∃ result after, state.call (.createSocket task posted family type protocol waitInit) =
      some (result, after) ∧ after.Sound := by
  dsimp only [Descriptors.call]
  cases posted with
  | false => exact ⟨-1, state, rfl, sound⟩
  | true =>
      obtain ⟨notNull, noFile⟩ := guard.2 rfl
      rcases Sockets.handleSockCreate_cases sound.used sound.divided family type protocol
          waitInit with
        ⟨zero, ⟨socket, member, isFree⟩, _⟩ |
        ⟨err, ops, pool, _, failed, created, opened, divided⟩ |
        ⟨idx, ops, block, pool, _, canCreate, isFree, created, opened, divided⟩
      · exact absurd isFree (notNull zero socket member)
      · refine ⟨-1, _, ?_, sound.setPool opened divided⟩
        rw [created, if_pos rfl]
        exact if_pos failed
      · refine ⟨idx, _, ?_, created_sound sound task isFree canCreate.block
          (noFile idx ops block canCreate) opened divided⟩
        have table := Sockets.setPool_table state.sockets ops pool
        have inside : idx < (state.sockets.setPool ops pool).table.length :=
          table ▸ (List.getElem?_eq_some_iff.mp isFree).1
        have found := getSocket_setSocket (table ▸ sound.sized) inside ⟨ops, block⟩
        rw [created, if_pos rfl]
        dsimp only [Option.bind_eq_bind, Option.bind_some]
        rw [found]
        exact if_neg (by decide)

theorem Sound.dropName (sound : state.Sound) {files : OpenFiles} (filesSound : files.Sound)
    (sized : sockets.table.length = socketMaxNr)
    (used : ∀ socket ∈ sockets.table, socket.state = .used ↔ socket.sock ≠ none)
    (divided : ∀ ops, (sockets.pool ops).Divided)
    (entry : ∀ other number, files.entry other number =
      if other = task ∧ number = fd then none else state.files.entry other number)
    (kept : ∀ other number sock, ¬ (other = task ∧ number = fd) →
      state.names other number = some (.socket sock) →
      sockets.getSocket number = some sock ∧ sockets.IsOpen sock) :
    Sound ({ state with files, sockets }.setName task fd none) := by
  refine ⟨filesSound, sized, used, divided, ?_, ?_, ?_, ?_⟩
  · intro other number file
    dsimp only [setName]
    rw [entry]
    split
    next => simp
    next => exact sound.entry other number file
  · intro other number sock isNamed
    dsimp only [setName] at isNamed
    split at isNamed
    next => cases isNamed
    next different => exact kept other number sock different isNamed
  · intro one oneFd sock two twoFd oneNamed twoNamed
    dsimp only [setName] at oneNamed twoNamed
    split at oneNamed
    next => cases oneNamed
    next =>
      split at twoNamed
      next => cases twoNamed
      next => exact sound.alone one oneFd sock two twoFd oneNamed twoNamed
  · intro one number file two sock oneNamed twoNamed
    dsimp only [setName] at oneNamed twoNamed
    split at oneNamed
    next => cases oneNamed
    next =>
      split at twoNamed
      next => cases twoNamed
      next => exact sound.apart one number file two sock oneNamed twoNamed

theorem isOpen_close (divided : (sockets.pool sock.ops).Divided) (other : SockPtr) :
    (sockets.setPool sock.ops ((sockets.pool sock.ops).close sock.block).2).IsOpen other ↔
      other ≠ sock ∧ sockets.IsOpen other := by
  have nodup := (List.nodup_append.mp divided.nodup).1
  obtain ⟨ops, block⟩ := sock
  obtain ⟨otherOps, otherBlock⟩ := other
  have member := nodup.mem_erase_iff (a := otherBlock) (b := block)
  have ne : (SockPtr.mk ops otherBlock ≠ ⟨ops, block⟩) ↔ otherBlock ≠ block := by simp
  cases ops <;> cases otherOps
  next => rw [ne]; exact member
  next => exact ⟨fun isOpen => ⟨by rintro ⟨⟩, isOpen⟩, And.right⟩
  next => exact ⟨fun isOpen => ⟨by rintro ⟨⟩, isOpen⟩, And.right⟩
  next => rw [ne]; exact member

theorem closeSocket_sound (sound : state.Sound) (isNamed : state.names task fd = some (.socket sock)) :
    ∃ result after, state.call (.close task fd true) = some (result, after) ∧
      state.Releases after task fd ∧ after.Sound := by
  obtain ⟨found, isOpen⟩ := sound.socket task fd sock isNamed
  have divided := sound.divided sock.ops
  have closes := isOpen_close divided
  have table := Sockets.setPool_table state.sockets sock.ops
    ((state.sockets.pool sock.ops).close sock.block).2
  have noFile : state.files.entry task fd = none := by
    by_contra isFile
    obtain ⟨file, isFile⟩ := Option.ne_none_iff_exists'.mp isFile
    rw [(sound.entry task fd file).mpr isFile] at isNamed
    cases isNamed
  let sockets := state.sockets.setPool sock.ops ((state.sockets.pool sock.ops).close sock.block).2
  refine ⟨0, { state with sockets }.setName task fd none, ?_, ?_, ?_⟩
  · dsimp only [Descriptors.call, Sockets.handleSockClose, Sockets.onSocket]
    rw [found]
    dsimp only
    rw [if_pos rfl, if_pos isOpen]
    rfl
  · unfold Releases
    rw [isNamed]
    exact ⟨rfl, closes⟩
  · refine sound.dropName sound.files (table ▸ sound.sized) (table ▸ sound.used)
      (Sockets.divided_setPool sound.divided (SockPool.close_divided divided isOpen)) ?_ ?_
    · intro other number
      split
      next same => rw [same.1, same.2, noFile]
      next => rfl
    · intro other number otherSock different otherNamed
      obtain ⟨otherFound, otherOpen⟩ := sound.socket other number otherSock otherNamed
      refine ⟨(Sockets.getSocket_congr table number).trans otherFound,
        (closes otherSock).mpr ⟨?_, otherOpen⟩⟩
      rintro rfl
      exact different (sound.alone task fd _ other number isNamed otherNamed)

theorem close_sound (sound : state.Sound) {posted : Bool}
    (guard : state.Guard (.close task fd posted)) :
    ∃ result after, state.call (.close task fd posted) = some (result, after) ∧
      state.Releases after task fd ∧ after.Sound := by
  obtain ⟨running, isSocket⟩ := guard
  cases found : state.sockets.getSocket fd with
  | some sock =>
      obtain ⟨rfl, isNamed⟩ := isSocket sock found
      exact closeSocket_sound sound isNamed
  | none =>
      have notSocket : ∀ sock, state.names task fd ≠ some (.socket sock) := by
        intro sock isNamed
        rw [(sound.socket task fd sock isNamed).1] at found
        cases found
      have kept : ∀ other number sock, ¬ (other = task ∧ number = fd) →
          state.names other number = some (.socket sock) →
          state.sockets.getSocket number = some sock ∧ state.sockets.IsOpen sock :=
        fun other number sock _ isNamed => sound.socket other number sock isNamed
      dsimp only [Descriptors.call]
      rw [found]
      cases isEntry : state.files.entry task fd with
      | none =>
          have notNamed : state.names task fd = none := by
            by_contra isNamed
            obtain ⟨object, isNamed⟩ := Option.ne_none_iff_exists'.mp isNamed
            cases object with
            | file file =>
                rw [(sound.entry task fd file).mp isNamed] at isEntry
                cases isEntry
            | socket sock => exact notSocket sock isNamed
          rw [OpenFiles.close_unknown running isEntry]
          refine ⟨_, _, rfl, ?_, sound.dropName sound.files sound.sized sound.used sound.divided
            (fun other number => ?_) kept⟩
          · unfold Releases
            rw [notNamed]
            exact ⟨rfl, rfl⟩
          · split
            next same => rw [same.1, same.2, isEntry]
            next => rfl
      | some file =>
          obtain ⟨result, files, closed, filesSound, drops⟩ :=
            OpenFiles.close_file sound.files isEntry
          rw [closed]
          refine ⟨result, _, rfl, ?_, sound.dropName filesSound sound.sized sound.used
            sound.divided drops.entry kept⟩
          unfold Releases
          rw [(sound.entry task fd file).mpr isEntry]
          exact ⟨rfl, drops⟩

def start (mounted : List (List UInt8)) (sock : Nat → Sock) (tasks : Nat) : Descriptors where
  files := { OpenFiles.start mounted with tasks := List.replicate tasks .init }
  sockets := .init sock
  names := fun _ _ => none

theorem start_sound (mounted : List (List UInt8)) (sock : Nat → Sock) (tasks : Nat) :
    (start mounted sock tasks).Sound := by
  have linked := Sockets.linked_init sock
  have empty : ∀ entry ∈ List.replicate tasks TaskFiles.init, entry = .init :=
    fun entry => List.eq_of_mem_replicate
  refine ⟨⟨fun file => ?_, ?_⟩, linked.sized, linked.used, linked.divided, ?_, ?_, ?_, ?_⟩
  · have noRefs : OpenFiles.refs TaskFiles.init.table file = 0 :=
      OpenFiles.refs_empty (fun entry => List.eq_of_mem_replicate) file
    dsimp only [start, OpenFiles.start, OpenFiles.entries]
    rw [List.map_replicate, noRefs, List.sum_replicate_nat, Nat.mul_zero]
    rfl
  · intro entry member
    rw [empty entry member]
    exact List.length_replicate
  · intro task fd file
    refine ⟨by rintro ⟨⟩, fun isEntry => ?_⟩
    obtain ⟨table, running, isFile⟩ := Option.bind_eq_some_iff.mp isEntry
    have isInit := empty _ (List.mem_of_getElem? (OpenFiles.tasks_of_running running))
    obtain ⟨_, _, isSome⟩ := OpenFiles.taskFile_eq_some isFile
    have isTable : table = List.replicate taskFileSize none := congrArg TaskFiles.table isInit
    rw [isTable] at isSome
    cases List.eq_of_mem_replicate (List.mem_of_getElem? isSome)
  · rintro _ _ _ ⟨⟩
  · rintro _ _ _ _ _ ⟨⟩
  · rintro _ _ _ _ _ ⟨⟩

/-- In a sequence of calls that all meet the condition, every call returns, `sys_close`
releases what the task was given under the number and only that, everything else that tasks
were given stays usable, and no number is that of a file and of a socket. -/
theorem guarded_named (mounted : List (List UInt8)) (sock : Nat → Sock) (tasks : Nat)
    (calls : List DescriptorCall)
    (guarded : AllGuarded Descriptors.call Guard (start mounted sock tasks) calls) :
    AllRight Descriptors.call Named Respects (start mounted sock tasks) calls := by
  refine allRight_of_allGuarded Sound Sound.named ?_ calls (start_sound mounted sock tasks)
    guarded
  intro state call sound guard
  cases call with
  | «open» task path flag stale opens =>
      obtain ⟨result, after, called, afterSound⟩ := open_sound sound guard
      exact ⟨result, after, called, trivial, afterSound⟩
  | dup task fd =>
      obtain ⟨result, after, called, afterSound⟩ := dup_sound sound guard
      exact ⟨result, after, called, trivial, afterSound⟩
  | createSocket task posted family type protocol waitInit =>
      obtain ⟨result, after, called, afterSound⟩ := createSocket_sound sound guard
      exact ⟨result, after, called, trivial, afterSound⟩
  | close task fd posted => exact close_sound sound guard

def oneTask : Descriptors :=
  start [[47]] (fun _ => .sockInit 0 0) 1

set_option maxRecDepth 8192 in
/-- A task opens and closes a file, then makes and closes a socket, both with number 0. -/
theorem guarded_named_reuse :
    AllRight Descriptors.call Named Respects oneTask
      [.open 0 [47] 0 none true, .close 0 0 true, .createSocket 0 true 0 2 0 0,
        .close 0 0 true] := by
  refine guarded_named [[47]] _ 1 _ ?_
  refine ⟨⟨rfl, ⟨by decide, fun _ => rfl⟩, fun _ _ _ _ _ task sock => by rintro ⟨⟩⟩, ?_⟩
  rintro _ _ ⟨⟩
  refine ⟨⟨rfl, by rintro _ ⟨⟩⟩, ?_⟩
  rintro _ _ ⟨⟩
  refine ⟨⟨rfl, fun _ => ⟨by decide, fun idx ops block canCreate other => ?_⟩⟩, ?_⟩
  · have first : some 0 = some idx := canCreate.entry
    cases first
    cases other <;> rfl
  rintro _ _ ⟨⟩
  refine ⟨⟨rfl, ?_⟩, fun _ _ _ => trivial⟩
  rintro _ ⟨⟩
  exact ⟨rfl, rfl⟩

set_option maxRecDepth 8192 in
/-- A file and a socket have the number 0, and closing it closes the socket. -/
theorem close_takes_socket :
    (runAll Descriptors.call oneTask
        [.open 0 [47] 0 none true, .createSocket 0 true 0 2 0 0, .close 0 0 true]).map
        (fun state => (state.files.entry 0 0, (state.files.file 0).ref,
          state.sockets.udp.opened)) = some (some 0, 1, []) ∧
    ¬ AllRight Descriptors.call Named Respects oneTask
        [.open 0 [47] 0 none true, .createSocket 0 true 0 2 0 0] := by
  refine ⟨by decide, ?_⟩
  rintro ⟨_, _, _, opened, _, _, _, _, created, _, after⟩
  cases opened
  cases created
  exact after.apart 0 0 0 0 ⟨.udp, 0⟩ (by decide) (by decide)

end Descriptors

end CleanOS.Fs
