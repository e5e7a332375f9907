import CleanOS.Lib.Calls
import CleanOS.Thread.ExitWait

/-!
# Pids and page directories

`process_execute` and `thread_start` beside the calls of `process.c` that exit and wait use,
with the page directory of each task.  A thread has the pid and the page directory of its
creator, a clone with `CLONE_VM` only the page directory, and `thread_exit` clears the bit of
the pid whoever else has it.
-/

namespace CleanOS.Thread

open CleanOS.Lib CleanOS.Common

namespace Processes

/-- `process_execute`, with the page for the new task. -/
def processExecute (state : Processes) (cur : Process) (thread : TaskId) : Processes :=
  let (pidAlloc, pid) := allocPid state.pidAlloc
  { state with tasks := state.tasks ++ [threadOf pid cur.pid .ready thread], pidAlloc }

/-- `thread_start`, with the page for the new task. -/
def threadStart (state : Processes) (cur : Process) (thread : TaskId) : Processes :=
  { state with tasks := state.tasks ++ [threadOf cur.pid cur.parentPid .ready thread] }

end Processes

/-- The tasks, and the page directory of the task of each page. -/
structure Spaces where
  processes : Processes
  pageDir : TaskId → Nat

/-- A call of the task of a page.  A new task gets a page and, unless it shares the one of its
creator, a page directory. -/
inductive SpaceCall where
  | execute (page thread : TaskId) (pageDir : Nat)
  | threadStart (page thread : TaskId)
  | fork (page thread : TaskId) (pageDir : Nat) (copied : Bool)
  | clone (page thread : TaskId) (pageDir : Option Nat) (keepsParent vfork : Bool)
  | wait (page : TaskId)
  | exit (page : TaskId) (status : Int)
  | resume (page : TaskId)

namespace Spaces

def boot (main : TaskId) (pageDir : Nat) : Spaces where
  processes :=
    { tasks := [Processes.threadOf 0 noPid .running main]
      pidAlloc := (Bitmap.init ⟨128, fun _ => 0⟩).set 0 true
      exits := []
      returns := [] }
  pageDir := fun _ => pageDir

def Fresh (state : Spaces) (thread : TaskId) : Prop :=
  ∀ task ∈ state.processes.tasks, task.page ≠ thread

instance (state : Spaces) (thread : TaskId) : Decidable (state.Fresh thread) :=
  inferInstanceAs (Decidable (∀ task ∈ _, _))

/-- A task is created in a page that `alloc_kernel_mem` found free. -/
def create (state : Spaces) (thread : TaskId) (pageDir : Nat) (processes : Processes) :
    Option Spaces :=
  if state.Fresh thread then
    some { processes := processes, pageDir := Function.update state.pageDir thread pageDir }
  else none

def fork (state : Spaces) (cur : Process) (thread : TaskId) (pageDir : Nat) (copied : Bool) :
    Option Spaces :=
  let processes := state.processes.processFork cur thread copied
  if copied then state.create thread pageDir processes else some { state with processes }

def step (state : Spaces) : SpaceCall → Option (Unit × Spaces)
  | .execute page thread pageDir => do
      let cur ← state.processes.calling page
      let after ← state.create thread pageDir (state.processes.processExecute cur thread)
      return ((), after)
  | .threadStart page thread => do
      let cur ← state.processes.calling page
      let after ← state.create thread (state.pageDir cur.page)
        (state.processes.threadStart cur thread)
      return ((), after)
  | .fork page thread pageDir copied => do
      let cur ← state.processes.calling page
      let after ← state.fork cur thread pageDir copied
      return ((), after)
  | .clone page thread pageDir keepsParent vfork => do
      let cur ← state.processes.calling page
      let after ← state.create thread (pageDir.getD (state.pageDir cur.page))
        (state.processes.processClone cur thread keepsParent vfork)
      return ((), after)
  | .wait page => do
      let cur ← state.processes.calling page
      return ((), { state with processes := (state.processes.processWait cur).2 })
  | .exit page status => do
      let cur ← state.processes.calling page
      let processes ← state.processes.processExit cur status
      return ((), { state with processes := processes })
  | .resume page => do
      let processes ← state.processes.step (.resume page)
      return ((), { state with processes := processes })

/-- A bit of `pid_alloc` is set exactly if a live task has the pid, and tasks with different
page directories have different pids. -/
structure PidsUnique (state : Spaces) : Prop where
  used : ∀ idx < 1024, state.processes.pidAlloc.bit idx = true ↔
    ∃ task ∈ state.processes.tasks, task.pid.toNat = idx
  apart : ∀ one ∈ state.processes.tasks, ∀ two ∈ state.processes.tasks,
    state.pageDir one.page ≠ state.pageDir two.page → one.pid ≠ two.pid

def CanName (state : Spaces) (pageDir : Nat) : Prop :=
  0 ≤ state.processes.pidAlloc.scan 1 ∨
    ∀ task ∈ state.processes.tasks, task.pid = noPid → state.pageDir task.page = pageDir

/-- The child that `process_wait` collects is the only task with its pid. -/
def CollectsLast (state : Spaces) (cur : Process) : Prop :=
  ∀ child, threadChild state.processes.tasks cur (some .hanging) = some child →
    child.pid ≠ noPid → ∀ other ∈ state.processes.tasks, other.pid = child.pid → other = child

/-- New processes get a pid, and a child is collected only when no other task has its pid. -/
def Guard (state : Spaces) : SpaceCall → Prop
  | .execute page thread pageDir => ∀ cur, state.processes.calling page = some cur →
      state.Fresh thread → state.CanName pageDir
  | .threadStart _ _ => True
  | .fork page thread pageDir copied => ∀ cur, state.processes.calling page = some cur →
      state.Fresh thread → copied = true → state.CanName pageDir
  | .clone page thread pageDir _ _ => ∀ cur, state.processes.calling page = some cur →
      state.Fresh thread → state.CanName (pageDir.getD (state.pageDir cur.page))
  | .wait page => ∀ cur, state.processes.calling page = some cur → state.CollectsLast cur
  | .exit _ _ => True
  | .resume page => ∀ cur, state.processes.runnable page = some cur → cur.blocked = .wait →
      state.CollectsLast cur

end Spaces

variable {list : List (TaskId × UInt32)} {pidAlloc : Bitmap} {pageDir : TaskId → Nat}

/-- `Spaces.PidsUnique` for the pages and pids of the tasks. -/
structure KeysUnique (list : List (TaskId × UInt32)) (pidAlloc : Bitmap)
    (pageDir : TaskId → Nat) : Prop where
  used : ∀ idx < 1024, pidAlloc.bit idx = true ↔ ∃ key ∈ list, key.2.toNat = idx
  apart : ∀ one ∈ list, ∀ two ∈ list, pageDir one.1 ≠ pageDir two.1 → one.2 ≠ two.2

structure KeysNamed (list : List (TaskId × UInt32)) (pidAlloc : Bitmap) : Prop where
  pages : (list.map Prod.fst).Nodup
  sized : pidAlloc.bytesLen = 128
  bounded : ∀ key ∈ list, key.2 ≠ noPid → key.2.toNat < 1024

theorem KeysUnique.eq_dir (unique : KeysUnique list pidAlloc pageDir) {one two : TaskId × UInt32}
    (oneMember : one ∈ list) (twoMember : two ∈ list) (same : one.2 = two.2) :
    pageDir one.1 = pageDir two.1 := by
  by_contra different
  exact unique.apart one oneMember two twoMember different same

theorem KeysUnique.append_iff {allocated : Bitmap} {page : TaskId} {pid : UInt32} {dir : Nat}
    (unique : KeysUnique list pidAlloc pageDir) (fresh : ∀ key ∈ list, key.1 ≠ page)
    (bits : ∀ idx < 1024, allocated.bit idx = true ↔ pidAlloc.bit idx = true ∨ pid.toNat = idx) :
    KeysUnique (list ++ [(page, pid)]) allocated (Function.update pageDir page dir) ↔
      ∀ key ∈ list, key.2 = pid → pageDir key.1 = dir := by
  have oldDir : ∀ key ∈ list, Function.update pageDir page dir key.1 = pageDir key.1 :=
    fun key member => Function.update_of_ne (fresh key member) _ _
  have newDir : Function.update pageDir page dir page = dir := Function.update_self _ _ _
  have isNew : (page, pid) ∈ list ++ [(page, pid)] :=
    List.mem_append_right _ (List.mem_singleton_self _)
  constructor
  · intro after key member same
    have equal := after.eq_dir (List.mem_append_left _ member) isNew same
    rwa [oldDir key member, newDir] at equal
  · intro shared
    constructor
    · intro idx inside
      rw [bits idx inside, unique.used idx inside]
      constructor
      · rintro (⟨key, member, isIdx⟩ | isIdx)
        · exact ⟨key, List.mem_append_left _ member, isIdx⟩
        · exact ⟨_, isNew, isIdx⟩
      · rintro ⟨key, member, isIdx⟩
        rcases List.mem_append.mp member with old | new
        · exact .inl ⟨key, old, isIdx⟩
        · rw [List.mem_singleton.mp new] at isIdx
          exact .inr isIdx
    · intro one oneMember two twoMember different
      rcases List.mem_append.mp oneMember with oneOld | oneNew <;>
        rcases List.mem_append.mp twoMember with twoOld | twoNew
      · rw [oldDir one oneOld, oldDir two twoOld] at different
        exact unique.apart one oneOld two twoOld different
      · rw [List.mem_singleton.mp twoNew, oldDir one oneOld, newDir] at different
        rw [List.mem_singleton.mp twoNew]
        exact mt (shared one oneOld) different
      · rw [List.mem_singleton.mp oneNew, oldDir two twoOld, newDir] at different
        rw [List.mem_singleton.mp oneNew]
        exact fun same => different (shared two twoOld same.symm).symm
      · rw [List.mem_singleton.mp oneNew, List.mem_singleton.mp twoNew] at different
        exact absurd rfl different

theorem KeysUnique.erase_iff {key : TaskId × UInt32} (unique : KeysUnique list pidAlloc pageDir)
    (named : KeysNamed list pidAlloc) (member : key ∈ list) :
    KeysUnique (list.erase key) (pidAlloc.set key.2.toNat false) pageDir ↔
      (key.2 ≠ noPid → ∀ other ∈ list, other.2 = key.2 → other = key) := by
  have nodup : list.Nodup := named.pages.of_map _
  have inErase : ∀ other, other ∈ list.erase key ↔ other ≠ key ∧ other ∈ list :=
    fun other => nodup.mem_erase_iff
  constructor
  · intro after hasPid other otherMember same
    by_contra different
    have used := (after.used key.2.toNat (named.bounded key member hasPid)).mpr
      ⟨other, (inErase other).mpr ⟨different, otherMember⟩, congrArg _ same⟩
    rw [Bitmap.bit_set_self] at used
    cases used
  · intro last
    constructor
    · intro idx inside
      rw [Bitmap.bit_set]
      split
      next isIdx =>
        refine iff_of_false (by rintro ⟨⟩) ?_
        rintro ⟨other, otherMember, otherIdx⟩
        obtain ⟨different, old⟩ := (inErase other).mp otherMember
        refine different (last ?_ other old (UInt32.toNat.inj (otherIdx.trans isIdx)))
        intro none
        rw [none] at isIdx
        have large : noPid.toNat = 4294967295 := rfl
        omega
      next notIdx =>
        rw [unique.used idx inside]
        constructor
        · rintro ⟨other, old, otherIdx⟩
          refine ⟨other, (inErase other).mpr ⟨?_, old⟩, otherIdx⟩
          rintro rfl
          exact notIdx otherIdx.symm
        · rintro ⟨other, otherMember, otherIdx⟩
          exact ⟨other, ((inErase other).mp otherMember).2, otherIdx⟩
    · intro one oneMember two twoMember
      exact unique.apart one ((inErase one).mp oneMember).2 two ((inErase two).mp twoMember).2

theorem KeysNamed.append {allocated : Bitmap} {page : TaskId} {pid : UInt32}
    (named : KeysNamed list pidAlloc) (fresh : ∀ key ∈ list, key.1 ≠ page)
    (sized : allocated.bytesLen = pidAlloc.bytesLen) (bounded : pid ≠ noPid → pid.toNat < 1024) :
    KeysNamed (list ++ [(page, pid)]) allocated where
  pages := by
    rw [List.map_append, List.nodup_append]
    refine ⟨named.pages, List.nodup_singleton _, ?_⟩
    rintro old oldMember new newMember rfl
    obtain ⟨key, member, rfl⟩ := List.mem_map.mp oldMember
    exact fresh key member (List.mem_singleton.mp newMember)
  sized := sized.trans named.sized
  bounded := by
    intro key member hasPid
    rcases List.mem_append.mp member with old | new
    · exact named.bounded key old hasPid
    · rw [List.mem_singleton.mp new] at hasPid ⊢
      exact bounded hasPid

theorem KeysNamed.erase (named : KeysNamed list pidAlloc) (key : TaskId × UInt32) (idx : Nat) :
    KeysNamed (list.erase key) (pidAlloc.set idx false) where
  pages := named.pages.sublist (List.erase_sublist.map _)
  sized := named.sized
  bounded := fun other member => named.bounded other (List.mem_of_mem_erase member)

theorem allocPid_spec (sized : pidAlloc.bytesLen = 128) :
    ∃ allocated pid, allocPid pidAlloc = (allocated, pid) ∧
      allocated.bytesLen = pidAlloc.bytesLen ∧ (pid ≠ noPid → pid.toNat < 1024) ∧
      (∀ idx < 1024, allocated.bit idx = true ↔ pidAlloc.bit idx = true ∨ pid.toNat = idx) ∧
      (0 ≤ pidAlloc.scan 1 ∧ pid.toNat < 1024 ∧ pidAlloc.bit pid.toNat = false ∨
        ¬ 0 ≤ pidAlloc.scan 1 ∧ pid = noPid) := by
  rcases pidAlloc.scan_one with ⟨idx, found, inside, clear, _⟩ | ⟨full, _⟩
  · rw [sized] at inside
    have small : (UInt32.ofNat idx).toNat = idx :=
      UInt32.toNat_ofNat_of_lt' (inside.trans (by decide))
    refine ⟨pidAlloc.set idx true, UInt32.ofNat idx, ?_, rfl, fun _ => ?_, fun other _ => ?_,
      .inl ⟨?_, ?_, ?_⟩⟩
    · rw [allocPid, found, if_neg (by omega)]
      rfl
    · rw [small]
      exact inside
    · rw [Bitmap.bit_set, small]
      split
      next same => exact iff_of_true rfl (.inr same.symm)
      next different => exact ⟨.inl, fun used => used.resolve_right (Ne.symm different)⟩
    · omega
    · rw [small]
      exact inside
    · rw [small]
      exact clear
  · have negative : pidAlloc.scan 1 < 0 := by omega
    refine ⟨pidAlloc, noPid, ?_, rfl, fun differs => absurd rfl differs, fun idx inside => ?_,
      .inr ⟨by omega, rfl⟩⟩
    · rw [allocPid, if_pos negative]
    · have large : noPid.toNat = 4294967295 := rfl
      exact ⟨.inl, fun used => used.resolve_right (by omega)⟩

theorem KeysNamed.eq_of_page {tasks : List Process} {task other : Process}
    (named : KeysNamed (Processes.keys tasks) pidAlloc) (member : task ∈ tasks)
    (otherMember : other ∈ tasks) (same : task.page = other.page) : task = other := by
  have pages : (tasks.map (·.page)).Nodup := by
    have nodup := named.pages
    rwa [Processes.keys, List.map_map] at nodup
  exact List.inj_on_of_nodup_map pages member otherMember same

namespace Spaces

variable {state after : Spaces} {guard : Prop} {cur : Process} {thread : TaskId}

def keys (state : Spaces) : List (TaskId × UInt32) :=
  Processes.keys state.processes.tasks

theorem pidsUnique_iff (state : Spaces) :
    state.PidsUnique ↔ KeysUnique state.keys state.processes.pidAlloc state.pageDir := by
  have exists_key (idx : Nat) : (∃ key ∈ state.keys, key.2.toNat = idx) ↔
      ∃ task ∈ state.processes.tasks, task.pid.toNat = idx := by
    simp only [keys, Processes.keys, List.mem_map, exists_exists_and_eq_and]
  have apart_iff : (∀ one ∈ state.keys, ∀ two ∈ state.keys,
      state.pageDir one.1 ≠ state.pageDir two.1 → one.2 ≠ two.2) ↔
      ∀ one ∈ state.processes.tasks, ∀ two ∈ state.processes.tasks,
        state.pageDir one.page ≠ state.pageDir two.page → one.pid ≠ two.pid := by
    simp only [keys, Processes.keys, List.forall_mem_map]
  constructor
  · intro unique
    exact ⟨fun idx inside => (unique.used idx inside).trans (exists_key idx).symm,
      apart_iff.mpr unique.apart⟩
  · intro unique
    exact ⟨fun idx inside => (unique.used idx inside).trans (exists_key idx),
      apart_iff.mp unique.apart⟩

inductive Change (state after : Spaces) (guard : Prop) : Prop where
  | create (thread : TaskId) (pid : UInt32) (dir : Nat)
      (fresh : state.Fresh thread)
      (isAlloc : allocPid state.processes.pidAlloc = (after.processes.pidAlloc, pid))
      (isKeys : after.keys = state.keys ++ [(thread, pid)])
      (isDir : after.pageDir = Function.update state.pageDir thread dir)
      (isGuard : guard ↔ state.CanName dir)
  | share (cur : Process) (thread : TaskId)
      (member : cur ∈ state.processes.tasks)
      (fresh : state.Fresh thread)
      (isAlloc : after.processes.pidAlloc = state.processes.pidAlloc)
      (isKeys : after.keys = state.keys ++ [(thread, cur.pid)])
      (isDir : after.pageDir = Function.update state.pageDir thread (state.pageDir cur.page))
      (allowed : guard)
  | collect (child : Process)
      (member : child ∈ state.processes.tasks)
      (isAlloc : after.processes.pidAlloc = state.processes.pidAlloc.set child.pid.toNat false)
      (isKeys : after.keys = state.keys.erase (child.page, child.pid))
      (isDir : after.pageDir = state.pageDir)
      (isGuard : guard ↔ (child.pid ≠ noPid →
        ∀ other ∈ state.processes.tasks, other.pid = child.pid → other = child))
  | same
      (isAlloc : after.processes.pidAlloc = state.processes.pidAlloc)
      (isKeys : after.keys = state.keys)
      (isDir : after.pageDir = state.pageDir)
      (allowed : guard)

theorem Fresh.keys (fresh : state.Fresh thread) : ∀ key ∈ state.keys, key.1 ≠ thread := by
  intro key member
  obtain ⟨task, inTasks, rfl⟩ := List.mem_map.mp member
  exact fresh task inTasks

theorem Change.named (change : Change state after guard)
    (named : KeysNamed state.keys state.processes.pidAlloc) :
    KeysNamed after.keys after.processes.pidAlloc := by
  cases change with
  | create thread pid dir fresh isAlloc isKeys =>
      obtain ⟨allocated, allocatedPid, isSpec, sized, bounded, _⟩ := allocPid_spec named.sized
      cases isAlloc.symm.trans isSpec
      rw [isKeys]
      exact named.append fresh.keys sized bounded
  | share cur thread member fresh isAlloc isKeys =>
      rw [isKeys, isAlloc]
      exact named.append fresh.keys rfl (named.bounded _ (Processes.mem_keys member))
  | collect child member isAlloc isKeys =>
      rw [isKeys, isAlloc]
      exact named.erase _ _
  | same isAlloc isKeys =>
      rw [isKeys, isAlloc]
      exact named

theorem Change.unique_iff (change : Change state after guard)
    (named : KeysNamed state.keys state.processes.pidAlloc) (unique : state.PidsUnique) :
    after.PidsUnique ↔ guard := by
  have ofKeys := (pidsUnique_iff state).mp unique
  rw [pidsUnique_iff]
  cases change with
  | create thread pid dir fresh isAlloc isKeys isDir isGuard =>
      obtain ⟨allocated, allocatedPid, isSpec, _, _, bits, isNew⟩ := allocPid_spec named.sized
      cases isAlloc.symm.trans isSpec
      rw [isKeys, isDir, isGuard, ofKeys.append_iff fresh.keys bits, CanName]
      rcases isNew with ⟨left, inside, clear⟩ | ⟨none, rfl⟩
      · refine iff_of_true (fun key member same => ?_) (.inl left)
        have used := (ofKeys.used pid.toNat inside).mpr ⟨key, member, congrArg _ same⟩
        exact Bool.noConfusion (clear.symm.trans used)
      · rw [or_iff_right none, keys, Processes.keys]
        simp only [List.forall_mem_map]
  | share cur thread member fresh isAlloc isKeys isDir allowed =>
      have inKeys : (cur.page, cur.pid) ∈ state.keys := Processes.mem_keys member
      have bits : ∀ idx < 1024, state.processes.pidAlloc.bit idx = true ↔
          state.processes.pidAlloc.bit idx = true ∨ cur.pid.toNat = idx := by
        intro idx inside
        refine ⟨.inl, fun used => used.elim id fun isIdx => ?_⟩
        exact (ofKeys.used idx inside).mpr ⟨_, inKeys, isIdx⟩
      rw [isKeys, isDir, isAlloc, ofKeys.append_iff fresh.keys bits]
      exact iff_of_true (fun key old same => ofKeys.eq_dir old inKeys same) allowed
  | collect child member isAlloc isKeys isDir isGuard =>
      rw [isKeys, isDir, isAlloc, isGuard]
      refine (ofKeys.erase_iff named (Processes.mem_keys member)).trans ?_
      refine imp_congr_right fun _ => ?_
      constructor
      · intro last other otherMember same
        have equal := last _ (Processes.mem_keys otherMember) same
        exact named.eq_of_page otherMember member (congrArg Prod.fst equal)
      · intro last key inKeys same
        obtain ⟨other, otherMember, rfl⟩ := List.mem_map.mp inKeys
        rw [last other otherMember same]
  | same isAlloc isKeys isDir allowed =>
      rw [isKeys, isDir, isAlloc]
      exact iff_of_true ofKeys allowed

theorem keys_append (tasks : List Process) (task : Process) :
    Processes.keys (tasks ++ [task]) = Processes.keys tasks ++ [(task.page, task.pid)] :=
  List.map_append

theorem create_spec {dir : Nat} {processes : Processes}
    (created : state.create thread dir processes = some after) :
    state.Fresh thread ∧ after = ⟨processes, Function.update state.pageDir thread dir⟩ := by
  unfold create at created
  split at created
  next fresh => exact ⟨fresh, (Option.some.inj created).symm⟩
  next => cases created

theorem completeVfork_keys {tasks completed : List Process} {vforkDone : Option TaskId}
    (complete : completeVfork tasks vforkDone = some completed) :
    Processes.keys completed = Processes.keys tasks := by
  cases vforkDone with
  | none => rw [Option.some.inj complete]
  | some owner =>
      dsimp only [completeVfork] at complete
      split at complete
      next => cases complete
      next =>
        split at complete
        next =>
          cases complete
          exact Processes.keys_modifyTask (fun _ => by constructor <;> rfl) _ _
        next => rw [Option.some.inj complete]
        next => cases complete

theorem processExit_keys {processes exited : Processes} {status : Int}
    (exits : processes.processExit cur status = some exited) :
    Processes.keys exited.tasks = Processes.keys processes.tasks ∧
      exited.pidAlloc = processes.pidAlloc := by
  obtain ⟨enter, enters, isExit⟩ := Processes.processExit_eq processes cur status
  rw [isExit] at exits
  obtain ⟨parent, _, completes⟩ := Option.bind_eq_some_iff.mp exits
  obtain ⟨completed, complete, rfl⟩ := Option.map_eq_some_iff.mp completes
  have entered : Processes.keys (processes.tasks.map enter) = Processes.keys processes.tasks :=
    Processes.keys_map fun task _ => (enters task).toSameBut
  have woken : Processes.keys (if parent.status = .waiting then
      setStatus (processes.tasks.map enter) parent.page .ready else processes.tasks.map enter) =
      Processes.keys processes.tasks := by
    split
    next => exact (Processes.keys_modifyTask (fun _ => by constructor <;> rfl) _ _).trans entered
    next => exact entered
  refine ⟨?_, rfl⟩
  refine (Processes.keys_modifyTask (fun _ => by constructor <;> rfl) _ _).trans (Eq.trans ?_ woken)
  exact completeVfork_keys complete

theorem processWait_change (named : KeysNamed state.keys state.processes.pidAlloc)
    (isGuard : guard ↔ state.CollectsLast cur) :
    Change state { state with processes := (state.processes.processWait cur).2 } guard := by
  unfold Processes.processWait
  have leaves : ∀ tasks : List Process, Processes.keys (modifyTask tasks cur.page fun task =>
      { task with blocked := .no }) = Processes.keys tasks :=
    fun tasks => Processes.keys_modifyTask (fun _ => by constructor <;> rfl) _ _
  split
  next child isChild =>
    obtain ⟨member, _⟩ := Processes.threadChild_spec isChild
    refine .collect child member rfl ?_ rfl (isGuard.trans ?_)
    · refine (leaves _).trans (Processes.keys_erase fun task old same => ?_)
      exact named.eq_of_page old member same
    · constructor
      · intro last
        exact last child isChild
      · intro last found isFound
        cases isChild.symm.trans isFound
        exact last
  next noHanging =>
    have allowed : guard := isGuard.mpr fun found isFound => by
      cases noHanging.symm.trans isFound
    split
    next => exact .same rfl (leaves _) rfl allowed
    next =>
      exact .same rfl (Processes.keys_modifyTask (fun _ => by constructor <;> rfl) _ _) rfl allowed

theorem guard_iff {found : Option Process} {holds : Process → Prop} (isFound : found = some cur) :
    (∀ other, found = some other → holds other) ↔ holds cur := by
  constructor
  · intro all
    exact all cur isFound
  · intro one other isOther
    cases isFound.symm.trans isOther
    exact one

theorem step_change {action : SpaceCall}
    (named : KeysNamed state.keys state.processes.pidAlloc)
    (stepped : state.step action = some ((), after)) : Change state after (state.Guard action) := by
  cases action with
  | execute page thread dir =>
      obtain ⟨cur, calling, created⟩ := Option.bind_eq_some_iff.mp stepped
      obtain ⟨_, isCreated, ⟨⟩⟩ := Option.bind_eq_some_iff.mp created
      obtain ⟨fresh, rfl⟩ := create_spec isCreated
      refine .create thread _ dir fresh rfl (keys_append _ _) rfl ((guard_iff calling).trans ?_)
      exact forall_prop_of_true fresh
  | threadStart page thread =>
      obtain ⟨cur, calling, created⟩ := Option.bind_eq_some_iff.mp stepped
      obtain ⟨_, isCreated, ⟨⟩⟩ := Option.bind_eq_some_iff.mp created
      obtain ⟨fresh, rfl⟩ := create_spec isCreated
      exact .share cur thread (Processes.mem_of_calling calling).1 fresh rfl (keys_append _ _) rfl
        trivial
  | fork page thread dir copied =>
      obtain ⟨cur, calling, created⟩ := Option.bind_eq_some_iff.mp stepped
      obtain ⟨_, isCreated, ⟨⟩⟩ := Option.bind_eq_some_iff.mp created
      cases copied with
      | true =>
          obtain ⟨fresh, rfl⟩ := create_spec isCreated
          refine .create thread _ dir fresh rfl (keys_append _ _) rfl ((guard_iff calling).trans ?_)
          exact (forall_prop_of_true fresh).trans (forall_prop_of_true rfl)
      | false =>
          cases isCreated
          exact .same rfl rfl rfl fun _ _ _ => by rintro ⟨⟩
  | clone page thread dir keepsParent vfork =>
      obtain ⟨cur, calling, created⟩ := Option.bind_eq_some_iff.mp stepped
      obtain ⟨_, isCreated, ⟨⟩⟩ := Option.bind_eq_some_iff.mp created
      obtain ⟨fresh, rfl⟩ := create_spec isCreated
      have isGuard : state.Guard (.clone page thread dir keepsParent vfork) ↔
          state.CanName (dir.getD (state.pageDir cur.page)) :=
        (guard_iff calling).trans (forall_prop_of_true fresh)
      cases vfork with
      | true =>
          refine .create thread _ _ fresh rfl ?_ rfl isGuard
          refine (Processes.keys_modifyTask (fun _ => by constructor <;> rfl) _ _).trans ?_
          exact keys_append _ _
      | false => exact .create thread _ _ fresh rfl (keys_append _ _) rfl isGuard
  | wait page =>
      obtain ⟨cur, calling, ⟨⟩⟩ := Option.bind_eq_some_iff.mp stepped
      exact processWait_change named (guard_iff calling)
  | exit page status =>
      obtain ⟨cur, calling, exits⟩ := Option.bind_eq_some_iff.mp stepped
      obtain ⟨exited, isExit, ⟨⟩⟩ := Option.bind_eq_some_iff.mp exits
      obtain ⟨isKeys, isAlloc⟩ := processExit_keys isExit
      exact .same isAlloc isKeys rfl trivial
  | resume page =>
      obtain ⟨processes, resumed, ⟨⟩⟩ := Option.bind_eq_some_iff.mp stepped
      obtain ⟨cur, runnable, resumed⟩ := Option.bind_eq_some_iff.mp resumed
      have isGuard : state.Guard (.resume page) ↔ (cur.blocked = .wait → state.CollectsLast cur) :=
        guard_iff runnable
      split at resumed
      next => cases resumed
      next waits =>
        cases resumed
        exact processWait_change named (isGuard.trans (forall_prop_of_true waits))
      next queued isVfork =>
        cases resumed
        refine .same rfl (Processes.keys_modifyTask (fun _ => by constructor <;> rfl) _ _) rfl
          (isGuard.mpr fun waits => ?_)
        exact Blocked.noConfusion (isVfork.symm.trans waits)

theorem step_none {action : SpaceCall} (stepped : state.step action = none) :
    state.Guard action := by
  cases action with
  | execute page thread dir =>
      intro cur calling fresh
      simp [step, calling, create, fresh] at stepped
  | threadStart page thread => trivial
  | fork page thread dir copied =>
      intro cur calling fresh isCopied
      simp [step, calling, fork, create, fresh, isCopied] at stepped
  | clone page thread dir keepsParent vfork =>
      intro cur calling fresh
      simp [step, calling, create, fresh] at stepped
  | wait page =>
      intro cur calling
      simp [step, calling] at stepped
  | exit page status => trivial
  | resume page =>
      intro cur runnable waits
      simp [step, Processes.step, runnable, waits] at stepped

theorem boot_named (main : TaskId) (dir : Nat) :
    KeysNamed (boot main dir).keys (boot main dir).processes.pidAlloc where
  pages := List.nodup_singleton _
  sized := rfl
  bounded := by
    intro key member _
    rw [List.mem_singleton.mp member]
    exact Nat.zero_lt_succ _

theorem boot_unique (main : TaskId) (dir : Nat) : (boot main dir).PidsUnique where
  used := by
    intro idx inside
    have bit : (boot main dir).processes.pidAlloc.bit idx = true ↔ 0 = idx := by
      refine (Bitmap.bit_set _ 0 idx true).symm ▸ ?_
      split
      next same => exact iff_of_true rfl same.symm
      next different =>
        rw [Bitmap.bit_init ⟨128, fun _ => 0⟩ inside]
        exact iff_of_false (by rintro ⟨⟩) (Ne.symm different)
    rw [bit]
    constructor
    · intro isZero
      exact ⟨_, List.mem_singleton_self _, isZero⟩
    · rintro ⟨task, member, isIdx⟩
      rw [List.mem_singleton.mp member] at isIdx
      exact isIdx
  apart := by
    intro one oneMember two twoMember different
    exact absurd rfl different

/-- The bits of `pid_alloc` are those of the pids of the live tasks, and tasks with different
page directories have different pids, in every state of the runs whose calls satisfy the guard,
and only in these. -/
theorem pidsUnique_iff_guarded (main : TaskId) (dir : Nat) (calls : List SpaceCall) :
    AllGood step PidsUnique (boot main dir) calls ↔ AllGuarded step Guard (boot main dir) calls :=
  allGood_iff_allGuarded (fun state => KeysNamed state.keys state.processes.pidAlloc)
    (fun named stepped => (step_change named stepped).named named)
    (fun named unique stepped => (step_change named stepped).unique_iff named unique)
    step_none calls (boot_named main dir) (boot_unique main dir)

/-- The main task executes a process, which starts a thread; the thread exits and is collected,
and a fork of the main task gets the pid of the process. -/
theorem pid_reused : ∃ state,
    runAll step (boot 0 100) [.execute 0 1 101, .threadStart 1 2, .exit 2 0, .wait 0,
      .fork 0 3 103 true] = some state ∧
    (state.processes.tasks.map fun task => (task.page, task.pid, state.pageDir task.page)) =
      [(0, 0, 100), (1, 1, 101), (3, 1, 103)] ∧ ¬ state.PidsUnique := by
  obtain ⟨state, ran, tasks⟩ : ∃ state,
      runAll step (boot 0 100) [.execute 0 1 101, .threadStart 1 2, .exit 2 0, .wait 0,
        .fork 0 3 103 true] = some state ∧
      (state.processes.tasks.map fun task => (task.page, task.pid, state.pageDir task.page)) =
        [(0, 0, 100), (1, 1, 101), (3, 1, 103)] := ⟨_, rfl, by decide⟩
  refine ⟨state, ran, tasks, fun unique => ?_⟩
  have isTask : ∀ entry ∈ [(0, 0, 100), (1, 1, 101), (3, 1, 103)],
      ∃ task ∈ state.processes.tasks,
        (task.page, task.pid, state.pageDir task.page) = entry := by
    intro entry member
    rw [← tasks] at member
    exact List.mem_map.mp member
  obtain ⟨one, oneMember, isOne⟩ := isTask (1, 1, 101) (by decide)
  obtain ⟨two, twoMember, isTwo⟩ := isTask (3, 1, 103) (by decide)
  simp only [Prod.mk.injEq] at isOne isTwo
  refine unique.apart one oneMember two twoMember ?_ (isOne.2.1.trans isTwo.2.1.symm)
  rw [isOne.2.2, isTwo.2.2]
  decide

end Spaces

end CleanOS.Thread
