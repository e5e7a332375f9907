import Mathlib.Data.List.Nodup
import Mathlib.Data.List.Perm.Basic
import CleanOS.Thread.Process

/-!
# The wake-up of waiting parents

In runs in which neither init nor a task without a parent exits, in which no task with a
child that hangs exits while init waits, and in which pids do not run out, no task waits
while a child hangs, and every exit is returned to one call of `process_wait`.
-/

namespace CleanOS.Thread

open CleanOS.Lib CleanOS.Common

/-- The task is blocked in `process_wait`. -/
def Process.Waits (task : Process) : Prop :=
  task.status = .waiting ∧ task.blocked = .wait

namespace Processes

def CanCreate (state : Processes) (thread : TaskId) : Prop :=
  (∀ task ∈ state.tasks, task.page ≠ thread) ∧ 0 ≤ state.pidAlloc.scan 1

/-- Neither the main task and its threads, nor init, nor a task that has the parent of the
main task exits; where a task with a child that hangs exits, init does not wait, or is the
parent of the task; and the completion of a task that exits is still on a stack.  Of the
tasks with one pid only the first in `all_tasks` waits. -/
def Guard (state : Processes) : ProcessCall → Prop
  | .fork _ thread _ => state.CanCreate thread
  | .clone _ thread _ _ => state.CanCreate thread
  | .wait page => ∀ cur, state.calling page = some cur →
      pid2task state.tasks cur.pid = some cur
  | .exit page _ => ∀ cur, state.calling page = some cur →
      cur.pid ≠ initPid ∧ cur.parentPid ≠ noPid ∧
      ((∃ child ∈ state.tasks, child.parentPid = cur.pid ∧ child.status = .hanging) →
        cur.parentPid = initPid ∨ ∀ init ∈ state.tasks, init.pid = initPid → ¬ init.Waits) ∧
      ∀ owner, cur.vforkDone = some owner →
        ∃ task ∈ state.tasks, task.page = owner ∧ ∃ queued, task.blocked = .vfork queued
  | .resume _ => True

/-! ### Pages and pids -/

variable {tasks : List Process} {task other cur child : Process} {page owner thread : TaskId}
  {change : Process → Process} {pidAlloc : Bitmap}

def keys (tasks : List Process) : List (TaskId × UInt32) :=
  tasks.map fun task => (task.page, task.pid)

def firstPage (keys : List (TaskId × UInt32)) (pid : UInt32) : Option TaskId :=
  (keys.find? fun key => key.2 = pid).map (·.1)

structure Keyed (keys : List (TaskId × UInt32)) (pidAlloc : Bitmap) : Prop where
  pages : (keys.map Prod.fst).Nodup
  pids : ∀ one ∈ keys, ∀ two ∈ keys, one.2 = two.2 → one.2 ≠ 0 → one = two
  used : ∀ key ∈ keys, pidAlloc.bit key.2.toNat = true
  bounded : ∀ key ∈ keys, key.2 ≠ noPid
  sized : pidAlloc.bytesLen = 128
  zero : pidAlloc.bit 0 = true

theorem pid2task_page (tasks : List Process) (pid : UInt32) :
    (pid2task tasks pid).map (·.page) = firstPage (keys tasks) pid := by
  rw [firstPage, keys, List.find?_map, Option.map_map]
  rfl

theorem mem_keys (member : task ∈ tasks) : (task.page, task.pid) ∈ keys tasks :=
  List.mem_map_of_mem member

theorem find?_erase {α : Type*} [BEq α] [LawfulBEq α] {list : List α} {item : α}
    {holds : α → Bool} (fails : holds item = false) : (list.erase item).find? holds = list.find? holds := by
  induction list with
  | nil => rfl
  | cons head tail ih =>
      rw [List.erase_cons]
      split
      next same =>
        rw [beq_iff_eq] at same
        rw [List.find?_cons, same, fails]
      next different => rw [List.find?_cons, List.find?_cons, ih]

namespace Keyed

variable {list : List (TaskId × UInt32)} {key : TaskId × UInt32}
  {pid : UInt32}

theorem eq_of_page (keyed : Keyed (keys tasks) pidAlloc) (member : task ∈ tasks)
    (otherMember : other ∈ tasks) (same : task.page = other.page) : task = other := by
  have pages : (tasks.map (·.page)).Nodup := by
    have nodup := keyed.pages
    rwa [keys, List.map_map] at nodup
  exact List.inj_on_of_nodup_map pages member otherMember same

theorem eq_of_pid (keyed : Keyed (keys tasks) pidAlloc) (member : task ∈ tasks)
    (otherMember : other ∈ tasks) (same : task.pid = other.pid) (nonzero : task.pid ≠ 0) :
    task = other :=
  keyed.eq_of_page member otherMember
    (congrArg Prod.fst (keyed.pids _ (mem_keys member) _ (mem_keys otherMember) same nonzero))

theorem alloc (keyed : Keyed list pidAlloc) (hasPid : 0 ≤ pidAlloc.scan 1) :
    ∃ allocated pid, allocPid pidAlloc = (allocated, pid) ∧ pid ≠ 0 ∧
      ∀ page, (∀ key ∈ list, key.1 ≠ page) → Keyed (list ++ [(page, pid)]) allocated := by
  obtain ⟨idx, found, inside, clear⟩ : ∃ idx : Nat, pidAlloc.scan 1 = idx ∧
      idx < pidAlloc.bytesLen * 8 ∧ pidAlloc.bit idx = false := by
    rcases pidAlloc.scan_one with ⟨idx, found, inside, clear, _⟩ | ⟨full, _⟩
    · exact ⟨idx, found, inside, clear⟩
    · omega
  rw [keyed.sized] at inside
  have small : (UInt32.ofNat idx).toNat = idx :=
    UInt32.toNat_ofNat_of_lt' (inside.trans (by decide))
  have nonzero : UInt32.ofNat idx ≠ 0 := by
    intro zero
    rw [zero] at small
    rw [← small] at clear
    exact Bool.noConfusion (clear.symm.trans keyed.zero)
  have unused : ∀ key ∈ list, key.2 ≠ UInt32.ofNat idx := by
    intro key member same
    have used := keyed.used key member
    rw [same, small] at used
    exact Bool.noConfusion (clear.symm.trans used)
  refine ⟨pidAlloc.set idx true, UInt32.ofNat idx, ?_, nonzero, fun page fresh => ?_⟩
  · rw [allocPid, found, if_neg (by omega)]
    rfl
  · constructor
    · rw [List.map_append, List.nodup_append]
      refine ⟨keyed.pages, List.nodup_singleton _, ?_⟩
      rintro old oldMember new newMember rfl
      obtain ⟨key, member, rfl⟩ := List.mem_map.mp oldMember
      exact fresh key member (List.mem_singleton.mp newMember)
    · intro one oneMember two twoMember same oneNonzero
      rcases List.mem_append.mp oneMember with oneOld | oneNew <;>
        rcases List.mem_append.mp twoMember with twoOld | twoNew
      · exact keyed.pids one oneOld two twoOld same oneNonzero
      · rw [List.mem_singleton.mp twoNew] at same
        exact absurd same (unused one oneOld)
      · rw [List.mem_singleton.mp oneNew] at same
        exact absurd same.symm (unused two twoOld)
      · rw [List.mem_singleton.mp oneNew, List.mem_singleton.mp twoNew]
    · intro key member
      rw [Bitmap.bit_set]
      split
      next => rfl
      next different =>
        rcases List.mem_append.mp member with old | new
        · exact keyed.used key old
        · rw [List.mem_singleton.mp new] at different
          exact absurd small different
    · intro key member same
      rcases List.mem_append.mp member with old | new
      · exact keyed.bounded key old same
      · rw [List.mem_singleton.mp new] at same
        dsimp only at same
        rw [same] at small
        have large : noPid.toNat = 4294967295 := rfl
        omega
    · exact keyed.sized
    · rw [Bitmap.bit_set]
      split
      next => rfl
      next => exact keyed.zero

theorem free (keyed : Keyed list pidAlloc) (member : key ∈ list) (nonzero : key.2 ≠ 0) :
    Keyed (list.erase key) (pidAlloc.set key.2.toNat false) where
  pages := keyed.pages.sublist (List.erase_sublist.map _)
  pids := fun one oneMember two twoMember =>
    keyed.pids one (List.mem_of_mem_erase oneMember) two (List.mem_of_mem_erase twoMember)
  used := fun other otherMember => by
    have old := List.mem_of_mem_erase otherMember
    rw [Bitmap.bit_set_ne]
    · exact keyed.used other old
    · intro same
      have equal := keyed.pids key member other old (UInt32.toNat.inj same.symm) nonzero
      rw [← equal] at otherMember
      have nodup : list.Nodup := keyed.pages.of_map _
      exact nodup.not_mem_erase otherMember
  bounded := fun other otherMember => keyed.bounded other (List.mem_of_mem_erase otherMember)
  sized := keyed.sized
  zero := by
    rw [Bitmap.bit_set_ne]
    · exact keyed.zero
    · intro same
      exact nonzero (UInt32.toNat.inj same.symm)

end Keyed

/-! ### Changes of the table -/

theorem keys_modifyTask (kept : ∀ task, (change task).page = task.page ∧
    (change task).pid = task.pid) (tasks : List Process) (page : TaskId) :
    keys (modifyTask tasks page change) = keys tasks := by
  rw [keys, keys, modifyTask, List.map_map]
  refine List.map_congr_left fun task _ => ?_
  dsimp only [Function.comp_apply]
  split
  · rw [(kept task).1, (kept task).2]
  · rfl

theorem keys_erase (unique : ∀ task ∈ tasks, task.page = child.page → task = child) :
    keys (tasks.erase child) = (keys tasks).erase (child.page, child.pid) := by
  induction tasks with
  | nil => rfl
  | cons head tail ih =>
      have inTail := ih fun task member => unique task (List.mem_cons_of_mem _ member)
      have isCons : keys (head :: tail) = (head.page, head.pid) :: keys tail := rfl
      rw [isCons, List.erase_cons, List.erase_cons]
      by_cases same : head = child
      · rw [if_pos (beq_iff_eq.mpr same), same, if_pos (beq_self_eq_true _)]
      · have differs : (head.page, head.pid) ≠ (child.page, child.pid) := by
          intro equal
          exact same (unique head List.mem_cons_self (congrArg Prod.fst equal))
        rw [if_neg (mt beq_iff_eq.mp same), if_neg (mt beq_iff_eq.mp differs), ← inTail]
        rfl

def zombies (tasks : List Process) : List Exited :=
  (tasks.filter fun task => task.status = .hanging).map Process.exited

theorem zombies_perm {left right : List Process} (perm : left.Perm right) :
    (zombies left).Perm (zombies right) :=
  (perm.filter _).map _

theorem zombies_cons (task : Process) (tasks : List Process) :
    zombies (task :: tasks) =
      if task.status = .hanging then task.exited :: zombies tasks else zombies tasks := by
  rw [zombies, List.filter_cons]
  by_cases hanging : task.status = .hanging
  · rw [if_pos (decide_eq_true hanging), if_pos hanging]
    rfl
  · rw [if_neg (by simpa using hanging), if_neg hanging]
    rfl

theorem zombies_map (same : ∀ task ∈ tasks, (change task).exited = task.exited ∧
    ((change task).status = .hanging ↔ task.status = .hanging)) :
    zombies (tasks.map change) = zombies tasks := by
  induction tasks with
  | nil => rfl
  | cons head tail ih =>
      obtain ⟨exited, hanging⟩ := same head List.mem_cons_self
      rw [List.map_cons, zombies_cons, zombies_cons, exited,
        ih fun task member => same task (List.mem_cons_of_mem _ member)]
      simp only [hanging]

theorem zombies_map_exit (nodup : tasks.Nodup) (member : cur ∈ tasks)
    (alive : cur.status ≠ .hanging) (hangs : (change cur).status = .hanging)
    (same : ∀ task ∈ tasks, task ≠ cur → (change task).exited = task.exited ∧
      ((change task).status = .hanging ↔ task.status = .hanging)) :
    (zombies (tasks.map change)).Perm ((change cur).exited :: zombies tasks) := by
  have perm := List.perm_cons_erase member
  have others : zombies ((tasks.erase cur).map change) = zombies (tasks.erase cur) :=
    zombies_map fun task inErase =>
      same task (List.mem_of_mem_erase inErase) fun equal =>
        nodup.not_mem_erase (equal ▸ inErase)
  have before := zombies_perm perm
  have after := zombies_perm (perm.map change)
  rw [zombies_cons, if_neg alive] at before
  rw [List.map_cons, zombies_cons, if_pos hangs, others] at after
  exact after.trans (before.symm.cons _)

abbrev Lives (tasks : List Process) (pid : UInt32) : Prop :=
  ∃ task ∈ tasks, task.pid = pid ∧ task.status ≠ .hanging

structure Sound (state : Processes) : Prop where
  keyed : Keyed (keys state.tasks) state.pidAlloc
  threads : ∀ task ∈ state.tasks, task.pid = 0 → task.parentPid = noPid
  parents : ∀ task ∈ state.tasks, task.parentPid = noPid ∨
    ∃ parent ∈ state.tasks, parent.pid = task.parentPid ∧ parent.status ≠ .hanging
  init : ∃ init ∈ state.tasks, init.pid = initPid ∧ init.status ≠ .hanging
  hanging : ∀ task ∈ state.tasks, task.status = .hanging →
    task.pid ≠ 0 ∧ task.parentPid ≠ noPid ∧ task.blocked = .no
  waiting : ∀ task ∈ state.tasks, task.blocked = .wait →
    firstPage (keys state.tasks) task.pid = some task.page
  awake : ∀ task ∈ state.tasks, task.Waits →
    ∀ child ∈ state.tasks, child.parentPid = task.pid → child.status ≠ .hanging
  collected : state.exits.Perm (state.returns ++ zombies state.tasks)

variable {state after : Processes}

theorem mem_modifyTask (keyed : Keyed (keys tasks) pidAlloc) (member : cur ∈ tasks)
    (inModified : task ∈ modifyTask tasks cur.page change) :
    task = change cur ∨ (task ∈ tasks ∧ task ≠ cur) := by
  obtain ⟨old, oldMember, rfl⟩ := List.mem_map.mp inModified
  split
  next same => exact .inl (congrArg change (keyed.eq_of_page oldMember member same))
  next different => exact .inr ⟨oldMember, fun equal => different (congrArg _ equal)⟩

theorem modifyTask_mem (member : task ∈ tasks) (page : TaskId) (change : Process → Process) :
    (if task.page = page then change task else task) ∈ modifyTask tasks page change :=
  List.mem_map_of_mem member

theorem Sound.modify (sound : state.Sound) (member : cur ∈ state.tasks)
    (alive : cur.status ≠ .hanging)
    (kept : ∀ task, (change task).page = task.page ∧ (change task).pid = task.pid)
    (parentPid : (change cur).parentPid = cur.parentPid)
    (exitCode : (change cur).exitCode = cur.exitCode)
    (stays : (change cur).status ≠ .hanging)
    (waiting : (change cur).blocked = .wait →
      firstPage (keys state.tasks) cur.pid = some cur.page)
    (awake : (change cur).Waits →
      ∀ child ∈ state.tasks, child.parentPid = cur.pid → child.status ≠ .hanging) :
    Sound { state with tasks := modifyTask state.tasks cur.page change } := by
  have isKeys := keys_modifyTask kept state.tasks cur.page
  have splits : ∀ task ∈ modifyTask state.tasks cur.page change,
      task = change cur ∨ (task ∈ state.tasks ∧ task ≠ cur) :=
    fun task inModified => mem_modifyTask sound.keyed member inModified
  have remains : ∀ task ∈ state.tasks, task.status ≠ .hanging →
      ∃ new ∈ modifyTask state.tasks cur.page change,
        new.pid = task.pid ∧ new.status ≠ .hanging := by
    intro task old taskAlive
    refine ⟨_, modifyTask_mem old _ _, ?_⟩
    split
    next same =>
      rw [sound.keyed.eq_of_page old member same]
      exact ⟨(kept cur).2, stays⟩
    next => exact ⟨rfl, taskAlive⟩
  have children : ∀ child ∈ modifyTask state.tasks cur.page change, ∀ pid,
      (∀ old ∈ state.tasks, old.parentPid = pid → old.status ≠ .hanging) →
      child.parentPid = pid → child.status ≠ .hanging := by
    intro child inModified pid none isChild
    rcases splits child inModified with rfl | ⟨old, _⟩
    · exact stays
    · exact none child old isChild
  have parentIn : ∀ pid, Lives state.tasks pid →
      Lives (modifyTask state.tasks cur.page change) pid := by
    rintro pid ⟨parent, old, rfl, parentAlive⟩
    exact remains parent old parentAlive
  constructor
  · rw [isKeys]
    exact sound.keyed
  · intro task inModified zero
    rcases splits task inModified with rfl | ⟨old, _⟩
    · rw [parentPid]
      exact sound.threads cur member ((kept cur).2.symm.trans zero)
    · exact sound.threads task old zero
  · intro task inModified
    rcases splits task inModified with rfl | ⟨old, _⟩
    · rw [parentPid]
      exact (sound.parents cur member).imp_right (parentIn _)
    · exact (sound.parents task old).imp_right (parentIn _)
  · exact parentIn _ sound.init
  · intro task inModified hangs
    rcases splits task inModified with rfl | ⟨old, _⟩
    · exact absurd hangs stays
    · exact sound.hanging task old hangs
  · intro task inModified waits
    rw [isKeys]
    rcases splits task inModified with rfl | ⟨old, _⟩
    · rw [(kept cur).1, (kept cur).2]
      exact waiting waits
    · exact sound.waiting task old waits
  · intro task inModified waits child childIn isChild
    rcases splits task inModified with rfl | ⟨old, _⟩
    · rw [(kept cur).2] at isChild
      exact children child childIn _ (awake waits) isChild
    · exact children child childIn _ (sound.awake task old waits) isChild
  · have same : zombies (modifyTask state.tasks cur.page change) = zombies state.tasks := by
      refine zombies_map fun task old => ?_
      split
      next samePage =>
        rw [sound.keyed.eq_of_page old member samePage]
        refine ⟨?_, iff_of_false stays alive⟩
        rw [Process.exited, Process.exited, (kept cur).1, (kept cur).2, exitCode]
      next => exact ⟨rfl, Iff.rfl⟩
    rw [same]
    exact sound.collected

theorem Sound.append {allocated : Bitmap} (sound : state.Sound) (child : Process)
    (keyed : Keyed (keys state.tasks ++ [(child.page, child.pid)]) allocated)
    (nonzero : child.pid ≠ 0)
    (hasParent : child.parentPid = noPid ∨
      ∃ parent ∈ state.tasks, parent.pid = child.parentPid ∧ parent.status ≠ .hanging)
    (alive : child.status ≠ .hanging) (notBlocked : child.blocked = .no) :
    Sound { state with tasks := state.tasks ++ [child], pidAlloc := allocated } := by
  have isKeys : keys (state.tasks ++ [child]) = keys state.tasks ++ [(child.page, child.pid)] :=
    List.map_append
  have splits : ∀ task ∈ state.tasks ++ [child], task ∈ state.tasks ∨ task = child := by
    intro task inAfter
    exact (List.mem_append.mp inAfter).imp_right List.mem_singleton.mp
  have parentIn : ∀ pid, Lives state.tasks pid → Lives (state.tasks ++ [child]) pid := by
    rintro pid ⟨parent, old, isParent⟩
    exact ⟨parent, List.mem_append_left _ old, isParent⟩
  constructor
  · rw [isKeys]
    exact keyed
  · intro task inAfter zero
    rcases splits task inAfter with old | rfl
    · exact sound.threads task old zero
    · exact absurd zero nonzero
  · intro task inAfter
    rcases splits task inAfter with old | rfl
    · exact (sound.parents task old).imp_right (parentIn _)
    · exact hasParent.imp_right (parentIn _)
  · exact parentIn _ sound.init
  · intro task inAfter hangs
    rcases splits task inAfter with old | rfl
    · exact sound.hanging task old hangs
    · exact absurd hangs alive
  · intro task inAfter waits
    rcases splits task inAfter with old | rfl
    · have first := sound.waiting task old waits
      rw [firstPage, Option.map_eq_some_iff] at first
      obtain ⟨key, found, isPage⟩ := first
      rw [isKeys, firstPage, List.find?_append, found]
      exact congrArg some isPage
    · exact Blocked.noConfusion (notBlocked.symm.trans waits)
  · intro task inAfter waits other otherIn isChild
    rcases splits task inAfter with old | rfl
    · rcases splits other otherIn with otherOld | rfl
      · exact sound.awake task old waits other otherOld isChild
      · exact alive
    · exact Blocked.noConfusion (notBlocked.symm.trans waits.2)
  · have same : zombies (state.tasks ++ [child]) = zombies state.tasks := by
      rw [zombies, List.filter_append, List.filter_singleton, decide_eq_false alive, cond_false,
        List.append_nil]
      rfl
    rw [same]
    exact sound.collected

theorem Sound.threadExit (sound : state.Sound) (member : child ∈ state.tasks)
    (hangs : child.status = .hanging) : (state.threadExit child).Sound := by
  have isKeys := keys_erase fun task old same => sound.keyed.eq_of_page old member same
  obtain ⟨nonzero, _, notBlocked⟩ := sound.hanging child member hangs
  have kept : ∀ task ∈ state.tasks, task.status ≠ .hanging → task ∈ state.tasks.erase child := by
    intro task old alive
    refine (List.mem_erase_of_ne ?_).mpr old
    rintro rfl
    exact alive hangs
  have parentIn : ∀ pid, Lives state.tasks pid → Lives (state.tasks.erase child) pid := by
    rintro pid ⟨parent, old, isPid, alive⟩
    exact ⟨parent, kept parent old alive, isPid, alive⟩
  constructor
  · rw [Processes.threadExit, isKeys]
    exact sound.keyed.free (mem_keys member) nonzero
  · intro task inAfter
    exact sound.threads task (List.mem_of_mem_erase inAfter)
  · intro task inAfter
    exact (sound.parents task (List.mem_of_mem_erase inAfter)).imp_right (parentIn _)
  · exact parentIn _ sound.init
  · intro task inAfter
    exact sound.hanging task (List.mem_of_mem_erase inAfter)
  · intro task inAfter waits
    have old := List.mem_of_mem_erase inAfter
    rw [Processes.threadExit, isKeys, firstPage, find?_erase]
    · exact sound.waiting task old waits
    · refine decide_eq_false fun same => ?_
      have equal := sound.keyed.eq_of_pid member old same nonzero
      rw [equal, waits] at notBlocked
      exact Blocked.noConfusion notBlocked
  · intro task inAfter waits other otherIn
    exact sound.awake task (List.mem_of_mem_erase inAfter) waits other
      (List.mem_of_mem_erase otherIn)
  · have before := zombies_perm (List.perm_cons_erase member)
    rw [zombies_cons, if_pos hangs] at before
    rw [Processes.threadExit, List.append_assoc]
    exact sound.collected.trans (before.append_left _)

/-! ### Exit -/

variable {status : Int} {parent : TaskId}

/-- What a step of `process_exit` leaves alone in a task that neither is woken nor
exits. -/
structure SameBut (task new : Process) : Prop where
  page : new.page = task.page
  pid : new.pid = task.pid
  waits : new.blocked = .wait ↔ task.blocked = .wait
  no : new.blocked = .no ↔ task.blocked = .no

theorem SameBut.of_eq (page : other.page = task.page) (pid : other.pid = task.pid)
    (blocked : other.blocked = task.blocked) : SameBut task other where
  page := page
  pid := pid
  waits := by rw [blocked]
  no := by rw [blocked]

theorem SameBut.trans {new : Process} (first : SameBut task other) (second : SameBut other new) :
    SameBut task new where
  page := second.page.trans first.page
  pid := second.pid.trans first.pid
  waits := second.waits.trans first.waits
  no := second.no.trans first.no

theorem keys_map (same : ∀ task ∈ tasks, SameBut task (change task)) :
    keys (tasks.map change) = keys tasks := by
  rw [keys, keys, List.map_map]
  refine List.map_congr_left fun task member => ?_
  exact Prod.ext (same task member).page (same task member).pid

theorem completeVfork_spec {vforkDone : Option TaskId} {completed : List Process}
    (keyed : Keyed (keys tasks) pidAlloc) (complete : completeVfork tasks vforkDone = some completed) :
    ∃ change, completed = tasks.map change ∧ ∀ task ∈ tasks, SameBut task (change task) ∧
      (change task).parentPid = task.parentPid ∧ (change task).exitCode = task.exitCode ∧
      ((change task).status = task.status ∨
        (change task).status = .ready ∧ task.blocked ≠ .no) := by
  have unchanged : completed = tasks → ∃ change, completed = tasks.map change ∧
      ∀ task ∈ tasks, SameBut task (change task) ∧
      (change task).parentPid = task.parentPid ∧ (change task).exitCode = task.exitCode ∧
      ((change task).status = task.status ∨
        (change task).status = .ready ∧ task.blocked ≠ .no) := fun same =>
    ⟨id, same.trans (List.map_id _).symm, fun task _ => ⟨.of_eq rfl rfl rfl, rfl, rfl, .inl rfl⟩⟩
  cases vforkDone with
  | none => exact unchanged (Option.some.inj complete).symm
  | some owner =>
      dsimp only [completeVfork] at complete
      split at complete
      next => cases complete
      next found isFound =>
        split at complete
        next queued =>
          cases complete
          refine ⟨_, rfl, fun task member => ?_⟩
          split
          next isOwner =>
            have foundPage : found.page = owner := by simpa using List.find?_some isFound
            have same : task = found := keyed.eq_of_page member (List.mem_of_find?_eq_some isFound)
              (isOwner.trans foundPage.symm)
            rw [same]
            have isNot : found.blocked ≠ .wait ∧ found.blocked ≠ .no := by
              rw [queued]
              decide
            exact ⟨⟨rfl, rfl, iff_of_false (by rintro ⟨⟩) isNot.1,
              iff_of_false (by rintro ⟨⟩) isNot.2⟩, rfl, rfl, .inr ⟨rfl, isNot.2⟩⟩
          next => exact ⟨.of_eq rfl rfl rfl, rfl, rfl, .inl rfl⟩
        next => exact unchanged (Option.some.inj complete).symm
        next => cases complete

theorem completeVfork_isSome (keyed : Keyed (keys tasks) pidAlloc) (member : task ∈ tasks)
    (blocked : task.blocked ≠ .no ∧ task.blocked ≠ .wait) :
    ∃ completed, completeVfork tasks (some task.page) = some completed := by
  obtain ⟨found, isFound⟩ : ∃ found,
      tasks.find? (fun other => other.page = task.page) = some found :=
    Option.isSome_iff_exists.mp (List.find?_isSome.mpr ⟨task, member, decide_eq_true rfl⟩)
  have foundPage : found.page = task.page := by simpa using List.find?_some isFound
  have same := keyed.eq_of_page (List.mem_of_find?_eq_some isFound) member foundPage
  rw [completeVfork, isFound, same]
  dsimp only
  cases isBlocked : task.blocked with
  | no => exact absurd isBlocked blocked.1
  | wait => exact absurd isBlocked blocked.2
  | vfork queued => cases queued <;> exact ⟨_, rfl⟩

/-- What `process_exit` makes of each task. -/
structure Leaves (cur : Process) (status : Int) (parent : TaskId) (task new : Process) : Prop
    extends SameBut task new where
  parentPid : new.parentPid = if task.parentPid = cur.pid then initPid else task.parentPid
  exitCode : new.exitCode = if task.page = cur.page then status else task.exitCode
  hangs : task.page = cur.page → new.status = .hanging
  others : task.page ≠ cur.page →
    new.status = task.status ∨ new.status = .ready ∧ task.status ≠ .hanging
  woken : task.page ≠ cur.page → task.page = parent → new.status ≠ .waiting

theorem wake_spec {parent : Process} (keyed : Keyed (keys tasks) pidAlloc)
    (member : parent ∈ tasks) :
    ∃ change, (if parent.status = .waiting then setStatus tasks parent.page .ready else tasks) =
        tasks.map change ∧ ∀ task ∈ tasks, SameBut task (change task) ∧
      (change task).parentPid = task.parentPid ∧ (change task).exitCode = task.exitCode ∧
      ((change task).status = task.status ∨
        (change task).status = .ready ∧ task.status = .waiting) ∧
      (task.page = parent.page → (change task).status ≠ .waiting) := by
  split
  next waiting =>
    refine ⟨_, rfl, fun task inTasks => ?_⟩
    split
    next same =>
      rw [keyed.eq_of_page inTasks member same]
      exact ⟨.of_eq rfl rfl rfl, rfl, rfl, .inr ⟨rfl, waiting⟩, fun _ => by rintro ⟨⟩⟩
    next different =>
      exact ⟨.of_eq rfl rfl rfl, rfl, rfl, .inl rfl, fun same => absurd same different⟩
  next awake =>
    refine ⟨id, (List.map_id _).symm, fun task inTasks => ?_⟩
    refine ⟨.of_eq rfl rfl rfl, rfl, rfl, .inl rfl, fun same => ?_⟩
    rw [keyed.eq_of_page inTasks member same]
    exact awake

structure Enters (cur : Process) (status : Int) (task new : Process) : Prop
    extends SameBut task new where
  parentPid : new.parentPid = if task.parentPid = cur.pid then initPid else task.parentPid
  exitCode : new.exitCode = if task.page = cur.page then status else task.exitCode
  status : new.status = task.status

theorem rechild2init_enters (cur : Process) (status : Int) (task : Process) :
    Enters cur status task (rechild2init cur.pid
      (if task.page = cur.page then { task with exitCode := status } else task)) := by
  unfold rechild2init
  by_cases isCur : task.page = cur.page <;> by_cases isChild : task.parentPid = cur.pid <;>
    refine ⟨.of_eq ?_ ?_ ?_, ?_, ?_, ?_⟩ <;> simp [isCur, isChild]

theorem processExit_eq (state : Processes) (cur : Process) (status : Int) :
    ∃ enter : Process → Process, (∀ task, Enters cur status task (enter task)) ∧
      state.processExit cur status = (pid2task (state.tasks.map enter)
        (if cur.parentPid = cur.pid then initPid else cur.parentPid)).bind fun parent =>
          (completeVfork (if parent.status = .waiting then
            setStatus (state.tasks.map enter) parent.page .ready else state.tasks.map enter)
            cur.vforkDone).map fun tasks =>
              { state with
                tasks := setStatus tasks cur.page .hanging
                exits := state.exits ++ [⟨cur.page, cur.pid, status⟩] } := by
  refine ⟨_, rechild2init_enters cur status, ?_⟩
  have isCur := rechild2init_enters cur status cur
  rw [if_pos rfl] at isCur
  have vforkDone : (rechild2init cur.pid { cur with exitCode := status }).vforkDone =
      cur.vforkDone := by
    unfold rechild2init
    split <;> rfl
  have exitCode := isCur.exitCode
  rw [if_pos rfl] at exitCode
  dsimp only [processExit, modifyTask, Process.exited]
  rw [List.map_map, isCur.parentPid, isCur.page, isCur.pid, exitCode, vforkDone]
  simp only [Option.map_eq_bind]
  rfl

theorem keys_enter {enter : Process → Process}
    (enters : ∀ task, Enters cur status task (enter task)) (tasks : List Process) :
    keys (tasks.map enter) = keys tasks :=
  keys_map fun task _ => (enters task).toSameBut

theorem processExit_spec (sound : state.Sound)
    (exits : state.processExit cur status = some after) :
    ∃ change parent, after = { state with
        tasks := state.tasks.map change
        exits := state.exits ++ [⟨cur.page, cur.pid, status⟩] } ∧
      firstPage (keys state.tasks)
        (if cur.parentPid = cur.pid then initPid else cur.parentPid) = some parent ∧
      ∀ task ∈ state.tasks, Leaves cur status parent task (change task) := by
  obtain ⟨enter, enters, isExit⟩ := processExit_eq state cur status
  rw [isExit] at exits
  obtain ⟨parent, isParent, exits⟩ := Option.bind_eq_some_iff.mp exits
  obtain ⟨completed, complete, rfl⟩ := Option.map_eq_some_iff.mp exits
  have keyed := sound.keyed
  rw [← keys_enter enters] at keyed
  obtain ⟨wake, isWake, wakes⟩ := wake_spec keyed (List.mem_of_find?_eq_some isParent)
  rw [isWake] at complete
  rw [← keys_map fun task member => (wakes task member).1] at keyed
  obtain ⟨finish, rfl, finishes⟩ := completeVfork_spec keyed complete
  refine ⟨fun task => if (finish (wake (enter task))).page = cur.page then
      { finish (wake (enter task)) with status := .hanging } else finish (wake (enter task)),
    parent.page, ?_, ?_, fun task member => ?_⟩
  · simp only [setStatus, modifyTask, List.map_map]
    rfl
  · rw [← keys_enter enters, ← pid2task_page, isParent]
    rfl
  · obtain ⟨same, parentPid, exitCode, sameStatus⟩ := enters task
    have entered := List.mem_map_of_mem (f := enter) member
    obtain ⟨wakeSame, wakeParent, wakeExit, wakeStatus, woken⟩ := wakes _ entered
    obtain ⟨finishSame, finishParent, finishExit, finishStatus⟩ :=
      finishes _ (List.mem_map_of_mem (f := wake) entered)
    dsimp only
    have all := (same.trans wakeSame).trans finishSame
    have isParentPid := (finishParent.trans wakeParent).trans parentPid
    have isExitCode := (finishExit.trans wakeExit).trans exitCode
    have alive : task.blocked ≠ .no → task.status ≠ .hanging :=
      fun blocked hangs => blocked (sound.hanging task member hangs).2.2
    rw [sameStatus] at wakeStatus
    have others : (finish (wake (enter task))).status = task.status ∨
        (finish (wake (enter task))).status = .ready ∧ task.status ≠ .hanging := by
      rcases finishStatus with finishStatus | ⟨isReady, blocked⟩
      · rw [finishStatus]
        refine wakeStatus.imp_right fun woken => ⟨woken.1, ?_⟩
        rw [woken.2]
        decide
      · exact .inr ⟨isReady, alive (mt (same.trans wakeSame).no.mpr blocked)⟩
    have awake : task.page = parent.page → (finish (wake (enter task))).status ≠ .waiting := by
      intro isParentPage
      rcases finishStatus with finishStatus | ⟨isReady, _⟩
      · rw [finishStatus]
        exact woken (same.page.trans isParentPage)
      · rw [isReady]
        decide
    rw [all.page]
    split
    next isCur =>
      exact ⟨⟨rfl, all.pid, all.waits, all.no⟩, isParentPid, isExitCode, fun _ => rfl,
        fun other => absurd isCur other, fun other => absurd isCur other⟩
    next isOther =>
      exact ⟨all, isParentPid, isExitCode, fun isCur => absurd isCur isOther,
        fun _ => others, fun _ => awake⟩

theorem Sound.processExit (sound : state.Sound) (member : cur ∈ state.tasks)
    (alive : cur.status ≠ .hanging) (notBlocked : cur.blocked = .no)
    (notInit : cur.pid ≠ initPid) (hasParent : cur.parentPid ≠ noPid)
    (initAwake : (∃ child ∈ state.tasks, child.parentPid = cur.pid ∧ child.status = .hanging) →
      cur.parentPid = initPid ∨ ∀ init ∈ state.tasks, init.pid = initPid → ¬ init.Waits)
    (exits : state.processExit cur status = some after) : after.Sound := by
  obtain ⟨change, parent, rfl, isParent, leaves⟩ := processExit_spec sound exits
  have nonzero : cur.pid ≠ 0 := fun zero => hasParent (sound.threads cur member zero)
  have isKeys : keys (state.tasks.map change) = keys state.tasks :=
    keys_map fun task old => (leaves task old).toSameBut
  have isCur : ∀ task ∈ state.tasks, task.page = cur.page → task = cur :=
    fun task old => sound.keyed.eq_of_page old member
  have stays : ∀ task ∈ state.tasks, task ≠ cur → task.status ≠ .hanging →
      (change task).status ≠ .hanging := by
    intro task old different taskAlive
    rcases (leaves task old).others (mt (isCur task old) different) with same | ready
    · rw [same]
      exact taskAlive
    · rw [ready.1]
      decide
  have parentIn : ∀ pid, pid ≠ cur.pid → Lives state.tasks pid →
      Lives (state.tasks.map change) pid := by
    rintro pid different ⟨task, old, rfl, taskAlive⟩
    refine ⟨change task, List.mem_map_of_mem old, (leaves task old).pid, ?_⟩
    exact stays task old (fun same => different (congrArg _ same)) taskAlive
  constructor
  · rw [isKeys]
    exact sound.keyed
  · intro task inAfter zero
    obtain ⟨old, oldMember, rfl⟩ := List.mem_map.mp inAfter
    have isThread := sound.threads old oldMember ((leaves old oldMember).pid.symm.trans zero)
    rw [(leaves old oldMember).parentPid, isThread, if_neg]
    exact (sound.keyed.bounded _ (mem_keys member)).symm
  · intro task inAfter
    obtain ⟨old, oldMember, rfl⟩ := List.mem_map.mp inAfter
    rw [(leaves old oldMember).parentPid]
    split
    next => exact .inr (parentIn _ notInit.symm sound.init)
    next different => exact (sound.parents old oldMember).imp_right (parentIn _ different)
  · exact parentIn _ notInit.symm sound.init
  · intro task inAfter hangs
    obtain ⟨old, oldMember, rfl⟩ := List.mem_map.mp inAfter
    rw [(leaves old oldMember).pid, (leaves old oldMember).parentPid, (leaves old oldMember).no]
    have known : old.pid ≠ 0 ∧ old.parentPid ≠ noPid ∧ old.blocked = .no := by
      by_cases same : old = cur
      · rw [same]
        exact ⟨nonzero, hasParent, notBlocked⟩
      · exact sound.hanging old oldMember
          (Decidable.not_not.mp fun oldAlive => stays old oldMember same oldAlive hangs)
    refine ⟨known.1, ?_, known.2.2⟩
    split
    next => decide
    next => exact known.2.1
  · intro task inAfter waits
    obtain ⟨old, oldMember, rfl⟩ := List.mem_map.mp inAfter
    rw [isKeys, (leaves old oldMember).pid, (leaves old oldMember).page]
    exact sound.waiting old oldMember ((leaves old oldMember).waits.mp waits)
  · intro task inAfter waits child childIn isChild hangs
    obtain ⟨old, oldMember, rfl⟩ := List.mem_map.mp inAfter
    obtain ⟨child, childMember, rfl⟩ := List.mem_map.mp childIn
    have blocked := (leaves old oldMember).waits.mp waits.2
    have first := sound.waiting old oldMember blocked
    have different : old.page ≠ cur.page := by
      intro same
      rw [isCur old oldMember same, notBlocked] at blocked
      cases blocked
    -- The parent of the task that exits is woken.
    have notParent : old.page ≠ parent := fun same =>
      (leaves old oldMember).woken different same waits.1
    have waited : old.Waits := by
      refine ⟨?_, blocked⟩
      rcases (leaves old oldMember).others different with same | ready
      · exact same.symm.trans waits.1
      · exact TaskStatus.noConfusion (ready.1.symm.trans waits.1)
    rw [(leaves child childMember).parentPid, (leaves old oldMember).pid] at isChild
    by_cases same : child = cur
    · rw [same] at isChild
      rw [isChild, first] at isParent
      exact notParent (Option.some.inj isParent)
    · have hung : child.status = .hanging :=
        Decidable.not_not.mp fun childAlive => stays child childMember same childAlive hangs
      split at isChild
      next isOrphan =>
        rcases initAwake ⟨child, childMember, isOrphan, hung⟩ with isInit | awake
        · rw [isInit, if_neg notInit.symm, isChild, first] at isParent
          exact notParent (Option.some.inj isParent)
        · exact awake old oldMember isChild.symm waited
      next => exact sound.awake old oldMember waited child childMember isChild hung
  · have nodup : state.tasks.Nodup := by
      have pages := sound.keyed.pages
      rw [keys, List.map_map] at pages
      exact pages.of_map _
    have more := zombies_map_exit nodup member alive ((leaves cur member).hangs rfl)
      fun task old different => by
        have notPage := mt (isCur task old) different
        have left := leaves task old
        refine ⟨?_, ?_⟩
        · rw [Process.exited, left.page, left.pid, left.exitCode, if_neg notPage]
          rfl
        · constructor
          · exact fun hangs => Decidable.not_not.mp fun taskAlive =>
              stays task old different taskAlive hangs
          · intro hangs
            rcases left.others notPage with same | ready
            · exact same.trans hangs
            · exact absurd hangs ready.2
    have isExited : (change cur).exited = ⟨cur.page, cur.pid, status⟩ := by
      have left := leaves cur member
      rw [Process.exited, left.page, left.pid, left.exitCode, if_pos rfl]
    rw [isExited] at more
    have one := sound.collected.append_right [⟨cur.page, cur.pid, status⟩]
    rw [List.append_assoc] at one
    refine one.trans (.append_left _ ?_)
    exact List.perm_append_comm.trans more.symm

theorem Sound.processExit_isSome (sound : state.Sound) (member : cur ∈ state.tasks)
    (hasParent : cur.parentPid ≠ noPid)
    (hasOwner : ∀ owner, cur.vforkDone = some owner →
      ∃ task ∈ state.tasks, task.page = owner ∧ ∃ queued, task.blocked = .vfork queued)
    (status : Int) : ∃ after, state.processExit cur status = some after := by
  obtain ⟨enter, enters, isExit⟩ := processExit_eq state cur status
  rw [isExit]
  have entered := keys_enter enters state.tasks
  obtain ⟨parent, isParent⟩ : ∃ parent, pid2task (state.tasks.map enter)
      (if cur.parentPid = cur.pid then initPid else cur.parentPid) = some parent := by
    obtain ⟨task, old, isPid⟩ : ∃ task ∈ state.tasks,
        task.pid = if cur.parentPid = cur.pid then initPid else cur.parentPid := by
      obtain ⟨init, initMember, isInit, _⟩ := sound.init
      obtain ⟨parent, parentMember, isParent, _⟩ :=
        (sound.parents cur member).resolve_left hasParent
      split
      next => exact ⟨init, initMember, isInit⟩
      next => exact ⟨parent, parentMember, isParent⟩
    refine Option.isSome_iff_exists.mp (List.find?_isSome.mpr ?_)
    refine ⟨enter task, List.mem_map_of_mem old, decide_eq_true ?_⟩
    rw [(enters task).pid, isPid]
  rw [isParent, Option.bind_some]
  have keyed := sound.keyed
  rw [← entered] at keyed
  obtain ⟨wake, isWake, wakes⟩ := wake_spec keyed (List.mem_of_find?_eq_some isParent)
  rw [isWake]
  cases isOwner : cur.vforkDone with
  | none => exact ⟨_, rfl⟩
  | some owner =>
      obtain ⟨task, old, rfl, queued, blocked⟩ := hasOwner owner isOwner
      have entering := List.mem_map_of_mem (f := enter) old
      have same := (enters task).toSameBut.trans (wakes _ entering).1
      rw [← keys_map fun task member => (wakes task member).1] at keyed
      obtain ⟨completed, complete⟩ := completeVfork_isSome keyed
        (List.mem_map_of_mem (f := wake) entering)
        ⟨mt same.no.mp (by rw [blocked]; rintro ⟨⟩), mt same.waits.mp (by rw [blocked]; rintro ⟨⟩)⟩
      rw [same.page] at complete
      rw [complete]
      exact ⟨_, rfl⟩

/-! ### Wait -/

theorem threadChild_spec {found : Process} {status : Option TaskStatus}
    (isFound : threadChild tasks cur status = some found) :
    found ∈ tasks ∧ found.parentPid = cur.pid ∧ (status = none ∨ status = some found.status) := by
  have holds := List.find?_some isFound
  exact ⟨List.mem_of_find?_eq_some isFound, of_decide_eq_true holds⟩

theorem Sound.leave (sound : state.Sound) (member : cur ∈ state.tasks)
    (alive : cur.status ≠ .hanging) : (state.leave cur).Sound :=
  sound.modify member alive (fun _ => ⟨rfl, rfl⟩) rfl rfl alive (by rintro ⟨⟩)
    (by rintro ⟨_, ⟨⟩⟩)

theorem Sound.processWait (sound : state.Sound) (member : cur ∈ state.tasks)
    (alive : cur.status ≠ .hanging)
    (first : firstPage (keys state.tasks) cur.pid = some cur.page) :
    (state.processWait cur).2.Sound := by
  unfold Processes.processWait
  split
  next child isChild =>
    obtain ⟨childMember, _, hangs⟩ := threadChild_spec isChild
    have isHanging : child.status = .hanging := by
      rcases hangs with none | same
      · cases none
      · exact (Option.some.inj same).symm
    refine (sound.threadExit childMember isHanging).leave ?_ alive
    refine (List.mem_erase_of_ne ?_).mpr member
    rintro rfl
    exact alive isHanging
  next noHanging =>
    split
    next => exact sound.leave member alive
    next =>
      refine sound.modify member alive (fun _ => ⟨rfl, rfl⟩) rfl rfl (by rintro ⟨⟩) (fun _ => first)
        fun _ child childMember isChild hangs => ?_
      have fails := List.find?_eq_none.mp noHanging child childMember
      exact fails (decide_eq_true ⟨isChild, .inr (congrArg some hangs.symm)⟩)

theorem processWait_child (member : child ∈ state.tasks) (isChild : child.parentPid = cur.pid)
    (hangs : child.status = .hanging) :
    ∃ first ∈ state.tasks, first.parentPid = cur.pid ∧ first.status = .hanging ∧
      (state.processWait cur).1 = .child first.pid first.exitCode ∧
      (state.processWait cur).2.returns = state.returns ++ [first.exited] := by
  obtain ⟨first, isFirst⟩ : ∃ first, threadChild state.tasks cur (some .hanging) = some first := by
    refine Option.isSome_iff_exists.mp (List.find?_isSome.mpr ⟨child, member, ?_⟩)
    exact decide_eq_true ⟨isChild, .inr (congrArg some hangs.symm)⟩
  obtain ⟨firstMember, isParent, isHanging⟩ := threadChild_spec isFirst
  have firstHangs := Option.some.inj (isHanging.resolve_left (by rintro ⟨⟩))
  refine ⟨first, firstMember, isParent, firstHangs.symm, ?_, ?_⟩
  · rw [processWait, isFirst]
  · rw [processWait, isFirst]
    rfl

/-! ### New tasks -/

theorem Sound.create (sound : state.Sound) (canCreate : state.CanCreate thread) :
    ∃ allocated pid, allocPid state.pidAlloc = (allocated, pid) ∧ pid ≠ 0 ∧
      Keyed (keys state.tasks ++ [(thread, pid)]) allocated := by
  obtain ⟨allocated, pid, isAlloc, nonzero, keyed⟩ := sound.keyed.alloc canCreate.2
  refine ⟨allocated, pid, isAlloc, nonzero, keyed thread ?_⟩
  intro key member
  obtain ⟨task, old, rfl⟩ := List.mem_map.mp member
  exact canCreate.1 task old

theorem Sound.processFork {copied : Bool} (sound : state.Sound) (member : cur ∈ state.tasks)
    (alive : cur.status ≠ .hanging) (notBlocked : cur.blocked = .no)
    (canCreate : state.CanCreate thread) : (state.processFork cur thread copied).Sound := by
  obtain ⟨allocated, pid, isAlloc, nonzero, keyed⟩ := sound.create canCreate
  unfold Processes.processFork
  rw [isAlloc]
  split
  next => exact sound.append _ keyed nonzero (.inr ⟨cur, member, rfl, alive⟩) alive notBlocked
  next => exact sound

theorem Sound.processClone {keepsParent vfork : Bool} (sound : state.Sound)
    (member : cur ∈ state.tasks) (alive : cur.status ≠ .hanging)
    (canCreate : state.CanCreate thread) :
    (state.processClone cur thread keepsParent vfork).Sound := by
  obtain ⟨allocated, pid, isAlloc, nonzero, keyed⟩ := sound.create canCreate
  unfold Processes.processClone
  rw [isAlloc]
  dsimp only
  have hasParent : (if keepsParent then cur.parentPid else cur.pid) = noPid ∨
      ∃ parent ∈ state.tasks,
        parent.pid = (if keepsParent then cur.parentPid else cur.pid) ∧
        parent.status ≠ .hanging := by
    split
    next => exact sound.parents cur member
    next => exact .inr ⟨cur, member, rfl, alive⟩
  cases vfork with
  | true =>
      have created := sound.append ⟨thread, pid, if keepsParent then cur.parentPid else cur.pid,
        .ready, 0, some cur.page, .no⟩ keyed nonzero hasParent (by rintro ⟨⟩) rfl
      refine created.modify (List.mem_append_left _ member) alive (fun _ => ⟨rfl, rfl⟩) rfl rfl ?_ ?_ ?_
      · rintro ⟨⟩
      · rintro ⟨⟩
      · rintro ⟨_, ⟨⟩⟩
  | false =>
      exact sound.append ⟨thread, pid, if keepsParent then cur.parentPid else cur.pid,
        .ready, 0, none, .no⟩ keyed nonzero hasParent (by rintro ⟨⟩) rfl

/-! ### Runs -/

theorem mem_of_calling (isCalling : state.calling page = some cur) :
    cur ∈ state.tasks ∧ cur.status ≠ .hanging ∧ cur.blocked = .no := by
  have holds := List.find?_some isCalling
  obtain ⟨_, canRun, notBlocked⟩ := of_decide_eq_true holds
  refine ⟨List.mem_of_find?_eq_some isCalling, ?_, notBlocked⟩
  rcases canRun with status | status <;> rw [status] <;> decide

theorem mem_of_runnable (isRunnable : state.runnable page = some cur) :
    cur ∈ state.tasks ∧ cur.status ≠ .hanging := by
  have holds := List.find?_some isRunnable
  obtain ⟨_, canRun⟩ := of_decide_eq_true holds
  refine ⟨List.mem_of_find?_eq_some isRunnable, ?_⟩
  rcases canRun with status | status <;> rw [status] <;> decide

theorem Sound.step {action : ProcessCall} (sound : state.Sound) (guard : state.Guard action)
    (stepped : state.step action = some after) : after.Sound := by
  cases action with
  | fork page thread copied =>
      obtain ⟨cur, calling, rfl⟩ := Option.map_eq_some_iff.mp stepped
      obtain ⟨member, alive, notBlocked⟩ := mem_of_calling calling
      exact sound.processFork member alive notBlocked guard
  | clone page thread keepsParent vfork =>
      obtain ⟨cur, calling, rfl⟩ := Option.map_eq_some_iff.mp stepped
      obtain ⟨member, alive, _⟩ := mem_of_calling calling
      exact sound.processClone member alive guard
  | wait page =>
      obtain ⟨cur, calling, rfl⟩ := Option.map_eq_some_iff.mp stepped
      obtain ⟨member, alive, _⟩ := mem_of_calling calling
      refine sound.processWait member alive ?_
      rw [← pid2task_page, guard cur calling]
      rfl
  | exit page status =>
      obtain ⟨cur, calling, exits⟩ := Option.bind_eq_some_iff.mp stepped
      obtain ⟨member, alive, notBlocked⟩ := mem_of_calling calling
      obtain ⟨notInit, hasParent, initAwake, _⟩ := guard cur calling
      exact sound.processExit member alive notBlocked notInit hasParent initAwake exits
  | resume page =>
      obtain ⟨cur, runnable, resumed⟩ := Option.bind_eq_some_iff.mp stepped
      obtain ⟨member, alive⟩ := mem_of_runnable runnable
      split at resumed
      next => cases resumed
      next waits =>
        cases resumed
        exact sound.processWait member alive (sound.waiting cur member waits)
      next =>
        cases resumed
        exact sound.leave member alive

variable {main init : TaskId} {before later : List TaskId}

theorem mem_start (member : task ∈ (start main init before later).tasks) :
    task.status ≠ .hanging ∧ task.blocked = .no ∧
      (task.pid = 0 ∧ task.parentPid = noPid ∨ task = threadOf initPid 0 .ready init) := by
  have isThread : ∀ threads : List TaskId, task ∈ threads.map (threadOf 0 noPid .ready) →
      task.status ≠ .hanging ∧ task.blocked = .no ∧
      (task.pid = 0 ∧ task.parentPid = noPid ∨ task = threadOf initPid 0 .ready init) := by
    intro threads inThreads
    obtain ⟨page, _, rfl⟩ := List.mem_map.mp inThreads
    exact ⟨by rintro ⟨⟩, rfl, .inl ⟨rfl, rfl⟩⟩
  rcases List.mem_append.mp member with first | second
  · rcases List.mem_cons.mp first with rfl | inBefore
    · exact ⟨by rintro ⟨⟩, rfl, .inl ⟨rfl, rfl⟩⟩
    · exact isThread before inBefore
  · rcases List.mem_cons.mp second with rfl | inLater
    · exact ⟨by rintro ⟨⟩, rfl, .inr rfl⟩
    · exact isThread later inLater

theorem start_sound (distinct : (main :: before ++ init :: later).Nodup) :
    (start main init before later).Sound := by
  have isInit : threadOf initPid 0 .ready init ∈ (start main init before later).tasks :=
    List.mem_append_right _ List.mem_cons_self
  have isMain : threadOf 0 noPid .running main ∈ (start main init before later).tasks :=
    List.mem_cons_self
  have key : ∀ key ∈ keys (start main init before later).tasks,
      key.2 = 0 ∨ key = (init, initPid) := by
    intro key inKeys
    obtain ⟨task, member, rfl⟩ := List.mem_map.mp inKeys
    rcases (mem_start member).2.2 with isThread | rfl
    · exact .inl isThread.1
    · exact .inr rfl
  have bits : (start main init before later).pidAlloc.bit 0 = true ∧
      (start main init before later).pidAlloc.bit 1 = true :=
    ⟨(Bitmap.bit_set_ne _ true (by decide)).trans (Bitmap.bit_set_self _ 0 true),
      Bitmap.bit_set_self _ 1 true⟩
  constructor
  · constructor
    · have pages : (keys (start main init before later).tasks).map Prod.fst =
          main :: before ++ init :: later := by
        have threads : ∀ list : List TaskId,
            (list.map (threadOf 0 noPid .ready)).map (·.page) = list := by
          intro list
          rw [List.map_map]
          exact List.map_id list
        rw [keys, List.map_map]
        exact (List.map_append).trans (congrArg₂ (fun front back => main :: front ++ init :: back)
          (threads before) (threads later))
      rw [pages]
      exact distinct
    · intro one oneMember two twoMember same nonzero
      have isOne := (key one oneMember).resolve_left nonzero
      rw [same] at nonzero
      rw [isOne, (key two twoMember).resolve_left nonzero]
    · intro one member
      rcases key one member with zero | rfl
      · rw [zero]
        exact bits.1
      · exact bits.2
    · intro one member same
      rcases key one member with zero | rfl
      · rw [same] at zero
        cases zero
      · cases same
    · rfl
    · exact bits.1
  · intro task member zero
    rcases (mem_start member).2.2 with isThread | rfl
    · exact isThread.2
    · cases zero
  · intro task member
    rcases (mem_start member).2.2 with isThread | rfl
    · exact .inl isThread.2
    · exact .inr ⟨_, isMain, rfl, by rintro ⟨⟩⟩
  · exact ⟨_, isInit, rfl, by rintro ⟨⟩⟩
  · intro task member hangs
    exact absurd hangs (mem_start member).1
  · intro task member waits
    rw [(mem_start member).2.1] at waits
    cases waits
  · intro task member waits
    rw [Process.Waits, (mem_start member).2.1] at waits
    cases waits.2
  · have none : zombies (start main init before later).tasks = [] := by
      rw [zombies, List.filter_eq_nil_iff.mpr, List.map_nil]
      intro task member
      simpa using (mem_start member).1
    rw [none]
    exact .nil

/-- In a guarded run no task waits while a child of it hangs; a task that may exit finds
its parent, and its exit is recorded with the status it passes; every recorded exit was
returned once or belongs to a task that hangs and has a parent that does not; and a task
with a child that hangs gets such a child, with its status, from its call of
`process_wait`. -/
theorem reaches_awake (distinct : (main :: before ++ init :: later).Nodup)
    (reached : Reaches step Guard (start main init before later) state) :
    (∀ task ∈ state.tasks, task.Waits →
      ∀ child ∈ state.tasks, child.parentPid = task.pid → child.status ≠ .hanging) ∧
    (∀ page status cur, state.calling page = some cur → state.Guard (.exit page status) →
      ∃ after, state.processExit cur status = some after ∧
        after.exits = state.exits ++ [⟨cur.page, cur.pid, status⟩]) ∧
    state.exits.Perm (state.returns ++ zombies state.tasks) ∧
    (∀ child ∈ state.tasks, child.status = .hanging →
      ∃ parent ∈ state.tasks, parent.pid = child.parentPid ∧ parent.status ≠ .hanging) ∧
    ∀ cur ∈ state.tasks, ∀ child ∈ state.tasks, child.parentPid = cur.pid →
      child.status = .hanging → ∃ first ∈ state.tasks, first.parentPid = cur.pid ∧
        first.status = .hanging ∧
        (state.processWait cur).1 = .child first.pid first.exitCode ∧
        (state.processWait cur).2.returns = state.returns ++ [first.exited] := by
  have sound : state.Sound :=
    reached.invariant Sound (start_sound distinct) fun sound guard stepped =>
      sound.step guard stepped
  refine ⟨sound.awake, fun page status cur calling guard => ?_, sound.collected,
    fun child member hangs => ?_, fun cur _ child member isChild hangs =>
      processWait_child member isChild hangs⟩
  · obtain ⟨member, _, _⟩ := mem_of_calling calling
    obtain ⟨_, hasParent, _, hasOwner⟩ := guard cur calling
    obtain ⟨after, exits⟩ := sound.processExit_isSome member hasParent hasOwner status
    obtain ⟨change, parent, isAfter, _⟩ := processExit_spec sound exits
    exact ⟨after, exits, congrArg Processes.exits isAfter⟩
  · exact (sound.parents child member).resolve_left (sound.hanging child member hangs).2.1

theorem reaches_awake_child : ∃ state, Reaches step Guard (start 0 1 [] []) state ∧
    state.exits = [⟨2, 2, 7⟩] ∧ state.returns = [⟨2, 2, 7⟩] ∧
    state.exits.Perm (state.returns ++ zombies state.tasks) := by
  have started : Reaches step Guard (start 0 1 [] []) (start 0 1 [] []) := .refl
  have forked := started.by_action (.fork 1 2 true) ⟨by decide, by decide⟩ rfl
  have exited := forked.by_action (.exit 2 7) (by
    intro cur isCur
    obtain rfl := Option.some.inj isCur
    exact ⟨by decide, by decide, fun _ => .inl rfl, by rintro _ ⟨⟩⟩) rfl
  have waited := exited.by_action (.wait 1) (by
    intro cur isCur
    obtain rfl := Option.some.inj isCur
    rfl) rfl
  exact ⟨_, waited, rfl, rfl, (reaches_awake (by decide) waited).2.2.1⟩

/-- A task with a child that hangs exits while init waits, and init sleeps on; and the main
task finds no parent. -/
theorem processExit_misses_init :
    ((execute step (fun _ _ => True) (start 0 1 [] []) [.fork 1 2 true, .fork 2 3 true,
      .fork 3 4 true, .exit 4 7, .wait 1, .exit 3 9]).map fun state =>
        state.tasks.map fun task => (task.pid, task.parentPid, task.status, task.blocked)) =
      some [(0, noPid, .running, .no), (1, 0, .waiting, .wait), (2, 1, .ready, .no),
        (3, 2, .hanging, .no), (4, 1, .hanging, .no)] ∧
    ((start 0 1 [] []).step (.exit 0 0)).isNone := by
  decide

end Processes

end CleanOS.Thread
