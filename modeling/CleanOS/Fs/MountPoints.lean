import CleanOS.Fs.MountTable
import CleanOS.Fs.OpenFiles
import CleanOS.Fs.Paths

/-!
# Resolution of mount points

Which file system `sys_open` hands a path to, and which mount points `mount` refuses.
-/

namespace CleanOS.Fs

/-- The file system whose `open` is called by `sys_open`, by its place in `mounted_fs`, and the
path that it is called with. -/
def OpenFiles.handed (state : OpenFiles) (table : List (Option Nat)) (path : List UInt8) :
    Option (Nat × List UInt8) := do
  let fs ← state.fsOf path
  let (file, _) ← state.allocFile
  let _ ← taskAllocFd table file
  return (fs, pathNextChild path)

/-- A path is handed to a file system whose mount point it begins with by components, with the
rest of it, and where there is a free file and a free number, `sys_open` fails exactly when there
is no such file system. -/
structure OpensRight (mounted : List (List UInt8)) (path : List UInt8) : Prop where
  handed : ∀ (state : OpenFiles) table fs rest, state.mounted = mounted →
    state.handed table path = some (fs, rest) →
    ∃ mountPoint, mounted[fs]? = some mountPoint ∧ ComponentPrefix mountPoint path ∧
      components path = components mountPoint ++ components rest ∧ rest <:+ path
  fails : ∀ (state : OpenFiles) task table flag stale result after, state.mounted = mounted →
    state.allocFile.isSome = true → none ∈ table →
    state.sysOpen task table path flag stale true = some (result, after) →
    (result < 0 ↔ ∀ mountPoint ∈ mounted, ¬ ComponentPrefix mountPoint path)

/-- With a free node, and where the mount function of the file system succeeds, `mount` refuses a
mount point exactly when it is in use. -/
def RefusesRight (table : FsTable) (mountPoint : List UInt8) : Prop :=
  ∀ fs freeFs calls stack fuel state type ops major minor after,
    fsOpsTable[type]? = some (some ops) →
    ops.mount calls stack fuel state major minor = some (0, after) →
    ∃ outcome, mount calls stack fuel { table with freeFs := fs :: freeFs } state type mountPoint
      major minor = some outcome ∧ (outcome.fs = none ↔ mountPoint ∈ table.mountPoints)

/-- The paths that are resolved: a mount point that the path begins with by components is written
in it with the same slashes, and the first mount point that the path starts with ends at a
boundary of components and has as many components as `path_next_child` takes away. -/
structure Resolvable (mounted : List (List UInt8)) (path : List UInt8) : Prop where
  sameSlashes : (∃ mountPoint ∈ mounted, ComponentPrefix mountPoint path) →
    ∃ mountPoint ∈ mounted, mountPoint <+: path
  first : ∀ mountPoint,
    mounted.find? (fun mountPoint => mountPoint.isPrefixOf path) = some mountPoint →
    AtBoundary mountPoint path ∧
      (components mountPoint).length = min (skippedComponents path) (components path).length

def Distinguished (mounted : List (List UInt8)) (mountPoint : List UInt8) : Prop :=
  mountPoint ∈ mounted ∨ ∀ other ∈ mounted, ¬ other <+: mountPoint

section Refuse

variable {table : FsTable} {mountPoint : List UInt8}

theorem mountedByPath_isSome :
    (table.mountedByPath mountPoint).isSome = true ↔
      ∃ other ∈ table.mountPoints, other <+: mountPoint := by
  simp [FsTable.mountedByPath, FsTable.mountPoints, List.find?_isSome]

theorem mount_refuses {fs : FsNode} {freeFs : List FsNode} {calls : MountCalls}
    {stack : MountStack} {fuel : Nat} {state after : MountState} {type : Nat} {ops : FsOps}
    {major minor : Int} (isOps : fsOpsTable[type]? = some (some ops))
    (succeeds : ops.mount calls stack fuel state major minor = some (0, after)) :
    ∃ outcome, mount calls stack fuel { table with freeFs := fs :: freeFs } state type mountPoint
      major minor = some outcome ∧
      (outcome.fs = none ↔ ∃ other ∈ table.mountPoints, other <+: mountPoint) := by
  rw [← mountedByPath_isSome]
  cases found : table.mountedByPath mountPoint with
  | some mounted => exact ⟨_, mount_mounted found, iff_of_true mountFail_fs rfl⟩
  | none =>
      refine ⟨⟨some fs, (FsTable.take { table with freeFs := fs :: freeFs } fs freeFs
        mountPoint).enter fs type, after, []⟩, ?_, iff_of_false nofun nofun⟩
      have notMounted :
          FsTable.mountedByPath { table with freeFs := fs :: freeFs } mountPoint = none := found
      have nodes : FsTable.freeFs { table with freeFs := fs :: freeFs } = fs :: freeFs := rfl
      rw [mount_take notMounted nodes, isOps, Option.bind_some]
      dsimp only
      rw [succeeds]
      rfl

theorem refusesRight_iff :
    RefusesRight table mountPoint ↔ Distinguished table.mountPoints mountPoint := by
  constructor
  · intro refuses
    by_cases inUse : mountPoint ∈ table.mountPoints
    · exact Or.inl inUse
    · refine Or.inr fun other member isPrefix => inUse ?_
      let calls : MountCalls := ⟨fun _ _ => 0, ⟨0, 0, fun _ => 0⟩, succeedingCalls revisionZero⟩
      have isDevfs : fsOpsTable[0]? = some (some .devfs) := rfl
      have succeeds : FsOps.devfs.mount calls ⟨0, 0, ⟨0, 0, 0⟩⟩ 0 ⟨[], [], []⟩ 0 0 =
          some (0, ⟨[], [], []⟩) := rfl
      obtain ⟨outcome, run, refused⟩ := refuses ⟨1, by decide⟩ [] _ _ _ _ _ _ _ _ _ isDevfs succeeds
      obtain ⟨_, again, prefixed⟩ :=
        @mount_refuses table mountPoint ⟨1, by decide⟩ [] _ _ _ _ _ _ _ _ _ isDevfs succeeds
      cases run.symm.trans again
      exact refused.mp (prefixed.mpr ⟨other, member, isPrefix⟩)
  · intro distinguished fs freeFs calls stack fuel state type ops major minor after isOps succeeds
    obtain ⟨outcome, run, refused⟩ := @mount_refuses table mountPoint fs freeFs calls stack fuel
      state after type ops major minor isOps succeeds
    refine ⟨outcome, run, refused.trans ⟨?_, fun inUse => ⟨_, inUse, List.prefix_refl _⟩⟩⟩
    rintro ⟨other, member, isPrefix⟩
    rcases distinguished with inUse | different
    · exact inUse
    · exact absurd isPrefix (different other member)

end Refuse

section Open

variable {state : OpenFiles} {mounted : List (List UInt8)} {path mountPoint rest : List UInt8}
  {table : List (Option Nat)} {fs : Nat}

theorem handed_eq_some (isHanded : state.handed table path = some (fs, rest)) :
    state.fsOf path = some fs ∧ rest = pathNextChild path := by
  obtain ⟨found, isFound, later⟩ := Option.bind_eq_some_iff.mp isHanded
  obtain ⟨file, -, later⟩ := Option.bind_eq_some_iff.mp later
  obtain ⟨fd, -, ends⟩ := Option.bind_eq_some_iff.mp later
  cases ends
  exact ⟨isFound, rfl⟩

theorem taskAllocFd_isSome (file : Nat) (hasFd : none ∈ table) :
    ∃ fd, taskAllocFd table file = some fd := by
  apply Option.isSome_iff_exists.mp
  unfold taskAllocFd
  rw [Option.isSome_map, List.findIdx?_isSome]
  exact List.any_eq_true.mpr ⟨none, hasFd, rfl⟩

theorem handed_isSome (found : state.fsOf path = some fs) (hasFile : state.allocFile.isSome = true)
    (hasFd : none ∈ table) : state.handed table path = some (fs, pathNextChild path) := by
  obtain ⟨file, isFile⟩ := Option.isSome_iff_exists.mp hasFile
  obtain ⟨fd, isFd⟩ := taskAllocFd_isSome file.1 hasFd
  unfold OpenFiles.handed
  rw [found, isFile]
  simp [isFd]

/-- Where there is a free file and a free number, and the file system opens what it is handed,
`sys_open` fails exactly when it finds no file system. -/
theorem sysOpen_fails_iff {task : Nat} {flag result : Int} {stale : Option Nat}
    {after : OpenFiles} (hasFile : state.allocFile.isSome = true) (hasFd : none ∈ table)
    (opened : state.sysOpen task table path flag stale true = some (result, after)) :
    result < 0 ↔ state.fsOf path = none := by
  unfold OpenFiles.sysOpen at opened
  cases found : state.fsOf path with
  | none =>
      rw [found] at opened
      have failed : result = filenoUnknown := by
        cases stale with
        | none => exact (Prod.mk.inj (Option.some.inj opened)).1.symm
        | some file =>
            dsimp only at opened
            split at opened
            · exact (Prod.mk.inj (Option.some.inj opened)).1.symm
            · cases opened
      rw [failed]
      exact iff_of_true (by decide) rfl
  | some fs =>
      obtain ⟨⟨file, taken⟩, isFile⟩ := Option.isSome_iff_exists.mp hasFile
      obtain ⟨⟨fd, entered⟩, isFd⟩ := taskAllocFd_isSome file hasFd
      rw [found, isFile] at opened
      dsimp only at opened
      rw [isFd] at opened
      have answered : result = (fd : Int) := (Prod.mk.inj (Option.some.inj opened)).1.symm
      rw [answered]
      exact iff_of_false (Int.not_lt.mpr (Int.natCast_nonneg fd)) nofun

theorem fsOf_eq_some (isMounted : state.mounted = mounted) (found : state.fsOf path = some fs) :
    ∃ mountPoint, mounted[fs]? = some mountPoint ∧ mountPoint <+: path ∧
      mounted.find? (fun mountPoint => mountPoint.isPrefixOf path) = some mountPoint := by
  unfold OpenFiles.fsOf at found
  rw [isMounted] at found
  obtain ⟨inside, isPrefix, -⟩ := List.findIdx?_eq_some_iff_getElem.mp found
  have isPoint : mounted[fs]? = some mounted[fs] := List.getElem?_eq_getElem inside
  refine ⟨mounted[fs], isPoint, List.isPrefixOf_iff_prefix.mp isPrefix, ?_⟩
  rw [List.find?_eq_bind_findIdx?_getElem?, found]
  exact isPoint

theorem fsOf_eq_none (isMounted : state.mounted = mounted) :
    state.fsOf path = none ↔ ∀ mountPoint ∈ mounted, ¬ mountPoint <+: path := by
  unfold OpenFiles.fsOf
  rw [isMounted, List.findIdx?_eq_none_iff]
  constructor
  · intro none mountPoint member isPrefix
    have found := List.isPrefixOf_iff_prefix.mpr isPrefix
    rw [none mountPoint member] at found
    cases found
  · intro none mountPoint member
    exact Bool.eq_false_iff.mpr fun found =>
      none mountPoint member (List.isPrefixOf_iff_prefix.mp found)

theorem passed_iff (isPrefix : mountPoint <+: path) :
    ComponentPrefix mountPoint path ∧
        components path = components mountPoint ++ components (pathNextChild path) ↔
      AtBoundary mountPoint path ∧
        (components mountPoint).length = min (skippedComponents path) (components path).length := by
  rw [atBoundary_iff isPrefix]
  constructor
  · intro ⟨prefixed, split⟩
    exact ⟨prefixed, (pathNextChild_rest prefixed.components).mp split⟩
  · intro ⟨prefixed, sameLength⟩
    exact ⟨prefixed, (pathNextChild_rest prefixed.components).mpr sameLength⟩

theorem Resolvable.opensRight (resolvable : Resolvable mounted path) :
    OpensRight mounted path := by
  constructor
  · intro state table fs rest isMounted isHanded
    obtain ⟨found, isRest⟩ := handed_eq_some isHanded
    obtain ⟨mountPoint, isPoint, isPrefix, isFirst⟩ := fsOf_eq_some isMounted found
    obtain ⟨prefixed, split⟩ := (passed_iff isPrefix).mpr (resolvable.first mountPoint isFirst)
    rw [isRest]
    exact ⟨mountPoint, isPoint, prefixed, split, pathNextChild_suffix⟩
  · intro state task table flag stale result after isMounted hasFile hasFd opened
    rw [sysOpen_fails_iff hasFile hasFd opened]
    cases found : state.fsOf path with
    | none =>
        refine iff_of_true rfl fun mountPoint member prefixed => ?_
        obtain ⟨other, otherMember, isPrefix⟩ :=
          resolvable.sameSlashes ⟨mountPoint, member, prefixed⟩
        exact (fsOf_eq_none isMounted).mp found other otherMember isPrefix
    | some fs =>
        refine iff_of_false nofun fun noPrefix => ?_
        obtain ⟨mountPoint, isPoint, isPrefix, isFirst⟩ := fsOf_eq_some isMounted found
        obtain ⟨prefixed, -⟩ := (passed_iff isPrefix).mpr (resolvable.first mountPoint isFirst)
        exact noPrefix mountPoint (List.mem_of_getElem? isPoint) prefixed

def freshFiles (mounted : List (List UInt8)) : OpenFiles where
  file := fun _ => ⟨0, 0, none⟩
  mounted := mounted
  tasks := [.init]
  closed := []

theorem freshFiles_allocFile : (freshFiles mounted).allocFile.isSome = true := by
  unfold OpenFiles.allocFile
  rw [Option.isSome_map, List.find?_isSome]
  exact ⟨0, List.mem_range.mpr (by decide), rfl⟩

theorem OpensRight.resolvable (opens : OpensRight mounted path) : Resolvable mounted path := by
  have isMounted : (freshFiles mounted).mounted = mounted := rfl
  have hasFd : none ∈ [(none : Option Nat)] := List.mem_singleton_self _
  constructor
  · rintro ⟨mountPoint, member, prefixed⟩
    by_contra noPrefix
    have notFound : (freshFiles mounted).fsOf path = none :=
      (fsOf_eq_none isMounted).mpr fun other otherMember isPrefix =>
        noPrefix ⟨other, otherMember, isPrefix⟩
    have opened : (freshFiles mounted).sysOpen 0 [none] path 0 none true =
        some (filenoUnknown, freshFiles mounted) := by
      unfold OpenFiles.sysOpen
      rw [notFound]
    have failed := opens.fails _ _ _ _ _ _ _ isMounted freshFiles_allocFile hasFd opened
    exact failed.mp (by decide) mountPoint member prefixed
  · intro mountPoint isFirst
    obtain ⟨fs, found⟩ : ∃ fs, (freshFiles mounted).fsOf path = some fs := by
      cases found : (freshFiles mounted).fsOf path with
      | some fs => exact ⟨fs, rfl⟩
      | none =>
          have isPrefix := List.find?_some isFirst
          exact absurd (List.isPrefixOf_iff_prefix.mp isPrefix)
            ((fsOf_eq_none isMounted).mp found mountPoint (List.mem_of_find?_eq_some isFirst))
    obtain ⟨other, isPoint, isPrefix, isOther⟩ := fsOf_eq_some isMounted found
    cases isFirst.symm.trans isOther
    obtain ⟨again, isAgain, prefixed, split, -⟩ := opens.handed _ _ _ _ isMounted
      (handed_isSome found freshFiles_allocFile hasFd)
    cases isPoint.symm.trans isAgain
    exact (passed_iff isPrefix).mp ⟨prefixed, split⟩

/-- Which paths are opened by the right file system, and which mount points are refused
rightly. -/
theorem mountPoints_iff (table : FsTable) (path mountPoint : List UInt8) :
    (OpensRight table.mountPoints path ↔ Resolvable table.mountPoints path) ∧
      (RefusesRight table mountPoint ↔ Distinguished table.mountPoints mountPoint) :=
  ⟨⟨OpensRight.resolvable, Resolvable.opensRight⟩, refusesRight_iff⟩

/-- With a file system at `/dev`, the path `/devices` is handed to it, and the mount point
`/devices` is refused. -/
theorem mountPoints_devices :
    ¬ OpensRight devMounted.mountPoints [0x2f, 0x64, 0x65, 0x76, 0x69, 0x63, 0x65, 0x73] ∧
      ¬ RefusesRight devMounted [0x2f, 0x64, 0x65, 0x76, 0x69, 0x63, 0x65, 0x73] := by
  constructor
  · intro opens
    have atBoundary := (opens.resolvable.first [0x2f, 0x64, 0x65, 0x76] (by decide)).1
    exact absurd atBoundary (by decide)
  · intro refuses
    rcases refusesRight_iff.mp refuses with inUse | different
    · exact absurd inUse (by decide)
    · exact different [0x2f, 0x64, 0x65, 0x76] (List.mem_singleton_self _) (by decide)

end Open

end CleanOS.Fs
