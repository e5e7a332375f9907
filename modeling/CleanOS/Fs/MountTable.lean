import CleanOS.Fs.Ext2Mount
import CleanOS.Fs.SectorCache
import Mathlib.Tactic.IntervalCases

/-!
# The table of mounted file systems

`mount` of `kernel/fs/fs.c`, with `fat16_mount` and `ext2_mount`, and what it leaves where it
fails.
-/

namespace CleanOS.Fs

open CleanOS.Device

/-- The file systems that have a `fs_ops_t`. -/
inductive FsOps
  | devfs
  | fat16
  | ext2
  deriving DecidableEq

/-- `FS_EXT2`. -/
def fsExt2 : Nat := 2

/-- `FS_FAT16`. -/
def fsFat16 : Nat := 1

/-- `fs_ops_table`. -/
def fsOpsTable : List (Option FsOps) :=
  [some .devfs, some .fat16, some .ext2, none, none, none, none, none, none, none]

/-- `FS_MOUNTP_SIZE`. -/
def fsMountpSize : Nat := 512

/-- What `fs.c` uses of a `fs_desc_t`: the bytes of `mount_point` before the first zero, all of
them if there is none, and the type behind them. -/
structure FsDesc where
  mountPoint : List UInt8
  type : Nat

/-- The string that starts at `mount_point`.  It goes on behind an array without a zero, where
the lowest byte of the type is. -/
def FsDesc.path (fs : FsDesc) : List UInt8 :=
  if fs.mountPoint.length < fsMountpSize ∨ fs.type = 0 then fs.mountPoint
  else fs.mountPoint ++ [fs.type.toUInt8]

/-- The address of a `fs_desc_t` in a list. -/
abbrev FsNode := { addr : UInt32 // addr ≠ 0 }

/-- The lists `free_fs` and `mounted_fs`, and what they link. -/
structure FsTable where
  freeFs : List FsNode
  mountedFs : List FsNode
  descs : FsNode → FsDesc

namespace FsTable

/-- The mount points, in the order in which `foreach` visits them. -/
def mountPoints (table : FsTable) : List (List UInt8) :=
  table.mountedFs.map fun fs => (table.descs fs).path

/-- The search with `mounted_fs_visitor_by_path`, which compares as many bytes as a mount point
has. -/
def mountedByPath (table : FsTable) (path : List UInt8) : Option FsNode :=
  table.mountedFs.find? fun fs => (table.descs fs).path.isPrefixOf path

/-- The first node of `free_fs` is taken for a mount point. -/
def take (table : FsTable) (fs : FsNode) (freeFs : List FsNode) (mountPoint : List UInt8) :
    FsTable :=
  let desc := { table.descs fs with mountPoint := mountPoint.take fsMountpSize }
  { table with freeFs, descs := Function.update table.descs fs desc }

/-- A node is linked into `mounted_fs`, with the type that its mount function has set. -/
def enter (table : FsTable) (fs : FsNode) (type : Nat) : FsTable :=
  { table with
    mountedFs := table.mountedFs ++ [fs]
    descs := Function.update table.descs fs { table.descs fs with type } }

end FsTable

/-- How the calls of one run of `fat16_mount` end: the address that `alloc_kernel_mem` gives,
what `device_read` returns, and what it reads. -/
structure Fat16MountCalls where
  bpbBuf : UInt32
  bpbRead : Int
  image : Nat → UInt8

/-- The end of `fat16_mount` behind the label `mount_fail`. -/
def fat16MountFail (state : MountState) (devId : Int) (bpbBuf : PointerVar) : Int × MountState :=
  let state :=
    if devId ≥ 0 then { state with devices := deviceClose state.devices devId } else state
  (-1, state.free bpbBuf)

/-- `fat16_mount`, where `bpbBuf` lay in the place of its variable before. -/
def fat16Mount (driverOpen : DriverOpen) (calls : Fat16MountCalls) (bpbBuf : UInt32)
    (state : MountState) (major minor : Int) : Int × MountState :=
  let (devId, devices) := deviceOpen driverOpen state.devices major minor
  let state := { state with devices }
  if devId < 0 then fat16MountFail state devId (.unset bpbBuf)
  else
    let state := state.alloc .bpbBuf calls.bpbBuf 4096
    if calls.bpbBuf = 0 then fat16MountFail state devId (.set calls.bpbBuf)
    else
      let state := state.read .bpbBuf 0 1
      if calls.bpbRead < 1 ∨ ¬ validateBpb calls.image then
        fat16MountFail state devId (.set calls.bpbBuf)
      else (0, state)

/-- How the calls that the mount functions make end. -/
structure MountCalls where
  driverOpen : DriverOpen
  fat16 : Fat16MountCalls
  ext2 : Ext2MountCalls

/-- What lay in the places of the local variables of `mount` and of the mount functions. -/
structure MountStack where
  fs : UInt32
  bpbBuf : UInt32
  ext2 : Ext2MountStack

/-- `fs->ops->mount`. -/
def FsOps.mount (calls : MountCalls) (stack : MountStack) (fuel : Nat) (state : MountState)
    (major minor : Int) : FsOps → Option (Int × MountState)
  | .devfs => some (0, state)
  | .fat16 => some (fat16Mount calls.driverOpen calls.fat16 stack.bpbBuf state major minor)
  | .ext2 => (ext2Mount calls.driverOpen calls.ext2 stack.ext2 fuel state major minor).map
      fun result => (result.err, result.state)

/-- What `mount` returns and leaves, and the pointers that it has linked into `free_fs`. -/
structure MountOutcome where
  fs : Option FsNode
  table : FsTable
  state : MountState
  queued : List PointerVar

/-- The end of `mount` behind the label `mount_fail`. -/
def mountFail (table : FsTable) (state : MountState) (fs : PointerVar) : MountOutcome :=
  if isPointer : fs.value ≠ 0 then
    ⟨none, { table with freeFs := table.freeFs ++ [⟨fs.value, isPointer⟩] }, state, [fs]⟩
  else ⟨none, table, state, []⟩

/-- `mount`.  Nothing is said of a type behind the end of `fs_ops_table`. -/
def mount (calls : MountCalls) (stack : MountStack) (fuel : Nat) (table : FsTable)
    (state : MountState) (type : Nat) (mountPoint : List UInt8) (major minor : Int) :
    Option MountOutcome :=
  match table.mountedByPath mountPoint with
  | some _ => some (mountFail table state (.unset stack.fs))
  | none =>
      match table.freeFs with
      | [] => some (mountFail table state (.unset stack.fs))
      | fs :: freeFs => do
          let table := table.take fs freeFs mountPoint
          match ← fsOpsTable[type]? with
          | none => some (mountFail table state (.set fs.val))
          | some ops =>
              let (err, state) ← ops.mount calls stack fuel state major minor
              if err ≠ 0 then some (mountFail table state (.set fs.val))
              else some ⟨some fs, table.enter fs type, state, []⟩

def PointerVar.IsSet : PointerVar → Prop
  | .unset _ => False
  | .set _ => True

def FreesSet (events : List MountEvent) : Prop :=
  ∀ ptr, .free ptr ∈ events → ptr.IsSet

/-- The devices are open as often as before, the blocks in use are the same, and only pointers
that were set have been freed. -/
structure MountState.Restored (before after : MountState) : Prop where
  devices : openCounts after.devices = openCounts before.devices
  heap : after.heap.Perm before.heap
  freed : FreesSet after.events

/-- A mount that failed has changed nothing. -/
structure MountOutcome.Undone (outcome : MountOutcome) (table : FsTable) (state : MountState) :
    Prop where
  freeFs : outcome.table.freeFs.Perm table.freeFs
  mountedFs : outcome.table.mountedFs.Perm table.mountedFs
  restored : state.Restored outcome.state
  queued : ∀ ptr ∈ outcome.queued, ptr.IsSet

/-- One node has moved from `free_fs` to `mounted_fs`. -/
structure MountOutcome.Moved (outcome : MountOutcome) (table : FsTable) (fs : FsNode) : Prop where
  freeFs : table.freeFs.Perm (fs :: outcome.table.freeFs)
  mountedFs : outcome.table.mountedFs.Perm (fs :: table.mountedFs)

/-- Whatever lay in the places of the variables, a mount that returns null has changed nothing,
and one that succeeds has moved one node.  A mount returns, unless `ext2_mount` divides by
zero. -/
structure MountClean (calls : MountCalls) (table : FsTable) (state : MountState) (type : Nat)
    (mountPoint : List UInt8) (major minor : Int) : Prop where
  returns : type ≠ fsExt2 → ∀ stack fuel,
    (mount calls stack fuel table state type mountPoint major minor).isSome = true
  undone : ∀ stack fuel outcome,
    mount calls stack fuel table state type mountPoint major minor = some outcome →
    outcome.fs = none → outcome.Undone table state
  moved : ∀ stack fuel outcome fs,
    mount calls stack fuel table state type mountPoint major minor = some outcome →
    outcome.fs = some fs → outcome.Moved table fs

/-- `ext2_mount` finds the device, the memory and the blocks that it asks for, and the signature
of the file system. -/
structure Ext2Found (calls : MountCalls) (devices : List DeviceSlot) (major minor : Int) :
    Prop where
  superBlock : ReadsSuperBlock calls.driverOpen calls.ext2 devices major minor
  groups : Divides (SuperBlock.ofBytes calls.ext2.image) →
    calls.ext2.blockGroups ≠ 0 ∧ 0 ≤ calls.ext2.tableRead ∧ calls.ext2.desc ≠ 0

/-- The mounts that undo what they have done: the mount point does not continue one in use, there
is a free node, the type is an index of `fs_ops_table`, the device of a FAT16 file system can be
opened, and an ext2 file system can be mounted. -/
structure Undoable (calls : MountCalls) (table : FsTable) (devices : List DeviceSlot)
    (type : Nat) (mountPoint : List UInt8) (major minor : Int) : Prop where
  notMounted : table.mountedByPath mountPoint = none
  hasNode : table.freeFs ≠ []
  isType : type < fsOpsTable.length
  fat16 : type = fsFat16 → 0 ≤ (deviceOpen calls.driverOpen devices major minor).1
  ext2 : type = fsExt2 → Ext2Found calls devices major minor

section Mount

variable {calls : MountCalls} {stack : MountStack} {fuel : Nat} {table : FsTable}
  {state : MountState} {type : Nat} {mountPoint : List UInt8} {major minor : Int}
  {fs : FsNode} {freeFs : List FsNode}

theorem mount_mounted (found : table.mountedByPath mountPoint = some fs) :
    mount calls stack fuel table state type mountPoint major minor =
      some (mountFail table state (.unset stack.fs)) := by
  unfold mount
  rw [found]

theorem mount_exhausted (notMounted : table.mountedByPath mountPoint = none)
    (noNode : table.freeFs = []) :
    mount calls stack fuel table state type mountPoint major minor =
      some (mountFail table state (.unset stack.fs)) := by
  unfold mount
  rw [notMounted, noNode]

theorem mount_take (notMounted : table.mountedByPath mountPoint = none)
    (nodes : table.freeFs = fs :: freeFs) :
    mount calls stack fuel table state type mountPoint major minor =
      fsOpsTable[type]?.bind fun ops? =>
        match ops? with
        | none => some (mountFail (table.take fs freeFs mountPoint) state (.set fs.val))
        | some ops => (ops.mount calls stack fuel state major minor).bind fun (err, state) =>
            if err ≠ 0 then
              some (mountFail (table.take fs freeFs mountPoint) state (.set fs.val))
            else some ⟨some fs, (table.take fs freeFs mountPoint).enter fs type, state, []⟩ := by
  unfold mount
  rw [notMounted, nodes]
  rfl

theorem mountFail_undone {after : MountState} (nodes : table.freeFs = fs :: freeFs)
    (restored : state.Restored after) :
    (mountFail (table.take fs freeFs mountPoint) after (.set fs.val)).Undone table state := by
  unfold mountFail
  rw [dif_pos (show (PointerVar.set fs.val).value ≠ 0 from fs.property)]
  refine ⟨?_, List.Perm.refl _, restored, ?_⟩
  · rw [nodes]
    exact List.perm_append_singleton fs freeFs
  · intro ptr member
    rw [List.mem_singleton.mp member]
    trivial

theorem enter_moved {after : MountState} (nodes : table.freeFs = fs :: freeFs) :
    MountOutcome.Moved ⟨some fs, (table.take fs freeFs mountPoint).enter fs type, after, []⟩
      table fs := by
  constructor
  · rw [nodes]
    exact List.Perm.refl _
  · exact List.perm_append_singleton fs table.mountedFs

theorem not_undone_of_unset (value : UInt32) (isPointer : value ≠ 0) {queue : FsTable}
    {after : MountState} :
    ¬ (mountFail queue after (.unset value)).Undone table state := by
  intro undone
  unfold mountFail at undone
  rw [dif_pos (show (PointerVar.unset value).value ≠ 0 from isPointer)] at undone
  exact undone.queued _ (List.mem_singleton_self _)

end Mount

section Buffers

variable {state : MountState} {buf : MountBuf} {addr size count : UInt32} {ptr : PointerVar}

theorem free_heap :
    (state.free ptr).heap =
      if ptr.value = 0 then state.heap else state.heap.erase ptr.value := by
  unfold MountState.free
  split
  · rfl
  · rfl

theorem free_alloc_heap : ((state.alloc buf addr size).free (.set addr)).heap = state.heap := by
  rw [free_heap]
  unfold MountState.alloc
  dsimp only [PointerVar.value]
  split
  · rfl
  · exact List.erase_cons_head addr state.heap

theorem free_read_heap :
    ((state.read buf addr count).free ptr).heap = (state.free ptr).heap := by
  rw [free_heap, free_heap]
  rfl

theorem free_devices : (state.free ptr).devices = state.devices := by
  unfold MountState.free
  split
  · rfl
  · rfl

theorem mem_free_self (isPointer : ptr.value ≠ 0) : .free ptr ∈ (state.free ptr).events := by
  unfold MountState.free
  rw [if_neg isPointer]
  exact List.mem_append_right _ (List.mem_singleton_self _)

theorem FreesSet.alloc (freed : FreesSet state.events) :
    FreesSet (state.alloc buf addr size).events := by
  intro other member
  rcases List.mem_append.mp member with before | now
  · exact freed other before
  · cases List.mem_singleton.mp now

theorem FreesSet.read (freed : FreesSet state.events) :
    FreesSet (state.read buf addr count).events := by
  intro other member
  rcases List.mem_append.mp member with before | now
  · exact freed other before
  · cases List.mem_singleton.mp now

theorem FreesSet.free (freed : FreesSet state.events) (isSet : ptr.IsSet) :
    FreesSet (state.free ptr).events := by
  intro other member
  unfold MountState.free at member
  split at member
  · exact freed other member
  · rcases List.mem_append.mp member with before | now
    · exact freed other before
    · cases List.mem_singleton.mp now
      exact isSet

end Buffers

section Fat16

variable {driverOpen : DriverOpen} {calls : Fat16MountCalls} {bpbBuf : UInt32}
  {devices : List DeviceSlot} {heap : List UInt32} {major minor : Int}

theorem fat16MountFail_restored {after : MountState} {ptr : PointerVar}
    (opened : 0 ≤ (deviceOpen driverOpen devices major minor).1)
    (sameDevices : after.devices = (deviceOpen driverOpen devices major minor).2)
    (sameHeap : (after.free ptr).heap = heap) (freed : FreesSet after.events)
    (isSet : ptr.IsSet) :
    MountState.Restored ⟨devices, heap, []⟩
      (fat16MountFail after (deviceOpen driverOpen devices major minor).1 ptr).2 := by
  unfold fat16MountFail
  rw [if_pos opened]
  constructor
  · rw [free_devices, sameDevices]
    exact deviceClose_deviceOpen opened
  · rw [free_heap] at sameHeap ⊢
    rw [sameHeap]
  · exact FreesSet.free freed isSet

theorem fat16Mount_restored (opened : 0 ≤ (deviceOpen driverOpen devices major minor).1) :
    (fat16Mount driverOpen calls bpbBuf ⟨devices, heap, []⟩ major minor).1 = 0 ∨
      MountState.Restored ⟨devices, heap, []⟩
        (fat16Mount driverOpen calls bpbBuf ⟨devices, heap, []⟩ major minor).2 := by
  have nothing : FreesSet [] := fun ptr member => nomatch member
  simp only [fat16Mount, if_neg (Int.not_lt.mpr opened)]
  by_cases noMemory : calls.bpbBuf = 0
  · rw [if_pos noMemory]
    exact Or.inr (fat16MountFail_restored opened rfl free_alloc_heap nothing.alloc trivial)
  · rw [if_neg noMemory]
    by_cases refused : calls.bpbRead < 1 ∨ ¬ validateBpb calls.image
    · rw [if_pos refused]
      refine Or.inr (fat16MountFail_restored opened rfl ?_ nothing.alloc.read trivial)
      rw [free_read_heap]
      exact free_alloc_heap
    · rw [if_neg refused]
      exact Or.inl rfl

theorem fat16Mount_unset (failed : (deviceOpen driverOpen devices major minor).1 < 0) :
    (fat16Mount driverOpen calls 1 ⟨devices, heap, []⟩ major minor).1 ≠ 0 ∧
      ¬ MountState.Restored ⟨devices, heap, []⟩
        (fat16Mount driverOpen calls 1 ⟨devices, heap, []⟩ major minor).2 := by
  simp only [fat16Mount, if_pos failed, fat16MountFail]
  refine ⟨by decide, fun restored => ?_⟩
  exact restored.freed _ (mem_free_self (show (PointerVar.unset 1).value ≠ 0 by decide))

end Fat16

section Ext2

variable {driverOpen : DriverOpen} {calls : Ext2MountCalls} {stack : Ext2MountStack}
  {fuel : Nat} {devices : List DeviceSlot} {heap : List UInt32} {major minor : Int}

theorem ext2MountFail_devices {state : MountState} {superBlock blockGroups desc : PointerVar} :
    (ext2MountFail state superBlock blockGroups desc).state.devices = state.devices := by
  unfold ext2MountFail
  rw [free_devices, free_devices, free_devices]

/-- A run of `ext2_mount` that fails has left the device open or has freed what lay in the place
of a variable. -/
structure LeavesTraces (result : Ext2MountResult) (devices : List DeviceSlot) (heap : List UInt32) :
    Prop where
  err : result.err ≠ 0
  traces : ¬ MountState.Restored ⟨devices, heap, []⟩ result.state

theorem ext2MountFail_traces {state : MountState} {superBlock blockGroups desc : PointerVar}
    (opened : 0 ≤ (deviceOpen driverOpen devices major minor).1)
    (sameDevices : state.devices = (deviceOpen driverOpen devices major minor).2) :
    LeavesTraces (ext2MountFail state superBlock blockGroups desc) devices heap := by
  refine ⟨(by decide : (-1 : Int) ≠ 0), fun restored => ?_⟩
  have same := restored.devices
  rw [ext2MountFail_devices, sameDevices] at same
  exact deviceOpen_counted opened same

/-- The part of `ext2_mount` that reads the group descriptors fails where it does not get what it
asks for. -/
theorem ext2MountGroups_traces {state : MountState} {devId : Int}
    (opened : 0 ≤ (deviceOpen driverOpen devices major minor).1)
    (sameDevices : state.devices = (deviceOpen driverOpen devices major minor).2)
    (divides : Divides (SuperBlock.ofBytes calls.image))
    (refused : ¬ (calls.blockGroups ≠ 0 ∧ 0 ≤ calls.tableRead ∧ calls.desc ≠ 0)) :
    ∃ result, ext2MountGroups calls stack fuel state devId = some result ∧
      LeavesTraces result devices heap := by
  rw [ext2MountGroups_eq divides]
  by_cases noTable : calls.blockGroups = 0
  · exact ⟨_, if_pos noTable, ext2MountFail_traces opened sameDevices⟩
  · simp only [if_neg noTable]
    by_cases failed : calls.tableRead < 0
    · exact ⟨_, if_pos failed, ext2MountFail_traces opened sameDevices⟩
    · simp only [if_neg failed]
      by_cases noDesc : calls.desc = 0
      · exact ⟨_, if_pos noDesc, ext2MountFail_traces opened sameDevices⟩
      · exact absurd ⟨noTable, Int.not_lt.mp failed, noDesc⟩ refused

theorem ext2MountGroups_err {state : MountState} {devId : Int} {result : Ext2MountResult}
    (found : calls.blockGroups ≠ 0 ∧ 0 ≤ calls.tableRead ∧ calls.desc ≠ 0)
    (returns : ext2MountGroups calls stack fuel state devId = some result) :
    result.err = 0 := by
  rw [ext2MountGroups_eq (divides_of_some returns)] at returns
  simp only [if_neg found.1, if_neg (Int.not_lt.mpr found.2.1), if_neg found.2.2] at returns
  obtain ⟨_, -, ends⟩ := Option.bind_eq_some_iff.mp returns
  cases ends
  rfl

end Ext2

section Undo

variable {calls : MountCalls} {stack : MountStack} {fuel : Nat} {table : FsTable}
  {devices : List DeviceSlot} {heap : List UInt32} {type : Nat} {mountPoint : List UInt8}
  {major minor : Int}

theorem ext2Mount_traces (refused : ¬ Ext2Found calls devices major minor) :
    ∃ result, ext2Mount calls.driverOpen calls.ext2 ⟨1, 1, 1⟩ fuel ⟨devices, heap, []⟩ major
      minor = some result ∧ LeavesTraces result devices heap := by
  rcases ext2Mount_cases calls.driverOpen calls.ext2 ⟨1, 1, 1⟩ fuel ⟨devices, heap, []⟩ major
    minor with ⟨-, returns⟩ | ⟨opened, -, returns⟩ | ⟨opened, -, -, returns⟩ | ⟨isRead, returns⟩
  · refine ⟨_, returns, (by decide : (-1 : Int) ≠ 0), fun restored => ?_⟩
    apply restored.freed (.unset 1)
    apply mem_free
    apply mem_free
    exact mem_free_self (by decide)
  · exact ⟨_, returns, ext2MountFail_traces opened rfl⟩
  · exact ⟨_, returns, ext2MountFail_traces opened rfl⟩
  · by_cases divides : Divides (SuperBlock.ofBytes calls.ext2.image)
    · rw [returns]
      exact ext2MountGroups_traces isRead.opened rfl divides fun found =>
        refused ⟨isRead, fun _ => found⟩
    · exact absurd ⟨isRead, fun again => absurd again divides⟩ refused

theorem Ext2Found.err (found : Ext2Found calls devices major minor) {stack : Ext2MountStack}
    {result : Ext2MountResult}
    (returns : ext2Mount calls.driverOpen calls.ext2 stack fuel ⟨devices, heap, []⟩ major minor =
      some result) : result.err = 0 := by
  rw [ext2Mount_of_reads found.superBlock] at returns
  exact ext2MountGroups_err (found.groups (divides_of_some returns)) returns

theorem fsOpsTable_eq {ops : FsOps} (isOps : fsOpsTable[type]? = some (some ops)) :
    (ops = .fat16 → type = fsFat16) ∧ (ops = .ext2 → type = fsExt2) := by
  have isType : type < 10 := (List.getElem?_eq_some_iff.mp isOps).1
  constructor
  · intro isFat16
    rw [isFat16] at isOps
    interval_cases type <;> revert isOps <;> decide
  · intro isExt2
    rw [isExt2] at isOps
    interval_cases type <;> revert isOps <;> decide

theorem Undoable.ops (undoable : Undoable calls table devices type mountPoint major minor)
    {ops : FsOps} (isOps : fsOpsTable[type]? = some (some ops)) :
    (type ≠ fsExt2 →
      (ops.mount calls stack fuel ⟨devices, heap, []⟩ major minor).isSome = true) ∧
    ∀ err after, ops.mount calls stack fuel ⟨devices, heap, []⟩ major minor = some (err, after) →
      err = 0 ∨ MountState.Restored ⟨devices, heap, []⟩ after := by
  have isType := fsOpsTable_eq isOps
  cases ops with
  | devfs =>
      refine ⟨fun _ => rfl, fun err after returns => ?_⟩
      cases returns
      exact Or.inl rfl
  | fat16 =>
      refine ⟨fun _ => rfl, fun err after returns => ?_⟩
      have restored := @fat16Mount_restored calls.driverOpen calls.fat16 stack.bpbBuf devices heap
        major minor (undoable.fat16 (isType.1 rfl))
      rw [Option.some.inj returns] at restored
      exact restored
  | ext2 =>
      refine ⟨fun notExt2 => absurd (isType.2 rfl) notExt2, fun err after returns => ?_⟩
      obtain ⟨result, run, same⟩ := Option.map_eq_some_iff.mp returns
      cases same
      exact Or.inl ((undoable.ext2 (isType.2 rfl)).err run)

/-- The ends of a mount that can be undone: its node goes back, or is linked into
`mounted_fs`. -/
theorem Undoable.ends (undoable : Undoable calls table devices type mountPoint major minor)
    {fs : FsNode} {freeFs : List FsNode} (nodes : table.freeFs = fs :: freeFs)
    (stack : MountStack) (fuel : Nat) :
    (type ≠ fsExt2 → (mount calls stack fuel table ⟨devices, heap, []⟩ type mountPoint major
      minor).isSome = true) ∧
    ∀ outcome,
      mount calls stack fuel table ⟨devices, heap, []⟩ type mountPoint major minor = some outcome →
      ∃ after, MountState.Restored ⟨devices, heap, []⟩ after ∧
          outcome = mountFail (table.take fs freeFs mountPoint) after (.set fs.val) ∨
        outcome = ⟨some fs, (table.take fs freeFs mountPoint).enter fs type, after, []⟩ := by
  obtain ⟨ops?, isType⟩ : ∃ ops?, fsOpsTable[type]? = some ops? :=
    ⟨_, List.getElem?_eq_getElem undoable.isType⟩
  rw [mount_take undoable.notMounted nodes, isType, Option.bind_some]
  cases ops? with
  | none =>
      refine ⟨fun _ => rfl, fun outcome returns => ⟨⟨devices, heap, []⟩, Or.inl ⟨?_, ?_⟩⟩⟩
      · exact ⟨rfl, List.Perm.refl _, fun ptr member => nomatch member⟩
      · exact (Option.some.inj returns).symm
  | some ops =>
      obtain ⟨isSome, undoes⟩ := @Undoable.ops calls stack fuel table devices heap type mountPoint
        major minor undoable ops isType
      dsimp only
      constructor
      · intro notExt2
        obtain ⟨⟨err, after⟩, run⟩ := Option.isSome_iff_exists.mp (isSome notExt2)
        rw [run, Option.bind_some]
        dsimp only
        split
        · rfl
        · rfl
      · intro outcome returns
        obtain ⟨⟨err, after⟩, run, ended⟩ := Option.bind_eq_some_iff.mp returns
        refine ⟨after, ?_⟩
        dsimp only at ended
        split at ended
        next failed =>
          rcases undoes err after run with succeeded | restored
          · exact absurd succeeded failed
          · exact Or.inl ⟨restored, (Option.some.inj ended).symm⟩
        next => exact Or.inr (Option.some.inj ended).symm

theorem mountFail_fs {state : MountState} {fs : PointerVar} :
    (mountFail table state fs).fs = none := by
  unfold mountFail
  split
  · rfl
  · rfl

theorem mountFail_state {state : MountState} {fs : PointerVar} :
    (mountFail table state fs).state = state := by
  unfold mountFail
  split
  · rfl
  · rfl

theorem Undoable.clean (undoable : Undoable calls table devices type mountPoint major minor) :
    MountClean calls table ⟨devices, heap, []⟩ type mountPoint major minor := by
  obtain ⟨fs, freeFs, nodes⟩ := List.exists_cons_of_ne_nil undoable.hasNode
  constructor
  · intro notExt2 stack fuel
    exact (undoable.ends nodes stack fuel).1 notExt2
  · intro stack fuel outcome returns failed
    rcases (undoable.ends nodes stack fuel).2 outcome returns with ⟨after, ⟨restored, rfl⟩ | rfl⟩
    · exact mountFail_undone nodes restored
    · cases failed
  · intro stack fuel outcome node returns succeeded
    rcases (undoable.ends nodes stack fuel).2 outcome returns with ⟨after, ⟨restored, rfl⟩ | rfl⟩
    · rw [mountFail_fs] at succeeded
      cases succeeded
    · cases succeeded
      exact enter_moved nodes

theorem MountClean.hasNode
    (clean : MountClean calls table ⟨devices, heap, []⟩ type mountPoint major minor) :
    table.mountedByPath mountPoint = none ∧ table.freeFs ≠ [] := by
  have notMounted : table.mountedByPath mountPoint = none := by
    cases found : table.mountedByPath mountPoint with
    | none => rfl
    | some fs =>
        have undone := clean.undone ⟨1, 0, ⟨0, 0, 0⟩⟩ 0 _ (mount_mounted found) mountFail_fs
        exact absurd undone (not_undone_of_unset 1 (by decide))
  refine ⟨notMounted, fun noNode => ?_⟩
  have undone := clean.undone ⟨1, 0, ⟨0, 0, 0⟩⟩ 0 _ (mount_exhausted notMounted noNode)
    mountFail_fs
  exact absurd undone (not_undone_of_unset 1 (by decide))

theorem MountClean.isType
    (clean : MountClean calls table ⟨devices, heap, []⟩ type mountPoint major minor) :
    type < fsOpsTable.length := by
  obtain ⟨notMounted, hasNode⟩ := clean.hasNode
  obtain ⟨fs, freeFs, nodes⟩ := List.exists_cons_of_ne_nil hasNode
  apply Nat.lt_of_not_le
  intro outside
  have notExt2 : type ≠ fsExt2 := by
    intro isExt2
    rw [isExt2] at outside
    exact absurd outside (by decide)
  have returns := clean.returns notExt2 ⟨0, 0, ⟨0, 0, 0⟩⟩ 0
  rw [mount_take notMounted nodes, List.getElem?_eq_none outside] at returns
  cases returns

theorem MountClean.fat16
    (clean : MountClean calls table ⟨devices, heap, []⟩ fsFat16 mountPoint major minor) :
    0 ≤ (deviceOpen calls.driverOpen devices major minor).1 := by
  obtain ⟨notMounted, hasNode⟩ := clean.hasNode
  obtain ⟨fs, freeFs, nodes⟩ := List.exists_cons_of_ne_nil hasNode
  apply Int.not_lt.mp
  intro failed
  obtain ⟨err, traces⟩ := @fat16Mount_unset calls.driverOpen calls.fat16 devices heap major minor
    failed
  have run : mount calls ⟨0, 1, ⟨0, 0, 0⟩⟩ 0 table ⟨devices, heap, []⟩ fsFat16 mountPoint major
      minor = some (mountFail (table.take fs freeFs mountPoint) (fat16Mount calls.driverOpen
        calls.fat16 1 ⟨devices, heap, []⟩ major minor).2 (.set fs.val)) := by
    rw [mount_take notMounted nodes]
    exact if_pos err
  have restored := (clean.undone _ _ _ run mountFail_fs).restored
  rw [mountFail_state] at restored
  exact traces restored

theorem MountClean.ext2
    (clean : MountClean calls table ⟨devices, heap, []⟩ fsExt2 mountPoint major minor) :
    Ext2Found calls devices major minor := by
  obtain ⟨notMounted, hasNode⟩ := clean.hasNode
  obtain ⟨fs, freeFs, nodes⟩ := List.exists_cons_of_ne_nil hasNode
  by_contra refused
  obtain ⟨result, returns, err, traces⟩ := @ext2Mount_traces calls 0 devices heap major minor
    refused
  have run : mount calls ⟨0, 0, ⟨1, 1, 1⟩⟩ 0 table ⟨devices, heap, []⟩ fsExt2 mountPoint major
      minor = some (mountFail (table.take fs freeFs mountPoint) result.state (.set fs.val)) := by
    rw [mount_take notMounted nodes]
    change ((Option.map _ (ext2Mount _ _ _ _ _ _ _)).bind _) = _
    rw [returns]
    exact if_pos err
  have restored := (clean.undone _ _ _ run mountFail_fs).restored
  rw [mountFail_state] at restored
  exact traces restored

/-- Mounts that change nothing where they fail, whatever lay in the places of their variables,
are those that can be undone. -/
theorem mountClean_iff (calls : MountCalls) (table : FsTable) (devices : List DeviceSlot)
    (heap : List UInt32) (type : Nat) (mountPoint : List UInt8) (major minor : Int) :
    MountClean calls table ⟨devices, heap, []⟩ type mountPoint major minor ↔
      Undoable calls table devices type mountPoint major minor := by
  refine ⟨fun clean => ?_, Undoable.clean⟩
  obtain ⟨notMounted, hasNode⟩ := clean.hasNode
  refine ⟨notMounted, hasNode, clean.isType, fun isFat16 => ?_, fun isExt2 => ?_⟩
  · rw [isFat16] at clean
    exact clean.fat16
  · rw [isExt2] at clean
    exact clean.ext2

/-- A table with one free node and one file system, mounted at `/dev`. -/
def devMounted : FsTable where
  freeFs := [⟨64, by decide⟩]
  mountedFs := [⟨32, by decide⟩]
  descs := fun _ => ⟨[0x2f, 0x64, 0x65, 0x76], 0⟩

def noDevice : MountCalls where
  driverOpen := fun _ _ => -1
  fat16 := ⟨0, 0, fun _ => 0⟩
  ext2 := succeedingCalls revisionZero

/-- A second mount at `/dev` links the value that lay in the place of `fs` into `free_fs`. -/
theorem mountClean_again :
    ¬ MountClean noDevice devMounted ⟨[⟨none, 0, 0⟩], [], []⟩ 0 [0x2f, 0x64, 0x65, 0x76] devTty
      0 := by
  intro clean
  have found : devMounted.mountedByPath [0x2f, 0x64, 0x65, 0x76] = some ⟨32, by decide⟩ := rfl
  have undone := clean.undone ⟨1, 0, ⟨0, 0, 0⟩⟩ 0 _ (mount_mounted found) mountFail_fs
  exact not_undone_of_unset 1 (by decide) undone

end Undo

end CleanOS.Fs
