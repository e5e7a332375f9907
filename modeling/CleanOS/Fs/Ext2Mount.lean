import CleanOS.Device.Devices
import CleanOS.Fs.Ext2

/-!
# Mounting an ext2 file system

`ext2_mount` of `kernel/fs/ext2.c` and the two functions that it logs with.  What they print
is left out, except for the divisions, which stop the kernel when the divisor is zero.
-/

namespace CleanOS.Fs

open CleanOS.Device

/-- A local variable that holds a pointer.  Before it is set, it holds what lay in its place. -/
inductive PointerVar
  | unset (value : UInt32)
  | set (value : UInt32)

def PointerVar.value : PointerVar → UInt32
  | .unset value => value
  | .set value => value

/-- The buffers of the mount functions, by the variables that hold them. -/
inductive MountBuf
  | superBlock
  | blockGroups
  | desc
  | bpbBuf

/-- What a mount function does to memory and to a device. -/
inductive MountEvent
  | alloc (buf : MountBuf) (addr size : UInt32)
  | read (buf : MountBuf) (addr count : UInt32)
  | free (ptr : PointerVar)

/-- What a mount function changes: the device table and the blocks of the kernel heap that are
in use, by their addresses.  The events are in the order in which they happen. -/
structure MountState where
  devices : List DeviceSlot
  heap : List UInt32
  events : List MountEvent

namespace MountState

def alloc (state : MountState) (buf : MountBuf) (addr size : UInt32) : MountState :=
  { state with
    heap := if addr = 0 then state.heap else addr :: state.heap
    events := state.events ++ [.alloc buf addr size] }

/-- `device_read`. -/
def read (state : MountState) (buf : MountBuf) (addr count : UInt32) : MountState :=
  { state with events := state.events ++ [.read buf addr count] }

def free (state : MountState) (ptr : PointerVar) : MountState :=
  if ptr.value = 0 then state
  else { state with heap := state.heap.erase ptr.value, events := state.events ++ [.free ptr] }

end MountState

def shortAt (bytes : Nat → UInt8) (offset : Nat) : UInt16 :=
  UInt16.ofNat ((bytes offset).toNat + 256 * (bytes (offset + 1)).toNat)

def SuperBlock.ofBytes (bytes : Nat → UInt8) : SuperBlock where
  inodeTotal := longAt bytes 0
  blocksTotal := longAt bytes 4
  unallocatedBlockCount := longAt bytes 12
  superBlockId := longAt bytes 20
  blockSizeKb := longAt bytes 24
  blocksPerGroup := longAt bytes 32
  inodesPerGroup := longAt bytes 40
  inodeSize := shortAt bytes 88

/-- `ext2_sig`. -/
def ext2Sig (bytes : Nat → UInt8) : UInt16 := shortAt bytes 56

/-- `EXT2_SIGNATURE`. -/
def ext2Signature : UInt16 := 0xef53

def quotient (dividend divisor : UInt32) : Option UInt32 :=
  if divisor = 0 then none else some (dividend / divisor)

/-- `up2`, which divides by the bound. -/
def up2Checked (origin bound : UInt32) : Option UInt32 :=
  if bound = 0 then none else some (up2 origin bound)

/-- The loop of `is_pow`. -/
def isPowLoop (y : UInt32) : (fuel : Nat) → UInt32 → Option Bool
  | 0, _ => none
  | fuel + 1, x =>
      let x := x / y
      if x = 1 then some true else if x = 0 then some false else isPowLoop y fuel x

/-- `is_pow`. -/
def isPow (fuel : Nat) (x y : UInt32) : Option Bool :=
  if x = 1 then some true else isPowLoop y fuel x

/-- `has_super_block`. -/
def hasSuperBlock (fuel : Nat) (i : UInt32) : Option Bool := do
  if i = 0 then return true
  if ← isPow fuel i 3 then return true
  if ← isPow fuel i 5 then return true
  isPow fuel i 7

/-- `log_ext2fs_info`: the blocks of inodes per group. -/
def logExt2fsInfo (superBlock : SuperBlock) : Option UInt32 := do
  let perBlock ← quotient (kbSize superBlock.blockSizeKb) superBlock.inodeSize.toUInt32
  quotient superBlock.inodesPerGroup perBlock

/-- `log_ext2_block_group_info`: the blocks of inodes, and whether the group has a super block. -/
def logExt2BlockGroupInfo (fuel : Nat) (i : UInt32) (superBlock : SuperBlock) :
    Option (UInt32 × Bool) := do
  let inodesBlocksPerGroup ←
    quotient (superBlock.inodesPerGroup * superBlock.inodeSize.toUInt32)
      (kbSize superBlock.blockSizeKb)
  let has ← hasSuperBlock fuel i
  return (inodesBlocksPerGroup, has)

/-- The loop of `ext2_mount` over the groups.  The comparison takes `i` as unsigned. -/
def logGroups (superBlock : SuperBlock) (blockGroupCount : UInt32) :
    (fuel : Nat) → (i : UInt32) → Option Unit
  | 0, _ => none
  | fuel + 1, i =>
      if i < blockGroupCount then do
        let _ ← logExt2BlockGroupInfo fuel i superBlock
        logGroups superBlock blockGroupCount fuel (i + 1)
      else some ()

/-- `sizeof(super_block_t) + sizeof(super_block_ext_t)`. -/
def superBlockBytes : UInt32 := 84 + 940

/-- `sizeof(block_group_desc_t)`. -/
def groupDescBytes : UInt32 := 32

/-- `sizeof(ext2_desc)`. -/
def ext2DescBytes : UInt32 := 12

/-- A call of `device_read` or of `device_write`, by the first sector and the number of
sectors. -/
structure DeviceRequest where
  write : Bool
  addr : UInt32
  count : UInt32

/-- The request that `block_read` makes. -/
def blockReadRequest (blockSize blockStart blockCount : UInt32) : DeviceRequest :=
  ⟨false, blockStart * blockSize / 512, blockCount * blockSize / 512⟩

/-- The request that `block_write` makes. -/
def blockWriteRequest (blockSize blockStart blockCount : UInt32) : DeviceRequest :=
  ⟨true, blockStart * blockSize / 512, blockCount * blockSize / 512⟩

/-- How the calls of one run of `ext2_mount` end: the addresses that `malloc` gives, what
`device_read` returns, and what it reads. -/
structure Ext2MountCalls where
  superBlock : UInt32
  superRead : Int
  image : Nat → UInt8
  blockGroups : UInt32
  tableRead : Int
  groups : Nat → BlockGroupDesc
  desc : UInt32

/-- What lay in the places of the variables of `ext2_mount` before. -/
structure Ext2MountStack where
  superBlock : UInt32
  blockGroups : UInt32
  desc : UInt32

/-- `ext2_desc`. -/
structure Ext2Desc where
  superBlock : SuperBlock
  blockGroups : Nat → BlockGroupDesc

/-- What `ext2_mount` returns, what it leaves, and the device and the descriptor that it enters
in the file system. -/
structure Ext2MountResult where
  err : Int
  state : MountState
  mounted : Option (Int × Ext2Desc)

/-- The end of `ext2_mount` behind the label `mount_fail`. -/
def ext2MountFail (state : MountState) (superBlock blockGroups desc : PointerVar) :
    Ext2MountResult :=
  ⟨-1, ((state.free superBlock).free blockGroups).free desc, none⟩

/-- The part of `ext2_mount` that reads the group descriptors. -/
def ext2MountGroups (calls : Ext2MountCalls) (stack : Ext2MountStack) (fuel : Nat)
    (state : MountState) (devId : Int) : Option Ext2MountResult := do
  let superBlock := SuperBlock.ofBytes calls.image
  let blockSize := kbSize superBlock.blockSizeKb
  let _ ← logExt2fsInfo superBlock
  let blockGroupCount ← quotient superBlock.inodeTotal superBlock.inodesPerGroup
  let size := groupDescBytes
  let tableSize ← up2Checked (size * blockGroupCount) blockSize
  let state := state.alloc .blockGroups calls.blockGroups tableSize
  if calls.blockGroups = 0 then
    return ext2MountFail state (.set calls.superBlock) (.set calls.blockGroups)
      (.unset stack.desc)
  let bgtBlockCount ← quotient (← up2Checked (blockGroupCount * size) blockSize) blockSize
  let request := blockReadRequest blockSize 2 bgtBlockCount
  let state := state.read .blockGroups request.addr request.count
  if calls.tableRead < 0 then
    return ext2MountFail state (.set calls.superBlock) (.set calls.blockGroups)
      (.unset stack.desc)
  let state := state.alloc .desc calls.desc ext2DescBytes
  if calls.desc = 0 then
    return ext2MountFail state (.set calls.superBlock) (.set calls.blockGroups)
      (.set calls.desc)
  logGroups superBlock blockGroupCount fuel 0
  return ⟨0, state, some (devId, ⟨superBlock, calls.groups⟩)⟩

/-- `ext2_mount`. -/
def ext2Mount (driverOpen : DriverOpen) (calls : Ext2MountCalls) (stack : Ext2MountStack)
    (fuel : Nat) (state : MountState) (major minor : Int) : Option Ext2MountResult :=
  let (devId, devices) := deviceOpen driverOpen state.devices major minor
  let state := { state with devices }
  if devId < 0 then
    some (ext2MountFail state (.unset stack.superBlock) (.unset stack.blockGroups)
      (.unset stack.desc))
  else
    let size := superBlockBytes
    let state := state.alloc .superBlock calls.superBlock size
    if calls.superBlock = 0 then
      some (ext2MountFail state (.set calls.superBlock) (.unset stack.blockGroups)
        (.unset stack.desc))
    else
      let state := state.read .superBlock (1024 / 512) (up2 size 512 / 512)
      if calls.superRead < 1 ∨ ext2Sig calls.image ≠ ext2Signature then
        some (ext2MountFail state (.set calls.superBlock) (.unset stack.blockGroups)
          (.unset stack.desc))
      else ext2MountGroups calls stack fuel state devId

def SuperBlock.tableSize (superBlock : SuperBlock) : Nat :=
  let blockSize := (kbSize superBlock.blockSizeKb).toNat
  let descs := superBlock.inodeTotal.toNat / superBlock.inodesPerGroup.toNat * 32
  (descs + blockSize - 1) / blockSize * blockSize

/-- As much is allocated for the table as it has, and no more is read into a buffer than was
allocated for it. -/
structure BuffersFit (image : Nat → UInt8) (events : List MountEvent) : Prop where
  table : ∀ addr size, .alloc .blockGroups addr size ∈ events →
    size.toNat = (SuperBlock.ofBytes image).tableSize
  reads : ∀ buf sector count, .read buf sector count ∈ events →
    ∃ addr size, .alloc buf addr size ∈ events ∧ addr ≠ 0 ∧ count.toNat * 512 ≤ size.toNat

/-- A run of `ext2_mount` that returns an error or a descriptor, with buffers of the right
sizes. -/
structure SafeMount (image : Nat → UInt8) (result : Ext2MountResult) : Prop where
  ends : result.err ≠ 0 ∨ result.mounted.isSome = true
  buffers : BuffersFit image result.state.events

/-- The super blocks that `ext2_mount` can work with. -/
structure Mountable (superBlock : SuperBlock) : Prop where
  inodeSize : superBlock.inodeSize ≠ 0
  inodeInBlock : superBlock.inodeSize.toNat ≤ (kbSize superBlock.blockSizeKb).toNat
  inodesPerGroup : superBlock.inodesPerGroup ≠ 0
  tableSize : superBlock.tableSize < 2 ^ 32

/-- The run gets to a super block with the signature. -/
structure ReadsSuperBlock (driverOpen : DriverOpen) (calls : Ext2MountCalls)
    (devices : List DeviceSlot) (major minor : Int) : Prop where
  opened : 0 ≤ (deviceOpen driverOpen devices major minor).1
  allocated : calls.superBlock ≠ 0
  isRead : 1 ≤ calls.superRead
  signature : ext2Sig calls.image = ext2Signature

variable {driverOpen : DriverOpen} {calls : Ext2MountCalls} {stack : Ext2MountStack}
  {fuel : Nat} {state : MountState} {devId : Int} {superBlock : SuperBlock}

theorem isPowLoop_isSome {y x : UInt32} (base : 1 < y.toNat) (enough : x.toNat < fuel) :
    (isPowLoop y fuel x).isSome = true := by
  induction fuel generalizing x with
  | zero => exact absurd enough (Nat.not_lt_zero _)
  | succ fuel ih =>
      rw [isPowLoop]
      by_cases one : x / y = 1
      · rw [if_pos one]
        rfl
      · rw [if_neg one]
        by_cases zero : x / y = 0
        · rw [if_pos zero]
          rfl
        · rw [if_neg zero]
          apply ih
          have positive : 0 < x.toNat := by
            apply Nat.pos_of_ne_zero
            intro isZero
            apply zero
            apply UInt32.toNat.inj
            rw [UInt32.toNat_div, isZero, Nat.zero_div]
            rfl
          have smaller : (x / y).toNat < x.toNat := by
            rw [UInt32.toNat_div]
            exact Nat.div_lt_self positive base
          omega

theorem hasSuperBlock_isSome {i : UInt32} (enough : i.toNat < fuel) :
    ∃ has, hasSuperBlock fuel i = some has := by
  have ends : ∀ y : UInt32, 1 < y.toNat → ∃ power, isPow fuel i y = some power := by
    intro y base
    rw [isPow]
    by_cases one : i = 1
    · exact ⟨true, if_pos one⟩
    · rw [if_neg one]
      exact Option.isSome_iff_exists.mp (isPowLoop_isSome base enough)
  obtain ⟨three, isThree⟩ := ends 3 (by decide)
  obtain ⟨five, isFive⟩ := ends 5 (by decide)
  obtain ⟨seven, isSeven⟩ := ends 7 (by decide)
  rw [hasSuperBlock]
  by_cases first : i = 0
  · exact ⟨true, by simp [first]⟩
  · cases three with
    | true => exact ⟨true, by simp [first, isThree]⟩
    | false =>
        cases five with
        | true => exact ⟨true, by simp [first, isThree, isFive]⟩
        | false => exact ⟨seven, by simp [first, isThree, isFive, isSeven]⟩

theorem logGroups_ends (blockSize : kbSize superBlock.blockSizeKb ≠ 0) {count i : UInt32}
    (enough : count.toNat - i.toNat + 2 ^ 32 < fuel) :
    logGroups superBlock count fuel i = some () := by
  induction fuel generalizing i with
  | zero => exact absurd enough (Nat.not_lt_zero _)
  | succ fuel ih =>
      rw [logGroups]
      by_cases more : i < count
      · rw [if_pos more]
        have inside : i.toNat < count.toNat := UInt32.lt_iff_toNat_lt.mp more
        have bound := count.toNat_lt
        obtain ⟨has, isHas⟩ := @hasSuperBlock_isSome fuel i (by omega)
        rw [logExt2BlockGroupInfo, quotient, if_neg blockSize, isHas]
        apply ih
        have next : (i + 1).toNat = i.toNat + 1 := by
          rw [UInt32.toNat_add]
          apply Nat.mod_eq_of_lt
          change i.toNat + 1 < _
          omega
        omega
      · rw [if_neg more]

theorem up2_toNat {origin bound : UInt32} (positive : bound ≠ 0)
    (fits : (origin.toNat + bound.toNat - 1) / bound.toNat * bound.toNat < 2 ^ 32) :
    (up2 origin bound).toNat = (origin.toNat + bound.toNat - 1) / bound.toNat * bound.toNat := by
  have boundPos : 0 < bound.toNat := by
    apply Nat.pos_of_ne_zero
    intro zero
    exact positive (UInt32.toNat.inj zero)
  have split := Nat.div_add_mod origin.toNat bound.toNat
  have modLt := Nat.mod_lt origin.toNat boundPos
  generalize isQuotient : origin.toNat / bound.toNat = quotient at split
  generalize isRest : origin.toNat % bound.toNat = rest at split modLt
  rw [up2]
  by_cases whole : rest = 0
  · have roundUp : (origin.toNat + bound.toNat - 1) / bound.toNat = quotient := by
      rw [← split, whole, Nat.add_zero, Nat.add_sub_assoc boundPos, Nat.mul_add_div boundPos,
        Nat.div_eq_of_lt (Nat.sub_lt boundPos Nat.one_pos), Nat.add_zero]
    have noRest : origin % bound = 0 := by
      apply UInt32.toNat.inj
      rw [UInt32.toNat_mod, isRest, whole]
      rfl
    rw [if_pos noRest, roundUp, ← split, whole, Nat.add_zero, Nat.mul_comm]
  · have roundUp : (origin.toNat + bound.toNat - 1) / bound.toNat = quotient + 1 := by
      have one : (rest + bound.toNat - 1) / bound.toNat = 1 := by
        apply Nat.div_eq_of_lt_le
        · omega
        · omega
      rw [← split, Nat.add_assoc, Nat.add_sub_assoc (by omega), Nat.mul_add_div boundPos, one]
    have hasRest : origin % bound ≠ 0 := by
      intro zero
      apply whole
      rw [← isRest, ← UInt32.toNat_mod, zero]
      rfl
    have down : (origin - origin % bound).toNat = bound.toNat * quotient := by
      rw [UInt32.toNat_sub_of_le _ _ (UInt32.le_iff_toNat_le.mpr (by
        rw [UInt32.toNat_mod]
        exact Nat.mod_le _ _)), UInt32.toNat_mod, isRest]
      omega
    rw [roundUp] at fits ⊢
    rw [if_neg hasRest, down2, UInt32.toNat_add, down]
    have whole : bound.toNat * quotient + bound.toNat = (quotient + 1) * bound.toNat := by
      rw [Nat.add_mul, Nat.one_mul, Nat.mul_comm]
    rw [whole]
    exact Nat.mod_eq_of_lt fits

def SuperBlock.groupCount (superBlock : SuperBlock) : UInt32 :=
  superBlock.inodeTotal / superBlock.inodesPerGroup

/-- The size that `ext2_mount` computes for the table. -/
def SuperBlock.groupsSize (superBlock : SuperBlock) : UInt32 :=
  up2 (groupDescBytes * superBlock.groupCount) (kbSize superBlock.blockSizeKb)

/-- None of the divisions that every mount makes is one by zero. -/
structure Divides (superBlock : SuperBlock) : Prop where
  blockSize : kbSize superBlock.blockSizeKb ≠ 0
  inodeSize : superBlock.inodeSize ≠ 0
  inodeInBlock : superBlock.inodeSize.toNat ≤ (kbSize superBlock.blockSizeKb).toNat
  inodesPerGroup : superBlock.inodesPerGroup ≠ 0

theorem quotient_eq_some {dividend divisor result : UInt32}
    (divides : quotient dividend divisor = some result) :
    divisor ≠ 0 ∧ result = dividend / divisor := by
  rw [quotient] at divides
  split at divides
  · cases divides
  · rename_i positive
    exact ⟨positive, (Option.some.inj divides).symm⟩

theorem inodeSize_toUInt32 (superBlock : SuperBlock) :
    superBlock.inodeSize.toUInt32 = 0 ↔ superBlock.inodeSize = 0 := by
  constructor
  · intro zero
    apply UInt16.toNat.inj
    exact congrArg UInt32.toNat zero
  · intro zero
    rw [zero]
    rfl

theorem logExt2fsInfo_isSome (superBlock : SuperBlock) :
    (∃ blocks, logExt2fsInfo superBlock = some blocks) ↔
      superBlock.inodeSize ≠ 0 ∧
        superBlock.inodeSize.toNat ≤ (kbSize superBlock.blockSizeKb).toNat := by
  have perBlock : superBlock.inodeSize ≠ 0 →
      (kbSize superBlock.blockSizeKb / superBlock.inodeSize.toUInt32 ≠ 0 ↔
        superBlock.inodeSize.toNat ≤ (kbSize superBlock.blockSizeKb).toNat) := by
    intro positive
    have sizePos : 0 < superBlock.inodeSize.toNat := by
      apply Nat.pos_of_ne_zero
      intro zero
      exact positive (UInt16.toNat.inj zero)
    rw [Ne, ← UInt32.toNat_inj, UInt32.toNat_div]
    change ¬ _ / superBlock.inodeSize.toNat = 0 ↔ _
    rw [Nat.div_eq_zero_iff]
    omega
  constructor
  · rintro ⟨blocks, logged⟩
    obtain ⟨result, first, second⟩ := Option.bind_eq_some_iff.mp logged
    obtain ⟨positive, rfl⟩ := quotient_eq_some first
    have size : superBlock.inodeSize ≠ 0 := fun zero =>
      positive ((inodeSize_toUInt32 superBlock).mpr zero)
    exact ⟨size, (perBlock size).mp (quotient_eq_some second).1⟩
  · rintro ⟨size, inBlock⟩
    have positive : ¬ superBlock.inodeSize.toUInt32 = 0 := fun zero =>
      size ((inodeSize_toUInt32 superBlock).mp zero)
    refine ⟨superBlock.inodesPerGroup /
      (kbSize superBlock.blockSizeKb / superBlock.inodeSize.toUInt32), ?_⟩
    rw [logExt2fsInfo, quotient, if_neg positive]
    exact if_neg ((perBlock size).mpr inBlock)

theorem ext2MountGroups_eq (divides : Divides (SuperBlock.ofBytes calls.image)) :
    ext2MountGroups calls stack fuel state devId =
      (let superBlock := SuperBlock.ofBytes calls.image
      let blockSize := kbSize superBlock.blockSizeKb
      let state := state.alloc .blockGroups calls.blockGroups superBlock.groupsSize
      if calls.blockGroups = 0 then
        some (ext2MountFail state (.set calls.superBlock) (.set calls.blockGroups)
          (.unset stack.desc))
      else
        let request := blockReadRequest blockSize 2 (superBlock.groupsSize / blockSize)
        let state := state.read .blockGroups request.addr request.count
        if calls.tableRead < 0 then
          some (ext2MountFail state (.set calls.superBlock) (.set calls.blockGroups)
            (.unset stack.desc))
        else
          let state := state.alloc .desc calls.desc ext2DescBytes
          if calls.desc = 0 then
            some (ext2MountFail state (.set calls.superBlock) (.set calls.blockGroups)
              (.set calls.desc))
          else (logGroups superBlock superBlock.groupCount fuel 0).bind fun _ =>
            some ⟨0, state, some (devId, ⟨superBlock, calls.groups⟩)⟩) := by
  obtain ⟨blocks, logged⟩ := (logExt2fsInfo_isSome (SuperBlock.ofBytes calls.image)).mpr
    ⟨divides.inodeSize, divides.inodeInBlock⟩
  simp only [ext2MountGroups, logged, quotient, up2Checked, if_neg divides.blockSize,
    if_neg divides.inodesPerGroup, SuperBlock.groupsSize, SuperBlock.groupCount,
    UInt32.mul_comm groupDescBytes, Option.bind_eq_bind, Option.bind_some, Option.pure_def]

namespace BuffersFit

variable {image : Nat → UInt8} {buf : MountBuf} {addr size sector count : UInt32}

theorem alloc (fit : BuffersFit image state.events)
    (isTable : buf = .blockGroups → size.toNat = (SuperBlock.ofBytes image).tableSize) :
    BuffersFit image (state.alloc buf addr size).events := by
  constructor
  · intro otherAddr otherSize member
    rcases List.mem_append.mp member with before | now
    · exact fit.table otherAddr otherSize before
    · cases List.mem_singleton.mp now
      exact isTable rfl
  · intro otherBuf otherSector otherCount member
    rcases List.mem_append.mp member with before | now
    · obtain ⟨otherAddr, otherSize, allocated, bound⟩ := fit.reads _ _ _ before
      exact ⟨otherAddr, otherSize, List.mem_append_left _ allocated, bound⟩
    · cases List.mem_singleton.mp now

theorem read (fit : BuffersFit image state.events)
    (allocated : .alloc buf addr size ∈ state.events) (hasAddr : addr ≠ 0)
    (bound : count.toNat * 512 ≤ size.toNat) :
    BuffersFit image (state.read buf sector count).events := by
  constructor
  · intro otherAddr otherSize member
    rcases List.mem_append.mp member with before | now
    · exact fit.table otherAddr otherSize before
    · cases List.mem_singleton.mp now
  · intro otherBuf otherSector otherCount member
    rcases List.mem_append.mp member with before | now
    · obtain ⟨otherAddr, otherSize, isAllocated, otherBound⟩ := fit.reads _ _ _ before
      exact ⟨otherAddr, otherSize, List.mem_append_left _ isAllocated, otherBound⟩
    · cases List.mem_singleton.mp now
      exact ⟨addr, size, List.mem_append_left _ allocated, hasAddr, bound⟩

theorem free {ptr : PointerVar} (fit : BuffersFit image state.events) :
    BuffersFit image (state.free ptr).events := by
  rw [MountState.free]
  split
  · exact fit
  · constructor
    · intro otherAddr otherSize member
      rcases List.mem_append.mp member with before | now
      · exact fit.table otherAddr otherSize before
      · cases List.mem_singleton.mp now
    · intro otherBuf otherSector otherCount member
      rcases List.mem_append.mp member with before | now
      · obtain ⟨otherAddr, otherSize, allocated, bound⟩ := fit.reads _ _ _ before
        exact ⟨otherAddr, otherSize, List.mem_append_left _ allocated, bound⟩
      · cases List.mem_singleton.mp now

theorem fail {superBlock blockGroups desc : PointerVar} (fit : BuffersFit image state.events) :
    SafeMount image (ext2MountFail state superBlock blockGroups desc) :=
  ⟨Or.inl (by decide : (-1 : Int) ≠ 0), fit.free.free.free⟩

end BuffersFit

theorem divides_of_some {result : Ext2MountResult}
    (returns : ext2MountGroups calls stack fuel state devId = some result) :
    Divides (SuperBlock.ofBytes calls.image) := by
  obtain ⟨blocks, logged, later⟩ := Option.bind_eq_some_iff.mp returns
  obtain ⟨count, counted, later⟩ := Option.bind_eq_some_iff.mp later
  obtain ⟨size, rounded, -⟩ := Option.bind_eq_some_iff.mp later
  have inodes := (logExt2fsInfo_isSome _).mp ⟨blocks, logged⟩
  refine ⟨?_, inodes.1, inodes.2, (quotient_eq_some counted).1⟩
  intro zero
  rw [up2Checked, if_pos zero] at rounded
  cases rounded

theorem Mountable.divides {superBlock : SuperBlock} (mountable : Mountable superBlock) :
    Divides superBlock := by
  refine ⟨?_, mountable.inodeSize, mountable.inodeInBlock, mountable.inodesPerGroup⟩
  intro zero
  have inBlock := mountable.inodeInBlock
  rw [zero] at inBlock
  exact mountable.inodeSize (UInt16.toNat.inj (Nat.le_zero.mp inBlock))

theorem le_roundUp (size : Nat) {bound : Nat} (positive : 0 < bound) :
    size ≤ (size + bound - 1) / bound * bound := by
  have split := Nat.div_add_mod (size + bound - 1) bound
  have rest := Nat.mod_lt (size + bound - 1) positive
  rw [Nat.mul_comm] at split
  omega

theorem Mountable.groupsSize {superBlock : SuperBlock} (mountable : Mountable superBlock) :
    superBlock.groupsSize.toNat = superBlock.tableSize := by
  have divides := mountable.divides
  have small := mountable.tableSize
  have blockPos : 0 < (kbSize superBlock.blockSizeKb).toNat := by
    apply Nat.pos_of_ne_zero
    intro zero
    exact divides.blockSize (UInt32.toNat.inj zero)
  have descs : (groupDescBytes * superBlock.groupCount).toNat =
      superBlock.inodeTotal.toNat / superBlock.inodesPerGroup.toNat * 32 := by
    rw [SuperBlock.groupCount, UInt32.toNat_mul, UInt32.toNat_div]
    change 32 * _ % _ = _
    rw [Nat.mul_comm]
    apply Nat.mod_eq_of_lt
    refine Nat.lt_of_le_of_lt ?_ small
    exact le_roundUp _ blockPos
  rw [SuperBlock.groupsSize, up2_toNat divides.blockSize]
  · rw [descs]
    rfl
  · rw [descs]
    exact small

theorem tableSectors_le (size blockSize : UInt32) :
    (size / blockSize * blockSize / 512).toNat * 512 ≤ size.toNat := by
  have whole : (size / blockSize * blockSize).toNat ≤ size.toNat := by
    rw [UInt32.toNat_mul, UInt32.toNat_div]
    exact Nat.le_trans (Nat.mod_le _ _) (Nat.div_mul_le_self _ _)
  rw [UInt32.toNat_div]
  exact Nat.le_trans (Nat.div_mul_le_self _ 512) whole

theorem ext2MountGroups_safe (mountable : Mountable (SuperBlock.ofBytes calls.image))
    (fit : BuffersFit calls.image state.events) (fuel : Nat) (enough : 2 ^ 33 ≤ fuel) :
    ∃ result, ext2MountGroups calls stack fuel state devId = some result ∧
      SafeMount calls.image result := by
  have divides := mountable.divides
  have table : BuffersFit calls.image (state.alloc .blockGroups calls.blockGroups
      (SuperBlock.ofBytes calls.image).groupsSize).events :=
    fit.alloc fun _ => mountable.groupsSize
  rw [ext2MountGroups_eq divides]
  by_cases noTable : calls.blockGroups = 0
  · exact ⟨_, if_pos noTable, table.fail⟩
  · have isRead := @BuffersFit.read _ _ _ _ _ (2 * kbSize (SuperBlock.ofBytes
      calls.image).blockSizeKb / 512) _ table (List.mem_append_right _ (List.mem_singleton_self _))
      noTable (tableSectors_le _ (kbSize (SuperBlock.ofBytes calls.image).blockSizeKb))
    simp only [if_neg noTable]
    by_cases failed : calls.tableRead < 0
    · exact ⟨_, if_pos failed, isRead.fail⟩
    · have desc := @BuffersFit.alloc _ _ .desc calls.desc ext2DescBytes isRead (fun isTable =>
        nomatch isTable)
      simp only [if_neg failed]
      by_cases noDesc : calls.desc = 0
      · exact ⟨_, if_pos noDesc, desc.fail⟩
      · have bound := (SuperBlock.ofBytes calls.image).groupCount.toNat_lt
        simp only [if_neg noDesc]
        rw [logGroups_ends divides.blockSize (by omega)]
        exact ⟨_, rfl, Or.inr rfl, desc⟩

theorem mem_free {event : MountEvent} (ptr : PointerVar) (member : event ∈ state.events) :
    event ∈ (state.free ptr).events := by
  rw [MountState.free]
  split
  · exact member
  · exact List.mem_append_left _ member

theorem mem_fail {event : MountEvent} (superBlock blockGroups desc : PointerVar)
    (member : event ∈ state.events) :
    event ∈ (ext2MountFail state superBlock blockGroups desc).state.events :=
  mem_free _ (mem_free _ (mem_free _ member))

theorem ext2MountGroups_alloc {result : Ext2MountResult}
    (returns : ext2MountGroups calls stack fuel state devId = some result) :
    .alloc .blockGroups calls.blockGroups (SuperBlock.ofBytes calls.image).groupsSize ∈
      result.state.events := by
  rw [ext2MountGroups_eq (divides_of_some returns)] at returns
  have now : .alloc .blockGroups calls.blockGroups (SuperBlock.ofBytes calls.image).groupsSize ∈
      (state.alloc .blockGroups calls.blockGroups
        (SuperBlock.ofBytes calls.image).groupsSize).events :=
    List.mem_append_right _ (List.mem_singleton_self _)
  simp only at returns
  split at returns
  · cases returns
    exact mem_fail _ _ _ now
  · split at returns
    · cases returns
      exact mem_fail _ _ _ (List.mem_append_left _ now)
    · split at returns
      · cases returns
        exact mem_fail _ _ _ (List.mem_append_left _ (List.mem_append_left _ now))
      · obtain ⟨_, -, ends⟩ := Option.bind_eq_some_iff.mp returns
        cases ends
        exact List.mem_append_left _ (List.mem_append_left _ now)

theorem mountable_of_safe {result : Ext2MountResult}
    (returns : ext2MountGroups calls stack fuel state devId = some result)
    (safe : SafeMount calls.image result) : Mountable (SuperBlock.ofBytes calls.image) := by
  have divides := divides_of_some returns
  refine ⟨divides.inodeSize, divides.inodeInBlock, divides.inodesPerGroup, ?_⟩
  rw [← safe.buffers.table _ _ (ext2MountGroups_alloc returns)]
  exact UInt32.toNat_lt _

def MountState.superBlockRead (state : MountState) (devices : List DeviceSlot)
    (addr : UInt32) : MountState :=
  MountState.read (MountState.alloc { state with devices } .superBlock addr superBlockBytes)
    .superBlock (1024 / 512) (up2 superBlockBytes 512 / 512)

variable {major minor : Int}

theorem ext2Mount_cases (driverOpen : DriverOpen) (calls : Ext2MountCalls)
    (stack : Ext2MountStack) (fuel : Nat) (state : MountState) (major minor : Int) :
    let (devId, devices) := deviceOpen driverOpen state.devices major minor
    let opened := { state with devices }
    devId < 0 ∧ ext2Mount driverOpen calls stack fuel state major minor =
        some (ext2MountFail opened (.unset stack.superBlock) (.unset stack.blockGroups)
          (.unset stack.desc)) ∨
      0 ≤ devId ∧ calls.superBlock = 0 ∧
        ext2Mount driverOpen calls stack fuel state major minor =
          some (ext2MountFail (opened.alloc .superBlock calls.superBlock superBlockBytes)
            (.set calls.superBlock) (.unset stack.blockGroups) (.unset stack.desc)) ∨
      0 ≤ devId ∧ calls.superBlock ≠ 0 ∧
        (calls.superRead < 1 ∨ ext2Sig calls.image ≠ ext2Signature) ∧
        ext2Mount driverOpen calls stack fuel state major minor =
          some (ext2MountFail (state.superBlockRead devices calls.superBlock)
            (.set calls.superBlock) (.unset stack.blockGroups) (.unset stack.desc)) ∨
      ReadsSuperBlock driverOpen calls state.devices major minor ∧
        ext2Mount driverOpen calls stack fuel state major minor =
          ext2MountGroups calls stack fuel (state.superBlockRead devices calls.superBlock)
            devId := by
  simp only [ext2Mount]
  by_cases failed : (deviceOpen driverOpen state.devices major minor).1 < 0
  · exact Or.inl ⟨failed, if_pos failed⟩
  · have opened := Int.not_lt.mp failed
    apply Or.inr
    rw [if_neg failed]
    by_cases noMemory : calls.superBlock = 0
    · exact Or.inl ⟨opened, noMemory, if_pos noMemory⟩
    · apply Or.inr
      rw [if_neg noMemory]
      by_cases refused : calls.superRead < 1 ∨ ext2Sig calls.image ≠ ext2Signature
      · exact Or.inl ⟨opened, noMemory, refused, if_pos refused⟩
      · apply Or.inr
        rw [if_neg refused]
        rw [not_or, not_not] at refused
        exact ⟨⟨opened, noMemory, Int.not_lt.mp refused.1, refused.2⟩, rfl⟩

theorem ext2Mount_of_reads
    (isRead : ReadsSuperBlock driverOpen calls state.devices major minor) :
    ext2Mount driverOpen calls stack fuel state major minor =
      ext2MountGroups calls stack fuel
        (state.superBlockRead (deviceOpen driverOpen state.devices major minor).2
          calls.superBlock)
        (deviceOpen driverOpen state.devices major minor).1 := by
  rcases ext2Mount_cases driverOpen calls stack fuel state major minor with
    ⟨failed, -⟩ | ⟨-, noMemory, -⟩ | ⟨-, -, refused, -⟩ | ⟨-, goesOn⟩
  · exact absurd isRead.opened (Int.not_le.mpr failed)
  · exact absurd noMemory isRead.allocated
  · rcases refused with failed | different
    · exact absurd isRead.isRead (Int.not_le.mpr failed)
    · exact absurd isRead.signature different
  · exact goesOn

theorem superBlockRead_fit {image : Nat → UInt8} (devices : List DeviceSlot) {addr : UInt32}
    (hasAddr : addr ≠ 0) (fit : BuffersFit image state.events) :
    BuffersFit image (state.superBlockRead devices addr).events := by
  have allocated : BuffersFit image
      (MountState.alloc { state with devices } .superBlock addr superBlockBytes).events :=
    @BuffersFit.alloc { state with devices } _ _ _ _ fit (fun isTable => nomatch isTable)
  apply allocated.read (List.mem_append_right _ (List.mem_singleton_self _)) hasAddr
  decide

theorem BuffersFit.nil (image : Nat → UInt8) : BuffersFit image [] := by
  constructor
  · intro _ _ member
    cases member
  · intro _ _ _ member
    cases member

theorem ext2Mount_of_not_reads {devices : List DeviceSlot} {heap : List UInt32}
    (notRead : ¬ ReadsSuperBlock driverOpen calls devices major minor) :
    ∃ result, ext2Mount driverOpen calls stack fuel ⟨devices, heap, []⟩ major minor =
      some result ∧ SafeMount calls.image result := by
  let opened : MountState := ⟨(deviceOpen driverOpen devices major minor).2, heap, []⟩
  have start : BuffersFit calls.image opened.events := .nil _
  rcases ext2Mount_cases driverOpen calls stack fuel ⟨devices, heap, []⟩ major minor with
    ⟨-, returns⟩ | ⟨-, -, returns⟩ | ⟨-, hasMemory, -, returns⟩ | ⟨isRead, -⟩
  · exact ⟨_, returns, start.fail⟩
  · refine ⟨_, returns, BuffersFit.fail ?_⟩
    exact start.alloc fun isTable => nomatch isTable
  · exact ⟨_, returns, (superBlockRead_fit _ hasMemory (.nil _)).fail⟩
  · exact absurd isRead notRead

/-- A mount returns an error or a descriptor, without a division by zero, with a table of the
right size and with room for what it reads, exactly when the super block, if it gets to one, is
one to work with. -/
theorem ext2Mount_safe_iff (driverOpen : DriverOpen) (calls : Ext2MountCalls)
    (stack : Ext2MountStack) (devices : List DeviceSlot) (heap : List UInt32)
    (major minor : Int) :
    (∃ fuel result, ext2Mount driverOpen calls stack fuel ⟨devices, heap, []⟩ major minor =
      some result ∧ SafeMount calls.image result) ↔
      (ReadsSuperBlock driverOpen calls devices major minor →
        Mountable (SuperBlock.ofBytes calls.image)) := by
  constructor
  · rintro ⟨fuel, result, returns, safe⟩ isRead
    rw [ext2Mount_of_reads isRead] at returns
    exact mountable_of_safe returns safe
  · intro mountable
    by_cases isRead : ReadsSuperBlock driverOpen calls devices major minor
    · have fit := @superBlockRead_fit ⟨devices, heap, []⟩ calls.image
        (deviceOpen driverOpen devices major minor).2 _ isRead.allocated (BuffersFit.nil _)
      obtain ⟨result, returns, safe⟩ :=
        ext2MountGroups_safe (mountable isRead) fit (2 ^ 33) (Nat.le_refl _)
      exact ⟨_, result, (ext2Mount_of_reads isRead).trans returns, safe⟩
    · obtain ⟨result, returns, safe⟩ := ext2Mount_of_not_reads isRead
      exact ⟨0, result, returns, safe⟩

/-- A super block of a file system of revision 0, which has no inode size: 16 inodes in one
group. -/
def revisionZero : Nat → UInt8
  | 0 => 16
  | 40 => 16
  | 56 => 0x53
  | 57 => 0xef
  | _ => 0

def succeedingCalls (image : Nat → UInt8) : Ext2MountCalls where
  superBlock := 4096
  superRead := 2
  image := image
  blockGroups := 8192
  tableRead := 2
  groups := fun _ => ⟨3, 4, 5, 0⟩
  desc := 12288

/-- Mounting a file system of revision 0 does not return: it divides by the inode size. -/
theorem ext2Mount_revisionZero :
    ext2Sig revisionZero = ext2Signature ∧
      ¬ ∃ fuel result, ext2Mount (fun _ _ => 0) (succeedingCalls revisionZero) ⟨0, 0, 0⟩ fuel
        ⟨[⟨none, 0, 0⟩], [], []⟩ devDisk 0x20 = some result ∧
          SafeMount revisionZero result := by
  refine ⟨by decide, ?_⟩
  rintro ⟨fuel, result, returns, -⟩
  have isRead : ReadsSuperBlock (fun _ _ => 0) (succeedingCalls revisionZero)
      [⟨none, 0, 0⟩] devDisk 0x20 := ⟨by decide, by decide, by decide, by decide⟩
  rw [ext2Mount_of_reads isRead] at returns
  exact (divides_of_some returns).inodeSize (by decide)

end CleanOS.Fs
