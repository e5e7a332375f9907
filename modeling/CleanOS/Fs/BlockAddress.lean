import CleanOS.Fs.Ext2Mount

/-!
# Where the blocks of an ext2 file system are

The sectors that `block_read` and `block_write` ask for, and the place where `ext2_mount` looks
for the group descriptors, against blocks of 1024 bytes times a power of two.
-/

namespace CleanOS.Fs

open CleanOS.Device

def DeviceRequest.Accesses (request : DeviceRequest) (sector : Nat) : Prop :=
  request.addr.toNat ≤ sector ∧ sector < request.addr.toNat + request.count.toNat

theorem blockAddr_eq (blockSize block : UInt32) :
    blockAddr blockSize block = (blockReadRequest blockSize block 1).addr.toNat * 512 :=
  rfl

theorem blockBytes_eq (blockSize block : UInt32) :
    blockBytes blockSize = (blockReadRequest blockSize block 1).count.toNat * 512 := by
  rw [blockReadRequest, UInt32.one_mul]
  rfl

/-- A request is for the sectors of the blocks from one on, where a block has `2 ^ (s + 1)`
sectors. -/
def ForBlocks (request : DeviceRequest) (s blockStart blockCount : Nat) : Prop :=
  ∀ sector, request.Accesses sector ↔
    blockStart * 2 ^ (s + 1) ≤ sector ∧ sector < (blockStart + blockCount) * 2 ^ (s + 1)

/-- The first sector of the block that follows the one with the super block, which is 1024 bytes
from the start. -/
def tableSector (s : Nat) : Nat :=
  (1024 / (1024 * 2 ^ s) + 1) * 2 ^ (s + 1)

def ReadsTableAt (result : Ext2MountResult) (sector : Nat) : Prop :=
  ∀ addr count, .read .blockGroups addr count ∈ result.state.events → addr.toNat = sector

/-- A mount gets to the table of the group descriptors. -/
structure ReadsTable (driverOpen : DriverOpen) (calls : Ext2MountCalls)
    (devices : List DeviceSlot) (major minor : Int) : Prop where
  superBlock : ReadsSuperBlock driverOpen calls devices major minor
  divides : Divides (SuperBlock.ofBytes calls.image)
  allocated : calls.blockGroups ≠ 0

variable {blockStart blockCount : UInt32} {s : Nat}

theorem kbSize_toNat {field : UInt32} (small : field.toNat ≤ 30) :
    (kbSize field).toNat = (field.toNat + 1) * 1024 := by
  rw [kbSize, UInt32.toNat_mul, UInt32.toNat_add]
  change (field.toNat + 1) % 4294967296 * 1024 % 4294967296 = _
  omega

theorem forBlocks_iff {request : DeviceRequest} {start count : Nat} (positive : 0 < count) :
    ForBlocks request s start count ↔
      request.addr.toNat = start * 2 ^ (s + 1) ∧ request.count.toNat = count * 2 ^ (s + 1) := by
  have size : 0 < count * 2 ^ (s + 1) := Nat.mul_pos positive (Nat.two_pow_pos _)
  rw [ForBlocks]
  simp only [DeviceRequest.Accesses, Nat.add_mul]
  generalize start * 2 ^ (s + 1) = first
  generalize count * 2 ^ (s + 1) = length at size
  constructor
  · intro same
    have low := same first
    have high := same (first + length - 1)
    have behind := same (first + length)
    have before := same request.addr.toNat
    have last := same (request.addr.toNat + request.count.toNat - 1)
    omega
  · rintro ⟨addr, count⟩ sector
    rw [addr, count]

theorem sectors_toNat (blockSize block : UInt32) :
    (block * blockSize / 512).toNat = block.toNat * blockSize.toNat % 2 ^ 32 / 512 := by
  rw [UInt32.toNat_div, UInt32.toNat_mul]
  rfl

theorem blockSectors_iff {field : UInt32} (small : field.toNat ≤ 1) (block : UInt32) :
    (block * kbSize field / 512).toNat = block.toNat * 2 ^ (field.toNat + 1) ↔
      block.toNat * 2 ^ (field.toNat + 1) < 2 ^ 23 := by
  have power : (field.toNat + 1) * 1024 = 2 ^ (field.toNat + 1) * 512 := by
    generalize field.toNat = s at small
    rcases Nat.le_one_iff_eq_zero_or_eq_one.mp small with rfl | rfl
    · rfl
    · rfl
  rw [sectors_toNat, kbSize_toNat (by omega), power, ← Nat.mul_assoc]
  omega

theorem linear_lt_pow (large : 2 ≤ s) : s + 1 < 2 ^ s := by
  induction large with
  | refl => decide
  | step _ ih => omega

theorem blockSectors_lt {field : UInt32} (large : 2 ≤ field.toNat) (bound : field.toNat ≤ 30)
    (positive : 0 < blockCount.toNat) :
    (blockCount * kbSize field / 512).toNat < blockCount.toNat * 2 ^ (field.toNat + 1) := by
  have power := linear_lt_pow large
  rw [sectors_toNat, kbSize_toNat bound]
  have smaller : blockCount.toNat * ((field.toNat + 1) * 2) <
      blockCount.toNat * 2 ^ (field.toNat + 1) :=
    Nat.mul_lt_mul_of_pos_left (by omega) positive
  have whole : blockCount.toNat * ((field.toNat + 1) * 1024) =
      blockCount.toNat * ((field.toNat + 1) * 2) * 512 := by
    rw [Nat.mul_assoc, Nat.mul_assoc]
  omega

variable {field : UInt32} {driverOpen : DriverOpen} {calls : Ext2MountCalls}
  {stack : Ext2MountStack} {devices : List DeviceSlot} {heap : List UInt32} {major minor : Int}

theorem field_le_of_onDevice (positive : 0 < blockCount.toNat)
    (onDevice : (blockStart.toNat + blockCount.toNat) * 2 ^ (field.toNat + 1) < 2 ^ 32) :
    field.toNat ≤ 30 := by
  by_contra large
  have power : 2 ^ 32 ≤ 2 ^ (field.toNat + 1) := Nat.pow_le_pow_right (by decide) (by omega)
  have whole : 2 ^ (field.toNat + 1) ≤
      (blockStart.toNat + blockCount.toNat) * 2 ^ (field.toNat + 1) :=
    Nat.le_mul_of_pos_left _ (by omega)
  omega

theorem blockRequest_iff (write : Bool)
    (onDevice : (blockStart.toNat + blockCount.toNat) * 2 ^ (field.toNat + 1) < 2 ^ 32) :
    ForBlocks ⟨write, blockStart * kbSize field / 512, blockCount * kbSize field / 512⟩
        field.toNat blockStart.toNat blockCount.toNat ↔
      blockCount = 0 ∨ field.toNat ≤ 1 ∧ blockStart.toNat * 2 ^ (field.toNat + 1) < 2 ^ 23 ∧
        blockCount.toNat * 2 ^ (field.toNat + 1) < 2 ^ 23 := by
  by_cases empty : blockCount = 0
  · subst empty
    refine iff_of_true ?_ (Or.inl rfl)
    intro sector
    have none : ((0 : UInt32) * kbSize field / 512).toNat = 0 := by
      rw [UInt32.zero_mul]
      rfl
    change _ ≤ sector ∧ sector < _ + ((0 : UInt32) * kbSize field / 512).toNat ↔
      _ ≤ sector ∧ sector < (blockStart.toNat + 0) * _
    simp only [none, Nat.add_zero]
    omega
  · have positive : 0 < blockCount.toNat := by
      apply Nat.pos_of_ne_zero
      intro zero
      exact empty (UInt32.toNat.inj zero)
    have bound := field_le_of_onDevice positive onDevice
    rw [forBlocks_iff positive]
    by_cases small : field.toNat ≤ 1
    · rw [blockSectors_iff small, blockSectors_iff small]
      simp only [empty, small, false_or, true_and]
    · have short := blockSectors_lt (Nat.lt_of_not_le small) bound positive
      refine iff_of_false ?_ ?_
      · rintro ⟨-, count⟩
        exact Nat.ne_of_lt short count
      · rintro (none | ⟨little, -⟩)
        · exact empty none
        · exact small little

theorem tableSector_iff (field : UInt32) :
    (2 * kbSize field / 512).toNat = tableSector field.toNat ↔ field = 0 ∨ field.toNat = 3 := by
  have zero : field = 0 ↔ field.toNat = 0 := by
    rw [← UInt32.toNat_inj]
    rfl
  rw [zero]
  by_cases small : field.toNat < 31
  · rw [sectors_toNat, kbSize_toNat (by omega)]
    revert small
    generalize field.toNat = s
    revert s
    decide
  · have power : 2 ^ 32 ≤ 2 ^ (field.toNat + 1) := Nat.pow_le_pow_right (by decide) (by omega)
    have sector : 2 ^ (field.toNat + 1) ≤ tableSector field.toNat :=
      Nat.le_mul_of_pos_left _ (Nat.succ_pos _)
    have word := (2 * kbSize field / 512).toNat_lt
    omega

section Reads

variable {state : MountState} {buf other : MountBuf} {addr size sector count : UInt32}
  {otherSector otherCount : UInt32} {ptr : PointerVar}

@[simp] theorem read_mem_alloc :
    .read buf sector count ∈ (state.alloc other addr size).events ↔
      .read buf sector count ∈ state.events := by
  simp [MountState.alloc]

@[simp] theorem read_mem_read :
    .read buf sector count ∈ (state.read other otherSector otherCount).events ↔
      .read buf sector count ∈ state.events ∨
        buf = other ∧ sector = otherSector ∧ count = otherCount := by
  simp [MountState.read]

@[simp] theorem read_mem_free :
    .read buf sector count ∈ (state.free ptr).events ↔ .read buf sector count ∈ state.events := by
  rw [MountState.free]
  split
  · rfl
  · simp

@[simp] theorem read_mem_fail {superBlock blockGroups desc : PointerVar} :
    .read buf sector count ∈ (ext2MountFail state superBlock blockGroups desc).state.events ↔
      .read buf sector count ∈ state.events := by
  simp [ext2MountFail]

end Reads

theorem ext2MountGroups_reads {state : MountState} {devId : Int} {fuel : Nat}
    {result : Ext2MountResult}
    (returns : ext2MountGroups calls stack fuel state devId = some result)
    (notBefore : ∀ addr count, .read .blockGroups addr count ∉ state.events)
    (addr count : UInt32) :
    .read .blockGroups addr count ∈ result.state.events ↔ calls.blockGroups ≠ 0 ∧
      addr = 2 * kbSize (SuperBlock.ofBytes calls.image).blockSizeKb / 512 ∧
        count = (SuperBlock.ofBytes calls.image).groupsSize /
          kbSize (SuperBlock.ofBytes calls.image).blockSizeKb *
            kbSize (SuperBlock.ofBytes calls.image).blockSizeKb / 512 := by
  rw [ext2MountGroups_eq (divides_of_some returns)] at returns
  simp only at returns
  split at returns
  · rename_i noTable
    cases returns
    simp [notBefore, noTable]
  · rename_i table
    split at returns
    · cases returns
      simp [notBefore, table, blockReadRequest]
    · split at returns
      · cases returns
        simp [notBefore, table, blockReadRequest]
      · obtain ⟨_, -, ends⟩ := Option.bind_eq_some_iff.mp returns
        cases ends
        simp [notBefore, table, blockReadRequest]

theorem ext2MountGroups_returns (divides : Divides (SuperBlock.ofBytes calls.image))
    (state : MountState) (devId : Int) :
    ∃ result, ext2MountGroups calls stack (2 ^ 33) state devId = some result := by
  rw [ext2MountGroups_eq divides]
  have bound := (SuperBlock.ofBytes calls.image).groupCount.toNat_lt
  simp only
  split
  · exact ⟨_, rfl⟩
  · split
    · exact ⟨_, rfl⟩
    · split
      · exact ⟨_, rfl⟩
      · rw [logGroups_ends divides.blockSize (by omega)]
        exact ⟨_, rfl⟩

theorem readsTableAt_iff (sector : Nat) :
    (∀ fuel result, ext2Mount driverOpen calls stack fuel ⟨devices, heap, []⟩ major minor =
        some result → ReadsTableAt result sector) ↔
      (ReadsTable driverOpen calls devices major minor →
        (2 * kbSize (SuperBlock.ofBytes calls.image).blockSizeKb / 512).toNat = sector) := by
  have notBefore : ∀ addr count, .read .blockGroups addr count ∉
      (MountState.superBlockRead ⟨devices, heap, []⟩
        (deviceOpen driverOpen devices major minor).2 calls.superBlock).events := by
    intro addr count
    simp [MountState.superBlockRead]
  constructor
  · intro always reads
    obtain ⟨result, returns⟩ := @ext2MountGroups_returns calls stack reads.divides
      (MountState.superBlockRead ⟨devices, heap, []⟩
        (deviceOpen driverOpen devices major minor).2 calls.superBlock)
      (deviceOpen driverOpen devices major minor).1
    have member := (ext2MountGroups_reads returns notBefore _ _).mpr ⟨reads.allocated, rfl, rfl⟩
    exact always _ result ((ext2Mount_of_reads reads.superBlock).trans returns) _ _ member
  · intro right fuel result returns addr count member
    rcases ext2Mount_cases driverOpen calls stack fuel ⟨devices, heap, []⟩ major minor with
      ⟨-, failed⟩ | ⟨-, -, failed⟩ | ⟨-, -, -, failed⟩ | ⟨isRead, goesOn⟩
    · cases failed.symm.trans returns
      simp at member
    · cases failed.symm.trans returns
      simp at member
    · cases failed.symm.trans returns
      exact absurd (read_mem_fail.mp member) (notBefore addr count)
    · rw [goesOn] at returns
      obtain ⟨allocated, rfl, -⟩ := (ext2MountGroups_reads returns notBefore _ _).mp member
      exact right ⟨isRead, divides_of_some returns, allocated⟩

/-- What the driver is to do with blocks: reads and writes are for the sectors of the blocks, and
a mount reads the group descriptors from the block behind the one with the super block. -/
structure BlockAddressing (driverOpen : DriverOpen) (calls : Ext2MountCalls)
    (stack : Ext2MountStack) (devices : List DeviceSlot) (heap : List UInt32)
    (major minor : Int) (blockStart blockCount : UInt32) : Prop where
  reads : ForBlocks (blockReadRequest (kbSize (SuperBlock.ofBytes calls.image).blockSizeKb)
    blockStart blockCount) (SuperBlock.ofBytes calls.image).blockSizeKb.toNat blockStart.toNat
    blockCount.toNat
  writes : ForBlocks (blockWriteRequest (kbSize (SuperBlock.ofBytes calls.image).blockSizeKb)
    blockStart blockCount) (SuperBlock.ofBytes calls.image).blockSizeKb.toNat blockStart.toNat
    blockCount.toNat
  table : ∀ fuel result, ext2Mount driverOpen calls stack fuel ⟨devices, heap, []⟩ major minor =
    some result → ReadsTableAt result
      (tableSector (SuperBlock.ofBytes calls.image).blockSizeKb.toNat)

/-- Blocks are addressed right when there are none or when they are of at most 2048 bytes and
below 4 GiB; the group descriptors are read from the right place for the logarithms 0 and 3
only. -/
theorem blockAddressing_iff (driverOpen : DriverOpen) (calls : Ext2MountCalls)
    (stack : Ext2MountStack) (devices : List DeviceSlot) (heap : List UInt32)
    (major minor : Int) (blockStart blockCount : UInt32)
    (onDevice : (blockStart.toNat + blockCount.toNat) *
      2 ^ ((SuperBlock.ofBytes calls.image).blockSizeKb.toNat + 1) < 2 ^ 32) :
    BlockAddressing driverOpen calls stack devices heap major minor blockStart blockCount ↔
      (blockCount = 0 ∨ (SuperBlock.ofBytes calls.image).blockSizeKb.toNat ≤ 1 ∧
        blockStart.toNat * 2 ^ ((SuperBlock.ofBytes calls.image).blockSizeKb.toNat + 1) < 2 ^ 23 ∧
        blockCount.toNat * 2 ^ ((SuperBlock.ofBytes calls.image).blockSizeKb.toNat + 1) <
          2 ^ 23) ∧
      (ReadsTable driverOpen calls devices major minor →
        (SuperBlock.ofBytes calls.image).blockSizeKb = 0 ∨
          (SuperBlock.ofBytes calls.image).blockSizeKb.toNat = 3) := by
  constructor
  · rintro ⟨reads, -, table⟩
    refine ⟨(blockRequest_iff false onDevice).mp reads, fun isRead => ?_⟩
    exact (tableSector_iff _).mp ((readsTableAt_iff _).mp table isRead)
  · rintro ⟨blocks, table⟩
    refine ⟨(blockRequest_iff false onDevice).mpr blocks,
      (blockRequest_iff true onDevice).mpr blocks, ?_⟩
    exact (readsTableAt_iff _).mpr fun isRead => (tableSector_iff _).mpr (table isRead)

def oneGroup (blockSizeKb : UInt8) : Nat → UInt8
  | 0 => 16
  | 24 => blockSizeKb
  | 40 => 16
  | 56 => 0x53
  | 57 => 0xef
  | 88 => 128
  | _ => 0

theorem blockAddressing_oneKb :
    BlockAddressing (fun _ _ => 0) (succeedingCalls (oneGroup 0)) ⟨0, 0, 0⟩ [⟨none, 0, 0⟩] []
      devDisk 0x20 3 2 :=
  (blockAddressing_iff (fun _ _ => 0) (succeedingCalls (oneGroup 0)) ⟨0, 0, 0⟩ [⟨none, 0, 0⟩] []
    devDisk 0x20 3 2 (by decide)).mpr
      ⟨Or.inr ⟨by decide, by decide, by decide⟩, fun _ => Or.inl (by decide)⟩

/-- Blocks of 4096 bytes are read as if they had 3072. -/
theorem blockAddressing_fourKb :
    (1 + 1) * 2 ^ ((SuperBlock.ofBytes (oneGroup 2)).blockSizeKb.toNat + 1) < 2 ^ 32 ∧
      ¬ BlockAddressing (fun _ _ => 0) (succeedingCalls (oneGroup 2)) ⟨0, 0, 0⟩
        [⟨none, 0, 0⟩] [] devDisk 0x20 1 1 := by
  refine ⟨by decide, fun right => ?_⟩
  have last := (right.reads 15).mpr ⟨by decide, by decide⟩
  exact absurd last.2 (by decide)

end CleanOS.Fs
