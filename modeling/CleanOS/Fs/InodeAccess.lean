import CleanOS.Fs.Ext2Image
import Mathlib.Data.Finset.Card

/-!
# Reading and writing single inodes

`rw_inode` of `kernel/fs/ext2.c` with calls that may fail, for every block size that `kb_size`
gives.  An inode in memory is the sequence of bytes from its address on.
-/

namespace CleanOS.Fs

/-- How the calls in one run of `rw_inode` end: whether there is memory, what the device functions
return, and the device that a failed write leaves. -/
structure InodeCalls where
  allocated : Bool
  readSize : Int
  writeSize : Int
  failedDisk : Nat → UInt8

def InodeCalls.Succeed (calls : InodeCalls) (write : Bool) : Prop :=
  calls.allocated = true ∧ 0 < calls.readSize ∧ (write = true → 0 < calls.writeSize)

/-- What `rw_inode` returns and leaves. -/
structure InodeAccess where
  err : Int
  volume : Ext2
  inode : Nat → UInt8

namespace Ext2

/-- `rw_inode`. -/
def rwInodeCalls (volume : Ext2) (calls : InodeCalls) (inodeIdx : UInt32) (inode : Nat → UInt8)
    (write : Bool) : InodeAccess :=
  let (inodeBlockIdx, inodeOffset) := volume.inodePlace inodeIdx
  let bufSize := max volume.superBlock.inodeSize.toUInt32 volume.blockSize
  let copied := min bufSize.toNat inodeBytes
  if calls.allocated = false then ⟨-1, volume, inode⟩
  else if calls.readSize ≤ 0 then ⟨-1, volume, inode⟩
  else
    let inodeBuf := blockRead volume.disk volume.blockSize inodeBlockIdx
    if write then
      let inodeBuf := copyInto inodeBuf inodeOffset.toNat copied inode
      if calls.writeSize ≤ 0 then ⟨-1, { volume with disk := calls.failedDisk }, inode⟩
      else
        ⟨0, { volume with disk := blockWrite volume.disk volume.blockSize inodeBuf inodeBlockIdx },
          inode⟩
    else ⟨0, volume, copyInto inode 0 copied fun pos => inodeBuf (inodeOffset.toNat + pos)⟩

def Numbered (volume : Ext2) (inodeIdx : UInt32) : Prop :=
  1 ≤ inodeIdx.toNat ∧ inodeIdx.toNat ≤ volume.superBlock.inodeTotal.toNat

def tableAddr (volume : Ext2) (group : Nat) : Nat :=
  (volume.blockGroups group).inodeTable.toNat * volume.blockSize.toNat

def tableBytes (volume : Ext2) : Nat :=
  volume.superBlock.inodesPerGroup.toNat * volume.superBlock.inodeSize.toNat

def HasGroup (volume : Ext2) (group : Nat) : Prop :=
  group * volume.superBlock.inodesPerGroup.toNat < volume.superBlock.inodeTotal.toNat

/-- The inodes have room in tables below 4 GiB, which do not overlap. -/
structure TablesFit (volume : Ext2) : Prop where
  blockSize : 0 < volume.blockSize.toNat
  inodeSize : inodeBytes ≤ volume.superBlock.inodeSize.toNat
  wholeInodes : volume.superBlock.inodeSize.toNat ∣ volume.blockSize.toNat
  inodesPerGroup : 0 < volume.superBlock.inodesPerGroup.toNat
  low : ∀ group, volume.HasGroup group →
    volume.tableAddr group + volume.tableBytes ≤ 2 ^ 32
  apart : ∀ group other, volume.HasGroup group → volume.HasGroup other → group ≠ other →
    volume.tableAddr group + volume.tableBytes ≤ volume.tableAddr other ∨
      volume.tableAddr other + volume.tableBytes ≤ volume.tableAddr group

def inodeStart (volume : Ext2) (inodeIdx : UInt32) : Nat :=
  volume.tableAddr (volume.inodeGroup inodeIdx) +
    volume.inodeInGroup inodeIdx * volume.superBlock.inodeSize.toNat

variable {volume : Ext2} {calls : InodeCalls} {inodeIdx other : UInt32} {inode : Nat → UInt8}

theorem sectors_blockSize (volume : Ext2) : 512 ∣ volume.blockSize.toNat := by
  rw [blockSize, kbSize, UInt32.toNat_mul]
  change 512 ∣ (volume.superBlock.blockSizeKb + 1).toNat * 1024 % 4294967296
  omega

theorem block_add_offset (table start size : Nat) :
    (start / size + table) * size + start % size = table * size + start := by
  have division := Nat.div_add_mod start size
  rw [Nat.add_mul, Nat.mul_comm (start / size)]
  omega

theorem blockAddr_low {block : UInt32}
    (low : block.toNat * volume.blockSize.toNat < 2 ^ 32) :
    blockAddr volume.blockSize block = block.toNat * volume.blockSize.toNat := by
  have sectors : 512 ∣ block.toNat * volume.blockSize.toNat :=
    Nat.dvd_mul_left_of_dvd volume.sectors_blockSize _
  rw [blockAddr, UInt32.toNat_div, UInt32.toNat_mul, Nat.mod_eq_of_lt low]
  exact Nat.div_mul_cancel sectors

theorem blockBytes_blockSize (volume : Ext2) :
    blockBytes volume.blockSize = volume.blockSize.toNat := by
  rw [blockBytes, UInt32.toNat_div]
  exact Nat.div_mul_cancel volume.sectors_blockSize

namespace TablesFit

theorem index_lt (fit : volume.TablesFit) :
    volume.inodeInGroup inodeIdx < volume.superBlock.inodesPerGroup.toNat :=
  Nat.mod_lt _ fit.inodesPerGroup

theorem hasGroup (numbered : volume.Numbered inodeIdx) :
    volume.HasGroup (volume.inodeGroup inodeIdx) := by
  have below := Nat.div_mul_le_self (inodeIdx.toNat - 1) volume.superBlock.inodesPerGroup.toNat
  have isNumber := numbered
  rw [Numbered] at isNumber
  rw [HasGroup, inodeGroup]
  omega

theorem inTable (fit : volume.TablesFit) (inodeIdx : UInt32) :
    volume.inodeInGroup inodeIdx * volume.superBlock.inodeSize.toNat +
      volume.superBlock.inodeSize.toNat ≤ volume.tableBytes := by
  rw [tableBytes, ← Nat.succ_mul]
  exact Nat.mul_le_mul_right _ (fit.index_lt)

theorem inBlock (fit : volume.TablesFit) (inodeIdx : UInt32) :
    volume.inodeInGroup inodeIdx * volume.superBlock.inodeSize.toNat % volume.blockSize.toNat +
      volume.superBlock.inodeSize.toNat ≤ volume.blockSize.toNat := by
  obtain ⟨inodes, isWhole⟩ := fit.wholeInodes
  have positive := fit.blockSize
  rw [isWhole] at positive ⊢
  have some : 0 < inodes := Nat.pos_of_mul_pos_left positive
  rw [Nat.mul_comm, Nat.mul_mod_mul_left, ← Nat.mul_succ]
  exact Nat.mul_le_mul_left _ (Nat.mod_lt _ some)

theorem inodeStart_low (fit : volume.TablesFit) (numbered : volume.Numbered inodeIdx) :
    volume.inodeStart inodeIdx + volume.superBlock.inodeSize.toNat ≤ 2 ^ 32 := by
  have low := fit.low _ (hasGroup numbered)
  have inside := fit.inTable inodeIdx
  rw [inodeStart]
  omega

theorem inodePlace (fit : volume.TablesFit) (numbered : volume.Numbered inodeIdx) :
    blockAddr volume.blockSize (volume.inodePlace inodeIdx).1 +
        (volume.inodePlace inodeIdx).2.toNat = volume.inodeStart inodeIdx ∧
      (volume.inodePlace inodeIdx).2.toNat + volume.superBlock.inodeSize.toNat ≤
        volume.blockSize.toNat := by
  have positive := fit.blockSize
  have start := fit.inodeStart_low numbered
  have inodeSize : 128 ≤ volume.superBlock.inodeSize.toNat := fit.inodeSize
  have inBlock := fit.inBlock inodeIdx
  have toNat_idx : (inodeIdx - 1).toNat = inodeIdx.toNat - 1 :=
    UInt32.toNat_sub_of_le _ _ (UInt32.le_iff_toNat_le.mpr numbered.1)
  have toNat_group : ((inodeIdx - 1) / volume.superBlock.inodesPerGroup).toNat =
      volume.inodeGroup inodeIdx := by
    rw [UInt32.toNat_div, toNat_idx, inodeGroup]
  have toNat_bytes : ((inodeIdx - 1) % volume.superBlock.inodesPerGroup *
      volume.superBlock.inodeSize.toUInt32).toNat =
        volume.inodeInGroup inodeIdx * volume.superBlock.inodeSize.toNat := by
    rw [UInt32.toNat_mul, UInt32.toNat_mod, toNat_idx, UInt16.toNat_toUInt32]
    apply Nat.mod_eq_of_lt
    rw [inodeStart, inodeInGroup] at start
    omega
  have toNat_offset : (volume.inodePlace inodeIdx).2.toNat =
      volume.inodeInGroup inodeIdx * volume.superBlock.inodeSize.toNat %
        volume.blockSize.toNat := by
    change (_ % volume.blockSize).toNat = _
    rw [UInt32.toNat_mod, toNat_bytes]
  rw [inodeStart, tableAddr] at start
  have place := block_add_offset
    (volume.blockGroups (volume.inodeGroup inodeIdx)).inodeTable.toNat
    (volume.inodeInGroup inodeIdx * volume.superBlock.inodeSize.toNat) volume.blockSize.toNat
  have toNat_block : (volume.inodePlace inodeIdx).1.toNat =
      volume.inodeInGroup inodeIdx * volume.superBlock.inodeSize.toNat / volume.blockSize.toNat +
        (volume.blockGroups (volume.inodeGroup inodeIdx)).inodeTable.toNat := by
    change (_ / volume.blockSize + (volume.blockGroups _).inodeTable).toNat = _
    rw [UInt32.toNat_add, UInt32.toNat_div, toNat_bytes, toNat_group]
    apply Nat.mod_eq_of_lt
    refine Nat.lt_of_le_of_lt (Nat.le_mul_of_pos_right _ positive) ?_
    omega
  constructor
  · rw [blockAddr_low, toNat_block, toNat_offset, place, inodeStart, tableAddr]
    rw [toNat_block]
    omega
  · rw [toNat_offset]
    exact inBlock

end TablesFit

theorem blockWrite_copyInto (disk : Nat → UInt8) {blockSize : UInt32} (block : UInt32)
    {offset count : Nat} (inside : offset + count ≤ blockBytes blockSize) (bytes : Nat → UInt8)
    (address : Nat) :
    blockWrite disk blockSize (copyInto (blockRead disk blockSize block) offset count bytes) block
        address =
      if blockAddr blockSize block + offset ≤ address ∧
          address < blockAddr blockSize block + offset + count then
        bytes (address - (blockAddr blockSize block + offset))
      else disk address := by
  rw [blockWrite, copyInto, blockRead]
  generalize blockAddr blockSize block = start
  by_cases inBlock : start ≤ address ∧ address < start + blockBytes blockSize
  · rw [if_pos inBlock]
    by_cases inChunk : start + offset ≤ address ∧ address < start + offset + count
    · rw [if_pos (by omega), if_pos inChunk, Nat.sub_sub]
    · rw [if_neg (by omega), if_neg inChunk, Nat.add_sub_cancel' inBlock.1]
  · rw [if_neg inBlock, if_neg (by omega)]

def withInode (volume : Ext2) (inodeIdx : UInt32) (inode : Nat → UInt8) : Ext2 :=
  { volume with disk := copyInto volume.disk (volume.inodeStart inodeIdx) inodeBytes inode }

def inodeBytesOf (volume : Ext2) (inodeIdx : UInt32) : Nat → UInt8 := fun pos =>
  volume.disk (volume.inodeStart inodeIdx + pos)

namespace TablesFit

theorem same {other : Ext2} (fit : volume.TablesFit)
    (superBlock : other.superBlock = volume.superBlock)
    (blockGroups : other.blockGroups = volume.blockGroups) : other.TablesFit := by
  obtain ⟨otherSuper, otherGroups⟩ := other
  cases superBlock
  cases blockGroups
  exact ⟨fit.blockSize, fit.inodeSize, fit.wholeInodes, fit.inodesPerGroup, fit.low, fit.apart⟩

theorem copied_eq (fit : volume.TablesFit) :
    min (max volume.superBlock.inodeSize.toUInt32 volume.blockSize).toNat inodeBytes =
      inodeBytes := by
  apply Nat.min_eq_right
  have size : inodeBytes ≤ volume.superBlock.inodeSize.toUInt32.toNat := by
    rw [UInt16.toNat_toUInt32]
    exact fit.inodeSize
  change inodeBytes ≤ (if volume.superBlock.inodeSize.toUInt32 ≤ volume.blockSize then
    volume.blockSize else volume.superBlock.inodeSize.toUInt32).toNat
  split
  · next smaller => exact Nat.le_trans size (UInt32.le_iff_toNat_le.mp smaller)
  · exact size

theorem rwInodeCalls_write (fit : volume.TablesFit) (numbered : volume.Numbered inodeIdx)
    (succeed : calls.Succeed true) :
    volume.rwInodeCalls calls inodeIdx inode true =
      ⟨0, volume.withInode inodeIdx inode, inode⟩ := by
  obtain ⟨allocated, reads, writes⟩ := succeed
  obtain ⟨start, inBlock⟩ := fit.inodePlace numbered
  have size := fit.inodeSize
  have inside : (volume.inodePlace inodeIdx).2.toNat + inodeBytes ≤
      blockBytes volume.blockSize := by
    rw [volume.blockBytes_blockSize]
    omega
  have disk := blockWrite_copyInto volume.disk (volume.inodePlace inodeIdx).1 inside
    inode
  rw [start] at disk
  rw [rwInodeCalls]
  dsimp only
  rw [if_neg (by rw [allocated]; decide), if_neg (Int.not_le.mpr reads), if_pos rfl,
    if_neg (Int.not_le.mpr (writes rfl)), fit.copied_eq, withInode, funext disk]
  rfl

theorem rwInodeCalls_read (fit : volume.TablesFit) (numbered : volume.Numbered inodeIdx)
    (succeed : calls.Succeed false) :
    volume.rwInodeCalls calls inodeIdx inode false =
      ⟨0, volume, copyInto inode 0 inodeBytes (volume.inodeBytesOf inodeIdx)⟩ := by
  obtain ⟨allocated, reads, -⟩ := succeed
  obtain ⟨start, -⟩ := fit.inodePlace numbered
  have bytes : (fun pos => blockRead volume.disk volume.blockSize (volume.inodePlace inodeIdx).1
      ((volume.inodePlace inodeIdx).2.toNat + pos)) = volume.inodeBytesOf inodeIdx := by
    funext pos
    rw [blockRead, ← Nat.add_assoc, start]
    rfl
  rw [rwInodeCalls]
  dsimp only
  rw [if_neg (by rw [allocated]; decide), if_neg (Int.not_le.mpr reads), if_neg (by decide),
    fit.copied_eq, bytes]

theorem inodeInGroup_ne (numbered : volume.Numbered inodeIdx)
    (otherNumbered : volume.Numbered other) (different : inodeIdx ≠ other)
    (sameGroup : volume.inodeGroup inodeIdx = volume.inodeGroup other) :
    volume.inodeInGroup inodeIdx ≠ volume.inodeInGroup other := by
  intro sameIndex
  apply different
  have number := Nat.div_add_mod (inodeIdx.toNat - 1) volume.superBlock.inodesPerGroup.toNat
  have otherNumber := Nat.div_add_mod (other.toNat - 1) volume.superBlock.inodesPerGroup.toNat
  change _ * volume.inodeGroup inodeIdx + volume.inodeInGroup inodeIdx = _ at number
  change _ * volume.inodeGroup other + volume.inodeInGroup other = _ at otherNumber
  rw [sameGroup, sameIndex, otherNumber] at number
  have positive := numbered.1
  have otherPositive := otherNumbered.1
  apply UInt32.toNat_inj.mp
  omega

theorem inodeStart_apart (fit : volume.TablesFit) (numbered : volume.Numbered inodeIdx)
    (otherNumbered : volume.Numbered other) (different : inodeIdx ≠ other) :
    volume.inodeStart inodeIdx + volume.superBlock.inodeSize.toNat ≤ volume.inodeStart other ∨
      volume.inodeStart other + volume.superBlock.inodeSize.toNat ≤
        volume.inodeStart inodeIdx := by
  have inside := fit.inTable inodeIdx
  have otherInside := fit.inTable other
  rw [inodeStart, inodeStart]
  by_cases sameGroup : volume.inodeGroup inodeIdx = volume.inodeGroup other
  · have indices := inodeInGroup_ne numbered otherNumbered different sameGroup
    rw [sameGroup, Nat.add_assoc, Nat.add_assoc, ← Nat.succ_mul, ← Nat.succ_mul]
    rcases Nat.lt_or_gt_of_ne indices with before | behind
    · exact .inl (Nat.add_le_add_left (Nat.mul_le_mul_right _ before) _)
    · exact .inr (Nat.add_le_add_left (Nat.mul_le_mul_right _ behind) _)
  · rcases fit.apart _ _ (hasGroup numbered) (hasGroup otherNumbered) sameGroup with
      before | behind
    · left
      omega
    · right
      omega

theorem inodeTotal_le (fit : volume.TablesFit) :
    volume.superBlock.inodeTotal.toNat ≤ 2 ^ 25 := by
  have total := volume.superBlock.inodeTotal.toNat_lt
  have size : 128 ≤ volume.superBlock.inodeSize.toNat := fit.inodeSize
  have toNat_number {index : Nat} (inside : index < volume.superBlock.inodeTotal.toNat) :
      (UInt32.ofNat (index + 1)).toNat = index + 1 :=
    UInt32.toNat_ofNat_of_lt' (Nat.lt_of_le_of_lt inside total)
  have numbered {index : Nat} (inside : index < volume.superBlock.inodeTotal.toNat) :
      volume.Numbered (UInt32.ofNat (index + 1)) := by
    rw [Numbered, toNat_number inside]
    omega
  have small : (Finset.range volume.superBlock.inodeTotal.toNat).card ≤
      (Finset.range (2 ^ 25)).card := by
    apply Finset.card_le_card_of_injOn
      fun index => volume.inodeStart (UInt32.ofNat (index + 1)) / 128
    · intro index member
      have low := fit.inodeStart_low (numbered (Finset.mem_range.mp member))
      apply Finset.mem_coe.mpr
      apply Finset.mem_range.mpr
      change volume.inodeStart (UInt32.ofNat (index + 1)) / 128 < 2 ^ 25
      omega
    · intro index member another anotherMember same
      have inside := Finset.mem_range.mp (Finset.mem_coe.mp member)
      have anotherInside := Finset.mem_range.mp (Finset.mem_coe.mp anotherMember)
      by_contra different
      have apart := fit.inodeStart_apart (numbered inside) (numbered anotherInside) (by
        intro equal
        have numbers := congrArg UInt32.toNat equal
        rw [toNat_number inside, toNat_number anotherInside] at numbers
        omega)
      simp only at same
      omega
  rwa [Finset.card_range, Finset.card_range] at small

end TablesFit

theorem copyInto_inside {buffer bytes : Nat → UInt8} {offset size pos : Nat}
    (inside : pos < size) : copyInto buffer offset size bytes (offset + pos) = bytes pos := by
  rw [copyInto, if_pos (by omega), Nat.add_sub_cancel_left]

theorem copyInto_outside {buffer bytes : Nat → UInt8} {offset size place : Nat}
    (outside : ¬ (offset ≤ place ∧ place < offset + size)) :
    copyInto buffer offset size bytes place = buffer place :=
  if_neg outside

theorem TablesFit.inodeBytesOf_withInode (fit : volume.TablesFit)
    (numbered : volume.Numbered inodeIdx) (otherNumbered : volume.Numbered other)
    (different : inodeIdx ≠ other) {pos : Nat} (inside : pos < volume.superBlock.inodeSize.toNat) :
    (volume.withInode inodeIdx inode).inodeBytesOf other pos = volume.inodeBytesOf other pos := by
  have size := fit.inodeSize
  have apart := fit.inodeStart_apart numbered otherNumbered different
  change copyInto volume.disk (volume.inodeStart inodeIdx) inodeBytes inode
    (volume.inodeStart other + pos) = _
  apply copyInto_outside
  omega

theorem rwInodeCalls_err (volume : Ext2) (calls : InodeCalls) (inodeIdx : UInt32)
    (inode : Nat → UInt8) (write : Bool) :
    (volume.rwInodeCalls calls inodeIdx inode write).err = 0 ↔ calls.Succeed write := by
  have failure : (-1 : Int) ≠ 0 := by decide
  rw [rwInodeCalls, InodeCalls.Succeed]
  dsimp only
  cases allocated : calls.allocated with
  | false =>
      rw [if_pos rfl]
      constructor
      · intro fails
        exact absurd fails failure
      · intro succeeds
        exact absurd succeeds.1 (by decide)
  | true =>
      rw [if_neg (by decide)]
      by_cases reads : calls.readSize ≤ 0
      · rw [if_pos reads]
        constructor
        · intro fails
          exact absurd fails failure
        · intro succeeds
          exact absurd reads (Int.not_le.mpr succeeds.2.1)
      · rw [if_neg reads]
        cases write with
        | false =>
            rw [if_neg (by decide)]
            constructor
            · intro _
              exact ⟨rfl, Int.not_le.mp reads, fun isWrite => absurd isWrite (by decide)⟩
            · intro _
              rfl
        | true =>
            rw [if_pos rfl]
            by_cases writes : calls.writeSize ≤ 0
            · rw [if_pos writes]
              constructor
              · intro fails
                exact absurd fails failure
              · intro succeeds
                exact absurd writes (Int.not_le.mpr (succeeds.2.2 rfl))
            · rw [if_neg writes]
              constructor
              · intro _
                exact ⟨rfl, Int.not_le.mp reads, fun _ => Int.not_le.mp writes⟩
              · intro _
                rfl

theorem TablesFit.withInode (fit : volume.TablesFit) :
    (volume.withInode inodeIdx inode).TablesFit :=
  fit.same rfl rfl

theorem TablesFit.rwInode_read (fit : volume.TablesFit) (numbered : volume.Numbered inodeIdx)
    (words : Nat → UInt32) {word : Nat} (inside : 4 * word < inodeBytes) :
    (volume.rwInode inodeIdx words false).2 word =
      longAt (volume.inodeBytesOf inodeIdx) (4 * word) := by
  obtain ⟨start, -⟩ := fit.inodePlace numbered
  change (if 4 * word < inodeBytes then
    longAt (blockRead volume.disk volume.blockSize (volume.inodePlace inodeIdx).1)
      ((volume.inodePlace inodeIdx).2.toNat + 4 * word) else words word) = _
  rw [if_pos inside, longAt, longAt]
  simp only [blockRead, inodeBytesOf, ← start, Nat.add_assoc]

def twoGroups : Ext2 where
  superBlock := ⟨16, 64, 0, 0, 2, 32, 8, 256⟩
  blockGroups := fun group => if group = 0 then ⟨0, 0, 3, 0⟩ else ⟨0, 0, 9, 0⟩
  disk := fun _ => 0
  heap := fun _ => 0
  writes := []

theorem twoGroups_fit : twoGroups.TablesFit where
  blockSize := by decide
  inodeSize := by decide
  wholeInodes := by decide
  inodesPerGroup := by decide
  low := by
    intro group hasGroup
    have isGroup : group * 8 < 16 := hasGroup
    obtain rfl | rfl : group = 0 ∨ group = 1 := by omega
    · decide
    · decide
  apart := by
    intro group other hasGroup otherGroup different
    have isGroup : group * 8 < 16 := hasGroup
    have isOther : other * 8 < 16 := otherGroup
    obtain rfl | rfl : group = 0 ∨ group = 1 := by omega
    · obtain rfl : other = 1 := by omega
      decide
    · obtain rfl : other = 0 := by omega
      decide

end Ext2

end CleanOS.Fs
