import CleanOS.Fs.Ext2Alloc

/-!
# What an ext2 image says

The files of an image as the format has them: where an inode lies, which block is which
block of a file, and what the bytes of the file are.  Nothing here is computed the way the
driver computes it.
-/

namespace CleanOS.Fs

namespace Ext2

def perBlock (volume : Ext2) : Nat :=
  volume.formatBlockSize / 4

def tableEntry (volume : Ext2) (table : UInt32) (index : Nat) : UInt32 :=
  if table = 0 then 0
  else longAt volume.disk (table.toNat * volume.formatBlockSize + 4 * index)

def blockLimit (volume : Ext2) : Nat :=
  directBlockCount + volume.perBlock + volume.perBlock ^ 2 + volume.perBlock ^ 3

def fileBlock (volume : Ext2) (inode : Nat → UInt32) (i : Nat) : UInt32 :=
  let perBlock := volume.perBlock
  if i < directBlockCount then inode (directBlock i)
  else
    let i := i - directBlockCount
    if i < perBlock then volume.tableEntry (inode (indirectBlock 0)) i
    else
      let i := i - perBlock
      if i < perBlock ^ 2 then
        volume.tableEntry (volume.tableEntry (inode (indirectBlock 1)) (i / perBlock))
          (i % perBlock)
      else
        let i := i - perBlock ^ 2
        volume.tableEntry
          (volume.tableEntry (volume.tableEntry (inode (indirectBlock 2)) (i / perBlock ^ 2))
            (i / perBlock % perBlock))
          (i % perBlock)

/-- The indirect blocks of a file, with 0 for one that is missing. -/
inductive IsTable (volume : Ext2) (inode : Nat → UInt32) : UInt32 → Prop where
  | single {level : Nat} (inside : level < 3) :
      IsTable volume inode (inode (indirectBlock level))
  | double {level index : Nat} (inside : level < 3) (deep : 0 < level)
      (inTable : index < volume.perBlock) :
      IsTable volume inode (volume.tableEntry (inode (indirectBlock level)) index)
  | triple {first second : Nat} (inFirst : first < volume.perBlock)
      (inSecond : second < volume.perBlock) :
      IsTable volume inode
        (volume.tableEntry (volume.tableEntry (inode (indirectBlock 2)) first) second)

def byteAddr (volume : Ext2) (inode : Nat → UInt32) (position : Nat) : Nat :=
  (volume.fileBlock inode (position / volume.formatBlockSize)).toNat * volume.formatBlockSize +
    position % volume.formatBlockSize

def fileByte (volume : Ext2) (inode : Nat → UInt32) (position : Nat) : UInt8 :=
  if volume.fileBlock inode (position / volume.formatBlockSize) = 0 then 0
  else volume.disk (volume.byteAddr inode position)

def contents (volume : Ext2) (inode : Nat → UInt32) : List UInt8 :=
  (List.range (inode sizeWord).toNat).map (volume.fileByte inode)

def inodeGroup (volume : Ext2) (inodeIdx : UInt32) : Nat :=
  (inodeIdx.toNat - 1) / volume.superBlock.inodesPerGroup.toNat

def inodeInGroup (volume : Ext2) (inodeIdx : UInt32) : Nat :=
  (inodeIdx.toNat - 1) % volume.superBlock.inodesPerGroup.toNat

def inodeAddr (volume : Ext2) (inodeIdx : UInt32) : Nat :=
  (volume.blockGroups (volume.inodeGroup inodeIdx)).inodeTable.toNat * volume.formatBlockSize +
    volume.inodeInGroup inodeIdx * volume.superBlock.inodeSize.toNat

def inodeOf (volume : Ext2) (inodeIdx : UInt32) : Nat → UInt32 := fun word =>
  longAt volume.disk (volume.inodeAddr inodeIdx + 4 * word)

def InodeUsed (volume : Ext2) (inodeIdx : UInt32) : Prop :=
  (volume.disk ((volume.blockGroups (volume.inodeGroup inodeIdx)).inodeBitmap.toNat *
      volume.formatBlockSize + volume.inodeInGroup inodeIdx / 8)).toBitVec.getLsbD
    (volume.inodeInGroup inodeIdx % 8) = true

/-- The kind of file that `type_permission` gives. -/
def fileKind (volume : Ext2) (inodeIdx : UInt32) : Nat :=
  (volume.inodeOf inodeIdx 0).toNat / 4096 % 16

def HasInode (volume : Ext2) (inodeIdx : UInt32) : Prop :=
  0 < inodeIdx ∧ inodeIdx ≤ volume.superBlock.inodeTotal ∧ volume.InodeUsed inodeIdx

def HasBlocks (volume : Ext2) (inodeIdx : UInt32) : Prop :=
  volume.HasInode inodeIdx ∧ (volume.fileKind inodeIdx = 8 ∨ volume.fileKind inodeIdx = 4)

def groupCount (volume : Ext2) : Nat :=
  (volume.superBlock.blocksTotal.toNat - volume.superBlock.superBlockId.toNat +
      volume.superBlock.blocksPerGroup.toNat - 1) / volume.superBlock.blocksPerGroup.toNat

/-- `has_super_block`. -/
def HasSuperBlock (group : Nat) : Prop :=
  group = 0 ∨ ∃ exponent, group = 3 ^ exponent ∨ group = 5 ^ exponent ∨ group = 7 ^ exponent

def blocksFor (volume : Ext2) (bytes : Nat) : Nat :=
  (bytes + volume.formatBlockSize - 1) / volume.formatBlockSize

def inodeBlocks (volume : Ext2) : Nat :=
  volume.blocksFor (volume.superBlock.inodesPerGroup.toNat * volume.superBlock.inodeSize.toNat)

/-- The blocks that describe the image: the copies of the super block and of the group
descriptors, the bitmaps and the inodes. -/
inductive Reserved (volume : Ext2) (block : Nat) : Prop where
  | superBlock {group : Nat} (inside : group < volume.groupCount) (copy : HasSuperBlock group)
      (start : volume.superBlock.superBlockId.toNat +
        group * volume.superBlock.blocksPerGroup.toNat ≤ block)
      (before : block ≤ volume.superBlock.superBlockId.toNat +
        group * volume.superBlock.blocksPerGroup.toNat + volume.blocksFor (32 * volume.groupCount))
  | blockBitmap {group : Nat} (inside : group < volume.groupCount)
      (isBitmap : block = (volume.blockGroups group).blockBitmap.toNat)
  | inodeBitmap {group : Nat} (inside : group < volume.groupCount)
      (isBitmap : block = (volume.blockGroups group).inodeBitmap.toNat)
  | inodeTable {group : Nat} (inside : group < volume.groupCount)
      (start : (volume.blockGroups group).inodeTable.toNat ≤ block)
      (before : block < (volume.blockGroups group).inodeTable.toNat + volume.inodeBlocks)

def Metadata (volume : Ext2) (block : UInt32) : Prop :=
  volume.Reserved block.toNat ∨
    ∃ inodeIdx, volume.HasBlocks inodeIdx ∧ volume.IsTable (volume.inodeOf inodeIdx) block

def HasBlock (volume : Ext2) (inodeIdx : UInt32) (i : Nat) : Prop :=
  volume.HasBlocks inodeIdx ∧
    i * volume.formatBlockSize < (volume.inodeOf inodeIdx sizeWord).toNat ∧
    volume.fileBlock (volume.inodeOf inodeIdx) i ≠ 0

/-- Every block of a well-formed image is used for one thing. -/
structure WellFormed (volume : Ext2) : Prop where
  blockSize : volume.superBlock.blockSizeKb ≤ 6
  perGroup : 0 < volume.superBlock.inodesPerGroup
  blocksPerGroup : 0 < volume.superBlock.blocksPerGroup
  inodeSize : inodeBytes ≤ volume.superBlock.inodeSize.toNat
  inodesFit : volume.superBlock.inodeSize.toNat ∣ volume.formatBlockSize
  /-- A bitmap is one block. -/
  bitmaps : volume.superBlock.inodesPerGroup.toNat ≤ 8 * volume.formatBlockSize ∧
    volume.superBlock.blocksPerGroup.toNat ≤ 8 * volume.formatBlockSize
  inodes : volume.superBlock.inodeTotal.toNat ≤
    volume.groupCount * volume.superBlock.inodesPerGroup.toNat
  reserved : ∀ block, volume.Reserved block → block < volume.superBlock.blocksTotal.toNat
  /-- The inodes of two groups do not lie in one block. -/
  groupsApart : ∀ group < volume.groupCount, ∀ other < volume.groupCount, group < other →
    (volume.blockGroups group).inodeTable.toNat + volume.inodeBlocks ≤
        (volume.blockGroups other).inodeTable.toNat ∨
      (volume.blockGroups other).inodeTable.toNat + volume.inodeBlocks ≤
        (volume.blockGroups group).inodeTable.toNat
  tables : ∀ inodeIdx, volume.HasBlocks inodeIdx → ∀ table,
    volume.IsTable (volume.inodeOf inodeIdx) table → table ≠ 0 →
    table < volume.superBlock.blocksTotal ∧ ¬ volume.Reserved table.toNat ∧
      ¬ volume.MarkedFree table
  data : ∀ inodeIdx i, volume.HasBlock inodeIdx i →
    volume.fileBlock (volume.inodeOf inodeIdx) i < volume.superBlock.blocksTotal ∧
      ¬ volume.Metadata (volume.fileBlock (volume.inodeOf inodeIdx) i) ∧
      ¬ volume.MarkedFree (volume.fileBlock (volume.inodeOf inodeIdx) i)
  once : ∀ inodeIdx i other j, volume.HasBlock inodeIdx i → volume.HasBlock other j →
    volume.fileBlock (volume.inodeOf inodeIdx) i = volume.fileBlock (volume.inodeOf other) j →
    inodeIdx = other ∧ i = j
  /-- A file has no blocks past its end. -/
  ends : ∀ inodeIdx, volume.HasBlocks inodeIdx → ∀ i < volume.blockLimit,
    (volume.inodeOf inodeIdx sizeWord).toNat ≤ i * volume.formatBlockSize →
    volume.fileBlock (volume.inodeOf inodeIdx) i = 0

variable {volume after : Ext2} {inode inodeAfter : Nat → UInt32} {table : UInt32}
  {i index position : Nat}

theorem le_formatBlockSize (volume : Ext2) : 1024 ≤ volume.formatBlockSize :=
  Nat.le_mul_of_pos_right _ (Nat.two_pow_pos _)

theorem formatBlockSize_pos (volume : Ext2) : 0 < volume.formatBlockSize :=
  Nat.lt_of_lt_of_le (by decide) volume.le_formatBlockSize

theorem four_mul_perBlock (volume : Ext2) : 4 * volume.perBlock = volume.formatBlockSize := by
  have dvd : 4 ∣ volume.formatBlockSize :=
    Nat.dvd_mul_right_of_dvd (by decide : 4 ∣ 1024) _
  exact Nat.mul_div_cancel' dvd

theorem perBlock_pos (volume : Ext2) : 0 < volume.perBlock := by
  have four := volume.four_mul_perBlock
  have size := volume.formatBlockSize_pos
  omega

theorem lt_blockLimit (size : UInt32) (inside : i * volume.formatBlockSize < size.toNat) :
    i < volume.blockLimit := by
  have large : 256 ≤ volume.perBlock := by
    have four := volume.four_mul_perBlock
    have size := volume.le_formatBlockSize
    omega
  have cube : 256 ^ 3 ≤ volume.perBlock ^ 3 := Nat.pow_le_pow_left large 3
  have few : i * 1024 < 2 ^ 32 := by
    calc
      i * 1024 ≤ i * volume.formatBlockSize :=
        Nat.mul_le_mul_left _ volume.le_formatBlockSize
      _ < size.toNat := inside
      _ < 2 ^ 32 := size.toNat_lt
  unfold blockLimit
  omega

theorem longAt_congr {left right : Nat → UInt8} {leftOffset rightOffset : Nat}
    (same : ∀ byte < 4, left (leftOffset + byte) = right (rightOffset + byte)) :
    longAt left leftOffset = longAt right rightOffset := by
  have zero := same 0 (by decide)
  rw [Nat.add_zero, Nat.add_zero] at zero
  rw [longAt, longAt, zero, same 1 (by decide), same 2 (by decide), same 3 (by decide)]

/-- Two images agree on what an inode in each of them says about its blocks. -/
structure SameFile (volume after : Ext2) (inode inodeAfter : Nat → UInt32) : Prop where
  blockSize : after.superBlock.blockSizeKb = volume.superBlock.blockSizeKb
  words : ∀ word, directBlock 0 ≤ word → word < indirectBlock 3 → inodeAfter word = inode word
  tables : ∀ table, volume.IsTable inode table → table ≠ 0 →
    ∀ offset < volume.formatBlockSize,
      after.disk (table.toNat * volume.formatBlockSize + offset) =
        volume.disk (table.toNat * volume.formatBlockSize + offset)

namespace SameFile

theorem formatBlockSize (same : SameFile volume after inode inodeAfter) :
    after.formatBlockSize = volume.formatBlockSize := by
  rw [Ext2.formatBlockSize, Ext2.formatBlockSize, same.blockSize]

theorem perBlock (same : SameFile volume after inode inodeAfter) :
    after.perBlock = volume.perBlock := by
  rw [Ext2.perBlock, Ext2.perBlock, same.formatBlockSize]

theorem tableEntry (same : SameFile volume after inode inodeAfter)
    (isTable : volume.IsTable inode table) (inside : index < volume.perBlock) :
    after.tableEntry table index = volume.tableEntry table index := by
  unfold Ext2.tableEntry
  split
  next => rfl
  next present =>
    have four := volume.four_mul_perBlock
    rw [same.formatBlockSize]
    apply longAt_congr
    intro byte inLong
    rw [Nat.add_assoc]
    exact same.tables table isTable present _ (by omega)

theorem indirect (same : SameFile volume after inode inodeAfter) {level : Nat}
    (inside : level < 3) : inodeAfter (indirectBlock level) = inode (indirectBlock level) :=
  same.words _ (by unfold directBlock indirectBlock; omega) (by unfold indirectBlock; omega)

theorem fileBlock (same : SameFile volume after inode inodeAfter)
    (inside : i < volume.blockLimit) :
    after.fileBlock inodeAfter i = volume.fileBlock inode i := by
  have positive := volume.perBlock_pos
  unfold Ext2.fileBlock
  rw [same.perBlock, same.indirect (by decide : 0 < 3), same.indirect (by decide : 1 < 3),
    same.indirect (by decide : 2 < 3)]
  dsimp only
  split
  next direct =>
    exact same.words _ (by unfold directBlock; omega)
      (by unfold directBlock indirectBlock; unfold directBlockCount at direct; omega)
  next =>
    split
    next inFirst => exact same.tableEntry (.single (by decide)) inFirst
    next =>
      split
      next inSecond =>
        have inIndex : (i - directBlockCount - volume.perBlock) / volume.perBlock <
            volume.perBlock :=
          Nat.div_lt_of_lt_mul (by rwa [← Nat.pow_two])
        rw [same.tableEntry (.single (by decide)) inIndex]
        exact same.tableEntry (.double (by decide) (by decide) inIndex)
          (Nat.mod_lt _ positive)
      next =>
        have inCube : i - directBlockCount - volume.perBlock - volume.perBlock ^ 2 <
            volume.perBlock ^ 2 * volume.perBlock := by
          have cube : volume.perBlock ^ 3 = volume.perBlock ^ 2 * volume.perBlock :=
            Nat.pow_succ _ _
          unfold blockLimit at inside
          omega
        have inIndex := Nat.div_lt_of_lt_mul inCube
        have inTable := Nat.mod_lt
          ((i - directBlockCount - volume.perBlock - volume.perBlock ^ 2) / volume.perBlock)
          positive
        rw [same.tableEntry (.single (by decide)) inIndex,
          same.tableEntry (.double (by decide) (by decide) inIndex) inTable]
        exact same.tableEntry (.triple inIndex inTable) (Nat.mod_lt _ positive)

theorem contents (same : SameFile volume after inode inodeAfter)
    (size : inodeAfter sizeWord = inode sizeWord)
    (bytes : ∀ position < (inode sizeWord).toNat,
      volume.fileBlock inode (position / volume.formatBlockSize) ≠ 0 →
      after.disk (volume.byteAddr inode position) = volume.disk (volume.byteAddr inode position)) :
    after.contents inodeAfter = volume.contents inode := by
  unfold Ext2.contents
  rw [size]
  apply List.map_congr_left
  intro position inFile
  have inSize := List.mem_range.mp inFile
  have block : after.fileBlock inodeAfter (position / volume.formatBlockSize) =
      volume.fileBlock inode (position / volume.formatBlockSize) :=
    same.fileBlock (lt_blockLimit (inode sizeWord)
      (Nat.lt_of_le_of_lt (Nat.div_mul_le_self _ _) inSize))
  unfold fileByte byteAddr
  rw [same.formatBlockSize, block]
  split
  next => rfl
  next present => exact bytes position inSize present

end SameFile

theorem le_blocksFor (volume : Ext2) (bytes : Nat) :
    bytes ≤ volume.blocksFor bytes * volume.formatBlockSize := by
  have positive := volume.formatBlockSize_pos
  have split := Nat.div_add_mod' (bytes + volume.formatBlockSize - 1) volume.formatBlockSize
  have rest := Nat.mod_lt (bytes + volume.formatBlockSize - 1) positive
  unfold blocksFor
  omega

def inodeBlock (volume : Ext2) (inodeIdx : UInt32) : Nat :=
  (volume.blockGroups (volume.inodeGroup inodeIdx)).inodeTable.toNat +
    volume.inodeInGroup inodeIdx * volume.superBlock.inodeSize.toNat / volume.formatBlockSize

def inodeOffset (volume : Ext2) (inodeIdx : UInt32) : Nat :=
  volume.inodeInGroup inodeIdx * volume.superBlock.inodeSize.toNat % volume.formatBlockSize

theorem inodeAddr_eq (volume : Ext2) (inodeIdx : UInt32) :
    volume.inodeAddr inodeIdx =
      volume.inodeBlock inodeIdx * volume.formatBlockSize + volume.inodeOffset inodeIdx := by
  have split := Nat.div_add_mod'
    (volume.inodeInGroup inodeIdx * volume.superBlock.inodeSize.toNat) volume.formatBlockSize
  unfold inodeAddr inodeBlock inodeOffset
  rw [Nat.add_mul, Nat.add_assoc, split]

namespace WellFormed

variable {inodeIdx other : UInt32}

theorem inodeInGroup_lt (wellFormed : volume.WellFormed) (inodeIdx : UInt32) :
    volume.inodeInGroup inodeIdx < volume.superBlock.inodesPerGroup.toNat :=
  Nat.mod_lt _ wellFormed.perGroup

theorem inodeGroup_lt (wellFormed : volume.WellFormed) (hasInode : volume.HasInode inodeIdx) :
    volume.inodeGroup inodeIdx < volume.groupCount := by
  have inTotal : inodeIdx.toNat ≤ volume.superBlock.inodeTotal.toNat := hasInode.2.1
  have positive : 0 < inodeIdx.toNat := hasInode.1
  have fits := wellFormed.inodes
  rw [Nat.mul_comm] at fits
  exact Nat.div_lt_of_lt_mul (by omega)

theorem inodeInGroup_end (wellFormed : volume.WellFormed) (inodeIdx : UInt32) :
    volume.inodeInGroup inodeIdx * volume.superBlock.inodeSize.toNat +
        volume.superBlock.inodeSize.toNat ≤
      volume.inodeBlocks * volume.formatBlockSize := by
  calc
    volume.inodeInGroup inodeIdx * volume.superBlock.inodeSize.toNat +
          volume.superBlock.inodeSize.toNat =
        (volume.inodeInGroup inodeIdx + 1) * volume.superBlock.inodeSize.toNat :=
      (Nat.succ_mul _ _).symm
    _ ≤ volume.superBlock.inodesPerGroup.toNat * volume.superBlock.inodeSize.toNat :=
      Nat.mul_le_mul_right _ (wellFormed.inodeInGroup_lt inodeIdx)
    _ ≤ volume.inodeBlocks * volume.formatBlockSize := volume.le_blocksFor _

theorem inodeBlock_reserved (wellFormed : volume.WellFormed)
    (hasInode : volume.HasInode inodeIdx) : volume.Reserved (volume.inodeBlock inodeIdx) := by
  refine .inodeTable (wellFormed.inodeGroup_lt hasInode) (Nat.le_add_right _ _) ?_
  have inTable := wellFormed.inodeInGroup_end inodeIdx
  have size := wellFormed.inodeSize
  refine Nat.add_lt_add_left (Nat.div_lt_of_lt_mul ?_) _
  rw [Nat.mul_comm volume.formatBlockSize]
  unfold inodeBytes at size
  omega

theorem inodeOffset_end (wellFormed : volume.WellFormed) (inodeIdx : UInt32) :
    volume.inodeOffset inodeIdx + volume.superBlock.inodeSize.toNat ≤ volume.formatBlockSize := by
  obtain ⟨count, isCount⟩ := wellFormed.inodesFit
  unfold inodeOffset
  rw [isCount, Nat.mul_comm _ volume.superBlock.inodeSize.toNat, Nat.mul_mod_mul_left]
  have positive : 0 < count := by
    rcases Nat.eq_zero_or_pos count with zero | positive
    · rw [zero, Nat.mul_zero] at isCount
      exact absurd isCount (Nat.ne_of_gt volume.formatBlockSize_pos)
    · exact positive
  have below := Nat.mod_lt (volume.inodeInGroup inodeIdx) positive
  calc
    volume.superBlock.inodeSize.toNat * (volume.inodeInGroup inodeIdx % count) +
          volume.superBlock.inodeSize.toNat =
        volume.superBlock.inodeSize.toNat * (volume.inodeInGroup inodeIdx % count + 1) :=
      (Nat.mul_succ _ _).symm
    _ ≤ volume.superBlock.inodeSize.toNat * count := Nat.mul_le_mul_left _ below

theorem inodeAddr_apart_of_group (wellFormed : volume.WellFormed)
    (tables : (volume.blockGroups (volume.inodeGroup inodeIdx)).inodeTable.toNat +
        volume.inodeBlocks ≤ (volume.blockGroups (volume.inodeGroup other)).inodeTable.toNat) :
    volume.inodeAddr inodeIdx + volume.superBlock.inodeSize.toNat ≤ volume.inodeAddr other := by
  have inTable := wellFormed.inodeInGroup_end inodeIdx
  have blocks := Nat.mul_le_mul_right volume.formatBlockSize tables
  rw [Nat.add_mul] at blocks
  unfold inodeAddr
  omega

theorem inodeAddr_apart (wellFormed : volume.WellFormed) (hasInode : volume.HasInode inodeIdx)
    (hasOther : volume.HasInode other) (different : inodeIdx ≠ other) :
    volume.inodeAddr inodeIdx + volume.superBlock.inodeSize.toNat ≤ volume.inodeAddr other ∨
      volume.inodeAddr other + volume.superBlock.inodeSize.toNat ≤ volume.inodeAddr inodeIdx := by
  have group := wellFormed.inodeGroup_lt hasInode
  have otherGroup := wellFormed.inodeGroup_lt hasOther
  rcases Nat.lt_trichotomy (volume.inodeGroup inodeIdx) (volume.inodeGroup other) with
    before | same | behind
  · exact (wellFormed.groupsApart _ group _ otherGroup before).imp
      wellFormed.inodeAddr_apart_of_group wellFormed.inodeAddr_apart_of_group
  · have differs : volume.inodeInGroup inodeIdx ≠ volume.inodeInGroup other := by
      intro sameIndex
      have number := Nat.div_add_mod (inodeIdx.toNat - 1) volume.superBlock.inodesPerGroup.toNat
      have otherNumber :=
        Nat.div_add_mod (other.toNat - 1) volume.superBlock.inodesPerGroup.toNat
      have positive : 0 < inodeIdx.toNat := hasInode.1
      have otherPositive : 0 < other.toNat := hasOther.1
      unfold inodeGroup at same
      unfold inodeInGroup at sameIndex
      rw [same, sameIndex, otherNumber] at number
      exact different (UInt32.toNat_inj.mp (by omega))
    unfold inodeAddr
    rw [same]
    rcases Nat.lt_or_gt_of_ne differs with less | more
    · have apart := Nat.mul_le_mul_right volume.superBlock.inodeSize.toNat
        (Nat.succ_le_of_lt less)
      rw [Nat.succ_mul] at apart
      exact .inl (by omega)
    · have apart := Nat.mul_le_mul_right volume.superBlock.inodeSize.toNat
        (Nat.succ_le_of_lt more)
      rw [Nat.succ_mul] at apart
      exact .inr (by omega)
  · exact ((wellFormed.groupsApart _ otherGroup _ group behind).imp
      wellFormed.inodeAddr_apart_of_group wellFormed.inodeAddr_apart_of_group).symm

end WellFormed

theorem block_offset_inj {size block other offset otherOffset : Nat} (inside : offset < size)
    (otherInside : otherOffset < size)
    (same : block * size + offset = other * size + otherOffset) :
    block = other ∧ offset = otherOffset := by
  have positive : 0 < size := Nat.zero_lt_of_lt inside
  have quotient : (block * size + offset) / size = (other * size + otherOffset) / size := by
    rw [same]
  rw [Nat.mul_comm, Nat.mul_add_div positive, Nat.div_eq_of_lt inside, Nat.mul_comm other,
    Nat.mul_add_div positive, Nat.div_eq_of_lt otherInside] at quotient
  have sameBlock : block = other := quotient
  subst sameBlock
  exact ⟨rfl, Nat.add_left_cancel same⟩

theorem WellFormed.byteAddr_inj (wellFormed : volume.WellFormed) {inodeIdx : UInt32}
    {other : Nat} (hasBlock : volume.HasBlock inodeIdx (position / volume.formatBlockSize))
    (hasOther : volume.HasBlock inodeIdx (other / volume.formatBlockSize))
    (same : volume.byteAddr (volume.inodeOf inodeIdx) position =
      volume.byteAddr (volume.inodeOf inodeIdx) other) : position = other := by
  have positive := volume.formatBlockSize_pos
  obtain ⟨sameBlock, sameOffset⟩ :=
    block_offset_inj (Nat.mod_lt _ positive) (Nat.mod_lt _ positive) same
  have sameIndex :=
    (wellFormed.once _ _ _ _ hasBlock hasOther (UInt32.toNat_inj.mp sameBlock)).2
  rw [← Nat.div_add_mod position volume.formatBlockSize, sameIndex, sameOffset,
    Nat.div_add_mod]

theorem WellFormed.inode_ne_data (wellFormed : volume.WellFormed) {inodeIdx other : UInt32}
    {byte : Nat} (hasInode : volume.HasInode inodeIdx) (inImage : byte < inodeBytes)
    (hasBlock : volume.HasBlock other (position / volume.formatBlockSize)) :
    volume.inodeAddr inodeIdx + byte ≠ volume.byteAddr (volume.inodeOf other) position := by
  have size := wellFormed.inodeSize
  have inBlock := wellFormed.inodeOffset_end inodeIdx
  intro same
  rw [volume.inodeAddr_eq, Nat.add_assoc] at same
  have sameBlock :=
    (block_offset_inj (by omega) (Nat.mod_lt _ volume.formatBlockSize_pos) same).1
  have reserved := wellFormed.inodeBlock_reserved hasInode
  rw [sameBlock] at reserved
  exact (wellFormed.data _ _ hasBlock).2.1 (.inl reserved)

theorem IsTable.congr {other : Nat → UInt32} (isTable : volume.IsTable inode table)
    (words : ∀ level < 3, inode (indirectBlock level) = other (indirectBlock level)) :
    volume.IsTable other table := by
  cases isTable with
  | single inside =>
      rw [words _ inside]
      exact .single inside
  | double inside deep inTable =>
      rw [words _ inside]
      exact .double inside deep inTable
  | triple inFirst inSecond =>
      rw [words 2 (by decide)]
      exact .triple inFirst inSecond

end Ext2

end CleanOS.Fs
