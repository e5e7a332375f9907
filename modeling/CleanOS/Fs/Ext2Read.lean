import Mathlib.Data.Nat.ModEq
import CleanOS.Fs.Ext2Image

/-!
# Reading ext2 files

What `ext2_read` can read: the driver finds the blocks of a file that the format gives it
where the file has no hole, needs no second table of the second level, and lies in the
first four gigabytes of the device.
-/

namespace CleanOS.Fs

namespace Ext2

def Low (volume : Ext2) (block : UInt32) : Prop :=
  block.toNat * volume.formatBlockSize < 2 ^ 32

/-- What an inode must be like for `ext2_read`. -/
structure Readable (volume : Ext2) (inode : Nat → UInt32) : Prop where
  blockSize : volume.superBlock.blockSizeKb ≤ 1
  noHole : ∀ i, i * volume.formatBlockSize < (inode sizeWord).toNat → volume.fileBlock inode i ≠ 0
  oneTable : (inode sizeWord).toNat ≤
    (directBlockCount + 2 * volume.perBlock) * volume.formatBlockSize
  low : ∀ i, i * volume.formatBlockSize < (inode sizeWord).toNat →
    volume.Low (volume.fileBlock inode i)
  lowSingle : directBlockCount * volume.formatBlockSize < (inode sizeWord).toNat →
    volume.Low (inode (indirectBlock 0))
  lowDouble : (directBlockCount + volume.perBlock) * volume.formatBlockSize <
      (inode sizeWord).toNat →
    volume.Low (inode (indirectBlock 1)) ∧
      volume.Low (volume.tableEntry (inode (indirectBlock 1)) 0)

/-- What a block of a file must be like for `ext2_read`. -/
structure Findable (volume : Ext2) (inode : Nat → UInt32) (i : Nat) : Prop where
  few : i < directBlockCount + 2 * volume.perBlock
  present : volume.fileBlock inode i ≠ 0
  low : volume.Low (volume.fileBlock inode i)
  lowSingle : directBlockCount ≤ i → volume.Low (inode (indirectBlock 0))
  lowDouble : directBlockCount + volume.perBlock ≤ i →
    volume.Low (inode (indirectBlock 1)) ∧
      volume.Low (volume.tableEntry (inode (indirectBlock 1)) 0)

/-- The tables that a handle keeps are those on the device. -/
structure Cached (volume : Ext2) (file : Ext2File) : Prop where
  first : ∀ blocks, file.firstIndirectBlocks = some blocks → file.inode (indirectBlock 0) ≠ 0 →
    ∀ index < volume.perBlock,
      blocks index = volume.tableEntry (file.inode (indirectBlock 0)) index
  secondIdx : ∀ indices, file.secondIndirectIdx = some indices →
    file.inode (indirectBlock 1) ≠ 0 → ∀ index < volume.perBlock,
      indices index = volume.tableEntry (file.inode (indirectBlock 1)) index
  second : ∀ tables, file.secondIndirectBlocks = some tables → ∀ idx < volume.perBlock,
    ∀ table, tables idx = some table →
    volume.tableEntry (file.inode (indirectBlock 1)) idx ≠ 0 → ∀ index < volume.perBlock,
      table index =
        volume.tableEntry (volume.tableEntry (file.inode (indirectBlock 1)) idx) index

/-- A handle of a regular file, as `ext2_open` and later calls leave it. -/
structure Opened (volume : Ext2) (file : Ext2File) : Prop extends Cached volume file where
  isFile : file.isFile = true
  regular : volume.HasInode file.inodeIdx ∧ volume.fileKind file.inodeIdx = 8
  words : ∀ word, 4 * word < inodeBytes → file.inode word = volume.inodeOf file.inodeIdx word
  size : file.size = file.inode sizeWord

variable {volume : Ext2} {block : UInt32} {file : Ext2File} {i index : Nat}

section

variable (kb : volume.superBlock.blockSizeKb ≤ 1)
include kb

theorem toNat_blockSize : volume.blockSize.toNat = volume.formatBlockSize := by
  have cases : volume.superBlock.blockSizeKb = 0 ∨ volume.superBlock.blockSizeKb = 1 := by
    have inWord : volume.superBlock.blockSizeKb.toNat ≤ 1 := kb
    rcases Nat.le_one_iff_eq_zero_or_eq_one.mp inWord with zero | one
    · exact .inl (UInt32.toNat_inj.mp zero)
    · exact .inr (UInt32.toNat_inj.mp one)
  unfold blockSize formatBlockSize
  rcases cases with isKb | isKb
  · rw [isKb]
    rfl
  · rw [isKb]
    rfl

theorem toNat_div_blockSize (value : UInt32) :
    (value / volume.blockSize).toNat = value.toNat / volume.formatBlockSize := by
  rw [UInt32.toNat_div, toNat_blockSize kb]

theorem toNat_mod_blockSize (value : UInt32) :
    (value % volume.blockSize).toNat = value.toNat % volume.formatBlockSize := by
  rw [UInt32.toNat_mod, toNat_blockSize kb]

theorem formatBlockSize_le : volume.formatBlockSize ≤ 2048 := by
  have inWord : volume.superBlock.blockSizeKb.toNat ≤ 1 := kb
  calc
    1024 * 2 ^ volume.superBlock.blockSizeKb.toNat ≤ 1024 * 2 ^ 1 :=
      Nat.mul_le_mul_left _ (Nat.pow_le_pow_right (by decide) inWord)
    _ = 2048 := rfl

omit kb in
theorem sectors_formatBlockSize (volume : Ext2) :
    volume.formatBlockSize / 512 * 512 = volume.formatBlockSize := by
  have dvd : 512 ∣ volume.formatBlockSize :=
    Nat.dvd_mul_right_of_dvd (by decide : 512 ∣ 1024) _
  exact Nat.div_mul_cancel dvd

theorem blockBytes_eq : blockBytes volume.blockSize = volume.formatBlockSize := by
  unfold blockBytes
  rw [UInt32.toNat_div, toNat_blockSize kb]
  exact volume.sectors_formatBlockSize

theorem blockAddr_eq (low : volume.Low block) :
    blockAddr volume.blockSize block = block.toNat * volume.formatBlockSize := by
  have dvd : 512 ∣ block.toNat * volume.formatBlockSize :=
    Nat.dvd_mul_left_of_dvd
      (Nat.dvd_mul_right_of_dvd (by decide : 512 ∣ 1024) _) _
  unfold blockAddr
  rw [UInt32.toNat_div, UInt32.toNat_mul, toNat_blockSize kb, Nat.mod_eq_of_lt low]
  exact Nat.div_mul_cancel dvd

theorem blockRead_apply (low : volume.Low block) (offset : Nat) :
    blockRead volume.disk volume.blockSize block offset =
      volume.disk (block.toNat * volume.formatBlockSize + offset) := by
  rw [blockRead, blockAddr_eq kb low]

theorem readTable_apply (low : volume.Low block) (present : block ≠ 0)
    (inside : index < volume.perBlock) :
    volume.readTable block index = volume.tableEntry block index := by
  have inTable : index < volume.formatBlockSize / 4 := inside
  unfold readTable tableEntry
  rw [toNat_blockSize kb, if_pos inTable, if_neg present]
  apply longAt_congr
  intro byte _
  rw [blockRead_apply kb low, Nat.add_assoc]

theorem toNat_inodesPerBlock : (volume.blockSize / 4).toNat = volume.perBlock := by
  rw [UInt32.toNat_div, toNat_blockSize kb]
  rfl

theorem perBlock_le : volume.perBlock ≤ 512 :=
  Nat.div_le_div_right (formatBlockSize_le kb)

theorem toNat_inodesPerBlock_sq :
    (volume.blockSize / 4 * (volume.blockSize / 4)).toNat = volume.perBlock ^ 2 := by
  have small : volume.perBlock * volume.perBlock ≤ 512 * 512 :=
    Nat.mul_le_mul (perBlock_le kb) (perBlock_le kb)
  rw [UInt32.toNat_mul, toNat_inodesPerBlock kb, Nat.pow_two]
  exact Nat.mod_eq_of_lt (by omega)

theorem toNat_inodesPerBlock_cube :
    (volume.blockSize / 4 * (volume.blockSize / 4) * (volume.blockSize / 4)).toNat =
      volume.perBlock ^ 3 := by
  have small : volume.perBlock ^ 3 ≤ 512 ^ 3 := Nat.pow_le_pow_left (perBlock_le kb) 3
  rw [UInt32.toNat_mul, toNat_inodesPerBlock_sq kb, toNat_inodesPerBlock kb, ← Nat.pow_succ]
  exact Nat.mod_eq_of_lt (Nat.lt_of_le_of_lt small (by decide))

end

theorem toInt32_eq {value : Int} (above : -2 ^ 31 ≤ value) (below : value < 2 ^ 31) :
    toInt32 value = value :=
  Int.bmod_eq_of_le (by omega) (by omega)

theorem tableEntry_ne (present : volume.tableEntry block index ≠ 0) : block ≠ 0 := by
  rintro rfl
  exact present rfl

structure Loaded (volume : Ext2) (file after : Ext2File) : Prop where
  cached : volume.Cached after
  inode : after.inode = file.inode
  pos : after.pos = file.pos

theorem Loaded.refl (cached : volume.Cached file) : Loaded volume file file :=
  ⟨cached, rfl, rfl⟩

theorem firstIndirect_entry (kb : volume.superBlock.blockSizeKb ≤ 1)
    (cached : volume.Cached file) (blockAddr : UInt32) (inside : index < volume.perBlock)
    (low : volume.Low (file.inode (indirectBlock 0)))
    (present : file.inode (indirectBlock 0) ≠ 0) :
    ∃ after, file.firstIndirect volume index blockAddr =
        (volume.tableEntry (file.inode (indirectBlock 0)) index, after) ∧
      Loaded volume file after := by
  have guard : (0 : Int) ≤ index ∧ (index : Int) < (volume.blockSize / 4).toNat ∧
      file.inode (indirectBlock 0) > 0 := by
    rw [toNat_inodesPerBlock kb]
    exact ⟨by omega, by omega, UInt32.pos_iff_ne_zero.mpr present⟩
  unfold Ext2File.firstIndirect
  dsimp only
  rw [if_pos guard, Int.toNat_natCast]
  have entries : ∀ index < volume.perBlock,
      (file.firstIndirectBlocks.getD (volume.readTable (file.inode (indirectBlock 0)))) index =
        volume.tableEntry (file.inode (indirectBlock 0)) index := by
    intro index inTable
    cases isCached : file.firstIndirectBlocks with
    | none => exact readTable_apply kb low present inTable
    | some blocks => exact cached.first blocks isCached present index inTable
  refine ⟨_, Prod.ext (entries index inside) rfl, ?_, rfl, rfl⟩
  refine ⟨?_, cached.secondIdx, cached.second⟩
  intro blocks isBlocks _ index inTable
  cases isBlocks
  exact entries index inTable

theorem secondIndirect_entry (kb : volume.superBlock.blockSizeKb ≤ 1)
    (cached : volume.Cached file) (blockAddr : UInt32) (inside : index < volume.perBlock)
    (lowIdx : volume.Low (file.inode (indirectBlock 1)))
    (low : volume.Low (volume.tableEntry (file.inode (indirectBlock 1)) 0))
    (present : volume.tableEntry (file.inode (indirectBlock 1)) 0 ≠ 0) :
    ∃ after, file.secondIndirect volume index blockAddr =
        (volume.tableEntry (volume.tableEntry (file.inode (indirectBlock 1)) 0) index, after) ∧
      Loaded volume file after := by
  have positive : 0 < volume.perBlock := Nat.zero_lt_of_lt inside
  have square : volume.perBlock ≤ volume.perBlock ^ 2 :=
    Nat.le_self_pow (by decide) _
  have guard : (0 : Int) ≤ index ∧
      (index : Int) < (volume.blockSize / 4 * (volume.blockSize / 4)).toNat ∧
      file.inode (indirectBlock 1) > 0 := by
    rw [toNat_inodesPerBlock_sq kb]
    exact ⟨by omega, by omega, UInt32.pos_iff_ne_zero.mpr (tableEntry_ne present)⟩
  unfold Ext2File.secondIndirect
  dsimp only
  rw [if_pos guard, Int.toNat_natCast, toNat_inodesPerBlock kb, toNat_inodesPerBlock_sq kb,
    Nat.div_eq_of_lt inside, Nat.mod_eq_of_lt (Nat.lt_of_lt_of_le inside square)]
  generalize isIndices : file.secondIndirectIdx.getD
    (volume.readTable (file.inode (indirectBlock 1))) = indices
  have indexEntries : ∀ index < volume.perBlock,
      indices index = volume.tableEntry (file.inode (indirectBlock 1)) index := by
    intro index inTable
    rw [← isIndices]
    cases isCached : file.secondIndirectIdx with
    | none => exact readTable_apply kb lowIdx (tableEntry_ne present) inTable
    | some cachedIdx =>
        exact cached.secondIdx cachedIdx isCached (tableEntry_ne present) index inTable
  generalize isTables : file.secondIndirectBlocks.getD (fun _ => none) = tables
  have kept : ∀ idx < volume.perBlock, ∀ table, tables idx = some table →
      volume.tableEntry (file.inode (indirectBlock 1)) idx ≠ 0 → ∀ index < volume.perBlock,
      table index =
        volume.tableEntry (volume.tableEntry (file.inode (indirectBlock 1)) idx) index := by
    cases isCached : file.secondIndirectBlocks with
    | none =>
        intro idx _ table isTable
        rw [← isTables, isCached] at isTable
        cases isTable
    | some cachedTables =>
        rw [isCached, Option.getD_some] at isTables
        rw [← isTables]
        exact cached.second cachedTables isCached
  generalize isTable : (tables 0).getD (volume.readTable (indices 0)) = table
  have entries : ∀ index < volume.perBlock, table index =
      volume.tableEntry (volume.tableEntry (file.inode (indirectBlock 1)) 0) index := by
    intro index inTable
    rw [← isTable]
    cases isCached : tables 0 with
    | none =>
        rw [Option.getD_none, indexEntries 0 positive]
        exact readTable_apply kb low present inTable
    | some cachedTable => exact kept 0 positive cachedTable isCached present index inTable
  refine ⟨_, Prod.ext (entries index inside) rfl, ?_, rfl, rfl⟩
  refine ⟨cached.first, ?_, ?_⟩
  · intro found isFound _ index inTable
    cases isFound
    exact indexEntries index inTable
  · intro found isFound idx inTable other isOther existing
    cases isFound
    by_cases first : idx = 0
    · subst first
      rw [Function.update_self] at isOther
      cases isOther
      exact entries
    · rw [Function.update_of_ne first] at isOther
      exact kept idx inTable other isOther existing

theorem firstIndirect_past (kb : volume.superBlock.blockSizeKb ≤ 1) (file : Ext2File)
    (blockAddr : UInt32) (past : volume.perBlock ≤ index) :
    file.firstIndirect volume index blockAddr = (blockAddr, file) := by
  unfold Ext2File.firstIndirect
  dsimp only
  rw [toNat_inodesPerBlock kb]
  exact if_neg fun guard => absurd guard.2.1 (by omega)

theorem secondIndirect_before (volume : Ext2) (file : Ext2File) (blockAddr : UInt32)
    {indirectIdx : Int} (before : indirectIdx < 0) :
    file.secondIndirect volume indirectIdx blockAddr = (blockAddr, file) :=
  if_neg fun guard => absurd guard.1 (by omega)

theorem fileBlock_single (inode : Nat → UInt32) (inside : index < volume.perBlock) :
    volume.fileBlock inode (directBlockCount + index) =
      volume.tableEntry (inode (indirectBlock 0)) index := by
  unfold fileBlock
  dsimp only
  rw [if_neg (by omega), Nat.add_sub_cancel_left, if_pos inside]

theorem fileBlock_double (inode : Nat → UInt32) (inside : index < volume.perBlock) :
    volume.fileBlock inode (directBlockCount + (volume.perBlock + index)) =
      volume.tableEntry (volume.tableEntry (inode (indirectBlock 1)) 0) index := by
  have square : volume.perBlock ≤ volume.perBlock ^ 2 := Nat.le_self_pow (by decide) _
  unfold fileBlock
  dsimp only
  rw [if_neg (by omega), Nat.add_sub_cancel_left, if_neg (by omega), Nat.add_sub_cancel_left,
    if_pos (Nat.lt_of_lt_of_le inside square), Nat.div_eq_of_lt inside, Nat.mod_eq_of_lt inside]

theorem Readable.findable {inode : Nat → UInt32} (readable : volume.Readable inode)
    (inside : i * volume.formatBlockSize < (inode sizeWord).toNat) :
    volume.Findable inode i where
  few := Nat.lt_of_mul_lt_mul_right (Nat.lt_of_lt_of_le inside readable.oneTable)
  present := readable.noHole i inside
  low := readable.low i inside
  lowSingle := fun indirect =>
    readable.lowSingle (Nat.lt_of_le_of_lt (Nat.mul_le_mul_right _ indirect) inside)
  lowDouble := fun indirect =>
    readable.lowDouble (Nat.lt_of_le_of_lt (Nat.mul_le_mul_right _ indirect) inside)

theorem findBlock_eq (kb : volume.superBlock.blockSizeKb ≤ 1)
    (findable : volume.Findable file.inode i) (cached : volume.Cached file) :
    ∃ after, file.findBlock volume i = (some (volume.fileBlock file.inode i), after) ∧
      Loaded volume file after := by
  have present := findable.present
  have few := findable.few
  unfold Ext2File.findBlock
  by_cases direct : i < directBlockCount
  · rw [if_pos direct]
    have block : volume.fileBlock file.inode i = file.inode (directBlock i) := if_pos direct
    rw [block]
    exact ⟨file, rfl, Loaded.refl cached⟩
  · obtain ⟨rest, rfl⟩ := Nat.exists_eq_add_of_le (Nat.le_of_not_lt direct)
    have isRest : ((directBlockCount + rest : Nat) : Int) - (directBlockCount : Nat) = rest := by
      omega
    have perBlock := perBlock_le kb
    have square : volume.perBlock ^ 2 ≤ 512 ^ 2 := Nat.pow_le_pow_left perBlock 2
    have cube : volume.perBlock ^ 3 ≤ 512 ^ 3 := Nat.pow_le_pow_left perBlock 3
    have squareLe : volume.perBlock ≤ volume.perBlock ^ 2 := Nat.le_self_pow (by decide) _
    dsimp only
    -- At none of the levels does the index reach the third.
    have first : toInt32 ((rest : Int) - volume.perBlock) = rest - volume.perBlock :=
      toInt32_eq (by omega) (by omega)
    have second : toInt32 ((rest : Int) - volume.perBlock - (volume.perBlock ^ 2 : Nat)) =
        rest - volume.perBlock - (volume.perBlock ^ 2 : Nat) := toInt32_eq (by omega) (by omega)
    rw [if_neg direct, toNat_inodesPerBlock kb, toNat_inodesPerBlock_sq kb,
      toNat_inodesPerBlock_cube kb, isRest, first, second, toInt32_eq (by omega) (by omega)]
    have notThird : ¬ 0 ≤ (rest : Int) - volume.perBlock - (volume.perBlock ^ 2 : Nat) -
        (volume.perBlock ^ 3 : Nat) := by
      omega
    rcases Nat.lt_or_ge rest volume.perBlock with inFirst | past
    · rw [fileBlock_single _ inFirst] at present ⊢
      obtain ⟨after, found, loaded⟩ := firstIndirect_entry kb cached 0xffffffff inFirst
        (findable.lowSingle (by omega)) (tableEntry_ne present)
      rw [found]
      dsimp only
      rw [secondIndirect_before _ _ _ (by omega)]
      exact ⟨after, if_neg notThird, loaded⟩
    · obtain ⟨index, rfl⟩ := Nat.exists_eq_add_of_le past
      have inSecond : index < volume.perBlock := by omega
      have isIndex : ((volume.perBlock + index : Nat) : Int) - volume.perBlock = index := by
        omega
      rw [fileBlock_double _ inSecond] at present ⊢
      obtain ⟨lowIdx, low⟩ := findable.lowDouble (by omega)
      obtain ⟨after, found, loaded⟩ := secondIndirect_entry kb cached 0xffffffff inSecond
        lowIdx low (tableEntry_ne present)
      rw [firstIndirect_past kb _ _ past]
      dsimp only
      rw [isIndex] at notThird ⊢
      rw [found]
      exact ⟨after, if_neg notThird, loaded⟩

def bytesFrom (volume : Ext2) (inode : Nat → UInt32) (position size : Nat) : List UInt8 :=
  (List.range' position size).map (volume.fileByte inode)

theorem bytesFrom_append (inode : Nat → UInt32) (position first second : Nat) :
    volume.bytesFrom inode position first ++ volume.bytesFrom inode (position + first) second =
      volume.bytesFrom inode position (first + second) := by
  unfold bytesFrom
  rw [← List.map_append, List.range'_append_1]

theorem length_bytesFrom (inode : Nat → UInt32) (position size : Nat) :
    (volume.bytesFrom inode position size).length = size := by
  rw [bytesFrom, List.length_map, List.length_range']

theorem toNat_min (left right : UInt32) :
    (min left right).toNat = min left.toNat right.toNat := by
  change (if left ≤ right then left else right).toNat = _
  by_cases order : left ≤ right
  · rw [if_pos order]
    exact (Nat.min_eq_left order).symm
  · rw [if_neg order]
    exact (Nat.min_eq_right (Nat.le_of_not_le order)).symm

theorem inBlock_div_mod (size position place : Nat) (inside : position % size + place < size) :
    (position + place) / size = position / size ∧
      (position + place) % size = position % size + place := by
  have place_mod : place % size = place := Nat.mod_eq_of_lt (by omega)
  have noCarry : position % size + place % size < size := by rwa [place_mod]
  constructor
  · rw [Nat.add_div_eq_of_add_mod_lt noCarry, Nat.div_eq_of_lt (a := place) (by omega),
      Nat.add_zero]
  · rw [Nat.add_mod_of_add_mod_lt noCarry, place_mod]

theorem chunk_eq (kb : volume.superBlock.blockSizeKb ≤ 1) {inode : Nat → UInt32}
    {position size : Nat}
    (present : volume.fileBlock inode (position / volume.formatBlockSize) ≠ 0)
    (low : volume.Low (volume.fileBlock inode (position / volume.formatBlockSize)))
    (inBlock : position % volume.formatBlockSize + size ≤ volume.formatBlockSize) :
    ((List.range size).map fun place =>
      blockRead volume.disk volume.blockSize
        (volume.fileBlock inode (position / volume.formatBlockSize))
        (position % volume.formatBlockSize + place)) =
      volume.bytesFrom inode position size := by
  unfold bytesFrom
  rw [List.range'_eq_map_range, List.map_map]
  apply List.map_congr_left
  intro place inChunk
  have inSize := List.mem_range.mp inChunk
  obtain ⟨sameBlock, offset⟩ :=
    inBlock_div_mod volume.formatBlockSize position place (by omega)
  dsimp only [Function.comp_apply]
  rw [blockRead_apply kb low, fileByte, byteAddr, sameBlock, offset, if_neg present]

structure PassSize (volume : Ext2) (pos size readSize : UInt32) : Prop where
  positive : 0 < readSize.toNat
  atMost : readSize.toNat ≤ size.toNat
  inBlock : pos.toNat % volume.formatBlockSize + readSize.toNat ≤ volume.formatBlockSize
  position : (pos + readSize).toNat = pos.toNat + readSize.toNat
  left : (size - readSize).toNat = size.toNat - readSize.toNat
  next : size - readSize ≠ 0 → (pos + readSize).toNat / volume.formatBlockSize =
    pos.toNat / volume.formatBlockSize + 1

theorem passSize (kb : volume.superBlock.blockSizeKb ≤ 1) {pos size : UInt32} (more : size ≠ 0)
    (inWord : pos.toNat + size.toNat < 2 ^ 32) :
    volume.PassSize pos size (min size (volume.blockSize - pos % volume.blockSize)) := by
  have positive := volume.formatBlockSize_pos
  have inBlock := Nat.mod_lt pos.toNat positive
  have some : 0 < size.toNat := UInt32.pos_iff_ne_zero.mpr more
  have offsetLe : pos % volume.blockSize ≤ volume.blockSize := by
    rw [UInt32.le_iff_toNat_le, toNat_mod_blockSize kb, toNat_blockSize kb]
    exact Nat.le_of_lt inBlock
  have isSize : (min size (volume.blockSize - pos % volume.blockSize)).toNat =
      min size.toNat (volume.formatBlockSize - pos.toNat % volume.formatBlockSize) := by
    rw [toNat_min, UInt32.toNat_sub_of_le _ _ offsetLe, toNat_mod_blockSize kb,
      toNat_blockSize kb]
  generalize min size (volume.blockSize - pos % volume.blockSize) = readSize at isSize ⊢
  have atMost : readSize.toNat ≤ size.toNat := by omega
  have isPos : (pos + readSize).toNat = pos.toNat + readSize.toNat := by
    rw [UInt32.toNat_add, Nat.mod_eq_of_lt (by omega)]
  have isRest : (size - readSize).toNat = size.toNat - readSize.toNat :=
    UInt32.toNat_sub_of_le _ _ (UInt32.le_iff_toNat_le.mpr atMost)
  refine ⟨by omega, atMost, by omega, isPos, isRest, ?_⟩
  intro unfinished
  have isMore : 0 < (size - readSize).toNat := UInt32.pos_iff_ne_zero.mpr unfinished
  have split := Nat.div_add_mod pos.toNat volume.formatBlockSize
  have nextBlock : pos.toNat + readSize.toNat =
      volume.formatBlockSize * (pos.toNat / volume.formatBlockSize + 1) := by
    rw [Nat.mul_add, Nat.mul_one]
    omega
  rw [isPos, nextBlock, Nat.mul_div_cancel_left _ positive]

theorem readLoop_pass {block : UInt32} {loaded : Ext2File} {fuel : Nat} {size : UInt32}
    {out : List UInt8} (found : file.findBlock volume i = (some block, loaded))
    (present : block ≠ 0) (more : size ≠ 0) :
    Ext2File.readLoop volume (fuel + 1) i file size out =
      Ext2File.readLoop volume fuel (i + 1)
        { loaded with
          pos := loaded.pos + min size (volume.blockSize - loaded.pos % volume.blockSize) }
        (size - min size (volume.blockSize - loaded.pos % volume.blockSize))
        (out ++ (List.range
          (min size (volume.blockSize - loaded.pos % volume.blockSize)).toNat).map fun place =>
            blockRead volume.disk volume.blockSize block
              ((loaded.pos % volume.blockSize).toNat + place)) := by
  rw [Ext2File.readLoop, if_neg more, found]
  dsimp only
  rw [if_neg present]

theorem readLoop_eq (kb : volume.superBlock.blockSizeKb ≤ 1) {inode : Nat → UInt32} (fuel i : Nat)
    (file : Ext2File) (isInode : file.inode = inode) (cached : volume.Cached file)
    (size : UInt32) (out : List UInt8) (enough : size.toNat < fuel)
    (findable : ∀ position, file.pos.toNat ≤ position → position < file.pos.toNat + size.toNat →
      volume.Findable inode (position / volume.formatBlockSize))
    (inWord : file.pos.toNat + size.toNat < 2 ^ 32)
    (atBlock : size ≠ 0 → i = file.pos.toNat / volume.formatBlockSize) :
    ∃ after, Ext2File.readLoop volume fuel i file size out =
      some (((out.length + size.toNat : Nat) : Int),
        out ++ volume.bytesFrom inode file.pos.toNat size.toNat, after) ∧
      after.pos.toNat = file.pos.toNat + size.toNat := by
  induction fuel generalizing i file size out with
  | zero => cases enough
  | succ fuel ih =>
      by_cases done : size = 0
      · subst done
        rw [Ext2File.readLoop, if_pos rfl]
        exact ⟨file, by simp [bytesFrom], rfl⟩
      · subst isInode
        have isBlock := atBlock done
        subst isBlock
        have sizePositive : 0 < size.toNat := UInt32.pos_iff_ne_zero.mpr done
        have here := findable file.pos.toNat (Nat.le_refl _) (by omega)
        obtain ⟨loadedFile, found, loaded⟩ := findBlock_eq kb here cached
        have passed := passSize kb done inWord
        rw [readLoop_pass found here.present done, loaded.pos]
        generalize min size (volume.blockSize - file.pos % volume.blockSize) = readSize
          at passed ⊢
        have isPos := passed.position
        have isRest := passed.left
        have atMost := passed.atMost
        have positive := passed.positive
        rw [toNat_mod_blockSize kb, chunk_eq kb here.present here.low passed.inBlock]
        have sameInode := loaded.inode
        obtain ⟨after, rest, atEnd⟩ := ih (file.pos.toNat / volume.formatBlockSize + 1)
          { loadedFile with pos := file.pos + readSize } sameInode
          ⟨loaded.cached.first, loaded.cached.secondIdx, loaded.cached.second⟩
          (size - readSize)
          (out ++ volume.bytesFrom file.inode file.pos.toNat readSize.toNat)
          (by omega) (by
            intro position behind inRest
            exact findable position (by dsimp only at behind; omega)
              (by dsimp only at inRest; omega))
          (by dsimp only; omega) (fun unfinished => (passed.next unfinished).symm)
        refine ⟨after, rest.trans ?_, ?_⟩
        · dsimp only
          rw [isPos, isRest, List.append_assoc, bytesFrom_append, List.length_append,
            length_bytesFrom]
          have total : readSize.toNat + (size.toNat - readSize.toNat) = size.toNat := by omega
          rw [Nat.add_assoc, total]
        · dsimp only at atEnd
          omega

theorem ext2Read_contents (file : Ext2File) (readable : volume.Readable file.inode)
    (cached : volume.Cached file) (isFile : file.isFile = true)
    (size : file.size = file.inode sizeWord) (start : file.pos = 0) :
    ∃ after, file.ext2Read volume file.size =
      some (((volume.contents file.inode).length : Int), volume.contents file.inode, after) := by
  unfold Ext2File.ext2Read
  rw [if_pos isFile, start, UInt32.sub_zero, size]
  have whole : min (file.inode sizeWord) (file.inode sizeWord) = file.inode sizeWord := by
    rw [← UInt32.toNat_inj, toNat_min, Nat.min_self]
  rw [whole]
  have start_toNat : file.pos.toNat = 0 := by
    rw [start]
    rfl
  obtain ⟨after, read, -⟩ := readLoop_eq readable.blockSize (2 ^ 32)
    ((0 : UInt32) / volume.blockSize).toNat file rfl cached (file.inode sizeWord) []
    (file.inode sizeWord).toNat_lt
    (by
      intro position _ inside
      rw [start_toNat, Nat.zero_add] at inside
      exact readable.findable (Nat.lt_of_le_of_lt (Nat.div_mul_le_self _ _) inside))
    (by
      rw [start_toNat, Nat.zero_add]
      exact (file.inode sizeWord).toNat_lt)
    (by
      intro _
      rw [start, UInt32.toNat_div, UInt32.toNat_zero, Nat.zero_div, Nat.zero_div])
  refine ⟨after, read.trans ?_⟩
  have isContents : volume.bytesFrom file.inode file.pos.toNat (file.inode sizeWord).toNat =
      volume.contents file.inode := by
    rw [start, bytesFrom, contents, List.range_eq_range']
    rfl
  rw [isContents, List.length_nil, Nat.zero_add, List.nil_append, contents, List.length_map,
    List.length_range]

end Ext2

end CleanOS.Fs
