import CleanOS.Lib.Scatter
import CleanOS.Fs.Ext2Read

/-!
# Writing ext2 files

What `ext2_write` does to the device where it finds every block in the inode: where nothing
has to be allocated and the direct blocks are enough, it scatters the buffer over the blocks
of the file and replaces the inode.
-/

namespace CleanOS.Fs

open CleanOS.Lib

namespace Ext2

/-- The write needs no new block and no indirect block, in a file that can be read. -/
structure InPlace (volume : Ext2) (file : Ext2File) (length : Nat) : Prop
    extends Readable volume file.inode where
  lowInode : volume.inodeAddr file.inodeIdx < 2 ^ 32
  noAlloc : file.pos.toNat + length ≤ (up2 file.size volume.blockSize).toNat
  direct : file.pos.toNat + length ≤ directBlockCount * volume.formatBlockSize ∨
    length = 0 ∧ file.pos.toNat % volume.formatBlockSize = 0

variable {volume after : Ext2} {file : Ext2File} {buf chunk : List UInt8} {block : UInt32}

/-! ### One block -/

theorem blockWrite_eq_patch (kb : volume.superBlock.blockSizeKb ≤ 1) (low : volume.Low block)
    {offset : Nat} {bytes : Nat → UInt8}
    (inside : offset + chunk.length ≤ volume.formatBlockSize)
    (same : ∀ (place : Nat) (inChunk : place < chunk.length), bytes place = chunk[place]) :
    blockWrite volume.disk volume.blockSize
        (copyInto (blockRead volume.disk volume.blockSize block) offset chunk.length bytes) block =
      patch volume.disk (block.toNat * volume.formatBlockSize + offset) chunk := by
  have isRead : blockRead volume.disk volume.blockSize block = fun offset =>
      volume.disk (block.toNat * volume.formatBlockSize + offset) :=
    funext (blockRead_apply kb low)
  funext address
  rw [isRead]
  unfold blockWrite patch copyInto
  rw [blockAddr_eq kb low, blockBytes_eq kb]
  generalize block.toNat * volume.formatBlockSize = start
  split
  next inBlock =>
    obtain ⟨place, rfl⟩ := Nat.exists_eq_add_of_le inBlock.1
    rw [Nat.add_sub_cancel_left]
    by_cases inChunk : offset ≤ place ∧ place < offset + chunk.length
    · have isPlace : start + place - (start + offset) = place - offset := by omega
      rw [if_pos inChunk, if_pos (by omega), isPlace, List.getElem?_eq_getElem (by omega),
        Option.getD_some, same _ (by omega)]
    · rw [if_neg inChunk]
      split
      next past => rw [List.getElem?_eq_none (by omega), Option.getD_none]
      next => rfl
  next outside =>
    split
    next past => rw [List.getElem?_eq_none (by omega), Option.getD_none]
    next => rfl

/-! ### The blocks of a write -/

def directAddr (volume : Ext2) (inode : Nat → UInt32) (position : Nat) : Nat :=
  (inode (directBlock (position / volume.formatBlockSize))).toNat * volume.formatBlockSize +
    position % volume.formatBlockSize

structure Wrote (before after : Writing) (chunk : List UInt8) : Prop where
  disk : after.volume.disk =
    scatter (before.volume.directAddr before.file.inode) before.volume.disk
      before.file.pos.toNat chunk
  writes : ∃ blocks, after.volume.writes = before.volume.writes ++ blocks ∧
    ∀ block ∈ blocks, ∃ i, block = before.file.inode (directBlock i) ∧
      before.file.pos.toNat / before.volume.formatBlockSize ≤ i ∧
      i * before.volume.formatBlockSize < before.file.pos.toNat + chunk.length
  volume : after.volume =
    { before.volume with disk := after.volume.disk, writes := after.volume.writes }
  file : after.file = { before.file with
    pos := after.file.pos, size := after.file.size, inode := after.file.inode }
  pos : after.file.pos.toNat = before.file.pos.toNat + chunk.length
  size : after.file.size.toNat =
    max before.file.size.toNat (before.file.pos.toNat + chunk.length)
  stored : after.file.inode sizeWord = after.file.size
  words : ∀ word ≠ sizeWord, after.file.inode word = before.file.inode word
  buf : before.buf = chunk ++ after.buf

theorem directBlock_ne (i : Nat) : directBlock i ≠ sizeWord := by
  unfold directBlock sizeWord
  omega

namespace Wrote

variable {before middle last : Writing} {more : List UInt8}

theorem refl (inFile : before.file.pos ≤ before.file.size)
    (stored : before.file.inode sizeWord = before.file.size) : Wrote before before [] where
  disk := rfl
  writes := ⟨[], (List.append_nil _).symm, fun _ isBlock => absurd isBlock List.not_mem_nil⟩
  volume := rfl
  file := rfl
  pos := rfl
  size := (Nat.max_eq_left inFile).symm
  stored := stored
  words := fun _ _ => rfl
  buf := rfl

theorem formatBlockSize (wrote : Wrote before middle chunk) :
    middle.volume.formatBlockSize = before.volume.formatBlockSize := by
  rw [wrote.volume]
  rfl

theorem directAddr (wrote : Wrote before middle chunk) :
    middle.volume.directAddr middle.file.inode = before.volume.directAddr before.file.inode := by
  funext position
  rw [Ext2.directAddr, Ext2.directAddr, wrote.formatBlockSize, wrote.words _ (directBlock_ne _)]

theorem trans (first : Wrote before middle chunk) (second : Wrote middle last more) :
    Wrote before last (chunk ++ more) where
  disk := by
    rw [second.disk, first.disk, first.directAddr, first.pos, ← scatter_append]
  writes := by
    obtain ⟨firstBlocks, firstWrites, firstOwn⟩ := first.writes
    obtain ⟨secondBlocks, secondWrites, secondOwn⟩ := second.writes
    refine ⟨firstBlocks ++ secondBlocks, ?_, ?_⟩
    · rw [secondWrites, firstWrites, List.append_assoc]
    · intro block isBlock
      rw [List.length_append]
      rcases List.mem_append.mp isBlock with isFirst | isSecond
      · obtain ⟨i, isBlock, started, inside⟩ := firstOwn block isFirst
        exact ⟨i, isBlock, started, by omega⟩
      · obtain ⟨i, isBlock, started, inside⟩ := secondOwn block isSecond
        rw [first.words _ (directBlock_ne i)] at isBlock
        rw [first.formatBlockSize, first.pos] at started inside
        have later : before.file.pos.toNat / before.volume.formatBlockSize ≤
            (before.file.pos.toNat + chunk.length) / before.volume.formatBlockSize :=
          Nat.div_le_div_right (Nat.le_add_right _ _)
        exact ⟨i, isBlock, Nat.le_trans later started, by omega⟩
  volume := by rw [second.volume, first.volume]
  file := by rw [second.file, first.file]
  pos := by rw [second.pos, first.pos, List.length_append, Nat.add_assoc]
  size := by
    rw [second.size, first.size, first.pos, List.length_append]
    omega
  stored := second.stored
  words := fun word other => (second.words word other).trans (first.words word other)
  buf := by rw [first.buf, second.buf, List.append_assoc]

end Wrote

theorem toNat_max (left right : UInt32) :
    (max left right).toNat = max left.toNat right.toNat := by
  change (if left ≤ right then right else left).toNat = _
  by_cases order : left ≤ right
  · rw [if_pos order]
    exact (Nat.max_eq_right order).symm
  · rw [if_neg order]
    exact (Nat.max_eq_left (Nat.le_of_not_le order)).symm

theorem writeBlock_wrote {writing : Writing}
    (kb : writing.volume.superBlock.blockSizeKb ≤ 1)
    (low : writing.volume.Low (writing.file.inode
      (directBlock (writing.file.pos.toNat / writing.volume.formatBlockSize))))
    (fits : writing.file.pos.toNat + writing.buf.length < 2 ^ 32)
    (started : writing.buf ≠ [] ∨
      writing.file.pos.toNat % writing.volume.formatBlockSize ≠ 0) :
    Wrote writing writing.writeBlock (writing.buf.take
      (writing.volume.formatBlockSize -
        writing.file.pos.toNat % writing.volume.formatBlockSize)) := by
  obtain ⟨volume, file, buf, written⟩ := writing
  dsimp only at *
  have inBlock := Nat.mod_lt file.pos.toNat volume.formatBlockSize_pos
  have offset := toNat_mod_blockSize kb file.pos
  have index := toNat_div_blockSize kb file.pos
  generalize isChunk : buf.take
    (volume.formatBlockSize - file.pos.toNat % volume.formatBlockSize) = chunk
  have length : chunk.length =
      min (volume.formatBlockSize - file.pos.toNat % volume.formatBlockSize) buf.length := by
    rw [← isChunk, List.length_take]
  have toNat_writeSize : (min (volume.blockSize - file.pos % volume.blockSize)
      (UInt32.ofNat buf.length)).toNat = chunk.length := by
    have offsetLe : file.pos % volume.blockSize ≤ volume.blockSize := by
      rw [UInt32.le_iff_toNat_le, offset, toNat_blockSize kb]
      exact Nat.le_of_lt inBlock
    rw [toNat_min, UInt32.toNat_sub_of_le _ _ offsetLe, offset, toNat_blockSize kb,
      UInt32.toNat_ofNat_of_lt' (by change buf.length < 2 ^ 32; omega), length]
  have same : ∀ (place : Nat) (inChunk : place < chunk.length),
      (buf[place]?).getD 0 = chunk[place] := by
    intro place inChunk
    have inBuf : place < buf.length := by omega
    rw [List.getElem?_eq_getElem inBuf, Option.getD_some]
    simp only [← isChunk, List.getElem_take]
  have toNat_pos : (file.pos + min (volume.blockSize - file.pos % volume.blockSize)
      (UInt32.ofNat buf.length)).toNat = file.pos.toNat + chunk.length := by
    rw [UInt32.toNat_add, toNat_writeSize, Nat.mod_eq_of_lt (by omega)]
  unfold Writing.writeBlock
  dsimp only
  rw [offset, index, toNat_writeSize, blockWrite_eq_patch kb low (by omega) same]
  refine ⟨?_, ⟨[_], rfl, ?_⟩, rfl, rfl, toNat_pos, ?_, ?_, ?_, ?_⟩
  · dsimp only
    rw [scatter_eq_patch]
    intro place inChunk
    obtain ⟨sameBlock, isOffset⟩ :=
      inBlock_div_mod volume.formatBlockSize file.pos.toNat place (by omega)
    rw [directAddr, sameBlock, isOffset, Nat.add_assoc]
  · intro block isBlock
    refine ⟨_, List.mem_singleton.mp isBlock, Nat.le_refl _, ?_⟩
    have split := Nat.div_add_mod' file.pos.toNat volume.formatBlockSize
    rcases started with more | unaligned
    · have positive := List.length_pos_iff.mpr more
      dsimp only
      omega
    · dsimp only
      omega
  · dsimp only
    rw [toNat_max, toNat_pos]
  · dsimp only
    rw [Function.update_self]
  · exact fun word other => Function.update_of_ne other _ _
  · have isTake : chunk = buf.take chunk.length := by
      rw [length, ← List.take_eq_take_min, isChunk]
    calc
      buf = buf.take chunk.length ++ buf.drop chunk.length := (List.take_append_drop _ _).symm
      _ = chunk ++ buf.drop chunk.length := by rw [← isTake]

structure Ready (writing : Writing) : Prop where
  blockSize : writing.volume.superBlock.blockSizeKb ≤ 1
  low : ∀ i, writing.file.pos.toNat / writing.volume.formatBlockSize ≤ i →
    i * writing.volume.formatBlockSize < writing.file.pos.toNat + writing.buf.length →
    writing.volume.Low (writing.file.inode (directBlock i))
  fits : writing.file.pos.toNat + writing.buf.length < 2 ^ 32
  inFile : writing.file.pos ≤ writing.file.size
  stored : writing.file.inode sizeWord = writing.file.size

theorem Wrote.ready {before after : Writing} (wrote : Wrote before after chunk)
    (ready : Ready before) : Ready after := by
  have length : before.buf.length = chunk.length + after.buf.length := by
    rw [wrote.buf, List.length_append]
  have sameEnd : after.file.pos.toNat + after.buf.length =
      before.file.pos.toNat + before.buf.length := by
    rw [wrote.pos, length, Nat.add_assoc]
  refine ⟨?_, ?_, ?_, ?_, wrote.stored⟩
  · rw [wrote.volume]
    exact ready.blockSize
  · intro i started inside
    rw [sameEnd, wrote.formatBlockSize] at inside
    rw [wrote.pos, wrote.formatBlockSize] at started
    have later : before.file.pos.toNat / before.volume.formatBlockSize ≤
        (before.file.pos.toNat + chunk.length) / before.volume.formatBlockSize :=
      Nat.div_le_div_right (Nat.le_add_right _ _)
    unfold Low
    rw [wrote.words _ (directBlock_ne i), wrote.formatBlockSize]
    exact ready.low i (Nat.le_trans later started) inside
  · rw [sameEnd]
    exact ready.fits
  · rw [UInt32.le_iff_toNat_le, wrote.pos, wrote.size]
    exact Nat.le_max_right _ _

theorem Ready.writeBlock {writing : Writing} (ready : Ready writing)
    (started : writing.buf ≠ [] ∨
      writing.file.pos.toNat % writing.volume.formatBlockSize ≠ 0) :
    Wrote writing writing.writeBlock (writing.buf.take
      (writing.volume.formatBlockSize -
        writing.file.pos.toNat % writing.volume.formatBlockSize)) := by
  refine writeBlock_wrote ready.blockSize (ready.low _ (Nat.le_refl _) ?_) ready.fits started
  have split := Nat.div_add_mod' writing.file.pos.toNat writing.volume.formatBlockSize
  rcases started with more | unaligned
  · have positive := List.length_pos_iff.mpr more
    omega
  · omega

theorem writeLoop_wrote (fuel : Nat) {writing : Writing} (ready : Ready writing)
    (enough : writing.buf.length ≤ fuel) :
    Wrote writing (writing.writeLoop fuel) writing.buf := by
  induction fuel generalizing writing with
  | zero =>
      have isDone := List.eq_nil_of_length_eq_zero (Nat.le_zero.mp enough)
      rw [isDone]
      exact Wrote.refl ready.inFile ready.stored
  | succ fuel ih =>
      unfold Writing.writeLoop
      by_cases isDone : writing.buf = []
      · rw [if_pos isDone, isDone]
        exact Wrote.refl ready.inFile ready.stored
      · rw [if_neg isDone]
        have block := ready.writeBlock (.inl isDone)
        have length := congrArg List.length block.buf
        have positive := List.length_pos_iff.mpr isDone
        have inBlock := Nat.mod_lt writing.file.pos.toNat writing.volume.formatBlockSize_pos
        rw [List.length_append, List.length_take] at length
        have rest := block.trans (ih (block.ready ready) (by omega))
        rwa [← block.buf] at rest

theorem writes_wrote {writing : Writing} (ready : Ready writing) :
    Wrote writing ((if writing.file.pos % writing.volume.blockSize ≠ 0
      then writing.writeBlock else writing).writeLoop writing.buf.length) writing.buf := by
  split
  next unaligned =>
    have offset : writing.file.pos.toNat % writing.volume.formatBlockSize ≠ 0 := by
      rw [← toNat_blockSize ready.blockSize, ← UInt32.toNat_mod]
      exact fun zero => unaligned (UInt32.toNat_inj.mp zero)
    have block := ready.writeBlock (.inr offset)
    have length := congrArg List.length block.buf
    rw [List.length_append] at length
    have rest := block.trans (writeLoop_wrote writing.buf.length (block.ready ready) (by omega))
    rwa [← block.buf] at rest
  next => exact writeLoop_wrote _ ready (Nat.le_refl _)

/-! ### No allocation -/

theorem block_of_lt_up2 (kb : volume.superBlock.blockSizeKb ≤ 1) (size : UInt32)
    (small : size.toNat + volume.formatBlockSize < 2 ^ 32) {position : Nat}
    (inside : position < (up2 size volume.blockSize).toNat) :
    position / volume.formatBlockSize * volume.formatBlockSize < size.toNat := by
  have start := Nat.div_mul_le_self position volume.formatBlockSize
  have rest := toNat_mod_blockSize kb size
  unfold up2 at inside
  split at inside
  next => omega
  next partly =>
    have notZero : size.toNat % volume.formatBlockSize ≠ 0 := by
      rw [← rest]
      exact fun zero => partly (UInt32.toNat_inj.mp zero)
    have split := Nat.div_add_mod' size.toNat volume.formatBlockSize
    have toNat_down2 : (down2 size volume.blockSize).toNat =
        size.toNat / volume.formatBlockSize * volume.formatBlockSize := by
      unfold down2
      rw [UInt32.toNat_sub_of_le _ _ (UInt32.le_iff_toNat_le.mpr (by omega)), rest]
      omega
    rw [UInt32.toNat_add, toNat_down2, toNat_blockSize kb, Nat.mod_eq_of_lt (by omega)] at inside
    have index : position / volume.formatBlockSize ≤ size.toNat / volume.formatBlockSize := by
      refine Nat.le_of_lt_succ (Nat.div_lt_of_lt_mul ?_)
      rw [Nat.mul_succ, Nat.mul_comm]
      exact inside
    have blocks := Nat.mul_le_mul_right volume.formatBlockSize index
    omega

theorem up2_le (kb : volume.superBlock.blockSizeKb ≤ 1) (size : UInt32)
    (small : size.toNat + volume.formatBlockSize < 2 ^ 32) :
    (up2 size volume.blockSize).toNat ≤ size.toNat + volume.formatBlockSize := by
  unfold up2
  split
  next => omega
  next =>
    have less : (size % volume.blockSize).toNat ≤ size.toNat := Nat.mod_le _ _
    unfold down2
    rw [UInt32.toNat_add, UInt32.toNat_sub_of_le _ _ (UInt32.le_iff_toNat_le.mpr less),
      toNat_blockSize kb, Nat.mod_eq_of_lt (by omega)]
    omega

theorem toInt32_sub_nonpos (left right : UInt32) (le : left.toNat ≤ right.toNat)
    (small : right.toNat ≤ 2 ^ 31) : toInt32 (left - right).toNat ≤ 0 := by
  rcases Nat.eq_or_lt_of_le le with same | less
  · rw [UInt32.toNat_inj.mp same, UInt32.sub_self]
    decide
  · have value : (left - right).toNat = 2 ^ 32 - right.toNat + left.toNat := by
      rw [UInt32.toNat_sub]
      exact Nat.mod_eq_of_lt (by omega)
    unfold toInt32
    rw [Int.bmod_neg]
    · omega
    · omega

namespace InPlace

variable {length : Nat}

theorem small (inPlace : volume.InPlace file length) (opened : volume.Opened file) :
    file.size.toNat + volume.formatBlockSize < 2 ^ 31 := by
  have kb := inPlace.blockSize
  have blocks : directBlockCount + 2 * volume.perBlock ≤ 1036 := by
    have perBlock := perBlock_le kb
    unfold directBlockCount
    omega
  have size := Nat.le_trans inPlace.oneTable (Nat.mul_le_mul blocks (formatBlockSize_le kb))
  have blockSize := formatBlockSize_le kb
  rw [opened.size]
  omega

theorem grow_eq (inPlace : volume.InPlace file length) (opened : volume.Opened file) :
    file.grow volume (UInt32.ofNat length) = (volume, file) := by
  have kb := inPlace.blockSize
  have small := inPlace.small opened
  have rounded := up2_le kb file.size (by omega)
  have fits := inPlace.noAlloc
  have toNat_end : (file.pos + UInt32.ofNat length).toNat = file.pos.toNat + length := by
    rw [UInt32.toNat_add, UInt32.toNat_ofNat_of_lt' (by change length < 2 ^ 32; omega),
      Nat.mod_eq_of_lt (by omega)]
  have notPositive := toInt32_sub_nonpos
    (file.pos + UInt32.ofNat length) (up2 file.size volume.blockSize)
    (by omega) (by omega)
  rw [Ext2File.grow]
  generalize toInt32
    (file.pos + UInt32.ofNat length - up2 file.size volume.blockSize).toNat = allocSize at *
  exact if_neg (Int.not_lt.mpr notPositive)

theorem inSize (inPlace : volume.InPlace file length) (opened : volume.Opened file) {i : Nat}
    (inside : i * volume.formatBlockSize < file.pos.toNat + length) :
    i * volume.formatBlockSize < (file.inode sizeWord).toNat := by
  have small := inPlace.small opened
  have rounded := block_of_lt_up2 inPlace.blockSize file.size (by omega)
    (Nat.lt_of_lt_of_le inside inPlace.noAlloc)
  rwa [Nat.mul_div_cancel _ volume.formatBlockSize_pos, opened.size] at rounded

theorem isDirect (inPlace : volume.InPlace file length) {i : Nat}
    (started : file.pos.toNat / volume.formatBlockSize ≤ i)
    (inside : i * volume.formatBlockSize < file.pos.toNat + length) : i < directBlockCount := by
  rcases inPlace.direct with direct | ⟨rfl, aligned⟩
  · exact Nat.lt_of_mul_lt_mul_right (Nat.lt_of_lt_of_le inside direct)
  · have split := Nat.div_add_mod' file.pos.toNat volume.formatBlockSize
    have start := Nat.mul_le_mul_right volume.formatBlockSize started
    omega

theorem ready (inPlace : volume.InPlace file buf.length) (opened : volume.Opened file)
    (inFile : file.pos ≤ file.size) : Ready ⟨volume, file, buf, 0⟩ := by
  have small := inPlace.small opened
  have rounded := up2_le inPlace.blockSize file.size (by omega)
  have fits := inPlace.noAlloc
  refine ⟨inPlace.blockSize, ?_, ?_, inFile, opened.size.symm⟩
  · intro i started inside
    have low := inPlace.low i (inPlace.inSize opened inside)
    have isBlock : volume.fileBlock file.inode i = file.inode (directBlock i) :=
      if_pos (inPlace.isDirect started inside)
    rwa [isBlock] at low
  · dsimp only
    omega

end InPlace

/-! ### The inode -/

theorem inodePlace_eq (wellFormed : volume.WellFormed)
    (kb : volume.superBlock.blockSizeKb ≤ 1) {inodeIdx : UInt32}
    (hasInode : volume.HasInode inodeIdx) :
    (volume.inodePlace inodeIdx).1.toNat = volume.inodeBlock inodeIdx ∧
      (volume.inodePlace inodeIdx).2.toNat = volume.inodeOffset inodeIdx := by
  have toNat_idx : (inodeIdx - 1).toNat = inodeIdx.toNat - 1 :=
    UInt32.toNat_sub_of_le _ _ (UInt32.le_iff_toNat_le.mpr hasInode.1)
  have toNat_group : ((inodeIdx - 1) / volume.superBlock.inodesPerGroup).toNat =
      volume.inodeGroup inodeIdx := by
    rw [UInt32.toNat_div, toNat_idx, inodeGroup]
  have blockSize := formatBlockSize_le kb
  have index := wellFormed.inodeInGroup_lt inodeIdx
  have perGroup := wellFormed.bitmaps.1
  have size := Nat.le_of_dvd volume.formatBlockSize_pos wellFormed.inodesFit
  have start : volume.inodeInGroup inodeIdx * volume.superBlock.inodeSize.toNat ≤ 16384 * 2048 :=
    Nat.mul_le_mul (by omega) (by omega)
  have toNat_start : ((inodeIdx - 1) % volume.superBlock.inodesPerGroup *
      volume.superBlock.inodeSize.toUInt32).toNat =
      volume.inodeInGroup inodeIdx * volume.superBlock.inodeSize.toNat := by
    rw [UInt32.toNat_mul, UInt32.toNat_mod, toNat_idx, UInt16.toNat_toUInt32]
    exact Nat.mod_eq_of_lt (Nat.lt_of_le_of_lt start (by decide))
  have inImage := wellFormed.reserved _ (wellFormed.inodeBlock_reserved hasInode)
  have total := volume.superBlock.blocksTotal.toNat_lt
  unfold inodePlace
  dsimp only
  constructor
  · rw [UInt32.toNat_add, UInt32.toNat_div, toNat_start, toNat_blockSize kb, toNat_group,
      Nat.add_comm]
    exact Nat.mod_eq_of_lt (Nat.lt_trans inImage total)
  · rw [UInt32.toNat_mod, toNat_start, toNat_blockSize kb]
    rfl

def inodeImage (inode : Nat → UInt32) : List UInt8 :=
  (List.range inodeBytes).map (byteOf inode)

theorem length_inodeImage (inode : Nat → UInt32) : (inodeImage inode).length = inodeBytes := by
  rw [inodeImage, List.length_map, List.length_range]

def putInode (volume : Ext2) (inodeIdx : UInt32) (inode : Nat → UInt32) : Ext2 :=
  { volume with disk := patch volume.disk (volume.inodeAddr inodeIdx) (inodeImage inode) }

theorem rwInode_eq (wellFormed : volume.WellFormed)
    (kb : volume.superBlock.blockSizeKb ≤ 1) {inodeIdx : UInt32}
    (hasInode : volume.HasInode inodeIdx) (low : volume.inodeAddr inodeIdx < 2 ^ 32)
    (disk : Nat → UInt8) (writes : List UInt32) (inode : Nat → UInt32) :
    ({ volume with disk, writes } : Ext2).rwInode inodeIdx inode true =
      (({ volume with disk, writes } : Ext2).putInode inodeIdx inode, inode) := by
  obtain ⟨isBlock, isOffset⟩ := inodePlace_eq wellFormed kb hasInode
  have address := volume.inodeAddr_eq inodeIdx
  have lowBlock : volume.Low (volume.inodePlace inodeIdx).1 := by
    unfold Low
    rw [isBlock]
    omega
  have image := length_inodeImage inode
  have inside : volume.inodeOffset inodeIdx + (inodeImage inode).length ≤
      ({ volume with disk, writes } : Ext2).formatBlockSize := by
    have offsetEnd := wellFormed.inodeOffset_end inodeIdx
    have size := wellFormed.inodeSize
    change _ ≤ volume.formatBlockSize
    omega
  have same : ∀ (place : Nat) (inImage : place < (inodeImage inode).length),
      byteOf inode place = (inodeImage inode)[place] := by
    intro place inImage
    simp only [inodeImage, List.getElem_map, List.getElem_range]
  have written :=
    @blockWrite_eq_patch { volume with disk, writes } _ _ kb lowBlock _ _ inside same
  have start : (volume.inodePlace inodeIdx).1.toNat *
      ({ volume with disk, writes } : Ext2).formatBlockSize + volume.inodeOffset inodeIdx =
      volume.inodeAddr inodeIdx := by
    rw [address, isBlock]
    rfl
  rw [start, image] at written
  unfold rwInode
  have samePlace : ({ volume with disk, writes } : Ext2).inodePlace inodeIdx =
      volume.inodePlace inodeIdx := rfl
  rw [samePlace]
  dsimp only
  rw [if_pos rfl, isOffset]
  exact congrArg (fun bytes => (({ volume with disk := bytes, writes } : Ext2), inode)) written

def stored (writing : Writing) : Ext2 :=
  writing.volume.putInode writing.file.inodeIdx writing.file.inode

theorem ext2Write_eq (wellFormed : volume.WellFormed) (opened : volume.Opened file)
    (inFile : file.pos ≤ file.size) (accepted : file.mode &&& openReadOnly = 0)
    (inPlace : volume.InPlace file buf.length) :
    ∃ writing, Wrote ⟨volume, file, buf, 0⟩ writing buf ∧
      (file.ext2Write volume buf).2 = (stored writing, writing.file) := by
  have wrote := writes_wrote (inPlace.ready opened inFile)
  refine ⟨_, wrote, ?_⟩
  unfold Ext2File.ext2Write
  rw [if_neg (not_not_intro accepted), inPlace.grow_eq opened]
  dsimp only at wrote ⊢
  generalize Writing.writeLoop _ _ = writing at *
  have isVolume := wrote.volume
  have isFile := wrote.file
  dsimp only at isVolume isFile
  have sameIdx : writing.file.inodeIdx = file.inodeIdx := by rw [isFile]
  have written := rwInode_eq wellFormed inPlace.blockSize opened.regular.1 inPlace.lowInode
    writing.volume.disk writing.volume.writes writing.file.inode
  rw [← isVolume, ← sameIdx] at written
  rw [written]
  rfl

end Ext2

end CleanOS.Fs
