import CleanOS.Fs.Ext2Write

/-!
# Writing in place

When `ext2_write` replaces bytes of a file and nothing else.
-/

namespace CleanOS.Fs

open CleanOS.Lib

namespace Ext2

def replaced (bytes : List UInt8) (position : Nat) (buf : List UInt8) : List UInt8 :=
  bytes.take position ++ buf ++ bytes.drop (position + buf.length)

/-- What a write of a buffer at the position of a handle should leave. -/
structure WritesRight (volume : Ext2) (file : Ext2File) (buf : List UInt8) (after : Ext2)
    (fileAfter : Ext2File) : Prop where
  allocated : ∀ position, file.pos.toNat ≤ position → position < file.pos.toNat + buf.length →
    after.fileBlock (after.inodeOf file.inodeIdx) (position / volume.formatBlockSize) ≠ 0
  fresh : ∀ i < volume.blockLimit,
    after.fileBlock (after.inodeOf file.inodeIdx) i =
        volume.fileBlock (volume.inodeOf file.inodeIdx) i ∨
      volume.fileBlock (volume.inodeOf file.inodeIdx) i = 0 ∧
        volume.MarkedFree (after.fileBlock (after.inodeOf file.inodeIdx) i)
  written : ∃ blocks, after.writes = volume.writes ++ blocks ∧
    ∀ block ∈ blocks, block ≠ 0 ∧ ¬ volume.Metadata block
  reads : ∃ reader,
    Ext2File.ext2Read after { fileAfter with pos := 0 }
        (UInt32.ofNat (max file.size.toNat (file.pos.toNat + buf.length))) =
      some (((max file.size.toNat (file.pos.toNat + buf.length) : Nat) : Int),
        replaced (volume.contents (volume.inodeOf file.inodeIdx)) file.pos.toNat buf, reader)
  others : ∀ inodeIdx, volume.HasBlocks inodeIdx → inodeIdx ≠ file.inodeIdx →
    after.contents (after.inodeOf inodeIdx) = volume.contents (volume.inodeOf inodeIdx)

structure Written (volume : Ext2) (file : Ext2File) (buf : List UInt8) (writing : Writing) :
    Prop where
  wellFormed : volume.WellFormed
  opened : volume.Opened file
  inPlace : volume.InPlace file buf.length
  wrote : Wrote ⟨volume, file, buf, 0⟩ writing buf

namespace Written

variable {volume : Ext2} {file : Ext2File} {buf : List UInt8} {writing : Writing}

theorem hasBlocks (written : Written volume file buf writing) :
    volume.HasBlocks file.inodeIdx :=
  ⟨written.opened.regular.1, .inl written.opened.regular.2⟩

theorem sameInode (opened : volume.Opened file) :
    SameFile volume volume file.inode (volume.inodeOf file.inodeIdx) where
  blockSize := rfl
  words := by
    intro word _ inside
    refine (opened.words word ?_).symm
    unfold indirectBlock at inside
    unfold inodeBytes
    omega
  tables := fun _ _ _ _ _ => rfl

theorem size_eq (opened : volume.Opened file) :
    volume.inodeOf file.inodeIdx sizeWord = file.inode sizeWord :=
  (opened.words sizeWord (by decide)).symm

theorem fileBlock_eq (opened : volume.Opened file) {i : Nat}
    (inside : i * volume.formatBlockSize < (file.inode sizeWord).toNat) :
    volume.fileBlock (volume.inodeOf file.inodeIdx) i = volume.fileBlock file.inode i :=
  (sameInode opened).fileBlock (lt_blockLimit _ inside)

theorem hasBlock (written : Written volume file buf writing) {i : Nat}
    (inside : i * volume.formatBlockSize < (file.inode sizeWord).toNat) :
    volume.HasBlock file.inodeIdx i := by
  refine ⟨written.hasBlocks, ?_, ?_⟩
  · rwa [size_eq written.opened]
  · rw [fileBlock_eq written.opened inside]
    exact written.inPlace.noHole i inside

theorem target (written : Written volume file buf writing) {offset : Nat}
    (inBuf : offset < buf.length) :
    volume.HasBlock file.inodeIdx ((file.pos.toNat + offset) / volume.formatBlockSize) ∧
      volume.directAddr file.inode (file.pos.toNat + offset) =
        volume.byteAddr (volume.inodeOf file.inodeIdx) (file.pos.toNat + offset) := by
  have start := Nat.div_mul_le_self (file.pos.toNat + offset) volume.formatBlockSize
  have inWrite : (file.pos.toNat + offset) / volume.formatBlockSize * volume.formatBlockSize <
      file.pos.toNat + buf.length := by
    omega
  have inside := written.inPlace.inSize written.opened inWrite
  have later : file.pos.toNat / volume.formatBlockSize ≤
      (file.pos.toNat + offset) / volume.formatBlockSize :=
    Nat.div_le_div_right (Nat.le_add_right _ _)
  have isBlock : volume.fileBlock file.inode
      ((file.pos.toNat + offset) / volume.formatBlockSize) =
      file.inode (directBlock ((file.pos.toNat + offset) / volume.formatBlockSize)) :=
    if_pos (written.inPlace.isDirect later inWrite)
  refine ⟨written.hasBlock inside, ?_⟩
  rw [directAddr, byteAddr, fileBlock_eq written.opened inside, isBlock]

theorem stored_eq (written : Written volume file buf writing) :
    stored writing =
      { volume with disk := (stored writing).disk, writes := (stored writing).writes } := by
  have isVolume := written.wrote.volume
  dsimp only at isVolume
  unfold stored
  rw [isVolume]
  rfl

theorem stored_disk (written : Written volume file buf writing) :
    (stored writing).disk =
      patch (scatter (volume.directAddr file.inode) volume.disk file.pos.toNat buf)
        (volume.inodeAddr file.inodeIdx) (inodeImage writing.file.inode) := by
  have isVolume := written.wrote.volume
  have isDisk := written.wrote.disk
  have isFile := written.wrote.file
  dsimp only at isVolume isDisk isFile
  have sameIdx : writing.file.inodeIdx = file.inodeIdx := by rw [isFile]
  have sameAddr : writing.volume.inodeAddr file.inodeIdx = volume.inodeAddr file.inodeIdx := by
    rw [isVolume]
    rfl
  unfold stored putInode
  rw [sameIdx, sameAddr, isDisk]

theorem disk_of_apart (written : Written volume file buf writing) {address : Nat}
    (notInode : ∀ byte < inodeBytes, volume.inodeAddr file.inodeIdx + byte ≠ address)
    (notData : ∀ offset < buf.length,
      volume.byteAddr (volume.inodeOf file.inodeIdx) (file.pos.toNat + offset) ≠ address) :
    (stored writing).disk address = volume.disk address := by
  rw [written.stored_disk, patch_of_apart, scatter_of_apart]
  · intro offset inBuf
    rw [(written.target inBuf).2]
    exact notData offset inBuf
  · intro byte inImage
    rw [length_inodeImage] at inImage
    exact notInode byte inImage

theorem disk_of_block (written : Written volume file buf writing) {block offset : Nat}
    (notInode : volume.inodeBlock file.inodeIdx ≠ block)
    (notData : ∀ i, volume.HasBlock file.inodeIdx i →
      (volume.fileBlock (volume.inodeOf file.inodeIdx) i).toNat ≠ block)
    (inside : offset < volume.formatBlockSize) :
    (stored writing).disk (block * volume.formatBlockSize + offset) =
      volume.disk (block * volume.formatBlockSize + offset) := by
  apply written.disk_of_apart
  · intro byte inImage
    have inBlock := written.wellFormed.inodeOffset_end file.inodeIdx
    have size := written.wellFormed.inodeSize
    rw [volume.inodeAddr_eq, Nat.add_assoc]
    exact fun same => notInode (block_offset_inj (by omega) inside same).1
  · intro place inBuf
    exact fun same => notData _ (written.target inBuf).1
      (block_offset_inj (Nat.mod_lt _ volume.formatBlockSize_pos) inside same).1

theorem disk_of_table (written : Written volume file buf writing) {inodeIdx table : UInt32}
    (hasBlocks : volume.HasBlocks inodeIdx)
    (isTable : volume.IsTable (volume.inodeOf inodeIdx) table) (present : table ≠ 0) {offset : Nat}
    (inside : offset < volume.formatBlockSize) :
    (stored writing).disk (table.toNat * volume.formatBlockSize + offset) =
      volume.disk (table.toNat * volume.formatBlockSize + offset) := by
  apply written.disk_of_block _ _ inside
  · intro same
    have reserved := written.wellFormed.inodeBlock_reserved written.opened.regular.1
    rw [same] at reserved
    exact (written.wellFormed.tables inodeIdx hasBlocks table isTable present).2.1 reserved
  · intro i hasBlock same
    have notMetadata := (written.wellFormed.data _ i hasBlock).2.1
    rw [UInt32.toNat_inj.mp same] at notMetadata
    exact notMetadata (.inr ⟨inodeIdx, hasBlocks, isTable⟩)

theorem disk_of_other (written : Written volume file buf writing) {inodeIdx : UInt32} {i : Nat}
    (other : inodeIdx ≠ file.inodeIdx) (hasBlock : volume.HasBlock inodeIdx i) {offset : Nat}
    (inside : offset < volume.formatBlockSize) :
    (stored writing).disk ((volume.fileBlock (volume.inodeOf inodeIdx) i).toNat *
        volume.formatBlockSize + offset) =
      volume.disk ((volume.fileBlock (volume.inodeOf inodeIdx) i).toNat *
        volume.formatBlockSize + offset) := by
  apply written.disk_of_block _ _ inside
  · intro same
    have reserved := written.wellFormed.inodeBlock_reserved written.opened.regular.1
    rw [same] at reserved
    exact (written.wellFormed.data _ i hasBlock).2.1 (.inl reserved)
  · intro j ownBlock same
    exact other (written.wellFormed.once _ _ _ _ ownBlock hasBlock
      (UInt32.toNat_inj.mp same)).1.symm

theorem stored_inodeAddr (written : Written volume file buf writing) (inodeIdx : UInt32) :
    (stored writing).inodeAddr inodeIdx = volume.inodeAddr inodeIdx := by
  rw [written.stored_eq]
  rfl

theorem inodeOf_other (written : Written volume file buf writing) {inodeIdx : UInt32}
    (other : inodeIdx ≠ file.inodeIdx) (hasInode : volume.HasInode inodeIdx) {word : Nat}
    (inInode : 4 * word + 4 ≤ inodeBytes) :
    (stored writing).inodeOf inodeIdx word = volume.inodeOf inodeIdx word := by
  have size := written.wellFormed.inodeSize
  have apart := written.wellFormed.inodeAddr_apart hasInode written.opened.regular.1 other
  unfold inodeOf
  rw [written.stored_inodeAddr]
  apply longAt_congr
  intro byte inLong
  apply written.disk_of_apart
  · intro place inImage
    omega
  · intro place inBuf same
    rw [Nat.add_assoc] at same
    exact written.wellFormed.inode_ne_data hasInode (by omega) (written.target inBuf).1 same.symm

theorem toNat_byteOf (words : Nat → UInt32) (word : Nat) {byte : Nat} (inLong : byte < 4) :
    (byteOf words (4 * word + byte)).toNat = (words word).toNat / 256 ^ byte % 256 := by
  have index : (4 * word + byte) / 4 = word := by omega
  have offset : (4 * word + byte) % 4 = byte := by omega
  rw [byteOf, index, offset, UInt8.toNat_ofNat']

theorem longAt_byteOf (words : Nat → UInt32) (word : Nat) :
    longAt (byteOf words) (4 * word) = words word := by
  have inWord := (words word).toNat_lt
  have low := toNat_byteOf words word (by decide : 0 < 4)
  rw [Nat.add_zero] at low
  rw [← UInt32.toNat_inj, longAt, low, toNat_byteOf words word (by decide : 1 < 4),
    toNat_byteOf words word (by decide : 2 < 4), toNat_byteOf words word (by decide : 3 < 4),
    UInt32.toNat_ofNat']
  omega

theorem inodeOf_own (written : Written volume file buf writing) {word : Nat}
    (inInode : 4 * word + 4 ≤ inodeBytes) :
    (stored writing).inodeOf file.inodeIdx word = writing.file.inode word := by
  rw [← longAt_byteOf writing.file.inode word]
  unfold inodeOf
  rw [written.stored_inodeAddr]
  apply longAt_congr
  intro byte inLong
  rw [written.stored_disk, Nat.add_assoc, patch_at]
  · simp only [inodeImage, List.getElem_map, List.getElem_range]
  · rw [length_inodeImage]
    omega

theorem sameFile_other (written : Written volume file buf writing) {inodeIdx : UInt32}
    (other : inodeIdx ≠ file.inodeIdx) (hasBlocks : volume.HasBlocks inodeIdx) :
    SameFile volume (stored writing) (volume.inodeOf inodeIdx)
      ((stored writing).inodeOf inodeIdx) where
  blockSize := by rw [written.stored_eq]
  words := by
    intro word _ inside
    refine written.inodeOf_other other hasBlocks.1 ?_
    unfold indirectBlock at inside
    unfold inodeBytes
    omega
  tables := fun _ isTable present _ inside =>
    written.disk_of_table hasBlocks isTable present inside

theorem contents_other (written : Written volume file buf writing) {inodeIdx : UInt32}
    (other : inodeIdx ≠ file.inodeIdx) (hasBlocks : volume.HasBlocks inodeIdx) :
    (stored writing).contents ((stored writing).inodeOf inodeIdx) =
      volume.contents (volume.inodeOf inodeIdx) := by
  refine (written.sameFile_other other hasBlocks).contents
    (written.inodeOf_other other hasBlocks.1 (by decide)) ?_
  intro position inSize present
  have start := Nat.div_mul_le_self position volume.formatBlockSize
  exact written.disk_of_other other ⟨hasBlocks, by omega, present⟩
    (Nat.mod_lt _ volume.formatBlockSize_pos)

theorem sameFile_handle (written : Written volume file buf writing) :
    SameFile volume (stored writing) file.inode writing.file.inode where
  blockSize := by rw [written.stored_eq]
  words := by
    intro word above _
    refine written.wrote.words word ?_
    rintro rfl
    exact absurd above (by decide)
  tables := by
    intro table isTable present offset inside
    refine written.disk_of_table written.hasBlocks (isTable.congr ?_) present inside
    intro level inLevel
    refine written.opened.words _ ?_
    unfold indirectBlock inodeBytes
    omega

theorem sameFile_stored (written : Written volume file buf writing) :
    SameFile (stored writing) (stored writing) writing.file.inode
      ((stored writing).inodeOf file.inodeIdx) where
  blockSize := rfl
  words := by
    intro word _ inside
    refine written.inodeOf_own ?_
    unfold indirectBlock at inside
    unfold inodeBytes
    omega
  tables := fun _ _ _ _ _ => rfl

theorem newSize (written : Written volume file buf writing) :
    (writing.file.inode sizeWord).toNat =
      max (file.inode sizeWord).toNat (file.pos.toNat + buf.length) := by
  have size := written.wrote.size
  dsimp only at size
  rw [written.wrote.stored, size, written.opened.size]

theorem inSize (written : Written volume file buf writing) {i : Nat}
    (inside : i * volume.formatBlockSize < (writing.file.inode sizeWord).toNat) :
    i * volume.formatBlockSize < (file.inode sizeWord).toNat := by
  rw [written.newSize] at inside
  rcases Nat.lt_or_ge (i * volume.formatBlockSize) (file.inode sizeWord).toNat with inOld | past
  · exact inOld
  · exact written.inPlace.inSize written.opened (by omega)

theorem byteAddr_eq (written : Written volume file buf writing) {position : Nat}
    (inside : position < (writing.file.inode sizeWord).toNat) :
    volume.HasBlock file.inodeIdx (position / volume.formatBlockSize) ∧
      (stored writing).fileByte writing.file.inode position =
        (stored writing).disk (volume.byteAddr (volume.inodeOf file.inodeIdx) position) := by
  have start := Nat.div_mul_le_self position volume.formatBlockSize
  have inOld := written.inSize (i := position / volume.formatBlockSize) (by omega)
  have same := written.sameFile_handle.fileBlock (lt_blockLimit _ inOld)
  refine ⟨written.hasBlock inOld, ?_⟩
  rw [fileByte, Ext2.byteAddr, written.sameFile_handle.formatBlockSize, same,
    if_neg (written.inPlace.noHole _ inOld), Ext2.byteAddr, fileBlock_eq written.opened inOld]

theorem fileByte_written (written : Written volume file buf writing) (offset : Nat)
    (inBuf : offset < buf.length) :
    (stored writing).fileByte writing.file.inode (file.pos.toNat + offset) = buf[offset] := by
  have inside : file.pos.toNat + offset < (writing.file.inode sizeWord).toNat := by
    rw [written.newSize]
    omega
  obtain ⟨hasBlock, isByte⟩ := written.byteAddr_eq inside
  obtain ⟨_, isTarget⟩ := written.target inBuf
  rw [isByte, written.stored_disk, patch_of_apart, ← isTarget, scatter_at inBuf]
  · intro other otherInBuf same
    rw [(written.target otherInBuf).2, isTarget] at same
    have equal := written.wellFormed.byteAddr_inj (written.target otherInBuf).1 hasBlock same
    omega
  · intro byte inImage
    rw [length_inodeImage] at inImage
    exact written.wellFormed.inode_ne_data written.opened.regular.1 inImage hasBlock

theorem fileByte_kept (written : Written volume file buf writing) {position : Nat}
    (inside : position < (file.inode sizeWord).toNat)
    (outside : position < file.pos.toNat ∨ file.pos.toNat + buf.length ≤ position) :
    (stored writing).fileByte writing.file.inode position =
      volume.fileByte file.inode position := by
  have start := Nat.div_mul_le_self position volume.formatBlockSize
  have inNew : position < (writing.file.inode sizeWord).toNat := by
    rw [written.newSize]
    omega
  obtain ⟨hasBlock, isByte⟩ := written.byteAddr_eq inNew
  rw [isByte, written.disk_of_apart, fileByte,
    if_neg (written.inPlace.noHole _ (by omega)), Ext2.byteAddr, Ext2.byteAddr,
    fileBlock_eq written.opened (by omega)]
  · intro byte inImage
    exact written.wellFormed.inode_ne_data written.opened.regular.1 inImage hasBlock
  · intro offset inBuf same
    have equal := written.wellFormed.byteAddr_inj (written.target inBuf).1 hasBlock same
    omega

theorem contents_handle (written : Written volume file buf writing)
    (inFile : file.pos ≤ file.size) :
    (stored writing).contents writing.file.inode =
      replaced (volume.contents (volume.inodeOf file.inodeIdx)) file.pos.toNat buf := by
  have sameOld : volume.contents (volume.inodeOf file.inodeIdx) = volume.contents file.inode :=
    (sameInode written.opened).contents (size_eq written.opened) fun _ _ _ => rfl
  have pos : file.pos.toNat ≤ (file.inode sizeWord).toNat := by
    rw [← written.opened.size]
    exact inFile
  have newSize := written.newSize
  rw [sameOld]
  unfold replaced contents
  apply List.ext_getElem
  · simp only [List.length_map, List.length_range, List.length_append, List.length_take,
      List.length_drop]
    omega
  · intro position inNew inReplaced
    rw [List.length_map, List.length_range] at inNew
    simp only [List.getElem_append, List.getElem_take, List.getElem_drop, List.getElem_map,
      List.getElem_range, List.length_append, List.length_take, List.length_map,
      List.length_range, Nat.min_eq_left pos]
    split
    next inside =>
      split
      next before => exact written.fileByte_kept (by omega) (.inl before)
      next started =>
        have isByte := written.fileByte_written (position - file.pos.toNat) (by omega)
        rwa [Nat.add_sub_cancel' (Nat.le_of_not_lt started)] at isByte
    next past =>
      rw [Nat.add_sub_cancel' (Nat.le_of_not_lt past)]
      exact written.fileByte_kept (by omega) (.inr (by omega))

theorem readable (written : Written volume file buf writing) :
    (stored writing).Readable writing.file.inode := by
  have inPlace := written.inPlace
  have same := written.sameFile_handle
  have sameSize := same.formatBlockSize
  have table : ∀ level < 3, writing.file.inode (indirectBlock level) =
      file.inode (indirectBlock level) := fun level inside => same.indirect inside
  refine ⟨?_, ?_, ?_, ?_, ?_, ?_⟩
  · rw [same.blockSize]
    exact inPlace.blockSize
  · intro i inside
    rw [sameSize] at inside
    have inOld := written.inSize inside
    rw [same.fileBlock (lt_blockLimit _ inOld)]
    exact inPlace.noHole i inOld
  · rw [same.perBlock, sameSize]
    by_contra past
    have inOld := written.inSize (Nat.lt_of_not_le past)
    exact absurd inPlace.oneTable (Nat.not_le.mpr inOld)
  · intro i inside
    rw [sameSize] at inside
    have inOld := written.inSize inside
    unfold Low
    rw [sameSize, same.fileBlock (lt_blockLimit _ inOld)]
    exact inPlace.low i inOld
  · intro inside
    rw [sameSize] at inside
    unfold Low
    rw [sameSize, table 0 (by decide)]
    exact inPlace.lowSingle (written.inSize inside)
  · intro inside
    rw [same.perBlock, sameSize] at inside
    unfold Low
    rw [sameSize, table 1 (by decide),
      same.tableEntry (.single (by decide : 1 < 3)) volume.perBlock_pos]
    exact inPlace.lowDouble (written.inSize inside)

theorem cached (written : Written volume file buf writing) :
    (stored writing).Cached { writing.file with pos := 0 } := by
  have same := written.sameFile_handle
  have single := same.indirect (by decide : 0 < 3)
  have double := same.indirect (by decide : 1 < 3)
  have isFile := written.wrote.file
  dsimp only at isFile
  have cached := written.opened.toCached
  refine ⟨?_, ?_, ?_⟩
  · intro blocks isBlocks present index inside
    dsimp only at isBlocks present ⊢
    rw [isFile] at isBlocks
    rw [same.perBlock] at inside
    rw [single] at present ⊢
    rw [same.tableEntry (.single (by decide : 0 < 3)) inside]
    exact cached.first blocks isBlocks present index inside
  · intro indices isIndices present index inside
    dsimp only at isIndices present ⊢
    rw [isFile] at isIndices
    rw [same.perBlock] at inside
    rw [double] at present ⊢
    rw [same.tableEntry (.single (by decide : 1 < 3)) inside]
    exact cached.secondIdx indices isIndices present index inside
  · intro tables isTables idx inIdx table isTable present index inside
    dsimp only at isTables present ⊢
    rw [isFile] at isTables
    rw [same.perBlock] at inIdx inside
    rw [double, same.tableEntry (.single (by decide : 1 < 3)) inIdx] at present ⊢
    rw [same.tableEntry (.double (by decide) (by decide) inIdx) inside]
    exact cached.second tables isTables idx inIdx table isTable present index inside

theorem writes (written : Written volume file buf writing) :
    ∃ blocks, (stored writing).writes = volume.writes ++ blocks ∧
      ∀ block ∈ blocks, block ≠ 0 ∧ ¬ volume.Metadata block := by
  obtain ⟨blocks, isWrites, own⟩ := written.wrote.writes
  refine ⟨blocks, isWrites, ?_⟩
  intro block isBlock
  obtain ⟨i, rfl, started, inside⟩ := own block isBlock
  have inSize := written.inPlace.inSize written.opened inside
  have isDirect : volume.fileBlock file.inode i = file.inode (directBlock i) :=
    if_pos (written.inPlace.isDirect started inside)
  have data := (written.wellFormed.data _ i (written.hasBlock inSize)).2.1
  rw [fileBlock_eq written.opened inSize] at data
  dsimp only
  rw [← isDirect]
  exact ⟨written.inPlace.noHole i inSize, data⟩


end Written

variable {volume : Ext2} {file : Ext2File} {buf : List UInt8}

/-- The bytes of an image that are not zero: the bitmaps, the inode 2 of the root directory
and the inode 11 of a file, each with one block. -/
def smallBytes : List (Nat × UInt8) :=
  [(3 * 1024, 0xff), (4 * 1024, 0xff), (4 * 1024 + 1, 0x07),
    (5 * 1024 + 128, 0xed), (5 * 1024 + 129, 0x41), (5 * 1024 + 133, 4), (5 * 1024 + 168, 7),
    (6 * 1024 + 256, 0xa4), (6 * 1024 + 257, 0x81), (6 * 1024 + 261, 4), (6 * 1024 + 296, 8)]

def smallImage : Ext2 where
  superBlock := ⟨16, 64, 55, 1, 0, 8192, 16, 128⟩
  blockGroups := fun _ => ⟨3, 4, 5, 55⟩
  disk := fun address => (smallBytes.lookup address).getD 0
  heap := fun _ => 0
  writes := []

def smallFile (pos : UInt32) : Ext2File where
  isFile := true
  mode := 0
  size := 1024
  pos := pos
  inodeIdx := 11
  inode := smallImage.inodeOf 11
  firstIndirectBlocks := none
  secondIndirectIdx := none
  secondIndirectBlocks := none

theorem smallImage_reserved {block : Nat} (reserved : smallImage.Reserved block) :
    1 ≤ block ∧ block ≤ 6 := by
  have groups : smallImage.groupCount = 1 := by decide
  have descriptors : smallImage.blocksFor (32 * smallImage.groupCount) = 1 := by decide
  have inodes : smallImage.inodeBlocks = 2 := by decide
  cases reserved with
  | superBlock inside _ start before =>
      rw [groups] at inside
      rw [descriptors] at before
      have first : smallImage.superBlock.superBlockId.toNat = 1 := rfl
      obtain rfl := Nat.lt_one_iff.mp inside
      omega
  | blockBitmap _ isBitmap =>
      have three : block = 3 := isBitmap
      omega
  | inodeBitmap _ isBitmap =>
      have four : block = 4 := isBitmap
      omega
  | inodeTable _ start before =>
      have first : 5 ≤ block := start
      have last : block < 5 + smallImage.inodeBlocks := before
      omega

theorem smallImage_hasBlocks {inodeIdx : UInt32} (hasBlocks : smallImage.HasBlocks inodeIdx) :
    inodeIdx = 2 ∨ inodeIdx = 11 := by
  obtain ⟨⟨_, inTotal, _⟩, isKind⟩ := hasBlocks
  have kinds : ∀ number < 17, number = 2 ∨ number = 11 ∨
      smallImage.fileKind (UInt32.ofNat number) ≠ 8 ∧
        smallImage.fileKind (UInt32.ofNat number) ≠ 4 := by
    decide
  have inWord : inodeIdx.toNat ≤ 16 := inTotal
  rcases kinds inodeIdx.toNat (by omega) with root | isFile | ⟨notFile, notDir⟩
  · exact .inl (UInt32.toNat_inj.mp root)
  · exact .inr (UInt32.toNat_inj.mp isFile)
  · rw [UInt32.ofNat_toNat] at notFile notDir
    exact absurd isKind (not_or_intro notFile notDir)

theorem smallImage_inode {inodeIdx : UInt32} (hasBlocks : smallImage.HasBlocks inodeIdx) :
    smallImage.inodeOf inodeIdx sizeWord = 1024 ∧
      (∀ level < 3, smallImage.inodeOf inodeIdx (indirectBlock level) = 0) ∧
      (∀ i < 12, 0 < i → smallImage.inodeOf inodeIdx (directBlock i) = 0) ∧
      smallImage.inodeOf inodeIdx (directBlock 0) = if inodeIdx = 2 then 7 else 8 := by
  rcases smallImage_hasBlocks hasBlocks with rfl | rfl
  · decide
  · decide

theorem fileBlock_of_noTable {volume : Ext2} {inode : Nat → UInt32}
    (noTable : ∀ level < 3, inode (indirectBlock level) = 0) {i : Nat}
    (past : directBlockCount ≤ i) : volume.fileBlock inode i = 0 := by
  have noEntry : ∀ index, volume.tableEntry 0 index = 0 := fun _ => rfl
  unfold fileBlock
  dsimp only
  rw [if_neg (Nat.not_lt.mpr past), noTable 0 (by decide), noTable 1 (by decide),
    noTable 2 (by decide)]
  simp only [noEntry, ite_self]

theorem table_eq_zero {volume : Ext2} {inode : Nat → UInt32} {table : UInt32}
    (noTable : ∀ level < 3, inode (indirectBlock level) = 0)
    (isTable : volume.IsTable inode table) : table = 0 := by
  have noEntry : ∀ index, volume.tableEntry 0 index = 0 := fun _ => rfl
  cases isTable with
  | single inside => exact noTable _ inside
  | double inside _ _ => rw [noTable _ inside, noEntry]
  | triple _ _ => rw [noTable 2 (by decide), noEntry, noEntry]

theorem smallImage_block {inodeIdx : UInt32} {i : Nat}
    (hasBlock : smallImage.HasBlock inodeIdx i) :
    i = 0 ∧ smallImage.fileBlock (smallImage.inodeOf inodeIdx) i =
      if inodeIdx = 2 then 7 else 8 := by
  obtain ⟨hasBlocks, inside, _⟩ := hasBlock
  obtain ⟨size, _, _, first⟩ := smallImage_inode hasBlocks
  have blockSize : smallImage.formatBlockSize = 1024 := rfl
  have toNat_size : (1024 : UInt32).toNat = 1024 := rfl
  rw [size, blockSize, toNat_size] at inside
  obtain rfl : i = 0 := by omega
  exact ⟨rfl, first⟩

theorem smallImage_wellFormed : smallImage.WellFormed where
  blockSize := by decide
  perGroup := by decide
  blocksPerGroup := by decide
  inodeSize := by decide
  inodesFit := by decide
  bitmaps := by decide
  inodes := by decide
  reserved := by
    intro block reserved
    have inside := smallImage_reserved reserved
    have total : smallImage.superBlock.blocksTotal.toNat = 64 := rfl
    omega
  groupsApart := by
    have groups : smallImage.groupCount = 1 := by decide
    rw [groups]
    omega
  tables := by
    intro inodeIdx hasBlocks table isTable present
    exact absurd (table_eq_zero (smallImage_inode hasBlocks).2.1 isTable) present
  data := by
    intro inodeIdx i hasBlock
    have notMetadata : ∀ block : UInt32, 6 < block.toNat → ¬ smallImage.Metadata block := by
      rintro block past (reserved | ⟨other, hasBlocks, isTable⟩)
      · exact absurd (smallImage_reserved reserved).2 (Nat.not_le.mpr past)
      · rw [table_eq_zero (smallImage_inode hasBlocks).2.1 isTable] at past
        exact absurd past (by decide)
    have notFree : ¬ smallImage.MarkedFree 7 ∧ ¬ smallImage.MarkedFree 8 := by
      unfold MarkedFree
      decide
    rw [(smallImage_block hasBlock).2]
    split
    next => exact ⟨by decide, notMetadata 7 (by decide), notFree.1⟩
    next => exact ⟨by decide, notMetadata 8 (by decide), notFree.2⟩
  once := by
    intro inodeIdx i other j hasBlock hasOther same
    obtain ⟨rfl, isBlock⟩ := smallImage_block hasBlock
    obtain ⟨rfl, isOther⟩ := smallImage_block hasOther
    rw [isBlock, isOther] at same
    refine ⟨?_, rfl⟩
    rcases smallImage_hasBlocks hasBlock.1 with rfl | rfl <;>
      rcases smallImage_hasBlocks hasOther.1 with rfl | rfl
    · rfl
    · exact absurd same (by decide)
    · exact absurd same (by decide)
    · rfl
  ends := by
    intro inodeIdx hasBlocks i _ past
    obtain ⟨size, noTable, direct, _⟩ := smallImage_inode hasBlocks
    have blockSize : smallImage.formatBlockSize = 1024 := rfl
    have toNat_size : (1024 : UInt32).toNat = 1024 := rfl
    rw [size, blockSize, toNat_size] at past
    rcases Nat.lt_or_ge i directBlockCount with isDirect | later
    · have isWord : smallImage.fileBlock (smallImage.inodeOf inodeIdx) i =
          smallImage.inodeOf inodeIdx (directBlock i) := if_pos isDirect
      rw [isWord]
      exact direct i isDirect (by omega)
    · exact fileBlock_of_noTable noTable later

theorem smallFile_opened (pos : UInt32) : smallImage.Opened (smallFile pos) where
  first := by rintro blocks ⟨⟩
  secondIdx := by rintro indices ⟨⟩
  second := by rintro tables ⟨⟩
  isFile := rfl
  regular := by
    have isFile : (smallFile pos).inodeIdx = 11 := rfl
    rw [isFile]
    refine ⟨⟨by decide, by decide, ?_⟩, by decide⟩
    unfold InodeUsed
    decide
  words := fun _ _ => rfl
  size := by
    change (1024 : UInt32) = smallImage.inodeOf 11 sizeWord
    decide

theorem smallFile_inPlace : smallImage.InPlace (smallFile 10) 3 := by
  have size : ((smallFile 10).inode sizeWord).toNat = 1024 := by decide
  have blockSize : smallImage.formatBlockSize = 1024 := rfl
  have first : smallImage.fileBlock (smallFile 10).inode 0 = 8 := by decide
  have onlyFirst : ∀ i, i * 1024 < 1024 → i = 0 := by omega
  refine ⟨⟨by decide, ?_, ?_, ?_, ?_, ?_⟩, by decide, by decide,
    .inl (by decide)⟩
  · intro i inside
    rw [size, blockSize] at inside
    rw [onlyFirst i inside, first]
    decide
  · rw [size]
    decide
  · intro i inside
    rw [size, blockSize] at inside
    rw [onlyFirst i inside, first, Low, blockSize]
    decide
  · rw [size]
    exact fun inside => absurd inside (by decide)
  · rw [size]
    exact fun inside => absurd inside (by decide)

end Ext2

end CleanOS.Fs
