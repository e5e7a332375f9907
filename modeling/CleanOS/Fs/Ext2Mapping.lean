import CleanOS.Fs.Ext2Read

/-!
# Mapping positions of ext2 files

Which ranges of a file `ext2_read` reads right, whatever its blocks hold and whichever tables the
handle keeps.
-/

namespace CleanOS.Fs

namespace Ext2File

/-- The indices that `ext2_read` uses for a block: into the table of the first level, into the list
of tables of the second level, and into one of these. -/
def tableIndices (volume : Ext2) (inode : Nat → UInt32) (i : Nat) : List Nat :=
  if i < directBlockCount then []
  else
    let inodesPerBlock := volume.blockSize / 4
    let indirectIdx : Int := i - directBlockCount
    let first :=
      if 0 ≤ indirectIdx ∧ indirectIdx < inodesPerBlock.toNat ∧ inode (indirectBlock 0) > 0 then
        [indirectIdx.toNat]
      else []
    let indirectIdx := toInt32 (indirectIdx - inodesPerBlock.toNat)
    let second :=
      if 0 ≤ indirectIdx ∧ indirectIdx < (inodesPerBlock * inodesPerBlock).toNat ∧
          inode (indirectBlock 1) > 0 then
        [indirectIdx.toNat / inodesPerBlock.toNat,
          indirectIdx.toNat % (inodesPerBlock * inodesPerBlock).toNat]
      else []
    first ++ second

/-- The indices of the passes of `readLoop`. -/
def readIndices (volume : Ext2) : (fuel i : Nat) → Ext2File → UInt32 → List Nat
  | 0, _, _, _ => []
  | fuel + 1, i, file, size =>
      if size = 0 then []
      else
        tableIndices volume file.inode i ++
          match file.findBlock volume i with
          | (none, _) => []
          | (some block, file) =>
              if block = 0 then readIndices volume fuel (i + 1) file size
              else
                let readSize := min size (volume.blockSize - file.pos % volume.blockSize)
                readIndices volume fuel (i + 1) { file with pos := file.pos + readSize }
                  (size - readSize)

/-- The indices that a call of `ext2_read` uses. -/
def ext2ReadIndices (volume : Ext2) (file : Ext2File) (size : UInt32) : List Nat :=
  if file.isFile then
    readIndices volume (2 ^ 32) (file.pos / volume.blockSize).toNat file
      (min size (file.size - file.pos))
  else []

end Ext2File

namespace Ext2

def InDevice (volume : Ext2) (block : UInt32) : Prop :=
  (block.toNat + 1) * volume.formatBlockSize < 2 ^ 32

def doubleLimit (volume : Ext2) : Nat :=
  directBlockCount + volume.perBlock + volume.perBlock ^ 2

/-- An inode of a file within the first two levels: its blocks are on the device, and its indirect
blocks are none of its data blocks. -/
structure Mapped (volume : Ext2) (inode : Nat → UInt32) : Prop where
  blockSize : volume.superBlock.blockSizeKb ≤ 1
  size : (inode sizeWord).toNat ≤ volume.doubleLimit * volume.formatBlockSize
  table : ∀ block, volume.IsTable inode block → block ≠ 0 → volume.InDevice block
  data : ∀ i < volume.doubleLimit, volume.fileBlock inode i ≠ 0 →
    volume.InDevice (volume.fileBlock inode i) ∧
      ¬ volume.IsTable inode (volume.fileBlock inode i)

/-- A call of `ext2_read` gives the bytes of the file from the position on that were asked for, as
far as the file goes, moves the position behind them, and uses no index outside of a table. -/
def ReadsRange (volume : Ext2) (file : Ext2File) (length : UInt32) : Prop :=
  (∃ after, file.ext2Read volume length =
      some (((min length.toNat ((file.inode sizeWord).toNat - file.pos.toNat) : Nat) : Int),
        volume.bytesFrom file.inode file.pos.toNat
          (min length.toNat ((file.inode sizeWord).toNat - file.pos.toNat)), after) ∧
      after.pos.toNat = file.pos.toNat +
        min length.toNat ((file.inode sizeWord).toNat - file.pos.toNat)) ∧
    ∀ index ∈ file.ext2ReadIndices volume length, index < volume.perBlock

/-- A range of a file is read right, whatever is not in an indirect block, and whichever tables the
handle keeps. -/
def Reads (volume : Ext2) (inode : Nat → UInt32) (pos length : UInt32) : Prop :=
  ∀ other file, volume.SameFile other inode inode → other.Cached file → file.isFile = true →
    file.inode = inode → file.size = inode sizeWord → file.pos = pos →
      other.ReadsRange file length

/-- The position is not behind the end, and the blocks of the range are no holes and need no second
table of the second level. -/
structure InReach (volume : Ext2) (inode : Nat → UInt32) (pos length : UInt32) : Prop where
  start : length ≠ 0 → pos.toNat ≤ (inode sizeWord).toNat
  blocks : ∀ position, pos.toNat ≤ position → position < pos.toNat + length.toNat →
    position < (inode sizeWord).toNat →
      volume.fileBlock inode (position / volume.formatBlockSize) ≠ 0 ∧
        position / volume.formatBlockSize < directBlockCount + 2 * volume.perBlock

variable {volume other : Ext2} {inode : Nat → UInt32} {block : UInt32} {i index : Nat}

theorem SameFile.isTable (same : volume.SameFile other inode inode)
    (isTable : other.IsTable inode block) : volume.IsTable inode block := by
  cases isTable with
  | single inside => exact .single inside
  | double inside deep inTable =>
      rw [same.perBlock] at inTable
      rw [same.tableEntry (.single inside) inTable]
      exact .double inside deep inTable
  | triple inFirst inSecond =>
      rw [same.perBlock] at inFirst inSecond
      rw [same.tableEntry (.single (by decide)) inFirst,
        same.tableEntry (.double (by decide) (by decide) inFirst) inSecond]
      exact .triple inFirst inSecond

theorem doubleLimit_le (volume : Ext2) : volume.doubleLimit ≤ volume.blockLimit :=
  Nat.le_add_right _ _

theorem Mapped.same (mapped : volume.Mapped inode) (same : volume.SameFile other inode inode) :
    other.Mapped inode where
  blockSize := by
    rw [same.blockSize]
    exact mapped.blockSize
  size := by
    rw [doubleLimit, same.perBlock, same.formatBlockSize]
    exact mapped.size
  table := by
    intro block isTable present
    rw [InDevice, same.formatBlockSize]
    exact mapped.table block (same.isTable isTable) present
  data := by
    intro i inside present
    rw [doubleLimit, same.perBlock] at inside
    rw [same.fileBlock (Nat.lt_of_lt_of_le inside volume.doubleLimit_le)] at present ⊢
    rw [InDevice, same.formatBlockSize]
    obtain ⟨inDevice, notTable⟩ := mapped.data i inside present
    exact ⟨inDevice, fun isTable => notTable (same.isTable isTable)⟩

theorem Mapped.block_lt (mapped : volume.Mapped inode) {position : Nat}
    (inside : position < (inode sizeWord).toNat) :
    position / volume.formatBlockSize < volume.doubleLimit := by
  apply Nat.div_lt_of_lt_mul
  rw [Nat.mul_comm]
  exact Nat.lt_of_lt_of_le inside mapped.size

theorem InReach.same {pos length : UInt32} (reach : volume.InReach inode pos length)
    (mapped : volume.Mapped inode) (same : volume.SameFile other inode inode) :
    other.InReach inode pos length where
  start := reach.start
  blocks := by
    intro position behind inRange inFile
    have inLimit := Nat.lt_of_lt_of_le (mapped.block_lt inFile) volume.doubleLimit_le
    rw [same.formatBlockSize, same.fileBlock inLimit, same.perBlock]
    exact reach.blocks position behind inRange inFile

theorem InDevice.low (inDevice : volume.InDevice block) : volume.Low block := by
  rw [InDevice, Nat.add_mul] at inDevice
  rw [Low]
  omega

theorem low_zero (volume : Ext2) : volume.Low 0 := by
  rw [Low]
  exact (Nat.zero_mul _).symm ▸ Nat.two_pow_pos 32

theorem Mapped.low_table (mapped : volume.Mapped inode) (isTable : volume.IsTable inode block) :
    volume.Low block := by
  by_cases missing : block = 0
  · rw [missing]
    exact volume.low_zero
  · exact (mapped.table block isTable missing).low

theorem Mapped.findable (mapped : volume.Mapped inode)
    (few : i < directBlockCount + 2 * volume.perBlock) (present : volume.fileBlock inode i ≠ 0) :
    volume.Findable inode i where
  few := few
  present := present
  low := by
    have inLimit : i < volume.doubleLimit := by
      have square : volume.perBlock ≤ volume.perBlock ^ 2 := Nat.le_self_pow (by decide) _
      rw [doubleLimit]
      omega
    exact (mapped.data i inLimit present).1.low
  lowSingle := fun _ => mapped.low_table (.single (by decide))
  lowDouble := fun _ =>
    ⟨mapped.low_table (.single (by decide)),
      mapped.low_table (.double (by decide) (by decide) volume.perBlock_pos)⟩

theorem tableIndices_inside (kb : volume.superBlock.blockSizeKb ≤ 1) (inode : Nat → UInt32)
    (few : i < directBlockCount + 2 * volume.perBlock) :
    ∀ index ∈ Ext2File.tableIndices volume inode i, index < volume.perBlock := by
  have perBlock := perBlock_le kb
  rw [Ext2File.tableIndices]
  by_cases direct : i < directBlockCount
  · rw [if_pos direct]
    intro index member
    cases member
  · obtain ⟨rest, rfl⟩ := Nat.exists_eq_add_of_le (Nat.le_of_not_lt direct)
    have isRest : ((directBlockCount + rest : Nat) : Int) - (directBlockCount : Nat) = rest := by
      omega
    have second : toInt32 ((rest : Int) - volume.perBlock) = rest - volume.perBlock :=
      toInt32_eq (by omega) (by omega)
    rw [if_neg direct]
    dsimp only
    rw [isRest, toNat_inodesPerBlock kb, toNat_inodesPerBlock_sq kb, second,
      List.forall_mem_append]
    constructor
    · split
      next guard =>
        rw [List.forall_mem_singleton, Int.toNat_natCast]
        omega
      next =>
        intro index member
        cases member
    · split
      next guard =>
        have row : ((rest : Int) - volume.perBlock).toNat / volume.perBlock = 0 :=
          Nat.div_eq_of_lt (by omega)
        have column := Nat.mod_le ((rest : Int) - volume.perBlock).toNat (volume.perBlock ^ 2)
        rw [row, List.forall_mem_cons, List.forall_mem_singleton]
        exact ⟨volume.perBlock_pos, by omega⟩
      next =>
        intro index member
        cases member

theorem readIndices_pass {file loaded : Ext2File} {fuel : Nat} {size : UInt32}
    (found : file.findBlock volume i = (some block, loaded)) (present : block ≠ 0)
    (more : size ≠ 0) :
    Ext2File.readIndices volume (fuel + 1) i file size =
      Ext2File.tableIndices volume file.inode i ++
        Ext2File.readIndices volume fuel (i + 1)
          { loaded with
            pos := loaded.pos + min size (volume.blockSize - loaded.pos % volume.blockSize) }
          (size - min size (volume.blockSize - loaded.pos % volume.blockSize)) := by
  rw [Ext2File.readIndices, if_neg more, found]
  dsimp only
  rw [if_neg present]

theorem readIndices_inside (kb : volume.superBlock.blockSizeKb ≤ 1) (fuel i : Nat)
    (file : Ext2File) (isInode : file.inode = inode) (cached : volume.Cached file) (size : UInt32)
    (findable : ∀ position, file.pos.toNat ≤ position → position < file.pos.toNat + size.toNat →
      volume.Findable inode (position / volume.formatBlockSize))
    (inWord : file.pos.toNat + size.toNat < 2 ^ 32)
    (atBlock : size ≠ 0 → i = file.pos.toNat / volume.formatBlockSize) :
    ∀ index ∈ Ext2File.readIndices volume fuel i file size, index < volume.perBlock := by
  induction fuel generalizing i file size with
  | zero =>
      intro index member
      cases member
  | succ fuel ih =>
      by_cases done : size = 0
      · rw [Ext2File.readIndices, if_pos done]
        intro index member
        cases member
      · subst isInode
        have isBlock := atBlock done
        subst isBlock
        have sizePositive : 0 < size.toNat := UInt32.pos_iff_ne_zero.mpr done
        have here := findable file.pos.toNat (Nat.le_refl _) (by omega)
        obtain ⟨loadedFile, found, loaded⟩ := findBlock_eq kb here cached
        have passed := passSize kb done inWord
        rw [readIndices_pass found here.present done, loaded.pos, List.forall_mem_append]
        generalize min size (volume.blockSize - file.pos % volume.blockSize) = readSize
          at passed ⊢
        have isPos := passed.position
        have isRest := passed.left
        have atMost := passed.atMost
        refine ⟨tableIndices_inside kb file.inode here.few, ?_⟩
        apply ih _ { loadedFile with pos := file.pos + readSize } loaded.inode
          ⟨loaded.cached.first, loaded.cached.secondIdx, loaded.cached.second⟩
        · intro position behind inRest
          exact findable position (by dsimp only at behind; omega)
            (by dsimp only at inRest; omega)
        · dsimp only
          omega
        · intro unfinished
          exact (passed.next unfinished).symm

theorem InReach.readsRange {file : Ext2File} {length : UInt32}
    (reach : volume.InReach file.inode file.pos length) (mapped : volume.Mapped file.inode)
    (cached : volume.Cached file) (isFile : file.isFile = true)
    (isSize : file.size = file.inode sizeWord) : volume.ReadsRange file length := by
  have kb := mapped.blockSize
  have inWord := (file.inode sizeWord).toNat_lt
  have count : (min length (file.size - file.pos)).toNat =
      min length.toNat ((file.inode sizeWord).toNat - file.pos.toNat) := by
    rw [toNat_min, isSize]
    by_cases none : length = 0
    · rw [none]
      exact (Nat.zero_min _).trans (Nat.zero_min _).symm
    · rw [UInt32.toNat_sub_of_le _ _ (UInt32.le_iff_toNat_le.mpr (reach.start none))]
  have inFile : min length.toNat ((file.inode sizeWord).toNat - file.pos.toNat) = 0 ∨
      file.pos.toNat + min length.toNat ((file.inode sizeWord).toNat - file.pos.toNat) ≤
        (file.inode sizeWord).toNat := by
    omega
  have atBlock := toNat_div_blockSize kb file.pos
  have findable : ∀ position, file.pos.toNat ≤ position →
      position < file.pos.toNat + (min length (file.size - file.pos)).toNat →
        volume.Findable file.inode (position / volume.formatBlockSize) := by
    intro position behind inRange
    rw [count] at inRange
    obtain ⟨present, few⟩ := reach.blocks position behind (by omega) (by omega)
    exact mapped.findable few present
  have noWrap : file.pos.toNat + (min length (file.size - file.pos)).toNat < 2 ^ 32 := by
    have posInWord := file.pos.toNat_lt
    omega
  constructor
  · obtain ⟨after, read, atEnd⟩ := readLoop_eq kb (2 ^ 32) _ file rfl cached
      (min length (file.size - file.pos)) [] (UInt32.toNat_lt _) findable noWrap
      (fun _ => atBlock)
    rw [count] at read atEnd
    refine ⟨after, ?_, atEnd⟩
    rw [Ext2File.ext2Read, if_pos isFile, read, List.length_nil, Nat.zero_add, List.nil_append]
  · rw [Ext2File.ext2ReadIndices, if_pos isFile]
    exact readIndices_inside kb (2 ^ 32) _ file rfl cached _ findable noWrap (fun _ => atBlock)

theorem InReach.reads {pos length : UInt32} (reach : volume.InReach inode pos length)
    (mapped : volume.Mapped inode) : volume.Reads inode pos length := by
  rintro other file same cached isFile rfl isSize rfl
  exact (reach.same mapped same).readsRange (mapped.same same) cached isFile isSize

structure Kept (volume : Ext2) (file : Ext2File) : Prop where
  first : ∀ blocks, file.firstIndirectBlocks = some blocks →
    blocks = volume.readTable (file.inode (indirectBlock 0))
  secondIdx : ∀ indices, file.secondIndirectIdx = some indices →
    indices = volume.readTable (file.inode (indirectBlock 1))
  second : ∀ tables, file.secondIndirectBlocks = some tables → ∀ idx table,
    tables idx = some table →
      table = volume.readTable (volume.readTable (file.inode (indirectBlock 1)) idx)

structure KeptAfter (volume : Ext2) (file after : Ext2File) : Prop where
  kept : volume.Kept after
  inode : after.inode = file.inode
  pos : after.pos = file.pos

variable {file : Ext2File}

theorem KeptAfter.refl (kept : volume.Kept file) : volume.KeptAfter file file :=
  ⟨kept, rfl, rfl⟩

theorem KeptAfter.trans {next after : Ext2File} (first : volume.KeptAfter file next)
    (second : volume.KeptAfter next after) : volume.KeptAfter file after :=
  ⟨second.kept, second.inode.trans first.inode, second.pos.trans first.pos⟩

theorem firstIndirect_kept (kept : volume.Kept file) (indirectIdx : Int) (blockAddr : UInt32) :
    ∃ after, file.firstIndirect volume indirectIdx blockAddr =
        (if 0 ≤ indirectIdx ∧ indirectIdx < (volume.blockSize / 4).toNat ∧
            file.inode (indirectBlock 0) > 0 then
          volume.readTable (file.inode (indirectBlock 0)) indirectIdx.toNat
        else blockAddr, after) ∧
      volume.KeptAfter file after := by
  have blocks : file.firstIndirectBlocks.getD
      (volume.readTable (file.inode (indirectBlock 0))) =
      volume.readTable (file.inode (indirectBlock 0)) := by
    cases isKept : file.firstIndirectBlocks with
    | none => rfl
    | some blocks => exact kept.first blocks isKept
  rw [Ext2File.firstIndirect]
  dsimp only
  rw [blocks]
  split
  next =>
    refine ⟨_, rfl, ⟨?_, kept.secondIdx, kept.second⟩, rfl, rfl⟩
    intro blocks isBlocks
    cases isBlocks
    rfl
  next => exact ⟨file, rfl, .refl kept⟩

theorem secondIndirect_kept (kept : volume.Kept file) (indirectIdx : Int) (blockAddr : UInt32) :
    ∃ after, file.secondIndirect volume indirectIdx blockAddr =
        (if 0 ≤ indirectIdx ∧
            indirectIdx < (volume.blockSize / 4 * (volume.blockSize / 4)).toNat ∧
            file.inode (indirectBlock 1) > 0 then
          volume.readTable
            (volume.readTable (file.inode (indirectBlock 1))
              (indirectIdx.toNat / (volume.blockSize / 4).toNat))
            (indirectIdx.toNat % (volume.blockSize / 4 * (volume.blockSize / 4)).toNat)
        else blockAddr, after) ∧
      volume.KeptAfter file after := by
  have indices : file.secondIndirectIdx.getD
      (volume.readTable (file.inode (indirectBlock 1))) =
      volume.readTable (file.inode (indirectBlock 1)) := by
    cases isKept : file.secondIndirectIdx with
    | none => rfl
    | some indices => exact kept.secondIdx indices isKept
  have tables : ∀ idx table, file.secondIndirectBlocks.getD (fun _ => none) idx = some table →
      table = volume.readTable (volume.readTable (file.inode (indirectBlock 1)) idx) := by
    intro idx table isTable
    cases isKept : file.secondIndirectBlocks with
    | none =>
        rw [isKept] at isTable
        cases isTable
    | some tables =>
        rw [isKept] at isTable
        exact kept.second tables isKept idx table isTable
  rw [Ext2File.secondIndirect]
  dsimp only
  rw [indices]
  split
  next =>
    generalize indirectIdx.toNat / (volume.blockSize / 4).toNat = secondIdx
    have table : (file.secondIndirectBlocks.getD (fun _ => none) secondIdx).getD
        (volume.readTable (volume.readTable (file.inode (indirectBlock 1)) secondIdx)) =
        volume.readTable (volume.readTable (file.inode (indirectBlock 1)) secondIdx) := by
      cases isTable : file.secondIndirectBlocks.getD (fun _ => none) secondIdx with
      | none => rfl
      | some table => exact tables secondIdx table isTable
    rw [table]
    refine ⟨_, rfl, ⟨kept.first, ?_, ?_⟩, rfl, rfl⟩
    · intro indices isIndices
      cases isIndices
      rfl
    · intro after isAfter idx table isTable
      cases isAfter
      by_cases here : idx = secondIdx
      · subst here
        rw [Function.update_self] at isTable
        cases isTable
        rfl
      · rw [Function.update_of_ne here] at isTable
        exact tables idx table isTable
  next => exact ⟨file, rfl, .refl kept⟩

theorem Kept.cached (kept : volume.Kept file) (mapped : volume.Mapped file.inode) :
    volume.Cached file where
  first := by
    intro blocks isBlocks present index inside
    rw [kept.first blocks isBlocks]
    exact readTable_apply mapped.blockSize (mapped.low_table (.single (by decide))) present inside
  secondIdx := by
    intro indices isIndices present index inside
    rw [kept.secondIdx indices isIndices]
    exact readTable_apply mapped.blockSize (mapped.low_table (.single (by decide))) present inside
  second := by
    intro tables isTables idx idxInside table isTable present index inside
    have entry : volume.readTable (file.inode (indirectBlock 1)) idx =
        volume.tableEntry (file.inode (indirectBlock 1)) idx :=
      readTable_apply mapped.blockSize (mapped.low_table (.single (by decide)))
        (tableEntry_ne present) idxInside
    rw [kept.second tables isTables idx table isTable, entry]
    exact readTable_apply mapped.blockSize
      (mapped.low_table (.double (by decide) (by decide) idxInside)) present inside

structure Filled (volume : Ext2) (inode : Nat → UInt32) : Prop where
  empty : ∀ address < volume.formatBlockSize, volume.disk address = 0
  filled : ∀ address, volume.formatBlockSize ≤ address →
    (∀ table, volume.IsTable inode table → table ≠ 0 →
      ¬ (table.toNat * volume.formatBlockSize ≤ address ∧
        address < table.toNat * volume.formatBlockSize + volume.formatBlockSize)) →
    volume.disk address = 1

theorem SameFile.symm (same : volume.SameFile other inode inode) :
    other.SameFile volume inode inode where
  blockSize := same.blockSize.symm
  words := fun _ _ _ => rfl
  tables := by
    intro table isTable present offset inside
    rw [same.formatBlockSize] at inside ⊢
    exact (same.tables table (same.isTable isTable) present offset inside).symm

theorem exists_filled (volume : Ext2) (inode : Nat → UInt32) :
    ∃ other, volume.SameFile other inode inode ∧ other.Filled inode := by
  classical
  let disk : Nat → UInt8 := fun address =>
    if address < volume.formatBlockSize then 0
    else if ∃ table, volume.IsTable inode table ∧ table ≠ 0 ∧
        table.toNat * volume.formatBlockSize ≤ address ∧
        address < table.toNat * volume.formatBlockSize + volume.formatBlockSize then
      volume.disk address
    else 1
  have same : volume.SameFile { volume with disk := disk } inode inode := by
    refine ⟨rfl, fun _ _ _ => rfl, ?_⟩
    intro table isTable present offset inside
    have some : 0 < table.toNat := UInt32.pos_iff_ne_zero.mpr present
    have behind : volume.formatBlockSize ≤ table.toNat * volume.formatBlockSize :=
      Nat.le_mul_of_pos_left _ some
    change (if _ then _ else _) = _
    rw [if_neg (by omega), if_pos ⟨table, isTable, present, by omega, by omega⟩]
  refine ⟨_, same, ?_, ?_⟩
  · intro address inside
    exact if_pos inside
  · intro address behind outside
    have notFirst : ¬ address < volume.formatBlockSize := Nat.not_lt.mpr behind
    change (if _ then _ else _) = _
    rw [if_neg notFirst, if_neg]
    rintro ⟨table, isTable, present, inTable⟩
    exact outside table (same.symm.isTable isTable) present inTable

theorem mem_tableIndices (kb : volume.superBlock.blockSizeKb ≤ 1)
    (inSquare : index < volume.perBlock ^ 2) (present : inode (indirectBlock 1) ≠ 0) :
    index ∈ Ext2File.tableIndices volume inode
      (directBlockCount + (volume.perBlock + index)) := by
  have square : volume.perBlock ^ 2 ≤ 512 ^ 2 := Nat.pow_le_pow_left (perBlock_le kb) 2
  have isRest : ((directBlockCount + (volume.perBlock + index) : Nat) : Int) -
      (directBlockCount : Nat) - volume.perBlock = index := by
    omega
  rw [Ext2File.tableIndices, if_neg (by omega)]
  dsimp only
  rw [toNat_inodesPerBlock kb, toNat_inodesPerBlock_sq kb, isRest,
    toInt32_eq (by omega) (by omega), Int.toNat_natCast, Nat.mod_eq_of_lt inSquare]
  apply List.mem_append_right
  rw [if_pos ⟨by omega, by omega, UInt32.pos_iff_ne_zero.mpr present⟩]
  exact List.mem_cons_of_mem _ List.mem_cons_self

theorem Filled.readTable_zero (filled : volume.Filled inode)
    (kb : volume.superBlock.blockSizeKb ≤ 1) (inside : index < volume.perBlock) :
    volume.readTable 0 index = 0 := by
  have four := volume.four_mul_perBlock
  have inTable : index < volume.formatBlockSize / 4 := inside
  have zeros : ∀ byte < 4,
      blockRead volume.disk volume.blockSize 0 (4 * index + byte) = (fun _ => 0) (0 + byte) := by
    intro byte inWord
    rw [blockRead_apply kb volume.low_zero]
    apply filled.empty
    rw [show (0 : UInt32).toNat = 0 from rfl, Nat.zero_mul]
    omega
  have isZero : longAt (blockRead volume.disk volume.blockSize 0) (4 * index) =
      longAt (fun _ => 0) 0 := longAt_congr zeros
  rw [readTable, toNat_blockSize kb, if_pos inTable, isZero]
  rfl

theorem indirect_cases (mapped : volume.Mapped inode) (filled : volume.Filled inode) {rest : Nat}
    (inside : ∀ index ∈ Ext2File.tableIndices volume inode (directBlockCount + rest),
      index < volume.perBlock) {block : UInt32}
    (isBlock : block =
      if 0 ≤ (rest : Int) - volume.perBlock ∧
          (rest : Int) - volume.perBlock < (volume.perBlock ^ 2 : Nat) ∧
          inode (indirectBlock 1) > 0 then
        volume.readTable
          (volume.readTable (inode (indirectBlock 1))
            (((rest : Int) - volume.perBlock).toNat / volume.perBlock))
          (((rest : Int) - volume.perBlock).toNat % volume.perBlock ^ 2)
      else if (0 : Int) ≤ rest ∧ (rest : Int) < volume.perBlock ∧
          inode (indirectBlock 0) > 0 then
        volume.readTable (inode (indirectBlock 0)) rest
      else 0xffffffff) :
    block = 0 ∨ block = 0xffffffff ∨
      block = volume.fileBlock inode (directBlockCount + rest) ∧
        directBlockCount + rest < volume.doubleLimit := by
  have kb := mapped.blockSize
  have positive := volume.perBlock_pos
  rw [doubleLimit]
  by_cases inSecond : 0 ≤ (rest : Int) - volume.perBlock ∧
      (rest : Int) - volume.perBlock < (volume.perBlock ^ 2 : Nat) ∧
      inode (indirectBlock 1) > 0
  · obtain ⟨past, inSquare, some⟩ := inSecond
    have present : inode (indirectBlock 1) ≠ 0 := UInt32.pos_iff_ne_zero.mp some
    obtain ⟨index, rfl⟩ := Nat.exists_eq_add_of_le (show volume.perBlock ≤ rest by omega)
    have isIndex : ((volume.perBlock + index : Nat) : Int) - volume.perBlock = index := by omega
    have small : index < volume.perBlock :=
      inside index (mem_tableIndices kb (by omega) present)
    have entry : volume.readTable (inode (indirectBlock 1)) 0 =
        volume.tableEntry (inode (indirectBlock 1)) 0 :=
      readTable_apply kb (mapped.low_table (.single (by decide))) present positive
    rw [if_pos ⟨past, inSquare, some⟩, isIndex, Int.toNat_natCast, Nat.div_eq_of_lt small,
      Nat.mod_eq_of_lt (by omega), entry] at isBlock
    by_cases missing : volume.tableEntry (inode (indirectBlock 1)) 0 = 0
    · rw [missing, filled.readTable_zero kb small] at isBlock
      exact .inl isBlock
    · rw [readTable_apply kb (mapped.low_table (.double (by decide) (by decide) positive)) missing
        small] at isBlock
      rw [fileBlock_double inode small]
      exact .inr (.inr ⟨isBlock, by omega⟩)
  · rw [if_neg inSecond] at isBlock
    by_cases inFirst : (0 : Int) ≤ rest ∧ (rest : Int) < volume.perBlock ∧
        inode (indirectBlock 0) > 0
    · obtain ⟨-, below, some⟩ := inFirst
      have isIndex : rest < volume.perBlock := by omega
      have present : inode (indirectBlock 0) ≠ 0 := UInt32.pos_iff_ne_zero.mp some
      rw [if_pos ⟨by omega, below, some⟩,
        readTable_apply kb (mapped.low_table (.single (by decide))) present isIndex] at isBlock
      rw [fileBlock_single inode isIndex]
      exact .inr (.inr ⟨isBlock, by omega⟩)
    · rw [if_neg inFirst] at isBlock
      exact .inr (.inl isBlock)

theorem findBlock_kept (mapped : volume.Mapped file.inode) (filled : volume.Filled file.inode)
    (kept : volume.Kept file) (inLimit : i ≤ volume.blockLimit)
    (inside : ∀ index ∈ Ext2File.tableIndices volume file.inode i, index < volume.perBlock) :
    ∃ result after, file.findBlock volume i = (result, after) ∧ volume.KeptAfter file after ∧
      ∀ block, result = some block → i < volume.blockLimit ∧
        (block = 0 ∨ block = 0xffffffff ∨
          block = volume.fileBlock file.inode i ∧ i < volume.doubleLimit) := by
  have kb := mapped.blockSize
  have perBlock := perBlock_le kb
  have positive := volume.perBlock_pos
  have square : volume.perBlock ^ 2 ≤ 512 ^ 2 := Nat.pow_le_pow_left perBlock 2
  have cube : volume.perBlock ^ 3 ≤ 512 ^ 3 := Nat.pow_le_pow_left perBlock 3
  rw [blockLimit] at inLimit ⊢
  by_cases direct : i < directBlockCount
  · rw [Ext2File.findBlock, if_pos direct]
    refine ⟨_, file, rfl, .refl kept, ?_⟩
    intro block isBlock
    cases isBlock
    refine ⟨by omega, .inr (.inr ⟨(if_pos direct).symm, ?_⟩)⟩
    rw [doubleLimit]
    omega
  · obtain ⟨rest, rfl⟩ := Nat.exists_eq_add_of_le (Nat.le_of_not_lt direct)
    have isRest : ((directBlockCount + rest : Nat) : Int) - (directBlockCount : Nat) = rest := by
      omega
    have first : toInt32 ((rest : Int) - volume.perBlock) = rest - volume.perBlock :=
      toInt32_eq (by omega) (by omega)
    have second : toInt32 ((rest : Int) - volume.perBlock - (volume.perBlock ^ 2 : Nat)) =
        rest - volume.perBlock - (volume.perBlock ^ 2 : Nat) := toInt32_eq (by omega) (by omega)
    obtain ⟨next, isNext, keptNext⟩ := firstIndirect_kept kept rest 0xffffffff
    rw [Ext2File.findBlock, if_neg direct]
    dsimp only
    rw [toNat_inodesPerBlock kb, toNat_inodesPerBlock_sq kb, toNat_inodesPerBlock_cube kb, isRest,
      first, second, toInt32_eq (by omega) (by omega), isNext]
    dsimp only
    obtain ⟨after, isAfter, keptAfter⟩ := secondIndirect_kept keptNext.kept
      ((rest : Int) - volume.perBlock)
      (if (0 : Int) ≤ rest ∧ (rest : Int) < (volume.blockSize / 4).toNat ∧
          file.inode (indirectBlock 0) > 0 then
        volume.readTable (file.inode (indirectBlock 0)) rest
      else 0xffffffff)
    rw [Int.toNat_natCast, isAfter, keptNext.inode, toNat_inodesPerBlock kb,
      toNat_inodesPerBlock_sq kb]
    dsimp only
    by_cases third : 0 ≤ (rest : Int) - volume.perBlock - (volume.perBlock ^ 2 : Nat) -
        (volume.perBlock ^ 3 : Nat)
    · rw [if_pos third]
      refine ⟨none, after, rfl, keptNext.trans keptAfter, ?_⟩
      intro block isBlock
      cases isBlock
    · rw [if_neg third]
      refine ⟨_, after, rfl, keptNext.trans keptAfter, ?_⟩
      intro block isBlock
      cases isBlock
      exact ⟨by omega, indirect_cases mapped filled inside rfl⟩

theorem formatBlockSize_cases (kb : volume.superBlock.blockSizeKb ≤ 1) :
    volume.formatBlockSize = 1024 ∨ volume.formatBlockSize = 2048 := by
  have inWord : volume.superBlock.blockSizeKb.toNat ≤ 1 := kb
  rw [formatBlockSize]
  rcases Nat.le_one_iff_eq_zero_or_eq_one.mp inWord with zero | one
  · rw [zero]
    exact .inl rfl
  · rw [one]
    exact .inr rfl

theorem blockAddr_last (kb : volume.superBlock.blockSizeKb ≤ 1) :
    blockAddr volume.blockSize 0xffffffff = 2 ^ 32 - volume.formatBlockSize := by
  rw [blockAddr, UInt32.toNat_div, UInt32.toNat_mul, toNat_blockSize kb]
  rcases formatBlockSize_cases kb with isSize | isSize
  · rw [isSize]
    rfl
  · rw [isSize]
    rfl

theorem Filled.blockRead_eq (filled : volume.Filled inode) (mapped : volume.Mapped inode)
    {offset : Nat} (inBlock : offset < volume.formatBlockSize) (present : block ≠ 0)
    (isBlock : block = 0xffffffff ∨ block = volume.fileBlock inode i ∧ i < volume.doubleLimit) :
    blockRead volume.disk volume.blockSize block offset = 1 := by
  have kb := mapped.blockSize
  have cases := formatBlockSize_cases kb
  rcases isBlock with rfl | ⟨rfl, inLimit⟩
  · rw [blockRead, blockAddr_last kb]
    apply filled.filled
    · omega
    · intro table isTable some inTable
      have inDevice := mapped.table table isTable some
      rw [InDevice, Nat.add_mul] at inDevice
      rcases cases with isSize | isSize
      · rw [isSize] at inTable inDevice
        omega
      · rw [isSize] at inTable inDevice
        omega
  · obtain ⟨inDevice, notTable⟩ := mapped.data i inLimit present
    have behind : 0 < (volume.fileBlock inode i).toNat := UInt32.pos_iff_ne_zero.mpr present
    rw [blockRead_apply kb inDevice.low]
    apply filled.filled
    · have whole := Nat.le_mul_of_pos_left volume.formatBlockSize behind
      omega
    · intro table isTable _ inTable
      have same : table.toNat = (volume.fileBlock inode i).toNat := by
        rcases cases with isSize | isSize
        · rw [isSize] at inTable inBlock
          omega
        · rw [isSize] at inTable inBlock
          omega
      rw [UInt32.toNat_inj.mp same] at isTable
      exact notTable isTable

theorem readLoop_prefix {fuel : Nat} {size : UInt32} {out bytes : List UInt8} {result : Int}
    {after : Ext2File}
    (read : Ext2File.readLoop volume fuel i file size out = some (result, bytes, after)) :
    ∃ behind, bytes = out ++ behind := by
  induction fuel generalizing i file size out with
  | zero => cases read
  | succ fuel ih =>
      rw [Ext2File.readLoop] at read
      by_cases done : size = 0
      · rw [if_pos done] at read
        cases read
        exact ⟨[], (List.append_nil _).symm⟩
      · rw [if_neg done] at read
        cases found : file.findBlock volume i with
        | mk taken next =>
            rw [found] at read
            cases taken with
            | none =>
                cases read
                exact ⟨[], (List.append_nil _).symm⟩
            | some block =>
                dsimp only at read
                by_cases hole : block = 0
                · rw [if_pos hole] at read
                  exact ih read
                · rw [if_neg hole] at read
                  obtain ⟨behind, isBytes⟩ := ih read
                  rw [List.append_assoc] at isBytes
                  exact ⟨_, isBytes⟩

theorem readLoop_next (mapped : volume.Mapped inode) (filled : volume.Filled inode)
    {fuel : Nat} (isInode : file.inode = inode) (kept : volume.Kept file)
    (inLimit : i ≤ volume.blockLimit) {size : UInt32} (more : size ≠ 0)
    (inWord : file.pos.toNat + size.toNat < 2 ^ 32) {out bytes : List UInt8} {result : Int}
    {after : Ext2File}
    (read : Ext2File.readLoop volume fuel i file size out = some (result, bytes, after))
    (inside : ∀ index ∈ Ext2File.readIndices volume fuel i file size, index < volume.perBlock) :
    result = -1 ∨ bytes[out.length]? = some 1 := by
  have kb := mapped.blockSize
  induction fuel generalizing i file with
  | zero => cases read
  | succ fuel ih =>
      subst isInode
      rw [Ext2File.readIndices, if_neg more, List.forall_mem_append] at inside
      obtain ⟨taken, next, found, keptNext, cases⟩ :=
        findBlock_kept mapped filled kept inLimit inside.1
      have later := inside.2
      cases taken with
      | none =>
          rw [Ext2File.readLoop, if_neg more, found] at read
          cases read
          exact .inl rfl
      | some block =>
          obtain ⟨below, isBlock⟩ := cases block rfl
          rw [found] at later
          dsimp only at later
          by_cases hole : block = 0
          · rw [Ext2File.readLoop, if_neg more, found] at read
            dsimp only at read
            rw [if_pos hole] at read later
            apply ih keptNext.inode keptNext.kept below
            · rw [keptNext.pos]
              exact inWord
            · exact read
            · exact later
          · rw [readLoop_pass found hole more, keptNext.pos] at read
            have passed := passSize kb more inWord
            obtain ⟨behind, rfl⟩ := readLoop_prefix read
            have offset : (file.pos % volume.blockSize).toNat < volume.formatBlockSize := by
              rw [toNat_mod_blockSize kb]
              exact Nat.mod_lt _ volume.formatBlockSize_pos
            right
            rw [List.append_assoc, List.getElem?_append_right (Nat.le_refl _), Nat.sub_self,
              List.getElem?_append_left (by
                rw [List.length_map, List.length_range]
                exact passed.positive), List.getElem?_map,
              List.getElem?_range passed.positive, Option.map_some, Nat.add_zero,
              filled.blockRead_eq mapped offset hole (isBlock.resolve_left hole)]

theorem fileBlock_present (past : directBlockCount + volume.perBlock ≤ i)
    (inLimit : i < volume.doubleLimit) (present : volume.fileBlock inode i ≠ 0) :
    inode (indirectBlock 1) ≠ 0 := by
  rw [doubleLimit] at inLimit
  rw [fileBlock, if_neg (by omega)] at present
  dsimp only at present
  rw [if_neg (by omega), if_pos (by omega)] at present
  exact tableEntry_ne (tableEntry_ne present)

theorem readLoop_bad (mapped : volume.Mapped inode) (filled : volume.Filled inode)
    {fuel : Nat} (isInode : file.inode = inode) (kept : volume.Kept file) {size : UInt32}
    (more : size ≠ 0) (inFile : file.pos.toNat + size.toNat ≤ (inode sizeWord).toNat)
    {out : List UInt8} {after : Ext2File}
    (read : Ext2File.readLoop volume fuel (file.pos.toNat / volume.formatBlockSize) file size out =
      some (((out.length + size.toNat : Nat) : Int),
        out ++ volume.bytesFrom inode file.pos.toNat size.toNat, after))
    (inside : ∀ index ∈ Ext2File.readIndices volume fuel
      (file.pos.toNat / volume.formatBlockSize) file size, index < volume.perBlock) :
    volume.fileBlock inode (file.pos.toNat / volume.formatBlockSize) ≠ 0 ∧
      file.pos.toNat / volume.formatBlockSize < directBlockCount + 2 * volume.perBlock := by
  have kb := mapped.blockSize
  have inWord := (inode sizeWord).toNat_lt
  have some : 0 < size.toNat := UInt32.pos_iff_ne_zero.mpr more
  have start : file.pos.toNat < (inode sizeWord).toNat := by omega
  have inLimit := mapped.block_lt start
  have present : volume.fileBlock inode (file.pos.toNat / volume.formatBlockSize) ≠ 0 := by
    intro hole
    have next := readLoop_next mapped filled isInode kept
      (Nat.le_of_lt (Nat.lt_of_lt_of_le inLimit volume.doubleLimit_le)) more (by omega) read inside
    rcases next with failed | isNext
    · omega
    · rw [List.getElem?_append_right (Nat.le_refl _), Nat.sub_self, bytesFrom, List.getElem?_map,
        List.getElem?_range' some, Option.map_some, Nat.mul_zero, Nat.add_zero, fileByte,
        if_pos hole] at isNext
      exact absurd (Option.some.inj isNext) (by decide)
  refine ⟨present, ?_⟩
  by_contra past
  cases fuel with
  | zero => cases read
  | succ fuel =>
      obtain ⟨index, isIndex⟩ := Nat.exists_eq_add_of_le (show
        directBlockCount + volume.perBlock ≤ file.pos.toNat / volume.formatBlockSize by omega)
      rw [Ext2File.readIndices, if_neg more, List.forall_mem_append, isInode] at inside
      have indirect := fileBlock_present (by omega) inLimit present
      have inSquare : index < volume.perBlock ^ 2 := by
        rw [doubleLimit] at inLimit
        omega
      have outside := inside.1 index (by
        rw [isIndex, Nat.add_assoc]
        exact mem_tableIndices kb inSquare indirect)
      omega

theorem readLoop_reach (mapped : volume.Mapped inode) (filled : volume.Filled inode)
    {fuel : Nat} (isInode : file.inode = inode) (kept : volume.Kept file) {size : UInt32}
    (inFile : file.pos.toNat + size.toNat ≤ (inode sizeWord).toNat)
    (atBlock : size ≠ 0 → i = file.pos.toNat / volume.formatBlockSize)
    {out : List UInt8} {after : Ext2File}
    (read : Ext2File.readLoop volume fuel i file size out =
      some (((out.length + size.toNat : Nat) : Int),
        out ++ volume.bytesFrom inode file.pos.toNat size.toNat, after))
    (inside : ∀ index ∈ Ext2File.readIndices volume fuel i file size, index < volume.perBlock) :
    ∀ position, file.pos.toNat ≤ position → position < file.pos.toNat + size.toNat →
      volume.fileBlock inode (position / volume.formatBlockSize) ≠ 0 ∧
        position / volume.formatBlockSize < directBlockCount + 2 * volume.perBlock := by
  have kb := mapped.blockSize
  have inWord := (inode sizeWord).toNat_lt
  induction fuel generalizing i file size out with
  | zero => cases read
  | succ fuel ih =>
      intro position behind inRange
      by_cases done : size = 0
      · rw [done] at inRange
        exact absurd behind (Nat.not_le_of_gt inRange)
      · have isBlock := atBlock done
        subst isBlock
        have here := readLoop_bad mapped filled isInode kept done inFile read inside
        have findable := mapped.findable here.2 here.1
        subst isInode
        obtain ⟨loadedFile, found, loaded⟩ := findBlock_eq kb findable (kept.cached mapped)
        rw [readIndices_pass found here.1 done, loaded.pos, List.forall_mem_append] at inside
        have inLimit := mapped.block_lt (show file.pos.toNat < _ by omega)
        obtain ⟨taken, next, foundKept, keptNext, -⟩ := findBlock_kept mapped filled kept
          (Nat.le_of_lt (Nat.lt_of_lt_of_le inLimit volume.doubleLimit_le)) inside.1
        have sameFile : loadedFile = next := (Prod.mk.inj (found.symm.trans foundKept)).2
        subst sameFile
        rw [readLoop_pass found here.1 done, loaded.pos] at read
        have passed := passSize kb done (show file.pos.toNat + size.toNat < 2 ^ 32 by omega)
        generalize min size (volume.blockSize - file.pos % volume.blockSize) = readSize
          at passed read inside
        have inBlock := passed.inBlock
        have atMost := passed.atMost
        by_cases inHere : position < file.pos.toNat + readSize.toNat
        · obtain ⟨place, rfl⟩ := Nat.exists_eq_add_of_le behind
          rw [(inBlock_div_mod volume.formatBlockSize file.pos.toNat place (by omega)).1]
          exact here
        · have split : volume.bytesFrom file.inode file.pos.toNat size.toNat =
              volume.bytesFrom file.inode file.pos.toNat readSize.toNat ++
                volume.bytesFrom file.inode (file.pos + readSize).toNat
                  (size - readSize).toNat := by
            rw [passed.position, passed.left, bytesFrom_append, Nat.add_sub_cancel' atMost]
          have count : out.length + size.toNat =
              (out ++ volume.bytesFrom file.inode file.pos.toNat readSize.toNat).length +
                (size - readSize).toNat := by
            rw [List.length_append, length_bytesFrom, passed.left]
            omega
          rw [toNat_mod_blockSize kb, chunk_eq kb here.1 findable.low inBlock, split,
            ← List.append_assoc, count] at read
          have isPos := passed.position
          have isLeft := passed.left
          have keptHere : volume.Kept { loadedFile with pos := file.pos + readSize } :=
            ⟨keptNext.kept.first, keptNext.kept.secondIdx, keptNext.kept.second⟩
          have inodeHere : { loadedFile with pos := file.pos + readSize }.inode = file.inode :=
            loaded.inode
          apply ih inodeHere keptHere _ (fun unfinished => (passed.next unfinished).symm) read
            inside.2
          · dsimp only
            omega
          · dsimp only
            omega
          · dsimp only
            omega

theorem readLoop_count {fuel : Nat} {size : UInt32} {out bytes : List UInt8} {result : Int}
    {after : Ext2File}
    (read : Ext2File.readLoop volume fuel i file size out = some (result, bytes, after)) :
    result = -1 ∨ result = (out.length + size.toNat : Nat) := by
  induction fuel generalizing i file size out with
  | zero => cases read
  | succ fuel ih =>
      by_cases done : size = 0
      · rw [Ext2File.readLoop, if_pos done] at read
        cases read
        rw [done]
        exact .inr rfl
      · cases found : file.findBlock volume i with
        | mk taken next =>
            cases taken with
            | none =>
                rw [Ext2File.readLoop, if_neg done, found] at read
                cases read
                exact .inl rfl
            | some block =>
                by_cases hole : block = 0
                · rw [Ext2File.readLoop, if_neg done, found] at read
                  dsimp only at read
                  rw [if_pos hole] at read
                  exact ih read
                · rw [readLoop_pass found hole done] at read
                  have atMost : (min size (volume.blockSize - next.pos % volume.blockSize)).toNat ≤
                      size.toNat := by
                    rw [toNat_min]
                    exact Nat.min_le_left _ _
                  rcases ih read with failed | isCount
                  · exact .inl failed
                  · right
                    rw [isCount, List.length_append, List.length_map, List.length_range,
                      UInt32.toNat_sub_of_le _ _ (UInt32.le_iff_toNat_le.mpr atMost)]
                    omega

theorem ReadsRange.inReach {length : UInt32} (right : volume.ReadsRange file length)
    (mapped : volume.Mapped file.inode) (filled : volume.Filled file.inode)
    (kept : volume.Kept file) (isFile : file.isFile = true)
    (isSize : file.size = file.inode sizeWord) : volume.InReach file.inode file.pos length := by
  have kb := mapped.blockSize
  obtain ⟨⟨after, read, -⟩, inside⟩ := right
  rw [Ext2File.ext2Read, if_pos isFile] at read
  rw [Ext2File.ext2ReadIndices, if_pos isFile] at inside
  constructor
  · intro some
    by_contra past
    have isLength : 0 < length.toNat := UInt32.pos_iff_ne_zero.mpr some
    have wraps : 0 < (file.size - file.pos).toNat := by
      rw [isSize, UInt32.toNat_sub]
      have inWord := file.pos.toNat_lt
      omega
    rcases readLoop_count read with failed | isCount
    · omega
    · rw [toNat_min, List.length_nil] at isCount
      omega
  · intro position behind inRange inFile
    have isSmall : file.pos.toNat ≤ (file.inode sizeWord).toNat := by omega
    have count : (min length (file.size - file.pos)).toNat =
        min length.toNat ((file.inode sizeWord).toNat - file.pos.toNat) := by
      rw [toNat_min, isSize, UInt32.toNat_sub_of_le _ _ (UInt32.le_iff_toNat_le.mpr isSmall)]
    rw [← count] at read
    have atBlock := toNat_div_blockSize kb file.pos
    have readAll : Ext2File.readLoop volume (2 ^ 32) (file.pos / volume.blockSize).toNat file
        (min length (file.size - file.pos)) [] =
        some (((([] : List UInt8).length + (min length (file.size - file.pos)).toNat : Nat) : Int),
          [] ++ volume.bytesFrom file.inode file.pos.toNat
            (min length (file.size - file.pos)).toNat, after) := by
      rw [List.length_nil, Nat.zero_add, List.nil_append]
      exact read
    apply readLoop_reach mapped filled rfl kept _ (fun _ => atBlock) readAll inside position behind
    · omega
    · omega

def newFile (inode : Nat → UInt32) (pos : UInt32) : Ext2File where
  isFile := true
  mode := 0
  size := inode sizeWord
  pos := pos
  inodeIdx := 0
  inode := inode
  firstIndirectBlocks := none
  secondIndirectIdx := none
  secondIndirectBlocks := none

theorem kept_newFile (volume : Ext2) (inode : Nat → UInt32) (pos : UInt32) :
    volume.Kept (newFile inode pos) := by
  constructor
  · intro blocks isBlocks
    cases isBlocks
  · intro indices isIndices
    cases isIndices
  · intro tables isTables
    cases isTables

theorem Reads.inReach {pos length : UInt32} (reads : volume.Reads inode pos length)
    (mapped : volume.Mapped inode) : volume.InReach inode pos length := by
  obtain ⟨other, same, filled⟩ := exists_filled volume inode
  have mappedOther := mapped.same same
  have kept := kept_newFile other inode pos
  have right := reads other (newFile inode pos) same (kept.cached mappedOther) rfl rfl rfl rfl
  exact (right.inReach mappedOther filled kept rfl rfl).same mappedOther same.symm

def sparseInode : Nat → UInt32 := fun word =>
  if word = sizeWord then 2048 else if word = directBlock 1 then 10 else 0

def onesVolume : Ext2 where
  superBlock := ⟨16, 64, 0, 0, 0, 64, 16, 128⟩
  blockGroups := fun _ => ⟨0, 0, 3, 0⟩
  disk := fun address => if address < 1024 then 0 else 1
  heap := fun _ => 0
  writes := []

theorem sparseInode_isTable (isTable : onesVolume.IsTable sparseInode block) : block = 0 := by
  have noTable : ∀ level < 3, sparseInode (indirectBlock level) = 0 := by decide
  cases isTable with
  | single inside => exact noTable _ inside
  | double inside =>
      rw [noTable _ inside]
      rfl
  | triple =>
      rw [noTable 2 (by decide)]
      rfl

theorem sparseInode_mapped : onesVolume.Mapped sparseInode where
  blockSize := by decide
  size := by decide
  table := fun _ isTable present => absurd (sparseInode_isTable isTable) present
  data := by
    intro i inside present
    have isBlock : onesVolume.fileBlock sparseInode i = 10 := by
      by_cases direct : i < directBlockCount
      · have isDirect : onesVolume.fileBlock sparseInode i = sparseInode (directBlock i) :=
          if_pos direct
        have notSize : directBlock i ≠ sizeWord := by
          rw [directBlock, sizeWord]
          omega
        rw [isDirect, sparseInode, if_neg notSize] at present ⊢
        split
        next => rfl
        next other => exact absurd (if_neg other) present
      · rw [fileBlock, if_neg direct] at present
        dsimp only at present
        split at present
        next => exact absurd rfl present
        next =>
          split at present
          next => exact absurd rfl present
          next => exact absurd rfl present
    rw [isBlock]
    constructor
    · rw [InDevice]
      decide
    · intro isTable
      exact absurd (sparseInode_isTable isTable) (by decide)

end Ext2

end CleanOS.Fs
