import CleanOS.Common.Bitmap
import CleanOS.Fs.Volume
import Mathlib.Algebra.Group.Int.Defs
import Mathlib.Algebra.Group.Nat.Defs

/-!
# The ext2 driver

The block functions, `rw_inode`, `alloc_block`, `ext2_read` and `ext2_write` of
`kernel/fs/ext2.c`, on a device that never fails and with memory that never runs out.
An inode in memory is the sequence of words that starts where the inode lies, so that an
index past a table of the inode reaches what the code reaches there.
-/

namespace CleanOS.Fs

open CleanOS.Common

/-- `kb_size`. -/
def kbSize (s : UInt32) : UInt32 := (s + 1) * 1024

/-- `DIRECT_BLOCK_COUNT`. -/
def directBlockCount : Nat := 12

/-- `O_RDONLY`. -/
def openReadOnly : UInt32 := 2

/-- The fields of `super_block_t` and `super_block_ext_t` that say where things are. -/
structure SuperBlock where
  inodeTotal : UInt32
  blocksTotal : UInt32
  unallocatedBlockCount : UInt32
  superBlockId : UInt32
  blockSizeKb : UInt32
  blocksPerGroup : UInt32
  inodesPerGroup : UInt32
  inodeSize : UInt16

/-- `block_group_desc_t`. -/
structure BlockGroupDesc where
  blockBitmap : UInt32
  inodeBitmap : UInt32
  inodeTable : UInt32
  unallocatedBlockCount : UInt16

/-- A mounted file system: `ext2_desc`, the bytes of the device, and the words of the
memory behind a table that was read from the device.  `writes` records the blocks that
`ext2_write` writes data to. -/
structure Ext2 where
  superBlock : SuperBlock
  blockGroups : Nat → BlockGroupDesc
  disk : Nat → UInt8
  heap : Nat → UInt32
  writes : List UInt32

/-- The part of `file_t` and `file_data_t` that the driver uses.  The third level of
indirect blocks is left out, as what is read for it is not used. -/
structure Ext2File where
  isFile : Bool
  mode : UInt32
  size : UInt32
  pos : UInt32
  inodeIdx : UInt32
  inode : Nat → UInt32
  firstIndirectBlocks : Option (Nat → UInt32)
  secondIndirectIdx : Option (Nat → UInt32)
  secondIndirectBlocks : Option (Nat → Option (Nat → UInt32))

/-- The word of an inode that `direct_blocks[i]` is. -/
def directBlock (i : Nat) : Nat := 10 + i

/-- The word of an inode that `indirect_blocks[i]` is. -/
def indirectBlock (i : Nat) : Nat := 22 + i

/-- The word of an inode that `size0_31` is. -/
def sizeWord : Nat := 1

/-- `sizeof(inode_t)`. -/
def inodeBytes : Nat := 128

def longAt (bytes : Nat → UInt8) (offset : Nat) : UInt32 :=
  UInt32.ofNat ((bytes offset).toNat + 256 * (bytes (offset + 1)).toNat +
    65536 * (bytes (offset + 2)).toNat + 16777216 * (bytes (offset + 3)).toNat)

def byteOf (words : Nat → UInt32) (offset : Nat) : UInt8 :=
  UInt8.ofNat ((words (offset / 4)).toNat / 256 ^ (offset % 4))

def blockAddr (blockSize block : UInt32) : Nat :=
  (block * blockSize / 512).toNat * 512

def blockBytes (blockSize : UInt32) : Nat :=
  (blockSize / 512).toNat * 512

/-- `block_read` of one block. -/
def blockRead (disk : Nat → UInt8) (blockSize block : UInt32) : Nat → UInt8 := fun offset =>
  disk (blockAddr blockSize block + offset)

/-- `block_write` of one block. -/
def blockWrite (disk : Nat → UInt8) (blockSize : UInt32) (buf : Nat → UInt8) (block : UInt32) :
    Nat → UInt8 := fun address =>
  if blockAddr blockSize block ≤ address ∧
      address < blockAddr blockSize block + blockBytes blockSize then
    buf (address - blockAddr blockSize block)
  else disk address

namespace Ext2

def blockSize (volume : Ext2) : UInt32 :=
  kbSize volume.superBlock.blockSizeKb

/-- The block and the offset in it where `rw_inode` looks for an inode. -/
def inodePlace (volume : Ext2) (inodeIdx : UInt32) : UInt32 × UInt32 :=
  let inodeIdx := inodeIdx - 1
  let groupIdx := inodeIdx / volume.superBlock.inodesPerGroup
  let inodeIdx := inodeIdx % volume.superBlock.inodesPerGroup
  let inodeSize := volume.superBlock.inodeSize.toUInt32
  (inodeIdx * inodeSize / volume.blockSize + (volume.blockGroups groupIdx.toNat).inodeTable,
    inodeIdx * inodeSize % volume.blockSize)

/-- `rw_inode`, which reads or writes one inode. -/
def rwInode (volume : Ext2) (inodeIdx : UInt32) (inode : Nat → UInt32) (write : Bool) :
    Ext2 × (Nat → UInt32) :=
  let (block, offset) := volume.inodePlace inodeIdx
  let inodeBuf := blockRead volume.disk volume.blockSize block
  if write then
    let inodeBuf := copyInto inodeBuf offset.toNat inodeBytes (byteOf inode)
    ({ volume with disk := blockWrite volume.disk volume.blockSize inodeBuf block }, inode)
  else
    (volume, fun word =>
      if 4 * word < inodeBytes then longAt inodeBuf (offset.toNat + 4 * word) else inode word)

/-- The loop of `alloc_block`. -/
def allocLoop (dataBlockStart : UInt32) (must : Bool) :
    Nat → Bitmap → List UInt32 → UInt32 → Option (List UInt32 × UInt32)
  | 0, _, blocks, success => some (blocks, success)
  | count + 1, bitmap, blocks, success =>
      let idx := bitmap.scan 1
      if 0 ≤ idx then
        allocLoop dataBlockStart must count (bitmap.set idx.toNat true)
          (blocks ++ [UInt32.ofNat idx.toNat + dataBlockStart]) (success + 1)
      else if must then none
      -- The entry keeps the zero that it was allocated with.
      else allocLoop dataBlockStart must count bitmap (blocks ++ [0]) success

/-- `alloc_block`, which looks at the first group only and does not write the bitmap
back.  The result is the number of blocks, the blocks, and the new counters. -/
def allocBlock (volume : Ext2) (count : UInt32) (must : Bool) : UInt32 × List UInt32 × Ext2 :=
  let group := volume.blockGroups 0
  if group.unallocatedBlockCount.toUInt32 < count then (0, [], volume)
  else
    let blockBitmap := blockRead volume.disk volume.blockSize group.blockBitmap
    let bitmap : Bitmap :=
      { bytesLen := volume.blockSize.toNat, bits := fun byteIdx => (blockBitmap byteIdx).toBitVec }
    let inodesBlocksPerGroup :=
      volume.superBlock.inodesPerGroup * volume.superBlock.inodeSize.toUInt32 / volume.blockSize
    let dataBlockStart := group.inodeTable + inodesBlocksPerGroup + 1
    match allocLoop dataBlockStart must count.toNat bitmap [] 0 with
    | none => (0, [], volume)
    | some (blocks, success) =>
        let group :=
          { group with unallocatedBlockCount := group.unallocatedBlockCount - success.toUInt16 }
        let superBlock :=
          { volume.superBlock with
            unallocatedBlockCount := volume.superBlock.unallocatedBlockCount - success }
        (success, blocks, { volume with
          superBlock, blockGroups := Function.update volume.blockGroups 0 group })

def readTable (volume : Ext2) (block : UInt32) : Nat → UInt32 := fun index =>
  if index < volume.blockSize.toNat / 4 then
    longAt (blockRead volume.disk volume.blockSize block) (4 * index)
  else volume.heap index

end Ext2

def toInt32 (value : Int) : Int := value.bmod (2 ^ 32)

namespace Ext2File

/-- The first level of indirect blocks in `ext2_read`. -/
def firstIndirect (volume : Ext2) (file : Ext2File) (indirectIdx : Int) (blockAddr : UInt32) :
    UInt32 × Ext2File :=
  let inodesPerBlock := volume.blockSize / 4
  if 0 ≤ indirectIdx ∧ indirectIdx < inodesPerBlock.toNat ∧ file.inode (indirectBlock 0) > 0 then
    let blocks :=
      file.firstIndirectBlocks.getD (volume.readTable (file.inode (indirectBlock 0)))
    (blocks indirectIdx.toNat, { file with firstIndirectBlocks := some blocks })
  else (blockAddr, file)

def secondIndirect (volume : Ext2) (file : Ext2File) (indirectIdx : Int) (blockAddr : UInt32) :
    UInt32 × Ext2File :=
  let inodesPerBlock := volume.blockSize / 4
  if 0 ≤ indirectIdx ∧ indirectIdx < (inodesPerBlock * inodesPerBlock).toNat ∧
      file.inode (indirectBlock 1) > 0 then
    let secondIdx := indirectIdx.toNat / inodesPerBlock.toNat
    let indices := file.secondIndirectIdx.getD (volume.readTable (file.inode (indirectBlock 1)))
    let tables := file.secondIndirectBlocks.getD fun _ => none
    let table := (tables secondIdx).getD (volume.readTable (indices secondIdx))
    (table (indirectIdx.toNat % (inodesPerBlock * inodesPerBlock).toNat),
      { file with
        secondIndirectIdx := some indices
        secondIndirectBlocks := some (Function.update tables secondIdx (some table)) })
  else (blockAddr, file)

/-- The block that `ext2_read` takes for a block of the file, unless it gives up.  At the
third level, which is not done, it stays at -1. -/
def findBlock (volume : Ext2) (file : Ext2File) (i : Nat) : Option UInt32 × Ext2File :=
  if i < directBlockCount then (some (file.inode (directBlock i)), file)
  else
    let inodesPerBlock := volume.blockSize / 4
    let indirectIdx : Int := i - directBlockCount
    let (blockAddr, file) := file.firstIndirect volume indirectIdx 0xffffffff
    let indirectIdx := toInt32 (indirectIdx - inodesPerBlock.toNat)
    let (blockAddr, file) := file.secondIndirect volume indirectIdx blockAddr
    let indirectIdx := toInt32 (indirectIdx - (inodesPerBlock * inodesPerBlock).toNat)
    let indirectIdx :=
      toInt32 (indirectIdx - (inodesPerBlock * inodesPerBlock * inodesPerBlock).toNat)
    if 0 ≤ indirectIdx then (none, file) else (some blockAddr, file)

/-- The loop of `ext2_read`, with the bytes that are still to be read and those that were
read.  The test for a negative block never holds, as the number is unsigned. -/
def readLoop (volume : Ext2) :
    Nat → Nat → Ext2File → UInt32 → List UInt8 → Option (Int × List UInt8 × Ext2File)
  | 0, _, _, _, _ => none
  | fuel + 1, i, file, size, out =>
      if size = 0 then some (out.length, out, file)
      else
        match file.findBlock volume i with
        | (none, file) => some (-1, out, file)
        | (some block, file) =>
            if block = 0 then readLoop volume fuel (i + 1) file size out
            else
              let offset := file.pos % volume.blockSize
              let readBuf := blockRead volume.disk volume.blockSize block
              let readSize := min size (volume.blockSize - offset)
              let chunk := (List.range readSize.toNat).map fun place =>
                readBuf (offset.toNat + place)
              readLoop volume fuel (i + 1) { file with pos := file.pos + readSize }
                (size - readSize) (out ++ chunk)

/-- `ext2_read`: its result, what it left in the buffer, and the file after it. -/
def ext2Read (volume : Ext2) (file : Ext2File) (size : UInt32) :
    Option (Int × List UInt8 × Ext2File) :=
  if file.isFile then
    readLoop volume (2 ^ 32) (file.pos / volume.blockSize).toNat file
      (min size (file.size - file.pos)) []
  else some (-1, [], file)

end Ext2File

/-- Stores block numbers into `direct_blocks`, from an index on. -/
def storeBlocks : (Nat → UInt32) → Nat → List UInt32 → (Nat → UInt32)
  | inode, _, [] => inode
  | inode, index, block :: blocks =>
      storeBlocks (Function.update inode (directBlock index) block) (index + 1) blocks

/-- The variables of `ext2_write`: what is left of the buffer, and how much was
written. -/
structure Writing where
  volume : Ext2
  file : Ext2File
  buf : List UInt8
  allWriteSize : UInt32

namespace Writing

/-- One block of `ext2_write`. -/
def writeBlock (writing : Writing) : Writing :=
  let volume := writing.volume
  let file := writing.file
  let blockIdx := file.pos / volume.blockSize
  let blockOffset := file.pos % volume.blockSize
  let writeSize := min (volume.blockSize - blockOffset) (UInt32.ofNat writing.buf.length)
  let block := file.inode (directBlock blockIdx.toNat)
  let buffer := blockRead volume.disk volume.blockSize block
  let buffer := copyInto buffer blockOffset.toNat writeSize.toNat fun place =>
    (writing.buf[place]?).getD 0
  let pos := file.pos + writeSize
  let size := max file.size pos
  { volume := { volume with
      disk := blockWrite volume.disk volume.blockSize buffer block
      writes := volume.writes ++ [block] }
    file := { file with pos, size, inode := Function.update file.inode sizeWord size }
    buf := writing.buf.drop writeSize.toNat
    allWriteSize := writing.allWriteSize + writeSize }

/-- The loop of `ext2_write` over whole blocks. -/
def writeLoop : Nat → Writing → Writing
  | 0, writing => writing
  | fuel + 1, writing =>
      if writing.buf = [] then writing else writeLoop fuel writing.writeBlock

end Writing

namespace Ext2File

/-- The first part of `ext2_write`, which allocates blocks for what does not fit.  The
first new block is stored one place too far, and a failure is not noticed. -/
def grow (volume : Ext2) (file : Ext2File) (size : UInt32) : Ext2 × Ext2File :=
  let blockSize := volume.blockSize
  let allocSize := toInt32 (file.pos + size - up2 file.size blockSize).toNat
  if 0 < allocSize then
    let count := up2 (UInt32.ofNat allocSize.toNat) blockSize / blockSize
    let (success, blocks, volume) := volume.allocBlock count true
    if success = count then
      let blockStart := up2 file.size blockSize / blockSize + 1
      (volume, { file with inode := storeBlocks file.inode blockStart.toNat blocks })
    else (volume, file)
  else (volume, file)

/-- `ext2_write`. -/
def ext2Write (volume : Ext2) (file : Ext2File) (buf : List UInt8) : Int × Ext2 × Ext2File :=
  if file.mode &&& openReadOnly ≠ 0 then (-1, volume, file)
  else
    let (volume, file) := file.grow volume (UInt32.ofNat buf.length)
    let writing : Writing := { volume, file, buf, allWriteSize := 0 }
    let writing := if file.pos % volume.blockSize ≠ 0 then writing.writeBlock else writing
    let writing := writing.writeLoop buf.length
    let (volume, inode) :=
      writing.volume.rwInode writing.file.inodeIdx writing.file.inode true
    (toInt32 writing.allWriteSize.toNat, volume, { writing.file with inode })

end Ext2File

end CleanOS.Fs
