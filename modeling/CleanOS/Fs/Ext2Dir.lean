import CleanOS.Common.Strings
import CleanOS.Fs.InodeAccess

/-!
# Directories of ext2

`get_sub_inode` and `ext2_readdir` of `kernel/fs/ext2.c`, on a device that never fails and with
memory that never runs out.  A block of a directory is the memory from the buffer on that it was
read into, and what is read of it is recorded byte by byte.  Offsets into it do not wrap, as the
memory has room for it.
-/

namespace CleanOS.Common

/-- How many bytes `memcmp` reads of both memories, from a place on. -/
def memcmpCount (a b : Nat → UInt8) : (size place : Nat) → Nat
  | 0, _ => 0
  | size + 1, place => if a place ≠ b place then 1 else memcmpCount a b size (place + 1) + 1

end CleanOS.Common

namespace CleanOS.Fs

open CleanOS.Common

/-- The positions of `count` bytes. -/
def bytesAt (start count : Nat) : List Nat :=
  (List.range count).map (start + ·)

/-- `inode` of the `dir_entry_t` at an offset. -/
def entryInode (entries : Nat → UInt8) (off : Nat) : UInt32 :=
  longAt entries off

/-- `size`. -/
def entrySize (entries : Nat → UInt8) (off : Nat) : Nat :=
  (entries (off + 4)).toNat + 256 * (entries (off + 5)).toNat

/-- `name_length`. -/
def entryNameLen (entries : Nat → UInt8) (off : Nat) : Nat :=
  (entries (off + 6)).toNat

/-- `type`. -/
def entryType (entries : Nat → UInt8) (off : Nat) : UInt8 :=
  entries (off + 7)

/-- `dir_entry_name`. -/
def entryName (entries : Nat → UInt8) (off : Nat) : Nat → UInt8 := fun pos =>
  entries (off + 8 + pos)

/-- The entry has the name: its length, and its bytes as far as `memcmp` compares them. -/
def Matches (entries : Nat → UInt8) (name : CString) (off : Nat) : Prop :=
  name.strlen = entryNameLen entries off ∧
    memcmp name.bytes (entryName entries off) (min name.strlen (entryNameLen entries off)) = 0

instance (entries : Nat → UInt8) (name : CString) (off : Nat) :
    Decidable (Matches entries name off) :=
  inferInstanceAs (Decidable (_ ∧ _))

def matchReads (entries : Nat → UInt8) (name : CString) (off : Nat) : List Nat :=
  bytesAt (off + 6) 1 ++
    if name.strlen = entryNameLen entries off then
      bytesAt (off + 8) (memcmpCount name.bytes (entryName entries off)
        (min name.strlen (entryNameLen entries off)) 0)
    else []

/-- What is read in a search of a block, and the offset of the entry that is found. -/
structure Scan where
  reads : List Nat
  found : Option Nat

/-- The inner loop of `get_sub_inode`.  There is no result when the fuel runs out.  The inode of an
entry is read before its offset is compared with the size of the block. -/
def scanBlock (blockSize : Nat) (entries : Nat → UInt8) (name : CString) :
    (fuel off : Nat) → Option Scan
  | 0, _ => none
  | fuel + 1, off =>
      if entryInode entries off > 0 ∧ off < blockSize then
        if Matches entries name off then
          some ⟨bytesAt off 4 ++ matchReads entries name off, some off⟩
        else
          (scanBlock blockSize entries name fuel (off + entrySize entries off)).map fun later =>
            { later with
              reads := bytesAt off 4 ++ matchReads entries name off ++ bytesAt (off + 4) 2 ++
                later.reads }
      else some ⟨bytesAt off 4, none⟩

/-- What a lookup reads of its buffer, its result, and the inode in memory after it. -/
structure Lookup where
  reads : List Nat
  idx : Int
  inode : Nat → UInt32

/-- The loop of `ext2_readdir` over a block, with the number of passes that are left before
`file_idx` reaches the offset: what is read, `file_idx`, and `off`. -/
def seekEntry (blockSize : Nat) (entries : Nat → UInt8) :
    (left fileIdx off : Nat) → List Nat × Nat × Nat
  | 0, fileIdx, off => ([], fileIdx, off)
  | left + 1, fileIdx, off =>
      if off + entrySize entries off < blockSize then
        let later := seekEntry blockSize entries left (fileIdx + 1) (off + entrySize entries off)
        (bytesAt (off + 4) 2 ++ later.1, later.2)
      else (bytesAt (off + 4) 2, fileIdx, off)

/-- The size of `name` in `dirent_t`. -/
def direntNameSize : Nat := 64

/-- `file_type`, as far as `get_file_type` gives it. -/
inductive DirentType where
  | unknown
  | file
  | dir

/-- `get_file_type`. -/
def getFileType (type : UInt8) : DirentType :=
  if type = 1 then .file else if type = 2 then .dir else .unknown

/-- `dirent_t`.  The number of children is left out, as `ext2_readdir` does not set it. -/
structure Dirent where
  offset : Int
  size : UInt32
  type : DirentType
  name : Nat → UInt8

def foundReads (entries : Nat → UInt8) (off : Nat) : List Nat :=
  bytesAt (off + 7) 1 ++ bytesAt (off + 6) 1 ++
    bytesAt (off + 8) (min direntNameSize (entryNameLen entries off)) ++ bytesAt off 4

namespace Ext2

def loadBlock (volume : Ext2) (block : UInt32) : Nat → UInt8 := fun pos =>
  if pos < volume.blockSize.toNat then blockRead volume.disk volume.blockSize block pos
  else byteOf volume.heap pos

/-- The outer loop of `get_sub_inode`. -/
def subInodeLoop (volume : Ext2) (parent : Nat → UInt32) (name : CString) (inode : Nat → UInt32)
    (fuel : Nat) : (left i : Nat) → Option Lookup
  | 0, _ => some ⟨[], -1, inode⟩
  | left + 1, i =>
      if parent (directBlock i) > 0 then
        let entries := volume.loadBlock (parent (directBlock i))
        match scanBlock volume.blockSize.toNat entries name fuel 0 with
        | none => none
        | some ⟨reads, some off⟩ =>
            let inodeIdx := entryInode entries off
            some ⟨reads, toInt32 inodeIdx.toNat, (volume.rwInode inodeIdx inode false).2⟩
        | some ⟨reads, none⟩ =>
            (subInodeLoop volume parent name inode fuel left (i + 1)).map fun later =>
              { later with reads := reads ++ later.reads }
      else some ⟨[], -1, inode⟩

/-- `get_sub_inode`, with fuel for the search of a block. -/
def getSubInode (volume : Ext2) (parent : Nat → UInt32) (name : CString) (inode : Nat → UInt32)
    (fuel : Nat) : Option Lookup :=
  volume.subInodeLoop parent name inode fuel directBlockCount 0

/-- The outer loop of `ext2_readdir`: what is read, and the block and the offset of the entry that
is found. -/
def readdirLoop (volume : Ext2) (inode : Nat → UInt32) (offset : Int) :
    (left i : Nat) → List Nat × Option (Nat × Nat)
  | 0, _ => ([], none)
  | left + 1, i =>
      if inode (directBlock i) > 0 then
        let entries := volume.loadBlock (inode (directBlock i))
        let (reads, fileIdx, off) := seekEntry volume.blockSize.toNat entries offset.toNat 0 0
        if fileIdx = offset then (reads ++ foundReads entries off, some (i, off))
        else
          let later := readdirLoop volume inode offset left (i + 1)
          (reads ++ later.1, later.2)
      else ([], none)

/-- `dirent` filled from the entry at an offset. -/
def fillDirent (volume : Ext2) (entries : Nat → UInt8) (off : Nat) (dirent : Dirent)
    (childInode : Nat → UInt32) : Dirent where
  offset := toInt32 (dirent.offset + 1)
  type := getFileType (entryType entries off)
  name := copyInto (copyInto dirent.name 0 direntNameSize fun _ => 0) 0
    (min direntNameSize (entryNameLen entries off)) (entryName entries off)
  size := (volume.rwInode (entryInode entries off) childInode false).2 sizeWord

/-- `ext2_readdir` of a directory: what is read, the result, and `dirent`.  The memory for the
inode of the entry holds anything before it is read. -/
def ext2Readdir (volume : Ext2) (inode : Nat → UInt32) (dirent : Dirent)
    (childInode : Nat → UInt32) : List Nat × Int × Dirent :=
  match volume.readdirLoop inode dirent.offset directBlockCount 0 with
  | (reads, none) => (reads, -1, dirent)
  | (reads, some (i, off)) =>
      let entries := volume.loadBlock (inode (directBlock i))
      (reads, 0, volume.fillDirent entries off dirent childInode)

end Ext2

end CleanOS.Fs
