import CleanOS.Common.Strings
import CleanOS.Fs.DirEntries

/-!
# Long file names

`create_lfn` and `handle_lfn_entry` of `kernel/fs/fat16fs.c`.  A name is cut into pieces of
thirteen characters, which are written in reverse order, each as 16-bit units in three fields of
an entry.
-/

namespace CleanOS.Fs

open CleanOS.Common

/-- `DIR_ENTRY_ATTR_LFN`. -/
def dirEntryAttrLfn : UInt8 := 0x0f

/-- `sizeof(lfn_buf)`. -/
def lfnBufSize : Nat := 234

def realNameSize : Nat := 256

/-- `long_name_dir_entry_t`. -/
structure LongNameDirEntry where
  order : UInt8
  name0_4 : Nat → UInt8
  attr : UInt8
  type : UInt8
  checkSum : UInt8
  name5_10 : Nat → UInt8
  reserved : UInt16
  name11_12 : Nat → UInt8

namespace LongNameDirEntry

def bytes (entry : LongNameDirEntry) : Nat → UInt8 := fun pos =>
  if pos = 0 then entry.order
  else if pos < 11 then entry.name0_4 (pos - 1)
  else if pos = 11 then entry.attr
  else if pos = 12 then entry.type
  else if pos = 13 then entry.checkSum
  else if pos < 26 then entry.name5_10 (pos - 14)
  else if pos = 26 then entry.reserved.toUInt8
  else if pos = 27 then (entry.reserved >>> 8).toUInt8
  else entry.name11_12 (pos - 28)

def ofBytes (bytes : Nat → UInt8) : LongNameDirEntry where
  order := bytes 0
  name0_4 := fun pos => bytes (1 + pos)
  attr := bytes 11
  type := bytes 12
  checkSum := bytes 13
  name5_10 := fun pos => bytes (14 + pos)
  reserved := (bytes 26).toUInt16 ||| (bytes 27).toUInt16 <<< 8
  name11_12 := fun pos => bytes (28 + pos)

end LongNameDirEntry

/-- `ascii2unicode`. -/
def ascii2unicode (ascii unicode : Nat → UInt8) (size : Nat) : Nat → UInt8 :=
  (List.range size).foldl
    (fun unicode i => Function.update (Function.update unicode (i * 2) (ascii i)) (i * 2 + 1) 0)
    unicode

/-- `get_check_sum`. -/
def getCheckSum (shortName : Nat → UInt8) : UInt8 :=
  (List.range 11).foldl
    (fun checkSum i => ((checkSum &&& 1) <<< 7) + (checkSum >>> 1) + shortName i) 0

/-- The entry that `create_lfn` makes of the piece `i` of a name.  Every byte of it is set. -/
def lfnPiece (name : Nat → UInt8) (lfnEntryCount i : Nat) (checkSum : UInt8) :
    LongNameDirEntry where
  order :=
    if i = lfnEntryCount - 1 then UInt8.ofNat (i + 1) ||| 0x40 else UInt8.ofNat (i + 1)
  name0_4 := ascii2unicode (fun pos => name (i * 13 + pos)) (fun _ => 0) 5
  attr := dirEntryAttrLfn
  type := 0
  checkSum := checkSum
  name5_10 := ascii2unicode (fun pos => name (i * 13 + 5 + pos)) (fun _ => 0) 6
  reserved := 0
  name11_12 := ascii2unicode (fun pos => name (i * 13 + 11 + pos)) (fun _ => 0) 2

/-- The loop of `create_lfn`, from the last piece to the first. -/
def createLfnLoop (name : Nat → UInt8) (lfnEntryCount : Nat) (checkSum : UInt8)
    (nodeSectorIdx : Nat) : Nat → Volume → Nat → Volume × Nat
  | 0, volume, fileIdx => (volume, fileIdx)
  | i + 1, volume, fileIdx =>
      let lfn := lfnPiece name lfnEntryCount i checkSum
      let (volume, _) := volume.writeDirEntry lfn.bytes nodeSectorIdx fileIdx
      createLfnLoop name lfnEntryCount checkSum nodeSectorIdx i volume (fileIdx + 1)

/-- `create_lfn`: the volume, the short entry with its new name, the index behind the entries,
and what is returned. -/
def createLfn (volume : Volume) (nodeSectorIdx : Nat) (entry : Nat → UInt8) (name : CString)
    (fileIdx : Nat) : Volume × (Nat → UInt8) × Nat × Int :=
  let lfnEntryCount := (up2 (UInt32.ofNat name.strlen) 13 / 13).toNat
  if 9 < lfnEntryCount then (volume, entry, fileIdx, -1)
  else
    let entry := Function.update entry 6 0x7e
    let entry := Function.update entry 7 (UInt8.ofNat lfnEntryCount + 0x30)
    let checkSum := getCheckSum entry
    let (volume, fileIdx) :=
      createLfnLoop name.bytes lfnEntryCount checkSum nodeSectorIdx lfnEntryCount volume fileIdx
    (volume, entry, fileIdx, 0)

/-- The loop of `from_lfn`.  A `char` is signed, so that it is never `0xff`. -/
def fromLfnLoop (lfn : Nat → UInt8) (size : Nat) :
    Nat → (Nat → UInt8) → (i j : Nat) → (Nat → UInt8)
  | 0, dst, _, _ => dst
  | fuel + 1, dst, i, j =>
      if j < size then
        if (lfn j).toInt8.toInt = 0xff then dst
        else
          let dst := Function.update dst i (lfn j)
          if lfn (j + 1) ≠ 0 then
            fromLfnLoop lfn size fuel (Function.update dst (i + 1) (lfn (j + 1))) (i + 2) (j + 2)
          else fromLfnLoop lfn size fuel dst (i + 1) (j + 2)
      else dst

/-- `from_lfn`.  Every pass takes two bytes. -/
def fromLfn (dst lfn : Nat → UInt8) (size : Nat) : Nat → UInt8 :=
  fromLfnLoop lfn size size dst 0 0

/-- The loop of `handle_lfn_entry` over the entries that are left in the directory, with its
number of passes, the index and `lfn_buf`.  There is no result when something is written outside
`lfn_buf` or `check_sums`, whose bytes are not used. -/
def lfnLoop (sectorStart : Nat) :
    Nat → Volume → (j i : Nat) → (Nat → UInt8) → Option (Volume × Nat × (Nat → UInt8))
  | 0, volume, _, i, lfnBuf => some (volume, i, lfnBuf)
  | left + 1, volume, j, i, lfnBuf =>
      match volume.readDirEntry sectorStart i with
      | (volume, none) => some (volume, i, lfnBuf)
      | (volume, some offset) =>
          let lfnEntry := LongNameDirEntry.ofBytes fun pos => volume.cacheBuf (offset + pos)
          if lfnEntry.attr ≠ dirEntryAttrLfn then some (volume, i, lfnBuf)
          else
            let number := (lfnEntry.order &&& 0x1f).toNat
            if number = 0 ∨ 9 < number ∨ 9 ≤ j then none
            else
              let order := number - 1
              let lfnBuf := copyInto lfnBuf (26 * order) 10 lfnEntry.name0_4
              let lfnBuf := copyInto lfnBuf (26 * order + 10) 12 lfnEntry.name5_10
              let lfnBuf := copyInto lfnBuf (26 * order + 22) 4 lfnEntry.name11_12
              if order = 0 then some (volume, i, lfnBuf)
              else lfnLoop sectorStart left volume (j + 1) (i + 1) lfnBuf

/-- What `handle_lfn_entry` and `handle_dir_entry` leave: the index, `handled`, the buffer of the
name, and the offset in the cache of the entry that they return. -/
structure Handled where
  volume : Volume
  idx : Nat
  handled : Bool
  realName : Nat → UInt8
  entry : Option Nat

/-- `strlen` of a name in its buffer. -/
def realNameLen (realName : Nat → UInt8) : Option Nat :=
  (List.range realNameSize).find? fun pos => realName pos = 0

/-- `handle_lfn_entry`.  The clearing of `check_sums` is taken to stay within it.  There is no
result either when the name does not end in its buffer. -/
def handleLfnEntry (volume : Volume) (sectorStart idx : Nat) (path : Option CString)
    (handled : Bool) (realName : Nat → UInt8) : Option Handled := do
  let (volume, i, lfnBuf) ←
    lfnLoop sectorStart (volume.bpb.rootEntryCount - idx) volume 0 idx fun _ => 0
  let idx := i + 1
  let realName := fromLfn realName lfnBuf lfnBufSize
  let matched ← match path with
    | none => some true
    | some path => do
        let size ← realNameLen realName
        some (decide (memcmp realName path.bytes (max size path.strlen) = 0))
  if matched then
    match volume.readDirEntry sectorStart idx with
    | (volume, none) => return ⟨volume, idx, handled, realName, none⟩
    | (volume, some offset) => return ⟨volume, idx, true, realName, some offset⟩
  else return ⟨volume, idx, false, realName, none⟩

end CleanOS.Fs
