import CleanOS.Fs.Volume
import CleanOS.Lib.Calls

/-!
# The sector cache of a FAT16 volume

The cache of `kernel/fs/fat16fs.c` on a device that can fail, with the transfers of
`kernel/device/disk/disk.c`.  `outcome` gives the answer of the device to each of its
operations.  The calls keep a record of the requests to `buf_read`.
-/

namespace CleanOS.Fs

/-- What an operation of the device does: it succeeds, it returns a code without a transfer, or
it returns a code after the buffer or the sectors have changed in some way. -/
inductive Outcome where
  | ok
  | refused (code : Int)
  | broken (code : Int) (buffer : Nat → UInt8) (sectors : Nat → Nat → UInt8)

/-- `SECTOR_SIZE`. -/
def sectorSize : Nat := 512

/-- `sizeof(dir_entry_t)`. -/
def dirEntrySize : Nat := 32

/-- The loop of `disk_read`: the position in the buffer moves by a sector more each time. -/
def readSectors (disk : Nat → Nat → UInt8) (sectorStart : Nat) :
    Nat → Nat → Nat → (Nat → UInt8) → (Nat → UInt8)
  | 0, _, _, buf => buf
  | count + 1, idx, offset, buf =>
      readSectors disk sectorStart count (idx + 1) (offset + sectorSize * (idx + 1)) fun pos =>
        if offset ≤ pos ∧ pos < offset + sectorSize then disk (sectorStart + idx) (pos - offset)
        else buf pos

/-- The loop of `disk_write`. -/
def writeSectors (buf : Nat → UInt8) (sectorStart : Nat) :
    Nat → Nat → Nat → (Nat → Nat → UInt8) → (Nat → Nat → UInt8)
  | 0, _, _, disk => disk
  | count + 1, idx, offset, disk =>
      writeSectors buf sectorStart count (idx + 1) (offset + sectorSize * (idx + 1))
        (Function.update disk (sectorStart + idx) fun pos =>
          if pos < sectorSize then buf (offset + pos) else disk (sectorStart + idx) pos)

/-- A call of `buf_read`: whether the tag of the cache matches, whether every operation since
the buffer was filled succeeded, the answer that a device gives to a miss, and what there is
after the call. -/
structure Request where
  sectorStart : UInt32
  size : UInt32
  hit : Bool
  trusted : Bool
  outcome : Outcome
  returned : Int
  cacheBuf : Nat → UInt8
  disk : Nat → Nat → UInt8

/-- The device, the cache of `bpb_t`, and a record of what was done: the number of operations of
the device, whether each since the buffer was filled succeeded, and the requests. -/
structure SectorCache where
  bpb : Bpb
  disk : Nat → Nat → UInt8
  cacheSectorStart : UInt32
  cacheSectorSize : UInt32
  cacheBuf : Nat → UInt8
  operations : Nat
  trusted : Bool
  requests : List Request

def wordOf (page : Nat → UInt8) (offset : Nat) : UInt32 :=
  UInt32.ofNat (wordAt page offset + 65536 * wordAt page (offset + 2))

/-- `validate_bpb`. -/
def validateBpb (page : Nat → UInt8) : Bool :=
  page 16 = 2 && page 54 = 0x46 && page 55 = 0x41 && page 56 = 0x54 && page 57 = 0x31 &&
    page 58 = 0x36

namespace SectorCache

/-- The end of `fat16_mount` for the page that holds the boot sector.  The fields of the cache
lie over the boot sector, and its buffer starts sixteen bytes behind the pointer to it. -/
def ofBootSector (disk : Nat → Nat → UInt8) (page : Nat → UInt8) : Option SectorCache :=
  if validateBpb page then
    some {
      bpb := {
        bytesPerSector := wordAt page 11
        sectorsPerCluster := (page 13).toNat
        reservedSectorCount := wordAt page 14
        fatCount := (page 16).toNat
        rootEntryCount := wordAt page 17
        sectorsPerFat := wordAt page 22 }
      disk := disk
      cacheSectorStart := wordOf page 62
      cacheSectorSize := wordOf page 66
      cacheBuf := fun pos => page (86 + pos)
      operations := 1
      trusted := false
      requests := [] }
  else none

/-- `fat16_mount` on an open device, with the page that `alloc_kernel_mem` gives. -/
def mount (outcome : Nat → Outcome) (disk : Nat → Nat → UInt8) (page : Nat → UInt8) :
    Option SectorCache :=
  match outcome 0 with
  | .ok => ofBootSector disk (readSectors disk 0 1 0 0 page)
  | .refused code => if code < 1 then none else ofBootSector disk page
  | .broken code buffer _ => if code < 1 then none else ofBootSector disk buffer

variable (outcome : Nat → Outcome) (cache : SectorCache)

/-- `buf_read`. -/
def bufRead (sectorStart size : UInt32) : SectorCache × Int :=
  let answer := outcome cache.operations
  let request : Request :=
    { sectorStart := sectorStart, size := size, hit := false, trusted := cache.trusted
      outcome := answer, returned := 0, cacheBuf := cache.cacheBuf, disk := cache.disk }
  if cache.cacheSectorStart = sectorStart ∧ cache.cacheSectorSize = size then
    ({ cache with requests := cache.requests ++ [{ request with hit := true }] }, 0)
  else
    let (cacheBuf, trusted, code) : (Nat → UInt8) × Bool × Int :=
      match answer with
      | .ok => (readSectors cache.disk sectorStart.toNat size.toNat 0 0 cache.cacheBuf,
          cache.trusted || size ≠ 0, size.toNat)
      | .refused code => (cache.cacheBuf, cache.trusted, code)
      | .broken code buffer _ => (buffer, false, code)
    let read := { cache with
      cacheBuf := cacheBuf
      trusted := trusted
      operations := cache.operations + 1 }
    if 0 < code then
      ({ read with
        cacheSectorStart := sectorStart
        cacheSectorSize := size
        requests := cache.requests ++ [{ request with cacheBuf := cacheBuf }] }, 0)
    else
      ({ read with
        requests := cache.requests ++
          [{ request with cacheBuf := cacheBuf, returned := -1 }] }, -1)

/-- `buf_write`. -/
def bufWrite (sectorStart size : UInt32) : SectorCache × Int :=
  let (disk, failed, code) : (Nat → Nat → UInt8) × Bool × Int :=
    match outcome cache.operations with
    | .ok => (writeSectors cache.cacheBuf sectorStart.toNat size.toNat 0 0 cache.disk, false,
        size.toNat)
    | .refused code => (cache.disk, true, code)
    | .broken code _ sectors =>
        (fun sector =>
          if sectorStart.toNat ≤ sector ∧ sector < sectorStart.toNat + size.toNat then
            sectors sector
          else cache.disk sector, true, code)
  ({ cache with
    disk := disk
    operations := cache.operations + 1
    trusted := cache.trusted && !(failed && sectorStart = cache.cacheSectorStart) },
    if 0 < code then 0 else -1)

/-- `read_dir_entry`: the offset of the entry in the buffer, or `NULL`.  There is no result when
a division by zero stops the call, here and below. -/
def readDirEntry (sectorStart : UInt32) (idx : Int) : Option (SectorCache × Option Nat) :=
  if idx < 0 ∨ cache.bpb.rootEntryCount ≤ idx then some (cache, none)
  else if cache.bpb.bytesPerSector = 0 then none
  else
    let offset := dirEntrySize * idx.toNat
    let sectorStart := sectorStart + UInt32.ofNat (offset / cache.bpb.bytesPerSector)
    match cache.bufRead outcome sectorStart 1 with
    | (cache, 0) => some (cache, some (offset % cache.bpb.bytesPerSector))
    | (cache, _) => some (cache, none)

/-- `write_dir_entry`. -/
def writeDirEntry (entry : Nat → UInt8) (sectorRoot : UInt32) (idx : Int) :
    Option (SectorCache × Int) :=
  if idx < 0 ∨ cache.bpb.rootEntryCount ≤ idx then some (cache, -1)
  else if cache.bpb.bytesPerSector = 0 then none
  else
    let offset := dirEntrySize * idx.toNat
    let sectorStart := UInt32.ofNat (offset / cache.bpb.bytesPerSector) + sectorRoot
    let (cache, err) := cache.bufRead outcome sectorStart 1
    if err ≠ 0 then some (cache, err)
    else
      let sectorOffset := offset % cache.bpb.bytesPerSector
      let cache :=
        { cache with cacheBuf := copyInto cache.cacheBuf sectorOffset dirEntrySize entry }
      some (cache.bufWrite outcome sectorStart 1)

/-- The loop of `set_cluster` over the copies of the table. -/
def writeTables (sectorStart : UInt32) : SectorCache :=
  (List.range cache.bpb.fatCount).foldl
    (fun cache table =>
      (cache.bufWrite outcome
        (sectorStart + UInt32.ofNat (table * cache.bpb.sectorsPerFat)) 1).1) cache

/-- `set_cluster`. -/
def setCluster (cur next : UInt16) : Option (SectorCache × Int) :=
  if ¬ IsValidCluster cur.toNat then some (cache, -1)
  else if cache.bpb.bytesPerSector = 0 then none
  else
    let offset := cur.toNat * 2
    let sectorIdx := offset / cache.bpb.bytesPerSector
    if cache.bpb.sectorsPerFat ≤ sectorIdx then some (cache, -2)
    else
      let sectorStart := UInt32.ofNat (cache.bpb.reservedSectorCount + sectorIdx)
      let (cache, err) := cache.bufRead outcome sectorStart 1
      if err ≠ 0 then some (cache, err)
      else
        let sectorOffset := offset % cache.bpb.bytesPerSector
        let cache :=
          { cache with cacheBuf := putWord cache.cacheBuf sectorOffset next.toNat }
        some (cache.writeTables outcome sectorStart, 0)

/-- `get_next_cluster`. -/
def getNextCluster (cur : UInt16) : Option (SectorCache × UInt16) :=
  if cache.bpb.bytesPerSector = 0 then none
  else
    let offset := cur.toNat * 2
    let sectorOffset := offset % cache.bpb.bytesPerSector
    let sectorIdx := offset / cache.bpb.bytesPerSector
    if cache.bpb.sectorsPerFat < sectorIdx then some (cache, 0xfff8)
    else
      match cache.bufRead outcome
          (UInt32.ofNat (cache.bpb.reservedSectorCount + sectorIdx)) 1 with
      | (cache, 0) => some (cache, UInt16.ofNat (wordAt cache.cacheBuf 0 + sectorOffset))
      | (cache, _) => some (cache, 0xfff8)

end SectorCache

/-- The part of `file_t` that `fat16_file_operate` uses. -/
structure FilePosition where
  size : UInt32
  pos : UInt32
  blockCur : UInt32
  deriving DecidableEq, Repr

namespace SectorCache

variable (outcome : Nat → Outcome)

/-- `fat16_data_sector_idx`. -/
def dataSectorIdx (bpb : Bpb) : UInt32 :=
  UInt32.ofNat (bpb.reservedSectorCount + bpb.fatCount * bpb.sectorsPerFat +
    bpb.rootEntryCount * dirEntrySize / bpb.bytesPerSector)

/-- `step_read_size` of a pass: up to the end of the cluster. -/
def stepReadSize (bytesPerCluster clusterOffset size : UInt32) : UInt32 :=
  if bytesPerCluster < size + clusterOffset then bytesPerCluster - clusterOffset else size

/-- The copy in a pass of `fat16_file_operate`, which is written back at once. -/
def copyStep (cache : SectorCache) (isWrite : Bool) (buf : Nat → UInt8)
    (sectorStart size clusterOffset stepSize totalSize : UInt32) :
    SectorCache × (Nat → UInt8) × Int :=
  if isWrite then
    let filled :=
      { cache with
        cacheBuf := copyInto cache.cacheBuf clusterOffset.toNat stepSize.toNat fun pos =>
          buf (totalSize.toNat + pos) }
    let (cache, err) := filled.bufWrite outcome sectorStart size
    (cache, buf, err)
  else
    (cache, copyInto buf totalSize.toNat stepSize.toNat fun pos =>
      cache.cacheBuf (clusterOffset.toNat + pos), 0)

/-- The loop of `fat16_file_operate`, with the caller's buffer and the number of bytes done.
Each pass takes at least one of the remaining bytes. -/
def fileLoop (isWrite : Bool) :
    Nat → SectorCache → FilePosition → (Nat → UInt8) → (size totalSize : UInt32) →
      Option (SectorCache × FilePosition × (Nat → UInt8) × UInt32)
  | 0, cache, file, buf, _, totalSize => some (cache, file, buf, totalSize)
  | fuel + 1, cache, file, buf, size, totalSize =>
      if size = 0 then some (cache, file, buf, totalSize)
      else
        let bytesPerCluster :=
          UInt32.ofNat (cache.bpb.bytesPerSector * cache.bpb.sectorsPerCluster)
        if bytesPerCluster = 0 then none
        else
          let clusterOffset := file.pos % bytesPerCluster
          let sectorsPerCluster := UInt32.ofNat cache.bpb.sectorsPerCluster
          let sectorStart :=
            dataSectorIdx cache.bpb + (file.blockCur - 2) * sectorsPerCluster
          let (cache, err) := cache.bufRead outcome sectorStart sectorsPerCluster
          if err ≠ 0 then some (cache, file, buf, totalSize)
          else
            let stepSize := stepReadSize bytesPerCluster clusterOffset size
            let (cache, buf, err) :=
              copyStep outcome cache isWrite buf sectorStart sectorsPerCluster clusterOffset
                stepSize totalSize
            if err ≠ 0 then some (cache, file, buf, totalSize)
            else
              let file := { file with pos := file.pos + stepSize }
              if bytesPerCluster ≤ stepSize + clusterOffset then do
                let (cache, next) ←
                  cache.getNextCluster outcome (UInt16.ofNat file.blockCur.toNat)
                fileLoop isWrite fuel cache
                  { file with blockCur := UInt32.ofNat next.toNat } buf (size - stepSize)
                  (totalSize + stepSize)
              else
                fileLoop isWrite fuel cache file buf (size - stepSize) (totalSize + stepSize)

/-- `fat16_file_operate`. -/
def fileOperate (cache : SectorCache) (file : FilePosition) (buf : Nat → UInt8) (size : UInt32)
    (isWrite : Bool) : Option (SectorCache × FilePosition × (Nat → UInt8) × UInt32) :=
  let size :=
    if !isWrite && file.size < file.pos + size then file.size - file.pos else size
  fileLoop outcome isWrite size.toNat cache file buf size 0

end SectorCache

/-- The calls on a mounted volume. -/
inductive CacheCall where
  | bufRead (sectorStart size : UInt32)
  | readDirEntry (sectorStart : UInt32) (idx : Int)
  | writeDirEntry (entry : Nat → UInt8) (sectorRoot : UInt32) (idx : Int)
  | setCluster (cur next : UInt16)
  | fileOperate (file : FilePosition) (buf : Nat → UInt8) (size : UInt32) (isWrite : Bool)

namespace SectorCache

def step (outcome : Nat → Outcome) (cache : SectorCache) : CacheCall → Option (Unit × SectorCache)
  | .bufRead sectorStart size => some ((), (cache.bufRead outcome sectorStart size).1)
  | .readDirEntry sectorStart idx =>
      (cache.readDirEntry outcome sectorStart idx).map fun result => ((), result.1)
  | .writeDirEntry entry sectorRoot idx =>
      (cache.writeDirEntry outcome entry sectorRoot idx).map fun result => ((), result.1)
  | .setCluster cur next =>
      (cache.setCluster outcome cur next).map fun result => ((), result.1)
  | .fileOperate file buf size isWrite =>
      (fileOperate outcome cache file buf size isWrite).map fun result => ((), result.1)

end SectorCache

end CleanOS.Fs
