import Mathlib.Data.List.Basic
import Mathlib.Logic.Function.Basic

/-!
# FAT16 volumes

The sector cache and the cluster functions of `kernel/fs/fat16fs.c`, on a device
that never fails.  A volume is its parameter block, the sectors of the device and
the one slot of the cache.  Clusters are 16-bit numbers; `none` stands for a
chain walk that does not end within the given fuel.
-/

namespace CleanOS.Fs

def invalidCluster : Nat := 0xfff8

def freeCluster : Nat := 0

def clusterStart : Nat := 2

/-- `is_valid_cluster`. -/
def IsValidCluster (cluster : Nat) : Prop :=
  clusterStart ≤ cluster ∧ cluster < invalidCluster

instance (cluster : Nat) : Decidable (IsValidCluster cluster) :=
  inferInstanceAs (Decidable (_ ∧ _))

/-- The parameters of `bpb_t` that the cluster functions read. -/
structure Bpb where
  bytesPerSector : Nat
  sectorsPerCluster : Nat
  reservedSectorCount : Nat
  fatCount : Nat
  rootEntryCount : Nat
  sectorsPerFat : Nat
  deriving DecidableEq, Repr

/-- Sectors that hold a whole number of clusters' numbers, and the two tables
that `validate_bpb` asks for. -/
structure Bpb.WellFormed (bpb : Bpb) : Prop where
  sectorPositive : 0 < bpb.bytesPerSector
  sectorEven : bpb.bytesPerSector % 2 = 0
  twoTables : bpb.fatCount = 2

def wordAt (bytes : Nat → UInt8) (offset : Nat) : Nat :=
  (bytes offset).toNat + 256 * (bytes (offset + 1)).toNat

def putWord (bytes : Nat → UInt8) (offset word : Nat) : Nat → UInt8 :=
  Function.update (Function.update bytes offset (UInt8.ofNat word)) (offset + 1)
    (UInt8.ofNat (word / 256))

/-- `memcpy` of bytes into a buffer. -/
def copyInto (buffer : Nat → UInt8) (offset : Nat) (size : Nat) (bytes : Nat → UInt8) :
    Nat → UInt8 := fun place =>
  if offset ≤ place ∧ place < offset + size then bytes (place - offset) else buffer place

/-- The device, sector by sector, and the cache slot of `bpb_t`. -/
structure Volume where
  bpb : Bpb
  disk : Nat → Nat → UInt8
  cacheSectorStart : Nat
  cacheSectorSize : Nat
  cacheBuf : Nat → UInt8

/-- `down2`. -/
def down2 (origin bound : UInt32) : UInt32 :=
  origin - origin % bound

/-- `up2`. -/
def up2 (origin bound : UInt32) : UInt32 :=
  if origin % bound = 0 then origin else down2 origin bound + bound

/-- The part of `file_t` that describes where the contents are. -/
structure File where
  size : UInt32
  blockStart : UInt32
  blockCur : UInt32
  deriving DecidableEq, Repr

namespace Volume

/-- `fat16_bytes_per_cluster`. -/
def bytesPerCluster (volume : Volume) : Nat :=
  volume.bpb.bytesPerSector * volume.bpb.sectorsPerCluster

/-- `buf_read`. -/
def bufRead (volume : Volume) (sectorStart size : Nat) : Volume :=
  if volume.cacheSectorStart = sectorStart ∧ volume.cacheSectorSize = size then
    volume
  else
    { volume with
      cacheSectorStart := sectorStart
      cacheSectorSize := size
      cacheBuf := fun offset =>
        if offset < size * volume.bpb.bytesPerSector then
          volume.disk (sectorStart + offset / volume.bpb.bytesPerSector)
            (offset % volume.bpb.bytesPerSector)
        else volume.cacheBuf offset }

/-- `buf_write`. -/
def bufWrite (volume : Volume) (sectorStart size : Nat) : Volume :=
  { volume with
    disk := fun sector offset =>
      if sectorStart ≤ sector ∧ sector < sectorStart + size ∧
          offset < volume.bpb.bytesPerSector then
        volume.cacheBuf
          ((sector - sectorStart) * volume.bpb.bytesPerSector + offset)
      else volume.disk sector offset }

/-- The loop of `set_cluster` over the copies of the table. -/
def writeTables (volume : Volume) (sectorStart : Nat) : Volume :=
  (List.range volume.bpb.fatCount).foldl
    (fun volume table =>
      volume.bufWrite (sectorStart + table * volume.bpb.sectorsPerFat) 1) volume

/-- `set_cluster`. -/
def setCluster (volume : Volume) (cur next : Nat) : Volume × Int :=
  if ¬ IsValidCluster cur then (volume, -1)
  else
    let offset := cur * 2
    let sectorIdx := offset / volume.bpb.bytesPerSector
    if volume.bpb.sectorsPerFat ≤ sectorIdx then (volume, -2)
    else
      let sectorStart := volume.bpb.reservedSectorCount + sectorIdx
      let volume := volume.bufRead sectorStart 1
      let sectorOffset := offset % volume.bpb.bytesPerSector
      let volume :=
        { volume with cacheBuf := putWord volume.cacheBuf sectorOffset next }
      (volume.writeTables sectorStart, 0)

/-- `get_next_cluster`: the offset is added to the first word of the sector. -/
def getNextCluster (volume : Volume) (cur : Nat) : Volume × Nat :=
  let offset := cur * 2
  let sectorOffset := offset % volume.bpb.bytesPerSector
  let sectorIdx := offset / volume.bpb.bytesPerSector
  if volume.bpb.sectorsPerFat < sectorIdx then (volume, invalidCluster)
  else
    let volume :=
      volume.bufRead (volume.bpb.reservedSectorCount + sectorIdx) 1
    (volume, (wordAt volume.cacheBuf 0 + sectorOffset) % 65536)

/-- `free_cluster_chain`. -/
def freeClusterChain : Nat → Volume → Nat → Option Volume
  | 0, _, _ => none
  | fuel + 1, volume, cluster =>
      if IsValidCluster cluster then
        let (volume, next) := volume.getNextCluster cluster
        let (volume, _) := volume.setCluster cluster next
        freeClusterChain fuel volume next
      else some volume

/-- The loop of `malloc_free_cluster`.  Its condition `cur < total, count > 0`
only tests the count.  The result is the volume with the values of `start` and
`pre`, and whether a table entry could not be written. -/
def mallocLoop : Nat → Volume → (cur start pre : Nat) →
    Volume × Nat × Nat × Bool
  | 0, volume, _, start, pre => (volume, start, pre, true)
  | count + 1, volume, cur, start, pre =>
      let start := if IsValidCluster start then start else cur
      if IsValidCluster pre then
        match volume.setCluster pre cur with
        | (volume, 0) => mallocLoop count volume ((cur + 1) % 65536) start cur
        | (volume, _) => (volume, start, pre, false)
      else mallocLoop count volume ((cur + 1) % 65536) start cur

/-- `malloc_free_cluster`. -/
def mallocFreeCluster (fuel : Nat) (volume : Volume) (count : Int) :
    Option (Volume × Nat) :=
  match volume.mallocLoop count.toNat clusterStart invalidCluster
      invalidCluster with
  | (volume, start, _, false) => do
      let volume ← freeClusterChain fuel volume start
      return (volume, invalidCluster)
  | (volume, start, pre, true) =>
      if 0 ≤ count then
        match volume.setCluster pre invalidCluster with
        | (volume, 0) => some (volume, start)
        | (volume, _) => do
            let volume ← freeClusterChain fuel volume start
            return (volume, invalidCluster)
      else do
        let volume ← freeClusterChain fuel volume start
        return (volume, invalidCluster)

/-- How many clusters `expand_file` asks for, and `none` if the last cluster of
the file has room. -/
def expandCount (volume : Volume) (file : File) (size : UInt32) : Option UInt32 :=
  let bytesPerCluster := UInt32.ofNat volume.bytesPerCluster
  if file.size = 0 ∨ file.size % bytesPerCluster = 0 then
    some (up2 size bytesPerCluster / bytesPerCluster)
  else
    let fileFree := bytesPerCluster - file.size % bytesPerCluster
    if size ≤ fileFree then none
    else some (up2 (size - fileFree) bytesPerCluster / bytesPerCluster)

/-- `expand_file`.  The number of clusters is converted to `int`. -/
def expandFile (fuel : Nat) (volume : Volume) (file : File) (size : UInt32) :
    Option (Volume × File × Int) :=
  match volume.expandCount file size with
  | none => some (volume, file, 0)
  | some clusterCount => do
      let (volume, start) ←
        volume.mallocFreeCluster fuel clusterCount.toInt32.toInt
      if ¬ IsValidCluster start then return (volume, file, -2)
      else if ¬ IsValidCluster file.blockStart.toNat then
        return (volume, { file with
          blockStart := UInt32.ofNat start, blockCur := UInt32.ofNat start }, 0)
      else
        let (volume, _) :=
          volume.setCluster (file.blockCur.toNat % 65536) start
        return (volume, file, 0)

end Volume

end CleanOS.Fs
