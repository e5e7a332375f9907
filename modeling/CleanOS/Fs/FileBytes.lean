import CleanOS.Fs.CacheCoherence
import CleanOS.Fs.ChainWalks
import CleanOS.Fs.Ext2
import CleanOS.Fs.Seek
import CleanOS.Lib.Simulation

/-!
# Files of a FAT16 volume

`fat16_read`, `fat16_write` and `fat16_seek` of `kernel/fs/fat16fs.c` on the files of one volume.
A file is a row of bytes with a position.  Where the links of the table lead through clusters of
its own, and its calls stay inside them, the clusters hold that row of bytes.
-/

namespace CleanOS.Fs

open CleanOS.Lib

/-- `O_APPEND`. -/
def openAppend : UInt32 := 16

/-- The part of `file_t` that describes where the contents are and what may be done with them. -/
structure FatFile where
  position : FilePosition
  blockStart : UInt32
  mode : UInt32
  deriving DecidableEq, Repr

namespace SectorCache

/-- The volume without the record of the operations. -/
def volume (cache : SectorCache) : Volume where
  bpb := cache.bpb
  disk := cache.disk
  cacheSectorStart := cache.cacheSectorStart.toNat
  cacheSectorSize := cache.cacheSectorSize.toNat
  cacheBuf := cache.cacheBuf

variable (outcome : Nat → Outcome)

/-- `free_cluster_chain`, which has no result when the chain does not end within the fuel. -/
def freeClusterChain : Nat → SectorCache → UInt16 → Option SectorCache
  | 0, _, _ => none
  | fuel + 1, cache, cluster =>
      if IsValidCluster cluster.toNat then do
        let (cache, next) ← cache.getNextCluster outcome cluster
        let (cache, _) ← cache.setCluster outcome cluster next
        freeClusterChain fuel cache next
      else some cache

/-- The loop of `malloc_free_cluster`, whose condition only tests the count.  The result has the
values of `start` and `pre`, and whether every entry could be written. -/
def mallocLoop : Nat → SectorCache → (cur start pre : UInt16) →
    Option (SectorCache × UInt16 × UInt16 × Bool)
  | 0, cache, _, start, pre => some (cache, start, pre, true)
  | count + 1, cache, cur, start, pre =>
      let start := if IsValidCluster start.toNat then start else cur
      if IsValidCluster pre.toNat then do
        let (cache, err) ← cache.setCluster outcome pre cur
        if err ≠ 0 then return (cache, start, pre, false)
        else mallocLoop count cache (cur + 1) start cur
      else mallocLoop count cache (cur + 1) start cur

/-- `malloc_free_cluster`. -/
def mallocFreeCluster (fuel : Nat) (cache : SectorCache) (count : Int) :
    Option (SectorCache × UInt16) := do
  let giveUp (cache : SectorCache) (start : UInt16) : Option (SectorCache × UInt16) := do
    let cache ← freeClusterChain outcome fuel cache start
    return (cache, 0xfff8)
  let (cache, start, pre, written) ← mallocLoop outcome count.toNat cache 2 0xfff8 0xfff8
  if ¬ written then giveUp cache start
  else if count < 0 then giveUp cache start
  else
    let (cache, err) ← cache.setCluster outcome pre 0xfff8
    if err = 0 then return (cache, start) else giveUp cache start

/-- `expand_file`, which has no result when a division by zero stops the call either. -/
def expandFile (fuel : Nat) (cache : SectorCache) (file : FatFile) (size : UInt32) :
    Option (SectorCache × FatFile × Int) :=
  if UInt32.ofNat cache.volume.bytesPerCluster = 0 then none
  else
    match cache.volume.expandCount
        ⟨file.position.size, file.blockStart, file.position.blockCur⟩ size with
    | none => some (cache, file, 0)
    | some clusterCount => do
        let (cache, start) ← mallocFreeCluster outcome fuel cache clusterCount.toInt32.toInt
        if ¬ IsValidCluster start.toNat then return (cache, file, -2)
        else if ¬ IsValidCluster file.blockStart.toNat then
          let start := UInt32.ofNat start.toNat
          return (cache, { file with
            blockStart := start, position := { file.position with blockCur := start } }, 0)
        else
          let (cache, _) ←
            cache.setCluster outcome (UInt16.ofNat file.position.blockCur.toNat) start
          return (cache, file, 0)

/-- `fat16_read` into a cleared buffer, with the same passes as `fat16_file_operate`: the number
that is returned, and the bytes that it counts. -/
def fat16Read (cache : SectorCache) (file : FatFile) (size : UInt32) :
    Option ((Int × List UInt8) × SectorCache × FatFile) := do
  let (cache, position, buf, total) ←
    fileOperate outcome cache file.position (fun _ => 0) size false
  return ((total.toInt32.toInt, (List.range total.toNat).map buf), cache,
    { file with position := position })

/-- `fat16_write`. -/
def fat16Write (fuel : Nat) (cache : SectorCache) (file : FatFile) (bytes : List UInt8) :
    Option ((Int × List UInt8) × SectorCache × FatFile) :=
  let size := UInt32.ofNat bytes.length
  if file.mode &&& openReadOnly ≠ 0 then some ((-1, []), cache, file)
  else do
    let place := if file.mode &&& openAppend ≠ 0 then file.position.size else file.position.pos
    let file := { file with position := { file.position with pos := place } }
    let (cache, file, err) ←
      if file.position.size < file.position.pos + size then expandFile outcome fuel cache file size
      else some (cache, file, 0)
    if err ≠ 0 then return ((-1, []), cache, file)
    else
      -- the file ends at its position before it is written
      let position := { file.position with size := file.position.pos }
      let (cache, position, _, total) ←
        fileOperate outcome cache position (fun idx => bytes.getD idx 0) size true
      let grown := if 0 < total.toInt32 then position.size + total else position.size
      return ((total.toInt32.toInt, []), cache,
        { file with position := { position with size := grown } })

end SectorCache

/-- What is done with an open file.  A seek is from the beginning. -/
inductive FatFileCall where
  | read (size : UInt32)
  | write (bytes : List UInt8)
  | seek (offset : Int32)
  deriving DecidableEq

/-- A volume and the files that are open on it. -/
structure FatFiles (ι : Type) where
  cache : SectorCache
  files : ι → FatFile

/-- A call for one of the files: the number that it returns and the bytes that were read. -/
def FatFiles.call {ι : Type} [DecidableEq ι] (outcome : Nat → Outcome) (fuel : Nat)
    (store : FatFiles ι) (action : ι × FatFileCall) : Option ((Int × List UInt8) × FatFiles ι) := do
  let file := store.files action.1
  let (result, cache, file) ←
    match action.2 with
    | .read size => store.cache.fat16Read outcome file size
    | .write bytes => store.cache.fat16Write outcome fuel file bytes
    | .seek offset =>
        let (pos, returned) := fat16Seek file.position.pos file.position.size offset seekSet
        some ((returned.toInt, []), store.cache,
          { file with position := { file.position with pos := pos } })
  return (result, ⟨cache, Function.update store.files action.1 file⟩)

/-- A row of bytes and a place in it or at its end. -/
structure ByteFile where
  bytes : List UInt8
  pos : Nat
  readOnly : Bool
  append : Bool
  inside : pos ≤ bytes.length

namespace ByteFile

def writePlace (file : ByteFile) : Nat :=
  if file.append then file.bytes.length else file.pos

theorem writePlace_le (file : ByteFile) : file.writePlace ≤ file.bytes.length := by
  rw [writePlace]
  split
  · exact Nat.le_refl _
  · exact file.inside

/-- The calls that need no cluster behind the last one, and no walk to another cluster before
they begin. -/
def Fits (file : ByteFile) (bytesPerCluster : Nat) : FatFileCall → Prop
  | .read size => file.pos + size.toNat < 2 ^ 32
  | .write bytes => file.readOnly = true ∨
      (file.append = true → file.bytes.length / bytesPerCluster = file.pos / bytesPerCluster) ∧
        (file.writePlace + bytes.length ≤ file.bytes.length ∨
          file.bytes.length % bytesPerCluster ≠ 0 ∧
            file.bytes.length % bytesPerCluster + bytes.length ≤ bytesPerCluster)
  | .seek offset => 0 ≤ offset.toInt ∧ offset.toInt ≤ file.bytes.length ∧
      offset.toInt.toNat / bytesPerCluster = file.pos / bytesPerCluster

instance (file : ByteFile) (bytesPerCluster : Nat) (action : FatFileCall) :
    Decidable (file.Fits bytesPerCluster action) :=
  match action with
  | .read _ => inferInstanceAs (Decidable (_ < _))
  | .write _ => inferInstanceAs (Decidable (_ ∨ _))
  | .seek _ => inferInstanceAs (Decidable (_ ∧ _))

/-- A read takes bytes up to the end, and a write ends the file behind what it puts. -/
def run (file : ByteFile) : FatFileCall → (Int × List UInt8) × ByteFile
  | .read size =>
      let bytes := (file.bytes.drop file.pos).take size.toNat
      ((bytes.length, bytes), { file with
        pos := file.pos + bytes.length
        inside := by
          rw [List.length_take, List.length_drop]
          exact Nat.add_le_of_le_sub' file.inside (Nat.min_le_right _ _) })
  | .write bytes =>
      if file.readOnly then ((-1, []), file)
      else ((bytes.length, []), { file with
        bytes := file.bytes.take file.writePlace ++ bytes
        pos := file.writePlace + bytes.length
        inside := by
          rw [List.length_append, List.length_take, Nat.min_eq_left file.writePlace_le] })
  | .seek offset =>
      let pos := min offset.toInt.toNat file.bytes.length
      ((pos - file.pos, []), { file with pos := pos, inside := Nat.min_le_right _ _ })

/-- A call that fits, for one of the files. -/
def call {ι : Type} [DecidableEq ι] (bytesPerCluster : Nat) (files : ι → ByteFile)
    (action : ι × FatFileCall) : Option ((Int × List UInt8) × (ι → ByteFile)) :=
  if (files action.1).Fits bytesPerCluster action.2 then
    let (result, file) := (files action.1).run action.2
    some (result, Function.update files action.1 file)
  else none

end ByteFile

end CleanOS.Fs
