import CleanOS.Fs.FileBytes

/-!
# Runs of calls on the files of a volume

On a device that works, the calls of `kernel/fs/fat16fs.c` for a file read and write the row of
bytes that its clusters hold, and leave the table and the bytes of every other file alone.
-/

namespace CleanOS.Fs

open CleanOS.Lib

def works (_ : Nat) : Outcome := .ok

/-- The parameters with which whole clusters go through the cache: `disk_read` puts only the
first two sectors behind one another. -/
structure FatLayout (bpb : Bpb) : Prop where
  sector : bpb.bytesPerSector = sectorSize
  cluster : bpb.sectorsPerCluster = 1 ∨ bpb.sectorsPerCluster = 2
  twoTables : bpb.fatCount = 2
  table : 0 < bpb.sectorsPerFat
  small : bpb.reservedSectorCount < 65536 ∧ bpb.sectorsPerFat < 65536 ∧
    bpb.rootEntryCount < 65536

namespace SectorCache

/-- The cache holds what is on the disk. -/
structure Ready (cache : SectorCache) : Prop where
  layout : FatLayout cache.bpb
  small : cache.cacheSectorSize ≤ 2
  holds : HoldsSectors cache.cacheBuf cache.disk cache.cacheSectorStart cache.cacheSectorSize

def bytesPerCluster (cache : SectorCache) : Nat :=
  cache.bpb.bytesPerSector * cache.bpb.sectorsPerCluster

def clusterSector (bpb : Bpb) (cluster : Nat) : Nat :=
  (dataSectorIdx bpb).toNat + (cluster - 2) * bpb.sectorsPerCluster

def clusterByte (cache : SectorCache) (cluster offset : Nat) : UInt8 :=
  cache.disk (clusterSector cache.bpb cluster + offset / sectorSize) (offset % sectorSize)

def fileByte (cache : SectorCache) (path : Nat → Nat) (place : Nat) : UInt8 :=
  cache.clusterByte (path (place / cache.bytesPerCluster)) (place % cache.bytesPerCluster)

variable {cache after last : SectorCache} {sectorStart size : UInt32}

theorem dataSectorIdx_bounds {bpb : Bpb} (layout : FatLayout bpb) :
    bpb.reservedSectorCount + bpb.sectorsPerFat < (dataSectorIdx bpb).toNat ∧
      (dataSectorIdx bpb).toNat < 1048576 := by
  obtain ⟨first, second, third⟩ := layout.small
  have table := layout.table
  have sum : (SectorCache.dataSectorIdx bpb).toNat = bpb.reservedSectorCount +
      2 * bpb.sectorsPerFat + bpb.rootEntryCount * 32 / 512 := by
    rw [SectorCache.dataSectorIdx, layout.twoTables, layout.sector, dirEntrySize, sectorSize]
    apply UInt32.toNat_ofNat_of_lt'
    show _ < 4294967296
    omega
  omega

/-- The sectors are in the cache, and nothing else has changed. -/
structure Loaded (cache after : SectorCache) (sectorStart size : UInt32) : Prop where
  bpb_eq : after.bpb = cache.bpb
  disk_eq : after.disk = cache.disk
  start_eq : after.cacheSectorStart = sectorStart
  size_eq : after.cacheSectorSize = size
  holds : HoldsSectors after.cacheBuf cache.disk sectorStart size

theorem Ready.bufRead (ready : cache.Ready) (positive : size ≠ 0) (small : size ≤ 2)
    (sectorStart : UInt32) :
    ∃ after, cache.bufRead works sectorStart size = (after, 0) ∧
      Loaded cache after sectorStart size := by
  rw [SectorCache.bufRead]
  dsimp only [works]
  split
  next isHit =>
    refine ⟨_, rfl, rfl, rfl, isHit.1, isHit.2, ?_⟩
    rw [← isHit.1, ← isHit.2]
    exact ready.holds
  next isMiss =>
    have some : 0 < (size.toNat : Int) := by
      have notZero : size.toNat ≠ 0 := fun zero => positive (UInt32.toNat_inj.mp zero)
      omega
    rw [if_pos some]
    exact ⟨_, rfl, rfl, rfl, rfl, rfl, holdsSectors_readSectors small _ _ _⟩

theorem Loaded.ready (loaded : Loaded cache after sectorStart size) (ready : cache.Ready)
    (small : size ≤ 2) : after.Ready where
  layout := loaded.bpb_eq ▸ ready.layout
  small := by
    rw [loaded.size_eq]
    exact small
  holds := by
    rw [loaded.start_eq, loaded.size_eq, loaded.disk_eq]
    exact loaded.holds

theorem writeSectors_apply (small : size ≤ 2) (buf : Nat → UInt8) (first : Nat)
    (disk : Nat → Nat → UInt8) (sector pos : Nat) :
    writeSectors buf first size.toNat 0 0 disk sector pos =
      if first ≤ sector ∧ sector < first + size.toNat ∧ pos < sectorSize then
        buf (sectorSize * (sector - first) + pos)
      else disk sector pos := by
  have one : sectorSize * (first + 1 - first) = 0 + sectorSize * (0 + 1) := by
    rw [Nat.add_sub_cancel_left, Nat.zero_add, Nat.zero_add]
  rcases size_cases small with none | single | double
  · rw [none, if_neg (by omega)]
    rfl
  · rw [single]
    dsimp only [writeSectors]
    rw [Nat.add_zero]
    by_cases same : sector = first
    · rw [same, Function.update_self, Nat.sub_self]
      by_cases within : pos < sectorSize
      · rw [if_pos within, if_pos (by omega), Nat.mul_zero]
      · rw [if_neg within, if_neg (by omega)]
    · rw [Function.update_of_ne same, if_neg (by omega)]
  · rw [double]
    dsimp only [writeSectors]
    rw [Nat.add_zero, Nat.zero_add]
    by_cases second : sector = first + 1
    · rw [second, Function.update_self, one, Function.update_of_ne (by omega)]
      by_cases within : pos < sectorSize
      · rw [if_pos within, if_pos (by omega), Nat.zero_add]
      · rw [if_neg within, if_neg (by omega)]
    · rw [Function.update_of_ne second]
      by_cases same : sector = first
      · rw [same, Function.update_self, Nat.sub_self]
        by_cases within : pos < sectorSize
        · rw [if_pos within, if_pos (by omega), Nat.mul_zero]
        · rw [if_neg within, if_neg (by omega)]
      · rw [Function.update_of_ne same, if_neg (by omega)]

theorem bytesPerCluster_cases (layout : FatLayout cache.bpb) :
    (cache.bpb.sectorsPerCluster = 1 ∧ cache.bytesPerCluster = 512) ∨
      (cache.bpb.sectorsPerCluster = 2 ∧ cache.bytesPerCluster = 1024) := by
  rw [bytesPerCluster, layout.sector]
  rcases layout.cluster with one | two
  · rw [one]
    exact .inl ⟨rfl, rfl⟩
  · rw [two]
    exact .inr ⟨rfl, rfl⟩

theorem bytesPerCluster_congr (sameBpb : after.bpb = cache.bpb) :
    after.bytesPerCluster = cache.bytesPerCluster := by
  rw [bytesPerCluster, sameBpb]
  rfl

theorem bytesPerCluster_bounds (layout : FatLayout cache.bpb) :
    0 < cache.bytesPerCluster ∧ cache.bytesPerCluster ≤ 1024 ∧
      (UInt32.ofNat cache.bytesPerCluster).toNat = cache.bytesPerCluster := by
  rcases bytesPerCluster_cases layout with ⟨-, isSize⟩ | ⟨-, isSize⟩
  · rw [isSize]
    exact ⟨by decide, by decide, rfl⟩
  · rw [isSize]
    exact ⟨by decide, by decide, rfl⟩

theorem sectorsPerCluster_le (layout : FatLayout cache.bpb) :
    UInt32.ofNat cache.bpb.sectorsPerCluster ≠ 0 ∧
      UInt32.ofNat cache.bpb.sectorsPerCluster ≤ 2 ∧
      (UInt32.ofNat cache.bpb.sectorsPerCluster).toNat = cache.bpb.sectorsPerCluster := by
  rcases layout.cluster with one | two
  · rw [one]
    exact ⟨by decide, by decide, rfl⟩
  · rw [two]
    exact ⟨by decide, by decide, rfl⟩

theorem clusterSector_toNat (layout : FatLayout cache.bpb) {cluster : UInt32}
    (inData : 2 ≤ cluster.toNat) (small : cluster.toNat < 65536) :
    (dataSectorIdx cache.bpb +
      (cluster - 2) * UInt32.ofNat cache.bpb.sectorsPerCluster).toNat =
        clusterSector cache.bpb cluster.toNat := by
  have start := (dataSectorIdx_bounds layout).2
  have behind : (cluster - 2).toNat = cluster.toNat - 2 :=
    UInt32.toNat_sub_of_le _ _ (UInt32.le_iff_toNat_le.mpr inData)
  rw [clusterSector, UInt32.toNat_add, UInt32.toNat_mul, behind]
  rcases layout.cluster with one | two
  · rw [one]
    change _ % 4294967296 = _
    rw [(by rfl : (UInt32.ofNat 1).toNat = 1)]
    omega
  · rw [two]
    change _ % 4294967296 = _
    rw [(by rfl : (UInt32.ofNat 2).toNat = 2)]
    omega

theorem Loaded.cacheBuf (loaded : Loaded cache after sectorStart size)
    (layout : FatLayout cache.bpb) {cluster offset : Nat}
    (isStart : sectorStart.toNat = clusterSector cache.bpb cluster)
    (isSize : size.toNat = cache.bpb.sectorsPerCluster) (inside : offset < cache.bytesPerCluster) :
    after.cacheBuf offset = cache.clusterByte cluster offset := by
  have within : offset / sectorSize < size.toNat := by
    rw [isSize, Nat.div_lt_iff_lt_mul (by decide), Nat.mul_comm, ← layout.sector]
    exact inside
  have held := loaded.holds _ within (offset % sectorSize) (Nat.mod_lt _ (by decide))
  rw [Nat.div_add_mod, isStart] at held
  exact held

/-- What a write leaves alone: the sectors in front of the clusters. -/
structure Kept (cache after : SectorCache) : Prop where
  bpb_eq : after.bpb = cache.bpb
  ready : after.Ready
  front : ∀ sector < (dataSectorIdx cache.bpb).toNat, after.disk sector = cache.disk sector

theorem Kept.refl (ready : cache.Ready) : Kept cache cache :=
  ⟨rfl, ready, fun _ _ => rfl⟩

theorem Kept.trans (first : Kept cache after) (second : Kept after last) : Kept cache last where
  bpb_eq := second.bpb_eq.trans first.bpb_eq
  ready := second.ready
  front := by
    intro sector inFront
    rw [second.front sector (by rwa [first.bpb_eq]), first.front sector inFront]

theorem clusterByte_congr (sameBpb : after.bpb = cache.bpb) (sameDisk : after.disk = cache.disk)
    (cluster offset : Nat) :
    after.clusterByte cluster offset = cache.clusterByte cluster offset := by
  rw [clusterByte, sameBpb, sameDisk]
  rfl

theorem copyStep_write (ready : cache.Ready) {cluster : Nat} (inData : 2 ≤ cluster)
    (isStart : sectorStart.toNat = clusterSector cache.bpb cluster)
    (isSize : size.toNat = cache.bpb.sectorsPerCluster) {read : SectorCache}
    (loaded : Loaded cache read sectorStart size) (buf : Nat → UInt8)
    (clusterOffset stepSize totalSize : UInt32) :
    ∃ after, copyStep works read true buf sectorStart size clusterOffset stepSize totalSize =
        (after, buf, 0) ∧ Kept cache after ∧
      ∀ other ≥ 2, ∀ offset < cache.bytesPerCluster, after.clusterByte other offset =
        if other = cluster ∧ clusterOffset.toNat ≤ offset ∧
            offset < clusterOffset.toNat + stepSize.toNat then
          buf (totalSize.toNat + (offset - clusterOffset.toNat))
        else cache.clusterByte other offset := by
  have layout := ready.layout
  have sizes := sectorsPerCluster_le layout
  have small : size ≤ 2 := by
    rw [UInt32.le_iff_toNat_le, isSize, ← sizes.2.2]
    exact UInt32.le_iff_toNat_le.mp sizes.2.1
  have positive : 0 < (size.toNat : Int) := by
    rw [isSize]
    rcases layout.cluster with one | two
    · rw [one]
      decide
    · rw [two]
      decide
  generalize isFilled : copyInto read.cacheBuf clusterOffset.toNat stepSize.toNat
    (fun pos => buf (totalSize.toNat + pos)) = filled
  have written (sector pos : Nat) := writeSectors_apply small filled sectorStart.toNat read.disk
    sector pos
  have isCopy : copyStep works read true buf sectorStart size clusterOffset stepSize totalSize =
      ({ read with
        cacheBuf := filled
        disk := writeSectors filled sectorStart.toNat size.toNat 0 0 read.disk
        operations := read.operations + 1
        trusted := read.trusted && !(false && sectorStart = read.cacheSectorStart) }, buf, 0) := by
    rw [← isFilled]
    exact Prod.ext rfl (Prod.ext rfl (if_pos positive))
  rw [isCopy]
  refine ⟨_, rfl, ⟨loaded.bpb_eq, ⟨?_, ?_, ?_⟩, ?_⟩, ?_⟩
  · exact loaded.bpb_eq ▸ layout
  · show read.cacheSectorSize ≤ 2
    rw [loaded.size_eq]
    exact small
  · show HoldsSectors filled _ read.cacheSectorStart read.cacheSectorSize
    rw [loaded.start_eq, loaded.size_eq]
    exact holdsSectors_writeSectors small _ _ _
  · intro sector inFront
    funext pos
    refine (written sector pos).trans ?_
    rw [if_neg, loaded.disk_eq]
    rw [isStart, clusterSector]
    omega
  · intro other otherInData offset inside
    dsimp only [clusterByte]
    rw [written, loaded.bpb_eq, loaded.disk_eq, isStart, isSize]
    have split := Nat.div_add_mod offset sectorSize
    have below : offset % sectorSize < sectorSize := Nat.mod_lt _ (by decide)
    have place : offset / sectorSize < cache.bpb.sectorsPerCluster := by
      rw [Nat.div_lt_iff_lt_mul (by decide), Nat.mul_comm, ← layout.sector]
      exact inside
    by_cases same : other = cluster
    · rw [same, if_pos ⟨Nat.le_add_right _ _, Nat.add_lt_add_left place _, below⟩,
        Nat.add_sub_cancel_left, split, ← isFilled, copyInto]
      by_cases copied : clusterOffset.toNat ≤ offset ∧
          offset < clusterOffset.toNat + stepSize.toNat
      · rw [if_pos copied, if_pos ⟨rfl, copied⟩]
      · rw [if_neg copied, if_neg (fun holds => copied holds.2),
          loaded.cacheBuf layout isStart isSize inside]
        rfl
    · rw [if_neg, if_neg (fun holds => same holds.1)]
      rw [clusterSector, clusterSector]
      generalize offset / sectorSize = idx at place
      rcases layout.cluster with one | two
      · rw [one] at place ⊢
        omega
      · rw [two] at place ⊢
        omega

theorem volume_link (cache : SectorCache) (cluster : Nat) : cache.volume.link cluster =
    if cache.bpb.sectorsPerFat < cluster * 2 / cache.bpb.bytesPerSector then invalidCluster
    else (wordAt (cache.disk (cache.bpb.reservedSectorCount +
        cluster * 2 / cache.bpb.bytesPerSector)) 0 +
      cluster * 2 % cache.bpb.bytesPerSector) % 65536 :=
  rfl

theorem Ready.getNextCluster (ready : cache.Ready) (cur : UInt16) :
    ∃ after next, cache.getNextCluster works cur = some (after, next) ∧
      next.toNat = cache.volume.link cur.toNat ∧ after.Ready ∧ after.bpb = cache.bpb ∧
      after.disk = cache.disk := by
  have isSector := ready.layout.sector
  have positive : cache.bpb.bytesPerSector ≠ 0 := by
    rw [isSector]
    decide
  rw [SectorCache.getNextCluster, if_neg positive]
  dsimp only
  by_cases outside : cache.bpb.sectorsPerFat < cur.toNat * 2 / cache.bpb.bytesPerSector
  · rw [if_pos outside]
    refine ⟨_, _, rfl, ?_, ready, rfl, rfl⟩
    rw [volume_link, if_pos outside]
    rfl
  · rw [if_neg outside]
    obtain ⟨after, read, loaded⟩ := ready.bufRead (by decide : (1 : UInt32) ≠ 0) (by decide)
      (UInt32.ofNat (cache.bpb.reservedSectorCount +
        cur.toNat * 2 / cache.bpb.bytesPerSector))
    rw [read]
    refine ⟨after, _, rfl, ?_, loaded.ready ready (by decide), loaded.bpb_eq, loaded.disk_eq⟩
    have inRange : cache.bpb.reservedSectorCount + cur.toNat * 2 / cache.bpb.bytesPerSector <
        UInt32.size := by
      have small := ready.layout.small
      show _ < 4294967296
      omega
    have held := loaded.holds 0 (by decide)
    rw [UInt32.toNat_ofNat_of_lt' inRange, Nat.add_zero, Nat.mul_zero] at held
    rw [UInt16.toNat_ofNat', volume_link, if_neg outside, wordAt, wordAt,
      ← Nat.zero_add 0, held 0 (by decide), Nat.zero_add, held 1 (by decide)]

theorem link_of_front (layout : FatLayout cache.bpb) (sameBpb : after.bpb = cache.bpb)
    (front : ∀ sector < (dataSectorIdx cache.bpb).toNat, after.disk sector = cache.disk sector) :
    after.volume.link = cache.volume.link := by
  funext cluster
  rw [volume_link, volume_link, sameBpb]
  by_cases outside : cache.bpb.sectorsPerFat < cluster * 2 / cache.bpb.bytesPerSector
  · rw [if_pos outside, if_pos outside]
  · have bounds := dataSectorIdx_bounds layout
    have inFront : cache.bpb.reservedSectorCount + cluster * 2 / cache.bpb.bytesPerSector <
        (dataSectorIdx cache.bpb).toNat :=
      Nat.lt_of_le_of_lt (Nat.add_le_add_left (Nat.not_lt.mp outside) _) bounds.1
    rw [if_neg outside, if_neg outside, front _ inFront]

/-- The clusters of a file: the links lead from one to the next, and those that it has are
different clusters. -/
structure Path (cache : SectorCache) (path : Nat → Nat) (count : Nat) : Prop where
  follows : ∀ idx, path (idx + 1) = cache.volume.link (path idx)
  small : ∀ idx, path idx < 65536
  inData : ∀ idx < count, 2 ≤ path idx
  apart : ∀ idx < count, ∀ other < count, path idx = path other → idx = other
  bounded : count * cache.bytesPerCluster < 2 ^ 31

theorem Path.of_kept {path : Nat → Nat} {count : Nat} (isPath : Path cache path count)
    (layout : FatLayout cache.bpb) (kept : Kept cache after) : Path after path count where
  follows := by
    rw [link_of_front layout kept.bpb_eq kept.front]
    exact isPath.follows
  small := isPath.small
  inData := isPath.inData
  apart := isPath.apart
  bounded := by
    rw [bytesPerCluster_congr kept.bpb_eq]
    exact isPath.bounded

/-- What the passes for `size` bytes from `pos` on do: a write puts the bytes of the buffer from
`total` on into the file, and a read puts those of the file there. -/
structure Passed (isWrite : Bool) (cache after : SectorCache) (path : Nat → Nat)
    (count pos size total : Nat) (buf bufAfter : Nat → UInt8) : Prop where
  kept : Kept cache after
  file : ∀ place < count * cache.bytesPerCluster, after.fileByte path place =
    if isWrite = true ∧ pos ≤ place ∧ place < pos + size then buf (total + (place - pos))
    else cache.fileByte path place
  others : ∀ cluster ≥ 2, (∀ idx < count, cluster ≠ path idx) →
    ∀ offset < cache.bytesPerCluster,
      after.clusterByte cluster offset = cache.clusterByte cluster offset
  buffer : ∀ idx, bufAfter idx =
    if isWrite = false ∧ total ≤ idx ∧ idx < total + size then
      cache.fileByte path (pos + (idx - total))
    else buf idx

variable {isWrite : Bool} {path : Nat → Nat} {count pos more total : Nat}
  {buf bufAfter bufLast : Nat → UInt8}

theorem Passed.refl (ready : cache.Ready) :
    Passed isWrite cache cache path count pos 0 total buf buf where
  kept := .refl ready
  file := by
    intro place _
    rw [if_neg (by omega)]
  others := fun _ _ _ _ _ => rfl
  buffer := by
    intro idx
    rw [if_neg (by omega)]

theorem Passed.trans {done : Nat} (inside : pos + done + more ≤ count * cache.bytesPerCluster)
    (first : Passed isWrite cache after path count pos done total buf bufAfter)
    (second : Passed isWrite after last path count (pos + done) more (total + done) bufAfter
      bufLast) :
    Passed isWrite cache last path count pos (done + more) total buf bufLast := by
  have sameSize := bytesPerCluster_congr first.kept.bpb_eq
  refine ⟨first.kept.trans second.kept, ?_, ?_, ?_⟩
  · intro place within
    rw [second.file place (by rwa [sameSize]), first.file place within]
    cases isWrite with
    | false => rw [if_neg (by simp), if_neg (by simp), if_neg (by simp)]
    | true =>
        have same (idx : Nat) : bufAfter idx = buf idx := by
          rw [first.buffer, if_neg (by simp)]
        by_cases now : pos + done ≤ place ∧ place < pos + done + more
        · rw [if_pos ⟨rfl, now⟩, if_pos ⟨rfl, by omega, by omega⟩, same]
          exact congrArg buf (by omega)
        · rw [if_neg (fun holds => now holds.2)]
          by_cases before : pos ≤ place ∧ place < pos + done
          · rw [if_pos ⟨rfl, before⟩, if_pos ⟨rfl, by omega, by omega⟩]
          · rw [if_neg (fun holds => before holds.2), if_neg (by omega)]
  · intro cluster inData other offset within
    rw [second.others cluster inData other offset (by rwa [sameSize]),
      first.others cluster inData other offset within]
  · intro idx
    rw [second.buffer, first.buffer]
    cases isWrite with
    | true => rw [if_neg (by simp), if_neg (by simp), if_neg (by simp)]
    | false =>
        by_cases now : total + done ≤ idx ∧ idx < total + done + more
        · rw [if_pos ⟨rfl, now⟩, if_pos ⟨rfl, by omega, by omega⟩, first.file _ (by omega),
            if_neg (by simp)]
          exact congrArg (cache.fileByte path) (by omega)
        · rw [if_neg (fun holds => now holds.2)]
          by_cases before : total ≤ idx ∧ idx < total + done
          · rw [if_pos ⟨rfl, before⟩, if_pos ⟨rfl, by omega, by omega⟩]
          · rw [if_neg (fun holds => before holds.2), if_neg (by omega)]

variable {file : FilePosition} {totalSize : UInt32}

theorem stepReadSize_toNat (layout : FatLayout cache.bpb)
    (small : file.pos.toNat + size.toNat < 2 ^ 31) :
    (file.pos % UInt32.ofNat cache.bytesPerCluster).toNat =
        file.pos.toNat % cache.bytesPerCluster ∧
      (stepReadSize (UInt32.ofNat cache.bytesPerCluster)
        (file.pos % UInt32.ofNat cache.bytesPerCluster) size).toNat =
        min size.toNat (cache.bytesPerCluster - file.pos.toNat % cache.bytesPerCluster) := by
  obtain ⟨positive, atMost, isSize⟩ := bytesPerCluster_bounds layout
  have offset : (file.pos % UInt32.ofNat cache.bytesPerCluster).toNat =
      file.pos.toNat % cache.bytesPerCluster := by
    rw [UInt32.toNat_mod, isSize]
  have below := Nat.mod_lt file.pos.toNat positive
  refine ⟨offset, ?_⟩
  have sum : (size + file.pos % UInt32.ofNat cache.bytesPerCluster).toNat =
      size.toNat + file.pos.toNat % cache.bytesPerCluster := by
    rw [UInt32.toNat_add, offset]
    exact Nat.mod_eq_of_lt (by omega)
  rw [stepReadSize]
  by_cases beyond : UInt32.ofNat cache.bytesPerCluster <
      size + file.pos % UInt32.ofNat cache.bytesPerCluster
  · rw [if_pos beyond, UInt32.toNat_sub_of_le _ _ (by
      rw [UInt32.le_iff_toNat_le, offset, isSize]
      exact Nat.le_of_lt below), isSize, offset]
    rw [UInt32.lt_iff_toNat_lt, sum, isSize] at beyond
    omega
  · rw [if_neg beyond]
    rw [UInt32.lt_iff_toNat_lt, sum, isSize] at beyond
    omega

/-- A pass takes some bytes, and ends in the next cluster exactly if it reaches its end. -/
theorem pass_place (layout : FatLayout cache.bpb) {pos clusterOffset stepSize : UInt32}
    (some : size ≠ 0) (isOffset : clusterOffset.toNat = pos.toNat % cache.bytesPerCluster)
    (isStep : stepSize.toNat =
      min size.toNat (cache.bytesPerCluster - pos.toNat % cache.bytesPerCluster)) :
    stepSize.toNat ≤ size.toNat ∧ 0 < stepSize.toNat ∧
      (UInt32.ofNat cache.bytesPerCluster ≤ stepSize + clusterOffset →
        (pos.toNat + stepSize.toNat) / cache.bytesPerCluster =
          pos.toNat / cache.bytesPerCluster + 1) ∧
      (¬ UInt32.ofNat cache.bytesPerCluster ≤ stepSize + clusterOffset →
        (pos.toNat + stepSize.toNat) / cache.bytesPerCluster =
          pos.toNat / cache.bytesPerCluster) := by
  have someLeft : 0 < size.toNat :=
    Nat.pos_of_ne_zero fun zero => some (UInt32.toNat_inj.mp zero)
  rw [UInt32.le_iff_toNat_le, UInt32.toNat_add]
  rcases bytesPerCluster_cases layout with ⟨-, isSize⟩ | ⟨-, isSize⟩
  · rw [isSize] at isOffset isStep ⊢
    rw [(by rfl : (UInt32.ofNat 512).toNat = 512)]
    omega
  · rw [isSize] at isOffset isStep ⊢
    rw [(by rfl : (UInt32.ofNat 1024).toNat = 1024)]
    omega

theorem pass_spec (ready : cache.Ready) (isPath : Path cache path count) (some : size ≠ 0)
    (inside : file.pos.toNat + size.toNat ≤ count * cache.bytesPerCluster)
    (cursor : file.blockCur.toNat = path (file.pos.toNat / cache.bytesPerCluster))
    (isWrite : Bool) (buf : Nat → UInt8) (totalSize : UInt32) :
    let sectorsPerCluster := UInt32.ofNat cache.bpb.sectorsPerCluster
    let sectorStart := dataSectorIdx cache.bpb + (file.blockCur - 2) * sectorsPerCluster
    let clusterOffset := file.pos % UInt32.ofNat cache.bytesPerCluster
    let stepSize := stepReadSize (UInt32.ofNat cache.bytesPerCluster) clusterOffset size
    ∃ read after bufAfter, cache.bufRead works sectorStart sectorsPerCluster = (read, 0) ∧
      copyStep works read isWrite buf sectorStart sectorsPerCluster clusterOffset stepSize
        totalSize = (after, bufAfter, 0) ∧
      Passed isWrite cache after path count file.pos.toNat stepSize.toNat totalSize.toNat buf
        bufAfter := by
  intro sectorsPerCluster sectorStart clusterOffset stepSize
  have layout := ready.layout
  have sizes := sectorsPerCluster_le layout
  obtain ⟨isOffset, isStep⟩ := @stepReadSize_toNat cache size file layout
    (Nat.lt_of_le_of_lt inside isPath.bounded)
  change clusterOffset.toNat = _ at isOffset
  change stepSize.toNat = _ at isStep
  have someBytes : 0 < size.toNat :=
    Nat.pos_of_ne_zero fun zero => some (UInt32.toNat_inj.mp zero)
  -- the arithmetic of places, with the number of bytes in a cluster as a literal
  have places : file.pos.toNat / cache.bytesPerCluster < count ∧
      ∀ place < count * cache.bytesPerCluster,
        place / cache.bytesPerCluster < count ∧
        (place / cache.bytesPerCluster = file.pos.toNat / cache.bytesPerCluster ∧
            clusterOffset.toNat ≤ place % cache.bytesPerCluster ∧
            place % cache.bytesPerCluster < clusterOffset.toNat + stepSize.toNat ↔
          file.pos.toNat ≤ place ∧ place < file.pos.toNat + stepSize.toNat) ∧
        (place / cache.bytesPerCluster = file.pos.toNat / cache.bytesPerCluster →
          place % cache.bytesPerCluster - clusterOffset.toNat = place - file.pos.toNat) := by
    rcases bytesPerCluster_cases layout with ⟨-, isSize⟩ | ⟨-, isSize⟩
    · rw [isSize] at isOffset isStep inside ⊢
      exact ⟨by omega, fun place within => ⟨by omega, by omega, by omega⟩⟩
    · rw [isSize] at isOffset isStep inside ⊢
      exact ⟨by omega, fun place within => ⟨by omega, by omega, by omega⟩⟩
  obtain ⟨inPath, places⟩ := places
  have positive := (bytesPerCluster_bounds layout).1
  have inData := isPath.inData _ inPath
  have isStart : sectorStart.toNat =
      clusterSector cache.bpb (path (file.pos.toNat / cache.bytesPerCluster)) := by
    rw [← cursor] at inData ⊢
    exact clusterSector_toNat layout inData (cursor ▸ isPath.small _)
  obtain ⟨read, isRead, loaded⟩ := ready.bufRead sizes.1 sizes.2.1 sectorStart
  cases isWrite with
  | false =>
      refine ⟨read, read, _, isRead, rfl, ?_⟩
      have sameByte := clusterByte_congr loaded.bpb_eq loaded.disk_eq
      have sameSize := bytesPerCluster_congr loaded.bpb_eq
      refine ⟨⟨loaded.bpb_eq, loaded.ready ready sizes.2.1, ?_⟩, ?_, ?_, ?_⟩
      · intro sector _
        rw [loaded.disk_eq]
      · intro place within
        rw [if_neg (by simp), fileByte, sameByte, sameSize]
        rfl
      · exact fun cluster _ _ offset _ => sameByte cluster offset
      · intro idx
        rw [copyInto]
        by_cases copied : totalSize.toNat ≤ idx ∧ idx < totalSize.toNat + stepSize.toNat
        · rw [if_pos copied, if_pos ⟨rfl, copied⟩, fileByte]
          have here := places (file.pos.toNat + (idx - totalSize.toNat)) (by omega)
          obtain ⟨sameCluster, -, -⟩ := here.2.1.mpr ⟨by omega, by omega⟩
          have isPlace := here.2.2 sameCluster
          rw [loaded.cacheBuf layout isStart sizes.2.2 (by omega), sameCluster]
          exact congrArg (cache.clusterByte _) (by omega)
        · rw [if_neg copied, if_neg (fun holds => copied holds.2)]
  | true =>
      obtain ⟨after, isCopy, kept, bytes⟩ := copyStep_write ready inData isStart sizes.2.2 loaded
        buf clusterOffset stepSize totalSize
      refine ⟨read, after, buf, isRead, isCopy, kept, ?_, ?_, ?_⟩
      · intro place within
        obtain ⟨placeInPath, isCopied, isPlace⟩ := places place within
        have sameSize := bytesPerCluster_congr kept.bpb_eq
        rw [fileByte, sameSize, bytes _ (isPath.inData _ placeInPath) _
          (Nat.mod_lt _ positive)]
        by_cases copied : file.pos.toNat ≤ place ∧ place < file.pos.toNat + stepSize.toNat
        · obtain ⟨sameCluster, inCluster⟩ := isCopied.mpr copied
          rw [if_pos ⟨congrArg path sameCluster, inCluster⟩, if_pos ⟨rfl, copied⟩,
            isPlace sameCluster]
        · rw [if_neg, if_neg (fun holds => copied holds.2)]
          · rfl
          · rintro ⟨samePath, inCluster⟩
            exact copied (isCopied.mp ⟨isPath.apart _ placeInPath _ inPath samePath, inCluster⟩)
      · intro cluster otherInData other offset within
        rw [bytes cluster otherInData offset within, if_neg]
        exact fun holds => other _ inPath holds.1
      · intro idx
        rw [if_neg (by simp)]

theorem Passed.of_same {done : Nat}
    (passed : Passed isWrite cache after path count pos done total buf bufAfter)
    (ready : last.Ready) (sameBpb : last.bpb = after.bpb) (sameDisk : last.disk = after.disk) :
    Passed isWrite cache last path count pos done total buf bufAfter where
  kept :=
    ⟨sameBpb.trans passed.kept.bpb_eq, ready, by rw [sameDisk]; exact passed.kept.front⟩
  file := by
    intro place within
    rw [← passed.file place within, fileByte, clusterByte_congr sameBpb sameDisk,
      bytesPerCluster_congr sameBpb]
    rfl
  others := by
    intro cluster inData other offset within
    rw [clusterByte_congr sameBpb sameDisk, passed.others cluster inData other offset within]
  buffer := passed.buffer

/-- The loop takes all the bytes, and leaves the file at the cluster of its position. -/
theorem fileLoop_spec (isWrite : Bool) (fuel : Nat) {cache : SectorCache} (ready : cache.Ready)
    {path : Nat → Nat} {count : Nat} (isPath : Path cache path count) {file : FilePosition}
    {size totalSize : UInt32} {buf : Nat → UInt8} (enough : size.toNat ≤ fuel)
    (inside : file.pos.toNat + size.toNat ≤ count * cache.bytesPerCluster)
    (total : totalSize.toNat + size.toNat < 2 ^ 31)
    (cursor : file.blockCur.toNat = path (file.pos.toNat / cache.bytesPerCluster)) :
    ∃ after fileAfter bufAfter, fileLoop works isWrite fuel cache file buf size totalSize =
        some (after, fileAfter, bufAfter, totalSize + size) ∧
      fileAfter.size = file.size ∧ fileAfter.pos.toNat = file.pos.toNat + size.toNat ∧
      fileAfter.blockCur.toNat = path (fileAfter.pos.toNat / cache.bytesPerCluster) ∧
      Passed isWrite cache after path count file.pos.toNat size.toNat totalSize.toNat buf
        bufAfter := by
  induction fuel generalizing cache file size totalSize buf with
  | zero =>
      cases (UInt32.toNat_inj.mp (Nat.le_zero.mp enough) : size = 0)
      exact ⟨cache, file, buf, by rw [UInt32.add_zero]; rfl, rfl, rfl, cursor, .refl ready⟩
  | succ fuel ih =>
      by_cases some : size = 0
      · cases some
        exact ⟨cache, file, buf, by rw [UInt32.add_zero]; rfl, rfl, rfl, cursor, .refl ready⟩
      have layout := ready.layout
      obtain ⟨someSize, -, isBytes⟩ := bytesPerCluster_bounds layout
      have positive :
          UInt32.ofNat (cache.bpb.bytesPerSector * cache.bpb.sectorsPerCluster) ≠ 0 := by
        intro zero
        rw [show UInt32.ofNat cache.bytesPerCluster = 0 from zero] at isBytes
        exact Nat.ne_of_lt someSize isBytes
      have bounded := isPath.bounded
      obtain ⟨isOffset, isStep⟩ := @stepReadSize_toNat cache size file layout (by omega)
      obtain ⟨read, after, bufAfter, isRead, isCopy, passed⟩ :=
        pass_spec ready isPath some inside cursor isWrite buf totalSize
      generalize isClusterOffset : file.pos % UInt32.ofNat cache.bytesPerCluster = clusterOffset
        at isOffset isStep isCopy passed
      generalize isStepSize : stepReadSize (UInt32.ofNat cache.bytesPerCluster) clusterOffset
        size = stepSize at isStep isCopy passed
      have step : fileLoop works isWrite (fuel + 1) cache file buf size totalSize =
          if UInt32.ofNat cache.bytesPerCluster ≤ stepSize + clusterOffset then
            (after.getNextCluster works (UInt16.ofNat file.blockCur.toNat)).bind fun result =>
              fileLoop works isWrite fuel result.1
                { file with
                  pos := file.pos + stepSize
                  blockCur := UInt32.ofNat result.2.toNat } bufAfter (size - stepSize)
                (totalSize + stepSize)
          else fileLoop works isWrite fuel after { file with pos := file.pos + stepSize } bufAfter
            (size - stepSize) (totalSize + stepSize) := by
        rw [fileLoop, if_neg some]
        dsimp only
        rw [if_neg positive, isRead, if_neg (not_not_intro rfl),
          show cache.bpb.bytesPerSector * cache.bpb.sectorsPerCluster = cache.bytesPerCluster
            from rfl, isClusterOffset, isStepSize, isCopy, if_neg (not_not_intro rfl)]
        rfl
      obtain ⟨notMore, someBytes, turns, stays⟩ := pass_place layout some isOffset isStep
      have left : (size - stepSize).toNat = size.toNat - stepSize.toNat :=
        UInt32.toNat_sub_of_le _ _ (UInt32.le_iff_toNat_le.mpr notMore)
      have newPos : (file.pos + stepSize).toNat = file.pos.toNat + stepSize.toNat := by
        rw [UInt32.toNat_add]
        exact Nat.mod_eq_of_lt (by omega)
      have newTotal : (totalSize + stepSize).toNat = totalSize.toNat + stepSize.toNat := by
        rw [UInt32.toNat_add]
        exact Nat.mod_eq_of_lt (by omega)
      have sum : totalSize + stepSize + (size - stepSize) = totalSize + size := by
        apply UInt32.toNat_inj.mp
        rw [UInt32.toNat_add, UInt32.toNat_add totalSize size, newTotal, left]
        omega
      have rest {next : SectorCache} {nextFile : FilePosition}
          (sameSize : nextFile.size = file.size)
          (samePos : nextFile.pos = file.pos + stepSize)
          (nextCursor : nextFile.blockCur.toNat =
            path ((file.pos.toNat + stepSize.toNat) / cache.bytesPerCluster))
          (nextPassed : Passed isWrite cache next path count file.pos.toNat stepSize.toNat
            totalSize.toNat buf bufAfter) :
          ∃ last fileLast bufLast, fileLoop works isWrite fuel next nextFile bufAfter
              (size - stepSize) (totalSize + stepSize) =
                Option.some (last, fileLast, bufLast, totalSize + size) ∧
            fileLast.size = file.size ∧ fileLast.pos.toNat = file.pos.toNat + size.toNat ∧
            fileLast.blockCur.toNat = path (fileLast.pos.toNat / cache.bytesPerCluster) ∧
            Passed isWrite cache last path count file.pos.toNat size.toNat totalSize.toNat buf
              bufLast := by
        have nextSize := bytesPerCluster_congr nextPassed.kept.bpb_eq
        obtain ⟨last, fileLast, bufLast, ran, isSize, isPos, isCursor, later⟩ :=
          @ih next nextPassed.kept.ready (isPath.of_kept layout nextPassed.kept) nextFile
            (size - stepSize) (totalSize + stepSize) bufAfter (by omega)
            (by rw [nextSize, samePos]; omega) (by omega)
            (by rw [nextSize, samePos, newPos, nextCursor])
        rw [samePos, newPos, left] at isPos
        rw [samePos, newPos, newTotal, left] at later
        refine ⟨last, fileLast, bufLast, sum ▸ ran, isSize.trans sameSize, by omega,
          nextSize ▸ isCursor, ?_⟩
        have both := nextPassed.trans (by omega) later
        rwa [Nat.add_sub_cancel' notMore] at both
      rw [step]
      by_cases isTurn : UInt32.ofNat cache.bytesPerCluster ≤ stepSize + clusterOffset
      · have small := isPath.small (file.pos.toNat / cache.bytesPerCluster)
        have isCur : (UInt16.ofNat file.blockCur.toNat).toNat =
            path (file.pos.toNat / cache.bytesPerCluster) := by
          rw [UInt16.toNat_ofNat', cursor]
          exact Nat.mod_eq_of_lt small
        obtain ⟨next, cluster, isNext, isLink, nextReady, nextBpb, nextDisk⟩ :=
          passed.kept.ready.getNextCluster (UInt16.ofNat file.blockCur.toNat)
        rw [isCur, ← (isPath.of_kept layout passed.kept).follows, ← turns isTurn] at isLink
        have clusterSmall := cluster.toNat_lt
        rw [if_pos isTurn, isNext]
        refine rest rfl rfl ?_ (passed.of_same nextReady nextBpb nextDisk)
        rw [← isLink]
        exact UInt32.toNat_ofNat_of_lt' (Nat.lt_trans clusterSmall (by decide))
      · rw [if_neg isTurn]
        refine rest rfl rfl ?_ passed
        rw [stays isTurn]
        exact cursor

/-- A file of the volume has the bytes, the position and the mode of a row of bytes. -/
structure Stores (cache : SectorCache) (path : Nat → Nat) (count : Nat) (file : FatFile)
    (spec : ByteFile) : Prop where
  size_eq : file.position.size.toNat = spec.bytes.length
  fits : spec.bytes.length ≤ count * cache.bytesPerCluster
  pos_eq : file.position.pos.toNat = spec.pos
  cursor : file.position.blockCur.toNat = path (spec.pos / cache.bytesPerCluster)
  readOnly : spec.readOnly = decide (file.mode &&& openReadOnly ≠ 0)
  append : spec.append = decide (file.mode &&& openAppend ≠ 0)
  byte : ∀ place (inside : place < spec.bytes.length),
    spec.bytes[place] = cache.fileByte path place

/-- What a call for the file with these clusters leaves alone. -/
structure Outside (cache after : SectorCache) (path : Nat → Nat) (count : Nat) : Prop where
  kept : Kept cache after
  others : ∀ cluster ≥ 2, (∀ idx < count, cluster ≠ path idx) →
    ∀ offset < cache.bytesPerCluster,
      after.clusterByte cluster offset = cache.clusterByte cluster offset

theorem Passed.outside {done : Nat}
    (passed : Passed isWrite cache after path count pos done total buf bufAfter) :
    Outside cache after path count :=
  ⟨passed.kept, passed.others⟩

theorem toInt_toInt32 {value : UInt32} (small : value.toNat < 2 ^ 31) :
    value.toInt32.toInt = value.toNat := by
  rw [toInt_eq, UInt32.toUInt32_toInt32, if_pos (by omega)]

variable {file : FatFile} {spec : ByteFile}

theorem fat16Read_spec (ready : cache.Ready) (isPath : Path cache path count)
    (stores : Stores cache path count file spec) {size : UInt32}
    (fits : spec.pos + size.toNat < 2 ^ 32) :
    ∃ after fileAfter, cache.fat16Read works file size =
        some ((spec.run (.read size)).1, after, fileAfter) ∧
      Outside cache after path count ∧
      Stores after path count fileAfter (spec.run (.read size)).2 := by
  have atMost := stores.fits
  have bounded := isPath.bounded
  have inside := spec.inside
  obtain ⟨clipped, isClipped⟩ : ∃ clipped, clipped =
      if (!false && decide (file.position.size < file.position.pos + size)) = true then
        file.position.size - file.position.pos else size := ⟨_, rfl⟩
  have sum : (file.position.pos + size).toNat = spec.pos + size.toNat := by
    rw [UInt32.toNat_add, stores.pos_eq]
    exact Nat.mod_eq_of_lt fits
  have isMin : clipped.toNat = min size.toNat (spec.bytes.length - spec.pos) := by
    have short : file.position.size < file.position.pos + size ↔
        spec.bytes.length < spec.pos + size.toNat := by
      rw [UInt32.lt_iff_toNat_lt, sum, stores.size_eq]
    simp only [isClipped, Bool.not_false, Bool.true_and, decide_eq_true_eq]
    by_cases isShort : file.position.size < file.position.pos + size
    · rw [if_pos isShort, UInt32.toNat_sub_of_le _ _ (by
        rw [UInt32.le_iff_toNat_le, stores.pos_eq, stores.size_eq]
        exact inside), stores.pos_eq, stores.size_eq]
      rw [short] at isShort
      omega
    · rw [if_neg isShort]
      rw [short] at isShort
      omega
  obtain ⟨after, fileAfter, bufAfter, ran, isSize, isPos, isCursor, passed⟩ :=
    @fileLoop_spec false clipped.toNat cache ready path count isPath file.position clipped 0
      (fun _ => 0) (Nat.le_refl _) (by rw [stores.pos_eq]; omega)
      (by rw [UInt32.toNat_zero]; omega) (by rw [stores.cursor, stores.pos_eq])
  rw [UInt32.zero_add] at ran
  rw [stores.pos_eq] at isPos passed
  have isRun : cache.fat16Read works file size = some ((clipped.toInt32.toInt,
      (List.range clipped.toNat).map bufAfter), after, { file with position := fileAfter }) := by
    rw [SectorCache.fat16Read, fileOperate]
    dsimp only
    rw [← isClipped, ran]
    rfl
  have length : ((spec.bytes.drop spec.pos).take size.toNat).length = clipped.toNat := by
    rw [List.length_take, List.length_drop, isMin]
  have bytes : (List.range clipped.toNat).map bufAfter =
      (spec.bytes.drop spec.pos).take size.toNat := by
    apply List.ext_getElem
    · rw [List.length_map, List.length_range, length]
    · intro idx within _
      rw [List.length_map, List.length_range] at within
      rw [List.getElem_map, List.getElem_range, passed.buffer,
        if_pos ⟨rfl, Nat.zero_le _, by rw [UInt32.toNat_zero]; omega⟩, List.getElem_take,
        List.getElem_drop, stores.byte]
      rfl
  have isResult : (spec.run (.read size)).1 =
      ((clipped.toNat : Int), (spec.bytes.drop spec.pos).take size.toNat) := by
    rw [← length]
    rfl
  have newPos : (spec.run (.read size)).2.pos = spec.pos + clipped.toNat :=
    congrArg (spec.pos + ·) length
  have sameBpb := passed.kept.bpb_eq
  refine ⟨after, { file with position := fileAfter }, ?_, passed.outside, ?_⟩
  · rw [isRun, bytes, toInt_toInt32 (by omega), isResult]
  · refine ⟨?_, ?_, ?_, ?_, stores.readOnly, stores.append, ?_⟩
    · exact (congrArg UInt32.toNat isSize).trans stores.size_eq
    · rw [bytesPerCluster_congr sameBpb]
      exact atMost
    · exact isPos.trans newPos.symm
    · rw [bytesPerCluster_congr sameBpb, newPos, ← isPos]
      exact isCursor
    · intro place within
      rw [passed.file place (Nat.lt_of_lt_of_le within atMost), if_neg (by simp)]
      exact stores.byte place within

/-- A write that fits asks for no cluster. -/
theorem expandFile_none (ready : cache.Ready) (stores : Stores cache path count file spec)
    {size : UInt32} (partly : spec.bytes.length % cache.bytesPerCluster ≠ 0)
    (room : spec.bytes.length % cache.bytesPerCluster + size.toNat ≤ cache.bytesPerCluster)
    (pos : UInt32) (fuel : Nat) :
    expandFile works fuel cache { file with position := { file.position with pos := pos } } size =
      some (cache, { file with position := { file.position with pos := pos } }, 0) := by
  obtain ⟨some, -, isSize⟩ := bytesPerCluster_bounds ready.layout
  have positive : UInt32.ofNat cache.volume.bytesPerCluster ≠ 0 := by
    intro zero
    rw [show UInt32.ofNat cache.bytesPerCluster = 0 from zero] at isSize
    exact Nat.ne_of_lt some isSize
  have rest : (file.position.size % UInt32.ofNat cache.bytesPerCluster).toNat =
      spec.bytes.length % cache.bytesPerCluster := by
    rw [UInt32.toNat_mod, isSize, stores.size_eq]
  have notWhole : ¬ (file.position.size = 0 ∨
      file.position.size % UInt32.ofNat cache.bytesPerCluster = 0) := by
    rintro (empty | whole)
    · have length := stores.size_eq
      rw [empty, UInt32.toNat_zero] at length
      rw [← length, Nat.zero_mod] at partly
      exact partly rfl
    · rw [whole, UInt32.toNat_zero] at rest
      exact partly rest.symm
  have enough : size ≤ UInt32.ofNat cache.bytesPerCluster -
      file.position.size % UInt32.ofNat cache.bytesPerCluster := by
    rw [UInt32.le_iff_toNat_le, UInt32.toNat_sub_of_le _ _ (by
      rw [UInt32.le_iff_toNat_le, rest, isSize]
      omega), rest, isSize]
    omega
  have noCount : cache.volume.expandCount
      ⟨file.position.size, file.blockStart, file.position.blockCur⟩ size = none := by
    rw [Volume.expandCount]
    exact (if_neg notWhole).trans (if_pos enough)
  rw [expandFile, if_neg positive]
  dsimp only
  rw [noCount]

theorem fat16Write_spec (ready : cache.Ready) (isPath : Path cache path count)
    (stores : Stores cache path count file spec) {bytes : List UInt8} (fuel : Nat)
    (fits : spec.Fits cache.bytesPerCluster (.write bytes)) :
    ∃ after fileAfter, cache.fat16Write works fuel file bytes =
        some ((spec.run (.write bytes)).1, after, fileAfter) ∧
      Outside cache after path count ∧
      Stores after path count fileAfter (spec.run (.write bytes)).2 := by
  have isReadOnly := stores.readOnly
  by_cases locked : file.mode &&& openReadOnly ≠ 0
  · rw [decide_eq_true locked] at isReadOnly
    refine ⟨cache, file, ?_, ⟨.refl ready, fun _ _ _ _ _ => rfl⟩, ?_⟩
    · rw [fat16Write, ByteFile.run, isReadOnly]
      exact if_pos locked
    · rw [ByteFile.run, isReadOnly]
      exact stores
  rw [decide_eq_false locked] at isReadOnly
  obtain ⟨sameCluster, room⟩ : _ ∧ _ :=
    fits.resolve_left (by rw [isReadOnly]; exact Bool.noConfusion)
  have atMost := stores.fits
  have bounded := isPath.bounded
  have placeLe := spec.writePlace_le
  obtain ⟨place, isPlace⟩ : ∃ place, place = (if file.mode &&& openAppend ≠ 0 then
    file.position.size else file.position.pos) := ⟨_, rfl⟩
  have placeEq : place.toNat = spec.writePlace ∧
      spec.writePlace / cache.bytesPerCluster = spec.pos / cache.bytesPerCluster := by
    rw [isPlace, ByteFile.writePlace]
    have isAppend := stores.append
    by_cases appends : file.mode &&& openAppend ≠ 0
    · rw [decide_eq_true appends] at isAppend
      rw [if_pos appends, isAppend, if_pos rfl]
      exact ⟨stores.size_eq, sameCluster isAppend⟩
    · rw [decide_eq_false appends] at isAppend
      rw [if_neg appends, isAppend, if_neg Bool.false_ne_true]
      exact ⟨stores.pos_eq, rfl⟩
  -- the write ends in front of the last cluster's end
  have inClusters : spec.writePlace + bytes.length ≤ count * cache.bytesPerCluster := by
    rcases room with within | ⟨partly, within⟩
    · omega
    · rcases bytesPerCluster_cases ready.layout with ⟨-, isSize⟩ | ⟨-, isSize⟩ <;>
        rw [isSize] at partly within atMost ⊢ <;> omega
  have isSize : (UInt32.ofNat bytes.length).toNat = bytes.length :=
    UInt32.toNat_ofNat_of_lt' (by show _ < 4294967296; omega)
  have sum : (place + UInt32.ofNat bytes.length).toNat = spec.writePlace + bytes.length := by
    rw [UInt32.toNat_add, isSize, placeEq.1]
    exact Nat.mod_eq_of_lt (by omega)
  obtain ⟨after, fileAfter, bufAfter, ran, sizeAfter, posAfter, cursorAfter, passed⟩ :=
    @fileLoop_spec true (UInt32.ofNat bytes.length).toNat cache ready path count isPath
      { size := place, pos := place, blockCur := file.position.blockCur }
      (UInt32.ofNat bytes.length) 0 (fun idx => bytes.getD idx 0) (Nat.le_refl _)
      (by dsimp only; omega) (by rw [UInt32.toNat_zero]; omega)
      (by dsimp only; rw [placeEq.1, placeEq.2, stores.cursor])
  dsimp only at sizeAfter posAfter passed
  rw [UInt32.zero_add] at ran
  rw [placeEq.1, isSize] at posAfter passed
  have expands (grows : file.position.size < place + UInt32.ofNat bytes.length) :
      expandFile works fuel cache { file with position := { file.position with pos := place } }
        (UInt32.ofNat bytes.length) =
          some (cache, { file with position := { file.position with pos := place } }, 0) := by
    rw [UInt32.lt_iff_toNat_lt, sum, stores.size_eq] at grows
    obtain ⟨partly, within⟩ := room.resolve_left (by omega)
    exact expandFile_none ready stores partly (by rwa [isSize]) place fuel
  obtain ⟨grown, isGrown⟩ : ∃ grown, grown = (if 0 < (UInt32.ofNat bytes.length).toInt32 then
    fileAfter.size + UInt32.ofNat bytes.length else fileAfter.size) := ⟨_, rfl⟩
  have isRun : cache.fat16Write works fuel file bytes =
      some (((UInt32.ofNat bytes.length).toInt32.toInt, []), after,
        { file with position := { fileAfter with size := grown } }) := by
    rw [isGrown, fat16Write, if_neg locked]
    dsimp only
    rw [← isPlace]
    by_cases grows : file.position.size < place + UInt32.ofNat bytes.length
    · rw [if_pos grows, expands grows]
      simp only [Option.bind_eq_bind, Option.bind_some, ne_eq, not_true_eq_false, if_false,
        fileOperate, Bool.not_true, Bool.false_and, Bool.false_eq_true, ran]
      rfl
    · rw [if_neg grows]
      simp only [Option.bind_eq_bind, Option.bind_some, ne_eq, not_true_eq_false, if_false,
        fileOperate, Bool.not_true, Bool.false_and, Bool.false_eq_true, ran]
      rfl
  have sizeIs : grown.toNat = spec.writePlace + bytes.length := by
    rw [isGrown, sizeAfter]
    by_cases some : 0 < (UInt32.ofNat bytes.length).toInt32
    · rw [if_pos some]
      exact sum
    · rw [if_neg some, placeEq.1]
      rw [Int32.lt_iff_toInt_lt, toInt_toInt32 (by omega), isSize] at some
      change ¬ (0 : Int) < _ at some
      omega
  have isNew : (spec.run (.write bytes)).2.bytes = spec.bytes.take spec.writePlace ++ bytes ∧
      (spec.run (.write bytes)).2.pos = spec.writePlace + bytes.length ∧
      (spec.run (.write bytes)).1 = ((bytes.length : Int), []) ∧
      (spec.run (.write bytes)).2.readOnly = spec.readOnly ∧
      (spec.run (.write bytes)).2.append = spec.append := by
    rw [ByteFile.run, isReadOnly]
    exact ⟨rfl, rfl, rfl, rfl, rfl⟩
  obtain ⟨newBytes, newPos, newResult, sameReadOnly, sameAppend⟩ := isNew
  have newLength : (spec.run (.write bytes)).2.bytes.length = spec.writePlace + bytes.length := by
    rw [newBytes, List.length_append, List.length_take, Nat.min_eq_left placeLe]
  have sameClusters := bytesPerCluster_congr passed.kept.bpb_eq
  refine ⟨after, { file with position := { fileAfter with size := grown } }, ?_, passed.outside,
    ?_, ?_, ?_, ?_, ?_, ?_, ?_⟩
  · rw [isRun, newResult, toInt_toInt32 (by omega), isSize]
  · rw [newLength]
    exact sizeIs
  · rw [newLength, sameClusters]
    exact inClusters
  · rw [newPos]
    exact posAfter
  · rw [newPos, sameClusters, ← posAfter]
    exact cursorAfter
  · rw [sameReadOnly]
    exact stores.readOnly
  · rw [sameAppend]
    exact stores.append
  · intro idx within
    rw [newLength] at within
    rw [passed.file idx (Nat.lt_of_lt_of_le within inClusters)]
    simp only [newBytes]
    by_cases old : idx < spec.writePlace
    · rw [List.getElem_append_left (by
        rw [List.length_take, Nat.min_eq_left placeLe]
        exact old), List.getElem_take, stores.byte, if_neg (by omega)]
    · rw [List.getElem_append_right (by
        rw [List.length_take, Nat.min_eq_left placeLe]
        exact Nat.not_lt.mp old), if_pos ⟨trivial, Nat.not_lt.mp old, within⟩, UInt32.toNat_zero,
        Nat.zero_add, List.getD_eq_getElem?_getD, List.getElem?_eq_getElem (by omega),
        Option.getD_some]
      simp only [List.length_take, Nat.min_eq_left placeLe]

theorem fat16Seek_spec (isPath : Path cache path count)
    (stores : Stores cache path count file spec) {offset : Int32}
    (fits : spec.Fits cache.bytesPerCluster (.seek offset)) :
    ((fat16Seek file.position.pos file.position.size offset seekSet).2.toInt, []) =
        (spec.run (.seek offset)).1 ∧
      Stores cache path count
        { file with position := { file.position with
          pos := (fat16Seek file.position.pos file.position.size offset seekSet).1 } }
        (spec.run (.seek offset)).2 := by
  obtain ⟨notNegative, atMost, sameCluster⟩ : _ ∧ _ ∧ _ := fits
  have bounded := isPath.bounded
  have fitsIn := stores.fits
  have inside := spec.inside
  obtain ⟨newPos, isNewPos⟩ : ∃ newPos, newPos = (if offset > 0 then offset else 0).toUInt32 :=
    ⟨_, rfl⟩
  have body : fat16Seek file.position.pos file.position.size offset seekSet =
      (newPos, (newPos - file.position.pos).toInt32) := by
    rw [isNewPos]
    rfl
  have newPosEq : newPos.toNat = offset.toInt.toNat := by
    have clamp := clamp_eq offset
    rw [← isNewPos] at clamp
    omega
  have target : min offset.toInt.toNat spec.bytes.length = offset.toInt.toNat := by omega
  rw [body]
  constructor
  · show (_, _) = (_, _)
    rw [target, toInt_eq, UInt32.toUInt32_toInt32, UInt32.toNat_sub, newPosEq, stores.pos_eq]
    refine Prod.ext ?_ rfl
    show (if 2 * ((2 ^ 32 - spec.pos + offset.toInt.toNat) % 2 ^ 32) < 2 ^ 32 then _ else _) = _
    split <;> omega
  · refine ⟨stores.size_eq, stores.fits, ?_, ?_, stores.readOnly, stores.append, stores.byte⟩
    · show newPos.toNat = min _ _
      rw [target, newPosEq]
    · show _ = path (min _ _ / _)
      rw [target, sameCluster]
      exact stores.cursor

end SectorCache

open SectorCache

/-- The files of the volume are the rows of bytes, in clusters that no two of them share. -/
structure FatFiles.Holds {ι : Type} (paths : ι → Nat → Nat) (counts : ι → Nat)
    (bytesPerCluster : Nat) (store : FatFiles ι) (specs : ι → ByteFile) : Prop where
  ready : store.cache.Ready
  size_eq : store.cache.bytesPerCluster = bytesPerCluster
  path : ∀ i, Path store.cache (paths i) (counts i)
  disjoint : ∀ i j, i ≠ j → ∀ idx < counts i, ∀ other < counts j, paths i idx ≠ paths j other
  stores : ∀ i, Stores store.cache (paths i) (counts i) (store.files i) (specs i)

variable {ι : Type} [DecidableEq ι] {paths : ι → Nat → Nat} {counts : ι → Nat}
  {bytesPerCluster : Nat} {store : FatFiles ι} {specs specsAfter : ι → ByteFile}

theorem SectorCache.Stores.of_outside {cache after : SectorCache} {path other : Nat → Nat}
    {count otherCount : Nat} {file : FatFile} {spec : ByteFile} (ready : cache.Ready)
    (isPath : Path cache path count) (stores : Stores cache path count file spec)
    (outside : Outside cache after other otherCount)
    (disjoint : ∀ idx < count, ∀ place < otherCount, path idx ≠ other place) :
    Stores after path count file spec := by
  have sameSize := bytesPerCluster_congr outside.kept.bpb_eq
  have positive := (bytesPerCluster_bounds ready.layout).1
  refine ⟨stores.size_eq, ?_, stores.pos_eq, ?_, stores.readOnly, stores.append, ?_⟩
  · rw [sameSize]
    exact stores.fits
  · rw [sameSize]
    exact stores.cursor
  · intro place inside
    have inPath : place / cache.bytesPerCluster < count := by
      rw [Nat.div_lt_iff_lt_mul positive]
      exact Nat.lt_of_lt_of_le inside stores.fits
    rw [stores.byte place inside, fileByte, fileByte, sameSize]
    exact (outside.others _ (isPath.inData _ inPath) (disjoint _ inPath) _
      (Nat.mod_lt _ positive)).symm

theorem FatFiles.Holds.call (holds : store.Holds paths counts bytesPerCluster specs) (fuel : Nat)
    {action : ι × FatFileCall} {result : Int × List UInt8}
    (called : ByteFile.call bytesPerCluster specs action = some (result, specsAfter)) :
    ∃ after, store.call works fuel action = some (result, after) ∧
      after.Holds paths counts bytesPerCluster specsAfter := by
  obtain ⟨i, action⟩ := action
  have size_eq := holds.size_eq
  rw [ByteFile.call] at called
  split at called
  next fits =>
    cases called
    dsimp only at fits
    have update {after : SectorCache} {fileAfter : FatFile}
        (outside : Outside store.cache after (paths i) (counts i))
        (stores : Stores after (paths i) (counts i) fileAfter ((specs i).run action).2) :
        FatFiles.Holds paths counts bytesPerCluster
          ⟨after, Function.update store.files i fileAfter⟩
          (Function.update specs i ((specs i).run action).2) := by
      refine ⟨outside.kept.ready, ?_, ?_, holds.disjoint, ?_⟩
      · rw [← size_eq]
        exact bytesPerCluster_congr outside.kept.bpb_eq
      · exact fun j => (holds.path j).of_kept holds.ready.layout outside.kept
      · intro j
        by_cases same : j = i
        · cases same
          dsimp only
          rw [Function.update_self, Function.update_self]
          exact stores
        · dsimp only
          rw [Function.update_of_ne same, Function.update_of_ne same]
          exact (holds.stores j).of_outside holds.ready (holds.path j) outside
            (holds.disjoint j i same)
    rw [FatFiles.call]
    cases action with
    | read size =>
        obtain ⟨after, fileAfter, ran, outside, stores⟩ :=
          fat16Read_spec holds.ready (holds.path i) (holds.stores i) fits
        dsimp only
        rw [ran]
        exact ⟨_, rfl, update outside stores⟩
    | write bytes =>
        rw [← size_eq] at fits
        obtain ⟨after, fileAfter, ran, outside, stores⟩ :=
          fat16Write_spec holds.ready (holds.path i) (holds.stores i) fuel fits
        dsimp only
        rw [ran]
        exact ⟨_, rfl, update outside stores⟩
    | seek offset =>
        rw [← size_eq] at fits
        obtain ⟨isResult, stores⟩ := fat16Seek_spec (holds.path i) (holds.stores i) fits
        exact ⟨_, congrArg some (Prod.ext isResult rfl),
          update ⟨.refl holds.ready, fun _ _ _ _ _ => rfl⟩ stores⟩
  next => cases called

/-- Reads, writes and seeks on the files of a volume give what they give on rows of bytes, in any
order. -/
theorem files_refine_bytes (holds : store.Holds paths counts bytesPerCluster specs) (fuel : Nat)
    (actions : List (ι × FatFileCall)) {all : List (Int × List UInt8)}
    (ran : results (ByteFile.call bytesPerCluster) specs actions = some (all, specsAfter)) :
    ∃ after, results (FatFiles.call works fuel) store actions = some (all, after) ∧
      after.Holds paths counts bytesPerCluster specsAfter := by
  have simulates {store : FatFiles ι} {specs specsAfter : ι → ByteFile} {action : ι × FatFileCall}
      {result : Int × List UInt8} (holds : store.Holds paths counts bytesPerCluster specs)
      (called : ByteFile.call bytesPerCluster specs action = some (result, specsAfter)) :=
    FatFiles.Holds.call holds fuel called
  exact results_simulates simulates actions holds ran

/-- A disk of zeros whose first table sends every small cluster `c` to `2 * c - 1`, with a file
in the clusters 2 and 3, and one in cluster 4 that is open for appending. -/
def twoFiles : FatFiles Bool where
  cache := { sampleCache with
    disk := fun sector pos => if sector = 1 ∧ pos < 2 then 255 else 0 }
  files := fun second =>
    if second then ⟨⟨3, 0, 4⟩, 4, openAppend⟩ else ⟨⟨514, 513, 3⟩, 2, 0⟩

def twoPaths (second : Bool) (idx : Nat) : Nat :=
  twoFiles.cache.volume.link^[idx] (if second then 4 else 2)

def twoSpecs (second : Bool) : ByteFile :=
  if second then ⟨[0, 0, 0], 0, false, true, by decide⟩
  else ⟨List.replicate 514 0, 513, false, false, by rw [List.length_replicate]; decide⟩

set_option maxRecDepth 8192 in
theorem twoFiles_holds :
    twoFiles.Holds twoPaths (fun second => if second then 1 else 2) 512 twoSpecs := by
  have zero (cluster offset : Nat) : twoFiles.cache.clusterByte cluster offset = 0 := by
    have start : (dataSectorIdx twoFiles.cache.bpb).toNat = 4 := rfl
    refine if_neg ?_
    rw [clusterSector, start]
    generalize offset / sectorSize = sector
    omega
  refine ⟨⟨⟨rfl, .inl rfl, rfl, by decide, by decide⟩, by decide, ?_⟩, rfl, ?_, ?_, ?_⟩
  · intro idx inside
    exact absurd inside (Nat.not_lt_zero _)
  · intro second
    refine ⟨?_, ?_, ?_, ?_, ?_⟩
    · exact fun idx => Function.iterate_succ_apply' _ _ _
    · intro idx
      refine Volume.link_iterate_lt ?_ idx
      cases second <;> decide
    · cases second <;> decide
    · cases second <;> decide
    · cases second <;> decide
  · decide
  · intro second
    refine ⟨?_, ?_, ?_, ?_, ?_, ?_, ?_⟩
    · cases second <;> rfl
    · cases second <;> decide
    · cases second <;> rfl
    · cases second <;> rfl
    · cases second <;> rfl
    · cases second <;> rfl
    · intro place inside
      rw [fileByte, zero]
      cases second with
      | false => exact List.getElem_replicate _
      | true =>
          have isZero : ∀ idx : Fin 3, ([0, 0, 0] : List UInt8)[idx] = 0 := by decide
          exact isZero ⟨place, inside⟩

set_option maxRecDepth 8192 in
theorem files_refine_bytes_two :
    ∃ after, results (FatFiles.call works 0) twoFiles
        [(false, .write [1, 2]), (true, .write [7]), (false, .seek 512), (false, .read 9),
          (true, .seek 0), (true, .read 9)] =
          some ([(2, []), (1, []), (-3, []), (3, [0, 1, 2]), (-4, []), (4, [0, 0, 0, 7])], after) ∧
      ∃ specs, after.Holds twoPaths (fun second => if second then 1 else 2) 512 specs := by
  obtain ⟨after, ran, holds⟩ := files_refine_bytes twoFiles_holds 0
    [(false, .write [1, 2]), (true, .write [7]), (false, .seek 512), (false, .read 9),
      (true, .seek 0), (true, .read 9)] rfl
  exact ⟨after, ran, _, holds⟩

end CleanOS.Fs
