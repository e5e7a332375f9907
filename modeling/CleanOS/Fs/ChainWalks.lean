import CleanOS.Fs.FatAccess
import CleanOS.Fs.SectorCache
import CleanOS.Lib.Walk
import Mathlib.Data.Finset.Prod
import Mathlib.Data.Fintype.Card

/-!
# Walks along cluster chains

The loops of `kernel/fs/fat16fs.c` that follow the links of the table, and when they end.
`get_file_cluster_count` ends at only one of the end marks, `free_cluster_chain` at every number
that is no cluster, and `fat16_read` after the bytes that were asked for.
-/

namespace CleanOS.Fs

open CleanOS.Lib

namespace Volume

/-- The loop of `get_file_cluster_count`. -/
def countClusters : Nat → Volume → (cur clusterCount : Nat) → Option (Volume × Nat)
  | 0, _, _, _ => none
  | fuel + 1, volume, cur, clusterCount =>
      if cur = invalidCluster then some (volume, clusterCount)
      else
        let (volume, next) := volume.getNextCluster cur
        countClusters fuel volume next (clusterCount + 1)

/-- `get_file_cluster_count`, for the first cluster of the file. -/
def getFileClusterCount (fuel : Nat) (volume : Volume) (blockStart : UInt32) :
    Option (Volume × Nat) :=
  countClusters fuel volume (blockStart.toNat % 65536) 0

/-- The loop of `fat16_read`, with the caller's buffer and the number of bytes done.  There is
no result either when a division by zero stops the call. -/
def readLoop : Nat → Volume → FilePosition → (Nat → UInt8) → (size totalSize : UInt32) →
    Option (Volume × FilePosition × (Nat → UInt8) × UInt32)
  | 0, _, _, _, _, _ => none
  | fuel + 1, volume, file, buf, size, totalSize =>
      if size = 0 then some (volume, file, buf, totalSize)
      else
        let bytesPerCluster := UInt32.ofNat volume.bytesPerCluster
        if bytesPerCluster = 0 then none
        else
          let clusterOffset := file.pos % bytesPerCluster
          let sectorStart := SectorCache.dataSectorIdx volume.bpb +
            (file.blockCur - 2) * UInt32.ofNat volume.bpb.sectorsPerCluster
          let volume := volume.bufRead sectorStart.toNat volume.bpb.sectorsPerCluster
          let stepSize := SectorCache.stepReadSize bytesPerCluster clusterOffset size
          let buf := copyInto buf totalSize.toNat stepSize.toNat fun pos =>
            volume.cacheBuf (clusterOffset.toNat + pos)
          let file := { file with pos := file.pos + stepSize }
          if bytesPerCluster ≤ stepSize + clusterOffset then
            let (volume, next) := volume.getNextCluster (file.blockCur.toNat % 65536)
            readLoop fuel volume { file with blockCur := UInt32.ofNat next } buf
              (size - stepSize) (totalSize + stepSize)
          else readLoop fuel volume file buf (size - stepSize) (totalSize + stepSize)

/-- `fat16_read`. -/
def fat16Read (fuel : Nat) (volume : Volume) (file : FilePosition) (buf : Nat → UInt8)
    (size : UInt32) : Option (Volume × FilePosition × (Nat → UInt8) × UInt32) :=
  let size := if file.size < file.pos + size then file.size - file.pos else size
  readLoop fuel volume file buf size 0

/-- A chain of so many clusters of the table, which ends with an end mark. -/
inductive EndedChain (volume : Volume) : Nat → Nat → Prop where
  | done {cluster : Nat} (ends : invalidCluster ≤ cluster) : EndedChain volume cluster 0
  | link {cluster count : Nat} (valid : IsValidCluster cluster)
      (inside : cluster < volume.capacity)
      (more : EndedChain volume (volume.entry cluster) count) :
      EndedChain volume cluster (count + 1)

/-- What the walks from the first cluster of a file should do: they all end, and the clusters of
an ended chain are counted. -/
structure ChainWalksRight (volume : Volume) (blockStart : UInt32) : Prop where
  frees : ∃ fuel after, freeClusterChain fuel volume (blockStart.toNat % 65536) = some after
  counts : ∃ fuel result, getFileClusterCount fuel volume blockStart = some result
  reads : ∀ file buf size, ∃ fuel result, fat16Read fuel volume file buf size = some result
  counted : ∀ count, volume.EndedChain (blockStart.toNat % 65536) count →
    ∃ fuel after, getFileClusterCount fuel volume blockStart = some (after, count)

def firstWord (volume : Volume) (sector : Nat) : Nat :=
  wordAt (volume.disk sector) 0

/-- The link that is followed from a number: the first word of its sector and its place there. -/
def link (volume : Volume) (cluster : Nat) : Nat :=
  if volume.bpb.sectorsPerFat < cluster * 2 / volume.bpb.bytesPerSector then invalidCluster
  else
    (volume.firstWord (volume.bpb.reservedSectorCount +
      cluster * 2 / volume.bpb.bytesPerSector) + cluster * 2 % volume.bpb.bytesPerSector) % 65536

/-- The link that is followed while a chain is freed.  Once a cluster of the first sector has
been visited, that sector is what lies behind the table. -/
def freeLink (volume : Volume) (place : Nat × Bool) : Nat × Bool :=
  let idx := place.1 * 2 / volume.bpb.bytesPerSector
  (if place.2 ∧ idx = volume.bpb.sectorsPerFat then
      (volume.firstWord volume.bpb.reservedSectorCount +
        place.1 * 2 % volume.bpb.bytesPerSector) % 65536
    else volume.link place.1, place.2 || idx = 0)

/-- When the walks do: the links that are followed leave the clusters, for a count by the one
end mark, and for an ended chain after as many steps as it has clusters. -/
structure ChainWalksGuard (volume : Volume) (start : Nat) : Prop where
  frees : ∃ steps < 131072, ¬ IsValidCluster (volume.freeLink^[steps] (start, false)).1
  counts : ∃ steps < 65536, volume.link^[steps] start = invalidCluster
  counted : ∀ count, volume.EndedChain start count →
    StopsAfter (· = invalidCluster) volume.link start count

variable {volume now after : Volume} {fuel cluster cur next : Nat}

theorem link_lt (volume : Volume) (cluster : Nat) : volume.link cluster < 65536 := by
  rw [link]
  split
  · exact Nat.lt_of_lt_of_le (by decide : invalidCluster < 65529) (by decide)
  · exact Nat.mod_lt _ (by decide)

theorem freeLink_lt (volume : Volume) (place : Nat × Bool) :
    (volume.freeLink place).1 < 65536 := by
  simp only [freeLink]
  split
  · exact Nat.mod_lt _ (by decide)
  · exact link_lt volume _

theorem link_congr (sameBpb : after.bpb = volume.bpb) (sameDisk : after.disk = volume.disk) :
    after.link = volume.link := by
  funext cluster
  rw [link, firstWord, sameBpb, sameDisk]
  rfl

@[simp] theorem getNextCluster_bpb (volume : Volume) (cur : Nat) :
    (volume.getNextCluster cur).1.bpb = volume.bpb := by
  rw [Volume.getNextCluster]
  split
  · rfl
  · exact bufRead_bpb _ _

theorem Sane.getNextCluster_link (sane : volume.Sane) (cur : Nat) :
    ∃ after, volume.getNextCluster cur = (after, volume.link cur) ∧ after.Sane ∧
      after.bpb = volume.bpb ∧ after.disk = volume.disk := by
  by_cases outside : volume.bpb.sectorsPerFat < cur * 2 / volume.bpb.bytesPerSector
  · refine ⟨volume, ?_, sane, rfl, rfl⟩
    rw [Volume.getNextCluster, link, if_pos outside, if_pos outside]
  · have positive := sane.sectorPositive
    have even := sane.wellFormed.sectorEven
    have one : 1 < volume.bpb.bytesPerSector := by omega
    refine ⟨_, ?_, ⟨by simpa using sane.wellFormed, sane.coherent.bufRead
      (volume.bpb.reservedSectorCount + cur * 2 / volume.bpb.bytesPerSector) 1⟩, by simp, by simp⟩
    simp only [Volume.getNextCluster, link, outside, if_false, firstWord, wordAt,
      sane.coherent.cacheBuf_bufRead _ positive, sane.coherent.cacheBuf_bufRead _ one]

/-! ### Counting -/

theorem countClusters_eq (sane : volume.Sane) (clusterCount : Nat) :
    (countClusters fuel volume cur clusterCount).map Prod.snd =
      (walk (· = invalidCluster) volume.link fuel cur).map (clusterCount + ·) := by
  induction fuel generalizing volume cur clusterCount with
  | zero => rfl
  | succ fuel ih =>
      rw [countClusters, walk]
      by_cases ends : cur = invalidCluster
      · rw [if_pos ends, if_pos ends]
        rfl
      · obtain ⟨after, reads, afterSane, sameBpb, sameDisk⟩ := sane.getNextCluster_link cur
        rw [if_neg ends, if_neg ends, reads]
        simp only
        rw [ih afterSane, link_congr sameBpb sameDisk, Option.map_map]
        congr 1
        funext steps
        simp only [Function.comp_apply, Nat.succ_eq_add_one]
        omega

theorem getFileClusterCount_iff (sane : volume.Sane) (blockStart : UInt32) (count : Nat) :
    (∃ fuel after, getFileClusterCount fuel volume blockStart = some (after, count)) ↔
      StopsAfter (· = invalidCluster) volume.link (blockStart.toNat % 65536) count := by
  constructor
  · rintro ⟨fuel, after, counted⟩
    have walked := @countClusters_eq volume fuel (blockStart.toNat % 65536) sane 0
    rw [getFileClusterCount] at counted
    rw [counted] at walked
    simp only [Option.map_some, Nat.zero_add, Option.map_id'] at walked
    exact (walk_eq_some.mp walked.symm).2
  · intro stopped
    have walked := @countClusters_eq volume (count + 1) (blockStart.toNat % 65536) sane 0
    rw [walk_eq_some.mpr ⟨Nat.lt_succ_self _, stopped⟩] at walked
    simp only [Option.map_some, Nat.zero_add, Option.map_eq_some_iff] at walked
    obtain ⟨⟨after, _⟩, counted, rfl⟩ := walked
    exact ⟨_, after, counted⟩

/-! ### Freeing -/

theorem Sane.setCluster_firstWord (sane : volume.Sane) (valid : IsValidCluster cluster)
    (inside : cluster < volume.capacity) :
    ∃ after, volume.setCluster cluster (volume.link cluster) = (after, 0) ∧ after.Sane ∧
      after.bpb = volume.bpb ∧ ∀ sector, after.firstWord sector = volume.firstWord
        (if sector = volume.bpb.reservedSectorCount +
            cluster * 2 / volume.bpb.bytesPerSector + volume.bpb.sectorsPerFat then
          volume.bpb.reservedSectorCount + cluster * 2 / volume.bpb.bytesPerSector
        else sector) := by
  have wellFormed := sane.wellFormed
  have positive := sane.sectorPositive
  have even := wellFormed.sectorEven
  have one : 1 < volume.bpb.bytesPerSector := by omega
  have idxInside := (lt_capacity_iff wellFormed).mp inside
  obtain ⟨after, isSet, afterSane, sameBpb, -⟩ :=
    sane.setCluster valid inside (link_lt volume cluster)
  refine ⟨after, isSet, afterSane, sameBpb, ?_⟩
  have disk := @setCluster_disk volume cluster (volume.link cluster) wellFormed valid inside
  rw [isSet] at disk
  simp only at disk
  -- the word that is written over is the first one only if it is written unchanged
  have written : wordAt (volume.writtenSector cluster (volume.link cluster)) 0 =
      volume.firstWord
        (volume.bpb.reservedSectorCount + cluster * 2 / volume.bpb.bytesPerSector) := by
    have word : volume.firstWord
        (volume.bpb.reservedSectorCount + cluster * 2 / volume.bpb.bytesPerSector) < 65536 :=
      wordAt_lt _ _
    by_cases atStart : cluster * 2 % volume.bpb.bytesPerSector = 0
    · rw [writtenSector, atStart, wordAt_putWord_self (link_lt volume cluster), link,
        if_neg (Nat.not_lt.mpr (Nat.le_of_lt idxInside)), atStart, Nat.add_zero,
        Nat.mod_eq_of_lt word]
    · rw [writtenSector, wordAt_putWord_of_ne (offset_even wellFormed cluster) (by decide)
        (Ne.symm atStart), wordAt, sane.coherent.cacheBuf_bufRead _ positive,
        sane.coherent.cacheBuf_bufRead _ one]
      rfl
  intro sector
  rw [firstWord, wordAt, disk]
  simp only [positive, one, and_true]
  generalize volume.bpb.reservedSectorCount + cluster * 2 / volume.bpb.bytesPerSector = place
    at written ⊢
  by_cases isCopy : sector = place + volume.bpb.sectorsPerFat
  · rw [if_pos isCopy, if_pos (.inr isCopy), if_pos (.inr isCopy)]
    exact written
  · by_cases isSector : sector = place
    · rw [if_neg isCopy, if_pos (.inl isSector), if_pos (.inl isSector), isSector]
      exact written
    · have neither : ¬ (sector = place ∨ sector = place + volume.bpb.sectorsPerFat) :=
        not_or.mpr ⟨isSector, isCopy⟩
      rw [if_neg isCopy, if_neg neither, if_neg neither]
      rfl

structure Freeing (volume now : Volume) (copied : Bool) : Prop where
  sane : now.Sane
  sameBpb : now.bpb = volume.bpb
  words : ∀ idx ≤ volume.bpb.sectorsPerFat,
    now.firstWord (volume.bpb.reservedSectorCount + idx) = volume.firstWord
      (volume.bpb.reservedSectorCount +
        if copied ∧ idx = volume.bpb.sectorsPerFat then 0 else idx)

theorem Freeing.link {copied : Bool} (freeing : Freeing volume now copied) (cluster : Nat) :
    now.link cluster = (volume.freeLink (cluster, copied)).1 := by
  rw [Volume.link, freeing.sameBpb]
  simp only [freeLink]
  by_cases outside : volume.bpb.sectorsPerFat < cluster * 2 / volume.bpb.bytesPerSector
  · rw [if_pos outside, if_neg, Volume.link, if_pos outside]
    intro isCopy
    exact absurd outside (Nat.not_lt.mpr (Nat.le_of_eq isCopy.2))
  · rw [if_neg outside, freeing.words _ (Nat.not_lt.mp outside)]
    split
    · rfl
    · rw [Volume.link, if_neg outside]

theorem Freeing.pass {copied : Bool} (freeing : Freeing volume now copied)
    (valid : IsValidCluster cluster) :
    ∃ read after code,
      now.getNextCluster cluster = (read, (volume.freeLink (cluster, copied)).1) ∧
      read.setCluster cluster (volume.freeLink (cluster, copied)).1 = (after, code) ∧
      Freeing volume after (volume.freeLink (cluster, copied)).2 := by
  obtain ⟨read, reads, readSane, readBpb, readDisk⟩ := freeing.sane.getNextCluster_link cluster
  have readBpb' := readBpb.trans freeing.sameBpb
  have readWords : ∀ sector, read.firstWord sector = now.firstWord sector := by
    intro sector
    rw [firstWord, readDisk]
    rfl
  rw [freeing.link] at reads
  by_cases inside : cluster < read.capacity
  · obtain ⟨after, writes, afterSane, afterBpb, words⟩ :=
      readSane.setCluster_firstWord valid inside
    have idxInside := (lt_capacity_iff readSane.wellFormed).mp inside
    rw [link_congr readBpb readDisk, freeing.link] at writes
    refine ⟨read, after, 0, reads, writes, afterSane, afterBpb.trans readBpb', ?_⟩
    intro idx isSector
    rw [words, readWords]
    simp only [readBpb'] at idxInside ⊢
    simp only [freeLink]
    generalize cluster * 2 / volume.bpb.bytesPerSector = place at idxInside ⊢
    by_cases first : place = 0
    · cases first
      by_cases behind : idx = volume.bpb.sectorsPerFat
      · rw [if_pos (by omega), freeing.words _ (Nat.zero_le _), if_neg (by omega),
          if_pos ⟨by simp, behind⟩]
      · rw [if_neg (by omega), freeing.words _ isSector, if_neg (fun both => behind both.2),
          if_neg (fun both => behind both.2)]
    · rw [if_neg (by omega), freeing.words _ isSector]
      simp [first]
  · have idxOutside := mt (lt_capacity_iff readSane.wellFormed).mpr inside
    refine ⟨read, read, -2, reads, ?_, readSane, readBpb', ?_⟩
    · simp only [Volume.setCluster, valid, not_true_eq_false, if_false, Nat.not_lt.mp idxOutside,
        if_true]
    · intro idx isSector
      rw [readWords, freeing.words _ isSector]
      simp only [readBpb'] at idxOutside
      simp only [freeLink]
      by_cases first : cluster * 2 / volume.bpb.bytesPerSector = 0
      · -- there is no table at all
        rw [first] at idxOutside
        have only : idx = 0 := by omega
        simp [only]
      · simp [first]

theorem freeClusterChain_isSome {copied : Bool} (freeing : Freeing volume now copied) :
    (freeClusterChain fuel now cluster).isSome =
      (walk (fun place => ¬ IsValidCluster place.1) volume.freeLink fuel
        (cluster, copied)).isSome := by
  induction fuel generalizing now cluster copied with
  | zero => rfl
  | succ fuel ih =>
      rw [freeClusterChain, walk]
      by_cases valid : IsValidCluster cluster
      · obtain ⟨read, after, code, reads, writes, freeingAfter⟩ := freeing.pass valid
        rw [if_pos valid, if_neg (not_not.mpr valid), reads]
        simp only [writes, Option.isSome_map]
        exact ih freeingAfter
      · rw [if_neg valid, if_pos valid]
        rfl

theorem freeClusterChain_iff (sane : volume.Sane) :
    (∃ fuel after, freeClusterChain fuel volume cluster = some after) ↔
      ∃ steps, StopsAfter (fun place => ¬ IsValidCluster place.1) volume.freeLink
        (cluster, false) steps := by
  have freeing : Freeing volume volume false :=
    ⟨sane, rfl, fun idx _ => by rw [if_neg (fun both => Bool.noConfusion both.1)]⟩
  constructor
  · rintro ⟨fuel, after, frees⟩
    have ends := @freeClusterChain_isSome volume volume fuel cluster false freeing
    rw [frees, Option.isSome_some] at ends
    obtain ⟨steps, walked⟩ := Option.isSome_iff_exists.mp ends.symm
    exact ⟨steps, (walk_eq_some.mp walked).2⟩
  · rintro ⟨steps, stopped⟩
    have ends := @freeClusterChain_isSome volume volume (steps + 1) cluster false freeing
    rw [walk_eq_some.mpr ⟨Nat.lt_succ_self _, stopped⟩, Option.isSome_some] at ends
    exact ⟨steps + 1, Option.isSome_iff_exists.mp ends⟩

/-! ### Reading -/

theorem stepReadSize_spec {bytesPerCluster clusterOffset size : UInt32}
    (inside : clusterOffset < bytesPerCluster) (more : size ≠ 0) :
    0 < (SectorCache.stepReadSize bytesPerCluster clusterOffset size).toNat ∧
      SectorCache.stepReadSize bytesPerCluster clusterOffset size ≤ size := by
  have positive : 0 < size.toNat := Nat.pos_of_ne_zero fun zero => more (UInt32.toNat_inj.mp zero)
  have sizeBound := size.toNat_lt
  have clusterBound := bytesPerCluster.toNat_lt
  rw [UInt32.lt_iff_toNat_lt] at inside
  rw [SectorCache.stepReadSize]
  split
  · rename_i beyond
    rw [UInt32.lt_iff_toNat_lt, UInt32.toNat_add] at beyond
    rw [UInt32.le_iff_toNat_le, UInt32.toNat_sub_of_le _ _ (by
      rw [UInt32.le_iff_toNat_le]; exact Nat.le_of_lt inside)]
    omega
  · exact ⟨positive, UInt32.le_refl _⟩

theorem readLoop_ends (positive : UInt32.ofNat volume.bytesPerCluster ≠ 0) (file : FilePosition)
    (buf : Nat → UInt8) (size totalSize : UInt32) (enough : size.toNat < fuel) :
    ∃ result, readLoop fuel volume file buf size totalSize = some result := by
  induction fuel generalizing volume file buf size totalSize with
  | zero => exact absurd enough (Nat.not_lt_zero _)
  | succ fuel ih =>
      rw [readLoop]
      by_cases done : size = 0
      · rw [if_pos done]
        exact ⟨_, rfl⟩
      · have inside : file.pos % UInt32.ofNat volume.bytesPerCluster <
            UInt32.ofNat volume.bytesPerCluster := by
          apply UInt32.mod_lt
          rw [UInt32.lt_iff_toNat_lt]
          exact Nat.pos_of_ne_zero fun zero => positive (UInt32.toNat_inj.mp zero)
        obtain ⟨someBytes, notMore⟩ := stepReadSize_spec inside done
        have less : (size - SectorCache.stepReadSize (UInt32.ofNat volume.bytesPerCluster)
            (file.pos % UInt32.ofNat volume.bytesPerCluster) size).toNat < fuel := by
          have taken := UInt32.le_iff_toNat_le.mp notMore
          rw [UInt32.toNat_sub_of_le _ _ notMore]
          omega
        simp only [if_neg done, if_neg positive]
        split
        · apply ih _ _ _ _ _ less
          rwa [bytesPerCluster, getNextCluster_bpb, bufRead_bpb]
        · apply ih _ _ _ _ _ less
          rwa [bytesPerCluster, bufRead_bpb]

/-! ### The walks from a file -/

theorem link_iterate_lt {start : Nat} (bound : start < 65536) (steps : Nat) :
    volume.link^[steps] start < 65536 := by
  cases steps with
  | zero => exact bound
  | succ steps =>
      rw [Function.iterate_succ_apply']
      exact link_lt volume _

theorem freeLink_iterate_lt {start : Nat} (bound : start < 65536) (steps : Nat) :
    (volume.freeLink^[steps] (start, false)).1 < 65536 := by
  cases steps with
  | zero => exact bound
  | succ steps =>
      rw [Function.iterate_succ_apply']
      exact freeLink_lt volume _

theorem stopsAfter_lt_two_mul {bound steps : Nat} {stop : Nat × Bool → Prop}
    {step : Nat × Bool → Nat × Bool} {place : Nat × Bool}
    (stopped : StopsAfter stop step place steps)
    (within : ∀ steps, (step^[steps] place).1 < bound) : steps < bound * 2 := by
  have small := stopped.lt_card (Finset.range bound ×ˢ Finset.univ) fun steps =>
    Finset.mem_product.mpr ⟨Finset.mem_range.mpr (within steps), Finset.mem_univ _⟩
  rwa [Finset.card_product, Finset.card_range, Finset.card_univ, Fintype.card_bool] at small

variable {blockStart : UInt32}

theorem ChainWalksRight.guard (sane : volume.Sane) (right : ChainWalksRight volume blockStart) :
    ChainWalksGuard volume (blockStart.toNat % 65536) where
  frees := by
    obtain ⟨steps, stopped⟩ := (freeClusterChain_iff sane).mp right.frees
    refine ⟨steps, ?_, stopped.stops⟩
    exact stopsAfter_lt_two_mul stopped (freeLink_iterate_lt (Nat.mod_lt _ (by decide)))
  counts := by
    obtain ⟨fuel, ⟨after, count⟩, ends⟩ := right.counts
    have stopped := (getFileClusterCount_iff sane blockStart count).mp ⟨fuel, after, ends⟩
    refine ⟨count, ?_, stopped.stops⟩
    have small := stopped.lt_card (Finset.range 65536) fun step =>
      Finset.mem_range.mpr (link_iterate_lt (Nat.mod_lt _ (by decide)) step)
    rwa [Finset.card_range] at small
  counted := by
    intro count ended
    exact (getFileClusterCount_iff sane blockStart count).mp (right.counted count ended)

theorem ChainWalksGuard.right (sane : volume.Sane)
    (positive : UInt32.ofNat volume.bytesPerCluster ≠ 0)
    (guard : ChainWalksGuard volume (blockStart.toNat % 65536)) :
    ChainWalksRight volume blockStart where
  frees := by
    obtain ⟨steps, -, stops⟩ := guard.frees
    obtain ⟨first, -, stopped⟩ :=
      @exists_stopsAfter _ (fun place : Nat × Bool => ¬ IsValidCluster place.1) _ _ _ stops
    exact (freeClusterChain_iff sane).mpr ⟨first, stopped⟩
  counts := by
    obtain ⟨steps, -, stops⟩ := guard.counts
    obtain ⟨first, -, stopped⟩ := @exists_stopsAfter _ (· = invalidCluster) _ _ _ stops
    obtain ⟨fuel, after, ends⟩ := (getFileClusterCount_iff sane blockStart first).mpr stopped
    exact ⟨fuel, (after, first), ends⟩
  reads := by
    intro file buf size
    rw [show fat16Read = fun fuel volume file buf size => readLoop fuel volume file buf
      (if file.size < file.pos + size then file.size - file.pos else size) 0 from rfl]
    exact ⟨_, readLoop_ends positive file buf _ 0 (Nat.lt_succ_self _)⟩
  counted := by
    intro count ended
    exact (getFileClusterCount_iff sane blockStart count).mpr (guard.counted count ended)

theorem EndedChain.unique {first second : Nat} (ended : volume.EndedChain cluster first)
    (other : volume.EndedChain cluster second) : first = second := by
  induction ended generalizing second with
  | done ends =>
      cases other with
      | done => rfl
      | link valid => exact absurd valid.2 (Nat.not_lt.mpr ends)
  | link valid _ _ ih =>
      cases other with
      | done ends => exact absurd valid.2 (Nat.not_lt.mpr ends)
      | link _ _ more => rw [ih more]

/-- A table of one sector in which cluster `2` is the last of its chain, and the first word
happens to send the reader to the same end mark. -/
def oneCluster : Volume :=
  { emptyTable with
    bpb := { emptyTable.bpb with sectorsPerFat := 1 }
    disk := fun sector offset =>
      if sector ≠ 1 then 0
      else if offset = 0 then 0xf4 else if offset = 4 then 0xf8
      else if offset = 1 ∨ offset = 5 then 0xff else 0 }

/-- The numbers that are visited from cluster `2` of an empty table. -/
def emptyTableVisits : List Nat := [2, 4, 8, 16, 32, 64, 128, 256, 0]

theorem emptyTable_link (cluster : Nat) (visited : cluster ∈ emptyTableVisits) :
    emptyTable.link cluster ∈ emptyTableVisits := by
  revert cluster
  decide

end Volume

end CleanOS.Fs
