import CleanOS.Fs.Volume

/-!
# The file allocation table

What the cluster functions do to the entries of the first table, seen through
the sector cache.  A volume is coherent when the cache slot agrees with the
device; every function keeps it so.
-/

namespace CleanOS.Fs

@[simp] theorem wordAt_putWord_self {bytes : Nat → UInt8} {offset word : Nat}
    (bound : word < 65536) : wordAt (putWord bytes offset word) offset = word := by
  have low : offset ≠ offset + 1 := by omega
  have halves : word % 256 + 256 * (word / 256 % 256) = word := by omega
  simp only [wordAt, putWord, Function.update_self,
    Function.update_of_ne low, UInt8.toNat_ofNat']
  exact halves

theorem wordAt_putWord_of_ne {bytes : Nat → UInt8} {offset other word : Nat}
    (even : offset % 2 = 0) (otherEven : other % 2 = 0)
    (different : other ≠ offset) :
    wordAt (putWord bytes offset word) other = wordAt bytes other := by
  have first : other ≠ offset + 1 := by omega
  have third : other + 1 ≠ offset := by omega
  simp [wordAt, putWord, Function.update_of_ne, different, first, third]

theorem wordAt_lt (bytes : Nat → UInt8) (offset : Nat) :
    wordAt bytes offset < 65536 := by
  have low := (bytes offset).toNat_lt
  have high := (bytes (offset + 1)).toNat_lt
  unfold wordAt
  omega

namespace Volume

variable {volume : Volume}

def capacity (volume : Volume) : Nat :=
  volume.bpb.sectorsPerFat * volume.bpb.bytesPerSector / 2

def entry (volume : Volume) (cluster : Nat) : Nat :=
  wordAt
    (volume.disk (volume.bpb.reservedSectorCount +
      cluster * 2 / volume.bpb.bytesPerSector))
    (cluster * 2 % volume.bpb.bytesPerSector)

def sectorWord (volume : Volume) (cluster : Nat) : Nat :=
  wordAt
    (volume.disk (volume.bpb.reservedSectorCount +
      cluster * 2 / volume.bpb.bytesPerSector)) 0

def Coherent (volume : Volume) : Prop :=
  ∀ offset, offset < volume.cacheSectorSize * volume.bpb.bytesPerSector →
    volume.cacheBuf offset =
      volume.disk (volume.cacheSectorStart + offset / volume.bpb.bytesPerSector)
        (offset % volume.bpb.bytesPerSector)

@[simp] theorem bufRead_bpb (sectorStart size : Nat) :
    (volume.bufRead sectorStart size).bpb = volume.bpb := by
  unfold bufRead
  split <;> rfl

@[simp] theorem bufRead_disk (sectorStart size : Nat) :
    (volume.bufRead sectorStart size).disk = volume.disk := by
  unfold bufRead
  split <;> rfl

@[simp] theorem bufRead_cacheSectorStart (sectorStart size : Nat) :
    (volume.bufRead sectorStart size).cacheSectorStart = sectorStart := by
  unfold bufRead
  split
  · rename_i hit
    exact hit.1
  · rfl

@[simp] theorem bufRead_cacheSectorSize (sectorStart size : Nat) :
    (volume.bufRead sectorStart size).cacheSectorSize = size := by
  unfold bufRead
  split
  · rename_i hit
    exact hit.2
  · rfl

theorem Coherent.bufRead (coherent : volume.Coherent) (sectorStart size : Nat) :
    (volume.bufRead sectorStart size).Coherent := by
  by_cases hit : volume.cacheSectorStart = sectorStart ∧
      volume.cacheSectorSize = size
  · simpa [Volume.bufRead, hit] using coherent
  · intro offset inside
    simp only [bufRead_cacheSectorSize, bufRead_bpb] at inside
    simp [Volume.bufRead, hit, inside]

theorem Coherent.cacheBuf_bufRead (coherent : volume.Coherent) (sectorStart : Nat)
    {offset : Nat} (inside : offset < volume.bpb.bytesPerSector) :
    (volume.bufRead sectorStart 1).cacheBuf offset =
      volume.disk sectorStart offset := by
  have agrees := coherent.bufRead sectorStart 1 offset (by simpa using inside)
  rw [bufRead_cacheSectorStart, bufRead_bpb, bufRead_disk,
    Nat.div_eq_of_lt inside, Nat.mod_eq_of_lt inside] at agrees
  exact agrees

theorem writeTables_eq (twoTables : volume.bpb.fatCount = 2) (sectorStart : Nat) :
    volume.writeTables sectorStart =
      { volume with
        disk := fun sector offset =>
          if (sector = sectorStart ∨
              sector = sectorStart + volume.bpb.sectorsPerFat) ∧
              offset < volume.bpb.bytesPerSector then
            volume.cacheBuf offset
          else volume.disk sector offset } := by
  simp only [writeTables, twoTables, List.range_succ, List.range_zero,
    List.nil_append, List.cons_append, List.foldl_cons, List.foldl_nil, bufWrite,
    Nat.zero_mul, Nat.add_zero, Nat.one_mul, Volume.mk.injEq, true_and, and_true]
  funext sector offset
  by_cases small : offset < volume.bpb.bytesPerSector
  · by_cases second : sector = sectorStart + volume.bpb.sectorsPerFat
    · simp [second, small]
    · have secondRange : ¬ (sectorStart + volume.bpb.sectorsPerFat ≤ sector ∧
          sector < sectorStart + volume.bpb.sectorsPerFat + 1 ∧
          offset < volume.bpb.bytesPerSector) := by omega
      by_cases first : sector = sectorStart
      · subst first
        simp only [secondRange, if_false]
        simp [small]
      · have firstRange : ¬ (sectorStart ≤ sector ∧ sector < sectorStart + 1 ∧
            offset < volume.bpb.bytesPerSector) := by omega
        simp only [secondRange, firstRange, first, second, if_false, or_self, false_and]
  · simp [small]

theorem lt_capacity_iff (wellFormed : volume.bpb.WellFormed) {cluster : Nat} :
    cluster < volume.capacity ↔
      cluster * 2 / volume.bpb.bytesPerSector < volume.bpb.sectorsPerFat := by
  have even := wellFormed.sectorEven
  rw [Nat.div_lt_iff_lt_mul wellFormed.sectorPositive, capacity]
  have product : volume.bpb.sectorsPerFat * volume.bpb.bytesPerSector % 2 = 0 := by
    rw [Nat.mul_mod, even]
    simp
  omega

/-- A volume that is coherent and has sensible parameters. -/
structure Sane (volume : Volume) : Prop where
  wellFormed : volume.bpb.WellFormed
  coherent : volume.Coherent

theorem Sane.setCluster (sane : volume.Sane) {cur next : Nat}
    (valid : IsValidCluster cur) (inside : cur < volume.capacity)
    (bound : next < 65536) :
    ∃ after, volume.setCluster cur next = (after, 0) ∧ after.Sane ∧
      after.bpb = volume.bpb ∧
      ∀ cluster < volume.capacity, after.entry cluster =
        if cluster = cur then next else volume.entry cluster := by
  obtain ⟨wellFormed, coherent⟩ := sane
  have positive := wellFormed.sectorPositive
  have even := wellFormed.sectorEven
  have idxInside := (lt_capacity_iff wellFormed).mp inside
  let sectorStart := volume.bpb.reservedSectorCount +
    cur * 2 / volume.bpb.bytesPerSector
  let buffer := putWord (volume.bufRead sectorStart 1).cacheBuf
    (cur * 2 % volume.bpb.bytesPerSector) next
  let after : Volume :=
    { volume.bufRead sectorStart 1 with
      cacheBuf := buffer
      disk := fun sector offset =>
        if (sector = sectorStart ∨
            sector = sectorStart + volume.bpb.sectorsPerFat) ∧
            offset < volume.bpb.bytesPerSector then
          buffer offset
        else volume.disk sector offset }
  have offsetEven : ∀ cluster, cluster * 2 % volume.bpb.bytesPerSector % 2 = 0 := by
    intro cluster
    rw [Nat.mod_mod_of_dvd _ (Nat.dvd_of_mod_eq_zero even)]
    omega
  have offsetInside : ∀ cluster, cluster * 2 % volume.bpb.bytesPerSector + 1 <
      volume.bpb.bytesPerSector := by
    intro cluster
    have small := Nat.mod_lt (cluster * 2) positive
    have evenOffset := offsetEven cluster
    omega
  refine ⟨after, ?_, ⟨by simpa [after] using wellFormed, ?_⟩, by simp [after], ?_⟩
  · simp only [Volume.setCluster, valid, not_true_eq_false, if_false,
      Nat.not_le.mpr idxInside, bufRead_bpb]
    rw [writeTables_eq (by simpa using wellFormed.twoTables)]
    simp [after, buffer, sectorStart]
  · intro offset small
    have sizeOne : offset < volume.bpb.bytesPerSector := by
      simpa [after] using small
    simp [after, Nat.div_eq_of_lt sizeOne, Nat.mod_eq_of_lt sizeOne, sizeOne]
  · intro cluster clusterInside
    have clusterIdx := (lt_capacity_iff wellFormed).mp clusterInside
    have notCopy : volume.bpb.reservedSectorCount +
        cluster * 2 / volume.bpb.bytesPerSector ≠
          sectorStart + volume.bpb.sectorsPerFat := by
      have before : cluster * 2 / volume.bpb.bytesPerSector <
          cur * 2 / volume.bpb.bytesPerSector + volume.bpb.sectorsPerFat :=
        Nat.lt_of_lt_of_le clusterIdx (Nat.le_add_left ..)
      change _ ≠ volume.bpb.reservedSectorCount +
        cur * 2 / volume.bpb.bytesPerSector + volume.bpb.sectorsPerFat
      omega
    have diskAt : ∀ offset, offset < volume.bpb.bytesPerSector →
        after.disk (volume.bpb.reservedSectorCount +
          cluster * 2 / volume.bpb.bytesPerSector) offset =
        if volume.bpb.reservedSectorCount +
            cluster * 2 / volume.bpb.bytesPerSector = sectorStart then
          buffer offset
        else volume.disk (volume.bpb.reservedSectorCount +
          cluster * 2 / volume.bpb.bytesPerSector) offset := by
      intro offset small
      simp [after, notCopy, small]
    have unfolded : after.entry cluster = wordAt
        (after.disk (volume.bpb.reservedSectorCount +
          cluster * 2 / volume.bpb.bytesPerSector))
        (cluster * 2 % volume.bpb.bytesPerSector) := by
      simp [entry, after]
    have high := offsetInside cluster
    have low : cluster * 2 % volume.bpb.bytesPerSector <
        volume.bpb.bytesPerSector := by omega
    by_cases sameSector : volume.bpb.reservedSectorCount +
        cluster * 2 / volume.bpb.bytesPerSector = sectorStart
    · have inBuffer : after.entry cluster =
          wordAt buffer (cluster * 2 % volume.bpb.bytesPerSector) := by
        rw [unfolded, wordAt, diskAt _ low, diskAt _ high, if_pos sameSector,
          if_pos sameSector]
        rfl
      rw [inBuffer]
      by_cases same : cluster = cur
      · subst same
        rw [if_pos rfl]
        exact wordAt_putWord_self bound
      · have different : cluster * 2 % volume.bpb.bytesPerSector ≠
            cur * 2 % volume.bpb.bytesPerSector := by
          intro sameOffset
          have sameIdx : cluster * 2 / volume.bpb.bytesPerSector =
              cur * 2 / volume.bpb.bytesPerSector := by
            change volume.bpb.reservedSectorCount + _ =
              volume.bpb.reservedSectorCount + _ at sameSector
            omega
          have first := Nat.div_add_mod (cluster * 2) volume.bpb.bytesPerSector
          have second := Nat.div_add_mod (cur * 2) volume.bpb.bytesPerSector
          rw [sameIdx, sameOffset] at first
          omega
        rw [if_neg same, wordAt_putWord_of_ne (offsetEven cur) (offsetEven cluster)
          different, wordAt, coherent.cacheBuf_bufRead sectorStart low,
          coherent.cacheBuf_bufRead sectorStart high, entry, wordAt, sameSector]
    · have notCur : cluster ≠ cur := fun same => sameSector (by rw [same])
      rw [if_neg notCur, unfolded, wordAt, diskAt _ low, diskAt _ high,
        if_neg sameSector, if_neg sameSector]
      rfl

theorem Sane.getNextCluster (sane : volume.Sane) {cur : Nat}
    (inside : cur < volume.capacity) :
    ∃ after, volume.getNextCluster cur =
        (after, (volume.sectorWord cur +
          cur * 2 % volume.bpb.bytesPerSector) % 65536) ∧
      after.Sane ∧ after.bpb = volume.bpb ∧ after.disk = volume.disk := by
  obtain ⟨wellFormed, coherent⟩ := sane
  have positive := wellFormed.sectorPositive
  have even := wellFormed.sectorEven
  have idxInside := (lt_capacity_iff wellFormed).mp inside
  have one : 1 < volume.bpb.bytesPerSector := by omega
  let sectorStart := volume.bpb.reservedSectorCount +
    cur * 2 / volume.bpb.bytesPerSector
  refine ⟨volume.bufRead sectorStart 1, ?_, ⟨by simpa using wellFormed,
    coherent.bufRead _ _⟩, by simp, by simp⟩
  have first : wordAt (volume.bufRead sectorStart 1).cacheBuf 0 =
      volume.sectorWord cur := by
    rw [wordAt, coherent.cacheBuf_bufRead sectorStart positive,
      coherent.cacheBuf_bufRead sectorStart one]
    rfl
  rw [← first]
  simp [Volume.getNextCluster, Nat.not_lt.mpr (Nat.le_of_lt idxInside), sectorStart]

end Volume

end CleanOS.Fs
