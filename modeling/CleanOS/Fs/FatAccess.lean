import CleanOS.Fs.ClusterTable

/-!
# Reading and writing entries

Whether `get_next_cluster` reads what `set_cluster` wrote.  The reader takes the first word of
the sector and adds the offset of the entry to it, and accepts the sector behind the table.
-/

namespace CleanOS.Fs

namespace Volume

def TablesAgree (volume : Volume) : Prop :=
  ∀ sector < volume.bpb.sectorsPerFat, ∀ offset < volume.bpb.bytesPerSector,
    volume.disk (volume.bpb.reservedSectorCount + sector) offset =
      volume.disk (volume.bpb.reservedSectorCount + sector + volume.bpb.sectorsPerFat) offset

/-- What `set_cluster` and `get_next_cluster` should do together: the value is read back, every
other cluster has the link it had, the copies stay the same, and clusters without an entry are
rejected. -/
structure FatAccessRight (volume after : Volume) (cur next : Nat) : Prop where
  readBack : (after.getNextCluster cur).2 = next
  others : ∀ other < 65536, other ≠ cur →
    (after.getNextCluster other).2 = (volume.getNextCluster other).2
  copies : volume.TablesAgree → after.TablesAgree
  rejects : ∀ outside < 65536, volume.capacity ≤ outside →
    (∀ value, (volume.setCluster outside value).2 ≠ 0) ∧
      (volume.getNextCluster outside).2 = invalidCluster

/-- When they do: there is an entry for every number, and the value is the first word of the
sector plus the offset of the entry. -/
structure FatAccessGuard (volume : Volume) (cur next : Nat) : Prop where
  allEntries : 65536 ≤ volume.capacity
  value : (volume.sectorWord cur + cur * 2 % volume.bpb.bytesPerSector) % 65536 = next

variable {volume after : Volume} {cluster cur next : Nat}

def sectorFirst (volume : Volume) (cluster : Nat) : Nat :=
  cluster - cluster * 2 % volume.bpb.bytesPerSector / 2

theorem offset_even (wellFormed : volume.bpb.WellFormed) (cluster : Nat) :
    cluster * 2 % volume.bpb.bytesPerSector % 2 = 0 := by
  rw [Nat.mod_mod_of_dvd _ (Nat.dvd_of_mod_eq_zero wellFormed.sectorEven)]
  exact Nat.mul_mod_left _ _

theorem sectorFirst_spec (wellFormed : volume.bpb.WellFormed) (cluster : Nat) :
    volume.sectorFirst cluster * 2 =
      volume.bpb.bytesPerSector * (cluster * 2 / volume.bpb.bytesPerSector) := by
  have even := offset_even wellFormed cluster
  have division := Nat.div_add_mod (cluster * 2) volume.bpb.bytesPerSector
  rw [sectorFirst]
  omega

theorem sectorWord_eq (wellFormed : volume.bpb.WellFormed) (cluster : Nat) :
    volume.sectorWord cluster = volume.entry (volume.sectorFirst cluster) := by
  rw [entry, sectorFirst_spec wellFormed, Nat.mul_mod_right,
    Nat.mul_div_cancel_left _ wellFormed.sectorPositive]
  rfl

theorem sectorFirst_le : volume.sectorFirst cluster ≤ cluster :=
  Nat.sub_le _ _

theorem Sane.sectorWord_setCluster (sane : volume.Sane) (valid : IsValidCluster cur)
    (inside : cur < volume.capacity) (bound : next < 65536) :
    ∃ after, volume.setCluster cur next = (after, 0) ∧ after.Sane ∧ after.bpb = volume.bpb ∧
      ∀ cluster < volume.capacity, after.sectorWord cluster =
        if volume.sectorFirst cluster = cur then next else volume.sectorWord cluster := by
  obtain ⟨after, isSet, afterSane, sameBpb, entries⟩ := sane.setCluster valid inside bound
  refine ⟨after, isSet, afterSane, sameBpb, ?_⟩
  intro cluster clusterInside
  have sameFirst : after.sectorFirst cluster = volume.sectorFirst cluster := by
    rw [sectorFirst, sameBpb, sectorFirst]
  rw [sectorWord_eq afterSane.wellFormed, sameFirst,
    entries _ (Nat.lt_of_le_of_lt sectorFirst_le clusterInside), ← sectorWord_eq sane.wellFormed]

theorem Sane.getNextCluster_value (sane : volume.Sane) (inside : cur < volume.capacity) :
    (volume.getNextCluster cur).2 =
      (volume.sectorWord cur + cur * 2 % volume.bpb.bytesPerSector) % 65536 := by
  obtain ⟨after, read, -⟩ := sane.getNextCluster inside
  rw [read]

def writtenSector (volume : Volume) (cur next : Nat) : Nat → UInt8 :=
  putWord (volume.bufRead
    (volume.bpb.reservedSectorCount + cur * 2 / volume.bpb.bytesPerSector) 1).cacheBuf
    (cur * 2 % volume.bpb.bytesPerSector) next

theorem setCluster_disk (wellFormed : volume.bpb.WellFormed) (valid : IsValidCluster cur)
    (inside : cur < volume.capacity) :
    (volume.setCluster cur next).1.disk = fun sector offset =>
      if (sector = volume.bpb.reservedSectorCount + cur * 2 / volume.bpb.bytesPerSector ∨
          sector = volume.bpb.reservedSectorCount + cur * 2 / volume.bpb.bytesPerSector +
            volume.bpb.sectorsPerFat) ∧ offset < volume.bpb.bytesPerSector then
        volume.writtenSector cur next offset
      else volume.disk sector offset := by
  have idxInside := (lt_capacity_iff wellFormed).mp inside
  simp only [Volume.setCluster, valid, not_true_eq_false, if_false,
    Nat.not_le.mpr idxInside, bufRead_bpb]
  rw [writeTables_eq (by simpa using wellFormed.twoTables)]
  simp only [bufRead_disk]
  rfl

theorem TablesAgree.setCluster (agree : volume.TablesAgree) (wellFormed : volume.bpb.WellFormed)
    (valid : IsValidCluster cur) (inside : cur < volume.capacity)
    (isSet : volume.setCluster cur next = (after, 0)) (sameBpb : after.bpb = volume.bpb) :
    after.TablesAgree := by
  have idxInside := (lt_capacity_iff wellFormed).mp inside
  have disk := @setCluster_disk volume cur next wellFormed valid inside
  rw [isSet] at disk
  intro sector sectorInside offset offsetInside
  rw [sameBpb] at sectorInside offsetInside ⊢
  simp only at disk
  simp only [disk]
  generalize cur * 2 / volume.bpb.bytesPerSector = idx at idxInside ⊢
  by_cases same : sector = idx
  · rw [if_pos ⟨.inl (by omega), offsetInside⟩, if_pos ⟨.inr (by omega), offsetInside⟩]
  · rw [if_neg (by omega), if_neg (by omega)]
    exact agree sector sectorInside offset offsetInside

theorem getNextCluster_behind (behind : cur * 2 / volume.bpb.bytesPerSector =
    volume.bpb.sectorsPerFat) : (volume.getNextCluster cur).2 =
      (wordAt (volume.bufRead (volume.bpb.reservedSectorCount +
        volume.bpb.sectorsPerFat) 1).cacheBuf 0 + cur * 2 % volume.bpb.bytesPerSector) % 65536 := by
  simp only [Volume.getNextCluster, behind, Nat.lt_irrefl, if_false]

theorem Sane.sectorPositive (sane : volume.Sane) : 0 < volume.bpb.bytesPerSector :=
  sane.wellFormed.sectorPositive

theorem sectorFirst_eq_self (wellFormed : volume.bpb.WellFormed) (cluster : Nat) :
    volume.sectorFirst cluster = cluster ↔ cluster * 2 % volume.bpb.bytesPerSector = 0 := by
  have first := sectorFirst_spec wellFormed cluster
  have division := Nat.div_add_mod (cluster * 2) volume.bpb.bytesPerSector
  constructor
  · intro same
    rw [same] at first
    omega
  · intro atStart
    rw [sectorFirst, atStart]
    rfl

theorem offset_sectorFirst (wellFormed : volume.bpb.WellFormed) (cluster : Nat) :
    volume.sectorFirst cluster * 2 % volume.bpb.bytesPerSector = 0 := by
  rw [sectorFirst_spec wellFormed]
  exact Nat.mul_mod_right _ _

theorem sectorWord_of_sectorFirst (wellFormed : volume.bpb.WellFormed)
    (isFirst : volume.sectorFirst cluster = cur) :
    volume.sectorWord cluster = volume.sectorWord cur := by
  have atStart := offset_sectorFirst wellFormed cluster
  rw [isFirst] at atStart
  rw [sectorWord_eq wellFormed, sectorWord_eq wellFormed, isFirst,
    (sectorFirst_eq_self wellFormed cur).mpr atStart]

theorem sectorFirst_succ (room : 2 < volume.bpb.bytesPerSector)
    (atStart : cur * 2 % volume.bpb.bytesPerSector = 0) :
    (cur + 1) * 2 % volume.bpb.bytesPerSector = 2 ∧ volume.sectorFirst (cur + 1) = cur := by
  have offset : (cur + 1) * 2 % volume.bpb.bytesPerSector = 2 := by
    rw [Nat.add_mul, Nat.add_mod, atStart, Nat.one_mul, Nat.zero_add, Nat.mod_mod]
    exact Nat.mod_eq_of_lt room
  refine ⟨offset, ?_⟩
  rw [sectorFirst, offset]
  rfl

theorem capacity_of_rejects (positive : 0 < volume.bpb.bytesPerSector)
    (quads : volume.bpb.bytesPerSector % 4 = 0)
    (rejects : ∀ outside < 65536, volume.capacity ≤ outside →
      (volume.getNextCluster outside).2 = invalidCluster) : 65536 ≤ volume.capacity := by
  by_contra short
  have double : volume.capacity * 2 = volume.bpb.sectorsPerFat * volume.bpb.bytesPerSector ∧
      volume.capacity % 2 = 0 := by
    have multiple : volume.bpb.sectorsPerFat * volume.bpb.bytesPerSector % 4 = 0 := by
      rw [Nat.mul_mod, quads, Nat.mul_zero]
    rw [capacity]
    omega
  -- the first two clusters behind the table are read from one word
  have first := rejects volume.capacity (by omega) (Nat.le_refl _)
  have second := rejects (volume.capacity + 1) (by omega) (Nat.le_succ _)
  have two : 2 < volume.bpb.bytesPerSector := by omega
  have secondPlace : (volume.capacity + 1) * 2 =
      2 + volume.bpb.sectorsPerFat * volume.bpb.bytesPerSector := by omega
  rw [getNextCluster_behind (by rw [double.1, Nat.mul_div_cancel _ positive]), double.1,
    Nat.mul_mod_left] at first
  rw [getNextCluster_behind (by
      rw [secondPlace, Nat.add_mul_div_right _ _ positive, Nat.div_eq_of_lt two, Nat.zero_add]),
    secondPlace, Nat.add_mul_mod_self_right, Nat.mod_eq_of_lt two] at second
  rw [invalidCluster] at first second
  omega

section Write

variable (sane : volume.Sane) (valid : IsValidCluster cur) (inside : cur < volume.capacity)
  (bound : next < 65536) (isSet : volume.setCluster cur next = (after, 0))

include sane valid inside bound isSet

theorem getNextCluster_after (clusterInside : cluster < volume.capacity) :
    (after.getNextCluster cluster).2 =
      ((if volume.sectorFirst cluster = cur then next else volume.sectorWord cluster) +
        cluster * 2 % volume.bpb.bytesPerSector) % 65536 := by
  obtain ⟨afterSet, isAfter, afterSane, sameBpb, words⟩ :=
    sane.sectorWord_setCluster valid inside bound
  rw [isSet, Prod.mk.injEq] at isAfter
  rw [isAfter.1, afterSane.getNextCluster_value (by rwa [capacity, sameBpb]), words _ clusterInside,
    sameBpb]

theorem FatAccessRight.guard (quads : volume.bpb.bytesPerSector % 4 = 0)
    (right : FatAccessRight volume after cur next) : FatAccessGuard volume cur next := by
  have wellFormed := sane.wellFormed
  have positive := sane.sectorPositive
  have entries := capacity_of_rejects positive quads
    fun outside small behind => (right.rejects outside small behind).2
  refine ⟨entries, ?_⟩
  by_cases atStart : cur * 2 % volume.bpb.bytesPerSector = 0
  · -- the write changes what the next cluster reads
    have curSmall : cur + 1 < 65536 := by
      have := valid.2
      rw [invalidCluster] at this
      omega
    have nextInside : cur + 1 < volume.capacity := Nat.lt_of_lt_of_le curSmall entries
    obtain ⟨offset, isFirst⟩ := sectorFirst_succ (by omega) atStart
    have same := right.others (cur + 1) curSmall (Nat.succ_ne_self _)
    rw [getNextCluster_after sane valid inside bound isSet nextInside, if_pos isFirst,
      sane.getNextCluster_value nextInside, sectorWord_of_sectorFirst wellFormed isFirst,
      offset] at same
    rw [atStart]
    omega
  · have notFirst := mt (sectorFirst_eq_self wellFormed cur).mp atStart
    have read := right.readBack
    rwa [getNextCluster_after sane valid inside bound isSet inside, if_neg notFirst] at read

theorem FatAccessGuard.right (guard : FatAccessGuard volume cur next) :
    FatAccessRight volume after cur next where
  readBack := by
    rw [getNextCluster_after sane valid inside bound isSet inside]
    split
    · rename_i isFirst
      rw [(sectorFirst_eq_self sane.wellFormed cur).mp isFirst]
      exact Nat.mod_eq_of_lt bound
    · exact guard.value
  others := by
    intro other small _
    have otherInside := Nat.lt_of_lt_of_le small guard.allEntries
    rw [getNextCluster_after sane valid inside bound isSet otherInside,
      sane.getNextCluster_value otherInside]
    split
    · rename_i isFirst
      have atStart := offset_sectorFirst sane.wellFormed other
      have value := guard.value
      rw [isFirst] at atStart
      have word : volume.sectorWord cur < 65536 := wordAt_lt _ _
      rw [atStart, Nat.add_zero, Nat.mod_eq_of_lt word] at value
      rw [sectorWord_of_sectorFirst sane.wellFormed isFirst, value]
    · rfl
  copies := by
    intro agree
    obtain ⟨afterSet, isAfter, _, sameBpb, _⟩ := sane.setCluster valid inside bound
    rw [isSet, Prod.mk.injEq] at isAfter
    apply agree.setCluster sane.wellFormed valid inside isSet
    rw [isAfter.1]
    exact sameBpb
  rejects := by
    intro outside small behind
    exact absurd (Nat.lt_of_lt_of_le small guard.allEntries) (Nat.not_lt.mpr behind)

end Write

def emptyTable : Volume :=
  { bpb := { bytesPerSector := 512, sectorsPerCluster := 1, reservedSectorCount := 1,
             fatCount := 2, rootEntryCount := 512, sectorsPerFat := 256 }
    disk := fun _ _ => 0
    cacheSectorStart := 0
    cacheSectorSize := 0
    cacheBuf := fun _ => 0 }

theorem emptyTable_sane : emptyTable.Sane where
  wellFormed := ⟨by decide, by decide, rfl⟩
  coherent := by
    intro offset inside
    rw [emptyTable, Nat.zero_mul] at inside
    exact absurd inside (Nat.not_lt_zero _)

theorem emptyTable_setCluster (valid : IsValidCluster cur) (inside : cur < emptyTable.capacity)
    (bound : next < 65536) :
    emptyTable.setCluster cur next = ((emptyTable.setCluster cur next).1, 0) := by
  obtain ⟨after, isSet, -⟩ := emptyTable_sane.setCluster valid inside bound
  rw [isSet]

end Volume

end CleanOS.Fs
