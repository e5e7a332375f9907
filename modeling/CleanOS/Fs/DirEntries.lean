import CleanOS.Fs.ClusterTable
import CleanOS.Fs.SectorCache

/-!
# Directory entries

`read_dir_entry` and `write_dir_entry` of `kernel/fs/fat16fs.c`, on a device that never fails.
A directory is the entries from a sector on.
-/

namespace CleanOS.Fs.Volume

/-- `read_dir_entry`: the offset of the entry in the buffer, or `NULL`.  No caller has a negative
index. -/
def readDirEntry (volume : Volume) (sectorStart idx : Nat) : Volume × Option Nat :=
  if volume.bpb.rootEntryCount ≤ idx then (volume, none)
  else
    let offset := dirEntrySize * idx
    (volume.bufRead (sectorStart + offset / volume.bpb.bytesPerSector) 1,
      some (offset % volume.bpb.bytesPerSector))

/-- `write_dir_entry`. -/
def writeDirEntry (volume : Volume) (entry : Nat → UInt8) (sectorRoot idx : Nat) :
    Volume × Int :=
  if volume.bpb.rootEntryCount ≤ idx then (volume, -1)
  else
    let offset := dirEntrySize * idx
    let sectorStart := offset / volume.bpb.bytesPerSector + sectorRoot
    let volume := volume.bufRead sectorStart 1
    let sectorOffset := offset % volume.bpb.bytesPerSector
    let volume :=
      { volume with cacheBuf := copyInto volume.cacheBuf sectorOffset dirEntrySize entry }
    (volume.bufWrite sectorStart 1, 0)

def dirEntry (volume : Volume) (sectorStart idx : Nat) : Nat → UInt8 := fun pos =>
  volume.disk (sectorStart + (dirEntrySize * idx + pos) / volume.bpb.bytesPerSector)
    ((dirEntrySize * idx + pos) % volume.bpb.bytesPerSector)

/-- A volume whose sectors hold whole entries, with a coherent cache. -/
structure DirSane (volume : Volume) : Prop where
  sectorPositive : 0 < volume.bpb.bytesPerSector
  wholeEntries : volume.bpb.bytesPerSector % dirEntrySize = 0
  coherent : volume.Coherent

variable {volume after : Volume} {sectorStart idx pos : Nat} {entry : Nat → UInt8}

theorem DirSane.offset_le (sane : volume.DirSane) (idx : Nat) :
    dirEntrySize * idx % volume.bpb.bytesPerSector + dirEntrySize ≤
      volume.bpb.bytesPerSector := by
  obtain ⟨entries, isWhole⟩ := Nat.dvd_of_mod_eq_zero sane.wholeEntries
  have positive := sane.sectorPositive
  rw [isWhole] at positive ⊢
  have entriesPositive := Nat.pos_of_mul_pos_left positive
  have inside := Nat.mod_lt idx entriesPositive
  rw [Nat.mul_mod_mul_left, ← Nat.mul_succ]
  exact Nat.mul_le_mul_left _ inside

theorem DirSane.place (sane : volume.DirSane) (inside : pos < dirEntrySize) :
    (dirEntrySize * idx + pos) / volume.bpb.bytesPerSector =
        dirEntrySize * idx / volume.bpb.bytesPerSector ∧
      (dirEntrySize * idx + pos) % volume.bpb.bytesPerSector =
        dirEntrySize * idx % volume.bpb.bytesPerSector + pos := by
  have whole := sane.offset_le idx
  have small : dirEntrySize * idx % volume.bpb.bytesPerSector + pos <
      volume.bpb.bytesPerSector := by omega
  have division := Nat.div_add_mod (dirEntrySize * idx) volume.bpb.bytesPerSector
  have split : dirEntrySize * idx + pos = dirEntrySize * idx % volume.bpb.bytesPerSector + pos +
      volume.bpb.bytesPerSector * (dirEntrySize * idx / volume.bpb.bytesPerSector) := by omega
  constructor
  · rw [split, Nat.add_mul_div_left _ _ sane.sectorPositive, Nat.div_eq_of_lt small, Nat.zero_add]
  · rw [split, Nat.add_mul_mod_self_left, Nat.mod_eq_of_lt small]

theorem DirSane.dirEntry_eq (sane : volume.DirSane) (inside : pos < dirEntrySize) :
    volume.dirEntry sectorStart idx pos =
      volume.disk (sectorStart + dirEntrySize * idx / volume.bpb.bytesPerSector)
        (dirEntrySize * idx % volume.bpb.bytesPerSector + pos) := by
  obtain ⟨sector, offset⟩ := @DirSane.place volume idx pos sane inside
  rw [dirEntry, sector, offset]

theorem readDirEntry_outside (outside : volume.bpb.rootEntryCount ≤ idx) :
    volume.readDirEntry sectorStart idx = (volume, none) := by
  rw [readDirEntry, if_pos outside]

theorem DirSane.readDirEntry (sane : volume.DirSane) (sectorStart : Nat)
    (inside : idx < volume.bpb.rootEntryCount) :
    ∃ after offset, volume.readDirEntry sectorStart idx = (after, some offset) ∧
      after.DirSane ∧ after.bpb = volume.bpb ∧ after.disk = volume.disk ∧
      ∀ pos < dirEntrySize, after.cacheBuf (offset + pos) =
        volume.dirEntry sectorStart idx pos := by
  refine ⟨_, _, by rw [Volume.readDirEntry, if_neg (Nat.not_le.mpr inside)],
    ⟨by simpa using sane.sectorPositive, by simpa using sane.wholeEntries,
      sane.coherent.bufRead _ _⟩, by simp, by simp, ?_⟩
  intro pos posInside
  have whole := sane.offset_le idx
  rw [sane.coherent.cacheBuf_bufRead _ (by omega), sane.dirEntry_eq posInside]

theorem DirSane.writeDirEntry (sane : volume.DirSane) (entry : Nat → UInt8) (sectorRoot : Nat)
    (inside : idx < volume.bpb.rootEntryCount) :
    ∃ after, volume.writeDirEntry entry sectorRoot idx = (after, 0) ∧ after.DirSane ∧
      after.bpb = volume.bpb ∧ ∀ other, ∀ pos < dirEntrySize,
        after.dirEntry sectorRoot other pos =
          if other = idx then entry pos else volume.dirEntry sectorRoot other pos := by
  have whole := sane.offset_le idx
  let sector := dirEntrySize * idx / volume.bpb.bytesPerSector + sectorRoot
  let sectorOffset := dirEntrySize * idx % volume.bpb.bytesPerSector
  let buffer := copyInto (volume.bufRead sector 1).cacheBuf sectorOffset dirEntrySize entry
  let after : Volume := { volume.bufRead sector 1 with cacheBuf := buffer }.bufWrite sector 1
  have isWritten : volume.writeDirEntry entry sectorRoot idx = (after, 0) := by
    rw [Volume.writeDirEntry, if_neg (Nat.not_le.mpr inside)]
    simp only [bufRead_bpb, after, buffer, sector, sectorOffset]
  have sameBpb : after.bpb = volume.bpb := bufRead_bpb _ _
  have disk : ∀ place offset, after.disk place offset =
      if place = sector ∧ offset < volume.bpb.bytesPerSector then buffer offset
      else volume.disk place offset := by
    intro place offset
    simp only [after, bufWrite, bufRead_bpb, bufRead_disk]
    by_cases isSector : place = sector
    · simp [isSector]
    · have notRange : ¬ (sector ≤ place ∧ place < sector + 1 ∧
          offset < volume.bpb.bytesPerSector) := by omega
      rw [if_neg notRange, if_neg (fun both => isSector both.1)]
  have afterSane : after.DirSane := by
    refine ⟨by rw [sameBpb]; exact sane.sectorPositive, by rw [sameBpb]; exact sane.wholeEntries,
      ?_⟩
    intro offset offsetInside
    have start : after.cacheSectorStart = sector := bufRead_cacheSectorStart _ _
    have size : after.cacheSectorSize = 1 := bufRead_cacheSectorSize _ _
    rw [size, Nat.one_mul, sameBpb] at offsetInside
    rw [start, sameBpb, disk, Nat.div_eq_of_lt offsetInside, Nat.mod_eq_of_lt offsetInside,
      if_pos ⟨Nat.add_zero _, offsetInside⟩]
    rfl
  refine ⟨after, isWritten, afterSane, sameBpb, ?_⟩
  intro other pos posInside
  have otherWhole := sane.offset_le other
  rw [afterSane.dirEntry_eq posInside, sane.dirEntry_eq posInside, sameBpb, disk]
  by_cases sameSector : sectorRoot + dirEntrySize * other / volume.bpb.bytesPerSector = sector
  · rw [if_pos ⟨sameSector, by omega⟩]
    simp only [buffer, copyInto]
    have quotients : dirEntrySize * other / volume.bpb.bytesPerSector =
        dirEntrySize * idx / volume.bpb.bytesPerSector := by omega
    have first := Nat.div_add_mod (dirEntrySize * other) volume.bpb.bytesPerSector
    have second := Nat.div_add_mod (dirEntrySize * idx) volume.bpb.bytesPerSector
    rw [quotients] at first
    by_cases same : other = idx
    · subst same
      rw [if_pos rfl, if_pos (by omega)]
      congr 1
      omega
    · rw [if_neg same, if_neg, sane.coherent.cacheBuf_bufRead _ (by omega), sameSector]
      simp only [sectorOffset, dirEntrySize] at *
      omega
  · rw [if_neg (fun both => sameSector both.1), if_neg]
    rintro rfl
    exact sameSector (Nat.add_comm _ _)

end CleanOS.Fs.Volume
