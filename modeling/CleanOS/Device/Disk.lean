import Mathlib.Data.Nat.Find
import Mathlib.Data.List.Basic
import Mathlib.Tactic.NormNum

/-!
# Transfers of sectors

`disk_read` and `disk_write` of `kernel/device/disk/disk.c`, with the command that they send
and the status register that they wait for.  Waiting for the interrupt is left out.  A sector
has 512 bytes, which is the only size that `detect_disk` enters.
-/

namespace CleanOS.Device

/-- `SECTOR_SIZE`. -/
def sectorSize : Nat := 512

/-- The bits of `disk_status` that the driver looks at. -/
def statusErr : UInt8 := 1

def statusDrq : UInt8 := 8

def statusBsy : UInt8 := 128

/-- `ata_wait` ends at a status. -/
def EndsWait (status : UInt8) : Prop :=
  status &&& (statusErr ||| statusDrq ||| statusBsy) ≠ statusBsy

instance : DecidablePred EndsWait := fun status =>
  inferInstanceAs (Decidable (status &&& (statusErr ||| statusDrq ||| statusBsy) ≠ statusBsy))

/-- What the status register shows when it is polled at each sector of a transfer.  The disk is
not busy for ever. -/
structure StatusRegister where
  polls : (sector poll : Nat) → UInt8
  ends : ∀ sector, ∃ poll, EndsWait (polls sector poll)

def StatusRegister.last (status : StatusRegister) (sector : Nat) : UInt8 :=
  status.polls sector (Nat.find (status.ends sector))

/-- `ata_wait`, whose result binds the comparison closer than the mask. -/
def ataWait (status : StatusRegister) (sector : Nat) : Int :=
  ((status.last sector &&& if statusErr = statusErr then 1 else 0).toNat : Int)

/-- What `ata_cmd` writes to the ports, the high bytes first. -/
structure AtaCommand where
  drive : UInt8
  sectorCountHigh : UInt8
  sectorLowHigh : UInt8
  sectorCount : UInt8
  sectorLow : UInt8
  sectorMiddle : UInt8
  sectorHigh : UInt8
  cmd : UInt8

/-- `COMMAND_READ`. -/
def commandRead : UInt8 := 0x24

/-- `COMMAND_WRITE`. -/
def commandWrite : UInt8 := 0x34

/-- `ata_cmd`. -/
def ataCmd (drive : UInt8) (sectorStart sectorCount : UInt32) (cmd : UInt8) : AtaCommand where
  drive := ((drive <<< (4 : UInt8)) ||| (0xe0 : UInt8)) |||
    ((sectorStart >>> 24).toUInt8 &&& 0x0f)
  sectorCountHigh := (sectorCount >>> 8).toUInt8
  sectorLowHigh := (sectorStart >>> 24).toUInt8
  sectorCount := sectorCount.toUInt8
  sectorLow := sectorStart.toUInt8
  sectorMiddle := (sectorStart >>> 8).toUInt8
  sectorHigh := (sectorStart >>> 16).toUInt8
  cmd := cmd

namespace AtaCommand

def start (command : AtaCommand) : Nat :=
  command.sectorLow.toNat + 2 ^ 8 * command.sectorMiddle.toNat +
    2 ^ 16 * command.sectorHigh.toNat + 2 ^ 24 * command.sectorLowHigh.toNat

def count (command : AtaCommand) : Nat :=
  let count := command.sectorCount.toNat + 2 ^ 8 * command.sectorCountHigh.toNat
  if count = 0 then 2 ^ 16 else count

end AtaCommand

/-- `part_info_t`, with the drive of its disk, if it has one. -/
structure PartInfo where
  sectorStart : UInt32
  sectorCount : UInt32
  disk : Option UInt8

/-- What is on a disk, and what its data port gives when no sector is left of a command. -/
structure DiskContents where
  sectors : Nat → Nat → UInt8
  idle : Nat → Nat → UInt8

def DiskContents.transfer (disk : DiskContents) (command : AtaCommand) (i : Nat) : Nat → UInt8 :=
  if i < command.count then disk.sectors (command.start + i) else disk.idle i

def DiskContents.accept (disk : DiskContents) (command : AtaCommand) (i : Nat)
    (bytes : Nat → UInt8) : DiskContents :=
  if i < command.count then
    { disk with sectors := Function.update disk.sectors (command.start + i) bytes }
  else disk

/-- `ata_read` of a sector into memory. -/
def ataRead (mem : Nat → UInt8) (buf : Nat) (data : Nat → UInt8) : Nat → UInt8 := fun address =>
  if buf ≤ address ∧ address < buf + sectorSize then data (address - buf) else mem address

/-- `ata_write` of a sector from memory. -/
def ataWrite (mem : Nat → UInt8) (buf : Nat) : Nat → UInt8 := fun pos => mem (buf + pos)

/-- What a call returns and leaves: the memory, the disk, the commands that it sent, and where
the sectors lay in memory that it copied. -/
structure Transfer where
  ret : Int
  mem : Nat → UInt8
  disk : DiskContents
  commands : List AtaCommand
  buffers : List Nat

/-- The loop of `disk_read`.  The increment of the pointer uses the next `i`. -/
def diskReadLoop (status : StatusRegister) (command : AtaCommand) :
    (count i buf : Nat) → Transfer → Transfer
  | 0, _, _, transfer => transfer
  | count + 1, i, buf, transfer =>
      let err := ataWait status i
      if err ≠ 0 then { transfer with ret := err }
      else
        diskReadLoop status command count (i + 1) (buf + sectorSize * (i + 1))
          { transfer with
            mem := ataRead transfer.mem buf (transfer.disk.transfer command i)
            buffers := transfer.buffers ++ [buf] }

/-- The loop of `disk_write`. -/
def diskWriteLoop (status : StatusRegister) (command : AtaCommand) :
    (count i buf : Nat) → Transfer → Transfer
  | 0, _, _, transfer => transfer
  | count + 1, i, buf, transfer =>
      let transfer := { transfer with
        disk := transfer.disk.accept command i (ataWrite transfer.mem buf)
        buffers := transfer.buffers ++ [buf] }
      let err := ataWait status i
      if err ≠ 0 then { transfer with ret := err }
      else diskWriteLoop status command count (i + 1) (buf + sectorSize * (i + 1)) transfer

def returnedSize (size : UInt32) : Int :=
  if size.toNat < 2 ^ 31 then size.toNat else size.toNat - 2 ^ 32

/-- `disk_read`. -/
def diskRead (status : StatusRegister) (part : Option PartInfo) (addr : UInt32) (buf : Nat)
    (size : UInt32) (mem : Nat → UInt8) (contents : DiskContents) : Transfer :=
  match part with
  | none => ⟨-1, mem, contents, [], []⟩
  | some part =>
      match part.disk with
      | none => ⟨-2, mem, contents, [], []⟩
      | some drive =>
          let command := ataCmd drive (addr + part.sectorStart) size commandRead
          diskReadLoop status command size.toNat 0 buf
            ⟨returnedSize size, mem, contents, [command], []⟩

/-- `disk_write`. -/
def diskWrite (status : StatusRegister) (part : Option PartInfo) (addr : UInt32) (buf : Nat)
    (size : UInt32) (mem : Nat → UInt8) (contents : DiskContents) : Transfer :=
  match part with
  | none => ⟨-1, mem, contents, [], []⟩
  | some part =>
      match part.disk with
      | none => ⟨-2, mem, contents, [], []⟩
      | some drive =>
          let command := ataCmd drive (addr + part.sectorStart) size commandWrite
          diskWriteLoop status command size.toNat 0 buf
            ⟨returnedSize size, mem, contents, [command], []⟩

def StatusRegister.Fails (status : StatusRegister) (sector : Nat) : Prop :=
  status.last sector &&& statusErr ≠ 0

/-- A request lies in a partition, and its size in the sector count registers. -/
structure PartInfo.Covers (part : PartInfo) (addr size : UInt32) : Prop where
  inside : addr.toNat + size.toNat ≤ part.sectorCount.toNat
  count : size.toNat < 2 ^ 16

/-- A transfer does what it should, whatever is in memory and on the disk: what is moved for
each byte, where it may touch memory, which requests are rejected, and what a failing disk
leads to. -/
structure TransferRight (status : StatusRegister) (part : PartInfo) (addr : UInt32) (buf : Nat)
    (size : UInt32) (run : (Nat → UInt8) → DiskContents → Transfer)
    (moved : (Nat → UInt8) → DiskContents → Transfer → (k pos : Nat) → Prop) : Prop where
  moves : ∀ mem contents, 0 ≤ (run mem contents).ret → ∀ k < size.toNat, ∀ pos < sectorSize,
    moved mem contents (run mem contents) k pos
  inside : ∀ mem contents, 0 ≤ (run mem contents).ret → ∀ place ∈ (run mem contents).buffers,
    buf ≤ place ∧ place + sectorSize ≤ buf + sectorSize * size.toNat
  rejects : ¬ part.Covers addr size → ∀ mem contents, (run mem contents).ret < 0 ∧
    (run mem contents).commands = []
  fails : (∃ k < size.toNat, status.Fails k) → ∀ mem contents, (run mem contents).ret < 0

/-- `disk_read` stores sector `addr + k` of the partition at `buf + 512 * k`. -/
def ReadRight (status : StatusRegister) (part : PartInfo) (addr : UInt32) (buf : Nat)
    (size : UInt32) : Prop :=
  TransferRight status part addr buf size (diskRead status (some part) addr buf size)
    fun _ contents transfer k pos => transfer.mem (buf + sectorSize * k + pos) =
      contents.sectors (part.sectorStart.toNat + addr.toNat + k) pos

/-- `disk_write` writes the bytes from `buf + 512 * k` on to sector `addr + k` of the
partition. -/
def WriteRight (status : StatusRegister) (part : PartInfo) (addr : UInt32) (buf : Nat)
    (size : UInt32) : Prop :=
  TransferRight status part addr buf size (diskWrite status (some part) addr buf size)
    fun mem _ transfer k pos => transfer.disk.sectors
      (part.sectorStart.toNat + addr.toNat + k) pos = mem (buf + sectorSize * k + pos)

variable {status : StatusRegister} {part : PartInfo} {addr size : UInt32} {buf i count : Nat}
  {command : AtaCommand} {transfer : Transfer} {drive cmd : UInt8}

theorem ataWait_eq_zero (sector : Nat) : ataWait status sector = 0 ↔ ¬ status.Fails sector := by
  rw [StatusRegister.Fails, not_not, ← UInt8.toNat_inj]
  exact Int.natCast_eq_zero

theorem ataWait_nonneg (sector : Nat) : 0 ≤ ataWait status sector :=
  Int.natCast_nonneg _

theorem ataCmd_start (drive cmd : UInt8) (sectorStart sectorCount : UInt32) :
    (ataCmd drive sectorStart sectorCount cmd).start = sectorStart.toNat := by
  have bound := sectorStart.toNat_lt
  simp only [AtaCommand.start, ataCmd, UInt32.toNat_toUInt8, UInt32.toNat_shiftRight,
    Nat.shiftRight_eq_div_pow]
  change sectorStart.toNat % 256 + 256 * (sectorStart.toNat / 256 % 256) +
    65536 * (sectorStart.toNat / 65536 % 256) +
      16777216 * (sectorStart.toNat / 16777216 % 256) = _
  omega

theorem ataCmd_count (drive cmd : UInt8) (sectorStart : UInt32) {sectorCount : UInt32}
    (positive : 1 ≤ sectorCount.toNat) (small : sectorCount.toNat < 2 ^ 16) :
    (ataCmd drive sectorStart sectorCount cmd).count = sectorCount.toNat := by
  simp only [AtaCommand.count, ataCmd, UInt32.toNat_toUInt8, UInt32.toNat_shiftRight,
    Nat.shiftRight_eq_div_pow]
  change (if sectorCount.toNat % 256 + 256 * (sectorCount.toNat / 256 % 256) = 0 then _ else
    sectorCount.toNat % 256 + 256 * (sectorCount.toNat / 256 % 256)) = _
  rw [if_neg (by omega)]
  omega

theorem diskReadLoop_ret (positive : 0 ≤ transfer.ret) :
    0 ≤ (diskReadLoop status command count i buf transfer).ret := by
  induction count generalizing i buf transfer with
  | zero => exact positive
  | succ count ih =>
      rw [diskReadLoop]
      by_cases failed : ataWait status i ≠ 0
      · rw [if_pos failed]
        exact ataWait_nonneg i
      · rw [if_neg failed]
        exact ih positive

@[simp] theorem diskReadLoop_commands :
    (diskReadLoop status command count i buf transfer).commands = transfer.commands := by
  induction count generalizing i buf transfer with
  | zero => rfl
  | succ count ih =>
      rw [diskReadLoop]
      by_cases failed : ataWait status i ≠ 0
      · rw [if_pos failed]
      · rw [if_neg failed]
        exact ih

def pointerOffset : Nat → Nat
  | 0 => 0
  | k + 1 => pointerOffset k + sectorSize * (k + 1)

theorem le_pointerOffset (k : Nat) : sectorSize * (k + 3) ≤ pointerOffset (k + 2) := by
  induction k with
  | zero => decide
  | succ k ih =>
      rw [pointerOffset]
      simp only [sectorSize] at ih ⊢
      omega

theorem mem_buffers_diskReadLoop {place : Nat} (member : place ∈ transfer.buffers) :
    place ∈ (diskReadLoop status command count i buf transfer).buffers := by
  induction count generalizing i buf transfer with
  | zero => exact member
  | succ count ih =>
      rw [diskReadLoop]
      by_cases failed : ataWait status i ≠ 0
      · rw [if_pos failed]
        exact member
      · rw [if_neg failed]
        exact ih (List.mem_append_left _ member)

theorem diskReadLoop_buffers {base k : Nat} (noError : ∀ j < i + count, ataWait status j = 0)
    (inside : k < count) :
    base + pointerOffset (i + k) ∈
      (diskReadLoop status command count i (base + pointerOffset i) transfer).buffers := by
  induction count generalizing i k transfer with
  | zero => exact absurd inside (Nat.not_lt_zero _)
  | succ count ih =>
      rw [diskReadLoop, if_neg (not_not.mpr (noError i (by omega)))]
      cases k with
      | zero =>
          apply mem_buffers_diskReadLoop
          exact List.mem_append_right _ (List.mem_singleton_self _)
      | succ k =>
          have next : base + pointerOffset i + sectorSize * (i + 1) =
              base + pointerOffset (i + 1) := Nat.add_assoc _ _ _
          rw [next, show i + (k + 1) = i + 1 + k by omega]
          apply ih
          · intro j before
            exact noError j (by omega)
          · exact Nat.lt_of_succ_lt_succ inside

/-- The transfers that the driver does right. -/
structure Transferable (status : StatusRegister) (part : PartInfo) (addr size : UInt32) :
    Prop where
  inside : addr.toNat + size.toNat ≤ part.sectorCount.toNat
  start : part.sectorStart.toNat + addr.toNat < 2 ^ 32
  short : size.toNat ≤ 2
  noError : ∀ k < size.toNat, ¬ status.Fails k

theorem returnedSize_eq (small : size.toNat < 2 ^ 16) : returnedSize size = size.toNat := by
  rw [returnedSize, if_pos (by omega)]

theorem diskRead_some (hasDisk : part.disk = some drive) (mem : Nat → UInt8)
    (contents : DiskContents) :
    diskRead status (some part) addr buf size mem contents =
      diskReadLoop status (ataCmd drive (addr + part.sectorStart) size commandRead) size.toNat 0
        buf ⟨returnedSize size, mem, contents,
          [ataCmd drive (addr + part.sectorStart) size commandRead], []⟩ := by
  simp only [diskRead, hasDisk]

theorem diskWrite_some (hasDisk : part.disk = some drive) (mem : Nat → UInt8)
    (contents : DiskContents) :
    diskWrite status (some part) addr buf size mem contents =
      diskWriteLoop status (ataCmd drive (addr + part.sectorStart) size commandWrite) size.toNat
        0 buf ⟨returnedSize size, mem, contents,
          [ataCmd drive (addr + part.sectorStart) size commandWrite], []⟩ := by
  simp only [diskWrite, hasDisk]

theorem ataRead_inside {mem data : Nat → UInt8} {pos : Nat} (bound : pos < sectorSize) :
    ataRead mem buf data (buf + pos) = data pos := by
  rw [ataRead, if_pos ⟨Nat.le_add_right _ _, Nat.add_lt_add_left bound buf⟩,
    Nat.add_sub_cancel_left]

theorem ataRead_before {mem data : Nat → UInt8} {address : Nat} (before : address < buf) :
    ataRead mem buf data address = mem address :=
  if_neg fun inside => Nat.not_le.mpr before inside.1

theorem diskReadLoop_short (positive : 1 ≤ count) (short : count ≤ 2)
    (noError : ∀ k < count, ¬ status.Fails k) :
    (diskReadLoop status command count 0 buf transfer).ret = transfer.ret ∧
    (diskReadLoop status command count 0 buf transfer).buffers =
      transfer.buffers ++ (List.range count).map (fun k => buf + sectorSize * k) ∧
    ∀ k < count, ∀ pos < sectorSize,
      (diskReadLoop status command count 0 buf transfer).mem (buf + sectorSize * k + pos) =
        transfer.disk.transfer command k pos := by
  have first : ¬ ataWait status 0 ≠ 0 :=
    not_not.mpr ((ataWait_eq_zero 0).mpr (noError 0 positive))
  rcases Nat.le_iff_lt_or_eq.mp short with less | two
  · obtain rfl : count = 1 := by omega
    simp only [diskReadLoop, if_neg first]
    refine ⟨trivial, rfl, ?_⟩
    intro k inside pos bound
    obtain rfl : k = 0 := by omega
    exact ataRead_inside bound
  · subst two
    have second : ¬ ataWait status 1 ≠ 0 :=
      not_not.mpr ((ataWait_eq_zero 1).mpr (noError 1 (by decide)))
    simp only [diskReadLoop, if_neg first, Nat.zero_add, if_neg second]
    refine ⟨trivial, by rw [List.append_assoc]; rfl, ?_⟩
    intro k inside pos bound
    rcases Nat.le_one_iff_eq_zero_or_eq_one.mp (Nat.le_of_lt_succ inside) with rfl | rfl
    · rw [Nat.mul_zero, Nat.add_zero, ataRead_before (by omega)]
      exact ataRead_inside bound
    · exact ataRead_inside bound

theorem diskWriteLoop_short (positive : 1 ≤ count) (short : count ≤ 2)
    (noError : ∀ k < count, ¬ status.Fails k) (room : count ≤ command.count) :
    (diskWriteLoop status command count 0 buf transfer).ret = transfer.ret ∧
    (diskWriteLoop status command count 0 buf transfer).buffers =
      transfer.buffers ++ (List.range count).map (fun k => buf + sectorSize * k) ∧
    ∀ k < count, ∀ pos,
      (diskWriteLoop status command count 0 buf transfer).disk.sectors (command.start + k) pos =
        transfer.mem (buf + sectorSize * k + pos) := by
  have first : ¬ ataWait status 0 ≠ 0 :=
    not_not.mpr ((ataWait_eq_zero 0).mpr (noError 0 positive))
  have roomFirst : 0 < command.count := Nat.lt_of_lt_of_le positive room
  rcases Nat.le_iff_lt_or_eq.mp short with less | two
  · obtain rfl : count = 1 := by omega
    simp only [diskWriteLoop, if_neg first, DiskContents.accept, if_pos roomFirst]
    refine ⟨trivial, rfl, ?_⟩
    intro k inside pos
    obtain rfl : k = 0 := by omega
    rw [Function.update_self]
    rfl
  · subst two
    have second : ¬ ataWait status 1 ≠ 0 :=
      not_not.mpr ((ataWait_eq_zero 1).mpr (noError 1 (by decide)))
    have roomSecond : 1 < command.count := room
    simp only [diskWriteLoop, if_neg first, Nat.zero_add, if_neg second, DiskContents.accept,
      if_pos roomFirst, if_pos roomSecond]
    refine ⟨trivial, by rw [List.append_assoc]; rfl, ?_⟩
    intro k inside pos
    rcases Nat.le_one_iff_eq_zero_or_eq_one.mp (Nat.le_of_lt_succ inside) with rfl | rfl
    · rw [Function.update_of_ne (by omega), Function.update_self]
      rfl
    · rw [Function.update_self]
      rfl

namespace ReadRight

theorem covers (hasDisk : part.disk = some drive) (right : ReadRight status part addr buf size) :
    part.Covers addr size := by
  by_contra outside
  have sent := (right.rejects outside (fun _ => 0) ⟨fun _ _ => 0, fun _ _ => 0⟩).2
  rw [diskRead_some hasDisk, diskReadLoop_commands] at sent
  cases sent

theorem returns (hasDisk : part.disk = some drive) (right : ReadRight status part addr buf size)
    (mem : Nat → UInt8) (contents : DiskContents) :
    0 ≤ (diskRead status (some part) addr buf size mem contents).ret := by
  rw [diskRead_some hasDisk]
  apply diskReadLoop_ret
  rw [returnedSize_eq (right.covers hasDisk).count]
  exact Int.natCast_nonneg _

theorem noError (hasDisk : part.disk = some drive)
    (right : ReadRight status part addr buf size) : ∀ k < size.toNat, ¬ status.Fails k := by
  intro k inside failed
  have negative := right.fails ⟨k, inside, failed⟩ (fun _ => 0) ⟨fun _ _ => 0, fun _ _ => 0⟩
  exact Int.not_lt.mpr (right.returns hasDisk _ _) negative

theorem short (hasDisk : part.disk = some drive) (right : ReadRight status part addr buf size) :
    size.toNat ≤ 2 := by
  by_contra long
  obtain ⟨k, isSize⟩ : ∃ k, size.toNat = k + 3 := ⟨size.toNat - 3, by omega⟩
  have member := @diskReadLoop_buffers status 0 size.toNat
    (ataCmd drive (addr + part.sectorStart) size commandRead)
    ⟨returnedSize size, fun _ => 0, ⟨fun _ _ => 0, fun _ _ => 0⟩,
      [ataCmd drive (addr + part.sectorStart) size commandRead], []⟩ buf (k + 2)
    (fun j before => (ataWait_eq_zero j).mpr (right.noError hasDisk j (by omega))) (by omega)
  have bound := right.inside (fun _ => 0) ⟨fun _ _ => 0, fun _ _ => 0⟩
    (right.returns hasDisk _ _) (buf + pointerOffset (0 + (k + 2))) (by
      rw [diskRead_some hasDisk]
      exact member)
  have behind := le_pointerOffset k
  rw [isSize, Nat.zero_add] at bound
  simp only [sectorSize] at bound behind
  omega

theorem notWrapped (positive : 1 ≤ size.toNat) (hasDisk : part.disk = some drive)
    (right : ReadRight status part addr buf size) :
    part.sectorStart.toNat + addr.toNat < 2 ^ 32 := by
  by_contra wrapped
  let contents : DiskContents :=
    ⟨fun sector _ => if sector < 2 ^ 32 then 0 else 1, fun _ _ => 0⟩
  have moved := right.moves (fun _ => 0) contents (right.returns hasDisk _ _) 0 positive 0
    (by decide)
  have stored := (@diskReadLoop_short status buf size.toNat
    (ataCmd drive (addr + part.sectorStart) size commandRead)
    ⟨returnedSize size, fun _ => 0, contents,
      [ataCmd drive (addr + part.sectorStart) size commandRead], []⟩ positive
      (right.short hasDisk) (right.noError hasDisk)).2.2 0 positive 0 (by decide)
  rw [← diskRead_some hasDisk, moved, DiskContents.transfer, ataCmd_start,
    ataCmd_count drive commandRead _ positive (right.covers hasDisk).count,
    if_pos (Nat.lt_of_succ_le positive)] at stored
  have low := (addr + part.sectorStart).toNat_lt
  simp only [contents, Nat.add_zero, if_neg wrapped, if_pos low] at stored
  cases stored

end ReadRight

theorem transferable_of_readRight (positive : 1 ≤ size.toNat) (hasDisk : part.disk = some drive)
    (right : ReadRight status part addr buf size) : Transferable status part addr size :=
  ⟨(right.covers hasDisk).inside, right.notWrapped positive hasDisk, right.short hasDisk,
    right.noError hasDisk⟩

theorem addr_toNat (transferable : Transferable status part addr size) :
    (addr + part.sectorStart).toNat = part.sectorStart.toNat + addr.toNat := by
  rw [UInt32.toNat_add, Nat.add_comm addr.toNat]
  exact Nat.mod_eq_of_lt transferable.start

theorem transferRight_of_moves {run : (Nat → UInt8) → DiskContents → Transfer}
    {moved : (Nat → UInt8) → DiskContents → Transfer → (k pos : Nat) → Prop}
    (transferable : Transferable status part addr size)
    (buffers : ∀ mem contents, (run mem contents).buffers =
      [] ++ (List.range size.toNat).map fun k => buf + sectorSize * k)
    (moves : ∀ mem contents, ∀ k < size.toNat, ∀ pos < sectorSize,
      moved mem contents (run mem contents) k pos) :
    TransferRight status part addr buf size run moved := by
  have short := transferable.short
  constructor
  · intro mem contents _
    exact moves mem contents
  · intro mem contents _ place member
    rw [buffers, List.nil_append, List.mem_map] at member
    obtain ⟨k, isIndex, rfl⟩ := member
    have inside := List.mem_range.mp isIndex
    simp only [sectorSize]
    omega
  · intro outside
    exact absurd ⟨transferable.inside, by omega⟩ outside
  · rintro ⟨k, inside, failed⟩
    exact absurd failed (transferable.noError k inside)

theorem readRight_of_transferable (positive : 1 ≤ size.toNat) (hasDisk : part.disk = some drive)
    (transferable : Transferable status part addr size) :
    ReadRight status part addr buf size := by
  have short := transferable.short
  have done : ∀ mem contents, _ := fun mem contents =>
    @diskReadLoop_short status buf size.toNat
      (ataCmd drive (addr + part.sectorStart) size commandRead)
      ⟨returnedSize size, mem, contents,
        [ataCmd drive (addr + part.sectorStart) size commandRead], []⟩ positive short
      transferable.noError
  apply transferRight_of_moves transferable
  · intro mem contents
    rw [diskRead_some hasDisk]
    exact (done mem contents).2.1
  · intro mem contents k inside pos bound
    rw [diskRead_some hasDisk, (done mem contents).2.2 k inside pos bound, DiskContents.transfer,
      ataCmd_start, ataCmd_count drive commandRead _ positive (by omega), if_pos inside,
      addr_toNat transferable]

theorem writeRight_of_transferable (positive : 1 ≤ size.toNat)
    (hasDisk : part.disk = some drive) (transferable : Transferable status part addr size) :
    WriteRight status part addr buf size := by
  have short := transferable.short
  have isCount := ataCmd_count drive commandWrite (addr + part.sectorStart) positive (by omega)
  have done : ∀ mem contents, _ := fun mem contents =>
    @diskWriteLoop_short status buf size.toNat
      (ataCmd drive (addr + part.sectorStart) size commandWrite)
      ⟨returnedSize size, mem, contents,
        [ataCmd drive (addr + part.sectorStart) size commandWrite], []⟩ positive short
      transferable.noError (Nat.le_of_eq isCount.symm)
  apply transferRight_of_moves transferable
  · intro mem contents
    rw [diskWrite_some hasDisk]
    exact (done mem contents).2.1
  · intro mem contents k inside pos bound
    have written := (done mem contents).2.2 k inside pos
    rw [ataCmd_start, addr_toNat transferable] at written
    rw [diskWrite_some hasDisk]
    exact written

theorem transferRight_of_none {run : (Nat → UInt8) → DiskContents → Transfer}
    {moved : (Nat → UInt8) → DiskContents → Transfer → (k pos : Nat) → Prop}
    (refused : ∀ mem contents, run mem contents = ⟨-2, mem, contents, [], []⟩) :
    TransferRight status part addr buf size run moved := by
  have negative : ∀ mem contents, (run mem contents).ret < 0 := by
    intro mem contents
    rw [refused]
    exact (by decide : (-2 : Int) < 0)
  constructor
  · intro mem contents returned
    exact absurd (negative mem contents) (Int.not_lt.mpr returned)
  · intro mem contents returned
    exact absurd (negative mem contents) (Int.not_lt.mpr returned)
  · intro _ mem contents
    exact ⟨negative mem contents, by rw [refused]⟩
  · intro _
    exact negative

/-- Transfers are right exactly when there is no disk, or when they are of at most two sectors
inside the partition, at addresses of 32 bits, and the disk reports no error. -/
theorem diskTransfer_iff (status : StatusRegister) (part : PartInfo) (addr : UInt32) (buf : Nat)
    (size : UInt32) (positive : 1 ≤ size.toNat) :
    ReadRight status part addr buf size ∧ WriteRight status part addr buf size ↔
      part.disk = none ∨ Transferable status part addr size := by
  cases hasDisk : part.disk with
  | none =>
      refine iff_of_true ⟨?_, ?_⟩ (Or.inl rfl)
      · apply transferRight_of_none
        intro mem contents
        simp only [diskRead, hasDisk]
      · apply transferRight_of_none
        intro mem contents
        simp only [diskWrite, hasDisk]
  | some drive =>
      constructor
      · rintro ⟨reads, -⟩
        exact Or.inr (transferable_of_readRight positive hasDisk reads)
      · rintro (none | transferable)
        · cases none
        · exact ⟨readRight_of_transferable positive hasDisk transferable,
            writeRight_of_transferable positive hasDisk transferable⟩

def readyStatus : StatusRegister where
  polls := fun _ _ => 0x58
  ends := fun _ => ⟨0, by decide⟩

theorem readyStatus_noError (k : Nat) : ¬ readyStatus.Fails k := by
  intro failed
  exact failed (by decide : (0x58 : UInt8) &&& statusErr = 0)

theorem diskTransfer_two :
    ReadRight readyStatus ⟨2048, 100000, some 0⟩ 16 0x400000 2 ∧
      WriteRight readyStatus ⟨2048, 100000, some 0⟩ 16 0x400000 2 :=
  (diskTransfer_iff readyStatus ⟨2048, 100000, some 0⟩ 16 0x400000 2 (by decide)).mpr
    (Or.inr ⟨by decide, by decide, by decide, fun k _ => readyStatus_noError k⟩)

/-- The third of three sectors is stored behind the buffer. -/
theorem diskTransfer_three :
    ¬ (ReadRight readyStatus ⟨2048, 100000, some 0⟩ 16 0x400000 3 ∧
      WriteRight readyStatus ⟨2048, 100000, some 0⟩ 16 0x400000 3) := by
  rintro ⟨reads, -⟩
  have short := (transferable_of_readRight (by decide) rfl reads).short
  exact absurd short (by decide)

end CleanOS.Device
