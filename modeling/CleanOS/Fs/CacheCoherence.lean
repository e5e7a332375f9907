import CleanOS.Fs.SectorCache
import Mathlib.Tactic.SplitIfs

/-!
# Coherence of the sector cache

`buf_read` returns what is on the disk as long as it does not serve a buffer that an operation
of the device has failed on, or take the answer of a failed operation for success.
-/

namespace CleanOS.Fs

open CleanOS.Lib

/-- The buffer holds the sectors from `sectorStart` on. -/
def HoldsSectors (buf : Nat → UInt8) (disk : Nat → Nat → UInt8) (sectorStart size : UInt32) :
    Prop :=
  ∀ idx < size.toNat, ∀ pos < sectorSize,
    buf (sectorSize * idx + pos) = disk (sectorStart.toNat + idx) pos

def Request.Coherent (request : Request) : Prop :=
  HoldsSectors request.cacheBuf request.disk request.sectorStart request.size

/-- A hit comes only if every operation since the buffer was filled succeeded, a miss is
answered without an error that looks like success, and at most two sectors are read. -/
def Request.Safe (request : Request) : Prop :=
  if request.hit then request.trusted = true
  else
    match request.outcome with
    | .ok => request.size ≤ 2
    | .refused code => code ≤ 0
    | .broken code _ _ => code ≤ 0

theorem size_cases {size : UInt32} (small : size ≤ 2) :
    size.toNat = 0 ∨ size.toNat = 1 ∨ size.toNat = 2 := by
  have bound : size.toNat ≤ 2 := UInt32.le_iff_toNat_le.mp small
  omega

theorem holdsSectors_readSectors {size : UInt32} (small : size ≤ 2)
    (disk : Nat → Nat → UInt8) (buf : Nat → UInt8) (sectorStart : UInt32) :
    HoldsSectors (readSectors disk sectorStart.toNat size.toNat 0 0 buf) disk sectorStart
      size := by
  intro idx inside pos within
  rcases size_cases small with none | one | two
  · omega
  · have first : idx = 0 := by omega
    rw [one, first]
    dsimp only [readSectors]
    rw [if_pos (by omega), (by omega : sectorSize * 0 + pos - 0 = pos)]
  · rw [two]
    dsimp only [readSectors]
    rcases (by omega : idx = 0 ∨ idx = 1) with first | second
    · rw [first, if_neg (by omega), if_pos (by omega),
        (by omega : sectorSize * 0 + pos - 0 = pos)]
    · rw [second, if_pos (by omega),
        (by omega : sectorSize * 1 + pos - (0 + sectorSize * (0 + 1)) = pos)]

theorem holdsSectors_writeSectors {size : UInt32} (small : size ≤ 2)
    (disk : Nat → Nat → UInt8) (buf : Nat → UInt8) (sectorStart : UInt32) :
    HoldsSectors buf (writeSectors buf sectorStart.toNat size.toNat 0 0 disk) sectorStart
      size := by
  intro idx inside pos within
  rcases size_cases small with none | one | two
  · omega
  · have first : idx = 0 := by omega
    rw [one, first]
    dsimp only [writeSectors]
    rw [Function.update_self, if_pos within, Nat.mul_zero]
  · rw [two]
    dsimp only [writeSectors]
    rcases (by omega : idx = 0 ∨ idx = 1) with first | second
    · rw [first, Function.update_of_ne (by omega), Function.update_self, if_pos within,
        Nat.mul_zero]
    · rw [second, Function.update_self, if_pos within, Nat.zero_add]

theorem writeSectors_one_of_ne {buf : Nat → UInt8} {disk : Nat → Nat → UInt8}
    {sectorStart sector : Nat} (different : sector ≠ sectorStart) :
    writeSectors buf sectorStart 1 0 0 disk sector = disk sector := by
  dsimp only [writeSectors]
  exact Function.update_of_ne different _ _

namespace SectorCache

def AllSafe (cache : SectorCache) : Prop :=
  ∀ request ∈ cache.requests, request.Safe

/-- With safe requests only, a buffer that is trusted holds the sectors of the tag, and the
requests that returned zero got what was on the disk. -/
structure Sound (cache : SectorCache) : Prop where
  fatCount : cache.bpb.fatCount = 2
  sectorsPerFat : cache.bpb.sectorsPerFat < 65536
  tagged : cache.AllSafe → cache.trusted = true → cache.cacheSectorSize ≤ 2 ∧
    HoldsSectors cache.cacheBuf cache.disk cache.cacheSectorStart cache.cacheSectorSize
  coherent : cache.AllSafe → ∀ request ∈ cache.requests, request.returned = 0 →
    request.Coherent

variable {outcome : Nat → Outcome} {cache : SectorCache}

theorem AllSafe.of_append {requests : List Request} {request : Request}
    (safe : ∀ other ∈ requests ++ [request], other.Safe) :
    (∀ other ∈ requests, other.Safe) ∧ request.Safe :=
  ⟨fun other inside => safe other (List.mem_append_left _ inside),
    safe request (List.mem_append_right _ List.mem_cons_self)⟩

theorem Sound.record (sound : cache.Sound) {after : SectorCache} {request : Request}
    (sameBpb : after.bpb = cache.bpb)
    (recorded : after.requests = cache.requests ++ [request])
    (tagged : cache.AllSafe → request.Safe → after.trusted = true →
      after.cacheSectorSize ≤ 2 ∧
        HoldsSectors after.cacheBuf after.disk after.cacheSectorStart after.cacheSectorSize)
    (coherent : cache.AllSafe → request.Safe → request.returned = 0 → request.Coherent) :
    after.Sound where
  fatCount := sameBpb ▸ sound.fatCount
  sectorsPerFat := sameBpb ▸ sound.sectorsPerFat
  tagged := by
    intro safe trusted
    rw [AllSafe, recorded] at safe
    have both := AllSafe.of_append safe
    exact tagged both.1 both.2 trusted
  coherent := by
    intro safe other inside returned
    rw [AllSafe, recorded] at safe
    have both := AllSafe.of_append safe
    rw [recorded] at inside
    rcases List.mem_append.mp inside with old | new
    · exact sound.coherent both.1 other old returned
    · rw [List.mem_singleton.mp new] at returned ⊢
      exact coherent both.1 both.2 returned

/-- A request that returns zero leaves its sectors under the tag, and the buffer trusted if it
was safe. -/
structure Served (cache : SectorCache) (sectorStart size : UInt32) : Prop where
  start_eq : cache.cacheSectorStart = sectorStart
  size_eq : cache.cacheSectorSize = size
  trusted : cache.AllSafe → cache.trusted = true

theorem bufRead_spec (outcome : Nat → Outcome) (sound : cache.Sound) (sectorStart size : UInt32) :
    (cache.bufRead outcome sectorStart size).1.Sound ∧
      (cache.bufRead outcome sectorStart size).1.bpb = cache.bpb ∧
      ((cache.bufRead outcome sectorStart size).2 = 0 →
        Served (cache.bufRead outcome sectorStart size).1 sectorStart size) := by
  unfold bufRead
  dsimp only
  split
  next isHit =>
    obtain ⟨rfl, rfl⟩ := isHit
    refine ⟨sound.record rfl rfl (fun safe _ => sound.tagged safe) ?_, rfl, fun _ => ⟨rfl, rfl, ?_⟩⟩
    · intro safe isSafe _
      exact (sound.tagged safe isSafe).2
    · intro safe
      exact (AllSafe.of_append safe).2
  next isMiss =>
    cases answer : outcome cache.operations with
    | ok =>
        dsimp only
        split
        next positive =>
          have notZero : size ≠ 0 := by
            rintro rfl
            cases positive
          have holds (small : size ≤ 2) := holdsSectors_readSectors small cache.disk
            cache.cacheBuf sectorStart
          refine ⟨sound.record rfl rfl ?_ ?_, rfl, fun _ => ⟨rfl, rfl, ?_⟩⟩
          · exact fun _ small _ => ⟨small, holds small⟩
          · exact fun _ small _ => holds small
          · intro _
            show (cache.trusted || decide (size ≠ 0)) = true
            rw [decide_eq_true notZero, Bool.or_true]
        next zero =>
          have isZero : size.toNat = 0 := by omega
          have none : size = 0 := UInt32.toNat_inj.mp isZero
          refine ⟨sound.record rfl rfl ?_ ?_, rfl, fun returned => by cases returned⟩
          · intro safe _ trusted
            dsimp only at trusted ⊢
            rw [none] at trusted ⊢
            rw [decide_eq_false (not_not_intro rfl), Bool.or_false] at trusted
            exact sound.tagged safe trusted
          · intro _ _ returned
            cases returned
    | refused code =>
        dsimp only
        split
        next positive =>
          refine ⟨sound.record rfl rfl ?_ ?_, rfl, fun _ => ⟨rfl, rfl, ?_⟩⟩
          · exact fun _ isSafe _ => absurd positive (Int.not_lt.mpr isSafe)
          · exact fun _ isSafe _ => absurd positive (Int.not_lt.mpr isSafe)
          · intro safe
            exact absurd positive (Int.not_lt.mpr (AllSafe.of_append safe).2)
        next negative =>
          refine ⟨sound.record rfl rfl (fun safe _ => sound.tagged safe) ?_, rfl,
            fun returned => by cases returned⟩
          intro _ _ returned
          cases returned
    | broken code buffer sectors =>
        dsimp only
        split
        next positive =>
          refine ⟨sound.record rfl rfl ?_ ?_, rfl, fun _ => ⟨rfl, rfl, ?_⟩⟩
          · exact fun _ isSafe _ => absurd positive (Int.not_lt.mpr isSafe)
          · exact fun _ isSafe _ => absurd positive (Int.not_lt.mpr isSafe)
          · intro safe
            exact absurd positive (Int.not_lt.mpr (AllSafe.of_append safe).2)
        next negative =>
          refine ⟨sound.record rfl rfl ?_ ?_, rfl, fun returned => by cases returned⟩
          · intro _ _ trusted
            cases trusted
          · intro _ _ returned
            cases returned

structure SameTag (before after : SectorCache) : Prop where
  bpb_eq : after.bpb = before.bpb
  start_eq : after.cacheSectorStart = before.cacheSectorStart
  size_eq : after.cacheSectorSize = before.cacheSectorSize

theorem Sound.writeBack (outcome : Nat → Outcome) (sound : cache.Sound) {sectorStart size : UInt32}
    (served : cache.Served sectorStart size) (buf : Nat → UInt8) :
    ({ cache with cacheBuf := buf }.bufWrite outcome sectorStart size).1.Sound ∧
      SameTag cache ({ cache with cacheBuf := buf }.bufWrite outcome sectorStart size).1 := by
  refine ⟨⟨sound.fatCount, sound.sectorsPerFat, ?_, sound.coherent⟩, rfl, rfl, rfl⟩
  intro safe trusted
  have small := (sound.tagged safe (served.trusted safe)).1
  refine ⟨small, ?_⟩
  obtain ⟨rfl, rfl, _⟩ := served
  unfold bufWrite at trusted ⊢
  dsimp only at trusted ⊢
  cases answer : outcome cache.operations with
  | ok => exact holdsSectors_writeSectors small cache.disk buf cache.cacheSectorStart
  | refused code =>
      rw [answer] at trusted
      dsimp only at trusted
      rw [decide_eq_true rfl, Bool.and_true, Bool.not_true, Bool.and_false] at trusted
      cases trusted
  | broken code buffer sectors =>
      rw [answer] at trusted
      dsimp only at trusted
      rw [decide_eq_true rfl, Bool.and_true, Bool.not_true, Bool.and_false] at trusted
      cases trusted

theorem Sound.writeOther (sound : cache.Sound) {other : UInt32}
    (single : cache.cacheSectorSize = 1) (different : other ≠ cache.cacheSectorStart) :
    (cache.bufWrite outcome other 1).1.Sound ∧
      SameTag cache (cache.bufWrite outcome other 1).1 := by
  have kept (disk : Nat → Nat → UInt8)
      (others : ∀ sector, sector ≠ other.toNat → disk sector = cache.disk sector)
      (holds : HoldsSectors cache.cacheBuf cache.disk cache.cacheSectorStart
        cache.cacheSectorSize) :
      HoldsSectors cache.cacheBuf disk cache.cacheSectorStart cache.cacheSectorSize := by
    intro idx inside pos within
    rw [others, holds idx inside pos within]
    rw [single] at inside
    have first : idx = 0 := Nat.lt_one_iff.mp inside
    rw [first, Nat.add_zero]
    exact fun same => different (UInt32.toNat_inj.mp same).symm
  refine ⟨⟨sound.fatCount, sound.sectorsPerFat, ?_, sound.coherent⟩, rfl, rfl, rfl⟩
  intro safe trusted
  have stillTrusted : cache.trusted = true := by
    unfold bufWrite at trusted
    dsimp only at trusted
    exact (Bool.and_eq_true_iff.mp trusted).1
  obtain ⟨small, holds⟩ := sound.tagged safe stillTrusted
  refine ⟨small, ?_⟩
  unfold bufWrite
  dsimp only
  cases outcome cache.operations with
  | ok => exact kept _ (fun sector => writeSectors_one_of_ne) holds
  | refused code => exact holds
  | broken code buffer sectors =>
      refine kept _ (fun sector outside => ?_) holds
      dsimp only
      rw [if_neg]
      show ¬ (other.toNat ≤ sector ∧ sector < other.toNat + 1)
      omega

theorem readDirEntry_sound (sound : cache.Sound) {sectorStart : UInt32} {idx : Int}
    {result : SectorCache × Option Nat}
    (read : cache.readDirEntry outcome sectorStart idx = some result) : result.1.Sound := by
  unfold readDirEntry at read
  split at read
  next =>
    cases read
    exact sound
  next =>
    split at read
    next => cases read
    next =>
      have spec := bufRead_spec outcome sound
        (sectorStart + UInt32.ofNat (dirEntrySize * idx.toNat / cache.bpb.bytesPerSector)) 1
      dsimp only at read
      split at read
      next after isRead =>
        cases read
        rw [isRead] at spec
        exact spec.1
      next after err _ isRead =>
        cases read
        rw [isRead] at spec
        exact spec.1

theorem writeDirEntry_sound (sound : cache.Sound) {entry : Nat → UInt8} {sectorRoot : UInt32}
    {idx : Int} {result : SectorCache × Int}
    (written : cache.writeDirEntry outcome entry sectorRoot idx = some result) :
    result.1.Sound := by
  unfold writeDirEntry at written
  split at written
  next =>
    cases written
    exact sound
  next =>
    split at written
    next => cases written
    next =>
      dsimp only at written
      obtain ⟨readSound, _, served⟩ := bufRead_spec outcome sound
        (UInt32.ofNat (dirEntrySize * idx.toNat / cache.bpb.bytesPerSector) + sectorRoot) 1
      split at written
      next =>
        cases written
        exact readSound
      next noError =>
        cases written
        exact (readSound.writeBack outcome (served (not_not.mp noError)) _).1

theorem nextTable_ne {sectorStart : UInt32} {sectorsPerFat : Nat} (positive : 0 < sectorsPerFat)
    (small : sectorsPerFat < 65536) :
    sectorStart + UInt32.ofNat (1 * sectorsPerFat) ≠ sectorStart := by
  intro same
  have isZero : UInt32.ofNat (1 * sectorsPerFat) = 0 := by
    rwa [← UInt32.add_zero sectorStart, UInt32.add_assoc, UInt32.add_right_inj,
      UInt32.zero_add] at same
  have value := congrArg UInt32.toNat isZero
  rw [UInt32.toNat_ofNat_of_lt' (by show _ < 4294967296; omega)] at value
  have zero : (0 : UInt32).toNat = 0 := rfl
  omega

theorem Sound.writeTables (sound : cache.Sound) {sectorStart : UInt32}
    (served : cache.Served sectorStart 1) (positive : 0 < cache.bpb.sectorsPerFat)
    (buf : Nat → UInt8) :
    ({ cache with cacheBuf := buf }.writeTables outcome sectorStart).Sound := by
  have first : sectorStart + UInt32.ofNat (0 * cache.bpb.sectorsPerFat) = sectorStart := by
    rw [Nat.zero_mul]
    exact UInt32.add_zero sectorStart
  obtain ⟨backSound, backTag⟩ := sound.writeBack outcome served buf
  unfold SectorCache.writeTables
  rw [sound.fatCount]
  show ((({ cache with cacheBuf := buf }.bufWrite outcome
    (sectorStart + UInt32.ofNat (0 * cache.bpb.sectorsPerFat)) 1).1).bufWrite outcome
    (sectorStart + UInt32.ofNat (1 * cache.bpb.sectorsPerFat)) 1).1.Sound
  rw [first]
  refine (backSound.writeOther (backTag.size_eq.trans served.size_eq) ?_).1
  rw [backTag.start_eq, served.start_eq]
  exact nextTable_ne positive sound.sectorsPerFat

theorem setCluster_sound (sound : cache.Sound) {cur next : UInt16}
    {result : SectorCache × Int} (set : cache.setCluster outcome cur next = some result) :
    result.1.Sound := by
  unfold setCluster at set
  split at set
  next =>
    cases set
    exact sound
  next =>
    split at set
    next => cases set
    next =>
      dsimp only at set
      split at set
      next =>
        cases set
        exact sound
      next inTable =>
        obtain ⟨readSound, sameBpb, served⟩ := bufRead_spec outcome sound
          (UInt32.ofNat (cache.bpb.reservedSectorCount +
            cur.toNat * 2 / cache.bpb.bytesPerSector)) 1
        split at set
        next =>
          cases set
          exact readSound
        next noError =>
          cases set
          refine readSound.writeTables (served (not_not.mp noError)) ?_ _
          rw [sameBpb]
          exact Nat.lt_of_le_of_lt (Nat.zero_le _) (Nat.not_le.mp inTable)

theorem getNextCluster_sound (sound : cache.Sound) {cur : UInt16}
    {result : SectorCache × UInt16} (got : cache.getNextCluster outcome cur = some result) :
    result.1.Sound := by
  unfold getNextCluster at got
  split at got
  next => cases got
  next =>
    dsimp only at got
    split at got
    next =>
      cases got
      exact sound
    next =>
      have spec := bufRead_spec outcome sound (UInt32.ofNat (cache.bpb.reservedSectorCount +
        cur.toNat * 2 / cache.bpb.bytesPerSector)) 1
      split at got
      next after isRead =>
        cases got
        rw [isRead] at spec
        exact spec.1
      next after err _ isRead =>
        cases got
        rw [isRead] at spec
        exact spec.1

theorem copyStep_sound (outcome : Nat → Outcome) (sound : cache.Sound) {sectorStart size : UInt32}
    (served : cache.Served sectorStart size) (isWrite : Bool) (buf : Nat → UInt8)
    (clusterOffset stepSize totalSize : UInt32) :
    (copyStep outcome cache isWrite buf sectorStart size clusterOffset stepSize
      totalSize).1.Sound := by
  unfold copyStep
  cases isWrite with
  | true => exact (sound.writeBack outcome served _).1
  | false => exact sound

theorem fileLoop_sound (isWrite : Bool) (fuel : Nat) {cache : SectorCache} (sound : cache.Sound)
    {file : FilePosition} {buf : Nat → UInt8} {size totalSize : UInt32}
    {result : SectorCache × FilePosition × (Nat → UInt8) × UInt32}
    (ran : fileLoop outcome isWrite fuel cache file buf size totalSize = some result) :
    result.1.Sound := by
  induction fuel generalizing cache file buf size totalSize with
  | zero =>
      cases ran
      exact sound
  | succ fuel ih =>
      unfold fileLoop at ran
      dsimp only at ran
      split at ran
      next =>
        cases ran
        exact sound
      next =>
        split at ran
        next => cases ran
        next =>
          obtain ⟨readSound, sameBpb, served⟩ := bufRead_spec outcome sound
            (dataSectorIdx cache.bpb +
              (file.blockCur - 2) * UInt32.ofNat cache.bpb.sectorsPerCluster)
            (UInt32.ofNat cache.bpb.sectorsPerCluster)
          split at ran
          next =>
            cases ran
            exact readSound
          next noError =>
            have copied := copyStep_sound outcome readSound (served (not_not.mp noError))
              isWrite buf
            generalize movedEq : copyStep outcome _ isWrite buf _ _ _ _ totalSize = moved at ran
            have movedSound : moved.1.Sound := movedEq ▸ copied _ _ _
            split at ran
            next =>
              cases ran
              exact movedSound
            next =>
              split at ran
              next =>
                obtain ⟨⟨after, next⟩, gotNext, later⟩ := Option.bind_eq_some_iff.mp ran
                exact ih (getNextCluster_sound movedSound gotNext) later
              next => exact ih movedSound ran

theorem step_sound (sound : cache.Sound) {call : CacheCall} {after : SectorCache}
    (stepped : cache.step outcome call = some ((), after)) : after.Sound := by
  cases call with
  | bufRead sectorStart size =>
      cases stepped
      exact (bufRead_spec outcome sound sectorStart size).1
  | readDirEntry sectorStart idx =>
      obtain ⟨result, read, same⟩ := Option.map_eq_some_iff.mp stepped
      cases same
      exact readDirEntry_sound sound read
  | writeDirEntry entry sectorRoot idx =>
      obtain ⟨result, written, same⟩ := Option.map_eq_some_iff.mp stepped
      cases same
      exact writeDirEntry_sound sound written
  | setCluster cur next =>
      obtain ⟨result, set, same⟩ := Option.map_eq_some_iff.mp stepped
      cases same
      exact setCluster_sound sound set
  | fileOperate file buf size isWrite =>
      obtain ⟨result, operated, same⟩ := Option.map_eq_some_iff.mp stepped
      cases same
      exact fileLoop_sound isWrite _ sound operated

theorem wordAt_lt (bytes : Nat → UInt8) (offset : Nat) : wordAt bytes offset < 65536 := by
  have low := (bytes offset).toNat_lt
  have high := (bytes (offset + 1)).toNat_lt
  rw [wordAt]
  omega

theorem ofBootSector_sound {disk : Nat → Nat → UInt8} {page : Nat → UInt8}
    (mounted : ofBootSector disk page = some cache) : cache.Sound := by
  unfold ofBootSector at mounted
  split at mounted
  next isValid =>
    have twoTables : page 16 = 2 := by
      simp only [validateBpb, Bool.and_eq_true, decide_eq_true_eq] at isValid
      exact isValid.1.1.1.1.1
    cases mounted
    refine ⟨congrArg UInt8.toNat twoTables, wordAt_lt page 22, ?_,
      fun _ _ inside => absurd inside List.not_mem_nil⟩
    intro _ trusted
    cases trusted
  next => cases mounted

theorem mount_sound {disk : Nat → Nat → UInt8} {page : Nat → UInt8}
    (mounted : mount outcome disk page = some cache) : cache.Sound := by
  unfold mount at mounted
  split at mounted
  next => exact ofBootSector_sound mounted
  next =>
    split at mounted
    next => cases mounted
    next => exact ofBootSector_sound mounted
  next =>
    split at mounted
    next => cases mounted
    next => exact ofBootSector_sound mounted

/-- Whenever `buf_read` returns zero, the buffer holds what is on the disk, in every sequence of
calls on a mounted volume whose requests are all safe. -/
theorem coherent_of_safe {disk : Nat → Nat → UInt8} {page : Nat → UInt8}
    {start final : SectorCache} (mounted : mount outcome disk page = some start)
    (calls : List CacheCall) (ran : runAll (step outcome) start calls = some final)
    (safe : ∀ request ∈ final.requests, request.Safe) :
    ∀ request ∈ final.requests, request.returned = 0 → request.Coherent := by
  have sound : final.Sound :=
    runAll_invariant (fun sound stepped => step_sound sound stepped) calls
      (mount_sound mounted) ran
  exact sound.coherent safe

/-- A disk with a boot sector and nothing else: sectors of 512 bytes, one to a cluster, one
reserved sector, two tables of one sector, and sixteen entries in the root directory. -/
def sampleDisk : Nat → Nat → UInt8
  | 0, pos => [(12, 2), (13, 1), (14, 1), (16, 2), (17, 16), (22, 1), (54, 0x46), (55, 0x41),
      (56, 0x54), (57, 0x31), (58, 0x36)].lookup pos |>.getD 0
  | _, _ => 0

def secondFails : Nat → Outcome
  | 2 => .refused (-1)
  | _ => .ok

def writeThenRead : List CacheCall :=
  [.writeDirEntry (fun _ => 0x41) 3 0, .bufRead 3 1]

def sampleCache : SectorCache where
  bpb :=
    { bytesPerSector := 512, sectorsPerCluster := 1, reservedSectorCount := 1, fatCount := 2
      rootEntryCount := 16, sectorsPerFat := 1 }
  disk := sampleDisk
  cacheSectorStart := 0
  cacheSectorSize := 0
  cacheBuf := fun pos => readSectors sampleDisk 0 1 0 0 (fun _ => 0) (86 + pos)
  operations := 1
  trusted := false
  requests := []

set_option maxRecDepth 8192 in
theorem mount_sampleDisk {outcome : Nat → Outcome} (works : outcome 0 = .ok) :
    mount outcome sampleDisk (fun _ => 0) = some sampleCache := by
  unfold mount
  rw [works]
  rfl

set_option maxRecDepth 8192 in
theorem coherent_after_write :
    ∃ final, runAll (step fun _ => .ok) sampleCache writeThenRead = some final ∧
      ∀ request ∈ final.requests, request.returned = 0 → request.Coherent := by
  obtain ⟨final, ran⟩ : ∃ final,
      runAll (step fun _ => .ok) sampleCache writeThenRead = some final := ⟨_, rfl⟩
  refine ⟨final, ran, coherent_of_safe (mount_sampleDisk rfl) writeThenRead ran ?_⟩
  cases ran
  show ∀ request ∈ [_, _], Request.Safe request
  intro request inside
  rcases List.mem_cons.mp inside with rfl | second
  · exact (by decide : (1 : UInt32) ≤ 2)
  · rw [List.mem_singleton.mp second]
    rfl

set_option maxRecDepth 8192 in
/-- The sector is served from the cache after the write to the device has failed. -/
theorem stale_after_failed_write :
    mount secondFails sampleDisk (fun _ => 0) = some sampleCache ∧
      ∃ final, runAll (step secondFails) sampleCache writeThenRead = some final ∧
        ∃ request ∈ final.requests, request.returned = 0 ∧ ¬ request.Coherent := by
  refine ⟨mount_sampleDisk rfl, _, rfl, _, List.mem_cons_of_mem _ List.mem_cons_self, rfl, ?_⟩
  intro coherent
  exact absurd (coherent 0 (by decide) 0 (by decide)) (by decide)

end SectorCache

end CleanOS.Fs
