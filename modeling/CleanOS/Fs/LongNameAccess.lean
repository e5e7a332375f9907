import CleanOS.Fs.LongNames

/-!
# The memory that reading long file names uses

Every access of `handle_lfn_entry` and `from_lfn` of `kernel/fs/fat16fs.c` to `lfn_buf`, to
`check_sums` and to the buffer for the name, whatever the directory holds.  What is written outside
a buffer is not seen in it again.
-/

namespace CleanOS.Fs

/-- An access to a buffer, at a byte counted from its beginning. -/
inductive LfnAccess where
  | writeLfnBuf (pos : Int)
  | writeCheckSums (pos : Int)
  | readLfnBuf (pos : Nat)
  | writeName (pos : Nat)

/-- `lfn_count`. -/
def lfnCount : Nat := 9

/-- The access stays in its buffer, where the buffer for the name has `nameSize` bytes. -/
def LfnAccess.Inside (nameSize : Nat) : LfnAccess → Prop
  | writeLfnBuf pos => 0 ≤ pos ∧ pos < lfnBufSize
  | writeCheckSums pos => 0 ≤ pos ∧ pos < lfnCount
  | readLfnBuf pos => pos < lfnBufSize
  | writeName pos => pos < nameSize

/-- `memcpy` to a place that may lie before the buffer. -/
def storeAt (buf : Nat → UInt8) (start : Int) (count : Nat) (src : Nat → UInt8) : Nat → UInt8 :=
  fun pos => if start ≤ pos ∧ pos < start + count then src (pos - start).toNat else buf pos

/-- The accesses of `memcpy` to `lfn_buf`. -/
def storeAccesses (start : Int) (count : Nat) : List LfnAccess :=
  (List.range count).map fun pos : Nat => .writeLfnBuf (start + pos)

/-- The loop of `handle_lfn_entry` from the entry `i` on, where `entryAt` is what `read_dir_entry`
returns: the accesses, the index and `lfn_buf`.  The comma in its condition leaves only the number
of entries in the directory as a bound, of which `left` are left. -/
def lfnAccesses (entryAt : Nat → Option LongNameDirEntry) :
    (left j i : Nat) → (Nat → UInt8) → List LfnAccess × Nat × (Nat → UInt8)
  | 0, _, i, lfnBuf => ([], i, lfnBuf)
  | left + 1, j, i, lfnBuf =>
      match entryAt i with
      | none => ([], i, lfnBuf)
      | some lfnEntry =>
          if lfnEntry.attr ≠ dirEntryAttrLfn then ([], i, lfnBuf)
          else
            let order : Int := (lfnEntry.order &&& 0x1f).toNat - 1
            let accesses := storeAccesses (26 * order) 10 ++ storeAccesses (26 * order + 10) 12 ++
              storeAccesses (26 * order + 22) 4 ++ [.writeCheckSums j]
            let lfnBuf := storeAt lfnBuf (26 * order) 10 lfnEntry.name0_4
            let lfnBuf := storeAt lfnBuf (26 * order + 10) 12 lfnEntry.name5_10
            let lfnBuf := storeAt lfnBuf (26 * order + 22) 4 lfnEntry.name11_12
            if order = 0 then (accesses, i, lfnBuf)
            else
              let later := lfnAccesses entryAt left (j + 1) (i + 1) lfnBuf
              (accesses ++ later.1, later.2)

/-- The accesses of the loop of `from_lfn`. -/
def fromLfnAccesses (lfn : Nat → UInt8) (size : Nat) : Nat → (i j : Nat) → List LfnAccess
  | 0, _, _ => []
  | fuel + 1, i, j =>
      if j < size then
        if (lfn j).toInt8.toInt = 0xff then [.readLfnBuf j]
        else if lfn (j + 1) ≠ 0 then
          [.readLfnBuf j, .writeName i, .readLfnBuf (j + 1), .writeName (i + 1)] ++
            fromLfnAccesses lfn size fuel (i + 2) (j + 2)
        else
          [.readLfnBuf j, .writeName i, .readLfnBuf (j + 1)] ++
            fromLfnAccesses lfn size fuel (i + 1) (j + 2)
      else []

/-- The accesses of `memset(check_sums, 0, lfn_count * sizeof(int))`. -/
def clearCheckSums : List LfnAccess :=
  (List.range (lfnCount * 4)).map fun pos : Nat => .writeCheckSums pos

/-- The accesses of `handle_lfn_entry` from its second `memset` on. -/
def handleLfnAccesses (entryAt : Nat → Option LongNameDirEntry) (rootEntryCount idx : Nat) :
    List LfnAccess :=
  let loop := lfnAccesses entryAt (rootEntryCount - idx) 0 idx fun _ => 0
  storeAccesses 0 lfnBufSize ++ loop.1 ++ fromLfnAccesses loop.2.2 lfnBufSize lfnBufSize 0 0

def lfnRun (entryAt : Nat → Option LongNameDirEntry) : (left i : Nat) → List LongNameDirEntry
  | 0, _ => []
  | left + 1, i =>
      match entryAt i with
      | none => []
      | some lfnEntry =>
          if lfnEntry.attr ≠ dirEntryAttrLfn then []
          else if lfnEntry.order &&& 0x1f = 1 then [lfnEntry]
          else lfnEntry :: lfnRun entryAt left (i + 1)

/-- The order of a piece is that of one of the nine pieces in `lfn_buf`. -/
def OrderInside (lfnEntry : LongNameDirEntry) : Prop :=
  1 ≤ (lfnEntry.order &&& 0x1f).toNat ∧ (lfnEntry.order &&& 0x1f).toNat ≤ lfnCount

/-- The bytes of the name that `count` characters give: one for each, and its second byte unless
it is zero. -/
def nameBytes (lfn : Nat → UInt8) : (count j : Nat) → Nat
  | 0, _ => 0
  | count + 1, j => (if lfn (j + 1) ≠ 0 then 2 else 1) + nameBytes lfn count (j + 2)

variable {entryAt : Nat → Option LongNameDirEntry} {lfnBuf : Nat → UInt8} {nameSize left i j : Nat}

theorem readLfnBuf_inside {pos : Nat} :
    (LfnAccess.readLfnBuf pos).Inside nameSize ↔ pos < lfnBufSize :=
  Iff.rfl

theorem writeName_inside {pos : Nat} :
    (LfnAccess.writeName pos).Inside nameSize ↔ pos < nameSize :=
  Iff.rfl

theorem storeAccesses_inside {start : Int} {count : Nat} (some : 0 < count) :
    (∀ access ∈ storeAccesses start count, access.Inside nameSize) ↔
      0 ≤ start ∧ start + count ≤ lfnBufSize := by
  rw [storeAccesses, List.forall_mem_map]
  constructor
  · intro inside
    have first := inside 0 (List.mem_range.mpr some)
    have last := inside (count - 1) (List.mem_range.mpr (Nat.sub_lt some Nat.one_pos))
    rw [LfnAccess.Inside] at first last
    omega
  · intro inside pos member
    have below := List.mem_range.mp member
    rw [LfnAccess.Inside]
    omega

theorem pieceAccesses_inside (lfnEntry : LongNameDirEntry) {order : Int}
    (isOrder : order = (lfnEntry.order &&& 0x1f).toNat - 1) :
    (∀ access ∈ storeAccesses (26 * order) 10 ++ storeAccesses (26 * order + 10) 12 ++
        storeAccesses (26 * order + 22) 4 ++ [.writeCheckSums j], access.Inside nameSize) ↔
      OrderInside lfnEntry ∧ j < lfnCount := by
  rw [List.forall_mem_append, List.forall_mem_append, List.forall_mem_append,
    storeAccesses_inside (by decide), storeAccesses_inside (by decide),
    storeAccesses_inside (by decide), List.forall_mem_singleton, LfnAccess.Inside, OrderInside,
    lfnBufSize, lfnCount, isOrder]
  omega

theorem lfnAccesses_inside (room : j ≤ lfnCount) :
    (∀ access ∈ (lfnAccesses entryAt left j i lfnBuf).1, access.Inside nameSize) ↔
      (∀ lfnEntry ∈ lfnRun entryAt left i, OrderInside lfnEntry) ∧
        j + (lfnRun entryAt left i).length ≤ lfnCount := by
  induction left generalizing j i lfnBuf with
  | zero =>
      constructor
      · intro _
        exact ⟨fun _ member => absurd member List.not_mem_nil, room⟩
      · intro _ _ member
        exact absurd member List.not_mem_nil
  | succ left ih =>
      have ended : (∀ access ∈ ([] : List LfnAccess), access.Inside nameSize) ↔
          (∀ lfnEntry ∈ ([] : List LongNameDirEntry), OrderInside lfnEntry) ∧
            j + ([] : List LongNameDirEntry).length ≤ lfnCount := by
        constructor
        · intro _
          exact ⟨fun _ member => absurd member List.not_mem_nil, room⟩
        · intro _ _ member
          exact absurd member List.not_mem_nil
      rw [lfnAccesses, lfnRun]
      cases entryAt i with
      | none => exact ended
      | some lfnEntry =>
          dsimp only
          by_cases isLfn : lfnEntry.attr ≠ dirEntryAttrLfn
          · rw [if_pos isLfn, if_pos isLfn]
            exact ended
          · rw [if_neg isLfn, if_neg isLfn]
            obtain ⟨order, isOrder⟩ :
                ∃ order : Int, order = (lfnEntry.order &&& 0x1f).toNat - 1 := ⟨_, rfl⟩
            have piece := @pieceAccesses_inside nameSize j lfnEntry order isOrder
            have first : order = 0 ↔ lfnEntry.order &&& 0x1f = 1 := by
              rw [← UInt8.toNat_inj, isOrder]
              change _ ↔ _ = 1
              omega
            rw [← isOrder]
            by_cases isFirst : order = 0
            · rw [if_pos isFirst, if_pos (first.mp isFirst)]
              dsimp only
              rw [piece, List.forall_mem_singleton]
              exact Iff.rfl
            · rw [if_neg isFirst, if_neg fun same => isFirst (first.mpr same)]
              dsimp only
              rw [List.forall_mem_append, piece, List.forall_mem_cons, List.length_cons]
              constructor
              · rintro ⟨⟨inside, within⟩, later⟩
                obtain ⟨orders, count⟩ := (ih (Nat.succ_le_of_lt within)).mp later
                refine ⟨⟨inside, orders⟩, ?_⟩
                omega
              · rintro ⟨⟨inside, orders⟩, count⟩
                have within : j < lfnCount := by omega
                refine ⟨⟨inside, within⟩, (ih (Nat.succ_le_of_lt within)).mpr ⟨orders, ?_⟩⟩
                omega

theorem toInt8_ne (value : UInt8) : value.toInt8.toInt ≠ 0xff := by
  have below := value.toInt8.toInt_lt
  omega

theorem fromLfnAccesses_inside {lfn : Nat → UInt8} {count fuel : Nat}
    (even : j + 2 * count = lfnBufSize) (enough : count ≤ fuel) (room : i ≤ nameSize) :
    (∀ access ∈ fromLfnAccesses lfn lfnBufSize fuel i j, access.Inside nameSize) ↔
      i + nameBytes lfn count j ≤ nameSize := by
  induction count generalizing i j fuel with
  | zero =>
      have ended : fromLfnAccesses lfn lfnBufSize fuel i j = [] := by
        cases fuel with
        | zero => rfl
        | succ fuel =>
            rw [fromLfnAccesses, if_neg]
            omega
      rw [ended, nameBytes]
      constructor
      · intro _
        exact room
      · intro _ _ member
        exact absurd member List.not_mem_nil
  | succ count ih =>
      obtain ⟨fuel, rfl⟩ := Nat.exists_eq_succ_of_ne_zero (Nat.ne_of_gt (Nat.lt_of_lt_of_le
        (Nat.succ_pos count) enough))
      have inside : j < lfnBufSize := by omega
      have second : j + 1 < lfnBufSize := by omega
      rw [fromLfnAccesses, if_pos inside, if_neg (toInt8_ne _), nameBytes]
      by_cases high : lfn (j + 1) ≠ 0
      · rw [if_pos high, if_pos high, List.forall_mem_append]
        simp only [List.forall_mem_cons, readLfnBuf_inside, writeName_inside]
        constructor
        · rintro ⟨⟨-, -, -, last, -⟩, later⟩
          rw [ih (by omega) (by omega) (by omega)] at later
          omega
        · intro fits
          refine ⟨⟨inside, by omega, second, by omega, ?_⟩, ?_⟩
          · intro _ member
            exact absurd member List.not_mem_nil
          · rw [ih (by omega) (by omega) (by omega)]
            omega
      · rw [if_neg high, if_neg high, List.forall_mem_append]
        simp only [List.forall_mem_cons, readLfnBuf_inside, writeName_inside]
        constructor
        · rintro ⟨⟨-, last, -⟩, later⟩
          rw [ih (by omega) (by omega) (by omega)] at later
          omega
        · intro fits
          refine ⟨⟨inside, by omega, second, ?_⟩, ?_⟩
          · intro _ member
            exact absurd member List.not_mem_nil
          · rw [ih (by omega) (by omega) (by omega)]
            omega

theorem nameBytes_le {lfn : Nat → UInt8} {count : Nat} : nameBytes lfn count j ≤ 2 * count := by
  induction count generalizing j with
  | zero => exact Nat.le_refl 0
  | succ count ih =>
      have later := ih (j := j + 2)
      rw [nameBytes]
      split <;> omega

theorem clearCheckSums_outside : ¬ ∀ access ∈ clearCheckSums, access.Inside nameSize := by
  intro inside
  have last := inside (.writeCheckSums 9) (List.mem_map.mpr ⟨9, by decide, rfl⟩)
  exact absurd last.2 (by decide)

/-- What `read_dir_entry` returns of a directory on a volume. -/
def Volume.lfnEntryAt (volume : Volume) (sectorStart idx : Nat) : Option LongNameDirEntry :=
  if volume.bpb.rootEntryCount ≤ idx then none
  else some (LongNameDirEntry.ofBytes (volume.dirEntry sectorStart idx))

/-- No call stays within its buffers, because of the clearing of `check_sums`.  What follows it does
just when the run of entries has no more than nine, all with orders from 1 to 9, and its characters
fit in the buffer for the name, which a buffer of 256 bytes has room for. -/
theorem longNameAccess_never (entryAt : Nat → Option LongNameDirEntry)
    (rootEntryCount idx nameSize : Nat) :
    (¬ ∀ access ∈ clearCheckSums ++ handleLfnAccesses entryAt rootEntryCount idx,
        access.Inside nameSize) ∧
      ((∀ access ∈ handleLfnAccesses entryAt rootEntryCount idx, access.Inside nameSize) ↔
        (∀ lfnEntry ∈ lfnRun entryAt (rootEntryCount - idx) idx, OrderInside lfnEntry) ∧
          (lfnRun entryAt (rootEntryCount - idx) idx).length ≤ lfnCount ∧
          nameBytes (lfnAccesses entryAt (rootEntryCount - idx) 0 idx fun _ => 0).2.2
            (lfnBufSize / 2) 0 ≤ nameSize) ∧
      nameBytes (lfnAccesses entryAt (rootEntryCount - idx) 0 idx fun _ => 0).2.2
        (lfnBufSize / 2) 0 ≤ realNameSize := by
  constructor
  · intro inside
    exact clearCheckSums_outside fun access member => inside access (List.mem_append_left _ member)
  · constructor
    · have whole : 0 + 2 * (lfnBufSize / 2) = lfnBufSize := rfl
      rw [handleLfnAccesses, List.forall_mem_append, List.forall_mem_append,
        storeAccesses_inside (by decide), lfnAccesses_inside (Nat.zero_le _),
        fromLfnAccesses_inside whole (by decide) (Nat.zero_le _), Nat.zero_add, Nat.zero_add,
        and_assoc]
      have cleared : (0 : Int) ≤ 0 ∧ 0 + (lfnBufSize : Int) ≤ lfnBufSize := by decide
      rw [← and_assoc, and_iff_right cleared, and_assoc]
    · exact Nat.le_trans nameBytes_le (by decide)

/-- Even for an entry behind the directory, whose name is empty, a byte behind the check sums is
cleared. -/
theorem longNameAccess_outside :
    ¬ ∀ access ∈ clearCheckSums ++ handleLfnAccesses (fun _ => none) 512 0, access.Inside 128 := by
  intro inside
  exact clearCheckSums_outside fun access member => inside access (List.mem_append_left _ member)

end CleanOS.Fs
