import CleanOS.Fs.LongNames

/-!
# Long file names are read as they were written

What `create_lfn` writes, and what `handle_lfn_entry` makes of it.
-/

namespace CleanOS.Fs

open CleanOS.Common

def nameUnits (name : Nat → UInt8) : Nat → UInt8 := fun pos =>
  if pos % 2 = 0 then name (pos / 2) else 0

def Spells (realName : Nat → UInt8) (name : CString) : Prop :=
  ∀ pos ≤ name.strlen, realName pos = name.bytes pos

def lfnEntries (name : CString) : Nat :=
  (name.strlen + 12) / 13

/-- A name is written at an index, its short entry behind it, and both are found from there: the
name without a path, and nothing for the path of another name. -/
def LfnRoundTrips (volume : Volume) (nodeSectorIdx fileIdx : Nat) (name : CString)
    (entry : Nat → UInt8) (handled : Bool) (realName : Nat → UInt8) : Prop :=
  ∃ created shortEntry written,
    createLfn volume nodeSectorIdx entry name fileIdx =
      (created, shortEntry, fileIdx + lfnEntries name, 0) ∧
    created.writeDirEntry shortEntry nodeSectorIdx (fileIdx + lfnEntries name) = (written, 0) ∧
    (∃ (found : Volume) (foundName : Nat → UInt8) (offset : Nat),
      handleLfnEntry written nodeSectorIdx fileIdx none handled realName =
        some ⟨found, fileIdx + lfnEntries name, true, foundName, some offset⟩ ∧
      Spells foundName name ∧
      ∀ pos < dirEntrySize, found.cacheBuf (offset + pos) = shortEntry pos) ∧
    ∀ path, ¬ name.Same path →
      ∃ found, handleLfnEntry written nodeSectorIdx fileIdx (some path) handled realName =
        some found ∧ found.handled = false

/-! ### Units -/

theorem ascii2unicode_apply {ascii unicode : Nat → UInt8} {size pos : Nat}
    (inside : pos < 2 * size) :
    ascii2unicode ascii unicode size pos = nameUnits ascii pos := by
  induction size with
  | zero => omega
  | succ size ih =>
      have unfolded : ascii2unicode ascii unicode (size + 1) =
          Function.update (Function.update (ascii2unicode ascii unicode size) (size * 2)
            (ascii size)) (size * 2 + 1) 0 := by
        rw [ascii2unicode, List.range_succ, List.foldl_append]
        rfl
      rw [unfolded]
      by_cases high : pos = size * 2 + 1
      · rw [high, Function.update_self, nameUnits, if_neg (by omega)]
      · rw [Function.update_of_ne high]
        by_cases low : pos = size * 2
        · rw [low, Function.update_self, nameUnits, if_pos (Nat.mul_mod_left _ _),
            Nat.mul_div_cancel _ (by decide)]
        · rw [Function.update_of_ne low, ih (by omega)]

theorem nameUnits_drop (name : Nat → UInt8) (start pos : Nat) :
    nameUnits (fun pos => name (start + pos)) pos = nameUnits name (2 * start + pos) := by
  rw [nameUnits, nameUnits, Nat.mul_add_mod, Nat.mul_add_div (by decide)]

theorem lfnEntryCount_eq {size : Nat} (small : size ≤ 117) :
    (up2 (UInt32.ofNat size) 13 / 13).toNat = (size + 12) / 13 := by
  have isSize : (UInt32.ofNat size).toNat = size :=
    UInt32.toNat_ofNat_of_lt' (Nat.lt_of_le_of_lt small (by decide))
  have rest : (UInt32.ofNat size % 13).toNat = size % 13 := by
    rw [UInt32.toNat_mod, isSize]
    rfl
  rw [up2]
  split
  · rename_i whole
    rw [whole] at rest
    rw [UInt32.toNat_div, isSize]
    change 0 = size % 13 at rest
    change size / 13 = _
    omega
  · rename_i notWhole
    have restPositive : size % 13 ≠ 0 := by
      intro zero
      exact notWhole (UInt32.toNat_inj.mp (rest.trans zero))
    have down : (down2 (UInt32.ofNat size) 13).toNat = size - size % 13 := by
      have less : UInt32.ofNat size % 13 ≤ UInt32.ofNat size := by
        rw [UInt32.le_iff_toNat_le, rest, isSize]
        exact Nat.mod_le _ _
      rw [down2, UInt32.toNat_sub_of_le _ _ less, rest, isSize]
    rw [UInt32.toNat_div, UInt32.toNat_add, down]
    change (size - size % 13 + 13) % 2 ^ 32 / 13 = _
    omega

theorem order_number {i : Nat} (few : i < 9) :
    ((UInt8.ofNat (i + 1) ||| 0x40) &&& 0x1f).toNat = i + 1 ∧
      (UInt8.ofNat (i + 1) &&& 0x1f).toNat = i + 1 := by
  revert i
  decide

variable {volume : Volume} {name : Nat → UInt8} {lfnEntryCount sectorStart fileIdx i j : Nat}
  {checkSum : UInt8} {lfnBuf : Nat → UInt8}

theorem lfnPiece_number (few : i < 9) :
    ((lfnPiece name lfnEntryCount i checkSum).order &&& 0x1f).toNat = i + 1 := by
  rw [lfnPiece]
  simp only
  split
  · exact (order_number few).1
  · exact (order_number few).2

theorem copyInto_piece {fields : LongNameDirEntry}
    (first : ∀ pos < 10, fields.name0_4 pos = nameUnits name (26 * i + pos))
    (second : ∀ pos < 12, fields.name5_10 pos = nameUnits name (26 * i + 10 + pos))
    (third : ∀ pos < 4, fields.name11_12 pos = nameUnits name (26 * i + 22 + pos)) (pos : Nat) :
    copyInto (copyInto (copyInto lfnBuf (26 * i) 10 fields.name0_4) (26 * i + 10) 12
        fields.name5_10) (26 * i + 22) 4 fields.name11_12 pos =
      if 26 * i ≤ pos ∧ pos < 26 * i + 26 then nameUnits name pos else lfnBuf pos := by
  simp only [copyInto]
  by_cases inThird : 26 * i + 22 ≤ pos ∧ pos < 26 * i + 22 + 4
  · rw [if_pos inThird, if_pos (by omega), third _ (by omega), Nat.add_sub_of_le inThird.1]
  · rw [if_neg inThird]
    by_cases inSecond : 26 * i + 10 ≤ pos ∧ pos < 26 * i + 10 + 12
    · rw [if_pos inSecond, if_pos (by omega), second _ (by omega), Nat.add_sub_of_le inSecond.1]
    · rw [if_neg inSecond]
      by_cases inFirst : 26 * i ≤ pos ∧ pos < 26 * i + 10
      · rw [if_pos inFirst, if_pos (by omega), first _ (by omega), Nat.add_sub_of_le inFirst.1]
      · rw [if_neg inFirst, if_neg (by omega)]

/-! ### Writing -/

theorem createLfnLoop_spec (sane : volume.DirSane)
    (room : fileIdx + i ≤ volume.bpb.rootEntryCount) :
    ∃ after, createLfnLoop name lfnEntryCount checkSum sectorStart i volume fileIdx =
        (after, fileIdx + i) ∧ after.DirSane ∧ after.bpb = volume.bpb ∧
      ∀ idx, ∀ pos < dirEntrySize, after.dirEntry sectorStart idx pos =
        if fileIdx ≤ idx ∧ idx < fileIdx + i then
          (lfnPiece name lfnEntryCount (fileIdx + i - 1 - idx) checkSum).bytes pos
        else volume.dirEntry sectorStart idx pos := by
  induction i generalizing volume fileIdx with
  | zero =>
      refine ⟨volume, rfl, sane, rfl, ?_⟩
      intro idx pos _
      rw [if_neg (by omega)]
  | succ i ih =>
      obtain ⟨written, writes, writtenSane, writtenBpb, entries⟩ :=
        sane.writeDirEntry (lfnPiece name lfnEntryCount i checkSum).bytes sectorStart
          (show fileIdx < volume.bpb.rootEntryCount by omega)
      obtain ⟨after, more, afterSane, afterBpb, moreEntries⟩ :=
        @ih written (fileIdx + 1) writtenSane (by rw [writtenBpb]; omega)
      refine ⟨after, ?_, afterSane, afterBpb.trans writtenBpb, ?_⟩
      · rw [createLfnLoop, writes]
        simp only
        rw [more, Nat.add_assoc, Nat.add_comm 1 i]
      · intro idx pos inside
        rw [moreEntries idx pos inside, entries idx pos inside]
        by_cases here : idx = fileIdx
        · subst here
          rw [if_neg (by omega), if_pos rfl, if_pos (by omega),
            show idx + (i + 1) - 1 - idx = i by omega]
        · rw [if_neg here]
          by_cases later : fileIdx + 1 ≤ idx ∧ idx < fileIdx + 1 + i
          · rw [if_pos later, if_pos (by omega),
              show fileIdx + 1 + i - 1 - idx = fileIdx + (i + 1) - 1 - idx by omega]
          · rw [if_neg later, if_neg (by omega)]

/-! ### Reading -/

/-- The pieces from `i` down to the first lie at an index and behind it. -/
def HoldsPieces (volume : Volume) (sectorStart idx : Nat) (name : Nat → UInt8)
    (lfnEntryCount i : Nat) (checkSum : UInt8) : Prop :=
  ∀ k ≤ i, ∀ pos < dirEntrySize, volume.dirEntry sectorStart (idx + k) pos =
    (lfnPiece name lfnEntryCount (i - k) checkSum).bytes pos

structure IsPiece (fields : LongNameDirEntry) (name : Nat → UInt8) (i : Nat) : Prop where
  attr : fields.attr = dirEntryAttrLfn
  number : (fields.order &&& 0x1f).toNat = i + 1
  first : ∀ pos < 10, fields.name0_4 pos = nameUnits name (26 * i + pos)
  second : ∀ pos < 12, fields.name5_10 pos = nameUnits name (26 * i + 10 + pos)
  third : ∀ pos < 4, fields.name11_12 pos = nameUnits name (26 * i + 22 + pos)

theorem isPiece_ofBytes {bytes : Nat → UInt8} (few : i < 9)
    (same : ∀ pos < dirEntrySize, bytes pos = (lfnPiece name lfnEntryCount i checkSum).bytes pos) :
    IsPiece (LongNameDirEntry.ofBytes bytes) name i where
  attr := same 11 (by decide)
  number := by
    change (bytes 0 &&& 0x1f).toNat = i + 1
    rw [same 0 (by decide)]
    exact @lfnPiece_number name lfnEntryCount i checkSum few
  first := by
    intro pos inside
    simp only [dirEntrySize] at same
    change bytes (1 + pos) = _
    rw [same _ (by omega), LongNameDirEntry.bytes, if_neg (by omega), if_pos (by omega),
      Nat.add_sub_cancel_left]
    refine (ascii2unicode_apply inside).trans ?_
    rw [nameUnits_drop]
    congr 1
    omega
  second := by
    intro pos inside
    simp only [dirEntrySize] at same
    change bytes (14 + pos) = _
    rw [same _ (by omega), LongNameDirEntry.bytes, if_neg (by omega), if_neg (by omega),
      if_neg (by omega), if_neg (by omega), if_neg (by omega), if_pos (by omega),
      Nat.add_sub_cancel_left]
    refine (ascii2unicode_apply inside).trans ?_
    rw [nameUnits_drop]
    congr 1
    omega
  third := by
    intro pos inside
    simp only [dirEntrySize] at same
    change bytes (28 + pos) = _
    rw [same _ (by omega), LongNameDirEntry.bytes, if_neg (by omega), if_neg (by omega),
      if_neg (by omega), if_neg (by omega), if_neg (by omega), if_neg (by omega),
      if_neg (by omega), if_neg (by omega), Nat.add_sub_cancel_left]
    refine (ascii2unicode_apply inside).trans ?_
    rw [nameUnits_drop]
    congr 1
    omega

theorem lfnLoop_piece {left idx : Nat} (sane : volume.DirSane)
    (inside : idx < volume.bpb.rootEntryCount) (few : i < 9) (passes : j < 9)
    (piece : ∀ pos < dirEntrySize, volume.dirEntry sectorStart idx pos =
      (lfnPiece name lfnEntryCount i checkSum).bytes pos) :
    ∃ read readBuf, lfnLoop sectorStart (left + 1) volume j idx lfnBuf =
        (if i = 0 then some (read, idx, readBuf)
        else lfnLoop sectorStart left read (j + 1) (idx + 1) readBuf) ∧
      read.DirSane ∧ read.bpb = volume.bpb ∧ read.disk = volume.disk ∧
      ∀ pos, readBuf pos =
        if 26 * i ≤ pos ∧ pos < 26 * i + 26 then nameUnits name pos else lfnBuf pos := by
  obtain ⟨read, offset, reads, readSane, readBpb, readDisk, bytes⟩ :=
    sane.readDirEntry sectorStart inside
  let fields := LongNameDirEntry.ofBytes fun pos => read.cacheBuf (offset + pos)
  have isPiece : IsPiece fields name i := isPiece_ofBytes few fun pos posInside =>
    (bytes pos posInside).trans (piece pos posInside)
  refine ⟨read, copyInto (copyInto (copyInto lfnBuf (26 * i) 10 fields.name0_4) (26 * i + 10) 12
    fields.name5_10) (26 * i + 22) 4 fields.name11_12, ?_, readSane, readBpb, readDisk,
    copyInto_piece isPiece.first isPiece.second isPiece.third⟩
  have attr : ¬ fields.attr ≠ dirEntryAttrLfn := not_not.mpr isPiece.attr
  rw [lfnLoop, reads]
  simp only [fields] at attr isPiece ⊢
  rw [if_neg attr, isPiece.number, if_neg (by omega), Nat.add_sub_cancel]

theorem lfnLoop_spec {left idx : Nat} (sane : volume.DirSane)
    (inside : idx + i < volume.bpb.rootEntryCount) (few : i < 9) (passes : j + i < 9)
    (enough : i < left)
    (pieces : HoldsPieces volume sectorStart idx name lfnEntryCount i checkSum) :
    ∃ read readBuf, lfnLoop sectorStart left volume j idx lfnBuf =
        some (read, idx + i, readBuf) ∧
      read.DirSane ∧ read.bpb = volume.bpb ∧ read.disk = volume.disk ∧
      ∀ pos, readBuf pos = if pos < 26 * i + 26 then nameUnits name pos else lfnBuf pos := by
  induction i generalizing volume idx j left lfnBuf with
  | zero =>
      obtain ⟨left, rfl⟩ := Nat.exists_eq_succ_of_ne_zero (Nat.ne_of_gt enough)
      obtain ⟨read, readBuf, reads, readSane, readBpb, readDisk, units⟩ :=
        @lfnLoop_piece volume name lfnEntryCount sectorStart 0 j checkSum lfnBuf left idx sane
          inside few passes (pieces 0 (Nat.le_refl _))
      rw [if_pos rfl] at reads
      refine ⟨read, readBuf, reads, readSane, readBpb, readDisk, ?_⟩
      intro pos
      rw [units]
      simp only [Nat.mul_zero, Nat.zero_le, true_and]
  | succ i ih =>
      obtain ⟨left, rfl⟩ := Nat.exists_eq_succ_of_ne_zero (Nat.ne_zero_of_lt enough)
      obtain ⟨first, firstBuf, reads, firstSane, firstBpb, firstDisk, firstUnits⟩ :=
        @lfnLoop_piece volume name lfnEntryCount sectorStart (i + 1) j checkSum lfnBuf left idx sane
          (by omega) few (by omega) (pieces 0 (Nat.zero_le _))
      have rest : HoldsPieces first sectorStart (idx + 1) name lfnEntryCount i checkSum := by
        intro k isRest pos posInside
        have found := pieces (k + 1) (Nat.succ_le_succ isRest) pos posInside
        rw [Nat.add_sub_add_right] at found
        rw [Volume.dirEntry, firstBpb, firstDisk, ← found, Volume.dirEntry, Nat.add_assoc idx 1 k,
          Nat.add_comm 1 k]
      obtain ⟨read, readBuf, more, readSane, readBpb, readDisk, units⟩ :=
        @ih first (j + 1) firstBuf left (idx + 1) firstSane (by rw [firstBpb]; omega) (by omega)
          (by omega) (Nat.lt_of_succ_lt_succ enough) rest
      rw [if_neg (Nat.succ_ne_zero i), more] at reads
      refine ⟨read, readBuf, ?_, readSane, readBpb.trans firstBpb, readDisk.trans firstDisk, ?_⟩
      · rw [reads, Nat.add_assoc, Nat.add_comm 1 i]
      · intro pos
        rw [units, firstUnits]
        by_cases early : pos < 26 * i + 26
        · rw [if_pos early, if_pos (by omega)]
        · rw [if_neg early]
          by_cases here : pos < 26 * (i + 1) + 26
          · rw [if_pos here, if_pos (by omega)]
          · rw [if_neg here, if_neg (by omega)]

theorem fromLfnLoop_units {lfn dst : Nat → UInt8} {count fuel : Nat}
    (low : ∀ unit, lfn (2 * unit + 1) = 0) (enough : count ≤ fuel + i) (pos : Nat) :
    fromLfnLoop lfn (2 * count) fuel dst i (2 * i) pos =
      if i ≤ pos ∧ pos < count then lfn (2 * pos) else dst pos := by
  induction fuel generalizing i dst with
  | zero => rw [fromLfnLoop, if_neg (by omega)]
  | succ fuel ih =>
      rw [fromLfnLoop]
      by_cases more : i < count
      · -- no signed character is `0xff`
        have signed : ¬ (lfn (2 * i)).toInt8.toInt = 0xff := by
          have bound := Int8.toInt_lt (lfn (2 * i)).toInt8
          omega
        rw [if_pos (by omega), if_neg signed]
        simp only [low, ne_eq, not_true_eq_false, if_false]
        rw [← Nat.mul_succ, ih (by omega)]
        by_cases here : pos = i
        · subst here
          rw [if_neg (by omega), if_pos ⟨Nat.le_refl _, more⟩, Function.update_self]
        · rw [Function.update_of_ne here]
          by_cases later : i + 1 ≤ pos ∧ pos < count
          · rw [if_pos later, if_pos (by omega)]
          · rw [if_neg later, if_neg (by omega)]
      · rw [if_neg (by omega), if_neg (by omega)]

/-! ### Names -/

theorem Spells.realNameLen {realName : Nat → UInt8} {text : CString} (spells : Spells realName text)
    (short : text.strlen < realNameSize) : realNameLen realName = some text.strlen := by
  rw [CleanOS.Fs.realNameLen, List.find?_range_eq_some]
  refine ⟨?_, List.mem_range.mpr short, ?_⟩
  · rw [spells _ (Nat.le_refl _), CString.bytes_strlen]
    rfl
  · intro pos before
    rw [spells _ (Nat.le_of_lt before)]
    simpa using CString.bytes_ne_zero before

theorem Spells.memcmp_iff {realName : Nat → UInt8} {text path : CString}
    (spells : Spells realName text) :
    memcmp realName path.bytes (max text.strlen path.strlen) = 0 ↔ text.Same path := by
  have ends : realName text.strlen = 0 :=
    (spells _ (Nat.le_refl _)).trans text.bytes_strlen
  let real : CString := ⟨realName, text.strlen, ends⟩
  have sameLength : real.strlen = text.strlen := by
    apply CString.strlen_eq ends
    intro pos before
    change realName pos ≠ 0
    rw [spells _ (Nat.le_of_lt before)]
    exact CString.bytes_ne_zero before
  have compared := @CString.memcmp_max_iff real path
  rw [sameLength] at compared
  rw [show memcmp realName = memcmp real.bytes from rfl, compared, CString.Same, CString.Same,
    sameLength]
  constructor
  · intro same
    refine ⟨same.1, ?_⟩
    intro pos before
    rw [← same.2 pos before]
    exact (spells _ (Nat.le_of_lt before)).symm
  · intro same
    refine ⟨same.1, ?_⟩
    intro pos before
    rw [← same.2 pos before]
    exact spells _ (Nat.le_of_lt before)

/-! ### Round trips -/

theorem lfnLoop_spells {text : CString} {idx left : Nat} {realName : Nat → UInt8}
    (sane : volume.DirSane) (lower : 0 < text.strlen) (upper : text.strlen ≤ 117)
    (inside : idx + lfnEntries text ≤ volume.bpb.rootEntryCount)
    (enough : lfnEntries text ≤ left) (zeroed : ∀ pos < realNameSize, realName pos = 0)
    (pieces : HoldsPieces volume sectorStart idx text.bytes lfnEntryCount (lfnEntries text - 1)
      checkSum) :
    ∃ read readBuf, lfnLoop sectorStart left volume 0 idx (fun _ => 0) =
        some (read, idx + lfnEntries text - 1, readBuf) ∧
      read.DirSane ∧ read.bpb = volume.bpb ∧ read.disk = volume.disk ∧
      Spells (fromLfn realName readBuf lfnBufSize) text := by
  have count : lfnEntries text = (text.strlen + 12) / 13 := rfl
  obtain ⟨read, readBuf, reads, readSane, readBpb, readDisk, units⟩ :=
    @lfnLoop_spec volume text.bytes lfnEntryCount sectorStart (lfnEntries text - 1) 0 checkSum
      (fun _ => 0) left idx sane (by omega) (by omega) (by omega) (by omega) pieces
  refine ⟨read, readBuf, ?_, readSane, readBpb, readDisk, ?_⟩
  · rw [reads, Nat.add_sub_assoc (by omega)]
  · have low : ∀ unit, readBuf (2 * unit + 1) = 0 := by
      intro unit
      rw [units, nameUnits, if_neg (by omega : ¬ (2 * unit + 1) % 2 = 0), ite_self]
    intro pos within
    have decoded := @fromLfnLoop_units 0 readBuf realName 117 lfnBufSize low (by decide) pos
    rw [fromLfn, show lfnBufSize = 2 * 117 from rfl] at *
    rw [decoded]
    by_cases inBuffer : 0 ≤ pos ∧ pos < 117
    · rw [if_pos inBuffer, units, nameUnits, if_pos (Nat.mul_mod_right _ _),
        Nat.mul_div_cancel_left _ (by decide)]
      by_cases inPieces : 2 * pos < 26 * (lfnEntries text - 1) + 26
      · rw [if_pos inPieces]
      · -- the end behind full pieces comes from the cleared buffer
        have atEnd : pos = text.strlen := by omega
        rw [if_neg inPieces, atEnd, CString.bytes_strlen]
    · have atEnd : pos = text.strlen := by omega
      rw [if_neg inBuffer, zeroed _ (by rw [realNameSize]; omega), atEnd, CString.bytes_strlen]

/-- Long names of up to 117 characters are read as they were written. -/
theorem lfn_roundTrip {nodeSectorIdx : Nat} {text : CString} {entry realName : Nat → UInt8}
    {handled : Bool} (sane : volume.DirSane) (lower : 12 ≤ text.strlen)
    (upper : text.strlen ≤ 117)
    (room : fileIdx + lfnEntries text < volume.bpb.rootEntryCount)
    (zeroed : ∀ pos < realNameSize, realName pos = 0) :
    LfnRoundTrips volume nodeSectorIdx fileIdx text entry handled realName := by
  have count : lfnEntries text = (text.strlen + 12) / 13 := rfl
  let shortEntry := Function.update (Function.update entry 6 0x7e) 7
    (UInt8.ofNat (lfnEntries text) + 0x30)
  obtain ⟨created, creates, createdSane, createdBpb, createdEntries⟩ :=
    @createLfnLoop_spec volume text.bytes (lfnEntries text) nodeSectorIdx fileIdx
      (lfnEntries text) (getCheckSum shortEntry) sane (Nat.le_of_lt room)
  obtain ⟨written, writes, writtenSane, writtenBpb, entries⟩ :=
    createdSane.writeDirEntry shortEntry nodeSectorIdx
      (show fileIdx + lfnEntries text < created.bpb.rootEntryCount by rwa [createdBpb])
  have sameBpb := writtenBpb.trans createdBpb
  have pieces : HoldsPieces written nodeSectorIdx fileIdx text.bytes (lfnEntries text)
      (lfnEntries text - 1) (getCheckSum shortEntry) := by
    intro k isPiece pos inside
    rw [entries _ pos inside, if_neg (by omega), createdEntries _ pos inside, if_pos (by omega),
      show fileIdx + lfnEntries text - 1 - (fileIdx + k) = lfnEntries text - 1 - k by omega]
  obtain ⟨read, readBuf, reads, readSane, readBpb, readDisk, spells⟩ :=
    lfnLoop_spells writtenSane (by omega) upper (by rw [sameBpb]; omega)
      (show lfnEntries text ≤ written.bpb.rootEntryCount - fileIdx by rw [sameBpb]; omega) zeroed
      pieces
  have next : fileIdx + lfnEntries text - 1 + 1 = fileIdx + lfnEntries text := by omega
  refine ⟨created, shortEntry, written, ?_, writes, ?_, ?_⟩
  · rw [createLfn, lfnEntryCount_eq upper, ← count, if_neg (by omega)]
    simp only
    rw [creates]
  · obtain ⟨found, offset, finds, -, -, -, bytes⟩ := readSane.readDirEntry nodeSectorIdx
      (show fileIdx + lfnEntries text < read.bpb.rootEntryCount by rwa [readBpb, sameBpb])
    refine ⟨found, _, offset, ?_, spells, ?_⟩
    · rw [handleLfnEntry, reads]
      simp only [Option.bind_eq_bind, Option.bind_some, next, if_true, finds]
      rfl
    · intro pos inside
      rw [bytes pos inside, Volume.dirEntry, readBpb, readDisk, ← Volume.dirEntry,
        entries _ pos inside, if_pos rfl]
  · intro path different
    have notMatched : ¬ memcmp (fromLfn realName readBuf lfnBufSize) path.bytes
        (max text.strlen path.strlen) = 0 := mt spells.memcmp_iff.mp different
    refine ⟨⟨read, fileIdx + lfnEntries text, false, fromLfn realName readBuf lfnBufSize, none⟩, ?_,
      rfl⟩
    rw [handleLfnEntry, reads]
    simp only [Option.bind_eq_bind, Option.bind_some, next,
      spells.realNameLen (Nat.lt_of_le_of_lt upper (by decide)), notMatched, decide_false,
      Bool.false_eq_true, if_false]
    rfl

def emptyDirectory : Volume where
  bpb := { bytesPerSector := 512, sectorsPerCluster := 1, reservedSectorCount := 1,
           fatCount := 2, rootEntryCount := 16, sectorsPerFat := 1 }
  disk := fun _ _ => 0
  cacheSectorStart := 0
  cacheSectorSize := 0
  cacheBuf := fun _ => 0

theorem emptyDirectory_sane : emptyDirectory.DirSane where
  sectorPositive := by decide
  wholeEntries := by decide
  coherent := by
    intro offset inside
    rw [emptyDirectory, Nat.zero_mul] at inside
    exact absurd inside (Nat.not_lt_zero _)

/-- A name of the letter `a`, with other bytes behind its end. -/
def repeatedName (size : Nat) : CString where
  bytes := fun pos => if pos < size then 0x61 else if pos = size then 0 else 0x7a
  ends := ⟨size, by rw [if_neg (Nat.lt_irrefl _), if_pos rfl]⟩

theorem repeatedName_strlen (size : Nat) : (repeatedName size).strlen = size := by
  apply CString.strlen_eq
  · exact (if_neg (Nat.lt_irrefl _)).trans (if_pos rfl)
  · intro pos before
    rw [repeatedName]
    simp only
    rw [if_pos before]
    decide

/-- Two full pieces. -/
theorem lfn_roundTrip_two :
    LfnRoundTrips emptyDirectory 3 0 (repeatedName 26) (fun _ => 0x20) false fun _ => 0 := by
  apply lfn_roundTrip emptyDirectory_sane
  · rw [repeatedName_strlen]
    decide
  · rw [repeatedName_strlen]
    decide
  · rw [lfnEntries, repeatedName_strlen]
    decide
  · intro _ _
    rfl

end CleanOS.Fs
