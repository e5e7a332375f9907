import CleanOS.Fs.Ext2Lookup
import CleanOS.Lib.Walk

/-!
# Bounds of ext2 directory scans

When `get_sub_inode` and `ext2_readdir` end and read only the block that they loaded, whatever the
block holds.
-/

namespace CleanOS.Common

theorem lt_memcmpCount {a b : Nat → UInt8} {size place pos : Nat} :
    pos < memcmpCount a b size place ↔
      pos < size ∧ ∀ before < pos, a (place + before) = b (place + before) := by
  induction size generalizing place pos with
  | zero =>
      constructor
      · intro inside
        exact absurd inside (Nat.not_lt_zero pos)
      · intro inside
        exact absurd inside.1 (Nat.not_lt_zero pos)
  | succ size ih =>
      rw [memcmpCount]
      cases pos with
      | zero =>
          constructor
          · intro _
            exact ⟨Nat.succ_pos size, fun before isBefore => absurd isBefore (Nat.not_lt_zero _)⟩
          · intro _
            split
            · exact Nat.one_pos
            · exact Nat.succ_pos _
      | succ pos =>
          by_cases same : a place = b place
          · rw [if_neg (not_not.mpr same), Nat.succ_lt_succ_iff, ih, Nat.succ_lt_succ_iff]
            constructor
            · rintro ⟨inside, later⟩
              refine ⟨inside, ?_⟩
              intro before isBefore
              cases before with
              | zero => exact same
              | succ before =>
                  have next := later before (Nat.lt_of_succ_lt_succ isBefore)
                  rwa [Nat.add_assoc, Nat.add_comm 1] at next
            · rintro ⟨inside, all⟩
              refine ⟨inside, ?_⟩
              intro before isBefore
              have next := all (before + 1) (Nat.succ_lt_succ isBefore)
              rwa [Nat.add_assoc, Nat.add_comm 1]
          · rw [if_pos same]
            constructor
            · intro inside
              omega
            · rintro ⟨-, all⟩
              exact absurd (all 0 (Nat.succ_pos pos)) same

end CleanOS.Common

namespace CleanOS.Fs

open CleanOS.Common CleanOS.Lib

variable {entries : Nat → UInt8} {name : CString} {blockSize off start count : Nat}

theorem bytesAt_inside : (∀ read ∈ bytesAt start count, read < blockSize) ↔
    ∀ pos < count, start + pos < blockSize := by
  rw [bytesAt, List.forall_mem_map]
  simp only [List.mem_range]

def nextEntry (entries : Nat → UInt8) (off : Nat) : Nat :=
  off + entrySize entries off

/-- The length of the name of an entry lies in the block, and so do the bytes of the name up to the
first one that differs, where the length is right. -/
def ComparedInside (blockSize : Nat) (entries : Nat → UInt8) (name : CString) (off : Nat) : Prop :=
  off + 6 < blockSize ∧
    (name.strlen = entryNameLen entries off → ∀ pos < name.strlen,
      (∀ before < pos, name.bytes before = entryName entries off before) →
        off + 8 + pos < blockSize)

def Passed (blockSize : Nat) (entries : Nat → UInt8) (name : CString) (off : Nat) : Prop :=
  entryInode entries off ≠ 0 ∧ ComparedInside blockSize entries name off ∧
    ¬ Matches entries name off

def Settled (blockSize : Nat) (entries : Nat → UInt8) (name : CString) (found : Option Nat)
    (off : Nat) : Prop :=
  match found with
  | none => entryInode entries off = 0 ∧ off + 3 < blockSize
  | some place =>
      place = off ∧ entryInode entries off ≠ 0 ∧ ComparedInside blockSize entries name off ∧
        Matches entries name off

theorem matchReads_inside : (∀ read ∈ matchReads entries name off, read < blockSize) ↔
    ComparedInside blockSize entries name off := by
  rw [matchReads, List.forall_mem_append, bytesAt_inside, ComparedInside]
  apply and_congr
  · constructor
    · intro inside
      exact inside 0 Nat.one_pos
    · intro inside pos isFirst
      omega
  · by_cases sameLength : name.strlen = entryNameLen entries off
    · rw [if_pos sameLength, bytesAt_inside, ← sameLength, Nat.min_self]
      simp only [lt_memcmpCount, Nat.zero_add, and_imp, forall_const]
    · rw [if_neg sameLength]
      constructor
      · intro _ same
        exact absurd same sameLength
      · intro _ read member
        cases member

theorem scanBlock_inside {found : Option Nat} :
    (∃ fuel reads, scanBlock blockSize entries name fuel off = some ⟨reads, found⟩ ∧
      ∀ read ∈ reads, read < blockSize) ↔
      Until (Passed blockSize entries name) (Settled blockSize entries name found)
        (nextEntry entries) off := by
  constructor
  · rintro ⟨fuel, reads, scanned, inside⟩
    induction fuel generalizing off reads with
    | zero => cases scanned
    | succ fuel ih =>
        rw [scanBlock] at scanned
        by_cases goes : entryInode entries off > 0 ∧ off < blockSize
        · rw [if_pos goes] at scanned
          have live : entryInode entries off ≠ 0 := UInt32.pos_iff_ne_zero.mp goes.1
          by_cases isMatch : Matches entries name off
          · rw [if_pos isMatch] at scanned
            cases scanned
            rw [List.forall_mem_append] at inside
            exact .here ⟨rfl, live, matchReads_inside.mp inside.2, isMatch⟩
          · rw [if_neg isMatch, Option.map_eq_some_iff] at scanned
            obtain ⟨⟨laterReads, laterFound⟩, rest, same⟩ := scanned
            cases same
            rw [List.forall_mem_append, List.forall_mem_append, List.forall_mem_append] at inside
            obtain ⟨⟨⟨-, compared⟩, -⟩, later⟩ := inside
            apply Until.later ⟨live, matchReads_inside.mp compared, isMatch⟩
            exact ih laterReads rest later
        · rw [if_neg goes] at scanned
          cases scanned
          have last := bytesAt_inside.mp inside 3 (by decide)
          have deleted : entryInode entries off = 0 := by
            by_contra live
            exact goes ⟨UInt32.pos_iff_ne_zero.mpr live, by omega⟩
          exact .here ⟨deleted, last⟩
  · intro reaches
    induction reaches using Until.induct with
    | here off settled =>
        cases found with
        | none =>
            obtain ⟨deleted, last⟩ := settled
            have ended : ¬ (entryInode entries off > 0 ∧ off < blockSize) := by
              intro goes
              exact UInt32.pos_iff_ne_zero.mp goes.1 deleted
            refine ⟨1, bytesAt off 4, ?_, ?_⟩
            · rw [scanBlock, if_neg ended]
            · apply bytesAt_inside.mpr
              intro pos inEntry
              omega
        | some place =>
            obtain ⟨rfl, live, compared, isMatch⟩ := settled
            have inside := compared.1
            refine ⟨1, bytesAt place 4 ++ matchReads entries name place, ?_, ?_⟩
            · rw [scanBlock, if_pos ⟨UInt32.pos_iff_ne_zero.mpr live, by omega⟩, if_pos isMatch]
            · rw [List.forall_mem_append]
              refine ⟨bytesAt_inside.mpr ?_, matchReads_inside.mpr compared⟩
              intro pos inEntry
              omega
    | later off passed rest ih =>
        obtain ⟨live, compared, isOther⟩ := passed
        obtain ⟨fuel, reads, scanned, later⟩ := ih
        have inside := compared.1
        refine ⟨fuel + 1,
          bytesAt off 4 ++ matchReads entries name off ++ bytesAt (off + 4) 2 ++ reads, ?_, ?_⟩
        · rw [nextEntry] at scanned
          rw [scanBlock, if_pos ⟨UInt32.pos_iff_ne_zero.mpr live, by omega⟩, if_neg isOther,
            scanned]
          rfl
        · simp only [List.forall_mem_append]
          refine ⟨⟨⟨bytesAt_inside.mpr ?_, matchReads_inside.mpr compared⟩,
            bytesAt_inside.mpr ?_⟩, later⟩
          · intro pos inEntry
            omega
          · intro pos inSize
            omega

theorem scanBlock_mono {fuel more : Nat} {scan : Scan} (enough : fuel ≤ more)
    (scanned : scanBlock blockSize entries name fuel off = some scan) :
    scanBlock blockSize entries name more off = some scan := by
  induction fuel generalizing off more scan with
  | zero => cases scanned
  | succ fuel ih =>
      obtain ⟨more, rfl⟩ := Nat.exists_eq_succ_of_ne_zero (show more ≠ 0 by omega)
      rw [scanBlock] at scanned ⊢
      by_cases goes : entryInode entries off > 0 ∧ off < blockSize
      · rw [if_pos goes] at scanned ⊢
        by_cases isMatch : Matches entries name off
        · rw [if_pos isMatch] at scanned ⊢
          exact scanned
        · rw [if_neg isMatch, Option.map_eq_some_iff] at scanned
          obtain ⟨later, rest, same⟩ := scanned
          rw [if_neg isMatch, ih (Nat.le_of_succ_le_succ enough) rest]
          exact congrArg some same
      · rw [if_neg goes] at scanned ⊢
        exact scanned

def Searched (blockSize : Nat) (entries : Nat → UInt8) (name : CString) (found : Option Nat) :
    Prop :=
  Until (Passed blockSize entries name) (Settled blockSize entries name found) (nextEntry entries) 0

def entryAt (entries : Nat → UInt8) (number : Nat) : Nat :=
  (nextEntry entries)^[number] 0

def HasEntry (blockSize : Nat) (entries : Nat → UInt8) (number : Nat) : Prop :=
  number = 0 ∨ entryAt entries number < blockSize

def Counted (blockSize : Nat) (entries : Nat → UInt8) (number : Nat) : Prop :=
  ∀ before < number, HasEntry blockSize entries before → entryAt entries before + 5 < blockSize

/-- What `ext2_readdir` reads of the entry that it finds lies in the block. -/
def FoundInside (blockSize : Nat) (entries : Nat → UInt8) (off : Nat) : Prop :=
  off + 8 + min direntNameSize (entryNameLen entries off) ≤ blockSize

theorem foundReads_inside : (∀ read ∈ foundReads entries off, read < blockSize) ↔
    FoundInside blockSize entries off := by
  rw [foundReads, FoundInside]
  simp only [List.forall_mem_append, bytesAt_inside]
  constructor
  · rintro ⟨⟨⟨type, -⟩, name⟩, -⟩
    have isType := type 0 Nat.one_pos
    by_cases unnamed : min direntNameSize (entryNameLen entries off) = 0
    · omega
    · have last := name (min direntNameSize (entryNameLen entries off) - 1) (by omega)
      omega
  · intro inside
    refine ⟨⟨⟨?_, ?_⟩, ?_⟩, ?_⟩
    all_goals
      intro pos inEntry
      omega

theorem le_iterate_nextEntry {steps : Nat} : off ≤ (nextEntry entries)^[steps] off := by
  induction steps generalizing off with
  | zero => exact Nat.le_refl off
  | succ steps ih => exact Nat.le_trans (Nat.le_add_right _ _) ih

theorem seekEntry_inside {left fileIdx : Nat} :
    (∀ read ∈ (seekEntry blockSize entries left fileIdx off).1, read < blockSize) ↔
      ∀ before < left, (before = 0 ∨ (nextEntry entries)^[before] off < blockSize) →
        (nextEntry entries)^[before] off + 5 < blockSize := by
  induction left generalizing off fileIdx with
  | zero =>
      constructor
      · intro _ before isBefore
        exact absurd isBefore (Nat.not_lt_zero before)
      · intro _ read member
        cases member
  | succ left ih =>
      have size : (∀ read ∈ bytesAt (off + 4) 2, read < blockSize) ↔ off + 5 < blockSize := by
        rw [bytesAt_inside]
        constructor
        · intro inside
          exact inside 1 (by decide)
        · intro inside pos inSize
          omega
      rw [seekEntry]
      by_cases goes : off + entrySize entries off < blockSize
      · rw [if_pos goes]
        dsimp only
        rw [List.forall_mem_append, size, ih]
        constructor
        · rintro ⟨first, later⟩ before isBefore starts
          cases before with
          | zero => exact first
          | succ before =>
              apply later before (Nat.lt_of_succ_lt_succ isBefore)
              exact .inr (starts.resolve_left (Nat.succ_ne_zero before))
        · intro all
          refine ⟨all 0 (Nat.succ_pos left) (.inl rfl), ?_⟩
          intro before isBefore starts
          apply all (before + 1) (Nat.succ_lt_succ isBefore)
          right
          cases before with
          | zero => exact goes
          | succ before => exact starts.resolve_left (Nat.succ_ne_zero before)
      · rw [if_neg goes, size]
        constructor
        · intro first before isBefore starts
          cases before with
          | zero => exact first
          | succ before =>
              have inside := starts.resolve_left (Nat.succ_ne_zero before)
              have behind : off + entrySize entries off ≤ (nextEntry entries)^[before + 1] off :=
                le_iterate_nextEntry
              omega
        · intro all
          exact all 0 (Nat.succ_pos left) (.inl rfl)

theorem seekEntry_reaches {left fileIdx : Nat} :
    ((seekEntry blockSize entries left fileIdx off).2.1 = fileIdx + left ↔
      left = 0 ∨ (nextEntry entries)^[left] off < blockSize) ∧
    ((seekEntry blockSize entries left fileIdx off).2.1 = fileIdx + left →
      (seekEntry blockSize entries left fileIdx off).2.2 = (nextEntry entries)^[left] off) := by
  induction left generalizing off fileIdx with
  | zero => exact ⟨⟨fun _ => .inl rfl, fun _ => rfl⟩, fun _ => rfl⟩
  | succ left ih =>
      rw [seekEntry]
      by_cases goes : off + entrySize entries off < blockSize
      · obtain ⟨reaches, place⟩ := @ih (off + entrySize entries off) (fileIdx + 1)
        rw [if_pos goes]
        dsimp only
        rw [Nat.add_right_comm, Nat.add_assoc] at reaches place
        refine ⟨reaches.trans ?_, place⟩
        constructor
        · rintro (rfl | inside)
          · exact .inr goes
          · exact .inr inside
        · intro inside
          exact .inr (inside.resolve_left (Nat.succ_ne_zero left))
      · rw [if_neg goes]
        have behind : off + entrySize entries off ≤ (nextEntry entries)^[left + 1] off :=
          le_iterate_nextEntry
        constructor
        · constructor
          · intro same
            dsimp only at same
            omega
          · intro starts
            have inside := starts.resolve_left (Nat.succ_ne_zero left)
            omega
        · intro same
          dsimp only at same
          omega

/-- What a pass of `ext2_readdir` over a block reads, with what the passes behind it read. -/
theorem seekEntry_pass {number : Nat} {later : List Nat} :
    (∀ read ∈ (seekEntry blockSize entries number 0 0).1 ++
        (if (seekEntry blockSize entries number 0 0).2.1 = number then
          foundReads entries (seekEntry blockSize entries number 0 0).2.2 else later),
      read < blockSize) ↔
      Counted blockSize entries number ∧
        (HasEntry blockSize entries number →
          FoundInside blockSize entries (entryAt entries number)) ∧
        (¬ HasEntry blockSize entries number → ∀ read ∈ later, read < blockSize) := by
  have reaches := @seekEntry_reaches entries blockSize 0 number 0
  rw [Nat.zero_add] at reaches
  have counted : (∀ read ∈ (seekEntry blockSize entries number 0 0).1, read < blockSize) ↔
      Counted blockSize entries number := seekEntry_inside
  have has : (seekEntry blockSize entries number 0 0).2.1 = number ↔
      HasEntry blockSize entries number := reaches.1
  rw [List.forall_mem_append, counted]
  by_cases found : HasEntry blockSize entries number
  · rw [if_pos (has.mpr found), reaches.2 (has.mpr found), foundReads_inside, entryAt]
    simp only [found, not_true, false_implies, true_implies, and_true]
  · rw [if_neg (fun same => found (has.mp same))]
    simp only [found, not_false_iff, false_implies, true_implies, true_and]

namespace Ext2

def LookupFits (volume : Ext2) (parent : Nat → UInt32) (name : CString) : Nat → Prop :=
  Until
    (fun i => parent (directBlock i) ≠ 0 ∧
      Searched volume.blockSize.toNat (volume.dirBlock parent i) name none)
    (fun i => i = directBlockCount ∨ parent (directBlock i) = 0 ∨
      ∃ off, Searched volume.blockSize.toNat (volume.dirBlock parent i) name (some off))
    Nat.succ

/-- Every block that `ext2_readdir` comes to has the fields inside of it that are read. -/
def ReaddirFits (volume : Ext2) (inode : Nat → UInt32) (number : Nat) : Nat → Prop :=
  Until
    (fun i => inode (directBlock i) ≠ 0 ∧
      Counted volume.blockSize.toNat (volume.dirBlock inode i) number ∧
      ¬ HasEntry volume.blockSize.toNat (volume.dirBlock inode i) number)
    (fun i => i = directBlockCount ∨ inode (directBlock i) = 0 ∨
      Counted volume.blockSize.toNat (volume.dirBlock inode i) number ∧
      HasEntry volume.blockSize.toNat (volume.dirBlock inode i) number ∧
      FoundInside volume.blockSize.toNat (volume.dirBlock inode i)
        (entryAt (volume.dirBlock inode i) number))
    Nat.succ

variable {volume : Ext2} {parent inode : Nat → UInt32} {i left : Nat}

theorem subInodeLoop_mono {fuel more : Nat} {lookup : Lookup} (enough : fuel ≤ more)
    (found : volume.subInodeLoop parent name inode fuel left i = some lookup) :
    volume.subInodeLoop parent name inode more left i = some lookup := by
  induction left generalizing i lookup with
  | zero => exact found
  | succ left ih =>
      rw [subInodeLoop] at found ⊢
      by_cases used : parent (directBlock i) > 0
      · rw [if_pos used] at found ⊢
        cases scanned : scanBlock volume.blockSize.toNat
            (volume.loadBlock (parent (directBlock i))) name fuel 0 with
        | none =>
            dsimp only at found
            rw [scanned] at found
            cases found
        | some scan =>
            dsimp only at found ⊢
            rw [scanBlock_mono enough scanned]
            rw [scanned] at found
            obtain ⟨reads, place⟩ := scan
            cases place with
            | some off => exact found
            | none =>
                dsimp only at found ⊢
                rw [Option.map_eq_some_iff] at found
                obtain ⟨later, rest, same⟩ := found
                rw [ih rest]
                exact congrArg some same
      · rw [if_neg used] at found ⊢
        exact found

theorem subInodeLoop_inside (isLeft : left + i = directBlockCount) :
    (∃ fuel lookup, volume.subInodeLoop parent name inode fuel left i = some lookup ∧
      ∀ read ∈ lookup.reads, read < volume.blockSize.toNat) ↔ volume.LookupFits parent name i := by
  induction left generalizing i with
  | zero =>
      constructor
      · intro _
        exact .here (.inl (by omega))
      · intro _
        refine ⟨0, _, rfl, ?_⟩
        intro read member
        cases member
  | succ left ih =>
      have fewer : left + i.succ = directBlockCount := by omega
      by_cases used : parent (directBlock i) > 0
      · constructor
        · rintro ⟨fuel, lookup, found, inside⟩
          rw [subInodeLoop, if_pos used] at found
          dsimp only at found
          cases scanned : scanBlock volume.blockSize.toNat
              (volume.loadBlock (parent (directBlock i))) name fuel 0 with
          | none =>
              rw [scanned] at found
              cases found
          | some scan =>
              rw [scanned] at found
              obtain ⟨reads, place⟩ := scan
              cases place with
              | some off =>
                  dsimp only at found
                  cases found
                  have searched := scanBlock_inside.mp ⟨fuel, reads, scanned, inside⟩
                  exact .here (.inr (.inr ⟨off, searched⟩))
              | none =>
                  dsimp only at found
                  rw [Option.map_eq_some_iff] at found
                  obtain ⟨later, rest, same⟩ := found
                  subst same
                  rw [List.forall_mem_append] at inside
                  apply Until.later
                  · refine ⟨UInt32.pos_iff_ne_zero.mp used, ?_⟩
                    exact scanBlock_inside.mp ⟨fuel, reads, scanned, inside.1⟩
                  · exact (ih fewer).mp ⟨fuel, later, rest, inside.2⟩
        · intro fits
          rcases fits.goal_or_next with (isEnd | unused | ⟨off, searched⟩) | ⟨⟨-, searched⟩, later⟩
          · omega
          · exact absurd unused (UInt32.pos_iff_ne_zero.mp used)
          · obtain ⟨fuel, reads, scanned, inside⟩ := scanBlock_inside.mpr searched
            refine ⟨fuel, ?_⟩
            rw [subInodeLoop, if_pos used]
            dsimp only
            rw [dirBlock] at scanned
            rw [scanned]
            exact ⟨_, rfl, inside⟩
          · obtain ⟨fuel, reads, scanned, inside⟩ := scanBlock_inside.mpr searched
            obtain ⟨more, lookup, rest, restInside⟩ := (ih fewer).mpr later
            rw [dirBlock] at scanned
            refine ⟨max fuel more, { lookup with reads := reads ++ lookup.reads }, ?_, ?_⟩
            · rw [subInodeLoop, if_pos used]
              dsimp only
              rw [scanBlock_mono (Nat.le_max_left fuel more) scanned]
              dsimp only
              rw [subInodeLoop_mono (Nat.le_max_right fuel more) rest]
              rfl
            · rw [List.forall_mem_append]
              exact ⟨inside, restInside⟩
      · constructor
        · intro _
          exact .here (.inr (.inl (by simpa using used)))
        · intro _
          refine ⟨0, ⟨[], -1, inode⟩, ?_, ?_⟩
          · rw [subInodeLoop, if_neg used]
          · intro read member
            cases member

theorem readdirLoop_negative {offset : Int} (negative : offset < 0) :
    (volume.readdirLoop inode offset left i).1 = [] := by
  induction left generalizing i with
  | zero => rfl
  | succ left ih =>
      rw [readdirLoop]
      split
      · have isZero : offset.toNat = 0 := by omega
        have notOffset : ¬ ((0 : Nat) : Int) = offset := by omega
        rw [isZero]
        dsimp only [seekEntry]
        rw [if_neg notOffset, ih]
        rfl
      · rfl

theorem readdirLoop_inside {number : Nat} (isLeft : left + i = directBlockCount) :
    (∀ read ∈ (volume.readdirLoop inode number left i).1, read < volume.blockSize.toNat) ↔
      volume.ReaddirFits inode number i := by
  induction left generalizing i with
  | zero =>
      constructor
      · intro _
        exact .here (.inl (by omega))
      · intro _ read member
        cases member
  | succ left ih =>
      have fewer : left + i.succ = directBlockCount := by omega
      rw [readdirLoop]
      by_cases used : inode (directBlock i) > 0
      · rw [if_pos used]
        have pass := @seekEntry_pass (volume.dirBlock inode i) volume.blockSize.toNat number
          (volume.readdirLoop inode number left (i + 1)).1
        rw [dirBlock] at pass
        have reads : ∀ sought : List Nat × Nat × Nat, ∀ later : List Nat × Option (Nat × Nat),
            (if (sought.2.1 : Int) = number then
              (sought.1 ++ foundReads (volume.loadBlock (inode (directBlock i))) sought.2.2,
                some (i, sought.2.2))
            else (sought.1 ++ later.1, later.2)).1 =
            sought.1 ++ (if sought.2.1 = number then
              foundReads (volume.loadBlock (inode (directBlock i))) sought.2.2 else later.1) := by
          intro sought later
          simp only [Int.natCast_inj]
          split
          · rfl
          · rfl
        dsimp only
        rw [Int.toNat_natCast, reads, pass]
        constructor
        · rintro ⟨counted, found, later⟩
          by_cases has : HasEntry volume.blockSize.toNat (volume.dirBlock inode i) number
          · exact .here (.inr (.inr ⟨counted, has, found has⟩))
          · apply Until.later ⟨UInt32.pos_iff_ne_zero.mp used, counted, has⟩
            exact (ih fewer).mp (later has)
        · intro fits
          rcases fits.goal_or_next with
            (isEnd | unused | ⟨counted, has, found⟩) | ⟨⟨-, counted, hasNot⟩, later⟩
          · omega
          · exact absurd unused (UInt32.pos_iff_ne_zero.mp used)
          · exact ⟨counted, fun _ => found, fun hasNot => absurd has hasNot⟩
          · exact ⟨counted, fun has => absurd has hasNot, fun _ => (ih fewer).mpr later⟩
      · rw [if_neg used]
        constructor
        · intro _
          exact .here (.inr (.inl (by simpa using used)))
        · intro _ read member
          cases member

/-- `get_sub_inode` and `ext2_readdir` of a directory end, and read only the bytes of the blocks
that they loaded. -/
structure ScansInside (volume : Ext2) (parent : Nat → UInt32) (name : CString) (dirent : Dirent) :
    Prop where
  lookup : ∀ inode, ∃ fuel lookup, volume.getSubInode parent name inode fuel = some lookup ∧
    ∀ read ∈ lookup.reads, read < volume.blockSize.toNat
  readdir : ∀ childInode, ∀ read ∈ (volume.ext2Readdir parent dirent childInode).1,
    read < volume.blockSize.toNat

/-- The blocks that are read for a name and for an offset fit what is read of them. -/
structure ScansFit (volume : Ext2) (parent : Nat → UInt32) (name : CString) (offset : Int) :
    Prop where
  lookup : volume.LookupFits parent name 0
  readdir : 0 ≤ offset → volume.ReaddirFits parent offset.toNat 0

variable {dirent : Dirent} {childInode : Nat → UInt32}

theorem ext2Readdir_reads : (volume.ext2Readdir parent dirent childInode).1 =
    (volume.readdirLoop parent dirent.offset directBlockCount 0).1 := by
  rw [ext2Readdir]
  cases volume.readdirLoop parent dirent.offset directBlockCount 0 with
  | mk reads found =>
      cases found with
      | none => rfl
      | some place => rfl

theorem lookupFits_iff : (∀ inode, ∃ fuel lookup,
    volume.getSubInode parent name inode fuel = some lookup ∧
      ∀ read ∈ lookup.reads, read < volume.blockSize.toNat) ↔ volume.LookupFits parent name 0 := by
  constructor
  · intro ends
    exact (subInodeLoop_inside (Nat.add_zero directBlockCount)).mp (ends fun _ => 0)
  · intro fits inode
    exact (subInodeLoop_inside (Nat.add_zero directBlockCount)).mpr fits

theorem readdirFits_iff : (∀ childInode,
    ∀ read ∈ (volume.ext2Readdir parent dirent childInode).1, read < volume.blockSize.toNat) ↔
      (0 ≤ dirent.offset → volume.ReaddirFits parent dirent.offset.toNat 0) := by
  simp only [ext2Readdir_reads, forall_const]
  by_cases negative : dirent.offset < 0
  · rw [readdirLoop_negative negative]
    constructor
    · intro _ notNegative
      omega
    · intro _ read member
      cases member
  · have isNumber : (dirent.offset.toNat : Int) = dirent.offset := Int.toNat_of_nonneg (by omega)
    rw [← readdirLoop_inside (Nat.add_zero directBlockCount), isNumber]
    constructor
    · intro inside _
      exact inside
    · intro inside
      exact inside (by omega)

/-- The scans of a directory end inside of its blocks just when the blocks fit what is read of
them. -/
theorem scansInside_iff (volume : Ext2) (parent : Nat → UInt32) (name : CString)
    (dirent : Dirent) :
    volume.ScansInside parent name dirent ↔ volume.ScansFit parent name dirent.offset := by
  constructor
  · intro inside
    exact ⟨lookupFits_iff.mp inside.lookup, readdirFits_iff.mp inside.readdir⟩
  · intro fits
    exact ⟨lookupFits_iff.mpr fits.lookup, readdirFits_iff.mpr fits.readdir⟩

def stuckDir : Ext2 where
  superBlock := ⟨16, 64, 0, 0, 0, 64, 16, 128⟩
  blockGroups := fun _ => ⟨0, 0, 3, 0⟩
  disk := fun address => if address = 10240 then 1 else 0
  heap := fun _ => 0
  writes := []

theorem stuckDir_search {found : Option Nat} :
    ¬ Searched stuckDir.blockSize.toNat (stuckDir.dirBlock oneBlock 0) nameA found := by
  rintro ⟨steps, -, settled⟩
  have stays : nextEntry (stuckDir.dirBlock oneBlock 0) 0 = 0 := by decide
  rw [Function.iterate_fixed stays] at settled
  cases found with
  | none => exact absurd settled.1 (by decide)
  | some off =>
      have sameLength := settled.2.2.2.1
      rw [strlen_nameA] at sameLength
      exact absurd sameLength (by decide)

/-- The search for a name of one character never ends. -/
theorem scansInside_fails :
    ¬ stuckDir.ScansInside oneBlock nameA ⟨0, 0, .unknown, fun _ => 0⟩ := by
  intro inside
  rcases (lookupFits_iff.mp inside.lookup).goal_or_next with
    (isEnd | unused | ⟨off, searched⟩) | ⟨⟨-, searched⟩, -⟩
  · exact absurd isEnd (by decide)
  · exact absurd unused (by decide)
  · exact stuckDir_search searched
  · exact stuckDir_search searched

end Ext2

end CleanOS.Fs
