import CleanOS.Fs.Ext2Dir
import CleanOS.Fs.Ext2Read

/-!
# Looking up names in ext2 directories

What `get_sub_inode` finds in a directory whose entries tile its blocks.
-/

namespace CleanOS.Fs

open CleanOS.Common

def nameChars (name : CString) : List UInt8 :=
  (List.range name.strlen).map name.bytes

def entryChars (entries : Nat → UInt8) (off : Nat) : List UInt8 :=
  (List.range (entryNameLen entries off)).map (entryName entries off)

def Tiled (blockSize : Nat) (entries : Nat → UInt8) : Nat → List Nat → Prop
  | off, [] => off = blockSize
  | off, entry :: rest =>
      entry = off ∧ 8 + entryNameLen entries off ≤ entrySize entries off ∧
        off + entrySize entries off ≤ blockSize ∧
        Tiled blockSize entries (off + entrySize entries off) rest

def firstMatch (entries : Nat → UInt8) (name : CString) : List Nat → Option Nat
  | [] => none
  | off :: rest =>
      if entryInode entries off = 0 then none
      else if Matches entries name off then some off
      else firstMatch entries name rest

variable {entries : Nat → UInt8} {name : CString} {blockSize off : Nat} {offs : List Nat}

theorem matches_iff : Matches entries name off ↔ entryChars entries off = nameChars name := by
  rw [Matches, memcmp_eq_zero]
  constructor
  · rintro ⟨sameLength, same⟩
    rw [sameLength, Nat.min_self] at same
    rw [entryChars, nameChars, sameLength]
    apply List.map_congr_left
    intro pos member
    exact (same pos (List.mem_range.mp member)).symm
  · intro same
    have sameLength := congrArg List.length same
    rw [entryChars, nameChars, List.length_map, List.length_map, List.length_range,
      List.length_range] at sameLength
    refine ⟨sameLength.symm, ?_⟩
    intro pos inside
    rw [sameLength, Nat.min_self] at inside
    rw [entryChars, nameChars, sameLength] at same
    exact (List.map_inj_left.mp same pos (List.mem_range.mpr inside)).symm

namespace Tiled

theorem length_le (tiled : Tiled blockSize entries off offs) :
    off + 8 * offs.length ≤ blockSize := by
  induction offs generalizing off with
  | nil => exact Nat.le_of_eq tiled
  | cons entry rest ih =>
      obtain ⟨-, room, -, later⟩ := tiled
      have behind := ih later
      rw [List.length_cons]
      omega

theorem bounds (tiled : Tiled blockSize entries off offs) :
    ∀ entry ∈ offs, off ≤ entry ∧ entry < blockSize := by
  induction offs generalizing off with
  | nil =>
      intro entry member
      cases member
  | cons first rest ih =>
      obtain ⟨rfl, room, inside, later⟩ := tiled
      intro entry member
      rcases List.mem_cons.mp member with rfl | behind
      · omega
      · have found := ih later entry behind
        omega

theorem ordered (tiled : Tiled blockSize entries off offs) : offs.Pairwise (· < ·) := by
  induction offs generalizing off with
  | nil => exact List.Pairwise.nil
  | cons first rest ih =>
      obtain ⟨rfl, room, -, later⟩ := tiled
      apply List.Pairwise.cons
      · intro entry behind
        have found := later.bounds entry behind
        omega
      · exact ih later

end Tiled

theorem scanBlock_tiled (name : CString) (tiled : Tiled blockSize entries off offs) {fuel : Nat}
    (enough : offs.length < fuel) :
    ∃ reads, scanBlock blockSize entries name fuel off =
      some ⟨reads, firstMatch entries name offs⟩ := by
  induction offs generalizing off fuel with
  | nil =>
      obtain ⟨fuel, rfl⟩ := Nat.exists_eq_succ_of_ne_zero (Nat.ne_of_gt enough)
      have ended : ¬ (entryInode entries off > 0 ∧ off < blockSize) := by
        intro goes
        exact absurd tiled (Nat.ne_of_lt goes.2)
      rw [scanBlock, if_neg ended]
      exact ⟨_, rfl⟩
  | cons first rest ih =>
      obtain ⟨fuel, rfl⟩ := Nat.exists_eq_succ_of_ne_zero (Nat.ne_of_gt (Nat.zero_lt_of_lt enough))
      obtain ⟨rfl, room, inside, later⟩ := tiled
      rw [scanBlock, firstMatch]
      by_cases deleted : entryInode entries first = 0
      · have ended : ¬ (entryInode entries first > 0 ∧ first < blockSize) := by
          intro goes
          rw [deleted] at goes
          exact absurd goes.1 (by decide)
        rw [if_neg ended, if_pos deleted]
        exact ⟨_, rfl⟩
      · have goes : entryInode entries first > 0 ∧ first < blockSize :=
          ⟨UInt32.pos_iff_ne_zero.mpr deleted, by omega⟩
        rw [if_pos goes, if_neg deleted]
        by_cases found : Matches entries name first
        · rw [if_pos found, if_pos found]
          exact ⟨_, rfl⟩
        · obtain ⟨reads, scanned⟩ := ih later (Nat.lt_of_succ_lt_succ enough)
          rw [if_neg found, if_neg found, scanned]
          exact ⟨_, rfl⟩

theorem firstMatch_mem (found : firstMatch entries name offs = some off) :
    off ∈ offs ∧ entryInode entries off ≠ 0 ∧ Matches entries name off := by
  induction offs with
  | nil => cases found
  | cons first rest ih =>
      rw [firstMatch] at found
      by_cases deleted : entryInode entries first = 0
      · rw [if_pos deleted] at found
        cases found
      · rw [if_neg deleted] at found
        by_cases isMatch : Matches entries name first
        · rw [if_pos isMatch] at found
          cases found
          exact ⟨List.mem_cons_self, deleted, isMatch⟩
        · rw [if_neg isMatch] at found
          obtain ⟨member, live, same⟩ := ih found
          exact ⟨List.mem_cons_of_mem _ member, live, same⟩

theorem firstMatch_isSome (entries : Nat → UInt8) (name : CString)
    (ordered : offs.Pairwise (· < ·)) :
    (firstMatch entries name offs).isSome ↔
      ∃ off ∈ offs, entryInode entries off ≠ 0 ∧ Matches entries name off ∧
        ∀ other ∈ offs, other < off → entryInode entries other ≠ 0 := by
  induction offs with
  | nil =>
      constructor
      · intro found
        cases found
      · rintro ⟨off, member, -⟩
        cases member
  | cons first rest ih =>
      obtain ⟨least, later⟩ := List.pairwise_cons.mp ordered
      rw [firstMatch]
      by_cases deleted : entryInode entries first = 0
      · rw [if_pos deleted]
        constructor
        · intro found
          cases found
        · rintro ⟨off, member, live, -, before⟩
          rcases List.mem_cons.mp member with rfl | behind
          · exact absurd deleted live
          · exact absurd deleted (before first List.mem_cons_self (least off behind))
      · rw [if_neg deleted]
        by_cases isMatch : Matches entries name first
        · rw [if_pos isMatch]
          constructor
          · intro _
            refine ⟨first, List.mem_cons_self, deleted, isMatch, ?_⟩
            intro other member smaller
            rcases List.mem_cons.mp member with rfl | behind
            · exact deleted
            · exact absurd (least other behind) (Nat.not_lt_of_gt smaller)
          · intro _
            rfl
        · rw [if_neg isMatch, ih later]
          constructor
          · rintro ⟨off, member, live, same, before⟩
            refine ⟨off, List.mem_cons_of_mem _ member, live, same, ?_⟩
            intro other otherMember smaller
            rcases List.mem_cons.mp otherMember with rfl | behind
            · exact deleted
            · exact before other behind smaller
          · rintro ⟨off, member, live, same, before⟩
            rcases List.mem_cons.mp member with rfl | behind
            · exact absurd same isMatch
            · exact ⟨off, behind, live, same, fun other otherMember =>
                before other (List.mem_cons_of_mem _ otherMember)⟩

namespace Ext2

def dirBlock (volume : Ext2) (parent : Nat → UInt32) (i : Nat) : Nat → UInt8 :=
  volume.loadBlock (parent (directBlock i))

/-- The entries of the blocks of a directory, from a block on.  The last block is followed by none,
or is the last direct one. -/
def DirFormat (volume : Ext2) (parent : Nat → UInt32) : Nat → List (List Nat) → Prop
  | i, [] => i = directBlockCount ∨ i < directBlockCount ∧ parent (directBlock i) = 0
  | i, offs :: rest =>
      i < directBlockCount ∧ parent (directBlock i) ≠ 0 ∧
        Tiled volume.blockSize.toNat (volume.dirBlock parent i) 0 offs ∧
        DirFormat volume parent (i + 1) rest

def dirPlaces : Nat → List (List Nat) → List (Nat × Nat)
  | _, [] => []
  | i, offs :: rest => offs.map (fun off => (i, off)) ++ dirPlaces (i + 1) rest

def inodeAt (volume : Ext2) (parent : Nat → UInt32) (place : Nat × Nat) : UInt32 :=
  entryInode (volume.dirBlock parent place.1) place.2

def nameAt (volume : Ext2) (parent : Nat → UInt32) (place : Nat × Nat) : List UInt8 :=
  entryChars (volume.dirBlock parent place.1) place.2

/-- A directory: its entries tile its blocks, and those with an inode have an inode of the file
system and a name of their own. -/
structure IsDir (volume : Ext2) (parent : Nat → UInt32) (blocks : List (List Nat)) : Prop where
  fit : volume.TablesFit
  format : volume.DirFormat parent 0 blocks
  numbered : ∀ place ∈ dirPlaces 0 blocks, volume.inodeAt parent place ≠ 0 →
    volume.Numbered (volume.inodeAt parent place)
  unique : ∀ place ∈ dirPlaces 0 blocks, ∀ other ∈ dirPlaces 0 blocks,
    volume.inodeAt parent place ≠ 0 → volume.inodeAt parent other ≠ 0 →
      volume.nameAt parent place = volume.nameAt parent other → place = other

def firstFound (volume : Ext2) (parent : Nat → UInt32) (name : CString) :
    Nat → List (List Nat) → Option (Nat × Nat)
  | _, [] => none
  | i, offs :: rest =>
      match firstMatch (volume.dirBlock parent i) name offs with
      | some off => some (i, off)
      | none => firstFound volume parent name (i + 1) rest

/-- A lookup gives the inode of the live entry with the name, and -1 when there is none. -/
def LooksUp (volume : Ext2) (parent : Nat → UInt32) (blocks : List (List Nat)) (name : CString) :
    Prop :=
  ∀ inode fuel, volume.blockSize.toNat < fuel → ∃ lookup,
    volume.getSubInode parent name inode fuel = some lookup ∧
    (∀ place ∈ dirPlaces 0 blocks, volume.inodeAt parent place ≠ 0 →
      volume.nameAt parent place = nameChars name →
        lookup.idx = (volume.inodeAt parent place).toNat) ∧
    ((∀ place ∈ dirPlaces 0 blocks, volume.inodeAt parent place ≠ 0 →
      volume.nameAt parent place ≠ nameChars name) → lookup.idx = -1)

/-- No deleted entry stands before the live entry with the name in its block. -/
def Visible (volume : Ext2) (parent : Nat → UInt32) (blocks : List (List Nat)) (name : CString) :
    Prop :=
  ∀ place ∈ dirPlaces 0 blocks, volume.inodeAt parent place ≠ 0 →
    volume.nameAt parent place = nameChars name →
      ∀ other ∈ dirPlaces 0 blocks, other.1 = place.1 → other.2 < place.2 →
        volume.inodeAt parent other ≠ 0

variable {volume : Ext2} {parent : Nat → UInt32} {blocks : List (List Nat)} {i fuel : Nat}
  {place : Nat × Nat} {inode : Nat → UInt32}

theorem dirPlaces_block (member : place ∈ dirPlaces i blocks) : i ≤ place.1 := by
  induction blocks generalizing i with
  | nil => cases member
  | cons offs rest ih =>
      rcases List.mem_append.mp member with here | later
      · obtain ⟨_, _, rfl⟩ := List.mem_map.mp here
        exact Nat.le_refl i
      · exact Nat.le_of_succ_le (ih later)

theorem mem_dirPlaces_cons {offs : List Nat} :
    place ∈ dirPlaces i (offs :: blocks) ↔
      place.1 = i ∧ place.2 ∈ offs ∨ place ∈ dirPlaces (i + 1) blocks := by
  rw [dirPlaces, List.mem_append, List.mem_map]
  constructor
  · rintro (⟨off, member, rfl⟩ | later)
    · exact .inl ⟨rfl, member⟩
    · exact .inr later
  · rintro (⟨rfl, member⟩ | later)
    · exact .inl ⟨place.2, member, rfl⟩
    · exact .inr later

theorem DirFormat.ended (format : volume.DirFormat parent i []) (inside : i < directBlockCount) :
    ¬ parent (directBlock i) > 0 := by
  rcases format with isLast | ⟨-, isZero⟩
  · omega
  · rw [isZero]
    decide

theorem subInodeLoop_format (name : CString) (inode : Nat → UInt32)
    (format : volume.DirFormat parent i blocks)
    (enough : volume.blockSize.toNat < fuel) {left : Nat} (isLeft : left + i = directBlockCount) :
    ∃ lookup, volume.subInodeLoop parent name inode fuel left i = some lookup ∧
      lookup.idx = match volume.firstFound parent name i blocks with
        | none => -1
        | some place => toInt32 (volume.inodeAt parent place).toNat := by
  induction blocks generalizing i left with
  | nil =>
      cases left with
      | zero => exact ⟨_, rfl, rfl⟩
      | succ left =>
          rw [subInodeLoop, if_neg (format.ended (by omega))]
          exact ⟨_, rfl, rfl⟩
  | cons offs rest ih =>
      obtain ⟨inside, used, tiled, later⟩ := format
      obtain ⟨left, rfl⟩ := Nat.exists_eq_succ_of_ne_zero (show left ≠ 0 by omega)
      have length := tiled.length_le
      have isEnough : offs.length < fuel := by omega
      obtain ⟨reads, scanned⟩ := scanBlock_tiled name tiled isEnough
      rw [subInodeLoop, if_pos (UInt32.pos_iff_ne_zero.mpr used), firstFound]
      dsimp only
      rw [dirBlock] at scanned ⊢
      rw [scanned]
      cases firstMatch (volume.loadBlock (parent (directBlock i))) name offs with
      | some off =>
          dsimp only
          refine ⟨_, rfl, ?_⟩
          dsimp only
          rw [inodeAt, dirBlock]
      | none =>
          have fewer : left + (i + 1) = directBlockCount := by omega
          obtain ⟨lookup, isLookup, idx⟩ := ih later fewer
          dsimp only
          rw [isLookup]
          exact ⟨_, rfl, idx⟩

theorem firstFound_mem (found : volume.firstFound parent name i blocks = some place) :
    place ∈ dirPlaces i blocks ∧ volume.inodeAt parent place ≠ 0 ∧
      volume.nameAt parent place = nameChars name := by
  induction blocks generalizing i with
  | nil => cases found
  | cons offs rest ih =>
      rw [firstFound] at found
      cases here : firstMatch (volume.dirBlock parent i) name offs with
      | some off =>
          rw [here] at found
          cases found
          obtain ⟨member, live, same⟩ := firstMatch_mem here
          exact ⟨mem_dirPlaces_cons.mpr (.inl ⟨rfl, member⟩), live, matches_iff.mp same⟩
      | none =>
          rw [here] at found
          obtain ⟨member, live, same⟩ := ih found
          exact ⟨mem_dirPlaces_cons.mpr (.inr member), live, same⟩

theorem firstFound_isSome (name : CString) (format : volume.DirFormat parent i blocks) :
    (volume.firstFound parent name i blocks).isSome ↔
      ∃ place ∈ dirPlaces i blocks, volume.inodeAt parent place ≠ 0 ∧
        volume.nameAt parent place = nameChars name ∧
        ∀ other ∈ dirPlaces i blocks, other.1 = place.1 → other.2 < place.2 →
          volume.inodeAt parent other ≠ 0 := by
  induction blocks generalizing i with
  | nil =>
      constructor
      · intro found
        cases found
      · rintro ⟨place, member, -⟩
        cases member
  | cons offs rest ih =>
      obtain ⟨-, -, tiled, later⟩ := format
      have inBlock := firstMatch_isSome (volume.dirBlock parent i) name tiled.ordered
      have behind := ih later
      have cases : (volume.firstFound parent name i (offs :: rest)).isSome ↔
          (firstMatch (volume.dirBlock parent i) name offs).isSome ∨
            (volume.firstFound parent name (i + 1) rest).isSome := by
        rw [firstFound]
        cases firstMatch (volume.dirBlock parent i) name offs with
        | some off => simp
        | none => simp
      rw [cases, inBlock, behind]
      constructor
      · rintro (⟨off, member, live, same, before⟩ | ⟨place, member, live, same, before⟩)
        · refine ⟨(i, off), mem_dirPlaces_cons.mpr (.inl ⟨rfl, member⟩), live,
            matches_iff.mp same, ?_⟩
          rintro ⟨block, other⟩ otherMember rfl smaller
          rcases mem_dirPlaces_cons.mp otherMember with here | later
          · exact before other here.2 smaller
          · exact absurd (dirPlaces_block later) (Nat.not_succ_le_self _)
        · refine ⟨place, mem_dirPlaces_cons.mpr (.inr member), live, same, ?_⟩
          intro other otherMember sameBlock smaller
          rcases mem_dirPlaces_cons.mp otherMember with here | later
          · have isLater := dirPlaces_block member
            omega
          · exact before other later sameBlock smaller
      · rintro ⟨place, member, live, same, before⟩
        rcases mem_dirPlaces_cons.mp member with ⟨isBlock, here⟩ | later
        · left
          subst isBlock
          refine ⟨place.2, here, live, matches_iff.mpr same, ?_⟩
          intro other otherMember smaller
          exact before (place.1, other) (mem_dirPlaces_cons.mpr (.inl ⟨rfl, otherMember⟩)) rfl
            smaller
        · right
          exact ⟨place, later, live, same, fun other otherMember =>
            before other (mem_dirPlaces_cons.mpr (.inr otherMember))⟩

theorem TablesFit.toInt32_number (fit : volume.TablesFit) {inodeIdx : UInt32}
    (numbered : volume.Numbered inodeIdx) : toInt32 inodeIdx.toNat = inodeIdx.toNat := by
  have total := fit.inodeTotal_le
  have number := numbered.2
  apply toInt32_eq
  · omega
  · omega

theorem LooksUp.visible (isDir : volume.IsDir parent blocks)
    (looksUp : volume.LooksUp parent blocks name) : volume.Visible parent blocks name := by
  intro place member live same
  have isSome := firstFound_isSome name isDir.format
  obtain ⟨lookup, isLookup, found, -⟩ :=
    looksUp (fun _ => 0) (volume.blockSize.toNat + 1) (Nat.lt_succ_self _)
  obtain ⟨other, isOther, idx⟩ := subInodeLoop_format name (fun _ => 0) isDir.format
    (Nat.lt_succ_self _) (Nat.add_zero directBlockCount)
  have sameLookup : lookup = other := Option.some.inj (isLookup.symm.trans isOther)
  subst sameLookup
  rw [found place member live same] at idx
  cases first : volume.firstFound parent name 0 blocks with
  | none =>
      rw [first] at idx
      dsimp only at idx
      omega
  | some visible =>
      rw [first] at isSome
      obtain ⟨hit, hitMember, hitLive, hitSame, before⟩ := isSome.mp rfl
      have isPlace := isDir.unique hit hitMember place member hitLive live
        (hitSame.trans same.symm)
      subst isPlace
      exact before

theorem Visible.looksUp (isDir : volume.IsDir parent blocks)
    (visible : volume.Visible parent blocks name) : volume.LooksUp parent blocks name := by
  intro inode fuel enough
  have isSome := firstFound_isSome name isDir.format
  obtain ⟨lookup, isLookup, idx⟩ := subInodeLoop_format name inode isDir.format enough
    (Nat.add_zero directBlockCount)
  refine ⟨lookup, isLookup, ?_, ?_⟩
  · intro place member live same
    have found := isSome.mpr ⟨place, member, live, same, visible place member live same⟩
    obtain ⟨hit, isHit⟩ := Option.isSome_iff_exists.mp found
    obtain ⟨hitMember, hitLive, hitSame⟩ := firstFound_mem isHit
    have isPlace := isDir.unique hit hitMember place member hitLive live
      (hitSame.trans same.symm)
    rw [isHit] at idx
    rw [idx, ← isPlace]
    exact isDir.fit.toInt32_number (isDir.numbered hit hitMember hitLive)
  · intro none
    cases isHit : volume.firstFound parent name 0 blocks with
    | none =>
        rw [isHit] at idx
        exact idx
    | some hit =>
        obtain ⟨hitMember, hitLive, hitSame⟩ := firstFound_mem isHit
        exact absurd hitSame (none hit hitMember hitLive)

def twoEntries : Nat → UInt8 := fun pos =>
  ([0, 0, 0, 0, 12, 0, 1, 1, 0x62, 0, 0, 0, 11, 0, 0, 0, 244, 3, 1, 1, 0x61] : List UInt8).getD pos 0

def oneDir : Ext2 where
  superBlock := ⟨16, 64, 0, 0, 0, 64, 16, 128⟩
  blockGroups := fun _ => ⟨0, 0, 3, 0⟩
  disk := fun address => if address < 10240 then 0 else twoEntries (address - 10240)
  heap := fun _ => 0
  writes := []

def oneBlock : Nat → UInt32 := fun word => if word = directBlock 0 then 10 else 0

def nameA : CString := ⟨fun pos => if pos = 0 then 0x61 else 0, 1, rfl⟩

theorem strlen_nameA : nameA.strlen = 1 := by
  apply CString.strlen_eq rfl
  intro pos inside
  obtain rfl : pos = 0 := by omega
  decide

theorem oneDir_isDir : oneDir.IsDir oneBlock [[0, 12]] where
  fit :=
    { blockSize := by decide
      inodeSize := by decide
      wholeInodes := by decide
      inodesPerGroup := by decide
      low := by
        intro group hasGroup
        have isGroup : group * 16 < 16 := hasGroup
        obtain rfl : group = 0 := by omega
        decide
      apart := by
        intro group other hasGroup otherGroup different
        have isGroup : group * 16 < 16 := hasGroup
        have isOther : other * 16 < 16 := otherGroup
        omega }
  format := by
    refine ⟨by decide, by decide, ⟨rfl, by decide, by decide, rfl, by decide, by decide, ?_⟩,
      .inr ⟨by decide, rfl⟩⟩
    rfl
  numbered := by
    intro place member live
    rcases List.mem_cons.mp member with rfl | member
    · exact absurd rfl live
    · rw [List.mem_singleton.mp member]
      exact ⟨by decide, by decide⟩
  unique := by
    intro place member other otherMember live otherLive _
    rcases List.mem_cons.mp member with rfl | member
    · exact absurd rfl live
    · rcases List.mem_cons.mp otherMember with rfl | otherMember
      · exact absurd rfl otherLive
      · rw [List.mem_singleton.mp member, List.mem_singleton.mp otherMember]

end Ext2

end CleanOS.Fs
