import CleanOS.Fs.Ext2Lookup
import Mathlib.Data.List.GetD

/-!
# Listing ext2 directories

What a run of `ext2_readdir` returns of a directory whose entries tile its blocks.
-/

namespace CleanOS.Fs

open CleanOS.Common

variable {entries : Nat → UInt8} {blockSize off : Nat} {offs : List Nat}

theorem seekEntry_tiled (tiled : Tiled blockSize entries off offs) (some : offs ≠ [])
    (left fileIdx : Nat) :
    ∃ steps,
      (seekEntry blockSize entries left fileIdx off).2 = (fileIdx + steps, offs.getD steps 0) ∧
      steps = min left (offs.length - 1) := by
  induction left generalizing off offs fileIdx with
  | zero =>
      cases offs with
      | nil => exact absurd rfl some
      | cons first rest =>
          obtain ⟨rfl, -⟩ := tiled
          exact ⟨0, rfl, (Nat.zero_min _).symm⟩
  | succ left ih =>
      cases offs with
      | nil => exact absurd rfl some
      | cons first rest =>
          obtain ⟨rfl, room, inside, later⟩ := tiled
          rw [seekEntry]
          cases rest with
          | nil =>
              have isLast : first + entrySize entries first = blockSize := later
              rw [if_neg (by omega)]
              exact ⟨0, rfl, (Nat.min_zero _).symm⟩
          | cons second rest =>
              have goes : first + entrySize entries first < blockSize := by
                obtain ⟨-, secondRoom, secondInside, -⟩ := later
                omega
              rw [if_pos goes]
              obtain ⟨steps, isStep, count⟩ := ih later (List.cons_ne_nil _ _) (fileIdx + 1)
              refine ⟨steps + 1, ?_, ?_⟩
              · dsimp only
                rw [isStep, Nat.add_right_comm, List.getD_cons_succ]
                rfl
              · rw [count, List.length_cons, List.length_cons]
                simp only [List.length_cons]
                omega

theorem drop_eq_filter_iff {α : Type*} {list : List α} (nodup : list.Nodup) (count : Nat)
    (keep : α → Bool) :
    list.drop count = list.filter keep ↔
      (∀ item ∈ list.take count, keep item = false) ∧
        ∀ item ∈ list.drop count, keep item = true := by
  constructor
  · intro same
    have kept : ∀ item ∈ list.drop count, keep item = true := by
      intro item member
      rw [same] at member
      exact List.of_mem_filter member
    refine ⟨?_, kept⟩
    intro item member
    apply Bool.eq_false_iff.mpr
    intro keeps
    have inFilter : item ∈ list.filter keep :=
      List.mem_filter.mpr ⟨List.mem_of_mem_take member, keeps⟩
    rw [← same] at inFilter
    exact List.disjoint_take_drop nodup (Nat.le_refl count) member inFilter
  · rintro ⟨dropped, kept⟩
    have split := congrArg (List.filter keep) (List.take_append_drop count list)
    rw [List.filter_append, List.filter_eq_nil_iff.mpr, List.filter_eq_self.mpr kept,
      List.nil_append] at split
    · exact split
    · intro item member
      rw [dropped item member]
      exact Bool.false_ne_true

theorem append_eq_iff_of_test {α : Type*} {left right leftRest rightRest : List α}
    (test : α → Bool) (isLeft : ∀ item ∈ left, test item = true)
    (isRight : ∀ item ∈ right, test item = true)
    (isLeftRest : ∀ item ∈ leftRest, test item = false)
    (isRightRest : ∀ item ∈ rightRest, test item = false) :
    left ++ leftRest = right ++ rightRest ↔ left = right ∧ leftRest = rightRest := by
  constructor
  · intro same
    have none {items : List α} (fails : ∀ item ∈ items, test item = false) :
        items.filter test = [] := by
      apply List.filter_eq_nil_iff.mpr
      intro item member
      rw [fails item member]
      exact Bool.false_ne_true
    have first := congrArg (List.filter test) same
    rw [List.filter_append, List.filter_append, List.filter_eq_self.mpr isLeft,
      List.filter_eq_self.mpr isRight, none isLeftRest, none isRightRest, List.append_nil,
      List.append_nil] at first
    subst first
    exact ⟨rfl, List.append_cancel_left same⟩
  · rintro ⟨rfl, rfl⟩
    rfl

namespace Ext2

def firstWith (number : Nat) : Nat → List (List Nat) → Option (Nat × Nat)
  | _, [] => none
  | i, offs :: rest =>
      match offs[number]? with
      | some off => some (i, off)
      | none => firstWith number (i + 1) rest

def listed : (reached i : Nat) → List (List Nat) → List (Nat × Nat)
  | _, _, [] => []
  | reached, i, offs :: rest =>
      (offs.drop reached).map (fun off => (i, off)) ++ listed (max reached offs.length) (i + 1) rest

def livePlaces (volume : Ext2) (inode : Nat → UInt32) (i : Nat) (blocks : List (List Nat)) :
    List (Nat × Nat) :=
  (dirPlaces i blocks).filter fun place => volume.inodeAt inode place ≠ 0

/-- In every block, the entries with numbers that a block before has are deleted, and the others
are not. -/
def Stepped (volume : Ext2) (inode : Nat → UInt32) : (reached i : Nat) → List (List Nat) → Prop
  | _, _, [] => True
  | reached, i, offs :: rest =>
      (∀ off ∈ offs.take reached, volume.inodeAt inode (i, off) = 0) ∧
        (∀ off ∈ offs.drop reached, volume.inodeAt inode (i, off) ≠ 0) ∧
        Stepped volume inode (max reached offs.length) (i + 1) rest

variable {volume : Ext2} {inode : Nat → UInt32} {blocks : List (List Nat)} {i reached number : Nat}
  {place : Nat × Nat}

theorem listed_block (member : place ∈ listed reached i blocks) : i ≤ place.1 := by
  induction blocks generalizing reached i with
  | nil => cases member
  | cons offs rest ih =>
      rcases List.mem_append.mp member with here | later
      · obtain ⟨_, _, rfl⟩ := List.mem_map.mp here
        exact Nat.le_refl i
      · exact Nat.le_of_succ_le (ih later)

theorem listed_getElem? (behind : reached ≤ number) :
    (listed reached i blocks)[number - reached]? = firstWith number i blocks := by
  induction blocks generalizing reached i with
  | nil => rfl
  | cons offs rest ih =>
      rw [listed, firstWith]
      by_cases inBlock : number < offs.length
      · rw [List.getElem?_append_left, List.getElem?_map, List.getElem?_drop,
          Nat.add_sub_cancel' behind, List.getElem?_eq_getElem inBlock]
        · rfl
        · rw [List.length_map, List.length_drop]
          omega
      · have isMax : max reached offs.length ≤ number := Nat.max_le.mpr ⟨behind, by omega⟩
        have later := ih (i := i + 1) isMax
        rw [List.getElem?_append_right, List.getElem?_eq_none (Nat.le_of_not_lt inBlock),
          List.length_map, List.length_drop]
        · rw [show number - reached - (offs.length - reached) =
            number - max reached offs.length by omega]
          exact later
        · rw [List.length_map, List.length_drop]
          omega

theorem listed_eq_iff (format : volume.DirFormat inode i blocks) :
    listed reached i blocks = volume.livePlaces inode i blocks ↔
      volume.Stepped inode reached i blocks := by
  induction blocks generalizing reached i with
  | nil =>
      constructor
      · intro _
        trivial
      · intro _
        rfl
  | cons offs rest ih =>
      obtain ⟨-, -, tiled, later⟩ := format
      have nodup : offs.Nodup := tiled.ordered.imp Nat.ne_of_lt
      have rows := drop_eq_filter_iff nodup reached
        fun off => decide (volume.inodeAt inode (i, off) ≠ 0)
      have injective : Function.Injective fun off : Nat => (i, off) := by
        intro off other same
        exact (Prod.mk.inj same).2
      have isLive : volume.livePlaces inode i (offs :: rest) =
          (offs.filter fun off => decide (volume.inodeAt inode (i, off) ≠ 0)).map
              (fun off => (i, off)) ++
            volume.livePlaces inode (i + 1) rest := by
        rw [livePlaces, dirPlaces, List.filter_append, List.filter_map]
        rfl
      have inBlock {list : List Nat} :
          ∀ place ∈ list.map (fun off => (i, off)), decide (place.1 = i) = true := by
        intro place member
        obtain ⟨_, -, rfl⟩ := List.mem_map.mp member
        exact decide_eq_true rfl
      have behind {list : List (Nat × Nat)} (after : ∀ place ∈ list, i + 1 ≤ place.1) :
          ∀ place ∈ list, decide (place.1 = i) = false := by
        intro place member
        exact decide_eq_false (Nat.ne_of_gt (after place member))
      rw [listed, isLive, append_eq_iff_of_test (fun place => decide (place.1 = i)) inBlock inBlock
        (behind fun place member => listed_block member)
        (behind fun place member => dirPlaces_block (List.mem_of_mem_filter member)),
        injective.list_map.eq_iff, rows, ih later, Stepped, and_assoc]
      simp only [decide_eq_true_eq, decide_eq_false_iff_not, not_not]

theorem firstWith_small (format : volume.DirFormat inode i blocks)
    (found : firstWith number i blocks = some place) :
    8 * (number + 1) ≤ volume.blockSize.toNat := by
  induction blocks generalizing i with
  | nil => cases found
  | cons offs rest ih =>
      obtain ⟨-, -, tiled, later⟩ := format
      have length := tiled.length_le
      rw [firstWith] at found
      by_cases inBlock : number < offs.length
      · omega
      · rw [List.getElem?_eq_none (Nat.le_of_not_lt inBlock)] at found
        exact ih later found

theorem readdirLoop_format (format : volume.DirFormat inode i blocks)
    (positive : 0 < volume.blockSize.toNat) (number : Nat) {left : Nat}
    (isLeft : left + i = directBlockCount) :
    (volume.readdirLoop inode number left i).2 = firstWith number i blocks := by
  induction blocks generalizing i left with
  | nil =>
      cases left with
      | zero => rfl
      | succ left =>
          rw [readdirLoop, if_neg (format.ended (by omega))]
          rfl
  | cons offs rest ih =>
      obtain ⟨inside, used, tiled, later⟩ := format
      obtain ⟨left, rfl⟩ := Nat.exists_eq_succ_of_ne_zero (show left ≠ 0 by omega)
      have some : offs ≠ [] := by
        rintro rfl
        exact absurd tiled (Nat.ne_of_lt positive)
      obtain ⟨steps, isStep, count⟩ := seekEntry_tiled tiled some number 0
      rw [Nat.zero_add] at isStep
      rw [readdirLoop, if_pos (UInt32.pos_iff_ne_zero.mpr used), firstWith]
      dsimp only
      rw [dirBlock] at isStep
      rw [Int.toNat_natCast]
      generalize seekEntry volume.blockSize.toNat (volume.loadBlock (inode (directBlock i))) number
        0 0 = sought at isStep ⊢
      obtain ⟨reads, fileIdx, off⟩ := sought
      cases isStep
      dsimp only
      by_cases inBlock : number < offs.length
      · have isNumber : steps = number := by omega
        subst isNumber
        rw [if_pos rfl, List.getElem?_eq_getElem inBlock, List.getD_eq_getElem _ _ inBlock]
      · have notNumber : ¬ (steps : Int) = number := by
          have length := List.length_pos_iff.mpr some
          omega
        have fewer : left + (i + 1) = directBlockCount := by omega
        rw [if_neg notNumber, List.getElem?_eq_none (Nat.le_of_not_lt inBlock)]
        exact ih later fewer

/-- `dirent` after a number of calls of `ext2_readdir`, each with what the memory for the inode of
the entry held before. -/
def direntAfter (volume : Ext2) (inode : Nat → UInt32) (memory : Nat → Nat → UInt32)
    (dirent : Dirent) : Nat → Dirent
  | 0 => dirent
  | calls + 1 =>
      (volume.ext2Readdir inode (direntAfter volume inode memory dirent calls) (memory calls)).2.2

/-- The place of the entry that `ext2_readdir` comes to. -/
def entryFor (volume : Ext2) (inode : Nat → UInt32) (dirent : Dirent) : Option (Nat × Nat) :=
  (volume.readdirLoop inode dirent.offset directBlockCount 0).2

/-- `dirent` has the type, the name and the size of the entry at a place.  A name that is too long
for it may be anything. -/
structure DirentOf (volume : Ext2) (inode : Nat → UInt32) (place : Nat × Nat) (dirent : Dirent) :
    Prop where
  file : dirent.type = .file ↔ entryType (volume.dirBlock inode place.1) place.2 = 1
  dir : dirent.type = .dir ↔ entryType (volume.dirBlock inode place.1) place.2 = 2
  name : (volume.nameAt inode place).length ≤ direntNameSize →
    ∀ pos < direntNameSize, dirent.name pos = (volume.nameAt inode place).getD pos 0
  size : dirent.size = longAt (volume.inodeBytesOf (volume.inodeAt inode place)) (4 * sizeWord)

/-- Calls of `ext2_readdir` with one `dirent` return the live entries in order, and then -1. -/
def Enumerates (volume : Ext2) (inode : Nat → UInt32) (blocks : List (List Nat)) : Prop :=
  ∀ (dirent : Dirent) (memory : Nat → Nat → UInt32), dirent.offset = 0 →
    (∀ calls place, (volume.livePlaces inode 0 blocks)[calls]? = some place →
      volume.entryFor inode (volume.direntAfter inode memory dirent calls) = some place ∧
      (volume.ext2Readdir inode (volume.direntAfter inode memory dirent calls)
        (memory calls)).2.1 = 0 ∧
      volume.DirentOf inode place (volume.direntAfter inode memory dirent (calls + 1))) ∧
    ∀ calls, calls = (volume.livePlaces inode 0 blocks).length →
      (volume.ext2Readdir inode (volume.direntAfter inode memory dirent calls)
        (memory calls)).2.1 = -1

variable {dirent : Dirent} {childInode : Nat → UInt32}

theorem ext2Readdir_none (none : volume.entryFor inode dirent = none) :
    (volume.ext2Readdir inode dirent childInode).2.1 = -1 := by
  rw [entryFor] at none
  rw [ext2Readdir]
  cases loop : volume.readdirLoop inode dirent.offset directBlockCount 0 with
  | mk reads found =>
      rw [loop] at none
      subst none
      rfl

theorem ext2Readdir_some (some : volume.entryFor inode dirent = some place) :
    (volume.ext2Readdir inode dirent childInode).2 =
      (0, volume.fillDirent (volume.dirBlock inode place.1) place.2 dirent childInode) := by
  rw [entryFor] at some
  rw [ext2Readdir]
  cases loop : volume.readdirLoop inode dirent.offset directBlockCount 0 with
  | mk reads found =>
      rw [loop] at some
      subst some
      rfl

theorem fillDirent_of (fit : volume.TablesFit)
    (numbered : volume.Numbered (volume.inodeAt inode place)) :
    volume.DirentOf inode place
      (volume.fillDirent (volume.dirBlock inode place.1) place.2 dirent childInode) where
  file := by
    change getFileType _ = .file ↔ _
    rw [getFileType]
    grind
  dir := by
    change getFileType _ = .dir ↔ _
    rw [getFileType]
    grind
  name := by
    intro fits pos inside
    rw [nameAt, entryChars, List.length_map, List.length_range] at fits
    change copyInto (copyInto dirent.name 0 direntNameSize fun _ => 0) 0
      (min direntNameSize (entryNameLen (volume.dirBlock inode place.1) place.2))
      (entryName (volume.dirBlock inode place.1) place.2) pos = _
    rw [nameAt, entryChars, Nat.min_eq_right fits]
    by_cases inName : pos < entryNameLen (volume.dirBlock inode place.1) place.2
    · rw [copyInto, if_pos (by omega), List.getD_eq_getElem _ _ (by simpa using inName),
        List.getElem_map, List.getElem_range, Nat.sub_zero]
    · rw [copyInto_outside (by omega), copyInto, if_pos (by omega), List.getD_eq_default]
      rw [List.length_map, List.length_range]
      exact Nat.le_of_not_lt inName
  size := by
    have inside : 4 * sizeWord < inodeBytes := by decide
    exact fit.rwInode_read numbered childInode inside

theorem direntAfter_succ {memory : Nat → Nat → UInt32} {calls : Nat}
    (some : volume.entryFor inode (volume.direntAfter inode memory dirent calls) = some place) :
    volume.direntAfter inode memory dirent (calls + 1) =
      volume.fillDirent (volume.dirBlock inode place.1) place.2
        (volume.direntAfter inode memory dirent calls) (memory calls) := by
  rw [direntAfter, ext2Readdir_some some]

theorem entryFor_format (format : volume.DirFormat inode 0 blocks)
    (positive : 0 < volume.blockSize.toNat) {calls : Nat} (offset : dirent.offset = calls) :
    volume.entryFor inode dirent = firstWith calls 0 blocks := by
  rw [entryFor, offset]
  exact readdirLoop_format format positive calls (Nat.add_zero directBlockCount)

theorem direntAfter_offset (format : volume.DirFormat inode 0 blocks)
    (positive : 0 < volume.blockSize.toNat) {memory : Nat → Nat → UInt32}
    (start : dirent.offset = 0) {calls : Nat}
    (some : ∀ before < calls, ∃ place, firstWith before 0 blocks = some place) :
    (volume.direntAfter inode memory dirent calls).offset = calls := by
  induction calls with
  | zero => exact start
  | succ calls ih =>
      have offset := ih fun before inside => some before (Nat.lt_succ_of_lt inside)
      obtain ⟨place, found⟩ := some calls (Nat.lt_succ_self calls)
      have small := firstWith_small format found
      have size := volume.blockSize.toNat_lt
      rw [← entryFor_format format positive offset] at found
      rw [direntAfter_succ found]
      change toInt32 ((volume.direntAfter inode memory dirent calls).offset + 1) = _
      rw [offset]
      apply toInt32_eq
      · omega
      · omega

theorem mem_livePlaces (isDir : volume.IsDir inode blocks)
    (member : place ∈ volume.livePlaces inode 0 blocks) :
    volume.Numbered (volume.inodeAt inode place) := by
  obtain ⟨inDir, live⟩ := List.mem_filter.mp member
  exact isDir.numbered place inDir (of_decide_eq_true live)

theorem Enumerates.listed_eq (isDir : volume.IsDir inode blocks)
    (enumerates : volume.Enumerates inode blocks) :
    listed 0 0 blocks = volume.livePlaces inode 0 blocks := by
  have positive := isDir.fit.blockSize
  obtain ⟨dirent, start⟩ : ∃ dirent : Dirent, dirent.offset = 0 :=
    ⟨⟨0, 0, .unknown, fun _ => 0⟩, rfl⟩
  obtain ⟨returned, ended⟩ := enumerates dirent (fun _ _ => 0) start
  have agree : ∀ calls ≤ (volume.livePlaces inode 0 blocks).length,
      firstWith calls 0 blocks = (volume.livePlaces inode 0 blocks)[calls]? := by
    intro calls inside
    induction calls using Nat.strong_induction_on with
    | h calls ih =>
        have offset : (volume.direntAfter inode (fun _ _ => 0) dirent calls).offset = calls := by
          apply direntAfter_offset isDir.format positive start
          intro before smaller
          exact ⟨_, (ih before smaller (by omega)).trans (List.getElem?_eq_getElem (by omega))⟩
        rw [← entryFor_format isDir.format positive offset]
        rcases Nat.lt_or_eq_of_le inside with more | last
        · rw [List.getElem?_eq_getElem more]
          exact (returned calls _ (List.getElem?_eq_getElem more)).1
        · rw [List.getElem?_eq_none (Nat.le_of_eq last.symm)]
          cases found : volume.entryFor inode
              (volume.direntAfter inode (fun _ _ => 0) dirent calls) with
          | none => rfl
          | some place =>
              have result := ended calls last
              rw [ext2Readdir_some found] at result
              cases result
  apply List.ext_getElem?
  intro calls
  rcases Nat.lt_or_ge (volume.livePlaces inode 0 blocks).length calls with behind | inside
  · have last := agree _ (Nat.le_refl _)
    rw [← listed_getElem? (Nat.zero_le _), List.getElem?_eq_none (Nat.le_refl _)] at last
    have short := List.getElem?_eq_none_iff.mp last
    rw [List.getElem?_eq_none (Nat.le_of_lt behind), List.getElem?_eq_none]
    omega
  · rw [← agree calls inside]
    exact listed_getElem? (Nat.zero_le calls)

theorem enumerates_of_listed (isDir : volume.IsDir inode blocks)
    (same : listed 0 0 blocks = volume.livePlaces inode 0 blocks) :
    volume.Enumerates inode blocks := by
  have positive := isDir.fit.blockSize
  intro dirent memory start
  have agree (calls : Nat) :
      firstWith calls 0 blocks = (volume.livePlaces inode 0 blocks)[calls]? := by
    rw [← same]
    exact (listed_getElem? (Nat.zero_le calls)).symm
  have entries {calls : Nat} (inside : calls ≤ (volume.livePlaces inode 0 blocks).length) :
      volume.entryFor inode (volume.direntAfter inode memory dirent calls) =
        (volume.livePlaces inode 0 blocks)[calls]? := by
    rw [← agree]
    apply entryFor_format isDir.format positive
    apply direntAfter_offset isDir.format positive start
    intro before smaller
    exact ⟨_, (agree before).trans (List.getElem?_eq_getElem (by omega))⟩
  constructor
  · intro calls place isPlace
    have inside := (List.getElem?_eq_some_iff.mp isPlace).1
    have found := (entries (Nat.le_of_lt inside)).trans isPlace
    refine ⟨found, ?_, ?_⟩
    · rw [ext2Readdir_some found]
    · rw [direntAfter_succ found]
      apply fillDirent_of isDir.fit
      exact mem_livePlaces isDir (List.mem_of_getElem? isPlace)
  · rintro calls rfl
    apply ext2Readdir_none
    rw [entries (Nat.le_refl _), List.getElem?_eq_none (Nat.le_refl _)]

/-- A block with one entry of the type `FILE`, with a name of one character. -/
def oneEntry (inodeIdx char : UInt8) : Nat → UInt8 := fun pos =>
  [inodeIdx, 0, 0, 0, 0, 4, 1, 1, char].getD pos 0

def twoBlockDir : Ext2 where
  superBlock := ⟨16, 64, 0, 0, 0, 64, 16, 128⟩
  blockGroups := fun _ => ⟨0, 0, 3, 0⟩
  disk := fun address =>
    if address < 11264 then oneEntry 11 0x61 (address - 10240)
    else oneEntry 12 0x62 (address - 11264)
  heap := fun _ => 0
  writes := []

def twoBlocks : Nat → UInt32 := fun word =>
  if word = directBlock 0 then 10 else if word = directBlock 1 then 11 else 0

theorem twoBlockDir_isDir : twoBlockDir.IsDir twoBlocks [[0], [0]] where
  fit := oneDir_isDir.fit.same rfl rfl
  format :=
    ⟨by decide, by decide, ⟨rfl, by decide, by decide, rfl⟩, by decide, by decide,
      ⟨rfl, by decide, by decide, rfl⟩, .inr ⟨by decide, rfl⟩⟩
  numbered := by
    intro place member _
    rcases List.mem_cons.mp member with rfl | member
    · exact ⟨by decide, by decide⟩
    · rw [List.mem_singleton.mp member]
      exact ⟨by decide, by decide⟩
  unique := by
    have different : twoBlockDir.nameAt twoBlocks (0, 0) ≠ twoBlockDir.nameAt twoBlocks (1, 0) := by
      decide
    intro place member other otherMember _ _ same
    rcases List.mem_cons.mp member with rfl | member
    · rcases List.mem_cons.mp otherMember with rfl | otherMember
      · rfl
      · rw [List.mem_singleton.mp otherMember] at same
        exact absurd same different
    · rcases List.mem_cons.mp otherMember with rfl | otherMember
      · rw [List.mem_singleton.mp member] at same
        exact absurd same.symm different
      · rw [List.mem_singleton.mp member, List.mem_singleton.mp otherMember]

end Ext2

end CleanOS.Fs
