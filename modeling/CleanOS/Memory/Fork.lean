import CleanOS.Memory.CopyPage
import CleanOS.Memory.Frames

/-!
# The address space of a forked process

After the copy loop of `copy_process_mem` the child maps the pages of its parent, each to a
frame of its own with the same content, and the parent is as before.  The loop is followed
bit by bit: one bit maps and copies one page, and needs one frame and at most one table.
-/

namespace CleanOS.Memory

open CleanOS.Common

variable {mem : MemState} {dirs : List Nat} {page paddr other idx : Nat}

def MemState.firstPage (mem : MemState) : Nat :=
  mem.userPhy.start / memPageSize

/-- An address space that can be copied: a bit of its bitmap is set exactly if the page is
mapped, and the frames of its pages are in use. -/
structure Forkable (mem : MemState) (dirs : List Nat) (src : Space) : Prop where
  tables : Tables mem dirs
  isDir : src.pageDir ∈ dirs
  frames : mem.userPhy.Paged
  below : mem.kernelVir.start + mem.kernelVir.pages * memPageSize ≤ mem.userPhy.start
  area : src.vir.Paged
  areaStart : src.vir.start = mem.userPhy.start
  reserved : ∀ page, UserPage mem page → ((mem.frameAt src.pageDir page).isSome ↔
    ∃ idx < src.vir.pages, src.vir.bitmap.bit idx = true ∧ page = mem.firstPage + idx)
  inUse : ∀ {page paddr}, UserPage mem page → mem.frameAt src.pageDir page = some paddr →
    ∃ frame < mem.userPhy.pages, mem.userPhy.bitmap.bit frame = true ∧
      paddr = mem.userPhy.addr frame

def Space.rest (src : Space) (upto : Nat) : Finset Nat :=
  (Finset.range src.vir.pages).filter fun idx => upto ≤ idx ∧ src.vir.bitmap.bit idx = true

def MemState.entryOf (mem : MemState) (idx : Nat) : Nat :=
  (mem.firstPage + idx) / 1024

def MemState.absent (mem : MemState) (dir : Nat) (entries : Finset Nat) : Finset Nat :=
  entries.filter fun entry => present (mem.words dir entry) = false

structure Copied (before : MemState) (dirs : List Nat) (src : Space) (buff upto : Nat)
    (state : CopyState) : Prop where
  tables : Tables state.mem (state.dest.pageDir :: dirs)
  isNew : state.dest.pageDir ∉ dirs
  cr3 : state.cr3 = src.pageDir
  frames : Grows before.userPhy state.mem.userPhy
  area : state.dest.vir.Paged
  areaStart : state.dest.vir.start = src.vir.start
  areaPages : state.dest.vir.pages = src.vir.pages
  bits : ∀ idx < src.vir.pages, state.dest.vir.bitmap.bit idx = true ↔
    idx < upto ∧ src.vir.bitmap.bit idx = true
  others : ∀ dir ∈ dirs, ∀ page, UserPage before page →
    state.mem.frameAt dir page = before.frameAt dir page
  mapped : ∀ page, UserPage before page → ((state.mem.frameAt state.dest.pageDir page).isSome ↔
    ∃ idx < upto, src.vir.bitmap.bit idx = true ∧ page = before.firstPage + idx)
  target : ∀ {page paddr}, UserPage before page →
    state.mem.frameAt state.dest.pageDir page = some paddr →
    ∃ frame < before.userPhy.pages, before.userPhy.bitmap.bit frame = false ∧
      state.mem.userPhy.bitmap.bit frame = true ∧ paddr = before.userPhy.addr frame
  single : ∀ {page page' paddr}, UserPage before page → UserPage before page' →
    state.mem.frameAt state.dest.pageDir page = some paddr →
    state.mem.frameAt state.dest.pageDir page' = some paddr → page = page'
  content : ∀ {page paddr parent}, UserPage before page →
    state.mem.frameAt state.dest.pageDir page = some paddr →
    before.frameAt src.pageDir page = some parent →
    ∀ word < 1024, state.mem.words paddr word = before.words parent word
  kept : ∀ frame < before.userPhy.pages, before.userPhy.bitmap.bit frame = true →
    state.mem.words (before.userPhy.addr frame) = before.words (before.userPhy.addr frame)
  buffer : Apart state.mem (state.dest.pageDir :: dirs) buff
  frameApart : ∀ frame < before.userPhy.pages,
    Apart state.mem (state.dest.pageDir :: dirs) (before.userPhy.addr frame) ∧
      before.userPhy.addr frame ≠ buff

structure Room (before : MemState) (src : Space) (upto : Nat) (state : CopyState) : Prop where
  frames : (src.rest upto).card ≤ state.mem.userPhy.clearPages.card
  tables : (state.mem.absent state.dest.pageDir ((src.rest upto).image before.entryOf)).card ≤
    state.mem.kernelVir.clearPages.card

section Loop

variable {before : MemState} {src : Space} {buff upto : Nat} {state next : CopyState}

theorem Space.mem_rest : idx ∈ src.rest upto ↔
    idx < src.vir.pages ∧ upto ≤ idx ∧ src.vir.bitmap.bit idx = true := by
  rw [Space.rest, Finset.mem_filter, Finset.mem_range]

theorem Space.rest_succ : src.rest (upto + 1) = (src.rest upto).erase upto := by
  ext idx
  rw [Finset.mem_erase, Space.mem_rest, Space.mem_rest]
  constructor
  · rintro ⟨inside, lower, isSet⟩
    exact ⟨by omega, inside, by omega, isSet⟩
  · rintro ⟨different, inside, lower, isSet⟩
    exact ⟨inside, by omega, isSet⟩

theorem Space.rest_skip (isClear : src.vir.bitmap.bit upto = false) :
    src.rest (upto + 1) = src.rest upto := by
  rw [Space.rest_succ]
  apply Finset.erase_eq_of_notMem
  intro inRest
  have isSet := (Space.mem_rest.mp inRest).2.2
  rw [isClear] at isSet
  cases isSet

namespace Forkable

theorem start (forkable : Forkable before dirs src) :
    before.userPhy.start = before.firstPage * memPageSize := by
  have aligned := forkable.frames.aligned
  simp only [MemState.firstPage, memPageSize] at *
  omega

theorem addr (forkable : Forkable before dirs src) (idx : Nat) :
    src.vir.addr idx = (before.firstPage + idx) * memPageSize := by
  rw [AddrAlloc.addr, forkable.areaStart, forkable.start, Nat.add_mul]

theorem userPage (forkable : Forkable before dirs src) (inside : idx < src.vir.pages) :
    UserPage before (before.firstPage + idx) := by
  have start := forkable.start
  have below := forkable.area.below
  rw [forkable.areaStart] at below
  constructor
  · simp only [MemState.userPde, pdeIndex, memPageSize] at *
    omega
  · simp only [AddrAlloc.pages, memPageSize] at *
    omega

theorem parent (forkable : Forkable before dirs src) (inside : idx < src.vir.pages)
    (isSet : src.vir.bitmap.bit idx = true) :
    ∃ frame < before.userPhy.pages, before.userPhy.bitmap.bit frame = true ∧
      before.frameAt src.pageDir (before.firstPage + idx) = some (before.userPhy.addr frame) := by
  have user := forkable.userPage inside
  obtain ⟨paddr, isPaddr⟩ := Option.isSome_iff_exists.mp
    ((forkable.reserved _ user).mpr ⟨idx, inside, isSet, rfl⟩)
  obtain ⟨frame, frameInside, isUsed, rfl⟩ := forkable.inUse user isPaddr
  exact ⟨frame, frameInside, isUsed, isPaddr⟩

end Forkable

theorem AddrAlloc.addr_inj {alloc : AddrAlloc} (same : alloc.addr idx = alloc.addr other) :
    idx = other := by
  simp only [AddrAlloc.addr, memPageSize] at same
  omega

theorem Copied.canCopy (copied : Copied before dirs src buff upto state)
    (forkable : Forkable before dirs src) (room : Room before src upto state)
    (inside : upto < src.vir.pages) (isSet : src.vir.bitmap.bit upto = true) {frame : Nat}
    (isParent : before.frameAt src.pageDir (before.firstPage + upto) =
      some (before.userPhy.addr frame)) :
    CanCopy dirs src buff upto (before.firstPage + upto) (before.userPhy.addr frame) state := by
  have user := forkable.userPage inside
  have inRest : upto ∈ src.rest upto := Space.mem_rest.mpr ⟨inside, Nat.le_refl _, isSet⟩
  constructor
  · exact copied.tables
  · exact forkable.isDir
  · exact copied.cr3
  · exact forkable.area.pageSize
  · exact forkable.addr upto
  · exact user.congr copied.frames.start
  · rw [copied.others _ forkable.isDir _ user]
    exact isParent
  · exact copied.area
  · rw [copied.areaPages]
    exact inside
  · rw [AddrAlloc.addr, copied.areaStart]
    exact forkable.addr upto
  · apply Option.not_isSome_iff_eq_none.mp
    rw [copied.mapped _ user]
    rintro ⟨idx, earlier, _, same⟩
    omega
  · exact copied.frames.paged forkable.frames
  · exact Nat.lt_of_lt_of_le (Finset.card_pos.mpr ⟨upto, inRest⟩) room.frames
  · apply Nat.le_trans ?_ room.tables
    rw [MemState.missing]
    split
    next => exact Nat.zero_le _
    next absent =>
      apply Finset.card_pos.mpr
      refine ⟨before.entryOf upto, Finset.mem_filter.mpr ⟨?_, eq_false_of_ne_true absent⟩⟩
      exact Finset.mem_image_of_mem _ inRest
  · exact copied.buffer
  · intro other otherInside
    rw [copied.frames.addr]
    rw [copied.frames.pages] at otherInside
    exact copied.frameApart other otherInside

theorem Room.step {page parent frame : Nat} (room : Room before src upto state)
    (isEntry : page / 1024 = before.entryOf upto) (inRest : upto ∈ src.rest upto)
    (isCopied : PageCopied dirs buff upto page parent frame state next) :
    Room before src (upto + 1) next := by
  constructor
  · have oneLess := Finset.card_erase_of_mem inRest
    have oneFrame := Finset.card_erase_of_mem isCopied.isClear
    rw [isCopied.userPhy, clearPages_set, Space.rest_succ]
    have frames := room.frames
    omega
  · have tables := room.tables
    have left := isCopied.left
    have fewer : next.mem.absent next.dest.pageDir ((src.rest (upto + 1)).image before.entryOf) ⊆
        (state.mem.absent state.dest.pageDir ((src.rest upto).image before.entryOf)).erase
          (before.entryOf upto) := by
      intro entry member
      obtain ⟨inImage, isAbsent⟩ := Finset.mem_filter.mp member
      obtain ⟨idx, inLater, rfl⟩ := Finset.mem_image.mp inImage
      rw [Space.rest_succ] at inLater
      have notPresent : ¬ (present (state.mem.words state.dest.pageDir (before.entryOf idx)) =
          true ∨ before.entryOf idx = page / 1024) := by
        rw [← isCopied.entries, ← isCopied.pageDir, isAbsent]
        rintro ⟨⟩
      apply Finset.mem_erase.mpr
      refine ⟨fun same => notPresent (.inr (same.trans isEntry.symm)), ?_⟩
      refine Finset.mem_filter.mpr ⟨?_, ?_⟩
      · exact Finset.mem_image_of_mem _ (Finset.mem_of_mem_erase inLater)
      · exact eq_false_of_ne_true fun isPresent => notPresent (.inl isPresent)
    have bound := Finset.card_le_card fewer
    rw [MemState.missing, isEntry] at left
    split at left
    next isPresent =>
      have smaller := Finset.card_erase_le (s := state.mem.absent state.dest.pageDir
        ((src.rest upto).image before.entryOf)) (a := before.entryOf upto)
      omega
    next isAbsent =>
      have isMissing : before.entryOf upto ∈
          state.mem.absent state.dest.pageDir ((src.rest upto).image before.entryOf) :=
        Finset.mem_filter.mpr ⟨Finset.mem_image_of_mem _ inRest, eq_false_of_ne_true isAbsent⟩
      have oneLess := Finset.card_erase_add_one isMissing
      omega

theorem Room.skip (room : Room before src upto state)
    (isClear : src.vir.bitmap.bit upto = false) : Room before src (upto + 1) state := by
  constructor
  · rw [Space.rest_skip isClear]
    exact room.frames
  · rw [Space.rest_skip isClear]
    exact room.tables

theorem lt_succ_of_clear (isClear : src.vir.bitmap.bit upto = false)
    (isSet : src.vir.bitmap.bit idx = true) : idx < upto + 1 ↔ idx < upto := by
  have different : idx ≠ upto := by
    rintro rfl
    rw [isClear] at isSet
    cases isSet
  omega

theorem Copied.skip (copied : Copied before dirs src buff upto state)
    (isClear : src.vir.bitmap.bit upto = false) :
    Copied before dirs src buff (upto + 1) state where
  tables := copied.tables
  isNew := copied.isNew
  cr3 := copied.cr3
  frames := copied.frames
  area := copied.area
  areaStart := copied.areaStart
  areaPages := copied.areaPages
  bits := by
    intro idx inside
    rw [copied.bits idx inside]
    exact and_congr_left fun isSet => (lt_succ_of_clear isClear isSet).symm
  others := copied.others
  mapped := by
    intro page user
    rw [copied.mapped page user]
    apply exists_congr
    intro idx
    constructor
    · rintro ⟨earlier, isSet, same⟩
      exact ⟨(lt_succ_of_clear isClear isSet).mpr earlier, isSet, same⟩
    · rintro ⟨earlier, isSet, same⟩
      exact ⟨(lt_succ_of_clear isClear isSet).mp earlier, isSet, same⟩
  target := copied.target
  single := copied.single
  content := copied.content
  kept := copied.kept
  buffer := copied.buffer
  frameApart := copied.frameApart

namespace PageCopied

variable {parent frame : Nat}

theorem grows (isCopied : PageCopied dirs buff idx page parent frame state next) :
    Grows state.mem.userPhy next.mem.userPhy := by
  rw [isCopied.userPhy]
  exact .set _ _

theorem frameSet (isCopied : PageCopied dirs buff idx page parent frame state next) :
    next.mem.userPhy.bitmap.bit frame = true := by
  rw [isCopied.userPhy]
  exact Bitmap.bit_set_self _ frame true

theorem ne_frame (isCopied : PageCopied dirs buff idx page parent frame state next)
    (isUsed : state.mem.userPhy.bitmap.bit other = true) :
    before.userPhy.addr other ≠ before.userPhy.addr frame := by
  intro same
  rw [AddrAlloc.addr_inj same, (AddrAlloc.mem_clearPages.mp isCopied.isClear).2] at isUsed
  cases isUsed

theorem frameAt_child (isCopied : PageCopied dirs buff idx page parent frame state next)
    (copied : Copied before dirs src buff upto state) (user : UserPage before other) :
    next.mem.frameAt next.dest.pageDir other =
      if other = page then some (before.userPhy.addr frame)
      else state.mem.frameAt state.dest.pageDir other := by
  rw [isCopied.pageDir,
    isCopied.frameAt _ List.mem_cons_self other (user.congr copied.frames.start),
    copied.frames.addr]
  simp only [true_and]

theorem words_kept (isCopied : PageCopied dirs buff idx page parent frame state next)
    (copied : Copied before dirs src buff upto state) (inside : other < before.userPhy.pages)
    (isUsed : state.mem.userPhy.bitmap.bit other = true) :
    next.mem.words (before.userPhy.addr other) = state.mem.words (before.userPhy.addr other) := by
  obtain ⟨isApart, notBuff⟩ := copied.frameApart other inside
  apply isCopied.words isApart notBuff
  rw [copied.frames.addr]
  exact isCopied.ne_frame isUsed

end PageCopied

theorem Copied.step (copied : Copied before dirs src buff upto state)
    (inside : upto < src.vir.pages) (isSet : src.vir.bitmap.bit upto = true) {parent frame : Nat}
    (parentInside : parent < before.userPhy.pages)
    (parentUsed : before.userPhy.bitmap.bit parent = true)
    (isParent : before.frameAt src.pageDir (before.firstPage + upto) =
      some (before.userPhy.addr parent))
    (cr3 : next.cr3 = src.pageDir)
    (isCopied : PageCopied dirs buff upto (before.firstPage + upto)
      (before.userPhy.addr parent) frame state next) :
    Copied before dirs src buff (upto + 1) next := by
  have sameAddr := copied.frames.addr
  obtain ⟨frameInside, frameClear⟩ := AddrAlloc.mem_clearPages.mp isCopied.isClear
  rw [copied.frames.pages] at frameInside
  have wasClear : before.userPhy.bitmap.bit frame = false := by
    cases isUsed : before.userPhy.bitmap.bit frame with
    | false => rfl
    | true => exact absurd (copied.frames.bits isUsed) (by rw [frameClear]; rintro ⟨⟩)
  constructor
  · rw [isCopied.pageDir]
    exact isCopied.tables
  · rw [isCopied.pageDir]
    exact copied.isNew
  · exact cr3
  · exact copied.frames.trans isCopied.grows
  · rw [isCopied.dest]
    exact copied.area.set.set
  · rw [isCopied.dest]
    exact copied.areaStart
  · rw [isCopied.dest]
    exact copied.areaPages
  · intro idx idxInside
    rw [isCopied.dest]
    change ((state.dest.vir.bitmap.set upto true).set upto true).bit idx = true ↔ _
    rw [Bitmap.bit_set, Bitmap.bit_set]
    by_cases here : idx = upto
    · rw [if_pos here, here]
      exact iff_of_true rfl ⟨Nat.lt_succ_self _, isSet⟩
    · rw [if_neg here, if_neg here, copied.bits idx idxInside]
      exact and_congr_left fun _ => by omega
  · intro dir isDir page user
    rw [isCopied.frameAt dir (List.mem_cons_of_mem _ isDir) page (user.congr copied.frames.start),
      if_neg, copied.others dir isDir page user]
    rintro ⟨rfl, _⟩
    exact copied.isNew isDir
  · intro page user
    rw [isCopied.frameAt_child copied user]
    split
    next here => exact iff_of_true rfl ⟨upto, Nat.lt_succ_self _, isSet, here⟩
    next elsewhere =>
      rw [copied.mapped page user]
      constructor
      · rintro ⟨idx, earlier, isBit, same⟩
        exact ⟨idx, by omega, isBit, same⟩
      · rintro ⟨idx, earlier, isBit, same⟩
        refine ⟨idx, ?_, isBit, same⟩
        have different : idx ≠ upto := by
          rintro rfl
          exact elsewhere same
        omega
  · intro page paddr user isMapped
    rw [isCopied.frameAt_child copied user] at isMapped
    split at isMapped
    next =>
      cases isMapped
      exact ⟨frame, frameInside, wasClear, isCopied.frameSet, rfl⟩
    next =>
      obtain ⟨other, otherInside, isClear, isUsed, rfl⟩ := copied.target user isMapped
      exact ⟨other, otherInside, isClear, isCopied.grows.bits isUsed, rfl⟩
  · intro page page' paddr user user' isMapped isMapped'
    rw [isCopied.frameAt_child copied user] at isMapped
    rw [isCopied.frameAt_child copied user'] at isMapped'
    split at isMapped <;> split at isMapped'
    next here here' => exact here.trans here'.symm
    next =>
      cases isMapped
      obtain ⟨other, _, _, isUsed, same⟩ := copied.target user' isMapped'
      exact absurd same.symm (isCopied.ne_frame isUsed)
    next =>
      cases isMapped'
      obtain ⟨other, _, _, isUsed, same⟩ := copied.target user isMapped
      exact absurd same.symm (isCopied.ne_frame isUsed)
    next => exact copied.single user user' isMapped isMapped'
  · intro page paddr pageParent user isMapped hasParent word wordInside
    rw [isCopied.frameAt_child copied user] at isMapped
    split at isMapped
    next here =>
      cases isMapped
      rw [here, isParent] at hasParent
      cases hasParent
      rw [← sameAddr, isCopied.content word wordInside, sameAddr,
        copied.kept parent parentInside parentUsed]
    next =>
      obtain ⟨other, otherInside, _, isUsed, rfl⟩ := copied.target user isMapped
      rw [isCopied.words_kept copied otherInside isUsed]
      exact copied.content user isMapped hasParent word wordInside
  · intro other otherInside isUsed
    rw [isCopied.words_kept copied otherInside (copied.frames.bits isUsed)]
    exact copied.kept other otherInside isUsed
  · rw [isCopied.pageDir]
    exact isCopied.apart copied.buffer
  · intro other otherInside
    obtain ⟨isApart, notBuff⟩ := copied.frameApart other otherInside
    rw [isCopied.pageDir]
    exact ⟨isCopied.apart isApart, notBuff⟩

theorem copyBits_spec (forkable : Forkable before dirs src) (left : Nat)
    (copied : Copied before dirs src buff upto state) (room : Room before src upto state)
    (inside : upto + left ≤ src.vir.pages) : ∃ next, copyBits src buff upto left state = some next ∧
      Copied before dirs src buff (upto + left) next ∧ Room before src (upto + left) next := by
  induction left generalizing upto state with
  | zero => exact ⟨state, rfl, copied, room⟩
  | succ left ih =>
      have position : upto + (left + 1) = upto + 1 + left := by omega
      rw [position] at inside ⊢
      rw [copyBits, Bitmap.scanTest_eq_bit]
      cases isSet : src.vir.bitmap.bit upto with
      | false =>
          rw [if_neg (by rintro ⟨⟩), Option.bind_eq_bind, Option.bind_some]
          exact ih (copied.skip isSet) (room.skip isSet) inside
      | true =>
          have here : upto < src.vir.pages := by omega
          obtain ⟨parent, parentInside, parentUsed, isParent⟩ := forkable.parent here isSet
          obtain ⟨next, frame, returns, cr3, isCopied⟩ :=
            copyBit_spec (copied.canCopy forkable room here isSet isParent)
          rw [if_pos rfl, returns, Option.bind_eq_bind, Option.bind_some]
          apply ih _ _ inside
          · exact copied.step here isSet parentInside parentUsed isParent cr3 isCopied
          · exact room.step rfl (Space.mem_rest.mpr ⟨here, Nat.le_refl _, isSet⟩) isCopied

theorem copyBits_clear {left : Nat}
    (clear : ∀ k < left, src.vir.bitmap.bit (upto + k) = false) :
    copyBits src buff upto left state = some state := by
  induction left generalizing upto with
  | zero => rfl
  | succ left ih =>
      have first := clear 0 (Nat.succ_pos _)
      rw [Nat.add_zero] at first
      rw [copyBits, Bitmap.scanTest_eq_bit, first, if_neg (by rintro ⟨⟩), Option.bind_eq_bind,
        Option.bind_some]
      apply ih
      intro k small
      have later := clear (k + 1) (Nat.succ_lt_succ small)
      rwa [Nat.add_comm k 1, ← Nat.add_assoc] at later

theorem copyBytes_spec (forkable : Forkable before dirs src) (left : Nat) {idxByte : Nat}
    (copied : Copied before dirs src buff (idxByte * 8) state)
    (room : Room before src (idxByte * 8) state)
    (inside : idxByte + left ≤ src.vir.bitmap.bytesLen) :
    ∃ next, copyBytes src buff idxByte left state = some next ∧
      Copied before dirs src buff ((idxByte + left) * 8) next := by
  induction left generalizing idxByte state with
  | zero => exact ⟨state, rfl, copied⟩
  | succ left ih =>
      have position : idxByte + (left + 1) = idxByte + 1 + left := by omega
      have nextByte : idxByte * 8 + 8 = (idxByte + 1) * 8 := by omega
      have bitsInside : idxByte * 8 + 8 ≤ src.vir.pages := by
        rw [AddrAlloc.pages]
        omega
      obtain ⟨next, returns, nextCopied, nextRoom⟩ :=
        copyBits_spec forkable 8 copied room bitsInside
      have byte : copyByte src buff state idxByte = some next := by
        unfold copyByte
        split
        next => exact returns
        next isZero =>
          rw [← returns]
          symm
          apply copyBits_clear
          intro k small
          have sameByte : (idxByte * 8 + k) / 8 = idxByte := by omega
          rw [Bitmap.bit, sameByte, not_not.mp isZero]
          exact BitVec.getLsbD_zero
      rw [nextByte] at nextCopied nextRoom
      rw [position] at inside ⊢
      rw [copyBytes, byte, Option.bind_eq_bind, Option.bind_some]
      exact ih nextCopied nextRoom inside

theorem Forkable.frameApart (forkable : Forkable before dirs src) (frame : Nat) :
    Apart before dirs (before.userPhy.addr frame) := by
  have below := forkable.below
  have kernelBelow : ∀ idx < before.kernelVir.pages,
      before.kernelVir.addr idx ≠ before.userPhy.addr frame := by
    intro idx inside
    simp only [AddrAlloc.addr, memPageSize] at *
    omega
  have notKernel : ∀ {page}, KernelPage before page → page ≠ before.userPhy.addr frame := by
    rintro page ⟨idx, inside, _, rfl⟩
    exact kernelBelow idx inside
  constructor
  · intro isDir
    exact notKernel (forkable.tables.dirPage _ isDir) rfl
  · intro dir entry table isTable
    exact notKernel (forkable.tables.tablePage isTable).1
  · intro idx isClear
    exact kernelBelow idx (AddrAlloc.mem_clearPages.mp isClear).1

theorem Forkable.copied {kernelPageDir userAllMemory : Nat} {dest : Space} {mem : MemState}
    (forkable : Forkable before dirs src)
    (sized : src.vir.bitmap.bytesLen = (userAllMemory / memPageSize + 7) / 8)
    (returns : beforeCopy before kernelPageDir userAllMemory = some (buff, dest, mem)) :
    Copied before dirs src buff 0 ⟨mem, src.pageDir, dest⟩ := by
  obtain ⟨added, vir, bufferApart, idx, idxInside, isBuff⟩ :=
    beforeCopy_spec forkable.tables returns
  have start : dest.vir.start = src.vir.start := by
    rw [vir]
    exact forkable.areaStart.symm
  have bytesLen : dest.vir.bitmap.bytesLen = src.vir.bitmap.bytesLen := by
    rw [vir, sized]
    rfl
  have unmapped : ∀ page, UserPage before page → mem.frameAt dest.pageDir page = none := by
    intro page user
    apply frameAt_absent
    apply added.empty
    have lower := user.lower
    omega
  constructor
  · exact added.tables
  · exact added.isNew
  · rfl
  · rw [added.userPhy]
    exact .refl _
  · have area := forkable.area
    refine ⟨by rw [vir]; rfl, ?_, ?_⟩
    · rw [start]
      exact area.aligned
    · rw [start, bytesLen]
      exact area.below
  · exact start
  · rw [AddrAlloc.pages, bytesLen]
    rfl
  · intro idx inside
    have clear : dest.vir.bitmap.bit idx = false := by
      rw [AddrAlloc.pages, sized] at inside
      rw [vir]
      exact Bitmap.bit_init _ inside
    rw [clear]
    apply iff_of_false (by rintro ⟨⟩)
    rintro ⟨small, _⟩
    omega
  · exact added.frameAt
  · intro page user
    rw [unmapped page user]
    apply iff_of_false (by rintro ⟨⟩)
    rintro ⟨idx, small, _⟩
    omega
  · intro page paddr user isMapped
    rw [unmapped page user] at isMapped
    cases isMapped
  · intro page page' paddr user user' isMapped
    rw [unmapped page user] at isMapped
    cases isMapped
  · intro page paddr parent user isMapped
    rw [unmapped page user] at isMapped
    cases isMapped
  · intro frame inside isUsed
    exact (added.apart (forkable.frameApart frame)).2
  · exact bufferApart
  · intro frame inside
    refine ⟨(added.apart (forkable.frameApart frame)).1, ?_⟩
    have below := forkable.below
    rw [isBuff]
    simp only [AddrAlloc.addr, memPageSize] at *
    omega

end Loop

/-- There is a frame for every page, and kernel pages for what is allocated before the loop and
for the tables. -/
structure EnoughFree (mem : MemState) (kernelPageDir userAllMemory : Nat) (src : Space) :
    Prop where
  frames : (src.rest 0).card ≤ mem.userPhy.clearPages.card
  kernel : ∃ buff dest next, beforeCopy mem kernelPageDir userAllMemory = some (buff, dest, next) ∧
    ((src.rest 0).image mem.entryOf).card ≤ next.kernelVir.clearPages.card

/-- The child has the pages of its parent, in frames of its own with the same content, and the
parent is as before. -/
structure Forked (before : MemState) (dirs : List Nat) (src : Space) (after : CopyState) :
    Prop where
  tables : Tables after.mem (after.dest.pageDir :: dirs)
  cr3 : after.cr3 = src.pageDir
  start : after.dest.vir.start = src.vir.start
  bytesLen : after.dest.vir.bitmap.bytesLen = src.vir.bitmap.bytesLen
  bits : ∀ idx < src.vir.pages, after.dest.vir.bitmap.bit idx = src.vir.bitmap.bit idx
  copied : ∀ idx < src.vir.pages, src.vir.bitmap.bit idx = true → ∃ frame parent,
    frame < before.userPhy.pages ∧ before.userPhy.bitmap.bit frame = false ∧
    after.mem.frameAt after.dest.pageDir (before.firstPage + idx) =
      some (before.userPhy.addr frame) ∧
    before.frameAt src.pageDir (before.firstPage + idx) = some parent ∧
    ∀ word < 1024, after.mem.words (before.userPhy.addr frame) word = before.words parent word
  distinct : ∀ {page page' paddr}, UserPage before page → UserPage before page' →
    after.mem.frameAt after.dest.pageDir page = some paddr →
    after.mem.frameAt after.dest.pageDir page' = some paddr → page = page'
  notShared : ∀ {page page' paddr}, UserPage before page → UserPage before page' →
    after.mem.frameAt after.dest.pageDir page = some paddr →
    before.frameAt src.pageDir page' ≠ some paddr
  unmapped : ∀ {page}, UserPage before page → before.frameAt src.pageDir page = none →
    after.mem.frameAt after.dest.pageDir page = none
  mappings : ∀ dir ∈ dirs, ∀ page, UserPage before page →
    after.mem.frameAt dir page = before.frameAt dir page
  contents : ∀ {page paddr}, UserPage before page →
    before.frameAt src.pageDir page = some paddr → after.mem.words paddr = before.words paddr

theorem Copied.forked {before : MemState} {src : Space} {buff : Nat} {after : CopyState}
    (copied : Copied before dirs src buff src.vir.pages after)
    (forkable : Forkable before dirs src)
    (bytesLen : after.dest.vir.bitmap.bytesLen = src.vir.bitmap.bytesLen) :
    Forked before dirs src after := by
  have mapped_iff : ∀ {page}, UserPage before page →
      ((after.mem.frameAt after.dest.pageDir page).isSome ↔
        (before.frameAt src.pageDir page).isSome) := by
    intro page user
    exact (copied.mapped page user).trans (forkable.reserved page user).symm
  constructor
  · exact copied.tables
  · exact copied.cr3
  · exact copied.areaStart
  · exact bytesLen
  · intro idx inside
    apply Bool.eq_iff_iff.mpr
    rw [copied.bits idx inside]
    exact and_iff_right inside
  · intro idx inside isSet
    have user := forkable.userPage inside
    obtain ⟨parent, _, _, isParent⟩ := forkable.parent inside isSet
    obtain ⟨paddr, isMapped⟩ := Option.isSome_iff_exists.mp
      ((copied.mapped _ user).mpr ⟨idx, inside, isSet, rfl⟩)
    obtain ⟨frame, frameInside, isClear, _, rfl⟩ := copied.target user isMapped
    exact ⟨frame, _, frameInside, isClear, isMapped, isParent,
      copied.content user isMapped isParent⟩
  · exact copied.single
  · intro page page' paddr user user' isMapped isParent
    obtain ⟨frame, _, isClear, _, rfl⟩ := copied.target user isMapped
    obtain ⟨parent, _, isUsed, same⟩ := forkable.inUse user' isParent
    rw [AddrAlloc.addr_inj same, isUsed] at isClear
    cases isClear
  · intro page user isNone
    apply Option.not_isSome_iff_eq_none.mp
    rw [mapped_iff user, isNone]
    rintro ⟨⟩
  · exact copied.others
  · intro page paddr user isParent
    obtain ⟨frame, inside, isUsed, rfl⟩ := forkable.inUse user isParent
    exact copied.kept frame inside isUsed

namespace System

theorem Sound.forkable {sys : System} {i : Nat} {space : Space} (sound : sys.Sound)
    (isSpace : sys.spaces[i]? = some space)
    (below : sys.mem.kernelVir.start + sys.mem.kernelVir.pages * memPageSize ≤
      sys.mem.userPhy.start) : Forkable sys.mem sys.dirs space where
  tables := sound.tables
  isDir := System.isDir isSpace
  frames := sound.frames
  below := below
  area := (sound.areas isSpace).1
  areaStart := (sound.areas isSpace).2
  reserved := sound.reserved isSpace
  inUse := fun user isMapped => sound.mapped ⟨System.isDir isSpace, user, isMapped⟩

end System

end CleanOS.Memory
