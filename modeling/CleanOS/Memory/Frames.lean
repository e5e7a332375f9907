import CleanOS.Memory.Mapping

/-!
# Frame ownership

Which address space owns a frame, over runs of `malloc_mem`, `malloc_mem_vaddr` and
`unmalloc_mem` on any number of address spaces.  `unmalloc_mem` frees as many frames as
pages, from the frame of the first page on, so ownership is kept by runs that release
ranges whose frames follow on each other.
-/

namespace CleanOS.Memory

open CleanOS.Common

/-- A range of pages returned to an address space. -/
structure PageRange where
  space : Nat
  vaddr : Nat
  pageCount : Int
deriving DecidableEq

structure PageRange.Covers (range : PageRange) (page : Nat) : Prop where
  lower : range.vaddr / memPageSize ≤ page
  upper : page < range.vaddr / memPageSize + range.pageCount.toNat

/-- The memory, the address spaces, and the ranges returned and not yet released. -/
structure System where
  mem : MemState
  spaces : List Space
  live : List PageRange

/-- The calls of a run. -/
inductive MemCall where
  | malloc (space : Nat) (pageCount : Int)
  | mallocVaddr (space vaddr : Nat) (pageCount : Int)
  | unmalloc (range : PageRange)

namespace System

def dirs (sys : System) : List Nat :=
  sys.spaces.map Space.pageDir

/-- A range that is returned, unless it is `-1`, is kept as live. -/
def returned (sys : System) (i : Nat) (pageCount : Int) (result : Nat × Space × MemState) :
    System :=
  { mem := result.2.2
    spaces := sys.spaces.set i result.2.1
    live := if result.1 = failed then sys.live else ⟨i, result.1, pageCount⟩ :: sys.live }

def step (sys : System) : MemCall → Option System
  | .malloc i pageCount => do
      let space ← sys.spaces[i]?
      let result ← mallocMem sys.mem space pageCount
      some (sys.returned i pageCount result)
  | .mallocVaddr i vaddr pageCount => do
      let space ← sys.spaces[i]?
      let result ← mallocMemVaddr sys.mem space vaddr pageCount
      some (sys.returned i pageCount result)
  | .unmalloc range => do
      let space ← sys.spaces[range.space]?
      let (_, space, mem) := unmallocMem sys.mem space range.vaddr range.pageCount
      some { mem := mem, spaces := sys.spaces.set range.space space, live := sys.live.erase range }

/-- A page of an address space is mapped to a frame. -/
structure Maps (sys : System) (dir page paddr : Nat) : Prop where
  isDir : dir ∈ sys.dirs
  user : UserPage sys.mem page
  frame : sys.mem.frameAt dir page = some paddr

/-- A bit of `user_phy_addr_alloc` is set exactly when its frame is the target of exactly
one present entry in the user parts, and no frame is the target of two. -/
structure FramesOwned (sys : System) : Prop where
  exactlyOne : ∀ frame, frame < sys.mem.userPhy.pages →
    (sys.mem.userPhy.bitmap.bit frame = true ↔
      ∃! mapping : Nat × Nat, sys.Maps mapping.1 mapping.2 (sys.mem.userPhy.addr frame))
  single : ∀ {dir page dir' page' paddr}, sys.Maps dir page paddr → sys.Maps dir' page' paddr →
    dir = dir' ∧ page = page'

def startPage (sys : System) : Nat :=
  sys.mem.userPhy.start / memPageSize

structure Sound (sys : System) : Prop where
  tables : Tables sys.mem sys.dirs
  distinct : sys.dirs.Nodup
  frames : sys.mem.userPhy.Paged
  areas : ∀ {i : Nat} {space : Space}, sys.spaces[i]? = some space →
    space.vir.Paged ∧ space.vir.start = sys.mem.userPhy.start
  mapped : ∀ {dir page paddr}, sys.Maps dir page paddr →
    ∃ frame, frame < sys.mem.userPhy.pages ∧ sys.mem.userPhy.bitmap.bit frame = true ∧
      paddr = sys.mem.userPhy.addr frame
  used : ∀ frame, frame < sys.mem.userPhy.pages → sys.mem.userPhy.bitmap.bit frame = true →
    ∃ dir page, sys.Maps dir page (sys.mem.userPhy.addr frame)
  single : ∀ {dir page dir' page' paddr}, sys.Maps dir page paddr → sys.Maps dir' page' paddr →
    dir = dir' ∧ page = page'
  reserved : ∀ {i : Nat} {space : Space}, sys.spaces[i]? = some space → ∀ page, UserPage sys.mem page →
    ((sys.mem.frameAt space.pageDir page).isSome ↔
      ∃ idx, idx < space.vir.pages ∧ space.vir.bitmap.bit idx = true ∧
        page = sys.startPage + idx)
  placed : ∀ range ∈ sys.live, 0 < range.pageCount → ∃ space idx,
    sys.spaces[range.space]? = some space ∧ range.vaddr = space.vir.addr idx ∧
      idx + range.pageCount.toNat ≤ space.vir.pages ∧
      ∀ k, k < range.pageCount.toNat → space.vir.bitmap.bit (idx + k) = true
  apart : sys.live.Pairwise fun first second =>
    first.space = second.space → ∀ page, first.Covers page → ¬ second.Covers page

theorem Sound.framesOwned {sys : System} (sound : sys.Sound) : sys.FramesOwned := by
  refine ⟨?_, sound.single⟩
  intro frame inside
  constructor
  · intro set
    obtain ⟨dir, page, maps⟩ := sound.used frame inside set
    refine ⟨(dir, page), maps, ?_⟩
    rintro ⟨dir', page'⟩ maps'
    obtain ⟨rfl, rfl⟩ := sound.single maps' maps
    rfl
  · rintro ⟨⟨dir, page⟩, maps, -⟩
    obtain ⟨other, -, set, same⟩ := sound.mapped maps
    have sameFrame : frame = other := by
      simp only [AddrAlloc.addr, memPageSize] at same
      omega
    rw [sameFrame]
    exact set

section Grow

variable {sys : System} {i : Nat} {space : Space}

theorem Sound.start (sound : sys.Sound) :
    sys.mem.userPhy.start = sys.startPage * memPageSize := by
  have aligned := sound.frames.aligned
  simp only [startPage, memPageSize] at *
  omega

theorem Sound.addr (sound : sys.Sound) (isSpace : sys.spaces[i]? = some space) (idx : Nat) :
    space.vir.addr idx = (sys.startPage + idx) * memPageSize := by
  rw [AddrAlloc.addr, (sound.areas isSpace).2, sound.start, Nat.add_mul]

theorem Sound.lower (sound : sys.Sound) : sys.mem.userPde * 1024 ≤ sys.startPage := by
  have start := sound.start
  simp only [MemState.userPde, pdeIndex, memPageSize] at *
  omega

theorem Sound.upper (sound : sys.Sound) (isSpace : sys.spaces[i]? = some space) :
    sys.startPage + space.vir.pages ≤ 2 ^ 20 := by
  have start := sound.start
  have below := (sound.areas isSpace).1.below
  rw [(sound.areas isSpace).2] at below
  simp only [AddrAlloc.pages, memPageSize] at *
  omega

theorem isDir (isSpace : sys.spaces[i]? = some space) : space.pageDir ∈ sys.dirs :=
  List.mem_map_of_mem (List.mem_of_getElem? isSpace)

theorem Sound.dir_ne (sound : sys.Sound) (isSpace : sys.spaces[i]? = some space) {j : Nat}
    {other : Space} (isOther : sys.spaces[j]? = some other) (different : j ≠ i) :
    other.pageDir ≠ space.pageDir := by
  intro same
  have otherDir : sys.dirs[j]? = some other.pageDir := by
    rw [dirs, List.getElem?_map, isOther]
    rfl
  have dir : sys.dirs[i]? = some space.pageDir := by
    rw [dirs, List.getElem?_map, isSpace]
    rfl
  have bound := (List.getElem?_eq_some_iff.mp otherDir).1
  exact different ((List.getElem?_inj bound sound.distinct).mp
    (otherDir.trans (same ▸ dir.symm)))

theorem getElem?_set_cases {changed other : Space} {j : Nat}
    (isOther : (sys.spaces.set i changed)[j]? = some other) :
    (j = i ∧ other = changed) ∨ (j ≠ i ∧ sys.spaces[j]? = some other) := by
  rw [List.getElem?_set] at isOther
  by_cases same : i = j
  · rw [if_pos same] at isOther
    split at isOther
    · exact .inl ⟨same.symm, (Option.some.inj isOther).symm⟩
    · cases isOther
  · rw [if_neg same] at isOther
    exact .inr ⟨fun equal => same equal.symm, isOther⟩

theorem dirs_set {mem : MemState} {live : List PageRange} {changed : Space}
    (isSpace : sys.spaces[i]? = some space) (sameDir : changed.pageDir = space.pageDir) :
    dirs ⟨mem, sys.spaces.set i changed, live⟩ = sys.dirs := by
  have entry : (sys.spaces.map Space.pageDir)[i]? = some space.pageDir := by
    rw [List.getElem?_map, isSpace]
    rfl
  obtain ⟨bound, value⟩ := List.getElem?_eq_some_iff.mp entry
  rw [dirs, List.map_set, sameDir, dirs, ← value, List.set_getElem_self]

theorem Sound.covers_iff (sound : sys.Sound) (isSpace : sys.spaces[i]? = some space)
    {idx page : Nat} {pageCount : Int} :
    PageRange.Covers ⟨i, space.vir.addr idx, pageCount⟩ page ↔
      sys.startPage + idx ≤ page ∧ page < sys.startPage + idx + pageCount.toNat := by
  have first : space.vir.addr idx / memPageSize = sys.startPage + idx := by
    rw [sound.addr isSpace, Nat.mul_div_cancel _ (by decide)]
  constructor
  · rintro ⟨lower, upper⟩
    simp only [first] at lower upper
    exact ⟨lower, upper⟩
  · rintro ⟨lower, upper⟩
    exact ⟨by simp only [first]; exact lower, by simp only [first]; exact upper⟩

theorem Sound.live_reserved (sound : sys.Sound) {range : PageRange} (live : range ∈ sys.live)
    {page : Nat} (covers : range.Covers page) :
    ∃ space bitIdx, sys.spaces[range.space]? = some space ∧ page = sys.startPage + bitIdx ∧
      bitIdx < space.vir.pages ∧ space.vir.bitmap.bit bitIdx = true := by
  have lower := covers.lower
  have upper := covers.upper
  obtain ⟨space, idx, isSpace, vaddr, inside, set⟩ := sound.placed range live (by omega)
  have first : range.vaddr / memPageSize = sys.startPage + idx := by
    rw [vaddr, sound.addr isSpace, Nat.mul_div_cancel _ (by decide)]
  rw [first] at lower upper
  refine ⟨space, idx + (page - (sys.startPage + idx)), isSpace, by omega, by omega, ?_⟩
  exact set _ (by omega)

/-- A range of pages of one address space gets new targets, and its bits in `vir_addr_alloc`
are set or reset. -/
structure Changed (sys next : System) (i : Nat) (space : Space) (idx count : Nat)
    (target : Nat → Option Nat) (use : Bool) : Prop where
  isSpace : sys.spaces[i]? = some space
  inside : idx + count ≤ space.vir.pages
  spaces : next.spaces = sys.spaces.set i { space with vir := { space.vir with
    bitmap := setBits space.vir.bitmap idx count use } }
  tables : Tables next.mem sys.dirs
  start : next.mem.userPhy.start = sys.mem.userPhy.start
  pages : next.mem.userPhy.pages = sys.mem.userPhy.pages
  paged : next.mem.userPhy.Paged
  frameAt : ∀ dir ∈ sys.dirs, ∀ page, UserPage sys.mem page →
    next.mem.frameAt dir page =
      if dir = space.pageDir ∧ sys.startPage + idx ≤ page ∧
          page < sys.startPage + idx + count then
        target (page - (sys.startPage + idx))
      else sys.mem.frameAt dir page
  targets : ∀ k, k < count → (target k).isSome = use

namespace Changed

variable {next : System} {idx count : Nat} {target : Nat → Option Nat} {use : Bool}

theorem dirs (changed : Changed sys next i space idx count target use) :
    next.dirs = sys.dirs := by
  have same := @dirs_set sys i space next.mem next.live { space with vir := { space.vir with
    bitmap := setBits space.vir.bitmap idx count use } } changed.isSpace rfl
  rw [← changed.spaces] at same
  exact same

theorem addr (changed : Changed sys next i space idx count target use) :
    next.mem.userPhy.addr = sys.mem.userPhy.addr := by
  funext frame
  rw [AddrAlloc.addr, changed.start]
  rfl

theorem startPage (changed : Changed sys next i space idx count target use) :
    next.startPage = sys.startPage := by
  rw [System.startPage, changed.start]
  rfl

theorem userPage (changed : Changed sys next i space idx count target use) {page : Nat} :
    UserPage next.mem page ↔ UserPage sys.mem page := by
  have pde : next.mem.userPde = sys.mem.userPde := by
    rw [MemState.userPde, changed.start]
    rfl
  constructor
  · exact fun user => ⟨pde ▸ user.lower, user.upper⟩
  · exact fun user => ⟨pde ▸ user.lower, user.upper⟩

theorem maps_iff (changed : Changed sys next i space idx count target use)
    (sound : sys.Sound) {dir page paddr : Nat} :
    next.Maps dir page paddr ↔
      (dir = space.pageDir ∧ ∃ k, k < count ∧ page = sys.startPage + idx + k ∧
        target k = some paddr) ∨
      (sys.Maps dir page paddr ∧ ¬ (dir = space.pageDir ∧ sys.startPage + idx ≤ page ∧
        page < sys.startPage + idx + count)) := by
  have lower := sound.lower
  have upper := sound.upper changed.isSpace
  have inside := changed.inside
  constructor
  · rintro ⟨member, user, frame⟩
    rw [changed.dirs] at member
    rw [changed.userPage] at user
    rw [changed.frameAt dir member page user] at frame
    by_cases here : dir = space.pageDir ∧ sys.startPage + idx ≤ page ∧
        page < sys.startPage + idx + count
    · rw [if_pos here] at frame
      exact .inl ⟨here.1, page - (sys.startPage + idx), by omega, by omega, frame⟩
    · rw [if_neg here] at frame
      exact .inr ⟨⟨member, user, frame⟩, here⟩
  · rintro (⟨rfl, k, small, rfl, isTarget⟩ | ⟨maps, elsewhere⟩)
    · have user : UserPage sys.mem (sys.startPage + idx + k) := ⟨by omega, by omega⟩
      have member := System.isDir changed.isSpace
      refine ⟨changed.dirs ▸ member, changed.userPage.mpr user, ?_⟩
      rw [changed.frameAt _ member _ user, if_pos ⟨rfl, by omega, by omega⟩,
        Nat.add_sub_cancel_left]
      exact isTarget
    · refine ⟨changed.dirs ▸ maps.isDir, changed.userPage.mpr maps.user, ?_⟩
      rw [changed.frameAt _ maps.isDir _ maps.user, if_neg elsewhere]
      exact maps.frame

theorem areas (changed : Changed sys next i space idx count target use) (sound : sys.Sound)
    {j : Nat} {other : Space} (isOther : next.spaces[j]? = some other) :
    other.vir.Paged ∧ other.vir.start = next.mem.userPhy.start := by
  rw [changed.spaces] at isOther
  rw [changed.start]
  rcases getElem?_set_cases isOther with ⟨-, rfl⟩ | ⟨-, isOther⟩
  · obtain ⟨paged, start⟩ := sound.areas changed.isSpace
    refine ⟨⟨paged.pageSize, paged.aligned, ?_⟩, start⟩
    simp only [setBits_bytesLen]
    exact paged.below
  · exact sound.areas isOther

theorem reserved (changed : Changed sys next i space idx count target use) (sound : sys.Sound)
    {j : Nat} {other : Space} (isOther : next.spaces[j]? = some other) (page : Nat)
    (user : UserPage next.mem page) :
    (next.mem.frameAt other.pageDir page).isSome ↔
      ∃ bitIdx, bitIdx < other.vir.pages ∧ other.vir.bitmap.bit bitIdx = true ∧
        page = next.startPage + bitIdx := by
  rw [changed.spaces] at isOther
  rw [changed.startPage]
  rw [changed.userPage] at user
  rcases getElem?_set_cases isOther with ⟨-, rfl⟩ | ⟨different, isOther⟩
  · have old := sound.reserved changed.isSpace page user
    have pages : ({ space.vir with bitmap := setBits space.vir.bitmap idx count use } :
        AddrAlloc).pages = space.vir.pages := by
      simp only [AddrAlloc.pages, setBits_bytesLen]
    rw [changed.frameAt _ (System.isDir changed.isSpace) page user]
    simp only [pages, setBits_bit]
    by_cases here : sys.startPage + idx ≤ page ∧ page < sys.startPage + idx + count
    · rw [if_pos ⟨trivial, here⟩, changed.targets _ (by omega)]
      constructor
      · intro used
        refine ⟨page - sys.startPage, ?_, ?_, by omega⟩
        · have := changed.inside
          omega
        · rw [if_pos (by omega)]
          exact used
      · rintro ⟨bitIdx, -, set, same⟩
        rwa [if_pos (by omega)] at set
    · rw [if_neg (fun both => here both.2), old]
      constructor
      · rintro ⟨bitIdx, inside, set, same⟩
        refine ⟨bitIdx, inside, ?_, same⟩
        rw [if_neg (by omega)]
        exact set
      · rintro ⟨bitIdx, inside, set, same⟩
        rw [if_neg (by omega)] at set
        exact ⟨bitIdx, inside, set, same⟩
  · have otherDir : other.pageDir ≠ space.pageDir :=
      sound.dir_ne changed.isSpace isOther different
    rw [changed.frameAt _ (System.isDir isOther) page user, if_neg (fun both => otherDir both.1)]
    exact sound.reserved isOther page user

theorem placed (changed : Changed sys next i space idx count target use) (sound : sys.Sound)
    {range : PageRange} (live : range ∈ sys.live) (positive : 0 < range.pageCount)
    (elsewhere : range.space = i → ∀ page, range.Covers page →
      ¬ (sys.startPage + idx ≤ page ∧ page < sys.startPage + idx + count)) :
    ∃ other first, next.spaces[range.space]? = some other ∧
      range.vaddr = other.vir.addr first ∧
      first + range.pageCount.toNat ≤ other.vir.pages ∧
      ∀ k, k < range.pageCount.toNat → other.vir.bitmap.bit (first + k) = true := by
  obtain ⟨other, first, isOther, vaddr, inside, set⟩ := sound.placed range live positive
  by_cases same : range.space = i
  · rw [same, changed.isSpace, Option.some.injEq] at isOther
    subst isOther
    refine ⟨{ space with vir := { space.vir with
      bitmap := setBits space.vir.bitmap idx count use } }, first, ?_, vaddr, ?_, ?_⟩
    · rw [changed.spaces, same, List.getElem?_set, if_pos rfl,
        if_pos (List.getElem?_eq_some_iff.mp changed.isSpace).1]
    · simp only [AddrAlloc.pages, setBits_bytesLen]
      exact inside
    · intro k small
      have covered : range.Covers (sys.startPage + first + k) := by
        have covers := (@Sound.covers_iff sys i space sound changed.isSpace first
          (sys.startPage + first + k) range.pageCount).mpr ⟨by omega, by omega⟩
        rw [← vaddr] at covers
        exact ⟨covers.lower, covers.upper⟩
      have outside := elsewhere same _ covered
      simp only [setBits_bit]
      rw [if_neg (by omega)]
      exact set k small
  · refine ⟨other, first, ?_, vaddr, inside, set⟩
    rw [changed.spaces, List.getElem?_set, if_neg (fun equal => same equal.symm)]
    exact isOther

end Changed

theorem Sound.not_maps_of_free (sound : sys.Sound) (isSpace : sys.spaces[i]? = some space)
    {idx count page paddr : Nat}
    (free : ∀ k, k < count → space.vir.bitmap.bit (idx + k) = false)
    (maps : sys.Maps space.pageDir page paddr) :
    ¬ (sys.startPage + idx ≤ page ∧ page < sys.startPage + idx + count) := by
  rintro ⟨first, last⟩
  have isMapped : (sys.mem.frameAt space.pageDir page).isSome := by
    rw [maps.frame]
    rfl
  obtain ⟨bitIdx, -, set, same⟩ := (sound.reserved isSpace page maps.user).mp isMapped
  have position : bitIdx = idx + (page - (sys.startPage + idx)) := by omega
  rw [position, free _ (by omega)] at set
  cases set

theorem Sound.not_covers_of_free (sound : sys.Sound) (isSpace : sys.spaces[i]? = some space)
    {idx count page : Nat} (free : ∀ k, k < count → space.vir.bitmap.bit (idx + k) = false)
    {range : PageRange} (live : range ∈ sys.live) (same : range.space = i)
    (covers : range.Covers page) :
    ¬ (sys.startPage + idx ≤ page ∧ page < sys.startPage + idx + count) := by
  intro inRange
  obtain ⟨other, bitIdx, isOther, position, -, set⟩ := sound.live_reserved live covers
  rw [same, isSpace, Option.some.injEq] at isOther
  subst isOther
  have relative : bitIdx = idx + (page - (sys.startPage + idx)) := by omega
  rw [relative, free _ (by omega)] at set
  cases set

theorem Sound.not_maps_clear (sound : sys.Sound) {dir page frame : Nat}
    (clear : sys.mem.userPhy.bitmap.bit frame = false) :
    ¬ sys.Maps dir page (sys.mem.userPhy.addr frame) := by
  intro maps
  obtain ⟨other, -, set, same⟩ := sound.mapped maps
  have sameFrame : frame = other := by
    simp only [AddrAlloc.addr, memPageSize] at same
    omega
  rw [← sameFrame, clear] at set
  cases set

theorem Changed.grow_maps_iff {next : System} {idx count : Nat} {frames : List Nat} {use : Bool}
    (changed : Changed sys next i space idx count
      (fun k => (frames.map sys.mem.userPhy.addr)[k]?) use) (sound : sys.Sound)
    (free : ∀ k, k < count → space.vir.bitmap.bit (idx + k) = false)
    (length : frames.length = count) {dir page paddr : Nat} :
    next.Maps dir page paddr ↔
      (dir = space.pageDir ∧ ∃ k frame, frames[k]? = some frame ∧
        page = sys.startPage + idx + k ∧ paddr = sys.mem.userPhy.addr frame) ∨
      sys.Maps dir page paddr := by
  rw [changed.maps_iff sound]
  constructor
  · rintro (⟨rfl, k, small, rfl, isTarget⟩ | ⟨maps, -⟩)
    · rw [List.getElem?_map, Option.map_eq_some_iff] at isTarget
      obtain ⟨frame, isFrame, rfl⟩ := isTarget
      exact .inl ⟨rfl, k, frame, isFrame, rfl, rfl⟩
    · exact .inr maps
  · rintro (⟨rfl, k, frame, isFrame, rfl, rfl⟩ | maps)
    · have bound := (List.getElem?_eq_some_iff.mp isFrame).1
      refine .inl ⟨rfl, k, by omega, rfl, ?_⟩
      rw [List.getElem?_map, isFrame]
      rfl
    · refine .inr ⟨maps, ?_⟩
      rintro ⟨rfl, inRange⟩
      exact sound.not_maps_of_free changed.isSpace free maps inRange

theorem Sound.grow (sound : sys.Sound) {next : System} {idx : Nat} {pageCount : Int}
    {frames : List Nat}
    (changed : Changed sys next i space idx pageCount.toNat
      (fun k => (frames.map sys.mem.userPhy.addr)[k]?) true)
    (free : ∀ k, k < pageCount.toNat → space.vir.bitmap.bit (idx + k) = false)
    (length : frames.length = pageCount.toNat)
    (taken : FramesTaken sys.mem.userPhy next.mem.userPhy frames)
    (live : next.live = ⟨i, space.vir.addr idx, pageCount⟩ :: sys.live) : next.Sound := by
  have isSpace := changed.isSpace
  have maps_iff {dir page paddr : Nat} :=
    @Changed.grow_maps_iff sys i space next idx _ frames true changed sound free length dir page
      paddr
  have unused : ∀ {dir page frame}, frame ∈ frames →
      ¬ sys.Maps dir page (sys.mem.userPhy.addr frame) :=
    fun member => sound.not_maps_clear (taken.clear _ member).2
  refine ⟨changed.dirs ▸ changed.tables, changed.dirs ▸ sound.distinct, changed.paged,
    changed.areas sound, ?_, ?_, ?_, changed.reserved sound, ?_, ?_⟩
  · intro dir page paddr maps
    rw [changed.addr, changed.pages]
    rcases maps_iff.mp maps with ⟨-, k, frame, isFrame, -, rfl⟩ | old
    · have member := List.mem_of_getElem? isFrame
      refine ⟨frame, (taken.clear frame member).1, ?_, rfl⟩
      rw [taken.bits, decide_eq_true member, Bool.or_true]
    · obtain ⟨frame, inside, set, same⟩ := sound.mapped old
      refine ⟨frame, inside, ?_, same⟩
      rw [taken.bits, set, Bool.true_or]
  · intro frame inside set
    rw [changed.pages] at inside
    rw [changed.addr]
    rw [taken.bits, Bool.or_eq_true, decide_eq_true_eq] at set
    rcases set with old | member
    · obtain ⟨dir, page, maps⟩ := sound.used frame inside old
      exact ⟨dir, page, maps_iff.mpr (.inr maps)⟩
    · obtain ⟨k, isFrame⟩ := List.mem_iff_getElem?.mp member
      exact ⟨space.pageDir, sys.startPage + idx + k,
        maps_iff.mpr (.inl ⟨rfl, k, frame, isFrame, rfl, rfl⟩)⟩
  · intro dir page dir' page' paddr maps maps'
    rcases maps_iff.mp maps with ⟨rfl, k, frame, isFrame, rfl, rfl⟩ | old
    · rcases maps_iff.mp maps' with ⟨rfl, k', frame', isFrame', rfl, same⟩ | old'
      · have sameFrame : frame = frame' := by
          simp only [AddrAlloc.addr, memPageSize] at same
          omega
        have bound := (List.getElem?_eq_some_iff.mp isFrame).1
        have sameIdx : k = k' := (List.getElem?_inj bound taken.nodup).mp
          (isFrame.trans (sameFrame ▸ isFrame'.symm))
        rw [sameIdx]
        exact ⟨rfl, rfl⟩
      · exact absurd old' (unused (List.mem_of_getElem? isFrame))
    · rcases maps_iff.mp maps' with ⟨rfl, k', frame', isFrame', rfl, rfl⟩ | old'
      · exact absurd old (unused (List.mem_of_getElem? isFrame'))
      · exact sound.single old old'
  · intro range member positive
    rw [live] at member
    rcases List.mem_cons.mp member with rfl | old
    · refine ⟨{ space with vir := { space.vir with
        bitmap := setBits space.vir.bitmap idx pageCount.toNat true } }, idx, ?_, rfl, ?_, ?_⟩
      · rw [changed.spaces, List.getElem?_set, if_pos rfl,
          if_pos (List.getElem?_eq_some_iff.mp isSpace).1]
      · simp only [AddrAlloc.pages, setBits_bytesLen]
        exact changed.inside
      · intro k small
        simp only at small
        simp only [setBits_bit]
        rw [if_pos (by omega)]
    · exact changed.placed sound old positive (fun same page covers =>
        sound.not_covers_of_free isSpace free old same covers)
  · rw [live, List.pairwise_cons]
    refine ⟨?_, sound.apart⟩
    intro range old same page covers covers'
    rw [sound.covers_iff isSpace] at covers
    exact sound.not_covers_of_free isSpace free old same.symm covers' covers

theorem Sound.mapRange (sound : sys.Sound) (isSpace : sys.spaces[i]? = some space) {idx : Nat}
    {pageCount : Int} {result : Nat} {mem : MemState} (positive : 0 < pageCount)
    (inside : idx + pageCount.toNat ≤ space.vir.pages)
    (free : ∀ k, k < pageCount.toNat → space.vir.bitmap.bit (idx + k) = false)
    (enough : pageCount.toNat ≤ sys.mem.userPhy.clearPages.card)
    (maps : mapMemPage
      { sys.mem with userPhy := (allocPages sys.mem.userPhy pageCount.toNat).2 } space.pageDir
      (space.vir.addr idx) (allocPages sys.mem.userPhy pageCount.toNat).1 true =
        some (result, mem)) :
    (sys.returned i pageCount (result, { space with vir := { space.vir with
      bitmap := setBits space.vir.bitmap idx pageCount.toNat true } }, mem)).Sound := by
  have lower := sound.lower
  have upper := sound.upper isSpace
  have start := sound.start
  obtain ⟨frames, phy, allocEq, length, taken⟩ := allocPages_spec sound.frames enough
  have addr := sound.addr isSpace idx
  have below : (sys.startPage + idx) * memPageSize < 2 ^ 32 := by
    simp only [memPageSize]
    omega
  have down : down2 ((sys.startPage + idx) * memPageSize) =
      (sys.startPage + idx) * memPageSize % 2 ^ 32 := by
    rw [down2, Nat.mul_mod_left, Nat.sub_zero, Nat.mod_eq_of_lt below]
  have notFailed : space.vir.addr idx ≠ failed := by
    rw [addr]
    exact aligned_ne_failed (Nat.mul_mod_left _ _)
  simp only [mapMemPage, allocEq, addr, down, Option.bind_eq_bind, Option.bind_eq_some_iff,
    Option.some.injEq, Prod.mk.injEq] at maps
  obtain ⟨mapped, loopEq, resultEq, rfl⟩ := maps
  have resultAddr : result = space.vir.addr idx := by
    rw [← resultEq, Nat.mod_eq_of_lt below, addr]
  have aligned : ∀ paddr ∈ frames.map sys.mem.userPhy.addr, paddr % memPageSize = 0 := by
    intro paddr member
    obtain ⟨frame, -, rfl⟩ := List.mem_map.mp member
    rw [AddrAlloc.addr, start, ← Nat.add_mul]
    exact Nat.mul_mod_left _ _
  have wasFree : ∀ k, k < pageCount.toNat →
      sys.mem.frameAt space.pageDir (sys.startPage + idx + k) = none := by
    intro k small
    rw [← Option.not_isSome_iff_eq_none, sound.reserved isSpace _ ⟨by omega, by omega⟩]
    rintro ⟨other, -, set, same⟩
    have sameIdx : other = idx + k := by omega
    rw [sameIdx, free k small] at set
    cases set
  obtain ⟨samePhy, tables, frameAt⟩ := @mapMemPageLoop_spec
    { sys.mem with userPhy := phy } sys.dirs space.pageDir (sys.startPage + idx) _ mapped
    (sound.tables.withUserPhy taken.start) (isDir isSpace)
    (by rw [MemState.userPde, taken.start]; change sys.mem.userPde * 1024 ≤ _; omega)
    (by rw [List.length_map, length]; omega) aligned
    (by rw [List.length_map, length]; exact wasFree) loopEq
  rw [List.length_map, length] at frameAt
  have userPhy : mapped.userPhy = phy := samePhy
  refine sound.grow ⟨isSpace, inside, rfl, tables, ?_, ?_, ?_, ?_, ?_⟩ free length ?_ ?_
  · rw [← taken.start, ← userPhy]
    rfl
  · rw [← taken.pages, ← userPhy]
    rfl
  · change mapped.userPhy.Paged
    rw [userPhy]
    exact taken.paged
  · intro dir member page user
    refine frameAt dir member page ⟨?_, user.upper⟩
    rw [MemState.userPde, taken.start]
    exact user.lower
  · intro k small
    rw [List.getElem?_eq_getElem (by rw [List.length_map]; omega)]
    rfl
  · change FramesTaken sys.mem.userPhy mapped.userPhy frames
    rw [userPhy]
    exact taken
  · rw [returned, resultAddr]
    exact if_neg notFailed

theorem covers_symmetric : ∀ {first second : PageRange},
    (first.space = second.space → ∀ page, first.Covers page → ¬ second.Covers page) →
    (second.space = first.space → ∀ page, second.Covers page → ¬ first.Covers page) := by
  intro first second apart same page covers covers'
  exact apart same.symm page covers' covers

theorem Sound.apart_erase (sound : sys.Sound) {range : PageRange} (live : range ∈ sys.live) :
    (∀ other ∈ sys.live.erase range, range.space = other.space →
      ∀ page, range.Covers page → ¬ other.Covers page) ∧
    (sys.live.erase range).Pairwise fun first second =>
      first.space = second.space → ∀ page, first.Covers page → ¬ second.Covers page := by
  have permuted := List.perm_cons_erase live
  exact List.pairwise_cons.mp ((permuted.pairwise_iff covers_symmetric).mp sound.apart)

theorem Sound.release (sound : sys.Sound) {next : System} {range : PageRange} {idx frame : Nat}
    (changed : Changed sys next range.space space idx range.pageCount.toNat (fun _ => none) false)
    (isLive : range ∈ sys.live) (vaddr : range.vaddr = space.vir.addr idx)
    (consecutive : ∀ k, k < range.pageCount.toNat →
      sys.mem.frameAt space.pageDir (sys.startPage + idx + k) =
        some (sys.mem.userPhy.addr (frame + k)))
    (bits : ∀ other, next.mem.userPhy.bitmap.bit other =
      if frame ≤ other ∧ other < frame + range.pageCount.toNat then false
      else sys.mem.userPhy.bitmap.bit other)
    (live : next.live = sys.live.erase range) : next.Sound := by
  have isSpace := changed.isSpace
  have lower := sound.lower
  have upper := sound.upper isSpace
  have inside := changed.inside
  have maps_iff : ∀ {dir page paddr}, next.Maps dir page paddr ↔
      sys.Maps dir page paddr ∧ ¬ (dir = space.pageDir ∧ sys.startPage + idx ≤ page ∧
        page < sys.startPage + idx + range.pageCount.toNat) := by
    intro dir page paddr
    rw [changed.maps_iff sound]
    constructor
    · rintro (⟨-, k, -, -, isTarget⟩ | old)
      · cases isTarget
      · exact old
    · exact .inr
  have released : ∀ k, k < range.pageCount.toNat → sys.Maps space.pageDir
      (sys.startPage + idx + k) (sys.mem.userPhy.addr (frame + k)) := by
    intro k small
    exact ⟨isDir isSpace, ⟨by omega, by omega⟩, consecutive k small⟩
  obtain ⟨apartFromRange, apart⟩ := sound.apart_erase isLive
  refine ⟨changed.dirs ▸ changed.tables, changed.dirs ▸ sound.distinct, changed.paged,
    changed.areas sound, ?_, ?_, ?_, changed.reserved sound, ?_, ?_⟩
  · intro dir page paddr maps
    obtain ⟨old, elsewhere⟩ := maps_iff.mp maps
    obtain ⟨other, otherInside, set, rfl⟩ := sound.mapped old
    rw [changed.addr, changed.pages]
    refine ⟨other, otherInside, ?_, rfl⟩
    rw [bits, if_neg]
    · exact set
    · rintro ⟨first, last⟩
      have position : frame + (other - frame) = other := by omega
      have sameFrame := released (other - frame) (by omega)
      rw [position] at sameFrame
      obtain ⟨rfl, rfl⟩ := sound.single old sameFrame
      exact elsewhere ⟨rfl, by omega, by omega⟩
  · intro other otherInside set
    rw [changed.pages] at otherInside
    rw [changed.addr]
    rw [bits] at set
    by_cases freed : frame ≤ other ∧ other < frame + range.pageCount.toNat
    · rw [if_pos freed] at set
      cases set
    · rw [if_neg freed] at set
      obtain ⟨dir, page, maps⟩ := sound.used other otherInside set
      refine ⟨dir, page, maps_iff.mpr ⟨maps, ?_⟩⟩
      rintro ⟨rfl, first, last⟩
      have position : sys.startPage + idx + (page - (sys.startPage + idx)) = page := by omega
      have target := consecutive (page - (sys.startPage + idx)) (by omega)
      rw [position, maps.frame, Option.some.injEq] at target
      simp only [AddrAlloc.addr, memPageSize] at target
      omega
  · intro dir page dir' page' paddr maps maps'
    exact sound.single (maps_iff.mp maps).1 (maps_iff.mp maps').1
  · intro other member positive
    rw [live] at member
    refine changed.placed sound (List.mem_of_mem_erase member) positive ?_
    intro same page covers inRange
    refine apartFromRange other member same.symm page ?_ covers
    have covered := (@Sound.covers_iff sys range.space space sound isSpace idx page
      range.pageCount).mpr inRange
    rw [← vaddr] at covered
    exact ⟨covered.lower, covered.upper⟩
  · rw [live]
    exact apart

end Grow

section Run

variable {sys next : System} {i : Nat} {space : Space} {pageCount : Int}

theorem set_same (isSpace : sys.spaces[i]? = some space) : sys.spaces.set i space = sys.spaces := by
  obtain ⟨bound, value⟩ := List.getElem?_eq_some_iff.mp isSpace
  rw [← value, List.set_getElem_self]

theorem Sound.withLive (sound : sys.Sound) {live : List PageRange}
    (old : ∀ range ∈ live, 0 < range.pageCount → range ∈ sys.live)
    (apart : live.Pairwise fun first second =>
      first.space = second.space → ∀ page, first.Covers page → ¬ second.Covers page) :
    Sound { sys with live := live } := by
  have maps : ∀ {dir page paddr}, Maps { sys with live := live } dir page paddr →
      sys.Maps dir page paddr :=
    fun maps => ⟨maps.isDir, maps.user, maps.frame⟩
  refine ⟨sound.tables, sound.distinct, sound.frames, sound.areas,
    fun isMapped => sound.mapped (maps isMapped), ?_,
    fun first second => sound.single (maps first) (maps second), sound.reserved,
    fun range member positive => sound.placed range (old range member positive) positive, apart⟩
  intro frame inside set
  obtain ⟨dir, page, isMapped⟩ := sound.used frame inside set
  exact ⟨dir, page, isMapped.isDir, isMapped.user, isMapped.frame⟩

theorem Sound.returnedNothing (sound : sys.Sound) (isSpace : sys.spaces[i]? = some space)
    {result : Nat} (nothing : pageCount ≤ 0 ∨ result = failed) :
    (sys.returned i pageCount (result, space, sys.mem)).Sound := by
  rw [returned, set_same isSpace]
  by_cases isFailed : result = failed
  · rw [if_pos isFailed]
    exact sound
  · rw [if_neg isFailed]
    have noPages : pageCount ≤ 0 := nothing.resolve_right isFailed
    refine sound.withLive ?_ ?_
    · intro range member positive
      rcases List.mem_cons.mp member with rfl | old
      · simp only at positive
        omega
      · exact old
    · refine List.pairwise_cons.mpr ⟨?_, sound.apart⟩
      intro other _ _ page covers
      have lower := covers.lower
      have upper := covers.upper
      simp only at lower upper
      omega

theorem allocMemUse_nothing {alloc : AddrAlloc} {addr : Nat} {use : Bool}
    (noPages : pageCount ≤ 0) : allocMemUse alloc addr pageCount use = alloc := by
  have zero : pageCount.toNat = 0 := by omega
  rw [allocMemUse, zero]
  rfl

theorem allocVirMem_nothing {alloc : AddrAlloc} (noPages : pageCount ≤ 0) :
    (allocVirMem alloc pageCount).2 = alloc := by
  rw [allocVirMem, allocRange]
  simp only
  split
  · rfl
  · exact allocMemUse_nothing noPages

theorem mallocMem_nothing {mem : MemState} (noPages : pageCount ≤ 0) :
    ∃ result, mallocMem mem space pageCount = some (result, space, mem) := by
  have zero : pageCount.toNat = 0 := by omega
  have notLarge : ¬ pageCount > mallocMaxPage := by
    simp only [mallocMaxPage]
    omega
  have vir := @allocVirMem_nothing pageCount space.vir noPages
  refine ⟨down2 (allocVirMem space.vir pageCount).1, ?_⟩
  simp only [mallocMem, if_neg notLarge, allocMemPage, zero, allocPages, vir, mapMemPage,
    mapMemPageLoop, Option.bind_eq_bind, Option.bind_some]

theorem mallocMemVaddr_nothing {mem : MemState} {vaddr : Nat} (noPages : pageCount ≤ 0) :
    ∃ result, mallocMemVaddr mem space vaddr pageCount = some (result, space, mem) := by
  have zero : pageCount.toNat = 0 := by omega
  have notLarge : ¬ pageCount > mallocMaxPage := by
    simp only [mallocMaxPage]
    omega
  refine ⟨down2 (down2 vaddr), ?_⟩
  simp only [mallocMemVaddr, zero, anyPresent, Bool.false_eq_true, if_false, if_neg notLarge,
    allocPages, allocMemUse_nothing noPages, mapMemPage, mapMemPageLoop, Option.bind_eq_bind,
    Option.bind_some]

theorem unmallocMem_nothing {mem : MemState} {vaddr : Nat} (noPages : pageCount ≤ 0) :
    (unmallocMem mem space vaddr pageCount).2 = (space, mem) := by
  have zero : pageCount.toNat = 0 := by omega
  have freed : ∀ paddr, freePhyMem mem paddr pageCount = mem := by
    intro paddr
    rw [freePhyMem, allocMemUse_nothing noPages, allocMemUse_nothing noPages]
    exact ite_self mem
  cases found : vaddr2paddr mem.words space.pageDir vaddr with
  | none =>
      have error : (-1 : Int) ≠ 0 := by decide
      simp only [unmallocMem, unallocMem, found, if_pos error]
  | some paddr =>
      simp only [unmallocMem, unallocMem, found, freed, freeVirMem,
        allocMemUse_nothing noPages, ne_eq, not_true_eq_false, if_false, unmapMem, zero,
        unmapMemLoop]

/-- When a step keeps ownership: a range asked for by its size is found inside the area of
the address space, a range asked for by its address and accepted lies there, enough frames
are free, and a range is released that was returned, whose frames follow on each other. -/
def Permitted (sys : System) : MemCall → Prop
  | .malloc i pageCount => 0 < pageCount → pageCount ≤ mallocMaxPage →
      ∀ space, sys.spaces[i]? = some space →
        pageCount.toNat ≤ sys.mem.userPhy.clearPages.card ∧
        ∃ idx : Nat, space.vir.bitmap.scan pageCount.toNat = idx ∧
          idx + pageCount.toNat ≤ space.vir.pages
  | .mallocVaddr i vaddr pageCount => 0 < pageCount → pageCount ≤ mallocMaxPage →
      ∀ space, sys.spaces[i]? = some space →
        anyPresent sys.mem.words space.pageDir (down2 vaddr) pageCount.toNat = false →
        pageCount.toNat ≤ sys.mem.userPhy.clearPages.card ∧
        ∃ idx, down2 vaddr = space.vir.addr idx ∧ idx + pageCount.toNat ≤ space.vir.pages
  | .unmalloc range => range ∈ sys.live ∧
      ∀ space, sys.spaces[range.space]? = some space → ∀ k, k < range.pageCount.toNat →
        sys.mem.frameAt space.pageDir (range.vaddr / memPageSize + k) =
          (sys.mem.frameAt space.pageDir (range.vaddr / memPageSize)).map
            (· + k * memPageSize)

theorem Sound.malloc (sound : sys.Sound) (isSpace : sys.spaces[i]? = some space)
    (permitted : sys.Permitted (.malloc i pageCount)) {result : Nat × Space × MemState}
    (returns : mallocMem sys.mem space pageCount = some result) :
    (sys.returned i pageCount result).Sound := by
  by_cases noPages : pageCount ≤ 0
  · obtain ⟨vaddr, nothing⟩ := @mallocMem_nothing space pageCount sys.mem noPages
    rw [nothing, Option.some.injEq] at returns
    rw [← returns]
    exact sound.returnedNothing isSpace (.inl noPages)
  · by_cases large : pageCount > mallocMaxPage
    · rw [mallocMem, if_pos large, Option.some.injEq] at returns
      rw [← returns]
      exact sound.returnedNothing isSpace (.inr rfl)
    · have small : pageCount ≤ 1024 := Int.not_lt.mp large
      obtain ⟨enough, idx, found, inside⟩ := permitted (by omega) small space isSpace
      have free : ∀ k, k < pageCount.toNat → space.vir.bitmap.bit (idx + k) = false := by
        have positive : 0 < pageCount.toNat := by omega
        rcases space.vir.bitmap.scan_sound positive with missing | ⟨start, isStart, -, clear⟩
        · rw [found] at missing
          omega
        · intro k bound
          rw [found] at isStart
          exact clear (idx + k) (by omega) (by omega)
      have virEq := allocRange_found (sound.areas isSpace).1 (by omega) (by omega) found inside
      simp only [mallocMem, if_neg large, allocMemPage, allocVirMem, virEq, Option.bind_eq_bind,
        Option.bind_eq_some_iff, Prod.exists, Option.some.injEq] at returns
      obtain ⟨vaddr, mem, maps, rfl⟩ := returns
      exact sound.mapRange isSpace (by omega) inside free enough maps

theorem frameAt_of_anyPresent {words : Words} {pageDir page count : Nat}
    (upper : page + count ≤ 2 ^ 20)
    (noneSet : anyPresent words pageDir (page * memPageSize % 2 ^ 32) count = false) :
    ∀ k, k < count → vaddr2paddr words pageDir ((page + k) * memPageSize) = none := by
  induction count generalizing page with
  | zero =>
      intro k small
      omega
  | succ count ih =>
      have inside : page * memPageSize % 2 ^ 32 = page * memPageSize := by
        simp only [memPageSize]
        omega
      have nextPage : (page * memPageSize + memPageSize) % 2 ^ 32 =
          (page + 1) * memPageSize % 2 ^ 32 := by rw [Nat.add_mul, Nat.one_mul]
      rw [anyPresent, inside, nextPage, Bool.or_eq_false_iff] at noneSet
      intro k small
      cases k with
      | zero =>
          cases found : getPte words pageDir (page * memPageSize) with
          | none => simp only [Nat.add_zero, vaddr2paddr, found]
          | some pte =>
              obtain ⟨table, entry⟩ := pte
              have absent := noneSet.1
              simp only [found] at absent
              simp only [Nat.add_zero, vaddr2paddr, found, absent, Bool.false_eq_true, if_false]
      | succ k =>
          have later := ih (by omega) noneSet.2 k (by omega)
          rwa [Nat.add_right_comm] at later

theorem Sound.mallocVaddr (sound : sys.Sound) (isSpace : sys.spaces[i]? = some space)
    {vaddr : Nat} (permitted : sys.Permitted (.mallocVaddr i vaddr pageCount))
    {result : Nat × Space × MemState}
    (returns : mallocMemVaddr sys.mem space vaddr pageCount = some result) :
    (sys.returned i pageCount result).Sound := by
  by_cases noPages : pageCount ≤ 0
  · obtain ⟨vaddr, nothing⟩ := @mallocMemVaddr_nothing space pageCount sys.mem vaddr noPages
    rw [nothing, Option.some.injEq] at returns
    rw [← returns]
    exact sound.returnedNothing isSpace (.inl noPages)
  · cases isPresent : anyPresent sys.mem.words space.pageDir (down2 vaddr) pageCount.toNat with
    | true =>
        rw [mallocMemVaddr, isPresent, if_pos rfl, Option.some.injEq] at returns
        rw [← returns]
        exact sound.returnedNothing isSpace (.inr rfl)
    | false =>
        by_cases large : pageCount > mallocMaxPage
        · simp only [mallocMemVaddr, isPresent, Bool.false_eq_true, if_false, if_pos large,
            Option.some.injEq] at returns
          rw [← returns]
          exact sound.returnedNothing isSpace (.inr rfl)
        · obtain ⟨enough, idx, addr, inside⟩ :=
            permitted (by omega) (Int.not_lt.mp large) space isSpace isPresent
          have lower := sound.lower
          have upper := sound.upper isSpace
          have free : ∀ k, k < pageCount.toNat → space.vir.bitmap.bit (idx + k) = false := by
            have below : (sys.startPage + idx) * memPageSize < 2 ^ 32 := by
              simp only [memPageSize]
              omega
            rw [addr, sound.addr isSpace, ← Nat.mod_eq_of_lt below] at isPresent
            intro k small
            have absent := frameAt_of_anyPresent (by omega) isPresent k small
            rw [← Bool.not_eq_true]
            intro set
            have isMapped := (sound.reserved isSpace (sys.startPage + idx + k)
              ⟨by omega, by omega⟩).mpr ⟨idx + k, by omega, set, by omega⟩
            rw [MemState.frameAt, absent] at isMapped
            cases isMapped
          have virEq := @allocMemUse_addr space.vir idx pageCount true (sound.areas isSpace).1
            (by omega)
          rw [addr] at isPresent
          simp only [mallocMemVaddr, addr, isPresent, Bool.false_eq_true, if_false, if_neg large,
            virEq, Option.bind_eq_bind, Option.bind_eq_some_iff, Prod.exists,
            Option.some.injEq] at returns
          obtain ⟨result, mem, maps, rfl⟩ := returns
          exact sound.mapRange isSpace (by omega) inside free enough maps

/-- What `unmalloc_mem` does to the bits of `user_phy_addr_alloc`: exactly those of the
frames that the pages of the range were mapped to are cleared. -/
def ClearsExactly (sys next : System) (range : PageRange) : Prop :=
  ∀ space, sys.spaces[range.space]? = some space → ∀ frame, frame < sys.mem.userPhy.pages →
    next.mem.userPhy.bitmap.bit frame =
      (sys.mem.userPhy.bitmap.bit frame && !decide (∃ k < range.pageCount.toNat,
        sys.mem.frameAt space.pageDir (range.vaddr / memPageSize + k) =
          some (sys.mem.userPhy.addr frame)))

theorem Sound.consecutive_frames (sound : sys.Sound) (isSpace : sys.spaces[i]? = some space)
    {idx count : Nat} (positive : 0 < count) (inside : idx + count ≤ space.vir.pages)
    (set : ∀ k, k < count → space.vir.bitmap.bit (idx + k) = true)
    (consecutive : ∀ k, k < count → sys.mem.frameAt space.pageDir (sys.startPage + idx + k) =
      (sys.mem.frameAt space.pageDir (sys.startPage + idx)).map (· + k * memPageSize)) :
    ∃ frame < sys.mem.userPhy.pages, ∀ k, k < count →
      sys.mem.frameAt space.pageDir (sys.startPage + idx + k) =
        some (sys.mem.userPhy.addr (frame + k)) := by
  have lower := sound.lower
  have upper := sound.upper isSpace
  have firstUser : UserPage sys.mem (sys.startPage + idx) := ⟨by omega, by omega⟩
  have firstMapped : (sys.mem.frameAt space.pageDir (sys.startPage + idx)).isSome := by
    rw [sound.reserved isSpace _ firstUser]
    exact ⟨idx, by omega, by simpa using set 0 (by omega), rfl⟩
  obtain ⟨paddr, isPaddr⟩ := Option.isSome_iff_exists.mp firstMapped
  obtain ⟨frame, frameInside, -, rfl⟩ := sound.mapped ⟨isDir isSpace, firstUser, isPaddr⟩
  refine ⟨frame, frameInside, ?_⟩
  intro k small
  rw [consecutive k small, isPaddr, Option.map_some]
  congr 1
  simp only [AddrAlloc.addr, memPageSize]
  omega

theorem Sound.unmallocMem_eq (sound : sys.Sound) (isSpace : sys.spaces[i]? = some space)
    {idx frame : Nat} (positive : 0 < pageCount)
    (inside : idx + pageCount.toNat ≤ space.vir.pages) (frameInside : frame < sys.mem.userPhy.pages)
    (isPaddr : sys.mem.frameAt space.pageDir (sys.startPage + idx) =
      some (sys.mem.userPhy.addr frame)) :
    ∃ unmapped, unmallocMem sys.mem space (space.vir.addr idx) pageCount =
        (0, { space with vir := { space.vir with
          bitmap := setBits space.vir.bitmap idx pageCount.toNat false } }, unmapped) ∧
      unmapped.userPhy = { sys.mem.userPhy with
        bitmap := setBits sys.mem.userPhy.bitmap frame pageCount.toNat false } ∧
      Tables unmapped sys.dirs ∧
      ∀ dir ∈ sys.dirs, ∀ page, UserPage sys.mem page → unmapped.frameAt dir page =
        if dir = space.pageDir ∧ sys.startPage + idx ≤ page ∧
          page < sys.startPage + idx + pageCount.toNat then none else sys.mem.frameAt dir page := by
  have lower := sound.lower
  have upper := sound.upper isSpace
  have addr := sound.addr isSpace idx
  have below : (sys.startPage + idx) * memPageSize < 2 ^ 32 := by
    simp only [memPageSize]
    omega
  have notKernel : ¬ sys.mem.userPhy.addr frame < sys.mem.userPhy.start := by
    simp only [AddrAlloc.addr]
    omega
  have freed := @allocMemUse_addr sys.mem.userPhy frame pageCount false sound.frames frameInside
  have freedVir := @allocMemUse_addr space.vir idx pageCount false (sound.areas isSpace).1
    (by omega)
  have down : down2 ((sys.startPage + idx) * memPageSize) =
      (sys.startPage + idx) * memPageSize % 2 ^ 32 := by
    rw [down2, Nat.mul_mod_left, Nat.sub_zero, Nat.mod_eq_of_lt below]
  obtain ⟨phy, phyEq⟩ : ∃ phy : AddrAlloc, phy = { sys.mem.userPhy with
      bitmap := setBits sys.mem.userPhy.bitmap frame pageCount.toNat false } := ⟨_, rfl⟩
  have sameStart : ({ sys.mem with userPhy := phy } : MemState).userPde = sys.mem.userPde := by
    rw [MemState.userPde, phyEq]
    rfl
  obtain ⟨unmapped, unmappedEq, tables, frameAt⟩ := @unmapMemLoop_spec
    { sys.mem with userPhy := phy } sys.dirs space.pageDir (sys.startPage + idx)
    pageCount.toNat (sound.tables.withUserPhy (by rw [phyEq])) (isDir isSpace)
    (by rw [sameStart]; exact Nat.le_trans lower (by omega)) (by omega)
  refine ⟨unmapped, ?_, by rw [unmappedEq, phyEq], tables, ?_⟩
  · rw [MemState.frameAt] at isPaddr
    rw [addr] at freedVir
    rw [addr, unmallocMem, unallocMem]
    simp only [isPaddr, freePhyMem, if_neg notKernel, freed, freeVirMem, freedVir, ne_eq,
      not_true_eq_false, if_false, unmapMem, down, ← phyEq, unmappedEq]
  · intro dir member page user
    exact frameAt dir member page ⟨sameStart ▸ user.lower, user.upper⟩

theorem Sound.unmalloc (sound : sys.Sound) {range : PageRange}
    (isSpace : sys.spaces[range.space]? = some space)
    (permitted : sys.Permitted (.unmalloc range)) (positive : 0 < range.pageCount)
    (nextEq : next = ⟨(unmallocMem sys.mem space range.vaddr range.pageCount).2.2,
      sys.spaces.set range.space (unmallocMem sys.mem space range.vaddr range.pageCount).2.1,
      sys.live.erase range⟩) :
    next.Sound ∧ sys.ClearsExactly next range := by
  obtain ⟨isLive, consecutive⟩ := permitted
  have consecutive := consecutive space isSpace
  obtain ⟨space', idx, isSpace', vaddr, inside, set⟩ := sound.placed range isLive positive
  rw [isSpace, Option.some.injEq] at isSpace'
  subst isSpace'
  have first : range.vaddr / memPageSize = sys.startPage + idx := by
    rw [vaddr, sound.addr isSpace idx, Nat.mul_div_cancel _ (by decide)]
  rw [first] at consecutive
  obtain ⟨frame, frameInside, targets⟩ :=
    sound.consecutive_frames isSpace (by omega) inside set consecutive
  obtain ⟨unmapped, result, userPhy, tables, frameAt⟩ :=
    sound.unmallocMem_eq isSpace positive inside frameInside (targets 0 (by omega))
  rw [vaddr, result] at nextEq
  have nextMem : next.mem = unmapped := by rw [nextEq]
  rw [← nextMem] at userPhy tables frameAt
  have bits : ∀ other, next.mem.userPhy.bitmap.bit other =
      if frame ≤ other ∧ other < frame + range.pageCount.toNat then false
      else sys.mem.userPhy.bitmap.bit other := by
    intro other
    rw [userPhy, setBits_bit]
  have changed : Changed sys next range.space space idx range.pageCount.toNat (fun _ => none)
      false := by
    refine ⟨isSpace, inside, by rw [nextEq], tables, ?_, ?_, ?_, frameAt, fun _ _ => rfl⟩
    · rw [userPhy]
    · rw [userPhy, AddrAlloc.pages, setBits_bytesLen]
      rfl
    · have frames := sound.frames
      rw [userPhy]
      refine ⟨frames.pageSize, frames.aligned, ?_⟩
      simp only [setBits_bytesLen]
      exact frames.below
  refine ⟨sound.release changed isLive vaddr targets bits (by rw [nextEq]), ?_⟩
  intro space' isSpace' other otherInside
  rw [isSpace, Option.some.injEq] at isSpace'
  subst isSpace'
  rw [bits, first]
  by_cases inRange : frame ≤ other ∧ other < frame + range.pageCount.toNat
  · have target := targets (other - frame) (by omega)
    have position : frame + (other - frame) = other := by omega
    rw [position] at target
    rw [if_pos inRange, decide_eq_true ⟨other - frame, by omega, target⟩]
    simp
  · have elsewhere : ¬ ∃ k < range.pageCount.toNat,
        sys.mem.frameAt space.pageDir (sys.startPage + idx + k) =
          some (sys.mem.userPhy.addr other) := by
      rintro ⟨k, small, target⟩
      rw [targets k small, Option.some.injEq] at target
      simp only [AddrAlloc.addr, memPageSize] at target
      omega
    rw [if_neg inRange, decide_eq_false elsewhere]
    simp

theorem step_unmalloc {range : PageRange} (returns : sys.step (.unmalloc range) = some next) :
    ∃ space, sys.spaces[range.space]? = some space ∧
      next = ⟨(unmallocMem sys.mem space range.vaddr range.pageCount).2.2,
        sys.spaces.set range.space (unmallocMem sys.mem space range.vaddr range.pageCount).2.1,
        sys.live.erase range⟩ := by
  obtain ⟨space, isSpace, returns⟩ := Option.bind_eq_some_iff.mp returns
  exact ⟨space, isSpace, (Option.some.inj returns).symm⟩

theorem Sound.step (sound : sys.Sound) {call : MemCall} (permitted : sys.Permitted call)
    (returns : sys.step call = some next) : next.Sound := by
  cases call with
  | malloc i pageCount =>
      obtain ⟨space, isSpace, returns⟩ := Option.bind_eq_some_iff.mp returns
      obtain ⟨result, resultEq, returns⟩ := Option.bind_eq_some_iff.mp returns
      cases returns
      exact sound.malloc isSpace permitted resultEq
  | mallocVaddr i vaddr pageCount =>
      obtain ⟨space, isSpace, returns⟩ := Option.bind_eq_some_iff.mp returns
      obtain ⟨result, resultEq, returns⟩ := Option.bind_eq_some_iff.mp returns
      cases returns
      exact sound.mallocVaddr isSpace permitted resultEq
  | unmalloc range =>
      obtain ⟨space, isSpace, nextEq⟩ := step_unmalloc returns
      by_cases noPages : range.pageCount ≤ 0
      · rw [nextEq, unmallocMem_nothing noPages, set_same isSpace]
        refine sound.withLive ?_ (sound.apart_erase permitted.1).2
        intro other member _
        exact List.mem_of_mem_erase member
      · exact (sound.unmalloc isSpace permitted (by omega) nextEq).1

theorem Sound.clearsExactly (sound : sys.Sound) {range : PageRange}
    (permitted : sys.Permitted (.unmalloc range))
    (returns : sys.step (.unmalloc range) = some next) : sys.ClearsExactly next range := by
  obtain ⟨space, isSpace, nextEq⟩ := step_unmalloc returns
  by_cases noPages : range.pageCount ≤ 0
  · rw [nextEq, unmallocMem_nothing noPages]
    intro other _ frame _
    have noPage : ¬ ∃ k < range.pageCount.toNat,
        sys.mem.frameAt other.pageDir (range.vaddr / memPageSize + k) =
          some (sys.mem.userPhy.addr frame) := by
      rintro ⟨k, small, -⟩
      omega
    rw [decide_eq_false noPage]
    simp
  · exact (sound.unmalloc isSpace permitted (by omega) nextEq).2

end Run

/-- Address spaces in which nothing is mapped, with no frame in use. -/
structure Fresh (sys : System) : Prop where
  tables : Tables sys.mem sys.dirs
  distinct : sys.dirs.Nodup
  frames : sys.mem.userPhy.Paged
  areas : ∀ {i : Nat} {space : Space}, sys.spaces[i]? = some space →
    space.vir.Paged ∧ space.vir.start = sys.mem.userPhy.start
  unused : ∀ frame, frame < sys.mem.userPhy.pages → sys.mem.userPhy.bitmap.bit frame = false
  unmapped : ∀ dir ∈ sys.dirs, ∀ page, UserPage sys.mem page → sys.mem.frameAt dir page = none
  unreserved : ∀ {i : Nat} {space : Space}, sys.spaces[i]? = some space →
    ∀ idx, idx < space.vir.pages → space.vir.bitmap.bit idx = false
  noRange : sys.live = []

theorem Fresh.sound {sys : System} (fresh : sys.Fresh) : sys.Sound := by
  have noMapping : ∀ {dir page paddr}, ¬ sys.Maps dir page paddr := by
    intro dir page paddr maps
    have frame := maps.frame
    rw [fresh.unmapped dir maps.isDir page maps.user] at frame
    cases frame
  refine ⟨fresh.tables, fresh.distinct, fresh.frames, fresh.areas,
    fun maps => absurd maps noMapping, ?_, fun maps => absurd maps noMapping, ?_, ?_, ?_⟩
  · intro frame inside set
    rw [fresh.unused frame inside] at set
    cases set
  · intro i space isSpace page user
    rw [fresh.unmapped space.pageDir (isDir isSpace) page user]
    refine iff_of_false (by simp) ?_
    rintro ⟨idx, inside, set, -⟩
    rw [fresh.unreserved isSpace idx inside] at set
    cases set
  · intro range member
    rw [fresh.noRange] at member
    cases member
  · rw [fresh.noRange]
    exact List.Pairwise.nil

/-- The states of a run of permitted calls. -/
inductive Reachable (start : System) : System → Prop where
  | start : Reachable start start
  | step {sys next : System} (reached : Reachable start sys) (call : MemCall)
      (permitted : sys.Permitted call) (returns : sys.step call = some next) :
      Reachable start next

theorem Reachable.sound {start sys : System} (fresh : start.Fresh)
    (reached : Reachable start sys) : sys.Sound := by
  induction reached with
  | start => exact fresh.sound
  | step _ call permitted returns ih => exact ih.step permitted returns

/-- In every state of such a run a frame is in use exactly when one entry maps to it, and
releasing a range clears exactly the bits of the frames of its pages. -/
theorem reachable_framesOwned {start sys : System} (fresh : start.Fresh)
    (reached : Reachable start sys) :
    sys.FramesOwned ∧ ∀ range next, sys.Permitted (.unmalloc range) →
      sys.step (.unmalloc range) = some next → sys.ClearsExactly next range :=
  ⟨(reached.sound fresh).framesOwned,
    fun _ _ permitted returns => (reached.sound fresh).clearsExactly permitted returns⟩

def sampleAlloc (start : Nat) (used : BitVec 8) : AddrAlloc :=
  { start := start
    pageSize := memPageSize
    bitmap := { bytesLen := 1, bits := fun byteIdx => if byteIdx = 0 then used else 0 } }

def sampleSystem : System :=
  { mem :=
      { kernelPhy := sampleAlloc 0x300000 3
        kernelVir := sampleAlloc 0x300000 3
        userPhy := sampleAlloc 0x400000 0
        words := fun _ _ => 0 }
    spaces := [⟨0x300000, sampleAlloc 0x400000 0⟩, ⟨0x301000, sampleAlloc 0x400000 0⟩]
    live := [] }

theorem sampleSystem_fresh : sampleSystem.Fresh := by
  have absent : ∀ {dir entry table},
      ¬ UserTable sampleSystem.mem sampleSystem.dirs dir entry table := by
    intro dir entry table user
    have isPresent := user.isPresent
    cases isPresent
  have clear : ∀ start idx, idx < (sampleAlloc start 0).pages →
      (sampleAlloc start 0).bitmap.bit idx = false := by
    intro start idx _
    simp [sampleAlloc, Bitmap.bit]
  have spaces : ∀ {i : Nat} {space : Space}, sampleSystem.spaces[i]? = some space →
      space.vir = sampleAlloc 0x400000 0 := by
    intro i space isSpace
    have member := List.mem_of_getElem? isSpace
    simp only [sampleSystem, List.mem_cons, List.not_mem_nil, or_false] at member
    rcases member with rfl | rfl <;> rfl
  refine ⟨⟨⟨rfl, rfl, by decide⟩, by decide, ?_, fun user => absurd user absent,
    fun user => absurd user absent⟩, by decide, ⟨rfl, rfl, by decide⟩, ?_, ?_, ?_, ?_, rfl⟩
  · intro dir member
    simp only [sampleSystem, dirs, List.map_cons, List.map_nil, List.mem_cons, List.not_mem_nil,
      or_false] at member
    rcases member with rfl | rfl
    · exact ⟨0, by decide, by decide, by decide⟩
    · exact ⟨1, by decide, by decide, by decide⟩
  · intro i space isSpace
    rw [spaces isSpace]
    exact ⟨⟨rfl, rfl, by decide⟩, rfl⟩
  · exact clear 0x400000
  · intro dir _ page _
    exact frameAt_absent rfl
  · intro i space isSpace
    rw [spaces isSpace]
    exact clear 0x400000

/-- A run that maps two pages of the first address space. -/
theorem reachable_framesOwned_two :
    ∃ sys, Reachable sampleSystem sys ∧
      sys.mem.frameAt 0x300000 0x401 = some 0x401000 ∧ sys.FramesOwned := by
  obtain ⟨sys, returns⟩ : ∃ sys, sampleSystem.step (.malloc 0 2) = some sys := ⟨_, rfl⟩
  have permitted : sampleSystem.Permitted (.malloc 0 2) := by
    intro _ _ space isSpace
    cases isSpace
    exact ⟨by decide, 0, by decide, by decide⟩
  have frame : (sampleSystem.step (.malloc 0 2)).map
      (fun sys => sys.mem.frameAt 0x300000 0x401) = some (some 0x401000) := by
    decide
  rw [returns] at frame
  have reached : Reachable sampleSystem sys := .step .start (.malloc 0 2) permitted returns
  exact ⟨sys, reached, Option.some.inj frame,
    (reachable_framesOwned sampleSystem_fresh reached).1⟩

def run : System → List MemCall → Option System
  | sys, [] => some sys
  | sys, .unmalloc range :: calls => do
      if range ∈ sys.live then
        let sys ← sys.step (.unmalloc range)
        run sys calls
      else none
  | sys, call :: calls => do
      let sys ← sys.step call
      run sys calls

/-- Two pages of the first address space get the frames 0 and 2, as the second one holds
frame 1.  Releasing them frees the frames 0 and 1, so that frame 1 is given away again. -/
theorem run_shares_frame :
    ∃ sys, sampleSystem.run [.malloc 0 1, .malloc 1 1, .unmalloc ⟨0, 0x400000, 1⟩,
        .malloc 0 2, .unmalloc ⟨0, 0x400000, 2⟩, .malloc 0 2] = some sys ∧
      ¬ sys.FramesOwned := by
  have facts : (sampleSystem.run [.malloc 0 1, .malloc 1 1, .unmalloc ⟨0, 0x400000, 1⟩,
      .malloc 0 2, .unmalloc ⟨0, 0x400000, 2⟩, .malloc 0 2]).map (fun sys =>
        (sys.dirs, sys.mem.userPde, sys.mem.frameAt 0x300000 0x401,
          sys.mem.frameAt 0x301000 0x400)) =
      some ([0x300000, 0x301000], 1, some 0x401000, some 0x401000) := by
    decide +kernel
  obtain ⟨sys, runEq, values⟩ := Option.map_eq_some_iff.mp facts
  refine ⟨sys, runEq, ?_⟩
  intro owned
  simp only [Prod.mk.injEq] at values
  obtain ⟨dirsEq, pde, first, second⟩ := values
  have maps : sys.Maps 0x300000 0x401 0x401000 :=
    ⟨by rw [dirsEq]; decide, ⟨by rw [pde]; decide, by decide⟩, first⟩
  have maps' : sys.Maps 0x301000 0x400 0x401000 :=
    ⟨by rw [dirsEq]; decide, ⟨by rw [pde], by decide⟩, second⟩
  have same := (owned.single maps maps').1
  exact absurd same (by decide)

end System

end CleanOS.Memory
