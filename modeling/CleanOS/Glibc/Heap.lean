import CleanOS.Glibc.Malloc

/-!
# The invariant of the heap

The allocator's pages are apart.  Small pages are cut into blocks of a class, of which the free
ones are in a list and are counted in the page's header; large blocks have pages of their own.
-/

namespace CleanOS.Glibc

/-! ### Blocks of an arena -/

def IsBlock (idx arena block : Nat) : Prop :=
  ∃ k < classBlocks idx, block = arena + memArenaSize + k * classSize idx

namespace IsBlock

variable {idx arena block other : Nat}

theorem inside (isBlock : IsBlock idx arena block) :
    arena + memArenaSize ≤ block ∧ block + classSize idx ≤ arena + memPageSize := by
  obtain ⟨k, bound, rfl⟩ := isBlock
  have fit := classBlocks_fit idx
  have upTo : (k + 1) * classSize idx ≤ classBlocks idx * classSize idx :=
    Nat.mul_le_mul_right _ bound
  rw [Nat.succ_mul] at upTo
  omega

theorem arena_eq (isBlock : IsBlock idx arena block) (aligned : arena % memPageSize = 0) :
    block2arena block = arena := by
  have inPage := isBlock.inside
  have positive := classSize_pos idx
  simp only [block2arena, memPageSize, memArenaSize] at inPage aligned ⊢
  omega

theorem apart (isBlock : IsBlock idx arena block) (otherBlock : IsBlock idx arena other)
    (different : block ≠ other) :
    block + classSize idx ≤ other ∨ other + classSize idx ≤ block := by
  obtain ⟨k, _, rfl⟩ := isBlock
  obtain ⟨l, _, rfl⟩ := otherBlock
  rcases Nat.lt_trichotomy k l with before | same | behind
  · have upTo := Nat.mul_le_mul_right (classSize idx) (Nat.succ_le_of_lt before)
    rw [Nat.succ_mul] at upTo
    exact .inl (by omega)
  · exact absurd (by rw [same]) different
  · have upTo := Nat.mul_le_mul_right (classSize idx) (Nat.succ_le_of_lt behind)
    rw [Nat.succ_mul] at upTo
    exact .inr (by omega)

end IsBlock

def arenaBlocks (idx arena : Nat) : List Nat :=
  (List.range (classBlocks idx)).map (arena2block arena (classSize idx))

theorem arena2block_eq {idx arena k : Nat} (inMemory : arena + memPageSize ≤ 2 ^ 32)
    (bound : k < classBlocks idx) :
    arena2block arena (classSize idx) k = arena + memArenaSize + k * classSize idx := by
  have inPage := (show IsBlock idx arena _ from ⟨k, bound, rfl⟩).inside
  have positive := classSize_pos idx
  apply Nat.mod_eq_of_lt
  omega

theorem mem_arenaBlocks {idx arena block : Nat} (inMemory : arena + memPageSize ≤ 2 ^ 32) :
    block ∈ arenaBlocks idx arena ↔ IsBlock idx arena block := by
  simp only [arenaBlocks, List.mem_map, List.mem_range, IsBlock]
  constructor
  · rintro ⟨k, bound, rfl⟩
    exact ⟨k, bound, arena2block_eq inMemory bound⟩
  · rintro ⟨k, bound, rfl⟩
    exact ⟨k, bound, arena2block_eq inMemory bound⟩

theorem arenaBlocks_nodup {idx arena : Nat} (inMemory : arena + memPageSize ≤ 2 ^ 32) :
    (arenaBlocks idx arena).Nodup := by
  apply List.Nodup.map_on _ List.nodup_range
  intro k kBound l lBound same
  rw [arena2block_eq inMemory (List.mem_range.mp kBound),
    arena2block_eq inMemory (List.mem_range.mp lBound)] at same
  exact Nat.eq_of_mul_eq_mul_right (classSize_pos idx) (by omega)

/-! ### The invariant -/

namespace Heap

structure Arena (heap : Heap) (idx arena : Nat) : Prop where
  page : ⟨arena, memPageSize⟩ ∈ heap.pages
  desc : (heap.state.arenas arena).desc = some idx
  small : (heap.state.arenas arena).large = false

structure SmallBlock (heap : Heap) (block : Span) (idx arena : Nat) : Prop where
  class_lt : idx < memBlockCnt
  isArena : heap.Arena idx arena
  isBlock : IsBlock idx arena block.start
  bytes : block.bytes ≤ classSize idx
  notFree : block.start ∉ (heap.state.descs idx).freeBlocks

structure LargeBlock (heap : Heap) (block page : Span) : Prop where
  mem : page ∈ heap.pages
  large : (heap.state.arenas page.start).large = true
  count : (heap.state.arenas page.start).freeCnt * memPageSize = page.bytes
  start : block.start = page.start + memArenaSize
  bytes : memArenaSize + block.bytes ≤ page.bytes

theorem LargeBlock.arena_eq {heap : Heap} {block page : Span}
    (large : heap.LargeBlock block page) (aligned : page.start % memPageSize = 0) :
    block2arena block.start = page.start := by
  have start := large.start
  simp only [block2arena, memPageSize, memArenaSize] at aligned start ⊢
  omega

/-- The allocator's pages are apart, the free blocks of each class are different blocks of its
arenas, which count them, and what is in use is a block of an arena or has its own pages. -/
structure Agree (heap : Heap) : Prop where
  classes : heap.state.Classes
  aligned : ∀ page ∈ heap.pages, page.start % memPageSize = 0 ∧ 0 < page.start ∧
    0 < page.bytes ∧ page.start + page.bytes ≤ 2 ^ 32
  apart : heap.pages.Pairwise Span.Apart
  free : ∀ idx < memBlockCnt, ∀ block ∈ (heap.state.descs idx).freeBlocks,
    ∃ arena, heap.Arena idx arena ∧ IsBlock idx arena block
  nodup : ∀ idx < memBlockCnt, (heap.state.descs idx).freeBlocks.Nodup
  count : ∀ idx < memBlockCnt, ∀ arena, heap.Arena idx arena →
    (heap.state.arenas arena).freeCnt =
      (heap.state.descs idx).freeBlocks.countP (block2arena · = arena)
  live : ∀ block ∈ heap.live,
    (∃ idx arena, heap.SmallBlock block idx arena) ∨ ∃ page, heap.LargeBlock block page
  distinct : (heap.live.map Span.start).Nodup

theorem agree_start (descs : Nat → MemBlockDesc) (arenas : Nat → MemArena) :
    (start descs arenas).Agree where
  classes := by
    intro idx inside
    simp [start, initMallocDesc_spec inside]
  aligned := by simp [start]
  apart := List.Pairwise.nil
  free := by
    intro idx inside block member
    simp [start, initMallocDesc_spec inside] at member
  nodup := by
    intro idx inside
    simp [start, initMallocDesc_spec inside]
  count := by
    intro idx inside arena isArena
    exact absurd isArena.page List.not_mem_nil
  live := by simp [start]
  distinct := List.nodup_nil

namespace Agree

variable {heap : Heap}

theorem arena_inMemory (agree : heap.Agree) {idx arena : Nat} (isArena : heap.Arena idx arena) :
    arena % memPageSize = 0 ∧ arena + memPageSize ≤ 2 ^ 32 := by
  obtain ⟨aligned, _, _, inMemory⟩ := agree.aligned _ isArena.page
  exact ⟨aligned, inMemory⟩

theorem page_unique (agree : heap.Agree) {page other : Span} (member : page ∈ heap.pages)
    (otherMember : other ∈ heap.pages) (same : page.start = other.start) : page = other := by
  by_contra different
  have apart := agree.apart.forall member otherMember different
  have positive := (agree.aligned page member).2.2.1
  have otherPositive := (agree.aligned other otherMember).2.2.1
  unfold Span.Apart at apart
  omega

theorem nodup_pages (agree : heap.Agree) : heap.pages.Nodup := by
  refine agree.apart.imp_of_mem ?_
  rintro page other member _ apart rfl
  have positive := (agree.aligned page member).2.2.1
  unfold Span.Apart at apart
  omega

theorem live_page (agree : heap.Agree) {block : Span} (member : block ∈ heap.live) :
    ∃ page ∈ heap.pages, page.start + memArenaSize ≤ block.start ∧
      block.start + block.bytes ≤ page.start + page.bytes ∧
      block2arena block.start = page.start := by
  rcases agree.live block member with ⟨idx, arena, small⟩ | ⟨page, large⟩
  · have inPage := small.isBlock.inside
    have bytes := small.bytes
    refine ⟨_, small.isArena.page, inPage.1, by dsimp only; omega, ?_⟩
    exact small.isBlock.arena_eq (agree.arena_inMemory small.isArena).1
  · have aligned := (agree.aligned page large.mem).1
    have start := large.start
    have bytes := large.bytes
    exact ⟨page, large.mem, by omega, by omega, large.arena_eq aligned⟩

end Agree

end Heap

/-! ### More pages -/

namespace Heap

structure Grown (heap after : Heap) (page : Span) (header : MemArena) : Prop where
  pages : after.pages = page :: heap.pages
  arenas : after.state.arenas = Function.update heap.state.arenas page.start header
  aligned : page.start % memPageSize = 0 ∧ 0 < page.start ∧ 0 < page.bytes ∧
    page.start + page.bytes ≤ 2 ^ 32
  apart : ∀ other ∈ heap.pages, page.Apart other
  live : after.live = heap.live

namespace Grown

variable {heap after : Heap} {page block : Span} {header : MemArena} {idx arena : Nat}

theorem start_ne (grown : Grown heap after page header) (agree : heap.Agree) {other : Span}
    (member : other ∈ heap.pages) : other.start ≠ page.start := by
  have apart := grown.apart other member
  have positive := (agree.aligned other member).2.2.1
  have newPositive := grown.aligned.2.2.1
  unfold Span.Apart at apart
  omega

theorem arenas_eq (grown : Grown heap after page header) (agree : heap.Agree) {other : Span}
    (member : other ∈ heap.pages) :
    after.state.arenas other.start = heap.state.arenas other.start := by
  rw [grown.arenas, Function.update_of_ne (grown.start_ne agree member)]

theorem stays (grown : Grown heap after page header) (agree : heap.Agree)
    (isArena : heap.Arena idx arena) : after.Arena idx arena := by
  have same := grown.arenas_eq agree isArena.page
  constructor
  · rw [grown.pages]
    exact List.mem_cons_of_mem _ isArena.page
  · exact same ▸ isArena.desc
  · exact same ▸ isArena.small

theorem arena_cases (grown : Grown heap after page header) (agree : heap.Agree)
    (isArena : after.Arena idx arena) :
    (heap.Arena idx arena ∧ arena ≠ page.start) ∨
      (arena = page.start ∧ header.desc = some idx ∧ header.large = false) := by
  have member := isArena.page
  rw [grown.pages] at member
  rcases List.mem_cons.mp member with new | old
  · have start : arena = page.start := congrArg Span.start new
    have desc := isArena.desc
    have small := isArena.small
    rw [grown.arenas, start, Function.update_self] at desc small
    exact .inr ⟨start, desc, small⟩
  · have same := grown.arenas_eq agree old
    exact .inl ⟨⟨old, same ▸ isArena.desc, same ▸ isArena.small⟩, grown.start_ne agree old⟩

theorem aligned_all (grown : Grown heap after page header) (agree : heap.Agree) :
    ∀ other ∈ after.pages, other.start % memPageSize = 0 ∧ 0 < other.start ∧
      0 < other.bytes ∧ other.start + other.bytes ≤ 2 ^ 32 := by
  intro other member
  rw [grown.pages] at member
  rcases List.mem_cons.mp member with rfl | old
  · exact grown.aligned
  · exact agree.aligned other old

theorem apart_all (grown : Grown heap after page header) (agree : heap.Agree) :
    after.pages.Pairwise Span.Apart := by
  rw [grown.pages]
  exact List.pairwise_cons.mpr ⟨grown.apart, agree.apart⟩

theorem largeBlock (grown : Grown heap after page header) (agree : heap.Agree) {own : Span}
    (large : heap.LargeBlock block own) : after.LargeBlock block own := by
  have same := grown.arenas_eq agree large.mem
  refine ⟨?_, same ▸ large.large, same ▸ large.count, large.start, large.bytes⟩
  rw [grown.pages]
  exact List.mem_cons_of_mem _ large.mem

theorem live_arena_ne (grown : Grown heap after page header) (agree : heap.Agree)
    (member : block ∈ heap.live) : block2arena block.start ≠ page.start := by
  obtain ⟨own, ownMember, -, -, arenaEq⟩ := agree.live_page member
  rw [arenaEq]
  exact grown.start_ne agree ownMember

theorem agree_large (grown : Grown heap after page header) (agree : heap.Agree)
    (descs : after.state.descs = heap.state.descs) (isLarge : header.large = true) :
    after.Agree where
  classes := by
    unfold MallocState.Classes
    rw [descs]
    exact agree.classes
  aligned := grown.aligned_all agree
  apart := grown.apart_all agree
  free := by
    intro idx inside block member
    rw [descs] at member
    obtain ⟨arena, isArena, isBlock⟩ := agree.free idx inside block member
    exact ⟨arena, grown.stays agree isArena, isBlock⟩
  nodup := by
    rw [descs]
    exact agree.nodup
  count := by
    intro idx inside arena isArena
    rcases grown.arena_cases agree isArena with ⟨old, -⟩ | ⟨-, -, small⟩
    · rw [descs, ← agree.count idx inside arena old]
      exact congrArg MemArena.freeCnt (grown.arenas_eq agree old.page)
    · rw [isLarge] at small
      cases small
  live := by
    rw [grown.live]
    intro block member
    rcases agree.live block member with ⟨idx, arena, small⟩ | ⟨own, large⟩
    · refine .inl ⟨idx, arena, small.class_lt, grown.stays agree small.isArena, small.isBlock,
        small.bytes, ?_⟩
      rw [descs]
      exact small.notFree
    · exact .inr ⟨own, grown.largeBlock agree large⟩
  distinct := by
    rw [grown.live]
    exact agree.distinct

theorem agree_arena (grown : Grown heap after page header) (agree : heap.Agree)
    (inside : idx < memBlockCnt) (empty : (heap.state.descs idx).freeBlocks = [])
    (isPage : page.bytes = memPageSize)
    (isHeader : header = ⟨some idx, classBlocks idx, false⟩)
    (descs : after.state.descs = Function.update heap.state.descs idx
      ⟨classSize idx, arenaBlocks idx page.start, classBlocks idx⟩) : after.Agree := by
  have inMemory : page.start + memPageSize ≤ 2 ^ 32 := isPage ▸ grown.aligned.2.2.2
  have blockArena : ∀ block ∈ arenaBlocks idx page.start, block2arena block = page.start :=
    fun block member => ((mem_arenaBlocks inMemory).mp member).arena_eq grown.aligned.1
  have newArena : after.Arena idx page.start := by
    constructor
    · rw [grown.pages]
      exact List.mem_cons.mpr (.inl (by rw [← isPage]))
    · rw [grown.arenas, Function.update_self, isHeader]
    · rw [grown.arenas, Function.update_self, isHeader]
  constructor
  · intro other otherInside
    rw [descs]
    by_cases same : other = idx
    · simp [same]
    · rw [Function.update_of_ne same]
      exact agree.classes other otherInside
  · exact grown.aligned_all agree
  · exact grown.apart_all agree
  · intro other otherInside block member
    rw [descs] at member
    by_cases same : other = idx
    · subst same
      rw [Function.update_self] at member
      exact ⟨page.start, newArena, (mem_arenaBlocks inMemory).mp member⟩
    · rw [Function.update_of_ne same] at member
      obtain ⟨arena, isArena, isBlock⟩ := agree.free other otherInside block member
      exact ⟨arena, grown.stays agree isArena, isBlock⟩
  · intro other otherInside
    rw [descs]
    by_cases same : other = idx
    · subst same
      rw [Function.update_self]
      exact arenaBlocks_nodup inMemory
    · rw [Function.update_of_ne same]
      exact agree.nodup other otherInside
  · intro other otherInside arena isArena
    rw [descs]
    rcases grown.arena_cases agree isArena with ⟨old, ne⟩ | ⟨rfl, desc, -⟩
    · have counted := agree.count other otherInside arena old
      have headerEq := congrArg MemArena.freeCnt (grown.arenas_eq agree old.page)
      by_cases same : other = idx
      · subst same
        rw [Function.update_self]
        have none : (arenaBlocks other page.start).countP (block2arena · = arena) = 0 := by
          rw [List.countP_eq_zero]
          intro block member
          simpa [blockArena block member] using ne.symm
        rw [none]
        rw [empty] at counted
        exact headerEq.trans counted
      · rw [Function.update_of_ne same]
        exact headerEq.trans counted
    · rw [isHeader] at desc
      obtain rfl : idx = other := Option.some.inj desc
      have all : (arenaBlocks idx page.start).countP (block2arena · = page.start) =
          (arenaBlocks idx page.start).length := by
        rw [List.countP_eq_length]
        intro block member
        simpa using blockArena block member
      rw [Function.update_self, grown.arenas, Function.update_self, isHeader, all]
      simp [arenaBlocks]
  · rw [grown.live]
    intro block member
    rcases agree.live block member with ⟨other, arena, small⟩ | ⟨own, large⟩
    · refine .inl ⟨other, arena, small.class_lt, grown.stays agree small.isArena, small.isBlock,
        small.bytes, ?_⟩
      rw [descs]
      by_cases same : other = idx
      · subst same
        rw [Function.update_self]
        exact fun isNew => grown.live_arena_ne agree member (blockArena _ isNew)
      · rw [Function.update_of_ne same]
        exact small.notFree
    · exact .inr ⟨own, grown.largeBlock agree large⟩
  · rw [grown.live]
    exact agree.distinct

end Grown

end Heap

/-! ### Blocks that are handed out and freed -/

namespace Heap

def setClass (heap : Heap) (idx arena : Nat) (freeBlocks : List Nat) (freeCnt : Nat)
    (live : List Span) : Heap :=
  { state :=
      { descs := Function.update heap.state.descs idx
          { heap.state.descs idx with freeBlocks := freeBlocks }
        arenas := Function.update heap.state.arenas arena
          { heap.state.arenas arena with freeCnt := freeCnt } }
    pages := heap.pages
    live := live }

namespace Agree

variable {heap : Heap} {idx arena block : Nat}

theorem filter_subperm (agree : heap.Agree) (inside : idx < memBlockCnt)
    (isArena : heap.Arena idx arena) :
    ((heap.state.descs idx).freeBlocks.filter (block2arena · = arena)).Subperm
      (arenaBlocks idx arena) := by
  apply ((agree.nodup idx inside).filter _).subperm
  intro block member
  obtain ⟨isFree, inArena⟩ := List.mem_filter.mp member
  obtain ⟨other, otherArena, isBlock⟩ := agree.free idx inside block isFree
  have same := isBlock.arena_eq (agree.arena_inMemory otherArena).1
  obtain rfl : other = arena := same.symm.trans (of_decide_eq_true inArena)
  exact (mem_arenaBlocks (agree.arena_inMemory isArena).2).mpr isBlock

theorem count_le (agree : heap.Agree) (inside : idx < memBlockCnt)
    (isArena : heap.Arena idx arena) :
    (heap.state.arenas arena).freeCnt ≤ classBlocks idx := by
  rw [agree.count idx inside arena isArena, List.countP_eq_length_filter]
  have bound := (agree.filter_subperm inside isArena).length_le
  simpa [arenaBlocks] using bound

theorem all_free (agree : heap.Agree) (inside : idx < memBlockCnt)
    (isArena : heap.Arena idx arena)
    (full : (heap.state.arenas arena).freeCnt = classBlocks idx)
    (isBlock : IsBlock idx arena block) : block ∈ (heap.state.descs idx).freeBlocks := by
  rw [agree.count idx inside arena isArena, List.countP_eq_length_filter] at full
  have perm := (agree.filter_subperm inside isArena).perm_of_length_le
    (by rw [full]; simp [arenaBlocks])
  have member := (mem_arenaBlocks (agree.arena_inMemory isArena).2).mpr isBlock
  exact (List.mem_filter.mp (perm.mem_iff.mpr member)).1

theorem smallBlock_of_arena (agree : heap.Agree) {used : Span} (member : used ∈ heap.live)
    (isArena : heap.Arena idx arena) (inArena : block2arena used.start = arena) :
    heap.SmallBlock used idx arena := by
  rcases agree.live used member with ⟨other, own, small⟩ | ⟨page, large⟩
  · have same := small.isBlock.arena_eq (agree.arena_inMemory small.isArena).1
    obtain rfl : own = arena := same.symm.trans inArena
    obtain rfl : other = idx :=
      Option.some.inj (small.isArena.desc.symm.trans isArena.desc)
    exact small
  · have same := large.arena_eq (agree.aligned page large.mem).1
    have isLarge := large.large
    rw [← same, inArena, isArena.small] at isLarge
    cases isLarge

theorem apart_elsewhere (agree : heap.Agree) {page used : Span} {ptr size : Nat}
    (isPage : page ∈ heap.pages) (above : page.start ≤ ptr)
    (below : ptr + size ≤ page.start + page.bytes) (member : used ∈ heap.live)
    (elsewhere : block2arena used.start ≠ page.start) : Span.Apart ⟨ptr, size⟩ used := by
  obtain ⟨own, ownMember, ownAbove, ownBelow, arenaEq⟩ := agree.live_page member
  have different : page ≠ own := by
    rintro rfl
    exact elsewhere arenaEq
  have apart := agree.apart.forall isPage ownMember different
  unfold Span.Apart at apart ⊢
  dsimp only
  omega

theorem apart_of_free (agree : heap.Agree) {used : Span} {size : Nat}
    (isArena : heap.Arena idx arena)
    (isBlock : IsBlock idx arena block) (isFree : block ∈ (heap.state.descs idx).freeBlocks)
    (fits : size ≤ classSize idx) (member : used ∈ heap.live) :
    Span.Apart ⟨block, size⟩ used := by
  have inPage := isBlock.inside
  by_cases inArena : block2arena used.start = arena
  · have small := agree.smallBlock_of_arena member isArena inArena
    have different : block ≠ used.start := fun same => small.notFree (same ▸ isFree)
    have apart := isBlock.apart small.isBlock different
    have bytes := small.bytes
    unfold Span.Apart
    dsimp only
    omega
  · apply agree.apart_elsewhere isArena.page _ _ member inArena
    · exact Nat.le_of_add_right_le inPage.1
    · dsimp only
      omega

end Agree

section SetClass

variable {heap : Heap} {idx arena freeCnt : Nat} {freeBlocks : List Nat} {live : List Span}

theorem setClass_freeBlocks (other : Nat) :
    (((heap.setClass idx arena freeBlocks freeCnt live).state.descs other).freeBlocks =
      if other = idx then freeBlocks else (heap.state.descs other).freeBlocks) := by
  unfold setClass
  by_cases same : other = idx
  · simp [same]
  · simp [same]

theorem setClass_arena {other own : Nat} :
    (heap.setClass idx arena freeBlocks freeCnt live).Arena other own ↔
      heap.Arena other own := by
  have desc : ((heap.setClass idx arena freeBlocks freeCnt live).state.arenas own).desc =
      (heap.state.arenas own).desc := by
    unfold setClass
    by_cases same : own = arena <;> simp [same]
  have small : ((heap.setClass idx arena freeBlocks freeCnt live).state.arenas own).large =
      (heap.state.arenas own).large := by
    unfold setClass
    by_cases same : own = arena <;> simp [same]
  constructor
  · intro isArena
    exact ⟨isArena.page, desc ▸ isArena.desc, small ▸ isArena.small⟩
  · intro isArena
    exact ⟨isArena.page, desc.symm ▸ isArena.desc, small.symm ▸ isArena.small⟩

theorem setClass_largeBlock {block page : Span} (isArena : heap.Arena idx arena)
    (large : heap.LargeBlock block page) :
    (heap.setClass idx arena freeBlocks freeCnt live).LargeBlock block page := by
  have different : page.start ≠ arena := by
    intro same
    have isLarge := large.large
    rw [same, isArena.small] at isLarge
    cases isLarge
  have header : (heap.setClass idx arena freeBlocks freeCnt live).state.arenas page.start =
      heap.state.arenas page.start := by
    simp [setClass, different]
  exact ⟨large.mem, header ▸ large.large, header ▸ large.count, large.start, large.bytes⟩

theorem setClass_agree (agree : heap.Agree) (inside : idx < memBlockCnt)
    (isArena : heap.Arena idx arena)
    (free : ∀ block ∈ freeBlocks, ∃ own, heap.Arena idx own ∧ IsBlock idx own block)
    (nodup : freeBlocks.Nodup)
    (count : freeCnt = freeBlocks.countP (block2arena · = arena))
    (others : ∀ own, own ≠ arena → freeBlocks.countP (block2arena · = own) =
      (heap.state.descs idx).freeBlocks.countP (block2arena · = own))
    (used : ∀ block ∈ live,
      (∃ other own, other < memBlockCnt ∧ heap.Arena other own ∧
        IsBlock other own block.start ∧ block.bytes ≤ classSize other ∧
        block.start ∉ if other = idx then freeBlocks else (heap.state.descs other).freeBlocks) ∨
      ∃ page, heap.LargeBlock block page)
    (distinct : (live.map Span.start).Nodup) :
    (heap.setClass idx arena freeBlocks freeCnt live).Agree where
  classes := by
    intro other otherInside
    have same := agree.classes other otherInside
    unfold setClass
    by_cases isClass : other = idx
    · subst isClass
      simpa using same
    · simpa [isClass] using same
  aligned := agree.aligned
  apart := agree.apart
  free := by
    intro other otherInside block member
    rw [setClass_freeBlocks] at member
    simp only [setClass_arena]
    split at member
    · rename_i same
      exact same ▸ free block member
    · exact agree.free other otherInside block member
  nodup := by
    intro other otherInside
    rw [setClass_freeBlocks]
    split
    · exact nodup
    · exact agree.nodup other otherInside
  count := by
    intro other otherInside own otherArena
    rw [setClass_arena] at otherArena
    rw [setClass_freeBlocks]
    have counted := agree.count other otherInside own otherArena
    by_cases isOwn : own = arena
    · subst isOwn
      obtain rfl : other = idx := Option.some.inj (otherArena.desc.symm.trans isArena.desc)
      simpa [setClass] using count
    · have header : (heap.setClass idx arena freeBlocks freeCnt live).state.arenas own =
          heap.state.arenas own := by
        simp [setClass, isOwn]
      rw [header, counted]
      split
      · rename_i same
        rw [same]
        exact (others own isOwn).symm
      · rfl
  live := by
    intro block member
    rcases used block member with
      ⟨other, own, otherInside, otherArena, isBlock, bytes, outside⟩ | ⟨page, large⟩
    · refine .inl ⟨other, own, otherInside, setClass_arena.mpr otherArena, isBlock, bytes, ?_⟩
      rw [setClass_freeBlocks]
      exact outside
    · exact .inr ⟨page, setClass_largeBlock isArena large⟩
  distinct := distinct

end SetClass

end Heap

end CleanOS.Glibc
