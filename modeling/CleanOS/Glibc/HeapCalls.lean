import CleanOS.Glibc.Heap

/-!
# Sequences of calls of the heap

`_malloc` and `_free` keep the invariant of the heap, and where the sizes can be rounded up to
pages and the allocator grants them, the blocks that `_malloc` returns can be used.
-/

namespace CleanOS.Glibc

open CleanOS.Lib

namespace Heap

namespace Agree

variable {heap : Heap} {idx arena : Nat}

theorem classBlocks_lt (idx : Nat) : classBlocks idx < 2 ^ 32 := by
  have bound := Nat.div_le_self (memPageSize - memArenaSize) (classSize idx)
  simp only [classBlocks, memPageSize, memArenaSize] at bound ⊢
  omega

theorem takeBlock (agree : heap.Agree) (inside : idx < memBlockCnt) {block size : Nat}
    {rest : List Nat} (first : (heap.state.descs idx).freeBlocks = block :: rest)
    (fits : size ≤ classSize idx) :
    ∃ after : Heap, heap.state.takeBlock idx = some (after.state, block) ∧ block ≠ 0 ∧
      after.pages = heap.pages ∧ after.live = ⟨block, size⟩ :: heap.live ∧ after.Agree ∧
      Usable heap after block size := by
  have isFree : block ∈ (heap.state.descs idx).freeBlocks := by simp [first]
  obtain ⟨arena, isArena, isBlock⟩ := agree.free idx inside block isFree
  have arenaEq := isBlock.arena_eq (agree.arena_inMemory isArena).1
  have inPage := isBlock.inside
  have nodup := agree.nodup idx inside
  rw [first, List.nodup_cons] at nodup
  have counted := agree.count idx inside arena isArena
  have bound := agree.count_le inside isArena
  rw [first, List.countP_cons_of_pos (by simpa using arenaEq)] at counted
  have freeCnt : ((heap.state.arenas arena).freeCnt + 2 ^ 32 - 1) % 2 ^ 32 =
      rest.countP (block2arena · = arena) := by
    have small := classBlocks_lt idx
    omega
  refine ⟨heap.setClass idx arena rest (rest.countP (block2arena · = arena))
    (⟨block, size⟩ :: heap.live), ?_, ?_, rfl, rfl, ?_, ?_⟩
  · rw [MallocState.takeBlock, first]
    dsimp only
    rw [arenaEq, freeCnt]
    rfl
  · simp only [memArenaSize] at inPage
    omega
  · apply setClass_agree agree inside isArena
    · intro other member
      exact agree.free idx inside other (by simp [first, member])
    · exact nodup.2
    · rfl
    · intro own different
      rw [first, List.countP_cons_of_neg]
      simpa [arenaEq] using different.symm
    · intro used member
      rcases List.mem_cons.mp member with rfl | old
      · refine .inl ⟨idx, arena, inside, isArena, isBlock, fits, ?_⟩
        rw [if_pos rfl]
        exact nodup.1
      · rcases agree.live used old with ⟨other, own, small⟩ | large
        · refine .inl ⟨other, own, small.class_lt, small.isArena, small.isBlock, small.bytes, ?_⟩
          have notFree := small.notFree
          split
          · rename_i same
            rw [same, first] at notFree
            exact fun later => notFree (List.mem_cons_of_mem _ later)
          · exact notFree
        · exact .inr large
    · refine List.nodup_cons.mpr ⟨?_, agree.distinct⟩
      intro member
      obtain ⟨used, usedMember, same⟩ := List.mem_map.mp member
      have small := agree.smallBlock_of_arena usedMember isArena (same ▸ arenaEq)
      exact small.notFree (same ▸ isFree)
  · constructor
    · refine ⟨_, isArena.page, inPage.1, ?_⟩
      dsimp only
      omega
    · intro used member
      exact agree.apart_of_free isArena isBlock isFree fits member

theorem addLarge (agree : heap.Agree) {block page : Span} (large : heap.LargeBlock block page)
    (unused : ∀ used ∈ heap.live, block2arena used.start ≠ page.start) :
    ({ heap with live := block :: heap.live } : Heap).Agree := by
  have arenaEq := large.arena_eq (agree.aligned page large.mem).1
  refine ⟨agree.classes, agree.aligned, agree.apart, ?_, agree.nodup, ?_, ?_, ?_⟩
  · intro idx inside free member
    obtain ⟨arena, isArena, isBlock⟩ := agree.free idx inside free member
    exact ⟨arena, ⟨isArena.page, isArena.desc, isArena.small⟩, isBlock⟩
  · intro idx inside arena isArena
    exact agree.count idx inside arena ⟨isArena.page, isArena.desc, isArena.small⟩
  · intro used member
    rcases List.mem_cons.mp member with rfl | old
    · exact .inr ⟨page, large.mem, large.large, large.count, large.start, large.bytes⟩
    · rcases agree.live used old with ⟨idx, arena, small⟩ | ⟨own, ownLarge⟩
      · exact .inl ⟨idx, arena, small.class_lt,
          ⟨small.isArena.page, small.isArena.desc, small.isArena.small⟩, small.isBlock,
          small.bytes, small.notFree⟩
      · exact .inr ⟨own, ownLarge.mem, ownLarge.large, ownLarge.count, ownLarge.start,
          ownLarge.bytes⟩
  · refine List.nodup_cons.mpr ⟨?_, agree.distinct⟩
    intro member
    obtain ⟨used, usedMember, same⟩ := List.mem_map.mp member
    exact unused used usedMember (same ▸ arenaEq)

end Agree

end Heap

namespace Heap.Agree

variable {heap : Heap} {size : UInt32} {answer : Option Nat}

theorem largest (agree : heap.Agree) :
    (heap.state.descs (memBlockCnt - 1)).blockSize = 1024 :=
  (agree.classes (memBlockCnt - 1) (by decide)).1

theorem arena_fits (agree : heap.Agree) : ∀ idx < memBlockCnt,
    (heap.state.descs idx).blocksPerArena * (heap.state.descs idx).blockSize + memArenaSize ≤
      memPageSize := by
  intro idx inside
  obtain ⟨blockSize, blocksPerArena⟩ := agree.classes idx inside
  rw [blockSize, blocksPerArena]
  exact classBlocks_fit idx

theorem malloc_large (agree : heap.Agree) (scope : HeapScope heap (.malloc size answer))
    (fits : size.toNat ≤ 2 ^ 32 - memPageSize - memArenaSize)
    (isLarge : heap.state.isLarge size.toNat)
    (granted : heap.state.request size.toNat ≠ none → answer ≠ none) :
    ∃ result after, heapCall heap (.malloc size answer) = some (result, after) ∧
      MallocRight heap size.toNat result after ∧ after.Agree := by
  have request : heap.state.request size.toNat = some (MallocState.largeBytes size.toNat) :=
    if_pos isLarge
  have bytesEq := largeBytes_eq fits
  obtain ⟨start, rfl⟩ := Option.ne_none_iff_exists'.mp (granted (by simp [request]))
  obtain ⟨aligned, positive, inMemory, apart⟩ := scope _ start request rfl
  set bytes := MallocState.largeBytes size.toNat
  have covers : memArenaSize + size.toNat ≤ bytes := by
    simp only [memPageSize, memArenaSize] at bytesEq ⊢
    omega
  have ptr : (start + memArenaSize) % 2 ^ 32 = start + memArenaSize := by
    apply Nat.mod_eq_of_lt
    have notSmall := isLarge
    rw [MallocState.isLarge, agree.largest] at notSmall
    simp only [memArenaSize] at covers ⊢
    omega
  obtain ⟨⟨state, result⟩, malloc⟩ :
      ∃ pair, heap.state.mallocLarge size.toNat start = pair := ⟨_, rfl⟩
  have stateEq : state = (heap.state.mallocLarge size.toNat start).1 := by rw [malloc]
  have isPtr : result = start + memArenaSize := by
    rw [← ptr]
    exact (congrArg Prod.snd malloc).symm
  have notEmpty : 0 < bytes :=
    Nat.lt_of_lt_of_le (by decide) (Nat.le_trans (Nat.le_add_right memArenaSize _) covers)
  -- The heap with the new pages, before the block counts as in use.
  let grownHeap : Heap := ⟨state, ⟨start, bytes⟩ :: heap.pages, heap.live⟩
  have grown : Grown heap grownHeap ⟨start, bytes⟩ (state.arenas start) := by
    refine ⟨rfl, ?_, ⟨aligned, positive, notEmpty, inMemory⟩, apart, rfl⟩
    simp [grownHeap, stateEq, MallocState.mallocLarge]
  have header : (state.arenas start).large = true ∧
      (state.arenas start).freeCnt * memPageSize = bytes := by
    rw [stateEq]
    simp only [MallocState.mallocLarge, Function.update_self, true_and]
    rw [show MallocState.largeBytes size.toNat = bytes from rfl, bytesEq,
      Nat.mul_div_cancel _ (by decide)]
  have grownAgree : grownHeap.Agree :=
    grown.agree_large agree (by rw [show grownHeap.state = state from rfl, stateEq]; rfl) header.1
  have large : grownHeap.LargeBlock ⟨result, size.toNat⟩ ⟨start, bytes⟩ :=
    ⟨List.mem_cons_self, header.1, header.2, isPtr, covers⟩
  have unused : ∀ used ∈ grownHeap.live, block2arena used.start ≠ start :=
    fun used member => grown.live_arena_ne agree member
  refine ⟨result, { grownHeap with live := ⟨result, size.toNat⟩ :: heap.live }, ?_, ?_,
    grownAgree.addLarge large unused⟩
  · have notNull : result ≠ 0 := by
      rw [isPtr]
      omega
    rw [heapCall, request, MallocState.malloc, if_pos isLarge, Option.map_some, Option.map_some,
      malloc]
    dsimp only
    rw [if_neg notNull]
    rfl
  · refine ⟨fun _ => ⟨bytesEq, covers⟩, fun isSmall => absurd isLarge isSmall, agree.arena_fits,
      .inr ⟨?_, ?_⟩⟩
    · refine ⟨⟨start, bytes⟩, List.mem_cons_self, by rw [isPtr], ?_⟩
      dsimp only
      rw [isPtr]
      omega
    · intro used member
      apply grownAgree.apart_elsewhere List.mem_cons_self _ _ member (unused used member)
      · dsimp only
        rw [isPtr]
        omega
      · dsimp only
        rw [isPtr]
        omega

theorem malloc_small (agree : heap.Agree) (scope : HeapScope heap (.malloc size answer))
    (isSmall : ¬ heap.state.isLarge size.toNat)
    (granted : heap.state.request size.toNat ≠ none → answer ≠ none) :
    ∃ result after, heapCall heap (.malloc size answer) = some (result, after) ∧
      MallocRight heap size.toNat result after ∧ after.Agree := by
  obtain ⟨inside, fits⟩ := MallocState.sizeClass_small isSmall
  have right : ∀ result after, Usable heap after result size.toNat →
      MallocRight heap size.toNat result after := fun result after usable =>
    ⟨fun isLarge => absurd isLarge isSmall, fun _ => ⟨_, inside, rfl, fits⟩, agree.arena_fits,
      .inr usable⟩
  obtain ⟨idx, idxEq⟩ : ∃ idx, heap.state.sizeClass size.toNat memBlockCnt 0 = idx := ⟨_, rfl⟩
  rw [idxEq] at inside fits
  obtain ⟨blockSize, blocksPerArena⟩ := agree.classes idx inside
  rw [blockSize] at fits
  have malloc : heap.state.malloc size.toNat answer =
      if (heap.state.descs idx).freeBlocks = [] then
        answer.bind fun arena => (heap.state.newArena idx arena).takeBlock idx
      else heap.state.takeBlock idx := by
    rw [MallocState.malloc, if_neg isSmall, idxEq]
  have request : heap.state.request size.toNat =
      if (heap.state.descs idx).freeBlocks = [] then some memPageSize else none := by
    rw [MallocState.request, if_neg isSmall, idxEq]
  cases first : (heap.state.descs idx).freeBlocks with
  | cons block rest =>
      obtain ⟨after, taken, notNull, pages, live, afterAgree, usable⟩ :=
        agree.takeBlock inside first fits
      refine ⟨block, after, ?_, right _ _ usable, afterAgree⟩
      rw [first, if_neg (by simp)] at malloc request
      rw [heapCall, malloc, taken, Option.map_some]
      dsimp only
      rw [if_neg notNull, ← live, request, Heap.grant_none, ← pages]
  | nil =>
      rw [first, if_pos rfl] at malloc request
      obtain ⟨start, rfl⟩ := Option.ne_none_iff_exists'.mp (granted (by simp [request]))
      obtain ⟨aligned, positive, inMemory, apart⟩ := scope _ start request rfl
      let grownHeap : Heap :=
        ⟨heap.state.newArena idx start, ⟨start, memPageSize⟩ :: heap.pages, heap.live⟩
      have grown : Grown heap grownHeap ⟨start, memPageSize⟩
          ⟨some idx, classBlocks idx, false⟩ := by
        refine ⟨rfl, ?_, ⟨aligned, positive, Nat.succ_pos _, inMemory⟩, apart, rfl⟩
        simp [grownHeap, MallocState.newArena, blocksPerArena]
      have descs : grownHeap.state.descs = Function.update heap.state.descs idx
          ⟨classSize idx, arenaBlocks idx start, classBlocks idx⟩ := by
        simp only [grownHeap, MallocState.newArena, first, blockSize, blocksPerArena,
          List.nil_append]
        rfl
      have grownAgree := grown.agree_arena agree inside first rfl rfl descs
      have freeBlocks : (grownHeap.state.descs idx).freeBlocks = arenaBlocks idx start := by
        rw [descs, Function.update_self]
      obtain ⟨block, rest, split⟩ := List.exists_cons_of_ne_nil
        (show arenaBlocks idx start ≠ [] by
          have power : classSize idx ≤ classSize 7 :=
            Nat.mul_le_mul_left 8 (Nat.pow_le_pow_right (by decide) (Nat.le_of_lt_succ inside))
          have some : 0 < classBlocks idx :=
            Nat.div_pos (Nat.le_trans power (by decide)) (classSize_pos idx)
          have length : (arenaBlocks idx start).length = classBlocks idx := by simp [arenaBlocks]
          intro empty
          rw [empty] at length
          exact absurd length.symm (Nat.ne_of_gt some))
      obtain ⟨after, taken, notNull, pages, live, afterAgree, usable⟩ :=
        grownAgree.takeBlock inside (freeBlocks.trans split) fits
      refine ⟨block, after, ?_, right _ _ ⟨usable.inPages, usable.apart⟩, afterAgree⟩
      rw [heapCall, malloc, Option.bind_some, show (heap.state.newArena idx start).takeBlock idx =
        some (after.state, block) from taken, Option.map_some]
      dsimp only
      rw [if_neg notNull, request, Heap.grant,
        show (⟨block, size.toNat⟩ :: heap.live : List Span) = after.live from live.symm,
        show (⟨start, memPageSize⟩ :: heap.pages : List Span) = after.pages from pages.symm]

end Heap.Agree

namespace Heap.Agree

variable {heap : Heap} {idx arena : Nat}

theorem dropLive (agree : heap.Agree) {live : List Span} (fewer : live.Sublist heap.live) :
    ({ heap with live := live } : Heap).Agree := by
  refine ⟨agree.classes, agree.aligned, agree.apart, ?_, agree.nodup, ?_, ?_,
    agree.distinct.sublist (fewer.map Span.start)⟩
  · intro idx inside free member
    obtain ⟨arena, isArena, isBlock⟩ := agree.free idx inside free member
    exact ⟨arena, ⟨isArena.page, isArena.desc, isArena.small⟩, isBlock⟩
  · intro idx inside arena isArena
    exact agree.count idx inside arena ⟨isArena.page, isArena.desc, isArena.small⟩
  · intro used member
    rcases agree.live used (fewer.subset member) with ⟨idx, arena, small⟩ | ⟨own, large⟩
    · exact .inl ⟨idx, arena, small.class_lt,
        ⟨small.isArena.page, small.isArena.desc, small.isArena.small⟩, small.isBlock,
        small.bytes, small.notFree⟩
    · exact .inr ⟨own, large.mem, large.large, large.count, large.start, large.bytes⟩

theorem free_arena (agree : heap.Agree) (inside : idx < memBlockCnt) {block : Nat}
    (member : block ∈ (heap.state.descs idx).freeBlocks) :
    heap.Arena idx (block2arena block) ∧ IsBlock idx (block2arena block) block := by
  obtain ⟨arena, isArena, isBlock⟩ := agree.free idx inside block member
  rw [isBlock.arena_eq (agree.arena_inMemory isArena).1]
  exact ⟨isArena, isBlock⟩

theorem removePage (agree : heap.Agree) {page : Span} {after : Heap}
    (isPage : page ∈ heap.pages)
    (unused : ∀ used ∈ heap.live, block2arena used.start ≠ page.start)
    (pages : after.pages = heap.pages.erase page)
    (arenas : after.state.arenas = heap.state.arenas) (live : after.live = heap.live)
    (classes : after.state.Classes)
    (freeBlocks : ∀ idx < memBlockCnt, (after.state.descs idx).freeBlocks =
      (heap.state.descs idx).freeBlocks.filter (block2arena · ≠ page.start)) : after.Agree := by
  have remains : ∀ {other : Span}, other ∈ heap.pages → other.start ≠ page.start →
      other ∈ after.pages := by
    intro other member different
    rw [pages, agree.nodup_pages.mem_erase_iff]
    exact ⟨fun same => different (by rw [same]), member⟩
  have stays : ∀ {idx arena}, heap.Arena idx arena → arena ≠ page.start →
      after.Arena idx arena := by
    intro idx arena isArena different
    exact ⟨remains isArena.page different, arenas ▸ isArena.desc, arenas ▸ isArena.small⟩
  have was : ∀ {idx arena}, after.Arena idx arena →
      heap.Arena idx arena ∧ arena ≠ page.start := by
    intro idx arena isArena
    have member := isArena.page
    rw [pages, agree.nodup_pages.mem_erase_iff] at member
    refine ⟨⟨member.2, arenas ▸ isArena.desc, arenas ▸ isArena.small⟩, ?_⟩
    exact fun same => member.1 (agree.page_unique member.2 isPage same)
  constructor
  · exact classes
  · intro other member
    rw [pages] at member
    exact agree.aligned other (List.mem_of_mem_erase member)
  · rw [pages]
    exact agree.apart.sublist List.erase_sublist
  · intro idx inside block member
    rw [freeBlocks idx inside, List.mem_filter] at member
    obtain ⟨isArena, isBlock⟩ := agree.free_arena inside member.1
    exact ⟨_, stays isArena (of_decide_eq_true member.2), isBlock⟩
  · intro idx inside
    rw [freeBlocks idx inside]
    exact (agree.nodup idx inside).filter _
  · intro idx inside arena isArena
    obtain ⟨old, different⟩ := was isArena
    rw [arenas, freeBlocks idx inside, agree.count idx inside arena old, List.countP_filter]
    apply List.countP_congr
    intro block _
    simp only [ne_eq, decide_not, Bool.and_eq_true, decide_eq_true_eq, Bool.not_eq_true',
      decide_eq_false_iff_not]
    constructor
    · intro inArena
      exact ⟨inArena, inArena ▸ different⟩
    · exact And.left
  · rw [live]
    intro used member
    have elsewhere := unused used member
    rcases agree.live used member with ⟨idx, arena, small⟩ | ⟨own, large⟩
    · have inArena := small.isBlock.arena_eq (agree.arena_inMemory small.isArena).1
      refine .inl ⟨idx, arena, small.class_lt, stays small.isArena (inArena ▸ elsewhere),
        small.isBlock, small.bytes, ?_⟩
      rw [freeBlocks idx small.class_lt]
      exact fun isFree => small.notFree (List.mem_of_mem_filter isFree)
    · have different : own.start ≠ page.start := by
        rw [← large.arena_eq (agree.aligned own large.mem).1]
        exact elsewhere
      exact .inr ⟨own, remains large.mem different, arenas ▸ large.large, arenas ▸ large.count,
        large.start, large.bytes⟩
  · rw [live]
    exact agree.distinct

theorem removeBlocks_eq (agree : heap.Agree) (inside : idx < memBlockCnt)
    (isArena : heap.Arena idx arena) :
    MallocState.removeBlocks (heap.state.descs idx) arena (classBlocks idx) =
      (heap.state.descs idx).freeBlocks.filter (block2arena · ≠ arena) := by
  obtain ⟨blockSize, -⟩ := agree.classes idx inside
  have inMemory := (agree.arena_inMemory isArena).2
  have erased : MallocState.removeBlocks (heap.state.descs idx) arena (classBlocks idx) =
      (heap.state.descs idx).freeBlocks.diff (arenaBlocks idx arena) := by
    rw [List.diff_eq_foldl, arenaBlocks, List.foldl_map, MallocState.removeBlocks, blockSize]
  rw [erased, (agree.nodup idx inside).sdiff_eq_filter]
  apply List.filter_congr
  intro block member
  obtain ⟨ownArena, isBlock⟩ := agree.free_arena inside member
  simp only [ne_eq, decide_eq_decide, mem_arenaBlocks inMemory, not_iff_not]
  constructor
  · intro isOf
    exact isOf.arena_eq (agree.arena_inMemory isArena).1
  · intro same
    rw [← same]
    exact isBlock

end Heap.Agree

namespace Heap.Agree

variable {heap : Heap} {ptr : Nat}

theorem pushBlock (agree : heap.Agree) {block : Span} {idx arena : Nat}
    (small : heap.SmallBlock block idx arena) :
    (heap.setClass idx arena ((heap.state.descs idx).freeBlocks ++ [block.start])
      ((heap.state.arenas arena).freeCnt + 1)
      (heap.live.filter (·.start ≠ block.start))).Agree := by
  have inside := small.class_lt
  have arenaEq := small.isBlock.arena_eq (agree.arena_inMemory small.isArena).1
  apply setClass_agree agree inside small.isArena
  · intro other isFree
    rcases List.mem_append.mp isFree with old | new
    · exact agree.free idx inside other old
    · rw [List.mem_singleton.mp new]
      exact ⟨arena, small.isArena, small.isBlock⟩
  · apply (agree.nodup idx inside).append (List.nodup_singleton _)
    rw [List.disjoint_singleton]
    exact small.notFree
  · rw [List.countP_append, agree.count idx inside arena small.isArena]
    simp [arenaEq]
  · intro own different
    rw [List.countP_append]
    simp [arenaEq, different.symm]
  · intro used usedMember
    obtain ⟨usedOld, different⟩ := List.mem_filter.mp usedMember
    rcases agree.live used usedOld with ⟨other, own, usedSmall⟩ | large
    · refine .inl ⟨other, own, usedSmall.class_lt, usedSmall.isArena, usedSmall.isBlock,
        usedSmall.bytes, ?_⟩
      have notFree := usedSmall.notFree
      split
      · rename_i same
        rw [same] at notFree
        rw [List.mem_append, List.mem_singleton, not_or]
        exact ⟨notFree, of_decide_eq_true different⟩
      · exact notFree
    · exact .inr large
  · exact agree.distinct.sublist (List.filter_sublist.map Span.start)

theorem free_small (agree : heap.Agree) {block : Span} {idx arena : Nat}
    (small : heap.SmallBlock block idx arena) :
    ∃ after, heapCall heap (.free block.start) = some (0, after) ∧ after.Agree := by
  have inside := small.class_lt
  have aligned := agree.arena_inMemory small.isArena
  have arenaEq := small.isBlock.arena_eq aligned.1
  have notNull : block.start ≠ 0 := by
    have inPage := small.isBlock.inside
    simp only [memArenaSize] at inPage
    omega
  have pushed := agree.pushBlock small
  have isArena : (heap.setClass idx arena ((heap.state.descs idx).freeBlocks ++ [block.start])
      ((heap.state.arenas arena).freeCnt + 1)
      (heap.live.filter (·.start ≠ block.start))).Arena idx arena :=
    setClass_arena.mpr small.isArena
  have counted : ((heap.state.arenas arena).freeCnt + 1) % 2 ^ 32 =
      (heap.state.arenas arena).freeCnt + 1 := by
    have bound := pushed.count_le inside isArena
    simp only [setClass, Function.update_self] at bound
    exact Nat.mod_eq_of_lt (Nat.lt_of_le_of_lt bound (classBlocks_lt idx))
  have blocksPerArena := (agree.classes idx inside).2
  rw [heapCall, MallocState.free, if_neg notNull]
  simp only [arenaEq, small.isArena.small, small.isArena.desc, Bool.false_eq_true, if_false]
  split
  · rename_i release
    rw [counted] at release ⊢
    refine ⟨_, rfl, ?_⟩
    -- With all blocks of the arena free, none of them is in use.
    have full : ((heap.setClass idx arena ((heap.state.descs idx).freeBlocks ++ [block.start])
        ((heap.state.arenas arena).freeCnt + 1)
        (heap.live.filter (·.start ≠ block.start))).state.arenas arena).freeCnt =
        classBlocks idx := by
      simpa [setClass, blocksPerArena] using release.2
    apply pushed.removePage isArena.page
    · intro used usedMember inArena
      have usedSmall := pushed.smallBlock_of_arena usedMember isArena inArena
      exact usedSmall.notFree (pushed.all_free inside isArena full usedSmall.isBlock)
    · rfl
    · simp only [setClass, small.isArena.small, small.isArena.desc]
    · rfl
    · intro other otherInside
      by_cases same : other = idx
      · subst same
        simpa using agree.classes other otherInside
      · simpa [same] using agree.classes other otherInside
    · intro other otherInside
      by_cases same : other = idx
      · subst same
        have removed := pushed.removeBlocks_eq inside isArena
        simp only [setClass, Function.update_self] at removed ⊢
        rw [release.2, blocksPerArena]
        exact removed
      · simp only [setClass, Function.update_of_ne same]
        refine (List.filter_eq_self.mpr ?_).symm
        intro free isFree
        have own := (agree.free_arena otherInside isFree).1
        rw [decide_eq_true_eq]
        intro inArena
        have desc := own.desc
        rw [inArena, small.isArena.desc] at desc
        exact same (Option.some.inj desc).symm
  · refine ⟨_, rfl, ?_⟩
    simp only [setClass, small.isArena.small, small.isArena.desc] at pushed
    rw [counted]
    exact pushed

theorem free_large (agree : heap.Agree) {block page : Span}
    (large : heap.LargeBlock block page) :
    ∃ after, heapCall heap (.free block.start) = some (0, after) ∧ after.Agree := by
  obtain ⟨aligned, positive, notEmpty, inMemory⟩ := agree.aligned page large.mem
  have start := large.start
  have arenaEq := large.arena_eq aligned
  have notNull : block.start ≠ 0 := by
    rw [start]
    omega
  have bytes : (heap.state.arenas page.start).freeCnt * memPageSize % 2 ^ 32 = page.bytes := by
    rw [large.count]
    apply Nat.mod_eq_of_lt
    omega
  refine ⟨⟨heap.state, heap.pages.erase page, heap.live.filter (·.start ≠ block.start)⟩, ?_, ?_⟩
  · rw [heapCall, MallocState.free, if_neg notNull]
    simp only [arenaEq, large.large, if_true, bytes, Option.map_some, Heap.giveBack]
  · have dropped : ({ heap with
        live := heap.live.filter (·.start ≠ block.start) } : Heap).Agree :=
      agree.dropLive List.filter_sublist
    refine @removePage _ dropped page _ large.mem ?_ rfl rfl rfl agree.classes ?_
    · intro used usedMember inPages
      obtain ⟨usedOld, different⟩ := List.mem_filter.mp usedMember
      rcases agree.live used usedOld with ⟨idx, arena, small⟩ | ⟨own, ownLarge⟩
      · have ownArena := small.isBlock.arena_eq (agree.arena_inMemory small.isArena).1
        have isSmall := small.isArena.small
        rw [← ownArena, inPages, large.large] at isSmall
        cases isSmall
      · have same : own.start = page.start :=
          (ownLarge.arena_eq (agree.aligned own ownLarge.mem).1).symm.trans inPages
        exact of_decide_eq_true different (by rw [ownLarge.start, same, start])
    · intro idx inside
      refine (List.filter_eq_self.mpr ?_).symm
      intro free isFree
      have isSmall := (agree.free_arena inside isFree).1.small
      rw [decide_eq_true_eq]
      intro inPages
      rw [inPages, large.large] at isSmall
      cases isSmall

theorem free_right (agree : heap.Agree) (scope : HeapScope heap (.free ptr)) :
    ∃ result after, heapCall heap (.free ptr) = some (result, after) ∧ after.Agree := by
  rcases scope with rfl | ⟨block, member, rfl⟩
  · exact ⟨0, _, rfl, agree.dropLive List.filter_sublist⟩
  · rcases agree.live block member with ⟨idx, arena, small⟩ | ⟨page, large⟩
    · exact ⟨0, agree.free_small small⟩
    · exact ⟨0, agree.free_large large⟩

end Heap.Agree

theorem right_of_heapGuard {heap : Heap} {call : HeapCall} (agree : heap.Agree)
    (scope : HeapScope heap call) (guard : HeapGuard heap call) :
    ∃ result after, heapCall heap call = some (result, after) ∧
      HeapRight heap call result after ∧ after.Agree := by
  cases call with
  | malloc size answer =>
      obtain ⟨fits, granted⟩ := guard
      by_cases isLarge : heap.state.isLarge size.toNat
      · exact agree.malloc_large scope fits isLarge granted
      · exact agree.malloc_small scope isLarge granted
  | free ptr =>
      obtain ⟨result, after, called, afterAgree⟩ := agree.free_right scope
      exact ⟨result, after, called, trivial, afterAgree⟩

theorem malloc_refused {heap : Heap} {size : UInt32}
    (asks : heap.state.request size.toNat ≠ none) : heapCall heap (.malloc size none) = none := by
  have refused : heap.state.malloc size.toNat none = none := by
    rw [MallocState.malloc]
    rw [MallocState.request] at asks
    split
    · rfl
    · rename_i isSmall
      rw [if_neg isSmall] at asks
      split at asks
      · rename_i empty
        rw [if_pos empty]
        rfl
      · exact absurd rfl asks
  rw [heapCall, refused]
  rfl

theorem heapGuard_of_right {heap after : Heap} {call : HeapCall} {result : Nat}
    (agree : heap.Agree) (called : heapCall heap call = some (result, after))
    (right : HeapRight heap call result after) : HeapGuard heap call := by
  cases call with
  | free ptr => trivial
  | malloc size answer =>
      constructor
      · by_contra tooLarge
        have isLarge : heap.state.isLarge size.toNat := by
          rw [MallocState.isLarge, agree.largest]
          simp only [memPageSize, memArenaSize] at tooLarge
          omega
        have less := largeBytes_lt size.toNat_lt (Nat.lt_of_not_le tooLarge)
        exact Nat.not_le_of_gt less (right.large isLarge).2
      · rintro asks rfl
        rw [malloc_refused asks] at called
        cases called

/-- In every sequence of calls `_malloc` is right exactly where each size, with its header,
can be rounded up to pages within 32 bits, and the allocator grants what is asked for. -/
theorem heap_right_iff (descs : Nat → MemBlockDesc) (arenas : Nat → MemArena)
    (calls : List HeapCall)
    (within : AllGuarded heapCall HeapScope (Heap.start descs arenas) calls) :
    AllRight heapCall (fun _ => True) HeapRight (Heap.start descs arenas) calls ↔
      AllGuarded heapCall HeapGuard (Heap.start descs arenas) calls := by
  apply allRight_iff_allGuarded_within Heap.Agree _ _ calls
    (Heap.agree_start descs arenas) trivial within
  · intro heap call agree _ scope guard
    obtain ⟨result, after, called, right, afterAgree⟩ := right_of_heapGuard agree scope guard
    exact ⟨result, after, called, right, trivial, afterAgree⟩
  · intro heap call result after agree _ _ called right _
    exact heapGuard_of_right agree called right

/-- Blocks that are in use lie apart, behind the headers of the allocator's pages and outside of
the free blocks, which are listed once and counted by their arenas. -/
structure Heap.Sound (heap : Heap) : Prop where
  inPages : ∀ block ∈ heap.live, ∃ page ∈ heap.pages,
    page.start + memArenaSize ≤ block.start ∧
      block.start + block.bytes ≤ page.start + page.bytes
  apart : heap.live.Pairwise Span.Apart
  unused : ∀ idx < memBlockCnt, ∀ start ∈ (heap.state.descs idx).freeBlocks,
    ∀ block ∈ heap.live, Span.Apart ⟨start, classSize idx⟩ block
  nodup : ∀ idx < memBlockCnt, (heap.state.descs idx).freeBlocks.Nodup
  counted : ∀ idx < memBlockCnt, ∀ arena, heap.Arena idx arena →
    (heap.state.arenas arena).freeCnt =
      (heap.state.descs idx).freeBlocks.countP (block2arena · = arena)

theorem Heap.Agree.live_apart {heap : Heap} (agree : heap.Agree) {block other : Span}
    (member : block ∈ heap.live) (otherMember : other ∈ heap.live)
    (different : block.start ≠ other.start) : block.Apart other := by
  rcases agree.live block member with ⟨idx, arena, small⟩ | ⟨page, large⟩
  · have inPage := small.isBlock.inside
    have bytes := small.bytes
    by_cases inArena : block2arena other.start = arena
    · have otherSmall := agree.smallBlock_of_arena otherMember small.isArena inArena
      have apart := small.isBlock.apart otherSmall.isBlock different
      have otherBytes := otherSmall.bytes
      unfold Span.Apart
      omega
    · exact agree.apart_elsewhere small.isArena.page (Nat.le_of_add_right_le inPage.1)
        (by dsimp only; omega) otherMember inArena
  · have start := large.start
    have bytes := large.bytes
    apply agree.apart_elsewhere large.mem (by omega) (by omega) otherMember
    intro inPage
    rcases agree.live other otherMember with ⟨idx, arena, small⟩ | ⟨own, otherLarge⟩
    · rw [small.isBlock.arena_eq (agree.arena_inMemory small.isArena).1] at inPage
      have isLarge := large.large
      rw [← inPage, small.isArena.small] at isLarge
      cases isLarge
    · rw [otherLarge.arena_eq (agree.aligned own otherLarge.mem).1] at inPage
      exact different (by rw [start, otherLarge.start, inPage])

theorem Heap.Agree.sound {heap : Heap} (agree : heap.Agree) : heap.Sound where
  inPages := by
    intro block member
    obtain ⟨page, isPage, above, below, -⟩ := agree.live_page member
    exact ⟨page, isPage, above, below⟩
  apart := by
    refine (List.pairwise_map.mp agree.distinct).imp_of_mem ?_
    exact fun member otherMember different => agree.live_apart member otherMember different
  unused := by
    intro idx inside start isFree block member
    obtain ⟨arena, isArena, isBlock⟩ := agree.free idx inside start isFree
    exact agree.apart_of_free isArena isBlock isFree (Nat.le_refl _) member
  nodup := agree.nodup
  counted := agree.count

/-- As long as each size can be rounded up to pages and the allocator grants what is asked for,
the heap is sound after every call of `_malloc` and `free`. -/
theorem heap_sound (descs : Nat → MemBlockDesc) (arenas : Nat → MemArena) (calls : List HeapCall)
    (within : AllGuarded heapCall HeapScope (Heap.start descs arenas) calls)
    (guarded : AllGuarded heapCall HeapGuard (Heap.start descs arenas) calls) :
    AllGood heapCall Heap.Sound (Heap.start descs arenas) calls := by
  have agrees := allGood_of_allGuarded
    (fun {heap call result after} (agree : Heap.Agree heap)
      (allowed : HeapScope heap call ∧ HeapGuard heap call)
      (called : heapCall heap call = some (result, after)) => by
        obtain ⟨_, _, again, _, afterAgree⟩ := right_of_heapGuard agree allowed.1 allowed.2
        cases called.symm.trans again
        exact afterAgree)
    calls (Heap.agree_start descs arenas) (within.and calls guarded)
  exact agrees.mono Heap.Agree.sound calls

def sampleHeap : Heap :=
  .start (fun _ => ⟨0, [], 0⟩) fun _ => ⟨none, 0, false⟩

/-- A block with pages of its own, which is freed, and one of an arena. -/
theorem heap_right_sample :
    AllRight heapCall (fun _ => True) HeapRight sampleHeap
      [.malloc 3000 (some 0x10000), .free 0x1000c, .malloc 100 (some 0x10000)] := by
  have granted : ∀ {heap : Heap} {size : UInt32}, heap.pages = [] →
      heap.state.request size.toNat = some 4096 →
      HeapScope heap (.malloc size (some 0x10000)) := by
    intro heap size noPages request bytes start asks answered
    cases answered
    obtain rfl : 4096 = bytes := Option.some.inj (request.symm.trans asks)
    exact ⟨by decide, by decide, by decide, by simp [noPages]⟩
  have within : AllGuarded heapCall HeapScope sampleHeap
      [.malloc 3000 (some 0x10000), .free 0x1000c, .malloc 100 (some 0x10000)] := by
    apply AllGuarded.cons rfl (granted rfl rfl)
    apply AllGuarded.cons rfl (.inr ⟨_, List.mem_cons_self, rfl⟩)
    exact AllGuarded.cons rfl (granted rfl rfl) trivial
  apply (heap_right_iff _ _ _ within).mpr
  apply AllGuarded.cons rfl ⟨by decide, fun _ => by simp⟩
  apply AllGuarded.cons rfl trivial
  exact AllGuarded.cons rfl ⟨by decide, fun _ => by simp⟩ trivial

theorem heap_sound_sample :
    AllGood heapCall Heap.Sound sampleHeap
      [.malloc 100 (some 0x10000), .free 0x1000c, .malloc 100 none] := by
  apply heap_sound
  · refine AllGuarded.cons rfl ?_ (.cons rfl (.inr ⟨_, List.mem_cons_self, rfl⟩)
      (.cons rfl ?_ trivial))
    · intro bytes start asks answered
      cases answered
      obtain rfl : 4096 = bytes := Option.some.inj asks
      exact ⟨by decide, by decide, by decide, by simp [Heap.start]⟩
    · intro bytes start _ answered
      cases answered
  · refine AllGuarded.cons rfl ⟨by decide, fun _ => by simp⟩ (.cons rfl trivial
      (.cons rfl ⟨by decide, ?_⟩ trivial))
    intro asks
    exact absurd rfl asks

/-- With its header the size wraps to one byte, and a single page is asked for. -/
theorem malloc_wraps :
    ¬ AllRight heapCall (fun _ => True) HeapRight sampleHeap
      [.malloc 0xfffffff5 (some 0x10000)] := by
  rintro ⟨-, result, after, -, right, -⟩
  have covers := (right.large (by decide)).2
  exact absurd covers (by decide)

end CleanOS.Glibc
