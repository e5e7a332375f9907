import CleanOS.Lib.StoreLog
import CleanOS.Memory.CopyPage
import CleanOS.Memory.Frames
import CleanOS.Memory.LoadElf

/-!
# Runs of the loader

The loader maps ranges of pages, and its stores go through the mapping of the moment; as no page
is mapped anew, they are a log that is applied through the mapping at the end.
-/

namespace CleanOS.Memory

open CleanOS.Common CleanOS.Lib

/-- The page behind the bitmap's frames that `-1` stands for. -/
abbrev topPage : Nat := 0xfffff000

/-! ### Frames that are taken, as long as there are some -/

section Frames

variable {alloc after : AddrAlloc} {count : Nat} {frames : List Nat}

theorem FramesTaken.card_clearPages (taken : FramesTaken alloc after frames) :
    after.clearPages.card + frames.length = alloc.clearPages.card := by
  have split : alloc.clearPages = after.clearPages ∪ frames.toFinset := by
    ext idx
    simp only [Finset.mem_union, List.mem_toFinset, AddrAlloc.mem_clearPages, taken.bits,
      taken.pages, Bool.or_eq_false_iff, decide_eq_false_iff_not]
    constructor
    · intro clear
      by_cases member : idx ∈ frames
      · exact .inr member
      · exact .inl ⟨clear.1, clear.2, member⟩
    · rintro (left | member)
      · exact ⟨left.1, left.2.1⟩
      · exact taken.clear idx member
  have apart : Disjoint after.clearPages frames.toFinset := by
    rw [Finset.disjoint_left]
    intro idx clear member
    rw [AddrAlloc.mem_clearPages, taken.bits, Bool.or_eq_false_iff] at clear
    exact absurd (List.mem_toFinset.mp member) (of_decide_eq_false clear.2.2)
  rw [split, Finset.card_union_of_disjoint apart, List.toFinset_card_of_nodup taken.nodup]

theorem allocPhyMem_one (paged : alloc.Paged) :
    (∃ frame, frame < alloc.pages ∧ alloc.bitmap.bit frame = false ∧ allocPhyMem alloc 1 =
      (alloc.addr frame, { alloc with bitmap := alloc.bitmap.set frame true })) ∨
    (alloc.clearPages = ∅ ∧ allocPhyMem alloc 1 = (failed, alloc)) := by
  rcases allocRange_one paged with found | ⟨missing, full⟩
  · exact .inl found
  · refine .inr ⟨?_, missing⟩
    apply Finset.eq_empty_of_forall_notMem
    intro idx clear
    obtain ⟨inside, isClear⟩ := AddrAlloc.mem_clearPages.mp clear
    rw [full idx inside] at isClear
    cases isClear

theorem allocPages_keeps (paged : alloc.Paged) : (allocPages alloc count).1.length = count ∧
    (allocPages alloc count).2.Paged ∧ (allocPages alloc count).2.start = alloc.start ∧
    (allocPages alloc count).2.pages = alloc.pages := by
  induction count generalizing alloc with
  | zero => exact ⟨rfl, paged, rfl, rfl⟩
  | succ count ih =>
      rcases allocPhyMem_one paged with ⟨frame, -, -, taken⟩ | ⟨-, missing⟩
      · obtain ⟨length, restPaged, start, pages⟩ := @ih
          { alloc with bitmap := alloc.bitmap.set frame true } paged.set
        simp only [allocPages, taken, List.length_cons, length]
        exact ⟨trivial, restPaged, start, pages⟩
      · obtain ⟨length, restPaged, start, pages⟩ := ih paged
        simp only [allocPages, missing, List.length_cons, length]
        exact ⟨trivial, restPaged, start, pages⟩

theorem allocPages_missing (paged : alloc.Paged) (few : alloc.clearPages.card < count) :
    ∃ k, k < count ∧ (allocPages alloc count).1[k]? = some failed := by
  induction count generalizing alloc with
  | zero => cases few
  | succ count ih =>
      rcases allocPhyMem_one paged with ⟨frame, inside, clear, taken⟩ | ⟨-, missing⟩
      · have left : AddrAlloc.clearPages
            { alloc with bitmap := alloc.bitmap.set frame true } = alloc.clearPages.erase frame := by
          ext other
          rw [Finset.mem_erase, AddrAlloc.mem_clearPages, AddrAlloc.mem_clearPages,
            Bitmap.bit_set]
          by_cases same : other = frame
          · simp [same]
          · simp [same, AddrAlloc.pages]
        have isClear := AddrAlloc.mem_clearPages.mpr ⟨inside, clear⟩
        have card := Finset.card_erase_of_mem isClear
        have positive := Finset.card_pos.mpr ⟨frame, isClear⟩
        obtain ⟨k, small, found⟩ := @ih
          { alloc with bitmap := alloc.bitmap.set frame true } paged.set (by rw [left]; omega)
        refine ⟨k + 1, by omega, ?_⟩
        simp only [allocPages, taken]
        exact found
      · refine ⟨0, by omega, ?_⟩
        simp only [allocPages, missing]
        rfl

end Frames

theorem mapMemPageLoop_down2 {pageDir vaddr : Nat} {override : Bool} {mem : MemState}
    {paddrs : List Nat} : mapMemPageLoop pageDir override mem vaddr paddrs =
      mapMemPageLoop pageDir override mem vaddr (paddrs.map down2) := by
  induction paddrs generalizing mem vaddr with
  | nil => rfl
  | cons paddr paddrs ih =>
      have again : down2 (down2 paddr) = down2 paddr := by
        simp only [down2, memPageSize]
        omega
      simp only [mapMemPageLoop, List.map_cons, mapMem, again, ih]

/-! ### Mapping a range -/

namespace Loading

variable {state next : Loading} {dirs : List Nat}

/-- The shape of the memory, which every run of the loader keeps: the user area and the frames
start behind the kernel area, and the last page of all addresses is no frame. -/
structure Shape (state : Loading) (dirs : List Nat) : Prop where
  tables : Tables state.mem dirs
  isDir : state.space.pageDir ∈ dirs
  frames : state.mem.userPhy.Paged
  area : state.space.vir.Paged
  areaStart : state.space.vir.start = state.mem.userPhy.start
  positive : 0 < state.mem.userPhy.start
  framesEnd : state.mem.userPhy.start + state.mem.userPhy.pages * memPageSize ≤ topPage

def frameAt (state : Loading) (page : Nat) : Option Nat :=
  state.mem.frameAt state.space.pageDir page

/-- Each page is mapped to a frame of its own, which is in use. -/
structure Held (state : Loading) : Prop where
  mapped : ∀ {page paddr}, UserPage state.mem page → state.frameAt page = some paddr →
    ∃ frame, frame < state.mem.userPhy.pages ∧ state.mem.userPhy.bitmap.bit frame = true ∧
      paddr = state.mem.userPhy.addr frame
  single : ∀ {page other paddr}, UserPage state.mem page → UserPage state.mem other →
    state.frameAt page = some paddr → state.frameAt other = some paddr → page = other

def startPage (state : Loading) : Nat :=
  state.space.vir.start / memPageSize

theorem Shape.userPage (shape : state.Shape dirs) {page : Nat} (lower : state.startPage ≤ page)
    (upper : page < 2 ^ 20) : UserPage state.mem page := by
  refine ⟨?_, upper⟩
  have start := shape.areaStart
  simp only [startPage, MemState.userPde, pdeIndex, memPageSize] at *
  omega

theorem Shape.paddr_eq (shape : state.Shape dirs) {vaddr : Nat}
    (user : UserPage state.mem (vaddr / memPageSize)) :
    state.paddr vaddr = (state.frameAt (vaddr / memPageSize)).map (· + vaddr % memPageSize) := by
  have pde : pdeIndex (vaddr / memPageSize * memPageSize) = pdeIndex vaddr := by
    simp only [pdeIndex, memPageSize]
    omega
  have pte : pteIndex (vaddr / memPageSize * memPageSize) = pteIndex vaddr := by
    simp only [pteIndex, memPageSize]
    omega
  have found := shape.tables.translate shape.isDir user
  rw [translate, pde, pte] at found
  rw [paddr, translate, found, frameAt]

/-- A range of pages that were not mapped is mapped, each page to the frame that was taken for
it. -/
structure RangeMapped (state next : Loading) (dirs : List Nat) (page count : Nat) : Prop where
  bytes : next.bytes = state.bytes
  strayed : next.strayed = (state.strayed ||
    decide (0 < count ∧ state.startPage + state.space.vir.pages < page + count))
  pageDir : next.space.pageDir = state.space.pageDir
  area : next.space.vir.Paged
  areaStart : next.space.vir.start = state.space.vir.start
  areaPages : next.space.vir.pages = state.space.vir.pages
  userPhy : next.mem.userPhy = (allocPages state.mem.userPhy count).2
  tables : Tables next.mem dirs
  free : ∀ k, k < count → state.frameAt (page + k) = none
  frameAt : ∀ other, UserPage state.mem other → next.frameAt other =
    if page ≤ other ∧ other < page + count then
      ((allocPages state.mem.userPhy count).1.map down2)[other - page]?
    else state.frameAt other

theorem Shape.start (shape : state.Shape dirs) :
    state.space.vir.start = state.startPage * memPageSize := by
  have aligned := shape.area.aligned
  simp only [startPage, memPageSize] at *
  omega

theorem Shape.pastEnd_eq (shape : state.Shape dirs) {page count : Nat}
    (lower : state.startPage ≤ page) (inside : page * memPageSize < 2 ^ 32) :
    state.space.vir.pastEnd (page * memPageSize) count =
      decide (0 < count ∧ state.startPage + state.space.vir.pages < page + count) := by
  have bitIdx : (page * memPageSize + 2 ^ 32 - state.space.vir.start) % 2 ^ 32 /
      state.space.vir.pageSize = page - state.startPage := by
    have start := shape.start
    rw [shape.area.pageSize, start]
    simp only [memPageSize] at *
    omega
  rw [AddrAlloc.pastEnd, bitIdx, Int.toNat_natCast, decide_eq_decide]
  omega

theorem Shape.mallocMemVaddr_cases (shape : state.Shape dirs) {vaddr count result : Nat}
    {space : Space} {mem : MemState} (lower : state.startPage ≤ vaddr / memPageSize)
    (upper : vaddr / memPageSize + count ≤ 2 ^ 20) (below : vaddr < 2 ^ 32)
    (returns : mallocMemVaddr state.mem state.space vaddr count = some (result, space, mem)) :
    result = failed ∨ (result = vaddr / memPageSize * memPageSize ∧
      RangeMapped state { state with
        mem := mem
        space := space
        strayed := state.strayed || state.space.vir.pastEnd (down2 vaddr) count } dirs
        (vaddr / memPageSize) count) := by
  obtain ⟨page, isPage⟩ : ∃ page, page = vaddr / memPageSize := ⟨_, rfl⟩
  have down : down2 vaddr = page * memPageSize := by
    rw [isPage]
    simp only [down2, memPageSize]
    omega
  have inside : page * memPageSize < 2 ^ 32 := by
    rw [isPage]
    simp only [memPageSize]
    omega
  have again : down2 (page * memPageSize) = page * memPageSize % 2 ^ 32 := by
    rw [down2, Nat.mul_mod_left, Nat.sub_zero, Nat.mod_eq_of_lt inside]
  have start := shape.areaStart
  have aligned := shape.area.aligned
  rw [← isPage] at lower upper ⊢
  rw [mallocMemVaddr, down] at returns
  cases isPresent : anyPresent state.mem.words state.space.pageDir (page * memPageSize)
      (count : Int).toNat with
  | true =>
      rw [isPresent, if_pos rfl] at returns
      cases returns
      exact .inl rfl
  | false =>
      rw [isPresent] at returns
      by_cases large : (count : Int) > mallocMaxPage
      · rw [if_pos large] at returns
        cases returns
        exact .inl rfl
      · simp only [Bool.false_eq_true, if_false, if_neg large, Int.toNat_natCast, mapMemPage,
          again, Option.bind_eq_bind, Option.bind_eq_some_iff, Option.some.injEq,
          Prod.mk.injEq, Prod.exists] at returns
        obtain ⟨_, _, ⟨mapped, loopEq, rfl, rfl⟩, isResult, rfl, rfl⟩ := returns
        rw [mapMemPageLoop_down2] at loopEq
        obtain ⟨length, paged, framesStart, framesPages⟩ :=
          @allocPages_keeps state.mem.userPhy count shape.frames
        have free : ∀ k, k < count → state.frameAt (page + k) = none := by
          intro k small
          rw [Int.toNat_natCast, ← Nat.mod_eq_of_lt inside] at isPresent
          exact System.frameAt_of_anyPresent upper isPresent k small
        obtain ⟨samePhy, mappedTables, frames⟩ := @mapMemPageLoop_spec
          { state.mem with userPhy := (allocPages state.mem.userPhy count).2 } dirs
          state.space.pageDir page _ mapped (shape.tables.withUserPhy framesStart) shape.isDir
          (by
            rw [MemState.userPde, framesStart]
            simp only [startPage, pdeIndex, memPageSize] at *
            omega)
          (by rw [List.length_map, length]; exact upper)
          (by
            intro paddr member
            obtain ⟨frame, -, rfl⟩ := List.mem_map.mp member
            simp only [down2, memPageSize]
            omega)
          (by rw [List.length_map, length]; exact free) loopEq
        rw [List.length_map, length] at frames
        refine .inr ⟨by rw [← isResult, Nat.mod_eq_of_lt inside], rfl, ?_, rfl, ?_, rfl, ?_,
          samePhy, mappedTables, free, ?_⟩
        · change (state.strayed || state.space.vir.pastEnd (down2 vaddr) count) = _
          rw [down, shape.pastEnd_eq lower inside]
        · refine ⟨shape.area.pageSize, aligned, ?_⟩
          simp only [allocMemUse, setBits_bytesLen]
          exact shape.area.below
        · simp only [allocMemUse, AddrAlloc.pages, setBits_bytesLen]
        · intro other user
          have found := frames state.space.pageDir shape.isDir other
            ⟨by rw [MemState.userPde, framesStart]; exact user.lower, user.upper⟩
          simp only [true_and] at found
          exact found

theorem pageCount_bounds {length : Nat} (small : length + memPageSize ≤ 2 ^ 32) :
    length ≤ up2 length memPageSize / memPageSize * memPageSize ∧
      up2 length memPageSize / memPageSize * memPageSize < length + memPageSize := by
  rw [up2]
  simp only [memPageSize] at *
  split <;> omega

theorem Shape.processMmap_cases (shape : state.Shape dirs) {kernelPageDir addr length vaddr : Nat}
    (above : state.space.vir.start ≤ addr) (below : addr + length ≤ 2 ^ 32)
    (inside : addr < 2 ^ 32)
    (returns : state.processMmap kernelPageDir addr length = some (vaddr, next)) :
    vaddr = 0 ∨
      RangeMapped state next dirs (addr / memPageSize) (up2 length memPageSize / memPageSize) := by
  have start := shape.start
  have positive := shape.areaStart ▸ shape.positive
  obtain ⟨count, isCount⟩ : ∃ count, count = up2 length memPageSize / memPageSize := ⟨_, rfl⟩
  have bounds := @pageCount_bounds length (by simp only [memPageSize] at *; omega)
  have countEq : (up2 length memPageSize / memPageSize : Int) = (count : Int) := by
    rw [isCount, Int.natCast_div]
  rw [← isCount] at bounds ⊢
  rw [processMmap, if_pos (by omega), if_pos above, countEq] at returns
  simp only [Option.bind_eq_bind, Option.bind_eq_some_iff, Prod.exists] at returns
  obtain ⟨result, space, mem, mallocEq, returns⟩ := returns
  rcases shape.mallocMemVaddr_cases (by simp only [memPageSize] at *; omega)
    (by simp only [memPageSize] at *; omega) inside mallocEq with refused | ⟨isResult, mapped⟩
  · rw [if_pos refused] at returns
    cases returns
    exact .inl rfl
  · rw [if_neg (isResult ▸ aligned_ne_failed (Nat.mul_mod_left _ _))] at returns
    cases returns
    exact .inr mapped

namespace RangeMapped

variable {page count : Nat}

theorem frames (mapped : RangeMapped state next dirs page count) (shape : state.Shape dirs) :
    next.mem.userPhy.Paged ∧ next.mem.userPhy.start = state.mem.userPhy.start ∧
      next.mem.userPhy.pages = state.mem.userPhy.pages := by
  rw [mapped.userPhy]
  exact (allocPages_keeps shape.frames).2

theorem shape (mapped : RangeMapped state next dirs page count) (shape : state.Shape dirs) :
    next.Shape dirs := by
  obtain ⟨paged, start, pages⟩ := mapped.frames shape
  refine ⟨mapped.tables, mapped.pageDir ▸ shape.isDir, paged, mapped.area, ?_, ?_, ?_⟩
  · rw [mapped.areaStart, start]
    exact shape.areaStart
  · rw [start]
    exact shape.positive
  · rw [start, pages]
    exact shape.framesEnd

theorem userPage_iff (mapped : RangeMapped state next dirs page count) (shape : state.Shape dirs)
    {other : Nat} : UserPage next.mem other ↔ UserPage state.mem other := by
  have pde := userPde_congr (mapped.frames shape).2.1
  constructor
  · exact fun user => ⟨pde ▸ user.lower, user.upper⟩
  · exact fun user => ⟨pde.symm ▸ user.lower, user.upper⟩

theorem keeps (mapped : RangeMapped state next dirs page count) {other target : Nat}
    (user : UserPage state.mem other) (found : state.frameAt other = some target) :
    next.frameAt other = some target := by
  rw [mapped.frameAt other user, if_neg]
  · exact found
  · rintro ⟨lower, upper⟩
    have free := mapped.free (other - page) (by omega)
    rw [Nat.add_sub_cancel' lower, found] at free
    cases free

theorem held (mapped : RangeMapped state next dirs page count) (shape : state.Shape dirs)
    (held : state.Held) (enough : count ≤ state.mem.userPhy.clearPages.card) :
    next.Held ∧ next.mem.userPhy.clearPages.card + count =
      state.mem.userPhy.clearPages.card := by
  obtain ⟨frames, after, allocEq, length, taken⟩ := allocPages_spec shape.frames enough
  have userPhy : next.mem.userPhy = after := by rw [mapped.userPhy, allocEq]
  have addr : after.addr = state.mem.userPhy.addr := by
    funext frame
    rw [AddrAlloc.addr, taken.start]
    rfl
  -- A page of the range has a frame that was clear, and another page one that was in use.
  have cases_frame : ∀ {other paddr}, UserPage state.mem other → next.frameAt other = some paddr →
      (∃ k frame, other = page + k ∧ frames[k]? = some frame ∧
        paddr = state.mem.userPhy.addr frame) ∨ state.frameAt other = some paddr := by
    intro other paddr user found
    rw [mapped.frameAt other user, allocEq] at found
    split at found
    next inside =>
      simp only [List.getElem?_map, Option.map_map, Option.map_eq_some_iff] at found
      obtain ⟨frame, isFrame, rfl⟩ := found
      refine .inl ⟨other - page, frame, by omega, isFrame, ?_⟩
      have aligned := shape.frames.addr_aligned frame
      simp only [Function.comp_apply, down2, aligned, Nat.sub_zero]
    next => exact .inr found
  have apart : ∀ {k frame other : Nat}, frames[k]? = some frame → UserPage state.mem other →
      state.frameAt other ≠ some (state.mem.userPhy.addr frame) := by
    intro k frame other isFrame user found
    obtain ⟨used, -, set, same⟩ := held.mapped user found
    have equal : frame = used := by
      simp only [AddrAlloc.addr, memPageSize] at same
      omega
    have clear := (taken.clear frame (List.mem_of_getElem? isFrame)).2
    rw [equal, set] at clear
    cases clear
  refine ⟨⟨?_, ?_⟩, ?_⟩
  · intro other paddr user found
    rw [mapped.userPage_iff shape] at user
    rw [userPhy, addr, taken.pages]
    rcases cases_frame user found with ⟨k, frame, -, isFrame, rfl⟩ | old
    · have member := List.mem_of_getElem? isFrame
      refine ⟨frame, (taken.clear frame member).1, ?_, rfl⟩
      rw [taken.bits, decide_eq_true member, Bool.or_true]
    · obtain ⟨frame, inside, set, same⟩ := held.mapped user old
      exact ⟨frame, inside, by rw [taken.bits, set, Bool.true_or], same⟩
  · intro first second paddr user user' found found'
    rw [mapped.userPage_iff shape] at user user'
    rcases cases_frame user found with ⟨k, frame, rfl, isFrame, rfl⟩ | old
    · rcases cases_frame user' found' with ⟨k', frame', rfl, isFrame', same⟩ | old'
      · have equal : frame = frame' := by
          simp only [AddrAlloc.addr, memPageSize] at same
          omega
        have bound := (List.getElem?_eq_some_iff.mp isFrame).1
        rw [(List.getElem?_inj bound taken.nodup).mp (isFrame.trans (equal ▸ isFrame'.symm))]
      · exact absurd old' (apart isFrame user')
    · rcases cases_frame user' found' with ⟨k', frame', rfl, isFrame', rfl⟩ | old'
      · exact absurd old (apart isFrame' user)
      · exact held.single user user' old old'
  · rw [userPhy, ← length]
    exact taken.card_clearPages

theorem missing (mapped : RangeMapped state next dirs page count) (shape : state.Shape dirs)
    (lower : state.startPage ≤ page) (upper : page + count ≤ 2 ^ 20)
    (few : state.mem.userPhy.clearPages.card < count) :
    ∃ k, k < count ∧ next.frameAt (page + k) = some topPage := by
  obtain ⟨k, small, isFailed⟩ := allocPages_missing shape.frames few
  refine ⟨k, small, ?_⟩
  rw [mapped.frameAt _ (shape.userPage (by omega) (by omega)), if_pos ⟨by omega, by omega⟩,
    Nat.add_sub_cancel_left, List.getElem?_map, isFailed]
  rfl

end RangeMapped

/-! ### Storing -/

def storeAll : List (Nat × UInt8) → Loading → Option Loading
  | [], state => some state
  | (vaddr, value) :: rest, state => do
      let state ← state.store vaddr value
      storeAll rest state

def place (state : Loading) (vaddr : Nat) : Option Nat :=
  if vaddr < state.space.vir.start then none
  else (state.paddr vaddr).filter fun target => state.InFrames target

def copyLog (file : Nat → UInt8) (phdr : Phdr) : List (Nat × UInt8) :=
  (List.range phdr.pFilesz).map fun j =>
    ((phdr.pVaddr + j) % 2 ^ 32, file ((phdr.pOffset + j) % 2 ^ 32))

def clearLog (phdr : Phdr) : List (Nat × UInt8) :=
  (List.range (phdr.pMemsz - phdr.pFilesz)).map fun k =>
    ((phdr.pPaddr + phdr.pFilesz + k) % 2 ^ 32, 0)

theorem copyLoop_eq {file : Nat → UInt8} {src dest left j : Nat} :
    copyLoop file src dest left j state =
      storeAll ((List.range' j left).map fun j =>
        ((dest + j) % 2 ^ 32, file ((src + j) % 2 ^ 32))) state := by
  induction left generalizing j state with
  | zero => rfl
  | succ left ih => simp only [copyLoop, List.range'_succ, List.map_cons, storeAll, ih]

theorem clearLoop_eq {left dest j : Nat} :
    clearLoop left ((dest + j) % 2 ^ 32) state =
      storeAll ((List.range' j left).map fun k => ((dest + k) % 2 ^ 32, (0 : UInt8))) state := by
  induction left generalizing j state with
  | zero => rfl
  | succ left ih =>
      have following : ((dest + j) % 2 ^ 32 + 1) % 2 ^ 32 = (dest + (j + 1)) % 2 ^ 32 := by omega
      simp only [clearLoop, List.range'_succ, List.map_cons, storeAll, following, ih]

structure Stored (log : List (Nat × UInt8)) (state next : Loading) : Prop where
  mem : next.mem = state.mem
  space : next.space = state.space
  bytes : next.bytes = applyStores state.place log state.bytes
  present : ∀ entry ∈ log, state.space.vir.start ≤ entry.1 → (state.paddr entry.1).isSome
  strayed : next.strayed = true ↔
    state.strayed = true ∨ ∃ entry ∈ log, entry.1 < state.space.vir.start

theorem store_stored {vaddr : Nat} {value : UInt8} (returns : state.store vaddr value = some next) :
    Stored [(vaddr, value)] state next := by
  rw [store] at returns
  split at returns
  next below =>
    cases returns
    refine ⟨rfl, rfl, ?_, ?_, ?_⟩
    · simp only [applyStores, place, if_pos below]
    · intro entry member above
      rw [List.mem_singleton.mp member] at above
      exact absurd below (Nat.not_lt.mpr above)
    · simp [below]
  next above =>
    obtain ⟨target, found, returns⟩ := Option.bind_eq_some_iff.mp returns
    have present : ∀ entry ∈ [(vaddr, value)], state.space.vir.start ≤ entry.1 →
        (state.paddr entry.1).isSome := by
      intro entry member _
      rw [List.mem_singleton.mp member, found]
      rfl
    have nowhere : ¬ ∃ entry ∈ [(vaddr, value)], entry.1 < state.space.vir.start := by
      rintro ⟨entry, member, below⟩
      rw [List.mem_singleton.mp member] at below
      exact above below
    split at returns
    next inFrames =>
      cases returns
      refine ⟨rfl, rfl, ?_, present, .inl, fun either => either.resolve_right nowhere⟩
      simp only [applyStores, place, if_neg above, found, Option.filter_some, inFrames,
        decide_true, if_true]
    next outside =>
      cases returns
      refine ⟨rfl, rfl, ?_, present, .inl, fun either => either.resolve_right nowhere⟩
      simp only [applyStores, place, if_neg above, found, Option.filter_some, outside,
        decide_false, Bool.false_eq_true, if_false]

theorem Stored.append {log rest : List (Nat × UInt8)} {last : Loading}
    (first : Stored log state next) (second : Stored rest next last) :
    Stored (log ++ rest) state last := by
  have paddr : next.paddr = state.paddr := by
    funext vaddr
    rw [Loading.paddr, first.mem, first.space]
    rfl
  have place : next.place = state.place := by
    funext vaddr
    rw [Loading.place, paddr, first.space]
    simp only [InFrames, first.mem]
    rfl
  refine ⟨second.mem.trans first.mem, second.space.trans first.space, ?_, ?_, ?_⟩
  · rw [second.bytes, first.bytes, place, applyStores_append]
  · intro entry member above
    rcases List.mem_append.mp member with early | late
    · exact first.present entry early above
    · have present := second.present entry late
      rw [first.space, paddr] at present
      exact present above
  · rw [second.strayed, first.strayed, first.space]
    constructor
    · rintro ((already | ⟨entry, member, below⟩) | ⟨entry, member, below⟩)
      · exact .inl already
      · exact .inr ⟨entry, List.mem_append_left _ member, below⟩
      · exact .inr ⟨entry, List.mem_append_right _ member, below⟩
    · rintro (already | ⟨entry, member, below⟩)
      · exact .inl (.inl already)
      · rcases List.mem_append.mp member with early | late
        · exact .inl (.inr ⟨entry, early, below⟩)
        · exact .inr ⟨entry, late, below⟩

theorem storeAll_stored {log : List (Nat × UInt8)} (returns : storeAll log state = some next) :
    Stored log state next := by
  induction log generalizing state with
  | nil =>
      cases returns
      refine ⟨rfl, rfl, rfl, ?_, by simp⟩
      intro entry member
      cases member
  | cons first rest ih =>
      obtain ⟨vaddr, value⟩ := first
      obtain ⟨mid, storeEq, returns⟩ := Option.bind_eq_some_iff.mp returns
      exact (store_stored storeEq).append (ih returns)

/-! ### Runs of the loader -/

/-- The loop of `load_elf` over the segments. -/
def loadSegments (kernelPageDir : Nat) (file : Nat → UInt8) :
    List Phdr → Loading → Option (Bool × Loading)
  | [], state => some (true, state)
  | phdr :: rest, state => do
      let (vaddr, state) ← state.processMmap kernelPageDir phdr.pVaddr phdr.pMemsz
      if vaddr = 0 then some (false, state)
      else do
        let state ← storeAll (copyLog file phdr) state
        let state ← storeAll (clearLog phdr) state
        loadSegments kernelPageDir file rest state

theorem elfHalf_lt (file : Nat → UInt8) (offset : Nat) : elfHalf file offset < 2 ^ 16 := by
  have low := UInt8.toNat_lt (file (offset % 2 ^ 32))
  have high := UInt8.toNat_lt (file ((offset + 1) % 2 ^ 32))
  rw [elfHalf]
  omega

theorem elfWord_lt (file : Nat → UInt8) (offset : Nat) : elfWord file offset < 2 ^ 32 := by
  have low := elfHalf_lt file offset
  have high := elfHalf_lt file (offset + 2)
  rw [elfWord]
  omega

theorem copyLoop_segment {file : Nat → UInt8} {phdr : Phdr} :
    copyLoop file phdr.pOffset phdr.pVaddr phdr.pFilesz 0 state =
      storeAll (copyLog file phdr) state := by
  rw [copyLoop_eq, copyLog, List.range_eq_range']

theorem clearLoop_segment {phdr : Phdr} (filesz : phdr.pFilesz ≤ phdr.pMemsz)
    (memsz : phdr.pMemsz < 2 ^ 32) :
    clearLoop ((phdr.pMemsz + 2 ^ 32 - phdr.pFilesz) % 2 ^ 32)
      ((phdr.pPaddr + phdr.pFilesz) % 2 ^ 32) state = storeAll (clearLog phdr) state := by
  have count : (phdr.pMemsz + 2 ^ 32 - phdr.pFilesz) % 2 ^ 32 =
      phdr.pMemsz - phdr.pFilesz := by omega
  have loop := @clearLoop_eq state (phdr.pMemsz - phdr.pFilesz) (phdr.pPaddr + phdr.pFilesz) 0
  rw [Nat.add_zero] at loop
  rw [count, loop, clearLog, List.range_eq_range']

theorem loadPhdrs_eq {kernelPageDir left i : Nat} {file : Nat → UInt8}
    (filesz : ∀ phdr ∈ ((List.range' i left).map (readPhdr file)).filter
      (fun phdr => phdr.pType = ptLoad), phdr.pFilesz ≤ phdr.pMemsz) :
    loadPhdrs kernelPageDir file left i state =
      loadSegments kernelPageDir file (((List.range' i left).map (readPhdr file)).filter
        fun phdr => phdr.pType = ptLoad) state := by
  induction left generalizing i state with
  | zero => rfl
  | succ left ih =>
      rw [List.range'_succ, List.map_cons] at filesz ⊢
      by_cases isLoad : (readPhdr file i).pType = ptLoad
      · rw [List.filter_cons_of_pos (by simpa using isLoad)] at filesz ⊢
        have clear := fun state => @clearLoop_segment state (readPhdr file i)
          (filesz _ List.mem_cons_self) (elfWord_lt file _)
        have later := fun state => @ih state (i + 1)
          (fun phdr member => filesz phdr (List.mem_cons_of_mem _ member))
        rw [loadPhdrs, loadSegments]
        simp only [ne_eq, isLoad, not_true_eq_false, if_false, copyLoop_segment, clear, later]
      · rw [List.filter_cons_of_neg (by simpa using isLoad)] at filesz ⊢
        rw [loadPhdrs]
        simp only [ne_eq, isLoad, not_false_eq_true, if_true]
        exact ih filesz

def segmentsLog (file : Nat → UInt8) (segs : List Phdr) : List (Nat × UInt8) :=
  segs.flatMap fun phdr => copyLog file phdr ++ clearLog phdr

structure Loaded (file : Nat → UInt8) (segs : List Phdr) (dirs : List Nat)
    (state next : Loading) : Prop where
  shape : next.Shape dirs
  startPage : next.space.vir.start = state.space.vir.start
  areaPages : next.space.vir.pages = state.space.vir.pages
  user : ∀ {page}, UserPage state.mem page → UserPage next.mem page
  keeps : ∀ {page target}, UserPage state.mem page → state.frameAt page = some target →
    next.frameAt page = some target
  framesStart : next.mem.userPhy.start = state.mem.userPhy.start
  framesPages : next.mem.userPhy.pages = state.mem.userPhy.pages
  bytes : next.bytes = applyStores next.place (segmentsLog file segs) state.bytes
  present : ∀ entry ∈ segmentsLog file segs, state.space.vir.start ≤ entry.1 →
    (next.paddr entry.1).isSome
  strayed : next.strayed = true ↔ state.strayed = true ∨
    (∃ phdr ∈ segs, 0 < phdr.pageCount ∧ state.startPage + state.space.vir.pages <
      phdr.pVaddr / memPageSize + phdr.pageCount) ∨
    ∃ entry ∈ segmentsLog file segs, entry.1 < state.space.vir.start
  held : state.Held → (segs.map Phdr.pageCount).sum ≤ state.mem.userPhy.clearPages.card →
    next.Held ∧ next.mem.userPhy.clearPages.card + (segs.map Phdr.pageCount).sum =
      state.mem.userPhy.clearPages.card
  missing : state.Held → state.mem.userPhy.clearPages.card < (segs.map Phdr.pageCount).sum →
    ∃ phdr ∈ segs, ∃ k, k < phdr.pageCount ∧
      UserPage next.mem (phdr.pVaddr / memPageSize + k) ∧
      next.frameAt (phdr.pVaddr / memPageSize + k) = some topPage

theorem segmentsLog_lt {file : Nat → UInt8} {segs : List Phdr} :
    ∀ entry ∈ segmentsLog file segs, entry.1 < 2 ^ 32 := by
  intro entry member
  obtain ⟨phdr, -, member⟩ := List.mem_flatMap.mp member
  rcases List.mem_append.mp member with copied | cleared
  · obtain ⟨j, -, rfl⟩ := List.mem_map.mp copied
    exact Nat.mod_lt _ (by decide)
  · obtain ⟨k, -, rfl⟩ := List.mem_map.mp cleared
    exact Nat.mod_lt _ (by decide)

namespace Loaded

variable {file : Nat → UInt8} {segs rest : List Phdr} {mid : Loading}

theorem paddr (loaded : Loaded file segs dirs state next) (shape : state.Shape dirs) {vaddr : Nat}
    (above : state.space.vir.start ≤ vaddr) (below : vaddr < 2 ^ 32)
    (present : (state.paddr vaddr).isSome) : next.paddr vaddr = state.paddr vaddr := by
  have user : UserPage state.mem (vaddr / memPageSize) := by
    apply shape.userPage
    · exact Nat.div_le_div_right above
    · simp only [memPageSize]
      omega
  rw [shape.paddr_eq user, Option.isSome_map, Option.isSome_iff_exists] at present
  obtain ⟨target, found⟩ := present
  rw [loaded.shape.paddr_eq (loaded.user user), shape.paddr_eq user, loaded.keeps user found,
    found]

theorem place (loaded : Loaded file segs dirs state next) (shape : state.Shape dirs) {vaddr : Nat}
    (below : vaddr < 2 ^ 32)
    (present : state.space.vir.start ≤ vaddr → (state.paddr vaddr).isSome) :
    next.place vaddr = state.place vaddr := by
  rw [Loading.place, Loading.place, loaded.startPage]
  split
  next => rfl
  next above =>
    have user := Nat.not_lt.mp above
    rw [loaded.paddr shape user below (present user)]
    refine congrArg (Option.filter · _) (funext fun target => decide_eq_decide.mpr ?_)
    rw [InFrames, loaded.framesStart, loaded.framesPages]
    rfl

theorem append (first : Loaded file segs dirs state mid)
    (second : Loaded file rest dirs mid next) : Loaded file (segs ++ rest) dirs state next := by
  have log : segmentsLog file (segs ++ rest) = segmentsLog file segs ++ segmentsLog file rest :=
    List.flatMap_append
  have startPage : mid.startPage = state.startPage := by
    rw [Loading.startPage, first.startPage]
    rfl
  refine ⟨second.shape, second.startPage.trans first.startPage,
    second.areaPages.trans first.areaPages, fun user => second.user (first.user user),
    fun user found => second.keeps (first.user user) (first.keeps user found),
    second.framesStart.trans first.framesStart, second.framesPages.trans first.framesPages,
    ?_, ?_, ?_, ?_, ?_⟩
  · rw [log, applyStores_append, second.bytes, first.bytes]
    congr 1
    apply applyStores_congr
    intro entry member
    refine (second.place first.shape (segmentsLog_lt entry member) ?_).symm
    rw [first.startPage]
    exact first.present entry member
  · intro entry member above
    rw [log] at member
    rcases List.mem_append.mp member with early | late
    · have present := first.present entry early above
      rwa [second.paddr first.shape (first.startPage.symm ▸ above)
        (segmentsLog_lt entry early) present]
    · exact second.present entry late (first.startPage.symm ▸ above)
  · rw [second.strayed, first.strayed, log, startPage, first.startPage, first.areaPages]
    simp only [List.mem_append, or_and_right, exists_or]
    grind
  · intro held enough
    rw [List.map_append, List.sum_append] at enough ⊢
    obtain ⟨midHeld, midLeft⟩ := first.held held (by omega)
    obtain ⟨nextHeld, nextLeft⟩ := second.held midHeld (by omega)
    exact ⟨nextHeld, by omega⟩
  · intro held few
    rw [List.map_append, List.sum_append] at few
    by_cases enough : (segs.map Phdr.pageCount).sum ≤ state.mem.userPhy.clearPages.card
    · obtain ⟨midHeld, midLeft⟩ := first.held held enough
      obtain ⟨phdr, member, found⟩ := second.missing midHeld (by omega)
      exact ⟨phdr, List.mem_append_right _ member, found⟩
    · obtain ⟨phdr, member, k, small, user, found⟩ := first.missing held (by omega)
      exact ⟨phdr, List.mem_append_left _ member, k, small, second.user user,
        second.keeps user found⟩

end Loaded

theorem Loaded.nil {file : Nat → UInt8} (shape : state.Shape dirs) :
    Loaded file [] dirs state state where
  shape := shape
  startPage := rfl
  areaPages := rfl
  user := id
  keeps := fun _ found => found
  framesStart := rfl
  framesPages := rfl
  bytes := rfl
  present := fun _ member => nomatch member
  strayed := by simp [segmentsLog]
  held := fun held _ => ⟨held, rfl⟩
  missing := fun _ few => nomatch few

theorem RangeMapped.loaded {file : Nat → UInt8} {phdr : Phdr} {mid : Loading}
    (mapped : RangeMapped state mid dirs (phdr.pVaddr / memPageSize) phdr.pageCount)
    (shape : state.Shape dirs) (above : state.space.vir.start ≤ phdr.pVaddr)
    (upper : phdr.pVaddr / memPageSize + phdr.pageCount ≤ 2 ^ 20)
    (stored : Stored (copyLog file phdr ++ clearLog phdr) mid next) :
    Loaded file [phdr] dirs state next := by
  obtain ⟨paged, framesStart, framesPages⟩ := mapped.frames shape
  have log : segmentsLog file [phdr] = copyLog file phdr ++ clearLog phdr := List.flatMap_singleton ..
  have lower : state.startPage ≤ phdr.pVaddr / memPageSize := Nat.div_le_div_right above
  obtain ⟨mem, space, bytes, strayed⟩ := next
  obtain rfl : mem = mid.mem := stored.mem
  obtain rfl : space = mid.space := stored.space
  have midShape := mapped.shape shape
  refine ⟨⟨midShape.tables, midShape.isDir, midShape.frames, midShape.area, midShape.areaStart,
    midShape.positive, midShape.framesEnd⟩, mapped.areaStart, mapped.areaPages,
    (mapped.userPage_iff shape).mpr, mapped.keeps, framesStart, framesPages, ?_, ?_, ?_, ?_, ?_⟩
  · rw [log, ← mapped.bytes]
    exact stored.bytes
  · intro entry member userEntry
    rw [log] at member
    exact stored.present entry member (mapped.areaStart ▸ userEntry)
  · rw [stored.strayed, mapped.strayed, mapped.areaStart, log, Bool.or_eq_true, decide_eq_true_eq,
      or_assoc]
    simp only [List.mem_singleton, exists_eq_left]
  · intro held enough
    rw [List.map_singleton, List.sum_singleton] at enough ⊢
    obtain ⟨midHeld, left⟩ := mapped.held shape held enough
    exact ⟨⟨midHeld.mapped, midHeld.single⟩, left⟩
  · intro held few
    rw [List.map_singleton, List.sum_singleton] at few
    obtain ⟨k, small, found⟩ := mapped.missing shape lower upper few
    refine ⟨phdr, List.mem_cons_self, k, small, ?_, found⟩
    exact (mapped.userPage_iff shape).mpr (shape.userPage (by omega) (by omega))

structure Above (state : Loading) (phdr : Phdr) : Prop where
  start : state.space.vir.start ≤ phdr.pVaddr
  inside : phdr.pVaddr < 2 ^ 32
  stop : phdr.pVaddr + phdr.pMemsz ≤ 2 ^ 32

theorem Shape.pageCount_bounds (shape : state.Shape dirs) {phdr : Phdr} (above : state.Above phdr) :
    phdr.pMemsz ≤ phdr.pageCount * memPageSize ∧
      phdr.pageCount * memPageSize < phdr.pMemsz + memPageSize := by
  have start := shape.start
  have positive := shape.areaStart ▸ shape.positive
  have lower := above.start
  have stop := above.stop
  apply Loading.pageCount_bounds
  simp only [memPageSize] at *
  omega

theorem loadSegments_loaded {kernelPageDir : Nat} {file : Nat → UInt8} {segs : List Phdr}
    (shape : state.Shape dirs) (above : ∀ phdr ∈ segs, state.Above phdr)
    (returns : loadSegments kernelPageDir file segs state = some (true, next)) :
    Loaded file segs dirs state next := by
  induction segs generalizing state with
  | nil =>
      cases returns
      exact .nil shape
  | cons phdr rest ih =>
      have first := above phdr List.mem_cons_self
      have bounds := shape.pageCount_bounds first
      have stop := first.stop
      simp only [loadSegments, Option.bind_eq_bind, Option.bind_eq_some_iff, Prod.exists] at returns
      obtain ⟨vaddr, mapped, mmapEq, returns⟩ := returns
      by_cases refused : vaddr = 0
      · rw [if_pos refused] at returns
        cases returns
      · rw [if_neg refused] at returns
        obtain ⟨copied, copyEq, returns⟩ := Option.bind_eq_some_iff.mp returns
        obtain ⟨cleared, clearEq, returns⟩ := Option.bind_eq_some_iff.mp returns
        have range := (shape.processMmap_cases first.start first.stop first.inside
          mmapEq).resolve_left refused
        have stored := (storeAll_stored copyEq).append (storeAll_stored clearEq)
        have one : Loaded file [phdr] dirs state cleared := by
          refine range.loaded shape first.start ?_ stored
          simp only [memPageSize] at *
          omega
        refine one.append (ih one.shape ?_ returns)
        intro other member
        have later := above other (List.mem_cons_of_mem _ member)
        exact ⟨one.startPage ▸ later.start, later.inside, later.stop⟩

end Loading

end CleanOS.Memory
