import CleanOS.Memory.ProcessMem
import CleanOS.Memory.SameTables

/-!
# The directory of a child, and the copy of a page

What `copy_process_mem` has before its loop, and what one bit of the bitmap does: the page of
the parent is copied to the buffer, the page is mapped for the child, and the buffer is copied
to the frame it was mapped to.
-/

namespace CleanOS.Memory

open CleanOS.Common

variable {mem next last : MemState} {dirs : List Nat} {dir page paddr other idx : Nat}

theorem Tables.translate (tables : Tables mem dirs) (isDir : dir ∈ dirs)
    (user : UserPage mem page) :
    translate mem.words dir (page * memPageSize) = mem.frameAt dir page := by
  rcases user.table_cases isDir with absent | ⟨table, isTable⟩
  · rw [frameAt_absent absent]
    simp only [Memory.translate, pdeIndex_page, absent, Bool.false_eq_true, not_false_eq_true,
      if_true]
  · rw [tables.frameAt isTable]
    simp only [Memory.translate, pdeIndex_page, pteIndex_page, isTable.isPresent,
      not_true_eq_false, if_false, isTable.isTable]
    cases present (mem.words table (page % 1024)) <;> rfl

theorem allocRange_grows (alloc : AddrAlloc) (pageCount : Int) :
    Grows alloc (allocRange alloc pageCount).2 := by
  unfold allocRange
  dsimp only
  split
  next => exact .refl alloc
  next =>
    refine ⟨rfl, rfl, setBits_bytesLen, ?_⟩
    intro idx isSet
    rw [allocMemUse, setBits_bit]
    split
    next => rfl
    next => exact isSet

/-- `alloc_kernel_mem` takes pages of the kernel. -/
structure KernelTaken (mem next : MemState) : Prop where
  words : next.words = mem.words
  userPhy : next.userPhy = mem.userPhy
  grows : Grows mem.kernelVir next.kernelVir

theorem KernelTaken.same (taken : KernelTaken mem next) : SameTables mem next dirs :=
  .take taken.userPhy taken.grows taken.words

theorem allocKernelMem_taken (mem : MemState) (pageCount : Int) :
    KernelTaken mem (allocKernelMem mem pageCount).2 := by
  unfold allocKernelMem
  split
  next => exact ⟨rfl, rfl, .refl _⟩
  next => exact ⟨rfl, rfl, allocRange_grows _ _⟩

/-- `alloc_kernel_mem` of one page, when it gives one: a page that was clear, and that is
apart then. -/
theorem allocKernelMem_one (tables : Tables mem dirs)
    (given : (allocKernelMem mem 1).1 ≠ failed) : ∃ idx next,
      allocKernelMem mem 1 = (mem.kernelVir.addr idx, next) ∧ KernelTaken mem next ∧
      idx ∈ mem.kernelVir.clearPages ∧ KernelPage next (mem.kernelVir.addr idx) ∧
      Apart next dirs (mem.kernelVir.addr idx) := by
  have notLarge : ¬ (1 : Int) > mallocMaxPage := by decide
  have taken := allocKernelMem_taken mem 1
  rcases allocRange_one tables.paged with ⟨idx, inside, clear, allocEq⟩ | ⟨missing, _⟩
  · obtain ⟨next, nextEq, kernelVir⟩ : ∃ next,
        allocKernelMem mem 1 = (mem.kernelVir.addr idx, next) ∧
        next.kernelVir = { mem.kernelVir with bitmap := mem.kernelVir.bitmap.set idx true } := by
      rw [allocKernelMem, if_neg notLarge]
      simp only [allocMemPage, allocVirMem, allocEq]
      exact ⟨_, rfl, rfl⟩
    rw [nextEq] at taken
    have grows := taken.grows
    refine ⟨idx, next, nextEq, taken, AddrAlloc.mem_clearPages.mpr ⟨inside, clear⟩, ?_, ?_⟩
    · refine ⟨idx, grows.pages ▸ inside, ?_, by rw [grows.addr]⟩
      rw [kernelVir]
      exact Bitmap.bit_set_self _ idx true
    · constructor
      · intro isDir
        exact (tables.dirPage _ isDir).ne_clear clear rfl
      · intro dir entry table isTable
        have old := (@KernelTaken.same mem next dirs taken).userTable.mp isTable
        exact (tables.tablePage old).1.ne_clear clear
      · intro other isClear same
        rw [kernelVir, clearPages_set] at isClear
        apply Finset.ne_of_mem_erase isClear
        rw [grows.addr] at same
        simp only [AddrAlloc.addr, memPageSize] at same
        omega
  · refine absurd ?_ given
    rw [allocKernelMem, if_neg notLarge]
    simp only [allocMemPage, allocVirMem, missing]

theorem userTable_cons {entry table : Nat}
    (empty : ∀ entry, mem.userPde ≤ entry → present (mem.words dir entry) = false)
    (isTable : UserTable mem (dir :: dirs) other entry table) :
    UserTable mem dirs other entry table := by
  obtain ⟨isDir, lower, upper, isPresent, isTable⟩ := isTable
  rcases List.mem_cons.mp isDir with rfl | isOld
  · rw [empty entry lower] at isPresent
    cases isPresent
  · exact ⟨isOld, lower, upper, isPresent, isTable⟩

theorem Apart.cons (apart : Apart mem dirs other) (different : other ≠ dir)
    (empty : ∀ entry, mem.userPde ≤ entry → present (mem.words dir entry) = false) :
    Apart mem (dir :: dirs) other where
  notDir := by
    intro isDir
    rcases List.mem_cons.mp isDir with same | isOld
    · exact different same
    · exact apart.notDir isOld
  notTable := fun isTable => apart.notTable (userTable_cons empty isTable)
  notClear := apart.notClear

theorem Tables.cons (tables : Tables mem dirs) (kernel : KernelPage mem dir)
    (apart : Apart mem dirs dir)
    (empty : ∀ entry, mem.userPde ≤ entry → present (mem.words dir entry) = false) :
    Tables mem (dir :: dirs) := by
  have old : ∀ {other entry table}, UserTable mem (dir :: dirs) other entry table →
      UserTable mem dirs other entry table := fun isTable => userTable_cons empty isTable
  constructor
  · exact tables.paged
  · exact tables.positive
  · intro other isDir
    rcases List.mem_cons.mp isDir with rfl | isOld
    · exact kernel
    · exact tables.dirPage other isOld
  · intro other entry table isTable
    obtain ⟨isKernel, notDir⟩ := tables.tablePage (old isTable)
    refine ⟨isKernel, ?_⟩
    intro isDir
    rcases List.mem_cons.mp isDir with rfl | isOld
    · exact apart.notTable (old isTable) rfl
    · exact notDir isOld
  · intro other entry other' entry' table isTable isTable'
    exact tables.own (old isTable) (old isTable')

theorem sharePdes_outside {kernelPageDir pageDir count : Nat} {words : Words}
    (outside : other ≠ pageDir ∨ count ≤ idx) :
    sharePdes kernelPageDir pageDir count words other idx = words other idx := by
  induction count generalizing words with
  | zero => rfl
  | succ count ih =>
      have elsewhere : ¬ (other = pageDir ∧ idx = count) := by
        rintro ⟨rfl, rfl⟩
        rcases outside with different | small
        · exact different rfl
        · omega
      rw [sharePdes, ih (outside.imp_right (by omega))]
      split
      next => rw [setWord, if_neg elsewhere]
      next => rfl

structure DirAdded (mem next : MemState) (dirs : List Nat) (dir : Nat) : Prop where
  tables : Tables next (dir :: dirs)
  isNew : dir ∉ dirs
  userPhy : next.userPhy = mem.userPhy
  grows : Grows mem.kernelVir next.kernelVir
  empty : ∀ entry, mem.userPde ≤ entry → present (next.words dir entry) = false
  frameAt : ∀ other ∈ dirs, ∀ page, UserPage mem page →
    next.frameAt other page = mem.frameAt other page
  apart : ∀ {other}, Apart mem dirs other →
    Apart next (dir :: dirs) other ∧ next.words other = mem.words other

theorem createUvm_spec {kernelPageDir : Nat} (tables : Tables mem dirs)
    (returns : createUvm mem kernelPageDir = some (dir, next)) : DirAdded mem next dirs dir := by
  unfold createUvm at returns
  dsimp only at returns
  split at returns
  next => cases returns
  next given =>
    obtain ⟨idx, taken, allocEq, isTaken, isClear, kernel, isApart⟩ :=
      allocKernelMem_one tables given
    rw [allocEq] at returns
    obtain ⟨isDir, kernelVir, userPhy, words⟩ : dir = mem.kernelVir.addr idx ∧
        next.kernelVir = taken.kernelVir ∧ next.userPhy = taken.userPhy ∧
        next.words = sharePdes kernelPageDir dir (pdeIndex taken.userPhy.start)
          (clearPage taken.words dir) := by
      cases returns
      exact ⟨rfl, rfl, rfl, rfl⟩
    rw [← isDir] at kernel isApart
    have outside : ∀ other, other ≠ dir → next.words other = taken.words other := by
      intro other different
      funext entry
      rw [words, sharePdes_outside (.inl different), clearPage, if_neg different]
    have sameTaken : SameTables mem taken dirs := isTaken.same
    have same : SameTables taken next dirs := by
      apply SameTables.write isApart
      · rw [userPhy]
      · rw [kernelVir]
        exact .refl _
      · exact outside
    have keeps := same.tables (sameTaken.tables tables)
    have empty : ∀ entry, next.userPde ≤ entry → present (next.words dir entry) = false := by
      intro entry lower
      rw [MemState.userPde, userPhy] at lower
      rw [words, sharePdes_outside (.inr lower), clearPage, if_pos rfl]
      rfl
    constructor
    · exact keeps.cons (same.kernelPage kernel) (same.apart isApart) empty
    · exact isApart.notDir
    · exact userPhy.trans isTaken.userPhy
    · rw [kernelVir]
      exact isTaken.grows
    · intro entry lower
      apply empty
      rw [same.userPde, sameTaken.userPde]
      exact lower
    · intro other member page user
      rw [same.frameAt (sameTaken.tables tables) member (sameTaken.userPage user),
        sameTaken.frameAt tables member user]
    · intro other apart
      have different : other ≠ dir := by
        rw [isDir]
        exact (apart.notClear idx isClear).symm
      refine ⟨?_, ?_⟩
      · exact (same.apart (sameTaken.apart apart)).cons different empty
      · rw [outside other different, isTaken.words]

theorem DirAdded.take (added : DirAdded mem next dirs dir) (taken : KernelTaken next last) :
    DirAdded mem last dirs dir := by
  have same : SameTables next last (dir :: dirs) := taken.same
  constructor
  · exact same.tables added.tables
  · exact added.isNew
  · exact taken.userPhy.trans added.userPhy
  · exact added.grows.trans taken.grows
  · intro entry lower
    rw [taken.words]
    exact added.empty entry lower
  · intro other member page user
    rw [same.frameAt added.tables (List.mem_cons_of_mem _ member)
      (user.congr (by rw [added.userPhy]))]
    exact added.frameAt other member page user
  · intro other apart
    obtain ⟨isApart, words⟩ := added.apart apart
    exact ⟨same.apart isApart, by rw [taken.words, words]⟩

theorem beforeCopy_spec {kernelPageDir userAllMemory buff : Nat} {dest : Space}
    (tables : Tables mem dirs)
    (returns : beforeCopy mem kernelPageDir userAllMemory = some (buff, dest, next)) :
    DirAdded mem next dirs dest.pageDir ∧
      dest.vir = initAddrAlloc mem.userPhy.start userAllMemory memPageSize ∧
      Apart next (dest.pageDir :: dirs) buff ∧
      ∃ idx < mem.kernelVir.pages, buff = mem.kernelVir.addr idx := by
  obtain ⟨⟨space, second⟩, initEq, returns⟩ := Option.bind_eq_some_iff.mp returns
  obtain ⟨⟨pageDir, first⟩, createEq, virEq⟩ := Option.bind_eq_some_iff.mp initEq
  obtain ⟨⟨vir, taken⟩, virEq, spaceEq⟩ := Option.bind_eq_some_iff.mp virEq
  cases spaceEq
  have created := createUvm_spec tables createEq
  obtain ⟨isTaken, isVir⟩ : KernelTaken first second ∧
      vir = initAddrAlloc second.userPhy.start userAllMemory memPageSize := by
    unfold initUserVirAddrAlloc at virEq
    dsimp only at virEq
    split at virEq
    next => cases virEq
    next =>
      cases virEq
      exact ⟨allocKernelMem_taken _ _, rfl⟩
  have added := created.take isTaken
  dsimp only at returns
  split at returns
  next => cases returns
  next given =>
    obtain ⟨idx, third, allocEq, isThird, isClear, _, isApart⟩ :=
      allocKernelMem_one added.tables given
    rw [allocEq] at returns
    cases returns
    refine ⟨added.take isThird, ?_, isApart, idx, ?_, ?_⟩
    · rw [isVir, added.userPhy]
    · rw [← added.grows.pages]
      exact (AddrAlloc.mem_clearPages.mp isClear).1
    · rw [added.grows.addr]

theorem anyPresent_one {words : Words} {pageDir vaddr : Nat}
    (free : vaddr2paddr words pageDir vaddr = none) : anyPresent words pageDir vaddr 1 = false := by
  rw [anyPresent, anyPresent, Bool.or_false]
  cases found : getPte words pageDir vaddr with
  | none => rfl
  | some pte =>
      simp only [vaddr2paddr, found] at free
      split at free
      next => cases free
      next absent => exact eq_false_of_ne_true absent

def Space.reserve (space : Space) (idx : Nat) : Space :=
  { space with vir := { space.vir with bitmap := space.vir.bitmap.set idx true } }

@[simp]
theorem Space.reserve_pageDir (space : Space) (idx : Nat) :
    (space.reserve idx).pageDir = space.pageDir := rfl

/-- `malloc_mem_vaddr` of one page that is not mapped takes a frame and maps the page to it. -/
theorem mallocMemVaddr_one {space : Space} (tables : Tables mem dirs)
    (isDir : space.pageDir ∈ dirs) (user : UserPage mem page) (frames : mem.userPhy.Paged)
    (area : space.vir.Paged) (inside : idx < space.vir.pages)
    (isAddr : space.vir.addr idx = page * memPageSize)
    (free : mem.frameAt space.pageDir page = none) (hasFrame : 0 < mem.userPhy.clearPages.card)
    (hasTable : mem.missing space.pageDir (page / 1024) ≤ mem.kernelVir.clearPages.card) :
    ∃ frame next, frame ∈ mem.userPhy.clearPages ∧
      mallocMemVaddr mem space (page * memPageSize) 1 =
        some (page * memPageSize, space.reserve idx, next) ∧
      PageMapped { mem with
        userPhy := { mem.userPhy with bitmap := mem.userPhy.bitmap.set frame true } } next dirs
        space.pageDir page (mem.userPhy.addr frame) := by
  obtain ⟨clear, isClear⟩ := Finset.card_pos.mp hasFrame
  obtain ⟨clearInside, clearBit⟩ := AddrAlloc.mem_clearPages.mp isClear
  obtain ⟨frame, frameInside, frameClear, allocEq⟩ := (allocRange_one frames).resolve_right
    fun full => by
      rw [full.2 clear clearInside] at clearBit
      cases clearBit
  have upper := user.upper
  have pageDown : down2 (page * memPageSize) = page * memPageSize := by
    simp only [down2, memPageSize]
    omega
  have notLarge : ¬ (1 : Int) > mallocMaxPage := by decide
  have oneNat : (1 : Int).toNat = 1 := rfl
  have virEq := @allocMemUse_addr space.vir idx 1 true area inside
  rw [isAddr] at virEq
  obtain ⟨taken, takenEq⟩ : ∃ taken : MemState, taken = { mem with
      userPhy := { mem.userPhy with bitmap := mem.userPhy.bitmap.set frame true } } := ⟨_, rfl⟩
  have takenTables : Tables taken dirs := by
    rw [takenEq]
    exact tables.withUserPhy rfl
  have takenUser : UserPage taken page := user.congr (by rw [takenEq])
  have takenFree : taken.frameAt space.pageDir page = none := by
    rw [takenEq]
    exact free
  obtain ⟨next, maps, mapped⟩ := mapMem_mapped takenTables isDir takenUser
    (frames.addr_aligned frame) takenFree (by rw [takenEq]; exact hasTable)
  refine ⟨frame, next, AddrAlloc.mem_clearPages.mpr ⟨frameInside, frameClear⟩, ?_,
    takenEq ▸ mapped⟩
  simp only [mallocMemVaddr, pageDown, oneNat, anyPresent_one free, Bool.false_eq_true, if_false,
    if_neg notLarge, allocPages, allocPhyMem, allocEq, virEq, ← takenEq, mapMemPage,
    mapMemPageLoop, maps, Option.bind_eq_bind, Option.bind_some]
  rfl

theorem copyWords_ne {words : Words} {target source size : Nat} (different : other ≠ target) :
    copyWords words target source size other = words other := by
  funext word
  rw [copyWords, if_neg fun both => different both.1]

theorem copyWords_copied {words : Words} {target source word : Nat} (inside : word < 1024) :
    copyWords words target source memPageSize target word = words source word :=
  if_pos ⟨rfl, inside⟩

theorem SameTables.copy {target source size : Nat} (apart : Apart mem dirs target)
    (start : next.userPhy.start = mem.userPhy.start) (kernelVir : next.kernelVir = mem.kernelVir)
    (words : next.words = copyWords mem.words target source size) :
    SameTables mem next dirs := by
  apply SameTables.write apart start
  · rw [kernelVir]
    exact .refl _
  · intro other different
    rw [words]
    exact copyWords_ne different

/-- What the loop needs for a page: the parent maps it, the child does not, and there is a frame
and, unless it has one, a table for it. -/
structure CanCopy (dirs : List Nat) (src : Space) (buff idx page parent : Nat)
    (state : CopyState) : Prop where
  tables : Tables state.mem (state.dest.pageDir :: dirs)
  srcDir : src.pageDir ∈ dirs
  cr3 : state.cr3 = src.pageDir
  srcSize : src.vir.pageSize = memPageSize
  srcAddr : src.vir.start + idx * memPageSize = page * memPageSize
  user : UserPage state.mem page
  isParent : state.mem.frameAt src.pageDir page = some parent
  area : state.dest.vir.Paged
  inside : idx < state.dest.vir.pages
  isAddr : state.dest.vir.addr idx = page * memPageSize
  free : state.mem.frameAt state.dest.pageDir page = none
  frames : state.mem.userPhy.Paged
  hasFrame : 0 < state.mem.userPhy.clearPages.card
  hasTable : state.mem.missing state.dest.pageDir (page / 1024) ≤
    state.mem.kernelVir.clearPages.card
  buffer : Apart state.mem (state.dest.pageDir :: dirs) buff
  frameApart : ∀ frame < state.mem.userPhy.pages,
    Apart state.mem (state.dest.pageDir :: dirs) (state.mem.userPhy.addr frame) ∧
      state.mem.userPhy.addr frame ≠ buff

structure PageCopied (dirs : List Nat) (buff idx page parent frame : Nat)
    (state next : CopyState) : Prop where
  dest : next.dest = (state.dest.reserve idx).reserve idx
  tables : Tables next.mem (state.dest.pageDir :: dirs)
  isClear : frame ∈ state.mem.userPhy.clearPages
  userPhy : next.mem.userPhy =
    { state.mem.userPhy with bitmap := state.mem.userPhy.bitmap.set frame true }
  frameAt : ∀ other ∈ state.dest.pageDir :: dirs, ∀ otherPage, UserPage state.mem otherPage →
    next.mem.frameAt other otherPage =
      if other = state.dest.pageDir ∧ otherPage = page then some (state.mem.userPhy.addr frame)
      else state.mem.frameAt other otherPage
  apart : ∀ {other}, Apart state.mem (state.dest.pageDir :: dirs) other →
    Apart next.mem (state.dest.pageDir :: dirs) other
  content : ∀ word < 1024, next.mem.words (state.mem.userPhy.addr frame) word =
    state.mem.words parent word
  words : ∀ {other}, Apart state.mem (state.dest.pageDir :: dirs) other → other ≠ buff →
    other ≠ state.mem.userPhy.addr frame → next.mem.words other = state.mem.words other
  entries : ∀ entry, present (next.mem.words state.dest.pageDir entry) = true ↔
    present (state.mem.words state.dest.pageDir entry) = true ∨ entry = page / 1024
  left : state.mem.kernelVir.clearPages.card ≤
    next.mem.kernelVir.clearPages.card + state.mem.missing state.dest.pageDir (page / 1024)

theorem PageCopied.pageDir {buff parent frame : Nat} {state next : CopyState}
    (isCopied : PageCopied dirs buff idx page parent frame state next) :
    next.dest.pageDir = state.dest.pageDir := by
  rw [isCopied.dest]
  rfl

theorem copyBit_spec {src : Space} {buff parent : Nat} {state : CopyState}
    (can : CanCopy dirs src buff idx page parent state) :
    ∃ next frame, copyBit src buff state idx = some next ∧ next.cr3 = src.pageDir ∧
      PageCopied dirs buff idx page parent frame state next := by
  have upper := can.user.upper
  have vaddr : (src.vir.start + idx * memPageSize) % 2 ^ 32 = page * memPageSize := by
    rw [can.srcAddr]
    simp only [memPageSize]
    omega
  have readPage : translate state.mem.words state.cr3 (page * memPageSize) = some parent := by
    rw [can.cr3, can.tables.translate (List.mem_cons_of_mem _ can.srcDir) can.user]
    exact can.isParent
  -- The page of the parent is in the buffer.
  obtain ⟨read, readEq⟩ : ∃ read : MemState, read = { state.mem with
      words := copyWords state.mem.words buff parent memPageSize } := ⟨_, rfl⟩
  have sameRead : SameTables state.mem read (state.dest.pageDir :: dirs) :=
    .copy can.buffer (by rw [readEq]) (by rw [readEq]) (by rw [readEq])
  have isDir : state.dest.pageDir ∈ state.dest.pageDir :: dirs := List.mem_cons_self
  have readFree : read.frameAt state.dest.pageDir page = none :=
    (sameRead.frameAt can.tables isDir can.user).trans can.free
  have readTable : read.missing state.dest.pageDir (page / 1024) ≤
      read.kernelVir.clearPages.card := by
    rw [MemState.missing, sameRead.sameDir _ isDir, readEq]
    exact can.hasTable
  obtain ⟨frame, mapped, isClear, mapEq, isMapped⟩ := @mallocMemVaddr_one read
    (state.dest.pageDir :: dirs) page idx (state.dest.reserve idx) (sameRead.tables can.tables)
    isDir (sameRead.userPage can.user) (by rw [readEq]; exact can.frames) can.area.set can.inside
    can.isAddr readFree (by rw [readEq]; exact can.hasFrame) readTable
  obtain ⟨taken, takenEq⟩ : ∃ taken : MemState, taken = { read with
      userPhy := { read.userPhy with bitmap := read.userPhy.bitmap.set frame true } } := ⟨_, rfl⟩
  have takenWords : taken.words = copyWords state.mem.words buff parent memPageSize := by
    rw [takenEq, readEq]
  have sameTaken : SameTables state.mem taken (state.dest.pageDir :: dirs) :=
    .copy can.buffer (by rw [takenEq, readEq]) (by rw [takenEq, readEq]) takenWords
  obtain ⟨target, targetEq⟩ : ∃ target, target = state.mem.userPhy.addr frame := ⟨_, rfl⟩
  have isTarget : read.userPhy.addr frame = target := by rw [targetEq, readEq]
  have frames : read.userPhy = state.mem.userPhy := by rw [readEq]
  rw [← takenEq, isTarget, Space.reserve_pageDir] at isMapped
  rw [frames] at isClear
  obtain ⟨targetApart, notBuff⟩ := can.frameApart frame (AddrAlloc.mem_clearPages.mp isClear).1
  rw [← targetEq] at targetApart notBuff
  obtain ⟨mappedTarget, _⟩ := isMapped.apart (sameTaken.apart targetApart)
  have mappedStart : mapped.userPhy.start = state.mem.userPhy.start := by
    rw [isMapped.userPhy, sameTaken.start]
  have writePage : translate mapped.words state.dest.pageDir (page * memPageSize) =
      some target := by
    rw [isMapped.tables.translate isDir (can.user.congr mappedStart),
      isMapped.frameAt _ isDir page (sameTaken.userPage can.user), if_pos ⟨rfl, rfl⟩]
  have notFailed : page * memPageSize ≠ failed := aligned_ne_failed (Nat.mul_mod_left _ _)
  -- The buffer is in the page of the child.
  obtain ⟨written, writtenEq⟩ : ∃ written : MemState, written = { mapped with
      words := copyWords mapped.words target buff memPageSize } := ⟨_, rfl⟩
  have writtenWords : written.words = copyWords mapped.words target buff memPageSize := by
    rw [writtenEq]
  have sameWritten : SameTables mapped written (state.dest.pageDir :: dirs) :=
    .copy mappedTarget (by rw [writtenEq]) (by rw [writtenEq]) writtenWords
  refine ⟨⟨written, src.pageDir, (state.dest.reserve idx).reserve idx⟩, frame, ?_, rfl, ?_⟩
  · have size : ((state.dest.reserve idx).reserve idx).vir.pageSize = memPageSize :=
      can.area.pageSize
    have reserved : { state.dest with vir := { state.dest.vir with
        bitmap := state.dest.vir.bitmap.set idx true } } = state.dest.reserve idx := rfl
    simp only [copyBit, vaddr, readPage, can.srcSize, ← readEq, reserved, mapEq, notFailed,
      if_false, writePage, size, ← writtenEq, Option.bind_eq_bind, Option.bind_some]
  · constructor
    · rfl
    · exact sameWritten.tables isMapped.tables
    · exact isClear
    · rw [writtenEq, isMapped.userPhy, takenEq, readEq]
    · intro other member otherPage user
      rw [sameWritten.frameAt isMapped.tables member (user.congr mappedStart),
        isMapped.frameAt other member otherPage (sameTaken.userPage user), targetEq,
        sameTaken.frameAt can.tables member user]
    · intro other apart
      exact sameWritten.apart (isMapped.apart (sameTaken.apart apart)).1
    · intro word inside
      rw [writtenWords, ← targetEq, copyWords_copied inside,
        (isMapped.apart (sameTaken.apart can.buffer)).2, takenWords]
      exact copyWords_copied inside
    · intro other apart differs notTarget
      rw [writtenWords, copyWords_ne (targetEq ▸ notTarget),
        (isMapped.apart (sameTaken.apart apart)).2, takenWords]
      exact copyWords_ne differs
    · intro entry
      rw [sameWritten.sameDir _ isDir, isMapped.entries, sameTaken.sameDir _ isDir]
    · have left := isMapped.left
      rw [MemState.missing, sameTaken.sameDir _ isDir] at left
      rw [writtenEq]
      rw [takenEq, readEq] at left
      exact left

end CleanOS.Memory
