import CleanOS.Memory.Mapping
import CleanOS.Memory.ProcessMem

/-!
# The kernel's own mapping

`init_paging` of `kernel/memory/paging.c`.  The memory of the kernel is mapped one to one:
below the fourth megabyte by the entries of one table, and from there on by entries of the
directory for four megabytes each, which have no table.
-/

namespace CleanOS.Memory

open CleanOS.Common

/-- `MEM_EXT_START`. -/
abbrev memExtStart : Nat := 0x300000

/-- `EBDA_START`. -/
abbrev ebdaStart : Nat := 0x80000

/-- `MB(4)`. -/
abbrev mb4 : Nat := 0x400000

/-- `PDE_P | PDE_PS`. -/
abbrev bigPde : Nat := 0x81

/-- What the linker script and the code place in the kernel: the start of its memory, its
code and its data, and `kernel_page_dir`. -/
structure KernelImage where
  kernelBase : Nat
  sText : Nat
  eText : Nat
  sData : Nat
  pageDir : Nat

/-- `mem_map`. -/
structure MemMap where
  vstart : Nat
  vend : Nat
  pstart : Nat
  perm : Nat

/-- `up2`. -/
def up2 (origin bound : Nat) : Nat :=
  if origin % bound = 0 then origin else (origin - origin % bound + bound) % 2 ^ 32

/-- The loop of `create_big_mem_map`. -/
def bigMapLoop (pageDir perm : Nat) : Words → Nat → Nat → Nat → Words
  | words, _, _, 0 => words
  | words, vaddr, paddr, count + 1 =>
      bigMapLoop pageDir perm (setWord words pageDir (pdeIndex vaddr) (paddr ||| bigPde ||| perm))
        ((vaddr + mb4) % 2 ^ 32) ((paddr + mb4) % 2 ^ 32) count

/-- `create_big_mem_map`. -/
def createBigMemMap (pageDir : Nat) (mem : MemState) (vaddr size paddr perm : Nat) :
    Option MemState :=
  let bigMap (mem : MemState) (vaddr size paddr : Nat) : MemState :=
    { mem with words := bigMapLoop pageDir perm mem.words vaddr paddr (up2 size mb4 / mb4) }
  let offset := vaddr % mb4
  if offset > 0 then do
    let handleSize := mb4 - offset
    let (err, mem) ← createMemMap pageDir perm mem vaddr paddr (handleSize / memPageSize)
    if err ≠ 0 then some mem
    else some (bigMap mem ((vaddr + handleSize) % 2 ^ 32) ((size + 2 ^ 32 - handleSize) % 2 ^ 32)
      ((paddr + handleSize) % 2 ^ 32))
  else some (bigMap mem vaddr size paddr)

/-- `kernel_map`. -/
def kernelMap (image : KernelImage) (kernelAllMemory : Nat) : List MemMap :=
  [⟨image.kernelBase, image.sText, 0, 6⟩,
    ⟨image.sText, image.eText, image.sText, 2⟩,
    ⟨image.sData, ebdaStart - 1, image.sData, 2⟩,
    ⟨ebdaStart, memExtStart - 1, ebdaStart, 2⟩,
    ⟨memExtStart, kernelAllMemory - 1, memExtStart, 2⟩]

/-- The loop of `init_paging` over `kernel_map`, which ignores errors. -/
def mapKernel (pageDir kernelAllMemory : Nat) : List MemMap → MemState → Option MemState
  | [], mem => some mem
  | kmap :: rest, mem => do
      let mem ←
        if memExtStart ≤ kmap.vstart ∧ kmap.vend ≤ kernelAllMemory - 1 then
          createBigMemMap pageDir mem kmap.vstart (kmap.vend - kmap.vstart + 1) kmap.pstart
            kmap.perm
        else
          let vstart := down2 kmap.vstart
          let pCount := (up2 kmap.vend memPageSize + 2 ^ 32 - vstart) % 2 ^ 32 / memPageSize
          (createMemMap pageDir kmap.perm mem vstart kmap.pstart pCount).map Prod.snd
      mapKernel pageDir kernelAllMemory rest mem

/-- `kernel_all_memory`. -/
def kernelAllMemory (allMem : Nat) : Nat :=
  min (allMem / 4) (2 ^ 30)

/-- The number of pages of kernel memory, from `MEM_EXT_START` on. -/
def kernelPages (allMem : Nat) : Nat :=
  (kernelAllMemory allMem - memExtStart) / memPageSize

def kernelPool (allMem : Nat) : AddrAlloc :=
  initAddrAlloc memExtStart (down2 (kernelAllMemory allMem - memExtStart)) memPageSize

/-- `init_paging`, for more than three megabytes of kernel memory. -/
def initPaging (image : KernelImage) (allMem : Nat) (words : Words) : Option MemState :=
  let userAllMemory := allMem - kernelAllMemory allMem
  mapKernel image.pageDir (kernelAllMemory allMem) (kernelMap image (kernelAllMemory allMem))
    { kernelPhy := kernelPool allMem
      kernelVir := kernelPool allMem
      userPhy := initAddrAlloc (kernelAllMemory allMem) (userAllMemory % 2 ^ 32) memPageSize
      words := clearPage words image.pageDir }

/-- The kernel's code and data lie below its pages, in this order. -/
structure KernelImage.Placed (image : KernelImage) : Prop where
  base : image.kernelBase ≤ image.sText
  text : image.sText ≤ image.eText
  code : image.eText < memExtStart
  data : image.sData < ebdaStart
  dir : 0 < image.pageDir
  dirBelow : image.pageDir < memExtStart

/-- The kernel's mapping: the entries of the table and of the directory for the pages from
`MEM_EXT_START` on.  The processor may set other flags in them. -/
structure KernelMapped (pageDir pages : Nat) (words : Words) : Prop where
  dir : pageDir ≠ 0
  table : present (words pageDir 0) = true ∧ words pageDir 0 / 2 ^ 7 % 2 = 0 ∧
    pePhyAddr (words pageDir 0) = memExtStart
  small : ∀ page, 768 ≤ page → page < 1024 →
    present (words memExtStart page) = true ∧
      pePhyAddr (words memExtStart page) = page * memPageSize
  big : ∀ entry, 1 ≤ entry → entry * 1024 < 768 + pages →
    present (words pageDir entry) = true ∧ words pageDir entry / 2 ^ 7 % 2 = 1 ∧
      pePhyAddr (words pageDir entry) = entry * mb4

section Entries

variable {mem : MemState} {dir table perm page paddr count entry : Nat} {words : Words}

theorem bigMapLoop_words (inside : entry + count ≤ 1024) :
    ∀ other idx, bigMapLoop dir perm words (entry * mb4 % 2 ^ 32) (entry * mb4 % 2 ^ 32) count
        other idx =
      if other = dir ∧ entry ≤ idx ∧ idx < entry + count then idx * mb4 ||| bigPde ||| perm
      else words other idx := by
  induction count generalizing entry words with
  | zero =>
      intro other idx
      rw [if_neg (by omega)]
      rfl
  | succ count ih =>
      intro other idx
      have addr : entry * mb4 % 2 ^ 32 = entry * mb4 := by
        simp only [mb4]
        omega
      have place : pdeIndex (entry * mb4) = entry := by
        simp only [pdeIndex, mb4]
        omega
      have next : (entry * mb4 + mb4) % 2 ^ 32 = (entry + 1) * mb4 % 2 ^ 32 := by
        rw [Nat.add_mul, Nat.one_mul]
      rw [bigMapLoop, addr, next, place, ih (by omega), setWord]
      by_cases isDir : other = dir
      · by_cases first : idx = entry
        · subst first
          rw [if_neg (by omega), if_pos ⟨isDir, rfl⟩, if_pos (by omega)]
        · by_cases later : entry + 1 ≤ idx ∧ idx < entry + 1 + count
          · rw [if_pos ⟨isDir, later⟩, if_pos (by omega)]
          · rw [if_neg (by omega), if_neg (by omega), if_neg (by omega)]
      · have notDir {condition : Prop} : ¬ (other = dir ∧ condition) := fun both => isDir both.1
        rw [if_neg notDir, if_neg notDir, if_neg notDir]

theorem createMemMap_table (isPresent : present (mem.words dir (page / 1024)) = true)
    (isTable : pePhyAddr (mem.words dir (page / 1024)) = table) (apart : table ≠ dir)
    (inTable : page % 1024 + count ≤ 1024) (inMemory : page + count < 2 ^ 20)
    (below : paddr + count * memPageSize < 2 ^ 32) :
    ∃ err words, createMemMap dir perm mem (page * memPageSize) paddr count =
        some (err, { mem with words := words }) ∧
      (∀ other idx, ¬ (other = table ∧ page % 1024 ≤ idx ∧ idx < page % 1024 + count) →
        words other idx = mem.words other idx) ∧
      ((∀ k, k < count → present (mem.words table (page % 1024 + k)) = false) → err = 0 ∧
        ∀ k, k < count →
          words table (page % 1024 + k) = paddr + k * memPageSize ||| perm ||| 1) := by
  induction count generalizing mem page paddr with
  | zero =>
      exact ⟨0, mem.words, rfl, fun _ _ _ => rfl, fun _ => ⟨rfl, fun k small => by omega⟩⟩
  | succ count ih =>
      have findEq : findPteAlloc mem dir (page * memPageSize) =
          some ((table, page % 1024), mem) := by
        simp only [findPteAlloc, pdeIndex_page, pteIndex_page, isPresent, if_true, isTable]
      by_cases taken : present (mem.words table (page % 1024)) = true
      · refine ⟨-1, mem.words, ?_, fun _ _ _ => rfl, fun absent => ?_⟩
        · simp only [createMemMap, findEq, Option.bind_eq_bind, Option.bind_some, taken, if_true]
        · have first := absent 0 (Nat.succ_pos _)
          rw [Nat.add_zero, taken] at first
          cases first
      · obtain ⟨next, nextEq⟩ : ∃ next, setWord mem.words table (page % 1024)
            (paddr ||| perm ||| 1) = next := ⟨_, rfl⟩
        have written (other idx : Nat) : next other idx =
            if other = table ∧ idx = page % 1024 then paddr ||| perm ||| 1
            else mem.words other idx := by
          rw [← nextEq]
          rfl
        have dirSame (idx : Nat) : next dir idx = mem.words dir idx := by
          rw [written, if_neg (fun both => apart both.1.symm)]
        have vaddrEq : (page * memPageSize + memPageSize) % 2 ^ 32 = (page + 1) * memPageSize := by
          simp only [memPageSize]
          omega
        have paddrEq : (paddr + memPageSize) % 2 ^ 32 = paddr + memPageSize := by
          simp only [memPageSize] at below ⊢
          omega
        have ranEq (words : Words) (err : Int)
            (rest : createMemMap dir perm { mem with words := next } ((page + 1) * memPageSize)
              (paddr + memPageSize) count = some (err, { mem with words := words })) :
            createMemMap dir perm mem (page * memPageSize) paddr (count + 1) =
              some (err, { mem with words := words }) := by
          rw [createMemMap]
          simp only [findEq, Option.bind_eq_bind, Option.bind_some, taken, Bool.false_eq_true,
            if_false, nextEq, vaddrEq, paddrEq, rest]
        rcases Nat.eq_zero_or_pos count with rfl | positive
        · refine ⟨0, next, ranEq next 0 rfl, ?_, ?_⟩
          · intro other idx elsewhere
            rw [written, if_neg (by omega)]
          · intro absent
            refine ⟨rfl, fun k small => ?_⟩
            obtain rfl : k = 0 := by omega
            rw [written, if_pos ⟨rfl, rfl⟩, Nat.zero_mul, Nat.add_zero]
        · have samePde : (page + 1) / 1024 = page / 1024 := by omega
          have nextOffset : (page + 1) % 1024 = page % 1024 + 1 := by omega
          have nextPresent : present (next dir ((page + 1) / 1024)) = true := by
            rw [samePde, dirSame]
            exact isPresent
          have nextTable : pePhyAddr (next dir ((page + 1) / 1024)) = table := by
            rw [samePde, dirSame]
            exact isTable
          obtain ⟨err, words, restEq, frame, mapped⟩ := @ih { mem with words := next } (page + 1)
            (paddr + memPageSize) nextPresent nextTable (by omega) (by omega) (by
              simp only [memPageSize] at below ⊢
              omega)
          rw [nextOffset] at frame mapped
          refine ⟨err, words, ranEq words err restEq, ?_, ?_⟩
          · intro other idx elsewhere
            rw [frame other idx (by omega)]
            exact (written other idx).trans (if_neg (by omega))
          · intro absent
            obtain ⟨isOk, values⟩ := mapped fun k small => by
              have same := absent (k + 1) (by omega)
              rw [← Nat.add_assoc, Nat.add_right_comm] at same
              exact (congrArg present ((written _ _).trans (if_neg (by omega)))).trans same
            refine ⟨isOk, fun k small => ?_⟩
            cases k with
            | zero =>
                rw [frame _ _ (by omega), Nat.zero_mul, Nat.add_zero, Nat.add_zero]
                exact (written _ _).trans (if_pos ⟨rfl, rfl⟩)
            | succ k =>
                have value := values k (by omega)
                rw [Nat.add_right_comm, Nat.add_assoc] at value
                rw [value, Nat.add_mul, Nat.one_mul, Nat.add_assoc, Nat.add_comm memPageSize]

/-- A page whose table is there after `find_pte_alloc` is mapped as if it had been there
before. -/
theorem createMemMap_found {found : MemState} {vaddr : Nat} {pte : Nat × Nat}
    (first : findPteAlloc mem dir vaddr = some (pte, found))
    (again : findPteAlloc found dir vaddr = some (pte, found)) :
    createMemMap dir perm mem vaddr paddr (count + 1) =
      createMemMap dir perm found vaddr paddr (count + 1) := by
  simp only [createMemMap, first, again]

end Entries

def AddrAlloc.firstTaken (alloc : AddrAlloc) : AddrAlloc :=
  { alloc with bitmap := alloc.bitmap.set 0 true }

theorem AddrAlloc.firstTaken_pages {alloc : AddrAlloc} : alloc.firstTaken.pages = alloc.pages :=
  rfl

theorem AddrAlloc.Paged.firstTaken {alloc : AddrAlloc} (paged : alloc.Paged) :
    alloc.firstTaken.Paged :=
  paged.set

/-- The directory has one table, the first page of kernel memory, and the second half of
this table is empty from `MEM_EXT_START` on. -/
structure LowMapped (dir : Nat) (start mem : MemState) : Prop where
  kernelPhy : mem.kernelPhy = start.kernelPhy.firstTaken
  kernelVir : mem.kernelVir = start.kernelVir.firstTaken
  userPhy : mem.userPhy = start.userPhy
  table : mem.words dir 0 = memExtStart + 7
  dirRest : ∀ idx, idx ≠ 0 → mem.words dir idx = 0
  tableRest : ∀ idx, 768 ≤ idx → mem.words memExtStart idx = 0

structure Unmapped (dir : Nat) (start : MemState) : Prop where
  pool : start.kernelPhy = start.kernelVir
  paged : start.kernelVir.Paged
  first : start.kernelVir.start = memExtStart
  nonempty : 0 < start.kernelVir.pages
  clear : ∀ idx, idx < start.kernelVir.pages → start.kernelVir.bitmap.bit idx = false
  empty : ∀ idx, start.words dir idx = 0
  below : dir < memExtStart

section Low

variable {start mem : MemState} {dir perm page paddr count : Nat}

theorem allocRange_first {alloc : AddrAlloc} (paged : alloc.Paged) (nonempty : 0 < alloc.pages)
    (clear : ∀ idx, idx < alloc.pages → alloc.bitmap.bit idx = false) :
    allocRange alloc 1 = (alloc.start, alloc.firstTaken) := by
  have found : alloc.bitmap.scan (1 : Int).toNat = (0 : Nat) := by
    apply alloc.bitmap.scan_first Nat.zero_lt_one (fun other less => by omega)
    · rw [Nat.zero_add]
      exact nonempty
    · intro idx _ upper
      exact clear idx (Nat.lt_of_lt_of_le upper (by omega))
  have taken := allocRange_found paged Int.zero_lt_one (by decide) found (by
    have one : (1 : Int).toNat = 1 := rfl
    omega)
  rw [taken, AddrAlloc.addr, Nat.zero_mul, Nat.add_zero]
  rfl

theorem LowMapped.mapped (low : LowMapped dir start mem) (below : dir < memExtStart)
    (inside : page + count ≤ 768) (fits : paddr + count * memPageSize < 2 ^ 32) :
    ∃ err after, createMemMap dir perm mem (page * memPageSize) paddr count =
        some (err, after) ∧ LowMapped dir start after := by
  have tableAligned : memExtStart % memPageSize = 0 := by decide
  have entry : page / 1024 = 0 := by omega
  have apart : memExtStart ≠ dir := by omega
  obtain ⟨err, words, mapEq, frame, -⟩ := @createMemMap_table mem dir memExtStart perm page paddr
    count (by rw [entry, low.table]; exact present_flags tableAligned (by decide))
    (by rw [entry, low.table]; exact pePhyAddr_flags tableAligned (by decide)) apart (by omega)
    (by omega) fits
  refine ⟨err, _, mapEq, low.kernelPhy, low.kernelVir, low.userPhy, ?_, ?_, ?_⟩
  · exact (frame dir 0 fun both => apart both.1.symm).trans low.table
  · intro idx nonzero
    exact (frame dir idx fun both => apart both.1.symm).trans (low.dirRest idx nonzero)
  · intro idx upper
    exact (frame memExtStart idx (by omega)).trans (low.tableRest idx upper)

/-- The first page below `MEM_EXT_START` takes the first page of kernel memory as a table. -/
theorem Unmapped.firstTable (unmapped : Unmapped dir start) (low : page < 768) :
    ∃ found, LowMapped dir start found ∧
      findPteAlloc start dir (page * memPageSize) = some ((memExtStart, page), found) ∧
      findPteAlloc found dir (page * memPageSize) = some ((memExtStart, page), found) := by
  have tableAligned : memExtStart % memPageSize = 0 := by decide
  have entry : page / 1024 = 0 := by omega
  have offset : page % 1024 = page := by omega
  have apart : dir ≠ memExtStart := by
    have := unmapped.below
    omega
  have allocEq := allocRange_first unmapped.paged unmapped.nonempty unmapped.clear
  have allocPhy := unmapped.pool ▸ allocEq
  have notLarge : ¬ (1 : Int) > mallocMaxPage := by decide
  have notFailed : memExtStart ≠ failed := by decide
  have oneNat : (1 : Int).toNat = 1 := rfl
  have value : memExtStart ||| 7 = memExtStart + 7 := or_flags tableAligned (by decide)
  have isAbsent : present 0 = false := by decide
  obtain ⟨found, foundEq⟩ : ∃ found : MemState, found =
      { kernelPhy := start.kernelPhy.firstTaken
        kernelVir := start.kernelVir.firstTaken
        userPhy := start.userPhy
        words := clearPage (setWord start.words dir 0 (memExtStart + 7)) memExtStart } := ⟨_, rfl⟩
  have dirWord (idx : Nat) : found.words dir idx = if idx = 0 then memExtStart + 7 else 0 := by
    simp only [foundEq, clearPage, if_neg apart, setWord, true_and, unmapped.empty]
  have isLow : LowMapped dir start found := by
    refine ⟨by rw [foundEq], by rw [foundEq], by rw [foundEq], ?_, ?_, ?_⟩
    · rw [dirWord, if_pos rfl]
    · intro idx nonzero
      rw [dirWord, if_neg nonzero]
    · intro idx _
      simp only [foundEq, clearPage, if_true]
  refine ⟨found, isLow, ?_, ?_⟩
  · simp only [findPteAlloc, pdeIndex_page, pteIndex_page, entry, offset, unmapped.empty,
      isAbsent, Bool.false_eq_true, if_false, allocKernelMem, if_neg notLarge, allocMemPage,
      allocVirMem, allocEq, allocPhyMem, allocPages, allocPhy, unmapped.first, oneNat,
      if_neg notFailed, value, foundEq]
  · have isPresent : present (memExtStart + 7) = true := present_flags tableAligned (by decide)
    simp only [findPteAlloc, pdeIndex_page, pteIndex_page, entry, offset, isLow.table,
      isPresent, if_true, pePhyAddr_flags tableAligned (by decide : 7 < 4096)]

theorem Unmapped.mapped (unmapped : Unmapped dir start)
    (either : mem = start ∨ LowMapped dir start mem) (inside : page + count ≤ 768)
    (fits : paddr + count * memPageSize < 2 ^ 32) :
    ∃ err after, createMemMap dir perm mem (page * memPageSize) paddr count =
        some (err, after) ∧ (after = start ∨ LowMapped dir start after) ∧
      (0 < count → LowMapped dir start after) := by
  rcases either with rfl | low
  · cases count with
    | zero => exact ⟨0, mem, rfl, .inl rfl, fun positive => by omega⟩
    | succ count =>
        obtain ⟨found, isLow, first, again⟩ := unmapped.firstTable (show page < 768 by omega)
        obtain ⟨err, after, mapEq, afterLow⟩ := @LowMapped.mapped _ _ _ perm _ _ _ isLow
          unmapped.below inside fits
        exact ⟨err, after, (createMemMap_found first again).trans mapEq, .inr afterLow,
          fun _ => afterLow⟩
  · obtain ⟨err, after, mapEq, afterLow⟩ := @LowMapped.mapped _ _ _ perm _ _ _ low unmapped.below
      inside fits
    exact ⟨err, after, mapEq, .inr afterLow, fun _ => afterLow⟩

theorem lowRange {vstart vend : Nat} (ordered : vstart ≤ vend) (below : vend < memExtStart) :
    ∃ page count, down2 vstart = page * memPageSize ∧
      (up2 vend memPageSize + 2 ^ 32 - down2 vstart) % 2 ^ 32 / memPageSize = count ∧
      page + count ≤ 768 ∧ (vend % memPageSize ≠ 0 → 0 < count) := by
  simp only [memExtStart] at below
  refine ⟨vstart / memPageSize, _, ?_, rfl, ?_, ?_⟩
  · simp only [down2, memPageSize]
    omega
  · simp only [down2, up2, memPageSize]
    split <;> omega
  · intro inPage
    simp only [memPageSize] at inPage
    simp only [down2, up2, memPageSize, if_neg inPage]
    omega

theorem Unmapped.mapKernel_cons {kernelAll : Nat} {kmap : MemMap} {rest : List MemMap}
    (unmapped : Unmapped dir start) (either : mem = start ∨ LowMapped dir start mem)
    (ordered : kmap.vstart ≤ kmap.vend) (below : kmap.vend < memExtStart)
    (fits : kmap.pstart < memExtStart) :
    ∃ after, mapKernel dir kernelAll (kmap :: rest) mem = mapKernel dir kernelAll rest after ∧
      (after = start ∨ LowMapped dir start after) ∧
      (kmap.vend % memPageSize ≠ 0 → LowMapped dir start after) := by
  obtain ⟨page, count, first, isCount, inside, positive⟩ := lowRange ordered below
  obtain ⟨err, after, mapEq, afterEither, isLow⟩ := @Unmapped.mapped start mem dir kmap.perm page
    kmap.pstart count unmapped either inside (by
      simp only [memPageSize, memExtStart] at fits ⊢
      omega)
  have notBig : ¬ (memExtStart ≤ kmap.vstart ∧ kmap.vend ≤ kernelAll - 1) := by omega
  refine ⟨after, ?_, afterEither, fun inPage => isLow (positive inPage)⟩
  simp only [mapKernel, if_neg notBig, isCount]
  rw [first, mapEq]
  rfl

theorem LowMapped.mapKernel_last {kernelAll : Nat} (low : LowMapped dir start mem)
    (isDir : 0 < dir) (below : dir < memExtStart) (large : memExtStart + memPageSize ≤ kernelAll)
    (small : kernelAll ≤ 2 ^ 30) :
    ∃ words, mapKernel dir kernelAll [⟨memExtStart, kernelAll - 1, memExtStart, 2⟩] mem =
        some { mem with words := words } ∧
      KernelMapped dir ((kernelAll - memExtStart) / memPageSize) words := by
  have tableAligned : memExtStart % memPageSize = 0 := by decide
  have apart : memExtStart ≠ dir := by omega
  have isPresent : present (mem.words dir (768 / 1024)) = true :=
    (congrArg present low.table).trans (present_flags tableAligned (by decide))
  have isTable : pePhyAddr (mem.words dir (768 / 1024)) = memExtStart :=
    (congrArg pePhyAddr low.table).trans (pePhyAddr_flags tableAligned (by decide))
  obtain ⟨err, words, mapEq, frame, mapped⟩ := @createMemMap_table mem dir memExtStart 2 768
    memExtStart 256 isPresent isTable apart (by decide) (by decide) (by decide)
  obtain ⟨rfl, entries⟩ := mapped fun k _ => by
    rw [low.tableRest _ (by omega)]
    rfl
  obtain ⟨size, sizeEq⟩ : ∃ size, (kernelAll - 1 - memExtStart + 1 + 2 ^ 32 - (mb4 - 3145728)) %
    2 ^ 32 = size := ⟨_, rfl⟩
  have count : 1 + up2 size mb4 / mb4 ≤ 1024 ∧ kernelAll ≤ (1 + up2 size mb4 / mb4) * mb4 := by
    simp only [memPageSize, memExtStart] at large
    simp only [up2, mb4, memExtStart] at sizeEq ⊢
    split <;> omega
  have big := @bigMapLoop_words dir 2 (up2 size mb4 / mb4) 1 words count.1
  have run : createBigMemMap dir mem memExtStart (kernelAll - 1 - memExtStart + 1) memExtStart 2 =
      some { mem with words := bigMapLoop dir 2 words mb4 mb4 (up2 size mb4 / mb4) } := by
    have offset : memExtStart % mb4 = 3145728 := by decide
    have page : memExtStart = 768 * memPageSize := by decide
    have pages : (mb4 - 3145728) / memPageSize = 256 := by decide
    have next : (memExtStart + (mb4 - 3145728)) % 2 ^ 32 = mb4 := by decide
    have positive : 3145728 > 0 := by decide
    have isOk : ¬ (0 : Int) ≠ 0 := by decide
    simp only [createBigMemMap, offset, if_pos positive, pages]
    rw [← page] at mapEq
    simp only [mapEq, Option.bind_eq_bind, Option.bind_some, if_neg isOk, next, sizeEq]
  refine ⟨bigMapLoop dir 2 words mb4 mb4 (up2 size mb4 / mb4), ?_, ?_⟩
  · have isBig : memExtStart ≤ memExtStart ∧ kernelAll - 1 ≤ kernelAll - 1 :=
      ⟨Nat.le_refl _, Nat.le_refl _⟩
    simp only [mapKernel, if_pos isBig, run, Option.bind_eq_bind, Option.bind_some]
  · have first : 1 * mb4 % 2 ^ 32 = mb4 := by decide
    have dirEntry : words dir 0 = memExtStart + 7 :=
      (frame dir 0 fun both => apart both.1.symm).trans low.table
    rw [first] at big
    constructor
    · exact isDir.ne'
    · rw [big, if_neg (by omega), dirEntry]
      exact ⟨present_flags tableAligned (by decide), by decide,
        pePhyAddr_flags tableAligned (by decide)⟩
    · intro page lower upper
      have position : 768 % 1024 + (page - 768) = page := by omega
      have addr : memExtStart + (page - 768) * memPageSize = page * memPageSize := by
        simp only [memExtStart, memPageSize]
        omega
      have aligned : page * memPageSize % memPageSize = 0 := Nat.mul_mod_left _ _
      have flags : page * memPageSize ||| 2 ||| 1 = page * memPageSize + 3 := by
        rw [Nat.or_assoc]
        exact or_flags aligned (by decide)
      have entry := entries (page - 768) (by omega)
      rw [position, addr, flags] at entry
      rw [big, if_neg fun both => apart both.1, entry]
      exact ⟨present_flags aligned (by decide), pePhyAddr_flags aligned (by decide)⟩
    · intro entry lower upper
      have inside : entry < 1 + up2 size mb4 / mb4 := by
        simp only [memExtStart, memPageSize, mb4] at large upper count ⊢
        omega
      have aligned : entry * mb4 % memPageSize = 0 :=
        Nat.mod_eq_zero_of_dvd (Dvd.dvd.mul_left (by decide) entry)
      have flags : entry * mb4 ||| bigPde ||| 2 = entry * mb4 + 131 := by
        have small : bigPde ||| 2 = 131 := by decide
        rw [Nat.or_assoc, small]
        exact or_flags aligned (by decide)
      have isBig : (entry * mb4 + 131) / 2 ^ 7 % 2 = 1 := by
        simp only [mb4]
        omega
      rw [big, if_pos ⟨rfl, lower, inside⟩, flags]
      refine ⟨?_, isBig, ?_⟩
      · apply present_flags aligned
        decide
      · apply pePhyAddr_flags aligned
        decide

theorem kernelPool_paged (allMem : Nat) : (kernelPool allMem).Paged where
  pageSize := rfl
  aligned := (by decide : memExtStart % memPageSize = 0)
  below := by
    have small : kernelAllMemory allMem ≤ 2 ^ 30 := Nat.min_le_right _ _
    simp only [kernelPool, initAddrAlloc, Bitmap.init, down2, memExtStart, memPageSize]
    omega

theorem kernelPages_le (allMem : Nat) : kernelPages allMem ≤ (kernelPool allMem).pages := by
  simp only [kernelPages, kernelPool, initAddrAlloc, AddrAlloc.pages, Bitmap.init, down2,
    memPageSize]
  omega

theorem initPaging_spec {image : KernelImage} {allMem : Nat} {words : Words}
    (placed : image.Placed) (large : memExtStart + memPageSize ≤ kernelAllMemory allMem) :
    ∃ mem, initPaging image allMem words = some mem ∧
      mem.kernelVir = (kernelPool allMem).firstTaken ∧
      mem.kernelPhy = (kernelPool allMem).firstTaken ∧
      mem.userPhy.start = kernelAllMemory allMem ∧
      KernelMapped image.pageDir (kernelPages allMem) mem.words := by
  obtain ⟨base, text, code, data, dir, dirBelow⟩ := placed
  obtain ⟨start, startEq⟩ : ∃ start : MemState, start =
    { kernelPhy := kernelPool allMem
      kernelVir := kernelPool allMem
      userPhy := initAddrAlloc (kernelAllMemory allMem)
        ((allMem - kernelAllMemory allMem) % 2 ^ 32) memPageSize
      words := clearPage words image.pageDir } := ⟨_, rfl⟩
  have some : 0 < kernelPages allMem := by
    simp only [kernelPages, memExtStart, memPageSize] at large ⊢
    omega
  have unmapped : Unmapped image.pageDir start := by
    subst startEq
    refine ⟨rfl, kernelPool_paged allMem, rfl, Nat.lt_of_lt_of_le some (kernelPages_le allMem), ?_,
      ?_, dirBelow⟩
    · intro idx inside
      exact Bitmap.bit_init _ inside
    · intro idx
      exact if_pos rfl
  have baseBelow : image.sText < memExtStart := by omega
  have textStart : 0 < memExtStart := by decide
  have dataEnd : image.sData ≤ ebdaStart - 1 := Nat.le_sub_one_of_lt data
  have dataBelow : ebdaStart - 1 < memExtStart := by decide
  have dataStart : image.sData < memExtStart := Nat.lt_of_le_of_lt dataEnd dataBelow
  have dataInPage : (ebdaStart - 1) % memPageSize ≠ 0 := by decide
  have ebdaEnd : ebdaStart ≤ memExtStart - 1 := by decide
  have ebdaBelow : memExtStart - 1 < memExtStart := by decide
  have ebdaFits : ebdaStart < memExtStart := by decide
  obtain ⟨first, firstEq, firstEither, -⟩ := @Unmapped.mapKernel_cons start start image.pageDir
    (kernelAllMemory allMem) ⟨image.kernelBase, image.sText, 0, 6⟩ (kernelMap image
      (kernelAllMemory allMem)).tail unmapped (.inl rfl) base baseBelow textStart
  obtain ⟨second, secondEq, secondEither, -⟩ := @Unmapped.mapKernel_cons start first image.pageDir
    (kernelAllMemory allMem) ⟨image.sText, image.eText, image.sText, 2⟩ (kernelMap image
      (kernelAllMemory allMem)).tail.tail unmapped firstEither text code baseBelow
  obtain ⟨third, thirdEq, -, thirdLow⟩ := @Unmapped.mapKernel_cons start second image.pageDir
    (kernelAllMemory allMem) ⟨image.sData, ebdaStart - 1, image.sData, 2⟩ (kernelMap image
      (kernelAllMemory allMem)).tail.tail.tail unmapped secondEither dataEnd dataBelow dataStart
  obtain ⟨last, lastEq, -, lastLow⟩ := @Unmapped.mapKernel_cons start third image.pageDir
    (kernelAllMemory allMem) ⟨ebdaStart, memExtStart - 1, ebdaStart, 2⟩ (kernelMap image
      (kernelAllMemory allMem)).tail.tail.tail.tail unmapped (.inr (thirdLow dataInPage)) ebdaEnd
      ebdaBelow ebdaFits
  have low := lastLow (by decide)
  obtain ⟨final, finalEq, mapped⟩ := low.mapKernel_last dir dirBelow large (Nat.min_le_right _ _)
  refine ⟨{ last with words := final }, ?_, ?_, ?_, ?_, mapped⟩
  · rw [initPaging, ← startEq]
    exact firstEq.trans (secondEq.trans (thirdEq.trans (lastEq.trans finalEq)))
  · rw [low.kernelVir, startEq]
  · rw [low.kernelPhy, startEq]
  · rw [low.userPhy, startEq]
    rfl

end Low

section UserPhy

variable {mem next : MemState} {dir vaddr paddr perm count pages : Nat}

theorem allocKernelMem_userPhy {pageCount : Int} :
    (allocKernelMem mem pageCount).2.userPhy = mem.userPhy := by
  rw [allocKernelMem]
  split <;> rfl

theorem findPteAlloc_userPhy {pte : Nat × Nat}
    (returns : findPteAlloc mem dir vaddr = some (pte, next)) : next.userPhy = mem.userPhy := by
  simp only [findPteAlloc] at returns
  split at returns
  · cases returns
    rfl
  · split at returns
    · cases returns
    · cases returns
      exact allocKernelMem_userPhy

theorem createMemMap_userPhy {err : Int}
    (returns : createMemMap dir perm mem vaddr paddr count = some (err, next)) :
    next.userPhy = mem.userPhy := by
  induction count generalizing mem vaddr paddr with
  | zero =>
      cases returns
      rfl
  | succ count ih =>
      obtain ⟨⟨⟨table, idx⟩, found⟩, findEq, later⟩ := Option.bind_eq_some_iff.mp returns
      have same := findPteAlloc_userPhy findEq
      simp only at later
      split at later
      · cases later
        exact same
      · exact (ih later).trans same

theorem createBigMemMap_userPhy {size : Nat}
    (returns : createBigMemMap dir mem vaddr size paddr perm = some next) :
    next.userPhy = mem.userPhy := by
  simp only [createBigMemMap] at returns
  split at returns
  · obtain ⟨⟨err, mapped⟩, mapEq, later⟩ := Option.bind_eq_some_iff.mp returns
    have same := createMemMap_userPhy mapEq
    simp only at later
    split at later
    · cases later
      exact same
    · cases later
      exact same
  · cases returns
    rfl

theorem mapKernel_userPhy {kernelAll : Nat} {maps : List MemMap}
    (returns : mapKernel dir kernelAll maps mem = some next) : next.userPhy = mem.userPhy := by
  induction maps generalizing mem with
  | nil =>
      cases returns
      rfl
  | cons kmap maps ih =>
      rw [mapKernel] at returns
      split at returns
      · obtain ⟨mid, mapEq, later⟩ := Option.bind_eq_some_iff.mp returns
        exact (ih later).trans (createBigMemMap_userPhy mapEq)
      · obtain ⟨mid, mapEq, later⟩ := Option.bind_eq_some_iff.mp returns
        obtain ⟨⟨err, mapped⟩, createEq, rfl⟩ := Option.map_eq_some_iff.mp mapEq
        exact (ih later).trans (createMemMap_userPhy createEq)

theorem initPaging_userPhy {image : KernelImage} {allMem : Nat} {words : Words}
    (returns : initPaging image allMem words = some mem) :
    mem.userPhy = initAddrAlloc (kernelAllMemory allMem)
      ((allMem - kernelAllMemory allMem) % 2 ^ 32) memPageSize :=
  mapKernel_userPhy returns

end UserPhy

end CleanOS.Memory
