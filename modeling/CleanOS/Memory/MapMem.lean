import CleanOS.Memory.Directory

/-!
# Mapping ranges

`map_mem` and `unmap_mem` of `kernel/memory/paging.c` on any directory.  A range is mapped
page by page, up to the first page that is mapped already; `override` only says which of two
tests finds that page.
-/

namespace CleanOS.Memory

open CleanOS.Common

/-- The page `i` pages behind another one.  Pages wrap around at the end of memory. -/
def pageBehind (page i : Nat) : Nat :=
  (page + i) % 2 ^ 20

def ahead (page other : Nat) : Nat :=
  (other + 2 ^ 20 - page) % 2 ^ 20

def MemState.missingTables (mem : MemState) (dir page count : Nat) : Finset Nat :=
  (Finset.range 1024).filter fun entry =>
    present (mem.words dir entry) = false ∧ ∃ i < count, pageBehind page i / 1024 = entry

structure MapsPages (mem next : MemState) (dir page paddr done : Nat) : Prop where
  directory : Directory next dir
  pageAt : ∀ other < 2 ^ 20, next.pageAt dir other =
    if ahead page other < done then some ((paddr + ahead page other * memPageSize) % 2 ^ 32)
    else mem.pageAt dir other
  bigAt : ∀ other, next.BigAt dir other ↔ mem.BigAt dir other

section Ranges

variable {mem next : MemState} {dir page paddr permit count done i other : Nat} {override : Bool}

theorem pageBehind_lt : pageBehind page i < 2 ^ 20 :=
  Nat.mod_lt _ (by decide)

theorem pageBehind_zero (inside : page < 2 ^ 20) : pageBehind page 0 = page :=
  Nat.mod_eq_of_lt inside

theorem pageBehind_next : pageBehind (pageBehind page 1) i = pageBehind page (i + 1) := by
  simp only [pageBehind]
  omega

theorem pageBehind_addr :
    (page * memPageSize + memPageSize) % 2 ^ 32 = pageBehind page 1 * memPageSize := by
  simp only [pageBehind, memPageSize]
  omega

theorem ahead_self (inside : page < 2 ^ 20) :
    ahead page page = 0 ∧ ahead (pageBehind page 1) page = 2 ^ 20 - 1 := by
  simp only [ahead, pageBehind]
  omega

theorem ahead_next (inside : page < 2 ^ 20) (otherInside : other < 2 ^ 20)
    (different : other ≠ page) : ahead page other = ahead (pageBehind page 1) other + 1 := by
  simp only [ahead, pageBehind]
  omega

theorem ahead_pageBehind (inside : page < 2 ^ 20) (isInside : i < 2 ^ 20) :
    ahead page (pageBehind page i) = i := by
  simp only [ahead, pageBehind]
  omega

theorem pageBehind_ahead (inside : page < 2 ^ 20) (otherInside : other < 2 ^ 20) :
    pageBehind page (ahead page other) = other := by
  simp only [ahead, pageBehind]
  omega

theorem mem_missingTables_first (inside : page < 2 ^ 20)
    (absent : present (mem.words dir (page / 1024)) = false) :
    page / 1024 ∈ mem.missingTables dir page (count + 1) := by
  rw [MemState.missingTables, Finset.mem_filter, Finset.mem_range]
  refine ⟨by omega, absent, 0, by omega, ?_⟩
  rw [pageBehind_zero inside]

theorem PageAdded.enough (added : PageAdded mem next dir page paddr) (inside : page < 2 ^ 20)
    (enough : (mem.missingTables dir page (count + 1)).card ≤ mem.kernelVir.clearPages.card) :
    (next.missingTables dir (pageBehind page 1) count).card ≤ next.kernelVir.clearPages.card := by
  have fewer : next.missingTables dir (pageBehind page 1) count ⊆
      (mem.missingTables dir page (count + 1)).erase (page / 1024) := by
    intro entry member
    obtain ⟨upper, absent, i, isInside, isEntry⟩ := by
      simpa only [MemState.missingTables, Finset.mem_filter, Finset.mem_range] using member
    have wasAbsent : present (mem.words dir entry) = false ∧ entry ≠ page / 1024 := by
      rw [← Bool.not_eq_true, added.entries entry, not_or, Bool.not_eq_true] at absent
      exact absent
    rw [Finset.mem_erase, MemState.missingTables, Finset.mem_filter, Finset.mem_range]
    rw [pageBehind_next] at isEntry
    exact ⟨wasAbsent.2, upper, wasAbsent.1, i + 1, by omega, isEntry⟩
  have left := added.left
  have atMost := Finset.card_le_card fewer
  cases isPresent : present (mem.words dir (page / 1024)) with
  | true =>
      rw [MemState.missing, if_pos isPresent] at left
      have erased : ((mem.missingTables dir page (count + 1)).erase (page / 1024)).card ≤
          (mem.missingTables dir page (count + 1)).card := Finset.card_erase_le
      omega
  | false =>
      rw [MemState.missing, isPresent, if_neg Bool.false_ne_true] at left
      have oneLess := Finset.card_erase_add_one
        (@mem_missingTables_first _ _ _ count inside isPresent)
      omega

theorem missing_le (inside : page < 2 ^ 20)
    (enough : (mem.missingTables dir page (count + 1)).card ≤ mem.kernelVir.clearPages.card) :
    mem.missing dir (page / 1024) ≤ mem.kernelVir.clearPages.card := by
  cases isPresent : present (mem.words dir (page / 1024)) with
  | true =>
      rw [MemState.missing, if_pos isPresent]
      exact Nat.zero_le _
  | false =>
      rw [MemState.missing, isPresent, if_neg Bool.false_ne_true]
      exact Nat.le_trans (Finset.card_pos.mpr ⟨_, mem_missingTables_first inside isPresent⟩) enough

theorem Directory.loop_mapped (directory : Directory mem dir) (inside : page < 2 ^ 20)
    (small : ¬ mem.BigAt dir page) (mapped : mem.pageAt dir page ≠ none) :
    mapMemWithLoop dir permit override mem (page * memPageSize) paddr (count + 1) =
      some (false, mem) := by
  have found : (vaddr2paddr mem.words dir (page * memPageSize)).isSome = true := by
    rw [directory.vaddr2paddr_page inside small]
    exact Option.isSome_iff_ne_none.mpr mapped
  cases override with
  | false => simp [mapMemWithLoop, found]
  | true =>
      have stays := @Directory.createMemMap_mapped mem dir page paddr permit directory inside small
        mapped
      simp [mapMemWithLoop, stays]

theorem Directory.loop_free (directory : Directory mem dir) (inside : page < 2 ^ 20)
    (small : ¬ mem.BigAt dir page) (free : mem.pageAt dir page = none)
    (added : createMemMap dir permit mem (page * memPageSize) paddr 1 = some (0, next)) :
    mapMemWithLoop dir permit override mem (page * memPageSize) paddr (count + 1) =
      mapMemWithLoop dir permit override next (pageBehind page 1 * memPageSize)
        ((paddr + memPageSize) % 2 ^ 32) count := by
  have missing : (vaddr2paddr mem.words dir (page * memPageSize)).isSome = false := by
    rw [directory.vaddr2paddr_page inside small, free]
    rfl
  simp only [mapMemWithLoop, missing, Bool.false_eq_true, false_and, if_false, added,
    Option.bind_eq_bind, Option.bind_some, ne_eq, not_true_eq_false, pageBehind_addr]

theorem MapsPages.cons {mid : MemState} (added : PageAdded mem mid dir page paddr)
    (maps : MapsPages mid next dir (pageBehind page 1) ((paddr + memPageSize) % 2 ^ 32) done)
    (inside : page < 2 ^ 20) (below : paddr < 2 ^ 32) (short : done < 2 ^ 20) :
    MapsPages mem next dir page paddr (done + 1) := by
  refine ⟨maps.directory, ?_, fun other => (maps.bigAt other).trans (added.bigAt other)⟩
  intro other otherInside
  rw [maps.pageAt other otherInside, added.pageAt other otherInside]
  by_cases same : other = page
  · obtain ⟨here, last⟩ := ahead_self inside
    rw [same, here, last, if_neg (by omega), if_pos rfl, if_pos (Nat.succ_pos _), Nat.zero_mul,
      Nat.add_zero, Nat.mod_eq_of_lt below]
  · rw [ahead_next inside otherInside same, if_neg same]
    by_cases near : ahead (pageBehind page 1) other < done
    · rw [if_pos near, if_pos (Nat.succ_lt_succ near), Option.some.injEq]
      simp only [memPageSize]
      omega
    · rw [if_neg near, if_neg (near ∘ Nat.lt_of_succ_lt_succ)]

/-- The loop of `map_mem` maps the pages in front of the first one that is mapped.  After all
pages of memory that is the first page of the range. -/
theorem Directory.loop_spec (directory : Directory mem dir) (inside : page < 2 ^ 20)
    (aligned : paddr % memPageSize = 0) (below : paddr < 2 ^ 32) (flags : permit < 4096)
    (small : ∀ i < count, ¬ mem.BigAt dir (pageBehind page i))
    (enough : (mem.missingTables dir page count).card ≤ mem.kernelVir.clearPages.card) :
    ∃ done next, mapMemWithLoop dir permit override mem (page * memPageSize) paddr count =
        some (decide (done = count), next) ∧
      done ≤ count ∧ done ≤ 2 ^ 20 ∧ MapsPages mem next dir page paddr done ∧
      (∀ i < done, mem.pageAt dir (pageBehind page i) = none) ∧
      (done < count → done = 2 ^ 20 ∨ mem.pageAt dir (pageBehind page done) ≠ none) := by
  induction count generalizing mem page paddr with
  | zero =>
      refine ⟨0, mem, rfl, Nat.le_refl _, by decide, ⟨directory, ?_, fun _ => Iff.rfl⟩, ?_, ?_⟩
      · intro other _
        rw [if_neg (Nat.not_lt_zero _)]
      · intro i none
        cases none
      · intro none
        cases none
  | succ count ih =>
      have first : pageBehind page 0 = page := pageBehind_zero inside
      have firstSmall : ¬ mem.BigAt dir page := first ▸ small 0 (Nat.succ_pos _)
      by_cases free : mem.pageAt dir page = none
      · obtain ⟨mid, createEq, added⟩ := directory.createMemMap_free inside firstSmall free aligned
          flags (missing_le inside enough)
        have midSmall : ∀ i < count, ¬ mid.BigAt dir (pageBehind (pageBehind page 1) i) := by
          intro i isInside
          rw [added.bigAt, pageBehind_next]
          exact small (i + 1) (by omega)
        have midAligned : (paddr + memPageSize) % 2 ^ 32 % memPageSize = 0 := by
          simp only [memPageSize] at aligned ⊢
          omega
        obtain ⟨done, next, loopEq, upper, notAll, maps, unmapped, stopped⟩ :=
          ih added.directory pageBehind_lt midAligned (Nat.mod_lt _ (by decide)) midSmall
            (added.enough inside enough)
        have midFree : ∀ i < done, pageBehind page (i + 1) ≠ page ∧
            mem.pageAt dir (pageBehind page (i + 1)) = none := by
          intro i isInside
          have isFree := unmapped i isInside
          rw [pageBehind_next, added.pageAt _ pageBehind_lt] at isFree
          split at isFree
          · cases isFree
          · exact ⟨‹_›, isFree⟩
        -- the first page is not free any more
        have short : done < 2 ^ 20 := by
          by_contra all
          apply (midFree (2 ^ 20 - 1) (by omega)).1
          simp only [pageBehind]
          omega
        refine ⟨done + 1, next, ?_, by omega, by omega, maps.cons added inside below short, ?_, ?_⟩
        · rw [directory.loop_free inside firstSmall free createEq, loopEq]
          simp
        · intro i isInside
          cases i with
          | zero => exact first.symm ▸ free
          | succ i => exact (midFree i (by omega)).2
        · intro more
          rcases stopped (by omega) with all | mapped
          · omega
          · rw [pageBehind_next, added.pageAt _ pageBehind_lt] at mapped
            by_cases isFirst : pageBehind page (done + 1) = page
            · left
              simp only [pageBehind] at isFirst
              omega
            · rw [if_neg isFirst] at mapped
              exact .inr mapped
      · refine ⟨0, mem, ?_, Nat.zero_le _, by decide, ⟨directory, ?_, fun _ => Iff.rfl⟩, ?_, ?_⟩
        · rw [directory.loop_mapped inside firstSmall free]
          simp
        · intro other _
          rw [if_neg (Nat.not_lt_zero _)]
        · intro i none
          cases none
        · intro _
          exact .inr (first.symm ▸ free)

structure UnmapsPages (mem next : MemState) (dir page count : Nat) : Prop where
  directory : Directory next dir
  kernelVir : next.kernelVir = mem.kernelVir
  dirWords : next.words dir = mem.words dir
  pageAt : ∀ other < 2 ^ 20, next.pageAt dir other =
    if ahead page other < count then none else mem.pageAt dir other

theorem UnmapsPages.bigAt (unmaps : UnmapsPages mem next dir page count) :
    next.BigAt dir other ↔ mem.BigAt dir other := by
  rw [bigAt_iff, bigAt_iff, unmaps.dirWords]

theorem Directory.unmap_page (directory : Directory mem dir) (inside : page < 2 ^ 20)
    (small : ¬ mem.BigAt dir page) :
    UnmapsPages mem { mem with words := unmapMemLoop dir mem.words (page * memPageSize) 1 } dir
      page 1 := by
  have onlyPage {other : Nat} (otherInside : other < 2 ^ 20) :
      ahead page other < 1 ↔ other = page := by
    simp only [ahead]
    omega
  rcases @entry_cases mem dir page inside with absent | ⟨table, isTable⟩ | big
  · have same : unmapMemLoop dir mem.words (page * memPageSize) 1 = mem.words := by
      simp only [unmapMemLoop, pdeIndex_page, absent, Bool.false_eq_true, if_false]
    rw [same]
    refine ⟨directory, rfl, rfl, ?_⟩
    intro other otherInside
    split
    · rw [(onlyPage otherInside).mp ‹_›]
      exact pageAt_absent absent
    · rfl
  · have apart := (directory.tableNamed isTable).2
    have clear (value : Nat) : present (value / 2 * 2) = false := by
      rw [present, decide_eq_false_iff_not]
      omega
    have written : unmapMemLoop dir mem.words (page * memPageSize) 1 =
        (mem.setEntry table (page % 1024) (mem.words table (page % 1024) / 2 * 2)).words := by
      simp only [unmapMemLoop, pdeIndex_page, pteIndex_page, isTable.isPresent, if_true,
        isTable.isTable, MemState.setEntry]
    rw [written]
    refine ⟨directory.setEntry apart, rfl, ?_, ?_⟩
    · funext entry
      exact setEntry_words_ne apart.symm
    · intro other otherInside
      refine (directory.pageAt_setEntry isTable otherInside).trans ?_
      simp only [clear, Bool.false_eq_true, if_false, onlyPage otherInside]
  · exact absurd big small

theorem Directory.unmap_spec (directory : Directory mem dir) (inside : page < 2 ^ 20)
    (small : ∀ i < count, ¬ mem.BigAt dir (pageBehind page i)) :
    UnmapsPages mem { mem with words := unmapMemLoop dir mem.words (page * memPageSize) count } dir
      page count := by
  induction count generalizing mem page with
  | zero =>
      refine ⟨directory, rfl, rfl, ?_⟩
      intro other _
      rw [if_neg (Nat.not_lt_zero _)]
      rfl
  | succ count ih =>
      have first : pageBehind page 0 = page := pageBehind_zero inside
      obtain ⟨mid, midEq⟩ : ∃ mid : MemState, mid =
        { mem with words := unmapMemLoop dir mem.words (page * memPageSize) 1 } := ⟨_, rfl⟩
      have unmapped : UnmapsPages mem mid dir page 1 := by
        rw [midEq]
        exact directory.unmap_page inside (first ▸ small 0 (Nat.succ_pos _))
      have rest := @ih mid (pageBehind page 1) unmapped.directory pageBehind_lt (by
        intro i isInside
        rw [unmapped.bigAt, pageBehind_next]
        exact small (i + 1) (by omega))
      have loopEq : unmapMemLoop dir mem.words (page * memPageSize) (count + 1) =
          unmapMemLoop dir mid.words (pageBehind page 1 * memPageSize) count := by
        rw [midEq, ← pageBehind_addr]
        rfl
      have sameMem (words : Words) : { mem with words := words } = { mid with words := words } := by
        rw [midEq]
      rw [loopEq, sameMem]
      refine ⟨rest.directory, rest.kernelVir.trans unmapped.kernelVir,
        rest.dirWords.trans unmapped.dirWords, ?_⟩
      intro other otherInside
      rw [rest.pageAt other otherInside, unmapped.pageAt other otherInside]
      by_cases same : other = page
      · rw [same, (ahead_self inside).1, if_pos Nat.zero_lt_one, if_pos (Nat.succ_pos _), ite_self]
      · rw [ahead_next inside otherInside same]
        by_cases near : ahead (pageBehind page 1) other < count
        · rw [if_pos near, if_pos (Nat.succ_lt_succ near)]
        · rw [if_neg near, if_neg (near ∘ Nat.lt_of_succ_lt_succ), if_neg (by omega)]

end Ranges

def frameBehind (paddr i : Nat) : Nat :=
  (down2 paddr + i * memPageSize) % 2 ^ 32

/-- What `map_mem` should do with the pages of a range. -/
structure MapMemRight (mem next : MemState) (dir vaddr paddr count : Nat) (override : Bool)
    (result : Nat) : Prop where
  replaces : override = true → result ≠ failed
  refuses : override = false → (result ≠ failed ↔
    ∀ i < count, mem.pageAt dir (pageBehind (vaddr / memPageSize) i) = none)
  maps : result ≠ failed → ∀ i < count,
    vaddr2paddr next.words dir (pageBehind (vaddr / memPageSize) i * memPageSize) =
      some (frameBehind paddr i)
  failure : result = failed → ∀ page < 2 ^ 20, next.pageAt dir page = mem.pageAt dir page
  others : ∀ page < 2 ^ 20, (∀ i < count, page ≠ pageBehind (vaddr / memPageSize) i) →
    next.pageAt dir page = mem.pageAt dir page

/-- `unmap_mem` of a range that is mapped to frames in a row, and `map_mem` of it, restore the
mapping. -/
def Restores (permit : Nat) (mem : MemState) (dir vaddr paddr : Nat) (pageCount : Int)
    (override : Bool) : Prop :=
  (∀ i < pageCount.toNat,
    mem.pageAt dir (pageBehind (vaddr / memPageSize) i) = some (frameBehind paddr i)) →
  ∃ result next, mapMemWith permit (unmapMem mem dir vaddr pageCount) dir vaddr paddr pageCount
      override = some (result, next) ∧
    ∀ page < 2 ^ 20, next.pageAt dir page = mem.pageAt dir page

def MapMemMeets (permit : Nat) (mem : MemState) (dir vaddr paddr : Nat) (pageCount : Int)
    (override : Bool) : Prop :=
  (∃ result next, mapMemWith permit mem dir vaddr paddr pageCount override = some (result, next) ∧
    MapMemRight mem next dir vaddr paddr pageCount.toNat override result) ∧
  Restores permit mem dir vaddr paddr pageCount override

/-- No page of the range is mapped and none comes twice; or the first one is mapped and must
not be replaced. -/
def MapMemGuard (mem : MemState) (dir vaddr : Nat) (pageCount : Int) (override : Bool) : Prop :=
  (pageCount ≤ 2 ^ 20 ∧ ∀ i < pageCount.toNat,
    mem.pageAt dir (pageBehind (vaddr / memPageSize) i) = none) ∨
  (override = false ∧ 0 < pageCount ∧
    mem.pageAt dir (pageBehind (vaddr / memPageSize) 0) ≠ none)

section Contract

variable {mem : MemState} {dir vaddr paddr permit : Nat} {pageCount : Int} {override : Bool}

theorem page_lt (inside : vaddr < 2 ^ 32) : vaddr / memPageSize < 2 ^ 20 :=
  Nat.div_lt_of_lt_mul inside

theorem down2_page : down2 vaddr = vaddr / memPageSize * memPageSize := by
  simp only [down2, memPageSize]
  omega

theorem down2_ne_failed : down2 vaddr ≠ failed := by
  apply aligned_ne_failed
  rw [down2_page]
  exact Nat.mul_mod_left _ _

theorem Directory.mapMemWith_spec (directory : Directory mem dir) (vaddrInside : vaddr < 2 ^ 32)
    (paddrInside : paddr < 2 ^ 32) (flags : permit < 4096)
    (small : ∀ i < pageCount.toNat, ¬ mem.BigAt dir (pageBehind (vaddr / memPageSize) i))
    (enough : (mem.missingTables dir (vaddr / memPageSize) pageCount.toNat).card ≤
      mem.kernelVir.clearPages.card) :
    ∃ done next, mapMemWith permit mem dir vaddr paddr pageCount override =
        some (if done = pageCount.toNat then down2 vaddr else failed, next) ∧
      done ≤ pageCount.toNat ∧ done ≤ 2 ^ 20 ∧
      MapsPages mem next dir (vaddr / memPageSize) (down2 paddr) done ∧
      (∀ i < done, mem.pageAt dir (pageBehind (vaddr / memPageSize) i) = none) ∧
      (done < pageCount.toNat → done = 2 ^ 20 ∨
        mem.pageAt dir (pageBehind (vaddr / memPageSize) done) ≠ none) := by
  have inside := page_lt vaddrInside
  have aligned : down2 paddr % memPageSize = 0 := by
    rw [down2_page]
    exact Nat.mul_mod_left _ _
  have below : down2 paddr < 2 ^ 32 := Nat.lt_of_le_of_lt (Nat.sub_le _ _) paddrInside
  obtain ⟨done, next, loopEq, rest⟩ := @Directory.loop_spec mem dir _ _ permit pageCount.toNat
    override directory inside aligned below flags small enough
  refine ⟨done, next, ?_, rest⟩
  rw [mapMemWith, down2_page, loopEq]
  simp

theorem Directory.restores (directory : Directory mem dir) (vaddrInside : vaddr < 2 ^ 32)
    (paddrInside : paddr < 2 ^ 32) (flags : permit < 4096)
    (small : ∀ i < pageCount.toNat, ¬ mem.BigAt dir (pageBehind (vaddr / memPageSize) i)) :
    Restores permit mem dir vaddr paddr pageCount override := by
  intro mapped
  have inside := page_lt vaddrInside
  have unmaps : UnmapsPages mem (unmapMem mem dir vaddr pageCount) dir (vaddr / memPageSize)
      pageCount.toNat := by
    rw [unmapMem, down2_page]
    exact directory.unmap_spec inside small
  have noTables : (unmapMem mem dir vaddr pageCount).missingTables dir (vaddr / memPageSize)
      pageCount.toNat = ∅ := by
    apply Finset.eq_empty_of_forall_notMem
    intro entry member
    obtain ⟨-, absent, i, isInside, isEntry⟩ := by
      simpa only [MemState.missingTables, Finset.mem_filter, Finset.mem_range] using member
    rw [unmaps.dirWords, ← isEntry] at absent
    cases (pageAt_absent absent).symm.trans (mapped i isInside)
  obtain ⟨done, next, mapEq, upper, notAll, maps, -, stopped⟩ :=
    @Directory.mapMemWith_spec _ _ _ _ permit pageCount override unmaps.directory vaddrInside
      paddrInside flags (fun i isInside big => small i isInside (unmaps.bigAt.mp big))
      (noTables ▸ Nat.zero_le _)
  -- after the release no page of the range stops the loop
  have allDone : pageCount.toNat ≤ done ∨ done = 2 ^ 20 := by
    by_contra neither
    rw [not_or] at neither
    rcases stopped (by omega) with all | isMapped
    · exact neither.2 all
    · apply isMapped
      rw [unmaps.pageAt _ pageBehind_lt, ahead_pageBehind inside (by omega), if_pos (by omega)]
  refine ⟨_, next, mapEq, ?_⟩
  intro page pageInside
  rw [maps.pageAt page pageInside, unmaps.pageAt page pageInside]
  have isAhead : ahead (vaddr / memPageSize) page < 2 ^ 20 := Nat.mod_lt _ (by decide)
  by_cases near : ahead (vaddr / memPageSize) page < done
  · have isPage := mapped _ (Nat.lt_of_lt_of_le near upper)
    rw [pageBehind_ahead inside pageInside] at isPage
    rw [if_pos near, isPage, frameBehind]
  · rw [if_neg near, if_neg (by omega)]

/-- For every directory and every range outside of its pages of four megabytes, with pages for
the tables, `map_mem` meets its contract exactly under the guard. -/
theorem mapMem_right (directory : Directory mem dir) (kernelPageDir : Nat)
    (vaddrInside : vaddr < 2 ^ 32) (paddrInside : paddr < 2 ^ 32)
    (small : ∀ i < pageCount.toNat, ¬ mem.BigAt dir (pageBehind (vaddr / memPageSize) i))
    (enough : (mem.missingTables dir (vaddr / memPageSize) pageCount.toNat).card ≤
      mem.kernelVir.clearPages.card) :
    MapMemMeets (mapPermit kernelPageDir dir) mem dir vaddr paddr pageCount override ↔
      MapMemGuard mem dir vaddr pageCount override := by
  have inside := page_lt vaddrInside
  have flags : mapPermit kernelPageDir dir < 4096 := by
    rw [mapPermit]
    split <;> decide
  obtain ⟨done, next, mapEq, upper, notAll, maps, unmapped, stopped⟩ :=
    @Directory.mapMemWith_spec _ _ _ _ (mapPermit kernelPageDir dir) pageCount override directory
      vaddrInside paddrInside flags small enough
  constructor
  · rintro ⟨⟨result, after, returns, right⟩, -⟩
    cases mapEq.symm.trans returns
    by_cases all : done = pageCount.toNat
    · left
      refine ⟨by omega, ?_⟩
      rw [← all]
      exact unmapped
    · rw [if_neg all] at right
      have notOverride : override = false :=
        Bool.eq_false_iff.mpr fun isOverride => right.replaces isOverride rfl
      have nothing : done = 0 := by
        by_contra some
        have same := right.failure rfl (pageBehind (vaddr / memPageSize) 0) pageBehind_lt
        rw [maps.pageAt _ pageBehind_lt, ahead_pageBehind inside (by decide),
          if_pos (Nat.pos_of_ne_zero some), unmapped 0 (Nat.pos_of_ne_zero some)] at same
        cases same
      subst nothing
      refine .inr ⟨notOverride, by omega, ?_⟩
      exact (stopped (by omega)).resolve_left (by decide)
  · intro guard
    refine ⟨⟨_, next, mapEq, ?_⟩, directory.restores vaddrInside paddrInside flags small⟩
    have others : ∀ page < 2 ^ 20,
        (∀ i < pageCount.toNat, page ≠ pageBehind (vaddr / memPageSize) i) →
          next.pageAt dir page = mem.pageAt dir page := by
      intro page pageInside apart
      rw [maps.pageAt page pageInside, if_neg]
      intro near
      exact apart _ (Nat.lt_of_lt_of_le near upper) (pageBehind_ahead inside pageInside).symm
    rcases guard with ⟨notTwice, free⟩ | ⟨notOverride, some, mapped⟩
    · have all : done = pageCount.toNat := by
        by_contra short
        rcases stopped (by omega) with wrapped | isMapped
        · omega
        · exact isMapped (free done (by omega))
      rw [if_pos all]
      refine ⟨fun _ => down2_ne_failed, fun _ => iff_of_true down2_ne_failed free, ?_,
        fun isFailed => absurd isFailed down2_ne_failed, others⟩
      intro _ i isInside
      have notBig : ¬ next.BigAt dir (pageBehind (vaddr / memPageSize) i) :=
        (maps.bigAt _).not.mpr (small i isInside)
      rw [maps.directory.vaddr2paddr_page pageBehind_lt notBig, maps.pageAt _ pageBehind_lt,
        ahead_pageBehind inside (by omega), if_pos (by omega), frameBehind]
    · have nothing : done = 0 := by
        by_contra some
        exact mapped (unmapped 0 (Nat.pos_of_ne_zero some))
      subst nothing
      rw [if_neg (by omega)]
      refine ⟨?_, ?_, fun isMapped => absurd rfl isMapped, ?_, others⟩
      · intro isOverride
        cases notOverride.symm.trans isOverride
      · intro _
        refine iff_of_false (fun isMapped => isMapped rfl) ?_
        intro free
        exact mapped (free 0 (by omega))
      · intro _ page pageInside
        rw [maps.pageAt page pageInside, if_neg (Nat.not_lt_zero _)]

end Contract

theorem sampleDirectory_directory : Directory sampleDirectory memExtStart := by
  have noTable {entry table : Nat} (isTable : SmallTable sampleDirectory.words memExtStart entry
      table) : False := by
    cases isTable.isPresent
  constructor
  · exact ⟨rfl, by decide, by decide⟩
  · decide
  · decide
  · intro idx clear same
    obtain ⟨-, isClear⟩ := AddrAlloc.mem_clearPages.mp clear
    have first : idx = 0 := by
      simp only [AddrAlloc.addr, sampleDirectory, memExtStart, memPageSize] at same
      omega
    rw [first] at isClear
    revert isClear
    decide
  · exact fun isTable => (noTable isTable).elim
  · exact fun isTable => (noTable isTable).elim
  · exact fun isTable => (noTable isTable).elim

theorem mapMem_right_sample :
    Directory sampleDirectory memExtStart ∧ 0x40000123 < 2 ^ 32 ∧ 0x800456 < 2 ^ 32 ∧
      (∀ i < (2 : Int).toNat,
        ¬ sampleDirectory.BigAt memExtStart (pageBehind (0x40000123 / memPageSize) i)) ∧
      (sampleDirectory.missingTables memExtStart (0x40000123 / memPageSize) (2 : Int).toNat).card ≤
        sampleDirectory.kernelVir.clearPages.card ∧
      MapMemMeets (mapPermit 0x24000 memExtStart) sampleDirectory memExtStart 0x40000123 0x800456
        2 true := by
  have absent {page : Nat} : present (sampleDirectory.words memExtStart (page / 1024)) = false :=
    rfl
  have small : ∀ i < (2 : Int).toNat,
      ¬ sampleDirectory.BigAt memExtStart (pageBehind (0x40000123 / memPageSize) i) := by
    intro i _ big
    cases (bigAt_iff.mp big).1
  have enough : (sampleDirectory.missingTables memExtStart (0x40000123 / memPageSize)
      (2 : Int).toNat).card ≤ sampleDirectory.kernelVir.clearPages.card := by
    have free : 1 ∈ sampleDirectory.kernelVir.clearPages :=
      AddrAlloc.mem_clearPages.mpr (by decide)
    have one : sampleDirectory.missingTables memExtStart (0x40000123 / memPageSize)
        (2 : Int).toNat ⊆ {256} := by
      intro entry member
      obtain ⟨-, -, i, isInside, isEntry⟩ := by
        simpa only [MemState.missingTables, Finset.mem_filter, Finset.mem_range] using member
      rw [Finset.mem_singleton, ← isEntry]
      simp only [pageBehind, memPageSize, Int.reduceToNat] at isInside ⊢
      omega
    exact Nat.le_trans (Finset.card_le_card one) (Finset.card_pos.mpr ⟨1, free⟩)
  refine ⟨sampleDirectory_directory, by decide, by decide, small, enough, ?_⟩
  exact (mapMem_right sampleDirectory_directory 0x24000 (by decide) (by decide) small enough).mpr
    (.inl ⟨by decide, fun i _ => pageAt_absent absent⟩)

/-- A page is mapped a second time, to another frame: `map_mem` fails although it should
replace the mapping. -/
theorem override_refused :
    ∃ result mem, mapMemWith 6 sampleDirectory memExtStart 0x40000000 0x800000 1 true =
        some (result, mem) ∧
      (mapMemWith 6 mem memExtStart 0x40000000 0x900000 1 true).map Prod.fst = some failed ∧
      ¬ MapMemMeets (mapPermit 0x24000 memExtStart) mem memExtStart 0x40000000 0x900000 1 true := by
  have fails : ∀ {result mem}, mapMemWith 6 sampleDirectory memExtStart 0x40000000 0x800000 1 true =
      some (result, mem) →
      (mapMemWith 6 mem memExtStart 0x40000000 0x900000 1 true).map Prod.fst = some failed := by
    intro result mem first
    cases first
    decide
  obtain ⟨mem, first⟩ : ∃ mem, mapMemWith 6 sampleDirectory memExtStart 0x40000000 0x800000 1 true =
      some (0x40000000, mem) := ⟨_, rfl⟩
  refine ⟨_, mem, first, fails first, ?_⟩
  rintro ⟨⟨result, next, returns, right⟩, -⟩
  have isFailed := fails first
  have isPermit : mapPermit 0x24000 memExtStart = 6 := rfl
  rw [isPermit] at returns
  rw [returns] at isFailed
  exact right.replaces rfl (Option.some.inj isFailed)

end CleanOS.Memory
