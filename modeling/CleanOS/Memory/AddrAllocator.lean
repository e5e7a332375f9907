import CleanOS.Lib.Calls
import CleanOS.Memory.Mapping
import CleanOS.Memory.ProcessMem
import Mathlib.Data.Nat.Count
import Mathlib.Data.Nat.Find
import Mathlib.Order.Interval.Finset.Nat

/-!
# Address allocators

`init_addr_alloc`, `alloc_phy_mem`, `alloc_vir_mem` and `count_mem_used` of
`kernel/memory/paging.c`, for any area and any size of pages, called in any order with the
releases that match.  The bitmap is rounded up to bytes and the scan reads one bit behind it, so
that a range may be found which does not end inside the area.
-/

namespace CleanOS.Memory

open CleanOS.Common CleanOS.Lib

/-- `init_addr_alloc` on the memory behind `bits`. -/
def initAddrAllocOn (bits : Nat → BitVec 8) (start size pageSize : Nat) : AddrAlloc :=
  let bitSize := size / pageSize
  { start := start
    pageSize := pageSize
    bitmap := Bitmap.init ⟨(bitSize + 7) % 2 ^ 32 / 8, bits⟩ }

/-- `alloc_phy_mem` and `alloc_vir_mem`, with the result of the scan as an `int`. -/
def allocRun (alloc : AddrAlloc) (pageCount : Int) : Nat × AddrAlloc :=
  let bitIdx := (alloc.bitmap.scan (pageCount % 2 ^ 32).toNat).bmod (2 ^ 32)
  if bitIdx < 0 then (failed, alloc)
  else
    let addr := (alloc.start + bitIdx.toNat * alloc.pageSize) % 2 ^ 32
    (addr, allocMemUse alloc addr pageCount true)

/-- `count_mem_used_visitor`. -/
def countMemUsedVisitor (btm : Bitmap) (idxBit : Nat) (count : UInt32) : Bool × UInt32 :=
  (true, if btm.scanTest idxBit then count + 1 else count)

/-- `count_mem_used`. -/
def countMemUsed (alloc : AddrAlloc) : UInt32 :=
  alloc.bitmap.foreach 1 countMemUsedVisitor 0

/-- What is given to `init_addr_alloc`. -/
structure Area where
  start : Nat
  size : Nat
  pageSize : Nat

def Area.pages (area : Area) : Nat :=
  area.size / area.pageSize

def Area.offset (area : Area) (addr : Nat) : Nat :=
  (addr + 2 ^ 32 - area.start) % 2 ^ 32

/-- A range of pages, as it was returned. -/
structure AddrRange where
  addr : Nat
  pageCount : Nat
  deriving DecidableEq

def AddrRange.Covers (area : Area) (range : AddrRange) (byte : Nat) : Prop :=
  area.offset range.addr ≤ byte ∧ byte < area.offset range.addr + range.pageCount * area.pageSize

/-- A range of pages lies inside the area and is disjoint from all live ones. -/
def FreeAt (area : Area) (live : List AddrRange) (offset count : Nat) : Prop :=
  offset + count * area.pageSize ≤ area.size ∧
    ∀ range ∈ live, ∀ byte, offset ≤ byte → byte < offset + count * area.pageSize →
      ¬ range.Covers area byte

/-- The allocator, and the ranges that were returned and are not freed. -/
structure AllocRanges where
  alloc : AddrAlloc
  live : List AddrRange

/-- A call of the allocator, or a byte that is written behind its bitmap. -/
inductive AllocCall where
  | alloc (pageCount : Int)
  | free (range : AddrRange)
  | write (byteIdx : Nat) (value : BitVec 8)

def allocCall (state : AllocRanges) : AllocCall → Option (Nat × AllocRanges)
  | .alloc pageCount =>
      let (addr, alloc) := allocRun state.alloc pageCount
      some (addr,
        { alloc := alloc
          live := if addr = failed then state.live else ⟨addr, pageCount.toNat⟩ :: state.live })
  | .free range =>
      some (0, ⟨allocMemUse state.alloc range.addr range.pageCount false, state.live.erase range⟩)
  | .write byteIdx value =>
      let bitmap := state.alloc.bitmap
      some (0, { state with
        alloc := { state.alloc with
          bitmap := { bitmap with bits := Function.update bitmap.bits byteIdx value } } })

def AllocScope (state : AllocRanges) : AllocCall → Prop
  | .alloc pageCount => 0 < pageCount ∧ pageCount < 2 ^ 31
  | .free range => range ∈ state.live
  | .write byteIdx _ => state.alloc.bitmap.bytesLen ≤ byteIdx

/-- An address begins a free range of the area, and only without a free range there is none. -/
def AllocRight (area : Area) (state : AllocRanges) : AllocCall → Nat → AllocRanges → Prop
  | .alloc pageCount => fun result _ =>
      (result ≠ failed → FreeAt area state.live (area.offset result) pageCount.toNat) ∧
        (result = failed → ∀ offset, ¬ FreeAt area state.live offset pageCount.toNat)
  | _ => fun _ _ => True

def trailing (btm : Bitmap) : Nat → Nat
  | 0 => 0
  | idx + 1 => if btm.bit idx then 0 else trailing btm idx + 1

/-- The clear bits from the last pages of the area on: those of free pages, those up to the
end of the byte and, when more than one is looked for, the one behind the bitmap. -/
def clearAtEnd (area : Area) (btm : Bitmap) (count : Nat) : Nat :=
  trailing btm area.pages + (btm.bytesLen * 8 - area.pages) +
    if 1 < count ∧ btm.bit (btm.bytesLen * 8) = false then 1 else 0

/-- The lowest free range. -/
structure LowestFree (area : Area) (live : List AddrRange) (count first : Nat) : Prop where
  free : FreeAt area live (first * area.pageSize) count
  least : ∀ other, FreeAt area live (other * area.pageSize) count → first ≤ other

/-- There is a free range: the bitmap has all pages of the area, and the index of the lowest one
is an `int` and its address not the error value.  Or there is none, and there are too few
clear bits at the end of the bitmap. -/
def AllocGuard (area : Area) (state : AllocRanges) : AllocCall → Prop
  | .alloc pageCount =>
      (area.pages ≤ state.alloc.bitmap.bytesLen * 8 ∧
        ∃ first, LowestFree area state.live pageCount.toNat first ∧ first < 2 ^ 31 ∧
          (area.start + first * area.pageSize) % 2 ^ 32 ≠ failed) ∨
      ((∀ offset, ¬ FreeAt area state.live offset pageCount.toNat) ∧
        (state.alloc.bitmap.bytesLen * 8 < area.pages ∨
          clearAtEnd area state.alloc.bitmap pageCount.toNat < pageCount.toNat ∨
          2 ^ 31 ≤ area.pages - trailing state.alloc.bitmap area.pages))
  | _ => True

section Model

variable {alloc : AddrAlloc} {pageCount : Int}

theorem initAddrAllocOn_zero {start size pageSize : Nat} (small : size / pageSize + 7 < 2 ^ 32) :
    initAddrAllocOn (fun _ => 0) start size pageSize = initAddrAlloc start size pageSize := by
  simp only [initAddrAllocOn, initAddrAlloc, Nat.mod_eq_of_lt small]

theorem bmod_index {idx : Nat} (small : idx < 2 ^ 31) : (idx : Int).bmod (2 ^ 32) = idx := by
  apply Int.bmod_eq_of_le <;> omega

theorem allocRun_eq (positive : 0 < pageCount) (int : pageCount < 2 ^ 31)
    (small : alloc.bitmap.bytesLen * 8 < 2 ^ 31) :
    allocRun alloc pageCount = allocRange alloc pageCount := by
  have count : pageCount % 2 ^ 32 = pageCount := by omega
  rw [allocRun, allocRange, count]
  rcases @Bitmap.scan_cases alloc.bitmap pageCount.toNat (by omega) with
    ⟨missing, -⟩ | ⟨start, found, inside, -⟩
  · rw [missing]
    rfl
  · have startSmall : start < 2 ^ 31 := by
      rw [Bitmap.scanLimit] at inside
      split at inside <;> omega
    rw [found, bmod_index startSmall]

end Model

structure AllocAgree (area : Area) (state : AllocRanges) : Prop where
  start : state.alloc.start = area.start
  pageSize : state.alloc.pageSize = area.pageSize
  bytes : state.alloc.bitmap.bytesLen = (area.pages + 7) % 2 ^ 32 / 8
  ranges : ∀ range ∈ state.live, ∃ first, area.offset range.addr = first * area.pageSize ∧
    0 < range.pageCount ∧ first + range.pageCount ≤ area.pages
  disjoint : state.live.Pairwise fun range other =>
    ∀ byte, range.Covers area byte → ¬ other.Covers area byte
  bits : ∀ idx, idx < state.alloc.bitmap.bytesLen * 8 →
    (state.alloc.bitmap.bit idx = true ↔
      ∃ range ∈ state.live, range.Covers area (idx * area.pageSize))

section Pages

variable {area : Area} {state : AllocRanges} {range : AddrRange} {btm : Bitmap}
  {first count idx offset : Nat}

theorem covers_iff (positive : 0 < area.pageSize)
    (isFirst : area.offset range.addr = first * area.pageSize) (byte : Nat) :
    range.Covers area byte ↔
      first ≤ byte / area.pageSize ∧ byte / area.pageSize < first + range.pageCount := by
  rw [AddrRange.Covers, isFirst, ← Nat.add_mul, Nat.le_div_iff_mul_le positive,
    Nat.div_lt_iff_lt_mul positive]

theorem pages_mul_le : area.pages * area.pageSize ≤ area.size :=
  Nat.div_mul_le_self _ _

theorem page_offset_lt (sizeInside : area.size < 2 ^ 32) (inside : idx ≤ area.pages) :
    idx * area.pageSize < 2 ^ 32 :=
  Nat.lt_of_le_of_lt (Nat.le_trans (Nat.mul_le_mul_right _ inside) pages_mul_le) sizeInside

theorem offset_page (startInside : area.start < 2 ^ 32) (sizeInside : area.size < 2 ^ 32)
    (inside : idx ≤ area.pages) :
    area.offset ((area.start + idx * area.pageSize) % 2 ^ 32) = idx * area.pageSize := by
  have small := page_offset_lt sizeInside inside
  rw [Area.offset]
  omega

theorem AllocAgree.freeAt_iff (agree : AllocAgree area state) (positive : 0 < area.pageSize) :
    FreeAt area state.live (first * area.pageSize) count ↔ first + count ≤ area.pages ∧
      ∀ idx, first ≤ idx → idx < first + count →
        ¬ ∃ range ∈ state.live, range.Covers area (idx * area.pageSize) := by
  rw [FreeAt, ← Nat.add_mul, Area.pages, Nat.le_div_iff_mul_le positive]
  refine and_congr_right fun _ => ?_
  constructor
  · rintro free idx lower upper ⟨range, live, covers⟩
    apply free range live _ (Nat.mul_le_mul_right _ lower) _ covers
    exact Nat.mul_lt_mul_of_pos_right upper positive
  · intro free range live byte lower upper covers
    apply free (byte / area.pageSize)
    · exact (Nat.le_div_iff_mul_le positive).mpr lower
    · exact (Nat.div_lt_iff_lt_mul positive).mpr upper
    · obtain ⟨other, isOther, -⟩ := agree.ranges range live
      refine ⟨range, live, ?_⟩
      rw [covers_iff positive isOther] at covers ⊢
      rw [Nat.mul_div_cancel _ positive]
      exact covers

theorem AllocAgree.freeAt_page (agree : AllocAgree area state) (positive : 0 < area.pageSize)
    (some : 0 < count) (free : FreeAt area state.live offset count) :
    FreeAt area state.live (offset / area.pageSize * area.pageSize) count := by
  have before : offset / area.pageSize * area.pageSize ≤ offset := Nat.div_mul_le_self _ _
  have inPage : offset < (offset / area.pageSize + 1) * area.pageSize := by
    rw [Nat.mul_comm]
    exact Nat.lt_mul_div_succ _ positive
  rw [agree.freeAt_iff positive]
  constructor
  · rw [Area.pages, Nat.le_div_iff_mul_le positive, Nat.add_mul]
    exact Nat.le_trans (Nat.add_le_add_right before _) free.1
  · rintro idx lower upper ⟨range, live, covers⟩
    obtain ⟨other, isOther, -⟩ := agree.ranges range live
    have last : (idx + 1) * area.pageSize ≤ (offset / area.pageSize + count) * area.pageSize :=
      Nat.mul_le_mul_right _ upper
    rw [Nat.add_mul, Nat.add_mul] at last
    -- the page has a byte of the range that is free
    by_cases isFirst : idx = offset / area.pageSize
    · apply free.2 range live offset (Nat.le_refl _)
      · exact Nat.lt_add_of_pos_right (Nat.mul_pos some positive)
      · rw [covers_iff positive isOther] at covers ⊢
        rw [Nat.mul_div_cancel _ positive, isFirst] at covers
        exact covers
    · apply free.2 range live (idx * area.pageSize)
      · have next : (offset / area.pageSize + 1) * area.pageSize ≤ idx * area.pageSize :=
          Nat.mul_le_mul_right _ (by omega)
        omega
      · omega
      · exact covers

theorem AllocAgree.bit_clear (agree : AllocAgree area state)
    (inside : idx < state.alloc.bitmap.bytesLen * 8)
    (free : ¬ ∃ range ∈ state.live, range.Covers area (idx * area.pageSize)) :
    state.alloc.bitmap.bit idx = false := by
  rw [← Bool.not_eq_true, agree.bits idx inside]
  exact free

theorem AllocAgree.padding_clear (agree : AllocAgree area state) (positive : 0 < area.pageSize)
    (lower : area.pages ≤ idx) (inside : idx < state.alloc.bitmap.bytesLen * 8) :
    state.alloc.bitmap.bit idx = false := by
  apply agree.bit_clear inside
  rintro ⟨range, live, covers⟩
  obtain ⟨other, isOther, -, upper⟩ := agree.ranges range live
  rw [covers_iff positive isOther, Nat.mul_div_cancel _ positive] at covers
  omega

theorem trailing_spec (idx : Nat) :
    trailing btm idx ≤ idx ∧
      (∀ other, idx - trailing btm idx ≤ other → other < idx → btm.bit other = false) ∧
      (trailing btm idx < idx → btm.bit (idx - trailing btm idx - 1) = true) := by
  induction idx with
  | zero =>
      refine ⟨Nat.le_refl _, ?_, ?_⟩
      · intro other _ none
        cases none
      · intro none
        cases none
  | succ idx ih =>
      obtain ⟨upper, clear, stop⟩ := ih
      rw [trailing]
      cases isSet : btm.bit idx with
      | true =>
          rw [if_pos rfl]
          refine ⟨Nat.zero_le _, ?_, ?_⟩
          · intro other lower inside
            omega
          · intro _
            exact isSet
      | false =>
          rw [if_neg Bool.false_ne_true]
          refine ⟨Nat.succ_le_succ upper, ?_, ?_⟩
          · intro other lower inside
            by_cases last : other = idx
            · rw [last, isSet]
            · exact clear other (by omega) (by omega)
          · intro more
            rw [Nat.add_sub_add_right]
            exact stop (by omega)

theorem AllocAgree.bytes_cases (agree : AllocAgree area state) (sizeInside : area.size < 2 ^ 32) :
    area.pages ≤ state.alloc.bitmap.bytesLen * 8 ∨
      (state.alloc.bitmap.bytesLen = 0 ∧ state.alloc.bitmap.bytesLen * 8 < area.pages) := by
  have small : area.pages < 2 ^ 32 := Nat.lt_of_le_of_lt (Nat.div_le_self _ _) sizeInside
  have bytes := agree.bytes
  omega

theorem scan_empty (empty : btm.bytesLen = 0) (some : 0 < count) : btm.scan count = -1 := by
  rcases btm.scan_cases some with ⟨missing, -⟩ | ⟨start, -, inside, -⟩
  · exact missing
  · rw [Bitmap.scanLimit, empty] at inside
    split at inside <;> omega

theorem AllocAgree.free_clear (agree : AllocAgree area state) (positive : 0 < area.pageSize)
    (fits : area.pages ≤ state.alloc.bitmap.bytesLen * 8)
    (free : FreeAt area state.live (first * area.pageSize) count) :
    ∀ idx, first ≤ idx → idx < first + count → state.alloc.bitmap.bit idx = false := by
  obtain ⟨inside, isFree⟩ := (agree.freeAt_iff positive).mp free
  intro idx lower upper
  exact agree.bit_clear (by omega) (isFree idx lower upper)

theorem AllocAgree.clear_free (agree : AllocAgree area state) (positive : 0 < area.pageSize)
    (fits : area.pages ≤ state.alloc.bitmap.bytesLen * 8) (inside : first + count ≤ area.pages)
    (clear : ∀ idx, first ≤ idx → idx < first + count → state.alloc.bitmap.bit idx = false) :
    FreeAt area state.live (first * area.pageSize) count := by
  refine (agree.freeAt_iff positive).mpr ⟨inside, ?_⟩
  intro idx lower upper covered
  have isSet := (agree.bits idx (by omega)).mpr covered
  cases isSet.symm.trans (clear idx lower upper)

theorem AllocAgree.scan_lowest (agree : AllocAgree area state) (positive : 0 < area.pageSize)
    (fits : area.pages ≤ state.alloc.bitmap.bytesLen * 8) (some : 0 < count)
    (lowest : LowestFree area state.live count first) :
    state.alloc.bitmap.scan count = first := by
  obtain ⟨inside, -⟩ := (agree.freeAt_iff positive).mp lowest.free
  have clear := agree.free_clear positive fits lowest.free
  have inLimit : first + count ≤ state.alloc.bitmap.scanLimit count := by
    rw [Bitmap.scanLimit]
    omega
  obtain ⟨start, isStart, notBehind, startClear⟩ :=
    state.alloc.bitmap.scan_least_limit some inLimit clear
  have least := lowest.least start
    (agree.clear_free positive fits (by omega) startClear)
  rw [isStart, Nat.le_antisymm notBehind least]

theorem AllocAgree.run_atEnd (agree : AllocAgree area state) (positive : 0 < area.pageSize)
    (fits : area.pages ≤ state.alloc.bitmap.bytesLen * 8) (some : 0 < count)
    (noFree : ∀ offset, ¬ FreeAt area state.live offset count)
    (inside : first + count ≤ state.alloc.bitmap.scanLimit count)
    (clear : ∀ idx, first ≤ idx → idx < first + count → state.alloc.bitmap.bit idx = false) :
    area.pages - trailing state.alloc.bitmap area.pages ≤ first ∧
      first + count ≤ area.pages - trailing state.alloc.bitmap area.pages +
        clearAtEnd area state.alloc.bitmap count := by
  obtain ⟨upper, -, stop⟩ := @trailing_spec state.alloc.bitmap area.pages
  have beyond : area.pages < first + count := by
    by_contra short
    exact noFree _ (agree.clear_free positive fits (not_lt.mp short) clear)
  constructor
  · by_contra before
    have isSet := stop (by omega)
    rw [clear _ (by omega) (by omega)] at isSet
    cases isSet
  · rw [clearAtEnd]
    by_cases behind : 1 < count ∧
        state.alloc.bitmap.bit (state.alloc.bitmap.bytesLen * 8) = false
    · rw [if_pos behind]
      rw [Bitmap.scanLimit] at inside
      split at inside <;> omega
    · rw [if_neg behind]
      have notBehind : first + count ≤ state.alloc.bitmap.bytesLen * 8 := by
        by_contra reaches
        apply behind
        rw [Bitmap.scanLimit] at inside
        split at inside
        · omega
        · exact ⟨by omega, clear _ (by omega) (by omega)⟩
      omega

theorem AllocAgree.endRun (agree : AllocAgree area state) (positive : 0 < area.pageSize)
    (fits : area.pages ≤ state.alloc.bitmap.bytesLen * 8)
    (enough : count ≤ clearAtEnd area state.alloc.bitmap count) :
    area.pages - trailing state.alloc.bitmap area.pages + count ≤
        state.alloc.bitmap.scanLimit count ∧
      ∀ idx, area.pages - trailing state.alloc.bitmap area.pages ≤ idx →
        idx < area.pages - trailing state.alloc.bitmap area.pages + count →
        state.alloc.bitmap.bit idx = false := by
  obtain ⟨upper, clear, -⟩ := @trailing_spec state.alloc.bitmap area.pages
  rw [clearAtEnd] at enough
  by_cases behind : 1 < count ∧
      state.alloc.bitmap.bit (state.alloc.bitmap.bytesLen * 8) = false
  · rw [if_pos behind] at enough
    constructor
    · rw [Bitmap.scanLimit, if_neg (by omega)]
      omega
    · intro idx lower inRun
      by_cases isPage : idx < area.pages
      · exact clear idx lower isPage
      · by_cases isPadding : idx < state.alloc.bitmap.bytesLen * 8
        · exact agree.padding_clear positive (not_lt.mp isPage) isPadding
        · have isBehind : idx = state.alloc.bitmap.bytesLen * 8 := by omega
          rw [isBehind, behind.2]
  · rw [if_neg behind] at enough
    constructor
    · rw [Bitmap.scanLimit]
      omega
    · intro idx lower inRun
      by_cases isPage : idx < area.pages
      · exact clear idx lower isPage
      · exact agree.padding_clear positive (not_lt.mp isPage) (by omega)

theorem AllocAgree.scan_atEnd (agree : AllocAgree area state) (positive : 0 < area.pageSize)
    (fits : area.pages ≤ state.alloc.bitmap.bytesLen * 8) (some : 0 < count)
    (noFree : ∀ offset, ¬ FreeAt area state.live offset count) :
    if clearAtEnd area state.alloc.bitmap count < count then
      state.alloc.bitmap.scan count = -1
    else
      state.alloc.bitmap.scan count =
        (area.pages - trailing state.alloc.bitmap area.pages : Nat) := by
  rcases state.alloc.bitmap.scan_cases some with ⟨missing, noRun⟩ |
    ⟨start, isStart, inside, startClear, least⟩
  · rw [if_pos]
    · exact missing
    · by_contra enough
      exact noRun ⟨_, agree.endRun positive fits (not_lt.mp enough)⟩
  · obtain ⟨lower, reaches⟩ := agree.run_atEnd positive fits some noFree inside startClear
    have enough : ¬ clearAtEnd area state.alloc.bitmap count < count := by omega
    obtain ⟨endInside, endClear⟩ := agree.endRun positive fits (not_lt.mp enough)
    rw [if_neg enough, isStart, Nat.le_antisymm (least _ endInside endClear) lower]

end Pages

section Calls

variable {area : Area} {state after : AllocRanges} {range : AddrRange} {call : AllocCall}
  {first result : Nat} {pageCount : Int}

theorem allocRun_missing (scope : 0 < pageCount ∧ pageCount < 2 ^ 31)
    (missing : state.alloc.bitmap.scan pageCount.toNat = -1) :
    allocRun state.alloc pageCount = (failed, state.alloc) := by
  have count : pageCount % 2 ^ 32 = pageCount := by omega
  rw [allocRun, count, missing]
  rfl

theorem allocRun_large (scope : 0 < pageCount ∧ pageCount < 2 ^ 31)
    (found : state.alloc.bitmap.scan pageCount.toNat = first)
    (large : 2 ^ 31 ≤ first) (inside : first < 2 ^ 32) :
    allocRun state.alloc pageCount = (failed, state.alloc) := by
  have count : pageCount % 2 ^ 32 = pageCount := by omega
  have negative : (first : Int).bmod (2 ^ 32) < 0 := by
    rw [Int.bmod]
    omega
  rw [allocRun, count, found]
  exact if_pos negative

theorem AllocAgree.allocMemUse_range (agree : AllocAgree area state)
    (positive : 0 < area.pageSize) {addr : Nat}
    (isFirst : area.offset addr = first * area.pageSize) (use : Bool) :
    allocMemUse state.alloc addr pageCount use =
      { state.alloc with bitmap := setBits state.alloc.bitmap first pageCount.toNat use } := by
  have bitIdx : (addr + 2 ^ 32 - state.alloc.start) % 2 ^ 32 / state.alloc.pageSize = first := by
    rw [agree.start, agree.pageSize]
    exact (congrArg (· / area.pageSize) isFirst).trans (Nat.mul_div_cancel _ positive)
  rw [allocMemUse, bitIdx]

theorem AllocAgree.allocRun_found (agree : AllocAgree area state) (positive : 0 < area.pageSize)
    (startInside : area.start < 2 ^ 32) (sizeInside : area.size < 2 ^ 32)
    (scope : 0 < pageCount ∧ pageCount < 2 ^ 31)
    (found : state.alloc.bitmap.scan pageCount.toNat = first)
    (small : first < 2 ^ 31) (inside : first ≤ area.pages) :
    allocRun state.alloc pageCount = ((area.start + first * area.pageSize) % 2 ^ 32,
      { state.alloc with bitmap := setBits state.alloc.bitmap first pageCount.toNat true }) := by
  have count : pageCount % 2 ^ 32 = pageCount := by omega
  have nonneg : ¬ (first : Int) < 0 := by omega
  rw [allocRun, count, found, bmod_index small]
  rw [if_neg nonneg, Int.toNat_natCast, agree.start, agree.pageSize]
  exact congrArg (Prod.mk _)
    (agree.allocMemUse_range positive (offset_page startInside sizeInside inside) true)

theorem AllocAgree.taken {addr count : Nat} (agree : AllocAgree area state)
    (positive : 0 < area.pageSize) (some : 0 < count)
    (isFirst : area.offset addr = first * area.pageSize)
    (free : FreeAt area state.live (first * area.pageSize) count) :
    AllocAgree area
      ⟨{ state.alloc with bitmap := setBits state.alloc.bitmap first count true },
        ⟨addr, count⟩ :: state.live⟩ := by
  obtain ⟨inside, isFree⟩ := (agree.freeAt_iff positive).mp free
  have covers := @covers_iff area ⟨addr, count⟩ first positive isFirst
  constructor
  · exact agree.start
  · exact agree.pageSize
  · exact setBits_bytesLen.trans agree.bytes
  · intro range live
    rcases List.mem_cons.mp live with rfl | live
    · exact ⟨first, isFirst, some, inside⟩
    · exact agree.ranges range live
  · refine List.pairwise_cons.mpr ⟨?_, agree.disjoint⟩
    intro other live byte covered otherCovered
    obtain ⟨otherFirst, isOther, -⟩ := agree.ranges other live
    rw [covers] at covered
    rw [covers_iff positive isOther] at otherCovered
    apply isFree (byte / area.pageSize) covered.1 covered.2
    refine ⟨other, live, ?_⟩
    rw [covers_iff positive isOther, Nat.mul_div_cancel _ positive]
    exact otherCovered
  · intro idx idxInside
    rw [setBits_bytesLen] at idxInside
    change (setBits state.alloc.bitmap first count true).bit idx = true ↔
      ∃ range ∈ ⟨addr, count⟩ :: state.live, range.Covers area (idx * area.pageSize)
    rw [setBits_bit, List.exists_mem_cons_iff, covers, Nat.mul_div_cancel _ positive]
    by_cases isTaken : first ≤ idx ∧ idx < first + count
    · rw [if_pos isTaken]
      exact iff_of_true rfl (.inl isTaken)
    · rw [if_neg isTaken, agree.bits idx idxInside]
      exact (or_iff_right isTaken).symm

theorem AllocAgree.freed (agree : AllocAgree area state) (positive : 0 < area.pageSize)
    (live : range ∈ state.live) :
    AllocAgree area
      ⟨allocMemUse state.alloc range.addr range.pageCount false, state.live.erase range⟩ := by
  obtain ⟨first, isFirst, some, inside⟩ := agree.ranges range live
  have covers := covers_iff positive isFirst
  rw [agree.allocMemUse_range positive isFirst, Int.toNat_natCast]
  have apart : ∀ other ∈ state.live.erase range, ∀ byte, range.Covers area byte →
      ¬ other.Covers area byte := by
    have moved := (List.perm_cons_erase live).pairwise_iff (fun apart byte covered other =>
      apart byte other covered) |>.mp agree.disjoint
    exact (List.pairwise_cons.mp moved).1
  constructor
  · exact agree.start
  · exact agree.pageSize
  · exact setBits_bytesLen.trans agree.bytes
  · intro other stillLive
    exact agree.ranges other (List.mem_of_mem_erase stillLive)
  · exact agree.disjoint.sublist List.erase_sublist
  · intro idx idxInside
    rw [setBits_bytesLen] at idxInside
    change (setBits state.alloc.bitmap first range.pageCount false).bit idx = true ↔
      ∃ other ∈ state.live.erase range, other.Covers area (idx * area.pageSize)
    rw [setBits_bit]
    by_cases isFreed : first ≤ idx ∧ idx < first + range.pageCount
    · rw [if_pos isFreed]
      refine iff_of_false Bool.false_ne_true ?_
      rintro ⟨other, stillLive, covered⟩
      apply apart other stillLive _ _ covered
      rw [covers, Nat.mul_div_cancel _ positive]
      exact isFreed
    · rw [if_neg isFreed, agree.bits idx idxInside]
      constructor
      · rintro ⟨other, isLive, covered⟩
        refine ⟨other, (List.mem_erase_of_ne ?_).mpr isLive, covered⟩
        rintro rfl
        rw [covers, Nat.mul_div_cancel _ positive] at covered
        exact isFreed covered
      · rintro ⟨other, stillLive, covered⟩
        exact ⟨other, List.mem_of_mem_erase stillLive, covered⟩

theorem AllocAgree.written {byteIdx : Nat} {value : BitVec 8} (agree : AllocAgree area state)
    (behind : state.alloc.bitmap.bytesLen ≤ byteIdx) :
    AllocAgree area ⟨{ state.alloc with bitmap := { state.alloc.bitmap with
      bits := Function.update state.alloc.bitmap.bits byteIdx value } }, state.live⟩ := by
  refine { agree with bits := ?_ }
  intro idx idxInside
  have inside : idx / 8 ≠ byteIdx := by
    change idx < state.alloc.bitmap.bytesLen * 8 at idxInside
    omega
  rw [← agree.bits idx idxInside]
  change ((Function.update state.alloc.bitmap.bits byteIdx value (idx / 8)).getLsbD (idx % 8) =
    true) ↔ _
  rw [Function.update_of_ne inside, Bitmap.bit]

theorem AllocAgree.alloc_right (agree : AllocAgree area state) (positive : 0 < area.pageSize)
    (startInside : area.start < 2 ^ 32) (sizeInside : area.size < 2 ^ 32)
    (scope : 0 < pageCount ∧ pageCount < 2 ^ 31) (guarded : AllocGuard area state (.alloc pageCount)) :
    ∃ result after, allocCall state (.alloc pageCount) = some (result, after) ∧
      AllocRight area state (.alloc pageCount) result after ∧ AllocAgree area after := by
  have some : 0 < pageCount.toNat := by omega
  have fails (noFree : ∀ offset, ¬ FreeAt area state.live offset pageCount.toNat)
      (nothing : allocRun state.alloc pageCount = (failed, state.alloc)) :
      ∃ result after, allocCall state (.alloc pageCount) = .some (result, after) ∧
        AllocRight area state (.alloc pageCount) result after ∧ AllocAgree area after := by
    refine ⟨failed, state, ?_, ?_, agree⟩
    · rw [allocCall, nothing]
      rfl
    · exact ⟨fun isRange => absurd rfl isRange, fun _ => noFree⟩
  rcases guarded with ⟨fits, first, lowest, small, isRange⟩ | ⟨noFree, tooFew⟩
  · obtain ⟨inside, -⟩ := (agree.freeAt_iff positive).mp lowest.free
    have found := agree.scan_lowest positive fits some lowest
    have taken := agree.allocRun_found positive startInside sizeInside scope found small (by omega)
    have isFirst := @offset_page area first startInside sizeInside (by omega)
    have called : allocCall state (.alloc pageCount) =
        .some ((area.start + first * area.pageSize) % 2 ^ 32,
          ⟨{ state.alloc with
              bitmap := setBits state.alloc.bitmap first pageCount.toNat true },
            ⟨(area.start + first * area.pageSize) % 2 ^ 32, pageCount.toNat⟩ :: state.live⟩) := by
      rw [allocCall, taken]
      simp only [if_neg isRange]
    refine ⟨_, _, called, ⟨fun _ => ?_, fun isFailed => absurd isFailed isRange⟩, ?_⟩
    · rw [isFirst]
      exact lowest.free
    · exact agree.taken positive some isFirst lowest.free
  · rcases agree.bytes_cases sizeInside with fits | ⟨empty, short⟩
    · have atEnd := agree.scan_atEnd positive fits some noFree
      split at atEnd
      · exact fails noFree (allocRun_missing scope atEnd)
      · have large : 2 ^ 31 ≤ area.pages - trailing state.alloc.bitmap area.pages := by omega
        have small : area.pages < 2 ^ 32 := Nat.lt_of_le_of_lt (Nat.div_le_self _ _) sizeInside
        exact fails noFree (allocRun_large scope atEnd large (by omega))
    · exact fails noFree (allocRun_missing scope (scan_empty empty some))

theorem AllocAgree.alloc_guard (agree : AllocAgree area state) (positive : 0 < area.pageSize)
    (startInside : area.start < 2 ^ 32) (sizeInside : area.size < 2 ^ 32)
    (noError : ∀ idx ≤ area.pages, (area.start + idx * area.pageSize) % 2 ^ 32 ≠ failed)
    (scope : 0 < pageCount ∧ pageCount < 2 ^ 31)
    (called : allocCall state (.alloc pageCount) = some (result, after))
    (right : AllocRight area state (.alloc pageCount) result after) :
    AllocGuard area state (.alloc pageCount) := by
  have some : 0 < pageCount.toNat := by omega
  have resultEq : (allocRun state.alloc pageCount).1 = result := by
    cases called
    rfl
  have pagesSmall : area.pages < 2 ^ 32 :=
    Nat.lt_of_le_of_lt (Nat.div_le_self _ _) sizeInside
  by_cases free : ∃ offset, FreeAt area state.live offset pageCount.toNat
  · left
    have fails : result ≠ failed := by
      intro isFailed
      obtain ⟨offset, isFree⟩ := free
      exact right.2 isFailed offset isFree
    rcases agree.bytes_cases sizeInside with fits | ⟨empty, short⟩
    · refine ⟨fits, ?_⟩
      have pageFree : ∃ first, FreeAt area state.live (first * area.pageSize) pageCount.toNat := by
        obtain ⟨offset, isFree⟩ := free
        exact ⟨_, agree.freeAt_page positive some isFree⟩
      classical
      have lowest : LowestFree area state.live pageCount.toNat (Nat.find pageFree) :=
        ⟨Nat.find_spec pageFree, fun other isFree => Nat.find_min' pageFree isFree⟩
      obtain ⟨inside, -⟩ := (agree.freeAt_iff positive).mp lowest.free
      have found := agree.scan_lowest positive fits some lowest
      refine ⟨_, lowest, ?_, noError _ (by omega)⟩
      by_contra large
      rw [allocRun_large scope found (not_lt.mp large) (by omega)] at resultEq
      exact fails resultEq.symm
    · rw [allocRun_missing scope (scan_empty empty some)] at resultEq
      exact absurd resultEq.symm fails
  · right
    have noFree : ∀ offset, ¬ FreeAt area state.live offset pageCount.toNat :=
      not_exists.mp free
    refine ⟨noFree, ?_⟩
    have isFailed : result = failed := by
      by_contra isRange
      exact noFree _ (right.1 isRange)
    rcases agree.bytes_cases sizeInside with fits | ⟨empty, short⟩
    · right
      have atEnd := agree.scan_atEnd positive fits some noFree
      split at atEnd
      · exact .inl ‹_›
      · right
        by_contra small
        rw [agree.allocRun_found positive startInside sizeInside scope atEnd (not_le.mp small)
          (Nat.sub_le _ _)] at resultEq
        exact noError _ (Nat.sub_le _ _) (resultEq.trans isFailed)
    · exact .inl short

theorem AllocAgree.call_right (agree : AllocAgree area state) (positive : 0 < area.pageSize)
    (startInside : area.start < 2 ^ 32) (sizeInside : area.size < 2 ^ 32)
    (scope : AllocScope state call) (guarded : AllocGuard area state call) :
    ∃ result after, allocCall state call = some (result, after) ∧
      AllocRight area state call result after ∧ AllocAgree area after := by
  cases call with
  | alloc pageCount => exact agree.alloc_right positive startInside sizeInside scope guarded
  | free range => exact ⟨_, _, rfl, trivial, agree.freed positive scope⟩
  | write byteIdx value => exact ⟨_, _, rfl, trivial, agree.written scope⟩

theorem initAddrAllocOn_agree (area : Area) (bits : Nat → BitVec 8) :
    AllocAgree area ⟨initAddrAllocOn bits area.start area.size area.pageSize, []⟩ := by
  constructor
  · rfl
  · rfl
  · rfl
  · intro range live
    cases live
  · exact List.Pairwise.nil
  · intro idx inside
    have clear : (initAddrAllocOn bits area.start area.size area.pageSize).bitmap.bit idx = false :=
      Bitmap.bit_init _ inside
    change (initAddrAllocOn bits area.start area.size area.pageSize).bitmap.bit idx = true ↔ _
    rw [clear]
    refine iff_of_false Bool.false_ne_true ?_
    rintro ⟨range, live, -⟩
    cases live

/-- For every area and every sequence of calls with matching releases, whatever lies behind the
bitmap: all calls are right when every allocation is guarded and, unless the error value is
the address of a page, only then. -/
theorem addrAlloc_right (area : Area) (bits : Nat → BitVec 8) (positive : 0 < area.pageSize)
    (startInside : area.start < 2 ^ 32) (sizeInside : area.size < 2 ^ 32) (calls : List AllocCall)
    (within : AllGuarded allocCall AllocScope
      ⟨initAddrAllocOn bits area.start area.size area.pageSize, []⟩ calls) :
    (AllGuarded allocCall (AllocGuard area)
        ⟨initAddrAllocOn bits area.start area.size area.pageSize, []⟩ calls →
      AllRight allocCall (fun _ => True) (AllocRight area)
        ⟨initAddrAllocOn bits area.start area.size area.pageSize, []⟩ calls) ∧
    ((∀ idx ≤ area.pages, (area.start + idx * area.pageSize) % 2 ^ 32 ≠ failed) →
      AllRight allocCall (fun _ => True) (AllocRight area)
        ⟨initAddrAllocOn bits area.start area.size area.pageSize, []⟩ calls →
      AllGuarded allocCall (AllocGuard area)
        ⟨initAddrAllocOn bits area.start area.size area.pageSize, []⟩ calls) := by
  have agree := initAddrAllocOn_agree area bits
  constructor
  · intro guarded
    refine allRight_of_allGuarded (AllocAgree area) (fun _ => trivial) ?_ calls agree
      (within.and calls guarded)
    intro state call holds both
    exact holds.call_right positive startInside sizeInside both.1 both.2
  · intro noError allRight
    refine (allRight_iff_allGuarded_within (AllocAgree area) ?_ ?_ calls agree trivial
      within).mp allRight
    · intro state call holds _ scope guarded
      obtain ⟨result, after, called, right, afterHolds⟩ :=
        holds.call_right positive startInside sizeInside scope guarded
      exact ⟨result, after, called, right, trivial, afterHolds⟩
    · intro state call result after holds _ scope called right _
      cases call with
      | alloc pageCount =>
          exact holds.alloc_guard positive startInside sizeInside noError scope called right
      | free range => trivial
      | write byteIdx value => trivial

end Calls

section Used

variable {area : Area} {btm : Bitmap}

theorem visit_count (bits : List Nat) (used : UInt32) :
    btm.visit countMemUsedVisitor bits used = used + UInt32.ofNat (bits.countP btm.bit) := by
  induction bits generalizing used with
  | nil => exact (UInt32.add_zero used).symm
  | cons idxBit bits ih =>
      rw [Bitmap.visit, countMemUsedVisitor, Bitmap.scanTest_eq_bit]
      dsimp only
      rw [if_pos rfl, ih, List.countP_cons, UInt32.ofNat_add]
      split
      · rw [UInt32.add_assoc, UInt32.add_comm 1]
        rfl
      · simp

/-- The bytes that are passed over have no bit set. -/
theorem visited_count (bytes : Nat) :
    ((List.range bytes).flatMap (btm.visited 1)).countP btm.bit =
      Nat.count (fun idx => btm.bit idx = true) (bytes * 8) := by
  induction bytes with
  | zero => rfl
  | succ bytes ih =>
      rw [List.range_succ, List.flatMap_append, List.countP_append, ih, Nat.succ_mul,
        Nat.count_add, List.flatMap_singleton, Bitmap.visited]
      apply Nat.add_left_cancel_iff.mpr
      split
      next =>
        rw [List.countP_map, Nat.count]
        simp only [Bool.decide_eq_true, Function.comp_def]
      next passed =>
        have zero : btm.bits bytes = 0 := by
          apply BitVec.eq_of_toNat_eq
          simpa [BitVec.lt_def] using passed
        refine (Nat.count_iff_forall_not.mpr fun idx inside => ?_).symm
        rw [Bitmap.bit, show (bytes * 8 + idx) / 8 = bytes by omega, zero]
        simp

/-- As many pages are covered as the disjoint ranges have. -/
theorem card_covered (positive : 0 < area.pageSize) {pages : Finset Nat} {live : List AddrRange}
    (disjoint : live.Pairwise fun range other =>
      ∀ byte, range.Covers area byte → ¬ other.Covers area byte)
    (ranges : ∀ range ∈ live, ∃ first, area.offset range.addr = first * area.pageSize ∧
      0 < range.pageCount ∧ first + range.pageCount ≤ area.pages)
    (covered : ∀ idx, idx ∈ pages ↔ ∃ range ∈ live, range.Covers area (idx * area.pageSize)) :
    pages.card = (live.map AddrRange.pageCount).sum := by
  induction live generalizing pages with
  | nil =>
      refine Finset.card_eq_zero.mpr (Finset.eq_empty_iff_forall_notMem.mpr fun idx member => ?_)
      obtain ⟨_, isLive, -⟩ := (covered idx).mp member
      cases isLive
  | cons range live ih =>
      obtain ⟨apart, rest⟩ := List.pairwise_cons.mp disjoint
      obtain ⟨first, isFirst, -⟩ := ranges range List.mem_cons_self
      let own := Finset.Ico first (first + range.pageCount)
      have mem_own (idx : Nat) : idx ∈ own ↔ range.Covers area (idx * area.pageSize) := by
        rw [covers_iff positive isFirst, Nat.mul_div_cancel _ positive, Finset.mem_Ico]
      have inPages : own ⊆ pages := fun idx isOwn =>
        (covered idx).mpr ⟨range, List.mem_cons_self, (mem_own idx).mp isOwn⟩
      have later : (pages \ own).card = (live.map AddrRange.pageCount).sum := by
        refine ih rest (fun other member => ranges other (List.mem_cons_of_mem _ member)) ?_
        intro idx
        rw [Finset.mem_sdiff, covered, mem_own, List.exists_mem_cons_iff]
        constructor
        · exact fun both => both.1.resolve_left both.2
        · rintro ⟨other, member, covers⟩
          exact ⟨.inr ⟨other, member, covers⟩, fun isOwn => apart other member _ isOwn covers⟩
      rw [← Finset.card_sdiff_add_card_eq_card inPages, later, Nat.card_Ico,
        Nat.add_sub_cancel_left, List.map_cons, List.sum_cons, Nat.add_comm]

theorem AllocAgree.toNat_countMemUsed {state : AllocRanges} (agree : AllocAgree area state)
    (positive : 0 < area.pageSize) (small : area.pages + 7 < 2 ^ 31) :
    (countMemUsed state.alloc).toNat = (state.live.map AddrRange.pageCount).sum := by
  have bytes := agree.bytes
  have atMost := @Nat.count_le (fun idx => state.alloc.bitmap.bit idx = true) _
    (state.alloc.bitmap.bytesLen * 8)
  rw [countMemUsed, Bitmap.foreach, visit_count, visited_count, UInt32.zero_add,
    UInt32.toNat_ofNat_of_lt' (by show _ < 4294967296; omega), Nat.count_eq_card_filter_range]
  refine card_covered positive agree.disjoint agree.ranges fun idx => ?_
  rw [Finset.mem_filter, Finset.mem_range]
  constructor
  · exact fun both => (agree.bits idx both.1).mp both.2
  · rintro ⟨range, live, covers⟩
    obtain ⟨first, isFirst, -, fits⟩ := agree.ranges range live
    have inside := covers
    rw [covers_iff positive isFirst, Nat.mul_div_cancel _ positive] at inside
    have inBits : idx < state.alloc.bitmap.bytesLen * 8 := by omega
    exact ⟨inBits, (agree.bits idx inBits).mpr ⟨range, live, covers⟩⟩

/-- After every call, `count_mem_used` gives the pages of the ranges that were returned and are not
freed. -/
theorem countMemUsed_live (area : Area) (bits : Nat → BitVec 8) (positive : 0 < area.pageSize)
    (startInside : area.start < 2 ^ 32) (sizeInside : area.size < 2 ^ 32)
    (small : area.pages + 7 < 2 ^ 31) (calls : List AllocCall)
    (within : AllGuarded allocCall AllocScope
      ⟨initAddrAllocOn bits area.start area.size area.pageSize, []⟩ calls)
    (guarded : AllGuarded allocCall (AllocGuard area)
      ⟨initAddrAllocOn bits area.start area.size area.pageSize, []⟩ calls) :
    AllGood allocCall
      (fun state => (countMemUsed state.alloc).toNat =
        (state.live.map AddrRange.pageCount).sum)
      ⟨initAddrAllocOn bits area.start area.size area.pageSize, []⟩ calls := by
  have agrees := allGood_of_allGuarded
    (fun {state call result after} (agree : AllocAgree area state)
      (allowed : AllocScope state call ∧ AllocGuard area state call)
      (called : allocCall state call = some (result, after)) => by
        obtain ⟨_, _, again, _, afterAgree⟩ :=
          agree.call_right positive startInside sizeInside allowed.1 allowed.2
        cases called.symm.trans again
        exact afterAgree)
    calls (initAddrAllocOn_agree area bits) (within.and calls guarded)
  exact agrees.mono (fun agree => agree.toNat_countMemUsed positive small) calls

end Used

/-- Three pages, with nothing else in the memory behind `bits`. -/
def threePages : Area :=
  ⟨0x300000, 0x3000, 0x1000⟩

theorem addrAlloc_right_two :
    0 < threePages.pageSize ∧ threePages.start < 2 ^ 32 ∧ threePages.size < 2 ^ 32 ∧
      AllGuarded allocCall AllocScope
        ⟨initAddrAllocOn (fun _ => 0) 0x300000 0x3000 0x1000, []⟩ [.alloc 2] ∧
      AllRight allocCall (fun _ => True) (AllocRight threePages)
        ⟨initAddrAllocOn (fun _ => 0) 0x300000 0x3000 0x1000, []⟩ [.alloc 2] := by
  have within : AllGuarded allocCall AllocScope
      ⟨initAddrAllocOn (fun _ => 0) 0x300000 0x3000 0x1000, []⟩ [.alloc 2] :=
    ⟨⟨by decide, by decide⟩, fun _ _ _ => trivial⟩
  have free : FreeAt threePages [] (0 * threePages.pageSize) (2 : Int).toNat := by
    refine ⟨by decide, ?_⟩
    intro range live
    cases live
  refine ⟨by decide, by decide, by decide, within, ?_⟩
  apply (addrAlloc_right threePages (fun _ => 0) (by decide) (by decide) (by decide) _ within).1
  refine ⟨.inl ⟨by decide, 0, ⟨free, fun _ _ => Nat.zero_le _⟩, by decide, by decide⟩, ?_⟩
  exact fun _ _ _ => trivial

theorem countMemUsed_live_two :
    AllGood allocCall
      (fun state => (countMemUsed state.alloc).toNat = (state.live.map AddrRange.pageCount).sum)
      ⟨initAddrAllocOn (fun _ => 0) 0x300000 0x3000 0x1000, []⟩ [.alloc 2] := by
  refine countMemUsed_live threePages _ (by decide) (by decide) (by decide) (by decide) _
    ⟨⟨by decide, by decide⟩, fun _ _ _ => trivial⟩ ⟨.inl ⟨by decide, 0, ?_⟩, fun _ _ _ => trivial⟩
  exact ⟨⟨⟨by decide, by simp⟩, fun _ _ => Nat.zero_le _⟩, by decide, by decide⟩

/-- Four pages are found in an area of three. -/
theorem fourth_page_found :
    AllGuarded allocCall AllocScope
        ⟨initAddrAllocOn (fun _ => 0) 0x300000 0x3000 0x1000, []⟩ [.alloc 4] ∧
      (allocCall ⟨initAddrAllocOn (fun _ => 0) 0x300000 0x3000 0x1000, []⟩ (.alloc 4)).map
          Prod.fst = some 0x300000 ∧
      ¬ AllRight allocCall (fun _ => True) (AllocRight threePages)
        ⟨initAddrAllocOn (fun _ => 0) 0x300000 0x3000 0x1000, []⟩ [.alloc 4] := by
  have found : (allocCall ⟨initAddrAllocOn (fun _ => 0) 0x300000 0x3000 0x1000, []⟩
      (.alloc 4)).map Prod.fst = some 0x300000 := by
    decide
  refine ⟨⟨⟨by decide, by decide⟩, fun _ _ _ => trivial⟩, found, ?_⟩
  rintro ⟨-, result, after, called, right, -⟩
  rw [called] at found
  obtain rfl : result = 0x300000 := Option.some.inj found
  have inside := (right.1 (by decide)).1
  revert inside
  decide

end CleanOS.Memory
