import CleanOS.Common.Bitmap
import Mathlib.Algebra.Group.Int.Defs
import Mathlib.Algebra.Group.Nat.Defs

/-!
# Paging

The part of `kernel/memory/paging.c` that gives pages to user address spaces.  Addresses
are 32-bit values.  A failed allocation returns `-1`, which as an unsigned value is never
less than zero, so that the tests for it in the source are never taken.
-/

namespace CleanOS.Memory

open CleanOS.Common

/-- `-1` as an address. -/
abbrev failed : Nat := 0xffffffff

/-- `MEM_PAGE_SIZE`. -/
abbrev memPageSize : Nat := 4096

/-- `MALLOC_MAX_PAGE`. -/
abbrev mallocMaxPage : Int := 1024

/-- `addr_alloc_t_`. -/
structure AddrAlloc where
  start : Nat
  pageSize : Nat
  bitmap : Bitmap

/-- The loop of `alloc_mem_use`. -/
def setBits (btm : Bitmap) (bitIdx : Nat) : Nat → Bool → Bitmap
  | 0, _ => btm
  | count + 1, use => setBits (btm.set bitIdx use) (bitIdx + 1) count use

/-- `alloc_mem_use`. -/
def allocMemUse (alloc : AddrAlloc) (addr : Nat) (pageCount : Int) (use : Bool) : AddrAlloc :=
  let bitIdx := (addr + 2 ^ 32 - alloc.start) % 2 ^ 32 / alloc.pageSize
  { alloc with bitmap := setBits alloc.bitmap bitIdx pageCount.toNat use }

def allocRange (alloc : AddrAlloc) (pageCount : Int) : Nat × AddrAlloc :=
  let bitIdx := alloc.bitmap.scan (pageCount % 2 ^ 32).toNat
  if bitIdx < 0 then (failed, alloc)
  else
    let addr := (alloc.start + bitIdx.toNat * alloc.pageSize) % 2 ^ 32
    (addr, allocMemUse alloc addr pageCount true)

/-- `alloc_phy_mem`. -/
def allocPhyMem (alloc : AddrAlloc) (pageCount : Int) : Nat × AddrAlloc :=
  allocRange alloc pageCount

/-- `alloc_vir_mem`. -/
def allocVirMem (alloc : AddrAlloc) (pageCount : Int) : Nat × AddrAlloc :=
  allocRange alloc pageCount

/-- `free_vir_mem`. -/
def freeVirMem (alloc : AddrAlloc) (vaddr : Nat) (pageCount : Int) : AddrAlloc :=
  allocMemUse alloc vaddr pageCount false

/-- The loop of `alloc_mem_page` and `alloc_phy_mem_page`: frames are taken one by one. -/
def allocPages (alloc : AddrAlloc) : Nat → List Nat × AddrAlloc
  | 0 => ([], alloc)
  | count + 1 =>
      let (paddr, alloc) := allocPhyMem alloc 1
      let (paddrs, alloc) := allocPages alloc count
      (paddr :: paddrs, alloc)

/-- What a call of `alloc_mem_page` gives. -/
structure AllocatedPages where
  vaddr : Nat
  paddrs : List Nat
  vir : AddrAlloc
  phy : AddrAlloc

/-- `alloc_mem_page`. -/
def allocMemPage (vir phy : AddrAlloc) (pageCount : Int) : AllocatedPages :=
  let (vaddr, vir) := allocVirMem vir pageCount
  let (paddrs, phy) := allocPages phy pageCount.toNat
  ⟨vaddr, paddrs, vir, phy⟩

/-- `pde_index`. -/
def pdeIndex (vaddr : Nat) : Nat :=
  vaddr / 2 ^ 22

/-- `pte_index`. -/
def pteIndex (vaddr : Nat) : Nat :=
  vaddr / 2 ^ 12 % 1024

/-- The bit `present` of a directory or table entry. -/
def present (entry : Nat) : Bool :=
  entry % 2 = 1

/-- `pe_phy_addr` of the address field of an entry. -/
def pePhyAddr (entry : Nat) : Nat :=
  entry / 2 ^ 12 * 2 ^ 12

/-- `down2` to a page boundary. -/
def down2 (addr : Nat) : Nat :=
  addr - addr % memPageSize

/-- The memory that holds directories and tables, by page address and entry. -/
abbrev Words := Nat → Nat → Nat

def setWord (words : Words) (page idx value : Nat) : Words := fun other otherIdx =>
  if other = page ∧ otherIdx = idx then value else words other otherIdx

/-- `memset` of a page to zero. -/
def clearPage (words : Words) (page : Nat) : Words := fun other idx =>
  if other = page then 0 else words other idx

/-- `kernel_phy_addr_alloc`, `kernel_vir_addr_alloc`, `user_phy_addr_alloc`, and the memory
of directories and tables. -/
structure MemState where
  kernelPhy : AddrAlloc
  kernelVir : AddrAlloc
  userPhy : AddrAlloc
  words : Words

/-- `free_phy_mem`, with `get_phy_addr_alloc`. -/
def freePhyMem (mem : MemState) (paddr : Nat) (pageCount : Int) : MemState :=
  if paddr < mem.userPhy.start then
    { mem with kernelPhy := allocMemUse mem.kernelPhy paddr pageCount false }
  else { mem with userPhy := allocMemUse mem.userPhy paddr pageCount false }

/-- `alloc_kernel_mem`: `malloc_mem` for the kernel, which maps nothing. -/
def allocKernelMem (mem : MemState) (pageCount : Int) : Nat × MemState :=
  if pageCount > mallocMaxPage then (failed, mem)
  else
    let pages := allocMemPage mem.kernelVir mem.kernelPhy pageCount
    (pages.vaddr, { mem with kernelVir := pages.vir, kernelPhy := pages.phy })

/-- `get_pte`: the table and the index of an entry. -/
def getPte (words : Words) (pageDir vaddr : Nat) : Option (Nat × Nat) :=
  if pageDir = 0 then none
  else
    let pde := words pageDir (pdeIndex vaddr)
    if ¬ present pde then none
    else if pePhyAddr pde = 0 then none
    else some (pePhyAddr pde, pteIndex vaddr)

/-- `vaddr2paddr`; the offset inside the page is masked with `0x3ff`. -/
def vaddr2paddr (words : Words) (pageDir vaddr : Nat) : Option Nat :=
  match getPte words pageDir vaddr with
  | none => none
  | some (table, idx) =>
      if present (words table idx) then some (pePhyAddr (words table idx) + vaddr % 1024)
      else none

/-- `find_pte_alloc` with `alloc` set.  Without a free kernel page the new table would lie
at the last byte of memory. -/
def findPteAlloc (mem : MemState) (pageDir vaddr : Nat) : Option ((Nat × Nat) × MemState) :=
  let pde := mem.words pageDir (pdeIndex vaddr)
  if present pde then some ((pePhyAddr pde, pteIndex vaddr), mem)
  else
    let (addr, mem) := allocKernelMem mem 1
    if addr = failed then none
    else
      let words := clearPage (setWord mem.words pageDir (pdeIndex vaddr) (addr ||| 7)) addr
      some ((addr, pteIndex vaddr), { mem with words := words })

/-- `create_mem_map`, with the result zero or `-1`. -/
def createMemMap (pageDir perm : Nat) :
    MemState → Nat → Nat → Nat → Option (Int × MemState)
  | mem, _, _, 0 => some (0, mem)
  | mem, vaddr, paddr, count + 1 => do
      let ((table, idx), mem) ← findPteAlloc mem pageDir vaddr
      if present (mem.words table idx) then some (-1, mem)
      else
        let mem := { mem with words := setWord mem.words table idx (paddr ||| perm ||| 1) }
        createMemMap pageDir perm mem ((vaddr + memPageSize) % 2 ^ 32)
          ((paddr + memPageSize) % 2 ^ 32) count

/-- The permissions of a page of a user address space: `PTE_W | PTE_U`. -/
abbrev userPermit : Nat := 6

/-- The loop of `map_mem` for a user address space; `true` when every page is mapped. -/
def mapMemLoop (pageDir : Nat) (override : Bool) :
    MemState → Nat → Nat → Nat → Option (Bool × MemState)
  | mem, _, _, 0 => some (true, mem)
  | mem, vaddr, paddr, count + 1 =>
      if (vaddr2paddr mem.words pageDir vaddr).isSome ∧ ¬ override then some (false, mem)
      else do
        let (err, mem) ← createMemMap pageDir userPermit mem vaddr paddr 1
        if err ≠ 0 then some (false, mem)
        else
          mapMemLoop pageDir override mem ((vaddr + memPageSize) % 2 ^ 32)
            ((paddr + memPageSize) % 2 ^ 32) count

/-- `map_mem` for a user address space. -/
def mapMem (mem : MemState) (pageDir vaddr paddr : Nat) (pageCount : Int) (override : Bool) :
    Option (Nat × MemState) := do
  let (mapped, mem) ← mapMemLoop pageDir override mem (down2 vaddr) (down2 paddr)
    pageCount.toNat
  some (if mapped then down2 vaddr else failed, mem)

/-- The loop of `map_mem_page`.  The result of `map_mem` is tested with `addr < 0`.  A table
that is allocated meanwhile overwrites the first of the global `paddrs`, which is read by
then. -/
def mapMemPageLoop (pageDir : Nat) (override : Bool) :
    MemState → Nat → List Nat → Option MemState
  | mem, _, [] => some mem
  | mem, vaddr, paddr :: paddrs => do
      let (_, mem) ← mapMem mem pageDir vaddr paddr 1 override
      mapMemPageLoop pageDir override mem ((vaddr + memPageSize) % 2 ^ 32) paddrs

/-- `map_mem_page` of at most `MALLOC_MAX_PAGE` pages. -/
def mapMemPage (mem : MemState) (pageDir vaddr : Nat) (paddrs : List Nat) (override : Bool) :
    Option (Nat × MemState) := do
  let mem ← mapMemPageLoop pageDir override mem (down2 vaddr) paddrs
  some (down2 vaddr, mem)

/-- A user address space: its page directory and its `vir_addr_alloc`. -/
structure Space where
  pageDir : Nat
  vir : AddrAlloc

/-- `malloc_mem` for a user address space. -/
def mallocMem (mem : MemState) (space : Space) (pageCount : Int) :
    Option (Nat × Space × MemState) :=
  if pageCount > mallocMaxPage then some (failed, space, mem)
  else do
    let pages := allocMemPage space.vir mem.userPhy pageCount
    let (vaddr, mem) ← mapMemPage { mem with userPhy := pages.phy } space.pageDir pages.vaddr
      pages.paddrs true
    some (vaddr, { space with vir := pages.vir }, mem)

/-- The loop of `malloc_mem_vaddr` over the entries of a range: whether one is present. -/
def anyPresent (words : Words) (pageDir : Nat) : Nat → Nat → Bool
  | _, 0 => false
  | vaddr, count + 1 =>
      (match getPte words pageDir vaddr with
        | none => false
        | some (table, idx) => present (words table idx)) ||
      anyPresent words pageDir ((vaddr + memPageSize) % 2 ^ 32) count

/-- `malloc_mem_vaddr` for a user address space. -/
def mallocMemVaddr (mem : MemState) (space : Space) (vaddr : Nat) (pageCount : Int) :
    Option (Nat × Space × MemState) :=
  let vaddr := down2 vaddr
  if anyPresent mem.words space.pageDir vaddr pageCount.toNat then some (failed, space, mem)
  else if pageCount > mallocMaxPage then some (failed, space, mem)
  else do
    let (paddrs, userPhy) := allocPages mem.userPhy pageCount.toNat
    let vir := allocMemUse space.vir vaddr pageCount true
    let (vaddr, mem) ← mapMemPage { mem with userPhy := userPhy } space.pageDir vaddr paddrs true
    some (vaddr, { space with vir := vir }, mem)

/-- `unalloc_mem`, with the result zero or `-1`. -/
def unallocMem (mem : MemState) (space : Space) (vaddr : Nat) (pageCount : Int) :
    Int × Space × MemState :=
  match vaddr2paddr mem.words space.pageDir vaddr with
  | none => (-1, space, mem)
  | some paddr =>
      (0, { space with vir := freeVirMem space.vir vaddr pageCount },
        freePhyMem mem paddr pageCount)

/-- The loop of `unmap_mem`: the bit `present` of each entry is reset. -/
def unmapMemLoop (pageDir : Nat) : Words → Nat → Nat → Words
  | words, _, 0 => words
  | words, vaddr, count + 1 =>
      let pde := words pageDir (pdeIndex vaddr)
      let words :=
        if present pde then
          let table := pePhyAddr pde
          let idx := pteIndex vaddr
          setWord words table idx (words table idx / 2 * 2)
        else words
      unmapMemLoop pageDir words ((vaddr + memPageSize) % 2 ^ 32) count

/-- `unmap_mem`. -/
def unmapMem (mem : MemState) (pageDir vaddr : Nat) (pageCount : Int) : MemState :=
  { mem with words := unmapMemLoop pageDir mem.words (down2 vaddr) pageCount.toNat }

/-- `unmalloc_mem` for a user address space. -/
def unmallocMem (mem : MemState) (space : Space) (vaddr : Nat) (pageCount : Int) :
    Int × Space × MemState :=
  let (err, space, mem) := unallocMem mem space vaddr pageCount
  if err ≠ 0 then (err, space, mem)
  else (0, space, unmapMem mem space.pageDir vaddr pageCount)

end CleanOS.Memory
