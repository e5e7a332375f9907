import CleanOS.Memory.OutOfMemory

/-!
# Loading a program

`load_elf` of `kernel/thread/execve.c` and `process_mmap` of `kernel/thread/process.c`.  The
file lies in a buffer of the kernel, and its segments are mapped, copied and cleared through the
page directory of the process that is replaced.
-/

namespace CleanOS.Memory

open CleanOS.Common

/-- A half word of the file, at a distance from `file_buffer`. -/
def elfHalf (file : Nat → UInt8) (offset : Nat) : Nat :=
  (file (offset % 2 ^ 32)).toNat + (file ((offset + 1) % 2 ^ 32)).toNat * 2 ^ 8

def elfWord (file : Nat → UInt8) (offset : Nat) : Nat :=
  elfHalf file offset + elfHalf file (offset + 2) * 2 ^ 16

/-- `Elf32_Phdr`, without the flags and the alignment, which nothing reads. -/
structure Phdr where
  pType : Nat
  pOffset : Nat
  pVaddr : Nat
  pPaddr : Nat
  pFilesz : Nat
  pMemsz : Nat
deriving DecidableEq

/-- `PT_LOAD`. -/
abbrev ptLoad : Nat := 1

/-- `e_ident` starts with `ELF_MAGIC` and the letters. -/
def hasElfMagic (file : Nat → UInt8) : Bool :=
  file 0 = 0x7f && file 1 = 0x45 && file 2 = 0x4c && file 3 = 0x46

/-- `e_entry`. -/
def eEntry (file : Nat → UInt8) : Nat :=
  elfWord file 24

/-- `e_phoff`. -/
def ePhoff (file : Nat → UInt8) : Nat :=
  elfWord file 28

/-- `e_phnum`. -/
def ePhnum (file : Nat → UInt8) : Nat :=
  elfHalf file 44

def readPhdr (file : Nat → UInt8) (i : Nat) : Phdr :=
  let base := ePhoff file + i * 32
  { pType := elfWord file base
    pOffset := elfWord file (base + 4)
    pVaddr := elfWord file (base + 8)
    pPaddr := elfWord file (base + 12)
    pFilesz := elfWord file (base + 16)
    pMemsz := elfWord file (base + 20) }

/-- `alloc_mem_use` of a range sets bits behind the end of the bitmap. -/
def AddrAlloc.pastEnd (alloc : AddrAlloc) (addr : Nat) (pageCount : Int) : Bool :=
  decide (0 < pageCount ∧
    alloc.pages < (addr + 2 ^ 32 - alloc.start) % 2 ^ 32 / alloc.pageSize + pageCount.toNat)

/-- The memory while a program is loaded: the bytes of the frames by their address, and whether
a byte of the kernel was stored to that is not the loader's.  What such a store does to the
kernel is not followed. -/
structure Loading where
  mem : MemState
  space : Space
  bytes : Nat → UInt8
  strayed : Bool

namespace Loading

def paddr (state : Loading) (vaddr : Nat) : Option Nat :=
  (translate state.mem.words state.space.pageDir vaddr).map (· + vaddr % memPageSize)

def load (state : Loading) (vaddr : Nat) : Option UInt8 :=
  (state.paddr vaddr).map state.bytes

def InFrames (state : Loading) (paddr : Nat) : Prop :=
  state.mem.userPhy.start ≤ paddr ∧
    paddr < state.mem.userPhy.start + state.mem.userPhy.pages * memPageSize

instance (state : Loading) : DecidablePred state.InFrames :=
  fun _ => inferInstanceAs (Decidable (_ ∧ _))

/-- A byte is stored; `none` for a page fault.  Below the user area the memory of the kernel is
mapped in every directory.  Where no frame is a store is lost. -/
def store (state : Loading) (vaddr : Nat) (value : UInt8) : Option Loading :=
  if vaddr < state.space.vir.start then some { state with strayed := true }
  else do
    let paddr ← state.paddr vaddr
    if state.InFrames paddr then
      some { state with bytes := Function.update state.bytes paddr value }
    else some state

/-- `process_mmap`, with `malloc_thread_mem_vaddr` and `malloc_thread_mem`; zero stands for
`NULL`. -/
def processMmap (state : Loading) (kernelPageDir addr length : Nat) : Option (Nat × Loading) :=
  let pageCount : Int := up2 length memPageSize / memPageSize
  if 0 < addr then
    if state.space.vir.start ≤ addr then do
      let (vaddr, space, mem) ← mallocMemVaddr state.mem state.space addr pageCount
      if vaddr = failed then some (0, { state with mem := mem, space := space })
      else
        let past := state.space.vir.pastEnd (down2 addr) pageCount
        some (vaddr, { state with mem := mem, space := space, strayed := state.strayed || past })
    else do
      let (vaddr, _, mem) ←
        memRequest kernelPageDir state.mem .kernel pageCount (.mallocMemVaddr addr)
      if vaddr = failed then some (0, { state with mem := mem })
      else
        let past := state.mem.kernelVir.pastEnd (down2 addr) pageCount
        some (vaddr, { state with mem := mem, strayed := state.strayed || past })
  else do
    let (vaddr, space, mem) ← mallocMem state.mem state.space pageCount
    if vaddr = failed then some (0, { state with mem := mem, space := space })
    else
      let found := (allocVirMem state.space.vir pageCount).1
      let past := decide (found ≠ failed) && state.space.vir.pastEnd found pageCount
      some (vaddr, { state with mem := mem, space := space, strayed := state.strayed || past })

def copyLoop (file : Nat → UInt8) (src dest : Nat) : Nat → Nat → Loading → Option Loading
  | 0, _, state => some state
  | left + 1, j, state => do
      let state ← state.store ((dest + j) % 2 ^ 32) (file ((src + j) % 2 ^ 32))
      copyLoop file src dest left (j + 1) state

def clearLoop : Nat → Nat → Loading → Option Loading
  | 0, _, state => some state
  | left + 1, dest, state => do
      let state ← state.store dest 0
      clearLoop left ((dest + 1) % 2 ^ 32) state

/-- The loop of `load_elf` over the program headers, with the ones left and the index; `false`
when a segment is not mapped. -/
def loadPhdrs (kernelPageDir : Nat) (file : Nat → UInt8) :
    Nat → Nat → Loading → Option (Bool × Loading)
  | 0, _, state => some (true, state)
  | left + 1, i, state =>
      let phdr := readPhdr file i
      if phdr.pType ≠ ptLoad then loadPhdrs kernelPageDir file left (i + 1) state
      else do
        let (vaddr, state) ← state.processMmap kernelPageDir phdr.pVaddr phdr.pMemsz
        if vaddr = 0 then some (false, state)
        else do
          let state ← copyLoop file phdr.pOffset phdr.pVaddr phdr.pFilesz 0 state
          let state ← clearLoop ((phdr.pMemsz + 2 ^ 32 - phdr.pFilesz) % 2 ^ 32)
            ((phdr.pPaddr + phdr.pFilesz) % 2 ^ 32) state
          loadPhdrs kernelPageDir file left (i + 1) state

/-- `load_elf`, with the entry or zero. -/
def loadElf (kernelPageDir : Nat) (file : Nat → UInt8) (state : Loading) :
    Option (Nat × Loading) :=
  if ¬ hasElfMagic file then some (0, state)
  else do
    let (loaded, state) ← loadPhdrs kernelPageDir file (ePhnum file) 0 state
    some (if loaded then eEntry file else 0, state)

end Loading

def segments (file : Nat → UInt8) : List Phdr :=
  ((List.range (ePhnum file)).map (readPhdr file)).filter fun phdr => phdr.pType = ptLoad

namespace Phdr

def Holds (phdr : Phdr) (x : Nat) : Prop :=
  phdr.pVaddr ≤ x ∧ x < phdr.pVaddr + phdr.pMemsz

def InFile (phdr : Phdr) (x : Nat) : Prop :=
  phdr.pVaddr ≤ x ∧ x < phdr.pVaddr + phdr.pFilesz

instance (phdr : Phdr) : DecidablePred phdr.InFile :=
  fun x => inferInstanceAs (Decidable (phdr.pVaddr ≤ x ∧ x < phdr.pVaddr + phdr.pFilesz))

def byteAt (phdr : Phdr) (file : Nat → UInt8) (x : Nat) : UInt8 :=
  file ((phdr.pOffset + (x - phdr.pVaddr)) % 2 ^ 32)

/-- An address that is cleared for the segment: the ones behind the bytes of the file, counted
from `p_paddr` on. -/
def Clears (phdr : Phdr) (x : Nat) : Prop :=
  ∃ k, k < phdr.pMemsz - phdr.pFilesz ∧ x = (phdr.pPaddr + phdr.pFilesz + k) % 2 ^ 32

/-- The pages that `process_mmap` asks for. -/
def pageCount (phdr : Phdr) : Nat :=
  up2 phdr.pMemsz memPageSize / memPageSize

end Phdr

/-- Files whose segments are apart from each other and above the kernel area. -/
structure ElfFile (file : Nat → UInt8) (start : Nat) : Prop where
  above : ∀ phdr ∈ segments file, start ≤ phdr.pVaddr
  below : ∀ phdr ∈ segments file, phdr.pVaddr + phdr.pMemsz ≤ 2 ^ 32
  filesz : ∀ phdr ∈ segments file, phdr.pFilesz ≤ phdr.pMemsz
  apart : (segments file).Pairwise fun first second => ∀ x, first.Holds x → ¬ second.Holds x

/-- Every byte of every segment is mapped, with the byte of the file or zero, and nothing was
stored to outside the pages of the segments. -/
structure ImageRight (file : Nat → UInt8) (before after : Loading) : Prop where
  contents : ∀ phdr ∈ segments file, ∀ x, phdr.Holds x →
    after.load x = some (if phdr.InFile x then phdr.byteAt file x else 0)
  outside : ∀ target, (∀ phdr ∈ segments file, ∀ x y, phdr.Holds x →
      y / memPageSize = x / memPageSize → after.paddr y ≠ some target) →
    after.bytes target = before.bytes target
  kernel : after.strayed = before.strayed

/-- Whenever `load_elf` returns something but zero, from any contents of the memory, the
image is right. -/
def LoadsRight (kernelPageDir : Nat) (file : Nat → UInt8) (mem : MemState) (space : Space) : Prop :=
  ∀ bytes entry after, Loading.loadElf kernelPageDir file ⟨mem, space, bytes, false⟩ =
    some (entry, after) → entry ≠ 0 → ImageRight file ⟨mem, space, bytes, false⟩ after

/-- When it is: the pages of the segments lie in the user area, there is a frame for each, and
the bytes that are cleared, which are counted from `p_paddr` on, are those behind the bytes of
the file, up to bytes that are zero anyway and to the rest of the pages. -/
structure LoadGuard (file : Nat → UInt8) (mem : MemState) (space : Space) : Prop where
  area : ∀ phdr ∈ segments file, 0 < phdr.pageCount →
    phdr.pVaddr / memPageSize + phdr.pageCount ≤ space.vir.start / memPageSize + space.vir.pages
  frames : ((segments file).map Phdr.pageCount).sum ≤ mem.userPhy.clearPages.card
  cleared : ∀ phdr ∈ segments file, ∀ x, phdr.Holds x → ¬ phdr.InFile x →
    ∃ other ∈ segments file, other.Clears x
  kept : ∀ phdr ∈ segments file, ∀ x, phdr.InFile x → phdr.Clears x → phdr.byteAt file x = 0
  keptLater : (segments file).Pairwise fun first second => ∀ x, first.InFile x →
    second.Clears x → first.byteAt file x = 0
  inside : ∀ phdr ∈ segments file, ∀ x, phdr.Clears x →
    ∃ other ∈ segments file, ∃ y, other.Holds y ∧ x / memPageSize = y / memPageSize

end CleanOS.Memory
