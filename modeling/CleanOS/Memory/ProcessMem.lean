import CleanOS.Memory.Paging

/-!
# The memory of a process

`create_uvm` and `init_user_vir_addr_alloc` of `kernel/memory/paging.c`, and
`init_process_mem` and `copy_process_mem` of `kernel/thread/process.c` up to the end of the
copy loop.  Kernel pages are mapped one to one in every directory, so that the kernel reaches
directories, tables and the buffer at their own addresses.  The copy of the task itself, with
its kernel stack, is left out.
-/

namespace CleanOS.Memory

open CleanOS.Common

/-- `init_addr_alloc`. -/
def initAddrAlloc (start size pageSize : Nat) : AddrAlloc :=
  let bitSize := size / pageSize
  { start := start
    pageSize := pageSize
    bitmap := Bitmap.init ⟨(bitSize + 7) / 8, fun _ => 0⟩ }

/-- The loop of `create_uvm` over the shared entries, from the last one on. -/
def sharePdes (kernelPageDir pageDir : Nat) : Nat → Words → Words
  | 0, words => words
  | i + 1, words =>
      let words :=
        if present (words kernelPageDir i) then setWord words pageDir i (words kernelPageDir i)
        else words
      sharePdes kernelPageDir pageDir i words

/-- `create_uvm`.  Without a free kernel page the directory would lie at the last byte of
memory. -/
def createUvm (mem : MemState) (kernelPageDir : Nat) : Option (Nat × MemState) :=
  let (addr, mem) := allocKernelMem mem 1
  if addr = failed then none
  else
    let words := sharePdes kernelPageDir addr (pdeIndex mem.userPhy.start)
      (clearPage mem.words addr)
    some (addr, { mem with words := words })

/-- `init_user_vir_addr_alloc`, with `user_all_memory`.  The user area starts where the
frames do. -/
def initUserVirAddrAlloc (mem : MemState) (userAllMemory : Nat) : Option (AddrAlloc × MemState) :=
  let bytesLen := (userAllMemory / memPageSize + 7) / 8
  let bitmapPgCnt := (bytesLen + memPageSize - 1) / memPageSize
  let (bits, mem) := allocKernelMem mem bitmapPgCnt
  if bits = failed then none
  else some (initAddrAlloc mem.userPhy.start userAllMemory memPageSize, mem)

/-- `init_process_mem`. -/
def initProcessMem (mem : MemState) (kernelPageDir userAllMemory : Nat) :
    Option (Space × MemState) := do
  let (pageDir, mem) ← createUvm mem kernelPageDir
  let (vir, mem) ← initUserVirAddrAlloc mem userAllMemory
  some (⟨pageDir, vir⟩, mem)

/-- The page that a user address lies in, as the processor finds it, unless it raises a page
fault. -/
def translate (words : Words) (cr3 vaddr : Nat) : Option Nat :=
  let pde := words cr3 (pdeIndex vaddr)
  if ¬ present pde then none
  else
    let pte := words (pePhyAddr pde) (pteIndex vaddr)
    if ¬ present pte then none else some (pePhyAddr pte)

/-- `memcpy` of the first bytes of a page, as words. -/
def copyWords (words : Words) (dest src size : Nat) : Words := fun page idx =>
  if page = dest ∧ idx < size / 4 then words src idx else words page idx

/-- The memory, the register with the page directory, and the address space of the child. -/
structure CopyState where
  mem : MemState
  cr3 : Nat
  dest : Space

/-- A page is copied through the buffer, out of and into the pages that the current directory
maps the address to.  A failed allocation would give the last byte of memory. -/
def copyBit (src : Space) (buff : Nat) (state : CopyState) (idxBit : Nat) : Option CopyState := do
  let vaddr := (src.vir.start + idxBit * src.vir.pageSize) % 2 ^ 32
  let dest := { state.dest with
    vir := { state.dest.vir with bitmap := state.dest.vir.bitmap.set idxBit true } }
  let page ← translate state.mem.words state.cr3 vaddr
  let mem := { state.mem with words := copyWords state.mem.words buff page src.vir.pageSize }
  let cr3 := dest.pageDir
  let (vaddr, dest, mem) ← mallocMemVaddr mem dest vaddr 1
  if vaddr = failed then none
  else do
    let page ← translate mem.words cr3 vaddr
    some {
      mem := { mem with words := copyWords mem.words page buff dest.vir.pageSize }
      cr3 := src.pageDir
      dest := dest }

def copyBits (src : Space) (buff : Nat) : Nat → Nat → CopyState → Option CopyState
  | _, 0, state => some state
  | idxBit, left + 1, state => do
      let state ← if src.vir.bitmap.scanTest idxBit then copyBit src buff state idxBit
        else some state
      copyBits src buff (idxBit + 1) left state

def copyByte (src : Space) (buff : Nat) (state : CopyState) (idxByte : Nat) : Option CopyState :=
  if src.vir.bitmap.bits idxByte ≠ 0 then copyBits src buff (idxByte * 8) 8 state else some state

def copyBytes (src : Space) (buff : Nat) : Nat → Nat → CopyState → Option CopyState
  | _, 0, state => some state
  | idxByte, left + 1, state => do
      let state ← copyByte src buff state idxByte
      copyBytes src buff (idxByte + 1) left state

/-- `copy_process_mem` before its loop: the address space of the child, and the buffer. -/
def beforeCopy (mem : MemState) (kernelPageDir userAllMemory : Nat) :
    Option (Nat × Space × MemState) := do
  let (dest, mem) ← initProcessMem mem kernelPageDir userAllMemory
  let (buff, mem) := allocKernelMem mem 1
  if buff = failed then none else some (buff, dest, mem)

/-- `copy_process_mem`, with the state after the loop. -/
def copyProcessMem (mem : MemState) (kernelPageDir userAllMemory : Nat) (src : Space) :
    Option CopyState := do
  let (buff, dest, mem) ← beforeCopy mem kernelPageDir userAllMemory
  copyBytes src buff 0 src.vir.bitmap.bytesLen ⟨mem, src.pageDir, dest⟩

end CleanOS.Memory
