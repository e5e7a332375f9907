import Mathlib.Algebra.Group.Nat.Defs
import Mathlib.Algebra.Ring.Int.Defs
import Mathlib.Data.List.Basic
import Mathlib.Logic.Function.Basic

/-!
# Packet buffers

The block chains of `kernel/net/pktbuf.c`, over the fixed pools of
`kernel/net/mblock.c`.  An `nlist_t` is the list of its members; a block is held by
the list it is linked into.  A result `none` stands for a call without a defined
result: a null block is dereferenced, a cursor is used whose block has left the
packet, or memory outside the payload of a block is accessed.
-/

namespace CleanOS.Net

/-- `net_err_t`. -/
inductive NetErr where
  | needWait | ok | param | exist | state | none | size | full | mem | io
  | notSupport | notMatch | checksum | unreach | binded | close | eof | connected
deriving DecidableEq, Repr

/-- The test `err < 0` of the callers. -/
def NetErr.isError : NetErr → Bool
  | .needWait | .ok => false
  | _ => true

/-- `PKTBUF_BLK_SIZE`. -/
abbrev pktbufBlkSize : Int := 64

/-- `PKTBUF_BLK_CNT`. -/
def pktbufBlkCnt : Nat := 100

/-- `PKTBUF_BUF_CNT`. -/
def pktbufBufCnt : Nat := 100

def slice (memory : Nat → UInt8) (start count : Nat) : List UInt8 :=
  (List.range count).map fun i => memory (start + i)

/-- `pktblk_t`: `id` is the index in `block_buffer`, `data` is the difference
`data - payload`. -/
structure Pktblk where
  id : Nat
  size : Int
  data : Int
  payload : Nat → UInt8

namespace Pktblk

def store (blk : Pktblk) (offset : Int) (bytes : List UInt8) : Option Pktblk :=
  if 0 ≤ offset ∧ offset + bytes.length ≤ pktbufBlkSize then
    some { blk with payload := fun i =>
      if i < offset.toNat then blk.payload i
      else bytes[i - offset.toNat]?.getD (blk.payload i) }
  else none

/-- Bytes copied out of the payload at an offset; the count of a `memcpy` is
unsigned, so a negative one is a copy of about four gigabytes. -/
def load (blk : Pktblk) (offset count : Int) : Option (List UInt8) :=
  if 0 ≤ offset ∧ 0 ≤ count ∧ offset + count ≤ pktbufBlkSize then
    some (slice blk.payload offset.toNat count.toNat)
  else none

end Pktblk

/-- `pktbuf_t`.  `currBlk` names the block `curr_blk` points to, `blkOffset` is the
distance of `blk_offset` from the payload of that block. -/
structure Pktbuf where
  totalSize : Int
  blkList : List Pktblk
  ref : Int
  pos : Int
  currBlk : Option Nat
  blkOffset : Int

/-- `total_blk_remain`. -/
def totalBlkRemain (buf : Pktbuf) : Int :=
  buf.totalSize - buf.pos

/-- The block behind `curr_blk`. -/
def currentBlk (buf : Pktbuf) : Option Pktblk :=
  buf.currBlk.bind fun id => buf.blkList.find? fun blk => blk.id = id

/-- `curr_blk_remain`. -/
def currBlkRemain (buf : Pktbuf) : Option Int :=
  match buf.currBlk with
  | none => some 0
  | some _ => (currentBlk buf).map fun blk => blk.data + blk.size - buf.blkOffset

/-- `curr_blk_tail_free`. -/
def currBlkTailFree (blk : Pktblk) : Int :=
  pktbufBlkSize - blk.data - blk.size

/-- `pktbuf_reset_acc`. -/
def pktbufResetAcc (buf : Pktbuf) : Pktbuf :=
  match buf.blkList.head? with
  | none => { buf with pos := 0, currBlk := none, blkOffset := 0 }
  | some blk => { buf with pos := 0, currBlk := some blk.id, blkOffset := blk.data }

/-- The loop of `pktblock_alloc_list`: the size still to be allocated, the chain
built so far and the free list.  A null chain is the empty one. -/
def pktblockAllocLoop (addFront : Bool) :
    Int → List Pktblk → List Pktblk → List Pktblk × List Pktblk
  | size, chain, [] => if size = 0 then (chain, []) else ([], chain)
  | size, chain, block :: free =>
      if size = 0 then (chain, block :: free)
      else
        let currSize := if size > pktbufBlkSize then pktbufBlkSize else size
        if addFront then
          let newBlock := { block with
            size := currSize, data := pktbufBlkSize - currSize }
          pktblockAllocLoop addFront (size - currSize) (newBlock :: chain) free
        else
          let newBlock := { block with size := currSize, data := 0 }
          pktblockAllocLoop addFront (size - currSize) (chain ++ [newBlock]) free

/-- `pktblock_alloc_list`: the new chain and the free list that is left. -/
def pktblockAllocList (size : Int) (addFront : Bool) (free : List Pktblk) :
    List Pktblk × List Pktblk :=
  pktblockAllocLoop addFront size [] free

def blksSize (blks : List Pktblk) : Int :=
  (blks.map Pktblk.size).sum

/-- `pktbuf_insert_blk_list`: the blocks of a chain go to the end, or in their order
to the front. -/
def pktbufInsertBlkList (buf : Pktbuf) (chain : List Pktblk) (addLast : Bool) : Pktbuf :=
  { buf with
    blkList := if addLast then buf.blkList ++ chain else chain ++ buf.blkList
    totalSize := buf.totalSize + blksSize chain }

/-- `pktbuf_add_header`. -/
def pktbufAddHeader (buf : Pktbuf) (size : Int) (cont : Bool) (free : List Pktblk) :
    Option (NetErr × Pktbuf × List Pktblk) :=
  match buf.blkList with
  | [] => none
  | block :: rest =>
      let resvSize := block.data
      if size ≤ resvSize then
        let block := { block with size := block.size + size, data := block.data - size }
        some (.ok, { buf with
          blkList := block :: rest, totalSize := buf.totalSize + size }, free)
      else if cont then
        if size > pktbufBlkSize then some (.none, buf, free)
        else
          match pktblockAllocList size true free with
          | ([], free) => some (.none, buf, free)
          | (chain, free) => some (.ok, pktbufInsertBlkList buf chain false, free)
      else
        let block := { block with data := 0, size := block.size + resvSize }
        let buf := { buf with
          blkList := block :: rest, totalSize := buf.totalSize + resvSize }
        match pktblockAllocList (size - resvSize) true free with
        | ([], free) => some (.none, buf, free)
        | (chain, free) => some (.ok, pktbufInsertBlkList buf chain false, free)

/-- The loop of `pktbuf_remove_header`: the size still to be removed, the total size,
the blocks and the free list. -/
def removeHeaderLoop : Int → Int → List Pktblk → List Pktblk →
    Option (Int × List Pktblk × List Pktblk)
  | size, total, [], free => if size = 0 then some (total, [], free) else none
  | size, total, block :: rest, free =>
      if size = 0 then some (total, block :: rest, free)
      else if size < block.size then
        let block := { block with data := block.data + size, size := block.size - size }
        some (total - size, block :: rest, free)
      else removeHeaderLoop (size - block.size) (total - block.size) rest (free ++ [block])

/-- `pktbuf_remove_header`. -/
def pktbufRemoveHeader (buf : Pktbuf) (size : Int) (free : List Pktblk) :
    Option (NetErr × Pktbuf × List Pktblk) := do
  let (total, blks, free) ← removeHeaderLoop size buf.totalSize buf.blkList free
  some (.ok, { buf with totalSize := total, blkList := blks }, free)

/-- The search for the last block to keep when a packet is cut: the blocks before it,
itself, and the blocks behind it. -/
def findTailBlk (toSize : Int) : Int → List Pktblk →
    Option (List Pktblk × Pktblk × List Pktblk)
  | _, [] => none
  | total, block :: rest =>
      if total + block.size ≥ toSize then some ([], block, rest)
      else (findTailBlk toSize (total + block.size) rest).map fun (front, tail, behind) =>
        (block :: front, tail, behind)

/-- `pktbuf_resize`. -/
def pktbufResize (buf : Pktbuf) (toSize : Int) (free : List Pktblk) :
    Option (NetErr × Pktbuf × List Pktblk) :=
  if toSize = buf.totalSize then some (.ok, buf, free)
  else if buf.totalSize = 0 then
    match pktblockAllocList toSize false free with
    | ([], free) => some (.mem, buf, free)
    | (chain, free) => some (.ok, pktbufInsertBlkList buf chain true, free)
  else if toSize > buf.totalSize then
    match buf.blkList.getLast? with
    | none => none
    | some tailBlk =>
        let front := buf.blkList.dropLast
        let incSize := toSize - buf.totalSize
        let remainSize := currBlkTailFree tailBlk
        if remainSize ≥ incSize then
          let tailBlk := { tailBlk with size := tailBlk.size + incSize }
          some (.ok, { buf with
            blkList := front ++ [tailBlk], totalSize := buf.totalSize + incSize }, free)
        else
          match pktblockAllocList (incSize - remainSize) false free with
          | ([], free) => some (.none, buf, free)
          | (chain, free) =>
              let tailBlk := { tailBlk with size := tailBlk.size + remainSize }
              let buf := { buf with
                blkList := front ++ [tailBlk], totalSize := buf.totalSize + remainSize }
              some (.ok, pktbufInsertBlkList buf chain true, free)
  else
    match findTailBlk toSize 0 buf.blkList with
    | none => some (.size, buf, free)
    | some (front, tailBlk, behind) =>
        let cut := buf.totalSize - blksSize behind - toSize
        let tailBlk := { tailBlk with size := tailBlk.size - cut }
        some (.ok, { buf with
          blkList := front ++ [tailBlk], totalSize := toSize }, free ++ behind)

/-- `pktbuf_join`, up to the release of `src`: its blocks are taken one by one from
its front to the end of `dest`. -/
def pktbufJoin (dest src : Pktbuf) : Pktbuf × Pktbuf :=
  (src.blkList.foldl (fun dest block => pktbufInsertBlkList dest [block] true) dest,
    { src with blkList := [] })

/-- The loop of `pktbuf_set_cont` that moves the bytes of the first block to the start
of its payload. -/
def moveToStart (blk : Pktblk) : Nat → Option Pktblk
  | 0 => some blk
  | count + 1 => do
      let moved ← moveToStart blk count
      let bytes ← moved.load (moved.data + count) 1
      moved.store count bytes

/-- The loop of `pktbuf_set_cont` that fills the first block from the ones behind it:
the first block, the size still missing, the blocks behind and the free list. -/
def setContLoop : Pktblk → Int → List Pktblk → List Pktblk →
    Option (Pktblk × List Pktblk × List Pktblk)
  | first, _, [], free => some (first, [], free)
  | first, remainSize, curr :: rest, free =>
      if remainSize = 0 then some (first, curr :: rest, free)
      else do
        let currSize := if curr.size > remainSize then remainSize else curr.size
        let bytes ← curr.load curr.data currSize
        let first ← first.store first.size bytes
        let first := { first with size := first.size + currSize }
        let curr := { curr with data := curr.data + currSize, size := curr.size - currSize }
        -- A block that keeps bytes has covered what was missing, which ends the loop.
        if curr.size = 0 then
          setContLoop first (remainSize - currSize) rest (free ++ [curr])
        else some (first, curr :: rest, free)

/-- `pktbuf_set_cont`. -/
def pktbufSetCont (buf : Pktbuf) (size : Int) (free : List Pktblk) :
    Option (NetErr × Pktbuf × List Pktblk) :=
  if size > buf.totalSize then some (.size, buf, free)
  else if size > pktbufBlkSize then some (.size, buf, free)
  else
    match buf.blkList with
    | [] => none
    | first :: rest =>
        if size ≤ first.size then some (.ok, buf, free)
        else do
          let moved ← moveToStart first first.size.toNat
          let first := { moved with data := 0 }
          let (first, rest, free) ← setContLoop first (size - first.size) rest free
          some (.ok, { buf with blkList := first :: rest }, free)

/-- `pktbuf_blk_next` inside the list a block is linked into. -/
def blkNext (id : Nat) : List Pktblk → Option Pktblk
  | [] => none
  | block :: rest => if block.id = id then rest.head? else blkNext id rest

/-- `move_forward`. -/
def moveForward (buf : Pktbuf) (size : Int) : Option Pktbuf := do
  let curr ← currentBlk buf
  if buf.blkOffset + size ≥ curr.data + curr.size then
    match blkNext curr.id buf.blkList with
    | some next => some { buf with
        pos := buf.pos + size, currBlk := some next.id, blkOffset := next.data }
    | none => some { buf with
        pos := buf.pos + size, currBlk := none, blkOffset := 0 }
  else some { buf with pos := buf.pos + size, blkOffset := buf.blkOffset + size }

def updateBlk (blk : Pktblk) : List Pktblk → List Pktblk
  | [] => []
  | other :: rest =>
      if other.id = blk.id then blk :: rest else other :: updateBlk blk rest

/-- What one pass of a cursor loop does with the bytes at the cursor: it sees the
block, the offset in its payload and the number of bytes. -/
abbrev Access (σ : Type) := σ → Pktblk → Int → Int → Option (σ × Pktblk)

/-- The loop shared by `pktbuf_write`, `pktbuf_read`, `pktbuf_seek`, `pktbuf_fill` and
`pktbuf_checksum16`: pass by pass, what is left of the current block or of the size.
A pass that does not end the loop moves on to the next block, so the number of blocks
bounds the passes. -/
def cursorLoop {σ : Type} (access : Access σ) : Nat → Pktbuf → σ → Int →
    Option (Pktbuf × σ)
  | 0, buf, state, size => if size > 0 then none else some (buf, state)
  | passes + 1, buf, state, size =>
      if size > 0 then do
        let blkSize ← currBlkRemain buf
        let currSize := if size > blkSize then blkSize else size
        let curr ← currentBlk buf
        let (state, curr) ← access state curr buf.blkOffset currSize
        let buf ← moveForward { buf with blkList := updateBlk curr buf.blkList } currSize
        cursorLoop access passes buf state (size - currSize)
      else some (buf, state)

def writeAccess (src : Nat → UInt8) : Access Nat := fun start blk offset count => do
  if count < 0 then none
  else
    let blk ← blk.store offset (slice src start count.toNat)
    some (start + count.toNat, blk)

/-- `pktbuf_write`; `src` is the memory behind the source pointer. -/
def pktbufWrite (buf : Pktbuf) (src : Option (Nat → UInt8)) (size : Int) :
    Option (NetErr × Pktbuf) :=
  match src with
  | none => some (.param, buf)
  | some src =>
      if size = 0 then some (.param, buf)
      else if totalBlkRemain buf < size then some (.size, buf)
      else do
        let (buf, _) ← cursorLoop (writeAccess src) buf.blkList.length buf 0 size
        some (.ok, buf)

def readAccess : Access (List UInt8) := fun dest blk offset count => do
  let bytes ← blk.load offset count
  some (dest ++ bytes, blk)

/-- `pktbuf_read`: the bytes stored at the destination, when there is one. -/
def pktbufRead (buf : Pktbuf) (hasDest : Bool) (size : Int) :
    Option (NetErr × Pktbuf × List UInt8) :=
  if ¬ hasDest ∨ size = 0 then some (.ok, buf, [])
  else if totalBlkRemain buf < size then some (.size, buf, [])
  else do
    let (buf, dest) ← cursorLoop readAccess buf.blkList.length buf [] size
    some (.ok, buf, dest)

def seekAccess : Access Unit := fun _ blk _ _ => some ((), blk)

/-- `pktbuf_seek`. -/
def pktbufSeek (buf : Pktbuf) (offset : Int) : Option (NetErr × Pktbuf) :=
  if buf.pos = offset then some (.ok, buf)
  else if offset < 0 ∨ offset ≥ buf.totalSize then some (.size, buf)
  else if offset < buf.pos then
    match buf.blkList.head? with
    | none => none
    | some first => do
        let buf := { buf with currBlk := some first.id, blkOffset := first.data, pos := 0 }
        let (buf, _) ← cursorLoop seekAccess buf.blkList.length buf () offset
        some (.ok, buf)
  else do
    let (buf, _) ← cursorLoop seekAccess buf.blkList.length buf () (offset - buf.pos)
    some (.ok, buf)

def fillAccess (value : UInt8) : Access Unit := fun _ blk offset count => do
  if count < 0 then none
  else
    let blk ← blk.store offset (List.replicate count.toNat value)
    some ((), blk)

/-- `pktbuf_fill`. -/
def pktbufFill (buf : Pktbuf) (value : UInt8) (size : Int) : Option (NetErr × Pktbuf) :=
  if size = 0 then some (.param, buf)
  else if totalBlkRemain buf < size then some (.size, buf)
  else do
    let (buf, _) ← cursorLoop (fillAccess value) buf.blkList.length buf () size
    some (.ok, buf)

def wordSum : List UInt8 → Nat
  | [] => 0
  | [last] => last.toNat
  | low :: high :: rest => low.toNat + 256 * high.toNat + wordSum rest

/-- The loop of `checksum16` that adds the carries back; each pass lowers the sum, so
the sum itself bounds the passes. -/
def foldCarry : Nat → Nat → Nat
  | 0, sum => sum
  | passes + 1, sum =>
      if sum / 65536 = 0 then sum else foldCarry passes (sum / 65536 + sum % 65536)

/-- `checksum16`.  At an odd offset the first byte goes into the high half of a word;
with no byte there the length wraps around and memory behind the block is read. -/
def checksum16 (offset : Nat) (bytes : List UInt8) (preSum : Nat) (complement : Bool) :
    Option Nat := do
  let sum ← if offset % 2 = 1 then
      match bytes with
      | [] => none
      | first :: rest => some ((preSum + 256 * first.toNat + wordSum rest) % 2 ^ 32)
    else some ((preSum + wordSum bytes) % 2 ^ 32)
  let sum := foldCarry sum sum
  some (if complement then 65535 - sum else sum)

def checksumAccess : Access (Nat × Nat) := fun (sum, start) blk offset count => do
  let bytes ← blk.load offset count
  let sum ← checksum16 start bytes sum false
  some ((sum, start + count.toNat), blk)

/-- `pktbuf_checksum16`. -/
def pktbufChecksum16 (buf : Pktbuf) (size : Int) (preSum : Nat) (complement : Bool) :
    Option (Nat × Pktbuf) :=
  if totalBlkRemain buf < size then some (0, buf)
  else do
    let (buf, sum, _) ← cursorLoop checksumAccess buf.blkList.length buf (preSum, 0) size
    let sum := sum % 2 ^ 16
    some (if complement then 65535 - sum else sum, buf)

/-- The loop of `pktbuf_copy` between two packets; each pass leaves a block of one of
them or ends the loop. -/
def copyLoop : Nat → Pktbuf → Pktbuf → Int → Option (Pktbuf × Pktbuf)
  | 0, dest, src, size => if size = 0 then some (dest, src) else none
  | passes + 1, dest, src, size =>
      if size = 0 then some (dest, src)
      else do
        let destRemain ← currBlkRemain dest
        let srcRemain ← currBlkRemain src
        let copySize := if destRemain > srcRemain then srcRemain else destRemain
        let copySize := if copySize > size then size else copySize
        let destBlk ← currentBlk dest
        let srcBlk ← currentBlk src
        let bytes ← srcBlk.load src.blkOffset copySize
        let destBlk ← destBlk.store dest.blkOffset bytes
        let dest ← moveForward { dest with blkList := updateBlk destBlk dest.blkList } copySize
        let src ← moveForward src copySize
        copyLoop passes dest src (size - copySize)

/-- `pktbuf_copy` between two packets. -/
def pktbufCopy (dest src : Pktbuf) (size : Int) : Option (NetErr × Pktbuf × Pktbuf) :=
  if totalBlkRemain dest < size ∨ totalBlkRemain src < size then some (.size, dest, src)
  else do
    let (dest, src) ← copyLoop (dest.blkList.length + src.blkList.length) dest src size
    some (.ok, dest, src)

/-- The loop of `pktbuf_copy` from a packet to itself: both calls of `move_forward` act
on its one cursor. -/
def copySelfLoop : Nat → Pktbuf → Int → Option Pktbuf
  | 0, buf, size => if size = 0 then some buf else none
  | passes + 1, buf, size =>
      if size = 0 then some buf
      else do
        let remain ← currBlkRemain buf
        let copySize := if remain > size then size else remain
        let blk ← currentBlk buf
        let bytes ← blk.load buf.blkOffset copySize
        let blk ← blk.store buf.blkOffset bytes
        let buf ← moveForward { buf with blkList := updateBlk blk buf.blkList } copySize
        let buf ← moveForward buf copySize
        copySelfLoop passes buf (size - copySize)

/-- `pktbuf_copy` from a packet to itself. -/
def pktbufCopySelf (buf : Pktbuf) (size : Int) : Option (NetErr × Pktbuf) :=
  if totalBlkRemain buf < size then some (.size, buf)
  else do
    let buf ← copySelfLoop (size.toNat + buf.blkList.length) buf size
    some (.ok, buf)

end CleanOS.Net
