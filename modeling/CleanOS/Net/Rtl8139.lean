import CleanOS.Lib.Calls
import CleanOS.Net.Fragmentation

/-!
# The receive ring of the RTL8139

`handle_rtl8139` of `kernel/net/driver/rtl8139.c` reads the frames that the card has stored in
the receive buffer.  The card and the driver keep their own positions in the ring.
-/

namespace CleanOS.Net

open CleanOS.Lib

/-- `R8139DN_RX_BUFLEN`. -/
def rxBufLen : Nat := 16384

/-- `R8139DN_RX_DMA_SIZE`: the ring, its padding, and room for a frame that goes on behind the
end of the ring. -/
def rxDmaSize : Nat := rxBufLen + 16 + 2048

/-- `R8139DN_MAX_ETH_SIZE`. -/
def rxMaxEthSize : Nat := 1792

/-- `CRC_LEN`. -/
def rxCrcLen : Nat := 4

/-- The bits `FAE`, `CRC`, `LONG`, `RUNT` and `ISE` of `rtl8139_rpkthdr_t`. -/
def rxErrorBits : UInt8 := 0x3e

/-- A frame received without an error, which the driver has room for: `errors` is the low byte of
its status, and `matched` the high byte, which says how its address was matched. -/
structure RxFrame where
  errors : UInt8
  matched : UInt8
  bytes : List UInt8
  crc : List UInt8
  correct : errors &&& rxErrorBits = 0
  small : bytes.length < rxMaxEthSize
  crcLen : crc.length = rxCrcLen

namespace RxFrame

def size (frame : RxFrame) : Nat :=
  frame.bytes.length + rxCrcLen

def image (frame : RxFrame) : List UInt8 :=
  [frame.errors, frame.matched, (frame.size % 256).toUInt8, (frame.size / 256).toUInt8] ++
    (frame.bytes ++ frame.crc)

def advance (frame : RxFrame) : Nat :=
  (frame.size + 4 + 3) / 4 * 4

end RxFrame

/-- The card in WRAP mode: the receive buffer it writes to, the ring offset of the next frame,
and the frames the driver has not read, with the offsets they are stored at. -/
structure RxCard where
  buffer : Nat → UInt8
  next : Nat
  unread : List (Nat × RxFrame)

def storeBytes (buffer : Nat → UInt8) (offset : Nat) (bytes : List UInt8) : Nat → UInt8 :=
  fun i => if offset ≤ i then bytes.getD (i - offset) (buffer i) else buffer i

namespace RxCard

def readOffset (card : RxCard) : Nat :=
  match card.unread with
  | [] => card.next
  | (offset, _) :: _ => offset

def used (card : RxCard) : Nat :=
  (card.unread.map fun entry => entry.2.advance).sum

def receive (card : RxCard) (frame : RxFrame) : RxCard :=
  if card.used + frame.advance ≤ rxBufLen then
    { buffer := storeBytes card.buffer card.next frame.image
      next := (card.next + frame.advance) % rxBufLen
      unread := card.unread ++ [(card.next, frame)] }
  else card

/-- The bit `CR_BUFE`. -/
def bufferEmpty (card : RxCard) : Bool :=
  card.unread.isEmpty

/-- A write to `CAPR` after a frame: the card takes the frame as read. -/
def writeCapr (card : RxCard) : RxCard :=
  { card with unread := card.unread.tail }

end RxCard

/-- The driver and the card; `receiving` while `handle_rtl8139` is in its receive loop. -/
structure Rtl8139 where
  curr : Nat
  card : RxCard
  receiving : Bool

/-- The parts of the receive buffer that are read, each by its start and its length, and the
packet passed to `netif_put_in`. -/
structure RxResult where
  reads : List (Int × Int)
  queued : Option Pktbuf

namespace Rtl8139

/-- `rtl8139_setup_rx`: driver and card start again at the start of the ring. -/
def setupRx (device : Rtl8139) : Rtl8139 :=
  { device with curr := 0, card := { device.card with next := 0, unread := [] } }

/-- The frame at `rx.curr` is copied to a packet. -/
def copyFrame (device : Rtl8139) (size : Nat) (buf : Pktbuf) :
    Option (List (Int × Int) × Pktbuf) :=
  let pktSize : Int := size - rxCrcLen
  let src : Nat → UInt8 := fun i => device.card.buffer (device.curr + 4 + i)
  if device.curr + size > rxDmaSize then do
    let count : Int := rxDmaSize - device.curr - 4
    let (_, buf) ← pktbufWrite buf (some src) count
    let (_, buf) ← pktbufWrite buf (some device.card.buffer) (pktSize - count)
    some ([(device.curr + 4, count), (0, pktSize - count)], buf)
  else do
    let (_, buf) ← pktbufWrite buf (some src) pktSize
    some ([(device.curr + 4, pktSize)], buf)

def nextCurr (curr size : Nat) : Nat :=
  let moved := (curr + size + 4 + 3) / 4 * 4
  if moved > rxBufLen then moved - rxBufLen else moved

def readFrame (device : Rtl8139) (mem : PktMem) : Option (RxResult × Rtl8139) :=
  let errors := device.card.buffer device.curr
  let size := (device.card.buffer (device.curr + 2)).toNat +
    256 * (device.card.buffer (device.curr + 3)).toNat
  let pktSize : Int := size - rxCrcLen
  if errors &&& rxErrorBits ≠ 0 then some (⟨[(device.curr, 4)], none⟩, device.setupRx)
  else if pktSize < 0 ∨ pktSize ≥ rxMaxEthSize then
    some (⟨[(device.curr, 4)], none⟩, device.setupRx)
  else do
    let (reads, queued) ←
      match (mem.pktbufAlloc pktSize).1 with
      | some buf => (device.copyFrame size buf).map fun (reads, buf) => (reads, some buf)
      | none => some ([], none)
    some (⟨(device.curr, 4) :: reads, queued⟩,
      { device with curr := nextCurr device.curr size, card := device.card.writeCapr })

end Rtl8139

/-- The card receives a frame, an interrupt comes with a value of `ISR`, or the receive loop
tests `CR_BUFE` and goes on with a frame; other code may have changed the packet pools
before. -/
inductive RxAction where
  | frame (frame : RxFrame)
  | interrupt (isr : UInt16)
  | pass (mem : PktMem) (distinct : (blkIds mem.blockList).Nodup)

namespace Rtl8139

/-- One action of the card or of `handle_rtl8139`. -/
def call (device : Rtl8139) : RxAction → Option (RxResult × Rtl8139)
  | .frame frame => some (⟨[], none⟩, { device with card := device.card.receive frame })
  | .interrupt isr =>
      -- The handler is not interrupted by the card.
      if device.receiving then some (⟨[], none⟩, device)
      else some (⟨[], none⟩, { device with receiving := isr &&& 1 ≠ 0 })
  | .pass mem _ =>
      if ¬ device.receiving then some (⟨[], none⟩, device)
      else if device.card.bufferEmpty then some (⟨[], none⟩, { device with receiving := false })
      else device.readFrame mem

/-- The driver and the card after `rtl8139_setup_rx`. -/
def start (buffer : Nat → UInt8) : Rtl8139 where
  curr := 0
  card := ⟨buffer, 0, []⟩
  receiving := false

def reading (device : Rtl8139) : RxAction → Option (Nat × RxFrame)
  | .pass _ _ => if device.receiving then device.card.unread.head? else none
  | _ => none

/-- The position of the driver is in the ring, and is that of the card. -/
structure InStep (device : Rtl8139) : Prop where
  curr_lt : device.curr < rxBufLen
  curr_eq : device.curr = device.card.readOffset

/-- Every read is inside the receive buffer, and a frame that is read is queued without its CRC
when there is a packet for it. -/
structure ReadsRight (device : Rtl8139) (action : RxAction) (result : RxResult)
    (after : Rtl8139) : Prop where
  inside : ∀ read ∈ result.reads, 0 ≤ read.1 ∧ 0 ≤ read.2 ∧ read.1 + read.2 ≤ rxDmaSize
  queued : ∀ mem distinct offset frame, action = .pass mem distinct →
    device.reading action = some (offset, frame) →
    result.queued.map Pktbuf.content =
      (mem.pktbufAlloc frame.bytes.length).1.map (fun _ => frame.bytes) ∧
    after.card.unread = device.card.unread.tail

def EndsElsewhere (device : Rtl8139) (action : RxAction) : Prop :=
  ∀ offset frame, device.reading action = some (offset, frame) →
    offset + frame.advance ≠ rxBufLen

end Rtl8139

def PlacedFrom (buffer : Nat → UInt8) : Nat → List (Nat × RxFrame) → Nat → Prop
  | offset, [], next => offset = next
  | offset, (start, frame) :: rest, next => start = offset ∧
      slice buffer offset frame.image.length = frame.image ∧
      PlacedFrom buffer ((offset + frame.advance) % rxBufLen) rest next

structure RxCard.Holds (card : RxCard) : Prop where
  placed : PlacedFrom card.buffer card.readOffset card.unread card.next
  offset_lt : card.readOffset < rxBufLen
  aligned : card.readOffset % 4 = 0
  used_le : card.used ≤ rxBufLen

section Card

variable {buffer : Nat → UInt8} {frame : RxFrame} {offset next : Nat}
variable {unread : List (Nat × RxFrame)} {card : RxCard}

theorem RxFrame.length_image : frame.image.length = frame.size + 4 := by
  simp only [RxFrame.image, List.length_append, List.length_cons, List.length_nil, frame.crcLen,
    RxFrame.size]
  omega

theorem RxFrame.size_lt : frame.size < rxMaxEthSize + 4 := by
  have small := frame.small
  unfold RxFrame.size
  unfold rxCrcLen
  omega

theorem RxFrame.advance_mod : frame.advance % 4 = 0 :=
  Nat.mul_mod_left _ _

theorem RxFrame.length_le_advance : frame.image.length ≤ frame.advance := by
  rw [RxFrame.length_image]
  unfold RxFrame.advance
  omega

theorem slice_storeBytes {bytes : List UInt8} :
    slice (storeBytes buffer offset bytes) offset bytes.length = bytes := by
  apply List.ext_getElem (by simp)
  intro i inside inside'
  simp [slice, storeBytes, inside']

theorem storeBytes_elsewhere {bytes : List UInt8} {i : Nat}
    (elsewhere : i < offset ∨ offset + bytes.length ≤ i) :
    storeBytes buffer offset bytes i = buffer i := by
  unfold storeBytes
  rcases elsewhere with below | above
  · rw [if_neg (by omega)]
  · rw [if_pos (by omega), List.getD_eq_getElem?_getD, List.getElem?_eq_none (by omega),
      Option.getD_none]

theorem PlacedFrom.next_eq (offset_lt : offset < rxBufLen)
    (placed : PlacedFrom buffer offset unread next) :
    next = (offset + (unread.map fun entry => entry.2.advance).sum) % rxBufLen := by
  induction unread generalizing offset with
  | nil =>
      rw [List.map_nil, List.sum_nil, Nat.add_zero, Nat.mod_eq_of_lt offset_lt]
      exact placed.symm
  | cons entry rest ih =>
      have after := ih (Nat.mod_lt _ (by decide)) placed.2.2
      rw [List.map_cons, List.sum_cons, after, Nat.mod_add_mod, Nat.add_assoc]

theorem PlacedFrom.store (offset_lt : offset < rxBufLen)
    (placed : PlacedFrom buffer offset unread next)
    (room : (unread.map fun entry => entry.2.advance).sum + frame.advance ≤ rxBufLen) :
    PlacedFrom (storeBytes buffer next frame.image) offset (unread ++ [(next, frame)])
      ((next + frame.advance) % rxBufLen) := by
  induction unread generalizing offset with
  | nil =>
      have start : offset = next := placed
      subst start
      exact ⟨rfl, slice_storeBytes, rfl⟩
  | cons entry rest ih =>
      obtain ⟨started, first⟩ := entry
      have nextEq := placed.next_eq offset_lt
      obtain ⟨start, stored, later⟩ := placed
      simp only [List.map_cons, List.sum_cons] at room nextEq
      refine ⟨start, ?_, ih (Nat.mod_lt _ (by decide)) later (by omega)⟩
      refine Eq.trans ?_ stored
      apply slice_congr
      intro i inside
      apply storeBytes_elsewhere
      have firstRoom := @RxFrame.length_le_advance first
      have frameRoom := @RxFrame.length_le_advance frame
      -- The new frame is less than the ring behind the first one.
      unfold rxBufLen at *
      omega

theorem RxCard.used_append {entry : Nat × RxFrame} (buffer : Nat → UInt8) (next : Nat) :
    RxCard.used ⟨buffer, next, unread ++ [entry]⟩ =
      (unread.map fun entry => entry.2.advance).sum + entry.2.advance := by
  simp [RxCard.used]

theorem RxCard.readOffset_append (card : RxCard) (buffer : Nat → UInt8) (next : Nat)
    (frame : RxFrame) :
    RxCard.readOffset ⟨buffer, next, card.unread ++ [(card.next, frame)]⟩ = card.readOffset := by
  unfold RxCard.readOffset
  cases card.unread with
  | nil => rfl
  | cons entry rest => rfl

theorem RxCard.Holds.receive (holds : card.Holds) (frame : RxFrame) :
    (card.receive frame).Holds ∧ (card.receive frame).readOffset = card.readOffset := by
  unfold RxCard.receive
  split
  next room =>
    have sameOffset := card.readOffset_append (storeBytes card.buffer card.next frame.image)
      ((card.next + frame.advance) % rxBufLen) frame
    refine ⟨⟨?_, ?_, ?_, ?_⟩, sameOffset⟩
    · rw [sameOffset]
      exact holds.placed.store holds.offset_lt room
    · rw [sameOffset]
      exact holds.offset_lt
    · rw [sameOffset]
      exact holds.aligned
    · rw [RxCard.used_append]
      exact room
  · exact ⟨holds, rfl⟩

theorem RxCard.Holds.writeCapr (holds : card.Holds) {rest : List (Nat × RxFrame)}
    (unread : card.unread = (offset, frame) :: rest) :
    card.writeCapr.Holds ∧ card.writeCapr.readOffset = (offset + frame.advance) % rxBufLen := by
  have atOffset : card.readOffset = offset := by
    unfold RxCard.readOffset
    rw [unread]
  have placed := holds.placed
  have aligned := holds.aligned
  have used := holds.used_le
  unfold RxCard.used at used
  rw [unread, atOffset] at placed
  rw [atOffset] at aligned
  rw [unread, List.map_cons, List.sum_cons] at used
  have tail : card.writeCapr.unread = rest := by
    unfold RxCard.writeCapr
    rw [unread, List.tail_cons]
  have moved : card.writeCapr.readOffset = (offset + frame.advance) % rxBufLen := by
    have later := placed.2.2
    unfold RxCard.readOffset
    rw [tail]
    cases rest with
    | nil => exact later.symm
    | cons entry rest => exact later.1
  refine ⟨⟨?_, ?_, ?_, ?_⟩, moved⟩
  · rw [moved, tail]
    exact placed.2.2
  · rw [moved]
    exact Nat.mod_lt _ (by decide)
  · rw [moved]
    have frameAligned := @RxFrame.advance_mod frame
    unfold rxBufLen
    omega
  · unfold RxCard.used
    rw [tail]
    omega

structure FrameAt (buffer : Nat → UInt8) (offset : Nat) (frame : RxFrame) : Prop where
  errors : buffer offset = frame.errors
  size : (buffer (offset + 2)).toNat + 256 * (buffer (offset + 3)).toNat = frame.size
  bytes : slice buffer (offset + 4) frame.bytes.length = frame.bytes

theorem frameAt_of_slice
    (stored : slice buffer offset frame.image.length = frame.image) :
    FrameAt buffer offset frame := by
  have sizes : frame.image.length = 4 + (frame.bytes.length + rxCrcLen) := by
    rw [RxFrame.length_image, RxFrame.size, Nat.add_comm]
  rw [sizes, slice_add, slice_add] at stored
  obtain ⟨header, rest⟩ := List.append_inj stored (by rw [length_slice]; rfl)
  have bytes := List.append_inj_left rest length_slice
  have small := @RxFrame.size_lt frame
  unfold rxMaxEthSize at small
  simp only [slice, List.range_succ, List.range_zero, List.nil_append,
    List.map_cons, List.map_nil, List.cons_append, List.cons.injEq, Nat.add_zero] at header
  obtain ⟨errors, -, low, high, -⟩ := header
  refine ⟨errors, ?_, bytes⟩
  rw [low, high]
  simp only [Nat.toUInt8_eq, UInt8.toNat_ofNat']
  omega

end Card

section Driver

variable {mem : PktMem} {device : Rtl8139} {frame : RxFrame} {offset : Nat}

theorem pktbufAlloc_write {buf : Pktbuf} {mem after : PktMem} {count : Nat} (src : Nat → UInt8)
    (distinct : (blkIds mem.blockList).Nodup)
    (alloc : mem.pktbufAlloc count = (some buf, after)) :
    ∃ err written, pktbufWrite buf (some src) count = some (err, written) ∧
      written.content = slice src 0 count := by
  have nonneg : (0 : Int) ≤ count := Int.natCast_nonneg count
  rcases pktbufAlloc_fresh nonneg distinct with
    ⟨_, none⟩ | ⟨fresh, _, some, holds, total, current, pos, -⟩
  · rw [alloc] at none
    cases none
  rw [alloc] at some
  cases some
  have length := holds.length_content
  rw [total] at length
  by_cases zero : count = 0
  · refine ⟨.param, buf, ?_, ?_⟩
    · simp only [pktbufWrite, zero, Int.natCast_zero, if_true]
    · rw [zero] at length ⊢
      exact List.length_eq_zero_iff.mp (Int.ofNat.inj length)
  · have within : (count : Int) ≤ totalBlkRemain buf := by
      unfold totalBlkRemain
      omega
    obtain ⟨written, write, -, -, -, content⟩ :=
      @pktbufWrite_spec buf count src holds current (by omega) within
    refine ⟨.ok, written, write, ?_⟩
    rw [content, pos]
    simp only [overwrite, Int.toNat_zero, List.take_zero, List.nil_append, length_slice,
      Int.toNat_natCast, Nat.zero_add]
    rw [List.drop_of_length_le (by omega), List.append_nil]

theorem Rtl8139.copyFrame_spec {buf : Pktbuf} {after : PktMem} (curr_lt : device.curr < rxBufLen)
    (frameAt : FrameAt device.card.buffer device.curr frame)
    (distinct : (blkIds mem.blockList).Nodup)
    (alloc : mem.pktbufAlloc frame.bytes.length = (some buf, after)) :
    ∃ written, device.copyFrame frame.size buf =
        some ([((device.curr : Int) + 4, (frame.bytes.length : Int))], written) ∧
      written.content = frame.bytes := by
  have small := @RxFrame.size_lt frame
  have inside : ¬ device.curr + frame.size > rxDmaSize := by
    unfold rxMaxEthSize at small
    unfold rxDmaSize
    unfold rxBufLen at *
    omega
  have pktSize : (frame.size : Int) - rxCrcLen = frame.bytes.length := by
    unfold RxFrame.size
    omega
  obtain ⟨err, written, write, content⟩ := pktbufAlloc_write
    (fun i => device.card.buffer (device.curr + 4 + i)) distinct alloc
  refine ⟨written, ?_, ?_⟩
  · unfold Rtl8139.copyFrame
    simp only [if_neg inside, pktSize, write, Option.bind_eq_bind, Option.bind_some]
  · have bytes := frameAt.bytes
    rw [content]
    refine Eq.trans ?_ bytes
    apply slice_congr
    intro i _
    rw [Nat.zero_add]

theorem nextCurr_eq_iff (offset_lt : offset < rxBufLen) (aligned : offset % 4 = 0) :
    (Rtl8139.nextCurr offset frame.size = (offset + frame.advance) % rxBufLen ↔
      offset + frame.advance ≠ rxBufLen) ∧
    (offset + frame.advance = rxBufLen → Rtl8139.nextCurr offset frame.size = rxBufLen) := by
  have moved : (offset + frame.size + 4 + 3) / 4 * 4 = offset + frame.advance := by
    unfold RxFrame.advance
    omega
  have small := @RxFrame.size_lt frame
  have short : frame.advance ≤ rxBufLen := by
    unfold RxFrame.advance
    unfold rxMaxEthSize at small
    unfold rxBufLen
    omega
  unfold Rtl8139.nextCurr
  rw [moved]
  unfold rxBufLen at *
  dsimp only
  constructor
  · split <;> omega
  · intro isEnd
    rw [if_neg (by omega), isEnd]

theorem Rtl8139.readFrame_spec (curr_lt : device.curr < rxBufLen)
    (frameAt : FrameAt device.card.buffer device.curr frame)
    (distinct : (blkIds mem.blockList).Nodup) :
    ∃ result, device.readFrame mem = some (result,
        { device with
          curr := nextCurr device.curr frame.size
          card := device.card.writeCapr }) ∧
      (∀ read ∈ result.reads, 0 ≤ read.1 ∧ 0 ≤ read.2 ∧ read.1 + read.2 ≤ rxDmaSize) ∧
      result.queued.map Pktbuf.content =
        (mem.pktbufAlloc frame.bytes.length).1.map fun _ => frame.bytes := by
  have small := frame.small
  have correct : ¬ device.card.buffer device.curr &&& rxErrorBits ≠ 0 := by
    rw [frameAt.errors]
    exact fun wrong => wrong frame.correct
  have pktSize : (frame.size : Int) - rxCrcLen = frame.bytes.length := by
    unfold RxFrame.size
    omega
  have taken : ¬ ((frame.bytes.length : Int) < 0 ∨ (frame.bytes.length : Int) ≥ rxMaxEthSize) := by
    omega
  have header : (0 : Int) ≤ device.curr ∧ (0 : Int) ≤ 4 ∧ (device.curr : Int) + 4 ≤ rxDmaSize := by
    unfold rxDmaSize
    unfold rxBufLen at *
    omega
  have body : (0 : Int) ≤ (device.curr : Int) + 4 ∧ (0 : Int) ≤ frame.bytes.length ∧
      (device.curr : Int) + 4 + frame.bytes.length ≤ rxDmaSize := by
    unfold rxDmaSize
    unfold rxMaxEthSize at small
    unfold rxBufLen at *
    omega
  unfold Rtl8139.readFrame
  simp only [if_neg correct, frameAt.size, pktSize, if_neg taken]
  rcases allocEq : mem.pktbufAlloc frame.bytes.length with ⟨buf | buf, after⟩
  · refine ⟨⟨[(device.curr, 4)], none⟩, rfl, fun read member => ?_, rfl⟩
    cases List.mem_singleton.mp member
    exact header
  · obtain ⟨written, copied, content⟩ := copyFrame_spec curr_lt frameAt distinct allocEq
    refine ⟨⟨[(device.curr, 4), (device.curr + 4, frame.bytes.length)], some written⟩, ?_, ?_, ?_⟩
    · simp only [copied, Option.map_some, Option.bind_eq_bind, Option.bind_some]
    · intro read member
      rcases List.mem_cons.mp member with rfl | member
      · exact header
      · cases List.mem_singleton.mp member
        exact body
    · rw [Option.map_some, Option.map_some, content]

end Driver

namespace Rtl8139

section Runs

variable {device after : Rtl8139} {action : RxAction} {result : RxResult}

theorem readsRight_of_not_reading (nothing : device.reading action = none) :
    device.ReadsRight action ⟨[], none⟩ after := by
  refine ⟨fun read member => (nomatch member), fun mem distinct offset frame _ isReading => ?_⟩
  rw [nothing] at isReading
  cases isReading

theorem inStep_of_not_reading (nothing : device.reading action = none) (inStep : after.InStep) :
    after.InStep ↔ device.EndsElsewhere action := by
  apply iff_of_true inStep
  intro offset frame isReading
  rw [nothing] at isReading
  cases isReading

theorem pass_spec {mem : PktMem} {distinct : (blkIds mem.blockList).Nodup} {offset : Nat}
    {frame : RxFrame} {rest : List (Nat × RxFrame)} (holds : device.card.Holds)
    (inStep : device.InStep) (receiving : device.receiving = true)
    (unread : device.card.unread = (offset, frame) :: rest) :
    ∃ result after, device.call (.pass mem distinct) = some (result, after) ∧
      device.ReadsRight (.pass mem distinct) result after ∧ after.card.Holds ∧
      (after.InStep ↔ device.EndsElsewhere (.pass mem distinct)) := by
  have isReading : device.reading (.pass mem distinct) = some (offset, frame) := by
    simp [reading, receiving, unread]
  have called : device.call (.pass mem distinct) = device.readFrame mem := by
    simp [call, receiving, RxCard.bufferEmpty, unread]
  have atOffset : device.card.readOffset = offset := by
    unfold RxCard.readOffset
    rw [unread]
  have atCurr : device.curr = offset := inStep.curr_eq.trans atOffset
  have placed := holds.placed
  rw [unread, atOffset, ← atCurr] at placed
  have aligned := holds.aligned
  rw [atOffset, ← atCurr] at aligned
  obtain ⟨result, read, inside, queued⟩ :=
    readFrame_spec inStep.curr_lt (frameAt_of_slice placed.2.1) distinct
  obtain ⟨kept, moved⟩ := holds.writeCapr unread
  obtain ⟨follows, stays⟩ := @nextCurr_eq_iff frame _ inStep.curr_lt aligned
  refine ⟨result, _, called.trans read, ⟨inside, ?_⟩, kept, ?_⟩
  · intro otherMem _ otherOffset otherFrame same again
    cases same
    cases isReading.symm.trans again
    exact ⟨queued, rfl⟩
  · constructor
    · intro afterStep otherOffset otherFrame again
      cases isReading.symm.trans again
      have same := afterStep.curr_eq
      dsimp only at same
      rw [moved, ← atCurr, follows, atCurr] at same
      exact same
    · intro elsewhere
      have notEnd := elsewhere offset frame isReading
      rw [← atCurr] at notEnd
      have same := follows.mpr notEnd
      constructor
      · dsimp only
        rw [same]
        exact Nat.mod_lt _ (by decide)
      · dsimp only
        rw [same, moved, atCurr]

theorem call_spec (action : RxAction) (holds : device.card.Holds) (inStep : device.InStep) :
    ∃ result after, device.call action = some (result, after) ∧
      device.ReadsRight action result after ∧ after.card.Holds ∧
      (after.InStep ↔ device.EndsElsewhere action) := by
  have inLoop : ∀ receiving, { device with receiving }.InStep :=
    fun _ => ⟨inStep.curr_lt, inStep.curr_eq⟩
  cases action with
  | frame frame =>
      obtain ⟨kept, sameOffset⟩ := holds.receive frame
      refine ⟨_, _, rfl, readsRight_of_not_reading rfl, kept, inStep_of_not_reading rfl ?_⟩
      exact ⟨inStep.curr_lt, inStep.curr_eq.trans sameOffset.symm⟩
  | interrupt isr =>
      by_cases receiving : device.receiving
      · exact ⟨_, _, if_pos receiving, readsRight_of_not_reading rfl, holds,
          inStep_of_not_reading rfl inStep⟩
      · exact ⟨_, _, if_neg receiving, readsRight_of_not_reading rfl, holds,
          inStep_of_not_reading rfl (inLoop _)⟩
  | pass mem distinct =>
      by_cases receiving : device.receiving
      · cases unread : device.card.unread with
        | nil =>
            have nothing : device.reading (.pass mem distinct) = none := by
              simp [reading, unread]
            refine ⟨⟨[], none⟩, { device with receiving := false }, ?_,
              readsRight_of_not_reading nothing, holds, inStep_of_not_reading nothing (inLoop _)⟩
            simp [call, receiving, RxCard.bufferEmpty, unread]
        | cons entry rest => exact pass_spec holds inStep receiving unread
      · have nothing : device.reading (.pass mem distinct) = none := by
          simp [reading, receiving]
        refine ⟨⟨[], none⟩, device, ?_, readsRight_of_not_reading nothing, holds,
          inStep_of_not_reading nothing inStep⟩
        simp [call, receiving]

theorem start_holds (buffer : Nat → UInt8) : (start buffer).card.Holds :=
  ⟨rfl, Nat.zero_lt_succ _, rfl, Nat.zero_le _⟩

theorem start_inStep (buffer : Nat → UInt8) : (start buffer).InStep :=
  ⟨Nat.zero_lt_succ _, rfl⟩

/-- Driver and card stay in step, all reads are inside the buffer and the packets hold their
frames, exactly when no frame that is read ends at the end of the ring. -/
theorem receiveRing_iff (buffer : Nat → UInt8) (actions : List RxAction) :
    AllRight call InStep ReadsRight (start buffer) actions ↔
      AllGuarded call EndsElsewhere (start buffer) actions := by
  apply allRight_iff_allGuarded fun device => device.card.Holds
  · intro device action holds inStep elsewhere
    obtain ⟨result, after, called, right, kept, iff⟩ := call_spec action holds inStep
    exact ⟨result, after, called, right, iff.mpr elsewhere, kept⟩
  · intro device action result after holds inStep called _ afterStep
    obtain ⟨_, _, again, _, _, iff⟩ := call_spec action holds inStep
    cases called.symm.trans again
    exact iff.mp afterStep
  · exact start_holds buffer
  · exact start_inStep buffer

def noPackets : RxAction :=
  .pass ⟨[], 0⟩ List.nodup_nil

theorem allRight_received {frame : RxFrame} {buffer : Nat → UInt8} {offset : Nat}
    {actions : List RxAction} (offset_lt : offset < rxBufLen) (room : frame.advance ≤ rxBufLen)
    (allRight : AllRight call InStep ReadsRight ⟨offset, ⟨buffer, offset, []⟩, true⟩
      (.frame frame :: noPackets :: actions)) :
    ∃ buffer, AllRight call InStep ReadsRight ⟨nextCurr offset frame.size,
      ⟨buffer, (offset + frame.advance) % rxBufLen, []⟩, true⟩ actions := by
  have received : RxCard.receive ⟨buffer, offset, []⟩ frame =
      ⟨storeBytes buffer offset frame.image, (offset + frame.advance) % rxBufLen,
        [(offset, frame)]⟩ := by
    unfold RxCard.receive
    apply if_pos
    simp only [RxCard.used, List.map_nil, List.sum_nil, Nat.zero_add]
    exact room
  have arrived := allRight.tail rfl
  rw [received] at arrived
  obtain ⟨result, read, -⟩ := @readFrame_spec ⟨[], 0⟩
    ⟨offset, ⟨storeBytes buffer offset frame.image, (offset + frame.advance) % rxBufLen,
      [(offset, frame)]⟩, true⟩ frame offset_lt (frameAt_of_slice slice_storeBytes)
    List.nodup_nil
  exact ⟨_, arrived.tail read⟩

theorem not_allRight_of_full {frame : RxFrame} (count : Nat) {buffer : Nat → UInt8}
    {offset : Nat} (aligned : offset % 4 = 0)
    (full : offset + (count + 1) * frame.advance = rxBufLen) :
    ¬ AllRight call InStep ReadsRight ⟨offset, ⟨buffer, offset, []⟩, true⟩
      (List.replicate (count + 1) [.frame frame, noPackets]).flatten := by
  have least : 0 < frame.advance := by
    unfold RxFrame.advance
    omega
  induction count generalizing offset buffer with
  | zero =>
      intro allRight
      rw [Nat.zero_add, Nat.one_mul] at full
      obtain ⟨stored, later⟩ := allRight_received (by omega) (by omega) allRight
      have inside : nextCurr offset frame.size < rxBufLen := later.curr_lt
      rw [(nextCurr_eq_iff (by omega) aligned).2 full] at inside
      exact Nat.lt_irrefl _ inside
  | succ count ih =>
      intro allRight
      have frameAligned := @RxFrame.advance_mod frame
      have positive : 0 < (count + 1) * frame.advance := Nat.mul_pos (Nat.succ_pos _) least
      rw [Nat.succ_mul] at full
      obtain ⟨stored, later⟩ := allRight_received (by omega) (by omega) allRight
      have inside : (offset + frame.advance) % rxBufLen = offset + frame.advance :=
        Nat.mod_eq_of_lt (by omega)
      have moved : nextCurr offset frame.size = offset + frame.advance :=
        ((nextCurr_eq_iff (by omega) aligned).1.mpr (by omega)).trans inside
      rw [moved, inside] at later
      exact ih (by omega) (by omega) later

def sixteenth : RxFrame where
  errors := 1
  matched := 0
  bytes := List.replicate 1016 0
  crc := [0, 0, 0, 0]
  correct := rfl
  small := by rw [List.length_replicate]; decide
  crcLen := rfl

/-- After sixteen such frames the driver is at the end of the ring, and the card at its start. -/
theorem receiveRing_full :
    ¬ AllRight call InStep ReadsRight (start fun _ => 0)
      (.interrupt 1 :: (List.replicate 16 [.frame sixteenth, noPackets]).flatten) := by
  intro allRight
  have inLoop := allRight.tail rfl
  have advance : sixteenth.advance = 1024 := by
    unfold RxFrame.advance RxFrame.size sixteenth
    rw [List.length_replicate]
    rfl
  exact not_allRight_of_full 15 rfl (by rw [advance]; rfl) inLoop

end Runs

end Rtl8139

end CleanOS.Net
