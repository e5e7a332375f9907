import CleanOS.Lib.Calls
import CleanOS.Net.Arp

/-!
# The transmit ring of the RTL8139

`rtl8139_xmit` and `handle_rtl8139` of `kernel/net/driver/rtl8139.c` give packets of the output
queue to the card.  Both write the descriptor at `curr`; the handler frees those at `dirty` that
the card is done with.  Threads call `netif_put_out` and then `rtl8139_xmit`; they are interrupted
between any two steps outside of its protected part.  Packets have numbers, in the order of the
output queue.
-/

namespace CleanOS.Net

open CleanOS.Lib

/-- `R8139DN_TX_DESC_NB`. -/
def txDescNb : Nat := 4

/-- `INT_TOK`. -/
def intTok : UInt16 := 0x4

/-- `INT_TER`. -/
def intTer : UInt16 := 0x8

/-- A descriptor: after the reset, while the card sends its packet, and when the card has set one
of the bits `TSD_TOK`, `TSD_TABT` and `TSD_TUN`. -/
inductive TxStatus where
  | reset
  | sending (packet : Nat)
  | done
  deriving DecidableEq

/-- Where a thread stands in `netif_put_out` and the call of `rtl8139_xmit` after it. -/
inductive XmitPhase where
  | idle
  | sendWait
  | storing
  | queued
  | recvWait
  | taking
  | holding (packet : Option Nat)
  deriving DecidableEq

/-- Where the handler stands, and which thread it interrupts: in the loop over the descriptors, or
in the wait of `netif_get_out`. -/
inductive TxHandler where
  | idle
  | loop (interrupted : Nat)
  | waiting (interrupted : Nat)
  deriving DecidableEq

/-- The driver, its threads and the card.  `put` is the number of packets put in the queue so far;
`handed` are those that the card got, and `overwritten` those that were lost in their
descriptor. -/
structure TxRing where
  curr : Nat
  dirty : Nat
  freeCount : Int
  queue : Fixq Nat
  threads : List XmitPhase
  handler : TxHandler
  tsd : Nat → TxStatus
  next : Nat
  put : Nat
  handed : List Nat
  overwritten : List Nat

/-- The next step of a thread, an interrupt of a thread, the next step of the handler, and the end
of a transmission. -/
inductive TxAction where
  | thread (thread : Nat)
  | interrupt (thread : Nat) (isr : UInt16)
  | handler
  | complete

namespace XmitPhase

def isStoring : XmitPhase → Bool
  | .storing => true
  | _ => false

def isTaking : XmitPhase → Bool
  | .taking => true
  | _ => false

end XmitPhase

namespace TxRing

/-- `rtl8139_setup_tx`, with the queue of `netif_open`. -/
def setupTx (buf : Nat → Nat) (threads : Nat) : TxRing where
  curr := 0
  dirty := 0
  freeCount := txDescNb
  queue := .fixqInit buf netifOutqSize
  threads := List.replicate threads .idle
  handler := .idle
  tsd := fun _ => .reset
  next := 0
  put := 0
  handed := []
  overwritten := []

def setPhase (ring : TxRing) (thread : Nat) (phase : XmitPhase) : TxRing :=
  { ring with threads := ring.threads.set thread phase }

def lost : TxStatus → List Nat
  | .sending packet => [packet]
  | .reset | .done => []

/-- A packet is copied to the descriptor at `curr`, and its transmission starts. -/
def hand (ring : TxRing) (packet : Nat) : TxRing :=
  { ring with
    tsd := Function.update ring.tsd ring.curr (.sending packet)
    curr := if txDescNb ≤ ring.curr + 1 then 0 else ring.curr + 1
    freeCount := ring.freeCount - 1
    handed := ring.handed ++ [packet]
    overwritten := ring.overwritten ++ lost (ring.tsd ring.curr) }

/-- The descriptor at `dirty` is free again. -/
def reap (ring : TxRing) : TxRing :=
  { ring with
    freeCount := ring.freeCount + 1
    dirty := if txDescNb ≤ ring.dirty + 1 then 0 else ring.dirty + 1 }

def mayRun (ring : TxRing) (thread : Nat) : Bool :=
  match ring.handler with
  | .idle => true
  | .loop _ => false
  | .waiting interrupted => interrupted ≠ thread

/-- The next step of `netif_put_out` and `rtl8139_xmit`. -/
def threadStep (ring : TxRing) (thread : Nat) : Option TxRing :=
  match ring.threads[thread]? with
  | some .idle =>
      if ring.queue.sendFull (-1) then some ring
      else some (ring.setPhase thread .sendWait)
  | some .sendWait => do
      let queue ← ring.queue.acquireSend
      return { ring with queue }.setPhase thread .storing
  | some .storing =>
      some ({ ring with queue := ring.queue.store ring.put, put := ring.put + 1 }.setPhase thread
        .queued)
  | some .queued =>
      if ring.queue.recvEmpty 0 then some (ring.setPhase thread (.holding none))
      else some (ring.setPhase thread .recvWait)
  | some .recvWait => do
      let queue ← ring.queue.acquireReceive
      return { ring with queue }.setPhase thread .taking
  | some .taking =>
      let (packet, queue) := ring.queue.take
      some ({ ring with queue }.setPhase thread (.holding (some packet)))
  | some (.holding (some packet)) => some ((ring.hand packet).setPhase thread .idle)
  | some (.holding none) | none => none

/-- The handler takes a packet with the wait of `fixq_recv`, or stops in it. -/
def takeAndHand (ring : TxRing) (interrupted : Nat) : TxRing :=
  match ring.queue.acquireReceive with
  | none => { ring with handler := .waiting interrupted }
  | some queue =>
      let (packet, queue) := queue.take
      { ring with queue, handler := .loop interrupted }.hand packet

def handlerStep (ring : TxRing) : Option TxRing :=
  match ring.handler with
  | .idle => none
  | .loop interrupted =>
      if ring.freeCount < 4 ∧ ring.tsd ring.dirty = .done then
        if ring.queue.recvEmpty (-1) then some ring.reap
        else some (ring.reap.takeAndHand interrupted)
      else some { ring with handler := .idle }
  | .waiting interrupted =>
      if 0 < ring.queue.receiveSem then some (ring.takeAndHand interrupted) else none

/-- The card is done with the descriptor at `next`. -/
def completeStep (ring : TxRing) : Option TxRing :=
  match ring.tsd ring.next with
  | .sending _ =>
      some { ring with
        tsd := Function.update ring.tsd ring.next .done
        next := if txDescNb ≤ ring.next + 1 then 0 else ring.next + 1 }
  | .reset | .done => none

def step (ring : TxRing) : TxAction → Option (Unit × TxRing)
  | .thread thread =>
      if ring.mayRun thread then (ring.threadStep thread).map fun after => ((), after) else none
  | .interrupt thread isr =>
      if ring.handler = .idle then
        some ((), if isr &&& intTok ≠ 0 ∨ isr &&& intTer ≠ 0 then
          { ring with handler := .loop thread } else ring)
      else none
  | .handler => ring.handlerStep.map fun after => ((), after)
  | .complete => ring.completeStep.map fun after => ((), after)

/-! ### The claim about a state -/

def Held (ring : TxRing) (packet : Nat) : Prop :=
  ∃ thread : Nat, ring.threads[thread]? = some (XmitPhase.holding (some packet))

/-- The counters fit, no descriptor was overwritten, no packet is null, and the card got the
packets of the queue, each once and in order. -/
structure Right (ring : TxRing) : Prop where
  free_nonneg : 0 ≤ ring.freeCount
  free_le : ring.freeCount ≤ 4
  curr_eq : (ring.curr : Int) = (ring.dirty + 4 - ring.freeCount) % 4
  kept : ring.overwritten = []
  notNull : ∀ thread : Nat, ring.threads[thread]? ≠ some (XmitPhase.holding none)
  inOrder : ring.handed <+: List.range ring.put
  accounted : ∀ packet < ring.put,
    packet ∈ ring.handed ∨ ring.Held packet ∨ packet ∈ ring.queue.messages

def handing (ring : TxRing) : TxAction → Option Nat
  | .thread thread =>
      match ring.threads[thread]? with
      | some (.holding packet) => if ring.mayRun thread then packet else none
      | _ => none
  | .handler =>
      match ring.handler with
      | .idle => none
      | .loop _ =>
          if ring.freeCount < 4 ∧ ring.tsd ring.dirty = .done ∧
              ring.queue.recvEmpty (-1) = false ∧ 0 < ring.queue.receiveSem then
            some ring.queue.take.1
          else none
      | .waiting _ => if 0 < ring.queue.receiveSem then some ring.queue.take.1 else none
  | .interrupt _ _ | .complete => none

/-- Where a packet is handed to the card, a descriptor is free, or the loop of the handler has
just freed one, and no xmit holds an older packet. -/
def InTurn (ring : TxRing) (action : TxAction) : Prop :=
  ∀ packet, ring.handing action = some packet →
    (0 < ring.freeCount ∨ ∃ interrupted, ring.handler = .loop interrupted) ∧
      ∀ held, ring.Held held → packet ≤ held

/-! ### Descriptors -/

/-- From `dirty` on come the descriptors that the card is done with, those it has to send, and
the free ones up to four. -/
structure Descriptors (ring : TxRing) (done sending : Nat) : Prop where
  dirty_lt : ring.dirty < 4
  used_le : done + sending ≤ 4
  free_eq : ring.freeCount = 4 - (done + sending : Nat)
  curr_eq : ring.curr = (ring.dirty + (done + sending)) % 4
  next_eq : ring.next = (ring.dirty + done) % 4
  isDone : ∀ i < done, ring.tsd ((ring.dirty + i) % 4) = .done
  isSending : ∀ i, done ≤ i → i < done + sending →
    ∃ packet, ring.tsd ((ring.dirty + i) % 4) = .sending packet
  isFree : ∀ i, done + sending ≤ i → i < 4 → lost (ring.tsd ((ring.dirty + i) % 4)) = []

variable {ring after : TxRing} {done sending packet thread : Nat}

theorem descriptors_setupTx (buf : Nat → Nat) (threads : Nat) :
    (setupTx buf threads).Descriptors 0 0 where
  dirty_lt := Nat.zero_lt_succ _
  used_le := Nat.zero_le _
  free_eq := rfl
  curr_eq := rfl
  next_eq := rfl
  isDone _ below := absurd below (Nat.not_lt_zero _)
  isSending _ _ below := absurd below (Nat.not_lt_zero _)
  isFree _ _ _ := rfl

theorem wrap_eq {index : Nat} (inside : index < 4) :
    (if txDescNb ≤ index + 1 then 0 else index + 1) = (index + 1) % 4 :=
  Ring.next_eq_mod inside

theorem Descriptors.hand (descriptors : ring.Descriptors done sending)
    (free : 0 < ring.freeCount) (packet : Nat) :
    (ring.hand packet).Descriptors done (sending + 1) ∧
      (ring.hand packet).overwritten = ring.overwritten := by
  have inside := descriptors.dirty_lt
  have used : done + sending < 4 := by
    have free_eq := descriptors.free_eq
    omega
  have curr_eq := descriptors.curr_eq
  have apart : ∀ i, i ≠ done + sending → i < 4 → (ring.dirty + i) % 4 ≠ ring.curr := by
    intro i different below
    omega
  have others : ∀ i, i ≠ done + sending → i < 4 →
      (ring.hand packet).tsd ((ring.dirty + i) % 4) = ring.tsd ((ring.dirty + i) % 4) :=
    fun i different below => Function.update_of_ne (apart i different below) ..
  refine ⟨⟨inside, used, ?_, ?_, descriptors.next_eq, ?_, ?_, ?_⟩, ?_⟩
  · have free_eq := descriptors.free_eq
    show ring.freeCount - 1 = _
    omega
  · show (if txDescNb ≤ ring.curr + 1 then 0 else ring.curr + 1) = _
    rw [wrap_eq (by omega), curr_eq]
    show _ = (ring.dirty + _) % 4
    omega
  · intro i below
    exact (others i (by omega) (by omega)).trans (descriptors.isDone i below)
  · intro i notDone below
    by_cases last : i = done + sending
    · refine ⟨packet, ?_⟩
      show Function.update ring.tsd ring.curr _ ((ring.dirty + i) % 4) = _
      rw [last, ← curr_eq, Function.update_self]
    · obtain ⟨other, isOther⟩ := descriptors.isSending i notDone (by omega)
      exact ⟨other, (others i last (by omega)).trans isOther⟩
  · intro i free below
    exact (congrArg lost (others i (by omega) below)).trans
      (descriptors.isFree i (by omega) below)
  · show ring.overwritten ++ lost (ring.tsd ring.curr) = _
    rw [curr_eq, descriptors.isFree _ (Nat.le_refl _) used, List.append_nil]

theorem Descriptors.reap (descriptors : ring.Descriptors done sending)
    (used : ring.freeCount < 4) (isDone : ring.tsd ring.dirty = .done) :
    ∃ fewer, ring.reap.Descriptors fewer sending := by
  have inside := descriptors.dirty_lt
  have free_eq := descriptors.free_eq
  have used_le := descriptors.used_le
  have next_eq := descriptors.next_eq
  have curr_eq := descriptors.curr_eq
  have first : (ring.dirty + 0) % 4 = ring.dirty := Nat.mod_eq_of_lt inside
  obtain ⟨fewer, rfl⟩ : ∃ fewer, done = fewer + 1 := by
    refine Nat.exists_eq_add_one.mpr (Nat.pos_of_ne_zero ?_)
    rintro rfl
    obtain ⟨packet, isSending⟩ := descriptors.isSending 0 (Nat.le_refl _) (by omega)
    rw [first, isDone] at isSending
    cases isSending
  have isDirty : ring.reap.dirty = (ring.dirty + 1) % 4 := wrap_eq inside
  have shift : ∀ i, (ring.reap.dirty + i) % 4 = (ring.dirty + (i + 1)) % 4 := by
    intro i
    rw [isDirty]
    omega
  refine ⟨fewer, ?_, by omega, ?_, ?_, ?_, ?_, ?_, ?_⟩
  · rw [isDirty]
    exact Nat.mod_lt _ (Nat.zero_lt_succ _)
  · show ring.freeCount + 1 = _
    omega
  · rw [shift]
    show ring.curr = _
    rw [curr_eq]
    omega
  · rw [shift]
    exact next_eq
  · intro i below
    rw [shift]
    exact descriptors.isDone (i + 1) (by omega)
  · intro i notDone below
    rw [shift]
    exact descriptors.isSending (i + 1) (by omega) (by omega)
  · intro i free below
    rw [shift]
    by_cases last : i + 1 = 4
    · have wraps : (ring.dirty + (i + 1)) % 4 = ring.dirty := by omega
      rw [wraps]
      exact congrArg lost isDone
    · exact descriptors.isFree (i + 1) (by omega) (by omega)

theorem Descriptors.complete (descriptors : ring.Descriptors done sending)
    (completed : ring.completeStep = some after) :
    ∃ fewer, after.Descriptors (done + 1) fewer := by
  have inside := descriptors.dirty_lt
  have used_le := descriptors.used_le
  have next_eq := descriptors.next_eq
  rw [completeStep] at completed
  split at completed
  next packet isSending =>
    cases completed
    have notFree : ∀ i, done + sending ≤ i → i < 4 → (ring.dirty + i) % 4 ≠ ring.next := by
      intro i free below same
      have isFree := descriptors.isFree i free below
      rw [same, isSending] at isFree
      cases isFree
    have notDone : ∀ i < done, (ring.dirty + i) % 4 ≠ ring.next := by
      intro i below same
      have isDone := descriptors.isDone i below
      rw [same, isSending] at isDone
      cases isDone
    obtain ⟨fewer, rfl⟩ : ∃ fewer, sending = fewer + 1 := by
      refine Nat.exists_eq_add_one.mpr (Nat.pos_of_ne_zero ?_)
      rintro rfl
      by_cases all : done < 4
      · exact notFree done (Nat.le_refl _) all next_eq.symm
      · exact notDone 0 (by omega) (by omega)
    have others : ∀ i, i ≠ done → i < 4 →
        Function.update ring.tsd ring.next .done ((ring.dirty + i) % 4) =
          ring.tsd ((ring.dirty + i) % 4) := by
      intro i different below
      exact Function.update_of_ne (by omega) ..
    refine ⟨fewer, inside, by omega, ?_, ?_, ?_, ?_, ?_, ?_⟩
    · have free_eq := descriptors.free_eq
      show ring.freeCount = _
      omega
    · have curr_eq := descriptors.curr_eq
      show ring.curr = (ring.dirty + _) % 4
      omega
    · show (if txDescNb ≤ ring.next + 1 then 0 else ring.next + 1) = _
      rw [wrap_eq (by omega), next_eq]
      show _ = (ring.dirty + _) % 4
      omega
    · intro i below
      by_cases last : i = done
      · show Function.update ring.tsd ring.next .done ((ring.dirty + i) % 4) = _
        rw [last, ← next_eq, Function.update_self]
      · exact (others i last (by omega)).trans (descriptors.isDone i (by omega))
    · intro i past below
      obtain ⟨other, isOther⟩ := descriptors.isSending i (by omega) (by omega)
      exact ⟨other, (others i (by omega) (by omega)).trans isOther⟩
    · intro i free below
      exact (congrArg lost (others i (by omega) below)).trans
        (descriptors.isFree i (by omega) below)
  next => cases completed
  next => cases completed

/-! ### Packets -/

def storing (ring : TxRing) : Nat :=
  ring.threads.countP XmitPhase.isStoring

def taking (ring : TxRing) : Nat :=
  ring.threads.countP XmitPhase.isTaking

/-- The card got the packets below a number, threads hold those from there to the number of the
packets taken, one each, and the queue stores the others. -/
structure Packets (ring : TxRing) (taken : Nat) : Prop where
  handed_eq : ring.handed = List.range ring.handed.length
  handed_le : ring.handed.length ≤ taken
  taken_le : taken ≤ ring.put
  stores : ring.queue.Stores (List.range' taken (ring.put - taken)) ring.storing ring.taking
  held_iff : ∀ packet, ring.Held packet ↔ ring.handed.length ≤ packet ∧ packet < taken
  unique : ∀ {first second packet : Nat},
    ring.threads[first]? = some (XmitPhase.holding (some packet)) →
    ring.threads[second]? = some (XmitPhase.holding (some packet)) → first = second
  notNull : ∀ thread : Nat, ring.threads[thread]? ≠ some (XmitPhase.holding none)

variable {taken : Nat} {before phase : XmitPhase}

theorem packets_setupTx (buf : Nat → Nat) (threads : Nat) : (setupTx buf threads).Packets 0 := by
  have idle : ∀ (thread : Nat) (phase : XmitPhase),
      (setupTx buf threads).threads[thread]? = some phase → phase = .idle := by
    intro thread phase found
    exact List.eq_of_mem_replicate (List.mem_of_getElem? found)
  have noneStoring : (setupTx buf threads).storing = 0 := by
    simp only [storing, setupTx, List.countP_replicate]
    rfl
  have noneTaking : (setupTx buf threads).taking = 0 := by
    simp only [taking, setupTx, List.countP_replicate]
    rfl
  refine ⟨rfl, Nat.le_refl _, Nat.le_refl _, ?_, ?_, ?_, ?_⟩
  · rw [noneStoring, noneTaking]
    exact Fixq.stores_fixqInit (Nat.zero_lt_succ _) buf
  · intro packet
    constructor
    · rintro ⟨thread, found⟩
      cases idle thread _ found
    · rintro ⟨-, below⟩
      exact absurd below (Nat.not_lt_zero packet)
  · intro first second packet found
    cases idle first _ found
  · intro thread found
    cases idle thread _ found

theorem setPhase_threads (found : ring.threads[thread]? = some before) (other : Nat) :
    (ring.setPhase thread phase).threads[other]? =
      if other = thread then some phase else ring.threads[other]? := by
  obtain ⟨inside, -⟩ := List.getElem?_eq_some_iff.mp found
  show (ring.threads.set thread phase)[other]? = _
  by_cases same : other = thread
  · rw [if_pos same, same, List.getElem?_set_self inside]
  · rw [if_neg same, List.getElem?_set_ne (Ne.symm same)]

theorem setPhase_permits (found : ring.threads[thread]? = some before) (phase : XmitPhase) :
    (ring.setPhase thread phase).storing + before.isStoring.toNat =
        ring.storing + phase.isStoring.toNat ∧
      (ring.setPhase thread phase).taking + before.isTaking.toNat =
        ring.taking + phase.isTaking.toNat :=
  ⟨countP_set found phase _, countP_set found phase _⟩

theorem Packets.others (packets : ring.Packets taken) (curr dirty next : Nat) (freeCount : Int)
    (handler : TxHandler) (tsd : Nat → TxStatus) (overwritten : List Nat) :
    Packets { ring with curr, dirty, next, freeCount, handler, tsd, overwritten } taken :=
  ⟨packets.handed_eq, packets.handed_le, packets.taken_le, packets.stores, packets.held_iff,
    packets.unique, packets.notNull⟩

theorem Packets.setPhase (packets : ring.Packets taken)
    (found : ring.threads[thread]? = some before) (notBefore : ∀ packet, before ≠ .holding packet)
    (notAfter : ∀ packet, phase ≠ .holding packet) {queue : Fixq Nat} {put storing taking : Nat}
    (taken_le : taken ≤ put)
    (stores : queue.Stores (List.range' taken (put - taken)) storing taking)
    (storing_eq : storing + before.isStoring.toNat = ring.storing + phase.isStoring.toNat)
    (taking_eq : taking + before.isTaking.toNat = ring.taking + phase.isTaking.toNat) :
    ({ ring with queue, put }.setPhase thread phase).Packets taken := by
  have same : ∀ (other : Nat) packet,
      ({ ring with queue, put }.setPhase thread phase).threads[other]? =
        some (XmitPhase.holding packet) ↔
      ring.threads[other]? = some (XmitPhase.holding packet) := by
    intro other packet
    show (ring.setPhase thread phase).threads[other]? = _ ↔ _
    rw [setPhase_threads found]
    split
    next isThread =>
      subst isThread
      rw [found]
      exact ⟨fun equal => absurd (Option.some.inj equal) (notAfter packet),
        fun equal => absurd (Option.some.inj equal) (notBefore packet)⟩
    next => exact Iff.rfl
  obtain ⟨storingAfter, takingAfter⟩ := setPhase_permits found phase
  refine ⟨packets.handed_eq, packets.handed_le, taken_le, ?_, ?_, ?_, ?_⟩
  · have sameStoring : ({ ring with queue, put }.setPhase thread phase).storing = storing := by
      show (ring.setPhase thread phase).storing = storing
      omega
    have sameTaking : ({ ring with queue, put }.setPhase thread phase).taking = taking := by
      show (ring.setPhase thread phase).taking = taking
      omega
    rw [sameStoring, sameTaking]
    exact stores
  · intro packet
    exact (exists_congr fun other => same other (some packet)).trans (packets.held_iff packet)
  · intro first second packet isFirst isSecond
    exact packets.unique ((same first _).mp isFirst) ((same second _).mp isSecond)
  · intro other isNull
    exact packets.notNull other ((same other none).mp isNull)

theorem Packets.take (packets : ring.Packets taken)
    (found : ring.threads[thread]? = some .taking) :
    ({ ring with queue := ring.queue.take.2 }.setPhase thread
      (.holding (some ring.queue.take.1))).Packets (taken + 1) := by
  obtain ⟨others, isTaking⟩ : ∃ others, ring.taking = others + 1 :=
    Nat.exists_eq_add_one.mpr
      (List.countP_pos_iff.mpr ⟨_, List.mem_of_getElem? found, rfl⟩)
  have stores := packets.stores
  rw [isTaking] at stores
  obtain ⟨packet, rest, split, taken_eq, storesRest⟩ := stores.take
  have inQueue : taken < ring.put := by
    refine Nat.lt_of_not_le fun all => ?_
    rw [Nat.sub_eq_zero_of_le all] at split
    cases split
  have isRange : ring.put - taken = (ring.put - (taken + 1)) + 1 := by omega
  rw [isRange, List.range'_succ] at split
  obtain ⟨rfl, rfl⟩ := List.cons.inj split
  have threadsAfter : ∀ other : Nat, ({ ring with queue := ring.queue.take.2 }.setPhase thread
      (.holding (some ring.queue.take.1))).threads[other]? =
      if other = thread then some (.holding (some taken)) else ring.threads[other]? := by
    intro other
    rw [taken_eq]
    exact setPhase_threads found other
  have notHeld : ∀ other : Nat, ring.threads[other]? ≠ some (.holding (some taken)) := by
    intro other isHeld
    exact Nat.lt_irrefl taken ((packets.held_iff taken).mp ⟨other, isHeld⟩).2
  obtain ⟨storingAfter, takingAfter⟩ :=
    @setPhase_permits ring thread _ found (.holding (some ring.queue.take.1))
  refine ⟨packets.handed_eq, Nat.le_succ_of_le packets.handed_le, inQueue, ?_, ?_, ?_, ?_⟩
  · have sameStoring : ({ ring with queue := ring.queue.take.2 }.setPhase thread
        (.holding (some ring.queue.take.1))).storing = ring.storing := storingAfter
    have sameTaking : ({ ring with queue := ring.queue.take.2 }.setPhase thread
        (.holding (some ring.queue.take.1))).taking = others := by
      have account : _ + 1 = ring.taking + 0 := takingAfter
      rw [isTaking] at account
      exact Nat.succ.inj account
    rw [sameStoring, sameTaking]
    exact storesRest
  · intro packet
    constructor
    · rintro ⟨other, isHeld⟩
      rw [threadsAfter] at isHeld
      split at isHeld
      next =>
        cases isHeld
        exact ⟨packets.handed_le, Nat.lt_succ_self taken⟩
      next =>
        obtain ⟨notHanded, below⟩ := (packets.held_iff packet).mp ⟨other, isHeld⟩
        exact ⟨notHanded, Nat.lt_succ_of_lt below⟩
    · rintro ⟨notHanded, below⟩
      rcases Nat.lt_succ_iff_lt_or_eq.mp below with older | rfl
      · obtain ⟨other, isHeld⟩ := (packets.held_iff packet).mpr ⟨notHanded, older⟩
        refine ⟨other, ?_⟩
        rw [threadsAfter, if_neg]
        · exact isHeld
        · rintro rfl
          rw [found] at isHeld
          cases isHeld
      · refine ⟨thread, ?_⟩
        rw [threadsAfter, if_pos rfl]
  · intro first second packet isFirst isSecond
    rw [threadsAfter] at isFirst isSecond
    split at isFirst
    next sameFirst =>
      cases isFirst
      split at isSecond
      next sameSecond => exact sameFirst.trans sameSecond.symm
      next => exact absurd isSecond (notHeld second)
    next =>
      split at isSecond
      next =>
        cases isSecond
        exact absurd isFirst (notHeld first)
      next => exact packets.unique isFirst isSecond
  · intro other isNull
    rw [threadsAfter] at isNull
    split at isNull
    next => cases isNull
    next => exact packets.notNull other isNull

theorem Packets.hand (packets : ring.Packets taken)
    (found : ring.threads[thread]? = some (.holding (some packet)))
    (oldest : ∀ held, ring.Held held → packet ≤ held) :
    ((ring.hand packet).setPhase thread .idle).Packets taken := by
  obtain ⟨notHanded, below⟩ := (packets.held_iff packet).mp ⟨thread, found⟩
  have isNext : packet = ring.handed.length := by
    have first := oldest _ ((packets.held_iff ring.handed.length).mpr ⟨Nat.le_refl _, by omega⟩)
    omega
  have length : (ring.handed ++ [packet]).length = packet + 1 := by
    rw [List.length_append, List.length_singleton, isNext]
  have threadsAfter : ∀ other : Nat, ((ring.hand packet).setPhase thread .idle).threads[other]? =
      if other = thread then some .idle else ring.threads[other]? :=
    fun other => setPhase_threads found other
  obtain ⟨storingAfter, takingAfter⟩ := @setPhase_permits ring thread _ found .idle
  refine ⟨?_, ?_, packets.taken_le, ?_, ?_, ?_, ?_⟩
  · show ring.handed ++ [packet] = List.range (ring.handed ++ [packet]).length
    rw [length, List.range_succ, packets.handed_eq, ← isNext]
  · show (ring.handed ++ [packet]).length ≤ taken
    omega
  · have sameStoring : ((ring.hand packet).setPhase thread .idle).storing = ring.storing :=
      storingAfter
    have sameTaking : ((ring.hand packet).setPhase thread .idle).taking = ring.taking :=
      takingAfter
    rw [sameStoring, sameTaking]
    exact packets.stores
  · intro other
    show _ ↔ (ring.handed ++ [packet]).length ≤ other ∧ _
    rw [length]
    constructor
    · rintro ⟨holder, isHeld⟩
      rw [threadsAfter] at isHeld
      split at isHeld
      next => cases isHeld
      next different =>
        obtain ⟨notHandedOther, belowOther⟩ := (packets.held_iff other).mp ⟨holder, isHeld⟩
        have isOther : other ≠ packet := by
          rintro rfl
          exact different (packets.unique isHeld found)
        exact ⟨by omega, belowOther⟩
    · rintro ⟨later, belowOther⟩
      obtain ⟨holder, isHeld⟩ := (packets.held_iff other).mpr ⟨by omega, belowOther⟩
      refine ⟨holder, ?_⟩
      rw [threadsAfter, if_neg]
      · exact isHeld
      · rintro rfl
        rw [found] at isHeld
        cases isHeld
        omega
  · intro first second other isFirst isSecond
    rw [threadsAfter] at isFirst isSecond
    split at isFirst
    next => cases isFirst
    next =>
      split at isSecond
      next => cases isSecond
      next => exact packets.unique isFirst isSecond
  · intro other isNull
    rw [threadsAfter] at isNull
    split at isNull
    next => cases isNull
    next => exact packets.notNull other isNull

theorem takeAndHand_none (empty : ¬ 0 < ring.queue.receiveSem) (interrupted : Nat) :
    ring.takeAndHand interrupted = { ring with handler := .waiting interrupted } := by
  rw [takeAndHand, Fixq.acquireReceive, if_neg empty]

theorem takeAndHand_some (permit : 0 < ring.queue.receiveSem) (interrupted : Nat) :
    ∃ queue, ring.queue.acquireReceive = some queue ∧ queue.take.1 = ring.queue.take.1 ∧
      ring.takeAndHand interrupted =
        { ring with queue := queue.take.2, handler := .loop interrupted }.hand
          ring.queue.take.1 := by
  have acquired : ring.queue.acquireReceive =
      some { ring.queue with receiveSem := ring.queue.receiveSem - 1 } := if_pos permit
  refine ⟨_, acquired, rfl, ?_⟩
  rw [takeAndHand, acquired]
  rfl

theorem Packets.takeAndHand (packets : ring.Packets taken) (permit : 0 < ring.queue.receiveSem)
    (oldest : ∀ held, ring.Held held → ring.queue.take.1 ≤ held) (interrupted : Nat) :
    (ring.takeAndHand interrupted).Packets (taken + 1) := by
  obtain ⟨queue, acquired, sameFirst, isAfter⟩ := takeAndHand_some permit interrupted
  have stores := packets.stores.acquireReceive acquired
  obtain ⟨packet, rest, split, isFirst, storesRest⟩ := stores.take
  have inQueue : taken < ring.put := by
    refine Nat.lt_of_not_le fun all => ?_
    rw [Nat.sub_eq_zero_of_le all] at split
    cases split
  have isRange : ring.put - taken = (ring.put - (taken + 1)) + 1 := by omega
  rw [isRange, List.range'_succ] at split
  obtain ⟨rfl, rfl⟩ := List.cons.inj split
  rw [sameFirst] at isFirst
  have handed_le := packets.handed_le
  have isNext : taken = ring.handed.length := by
    refine Nat.le_antisymm (Nat.le_of_not_lt fun below => ?_) handed_le
    have first := oldest _
      ((packets.held_iff ring.handed.length).mpr ⟨Nat.le_refl _, below⟩)
    omega
  have length : (ring.handed ++ [taken]).length = taken + 1 := by
    rw [List.length_append, List.length_singleton, isNext]
  rw [isAfter, isFirst]
  refine ⟨?_, ?_, inQueue, storesRest, ?_, packets.unique, packets.notNull⟩
  · show ring.handed ++ [taken] = List.range (ring.handed ++ [taken]).length
    rw [length, List.range_succ, packets.handed_eq, ← isNext]
  · show (ring.handed ++ [taken]).length ≤ taken + 1
    omega
  · intro other
    show ring.Held other ↔ (ring.handed ++ [taken]).length ≤ other ∧ _
    rw [packets.held_iff, length]
    omega

/-! ### Runs -/

structure Sound (ring : TxRing) : Prop where
  descriptors : ∃ done sending, ring.Descriptors done sending
  packets : ∃ taken, ring.Packets taken
  kept : ring.overwritten = []

theorem Sound.right (sound : ring.Sound) : ring.Right := by
  obtain ⟨⟨done, sending, descriptors⟩, ⟨taken, packets⟩, kept⟩ := sound
  have used_le := descriptors.used_le
  have free_eq := descriptors.free_eq
  have curr_eq := descriptors.curr_eq
  have handed_le := packets.handed_le
  have taken_le := packets.taken_le
  refine ⟨by omega, by omega, by omega, kept, packets.notNull, ?_, ?_⟩
  · obtain ⟨later, isLater⟩ := Nat.exists_eq_add_of_le (Nat.le_trans handed_le taken_le)
    rw [packets.handed_eq, isLater, List.range_add]
    exact List.prefix_append _ _
  · intro packet isPut
    by_cases handed : packet < ring.handed.length
    · rw [packets.handed_eq]
      exact .inl (List.mem_range.mpr handed)
    · by_cases isTaken : packet < taken
      · exact .inr (.inl ((packets.held_iff packet).mpr ⟨by omega, isTaken⟩))
      · rw [packets.stores.messages_eq]
        refine .inr (.inr (List.mem_range'_1.mpr ?_))
        omega

theorem sound_setupTx (buf : Nat → Nat) (threads : Nat) : (setupTx buf threads).Sound where
  descriptors := ⟨0, 0, descriptors_setupTx buf threads⟩
  packets := ⟨0, packets_setupTx buf threads⟩
  kept := rfl

theorem Descriptors.others (descriptors : ring.Descriptors done sending) (queue : Fixq Nat)
    (threads : List XmitPhase) (handler : TxHandler) (put : Nat) :
    Descriptors { ring with queue, threads, handler, put } done sending :=
  ⟨descriptors.dirty_lt, descriptors.used_le, descriptors.free_eq, descriptors.curr_eq,
    descriptors.next_eq, descriptors.isDone, descriptors.isSending, descriptors.isFree⟩

theorem Sound.threadStep (sound : ring.Sound) (stepped : ring.threadStep thread = some after)
    (inTurn : ∀ packet, ring.threads[thread]? = some (.holding (some packet)) →
      0 < ring.freeCount ∧ ∀ held, ring.Held held → packet ≤ held) : after.Sound := by
  obtain ⟨⟨done, sending, descriptors⟩, ⟨taken, packets⟩, kept⟩ := sound
  have others := descriptors.others
  have taken_le := packets.taken_le
  have stores := packets.stores
  rw [TxRing.threadStep] at stepped
  split at stepped
  next found =>
    split at stepped
    next =>
      cases stepped
      exact ⟨⟨done, sending, descriptors⟩, ⟨taken, packets⟩, kept⟩
    next =>
      cases stepped
      refine ⟨⟨done, sending, others _ _ _ _⟩, ⟨taken, ?_⟩, kept⟩
      exact packets.setPhase found (by rintro _ ⟨⟩) (by rintro _ ⟨⟩) taken_le stores rfl rfl
  next found =>
    obtain ⟨queue, acquired, returned⟩ := Option.bind_eq_some_iff.mp stepped
    cases returned
    refine ⟨⟨done, sending, others _ _ _ _⟩, ⟨taken, ?_⟩, kept⟩
    exact packets.setPhase found (by rintro _ ⟨⟩) (by rintro _ ⟨⟩) taken_le
      (stores.acquireSend acquired) rfl rfl
  next found =>
    cases stepped
    obtain ⟨busy, isStoring⟩ : ∃ busy, ring.storing = busy + 1 :=
      Nat.exists_eq_add_one.mpr
        (List.countP_pos_iff.mpr ⟨_, List.mem_of_getElem? found, rfl⟩)
    rw [isStoring] at stores
    have longer : List.range' taken (ring.put + 1 - taken) =
        List.range' taken (ring.put - taken) ++ [ring.put] := by
      rw [Nat.succ_sub taken_le, List.range'_1_concat, Nat.add_sub_cancel' taken_le]
    refine ⟨⟨done, sending, others _ _ _ _⟩, ⟨taken, ?_⟩, kept⟩
    refine packets.setPhase found (by rintro _ ⟨⟩) (by rintro _ ⟨⟩)
      (Nat.le_succ_of_le taken_le) ?_ isStoring.symm rfl
    rw [longer]
    exact stores.store ring.put
  next found =>
    split at stepped
    next empty =>
      -- the time-out is not negative: the call waits
      rw [Fixq.recvEmpty, Bool.and_eq_true, decide_eq_true_iff, decide_eq_true_iff] at empty
      exact absurd empty.2 (Int.lt_irrefl 0)
    next =>
      cases stepped
      refine ⟨⟨done, sending, others _ _ _ _⟩, ⟨taken, ?_⟩, kept⟩
      exact packets.setPhase found (by rintro _ ⟨⟩) (by rintro _ ⟨⟩) taken_le stores rfl rfl
  next found =>
    obtain ⟨queue, acquired, returned⟩ := Option.bind_eq_some_iff.mp stepped
    cases returned
    refine ⟨⟨done, sending, others _ _ _ _⟩, ⟨taken, ?_⟩, kept⟩
    exact packets.setPhase found (by rintro _ ⟨⟩) (by rintro _ ⟨⟩) taken_le
      (stores.acquireReceive acquired) rfl rfl
  next found =>
    cases stepped
    exact ⟨⟨done, sending, others _ _ _ _⟩, ⟨taken + 1, packets.take found⟩, kept⟩
  next packet found =>
    cases stepped
    obtain ⟨free, oldest⟩ := inTurn packet found
    obtain ⟨handed, same⟩ := descriptors.hand free packet
    exact ⟨⟨done, sending + 1, handed.others _ _ _ _⟩, ⟨taken, packets.hand found oldest⟩,
      same.trans kept⟩
  next => cases stepped
  next => cases stepped

theorem Sound.takeAndHand (sound : ring.Sound) (free : 0 < ring.freeCount)
    (oldest : 0 < ring.queue.receiveSem → ∀ held, ring.Held held → ring.queue.take.1 ≤ held)
    (interrupted : Nat) : (ring.takeAndHand interrupted).Sound := by
  obtain ⟨⟨done, sending, descriptors⟩, ⟨taken, packets⟩, kept⟩ := sound
  by_cases permit : 0 < ring.queue.receiveSem
  · have packetsAfter := packets.takeAndHand permit (oldest permit) interrupted
    obtain ⟨queue, -, -, isAfter⟩ := takeAndHand_some permit interrupted
    rw [isAfter] at packetsAfter ⊢
    obtain ⟨handed, same⟩ :=
      (descriptors.others queue.take.2 ring.threads (.loop interrupted) ring.put).hand free
        ring.queue.take.1
    exact ⟨⟨done, sending + 1, handed⟩, ⟨taken + 1, packetsAfter⟩, same.trans kept⟩
  · rw [takeAndHand_none permit]
    refine ⟨⟨done, sending, descriptors.others _ _ _ _⟩, ⟨taken, ?_⟩, kept⟩
    exact packets.others _ _ _ _ _ _ _

theorem Sound.reap (sound : ring.Sound) (used : ring.freeCount < 4)
    (isDone : ring.tsd ring.dirty = .done) : ring.reap.Sound := by
  obtain ⟨⟨done, sending, descriptors⟩, ⟨taken, packets⟩, kept⟩ := sound
  obtain ⟨fewer, reaped⟩ := descriptors.reap used isDone
  exact ⟨⟨fewer, sending, reaped⟩, ⟨taken, packets.others _ _ _ _ _ _ _⟩, kept⟩

theorem Sound.handlerStep (sound : ring.Sound) (stepped : ring.handlerStep = some after)
    (inTurn : ring.InTurn .handler) : after.Sound := by
  have right := sound.right
  rw [TxRing.handlerStep] at stepped
  split at stepped
  next => cases stepped
  next interrupted inLoop =>
    split at stepped
    next frees =>
      have reaped := sound.reap frees.1 frees.2
      split at stepped
      next =>
        cases stepped
        exact reaped
      next notEmpty =>
        cases stepped
        refine reaped.takeAndHand ?_ ?_ interrupted
        · have nonneg := right.free_nonneg
          show 0 < ring.freeCount + 1
          omega
        · intro permit
          refine (inTurn ring.queue.take.1 ?_).2
          rw [handing, inLoop]
          exact if_pos ⟨frees.1, frees.2, Bool.eq_false_iff.mpr notEmpty, permit⟩
    next =>
      cases stepped
      obtain ⟨⟨done, sending, descriptors⟩, ⟨taken, packets⟩, kept⟩ := sound
      exact ⟨⟨done, sending, descriptors.others _ _ _ _⟩,
        ⟨taken, packets.others _ _ _ _ _ _ _⟩, kept⟩
  next interrupted isWaiting =>
    split at stepped
    next permit =>
      cases stepped
      have isHanding : ring.handing .handler = some ring.queue.take.1 := by
        rw [handing, isWaiting]
        exact if_pos permit
      obtain ⟨free, oldest⟩ := inTurn _ isHanding
      refine sound.takeAndHand ?_ (fun _ => oldest) interrupted
      rcases free with free | ⟨_, inLoop⟩
      · exact free
      · rw [isWaiting] at inLoop
        cases inLoop
    next => cases stepped

theorem Sound.step {action : TxAction} (sound : ring.Sound) (inTurn : ring.InTurn action)
    (stepped : ring.step action = some ((), after)) : after.Sound := by
  cases action with
  | thread thread =>
      rw [TxRing.step] at stepped
      split at stepped
      next runs =>
        obtain ⟨_, threadStepped, same⟩ := Option.map_eq_some_iff.mp stepped
        cases same
        refine sound.threadStep threadStepped fun packet found => ?_
        have isHanding : ring.handing (.thread thread) = some packet := by
          rw [handing, found]
          exact if_pos runs
        obtain ⟨free, oldest⟩ := inTurn packet isHanding
        refine ⟨free.resolve_right ?_, oldest⟩
        rintro ⟨interrupted, inLoop⟩
        rw [mayRun, inLoop] at runs
        cases runs
      next => cases stepped
  | interrupt thread isr =>
      rw [TxRing.step] at stepped
      split at stepped
      next =>
        cases stepped
        split
        next =>
          obtain ⟨⟨done, sending, descriptors⟩, ⟨taken, packets⟩, kept⟩ := sound
          exact ⟨⟨done, sending, descriptors.others _ _ _ _⟩,
            ⟨taken, packets.others _ _ _ _ _ _ _⟩, kept⟩
        next => exact sound
      next => cases stepped
  | handler =>
      obtain ⟨_, handlerStepped, same⟩ := Option.map_eq_some_iff.mp stepped
      cases same
      exact sound.handlerStep handlerStepped inTurn
  | complete =>
      obtain ⟨_, completed, same⟩ := Option.map_eq_some_iff.mp stepped
      cases same
      obtain ⟨⟨done, sending, descriptors⟩, ⟨taken, packets⟩, kept⟩ := sound
      obtain ⟨fewer, isAfter⟩ := descriptors.complete completed
      rw [completeStep] at completed
      split at completed
      next =>
        cases completed
        exact ⟨⟨done + 1, fewer, isAfter⟩, ⟨taken, packets.others _ _ _ _ _ _ _⟩,
          kept⟩
      next => cases completed
      next => cases completed

theorem step_handing {action : TxAction} (isHanding : ring.handing action = some packet) :
    ∃ after, ring.step action = some ((), after) ∧
      after.handed = ring.handed ++ [packet] ∧ after.put = ring.put ∧
      (after.freeCount = ring.freeCount - 1 ∨ ∃ interrupted, ring.handler = .loop interrupted) := by
  cases action with
  | thread thread =>
      rw [handing] at isHanding
      split at isHanding
      next held found =>
        split at isHanding
        next runs =>
          rw [isHanding] at found
          refine ⟨(ring.hand packet).setPhase thread .idle, ?_, rfl, rfl, .inl rfl⟩
          rw [step, if_pos runs, threadStep, found]
          rfl
        next => cases isHanding
      next => cases isHanding
  | interrupt thread isr => cases isHanding
  | complete => cases isHanding
  | handler =>
      rw [handing] at isHanding
      split at isHanding
      next => cases isHanding
      next interrupted inLoop =>
        split at isHanding
        next takes =>
          cases isHanding
          obtain ⟨used, isDone, notEmpty, permit⟩ := takes
          obtain ⟨queue, -, -, isAfter⟩ := @takeAndHand_some ring.reap permit interrupted
          refine ⟨{ ring.reap with queue := queue.take.2, handler := .loop interrupted }.hand
            ring.queue.take.1, ?_, rfl, rfl, .inr ⟨interrupted, inLoop⟩⟩
          rw [step, handlerStep, inLoop]
          dsimp only
          rw [if_pos ⟨used, isDone⟩, if_neg (Bool.eq_false_iff.mp notEmpty), isAfter]
          rfl
        next => cases isHanding
      next interrupted isWaiting =>
        split at isHanding
        next permit =>
          cases isHanding
          obtain ⟨queue, -, -, isAfter⟩ := takeAndHand_some permit interrupted
          refine ⟨{ ring with queue := queue.take.2, handler := .loop interrupted }.hand
            ring.queue.take.1, ?_, rfl, rfl, .inl rfl⟩
          rw [step, handlerStep, isWaiting]
          dsimp only
          rw [if_pos permit, isAfter]
          rfl
        next => cases isHanding

theorem Sound.inTurn {action : TxAction} (sound : ring.Sound)
    (stepped : ring.step action = some ((), after)) (right : after.Right) :
    ring.InTurn action := by
  obtain ⟨-, ⟨taken, packets⟩, -⟩ := sound
  intro packet isHanding
  obtain ⟨_, again, handed, put, free⟩ := step_handing isHanding
  cases stepped.symm.trans again
  constructor
  · refine free.imp_left fun fewer => ?_
    have nonneg := right.free_nonneg
    omega
  · have inOrder := right.inOrder
    rw [handed, put] at inOrder
    have isNext : packet = ring.handed.length := by
      obtain ⟨later, split⟩ := inOrder
      have isAt : (ring.handed ++ [packet] ++ later)[ring.handed.length]? = some packet := by
        simp
      rw [split] at isAt
      obtain ⟨_, same⟩ := List.getElem?_eq_some_iff.mp isAt
      rw [List.getElem_range] at same
      exact same.symm
    intro held isHeld
    rw [isNext]
    exact ((packets.held_iff held).mp isHeld).1

theorem inTurn_of_none {action : TxAction} (stopped : ring.step action = none) :
    ring.InTurn action := by
  intro packet isHanding
  obtain ⟨_, stepped, -⟩ := step_handing isHanding
  cases stopped.symm.trans stepped

/-- One thread puts a packet in the queue and calls `rtl8139_xmit`. -/
def xmitActions : List TxAction :=
  List.replicate 7 (.thread 0)

end TxRing

end CleanOS.Net
