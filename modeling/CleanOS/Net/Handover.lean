import CleanOS.Net.ArpCache
import CleanOS.Net.Output
import CleanOS.Net.PacketPool

/-!
# Who owns a packet after it was sent

A packet is referenced from the free list, an ARP entry, or a queue of an interface.
A caller hands over a packet that is referenced nowhere.  After an error it should be
referenced nowhere still, and otherwise from exactly one place.
-/

namespace CleanOS.Net

namespace NetStack

/-- Where packets are linked. -/
inductive Place where
  | free
  | arp (index : Nat)
  | input (netif : Nat)
  | output (netif : Nat)
  deriving DecidableEq

def holds (stack : NetStack) : Place → List Nat
  | .free => stack.bufFree
  | .arp index => (stack.cache.entry index).bufList
  | .input netif => (stack.netif netif).inQ
  | .output netif => (stack.netif netif).outQ

def refs (stack : NetStack) (buf : Nat) (place : Place) : Nat :=
  (stack.holds place).count buf

def Unowned (stack : NetStack) (buf : Nat) : Prop :=
  ∀ place, stack.refs buf place = 0

def OwnedOnce (stack : NetStack) (buf : Nat) : Prop :=
  ∃ place, ∀ other, stack.refs buf other = if other = place then 1 else 0

/-- What a call that returns `err` owes to its caller. -/
def Handover (err : NetErr) (after : NetStack) (buf : Nat) : Prop :=
  if err.isError then after.Unowned buf else after.OwnedOnce buf

variable {stack after : NetStack} {netif protocol buf other index : Nat} {ip : IpAddr}
  {dest : HwAddr} {err : NetErr}

theorem Unowned.not_ownedOnce (unowned : stack.Unowned buf) : ¬ stack.OwnedOnce buf := by
  rintro ⟨place, once⟩
  have counted := once place
  rw [unowned place, if_pos rfl] at counted
  cases counted

theorem handover_error (isError : err.isError = true) :
    Handover err after buf ↔ after.Unowned buf := by
  rw [Handover, if_pos isError]

theorem handover_ok (noError : err.isError = false) :
    Handover err after buf ↔ after.OwnedOnce buf := by
  rw [Handover, if_neg (Bool.not_eq_true _ ▸ noError)]

def SameRefs (stack after : NetStack) (buf : Nat) : Prop :=
  ∀ place, after.refs buf place = stack.refs buf place

theorem SameRefs.trans {middle : NetStack} (first : SameRefs stack middle buf)
    (second : SameRefs middle after buf) : SameRefs stack after buf :=
  fun place => (second place).trans (first place)

theorem SameRefs.unowned (same : SameRefs stack after buf) (unowned : stack.Unowned buf) :
    after.Unowned buf :=
  fun place => (same place).trans (unowned place)

theorem OwnedOnce.of_put (unowned : stack.Unowned buf) (place : Place)
    (put : after.refs buf place = stack.refs buf place + 1)
    (others : ∀ other, other ≠ place → after.refs buf other = stack.refs buf other) :
    after.OwnedOnce buf := by
  refine ⟨place, fun other => ?_⟩
  by_cases same : other = place
  · rw [if_pos same, same, put, unowned]
  · rw [if_neg same, others other same, unowned]

theorem setNetif_netif (stack : NetStack) (interface : Interface) (number : Nat) :
    (stack.setNetif netif interface).netif number =
      if number = netif then interface else stack.netif number :=
  Function.update_apply _ _ _ _

theorem refs_setNetif (stack : NetStack) (interface : Interface) (place : Place) :
    (stack.setNetif netif interface).refs buf place =
      if place = .input netif then interface.inQ.count buf
      else if place = .output netif then interface.outQ.count buf
      else stack.refs buf place := by
  cases place with
  | free => rfl
  | arp => rfl
  | input number =>
      simp only [refs, holds, setNetif_netif, Place.input.injEq, reduceCtorEq, if_false]
      split <;> rfl
  | output number =>
      simp only [refs, holds, setNetif_netif, Place.output.injEq, reduceCtorEq, if_false]
      split <;> rfl

theorem refs_pktbufFree (stack : NetStack) (freed buf : Nat) (place : Place) :
    (stack.pktbufFree freed).refs buf place =
      stack.refs buf place + if place = .free ∧ freed = buf then 1 else 0 := by
  cases place with
  | free =>
      rw [refs, holds, pktbufFree, List.count_append, List.count_singleton]
      by_cases same : freed = buf <;> simp [same, refs, holds]
  | arp => exact (Nat.add_zero _).symm
  | input => exact (Nat.add_zero _).symm
  | output => exact (Nat.add_zero _).symm

theorem sameRefs_content (stack : NetStack) (blockList : List Pktblk) (number : Nat)
    (content : Pktbuf) (buf : Nat) :
    SameRefs stack ({ stack with blockList }.setPacket number content) buf := by
  intro place
  cases place <;> rfl

theorem transmitted_handover {first : Nat} {rest : List Nat} (unowned : stack.Unowned buf)
    (oldest : (stack.netif netif).outQ ++ [buf] = first :: rest) :
    ((stack.setNetif netif { stack.netif netif with outQ := rest }).pktbufFree first).OwnedOnce
      buf := by
  have inQ : (stack.netif netif).inQ.count buf = 0 := unowned (.input netif)
  have outQ : (stack.netif netif).outQ.count buf = 0 := unowned (.output netif)
  have counted : (first :: rest).count buf = 1 := by
    rw [← oldest, List.count_append, outQ, List.count_singleton_self]
  rw [List.count_cons] at counted
  by_cases isFirst : first = buf
  · subst isFirst
    rw [if_pos (beq_self_eq_true _)] at counted
    have restCount : rest.count first = 0 := by omega
    refine .of_put unowned .free ?_ fun place elsewhere => ?_
    · rw [refs_pktbufFree, if_pos ⟨rfl, rfl⟩, refs_setNetif, if_neg Place.noConfusion,
        if_neg Place.noConfusion]
    · rw [refs_pktbufFree, if_neg fun both => elsewhere both.1, refs_setNetif, unowned, Nat.add_zero]
      split
      next => exact inQ
      next =>
        split
        next => exact restCount
        next => rfl
  · rw [if_neg (by simpa using isFirst)] at counted
    refine .of_put unowned (.output netif) ?_ fun place elsewhere => ?_
    · rw [refs_pktbufFree, if_neg fun both => Place.noConfusion both.1, refs_setNetif,
        if_neg Place.noConfusion, if_pos rfl, unowned]
      exact counted
    · rw [refs_pktbufFree, if_neg fun both => isFirst both.2, refs_setNetif, unowned, Nat.add_zero,
        if_neg elsewhere]
      split
      next => exact inQ
      next => rfl

theorem etherRawOut_handover (unowned : stack.Unowned buf)
    (out : stack.etherRawOut netif protocol dest buf = some (err, after)) :
    Handover err after buf := by
  cases rawOut_of_etherRawOut out with
  | frameError frame isError =>
      exact (handover_error isError).mpr ((sameRefs_content _ _ _ _ _).unowned unowned)
  | inFull => exact (handover_error rfl).mpr ((sameRefs_content _ _ _ _ _).unowned unowned)
  | outFull => exact (handover_error rfl).mpr ((sameRefs_content _ _ _ _ _).unowned unowned)
  | @looped content blockList =>
      have unownedThere := (sameRefs_content stack blockList buf content buf).unowned unowned
      have inQ : (stack.netif netif).inQ.count buf = 0 := unowned (.input netif)
      refine (handover_ok rfl).mpr (.of_put unownedThere (.input netif) ?_ fun place elsewhere => ?_)
      · rw [refs_setNetif, if_pos rfl, unownedThere, List.count_append, inQ,
          List.count_singleton_self]
      · rw [refs_setNetif, if_neg elsewhere]
        split
        next isOutput => exact isOutput ▸ rfl
        next => rfl
  | @transmitted content blockList _ _ _ _ _ _ _ oldest =>
      have unownedThere := (sameRefs_content stack blockList buf content buf).unowned unowned
      exact (handover_ok rfl).mpr (transmitted_handover unownedThere oldest)

theorem transmitted_sameRefs {first : Nat} {rest : List Nat} (different : other ≠ buf)
    (notOut : stack.refs other (.output netif) = 0)
    (oldest : (stack.netif netif).outQ ++ [buf] = first :: rest) :
    SameRefs stack
      ((stack.setNetif netif { stack.netif netif with outQ := rest }).pktbufFree first) other := by
  have counted : (first :: rest).count other = 0 := by
    rw [← oldest, List.count_append, List.count_singleton, if_neg (by simpa using different.symm)]
    exact notOut
  rw [List.count_eq_zero, List.mem_cons, not_or] at counted
  intro place
  rw [refs_pktbufFree, if_neg fun both => counted.1 both.2.symm, refs_setNetif]
  split
  next isInput => exact isInput ▸ rfl
  next =>
    split
    next isOutput =>
      subst isOutput
      exact (List.count_eq_zero.mpr counted.2).trans notOut.symm
    next => rfl

theorem etherRawOut_sameRefs (different : other ≠ buf)
    (notOut : stack.refs other (.output netif) = 0)
    (out : stack.etherRawOut netif protocol dest buf = some (err, after)) :
    SameRefs stack after other := by
  cases rawOut_of_etherRawOut out with
  | frameError => exact sameRefs_content _ _ _ _ _
  | inFull => exact sameRefs_content _ _ _ _ _
  | outFull => exact sameRefs_content _ _ _ _ _
  | @looped content blockList =>
      refine (sameRefs_content stack blockList buf content other).trans fun place => ?_
      rw [refs_setNetif]
      split
      next isInput =>
        subst isInput
        rw [List.count_append, List.count_singleton, if_neg (by simpa using different.symm)]
        rfl
      next =>
        split
        next isOutput => exact isOutput ▸ rfl
        next => rfl
  | @transmitted content blockList _ first rest _ _ _ _ oldest =>
      have same := sameRefs_content stack blockList buf content other
      exact same.trans (transmitted_sameRefs different ((same _).trans notOut) oldest)

theorem etherIpv4Out_handover (unowned : stack.Unowned buf)
    (out : stack.etherIpv4Out netif ip dest buf = some (err, after)) :
    Handover err after buf := by
  obtain ⟨⟨rawErr, rawStack⟩, raw, rest⟩ := Option.bind_eq_some_iff.mp out
  have handover := etherRawOut_handover unowned raw
  dsimp only at rest
  split at rest
  next =>
    cases rest
    exact handover
  next noError =>
    cases rest
    rw [handover_ok (by simpa using noError)] at handover ⊢
    obtain ⟨place, counted⟩ := handover
    exact ⟨place, fun other => (counted other).symm ▸ by cases other <;> rfl⟩

theorem etherIpv4Out_sameRefs (different : other ≠ buf)
    (notOut : stack.refs other (.output netif) = 0)
    (out : stack.etherIpv4Out netif ip dest buf = some (err, after)) :
    SameRefs stack after other := by
  obtain ⟨⟨rawErr, rawStack⟩, raw, rest⟩ := Option.bind_eq_some_iff.mp out
  have same := etherRawOut_sameRefs different notOut raw
  dsimp only at rest
  split at rest
  next =>
    cases rest
    exact same
  next =>
    cases rest
    exact same.trans fun place => by cases place <;> rfl

/-! ### The request for an address -/

theorem pktbufAlloc_sameRefs (notFree : stack.refs other .free = 0) (size : Int) :
    SameRefs stack (stack.pktbufAlloc size).2 other ∧
      ∀ allocated, (stack.pktbufAlloc size).1 = some allocated → other ≠ allocated := by
  unfold pktbufAlloc
  split
  next => exact ⟨fun _ => rfl, fun _ found => by cases found⟩
  next first bufFree isFree =>
    have notListed : (first :: bufFree).count other = 0 := isFree ▸ notFree
    have counts := notListed
    rw [List.count_eq_zero, List.mem_cons, not_or] at counts
    split
    next =>
      refine ⟨fun place => ?_, fun _ found => by cases found⟩
      cases place with
      | free =>
          rw [notFree, refs, holds, List.count_append, List.count_eq_zero.mpr counts.2,
            List.count_singleton, if_neg (by simpa using Ne.symm counts.1)]
      | arp => rfl
      | input => rfl
      | output => rfl
    next =>
      refine ⟨fun place => ?_, fun allocated found => ?_⟩
      · cases place with
        | free => exact (List.count_eq_zero.mpr counts.2).trans notFree.symm
        | arp => rfl
        | input => rfl
        | output => rfl
      · cases found
        exact counts.1

theorem arpMakeRequest_sameRefs (notFree : stack.refs other .free = 0)
    (notOut : stack.refs other (.output netif) = 0)
    (request : stack.arpMakeRequest netif ip = some (err, after)) :
    SameRefs stack after other := by
  obtain ⟨allocSame, allocOther⟩ := pktbufAlloc_sameRefs notFree arpPktLen
  unfold arpMakeRequest at request
  split at request
  next unallocated alloc =>
    cases request
    rw [alloc] at allocSame
    exact allocSame
  next buf allocated alloc =>
    rw [alloc] at allocSame allocOther
    have different := allocOther buf rfl
    obtain ⟨⟨_, content, blockList⟩, _, rest⟩ := Option.bind_eq_some_iff.mp request
    obtain ⟨content, _, rest⟩ := Option.bind_eq_some_iff.mp rest
    obtain ⟨⟨outErr, outStack⟩, out, rest⟩ := Option.bind_eq_some_iff.mp rest
    have filled := allocSame.trans (sameRefs_content allocated blockList buf content other)
    have sameOut := filled.trans
      (etherRawOut_sameRefs different ((filled (.output netif)).trans notOut) out)
    dsimp only at rest
    split at rest
    next =>
      cases rest
      refine sameOut.trans fun place => ?_
      rw [refs_pktbufFree, if_neg fun both => different both.2.symm, Nat.add_zero]
    next =>
      cases rest
      exact sameOut

/-- There is a header and two blocks for an ARP packet, and room for it. -/
structure Requestable (stack : NetStack) (netif : Nat) : Prop where
  header : stack.bufFree ≠ []
  blocks : 2 ≤ stack.blockList.length
  room : stack.Room netif realMac

theorem pktblockAllocList_one {size : Int} (nonzero : size ≠ 0) (fits : size ≤ pktbufBlkSize)
    (addFront : Bool) (blk : Pktblk) (free : List Pktblk) :
    pktblockAllocList size addFront (blk :: free) =
      ([{ blk with size, data := if addFront then pktbufBlkSize - size else 0 }], free) := by
  have done : ∀ chain, pktblockAllocLoop addFront 0 chain free = (chain, free) := by
    intro chain
    cases free <;> rw [pktblockAllocLoop, if_pos rfl]
  have currSize : (if size > pktbufBlkSize then pktbufBlkSize else size) = size :=
    if_neg (Int.not_lt.mpr fits)
  rw [pktblockAllocList, pktblockAllocLoop, if_neg nonzero]
  simp only [currSize, Int.sub_self, List.nil_append, done]
  cases addFront <;> rfl

theorem pktblockAllocList_nil {size : Int} (nonzero : size ≠ 0) (addFront : Bool) :
    pktblockAllocList size addFront [] = ([], []) := by
  rw [pktblockAllocList, pktblockAllocLoop, if_neg nonzero]

theorem eq_singleton_of_frames {blks : List Pktblk} {blk : Pktblk}
    (frames : blkFrames blks = blkFrames [blk]) :
    ∃ only, blks = [only] ∧ only.size = blk.size ∧ only.data = blk.data := by
  obtain ⟨only, isOnly⟩ : ∃ only, blks = [only] := by
    have length := congrArg List.length frames
    rw [blkFrames, blkFrames, List.length_map, List.length_map] at length
    exact List.length_eq_one_iff.mp length
  subst isOnly
  obtain ⟨_, size, data⟩ := Prod.mk.inj (List.cons.inj frames).1 |>.imp_right Prod.mk.inj
  exact ⟨only, rfl, size, data⟩

theorem pktbufResize_arp {buf : Pktbuf} {blk : Pktblk} (blks : buf.blkList = [blk])
    (total : buf.totalSize = arpPktLen) (size : blk.size = arpPktLen) (data : blk.data = 0)
    (free : List Pktblk) :
    pktbufResize buf ethDataMin free = some (.ok, { buf with
      blkList := [{ blk with size := ethDataMin }], totalSize := ethDataMin }, free) := by
  have tailFree : currBlkTailFree blk = 36 := by
    rw [currBlkTailFree, data, size]
    rfl
  rw [pktbufResize, total, blks]
  simp only [List.getLast?_singleton, tailFree, size]
  rfl

theorem etherFrame_arp {buf content : Pktbuf} {free left : List Pktblk} {blk : Pktblk}
    {src : HwAddr} (blks : buf.blkList = [blk]) (total : buf.totalSize = arpPktLen)
    (size : blk.size = arpPktLen) (data : blk.data = 0)
    (built : etherFrame buf free dest src protocol = some (err, content, left)) :
    err.isError = false ↔ free ≠ [] := by
  unfold etherFrame at built
  have noError : ¬ NetErr.ok.isError = true := by decide
  have short : buf.totalSize < ethDataMin := by
    rw [total]
    decide
  rw [pktbufResize_arp blks total size data] at built
  dsimp only at built
  rw [if_pos short] at built
  obtain ⟨_, pad, built⟩ := Option.bind_eq_some_iff.mp built
  cases pad
  dsimp only at built
  rw [if_neg noError] at built
  obtain ⟨⟨_, sought⟩, seek, built⟩ := Option.bind_eq_some_iff.mp built
  obtain ⟨⟨_, filled⟩, fill, built⟩ := Option.bind_eq_some_iff.mp built
  obtain ⟨_, pad, built⟩ := Option.bind_eq_some_iff.mp built
  cases pad
  dsimp only at built
  rw [if_neg noError] at built
  have layout := ((Tracked.Sound.resetAcc_layout _).trans (Tracked.pktbufSeek_layout seek)).trans
    (Tracked.pktbufFill_layout fill)
  obtain ⟨only, onlyBlk, _, onlyData⟩ := eq_singleton_of_frames layout.frames
  obtain ⟨⟨addErr, added, addFree⟩, add, framed⟩ := Option.bind_eq_some_iff.mp built
  have noRoom : ¬ (etherHdrLen : Int) ≤ only.data := by
    rw [onlyData, data]
    decide
  rw [pktbufAddHeader, onlyBlk] at add
  dsimp only at add
  rw [if_neg noRoom, if_pos rfl, if_neg (by decide)] at add
  cases free with
  | nil =>
      rw [pktblockAllocList_nil (by decide)] at add
      cases add
      cases framed
      exact iff_of_false (by decide) fun nonempty => nonempty rfl
  | cons first others =>
      rw [pktblockAllocList_one (by decide) (by decide)] at add
      cases add
      rw [if_neg noError] at framed
      obtain ⟨_, _, result⟩ := Option.bind_eq_some_iff.mp framed
      cases result
      exact iff_of_true rfl (List.cons_ne_nil _ _)

theorem pktbufAlloc_arp {mem : PktMem} (headers : mem.headers ≠ 0) :
    (mem.blockList = [] ∧ mem.pktbufAlloc arpPktLen = (none, mem)) ∨
      ∃ blk blockList content, mem.blockList = blk :: blockList ∧
        mem.pktbufAlloc arpPktLen =
          (some content, { blockList, headers := mem.headers - 1 }) ∧
        content.blkList = [{ blk with size := arpPktLen, data := 0 }] ∧
        content.totalSize = arpPktLen := by
  rw [PktMem.pktbufAlloc, if_neg headers, if_neg (by decide)]
  cases blocks : mem.blockList with
  | nil =>
      rw [pktblockAllocList_nil (by decide)]
      dsimp only
      rw [← blocks]
      exact .inl ⟨rfl, rfl⟩
  | cons blk blockList =>
      rw [pktblockAllocList_one (by decide) (by decide)]
      exact .inr ⟨blk, blockList, _, rfl, rfl, rfl, rfl⟩

theorem setPktHdr_layout {buf written : Pktbuf} {bytes : List UInt8}
    (writing : setPktHdr buf bytes = some written) : SameLayout buf written := by
  unfold setPktHdr at writing
  split at writing
  next => cases writing
  next first rest blks =>
    obtain ⟨stored, store, result⟩ := Option.bind_eq_some_iff.mp writing
    cases result
    refine ⟨rfl, ?_, rfl⟩
    rw [blks, blkFrames, blkFrames, List.map_cons, List.map_cons, Pktblk.store_frame store]

theorem pktbufSetCont_arp {buf : Pktbuf} {blk : Pktblk} (blks : buf.blkList = [blk])
    (total : buf.totalSize = arpPktLen) (size : blk.size = arpPktLen) (free : List Pktblk) :
    pktbufSetCont buf arpPktLen free = some (.ok, buf, free) := by
  rw [pktbufSetCont, total, if_neg (by decide), if_neg (by decide), blks]
  dsimp only
  rw [if_pos size.ge]

@[simp]
theorem setPacket_packet (stack : NetStack) (buf : Nat) (content : Pktbuf) :
    (stack.setPacket buf content).packet buf = content :=
  Function.update_self _ _ _

theorem arpMakeRequest_noError_iff
    (request : stack.arpMakeRequest netif ip = some (err, after)) :
    err.isError = false ↔ stack.Requestable netif := by
  unfold arpMakeRequest pktbufAlloc at request
  cases headers : stack.bufFree with
  | nil =>
      simp only [headers] at request
      cases request
      exact iff_of_false (by decide) fun requestable => requestable.header headers
  | cons buf bufFree =>
      have someHeader : stack.mem.headers ≠ 0 := by
        rw [mem, headers]
        exact Nat.succ_ne_zero _
      rcases pktbufAlloc_arp someHeader with
        ⟨blocks, alloc⟩ | ⟨blk, blockList, content, blocks, alloc, blks, total⟩
      · have noBlocks : stack.blockList = [] := blocks
        simp only [headers, alloc] at request
        cases request
        refine iff_of_false (by decide) fun requestable => ?_
        have enough := requestable.blocks
        rw [noBlocks] at enough
        cases enough
      · have someBlocks : stack.blockList = blk :: blockList := blocks
        simp only [headers, alloc, setPacket_packet, pktbufSetCont_arp blks total rfl] at request
        obtain ⟨_, set, rest⟩ := Option.bind_eq_some_iff.mp request
        cases set
        obtain ⟨written, writing, rest⟩ := Option.bind_eq_some_iff.mp rest
        obtain ⟨⟨outErr, outStack⟩, out, rest⟩ := Option.bind_eq_some_iff.mp rest
        have layout := setPktHdr_layout writing
        obtain ⟨only, onlyBlk, onlySize, onlyData⟩ := eq_singleton_of_frames
          (layout.frames.trans (congrArg blkFrames blks))
        have sent : err = outErr := by
          dsimp only at rest
          split at rest <;> cases rest <;> rfl
        obtain ⟨⟨frameErr, framed, left⟩, frame, _⟩ := Option.bind_eq_some_iff.mp out
        rw [setPacket_packet] at frame
        have isFrame := etherFrame_arp onlyBlk (layout.total.trans total) onlySize onlyData frame
        have passable := etherRawOut_noError_iff out
        rw [Passable, setPacket_packet, frame] at passable
        rw [sent, passable, Option.map_some]
        constructor
        · rintro ⟨noError, room⟩
          have more := isFrame.mp (Option.some.inj noError)
          refine ⟨headers ▸ List.cons_ne_nil _ _, ?_, room⟩
          rw [someBlocks, List.length_cons]
          exact Nat.succ_le_succ (List.length_pos_iff.mpr more)
        · rintro ⟨_, enough, room⟩
          rw [someBlocks, List.length_cons] at enough
          have more : blockList ≠ [] := List.length_pos_iff.mp (Nat.le_of_succ_le_succ enough)
          exact ⟨congrArg some (isFrame.mpr more), room⟩

/-! ### The cache -/

theorem setEntry_entry (stack : NetStack) (entry : ArpEntry) (number : Nat) :
    (stack.setEntry index entry).cache.entry number =
      if number = index then entry else stack.cache.entry number :=
  Function.update_apply _ _ _ _

theorem refs_setEntry (stack : NetStack) (entry : ArpEntry) (place : Place) :
    (stack.setEntry index entry).refs buf place =
      if place = .arp index then entry.bufList.count buf else stack.refs buf place := by
  cases place with
  | free => rfl
  | arp number =>
      simp only [refs, holds, setEntry_entry, Place.arp.injEq]
      split <;> rfl
  | input => rfl
  | output => rfl

theorem foldl_pktbufFree (bufList : List Nat) (stack : NetStack) :
    bufList.foldl pktbufFree stack = { stack with
      bufFree := stack.bufFree ++ bufList
      blockList := stack.blockList ++ bufList.flatMap fun buf => (stack.packet buf).blkList } := by
  induction bufList generalizing stack with
  | nil => rw [List.foldl_nil, List.flatMap_nil, List.append_nil, List.append_nil]
  | cons buf bufList ih =>
      rw [List.foldl_cons, ih, List.flatMap_cons]
      simp only [pktbufFree, PktMem.pktbufFree, mem, List.append_assoc, List.singleton_append]

/-- The packets that `cache_alloc` gives up for a new entry. -/
def evicted (stack : NetStack) : List Nat :=
  if stack.cache.pool = [] then
    match stack.cache.cacheList.getLast? with
    | some index => (stack.cache.entry index).bufList
    | none => []
  else []

def afterEviction (stack : NetStack) : NetStack :=
  stack.evicted.foldl pktbufFree stack

theorem cacheAlloc_force_spec {allocated : NetStack} (unowned : stack.Unowned buf)
    (alloc : stack.cacheAlloc true = (some index, allocated)) :
    allocated.Unowned buf ∧ (allocated.cache.entry index).bufList = [] ∧
      allocated.bufFree = stack.afterEviction.bufFree ∧
      allocated.blockList = stack.afterEviction.blockList ∧
      allocated.netif = stack.netif := by
  unfold cacheAlloc at alloc
  split at alloc
  next free pool isFree =>
    cases alloc
    have someFree : stack.cache.pool ≠ [] := by
      rw [ExmsgState.mblockAlloc_eq_some_iff.mp isFree]
      exact List.cons_ne_nil _ _
    have nothing : stack.evicted = [] := if_neg someFree
    refine ⟨fun place => ?_, ?_, ?_, ?_, rfl⟩
    · rw [refs_setEntry]
      split
      next => rfl
      next => exact (by cases place <;> rfl : _ = stack.refs buf place).trans (unowned place)
    · rw [setEntry_entry, if_pos rfl]
      rfl
    · rw [afterEviction, nothing]
      rfl
    · rw [afterEviction, nothing]
      rfl
  next isEmpty =>
    rw [if_pos rfl] at alloc
    split at alloc
    next => cases alloc
    next last isLast =>
      cases alloc
      have gone : stack.evicted = (stack.cache.entry index).bufList := by
        rw [evicted, if_pos (ExmsgState.mblockAlloc_eq_none_iff.mp isEmpty), isLast]
      refine ⟨fun place => ?_, ?_, ?_, ?_, ?_⟩
      · rw [refs_setEntry]
        split
        next => rfl
        next elsewhere =>
          rw [cacheClearAll, refs_setEntry, if_neg elsewhere, foldl_pktbufFree]
          cases place with
          | free =>
              rw [refs, holds, List.count_append]
              exact Nat.add_eq_zero_iff.mpr ⟨unowned .free, unowned (.arp index)⟩
          | arp number => exact unowned (.arp number)
          | input number => exact unowned (.input number)
          | output number => exact unowned (.output number)
      · rw [setEntry_entry, if_pos rfl]
        rfl
      · rw [afterEviction, gone, foldl_pktbufFree, cacheClearAll, foldl_pktbufFree]
        rfl
      · rw [afterEviction, gone, foldl_pktbufFree, cacheClearAll, foldl_pktbufFree]
        rfl
      · rw [cacheClearAll, foldl_pktbufFree]
        rfl

theorem cacheAlloc_force_none {allocated : NetStack}
    (alloc : stack.cacheAlloc true = (none, allocated)) :
    stack.cache.pool = [] ∧ stack.cache.cacheList = [] := by
  unfold cacheAlloc at alloc
  split at alloc
  next => cases alloc
  next isEmpty =>
    rw [if_pos rfl] at alloc
    split at alloc
    next isLast =>
      exact ⟨ExmsgState.mblockAlloc_eq_none_iff.mp isEmpty, List.getLast?_eq_none_iff.mp isLast⟩
    next => cases alloc

theorem cacheAlloc_force_some {allocated : NetStack}
    (alloc : stack.cacheAlloc true = (some index, allocated)) :
    stack.cache.pool ≠ [] ∨ stack.cache.cacheList ≠ [] := by
  by_contra none
  rw [not_or, not_not, not_not] at none
  rw [cacheAlloc, none.1, none.2] at alloc
  cases alloc

/-! ### Output -/

/-- `arp_resolve` sends what it has to: the request for an address without an entry. -/
def ResolveReady (stack : NetStack) (netif : Nat) (ip : IpAddr) : Prop :=
  (∀ index ∈ stack.cache.cacheList, (stack.cache.entry index).paddr ≠ ip) →
    stack.cache.pool ≠ [] ∨ stack.cache.cacheList ≠ [] → stack.afterEviction.Requestable netif

theorem requestable_congr (bufFree : after.bufFree = stack.bufFree)
    (blockList : after.blockList = stack.blockList) (netifs : after.netif = stack.netif) :
    after.Requestable netif ↔ stack.Requestable netif := by
  constructor
  · rintro ⟨header, blocks, room⟩
    exact ⟨bufFree ▸ header, blockList ▸ blocks, by rwa [Room, netifs] at room⟩
  · rintro ⟨header, blocks, room⟩
    exact ⟨bufFree.symm ▸ header, blockList.symm ▸ blocks, by rwa [Room, netifs]⟩

theorem arpResolve_handover_iff (unowned : stack.Unowned buf)
    (resolving : stack.arpResolve netif ip buf = some (err, after)) :
    Handover err after buf ↔ stack.ResolveReady netif ip := by
  unfold arpResolve at resolving
  split at resolving
  next index moved found =>
    obtain ⟨member, paddr, isMoved⟩ := cacheFind_some found
    have ready : stack.ResolveReady netif ip := fun absent => absurd paddr (absent index member)
    have movedUnowned : moved.Unowned buf := by
      intro place
      rw [isMoved]
      exact (by cases place <;> rfl : _ = stack.refs buf place).trans (unowned place)
    refine iff_of_true ?_ ready
    dsimp only at resolving
    split at resolving
    next => exact etherIpv4Out_handover movedUnowned resolving
    next =>
      split at resolving
      next =>
        cases resolving
        exact (handover_error rfl).mpr movedUnowned
      next =>
        cases resolving
        refine (handover_ok rfl).mpr (.of_put movedUnowned (.arp index) ?_ fun place elsewhere => ?_)
        · rw [refs_setEntry, if_pos rfl, List.count_cons_self]
          rfl
        · rw [refs_setEntry, if_neg elsewhere]
  next same missed =>
    obtain ⟨isSame, absent⟩ := cacheFind_none missed
    rw [isSame] at resolving
    split at resolving
    next unallocated alloc =>
      cases resolving
      obtain ⟨noPool, noList⟩ := cacheAlloc_force_none alloc
      refine iff_of_true ?_ fun _ some => ?_
      · rw [cacheAlloc_none alloc]
        exact (handover_error rfl).mpr unowned
      · exact absurd some (by rw [noPool, noList]; simp)
    next index allocated alloc =>
      have some := cacheAlloc_force_some alloc
      obtain ⟨allocUnowned, empty, bufFree, blockList, netifs⟩ := cacheAlloc_force_spec unowned alloc
      -- The stack with the packet on the new entry, as the request finds it.
      dsimp only at resolving
      generalize isQueued : NetStack.mk _ _ _ _ _ _ _ _ _ _ = queued at resolving
      have once : ∀ place, queued.refs buf place = if place = .arp index then 1 else 0 := by
        intro place
        have same : queued.refs buf place = (allocated.setEntry index
            { (allocated.cache.entry index).cacheEntrySet allocated.nullBytes ip netif .waiting with
              bufList := buf :: (allocated.cache.entry index).bufList }).refs buf place := by
          rw [← isQueued]
          cases place <;> rfl
        rw [same, refs_setEntry, empty, List.count_singleton_self, allocUnowned]
      have requestable : queued.Requestable netif ↔ stack.afterEviction.Requestable netif := by
        have isBufFree : queued.bufFree = stack.afterEviction.bufFree := by
          rw [← isQueued]
          exact bufFree
        have isBlockList : queued.blockList = stack.afterEviction.blockList := by
          rw [← isQueued]
          exact blockList
        have isNetif : queued.netif = stack.afterEviction.netif := by
          rw [← isQueued, afterEviction, foldl_pktbufFree]
          exact netifs
        exact requestable_congr isBufFree isBlockList isNetif
      have same := arpMakeRequest_sameRefs ((once .free).trans rfl)
        ((once (.output netif)).trans rfl) resolving
      have owned : after.OwnedOnce buf := ⟨.arp index, fun place => (same place).trans (once place)⟩
      have ready : stack.ResolveReady netif ip ↔ err.isError = false := by
        rw [arpMakeRequest_noError_iff resolving, requestable]
        exact ⟨fun ready => ready absent some, fun ready _ _ => ready⟩
      rw [ready]
      constructor
      · intro handover
        by_contra isError
        rw [Bool.not_eq_false] at isError
        exact ((handover_error isError).mp handover).not_ownedOnce owned
      · exact fun noError => (handover_ok noError).mpr owned

theorem cacheFind_sameRefs {found : Option Nat} (find : stack.cacheFind ip = (found, after)) :
    SameRefs stack after buf := by
  intro place
  cases found with
  | none => rw [(cacheFind_none find).1]
  | some index =>
      rw [(cacheFind_some find).2.2]
      cases place <;> rfl

/-- `ether_out` sends what it has to: a packet to the interface itself, or a request. -/
def OutReady (stack : NetStack) (netif : Nat) (ip : IpAddr) (buf : Nat) : Prop :=
  if (stack.netif netif).desc.ipAddr = ip then
    stack.Passable netif netProtocolIpv4 (stack.netif netif).mac buf
  else stack.ResolveReady netif ip

theorem etherOut_handover_iff (unowned : stack.Unowned buf)
    (out : stack.etherOut netif ip buf = some (err, after)) :
    Handover err after buf ↔ stack.OutReady netif ip buf := by
  unfold etherOut at out
  dsimp only at out
  unfold OutReady
  split at out
  next own =>
    obtain ⟨⟨rawErr, rawStack⟩, raw, rest⟩ := Option.bind_eq_some_iff.mp out
    cases rest
    have handover := etherRawOut_handover unowned raw
    rw [if_pos own, ← etherRawOut_noError_iff raw, handover_ok rfl]
    constructor
    · intro owned
      by_contra isError
      rw [Bool.not_eq_false] at isError
      exact ((handover_error isError).mp handover).not_ownedOnce owned
    · exact fun noError => (handover_ok noError).mp handover
  next notOwn =>
    rw [if_neg notOwn]
    unfold arpFind at out
    split at out
    next moved missed =>
      split at missed
      next middle find =>
        cases missed
        obtain ⟨isSame, _⟩ := cacheFind_none find
        rw [isSame] at out
        exact arpResolve_handover_iff unowned out
      next => cases missed
    next hwAddr moved found =>
      split at found
      next => cases found
      next index middle find =>
        cases found
        obtain ⟨member, paddr, _⟩ := cacheFind_some find
        refine iff_of_true ?_ fun absent => absurd paddr (absent index member)
        exact etherIpv4Out_handover ((cacheFind_sameRefs find).unowned unowned) out

/-- `netif_out` without a link layer keeps to the rule; otherwise it is `ether_out`. -/
def NetifReady (stack : NetStack) (netif : Nat) (ip : IpAddr) (buf : Nat) : Prop :=
  (stack.netif netif).linkLayer = true → stack.OutReady netif ip buf

theorem handover_congr {other : NetErr} (same : other.isError = err.isError) :
    Handover other after buf ↔ Handover err after buf := by
  rw [Handover, Handover, same]

theorem netifOut_handover_iff (unowned : stack.Unowned buf)
    (out : stack.netifOut netif ip buf = some (err, after)) :
    Handover err after buf ↔ stack.NetifReady netif ip buf := by
  unfold netifOut at out
  unfold NetifReady
  split at out
  next linked =>
    obtain ⟨⟨outErr, outStack⟩, ether, rest⟩ := Option.bind_eq_some_iff.mp out
    have handover := etherOut_handover_iff unowned ether
    rw [forall_prop_of_true linked, ← handover]
    dsimp only at rest
    split at rest
    next =>
      cases rest
      exact Iff.rfl
    next noError =>
      cases rest
      exact handover_congr (by simpa [NetErr.isError] using Ne.symm noError)
  next plain =>
    refine iff_of_true ?_ fun linked => absurd linked plain
    rcases putOut_xmit out with ⟨_, rfl, rfl⟩ | ⟨_, first, others, oldest, rfl, rfl⟩
    · exact (handover_error rfl).mpr unowned
    · exact (handover_ok rfl).mpr (transmitted_handover unowned oldest)

/-! ### Other packets -/

theorem arpResolve_unowned (different : other ≠ buf) (unowned : stack.Unowned other)
    (resolving : stack.arpResolve netif ip buf = some (err, after)) : after.Unowned other := by
  unfold arpResolve at resolving
  split at resolving
  next index moved found =>
    have movedUnowned := (cacheFind_sameRefs found).unowned unowned
    dsimp only at resolving
    split at resolving
    next =>
      exact (etherIpv4Out_sameRefs different (movedUnowned _) resolving).unowned movedUnowned
    next =>
      split at resolving
      next =>
        cases resolving
        exact movedUnowned
      next =>
        cases resolving
        intro place
        rw [refs_setEntry]
        split
        next isArp =>
          rw [List.count_cons_of_ne different.symm]
          exact movedUnowned (.arp index)
        next => exact movedUnowned place
  next same missed =>
    have sameUnowned := (cacheFind_sameRefs missed).unowned unowned
    split at resolving
    next unallocated alloc =>
      cases resolving
      rw [cacheAlloc_none alloc]
      exact sameUnowned
    next index allocated alloc =>
      obtain ⟨allocUnowned, empty, _⟩ := cacheAlloc_force_spec sameUnowned alloc
      dsimp only at resolving
      generalize isQueued : NetStack.mk _ _ _ _ _ _ _ _ _ _ = queued at resolving
      have queuedUnowned : queued.Unowned other := by
        intro place
        have same : queued.refs other place = (allocated.setEntry index
            { (allocated.cache.entry index).cacheEntrySet allocated.nullBytes ip netif .waiting with
              bufList := buf :: (allocated.cache.entry index).bufList }).refs other place := by
          rw [← isQueued]
          cases place <;> rfl
        rw [same, refs_setEntry, empty, List.count_cons_of_ne different.symm, allocUnowned]
        split <;> rfl
      exact (arpMakeRequest_sameRefs (queuedUnowned _) (queuedUnowned _) resolving).unowned
        queuedUnowned

theorem etherOut_unowned (different : other ≠ buf) (unowned : stack.Unowned other)
    (out : stack.etherOut netif ip buf = some (err, after)) : after.Unowned other := by
  unfold etherOut at out
  dsimp only at out
  split at out
  next =>
    obtain ⟨⟨rawErr, rawStack⟩, raw, rest⟩ := Option.bind_eq_some_iff.mp out
    cases rest
    exact (etherRawOut_sameRefs different (unowned _) raw).unowned unowned
  next =>
    unfold arpFind at out
    split at out
    next moved missed =>
      split at missed
      next middle find =>
        cases missed
        exact arpResolve_unowned different ((cacheFind_sameRefs find).unowned unowned) out
      next => cases missed
    next hwAddr moved found =>
      split at found
      next => cases found
      next index middle find =>
        cases found
        have moved := (cacheFind_sameRefs find).unowned unowned
        exact (etherIpv4Out_sameRefs different (moved _) out).unowned moved

theorem netifOut_unowned (different : other ≠ buf) (unowned : stack.Unowned other)
    (out : stack.netifOut netif ip buf = some (err, after)) : after.Unowned other := by
  unfold netifOut at out
  split at out
  next =>
    obtain ⟨⟨outErr, outStack⟩, ether, rest⟩ := Option.bind_eq_some_iff.mp out
    have outUnowned := etherOut_unowned different unowned ether
    dsimp only at rest
    split at rest <;> cases rest <;> exact outUnowned
  next =>
    rcases putOut_xmit out with ⟨_, rfl, rfl⟩ | ⟨_, first, others, oldest, rfl, rfl⟩
    · exact unowned
    · exact (transmitted_sameRefs different (unowned _) oldest).unowned unowned

/-! ### `ipv4_out` -/

variable {sending : Sending} {offset total : Int} {passes : Nat} {next : IpAddr}

theorem fragMake_unowned {destBuf : Option Nat} (unowned : stack.Unowned buf)
    (make : stack.fragMake sending offset total buf = some (err, destBuf, after)) :
    after.Unowned buf ∧ ∀ fragment, destBuf = some fragment → buf ≠ fragment := by
  unfold fragMake at make
  split at make
  next =>
    cases make
    exact ⟨unowned, fun _ isFragment => by cases isFragment⟩
  next first bufFree isFree =>
    have notFree : (first :: bufFree).count buf = 0 := isFree ▸ unowned .free
    rw [List.count_eq_zero, List.mem_cons, not_or] at notFree
    obtain ⟨⟨passErr, dest, content, mem⟩, _, rest⟩ := Option.bind_eq_some_iff.mp make
    dsimp only at rest
    split at rest
    next =>
      cases rest
      refine ⟨fun place => ?_, fun _ isFragment => by cases isFragment⟩
      cases place with
      | free =>
          rw [refs, holds, List.count_append, List.count_eq_zero.mpr notFree.2,
            List.count_singleton, if_neg (by simpa using Ne.symm notFree.1)]
      | arp number => exact unowned (.arp number)
      | input number => exact unowned (.input number)
      | output number => exact unowned (.output number)
    next =>
      cases rest
      refine ⟨fun place => ?_, fun fragment isFragment => ?_⟩
      · cases place with
        | free => exact List.count_eq_zero.mpr notFree.2
        | arp number => exact unowned (.arp number)
        | input number => exact unowned (.input number)
        | output number => exact unowned (.output number)
      · cases isFragment
        exact notFree.1

theorem fragOutLoop_unowned (unowned : stack.Unowned buf)
    (loop : fragOutLoop sending netif next buf passes offset total stack = some (err, after)) :
    after.Unowned buf := by
  induction passes generalizing stack offset total with
  | zero => cases loop
  | succ passes ih =>
      rw [fragOutLoop] at loop
      split at loop
      next =>
        cases loop
        exact unowned
      next =>
        obtain ⟨⟨makeErr, destBuf, made⟩, make, rest⟩ := Option.bind_eq_some_iff.mp loop
        obtain ⟨madeUnowned, other⟩ := fragMake_unowned unowned make
        cases destBuf with
        | none =>
            cases rest
            exact madeUnowned
        | some fragment =>
            obtain ⟨⟨outErr, outStack⟩, out, rest⟩ := Option.bind_eq_some_iff.mp rest
            have different := other fragment rfl
            have outUnowned := netifOut_unowned different madeUnowned out
            dsimp only at rest
            split at rest
            next =>
              cases rest
              intro place
              rw [refs_pktbufFree, if_neg fun both => different both.2.symm, outUnowned]
            next => exact ih outUnowned rest

theorem OwnedOnce.of_pktbufFree (unowned : stack.Unowned buf) :
    (stack.pktbufFree buf).OwnedOnce buf := by
  refine .of_put unowned .free ?_ fun place elsewhere => ?_
  · rw [refs_pktbufFree, if_pos ⟨rfl, rfl⟩]
  · rw [refs_pktbufFree, if_neg fun both => elsewhere both.1, Nat.add_zero]

theorem ipv4FragOut_handover (unowned : stack.Unowned buf)
    (out : stack.ipv4FragOut passes sending netif next buf = some (err, after)) :
    Handover err after buf := by
  obtain ⟨⟨loopErr, looped⟩, loop, rest⟩ := Option.bind_eq_some_iff.mp out
  have reset := sameRefs_content stack stack.blockList buf (pktbufResetAcc (stack.packet buf)) buf
  have loopUnowned := fragOutLoop_unowned (reset.unowned unowned) loop
  dsimp only at rest
  split at rest
  next isError =>
    cases rest
    exact (handover_error isError).mpr loopUnowned
  next =>
    cases rest
    refine (handover_ok rfl).mpr (.of_pktbufFree fun place => ?_)
    exact (by cases place <;> rfl : _ = looped.refs buf place).trans (loopUnowned place)

theorem ipv4Header_sameRefs (header : stack.ipv4Header sending buf = some (err, after)) :
    SameRefs stack after other := by
  obtain ⟨⟨addErr, content, blockList⟩, _, rest⟩ := Option.bind_eq_some_iff.mp header
  have same := sameRefs_content stack blockList buf content other
  dsimp only at rest
  split at rest
  next =>
    cases rest
    exact same
  next =>
    obtain ⟨_, _, rest⟩ := Option.bind_eq_some_iff.mp rest
    obtain ⟨_, _, rest⟩ := Option.bind_eq_some_iff.mp rest
    cases rest
    exact same.trans fun place => by cases place <;> rfl

/-- `ipv4_out` hands a packet that it does not fragment to `netif_out`, once the header
is in front. -/
def Ipv4Ready (stack : NetStack) (protocol : UInt8) (dest : IpAddr) (src : Option IpAddr)
    (buf : Nat) : Prop :=
  ∀ rt, stack.routeFind dest = some rt →
    let next := if rt.nextHop = 0 then dest else rt.nextHop
    let desc := (stack.netif rt.netif).desc
    ¬ (desc.mtu ≠ 0 ∧
        ((stack.packet buf).totalSize + ipv4HdrLen) % 2 ^ 32 > desc.mtu % 2 ^ 32) →
    ∀ err headed, stack.ipv4Header ⟨protocol, dest, src, desc⟩ buf = some (err, headed) →
      err.isError = false → headed.NetifReady rt.netif next buf

theorem ipv4Out_handover_iff {protocol : UInt8} {dest : IpAddr} {src : Option IpAddr}
    (unowned : stack.Unowned buf)
    (out : stack.ipv4Out passes protocol dest src buf = some (err, after)) :
    Handover err after buf ↔ stack.Ipv4Ready protocol dest src buf := by
  unfold ipv4Out at out
  split at out
  next noRoute =>
    cases out
    refine iff_of_true ((handover_error rfl).mpr unowned) fun rt isRoute => ?_
    rw [noRoute] at isRoute
    cases isRoute
  next rt isRoute =>
    dsimp only at out
    split at out
    next fragmented =>
      refine iff_of_true (ipv4FragOut_handover unowned out) fun other isOther => ?_
      cases isRoute.symm.trans isOther
      exact fun whole => absurd fragmented whole
    next whole =>
      obtain ⟨⟨headErr, headed⟩, header, rest⟩ := Option.bind_eq_some_iff.mp out
      have headedUnowned := (ipv4Header_sameRefs header).unowned unowned
      dsimp only at rest
      split at rest
      next isError =>
        cases rest
        refine iff_of_true ((handover_error isError).mpr headedUnowned) fun other isOther => ?_
        cases isRoute.symm.trans isOther
        intro next desc _ otherErr otherHeaded otherHeader noError
        cases header.symm.trans otherHeader
        rw [isError] at noError
        cases noError
      next noError =>
        rw [netifOut_handover_iff headedUnowned rest]
        constructor
        · intro ready other isOther
          cases isRoute.symm.trans isOther
          intro next desc _ otherErr otherHeaded otherHeader _
          cases header.symm.trans otherHeader
          exact ready
        · exact fun ready => ready rt isRoute whole headErr headed header (by simpa using noError)

/-- Whether a call keeps to the rule depends on whether `ether_out` and `arp_resolve`
can send what they have to. -/
theorem handover_iff (unowned : stack.Unowned buf) :
    (∀ netif addr err after, stack.arpResolve netif addr buf = some (err, after) →
      (Handover err after buf ↔ stack.ResolveReady netif addr)) ∧
    (∀ netif ip err after, stack.etherOut netif ip buf = some (err, after) →
      (Handover err after buf ↔ stack.OutReady netif ip buf)) ∧
    (∀ netif ip err after, stack.netifOut netif ip buf = some (err, after) →
      (Handover err after buf ↔ stack.NetifReady netif ip buf)) ∧
    ∀ passes protocol dest src err after,
      stack.ipv4Out passes protocol dest src buf = some (err, after) →
      (Handover err after buf ↔ stack.Ipv4Ready protocol dest src buf) :=
  ⟨fun _ _ _ _ resolving => arpResolve_handover_iff unowned resolving,
    fun _ _ _ _ out => etherOut_handover_iff unowned out,
    fun _ _ _ _ out => netifOut_handover_iff unowned out,
    fun _ _ _ _ _ _ out => ipv4Out_handover_iff unowned out⟩

def sampleSender : NetStack :=
  (sampleStack.pktbufAlloc 60).2

theorem sampleSender_unowned : sampleSender.Unowned 0 := by
  intro place
  cases place <;> rfl

/-- A packet for a new address waits on its entry. -/
theorem handover_iff_resolve :
    ∃ after, sampleSender.arpResolve 0 0x0100000a 0 = some (.ok, after) ∧ after.OwnedOnce 0 := by
  have ready : sampleSender.ResolveReady 0 0x0100000a :=
    fun _ _ => ⟨by decide, by decide, Nat.zero_lt_succ _⟩
  exact ⟨_, rfl, (handover_ok rfl).mp
    (((handover_iff sampleSender_unowned).1 0 0x0100000a .ok _ rfl).mpr ready)⟩

/-- Without a free block the request cannot be made: `arp_resolve` reports an error, and
the packet is on the new entry. -/
theorem arpResolve_keeps_packet :
    { sampleSender with blockList := [] }.Unowned 0 ∧
      ∃ err after, { sampleSender with blockList := [] }.arpResolve 0 0x0100000a 0 =
        some (err, after) ∧ err.isError = true ∧ after.refs 0 (.arp 0) = 1 ∧
        ¬ Handover err after 0 := by
  refine ⟨fun place => by cases place <;> rfl, .none, _, rfl, rfl, rfl, fun handover => ?_⟩
  have none := (handover_error rfl).mp handover (.arp 0)
  cases none

end NetStack

end CleanOS.Net
