import CleanOS.Net.ArpTransmission
import CleanOS.Net.EtherFrame

/-!
# What learning an address does to the packets in use

`arp_update_from_ipbuf` may send every packet that waits for the address it learns.  Under
the invariant of the packet pool these calls return, and they leave the received packet and
the address of its interface alone.
-/

namespace CleanOS.Net

open Tracked

theorem Tracked.Sound.congr {pool other : Pool} {live : List Nat} (sound : Sound ⟨pool, live⟩)
    (blocks : other.blockList = pool.blockList) (headers : other.pktbufList = pool.pktbufList)
    (packets : ∀ id ∈ live, other.packets id = pool.packets id) : Sound ⟨other, live⟩ := by
  constructor
  · have same : held other live = held pool live :=
      List.flatMap_congr fun id member => by rw [packets id member]
    rw [blocks, same]
    exact sound.blocks
  · rw [headers]
    exact sound.headers
  · intro id member
    rw [packets id member]
    exact sound.wellFormed id member
  · intro id member
    rw [packets id member]
    exact sound.refs id member

theorem Tracked.Sound.distinct {pool : Pool} {live : List Nat} {id : Nat}
    (sound : Sound ⟨pool, live⟩) (member : id ∈ live) :
    (blkIds pool.blockList ++ blkIds (pool.packets id).blkList).Nodup := by
  have isolated : (held pool live).Perm (held pool (id :: live.erase id)) :=
    held_perm (List.perm_cons_erase member)
  have nodup := (isolated.append_left (blkIds pool.blockList)).nodup_iff.mp
    (sound.blocks.nodup_iff.mpr List.nodup_range)
  rw [held_cons, ← List.append_assoc] at nodup
  exact (List.nodup_append.mp nodup).1

namespace NetStack

def pool (stack : NetStack) : Pool where
  blockList := stack.blockList
  pktbufList := stack.bufFree
  packets := stack.packet

structure Undisturbed (stack after : NetStack) (netif buf : Nat) : Prop where
  packet : after.packet buf = stack.packet buf
  desc : (after.netif netif).desc = (stack.netif netif).desc

/-- The packets that wait for an address and those in the output queue of an interface are
in use, linked once, and none of them is a packet that is being received. -/
structure Flushable (stack : NetStack) (netif buf : Nat) (live waiting : List Nat) : Prop where
  sound : Sound ⟨stack.pool, live⟩
  mac : (stack.netif netif).mac.length = 6
  linked : ((stack.netif netif).outQ ++ waiting).Nodup
  live : ∀ other ∈ (stack.netif netif).outQ ++ waiting, other ∈ live
  apart : buf ∉ (stack.netif netif).outQ ++ waiting

variable {stack after : NetStack} {netif protocol buf other index : Nat} {live : List Nat}
  {waiting : List Nat} {dest : HwAddr} {ip : IpAddr} {err : NetErr}

theorem Undisturbed.refl (stack : NetStack) (netif buf : Nat) :
    Undisturbed stack stack netif buf :=
  ⟨rfl, rfl⟩

theorem Undisturbed.trans {middle : NetStack} (first : Undisturbed stack middle netif buf)
    (second : Undisturbed middle after netif buf) : Undisturbed stack after netif buf :=
  ⟨second.packet.trans first.packet, second.desc.trans first.desc⟩

theorem sound_pktbufFree (sound : Sound ⟨stack.pool, live⟩) (member : other ∈ live) :
    Sound ⟨(stack.pktbufFree other).pool, live.erase other⟩ := by
  have last : (stack.packet other).ref - 1 = 0 := by
    have ref : (stack.packet other).ref = 1 := sound.refs other member
    rw [ref]
    rfl
  have fresh : other ∉ live.erase other := @Sound.fresh_erase ⟨stack.pool, live⟩ other sound
  have freed := sound.free member
  refine freed.congr ?_ ?_ fun id inUse => ?_
  · simp only [Pool.pktbufFree, pool, last, if_true]
    rfl
  · simp only [Pool.pktbufFree, pool, last, if_true]
    rfl
  · have different : id ≠ other := fun same => fresh (same ▸ inUse)
    simp only [Pool.pktbufFree, pool, last, if_true, Pool.update,
      Function.update_of_ne different]
    rfl

theorem sound_setPacket {content : Pktbuf} {blockList : List Pktblk}
    (sound : Sound ⟨stack.pool, live⟩) (member : other ∈ live)
    (reshaped : Reshaped (stack.packet other) stack.blockList content blockList) :
    Sound ⟨({ stack with blockList }.setPacket other content).pool, live⟩ :=
  sound.reshape member reshaped

theorem putOut_returns (stack : NetStack) (netif buf : Nat) :
    ∃ err after, (let (err, stack) := stack.netifPutOut netif buf
      if err.isError then some (err, stack) else stack.xmit netif) = some (err, after) := by
  by_cases full : netifOutqSize ≤ (stack.netif netif).outQ.length
  · refine ⟨.full, stack, ?_⟩
    simp only [netifPutOut, full, if_true, NetErr.isError]
  · obtain ⟨first, others, oldest⟩ :
        ∃ first others, (stack.netif netif).outQ ++ [buf] = first :: others :=
      List.exists_cons_of_ne_nil (List.append_ne_nil_of_right_ne_nil _ (List.cons_ne_nil _ _))
    simp only [netifPutOut, full, if_false, xmit, setNetif, Function.update_self, oldest,
      NetErr.isError, Bool.false_eq_true]
    exact ⟨_, _, rfl⟩

theorem etherRawOut_returns {content : Pktbuf} {blockList : List Pktblk} {frameErr : NetErr}
    (frame : etherFrame (stack.packet buf) stack.blockList dest (stack.netif netif).mac protocol =
      some (frameErr, content, blockList)) :
    ∃ err after, stack.etherRawOut netif protocol dest buf = some (err, after) := by
  simp only [etherRawOut, frame, Option.bind_eq_bind, Option.bind_some]
  split
  next => exact ⟨_, _, rfl⟩
  next =>
    split
    next => exact ⟨_, _, rfl⟩
    next => exact putOut_returns _ netif buf

theorem undisturbed_setPacket {content : Pktbuf} {blockList : List Pktblk}
    (different : buf ≠ other) :
    Undisturbed stack ({ stack with blockList }.setPacket other content) netif buf :=
  ⟨Function.update_of_ne different _ _, rfl⟩

theorem undisturbed_setNetif {interface : Interface}
    (desc : interface.desc = (stack.netif netif).desc) :
    Undisturbed stack (stack.setNetif netif interface) netif buf := by
  refine ⟨rfl, ?_⟩
  rw [setNetif_netif, if_pos rfl]
  exact desc

theorem Flushable.frame {first : Nat} {content : Pktbuf} {blockList : List Pktblk}
    (ready : Flushable stack netif buf live (first :: waiting))
    (reshaped : Reshaped (stack.packet first) stack.blockList content blockList) :
    Flushable ({ stack with blockList }.setPacket first content) netif buf live
      (first :: waiting) where
  sound := sound_setPacket ready.sound
    (ready.live first (List.mem_append_right _ List.mem_cons_self)) reshaped
  mac := ready.mac
  linked := ready.linked
  live := ready.live
  apart := ready.apart

theorem Flushable.loop {first : Nat} (ready : Flushable stack netif buf live (first :: waiting)) :
    Flushable (stack.setNetif netif
      { stack.netif netif with inQ := (stack.netif netif).inQ ++ [first] }) netif buf live
      waiting := by
  have fewer : ((stack.netif netif).outQ ++ waiting).Sublist
      ((stack.netif netif).outQ ++ first :: waiting) :=
    (List.sublist_cons_self first waiting).append_left _
  have queue : (stack.setNetif netif
      { stack.netif netif with inQ := (stack.netif netif).inQ ++ [first] }).netif netif =
      { stack.netif netif with inQ := (stack.netif netif).inQ ++ [first] } :=
    Function.update_self _ _ _
  constructor
  · exact ready.sound
  · rw [queue]
    exact ready.mac
  · rw [queue]
    exact ready.linked.sublist fewer
  · rw [queue]
    exact fun other still => ready.live other (fewer.subset still)
  · rw [queue]
    exact fun still => ready.apart (fewer.subset still)

theorem Flushable.transmit {first oldest : Nat} {rest : List Nat}
    (ready : Flushable stack netif buf live (first :: waiting))
    (isOldest : (stack.netif netif).outQ ++ [first] = oldest :: rest) :
    Flushable ((stack.setNetif netif
      { stack.netif netif with outQ := rest }).pktbufFree oldest) netif buf (live.erase oldest)
      waiting := by
  have order : (stack.netif netif).outQ ++ first :: waiting = oldest :: (rest ++ waiting) := by
    rw [List.append_cons, isOldest, List.cons_append]
  obtain ⟨sound, mac, linked, inUse, apart⟩ := ready
  rw [order] at linked inUse apart
  obtain ⟨gone, stillLinked⟩ := List.nodup_cons.mp linked
  have queue : ((stack.setNetif netif
      { stack.netif netif with outQ := rest }).pktbufFree oldest).netif netif =
      { stack.netif netif with outQ := rest } :=
    Function.update_self _ _ _
  constructor
  · have unsent : Sound ⟨(stack.setNetif netif
        { stack.netif netif with outQ := rest }).pool, live⟩ := sound
    exact sound_pktbufFree unsent (inUse oldest List.mem_cons_self)
  · rw [queue]
    exact mac
  · rw [queue]
    exact stillLinked
  · rw [queue]
    intro other still
    have notOldest : other ≠ oldest := fun same => gone (same ▸ still)
    exact (sound.live_nodup.mem_erase_iff).mpr
      ⟨notOldest, inUse other (List.mem_cons_of_mem _ still)⟩
  · rw [queue]
    exact fun still => apart (List.mem_cons_of_mem _ still)

theorem etherRawOut_flush {first : Nat} (ready : Flushable stack netif buf live (first :: waiting))
    (destLength : dest.length = 6) :
    ∃ err after, stack.etherRawOut netif protocol dest first = some (err, after) ∧
      Undisturbed stack after netif buf ∧
      (err.isError = false → ∃ live', Flushable after netif buf live' waiting) := by
  have isLinked : first ∈ (stack.netif netif).outQ ++ first :: waiting :=
    List.mem_append_right _ List.mem_cons_self
  have member := ready.live first isLinked
  have different : buf ≠ first := fun same => ready.apart (same ▸ isLinked)
  obtain ⟨frameErr, content, left, frame, reshaped, -, -⟩ :=
    @etherFrame_spec (stack.packet first) stack.blockList dest (stack.netif netif).mac protocol
      (ready.sound.wellFormed first member) (ready.sound.distinct member) destLength ready.mac
  have framed := ready.frame reshaped
  have kept : Undisturbed stack ({ stack with blockList := left }.setPacket first content)
      netif buf := undisturbed_setPacket different
  obtain ⟨err, after, out⟩ := etherRawOut_returns frame
  refine ⟨err, after, out, ?_⟩
  cases rawOut_of_etherRawOut out with
  | frameError built isError =>
      rw [frame] at built
      cases built
      refine ⟨kept, fun noError => ?_⟩
      rw [isError] at noError
      cases noError
  | inFull built noError own full =>
      rw [frame] at built
      cases built
      exact ⟨kept, fun accepted => nomatch accepted⟩
  | outFull built noError elsewhere full =>
      rw [frame] at built
      cases built
      exact ⟨kept, fun accepted => nomatch accepted⟩
  | looped built noError own room =>
      rw [frame] at built
      cases built
      exact ⟨kept.trans (undisturbed_setNetif rfl), fun _ => ⟨live, framed.loop⟩⟩
  | @transmitted _ _ _ oldest rest built noError elsewhere room isOldest =>
      rw [frame] at built
      cases built
      have sent : Undisturbed stack (({ stack with blockList := left }.setPacket first
          content).setNetif netif { stack.netif netif with outQ := rest }) netif buf :=
        kept.trans (undisturbed_setNetif rfl)
      exact ⟨⟨sent.packet, sent.desc⟩, fun _ => ⟨live.erase oldest, framed.transmit isOldest⟩⟩

theorem Flushable.congr (ready : Flushable stack netif buf live waiting)
    (pool : after.pool = stack.pool) (interfaces : after.netif = stack.netif) :
    Flushable after netif buf live waiting where
  sound := pool ▸ ready.sound
  mac := interfaces ▸ ready.mac
  linked := interfaces ▸ ready.linked
  live := interfaces ▸ ready.live
  apart := interfaces ▸ ready.apart

theorem etherIpv4Out_flush {first : Nat}
    (ready : Flushable stack netif buf live (first :: waiting)) (destLength : dest.length = 6) :
    ∃ err after, stack.etherIpv4Out netif ip dest first = some (err, after) ∧
      Undisturbed stack after netif buf ∧
      (err.isError = false → ∃ live', Flushable after netif buf live' waiting) := by
  obtain ⟨err, after, out, kept, others⟩ :=
    @etherRawOut_flush stack netif netProtocolIpv4 buf live waiting dest first ready destLength
  simp only [etherIpv4Out, out, Option.bind_eq_bind, Option.bind_some]
  split
  next => exact ⟨err, after, rfl, kept, others⟩
  next accepted =>
    refine ⟨err, _, rfl, ⟨kept.packet, kept.desc⟩, fun noError => ?_⟩
    obtain ⟨live', ready'⟩ := others noError
    exact ⟨live', ready'.congr rfl rfl⟩

theorem cacheSendLoop_cons {first : Nat} {rest : List Nat}
    (isNetif : (stack.cache.entry index).netif = some netif)
    (out : (stack.setEntry index { stack.cache.entry index with bufList := rest }).etherIpv4Out
      netif (stack.cache.entry index).paddr (stack.cache.entry index).haddr first =
        some (err, after)) :
    cacheSendLoop index (first :: rest) stack =
      if err.isError then some (err, after.pktbufFree first)
      else cacheSendLoop index rest after := by
  simp only [isNetif] at out
  simp only [cacheSendLoop, isNetif, Option.bind_eq_bind, Option.bind_some, out]

theorem cacheSendLoop_returns (ready : Flushable stack netif buf live waiting)
    (isNetif : (stack.cache.entry index).netif = some netif)
    (haddr : (stack.cache.entry index).haddr.length = 6) :
    ∃ err after, cacheSendLoop index waiting stack = some (err, after) ∧
      Undisturbed stack after netif buf := by
  induction waiting generalizing stack live with
  | nil => exact ⟨.ok, stack, rfl, .refl stack netif buf⟩
  | cons first rest ih =>
      obtain ⟨taken, isTaken⟩ : ∃ taken, taken =
          stack.setEntry index { stack.cache.entry index with bufList := rest } := ⟨_, rfl⟩
      have takenReady : Flushable taken netif buf live (first :: rest) := by
        rw [isTaken]
        exact ready.congr rfl rfl
      have takenKept : Undisturbed stack taken netif buf := by
        rw [isTaken]
        exact ⟨rfl, rfl⟩
      have entry : taken.cache.entry index =
          { stack.cache.entry index with bufList := rest } := by
        rw [isTaken]
        exact Function.update_self _ _ _
      obtain ⟨err, after, out, kept, others⟩ :=
        @etherIpv4Out_flush taken netif buf live rest (stack.cache.entry index).haddr
          (stack.cache.entry index).paddr first takenReady haddr
      rw [cacheSendLoop_cons isNetif (isTaken ▸ out)]
      split
      next => exact ⟨err, _, rfl, takenKept.trans (kept.trans ⟨rfl, rfl⟩)⟩
      next accepted =>
        obtain ⟨live', restReady⟩ := others (Bool.eq_false_iff.mpr accepted)
        have sameCache := (etherIpv4Out_arp out).1
        obtain ⟨lastErr, last, loop, lastKept⟩ := ih restReady
          (by rw [sameCache, entry]; exact isNetif) (by rw [sameCache, entry]; exact haddr)
        exact ⟨lastErr, last, loop, takenKept.trans (kept.trans lastKept)⟩

theorem learn_sendAll {hwAddr : HwAddr} (length : hwAddr.length = 6)
    (ready : Flushable stack netif buf live (stack.cache.entry index).bufList) :
    ∃ err after, (stack.learn index netif ip hwAddr).cacheSendAll index = some (err, after) ∧
      Undisturbed stack after netif buf := by
  have entry := learn_entry stack index netif ip hwAddr
  have learned : Flushable (stack.learn index netif ip hwAddr) netif buf live
      (stack.cache.entry index).bufList := ready.congr rfl rfl
  obtain ⟨err, after, loop, kept⟩ :=
    @cacheSendLoop_returns (stack.learn index netif ip hwAddr) netif buf index live _ learned
      (by rw [entry]; rfl) (by rw [entry]; exact length)
  refine ⟨err, after, ?_, kept.packet, kept.desc⟩
  rw [cacheSendAll, entry, cacheEntrySet_bufList]
  exact loop

theorem cacheAlloc_undisturbed {taken : Option Nat}
    (alloc : stack.cacheAlloc false = (taken, after)) : Undisturbed stack after netif buf := by
  unfold cacheAlloc at alloc
  split at alloc
  next =>
    cases alloc
    exact ⟨rfl, rfl⟩
  next =>
    cases alloc
    exact .refl stack netif buf

theorem cacheInsert_returns {hwAddr : HwAddr} (length : hwAddr.length = 6)
    (ready : ∀ index, Flushable stack netif buf live (stack.cache.entry index).bufList) :
    ∃ err after, stack.cacheInsert netif ip hwAddr false = some (err, after) ∧
      Undisturbed stack after netif buf := by
  cases find : stack.cacheFind ip with
  | mk found moved =>
      cases found with
      | none =>
          obtain ⟨rfl, -⟩ := cacheFind_none find
          rw [cacheInsert, find]
          dsimp only
          cases alloc : moved.cacheAlloc false with
          | mk taken allocated =>
              have kept := @cacheAlloc_undisturbed moved allocated netif buf taken alloc
              cases taken with
              | none => exact ⟨.none, allocated, rfl, kept⟩
              | some index => exact ⟨.ok, _, rfl, kept.trans ⟨rfl, rfl⟩⟩
      | some index =>
          obtain ⟨-, -, rfl⟩ := cacheFind_some find
          rw [cacheInsert, find]
          dsimp only
          split
          next =>
            have moved : Flushable { stack with
                cache := { stack.cache with
                  cacheList := index :: stack.cache.cacheList.erase index } } netif buf live
                (stack.cache.entry index).bufList := (ready index).congr rfl rfl
            obtain ⟨err, after, sent, kept⟩ := learn_sendAll length moved
            exact ⟨err, after, sent, kept.packet, kept.desc⟩
          next elsewhere => exact absurd rfl elsewhere

end NetStack

end CleanOS.Net
