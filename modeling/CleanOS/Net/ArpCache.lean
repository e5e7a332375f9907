import CleanOS.Net.Arp

/-!
# The representation of the ARP cache

Each entry of the table is either free or once in the cache list, the list has one
entry for each protocol address, and only entries of the list hold packets.
-/

namespace CleanOS.Net

open CleanOS.Lib

namespace ArpCache

/-- The representation of the cache while the entries `inHand` are being moved. -/
structure Wf (cache : ArpCache) (inHand : List Nat) : Prop where
  tabled : (cache.pool ++ inHand ++ cache.cacheList).Perm (List.range arpCacheSize)
  distinct : (cache.cacheList.map fun index => (cache.entry index).paddr).Nodup
  outside : ∀ index, index ∉ cache.cacheList → (cache.entry index).bufList = []
  live : ∀ index ∈ cache.cacheList,
    (cache.entry index).state = .waiting ∨ (cache.entry index).state = .resolved

variable {cache after : ArpCache} {inHand : List Nat} {index : Nat} {ip : IpAddr}

@[simp]
theorem setEntry_entry_self (cache : ArpCache) (index : Nat) (entry : ArpEntry) :
    (cache.setEntry index entry).entry index = entry :=
  Function.update_self _ _ _

theorem setEntry_entry_of_ne (cache : ArpCache) {index other : Nat} (different : other ≠ index)
    (entry : ArpEntry) : (cache.setEntry index entry).entry other = cache.entry other :=
  Function.update_of_ne different _ _

theorem wf_initArp : initArp.Wf [] where
  tabled := by
    rw [initArp, List.append_nil, List.append_nil]
  distinct := List.nodup_nil
  outside := fun _ _ => rfl
  live := fun _ member => absurd member List.not_mem_nil

theorem Wf.nodup (wf : cache.Wf inHand) : (cache.pool ++ inHand ++ cache.cacheList).Nodup :=
  wf.tabled.nodup_iff.mpr List.nodup_range

theorem Wf.reorder (wf : cache.Wf inHand) {list : List Nat} (same : list.Perm cache.cacheList) :
    { cache with cacheList := list }.Wf inHand where
  tabled := (same.append_left _).trans wf.tabled
  distinct := (same.map _).nodup_iff.mpr wf.distinct
  outside := fun index absent =>
    wf.outside index fun member => absent (same.mem_iff.mpr member)
  live := fun index member => wf.live index (same.mem_iff.mp member)

theorem Wf.update (wf : cache.Wf inHand) (member : index ∈ cache.cacheList) {entry : ArpEntry}
    (sameAddr : entry.paddr = (cache.entry index).paddr)
    (isLive : entry.state = .waiting ∨ entry.state = .resolved) :
    (cache.setEntry index entry).Wf inHand := by
  have paddrs : ∀ other, ((cache.setEntry index entry).entry other).paddr =
      (cache.entry other).paddr := by
    intro other
    by_cases same : other = index
    · rw [same, setEntry_entry_self, sameAddr]
    · rw [setEntry_entry_of_ne cache same]
  refine ⟨wf.tabled, ?_, ?_, ?_⟩
  · simp only [paddrs]
    exact wf.distinct
  · intro other absent
    have different : other ≠ index := fun same => absent (same ▸ member)
    rw [setEntry_entry_of_ne cache different]
    exact wf.outside other absent
  · intro other inList
    by_cases same : other = index
    · rw [same, setEntry_entry_self]
      exact isLive
    · rw [setEntry_entry_of_ne cache same]
      exact wf.live other inList

theorem Wf.not_mem (wf : cache.Wf [index]) : index ∉ cache.cacheList := by
  have nodup := wf.nodup
  rw [List.append_assoc, List.singleton_append] at nodup
  exact (List.nodup_cons.mp (List.nodup_append.mp nodup).2.1).1

theorem map_paddr_setEntry (cache : ArpCache) {list : List Nat} (absent : index ∉ list) (entry : ArpEntry) :
    (list.map fun other => ((cache.setEntry index entry).entry other).paddr) =
      list.map fun other => (cache.entry other).paddr := by
  refine List.map_congr_left fun other member => ?_
  have different : other ≠ index := fun same => absent (same ▸ member)
  rw [setEntry_entry_of_ne cache different]

theorem Wf.enter (wf : cache.Wf [index]) {entry : ArpEntry}
    (newAddr : ∀ other ∈ cache.cacheList, (cache.entry other).paddr ≠ entry.paddr)
    (isLive : entry.state = .waiting ∨ entry.state = .resolved) :
    { cache.setEntry index entry with cacheList := index :: cache.cacheList }.Wf [] := by
  have absent := wf.not_mem
  refine ⟨?_, ?_, ?_, ?_⟩
  · have tabled := wf.tabled
    rw [List.append_assoc, List.singleton_append] at tabled
    rw [List.append_nil]
    exact tabled
  · refine List.nodup_cons.mpr ⟨?_, ?_⟩
    · intro member
      obtain ⟨other, inList, sameAddr⟩ := List.mem_map.mp member
      have different : other ≠ index := fun same => absent (same ▸ inList)
      dsimp only at sameAddr
      rw [setEntry_entry_self, setEntry_entry_of_ne cache different] at sameAddr
      exact newAddr other inList sameAddr
    · rw [map_paddr_setEntry cache absent]
      exact wf.distinct
  · intro other notInList
    obtain ⟨different, outside⟩ := List.ne_and_not_mem_of_not_mem_cons notInList
    dsimp only
    rw [setEntry_entry_of_ne cache different]
    exact wf.outside other outside
  · intro other inList
    dsimp only
    by_cases same : other = index
    · rw [same, setEntry_entry_self]
      exact isLive
    · rw [setEntry_entry_of_ne cache same]
      exact wf.live other ((List.mem_cons.mp inList).resolve_left same)

theorem Wf.ofCleared (cache : ArpCache)
    (tabled : (cache.pool ++ index :: cache.cacheList).Perm (List.range arpCacheSize))
    (distinct : (cache.cacheList.map fun index => (cache.entry index).paddr).Nodup)
    (outside : ∀ other, other ∉ cache.cacheList → other ≠ index →
      (cache.entry other).bufList = [])
    (live : ∀ index ∈ cache.cacheList,
      (cache.entry index).state = .waiting ∨ (cache.entry index).state = .resolved) :
    (cache.setEntry index .zero).Wf [index] := by
  have nodup := tabled.nodup_iff.mpr List.nodup_range
  have absent : index ∉ cache.cacheList :=
    (List.nodup_cons.mp (List.nodup_append.mp nodup).2.1).1
  refine ⟨?_, ?_, ?_, ?_⟩
  · rw [List.append_assoc, List.singleton_append]
    exact tabled
  · rw [← map_paddr_setEntry cache absent .zero] at distinct
    exact distinct
  · intro other notInList
    by_cases same : other = index
    · rw [same, setEntry_entry_self]
      rfl
    · rw [setEntry_entry_of_ne cache same]
      exact outside other notInList same
  · intro other inList
    have different : other ≠ index := fun same => absent (same ▸ inList)
    rw [setEntry_entry_of_ne cache different]
    exact live other inList

theorem Wf.take {pool : List Nat} (wf : cache.Wf []) (free : cache.pool = index :: pool) :
    ({ cache with pool }.setEntry index .zero).Wf [index] := by
  have tabled := wf.tabled
  rw [free, List.append_nil, List.cons_append] at tabled
  exact .ofCleared { cache with pool } (List.perm_middle.trans tabled) wf.distinct
    (fun other notInList _ => wf.outside other notInList) wf.live

theorem Wf.evict (wf : cache.Wf []) (last : cache.cacheList.getLast? = some index) :
    ({ cache with cacheList := cache.cacheList.dropLast }.setEntry index .zero).Wf [index] := by
  have list : cache.cacheList.dropLast ++ [index] = cache.cacheList :=
    List.dropLast_append_getLast? index last
  refine .ofCleared { cache with cacheList := cache.cacheList.dropLast } ?_ ?_ ?_ ?_
  · have tabled := wf.tabled
    rw [← list, List.append_nil] at tabled
    exact ((List.perm_append_singleton _ _).symm.append_left _).trans tabled
  · have distinct := wf.distinct
    rw [← list, List.map_append] at distinct
    exact (List.nodup_append.mp distinct).1
  · intro other notInList different
    refine wf.outside other fun member => ?_
    rw [← list] at member
    rcases List.mem_append.mp member with before | atLast
    · exact notInList before
    · exact different (List.mem_singleton.mp atLast)
  · intro other inList
    exact wf.live other ((List.dropLast_sublist _).subset inList)

theorem cacheFind_none (missed : cache.cacheFind ip = (none, after)) :
    after = cache ∧ ∀ index ∈ cache.cacheList, (cache.entry index).paddr ≠ ip := by
  unfold cacheFind at missed
  split at missed
  next notFound =>
    cases missed
    refine ⟨rfl, fun index member => ?_⟩
    simpa using List.find?_eq_none.mp notFound index member
  next => cases missed

theorem cacheFind_some (found : cache.cacheFind ip = (some index, after)) :
    index ∈ cache.cacheList ∧ (cache.entry index).paddr = ip ∧
      after = { cache with cacheList := index :: cache.cacheList.erase index } := by
  unfold cacheFind at found
  split at found
  next => cases found
  next other isFound =>
    cases found
    exact ⟨List.mem_of_find?_eq_some isFound, by simpa using List.find?_some isFound, rfl⟩

end ArpCache

namespace NetStack

/-- What `ether_raw_out` can do.  `framed` is the state with the frame built, as far
as that went. -/
inductive RawOut (stack : NetStack) (netif protocol : Nat) (dest : HwAddr) (buf : Nat) :
    NetErr → NetStack → Prop where
  | frameError {err : NetErr} {content : Pktbuf} {blockList : List Pktblk}
      (frame : etherFrame (stack.packet buf) stack.blockList dest (stack.netif netif).mac
        protocol = some (err, content, blockList))
      (isError : err.isError = true) :
      RawOut stack netif protocol dest buf err ({ stack with blockList }.setPacket buf content)
  | inFull {content : Pktbuf} {blockList : List Pktblk} {err : NetErr}
      (frame : etherFrame (stack.packet buf) stack.blockList dest (stack.netif netif).mac
        protocol = some (err, content, blockList))
      (noError : err.isError = false) (own : (stack.netif netif).mac = dest)
      (full : netifInqSize ≤ (stack.netif netif).inQ.length) :
      RawOut stack netif protocol dest buf .full
        ({ stack with blockList }.setPacket buf content)
  | looped {content : Pktbuf} {blockList : List Pktblk} {err : NetErr}
      (frame : etherFrame (stack.packet buf) stack.blockList dest (stack.netif netif).mac
        protocol = some (err, content, blockList))
      (noError : err.isError = false) (own : (stack.netif netif).mac = dest)
      (room : (stack.netif netif).inQ.length < netifInqSize) :
      RawOut stack netif protocol dest buf .ok
        (({ stack with blockList }.setPacket buf content).setNetif netif
          { stack.netif netif with inQ := (stack.netif netif).inQ ++ [buf] })
  | outFull {content : Pktbuf} {blockList : List Pktblk} {err : NetErr}
      (frame : etherFrame (stack.packet buf) stack.blockList dest (stack.netif netif).mac
        protocol = some (err, content, blockList))
      (noError : err.isError = false) (other : (stack.netif netif).mac ≠ dest)
      (full : netifOutqSize ≤ (stack.netif netif).outQ.length) :
      RawOut stack netif protocol dest buf .full
        ({ stack with blockList }.setPacket buf content)
  | transmitted {content : Pktbuf} {blockList : List Pktblk} {err : NetErr} {first : Nat}
      {rest : List Nat}
      (frame : etherFrame (stack.packet buf) stack.blockList dest (stack.netif netif).mac
        protocol = some (err, content, blockList))
      (noError : err.isError = false) (other : (stack.netif netif).mac ≠ dest)
      (room : (stack.netif netif).outQ.length < netifOutqSize)
      (oldest : (stack.netif netif).outQ ++ [buf] = first :: rest) :
      RawOut stack netif protocol dest buf .ok
        ((({ stack with blockList }.setPacket buf content).setNetif netif
          { stack.netif netif with outQ := rest }).pktbufFree first)

variable {stack after : NetStack} {netif protocol buf : Nat} {dest : HwAddr} {err : NetErr}

theorem putOut_xmit (out : (let (err, stack) := stack.netifPutOut netif buf
      if err.isError then some (err, stack) else stack.xmit netif) = some (err, after)) :
    (netifOutqSize ≤ (stack.netif netif).outQ.length ∧ err = .full ∧ after = stack) ∨
    ((stack.netif netif).outQ.length < netifOutqSize ∧ ∃ first others,
      (stack.netif netif).outQ ++ [buf] = first :: others ∧ err = .ok ∧
      after =
        (stack.setNetif netif { stack.netif netif with outQ := others }).pktbufFree first) := by
  by_cases full : netifOutqSize ≤ (stack.netif netif).outQ.length
  · simp only [netifPutOut, full, if_true] at out
    cases out
    exact .inl ⟨full, rfl, rfl⟩
  · obtain ⟨first, others, oldest⟩ :
        ∃ first others, (stack.netif netif).outQ ++ [buf] = first :: others :=
      List.exists_cons_of_ne_nil (List.append_ne_nil_of_right_ne_nil _ (List.cons_ne_nil _ _))
    simp only [netifPutOut, full, if_false, xmit, setNetif, Function.update_self, oldest,
      NetErr.isError, Bool.false_eq_true, Function.update_idem] at out
    cases out
    exact .inr ⟨Nat.lt_of_not_le full, first, others, oldest, rfl, rfl⟩

theorem rawOut_of_etherRawOut
    (out : stack.etherRawOut netif protocol dest buf = some (err, after)) :
    RawOut stack netif protocol dest buf err after := by
  obtain ⟨⟨frameErr, content, blockList⟩, frame, rest⟩ := Option.bind_eq_some_iff.mp out
  dsimp only at rest
  split at rest
  next isError =>
    cases rest
    exact .frameError frame isError
  next noError =>
    rw [Bool.not_eq_true] at noError
    split at rest
    next own =>
      unfold netifPutIn at rest
      dsimp only at rest
      split at rest
      next full =>
        cases rest
        exact .inFull frame noError own full
      next room =>
        cases rest
        exact .looped frame noError own (Nat.lt_of_not_le room)
    next other =>
      rcases putOut_xmit rest with ⟨full, rfl, rfl⟩ | ⟨room, first, others, oldest, rfl, rfl⟩
      · exact .outFull frame noError other full
      · exact .transmitted frame noError other room oldest

def Room (stack : NetStack) (netif : Nat) (dest : HwAddr) : Prop :=
  if (stack.netif netif).mac = dest then (stack.netif netif).inQ.length < netifInqSize
  else (stack.netif netif).outQ.length < netifOutqSize

/-- The frame of a packet can be built, with the free blocks for its padding and its
header, and there is room for it. -/
def Passable (stack : NetStack) (netif protocol : Nat) (dest : HwAddr) (buf : Nat) : Prop :=
  (etherFrame (stack.packet buf) stack.blockList dest (stack.netif netif).mac protocol).map
      (·.1.isError) = some false ∧
    stack.Room netif dest

theorem etherRawOut_noError_iff
    (out : stack.etherRawOut netif protocol dest buf = some (err, after)) :
    err.isError = false ↔ stack.Passable netif protocol dest buf := by
  cases rawOut_of_etherRawOut out with
  | frameError frame isError =>
      rw [Passable, frame, Option.map_some, isError]
      exact iff_of_false (by decide) fun both => absurd both.1 (by decide)
  | inFull frame noError own full =>
      rw [Passable, Room, if_pos own]
      exact iff_of_false (by decide) fun both => absurd both.2 (Nat.not_lt.mpr full)
  | outFull frame noError other full =>
      rw [Passable, Room, if_neg other]
      exact iff_of_false (by decide) fun both => absurd both.2 (Nat.not_lt.mpr full)
  | looped frame noError own room =>
      rw [Passable, Room, if_pos own, frame, Option.map_some, noError]
      exact ⟨fun _ => ⟨rfl, room⟩, fun _ => rfl⟩
  | transmitted frame noError other room oldest =>
      rw [Passable, Room, if_neg other, frame, Option.map_some, noError]
      exact ⟨fun _ => ⟨rfl, room⟩, fun _ => rfl⟩

structure SameArp (stack after : NetStack) : Prop where
  cache : after.cache = stack.cache
  learned : after.learned = stack.learned
  sent : after.sent = stack.sent

theorem SameArp.trans {middle : NetStack} (first : SameArp stack middle)
    (second : SameArp middle after) : SameArp stack after :=
  ⟨second.cache.trans first.cache, second.learned.trans first.learned,
    second.sent.trans first.sent⟩

theorem etherRawOut_sameArp
    (out : stack.etherRawOut netif protocol dest buf = some (err, after)) :
    SameArp stack after := by
  cases rawOut_of_etherRawOut out <;> exact ⟨rfl, rfl, rfl⟩

theorem pktbufAlloc_sameArp (stack : NetStack) (size : Int) :
    SameArp stack (stack.pktbufAlloc size).2 := by
  unfold pktbufAlloc
  split
  next => exact ⟨rfl, rfl, rfl⟩
  next => split <;> exact ⟨rfl, rfl, rfl⟩

theorem foldl_pktbufFree_sameArp (bufList : List Nat) (stack : NetStack) :
    SameArp stack (bufList.foldl pktbufFree stack) := by
  induction bufList generalizing stack with
  | nil => exact ⟨rfl, rfl, rfl⟩
  | cons buf bufList ih =>
      have first : SameArp stack (stack.pktbufFree buf) := ⟨rfl, rfl, rfl⟩
      exact first.trans (ih (stack.pktbufFree buf))

theorem arpMakeRequest_sameArp {proAddr : IpAddr}
    (request : stack.arpMakeRequest netif proAddr = some (err, after)) :
    SameArp stack after := by
  have allocSame := pktbufAlloc_sameArp stack arpPktLen
  unfold arpMakeRequest at request
  split at request
  next unallocated alloc =>
    cases request
    rw [alloc] at allocSame
    exact allocSame
  next buf allocated alloc =>
    rw [alloc] at allocSame
    obtain ⟨⟨_, content, blockList⟩, _, rest⟩ := Option.bind_eq_some_iff.mp request
    obtain ⟨content, _, rest⟩ := Option.bind_eq_some_iff.mp rest
    obtain ⟨⟨outErr, outStack⟩, out, rest⟩ := Option.bind_eq_some_iff.mp rest
    have filled : SameArp allocated ({ allocated with blockList }.setPacket buf content) :=
      ⟨rfl, rfl, rfl⟩
    have outSame := (allocSame.trans filled).trans (etherRawOut_sameArp out)
    dsimp only at rest
    split at rest
    next =>
      cases rest
      exact outSame.trans ⟨rfl, rfl, rfl⟩
    next =>
      cases rest
      exact outSame

theorem etherIpv4Out_arp {ip : IpAddr}
    (out : stack.etherIpv4Out netif ip dest buf = some (err, after)) :
    after.cache = stack.cache ∧ after.learned = stack.learned ∧
      after.sent = if err.isError then stack.sent
        else stack.sent ++ [⟨ip, dest, buf, stack.learned ip⟩] := by
  obtain ⟨⟨rawErr, rawStack⟩, raw, rest⟩ := Option.bind_eq_some_iff.mp out
  have same := etherRawOut_sameArp raw
  dsimp only at rest
  split at rest
  next isError =>
    cases rest
    rw [if_pos isError]
    exact ⟨same.cache, same.learned, same.sent⟩
  next noError =>
    cases rest
    rw [if_neg noError]
    refine ⟨same.cache, same.learned, ?_⟩
    rw [same.sent, same.learned]

variable {index : Nat} {ip : IpAddr} {force : Bool}

theorem cacheFind_none (missed : stack.cacheFind ip = (none, after)) :
    after = stack ∧ ∀ index ∈ stack.cache.cacheList, (stack.cache.entry index).paddr ≠ ip := by
  rw [cacheFind] at missed
  generalize result : stack.cache.cacheFind ip = found at missed
  obtain ⟨found, cache⟩ := found
  cases missed
  obtain ⟨rfl, absent⟩ := ArpCache.cacheFind_none result
  exact ⟨rfl, absent⟩

theorem cacheFind_some (found : stack.cacheFind ip = (some index, after)) :
    index ∈ stack.cache.cacheList ∧ (stack.cache.entry index).paddr = ip ∧
      after = { stack with cache := { stack.cache with
        cacheList := index :: stack.cache.cacheList.erase index } } := by
  rw [cacheFind] at found
  generalize result : stack.cache.cacheFind ip = isFound at found
  obtain ⟨isFound, cache⟩ := isFound
  cases found
  obtain ⟨member, paddr, rfl⟩ := ArpCache.cacheFind_some result
  exact ⟨member, paddr, rfl⟩

theorem cacheClearAll_setEntry (stack : NetStack) (index : Nat) (entry : ArpEntry) :
    ((stack.cacheClearAll index).setEntry index entry).cache = stack.cache.setEntry index entry ∧
      (stack.cacheClearAll index).learned = stack.learned ∧
      (stack.cacheClearAll index).sent = stack.sent := by
  have same := foldl_pktbufFree_sameArp (stack.cache.entry index).bufList stack
  refine ⟨?_, same.learned, same.sent⟩
  rw [setEntry, cacheClearAll, setEntry, ArpCache.setEntry, ArpCache.setEntry, same.cache,
    Function.update_idem, ArpCache.setEntry]

theorem cacheAlloc_some (alloc : stack.cacheAlloc force = (some index, after))
    (wf : stack.cache.Wf []) :
    after.cache.Wf [index] ∧ after.cache.entry index = .zero ∧
      (∀ other ∈ after.cache.cacheList, other ∈ stack.cache.cacheList ∧
        after.cache.entry other = stack.cache.entry other) ∧
      after.learned = stack.learned ∧ after.sent = stack.sent := by
  unfold cacheAlloc at alloc
  split at alloc
  next free pool allocated =>
    cases alloc
    have inHand := wf.take (ExmsgState.mblockAlloc_eq_some_iff.mp allocated)
    refine ⟨inHand, ArpCache.setEntry_entry_self _ _ _, fun other member => ⟨member, ?_⟩, rfl, rfl⟩
    have different : other ≠ index := fun same => inHand.not_mem (same ▸ member)
    exact ArpCache.setEntry_entry_of_ne _ different _
  next =>
    split at alloc
    next =>
      split at alloc
      next => cases alloc
      next last isLast =>
        cases alloc
        have inHand := wf.evict isLast
        have cleared := cacheClearAll_setEntry
          { stack with cache := { stack.cache with cacheList := stack.cache.cacheList.dropLast } }
          index .zero
        obtain ⟨cache, learned, sent⟩ := cleared
        rw [cache]
        refine ⟨inHand, ArpCache.setEntry_entry_self _ _ _, fun other member => ⟨?_, ?_⟩,
          learned, sent⟩
        · exact (List.dropLast_sublist _).subset member
        · have different : other ≠ index := fun same => inHand.not_mem (same ▸ member)
          exact ArpCache.setEntry_entry_of_ne _ different _
    next => cases alloc

theorem cacheAlloc_none (alloc : stack.cacheAlloc force = (none, after)) : after = stack := by
  unfold cacheAlloc at alloc
  split at alloc
  next => cases alloc
  next =>
    split at alloc
    next =>
      split at alloc
      next =>
        cases alloc
        rfl
      next => cases alloc
    next =>
      cases alloc
      rfl

theorem cacheSendLoop_wf {bufList : List Nat}
    (sent : cacheSendLoop index bufList stack = some (err, after))
    (wf : stack.cache.Wf []) (member : index ∈ stack.cache.cacheList) : after.cache.Wf [] := by
  induction bufList generalizing stack with
  | nil =>
      cases sent
      exact wf
  | cons buf bufList ih =>
      obtain ⟨netif, _, rest⟩ := Option.bind_eq_some_iff.mp sent
      obtain ⟨⟨outErr, outStack⟩, out, rest⟩ := Option.bind_eq_some_iff.mp rest
      have cache := (etherIpv4Out_arp out).1
      have outWf : outStack.cache.Wf [] := by
        rw [cache]
        exact wf.update member rfl (wf.live index member)
      dsimp only at rest
      split at rest
      next =>
        cases rest
        exact outWf
      next =>
        refine ih rest outWf ?_
        rw [cache]
        exact member

theorem perm_moveFront {list : List Nat} (member : index ∈ list) :
    (index :: list.erase index).Perm list :=
  (List.perm_cons_erase member).symm

theorem cacheInsert_wf {hwAddr : HwAddr}
    (inserted : stack.cacheInsert netif ip hwAddr force = some (err, after))
    (wf : stack.cache.Wf []) : after.cache.Wf [] := by
  unfold cacheInsert at inserted
  split at inserted
  next middle missed =>
    obtain ⟨rfl, absent⟩ := cacheFind_none missed
    split at inserted
    next unallocated alloc =>
      cases inserted
      rw [cacheAlloc_none alloc]
      exact wf
    next index allocated alloc =>
      cases inserted
      obtain ⟨inHand, _, kept, _, _⟩ := cacheAlloc_some alloc wf
      refine inHand.enter (fun other member => ?_) (.inr rfl)
      rw [(kept other member).2]
      exact absent other (kept other member).1
  next index middle found =>
    obtain ⟨member, paddr, rfl⟩ := cacheFind_some found
    dsimp only at inserted
    split at inserted
    next =>
      refine cacheSendLoop_wf inserted ?_ List.mem_cons_self
      exact (wf.reorder (perm_moveFront member)).update List.mem_cons_self paddr.symm (.inr rfl)
    -- The entry was just found, so it is at the front.
    next elsewhere => exact absurd rfl elsewhere

theorem arpFind_wf (wf : stack.cache.Wf []) : (stack.arpFind ip).2.cache.Wf [] := by
  unfold arpFind
  split
  next middle missed =>
    obtain ⟨rfl, _⟩ := cacheFind_none missed
    exact wf
  next index middle found =>
    obtain ⟨member, _, rfl⟩ := cacheFind_some found
    exact wf.reorder (perm_moveFront member)

theorem arpResolve_wf
    (resolved : stack.arpResolve netif ip buf = some (err, after))
    (wf : stack.cache.Wf []) : after.cache.Wf [] := by
  unfold arpResolve at resolved
  split at resolved
  next index middle found =>
    obtain ⟨member, _, rfl⟩ := cacheFind_some found
    have moved := wf.reorder (perm_moveFront member)
    dsimp only at resolved
    split at resolved
    next =>
      rw [(etherIpv4Out_arp resolved).1]
      exact moved
    next =>
      split at resolved
      next =>
        cases resolved
        exact moved
      next =>
        cases resolved
        exact moved.update List.mem_cons_self rfl (wf.live index member)
  next middle missed =>
    obtain ⟨rfl, absent⟩ := cacheFind_none missed
    split at resolved
    next unallocated alloc =>
      cases resolved
      rw [cacheAlloc_none alloc]
      exact wf
    next index allocated alloc =>
      obtain ⟨inHand, _, kept, _, _⟩ := cacheAlloc_some alloc wf
      rw [(arpMakeRequest_sameArp resolved).cache]
      refine (inHand.enter (fun other member => ?_) (.inl rfl)).reorder
        (List.perm_append_singleton _ _)
      rw [(kept other member).2]
      exact absent other (kept other member).1

end NetStack

/-- The calls that use the cache.  `elsewhere` is what the rest of the stack does in
between. -/
inductive ArpCall where
  | insert (netif : Nat) (ipAddr : IpAddr) (hwAddr : HwAddr) (force : Bool)
  | resolve (netif : Nat) (addr : IpAddr) (buf : Nat)
  | find (ip : IpAddr)
  | elsewhere (change : NetStack → NetStack)

namespace NetStack

def arpCall (stack : NetStack) : ArpCall → Option NetStack
  | .insert netif ipAddr hwAddr force => (stack.cacheInsert netif ipAddr hwAddr force).map (·.2)
  | .resolve netif addr buf => (stack.arpResolve netif addr buf).map (·.2)
  | .find ip => some (stack.arpFind ip).2
  | .elsewhere change => some { change stack with cache := stack.cache }

theorem arpCall_wf {stack after : NetStack} {call : ArpCall} (wf : stack.cache.Wf [])
    (called : stack.arpCall call = some after) : after.cache.Wf [] := by
  cases call with
  | insert netif ipAddr hwAddr force =>
      obtain ⟨⟨err, _⟩, inserted, rfl⟩ := Option.map_eq_some_iff.mp called
      exact cacheInsert_wf inserted wf
  | resolve netif addr buf =>
      obtain ⟨⟨err, _⟩, resolved, rfl⟩ := Option.map_eq_some_iff.mp called
      exact arpResolve_wf resolved wf
  | find ip =>
      cases called
      exact arpFind_wf wf
  | elsewhere change =>
      cases called
      exact wf

/-- From `init_arp` on the representation of the cache is kept by every call. -/
theorem reaches_arpCache_wf {start stack : NetStack} (initial : start.cache = .initArp)
    (reached : Reaches arpCall (fun _ _ => True) start stack) : stack.cache.Wf [] := by
  refine reached.invariant (fun stack => stack.cache.Wf []) ?_ ?_
  · rw [initial]
    exact ArpCache.wf_initArp
  · intro state after call wf _ called
    exact arpCall_wf wf called

def sampleInterface : Interface where
  desc := ⟨0x0200000a, 0x00ffffff, 1500⟩
  mac := [2, 0, 0, 0, 0, 2]
  linkLayer := true
  inQ := []
  outQ := []

def sampleStack : NetStack :=
  initStack (fun _ => sampleInterface) [] [0, 0, 0, 0, 0, 0]

/-- An address is learned and looked up. -/
theorem reaches_arpCache_wf_insert :
    ∃ stack, Reaches arpCall (fun _ _ => True) sampleStack stack ∧
      stack.cache.cacheList = [0] ∧ stack.cache.Wf [] := by
  have inserted : Reaches arpCall (fun _ _ => True) sampleStack _ :=
    .next .refl trivial
      (show arpCall sampleStack (.insert 0 0x0100000a [2, 0, 0, 0, 0, 1] false) = some _ from rfl)
  have found : Reaches arpCall (fun _ _ => True) _ _ :=
    .next inserted trivial (show arpCall _ (.find 0x0100000a) = some _ from rfl)
  exact ⟨_, found, rfl, reaches_arpCache_wf rfl found⟩

end NetStack

end CleanOS.Net
