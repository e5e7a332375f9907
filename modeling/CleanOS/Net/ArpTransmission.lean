import Mathlib.Data.List.Nodup
import CleanOS.Net.ArpCache

/-!
# Transmission through the ARP cache

Runs of `ether_out` and of received frames.  An entry that waits holds the packets
for its address until the address is learned.  `arp_find` returns the hardware
address of an entry that waits too, so the runs considered call `ether_out` for
addresses without such an entry only.
-/

namespace CleanOS.Net

open CleanOS.Lib

/-! ### The cache as a map -/

namespace ArpCache

def lookup (cache : ArpCache) (ip : IpAddr) : Option ArpEntry :=
  (cache.cacheList.find? fun index => (cache.entry index).paddr = ip).map cache.entry

variable {cache : ArpCache} {inHand : List Nat} {index : Nat} {ip : IpAddr} {entry : ArpEntry}

theorem Wf.eq_of_paddr (wf : cache.Wf inHand) {first second : Nat}
    (firstIn : first ∈ cache.cacheList) (secondIn : second ∈ cache.cacheList)
    (same : (cache.entry first).paddr = (cache.entry second).paddr) : first = second :=
  List.inj_on_of_nodup_map wf.distinct firstIn secondIn same

theorem Wf.lookup_eq_some (wf : cache.Wf inHand) :
    cache.lookup ip = some entry ↔ ∃ index ∈ cache.cacheList,
      (cache.entry index).paddr = ip ∧ cache.entry index = entry := by
  constructor
  · intro isEntry
    obtain ⟨index, found, same⟩ := Option.map_eq_some_iff.mp isEntry
    exact ⟨index, List.mem_of_find?_eq_some found, by simpa using List.find?_some found, same⟩
  · rintro ⟨index, member, paddr, rfl⟩
    cases found : cache.cacheList.find? fun index => (cache.entry index).paddr = ip with
    | none => exact absurd paddr (by simpa using List.find?_eq_none.mp found index member)
    | some other =>
        have otherPaddr : (cache.entry other).paddr = ip := by
          simpa using List.find?_some found
        have same := wf.eq_of_paddr (List.mem_of_find?_eq_some found) member
          (otherPaddr.trans paddr.symm)
        rw [lookup, found, Option.map_some, same]

theorem Wf.lookup_eq_none (wf : cache.Wf inHand) :
    cache.lookup ip = none ↔ ∀ index ∈ cache.cacheList, (cache.entry index).paddr ≠ ip := by
  constructor
  · intro missing index member paddr
    have found := wf.lookup_eq_some.mpr ⟨index, member, paddr, rfl⟩
    rw [missing] at found
    cases found
  · intro absent
    cases found : cache.lookup ip with
    | none => rfl
    | some entry =>
        obtain ⟨index, member, paddr, _⟩ := wf.lookup_eq_some.mp found
        exact absurd paddr (absent index member)

theorem Wf.lookup_reorder (wf : cache.Wf inHand) {list : List Nat}
    (same : list.Perm cache.cacheList) (ip : IpAddr) :
    { cache with cacheList := list }.lookup ip = cache.lookup ip := by
  refine Option.ext fun entry => ?_
  rw [(wf.reorder same).lookup_eq_some, wf.lookup_eq_some]
  simp only [same.mem_iff]

theorem Wf.lookup_update (wf : cache.Wf inHand) (member : index ∈ cache.cacheList)
    (sameAddr : entry.paddr = (cache.entry index).paddr)
    (isLive : entry.state = .waiting ∨ entry.state = .resolved) (ip : IpAddr) :
    (cache.setEntry index entry).lookup ip =
      if ip = entry.paddr then some entry else cache.lookup ip := by
  have updated := wf.update member sameAddr isLive
  split
  next same =>
    rw [updated.lookup_eq_some]
    exact ⟨index, member, by rw [setEntry_entry_self, same], setEntry_entry_self _ _ _⟩
  next different =>
    refine Option.ext fun other => ?_
    rw [updated.lookup_eq_some, wf.lookup_eq_some]
    refine exists_congr fun otherIndex => and_congr_right fun otherIn => ?_
    by_cases same : otherIndex = index
    · rw [same, setEntry_entry_self, ← sameAddr]
      exact ⟨fun both => absurd both.1.symm different, fun both => absurd both.1.symm different⟩
    · rw [setEntry_entry_of_ne cache same]

theorem Wf.lookup_enter (wf : cache.Wf [index])
    (newAddr : ∀ other ∈ cache.cacheList, (cache.entry other).paddr ≠ entry.paddr)
    (isLive : entry.state = .waiting ∨ entry.state = .resolved) (ip : IpAddr) :
    { cache.setEntry index entry with cacheList := index :: cache.cacheList }.lookup ip =
      if ip = entry.paddr then some entry else cache.lookup ip := by
  have entered := wf.enter newAddr isLive
  split
  next same =>
    rw [entered.lookup_eq_some]
    exact ⟨index, List.mem_cons_self, by rw [setEntry_entry_self, same],
      setEntry_entry_self _ _ _⟩
  next different =>
    refine Option.ext fun other => ?_
    rw [entered.lookup_eq_some, wf.lookup_eq_some]
    constructor
    · rintro ⟨otherIndex, otherIn, paddr, isOther⟩
      dsimp only at paddr isOther
      by_cases same : otherIndex = index
      · rw [same, setEntry_entry_self] at paddr
        exact absurd paddr.symm different
      · rw [setEntry_entry_of_ne cache same] at paddr isOther
        exact ⟨otherIndex, (List.mem_cons.mp otherIn).resolve_left same, paddr, isOther⟩
    · rintro ⟨otherIndex, otherIn, paddr, isOther⟩
      have unlike : otherIndex ≠ index := fun same => wf.not_mem (same ▸ otherIn)
      refine ⟨otherIndex, List.mem_cons_of_mem _ otherIn, ?_, ?_⟩
      · rw [setEntry_entry_of_ne cache unlike]
        exact paddr
      · rw [setEntry_entry_of_ne cache unlike]
        exact isOther

end ArpCache

/-! ### Events -/

/-- A call of `ether_out` and a frame that is received.  `elsewhere` is what the rest
of the system does in between. -/
inductive ArpEvent where
  | out (netif : Nat) (ipAddr : IpAddr) (buf : Nat)
  | receive (netif buf : Nat)
  | elsewhere (change : NetStack → NetStack)

namespace NetStack

def arpEvent (stack : NetStack) : ArpEvent → Option NetStack
  | .out netif ipAddr buf => (stack.etherOut netif ipAddr buf).map (·.2)
  | .receive netif buf => (stack.etherIn netif buf).map (·.2)
  | .elsewhere change => some { change stack with
      cache := stack.cache
      learned := stack.learned
      sent := stack.sent }

def Has (stack : NetStack) (ip : IpAddr) (state : ArpEntryState) : Prop :=
  (stack.cache.lookup ip).map ArpEntry.state = some state

instance (stack : NetStack) (ip : IpAddr) (state : ArpEntryState) :
    Decidable (stack.Has ip state) :=
  inferInstanceAs (Decidable ((stack.cache.lookup ip).map ArpEntry.state = some state))

/-- The packets that an entry which waits holds, in the order in which `arp_resolve`
got them. -/
def queue (stack : NetStack) (ip : IpAddr) : List Nat :=
  match stack.cache.lookup ip with
  | some entry => if entry.state = .waiting then entry.bufList.reverse else []
  | none => []

/-- The addresses that `ether_in` learns from a frame, and the stack at that point. -/
def etherLearns (stack : NetStack) (netif buf : Nat) :
    Option (NetStack × IpAddr × HwAddr) := do
  let (err, stack, protocol) ← stack.etherCheckIn buf
  if err.isError then none
  else if protocol = netProtocolArp then
    let (err, stack, pkt) ← stack.arpCheckIn buf
    if err = .ok then some (stack, sendPaddr pkt, sendHaddr pkt) else none
  else if protocol = netProtocolIpv4 then
    let (learns, stack, frame) ← stack.ipbufCheckIn netif buf
    if learns then
      some (stack, hdrSrcIp (frame.drop etherHdrLen), (frame.drop 6).take 6)
    else none
  else none

/-- `ether_out` is not called for an address whose entry waits, and when an address is
learned the packets that wait for it can be passed on. -/
def ArpGuard (stack : NetStack) : ArpEvent → Prop
  | .out netif ipAddr _ =>
      ipAddr = (stack.netif netif).desc.ipAddr ∨ ¬ stack.Has ipAddr .waiting
  | .receive netif buf => ∀ checked ip hwAddr,
      stack.etherLearns netif buf = some (checked, ip, hwAddr) →
      ∀ waiting ∈ checked.queue ip, checked.Passable netif netProtocolIpv4 hwAddr waiting
  | .elsewhere _ => True

structure EntrySound (learned : Option HwAddr) (entry : ArpEntry) : Prop where
  resolved : entry.state = .resolved → learned = some entry.haddr ∧ entry.bufList = []
  waiting : entry.state = .waiting → ∃ buf, entry.bufList = [buf]

structure ArpSound (stack : NetStack) : Prop where
  wf : stack.cache.Wf []
  entries : ∀ ip entry, stack.cache.lookup ip = some entry → EntrySound (stack.learned ip) entry
  sent : ∀ frame ∈ stack.sent, frame.latest = some frame.dest

/-- What a step does with the packets that wait. -/
structure Delivers (stack after : NetStack) : Prop where
  flushed : ∀ ip, stack.Has ip .waiting → after.Has ip .resolved →
    ∃ hwAddr, after.learned ip = some hwAddr ∧ after.sent = stack.sent ++
      (stack.queue ip).map fun buf => ⟨ip, hwAddr, buf, some hwAddr⟩
  kept : ∀ ip, stack.Has ip .waiting → after.Has ip .waiting → after.queue ip = stack.queue ip

/-- What `ether_out` does with a packet for another host: it is sent to the address
learned last, or it joins the packets that wait. -/
structure Outputs (stack after : NetStack) (ip : IpAddr) (buf : Nat) : Prop where
  direct : stack.Has ip .resolved → ∃ hwAddr, stack.learned ip = some hwAddr ∧
    (after.sent = stack.sent ∨ after.sent = stack.sent ++ [⟨ip, hwAddr, buf, some hwAddr⟩])
  queued : ¬ stack.Has ip .resolved → after.Has ip .waiting ∧
    after.queue ip = stack.queue ip ++ [buf] ∧ after.sent = stack.sent

variable {stack after : NetStack} {netif buf index : Nat} {ip : IpAddr} {err : NetErr}
  {dest hwAddr : HwAddr} {force : Bool}

theorem has_iff {state : ArpEntryState} :
    stack.Has ip state ↔ ∃ entry, stack.cache.lookup ip = some entry ∧ entry.state = state := by
  rw [Has, Option.map_eq_some_iff]

theorem queue_of_lookup {entry : ArpEntry} (found : stack.cache.lookup ip = some entry)
    (waiting : entry.state = .waiting) : stack.queue ip = entry.bufList.reverse := by
  rw [queue, found]
  exact if_pos waiting

theorem queue_congr (same : after.cache.lookup ip = stack.cache.lookup ip) :
    after.queue ip = stack.queue ip := by
  rw [queue, queue, same]

theorem Delivers.of_lookup (same : ∀ ip, after.cache.lookup ip = stack.cache.lookup ip ∨
      after.cache.lookup ip = none ∨ stack.cache.lookup ip = none) : Delivers stack after := by
  constructor
  · intro ip before resolved
    obtain ⟨entry, found, isWaiting⟩ := has_iff.mp before
    obtain ⟨entryAfter, foundAfter, isResolved⟩ := has_iff.mp resolved
    rcases same ip with same | missing | missing
    · rw [found, foundAfter] at same
      cases same
      rw [isWaiting] at isResolved
      cases isResolved
    · rw [missing] at foundAfter
      cases foundAfter
    · rw [missing] at found
      cases found
  · intro ip before waiting
    obtain ⟨entry, found, _⟩ := has_iff.mp before
    obtain ⟨entryAfter, foundAfter, _⟩ := has_iff.mp waiting
    rcases same ip with same | missing | missing
    · exact queue_congr same
    · rw [missing] at foundAfter
      cases foundAfter
    · rw [missing] at found
      cases found

theorem ArpSound.of_entry (sound : stack.ArpSound) (wf : after.cache.Wf [])
    (others : ∀ other, other ≠ ip → after.cache.lookup other = stack.cache.lookup other ∨
      after.cache.lookup other = none)
    (learned : ∀ other, other ≠ ip → after.learned other = stack.learned other)
    (entry : ∀ entry, after.cache.lookup ip = some entry → EntrySound (after.learned ip) entry)
    (sent : ∀ frame ∈ after.sent, frame ∈ stack.sent ∨ frame.latest = some frame.dest) :
    after.ArpSound where
  wf := wf
  entries := by
    intro other otherEntry found
    by_cases same : other = ip
    · subst same
      exact entry otherEntry found
    · rw [learned other same]
      rcases others other same with kept | missing
      · rw [kept] at found
        exact sound.entries other otherEntry found
      · rw [missing] at found
        cases found
  sent := fun frame member => (sent frame member).elim (sound.sent frame) id

theorem ArpSound.of_sameArp (sound : stack.ArpSound) (same : SameArp stack after) :
    after.ArpSound := by
  refine ⟨same.cache ▸ sound.wf, ?_, same.sent ▸ sound.sent⟩
  rw [same.cache, same.learned]
  exact sound.entries

theorem Delivers.of_sameArp (same : SameArp stack after) : Delivers stack after :=
  .of_lookup fun ip => .inl (by rw [same.cache])

theorem cacheFind_none_lookup (missed : stack.cacheFind ip = (none, after))
    (wf : stack.cache.Wf []) : after = stack ∧ stack.cache.lookup ip = none :=
  ⟨(cacheFind_none missed).1, wf.lookup_eq_none.mpr (cacheFind_none missed).2⟩

theorem cacheFind_some_lookup (found : stack.cacheFind ip = (some index, after))
    (wf : stack.cache.Wf []) :
    stack.cache.lookup ip = some (stack.cache.entry index) ∧
      ∀ other, after.cache.lookup other = stack.cache.lookup other := by
  obtain ⟨member, paddr, rfl⟩ := cacheFind_some found
  exact ⟨wf.lookup_eq_some.mpr ⟨index, member, paddr, rfl⟩,
    wf.lookup_reorder (perm_moveFront member)⟩

theorem cacheAlloc_lookup (alloc : stack.cacheAlloc force = (some index, after))
    (wf : stack.cache.Wf []) (ip : IpAddr) :
    after.cache.lookup ip = stack.cache.lookup ip ∨ after.cache.lookup ip = none := by
  obtain ⟨inHand, _, kept, _, _⟩ := cacheAlloc_some alloc wf
  cases found : after.cache.lookup ip with
  | none => exact .inr rfl
  | some entry =>
      obtain ⟨other, member, paddr, rfl⟩ := inHand.lookup_eq_some.mp found
      rw [(kept other member).2] at paddr ⊢
      exact .inl (wf.lookup_eq_some.mpr ⟨other, (kept other member).1, paddr, rfl⟩).symm

theorem etherIpv4Out_of_passable (passable : stack.Passable netif netProtocolIpv4 dest buf)
    (out : stack.etherIpv4Out netif ip dest buf = some (err, after)) : err.isError = false := by
  obtain ⟨⟨rawErr, rawStack⟩, raw, rest⟩ := Option.bind_eq_some_iff.mp out
  have noError := (etherRawOut_noError_iff raw).mpr passable
  dsimp only at rest
  rw [if_neg (Bool.not_eq_true _ ▸ noError)] at rest
  cases rest
  exact noError

theorem enter_sound {allocated : NetStack} (sound : stack.ArpSound)
    (missing : stack.cache.lookup ip = none)
    (alloc : stack.cacheAlloc force = (some index, allocated)) (entry : ArpEntry)
    (paddr : entry.paddr = ip) (isLive : entry.state = .waiting ∨ entry.state = .resolved)
    {list : List Nat} (perm : list.Perm (index :: allocated.cache.cacheList))
    {cache : ArpCache}
    (isCache : cache = { allocated.cache.setEntry index entry with cacheList := list }) :
    cache.Wf [] ∧ cache.lookup ip = some entry ∧
      ∀ other, other ≠ ip → cache.lookup other = stack.cache.lookup other ∨
        cache.lookup other = none := by
  obtain ⟨inHand, _, kept, _, _⟩ := cacheAlloc_some alloc sound.wf
  have absent := sound.wf.lookup_eq_none.mp missing
  have newAddr : ∀ other ∈ allocated.cache.cacheList,
      (allocated.cache.entry other).paddr ≠ entry.paddr := by
    intro other member
    rw [(kept other member).2, paddr]
    exact absent other (kept other member).1
  have entered := inHand.enter newAddr isLive
  have lookups := inHand.lookup_enter newAddr isLive
  have reordered := entered.lookup_reorder perm
  rw [isCache]
  refine ⟨entered.reorder perm, ?_, ?_⟩
  · rw [reordered, lookups, if_pos paddr.symm]
  · intro other different
    rw [reordered, lookups, if_neg (paddr ▸ different)]
    exact cacheAlloc_lookup alloc sound.wf other

theorem cacheInsert_missing (sound : stack.ArpSound)
    (missed : (stack.cacheFind ip).1 = none)
    (inserted : stack.cacheInsert netif ip hwAddr force = some (err, after)) :
    after.ArpSound ∧ Delivers stack after := by
  have missing : stack.cache.lookup ip = none :=
    (cacheFind_none_lookup (Prod.ext missed rfl) sound.wf).2
  have same : (stack.cacheFind ip).2 = stack :=
    (cacheFind_none (Prod.ext missed rfl)).1
  have find : stack.cacheFind ip = (none, stack) := Prod.ext missed same
  rw [cacheInsert, find] at inserted
  dsimp only at inserted
  split at inserted
  next unallocated alloc =>
    cases inserted
    rw [cacheAlloc_none alloc]
    exact ⟨sound, .of_lookup fun _ => .inl rfl⟩
  next index allocated alloc =>
    cases inserted
    obtain ⟨_, cleared, _, learned, sent⟩ := cacheAlloc_some alloc sound.wf
    obtain ⟨wf, entered, others⟩ := enter_sound sound missing alloc
      ((allocated.cache.entry index).cacheEntrySet hwAddr ip netif .resolved)
      rfl (.inr rfl) (.refl _) rfl
    refine ⟨sound.of_entry wf others ?_ ?_ ?_, .of_lookup ?_⟩
    · intro other different
      rw [← learned]
      exact Function.update_of_ne different _ _
    · intro entry found
      cases entered.symm.trans found
      refine ⟨fun _ => ⟨Function.update_self _ _ _, ?_⟩, fun isWaiting => by cases isWaiting⟩
      rw [cleared]
      rfl
    · intro frame member
      exact .inl (sent ▸ member)
    · intro other
      by_cases same : other = ip
      · exact .inr (.inr (same ▸ missing))
      · exact (others other same).imp_right .inl

theorem resolve_sound {before : ArpEntry} (entry : ArpEntry) (sound : stack.ArpSound)
    (found : stack.cache.lookup ip = some before) (wf : after.cache.Wf [])
    (resolved : entry.state = .resolved) (empty : entry.bufList = [])
    (lookups : ∀ other, after.cache.lookup other =
      if other = ip then some entry else stack.cache.lookup other)
    (learned : after.learned = Function.update stack.learned ip (some entry.haddr))
    (sent : after.sent = stack.sent ++
      (stack.queue ip).map fun buf => ⟨ip, entry.haddr, buf, some entry.haddr⟩) :
    after.ArpSound ∧ Delivers stack after := by
  have others : ∀ other, other ≠ ip → after.cache.lookup other = stack.cache.lookup other :=
    fun other different => (lookups other).trans (if_neg different)
  have atIp : after.cache.lookup ip = some entry := (lookups ip).trans (if_pos rfl)
  have learnedIp : after.learned ip = some entry.haddr := by
    rw [learned, Function.update_self]
  refine ⟨sound.of_entry wf (fun other different => .inl (others other different)) ?_ ?_ ?_, ?_⟩
  · intro other different
    rw [learned, Function.update_of_ne different]
  · intro found isFound
    cases atIp.symm.trans isFound
    exact ⟨fun _ => ⟨learnedIp, empty⟩, fun isWaiting => by rw [resolved] at isWaiting; cases isWaiting⟩
  · intro frame member
    rw [sent] at member
    rcases List.mem_append.mp member with old | new
    · exact .inl old
    · obtain ⟨buf, _, rfl⟩ := List.mem_map.mp new
      exact .inr rfl
  · refine ⟨fun other waiting isResolved => ?_, fun other waiting stillWaiting => ?_⟩
    · by_cases same : other = ip
      · subst same
        exact ⟨entry.haddr, learnedIp, sent⟩
      · obtain ⟨waits, foundWaits, isWaiting⟩ := has_iff.mp waiting
        obtain ⟨now, foundNow, nowResolved⟩ := has_iff.mp isResolved
        rw [others other same, foundWaits] at foundNow
        cases foundNow
        rw [isWaiting] at nowResolved
        cases nowResolved
    · by_cases same : other = ip
      · subst same
        obtain ⟨now, foundNow, nowWaiting⟩ := has_iff.mp stillWaiting
        cases atIp.symm.trans foundNow
        rw [resolved] at nowWaiting
        cases nowWaiting
      · exact queue_congr (others other same)

theorem found_sound (netif : Nat) (sound : stack.ArpSound) (member : index ∈ stack.cache.cacheList)
    (paddr : (stack.cache.entry index).paddr = ip)
    (cache : after.cache = { stack.cache with
        cacheList := index :: stack.cache.cacheList.erase index }.setEntry index
      { (stack.cache.entry index).cacheEntrySet hwAddr ip netif .resolved with bufList := [] })
    (learned : after.learned = Function.update stack.learned ip (some hwAddr))
    (sent : after.sent = stack.sent ++
      (stack.queue ip).map fun buf => ⟨ip, hwAddr, buf, some hwAddr⟩) :
    after.ArpSound ∧ Delivers stack after := by
  have moved := perm_moveFront member
  have wf := sound.wf.reorder moved
  have found := sound.wf.lookup_eq_some.mpr ⟨index, member, paddr, rfl⟩
  refine resolve_sound
    { (stack.cache.entry index).cacheEntrySet hwAddr ip netif .resolved with bufList := [] }
    sound found ?_ rfl rfl ?_ learned sent
  · rw [cache]
    exact wf.update List.mem_cons_self paddr.symm (.inr rfl)
  · intro other
    rw [cache, wf.lookup_update List.mem_cons_self paddr.symm (.inr rfl),
      sound.wf.lookup_reorder moved]
    rfl

theorem cacheEntrySet_bufList (entry : ArpEntry) (state : ArpEntryState) :
    (entry.cacheEntrySet hwAddr ip netif state).bufList = entry.bufList :=
  rfl

theorem learn_entry (stack : NetStack) (index netif : Nat) (ip : IpAddr) (hwAddr : HwAddr) :
    (stack.learn index netif ip hwAddr).cache.entry index =
      (stack.cache.entry index).cacheEntrySet hwAddr ip netif .resolved :=
  Function.update_self _ _ _

theorem learn_learned (stack : NetStack) (index netif : Nat) (ip : IpAddr) (hwAddr : HwAddr) :
    (stack.learn index netif ip hwAddr).learned ip = some hwAddr :=
  Function.update_self _ _ _

theorem cacheSendLoop_one {entry : ArpEntry} (isEntry : stack.cache.entry index = entry)
    (isNetif : entry.netif = some netif) (passable : stack.Passable netif netProtocolIpv4 entry.haddr buf)
    (sending : cacheSendLoop index [buf] stack = some (err, after)) :
    after.cache = stack.cache.setEntry index { entry with bufList := [] } ∧
      after.learned = stack.learned ∧ after.sent = stack.sent ++
        [⟨entry.paddr, entry.haddr, buf, stack.learned entry.paddr⟩] := by
  rw [cacheSendLoop, isEntry] at sending
  obtain ⟨used, isUsed, rest⟩ := Option.bind_eq_some_iff.mp sending
  cases isNetif.symm.trans isUsed
  obtain ⟨⟨outErr, outStack⟩, out, passed⟩ := Option.bind_eq_some_iff.mp rest
  have passableHere : (stack.setEntry index { entry with bufList := [] }).Passable netif
    netProtocolIpv4 entry.haddr buf := passable
  have noError := etherIpv4Out_of_passable passableHere out
  obtain ⟨cache, learned, sent⟩ := etherIpv4Out_arp out
  rw [noError] at sent
  dsimp only at passed
  rw [if_neg (Bool.not_eq_true _ ▸ noError)] at passed
  cases passed
  exact ⟨cache, learned, sent⟩

theorem cacheInsert_found (sound : stack.ArpSound) {moved : NetStack}
    (find : stack.cacheFind ip = (some index, moved))
    (passable : ∀ waiting ∈ stack.queue ip, stack.Passable netif netProtocolIpv4 hwAddr waiting)
    (inserted : stack.cacheInsert netif ip hwAddr force = some (err, after)) :
    after.ArpSound ∧ Delivers stack after := by
  obtain ⟨found, _⟩ := cacheFind_some_lookup find sound.wf
  obtain ⟨member, paddr, rfl⟩ := cacheFind_some find
  have entrySound := sound.entries ip _ found
  rw [cacheInsert, find] at inserted
  dsimp only at inserted
  split at inserted
  next =>
    rcases sound.wf.live index member with isWaiting | isResolved
    · obtain ⟨waiting, held⟩ := entrySound.waiting isWaiting
      have queued : stack.queue ip = [waiting] := by
        rw [queue_of_lookup found isWaiting, held]
        rfl
      have isPassable := passable waiting (queued ▸ List.mem_singleton_self waiting)
      rw [cacheSendAll, learn_entry, cacheEntrySet_bufList, held] at inserted
      obtain ⟨cache, learned, sent⟩ :=
        cacheSendLoop_one (learn_entry _ _ _ _ _) rfl (by exact isPassable) inserted
      refine found_sound netif sound member paddr ?_ learned ?_
      · rw [cache]
        exact congrArg _ (Function.update_idem _ _ _)
      · rw [sent, queued]
        exact congrArg (fun latest => stack.sent ++ [⟨ip, hwAddr, waiting, latest⟩])
          (learn_learned _ index netif ip hwAddr)
    · obtain ⟨_, empty⟩ := entrySound.resolved isResolved
      have noneQueued : stack.queue ip = [] := by
        rw [queue, found]
        exact if_neg (by rw [isResolved]; decide)
      rw [cacheSendAll, learn_entry, cacheEntrySet_bufList, empty] at inserted
      cases inserted
      refine found_sound netif sound member paddr ?_ rfl ?_
      · rw [← empty]
        rfl
      · rw [noneQueued, List.map_nil, List.append_nil]
        rfl
  next elsewhere => exact absurd rfl elsewhere

theorem cacheInsert_sound (sound : stack.ArpSound)
    (passable : ∀ waiting ∈ stack.queue ip, stack.Passable netif netProtocolIpv4 hwAddr waiting)
    (inserted : stack.cacheInsert netif ip hwAddr force = some (err, after)) :
    after.ArpSound ∧ Delivers stack after := by
  cases find : (stack.cacheFind ip).1 with
  | none => exact cacheInsert_missing sound find inserted
  | some index => exact cacheInsert_found sound (Prod.ext find rfl) passable inserted

/-! ### Received frames -/

theorem SameArp.refl (stack : NetStack) : SameArp stack stack :=
  ⟨rfl, rfl, rfl⟩

theorem etherCheckIn_sameArp {protocol : Nat}
    (check : stack.etherCheckIn buf = some (err, after, protocol)) : SameArp stack after := by
  obtain ⟨⟨_, content, blockList⟩, _, rest⟩ := Option.bind_eq_some_iff.mp check
  dsimp only at rest
  split at rest
  next =>
    cases rest
    exact ⟨rfl, rfl, rfl⟩
  next =>
    obtain ⟨hdr, _, rest⟩ := Option.bind_eq_some_iff.mp rest
    split at rest
    next =>
      obtain ⟨_, _, rest⟩ := Option.bind_eq_some_iff.mp rest
      cases rest
      exact ⟨rfl, rfl, rfl⟩
    next =>
      cases rest
      exact ⟨rfl, rfl, rfl⟩

theorem arpCheckIn_sameArp {pkt : List UInt8}
    (check : stack.arpCheckIn buf = some (err, after, pkt)) : SameArp stack after := by
  obtain ⟨⟨_, content, blockList⟩, _, rest⟩ := Option.bind_eq_some_iff.mp check
  dsimp only at rest
  split at rest
  next =>
    cases rest
    exact ⟨rfl, rfl, rfl⟩
  next =>
    obtain ⟨pkt, _, rest⟩ := Option.bind_eq_some_iff.mp rest
    cases rest
    exact ⟨rfl, rfl, rfl⟩

theorem ipbufCheckIn_sameArp {learns : Bool} {frame : List UInt8}
    (check : stack.ipbufCheckIn netif buf = some (learns, after, frame)) :
    SameArp stack after := by
  obtain ⟨⟨_, content, blockList⟩, _, rest⟩ := Option.bind_eq_some_iff.mp check
  dsimp only at rest
  split at rest
  next =>
    cases rest
    exact ⟨rfl, rfl, rfl⟩
  next =>
    obtain ⟨frame, _, rest⟩ := Option.bind_eq_some_iff.mp rest
    split at rest
    next =>
      cases rest
      exact ⟨rfl, rfl, rfl⟩
    next =>
      split at rest <;> cases rest <;> exact ⟨rfl, rfl, rfl⟩

def Learns (stack : NetStack) (netif : Nat) (ip : IpAddr) (hwAddr : HwAddr)
    (after : NetStack) : Prop :=
  ∃ force err middle, stack.cacheInsert netif ip hwAddr force = some (err, middle) ∧
    SameArp middle after

theorem arpMakeReply_sameArp {pkt : List UInt8}
    (reply : stack.arpMakeReply netif buf pkt = some (err, after)) : SameArp stack after := by
  obtain ⟨content, _, out⟩ := Option.bind_eq_some_iff.mp reply
  have filled : SameArp stack (stack.setPacket buf content) := ⟨rfl, rfl, rfl⟩
  exact filled.trans (etherRawOut_sameArp out)

theorem arpIn_cases (received : stack.arpIn netif buf = some (err, after)) :
    SameArp stack after ∨ ∃ checked pkt, stack.arpCheckIn buf = some (.ok, checked, pkt) ∧
      Learns checked netif (sendPaddr pkt) (sendHaddr pkt) after := by
  obtain ⟨⟨checkErr, checked, pkt⟩, check, rest⟩ := Option.bind_eq_some_iff.mp received
  dsimp only at rest
  split at rest
  next =>
    cases rest
    exact .inl (arpCheckIn_sameArp check)
  next noError =>
    rw [ne_eq, not_not] at noError
    subst noError
    refine .inr ⟨checked, pkt, check, ?_⟩
    split at rest
    next =>
      obtain ⟨⟨insertErr, inserted⟩, insert, rest⟩ := Option.bind_eq_some_iff.mp rest
      dsimp only at rest
      split at rest
      next => exact ⟨true, insertErr, inserted, insert, arpMakeReply_sameArp rest⟩
      next =>
        cases rest
        exact ⟨true, insertErr, _, insert, .refl _⟩
    next =>
      obtain ⟨⟨insertErr, inserted⟩, insert, rest⟩ := Option.bind_eq_some_iff.mp rest
      cases rest
      exact ⟨false, insertErr, inserted, insert, ⟨rfl, rfl, rfl⟩⟩

theorem arpUpdateFromIpbuf_cases (received : stack.arpUpdateFromIpbuf netif buf = some after) :
    SameArp stack after ∨ ∃ checked frame,
      stack.ipbufCheckIn netif buf = some (true, checked, frame) ∧
      Learns checked netif (hdrSrcIp (frame.drop etherHdrLen)) ((frame.drop 6).take 6) after := by
  obtain ⟨⟨learns, checked, frame⟩, check, rest⟩ := Option.bind_eq_some_iff.mp received
  dsimp only at rest
  split at rest
  next isTrue =>
    subst isTrue
    obtain ⟨⟨insertErr, inserted⟩, insert, rest⟩ := Option.bind_eq_some_iff.mp rest
    cases rest
    exact .inr ⟨checked, frame, check, false, insertErr, _, insert, .refl _⟩
  next =>
    cases rest
    exact .inl (ipbufCheckIn_sameArp check)

theorem etherIn_cases (received : stack.etherIn netif buf = some (err, after)) :
    SameArp stack after ∨ ∃ checked ip hwAddr, SameArp stack checked ∧
      stack.etherLearns netif buf = some (checked, ip, hwAddr) ∧
      Learns checked netif ip hwAddr after := by
  obtain ⟨⟨checkErr, checked, protocol⟩, check, rest⟩ := Option.bind_eq_some_iff.mp received
  have same := etherCheckIn_sameArp check
  dsimp only at rest
  split at rest
  next =>
    cases rest
    exact .inl same
  next noError =>
    split at rest
    next isArp =>
      rcases arpIn_cases rest with kept | ⟨arp, pkt, arpCheck, learns⟩
      · exact .inl (same.trans kept)
      · refine .inr ⟨arp, _, _, same.trans (arpCheckIn_sameArp arpCheck), ?_, learns⟩
        simp only [etherLearns, check, arpCheck, noError, isArp, Option.bind_eq_bind,
          Option.bind_some, if_true, Bool.false_eq_true, if_false]
    next notArp =>
      split at rest
      next isIpv4 =>
        subst isIpv4
        obtain ⟨updated, update, rest⟩ := Option.bind_eq_some_iff.mp rest
        obtain ⟨⟨_, content, blockList⟩, _, rest⟩ := Option.bind_eq_some_iff.mp rest
        cases rest
        have stripped : SameArp updated ({ updated with blockList }.setPacket buf content) :=
          ⟨rfl, rfl, rfl⟩
        rcases arpUpdateFromIpbuf_cases update with
          kept | ⟨ipbuf, frame, ipCheck, force, insertErr, middle, insert, learned⟩
        · exact .inl ((same.trans kept).trans stripped)
        · refine .inr ⟨ipbuf, _, _, same.trans (ipbufCheckIn_sameArp ipCheck), ?_,
            force, insertErr, middle, insert, learned.trans stripped⟩
          simp only [etherLearns, check, ipCheck, noError, notArp, Option.bind_eq_bind,
            Option.bind_some, if_true, Bool.false_eq_true, if_false]
      next =>
        cases rest
        exact .inl same

theorem Delivers.congr {first last : NetStack} (before : SameArp stack first)
    (delivers : Delivers first last) (behind : SameArp last after) : Delivers stack after := by
  constructor
  · intro ip waiting resolved
    rw [Has, ← before.cache] at waiting
    rw [Has, behind.cache] at resolved
    obtain ⟨hwAddr, learned, sent⟩ := delivers.flushed ip waiting resolved
    refine ⟨hwAddr, by rw [behind.learned]; exact learned, ?_⟩
    rw [behind.sent, sent, before.sent, queue, queue, before.cache]
  · intro ip waiting stillWaiting
    rw [Has, ← before.cache] at waiting
    rw [Has, behind.cache] at stillWaiting
    have kept := delivers.kept ip waiting stillWaiting
    rw [queue, queue] at kept ⊢
    rw [behind.cache, kept, before.cache]

theorem etherIn_sound (sound : stack.ArpSound)
    (passable : ∀ checked ip hwAddr, stack.etherLearns netif buf = some (checked, ip, hwAddr) →
      ∀ waiting ∈ checked.queue ip, checked.Passable netif netProtocolIpv4 hwAddr waiting)
    (received : stack.etherIn netif buf = some (err, after)) :
    after.ArpSound ∧ Delivers stack after := by
  rcases etherIn_cases received with
    same | ⟨checked, ip, hwAddr, same, learns, force, insertErr, middle, insert, behind⟩
  · exact ⟨sound.of_sameArp same, .of_sameArp same⟩
  · obtain ⟨middleSound, delivers⟩ := cacheInsert_sound (sound.of_sameArp same)
      (passable checked ip hwAddr learns) insert
    exact ⟨middleSound.of_sameArp behind, .congr same delivers behind⟩

/-! ### Output -/

theorem cacheAlloc_force (wf : stack.cache.Wf []) :
    ∃ index allocated, stack.cacheAlloc true = (some index, allocated) := by
  cases alloc : stack.cacheAlloc true with
  | mk found allocated =>
      cases found with
      | some index => exact ⟨index, allocated, rfl⟩
      | none =>
          have length := wf.tabled.length_eq
          unfold cacheAlloc at alloc
          split at alloc
          next => cases alloc
          next empty =>
            rw [if_pos rfl] at alloc
            split at alloc
            next noLast =>
              rw [ExmsgState.mblockAlloc_eq_none_iff.mp empty,
                List.getLast?_eq_none_iff.mp noLast] at length
              cases length
            next => cases alloc

theorem arpResolve_missing (sound : stack.ArpSound)
    (missed : (stack.cacheFind ip).1 = none)
    (resolving : stack.arpResolve netif ip buf = some (err, after)) :
    after.ArpSound ∧ Delivers stack after ∧ after.Has ip .waiting ∧
      after.queue ip = [buf] ∧ after.sent = stack.sent := by
  obtain ⟨same, missing⟩ := cacheFind_none_lookup (Prod.ext missed rfl) sound.wf
  have find : stack.cacheFind ip = (none, stack) := Prod.ext missed same
  obtain ⟨index, allocated, alloc⟩ := cacheAlloc_force sound.wf
  rw [arpResolve, find] at resolving
  dsimp only at resolving
  rw [alloc] at resolving
  dsimp only at resolving
  obtain ⟨_, cleared, _, learned, sent⟩ := cacheAlloc_some alloc sound.wf
  have request := arpMakeRequest_sameArp resolving
  obtain ⟨entry, isEntry⟩ : ∃ entry : ArpEntry, entry =
      { (allocated.cache.entry index).cacheEntrySet allocated.nullBytes ip netif .waiting with
        bufList := buf :: (allocated.cache.entry index).bufList } := ⟨_, rfl⟩
  have holds : entry.bufList = [buf] := by
    rw [isEntry, cleared]
    rfl
  have waits : entry.state = .waiting := by
    rw [isEntry]
    rfl
  have paddr : entry.paddr = ip := by
    rw [isEntry]
    rfl
  have cache : after.cache = { allocated.cache.setEntry index entry with
      cacheList := allocated.cache.cacheList ++ [index] } := by
    rw [isEntry]
    exact request.cache
  obtain ⟨wf, entered, others⟩ := enter_sound sound missing alloc entry paddr (.inl waits)
    (List.perm_append_singleton _ _) cache
  have sentSame : after.sent = stack.sent := request.sent.trans sent
  refine ⟨sound.of_entry wf others ?_ ?_ ?_, .of_lookup ?_, has_iff.mpr ⟨entry, entered, waits⟩,
    ?_, sentSame⟩
  · intro other _
    rw [request.learned]
    exact congrFun learned other
  · intro found isFound
    cases entered.symm.trans isFound
    refine ⟨fun isResolved => ?_, fun _ => ⟨buf, holds⟩⟩
    rw [waits] at isResolved
    cases isResolved
  · intro frame member
    exact .inl (sentSame ▸ member)
  · intro other
    by_cases same : other = ip
    · exact .inr (.inr (same ▸ missing))
    · exact (others other same).imp_right .inl
  · rw [queue_of_lookup entered waits, holds]
    rfl

theorem etherOut_own (own : ip = (stack.netif netif).desc.ipAddr)
    (out : stack.etherOut netif ip buf = some (err, after)) : SameArp stack after := by
  rw [etherOut] at out
  dsimp only at out
  rw [if_pos own.symm] at out
  obtain ⟨⟨rawErr, rawStack⟩, raw, rest⟩ := Option.bind_eq_some_iff.mp out
  cases rest
  exact etherRawOut_sameArp raw

theorem etherOut_other (sound : stack.ArpSound) (other : ip ≠ (stack.netif netif).desc.ipAddr)
    (notWaiting : ¬ stack.Has ip .waiting)
    (out : stack.etherOut netif ip buf = some (err, after)) :
    after.ArpSound ∧ Delivers stack after ∧ Outputs stack after ip buf := by
  rw [etherOut] at out
  dsimp only at out
  rw [if_neg (Ne.symm other)] at out
  cases find : (stack.cacheFind ip).1 with
  | none =>
      obtain ⟨same, missing⟩ := cacheFind_none_lookup (Prod.ext find rfl) sound.wf
      have isFind : stack.cacheFind ip = (none, stack) := Prod.ext find same
      simp only [arpFind, isFind] at out
      obtain ⟨afterSound, delivers, waits, queued, sent⟩ := arpResolve_missing sound find out
      refine ⟨afterSound, delivers, ⟨fun resolved => ?_, fun _ => ⟨waits, ?_, sent⟩⟩⟩
      · obtain ⟨entry, found, _⟩ := has_iff.mp resolved
        rw [missing] at found
        cases found
      · rw [queued, queue, missing]
        rfl
  | some index =>
      have isFind : stack.cacheFind ip = (some index, (stack.cacheFind ip).2) := Prod.ext find rfl
      obtain ⟨found, lookups⟩ := cacheFind_some_lookup isFind sound.wf
      obtain ⟨member, _, isMoved⟩ := cacheFind_some isFind
      have isResolved : (stack.cache.entry index).state = .resolved :=
        (sound.wf.live index member).resolve_left fun waits =>
          notWaiting (has_iff.mpr ⟨_, found, waits⟩)
      obtain ⟨learned, _⟩ := (sound.entries ip _ found).resolved isResolved
      rw [arpFind, isFind, isMoved] at out
      obtain ⟨cache, learnedSame, sent⟩ := etherIpv4Out_arp out
      have moved := perm_moveFront member
      have afterLookup : ∀ other, after.cache.lookup other = stack.cache.lookup other := by
        intro other
        rw [cache]
        exact sound.wf.lookup_reorder moved other
      have direct : after.sent = stack.sent ∨ after.sent = stack.sent ++
          [⟨ip, (stack.cache.entry index).haddr, buf, some (stack.cache.entry index).haddr⟩] := by
        rw [sent, ← learned]
        split
        next => exact .inl rfl
        next => exact .inr rfl
      refine ⟨⟨?_, ?_, ?_⟩, .of_lookup fun other => .inl (afterLookup other), ?_, ?_⟩
      · rw [cache]
        exact sound.wf.reorder moved
      · intro other entry isEntry
        rw [afterLookup] at isEntry
        rw [learnedSame]
        exact sound.entries other entry isEntry
      · intro frame sentFrame
        rcases direct with same | appended
        · exact sound.sent frame (same ▸ sentFrame)
        · rw [appended] at sentFrame
          rcases List.mem_append.mp sentFrame with old | new
          · exact sound.sent frame old
          · cases List.mem_singleton.mp new
            rfl
      · exact fun _ => ⟨_, learned, direct⟩
      · exact fun notResolved => absurd (has_iff.mpr ⟨_, found, isResolved⟩) notResolved

/-! ### Runs -/

theorem arpEvent_sound {event : ArpEvent} (sound : stack.ArpSound) (guard : stack.ArpGuard event)
    (stepped : stack.arpEvent event = some after) : after.ArpSound ∧ Delivers stack after := by
  cases event with
  | out netif ip buf =>
      obtain ⟨⟨err, _⟩, out, rfl⟩ := Option.map_eq_some_iff.mp stepped
      by_cases own : ip = (stack.netif netif).desc.ipAddr
      · have same := etherOut_own own out
        exact ⟨sound.of_sameArp same, .of_sameArp same⟩
      · obtain ⟨afterSound, delivers, _⟩ :=
          etherOut_other sound own (guard.resolve_left own) out
        exact ⟨afterSound, delivers⟩
  | receive netif buf =>
      obtain ⟨⟨err, _⟩, received, rfl⟩ := Option.map_eq_some_iff.mp stepped
      exact etherIn_sound sound guard received
  | elsewhere change =>
      cases stepped
      have same : SameArp stack { change stack with
          cache := stack.cache, learned := stack.learned, sent := stack.sent } := ⟨rfl, rfl, rfl⟩
      exact ⟨sound.of_sameArp same, .of_sameArp same⟩

/-- Nothing was learned or sent yet. -/
structure Unused (stack : NetStack) : Prop where
  cache : stack.cache = .initArp
  sent : stack.sent = []

theorem Unused.sound (unused : stack.Unused) : stack.ArpSound where
  wf := unused.cache ▸ ArpCache.wf_initArp
  entries := by
    intro ip entry found
    rw [unused.cache] at found
    cases found
  sent := by
    rw [unused.sent]
    exact fun frame member => absurd member List.not_mem_nil

theorem reaches_arpSound {start : NetStack} (unused : start.Unused)
    (reached : Reaches arpEvent ArpGuard start stack) : stack.ArpSound :=
  reached.invariant ArpSound unused.sound fun sound guard stepped =>
    (arpEvent_sound sound guard stepped).1

/-- In a guarded run every frame carries the hardware address that was learned last for
the address it is for, a packet for an address that is not known waits, and the packets
that wait are sent in order, each once, when the address gets known. -/
theorem reaches_arpTransmission {start : NetStack} (unused : start.Unused)
    (reached : Reaches arpEvent ArpGuard start stack) :
    (∀ frame ∈ stack.sent, frame.latest = some frame.dest) ∧
      ∀ event after, stack.ArpGuard event → stack.arpEvent event = some after →
        Delivers stack after ∧ ∀ netif ip buf, event = .out netif ip buf →
          ip ≠ (stack.netif netif).desc.ipAddr → Outputs stack after ip buf := by
  have sound := reaches_arpSound unused reached
  refine ⟨sound.sent, fun event after guard stepped =>
    ⟨(arpEvent_sound sound guard stepped).2, ?_⟩⟩
  rintro netif ip buf rfl other
  obtain ⟨⟨err, _⟩, out, rfl⟩ := Option.map_eq_some_iff.mp stepped
  exact (etherOut_other sound other (guard.resolve_left other) out).2.2

/-- Two packets for 10.0.0.1 are sent before it answers: the second one leaves with the
address that the null pointer had. -/
theorem reaches_sends_unresolved :
    ∃ stack, Reaches arpEvent (fun _ _ => True) sampleStack stack ∧
      ∃ frame ∈ stack.sent, frame.ip ≠ sampleInterface.desc.ipAddr ∧
        frame.latest ≠ some frame.dest := by
  have start : Reaches arpEvent (fun _ _ => True) sampleStack sampleStack := .refl
  have first := start.by_action (.elsewhere fun stack => (stack.pktbufAlloc 60).2) trivial rfl
  have second := first.by_action (.elsewhere fun stack => (stack.pktbufAlloc 60).2) trivial rfl
  have third := second.by_action (.out 0 0x0100000a 0) trivial rfl
  have fourth := third.by_action (.out 0 0x0100000a 1) trivial rfl
  exact ⟨_, fourth, _, List.mem_singleton_self _, by decide, by decide⟩

def sampleReply (stack : NetStack) : NetStack :=
  let stack := (stack.pktbufAlloc 42).2
  match setPktHdr (stack.packet 2) ([2, 0, 0, 0, 0, 2] ++ [2, 0, 0, 0, 0, 1] ++ [8, 6] ++
      [0, 1, 8, 0, 6, 4, 0, 2] ++ [2, 0, 0, 0, 0, 1] ++ [10, 0, 0, 1] ++ [2, 0, 0, 0, 0, 2] ++
      [10, 0, 0, 2]) with
  | some content => stack.setPacket 2 content
  | none => stack

/-- A packet waits until 10.0.0.1 answers. -/
theorem reaches_arpTransmission_reply :
    ∃ stack, Reaches arpEvent ArpGuard sampleStack stack ∧
      stack.sent.map SentFrame.dest = [[2, 0, 0, 0, 0, 1]] ∧
      ∀ frame ∈ stack.sent, frame.latest = some frame.dest := by
  have start : Reaches arpEvent ArpGuard sampleStack sampleStack := .refl
  have first := start.by_action (.elsewhere fun stack => (stack.pktbufAlloc 60).2) trivial rfl
  have second := first.by_action (.out 0 0x0100000a 0) (Or.inr (by decide)) rfl
  have third := second.by_action (.elsewhere sampleReply) trivial rfl
  have fourth := third.by_action (.receive 0 2) (by
    intro checked ip hwAddr learns
    have learned := Option.some.inj ((rfl : etherLearns _ 0 2 = some _).symm.trans learns)
    obtain ⟨isChecked, addresses⟩ := Prod.mk.inj learned
    obtain ⟨isIp, isHwAddr⟩ := Prod.mk.inj addresses
    rw [← isChecked, ← isIp, ← isHwAddr]
    intro waiting member
    have isFirst : waiting = 0 := List.mem_singleton.mp member
    rw [isFirst]
    exact ⟨by decide, Nat.zero_lt_succ _⟩) rfl
  exact ⟨_, fourth, rfl, (reaches_arpTransmission ⟨rfl, rfl⟩ fourth).1⟩

end NetStack

end CleanOS.Net
