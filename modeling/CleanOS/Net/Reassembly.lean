import CleanOS.Net.Ip

/-!
# Reassembly and datagrams

Which datagram the packets of a fragment entry come from, over any sequence of arriving
fragments.  `frag_find` looks entries up by source address alone, so entries stay with
one datagram when no fragment of another one arrives from the same source meanwhile.
-/

namespace CleanOS.Net

def FromDatagram (ip : IpAddr) (id : Nat) (buf : Pktbuf) : Prop :=
  ∃ hdr, pktHdr buf = some hdr ∧ hdrSrcIp hdr = ip ∧ hdrId hdr = id

def Ipv4Frag.Keyed (frag : Ipv4Frag) : Prop :=
  ∀ buf ∈ frag.bufList, FromDatagram frag.ip frag.id buf

def IpState.Keyed (state : IpState) : Prop :=
  ∀ frag ∈ state.fragList, frag.Keyed

/-- A packet was joined from fragments of one datagram. -/
structure Handed.Unmixed (handed : Handed) : Prop where
  joined : ∃ target rest mem after, handed.parts = target :: rest ∧
    fragJoinLoop target rest mem = some (handed.all, after)
  oneDatagram : ∃ ip id, ∀ part ∈ handed.parts, FromDatagram ip id part

/-- An entry of the source of a fragment is for the datagram of that fragment. -/
def IpState.SameId (state : IpState) (src : IpAddr) (hdr : List UInt8) : Prop :=
  ∀ frag ∈ state.fragList, frag.ip = src → frag.id = hdrId hdr

section Step

variable {state next : IpState} {src : IpAddr} {hdr : List UInt8} {buf : Pktbuf}
variable {frag : Ipv4Frag} {others : List Ipv4Frag} {normalIn : NormalIn}
variable {err : NetErr} {handed : Option Handed}

theorem fragFind_mem {list : List Ipv4Frag} (found : fragFind src list = some (frag, others)) :
    frag.ip = src ∧ frag ∈ list ∧ ∀ other ∈ others, other ∈ list := by
  induction list generalizing others with
  | nil => cases found
  | cons first rest ih =>
      by_cases here : src = first.ip
      · simp only [fragFind, if_pos here, Option.some.injEq, Prod.mk.injEq] at found
        obtain ⟨rfl, rfl⟩ := found
        exact ⟨here.symm, List.mem_cons_self, fun other member =>
          List.mem_cons_of_mem _ member⟩
      · simp only [fragFind, if_neg here, Option.map_eq_some_iff, Prod.exists,
          Prod.mk.injEq] at found
        obtain ⟨_, behind, foundRest, rfl, rfl⟩ := found
        obtain ⟨sameIp, member, subset⟩ := ih foundRest
        refine ⟨sameIp, List.mem_cons_of_mem _ member, ?_⟩
        intro other otherMember
        rcases List.mem_cons.mp otherMember with rfl | later
        · exact List.mem_cons_self
        · exact List.mem_cons_of_mem _ (subset other later)

theorem fragInsertLoop_mem {list inserted : List Pktbuf}
    (inserts : fragInsertLoop hdr buf list = some (err, inserted)) {member : Pktbuf}
    (isMember : member ∈ inserted) : member = buf ∨ member ∈ list := by
  induction list generalizing inserted with
  | nil =>
      cases inserts
      exact .inl (List.mem_singleton.mp isMember)
  | cons cur rest ih =>
      obtain ⟨curHdr, -, inserts⟩ := Option.bind_eq_some_iff.mp inserts
      split at inserts
      · cases inserts
        exact .inr isMember
      · split at inserts
        · cases inserts
          exact List.mem_cons.mp isMember
        · obtain ⟨⟨restErr, restInserted⟩, restEq, result⟩ :=
            Option.bind_eq_some_iff.mp inserts
          cases result
          rcases List.mem_cons.mp isMember with rfl | later
          · exact .inr List.mem_cons_self
          · rcases ih restEq later with isBuf | inRest
            · exact .inl isBuf
            · exact .inr (List.mem_cons_of_mem _ inRest)

theorem fragComplete_keyed (fragKeyed : frag.Keyed) (othersKeyed : ∀ other ∈ others, other.Keyed)
    (completes : fragComplete normalIn state frag others = some (err, next, handed)) :
    next.Keyed ∧ ∀ result, handed = some result → result.Unmixed := by
  have allKeyed : ∀ other ∈ frag :: others, other.Keyed := by
    intro other member
    rcases List.mem_cons.mp member with rfl | later
    · exact fragKeyed
    · exact othersKeyed other later
  obtain ⟨arrived, -, completes⟩ := Option.bind_eq_some_iff.mp completes
  split at completes
  · split at completes
    · cases completes
      exact ⟨allKeyed, by simp⟩
    · rename_i target rest bufs
      obtain ⟨⟨all, mem⟩, joinEq, completes⟩ := Option.bind_eq_some_iff.mp completes
      have unmixed : Handed.Unmixed ⟨frag.bufList, all⟩ :=
        ⟨⟨target, rest, _, _, bufs, joinEq⟩, frag.ip, frag.id, fragKeyed⟩
      simp only at completes
      split at completes
      · cases completes
        exact ⟨othersKeyed, by rintro _ ⟨rfl⟩; exact unmixed⟩
      · cases completes
        exact ⟨othersKeyed, by rintro _ ⟨rfl⟩; exact unmixed⟩
  · cases completes
    exact ⟨allKeyed, by simp⟩

theorem fragInsert_keyed (fragKeyed : frag.Keyed) (othersKeyed : ∀ other ∈ others, other.Keyed)
    (own : FromDatagram frag.ip frag.id buf)
    (inserts : fragInsert normalIn state frag others hdr buf = some (err, next, handed)) :
    next.Keyed ∧ ∀ result, handed = some result → result.Unmixed := by
  unfold fragInsert at inserts
  split at inserts
  · cases inserts
    exact ⟨othersKeyed, by simp⟩
  · obtain ⟨⟨insertErr, bufList⟩, loopEq, inserts⟩ := Option.bind_eq_some_iff.mp inserts
    have insertedKeyed : Ipv4Frag.Keyed { frag with bufList := bufList } := by
      intro member isMember
      rcases fragInsertLoop_mem loopEq isMember with rfl | old
      · exact own
      · exact fragKeyed member old
    simp only at inserts
    split at inserts
    · cases inserts
      refine ⟨?_, by simp⟩
      intro other member
      rcases List.mem_cons.mp member with rfl | later
      · exact insertedKeyed
      · exact othersKeyed other later
    · exact fragComplete_keyed insertedKeyed othersKeyed inserts

theorem fragAlloc_keyed (keyed : state.Keyed) (allocates : fragAlloc state = some next) :
    next.Keyed := by
  unfold fragAlloc at allocates
  split at allocates
  · split at allocates
    · cases allocates
    · cases allocates
      exact fun frag member => keyed frag (List.dropLast_subset _ member)
  · cases allocates
    exact keyed

theorem ipv4FragIn_keyed (keyed : state.Keyed) (hdrEq : pktHdr buf = some hdr)
    (addressed : hdrSrcIp hdr = src) (sameId : state.SameId src hdr)
    (arrives : ipv4FragIn normalIn state src buf = some (err, next, handed)) :
    next.Keyed ∧ ∀ result, handed = some result → result.Unmixed := by
  simp only [ipv4FragIn, hdrEq, Option.bind_eq_bind, Option.bind_some] at arrives
  split at arrives
  · rename_i frag others found
    obtain ⟨sameIp, member, subset⟩ := fragFind_mem found
    refine fragInsert_keyed (keyed frag member)
      (fun other otherMember => keyed other (subset other otherMember)) ?_ arrives
    exact ⟨hdr, hdrEq, addressed.trans sameIp.symm, (sameId frag member sameIp).symm⟩
  · obtain ⟨allocated, allocEq, arrives⟩ := Option.bind_eq_some_iff.mp arrives
    have allocatedKeyed := fragAlloc_keyed keyed allocEq
    refine fragInsert_keyed ?_ allocatedKeyed ?_ arrives
    · intro member isMember
      cases isMember
    · exact ⟨hdr, hdrEq, addressed, rfl⟩

end Step

/-- Fragments arrive one after the other; the packets handed to `ipv4_normal_in` are
collected.  An entry of the source of an arriving fragment is for its datagram. -/
inductive FragRun (normalIn : NormalIn) : IpState → List Handed → IpState → Prop where
  | done {state : IpState} : FragRun normalIn state [] state
  | arrive {state next last : IpState} {hdr : List UInt8} {err : NetErr}
      {handed : Option Handed} {events : List Handed} (buf : Pktbuf)
      (hdrEq : pktHdr buf = some hdr)
      (sameId : state.SameId (hdrSrcIp hdr) hdr)
      (arrives : ipv4FragIn normalIn state (hdrSrcIp hdr) buf = some (err, next, handed))
      (rest : FragRun normalIn next events last) :
      FragRun normalIn state (handed.toList ++ events) last

theorem FragRun.keyed {normalIn : NormalIn} {state last : IpState} {events : List Handed}
    (run : FragRun normalIn state events last) (keyed : state.Keyed) :
    last.Keyed ∧ ∀ handed ∈ events, handed.Unmixed := by
  induction run with
  | done => exact ⟨keyed, by simp⟩
  | arrive _ hdrEq sameId arrives rest ih =>
      obtain ⟨nextKeyed, handedUnmixed⟩ := ipv4FragIn_keyed keyed hdrEq rfl sameId arrives
      obtain ⟨lastKeyed, eventsUnmixed⟩ := ih nextKeyed
      refine ⟨lastKeyed, ?_⟩
      intro result member
      rcases List.mem_append.mp member with now | later
      · exact handedUnmixed result (Option.mem_toList.mp now)
      · exact eventsUnmixed result later

/-- Every packet handed to `ipv4_normal_in` in such a run is assembled from fragments
with one source address and one identification. -/
theorem fragRun_unmixed {normalIn : NormalIn} {mem : PktMem} {last : IpState}
    {events : List Handed} (run : FragRun normalIn (initIp mem) events last) :
    ∀ handed ∈ events, handed.Unmixed :=
  (run.keyed (by intro frag member; cases member)).2

def sampleFragment (block id fragAll : Nat) : Pktbuf :=
  let hdr : List UInt8 := [0x45, 0, 28, 0, id.toUInt8, 0, fragAll.toUInt8,
    (fragAll / 256).toUInt8, 64, 17, 0, 0, 10, 0, 0, 1, 10, 0, 0, 2]
  { totalSize := 28
    blkList := [{ id := block, size := 28, data := 0, payload := fun i => hdr.getD i 7 }]
    ref := 1
    pos := 0
    currBlk := none
    blkOffset := 0 }

def fragRunAll (normalIn : NormalIn) : IpState → List Pktbuf → Option (List Handed)
  | _, [] => some []
  | state, buf :: rest => do
      let hdr ← pktHdr buf
      let (_, next, handed) ← ipv4FragIn normalIn state (hdrSrcIp hdr) buf
      let events ← fragRunAll normalIn next rest
      some (handed.toList ++ events)

def Handed.ids (handed : Handed) : List Nat :=
  handed.parts.filterMap fun part => (pktHdr part).map hdrId

/-- The two fragments of one datagram. -/
theorem fragRun_unmixed_two :
    ∃ events last, FragRun (fun _ mem => (.ok, mem)) (initIp ⟨[], 0⟩) events last ∧
      events.map Handed.ids = [[1, 1]] ∧ ∀ handed ∈ events, handed.Unmixed := by
  have run : ∃ events last, FragRun (fun _ mem => (.ok, mem)) (initIp ⟨[], 0⟩) events last ∧
      events.map Handed.ids = [[1, 1]] := by
    refine ⟨_, _, .arrive (sampleFragment 0 1 8192) rfl ?_ rfl
      (.arrive (sampleFragment 1 1 1) rfl ?_ rfl .done), ?_⟩
    · intro frag member
      cases member
    · intro frag member _
      rw [List.mem_singleton.mp member]
      rfl
    · rfl
  obtain ⟨events, last, runs, ids⟩ := run
  exact ⟨events, last, runs, ids, fragRun_unmixed runs⟩

/-- A fragment of another datagram of the same source completes the first one. -/
theorem fragRunAll_mixes :
    (fragRunAll (fun _ mem => (.ok, mem)) (initIp ⟨[], 0⟩)
      [sampleFragment 0 1 8192, sampleFragment 1 2 1]).map (List.map Handed.ids) =
        some [[1, 2]] := by
  decide

end CleanOS.Net
