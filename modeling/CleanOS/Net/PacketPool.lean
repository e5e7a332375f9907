import CleanOS.Net.Checksum
import Mathlib.Data.List.Perm.Lattice

/-!
# The packet pool

The packets and blocks of `pktbuf.c` over any sequence of calls: no block and no packet
header is lost or held twice, total sizes add up and windows stay inside their payloads.
-/

namespace CleanOS.Net

open scoped List

/-- The pools `block_list` and `pktbuf_list` with the array of packets. -/
structure Pool where
  blockList : List Pktblk
  pktbufList : List Nat
  packets : Nat → Pktbuf

namespace Pool

def update (pool : Pool) (free : List Pktblk) (id : Nat) (buf : Pktbuf) : Pool :=
  { pool with blockList := free, packets := Function.update pool.packets id buf }

def setPacket (pool : Pool) (id : Nat) (buf : Pktbuf) : Pool :=
  pool.update pool.blockList id buf

/-- `pktbuf_init`, over whatever the arrays hold. -/
def pktbufInit (blocks : Nat → Pktblk) (packets : Nat → Pktbuf) : Pool where
  blockList := (List.range pktbufBlkCnt).map fun id => { blocks id with id := id }
  pktbufList := List.range pktbufBufCnt
  packets := packets

/-- `pktbuf_alloc`: the packet, unless it is null, and the pool. -/
def pktbufAlloc (pool : Pool) (size : Int) : Option Nat × Pool :=
  match pool.pktbufList with
  | [] => (none, pool)
  | id :: rest =>
      let buf := { pool.packets id with ref := 1, totalSize := 0, blkList := [] }
      if size = 0 then
        let pool := pool.setPacket id (pktbufResetAcc buf)
        (some id, { pool with pktbufList := rest })
      else
        match pktblockAllocList size false pool.blockList with
        | ([], free) =>
            let pool := pool.update free id buf
            (none, { pool with pktbufList := rest ++ [id] })
        | (chain, free) =>
            let buf := pktbufResetAcc (pktbufInsertBlkList buf chain true)
            let pool := pool.update free id buf
            (some id, { pool with pktbufList := rest })

/-- `pktbuf_free`. -/
def pktbufFree (pool : Pool) (id : Nat) : Pool :=
  let buf := pool.packets id
  let buf := { buf with ref := buf.ref - 1 }
  if buf.ref = 0 then
    let pool := pool.update (pool.blockList ++ buf.blkList) id buf
    { pool with pktbufList := pool.pktbufList ++ [id] }
  else pool.setPacket id buf

def onPacket (pool : Pool) (id : Nat)
    (operation : Pktbuf → List Pktblk → Option (NetErr × Pktbuf × List Pktblk)) :
    Option (NetErr × Pool) := do
  let (err, buf, free) ← operation (pool.packets id) pool.blockList
  some (err, pool.update free id buf)

/-- `pktbuf_join` of two packets. -/
def join (pool : Pool) (dest src : Nat) : Pool :=
  let (destBuf, srcBuf) := pktbufJoin (pool.packets dest) (pool.packets src)
  ((pool.setPacket dest destBuf).setPacket src srcBuf).pktbufFree src

end Pool

/-- The calls into `pktbuf.c`. -/
inductive PktbufCall where
  | alloc (size : Int)
  | free (buf : Nat)
  | addHeader (buf : Nat) (size : Int) (cont : Bool)
  | removeHeader (buf : Nat) (size : Int)
  | resize (buf : Nat) (toSize : Int)
  | join (dest src : Nat)
  | setCont (buf : Nat) (size : Int)
  | resetAcc (buf : Nat)
  | write (buf : Nat) (src : Option (Nat → UInt8)) (size : Int)
  | read (buf : Nat) (hasDest : Bool) (size : Int)
  | seek (buf : Nat) (offset : Int)
  | copy (dest src : Nat) (size : Int)
  | fill (buf : Nat) (value : UInt8) (size : Int)
  | checksum16 (buf : Nat) (size : Int) (preSum : Nat) (complement : Bool)

/-- The pool together with the packets its callers hold. -/
structure Tracked where
  pool : Pool
  live : List Nat

namespace Tracked

def step (state : Tracked) : PktbufCall → Option Tracked
  | .alloc size =>
      match state.pool.pktbufAlloc size with
      | (some id, pool) => some ⟨pool, id :: state.live⟩
      | (none, pool) => some ⟨pool, state.live⟩
  | .free buf => some ⟨state.pool.pktbufFree buf, state.live.erase buf⟩
  | .addHeader buf size cont => do
      let (_, pool) ← state.pool.onPacket buf fun packet free =>
        pktbufAddHeader packet size cont free
      some ⟨pool, state.live⟩
  | .removeHeader buf size => do
      let (_, pool) ← state.pool.onPacket buf fun packet free =>
        pktbufRemoveHeader packet size free
      some ⟨pool, state.live⟩
  | .resize buf toSize => do
      let (_, pool) ← state.pool.onPacket buf fun packet free =>
        pktbufResize packet toSize free
      some ⟨pool, state.live⟩
  | .join dest src => some ⟨state.pool.join dest src, state.live.erase src⟩
  | .setCont buf size => do
      let (_, pool) ← state.pool.onPacket buf fun packet free =>
        pktbufSetCont packet size free
      some ⟨pool, state.live⟩
  | .resetAcc buf =>
      some ⟨state.pool.setPacket buf (pktbufResetAcc (state.pool.packets buf)), state.live⟩
  | .write buf src size => do
      let (_, packet) ← pktbufWrite (state.pool.packets buf) src size
      some ⟨state.pool.setPacket buf packet, state.live⟩
  | .read buf hasDest size => do
      let (_, packet, _) ← pktbufRead (state.pool.packets buf) hasDest size
      some ⟨state.pool.setPacket buf packet, state.live⟩
  | .seek buf offset => do
      let (_, packet) ← pktbufSeek (state.pool.packets buf) offset
      some ⟨state.pool.setPacket buf packet, state.live⟩
  | .copy dest src size =>
      if dest = src then do
        let (_, packet) ← pktbufCopySelf (state.pool.packets dest) size
        some ⟨state.pool.setPacket dest packet, state.live⟩
      else do
        let (_, destPacket, srcPacket) ←
          pktbufCopy (state.pool.packets dest) (state.pool.packets src) size
        some ⟨(state.pool.setPacket dest destPacket).setPacket src srcPacket, state.live⟩
  | .fill buf value size => do
      let (_, packet) ← pktbufFill (state.pool.packets buf) value size
      some ⟨state.pool.setPacket buf packet, state.live⟩
  | .checksum16 buf size preSum complement => do
      let (_, packet) ← pktbufChecksum16 (state.pool.packets buf) size preSum complement
      some ⟨state.pool.setPacket buf packet, state.live⟩

def Permitted (state : Tracked) : PktbufCall → Prop
  | .alloc size => 0 ≤ size
  | .free buf => buf ∈ state.live
  | .addHeader buf size _ =>
      buf ∈ state.live ∧ 0 < size ∧ (state.pool.packets buf).blkList ≠ []
  | .removeHeader buf size =>
      buf ∈ state.live ∧ 0 ≤ size ∧ size ≤ (state.pool.packets buf).totalSize
  | .resize buf toSize => buf ∈ state.live ∧ 0 ≤ toSize
  | .join dest src => dest ∈ state.live ∧ src ∈ state.live ∧ dest ≠ src
  | .setCont buf _ => buf ∈ state.live ∧ (state.pool.packets buf).blkList ≠ []
  | .resetAcc buf => buf ∈ state.live
  | .write buf _ _ => buf ∈ state.live
  | .read buf _ _ => buf ∈ state.live
  | .seek buf _ => buf ∈ state.live
  | .copy dest src _ => dest ∈ state.live ∧ src ∈ state.live
  | .fill buf _ _ => buf ∈ state.live
  | .checksum16 buf _ _ _ => buf ∈ state.live

def CursorReady (state : Tracked) : PktbufCall → Prop
  | .write buf _ _ => Current (state.pool.packets buf)
  | .read buf _ _ => Current (state.pool.packets buf)
  | .seek buf _ => Current (state.pool.packets buf)
  | .copy dest src size => Current (state.pool.packets dest) ∧
      Current (state.pool.packets src) ∧ dest ≠ src ∧ 0 ≤ size
  | .fill buf _ _ => Current (state.pool.packets buf)
  | .checksum16 buf _ _ _ => Current (state.pool.packets buf) ∧
      ∀ blk ∈ (state.pool.packets buf).blkList, 0 < blk.size
  | _ => True

def held (pool : Pool) (ids : List Nat) : List Nat :=
  ids.flatMap fun id => blkIds (pool.packets id).blkList

/-- The pool invariant: every block is in the free list or in the block list of one
packet held, every packet header is free or held, and the packets held are well
formed. -/
structure Sound (state : Tracked) : Prop where
  blocks : (blkIds state.pool.blockList ++ held state.pool state.live).Perm
    (List.range pktbufBlkCnt)
  headers : (state.pool.pktbufList ++ state.live).Perm (List.range pktbufBufCnt)
  wellFormed : ∀ id ∈ state.live, (state.pool.packets id).WellFormed
  refs : ∀ id ∈ state.live, (state.pool.packets id).ref = 1

section Invariant

variable {state after : Tracked} {pool : Pool} {id : Nat} {buf : Pktbuf}

theorem held_cons {ids : List Nat} :
    held pool (id :: ids) = blkIds (pool.packets id).blkList ++ held pool ids :=
  rfl

theorem held_perm {ids others : List Nat} (same : ids.Perm others) :
    (held pool ids).Perm (held pool others) :=
  same.flatMap_right _

theorem held_update {ids : List Nat} {free : List Pktblk} (fresh : id ∉ ids) :
    held (pool.update free id buf) ids = held pool ids := by
  unfold held
  apply List.flatMap_congr
  intro other member
  have different : other ≠ id := fun same => fresh (same ▸ member)
  simp [Pool.update, different]

namespace Sound

theorem live_nodup (sound : state.Sound) : state.live.Nodup := by
  have nodup := sound.headers.nodup_iff.mpr List.nodup_range
  exact (List.nodup_append.mp nodup).2.1

theorem free_disjoint (sound : state.Sound) (free : id ∈ state.pool.pktbufList) :
    id ∉ state.live := by
  have nodup := sound.headers.nodup_iff.mpr List.nodup_range
  exact fun member => List.disjoint_of_nodup_append nodup free member

theorem isolate (member : id ∈ state.live) :
    state.live.Perm (id :: state.live.erase id) :=
  List.perm_cons_erase member

theorem fresh_erase (sound : state.Sound) : id ∉ state.live.erase id :=
  fun member => (sound.live_nodup.mem_erase_iff.mp member).1 rfl

theorem reshape {left : List Pktblk} (sound : state.Sound) (member : id ∈ state.live)
    (reshaped : Reshaped (state.pool.packets id) state.pool.blockList buf left) :
    Sound ⟨state.pool.update left id buf, state.live⟩ := by
  have fresh := @fresh_erase state id sound
  refine ⟨?_, sound.headers, ?_, ?_⟩
  · have others : held (state.pool.update left id buf) (state.live.erase id) =
        held state.pool (state.live.erase id) := held_update fresh
    calc blkIds left ++ held (state.pool.update left id buf) state.live
      _ ~ blkIds left ++
          (blkIds buf.blkList ++ held state.pool (state.live.erase id)) := by
        apply List.Perm.append_left
        refine (held_perm (isolate member)).trans ?_
        rw [held_cons, others]
        simp [Pool.update]
      _ = (blkIds left ++ blkIds buf.blkList) ++ held state.pool (state.live.erase id) := by
        simp
      _ ~ (blkIds state.pool.blockList ++ blkIds (state.pool.packets id).blkList) ++
          held state.pool (state.live.erase id) := reshaped.ids.append_right _
      _ = blkIds state.pool.blockList ++ held state.pool (id :: state.live.erase id) := by
        rw [held_cons, List.append_assoc]
      _ ~ blkIds state.pool.blockList ++ held state.pool state.live :=
        (held_perm (isolate member).symm).append_left _
      _ ~ List.range pktbufBlkCnt := sound.blocks
  · intro other otherMember
    by_cases same : other = id
    · subst same
      simpa [Pool.update] using reshaped.wellFormed
    · simpa [Pool.update, same] using sound.wellFormed other otherMember
  · intro other otherMember
    by_cases same : other = id
    · subst same
      simpa [Pool.update] using reshaped.ref.trans (sound.refs other otherMember)
    · simpa [Pool.update, same] using sound.refs other otherMember

theorem relayout (sound : state.Sound) (member : id ∈ state.live)
    (same : SameLayout (state.pool.packets id) buf) :
    Sound ⟨state.pool.setPacket id buf, state.live⟩ :=
  sound.reshape member (same.reshaped (sound.wellFormed id member))

theorem release
    (blocks : (blkIds state.pool.blockList ++ held state.pool state.live).Perm
      (List.range pktbufBlkCnt))
    (headers : (state.pool.pktbufList ++ state.live).Perm (List.range pktbufBufCnt))
    (member : id ∈ state.live) (ref : (state.pool.packets id).ref = 1)
    (others : ∀ other ∈ state.live.erase id,
      (state.pool.packets other).WellFormed ∧ (state.pool.packets other).ref = 1) :
    Sound ⟨state.pool.pktbufFree id, state.live.erase id⟩ := by
  have liveNodup : state.live.Nodup :=
    (List.nodup_append.mp (headers.nodup_iff.mpr List.nodup_range)).2.1
  have fresh : id ∉ state.live.erase id :=
    fun inside => (liveNodup.mem_erase_iff.mp inside).1 rfl
  have freed : state.pool.pktbufFree id =
      { state.pool.update (state.pool.blockList ++ (state.pool.packets id).blkList) id
          { state.pool.packets id with ref := 0 } with
        pktbufList := state.pool.pktbufList ++ [id] } := by
    simp [Pool.pktbufFree, ref, Pool.update]
  rw [freed]
  refine ⟨?_, ?_, ?_, ?_⟩
  · calc blkIds (state.pool.blockList ++ (state.pool.packets id).blkList) ++
          held (state.pool.update (state.pool.blockList ++ (state.pool.packets id).blkList) id
            { state.pool.packets id with ref := 0 }) (state.live.erase id)
      _ = blkIds state.pool.blockList ++ held state.pool (id :: state.live.erase id) := by
        rw [held_update fresh, held_cons, blkIds_append, List.append_assoc]
      _ ~ blkIds state.pool.blockList ++ held state.pool state.live :=
        (held_perm (isolate member).symm).append_left _
      _ ~ List.range pktbufBlkCnt := blocks
  · calc (state.pool.pktbufList ++ [id]) ++ state.live.erase id
      _ = state.pool.pktbufList ++ (id :: state.live.erase id) := by simp
      _ ~ state.pool.pktbufList ++ state.live := (isolate member).symm.append_left _
      _ ~ List.range pktbufBufCnt := headers
  · intro other otherMember
    have different : other ≠ id := fun same => fresh (same ▸ otherMember)
    simpa [Pool.update, different] using (others other otherMember).1
  · intro other otherMember
    have different : other ≠ id := fun same => fresh (same ▸ otherMember)
    simpa [Pool.update, different] using (others other otherMember).2

theorem free (sound : state.Sound) (member : id ∈ state.live) :
    Sound ⟨state.pool.pktbufFree id, state.live.erase id⟩ := by
  refine release sound.blocks sound.headers member (sound.refs id member) ?_
  intro other otherMember
  have otherLive := List.mem_of_mem_erase otherMember
  exact ⟨sound.wellFormed other otherLive, sound.refs other otherLive⟩

theorem join {dest src : Nat} (sound : state.Sound) (destMember : dest ∈ state.live)
    (srcMember : src ∈ state.live) (different : dest ≠ src) :
    Sound ⟨state.pool.join dest src, state.live.erase src⟩ := by
  have destHolds := sound.wellFormed dest destMember
  have srcHolds := sound.wellFormed src srcMember
  obtain ⟨joined, joinedEq⟩ : ∃ joined,
      joined = (state.pool.setPacket dest
        (pktbufJoin (state.pool.packets dest) (state.pool.packets src)).1).setPacket src
        (pktbufJoin (state.pool.packets dest) (state.pool.packets src)).2 := ⟨_, rfl⟩
  have atDest : joined.packets dest =
      (pktbufJoin (state.pool.packets dest) (state.pool.packets src)).1 := by
    simp [joinedEq, Pool.setPacket, Pool.update, different]
  have atSrc : joined.packets src =
      { state.pool.packets src with blkList := [] } := by
    simp [joinedEq, Pool.setPacket, Pool.update, pktbufJoin_eq]
  have elsewhere : ∀ other, other ≠ dest → other ≠ src →
      joined.packets other = state.pool.packets other := by
    intro other notDest notSrc
    simp [joinedEq, Pool.setPacket, Pool.update, notDest, notSrc]
  have destInErase : dest ∈ state.live.erase src :=
    (sound.live_nodup.mem_erase_iff).mpr ⟨different, destMember⟩
  -- The two packets, beside the others.
  obtain ⟨others, othersEq⟩ : ∃ others, others = (state.live.erase src).erase dest := ⟨_, rfl⟩
  have split : state.live.Perm (dest :: src :: others) :=
    ((List.perm_cons_erase srcMember).trans
      ((othersEq ▸ List.perm_cons_erase destInErase).cons src)).trans (List.Perm.swap _ _ _)
  have splitNodup := split.nodup_iff.mp sound.live_nodup
  have destFresh : dest ∉ others := by
    simp only [List.nodup_cons, List.mem_cons, not_or] at splitNodup
    exact splitNodup.1.2
  have srcFresh : src ∉ others := by
    simp only [List.nodup_cons] at splitNodup
    exact splitNodup.2.1
  have othersHeld : held joined others = held state.pool others := by
    rw [joinedEq, Pool.setPacket, held_update srcFresh, Pool.setPacket,
      held_update destFresh]
  have blocks : (blkIds joined.blockList ++ held joined state.live).Perm
      (List.range pktbufBlkCnt) := by
    have sameBlocks : joined.blockList = state.pool.blockList := by rw [joinedEq]; rfl
    refine List.Perm.trans ?_ sound.blocks
    rw [sameBlocks]
    apply List.Perm.append_left
    calc held joined state.live
      _ ~ held joined (dest :: src :: others) := held_perm split
      _ = held state.pool (dest :: src :: others) := by
        simp only [held_cons, atDest, atSrc, othersHeld, pktbufJoin_eq, blkIds_append,
          blkIds_nil, List.nil_append, List.append_assoc]
      _ ~ held state.pool state.live := held_perm split.symm
  have sameHeaders : joined.pktbufList = state.pool.pktbufList := by rw [joinedEq]; rfl
  have released : Sound ⟨joined.pktbufFree src, state.live.erase src⟩ := by
    refine @release ⟨joined, state.live⟩ src blocks ?_ srcMember ?_ ?_
    · simpa only [sameHeaders] using sound.headers
    · simp [atSrc, sound.refs src srcMember]
    · intro other otherMember
      obtain ⟨notSrc, otherLive⟩ := sound.live_nodup.mem_erase_iff.mp otherMember
      by_cases isDest : other = dest
      · subst isDest
        simp only [atDest]
        refine ⟨(pktbufJoin_wellFormed destHolds srcHolds).1, ?_⟩
        rw [pktbufJoin_eq]
        exact sound.refs other otherLive
      · simp only [elsewhere other isDest notSrc]
        exact ⟨sound.wellFormed other otherLive, sound.refs other otherLive⟩
  have joinEq : state.pool.join dest src = joined.pktbufFree src := by
    rw [joinedEq]
    rfl
  rwa [joinEq]

theorem take {rest : List Nat} {left : List Pktblk} (sound : state.Sound)
    (headers : state.pool.pktbufList = id :: rest) (holds : buf.WellFormed)
    (ref : buf.ref = 1)
    (ids : (blkIds buf.blkList ++ blkIds left).Perm (blkIds state.pool.blockList)) :
    Sound ⟨{ state.pool.update left id buf with pktbufList := rest }, id :: state.live⟩ := by
  have fresh : id ∉ state.live := sound.free_disjoint (by simp [headers])
  refine ⟨?_, ?_, ?_, ?_⟩
  · calc blkIds left ++ held (state.pool.update left id buf) (id :: state.live)
      _ = blkIds left ++ (blkIds buf.blkList ++ held state.pool state.live) := by
        rw [held_cons, held_update fresh]
        simp [Pool.update]
      _ = (blkIds left ++ blkIds buf.blkList) ++ held state.pool state.live := by simp
      _ ~ blkIds state.pool.blockList ++ held state.pool state.live :=
        (List.perm_append_comm.trans ids).append_right _
      _ ~ List.range pktbufBlkCnt := sound.blocks
  · refine List.perm_middle.trans ?_
    simpa [headers] using sound.headers
  · intro other otherMember
    by_cases same : other = id
    · subst same
      simpa [Pool.update] using holds
    · have otherLive : other ∈ state.live := by simpa [same] using otherMember
      simpa [Pool.update, same] using sound.wellFormed other otherLive
  · intro other otherMember
    by_cases same : other = id
    · subst same
      simpa [Pool.update] using ref
    · have otherLive : other ∈ state.live := by simpa [same] using otherMember
      simpa [Pool.update, same] using sound.refs other otherLive

theorem resetAcc_layout (buf : Pktbuf) : SameLayout buf (pktbufResetAcc buf) := by
  unfold pktbufResetAcc
  split <;> exact ⟨rfl, rfl, rfl⟩

theorem alloc {size : Int} (sound : state.Sound) (nonneg : 0 ≤ size)
    (stepEq : state.step (.alloc size) = some after) : after.Sound := by
  cases headers : state.pool.pktbufList with
  | nil =>
      simp only [step, Pool.pktbufAlloc, headers, Option.some.injEq] at stepEq
      subst stepEq
      exact sound
  | cons id rest =>
      obtain ⟨empty, emptyEq⟩ : ∃ empty : Pktbuf, empty =
          { state.pool.packets id with ref := 1, totalSize := 0, blkList := [] } := ⟨_, rfl⟩
      have emptyHolds : empty.WellFormed := by
        rw [emptyEq]
        exact ⟨rfl, windows_nil⟩
      have emptyBlks : empty.blkList = [] := by rw [emptyEq]
      have emptyRef : empty.ref = 1 := by rw [emptyEq]
      by_cases zero : size = 0
      · simp only [step, Pool.pktbufAlloc, headers, if_pos zero, ← emptyEq,
          Option.some.injEq] at stepEq
        subst stepEq
        have layout := resetAcc_layout empty
        refine sound.take headers (layout.wellFormed emptyHolds) (layout.ref.trans emptyRef) ?_
        rw [blkIds_of_frames layout.frames, emptyBlks]
        exact List.Perm.refl _
      · rcases @pktblockAllocList_cases size false state.pool.blockList nonneg with
          ⟨chain, left, chainEq, -, allocated⟩ | ⟨left, chainEq, -, ids⟩
        · obtain ⟨first, others, rfl⟩ :=
            List.exists_cons_of_ne_nil (allocated.nonempty zero)
          simp only [step, Pool.pktbufAlloc, headers, if_neg zero, chainEq, ← emptyEq,
            Option.some.injEq] at stepEq
          subst stepEq
          have inserted := Reshaped.insert emptyHolds true allocated
          have layout := resetAcc_layout (pktbufInsertBlkList empty (first :: others) true)
          refine sound.take headers (layout.wellFormed inserted.wellFormed)
            (layout.ref.trans (inserted.ref.trans emptyRef)) ?_
          rw [blkIds_of_frames layout.frames]
          simpa [pktbufInsertBlkList, emptyBlks] using allocated.ids
        · simp only [step, Pool.pktbufAlloc, headers, if_neg zero, chainEq,
            Option.some.injEq] at stepEq
          subst stepEq
          have fresh : id ∉ state.live := sound.free_disjoint (by simp [headers])
          refine ⟨?_, ?_, ?_, ?_⟩
          · calc blkIds left ++ held (state.pool.update left id _) state.live
              _ = blkIds left ++ held state.pool state.live := by rw [held_update fresh]
              _ ~ blkIds state.pool.blockList ++ held state.pool state.live :=
                ids.append_right _
              _ ~ List.range pktbufBlkCnt := sound.blocks
          · calc (rest ++ [id]) ++ state.live
              _ ~ (id :: rest) ++ state.live :=
                (List.perm_append_singleton id rest).append_right _
              _ = state.pool.pktbufList ++ state.live := by rw [headers]
              _ ~ List.range pktbufBufCnt := sound.headers
          · intro other otherMember
            have different : other ≠ id := fun same => fresh (same ▸ otherMember)
            simpa [Pool.update, different] using sound.wellFormed other otherMember
          · intro other otherMember
            have different : other ≠ id := fun same => fresh (same ▸ otherMember)
            simpa [Pool.update, different] using sound.refs other otherMember

theorem onPacket
    (operation : Pktbuf → List Pktblk → Option (NetErr × Pktbuf × List Pktblk))
    (sound : state.Sound) (member : id ∈ state.live)
    (spec : ∃ err after left, operation (state.pool.packets id) state.pool.blockList =
      some (err, after, left) ∧
      Reshaped (state.pool.packets id) state.pool.blockList after left) :
    ∃ err pool, state.pool.onPacket id operation = some (err, pool) ∧
      Sound ⟨pool, state.live⟩ := by
  obtain ⟨err, after, left, operationEq, reshaped⟩ := spec
  exact ⟨err, _, by simp only [Pool.onPacket, operationEq]; rfl, sound.reshape member reshaped⟩

theorem addHeader {size : Int} {cont : Bool} (sound : state.Sound)
    (permitted : state.Permitted (.addHeader id size cont)) :
    ∃ after, state.step (.addHeader id size cont) = some after ∧ after.Sound := by
  obtain ⟨member, positive, nonempty⟩ := permitted
  obtain ⟨err, after, left, callEq, reshaped, -⟩ := @pktbufAddHeader_spec _
    state.pool.blockList size (sound.wellFormed id member) nonempty positive.le cont
  obtain ⟨err, pool, poolEq, poolSound⟩ :=
    onPacket (fun packet free => pktbufAddHeader packet size cont free) sound member
      ⟨err, after, left, callEq, reshaped⟩
  exact ⟨_, by simp only [step, poolEq]; rfl, poolSound⟩

theorem removeHeader {size : Int} (sound : state.Sound)
    (permitted : state.Permitted (.removeHeader id size)) :
    ∃ after, state.step (.removeHeader id size) = some after ∧ after.Sound := by
  obtain ⟨member, lower, upper⟩ := permitted
  obtain ⟨after, left, callEq, reshaped, -⟩ := @pktbufRemoveHeader_spec _
    state.pool.blockList size (sound.wellFormed id member) lower upper
  obtain ⟨err, pool, poolEq, poolSound⟩ :=
    onPacket (fun packet free => pktbufRemoveHeader packet size free) sound member
      ⟨_, after, left, callEq, reshaped⟩
  exact ⟨_, by simp only [step, poolEq]; rfl, poolSound⟩

theorem resize {toSize : Int} (sound : state.Sound)
    (permitted : state.Permitted (.resize id toSize)) :
    ∃ after, state.step (.resize id toSize) = some after ∧ after.Sound := by
  obtain ⟨member, lower⟩ := permitted
  have holds := sound.wellFormed id member
  have spec : ∃ err after left,
      pktbufResize (state.pool.packets id) toSize state.pool.blockList =
        some (err, after, left) ∧
      Reshaped (state.pool.packets id) state.pool.blockList after left := by
    by_cases smaller : toSize ≤ (state.pool.packets id).totalSize
    · obtain ⟨after, left, callEq, reshaped, -⟩ :=
        @pktbufResize_cut _ state.pool.blockList toSize holds lower smaller
      exact ⟨_, after, left, callEq, reshaped⟩
    · rcases @pktbufResize_extend _ state.pool.blockList toSize holds (by omega) with
        ⟨after, left, callEq, reshaped, -⟩ | ⟨err, left, callEq, -, reshaped, -⟩
      · exact ⟨_, after, left, callEq, reshaped⟩
      · exact ⟨err, _, left, callEq, reshaped⟩
  obtain ⟨err, pool, poolEq, poolSound⟩ :=
    onPacket (fun packet free => pktbufResize packet toSize free) sound member spec
  exact ⟨_, by simp only [step, poolEq]; rfl, poolSound⟩

theorem setCont {size : Int} (sound : state.Sound)
    (permitted : state.Permitted (.setCont id size)) :
    ∃ after, state.step (.setCont id size) = some after ∧ after.Sound := by
  obtain ⟨member, nonempty⟩ := permitted
  obtain ⟨err, after, left, callEq, reshaped, -⟩ := @pktbufSetCont_spec _
    state.pool.blockList size (sound.wellFormed id member) nonempty
  obtain ⟨err, pool, poolEq, poolSound⟩ :=
    onPacket (fun packet free => pktbufSetCont packet size free) sound member
      ⟨err, after, left, callEq, reshaped⟩
  exact ⟨_, by simp only [step, poolEq]; rfl, poolSound⟩

end Sound

end Invariant

section CursorCalls

variable {buf after : Pktbuf} {err : NetErr} {size : Int}

theorem pktbufWrite_layout {src : Option (Nat → UInt8)}
    (returns : pktbufWrite buf src size = some (err, after)) : SameLayout buf after := by
  unfold pktbufWrite at returns
  split at returns
  · cases returns
    exact .refl _
  · split at returns
    · cases returns
      exact .refl _
    · split at returns
      · cases returns
        exact .refl _
      · obtain ⟨⟨last, state⟩, loopEq, result⟩ := Option.bind_eq_some_iff.mp returns
        cases result
        exact cursorLoop_layout writeAccess_keepsFrame loopEq

theorem pktbufRead_layout {hasDest : Bool} {dest : List UInt8}
    (returns : pktbufRead buf hasDest size = some (err, after, dest)) :
    SameLayout buf after := by
  unfold pktbufRead at returns
  split at returns
  · cases returns
    exact .refl _
  · split at returns
    · cases returns
      exact .refl _
    · obtain ⟨⟨last, state⟩, loopEq, result⟩ := Option.bind_eq_some_iff.mp returns
      cases result
      exact cursorLoop_layout readAccess_keepsFrame loopEq

theorem pktbufSeek_layout {offset : Int}
    (returns : pktbufSeek buf offset = some (err, after)) : SameLayout buf after := by
  unfold pktbufSeek at returns
  split at returns
  · cases returns
    exact .refl _
  · split at returns
    · cases returns
      exact .refl _
    · split at returns
      · split at returns
        · cases returns
        · obtain ⟨⟨last, state⟩, loopEq, result⟩ := Option.bind_eq_some_iff.mp returns
          cases result
          have layout := cursorLoop_layout seekAccess_keepsFrame loopEq
          exact ⟨layout.total, layout.frames, layout.ref⟩
      · obtain ⟨⟨last, state⟩, loopEq, result⟩ := Option.bind_eq_some_iff.mp returns
        cases result
        exact cursorLoop_layout seekAccess_keepsFrame loopEq

theorem pktbufFill_layout {value : UInt8}
    (returns : pktbufFill buf value size = some (err, after)) : SameLayout buf after := by
  unfold pktbufFill at returns
  split at returns
  · cases returns
    exact .refl _
  · split at returns
    · cases returns
      exact .refl _
    · obtain ⟨⟨last, state⟩, loopEq, result⟩ := Option.bind_eq_some_iff.mp returns
      cases result
      exact cursorLoop_layout fillAccess_keepsFrame loopEq

theorem pktbufChecksum16_layout {preSum result : Nat} {complement : Bool}
    (returns : pktbufChecksum16 buf size preSum complement = some (result, after)) :
    SameLayout buf after := by
  unfold pktbufChecksum16 at returns
  split at returns
  · cases returns
    exact .refl _
  · obtain ⟨⟨last, state⟩, loopEq, resultEq⟩ := Option.bind_eq_some_iff.mp returns
    cases resultEq
    exact cursorLoop_layout checksumAccess_keepsFrame loopEq

theorem pktbufCopySelf_layout
    (returns : pktbufCopySelf buf size = some (err, after)) : SameLayout buf after := by
  unfold pktbufCopySelf at returns
  split at returns
  · cases returns
    exact .refl _
  · obtain ⟨last, loopEq, result⟩ := Option.bind_eq_some_iff.mp returns
    cases result
    exact copySelfLoop_layout loopEq

theorem pktbufCopy_layout {dest src dest' src' : Pktbuf}
    (returns : pktbufCopy dest src size = some (err, dest', src')) :
    SameLayout dest dest' ∧ SameLayout src src' := by
  unfold pktbufCopy at returns
  split at returns
  · cases returns
    exact ⟨.refl _, .refl _⟩
  · obtain ⟨⟨destLast, srcLast⟩, loopEq, result⟩ := Option.bind_eq_some_iff.mp returns
    cases result
    exact copyLoop_layout loopEq

end CursorCalls

variable {state after : Tracked} {call : PktbufCall}

theorem step_sound (sound : state.Sound) (permitted : state.Permitted call)
    (stepEq : state.step call = some after) : after.Sound := by
  cases call with
  | alloc size => exact sound.alloc permitted stepEq
  | free buf =>
      cases stepEq
      exact sound.free permitted
  | addHeader buf size cont =>
      obtain ⟨result, resultEq, resultSound⟩ := sound.addHeader permitted
      exact Option.some.inj (resultEq.symm.trans stepEq) ▸ resultSound
  | removeHeader buf size =>
      obtain ⟨result, resultEq, resultSound⟩ := sound.removeHeader permitted
      exact Option.some.inj (resultEq.symm.trans stepEq) ▸ resultSound
  | resize buf toSize =>
      obtain ⟨result, resultEq, resultSound⟩ := sound.resize permitted
      exact Option.some.inj (resultEq.symm.trans stepEq) ▸ resultSound
  | join dest src =>
      cases stepEq
      exact sound.join permitted.1 permitted.2.1 permitted.2.2
  | setCont buf size =>
      obtain ⟨result, resultEq, resultSound⟩ := sound.setCont permitted
      exact Option.some.inj (resultEq.symm.trans stepEq) ▸ resultSound
  | resetAcc buf =>
      cases stepEq
      exact sound.relayout permitted (Sound.resetAcc_layout _)
  | write buf src size =>
      obtain ⟨⟨err, packet⟩, callEq, result⟩ := Option.bind_eq_some_iff.mp stepEq
      cases result
      exact sound.relayout permitted (pktbufWrite_layout callEq)
  | read buf hasDest size =>
      obtain ⟨⟨err, packet, dest⟩, callEq, result⟩ := Option.bind_eq_some_iff.mp stepEq
      cases result
      exact sound.relayout permitted (pktbufRead_layout callEq)
  | seek buf offset =>
      obtain ⟨⟨err, packet⟩, callEq, result⟩ := Option.bind_eq_some_iff.mp stepEq
      cases result
      exact sound.relayout permitted (pktbufSeek_layout callEq)
  | copy dest src size =>
      by_cases same : dest = src
      · simp only [step, if_pos same] at stepEq
        obtain ⟨⟨err, packet⟩, callEq, result⟩ := Option.bind_eq_some_iff.mp stepEq
        cases result
        exact sound.relayout permitted.1 (pktbufCopySelf_layout callEq)
      · simp only [step, if_neg same] at stepEq
        obtain ⟨⟨err, destPacket, srcPacket⟩, callEq, result⟩ :=
          Option.bind_eq_some_iff.mp stepEq
        cases result
        obtain ⟨destLayout, srcLayout⟩ := pktbufCopy_layout callEq
        have destSound := sound.relayout permitted.1 destLayout
        refine destSound.relayout permitted.2 ?_
        have atSrc : (state.pool.setPacket dest destPacket).packets src =
            state.pool.packets src := by
          simp [Pool.setPacket, Pool.update, Ne.symm same]
        rw [atSrc]
        exact srcLayout
  | fill buf value size =>
      obtain ⟨⟨err, packet⟩, callEq, result⟩ := Option.bind_eq_some_iff.mp stepEq
      cases result
      exact sound.relayout permitted (pktbufFill_layout callEq)
  | checksum16 buf size preSum complement =>
      obtain ⟨⟨sum, packet⟩, callEq, result⟩ := Option.bind_eq_some_iff.mp stepEq
      cases result
      exact sound.relayout permitted (pktbufChecksum16_layout callEq)

theorem step_returns (sound : state.Sound) (permitted : state.Permitted call)
    (ready : state.CursorReady call) : ∃ after, state.step call = some after := by
  cases call with
  | alloc size =>
      cases result : state.pool.pktbufAlloc size with
      | mk packet pool => cases packet <;> exact ⟨_, by simp only [step, result]; rfl⟩
  | free buf => exact ⟨_, rfl⟩
  | addHeader buf size cont =>
      obtain ⟨result, resultEq, -⟩ := sound.addHeader permitted
      exact ⟨result, resultEq⟩
  | removeHeader buf size =>
      obtain ⟨result, resultEq, -⟩ := sound.removeHeader permitted
      exact ⟨result, resultEq⟩
  | resize buf toSize =>
      obtain ⟨result, resultEq, -⟩ := sound.resize permitted
      exact ⟨result, resultEq⟩
  | join dest src => exact ⟨_, rfl⟩
  | setCont buf size =>
      obtain ⟨result, resultEq, -⟩ := sound.setCont permitted
      exact ⟨result, resultEq⟩
  | resetAcc buf => exact ⟨_, rfl⟩
  | write buf src size =>
      obtain ⟨err, packet, callEq, -⟩ :=
        @pktbufWrite_returns _ size src (sound.wellFormed buf permitted) ready
      exact ⟨_, by simp only [step, callEq]; rfl⟩
  | read buf hasDest size =>
      obtain ⟨err, packet, dest, callEq, -⟩ :=
        @pktbufRead_returns _ size hasDest (sound.wellFormed buf permitted) ready
      exact ⟨_, by simp only [step, callEq]; rfl⟩
  | seek buf offset =>
      obtain ⟨err, packet, callEq, -⟩ :=
        pktbufSeek_spec (sound.wellFormed buf permitted) ready offset
      exact ⟨_, by simp only [step, callEq]; rfl⟩
  | copy dest src size =>
      obtain ⟨destCurrent, srcCurrent, different, nonneg⟩ := ready
      by_cases short : totalBlkRemain (state.pool.packets dest) < size ∨
          totalBlkRemain (state.pool.packets src) < size
      · exact ⟨_, by simp only [step, if_neg different, pktbufCopy, if_pos short]; rfl⟩
      · obtain ⟨destPacket, srcPacket, callEq, -⟩ :=
          pktbufCopy_spec (sound.wellFormed dest permitted.1)
            (sound.wellFormed src permitted.2) destCurrent srcCurrent nonneg (by omega)
            (by omega)
        exact ⟨_, by simp only [step, if_neg different, callEq]; rfl⟩
  | fill buf value size =>
      obtain ⟨err, packet, callEq, -⟩ :=
        @pktbufFill_returns _ size value (sound.wellFormed buf permitted) ready
      exact ⟨_, by simp only [step, callEq]; rfl⟩
  | checksum16 buf size preSum complement =>
      obtain ⟨sum, packet, callEq, -⟩ := @pktbufChecksum16_returns _ preSum complement size
        (sound.wellFormed buf permitted) ready.1 ready.2
      exact ⟨_, by simp only [step, callEq]; rfl⟩

/-- The states that sequences of permitted calls lead to after `pktbuf_init`. -/
inductive Reachable (blocks : Nat → Pktblk) (packets : Nat → Pktbuf) : Tracked → Prop where
  | init : Reachable blocks packets ⟨Pool.pktbufInit blocks packets, []⟩
  | call {state after : Tracked} {call : PktbufCall}
      (reached : Reachable blocks packets state) (permitted : state.Permitted call)
      (stepEq : state.step call = some after) : Reachable blocks packets after

theorem init_sound (blocks : Nat → Pktblk) (packets : Nat → Pktbuf) :
    Sound ⟨Pool.pktbufInit blocks packets, []⟩ := by
  refine ⟨?_, ?_, by simp, by simp⟩
  · simp [Pool.pktbufInit, held, blkIds, Function.comp_def]
  · simp [Pool.pktbufInit]

theorem Reachable.sound {blocks : Nat → Pktblk} {packets : Nat → Pktbuf}
    (reached : Reachable blocks packets state) : state.Sound := by
  induction reached with
  | init => exact init_sound blocks packets
  | call _ permitted stepEq ih => exact step_sound ih permitted stepEq

def zeroBlk : Pktblk :=
  { id := 0, size := 0, data := 0, payload := fun _ => 0 }

def zeroBuf : Pktbuf :=
  { totalSize := 0, blkList := [], ref := 0, pos := 0, currBlk := none, blkOffset := 0 }

/-- The pool after `pktbuf_init`. -/
def start : Tracked :=
  ⟨Pool.pktbufInit (fun _ => zeroBlk) fun _ => zeroBuf, []⟩

instance (state : Tracked) (call : PktbufCall) : Decidable (state.Permitted call) :=
  match call with
  | .alloc _ | .free _ | .addHeader _ _ _ | .removeHeader _ _ | .resize _ _ | .join _ _
  | .setCont _ _ | .resetAcc _ | .write _ _ _ | .read _ _ _ | .seek _ _ | .copy _ _ _
  | .fill _ _ _ | .checksum16 _ _ _ _ => by unfold Permitted; infer_instance

def run (state : Tracked) : List PktbufCall → Option Tracked
  | [] => some state
  | call :: rest =>
      if state.Permitted call then (state.step call).bind fun after => run after rest
      else none

end Tracked

end CleanOS.Net
