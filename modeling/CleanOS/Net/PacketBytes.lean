import CleanOS.Net.PacketPool

/-!
# Packets as sequences of bytes

The operations that take blocks, give blocks back or move bytes between blocks, seen as
operations on byte sequences, and what they leave behind where they fail.
-/

namespace CleanOS.Net

/-- The calls that change the block list of a packet. -/
inductive BlockCall where
  | addHeader (buf : Nat) (size : Int) (cont : Bool)
  | removeHeader (buf : Nat) (size : Int)
  | resize (buf : Nat) (toSize : Int)
  | join (dest src : Nat)
  | setCont (buf : Nat) (size : Int)

namespace Pool

def contents (pool : Pool) (id : Nat) : List UInt8 :=
  (pool.packets id).content

/-- A call with its result code; `pktbuf_join` always returns `NET_ERR_OK`. -/
def blockCall (pool : Pool) : BlockCall → Option (NetErr × Pool)
  | .addHeader buf size cont =>
      pool.onPacket buf fun packet free => pktbufAddHeader packet size cont free
  | .removeHeader buf size =>
      pool.onPacket buf fun packet free => pktbufRemoveHeader packet size free
  | .resize buf toSize => pool.onPacket buf fun packet free => pktbufResize packet toSize free
  | .join dest src => some (.ok, pool.join dest src)
  | .setCont buf size => pool.onPacket buf fun packet free => pktbufSetCont packet size free

end Pool

namespace BlockCall

def named : BlockCall → List Nat
  | .addHeader buf _ _ | .removeHeader buf _ | .resize buf _ | .setCont buf _ => [buf]
  | .join dest src => [dest, src]

def Admissible (pool : Pool) : BlockCall → Prop
  | .addHeader buf size _ => (pool.packets buf).blkList ≠ [] ∧ 0 ≤ size
  | .removeHeader buf size => 0 ≤ size ∧ size ≤ (pool.packets buf).totalSize
  | .resize _ toSize => 0 ≤ toSize
  | .join dest src => dest ≠ src
  | .setCont buf _ => (pool.packets buf).blkList ≠ []

/-- What a call does to the bytes of the packets.  The bytes of a new header and those a
packet grows by are whatever the blocks held. -/
def BytesStep (before after : Nat → List UInt8) : BlockCall → Prop
  | .addHeader buf size _ => ∃ header, header.length = size.toNat ∧
      after = Function.update before buf (header ++ before buf)
  | .removeHeader buf size =>
      after = Function.update before buf ((before buf).drop size.toNat)
  | .resize buf toSize => ∃ tail, ((before buf).take toSize.toNat ++ tail).length = toSize.toNat ∧
      after = Function.update before buf ((before buf).take toSize.toNat ++ tail)
  | .join dest src =>
      after = Function.update (Function.update before dest (before dest ++ before src)) src []
  | .setCont _ _ => after = before

def Placed (after : Pool) : BlockCall → Prop
  | .addHeader buf size true => (after.packets buf).Leads size
  | .setCont buf size => (after.packets buf).Leads size
  | _ => True

def target : BlockCall → Nat
  | .addHeader buf _ _ | .removeHeader buf _ | .resize buf _ | .setCont buf _ => buf
  | .join dest _ => dest

/-- The calls that always return `NET_ERR_OK`. -/
def Infallible : BlockCall → Prop
  | .removeHeader _ _ | .join _ _ => True
  | _ => False

/-- A call has done its work on bytes, with blocks of its packets and of the free list
only. -/
structure Refined (pool after : Pool) (call : BlockCall) : Prop where
  bytes : call.BytesStep pool.contents after.contents
  placed : call.Placed after
  wellFormed : (after.packets call.target).WellFormed
  blocks : (blkIds after.blockList ++ Tracked.held after call.named).Perm
    (blkIds pool.blockList ++ Tracked.held pool call.named)
  others : ∀ id ∉ call.named, after.packets id = pool.packets id

end BlockCall

section Refinement

variable {pool after : Pool} {call : BlockCall} {id : Nat} {buf : Pktbuf}
variable {free left : List Pktblk} {err : NetErr}

theorem contents_update :
    (pool.update free id buf).contents = Function.update pool.contents id buf.content := by
  funext other
  by_cases same : other = id
  · subst same
    simp [Pool.contents, Pool.update]
  · simp [Pool.contents, Pool.update, same]

theorem BlockCall.Refined.onPacket (one : call.named = [id]) (target : call.target = id)
    (reshaped : Reshaped (pool.packets id) pool.blockList buf left)
    (bytes : call.BytesStep pool.contents (Function.update pool.contents id buf.content))
    (placed : call.Placed (pool.update left id buf)) :
    call.Refined pool (pool.update left id buf) := by
  refine ⟨?_, placed, ?_, ?_, ?_⟩
  · rw [contents_update]
    exact bytes
  · rw [target]
    simpa [Pool.update] using reshaped.wellFormed
  · rw [one]
    simpa [Tracked.held, Pool.update] using reshaped.ids
  · intro other notNamed
    rw [one, List.mem_singleton] at notNamed
    simp [Pool.update, notNamed]

theorem onPacket_eq (operation : Pktbuf → List Pktblk → Option (NetErr × Pktbuf × List Pktblk))
    (ran : operation (pool.packets id) pool.blockList = some (err, buf, left)) :
    pool.onPacket id operation = some (err, pool.update left id buf) := by
  simp only [Pool.onPacket, ran, Option.bind_eq_bind, Option.bind_some]

theorem pktbufFree_empty (empty : (pool.packets id).blkList = []) :
    ∃ ref headers, pool.pktbufFree id =
      { pool.setPacket id { pool.packets id with ref } with pktbufList := headers } := by
  by_cases last : (pool.packets id).ref - 1 = 0
  · exact ⟨(pool.packets id).ref - 1, pool.pktbufList ++ [id],
      by simp [Pool.pktbufFree, last, Pool.setPacket, Pool.update, empty]⟩
  · exact ⟨(pool.packets id).ref - 1, pool.pktbufList,
      by simp [Pool.pktbufFree, last, Pool.setPacket, Pool.update]⟩

theorem BlockCall.Refined.join {dest src : Nat} (different : dest ≠ src)
    (destHolds : (pool.packets dest).WellFormed) (srcHolds : (pool.packets src).WellFormed) :
    (BlockCall.join dest src).Refined pool (pool.join dest src) := by
  obtain ⟨joinedHolds, joinedContent⟩ := pktbufJoin_wellFormed destHolds srcHolds
  obtain ⟨moved, movedEq⟩ : ∃ moved, moved = (pool.setPacket dest
      (pktbufJoin (pool.packets dest) (pool.packets src)).1).setPacket src
      (pktbufJoin (pool.packets dest) (pool.packets src)).2 := ⟨_, rfl⟩
  have atSrc : moved.packets src = { pool.packets src with blkList := [] } := by
    simp [movedEq, Pool.setPacket, Pool.update, pktbufJoin_eq]
  have atDest : moved.packets dest =
      (pktbufJoin (pool.packets dest) (pool.packets src)).1 := by
    simp [movedEq, Pool.setPacket, Pool.update, different]
  have elsewhere : ∀ other, other ≠ dest → other ≠ src →
      moved.packets other = pool.packets other := by
    intro other notDest notSrc
    simp [movedEq, Pool.setPacket, Pool.update, notDest, notSrc]
  have sameFree : moved.blockList = pool.blockList := by
    rw [movedEq]
    rfl
  obtain ⟨ref, headers, freed⟩ :=
    @pktbufFree_empty moved src (congrArg Pktbuf.blkList atSrc)
  have joined : pool.join dest src = moved.pktbufFree src := by
    rw [movedEq]
    rfl
  rw [joined, freed]
  refine ⟨?_, trivial, ?_, ?_, ?_⟩
  · funext other
    by_cases isSrc : other = src
    · subst isSrc
      simp [Pool.contents, Pool.setPacket, Pool.update, Pktbuf.content, atSrc]
    · by_cases isDest : other = dest
      · subst isDest
        simpa [Pool.contents, Pool.setPacket, Pool.update, isSrc, atDest] using joinedContent
      · simp [Pool.contents, Pool.setPacket, Pool.update, isSrc, isDest,
          elsewhere other isDest isSrc]
  · simpa [BlockCall.target, Pool.setPacket, Pool.update, different, atDest] using joinedHolds
  · simp [BlockCall.named, Tracked.held, Pool.setPacket, Pool.update, different, atDest, atSrc,
      sameFree, pktbufJoin_eq]
  · intro other notNamed
    simp only [BlockCall.named, List.mem_cons, List.not_mem_nil, or_false, not_or] at notNamed
    simp [Pool.setPacket, Pool.update, notNamed, elsewhere other notNamed.1 notNamed.2]

theorem pktbufSetCont_fits {packet : Pktbuf} {size : Int}
    (ran : pktbufSetCont packet size free = some (.ok, buf, left)) :
    size ≤ packet.totalSize ∧ size ≤ pktbufBlkSize := by
  unfold pktbufSetCont at ran
  split at ran
  · cases ran
  · split at ran
    · cases ran
    · constructor <;> omega

/-- The calls that change block lists refine operations on byte sequences: a call on well
formed packets returns, `pktbuf_remove_header` and `pktbuf_join` without an error, and a
call that returns no error does to the bytes what it is for. -/
theorem blockCall_refines (pool : Pool) (call : BlockCall)
    (holds : ∀ id ∈ call.named, (pool.packets id).WellFormed)
    (admissible : call.Admissible pool) :
    ∃ err after, pool.blockCall call = some (err, after) ∧ (call.Infallible → err = .ok) ∧
      (err = .ok → call.Refined pool after) := by
  cases call with
  | addHeader buf size cont =>
      obtain ⟨nonempty, nonneg⟩ := admissible
      obtain ⟨err, packet, left, ran, reshaped, header, content, ok⟩ := @pktbufAddHeader_spec _
        pool.blockList size (holds buf (by simp [BlockCall.named])) nonempty nonneg cont
      refine ⟨err, _, onPacket_eq (fun packet free => pktbufAddHeader packet size cont free) ran,
        False.elim, fun isOk => ?_⟩
      obtain ⟨length, leads⟩ := ok isOk
      refine BlockCall.Refined.onPacket rfl rfl reshaped ?_ ?_
      · exact ⟨header, length, by rw [content, Pool.contents]⟩
      · cases cont with
        | false => trivial
        | true => simpa [BlockCall.Placed, Pool.update] using leads rfl
  | removeHeader buf size =>
      obtain ⟨packet, left, ran, reshaped, -, content, -⟩ := @pktbufRemoveHeader_spec _
        pool.blockList size (holds buf (by simp [BlockCall.named])) admissible.1 admissible.2
      refine ⟨.ok, _, onPacket_eq (fun packet free => pktbufRemoveHeader packet size free) ran,
        fun _ => rfl, fun _ => ?_⟩
      refine BlockCall.Refined.onPacket rfl rfl reshaped ?_ ?_
      · rw [BlockCall.BytesStep, content, Pool.contents]
      · trivial
  | resize buf toSize =>
      have bufHolds := holds buf (by simp [BlockCall.named])
      have oldLength := bufHolds.length_content
      -- Both when it is cut and when it grows, the packet has the new length.
      have spec : ∃ err packet left,
          pktbufResize (pool.packets buf) toSize pool.blockList = some (err, packet, left) ∧
          Reshaped (pool.packets buf) pool.blockList packet left ∧
          (err = .ok → packet.totalSize = toSize ∧
            ∃ tail, packet.content = (pool.packets buf).content.take toSize.toNat ++ tail) := by
        by_cases smaller : toSize ≤ (pool.packets buf).totalSize
        · obtain ⟨packet, left, ran, reshaped, total, content⟩ :=
            @pktbufResize_cut _ pool.blockList toSize bufHolds admissible smaller
          exact ⟨.ok, packet, left, ran, reshaped, fun _ =>
            ⟨total, [], by rw [content, List.append_nil]⟩⟩
        · have whole : (pool.packets buf).content.take toSize.toNat =
              (pool.packets buf).content := List.take_of_length_le (by omega)
          rcases @pktbufResize_extend _ pool.blockList toSize bufHolds (by omega) with
            ⟨packet, left, ran, reshaped, total, tail, content⟩ |
            ⟨err, left, ran, isError, reshaped, -⟩
          · exact ⟨.ok, packet, left, ran, reshaped, fun _ =>
              ⟨total, tail, by rw [content, whole]⟩⟩
          · refine ⟨err, _, left, ran, reshaped, fun isOk => ?_⟩
            rw [isOk] at isError
            cases isError
      obtain ⟨err, packet, left, ran, reshaped, ok⟩ := spec
      refine ⟨err, _, onPacket_eq (fun packet free => pktbufResize packet toSize free) ran,
        False.elim, fun isOk => ?_⟩
      obtain ⟨total, tail, content⟩ := ok isOk
      refine BlockCall.Refined.onPacket rfl rfl reshaped ?_ ?_
      · refine ⟨tail, ?_, by rw [content, Pool.contents]⟩
        have newLength := reshaped.wellFormed.length_content
        rw [Pool.contents, ← content]
        omega
      · trivial
  | join dest src =>
      exact ⟨.ok, _, rfl, fun _ => rfl, fun _ => .join admissible
        (holds dest (by simp [BlockCall.named])) (holds src (by simp [BlockCall.named]))⟩
  | setCont buf size =>
      have bufHolds := holds buf (by simp [BlockCall.named])
      obtain ⟨err, packet, left, ran, reshaped, -, content, ok⟩ :=
        @pktbufSetCont_spec _ pool.blockList size bufHolds admissible
      refine ⟨err, _, onPacket_eq (fun packet free => pktbufSetCont packet size free) ran,
        False.elim, fun isOk => ?_⟩
      rw [isOk] at ran
      obtain ⟨fits, small⟩ := pktbufSetCont_fits ran
      refine BlockCall.Refined.onPacket rfl rfl reshaped ?_ ?_
      · rw [BlockCall.BytesStep, content]
        exact Function.update_eq_self buf pool.contents
      · simpa [BlockCall.Placed, Pool.update] using (ok fits small).2

def unevenPacket : Pktbuf where
  totalSize := 5
  blkList := [⟨0, 0, 20, fun _ => 0⟩, ⟨1, 5, 0, fun _ => 1⟩]
  ref := 1
  pos := 0
  currBlk := none
  blkOffset := 0

def unevenPool : Pool where
  blockList := [⟨2, 0, 0, fun _ => 2⟩]
  pktbufList := []
  packets := fun _ => unevenPacket

theorem unevenPacket_wellFormed : unevenPacket.WellFormed :=
  ⟨by decide, by simp only [unevenPacket, windows_cons, windows_nil, and_true]; decide⟩

/-- A header that needs the free block. -/
theorem blockCall_refines_uneven :
    ∃ after, unevenPool.blockCall (.addHeader 0 30 true) = some (.ok, after) ∧
      (BlockCall.addHeader 0 30 true).Refined unevenPool after := by
  obtain ⟨err, after, ran, -, refined⟩ := blockCall_refines unevenPool (.addHeader 0 30 true)
    (fun _ _ => unevenPacket_wellFormed) ⟨by simp [unevenPool, unevenPacket], by decide⟩
  have isOk : some err = some .ok := (congrArg (Option.map Prod.fst) ran).symm
  cases isOk
  exact ⟨after, ran, refined rfl⟩

end Refinement

/-- The packets held, the free blocks and the free headers are as they were. -/
structure Pool.Kept (pool after : Pool) : Prop where
  packets : ∀ id ∉ pool.pktbufList, (after.packets id).content = (pool.packets id).content ∧
    (after.packets id).totalSize = (pool.packets id).totalSize
  blocks : (blkIds after.blockList).Perm (blkIds pool.blockList)
  headers : after.pktbufList.Perm pool.pktbufList

def BlockCall.HeadRoomLost (pool : Pool) : BlockCall → Prop
  | .addHeader buf size false => ∃ block rest, (pool.packets buf).blkList = block :: rest ∧
      0 < block.data ∧ block.data < size ∧
      pktbufBlkSize * pool.blockList.length < size - block.data
  | _ => False

section Failure

variable {pool after : Pool} {call : BlockCall} {id : Nat} {buf packet : Pktbuf}
variable {free left : List Pktblk} {err : NetErr} {size : Int} {addFront : Bool}

theorem pktblockAllocList_null (wanted : size ≠ 0)
    (null : pktblockAllocList size addFront free = ([], left)) :
    (blkIds left).Perm (blkIds free) := by
  by_cases nonneg : 0 ≤ size
  · rcases @pktblockAllocList_cases size addFront free nonneg with
      ⟨chain, left', allocEq, -, allocated⟩ | ⟨left', allocEq, -, ids⟩
    · rw [null] at allocEq
      cases allocEq
      exact absurd rfl (allocated.nonempty wanted)
    · rw [null] at allocEq
      cases allocEq
      exact ids
  · have small : ¬ size > pktbufBlkSize := by
      simp only [pktbufBlkSize]
      omega
    -- A negative size is one block, if there is one.
    cases free with
    | nil =>
        simp only [pktblockAllocList, pktblockAllocLoop, if_neg wanted, Prod.mk.injEq] at null
        rw [null.2]
    | cons block rest =>
        simp only [pktblockAllocList, pktblockAllocLoop, if_neg wanted, if_neg small,
          Int.sub_self, List.nil_append] at null
        cases addFront <;> cases rest <;> simp [pktblockAllocLoop] at null

theorem Pool.Kept.onPacket (content : buf.content = (pool.packets id).content)
    (total : buf.totalSize = (pool.packets id).totalSize)
    (ids : (blkIds left).Perm (blkIds pool.blockList)) :
    pool.Kept (pool.update left id buf) := by
  refine ⟨?_, ids, List.Perm.refl _⟩
  intro other _
  by_cases same : other = id
  · subst same
    simpa [Pool.update] using ⟨content, total⟩
  · simp [Pool.update, same]

theorem pktbufAlloc_null (null : pool.pktbufAlloc size = (none, after)) : pool.Kept after := by
  unfold Pool.pktbufAlloc at null
  cases headers : pool.pktbufList with
  | nil =>
      rw [headers] at null
      cases null
      exact ⟨fun _ _ => ⟨rfl, rfl⟩, List.Perm.refl _, List.Perm.refl _⟩
  | cons id rest =>
      rw [headers] at null
      dsimp only at null
      split at null
      · cases null
      next wanted =>
        split at null
        next left allocEq =>
          cases null
          refine ⟨?_, pktblockAllocList_null wanted allocEq, ?_⟩
          · intro other used
            have different : other ≠ id := fun same => used (by simp [headers, same])
            simp [Pool.update, different]
          · rw [headers]
            exact List.perm_append_singleton id rest
        · cases null

theorem pktbufResize_error (failed : pktbufResize packet size free = some (err, buf, left))
    (isError : err.isError = true) : buf = packet ∧ (blkIds left).Perm (blkIds free) := by
  unfold pktbufResize at failed
  split at failed
  · cases failed
    cases isError
  next different =>
    split at failed
    next empty =>
      split at failed
      next left allocEq =>
        cases failed
        exact ⟨rfl, pktblockAllocList_null (by omega) allocEq⟩
      · cases failed
        cases isError
    · split at failed
      · split at failed
        · cases failed
        · dsimp only at failed
          split at failed
          · cases failed
            cases isError
          · split at failed
            next left allocEq =>
              cases failed
              exact ⟨rfl, pktblockAllocList_null (by omega) allocEq⟩
            · cases failed
              cases isError
      · split at failed
        · cases failed
          exact ⟨rfl, List.Perm.refl _⟩
        · cases failed
          cases isError

theorem pktbufSetCont_error (failed : pktbufSetCont packet size free = some (err, buf, left))
    (isError : err.isError = true) : buf = packet ∧ left = free := by
  unfold pktbufSetCont at failed
  split at failed
  · cases failed
    exact ⟨rfl, rfl⟩
  · split at failed
    · cases failed
      exact ⟨rfl, rfl⟩
    · split at failed
      · cases failed
      · split at failed
        · cases failed
          cases isError
        · obtain ⟨moved, -, failed⟩ := Option.bind_eq_some_iff.mp failed
          obtain ⟨⟨first, rest, left⟩, -, failed⟩ := Option.bind_eq_some_iff.mp failed
          cases failed
          cases isError

theorem pktbufAddHeader_error {cont : Bool}
    (failed : pktbufAddHeader packet size cont free = some (err, buf, left))
    (isError : err.isError = true) :
    ∃ block rest, packet.blkList = block :: rest ∧ block.data < size ∧
      (blkIds left).Perm (blkIds free) ∧
      (cont = true ∧ buf = packet ∨
        cont = false ∧ pktblockAllocList (size - block.data) true free = ([], left) ∧
        buf = { packet with
          blkList := { block with data := 0, size := block.size + block.data } :: rest
          totalSize := packet.totalSize + block.data }) := by
  unfold pktbufAddHeader at failed
  split at failed
  · cases failed
  next block rest blks =>
    dsimp only at failed
    split at failed
    · cases failed
      cases isError
    next large =>
      split at failed
      next isCont =>
        split at failed
        · cases failed
          exact ⟨block, rest, blks, by omega, List.Perm.refl _, .inl ⟨isCont, rfl⟩⟩
        · split at failed
          next left allocEq =>
            cases failed
            -- Without head room a header of no size would fit.
            by_cases wanted : size = 0
            · rw [wanted] at allocEq
              have left_eq : left = free := by
                cases free <;> simpa [pktblockAllocList, pktblockAllocLoop] using allocEq.symm
              subst left_eq
              exact ⟨block, rest, blks, by omega, List.Perm.refl _, .inl ⟨isCont, rfl⟩⟩
            · exact ⟨block, rest, blks, by omega, pktblockAllocList_null wanted allocEq,
                .inl ⟨isCont, rfl⟩⟩
          · cases failed
            cases isError
      next notCont =>
        split at failed
        next left allocEq =>
          cases failed
          refine ⟨block, rest, blks, by omega, pktblockAllocList_null (by omega) allocEq,
            .inr ⟨by simpa using notCont, allocEq, rfl⟩⟩
        · cases failed
          cases isError

/-- A call that fails leaves the packets held, the free blocks and the free headers as they
were, unless it has used the head room of its packet for a header it then finds no blocks
for. -/
theorem failure_atomic_iff (pool : Pool) (call : BlockCall)
    (held : ∀ id ∈ call.named, id ∉ pool.pktbufList)
    (holds : ∀ id ∈ call.named, (pool.packets id).WellFormed) :
    (∀ size after, pool.pktbufAlloc size = (none, after) → pool.Kept after) ∧
      ((∀ err after, pool.blockCall call = some (err, after) → err.isError = true →
        pool.Kept after) ↔ ¬ call.HeadRoomLost pool) := by
  refine ⟨fun _ _ => pktbufAlloc_null, ?_⟩
  cases call with
  | addHeader buf size cont =>
      constructor
      · intro atomic lost
        cases cont with
        | true => exact lost
        | false =>
            obtain ⟨block, rest, blks, room, larger, short⟩ := lost
            rcases @pktblockAllocList_cases (size - block.data) true pool.blockList (by omega)
              with ⟨-, -, -, enough, -⟩ | ⟨left, allocEq, -, -⟩
            · omega
            · have tooLarge : ¬ size ≤ block.data := by omega
              have failed : pktbufAddHeader (pool.packets buf) size false pool.blockList =
                  some (.none, { pool.packets buf with
                    blkList := { block with data := 0, size := block.size + block.data } :: rest
                    totalSize := (pool.packets buf).totalSize + block.data }, left) := by
                simp only [pktbufAddHeader, blks, if_neg tooLarge, Bool.false_eq_true, if_false,
                  allocEq]
              have kept := atomic _ _ (onPacket_eq
                (fun packet free => pktbufAddHeader packet size false free) failed) rfl
              have total := (kept.packets buf (held buf (by simp [BlockCall.named]))).2
              simp only [Pool.update, Function.update_self] at total
              omega
      · intro notLost err after ran isError
        obtain ⟨⟨err, packet, left⟩, failed, result⟩ := Option.bind_eq_some_iff.mp ran
        cases result
        obtain ⟨block, rest, blks, larger, ids, same | ⟨rfl, allocEq, same⟩⟩ :=
          pktbufAddHeader_error failed isError
        · exact .onPacket (by rw [same.2]) (by rw [same.2]) ids
        · have inPayload := (holds buf (by simp [BlockCall.named])).windows block (by simp [blks])
          have data := inPayload.data
          rcases @pktblockAllocList_cases (size - block.data) true pool.blockList (by omega)
            with ⟨chain, left', allocEq', -, allocated⟩ | ⟨-, -, short, -⟩
          · rw [allocEq] at allocEq'
            cases allocEq'
            exact absurd rfl (allocated.nonempty (by omega))
          · have noRoom : block.data = 0 := by
              by_contra room
              exact notLost ⟨block, rest, blks, by omega, larger, short⟩
            have unmoved : { block with data := 0, size := block.size + block.data } = block := by
              rw [noRoom, Int.add_zero, ← noRoom]
            rw [unmoved, noRoom, Int.add_zero, ← blks] at same
            exact .onPacket (by rw [same]) (by rw [same]) ids
  | removeHeader buf size =>
      refine iff_of_true ?_ not_false
      intro err after ran isError
      obtain ⟨⟨err, packet, left⟩, failed, result⟩ := Option.bind_eq_some_iff.mp ran
      obtain ⟨kept, -, isOk⟩ := Option.bind_eq_some_iff.mp failed
      cases isOk
      cases result
      cases isError
  | resize buf toSize =>
      refine iff_of_true ?_ not_false
      intro err after ran isError
      obtain ⟨⟨err, packet, left⟩, failed, result⟩ := Option.bind_eq_some_iff.mp ran
      cases result
      obtain ⟨same, ids⟩ := pktbufResize_error failed isError
      exact .onPacket (by rw [same]) (by rw [same]) ids
  | join dest src =>
      refine iff_of_true ?_ not_false
      intro err after ran isError
      cases ran
      cases isError
  | setCont buf size =>
      refine iff_of_true ?_ not_false
      intro err after ran isError
      obtain ⟨⟨err, packet, left⟩, failed, result⟩ := Option.bind_eq_some_iff.mp ran
      cases result
      obtain ⟨same, isFree⟩ := pktbufSetCont_error failed isError
      exact .onPacket (by rw [same]) (by rw [same]) (by rw [isFree])

/-- A header for the packet with one free block. -/
theorem failure_atomic_uneven :
    (∀ err after, unevenPool.blockCall (.addHeader 0 100 true) = some (err, after) →
      err.isError = true → unevenPool.Kept after) ∧
    ∃ err after, unevenPool.blockCall (.addHeader 0 100 true) = some (err, after) ∧
      err.isError = true :=
  ⟨((failure_atomic_iff unevenPool (.addHeader 0 100 true) (fun _ _ => List.not_mem_nil)
      fun _ _ => unevenPacket_wellFormed).2).mpr id, .none, _, rfl, rfl⟩

/-- With all blocks in a packet that has given up ten bytes, a header of twenty is refused
and the packet has its ten bytes back. -/
theorem addHeader_not_atomic :
    ∃ state after, Tracked.start.run [.alloc 6400, .removeHeader 0 10] = some state ∧
      0 ∉ state.pool.pktbufList ∧
      state.pool.blockCall (.addHeader 0 20 false) = some (.none, after) ∧
      ¬ state.pool.Kept after := by
  have ran : (Tracked.start.run [.alloc 6400, .removeHeader 0 10]).any (fun state =>
      decide (0 ∉ state.pool.pktbufList) &&
        (state.pool.blockCall (.addHeader 0 20 false)).any fun result =>
          decide (result.1 = .none ∧
            (result.2.packets 0).totalSize ≠ (state.pool.packets 0).totalSize)) = true := by
    decide +kernel
  obtain ⟨state, stateEq, holds⟩ := (Option.any_eq_true _ _).mp ran
  obtain ⟨held, failed⟩ := (Bool.and_eq_true _ _).mp holds
  obtain ⟨⟨err, after⟩, callEq, result⟩ := (Option.any_eq_true _ _).mp failed
  obtain ⟨isNone, changed⟩ := of_decide_eq_true result
  cases isNone
  have used := of_decide_eq_true held
  exact ⟨state, after, stateEq, used, callEq, fun kept => changed (kept.packets 0 used).2⟩

end Failure

end CleanOS.Net
