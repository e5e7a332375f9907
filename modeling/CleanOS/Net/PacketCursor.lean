import CleanOS.Net.PacketContent
import Mathlib.Data.List.Nodup

/-!
# The cursor of a packet

The operations that read and write through the cursor keep the layout of the packet.
Through a cursor that is current they come to an end and act on the bytes at its
position.
-/

namespace CleanOS.Net

def Pktblk.frame (blk : Pktblk) : Nat × Int × Int :=
  (blk.id, blk.size, blk.data)

def blkFrames (blks : List Pktblk) : List (Nat × Int × Int) :=
  blks.map Pktblk.frame

structure SameLayout (buf after : Pktbuf) : Prop where
  total : after.totalSize = buf.totalSize
  frames : blkFrames after.blkList = blkFrames buf.blkList
  ref : after.ref = buf.ref

section Layout

variable {buf after last : Pktbuf} {blk : Pktblk} {blks others : List Pktblk}

theorem blkIds_of_frames (frames : blkFrames others = blkFrames blks) :
    blkIds others = blkIds blks := by
  have := congrArg (List.map Prod.fst) frames
  simpa [blkFrames, blkIds, Pktblk.frame, Function.comp_def] using this

theorem blksSize_of_frames (frames : blkFrames others = blkFrames blks) :
    blksSize others = blksSize blks := by
  have := congrArg (fun frames => (frames.map fun frame => frame.2.1).sum) frames
  simpa [blkFrames, blksSize, Pktblk.frame, Function.comp_def] using this

theorem mem_of_frames (frames : blkFrames others = blkFrames blks) (member : blk ∈ others) :
    ∃ other ∈ blks, other.size = blk.size ∧ other.data = blk.data := by
  have inFrames : blk.frame ∈ blkFrames blks := by
    rw [← frames]
    exact List.mem_map_of_mem member
  obtain ⟨other, otherMember, same⟩ := List.mem_map.mp inFrames
  simp only [Pktblk.frame, Prod.mk.injEq] at same
  exact ⟨other, otherMember, same.2⟩

theorem windows_of_frames (frames : blkFrames others = blkFrames blks)
    (windows : Windows blks) : Windows others := by
  intro blk member
  obtain ⟨other, otherMember, sizeEq, dataEq⟩ := mem_of_frames frames member
  have holds := windows other otherMember
  refine ⟨?_, ?_, ?_⟩
  · rw [← dataEq]
    exact holds.data
  · rw [← sizeEq]
    exact holds.size
  · rw [← sizeEq, ← dataEq]
    exact holds.inside

namespace SameLayout

theorem refl (buf : Pktbuf) : SameLayout buf buf :=
  ⟨rfl, rfl, rfl⟩

theorem trans (first : SameLayout buf after) (second : SameLayout after last) :
    SameLayout buf last :=
  ⟨second.total.trans first.total, second.frames.trans first.frames,
    second.ref.trans first.ref⟩

theorem wellFormed (same : SameLayout buf after) (holds : buf.WellFormed) :
    after.WellFormed :=
  ⟨by rw [same.total, holds.total, blksSize_of_frames same.frames],
    windows_of_frames same.frames holds.windows⟩

theorem reshaped {free : List Pktblk} (same : SameLayout buf after)
    (holds : buf.WellFormed) : Reshaped buf free after free :=
  ⟨same.wellFormed holds, by rw [blkIds_of_frames same.frames], same.ref⟩

end SameLayout

theorem blkFrames_updateBlk {id : Nat} {written : Pktblk}
    (found : blks.find? (fun blk => blk.id = id) = some blk)
    (same : written.frame = blk.frame) : blkFrames (updateBlk written blks) = blkFrames blks := by
  have sameId : written.id = blk.id := congrArg Prod.fst same
  have isId : blk.id = id := by simpa using List.find?_some found
  induction blks with
  | nil => rfl
  | cons other rest ih =>
      by_cases here : other.id = id
      · have isBlk : other = blk := by simpa [here] using found
        have hit : other.id = written.id := by rw [sameId, isId, here]
        simp only [updateBlk, if_pos hit, blkFrames, List.map_cons, same]
        rw [isBlk]
      · have later : rest.find? (fun blk => blk.id = id) = some blk := by
          simpa [here] using found
        have miss : other.id ≠ written.id := by
          rw [sameId, isId]
          exact here
        simp only [updateBlk, if_neg miss, blkFrames, List.map_cons]
        rw [← blkFrames, ih later, ← blkFrames]

theorem currentBlk_frames {written : Pktblk} (current : currentBlk buf = some blk)
    (same : written.frame = blk.frame) :
    SameLayout buf { buf with blkList := updateBlk written buf.blkList } := by
  obtain ⟨id, -, found⟩ := Option.bind_eq_some_iff.mp current
  exact ⟨rfl, blkFrames_updateBlk found same, rfl⟩

theorem Pktblk.store_frame {written : Pktblk} {offset : Int} {bytes : List UInt8}
    (stored : blk.store offset bytes = some written) : written.frame = blk.frame := by
  unfold Pktblk.store at stored
  split at stored
  · cases stored
    rfl
  · cases stored

theorem moveForward_layout {count : Int} (moved : moveForward buf count = some after) :
    SameLayout buf after := by
  unfold moveForward at moved
  obtain ⟨curr, -, moved⟩ := Option.bind_eq_some_iff.mp moved
  split at moved
  · split at moved <;> cases moved <;> exact ⟨rfl, rfl, rfl⟩
  · cases moved
    exact ⟨rfl, rfl, rfl⟩

def KeepsFrame {σ : Type} (access : Access σ) : Prop :=
  ∀ {state state' : σ} {blk written : Pktblk} {offset count : Int},
    access state blk offset count = some (state', written) → written.frame = blk.frame

theorem cursorLoop_layout {σ : Type} {access : Access σ} (keeps : KeepsFrame access)
    {passes : Nat} {state state' : σ} {size : Int}
    (returns : cursorLoop access passes buf state size = some (after, state')) :
    SameLayout buf after := by
  induction passes generalizing buf state size with
  | zero =>
      unfold cursorLoop at returns
      split at returns
      · cases returns
      · cases returns
        exact .refl _
  | succ passes ih =>
      unfold cursorLoop at returns
      split at returns
      · obtain ⟨blkSize, -, returns⟩ := Option.bind_eq_some_iff.mp returns
        obtain ⟨curr, current, returns⟩ := Option.bind_eq_some_iff.mp returns
        obtain ⟨⟨state, written⟩, accessed, returns⟩ := Option.bind_eq_some_iff.mp returns
        obtain ⟨moved, movedEq, returns⟩ := Option.bind_eq_some_iff.mp returns
        exact ((currentBlk_frames current (keeps accessed)).trans
          (moveForward_layout movedEq)).trans (ih returns)
      · cases returns
        exact .refl _

theorem writeAccess_keepsFrame {src : Nat → UInt8} : KeepsFrame (writeAccess src) := by
  intro state state' blk written offset count accessed
  unfold writeAccess at accessed
  split at accessed
  · cases accessed
  · obtain ⟨stored, storedEq, result⟩ := Option.bind_eq_some_iff.mp accessed
    cases result
    exact Pktblk.store_frame storedEq

theorem fillAccess_keepsFrame {value : UInt8} : KeepsFrame (fillAccess value) := by
  intro state state' blk written offset count accessed
  unfold fillAccess at accessed
  split at accessed
  · cases accessed
  · obtain ⟨stored, storedEq, result⟩ := Option.bind_eq_some_iff.mp accessed
    cases result
    exact Pktblk.store_frame storedEq

theorem readAccess_keepsFrame : KeepsFrame readAccess := by
  intro state state' blk written offset count accessed
  obtain ⟨bytes, -, result⟩ := Option.bind_eq_some_iff.mp accessed
  cases result
  rfl

theorem seekAccess_keepsFrame : KeepsFrame seekAccess := by
  intro state state' blk written offset count accessed
  cases accessed
  rfl

theorem checksumAccess_keepsFrame : KeepsFrame checksumAccess := by
  intro state state' blk written offset count accessed
  obtain ⟨bytes, -, accessed⟩ := Option.bind_eq_some_iff.mp accessed
  obtain ⟨sum, -, result⟩ := Option.bind_eq_some_iff.mp accessed
  cases result
  rfl

theorem copyLoop_layout {passes : Nat} {dest src dest' src' : Pktbuf} {size : Int}
    (returns : copyLoop passes dest src size = some (dest', src')) :
    SameLayout dest dest' ∧ SameLayout src src' := by
  induction passes generalizing dest src size with
  | zero =>
      unfold copyLoop at returns
      split at returns
      · cases returns
        exact ⟨.refl _, .refl _⟩
      · cases returns
  | succ passes ih =>
      unfold copyLoop at returns
      split at returns
      · cases returns
        exact ⟨.refl _, .refl _⟩
      · obtain ⟨destRemain, -, returns⟩ := Option.bind_eq_some_iff.mp returns
        obtain ⟨srcRemain, -, returns⟩ := Option.bind_eq_some_iff.mp returns
        obtain ⟨destBlk, destCurrent, returns⟩ := Option.bind_eq_some_iff.mp returns
        obtain ⟨srcBlk, -, returns⟩ := Option.bind_eq_some_iff.mp returns
        obtain ⟨bytes, -, returns⟩ := Option.bind_eq_some_iff.mp returns
        obtain ⟨written, storedEq, returns⟩ := Option.bind_eq_some_iff.mp returns
        obtain ⟨movedDest, movedDestEq, returns⟩ := Option.bind_eq_some_iff.mp returns
        obtain ⟨movedSrc, movedSrcEq, returns⟩ := Option.bind_eq_some_iff.mp returns
        obtain ⟨destSame, srcSame⟩ := ih returns
        exact ⟨((currentBlk_frames destCurrent (Pktblk.store_frame storedEq)).trans
          (moveForward_layout movedDestEq)).trans destSame,
          (moveForward_layout movedSrcEq).trans srcSame⟩

theorem copySelfLoop_layout {passes : Nat} {size : Int}
    (returns : copySelfLoop passes buf size = some after) : SameLayout buf after := by
  induction passes generalizing buf size with
  | zero =>
      unfold copySelfLoop at returns
      split at returns
      · cases returns
        exact .refl _
      · cases returns
  | succ passes ih =>
      unfold copySelfLoop at returns
      split at returns
      · cases returns
        exact .refl _
      · obtain ⟨remain, -, returns⟩ := Option.bind_eq_some_iff.mp returns
        obtain ⟨blk, current, returns⟩ := Option.bind_eq_some_iff.mp returns
        obtain ⟨bytes, -, returns⟩ := Option.bind_eq_some_iff.mp returns
        obtain ⟨written, storedEq, returns⟩ := Option.bind_eq_some_iff.mp returns
        obtain ⟨first, firstEq, returns⟩ := Option.bind_eq_some_iff.mp returns
        obtain ⟨second, secondEq, returns⟩ := Option.bind_eq_some_iff.mp returns
        exact (((currentBlk_frames current (Pktblk.store_frame storedEq)).trans
          (moveForward_layout firstEq)).trans (moveForward_layout secondEq)).trans
          (ih returns)

end Layout

/-- The cursor of a packet stands in a block, between the blocks in front of it and
those behind it. -/
structure Focus (buf : Pktbuf) (front : List Pktblk) (blk : Pktblk)
    (behind : List Pktblk) : Prop where
  blks : buf.blkList = front ++ blk :: behind
  nodup : (blkIds buf.blkList).Nodup
  curr : buf.currBlk = some blk.id
  lower : blk.data ≤ buf.blkOffset
  upper : buf.blkOffset ≤ blk.data + blk.size
  pos : buf.pos = blksSize front + (buf.blkOffset - blk.data)

/-- The cursor of a packet agrees with its position; the number counts the blocks from
its own on. -/
inductive CursorAt (buf : Pktbuf) : Nat → Prop where
  | inside {front behind : List Pktblk} {blk : Pktblk} (focus : Focus buf front blk behind) :
      CursorAt buf (behind.length + 1)
  | atEnd (nodup : (blkIds buf.blkList).Nodup) (curr : buf.currBlk = none)
      (pos : buf.pos = blksSize buf.blkList) : CursorAt buf 0

def Current (buf : Pktbuf) : Prop :=
  ∃ count, CursorAt buf count

def AtStart (buf : Pktbuf) : Prop :=
  ∀ blk, currentBlk buf = some blk → buf.blkOffset = blk.data

section Cursor

variable {buf : Pktbuf} {front behind : List Pktblk} {blk : Pktblk}

namespace Focus

theorem fresh (focus : Focus buf front blk behind) : blk.id ∉ blkIds front := by
  have nodup := focus.nodup
  rw [focus.blks, blkIds_append, blkIds_cons] at nodup
  intro member
  exact List.disjoint_of_nodup_append nodup member List.mem_cons_self

theorem current (focus : Focus buf front blk behind) : currentBlk buf = some blk := by
  have fresh := focus.fresh
  have missed : front.find? (fun other => other.id = blk.id) = none := by
    rw [List.find?_eq_none]
    intro other member same
    simp only [decide_eq_true_eq] at same
    exact fresh (same ▸ List.mem_map_of_mem member)
  simp [currentBlk, focus.curr, focus.blks, List.find?_append, missed]

theorem remain (focus : Focus buf front blk behind) :
    currBlkRemain buf = some (blk.data + blk.size - buf.blkOffset) := by
  simp [currBlkRemain, focus.curr, focus.current]

theorem next (focus : Focus buf front blk behind) :
    blkNext blk.id buf.blkList = behind.head? := by
  have fresh := focus.fresh
  rw [focus.blks]
  clear focus
  induction front with
  | nil => simp [blkNext]
  | cons other rest ih =>
      simp only [blkIds_cons, List.mem_cons, not_or] at fresh
      simp only [List.cons_append, blkNext, if_neg (Ne.symm fresh.1)]
      exact ih fresh.2

theorem update {payload : Nat → UInt8} (focus : Focus buf front blk behind) :
    Focus { buf with blkList := updateBlk { blk with payload := payload } buf.blkList }
      front { blk with payload := payload } behind := by
  have fresh := focus.fresh
  have updated : updateBlk { blk with payload := payload } buf.blkList =
      front ++ { blk with payload := payload } :: behind := by
    rw [focus.blks]
    clear focus
    induction front with
    | nil => simp [updateBlk]
    | cons other rest ih =>
        simp only [blkIds_cons, List.mem_cons, not_or] at fresh
        simp only [List.cons_append, updateBlk, if_neg (Ne.symm fresh.1)]
        rw [ih fresh.2]
  refine ⟨updated, ?_, focus.curr, focus.lower, focus.upper, focus.pos⟩
  have nodup := focus.nodup
  simp only [focus.blks, blkIds_append, blkIds_cons] at nodup
  simpa only [updated, blkIds_append, blkIds_cons] using nodup

end Focus

theorem moveForward_spec {count : Int} (focus : Focus buf front blk behind)
    (windows : Windows buf.blkList)
    (lower : 0 ≤ count) (upper : count ≤ blk.data + blk.size - buf.blkOffset) :
    ∃ moved, moveForward buf count = some moved ∧ moved.pos = buf.pos + count ∧
      moved.blkList = buf.blkList ∧ moved.totalSize = buf.totalSize ∧
      (count < blk.data + blk.size - buf.blkOffset → Focus moved front blk behind) ∧
      (count = blk.data + blk.size - buf.blkOffset →
        CursorAt moved behind.length ∧ AtStart moved) := by
  have offsetLower := focus.lower
  have pos := focus.pos
  by_cases leaves : buf.blkOffset + count ≥ blk.data + blk.size
  · cases behindEq : behind with
    | nil =>
        refine ⟨{ buf with pos := buf.pos + count, currBlk := none, blkOffset := 0 }, ?_, rfl,
          rfl, rfl, fun _ => absurd leaves (by omega), fun whole => ?_⟩
        · simp [moveForward, focus.current, leaves, focus.next, behindEq]
        · refine ⟨.atEnd focus.nodup rfl ?_, fun blk found => by simp [currentBlk] at found⟩
          simp only [focus.blks, behindEq, blksSize_append, blksSize_cons, blksSize_nil]
          omega
    | cons next rest =>
        have nextHolds : next.InPayload := by
          apply windows
          simp [focus.blks, behindEq]
        have nextSize := nextHolds.size
        refine ⟨{ buf with
          pos := buf.pos + count, currBlk := some next.id, blkOffset := next.data }, ?_, rfl,
          rfl, rfl, fun _ => absurd leaves (by omega), fun whole => ?_⟩
        · simp [moveForward, focus.current, leaves, focus.next, behindEq]
        · have entered : Focus { buf with
              pos := buf.pos + count, currBlk := some next.id, blkOffset := next.data }
              (front ++ [blk]) next rest := by
            refine ⟨?_, focus.nodup, rfl, Int.le_refl _, ?_, ?_⟩
            · simp [focus.blks, behindEq]
            · simp only
              omega
            · simp only [blksSize_append, blksSize_cons, blksSize_nil]
              omega
          refine ⟨.inside entered, fun found foundEq => ?_⟩
          rw [entered.current, Option.some.injEq] at foundEq
          rw [← foundEq]
  · refine ⟨{ buf with
      pos := buf.pos + count, blkOffset := buf.blkOffset + count }, ?_, rfl, rfl, rfl,
      fun _ => ?_, fun whole => absurd whole (by omega)⟩
    · simp [moveForward, focus.current, leaves]
    · exact ⟨focus.blks, focus.nodup, focus.curr, by simp only; omega, by simp only; omega,
        by simp only; omega⟩

theorem Focus.slice_eq {count : Int} (focus : Focus buf front blk behind)
    (holds : blk.InPayload) (lower : 0 ≤ count)
    (upper : count ≤ blk.data + blk.size - buf.blkOffset) :
    slice blk.payload buf.blkOffset.toNat count.toNat =
      (blk.window.drop (buf.blkOffset - blk.data).toNat).take count.toNat := by
  have data := holds.data
  have offsetLower := focus.lower
  have sizes : blk.size.toNat = (buf.blkOffset - blk.data).toNat +
      (count.toNat + (blk.data + blk.size - buf.blkOffset - count).toNat) := by omega
  have start : buf.blkOffset.toNat = blk.data.toNat + (buf.blkOffset - blk.data).toNat := by
    omega
  rw [Pktblk.window, sizes, slice_add, slice_add, List.drop_left' (by simp),
    List.take_left' (by simp), start]

theorem Focus.store {bytes : List UInt8} (focus : Focus buf front blk behind)
    (holds : blk.InPayload) (upper : bytes.length ≤ blk.data + blk.size - buf.blkOffset) :
    ∃ payload, blk.store buf.blkOffset bytes = some { blk with payload := payload } ∧
      Pktblk.window { blk with payload := payload } =
        blk.window.take (buf.blkOffset - blk.data).toNat ++
          (bytes ++ blk.window.drop ((buf.blkOffset - blk.data).toNat + bytes.length)) := by
  have offsetLower := focus.lower
  have stored := @Pktblk.store_window blk (buf.blkOffset - blk.data) bytes holds (by omega)
    (by omega)
  rwa [show blk.data + (buf.blkOffset - blk.data) = buf.blkOffset by omega] at stored

theorem Focus.split_content {before later : List UInt8} (focus : Focus buf front blk behind)
    (windows : Windows buf.blkList) (content : buf.content = before ++ later)
    (length : (before.length : Int) = buf.pos) :
    before = blksContent front ++ blk.window.take (buf.blkOffset - blk.data).toNat ∧
      later = blk.window.drop (buf.blkOffset - blk.data).toNat ++ blksContent behind := by
  have offsetLower := focus.lower
  have offsetUpper := focus.upper
  have pos := focus.pos
  rw [focus.blks, windows_append, windows_cons] at windows
  have frontNonneg := windows.1.size_nonneg
  have frontLength := windows.1.length_content
  have cut : (blksContent front ++ blk.window.take (buf.blkOffset - blk.data).toNat) ++
      (blk.window.drop (buf.blkOffset - blk.data).toNat ++ blksContent behind) =
        before ++ later := by
    rw [← content, Pktbuf.content, focus.blks, blksContent_append, blksContent_cons]
    simp only [List.append_assoc]
    rw [← List.append_assoc (blk.window.take _), List.take_append_drop]
  have inj := List.append_inj cut (by
    rw [List.length_append, List.length_take, Pktblk.length_window, frontLength]
    omega)
  exact ⟨inj.1.symm, inj.2.symm⟩

theorem Focus.chunk (focus : Focus buf front blk behind) (bytes : List UInt8) :
    ∃ first second, bytes = first ++ second ∧
      (if (bytes.length : Int) > blk.data + blk.size - buf.blkOffset then
        blk.data + blk.size - buf.blkOffset else (bytes.length : Int)) = first.length ∧
      (first.length : Int) ≤ blk.data + blk.size - buf.blkOffset ∧
      (second = [] ∨ (first.length : Int) = blk.data + blk.size - buf.blkOffset) := by
  have upper := focus.upper
  by_cases beyond : (bytes.length : Int) > blk.data + blk.size - buf.blkOffset
  · refine ⟨bytes.take (blk.data + blk.size - buf.blkOffset).toNat,
      bytes.drop (blk.data + blk.size - buf.blkOffset).toNat, by simp, ?_, ?_, ?_⟩
    · rw [if_pos beyond, List.length_take]
      omega
    · rw [List.length_take]
      omega
    · rw [List.length_take]
      omega
  · exact ⟨bytes, [], by simp, by rw [if_neg beyond], by omega, .inl rfl⟩

theorem Focus.read {before first later : List UInt8} (focus : Focus buf front blk behind)
    (windows : Windows buf.blkList) (content : buf.content = before ++ (first ++ later))
    (length : (before.length : Int) = buf.pos)
    (upper : first.length ≤ blk.data + blk.size - buf.blkOffset) :
    slice blk.payload buf.blkOffset.toNat first.length = first := by
  obtain ⟨-, laterEq⟩ := focus.split_content windows content length
  have holds : blk.InPayload := windows blk (by simp [focus.blks])
  have offsetLower := focus.lower
  have sliceEq := focus.slice_eq holds (Int.natCast_nonneg first.length) upper
  rw [Int.toNat_natCast] at sliceEq
  have inWindow : first.length ≤
      (blk.window.drop (buf.blkOffset - blk.data).toNat).length := by
    rw [List.length_drop, Pktblk.length_window]
    omega
  calc slice blk.payload buf.blkOffset.toNat first.length
      = (blk.window.drop (buf.blkOffset - blk.data).toNat).take first.length := sliceEq
    _ = (first ++ later).take first.length := by
        rw [laterEq, List.take_append_of_le_length inWindow]
    _ = first := List.take_left

theorem Focus.pass {before first bytes later : List UInt8}
    (focus : Focus buf front blk behind) (windows : Windows buf.blkList)
    (content : buf.content = before ++ (first ++ later))
    (length : (before.length : Int) = buf.pos)
    (upper : first.length ≤ blk.data + blk.size - buf.blkOffset)
    (sameLength : bytes.length = first.length) :
    ∃ written moved, blk.store buf.blkOffset bytes = some written ∧
      moveForward { buf with blkList := updateBlk written buf.blkList } first.length =
        some moved ∧
      moved.pos = buf.pos + first.length ∧ SameLayout buf moved ∧
      moved.content = before ++ (bytes ++ later) ∧
      (first.length < blk.data + blk.size - buf.blkOffset →
        CursorAt moved (behind.length + 1)) ∧
      (first.length = blk.data + blk.size - buf.blkOffset →
        CursorAt moved behind.length ∧ AtStart moved) := by
  have holds : blk.InPayload := windows blk (by simp [focus.blks])
  have offsetLower := focus.lower
  obtain ⟨payload, storeEq, window⟩ :=
    @Focus.store buf front behind blk bytes focus holds (by omega)
  have updated := @Focus.update buf front behind blk payload focus
  have layout : SameLayout buf
      { buf with blkList := updateBlk { blk with payload := payload } buf.blkList } :=
    currentBlk_frames focus.current (Pktblk.store_frame storeEq)
  obtain ⟨moved, movedEq, pos, blks, total, stays, leaves⟩ :=
    moveForward_spec updated (windows_of_frames layout.frames windows)
      (Int.natCast_nonneg first.length) upper
  refine ⟨_, moved, storeEq, movedEq, pos, layout.trans (moveForward_layout movedEq), ?_,
    fun within => .inside (stays within), leaves⟩
  obtain ⟨beforeEq, laterEq⟩ := focus.split_content windows content length
  have inWindow : first.length ≤
      (blk.window.drop (buf.blkOffset - blk.data).toNat).length := by
    rw [List.length_drop, Pktblk.length_window]
    omega
  have restEq : later = blk.window.drop ((buf.blkOffset - blk.data).toNat + first.length) ++
      blksContent behind := by
    have dropped := congrArg (List.drop first.length) laterEq
    rwa [List.drop_left, List.drop_append_of_le_length inWindow, List.drop_drop] at dropped
  have updatedBlks := updated.blks
  simp only at updatedBlks
  rw [Pktbuf.content, blks, updatedBlks, blksContent_append, blksContent_cons, window,
    sameLength, restEq, beforeEq]
  simp

end Cursor

/-- An access that acts on the bytes it visits alone: in order, whatever the blocks
they are stored in. -/
structure ByteAccess {σ : Type} (access : Access σ)
    (act : σ → List UInt8 → σ × List UInt8) : Prop where
  length : ∀ state bytes, (act state bytes).2.length = bytes.length
  nil : ∀ state, act state [] = (state, [])
  append : ∀ state first second, act state (first ++ second) =
    ((act (act state first).1 second).1,
      (act state first).2 ++ (act (act state first).1 second).2)
  run : ∀ (state : σ) (blk : Pktblk) (offset count : Int), 0 ≤ offset → 0 ≤ count →
    offset + count ≤ pktbufBlkSize →
    access state blk offset count =
      (blk.store offset (act state (slice blk.payload offset.toNat count.toNat)).2).map
        fun written => ((act state (slice blk.payload offset.toNat count.toNat)).1, written)

/-- What a call may access: a block, an offset in its payload and a number of bytes. -/
abbrev Guard := Pktblk → Int → Int → Bool

namespace Guard

def everywhere : Guard := fun _ _ _ => true

def inWindow : Guard := fun blk offset count =>
  decide (blk.data ≤ offset ∧ 0 ≤ count ∧ offset + count ≤ blk.data + blk.size)

def Admits (guard : Guard) : Prop :=
  ∀ blk offset count, inWindow blk offset count = true → guard blk offset count = true

theorem everywhere_admits : everywhere.Admits :=
  fun _ _ _ _ => rfl

theorem inWindow_admits : inWindow.Admits :=
  fun _ _ _ inside => inside

end Guard

def guarded {σ : Type} (guard : Guard) (access : Access σ) : Access σ :=
  fun state blk offset count =>
    if guard blk offset count then access state blk offset count else none

section Loops

variable {σ : Type} {access : Access σ} {act : σ → List UInt8 → σ × List UInt8}
variable {buf : Pktbuf} {passes blocks : Nat} {state : σ}
variable {before bytes later : List UInt8}

theorem cursorLoop_nothing {size : Int} (nothing : size ≤ 0) :
    cursorLoop access passes buf state size = some (buf, state) := by
  cases passes <;> simp [cursorLoop, Int.not_lt.mpr nothing]

theorem CursorAt.focus (cursor : CursorAt buf blocks) (windows : Windows buf.blkList)
    (content : buf.content = before ++ later) (length : (before.length : Int) = buf.pos)
    (more : later ≠ []) :
    ∃ front blk behind, Focus buf front blk behind ∧ blocks = behind.length + 1 := by
  cases cursor with
  | inside focus => exact ⟨_, _, _, focus, rfl⟩
  | atEnd nodup curr pos =>
      have total := windows.length_content
      rw [← Pktbuf.content, content, List.length_append] at total
      have := List.length_pos_iff.mpr more
      omega

theorem cursorLoop_spec (law : ByteAccess access act) (windows : Windows buf.blkList)
    (cursor : CursorAt buf blocks) (enough : blocks ≤ passes)
    (content : buf.content = before ++ (bytes ++ later))
    (length : (before.length : Int) = buf.pos) :
    ∃ after, (∀ guard : Guard, guard.Admits →
        cursorLoop (guarded guard access) passes buf state bytes.length =
          some (after, (act state bytes).1)) ∧
      Current after ∧ after.pos = buf.pos + bytes.length ∧ SameLayout buf after ∧
      after.content = before ++ ((act state bytes).2 ++ later) := by
  induction passes generalizing buf blocks state before bytes with
  | zero =>
      cases bytes with
      | nil =>
          refine ⟨buf, ?_, ⟨_, cursor⟩, by simp, .refl buf, ?_⟩
          · simp [cursorLoop, law.nil]
          · simp [content, law.nil]
      | cons byte rest =>
          obtain ⟨front, blk, behind, -, count⟩ := cursor.focus windows content length (by simp)
          omega
  | succ passes ih =>
      by_cases none : bytes = []
      · subst none
        refine ⟨buf, ?_, ⟨_, cursor⟩, by simp, .refl buf, ?_⟩
        · simp [cursorLoop, law.nil]
        · simp [content, law.nil]
      obtain ⟨front, blk, behind, focus, count⟩ :=
        cursor.focus windows content length (by simp [none])
      have offsetLower := focus.lower
      have holds : blk.InPayload := windows blk (by simp [focus.blks])
      have data := holds.data
      have inside := holds.inside
      have positive : (bytes.length : Int) > 0 := by
        have := List.length_pos_iff.mpr none
        omega
      obtain ⟨first, second, bytesEq, firstLength, firstUpper, ends⟩ := focus.chunk bytes
      have content' : buf.content = before ++ (first ++ (second ++ later)) := by
        rw [content, bytesEq, List.append_assoc]
      have read := focus.read windows content' length firstUpper
      obtain ⟨written, moved, storeEq, movedEq, pos, layout, movedContent, stays, leaves⟩ :=
        @Focus.pass buf front behind blk before first (act state first).2 (second ++ later)
          focus windows content' length firstUpper (law.length _ _)
      have accessEq : ∀ guard : Guard, guard.Admits →
          guarded guard access state blk buf.blkOffset first.length =
            some ((act state first).1, written) := by
        intro guard admits
        have allowed := admits blk buf.blkOffset first.length (decide_eq_true (by omega))
        rw [guarded, if_pos allowed,
          law.run state blk buf.blkOffset first.length (by omega) (by omega) (by omega),
          Int.toNat_natCast, read, storeEq, Option.map_some]
      -- What is left is visited from the next block on, unless there is nothing left.
      have restLoop : ∃ after, (∀ guard : Guard, guard.Admits →
            cursorLoop (guarded guard access) passes moved (act state first).1 second.length =
              some (after, (act (act state first).1 second).1)) ∧
          Current after ∧ after.pos = moved.pos + second.length ∧ SameLayout moved after ∧
          after.content =
            before ++ ((act state first).2 ++ ((act (act state first).1 second).2 ++ later)) := by
        by_cases whole : (first.length : Int) = blk.data + blk.size - buf.blkOffset
        · have loop := @ih moved behind.length (act state first).1
            (before ++ (act state first).2) second
            (windows_of_frames layout.frames windows) (leaves whole).1 (by omega)
            (by rw [movedContent]; simp)
            (by rw [List.length_append, law.length, pos]; omega)
          simpa using loop
        · have nothing : second = [] := ends.resolve_right whole
          subst nothing
          refine ⟨moved, ?_, ⟨_, stays (by omega)⟩, by simp, .refl moved, ?_⟩
          · simp [cursorLoop_nothing (Int.le_refl 0), law.nil]
          · rw [movedContent]
            simp [law.nil]
      obtain ⟨after, loopEq, current, afterPos, afterLayout, afterContent⟩ := restLoop
      have remaining : (bytes.length : Int) - first.length = second.length := by
        rw [bytesEq, List.length_append]
        omega
      refine ⟨after, ?_, current, ?_, layout.trans afterLayout, ?_⟩
      · intro guard admits
        simp only [cursorLoop, if_pos positive, focus.remain, Option.bind_eq_bind,
          Option.bind_some, firstLength, focus.current, accessEq guard admits, movedEq,
          remaining, loopEq guard admits]
        rw [bytesEq, law.append]
      · rw [afterPos, pos, bytesEq, List.length_append]
        omega
      · rw [afterContent, bytesEq, law.append]
        simp

theorem Current.loop (law : ByteAccess access act) (holds : buf.WellFormed)
    (current : Current buf) (content : buf.content = before ++ (bytes ++ later))
    (length : (before.length : Int) = buf.pos) :
    ∃ after, (∀ guard : Guard, guard.Admits →
        cursorLoop (guarded guard access) buf.blkList.length buf state bytes.length =
          some (after, (act state bytes).1)) ∧
      Current after ∧ after.pos = buf.pos + bytes.length ∧ SameLayout buf after ∧
      after.content = before ++ ((act state bytes).2 ++ later) := by
  obtain ⟨blocks, cursor⟩ := current
  refine cursorLoop_spec law holds.windows cursor ?_ content length
  cases cursor with
  | inside focus =>
      rw [focus.blks]
      simp
  | atEnd => exact Nat.zero_le _

theorem Current.split (holds : buf.WellFormed) (current : Current buf) :
    0 ≤ buf.pos ∧ buf.pos ≤ buf.totalSize ∧
      (((buf.content.take buf.pos.toNat).length : Nat) : Int) = buf.pos := by
  have length := holds.length_content
  have bounds : 0 ≤ buf.pos ∧ buf.pos ≤ buf.totalSize := by
    obtain ⟨blocks, cursor⟩ := current
    cases cursor with
    | @inside front behind blk focus =>
        have windows := holds.windows
        rw [focus.blks, windows_append, windows_cons] at windows
        have frontNonneg := windows.1.size_nonneg
        have behindNonneg := windows.2.2.size_nonneg
        have lower := focus.lower
        have upper := focus.upper
        have pos := focus.pos
        have total := holds.total
        rw [focus.blks, blksSize_append, blksSize_cons] at total
        omega
    | atEnd nodup curr pos =>
        have := holds.windows.size_nonneg
        have := holds.total
        omega
  refine ⟨bounds.1, bounds.2, ?_⟩
  rw [List.length_take]
  omega

end Loops

section Accesses

theorem Pktblk.store_same {blk : Pktblk} {offset count : Int} (lower : 0 ≤ offset)
    (nonneg : 0 ≤ count) (upper : offset + count ≤ pktbufBlkSize) :
    blk.store offset (slice blk.payload offset.toNat count.toNat) = some blk := by
  obtain ⟨payload, storeEq, before, stored, after⟩ :=
    @Pktblk.store_inside blk offset (slice blk.payload offset.toNat count.toNat) lower
      (by rw [length_slice]; omega)
  rw [length_slice] at stored after
  have same : payload = blk.payload := by
    funext i
    by_cases below : i < offset.toNat
    · exact before i below
    · by_cases above : offset.toNat + count.toNat ≤ i
      · exact after i above
      · have inside : i - offset.toNat < count.toNat := by omega
        have entry := congrArg (fun bytes => bytes[i - offset.toNat]?) stored
        simp only [slice_getElem? inside, Option.some.injEq] at entry
        have index : offset.toNat + (i - offset.toNat) = i := by omega
        rwa [index] at entry
  rw [storeEq, same]

theorem writeAccess_bytes (src : Nat → UInt8) :
    ByteAccess (writeAccess src)
      fun start bytes => (start + bytes.length, slice src start bytes.length) where
  length := by simp
  nil := by simp
  append := by
    intro start first second
    simp [slice_add, Nat.add_assoc]
  run := by
    intro start blk offset count _ nonneg _
    have notNegative : ¬ count < 0 := by omega
    simp only [writeAccess, if_neg notNegative, length_slice]
    cases blk.store offset (slice src start count.toNat) <;> rfl

theorem readAccess_bytes :
    ByteAccess readAccess fun dest bytes => (dest ++ bytes, bytes) where
  length := by simp
  nil := by simp
  append := by simp
  run := by
    intro dest blk offset count lower nonneg upper
    rw [Pktblk.store_same lower nonneg upper]
    simp [readAccess, Pktblk.load_inside lower nonneg upper]

theorem seekAccess_bytes : ByteAccess seekAccess fun state bytes => (state, bytes) where
  length := by simp
  nil := by simp
  append := by simp
  run := by
    intro state blk offset count lower nonneg upper
    rw [Pktblk.store_same lower nonneg upper]
    rfl

theorem fillAccess_bytes (value : UInt8) :
    ByteAccess (fillAccess value)
      fun state bytes => (state, List.replicate bytes.length value) where
  length := by simp
  nil := by simp
  append := by simp
  run := by
    intro state blk offset count _ nonneg _
    have notNegative : ¬ count < 0 := by omega
    simp only [fillAccess, if_neg notNegative, length_slice]
    cases blk.store offset (List.replicate count.toNat value) <;> rfl

end Accesses

def overwrite (content : List UInt8) (pos : Nat) (bytes : List UInt8) : List UInt8 :=
  content.take pos ++ (bytes ++ content.drop (pos + bytes.length))

section Operations

variable {σ : Type} {access : Access σ} {act : σ → List UInt8 → σ × List UInt8}
variable {buf after : Pktbuf} {state : σ} {size : Int}

theorem Current.loop_guarded (law : ByteAccess access act) (holds : buf.WellFormed)
    (current : Current buf) (nonneg : 0 ≤ size) (within : size ≤ totalBlkRemain buf) :
    ∃ after, (∀ guard : Guard, guard.Admits →
        cursorLoop (guarded guard access) buf.blkList.length buf state size =
          some (after, (act state ((buf.content.drop buf.pos.toNat).take size.toNat)).1)) ∧
      Current after ∧ after.pos = buf.pos + size ∧ SameLayout buf after ∧
      after.content = overwrite buf.content buf.pos.toNat
        (act state ((buf.content.drop buf.pos.toNat).take size.toNat)).2 := by
  obtain ⟨posNonneg, posUpper, length⟩ := current.split holds
  have total := holds.length_content
  simp only [totalBlkRemain] at within
  have bytesLength :
      (((buf.content.drop buf.pos.toNat).take size.toNat).length : Int) = size := by
    rw [List.length_take, List.length_drop]
    omega
  have content : buf.content = buf.content.take buf.pos.toNat ++
      ((buf.content.drop buf.pos.toNat).take size.toNat ++
        (buf.content.drop buf.pos.toNat).drop size.toNat) := by
    rw [List.take_append_drop, List.take_append_drop]
  obtain ⟨after, loopEq, currentAfter, pos, layout, afterContent⟩ :=
    @Current.loop σ access act buf state _ _ _ law holds current content length
  rw [bytesLength] at loopEq pos
  refine ⟨after, loopEq, currentAfter, pos, layout, ?_⟩
  rw [afterContent, overwrite, law.length, List.drop_drop]
  have sizes : ((buf.content.drop buf.pos.toNat).take size.toNat).length = size.toNat := by
    omega
  rw [sizes]

theorem Current.loop_within (law : ByteAccess access act) (holds : buf.WellFormed)
    (current : Current buf) (nonneg : 0 ≤ size) (within : size ≤ totalBlkRemain buf) :
    ∃ after,
      cursorLoop access buf.blkList.length buf state size =
        some (after, (act state ((buf.content.drop buf.pos.toNat).take size.toNat)).1) ∧
      Current after ∧ after.pos = buf.pos + size ∧ SameLayout buf after ∧
      after.content = overwrite buf.content buf.pos.toNat
        (act state ((buf.content.drop buf.pos.toNat).take size.toNat)).2 := by
  obtain ⟨after, loopEq, rest⟩ := @Current.loop_guarded σ access act buf state size law holds
    current nonneg within
  exact ⟨after, loopEq .everywhere Guard.everywhere_admits, rest⟩

theorem pktbufWrite_spec {src : Nat → UInt8} (holds : buf.WellFormed)
    (current : Current buf) (positive : 0 < size) (within : size ≤ totalBlkRemain buf) :
    ∃ after, pktbufWrite buf (some src) size = some (.ok, after) ∧ Current after ∧
      after.pos = buf.pos + size ∧ SameLayout buf after ∧
      after.content = overwrite buf.content buf.pos.toNat (slice src 0 size.toNat) := by
  obtain ⟨after, loopEq, currentAfter, pos, layout, content⟩ :=
    @Current.loop_within Nat _ _ buf 0 size (writeAccess_bytes src) holds current
      (by omega) within
  have nonzero : size ≠ 0 := by omega
  have enough : ¬ totalBlkRemain buf < size := by omega
  refine ⟨after, ?_, currentAfter, pos, layout, ?_⟩
  · simp only [pktbufWrite, if_neg nonzero, if_neg enough, loopEq, Option.bind_eq_bind,
      Option.bind_some]
  · have total := holds.length_content
    have split := current.split holds
    simp only [totalBlkRemain] at within
    have sizes : min size.toNat (buf.content.length - buf.pos.toNat) = size.toNat := by
      omega
    simpa [sizes] using content

theorem pktbufRead_spec (holds : buf.WellFormed) (current : Current buf)
    (positive : 0 < size) (within : size ≤ totalBlkRemain buf) :
    ∃ after, pktbufRead buf true size =
        some (.ok, after, (buf.content.drop buf.pos.toNat).take size.toNat) ∧
      Current after ∧ after.pos = buf.pos + size ∧ SameLayout buf after := by
  obtain ⟨after, loopEq, currentAfter, pos, layout, content⟩ :=
    @Current.loop_within (List UInt8) _ _ buf [] size readAccess_bytes holds current
      (by omega) within
  have given : ¬ (¬ true ∨ size = 0) := by
    simp
    omega
  have enough : ¬ totalBlkRemain buf < size := by omega
  refine ⟨after, ?_, currentAfter, pos, layout⟩
  rw [pktbufRead, if_neg given, if_neg enough, loopEq]
  simp

theorem pktbufFill_spec {value : UInt8} (holds : buf.WellFormed) (current : Current buf)
    (positive : 0 < size) (within : size ≤ totalBlkRemain buf) :
    ∃ after, pktbufFill buf value size = some (.ok, after) ∧ Current after ∧
      after.pos = buf.pos + size ∧ SameLayout buf after ∧
      after.content =
        overwrite buf.content buf.pos.toNat (List.replicate size.toNat value) := by
  obtain ⟨after, loopEq, currentAfter, pos, layout, content⟩ :=
    @Current.loop_within Unit _ _ buf () size (fillAccess_bytes value) holds current
      (by omega) within
  have nonzero : size ≠ 0 := by omega
  have enough : ¬ totalBlkRemain buf < size := by omega
  refine ⟨after, ?_, currentAfter, pos, layout, ?_⟩
  · simp only [pktbufFill, if_neg nonzero, if_neg enough, loopEq, Option.bind_eq_bind,
      Option.bind_some]
  · have total := holds.length_content
    have split := current.split holds
    simp only [totalBlkRemain] at within
    have sizes : min size.toNat (buf.content.length - buf.pos.toNat) = size.toNat := by
      omega
    simpa [sizes] using content

theorem Current.loop_returns (law : ByteAccess access act) (holds : buf.WellFormed)
    (current : Current buf) (within : ¬ totalBlkRemain buf < size) :
    ∃ after state',
      cursorLoop access buf.blkList.length buf state size = some (after, state') ∧
        Current after := by
  by_cases nonneg : 0 ≤ size
  · obtain ⟨after, loopEq, currentAfter, -⟩ :=
      @Current.loop_within σ access act buf state size law holds current nonneg (by omega)
    exact ⟨after, _, loopEq, currentAfter⟩
  · exact ⟨buf, state, cursorLoop_nothing (by omega), current⟩

theorem pktbufWrite_returns {src : Option (Nat → UInt8)} (holds : buf.WellFormed)
    (current : Current buf) :
    ∃ err after, pktbufWrite buf src size = some (err, after) ∧ Current after := by
  cases src with
  | none => exact ⟨_, buf, rfl, current⟩
  | some src =>
      by_cases zero : size = 0
      · exact ⟨.param, buf, by simp only [pktbufWrite, if_pos zero], current⟩
      by_cases short : totalBlkRemain buf < size
      · exact ⟨.size, buf, by simp only [pktbufWrite, if_neg zero, if_pos short], current⟩
      obtain ⟨after, state, loopEq, currentAfter⟩ :=
        @Current.loop_returns Nat _ _ buf 0 size (writeAccess_bytes src) holds current short
      refine ⟨.ok, after, ?_, currentAfter⟩
      simp only [pktbufWrite, if_neg zero, if_neg short, loopEq, Option.bind_eq_bind,
        Option.bind_some]

theorem pktbufRead_returns {hasDest : Bool} (holds : buf.WellFormed)
    (current : Current buf) :
    ∃ err after dest, pktbufRead buf hasDest size = some (err, after, dest) ∧
      Current after := by
  unfold pktbufRead
  split
  · exact ⟨_, buf, _, rfl, current⟩
  · split
    · exact ⟨_, buf, _, rfl, current⟩
    · rename_i short
      obtain ⟨after, state, loopEq, currentAfter⟩ :=
        @Current.loop_returns (List UInt8) _ _ buf [] size readAccess_bytes holds current short
      exact ⟨.ok, after, state, by rw [loopEq]; rfl, currentAfter⟩

theorem pktbufFill_returns {value : UInt8} (holds : buf.WellFormed)
    (current : Current buf) :
    ∃ err after, pktbufFill buf value size = some (err, after) ∧ Current after := by
  by_cases zero : size = 0
  · exact ⟨.param, buf, by simp only [pktbufFill, if_pos zero], current⟩
  by_cases short : totalBlkRemain buf < size
  · exact ⟨.size, buf, by simp only [pktbufFill, if_neg zero, if_pos short], current⟩
  obtain ⟨after, state, loopEq, currentAfter⟩ :=
    @Current.loop_returns Unit _ _ buf () size (fillAccess_bytes value) holds current short
  refine ⟨.ok, after, ?_, currentAfter⟩
  simp only [pktbufFill, if_neg zero, if_neg short, loopEq, Option.bind_eq_bind,
    Option.bind_some]

theorem pktbufResetAcc_spec (holds : buf.WellFormed) (nodup : (blkIds buf.blkList).Nodup) :
    Current (pktbufResetAcc buf) ∧ (pktbufResetAcc buf).pos = 0 ∧
      (pktbufResetAcc buf).blkList = buf.blkList ∧ SameLayout buf (pktbufResetAcc buf) := by
  cases blks : buf.blkList with
  | nil =>
      have reset : pktbufResetAcc buf =
          { buf with pos := 0, currBlk := none, blkOffset := 0 } := by
        simp [pktbufResetAcc, blks]
      rw [reset]
      exact ⟨⟨0, .atEnd nodup rfl (by simp [blks])⟩, rfl, blks, ⟨rfl, rfl, rfl⟩⟩
  | cons first rest =>
      have firstHolds : first.InPayload := holds.windows first (by simp [blks])
      have reset : pktbufResetAcc buf =
          { buf with pos := 0, currBlk := some first.id, blkOffset := first.data } := by
        simp [pktbufResetAcc, blks]
      have firstSize := firstHolds.size
      rw [reset]
      refine ⟨⟨_, @CursorAt.inside _ [] rest first
        ⟨blks, nodup, rfl, Int.le_refl _, ?_, ?_⟩⟩, rfl, blks, ⟨rfl, rfl, rfl⟩⟩
      · simp only
        omega
      · simp

theorem Current.visit_guarded (holds : buf.WellFormed) (current : Current buf)
    (nonneg : 0 ≤ size) (within : size ≤ totalBlkRemain buf) :
    ∃ after, (∀ guard : Guard, guard.Admits →
        cursorLoop (guarded guard seekAccess) buf.blkList.length buf () size =
          some (after, ())) ∧
      Current after ∧ after.pos = buf.pos + size ∧ SameLayout buf after ∧
      after.content = buf.content := by
  obtain ⟨after, loopEq, currentAfter, pos, layout, content⟩ :=
    @Current.loop_guarded Unit _ _ buf () size seekAccess_bytes holds current nonneg within
  refine ⟨after, loopEq, currentAfter, pos, layout, ?_⟩
  have split := current.split holds
  have total := holds.length_content
  simp only [totalBlkRemain] at within
  have sizes : min size.toNat (buf.content.length - buf.pos.toNat) = size.toNat := by
    omega
  rw [content, overwrite, List.length_take, List.length_drop, sizes, ← List.drop_drop,
    List.take_append_drop, List.take_append_drop]

theorem guarded_everywhere : guarded .everywhere access = access :=
  rfl

theorem Current.nodup (current : Current buf) : (blkIds buf.blkList).Nodup := by
  obtain ⟨blocks, cursor⟩ := current
  cases cursor with
  | inside focus => exact focus.nodup
  | atEnd nodup => exact nodup

theorem pktbufSeek_spec (holds : buf.WellFormed) (current : Current buf) (offset : Int) :
    ∃ err after, pktbufSeek buf offset = some (err, after) ∧ Current after ∧
      SameLayout buf after ∧ after.content = buf.content ∧
      (0 ≤ offset → offset < buf.totalSize → err = .ok ∧ after.pos = offset) := by
  obtain ⟨posNonneg, posUpper, -⟩ := current.split holds
  by_cases same : buf.pos = offset
  · exact ⟨.ok, buf, by simp only [pktbufSeek, if_pos same], current, .refl buf, rfl,
      fun _ _ => ⟨rfl, same⟩⟩
  by_cases outside : offset < 0 ∨ offset ≥ buf.totalSize
  · exact ⟨.size, buf, by simp only [pktbufSeek, if_neg same, if_pos outside], current,
      .refl buf, rfl, fun _ _ => absurd outside (by omega)⟩
  by_cases backwards : offset < buf.pos
  · obtain ⟨resetCurrent, resetPos, resetBlks, resetLayout⟩ :=
      pktbufResetAcc_spec holds current.nodup
    have nonempty : buf.blkList ≠ [] := by
      intro none
      have total := holds.total
      rw [none, blksSize_nil] at total
      omega
    obtain ⟨first, rest, blks⟩ := List.exists_cons_of_ne_nil nonempty
    have reset : pktbufResetAcc buf =
        { buf with currBlk := some first.id, blkOffset := first.data, pos := 0 } := by
      simp [pktbufResetAcc, blks]
    obtain ⟨after, guardedEq, currentAfter, pos, layout, content⟩ :=
      @Current.visit_guarded (pktbufResetAcc buf) offset (resetLayout.wellFormed holds)
        resetCurrent (by omega) (by simp only [totalBlkRemain, resetPos, resetLayout.total]; omega)
    have loopEq := guardedEq .everywhere Guard.everywhere_admits
    rw [guarded_everywhere] at loopEq
    refine ⟨.ok, after, ?_, currentAfter, resetLayout.trans layout, ?_, fun _ _ => ⟨rfl, ?_⟩⟩
    · rw [reset] at loopEq
      simp only [pktbufSeek, if_neg same, if_neg outside, if_pos backwards, blks,
        List.head?_cons]
      simp only [blks] at loopEq
      simp only [loopEq, Option.bind_eq_bind, Option.bind_some]
    · rw [content, Pktbuf.content, resetBlks, Pktbuf.content]
    · rw [pos, resetPos]
      omega
  · obtain ⟨after, guardedEq, currentAfter, pos, layout, content⟩ :=
      @Current.visit_guarded buf (offset - buf.pos) holds current (by omega)
        (by simp only [totalBlkRemain]; omega)
    have loopEq := guardedEq .everywhere Guard.everywhere_admits
    rw [guarded_everywhere] at loopEq
    refine ⟨.ok, after, ?_, currentAfter, layout, content, fun _ _ => ⟨rfl, ?_⟩⟩
    · simp only [pktbufSeek, if_neg same, if_neg outside, if_neg backwards, loopEq,
        Option.bind_eq_bind, Option.bind_some]
    · rw [pos]
      omega

end Operations

section Copy

variable {dest src : Pktbuf} {passes destBlocks srcBlocks : Nat}
variable {destBefore old destLater srcBefore bytes srcLater : List UInt8}

/-- The loop of `pktbuf_copy` with both accesses of a pass under a guard. -/
def guardedCopyLoop (guard : Guard) : Nat → Pktbuf → Pktbuf → Int → Option (Pktbuf × Pktbuf)
  | 0, dest, src, size => if size = 0 then some (dest, src) else none
  | passes + 1, dest, src, size =>
      if size = 0 then some (dest, src)
      else do
        let destRemain ← currBlkRemain dest
        let srcRemain ← currBlkRemain src
        let copySize := if destRemain > srcRemain then srcRemain else destRemain
        let copySize := if copySize > size then size else copySize
        let destBlk ← currentBlk dest
        let srcBlk ← currentBlk src
        if guard srcBlk src.blkOffset copySize && guard destBlk dest.blkOffset copySize then do
          let bytes ← srcBlk.load src.blkOffset copySize
          let destBlk ← destBlk.store dest.blkOffset bytes
          let dest ← moveForward { dest with blkList := updateBlk destBlk dest.blkList } copySize
          let src ← moveForward src copySize
          guardedCopyLoop guard passes dest src (size - copySize)
        else none

theorem guardedCopyLoop_nothing {guard : Guard} :
    guardedCopyLoop guard passes dest src 0 = some (dest, src) := by
  cases passes <;> simp [guardedCopyLoop]

theorem guardedCopyLoop_everywhere {size : Int} :
    guardedCopyLoop .everywhere passes dest src size = copyLoop passes dest src size := by
  induction passes generalizing dest src size with
  | zero => rfl
  | succ passes ih =>
      simp only [guardedCopyLoop, copyLoop, ih]
      simp only [Guard.everywhere, Bool.and_self, if_true]

theorem copySize_spec {destRemain srcRemain : Int} (destNonneg : 0 ≤ destRemain)
    (srcNonneg : 0 ≤ srcRemain) (size : Nat) :
    ∃ count : Nat,
      (if (if destRemain > srcRemain then srcRemain else destRemain) > (size : Int) then (size : Int)
        else (if destRemain > srcRemain then srcRemain else destRemain)) = count ∧
      (count : Int) ≤ destRemain ∧ (count : Int) ≤ srcRemain ∧ count ≤ size ∧
      (count = size ∨ (count : Int) = destRemain ∨ (count : Int) = srcRemain) := by
  split <;> split
  · exact ⟨size, rfl, by omega, by omega, Nat.le_refl _, .inl rfl⟩
  · exact ⟨srcRemain.toNat, by omega, by omega, by omega, by omega, by omega⟩
  · exact ⟨size, rfl, by omega, by omega, Nat.le_refl _, .inl rfl⟩
  · exact ⟨destRemain.toNat, by omega, by omega, by omega, by omega, by omega⟩

/-- What a pass of the loop leaves to copy: it has copied `first`, and unless that is all, one of
the cursors has left its block. -/
structure CopyPass (dest src : Pktbuf) (destBlocks srcBlocks : Nat) (first second : List UInt8)
    (destMoved srcMoved : Pktbuf) : Prop where
  loop : ∀ passes (guard : Guard), guard.Admits →
    guardedCopyLoop guard (passes + 1) dest src (first ++ second).length =
      guardedCopyLoop guard passes destMoved srcMoved second.length
  layout : SameLayout dest destMoved
  srcBlks : srcMoved.blkList = src.blkList
  destPos : destMoved.pos = dest.pos + first.length
  srcPos : srcMoved.pos = src.pos + first.length
  cursors : ∃ destLeft srcLeft, CursorAt destMoved destLeft ∧ CursorAt srcMoved srcLeft ∧
    (second = [] ∨ destLeft + srcLeft < destBlocks + srcBlocks)

theorem copyPass_spec (destWindows : Windows dest.blkList) (srcWindows : Windows src.blkList)
    (destCursor : CursorAt dest destBlocks) (srcCursor : CursorAt src srcBlocks)
    (destContent : dest.content = destBefore ++ (old ++ destLater))
    (destLength : (destBefore.length : Int) = dest.pos)
    (srcContent : src.content = srcBefore ++ (bytes ++ srcLater))
    (srcLength : (srcBefore.length : Int) = src.pos)
    (sameLength : old.length = bytes.length) (more : bytes ≠ []) :
    ∃ first second oldSecond destMoved srcMoved, bytes = first ++ second ∧
      oldSecond.length = second.length ∧
      CopyPass dest src destBlocks srcBlocks first second destMoved srcMoved ∧
      destMoved.content = (destBefore ++ first) ++ (oldSecond ++ destLater) := by
  have moreOld : old ≠ [] := by
    intro noOld
    rw [noOld] at sameLength
    exact more (List.length_eq_zero_iff.mp sameLength.symm)
  obtain ⟨destFront, destBlk, destBehind, destFocus, destCount⟩ :=
    destCursor.focus destWindows destContent destLength (by simp [moreOld])
  obtain ⟨srcFront, srcBlk, srcBehind, srcFocus, srcCount⟩ :=
    srcCursor.focus srcWindows srcContent srcLength (by simp [more])
  have srcHolds : srcBlk.InPayload := srcWindows srcBlk (by simp [srcFocus.blks])
  have destUpper := destFocus.upper
  have srcUpper := srcFocus.upper
  have srcLower := srcFocus.lower
  have srcData := srcHolds.data
  have srcInside := srcHolds.inside
  obtain ⟨count, countEq, countDest, countSrc, countBytes, ends⟩ :=
    @copySize_spec (destBlk.data + destBlk.size - dest.blkOffset)
      (srcBlk.data + srcBlk.size - src.blkOffset) (by omega) (by omega) bytes.length
  obtain ⟨first, second, bytesEq, firstLength⟩ :
      ∃ first second, bytes = first ++ second ∧ first.length = count :=
    ⟨bytes.take count, bytes.drop count, by simp, by simp [countBytes]⟩
  obtain ⟨oldFirst, oldSecond, oldEq, oldFirstLength⟩ :
      ∃ oldFirst oldSecond, old = oldFirst ++ oldSecond ∧ oldFirst.length = count :=
    ⟨old.take count, old.drop count, by simp, by simp [sameLength, countBytes]⟩
  have srcContent' : src.content = srcBefore ++ (first ++ (second ++ srcLater)) := by
    rw [srcContent, bytesEq, List.append_assoc]
  have destContent' : dest.content = destBefore ++ (oldFirst ++ (oldSecond ++ destLater)) := by
    rw [destContent, oldEq, List.append_assoc]
  have read := srcFocus.read srcWindows srcContent' srcLength (by omega)
  have loadEq : srcBlk.load src.blkOffset count = some first := by
    rw [Pktblk.load_inside (by omega) (by omega) (by omega), Int.toNat_natCast, ← firstLength,
      read]
  obtain ⟨written, destMoved, storeEq, destMovedEq, destPos, layout, destMovedContent, destStays,
    destLeaves⟩ :=
    @Focus.pass dest destFront destBehind destBlk destBefore oldFirst first
      (oldSecond ++ destLater) destFocus destWindows destContent' destLength (by omega) (by omega)
  obtain ⟨srcMoved, srcMovedEq, srcPos, srcBlks, -, srcStays, srcLeaves⟩ :=
    @moveForward_spec src srcFront srcBehind srcBlk count srcFocus srcWindows (by omega) (by omega)
  rw [oldFirstLength] at destMovedEq destPos destStays destLeaves
  have lengths := congrArg List.length bytesEq
  have oldLengths := congrArg List.length oldEq
  rw [List.length_append] at lengths oldLengths
  refine ⟨first, second, oldSecond, destMoved, srcMoved, bytesEq, by omega, ?_, ?_⟩
  · refine ⟨?_, layout, srcBlks, by rw [firstLength]; exact destPos,
      by rw [firstLength]; exact srcPos, ?_⟩
    · intro passes guard admits
      have nonzero : (bytes.length : Int) ≠ 0 := by
        have := List.length_pos_iff.mpr more
        omega
      have remaining : (bytes.length : Int) - count = second.length := by omega
      have destLower := destFocus.lower
      have srcAllowed := admits srcBlk src.blkOffset count (decide_eq_true (by omega))
      have destAllowed := admits destBlk dest.blkOffset count (decide_eq_true (by omega))
      rw [← bytesEq]
      simp only [guardedCopyLoop, if_neg nonzero, destFocus.remain, srcFocus.remain,
        Option.bind_eq_bind, Option.bind_some, countEq, destFocus.current, srcFocus.current,
        srcAllowed, destAllowed, Bool.and_self, if_true, loadEq, storeEq, destMovedEq, srcMovedEq,
        remaining]
    · have destCase : ∃ blocks, CursorAt destMoved blocks ∧ blocks ≤ destBlocks ∧
          ((count : Int) = destBlk.data + destBlk.size - dest.blkOffset →
            blocks < destBlocks) := by
        by_cases whole : (count : Int) = destBlk.data + destBlk.size - dest.blkOffset
        · exact ⟨_, (destLeaves whole).1, by omega, by omega⟩
        · exact ⟨_, destStays (by omega), by omega, by omega⟩
      have srcCase : ∃ blocks, CursorAt srcMoved blocks ∧ blocks ≤ srcBlocks ∧
          ((count : Int) = srcBlk.data + srcBlk.size - src.blkOffset → blocks < srcBlocks) := by
        by_cases whole : (count : Int) = srcBlk.data + srcBlk.size - src.blkOffset
        · exact ⟨_, (srcLeaves whole).1, by omega, by omega⟩
        · exact ⟨_, .inside (srcStays (by omega)), by omega, by omega⟩
      obtain ⟨destLeft, destAt, destLe, destLt⟩ := destCase
      obtain ⟨srcLeft, srcAt, srcLe, srcLt⟩ := srcCase
      refine ⟨destLeft, srcLeft, destAt, srcAt, ?_⟩
      rcases ends with all | destWhole | srcWhole
      · exact .inl (List.length_eq_zero_iff.mp (by omega))
      · exact .inr (Nat.add_lt_add_of_lt_of_le (destLt destWhole) srcLe)
      · exact .inr (Nat.add_lt_add_of_le_of_lt destLe (srcLt srcWhole))
  · rw [destMovedContent, List.append_assoc]

theorem copyLoop_spec (destWindows : Windows dest.blkList) (srcWindows : Windows src.blkList)
    (destCursor : CursorAt dest destBlocks) (srcCursor : CursorAt src srcBlocks)
    (enough : destBlocks + srcBlocks ≤ passes)
    (destContent : dest.content = destBefore ++ (old ++ destLater))
    (destLength : (destBefore.length : Int) = dest.pos)
    (srcContent : src.content = srcBefore ++ (bytes ++ srcLater))
    (srcLength : (srcBefore.length : Int) = src.pos)
    (sameLength : old.length = bytes.length) :
    ∃ dest' src', (∀ guard : Guard, guard.Admits →
        guardedCopyLoop guard passes dest src bytes.length = some (dest', src')) ∧
      Current dest' ∧ Current src' ∧ dest'.pos = dest.pos + bytes.length ∧
      src'.pos = src.pos + bytes.length ∧ src'.blkList = src.blkList ∧
      dest'.content = destBefore ++ (bytes ++ destLater) := by
  induction passes generalizing dest src destBlocks srcBlocks destBefore old srcBefore bytes with
  | zero =>
      have none : bytes = [] := by
        by_contra more
        obtain ⟨front, blk, behind, -, count⟩ :=
          srcCursor.focus srcWindows srcContent srcLength (by simp [more])
        omega
      subst none
      have noOld : old = [] := List.length_eq_zero_iff.mp sameLength
      exact ⟨dest, src, by simp [guardedCopyLoop], ⟨_, destCursor⟩, ⟨_, srcCursor⟩, by simp,
        by simp, rfl, by simp [destContent, noOld]⟩
  | succ passes ih =>
      by_cases none : bytes = []
      · subst none
        have noOld : old = [] := List.length_eq_zero_iff.mp sameLength
        exact ⟨dest, src, by simp [guardedCopyLoop], ⟨_, destCursor⟩, ⟨_, srcCursor⟩, by simp,
          by simp, rfl, by simp [destContent, noOld]⟩
      obtain ⟨first, second, oldSecond, destMoved, srcMoved, rfl, restLength, pass,
        destMovedContent⟩ := copyPass_spec destWindows srcWindows destCursor srcCursor destContent
          destLength srcContent srcLength sameLength none
      obtain ⟨destLeft, srcLeft, destAt, srcAt, fewer⟩ := pass.cursors
      have destPos := pass.destPos
      have srcPos := pass.srcPos
      have srcMovedContent : srcMoved.content = (srcBefore ++ first) ++ (second ++ srcLater) := by
        rw [Pktbuf.content, pass.srcBlks, ← Pktbuf.content, srcContent, List.append_assoc,
          List.append_assoc]
      have restLoop : ∃ dest' src', (∀ guard : Guard, guard.Admits →
            guardedCopyLoop guard passes destMoved srcMoved second.length =
              some (dest', src')) ∧
          Current dest' ∧ Current src' ∧ dest'.pos = destMoved.pos + second.length ∧
          src'.pos = srcMoved.pos + second.length ∧ src'.blkList = srcMoved.blkList ∧
          dest'.content = (destBefore ++ first) ++ (second ++ destLater) := by
        rcases fewer with nothing | fewer
        · subst nothing
          have noOld : oldSecond = [] := List.length_eq_zero_iff.mp restLength
          exact ⟨destMoved, srcMoved, by simp [guardedCopyLoop_nothing], ⟨_, destAt⟩, ⟨_, srcAt⟩,
            by simp, by simp, rfl, by rw [destMovedContent, noOld]⟩
        · refine ih (windows_of_frames pass.layout.frames destWindows)
            (by rw [pass.srcBlks]; exact srcWindows) destAt srcAt (by omega) destMovedContent ?_
            srcMovedContent ?_ restLength
          · rw [List.length_append, destPos]
            omega
          · rw [List.length_append, srcPos]
            omega
      obtain ⟨dest', src', loopEq, destCurrent, srcCurrent, destPos', srcPos', srcBlks',
        destContent'⟩ := restLoop
      refine ⟨dest', src', ?_, destCurrent, srcCurrent, ?_, ?_, srcBlks'.trans pass.srcBlks, ?_⟩
      · intro guard admits
        rw [pass.loop passes guard admits]
        exact loopEq guard admits
      · rw [destPos', destPos, List.length_append]
        omega
      · rw [srcPos', srcPos, List.length_append]
        omega
      · rw [destContent', List.append_assoc, List.append_assoc]

theorem CursorAt.le_length {buf : Pktbuf} {blocks : Nat} (cursor : CursorAt buf blocks) :
    blocks ≤ buf.blkList.length := by
  cases cursor with
  | inside focus =>
      rw [focus.blks]
      simp
  | atEnd => exact Nat.zero_le _

theorem Current.copy_guarded {size : Int} (destHolds : dest.WellFormed) (srcHolds : src.WellFormed)
    (destCurrent : Current dest) (srcCurrent : Current src) (nonneg : 0 ≤ size)
    (destRoom : size ≤ totalBlkRemain dest) (srcRoom : size ≤ totalBlkRemain src) :
    ∃ dest' src', (∀ guard : Guard, guard.Admits →
        guardedCopyLoop guard (dest.blkList.length + src.blkList.length) dest src size =
          some (dest', src')) ∧
      Current dest' ∧ Current src' ∧ SameLayout dest dest' ∧ SameLayout src src' ∧
      dest'.pos = dest.pos + size ∧ src'.pos = src.pos + size ∧
      src'.blkList = src.blkList ∧
      dest'.content = overwrite dest.content dest.pos.toNat
        ((src.content.drop src.pos.toNat).take size.toNat) := by
  obtain ⟨destNonneg, destUpper, destLength⟩ := destCurrent.split destHolds
  obtain ⟨srcNonneg, srcUpper, srcLength⟩ := srcCurrent.split srcHolds
  have destTotal := destHolds.length_content
  have srcTotal := srcHolds.length_content
  obtain ⟨destBlocks, destAt⟩ := destCurrent
  obtain ⟨srcBlocks, srcAt⟩ := srcCurrent
  have enoughDest := destAt.le_length
  have enoughSrc := srcAt.le_length
  simp only [totalBlkRemain] at destRoom srcRoom
  have bytesLength : ((src.content.drop src.pos.toNat).take size.toNat).length = size.toNat := by
    rw [List.length_take, List.length_drop]
    omega
  have oldLength : ((dest.content.drop dest.pos.toNat).take size.toNat).length = size.toNat := by
    rw [List.length_take, List.length_drop]
    omega
  obtain ⟨dest', src', loopEq, destCurrent', srcCurrent', destPos, srcPos, srcBlks, content⟩ :=
    @copyLoop_spec dest src (dest.blkList.length + src.blkList.length) destBlocks srcBlocks
      (dest.content.take dest.pos.toNat) ((dest.content.drop dest.pos.toNat).take size.toNat)
      ((dest.content.drop dest.pos.toNat).drop size.toNat) (src.content.take src.pos.toNat)
      ((src.content.drop src.pos.toNat).take size.toNat)
      ((src.content.drop src.pos.toNat).drop size.toNat) destHolds.windows srcHolds.windows
      destAt srcAt (by omega) (by simp only [List.take_append_drop]) destLength
      (by simp only [List.take_append_drop]) srcLength (oldLength.trans bytesLength.symm)
  rw [bytesLength, Int.toNat_of_nonneg nonneg] at loopEq destPos srcPos
  obtain ⟨destLayout, srcLayout⟩ := copyLoop_layout
    (guardedCopyLoop_everywhere ▸ loopEq .everywhere Guard.everywhere_admits)
  refine ⟨dest', src', loopEq, destCurrent', srcCurrent', destLayout, srcLayout, destPos, srcPos,
    srcBlks, ?_⟩
  rw [content, overwrite, bytesLength, List.drop_drop]

theorem pktbufCopy_spec {size : Int} (destHolds : dest.WellFormed) (srcHolds : src.WellFormed)
    (destCurrent : Current dest) (srcCurrent : Current src) (nonneg : 0 ≤ size)
    (destRoom : size ≤ totalBlkRemain dest) (srcRoom : size ≤ totalBlkRemain src) :
    ∃ dest' src', pktbufCopy dest src size = some (.ok, dest', src') ∧
      Current dest' ∧ Current src' ∧ SameLayout dest dest' ∧ SameLayout src src' ∧
      dest'.pos = dest.pos + size ∧ src'.pos = src.pos + size ∧
      src'.blkList = src.blkList ∧
      dest'.content = overwrite dest.content dest.pos.toNat
        ((src.content.drop src.pos.toNat).take size.toNat) := by
  obtain ⟨dest', src', loopEq, rest⟩ :=
    destCurrent.copy_guarded destHolds srcHolds srcCurrent nonneg destRoom srcRoom
  have fits : ¬ (totalBlkRemain dest < size ∨ totalBlkRemain src < size) := by omega
  have plain := loopEq .everywhere Guard.everywhere_admits
  rw [guardedCopyLoop_everywhere] at plain
  refine ⟨dest', src', ?_, rest⟩
  simp only [pktbufCopy, if_neg fits, plain, Option.bind_eq_bind, Option.bind_some]

end Copy

end CleanOS.Net
