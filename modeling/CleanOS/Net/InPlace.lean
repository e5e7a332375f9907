import CleanOS.Net.IpHeader

/-!
# Headers that are read and written in place

The bytes at `pktbuf_data`, where the protocols read and write their headers, as bytes of the
contents of a packet, and what `pktbuf_set_cont`, `pktbuf_add_header` and `pktbuf_remove_header`
do to the first block, which holds them.
-/

namespace CleanOS.Net

/-- Bytes at an offset from `pktbuf_data`. -/
def dataAt (buf : Pktbuf) (offset count : Int) : Option (List UInt8) := do
  let first ← buf.blkList.head?
  first.load (first.data + offset) count

/-- Bytes at an offset from `pktbuf_data` are written. -/
def setDataAt (buf : Pktbuf) (offset : Int) (bytes : List UInt8) : Option Pktbuf :=
  match buf.blkList with
  | [] => none
  | first :: rest => do
      let first ← first.store (first.data + offset) bytes
      some { buf with blkList := first :: rest }

/-- The bytes that a header of some size is put into: those in front of the first window, or the
last ones of a free block. -/
def headerBytes (buf : Pktbuf) (free : List Pktblk) (size : Int) : Option (List UInt8) :=
  match buf.blkList with
  | [] => none
  | first :: _ =>
      if size ≤ first.data then
        some (slice first.payload (first.data - size).toNat size.toNat)
      else free.head?.map fun blk =>
        slice blk.payload (pktbufBlkSize - size).toNat size.toNat

def Pktbuf.Starts (buf : Pktbuf) (data size : Int) : Prop :=
  ∃ first rest, buf.blkList = first :: rest ∧ first.data = data ∧ first.size = size

def Pktbuf.Filled (buf : Pktbuf) : Prop :=
  ∀ blk ∈ buf.blkList, 0 < blk.size

section Overwrite

variable {content bytes : List UInt8} {pos count : Nat}

theorem length_overwrite (inside : pos + bytes.length ≤ content.length) :
    (overwrite content pos bytes).length = content.length := by
  simp only [overwrite, List.length_append, List.length_take, List.length_drop]
  omega

theorem overwrite_at (inside : pos + bytes.length ≤ content.length) :
    ((overwrite content pos bytes).drop pos).take bytes.length = bytes := by
  have before : (content.take pos).length = pos := by
    rw [List.length_take]
    omega
  rw [overwrite, List.drop_left' before, List.take_left]

theorem overwrite_behind (inside : pos + bytes.length ≤ content.length)
    (behind : pos + bytes.length ≤ count) :
    (overwrite content pos bytes).drop count = content.drop count := by
  have split : count = pos + (bytes.length + (count - pos - bytes.length)) := by omega
  have before : (content.take pos).length = pos := by
    rw [List.length_take]
    omega
  rw [overwrite, split, ← List.drop_drop, List.drop_left' before, ← List.drop_drop,
    List.drop_left, List.drop_drop]
  congr 1
  omega

end Overwrite

section InPlace

variable {buf after : Pktbuf} {data size offset count : Int}

theorem SameLayout.starts (same : SameLayout buf after) (starts : buf.Starts data size) :
    after.Starts data size := by
  obtain ⟨first, rest, blks, dataEq, sizeEq⟩ := starts
  have frames := same.frames
  simp only [blks, blkFrames, List.map_cons] at frames
  obtain ⟨first', rest', blks', frame, -⟩ := List.map_eq_cons_iff.mp frames
  simp only [Pktblk.frame, Prod.mk.injEq] at frame
  exact ⟨first', rest', blks', frame.2.2.trans dataEq, frame.2.1.trans sizeEq⟩

theorem SameLayout.filled (same : SameLayout buf after) (filled : buf.Filled) :
    after.Filled := by
  intro blk member
  obtain ⟨other, otherMember, sizeEq, -⟩ := mem_of_frames same.frames member
  exact sizeEq ▸ filled other otherMember

theorem dataAt_eq (windows : Windows buf.blkList) (starts : buf.Starts data size)
    (lower : 0 ≤ offset) (nonneg : 0 ≤ count) (upper : offset + count ≤ size) :
    dataAt buf offset count = some ((buf.content.drop offset.toNat).take count.toNat) := by
  obtain ⟨first, rest, blks, rfl, rfl⟩ := starts
  rw [blks, windows_cons] at windows
  have data := windows.1.data
  have inside := windows.1.inside
  have long : offset.toNat + count.toNat ≤ first.window.length := by
    rw [Pktblk.length_window]
    omega
  have window := Pktblk.window_drop windows.1 lower (by omega)
  simp only [dataAt, blks, List.head?_cons, Option.bind_eq_bind, Option.bind_some,
    Pktbuf.content, blksContent_cons]
  rw [Pktblk.load_inside (by omega) nonneg (by omega), List.drop_append_of_le_length (by omega),
    List.take_append_of_le_length (by rw [List.length_drop]; omega), ← window, Pktblk.window]
  have split : (first.size - offset).toNat =
      count.toNat + (first.size - offset - count).toNat := by omega
  simp only
  rw [split, slice_add, List.take_left' length_slice]

theorem setDataAt_layout {bytes : List UInt8} (written : setDataAt buf offset bytes = some after) :
    SameLayout buf after := by
  unfold setDataAt at written
  split at written
  · cases written
  · rename_i first rest blks
    obtain ⟨stored, storeEq, isAfter⟩ := Option.bind_eq_some_iff.mp written
    have frame := Pktblk.store_frame storeEq
    cases isAfter
    exact ⟨rfl, by simp only [blks, blkFrames, List.map_cons, frame], rfl⟩

theorem setDataAt_spec {bytes : List UInt8} (windows : Windows buf.blkList)
    (starts : buf.Starts data size) (lower : 0 ≤ offset) (upper : offset + bytes.length ≤ size) :
    ∃ after, setDataAt buf offset bytes = some after ∧ SameLayout buf after ∧
      after.content = overwrite buf.content offset.toNat bytes ∧ after.pos = buf.pos ∧
      after.currBlk = buf.currBlk ∧ after.blkOffset = buf.blkOffset := by
  obtain ⟨first, rest, blks, rfl, rfl⟩ := starts
  rw [blks, windows_cons] at windows
  obtain ⟨payload, storeEq, window⟩ := @Pktblk.store_window first offset bytes windows.1 lower upper
  have inWindow : offset.toNat + bytes.length ≤ first.window.length := by
    rw [Pktblk.length_window]
    omega
  refine ⟨{ buf with blkList := { first with payload := payload } :: rest }, ?_,
    ⟨rfl, by simp [blks, blkFrames, Pktblk.frame], rfl⟩, ?_, rfl, rfl, rfl⟩
  · simp only [setDataAt, blks, storeEq, Option.bind_eq_bind, Option.bind_some]
  · simp only [Pktbuf.content, blks, blksContent_cons, window, overwrite]
    rw [List.take_append_of_le_length (by omega), List.drop_append_of_le_length inWindow,
      List.append_assoc, List.append_assoc]

theorem Pktbuf.Starts.leads (starts : buf.Starts data size) (enough : count ≤ size) :
    buf.Leads count := by
  obtain ⟨first, rest, blks, -, rfl⟩ := starts
  exact ⟨first, rest, blks, enough⟩

theorem Pktbuf.Leads.starts (leads : buf.Leads count) :
    ∃ data size, buf.Starts data size ∧ count ≤ size := by
  obtain ⟨first, rest, blks, enough⟩ := leads
  exact ⟨_, _, ⟨first, rest, blks, rfl, rfl⟩, enough⟩

theorem Pktbuf.Starts.unique {data' size' : Int} (starts : buf.Starts data size)
    (others : buf.Starts data' size') : data = data' ∧ size = size' := by
  obtain ⟨first, rest, blks, rfl, rfl⟩ := starts
  obtain ⟨first', rest', blks', rfl, rfl⟩ := others
  rw [blks] at blks'
  cases blks'
  exact ⟨rfl, rfl⟩

theorem Pktbuf.Starts.le_length (starts : buf.Starts data size) (holds : buf.WellFormed) :
    size ≤ buf.content.length := by
  obtain ⟨first, rest, blks, -, rfl⟩ := starts
  have length := holds.length_content
  have sizes := holds.total
  have windows := holds.windows
  rw [blks, windows_cons] at windows
  rw [blks, blksSize_cons] at sizes
  have nonneg := windows.2.size_nonneg
  omega

theorem Pktbuf.Starts.not_windows (starts : buf.Starts data size) (negative : data < 0) :
    ¬ Windows buf.blkList := by
  obtain ⟨first, rest, blks, rfl, -⟩ := starts
  intro windows
  have inPayload := windows first (by rw [blks]; exact List.mem_cons_self)
  exact absurd inPayload.data (Int.not_le.mpr negative)

end InPlace

section Contiguous

variable {buf after : Pktbuf} {data size count : Int} {free left : List Pktblk}

theorem moveToStart_frame {blk moved : Pktblk} {passes : Nat}
    (ran : moveToStart blk passes = some moved) : moved.frame = blk.frame := by
  induction passes generalizing moved with
  | zero =>
      cases ran
      rfl
  | succ passes ih =>
      obtain ⟨before, ranBefore, ran⟩ := Option.bind_eq_some_iff.mp ran
      obtain ⟨bytes, -, stored⟩ := Option.bind_eq_some_iff.mp ran
      exact (Pktblk.store_frame stored).trans (ih ranBefore)

theorem setContLoop_blks {first filled : Pktblk} {remain : Int} {blks kept : List Pktblk}
    (ran : setContLoop first remain blks free = some (filled, kept, left)) :
    filled.id = first.id ∧ filled.data = first.data ∧ blkIds kept <:+ blkIds blks ∧
      ((∀ blk ∈ blks, 0 < blk.size) → 0 ≤ remain →
        first.size ≤ filled.size ∧ ∀ blk ∈ kept, 0 < blk.size) := by
  induction blks generalizing first remain free with
  | nil =>
      cases ran
      exact ⟨rfl, rfl, List.suffix_refl _, fun _ _ => ⟨Int.le_refl _, nofun⟩⟩
  | cons curr rest ih =>
      unfold setContLoop at ran
      split at ran
      · cases ran
        exact ⟨rfl, rfl, List.suffix_refl _, fun filled _ => ⟨Int.le_refl _, filled⟩⟩
      · obtain ⟨currSize, currSizeEq⟩ :
            ∃ currSize, (if curr.size > remain then remain else curr.size) = currSize := ⟨_, rfl⟩
        have bounds : currSize ≤ remain ∧ currSize ≤ curr.size ∧
            (0 ≤ remain → 0 ≤ curr.size → 0 ≤ currSize) := by
          split at currSizeEq <;> omega
        simp only [currSizeEq] at ran
        obtain ⟨bytes, -, ran⟩ := Option.bind_eq_some_iff.mp ran
        obtain ⟨grown, storeEq, ran⟩ := Option.bind_eq_some_iff.mp ran
        have frame := Pktblk.store_frame storeEq
        simp only [Pktblk.frame, Prod.mk.injEq] at frame
        obtain ⟨id, size, data⟩ := frame
        split at ran
        next used =>
          obtain ⟨filledId, filledData, suffix, sizes⟩ := ih ran
          refine ⟨filledId.trans id, filledData.trans data,
            suffix.trans (List.suffix_cons _ _), fun filled nonneg => ?_⟩
          have positive := filled curr List.mem_cons_self
          obtain ⟨grows, kept⟩ := sizes
            (fun blk member => filled blk (List.mem_cons_of_mem _ member)) (by omega)
          simp only at grows
          exact ⟨by omega, kept⟩
        next unused =>
          cases ran
          refine ⟨id, data, List.suffix_refl _, fun filled nonneg => ?_⟩
          have positive := filled curr List.mem_cons_self
          simp only at unused ⊢
          refine ⟨by omega, List.forall_mem_cons.mpr ⟨?_, ?_⟩⟩
          · simp only
            omega
          · exact fun blk inRest => filled blk (List.mem_cons_of_mem _ inRest)

/-- What `pktbuf_set_cont` does to the blocks: nothing, or the first one, which was too small,
then starts at the start of its payload. -/
theorem pktbufSetCont_blks {err : NetErr}
    (ran : pktbufSetCont buf size free = some (err, after, left)) :
    (blkIds after.blkList).Sublist (blkIds buf.blkList) ∧ (buf.Filled → after.Filled) ∧
      (after = buf ∨ (∃ first rest, buf.blkList = first :: rest ∧ first.size < size) ∧
        ∃ grown, after.Starts 0 grown) := by
  have unchanged : after = buf → (blkIds after.blkList).Sublist (blkIds buf.blkList) ∧
      (buf.Filled → after.Filled) ∧
      (after = buf ∨ (∃ first rest, buf.blkList = first :: rest ∧ first.size < size) ∧
        ∃ grown, after.Starts 0 grown) := by
    rintro rfl
    exact ⟨List.Sublist.refl _, id, .inl rfl⟩
  unfold pktbufSetCont at ran
  split at ran
  · cases ran
    exact unchanged rfl
  · split at ran
    · cases ran
      exact unchanged rfl
    · split at ran
      · cases ran
      · rename_i first rest blks
        split at ran
        · cases ran
          exact unchanged rfl
        · rename_i small
          obtain ⟨moved, moveEq, ran⟩ := Option.bind_eq_some_iff.mp ran
          obtain ⟨⟨filled, kept, left'⟩, loopEq, ran⟩ := Option.bind_eq_some_iff.mp ran
          cases ran
          have frame := moveToStart_frame moveEq
          simp only [Pktblk.frame, Prod.mk.injEq] at frame
          obtain ⟨id, data, suffix, sizes⟩ := setContLoop_blks loopEq
          simp only at id data sizes
          rw [Pktbuf.Filled, Pktbuf.Filled, blks]
          refine ⟨?_, ?_, .inr ⟨⟨first, rest, rfl, by omega⟩, _, filled, kept, rfl, data, rfl⟩⟩
          · simp only [blkIds_cons, id, frame.1]
            exact suffix.sublist.cons_cons _
          · intro allFilled
            have positive := allFilled first List.mem_cons_self
            obtain ⟨grows, keptFilled⟩ := sizes
              (fun blk member => allFilled blk (List.mem_cons_of_mem _ member)) (by omega)
            exact List.forall_mem_cons.mpr ⟨by omega, keptFilled⟩

theorem pktbufSetCont_refused (refused : buf.totalSize < size ∨ pktbufBlkSize < size) :
    pktbufSetCont buf size free = some (.size, buf, free) := by
  unfold pktbufSetCont
  by_cases long : size > buf.totalSize
  · rw [if_pos long]
  · rw [if_neg long, if_pos (refused.resolve_left long)]

theorem pktbufRemoveHeader_first (starts : buf.Starts data size) (within : count < size) :
    ∃ kept, pktbufRemoveHeader buf count free = some (.ok, kept, free) ∧
      kept.Starts (data + count) (size - count) ∧ blkIds kept.blkList = blkIds buf.blkList ∧
      kept.pos = buf.pos ∧ (buf.Filled → kept.Filled) := by
  obtain ⟨first, rest, blks, rfl, rfl⟩ := starts
  have removeEq : pktbufRemoveHeader buf count free = some (.ok, { buf with
      totalSize := buf.totalSize - count
      blkList := { first with data := first.data + count, size := first.size - count } :: rest },
      free) := by
    by_cases zero : count = 0
    · subst zero
      simp only [pktbufRemoveHeader, removeHeaderLoop, blks, if_true, Int.sub_zero, Int.add_zero]
      rfl
    · simp only [pktbufRemoveHeader, removeHeaderLoop, blks, if_neg zero, if_pos within]
      rfl
  refine ⟨_, removeEq, ⟨_, rest, rfl, rfl, rfl⟩, by simp [blks], rfl, ?_⟩
  intro filled
  rw [Pktbuf.Filled, blks] at filled
  refine List.forall_mem_cons.mpr ⟨?_, fun blk member => filled blk (List.mem_cons_of_mem _ member)⟩
  simp only
  omega

theorem pktbufAddHeader_room {cont : Bool} (holds : buf.WellFormed) (starts : buf.Starts data size)
    (lower : 0 ≤ count) (room : count ≤ data) :
    ∃ grown, pktbufAddHeader buf count cont free = some (.ok, grown, free) ∧
      grown.WellFormed ∧ grown.Starts (data - count) (size + count) ∧
      blkIds grown.blkList = blkIds buf.blkList ∧
      ∃ front, front.length = count.toNat ∧ grown.content = front ++ buf.content := by
  obtain ⟨first, rest, blks, rfl, rfl⟩ := starts
  obtain ⟨reshaped, front, frontLength, content⟩ :=
    @Reshaped.extendFront buf first rest free count holds blks lower room
  refine ⟨_, ?_, reshaped.wellFormed, ⟨_, rest, rfl, rfl, rfl⟩, by simp [blks], front,
    frontLength, content⟩
  simp only [pktbufAddHeader, blks, if_pos room]

theorem pktbufRemoveHeader_back (holds : buf.WellFormed) (starts : buf.Starts data size)
    (lower : 0 ≤ count) (room : count ≤ data) :
    pktbufRemoveHeader buf (-count) free = pktbufAddHeader buf count true free := by
  obtain ⟨first, rest, blks, rfl, rfl⟩ := starts
  by_cases zero : -count = 0
  · obtain rfl : count = 0 := by omega
    simp only [pktbufRemoveHeader, removeHeaderLoop, pktbufAddHeader, blks, if_pos room,
      Int.neg_zero, if_true, Int.sub_zero, Int.add_zero]
    rfl
  · have nonneg := holds.windows first (by rw [blks]; exact List.mem_cons_self) |>.size
    have within : -count < first.size := by omega
    simp only [pktbufRemoveHeader, removeHeaderLoop, pktbufAddHeader, blks, if_pos room,
      if_neg zero, if_pos within, Int.sub_neg, ← Int.sub_eq_add_neg]
    rfl

end Contiguous

section Resize

variable {buf after : Pktbuf} {data size toSize : Int} {free left : List Pktblk}

theorem allocLoop_filled {addFront : Bool} {chain chain' : List Pktblk} (nonneg : 0 ≤ size)
    (filled : ∀ blk ∈ chain, 0 < blk.size)
    (ran : pktblockAllocLoop addFront size chain free = (chain', left)) :
    ∀ blk ∈ chain', 0 < blk.size := by
  induction free generalizing size chain with
  | nil =>
      unfold pktblockAllocLoop at ran
      split at ran
      · cases ran
        exact filled
      · cases ran
        exact fun blk member => absurd member List.not_mem_nil
  | cons block free ih =>
      unfold pktblockAllocLoop at ran
      split at ran
      · cases ran
        exact filled
      · rename_i nonzero
        obtain ⟨currSize, currSizeEq⟩ :
            ∃ currSize, (if size > pktbufBlkSize then pktbufBlkSize else size) = currSize :=
          ⟨_, rfl⟩
        have bounds : 0 < currSize ∧ currSize ≤ size := by
          simp only [pktbufBlkSize] at currSizeEq
          split at currSizeEq <;> omega
        simp only [currSizeEq] at ran
        split at ran
        · refine ih (by omega) ?_ ran
          exact List.forall_mem_cons.mpr ⟨bounds.1, filled⟩
        · refine ih (by omega) ?_ ran
          intro blk member
          rcases List.mem_append.mp member with old | new
          · exact filled blk old
          · rw [List.mem_singleton.mp new]
            exact bounds.1

theorem findTailBlk_split {total : Int} {blks front behind : List Pktblk} {tail : Pktblk}
    (found : findTailBlk toSize total blks = some (front, tail, behind)) :
    blks = front ++ tail :: behind ∧ (front = [] ∨ total + blksSize front < toSize) := by
  induction blks generalizing total front with
  | nil => cases found
  | cons block rest ih =>
      unfold findTailBlk at found
      split at found
      · cases found
        exact ⟨rfl, .inl rfl⟩
      · rename_i notYet
        obtain ⟨⟨front', tail', behind'⟩, restFound, same⟩ := Option.map_eq_some_iff.mp found
        cases same
        obtain ⟨split, before⟩ := ih restFound
        refine ⟨by rw [split]; rfl, .inr ?_⟩
        rcases before with rfl | shorter
        · simp only [blksSize_cons, blksSize_nil]
          omega
        · simp only [blksSize_cons]
          omega

theorem starts_of_append {front : List Pktblk} {tail tail' : Pktblk} {behind behind' : List Pktblk}
    (blks : buf.blkList = front ++ tail :: behind) (blks' : after.blkList = front ++ tail' :: behind')
    (same : tail'.data = tail.data) (starts : buf.Starts data size) :
    ∃ size', after.Starts data size' := by
  obtain ⟨first, rest, firstBlks, rfl, -⟩ := starts
  rw [blks] at firstBlks
  cases front with
  | nil =>
      cases firstBlks
      exact ⟨_, tail', behind', blks', same, rfl⟩
  | cons other front =>
      cases firstBlks
      exact ⟨_, first, _, blks', rfl, rfl⟩

theorem pktbufResize_blks {err : NetErr} (holds : buf.WellFormed) (filled : buf.Filled)
    (starts : buf.Starts data size)
    (ran : pktbufResize buf toSize free = some (err, after, left)) :
    (0 < toSize → after.Filled) ∧ ∃ size', after.Starts data size' := by
  have total := holds.total
  have someSize : buf.totalSize ≠ 0 := by
    obtain ⟨first, rest, blks, -, rfl⟩ := starts
    have windows := holds.windows
    rw [blks, windows_cons] at windows
    have nonneg := windows.2.size_nonneg
    have firstFilled := filled first (by rw [blks]; exact List.mem_cons_self)
    rw [total, blks, blksSize_cons]
    omega
  unfold pktbufResize at ran
  split at ran
  · cases ran
    exact ⟨fun _ => filled, size, starts⟩
  · split at ran
    next larger =>
      split at ran
      · cases ran
      next tailBlk last =>
        have split : buf.blkList = buf.blkList.dropLast ++ [tailBlk] := by
          obtain ⟨front, blks⟩ := List.getLast?_eq_some_iff.mp last
          rw [blks, List.dropLast_concat]
        have tailFilled := filled tailBlk (by rw [split]; simp)
        have frontFilled (blk : Pktblk) (member : blk ∈ buf.blkList.dropLast) : 0 < blk.size :=
          filled blk (List.dropLast_subset _ member)
        have tailRoom := holds.windows tailBlk (by rw [split]; simp) |>.inside
        dsimp only at ran
        split at ran
        next enough =>
          cases ran
          refine ⟨?_, starts_of_append split rfl rfl starts⟩
          intro _ blk member
          rcases List.mem_append.mp member with old | new
          · exact frontFilled blk old
          · rw [List.mem_singleton.mp new]
            simp only
            omega
        next short =>
          split at ran
          · cases ran
            exact ⟨fun _ => filled, size, starts⟩
          next chain free' notNone chainEq =>
            cases ran
            have chainFilled := allocLoop_filled (by omega) (List.forall_mem_nil _) chainEq
            refine ⟨?_, ?_⟩
            · intro _ blk member
              rcases List.mem_append.mp member with old | new
              · rcases List.mem_append.mp old with before | grown
                · exact frontFilled blk before
                · rw [List.mem_singleton.mp grown]
                  simp only [currBlkTailFree]
                  omega
              · exact chainFilled blk new
            · exact starts_of_append split (List.append_assoc _ _ _) rfl starts
    next smaller =>
      split at ran
      · cases ran
        exact ⟨fun _ => filled, size, starts⟩
      next front tailBlk behind found =>
        cases ran
        obtain ⟨split, before⟩ := findTailBlk_split found
        refine ⟨?_, starts_of_append split rfl rfl starts⟩
        intro positive blk member
        rcases List.mem_append.mp member with old | new
        · exact filled blk (by rw [split]; exact List.mem_append_left _ old)
        · rw [List.mem_singleton.mp new, total, split]
          simp only [blksSize_append, blksSize_cons]
          rcases before with rfl | shorter
          · simp only [blksSize_nil]
            omega
          · omega

end Resize

section Header

variable {buf : Pktbuf} {free : List Pktblk} {size : Int} {header : List UInt8}

theorem pktbufAddHeader_bytes (holds : buf.WellFormed) (positive : 0 < size)
    (small : size ≤ pktbufBlkSize) (room : headerBytes buf free size = some header) :
    ∃ after left, pktbufAddHeader buf size true free = some (.ok, after, left) ∧
      Reshaped buf free after left ∧ after.totalSize = buf.totalSize + size ∧
      (∃ data long, after.Starts data long ∧ size ≤ long) ∧ (buf.Filled → after.Filled) ∧
      header.length = size.toNat ∧ after.content = header ++ buf.content := by
  rw [headerBytes] at room
  split at room
  · cases room
  · next first rest blks =>
      have windows := holds.windows
      rw [blks, windows_cons] at windows
      have sizeNonneg := windows.1.size
      split at room
      · next fits =>
          obtain rfl := Option.some.inj room
          have reshaped := (@Reshaped.extendFront buf first rest free size holds blks
            (Int.le_of_lt positive) fits).left
          refine ⟨_, free, ?_, reshaped, rfl, ⟨_, _, ⟨_, rest, rfl, rfl, rfl⟩, ?_⟩, ?_, ?_,
            content_grown holds blks (Int.le_of_lt positive) fits⟩
          · simp only [pktbufAddHeader, blks, if_pos fits]
          · exact Int.le_add_of_nonneg_left sizeNonneg
          · intro filled blk member
            rcases List.mem_cons.mp member with rfl | inRest
            · exact Int.lt_of_lt_of_le positive (Int.le_add_of_nonneg_left sizeNonneg)
            · exact filled blk (blks ▸ List.mem_cons_of_mem _ inRest)
          · simp
      · next full =>
          obtain ⟨blk, isHead, rfl⟩ := Option.map_eq_some_iff.mp room
          obtain ⟨others, rfl⟩ : ∃ others, free = blk :: others := by
            cases free with
            | nil => cases isHead
            | cons other others =>
                obtain rfl := Option.some.inj isHead
                exact ⟨others, rfl⟩
          have chainEq : pktblockAllocList size true (blk :: others) =
              ([{ blk with size := size, data := pktbufBlkSize - size }], others) := by
            have nonzero : size ≠ 0 := by omega
            have notLarge : ¬ size > pktbufBlkSize := by omega
            rw [pktblockAllocList, pktblockAllocLoop, if_neg nonzero, if_neg notLarge, if_pos rfl,
              Int.sub_self]
            cases others <;> rfl
          have allocated : Allocated size (blk :: others)
              [{ blk with size := size, data := pktbufBlkSize - size }] others := by
            refine ⟨by simp, ?_, List.Perm.refl _, by simp, ?_⟩
            · rw [windows_cons]
              refine ⟨⟨?_, Int.le_of_lt positive, ?_⟩, windows_nil⟩ <;> simp only <;> omega
            · simp only [pktbufBlkSize, List.length_singleton] at small ⊢
              omega
          have notLarge : ¬ size > pktbufBlkSize := by omega
          refine ⟨_, others, ?_, .insert holds false allocated, ?_,
            ⟨_, _, ⟨_, _, rfl, rfl, rfl⟩, Int.le_refl size⟩, ?_, ?_, ?_⟩
          · simp only [pktbufAddHeader, blks, if_neg full, if_true, if_neg notLarge, chainEq]
          · simp [pktbufInsertBlkList]
          · intro filled block member
            rcases List.mem_cons.mp member with rfl | inPacket
            · exact positive
            · exact filled block inPacket
          · simp
          · simp [pktbufInsertBlkList, Pktbuf.content, Pktblk.window]

theorem pktbufAddHeader_full (nonempty : buf.blkList ≠ []) (small : size ≤ pktbufBlkSize)
    (positive : 0 < size) (full : headerBytes buf free size = none) :
    pktbufAddHeader buf size true free = some (.none, buf, []) := by
  obtain ⟨first, rest, blks⟩ := List.exists_cons_of_ne_nil nonempty
  simp only [headerBytes, blks] at full
  split at full
  · cases full
  · next noRoom =>
      have noBlock : free = [] := List.head?_eq_none_iff.mp (Option.map_eq_none_iff.mp full)
      have notLarge : ¬ size > pktbufBlkSize := by omega
      have nonzero : size ≠ 0 := by omega
      have chainEq : pktblockAllocList size true [] = ([], []) := if_neg nonzero
      rw [noBlock]
      simp only [pktbufAddHeader, blks, if_neg noRoom, if_true, if_neg notLarge, chainEq]

end Header

end CleanOS.Net
