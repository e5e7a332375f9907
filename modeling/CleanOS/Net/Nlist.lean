import CleanOS.Lib.FieldMemory
import CleanOS.Lib.Segment

/-!
# Lists of the network

`kernel/net/nlist.c` keeps a list as pointers to its first and last node and a counter; the
nodes are embedded in packets, entries and sockets.  The functions follow the source over an
arbitrary link memory, and `none` stands for a null pointer that is dereferenced.
-/

namespace CleanOS.Net

open CleanOS.Lib LinkMemory

/-- `nlist_t`. -/
structure Nlist (α : Type) where
  first : Option α
  last : Option α
  count : Int

namespace Nlist

variable {σ α : Type} [LinkMemory σ α]

/-- `nlist_init`. -/
def nlistInit : Nlist α where
  first := none
  last := none
  count := 0

/-- `nlist_insert_first`. -/
def nlistInsertFirst (memory : σ) (list : Nlist α) (node : α) : Option (σ × Nlist α) :=
  let memory := setNext memory node list.first
  let memory := setPre memory node none
  if list.count = 0 then
    some (memory, { first := some node, last := some node, count := list.count + 1 })
  else do
    let first ← list.first
    let memory := setPre memory first (some node)
    return (memory, { list with first := some node, count := list.count + 1 })

/-- `nlist_insert_last`. -/
def nlistInsertLast (memory : σ) (list : Nlist α) (node : α) : Option (σ × Nlist α) :=
  let memory := setPre memory node list.last
  let memory := setNext memory node none
  if list.count = 0 then
    some (memory, { first := some node, last := some node, count := list.count + 1 })
  else do
    let last ← list.last
    let memory := setNext memory last (some node)
    return (memory, { list with last := some node, count := list.count + 1 })

variable [DecidableEq α]

/-- `nlist_insert_after`, where the node before is called `pre` in the source. -/
def nlistInsertAfter (memory : σ) (list : Nlist α) (before node : α) : Option (σ × Nlist α) :=
  if list.count = 0 then nlistInsertFirst memory list node
  else
    let memory := setNext memory node (next memory before)
    let memory := setPre memory node (some before)
    let memory := linkPre memory (next memory before) (some node)
    let memory := setNext memory before (some node)
    let last := if list.last = some before then some node else list.last
    some (memory, { list with last := last, count := list.count + 1 })

/-- `nlist_remove`, which returns the node that it is given. -/
def nlistRemove (memory : σ) (list : Nlist α) (removeNode : α) : σ × Nlist α :=
  let first := if some removeNode = list.first then next memory removeNode else list.first
  let last := if some removeNode = list.last then pre memory removeNode else list.last
  let memory := linkNext memory (pre memory removeNode) (next memory removeNode)
  let memory := linkPre memory (next memory removeNode) (pre memory removeNode)
  let memory := setNext memory removeNode none
  let memory := setPre memory removeNode none
  (memory, { first := first, last := last, count := list.count - 1 })

/-- `nlist_remove_first`. -/
def nlistRemoveFirst (memory : σ) (list : Nlist α) : Option α × σ × Nlist α :=
  match list.first with
  | none => (none, memory, list)
  | some first => (some first, nlistRemove memory list first)

/-- `nlist_remove_last`. -/
def nlistRemoveLast (memory : σ) (list : Nlist α) : Option α × σ × Nlist α :=
  match list.last with
  | none => (none, memory, list)
  | some last => (some last, nlistRemove memory list last)

structure Holds (memory : σ) (list : Nlist α) (nodes : List α) : Prop where
  first : list.first = nodes.head?
  last : list.last = nodes.getLast?
  count : list.count = nodes.length
  segment : Segment memory none nodes none
  apart : nodes.Pairwise (Apart σ)

/-- The nodes from a pointer on, along one of the two fields, end with these. -/
inductive Chain (field : α → Option α) : Option α → List α → Prop where
  | null : Chain field none []
  | node {node : α} {rest : List α} :
      Chain field (field node) rest → Chain field (some node) (node :: rest)

section Operations

variable {memory : σ} {list : Nlist α} {nodes front back : List α} {node before : α}

omit [DecidableEq α] in
theorem nlistInit_holds (memory : σ) : Holds memory (nlistInit : Nlist α) [] where
  first := rfl
  last := rfl
  count := rfl
  segment := trivial
  apart := .nil

omit [DecidableEq α] in
theorem Holds.count_ne (holds : Holds memory list nodes) (some : nodes ≠ []) :
    list.count ≠ 0 := by
  have length := List.length_pos_of_ne_nil some
  rw [holds.count]
  omega

variable [Lawful σ]

omit [DecidableEq α] in
theorem nlistInsertFirst_holds (holds : Holds memory list nodes)
    (fresh : ∀ other ∈ nodes, Apart σ node other) :
    ∃ after grown, nlistInsertFirst memory list node = some (after, grown) ∧
      Holds after grown (node :: nodes) ∧
      Writes (fun other => other = node ∨ other ∈ nodes) memory after := by
  obtain ⟨written, isWritten⟩ : ∃ written, setPre (setNext memory node nodes.head?) node none =
    written := ⟨_, rfl⟩
  have writes : Writes (fun other => other = node ∨ other ∈ nodes) memory written := by
    rw [← isWritten]
    exact .setPre none (.setNext nodes.head? (.refl memory) (.inl rfl)) (.inl rfl)
  have kept : Segment written none nodes none := by
    refine holds.segment.congr ?_
    intro other member
    have away := Lawful.apart_symm (fresh other member)
    rw [← isWritten]
    simp [away]
  have isPre : pre written node = none := by
    rw [← isWritten]
    exact Lawful.pre_setPre_self _ node none
  have isNext : next written node = nodes.head? := by
    rw [← isWritten, Lawful.next_setPre_self]
    exact Lawful.next_setNext_self memory node nodes.head?
  have headFresh : ∀ other ∈ nodes.head?, Apart σ node other :=
    fun other isHead => fresh other (List.mem_of_head? isHead)
  obtain ⟨samePre, sameNext⟩ := linkPre_fields written (some node) headFresh
  refine ⟨linkPre written nodes.head? (some node), ⟨some node, (node :: nodes).getLast?,
    list.count + 1⟩, ?_, ⟨rfl, rfl, ?_, ⟨samePre.trans isPre, ?_, ?_⟩, ?_⟩, ?_⟩
  · rw [nlistInsertFirst, holds.first, isWritten]
    cases nodes with
    | nil =>
        have none : list.count = 0 := holds.count
        rw [if_pos none]
        rfl
    | cons first rest =>
        rw [if_neg (holds.count_ne (List.cons_ne_nil first rest)), List.getLast?_cons_cons,
          ← holds.last]
        rfl
  · rw [holds.count]
    rfl
  · rw [Option.or_none]
    exact sameNext.trans isNext
  · exact kept.linkPre holds.apart (some node)
  · exact List.pairwise_cons.mpr ⟨fresh, holds.apart⟩
  · exact Writes.linkPre writes (fun other isHead => .inr (List.mem_of_head? isHead)) (some node)

omit [DecidableEq α] in
theorem nlistInsertLast_holds (holds : Holds memory list nodes)
    (fresh : ∀ other ∈ nodes, Apart σ node other) :
    ∃ after grown, nlistInsertLast memory list node = some (after, grown) ∧
      Holds after grown (nodes ++ [node]) ∧
      Writes (fun other => other = node ∨ other ∈ nodes) memory after := by
  obtain ⟨written, isWritten⟩ : ∃ written, setNext (setPre memory node nodes.getLast?) node none =
    written := ⟨_, rfl⟩
  have writes : Writes (fun other => other = node ∨ other ∈ nodes) memory written := by
    rw [← isWritten]
    exact .setNext none (.setPre nodes.getLast? (.refl memory) (.inl rfl)) (.inl rfl)
  have kept : Segment written none nodes none := by
    refine holds.segment.congr ?_
    intro other member
    have away := Lawful.apart_symm (fresh other member)
    rw [← isWritten]
    simp [away]
  have isPre : pre written node = nodes.getLast? := by
    rw [← isWritten, Lawful.pre_setNext_self]
    exact Lawful.pre_setPre_self memory node nodes.getLast?
  have isNext : next written node = none := by
    rw [← isWritten]
    exact Lawful.next_setNext_self _ node none
  have lastFresh : ∀ other ∈ nodes.getLast?, Apart σ node other :=
    fun other isLast => fresh other (List.mem_of_getLast? isLast)
  obtain ⟨samePre, sameNext⟩ := linkNext_fields written (some node) lastFresh
  refine ⟨linkNext written nodes.getLast? (some node), ⟨(nodes ++ [node]).head?, some node,
    list.count + 1⟩, ?_, ⟨rfl, List.getLast?_concat.symm, ?_, ?_, ?_⟩, ?_⟩
  · rw [nlistInsertLast, holds.last, isWritten]
    rcases List.eq_nil_or_concat' nodes with rfl | ⟨front, last, rfl⟩
    · have none : list.count = 0 := holds.count
      rw [if_pos none]
      rfl
    · have nonempty : front ++ [last] ≠ [] :=
        List.append_ne_nil_of_right_ne_nil front (List.cons_ne_nil last [])
      have isFirst : list.first = (front ++ [last] ++ [node]).head? := by
        rw [holds.first, List.head?_append_of_ne_nil _ nonempty]
      rw [if_neg (holds.count_ne nonempty), List.getLast?_concat, ← isFirst]
      rfl
  · rw [holds.count, List.length_append]
    rfl
  · refine segment_append.mpr ⟨kept.linkNext holds.apart (some node), ?_, ?_, trivial⟩
    · rw [Option.or_none]
      exact samePre.trans isPre
    · exact sameNext.trans isNext
  · refine List.pairwise_append.mpr ⟨holds.apart, List.pairwise_singleton _ node, ?_⟩
    intro other member only isNode
    rw [List.mem_singleton.mp isNode]
    exact Lawful.apart_symm (fresh other member)
  · exact Writes.linkNext writes (fun other isLast => .inr (List.mem_of_getLast? isLast))
      (some node)

omit [DecidableEq α] in
theorem Holds.around (holds : Holds memory list (front ++ node :: back)) :
    Segment memory none front (some node) ∧ pre memory node = front.getLast? ∧
      next memory node = back.head? ∧ Segment memory (some node) back none ∧
      (∀ other ∈ front ++ back, Apart σ node other) ∧ (front ++ back).Pairwise (Apart σ) ∧
      ∀ other ∈ front, ∀ later ∈ back, Apart σ other later := by
  obtain ⟨frontSegment, isPre, isNext, backSegment⟩ := segment_append.mp holds.segment
  obtain ⟨frontApart, nodeApart, across⟩ := List.pairwise_append.mp holds.apart
  obtain ⟨nodeBack, backApart⟩ := List.pairwise_cons.mp nodeApart
  have betweenParts : ∀ other ∈ front, ∀ later ∈ back, Apart σ other later :=
    fun other inFront later inBack =>
      across other inFront later (List.mem_cons_of_mem node inBack)
  rw [Option.or_none] at isPre isNext
  refine ⟨frontSegment, isPre, isNext, backSegment, ?_, ?_, betweenParts⟩
  · intro other member
    rcases List.mem_append.mp member with inFront | inBack
    · exact Lawful.apart_symm (across other inFront node List.mem_cons_self)
    · exact nodeBack other inBack
  · exact List.pairwise_append.mpr ⟨frontApart, backApart, betweenParts⟩

theorem Holds.newFirst (holds : Holds memory list (front ++ node :: back)) :
    (if some node = list.first then back.head? else list.first) = (front ++ back).head? := by
  have isFirst := holds.first
  cases front with
  | nil => exact if_pos isFirst.symm
  | cons first rest =>
      obtain ⟨-, -, -, -, away, -⟩ := holds.around
      have isAway := away first List.mem_cons_self
      have different : some node ≠ list.first := by
        intro same
        rw [isFirst] at same
        rw [← Option.some.inj same] at isAway
        exact Lawful.apart_irrefl node isAway
      rw [if_neg different]
      exact isFirst

theorem Holds.newLast (holds : Holds memory list (front ++ node :: back)) :
    (if some node = list.last then front.getLast? else list.last) = (front ++ back).getLast? := by
  have isLast := holds.last
  rw [List.getLast?_append_of_ne_nil _ (List.cons_ne_nil node back)] at isLast
  cases back with
  | nil =>
      rw [List.append_nil]
      exact if_pos isLast.symm
  | cons next rest =>
      obtain ⟨-, -, -, -, away, -⟩ := holds.around
      rw [List.getLast?_cons_cons] at isLast
      have different : some node ≠ list.last := by
        intro same
        rw [isLast] at same
        have isAway := away node (List.mem_append_right front (List.mem_of_getLast? same.symm))
        exact Lawful.apart_irrefl node isAway
      rw [if_neg different, isLast, List.getLast?_append_of_ne_nil _ (List.cons_ne_nil next rest)]

theorem nlistRemove_holds (holds : Holds memory list (front ++ node :: back)) :
    ∃ after shrunk, nlistRemove memory list node = (after, shrunk) ∧
      Holds after shrunk (front ++ back) ∧
      Writes (fun other => other ∈ front ++ node :: back) memory after ∧
      pre after node = none ∧ next after node = none := by
  obtain ⟨frontSegment, isPre, isNext, backSegment, away, apart, across⟩ := holds.around
  obtain ⟨frontApart, backApart, -⟩ := List.pairwise_append.mp apart
  have lastAway : ∀ other ∈ front.getLast?, Apart σ node other :=
    fun other isLast => away other (List.mem_append_left back (List.mem_of_getLast? isLast))
  obtain ⟨samePre, sameNext⟩ := linkNext_fields memory back.head? lastAway
  obtain ⟨linked, isLinked⟩ : ∃ linked, linkPre (linkNext memory front.getLast? back.head?)
    back.head? front.getLast? = linked := ⟨_, rfl⟩
  -- the parts are linked to each other
  have frontKept : Segment linked none front back.head? := by
    rw [← isLinked]
    refine (frontSegment.linkNext frontApart back.head?).congr ?_
    intro other inFront
    exact linkPre_fields _ _ fun later isHead => across other inFront later (List.mem_of_head? isHead)
  have backKept : Segment linked front.getLast? back none := by
    rw [← isLinked]
    refine Segment.linkPre (backSegment.congr ?_) backApart front.getLast?
    intro other inBack
    exact linkNext_fields memory _ fun last isLast =>
      Lawful.apart_symm (across last (List.mem_of_getLast? isLast) other inBack)
  have cleared : ∀ other ∈ front ++ back,
      pre (setPre (setNext linked node none) node none) other = pre linked other ∧
        next (setPre (setNext linked node none) node none) other = next linked other := by
    intro other member
    have isAway := Lawful.apart_symm (away other member)
    simp [isAway]
  refine ⟨setPre (setNext linked node none) node none, ⟨(front ++ back).head?,
    (front ++ back).getLast?, list.count - 1⟩, ?_, ⟨rfl, rfl, ?_, ?_, apart⟩, ?_, ?_, ?_⟩
  · rw [nlistRemove, isPre, isNext, sameNext, samePre, isNext, isPre, isLinked, holds.newFirst,
      holds.newLast]
  · show list.count - 1 = _
    rw [holds.count, List.length_append, List.length_append, List.length_cons]
    omega
  · refine segment_append.mpr ⟨?_, ?_⟩
    · rw [Option.or_none]
      exact frontKept.congr fun other inFront => cleared other (List.mem_append_left back inFront)
    · rw [Option.or_none]
      exact backKept.congr fun other inBack => cleared other (List.mem_append_right front inBack)
  · have linkedWrites : Writes (fun other => other ∈ front ++ node :: back) memory linked := by
      rw [← isLinked]
      refine Writes.linkPre (Writes.linkNext (.refl memory) ?_ back.head?) ?_ front.getLast?
      · intro other isLast
        exact List.mem_append_left _ (List.mem_of_getLast? isLast)
      · intro other isHead
        exact List.mem_append_right front (List.mem_cons_of_mem node (List.mem_of_head? isHead))
    exact .setPre none (.setNext none linkedWrites List.mem_append_cons_self)
      List.mem_append_cons_self
  · exact Lawful.pre_setPre_self _ node none
  · rw [Lawful.next_setPre_self]
    exact Lawful.next_setNext_self linked node none

theorem nlistInsertAfter_holds (holds : Holds memory list (front ++ before :: back))
    (fresh : ∀ other ∈ front ++ before :: back, Apart σ node other) :
    ∃ after grown, nlistInsertAfter memory list before node = some (after, grown) ∧
      Holds after grown (front ++ before :: node :: back) ∧
      Writes (fun other => other = node ∨ other ∈ front ++ before :: back) memory after := by
  obtain ⟨-, -, isNext, backSegment, away, -, -⟩ := holds.around
  have split : front ++ before :: back = (front ++ [before]) ++ back := by
    rw [List.append_assoc, List.singleton_append]
  have resplit : front ++ before :: node :: back = (front ++ [before]) ++ node :: back := by
    rw [List.append_assoc, List.singleton_append]
  obtain ⟨upTo, -⟩ := segment_append.mp (split ▸ holds.segment)
  obtain ⟨upToApart, backApart, across⟩ := List.pairwise_append.mp (split ▸ holds.apart)
  have inUpTo : ∀ other ∈ front ++ [before], other ∈ front ++ before :: back := by
    intro other member
    rw [split]
    exact List.mem_append_left back member
  have inBack : ∀ other ∈ back, other ∈ front ++ before :: back := by
    intro other member
    rw [split]
    exact List.mem_append_right _ member
  have nodeBefore : Apart σ node before := fresh before List.mem_append_cons_self
  have beforeNode := Lawful.apart_symm nodeBefore
  obtain ⟨written, isWritten⟩ : ∃ written,
    setPre (setNext memory node back.head?) node (some before) = written := ⟨_, rfl⟩
  have same : ∀ other ∈ front ++ before :: back,
      pre written other = pre memory other ∧ next written other = next memory other := by
    intro other member
    have isAway := Lawful.apart_symm (fresh other member)
    rw [← isWritten]
    simp [isAway]
  have isPre : pre written node = some before := by
    rw [← isWritten]
    exact Lawful.pre_setPre_self _ node (some before)
  have nodeNext : next written node = back.head? := by
    rw [← isWritten, Lawful.next_setPre_self]
    exact Lawful.next_setNext_self memory node back.head?
  have headFresh : ∀ other ∈ back.head?, Apart σ node other :=
    fun other isHead => fresh other (inBack other (List.mem_of_head? isHead))
  obtain ⟨linked, isLinked⟩ : ∃ linked, linkPre written back.head? (some node) = linked :=
    ⟨_, rfl⟩
  obtain ⟨linkedPre, linkedNext⟩ := linkPre_fields written (some node) headFresh
  rw [isLinked] at linkedPre linkedNext
  have backKept : Segment linked (some node) back none := by
    rw [← isLinked]
    exact (backSegment.congr fun other member => same other (inBack other member)).linkPre
      backApart (some node)
  have upToKept : Segment linked none (front ++ [before]) (back.head?.or none) := by
    refine (upTo.congr fun other member => same other (inUpTo other member)).congr ?_
    intro other member
    rw [← isLinked]
    exact linkPre_fields written _ fun later isHead =>
      across other member later (List.mem_of_head? isHead)
  have writes : Writes (fun other => other = node ∨ other ∈ front ++ before :: back) memory
      (setNext linked before (some node)) := by
    have writtenWrites : Writes (fun other => other = node ∨ other ∈ front ++ before :: back)
        memory written := by
      rw [← isWritten]
      exact .setPre _ (.setNext _ (.refl memory) (.inl rfl)) (.inl rfl)
    have linkedWrites := Writes.linkPre writtenWrites
      (fun other isHead => .inr (inBack other (List.mem_of_head? isHead))) (some node)
    rw [isLinked] at linkedWrites
    exact .setNext _ linkedWrites (.inr List.mem_append_cons_self)
  have joined := upToKept.linkNext upToApart (some node)
  rw [List.getLast?_concat] at joined
  refine ⟨setNext linked before (some node), ⟨list.first,
    if list.last = some before then some node else list.last, list.count + 1⟩, ?_,
    ⟨?_, ?_, ?_, ?_, ?_⟩, writes⟩
  · have afterBefore : next written before = back.head? := by
      rw [(same before List.mem_append_cons_self).2, isNext]
    have nonempty : front ++ before :: back ≠ [] :=
      List.append_ne_nil_of_right_ne_nil front (List.cons_ne_nil before back)
    rw [nlistInsertAfter, if_neg (holds.count_ne nonempty), isNext]
    dsimp only
    rw [isWritten, afterBefore, isLinked]
  · show list.first = _
    rw [holds.first]
    cases front with
    | nil => rfl
    | cons first rest => rfl
  · show (if list.last = some before then some node else list.last) = _
    have isLast := holds.last
    rw [List.getLast?_append_of_ne_nil _ (List.cons_ne_nil before back)] at isLast
    rw [List.getLast?_append_of_ne_nil _ (List.cons_ne_nil before _), List.getLast?_cons_cons]
    cases back with
    | nil => exact if_pos isLast
    | cons later rest =>
        rw [List.getLast?_cons_cons] at isLast
        have different : list.last ≠ some before := by
          intro isBefore
          rw [isLast] at isBefore
          have isAway := away before (List.mem_append_right front (List.mem_of_getLast? isBefore))
          exact Lawful.apart_irrefl before isAway
        rw [if_neg different, List.getLast?_cons_cons]
        exact isLast
  · show list.count + 1 = _
    rw [holds.count, List.length_append, List.length_append, List.length_cons, List.length_cons,
      List.length_cons]
    omega
  · rw [resplit]
    refine segment_append.mpr ⟨joined, ?_, ?_, backKept.congr ?_⟩
    · rw [List.getLast?_concat, Lawful.pre_setNext_apart _ _ nodeBefore, linkedPre, isPre]
      rfl
    · rw [Lawful.next_setNext_apart _ _ nodeBefore, linkedNext, nodeNext, Option.or_none]
    · intro other member
      have isAway := Lawful.apart_symm
        (across before (List.mem_append_right front (List.mem_singleton_self before)) other member)
      exact ⟨Lawful.pre_setNext_apart linked _ isAway, Lawful.next_setNext_apart linked _ isAway⟩
  · rw [resplit]
    refine List.pairwise_append.mpr ⟨upToApart, List.pairwise_cons.mpr ⟨?_, backApart⟩, ?_⟩
    · intro other member
      exact fresh other (inBack other member)
    · intro other member later isLater
      rcases List.mem_cons.mp isLater with rfl | isBack
      · exact Lawful.apart_symm (fresh other (inUpTo other member))
      · exact across other member later isBack

theorem nlistRemoveFirst_holds (holds : Holds memory list nodes) :
    ∃ after shrunk, nlistRemoveFirst memory list = (nodes.head?, after, shrunk) ∧
      Holds after shrunk nodes.tail ∧ Writes (fun other => other ∈ nodes) memory after := by
  cases nodes with
  | nil =>
      have none := holds.first
      refine ⟨memory, list, ?_, holds, .refl memory⟩
      rw [nlistRemoveFirst, none]
      rfl
  | cons first rest =>
      have isFirst := holds.first
      obtain ⟨after, shrunk, removed, shrunkHolds, writes, -, -⟩ :=
        @nlistRemove_holds _ _ _ _ memory list [] rest first _ holds
      refine ⟨after, shrunk, ?_, shrunkHolds, writes⟩
      rw [nlistRemoveFirst, isFirst, List.head?_cons]
      dsimp only
      rw [removed]

theorem nlistRemoveLast_holds (holds : Holds memory list nodes) :
    ∃ after shrunk, nlistRemoveLast memory list = (nodes.getLast?, after, shrunk) ∧
      Holds after shrunk nodes.dropLast ∧ Writes (fun other => other ∈ nodes) memory after := by
  rcases List.eq_nil_or_concat' nodes with rfl | ⟨front, last, rfl⟩
  · have none := holds.last
    refine ⟨memory, list, ?_, holds, .refl memory⟩
    rw [nlistRemoveLast, none]
    rfl
  · have isLast := holds.last
    obtain ⟨after, shrunk, removed, shrunkHolds, writes, -, -⟩ := nlistRemove_holds holds
    rw [List.append_nil] at shrunkHolds
    refine ⟨after, shrunk, ?_, ?_, writes⟩
    · rw [nlistRemoveLast, isLast, List.getLast?_concat]
      dsimp only
      rw [removed]
    · rwa [List.dropLast_concat]

omit [DecidableEq α] [Lawful σ] in
theorem chain_next {before : Option α} (segment : Segment memory before nodes none) :
    Chain (next memory) nodes.head? nodes := by
  induction nodes generalizing before with
  | nil => exact .null
  | cons node rest ih =>
      obtain ⟨-, isNext, segment⟩ := segment
      have later := ih segment
      rw [Option.or_none] at isNext
      rw [← isNext] at later
      exact .node later

omit [DecidableEq α] [Lawful σ] in
theorem chain_pre {behind : Option α} (segment : Segment memory none nodes behind) :
    Chain (pre memory) nodes.getLast? nodes.reverse := by
  induction nodes using List.reverseRecOn generalizing behind with
  | nil => exact .null
  | append_singleton front last ih =>
      obtain ⟨segment, isPre, -⟩ := segment_append.mp segment
      have later := ih segment
      rw [Option.or_none] at isPre
      rw [← isPre] at later
      rw [List.getLast?_concat, List.reverse_append, List.reverse_singleton,
        List.singleton_append]
      exact .node later

end Operations

end Nlist

/-- The operations, each on one of the lists. -/
inductive NlistOp (α ι : Type) where
  | insertFirst (list : ι) (node : α)
  | insertLast (list : ι) (node : α)
  | insertAfter (list : ι) (before node : α)
  | remove (list : ι) (node : α)
  | removeFirst (list : ι)
  | removeLast (list : ι)

namespace NlistOp

variable {α ι : Type}

def list : NlistOp α ι → ι
  | .insertFirst list _ | .insertLast list _ | .insertAfter list _ _ => list
  | .remove list _ | .removeFirst list | .removeLast list => list

variable [DecidableEq α]

def call (memory : FieldMemory α) (list : Nlist α) :
    NlistOp α ι → Option (Option α × FieldMemory α × Nlist α)
  | .insertFirst _ node => (list.nlistInsertFirst memory node).map fun after => (none, after)
  | .insertLast _ node => (list.nlistInsertLast memory node).map fun after => (none, after)
  | .insertAfter _ before node =>
      (list.nlistInsertAfter memory before node).map fun after => (none, after)
  | .remove _ node => some (some node, list.nlistRemove memory node)
  | .removeFirst _ => some (list.nlistRemoveFirst memory)
  | .removeLast _ => some (list.nlistRemoveLast memory)

def putBehind (before node : α) : List α → List α
  | [] => []
  | first :: rest =>
      if first = before then first :: node :: rest else first :: putBehind before node rest

def apply (nodes : List α) : NlistOp α ι → List α
  | .insertFirst _ node => node :: nodes
  | .insertLast _ node => nodes ++ [node]
  | .insertAfter _ before node => putBehind before node nodes
  | .remove _ node => nodes.erase node
  | .removeFirst _ => nodes.tail
  | .removeLast _ => nodes.dropLast

def answer (nodes : List α) : NlistOp α ι → Option α
  | .insertFirst _ _ | .insertLast _ _ | .insertAfter _ _ _ => none
  | .remove _ node => some node
  | .removeFirst _ => nodes.head?
  | .removeLast _ => nodes.getLast?

def Allowed (contents : ι → List α) : NlistOp α ι → Prop
  | .insertFirst _ node | .insertLast _ node => ∀ other, node ∉ contents other
  | .insertAfter list before node => before ∈ contents list ∧ ∀ other, node ∉ contents other
  | .remove list node => node ∈ contents list
  | .removeFirst _ | .removeLast _ => True

theorem putBehind_append {before node : α} {front back : List α} (notBefore : before ∉ front) :
    putBehind before node (front ++ before :: back) = front ++ before :: node :: back := by
  induction front with
  | nil => exact if_pos rfl
  | cons first rest ih =>
      have different : first ≠ before := by
        rintro rfl
        exact notBefore List.mem_cons_self
      rw [List.cons_append, putBehind, if_neg different,
        ih fun member => notBefore (List.mem_cons_of_mem first member)]
      rfl

end NlistOp

/-- The memory of the nodes, and the lists. -/
structure Nlists (α ι : Type) where
  memory : FieldMemory α
  lists : ι → Nlist α

namespace Nlists

variable {α ι : Type} [DecidableEq α] [DecidableEq ι]

def step (state : Nlists α ι) (op : NlistOp α ι) : Option (Option α × Nlists α ι) := do
  let (answer, memory, list) ← op.call state.memory (state.lists op.list)
  return (answer, ⟨memory, Function.update state.lists op.list list⟩)

def run : Nlists α ι → List (NlistOp α ι) → Option (List (Option α) × Nlists α ι)
  | state, [] => some ([], state)
  | state, op :: ops => do
      let (answer, state) ← state.step op
      let (answers, state) ← run state ops
      return (answer :: answers, state)

def applyTo (contents : ι → List α) (op : NlistOp α ι) : ι → List α :=
  Function.update contents op.list (op.apply (contents op.list))

def answers : (ι → List α) → List (NlistOp α ι) → List (Option α)
  | _, [] => []
  | contents, op :: ops => op.answer (contents op.list) :: answers (applyTo contents op) ops

def AllAllowed : (ι → List α) → List (NlistOp α ι) → Prop
  | _, [] => True
  | contents, op :: ops => op.Allowed contents ∧ AllAllowed (applyTo contents op) ops

structure Represents (state : Nlists α ι) (contents : ι → List α) : Prop where
  holds : ∀ list, Nlist.Holds state.memory (state.lists list) (contents list)
  disjoint : ∀ {list other}, list ≠ other → ∀ node ∈ contents list, node ∉ contents other

variable {state : Nlists α ι} {contents : ι → List α}

theorem Represents.update (represents : state.Represents contents) {list : ι}
    {touched : α → Prop} {after : FieldMemory α} {changed : Nlist α} {nodes : List α}
    (holds : Nlist.Holds after changed nodes)
    (writes : LinkMemory.Writes touched state.memory after)
    (outside : ∀ node, touched node → ∀ other, other ≠ list → node ∉ contents other)
    (members : ∀ node ∈ nodes, touched node) :
    Represents ⟨after, Function.update state.lists list changed⟩
      (Function.update contents list nodes) := by
  constructor
  · intro other
    by_cases same : other = list
    · subst same
      dsimp only
      rw [Function.update_self, Function.update_self]
      exact holds
    · dsimp only
      rw [Function.update_of_ne same, Function.update_of_ne same]
      have kept := represents.holds other
      refine ⟨kept.first, kept.last, kept.count, kept.segment.congr ?_, kept.apart⟩
      intro member inOther
      apply writes.frame
      intro written isTouched equal
      subst equal
      exact outside member isTouched other same inOther
  · intro first second different member inFirst inSecond
    by_cases isFirst : first = list
    · subst isFirst
      rw [Function.update_self] at inFirst
      rw [Function.update_of_ne (Ne.symm different)] at inSecond
      exact outside member (members member inFirst) second (Ne.symm different) inSecond
    · rw [Function.update_of_ne isFirst] at inFirst
      by_cases isSecond : second = list
      · subst isSecond
        rw [Function.update_self] at inSecond
        exact outside member (members member inSecond) first isFirst inFirst
      · rw [Function.update_of_ne isSecond] at inSecond
        exact represents.disjoint different member inFirst inSecond

omit [DecidableEq ι] in
theorem Represents.outside (represents : state.Represents contents) {list : ι} :
    ∀ node, node ∈ contents list → ∀ other, other ≠ list → node ∉ contents other := by
  intro node member other different
  exact represents.disjoint (Ne.symm different) node member

omit [DecidableEq ι] in
theorem Represents.outside_fresh (represents : state.Represents contents) {list : ι} {fresh : α}
    (isFresh : ∀ other, fresh ∉ contents other) :
    ∀ node, node = fresh ∨ node ∈ contents list → ∀ other, other ≠ list →
      node ∉ contents other := by
  rintro node (rfl | member) other different
  · exact isFresh other
  · exact represents.outside node member other different

theorem step_call {op : NlistOp α ι} {answer : Option α} {memory : FieldMemory α}
    {list : Nlist α}
    (called : op.call state.memory (state.lists op.list) = some (answer, memory, list)) :
    state.step op = some (answer, ⟨memory, Function.update state.lists op.list list⟩) := by
  rw [step, called]
  rfl

theorem fresh_apart {node : α} {nodes : List α} (isFresh : node ∉ nodes) :
    ∀ other ∈ nodes, LinkMemory.Apart (FieldMemory α) node other := by
  intro other member same
  subst same
  exact isFresh member

theorem Represents.step (represents : state.Represents contents) {op : NlistOp α ι}
    (allowed : op.Allowed contents) :
    ∃ after, state.step op = some (op.answer (contents op.list), after) ∧
      after.Represents (applyTo contents op) := by
  cases op with
  | insertFirst list node =>
      obtain ⟨memory, grown, inserted, holds, writes⟩ :=
        Nlist.nlistInsertFirst_holds (represents.holds list) (fresh_apart (allowed list))
      refine ⟨_, step_call ?_,
        represents.update holds writes (represents.outside_fresh allowed) ?_⟩
      · exact congrArg (Option.map _) inserted
      · intro other member
        exact List.mem_cons.mp member
  | insertLast list node =>
      obtain ⟨memory, grown, inserted, holds, writes⟩ :=
        Nlist.nlistInsertLast_holds (represents.holds list) (fresh_apart (allowed list))
      refine ⟨_, step_call ?_,
        represents.update holds writes (represents.outside_fresh allowed) ?_⟩
      · exact congrArg (Option.map _) inserted
      · intro other member
        rcases List.mem_append.mp member with inList | isNode
        · exact .inr inList
        · exact .inl (List.mem_singleton.mp isNode)
  | insertAfter list before node =>
      obtain ⟨inList, isFresh⟩ := allowed
      obtain ⟨front, back, split, notBefore⟩ := List.eq_append_cons_of_mem inList
      have isApart := fresh_apart (isFresh list)
      rw [split] at isApart
      obtain ⟨memory, grown, inserted, holds, writes⟩ :=
        Nlist.nlistInsertAfter_holds (split ▸ represents.holds list) isApart
      have put : NlistOp.putBehind before node (contents list) = front ++ before :: node :: back := by
        rw [split, NlistOp.putBehind_append notBefore]
      rw [← put] at holds
      rw [← split] at writes
      refine ⟨_, step_call ?_,
        represents.update holds writes (represents.outside_fresh isFresh) ?_⟩
      · exact congrArg (Option.map _) inserted
      · intro other member
        replace member : other ∈ NlistOp.putBehind before node (contents list) := member
        rw [put] at member
        rw [split]
        simp only [List.mem_append, List.mem_cons] at member ⊢
        tauto
  | remove list node =>
      obtain ⟨front, back, split, notNode⟩ := List.eq_append_cons_of_mem allowed
      obtain ⟨memory, shrunk, removed, holds, writes, -⟩ :=
        Nlist.nlistRemove_holds (split ▸ represents.holds list)
      have erased : (contents list).erase node = front ++ back := by
        rw [split, List.erase_append_right _ notNode, List.erase_cons_head]
      rw [← erased] at holds
      rw [← split] at writes
      refine ⟨_, step_call ?_, represents.update holds writes represents.outside ?_⟩
      · exact congrArg (fun after => some (some node, after)) removed
      · intro other member
        exact List.mem_of_mem_erase member
  | removeFirst list =>
      obtain ⟨memory, shrunk, removed, holds, writes⟩ :=
        Nlist.nlistRemoveFirst_holds (represents.holds list)
      refine ⟨_, step_call ?_, represents.update holds writes represents.outside ?_⟩
      · exact congrArg some removed
      · intro other member
        exact List.mem_of_mem_tail member
  | removeLast list =>
      obtain ⟨memory, shrunk, removed, holds, writes⟩ :=
        Nlist.nlistRemoveLast_holds (represents.holds list)
      refine ⟨_, step_call ?_, represents.update holds writes represents.outside ?_⟩
      · exact congrArg some removed
      · intro other member
        exact List.dropLast_subset _ member

theorem Represents.run {ops : List (NlistOp α ι)} (represents : state.Represents contents)
    (allowed : AllAllowed contents ops) :
    ∃ after, state.run ops = some (answers contents ops, after) ∧
      after.Represents (ops.foldl applyTo contents) := by
  induction ops generalizing state contents with
  | nil => exact ⟨state, rfl, represents⟩
  | cons op ops ih =>
      obtain ⟨isAllowed, allowed⟩ := allowed
      obtain ⟨next, stepped, represents⟩ := represents.step isAllowed
      obtain ⟨after, ran, represents⟩ := ih represents allowed
      refine ⟨after, ?_, represents⟩
      rw [Nlists.run, stepped, Option.bind_eq_bind, Option.bind_some]
      dsimp only
      rw [ran]
      rfl

omit [DecidableEq ι] in
theorem represents_init (memory : FieldMemory α) :
    Represents ⟨memory, fun _ : ι => .nlistInit⟩ fun _ => [] where
  holds _ := Nlist.nlistInit_holds memory
  disjoint _ _ member := absurd member List.not_mem_nil

/-- From empty lists on, the two chains of each list are one sequence in both directions, its
length is the count, and the operations are those on sequences. -/
theorem nlists_sequences (memory : FieldMemory α) (ops : List (NlistOp α ι))
    (allowed : AllAllowed (fun _ => []) ops) :
    ∃ after contents,
      run ⟨memory, fun _ => .nlistInit⟩ ops = some (answers (fun _ => []) ops, after) ∧
      contents = ops.foldl applyTo (fun _ => []) ∧
      ∀ list, Nlist.Chain after.memory.next (after.lists list).first (contents list) ∧
        Nlist.Chain after.memory.pre (after.lists list).last (contents list).reverse ∧
        (after.lists list).count = (contents list).length := by
  obtain ⟨after, ran, represents⟩ := Represents.run (represents_init memory) allowed
  refine ⟨after, _, ran, rfl, ?_⟩
  intro list
  have holds := represents.holds list
  refine ⟨?_, ?_, holds.count⟩
  · rw [holds.first]
    exact Nlist.chain_next holds.segment
  · rw [holds.last]
    exact Nlist.chain_pre holds.segment

theorem nlists_sequences_twoLists :
    let ops : List (NlistOp Nat Bool) := [.insertFirst false 1, .insertLast false 2,
      .insertAfter false 1 3, .removeFirst false, .insertFirst true 1, .remove false 3]
    ∃ after contents, run ⟨⟨fun _ => some 7, fun _ => none⟩, fun _ => .nlistInit⟩ ops =
        some ([none, none, none, some 1, none, some 3], after) ∧
      contents = ops.foldl applyTo (fun _ => []) ∧
      ∀ list, Nlist.Chain after.memory.next (after.lists list).first (contents list) ∧
        Nlist.Chain after.memory.pre (after.lists list).last (contents list).reverse ∧
        (after.lists list).count = (contents list).length := by
  refine nlists_sequences _ _ ⟨?_, ?_, ⟨?_, ?_⟩, trivial, ?_, ?_, trivial⟩
  · show ∀ list : Bool, _ ∉ _
    decide
  · show ∀ list : Bool, _ ∉ _
    decide
  · show _ ∈ _
    decide
  · show ∀ list : Bool, _ ∉ _
    decide
  · show ∀ list : Bool, _ ∉ _
    decide
  · show _ ∈ _
    decide

end Nlists

end CleanOS.Net
