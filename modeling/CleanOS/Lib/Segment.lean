import CleanOS.Lib.LinkMemory

/-!
# Segments of linked nodes

A segment is a sequence of nodes whose fields lead from each to its neighbours, and at its ends
to a node before and a node behind, or to null.  Segments are cut and joined, and writing the
outer field of an end node moves the end.
-/

namespace CleanOS.Lib

open LinkMemory

variable {σ α : Type} [LinkMemory σ α]

def Segment (memory : σ) : Option α → List α → Option α → Prop
  | _, [], _ => True
  | before, node :: rest, behind =>
      pre memory node = before ∧ next memory node = rest.head?.or behind ∧
        Segment memory (some node) rest behind

/-- Writes the `next` field of a node, if there is one. -/
def linkNext (memory : σ) (node : Option α) (value : Option α) : σ :=
  match node with
  | none => memory
  | some node => setNext memory node value

/-- Writes the `pre` field of a node, if there is one. -/
def linkPre (memory : σ) (node : Option α) (value : Option α) : σ :=
  match node with
  | none => memory
  | some node => setPre memory node value

variable {memory after : σ} {before behind : Option α} {front back nodes : List α}

theorem getLast?_cons_or (node : α) (rest : List α) (before : Option α) :
    (node :: rest).getLast?.or before = rest.getLast?.or (some node) := by
  rw [List.getLast?_cons]
  cases rest.getLast? with
  | none => rfl
  | some last => rfl

theorem segment_append :
    Segment memory before (front ++ back) behind ↔
      Segment memory before front (back.head?.or behind) ∧
        Segment memory (front.getLast?.or before) back behind := by
  induction front generalizing before with
  | nil =>
      rw [List.nil_append, List.getLast?_nil, Option.none_or]
      exact ⟨fun segment => ⟨trivial, segment⟩, And.right⟩
  | cons node rest ih =>
      rw [List.cons_append, Segment, Segment, ih, List.head?_append, Option.or_assoc,
        getLast?_cons_or]
      constructor
      · rintro ⟨isPre, isNext, segment, later⟩
        exact ⟨⟨isPre, isNext, segment⟩, later⟩
      · rintro ⟨⟨isPre, isNext, segment⟩, later⟩
        exact ⟨isPre, isNext, segment, later⟩

theorem Segment.congr (segment : Segment memory before nodes behind)
    (same : ∀ node ∈ nodes,
      pre after node = pre memory node ∧ next after node = next memory node) :
    Segment after before nodes behind := by
  induction nodes generalizing before with
  | nil => trivial
  | cons node rest ih =>
      obtain ⟨isPre, isNext, segment⟩ := segment
      obtain ⟨samePre, sameNext⟩ := same node List.mem_cons_self
      refine ⟨samePre.trans isPre, sameNext.trans isNext, ih segment ?_⟩
      intro other member
      exact same other (List.mem_cons_of_mem node member)

theorem Writes.linkNext {touched : α → Prop} {first second : σ} {node : Option α}
    (writes : Writes touched first second) (member : ∀ written ∈ node, touched written)
    (value : Option α) : Writes touched first (linkNext second node value) := by
  cases node with
  | none => exact writes
  | some written => exact .setNext value writes (member written rfl)

theorem Writes.linkPre {touched : α → Prop} {first second : σ} {node : Option α}
    (writes : Writes touched first second) (member : ∀ written ∈ node, touched written)
    (value : Option α) : Writes touched first (linkPre second node value) := by
  cases node with
  | none => exact writes
  | some written => exact .setPre value writes (member written rfl)

variable [Lawful σ]

theorem linkNext_fields (memory : σ) {other : Option α} (value : Option α) {apart : α}
    (away : ∀ written ∈ other, Apart σ apart written) :
    pre (linkNext memory other value) apart = pre memory apart ∧
      next (linkNext memory other value) apart = next memory apart := by
  cases other with
  | none => exact ⟨rfl, rfl⟩
  | some written =>
      have isAway := away written rfl
      exact ⟨Lawful.pre_setNext_apart memory value isAway,
        Lawful.next_setNext_apart memory value isAway⟩

theorem linkPre_fields (memory : σ) {other : Option α} (value : Option α) {apart : α}
    (away : ∀ written ∈ other, Apart σ apart written) :
    pre (linkPre memory other value) apart = pre memory apart ∧
      next (linkPre memory other value) apart = next memory apart := by
  cases other with
  | none => exact ⟨rfl, rfl⟩
  | some written =>
      have isAway := away written rfl
      exact ⟨Lawful.pre_setPre_apart memory value isAway,
        Lawful.next_setPre_apart memory value isAway⟩

theorem Segment.linkNext (segment : Segment memory before nodes behind)
    (apart : nodes.Pairwise (Apart σ)) (value : Option α) :
    Segment (linkNext memory nodes.getLast? value) before nodes value := by
  rcases List.eq_nil_or_concat nodes with rfl | ⟨front, last, rfl⟩
  · trivial
  · rw [List.concat_eq_append] at *
    obtain ⟨segment, isPre, -, -⟩ := segment_append.mp segment
    obtain ⟨-, -, away⟩ := List.pairwise_append.mp apart
    rw [List.getLast?_concat]
    refine segment_append.mpr ⟨segment.congr ?_, ?_, ?_, trivial⟩
    · intro node member
      have isAway := away node member last (List.mem_singleton_self last)
      exact ⟨Lawful.pre_setNext_apart memory value isAway,
        Lawful.next_setNext_apart memory value isAway⟩
    · exact (Lawful.pre_setNext_self memory last value).trans isPre
    · exact Lawful.next_setNext_self memory last value

theorem Segment.linkPre (segment : Segment memory before nodes behind)
    (apart : nodes.Pairwise (Apart σ)) (value : Option α) :
    Segment (linkPre memory nodes.head? value) value nodes behind := by
  cases nodes with
  | nil => trivial
  | cons first rest =>
      obtain ⟨-, isNext, segment⟩ := segment
      have away := (List.pairwise_cons.mp apart).1
      rw [List.head?_cons]
      refine ⟨Lawful.pre_setPre_self memory first value,
        (Lawful.next_setPre_self memory first value).trans isNext, segment.congr ?_⟩
      intro node member
      have isAway := Lawful.apart_symm (away node member)
      exact ⟨Lawful.pre_setPre_apart memory value isAway,
        Lawful.next_setPre_apart memory value isAway⟩

end CleanOS.Lib
