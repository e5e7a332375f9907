import Mathlib.Data.List.Chain
import Mathlib.Data.List.Pairwise

/-!
# Memories holding doubly linked nodes

A link memory gives read and write access to the two pointer fields of nodes.
Nodes may overlap in the underlying memory; `Apart` says when they do not, and
the laws of a lawful memory speak about nodes that are apart.  `Linked` is the
statement that both pointer fields of a sequence of nodes describe exactly that
sequence.
-/

namespace CleanOS.Lib

/-- Read and write access to the pointer fields of nodes.  `none` is the null
pointer. -/
class LinkMemory (σ : Type) (α : outParam Type) where
  pre : σ → α → Option α
  next : σ → α → Option α
  setPre : σ → α → Option α → σ
  setNext : σ → α → Option α → σ
  Apart : α → α → Prop

namespace LinkMemory

variable {σ α : Type} [LinkMemory σ α]

class Lawful (σ : Type) {α : Type} [LinkMemory σ α] : Prop where
  apart_symm : ∀ {first second : α},
    Apart σ first second → Apart σ second first
  apart_irrefl : ∀ node : α, ¬ Apart σ node node
  pre_setPre_self : ∀ (memory : σ) (node : α) value,
    pre (setPre memory node value) node = value
  next_setPre_self : ∀ (memory : σ) (node : α) value,
    next (setPre memory node value) node = next memory node
  pre_setNext_self : ∀ (memory : σ) (node : α) value,
    pre (setNext memory node value) node = pre memory node
  next_setNext_self : ∀ (memory : σ) (node : α) value,
    next (setNext memory node value) node = value
  pre_setPre_apart : ∀ (memory : σ) {node other : α} value,
    Apart σ other node → pre (setPre memory node value) other = pre memory other
  next_setPre_apart : ∀ (memory : σ) {node other : α} value,
    Apart σ other node → next (setPre memory node value) other = next memory other
  pre_setNext_apart : ∀ (memory : σ) {node other : α} value,
    Apart σ other node → pre (setNext memory node value) other = pre memory other
  next_setNext_apart : ∀ (memory : σ) {node other : α} value,
    Apart σ other node → next (setNext memory node value) other = next memory other

attribute [simp] Lawful.pre_setPre_self Lawful.next_setPre_self
  Lawful.pre_setNext_self Lawful.next_setNext_self
  Lawful.pre_setPre_apart Lawful.next_setPre_apart
  Lawful.pre_setNext_apart Lawful.next_setNext_apart

instance [Lawful σ] : Std.Symm (Apart σ : α → α → Prop) :=
  ⟨fun _ _ => Lawful.apart_symm⟩

def Adjacent (memory : σ) (first second : α) : Prop :=
  next memory first = some second ∧ pre memory second = some first

/-- Both directions of a sequence of nodes describe that sequence, and no two
of its nodes overlap. -/
structure Linked (memory : σ) (nodes : List α) : Prop where
  chain : List.IsChain (Adjacent memory) nodes
  apart : List.Pairwise (Apart σ) nodes

/-- The second memory arises from the first by writing pointer fields of the
named nodes only. -/
inductive Writes (touched : α → Prop) : σ → σ → Prop where
  | refl (memory : σ) : Writes touched memory memory
  | setPre {first second : σ} {node : α} (value : Option α) :
      Writes touched first second → touched node →
      Writes touched first (LinkMemory.setPre second node value)
  | setNext {first second : σ} {node : α} (value : Option α) :
      Writes touched first second → touched node →
      Writes touched first (LinkMemory.setNext second node value)

namespace Writes

theorem trans {touched : α → Prop} {first second third : σ}
    (front : Writes touched first second)
    (back : Writes touched second third) : Writes touched first third := by
  induction back with
  | refl => exact front
  | setPre value _ member ih => exact .setPre value ih member
  | setNext value _ member ih => exact .setNext value ih member

theorem mono {touched wider : α → Prop} {first second : σ}
    (writes : Writes touched first second)
    (included : ∀ node, touched node → wider node) :
    Writes wider first second := by
  induction writes with
  | refl => exact .refl _
  | setPre value _ member ih => exact .setPre value ih (included _ member)
  | setNext value _ member ih => exact .setNext value ih (included _ member)

theorem frame [Lawful σ] {touched : α → Prop} {first second : σ}
    (writes : Writes touched first second) {node : α}
    (outside : ∀ other, touched other → Apart σ node other) :
    pre second node = pre first node ∧ next second node = next first node := by
  induction writes with
  | refl => exact ⟨rfl, rfl⟩
  | setPre value _ member ih =>
      have away := outside _ member
      simp [away, ih]
  | setNext value _ member ih =>
      have away := outside _ member
      simp [away, ih]

end Writes

/-- A chain fixes the `next` fields of all but its last node and the `pre` fields of all but its
first, and only depends on these. -/
theorem chain_congr_iff {first second : σ} {nodes : List α}
    (chain : List.IsChain (Adjacent first) nodes) :
    List.IsChain (Adjacent second) nodes ↔
      (∀ node ∈ nodes.dropLast, next second node = next first node) ∧
        ∀ node ∈ nodes.tail, pre second node = pre first node := by
  induction nodes with
  | nil => simp
  | cons head tail ih =>
      cases tail with
      | nil => simp
      | cons neighbour rest =>
          obtain ⟨adjacent, chainTail⟩ := List.isChain_cons_cons.mp chain
          have same : Adjacent second head neighbour ↔
              next second head = next first head ∧
                pre second neighbour = pre first neighbour := by
            rw [Adjacent, adjacent.1, adjacent.2]
          simp only [List.isChain_cons_cons, same, ih chainTail, List.dropLast_cons_cons,
            List.tail_cons, List.forall_mem_cons]
          tauto

theorem chain_congr {first second : σ} {nodes : List α}
    (chain : List.IsChain (Adjacent first) nodes)
    (sameNext : ∀ node ∈ nodes.dropLast, next second node = next first node)
    (samePre : ∀ node ∈ nodes.tail, pre second node = pre first node) :
    List.IsChain (Adjacent second) nodes :=
  (chain_congr_iff chain).mpr ⟨sameNext, samePre⟩

theorem chain_next {memory : σ} {first : α} {rest back : List α} (nonempty : back ≠ [])
    (chain : List.IsChain (Adjacent memory) (first :: (rest ++ back))) :
    next memory first = (rest ++ back).head? ∧ List.IsChain (Adjacent memory) (rest ++ back) := by
  obtain ⟨second, others, split⟩ := List.exists_cons_of_ne_nil
    (List.append_ne_nil_of_right_ne_nil rest nonempty)
  rw [split] at chain ⊢
  exact ⟨(List.isChain_cons_cons.mp chain).1.1, chain.tail⟩

theorem chain_relink {first second : σ} {front old new back : List α} {left right : α}
    (chain : List.IsChain (Adjacent first) (front ++ left :: (old ++ right :: back)))
    (between : List.IsChain (Adjacent second) (left :: new ++ [right]))
    (sameNext : ∀ other ∈ front ++ right :: back,
      next second other = next first other)
    (samePre : ∀ other ∈ front ++ left :: back,
      pre second other = pre first other) :
    List.IsChain (Adjacent second) (front ++ left :: (new ++ right :: back)) := by
  obtain ⟨chainFront, chainBack⟩ := List.isChain_split.mp chain
  obtain ⟨-, chainBack⟩ := (@List.isChain_split _ _ _ (left :: old) back).mp chainBack
  apply List.isChain_split.mpr
  refine ⟨chain_congr chainFront ?_ ?_, (@List.isChain_split _ _ _ (left :: new) back).mpr
    ⟨between, chain_congr chainBack ?_ ?_⟩⟩
  · intro other member
    exact sameNext other (by simp at member ⊢; exact .inl member)
  · intro other member
    have inFront := List.mem_of_mem_tail member
    exact samePre other (by simp at inFront ⊢; tauto)
  · intro other member
    exact sameNext other (List.mem_append_right _ (List.dropLast_subset _ member))
  · intro other member
    exact samePre other (List.mem_append_right _ (List.mem_cons_of_mem _ member))

namespace Linked

variable [Lawful σ]

theorem nodup {memory : σ} {nodes : List α} (linked : Linked memory nodes) :
    nodes.Nodup := by
  refine linked.apart.imp ?_
  intro first second away equality
  subst second
  exact Lawful.apart_irrefl first away

theorem frame {touched : α → Prop} {first second : σ} {nodes : List α}
    (linked : Linked first nodes) (writes : Writes touched first second)
    (outside : ∀ node ∈ nodes, ∀ other, touched other → Apart σ node other) :
    Linked second nodes := by
  refine ⟨chain_congr linked.chain ?_ ?_, linked.apart⟩
  · intro node member
    exact (writes.frame (outside node (List.dropLast_subset _ member))).2
  · intro node member
    exact (writes.frame (outside node (List.mem_of_mem_tail member))).1

variable {memory after : σ} {front back : List α} {left node right : α}

private theorem apart_neighbours
    (apart : List.Pairwise (Apart σ) (front ++ left :: right :: back)) :
    ∀ other ∈ front ++ back, Apart σ other left ∧ Apart σ other right := by
  rw [List.pairwise_append] at apart
  obtain ⟨_, apartBack, across⟩ := apart
  simp only [List.pairwise_cons, List.mem_cons, forall_eq_or_imp] at apartBack
  intro other member
  rcases List.mem_append.mp member with inFront | inBack
  · exact ⟨across other inFront left (by simp),
      across other inFront right (by simp)⟩
  · exact ⟨Lawful.apart_symm (apartBack.1.2 other inBack),
      Lawful.apart_symm (apartBack.2.1 other inBack)⟩

private theorem apart_middle :
    List.Pairwise (Apart σ) (front ++ left :: node :: right :: back) ↔
      (∀ other ∈ front ++ left :: right :: back, Apart σ node other) ∧
        List.Pairwise (Apart σ) (front ++ left :: right :: back) := by
  have reordered : (front ++ left :: node :: right :: back).Perm
      (node :: (front ++ left :: right :: back)) := by
    rw [List.append_cons front left, List.append_cons front left (right :: back)]
    exact List.perm_middle
  rw [reordered.pairwise_iff Lawful.apart_symm, List.pairwise_cons]

private theorem relink {old new : List α}
    (chain : List.IsChain (Adjacent memory) (front ++ left :: (old ++ right :: back)))
    (apart : List.Pairwise (Apart σ) (front ++ left :: node :: right :: back))
    (between : List.IsChain (Adjacent after) (left :: new ++ [right]))
    (leftPre : pre after left = pre memory left)
    (rightNext : next after right = next memory right)
    (untouched : ∀ other, Apart σ other left → Apart σ other node →
      Apart σ other right →
      pre after other = pre memory other ∧
        next after other = next memory other) :
    List.IsChain (Adjacent after) (front ++ left :: (new ++ right :: back)) := by
  obtain ⟨fresh, others⟩ := apart_middle.mp apart
  have same : ∀ other ∈ front ++ back,
      pre after other = pre memory other ∧
        next after other = next memory other := by
    intro other member
    have away := apart_neighbours others other member
    have otherNode : Apart σ node other :=
      fresh other (by simp at member ⊢; tauto)
    exact untouched other away.1 (Lawful.apart_symm otherNode) away.2
  refine chain_relink chain between ?_ ?_
  · intro other member
    by_cases isRight : other = right
    · rw [isRight, rightNext]
    · exact (same other (by simp [isRight] at member ⊢; exact member)).2
  · intro other member
    by_cases isLeft : other = left
    · rw [isLeft, leftPre]
    · exact (same other (by simp [isLeft] at member ⊢; exact member)).1

theorem insert (after : σ)
    (linked : Linked memory (front ++ left :: right :: back))
    (fresh : ∀ other ∈ front ++ left :: right :: back, Apart σ node other)
    (toNode : Adjacent after left node)
    (fromNode : Adjacent after node right)
    (leftPre : pre after left = pre memory left)
    (rightNext : next after right = next memory right)
    (untouched : ∀ other, Apart σ other left → Apart σ other node →
      Apart σ other right →
      pre after other = pre memory other ∧
        next after other = next memory other) :
    Linked after (front ++ left :: node :: right :: back) := by
  have apart := apart_middle.mpr ⟨fresh, linked.apart⟩
  have between : List.IsChain (Adjacent after) (left :: [node] ++ [right]) :=
    .cons_cons toNode (.cons_cons fromNode (.singleton _))
  exact ⟨@relink _ _ _ _ _ _ _ _ _ _ _ [] [node] linked.chain apart between leftPre rightNext
    untouched, apart⟩

theorem unlink (after : σ)
    (linked : Linked memory (front ++ left :: node :: right :: back))
    (closed : Adjacent after left right)
    (leftPre : pre after left = pre memory left)
    (rightNext : next after right = next memory right)
    (untouched : ∀ other, Apart σ other left → Apart σ other node →
      Apart σ other right →
      pre after other = pre memory other ∧
        next after other = next memory other) :
    Linked after (front ++ left :: right :: back) := by
  have between : List.IsChain (Adjacent after) (left :: [] ++ [right]) :=
    .cons_cons closed (.singleton _)
  exact ⟨@relink _ _ _ _ _ _ _ _ _ _ _ [node] [] linked.chain linked.apart between leftPre
    rightNext untouched, (apart_middle.mp linked.apart).2⟩

end Linked

end LinkMemory

end CleanOS.Lib
