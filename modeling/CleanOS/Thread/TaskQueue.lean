import CleanOS.Thread.Thread
import Mathlib.Data.List.Nodup

/-!
# Lists of tasks

A task carries three list nodes.  `QueueHolds` says that a list threads a given
sequence of tasks through one of them; the lemmas restate the specifications of
the list operations at this level, with the exact set of nodes that each of
them may write.
-/

namespace CleanOS.Thread

open CleanOS.Lib CleanOS.Common LinkMemory

/-- Which of the three embedded nodes a list uses. -/
inductive Embedded where
  | general
  | waiter
  | all
  deriving DecidableEq

def Embedded.tag : Embedded → TaskId → Tag
  | .general => .general
  | .waiter => .waiter
  | .all => .all

@[simp] theorem Embedded.tag_inj {first second : Embedded} {left right : TaskId} :
    first.tag left = second.tag right ↔ first = second ∧ left = right := by
  cases first <;> cases second <;> simp [Embedded.tag]

@[simp] theorem Embedded.tag_ne_head (embedded : Embedded) (task : TaskId)
    (queue : Queue) : embedded.tag task ≠ .head queue := by
  cases embedded <;> simp [Embedded.tag]

@[simp] theorem Embedded.tag_ne_tail (embedded : Embedded) (task : TaskId)
    (queue : Queue) : embedded.tag task ≠ .tail queue := by
  cases embedded <;> simp [Embedded.tag]

/-- The list of a queue threads these tasks through one embedded node. -/
structure QueueHolds (links : FieldMemory Tag) (l : KernelList Tag)
    (queue : Queue) (embedded : Embedded) (tasks : List TaskId) : Prop where
  head : l.head = .head queue
  tail : l.tail = .tail queue
  holds : KernelList.Holds links l (tasks.map embedded.tag)

def QueueNode (queue : Queue) (embedded : Embedded) (tasks : List TaskId) :
    Tag → Prop :=
  fun tag => tag = .head queue ∨ tag = .tail queue ∨
    ∃ task ∈ tasks, tag = embedded.tag task

namespace QueueHolds

variable {links : FieldMemory Tag} {l : KernelList Tag} {queue : Queue}
  {embedded : Embedded} {tasks : List TaskId} {task : TaskId}

theorem nodup (holds : QueueHolds links l queue embedded tasks) : tasks.Nodup :=
  List.Nodup.of_map _ holds.holds.nodup

theorem size (holds : QueueHolds links l queue embedded tasks) :
    l.size = tasks.length := by
  rw [holds.holds.size, List.length_map]

private theorem touches_queueNode
    (holds : QueueHolds links l queue embedded tasks) (tag : Tag)
    (touched : l.Touches (tasks.map embedded.tag) (embedded.tag task) tag) :
    QueueNode queue embedded (task :: tasks) tag := by
  rcases touched with same | inSpan
  · exact .inr (.inr ⟨task, by simp, same⟩)
  · rw [KernelList.mem_span, holds.head, holds.tail] at inSpan
    rcases inSpan with isHead | member | isTail
    · exact .inl isHead
    · obtain ⟨other, otherMember, rfl⟩ := List.mem_map.mp member
      exact .inr (.inr ⟨other, by simp [otherMember], rfl⟩)
    · exact .inr (.inl isTail)

private theorem fresh (holds : QueueHolds links l queue embedded tasks)
    (outside : task ∉ tasks) :
    ∀ other ∈ l.span (tasks.map embedded.tag),
      Apart (FieldMemory Tag) (embedded.tag task) other := by
  intro other member
  rw [KernelList.mem_span, holds.head, holds.tail] at member
  rw [FieldMemory.apart_iff]
  rcases member with rfl | member | rfl
  · simp
  · obtain ⟨second, secondMember, rfl⟩ := List.mem_map.mp member
    intro equality
    obtain ⟨-, rfl⟩ := Embedded.tag_inj.mp equality
    exact outside secondMember
  · simp

theorem init (links : FieldMemory Tag) (queue : Queue) (embedded : Embedded) :
    QueueHolds (KernelList.initList links (Kernel.emptyList queue)).1
      (KernelList.initList links (Kernel.emptyList queue)).2
      queue embedded [] := by
  refine ⟨rfl, rfl, KernelList.initList_holds ?_⟩
  simp [FieldMemory.apart_iff, Kernel.emptyList]

theorem init_writes (links : FieldMemory Tag) (queue : Queue)
    (embedded : Embedded) :
    Writes (QueueNode queue embedded []) links
      (KernelList.initList links (Kernel.emptyList queue)).1 := by
  have headTouched : QueueNode queue embedded [] (.head queue) := .inl rfl
  have tailTouched : QueueNode queue embedded [] (.tail queue) := .inr (.inl rfl)
  exact .setNext _ (.setPre _ (.setNext _ (.setPre _ (.refl _) headTouched)
    headTouched) tailTouched) tailTouched

theorem pushr (holds : QueueHolds links l queue embedded tasks)
    (outside : task ∉ tasks) :
    ∃ after grown,
      KernelList.pushr links l (embedded.tag task) = some (after, grown) ∧
      QueueHolds after grown queue embedded (tasks ++ [task]) ∧
      Writes (QueueNode queue embedded (task :: tasks)) links after := by
  obtain ⟨after, success, grown, writes⟩ :=
    KernelList.pushr_holds holds.holds (holds.fresh outside)
  refine ⟨after, _, success, ⟨holds.head, holds.tail, ?_⟩,
    writes.mono holds.touches_queueNode⟩
  simpa using grown

theorem pushl (holds : QueueHolds links l queue embedded tasks)
    (outside : task ∉ tasks) :
    ∃ after grown,
      KernelList.pushl links l (embedded.tag task) = some (after, grown) ∧
      QueueHolds after grown queue embedded (task :: tasks) ∧
      Writes (QueueNode queue embedded (task :: tasks)) links after := by
  obtain ⟨after, success, grown, writes⟩ :=
    KernelList.pushl_holds holds.holds (holds.fresh outside)
  refine ⟨after, _, success, ⟨holds.head, holds.tail, ?_⟩,
    writes.mono holds.touches_queueNode⟩
  simpa using grown

theorem popl_nil (holds : QueueHolds links l queue embedded []) :
    KernelList.popl links l = some (links, l, none) :=
  KernelList.popl_empty holds.holds

theorem popl_cons (holds : QueueHolds links l queue embedded (task :: tasks)) :
    ∃ after shrunk,
      KernelList.popl links l = some (after, shrunk, some (embedded.tag task)) ∧
      QueueHolds after shrunk queue embedded tasks ∧
      Writes (QueueNode queue embedded (task :: tasks)) links after ∧
      pre after (embedded.tag task) = none := by
  obtain ⟨after, success, shrunk, writes, cleared, -⟩ :=
    KernelList.popl_holds (by simpa using holds.holds)
  refine ⟨after, _, success, ⟨holds.head, holds.tail, shrunk⟩, ?_, cleared⟩
  refine writes.mono ?_
  intro tag touched
  rcases touched with same | inSpan
  · exact .inr (.inr ⟨task, by simp, same⟩)
  · rw [KernelList.mem_span, holds.head, holds.tail] at inSpan
    rcases inSpan with isHead | member | isTail
    · exact .inl isHead
    · obtain ⟨other, otherMember, rfl⟩ := List.mem_map.mp member
      exact .inr (.inr ⟨other, by simp [otherMember], rfl⟩)
    · exact .inr (.inl isTail)

theorem remove (holds : QueueHolds links l queue embedded tasks)
    (member : task ∈ tasks) :
    ∃ after shrunk,
      (∀ fuel, tasks.length ≤ fuel →
        KernelList.remove fuel links l (embedded.tag task) =
          some (after, shrunk)) ∧
      QueueHolds after shrunk queue embedded (tasks.erase task) ∧
      Writes (QueueNode queue embedded (tasks.erase task)) links after := by
  have nodup := holds.nodup
  obtain ⟨front, back, rfl⟩ := List.append_of_mem member
  have outsideFront : task ∉ front := by
    rw [List.nodup_append] at nodup
    intro inFront
    exact nodup.2.2 task inFront task (by simp) rfl
  have erased : (front ++ task :: back).erase task = front ++ back := by
    rw [List.erase_append_right _ outsideFront, List.erase_cons_head]
  have mapped : KernelList.Holds links l
      (front.map embedded.tag ++ embedded.tag task :: back.map embedded.tag) := by
    simpa using holds.holds
  obtain ⟨after, success, shrunk, writes⟩ := KernelList.remove_holds mapped
  rw [erased]
  refine ⟨after, _, fun fuel enough => success fuel (by
    simp at enough ⊢
    omega), ⟨holds.head, holds.tail, by simpa using shrunk⟩,
    writes.mono ?_⟩
  intro tag inSpan
  rw [KernelList.mem_span, holds.head, holds.tail, ← List.map_append] at inSpan
  rcases inSpan with isHead | inRest | isTail
  · exact .inl isHead
  · obtain ⟨other, otherMember, rfl⟩ := List.mem_map.mp inRest
    exact .inr (.inr ⟨other, otherMember, rfl⟩)
  · exact .inr (.inl isTail)

theorem remove_missing (holds : QueueHolds links l queue embedded tasks)
    (outside : task ∉ tasks) {fuel : Nat} (enough : tasks.length < fuel)
    (cleared : pre links (embedded.tag task) = none) :
    KernelList.remove fuel links l (embedded.tag task) = some (links, l) := by
  refine KernelList.remove_not_mem holds.holds ?_ (by simpa using enough) cleared
  intro member
  obtain ⟨other, otherMember, equality⟩ := List.mem_map.mp member
  obtain ⟨-, rfl⟩ := Embedded.tag_inj.mp equality
  exact outside otherMember

theorem frame {after : FieldMemory Tag} {otherQueue : Queue}
    {otherEmbedded : Embedded} {otherTasks : List TaskId}
    (holds : QueueHolds links l queue embedded tasks)
    (writes : Writes (QueueNode otherQueue otherEmbedded otherTasks) links after)
    (differentQueue : queue ≠ otherQueue)
    (separate : embedded = otherEmbedded → ∀ task ∈ tasks, task ∉ otherTasks) :
    QueueHolds after l queue embedded tasks := by
  refine ⟨holds.head, holds.tail, holds.holds.frame writes ?_⟩
  intro node member other touched
  rw [KernelList.mem_span, holds.head, holds.tail] at member
  rw [FieldMemory.apart_iff]
  rcases member with rfl | member | rfl
  · rcases touched with rfl | rfl | ⟨task, -, rfl⟩
    · simpa using differentQueue
    · simp
    · exact (Embedded.tag_ne_head _ _ _).symm
  · obtain ⟨task, taskMember, rfl⟩ := List.mem_map.mp member
    rcases touched with rfl | rfl | ⟨other, otherMember, rfl⟩
    · simp
    · simp
    · intro equality
      obtain ⟨sameEmbedded, rfl⟩ := Embedded.tag_inj.mp equality
      exact separate sameEmbedded _ taskMember otherMember
  · rcases touched with rfl | rfl | ⟨task, -, rfl⟩
    · simp
    · simpa using differentQueue
    · exact (Embedded.tag_ne_tail _ _ _).symm

end QueueHolds

theorem pre_of_queue_writes {links after : FieldMemory Tag} {queue : Queue}
    {embedded : Embedded} {tasks : List TaskId} (otherEmbedded : Embedded)
    (task : TaskId)
    (writes : Writes (QueueNode queue embedded tasks) links after)
    (outside : otherEmbedded = embedded → task ∉ tasks) :
    pre after (otherEmbedded.tag task) = pre links (otherEmbedded.tag task) := by
  refine (writes.frame ?_).1
  intro other touched
  rw [FieldMemory.apart_iff]
  rcases touched with rfl | rfl | ⟨second, member, rfl⟩
  · simp
  · simp
  · intro equality
    obtain ⟨sameEmbedded, rfl⟩ := Embedded.tag_inj.mp equality
    exact outside sameEmbedded member

end CleanOS.Thread
