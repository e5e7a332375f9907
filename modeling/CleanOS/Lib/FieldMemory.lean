import CleanOS.Lib.LinkMemory

/-!
# Link memories with separate nodes

The simplest lawful link memory: every node owns its two fields, so distinct
nodes are apart.
-/

namespace CleanOS.Lib

/-- One `pre` and one `next` field for each node. -/
structure FieldMemory (α : Type) where
  pre : α → Option α
  next : α → Option α

namespace FieldMemory

variable {α : Type} [DecidableEq α]

instance : LinkMemory (FieldMemory α) α where
  pre := FieldMemory.pre
  next := FieldMemory.next
  setPre memory node value :=
    { memory with pre := Function.update memory.pre node value }
  setNext memory node value :=
    { memory with next := Function.update memory.next node value }
  Apart first second := first ≠ second

theorem apart_iff {first second : α} :
    LinkMemory.Apart (FieldMemory α) first second ↔ first ≠ second :=
  Iff.rfl

instance : LinkMemory.Lawful (FieldMemory α) where
  apart_symm := Ne.symm
  apart_irrefl _ away := away rfl
  pre_setPre_self _ _ _ := Function.update_self ..
  next_setPre_self _ _ _ := rfl
  pre_setNext_self _ _ _ := rfl
  next_setNext_self _ _ _ := Function.update_self ..
  pre_setPre_apart _ _ _ _ away := Function.update_of_ne away ..
  next_setPre_apart _ _ _ _ _ := rfl
  pre_setNext_apart _ _ _ _ _ := rfl
  next_setNext_apart _ _ _ _ away := Function.update_of_ne away ..

end FieldMemory

end CleanOS.Lib
