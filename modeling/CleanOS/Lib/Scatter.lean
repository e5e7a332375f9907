import Mathlib.Data.List.Induction
import Mathlib.Logic.Function.Basic

/-!
# Scattered writes

A sequence of bytes is written to a memory, each byte to the address that a map gives for
its position in the sequence: the memory of a device under a file, whose blocks lie
anywhere.
-/

namespace CleanOS.Lib

variable {β : Type*}

def scatter (target : Nat → Nat) : (Nat → β) → Nat → List β → (Nat → β)
  | memory, _, [] => memory
  | memory, position, first :: rest =>
      scatter target (Function.update memory (target position) first) (position + 1) rest

def patch (memory : Nat → β) (start : Nat) (chunk : List β) : Nat → β := fun address =>
  if start ≤ address then (chunk[address - start]?).getD (memory address) else memory address

variable {target : Nat → Nat} {memory : Nat → β} {position address : Nat}
  {chunk rest : List β}

theorem scatter_append (chunk rest : List β) (memory : Nat → β) (position : Nat) :
    scatter target memory position (chunk ++ rest) =
      scatter target (scatter target memory position chunk) (position + chunk.length) rest := by
  induction chunk generalizing memory position with
  | nil => rfl
  | cons first chunk ih =>
      rw [List.cons_append, scatter, scatter, ih, List.length_cons]
      congr 1
      omega

theorem scatter_of_apart
    (apart : ∀ offset < chunk.length, target (position + offset) ≠ address) :
    scatter target memory position chunk address = memory address := by
  induction chunk generalizing memory position with
  | nil => rfl
  | cons first chunk ih =>
      rw [List.length_cons] at apart
      rw [scatter, ih]
      · exact Function.update_of_ne (apart 0 (Nat.zero_lt_succ _)).symm _ _
      · intro offset inside
        have further := apart (offset + 1) (by omega)
        rwa [Nat.add_comm offset 1, ← Nat.add_assoc] at further

theorem scatter_at {offset : Nat} (inside : offset < chunk.length)
    (apart : ∀ other < chunk.length, target (position + other) = target (position + offset) →
      other = offset) :
    scatter target memory position chunk (target (position + offset)) = chunk[offset] := by
  induction chunk generalizing memory position offset with
  | nil => cases inside
  | cons first chunk ih =>
      rw [List.length_cons] at apart inside
      cases offset with
      | zero =>
          rw [scatter, scatter_of_apart]
          · exact Function.update_self _ _ _
          · intro other otherInside same
            have equal := apart (other + 1) (by omega)
              (by rwa [Nat.add_comm other 1, ← Nat.add_assoc])
            omega
      | succ offset =>
          have shifted : position + (offset + 1) = position + 1 + offset := by omega
          rw [scatter, shifted]
          refine ih (by omega) fun other otherInside same => ?_
          have equal := apart (other + 1) (by omega)
            (by rwa [Nat.add_comm other 1, ← Nat.add_assoc, shifted])
          omega

theorem patch_of_apart {start : Nat}
    (apart : ∀ offset < chunk.length, start + offset ≠ address) :
    patch memory start chunk address = memory address := by
  unfold patch
  split
  next past =>
    rw [List.getElem?_eq_none, Option.getD_none]
    by_contra inside
    exact apart (address - start) (by omega) (by omega)
  next => rfl

theorem patch_at {start offset : Nat} (inside : offset < chunk.length) :
    patch memory start chunk (start + offset) = chunk[offset] := by
  rw [patch, if_pos (Nat.le_add_right _ _), Nat.add_sub_cancel_left,
    List.getElem?_eq_getElem inside, Option.getD_some]

theorem scatter_eq_patch {start : Nat}
    (consecutive : ∀ offset < chunk.length, target (position + offset) = start + offset) :
    scatter target memory position chunk = patch memory start chunk := by
  funext address
  by_cases inside : start ≤ address ∧ address - start < chunk.length
  · obtain ⟨offset, rfl⟩ := Nat.exists_eq_add_of_le inside.1
    have offsetInside : offset < chunk.length := by omega
    rw [patch_at offsetInside, ← consecutive offset offsetInside, scatter_at offsetInside]
    intro other otherInside same
    rw [consecutive other otherInside, consecutive offset offsetInside] at same
    omega
  · rw [scatter_of_apart, patch_of_apart]
    · intro offset offsetInside same
      omega
    · intro offset offsetInside same
      rw [consecutive offset offsetInside] at same
      omega

end CleanOS.Lib
