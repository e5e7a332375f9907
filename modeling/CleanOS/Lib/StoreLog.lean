import Mathlib.Data.Option.Basic
import Mathlib.Logic.Function.Basic

/-!
# Logs of stores

A program stores values at addresses, and a map that grows meanwhile gives the place of each
address in a memory.  What a place holds in the end is the last value stored at its address.
-/

namespace CleanOS.Lib

variable {α β γ : Type*} [DecidableEq γ]

/-- The memory after the stores of a log, each at the place of its address.  A store without
a place is lost. -/
def applyStores (place : α → Option γ) : List (α × β) → (γ → β) → (γ → β)
  | [], memory => memory
  | (address, value) :: rest, memory =>
      applyStores place rest
        (match place address with
          | none => memory
          | some target => Function.update memory target value)

variable {place other : α → Option γ} {log rest : List (α × β)} {memory : γ → β}
  {address : α} {target : γ} {value : β}

theorem applyStores_append :
    applyStores place (log ++ rest) memory =
      applyStores place rest (applyStores place log memory) := by
  induction log generalizing memory with
  | nil => rfl
  | cons first log ih =>
      obtain ⟨head, stored⟩ := first
      rw [List.cons_append, applyStores, applyStores, ih]

theorem applyStores_congr (same : ∀ entry ∈ log, place entry.1 = other entry.1) :
    applyStores place log memory = applyStores other log memory := by
  induction log generalizing memory with
  | nil => rfl
  | cons first log ih =>
      obtain ⟨head, stored⟩ := first
      rw [applyStores, applyStores, same (head, stored) List.mem_cons_self]
      exact ih fun entry member => same entry (List.mem_cons_of_mem _ member)

theorem applyStores_apart (apart : ∀ entry ∈ log, place entry.1 ≠ some target) :
    applyStores place log memory target = memory target := by
  induction log generalizing memory with
  | nil => rfl
  | cons first log ih =>
      obtain ⟨head, stored⟩ := first
      rw [applyStores, ih fun entry member => apart entry (List.mem_cons_of_mem _ member)]
      have different := apart (head, stored) List.mem_cons_self
      cases found : place head with
      | none => rfl
      | some place =>
          apply Function.update_of_ne
          rintro rfl
          exact different found

variable [DecidableEq α]

def lastStore : List (α × β) → α → Option β
  | [], _ => none
  | (address, value) :: rest, other =>
      (lastStore rest other).or (if address = other then some value else none)

theorem lastStore_append :
    lastStore (log ++ rest) address = (lastStore rest address).or (lastStore log address) := by
  induction log with
  | nil => exact (Option.or_none).symm
  | cons first log ih =>
      obtain ⟨head, stored⟩ := first
      rw [List.cons_append, lastStore, lastStore, ih, Option.or_assoc]

theorem lastStore_eq_none (apart : ∀ entry ∈ log, entry.1 ≠ address) :
    lastStore log address = none := by
  induction log with
  | nil => rfl
  | cons first log ih =>
      obtain ⟨head, stored⟩ := first
      rw [lastStore, ih fun entry member => apart entry (List.mem_cons_of_mem _ member),
        if_neg (apart (head, stored) List.mem_cons_self)]
      rfl

theorem lastStore_eq_some (stores : ∃ entry ∈ log, entry.1 = address)
    (same : ∀ entry ∈ log, entry.1 = address → entry.2 = value) :
    lastStore log address = some value := by
  induction log with
  | nil =>
      obtain ⟨entry, member, -⟩ := stores
      cases member
  | cons first log ih =>
      obtain ⟨head, stored⟩ := first
      have later := fun entry member => same entry (List.mem_cons_of_mem _ member)
      rw [lastStore]
      by_cases again : ∃ entry ∈ log, entry.1 = address
      · rw [ih again later]
        rfl
      · rw [lastStore_eq_none fun entry member equal => again ⟨entry, member, equal⟩]
        obtain ⟨entry, member, isAddress⟩ := stores
        rcases List.mem_cons.mp member with rfl | inside
        · rw [if_pos isAddress, ← same _ List.mem_cons_self isAddress]
          rfl
        · exact absurd ⟨entry, inside, isAddress⟩ again

theorem applyStores_at (isPlace : place address = some target)
    (own : ∀ entry ∈ log, place entry.1 = some target → entry.1 = address) :
    applyStores place log memory target = (lastStore log address).getD (memory target) := by
  induction log generalizing memory with
  | nil => rfl
  | cons first log ih =>
      obtain ⟨head, stored⟩ := first
      rw [applyStores, ih fun entry member => own entry (List.mem_cons_of_mem _ member),
        lastStore]
      cases later : lastStore log address with
      | some value => rfl
      | none =>
          have unique := own (head, stored) List.mem_cons_self
          by_cases same : head = address
          · rw [same, isPlace, if_pos rfl]
            exact Function.update_self _ _ _
          · rw [if_neg same]
            cases found : place head with
            | none => rfl
            | some place =>
                apply Function.update_of_ne
                rintro rfl
                exact same (unique found)

end CleanOS.Lib
