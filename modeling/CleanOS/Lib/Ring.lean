import Mathlib.Logic.Function.Basic
import Mathlib.Data.Nat.ModEq

/-!
# Rings of slots

A ring of `size` slots holds a sequence of items in consecutive slots from
`start` on, where slot zero follows the last one.
-/

namespace CleanOS.Lib.Ring

variable {α : Type*}

/-- The slot after `index`. -/
def next (size index : Nat) : Nat :=
  if size ≤ index + 1 then 0 else index + 1

theorem next_eq_mod {size index : Nat} (inside : index < size) :
    next size index = (index + 1) % size := by
  unfold next
  split
  next last =>
    have wraps : index + 1 = size := by omega
    rw [wraps, Nat.mod_self]
  next notLast => exact (Nat.mod_eq_of_lt (by omega)).symm

theorem next_lt {size index : Nat} (inside : index < size) : next size index < size := by
  rw [next_eq_mod inside]
  exact Nat.mod_lt _ (by omega)

/-- The slots from `start` on hold the items in order. -/
structure Holds (size : Nat) (slots : Nat → α) (start : Nat) (items : List α) : Prop where
  start_lt : start < size
  length_le : items.length ≤ size
  slot : ∀ offset item, items[offset]? = some item → slots ((start + offset) % size) = item

variable {size start : Nat} {slots : Nat → α} {items : List α}

theorem Holds.nil (inside : start < size) : Holds size slots start ([] : List α) where
  start_lt := inside
  length_le := Nat.zero_le _
  slot := by
    intro offset item found
    simp only [List.getElem?_nil, reduceCtorEq] at found

theorem slot_ne {first second : Nat} (before : first < second) (inside : second < size) :
    (start + first) % size ≠ (start + second) % size := by
  intro same
  have congruent : first ≡ second [MOD size] := Nat.ModEq.add_left_cancel' start same
  have equal := Nat.ModEq.eq_of_lt_of_lt congruent (by omega) inside
  omega

theorem Holds.push (held : Holds size slots start items) (room : items.length < size)
    (item : α) :
    Holds size (Function.update slots ((start + items.length) % size) item) start
      (items ++ [item]) where
  start_lt := held.start_lt
  length_le := by
    rw [List.length_append, List.length_singleton]
    omega
  slot := by
    intro offset stored found
    rcases Nat.lt_trichotomy offset items.length with inside | rfl | outside
    · rw [List.getElem?_append_left inside] at found
      rw [Function.update_of_ne (slot_ne inside room)]
      exact held.slot offset stored found
    · rw [List.getElem?_concat_length] at found
      rw [Function.update_self]
      exact Option.some.inj found
    · rw [List.getElem?_eq_none] at found
      · cases found
      · rw [List.length_append, List.length_singleton]
        omega

theorem Holds.first {item : α} (held : Holds size slots start (item :: items)) :
    slots start = item := by
  have found := held.slot 0 item rfl
  rwa [Nat.add_zero, Nat.mod_eq_of_lt held.start_lt] at found

theorem Holds.pop {item : α} (held : Holds size slots start (item :: items)) :
    Holds size slots (next size start) items where
  start_lt := next_lt held.start_lt
  length_le := Nat.le_of_succ_le held.length_le
  slot := by
    intro offset stored found
    have shifted := held.slot (offset + 1) stored found
    have sameSlot : (next size start + offset) % size = (start + (offset + 1)) % size := by
      rw [next_eq_mod held.start_lt, Nat.mod_add_mod]
      congr 1
      omega
    rw [sameSlot]
    exact shifted

end CleanOS.Lib.Ring
