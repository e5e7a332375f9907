import Mathlib.Data.Finset.Card
import Mathlib.Data.Nat.Find
import Mathlib.Logic.Function.Iterate

/-!
# Walks along a function

A walk goes from a place to the next one until it comes to a place where it stops.  `walk`
counts its steps, and finds nothing when the fuel runs out first.
-/

namespace CleanOS.Lib

variable {α : Type*} (stop : α → Prop) [DecidablePred stop] (next : α → α)

def walk : Nat → α → Option Nat
  | 0, _ => none
  | fuel + 1, place =>
      if stop place then some 0 else (walk fuel (next place)).map Nat.succ

variable {stop next} {fuel steps : Nat} {place : α}

/-- The walk stops after this many steps, and not before. -/
structure StopsAfter (stop : α → Prop) (next : α → α) (place : α) (steps : Nat) : Prop where
  stops : stop (next^[steps] place)
  before : ∀ earlier < steps, ¬ stop (next^[earlier] place)

omit [DecidablePred stop] in
theorem StopsAfter.succ (moving : ¬ stop place) (later : StopsAfter stop next (next place) steps) :
    StopsAfter stop next place (steps + 1) where
  stops := later.stops
  before := by
    intro earlier isEarlier
    cases earlier with
    | zero => exact moving
    | succ earlier => exact later.before earlier (Nat.lt_of_succ_lt_succ isEarlier)

omit [DecidablePred stop] in
theorem StopsAfter.tail (stopped : StopsAfter stop next place (steps + 1)) :
    ¬ stop place ∧ StopsAfter stop next (next place) steps := by
  refine ⟨stopped.before 0 (Nat.succ_pos _), stopped.stops, ?_⟩
  intro earlier isEarlier
  exact stopped.before (earlier + 1) (Nat.succ_lt_succ isEarlier)

theorem walk_eq_some : walk stop next fuel place = some steps ↔
    steps < fuel ∧ StopsAfter stop next place steps := by
  induction fuel generalizing place steps with
  | zero =>
      constructor
      · intro walked
        cases walked
      · intro stopped
        exact absurd stopped.1 (Nat.not_lt_zero _)
  | succ fuel ih =>
      rw [walk]
      by_cases stopsHere : stop place
      · rw [if_pos stopsHere]
        constructor
        · intro walked
          cases walked
          exact ⟨Nat.succ_pos _, stopsHere, fun _ isEarlier => absurd isEarlier (Nat.not_lt_zero _)⟩
        · intro stopped
          cases steps with
          | zero => rfl
          | succ steps => exact absurd stopsHere stopped.2.tail.1
      · rw [if_neg stopsHere]
        cases steps with
        | zero =>
            constructor
            · intro walked
              simp at walked
            · intro stopped
              exact absurd stopped.2.stops stopsHere
        | succ steps =>
            rw [Option.map_eq_some_iff]
            constructor
            · rintro ⟨rest, walked, same⟩
              cases same
              have later := ih.mp walked
              exact ⟨Nat.succ_lt_succ later.1, later.2.succ stopsHere⟩
            · intro stopped
              exact ⟨steps, ih.mpr ⟨Nat.lt_of_succ_lt_succ stopped.1, stopped.2.tail.2⟩, rfl⟩

omit [DecidablePred stop] in
theorem exists_stopsAfter (stopsAt : stop (next^[steps] place)) :
    ∃ first ≤ steps, StopsAfter stop next place first := by
  classical
  have exists_stop : ∃ step, stop (next^[step] place) := ⟨steps, stopsAt⟩
  refine ⟨Nat.find exists_stop, Nat.find_le stopsAt, Nat.find_spec exists_stop, ?_⟩
  intro earlier isEarlier
  exact Nat.find_min exists_stop isEarlier

omit [DecidablePred stop] in
theorem StopsAfter.lt_card (stopped : StopsAfter stop next place steps) (places : Finset α)
    (within : ∀ step, next^[step] place ∈ places) : steps < places.card := by
  have apart : Set.InjOn (fun step => next^[step] place) (Finset.range (steps + 1)) := by
    intro first firstInside second secondInside same
    by_contra different
    wlog isLess : first < second generalizing first second
    · exact this secondInside firstInside same.symm (Ne.symm different)
        (Nat.lt_of_le_of_ne (Nat.not_lt.mp isLess) (Ne.symm different))
    -- what follows the second visit followed the first one as well
    have bound : second ≤ steps := Nat.le_of_lt_succ (Finset.mem_range.mp secondInside)
    have early : next^[steps - second + first] place = next^[steps] place := by
      simp only at same
      rw [Function.iterate_add_apply, same, ← Function.iterate_add_apply, Nat.sub_add_cancel bound]
    exact stopped.before (steps - second + first) (by omega) (early ▸ stopped.stops)
  have small := Finset.card_le_card_of_injOn _ (fun step _ => within step) apart
  rwa [Finset.card_range] at small

def Until (keep goal : α → Prop) (next : α → α) (place : α) : Prop :=
  ∃ steps, (∀ earlier < steps, keep (next^[earlier] place)) ∧ goal (next^[steps] place)

namespace Until

variable {keep goal : α → Prop}

theorem here (reached : goal place) : Until keep goal next place :=
  ⟨0, fun _ isEarlier => absurd isEarlier (Nat.not_lt_zero _), reached⟩

theorem later (kept : keep place) (rest : Until keep goal next (next place)) :
    Until keep goal next place := by
  obtain ⟨steps, all, reached⟩ := rest
  refine ⟨steps + 1, ?_, reached⟩
  intro earlier isEarlier
  cases earlier with
  | zero => exact kept
  | succ earlier => exact all earlier (Nat.lt_of_succ_lt_succ isEarlier)

theorem goal_or_next (reaches : Until keep goal next place) :
    goal place ∨ keep place ∧ Until keep goal next (next place) := by
  obtain ⟨steps, all, reached⟩ := reaches
  cases steps with
  | zero => exact .inl reached
  | succ steps =>
      refine .inr ⟨all 0 (Nat.succ_pos _), steps, ?_, reached⟩
      intro earlier isEarlier
      exact all (earlier + 1) (Nat.succ_lt_succ isEarlier)

theorem induct {motive : ∀ place, Until keep goal next place → Prop}
    (here : ∀ place (reached : goal place), motive place (.here reached))
    (later : ∀ place (kept : keep place) (rest : Until keep goal next (next place)),
      motive (next place) rest → motive place (.later kept rest))
    {place : α} (reaches : Until keep goal next place) : motive place reaches := by
  obtain ⟨steps, all, reached⟩ := reaches
  induction steps generalizing place with
  | zero => exact here place reached
  | succ steps ih =>
      have behind : ∀ earlier < steps, keep (next^[earlier] (next place)) := by
        intro earlier isEarlier
        exact all (earlier + 1) (Nat.succ_lt_succ isEarlier)
      exact later place (all 0 (Nat.succ_pos _)) ⟨steps, behind, reached⟩ (ih behind reached)

end Until

end CleanOS.Lib
