import Mathlib.Data.List.Forall2
import Mathlib.Tactic.Basic

/-!
# Sequences of calls

`call` gives the result of an action and the state after it, or nothing when the action
does not return.  A sequence of actions is right when every one of them returns and does
what it should, and every state is good.  Where the right actions in a good state are those
that satisfy a guard, the right sequences are those whose actions all satisfy the guard.
-/

namespace CleanOS.Lib

variable {σ α ρ : Type*}

def AllRight (call : σ → α → Option (ρ × σ)) (good : σ → Prop)
    (right : σ → α → ρ → σ → Prop) : σ → List α → Prop
  | state, [] => good state
  | state, action :: actions => good state ∧ ∃ result after,
      call state action = some (result, after) ∧ right state action result after ∧
        AllRight call good right after actions

def AllGuarded (call : σ → α → Option (ρ × σ)) (guard : σ → α → Prop) : σ → List α → Prop
  | _, [] => True
  | state, action :: actions => guard state action ∧
      ∀ result after, call state action = some (result, after) →
        AllGuarded call guard after actions

/-- Every state that the sequence gets to is good.  It ends early at an action that does not
return. -/
def AllGood (call : σ → α → Option (ρ × σ)) (good : σ → Prop) : σ → List α → Prop
  | state, [] => good state
  | state, action :: actions => good state ∧
      ∀ result after, call state action = some (result, after) → AllGood call good after actions

def runAll (call : σ → α → Option (ρ × σ)) : σ → List α → Option σ
  | state, [] => some state
  | state, action :: actions => (call state action).bind fun (_, after) =>
      runAll call after actions

variable {call : σ → α → Option (ρ × σ)} {good : σ → Prop} {right : σ → α → ρ → σ → Prop}
  {guard : σ → α → Prop}

theorem AllGuarded.cons {state after : σ} {action : α} {actions : List α} {result : ρ}
    (called : call state action = some (result, after)) (now : guard state action)
    (later : AllGuarded call guard after actions) :
    AllGuarded call guard state (action :: actions) := by
  refine ⟨now, fun otherResult otherAfter again => ?_⟩
  cases called.symm.trans again
  exact later

theorem AllRight.tail {state after : σ} {action : α} {actions : List α} {result : ρ}
    (allRight : AllRight call good right state (action :: actions))
    (called : call state action = some (result, after)) :
    AllRight call good right after actions := by
  obtain ⟨-, otherResult, otherAfter, again, -, later⟩ := allRight
  cases called.symm.trans again
  exact later

theorem runAll_invariant {invariant : σ → Prop}
    (invariant_call : ∀ {state action result after}, invariant state →
      call state action = some (result, after) → invariant after)
    (actions : List α) {state final : σ} (holds : invariant state)
    (ran : runAll call state actions = some final) : invariant final := by
  induction actions generalizing state with
  | nil =>
      cases ran
      exact holds
  | cons action actions ih =>
      obtain ⟨⟨result, after⟩, called, later⟩ := Option.bind_eq_some_iff.mp ran
      exact ih (invariant_call holds called) later

theorem allRight_of_allGuarded (invariant : σ → Prop)
    (isGood : ∀ {state}, invariant state → good state)
    (right_of_guard : ∀ {state action}, invariant state → guard state action →
      ∃ result after, call state action = some (result, after) ∧
        right state action result after ∧ invariant after)
    (actions : List α) {state : σ} (holds : invariant state)
    (guarded : AllGuarded call guard state actions) : AllRight call good right state actions := by
  induction actions generalizing state with
  | nil => exact isGood holds
  | cons action actions ih =>
      obtain ⟨allowed, later⟩ := guarded
      obtain ⟨result, after, called, isRight, afterHolds⟩ := right_of_guard holds allowed
      exact ⟨isGood holds, result, after, called, isRight,
        ih afterHolds (later result after called)⟩

theorem AllGuarded.and {other : σ → α → Prop} (actions : List α) {state : σ}
    (first : AllGuarded call guard state actions) (second : AllGuarded call other state actions) :
    AllGuarded call (fun state action => guard state action ∧ other state action) state
      actions := by
  induction actions generalizing state with
  | nil => trivial
  | cons action actions ih =>
      refine ⟨⟨first.1, second.1⟩, fun result after called => ?_⟩
      exact ih (first.2 result after called) (second.2 result after called)

theorem allRight_iff_allGuarded_within {scope : σ → α → Prop} (invariant : σ → Prop)
    (right_of_guard : ∀ {state action}, invariant state → good state → scope state action →
      guard state action → ∃ result after, call state action = some (result, after) ∧
        right state action result after ∧ good after ∧ invariant after)
    (guard_of_right : ∀ {state action result after}, invariant state → good state →
      scope state action → call state action = some (result, after) →
      right state action result after → good after → guard state action)
    (actions : List α) {state : σ} (holds : invariant state) (isGood : good state)
    (within : AllGuarded call scope state actions) :
    AllRight call good right state actions ↔ AllGuarded call guard state actions := by
  constructor
  · intro allRight
    induction actions generalizing state with
    | nil => trivial
    | cons action actions ih =>
        obtain ⟨inScope, laterScope⟩ := within
        obtain ⟨_, result, after, called, isRight, later⟩ := allRight
        have afterGood : good after := by
          cases actions with
          | nil => exact later
          | cons _ _ => exact later.1
        have guarded := guard_of_right holds isGood inScope called isRight afterGood
        obtain ⟨_, _, again, _, _, afterHolds⟩ := right_of_guard holds isGood inScope guarded
        refine ⟨guarded, fun otherResult otherAfter isCalled => ?_⟩
        rw [called] at isCalled again
        cases isCalled
        cases again
        exact ih afterHolds afterGood (laterScope result after called) later
  · intro guarded
    refine allRight_of_allGuarded (fun state => good state ∧ invariant state) And.left ?_ actions
      ⟨isGood, holds⟩ (within.and actions guarded)
    intro state action both allowed
    exact right_of_guard both.2 both.1 allowed.1 allowed.2

theorem allGuarded_true (actions : List α) {state : σ} :
    AllGuarded call (fun _ _ => True) state actions := by
  induction actions generalizing state with
  | nil => trivial
  | cons action actions ih => exact ⟨trivial, fun _ _ _ => ih⟩

theorem allRight_iff_allGuarded (invariant : σ → Prop)
    (right_of_guard : ∀ {state action}, invariant state → good state → guard state action →
      ∃ result after, call state action = some (result, after) ∧
        right state action result after ∧ good after ∧ invariant after)
    (guard_of_right : ∀ {state action result after}, invariant state → good state →
      call state action = some (result, after) → right state action result after →
      good after → guard state action)
    (actions : List α) {state : σ} (holds : invariant state) (isGood : good state) :
    AllRight call good right state actions ↔ AllGuarded call guard state actions :=
  allRight_iff_allGuarded_within invariant (fun holds isGood _ => right_of_guard holds isGood)
    (fun holds isGood _ => guard_of_right holds isGood) actions holds isGood
    (allGuarded_true actions)

theorem allGood_of_allGuarded
    (good_of_guard : ∀ {state action result after}, good state → guard state action →
      call state action = some (result, after) → good after)
    (actions : List α) {state : σ} (isGood : good state)
    (guarded : AllGuarded call guard state actions) : AllGood call good state actions := by
  induction actions generalizing state with
  | nil => exact isGood
  | cons action actions ih =>
      obtain ⟨allowed, later⟩ := guarded
      refine ⟨isGood, fun result after called => ?_⟩
      exact ih (good_of_guard isGood allowed called) (later result after called)

theorem AllGood.now {actions : List α} {state : σ} (allGood : AllGood call good state actions) :
    good state := by
  cases actions with
  | nil => exact allGood
  | cons _ _ => exact allGood.1

theorem AllGood.final {actions : List α} {state final : σ}
    (allGood : AllGood call good state actions) (ran : runAll call state actions = some final) :
    good final := by
  induction actions generalizing state with
  | nil =>
      cases ran
      exact allGood
  | cons action actions ih =>
      obtain ⟨⟨result, after⟩, called, later⟩ := Option.bind_eq_some_iff.mp ran
      exact ih (allGood.2 result after called) later

theorem AllGood.mono {other : σ → Prop} (weaker : ∀ {state}, good state → other state)
    (actions : List α) {state : σ} (allGood : AllGood call good state actions) :
    AllGood call other state actions := by
  induction actions generalizing state with
  | nil => exact weaker allGood
  | cons action actions ih =>
      exact ⟨weaker allGood.1, fun result after called => ih (allGood.2 result after called)⟩

theorem allGood_iff_allGuarded_of_guard (invariant : σ → Prop)
    (invariant_call : ∀ {state action result after}, invariant state → guard state action →
      call state action = some (result, after) → invariant after)
    (good_iff_guard : ∀ {state action result after}, invariant state → good state →
      call state action = some (result, after) → (good after ↔ guard state action))
    (guard_of_none : ∀ {state action}, call state action = none → guard state action)
    (actions : List α) {state : σ} (holds : invariant state) (isGood : good state) :
    AllGood call good state actions ↔ AllGuarded call guard state actions := by
  constructor
  · intro allGood
    induction actions generalizing state with
    | nil => trivial
    | cons action actions ih =>
        have later := allGood.2
        constructor
        · cases called : call state action with
          | none => exact guard_of_none called
          | some pair =>
              exact (good_iff_guard holds isGood called).mp (later pair.1 pair.2 called).now
        · intro result after called
          have afterGood := later result after called
          have allowed := (good_iff_guard holds isGood called).mp afterGood.now
          exact ih (invariant_call holds allowed called) afterGood.now afterGood
  · intro guarded
    have both : AllGood call (fun state => invariant state ∧ good state) state actions := by
      refine allGood_of_allGuarded ?_ actions ⟨holds, isGood⟩ guarded
      intro state action result after both allowed called
      exact ⟨invariant_call both.1 allowed called,
        (good_iff_guard both.1 both.2 called).mpr allowed⟩
    exact both.mono And.right actions

theorem allGood_iff_allGuarded (invariant : σ → Prop)
    (invariant_call : ∀ {state action result after}, invariant state →
      call state action = some (result, after) → invariant after)
    (good_iff_guard : ∀ {state action result after}, invariant state → good state →
      call state action = some (result, after) → (good after ↔ guard state action))
    (guard_of_none : ∀ {state action}, call state action = none → guard state action)
    (actions : List α) {state : σ} (holds : invariant state) (isGood : good state) :
    AllGood call good state actions ↔ AllGuarded call guard state actions :=
  allGood_iff_allGuarded_of_guard invariant (fun holds _ => invariant_call holds) good_iff_guard
    guard_of_none actions holds isGood

/-! Calls without a state return together if each of them does. -/

section Independent

variable {β : Type*} {f : α → Option β} {right : α → β → Prop} {first : α} {others : List α}

theorem mapM_cons_some {results : List β} (runs : (first :: others).mapM f = some results) :
    ∃ result later, f first = some result ∧ others.mapM f = some later ∧
      results = result :: later := by
  rw [List.mapM_cons] at runs
  cases now : f first with
  | none =>
      rw [now] at runs
      cases runs
  | some result =>
      cases behind : others.mapM f with
      | none =>
          rw [now, behind] at runs
          cases runs
      | some later =>
          rw [now, behind] at runs
          cases runs
          exact ⟨result, later, rfl, rfl, rfl⟩

theorem mapM_member {actions : List α} :
    ∀ {results : List β}, actions.mapM f = some results →
      ∀ action ∈ actions, ∃ result, f action = some result := by
  induction actions with
  | nil => exact fun _ action member => absurd member List.not_mem_nil
  | cons first others induction =>
      intro results runs action member
      obtain ⟨result, later, now, behind, -⟩ := mapM_cons_some runs
      rcases List.mem_cons.mp member with same | isLater
      · exact ⟨result, same ▸ now⟩
      · exact induction behind action isLater

theorem mapM_right_iff (actions : List α) :
    (∃ results, actions.mapM f = some results ∧ List.Forall₂ right actions results) ↔
      ∀ action ∈ actions, ∃ result, f action = some result ∧ right action result := by
  induction actions with
  | nil =>
      constructor
      · exact fun _ action member => absurd member List.not_mem_nil
      · exact fun _ => ⟨[], rfl, .nil⟩
  | cons first others induction =>
      constructor
      · rintro ⟨results, runs, all⟩ action member
        obtain ⟨result, later, now, behind, rfl⟩ := mapM_cons_some runs
        cases all with
        | cons isRight allRight =>
            rcases List.mem_cons.mp member with same | isLater
            · exact ⟨result, same ▸ now, same ▸ isRight⟩
            · exact induction.mp ⟨later, behind, allRight⟩ action isLater
      · intro each
        obtain ⟨⟨result, now, isRight⟩, behind⟩ := List.forall_mem_cons.mp each
        obtain ⟨later, returns, allRight⟩ := induction.mpr behind
        refine ⟨result :: later, ?_, .cons isRight allRight⟩
        rw [List.mapM_cons, now, returns]
        rfl

end Independent

end CleanOS.Lib
