import Mathlib.Tactic.Basic

/-!
# Simulation of calls

Where every call of an abstract machine is matched by a call of another one that gives the same
result, so is every sequence of calls.  An action that the abstract machine does not allow has
no result there.
-/

namespace CleanOS.Lib

variable {σ τ α ρ : Type*}

/-- The results of all actions and the state after them, if they all return. -/
def results (call : σ → α → Option (ρ × σ)) : σ → List α → Option (List ρ × σ)
  | state, [] => some ([], state)
  | state, action :: actions => do
      let (result, after) ← call state action
      let (others, final) ← results call after actions
      return (result :: others, final)

variable {call : σ → α → Option (ρ × σ)} {abstract : τ → α → Option (ρ × τ)}

theorem results_cons_eq_some {state final : σ} {action : α} {actions : List α} {all : List ρ} :
    results call state (action :: actions) = some (all, final) ↔
      ∃ result after others, call state action = some (result, after) ∧
        results call after actions = some (others, final) ∧ all = result :: others := by
  constructor
  · intro ran
    obtain ⟨⟨result, after⟩, called, more⟩ := Option.bind_eq_some_iff.mp ran
    obtain ⟨⟨others, last⟩, later, same⟩ := Option.bind_eq_some_iff.mp more
    cases same
    exact ⟨result, after, others, called, later, rfl⟩
  · rintro ⟨result, after, others, called, later, rfl⟩
    rw [results, called]
    simp only [Option.bind_eq_bind, Option.bind_some, later]
    rfl

theorem results_simulates {related : σ → τ → Prop}
    (simulates : ∀ {state spec action result specAfter}, related state spec →
      abstract spec action = some (result, specAfter) →
      ∃ after, call state action = some (result, after) ∧ related after specAfter)
    (actions : List α) {state : σ} {spec specFinal : τ} {all : List ρ} (holds : related state spec)
    (ran : results abstract spec actions = some (all, specFinal)) :
    ∃ final, results call state actions = some (all, final) ∧ related final specFinal := by
  induction actions generalizing state spec all with
  | nil =>
      cases ran
      exact ⟨state, rfl, holds⟩
  | cons action actions ih =>
      obtain ⟨result, specAfter, others, called, later, rfl⟩ := results_cons_eq_some.mp ran
      obtain ⟨after, matched, afterHolds⟩ := simulates holds called
      obtain ⟨final, rest, finalHolds⟩ := ih afterHolds later
      exact ⟨final, results_cons_eq_some.mpr ⟨result, after, others, matched, rest, rfl⟩,
        finalHolds⟩

end CleanOS.Lib
