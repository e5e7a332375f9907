import Mathlib.Algebra.GroupWithZero.Nat
import Mathlib.Tactic.Basic

/-!
# Guarded runs of a transition function

`step` gives the state after an action, or nothing when the action is not
enabled.  `Reaches` collects the states of the runs in which every action
satisfies `allowed` in the state in which it is taken, and `execute` runs a given
list of actions.
-/

namespace CleanOS.Lib

variable {σ α : Type*}

/-- The states reached from `start` by allowed actions. -/
inductive Reaches (step : σ → α → Option σ) (allowed : σ → α → Prop) (start : σ) :
    σ → Prop where
  | refl : Reaches step allowed start start
  | next {state after : σ} {action : α} :
      Reaches step allowed start state →
      allowed state action →
      step state action = some after →
      Reaches step allowed start after

def execute (step : σ → α → Option σ) (allowed : σ → α → Prop)
    [∀ state action, Decidable (allowed state action)] : σ → List α → Option σ
  | state, [] => some state
  | state, action :: actions =>
      if allowed state action then
        match step state action with
        | some after => execute step allowed after actions
        | none => none
      else none

namespace Reaches

variable {step : σ → α → Option σ} {allowed : σ → α → Prop} {start state : σ}

theorem invariant (holds : σ → Prop) (atStart : holds start)
    (kept : ∀ {state after : σ} {action : α}, holds state →
      allowed state action → step state action = some after → holds after)
    (reached : Reaches step allowed start state) : holds state := by
  induction reached with
  | refl => exact atStart
  | next _ isAllowed stepped ih => exact kept ih isAllowed stepped

theorem trans {middle : σ} (first : Reaches step allowed start middle)
    (second : Reaches step allowed middle state) : Reaches step allowed start state := by
  induction second with
  | refl => exact first
  | next _ isAllowed stepped ih => exact .next ih isAllowed stepped

theorem by_action {after : σ} (reached : Reaches step allowed start state) (action : α)
    (isAllowed : allowed state action) (stepped : step state action = some after) :
    Reaches step allowed start after :=
  .next reached isAllowed stepped

theorem of_execute [∀ state action, Decidable (allowed state action)]
    {actions : List α} (executed : execute step allowed start actions = some state) :
    Reaches step allowed start state := by
  induction actions generalizing start with
  | nil =>
      cases executed
      exact .refl
  | cons action actions ih =>
      rw [execute] at executed
      split at executed
      next isAllowed =>
        split at executed
        next after stepped =>
          exact trans (.next .refl isAllowed stepped) (ih executed)
        next => cases executed
      next => cases executed

end Reaches

theorem forall_mem_set {β : Type*} {table : List β} {holds : β → Prop}
    (all : ∀ entry ∈ table, holds entry) {thread : Nat} {after : β} (new : holds after) :
    ∀ entry ∈ table.set thread after, holds entry := by
  intro entry member
  rcases List.mem_or_eq_of_mem_set member with old | rfl
  · exact all entry old
  · exact new

theorem mem_set_or_eq {β : Type*} {table : List β} {thread : Nat} {before entry : β}
    (found : table[thread]? = some before) (after : β) (member : entry ∈ table) :
    entry ∈ table.set thread after ∨ entry = before := by
  obtain ⟨other, atOther⟩ := List.getElem?_of_mem member
  by_cases same : thread = other
  · subst same
    rw [found] at atOther
    exact .inr (Option.some.inj atOther).symm
  · refine .inl (List.mem_of_getElem? (i := other) ?_)
    rw [List.getElem?_set_ne same]
    exact atOther

theorem mem_set_self {β : Type*} {table : List β} {thread : Nat} {before : β}
    (found : table[thread]? = some before) (after : β) : after ∈ table.set thread after := by
  refine List.mem_of_getElem? (i := thread) ?_
  obtain ⟨inside, _⟩ := List.getElem?_eq_some_iff.mp found
  exact List.getElem?_set_self inside

theorem countP_set {β : Type*} {table : List β} {thread : Nat} {before : β}
    (found : table[thread]? = some before) (after : β) (counts : β → Bool) :
    (table.set thread after).countP counts + (counts before).toNat =
      table.countP counts + (counts after).toNat := by
  induction table generalizing thread with
  | nil => cases found
  | cons head tail ih =>
      cases thread with
      | zero =>
          cases found
          rw [List.set_cons_zero, List.countP_cons, List.countP_cons]
          cases counts before <;> cases counts after <;> simp
      | succ thread =>
          have fromTail := ih found
          rw [List.set_cons_succ, List.countP_cons, List.countP_cons]
          omega

theorem sum_map_set {β : Type*} {table : List β} {thread : Nat} {before : β}
    (found : table[thread]? = some before) (after : β) (weight : β → Nat) :
    ((table.set thread after).map weight).sum + weight before =
      (table.map weight).sum + weight after := by
  induction table generalizing thread with
  | nil => cases found
  | cons head tail ih =>
      cases thread with
      | zero =>
          cases found
          rw [List.set_cons_zero, List.map_cons, List.map_cons, List.sum_cons, List.sum_cons]
          omega
      | succ thread =>
          have fromTail := ih found
          rw [List.set_cons_succ, List.map_cons, List.map_cons, List.sum_cons, List.sum_cons]
          omega

theorem countP_lt_countP {β : Type*} {table : List β} {strong weak : β → Bool}
    (implies : ∀ entry, strong entry → weak entry) {entry : β} (member : entry ∈ table)
    (holds : weak entry) (fails : strong entry = false) :
    table.countP strong < table.countP weak := by
  induction table with
  | nil => cases member
  | cons head tail ih =>
      rw [List.countP_cons, List.countP_cons]
      rcases List.mem_cons.mp member with rfl | inTail
      · have rest : tail.countP strong ≤ tail.countP weak :=
          List.countP_mono_left fun entry _ => implies entry
        rw [if_pos holds, fails]
        simp only [Bool.false_eq_true, if_false]
        omega
      · have rest := ih inTail
        by_cases first : strong head
        · rw [if_pos first, if_pos (implies head first)]
          omega
        · rw [if_neg first]
          omega

theorem filterMap_cons_toList {β γ : Type*} (held : β → Option γ) (first : β)
    (rest : List β) :
    (first :: rest).filterMap held = (held first).toList ++ rest.filterMap held := by
  cases holds : held first with
  | none => rw [List.filterMap_cons_none holds, Option.toList, List.nil_append]
  | some value => rw [List.filterMap_cons_some holds, Option.toList, List.singleton_append]

theorem filterMap_concat_toList {β γ : Type*} (held : β → Option γ) (front : List β)
    (last : β) :
    (front ++ [last]).filterMap held = front.filterMap held ++ (held last).toList := by
  rw [List.filterMap_append, filterMap_cons_toList, List.filterMap_nil, List.append_nil]

theorem count_filterMap_set {β γ : Type*} [DecidableEq γ] {table : List β} {thread : Nat}
    {before : β} (found : table[thread]? = some before) (after : β) (held : β → Option γ)
    (item : γ) :
    ((table.set thread after).filterMap held).count item + (held before).toList.count item =
      (table.filterMap held).count item + (held after).toList.count item := by
  induction table generalizing thread with
  | nil => cases found
  | cons head tail ih =>
      cases thread with
      | zero =>
          cases found
          rw [List.set_cons_zero, filterMap_cons_toList, filterMap_cons_toList, List.count_append,
            List.count_append]
          omega
      | succ thread =>
          have fromTail := ih found
          rw [List.set_cons_succ, filterMap_cons_toList, filterMap_cons_toList, List.count_append,
            List.count_append]
          omega

end CleanOS.Lib
