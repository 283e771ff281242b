import Mathlib.Data.List.Basic

/-!
Labelled steps. A system is a step function that may refuse an action; a run is
a list of actions, each of them accepted. A trace lists what happened, the newest last.
-/

namespace CodeSystemGraph.Steps

variable {σ α : Type} (step : σ → α → Option σ)

def run : σ → List α → Option σ
  | state, [] => some state
  | state, action :: actions => (step state action).bind fun next => run next actions

variable {step}

theorem run_cons_eq_some {state final : σ} {action : α} {actions : List α} :
    run step state (action :: actions) = some final ↔
      ∃ next, step state action = some next ∧ run step next actions = some final :=
  Option.bind_eq_some_iff

variable (step) in
/-- Every step of the run meets a condition on the state before it. -/
def Meets (condition : σ → α → Prop) : σ → List α → Prop
  | _, [] => True
  | state, action :: actions =>
    condition state action ∧ ∀ next ∈ step state action, Meets condition next actions

instance decidableMeets {condition : σ → α → Prop} [∀ state action, Decidable (condition state action)] :
    ∀ (state : σ) (actions : List α), Decidable (Meets step condition state actions)
  | _, [] => isTrue trivial
  | state, action :: actions =>
    have : DecidablePred fun next => Meets step condition next actions :=
      fun next => decidableMeets next actions
    inferInstanceAs (Decidable (condition state action ∧
      ∀ next ∈ step state action, Meets step condition next actions))

theorem run_keeps_of_meets {condition : σ → α → Prop} {inv : σ → Prop}
    (kept : ∀ state action next, inv state → condition state action →
      step state action = some next → inv next) :
    ∀ {actions : List α} {state final : σ}, inv state → Meets step condition state actions →
      run step state actions = some final → inv final := by
  intro actions
  induction actions with
  | nil =>
    intro state final holds _ ran
    rw [run, Option.some.injEq] at ran
    rwa [← ran]
  | cons action actions ih =>
    intro state final holds meets ran
    obtain ⟨next, stepped, rest⟩ := run_cons_eq_some.1 ran
    exact ih (kept state action next holds meets.1 stepped) (meets.2 next stepped) rest

theorem meets_true (actions : List α) : ∀ state : σ, Meets step (fun _ _ => True) state actions := by
  induction actions with
  | nil => exact fun _ => trivial
  | cons action actions ih => exact fun _ => ⟨trivial, fun next _ => ih next⟩

theorem run_keeps {inv : σ → Prop}
    (kept : ∀ state action next, inv state → step state action = some next → inv next)
    {actions : List α} {state final : σ} (holds : inv state)
    (ran : run step state actions = some final) : inv final :=
  run_keeps_of_meets (fun state action next holds _ => kept state action next holds) holds
    (meets_true actions state) ran

def Since (start hold : σ → Prop) (trace : List σ) : Prop :=
  ∃ earlier entry later, trace = earlier ++ entry :: later ∧ start entry ∧
    ∀ next ∈ later, hold next

theorem not_since_nil (start hold : σ → Prop) : ¬Since start hold [] := by
  intro since
  obtain ⟨earlier, entry, later, split, _⟩ := since
  exact absurd split.symm (List.append_ne_nil_of_right_ne_nil earlier (List.cons_ne_nil entry later))

theorem since_concat {start hold : σ → Prop} {trace : List σ} {last : σ} :
    Since start hold (trace ++ [last]) ↔ start last ∨ hold last ∧ Since start hold trace := by
  constructor
  · intro since
    obtain ⟨earlier, entry, later, split, started, held⟩ := since
    rcases List.eq_nil_or_concat later with none | some
    · rw [none] at split
      have same := (List.append_inj' split rfl).2
      rw [(List.cons.inj same).1]
      exact Or.inl started
    · obtain ⟨before, newest, concat⟩ := some
      rw [concat, List.concat_eq_append, ← List.cons_append, ← List.append_assoc] at split
      have parts := List.append_inj' split rfl
      rw [(List.cons.inj parts.2).1]
      apply Or.inr
      refine ⟨held newest (by simp [concat]), earlier, entry, before, parts.1, started, ?_⟩
      intro next mem
      exact held next (by simp [concat, mem])
  · intro cases
    rcases cases with started | since
    · exact ⟨trace, last, [], rfl, started, fun _ mem => absurd mem List.not_mem_nil⟩
    · obtain ⟨holds, earlier, entry, later, split, started, held⟩ := since
      refine ⟨earlier, entry, later ++ [last], by rw [split]; simp, started, ?_⟩
      intro next mem
      rcases List.mem_append.1 mem with old | new
      · exact held next old
      · rw [List.mem_singleton.1 new]
        exact holds

end CodeSystemGraph.Steps
