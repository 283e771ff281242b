import Mathlib.Algebra.Order.Monoid.Defs

/-! Programs with a state and errors, where a failed program keeps the state it has
reached. A program is judged by a relation between its first and its last state, graded
by what it may spend, and by what it returns. -/

namespace CodeSystemGraph.Effects

variable {ε σ α β G : Type}

abbrev Program (ε σ α : Type) := ExceptT ε (StateM σ) α

def outcome (program : Program ε σ α) (s : σ) : Except ε α × σ := program.run.run s

@[simp] theorem outcome_pure (a : α) (s : σ) : outcome (pure a : Program ε σ α) s = (.ok a, s) := rfl

@[simp] theorem outcome_throw (e : ε) (s : σ) : outcome (throw e : Program ε σ α) s = (.error e, s) := rfl

@[simp] theorem outcome_get (s : σ) : outcome (get : Program ε σ σ) s = (.ok s, s) := rfl

@[simp] theorem outcome_set (s s' : σ) : outcome (set s' : Program ε σ Unit) s = (.ok (), s') := rfl

@[simp] theorem outcome_modify (f : σ → σ) (s : σ) :
    outcome (modify f : Program ε σ Unit) s = (.ok (), f s) := rfl

theorem outcome_bind (program : Program ε σ α) (next : α → Program ε σ β) (s : σ) :
    outcome (program >>= next) s =
      match outcome program s with
      | (.ok a, s') => outcome (next a) s'
      | (.error e, s') => (.error e, s') := by
  simp only [outcome, bind, ExceptT.bind, ExceptT.bindCont, ExceptT.run, ExceptT.mk, StateT.bind,
    StateT.run]
  cases result : (program s : Except ε α × σ) with
  | mk value s' => cases value <;> rfl

theorem outcome_tryCatch (program : Program ε σ α) (handler : ε → Program ε σ α) (s : σ) :
    outcome (tryCatch program handler) s =
      match outcome program s with
      | (.ok a, s') => (.ok a, s')
      | (.error e, s') => outcome (handler e) s' := by
  simp only [outcome, tryCatch, tryCatchThe, MonadExceptOf.tryCatch, ExceptT.tryCatch, ExceptT.run,
    ExceptT.mk, bind, StateT.bind, StateT.run]
  cases result : (program s : Except ε α × σ) with
  | mk value s' => cases value <;> rfl

theorem outcome_bind_eq_ok {program : Program ε σ α} {next : α → Program ε σ β} {s t : σ} {b : β} :
    outcome (program >>= next) s = (.ok b, t) ↔
      ∃ a u, outcome program s = (.ok a, u) ∧ outcome (next a) u = (.ok b, t) := by
  rw [outcome_bind]
  cases outcome program s with
  | mk value u => cases value <;> simp [and_assoc]

theorem outcome_bind_eq_error {program : Program ε σ α} {next : α → Program ε σ β} {s t : σ} {e : ε} :
    outcome (program >>= next) s = (.error e, t) ↔ outcome program s = (.error e, t) ∨
      ∃ a u, outcome program s = (.ok a, u) ∧ outcome (next a) u = (.error e, t) := by
  rw [outcome_bind]
  cases outcome program s with
  | mk value u => cases value <;> simp [and_assoc]

theorem outcome_tryCatch_eq_ok {program : Program ε σ α} {handler : ε → Program ε σ α} {s t : σ}
    {a : α} :
    outcome (tryCatch program handler) s = (.ok a, t) ↔ outcome program s = (.ok a, t) ∨
      ∃ e u, outcome program s = (.error e, u) ∧ outcome (handler e) u = (.ok a, t) := by
  rw [outcome_tryCatch]
  cases outcome program s with
  | mk value u => cases value <;> simp [and_assoc]

/-- A relation on states that composes while its grades add up, and keeps what is assumed
of the first state. -/
structure Graded [Add G] (pre : σ → Prop) (R : G → σ → σ → Prop) : Prop where
  refl : ∀ g s, R g s s
  trans : ∀ {g h s t u}, R g s t → R h t u → R (g + h) s u
  keeps : ∀ {g s t}, pre s → R g s t → pre t

/-- From an admissible state the program stays within the grade and returns only what
the postcondition says. -/
def Does (pre : σ → Prop) (R : G → σ → σ → Prop) (g : G) (post : α → Prop) (program : Program ε σ α) :
    Prop :=
  ∀ s, pre s → R g s (outcome program s).2 ∧ ∀ a, (outcome program s).1 = .ok a → post a

variable [Add G] {pre : σ → Prop} {R : G → σ → σ → Prop} (graded : Graded pre R)
  {post : α → Prop} {post' : β → Prop} {g h : G} {program : Program ε σ α}

include graded

theorem does_pure {a : α} (holds : post a) : Does pre R g post (pure a : Program ε σ α) := by
  intro s _
  refine ⟨graded.refl g s, fun b result => ?_⟩
  cases result
  exact holds

theorem does_throw (e : ε) : Does pre R g post (throw e : Program ε σ α) := by
  intro s _
  refine ⟨graded.refl g s, fun b result => ?_⟩
  cases result

theorem does_get : Does pre R g (fun _ => True) (get : Program ε σ σ) := fun s _ =>
  ⟨graded.refl g s, fun _ _ => trivial⟩

theorem does_bind {next : α → Program ε σ β} (first : Does pre R g post program)
    (second : ∀ a, post a → Does pre R h post' (next a)) :
    Does pre R (g + h) post' (program >>= next) := by
  intro s admissible
  have ⟨moved, returned⟩ := first s admissible
  rw [outcome_bind]
  cases result : outcome program s with
  | mk value s' =>
    rw [result] at moved returned
    cases value with
    | ok a =>
      have ⟨moved', returned'⟩ := second a (returned a rfl) s' (graded.keeps admissible moved)
      exact ⟨graded.trans moved moved', returned'⟩
    | error e =>
      refine ⟨graded.trans moved (graded.refl h s'), fun b result => ?_⟩
      cases result

theorem does_tryCatch {handler : ε → Program ε σ α} (first : Does pre R g post program)
    (second : ∀ e, Does pre R h post (handler e)) :
    Does pre R (g + h) post (tryCatch program handler) := by
  intro s admissible
  have ⟨moved, returned⟩ := first s admissible
  rw [outcome_tryCatch]
  cases result : outcome program s with
  | mk value s' =>
    rw [result] at moved returned
    cases value with
    | ok a => exact ⟨graded.trans moved (graded.refl h s'), returned⟩
    | error e =>
      have ⟨moved', returned'⟩ := second e s' (graded.keeps admissible moved)
      exact ⟨graded.trans moved moved', returned'⟩

omit graded

end CodeSystemGraph.Effects
