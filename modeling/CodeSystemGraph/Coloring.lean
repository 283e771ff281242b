import Mathlib.Data.Set.Insert
import Mathlib.Logic.Function.Basic
import Mathlib.Logic.Relation

/-! Coloring of a graph by exploration: a node takes the color of a neighbor that waits to be
expanded. When none waits any more, two colored nodes share a color exactly when they are
connected. -/

namespace CodeSystemGraph.Coloring
open Relation

variable {V C : Type} {adjacent : V → V → Prop}

/-- Every colored node that does not wait has passed its color on, and the nodes of one color are
connected. -/
structure Explored (adjacent : V → V → Prop) (waiting : Set V) (color : V → Option C) : Prop where
  passed : ∀ v c, color v = some c → v ∉ waiting → ∀ w, adjacent v w → color w = some c
  connected : ∀ v w c, color v = some c → color w = some c → ReflTransGen adjacent v w

variable {waiting : Set V} {color : V → Option C} {c : C} {v w : V}

theorem explored_none : Explored adjacent waiting fun _ : V => (none : Option C) where
  passed := fun _ _ is => by cases is
  connected := fun _ _ _ is => by cases is

theorem Explored.color_eq_iff (h : Explored adjacent ∅ color) (has : color v = some c) :
    color w = some c ↔ ReflTransGen adjacent v w := by
  constructor
  · exact h.connected v w c has
  · intro path
    induction path with
    | refl => exact has
    | tail _ near ih => exact h.passed _ c ih (Set.notMem_empty _) _ near

variable [DecidableEq V]

theorem Explored.start (h : Explored adjacent ∅ color) (bare : color v = none)
    (fresh : ∀ w, color w ≠ some c) :
    Explored adjacent {v} (Function.update color v (some c)) := by
  constructor
  case passed =>
    intro u d is settled w near
    rw [Function.update_of_ne settled] at is
    have next := h.passed u d is (Set.notMem_empty u) w near
    have differ : w ≠ v := by
      rintro rfl
      rw [bare] at next
      cases next
    rwa [Function.update_of_ne differ]
  case connected =>
    intro u w d is is'
    have only : ∀ x, Function.update color v (some c) x = some c → x = v := by
      intro x has
      by_contra differ
      rw [Function.update_of_ne differ] at has
      exact fresh x has
    by_cases new : d = c
    · subst new
      rw [only u is, only w is']
    · have old : ∀ x, Function.update color v (some c) x = some d → color x = some d := by
        intro x has
        by_cases here : x = v
        · rw [here, Function.update_self] at has
          exact absurd (Option.some.inj has).symm new
        · rwa [Function.update_of_ne here] at has
      exact h.connected u w d (old u is) (old w is')

theorem Explored.pass (symmetric : ∀ v w, adjacent v w → adjacent w v)
    (h : Explored adjacent waiting color) (has : color v = some c) (near : adjacent v w)
    (bare : color w = none) :
    Explored adjacent (insert w waiting) (Function.update color w (some c)) := by
  constructor
  case passed =>
    intro u d is settled x beside
    rw [Set.mem_insert_iff, not_or] at settled
    rw [Function.update_of_ne settled.1] at is
    have next := h.passed u d is settled.2 x beside
    have differ : x ≠ w := by
      rintro rfl
      rw [bare] at next
      cases next
    rwa [Function.update_of_ne differ]
  case connected =>
    -- every node of the color is connected with the one that passes it on
    have link : ∀ x d, Function.update color w (some c) x = some d →
        color x = some d ∨ (x = w ∧ d = c) := by
      intro x d is
      by_cases here : x = w
      · rw [here, Function.update_self] at is
        exact .inr ⟨here, (Option.some.inj is).symm⟩
      · rw [Function.update_of_ne here] at is
        exact .inl is
    intro u x d is is'
    cases link u d is with
    | inl old =>
      cases link x d is' with
      | inl old' => exact h.connected u x d old old'
      | inr new' =>
        obtain ⟨rfl, rfl⟩ := new'
        exact (h.connected u v d old has).tail near
    | inr new =>
      obtain ⟨rfl, rfl⟩ := new
      cases link x d is' with
      | inl old' => exact (h.connected v x d has old').head (symmetric v u near)
      | inr new' =>
        obtain ⟨rfl, -⟩ := new'
        exact .refl

theorem Explored.settle (symmetric : ∀ v w, adjacent v w → adjacent w v)
    (h : Explored adjacent (insert v waiting) color)
    (same : ∀ w ∈ insert v waiting, color w = some c)
    (all : ∀ w, adjacent v w → color w ≠ none) : Explored adjacent waiting color where
  connected := h.connected
  passed := by
    intro u d is settled w near
    by_cases here : u = v
    · subst here
      obtain rfl : c = d := Option.some.inj ((same u (Set.mem_insert u waiting)).symm.trans is)
      obtain ⟨e, is'⟩ := Option.ne_none_iff_exists'.1 (all w near)
      by_cases waits : w ∈ insert u waiting
      · exact same w waits
      · rw [is', ← h.passed w e is' waits u (symmetric u w near), is]
    · refine h.passed u d is (fun waits => ?_) w near
      exact (Set.mem_insert_iff.1 waits).elim here settled

end CodeSystemGraph.Coloring
