import Mathlib.Algebra.BigOperators.Group.Finset.Piecewise
import Mathlib.Algebra.BigOperators.Ring.Finset
import Mathlib.Algebra.BigOperators.Field
import Mathlib.Tactic.FieldSimp
import Mathlib.Tactic.Abel
import Mathlib.Tactic.Ring

/-! Modularity of a partition of a weighted multigraph, over a field. A link from a vertex
to itself counts twice in the degree of that vertex and once in the total weight. -/

namespace CodeSystemGraph.Modularity

structure Link (V K : Type*) where
  source : V
  target : V
  weight : K

variable {V L K : Type*} [DecidableEq V] [DecidableEq L] [Field K]

def total (links : List (Link V K)) : K := (links.map Link.weight).sum

def degree (links : List (Link V K)) (v : V) : K :=
  (links.map fun link => (if link.source = v then link.weight else 0) +
    if link.target = v then link.weight else 0).sum

def internal (links : List (Link V K)) (a : V → L) (c : L) : K :=
  (links.map fun link => if a link.source = c ∧ a link.target = c then link.weight else 0).sum

def strength (links : List (Link V K)) (vertices : Finset V) (a : V → L) (c : L) : K :=
  ∑ v ∈ vertices with a v = c, degree links v

def pull (link : Link V K) (a : V → L) (v : V) (c : L) : K :=
  if link.source = link.target then 0
  else if link.source = v ∧ a link.target = c then link.weight
  else if link.target = v ∧ a link.source = c then link.weight
  else 0

def attraction (links : List (Link V K)) (a : V → L) (v : V) (c : L) : K :=
  (links.map fun link => pull link a v c).sum

def modularity (links : List (Link V K)) (vertices : Finset V) (labels : Finset L) (resolution : K)
    (a : V → L) : K :=
  ∑ c ∈ labels, (internal links a c / total links -
    resolution * (strength links vertices a c / (2 * total links)) ^ 2)

/-- What a vertex gains for the partition when it moves to another community. -/
def gain (links : List (Link V K)) (vertices : Finset V) (resolution : K) (a : V → L) (v : V)
    (c : L) : K :=
  (attraction links a v c - attraction links a v (a v)) / total links -
    resolution * degree links v *
      (strength links vertices a c - (strength links vertices a (a v) - degree links v)) /
        (2 * total links * total links)

omit [DecidableEq V] in
theorem sum_internal {links : List (Link V K)} {labels : Finset L} {a : V → L}
    (known : ∀ link ∈ links, a link.source ∈ labels) :
    ∑ c ∈ labels, internal links a c =
      (links.map fun link => if a link.source = a link.target then link.weight else 0).sum := by
  induction links with
  | nil => simp [internal]
  | cons link links ih =>
    obtain ⟨here, known⟩ := List.forall_mem_cons.1 known
    have split : ∀ c, internal (link :: links) a c =
        (if a link.source = c ∧ a link.target = c then link.weight else 0) + internal links a c :=
      fun c => by simp [internal]
    have single : ∑ c ∈ labels, (if a link.source = c ∧ a link.target = c then link.weight else 0) =
        if a link.source = a link.target then link.weight else 0 := by
      rw [Finset.sum_eq_single_of_mem (a link.source) here]
      · simp [eq_comm]
      · intro c _ differ
        rw [if_neg fun both => differ both.1.symm]
    simp only [split, Finset.sum_add_distrib, single, ih known, List.map_cons, List.sum_cons]

theorem agreement_update (link : Link V K) {a : V → L} {v : V} {c : L} (differ : c ≠ a v) :
    (if Function.update a v c link.source = Function.update a v c link.target
        then link.weight else 0) =
      (if a link.source = a link.target then link.weight else 0) +
        (pull link a v c - pull link a v (a v)) := by
  unfold pull
  by_cases loop : link.source = link.target
  · simp [loop]
  · simp only [loop, ↓reduceIte]
    by_cases source : link.source = v
    · have target : link.target ≠ v := fun same => loop (source.trans same.symm)
      simp only [source, target, Function.update_self, Function.update_of_ne target, true_and,
        false_and, ↓reduceIte]
      by_cases there : a link.target = c
      · simp [there, differ, Ne.symm differ]
      · by_cases back : a link.target = a v
        · simp [differ, differ.symm, back]
        · simp [there, Ne.symm there, back, Ne.symm back]
    · by_cases target : link.target = v
      · simp only [source, target, Function.update_self, Function.update_of_ne source, true_and,
          false_and, ↓reduceIte]
        by_cases there : a link.source = c
        · simp [there, differ]
        · by_cases back : a link.source = a v
          · simp [back]
          · simp [there, back]
      · simp [source, target, Function.update_of_ne]

theorem sum_agreement_update (links : List (Link V K)) {a : V → L} {v : V} {c : L}
    (differ : c ≠ a v) :
    (links.map fun link => if Function.update a v c link.source = Function.update a v c link.target
        then link.weight else 0).sum =
      (links.map fun link => if a link.source = a link.target then link.weight else 0).sum +
        (attraction links a v c - attraction links a v (a v)) := by
  induction links with
  | nil => simp [attraction]
  | cons link links ih =>
    unfold attraction at ih ⊢
    simp only [List.map_cons, List.sum_cons]
    rw [ih, agreement_update link differ]
    ring

theorem sum_filter_update {M : Type*} [AddCommGroup M] (f : V → M) {vertices : Finset V} {a : V → L}
    {v : V} {c : L} (mem : v ∈ vertices) (differ : c ≠ a v) (d : L) :
    ∑ u ∈ vertices with Function.update a v c u = d, f u = ∑ u ∈ vertices with a u = d, f u +
      ((if d = c then f v else 0) - if d = a v then f v else 0) := by
  rw [Finset.sum_filter, Finset.sum_filter, ← Finset.add_sum_erase _ _ mem,
    ← Finset.add_sum_erase vertices (fun u => if a u = d then f u else 0) mem]
  have rest : ∑ u ∈ vertices.erase v, (if Function.update a v c u = d then f u else 0) =
      ∑ u ∈ vertices.erase v, if a u = d then f u else 0 := by
    refine Finset.sum_congr rfl fun u other => ?_
    rw [Function.update_of_ne (Finset.ne_of_mem_erase other)]
  rw [rest, Function.update_self]
  by_cases new : d = c
  · subst new
    rw [if_pos rfl, if_neg differ, if_neg differ.symm]
    abel
  · by_cases old : d = a v
    · subst old
      rw [if_neg differ, if_pos rfl, if_neg new]
      abel
    · rw [if_neg (Ne.symm new), if_neg (Ne.symm old), if_neg new, if_neg old]
      abel

theorem strength_update {links : List (Link V K)} {vertices : Finset V} {a : V → L} {v : V} {c : L}
    (mem : v ∈ vertices) (differ : c ≠ a v) (d : L) :
    strength links vertices (Function.update a v c) d = strength links vertices a d +
      ((if d = c then degree links v else 0) - if d = a v then degree links v else 0) :=
  sum_filter_update (degree links) mem differ d

theorem modularity_update [CharZero K] {links : List (Link V K)} {vertices : Finset V}
    {labels : Finset L} {resolution : K} {a : V → L} {v : V} {c : L} (nonzero : total links ≠ 0)
    (mem : v ∈ vertices) (differ : c ≠ a v) (source : a v ∈ labels) (target : c ∈ labels)
    (known : ∀ link ∈ links, a link.source ∈ labels) :
    modularity links vertices labels resolution (Function.update a v c) =
      modularity links vertices labels resolution a + gain links vertices resolution a v c := by
  have inside : ∀ link ∈ links, Function.update a v c link.source ∈ labels := by
    intro link listed
    rw [Function.update_apply]
    split
    · exact target
    · exact known link listed
  have squares : ∀ d, (strength links vertices (Function.update a v c) d) ^ 2 =
      strength links vertices a d ^ 2 +
        ((if d = c then degree links v ^ 2 + 2 * degree links v * strength links vertices a c else 0) +
          if d = a v then degree links v ^ 2 - 2 * degree links v * strength links vertices a (a v)
            else 0) := by
    intro d
    rw [strength_update mem differ]
    by_cases new : d = c
    · subst new
      simp only [differ, ↓reduceIte]
      ring
    · by_cases old : d = a v
      · subst old
        simp only [differ.symm, ↓reduceIte]
        ring
      · simp [new, old]
  have total_squares : ∑ d ∈ labels, (strength links vertices (Function.update a v c) d) ^ 2 =
      ∑ d ∈ labels, strength links vertices a d ^ 2 +
        (2 * degree links v * (strength links vertices a c -
          (strength links vertices a (a v) - degree links v))) := by
    simp only [squares, Finset.sum_add_distrib, Finset.sum_ite_eq', source, target, ↓reduceIte]
    ring
  have unfolded : ∀ b : V → L, (∀ link ∈ links, b link.source ∈ labels) →
      modularity links vertices labels resolution b =
        (links.map fun link => if b link.source = b link.target then link.weight else 0).sum /
            total links -
          resolution * (∑ d ∈ labels, strength links vertices b d ^ 2) / (2 * total links) ^ 2 := by
    intro b listed
    unfold modularity
    rw [Finset.sum_sub_distrib, ← Finset.sum_div, sum_internal listed, ← Finset.mul_sum]
    simp only [div_pow]
    rw [← Finset.sum_div]
    ring
  rw [unfolded _ inside, unfolded _ known, sum_agreement_update links differ, total_squares, gain]
  field_simp
  ring

end CodeSystemGraph.Modularity
