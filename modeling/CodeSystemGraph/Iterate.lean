import Mathlib.Algebra.Order.Ring.Nat
import Mathlib.Algebra.Order.BigOperators.Group.List

/-! Loops with a decreasing measure. A loop body either goes round again from
a new state or leaves with a result. The bounded runner is structural on its
fuel, so closed runs evaluate; `loop` supplies enough fuel from the measure and
is therefore total on every state that satisfies the invariant of the measure. -/

namespace CodeSystemGraph.Iterate

universe u v

inductive Turn (σ : Type u) (ρ : Type v)
  | again (state : σ)
  | leave (result : ρ)

variable {σ : Type u} {ρ : Type v} (step : σ → Turn σ ρ)

def run : Nat → σ → Option ρ
  | 0, _ => none
  | fuel + 1, s =>
    match step s with
    | .again s' => run fuel s'
    | .leave r => some r

/-- What a measure has to satisfy: every further turn keeps the invariant and
makes the measure smaller. -/
structure Terminates (inv : σ → Prop) (measure : σ → Nat) : Prop where
  keep : ∀ s s', inv s → step s = .again s' → inv s'
  decrease : ∀ s s', inv s → step s = .again s' → measure s' < measure s

variable {step} {inv : σ → Prop} {measure : σ → Nat}

theorem run_isSome (h : Terminates step inv measure) (fuel : Nat) (s : σ) (hs : inv s)
    (enough : measure s < fuel) : (run step fuel s).isSome := by
  induction fuel generalizing s with
  | zero => omega
  | succ fuel ih =>
    unfold run
    cases turn : step s with
    | leave r => rfl
    | again s' =>
      have smaller := h.decrease s s' hs turn
      exact ih s' (h.keep s s' hs turn) (by omega)

theorem run_mono {fuel more : Nat} (le : fuel ≤ more) {s : σ} {r : ρ}
    (result : run step fuel s = some r) : run step more s = some r := by
  induction fuel generalizing s more with
  | zero => simp [run] at result
  | succ fuel ih =>
    obtain ⟨more, rfl⟩ := Nat.exists_eq_succ_of_ne_zero (Nat.ne_of_gt (Nat.lt_of_lt_of_le
      (Nat.succ_pos fuel) le))
    unfold run at result ⊢
    cases turn : step s with
    | leave r' =>
      rw [turn] at result
      exact result
    | again s' =>
      rw [turn] at result
      exact ih (Nat.le_of_succ_le_succ le) result

def loop (h : Terminates step inv measure) (s : σ) (hs : inv s) : ρ :=
  (run step (measure s + 1) s).get (run_isSome h _ s hs (Nat.lt_succ_self _))

theorem run_rule (assertion : σ → Prop) (post : ρ → Prop)
    (keep : ∀ s s', assertion s → step s = .again s' → assertion s')
    (exit : ∀ s r, assertion s → step s = .leave r → post r)
    (fuel : Nat) (s : σ) (hs : assertion s) (r : ρ) (result : run step fuel s = some r) :
    post r := by
  induction fuel generalizing s with
  | zero => simp [run] at result
  | succ fuel ih =>
    unfold run at result
    cases turn : step s with
    | leave r' =>
      rw [turn] at result
      obtain rfl : r' = r := by simpa using result
      exact exit s r' hs turn
    | again s' =>
      rw [turn] at result
      exact ih s' (keep s s' hs turn) result

theorem loop_rule (h : Terminates step inv measure) (assertion : σ → Prop) (post : ρ → Prop)
    (keep : ∀ s s', assertion s → step s = .again s' → assertion s')
    (exit : ∀ s r, assertion s → step s = .leave r → post r)
    (s : σ) (hs : inv s) (start : assertion s) : post (loop h s hs) :=
  run_rule assertion post keep exit _ s start _ (Option.some_get _).symm

def Turn.Holds (assertion : σ → Prop) (post : ρ → Prop) : Turn σ ρ → Prop
  | .again s => assertion s
  | .leave r => post r

theorem loop_holds (h : Terminates step inv measure) (assertion : σ → Prop) (post : ρ → Prop)
    (each : ∀ s, assertion s → (step s).Holds assertion post)
    (s : σ) (hs : inv s) (start : assertion s) : post (loop h s hs) := by
  refine loop_rule h assertion post (fun s s' hs turn => ?_) (fun s r hs turn => ?_) s hs start
  · have holds := each s hs
    rwa [turn] at holds
  · have holds := each s hs
    rwa [turn] at holds

def Turn.Related {σ' : Type*} {ρ' : Type*} (R : σ → σ' → Prop) (Q : ρ → ρ' → Prop) :
    Turn σ ρ → Turn σ' ρ' → Prop
  | .again s, .again s' => R s s'
  | .leave r, .leave r' => Q r r'
  | _, _ => False

theorem run_related {σ' : Type*} {ρ' : Type*} {step' : σ' → Turn σ' ρ'} {R : σ → σ' → Prop}
    {Q : ρ → ρ' → Prop} (each : ∀ s s', R s s' → (step s).Related R Q (step' s')) (fuel : Nat)
    {s : σ} {s' : σ'} (related : R s s') : Option.Rel Q (run step fuel s) (run step' fuel s') := by
  induction fuel generalizing s s' with
  | zero => exact .none
  | succ fuel ih =>
    have same := each s s' related
    unfold run
    cases turn : step s <;> cases turn' : step' s' <;> rw [turn, turn'] at same
    · exact ih same
    · exact same.elim
    · exact same.elim
    · exact .some same

theorem loop_congr {step' : σ → Turn σ ρ} {inv' : σ → Prop} {measure' : σ → Nat}
    (h : Terminates step inv measure) (h' : Terminates step' inv' measure') (same : step = step')
    (s : σ) (hs : inv s) (hs' : inv' s) (fuel : measure s = measure' s) :
    loop h s hs = loop h' s hs' := by
  subst same
  simp only [loop, fuel]

section Worth

/-- The worth of a path still to be expanded: an upper bound for the number of
paths below it in a tree of the given branching and depth. -/
def worth (branching depth length : Nat) : Nat := (branching + 1) ^ (depth - length)

variable {α : Type*} (size : α → Nat) (branching depth : Nat)

def totalWorth (pending : List α) : Nat :=
  (pending.map fun a => worth branching depth (size a)).sum

@[simp] theorem totalWorth_cons (a : α) (l : List α) :
    totalWorth size branching depth (a :: l) =
      worth branching depth (size a) + totalWorth size branching depth l := by
  simp [totalWorth]

@[simp] theorem totalWorth_append (l l' : List α) :
    totalWorth size branching depth (l ++ l') =
      totalWorth size branching depth l + totalWorth size branching depth l' := by
  simp [totalWorth]

theorem totalWorth_perm {l l' : List α} (h : l.Perm l') :
    totalWorth size branching depth l = totalWorth size branching depth l' :=
  (h.map _).sum_eq

theorem worth_pos (length : Nat) : 0 < worth branching depth length :=
  Nat.pow_pos (Nat.succ_pos _)

theorem totalWorth_children_lt (length : Nat) (short : length < depth) (children : List α)
    (longer : ∀ a ∈ children, size a = length + 1) (few : children.length ≤ branching) :
    totalWorth size branching depth children < worth branching depth length := by
  have each : ∀ w ∈ children.map (fun a => worth branching depth (size a)),
      w ≤ worth branching depth (length + 1) := by
    intro w hw
    obtain ⟨a, ha, rfl⟩ := List.mem_map.mp hw
    rw [longer a ha]
  have bound := List.sum_le_card_nsmul _ _ each
  have pos := worth_pos branching depth (length + 1)
  have split : worth branching depth length =
      worth branching depth (length + 1) * (branching + 1) := by
    have : depth - length = depth - (length + 1) + 1 := by omega
    rw [worth, worth, this, pow_succ]
  calc
    totalWorth size branching depth children
        ≤ children.length * worth branching depth (length + 1) := by
          simpa [totalWorth] using bound
    _ ≤ branching * worth branching depth (length + 1) := Nat.mul_le_mul_right _ few
    _ < worth branching depth length := by
          rw [split, Nat.mul_succ, Nat.mul_comm]
          exact Nat.lt_add_of_pos_right pos

/-- A loop that takes one path out of its pending paths and puts in one-step
extensions of it terminates, when no path is extended beyond the depth. -/
theorem terminates_of_replace {pending : σ → List α}
    (replaced : ∀ s s', (∀ a ∈ pending s, size a ≤ depth) → step s = .again s' →
      ∃ a rest children,
      (pending s).Perm (a :: rest) ∧ (pending s').Perm (rest ++ children) ∧
      children.length ≤ branching ∧ (∀ c ∈ children, size c = size a + 1) ∧
      (depth ≤ size a → children = [])) :
    Terminates step (fun s => ∀ a ∈ pending s, size a ≤ depth)
      (fun s => totalWorth size branching depth (pending s)) where
  keep s s' bounded turn := by
    obtain ⟨a, rest, children, before, after, -, longer, full⟩ := replaced s s' bounded turn
    intro c hc
    rcases List.mem_append.mp (after.mem_iff.mp hc) with hc | hc
    · exact bounded c (before.mem_iff.mpr (List.mem_cons_of_mem a hc))
    · by_cases deep : depth ≤ size a
      · simp [full deep] at hc
      · rw [longer c hc]
        omega
  decrease s s' bounded turn := by
    obtain ⟨a, rest, children, before, after, few, longer, full⟩ := replaced s s' bounded turn
    rw [totalWorth_perm size branching depth before, totalWorth_perm size branching depth after,
      totalWorth_append, totalWorth_cons, Nat.add_comm]
    refine Nat.add_lt_add_right ?_ _
    by_cases deep : depth ≤ size a
    · rw [full deep]
      exact worth_pos _ _ _
    · exact totalWorth_children_lt _ _ _ _ (by omega) children longer few

end Worth

end CodeSystemGraph.Iterate
