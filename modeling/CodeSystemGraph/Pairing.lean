import Mathlib.Data.Finset.Union
import Mathlib.Data.List.Basic
import Mathlib.Data.List.Pairwise

/-! Greedy pairing: a candidate is taken unless one of its two ends has been used. Where the
candidates with both ends unused have no end in common, exactly these are taken. In a relation
this is so once everything is used that branches, and whatever it branches to. -/

namespace CodeSystemGraph.Pairing

section Greedy

variable {A B C : Type} [DecidableEq A] [DecidableEq B] (left : C → A) (right : C → B)

def pairUp : Finset A → Finset B → List C → List C
  | _, _, [] => []
  | lefts, rights, c :: rest =>
    if left c ∈ lefts ∨ right c ∈ rights then pairUp lefts rights rest
    else c :: pairUp (insert (left c) lefts) (insert (right c) rights) rest

def unused (lefts : Finset A) (rights : Finset B) (candidates : List C) : List C :=
  candidates.filter fun c => left c ∉ lefts ∧ right c ∉ rights

variable {left right}

theorem pairUp_eq_unused {candidates : List C} {lefts : Finset A} {rights : Finset B}
    (apart : (unused left right lefts rights candidates).Pairwise fun c d =>
      left c ≠ left d ∧ right c ≠ right d) :
    pairUp left right lefts rights candidates = unused left right lefts rights candidates := by
  induction candidates generalizing lefts rights with
  | nil => rfl
  | cons c rest ih =>
    by_cases used : left c ∈ lefts ∨ right c ∈ rights
    · have skipped : unused left right lefts rights (c :: rest) =
          unused left right lefts rights rest := by
        refine List.filter_cons_of_neg fun both => ?_
        obtain ⟨fresh, fresh'⟩ := of_decide_eq_true both
        exact used.elim fresh fresh'
      rw [skipped] at apart ⊢
      rw [pairUp, if_pos used, ih apart]
    · have fresh := not_or.1 used
      have taken : unused left right lefts rights (c :: rest) =
          c :: unused left right lefts rights rest :=
        List.filter_cons_of_pos (decide_eq_true fresh)
      rw [taken, List.pairwise_cons] at apart
      -- using the ends of the candidate rules out none of the others that were unused
      have same : unused left right (insert (left c) lefts) (insert (right c) rights) rest =
          unused left right lefts rights rest := by
        refine List.filter_congr fun d mem => ?_
        simp only [Finset.mem_insert, not_or, decide_eq_decide]
        constructor
        · exact fun both => ⟨both.1.2, both.2.2⟩
        · intro both
          have differ := apart.1 d (List.mem_filter.2 ⟨mem, decide_eq_true both⟩)
          exact ⟨⟨differ.1.symm, both.1⟩, differ.2.symm, both.2⟩
      rw [pairUp, if_neg used, taken, ih (same ▸ apart.2), same]

end Greedy

section Branching

variable {A B : Type} {next : A → List B} {back : B → List A}

theorem eq_singleton {l : List A} (found : l ≠ []) (few : l.length < 2) : ∃ a, l = [a] := by
  refine List.length_eq_one_iff.1 ?_
  have := List.length_pos_iff.2 found
  omega

theorem exists_only (mirror : ∀ a b, b ∈ next a ↔ a ∈ back b) {a : A} (found : next a ≠ [])
    (few : (next a).length < 2) (fewBack : ∀ b ∈ next a, (back b).length < 2) :
    ∃ b, next a = [b] ∧ back b = [a] := by
  obtain ⟨b, only⟩ := eq_singleton found few
  have mem : b ∈ next a := only ▸ List.mem_singleton_self b
  have mem' : a ∈ back b := (mirror a b).1 mem
  obtain ⟨a', only'⟩ := eq_singleton (List.ne_nil_of_mem mem') (fewBack b mem)
  rw [only', List.mem_singleton] at mem'
  exact ⟨b, only, mem' ▸ only'⟩

/-- An element that is used by branching, its own or that of something it leads to. -/
def Branched (next : A → List B) (back : B → List A) (a : A) : Prop :=
  2 ≤ (next a).length ∨ ∃ b, 2 ≤ (back b).length ∧ a ∈ back b

theorem exists_only_of_not_branched (mirror : ∀ a b, b ∈ next a ↔ a ∈ back b) {a : A}
    (found : next a ≠ []) (free : ¬Branched next back a) : ∃ b, next a = [b] ∧ back b = [a] := by
  rw [Branched, not_or, not_exists] at free
  exact exists_only mirror found (Nat.lt_of_not_le free.1) fun b mem =>
    Nat.lt_of_not_le fun many => free.2 b ⟨many, (mirror a b).1 mem⟩

theorem not_branched_of_only (mirror : ∀ a b, b ∈ next a ↔ a ∈ back b) {a : A} {b : B}
    (only : next a = [b]) (only' : back b = [a]) : ¬Branched next back a := by
  rintro (many | ⟨b', many, mem⟩)
  · simp [only] at many
  · have led : b' ∈ next a := (mirror a b').2 mem
    rw [only, List.mem_singleton] at led
    simp [led, only'] at many

theorem unpaired_iff (mirror : ∀ a b, b ∈ next a ↔ a ∈ back b) (a : A) :
    ¬(Branched next back a ∨ ∃ b, next a = [b] ∧ back b = [a]) ↔ next a = [] := by
  constructor
  · intro free
    rw [not_or] at free
    by_contra found
    exact free.2 (exists_only_of_not_branched mirror found free.1)
  · rintro nothing ((many | ⟨b, -, mem⟩) | ⟨b, only, -⟩)
    · simp [nothing] at many
    · have led : b ∈ next a := (mirror a b).2 mem
      simp [nothing] at led
    · simp [nothing] at only

end Branching

end CodeSystemGraph.Pairing
