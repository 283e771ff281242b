import Mathlib.Data.List.Perm.Basic
import Mathlib.Order.Lattice

/-! Items with weights in a fixed order, given up from the front until the rest fits a limit. -/

namespace CodeSystemGraph.Eviction

variable {α : Type} (weight : α → ℕ) (limit : ℕ)

def total (items : List α) : ℕ := items.foldr (fun item sum => weight item + sum) 0

/-- The first items, as few as bring the sum to the limit. -/
def victims : ℕ → List α → List α
  | _, [] => []
  | sum, item :: items =>
    if limit < sum then item :: victims (sum - weight item) items else []

theorem total_cons (item : α) (items : List α) :
    total weight (item :: items) = weight item + total weight items := rfl

theorem total_append (items items' : List α) :
    total weight (items ++ items') = total weight items + total weight items' := by
  induction items with
  | nil => simp [total]
  | cons item items ih => rw [List.cons_append, total_cons, total_cons, ih, Nat.add_assoc]

theorem total_perm {items items' : List α} (perm : items.Perm items') :
    total weight items = total weight items' := by
  induction perm with
  | nil => rfl
  | cons item _ ih => rw [total_cons, total_cons, ih]
  | swap item item' items => simp only [total_cons]; omega
  | trans _ _ ih ih' => rw [ih, ih']

theorem weight_le_total {item : α} {items : List α} (mem : item ∈ items) :
    weight item ≤ total weight items := by
  induction items with
  | nil => exact absurd mem List.not_mem_nil
  | cons first items ih =>
    rw [total_cons]
    rcases List.mem_cons.1 mem with rfl | rest
    · omega
    · have := ih rest
      omega

variable {weight}

theorem victims_split (sum : ℕ) (items : List α) (covered : sum ≤ total weight items) :
    ∃ kept, items = victims weight limit sum items ++ kept ∧
      sum ≤ total weight (victims weight limit sum items) + limit := by
  induction items generalizing sum with
  | nil => exact ⟨[], rfl, by simp only [total, List.foldr_nil] at covered; omega⟩
  | cons item items ih =>
    rw [victims]
    split
    · rw [total_cons] at covered
      obtain ⟨kept, split, bound⟩ := ih (sum - weight item) (by omega)
      refine ⟨kept, by rw [List.cons_append, ← split], ?_⟩
      rw [total_cons]
      omega
    · rename_i fits
      exact ⟨item :: items, rfl, by omega⟩

theorem victims_first {K : Type} [LinearOrder K] {key : α → K} {sum : ℕ} {items : List α}
    (sorted : items.Pairwise fun a b => key a ≤ key b) (covered : sum ≤ total weight items)
    {victim item : α} (evicted : victim ∈ victims weight limit sum items) (mem : item ∈ items)
    (before : key item < key victim) : item ∈ victims weight limit sum items := by
  obtain ⟨kept, split, _⟩ := victims_split limit sum items covered
  rw [split] at mem sorted
  rcases List.mem_append.1 mem with first | last
  · exact first
  · exact absurd ((List.pairwise_append.1 sorted).2.2 victim evicted item last) (not_le.2 before)

end CodeSystemGraph.Eviction
