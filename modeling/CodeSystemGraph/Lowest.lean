import Mathlib.Data.Finset.Lattice.Fold
import Mathlib.Data.Finset.Max

/-! Sets with room for so many elements, which give up their greatest element for a
smaller one. What they keep are the least elements of all that came, in any order. -/

namespace CodeSystemGraph.Lowest

variable {K : Type} [LinearOrder K] {n : ℕ} {all kept kept' : Finset K} {e last : K}

/-- The kept elements are the least of all, as many as there is room for. -/
structure Keeps (n : ℕ) (all kept : Finset K) : Prop where
  subset : kept ⊆ all
  closed : ∀ x ∈ kept, ∀ y ∈ all, y < x → y ∈ kept
  card : kept.card = min n all.card

theorem keeps_empty (n : ℕ) : Keeps n (∅ : Finset K) ∅ where
  subset := Finset.Subset.refl _
  closed := fun _ mem => absurd mem (Finset.notMem_empty _)
  card := by simp

theorem Keeps.eq_all (keeps : Keeps n all kept) (fits : all.card ≤ n) : kept = all := by
  apply Finset.eq_of_subset_of_card_le keeps.subset
  rw [keeps.card, min_eq_right fits]

theorem Keeps.card_le (keeps : Keeps n all kept) : kept.card ≤ n := by
  rw [keeps.card]
  exact min_le_left _ _

theorem Keeps.unique (first : Keeps n all kept) (second : Keeps n all kept') : kept = kept' := by
  have size : kept.card = kept'.card := first.card.trans second.card.symm
  by_cases below : kept ⊆ kept'
  · exact Finset.eq_of_subset_of_card_le below size.ge
  · obtain ⟨x, here, missing⟩ := Finset.not_subset.mp below
    have above : kept' ⊆ kept := by
      intro y there
      rcases lt_trichotomy y x with lt | rfl | gt
      · exact first.closed x here y (second.subset there) lt
      · exact here
      · exact absurd (second.closed y there x (first.subset here) gt) missing
    exact (Finset.eq_of_subset_of_card_le above size.le).symm

theorem Keeps.insert_fits (keeps : Keeps n all kept) (fits : (insert e kept).card ≤ n) :
    Keeps n (insert e all) (insert e kept) := by
  by_cases known : e ∈ kept
  · rw [Finset.insert_eq_of_mem known, Finset.insert_eq_of_mem (keeps.subset known)]
    exact keeps
  · rw [Finset.card_insert_of_notMem known] at fits
    have size : kept.card = all.card := by
      have card := keeps.card
      omega
    have same : kept = all := Finset.eq_of_subset_of_card_le keeps.subset size.ge
    subst same
    refine ⟨Finset.Subset.refl _, fun _ _ y mem _ => mem, ?_⟩
    rw [Finset.card_insert_of_notMem known, min_eq_right fits]

theorem Keeps.insert_evict (keeps : Keeps n all kept) (full : n < (insert e kept).card)
    (mem : last ∈ insert e kept) (greatest : ∀ x ∈ insert e kept, x ≤ last) :
    Keeps n (insert e all) ((insert e kept).erase last) := by
  have fresh : e ∉ kept := by
    intro known
    rw [Finset.insert_eq_of_mem known] at full
    exact absurd keeps.card_le (Nat.not_le.mpr full)
  have size : kept.card = n := by
    rw [Finset.card_insert_of_notMem fresh] at full
    have bounded := keeps.card_le
    omega
  refine ⟨?_, ?_, ?_⟩
  · exact (Finset.erase_subset _ _).trans (Finset.insert_subset_insert e keeps.subset)
  · intro x held y listed lt
    have ⟨below, held⟩ := Finset.mem_erase.mp held
    have apart : y ≠ last := (lt.trans_le (greatest x held)).ne
    refine Finset.mem_erase.mpr ⟨apart, ?_⟩
    rcases Finset.mem_insert.mp listed with new | listed
    · rw [new]
      exact Finset.mem_insert_self _ _
    · refine Finset.mem_insert_of_mem ?_
      rcases Finset.mem_insert.mp held with new | held'
      · -- the new element is below the greatest, which was kept before
        have old : last ∈ kept := (Finset.mem_insert.mp mem).resolve_left fun same =>
          below (new.trans same.symm)
        exact keeps.closed last old y listed (lt.trans_le (greatest x held))
      · exact keeps.closed x held' y listed lt
  · rw [Finset.card_erase_of_mem mem, Finset.card_insert_of_notMem fresh, size]
    have grown : (insert e kept).card ≤ (insert e all).card :=
      Finset.card_le_card (Finset.insert_subset_insert e keeps.subset)
    omega

theorem Keeps.union_overflows {all' : Finset K} (first : Keeps n all kept) (second : Keeps n all' kept') :
    n < (all ∪ all').card ↔ n < all.card ∨ n < all'.card ∨ n < (kept ∪ kept').card := by
  constructor
  · intro excess
    by_cases fits : all.card ≤ n
    · by_cases fits' : all'.card ≤ n
      · rw [first.eq_all fits, second.eq_all fits']
        exact .inr (.inr excess)
      · exact .inr (.inl (Nat.lt_of_not_le fits'))
    · exact .inl (Nat.lt_of_not_le fits)
  · rintro (excess | excess | excess)
    · exact excess.trans_le (Finset.card_le_card Finset.subset_union_left)
    · exact excess.trans_le (Finset.card_le_card Finset.subset_union_right)
    · exact excess.trans_le (Finset.card_le_card (Finset.union_subset_union first.subset second.subset))

end CodeSystemGraph.Lowest
