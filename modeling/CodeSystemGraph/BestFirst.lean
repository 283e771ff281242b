import Mathlib.Data.ENat.Lattice
import Mathlib.Data.Set.Card
import Mathlib.Data.List.Infix

/-! Best-first enumeration of the words of a tree. Words are lists, and a prefix of a
word is a node above it. The search keeps pending prefixes and found words; a turn takes a
cheapest pending prefix and drops it, counts it as found, or replaces it by some of its
one-letter extensions. `Frontier` is what holds between turns. -/

namespace CodeSystemGraph.BestFirst

variable {α C : Type*} [LinearOrder C]

def Apart (u v : List α) : Prop := ¬u <+: v ∧ ¬v <+: u

theorem Apart.symm {u v : List α} (apart : Apart u v) : Apart v u := ⟨apart.2, apart.1⟩

theorem Apart.ne {u v : List α} (apart : Apart u v) : u ≠ v :=
  fun same => apart.1 (same ▸ List.prefix_refl u)

theorem Apart.concat {u v : List α} (apart : Apart u v) (a : α) : Apart (u ++ [a]) v := by
  refine ⟨fun above => apart.1 ((List.prefix_append u [a]).trans above), fun below => ?_⟩
  cases (List.prefix_concat_iff.1 below) with
  | inl same => exact apart.1 (same ▸ List.prefix_append u [a])
  | inr above => exact apart.2 above

theorem apart_siblings {u : List α} {a b : α} (differ : a ≠ b) : Apart (u ++ [a]) (u ++ [b]) := by
  have distinct : ∀ {c d : α}, c ≠ d → ¬u ++ [c] <+: u ++ [d] := by
    intro c d differ above
    rw [List.prefix_append_right_inj] at above
    exact differ (List.cons_prefix_cons.1 above).1
  exact ⟨distinct differ, distinct differ.symm⟩

structure Frontier (admissible : List α → Prop) (cost : List α → C)
    (pending found : List (List α)) : Prop where
  apart : (pending ++ found).Pairwise Apart
  sound : ∀ word ∈ found, admissible word
  covers : ∀ word, admissible word → word ∈ found ∨ ∃ u ∈ pending, u <+: word
  cheapest : ∀ word ∈ found, ∀ u ∈ pending, cost word ≤ cost u

namespace Frontier

variable {admissible : List α → Prop} {cost : List α → C} {pending rest found : List (List α)}
  {u : List α}

theorem start : Frontier admissible cost [[]] [] where
  apart := List.pairwise_singleton _ _
  sound _ mem := by cases mem
  covers word _ := .inr ⟨[], List.mem_singleton.2 rfl, List.nil_prefix⟩
  cheapest _ mem := by cases mem

theorem perm {pending' : List (List α)} (perm : pending.Perm pending')
    (h : Frontier admissible cost pending found) : Frontier admissible cost pending' found where
  apart := ((perm.append_right found).pairwise_iff Apart.symm).1 h.apart
  sound := h.sound
  covers word mem := (h.covers word mem).imp id fun ⟨u, listed, above⟩ =>
    ⟨u, perm.mem_iff.1 listed, above⟩
  cheapest word mem u listed := h.cheapest word mem u (perm.mem_iff.2 listed)

theorem drop (h : Frontier admissible cost (u :: rest) found)
    (nothing : ∀ word, admissible word → ¬u <+: word) : Frontier admissible cost rest found where
  apart := h.apart.of_cons
  sound := h.sound
  covers word mem := by
    refine (h.covers word mem).imp id fun ⟨v, listed, above⟩ => ?_
    cases List.mem_cons.1 listed with
    | inl same => exact absurd (same ▸ above) (nothing word mem)
    | inr listed => exact ⟨v, listed, above⟩
  cheapest word mem v listed := h.cheapest word mem v (List.mem_cons_of_mem u listed)

theorem arrive (h : Frontier admissible cost (u :: rest) found) (arrived : admissible u)
    (only : ∀ word, admissible word → u <+: word → word = u)
    (least : ∀ v ∈ rest, cost u ≤ cost v) : Frontier admissible cost rest (found ++ [u]) where
  apart := by
    have moved : (u :: rest ++ found).Perm (rest ++ (found ++ [u])) := by
      rw [← List.append_assoc]
      exact (List.perm_append_singleton u (rest ++ found)).symm
    exact (moved.pairwise_iff Apart.symm).1 h.apart
  sound word mem := (List.mem_append.1 mem).elim (h.sound word) fun single =>
    List.mem_singleton.1 single ▸ arrived
  covers word mem := by
    cases h.covers word mem with
    | inl known => exact .inl (List.mem_append_left _ known)
    | inr pending =>
      obtain ⟨v, listed, above⟩ := pending
      cases List.mem_cons.1 listed with
      | inl same =>
        subst same
        exact .inl (List.mem_append_right _ (List.mem_singleton.2 (only word mem above)))
      | inr listed => exact .inr ⟨v, listed, above⟩
  cheapest word mem v listed := by
    cases List.mem_append.1 mem with
    | inl known => exact h.cheapest word known v (List.mem_cons_of_mem u listed)
    | inr single => exact List.mem_singleton.1 single ▸ least v listed

/-- A prefix that is not a word is replaced by its extensions, none of them cheaper. -/
theorem expand (h : Frontier admissible cost (u :: rest) found) {letters : List α}
    (distinct : letters.Nodup)
    (complete : ∀ word, admissible word → u <+: word → ∃ a ∈ letters, u ++ [a] <+: word)
    (dearer : ∀ a ∈ letters, cost u ≤ cost (u ++ [a])) :
    Frontier admissible cost (rest ++ letters.map fun a => u ++ [a]) found where
  apart := by
    have separate := List.pairwise_cons.1 h.apart
    have moved : (letters.map (fun a => u ++ [a]) ++ (rest ++ found)).Perm
        (rest ++ letters.map (fun a => u ++ [a]) ++ found) := by
      rw [← List.append_assoc]
      exact List.perm_append_comm.append_right found
    refine (moved.pairwise_iff Apart.symm).1 (List.pairwise_append.2 ⟨?_, separate.2, ?_⟩)
    · exact List.Pairwise.map _ (fun a b differ => apart_siblings differ) distinct
    · intro v mem w other
      obtain ⟨a, -, rfl⟩ := List.mem_map.1 mem
      exact (separate.1 w other).concat a
  sound := h.sound
  covers word mem := by
    refine (h.covers word mem).imp id fun ⟨v, listed, above⟩ => ?_
    cases List.mem_cons.1 listed with
    | inl same =>
      subst same
      obtain ⟨a, letter, above⟩ := complete word mem above
      exact ⟨v ++ [a], List.mem_append_right _ (List.mem_map.2 ⟨a, letter, rfl⟩), above⟩
    | inr listed => exact ⟨v, List.mem_append_left _ listed, above⟩
  cheapest word mem v listed := by
    cases List.mem_append.1 listed with
    | inl old => exact h.cheapest word mem v (List.mem_cons_of_mem u old)
    | inr new =>
      obtain ⟨a, letter, rfl⟩ := List.mem_map.1 new
      exact (h.cheapest word mem u List.mem_cons_self).trans (dearer a letter)

theorem distinct (h : Frontier admissible cost pending found) : found.Nodup :=
  (List.pairwise_append.1 h.apart).2.1.imp Apart.ne

theorem optimal (h : Frontier admissible cost pending found) {word left : List α}
    (mem : word ∈ found) (candidate : admissible left) (out : left ∉ found)
    (dearer : ∀ u, u <+: left → cost u ≤ cost left) : cost word ≤ cost left := by
  obtain ⟨u, listed, above⟩ := (h.covers left candidate).resolve_left out
  exact (h.cheapest word mem u listed).trans (dearer u above)

theorem complete (h : Frontier admissible cost [] found) (word : List α) :
    word ∈ found ↔ admissible word := by
  refine ⟨h.sound word, fun mem => (h.covers word mem).resolve_right ?_⟩
  rintro ⟨u, listed, -⟩
  cases listed

theorem count (h : Frontier admissible cost pending found) {wanted : Nat}
    (few : found.length ≤ wanted) (done : pending = [] ∨ wanted ≤ found.length) :
    (found.length : ℕ∞) = min (wanted : ℕ∞) {word | admissible word}.encard := by
  classical
  have size : (found.toFinset : Set (List α)).encard = found.length := by
    rw [Set.encard_coe_eq_coe_finsetCard, List.toFinset_card_of_nodup h.distinct]
  have inside : (found.toFinset : Set (List α)) ⊆ {word | admissible word} := by
    intro word mem
    exact h.sound word (by simpa using mem)
  have fewer : (found.length : ℕ∞) ≤ {word | admissible word}.encard :=
    size ▸ Set.encard_le_encard inside
  cases done with
  | inl empty =>
    subst empty
    have all : (found.toFinset : Set (List α)) = {word | admissible word} := by
      ext word
      rw [List.coe_toFinset]
      exact h.complete word
    rw [all] at size
    rw [size, min_eq_right (Nat.cast_le.2 few)]
  | inr enough =>
    obtain rfl : found.length = wanted := Nat.le_antisymm few enough
    rw [min_eq_left fewer]

end Frontier

/-- The depths in a queue of a breadth-first search. -/
structure Leveled (depths : List Nat) : Prop where
  sorted : depths.Pairwise (· ≤ ·)
  close : ∀ a ∈ depths, ∀ b ∈ depths, b ≤ a + 1

namespace Leveled

variable {depth : Nat} {rest pushed : List Nat}

theorem singleton (depth : Nat) : Leveled [depth] := by
  refine ⟨List.pairwise_singleton _ _, fun a ha b hb => ?_⟩
  rw [List.mem_singleton.1 ha, List.mem_singleton.1 hb]
  omega

theorem least (h : Leveled (depth :: rest)) : ∀ b ∈ rest, depth ≤ b :=
  (List.pairwise_cons.1 h.sorted).1

theorem pop (h : Leveled (depth :: rest)) : Leveled rest :=
  ⟨h.sorted.of_cons, fun a ha b hb =>
    h.close a (List.mem_cons_of_mem _ ha) b (List.mem_cons_of_mem _ hb)⟩

theorem push (h : Leveled (depth :: rest)) (next : ∀ b ∈ pushed, b = depth + 1) :
    Leveled (rest ++ pushed) := by
  have below : ∀ b ∈ rest ++ pushed, depth ≤ b ∧ b ≤ depth + 1 := by
    intro b mem
    cases List.mem_append.1 mem with
    | inl old => exact ⟨h.least b old, h.close depth List.mem_cons_self b (List.mem_cons_of_mem _ old)⟩
    | inr new => rw [next b new]; omega
  refine ⟨List.pairwise_append.2 ⟨h.pop.sorted, ?_, fun a ha b hb => ?_⟩, fun a ha b hb => ?_⟩
  · refine List.pairwise_of_forall_mem_list fun a ha b hb => ?_
    rw [next a ha, next b hb]
  · rw [next b hb]
    exact (below a (List.mem_append_left _ ha)).2
  · have low := (below a ha).1
    have high := (below b hb).2
    omega

end Leveled

end CodeSystemGraph.BestFirst
