import Mathlib.Order.Lattice
import Mathlib.Order.Monotone.Basic

/-!
Binary search in a list that a key sorts: the part that may hold the key is halved until one place
is left.
-/

namespace CodeSystemGraph.BinarySearch

variable {α K : Type} [LinearOrder K] (key : α → K) (k : K)

def beyond (l : List α) (place : Nat) : Bool := l[place]?.any fun a => k < key a

def narrow (l : List α) : (turns base size : Nat) → Nat
  | 0, base, _ => base
  | turns + 1, base, size =>
    if size ≤ 1 then base
    else
      narrow l turns (if beyond key k l (base + size / 2) then base else base + size / 2)
        (size - size / 2)

def search (l : List α) : Option α :=
  l[narrow key k l l.length 0 l.length]?.filter fun a => key a = k

variable {key k}

theorem beyond_iff {l : List α} (sorted : l.Pairwise fun a b => key a < key b) {a : α} {i j : Nat}
    (found : l[i]? = some a) (same : key a = k) (within : j < l.length) :
    beyond key k l j = true ↔ i < j := by
  obtain ⟨inside, rfl⟩ := List.getElem?_eq_some_iff.1 found
  rw [beyond, List.getElem?_eq_getElem within, Option.any_some, decide_eq_true_eq, ← same]
  have ordered := List.pairwise_iff_getElem.1 sorted
  constructor
  · intro less
    rcases Nat.lt_trichotomy i j with before | rfl | after
    · exact before
    · exact absurd less (lt_irrefl _)
    · exact absurd less (lt_asymm (ordered j i within inside after))
  · exact ordered i j inside within

theorem narrow_eq {l : List α} (sorted : l.Pairwise fun a b => key a < key b) {a : α} {i : Nat}
    (found : l[i]? = some a) (same : key a = k) {turns base size : Nat} (enough : size ≤ turns + 1)
    (inside : base + size ≤ l.length) (after : base ≤ i) (before : i < base + size) :
    narrow key k l turns base size = i := by
  induction turns generalizing base size with
  | zero =>
    rw [narrow]
    omega
  | succ turns ih =>
    rw [narrow]
    split
    · omega
    · next several =>
      have passes := @beyond_iff _ _ _ key k l sorted a i (base + size / 2) found same (by omega)
      split
      · next far => exact ih (by omega) (by omega) after (by have := passes.1 far; omega)
      · next near =>
        rw [passes, Nat.not_lt] at near
        exact ih (by omega) (by omega) near (by omega)

theorem search_eq_some {l : List α} (sorted : l.Pairwise fun a b => key a < key b) {a : α} :
    search key k l = some a ↔ a ∈ l ∧ key a = k := by
  rw [search, Option.filter_eq_some_iff]
  constructor
  · rintro ⟨found, same⟩
    exact ⟨List.mem_of_getElem? found, of_decide_eq_true same⟩
  · rintro ⟨mem, same⟩
    obtain ⟨i, found⟩ := List.mem_iff_getElem?.1 mem
    obtain ⟨within, -⟩ := List.getElem?_eq_some_iff.1 found
    rw [narrow_eq sorted found same (Nat.le_succ _) (by omega) (Nat.zero_le i) (by omega)]
    exact ⟨found, decide_eq_true same⟩

end CodeSystemGraph.BinarySearch
