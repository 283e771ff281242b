import CodeSystemGraph.Iterate
import Mathlib.Algebra.Order.BigOperators.Group.Finset
import Mathlib.Data.Finset.Card
import Mathlib.Logic.Function.Basic

/-! Values that spread from a node to its children. A worklist holds the nodes whose
values may not have arrived below yet. When it is empty every node holds what reaches
it, and nothing else. -/

namespace CodeSystemGraph.Spread
open Iterate

variable {K V : Type}

/-- A value reaches the nodes that hold it from the start and all that lies below them. -/
inductive Reaches (seed : K → Finset V) (children : K → List K) (v : V) : K → Prop
  | seed {k : K} (held : v ∈ seed k) : Reaches seed children v k
  | step {k k' : K} (above : Reaches seed children v k) (edge : k' ∈ children k) :
      Reaches seed children v k'

structure State (K V : Type) where
  held : K → Finset V
  queue : List K

section Settling

variable {seed : K → Finset V} {children : K → List K} {s : State K V}

structure Settling (seed : K → Finset V) (children : K → List K) (s : State K V) : Prop where
  seeded : ∀ k, seed k ⊆ s.held k
  sound : ∀ k, ∀ v ∈ s.held k, Reaches seed children v k
  closed : ∀ k, k ∉ s.queue → ∀ k' ∈ children k, s.held k ⊆ s.held k'

theorem settling_start {queue : List K} (all : ∀ k, k ∉ queue → seed k = ∅) :
    Settling seed children { held := seed, queue } where
  seeded _ := Finset.Subset.refl _
  sound _ _ held := .seed held
  closed k outside k' _ := by
    exact (all k outside).subset.trans (Finset.empty_subset _)

theorem Settling.exact (settling : Settling seed children s) (done : s.queue = []) {k : K} {v : V} :
    v ∈ s.held k ↔ Reaches seed children v k := by
  refine ⟨settling.sound k v, fun reaches => ?_⟩
  induction reaches with
  | seed held => exact settling.seeded _ held
  | step _ edge ih => exact settling.closed _ (by simp [done]) _ edge ih

end Settling

variable [DecidableEq K] [DecidableEq V]

def receive (given : Finset V) (s : State K V) (child : K) : State K V :=
  if given ⊆ s.held child then s
  else
    { held := Function.update s.held child (s.held child ∪ given)
      queue := s.queue ++ [child] }

def turn (children : K → List K) (s : State K V) : Turn (State K V) (K → Finset V) :=
  match s.queue with
  | [] => .leave s.held
  | parent :: queue => .again ((children parent).foldl (receive (s.held parent)) { s with queue })

section Receive

variable {given : Finset V} {s : State K V}

theorem receive_held (child k : K) :
    (receive given s child).held k = if k = child then s.held k ∪ given else s.held k := by
  unfold receive
  split_ifs with known same same
  · rw [same, Finset.union_eq_left.mpr known]
  · rfl
  · subst same
    exact Function.update_self _ _ _
  · exact Function.update_of_ne same _ _

theorem foldl_receive_held (l : List K) (k : K) :
    (l.foldl (receive given) s).held k = if k ∈ l then s.held k ∪ given else s.held k := by
  induction l generalizing s with
  | nil => simp
  | cons child l ih =>
    rw [List.foldl_cons, ih, receive_held]
    by_cases same : k = child <;> by_cases mem : k ∈ l <;> simp [same, mem, Finset.union_assoc]

theorem not_mem_receive {child k : K} (outside : k ∉ (receive given s child).queue) :
    k ∉ s.queue ∧ (receive given s child).held k = s.held k := by
  unfold receive at outside ⊢
  split_ifs at outside ⊢ with known
  · exact ⟨outside, rfl⟩
  · have apart : k ∉ s.queue ∧ k ≠ child := by simpa using outside
    exact ⟨apart.1, Function.update_of_ne apart.2 _ _⟩

theorem not_mem_foldl_receive {l : List K} {k : K}
    (outside : k ∉ (l.foldl (receive given) s).queue) :
    k ∉ s.queue ∧ (l.foldl (receive given) s).held k = s.held k := by
  induction l generalizing s with
  | nil => exact ⟨outside, rfl⟩
  | cons child l ih =>
    obtain ⟨before, kept⟩ := ih outside
    obtain ⟨start, same⟩ := not_mem_receive before
    exact ⟨start, kept.trans same⟩

end Receive

section Invariant

variable {seed : K → Finset V} {children : K → List K} {s : State K V}

theorem Settling.visit (settling : Settling seed children s) {parent : K} {queue : List K}
    (next : s.queue = parent :: queue) :
    Settling seed children ((children parent).foldl (receive (s.held parent)) { s with queue }) where
  seeded k := by
    rw [foldl_receive_held]
    split_ifs
    · exact (settling.seeded k).trans Finset.subset_union_left
    · exact settling.seeded k
  sound k v held := by
    rw [foldl_receive_held] at held
    split_ifs at held with below
    · rcases Finset.mem_union.mp held with held | held
      · exact settling.sound k v held
      · exact (settling.sound parent v held).step below
    · exact settling.sound k v held
  closed k outside k' edge := by
    obtain ⟨rest, same⟩ := not_mem_foldl_receive outside
    rw [same, foldl_receive_held]
    by_cases visited : k = parent
    · subst visited
      rw [if_pos edge]
      exact Finset.subset_union_right
    · have below := settling.closed k (by simp [next, visited, rest]) k' edge
      split_ifs
      · exact below.trans Finset.subset_union_left
      · exact below

theorem run_exact {fuel : Nat} {r : K → Finset V} (settling : Settling seed children s)
    (result : run (turn children) fuel s = some r) {k : K} {v : V} :
    v ∈ r k ↔ Reaches seed children v k := by
  refine run_rule (Settling seed children) (fun r => ∀ k v, v ∈ r k ↔ Reaches seed children v k)
    (fun s s' settling again => ?_) (fun s r settling leaves k v => ?_) fuel s settling r result k v
  · unfold turn at again
    split at again
    · cases again
    · rename_i next
      cases again
      exact settling.visit next
  · unfold turn at leaves
    split at leaves
    · rename_i done
      cases leaves
      exact settling.exact done
    · cases leaves

end Invariant

section Termination

variable (nodes : Finset K) (all : Finset V)

def remaining (s : State K V) : Nat := (∑ k ∈ nodes, (all \ s.held k).card) + s.queue.length

variable {nodes all} {given : Finset V} {s : State K V}

theorem remaining_receive (bounded : given ⊆ all) {child : K} (known : child ∈ nodes) :
    remaining nodes all (receive given s child) ≤ remaining nodes all s := by
  by_cases held : given ⊆ s.held child
  · rw [receive, if_pos held]
  · obtain ⟨v, new, missing⟩ := Finset.not_subset.mp held
    have fewer : ∑ k ∈ nodes, (all \ (receive given s child).held k).card <
        ∑ k ∈ nodes, (all \ s.held k).card := by
      refine Finset.sum_lt_sum (fun k _ => Finset.card_le_card ?_) ⟨child, known, Finset.card_lt_card ?_⟩
      · rw [receive_held]
        split_ifs
        · exact Finset.sdiff_subset_sdiff (Finset.Subset.refl _) Finset.subset_union_left
        · exact Finset.Subset.refl _
      · rw [receive_held, if_pos rfl, Finset.ssubset_iff_of_subset
          (Finset.sdiff_subset_sdiff (Finset.Subset.refl _) Finset.subset_union_left)]
        exact ⟨v, by simp [bounded new, missing], by simp [new]⟩
    have longer : (receive given s child).queue.length = s.queue.length + 1 := by
      rw [receive, if_neg held, List.length_append, List.length_singleton]
    unfold remaining
    omega

theorem remaining_foldl_receive (bounded : given ⊆ all) {l : List K} (known : ∀ k ∈ l, k ∈ nodes) :
    remaining nodes all (l.foldl (receive given) s) ≤ remaining nodes all s := by
  induction l generalizing s with
  | nil => exact le_rfl
  | cons child l ih =>
    refine (ih fun k mem => known k (List.mem_cons_of_mem _ mem)).trans ?_
    exact remaining_receive bounded (known child List.mem_cons_self)

theorem terminates {children : K → List K} (known : ∀ k, ∀ k' ∈ children k, k' ∈ nodes) :
    Terminates (turn children) (fun s : State K V => ∀ k, s.held k ⊆ all) (remaining nodes all) where
  keep s s' bounded again k := by
    unfold turn at again
    split at again
    · cases again
    · cases again
      rw [foldl_receive_held]
      split_ifs
      · exact Finset.union_subset (bounded k) (bounded _)
      · exact bounded k
  decrease s s' bounded again := by
    unfold turn at again
    split at again
    · cases again
    · rename_i parent queue next
      cases again
      refine (remaining_foldl_receive (bounded parent) (known parent)).trans_lt ?_
      have shorter : queue.length < s.queue.length := by
        rw [next, List.length_cons]
        exact Nat.lt_succ_self _
      exact Nat.add_lt_add_left shorter _

end Termination

end CodeSystemGraph.Spread
