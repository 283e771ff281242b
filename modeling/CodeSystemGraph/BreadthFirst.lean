import CodeSystemGraph.Iterate
import Mathlib.Data.List.Basic
import Mathlib.Logic.Function.Basic

/-!
Breadth-first search with a depth bound over a directed multigraph. Nodes enter
the queue once, each with the edge it was first seen by; a node at the bound that
still has edges marks the search as truncated.
-/

namespace CodeSystemGraph.BreadthFirst

open Iterate

structure Digraph (N E : Type) where
  out : N → List E
  target : E → N

variable {N E : Type}

inductive Digraph.Walk (g : Digraph N E) (start : N) : List E → N → Prop
  | nil : g.Walk start [] start
  | snoc {edges : List E} {v : N} {e : E} (walk : g.Walk start edges v) (mem : e ∈ g.out v) :
      g.Walk start (edges ++ [e]) (g.target e)

theorem Digraph.Walk.mono {g g' : Digraph N E} {start v : N} {edges : List E}
    (walk : g.Walk start edges v) (more : ∀ v, g.out v ⊆ g'.out v)
    (same : g.target = g'.target) : g'.Walk start edges v := by
  induction walk with
  | nil => exact .nil
  | snoc _ mem ih => exact same ▸ .snoc ih (more _ mem)

structure Search (N E : Type) where
  queue : List (N × Nat)
  visited : List N
  parents : List (N × N × E)
  truncated : Bool

variable [DecidableEq N] (g : Digraph N E) (goal : N)

def visit (current : N) (depth : Nat) (s : Search N E) : List E → Search N E × Bool
  | [] => (s, false)
  | e :: rest =>
    if g.target e ∈ s.visited then visit current depth s rest
    else
      let s := { s with
        visited := g.target e :: s.visited
        parents := (g.target e, current, e) :: s.parents }
      if g.target e = goal then (s, true)
      else visit current depth { s with queue := s.queue ++ [(g.target e, depth + 1)] } rest

def turn (bound : Nat) (s : Search N E) : Turn (Search N E) (Search N E × Bool) :=
  match s.queue with
  | [] => .leave (s, false)
  | (current, depth) :: queue =>
    if bound ≤ depth then
      .again { s with queue, truncated := s.truncated || !(g.out current).isEmpty }
    else
      match visit g goal current depth { s with queue } (g.out current) with
      | (s, true) => .leave (s, true)
      | (s, false) => .again s

def begin (start : N) : Search N E :=
  { queue := [(start, 0)], visited := [start], parents := [], truncated := false }

section Termination

variable {g goal}

def remaining (nodes : List N) (s : Search N E) : Nat :=
  s.queue.length + (nodes.filter (· ∉ s.visited)).length

theorem filter_visited_lt {nodes visited : List N} {v : N} (known : v ∈ nodes)
    (new : v ∉ visited) :
    (nodes.filter (· ∉ v :: visited)).length < (nodes.filter (· ∉ visited)).length := by
  have same : nodes.filter (· ∉ v :: visited) = (nodes.filter (· ∉ visited)).filter (· ≠ v) := by
    rw [List.filter_filter]
    congr 1
    funext w
    simp [List.mem_cons, not_or]
  rw [same]
  exact List.length_filter_lt_length_iff_exists.2
    ⟨v, List.mem_filter.2 ⟨known, by simpa using new⟩, by simp⟩

theorem visit_remaining (nodes : List N) {current : N} {depth : Nat} :
    ∀ (edges : List E) (s : Search N E), (∀ e ∈ edges, g.target e ∈ nodes) →
      (visit g goal current depth s edges).2 = false →
      remaining nodes (visit g goal current depth s edges).1 ≤ remaining nodes s := by
  intro edges
  induction edges with
  | nil => exact fun s _ _ => Nat.le_refl _
  | cons e edges ih =>
    intro s known silent
    rw [visit] at silent ⊢
    have later := fun e mem => known e (List.mem_cons_of_mem _ mem)
    split
    · next seen =>
      rw [if_pos seen] at silent
      exact ih s later silent
    · next new =>
      rw [if_neg new] at silent
      simp only at silent ⊢
      split
      · next here => simp [here] at silent
      · next elsewhere =>
        rw [if_neg elsewhere] at silent
        refine Nat.le_trans (ih _ later silent) ?_
        have fewer := filter_visited_lt (known e (List.mem_cons_self ..)) new
        simp only [remaining, List.length_append, List.length_singleton]
        omega

theorem turn_remaining {nodes : List N} {bound : Nat} {s s' : Search N E}
    (known : ∀ v, ∀ e ∈ g.out v, g.target e ∈ nodes) (again : turn g goal bound s = .again s') :
    remaining nodes s' < remaining nodes s := by
  rw [turn] at again
  split at again
  · cases again
  · next current depth queue popped =>
    split at again
    · cases again
      simp [remaining, popped]
    · cases visited : visit g goal current depth { s with queue } (g.out current) with
      | mk after found =>
        cases found with
        | true => simp [visited] at again
        | false =>
          simp only [visited, Turn.again.injEq] at again
          subst again
          have le := visit_remaining nodes (g.out current) { s with queue }
            (known current) (by rw [visited])
          rw [visited] at le
          simp only [remaining, popped, List.length_cons] at le ⊢
          omega

theorem turn_terminates {nodes : List N} {bound : Nat}
    (known : ∀ v, ∀ e ∈ g.out v, g.target e ∈ nodes) :
    Terminates (turn g goal bound) (fun _ => True) (remaining nodes) where
  keep _ _ _ _ := trivial
  decrease _ _ _ again := turn_remaining known again

end Termination

section Distance

variable {g goal} {start : N} {bound : Nat} {level : N → Nat} {base : Nat} {pending : N → Prop}
variable {s : Search N E}

variable (g goal start bound level base pending) in
/-- Every visited node has a level, its number of edges from the start. The queue holds nodes of
two neighbouring levels, in order; every node within reach of the lower one has been visited; and
what has left the queue is settled, apart from `pending`. -/
structure Layered (s : Search N E) : Prop where
  begun : start ∈ s.visited
  level_start : level start = 0
  unseen : goal ∉ s.visited
  parents : ∀ v p e, s.parents.lookup v = some (p, e) →
    v ∈ s.visited ∧ p ∈ s.visited ∧ e ∈ g.out p ∧ g.target e = v ∧ level v = level p + 1
  parent : ∀ v ∈ s.visited, v ≠ start → ∃ p e, s.parents.lookup v = some (p, e)
  queued : ∀ v d, (v, d) ∈ s.queue → v ∈ s.visited ∧ level v = d ∧ base ≤ d
  sorted : s.queue.Pairwise fun a b => a.2 ≤ b.2
  shallow : ∀ v ∈ s.visited, level v ≤ base + 1
  near : ∀ edges v, g.Walk start edges v → edges.length ≤ base → edges.length ≤ bound →
    v ∈ s.visited ∧ level v ≤ edges.length
  settled : ∀ v ∈ s.visited, (∀ d, (v, d) ∉ s.queue) → ¬pending v → level v ≤ base ∧
    (level v < bound → ∀ e ∈ g.out v,
      g.target e ∈ s.visited ∧ level (g.target e) ≤ level v + 1) ∧
    (bound ≤ level v → g.out v = [] ∨ s.truncated = true)

theorem layered_begin (apart : start ≠ goal) :
    Layered g goal start bound (fun _ => 0) 0 (fun _ => False) (begin start : Search N E) where
  begun := List.mem_singleton_self _
  level_start := rfl
  unseen mem := apart (List.mem_singleton.1 mem).symm
  parents _ _ _ found := by simp [begin] at found
  parent v mem other := absurd (List.mem_singleton.1 mem) other
  queued v d mem := by
    obtain ⟨rfl, rfl⟩ := Prod.mk.inj (List.mem_singleton.1 mem)
    exact ⟨List.mem_singleton_self _, rfl, Nat.le_refl _⟩
  sorted := List.pairwise_singleton _ _
  shallow _ _ := Nat.zero_le _
  near edges v walk short _ := by
    cases walk with
    | nil => exact ⟨List.mem_singleton_self _, Nat.le_refl _⟩
    | snoc walk mem => simp at short
  settled v mem unqueued := by
    rw [begin, List.mem_singleton] at mem
    exact absurd (by simp [begin, mem]) (unqueued 0)

theorem Layered.raise (layered : Layered g goal start bound level base (fun _ => False) s)
    (above : ∀ v d, (v, d) ∈ s.queue → base + 1 ≤ d) :
    Layered g goal start bound level (base + 1) (fun _ => False) s where
  begun := layered.begun
  level_start := layered.level_start
  unseen := layered.unseen
  parents := layered.parents
  parent := layered.parent
  queued v d mem := ⟨(layered.queued v d mem).1, (layered.queued v d mem).2.1, above v d mem⟩
  sorted := layered.sorted
  shallow v mem := Nat.le_succ_of_le (layered.shallow v mem)
  near edges v walk short within := by
    cases walk with
    | nil => exact ⟨layered.begun, by rw [layered.level_start]; exact Nat.zero_le _⟩
    | @snoc edges v e walk mem =>
      rw [List.length_append, List.length_singleton] at short within ⊢
      obtain ⟨visited, le⟩ := layered.near edges v walk (by omega) (by omega)
      -- A node this near has left the queue, so its edges have been followed.
      have unqueued : ∀ d, (v, d) ∉ s.queue := by
        intro d queued
        have same := (layered.queued v d queued).2.1
        have high := above v d queued
        omega
      obtain ⟨next, level⟩ := (layered.settled v visited unqueued id).2.1 (by omega) e mem
      exact ⟨next, by omega⟩
  settled v mem unqueued free := by
    obtain ⟨le, rest⟩ := layered.settled v mem unqueued free
    exact ⟨Nat.le_succ_of_le le, rest⟩

theorem Layered.enter {current : N} {e : E}
    (layered : Layered g goal start bound level base pending s) (visited : current ∈ s.visited)
    (here : level current = base) (mem : e ∈ g.out current) (new : g.target e ∉ s.visited)
    (elsewhere : g.target e ≠ goal) :
    Layered g goal start bound (Function.update level (g.target e) (base + 1)) base pending
      { s with
        visited := g.target e :: s.visited
        parents := (g.target e, current, e) :: s.parents
        queue := s.queue ++ [(g.target e, base + 1)] } := by
  have old : ∀ v ∈ s.visited, Function.update level (g.target e) (base + 1) v = level v := by
    intro v known
    refine Function.update_of_ne (fun same => new ?_) _ _
    rwa [← same]
  constructor
  case begun => exact List.mem_cons_of_mem _ layered.begun
  case level_start => rw [old start layered.begun, layered.level_start]
  case unseen =>
    intro found
    cases List.mem_cons.1 found with
    | inl same => exact elsewhere same.symm
    | inr known => exact layered.unseen known
  case parents =>
    intro v p f found
    by_cases same : v = g.target e
    · subst same
      simp only [List.lookup_cons, beq_self_eq_true, Option.some.injEq, Prod.mk.injEq] at found
      obtain ⟨rfl, rfl⟩ := found
      refine ⟨List.mem_cons_self .., List.mem_cons_of_mem _ visited, mem, rfl, ?_⟩
      rw [Function.update_self, old current visited, here]
    · simp only [List.lookup_cons, beq_eq_false_iff_ne.2 same] at found
      obtain ⟨known, parent, edge, target, level⟩ := layered.parents v p f found
      refine ⟨List.mem_cons_of_mem _ known, List.mem_cons_of_mem _ parent, edge, target, ?_⟩
      rw [old v known, old p parent, level]
  case parent =>
    intro v known other
    by_cases same : v = g.target e
    · exact ⟨current, e, by simp [same]⟩
    · obtain ⟨p, f, found⟩ := layered.parent v ((List.mem_cons.1 known).resolve_left same) other
      exact ⟨p, f, by simpa [List.lookup_cons, beq_eq_false_iff_ne.2 same] using found⟩
  case queued =>
    intro v d queued
    rw [List.mem_append, List.mem_singleton, Prod.mk.injEq] at queued
    cases queued with
    | inl queued =>
      obtain ⟨known, level, low⟩ := layered.queued v d queued
      exact ⟨List.mem_cons_of_mem _ known, by rw [old v known, level], low⟩
    | inr last =>
      obtain ⟨rfl, rfl⟩ := last
      exact ⟨List.mem_cons_self .., Function.update_self .., Nat.le_succ _⟩
  case sorted =>
    refine List.pairwise_append.2 ⟨layered.sorted, List.pairwise_singleton _ _, ?_⟩
    intro entry queued last single
    obtain ⟨known, level, -⟩ := layered.queued entry.1 entry.2 queued
    rw [List.mem_singleton.1 single, ← level]
    exact layered.shallow entry.1 known
  case shallow =>
    intro v known
    by_cases same : v = g.target e
    · rw [same, Function.update_self]
    · have known := (List.mem_cons.1 known).resolve_left same
      rw [old v known]
      exact layered.shallow v known
  case near =>
    intro edges v walk short within
    obtain ⟨known, level⟩ := layered.near edges v walk short within
    exact ⟨List.mem_cons_of_mem _ known, by rwa [old v known]⟩
  case settled =>
    intro v known unqueued free
    have other : v ≠ g.target e := by
      intro same
      exact unqueued (base + 1) (List.mem_append_right _ (by simp [same]))
    have known := (List.mem_cons.1 known).resolve_left other
    obtain ⟨low, open', closed⟩ := layered.settled v known
      (fun d queued => unqueued d (List.mem_append_left _ queued)) free
    rw [old v known]
    refine ⟨low, fun less f edge => ?_, closed⟩
    obtain ⟨next, level⟩ := open' less f edge
    exact ⟨List.mem_cons_of_mem _ next, by rwa [old _ next]⟩

variable (g goal start bound) in
/-- The goal was seen, by an edge from a node that is nearer than any walk to the goal allows. -/
def Found (result : Search N E) : Prop :=
  ∃ level base pending, ∃ s : Search N E, ∃ current e,
    Layered g goal start bound level base pending s ∧ current ∈ s.visited ∧ level current = base ∧
    base < bound ∧ e ∈ g.out current ∧ g.target e = goal ∧
    result.parents = (goal, current, e) :: s.parents

theorem visit_spec {current : N} (within : base < bound) :
    ∀ (edges : List E) (s : Search N E) (level : N → Nat),
      Layered g goal start bound level base (· = current) s → current ∈ s.visited →
      level current = base → edges ⊆ g.out current →
      ((visit g goal current base s edges).2 = true →
        Found g goal start bound (visit g goal current base s edges).1) ∧
      ((visit g goal current base s edges).2 = false → ∃ level',
        Layered g goal start bound level' base (· = current) (visit g goal current base s edges).1 ∧
        level' current = base ∧ s.visited ⊆ (visit g goal current base s edges).1.visited ∧
        ∀ e ∈ edges, g.target e ∈ (visit g goal current base s edges).1.visited) := by
  intro edges
  induction edges with
  | nil =>
    intro s level layered _ here _
    refine ⟨fun hit => Bool.noConfusion hit, fun _ => ⟨level, layered, here, List.Subset.refl _, ?_⟩⟩
    intro _ mem
    cases mem
  | cons e edges ih =>
    intro s level layered visited here subset
    have edge : e ∈ g.out current := subset (List.mem_cons_self ..)
    have later : edges ⊆ g.out current := fun _ mem => subset (List.mem_cons_of_mem _ mem)
    rw [visit]
    by_cases seen : g.target e ∈ s.visited
    · rw [if_pos seen]
      obtain ⟨hit, miss⟩ := ih s level layered visited here later
      refine ⟨hit, fun silent => ?_⟩
      obtain ⟨level', layered', here', grown, targets⟩ := miss silent
      exact ⟨level', layered', here', grown, List.forall_mem_cons.2 ⟨grown seen, targets⟩⟩
    · rw [if_neg seen]
      simp only
      by_cases reached : g.target e = goal
      · rw [if_pos reached]
        refine ⟨fun _ => ?_, fun silent => Bool.noConfusion silent⟩
        exact ⟨level, base, (· = current), s, current, e, layered, visited, here, within, edge,
          reached, by rw [reached]⟩
      · rw [if_neg reached]
        have entered := layered.enter visited here edge seen reached
        have other : current ≠ g.target e := fun same => seen (same ▸ visited)
        obtain ⟨hit, miss⟩ := ih _ _ entered (List.mem_cons_of_mem _ visited)
          (by rw [Function.update_of_ne other, here]) later
        refine ⟨hit, fun silent => ?_⟩
        obtain ⟨level', layered', here', grown, targets⟩ := miss silent
        refine ⟨level', layered', here', fun _ mem => grown (List.mem_cons_of_mem _ mem), ?_⟩
        exact List.forall_mem_cons.2 ⟨grown (List.mem_cons_self ..), targets⟩

variable (g goal start bound) in
def Progress (s : Search N E) : Prop :=
  ∃ level base, Layered g goal start bound level base (fun _ => False) s

theorem Progress.head {current : N} {depth : Nat} {queue : List (N × Nat)}
    (progress : Progress g goal start bound s) (popped : s.queue = (current, depth) :: queue) :
    ∃ level, Layered g goal start bound level depth (fun _ => False) s := by
  obtain ⟨level, base, layered⟩ := progress
  obtain ⟨visited, same, low⟩ := layered.queued current depth (by simp [popped])
  have high := layered.shallow current visited
  by_cases equal : depth = base
  · exact ⟨level, equal ▸ layered⟩
  · have next : depth = base + 1 := by omega
    refine ⟨level, next ▸ layered.raise fun v d mem => ?_⟩
    rw [popped, List.mem_cons] at mem
    have sorted := layered.sorted
    rw [popped, List.pairwise_cons] at sorted
    cases mem with
    | inl head => exact Nat.le_of_eq (next.symm.trans (Prod.mk.inj head).2.symm)
    | inr tail => exact next ▸ sorted.1 (v, d) tail

theorem Layered.pop {current : N} {depth : Nat} {queue : List (N × Nat)}
    (layered : Layered g goal start bound level depth (fun _ => False) s)
    (popped : s.queue = (current, depth) :: queue) :
    Layered g goal start bound level depth (· = current) { s with queue } := by
  refine ⟨layered.begun, layered.level_start, layered.unseen, layered.parents, layered.parent, ?_, ?_,
    layered.shallow, layered.near, ?_⟩
  · intro v d mem
    exact layered.queued v d (by simp [popped, mem])
  · have sorted := layered.sorted
    rw [popped, List.pairwise_cons] at sorted
    exact sorted.2
  · intro v mem unqueued other
    refine layered.settled v mem (fun d queued => ?_) id
    rw [popped, List.mem_cons] at queued
    cases queued with
    | inl head => exact other (Prod.mk.inj head).1
    | inr tail => exact unqueued d tail

theorem Layered.settle {current : N} (layered : Layered g goal start bound level base (· = current) s)
    (here : level current = base)
    (open' : base < bound → ∀ e ∈ g.out current, g.target e ∈ s.visited)
    (closed : bound ≤ base → g.out current = [] ∨ s.truncated = true) :
    Layered g goal start bound level base (fun _ => False) s := by
  refine ⟨layered.begun, layered.level_start, layered.unseen, layered.parents, layered.parent,
    layered.queued, layered.sorted, layered.shallow, layered.near, ?_⟩
  intro v mem unqueued _
  by_cases same : v = current
  · rw [same, here]
    refine ⟨Nat.le_refl _, fun less e edge => ?_, closed⟩
    have next := open' less e edge
    exact ⟨next, layered.shallow _ next⟩
  · exact layered.settled v mem unqueued same

theorem Layered.truncate {truncated : Bool} (grown : s.truncated = true → truncated = true)
    (layered : Layered g goal start bound level base pending s) :
    Layered g goal start bound level base pending { s with truncated } := by
  refine ⟨layered.begun, layered.level_start, layered.unseen, layered.parents, layered.parent,
    layered.queued, layered.sorted, layered.shallow, layered.near, ?_⟩
  intro v mem unqueued free
  obtain ⟨low, open', closed⟩ := layered.settled v mem unqueued free
  exact ⟨low, open', fun far => (closed far).imp_right grown⟩

variable (g goal start bound) in
def Done (result : Search N E × Bool) : Prop :=
  (result.2 = true → Found g goal start bound result.1) ∧
    (result.2 = false → Progress g goal start bound result.1 ∧ result.1.queue = [])

theorem turn_holds (progress : Progress g goal start bound s) :
    (turn g goal bound s).Holds (Progress g goal start bound) (Done g goal start bound) := by
  rw [turn]
  split
  · next empty => exact ⟨fun hit => Bool.noConfusion hit, fun _ => ⟨progress, empty⟩⟩
  · next current depth queue popped =>
    obtain ⟨level, layered⟩ := progress.head popped
    obtain ⟨visited, here, -⟩ := layered.queued current depth (by simp [popped])
    have taken := layered.pop popped
    split
    · next far =>
      refine ⟨level, depth, ?_⟩
      refine (taken.truncate ?_).settle here (fun near => absurd near (Nat.not_lt.2 far)) ?_
      · intro already
        simp only at already
        simp [already]
      · intro _
        cases edges : g.out current with
        | nil => exact .inl rfl
        | cons e rest => exact .inr (by simp)
    · next near =>
      obtain ⟨hit, miss⟩ := visit_spec (Nat.not_le.1 near) (g.out current) { s with queue } level taken
        visited here (List.Subset.refl _)
      cases result : visit g goal current depth { s with queue } (g.out current) with
      | mk after found =>
        rw [result] at hit miss
        cases found with
        | true => exact ⟨fun _ => hit rfl, fun silent => Bool.noConfusion silent⟩
        | false =>
          obtain ⟨level', layered', here', -, targets⟩ := miss rfl
          exact ⟨level', depth, layered'.settle here' (fun _ => targets)
            fun far => absurd far near⟩

theorem progress_begin (apart : start ≠ goal) :
    Progress g goal start bound (begin start : Search N E) :=
  ⟨_, 0, layered_begin apart⟩

/-- A search that ends without the goal and without truncation has seen all that can be reached. -/
theorem unreachable_of_exhausted (progress : Progress g goal start bound s) (empty : s.queue = [])
    (whole : s.truncated = false) (edges : List E) : ¬g.Walk start edges goal := by
  obtain ⟨level, base, layered⟩ := progress
  have closed : ∀ edges v, g.Walk start edges v → v ∈ s.visited := by
    intro edges v walk
    induction walk with
    | nil => exact layered.begun
    | @snoc edges v e walk mem ih =>
      obtain ⟨-, open', closed⟩ := layered.settled v ih (by simp [empty]) id
      by_cases near : level v < bound
      · exact (open' near e mem).1
      · cases closed (Nat.not_lt.1 near) with
        | inl none =>
          rw [none] at mem
          cases mem
        | inr truncated =>
          rw [whole] at truncated
          cases truncated
  exact fun walk => layered.unseen (closed edges goal walk)

variable (g) in
/-- The edges that the recorded parents give, from a node back to the start. -/
inductive Follows (parents : List (N × N × E)) (start : N) : N → List E → Prop
  | start : Follows parents start start []
  | parent {v p : N} {e : E} {edges : List E} (other : v ≠ start)
      (found : parents.lookup v = some (p, e)) (edge : e ∈ g.out p) (arrives : g.target e = v)
      (rest : Follows parents start p edges) : Follows parents start v (edges ++ [e])

theorem Follows.walk {parents : List (N × N × E)} {v : N} {edges : List E}
    (follows : Follows g parents start v edges) : g.Walk start edges v := by
  induction follows with
  | start => exact .nil
  | parent _ _ edge arrives _ ih => exact arrives ▸ .snoc ih edge

theorem Layered.follows (layered : Layered g goal start bound level base pending s) :
    ∀ (n : Nat) (v : N), v ∈ s.visited → level v = n → ∀ current e, ∃ edges,
      Follows g ((goal, current, e) :: s.parents) start v edges ∧ edges.length = n := by
  intro n
  induction n with
  | zero =>
    intro v mem zero current e
    by_cases same : v = start
    · exact ⟨[], same ▸ .start, rfl⟩
    · obtain ⟨p, f, found⟩ := layered.parent v mem same
      have up := (layered.parents v p f found).2.2.2.2
      omega
  | succ n ih =>
    intro v mem level current e
    have same : v ≠ start := by
      intro same
      rw [same, layered.level_start] at level
      cases level
    obtain ⟨p, f, found⟩ := layered.parent v mem same
    obtain ⟨-, known, edge, target, up⟩ := layered.parents v p f found
    obtain ⟨edges, follows, length⟩ := ih p known (by omega) current e
    refine ⟨edges ++ [f], .parent same ?_ edge target follows, by simp [length]⟩
    have other : v ≠ goal := fun same => layered.unseen (same ▸ mem)
    simpa [List.lookup_cons, beq_eq_false_iff_ne.2 other] using found

theorem Found.shortest {result : Search N E} (found : Found g goal start bound result)
    (apart : start ≠ goal) : ∃ edges, Follows g result.parents start goal edges ∧
      edges.length ≤ bound ∧ ∀ other, g.Walk start other goal → edges.length ≤ other.length := by
  obtain ⟨level, base, pending, s, current, e, layered, visited, here, within, edge, target, parents⟩ :=
    found
  obtain ⟨edges, follows, length⟩ := layered.follows base current visited here current e
  refine ⟨edges ++ [e], ?_, ?_, ?_⟩
  · rw [parents]
    exact .parent apart.symm (by simp) edge target follows
  · rw [List.length_append, List.length_singleton]
    omega
  · intro other walk'
    rw [List.length_append, List.length_singleton]
    by_contra short
    exact layered.unseen (layered.near other goal walk' (by omega) (by omega)).1

end Distance

end CodeSystemGraph.BreadthFirst
