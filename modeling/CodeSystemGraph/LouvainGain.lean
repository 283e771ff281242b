import Mathlib.Algebra.BigOperators.Group.List.Basic
import Mathlib.Tactic.Linarith
import CodeSystemGraph.UndirectedEdges

/-! The local-moving phase keeps its vectors in step with the assignment, and every move
raises the modularity of the accepted edges by the gain it was chosen for. -/

namespace CodeSystemGraph.Communities
open Ieee Model Ordered Modularity

section Entries

variable {K : Type} [BEq K] [LawfulBEq K] [LinearOrder K]

theorem sum_upsert_add (g : K → ℚ) (key : K) (weight : ℚ) {entries : List (K × ℚ)}
    (nodup : (entries.map Prod.fst).Nodup) :
    ((upsert key 0 (· + weight) entries).map fun entry => g entry.1 * entry.2).sum =
      (entries.map fun entry => g entry.1 * entry.2).sum + g key * weight := by
  by_cases known : key ∈ entries.map Prod.fst
  · have present : ∃ v, entries.lookup key = some v := by
      obtain ⟨entry, mem, rfl⟩ := List.mem_map.1 known
      exact ⟨entry.2, lookup_of_mem nodup mem⟩
    obtain ⟨v, found⟩ := present
    have unfolded : upsert key 0 (· + weight) entries =
        entries.map fun entry => if entry.1 = key then (entry.1, entry.2 + weight) else entry := by
      unfold upsert
      rw [found]
    rw [unfolded]
    clear unfolded found
    induction entries with
    | nil => cases known
    | cons entry entries ih =>
      rw [List.map_cons, List.nodup_cons] at nodup
      simp only [List.map_cons, List.sum_cons]
      by_cases here : entry.1 = key
      · have rest : (entries.map fun entry =>
            if entry.1 = key then (entry.1, entry.2 + weight) else entry) = entries := by
          refine (List.map_congr_left fun other mem => ?_).trans (List.map_id entries)
          refine if_neg fun same => nodup.1 ?_
          exact List.mem_map.2 ⟨other, mem, same.trans here.symm⟩
        rw [rest, if_pos here, here]
        ring
      · have later : key ∈ entries.map Prod.fst :=
          (List.mem_cons.1 known).resolve_left fun same => here same.symm
        rw [if_neg here, ih nodup.2 later]
        ring
  · have perm : (upsert key 0 (· + weight) entries).Perm ((key, 0 + weight) :: entries) :=
      upsert_perm_of_absent (lookup_eq_none_iff_key.2 known)
    rw [(perm.map fun entry => g entry.1 * entry.2).sum_eq]
    simp only [List.map_cons, List.sum_cons, zero_add]
    ring

end Entries

section Undirected

theorem sum_undirectedEdges {g : Nat → Nat → ℚ} (symmetric : ∀ s t, g s t = g t s)
    (accepted : List (AcceptedEdge ℚ)) :
    ((undirectedEdges accepted).map fun entry =>
      g (ofLex entry.1).1 (ofLex entry.1).2 * entry.2).sum =
        (accepted.map fun edge => g edge.source edge.target * edge.weight).sum := by
  induction accepted using List.reverseRecOn with
  | nil => rfl
  | append_singleton accepted edge ih =>
    have nodup := nodup_undirectedEdges accepted
    unfold undirectedEdges at ih nodup ⊢
    rw [List.foldl_concat, sum_upsert_add (fun pair => g (ofLex pair).1 (ofLex pair).2) _ _ nodup,
      ih, List.map_append, List.sum_append]
    have same : g (ofLex (undirectedPair edge)).1 (ofLex (undirectedPair edge)).2 =
        g edge.source edge.target := by
      unfold undirectedPair
      split
      · rfl
      · exact symmetric _ _
    rw [same]
    simp

end Undirected

section Vectors

def share (f : Nat → ℚ) (node source target : Nat) : ℚ :=
  if source = node then f target else if target = node then f source else 0

theorem sum_insertEntry {position : Nat} {weight : ℚ} {entries : List (Nat × ℚ)} (f : Nat → ℚ)
    (fresh : position ∉ entries.map Prod.fst) :
    ((insertEntry position weight entries).map fun entry => f entry.1 * entry.2).sum =
      (entries.map fun entry => f entry.1 * entry.2).sum + f position * weight := by
  rw [((insertEntry_perm fresh).map fun entry => f entry.1 * entry.2).sum_eq, List.map_cons, List.sum_cons, add_comm]

structure Filled (count : Nat) (entries : List ((Nat ×ₗ Nat) × ℚ)) (s : Vectors ℚ) : Prop where
  size : s.weightedDegree.length = count
  total : s.totalUndirectedWeight = (entries.map Prod.snd).sum
  degree : ∀ node < count, s.weightedDegree.getD node 0 = (entries.map fun entry =>
    ((if (ofLex entry.1).1 = node then 1 else 0) + if (ofLex entry.1).2 = node then 1 else 0) *
      entry.2).sum
  links : ∀ node < count, ∀ f : Nat → ℚ,
    ((s.adjacency.getD node []).map fun entry => f entry.1 * entry.2).sum =
      (entries.map fun entry => share f node (ofLex entry.1).1 (ofLex entry.1).2 * entry.2).sum

theorem Filled.new (count : Nat) : Filled count [] (.new count) := by
  have degree : ∀ node, (List.replicate count (0 : ℚ)).getD node 0 = 0 := by
    intro node
    by_cases inside : node < count <;> simp [List.getD_eq_getElem?_getD, inside]
  have adjacency : ∀ node, (List.replicate count ([] : List (Nat × ℚ))).getD node [] = [] := by
    intro node
    by_cases inside : node < count <;> simp [List.getD_eq_getElem?_getD, inside]
  constructor
  · simp [Vectors.new]
  · rfl
  · intro node _
    exact degree node
  · intro node _ f
    rw [Vectors.new, adjacency node]
    rfl

theorem connect_degree (s : Vectors ℚ) (source target : Nat) (weight : ℚ) {node : Nat}
    (inside : node < s.weightedDegree.length) :
    (connect s (toLex (source, target), weight)).weightedDegree.getD node 0 =
      s.weightedDegree.getD node 0 +
        ((if source = node then 1 else 0) + if target = node then 1 else 0) * weight := by
  unfold connect
  by_cases loop : source = target
  · simp only [ofLex_toLex, loop, ↓reduceIte, getD_modify, inside, and_true]
    by_cases here : target = node
    · simp only [here, ↓reduceIte]
      ring
    · simp only [here, ↓reduceIte]
      ring
  · simp only [ofLex_toLex, loop, ↓reduceIte, getD_modify, List.length_modify, inside, and_true]
    by_cases here : source = node
    · have other : target ≠ node := fun same => loop (here.trans same.symm)
      simp only [here, other, ↓reduceIte]
      ring
    · by_cases there : target = node
      · simp only [here, there, ↓reduceIte]
        ring
      · simp only [here, there, ↓reduceIte]
        ring

theorem Filled.connect {count : Nat} {entries : List ((Nat ×ₗ Nat) × ℚ)} {s : Vectors ℚ}
    (filled : Filled count entries s) (symmetrised : Symmetrised count entries s)
    {source target : Nat} {weight : ℚ} (ordered : source ≤ target)
    (fresh : toLex (source, target) ∉ entries.map Prod.fst) :
    Filled count (entries ++ [(toLex (source, target), weight)])
      (connect s (toLex (source, target), weight)) := by
  obtain ⟨-, degreeSize, total⟩ := connect_size s (toLex (source, target), weight)
  constructor
  case size => exact degreeSize.trans filled.size
  case total => rw [total, filled.total]; simp
  case degree =>
    intro node inside
    rw [connect_degree s source target weight (filled.size ▸ inside), filled.degree node inside,
      List.map_append, List.sum_append, List.map_singleton, List.sum_singleton]
    rfl
  case links =>
    intro node inside f
    obtain ⟨noTarget, noSource⟩ := symmetrised.absent ordered fresh inside
    rw [connect_adjacency s source target weight (symmetrised.size ▸ inside), List.map_append,
      List.sum_append, ← filled.links node inside f, List.map_singleton, List.sum_singleton,
      ofLex_toLex, share]
    by_cases here : source = node
    · rw [if_pos here, if_pos here, sum_insertEntry f (noTarget here)]
    · by_cases there : target = node
      · rw [if_neg here, if_neg here, if_pos there, if_pos there, sum_insertEntry f (noSource there)]
      · rw [if_neg here, if_neg here, if_neg there, if_neg there, zero_mul, add_zero]

theorem filled_foldl (count : Nat) {entries : List ((Nat ×ₗ Nat) × ℚ)}
    (nodup : (entries.map Prod.fst).Nodup)
    (ordered : ∀ entry ∈ entries, (ofLex entry.1).1 ≤ (ofLex entry.1).2) :
    Filled count entries (entries.foldl connect (.new count)) :=
  (foldl_connect_rule (P := fun entries s => Filled count entries s ∧ Symmetrised count entries s)
    ⟨.new count, .new count⟩ (fun _ _ _ _ _ h ascending fresh =>
      ⟨h.1.connect h.2 ascending fresh, h.2.connect ascending fresh⟩) nodup ordered).1

end Vectors

section Graph

/-- The vectors of a graph, as sums over its accepted edges. -/
structure WeightedGraph.Sums (graph : WeightedGraph ℚ) : Prop where
  ends : ∀ edge ∈ graph.acceptedEdges,
    edge.source < graph.nodes.length ∧ edge.target < graph.nodes.length
  size : graph.weightedDegree.length = graph.nodes.length
  total : graph.totalUndirectedWeight = total graph.acceptedEdges
  degree : ∀ node < graph.nodes.length,
    graph.weightedDegree.getD node 0 = degree graph.acceptedEdges node
  neighbors : ∀ node < graph.nodes.length, ∀ entry ∈ graph.adjacency.getD node [],
    entry.1 < graph.nodes.length
  links : ∀ node < graph.nodes.length, ∀ f : Nat → ℚ,
    ((graph.adjacency.getD node []).map fun entry => f entry.1 * entry.2).sum =
      (graph.acceptedEdges.map fun edge => share f node edge.source edge.target * edge.weight).sum

theorem share_symm (f : Nat → ℚ) (node s t : Nat) :
    share f node s t = share f node t s := by
  unfold share
  by_cases here : s = node
  · by_cases there : t = node
    · simp [here, there]
    · simp [here, there]
  · simp [here]

theorem filled_undirectedEdges {accepted : List (AcceptedEdge ℚ)} {count : Nat}
    (ends : ∀ edge ∈ accepted, edge.source < count ∧ edge.target < count) :
    Filled count (undirectedEdges accepted)
      ((undirectedEdges accepted).foldl connect (.new count)) :=
  filled_foldl _ (nodup_undirectedEdges _) fun entry mem => (undirected_bounds ends entry mem).1

theorem buildGraph_sums (nodes : List Node) (edges : List Edge) (minimumConfidence : F32)
    (weights : EdgeKind → ℚ) (selected : BTreeSet NodeId) :
    (buildGraph nodes edges minimumConfidence weights selected).Sums := by
  let graph := buildGraph nodes edges minimumConfidence weights selected
  have ends := buildGraph_ends nodes edges minimumConfidence weights selected
  have pairs := undirected_bounds ends
  have filled := filled_undirectedEdges ends
  constructor
  case ends => exact ends
  case size => exact filled.size
  case total =>
    have ones := sum_undirectedEdges (g := fun _ _ => 1) (fun _ _ => rfl) graph.acceptedEdges
    simp only [one_mul] at ones
    exact filled.total.trans ones
  case degree =>
    intro node inside
    refine (filled.degree node inside).trans ?_
    rw [sum_undirectedEdges (g := fun s t => (if s = node then 1 else 0) + if t = node then 1 else 0)
      (fun s t => add_comm _ _), degree]
    refine congrArg List.sum (List.map_congr_left fun edge _ => ?_)
    by_cases here : edge.source = node <;> by_cases there : edge.target = node <;>
      simp [here, there, add_mul]
  case neighbors =>
    intro node inside entry mem
    have listed := ((buildGraph_symmetrised nodes edges minimumConfidence weights selected _ rfl).2
      node inside entry.1 entry.2).1 mem
    exact (le_max_right node entry.1).trans_lt (pairs _ listed).2
  case links =>
    intro node inside f
    exact (filled.links node inside f).trans
      (sum_undirectedEdges (share_symm f node) graph.acceptedEdges)

end Graph

section Links

variable {graph : WeightedGraph ℚ} {s : Partition ℚ}

def belongs (s : Partition ℚ) (node c neighbor : Nat) : ℚ :=
  if neighbor ≠ node ∧ s.community neighbor = c then 1 else 0

theorem share_belongs (s : Partition ℚ) (node c : Nat) (edge : AcceptedEdge ℚ) :
    share (belongs s node c) node edge.source edge.target * edge.weight =
      pull edge s.community node c := by
  unfold share belongs pull
  by_cases loop : edge.source = edge.target
  · by_cases here : edge.target = node <;> simp [loop, here]
  · by_cases here : edge.source = node
    · have other : edge.target ≠ node := fun same => loop (here.trans same.symm)
      by_cases there : s.community edge.target = c <;> simp [here, other, other.symm, there]
    · by_cases there : edge.target = node
      · by_cases back : s.community edge.source = c <;> simp [here, there, back]
      · simp [loop, here, there]

theorem attraction_eq (sums : graph.Sums) (s : Partition ℚ) {node : Nat}
    (inside : node < graph.nodes.length) (c : Nat) :
    attraction graph.acceptedEdges s.community node c =
      ((graph.adjacency.getD node []).map fun entry => belongs s node c entry.1 * entry.2).sum := by
  rw [sums.links node inside, attraction]
  exact congrArg List.sum (List.map_congr_left fun edge _ => (share_belongs s node c edge).symm)

def linkNeighbor (s : Partition ℚ) (node : Nat) (links : List (Nat × ℚ)) (entry : Nat × ℚ) :
    List (Nat × ℚ) :=
  if entry.1 ≠ node then upsert (s.community entry.1) 0 (· + entry.2) links else links

theorem neighborLinks_eq (graph : WeightedGraph ℚ) (s : Partition ℚ) (node : Nat) :
    neighborLinks graph s node =
      (graph.adjacency.getD node []).foldl (linkNeighbor s node) [(s.community node, 0)] := rfl

theorem lookup_linkNeighbor (s : Partition ℚ) (node c : Nat) (entries : List (Nat × ℚ)) :
    ∀ links : List (Nat × ℚ), ((entries.foldl (linkNeighbor s node) links).lookup c).getD 0 =
      (links.lookup c).getD 0 +
        (entries.map fun entry => belongs s node c entry.1 * entry.2).sum := by
  induction entries with
  | nil => intro links; simp
  | cons entry entries ih =>
    intro links
    rw [List.foldl_cons, ih, List.map_cons, List.sum_cons, linkNeighbor, belongs]
    by_cases other : entry.1 ≠ node
    · rw [if_pos other, lookup_upsert]
      by_cases same : c = s.community entry.1
      · rw [if_pos same, if_pos ⟨other, same.symm⟩, Option.getD_some, same]
        ring
      · rw [if_neg same, if_neg fun both => same both.2.symm]
        ring
    · rw [if_neg other, if_neg fun both => other both.1]
      ring

structure Collected (graph : WeightedGraph ℚ) (links : List (Nat × ℚ)) : Prop where
  nodup : (links.map Prod.fst).Nodup
  known : ∀ c ∈ links.map Prod.fst, c < graph.nodes.length

theorem Collected.upsert {links : List (Nat × ℚ)} (h : Collected graph links) {label : Nat}
    (inside : label < graph.nodes.length) (fresh : ℚ) (update : ℚ → ℚ) :
    Collected graph (upsert label fresh update links) := by
  refine ⟨nodup_keys_upsert _ _ _ h.nodup, fun c mem => ?_⟩
  cases mem_keys_upsert.1 mem with
  | inl same => exact same ▸ inside
  | inr old => exact h.known c old

end Links

section Bookkeeping

variable {graph : WeightedGraph ℚ} {s : Partition ℚ}

/-- The vectors are in step with the assignment. A label without a member has been vacated, as
every label has its own node at the start. -/
structure Bookkeeping (graph : WeightedGraph ℚ) (s : Partition ℚ) : Prop where
  size : s.assignments.length = graph.nodes.length ∧
    s.communityDegree.length = graph.nodes.length ∧ s.members.length = graph.nodes.length
  labels : ∀ node < graph.nodes.length, s.community node < graph.nodes.length
  communityDegree : ∀ c < graph.nodes.length, s.communityDegree.getD c 0 =
    ∑ node ∈ Finset.range graph.nodes.length with s.community node = c,
      graph.weightedDegree.getD node 0
  members : ∀ c < graph.nodes.length, s.members.getD c 0 =
    ((Finset.range graph.nodes.length).filter fun node => s.community node = c).card
  empty : ∀ c, c ∈ s.empty ↔
    c < graph.nodes.length ∧ ∀ node < graph.nodes.length, s.community node ≠ c

theorem community_start {node : Nat} (inside : node < graph.nodes.length) :
    (Partition.start graph).community node = node := by
  simp [Partition.start, Partition.community, inside]

theorem bookkeeping_start (sums : graph.Sums) : Bookkeeping graph (.start graph) := by
  have only : ∀ c < graph.nodes.length, ((Finset.range graph.nodes.length).filter fun node =>
      (Partition.start graph).community node = c) = {c} := by
    intro c inside
    ext node
    rw [Finset.mem_filter, Finset.mem_range, Finset.mem_singleton]
    constructor
    · rintro ⟨known, same⟩
      rwa [community_start known] at same
    · rintro rfl
      exact ⟨inside, community_start inside⟩
  constructor
  case size => exact ⟨List.length_range, sums.size, List.length_replicate⟩
  case labels => exact fun node inside => (community_start inside).symm ▸ inside
  case communityDegree =>
    intro c inside
    rw [only c inside, Finset.sum_singleton]
    rfl
  case members =>
    intro c inside
    rw [only c inside, Finset.card_singleton]
    simp [Partition.start, inside]
  case empty =>
    intro c
    refine ⟨fun mem => by simp [Partition.start] at mem, fun vacant => ?_⟩
    exact absurd (community_start vacant.1) (vacant.2 c vacant.1)

theorem community_move (s : Partition ℚ) {node : Nat} (inside : node < s.assignments.length)
    (best : Nat) :
    (s.move graph node best).community = Function.update s.community node best := by
  funext other
  rw [Function.update_apply]
  simp only [Partition.community, Partition.move, List.getD_eq_getElem?_getD, List.getElem?_set]
  by_cases same : other = node
  · simp [same, inside]
  · simp [same, Ne.symm same]

theorem mem_vacate (labels : BTreeSet Nat) (vacated : Prop) [Decidable vacated] (current best : Nat)
    {c : Nat} : c ∈ (if vacated then labels.insert current else labels).erase best ↔
      c ≠ best ∧ (vacated ∧ c = current ∨ c ∈ labels) := by
  rw [Std.ExtTreeSet.mem_erase, ne_eq, Std.LawfulEqOrd.compare_eq_iff_eq, eq_comm]
  refine and_congr_right fun _ => ?_
  by_cases holds : vacated
  · rw [if_pos holds, Std.ExtTreeSet.mem_insert, Std.LawfulEqOrd.compare_eq_iff_eq]
    simp [holds, eq_comm]
  · simp [holds]

theorem bookkeeping_move (book : Bookkeeping graph s) {node best : Nat}
    (inside : node < graph.nodes.length) (label : best < graph.nodes.length)
    (differ : best ≠ s.community node) : Bookkeeping graph (s.move graph node best) := by
  have community : (s.move graph node best).community = Function.update s.community node best :=
    community_move s (book.size.1 ▸ inside) best
  have mem : node ∈ Finset.range graph.nodes.length := Finset.mem_range.2 inside
  have current := book.labels node inside
  have counted : ∀ c < graph.nodes.length, (s.move graph node best).members.getD c 0 =
      ((Finset.range graph.nodes.length).filter fun other =>
        (s.move graph node best).community other = c).card := by
    intro c known
    have update := sum_filter_update (fun _ => (1 : ℤ)) mem differ c
    have occupied : 0 < ((Finset.range graph.nodes.length).filter fun other =>
        s.community other = s.community node).card :=
      Finset.card_pos.2 ⟨node, Finset.mem_filter.2 ⟨mem, rfl⟩⟩
    simp only [Finset.sum_const, nsmul_eq_mul, mul_one] at update
    rw [community]
    simp only [Partition.move, getD_modify, List.length_modify, book.size.2.2, known, and_true]
    rw [book.members c known]
    by_cases new : best = c
    · subst new
      simp only [↓reduceIte, differ, Ne.symm differ] at update ⊢
      omega
    · by_cases old : s.community node = c
      · subst old
        simp only [↓reduceIte, differ, Ne.symm differ] at update ⊢
        omega
      · simp only [↓reduceIte, new, Ne.symm new, old, Ne.symm old] at update ⊢
        omega
  constructor
  case size => simpa [Partition.move] using book.size
  case labels =>
    intro other known
    rw [community, Function.update_apply]
    split
    · exact label
    · exact book.labels other known
  case communityDegree =>
    intro c known
    rw [community, sum_filter_update (fun node => graph.weightedDegree.getD node 0) mem differ c,
      ← book.communityDegree c known]
    simp only [Partition.move, getD_modify, List.length_modify, book.size.2.1, known, and_true]
    by_cases new : best = c
    · subst new
      simp only [↓reduceIte, differ, Ne.symm differ]
      ring
    · by_cases old : s.community node = c
      · subst old
        simp only [↓reduceIte, differ, Ne.symm differ]
        ring
      · simp only [↓reduceIte, new, Ne.symm new, old, Ne.symm old]
        ring
  case members => exact counted
  case empty =>
    intro c
    rw [community]
    have vacated : (s.move graph node best).members.getD (s.community node) 0 = 0 ↔
        ∀ other < graph.nodes.length,
          Function.update s.community node best other ≠ s.community node := by
      rw [counted _ current, community, Finset.card_eq_zero, Finset.filter_eq_empty_iff]
      simp only [Finset.mem_range]
    have erased : c ∈ (s.move graph node best).empty ↔ c ≠ best ∧
        ((s.move graph node best).members.getD (s.community node) 0 = 0 ∧ c = s.community node ∨
          c ∈ s.empty) := mem_vacate _ _ _ _
    rw [erased, vacated, book.empty c]
    by_cases isBest : c = best
    · subst isBest
      refine iff_of_false (fun both => both.1 rfl) fun both => both.2 node inside ?_
      rw [Function.update_self]
    · by_cases isCurrent : c = s.community node
      · subst isCurrent
        have alive : ¬∀ other < graph.nodes.length, s.community other ≠ s.community node :=
          fun none => none node inside rfl
        simp only [ne_eq, isBest, not_false_eq_true, and_true, true_and, current, alive, or_false]
      · have same : (∀ other < graph.nodes.length, Function.update s.community node best other ≠ c) ↔
            ∀ other < graph.nodes.length, s.community other ≠ c := by
          refine forall₂_congr fun other known => ?_
          rw [Function.update_apply]
          split
          · next moved => exact iff_of_true (Ne.symm isBest) (moved ▸ Ne.symm isCurrent)
          · exact Iff.rfl
        simp [isBest, isCurrent, same]

theorem neighborLinks_collected (sums : graph.Sums) (book : Bookkeeping graph s) {node : Nat}
    (inside : node < graph.nodes.length) : Collected graph (neighborLinks graph s node) := by
  have listed : ∀ entries : List (Nat × ℚ), (∀ entry ∈ entries, entry.1 < graph.nodes.length) →
      ∀ links, Collected graph links →
        Collected graph (entries.foldl (linkNeighbor s node) links) := by
    intro entries
    induction entries with
    | nil => intro _ links collected; exact collected
    | cons entry entries ih =>
      intro known links collected
      obtain ⟨here, known⟩ := List.forall_mem_cons.1 known
      refine ih known _ ?_
      unfold linkNeighbor
      split
      · exact collected.upsert (book.labels _ here) _ _
      · exact collected
  refine listed _ (sums.neighbors node inside) _ ⟨List.nodup_singleton _, fun c mem => ?_⟩
  rw [List.map_singleton, List.mem_singleton] at mem
  exact mem ▸ book.labels node inside

theorem candidateLinks_collected (sums : graph.Sums) (book : Bookkeeping graph s) {node : Nat}
    (inside : node < graph.nodes.length) : Collected graph (candidateLinks graph s node) := by
  have collected := neighborLinks_collected sums book inside
  unfold candidateLinks
  cases vacant : s.empty.toList.head? with
  | none => exact collected
  | some label =>
    exact collected.upsert ((book.empty label).1 (by simpa using List.mem_of_head? vacant)).1 _ _

theorem lookup_candidateLinks (sums : graph.Sums) (s : Partition ℚ) {node : Nat}
    (inside : node < graph.nodes.length) (c : Nat) :
    ((candidateLinks graph s node).lookup c).getD 0 =
      attraction graph.acceptedEdges s.community node c := by
  have neighbors : ((neighborLinks graph s node).lookup c).getD 0 =
      attraction graph.acceptedEdges s.community node c := by
    rw [neighborLinks_eq, lookup_linkNeighbor, attraction_eq sums s inside]
    have nothing : (([(s.community node, 0)] : List (Nat × ℚ)).lookup c).getD 0 = 0 := by
      by_cases same : c = s.community node
      · simp [same]
      · simp [List.lookup_cons, beq_eq_false_iff_ne.2 same]
    rw [nothing, zero_add]
  unfold candidateLinks
  cases s.empty.toList.head? with
  | none => exact neighbors
  | some label =>
    dsimp only
    rw [lookup_upsert]
    by_cases same : c = label
    · rw [if_pos same, ← same, Option.getD_some]
      exact neighbors
    · rw [if_neg same]
      exact neighbors

theorem moveGain_eq (sums : graph.Sums) (book : Bookkeeping graph s) {node c : Nat} {links : ℚ}
    (resolution : ℚ) (inside : node < graph.nodes.length)
    (mem : (c, links) ∈ candidateLinks graph s node) :
    moveGain graph resolution s node c links =
      gain graph.acceptedEdges (Finset.range graph.nodes.length) resolution s.community node c := by
  have collected := candidateLinks_collected sums book inside
  have weight : links = attraction graph.acceptedEdges s.community node c := by
    rw [← lookup_candidateLinks sums s inside, lookup_of_mem collected.nodup mem, Option.getD_some]
  have strengths : ∀ d < graph.nodes.length, s.communityDegree.getD d 0 =
      strength graph.acceptedEdges (Finset.range graph.nodes.length) s.community d := by
    intro d known
    rw [book.communityDegree d known, strength]
    refine Finset.sum_congr rfl fun other listed => sums.degree other ?_
    exact Finset.mem_range.1 (Finset.mem_filter.1 listed).1
  unfold moveGain gain
  dsimp only
  rw [lookup_candidateLinks sums s inside, ← weight, sums.total, sums.degree node inside,
    strengths _ (book.labels node inside),
    strengths c (collected.known c (List.mem_map.2 ⟨_, mem, rfl⟩))]

variable {stableId : String → String → String} {seed : UInt64} {resolution : ℚ}

theorem bestMove_mem (stableId : String → String → String) (graph : WeightedGraph ℚ) (seed : UInt64)
    (resolution : ℚ) (s : Partition ℚ) (node : Nat) :
    bestMove stableId graph seed resolution s node = (s.community node, 0) ∨
      ∃ c links, (c, links) ∈ candidateLinks graph s node ∧
        bestMove stableId graph seed resolution s node =
          (c, moveGain graph resolution s node c links) := by
  have listed : ∀ (entries : List (Nat × ℚ)) (best : Nat × ℚ),
      (best = (s.community node, 0) ∨ ∃ c links, (c, links) ∈ candidateLinks graph s node ∧
        best = (c, moveGain graph resolution s node c links)) →
      (∀ entry ∈ entries, entry ∈ candidateLinks graph s node) →
      entries.foldl (considerMove stableId graph seed resolution s node) best =
          (s.community node, 0) ∨
        ∃ c links, (c, links) ∈ candidateLinks graph s node ∧
          entries.foldl (considerMove stableId graph seed resolution s node) best =
            (c, moveGain graph resolution s node c links) := by
    intro entries
    induction entries with
    | nil => intro best so _; exact so
    | cons entry entries ih =>
      intro best so known
      obtain ⟨here, known⟩ := List.forall_mem_cons.1 known
      refine ih _ ?_ known
      unfold considerMove
      split
      · exact so
      · dsimp only
        split
        · exact .inr ⟨entry.1, entry.2, here, rfl⟩
        · exact so
  exact listed _ _ (.inl rfl) fun entry mem => mem

/-- The modularity of an assignment: over the communities, the share of the weight inside one less
the square of its share of the degrees, scaled by the resolution. -/
def modularityOf (graph : WeightedGraph ℚ) (resolution : ℚ) (assignments : List Nat) : ℚ :=
  modularity graph.acceptedEdges (Finset.range graph.nodes.length)
    (Finset.range graph.nodes.length) resolution fun node => assignments.getD node 0

theorem modularityOf_assignments (graph : WeightedGraph ℚ) (resolution : ℚ) (s : Partition ℚ) :
    modularityOf graph resolution s.assignments =
      modularity graph.acceptedEdges (Finset.range graph.nodes.length)
        (Finset.range graph.nodes.length) resolution s.community := rfl

theorem visitNode_moves (sums : graph.Sums) (book : Bookkeeping graph s) {node : Nat}
    (inside : node < graph.nodes.length) (moves : Moves stableId graph seed resolution s node) :
    Bookkeeping graph (visitNode stableId graph seed resolution s node) ∧
      0 < (bestMove stableId graph seed resolution s node).2 ∧
      modularityOf graph resolution (visitNode stableId graph seed resolution s node).assignments =
        modularityOf graph resolution s.assignments + (bestMove stableId graph seed resolution s node).2 := by
  have small : (0 : ℚ) < epsilon := by norm_num [epsilon_rat]
  obtain ⟨differ, worth⟩ := moves
  have positive := small.trans worth
  have visited : visitNode stableId graph seed resolution s node =
      s.move graph node (bestMove stableId graph seed resolution s node).1 := if_pos ⟨differ, worth⟩
  rw [visited]
  cases bestMove_mem stableId graph seed resolution s node with
  | inl stays => exact absurd (congrArg Prod.fst stays) differ
  | inr chosen =>
    obtain ⟨c, links, mem, is⟩ := chosen
    rw [is] at differ positive ⊢
    have known := (candidateLinks_collected sums book inside).known c (List.mem_map.2 ⟨_, mem, rfl⟩)
    refine ⟨bookkeeping_move book inside known differ, positive, ?_⟩
    have nonzero : total graph.acceptedEdges ≠ 0 := by
      rw [moveGain_eq sums book resolution inside mem] at positive
      intro zero
      simp [gain, zero] at positive
    rw [moveGain_eq sums book resolution inside mem, modularityOf_assignments,
      modularityOf_assignments, community_move s (book.size.1 ▸ inside)]
    refine modularity_update nonzero (Finset.mem_range.2 inside) differ
      (Finset.mem_range.2 (book.labels node inside)) (Finset.mem_range.2 known) fun edge listed => ?_
    exact Finset.mem_range.2 (book.labels _ (sums.ends edge listed).1)

theorem mem_seededNodeOrder {node : Nat} :
    node ∈ seededNodeOrder stableId graph seed ↔ node < graph.nodes.length := by
  rw [seededNodeOrder, mem_sortBy, List.mem_range]

theorem Reached.keeps (sums : graph.Sums) (reached : Reached stableId graph seed resolution s) :
    Bookkeeping graph s ∧
      modularityOf graph resolution (List.range graph.nodes.length) ≤
        modularityOf graph resolution s.assignments := by
  induction reached with
  | start => exact ⟨bookkeeping_start sums, le_rfl⟩
  | @visit s node reached mem ih =>
    obtain ⟨book, more⟩ := ih
    by_cases moves : Moves stableId graph seed resolution s node
    · obtain ⟨book', positive, is⟩ := visitNode_moves sums book (mem_seededNodeOrder.1 mem) moves
      exact ⟨book', by rw [is]; linarith⟩
    · have stays : visitNode stableId graph seed resolution s node = s := if_neg moves
      rw [stays]
      exact ⟨book, more⟩

end Bookkeeping

section Results

/-- Between two visits the vectors are in step with the assignment, every move raises the
modularity by the gain it was chosen for, and the result is no worse than singletons. -/
theorem louvain_improves (stableId : String → String → String) (nodes : List Node)
    (edges : List Edge) (minimumConfidence : F32) (weights : EdgeKind → ℚ)
    (selected : BTreeSet NodeId) (seed : UInt64) (resolution : ℚ) (maxIterations : Nat)
    (graph : WeightedGraph ℚ) (built : graph = buildGraph nodes edges minimumConfidence weights selected) :
    (∀ s, Reached stableId graph seed resolution s → Bookkeeping graph s ∧
      ∀ node ∈ seededNodeOrder stableId graph seed, Moves stableId graph seed resolution s node →
        0 < (bestMove stableId graph seed resolution s node).2 ∧
        modularityOf graph resolution
            (visitNode stableId graph seed resolution s node).assignments =
          modularityOf graph resolution s.assignments +
            (bestMove stableId graph seed resolution s node).2) ∧
    Reached stableId graph seed resolution
      (rounds stableId graph seed resolution maxIterations (.start graph)) ∧
    modularityOf graph resolution (List.range graph.nodes.length) ≤
      modularityOf graph resolution
        (louvain stableId graph seed resolution maxIterations) := by
  have sums : graph.Sums := built ▸ buildGraph_sums nodes edges minimumConfidence weights selected
  have final := @rounds_reached ℚ _ stableId graph seed resolution maxIterations _ .start
  refine ⟨fun s reached => ?_, final, ?_⟩
  · have book := (reached.keeps sums).1
    refine ⟨book, fun node mem moves => ?_⟩
    exact (visitNode_moves sums book (mem_seededNodeOrder.1 mem) moves).2
  · unfold louvain
    split
    · exact le_rfl
    · exact (final.keeps sums).2

/-- Two nodes and one edge between them. -/
def pairGraph : WeightedGraph ℚ :=
  buildGraph [⟨"a", .service, none, "a", "a"⟩, ⟨"b", .service, none, "b", "b"⟩]
    [⟨"ab", "a", "b", .callsRemote, .ofNat 1, .confirmed, []⟩] .zero (fun _ => 1)
    (Std.ExtTreeSet.ofList ["a", "b"] compare)

theorem louvain_improves_pair :
    Moves (fun _ value => value) pairGraph 7 1 (.start pairGraph) 0 ∧
    modularityOf pairGraph 1
        (visitNode (fun _ value => value) pairGraph 7 1 (.start pairGraph) 0).assignments =
      modularityOf pairGraph 1 [0, 1] + 1 / 2 ∧
    modularityOf pairGraph 1 [0, 1] ≤
      modularityOf pairGraph 1 (louvain (fun _ value => value) pairGraph 7 1 10) := by
  have first : 0 ∈ seededNodeOrder (fun _ value => value) pairGraph 7 ∧
      bestMove (fun _ value => value) pairGraph 7 1 (.start pairGraph) 0 = (1, 1 / 2) ∧
      Moves (fun _ value => value) pairGraph 7 1 (.start pairGraph) 0 ∧
      List.range pairGraph.nodes.length = [0, 1] := by
    decide +kernel
  obtain ⟨mem, best, moves, singles⟩ := first
  obtain ⟨each, -, improved⟩ := louvain_improves (fun _ value => value) _ _ _ _ _ 7 1 10 pairGraph rfl
  have moved := ((each _ .start).2 0 mem moves).2
  rw [best] at moved
  rw [singles] at improved
  exact ⟨moves, singles ▸ moved, improved⟩

end Results

end CodeSystemGraph.Communities
