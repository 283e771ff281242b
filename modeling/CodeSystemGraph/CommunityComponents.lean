import CodeSystemGraph.Coloring
import CodeSystemGraph.CommunityGraph
import CodeSystemGraph.IeeeExact
import CodeSystemGraph.UndirectedEdges

/-! The components of the graph are its maximal connected parts: the adjacency has a positive
entry exactly where an accepted edge joins two nodes, and the exploration gives two nodes one
label exactly when such edges lead from one to the other. -/

namespace CodeSystemGraph.Communities
open Ieee Model Ordered Iterate Coloring Relation

section Neighbors

def Joined (accepted : List (AcceptedEdge Double)) (i j : Nat) : Prop :=
  ∃ edge ∈ accepted, (edge.source = i ∧ edge.target = j) ∨ (edge.source = j ∧ edge.target = i)

theorem Joined.symm {accepted : List (AcceptedEdge Double)} {i j : Nat} (joined : Joined accepted i j) :
    Joined accepted j i := by
  obtain ⟨edge, mem, ends⟩ := joined
  exact ⟨edge, mem, ends.symm⟩

/-- Where the adjacency of a graph has an entry, and where it has a positive one. -/
structure WeightedGraph.Neighbors (graph : WeightedGraph Double) : Prop where
  ends : ∀ edge ∈ graph.acceptedEdges,
    edge.source < graph.nodes.length ∧ edge.target < graph.nodes.length
  keys : ∀ i, ∀ entry ∈ graph.adjacency.getD i [], Joined graph.acceptedEdges i entry.1
  positive : ∀ i j, Joined graph.acceptedEdges i j →
    ∃ weight, (j, weight) ∈ graph.adjacency.getD i [] ∧ 0 < weight

theorem undirectedPair_eq_iff {edge : AcceptedEdge Double} {i j : Nat} :
    undirectedPair edge = toLex (min i j, max i j) ↔
      (edge.source = i ∧ edge.target = j) ∨ (edge.source = j ∧ edge.target = i) := by
  unfold undirectedPair
  split
  · rw [toLex_inj, Prod.mk.injEq]
    omega
  · rw [toLex_inj, Prod.mk.injEq]
    omega

theorem undirectedEdges_pos {accepted : List (AcceptedEdge Double)}
    (positive : ∀ edge ∈ accepted, 0 < edge.weight) :
    ∀ entry ∈ undirectedEdges accepted, 0 < entry.2 := by
  induction accepted using List.reverseRecOn with
  | nil => exact fun entry mem => by cases mem
  | append_singleton accepted last ih =>
    intro entry mem
    have before := ih fun edge listed => positive edge (List.mem_append_left _ listed)
    have here := positive last (by simp)
    unfold undirectedEdges at mem
    rw [List.foldl_concat] at mem
    have found := lookup_of_mem (nodup_keys_upsert _ _ _ (nodup_undirectedEdges accepted)) mem
    rw [lookup_upsert] at found
    split at found
    · rw [← Option.some.inj found]
      refine Binary.add_pos ?_ here (by decide)
      cases known : (undirectedEdges accepted).lookup (undirectedPair last) with
      | none => exact .inl rfl
      | some weight => exact .inr (before _ (mem_of_lookup known))
    · exact before entry (mem_of_lookup found)

theorem buildGraph_neighbors (nodes : List Node) (edges : List Edge) (minimumConfidence : F32)
    (weights : EdgeKind → Double) (selected : BTreeSet NodeId) (graph : WeightedGraph Double)
    (is : graph = buildGraph nodes edges minimumConfidence weights selected)
    (positive : ∀ edge ∈ graph.acceptedEdges, 0 < edge.weight) : graph.Neighbors := by
  have ends := buildGraph_ends nodes edges minimumConfidence weights selected
  obtain ⟨size, listed⟩ := buildGraph_symmetrised nodes edges minimumConfidence weights selected
    graph is
  rw [← is] at ends
  constructor
  case ends => exact ends
  case keys =>
    intro i entry mem
    by_cases inside : i < graph.nodes.length
    · have known := List.mem_map_of_mem (f := Prod.fst) ((listed i inside entry.1 entry.2).1 mem)
      obtain ⟨edge, accepted, pair⟩ := mem_undirectedEdges.1 known
      exact ⟨edge, accepted, undirectedPair_eq_iff.1 pair⟩
    · have outside : graph.adjacency[i]? = none :=
        List.getElem?_eq_none (size.trans_le (Nat.le_of_not_lt inside))
      rw [List.getD_eq_getElem?_getD, outside] at mem
      cases mem
  case positive =>
    rintro i j ⟨edge, mem, joins⟩
    have inside : i < graph.nodes.length := by
      have bounds := ends edge mem
      omega
    obtain ⟨entry, entered, pair⟩ := List.mem_map.1
      (mem_undirectedEdges.2 ⟨edge, mem, undirectedPair_eq_iff.2 joins⟩)
    refine ⟨entry.2, (listed i inside j entry.2).2 ?_, undirectedEdges_pos positive entry entered⟩
    exact pair ▸ entered

end Neighbors

section Exploration

variable {graph : WeightedGraph Double}

def colorOf (assignments : List (Option Nat)) (node : Nat) : Option Nat := assignments.getD node none

theorem colorOf_set {assignments : List (Option Nat)} {node : Nat}
    (fresh : assignments[node]? = some none) (component : Nat) :
    colorOf (assignments.set node (some component)) =
      Function.update (colorOf assignments) node (some component) := by
  have inside := (List.getElem?_eq_some_iff.1 fresh).1
  funext other
  rw [Function.update_apply, colorOf, colorOf, List.getD_eq_getElem?_getD,
    List.getD_eq_getElem?_getD, List.getElem?_set]
  by_cases same : node = other
  · subst same
    simp [inside]
  · simp [same, Ne.symm same]

theorem colorOf_eq_none {assignments : List (Option Nat)} {node : Nat}
    (fresh : assignments[node]? = some none) : colorOf assignments node = none := by
  rw [colorOf, List.getD_eq_getElem?_getD, fresh]
  rfl

structure Exploring (graph : WeightedGraph Double) (component : Nat) (waiting : Set Nat)
    (assignments : List (Option Nat)) : Prop where
  size : assignments.length = graph.nodes.length
  explored : Explored (Joined graph.acceptedEdges) waiting (colorOf assignments)
  same : ∀ v ∈ waiting, colorOf assignments v = some component
  known : ∀ v c, colorOf assignments v = some c → c ≤ component

def Extends (assignments assignments' : List (Option Nat)) : Prop :=
  ∀ v c, colorOf assignments v = some c → colorOf assignments' v = some c

theorem Extends.trans {a b c : List (Option Nat)} (first : Extends a b) (second : Extends b c) :
    Extends a c := fun v d is => second v d (first v d is)

theorem extends_set {assignments : List (Option Nat)} {node : Nat}
    (fresh : assignments[node]? = some none) (component : Nat) :
    Extends assignments (assignments.set node (some component)) := by
  intro v c is
  rw [colorOf_set fresh, Function.update_apply]
  split
  · next here =>
    rw [here, colorOf_eq_none fresh] at is
    cases is
  · exact is

variable {component node : Nat}

theorem Exploring.assign {waiting : Set Nat} {assignments : List (Option Nat)} {w : Nat}
    (h : Exploring graph component waiting assignments) (waits : node ∈ waiting)
    (near : Joined graph.acceptedEdges node w) (fresh : assignments[w]? = some none) :
    Exploring graph component (insert w waiting) (assignments.set w (some component)) := by
  have bare := colorOf_eq_none fresh
  constructor
  case size => rw [List.length_set, h.size]
  case explored =>
    rw [colorOf_set fresh]
    exact h.explored.pass (fun _ _ => Joined.symm) (h.same node waits) near bare
  case same =>
    intro v mem
    rw [colorOf_set fresh, Function.update_apply]
    split
    · rfl
    · next other => exact h.same v ((Set.mem_insert_iff.1 mem).resolve_left other)
  case known =>
    intro v c is
    rw [colorOf_set fresh, Function.update_apply] at is
    split at is
    · exact (Option.some.inj is).symm.le
    · exact h.known v c is

theorem Exploring.foldl {entries : List (Nat × Double)}
    (near : ∀ entry ∈ entries, 0 < entry.2 → Joined graph.acceptedEdges node entry.1 ∧
      entry.1 < graph.nodes.length) :
    ∀ s : Exploration, Exploring graph component (insert node {v | v ∈ s.1}) s.2 →
      Exploring graph component
          (insert node {v | v ∈ (entries.foldl (assignNeighbor component) s).1})
          (entries.foldl (assignNeighbor component) s).2 ∧
        Extends s.2 (entries.foldl (assignNeighbor component) s).2 ∧
        ∀ entry ∈ entries, 0 < entry.2 →
          colorOf (entries.foldl (assignNeighbor component) s).2 entry.1 ≠ none := by
  induction entries with
  | nil => exact fun s h => ⟨h, fun _ _ is => is, fun entry mem => by cases mem⟩
  | cons entry entries ih =>
    intro s h
    have later := ih fun other mem => near other (List.mem_cons_of_mem _ mem)
    rw [List.foldl_cons]
    by_cases fresh : 0 < entry.2 ∧ s.2[entry.1]? = some none
    · have step : assignNeighbor component s entry =
          (entry.1 :: s.1, s.2.set entry.1 (some component)) := if_pos fresh
      have joined := (near entry List.mem_cons_self fresh.1).1
      have next := h.assign (Set.mem_insert _ _) joined fresh.2
      have same : insert entry.1 (insert node {v | v ∈ s.1}) =
          insert node {v | v ∈ entry.1 :: s.1} := by
        ext v
        simp only [Set.mem_insert_iff, Set.mem_ofPred_eq, List.mem_cons]
        exact or_left_comm
      rw [same] at next
      rw [step]
      obtain ⟨exploring, grown, met⟩ :=
        later (entry.1 :: s.1, s.2.set entry.1 (some component)) next
      refine ⟨exploring, (extends_set fresh.2 component).trans grown, fun other mem positive => ?_⟩
      rcases List.mem_cons.1 mem with rfl | mem
      · have here : colorOf (s.2.set other.1 (some component)) other.1 = some component := by
          rw [colorOf_set fresh.2, Function.update_self]
        rw [grown _ _ here]
        exact Option.some_ne_none _
      · exact met other mem positive
    · have step : assignNeighbor component s entry = s := if_neg fresh
      rw [step]
      obtain ⟨exploring, grown, met⟩ := later s h
      refine ⟨exploring, grown, fun other mem positive => ?_⟩
      rcases List.mem_cons.1 mem with rfl | mem
      · -- the neighbour had a label already
        have inside : other.1 < s.2.length := h.size ▸ (near other List.mem_cons_self positive).2
        have labelled : s.2[other.1] ≠ none := by
          intro none
          exact fresh ⟨positive, List.getElem?_eq_some_iff.2 ⟨inside, none⟩⟩
        obtain ⟨c, is⟩ := Option.ne_none_iff_exists'.1 labelled
        have old : colorOf s.2 other.1 = some c := by
          rw [colorOf, List.getD_eq_getElem?_getD, List.getElem?_eq_getElem inside, Option.getD_some, is]
        rw [grown _ _ old]
        exact Option.some_ne_none _
      · exact met other mem positive

theorem exploreTurn_holds (neighbors : graph.Neighbors) (origin : List (Option Nat)) (s : Exploration)
    (h : Exploring graph component {v | v ∈ s.1} s.2 ∧ Extends origin s.2) :
    (exploreTurn graph component s).Holds
      (fun s => Exploring graph component {v | v ∈ s.1} s.2 ∧ Extends origin s.2)
      (fun assignments => Exploring graph component ∅ assignments ∧ Extends origin assignments) := by
  obtain ⟨pending, assignments⟩ := s
  cases pending with
  | nil =>
    refine ⟨?_, h.2⟩
    have none : {v | v ∈ ([] : List Nat)} = (∅ : Set Nat) := by
      ext v
      simp
    exact none ▸ h.1
  | cons node pending =>
    have same : {v | v ∈ node :: pending} = insert node {v | v ∈ pending} := by
      ext v
      simp
    have start : Exploring graph component (insert node {v | v ∈ pending}) assignments := same ▸ h.1
    have near : ∀ entry ∈ graph.adjacency.getD node [], 0 < entry.2 →
        Joined graph.acceptedEdges node entry.1 ∧ entry.1 < graph.nodes.length := by
      intro entry mem _
      obtain ⟨edge, listed, ends⟩ := neighbors.keys node entry mem
      have bounds := neighbors.ends edge listed
      exact ⟨⟨edge, listed, ends⟩, by omega⟩
    obtain ⟨exploring, grown, met⟩ := Exploring.foldl near (pending, assignments) start
    refine ⟨⟨exploring.size, ?_, fun v mem => exploring.same v (Set.mem_insert_of_mem _ mem),
      exploring.known⟩, h.2.trans grown⟩
    refine exploring.explored.settle (fun _ _ => Joined.symm) exploring.same fun w joined => ?_
    obtain ⟨weight, mem, positive⟩ := neighbors.positive _ _ joined
    exact met (w, weight) mem positive

theorem exploreFrom_spec (neighbors : graph.Neighbors) {assignments : List (Option Nat)} {start : Nat}
    (size : assignments.length = graph.nodes.length)
    (explored : Explored (Joined graph.acceptedEdges) ∅ (colorOf assignments))
    (below : ∀ v c, colorOf assignments v = some c → c < component)
    (fresh : assignments[start]? = some none) :
    Exploring graph component ∅ (exploreFrom graph component start assignments) ∧
      Extends (assignments.set start (some component))
        (exploreFrom graph component start assignments) := by
  refine loop_holds (exploreTurn_terminates graph component) _ _
    (exploreTurn_holds neighbors (assignments.set start (some component))) _ trivial
    ⟨⟨?_, ?_, fun v mem => ?_, fun v c is => ?_⟩, fun _ _ is => is⟩
  · rw [List.length_set, size]
  · have same : {v | v ∈ [start]} = ({start} : Set Nat) := by
      ext v
      simp
    rw [colorOf_set fresh, same]
    exact explored.start (colorOf_eq_none fresh) fun w is => absurd (below w component is) (lt_irrefl _)
  · rw [List.mem_singleton.1 mem, colorOf_set fresh, Function.update_self]
  · rw [colorOf_set fresh, Function.update_apply] at is
    split at is
    · exact (Option.some.inj is).symm.le
    · exact (below v c is).le

/-- Between two starts: the labels so far are those of whole parts, and every start has one. -/
structure Labelled (graph : WeightedGraph Double) (starts : List Nat) (s : List (Option Nat) × Nat) : Prop where
  size : s.1.length = graph.nodes.length
  explored : Explored (Joined graph.acceptedEdges) ∅ (colorOf s.1)
  below : ∀ v c, colorOf s.1 v = some c → c < s.2
  met : ∀ v ∈ starts, colorOf s.1 v ≠ none

theorem Labelled.step (neighbors : graph.Neighbors) {starts : List Nat} {s : List (Option Nat) × Nat}
    (h : Labelled graph starts s) {start : Nat} (inside : start < graph.nodes.length) :
    Labelled graph (starts ++ [start]) (componentFrom graph s start) := by
  unfold componentFrom
  split
  · next fresh =>
    obtain ⟨exploring, grown⟩ := exploreFrom_spec neighbors h.size h.explored h.below fresh
    have kept := (extends_set fresh s.2).trans grown
    constructor
    case size => exact exploring.size
    case explored => exact exploring.explored
    case below => exact fun v c is => Nat.lt_succ_of_le (exploring.known v c is)
    case met =>
      intro v mem
      rcases List.mem_append.1 mem with mem | mem
      · obtain ⟨c, is⟩ := Option.ne_none_iff_exists'.1 (h.met v mem)
        rw [kept v c is]
        exact Option.some_ne_none _
      · have here : colorOf (s.1.set start (some s.2)) start = some s.2 := by
          rw [colorOf_set fresh, Function.update_self]
        rw [List.mem_singleton.1 mem, grown _ _ here]
        exact Option.some_ne_none _
  · next known =>
    refine ⟨h.size, h.explored, h.below, fun v mem => ?_⟩
    rcases List.mem_append.1 mem with mem | mem
    · exact h.met v mem
    · have bound : start < s.1.length := h.size ▸ inside
      rw [List.mem_singleton.1 mem, colorOf, List.getD_eq_getElem?_getD, List.getElem?_eq_getElem bound,
        Option.getD_some]
      exact fun none => known (List.getElem?_eq_some_iff.2 ⟨bound, none⟩)

theorem labelled_connectedComponents (neighbors : graph.Neighbors) :
    ∃ count, Labelled graph (List.range graph.nodes.length) (connectedComponents graph, count) := by
  have run : ∀ starts : List Nat, (∀ v ∈ starts, v < graph.nodes.length) →
      Labelled graph starts (starts.foldl (componentFrom graph)
        (List.replicate graph.nodes.length none, 0)) := by
    intro starts
    induction starts using List.reverseRecOn with
    | nil =>
      intro _
      have bare : colorOf (List.replicate graph.nodes.length none) = fun _ => none := by
        funext v
        rw [colorOf, List.getD_eq_getElem?_getD, List.getElem?_replicate]
        split <;> rfl
      refine ⟨List.length_replicate, ?_, fun v c is => ?_, fun v mem => by cases mem⟩
      · exact bare ▸ explored_none
      · rw [List.foldl_nil, bare] at is
        cases is
    | append_singleton starts start ih =>
      intro inside
      rw [List.foldl_concat]
      exact (ih fun v mem => inside v (List.mem_append_left _ mem)).step neighbors
        (inside start (by simp))
  exact ⟨_, run _ fun v => List.mem_range.1⟩

theorem connectedComponents_iff (neighbors : graph.Neighbors) {i j : Nat}
    (inside : i < graph.nodes.length) (inside' : j < graph.nodes.length) :
    ((connectedComponents graph).map (·.getD 0))[i]? =
        ((connectedComponents graph).map (·.getD 0))[j]? ↔
      ReflTransGen (Joined graph.acceptedEdges) i j := by
  obtain ⟨count, labelled⟩ := labelled_connectedComponents neighbors
  have look : ∀ v < graph.nodes.length, ∃ c, colorOf (connectedComponents graph) v = some c ∧
      ((connectedComponents graph).map (·.getD 0))[v]? = some c := by
    intro v bound
    obtain ⟨c, is⟩ := Option.ne_none_iff_exists'.1 (labelled.met v (List.mem_range.2 bound))
    refine ⟨c, is, ?_⟩
    have size : v < (connectedComponents graph).length := labelled.size ▸ bound
    rw [colorOf, List.getD_eq_getElem?_getD, List.getElem?_eq_getElem size, Option.getD_some] at is
    rw [List.getElem?_map, List.getElem?_eq_getElem size, is]
    rfl
  obtain ⟨c, color, label⟩ := look i inside
  obtain ⟨d, color', label'⟩ := look j inside'
  rw [← labelled.explored.color_eq_iff color, label, label', color', eq_comm]

end Exploration

end CodeSystemGraph.Communities
