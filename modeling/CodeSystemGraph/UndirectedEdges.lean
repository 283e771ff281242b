import CodeSystemGraph.Louvain

/-! The adjacency of a built graph holds each undirected edge at both of its ends, with the
weight it was summed up to. -/

namespace CodeSystemGraph.Communities
open Ieee Model Ordered Modularity

section Entries

variable {K V : Type} [BEq K] [LawfulBEq K]

omit [LawfulBEq K] in
theorem upsert_perm_of_absent [LinearOrder K] {key : K} {entries : List (K × V)} {fresh : V}
    {update : V → V} (absent : entries.lookup key = none) :
    (upsert key fresh update entries).Perm ((key, update fresh) :: entries) := by
  unfold upsert
  rw [absent]
  exact List.perm_orderedInsert _ _ _

theorem lookup_eq_none_iff_key {key : K} {entries : List (K × V)} :
    entries.lookup key = none ↔ key ∉ entries.map Prod.fst := by
  simp only [List.lookup_eq_none_iff, bne_iff_ne, List.mem_map, not_exists, not_and]
  exact forall₂_congr fun entry _ => ne_comm

theorem mem_keys_upsert [LinearOrder K] {key k : K} {fresh : V} {update : V → V}
    {entries : List (K × V)} : k ∈ (upsert key fresh update entries).map Prod.fst ↔
      k = key ∨ k ∈ entries.map Prod.fst := by
  rw [← not_iff_not, ← lookup_eq_none_iff_key, lookup_upsert, not_or, ← lookup_eq_none_iff_key]
  by_cases same : k = key <;> simp [same]

theorem getD_modify {α : Type} (l : List α) (i j : Nat) (f : α → α) (d : α) :
    (l.modify i f).getD j d = if i = j ∧ j < l.length then f (l.getD j d) else l.getD j d := by
  rw [List.getD_eq_getElem?_getD, List.getD_eq_getElem?_getD, List.getElem?_modify]
  by_cases inside : j < l.length
  · by_cases same : i = j
    · simp [same, inside]
    · simp [same, inside]
  · simp [inside]

end Entries

variable {W : Type} [Weight W]

section Undirected

theorem nodup_undirectedEdges (accepted : List (AcceptedEdge W)) :
    ((undirectedEdges accepted).map Prod.fst).Nodup := by
  induction accepted using List.reverseRecOn with
  | nil => exact List.nodup_nil
  | append_singleton accepted edge ih =>
    unfold undirectedEdges at ih ⊢
    rw [List.foldl_concat]
    exact nodup_keys_upsert _ _ _ ih

theorem mem_undirectedEdges {accepted : List (AcceptedEdge W)} {pair : Nat ×ₗ Nat} :
    pair ∈ (undirectedEdges accepted).map Prod.fst ↔
      ∃ edge ∈ accepted, undirectedPair edge = pair := by
  induction accepted using List.reverseRecOn with
  | nil => simp [undirectedEdges]
  | append_singleton accepted edge ih =>
    unfold undirectedEdges at ih ⊢
    rw [List.foldl_concat, mem_keys_upsert, ih]
    simp only [List.mem_append, List.mem_singleton, or_and_right, exists_or, exists_eq_left]
    rw [or_comm, eq_comm]

theorem undirected_bounds {accepted : List (AcceptedEdge W)} {count : Nat}
    (ends : ∀ edge ∈ accepted, edge.source < count ∧ edge.target < count) :
    ∀ entry ∈ undirectedEdges accepted,
      (ofLex entry.1).1 ≤ (ofLex entry.1).2 ∧ (ofLex entry.1).2 < count := by
  intro entry mem
  obtain ⟨edge, listed, is⟩ := mem_undirectedEdges.1 (List.mem_map_of_mem mem)
  have inside := ends edge listed
  rw [← is, undirectedPair]
  split
  · next ordered => exact ⟨ordered, inside.2⟩
  · next reversed => exact ⟨by rw [ofLex_toLex]; omega, inside.1⟩

end Undirected

section Symmetrised

omit [Weight W] in
theorem insertEntry_perm {position : Nat} {weight : W} {entries : List (Nat × W)}
    (fresh : position ∉ entries.map Prod.fst) :
    (insertEntry position weight entries).Perm ((position, weight) :: entries) :=
  upsert_perm_of_absent (lookup_eq_none_iff_key.2 fresh)

theorem connect_adjacency (s : Vectors W) (source target : Nat) (weight : W) {node : Nat}
    (inside : node < s.adjacency.length) :
    (connect s (toLex (source, target), weight)).adjacency.getD node [] =
      if source = node then insertEntry target weight (s.adjacency.getD node [])
      else if target = node then insertEntry source weight (s.adjacency.getD node [])
      else s.adjacency.getD node [] := by
  unfold connect
  by_cases loop : source = target
  · simp only [ofLex_toLex, loop, ↓reduceIte, getD_modify, inside, and_true]
    by_cases here : target = node <;> simp [here]
  · simp only [ofLex_toLex, loop, ↓reduceIte, getD_modify, List.length_modify, inside, and_true]
    by_cases here : source = node
    · have other : target ≠ node := fun same => loop (here.trans same.symm)
      simp [here, other]
    · simp [here]

theorem connect_size (s : Vectors W) (entry : (Nat ×ₗ Nat) × W) :
    (connect s entry).adjacency.length = s.adjacency.length ∧
      (connect s entry).weightedDegree.length = s.weightedDegree.length ∧
      (connect s entry).totalUndirectedWeight = s.totalUndirectedWeight + entry.2 := by
  unfold connect
  dsimp only
  split <;> simp

/-- Each entry is at both of its ends, and nothing else is there. -/
structure Symmetrised (count : Nat) (entries : List ((Nat ×ₗ Nat) × W)) (s : Vectors W) : Prop where
  size : s.adjacency.length = count
  mem_iff : ∀ node < count, ∀ (key : Nat) (weight : W), (key, weight) ∈ s.adjacency.getD node [] ↔
    (toLex (min node key, max node key), weight) ∈ entries

theorem Symmetrised.new (count : Nat) : Symmetrised (W := W) count [] (.new count) where
  size := List.length_replicate
  mem_iff := by
    intro node inside key weight
    simp [Vectors.new, List.getD_eq_getElem?_getD, inside]

omit [Weight W] in
theorem Symmetrised.keys {count : Nat} {entries : List ((Nat ×ₗ Nat) × W)} {s : Vectors W}
    (h : Symmetrised count entries s) {node key : Nat} (inside : node < count)
    (listed : key ∈ (s.adjacency.getD node []).map Prod.fst) :
    toLex (min node key, max node key) ∈ entries.map Prod.fst := by
  obtain ⟨entry, mem, rfl⟩ := List.mem_map.1 listed
  exact List.mem_map_of_mem ((h.mem_iff node inside entry.1 entry.2).1 mem)

omit [Weight W] in
/-- A pair that was not connected is in neither of the two lists. -/
theorem Symmetrised.absent {count : Nat} {entries : List ((Nat ×ₗ Nat) × W)} {s : Vectors W}
    (h : Symmetrised count entries s) {source target : Nat} (ordered : source ≤ target)
    (fresh : toLex (source, target) ∉ entries.map Prod.fst) {node : Nat} (inside : node < count) :
    (source = node → target ∉ (s.adjacency.getD node []).map Prod.fst) ∧
      (target = node → source ∉ (s.adjacency.getD node []).map Prod.fst) := by
  constructor
  · rintro rfl listed
    have known := h.keys inside listed
    rw [min_eq_left ordered, max_eq_right ordered] at known
    exact fresh known
  · rintro rfl listed
    have known := h.keys inside listed
    rw [min_eq_right ordered, max_eq_left ordered] at known
    exact fresh known

theorem Symmetrised.connect {count : Nat} {entries : List ((Nat ×ₗ Nat) × W)} {s : Vectors W}
    (h : Symmetrised count entries s) {source target : Nat} {weight : W} (ordered : source ≤ target)
    (fresh : toLex (source, target) ∉ entries.map Prod.fst) :
    Symmetrised count (entries ++ [(toLex (source, target), weight)])
      (connect s (toLex (source, target), weight)) where
  size := (connect_size s _).1.trans h.size
  mem_iff := by
    intro node inside key weight'
    obtain ⟨noTarget, noSource⟩ := h.absent ordered fresh inside
    rw [connect_adjacency s source target weight (h.size ▸ inside), List.mem_append,
      ← h.mem_iff node inside, List.mem_singleton, Prod.mk.injEq, toLex_inj, Prod.mk.injEq]
    by_cases here : source = node
    · rw [if_pos here, (insertEntry_perm (noTarget here)).mem_iff, List.mem_cons, Prod.mk.injEq,
        or_comm]
      refine or_congr_right (and_congr_left fun _ => ?_)
      omega
    · by_cases there : target = node
      · rw [if_neg here, if_pos there, (insertEntry_perm (noSource there)).mem_iff, List.mem_cons,
          Prod.mk.injEq, or_comm]
        refine or_congr_right (and_congr_left fun _ => ?_)
        omega
      · rw [if_neg here, if_neg there]
        refine (or_iff_left fun new => ?_).symm
        omega

/-- What new vectors satisfy and each connection of a fresh pair keeps holds at the end. -/
theorem foldl_connect_rule {count : Nat} {P : List ((Nat ×ₗ Nat) × W) → Vectors W → Prop}
    (start : P [] (.new count))
    (step : ∀ entries s source target weight, P entries s → source ≤ target →
      toLex (source, target) ∉ entries.map Prod.fst →
      P (entries ++ [(toLex (source, target), weight)]) (connect s (toLex (source, target), weight)))
    {entries : List ((Nat ×ₗ Nat) × W)} (nodup : (entries.map Prod.fst).Nodup)
    (ordered : ∀ entry ∈ entries, (ofLex entry.1).1 ≤ (ofLex entry.1).2) :
    P entries (entries.foldl connect (.new count)) := by
  induction entries using List.reverseRecOn with
  | nil => exact start
  | append_singleton entries entry ih =>
    rw [List.map_append, List.nodup_append] at nodup
    rw [List.foldl_concat]
    have before := ih nodup.1 fun other mem => ordered other (List.mem_append_left _ mem)
    refine step _ _ _ _ _ before (ordered entry (by simp)) fun known => ?_
    exact nodup.2.2 _ known _ (List.mem_singleton.2 rfl) rfl

theorem symmetrised_foldl (count : Nat) {entries : List ((Nat ×ₗ Nat) × W)}
    (nodup : (entries.map Prod.fst).Nodup)
    (ordered : ∀ entry ∈ entries, (ofLex entry.1).1 ≤ (ofLex entry.1).2) :
    Symmetrised count entries (entries.foldl connect (.new count)) :=
  foldl_connect_rule (.new count) (fun _ _ _ _ _ h => h.connect) nodup ordered

end Symmetrised

section Graph

theorem indexNodes_lt {nodes : List Node} {id : NodeId} {position : Nat}
    (found : (indexNodes nodes)[id]? = some position) : position < nodes.length := by
  have listed : ∀ (entries : List (Node × Nat)) (index : BTreeMap NodeId Nat),
      (∀ entry ∈ entries, entry.2 < nodes.length) →
      (∀ (id : NodeId) (position : Nat), index[id]? = some position → position < nodes.length) →
      ∀ (id : NodeId) (position : Nat), (entries.foldl
        (fun index entry => index.insert entry.1.id entry.2) index)[id]? = some position → position < nodes.length := by
    intro entries
    induction entries with
    | nil => intro index _ known; exact known
    | cons entry entries ih =>
      intro index inside known
      obtain ⟨here, inside⟩ := List.forall_mem_cons.1 inside
      refine ih _ inside fun id position is => ?_
      rw [Std.ExtTreeMap.getElem?_insert] at is
      split at is
      · exact Option.some.inj is ▸ here
      · exact known id position is
  refine listed nodes.zipIdx ∅ (fun entry mem => ?_) (by simp) id position found
  have bound := List.snd_lt_of_mem_zipIdx mem
  simpa using bound

theorem acceptEdge_ends {minimumConfidence : F32} {weights : EdgeKind → W} {nodes : List Node}
    {edge : Edge} {accepted : AcceptedEdge W}
    (passed : acceptEdge minimumConfidence weights (indexNodes nodes) edge = some accepted) :
    accepted.source < nodes.length ∧ accepted.target < nodes.length := by
  unfold acceptEdge at passed
  split at passed
  · cases passed
  · obtain ⟨source, first, rest⟩ := Option.bind_eq_some_iff.1 passed
    obtain ⟨target, second, rest⟩ := Option.bind_eq_some_iff.1 rest
    dsimp only at rest
    split at rest
    · cases rest
    · obtain rfl := Option.some.inj rest
      exact ⟨indexNodes_lt first, indexNodes_lt second⟩

theorem buildGraph_ends (nodes : List Node) (edges : List Edge) (minimumConfidence : F32)
    (weights : EdgeKind → W) (selected : BTreeSet NodeId) :
    ∀ edge ∈ (buildGraph nodes edges minimumConfidence weights selected).acceptedEdges,
      edge.source < (buildGraph nodes edges minimumConfidence weights selected).nodes.length ∧
        edge.target < (buildGraph nodes edges minimumConfidence weights selected).nodes.length := by
  intro edge mem
  obtain ⟨origin, -, passed⟩ := List.mem_filterMap.1 mem
  exact acceptEdge_ends passed

theorem buildGraph_symmetrised (nodes : List Node) (edges : List Edge) (minimumConfidence : F32)
    (weights : EdgeKind → W) (selected : BTreeSet NodeId) (graph : WeightedGraph W)
    (is : graph = buildGraph nodes edges minimumConfidence weights selected) :
    graph.adjacency.length = graph.nodes.length ∧
      ∀ node < graph.nodes.length, ∀ (key : Nat) (weight : W),
        (key, weight) ∈ graph.adjacency.getD node [] ↔
          (toLex (min node key, max node key), weight) ∈ undirectedEdges graph.acceptedEdges := by
  subst is
  have pairs := undirected_bounds (buildGraph_ends nodes edges minimumConfidence weights selected)
  have filled := symmetrised_foldl (buildGraph nodes edges minimumConfidence weights
    selected).nodes.length (nodup_undirectedEdges _) fun entry mem => (pairs entry mem).1
  exact ⟨filled.size, filled.mem_iff⟩

end Graph

end CodeSystemGraph.Communities
