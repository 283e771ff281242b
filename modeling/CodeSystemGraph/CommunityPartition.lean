import CodeSystemGraph.CommunityComponents
import CodeSystemGraph.CommunityDescription
import CodeSystemGraph.Text

/-! The communities of an analysis are a partition of the nodes in scope, whatever algorithm
labels the nodes, and the order of the nodes and edges is forgotten. -/

namespace CodeSystemGraph.Communities
open Ieee Model Ordered Relation

section Lengths

variable (stableId : String → String → String) (graph : WeightedGraph Double) (seed : UInt64)

theorem length_foldl_relabel (nodes : List Nat) : ∀ s : List Nat × Bool,
    (nodes.foldl (relabel stableId graph seed) s).1.length = s.1.length := by
  induction nodes with
  | nil => exact fun _ => rfl
  | cons node nodes ih =>
    intro s
    rw [List.foldl_cons, ih, relabel]
    split
    · exact List.length_set
    · rfl

theorem length_propagate (limit : Nat) : ∀ assignments : List Nat,
    (propagate stableId graph seed limit assignments).length = assignments.length := by
  induction limit with
  | zero => exact fun _ => rfl
  | succ limit ih =>
    intro assignments
    have swept := length_foldl_relabel stableId graph seed (seededNodeOrder stableId graph seed)
      (assignments, false)
    rw [propagate]
    dsimp only
    split
    · rw [ih, swept]
    · exact swept

variable {graph}

theorem length_assignmentsOf (neighbors : graph.Neighbors) (config : CommunityConfig) :
    (assignmentsOf stableId graph config).length = graph.nodes.length := by
  unfold assignmentsOf
  cases config.algorithm with
  | connectedComponents =>
    obtain ⟨count, labelled⟩ := labelled_connectedComponents neighbors
    exact (List.length_map _).trans labelled.size
  | weightedClustering =>
    exact (length_propagate stableId graph _ _ _).trans List.length_range
  | louvain =>
    dsimp only
    unfold louvain
    split
    · exact List.length_range
    · exact (rounds_reached config.maxIterations.toNat .start).length

end Lengths

section Groups

variable (assignments : List Nat)

def labelledWith (label : Nat) : List Nat :=
  (List.range assignments.length).filter fun node => assignments[node]? = some label

def grouped : BTreeMap Nat (List Nat) :=
  assignments.zipIdx.foldl (fun grouped entry => pushTo grouped entry.1 entry.2) ∅

variable {assignments}

theorem labelledWith_concat (label last : Nat) : labelledWith (assignments ++ [last]) label =
    labelledWith assignments label ++ if last = label then [assignments.length] else [] := by
  have earlier : (List.range assignments.length).filter
      (fun node => (assignments ++ [last])[node]? = some label) = labelledWith assignments label := by
    refine List.filter_congr fun node mem => ?_
    rw [List.getElem?_append_left (List.mem_range.1 mem)]
  rw [labelledWith, List.length_append, List.length_singleton, List.range_succ, List.filter_append,
    earlier]
  by_cases same : last = label <;> simp [same]

theorem getElem?_grouped (label : Nat) : (grouped assignments)[label]? =
    if labelledWith assignments label = [] then none else some (labelledWith assignments label) := by
  induction assignments using List.reverseRecOn with
  | nil => simp [grouped, labelledWith]
  | append_singleton assignments last ih =>
    have step : grouped (assignments ++ [last]) =
        pushTo (grouped assignments) last assignments.length := by
      rw [grouped, List.zipIdx_append, List.foldl_append]
      simp [grouped]
    rw [step, pushTo, Std.ExtTreeMap.getElem?_alter, labelledWith_concat]
    by_cases same : last = label
    · subst same
      rw [ih]
      by_cases empty : labelledWith assignments last = [] <;> simp [empty]
    · simp [same, ih]

theorem mem_groupMembers {members : List Nat} : members ∈ groupMembers assignments ↔
    ∃ label, members = labelledWith assignments label ∧ members ≠ [] := by
  have lookup : members ∈ groupMembers assignments ↔
      ∃ label : Nat, (grouped assignments)[label]? = some members := mem_values
  rw [lookup]
  refine exists_congr fun label => ?_
  rw [getElem?_grouped]
  by_cases empty : labelledWith assignments label = []
  · simp [empty]
  · rw [if_neg empty, Option.some.injEq, eq_comm]
    exact ⟨fun is => ⟨is, is ▸ empty⟩, fun both => both.1⟩

theorem mem_labelledWith {label node : Nat} :
    node ∈ labelledWith assignments label ↔ assignments[node]? = some label := by
  rw [labelledWith, List.mem_filter, List.mem_range, decide_eq_true_eq]
  exact and_iff_right_of_imp fun found => (List.getElem?_eq_some_iff.1 found).1

theorem pairwise_groupMembers (assignments : List Nat) :
    (groupMembers assignments).Pairwise List.Disjoint := by
  have keys : (grouped assignments).toList.Pairwise fun a b => ¬compare a.1 b.1 = .eq :=
    Std.ExtTreeMap.distinct_keys_toList
  refine List.pairwise_map.2 (keys.imp_of_mem fun {a b} mem mem' differ => ?_)
  have labels : ∀ entry ∈ (grouped assignments).toList, entry.2 = labelledWith assignments entry.1 := by
    intro entry listed
    have found := Std.ExtTreeMap.mem_toList_iff_getElem?_eq_some.1 listed
    rw [getElem?_grouped] at found
    split at found
    · cases found
    · exact (Option.some.inj found).symm
  intro node first second
  rw [labels a mem, mem_labelledWith] at first
  rw [labels b mem', mem_labelledWith, first] at second
  exact differ (Std.LawfulEqOrd.compare_eq_iff_eq.2 (Option.some.inj second))

end Groups

section Identifiers

theorem canonicalMembers_cons (id : NodeId) (ids : List NodeId) : ∃ rest : List Char,
    (canonicalMembers (id :: ids)).toList =
      id.utf8ByteSize.repr.toList ++ ':' :: (id.toList ++ rest) := by
  have colon : ":".toList = [':'] := by decide
  cases ids with
  | nil => exact ⟨[], by simp [canonicalMembers, colon, String.toList_append]⟩
  | cons next ids =>
    refine ⟨("|" ++ canonicalMembers (next :: ids)).toList, ?_⟩
    simp [canonicalMembers, String.intercalate_cons_cons, colon, String.toList_append]

/-- The canonical text of some members begins with the first of them, so texts that are equal have
a member in common. -/
theorem canonicalMembers_inj {id id' : NodeId} {ids ids' : List NodeId}
    (same : canonicalMembers (id :: ids) = canonicalMembers (id' :: ids')) : id = id' := by
  obtain ⟨rest, is⟩ := canonicalMembers_cons id ids
  obtain ⟨rest', is'⟩ := canonicalMembers_cons id' ids'
  rw [same, is'] at is
  obtain ⟨size, tail⟩ :=
    Text.append_cons_inj (Text.notMem_repr (by decide)) (Text.notMem_repr (by decide)) is
  have equal : id'.toList = id.toList := by
    refine Text.eq_of_size tail ?_
    rw [String.ofList_toList, String.ofList_toList, Text.repr_inj size]
  exact (String.toList_inj.1 equal).symm

end Identifiers

section Groups

variable {graph : WeightedGraph Double} {assignments : List Nat}

theorem mem_communityGroups {members : List Nat} : members ∈ communityGroups graph assignments ↔
    ∃ label, members = sortBy (nodeId graph) (labelledWith assignments label) ∧ members ≠ [] := by
  rw [communityGroups, mem_sortBy, List.mem_map]
  constructor
  · rintro ⟨group, mem, rfl⟩
    obtain ⟨label, rfl, occupied⟩ := mem_groupMembers.1 mem
    refine ⟨label, rfl, fun empty => occupied ?_⟩
    exact List.perm_nil.1 (empty ▸ (sortBy_perm _ _).symm)
  · rintro ⟨label, rfl, occupied⟩
    refine ⟨_, mem_groupMembers.2 ⟨label, rfl, fun empty => occupied ?_⟩, rfl⟩
    exact List.perm_nil.1 (empty ▸ sortBy_perm (nodeId graph) (labelledWith assignments label))

theorem mem_group {members : List Nat} {label node : Nat}
    (is : members = sortBy (nodeId graph) (labelledWith assignments label)) :
    node ∈ members ↔ assignments[node]? = some label := by
  rw [is, mem_sortBy, mem_labelledWith]

theorem exists_group_iff {i j : Nat} (inside : i < assignments.length) :
    (∃ members ∈ communityGroups graph assignments, i ∈ members ∧ j ∈ members) ↔
      assignments[i]? = assignments[j]? := by
  constructor
  · rintro ⟨members, mem, first, second⟩
    obtain ⟨label, is, -⟩ := mem_communityGroups.1 mem
    rw [(mem_group is).1 first, (mem_group is).1 second]
  · intro same
    obtain ⟨label, found⟩ : ∃ label, assignments[i]? = some label :=
      ⟨_, List.getElem?_eq_getElem inside⟩
    have mem : i ∈ sortBy (nodeId graph) (labelledWith assignments label) := (mem_group rfl).2 found
    exact ⟨_, mem_communityGroups.2 ⟨label, rfl, List.ne_nil_of_mem mem⟩, mem,
      (mem_group rfl).2 (same ▸ found)⟩

theorem nodup_flatten_communityGroups (graph : WeightedGraph Double) (assignments : List Nat) :
    (communityGroups graph assignments).flatten.Nodup := by
  refine List.nodup_flatten.2 ⟨fun members mem => ?_, ?_⟩
  · obtain ⟨label, rfl, -⟩ := mem_communityGroups.1 mem
    exact (sortBy_perm _ _).nodup_iff.2 (List.nodup_range.filter _)
  · refine ((sortBy_perm _ _).pairwise_iff fun {a b} apart => apart.symm).2 ?_
    refine List.pairwise_map.2 ((pairwise_groupMembers assignments).imp fun {a b} apart node => ?_)
    rw [mem_sortBy, mem_sortBy]
    exact fun first second => apart first second

theorem flatten_communityGroups_perm (graph : WeightedGraph Double) (assignments : List Nat) :
    (communityGroups graph assignments).flatten.Perm (List.range assignments.length) := by
  refine (List.perm_ext_iff_of_nodup (nodup_flatten_communityGroups graph assignments)
    List.nodup_range).2 fun node => ?_
  rw [List.mem_flatten, List.mem_range]
  constructor
  · rintro ⟨members, mem, listed⟩
    obtain ⟨label, is, -⟩ := mem_communityGroups.1 mem
    exact (List.getElem?_eq_some_iff.1 ((mem_group is).1 listed)).1
  · intro inside
    obtain ⟨members, mem, listed, -⟩ := (@exists_group_iff graph assignments node node inside).2 rfl
    exact ⟨members, mem, listed⟩

end Groups

section Communities

variable (stableId : String → String → String) (letters : Letters) {graph : WeightedGraph Double}
  {assignments : List Nat}

theorem describeCommunities_members (graph : WeightedGraph Double) (assignments : List Nat) :
    (describeCommunities stableId letters graph assignments).map Community.members =
      (communityGroups graph assignments).map fun members => members.map (nodeId graph) := by
  rw [describeCommunities, List.map_map]
  rfl

theorem map_nodeId (graph : WeightedGraph Double) :
    (List.range graph.nodes.length).map (nodeId graph) = graph.nodes.map Node.id := by
  refine List.ext_getElem (by simp) fun i inside _ => ?_
  rw [List.length_map, List.length_range] at inside
  simp [nodeId, inside]

theorem flatMap_members_perm (size : assignments.length = graph.nodes.length) :
    ((describeCommunities stableId letters graph assignments).flatMap Community.members).Perm
      (graph.nodes.map Node.id) := by
  rw [List.flatMap_def, describeCommunities_members, ← map_nodeId, ← size]
  refine List.Perm.trans (.of_eq ?_) ((flatten_communityGroups_perm graph assignments).map _)
  rw [List.map_flatten]

theorem nodeId_eq_some {i : Nat} (inside : i < graph.nodes.length) :
    (graph.nodes.map Node.id)[i]? = some (nodeId graph i) := by
  simp [nodeId, inside]

theorem nodeId_inj (distinct : (graph.nodes.map Node.id).Nodup) {i j : Nat}
    (inside : i < graph.nodes.length) (inside' : j < graph.nodes.length)
    (same : nodeId graph i = nodeId graph j) : i = j := by
  refine (List.getElem?_inj (by rwa [List.length_map]) distinct).1 ?_
  rw [nodeId_eq_some inside, nodeId_eq_some inside', same]

theorem exists_community_iff (size : assignments.length = graph.nodes.length)
    (distinct : (graph.nodes.map Node.id).Nodup) {i j : Nat} (inside : i < graph.nodes.length)
    (inside' : j < graph.nodes.length) :
    (∃ community ∈ describeCommunities stableId letters graph assignments,
        nodeId graph i ∈ community.members ∧ nodeId graph j ∈ community.members) ↔
      assignments[i]? = assignments[j]? := by
  rw [← @exists_group_iff graph assignments i j (size ▸ inside)]
  have member : ∀ members ∈ communityGroups graph assignments, ∀ k < graph.nodes.length,
      nodeId graph k ∈ members.map (nodeId graph) ↔ k ∈ members := by
    intro members mem k bound
    rw [List.mem_map]
    constructor
    · rintro ⟨other, listed, same⟩
      have flat : other ∈ (communityGroups graph assignments).flatten :=
        List.mem_flatten.2 ⟨members, mem, listed⟩
      have bound' := List.mem_range.1 ((flatten_communityGroups_perm graph assignments).mem_iff.1 flat)
      rwa [← nodeId_inj distinct (size ▸ bound') bound same]
    · exact fun listed => ⟨k, listed, rfl⟩
  constructor
  · rintro ⟨community, mem, first, second⟩
    obtain ⟨members, listed, rfl⟩ := List.mem_map.1 mem
    exact ⟨members, listed, (member members listed i inside).1 first,
      (member members listed j inside').1 second⟩
  · rintro ⟨members, listed, first, second⟩
    exact ⟨_, List.mem_map.2 ⟨members, listed, rfl⟩, (member members listed i inside).2 first,
      (member members listed j inside').2 second⟩

theorem members_ne_nil {community : Community}
    (mem : community ∈ describeCommunities stableId letters graph assignments) :
    community.members ≠ [] := by
  obtain ⟨members, listed, rfl⟩ := List.mem_map.1 mem
  obtain ⟨-, -, occupied⟩ := mem_communityGroups.1 listed
  exact fun empty => occupied (List.map_eq_nil_iff.1 empty)

/-- Groups without a common member have different identifiers. -/
theorem nodup_ids (injective : Function.Injective (stableId "community"))
    (size : assignments.length = graph.nodes.length)
    (distinct : (graph.nodes.map Node.id).Nodup) :
    ((describeCommunities stableId letters graph assignments).map Community.id).Nodup := by
  have members : ((describeCommunities stableId letters graph assignments).map
      Community.members).flatten.Nodup := by
    rw [← List.flatMap_def]
    exact (flatMap_members_perm stableId letters size).nodup_iff.2 distinct
  have apart := List.pairwise_map.1 (List.nodup_flatten.1 members).2
  have identifier : ∀ community ∈ describeCommunities stableId letters graph assignments,
      community.id = stableId "community" (canonicalMembers community.members) := by
    intro community mem
    obtain ⟨group, -, rfl⟩ := List.mem_map.1 mem
    rfl
  refine List.pairwise_map.2 (apart.imp_of_mem fun {a b} mem mem' disjoint same => ?_)
  rw [identifier a mem, identifier b mem'] at same
  have texts := injective same
  obtain ⟨first, rest, is⟩ := List.exists_cons_of_ne_nil (members_ne_nil stableId letters mem)
  obtain ⟨first', rest', is'⟩ := List.exists_cons_of_ne_nil (members_ne_nil stableId letters mem')
  rw [is, is'] at texts
  have common := canonicalMembers_inj texts
  refine disjoint (a := first) ?_ ?_
  · rw [is]
    exact List.mem_cons_self
  · rw [is', common]
    exact List.mem_cons_self

end Communities

section Inputs

variable {nodes nodes' : List Node} {edges edges' : List Edge} {config : CommunityConfig}
  {weights : EdgeKind → Double} {selected : BTreeSet NodeId}

theorem validateInputs_eq_ok : validateInputs nodes edges config = .ok weights ↔
    ((config.resolution.isFinite && !config.resolution.le .zero) = true ∧
      (decide (1 ≤ config.maxIterations.toNat) &&
        decide (config.maxIterations.toNat ≤ 10000)) = true ∧
      Model.unitInterval config.minimumConfidence = true) ∧
    (nodes.map Node.id).Nodup ∧ (∀ edge ∈ edges, Model.unitInterval edge.confidence = true) ∧
    configureWeights (fun _ => ⟨.ofNat 1⟩) [] config.edgeWeights = .ok weights := by
  have indexed : (∃ index, indexBy Node.id
      (fun node => CommunityError.duplicateNodeId node.id) nodes = .ok index) ↔
        (nodes.map Node.id).Nodup := by
    constructor
    · rintro ⟨index, is⟩
      exact ((indexBy_eq_ok _ _).1 is).1
    · exact indexBy_total _ _
  simp only [validateInputs, bind_eq_ok, ensure_eq_ok, forM_eq_ok, ← indexed]
  constructor
  · rintro ⟨_, resolution, _, iterations, _, confidence, index, is, _, unit, configured⟩
    exact ⟨⟨resolution, iterations, confidence⟩, ⟨index, is⟩, unit, configured⟩
  · rintro ⟨⟨resolution, iterations, confidence⟩, ⟨index, is⟩, unit, configured⟩
    exact ⟨(), resolution, (), iterations, (), confidence, index, is, (), unit, configured⟩

theorem validateInputs_perm (sameNodes : nodes'.Perm nodes) (sameEdges : edges'.Perm edges)
    (valid : validateInputs nodes edges config = .ok weights) :
    validateInputs nodes' edges' config = .ok weights := by
  obtain ⟨checks, distinct, unit, configured⟩ := validateInputs_eq_ok.1 valid
  refine validateInputs_eq_ok.2 ⟨checks, ?_, fun edge mem => unit edge (sameEdges.mem_iff.1 mem),
    configured⟩
  exact (sameNodes.map Node.id).nodup_iff.2 distinct

theorem mem_nodeIds {id : NodeId} : id ∈ nodeIds nodes ↔ id ∈ nodes.map Node.id := by
  simp [nodeIds]

theorem nodeIds_perm (same : nodes'.Perm nodes) : nodeIds nodes' = nodeIds nodes :=
  ofList_congr (same.map Node.id)

theorem mem_foldl_selectEnds (services : BTreeSet NodeId) (edges : List Edge) {id : NodeId} :
    ∀ selected : BTreeSet NodeId, id ∈ edges.foldl (selectEnds services) selected ↔
      id ∈ selected ∨ ∃ edge ∈ edges, (edge.source ∈ services ∧ edge.target = id) ∨
        (edge.target ∈ services ∧ edge.source = id) := by
  induction edges with
  | nil => simp
  | cons edge edges ih =>
    intro selected
    have step : id ∈ selectEnds services selected edge ↔ id ∈ selected ∨
        (edge.source ∈ services ∧ edge.target = id) ∨ (edge.target ∈ services ∧ edge.source = id) := by
      unfold selectEnds
      by_cases first : edge.source ∈ services <;> by_cases second : edge.target ∈ services <;>
        simp [first, second, or_comm, or_assoc]
    rw [List.foldl_cons, ih, step, List.exists_mem_cons_iff, or_assoc]

theorem scopedNodeIds_perm (sameNodes : nodes'.Perm nodes) (sameEdges : edges'.Perm edges) :
    scopedNodeIds nodes' edges' config weights = scopedNodeIds nodes edges config weights := by
  unfold scopedNodeIds
  cases config.scope with
  | federated => rw [nodeIds_perm sameNodes]
  | workspace => rw [nodeIds_perm sameNodes]
  | repository repoId =>
    dsimp only
    rw [nodeIds_perm (sameNodes.filter _)]
  | service stableKey =>
    dsimp only
    rw [nodeIds_perm sameNodes, nodeIds_perm (sameNodes.filter _)]
    split
    · rfl
    · refine congrArg Except.ok (Std.ExtTreeSet.ext_mem fun id => ?_)
      rw [mem_foldl_selectEnds, mem_foldl_selectEnds]
      simp only [((sameEdges.filter _)).mem_iff]

theorem scoped_known (inScope : scopedNodeIds nodes edges config weights = .ok selected) {id : NodeId}
    (mem : id ∈ selected) : id ∈ nodes.map Node.id := by
  have filtered : ∀ p : Node → Bool, id ∈ nodeIds (nodes.filter p) → id ∈ nodes.map Node.id := by
    intro p listed
    exact (List.filter_sublist.map Node.id).subset (mem_nodeIds.1 listed)
  unfold scopedNodeIds at inScope
  cases scope : config.scope with
  | federated =>
    rw [scope] at inScope
    obtain rfl := Except.ok.inj inScope
    exact mem_nodeIds.1 mem
  | workspace =>
    rw [scope] at inScope
    obtain rfl := Except.ok.inj inScope
    exact mem_nodeIds.1 mem
  | repository repoId =>
    rw [scope] at inScope
    obtain rfl := Except.ok.inj inScope
    exact filtered _ mem
  | service stableKey =>
    rw [scope] at inScope
    dsimp only at inScope
    split at inScope
    · cases inScope
    · obtain rfl := Except.ok.inj inScope
      rcases (mem_foldl_selectEnds _ _ _).1 mem with service | ⟨edge, listed, ends⟩
      · exact filtered _ service
      · have joins := (List.mem_filter.1 listed).2
        simp only [joinsService, Bool.not_or, Bool.and_eq_true, Bool.not_not,
          Std.ExtTreeSet.contains_iff_mem] at joins
        rcases ends with ⟨-, rfl⟩ | ⟨-, rfl⟩
        · exact mem_nodeIds.1 joins.2
        · exact mem_nodeIds.1 joins.1.2

end Inputs

section Graph

variable {nodes nodes' : List Node} {edges edges' : List Edge} {minimumConfidence : F32}
  {weights : EdgeKind → Double} {selected : BTreeSet NodeId}

theorem edgeKindIndex_injective : Function.Injective edgeKindIndex := by
  intro kind kind' same
  cases kind <;> cases kind' <;> first | rfl | cases same

theorem buildGraph_perm (distinct : (nodes.map Node.id).Nodup) (sameNodes : nodes'.Perm nodes)
    (sameEdges : edges'.Perm edges) :
    buildGraph nodes' edges' minimumConfidence weights selected =
      buildGraph nodes edges minimumConfidence weights selected := by
  have graphNodes : sortBy Node.id (nodes'.filter fun node => node.id ∈ selected) =
      sortBy Node.id (nodes.filter fun node => node.id ∈ selected) := by
    refine sortBy_congr Node.id (sameNodes.filter _) ?_
    have distinct' := (sameNodes.map Node.id).nodup_iff.2 distinct
    exact distinct'.sublist (List.filter_sublist.map Node.id)
  have accepted : ∀ index : BTreeMap NodeId Nat,
      (sortBy edgeOrder edges').filterMap (acceptEdge minimumConfidence weights index) =
        (sortBy edgeOrder edges).filterMap (acceptEdge minimumConfidence weights index) := by
    intro index
    refine filterMap_sortBy_congr edgeOrder (p := fun edge => edge.status = .confirmed) sameEdges
      (fun edge other => ?_) fun edge edge' confirmed confirmed' same => ?_
    · exact if_pos (.inl (of_decide_eq_false other))
    · -- confirmed edges of one key have all that the loop reads in common
      obtain ⟨source, rest⟩ := Prod.mk.inj (congrArg ofLex same)
      obtain ⟨target, rest⟩ := Prod.mk.inj (congrArg ofLex rest)
      obtain ⟨kind, rest⟩ := Prod.mk.inj (congrArg ofLex rest)
      obtain ⟨-, confidence⟩ := Prod.mk.inj (congrArg ofLex rest)
      have kinds := edgeKindIndex_injective kind
      have status := (of_decide_eq_true confirmed).trans (of_decide_eq_true confirmed').symm
      unfold acceptEdge
      rw [source, target, kinds, status, confidence]
  unfold buildGraph
  simp only [graphNodes, accepted]

theorem configureWeights_finite {configured : List EdgeKind} {items : List CommunityEdgeWeight} :
    ∀ {weights weights' : EdgeKind → Double}, (∀ kind, (weights kind).bits.isFinite = true) →
      configureWeights weights configured items = .ok weights' →
      ∀ kind, (weights' kind).bits.isFinite = true := by
  induction items generalizing configured with
  | nil =>
    intro weights weights' finite is
    obtain rfl := Except.ok.inj is
    exact finite
  | cons item rest ih =>
    intro weights weights' finite is
    simp only [configureWeights, bind_eq_ok, ensure_eq_ok, Bool.and_eq_true] at is
    obtain ⟨-, ⟨number, -⟩, -, -, later⟩ := is
    refine ih (fun kind => ?_) later
    rw [Function.update_apply]
    split
    · exact number
    · exact finite kind

/-- What an accepted input multiplies is finite, so a weight that is not skipped is positive. -/
theorem accepted_pos (valid : validateInputs nodes edges config = .ok weights) :
    ∀ edge ∈ (buildGraph nodes edges config.minimumConfidence weights selected).acceptedEdges,
      0 < edge.weight := by
  obtain ⟨-, -, unit, configured⟩ := validateInputs_eq_ok.1 valid
  have finite := configureWeights_finite (fun _ => by decide +kernel) configured
  intro accepted mem
  obtain ⟨edge, listed, passed⟩ := List.mem_filterMap.1 mem
  have confidence := unit edge ((mem_sortBy _).1 listed)
  have number : (weights edge.kind * ofConfidence edge.confidence).bits.isNan = false := by
    refine Binary.isNan_mul (finite edge.kind) ?_ (by decide)
    exact (widen_magnitude (Bool.and_eq_true_iff.1 confidence).1).1
  unfold acceptEdge at passed
  split at passed
  · cases passed
  · obtain ⟨source, -, rest⟩ := Option.bind_eq_some_iff.1 passed
    obtain ⟨target, -, rest⟩ := Option.bind_eq_some_iff.1 rest
    dsimp only at rest
    split at rest
    · cases rest
    · next taken =>
      obtain rfl := Option.some.inj rest
      exact Binary.lt_of_not_le number (by decide) taken

theorem nodup_graphNodes (distinct : (nodes.map Node.id).Nodup) :
    ((buildGraph nodes edges minimumConfidence weights selected).nodes.map Node.id).Nodup := by
  refine ((sortBy_perm Node.id _).map Node.id).nodup_iff.2 ?_
  exact distinct.sublist (List.filter_sublist.map Node.id)

theorem mem_graphNodes (known : ∀ id ∈ selected, id ∈ nodes.map Node.id) {id : NodeId} :
    id ∈ (buildGraph nodes edges minimumConfidence weights selected).nodes.map Node.id ↔
      id ∈ selected := by
  have within : id ∈ (buildGraph nodes edges minimumConfidence weights selected).nodes.map Node.id ↔
      id ∈ (nodes.filter fun node => node.id ∈ selected).map Node.id :=
    ((sortBy_perm Node.id _).map Node.id).mem_iff
  rw [within]
  clear within
  constructor
  · intro mem
    obtain ⟨node, listed, rfl⟩ := List.mem_map.1 mem
    exact of_decide_eq_true (List.mem_filter.1 listed).2
  · intro mem
    obtain ⟨node, listed, rfl⟩ := List.mem_map.1 (known id mem)
    exact List.mem_map.2 ⟨node, List.mem_filter.2 ⟨listed, decide_eq_true mem⟩, rfl⟩

theorem getElem?_indexNodes {nodes : List Node} (distinct : (nodes.map Node.id).Nodup) {id : NodeId}
    {position : Nat} : (indexNodes nodes)[id]? = some position ↔
      (nodes.map Node.id)[position]? = some id := by
  induction nodes using List.reverseRecOn with
  | nil => simp [indexNodes]
  | append_singleton nodes node ih =>
    rw [List.map_append, List.map_singleton, List.nodup_append] at distinct
    have step : indexNodes (nodes ++ [node]) = (indexNodes nodes).insert node.id nodes.length := by
      rw [indexNodes, List.zipIdx_append, List.foldl_append]
      simp [indexNodes]
    have fresh : ∀ position : Nat, (nodes.map Node.id)[position]? ≠ some node.id := by
      intro position found
      exact distinct.2.2 _ (List.mem_of_getElem? found) _ (List.mem_singleton_self _) rfl
    have look : ((nodes ++ [node]).map Node.id)[position]? =
        if position = nodes.length then some node.id else (nodes.map Node.id)[position]? := by
      rw [List.map_append, List.map_singleton, List.getElem?_append, List.length_map]
      rcases Nat.lt_trichotomy position nodes.length with less | same | more
      · rw [if_pos less, if_neg less.ne]
      · simp [same]
      · simp [more.ne', more.not_gt, Nat.sub_eq_zero_iff_le, Nat.not_le.2 more]
    rw [step, Std.ExtTreeMap.getElem?_insert, look]
    by_cases here : node.id = id
    · subst here
      rw [if_pos (Std.LawfulEqOrd.compare_eq_iff_eq.2 rfl)]
      split
      · next same => simp [same]
      · next other => exact iff_of_false (fun is => other (Option.some.inj is).symm) (fresh position)
    · rw [if_neg fun same => here (Std.LawfulEqOrd.compare_eq_iff_eq.1 same), ih distinct.1]
      split
      · next same =>
        subst same
        simp [here]
      · exact Iff.rfl

theorem acceptEdge_eq_some {nodes : List Node} (distinct : (nodes.map Node.id).Nodup) {edge : Edge}
    {accepted : AcceptedEdge Double} :
    acceptEdge minimumConfidence weights (indexNodes nodes) edge = some accepted ↔
      (edge.status = .confirmed ∧ edge.confidence.lt minimumConfidence = false ∧
        ¬weights edge.kind * ofConfidence edge.confidence ≤ 0) ∧
      (nodes.map Node.id)[accepted.source]? = some edge.source ∧
      (nodes.map Node.id)[accepted.target]? = some edge.target ∧
      accepted.weight = weights edge.kind * ofConfidence edge.confidence := by
  obtain ⟨source, target, weight⟩ := accepted
  rw [← getElem?_indexNodes distinct, ← getElem?_indexNodes distinct]
  unfold acceptEdge
  split
  · next skipped =>
    refine iff_of_false (by simp) fun taken => ?_
    obtain ⟨⟨confirmed, enough, -⟩, -⟩ := taken
    rcases skipped with other | low
    · exact other confirmed
    · rw [low] at enough
      cases enough
  · next taken =>
    rw [not_or, not_not, Bool.not_eq_true] at taken
    cases (indexNodes nodes)[edge.source]? with
    | none => simp
    | some i =>
      cases (indexNodes nodes)[edge.target]? with
      | none => simp
      | some j =>
        simp only [Option.bind_eq_bind, Option.bind_some, taken.1, taken.2, true_and]
        split
        · next low => simp [low]
        · next positive => simp [positive, eq_comm]

end Graph

section Touching

/-- Whether an edge between nodes in scope takes part in the analysis. -/
def Accepts (minimumConfidence : F32) (weights : EdgeKind → Double) (selected : BTreeSet NodeId)
    (edge : Edge) : Prop :=
  (edge.status = .confirmed ∧ edge.confidence.lt minimumConfidence = false ∧
    ¬weights edge.kind * ofConfidence edge.confidence ≤ 0) ∧
  edge.source ∈ selected ∧ edge.target ∈ selected

/-- An accepted edge between two nodes, in either direction. -/
def Touch (edges : List Edge) (minimumConfidence : F32) (weights : EdgeKind → Double)
    (selected : BTreeSet NodeId) (a b : NodeId) : Prop :=
  ∃ edge ∈ edges, Accepts minimumConfidence weights selected edge ∧
    ((edge.source = a ∧ edge.target = b) ∨ (edge.source = b ∧ edge.target = a))

variable {nodes : List Node} {edges : List Edge} {minimumConfidence : F32} {weights : EdgeKind → Double}
  {selected : BTreeSet NodeId}

theorem joined_iff_touch (distinct : (nodes.map Node.id).Nodup)
    (known : ∀ id ∈ selected, id ∈ nodes.map Node.id) {graph : WeightedGraph Double}
    (is : graph = buildGraph nodes edges minimumConfidence weights selected) {i j : Nat}
    (inside : i < graph.nodes.length) (inside' : j < graph.nodes.length) :
    Joined graph.acceptedEdges i j ↔
      Touch edges minimumConfidence weights selected (nodeId graph i) (nodeId graph j) := by
  have distinct' : (graph.nodes.map Node.id).Nodup := is ▸ nodup_graphNodes distinct
  have member : ∀ id : NodeId, id ∈ graph.nodes.map Node.id ↔ id ∈ selected :=
    fun id => is ▸ mem_graphNodes known
  have listed : ∀ accepted : AcceptedEdge Double, accepted ∈ graph.acceptedEdges ↔ ∃ edge ∈ edges,
      acceptEdge minimumConfidence weights (indexNodes graph.nodes) edge = some accepted := by
    intro accepted
    rw [is]
    simp [buildGraph, List.mem_filterMap]
  have at_position : ∀ (id : NodeId) (k : Nat), (graph.nodes.map Node.id)[k]? = some id →
      id = nodeId graph k ∧ id ∈ selected := by
    intro id k found
    have bound := (List.getElem?_eq_some_iff.1 found).1
    rw [List.length_map] at bound
    rw [nodeId_eq_some bound] at found
    refine ⟨(Option.some.inj found).symm, (member id).1 ?_⟩
    exact List.mem_of_getElem? ((nodeId_eq_some bound).trans found)
  have position : ∀ (id : NodeId) (k : Nat), k < graph.nodes.length → id = nodeId graph k →
      (graph.nodes.map Node.id)[k]? = some id := by
    intro id k bound same
    rw [nodeId_eq_some bound, same]
  constructor
  · rintro ⟨accepted, mem, ends⟩
    obtain ⟨edge, mem', passed⟩ := (listed accepted).1 mem
    obtain ⟨takes, source, target, -⟩ := (acceptEdge_eq_some distinct').1 passed
    obtain ⟨source, known⟩ := at_position _ _ source
    obtain ⟨target, known'⟩ := at_position _ _ target
    refine ⟨edge, mem', ⟨takes, known, known'⟩, ?_⟩
    rcases ends with ⟨rfl, rfl⟩ | ⟨rfl, rfl⟩
    · exact .inl ⟨source, target⟩
    · exact .inr ⟨source, target⟩
  · rintro ⟨edge, mem, ⟨takes, -, -⟩, ends⟩
    have accept : ∀ source target : Nat, (graph.nodes.map Node.id)[source]? = some edge.source →
        (graph.nodes.map Node.id)[target]? = some edge.target →
        ⟨source, target, weights edge.kind * ofConfidence edge.confidence⟩ ∈
          graph.acceptedEdges := by
      intro source target first second
      exact (listed _).2 ⟨edge, mem, (acceptEdge_eq_some distinct').2 ⟨takes, first, second, rfl⟩⟩
    rcases ends with ⟨source, target⟩ | ⟨source, target⟩
    · exact ⟨_, accept i j (position _ i inside source) (position _ j inside' target),
        .inl ⟨rfl, rfl⟩⟩
    · exact ⟨_, accept j i (position _ j inside' source) (position _ i inside target),
        .inr ⟨rfl, rfl⟩⟩

theorem connected_iff (distinct : (nodes.map Node.id).Nodup)
    (known : ∀ id ∈ selected, id ∈ nodes.map Node.id) {graph : WeightedGraph Double}
    (is : graph = buildGraph nodes edges minimumConfidence weights selected) {i j : Nat}
    (inside : i < graph.nodes.length) (inside' : j < graph.nodes.length) :
    ReflTransGen (Joined graph.acceptedEdges) i j ↔
      ReflTransGen (Touch edges minimumConfidence weights selected) (nodeId graph i)
        (nodeId graph j) := by
  have inBounds : ∀ edge ∈ graph.acceptedEdges,
      edge.source < graph.nodes.length ∧ edge.target < graph.nodes.length :=
    is ▸ buildGraph_ends _ _ _ _ _
  have touch : ∀ {i j : Nat}, i < graph.nodes.length → j < graph.nodes.length →
      (Joined graph.acceptedEdges i j ↔
        Touch edges minimumConfidence weights selected (nodeId graph i) (nodeId graph j)) :=
    fun inside inside' => joined_iff_touch distinct known is inside inside'
  constructor
  · refine ReflTransGen.lift (nodeId graph) (fun k l joined => ?_) i j
    obtain ⟨edge, mem, ends⟩ := joined
    have bounds := inBounds edge mem
    exact (touch (by omega) (by omega)).1 ⟨edge, mem, ends⟩
  · intro path
    have distinct' : (graph.nodes.map Node.id).Nodup := is ▸ nodup_graphNodes distinct
    have reach : ∀ id : NodeId, ReflTransGen (Touch edges minimumConfidence weights selected)
        (nodeId graph i) id → ∃ k < graph.nodes.length, id = nodeId graph k ∧
          ReflTransGen (Joined graph.acceptedEdges) i k := by
      intro id path
      induction path with
      | refl => exact ⟨i, inside, rfl, .refl⟩
      | @tail _ id _ near ih =>
        obtain ⟨k, bound, rfl, path⟩ := ih
        have chosen : id ∈ graph.nodes.map Node.id := by
          obtain ⟨edge, -, ⟨-, source, target⟩, ends⟩ := near
          have member : id ∈ selected := by
            rcases ends with ⟨-, rfl⟩ | ⟨rfl, -⟩
            · exact target
            · exact source
          rw [is]
          exact (mem_graphNodes known).2 member
        obtain ⟨l, bound', same⟩ := List.mem_iff_getElem.1 chosen
        rw [List.length_map] at bound'
        have here : id = nodeId graph l := by
          have found := nodeId_eq_some bound'
          rw [List.getElem?_eq_getElem (by simpa using bound'), same] at found
          exact Option.some.inj found
        exact ⟨l, bound', here, path.tail ((touch bound bound').2 (here ▸ near))⟩
    obtain ⟨k, bound, same, path⟩ := reach _ path
    rwa [nodeId_inj distinct' inside' bound same]

end Touching

section Results

/-- What the communities of an analysis are to the nodes in scope. -/
structure Detected (edges : List Edge) (config : CommunityConfig) (weights : EdgeKind → Double)
    (selected : BTreeSet NodeId) (communities : List Community) : Prop where
  once : (communities.flatMap Community.members).Nodup
  all : ∀ id, id ∈ communities.flatMap Community.members ↔ id ∈ selected
  occupied : ∀ community ∈ communities, community.members ≠ []
  distinct : (communities.map Community.id).Nodup
  connected : config.algorithm = .connectedComponents → ∀ a ∈ selected, ∀ b ∈ selected,
    ((∃ community ∈ communities, a ∈ community.members ∧ b ∈ community.members) ↔
      ReflTransGen (Touch edges config.minimumConfidence weights selected) a b)

theorem communities_detected (stableId : String → String → String) (letters : Letters)
    (injective : Function.Injective (stableId "community")) (snapshotId : String)
    {nodes : List Node} {edges : List Edge} {config : CommunityConfig} {weights : EdgeKind → Double}
    {selected : BTreeSet NodeId} (valid : validateInputs nodes edges config = .ok weights)
    (inScope : scopedNodeIds nodes edges config weights = .ok selected) :
    ∃ snapshot, analyzeCommunities stableId letters snapshotId nodes edges config = .ok snapshot ∧
      Detected edges config weights selected snapshot.communities ∧
      ∀ nodes' edges', nodes'.Perm nodes → edges'.Perm edges →
        analyzeCommunities stableId letters snapshotId nodes' edges' config = .ok snapshot := by
  obtain ⟨-, distinct, -⟩ := validateInputs_eq_ok.1 valid
  have known : ∀ id ∈ selected, id ∈ nodes.map Node.id := fun id => scoped_known inScope
  obtain ⟨graph, is⟩ : ∃ graph, graph =
      buildGraph nodes edges config.minimumConfidence weights selected := ⟨_, rfl⟩
  have neighbors : graph.Neighbors :=
    buildGraph_neighbors _ _ _ _ _ graph is fun edge => is ▸ accepted_pos valid edge
  have distinct' : (graph.nodes.map Node.id).Nodup := is ▸ nodup_graphNodes distinct
  have member : ∀ id : NodeId, id ∈ graph.nodes.map Node.id ↔ id ∈ selected :=
    fun id => is ▸ mem_graphNodes known
  have size := length_assignmentsOf stableId neighbors config
  have perm := flatMap_members_perm stableId letters size
  have run : ∀ nodes' edges', nodes'.Perm nodes → edges'.Perm edges →
      analyzeCommunities stableId letters snapshotId nodes' edges' config =
        .ok ⟨snapshotId, "1.0.0", config,
          describeCommunities stableId letters graph (assignmentsOf stableId graph config)⟩ := by
    intro nodes' edges' sameNodes sameEdges
    rw [analyzeCommunities, validateInputs_perm sameNodes sameEdges valid, ok_bind,
      scopedNodeIds_perm sameNodes sameEdges, inScope, ok_bind,
      buildGraph_perm distinct sameNodes sameEdges, is]
  refine ⟨_, run nodes edges (.refl _) (.refl _), ?_, run⟩
  constructor
  case once => exact perm.nodup_iff.2 distinct'
  case all => exact fun id => perm.mem_iff.trans (member id)
  case occupied => exact fun community => members_ne_nil stableId letters
  case distinct => exact nodup_ids stableId letters injective size distinct'
  case connected =>
    intro components a chosen b chosen'
    have position : ∀ id ∈ selected, ∃ i < graph.nodes.length, nodeId graph i = id := by
      intro id mem
      obtain ⟨i, bound, same⟩ := List.mem_iff_getElem.1 ((member id).2 mem)
      refine ⟨i, by simpa using bound, ?_⟩
      have found := nodeId_eq_some (by simpa using bound)
      rw [List.getElem?_eq_getElem bound, same] at found
      exact (Option.some.inj found).symm
    obtain ⟨i, inside, rfl⟩ := position a chosen
    obtain ⟨j, inside', rfl⟩ := position b chosen'
    rw [exists_community_iff stableId letters size distinct' inside inside',
      ← connected_iff distinct known is inside inside', ← connectedComponents_iff neighbors inside inside',
      assignmentsOf, components]

def threeNodes : List Node :=
  [⟨"a", .service, none, "a", "a"⟩, ⟨"b", .service, none, "b", "b"⟩, ⟨"c", .service, none, "c", "c"⟩]

def oneEdge : List Edge := [⟨"ab", "a", "b", .callsRemote, .ofNat 1, .confirmed, []⟩]

def componentsConfig : CommunityConfig :=
  ⟨.connectedComponents, .federated, 17, .ofNat 1, .zero, [], 100⟩

def asciiLetters : Letters where
  isAlphanumeric := Char.isAlphanum
  isAlphabetic := Char.isAlpha
  toLowercase := fun text => String.ofList (text.toList.map Char.toLower)
  toUppercase := fun c => String.singleton c.toUpper

theorem communities_detected_pair : ∃ snapshot,
    analyzeCommunities (fun name value => name ++ ":" ++ value) asciiLetters "snapshot" threeNodes
        oneEdge componentsConfig = .ok snapshot ∧
      Detected oneEdge componentsConfig (fun _ => ⟨.ofNat 1⟩) (nodeIds threeNodes)
        snapshot.communities ∧
      ∀ nodes' edges', nodes'.Perm threeNodes → edges'.Perm oneEdge →
        analyzeCommunities (fun name value => name ++ ":" ++ value) asciiLetters "snapshot" nodes'
          edges' componentsConfig = .ok snapshot := by
  refine communities_detected _ asciiLetters (fun value value' same => ?_) "snapshot"
    (validateInputs_eq_ok.2 ⟨?_, ?_, ?_, rfl⟩) rfl
  · exact (String.append_right_inj _).1 same
  · decide +kernel
  · decide +kernel
  · decide +kernel

end Results

end CodeSystemGraph.Communities
