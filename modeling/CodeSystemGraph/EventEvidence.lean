import CodeSystemGraph.EventGraph
import CodeSystemGraph.Text

/-! What the event graph keeps of the evidence. The identifier of an edge says nothing
of its evidence, so of several observations with the same ends only the first is
supported, and documents that disagree on a fact make the graph depend on their order. -/

namespace CodeSystemGraph.Events
open Ieee Model Contracts Ordered

/-- Identifiers are a namespace and a digest without a colon, and tell keys apart. -/
structure StableIds (stableId : String → String → String) : Prop where
  injective : ∀ name, Function.Injective (stableId name)
  form : ∀ name key, ∃ digest : String, stableId name key = name ++ ":" ++ digest ∧
    ':' ∉ digest.toList

variable (stableId : String → String → String)

section Statement

def boundarySource (endpoint : EventEndpoint) : Node :=
  if endpoint.observation.isDeclaration then
    artifactNode stableId endpoint.repoId endpoint.sourcePath
  else sourceNode stableId endpoint

def boundaryChannel (declarations : List EventEndpoint) (endpoint : EventEndpoint) : Node :=
  if endpoint.observation.isDeclaration then channelNode stableId endpoint.observation
  else endpointChannel stableId declarations endpoint

def boundariesOf (input : EventInput) : List EventEndpoint :=
  (input.observations.filter fun observation =>
    observation.Complete ∧ observation.role ≠ .declaration).map (endpointOf stableId input)

def boundaries (inputs : List EventInput) : List EventEndpoint :=
  inputs.flatMap (boundariesOf stableId)

def boundaryEdge (declarations : List EventEndpoint) (endpoint : EventEndpoint) : Edge :=
  edge stableId (boundarySource stableId endpoint).id
    (boundaryChannel stableId declarations endpoint).id (declaredKind endpoint.observation.role)
    [endpoint.evidence.id]

/-- Each publication and subscription has its edge, with its evidence. -/
def KeepsEvidence (inputs : List EventInput) : Prop :=
  ∀ endpoint ∈ boundaries stableId inputs, ∃ edge ∈ (eventDocumentsToGraph stableId inputs).edges,
    edge.source = (boundarySource stableId endpoint).id ∧
      edge.target = (boundaryChannel stableId (declarations stableId inputs) endpoint).id ∧
      edge.kind = declaredKind endpoint.observation.role ∧
      endpoint.evidence.id ∈ edge.evidence

/-- The ends and the evidence of every edge are in the graph. -/
def Closed (facts : EventGraphFacts) : Prop :=
  ∀ edge ∈ facts.edges, edge.source ∈ facts.nodes.map (·.id) ∧
    edge.target ∈ facts.nodes.map (·.id) ∧
    ∀ evidence ∈ edge.evidence, evidence ∈ facts.evidence.map (·.id)

def OrderFree (inputs : List EventInput) : Prop :=
  ∀ inputs', inputs'.Perm inputs →
    (∀ node, node ∈ (eventDocumentsToGraph stableId inputs').nodes ↔
      node ∈ (eventDocumentsToGraph stableId inputs).nodes) ∧
    (∀ edge, edge ∈ (eventDocumentsToGraph stableId inputs').edges ↔
      edge ∈ (eventDocumentsToGraph stableId inputs).edges) ∧
    ∀ evidence, evidence ∈ (eventDocumentsToGraph stableId inputs').evidence ↔
      evidence ∈ (eventDocumentsToGraph stableId inputs).evidence

def SharedEvidence (inputs : List EventInput) : Prop :=
  ∀ one ∈ boundaries stableId inputs, ∀ other ∈ boundaries stableId inputs,
    (boundarySource stableId one).id = (boundarySource stableId other).id →
    (boundaryChannel stableId (declarations stableId inputs) one).id =
      (boundaryChannel stableId (declarations stableId inputs) other).id →
    one.observation.role = other.observation.role → one.evidence.id = other.evidence.id

structure Agreed (inputs : List EventInput) : Prop where
  nodes : ∀ id, Settled (·.id) inputs id
    (rounds stableId (·.nodes) (declarations stableId inputs))
  edges : ∀ id, Settled (·.id) inputs id
    (rounds stableId (·.edges) (declarations stableId inputs))
  evidence : ∀ id, Settled (·.id) inputs id
    (rounds stableId (·.evidence) (declarations stableId inputs))

end Statement

section Parts

variable (inputs : List EventInput)

/-- The facts of all rounds, before `finish`. -/
def pushed {β : Type} (part : EventGraphFacts → List β) : List β :=
  collected (rounds stableId part (declarations stableId inputs)) inputs

theorem nodes_graph : (eventDocumentsToGraph stableId inputs).nodes =
    keepFirst (·.id) (pushed stableId inputs (·.nodes)) := by
  obtain ⟨result, graph, parts⟩ := @eventDocumentsToGraph_eq stableId inputs
  rw [graph, finish, parts (·.nodes) rfl fun _ _ => rfl]
  rfl

theorem edges_graph : (eventDocumentsToGraph stableId inputs).edges =
    keepFirst (·.id) (pushed stableId inputs (·.edges)) := by
  obtain ⟨result, graph, parts⟩ := @eventDocumentsToGraph_eq stableId inputs
  rw [graph, finish, parts (·.edges) rfl fun _ _ => rfl]
  rfl

theorem evidence_graph : (eventDocumentsToGraph stableId inputs).evidence =
    keepFirst (·.id) (pushed stableId inputs (·.evidence)) := by
  obtain ⟨result, graph, parts⟩ := @eventDocumentsToGraph_eq stableId inputs
  rw [graph, finish, parts (·.evidence) rfl fun _ _ => rfl]
  rfl

variable {stableId inputs} {β : Type} {part : EventGraphFacts → List β}

theorem mem_pushed {b : β} : b ∈ pushed stableId inputs part ↔ ∃ input ∈ inputs,
    b ∈ part (artifactFacts stableId input) ∨
    (∃ declaration ∈ declarationsOf stableId input, b ∈ part (declarationFacts stableId declaration)) ∨
    ∃ endpoint ∈ callsOf stableId input,
      b ∈ part (endpointFacts stableId (declarations stableId inputs) endpoint) := by
  simp only [pushed, mem_collected, rounds, List.mem_cons, List.not_mem_nil, or_false,
    exists_eq_or_imp, exists_eq_left, List.mem_flatMap, ← exists_or, ← and_or_left]

theorem mem_declarationsOf {input : EventInput} {declaration : EventEndpoint}
    (mem : declaration ∈ declarationsOf stableId input) : ∃ observation ∈ input.observations,
      observation.Complete ∧ observation.isDeclaration = true ∧
        declaration = endpointOf stableId input observation := by
  obtain ⟨observation, chosen, rfl⟩ := List.mem_map.mp mem
  have ⟨listed, complete, declared⟩ : observation ∈ input.observations ∧ observation.Complete ∧
      observation.isDeclaration = true := by simpa using chosen
  exact ⟨observation, listed, complete, declared, rfl⟩

theorem mem_callsOf {input : EventInput} {endpoint : EventEndpoint}
    (mem : endpoint ∈ callsOf stableId input) : ∃ observation ∈ input.observations,
      observation.Complete ∧ observation.isDeclaration = false ∧
        endpoint = endpointOf stableId input observation := by
  obtain ⟨observation, chosen, rfl⟩ := List.mem_map.mp mem
  have ⟨listed, complete, called⟩ : observation ∈ input.observations ∧ observation.Complete ∧
      observation.isDeclaration = false := by simpa using chosen
  exact ⟨observation, listed, complete, called, rfl⟩

theorem mem_boundaries {endpoint : EventEndpoint} :
    endpoint ∈ boundaries stableId inputs ↔ ∃ input ∈ inputs, ∃ observation ∈ input.observations,
      observation.Complete ∧ observation.role ≠ .declaration ∧
        endpointOf stableId input observation = endpoint := by
  simp only [boundaries, boundariesOf, List.mem_flatMap, List.mem_map, List.mem_filter,
    decide_eq_true_eq, and_assoc]

end Parts

section Edges

/-- An edge between nodes of the graph that is no publication or subscription. -/
def OtherEdge (e : Edge) : Prop :=
  e.kind ≠ .publishes ∧ e.kind ≠ .subscribes ∧ ∃ x y evidence,
    e = edge stableId (stableId "node" x) (stableId "node" y) e.kind [evidence]

variable {stableId} {inputs : List EventInput}

theorem otherEdge_edge {x y : String} {kind : EdgeKind} {evidence : EvidenceId}
    (publishes : kind ≠ .publishes) (subscribes : kind ≠ .subscribes) :
    OtherEdge stableId (edge stableId (stableId "node" x) (stableId "node" y) kind [evidence]) :=
  ⟨publishes, subscribes, x, y, evidence, rfl⟩

theorem otherEdge_schema {declaration : EventEndpoint} {observation : SourcedObservation} {e : Edge}
    (mem : e ∈ (schemaFacts stableId declaration (channelNode stableId observation)).edges) :
    OtherEdge stableId e := by
  unfold schemaFacts at mem
  split at mem
  · cases mem
  split at mem
  · cases mem
  · obtain rfl := List.mem_singleton.mp mem
    exact otherEdge_edge (by decide) (by decide)

theorem otherEdge_deadLetter {declaration : EventEndpoint} {observation : SourcedObservation}
    {e : Edge}
    (mem : e ∈ (deadLetterFacts stableId declaration (channelNode stableId observation)).edges) :
    OtherEdge stableId e := by
  unfold deadLetterFacts at mem
  split at mem
  · cases mem
  · obtain rfl := List.mem_singleton.mp mem
    exact otherEdge_edge (by decide) (by decide)

theorem mem_declarationFacts_edges {declaration : EventEndpoint} {e : Edge} :
    e ∈ (declarationFacts stableId declaration).edges ↔
      e = edge stableId (artifactNode stableId declaration.repoId declaration.sourcePath).id
        (channelNode stableId declaration.observation).id
        (declaredKind declaration.observation.role) [declaration.evidence.id] ∨
      e ∈ (schemaFacts stableId declaration (channelNode stableId declaration.observation)).edges ∨
      e ∈ (deadLetterFacts stableId declaration (channelNode stableId declaration.observation)).edges := by
  simp [declarationFacts, EventGraphFacts.add]

theorem boundary_of_declaration {input : EventInput} (listed : input ∈ inputs) {e : Edge}
    {declaration : EventEndpoint} (mem : declaration ∈ declarationsOf stableId input)
    (pushed : e ∈ (declarationFacts stableId declaration).edges) :
    OtherEdge stableId e ∨ ∃ endpoint ∈ boundaries stableId inputs,
      e = boundaryEdge stableId (declarations stableId inputs) endpoint := by
  rcases mem_declarationFacts_edges.mp pushed with rfl | schema | deadLetter
  · obtain ⟨observation, observed, complete, declared, rfl⟩ := mem_declarationsOf mem
    by_cases plain : observation.role = .declaration
    · left
      simp only [endpointOf, plain, declaredKind]
      exact otherEdge_edge (by decide) (by decide)
    · right
      refine ⟨_, mem_boundaries.mpr ⟨input, listed, observation, observed, complete, plain, rfl⟩, ?_⟩
      simp [boundaryEdge, boundarySource, boundaryChannel, endpointOf, declared]
  · exact .inl (otherEdge_schema schema)
  · exact .inl (otherEdge_deadLetter deadLetter)

theorem mem_endpointFacts_edges {known : List EventEndpoint} {endpoint : EventEndpoint}
    (called : endpoint.observation.isDeclaration = false) {e : Edge} :
    e ∈ (endpointFacts stableId known endpoint).edges ↔
      endpoint.observation.role ≠ .declaration ∧ (e = boundaryEdge stableId known endpoint ∨
        endpoint.observation.role = .subscriber ∧
          e = edge stableId (endpointChannel stableId known endpoint).id (sourceNode stableId endpoint).id
            .deliversTo [endpoint.evidence.id]) := by
  cases role : endpoint.observation.role <;>
    simp [endpointFacts, boundaryEdge, boundarySource, boundaryChannel, called, role, declaredKind]

variable (stableId) in
theorem endpointChannel_id (known : List EventEndpoint) (endpoint : EventEndpoint) :
    ∃ key, (endpointChannel stableId known endpoint).id = stableId "node" key := by
  unfold endpointChannel
  split <;> exact ⟨_, rfl⟩

theorem boundary_of_call {input : EventInput} (listed : input ∈ inputs) {e : Edge}
    {endpoint : EventEndpoint} (mem : endpoint ∈ callsOf stableId input)
    (pushed : e ∈ (endpointFacts stableId (declarations stableId inputs) endpoint).edges) :
    OtherEdge stableId e ∨ ∃ endpoint ∈ boundaries stableId inputs,
      e = boundaryEdge stableId (declarations stableId inputs) endpoint := by
  obtain ⟨observation, observed, complete, called, rfl⟩ := mem_callsOf mem
  obtain ⟨plain, rfl | ⟨-, rfl⟩⟩ := (mem_endpointFacts_edges called).mp pushed
  · exact .inr ⟨_, mem_boundaries.mpr ⟨input, listed, observation, observed, complete, plain, rfl⟩, rfl⟩
  · obtain ⟨key, id⟩ := endpointChannel_id stableId (declarations stableId inputs)
      (endpointOf stableId input observation)
    rw [id]
    exact .inl (otherEdge_edge (by decide) (by decide))

theorem pushed_edge {e : Edge} (mem : e ∈ pushed stableId inputs (·.edges)) :
    OtherEdge stableId e ∨ ∃ endpoint ∈ boundaries stableId inputs,
      e = boundaryEdge stableId (declarations stableId inputs) endpoint := by
  obtain ⟨input, listed, artifact | ⟨declaration, declared, here⟩ | ⟨endpoint, called, here⟩⟩ :=
    mem_pushed.mp mem
  · obtain rfl := List.mem_singleton.mp artifact
    exact .inl (otherEdge_edge (by decide) (by decide))
  · exact boundary_of_declaration listed declared here
  · exact boundary_of_call listed called here

theorem boundaryEdge_pushed {endpoint : EventEndpoint} (mem : endpoint ∈ boundaries stableId inputs) :
    boundaryEdge stableId (declarations stableId inputs) endpoint ∈ pushed stableId inputs (·.edges) := by
  obtain ⟨input, listed, observation, observed, complete, plain, rfl⟩ := mem_boundaries.mp mem
  refine mem_pushed.mpr ⟨input, listed, .inr ?_⟩
  cases declared : observation.isDeclaration with
  | true =>
    refine .inl ⟨endpointOf stableId input observation, ?_, mem_declarationFacts_edges.mpr (.inl ?_)⟩
    · exact List.mem_map.mpr ⟨observation, by simp [observed, complete, declared], rfl⟩
    · simp [boundaryEdge, boundarySource, boundaryChannel, endpointOf, declared]
  | false =>
    refine .inr ⟨endpointOf stableId input observation, ?_, ?_⟩
    · exact List.mem_map.mpr ⟨observation, by simp [observed, complete, declared], rfl⟩
    · exact (mem_endpointFacts_edges declared).mpr ⟨plain, .inl rfl⟩

variable (stableId) in
theorem boundaryEdge_nodes (known : List EventEndpoint) (endpoint : EventEndpoint) :
    ∃ x y, (boundarySource stableId endpoint).id = stableId "node" x ∧
      (boundaryChannel stableId known endpoint).id = stableId "node" y := by
  have source : ∃ x, (boundarySource stableId endpoint).id = stableId "node" x := by
    unfold boundarySource
    split <;> exact ⟨_, rfl⟩
  have channel : ∃ y, (boundaryChannel stableId known endpoint).id = stableId "node" y := by
    unfold boundaryChannel
    split
    · exact ⟨_, rfl⟩
    · exact endpointChannel_id stableId known endpoint
  obtain ⟨x, hx⟩ := source
  obtain ⟨y, hy⟩ := channel
  exact ⟨x, y, hx, hy⟩

theorem pushed_edge_form {e : Edge} (mem : e ∈ pushed stableId inputs (·.edges)) :
    ∃ x y evidence, e = edge stableId (stableId "node" x) (stableId "node" y) e.kind [evidence] := by
  rcases pushed_edge mem with ⟨-, -, form⟩ | ⟨endpoint, -, rfl⟩
  · exact form
  · obtain ⟨x, y, source, channel⟩ := boundaryEdge_nodes stableId (declarations stableId inputs) endpoint
    exact ⟨x, y, endpoint.evidence.id, by rw [boundaryEdge, source, channel]; rfl⟩

end Edges

section Ids

theorem edgeKindDebug_injective : Function.Injective edgeKindDebug := by
  intro kind kind' same
  cases kind <;> cases kind' <;> first | rfl | exact absurd same (by decide)

theorem declaredKind_injective : Function.Injective declaredKind := by
  intro role role' same
  cases role <;> cases role' <;> first | rfl | exact absurd same (by decide)

theorem colon_edgeKindDebug (kind : EdgeKind) : ':' ∉ (edgeKindDebug kind).toList := by
  cases kind <;> decide

theorem append_colon_inj {a a' b b' : String} (free : ':' ∉ a.toList) (free' : ':' ∉ a'.toList)
    (same : a ++ (":" ++ b) = a' ++ (":" ++ b')) : a = a' ∧ b = b' := by
  have lists := congrArg String.toList same
  simp only [String.toList_append] at lists
  have parts := Text.append_cons_inj free free' lists
  exact ⟨String.toList_inj.mp parts.1, String.toList_inj.mp parts.2⟩

variable {stableId}

theorem edge_id_inj (ids : StableIds stableId) {x y x' y' : String} {kind kind' : EdgeKind}
    {evidence evidence' : List EvidenceId}
    (same : (edge stableId (stableId "node" x) (stableId "node" y) kind evidence).id =
      (edge stableId (stableId "node" x') (stableId "node" y') kind' evidence').id) :
    stableId "node" x = stableId "node" x' ∧ stableId "node" y = stableId "node" y' ∧ kind = kind' := by
  obtain ⟨digest, source, free⟩ := ids.form "node" x
  obtain ⟨digest', source', free'⟩ := ids.form "node" x'
  have keys := ids.injective _ same
  rw [source, source'] at keys ⊢
  simp only [String.append_assoc, String.append_right_inj] at keys
  have ⟨digests, rest⟩ := append_colon_inj free free' keys
  have ⟨kinds, target⟩ := append_colon_inj (colon_edgeKindDebug kind) (colon_edgeKindDebug kind') rest
  exact ⟨by rw [digests], target, edgeKindDebug_injective kinds⟩

theorem channelNode_eq (ids : StableIds stableId) {one other : SourcedObservation}
    (channel : one.channel = other.channel)
    (same : (channelNode stableId one).id = (channelNode stableId other).id) :
    channelNode stableId one = channelNode stableId other := by
  have keys := ids.injective _ same
  unfold channelNode
  simp only [channel] at keys ⊢
  simp only [keys]

end Ids

section Evidence

variable {stableId} {inputs : List EventInput}

theorem boundary_of_id (ids : StableIds stableId) {e : Edge}
    (mem : e ∈ pushed stableId inputs (·.edges)) {endpoint : EventEndpoint}
    (reported : endpoint ∈ boundaries stableId inputs)
    (same : e.id = (boundaryEdge stableId (declarations stableId inputs) endpoint).id) :
    ∃ other ∈ boundaries stableId inputs,
      e = boundaryEdge stableId (declarations stableId inputs) other ∧
      (boundarySource stableId other).id = (boundarySource stableId endpoint).id ∧
      (boundaryChannel stableId (declarations stableId inputs) other).id =
        (boundaryChannel stableId (declarations stableId inputs) endpoint).id ∧
      other.observation.role = endpoint.observation.role := by
  obtain ⟨x, y, evidence, form⟩ := pushed_edge_form mem
  obtain ⟨x', y', source, channel⟩ := boundaryEdge_nodes stableId (declarations stableId inputs)
    endpoint
  have named := same
  rw [form, boundaryEdge, source, channel] at named
  obtain ⟨sources, targets, kinds⟩ := edge_id_inj ids named
  have plain : ∀ boundary ∈ boundaries stableId inputs, boundary.observation.role ≠ .declaration := by
    intro boundary mem
    obtain ⟨_, _, _, _, _, plain, rfl⟩ := mem_boundaries.mp mem
    exact plain
  rcases pushed_edge mem with ⟨publishes, subscribes, -⟩ | ⟨other, listed, rfl⟩
  · rw [kinds] at publishes subscribes
    cases role : endpoint.observation.role with
    | publisher => simp [role, declaredKind] at publishes
    | subscriber => simp [role, declaredKind] at subscribes
    | declaration => exact absurd role (plain endpoint reported)
  · have sameSource := congrArg Edge.source form
    have sameTarget := congrArg Edge.target form
    refine ⟨other, listed, rfl, ?_, ?_, ?_⟩
    · exact sameSource.trans (sources.trans source.symm)
    · exact sameTarget.trans (targets.trans channel.symm)
    · exact declaredKind_injective kinds

theorem keepsEvidence_iff (ids : StableIds stableId) :
    KeepsEvidence stableId inputs ↔ SharedEvidence stableId inputs := by
  constructor
  · intro keeps one listed other listed' source channel role
    obtain ⟨e, mem, sourceE, targetE, kindE, holds⟩ := keeps one listed
    obtain ⟨e', mem', sourceE', targetE', kindE', holds'⟩ := keeps other listed'
    rw [edges_graph] at mem mem'
    -- the identifier of an edge is a function of its ends and its kind
    have named : ∀ {f : Edge}, f ∈ keepFirst (·.id) (pushed stableId inputs (·.edges)) →
        f.id = (edge stableId f.source f.target f.kind []).id := by
      intro f kept
      obtain ⟨x, y, evidence, form⟩ := pushed_edge_form (mem_of_keepFirst kept)
      rw [form]
      rfl
    have same : e.id = e'.id := by
      rw [named mem, named mem', sourceE, targetE, kindE, sourceE', targetE', kindE', source, channel,
        role]
    obtain rfl := List.inj_on_of_nodup_map (nodup_keepFirst _) mem mem' same
    obtain ⟨x, y, evidence, form⟩ := pushed_edge_form (mem_of_keepFirst mem)
    rw [form] at holds holds'
    rw [List.mem_singleton.mp holds, List.mem_singleton.mp holds']
  · intro shared endpoint listed
    obtain ⟨e, kept, same⟩ := exists_keepFirst (fun e : Edge => e.id) (boundaryEdge_pushed listed)
    obtain ⟨other, listed', rfl, source, channel, role⟩ :=
      boundary_of_id ids (mem_of_keepFirst kept) listed same
    refine ⟨_, by rw [edges_graph]; exact kept, source, channel, ?_, ?_⟩
    · rw [← role]
      rfl
    · have agree := shared other listed' endpoint listed source channel role
      rw [← agree]
      exact List.mem_singleton.mpr rfl

end Evidence

section Closure

variable {stableId} {inputs : List EventInput}

def Within (facts : EventGraphFacts) (e : Edge) : Prop :=
  e.source ∈ facts.nodes.map (·.id) ∧ e.target ∈ facts.nodes.map (·.id) ∧
    ∀ evidence ∈ e.evidence, evidence ∈ facts.evidence.map (·.id)

theorem within_mono {facts more : EventGraphFacts} (nodes : facts.nodes ⊆ more.nodes)
    (evidence : facts.evidence ⊆ more.evidence) {e : Edge} (within : Within facts e) :
    Within more e := by
  refine ⟨List.map_subset _ nodes within.1, List.map_subset _ nodes within.2.1, fun id mem => ?_⟩
  exact List.map_subset _ evidence (within.2.2 id mem)

theorem schemaFacts_hang {declaration : EventEndpoint} {channel : Node} {e : Edge}
    (mem : e ∈ (schemaFacts stableId declaration channel).edges) :
    e.source = channel.id ∧ e.target ∈ (schemaFacts stableId declaration channel).nodes.map (·.id) ∧
      e.evidence = [declaration.evidence.id] := by
  unfold schemaFacts at mem ⊢
  split at mem
  · cases mem
  split at mem
  · cases mem
  · obtain rfl := List.mem_singleton.mp mem
    exact ⟨rfl, List.mem_singleton.mpr rfl, rfl⟩

theorem deadLetterFacts_hang {declaration : EventEndpoint} {channel : Node} {e : Edge}
    (mem : e ∈ (deadLetterFacts stableId declaration channel).edges) :
    e.source = channel.id ∧
      e.target ∈ (deadLetterFacts stableId declaration channel).nodes.map (·.id) ∧
      e.evidence = [declaration.evidence.id] := by
  unfold deadLetterFacts at mem ⊢
  split at mem
  · cases mem
  · obtain rfl := List.mem_singleton.mp mem
    exact ⟨rfl, List.mem_singleton.mpr rfl, rfl⟩

theorem within_declaration {input : EventInput} {declaration : EventEndpoint}
    (mem : declaration ∈ declarationsOf stableId input) {e : Edge}
    (listed : e ∈ (declarationFacts stableId declaration).edges) :
    Within ((artifactFacts stableId input).add (declarationFacts stableId declaration)) e := by
  obtain ⟨observation, -, -, -, rfl⟩ := mem_declarationsOf mem
  rcases mem_declarationFacts_edges.mp listed with rfl | schema | deadLetter
  · simp [Within, artifactFacts, declarationFacts, EventGraphFacts.add, edge, endpointOf]
  · obtain ⟨source, target, evidence⟩ := schemaFacts_hang schema
    refine ⟨?_, ?_, ?_⟩
    · simp [source, declarationFacts, EventGraphFacts.add]
    · simp only [declarationFacts, EventGraphFacts.add, List.map_append, List.mem_append, target,
        true_or, or_true]
    · simp [evidence, declarationFacts, EventGraphFacts.add]
  · obtain ⟨source, target, evidence⟩ := deadLetterFacts_hang deadLetter
    refine ⟨?_, ?_, ?_⟩
    · simp [source, declarationFacts, EventGraphFacts.add]
    · simp only [declarationFacts, EventGraphFacts.add, List.map_append, List.mem_append, target,
        true_or, or_true]
    · simp [evidence, declarationFacts, EventGraphFacts.add]

theorem within_call {known : List EventEndpoint} {endpoint : EventEndpoint} {e : Edge}
    (listed : e ∈ (endpointFacts stableId known endpoint).edges) :
    Within (endpointFacts stableId known endpoint) e := by
  cases role : endpoint.observation.role with
  | publisher =>
    obtain rfl : e = _ := by simpa [endpointFacts, role] using listed
    simp [Within, endpointFacts, edge]
  | subscriber =>
    obtain rfl | rfl : e = _ ∨ e = _ := by simpa [endpointFacts, role] using listed
    · simp [Within, endpointFacts, edge]
    · simp [Within, endpointFacts, edge]
  | declaration => simp [endpointFacts, role] at listed

theorem pushed_within {e : Edge} (mem : e ∈ pushed stableId inputs (·.edges)) :
    Within ⟨pushed stableId inputs (·.nodes), [], pushed stableId inputs (·.evidence)⟩ e := by
  obtain ⟨input, listed, artifact | ⟨declaration, declared, here⟩ | ⟨endpoint, called, here⟩⟩ :=
    mem_pushed.mp mem
  · have own : Within (artifactFacts stableId input) e := by
      obtain rfl := List.mem_singleton.mp artifact
      simp [Within, artifactFacts, edge]
    exact within_mono (fun _ here => mem_pushed.mpr ⟨input, listed, .inl here⟩)
      (fun _ here => mem_pushed.mpr ⟨input, listed, .inl here⟩) own
  · refine within_mono (fun _ here => ?_) (fun _ here => ?_) (within_declaration declared here) <;>
      (refine mem_pushed.mpr ⟨input, listed, ?_⟩
       rcases List.mem_append.mp here with here | here
       · exact .inl here
       · exact .inr (.inl ⟨declaration, declared, here⟩))
  · exact within_mono (fun _ here => mem_pushed.mpr ⟨input, listed, .inr (.inr ⟨endpoint, called, here⟩)⟩)
      (fun _ here => mem_pushed.mpr ⟨input, listed, .inr (.inr ⟨endpoint, called, here⟩)⟩)
      (within_call here)

theorem ids_keepFirst {β : Type} {id : β → String} {l : List β} {x : String} (mem : x ∈ l.map id) :
    x ∈ (keepFirst id l).map id := by
  obtain ⟨b, listed, rfl⟩ := List.mem_map.mp mem
  obtain ⟨a, kept, same⟩ := exists_keepFirst id listed
  exact List.mem_map.mpr ⟨a, kept, same⟩

theorem closed_graph : Closed (eventDocumentsToGraph stableId inputs) := by
  intro e mem
  rw [edges_graph] at mem
  rw [nodes_graph, evidence_graph]
  obtain ⟨source, target, evidence⟩ := pushed_within (mem_of_keepFirst mem)
  exact ⟨ids_keepFirst source, ids_keepFirst target, fun id listed => ids_keepFirst (evidence id listed)⟩

end Closure

section Order

variable {stableId} {inputs inputs' : List EventInput}

/-- The declaration matches the call, and so do only declarations of its channel. -/
structure Resolves (stableId : String → String → String) (known : List EventEndpoint)
    (endpoint candidate : EventEndpoint) : Prop where
  named : endpoint.observation.channel.isNone = false
  listed : candidate ∈ known.filter (isCandidate endpoint)
  agree : ∀ other ∈ known.filter (isCandidate endpoint),
    (channelNode stableId other.observation).id = (channelNode stableId candidate.observation).id

theorem resolves_of_resolveChannel {known : List EventEndpoint} {endpoint first : EventEndpoint}
    (found : resolveChannel stableId known endpoint = some first) :
    Resolves stableId known endpoint first := by
  unfold resolveChannel at found
  split at found
  · cases found
  · next named =>
    dsimp only at found
    split at found
    · cases found
    · next head =>
      split at found
      · next agree =>
        cases found
        refine ⟨Bool.eq_false_iff.mpr named, List.mem_of_head? head, fun other listed => ?_⟩
        exact of_decide_eq_true (List.all_eq_true.mp agree other listed)
      · cases found

theorem resolveChannel_of_resolves {known : List EventEndpoint} {endpoint candidate : EventEndpoint}
    (resolves : Resolves stableId known endpoint candidate) :
    ∃ first, resolveChannel stableId known endpoint = some first := by
  have agree := resolves.agree
  cases candidates : known.filter (isCandidate endpoint) with
  | nil =>
    have listed := resolves.listed
    rw [candidates] at listed
    cases listed
  | cons first rest =>
    rw [candidates] at agree
    have all : ((first :: rest).all fun other => decide
        ((channelNode stableId other.observation).id = (channelNode stableId first.observation).id)) =
          true := by
      refine List.all_eq_true.mpr fun other listed => decide_eq_true ?_
      exact (agree other listed).trans (agree first List.mem_cons_self).symm
    refine ⟨first, ?_⟩
    simp only [resolveChannel, resolves.named, candidates, List.head?_cons, all, if_true,
      Bool.false_eq_true, if_false]

theorem resolves_perm {known known' : List EventEndpoint} (perm : known'.Perm known)
    {endpoint candidate : EventEndpoint} (resolves : Resolves stableId known' endpoint candidate) :
    Resolves stableId known endpoint candidate := by
  have same : ∀ {other}, other ∈ known'.filter (isCandidate endpoint) ↔
      other ∈ known.filter (isCandidate endpoint) := (perm.filter (isCandidate endpoint)).mem_iff
  exact ⟨resolves.named, same.mp resolves.listed, fun other listed =>
    resolves.agree other (same.mpr listed)⟩

theorem endpointChannel_perm (ids : StableIds stableId) {known known' : List EventEndpoint}
    (perm : known'.Perm known) (endpoint : EventEndpoint) :
    endpointChannel stableId known' endpoint = endpointChannel stableId known endpoint := by
  unfold endpointChannel
  cases found : resolveChannel stableId known endpoint with
  | none =>
    cases found' : resolveChannel stableId known' endpoint with
    | none => rfl
    | some first =>
      obtain ⟨other, resolved⟩ :=
        resolveChannel_of_resolves (resolves_perm perm (resolves_of_resolveChannel found'))
      rw [found] at resolved
      cases resolved
  | some first =>
    have resolves := resolves_of_resolveChannel found
    obtain ⟨other, found'⟩ := resolveChannel_of_resolves (resolves_perm perm.symm resolves)
    have resolves' := resolves_perm perm (resolves_of_resolveChannel found')
    have channel : ∀ {candidate}, candidate ∈ known.filter (isCandidate endpoint) →
        candidate.observation.channel = endpoint.observation.channel := by
      intro candidate listed
      have matching := (List.mem_filter.mp listed).2
      simp only [isCandidate, decide_eq_true_eq] at matching
      exact matching.1
    rw [found']
    exact channelNode_eq ids ((channel resolves'.listed).trans (channel resolves.listed).symm)
      (resolves.agree other resolves'.listed)

theorem rounds_perm (ids : StableIds stableId) (perm : inputs'.Perm inputs) {β : Type}
    (part : EventGraphFacts → List β) :
    rounds stableId part (declarations stableId inputs') =
      rounds stableId part (declarations stableId inputs) := by
  have facts : endpointFacts stableId (declarations stableId inputs') =
      endpointFacts stableId (declarations stableId inputs) := by
    funext endpoint
    have same := endpointChannel_perm ids (perm.flatMap_right (declarationsOf stableId)) endpoint
    unfold endpointFacts declarations
    rw [same]
  rw [rounds, facts, rounds]

theorem settled_rounds (ids : StableIds stableId) {β : Type} {part : EventGraphFacts → List β}
    {id : β → String} :
    (∀ inputs', inputs'.Perm inputs → ∀ b,
      b ∈ keepFirst id (pushed stableId inputs' part) ↔ b ∈ keepFirst id (pushed stableId inputs part)) ↔
    ∀ k, Settled id inputs k (rounds stableId part (declarations stableId inputs)) := by
  have pushed_eq : ∀ inputs', inputs'.Perm inputs → pushed stableId inputs' part =
      collected (rounds stableId part (declarations stableId inputs)) inputs' := by
    intro inputs' perm
    rw [pushed, rounds_perm ids perm]
  constructor
  · intro same k
    refine settled_iff.mp fun inputs' perm => ?_
    have here := keepFirst_congr.mp (same inputs' perm) k
    rwa [pushed_eq inputs' perm] at here
  · intro settled inputs' perm
    refine keepFirst_congr.mpr fun k => ?_
    rw [pushed_eq inputs' perm]
    exact settled_iff.mpr (settled k) inputs' perm

theorem orderFree_iff (ids : StableIds stableId) : OrderFree stableId inputs ↔ Agreed stableId inputs := by
  simp only [OrderFree, nodes_graph, edges_graph, evidence_graph]
  constructor
  · intro free
    exact ⟨(settled_rounds ids).mp fun inputs' perm => (free inputs' perm).1,
      (settled_rounds ids).mp fun inputs' perm => (free inputs' perm).2.1,
      (settled_rounds ids).mp fun inputs' perm => (free inputs' perm).2.2⟩
  · intro agreed inputs' perm
    exact ⟨(settled_rounds ids).mpr agreed.nodes inputs' perm,
      (settled_rounds ids).mpr agreed.edges inputs' perm,
      (settled_rounds ids).mpr agreed.evidence inputs' perm⟩

end Order

end CodeSystemGraph.Events
