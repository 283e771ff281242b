import CodeSystemGraph.Model
import CodeSystemGraph.Ordered
import CodeSystemGraph.Text

/-! The inputs of the impact analysis and the checks made before it starts:
`validate_context` and `resolve_target`. A context is accepted exactly when it is
`Valid`; the property mentions the input lists only through membership and
distinctness, so it does not depend on their order. Of a community snapshot and
its communities only the fields read by the analysis are kept. -/

namespace CodeSystemGraph.Impact
open Ieee Model Ordered Text

inductive ImpactDirection
  | upstream | downstream | both
deriving DecidableEq

inductive ImpactTarget
  | nodeId (nodeId : NodeId)
  | stableKey (stableKey : String)
deriving DecidableEq

structure ResolvedTarget where
  node : Node
  resolvedBy : String
deriving DecidableEq

structure ImpactOptions where
  maxDepth : Nat := 8
  nodeLimit : Nat := 10000
  edgeLimit : Nat := 50000
  confirmedConfidence : F32 := .div (.ofNat 8) (.ofNat 10)
  offset : Nat := 0
  limit : Nat := 100
  summaryOnly : Bool := false
  includeDepthBuckets : Bool := true

structure ImpactRequest where
  target : ImpactTarget
  direction : ImpactDirection
  options : ImpactOptions

inductive ImpactCompatibilityStatus
  | breaking | potentiallyBreaking | compatible | unknown
deriving DecidableEq

structure CompatibilityInput where
  contractNodeId : NodeId
  status : ImpactCompatibilityStatus
  evidence : List String
  recommendedValidations : List String

inductive LocalEnrichmentStatus
  | available | partialResult | stale | unavailable
deriving DecidableEq

structure LocalImpactItem where
  depth : Nat

structure LocalEnrichmentInput where
  repoId : RepoId
  anchor : String
  status : LocalEnrichmentStatus
  affected : List LocalImpactItem
  affectedTests : List String
  truncated : Bool
  degradations : List String

inductive CriticalityTag
  | critical | authentication | security | payment | dataBoundary
deriving DecidableEq

structure CriticalityAssignment where
  nodeId : NodeId
  tag : CriticalityTag
  evidence : List String

structure EnvironmentAssignment where
  nodeId : NodeId
  environment : String

structure RecommendedCommand where
  repoId : RepoId
  command : String

structure Community where
  id : CommunityId
  label : String
  members : List NodeId
  coupling : F64
  limitations : List String

structure CommunitySnapshot where
  communities : List Community

structure ImpactContext where
  nodes : List Node
  edges : List Edge
  communities : Option CommunitySnapshot
  freshness : List RepoFreshness
  compatibility : List CompatibilityInput
  localEnrichment : List LocalEnrichmentInput
  publicContracts : List NodeId
  criticality : List CriticalityAssignment
  centrality : BTreeMap NodeId F32
  serviceMemberships : BTreeMap NodeId (List NodeId)
  environments : List EnvironmentAssignment
  recommendedCommands : List RecommendedCommand
  graphComplete : Bool
  coverageGaps : List String

/-- A complete context that carries a graph and nothing else. -/
def ImpactContext.ofGraph (nodes : List Node) (edges : List Edge) : ImpactContext where
  nodes := nodes
  edges := edges
  communities := none
  freshness := []
  compatibility := []
  localEnrichment := []
  publicContracts := []
  criticality := []
  centrality := ∅
  serviceMemberships := ∅
  environments := []
  recommendedCommands := []
  graphComplete := true
  coverageGaps := []

inductive ImpactError
  | duplicateNode (node : String)
  | duplicateEdge (edge : String)
  | duplicateFreshness (repository : String)
  | danglingEdge (edge node : String)
  | invalidEdgeConfidence (edge : String)
  | invalidConfirmedConfidence
  | invalidBounds
  | invalidCentrality (node : String)
  | criticalityWithoutEvidence (node : String)
  | unknownContextNode (context node : String)
  | unknownTarget
  | ambiguousTarget (stableKey : String)
deriving DecidableEq

def maxDepthBound : Nat := 128
def maxNodes : Nat := 100000
def maxEdges : Nat := 1000000
def maxLimit : Nat := 10000
def maxOffset : Nat := 1000000

def boundsValid (options : ImpactOptions) : Bool :=
  !(options.maxDepth == 0 || maxDepthBound < options.maxDepth ||
    options.nodeLimit == 0 || maxNodes < options.nodeLimit ||
    options.edgeLimit == 0 || maxEdges < options.edgeLimit ||
    options.limit == 0 || maxLimit < options.limit || maxOffset < options.offset)

abbrev NodeIndex := BTreeMap NodeId Node

def validateNodeReference (nodes : NodeIndex) (context : String) (nodeId : NodeId) :
    Except ImpactError Unit :=
  ensure (nodeId ∈ nodes) (.unknownContextNode context nodeId)

def validateEdge (nodes : NodeIndex) (edge : Edge) : Except ImpactError Unit := do
  ensure (unitInterval edge.confidence) (.invalidEdgeConfidence edge.id)
  ensure (edge.source ∈ nodes) (.danglingEdge edge.id edge.source)
  ensure (edge.target ∈ nodes) (.danglingEdge edge.id edge.target)

/-- The edge loop, with the identifiers seen so far. -/
def validateEdges (nodes : NodeIndex) (edgeIds : BTreeSet EdgeId) :
    List Edge → Except ImpactError Unit
  | [] => .ok ()
  | edge :: rest => do
    ensure (edge.id ∉ edgeIds) (.duplicateEdge edge.id)
    validateEdge nodes edge
    validateEdges nodes (edgeIds.insert edge.id) rest

def validateCentrality (nodes : NodeIndex) (entry : NodeId × F32) : Except ImpactError Unit := do
  validateNodeReference nodes "centrality" entry.1
  ensure (unitInterval entry.2) (.invalidCentrality entry.1)

def validateCriticality (nodes : NodeIndex) (assignment : CriticalityAssignment) :
    Except ImpactError Unit := do
  validateNodeReference nodes "criticality" assignment.nodeId
  ensure (!(assignment.evidence.isEmpty || assignment.evidence.any isBlank))
    (.criticalityWithoutEvidence assignment.nodeId)

def validateMembership (nodes : NodeIndex) (entry : NodeId × List NodeId) :
    Except ImpactError Unit := do
  validateNodeReference nodes "service_memberships" entry.1
  entry.2.forM (validateNodeReference nodes "service_memberships")

/-- The loops of `validate_context` after the freshness loop. -/
def validateReferences (context : ImpactContext) (nodes : NodeIndex) :
    Except ImpactError Unit := do
  context.centrality.toList.forM (validateCentrality nodes)
  context.criticality.forM (validateCriticality nodes)
  (context.compatibility.map (·.contractNodeId)).forM
    (validateNodeReference nodes "compatibility")
  context.publicContracts.forM (validateNodeReference nodes "public_contracts")
  (context.environments.map (·.nodeId)).forM (validateNodeReference nodes "environments")
  context.serviceMemberships.toList.forM (validateMembership nodes)

def validateContext (request : ImpactRequest) (context : ImpactContext) :
    Except ImpactError NodeIndex := do
  ensure (boundsValid request.options) .invalidBounds
  ensure (unitInterval request.options.confirmedConfidence) .invalidConfirmedConfidence
  let nodes ← indexBy Node.id (fun node => .duplicateNode node.id) context.nodes
  validateEdges nodes ∅ context.edges
  let _ ← indexBy RepoFreshness.repoId (fun record => .duplicateFreshness record.repoId)
    context.freshness
  validateReferences context nodes
  pure nodes

def resolveTarget (selector : ImpactTarget) (nodes : NodeIndex) :
    Except ImpactError ResolvedTarget :=
  match selector with
  | .nodeId nodeId =>
    match nodes[nodeId]? with
    | some node => .ok ⟨node, "node_id"⟩
    | none => .error .unknownTarget
  | .stableKey stableKey =>
    match (values nodes).filter (·.stableKey == stableKey) with
    | [] => .error .unknownTarget
    | [node] => .ok ⟨node, "stable_key"⟩
    | _ => .error (.ambiguousTarget stableKey)

/-- The facts the rest of the analysis relies on. -/
structure Valid (request : ImpactRequest) (context : ImpactContext) (nodes : NodeIndex) : Prop where
  bounds : boundsValid request.options = true
  confirmed : unitInterval request.options.confirmedConfidence = true
  nodeIds : (context.nodes.map Node.id).Nodup
  lookup : ∀ id node, nodes[id]? = some node ↔ node ∈ context.nodes ∧ node.id = id
  edgeIds : (context.edges.map Edge.id).Nodup
  edges : ∀ edge ∈ context.edges,
    unitInterval edge.confidence = true ∧ edge.source ∈ nodes ∧ edge.target ∈ nodes
  freshness : (context.freshness.map RepoFreshness.repoId).Nodup
  references : validateReferences context nodes = .ok ()

theorem validateEdges_eq_ok {nodes : NodeIndex} {edges : List Edge} {u : Unit} :
    ∀ {edgeIds : BTreeSet EdgeId}, validateEdges nodes edgeIds edges = .ok u ↔
      (edges.map Edge.id).Nodup ∧ (∀ edge ∈ edges, edge.id ∉ edgeIds) ∧
        ∀ edge ∈ edges,
          unitInterval edge.confidence = true ∧ edge.source ∈ nodes ∧ edge.target ∈ nodes := by
  induction edges with
  | nil => intro edgeIds; simp [validateEdges]
  | cons edge rest ih =>
    intro edgeIds
    simp only [validateEdges, validateEdge, bind_eq_ok, ensure_eq_ok, ih, exists_const,
      decide_eq_true_eq, List.map_cons, List.nodup_cons, List.mem_map,
      List.mem_cons, forall_eq_or_imp, Std.ExtTreeSet.mem_insert,
      Std.LawfulEqOrd.compare_eq_iff_eq, not_or, not_exists, not_and]
    constructor
    · rintro ⟨fresh, ⟨confidence, source, target⟩, nodup, new, rest⟩
      exact ⟨⟨fun e he same => (new e he).1 same.symm, nodup⟩, ⟨fresh, fun e he => (new e he).2⟩,
        ⟨confidence, source, target⟩, rest⟩
    · rintro ⟨⟨first, nodup⟩, ⟨fresh, new⟩, valid, rest⟩
      exact ⟨fresh, valid, nodup, fun e he => ⟨fun same => first e he same.symm, new e he⟩, rest⟩

/-- A context is accepted exactly when it is valid. -/
theorem validateContext_eq_ok {request : ImpactRequest} {context : ImpactContext}
    {nodes : NodeIndex} :
    validateContext request context = .ok nodes ↔ Valid request context nodes := by
  simp only [validateContext, bind_eq_ok, ensure_eq_ok, validateEdges_eq_ok, pure_eq_ok,
    exists_const]
  constructor
  · rintro ⟨bounds, confirmed, index, indexed, ⟨edgeIds, -, edges⟩, records, freshness,
      ⟨⟩, references, rfl⟩
    obtain ⟨nodeIds, lookup⟩ := (indexBy_eq_ok _ _).mp indexed
    exact ⟨bounds, confirmed, nodeIds, lookup, edgeIds, edges,
      ((indexBy_eq_ok _ _).mp freshness).1, references⟩
  · intro h
    obtain ⟨records, freshness⟩ := indexBy_total RepoFreshness.repoId
      (fun record => ImpactError.duplicateFreshness record.repoId) h.freshness
    exact ⟨h.bounds, h.confirmed, nodes, (indexBy_eq_ok _ _).mpr ⟨h.nodeIds, h.lookup⟩,
      ⟨h.edgeIds, by simp, h.edges⟩, records, freshness, (), h.references, rfl⟩

end CodeSystemGraph.Impact
