import Mathlib.Algebra.Order.BigOperators.Group.List
import CodeSystemGraph.Model
import CodeSystemGraph.Ordered
import CodeSystemGraph.Text

/-! The inputs of the confirmed-path traversal: request validation, the indexed
graph of `TraversalGraph::new`, and the filters. Weights are abstract: a
`Weights` gives the cost of an edge, a sum and a total order, so that the same
search is stated for the doubles of the program and for exact costs. -/

namespace CodeSystemGraph.Query
open Ieee Model Ordered Text

inductive TraversalAlgorithm
  | bfs | dijkstra | kShortest
deriving DecidableEq

inductive TraversalDirection
  | outgoing | incoming | both
deriving DecidableEq

structure TraversalFilters where
  edgeKinds : List EdgeKind := []
  minConfidence : F64 := .zero
  includeTests : Bool := true
  includeGeneratedArtifacts : Bool := true
  environmentNamespace : Option String := none

structure EdgeKindCost where
  kind : EdgeKind
  cost : F64

structure TraversalOptions where
  algorithm : TraversalAlgorithm := .bfs
  direction : TraversalDirection := .outgoing
  maxDepth : Nat := 8
  maxCrossRepoHops : Nat := 4
  nodeLimit : Nat := 10000
  edgeLimit : Nat := 50000
  timeoutMs : Nat := 1000
  k : Nat := 1
  edgeKindCosts : List EdgeKindCost := []

structure TraversalRequest where
  start : NodeId
  target : NodeId
  filters : TraversalFilters := {}
  options : TraversalOptions := {}

inductive QueryError
  | duplicateNode (node : String)
  | duplicateEdge (edge : String)
  | danglingEdge (edge node : String)
  | unknownAnchor (node : String)
  | invalidTraversalLimits
  | invalidMinimumConfidence
  | invalidEdgeConfidence (edge : String)
  | invalidEdgeCost (kind : EdgeKind)
  | inconsistentPath (node : String)
deriving DecidableEq

structure TraceSegment where
  source : Node
  edge : Edge
  target : Node
deriving DecidableEq

def maxTraversalDepth : Nat := 128
def maxTraversalNodes : Nat := 100000
def maxTraversalEdges : Nat := 1000000
def maxTraversalTimeoutMs : Nat := 60000
def maxKPaths : Nat := 16

def limitsValid (options : TraversalOptions) : Bool :=
  !(options.maxDepth == 0 || maxTraversalDepth < options.maxDepth ||
    options.nodeLimit == 0 || maxTraversalNodes < options.nodeLimit ||
    options.edgeLimit == 0 || maxTraversalEdges < options.edgeLimit ||
    maxTraversalTimeoutMs < options.timeoutMs || options.k == 0 || maxKPaths < options.k)

def validateCosts (costKinds : List EdgeKind) : List EdgeKindCost → Except QueryError Unit
  | [] => .ok ()
  | item :: rest => do
    ensure (item.cost.isFinite && Binary.lt .zero item.cost && !costKinds.contains item.kind)
      (.invalidEdgeCost item.kind)
    validateCosts (costKinds ++ [item.kind]) rest

def validateTraversalRequest (request : TraversalRequest) : Except QueryError Unit := do
  ensure (limitsValid request.options) .invalidTraversalLimits
  ensure (unitInterval request.filters.minConfidence) .invalidMinimumConfidence
  validateCosts [] request.options.edgeKindCosts

abbrev EdgeIndex := BTreeMap NodeId (List Edge)

structure TraversalGraph where
  nodes : BTreeMap NodeId Node
  outgoing : EdgeIndex
  incoming : EdgeIndex

def distinctNodes (nodes : List Node) : Except QueryError (BTreeMap NodeId Node) :=
  indexBy Node.id (fun node => .duplicateNode node.id) nodes

def validateGraphEdge (edge : Edge) (nodes : BTreeMap NodeId Node) : Except QueryError Unit := do
  ensure (edge.source ∈ nodes) (.danglingEdge edge.id edge.source)
  ensure (edge.target ∈ nodes) (.danglingEdge edge.id edge.target)
  ensure (unitInterval (widen edge.confidence)) (.invalidEdgeConfidence edge.id)

/-- The edge loop of `TraversalGraph::new`, before the lists are sorted. -/
def addEdges (nodes : BTreeMap NodeId Node) (edgeIds : BTreeSet EdgeId)
    (outgoing incoming : EdgeIndex) : List Edge → Except QueryError (EdgeIndex × EdgeIndex)
  | [] => .ok (outgoing, incoming)
  | edge :: rest => do
    ensure (edge.id ∉ edgeIds) (.duplicateEdge edge.id)
    validateGraphEdge edge nodes
    addEdges nodes (edgeIds.insert edge.id) (pushTo outgoing edge.source edge)
      (pushTo incoming edge.target edge) rest

def TraversalGraph.new (nodes : List Node) (edges : List Edge) :
    Except QueryError TraversalGraph := do
  let nodes ← distinctNodes nodes
  let (outgoing, incoming) ← addEdges nodes ∅ ∅ ∅ edges
  pure
    { nodes := nodes
      outgoing := outgoing.map fun _ adjacent => sortBy Edge.id adjacent
      incoming := incoming.map fun _ adjacent => sortBy Edge.id adjacent }

theorem getD_map_sortBy (index : EdgeIndex) (nodeId : NodeId) :
    (index.map fun _ adjacent => sortBy Edge.id adjacent)[nodeId]?.getD [] =
      sortBy Edge.id (index[nodeId]?.getD []) := by
  rw [Std.ExtTreeMap.getElem?_map]
  cases index[nodeId]? <;> rfl

def TraversalGraph.requireAnchor (graph : TraversalGraph) (nodeId : NodeId) :
    Except QueryError Unit :=
  ensure (nodeId ∈ graph.nodes) (.unknownAnchor nodeId)

structure Adjacent where
  edge : Edge
  next : NodeId
  reversed : Bool
deriving DecidableEq

def adjacentKey (adjacent : Adjacent) : EdgeId ×ₗ NodeId ×ₗ Bool :=
  toLex (adjacent.edge.id, toLex (adjacent.next, adjacent.reversed))

def sameAdjacent (left right : Adjacent) : Bool :=
  left.edge.id == right.edge.id && left.next == right.next && left.reversed == right.reversed

def TraversalGraph.incident (graph : TraversalGraph) (nodeId : NodeId)
    (direction : TraversalDirection) : List Adjacent :=
  (if direction = .outgoing ∨ direction = .both then
    (graph.outgoing[nodeId]?.getD []).map fun edge => ⟨edge, edge.target, false⟩ else []) ++
  (if direction = .incoming ∨ direction = .both then
    (graph.incoming[nodeId]?.getD []).map fun edge => ⟨edge, edge.source, true⟩ else [])

def TraversalGraph.adjacent (graph : TraversalGraph) (nodeId : NodeId)
    (direction : TraversalDirection) : List Adjacent :=
  dedupBy sameAdjacent (sortBy adjacentKey (graph.incident nodeId direction))

/-! No node has more adjacent edges than the two indices hold. -/

def EdgeIndex.total (index : EdgeIndex) : Nat := ((values index).map List.length).sum

theorem EdgeIndex.length_le_total (index : EdgeIndex) (nodeId : NodeId) :
    (index[nodeId]?.getD []).length ≤ index.total := by
  cases found : index[nodeId]? with
  | none => simp
  | some edges =>
    have listed : edges ∈ values index := mem_values.mpr ⟨nodeId, found⟩
    exact List.single_le_sum (by simp) _ (List.mem_map_of_mem listed)

def TraversalGraph.degreeBound (graph : TraversalGraph) : Nat :=
  graph.outgoing.total + graph.incoming.total

theorem TraversalGraph.adjacent_length (graph : TraversalGraph) (nodeId : NodeId)
    (direction : TraversalDirection) :
    (graph.adjacent nodeId direction).length ≤ graph.degreeBound := by
  have outgoing := graph.outgoing.length_le_total nodeId
  have incoming := graph.incoming.length_le_total nodeId
  have few : (graph.incident nodeId direction).length ≤ graph.degreeBound := by
    unfold TraversalGraph.incident TraversalGraph.degreeBound
    rw [List.length_append]
    refine Nat.add_le_add ?_ ?_ <;> split <;> simp_all
  calc
    (graph.adjacent nodeId direction).length
        ≤ (sortBy adjacentKey (graph.incident nodeId direction)).length :=
          (dedupBy_sublist _ _).length_le
    _ = (graph.incident nodeId direction).length := (sortBy_perm _ _).length_eq
    _ ≤ graph.degreeBound := few

section Filters

def edgePassesFilters (edge : Edge) (filters : TraversalFilters) : Bool :=
  (filters.edgeKinds.isEmpty || filters.edgeKinds.contains edge.kind) &&
    filters.minConfidence.le (widen edge.confidence)

def isGeneratedArtifact (node : Node) : Bool :=
  let key := (node.stableKey.toList.map toAsciiLowercase).map fun c => if c = '\\' then '/' else c
  ["/generated/", "/target/", "/dist/", "/build/", "/vendor/", ".generated.", "_generated.",
    "/gen/"].any fun marker => containsText key marker.toList

def deploymentNamespace (stableKey : String) : Option String :=
  match splitn 4 ':' stableKey.toList with
  | [kind, _, namespaceName, _] =>
    if kind = "deployment".toList ∧ namespaceName ≠ [] then some (String.ofList namespaceName)
    else none
  | _ => none

/-- Whether the filters accept a node, without the gap that the program records. -/
def nodeAccepted (node : Node) (filters : TraversalFilters) : Bool :=
  (filters.includeTests || node.kind != .testCase) &&
    (filters.includeGeneratedArtifacts || node.kind != .artifact || !isGeneratedArtifact node) &&
    match filters.environmentNamespace with
    | none => true
    | some required => node.kind != .deployment || deploymentNamespace node.stableKey == some required

/-- Whether the last check of the filters finds no namespace in a deployment key. -/
def namespaceMissing (node : Node) (filters : TraversalFilters) : Bool :=
  (filters.includeTests || node.kind != .testCase) &&
    (filters.includeGeneratedArtifacts || node.kind != .artifact || !isGeneratedArtifact node) &&
    filters.environmentNamespace.isSome && node.kind == .deployment &&
    (deploymentNamespace node.stableKey).isNone

def segmentIsCrossRepo (graph : TraversalGraph) (source target : NodeId) :
    Except QueryError Bool :=
  match graph.nodes[source]?, graph.nodes[target]? with
  | none, _ => .error (.inconsistentPath source)
  | some _, none => .error (.inconsistentPath target)
  | some sourceNode, some targetNode => .ok (sourceNode.repoId ≠ targetNode.repoId)

end Filters

/-- What the search needs to know about costs. -/
structure Weights (W : Type) where
  zero : W
  add : W → W → W
  weight : TraversalOptions → Edge → Except QueryError W

def minConfidenceForWeight : F64 := .div (.ofNat 1) (.ofNat 100)

def edgeWeight (options : TraversalOptions) (edge : Edge) : Except QueryError F64 :=
  let base := ((options.edgeKindCosts.find? fun item => item.kind == edge.kind).map (·.cost)).getD
    (.ofNat 1)
  let confidence := Binary.max (widen edge.confidence) minConfidenceForWeight
  let weight := Binary.div base confidence
  if weight.isFinite && Binary.lt .zero weight then .ok weight
  else .error (.invalidEdgeCost edge.kind)

/-- The costs of the program, in double precision. -/
def doubles : Weights F64 := ⟨.zero, Binary.add, edgeWeight⟩

end CodeSystemGraph.Query
