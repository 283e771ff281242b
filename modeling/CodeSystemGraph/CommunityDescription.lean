import CodeSystemGraph.CommunityGraph

/-! What the analysis says about each community: its central nodes by rank and degree, its label,
its contracts and its metrics. The tables of Unicode are parameters. -/

namespace CodeSystemGraph.Communities
open Ieee Model Ordered

structure CommunityMetrics where
  size : Nat
  density : Double
  cohesion : Double
  coupling : Double
  crossCommunityEdges : Nat
deriving DecidableEq

structure CommunityLabelEvidence where
  nodeId : NodeId
  term : String
deriving DecidableEq

structure Community where
  id : CommunityId
  label : String
  members : List NodeId
  centralNodes : List NodeId
  repositories : List RepoId
  services : List NodeId
  inboundContracts : List NodeId
  outboundContracts : List NodeId
  metrics : CommunityMetrics
  labelEvidence : List CommunityLabelEvidence
  limitations : List String
deriving DecidableEq

structure CommunitySnapshot where
  snapshotId : String
  engineVersion : String
  config : CommunityConfig
  communities : List Community
deriving DecidableEq

/-- What the labels take from the tables of Unicode. -/
structure Letters where
  isAlphanumeric : Char → Bool
  isAlphabetic : Char → Bool
  toLowercase : String → String
  toUppercase : Char → String

section Centrality

/-- `usize_to_f64`. -/
def usizeToF64 (value : Nat) : Double := ⟨.ofNat value⟩

/-- The double nearest to a literal with two decimal places. -/
def hundredths (value : Nat) : Double := usizeToF64 value / usizeToF64 100

def pageRankDamping : Double := hundredths 85

def pageRankIterations : Nat := 64

def outgoingWeights (graph : WeightedGraph Double) : List Double :=
  graph.acceptedEdges.foldl (fun outgoing edge => outgoing.modify edge.source (· + edge.weight))
    (List.replicate graph.nodes.length 0)

/-- The sum of an iterator starts at the negative zero. -/
def sum (values : List Double) : Double := values.foldl (· + ·) ⟨.ofCode true 0⟩

def nextRanks (graph : WeightedGraph Double) (outgoing ranks : List Double) : List Double :=
  let count := usizeToF64 graph.nodes.length
  let dangling := sum ((ranks.zipIdx.filter fun entry =>
    outgoing.getD entry.2 0 ≤ epsilon).map Prod.fst)
  let base := (usizeToF64 1 - pageRankDamping) / count + pageRankDamping * dangling / count
  graph.acceptedEdges.foldl (fun next edge =>
    if epsilon < outgoing.getD edge.source 0 then
      next.modify edge.target (· + pageRankDamping * ranks.getD edge.source 0 * edge.weight /
        outgoing.getD edge.source 0)
    else next) (List.replicate graph.nodes.length base)

def weightedPageRank (graph : WeightedGraph Double) : List Double :=
  if graph.nodes.length = 0 then []
  else Nat.iterate (nextRanks graph (outgoingWeights graph)) pageRankIterations
    (List.replicate graph.nodes.length (usizeToF64 1 / usizeToF64 graph.nodes.length))

def detectGodNodes (graph : WeightedGraph Double) : List Nat :=
  if graph.nodes.length < 4 then []
  else
    let median := (sortBy id graph.neighborCount).getD (graph.neighborCount.length / 2) 0
    let majority := (graph.nodes.length + 1) / 2
    (graph.neighborCount.zipIdx.filter fun entry =>
      majority ≤ entry.1 ∧ max (median * 2) 3 ≤ entry.1).map Prod.snd

def centralityScore (pageRank weightedDegree maximumDegree : Double) : Double :=
  let normalizedDegree := if maximumDegree ≤ epsilon then 0 else weightedDegree / maximumDegree
  hundredths 65 * pageRank + hundredths 35 * normalizedDegree

def centralNodes (graph : WeightedGraph Double) (members : List Nat) (pageRank : List Double)
    (godNodes : List Nat) : List Nat :=
  let maximumDegree : Double :=
    ⟨(members.map fun node => (graph.weightedDegree.getD node 0).bits).foldl Binary.max .zero⟩
  (sortBy (fun node => toLex (OrderDual.toDual (decide (node ∈ godNodes)),
    toLex (OrderDual.toDual (centralityScore (pageRank.getD node 0)
      (graph.weightedDegree.getD node 0) maximumDegree).bits, nodeId graph node))) members).take 3

end Centrality

section Labels

def isContractKind : NodeKind → Bool
  | .httpOperation => true
  | .graphqlOperation => true
  | .rpcMethod => true
  | .eventChannel => true
  | .eventSchema => true
  | .database => true
  | .databaseTable => true
  | _ => false

def stopTerms : List String :=
  ["api", "app", "application", "artifact", "community", "default", "http", "https", "operation",
    "repo", "repository", "rpc", "service", "src", "test", "tests", "version"]

variable (letters : Letters) (graph : WeightedGraph Double)

def normalizedTerms (value : String) : List String :=
  ((value.toList.splitOnP fun c => !letters.isAlphanumeric c).map fun piece =>
    letters.toLowercase (String.ofList piece)).filter fun term =>
      decide (3 ≤ term.utf8ByteSize) && decide (term.utf8ByteSize ≤ 32) &&
        term.toList.any letters.isAlphabetic && !stopTerms.contains term

def titleCase (term : String) : String :=
  match term.toList with
  | [] => ""
  | first :: rest => letters.toUppercase first ++ String.ofList rest

def nodeScore (central : List Nat) (member : Nat) (node : Node) : Nat :=
  let categoryScore := match node.kind with
    | .service => 400
    | .repository => 300
    | kind => if isContractKind kind then 200 else 0
  categoryScore + if member ∈ central then 100 else 0

structure TermScore where
  score : Nat
  node : NodeId
  best : Nat

def addScore (score : Nat) (node : NodeId) (entry : TermScore) : TermScore :=
  let total := min (entry.score + score) UInt32.size.pred
  if entry.best < score ∨ (score = entry.best ∧ node < entry.node) then ⟨total, node, score⟩
  else { entry with score := total }

def scoreTerms (central : List Nat) (terms : List (String × TermScore)) (member : Nat) :
    List (String × TermScore) :=
  match graph.nodes[member]? with
  | none => terms
  | some node =>
    let score := nodeScore central member node
    if score = 0 then terms
    else (sortedUnique (normalizedTerms letters node.label ++
      normalizedTerms letters node.stableKey)).foldl
        (fun terms term => upsert term ⟨0, node.id, 0⟩ (addScore score node.id) terms) terms

def structuralLabel (members central : List Nat) : String × List CommunityLabelEvidence :=
  let terms := members.foldl (scoreTerms letters graph central) []
  let ranked := (sortBy (fun entry : String × TermScore =>
    toLex (OrderDual.toDual entry.2.score, toLex (entry.1, entry.2.node))) terms).take 3
  if ranked.isEmpty then
    let fallback := ((members.head?.bind (graph.nodes[·]?)).map Node.label).getD "community"
    ("Community: " ++ fallback, [])
  else
    (" / ".intercalate (ranked.map fun entry => titleCase letters entry.1),
      ranked.map fun entry => ⟨entry.2.node, entry.1⟩)

end Labels

section Descriptions

variable (stableId : String → String → String) (letters : Letters) (graph : WeightedGraph Double)

structure Crossings where
  inboundContracts : List NodeId
  outboundContracts : List NodeId
  cohesion : Double
  coupling : Double
  crossCommunityEdges : Nat
  internalPairs : List (Nat × Nat)

def contractEnd (position : Nat) : List NodeId :=
  ((graph.nodes[position]?.filter fun node => isContractKind node.kind).map Node.id).toList

def crossEdge (members : List Nat) (s : Crossings) (edge : AcceptedEdge Double) : Crossings :=
  let sourceInside := decide (edge.source ∈ members)
  let targetInside := decide (edge.target ∈ members)
  if sourceInside && targetInside then
    { s with
      cohesion := s.cohesion + edge.weight
      internalPairs := if edge.source ≠ edge.target then
        s.internalPairs ++ [(edge.source, edge.target)] else s.internalPairs }
  else if sourceInside || targetInside then
    { s with
      coupling := s.coupling + edge.weight
      crossCommunityEdges := s.crossCommunityEdges + 1
      inboundContracts := if targetInside then s.inboundContracts ++ contractEnd graph edge.target
        else s.inboundContracts
      outboundContracts := if sourceInside then s.outboundContracts ++ contractEnd graph edge.source
        else s.outboundContracts }
  else s

def canonicalMembers (ids : List NodeId) : String :=
  "|".intercalate (ids.map fun id => toString id.utf8ByteSize ++ ":" ++ id)

def limitationsOf (members godNodes : List Nat) (cohesion : Double) : List String :=
  sortBy id
    ((if members.length = 1 then
        ["Community contains a single node; structural metrics are limited."] else []) ++
      (members.filter fun node => node ∈ godNodes).map (fun node =>
        "High-degree god node `" ++ nodeId graph node ++ "` may dominate community structure.") ++
      if cohesion ≤ epsilon then
        ["Community has no positive internal accepted edge weight."] else [])

def describeCommunity (pageRank : List Double) (godNodes members : List Nat) : Community :=
  let central := centralNodes graph members pageRank godNodes
  let label := structuralLabel letters graph members central
  let nodes := members.filterMap (graph.nodes[·]?)
  let crossings := graph.acceptedEdges.foldl (crossEdge graph members) ⟨[], [], 0, 0, 0, []⟩
  let possible := members.length * (members.length - 1)
  { id := stableId "community" (canonicalMembers (members.map (nodeId graph)))
    label := label.1
    members := members.map (nodeId graph)
    centralNodes := central.map (nodeId graph)
    repositories := sortedUnique (nodes.filterMap Node.repoId)
    services := sortedUnique ((nodes.filter fun node => node.kind = .service).map Node.id)
    inboundContracts := sortedUnique crossings.inboundContracts
    outboundContracts := sortedUnique crossings.outboundContracts
    metrics :=
      { size := members.length
        density := if possible = 0 then 0
          else usizeToF64 crossings.internalPairs.dedup.length / usizeToF64 possible
        cohesion := crossings.cohesion
        coupling := crossings.coupling
        crossCommunityEdges := crossings.crossCommunityEdges }
    labelEvidence := label.2
    limitations := limitationsOf graph members godNodes crossings.cohesion }

def groupMembers (assignments : List Nat) : List (List Nat) :=
  values (assignments.zipIdx.foldl (fun grouped (community, node) => pushTo grouped community node)
    (∅ : BTreeMap Nat (List Nat)))

def communityGroups (assignments : List Nat) : List (List Nat) :=
  sortBy (fun members => members.map (nodeId graph))
    ((groupMembers assignments).map (sortBy (nodeId graph)))

def describeCommunities (assignments : List Nat) : List Community :=
  (communityGroups graph assignments).map
    (describeCommunity stableId letters graph (weightedPageRank graph) (detectGodNodes graph))

end Descriptions

section Analysis

variable (stableId : String → String → String) (letters : Letters)

def assignmentsOf (graph : WeightedGraph Double) (config : CommunityConfig) : List Nat :=
  match config.algorithm with
  | .connectedComponents => (connectedComponents graph).map (·.getD 0)
  | .weightedClustering =>
    weightedLabelPropagation stableId graph config.seed config.maxIterations.toNat
  | .louvain =>
    louvain stableId graph config.seed ⟨config.resolution⟩ config.maxIterations.toNat

def analyzeCommunities (snapshotId : String) (nodes : List Node) (edges : List Edge)
    (config : CommunityConfig) : Except CommunityError CommunitySnapshot := do
  let weights ← validateInputs nodes edges config
  let selected ← scopedNodeIds nodes edges config weights
  let graph := buildGraph nodes edges config.minimumConfidence weights selected
  .ok
    { snapshotId := snapshotId
      engineVersion := "1.0.0"
      config := config
      communities := describeCommunities stableId letters graph
        (assignmentsOf stableId graph config) }

end Analysis

end CodeSystemGraph.Communities
