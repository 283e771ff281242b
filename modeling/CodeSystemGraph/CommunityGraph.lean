import CodeSystemGraph.Iterate
import CodeSystemGraph.Louvain

/-! The inputs of the community analysis: their checks, the nodes in scope, and the two
algorithms besides the local-moving phase. `usize::MAX`, the label of a node without a component,
is `none`. -/

namespace CodeSystemGraph.Communities
open Ieee Model Ordered Iterate

inductive CommunityAlgorithm
  | connectedComponents | weightedClustering | louvain
deriving DecidableEq

inductive CommunityScope
  | federated
  | repository (repoId : RepoId)
  | service (stableKey : String)
  | workspace
deriving DecidableEq

structure CommunityEdgeWeight where
  kind : EdgeKind
  weight : F64
deriving DecidableEq

structure CommunityConfig where
  algorithm : CommunityAlgorithm
  scope : CommunityScope
  seed : UInt64
  resolution : F64
  minimumConfidence : F32
  edgeWeights : List CommunityEdgeWeight
  maxIterations : UInt32
deriving DecidableEq

inductive CommunityError
  | invalidResolution (found : F64)
  | invalidMaxIterations (found : UInt32)
  | invalidMinimumConfidence (found : F32)
  | invalidEdgeConfidence (edgeId : String) (confidence : F32)
  | invalidEdgeWeight (kind : EdgeKind) (weight : F64)
  | duplicateEdgeWeight (kind : EdgeKind)
  | duplicateNodeId (id : String)
  | unknownService (stableKey : String)
deriving DecidableEq

section Inputs

/-- The loop over the configured weights. No two kinds share an index. -/
def configureWeights (weights : EdgeKind → Double) (configured : List EdgeKind) :
    List CommunityEdgeWeight → Except CommunityError (EdgeKind → Double)
  | [] => .ok weights
  | item :: rest => do
    ensure (item.weight.isFinite && !item.weight.lt .zero)
      (.invalidEdgeWeight item.kind item.weight)
    ensure (!configured.contains item.kind) (.duplicateEdgeWeight item.kind)
    configureWeights (Function.update weights item.kind ⟨item.weight⟩)
      (item.kind :: configured) rest

def validateInputs (nodes : List Node) (edges : List Edge) (config : CommunityConfig) :
    Except CommunityError (EdgeKind → Double) := do
  ensure (config.resolution.isFinite && !config.resolution.le .zero)
    (.invalidResolution config.resolution)
  ensure (decide (1 ≤ config.maxIterations.toNat) && decide (config.maxIterations.toNat ≤ 10000))
    (.invalidMaxIterations config.maxIterations)
  ensure (Model.unitInterval config.minimumConfidence)
    (.invalidMinimumConfidence config.minimumConfidence)
  let _ ← indexBy Node.id (fun node => CommunityError.duplicateNodeId node.id) nodes
  edges.forM fun edge =>
    ensure (Model.unitInterval edge.confidence) (.invalidEdgeConfidence edge.id edge.confidence)
  configureWeights (fun _ => ⟨.ofNat 1⟩) [] config.edgeWeights

def nodeIds (nodes : List Node) : BTreeSet NodeId := .ofList (nodes.map Node.id) compare

/-- An edge that ties its ends to a service. -/
def joinsService (minimumConfidence : F32) (weights : EdgeKind → Double) (known : BTreeSet NodeId)
    (edge : Edge) : Bool :=
  !(decide (edge.status ≠ .confirmed) || edge.confidence.lt minimumConfidence ||
    decide (weights edge.kind ≤ 0) || !known.contains edge.source || !known.contains edge.target)

def selectEnds (services : BTreeSet NodeId) (selected : BTreeSet NodeId) (edge : Edge) :
    BTreeSet NodeId :=
  let selected := if edge.source ∈ services then selected.insert edge.target else selected
  if edge.target ∈ services then selected.insert edge.source else selected

def scopedNodeIds (nodes : List Node) (edges : List Edge) (config : CommunityConfig)
    (weights : EdgeKind → Double) : Except CommunityError (BTreeSet NodeId) :=
  match config.scope with
  | .federated => .ok (nodeIds nodes)
  | .workspace => .ok (nodeIds nodes)
  | .repository repoId => .ok (nodeIds (nodes.filter fun node => node.repoId = some repoId))
  | .service stableKey =>
    let services := nodeIds (nodes.filter fun node =>
      node.kind = .service ∧ node.stableKey = stableKey)
    if services.isEmpty then .error (.unknownService stableKey)
    else .ok ((edges.filter (joinsService config.minimumConfidence weights (nodeIds nodes))).foldl
      (selectEnds services) services)

end Inputs

section Components

abbrev Exploration := List Nat × List (Option Nat)

def assignNeighbor (component : Nat) (s : Exploration) (entry : Nat × Double) : Exploration :=
  if 0 < entry.2 ∧ s.2[entry.1]? = some none then
    (entry.1 :: s.1, s.2.set entry.1 (some component))
  else s

/-- One round of the loop over the pending nodes, the last of which comes first. -/
def exploreTurn (graph : WeightedGraph Double) (component : Nat) (s : Exploration) :
    Turn Exploration (List (Option Nat)) :=
  match s.1 with
  | [] => .leave s.2
  | node :: pending =>
    .again ((graph.adjacency.getD node []).foldl (assignNeighbor component) (pending, s.2))

def unexplored (s : Exploration) : Nat := s.1.length + s.2.count none

theorem unexplored_assignNeighbor (component : Nat) (s : Exploration) (entry : Nat × Double) :
    unexplored (assignNeighbor component s entry) = unexplored s := by
  unfold assignNeighbor
  split
  · next fresh =>
    obtain ⟨inside, is⟩ := List.getElem?_eq_some_iff.1 fresh.2
    have counted : 0 < s.2.count none := List.count_pos_iff.2 (is ▸ List.getElem_mem inside)
    simp only [unexplored, List.length_cons, List.count_set inside, is]
    simp
    omega
  · rfl

theorem unexplored_foldl (component : Nat) (entries : List (Nat × Double)) (s : Exploration) :
    unexplored (entries.foldl (assignNeighbor component) s) = unexplored s := by
  induction entries generalizing s with
  | nil => rfl
  | cons entry entries ih => rw [List.foldl_cons, ih, unexplored_assignNeighbor]

theorem exploreTurn_terminates (graph : WeightedGraph Double) (component : Nat) :
    Terminates (exploreTurn graph component) (fun _ => True) unexplored where
  keep := fun _ _ _ _ => trivial
  decrease := by
    intro s s' _ again
    unfold exploreTurn at again
    split at again
    · cases again
    · next node pending here =>
      obtain rfl := Turn.again.inj again
      rw [unexplored_foldl]
      simp [unexplored, here]

def exploreFrom (graph : WeightedGraph Double) (component start : Nat) (assignments : List (Option Nat)) :
    List (Option Nat) :=
  loop (exploreTurn_terminates graph component) ([start], assignments.set start (some component))
    trivial

def componentFrom (graph : WeightedGraph Double) (s : List (Option Nat) × Nat) (start : Nat) :
    List (Option Nat) × Nat :=
  if s.1[start]? = some none then (exploreFrom graph s.2 start s.1, s.2 + 1) else s

def connectedComponents (graph : WeightedGraph Double) : List (Option Nat) :=
  ((List.range graph.nodes.length).foldl (componentFrom graph)
    (List.replicate graph.nodes.length none, 0)).1

end Components

section Propagation

variable (stableId : String → String → String) (graph : WeightedGraph Double) (seed : UInt64)

def labelScores (assignments : List Nat) (node : Nat) : List (Nat × Double) :=
  (graph.adjacency.getD node []).foldl (fun scores (neighbor, weight) =>
    if neighbor ≠ node then upsert (assignments.getD neighbor 0) 0 (· + weight) scores
    else scores) []

def considerLabel (currentScore : Double) (best : Nat × Double) (entry : Nat × Double) : Nat × Double :=
  if best.2 + epsilon < entry.2 ∨ (Weight.abs (entry.2 - best.2) ≤ epsilon ∧
      currentScore + epsilon < entry.2 ∧
      seededLabelKey stableId graph seed entry.1 < seededLabelKey stableId graph seed best.1) then
    entry
  else best

def bestLabel (assignments : List Nat) (node : Nat) : Nat :=
  let scores := labelScores graph assignments node
  let current := assignments.getD node 0
  let currentScore := (scores.lookup current).getD 0
  (scores.foldl (considerLabel stableId graph seed currentScore) (current, currentScore)).1

def relabel (s : List Nat × Bool) (node : Nat) : List Nat × Bool :=
  let best := bestLabel stableId graph seed s.1 node
  if best ≠ s.1.getD node 0 then (s.1.set node best, true) else s

def propagate : Nat → List Nat → List Nat
  | 0, assignments => assignments
  | limit + 1, assignments =>
    let (assignments, changed) := (seededNodeOrder stableId graph seed).foldl
      (relabel stableId graph seed) (assignments, false)
    if changed then propagate limit assignments else assignments

def weightedLabelPropagation (maxIterations : Nat) : List Nat :=
  propagate stableId graph seed maxIterations (List.range graph.nodes.length)

end Propagation

end CodeSystemGraph.Communities
