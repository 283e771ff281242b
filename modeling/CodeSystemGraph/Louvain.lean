import Mathlib.Algebra.Order.Ring.Rat
import CodeSystemGraph.Ieee
import CodeSystemGraph.Model
import CodeSystemGraph.Modularity
import CodeSystemGraph.Ordered

/-! The symmetrised graph of the community analysis and its local-moving phase, over the
arithmetic of the weights: the doubles of the program, or exact rationals. Maps from positions
are kept as entries in key order. Progress reports are left out. -/

namespace CodeSystemGraph.Communities
open Ieee Model Ordered Modularity

class Weight (W : Type) where
  zero : W
  two : W
  add : W → W → W
  sub : W → W → W
  mul : W → W → W
  div : W → W → W
  lt : W → W → Prop
  le : W → W → Prop
  epsilon : W
  abs : W → W
  ofConfidence : F32 → W
  decidableLT : DecidableRel lt
  decidableLE : DecidableRel le

export Weight (epsilon ofConfidence)

namespace Weight

variable {W : Type} [Weight W]

-- all of low priority: a type with operations of its own keeps them

instance (priority := low) instZero : Zero W := ⟨zero⟩

instance (priority := low) instOfNat : OfNat W 2 := ⟨two⟩

instance (priority := low) instAdd : Add W := ⟨add⟩

instance (priority := low) instSub : Sub W := ⟨sub⟩

instance (priority := low) instMul : Mul W := ⟨mul⟩

instance (priority := low) instDiv : Div W := ⟨div⟩

instance (priority := low) instLT : LT W := ⟨lt⟩

instance (priority := low) instLE : LE W := ⟨le⟩

instance (priority := low) instDecidableLT : DecidableLT W := decidableLT

instance (priority := low) instDecidableLE : DecidableLE W := decidableLE

end Weight

instance : Weight ℚ where
  zero := Zero.zero
  two := OfNat.ofNat 2
  add := Add.add
  sub := Sub.sub
  mul := Mul.mul
  div := Div.div
  lt := LT.lt
  le := LE.le
  epsilon := 1 / 1000000000000
  abs := fun x => |x|
  ofConfidence := fun confidence => confidence.value / (2 ^ Binary.scale ⟨8, 23⟩ : Nat)
  decidableLT := inferInstanceAs (DecidableLT ℚ)
  decidableLE := inferInstanceAs (DecidableLE ℚ)

theorem epsilon_rat : (epsilon : ℚ) = 1 / 1000000000000 := rfl

/-- A double, with the comparisons of IEEE 754. -/
structure Double where
  bits : F64
deriving DecidableEq

instance : Weight Double where
  zero := ⟨.zero⟩
  two := ⟨.ofNat 2⟩
  add x y := ⟨x.bits.add y.bits⟩
  sub x y := ⟨x.bits.add ⟨!y.bits.negative, y.bits.code⟩⟩
  mul x y := ⟨x.bits.mul y.bits⟩
  div x y := ⟨x.bits.div y.bits⟩
  lt x y := x.bits.lt y.bits
  le x y := x.bits.le y.bits
  epsilon := ⟨.div (.ofNat 1) (.ofNat 1000000000000)⟩
  abs x := ⟨⟨false, x.bits.code⟩⟩
  ofConfidence confidence := ⟨widen confidence⟩
  decidableLT _ _ := inferInstanceAs (Decidable (_ = true))
  decidableLE _ _ := inferInstanceAs (Decidable (_ = true))

def edgeKindIndex : EdgeKind → Nat
  | .contains => 0
  | .provides => 1
  | .consumes => 2
  | .callsRemote => 3
  | .publishes => 4
  | .subscribes => 5
  | .deliversTo => 6
  | .dependsOnPackage => 7
  | .dependsOnRepository => 8
  | .readsTable => 9
  | .writesTable => 10
  | .deploys => 11
  | .configures => 12
  | .documents => 13
  | .ownedBy => 14
  | .implementedBy => 15
  | .validates => 16
  | .changedIn => 17
  | .affects => 18
  | .precedes => 19
  | .reverts => 20
  | .compatibleWith => 21
  | .incompatibleWith => 22
  | .memberOf => 23
  | .manualLink => 24

abbrev AcceptedEdge (W : Type) := Link Nat W

structure WeightedGraph (W : Type) where
  nodes : List Node
  adjacency : List (List (Nat × W))
  acceptedEdges : List (AcceptedEdge W)
  weightedDegree : List W
  neighborCount : List Nat
  totalUndirectedWeight : W

variable {W : Type} [Weight W]

section Graph

def edgeOrder (edge : Edge) : NodeId ×ₗ NodeId ×ₗ Nat ×ₗ EdgeId ×ₗ F32 :=
  toLex (edge.source, toLex (edge.target, toLex (edgeKindIndex edge.kind,
    toLex (edge.id, edge.confidence))))

def indexNodes (nodes : List Node) : BTreeMap NodeId Nat :=
  nodes.zipIdx.foldl (fun index (node, position) => index.insert node.id position) ∅

/-- The part of the edge loop that decides whether an edge takes part. -/
def acceptEdge (minimumConfidence : F32) (weights : EdgeKind → W) (index : BTreeMap NodeId Nat)
    (edge : Edge) : Option (AcceptedEdge W) :=
  if edge.status ≠ .confirmed ∨ Binary.lt edge.confidence minimumConfidence then none
  else do
    let source ← index[edge.source]?
    let target ← index[edge.target]?
    let weight := weights edge.kind * ofConfidence edge.confidence
    if weight ≤ 0 then none else some ⟨source, target, weight⟩

def undirectedPair (edge : AcceptedEdge W) : Nat ×ₗ Nat :=
  toLex (if edge.source ≤ edge.target then (edge.source, edge.target)
    else (edge.target, edge.source))

def undirectedEdges (accepted : List (AcceptedEdge W)) : List ((Nat ×ₗ Nat) × W) :=
  accepted.foldl (fun undirected edge =>
    upsert (undirectedPair edge) 0 (· + edge.weight) undirected) []

structure Vectors (W : Type) where
  adjacency : List (List (Nat × W))
  weightedDegree : List W
  neighbors : List (BTreeSet Nat)
  totalUndirectedWeight : W

def Vectors.new (count : Nat) : Vectors W :=
  ⟨List.replicate count [], List.replicate count 0, List.replicate count ∅, 0⟩

def insertEntry (position : Nat) (weight : W) (entries : List (Nat × W)) : List (Nat × W) :=
  upsert position weight (fun _ => weight) entries

def connect (s : Vectors W) (entry : (Nat ×ₗ Nat) × W) : Vectors W :=
  let (source, target) := ofLex entry.1
  let weight := entry.2
  if source = target then
    { adjacency := s.adjacency.modify source (insertEntry target weight)
      weightedDegree := s.weightedDegree.modify source (· + 2 * weight)
      neighbors := s.neighbors
      totalUndirectedWeight := s.totalUndirectedWeight + weight }
  else
    { adjacency := (s.adjacency.modify source (insertEntry target weight)).modify target
        (insertEntry source weight)
      weightedDegree := (s.weightedDegree.modify source (· + weight)).modify target (· + weight)
      neighbors := (s.neighbors.modify source (·.insert target)).modify target (·.insert source)
      totalUndirectedWeight := s.totalUndirectedWeight + weight }

/-- The graph of the selected nodes. Only the threshold of the configuration is read here. -/
def buildGraph (nodes : List Node) (edges : List Edge) (minimumConfidence : F32)
    (weights : EdgeKind → W) (selected : BTreeSet NodeId) : WeightedGraph W :=
  let graphNodes := sortBy Node.id (nodes.filter fun node => node.id ∈ selected)
  let index := indexNodes graphNodes
  let accepted := (sortBy edgeOrder edges).filterMap (acceptEdge minimumConfidence weights index)
  let vectors := (undirectedEdges accepted).foldl connect (.new graphNodes.length)
  { nodes := graphNodes
    adjacency := vectors.adjacency
    acceptedEdges := accepted
    weightedDegree := vectors.weightedDegree
    neighborCount := vectors.neighbors.map (·.size)
    totalUndirectedWeight := vectors.totalUndirectedWeight }

end Graph

section Moving

variable (stableId : String → String → String) (graph : WeightedGraph W) (seed : UInt64)
  (resolution : W)

def seededKey (value : String) : String :=
  stableId "community-order" (toString seed ++ ":" ++ value)

def seededLabelKey (label : Nat) : String :=
  match graph.nodes[label]? with
  | none => stableId "community-order" (toString seed ++ ":empty:" ++ toString label)
  | some node => seededKey stableId seed node.id

def nodeId (position : Nat) : NodeId := (graph.nodes[position]?.map Node.id).getD ""

def seededNodeOrder : List Nat :=
  sortBy (fun position => toLex (seededKey stableId seed (nodeId graph position),
    nodeId graph position)) (List.range graph.nodes.length)

structure Partition (W : Type) where
  assignments : List Nat
  communityDegree : List W
  members : List Nat
  empty : BTreeSet Nat

def Partition.start : Partition W where
  assignments := List.range graph.nodes.length
  communityDegree := graph.weightedDegree
  members := List.replicate graph.nodes.length 1
  empty := ∅

def Partition.community (s : Partition W) (node : Nat) : Nat := s.assignments.getD node 0

def neighborLinks (s : Partition W) (node : Nat) : List (Nat × W) :=
  (graph.adjacency.getD node []).foldl (fun links (neighbor, weight) =>
    if neighbor ≠ node then upsert (s.community neighbor) 0 (· + weight) links else links)
    [(s.community node, 0)]

def candidateLinks (s : Partition W) (node : Nat) : List (Nat × W) :=
  match s.empty.toList.head? with
  | some label => upsert label 0 id (neighborLinks graph s node)
  | none => neighborLinks graph s node

def moveGain (s : Partition W) (node : Nat) (candidate : Nat) (links : W) : W :=
  let current := s.community node
  let degree := graph.weightedDegree.getD node 0
  let currentLinks := ((candidateLinks graph s node).lookup current).getD 0
  let sourceDegree := s.communityDegree.getD current 0 - degree
  let total := graph.totalUndirectedWeight
  (links - currentLinks) / total -
    resolution * degree * (s.communityDegree.getD candidate 0 - sourceDegree) / (2 * total * total)

def considerMove (s : Partition W) (node : Nat) (best : Nat × W) (entry : Nat × W) : Nat × W :=
  if entry.1 = s.community node then best
  else
    let gain := moveGain graph resolution s node entry.1 entry.2
    if best.2 + epsilon < gain ∨ (Weight.abs (gain - best.2) ≤ epsilon ∧ epsilon < gain ∧
        seededLabelKey stableId graph seed entry.1 < seededLabelKey stableId graph seed best.1) then
      (entry.1, gain)
    else best

def bestMove (s : Partition W) (node : Nat) : Nat × W :=
  (candidateLinks graph s node).foldl (considerMove stableId graph seed resolution s node)
    (s.community node, 0)

def Moves (s : Partition W) (node : Nat) : Prop :=
  (bestMove stableId graph seed resolution s node).1 ≠ s.community node ∧
    epsilon < (bestMove stableId graph seed resolution s node).2

instance (s : Partition W) (node : Nat) : Decidable (Moves stableId graph seed resolution s node) :=
  inferInstanceAs (Decidable (_ ∧ _))

def Partition.move (s : Partition W) (node best : Nat) : Partition W :=
  let current := s.community node
  let degree := graph.weightedDegree.getD node 0
  let members := (s.members.modify current (· - 1)).modify best (· + 1)
  { assignments := s.assignments.set node best
    communityDegree := (s.communityDegree.modify current (· - degree)).modify best (· + degree)
    members := members
    empty := (if members.getD current 0 = 0 then s.empty.insert current else s.empty).erase best }

def visitNode (s : Partition W) (node : Nat) : Partition W :=
  if Moves stableId graph seed resolution s node then
    s.move graph node (bestMove stableId graph seed resolution s node).1
  else s

/-- One round over the nodes, with whether a node moved. -/
def sweep (s : Partition W) : Partition W × Bool :=
  (seededNodeOrder stableId graph seed).foldl (fun (s, changed) node =>
    (visitNode stableId graph seed resolution s node,
      changed || decide (Moves stableId graph seed resolution s node))) (s, false)

def rounds : Nat → Partition W → Partition W
  | 0, s => s
  | limit + 1, s =>
    let (s', changed) := sweep stableId graph seed resolution s
    if changed then rounds limit s' else s'

def louvain (maxIterations : Nat) : List Nat :=
  if graph.totalUndirectedWeight ≤ epsilon then List.range graph.nodes.length
  else (rounds stableId graph seed resolution maxIterations (.start graph)).assignments

inductive Reached : Partition W → Prop
  | start : Reached (.start graph)
  | visit {s : Partition W} {node : Nat} (reached : Reached s)
      (mem : node ∈ seededNodeOrder stableId graph seed) :
      Reached (visitNode stableId graph seed resolution s node)

variable {stableId graph seed resolution}

theorem sweep_reached {s : Partition W}
    (reached : Reached stableId graph seed resolution s) :
    Reached stableId graph seed resolution (sweep stableId graph seed resolution s).1 := by
  have listed : ∀ (nodes : List Nat) (turn : Partition W × Bool),
      (∀ node ∈ nodes, node ∈ seededNodeOrder stableId graph seed) →
      Reached stableId graph seed resolution turn.1 →
      Reached stableId graph seed resolution (nodes.foldl (fun turn node =>
        (visitNode stableId graph seed resolution turn.1 node,
          turn.2 || decide (Moves stableId graph seed resolution turn.1 node))) turn).1 := by
    intro nodes
    induction nodes with
    | nil => intro turn _ reached; exact reached
    | cons node nodes ih =>
      intro turn known reached
      obtain ⟨here, known⟩ := List.forall_mem_cons.1 known
      exact ih _ known (reached.visit here)
  exact listed _ _ (fun node mem => mem) reached

theorem rounds_reached (limit : Nat) : ∀ {s : Partition W}, Reached stableId graph seed resolution s →
    Reached stableId graph seed resolution (rounds stableId graph seed resolution limit s) := by
  induction limit with
  | zero => intro s reached; exact reached
  | succ limit ih =>
    intro s reached
    have swept := sweep_reached reached
    unfold rounds
    dsimp only
    split
    · exact ih swept
    · exact swept

theorem Reached.length {s : Partition W} (reached : Reached stableId graph seed resolution s) :
    s.assignments.length = graph.nodes.length := by
  induction reached with
  | start => exact List.length_range
  | visit reached mem ih =>
    rw [visitNode]
    split
    · exact List.length_set.trans ih
    · exact ih

end Moving

end CodeSystemGraph.Communities
