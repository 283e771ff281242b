import CodeSystemGraph.ImpactContext
import CodeSystemGraph.Iterate
import Mathlib.Order.BoundedOrder.Lattice

/-! The bounded breadth-first propagation of `traverse`. The `while` loop is
`turn`, the inner `for` loop is `visitEntries`, and one entry is `visitEntry`,
whose outcomes are listed once in `Visited`. The loop terminates because a path
is extended only below `max_depth`, so `traverse` is total. Counters that the
source adds with saturation are natural numbers: they are bounded by the number
of edges examined, which the validated `edge_limit` bounds. -/

namespace CodeSystemGraph.Impact
open Ieee Model Ordered Iterate

inductive ImpactClassification
  | directlyDependent | transitivelyAffected | possiblyAffected | unknownDueToCoverage
deriving DecidableEq

inductive PathCertainty
  | confirmed | possible | unknown
deriving DecidableEq

namespace PathCertainty

def rank : PathCertainty → Nat
  | confirmed => 0
  | possible => 1
  | unknown => 2

instance : LinearOrder PathCertainty := LinearOrder.lift' rank fun a b h => by
  cases a <;> cases b <;> first | rfl | exact absurd h (by decide)

instance : OrderBot PathCertainty where
  bot := confirmed
  bot_le a := Nat.zero_le (rank a)

end PathCertainty

structure ImpactPathStep where
  fromNode : NodeId
  toNode : NodeId
  edgeId : EdgeId
  kind : EdgeKind
  reversed : Bool
  confidence : F32
  status : EpistemicStatus
deriving DecidableEq

structure ImpactItem where
  node : Node
  classification : ImpactClassification
  depth : Nat
  path : List ImpactPathStep
  evidence : List EvidenceId
deriving DecidableEq

structure TruncationInfo where
  bound : String
  limit : Nat
  observed : Nat
  explanation : String
deriving DecidableEq

structure TraversalState where
  nodeId : NodeId
  certainty : PathCertainty
  path : List ImpactPathStep
  evidence : BTreeSet EvidenceId

structure Adjacency where
  neighbor : NodeId
  edge : Edge
  reversed : Bool
deriving DecidableEq

def Adjacency.key (entry : Adjacency) : NodeId ×ₗ EdgeId ×ₗ Bool :=
  toLex (entry.neighbor, toLex (entry.edge.id, entry.reversed))

abbrev AdjacencyIndex := BTreeMap NodeId (List Adjacency)

def pushEdge (direction : ImpactDirection) (adjacency : AdjacencyIndex) (edge : Edge) :
    AdjacencyIndex :=
  let adjacency :=
    if direction = .downstream ∨ direction = .both then
      pushTo adjacency edge.source ⟨edge.target, edge, false⟩
    else adjacency
  if direction = .upstream ∨ direction = .both then
    pushTo adjacency edge.target ⟨edge.source, edge, true⟩
  else adjacency

def buildAdjacency (edges : List Edge) (direction : ImpactDirection) : AdjacencyIndex :=
  (edges.foldl (pushEdge direction) ∅).map fun _ entries => sortBy Adjacency.key entries

def isPropagating (kind : EdgeKind) : Bool :=
  match kind with
  | .validates | .ownedBy | .documents | .memberOf | .precedes | .reverts | .compatibleWith => false
  | _ => true

def isStructuralDirectionPivot (path : List ImpactPathStep) (next : Adjacency) : Bool :=
  path.getLast?.any fun previous =>
    previous.kind == .contains && next.edge.kind == .contains && previous.reversed != next.reversed

def certaintyOf (status : EpistemicStatus) (confidence confirmedConfidence : F32) :
    PathCertainty :=
  match status with
  | .confirmed => if confirmedConfidence.le confidence then .confirmed else .possible
  | .inferred | .ambiguous => .possible
  | .stale | .incomplete => .unknown

def edgeCertainty (edge : Edge) (confirmedConfidence : F32) : PathCertainty :=
  certaintyOf edge.status edge.confidence confirmedConfidence

def classify : PathCertainty → Nat → ImpactClassification
  | .confirmed, 1 => .directlyDependent
  | .confirmed, _ => .transitivelyAffected
  | .possible, _ => .possiblyAffected
  | .unknown, _ => .unknownDueToCoverage

/-- The variables of `traverse`. -/
structure Search where
  queue : List TraversalState
  best : BTreeMap NodeId (PathCertainty × Nat)
  items : BTreeMap NodeId ImpactItem
  examinedEdges : Nat
  possibleEdges : Nat
  unknownEdges : Nat
  truncation : Option TruncationInfo

namespace Search

def examine (s : Search) : Search := { s with examinedEdges := s.examinedEdges + 1 }

def count (s : Search) : PathCertainty → Search
  | .confirmed => s
  | .possible => { s with possibleEdges := s.possibleEdges + 1 }
  | .unknown => { s with unknownEdges := s.unknownEdges + 1 }

/-- `get_or_insert_with`: the first bound that was hit stays. -/
def truncate (s : Search) (info : TruncationInfo) : Search :=
  { s with truncation := some (s.truncation.getD info) }

end Search

def stepAlong (node : NodeId) (entry : Adjacency) : ImpactPathStep where
  fromNode := node
  toNode := entry.neighbor
  edgeId := entry.edge.id
  kind := entry.edge.kind
  reversed := entry.reversed
  confidence := entry.edge.confidence
  status := entry.edge.status

/-- The state reached over an entry. -/
def TraversalState.follow (state : TraversalState) (entry : Adjacency) (certainty : PathCertainty) :
    TraversalState where
  nodeId := entry.neighbor
  certainty := certainty
  path := state.path ++ [stepAlong state.nodeId entry]
  evidence := state.evidence.insertMany entry.edge.evidence

def Search.record (s : Search) (next : TraversalState) (node : Node) : Search :=
  { s with
    best := s.best.insert next.nodeId (next.certainty, next.path.length)
    items := s.items.insert next.nodeId
      { node := node
        classification := classify next.certainty next.path.length
        depth := next.path.length
        path := next.path
        evidence := next.evidence.toList }
    queue := s.queue ++ [next] }

section Traverse

variable (request : ImpactRequest) (context : ImpactContext) (nodes : NodeIndex) (target : Node)

def follows (path : List ImpactPathStep) (entry : Adjacency) : Bool :=
  isPropagating entry.edge.kind && !isStructuralDirectionPivot path entry

def revisits (path : List ImpactPathStep) (entry : Adjacency) : Bool :=
  entry.neighbor == target.id ||
    path.any fun step => step.fromNode == entry.neighbor || step.toNode == entry.neighbor

/-- An existing label that is lexicographically no worse. -/
def dominated (s : Search) (next : TraversalState) : Bool :=
  s.best[next.nodeId]?.any fun existing =>
    toLex existing ≤ toLex (next.certainty, next.path.length)

def edgeLimitInfo (observed : Nat) : TruncationInfo where
  bound := "edge_limit"
  limit := request.options.edgeLimit
  observed := observed
  explanation := "edge examination limit stopped impact propagation"

def nodeLimitInfo (observed : Nat) : TruncationInfo where
  bound := "node_limit"
  limit := request.options.nodeLimit
  observed := observed
  explanation := "distinct-node limit stopped impact propagation"

def maxDepthInfo (observed : Nat) : TruncationInfo where
  bound := "max_depth"
  limit := request.options.maxDepth
  observed := observed
  explanation := "additional graph relationships exist beyond maximum depth"

def reach (state : TraversalState) (entry : Adjacency) : TraversalState :=
  state.follow entry
    (max state.certainty (edgeCertainty entry.edge request.options.confirmedConfidence))

def counted (s : Search) (entry : Adjacency) : Search :=
  s.examine.count (edgeCertainty entry.edge request.options.confirmedConfidence)

/-- One round of the inner loop: `again` is `continue`, `leave` is `break`. -/
def visitEntry (state : TraversalState) (entry : Adjacency) (s : Search) :
    Except ImpactError (Turn Search Search) :=
  if !follows state.path entry then .ok (.again s)
  else if request.options.edgeLimit < s.examine.examinedEdges then
    .ok (.leave (s.examine.truncate (edgeLimitInfo request s.examine.examinedEdges)))
  else if revisits target state.path entry then .ok (.again s.examine)
  else if dominated s (reach request state entry) then .ok (.again (counted request s entry))
  else if entry.neighbor ∉ s.items ∧ request.options.nodeLimit ≤ s.items.size then
    .ok (.leave ((counted request s entry).truncate (nodeLimitInfo request (s.items.size + 1))))
  else
    match nodes[entry.neighbor]? with
    | none => .error (.danglingEdge entry.edge.id entry.neighbor)
    | some node => .ok (.again ((counted request s entry).record (reach request state entry) node))

def visitEntries (state : TraversalState) (s : Search) :
    List Adjacency → Except ImpactError Search
  | [] => .ok s
  | entry :: rest =>
    match visitEntry request nodes target state entry s with
    | .error e => .error e
    | .ok (.leave s') => .ok s'
    | .ok (.again s') => visitEntries state s' rest

def neighborsOf (node : NodeId) : List Adjacency :=
  (buildAdjacency context.edges request.direction)[node]?.getD []

def Search.stopped (s : Search) : Bool :=
  s.truncation.any fun value => value.bound == "edge_limit" || value.bound == "node_limit"

/-- Whether a state at the depth bound still has somewhere to go. -/
def continues (state : TraversalState) (neighbors : List Adjacency) : Bool :=
  neighbors.any fun entry =>
    follows state.path entry && !state.path.any fun step => step.fromNode == entry.neighbor

def turn (s : Search) : Turn Search (Except ImpactError Search) :=
  match s.queue with
  | [] => .leave (.ok s)
  | state :: queue =>
    let s := { s with queue := queue }
    let neighbors := neighborsOf request context state.nodeId
    if state.path.length = request.options.maxDepth then
      if continues state neighbors then
        .again (s.truncate (maxDepthInfo request state.path.length))
      else .again s
    else
      match visitEntries request nodes target state s neighbors with
      | .error e => .leave (.error e)
      | .ok s' => if s'.stopped then .leave (.ok s') else .again s'

/-- Everything one round of the inner loop can do. -/
inductive Visited (state : TraversalState) (entry : Adjacency) (s : Search) :
    Turn Search Search → Prop
  | skipped (blocked : follows state.path entry = false) : Visited state entry s (.again s)
  | edgeLimit (info : TruncationInfo) : Visited state entry s (.leave (s.examine.truncate info))
  | revisited (allowed : follows state.path entry = true)
      (seen : revisits target state.path entry = true) : Visited state entry s (.again s.examine)
  | covered (allowed : follows state.path entry = true)
      (fresh : revisits target state.path entry = false)
      (better : dominated s (reach request state entry) = true) :
      Visited state entry s (.again (counted request s entry))
  | nodeLimit (info : TruncationInfo) :
      Visited state entry s (.leave ((counted request s entry).truncate info))
  | admitted (allowed : follows state.path entry = true)
      (fresh : revisits target state.path entry = false)
      (worse : dominated s (reach request state entry) = false)
      (node : Node) (known : nodes[entry.neighbor]? = some node) :
      Visited state entry s
        (.again ((counted request s entry).record (reach request state entry) node))

/-- Everything one turn of the outer loop can do. -/
inductive Turned (s : Search) : Turn Search (Except ImpactError Search) → Prop
  | finished (empty : s.queue = []) : Turned s (.leave (.ok s))
  | beyond (state : TraversalState) (queue : List TraversalState)
      (popped : s.queue = state :: queue)
      (deep : state.path.length = request.options.maxDepth) (info : TruncationInfo) :
      Turned s (.again ({ s with queue := queue }.truncate info))
  | bottom (state : TraversalState) (queue : List TraversalState)
      (popped : s.queue = state :: queue)
      (deep : state.path.length = request.options.maxDepth)
      (done : continues state (neighborsOf request context state.nodeId) = false) :
      Turned s (.again { s with queue := queue })
  | failed (state : TraversalState) (queue : List TraversalState)
      (popped : s.queue = state :: queue) (e : ImpactError)
      (visit : visitEntries request nodes target state { s with queue := queue }
        (neighborsOf request context state.nodeId) = .error e) :
      Turned s (.leave (.error e))
  | stopped (state : TraversalState) (queue : List TraversalState)
      (popped : s.queue = state :: queue) (s' : Search)
      (visit : visitEntries request nodes target state { s with queue := queue }
        (neighborsOf request context state.nodeId) = .ok s')
      (bound : s'.stopped = true) (shallow : state.path.length ≠ request.options.maxDepth) :
      Turned s (.leave (.ok s'))
  | expanded (state : TraversalState) (queue : List TraversalState)
      (popped : s.queue = state :: queue)
      (shallow : state.path.length ≠ request.options.maxDepth) (s' : Search)
      (visit : visitEntries request nodes target state { s with queue := queue }
        (neighborsOf request context state.nodeId) = .ok s')
      (free : s'.stopped = false) : Turned s (.again s')

variable {request context nodes target}

theorem turn_turned (s : Search) :
    Turned request context nodes target s (turn request context nodes target s) := by
  unfold turn
  split
  · next empty => exact .finished empty
  · next state queue popped =>
    dsimp only
    split
    · next deep =>
      split
      · exact .beyond state queue popped deep _
      · next done => exact .bottom state queue popped deep (by simpa using done)
    · next shallow =>
      split
      · next e visit => exact .failed state queue popped e visit
      · next s' visit =>
        split
        · next bound => exact .stopped state queue popped s' visit bound shallow
        · next free => exact .expanded state queue popped shallow s' visit (by simpa using free)

theorem visitEntry_visited {state : TraversalState} {entry : Adjacency} {s : Search}
    {t : Turn Search Search} (h : visitEntry request nodes target state entry s = .ok t) :
    Visited request nodes target state entry s t := by
  unfold visitEntry at h
  split at h
  · next blocked =>
    obtain rfl := Except.ok.inj h
    exact .skipped (by simpa using blocked)
  · next allowed =>
    have allowed : follows state.path entry = true := by simpa using allowed
    split at h
    · obtain rfl := Except.ok.inj h
      exact .edgeLimit _
    · split at h
      · next seen =>
        obtain rfl := Except.ok.inj h
        exact .revisited allowed seen
      · next fresh =>
        have fresh : revisits target state.path entry = false := by simpa using fresh
        split at h
        · next better =>
          obtain rfl := Except.ok.inj h
          exact .covered allowed fresh better
        · next worse =>
          split at h
          · obtain rfl := Except.ok.inj h
            exact .nodeLimit _
          · split at h
            · cases h
            · next node known =>
              obtain rfl := Except.ok.inj h
              exact .admitted allowed fresh (by simpa using worse) node known

theorem visitEntries_rule {state : TraversalState} (assertion : Search → Prop)
    (keep : ∀ entry s s', assertion s → Visited request nodes target state entry s (.again s') →
      assertion s')
    (stop : ∀ entry s s', assertion s → Visited request nodes target state entry s (.leave s') →
      assertion s')
    (entries : List Adjacency) (s s' : Search) (start : assertion s)
    (result : visitEntries request nodes target state s entries = .ok s') : assertion s' := by
  induction entries generalizing s with
  | nil =>
    obtain rfl := Except.ok.inj result
    exact start
  | cons entry rest ih =>
    unfold visitEntries at result
    split at result
    · cases result
    · next left visit =>
      obtain rfl := Except.ok.inj result
      exact stop entry s _ start (visitEntry_visited visit)
    · next s₁ visit => exact ih s₁ (keep entry s s₁ start (visitEntry_visited visit)) result

@[simp] theorem Search.count_queue (s : Search) (c : PathCertainty) :
    (s.count c).queue = s.queue := by
  cases c <;> rfl

@[simp] theorem counted_queue (s : Search) (entry : Adjacency) :
    (counted request s entry).queue = s.queue := by
  simp [counted, Search.examine]

theorem visited_queue {state : TraversalState} {entry : Adjacency} {s s' : Search}
    {t : Turn Search Search} (h : Visited request nodes target state entry s t)
    (ht : t = .again s' ∨ t = .leave s') :
    ∃ pushed, s'.queue = s.queue ++ pushed ∧ pushed.length ≤ 1 ∧
      ∀ next ∈ pushed, next.path.length = state.path.length + 1 := by
  cases h with
  | skipped _ =>
    obtain rfl : s = s' := by simpa using ht
    exact ⟨[], by simp⟩
  | edgeLimit info =>
    obtain rfl : s.examine.truncate info = s' := by simpa using ht
    exact ⟨[], by simp [Search.truncate, Search.examine]⟩
  | revisited _ _ =>
    obtain rfl : s.examine = s' := by simpa using ht
    exact ⟨[], by simp [Search.examine]⟩
  | covered _ _ _ =>
    obtain rfl : counted request s entry = s' := by simpa using ht
    exact ⟨[], by simp⟩
  | nodeLimit info =>
    obtain rfl : (counted request s entry).truncate info = s' := by simpa using ht
    exact ⟨[], by simp [Search.truncate]⟩
  | admitted _ _ _ node _ =>
    obtain rfl : (counted request s entry).record (reach request state entry) node = s' := by
      simpa using ht
    exact ⟨[reach request state entry], by simp [Search.record],
      by simp, by simp [reach, TraversalState.follow]⟩

theorem visitEntries_queue {state : TraversalState} (entries : List Adjacency) (s s' : Search)
    (result : visitEntries request nodes target state s entries = .ok s') :
    ∃ pushed, s'.queue = s.queue ++ pushed ∧ pushed.length ≤ entries.length ∧
      ∀ next ∈ pushed, next.path.length = state.path.length + 1 := by
  induction entries generalizing s with
  | nil =>
    obtain rfl := Except.ok.inj result
    exact ⟨[], by simp⟩
  | cons entry rest ih =>
    unfold visitEntries at result
    split at result
    · cases result
    · next left visit =>
      obtain rfl := Except.ok.inj result
      obtain ⟨pushed, queue, few, size⟩ := visited_queue (visitEntry_visited visit) (.inr rfl)
      exact ⟨pushed, queue, by simp only [List.length_cons]; omega, size⟩
    · next s₁ visit =>
      obtain ⟨first, queue, few, size⟩ := visited_queue (visitEntry_visited visit) (.inl rfl)
      obtain ⟨more, queue', few', size'⟩ := ih s₁ result
      refine ⟨first ++ more, by simp [queue', queue], ?_, ?_⟩
      · simp only [List.length_append, List.length_cons]
        omega
      · intro next hn
        rcases List.mem_append.mp hn with hn | hn
        · exact size next hn
        · exact size' next hn

@[simp] theorem counted_best (s : Search) (entry : Adjacency) :
    (counted request s entry).best = s.best := by
  unfold counted
  cases edgeCertainty entry.edge request.options.confirmedConfidence <;> rfl

@[simp] theorem counted_items (s : Search) (entry : Adjacency) :
    (counted request s entry).items = s.items := by
  unfold counted
  cases edgeCertainty entry.edge request.options.confirmedConfidence <;> rfl

theorem counted_truncation (s : Search) (entry : Adjacency) :
    (counted request s entry).truncation = s.truncation := by
  unfold counted
  cases edgeCertainty entry.edge request.options.confirmedConfidence <;> rfl

/-- Going on leaves the truncation as it is; only a bound breaks the inner loop. -/
theorem visited_again_truncation {state : TraversalState} {entry : Adjacency} {s s' : Search}
    (h : Visited request nodes target state entry s (.again s')) :
    s'.truncation = s.truncation := by
  cases h with
  | skipped _ => rfl
  | revisited _ _ => rfl
  | covered _ _ _ => exact counted_truncation s entry
  | admitted _ _ _ _ _ => exact counted_truncation s entry

theorem visited_leave_truncation {state : TraversalState} {entry : Adjacency} {s s' : Search}
    (h : Visited request nodes target state entry s (.leave s')) : s'.truncation ≠ none := by
  cases h with
  | edgeLimit info => simp [Search.truncate]
  | nodeLimit info => simp [Search.truncate]

/-- The entries that one edge contributes to the list of a node. -/
def entriesAt (direction : ImpactDirection) (node : NodeId) (edge : Edge) : List Adjacency :=
  (if (direction = .downstream ∨ direction = .both) ∧ edge.source = node then
    [⟨edge.target, edge, false⟩] else []) ++
  (if (direction = .upstream ∨ direction = .both) ∧ edge.target = node then
    [⟨edge.source, edge, true⟩] else [])

theorem pushEdge_getD (direction : ImpactDirection) (adjacency : AdjacencyIndex) (edge : Edge)
    (node : NodeId) :
    (pushEdge direction adjacency edge)[node]?.getD [] =
      adjacency[node]?.getD [] ++ entriesAt direction node edge := by
  unfold pushEdge entriesAt
  cases direction <;> simp [pushTo_getD]

theorem foldl_pushEdge_getD (direction : ImpactDirection) (edges : List Edge) (node : NodeId) :
    ∀ adjacency : AdjacencyIndex,
      (edges.foldl (pushEdge direction) adjacency)[node]?.getD [] =
        adjacency[node]?.getD [] ++ edges.flatMap (entriesAt direction node) := by
  induction edges with
  | nil => intro adjacency; simp
  | cons edge rest ih => intro adjacency; simp [ih, pushEdge_getD]

theorem neighborsOf_eq (node : NodeId) :
    neighborsOf request context node =
      sortBy Adjacency.key (context.edges.flatMap (entriesAt request.direction node)) := by
  have built := foldl_pushEdge_getD request.direction context.edges node ∅
  rw [Std.ExtTreeMap.getElem?_empty, Option.getD_none, List.nil_append] at built
  rw [neighborsOf, buildAdjacency, Std.ExtTreeMap.getElem?_map, ← built]
  cases (context.edges.foldl (pushEdge request.direction) ∅)[node]? <;> rfl

theorem entriesAt_keys_nodup (direction : ImpactDirection) (node : NodeId) {edges : List Edge}
    (ids : (edges.map Edge.id).Nodup) :
    ((edges.flatMap (entriesAt direction node)).map Adjacency.key).Nodup := by
  have edgeOf : ∀ edge, ∀ entry ∈ entriesAt direction node edge, entry.edge = edge := by
    intro edge entry h
    unfold entriesAt at h
    rcases List.mem_append.mp h with h | h <;> split at h <;> simp_all
  refine List.pairwise_map.mpr (List.pairwise_flatMap.mpr ⟨fun edge _ => ?_, ?_⟩)
  · unfold entriesAt
    split <;> split <;> simp [Adjacency.key]
  · refine (List.pairwise_map.mp ids).imp fun {a b} differ x hx y hy same => differ ?_
    rw [← edgeOf a x hx, ← edgeOf b y hy]
    have inner := congrArg (fun k => (ofLex (ofLex k).2).1) same
    exact inner

theorem neighborsOf_length (node : NodeId) :
    (neighborsOf request context node).length ≤ 2 * context.edges.length := by
  rw [neighborsOf_eq, (sortBy_perm _ _).length_eq]
  induction context.edges with
  | nil => simp
  | cons edge rest ih =>
    have few : (entriesAt request.direction node edge).length ≤ 2 := by
      unfold entriesAt
      split <;> split <;> simp
    simp only [List.flatMap_cons, List.length_append, List.length_cons]
    omega

variable (request context nodes target)

def depthBounded (s : Search) : Prop :=
  ∀ state ∈ s.queue, state.path.length ≤ request.options.maxDepth

def remaining (s : Search) : Nat :=
  totalWorth (fun state : TraversalState => state.path.length) (2 * context.edges.length)
    request.options.maxDepth s.queue

variable {request context nodes target}

theorem turn_terminates : Terminates (turn request context nodes target) (depthBounded request)
    (remaining request context) := by
  refine terminates_of_replace _ _ _ fun s s' bounded h => ?_
  cases h ▸ @turn_turned request context nodes target s with
  | beyond state queue popped deep info =>
    exact ⟨state, queue, [], popped ▸ .refl _, by simp [Search.truncate]⟩
  | bottom state queue popped deep done => exact ⟨state, queue, [], popped ▸ .refl _, by simp⟩
  | expanded state queue popped shallow within visit =>
    obtain ⟨pushed, queue', few, size⟩ := visitEntries_queue _ _ _ visit
    refine ⟨state, queue, pushed, popped ▸ .refl _, queue' ▸ .refl _,
      few.trans (neighborsOf_length _), size, fun full => ?_⟩
    have top := bounded state (popped ▸ List.mem_cons_self)
    omega

variable (request context nodes target)

def start : Search where
  queue := [⟨target.id, .confirmed, [], ∅⟩]
  best := (∅ : BTreeMap NodeId (PathCertainty × Nat)).insert target.id (.confirmed, 0)
  items := ∅
  examinedEdges := 0
  possibleEdges := 0
  unknownEdges := 0
  truncation := none

theorem start_depthBounded : depthBounded request (start target) := by
  simp [depthBounded, start]

structure Traversal where
  items : List ImpactItem
  truncation : Option TruncationInfo
  possibleEdges : Nat
  unknownEdges : Nat

def traverse : Except ImpactError Traversal :=
  match loop (@turn_terminates request context nodes target)
      (start target) (start_depthBounded request target) with
  | .error e => .error e
  | .ok s => .ok ⟨values s.items, s.truncation, s.possibleEdges, s.unknownEdges⟩

end Traverse

end CodeSystemGraph.Impact
