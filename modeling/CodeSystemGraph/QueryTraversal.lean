import Mathlib.Data.List.Perm.Basic
import CodeSystemGraph.QueryGraph
import CodeSystemGraph.Iterate

/-! The bounded searches of `traverse`. Both expansion loops of the source have
the same body, `visitAdjacent`; they differ in the collection that receives the
new states. The clock is an oracle: `expired n` is the answer of the `n`-th look
at it. Both searches terminate because a state is extended only below
`max_depth`. -/

namespace CodeSystemGraph.Query
open Ieee Model Ordered Text Iterate

structure PathState (W : Type) where
  nodes : List NodeId
  steps : List Adjacent
  totalWeight : W
  crossRepoHops : Nat

inductive PathSegmentScope
  | sameRepository | crossRepository
deriving DecidableEq

structure PathSegment (W : Type) where
  trace : TraceSegment
  scope : PathSegmentScope
  reversed : Bool
  weight : W

structure TraversalPath (W : Type) where
  segments : List (PathSegment W)
  totalWeight : W
  crossRepoHops : Nat

structure TraversalLimits where
  maxDepth : Nat
  maxCrossRepoHops : Nat
  nodeLimit : Nat
  edgeLimit : Nat
  timeoutMs : Nat
  maxPaths : Nat

structure TraversalReport (W : Type) where
  paths : List (TraversalPath W)
  frontier : List Node
  candidateUnresolvedEdges : List Edge
  coverageGaps : List String
  truncated : Bool
  visitedNodes : Nat
  examinedEdges : Nat
  limits : TraversalLimits

structure TraversalRuntime where
  polls : Nat
  observedNodes : BTreeSet NodeId
  examinedEdges : Nat
  candidateEdges : BTreeMap EdgeId Edge
  frontierDepth : Nat
  frontier : BTreeSet NodeId
  coverageGaps : BTreeSet String
  truncated : Bool

namespace TraversalRuntime

def new (request : TraversalRequest) : TraversalRuntime where
  polls := 0
  observedNodes := (∅ : BTreeSet NodeId).insert request.start
  examinedEdges := 0
  candidateEdges := ∅
  frontierDepth := 0
  frontier := (∅ : BTreeSet NodeId).insert request.start
  coverageGaps := ∅
  truncated := false

def truncate (runtime : TraversalRuntime) (gap : String) : TraversalRuntime :=
  { runtime with truncated := true, coverageGaps := runtime.coverageGaps.insert gap }

def timedOut (expired : Nat → Bool) (runtime : TraversalRuntime) : Bool × TraversalRuntime :=
  let looked := { runtime with polls := runtime.polls + 1 }
  if expired runtime.polls then (true, looked.truncate "Traversal stopped at the timeout bound.")
  else (false, looked)

def examineEdge (runtime : TraversalRuntime) (edgeLimit : Nat) : Bool × TraversalRuntime :=
  if edgeLimit ≤ runtime.examinedEdges then
    (false, runtime.truncate "Traversal stopped at the edge limit.")
  else (true, { runtime with examinedEdges := runtime.examinedEdges + 1 })

def observeNode (runtime : TraversalRuntime) (nodeId : NodeId) (nodeLimit : Nat) :
    Bool × TraversalRuntime :=
  if nodeId ∈ runtime.observedNodes then (true, runtime)
  else if nodeLimit ≤ runtime.observedNodes.size then
    (false, runtime.truncate "Traversal stopped at the node limit.")
  else (true, { runtime with observedNodes := runtime.observedNodes.insert nodeId })

def recordFrontier (runtime : TraversalRuntime) (nodeId : NodeId) (depth : Nat) :
    TraversalRuntime :=
  if runtime.frontierDepth < depth then
    { runtime with frontierDepth := depth, frontier := (∅ : BTreeSet NodeId).insert nodeId }
  else if depth = runtime.frontierDepth then
    { runtime with frontier := runtime.frontier.insert nodeId }
  else runtime

def recordCandidate (runtime : TraversalRuntime) (edge : Edge) : TraversalRuntime :=
  { runtime with candidateEdges := runtime.candidateEdges.insertIfNew edge.id edge }

def recordDepthBound (runtime : TraversalRuntime) : TraversalRuntime :=
  runtime.truncate "Traversal stopped at the depth limit."

def recordCrossRepoBound (runtime : TraversalRuntime) : TraversalRuntime :=
  runtime.truncate "A path branch exceeded the cross-repository hop limit."

end TraversalRuntime

def nodePassesFilters (graph : TraversalGraph) (nodeId : NodeId) (filters : TraversalFilters)
    (runtime : TraversalRuntime) : Bool × TraversalRuntime :=
  match graph.nodes[nodeId]? with
  | none => (false, runtime)
  | some node =>
    (nodeAccepted node filters,
      if namespaceMissing node filters then
        { runtime with
          coverageGaps := runtime.coverageGaps.insert
            ("Deployment `" ++ node.id ++ "` has no representable environment namespace.") }
      else runtime)

section Search

variable {W : Type} (weights : Weights W) (expired : Nat → Bool) (graph : TraversalGraph)
  (request : TraversalRequest)

def PathState.start (nodeId : NodeId) : PathState W := ⟨[nodeId], [], weights.zero, 0⟩

def PathState.extended (state : PathState W) (adjacent : Adjacent) (weight : W)
    (crossRepo : Bool) : PathState W where
  nodes := state.nodes ++ [adjacent.next]
  steps := state.steps ++ [adjacent]
  totalWeight := weights.add state.totalWeight weight
  crossRepoHops := state.crossRepoHops + crossRepo.toNat

/-- The runtime and the states pushed so far by one expansion. -/
structure Expansion (W : Type) where
  runtime : TraversalRuntime
  pushed : List (PathState W)

/-- The part of the loop body after the node filter. -/
def pushAdjacent (state : PathState W) (current : NodeId) (adjacent : Adjacent)
    (runtime : TraversalRuntime) (pushed : List (PathState W)) :
    Except QueryError (Turn (Expansion W) (Expansion W)) :=
  match segmentIsCrossRepo graph current adjacent.next with
  | .error e => .error e
  | .ok crossRepo =>
    if request.options.maxCrossRepoHops < state.crossRepoHops + crossRepo.toNat then
      .ok (.again ⟨runtime.recordCrossRepoBound, pushed⟩)
    else
      let (observed, runtime) := runtime.observeNode adjacent.next request.options.nodeLimit
      if !observed then .ok (.again ⟨runtime, pushed⟩)
      else
        match weights.weight request.options adjacent.edge with
        | .error e => .error e
        | .ok weight =>
          .ok (.again ⟨runtime, pushed ++ [state.extended weights adjacent weight crossRepo]⟩)

/-- The body of both expansion loops: `leave` is `break`. -/
def visitAdjacent (state : PathState W) (current : NodeId) (adjacent : Adjacent)
    (s : Expansion W) : Except QueryError (Turn (Expansion W) (Expansion W)) :=
  let (late, runtime) := s.runtime.timedOut expired
  if late then .ok (.leave ⟨runtime, s.pushed⟩)
  else
    let (examined, runtime) := runtime.examineEdge request.options.edgeLimit
    if !examined then .ok (.leave ⟨runtime, s.pushed⟩)
    else if !edgePassesFilters adjacent.edge request.filters then .ok (.again ⟨runtime, s.pushed⟩)
    else if adjacent.edge.status ≠ .confirmed then
      .ok (.again ⟨runtime.recordCandidate adjacent.edge, s.pushed⟩)
    else if state.nodes.contains adjacent.next then .ok (.again ⟨runtime, s.pushed⟩)
    else
      let (passes, runtime) := nodePassesFilters graph adjacent.next request.filters runtime
      if !passes then .ok (.again ⟨runtime, s.pushed⟩)
      else pushAdjacent weights graph request state current adjacent runtime s.pushed

def visitAll (state : PathState W) (current : NodeId) (s : Expansion W) :
    List Adjacent → Except QueryError (Expansion W)
  | [] => .ok s
  | adjacent :: rest =>
    match visitAdjacent weights expired graph request state current adjacent s with
    | .error e => .error e
    | .ok (.leave s') => .ok s'
    | .ok (.again s') => visitAll state current s' rest

def expandState (state : PathState W) (runtime : TraversalRuntime) :
    Except QueryError (Expansion W) :=
  match state.nodes.getLast? with
  | none => .ok ⟨runtime, []⟩
  | some current =>
    visitAll weights expired graph request state current ⟨runtime, []⟩
      (graph.adjacent current request.options.direction)

/-- What a look at one adjacent edge may change in the runtime without pushing. -/
structure TraversalRuntime.Grows (runtime runtime' : TraversalRuntime) : Prop where
  truncated : runtime.truncated = true → runtime'.truncated = true
  frontier : runtime'.frontier = runtime.frontier

def limitGaps : List String :=
  ["Traversal stopped at the timeout bound.", "Traversal stopped at the edge limit.",
    "Traversal stopped at the node limit."]

def TraversalRuntime.Unlimited (runtime : TraversalRuntime) : Prop :=
  ∀ gap ∈ limitGaps, gap ∉ runtime.coverageGaps

structure TraversalRuntime.Records (runtime runtime' : TraversalRuntime) : Prop where
  grows : runtime.Grows runtime'
  unlimited : runtime'.Unlimited → runtime.Unlimited

/-- The edges that an expansion of the state has to follow. -/
structure Eligible (state : PathState W) (current : NodeId) (adjacent : Adjacent) : Prop where
  filters : edgePassesFilters adjacent.edge request.filters = true
  confirmed : adjacent.edge.status = .confirmed
  fresh : adjacent.next ∉ state.nodes
  accepted : ∃ node, graph.nodes[adjacent.next]? = some node ∧
    nodeAccepted node request.filters = true
  crossings : ∀ crossRepo, segmentIsCrossRepo graph current adjacent.next = .ok crossRepo →
    state.crossRepoHops + crossRepo.toNat ≤ request.options.maxCrossRepoHops

/-- Everything that one turn of an expansion loop can do. -/
inductive Looked (state : PathState W) (current : NodeId) (adjacent : Adjacent)
    (s : Expansion W) : Except QueryError (Turn (Expansion W) (Expansion W)) → Prop
  | stopped (runtime : TraversalRuntime) (records : s.runtime.Records runtime)
      (bound : runtime.truncated = true) (limited : ¬runtime.Unlimited) :
      Looked state current adjacent s (.ok (.leave ⟨runtime, s.pushed⟩))
  | refused (runtime : TraversalRuntime) (records : s.runtime.Records runtime)
      (bound : runtime.truncated = true) (limited : ¬runtime.Unlimited) :
      Looked state current adjacent s (.ok (.again ⟨runtime, s.pushed⟩))
  | skipped (runtime : TraversalRuntime) (records : s.runtime.Records runtime)
      (why : ¬Eligible graph request state current adjacent) :
      Looked state current adjacent s (.ok (.again ⟨runtime, s.pushed⟩))
  | unknown (e : QueryError) (why : segmentIsCrossRepo graph current adjacent.next = .error e) :
      Looked state current adjacent s (.error e)
  | costless (e : QueryError) (why : weights.weight request.options adjacent.edge = .error e) :
      Looked state current adjacent s (.error e)
  | followed (runtime : TraversalRuntime) (records : s.runtime.Records runtime)
      (eligible : Eligible graph request state current adjacent) (weight : W) (crossRepo : Bool)
      (crossing : segmentIsCrossRepo graph current adjacent.next = .ok crossRepo)
      (cost : weights.weight request.options adjacent.edge = .ok weight) :
      Looked state current adjacent s
        (.ok (.again ⟨runtime, s.pushed ++ [state.extended weights adjacent weight crossRepo]⟩))

/-- What completeness below all bounds needs of a turn. -/
inductive Visited (state : PathState W) (current : NodeId) (adjacent : Adjacent)
    (s : Expansion W) : Except QueryError (Turn (Expansion W) (Expansion W)) → Prop
  | stopped (runtime : TraversalRuntime) (grows : s.runtime.Grows runtime)
      (bound : runtime.truncated = true) :
      Visited state current adjacent s (.ok (.leave ⟨runtime, s.pushed⟩))
  | skipped (runtime : TraversalRuntime) (grows : s.runtime.Grows runtime)
      (why : runtime.truncated = true ∨ ¬ Eligible graph request state current adjacent) :
      Visited state current adjacent s (.ok (.again ⟨runtime, s.pushed⟩))
  | unknown (e : QueryError) (why : segmentIsCrossRepo graph current adjacent.next = .error e) :
      Visited state current adjacent s (.error e)
  | costless (e : QueryError) (why : weights.weight request.options adjacent.edge = .error e) :
      Visited state current adjacent s (.error e)
  | followed (runtime : TraversalRuntime) (grows : s.runtime.Grows runtime)
      (eligible : Eligible graph request state current adjacent) (weight : W) (crossRepo : Bool)
      (crossing : segmentIsCrossRepo graph current adjacent.next = .ok crossRepo) :
      Visited state current adjacent s
        (.ok (.again ⟨runtime, s.pushed ++ [state.extended weights adjacent weight crossRepo]⟩))

variable {weights expired graph request}

namespace TraversalRuntime

theorem Grows.refl (runtime : TraversalRuntime) : runtime.Grows runtime := ⟨id, rfl⟩

theorem Grows.trans {first second third : TraversalRuntime} (left : first.Grows second)
    (right : second.Grows third) : first.Grows third :=
  ⟨fun h => right.truncated (left.truncated h), right.frontier.trans left.frontier⟩

theorem truncate_grows (runtime : TraversalRuntime) (gap : String) :
    runtime.Grows (runtime.truncate gap) := ⟨fun _ => rfl, rfl⟩

theorem timedOut_grows (runtime : TraversalRuntime) :
    runtime.Grows (runtime.timedOut expired).2 := by
  unfold timedOut
  split
  · exact ⟨fun _ => rfl, rfl⟩
  · exact ⟨id, rfl⟩

theorem timedOut_late {runtime : TraversalRuntime} (late : (runtime.timedOut expired).1 = true) :
    (runtime.timedOut expired).2.truncated = true := by
  unfold timedOut at late ⊢
  split
  · rfl
  · next soon => simp [soon] at late

theorem examineEdge_refused {runtime : TraversalRuntime} {limit : Nat}
    (refused : (runtime.examineEdge limit).1 = false) :
    (runtime.examineEdge limit).2.truncated = true := by
  unfold examineEdge at refused ⊢
  split
  · rfl
  · next room => simp [room] at refused

theorem observeNode_refused {runtime : TraversalRuntime} {nodeId : NodeId} {limit : Nat}
    (refused : (runtime.observeNode nodeId limit).1 = false) :
    (runtime.observeNode nodeId limit).2.truncated = true := by
  unfold observeNode at refused ⊢
  split
  · next seen => simp [seen] at refused
  · next unseen =>
    split
    · rfl
    · next room => simp [unseen, room] at refused

theorem Records.trans {first second third : TraversalRuntime} (left : first.Records second)
    (right : second.Records third) : first.Records third :=
  ⟨left.grows.trans right.grows, fun h => left.unlimited (right.unlimited h)⟩

theorem not_unlimited {runtime : TraversalRuntime} {gap : String} (limit : gap ∈ limitGaps) :
    ¬(runtime.truncate gap).Unlimited := by
  intro unlimited
  exact unlimited gap limit (by simp [truncate])

theorem truncate_records (runtime : TraversalRuntime) (gap : String) :
    runtime.Records (runtime.truncate gap) := by
  refine ⟨truncate_grows runtime gap, fun unlimited limit listed mem => unlimited limit listed ?_⟩
  simp [truncate, mem]

theorem timedOut_records (runtime : TraversalRuntime) :
    runtime.Records (runtime.timedOut expired).2 := by
  have looked : runtime.Records { runtime with polls := runtime.polls + 1 } := ⟨⟨id, rfl⟩, id⟩
  unfold timedOut
  dsimp only
  split
  · exact looked.trans (truncate_records _ "Traversal stopped at the timeout bound.")
  · exact looked

theorem timedOut_limited {runtime : TraversalRuntime} (late : (runtime.timedOut expired).1 = true) :
    ¬(runtime.timedOut expired).2.Unlimited := by
  unfold timedOut at late ⊢
  split
  · exact not_unlimited (by simp [limitGaps])
  · next soon => simp [soon] at late

theorem examineEdge_records (runtime : TraversalRuntime) (limit : Nat) :
    runtime.Records (runtime.examineEdge limit).2 := by
  unfold examineEdge
  split
  · exact truncate_records _ _
  · exact ⟨⟨id, rfl⟩, id⟩

theorem examineEdge_limited {runtime : TraversalRuntime} {limit : Nat}
    (refused : (runtime.examineEdge limit).1 = false) :
    ¬(runtime.examineEdge limit).2.Unlimited := by
  unfold examineEdge at refused ⊢
  split
  · exact not_unlimited (by simp [limitGaps])
  · next room => simp [room] at refused

theorem observeNode_records (runtime : TraversalRuntime) (nodeId : NodeId) (limit : Nat) :
    runtime.Records (runtime.observeNode nodeId limit).2 := by
  unfold observeNode
  split
  · exact ⟨Grows.refl _, id⟩
  · split
    · exact truncate_records _ _
    · exact ⟨⟨id, rfl⟩, id⟩

theorem observeNode_limited {runtime : TraversalRuntime} {nodeId : NodeId} {limit : Nat}
    (refused : (runtime.observeNode nodeId limit).1 = false) :
    ¬(runtime.observeNode nodeId limit).2.Unlimited := by
  unfold observeNode at refused ⊢
  split
  · next seen => simp [seen] at refused
  · next unseen =>
    split
    · exact not_unlimited (by simp [limitGaps])
    · next room => simp [unseen, room] at refused

end TraversalRuntime

open TraversalRuntime

theorem nodePassesFilters_grows (nodeId : NodeId) (filters : TraversalFilters)
    (runtime : TraversalRuntime) :
    runtime.Grows (nodePassesFilters graph nodeId filters runtime).2 := by
  unfold nodePassesFilters
  split
  · exact Grows.refl _
  · dsimp only
    split
    · exact ⟨id, rfl⟩
    · exact Grows.refl _

theorem nodePassesFilters_iff {nodeId : NodeId} {filters : TraversalFilters}
    {runtime : TraversalRuntime} : (nodePassesFilters graph nodeId filters runtime).1 = true ↔
      ∃ node, graph.nodes[nodeId]? = some node ∧ nodeAccepted node filters = true := by
  unfold nodePassesFilters
  split
  · next missing => simp [missing]
  · next node found => simp [found]

theorem nodePassesFilters_records (nodeId : NodeId) (filters : TraversalFilters)
    (runtime : TraversalRuntime) :
    runtime.Records (nodePassesFilters graph nodeId filters runtime).2 := by
  refine ⟨nodePassesFilters_grows nodeId filters runtime, fun unlimited limit listed mem =>
    unlimited limit listed ?_⟩
  unfold nodePassesFilters
  split
  · exact mem
  · dsimp only
    split
    · simp [mem]
    · exact mem

theorem pushAdjacent_looked {state : PathState W} {current : NodeId} {adjacent : Adjacent}
    {s : Expansion W} {runtime : TraversalRuntime} (records : s.runtime.Records runtime)
    (filters : edgePassesFilters adjacent.edge request.filters = true)
    (confirmed : adjacent.edge.status = .confirmed) (fresh : adjacent.next ∉ state.nodes)
    (accepted : ∃ node, graph.nodes[adjacent.next]? = some node ∧
      nodeAccepted node request.filters = true) :
    Looked weights graph request state current adjacent s
      (pushAdjacent weights graph request state current adjacent runtime s.pushed) := by
  unfold pushAdjacent
  cases crossing : segmentIsCrossRepo graph current adjacent.next with
  | error e => exact .unknown e crossing
  | ok crossRepo =>
    dsimp only
    split
    · next beyond =>
      refine .skipped _ (records.trans (truncate_records _ _)) fun eligible => ?_
      have within := eligible.crossings crossRepo crossing
      omega
    · next within =>
      have observed := records.trans
        (observeNode_records runtime adjacent.next request.options.nodeLimit)
      split
      · next refused =>
        exact .refused _ observed (observeNode_refused (by simpa using refused))
          (observeNode_limited (by simpa using refused))
      · cases cost : weights.weight request.options adjacent.edge with
        | error e => exact .costless e cost
        | ok weight =>
          refine .followed _ observed ⟨filters, confirmed, fresh, accepted, fun c hc => ?_⟩
            weight crossRepo crossing cost
          obtain rfl : crossRepo = c := by simpa [crossing] using hc
          omega

theorem visitAdjacent_looked (state : PathState W) (current : NodeId) (adjacent : Adjacent)
    (s : Expansion W) : Looked weights graph request state current adjacent s
      (visitAdjacent weights expired graph request state current adjacent s) := by
  unfold visitAdjacent
  dsimp only
  have looked := @timedOut_records expired s.runtime
  have examined := looked.trans (examineEdge_records _ request.options.edgeLimit)
  split
  · next late => exact .stopped _ looked (timedOut_late late) (timedOut_limited late)
  split
  · next refused =>
    exact .stopped _ examined (examineEdge_refused (by simpa using refused))
      (examineEdge_limited (by simpa using refused))
  split
  · next filtered => exact .skipped _ examined fun h => by simp [h.filters] at filtered
  split
  · next weak => exact .skipped _ (examined.trans ⟨⟨id, rfl⟩, id⟩) fun h => weak h.confirmed
  split
  · next seen => exact .skipped _ examined fun h => h.fresh (by simpa using seen)
  have filtered := examined.trans (@nodePassesFilters_records graph adjacent.next request.filters _)
  split
  · next refused =>
    refine .skipped _ filtered fun h => ?_
    rw [nodePassesFilters_iff.mpr h.accepted] at refused
    simp at refused
  · next edgePasses edgeConfirmed unseen nodePasses =>
    exact pushAdjacent_looked filtered (by simpa using edgePasses) (by simpa using edgeConfirmed)
      (by simpa using unseen) (nodePassesFilters_iff.mp (by simpa using nodePasses))

theorem visitAdjacent_visited (state : PathState W) (current : NodeId) (adjacent : Adjacent)
    (s : Expansion W) : Visited weights graph request state current adjacent s
      (visitAdjacent weights expired graph request state current adjacent s) := by
  have look := @visitAdjacent_looked W weights expired graph request state current adjacent s
  generalize visitAdjacent weights expired graph request state current adjacent s = turn at look ⊢
  cases look with
  | stopped runtime records bound limited => exact .stopped runtime records.grows bound
  | refused runtime records bound limited => exact .skipped runtime records.grows (.inl bound)
  | skipped runtime records why => exact .skipped runtime records.grows (.inr why)
  | unknown e why => exact .unknown e why
  | costless e why => exact .costless e why
  | followed runtime records eligible weight crossRepo crossing cost =>
    exact .followed runtime records.grows eligible weight crossRepo crossing

/-- The state pushed for an adjacent edge. -/
def Extends (weights : Weights W) (graph : TraversalGraph) (state : PathState W)
    (current : NodeId) (adjacent : Adjacent) (next : PathState W) : Prop :=
  ∃ weight crossRepo, segmentIsCrossRepo graph current adjacent.next = .ok crossRepo ∧
    next = state.extended weights adjacent weight crossRepo

/-- What an expansion over the listed edges has done. -/
structure Expanded (weights : Weights W) (graph : TraversalGraph) (request : TraversalRequest)
    (state : PathState W) (current : NodeId) (adjacents : List Adjacent) (s s' : Expansion W)
    (pushed : List (PathState W)) : Prop where
  grows : s.runtime.Grows s'.runtime
  result : s'.pushed = s.pushed ++ pushed
  few : pushed.length ≤ adjacents.length
  sound : ∀ next ∈ pushed, ∃ adjacent ∈ adjacents,
    Eligible graph request state current adjacent ∧ Extends weights graph state current adjacent next
  complete : s'.runtime.truncated = false → ∀ adjacent ∈ adjacents,
    Eligible graph request state current adjacent →
      ∃ next ∈ pushed, Extends weights graph state current adjacent next

theorem Expanded.skip {state : PathState W} {current : NodeId} {adjacent : Adjacent}
    {rest : List Adjacent} {s s' : Expansion W} {pushed : List (PathState W)}
    {runtime : TraversalRuntime} (grows : s.runtime.Grows runtime)
    (why : runtime.truncated = true ∨ ¬ Eligible graph request state current adjacent)
    (h : Expanded weights graph request state current rest ⟨runtime, s.pushed⟩ s' pushed) :
    Expanded weights graph request state current (adjacent :: rest) s s' pushed where
  grows := grows.trans h.grows
  result := h.result
  few := h.few.trans (Nat.le_succ _)
  sound next hn := by
    obtain ⟨a, ha, eligible, extended⟩ := h.sound next hn
    exact ⟨a, List.mem_cons_of_mem _ ha, eligible, extended⟩
  complete uncut a ha eligible := by
    rcases List.mem_cons.mp ha with rfl | ha
    · rcases why with cut | not
      · have := h.grows.truncated cut
        simp [uncut] at this
      · exact absurd eligible not
    · exact h.complete uncut a ha eligible

theorem Expanded.follow {state : PathState W} {current : NodeId} {adjacent : Adjacent}
    {rest : List Adjacent} {s s' : Expansion W} {pushed : List (PathState W)} {next : PathState W}
    {runtime : TraversalRuntime} (grows : s.runtime.Grows runtime)
    (eligible : Eligible graph request state current adjacent)
    (extended : Extends weights graph state current adjacent next)
    (h : Expanded weights graph request state current rest ⟨runtime, s.pushed ++ [next]⟩ s' pushed) :
    Expanded weights graph request state current (adjacent :: rest) s s' (next :: pushed) where
  grows := grows.trans h.grows
  result := by simp [h.result]
  few := Nat.succ_le_succ h.few
  sound next' hn := by
    rcases List.mem_cons.mp hn with rfl | hn
    · exact ⟨adjacent, List.mem_cons_self, eligible, extended⟩
    · obtain ⟨a, ha, eligible', extended'⟩ := h.sound next' hn
      exact ⟨a, List.mem_cons_of_mem _ ha, eligible', extended'⟩
  complete uncut a ha eligible' := by
    rcases List.mem_cons.mp ha with rfl | ha
    · exact ⟨next, List.mem_cons_self, extended⟩
    · obtain ⟨next', hn, extended'⟩ := h.complete uncut a ha eligible'
      exact ⟨next', List.mem_cons_of_mem _ hn, extended'⟩

theorem visitAll_expanded {state : PathState W} {current : NodeId} {adjacents : List Adjacent} :
    ∀ {s s' : Expansion W},
      visitAll weights expired graph request state current s adjacents = .ok s' →
        ∃ pushed, Expanded weights graph request state current adjacents s s' pushed := by
  induction adjacents with
  | nil =>
    intro s s' h
    obtain rfl : s = s' := by simpa [visitAll] using h
    exact ⟨[], Grows.refl _, by simp, le_rfl, by simp, by simp⟩
  | cons adjacent rest ih =>
    intro s s' h
    have visit := @visitAdjacent_visited W weights expired graph request state current adjacent s
    unfold visitAll at h
    generalize visitAdjacent weights expired graph request state current adjacent s = turn
      at h visit
    cases visit with
    | stopped runtime grows bound =>
      obtain rfl : Expansion.mk runtime s.pushed = s' := by simpa using h
      exact ⟨[], grows, by simp, by simp, by simp, fun uncut => by simp [bound] at uncut⟩
    | skipped runtime grows why =>
      obtain ⟨pushed, expanded⟩ := ih h
      exact ⟨pushed, expanded.skip grows why⟩
    | unknown e why => simp at h
    | costless e why => simp at h
    | followed runtime grows eligible weight crossRepo crossing =>
      obtain ⟨pushed, expanded⟩ := ih h
      exact ⟨_, expanded.follow grows eligible ⟨weight, crossRepo, crossing, rfl⟩⟩

theorem visitAll_error {state : PathState W} {current : NodeId} {adjacents : List Adjacent}
    {e : QueryError} : ∀ {s : Expansion W},
      visitAll weights expired graph request state current s adjacents = .error e →
        ∃ adjacent ∈ adjacents, segmentIsCrossRepo graph current adjacent.next = .error e ∨
          weights.weight request.options adjacent.edge = .error e := by
  induction adjacents with
  | nil => intro s h; simp [visitAll] at h
  | cons adjacent rest ih =>
    intro s h
    have visit := @visitAdjacent_visited W weights expired graph request state current adjacent s
    unfold visitAll at h
    generalize visitAdjacent weights expired graph request state current adjacent s = turn
      at h visit
    have later : ∀ {s' : Expansion W},
        visitAll weights expired graph request state current s' rest = .error e →
        ∃ a ∈ adjacent :: rest, segmentIsCrossRepo graph current a.next = .error e ∨
          weights.weight request.options a.edge = .error e := fun h => by
      obtain ⟨a, ha, why⟩ := ih h
      exact ⟨a, List.mem_cons_of_mem _ ha, why⟩
    cases visit with
    | stopped runtime grows bound => simp at h
    | skipped runtime grows why => exact later h
    | followed runtime grows eligible weight crossRepo crossing => exact later h
    | unknown e' why =>
      obtain rfl : e' = e := by simpa using h
      exact ⟨adjacent, List.mem_cons_self, .inl why⟩
    | costless e' why =>
      obtain rfl : e' = e := by simpa using h
      exact ⟨adjacent, List.mem_cons_self, .inr why⟩

/-! Termination: a turn replaces the chosen state by one-edge extensions of it. -/

def stateDepth (state : PathState W) : Nat := state.steps.length

theorem expandState_pushed {state : PathState W} {runtime : TraversalRuntime}
    {expansion : Expansion W}
    (h : expandState weights expired graph request state runtime = .ok expansion) :
    expansion.pushed.length ≤ graph.degreeBound ∧
      ∀ next ∈ expansion.pushed, stateDepth next = stateDepth state + 1 := by
  unfold expandState at h
  split at h
  · obtain rfl : Expansion.mk runtime [] = expansion := by simpa using h
    simp
  · next current last =>
    obtain ⟨pushed, expanded⟩ := visitAll_expanded h
    have result : expansion.pushed = pushed := by simpa using expanded.result
    rw [result]
    refine ⟨expanded.few.trans (graph.adjacent_length _ _), fun next hn => ?_⟩
    obtain ⟨adjacent, -, -, weight, crossRepo, -, rfl⟩ := expanded.sound next hn
    simp [stateDepth, PathState.extended]

variable (weights expired graph request)

/-- One segment of `materialize_path`, with its source and target identifiers. -/
def materializeSegment (sourceId targetId : Option NodeId) (step : Adjacent) :
    Except QueryError (PathSegment W) := do
  let sourceId ← sourceId.elim (.error (.inconsistentPath request.start)) .ok
  let targetId ← targetId.elim (.error (.inconsistentPath request.target)) .ok
  let source ← graph.nodes[sourceId]?.elim (.error (.inconsistentPath sourceId)) .ok
  let target ← graph.nodes[targetId]?.elim (.error (.inconsistentPath targetId)) .ok
  let weight ← weights.weight request.options step.edge
  pure
    { trace := ⟨source, step.edge, target⟩
      scope := if source.repoId ≠ target.repoId then .crossRepository else .sameRepository
      reversed := step.reversed
      weight := weight }

def materializeFrom (nodes : List NodeId) : Nat → List Adjacent →
    Except QueryError (List (PathSegment W))
  | _, [] => .ok []
  | index, step :: rest => do
    let segment ← materializeSegment weights graph request nodes[index]? nodes[index + 1]? step
    let segments ← materializeFrom nodes (index + 1) rest
    pure (segment :: segments)

def materializePath (state : PathState W) : Except QueryError (TraversalPath W) := do
  let segments ← materializeFrom weights graph request state.nodes 0 state.steps
  pure ⟨segments, state.totalWeight, state.crossRepoHops⟩

abbrev Outcome (W : Type) := Except QueryError (List (TraversalPath W) × TraversalRuntime)

/-- The variables of `bfs`. -/
structure Breadth (W : Type) where
  queue : List (PathState W)
  runtime : TraversalRuntime

def bfsTurn (s : Breadth W) : Turn (Breadth W) (Outcome W) :=
  match s.queue with
  | [] => .leave (.ok ([], s.runtime))
  | state :: queue =>
    let (late, runtime) := s.runtime.timedOut expired
    if late then .leave (.ok ([], runtime))
    else
      match state.nodes.getLast? with
      | none => .again ⟨queue, runtime⟩
      | some current =>
        let runtime := runtime.recordFrontier current state.steps.length
        if current = request.target then
          .leave ((materializePath weights graph request state).map fun path => ([path], runtime))
        else if request.options.maxDepth ≤ state.steps.length then
          .again ⟨queue, runtime.recordDepthBound⟩
        else
          match expandState weights expired graph request state runtime with
          | .error e => .leave (.error e)
          | .ok expansion =>
            let queue := queue ++ expansion.pushed
            if expansion.runtime.truncated && queue.isEmpty then .leave (.ok ([], expansion.runtime))
            else .again ⟨queue, expansion.runtime⟩

def breadthBounded (s : Breadth W) : Prop :=
  ∀ state ∈ s.queue, stateDepth state ≤ request.options.maxDepth

def breadthRemaining (s : Breadth W) : Nat :=
  totalWorth stateDepth graph.degreeBound request.options.maxDepth s.queue

theorem bfsTurn_terminates : Terminates (bfsTurn weights expired graph request)
    (breadthBounded request) (breadthRemaining graph request) := by
  refine terminates_of_replace _ _ _ fun s s' bounded turn => ?_
  unfold bfsTurn at turn
  split at turn
  · simp at turn
  next state queue popped =>
  dsimp only at turn
  have dropped : ∀ runtime, Turn.again (Breadth.mk queue runtime) = Turn.again (ρ := Outcome W) s' →
      s'.queue = queue := fun runtime h => by
    cases h
    rfl
  split at turn
  · simp at turn
  split at turn
  · exact ⟨state, queue, [], popped ▸ .refl _, by simp [dropped _ turn]⟩
  split at turn
  · simp at turn
  split at turn
  · exact ⟨state, queue, [], popped ▸ .refl _, by simp [dropped _ turn]⟩
  next shallow =>
  split at turn
  · simp at turn
  next expansion expands =>
  split at turn
  · simp at turn
  obtain ⟨few, longer⟩ := expandState_pushed expands
  cases turn
  refine ⟨state, queue, expansion.pushed, popped ▸ .refl _, .refl _, few, longer, fun full => ?_⟩
  exact absurd full shallow

def bfs (runtime : TraversalRuntime) : Outcome W :=
  loop (bfsTurn_terminates weights expired graph request)
    ⟨[PathState.start weights request.start], runtime⟩
    (by simp [breadthBounded, stateDepth, PathState.start])

theorem perm_of_chosen {candidates : List (PathState W)} {index : Nat} {state : PathState W}
    (chosen : candidates[index]? = some state) :
    candidates.Perm (state :: candidates.eraseIdx index) := by
  obtain ⟨inside, rfl⟩ := List.getElem?_eq_some_iff.mp chosen
  exact (List.getElem_cons_eraseIdx_perm inside).symm

end Search

section Weighted

/-- The variables of `weighted_paths`. -/
structure Weighted (W : Type) where
  candidates : List (PathState W)
  paths : List (TraversalPath W)
  runtime : TraversalRuntime

variable {W : Type} [LinearOrder W] (weights : Weights W) (expired : Nat → Bool)
  (graph : TraversalGraph) (request : TraversalRequest)

def pathStateKey (state : PathState W) : W ×ₗ List NodeId ×ₗ List EdgeId ×ₗ List Bool :=
  toLex (state.totalWeight, toLex (state.nodes,
    toLex (state.steps.map (·.edge.id), state.steps.map (·.reversed))))

def selectFrom (best : PathState W) (bestIndex index : Nat) : List (PathState W) → Nat
  | [] => bestIndex
  | candidate :: rest =>
    if pathStateKey candidate < pathStateKey best then selectFrom candidate index (index + 1) rest
    else selectFrom best bestIndex (index + 1) rest

def selectBestState : List (PathState W) → Nat
  | [] => 0
  | first :: rest => selectFrom first 0 1 rest

theorem selectFrom_lt {best : PathState W} {bestIndex index : Nat} {rest : List (PathState W)}
    (inside : bestIndex < index) : selectFrom best bestIndex index rest < index + rest.length := by
  induction rest generalizing best bestIndex index with
  | nil => simpa [selectFrom] using inside
  | cons candidate rest ih =>
    unfold selectFrom
    rw [List.length_cons, Nat.add_comm rest.length, ← Nat.add_assoc]
    split
    · exact ih (Nat.lt_succ_self _)
    · exact ih (Nat.lt_succ_of_lt inside)

theorem eq_nil_of_selected {candidates : List (PathState W)}
    (absent : candidates[selectBestState candidates]? = none) : candidates = [] := by
  cases candidates with
  | nil => rfl
  | cons first rest =>
    have inside : selectBestState (first :: rest) < 1 + rest.length := selectFrom_lt Nat.one_pos
    have outside := List.getElem?_eq_none_iff.mp absent
    rw [List.length_cons] at outside
    omega

def pathOrder (path : TraversalPath W) : W ×ₗ Nat ×ₗ List EdgeId ×ₗ List NodeId :=
  toLex (path.totalWeight, toLex (path.segments.length,
    toLex (path.segments.map (·.trace.edge.id), path.segments.map (·.trace.target.id))))

def weightedTurn (wanted : Nat) (s : Weighted W) : Turn (Weighted W) (Outcome W) :=
  let selected := selectBestState s.candidates
  match s.candidates[selected]? with
  | none => .leave (.ok (sortBy pathOrder s.paths, s.runtime))
  | some state =>
    if wanted ≤ s.paths.length then .leave (.ok (sortBy pathOrder s.paths, s.runtime))
    else
      let (late, runtime) := s.runtime.timedOut expired
      if late then .leave (.ok (sortBy pathOrder s.paths, runtime))
      else
        let candidates := s.candidates.eraseIdx selected
        match state.nodes.getLast? with
        | none => .again ⟨candidates, s.paths, runtime⟩
        | some current =>
          let runtime := runtime.recordFrontier current state.steps.length
          if current = request.target then
            match materializePath weights graph request state with
            | .error e => .leave (.error e)
            | .ok path => .again ⟨candidates, s.paths ++ [path], runtime⟩
          else if request.options.maxDepth ≤ state.steps.length then
            .again ⟨candidates, s.paths, runtime.recordDepthBound⟩
          else
            match expandState weights expired graph request state runtime with
            | .error e => .leave (.error e)
            | .ok expansion => .again ⟨candidates ++ expansion.pushed, s.paths, expansion.runtime⟩

def weightedBounded (s : Weighted W) : Prop :=
  ∀ state ∈ s.candidates, stateDepth state ≤ request.options.maxDepth

def weightedRemaining (s : Weighted W) : Nat :=
  totalWorth stateDepth graph.degreeBound request.options.maxDepth s.candidates

theorem weightedTurn_terminates (wanted : Nat) :
    Terminates (weightedTurn weights expired graph request wanted) (weightedBounded request)
      (weightedRemaining graph request) := by
  refine terminates_of_replace _ _ _ fun s s' bounded turn => ?_
  unfold weightedTurn at turn
  dsimp only at turn
  split at turn
  · simp at turn
  next state chosen =>
  have before := perm_of_chosen chosen
  have dropped : ∀ paths runtime,
      Turn.again (Weighted.mk (s.candidates.eraseIdx (selectBestState s.candidates)) paths runtime) =
        Turn.again (ρ := Outcome W) s' →
      s'.candidates = s.candidates.eraseIdx (selectBestState s.candidates) := fun _ _ h => by
    cases h
    rfl
  split at turn
  · simp at turn
  split at turn
  · simp at turn
  split at turn
  · exact ⟨state, _, [], before, by simp [dropped _ _ turn]⟩
  split at turn
  · split at turn
    · simp at turn
    · exact ⟨state, _, [], before, by simp [dropped _ _ turn]⟩
  split at turn
  · exact ⟨state, _, [], before, by simp [dropped _ _ turn]⟩
  next shallow =>
  split at turn
  · simp at turn
  next expansion expands =>
  obtain ⟨few, longer⟩ := expandState_pushed expands
  cases turn
  exact ⟨state, _, expansion.pushed, before, .refl _, few, longer, fun full => absurd full shallow⟩

def weightedPaths (wanted : Nat) (runtime : TraversalRuntime) : Outcome W :=
  loop (weightedTurn_terminates weights expired graph request wanted)
    ⟨[PathState.start weights request.start], [], runtime⟩
    (by simp [weightedBounded, stateDepth, PathState.start])

end Weighted

section Report

variable {W : Type} (graph : TraversalGraph) (request : TraversalRequest)

def lookUp (nodeId : NodeId) : Except QueryError Node :=
  graph.nodes[nodeId]?.elim (.error (.inconsistentPath nodeId)) .ok

def maxPaths : Nat :=
  if request.options.algorithm = .kShortest then request.options.k else 1

def reportGaps (runtime : TraversalRuntime) (paths : List (TraversalPath W)) : BTreeSet String :=
  let gaps := if paths.isEmpty then
      runtime.coverageGaps.insert
        "No confirmed path was observed within available coverage and bounds."
    else runtime.coverageGaps
  if !runtime.candidateEdges.isEmpty then
    gaps.insert "Unresolved candidate edges were excluded from confirmed paths."
  else gaps

def buildTraversalReport (runtime : TraversalRuntime) (paths : List (TraversalPath W)) :
    Except QueryError (TraversalReport W) := do
  let frontier ← runtime.frontier.toList.mapM (lookUp graph)
  pure
    { paths := paths
      frontier := frontier
      candidateUnresolvedEdges := values runtime.candidateEdges
      coverageGaps := (reportGaps runtime paths).toList
      truncated := runtime.truncated
      visitedNodes := runtime.observedNodes.size
      examinedEdges := runtime.examinedEdges
      limits :=
        { maxDepth := request.options.maxDepth
          maxCrossRepoHops := request.options.maxCrossRepoHops
          nodeLimit := request.options.nodeLimit
          edgeLimit := request.options.edgeLimit
          timeoutMs := request.options.timeoutMs
          maxPaths := maxPaths request } }

variable [LinearOrder W] (weights : Weights W) (expired : Nat → Bool)

def searchPaths (runtime : TraversalRuntime) : Outcome W :=
  if request.start = request.target then .ok ([⟨[], weights.zero, 0⟩], runtime)
  else
    match request.options.algorithm with
    | .bfs => bfs weights expired graph request runtime
    | .dijkstra => weightedPaths weights expired graph request 1 runtime
    | .kShortest => weightedPaths weights expired graph request request.options.k runtime

def traverseWith (nodes : List Node) (edges : List Edge) (request : TraversalRequest) :
    Except QueryError (TraversalReport W) := do
  validateTraversalRequest request
  let graph ← TraversalGraph.new nodes edges
  graph.requireAnchor request.start
  graph.requireAnchor request.target
  let (paths, runtime) ← searchPaths graph request weights expired (.new request)
  buildTraversalReport graph request runtime paths

end Report

/-- `traverse`, with the answers of the clock. -/
def traverse (expired : Nat → Bool) (nodes : List Node) (edges : List Edge)
    (request : TraversalRequest) : Except QueryError (TraversalReport F64) :=
  traverseWith doubles expired nodes edges request

end CodeSystemGraph.Query
