import Mathlib.Data.List.Induction
import CodeSystemGraph.QueryTraversal

/-! Confirmed paths, stated on the nodes and edges that were handed in, and the
answer of `traverse` measured against them. The invariant of both searches
pairs every pending state with the walk it stands for, and says that, as long as
no bound was hit and nothing was found, every confirmed path begins with the
walk of some pending state. -/

namespace CodeSystemGraph.Query
open Ieee Model Ordered Text Iterate

section Paths

structure Hop where
  trace : TraceSegment
  reversed : Bool

def Hop.next (hop : Hop) : NodeId := hop.trace.target.id

def Hop.adjacent (hop : Hop) : Adjacent := ⟨hop.trace.edge, hop.next, hop.reversed⟩

def Hop.crosses (hop : Hop) : Bool := hop.trace.source.repoId ≠ hop.trace.target.repoId

def crossings (hops : List Hop) : Nat := hops.countP Hop.crosses

/-- The edge leads from one node to the next in a requested direction. -/
def Leads (edges : List Edge) (direction : TraversalDirection) (nodeId : NodeId)
    (adjacent : Adjacent) : Prop :=
  adjacent.edge ∈ edges ∧
    if adjacent.reversed then
      direction ≠ .outgoing ∧ adjacent.edge.target = nodeId ∧ adjacent.edge.source = adjacent.next
    else direction ≠ .incoming ∧ adjacent.edge.source = nodeId ∧ adjacent.edge.target = adjacent.next

variable (nodes : List Node) (edges : List Edge) (request : TraversalRequest)

structure HopAllowed (hop : Hop) : Prop where
  source : hop.trace.source ∈ nodes
  target : hop.trace.target ∈ nodes
  leads : Leads edges request.options.direction hop.trace.source.id hop.adjacent
  confirmed : hop.trace.edge.status = .confirmed
  filters : edgePassesFilters hop.trace.edge request.filters = true
  accepted : nodeAccepted hop.trace.target request.filters = true

def Chained : NodeId → List Hop → NodeId → Prop
  | first, [], last => first = last
  | first, hop :: rest, last => hop.trace.source.id = first ∧ Chained hop.next rest last

structure Walk (hops : List Hop) (last : NodeId) : Prop where
  allowed : ∀ hop ∈ hops, HopAllowed nodes edges request hop
  chained : Chained request.start hops last
  simple : (request.start :: hops.map Hop.next).Nodup
  depth : hops.length ≤ request.options.maxDepth
  within : crossings hops ≤ request.options.maxCrossRepoHops

/-- The paths that `traverse` promises to find. -/
def ConfirmedPath (hops : List Hop) : Prop := Walk nodes edges request hops request.target

variable {nodes edges request}

theorem chained_concat {first last : NodeId} {hops : List Hop} {hop : Hop} :
    Chained first (hops ++ [hop]) last ↔
      Chained first hops hop.trace.source.id ∧ hop.next = last := by
  induction hops generalizing first with
  | nil => simp [Chained, eq_comm]
  | cons head rest ih => simp [Chained, ih, and_assoc]

theorem Chained.getLast? {first last : NodeId} {hops : List Hop} (h : Chained first hops last) :
    (first :: hops.map Hop.next).getLast? = some last := by
  induction hops generalizing first with
  | nil => simpa [Chained] using h
  | cons head rest ih =>
    rw [List.map_cons, List.getLast?_cons_cons]
    exact ih h.2

/-- Every walk is found from the one that stops a hop earlier. -/
theorem walk_concat {hops : List Hop} {hop : Hop} {last : NodeId} :
    Walk nodes edges request (hops ++ [hop]) last ↔
      Walk nodes edges request hops hop.trace.source.id ∧ HopAllowed nodes edges request hop ∧
      hop.next = last ∧ hop.next ∉ request.start :: hops.map Hop.next ∧
      hops.length < request.options.maxDepth ∧
      crossings hops + hop.crosses.toNat ≤ request.options.maxCrossRepoHops := by
  have count : crossings (hops ++ [hop]) = crossings hops + hop.crosses.toNat := by
    cases crosses : hop.crosses <;> simp [crossings, crosses]
  have simple : (request.start :: (hops ++ [hop]).map Hop.next).Nodup ↔
      (request.start :: hops.map Hop.next).Nodup ∧
        hop.next ∉ request.start :: hops.map Hop.next := by
    rw [List.map_append, ← List.cons_append, List.nodup_append]
    simp [List.mem_cons]
    tauto
  constructor
  · intro h
    obtain ⟨chained, arrives⟩ := chained_concat.mp h.chained
    obtain ⟨nodup, fresh⟩ := simple.mp h.simple
    have depth := h.depth
    have within := h.within
    rw [count] at within
    rw [List.length_append, List.length_singleton] at depth
    exact ⟨⟨fun hop' mem => h.allowed hop' (by simp [mem]), chained, nodup, by omega, by omega⟩,
      h.allowed hop (by simp), arrives, fresh, by omega, within⟩
  · rintro ⟨walk, allowed, arrives, fresh, depth, within⟩
    refine ⟨fun hop' mem => ?_, chained_concat.mpr ⟨walk.chained, arrives⟩,
      simple.mpr ⟨walk.simple, fresh⟩, by simpa using Nat.succ_le_of_lt depth, by rwa [count]⟩
    rcases List.mem_append.mp mem with mem | mem
    · exact walk.allowed hop' mem
    · rwa [List.mem_singleton.mp mem]

theorem Walk.initial {hops rest : List Hop} {last : NodeId}
    (h : Walk nodes edges request (hops ++ rest) last) :
    ∃ middle, Walk nodes edges request hops middle := by
  induction rest using List.reverseRecOn generalizing last with
  | nil => exact ⟨last, by simpa using h⟩
  | append_singleton rest hop ih =>
    rw [← List.append_assoc] at h
    exact ih (walk_concat.mp h).1

end Paths

section Index

variable {nodes : List Node} {edges : List Edge} {graph : TraversalGraph}

/-- What the indices of an accepted graph hold. -/
structure Indexed (graph : TraversalGraph) (nodes : List Node) (edges : List Edge) : Prop where
  node : ∀ nodeId node, graph.nodes[nodeId]? = some node ↔ node ∈ nodes ∧ node.id = nodeId
  ends : ∀ edge ∈ edges, edge.source ∈ graph.nodes ∧ edge.target ∈ graph.nodes
  adjacent : ∀ nodeId direction adjacent,
    adjacent ∈ graph.adjacent nodeId direction ↔ Leads edges direction nodeId adjacent

theorem addEdges_eq_ok {known : BTreeMap NodeId Node} {edges : List Edge} :
    ∀ {edgeIds : BTreeSet EdgeId} {outgoing incoming : EdgeIndex} {result : EdgeIndex × EdgeIndex},
      addEdges known edgeIds outgoing incoming edges = .ok result →
        ((edges.map Edge.id).Nodup ∧ ∀ edge ∈ edges, edge.id ∉ edgeIds) ∧
        (∀ edge ∈ edges, edge.source ∈ known ∧ edge.target ∈ known) ∧
        (∀ nodeId, result.1[nodeId]?.getD [] =
          outgoing[nodeId]?.getD [] ++ edges.filter (·.source = nodeId)) ∧
        ∀ nodeId, result.2[nodeId]?.getD [] =
          incoming[nodeId]?.getD [] ++ edges.filter (·.target = nodeId) := by
  induction edges with
  | nil =>
    intro edgeIds outgoing incoming result h
    obtain rfl : (outgoing, incoming) = result := by simpa [addEdges] using h
    simp
  | cons edge rest ih =>
    intro edgeIds outgoing incoming result h
    simp only [addEdges, validateGraphEdge, bind_eq_ok, ensure_eq_ok, decide_eq_true_eq] at h
    obtain ⟨⟨⟩, fresh, ⟨⟩, ⟨⟨⟩, source, ⟨⟩, target, -⟩, h⟩ := h
    obtain ⟨⟨nodup, new⟩, ends, outgoing', incoming'⟩ := ih h
    simp only [Std.ExtTreeSet.mem_insert, Std.LawfulEqOrd.compare_eq_iff_eq, not_or] at new
    refine ⟨⟨?_, ?_⟩, ?_, fun nodeId => ?_, fun nodeId => ?_⟩
    · rw [List.map_cons, List.nodup_cons]
      refine ⟨fun mem => ?_, nodup⟩
      obtain ⟨edge', mem, same⟩ := List.mem_map.mp mem
      exact (new edge' mem).1 same.symm
    · simp only [List.mem_cons, forall_eq_or_imp]
      exact ⟨fresh, fun edge' mem => (new edge' mem).2⟩
    · simp only [List.mem_cons, forall_eq_or_imp]
      exact ⟨⟨source, target⟩, ends⟩
    · rw [outgoing', pushTo_getD, List.filter_cons]
      by_cases same : edge.source = nodeId <;> simp [same]
    · rw [incoming', pushTo_getD, List.filter_cons]
      by_cases same : edge.target = nodeId <;> simp [same]

theorem mem_adjacent {graph : TraversalGraph} {nodeId : NodeId} {direction : TraversalDirection}
    (distinct : (edges.map Edge.id).Nodup)
    (stored : ∀ adjacent ∈ graph.incident nodeId direction, adjacent.edge ∈ edges)
    {adjacent : Adjacent} :
    adjacent ∈ graph.adjacent nodeId direction ↔ adjacent ∈ graph.incident nodeId direction := by
  unfold TraversalGraph.adjacent
  rw [mem_dedupBy, mem_sortBy]
  intro left hleft right hright same
  rw [mem_sortBy] at hleft hright
  simp only [sameAdjacent, Bool.and_eq_true, beq_iff_eq] at same
  obtain ⟨⟨sameId, sameNext⟩, sameReversed⟩ := same
  have sameEdge := List.inj_on_of_nodup_map distinct (stored right hright) (stored left hleft) sameId
  cases left
  cases right
  simp_all

theorem TraversalGraph.new_indexed (h : TraversalGraph.new nodes edges = .ok graph) :
    Indexed graph nodes edges := by
  simp only [TraversalGraph.new, bind_eq_ok, pure_eq_ok] at h
  obtain ⟨known, indexed, ⟨outgoing, incoming⟩, added, rfl⟩ := h
  obtain ⟨-, lookup⟩ := (indexBy_eq_ok _ _).mp indexed
  obtain ⟨⟨distinct, -⟩, ends, outgoing', incoming'⟩ := addEdges_eq_ok added
  have incident : ∀ nodeId direction adjacent,
      adjacent ∈ TraversalGraph.incident
        { nodes := known
          outgoing := outgoing.map fun _ adjacent => sortBy Edge.id adjacent
          incoming := incoming.map fun _ adjacent => sortBy Edge.id adjacent }
        nodeId direction ↔ Leads edges direction nodeId adjacent := by
    intro nodeId direction adjacent
    simp only [TraversalGraph.incident, List.mem_append, getD_map_sortBy]
    obtain ⟨edge, next, reversed⟩ := adjacent
    have outgoing' := outgoing' nodeId
    have incoming' := incoming' nodeId
    simp only at outgoing' incoming'
    cases direction <;> cases reversed <;>
      simp [outgoing', incoming', Leads, and_assoc]
  refine ⟨lookup, ends, fun nodeId direction adjacent => ?_⟩
  rw [mem_adjacent distinct, incident]
  exact fun adjacent mem => ((incident nodeId direction adjacent).mp mem).1

variable {request : TraversalRequest}

theorem Indexed.source (indexed : Indexed graph nodes edges) {hop : Hop}
    (allowed : HopAllowed nodes edges request hop) :
    graph.nodes[hop.trace.source.id]? = some hop.trace.source :=
  (indexed.node _ _).mpr ⟨allowed.source, rfl⟩

theorem Indexed.target (indexed : Indexed graph nodes edges) {hop : Hop}
    (allowed : HopAllowed nodes edges request hop) :
    graph.nodes[hop.next]? = some hop.trace.target :=
  (indexed.node _ _).mpr ⟨allowed.target, rfl⟩

theorem Indexed.crosses (indexed : Indexed graph nodes edges) {hop : Hop}
    (allowed : HopAllowed nodes edges request hop) :
    segmentIsCrossRepo graph hop.trace.source.id hop.next = .ok hop.crosses := by
  simp [segmentIsCrossRepo, indexed.source allowed, indexed.target allowed, Hop.crosses]

theorem Indexed.next_known (indexed : Indexed graph nodes edges) {nodeId : NodeId}
    {direction : TraversalDirection} {adjacent : Adjacent}
    (leads : Leads edges direction nodeId adjacent) : adjacent.next ∈ graph.nodes := by
  obtain ⟨stored, ends⟩ := leads
  have known := indexed.ends _ stored
  split at ends
  · rw [← ends.2.2]
    exact known.1
  · rw [← ends.2.2]
    exact known.2

theorem Walk.last_known {hops : List Hop} {last : NodeId} (indexed : Indexed graph nodes edges)
    (start : request.start ∈ graph.nodes) (walk : Walk nodes edges request hops last) :
    last ∈ graph.nodes := by
  induction hops using List.reverseRecOn with
  | nil => exact walk.chained ▸ start
  | append_singleton hops hop ih =>
    obtain ⟨-, allowed, rfl, -⟩ := walk_concat.mp walk
    exact Std.ExtTreeMap.mem_iff_isSome_getElem?.mpr (by simp [indexed.target allowed])

end Index

section Invariant

variable {W : Type} {weights : Weights W} {expired : Nat → Bool} {graph : TraversalGraph}
  {nodes : List Node} {edges : List Edge} {request : TraversalRequest}

/-- The state stands for the walk. -/
structure Stands (nodes : List Node) (edges : List Edge) (request : TraversalRequest)
    (hops : List Hop) (last : NodeId) (state : PathState W) : Prop where
  walk : Walk nodes edges request hops last
  nodes : state.nodes = request.start :: hops.map Hop.next
  steps : state.steps = hops.map Hop.adjacent
  crossings : state.crossRepoHops = crossings hops

theorem Stands.current {hops : List Hop} {last : NodeId} {state : PathState W}
    (stands : Stands nodes edges request hops last state) : state.nodes.getLast? = some last := by
  rw [stands.nodes]
  exact stands.walk.chained.getLast?

theorem Stands.depth {hops : List Hop} {last : NodeId} {state : PathState W}
    (stands : Stands nodes edges request hops last state) : state.steps.length = hops.length := by
  rw [stands.steps, List.length_map]

theorem start_stands :
    Stands nodes edges request [] request.start (PathState.start weights request.start) where
  walk := ⟨by simp, rfl, by simp, by simp, by simp [crossings]⟩
  nodes := rfl
  steps := rfl
  crossings := by simp [PathState.start, Query.crossings]

theorem Stands.extended {hops : List Hop} {hop : Hop} {last : NodeId} {state next : PathState W}
    (indexed : Indexed graph nodes edges) (stands : Stands nodes edges request hops last state)
    (walk : Walk nodes edges request (hops ++ [hop]) hop.next) (same : hop.trace.source.id = last)
    (extension : Extends weights graph state last hop.adjacent next) :
    Stands nodes edges request (hops ++ [hop]) hop.next next := by
  obtain ⟨weight, crossRepo, crossing, rfl⟩ := extension
  have crosses := indexed.crosses (walk_concat.mp walk).2.1
  rw [same] at crosses
  obtain rfl : crossRepo = hop.crosses := by
    simpa [Hop.adjacent, crosses] using crossing.symm
  refine ⟨walk, ?_, ?_, ?_⟩
  · simp [PathState.extended, stands.nodes, Hop.adjacent]
  · simp [PathState.extended, stands.steps]
  · cases crosses : hop.crosses <;>
      simp [PathState.extended, stands.crossings, Query.crossings, crosses]

theorem Stands.walk_of_eligible {hops : List Hop} {last : NodeId} {state : PathState W}
    (indexed : Indexed graph nodes edges) (start : request.start ∈ graph.nodes)
    (stands : Stands nodes edges request hops last state)
    (shallow : hops.length < request.options.maxDepth) {adjacent : Adjacent}
    (leads : Leads edges request.options.direction last adjacent)
    (eligible : Eligible graph request state last adjacent) :
    ∃ hop, hop.adjacent = adjacent ∧ hop.trace.source.id = last ∧
      Walk nodes edges request (hops ++ [hop]) hop.next := by
  obtain ⟨target, found, accepted⟩ := eligible.accepted
  obtain ⟨targetStored, targetId⟩ := (indexed.node _ _).mp found
  obtain ⟨source, known⟩ := Option.isSome_iff_exists.mp
    (Std.ExtTreeMap.mem_iff_isSome_getElem?.mp (stands.walk.last_known indexed start))
  obtain ⟨sourceStored, sourceId⟩ := (indexed.node _ _).mp known
  let hop : Hop := ⟨⟨source, adjacent.edge, target⟩, adjacent.reversed⟩
  have same : hop.adjacent = adjacent := by
    simp only [Hop.adjacent, Hop.next, hop, targetId]
  have allowed : HopAllowed nodes edges request hop :=
    ⟨sourceStored, targetStored, by rw [same, sourceId]; exact leads, eligible.confirmed,
      eligible.filters, accepted⟩
  have within := eligible.crossings hop.crosses (by
    rw [← sourceId, ← targetId]
    exact indexed.crosses allowed)
  refine ⟨hop, same, sourceId, walk_concat.mpr
    ⟨by rw [sourceId]; exact stands.walk, allowed, rfl, ?_, shallow, stands.crossings ▸ within⟩⟩
  rw [← stands.nodes]
  simpa [Hop.next, hop, targetId] using eligible.fresh

theorem Stands.eligible_of_walk {hops : List Hop} {hop : Hop} {last next : NodeId}
    {state : PathState W} (indexed : Indexed graph nodes edges)
    (stands : Stands nodes edges request hops last state)
    (walk : Walk nodes edges request (hops ++ [hop]) next) :
    hop.trace.source.id = last ∧ Leads edges request.options.direction last hop.adjacent ∧
      Eligible graph request state last hop.adjacent := by
  obtain ⟨shorter, allowed, -, fresh, -, within⟩ := walk_concat.mp walk
  have same : hop.trace.source.id = last := by
    have ends := shorter.chained.getLast?
    rw [stands.walk.chained.getLast?] at ends
    simpa using ends.symm
  subst same
  refine ⟨rfl, allowed.leads, allowed.filters, allowed.confirmed, ?_, ⟨_, indexed.target allowed,
    allowed.accepted⟩, fun crossRepo crossing => ?_⟩
  · rw [stands.nodes]
    exact fresh
  · have crosses := indexed.crosses allowed
    obtain rfl : crossRepo = hop.crosses := by
      simpa [Hop.adjacent, crosses] using crossing.symm
    rwa [stands.crossings]

def PathSegment.hop (segment : PathSegment W) : Hop := ⟨segment.trace, segment.reversed⟩

def TraversalPath.hops (path : TraversalPath W) : List Hop := path.segments.map PathSegment.hop

/-- The errors of a search are errors of the cost function. -/
def CostError (weights : Weights W) (request : TraversalRequest) (e : QueryError) : Prop :=
  ∃ edge, weights.weight request.options edge = .error e

theorem materializeSegment_hop {hop : Hop} (indexed : Indexed graph nodes edges)
    (allowed : HopAllowed nodes edges request hop) :
    materializeSegment weights graph request (some hop.trace.source.id) (some hop.next)
        hop.adjacent =
      (weights.weight request.options hop.trace.edge).map fun weight =>
        ⟨hop.trace, if hop.crosses then .crossRepository else .sameRepository, hop.reversed,
          weight⟩ := by
  simp only [materializeSegment, Option.elim_some, ok_bind, indexed.source allowed,
    indexed.target allowed, Hop.adjacent, Hop.crosses, decide_eq_true_eq]
  cases weights.weight request.options hop.trace.edge <;> rfl

theorem materializeFrom_hops (indexed : Indexed graph nodes edges) {all : List NodeId}
    {hops : List Hop} : ∀ {index : Nat} {first last : NodeId},
      (∀ hop ∈ hops, HopAllowed nodes edges request hop) → Chained first hops last →
      all.drop index = first :: hops.map Hop.next →
      (∀ segments, materializeFrom weights graph request all index (hops.map Hop.adjacent) =
        .ok segments → segments.map PathSegment.hop = hops) ∧
      ∀ e, materializeFrom weights graph request all index (hops.map Hop.adjacent) = .error e →
        CostError weights request e := by
  induction hops with
  | nil =>
    intro index first last _ _ _
    simp [materializeFrom]
  | cons hop rest ih =>
    intro index first last allowed chained window
    have here : all[index]? = some hop.trace.source.id := by
      rw [chained.1, ← List.head?_drop, window]
      rfl
    have next : all.drop (index + 1) = hop.next :: rest.map Hop.next := by
      rw [← List.drop_drop, window]
      rfl
    have there : all[index + 1]? = some hop.next := by
      rw [← List.head?_drop, next]
      rfl
    obtain ⟨good, bad⟩ := ih (fun hop' mem => allowed hop' (List.mem_cons_of_mem _ mem))
      chained.2 next
    simp only [List.map_cons, materializeFrom, here, there,
      materializeSegment_hop indexed (allowed hop List.mem_cons_self)]
    cases cost : weights.weight request.options hop.trace.edge with
    | error e => exact ⟨fun _ h => (by cases h), fun e' h => (by cases h; exact ⟨_, cost⟩)⟩
    | ok weight =>
      cases tail : materializeFrom weights graph request all (index + 1)
          (rest.map Hop.adjacent) with
      | error e => exact ⟨fun _ h => (by cases h), fun e' h => (by cases h; exact bad _ tail)⟩
      | ok segments =>
        refine ⟨fun _ h => ?_, fun _ h => (by cases h)⟩
        cases h
        rw [List.map_cons, good segments tail]
        rfl

theorem Stands.materialize {hops : List Hop} {last : NodeId} {state : PathState W}
    (indexed : Indexed graph nodes edges) (stands : Stands nodes edges request hops last state) :
    (∀ path, materializePath weights graph request state = .ok path → path.hops = hops) ∧
      ∀ e, materializePath weights graph request state = .error e →
        CostError weights request e := by
  obtain ⟨good, bad⟩ := @materializeFrom_hops W weights graph nodes edges request indexed state.nodes
    hops 0 request.start last stands.walk.allowed stands.walk.chained (by simp [stands.nodes])
  simp only [materializePath, stands.steps]
  cases made : materializeFrom weights graph request state.nodes 0 (hops.map Hop.adjacent) with
  | error e => exact ⟨fun _ h => (by cases h), fun e' h => (by cases h; exact bad _ made)⟩
  | ok segments =>
    refine ⟨fun path h => ?_, fun _ h => (by cases h)⟩
    cases h
    exact good segments made

/-- Every confirmed path begins with the walk of a pending state. -/
def Covered (nodes : List Node) (edges : List Edge) (request : TraversalRequest)
    (pending : List (PathState W)) : Prop :=
  ∀ hops, ConfirmedPath nodes edges request hops →
    ∃ walk rest last, hops = walk ++ rest ∧
      ∃ state ∈ pending, Stands nodes edges request walk last state

structure SearchInvariant (graph : TraversalGraph) (nodes : List Node) (edges : List Edge)
    (request : TraversalRequest) (pending : List (PathState W)) (paths : List (TraversalPath W))
    (runtime : TraversalRuntime) : Prop where
  stands : ∀ state ∈ pending, ∃ hops last, Stands nodes edges request hops last state
  frontier : ∀ nodeId ∈ runtime.frontier, nodeId ∈ graph.nodes
  found : ∀ path ∈ paths, ConfirmedPath nodes edges request path.hops
  covered : paths = [] → runtime.truncated = false → Covered nodes edges request pending

namespace SearchInvariant

variable {pending rest : List (PathState W)} {paths : List (TraversalPath W)}
  {runtime runtime' : TraversalRuntime} {state : PathState W}

theorem initial (start : request.start ∈ graph.nodes) :
    SearchInvariant graph nodes edges request [PathState.start weights request.start] []
      (.new request) := by
  refine ⟨fun state mem => ?_, fun nodeId mem => ?_, by simp, fun _ _ hops _ => ?_⟩
  · rw [List.mem_singleton.mp mem]
    exact ⟨[], request.start, start_stands⟩
  · have same : request.start = nodeId := by simpa [TraversalRuntime.new] using mem
    exact same ▸ start
  · exact ⟨[], hops, request.start, rfl, _, List.mem_singleton_self _, start_stands⟩

theorem perm {pending' : List (PathState W)} (perm : pending.Perm pending')
    (h : SearchInvariant graph nodes edges request pending paths runtime) :
    SearchInvariant graph nodes edges request pending' paths runtime where
  stands state mem := h.stands state (perm.mem_iff.mpr mem)
  frontier := h.frontier
  found := h.found
  covered unfound uncut hops confirmed := by
    obtain ⟨walk, rest, last, split, state, mem, stands⟩ := h.covered unfound uncut hops confirmed
    exact ⟨walk, rest, last, split, state, perm.mem_iff.mp mem, stands⟩

theorem grow (h : SearchInvariant graph nodes edges request pending paths runtime)
    (grows : runtime.Grows runtime') :
    SearchInvariant graph nodes edges request pending paths runtime' where
  stands := h.stands
  frontier := grows.frontier ▸ h.frontier
  found := h.found
  covered unfound uncut := by
    refine h.covered unfound ?_
    cases before : runtime.truncated with
    | false => rfl
    | true => simp [grows.truncated before] at uncut

theorem recordFrontier (h : SearchInvariant graph nodes edges request pending paths runtime)
    {nodeId : NodeId} (known : nodeId ∈ graph.nodes) (depth : Nat) :
    SearchInvariant graph nodes edges request pending paths
      (runtime.recordFrontier nodeId depth) := by
  have kept : (runtime.recordFrontier nodeId depth).truncated = runtime.truncated := by
    unfold TraversalRuntime.recordFrontier
    split
    · rfl
    · split <;> rfl
  refine ⟨h.stands, fun other mem => ?_, h.found, by rw [kept]; exact h.covered⟩
  unfold TraversalRuntime.recordFrontier at mem
  split at mem
  · have same : nodeId = other := by simpa using mem
    exact same ▸ known
  · split at mem
    · simp only [Std.ExtTreeSet.mem_insert, Std.LawfulEqOrd.compare_eq_iff_eq] at mem
      rcases mem with same | mem
      · exact same ▸ known
      · exact h.frontier other mem
    · exact h.frontier other mem

theorem drop (h : SearchInvariant graph nodes edges request (state :: rest) paths runtime)
    (cut : runtime.truncated = true) :
    SearchInvariant graph nodes edges request rest paths runtime where
  stands state mem := h.stands state (List.mem_cons_of_mem _ mem)
  frontier := h.frontier
  found := h.found
  covered _ uncut := by simp [cut] at uncut

theorem arrive (h : SearchInvariant graph nodes edges request (state :: rest) paths runtime)
    (indexed : Indexed graph nodes edges) {path : TraversalPath W}
    (target : state.nodes.getLast? = some request.target)
    (made : materializePath weights graph request state = .ok path) :
    SearchInvariant graph nodes edges request rest (paths ++ [path]) runtime where
  stands state mem := h.stands state (List.mem_cons_of_mem _ mem)
  frontier := h.frontier
  found path' mem := by
    rcases List.mem_append.mp mem with mem | mem
    · exact h.found path' mem
    · obtain ⟨hops, last, stands⟩ := h.stands state List.mem_cons_self
      obtain rfl : last = request.target := by simpa [stands.current] using target
      rw [List.mem_singleton.mp mem, (stands.materialize indexed).1 path made]
      exact stands.walk
  covered unfound := by simp at unfound

theorem expand (h : SearchInvariant graph nodes edges request (state :: rest) paths runtime)
    (indexed : Indexed graph nodes edges) (start : request.start ∈ graph.nodes)
    {current : NodeId} (last : state.nodes.getLast? = some current)
    (elsewhere : current ≠ request.target)
    (shallow : state.steps.length < request.options.maxDepth) {expansion : Expansion W}
    (expands : expandState weights expired graph request state runtime = .ok expansion) :
    SearchInvariant graph nodes edges request (rest ++ expansion.pushed) paths
      expansion.runtime := by
  obtain ⟨walk, current', stands⟩ := h.stands state List.mem_cons_self
  obtain rfl : current' = current := by simpa [stands.current] using last
  simp only [expandState, stands.current] at expands
  obtain ⟨pushed, expanded⟩ := visitAll_expanded expands
  have result : expansion.pushed = pushed := by simpa using expanded.result
  rw [result]
  have grown := h.grow expanded.grows
  refine ⟨fun next mem => ?_, grown.frontier, h.found, fun unfound uncut hops confirmed => ?_⟩
  · rcases List.mem_append.mp mem with mem | mem
    · exact h.stands next (List.mem_cons_of_mem _ mem)
    · obtain ⟨adjacent, listed, eligible, extension⟩ := expanded.sound next mem
      obtain ⟨hop, rfl, same, longer⟩ := stands.walk_of_eligible indexed start
        (stands.depth ▸ shallow) ((indexed.adjacent _ _ _).mp listed) eligible
      exact ⟨_, _, stands.extended indexed longer same extension⟩
  · obtain ⟨walk', tail, last', split, state', mem, stands'⟩ :=
      grown.covered unfound uncut hops confirmed
    rcases List.mem_cons.mp mem with rfl | mem
    · cases tail with
      | nil =>
        have arrives := stands'.current
        rw [List.append_nil] at split
        subst split
        have ends := confirmed.chained.getLast?
        rw [← stands'.nodes, stands.current] at ends
        exact absurd (by simpa using ends) elsewhere
      | cons hop tail =>
        subst split
        have same : last' = current' := by simpa [stands'.current] using stands.current
        subst same
        rw [← List.singleton_append, ← List.append_assoc] at confirmed
        obtain ⟨middle, shorter⟩ := Walk.initial confirmed
        obtain ⟨source, leads, eligible⟩ := stands'.eligible_of_walk indexed shorter
        obtain ⟨next, mem', extension⟩ := expanded.complete uncut _
          ((indexed.adjacent _ _ _).mpr leads) eligible
        have arrives : hop.next = middle := (walk_concat.mp shorter).2.2.1
        subst arrives
        exact ⟨walk' ++ [hop], tail, hop.next, by simp, next, List.mem_append_right _ mem',
          stands'.extended indexed shorter source extension⟩
    · exact ⟨walk', tail, last', split, state', List.mem_append_left _ mem, stands'⟩

theorem expand_error (h : SearchInvariant graph nodes edges request (state :: rest) paths runtime)
    (indexed : Indexed graph nodes edges) (start : request.start ∈ graph.nodes) {e : QueryError}
    (expands : expandState weights expired graph request state runtime' = .error e) :
    CostError weights request e := by
  obtain ⟨walk, last, stands⟩ := h.stands state List.mem_cons_self
  simp only [expandState, stands.current] at expands
  obtain ⟨adjacent, listed, crossing | cost⟩ := visitAll_error expands
  · have known := stands.walk.last_known indexed start
    have next := indexed.next_known ((indexed.adjacent _ _ _).mp listed)
    rw [Std.ExtTreeMap.mem_iff_isSome_getElem?] at known next
    obtain ⟨source, hsource⟩ := Option.isSome_iff_exists.mp known
    obtain ⟨target, htarget⟩ := Option.isSome_iff_exists.mp next
    simp [segmentIsCrossRepo, hsource, htarget] at crossing
  · exact ⟨_, cost⟩

end SearchInvariant

/-- What a search owes to its caller. -/
structure Answer (graph : TraversalGraph) (nodes : List Node) (edges : List Edge)
    (request : TraversalRequest) (paths : List (TraversalPath W)) (runtime : TraversalRuntime) :
    Prop where
  frontier : ∀ nodeId ∈ runtime.frontier, nodeId ∈ graph.nodes
  found : ∀ path ∈ paths, ConfirmedPath nodes edges request path.hops
  complete : paths = [] → runtime.truncated = false →
    ∀ hops, ¬ ConfirmedPath nodes edges request hops

def Answered (weights : Weights W) (graph : TraversalGraph) (nodes : List Node)
    (edges : List Edge) (request : TraversalRequest) : Outcome W → Prop
  | .ok (paths, runtime) => Answer graph nodes edges request paths runtime
  | .error e => CostError weights request e

theorem SearchInvariant.answer {pending : List (PathState W)} {paths : List (TraversalPath W)}
    {runtime : TraversalRuntime}
    (h : SearchInvariant graph nodes edges request pending paths runtime)
    (done : pending = [] ∨ runtime.truncated = true ∨ paths ≠ []) :
    Answer graph nodes edges request paths runtime := by
  refine ⟨h.frontier, h.found, fun unfound uncut hops confirmed => ?_⟩
  obtain ⟨walk, rest, last, -, state, mem, -⟩ := h.covered unfound uncut hops confirmed
  rcases done with rfl | cut | found
  · simp at mem
  · simp [cut] at uncut
  · exact found unfound

theorem bfsTurn_invariant (indexed : Indexed graph nodes edges)
    (start : request.start ∈ graph.nodes) (s : Breadth W)
    (h : SearchInvariant graph nodes edges request s.queue [] s.runtime) :
    (bfsTurn weights expired graph request s).Holds
      (fun s => SearchInvariant graph nodes edges request s.queue [] s.runtime)
      (Answered weights graph nodes edges request) := by
  unfold bfsTurn
  split
  · next empty => exact h.answer (.inl empty)
  next state queue popped =>
  rw [popped] at h
  obtain ⟨hops, last, stands⟩ := h.stands state List.mem_cons_self
  have looked := h.grow (@TraversalRuntime.timedOut_grows expired s.runtime)
  dsimp only
  split
  · next late => exact looked.answer (.inr (.inl (TraversalRuntime.timedOut_late late)))
  simp only [stands.current]
  have settled := looked.recordFrontier (stands.walk.last_known indexed start) state.steps.length
  split
  · next arrived =>
    cases made : materializePath weights graph request state with
    | error e => exact (stands.materialize indexed).2 e made
    | ok path =>
      exact (settled.arrive indexed (arrived ▸ stands.current) made).answer (.inr (.inr (by simp)))
  next elsewhere =>
  split
  · exact (settled.grow (TraversalRuntime.truncate_grows _ _)).drop rfl
  next shallow =>
  split
  · next e expands => exact settled.expand_error indexed start expands
  next expansion expands =>
  have grown := settled.expand indexed start stands.current elsewhere (by omega) expands
  split
  · next done => exact grown.answer (.inr (.inl (by simp_all)))
  · exact grown

end Invariant

section Weighted

variable {W : Type} [LinearOrder W] {weights : Weights W} {expired : Nat → Bool}
  {graph : TraversalGraph} {nodes : List Node} {edges : List Edge} {request : TraversalRequest}

theorem Answer.sorted {paths : List (TraversalPath W)} {runtime : TraversalRuntime}
    (h : Answer graph nodes edges request paths runtime) :
    Answer graph nodes edges request (sortBy pathOrder paths) runtime := by
  refine ⟨h.frontier, fun path mem => h.found path (by simpa using mem), fun unfound => ?_⟩
  refine h.complete (List.eq_nil_iff_forall_not_mem.mpr fun path mem => ?_)
  have listed : path ∈ sortBy pathOrder paths := (mem_sortBy pathOrder).mpr mem
  simp [unfound] at listed

theorem weightedTurn_invariant (indexed : Indexed graph nodes edges)
    (start : request.start ∈ graph.nodes) {wanted : Nat} (positive : 0 < wanted) (s : Weighted W)
    (h : SearchInvariant graph nodes edges request s.candidates s.paths s.runtime) :
    (weightedTurn weights expired graph request wanted s).Holds
      (fun s => SearchInvariant graph nodes edges request s.candidates s.paths s.runtime)
      (Answered weights graph nodes edges request) := by
  unfold weightedTurn
  dsimp only
  split
  · next absent => exact (h.answer (.inl (eq_nil_of_selected absent))).sorted
  next state chosen =>
  split
  · next enough =>
    refine (h.answer (.inr (.inr fun unfound => ?_))).sorted
    simp [unfound] at enough
    omega
  replace h := h.perm (perm_of_chosen chosen)
  obtain ⟨hops, last, stands⟩ := h.stands state List.mem_cons_self
  have looked := h.grow (@TraversalRuntime.timedOut_grows expired s.runtime)
  split
  · next late => exact (looked.answer (.inr (.inl (TraversalRuntime.timedOut_late late)))).sorted
  simp only [stands.current]
  have settled := looked.recordFrontier (stands.walk.last_known indexed start) state.steps.length
  split
  · next arrived =>
    cases made : materializePath weights graph request state with
    | error e => exact (stands.materialize indexed).2 e made
    | ok path => exact settled.arrive indexed (arrived ▸ stands.current) made
  next elsewhere =>
  split
  · exact (settled.grow (TraversalRuntime.truncate_grows _ _)).drop rfl
  next shallow =>
  split
  · next e expands => exact settled.expand_error indexed start expands
  next expansion expands =>
  exact settled.expand indexed start stands.current elsewhere (by omega) expands

theorem searchPaths_answered (indexed : Indexed graph nodes edges)
    (start : request.start ∈ graph.nodes) (positive : 0 < request.options.k)
    (apart : request.start ≠ request.target) :
    Answered weights graph nodes edges request
      (searchPaths graph request weights expired (.new request)) := by
  have initial : SearchInvariant graph nodes edges request [PathState.start weights request.start]
      [] (.new request) := .initial start
  unfold searchPaths
  rw [if_neg apart]
  split
  · exact loop_holds _ _ _ (bfsTurn_invariant indexed start) _ _ initial
  · exact loop_holds _ _ _ (weightedTurn_invariant indexed start Nat.one_pos) _ _ initial
  · exact loop_holds _ _ _ (weightedTurn_invariant indexed start positive) _ _ initial

end Weighted

section Errors

def QueryError.isInconsistentPath : QueryError → Bool
  | .inconsistentPath _ => true
  | _ => false

variable {e : QueryError}

theorem validateTraversalRequest_error {request : TraversalRequest}
    (h : validateTraversalRequest request = .error e) : e.isInconsistentPath = false := by
  have costs : ∀ items kinds, validateCosts kinds items = .error e →
      e.isInconsistentPath = false := by
    intro items
    induction items with
    | nil => intro kinds h; simp [validateCosts] at h
    | cons item rest ih =>
      intro kinds h
      simp only [validateCosts, bind_eq_error, ensure_eq_error] at h
      rcases h with ⟨-, rfl⟩ | ⟨⟨⟩, -, h⟩
      · rfl
      · exact ih _ h
  simp only [validateTraversalRequest, bind_eq_error, ensure_eq_error] at h
  rcases h with ⟨-, rfl⟩ | ⟨⟨⟩, -, ⟨-, rfl⟩ | ⟨⟨⟩, -, h⟩⟩
  · rfl
  · rfl
  · exact costs _ _ h

theorem addEdges_error {known : BTreeMap NodeId Node} {edges : List Edge} :
    ∀ {edgeIds : BTreeSet EdgeId} {outgoing incoming : EdgeIndex},
      addEdges known edgeIds outgoing incoming edges = .error e → e.isInconsistentPath = false := by
  induction edges with
  | nil => intro edgeIds outgoing incoming h; simp [addEdges] at h
  | cons edge rest ih =>
    intro edgeIds outgoing incoming h
    simp only [addEdges, validateGraphEdge, bind_eq_error, ensure_eq_error] at h
    rcases h with ⟨-, rfl⟩ | ⟨⟨⟩, -, (⟨-, rfl⟩ | ⟨⟨⟩, -, ⟨-, rfl⟩ | ⟨⟨⟩, -, -, rfl⟩⟩) | ⟨⟨⟩, -, h⟩⟩
    · rfl
    · rfl
    · rfl
    · rfl
    · exact ih h

theorem TraversalGraph.new_error {nodes : List Node} {edges : List Edge}
    (h : TraversalGraph.new nodes edges = .error e) : e.isInconsistentPath = false := by
  simp only [TraversalGraph.new, bind_eq_error] at h
  rcases h with h | ⟨known, -, h | ⟨indices, -, h⟩⟩
  · obtain ⟨node, -, rfl⟩ := indexFrom_eq_error _ _ h
    rfl
  · exact addEdges_error h
  · cases h

theorem mapM_lookUp {graph : TraversalGraph} {nodeIds : List NodeId}
    (known : ∀ nodeId ∈ nodeIds, nodeId ∈ graph.nodes) :
    ∃ found, nodeIds.mapM (lookUp graph) = .ok found := by
  induction nodeIds with
  | nil => exact ⟨[], rfl⟩
  | cons nodeId rest ih =>
    obtain ⟨found, rest'⟩ := ih fun other mem => known other (List.mem_cons_of_mem _ mem)
    obtain ⟨node, here⟩ := Option.isSome_iff_exists.mp
      (Std.ExtTreeMap.mem_iff_isSome_getElem?.mp (known nodeId List.mem_cons_self))
    refine ⟨node :: found, ?_⟩
    rw [List.mapM_cons, rest', lookUp, here]
    rfl

theorem edgeWeight_error {options : TraversalOptions} {edge : Edge}
    (h : edgeWeight options edge = .error e) : e.isInconsistentPath = false := by
  unfold edgeWeight at h
  dsimp only at h
  split at h
  · simp at h
  · cases h
    rfl

end Errors

section Traverse

variable {expired : Nat → Bool} {nodes : List Node} {edges : List Edge}
  {request : TraversalRequest}

theorem requests_some_path (valid : validateTraversalRequest request = .ok ()) :
    0 < request.options.k := by
  simp only [validateTraversalRequest, bind_eq_ok, ensure_eq_ok] at valid
  obtain ⟨⟨⟩, limits, -⟩ := valid
  simp only [limitsValid, Bool.not_eq_true', Bool.or_eq_false_iff, beq_eq_false_iff_ne] at limits
  omega

theorem traverse_searched {graph : TraversalGraph}
    (valid : validateTraversalRequest request = .ok ())
    (built : TraversalGraph.new nodes edges = .ok graph) (start : request.start ∈ graph.nodes)
    (apart : request.start ≠ request.target) :
    Answered doubles graph nodes edges request
      (searchPaths graph request doubles expired (.new request)) :=
  searchPaths_answered (TraversalGraph.new_indexed built) start (requests_some_path valid) apart

theorem searchPaths_error {graph : TraversalGraph} {e : QueryError}
    (valid : validateTraversalRequest request = .ok ())
    (built : TraversalGraph.new nodes edges = .ok graph) (start : request.start ∈ graph.nodes)
    (failed : searchPaths graph request doubles expired (.new request) = .error e) :
    e.isInconsistentPath = false := by
  by_cases apart : request.start = request.target
  · simp [searchPaths, apart] at failed
  · have answered := @traverse_searched expired _ _ _ _ valid built start apart
    rw [failed] at answered
    obtain ⟨edge, cost⟩ := answered
    exact edgeWeight_error cost

theorem searchPaths_frontier {graph : TraversalGraph} {paths : List (TraversalPath F64)}
    {runtime : TraversalRuntime} (valid : validateTraversalRequest request = .ok ())
    (built : TraversalGraph.new nodes edges = .ok graph) (start : request.start ∈ graph.nodes)
    (searched : searchPaths graph request doubles expired (.new request) = .ok (paths, runtime)) :
    ∀ nodeId ∈ runtime.frontier, nodeId ∈ graph.nodes := by
  by_cases apart : request.start = request.target
  · have same : TraversalRuntime.new request = runtime := by
      simp only [searchPaths, apart, ↓reduceIte, Except.ok.injEq, Prod.mk.injEq] at searched
      exact searched.2
    subst same
    intro nodeId mem
    have same : request.start = nodeId := by simpa [TraversalRuntime.new] using mem
    exact same ▸ start
  · have answered := @traverse_searched expired _ _ _ _ valid built start apart
    rw [searched] at answered
    exact answered.frontier

theorem traverse_error {e : QueryError} (h : traverse expired nodes edges request = .error e) :
    e.isInconsistentPath = false := by
  simp only [traverse, traverseWith, TraversalGraph.requireAnchor, bind_eq_error,
    ensure_eq_error] at h
  rcases h with h | ⟨⟨⟩, valid, h | ⟨graph, built, ⟨-, rfl⟩ | ⟨⟨⟩, start, ⟨-, rfl⟩ |
    ⟨⟨⟩, -, h | ⟨⟨paths, runtime⟩, searched, h⟩⟩⟩⟩⟩
  · exact validateTraversalRequest_error h
  · exact TraversalGraph.new_error h
  · rfl
  · rfl
  · exact searchPaths_error valid built (by simpa using start) h
  · have known := searchPaths_frontier valid built (by simpa using start) searched
    have listed : ∀ nodeId ∈ runtime.frontier.toList, nodeId ∈ graph.nodes := fun nodeId mem =>
      known nodeId (by simpa using mem)
    obtain ⟨frontier, found⟩ := mapM_lookUp listed
    rw [buildTraversalReport, found] at h
    cases h

/-- Every returned path is confirmed, and an empty answer that hit no bound is
right. No assumption on the clock is needed: a timeout counts as a bound. -/
theorem traverse_sound_complete (expired : Nat → Bool) (nodes : List Node) (edges : List Edge)
    (request : TraversalRequest) :
    (∀ nodeId, traverse expired nodes edges request ≠ .error (.inconsistentPath nodeId)) ∧
    (request.start ≠ request.target → ∀ report,
      traverse expired nodes edges request = .ok report →
        (∀ path ∈ report.paths, ConfirmedPath nodes edges request path.hops) ∧
        (report.paths = [] → report.truncated = false →
          ∀ hops, ¬ ConfirmedPath nodes edges request hops)) := by
  refine ⟨fun nodeId failed => by simpa [QueryError.isInconsistentPath] using traverse_error failed,
    fun apart report h => ?_⟩
  simp only [traverse, traverseWith, TraversalGraph.requireAnchor, bind_eq_ok, ensure_eq_ok] at h
  obtain ⟨⟨⟩, valid, graph, built, ⟨⟩, start, ⟨⟩, -, ⟨paths, runtime⟩, searched, h⟩ := h
  have answered := @traverse_searched expired _ _ _ _ valid built (by simpa using start) apart
  rw [searched] at answered
  simp only [buildTraversalReport, bind_eq_ok, pure_eq_ok] at h
  obtain ⟨frontier, -, rfl⟩ := h
  exact ⟨answered.found, answered.complete⟩

def exampleNode (id : NodeId) : Node := ⟨id, .service, some "r", id, id⟩

def exampleNodes : List Node := ["a", "b", "c"].map exampleNode

def exampleEdges : List Edge := [⟨"ab", "a", "b", .callsRemote, .ofNat 1, .confirmed, []⟩]

/-- One request that is answered by a path, and one whose empty answer is right. -/
theorem traverse_sound_complete_abc :
    (∃ report, traverse (fun _ => false) exampleNodes exampleEdges ⟨"a", "b", {}, {}⟩ = .ok report ∧
      report.paths.length = 1 ∧
      ∀ path ∈ report.paths, ConfirmedPath exampleNodes exampleEdges ⟨"a", "b", {}, {}⟩ path.hops) ∧
    ∀ hops, ¬ ConfirmedPath exampleNodes exampleEdges ⟨"a", "c", {}, {}⟩ hops := by
  have found : isOkAnd (traverse (fun _ => false) exampleNodes exampleEdges ⟨"a", "b", {}, {}⟩)
      (fun report => report.paths.length = 1) = true := by
    decide +kernel
  have absent : isOkAnd (traverse (fun _ => false) exampleNodes exampleEdges ⟨"a", "c", {}, {}⟩)
      (fun report => report.paths.length = 0 ∧ report.truncated = false) = true := by
    decide +kernel
  obtain ⟨report, run, one⟩ := isOkAnd_iff.mp found
  obtain ⟨empty, run', none'⟩ := isOkAnd_iff.mp absent
  obtain ⟨noPath, uncut⟩ := of_decide_eq_true none'
  refine ⟨⟨report, run, of_decide_eq_true one, ?_⟩, ?_⟩
  · exact ((traverse_sound_complete _ _ _ _).2 (by decide) report run).1
  · exact ((traverse_sound_complete _ _ _ _).2 (by decide) empty run').2
      (List.length_eq_zero_iff.mp noPath) uncut

end Traverse

end CodeSystemGraph.Query
