import Mathlib.Algebra.Order.Field.Rat
import Mathlib.Algebra.Order.Ring.Cast
import CodeSystemGraph.BestFirst
import CodeSystemGraph.QueryPaths

/-! The searches of `traverse` with exact weights: what `weighted_paths` and `bfs` return
when neither the clock nor the limits on edges and nodes stop them. A pending state is a
prefix of the walks it can still become, so that both searches are best-first enumerations
of admissible walks, one by total weight and one by length. -/

namespace CodeSystemGraph.Query
open Ieee Model Ordered Iterate BestFirst

section Walks

variable {graph : TraversalGraph} {nodes : List Node} {edges : List Edge} {request : TraversalRequest}

theorem hops_inj (indexed : Indexed graph nodes edges) {hops : List Hop} :
    ∀ {hops' : List Hop} {first last last' : NodeId},
      (∀ hop ∈ hops, HopAllowed nodes edges request hop) →
      (∀ hop ∈ hops', HopAllowed nodes edges request hop) →
      Chained first hops last → Chained first hops' last' →
      hops.map Hop.adjacent = hops'.map Hop.adjacent → hops = hops' := by
  induction hops with
  | nil =>
    intro hops' first last last' _ _ _ _ same
    exact (List.map_eq_nil_iff.1 same.symm).symm
  | cons hop rest ih =>
    intro hops' first last last' allowed allowed' chained chained' same
    cases hops' with
    | nil => cases same
    | cons hop' rest' =>
      rw [List.map_cons, List.map_cons, List.cons.injEq] at same
      have next : hop.next = hop'.next := congrArg Adjacent.next same.1
      have source := indexed.source (allowed hop List.mem_cons_self)
      have target := indexed.target (allowed hop List.mem_cons_self)
      rw [chained.1, ← chained'.1, indexed.source (allowed' hop' List.mem_cons_self)] at source
      rw [next, indexed.target (allowed' hop' List.mem_cons_self)] at target
      have head : hop = hop' := by
        obtain ⟨⟨_, _, _⟩, _⟩ := hop
        obtain ⟨⟨_, _, _⟩, _⟩ := hop'
        simp only [Hop.adjacent, Adjacent.mk.injEq] at same
        simp_all
      rw [head, ih (fun hop mem => allowed hop (List.mem_cons_of_mem _ mem))
        (fun hop mem => allowed' hop (List.mem_cons_of_mem _ mem)) chained.2
        (next ▸ chained'.2) same.2]

theorem Walk.hops_eq (indexed : Indexed graph nodes edges) {hops hops' : List Hop}
    {last last' : NodeId} (walk : Walk nodes edges request hops last)
    (walk' : Walk nodes edges request hops' last')
    (same : hops.map Hop.adjacent = hops'.map Hop.adjacent) : hops = hops' :=
  hops_inj indexed walk.allowed walk'.allowed walk.chained walk'.chained same

def Admissible (nodes : List Node) (edges : List Edge) (request : TraversalRequest)
    (steps : List Adjacent) : Prop :=
  ∃ hops, ConfirmedPath nodes edges request hops ∧ hops.map Hop.adjacent = steps

theorem map_next_adjacent (hops : List Hop) :
    (hops.map Hop.adjacent).map Adjacent.next = hops.map Hop.next := by
  rw [List.map_map]
  rfl

theorem Admissible.last {steps : List Adjacent} (h : Admissible nodes edges request steps) :
    (request.start :: steps.map Adjacent.next).getLast? = some request.target := by
  obtain ⟨hops, confirmed, rfl⟩ := h
  rw [map_next_adjacent]
  exact confirmed.chained.getLast?

theorem Admissible.nodup {steps : List Adjacent} (h : Admissible nodes edges request steps) :
    (request.start :: steps.map Adjacent.next).Nodup := by
  obtain ⟨hops, confirmed, rfl⟩ := h
  rw [map_next_adjacent]
  exact confirmed.simple

theorem Admissible.depth {steps : List Adjacent} (h : Admissible nodes edges request steps) :
    steps.length ≤ request.options.maxDepth := by
  obtain ⟨hops, confirmed, rfl⟩ := h
  rw [List.length_map]
  exact confirmed.depth

theorem Admissible.only {steps word : List Adjacent} (h : Admissible nodes edges request steps)
    (h' : Admissible nodes edges request word) (above : steps <+: word) : word = steps := by
  obtain ⟨rest, rfl⟩ := above
  have nodup := h'.nodup
  have last := h'.last
  rw [List.map_append, ← List.cons_append] at nodup last
  cases rest with
  | nil => rw [List.append_nil]
  | cons step rest =>
    rw [List.getLast?_append_of_ne_nil _ (by simp)] at last
    have first := List.mem_of_getLast? h.last
    exact absurd rfl ((List.nodup_append.1 nodup).2.2 _ first _ (List.mem_of_getLast? last))

theorem encard_admissible (indexed : Indexed graph nodes edges) :
    {steps | Admissible nodes edges request steps}.encard =
      {hops | ConfirmedPath nodes edges request hops}.encard := by
  have image : {steps | Admissible nodes edges request steps} =
      Set.image (List.map Hop.adjacent) {hops | ConfirmedPath nodes edges request hops} := rfl
  rw [image]
  refine Set.InjOn.encard_image fun hops confirmed hops' confirmed' same => ?_
  exact Walk.hops_eq indexed confirmed confirmed' same

end Walks

section Expansion

variable {W : Type} {weights : Weights W} {expired : Nat → Bool} {graph : TraversalGraph}
  {request : TraversalRequest}

/-- The edges that an expansion followed, and the states it pushed for them. -/
structure Followed (weights : Weights W) (graph : TraversalGraph) (request : TraversalRequest)
    (state : PathState W) (current : NodeId) (adjacents : List Adjacent) (s s' : Expansion W)
    (letters : List Adjacent) (pushed : List (PathState W)) : Prop where
  records : s.runtime.Records s'.runtime
  result : s'.pushed = s.pushed ++ pushed
  sub : letters.Sublist adjacents
  steps : pushed.map PathState.steps = letters.map fun adjacent => state.steps ++ [adjacent]
  cost : ∀ next ∈ pushed, ∃ adjacent ∈ letters, next.steps = state.steps ++ [adjacent] ∧
    ∃ weight, weights.weight request.options adjacent.edge = .ok weight ∧
      next.totalWeight = weights.add state.totalWeight weight
  all : s'.runtime.Unlimited → ∀ adjacent ∈ adjacents,
    Eligible graph request state current adjacent → adjacent ∈ letters

theorem Followed.skip {state : PathState W} {current : NodeId} {adjacent : Adjacent}
    {rest letters : List Adjacent} {s s' : Expansion W} {pushed : List (PathState W)}
    {runtime : TraversalRuntime} (records : s.runtime.Records runtime)
    (why : ¬runtime.Unlimited ∨ ¬Eligible graph request state current adjacent)
    (h : Followed weights graph request state current rest ⟨runtime, s.pushed⟩ s' letters pushed) :
    Followed weights graph request state current (adjacent :: rest) s s' letters pushed where
  records := records.trans h.records
  result := h.result
  sub := h.sub.cons adjacent
  steps := h.steps
  cost := h.cost
  all unlimited other mem eligible := by
    cases List.mem_cons.1 mem with
    | inl same =>
      subst same
      exact why.elim (fun limited => absurd (h.records.unlimited unlimited) limited)
        fun not => absurd eligible not
    | inr later => exact h.all unlimited other later eligible

theorem visitAll_followed {state : PathState W} {current : NodeId} {adjacents : List Adjacent} :
    ∀ {s s' : Expansion W},
      visitAll weights expired graph request state current s adjacents = .ok s' →
        ∃ letters pushed,
          Followed weights graph request state current adjacents s s' letters pushed := by
  induction adjacents with
  | nil =>
    intro s s' h
    obtain rfl : s = s' := by simpa [visitAll] using h
    exact ⟨[], [], ⟨.refl _, id⟩, by simp, List.Sublist.refl _, rfl, by simp, by simp⟩
  | cons adjacent rest ih =>
    intro s s' h
    have look := @visitAdjacent_looked W weights expired graph request state current adjacent s
    unfold visitAll at h
    generalize visitAdjacent weights expired graph request state current adjacent s = turn
      at h look
    cases look with
    | stopped runtime records bound limited =>
      obtain rfl : Expansion.mk runtime s.pushed = s' := by simpa using h
      exact ⟨[], [], records, by simp, List.nil_sublist _, rfl, by simp,
        fun unlimited => absurd unlimited limited⟩
    | refused runtime records bound limited =>
      obtain ⟨letters, pushed, followed⟩ := ih h
      exact ⟨letters, pushed, followed.skip records (.inl limited)⟩
    | skipped runtime records why =>
      obtain ⟨letters, pushed, followed⟩ := ih h
      exact ⟨letters, pushed, followed.skip records (.inr why)⟩
    | unknown e why => simp at h
    | costless e why => simp at h
    | followed runtime records eligible weight crossRepo crossing cost =>
      obtain ⟨letters, pushed, followed⟩ := ih h
      refine ⟨adjacent :: letters, state.extended weights adjacent weight crossRepo :: pushed,
        records.trans followed.records, by simp [followed.result], followed.sub.cons_cons adjacent,
        ?_, ?_, ?_⟩
      · rw [List.map_cons, List.map_cons, followed.steps]
        rfl
      · rw [List.forall_mem_cons]
        refine ⟨⟨adjacent, List.mem_cons_self, rfl, weight, cost, rfl⟩, fun next mem => ?_⟩
        obtain ⟨other, listed, is⟩ := followed.cost next mem
        exact ⟨other, List.mem_cons_of_mem _ listed, is⟩
      · intro unlimited
        rw [List.forall_mem_cons]
        exact ⟨fun _ => List.mem_cons_self, fun other mem eligible =>
          List.mem_cons_of_mem _ (followed.all unlimited other mem eligible)⟩

theorem nodup_adjacent (graph : TraversalGraph) (nodeId : NodeId) (direction : TraversalDirection) :
    (graph.adjacent nodeId direction).Nodup := by
  have strict : (graph.adjacent nodeId direction).Pairwise
      fun a b => adjacentKey a < adjacentKey b :=
    dedupBy_strict adjacentKey (sortBy_sorted adjacentKey _) fun a _ b _ => by
      simp [sameAdjacent, adjacentKey, and_assoc]
  exact strict.imp fun less same => by simp [same] at less

end Expansion

section Searches

variable {W C : Type} [LinearOrder C] {weights : Weights W} {expired : Nat → Bool}
  {graph : TraversalGraph} {nodes : List Node} {edges : List Edge} {request : TraversalRequest}
  {size : List Adjacent → C}

/-- What both searches keep: the pending states and the paths found so far, as a best-first
enumeration of the admissible paths by `size`. -/
structure Searching (graph : TraversalGraph) (nodes : List Node) (edges : List Edge)
    (request : TraversalRequest) (size : List Adjacent → C) (pending : List (PathState W))
    (paths : List (TraversalPath W)) (runtime : TraversalRuntime) : Prop where
  search : SearchInvariant graph nodes edges request pending paths runtime
  enumerates : runtime.Unlimited → Frontier (Admissible nodes edges request) size
    (pending.map PathState.steps) (paths.map fun path => path.hops.map Hop.adjacent)

namespace Searching

variable {pending rest : List (PathState W)} {paths : List (TraversalPath W)}
  {runtime runtime' : TraversalRuntime} {state : PathState W}

theorem initial (start : request.start ∈ graph.nodes) :
    Searching graph nodes edges request size [PathState.start weights request.start] []
      (.new request) :=
  ⟨.initial start, fun _ => Frontier.start⟩

theorem perm {pending' : List (PathState W)} (perm : pending.Perm pending')
    (h : Searching graph nodes edges request size pending paths runtime) :
    Searching graph nodes edges request size pending' paths runtime :=
  ⟨h.search.perm perm, fun unlimited => (h.enumerates unlimited).perm (perm.map _)⟩

theorem grow (h : Searching graph nodes edges request size pending paths runtime)
    (records : runtime.Records runtime') :
    Searching graph nodes edges request size pending paths runtime' :=
  ⟨h.search.grow records.grows, fun unlimited => h.enumerates (records.unlimited unlimited)⟩

theorem recordFrontier (h : Searching graph nodes edges request size pending paths runtime)
    {nodeId : NodeId} (known : nodeId ∈ graph.nodes) (depth : Nat) :
    Searching graph nodes edges request size pending paths
      (runtime.recordFrontier nodeId depth) := by
  refine ⟨h.search.recordFrontier known depth, fun unlimited => h.enumerates ?_⟩
  unfold TraversalRuntime.recordFrontier at unlimited
  split at unlimited
  · exact unlimited
  · split at unlimited
    · exact unlimited
    · exact unlimited

theorem nodes_eq (h : Searching graph nodes edges request size (state :: rest) paths runtime) :
    state.nodes = request.start :: state.steps.map Adjacent.next := by
  obtain ⟨hops, last, stands⟩ := h.search.stands state List.mem_cons_self
  rw [stands.nodes, stands.steps, map_next_adjacent]

theorem drop (h : Searching graph nodes edges request size (state :: rest) paths runtime)
    {current : NodeId} (last : state.nodes.getLast? = some current)
    (elsewhere : current ≠ request.target)
    (deep : request.options.maxDepth ≤ state.steps.length) :
    Searching graph nodes edges request size rest paths runtime.recordDepthBound := by
  have grown := h.grow (TraversalRuntime.truncate_records runtime "Traversal stopped at the depth limit.")
  refine ⟨grown.search.drop rfl, fun unlimited => (grown.enumerates unlimited).drop ?_⟩
  intro word admissible above
  have same : state.steps = word :=
    above.eq_of_length_le (admissible.depth.trans deep)
  have ends := admissible.last
  rw [← same, ← h.nodes_eq, last] at ends
  exact elsewhere (Option.some.inj ends)

theorem arrive (h : Searching graph nodes edges request size (state :: rest) paths runtime)
    (indexed : Indexed graph nodes edges) {path : TraversalPath W}
    (target : state.nodes.getLast? = some request.target)
    (made : materializePath weights graph request state = .ok path)
    (least : ∀ other ∈ rest, size state.steps ≤ size other.steps) :
    Searching graph nodes edges request size rest (paths ++ [path]) runtime := by
  refine ⟨h.search.arrive indexed target made, fun unlimited => ?_⟩
  obtain ⟨hops, last, stands⟩ := h.search.stands state List.mem_cons_self
  obtain rfl : last = request.target := by simpa [stands.current] using target
  have arrived : Admissible nodes edges request state.steps := ⟨hops, stands.walk, stands.steps.symm⟩
  have found := (h.enumerates unlimited).arrive arrived (fun word other above => arrived.only other above)
    fun steps mem => by
      obtain ⟨other, listed, rfl⟩ := List.mem_map.1 mem
      exact least other listed
  have same : path.hops.map Hop.adjacent = state.steps := by
    rw [(stands.materialize indexed).1 path made, stands.steps]
  rw [List.map_append, List.map_singleton, same]
  exact found

theorem expand (h : Searching graph nodes edges request size (state :: rest) paths runtime)
    (indexed : Indexed graph nodes edges) (start : request.start ∈ graph.nodes)
    {current : NodeId} (last : state.nodes.getLast? = some current)
    (elsewhere : current ≠ request.target)
    (shallow : state.steps.length < request.options.maxDepth) {expansion : Expansion W}
    (expands : expandState weights expired graph request state runtime = .ok expansion)
    (dearer : ∀ adjacent, adjacent.edge ∈ edges →
      size state.steps ≤ size (state.steps ++ [adjacent])) :
    Searching graph nodes edges request size (rest ++ expansion.pushed) paths expansion.runtime := by
  refine ⟨h.search.expand indexed start last elsewhere shallow expands, fun unlimited => ?_⟩
  obtain ⟨hops, current', stands⟩ := h.search.stands state List.mem_cons_self
  obtain rfl : current' = current := by simpa [stands.current] using last
  simp only [expandState, stands.current] at expands
  obtain ⟨letters, pushed, followed⟩ := visitAll_followed expands
  have result : expansion.pushed = pushed := by simpa using followed.result
  rw [result, List.map_append, followed.steps]
  have leads : ∀ adjacent ∈ letters, Leads edges request.options.direction current' adjacent :=
    fun adjacent mem => (indexed.adjacent _ _ _).1 (followed.sub.subset mem)
  refine (h.enumerates (followed.records.unlimited unlimited)).expand
    (followed.sub.nodup (nodup_adjacent _ _ _)) (fun word admissible above => ?_)
    fun adjacent mem => dearer adjacent (leads adjacent mem).1
  obtain ⟨hops', confirmed, rfl⟩ := admissible
  obtain ⟨tail, split⟩ := above
  rw [stands.steps] at split
  obtain ⟨before, after, rfl, same, rfl⟩ := List.map_eq_append_iff.1 split.symm
  obtain ⟨middle, walk⟩ := Walk.initial confirmed
  obtain rfl := walk.hops_eq indexed stands.walk same
  cases after with
  | nil =>
    have ends := confirmed.chained.getLast?
    rw [List.append_nil, ← stands.nodes, stands.current] at ends
    exact absurd (Option.some.inj ends) elsewhere
  | cons hop after =>
    have longer : ConfirmedPath nodes edges request ((before ++ [hop]) ++ after) := by
      simpa using confirmed
    obtain ⟨middle', walk'⟩ := Walk.initial longer
    obtain ⟨-, leads', eligible⟩ := stands.eligible_of_walk indexed walk'
    refine ⟨hop.adjacent, followed.all unlimited _ ((indexed.adjacent _ _ _).2 leads') eligible,
      after.map Hop.adjacent, ?_⟩
    simp [stands.steps]

end Searching

end Searches

section Exact

/-- Weights that are added without rounding. -/
def exactWeights (cost : Edge → ℚ) : Weights ℚ := ⟨0, (· + ·), fun _ edge => .ok (cost edge)⟩

def pathCost (cost : Edge → ℚ) (hops : List Hop) : ℚ := (hops.map fun hop => cost hop.trace.edge).sum

def stepsCost (cost : Edge → ℚ) (steps : List Adjacent) : ℚ :=
  (steps.map fun step => cost step.edge).sum

variable {cost : Edge → ℚ} {expired : Nat → Bool} {graph : TraversalGraph} {nodes : List Node}
  {edges : List Edge} {request : TraversalRequest}

theorem stepsCost_adjacent (hops : List Hop) :
    stepsCost cost (hops.map Hop.adjacent) = pathCost cost hops := by
  rw [stepsCost, List.map_map]
  rfl

theorem stepsCost_concat (steps : List Adjacent) (step : Adjacent) :
    stepsCost cost (steps ++ [step]) = stepsCost cost steps + cost step.edge := by
  simp [stepsCost]

theorem stepsCost_prefix {steps word : List Adjacent}
    (positive : ∀ step ∈ word, 0 < cost step.edge) (above : steps <+: word) :
    stepsCost cost steps ≤ stepsCost cost word := by
  obtain ⟨rest, rfl⟩ := above
  have rising : 0 ≤ stepsCost cost rest := by
    refine List.sum_nonneg fun weight mem => ?_
    obtain ⟨step, listed, rfl⟩ := List.mem_map.1 mem
    exact (positive step (List.mem_append_right _ listed)).le
  have parts : stepsCost cost (steps ++ rest) = stepsCost cost steps + stepsCost cost rest := by
    simp [stepsCost]
  rw [parts]
  exact le_add_of_nonneg_right rising

theorem exactWeights_costError {e : QueryError} : ¬CostError (exactWeights cost) request e := by
  rintro ⟨edge, failed⟩
  cases failed

theorem materializePath_totalWeight {W : Type} {weights : Weights W} {state : PathState W}
    {path : TraversalPath W} (made : materializePath weights graph request state = .ok path) :
    path.totalWeight = state.totalWeight := by
  obtain ⟨segments, -, is⟩ := bind_eq_ok.1 made
  obtain rfl := pure_eq_ok.1 is
  rfl

theorem expandState_weight {state : PathState ℚ} {runtime : TraversalRuntime}
    {expansion : Expansion ℚ} (weight : state.totalWeight = stepsCost cost state.steps)
    (expands : expandState (exactWeights cost) expired graph request state runtime = .ok expansion) :
    ∀ next ∈ expansion.pushed, next.totalWeight = stepsCost cost next.steps := by
  intro next mem
  unfold expandState at expands
  split at expands
  · obtain rfl : Expansion.mk runtime [] = expansion := by simpa using expands
    cases mem
  · obtain ⟨letters, pushed, followed⟩ := visitAll_followed expands
    have result : expansion.pushed = pushed := by simpa using followed.result
    obtain ⟨adjacent, -, steps, price, is, total⟩ := followed.cost next (result ▸ mem)
    obtain rfl : cost adjacent.edge = price := Except.ok.inj is
    rw [steps, stepsCost_concat, ← weight]
    exact total

section Selection

variable {W : Type} [LinearOrder W]

theorem totalWeight_le {left right : PathState W} (le : pathStateKey left ≤ pathStateKey right) :
    left.totalWeight ≤ right.totalWeight := by
  rw [pathStateKey, pathStateKey, Prod.Lex.toLex_le_toLex] at le
  exact le.elim le_of_lt fun same => le_of_eq same.1

theorem selectFrom_least {all : List (PathState W)} : ∀ {rest : List (PathState W)}
    {best : PathState W} {bestIndex index : Nat}, all[bestIndex]? = some best →
    all.drop index = rest → (∀ other ∈ all.take index, pathStateKey best ≤ pathStateKey other) →
    ∃ chosen, all[selectFrom best bestIndex index rest]? = some chosen ∧
      ∀ other ∈ all, pathStateKey chosen ≤ pathStateKey other := by
  intro rest
  induction rest with
  | nil =>
    intro best bestIndex index here nothing least
    have whole : all.take index = all := by
      rw [← List.take_append_drop index all, nothing]
      simp
    exact ⟨best, here, whole ▸ least⟩
  | cons candidate rest ih =>
    intro best bestIndex index here left least
    have there : all[index]? = some candidate := by
      rw [← List.head?_drop, left]
      rfl
    have later : all.drop (index + 1) = rest := by
      rw [← List.drop_drop, left]
      rfl
    have seen : all.take (index + 1) = all.take index ++ [candidate] := by
      rw [List.take_add_one, there]
      rfl
    unfold selectFrom
    split
    · next better =>
      refine ih there later fun other mem => ?_
      rw [seen] at mem
      cases List.mem_append.1 mem with
      | inl before => exact better.le.trans (least other before)
      | inr single => rw [List.mem_singleton.1 single]
    · next worse =>
      refine ih here later fun other mem => ?_
      rw [seen] at mem
      cases List.mem_append.1 mem with
      | inl before => exact least other before
      | inr single => exact List.mem_singleton.1 single ▸ not_lt.1 worse

theorem selectBestState_least {candidates : List (PathState W)} {state : PathState W}
    (chosen : candidates[selectBestState candidates]? = some state) :
    ∀ other ∈ candidates, state.totalWeight ≤ other.totalWeight := by
  cases candidates with
  | nil => cases chosen
  | cons first rest =>
    obtain ⟨best, is, least⟩ := @selectFrom_least _ _ (first :: rest) rest first 0 1 rfl rfl
      fun other mem => by rw [List.mem_singleton.1 mem]
    obtain rfl : best = state := Option.some.inj (is.symm.trans chosen)
    exact fun other mem => totalWeight_le (least other mem)

end Selection

/-- The `wanted` cheapest admissible paths, by weight. -/
structure Cheapest (nodes : List Node) (edges : List Edge) (request : TraversalRequest)
    (cost : Edge → ℚ) (wanted : Nat) (paths : List (TraversalPath ℚ)) : Prop where
  admissible : ∀ path ∈ paths, ConfirmedPath nodes edges request path.hops
  weight : ∀ path ∈ paths, path.totalWeight = pathCost cost path.hops
  distinct : (paths.map TraversalPath.hops).Nodup
  count : (paths.length : ℕ∞) =
    min (wanted : ℕ∞) {hops | ConfirmedPath nodes edges request hops}.encard
  sorted : (paths.map TraversalPath.totalWeight).Pairwise (· ≤ ·)
  optimal : ∀ path ∈ paths, ∀ hops, ConfirmedPath nodes edges request hops →
    hops ∉ paths.map TraversalPath.hops → path.totalWeight ≤ pathCost cost hops

structure Weighing (graph : TraversalGraph) (nodes : List Node) (edges : List Edge)
    (request : TraversalRequest) (cost : Edge → ℚ) (wanted : Nat) (candidates : List (PathState ℚ))
    (paths : List (TraversalPath ℚ)) (runtime : TraversalRuntime) : Prop where
  searching : Searching graph nodes edges request (stepsCost cost) candidates paths runtime
  weight : ∀ state ∈ candidates, state.totalWeight = stepsCost cost state.steps
  found : ∀ path ∈ paths, path.totalWeight = pathCost cost path.hops
  few : paths.length ≤ wanted

def CheapestAnswer (nodes : List Node) (edges : List Edge) (request : TraversalRequest)
    (cost : Edge → ℚ) (wanted : Nat) : Outcome ℚ → Prop
  | .ok (paths, runtime) => runtime.Unlimited → Cheapest nodes edges request cost wanted paths
  | .error _ => False

variable {wanted : Nat} {candidates : List (PathState ℚ)} {paths : List (TraversalPath ℚ)}
  {runtime : TraversalRuntime}

theorem Weighing.answer (indexed : Indexed graph nodes edges)
    (positive : ∀ edge ∈ edges, 0 < cost edge)
    (h : Weighing graph nodes edges request cost wanted candidates paths runtime)
    (done : candidates = [] ∨ wanted ≤ paths.length) (unlimited : runtime.Unlimited) :
    Cheapest nodes edges request cost wanted (sortBy pathOrder paths) := by
  have frontier := h.searching.enumerates unlimited
  have perm := sortBy_perm pathOrder paths
  have distinct : (paths.map TraversalPath.hops).Nodup := by
    have nodup := frontier.distinct
    rw [← Function.comp_def (List.map Hop.adjacent) TraversalPath.hops, ← List.map_map] at nodup
    exact nodup.of_map _
  constructor
  case admissible => exact fun path mem => h.searching.search.found path (perm.mem_iff.1 mem)
  case weight => exact fun path mem => h.found path (perm.mem_iff.1 mem)
  case distinct => exact (perm.map _).nodup_iff.2 distinct
  case count =>
    have few : (paths.map fun path => path.hops.map Hop.adjacent).length ≤ wanted := by
      rw [List.length_map]
      exact h.few
    have total := frontier.count few
      (done.imp (fun empty => by rw [empty, List.map_nil]) fun enough => by rwa [List.length_map])
    rw [List.length_map, encard_admissible indexed] at total
    rw [perm.length_eq, total]
  case sorted =>
    rw [List.pairwise_map]
    refine (sortBy_sorted pathOrder paths).imp fun {left right} le => ?_
    rw [pathOrder, pathOrder, Prod.Lex.toLex_le_toLex] at le
    exact le.elim le_of_lt fun same => le_of_eq same.1
  case optimal =>
    intro path mem hops confirmed out
    have listed := perm.mem_iff.1 mem
    rw [h.found path listed, ← stepsCost_adjacent, ← stepsCost_adjacent]
    refine frontier.optimal (List.mem_map_of_mem listed) ⟨hops, confirmed, rfl⟩ (fun known => ?_)
      fun steps above => stepsCost_prefix (fun step taken => ?_) above
    · obtain ⟨other, listed', same⟩ := List.mem_map.1 known
      have walk := h.searching.search.found other listed'
      obtain rfl := Walk.hops_eq indexed walk confirmed same
      exact out (List.mem_map_of_mem (perm.mem_iff.2 listed'))
    · obtain ⟨hop, walked, rfl⟩ := List.mem_map.1 taken
      exact positive _ (confirmed.allowed hop walked).leads.1

theorem weightedTurn_weighing (indexed : Indexed graph nodes edges)
    (start : request.start ∈ graph.nodes) (positive : ∀ edge ∈ edges, 0 < cost edge)
    (s : Weighted ℚ)
    (h : Weighing graph nodes edges request cost wanted s.candidates s.paths s.runtime) :
    (weightedTurn (exactWeights cost) expired graph request wanted s).Holds
      (fun s => Weighing graph nodes edges request cost wanted s.candidates s.paths s.runtime)
      (CheapestAnswer nodes edges request cost wanted) := by
  unfold weightedTurn
  dsimp only
  split
  · next absent => exact h.answer indexed positive (.inl (eq_nil_of_selected absent))
  next state chosen =>
  split
  · next enough => exact h.answer indexed positive (.inr enough)
  next room =>
  have least := selectBestState_least chosen
  have popped := perm_of_chosen chosen
  have searching := h.searching.perm popped
  have weight : ∀ other ∈ state :: s.candidates.eraseIdx (selectBestState s.candidates),
      other.totalWeight = stepsCost cost other.steps :=
    fun other mem => h.weight other (popped.mem_iff.2 mem)
  have weight' := List.forall_mem_cons.1 weight
  obtain ⟨hops, last, stands⟩ := searching.search.stands state List.mem_cons_self
  have looked := searching.grow (@TraversalRuntime.timedOut_records expired s.runtime)
  split
  · next late => exact fun unlimited => absurd unlimited (TraversalRuntime.timedOut_limited late)
  simp only [stands.current]
  have settled := looked.recordFrontier (stands.walk.last_known indexed start) state.steps.length
  split
  · next arrived =>
    cases made : materializePath (exactWeights cost) graph request state with
    | error e => exact exactWeights_costError ((stands.materialize indexed).2 e made)
    | ok path =>
      refine ⟨settled.arrive indexed (arrived ▸ stands.current) made fun other mem => ?_, weight'.2,
        fun path' mem => ?_, by simpa using room⟩
      · rw [← weight'.1, ← weight'.2 other mem]
        exact least other (popped.mem_iff.2 (List.mem_cons_of_mem _ mem))
      · cases List.mem_append.1 mem with
        | inl old => exact h.found path' old
        | inr single =>
          rw [List.mem_singleton.1 single, (stands.materialize indexed).1 path made,
            ← stepsCost_adjacent, ← stands.steps, ← weight'.1]
          exact materializePath_totalWeight made
  next elsewhere =>
  split
  · next deep => exact ⟨settled.drop stands.current elsewhere deep, weight'.2, h.found, h.few⟩
  next shallow =>
  split
  · next e expands => exact exactWeights_costError (settled.search.expand_error indexed start expands)
  next expansion expands =>
  refine ⟨settled.expand indexed start stands.current elsewhere (by omega) expands
    fun adjacent mem => ?_, fun next mem => ?_, h.found, h.few⟩
  · rw [stepsCost_concat]
    exact le_add_of_nonneg_right (positive _ mem).le
  · cases List.mem_append.1 mem with
    | inl old => exact weight'.2 next old
    | inr new => exact expandState_weight weight'.1 expands next new

/-- A path with the fewest segments, if there is an admissible path at all. -/
structure Fewest (nodes : List Node) (edges : List Edge) (request : TraversalRequest)
    (paths : List (TraversalPath ℚ)) : Prop where
  admissible : ∀ path ∈ paths, ConfirmedPath nodes edges request path.hops
  single : paths.length ≤ 1
  fewest : ∀ hops, ConfirmedPath nodes edges request hops →
    ∃ path ∈ paths, path.segments.length ≤ hops.length

def FewestAnswer (nodes : List Node) (edges : List Edge) (request : TraversalRequest) :
    Outcome ℚ → Prop
  | .ok (paths, runtime) => runtime.Unlimited → Fewest nodes edges request paths
  | .error _ => False

structure Leveling (graph : TraversalGraph) (nodes : List Node) (edges : List Edge)
    (request : TraversalRequest) (queue : List (PathState ℚ)) (runtime : TraversalRuntime) :
    Prop where
  searching : Searching graph nodes edges request List.length queue [] runtime
  leveled : Leveled (queue.map stateDepth)

theorem bfsTurn_leveling (indexed : Indexed graph nodes edges)
    (start : request.start ∈ graph.nodes) (s : Breadth ℚ)
    (h : Leveling graph nodes edges request s.queue s.runtime) :
    (bfsTurn (exactWeights cost) expired graph request s).Holds
      (fun s => Leveling graph nodes edges request s.queue s.runtime)
      (FewestAnswer nodes edges request) := by
  have nothing : ∀ {runtime : TraversalRuntime},
      Searching graph nodes edges request List.length ([] : List (PathState ℚ)) [] runtime →
      runtime.Unlimited → Fewest nodes edges request [] := by
    intro runtime searching unlimited
    refine ⟨by simp, by simp, fun hops confirmed => ?_⟩
    have found := ((searching.enumerates unlimited).complete (hops.map Hop.adjacent)).2
      ⟨hops, confirmed, rfl⟩
    cases found
  unfold bfsTurn
  split
  · next empty => exact nothing (empty ▸ h.searching)
  next state queue popped =>
  obtain ⟨searching, leveled⟩ := h
  rw [popped] at searching leveled
  rw [List.map_cons] at leveled
  obtain ⟨hops, last, stands⟩ := searching.search.stands state List.mem_cons_self
  have looked := searching.grow (@TraversalRuntime.timedOut_records expired s.runtime)
  dsimp only
  split
  · next late => exact fun unlimited => absurd unlimited (TraversalRuntime.timedOut_limited late)
  simp only [stands.current]
  have settled := looked.recordFrontier (stands.walk.last_known indexed start) state.steps.length
  split
  · next arrived =>
    cases made : materializePath (exactWeights cost) graph request state with
    | error e => exact exactWeights_costError ((stands.materialize indexed).2 e made)
    | ok path =>
      intro unlimited
      have found := settled.arrive indexed (arrived ▸ stands.current) made fun other mem =>
        leveled.least _ (List.mem_map_of_mem mem)
      refine ⟨found.search.found, by simp, fun hops' confirmed => ⟨path, List.mem_singleton_self _, ?_⟩⟩
      have length : path.segments.length = (path.hops.map Hop.adjacent).length := by
        simp [TraversalPath.hops]
      have length' : hops'.length = (hops'.map Hop.adjacent).length := by simp
      rw [length, length']
      by_cases same : hops'.map Hop.adjacent = path.hops.map Hop.adjacent
      · rw [same]
      · exact (found.enumerates unlimited).optimal (List.mem_singleton_self _) ⟨hops', confirmed, rfl⟩
          (fun known => same (List.mem_singleton.1 known)) fun steps above => above.length_le
  next elsewhere =>
  split
  · next deep => exact ⟨settled.drop stands.current elsewhere deep, leveled.pop⟩
  next shallow =>
  split
  · next e expands => exact exactWeights_costError (settled.search.expand_error indexed start expands)
  next expansion expands =>
  have grown := settled.expand indexed start stands.current elsewhere (by omega) expands
    fun adjacent _ => by simp
  split
  · next done =>
    rw [Bool.and_eq_true, List.isEmpty_iff] at done
    rw [done.2] at grown
    exact nothing grown
  · refine ⟨grown, ?_⟩
    rw [List.map_append]
    refine leveled.push fun depth mem => ?_
    obtain ⟨next, listed, rfl⟩ := List.mem_map.1 mem
    exact (expandState_pushed expands).2 next listed

/-- With positive weights that are added exactly, a search that no limit cuts short finds the
cheapest paths, and a breadth-first one a path with the fewest segments. -/
theorem searches_optimal (cost : Edge → ℚ) (expired : Nat → Bool) (nodes : List Node)
    (edges : List Edge) (graph : TraversalGraph) (request : TraversalRequest)
    (built : TraversalGraph.new nodes edges = .ok graph)
    (positive : ∀ edge ∈ edges, 0 < cost edge) (start : request.start ∈ graph.nodes) :
    (∀ wanted, ∃ paths runtime,
      weightedPaths (exactWeights cost) expired graph request wanted (.new request) =
        .ok (paths, runtime) ∧
      (runtime.Unlimited → Cheapest nodes edges request cost wanted paths)) ∧
    ∃ paths runtime,
      bfs (exactWeights cost) expired graph request (.new request) = .ok (paths, runtime) ∧
      (runtime.Unlimited → Fewest nodes edges request paths) := by
  have indexed := TraversalGraph.new_indexed built
  constructor
  · intro wanted
    have answer : CheapestAnswer nodes edges request cost wanted
        (weightedPaths (exactWeights cost) expired graph request wanted (.new request)) := by
      refine loop_holds _ (fun s => Weighing graph nodes edges request cost wanted s.candidates
        s.paths s.runtime) _ (weightedTurn_weighing indexed start positive) _ _ ?_
      refine ⟨.initial start, fun state mem => ?_, by simp, by simp⟩
      rw [List.mem_singleton.1 mem]
      rfl
    cases result : weightedPaths (exactWeights cost) expired graph request wanted (.new request) with
    | error e =>
      rw [result] at answer
      exact answer.elim
    | ok found =>
      rw [result] at answer
      exact ⟨found.1, found.2, rfl, answer⟩
  · have answer : FewestAnswer nodes edges request
        (bfs (exactWeights cost) expired graph request (.new request)) := by
      refine loop_holds _ (fun s => Leveling graph nodes edges request s.queue s.runtime) _
        (bfsTurn_leveling indexed start) _ _ ?_
      exact ⟨.initial start, Leveled.singleton 0⟩
    cases result : bfs (exactWeights cost) expired graph request (.new request) with
    | error e =>
      rw [result] at answer
      exact answer.elim
    | ok found =>
      rw [result] at answer
      exact ⟨found.1, found.2, rfl, answer⟩

def baseCost (options : TraversalOptions) (edge : Edge) : F64 :=
  ((options.edgeKindCosts.find? fun item => item.kind == edge.kind).map (·.cost)).getD (.ofNat 1)

/-- The weight of an edge before it is rounded. -/
def exactEdgeWeight (options : TraversalOptions) (edge : Edge) : ℚ :=
  let confidence := Binary.max (widen edge.confidence) minConfidenceForWeight
  (baseCost options edge).value / confidence.value

theorem validateCosts_positive {costs : List EdgeKindCost} : ∀ {costKinds : List EdgeKind},
    validateCosts costKinds costs = .ok () → ∀ item ∈ costs, 0 < item.cost.value := by
  induction costs with
  | nil => simp
  | cons item rest ih =>
    intro costKinds valid
    simp only [validateCosts, bind_eq_ok, ensure_eq_ok, Bool.and_eq_true] at valid
    obtain ⟨-, ⟨⟨-, less⟩, -⟩, later⟩ := valid
    rw [List.forall_mem_cons]
    refine ⟨?_, ih later⟩
    have zero : (Binary.zero : F64).value = 0 := by decide +kernel
    simp only [Binary.lt, zero, Bool.and_eq_true, decide_eq_true_eq] at less
    exact less.2

theorem exactEdgeWeight_pos (valid : validateTraversalRequest request = .ok ()) (edge : Edge) :
    0 < exactEdgeWeight request.options edge := by
  simp only [validateTraversalRequest, bind_eq_ok] at valid
  obtain ⟨-, -, -, -, costs⟩ := valid
  have positive := validateCosts_positive costs
  have least : minConfidenceForWeight.isNan = false ∧ 0 < minConfidenceForWeight.value ∧
      0 < (Binary.ofNat 1 : F64).value := by decide +kernel
  have base : 0 < (baseCost request.options edge).value := by
    unfold baseCost
    cases found : request.options.edgeKindCosts.find? fun item => item.kind == edge.kind with
    | none => exact least.2.2
    | some item => exact positive item (List.mem_of_find?_eq_some found)
  have confidence : 0 < (Binary.max (widen edge.confidence) minConfidenceForWeight).value := by
    cases nan : (widen edge.confidence).isNan with
    | true => simpa [Binary.max, nan] using least.2.1
    | false =>
      rw [Binary.max_eq nan least.1]
      split
      · exact least.2.1
      · next more => exact least.2.1.trans_le (not_lt.1 more)
  exact div_pos (Int.cast_pos.2 base) (Int.cast_pos.2 confidence)

def diamondNodes : List Node := ["a", "b", "c"].map exampleNode

/-- Two parallel edges, one of them less certain, and a detour. -/
def diamondEdges : List Edge :=
  [⟨"ac1", "a", "c", .callsRemote, .ofDyadic 1 2, .confirmed, []⟩,
    ⟨"ac2", "a", "c", .callsRemote, .ofNat 1, .confirmed, []⟩,
    ⟨"ab", "a", "b", .callsRemote, .ofNat 1, .confirmed, []⟩,
    ⟨"bc", "b", "c", .callsRemote, .ofNat 1, .confirmed, []⟩]

def diamondRequest : TraversalRequest :=
  ⟨"a", "c", {}, { algorithm := .kShortest, maxDepth := 3, k := 2 }⟩

theorem searches_optimal_diamond : ∃ graph paths runtime,
    TraversalGraph.new diamondNodes diamondEdges = .ok graph ∧
    weightedPaths (exactWeights (exactEdgeWeight diamondRequest.options)) (fun _ => false) graph
      diamondRequest 2 (.new diamondRequest) = .ok (paths, runtime) ∧
    runtime.Unlimited ∧ paths.map (·.segments.length) = [1, 2] ∧
    Cheapest diamondNodes diamondEdges diamondRequest (exactEdgeWeight diamondRequest.options) 2
      paths := by
  have valid : validateTraversalRequest diamondRequest = .ok () := by decide +kernel
  have run : isOkAnd (TraversalGraph.new diamondNodes diamondEdges) (fun graph =>
      diamondRequest.start ∈ graph.nodes ∧
      isOkAnd (weightedPaths (exactWeights (exactEdgeWeight diamondRequest.options))
        (fun _ => false) graph diamondRequest 2 (.new diamondRequest)) (fun result =>
          (∀ gap ∈ limitGaps, gap ∉ result.2.coverageGaps) ∧
            result.1.map (·.segments.length) = [1, 2]) = true) = true := by
    decide +kernel
  obtain ⟨graph, built, checks⟩ := isOkAnd_iff.1 run
  obtain ⟨start, checks⟩ := of_decide_eq_true checks
  obtain ⟨⟨paths, runtime⟩, searched, checks⟩ := isOkAnd_iff.1 checks
  obtain ⟨unlimited, lengths⟩ := of_decide_eq_true checks
  obtain ⟨paths', runtime', searched', cheapest⟩ :=
    (searches_optimal (exactEdgeWeight diamondRequest.options) (fun _ => false) diamondNodes
      diamondEdges graph diamondRequest built (fun edge _ => exactEdgeWeight_pos valid edge) start).1 2
  obtain ⟨rfl, rfl⟩ := Prod.mk.inj (Except.ok.inj (searched.symm.trans searched'))
  exact ⟨graph, paths, runtime, built, searched, unlimited, lengths, cheapest unlimited⟩

end Exact

end CodeSystemGraph.Query
