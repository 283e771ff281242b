import CodeSystemGraph.ImpactTraversal
import CodeSystemGraph.LabelSearch
import Mathlib.Data.List.Chain
import Mathlib.Data.Set.Card
import Mathlib.Order.Bounds.Basic
import Mathlib.Order.WellFounded

/-! What `traverse` computes, in terms of the paths of the input graph. The loop
is a label search: its labels are the paths that `LabelSearch` keeps, up to the
first one that the limits on edges and nodes do not allow. -/

namespace CodeSystemGraph.Impact
open Ieee Model Ordered Iterate LabelSearch

section Paths

variable (request : ImpactRequest) (context : ImpactContext) (target : Node)

def endpoint (p : List ImpactPathStep) : NodeId := (p.getLast?.map (·.toNode)).getD target.id

def stepCertainty (step : ImpactPathStep) : PathCertainty :=
  certaintyOf step.status step.confidence request.options.confirmedConfidence

def pathCertainty (p : List ImpactPathStep) : PathCertainty :=
  p.foldr (fun step c => max (stepCertainty request step) c) .confirmed

/-- The step follows the edge in a direction that the request allows. -/
def Realises (direction : ImpactDirection) (edge : Edge) (step : ImpactPathStep) : Prop :=
  step.edgeId = edge.id ∧ step.kind = edge.kind ∧ step.confidence = edge.confidence ∧
    step.status = edge.status ∧
    ((step.reversed = false ∧ direction ≠ .upstream ∧
        step.fromNode = edge.source ∧ step.toNode = edge.target) ∨
      (step.reversed = true ∧ direction ≠ .downstream ∧
        step.fromNode = edge.target ∧ step.toNode = edge.source))

def Chained : NodeId → List ImpactPathStep → Prop
  | _, [] => True
  | node, step :: rest => step.fromNode = node ∧ Chained step.toNode rest

def Pivot (previous next : ImpactPathStep) : Prop :=
  previous.kind = .contains ∧ next.kind = .contains ∧ previous.reversed ≠ next.reversed

/-- A simple path of the input graph along which impact may propagate. -/
structure IsImpactPath (p : List ImpactPathStep) : Prop where
  chained : Chained target.id p
  realised : ∀ step ∈ p, isPropagating step.kind = true ∧
    ∃ edge ∈ context.edges, Realises request.direction edge step
  simple : (target.id :: p.map (·.toNode)).Nodup
  straight : p.IsChain fun previous next => ¬ Pivot previous next

def PivotAfter (p : List ImpactPathStep) (step : ImpactPathStep) : Prop :=
  ∃ previous, p.getLast? = some previous ∧ Pivot previous step

/-- A step that the search examines after a path. -/
def Follows (p : List ImpactPathStep) (step : ImpactPathStep) : Prop :=
  step.fromNode = endpoint target p ∧ isPropagating step.kind = true ∧
    (∃ edge ∈ context.edges, Realises request.direction edge step) ∧ ¬ PivotAfter p step

def impactSpace : Space ImpactPathStep NodeId PathCertainty where
  start := target.id
  head := (·.toNode)
  weight := stepCertainty request
  next p := ((neighborsOf request context (endpoint target p)).filter fun entry =>
    follows p entry && !revisits target p entry).map (stepAlong (endpoint target p))

variable {request context target}

@[simp] theorem endpoint_snoc (p : List ImpactPathStep) (step : ImpactPathStep) :
    endpoint target (p ++ [step]) = step.toNode := by
  simp [endpoint]

theorem chained_snoc (p : List ImpactPathStep) (step : ImpactPathStep) : ∀ node,
    Chained node (p ++ [step]) ↔
      Chained node p ∧ step.fromNode = (p.getLast?.map (·.toNode)).getD node := by
  induction p with
  | nil => intro node; simp [Chained]
  | cons first rest ih =>
    intro node
    simp only [List.cons_append, Chained, ih, and_assoc]
    cases rest with
    | nil => simp
    | cons second rest => simp [List.getLast?_cons]

theorem chained_fromNode {p : List ImpactPathStep} : ∀ {node : NodeId}, Chained node p →
    ∀ step ∈ p, step.fromNode = node ∨ ∃ before ∈ p, before.toNode = step.fromNode := by
  induction p with
  | nil => intro node _ step h; simp at h
  | cons first rest ih =>
    rintro node ⟨start, chained⟩ step h
    rcases List.mem_cons.mp h with rfl | h
    · exact .inl start
    · rcases ih chained step h with same | ⟨before, hb, same⟩
      · exact .inr ⟨first, List.mem_cons_self, same.symm⟩
      · exact .inr ⟨before, List.mem_cons_of_mem _ hb, same⟩

theorem mem_entriesAt {direction : ImpactDirection} {node : NodeId} {edge : Edge}
    {entry : Adjacency} :
    entry ∈ entriesAt direction node edge ↔
      entry.edge = edge ∧ Realises direction edge (stepAlong node entry) := by
  obtain ⟨neighbor, e, reversed⟩ := entry
  cases direction <;> cases reversed <;> simp [entriesAt, Realises, stepAlong] <;> grind

theorem mem_neighborsOf {node : NodeId} {entry : Adjacency} :
    entry ∈ neighborsOf request context node ↔
      entry.edge ∈ context.edges ∧
        Realises request.direction entry.edge (stepAlong node entry) := by
  rw [neighborsOf_eq, mem_sortBy, List.mem_flatMap]
  constructor
  · rintro ⟨edge, he, h⟩
    obtain ⟨rfl, realised⟩ := mem_entriesAt.mp h
    exact ⟨he, realised⟩
  · rintro ⟨he, realised⟩
    exact ⟨entry.edge, he, mem_entriesAt.mpr ⟨rfl, realised⟩⟩

theorem isStructuralDirectionPivot_iff {p : List ImpactPathStep} {node : NodeId}
    {entry : Adjacency} :
    isStructuralDirectionPivot p entry = true ↔ PivotAfter p (stepAlong node entry) := by
  unfold isStructuralDirectionPivot PivotAfter Pivot stepAlong
  cases p.getLast? <;> simp [and_assoc]

theorem mem_followed {p : List ImpactPathStep} {step : ImpactPathStep} :
    (∃ entry ∈ neighborsOf request context (endpoint target p), follows p entry = true ∧
      stepAlong (endpoint target p) entry = step) ↔ Follows request context target p step := by
  simp only [mem_neighborsOf, follows, Bool.and_eq_true, Bool.not_eq_true']
  constructor
  · rintro ⟨entry, ⟨he, realised⟩, ⟨propagates, straight⟩, rfl⟩
    refine ⟨rfl, propagates, ⟨_, he, realised⟩, fun pivot => ?_⟩
    rw [isStructuralDirectionPivot_iff.mpr pivot] at straight
    cases straight
  · rintro ⟨source, propagates, ⟨edge, he, realised⟩, straight⟩
    have along : stepAlong (endpoint target p) ⟨step.toNode, edge, step.reversed⟩ = step := by
      obtain ⟨id, kind, confidence, status, -⟩ := realised
      simp only [stepAlong, ← source, ← id, ← kind, ← confidence, ← status]
    refine ⟨⟨step.toNode, edge, step.reversed⟩, ⟨he, by rwa [along]⟩, ⟨?_, ?_⟩, along⟩
    · rw [← realised.2.1]
      exact propagates
    · rw [Bool.eq_false_iff]
      intro pivot
      exact straight (along ▸ isStructuralDirectionPivot_iff.mp pivot)

theorem mem_next {p : List ImpactPathStep} {step : ImpactPathStep} :
    step ∈ (impactSpace request context target).next p ↔
      step.fromNode = endpoint target p ∧ isPropagating step.kind = true ∧
      (∃ edge ∈ context.edges, Realises request.direction edge step) ∧
      ¬ PivotAfter p step ∧ step.toNode ≠ target.id ∧
      ∀ before ∈ p, before.fromNode ≠ step.toNode ∧ before.toNode ≠ step.toNode := by
  have fresh : ∀ entry, revisits target p entry = false ↔ entry.neighbor ≠ target.id ∧
      ∀ before ∈ p, before.fromNode ≠ entry.neighbor ∧ before.toNode ≠ entry.neighbor := by
    intro entry
    simp [revisits]
  simp only [impactSpace, List.mem_map, List.mem_filter, Bool.and_eq_true, Bool.not_eq_true', fresh]
  constructor
  · rintro ⟨entry, ⟨he, allowed, notTarget, unseen⟩, rfl⟩
    obtain ⟨source, propagates, realised, straight⟩ := mem_followed.mp ⟨entry, he, allowed, rfl⟩
    exact ⟨source, propagates, realised, straight, notTarget, unseen⟩
  · rintro ⟨source, propagates, realised, straight, notTarget, unseen⟩
    obtain ⟨entry, he, allowed, rfl⟩ := mem_followed.mpr ⟨source, propagates, realised, straight⟩
    exact ⟨entry, ⟨he, allowed, notTarget, unseen⟩, rfl⟩

theorem isChain_snoc_pivot {p : List ImpactPathStep} {step : ImpactPathStep} :
    (p ++ [step]).IsChain (fun previous next => ¬ Pivot previous next) ↔
      p.IsChain (fun previous next => ¬ Pivot previous next) ∧ ¬ PivotAfter p step := by
  simp [List.isChain_append, PivotAfter]

theorem isImpactPath_snoc {p : List ImpactPathStep} {step : ImpactPathStep} :
    IsImpactPath request context target (p ++ [step]) ↔
      IsImpactPath request context target p ∧
        step ∈ (impactSpace request context target).next p := by
  have nodup : (target.id :: (p ++ [step]).map (·.toNode)).Nodup ↔
      (target.id :: p.map (·.toNode)).Nodup ∧ step.toNode ≠ target.id ∧
        ∀ before ∈ p, before.toNode ≠ step.toNode := by
    rw [List.map_append, ← List.cons_append, List.nodup_append]
    constructor
    · rintro ⟨simple, -, apart⟩
      exact ⟨simple, fun h => apart _ List.mem_cons_self _ (by simp) h.symm,
        fun before hb => apart _ (by simpa using .inr ⟨before, hb, rfl⟩) _ (by simp)⟩
    · rintro ⟨simple, notTarget, fresh⟩
      refine ⟨simple, by simp, fun a ha b hb => ?_⟩
      obtain rfl : b = step.toNode := by simpa using hb
      rcases List.mem_cons.mp ha with rfl | ha
      · exact notTarget.symm
      · obtain ⟨before, hb, rfl⟩ := List.mem_map.mp ha
        exact fresh before hb
  rw [mem_next]
  constructor
  · intro h
    obtain ⟨chained, source⟩ := (chained_snoc p step _).mp h.chained
    obtain ⟨simple, notTarget, fresh⟩ := nodup.mp h.simple
    obtain ⟨straight, noPivot⟩ := isChain_snoc_pivot.mp h.straight
    obtain ⟨propagates, realised⟩ := h.realised step (by simp)
    refine ⟨⟨chained, fun s hs => h.realised s (by simp [hs]), simple, straight⟩,
      source, propagates, realised, noPivot, notTarget, fun before hb => ⟨?_, fresh before hb⟩⟩
    rcases chained_fromNode chained before hb with same | ⟨other, ho, same⟩
    · rw [same]
      exact notTarget.symm
    · rw [← same]
      exact fresh other ho
  · rintro ⟨h, source, propagates, realised, noPivot, notTarget, fresh⟩
    refine ⟨(chained_snoc p step _).mpr ⟨h.chained, source⟩, fun s hs => ?_,
      nodup.mpr ⟨h.simple, notTarget, fun before hb => (fresh before hb).2⟩,
      isChain_snoc_pivot.mpr ⟨h.straight, noPivot⟩⟩
    rcases List.mem_append.mp hs with hs | hs
    · exact h.realised s hs
    · obtain rfl := List.mem_singleton.mp hs
      exact ⟨propagates, realised⟩

theorem isPath_iff {p : List ImpactPathStep} :
    (impactSpace request context target).IsPath p ↔ IsImpactPath request context target p := by
  induction p using List.reverseRecOn with
  | nil =>
    refine iff_of_true (Space.isPath_nil _) ⟨trivial, by simp, by simp, by simp⟩
  | append_singleton p step ih => rw [Space.isPath_snoc, isImpactPath_snoc, ih]

theorem endpoint_ne_target {p : List ImpactPathStep}
    (hp : IsImpactPath request context target p) (nonempty : p ≠ []) :
    endpoint target p ≠ target.id := by
  obtain ⟨front, step, rfl⟩ := (List.eq_nil_or_concat p).resolve_left nonempty
  rw [List.concat_eq_append] at hp ⊢
  rw [endpoint_snoc]
  exact (mem_next.mp (isImpactPath_snoc.mp hp).2).2.2.2.2.1

end Paths

section Order

variable (request : ImpactRequest) (context : ImpactContext) (target : Node)

def stepKey (step : ImpactPathStep) : NodeId ×ₗ EdgeId ×ₗ Bool :=
  toLex (step.toNode, toLex (step.edgeId, step.reversed))

/-- The paths that stand for their end node: each extends a preferred path, and
no preferred path to the same node is as certain and shorter, or as certain, as
long and earlier in the order of neighbour, edge identifier and orientation. -/
def Preferred (p : List ImpactPathStep) : Prop :=
  (impactSpace request context target).Selected stepKey request.options.maxDepth p

/-- The place of a path in the breadth-first order. -/
def place (p : List ImpactPathStep) : Nat ×ₗ List (NodeId ×ₗ EdgeId ×ₗ Bool) := Space.rank stepKey p

/-- The search examines the last step of the path. -/
def Examined (p : List ImpactPathStep) : Prop :=
  ∃ before step, p = before ++ [step] ∧ Preferred request context target before ∧
    before.length < request.options.maxDepth ∧ Follows request context target before step

/-- A path is found before the search stops: up to it no more edges are examined and no more nodes
are reached than the limits allow. -/
def WithinLimits (p : List ImpactPathStep) : Prop :=
  {q | Examined request context target q ∧ place q ≤ place p}.encard ≤ request.options.edgeLimit ∧
  {v | ∃ q, Preferred request context target q ∧ q ≠ [] ∧ place q ≤ place p ∧
    endpoint target q = v}.encard ≤ request.options.nodeLimit

variable {request context target}

theorem next_sorted (ids : (context.edges.map Edge.id).Nodup) (p : List ImpactPathStep) :
    ((impactSpace request context target).next p).Pairwise fun s t => stepKey s < stepKey t := by
  refine List.pairwise_map.mpr (List.Pairwise.filter _ ?_)
  rw [neighborsOf_eq]
  exact sortBy_strict Adjacency.key (entriesAt_keys_nodup _ _ ids)

theorem mem_kept_iff_preferred (ids : (context.edges.map Edge.id).Nodup)
    {p : List ImpactPathStep} :
    p ∈ (impactSpace request context target).kept request.options.maxDepth ↔
      Preferred request context target p :=
  Space.mem_kept_iff_selected _ stepKey (next_sorted ids) _ p

theorem kept_places (ids : (context.edges.map Edge.id).Nodup) (d : Nat) :
    ((impactSpace request context target).kept d).Pairwise fun p q => place p < place q :=
  Space.kept_sorted _ stepKey (next_sorted ids) d

end Order

section Counting

variable {α : Type} [DecidableEq α] {A : Set α} {x : List α}

theorem encard_le_length (listed : ∀ a ∈ A, a ∈ x) : A.encard ≤ x.length := by
  have le : A.encard ≤ (x.toFinset : Set α).encard :=
    Set.encard_le_encard fun a ha => by simpa using listed a ha
  rw [Set.encard_coe_eq_coe_finsetCard] at le
  exact le.trans (by exact_mod_cast x.toFinset_card_le)

theorem length_le_encard (nodup : x.Nodup) (inside : ∀ a ∈ x, a ∈ A) : x.length ≤ A.encard := by
  have le : (x.toFinset : Set α).encard ≤ A.encard :=
    Set.encard_le_encard fun a ha => inside a (by simpa using ha)
  rwa [Set.encard_coe_eq_coe_finsetCard, List.toFinset_card_of_nodup nodup] at le

end Counting

section Simulation

variable (request : ImpactRequest) (context : ImpactContext) (nodes : NodeIndex) (target : Node)

structure Tracks (s : Search) (queue kept : List (List ImpactPathStep)) : Prop where
  paths : s.queue.map (·.path) = queue
  states : ∀ state ∈ s.queue, state.nodeId = endpoint target state.path ∧
    state.certainty = pathCertainty request state.path
  best : ∀ v : NodeId, s.best[v]? = ((impactSpace request context target).latest kept v).map
    fun p => (pathCertainty request p, p.length)
  items : ∀ (v : NodeId) (item : ImpactItem), s.items[v]? = some item →
    nodes[v]? = some item.node ∧ item.path ≠ [] ∧ item.depth = item.path.length ∧
      (impactSpace request context target).latest kept v = some item.path
  reported : ∀ p ∈ kept, p ≠ [] → endpoint target p ∈ s.items

def candidates (p : List ImpactPathStep) (entries : List Adjacency) : List (List ImpactPathStep) :=
  (entries.filter fun entry => follows p entry && !revisits target p entry).map fun entry =>
    p ++ [stepAlong (endpoint target p) entry]

theorem extensions_eq (p : List ImpactPathStep) :
    (impactSpace request context target).extensions p =
      candidates target p (neighborsOf request context (endpoint target p)) := by
  simp [Space.extensions, impactSpace, candidates]

variable {request context nodes target}

theorem candidates_length {p c : List ImpactPathStep} {entries : List Adjacency}
    (h : c ∈ candidates target p entries) : c.length = p.length + 1 := by
  obtain ⟨entry, -, rfl⟩ := List.mem_map.mp h
  simp

theorem Tracks.of_eq {s s' : Search} {queue kept : List (List ImpactPathStep)}
    (h : Tracks request context nodes target s queue kept) (sameQueue : s'.queue = s.queue)
    (sameBest : s'.best = s.best) (sameItems : s'.items = s.items) :
    Tracks request context nodes target s' queue kept where
  paths := by rw [sameQueue]; exact h.paths
  states := by rw [sameQueue]; exact h.states
  best := by rw [sameBest]; exact h.best
  items := by rw [sameItems]; exact h.items
  reported := by rw [sameItems]; exact h.reported

theorem tracks_start : Tracks request context nodes target (start target) [[]] [[]] where
  paths := rfl
  states := by simp [start, endpoint, pathCertainty]
  best v := by
    by_cases same : target.id = v
    · simp [start, Space.latest, impactSpace, pathCertainty, same]
    · simp [start, Space.latest, impactSpace, same]
  items v item h := by simp [start] at h
  reported := by simp

@[simp] theorem reach_nodeId (state : TraversalState) (entry : Adjacency) :
    (reach request state entry).nodeId = entry.neighbor := rfl

theorem cost_eq (p : List ImpactPathStep) :
    (impactSpace request context target).cost p = pathCertainty request p := rfl

section Round

variable {s : Search} {queue kept : List (List ImpactPathStep)} {state : TraversalState}
variable (place : state.nodeId = endpoint target state.path ∧
  state.certainty = pathCertainty request state.path)
include place

theorem reach_certainty (context : ImpactContext) (entry : Adjacency) :
    (reach request state entry).certainty =
    pathCertainty request (state.path ++ [stepAlong (endpoint target state.path) entry]) := by
  rw [← @cost_eq request context target, Space.cost_snoc, cost_eq, ← place.2]
  rfl

variable (track : Tracks request context nodes target s queue kept)
include track

theorem dominated_iff (improving : (impactSpace request context target).Improving kept)
    (short : ∀ q ∈ kept, q.length ≤ state.path.length + 1) (entry : Adjacency) :
    dominated s (reach request state entry) = true ↔
      ∃ q ∈ kept, (impactSpace request context target).Covers q
        (state.path ++ [stepAlong (endpoint target state.path) entry]) := by
  rw [Space.covered_iff_latest _ improving, Space.goal_snoc]
  have label : s.best[(reach request state entry).nodeId]? = _ := track.best entry.neighbor
  have size : (reach request state entry).path.length = state.path.length + 1 := by
    simp [reach, TraversalState.follow]
  rw [dominated, label, reach_certainty place context, size]
  show _ ↔ ∃ q, (impactSpace request context target).latest kept entry.neighbor = some q ∧ _
  cases found : (impactSpace request context target).latest kept entry.neighbor with
  | none => simp
  | some q =>
    have le := short q (Space.latest_mem _ found).1
    simp only [Option.map_some, Option.any_some, decide_eq_true_eq, Prod.Lex.toLex_le_toLex,
      Option.some.injEq, exists_eq_left']
    constructor
    · rintro (lt | ⟨same, -⟩)
      · exact lt.le
      · exact same.le
    · intro cheaper
      rcases cheaper.lt_or_eq with lt | same
      · exact .inl lt
      · exact .inr ⟨same, le⟩

theorem tracks_record (entry : Adjacency) (node : Node) 
    (known : nodes[entry.neighbor]? = some node) :
    Tracks request context nodes target
      ((counted request s entry).record (reach request state entry) node)
      (queue ++ [state.path ++ [stepAlong (endpoint target state.path) entry]])
      (kept ++ [state.path ++ [stepAlong (endpoint target state.path) entry]]) := by
  have path : (reach request state entry).path =
      state.path ++ [stepAlong (endpoint target state.path) entry] := by
    rw [← place.1]
    rfl
  have certainty := reach_certainty place context entry
  have ends : endpoint target (reach request state entry).path = entry.neighbor := by
    rw [path, endpoint_snoc]
    rfl
  rw [← path] at certainty ⊢
  refine ⟨?_, ?_, ?_, ?_, ?_⟩
  · simp [Search.record, track.paths]
  · intro next hn
    rcases List.mem_append.mp hn with hn | hn
    · exact track.states next (by simpa using hn)
    · obtain rfl := List.mem_singleton.mp hn
      exact ⟨ends.symm, certainty⟩
  · intro v
    rw [Space.latest_snoc, show (impactSpace request context target).goal _ = _ from ends]
    simp only [Search.record, counted_best, Std.ExtTreeMap.getElem?_insert,
      Std.LawfulEqOrd.compare_eq_iff_eq]
    by_cases same : entry.neighbor = v
    · simp [same, certainty]
    · simp [same, track.best v]
  · intro v item h
    rw [Space.latest_snoc, show (impactSpace request context target).goal _ = _ from ends]
    simp only [Search.record, counted_items, Std.ExtTreeMap.getElem?_insert,
      Std.LawfulEqOrd.compare_eq_iff_eq] at h
    by_cases same : entry.neighbor = v
    · rw [if_pos (by exact same)] at h
      obtain rfl := Option.some.inj h
      exact ⟨same ▸ known, by simp [path], rfl, by simp [same]⟩
    · rw [if_neg (by exact same)] at h
      simpa [same] using track.items v item h
  · intro p hp nonempty
    simp only [Search.record, counted_items, Std.ExtTreeMap.mem_insert,
      Std.LawfulEqOrd.compare_eq_iff_eq]
    rcases List.mem_append.mp hp with hp | hp
    · exact .inr (track.reported p hp nonempty)
    · obtain rfl := List.mem_singleton.mp hp
      exact .inl ends.symm

theorem tracks_visit (improving : (impactSpace request context target).Improving kept)
    (short : ∀ q ∈ kept, q.length ≤ state.path.length + 1)
    {entry : Adjacency} {s' : Search}
    (visit : Visited request nodes target state entry s (.again s')) :
    Tracks request context nodes target s'
      (queue ++ (impactSpace request context target).select kept
        (candidates target state.path [entry]))
      (kept ++ (impactSpace request context target).select kept
        (candidates target state.path [entry])) := by
  have covering := dominated_iff place track improving short entry
  cases visit with
  | skipped blocked => simpa [candidates, blocked, Space.select] using track
  | revisited allowed seen =>
    have unchanged : Tracks request context nodes target s.examine queue kept :=
      track.of_eq rfl rfl rfl
    simpa [candidates, seen, Space.select] using unchanged
  | covered allowed fresh better =>
    simp only [candidates, allowed, fresh, List.filter_cons, List.filter_nil, Bool.not_false,
      Bool.and_self, if_true, List.map_cons, List.map_nil, Space.select,
      if_pos (covering.mp better), List.append_nil]
    exact track.of_eq (by simp) (by simp) (by simp)
  | admitted allowed fresh worse node known =>
    have uncovered := fun h => Bool.eq_false_iff.mp worse (covering.mpr h)
    simp only [candidates, allowed, fresh, List.filter_cons, List.filter_nil, Bool.not_false,
      Bool.and_self, if_true, List.map_cons, List.map_nil, Space.select, if_neg uncovered]
    exact tracks_record place track entry node known

end Round

theorem candidates_cons (p : List ImpactPathStep) (entry : Adjacency) (rest : List Adjacency) :
    candidates target p (entry :: rest) =
      candidates target p [entry] ++ candidates target p rest := by
  simp only [candidates, ← List.map_append, ← List.filter_append, List.singleton_append]

def examined (target : Node) (p : List ImpactPathStep) (entries : List Adjacency) :
    List (List ImpactPathStep) :=
  (entries.filter fun entry => follows p entry).map fun entry =>
    p ++ [stepAlong (endpoint target p) entry]

theorem candidates_sublist (p : List ImpactPathStep) (entries : List Adjacency) :
    (candidates target p entries).Sublist (examined target p entries) :=
  (List.monotone_filter_right entries fun _ both => (Bool.and_eq_true_iff.mp both).1).map _

theorem visitEntry_left {state : TraversalState} {entry : Adjacency} {s s' : Search}
    (unbounded : s.truncation = none)
    (visit : visitEntry request nodes target state entry s = .ok (.leave s')) :
    follows state.path entry = true ∧ s'.stopped = true ∧
      (s'.queue = s.queue ∧ s'.best = s.best ∧ s'.items = s.items) ∧
      (request.options.edgeLimit < s.examinedEdges + 1 ∨
        revisits target state.path entry = false ∧
          dominated s (reach request state entry) = false ∧
          entry.neighbor ∉ s.items ∧ request.options.nodeLimit ≤ s.items.size) := by
  unfold visitEntry at visit
  split at visit
  · cases visit
  · next allowed =>
    have allowed : follows state.path entry = true := by simpa using allowed
    split at visit
    · next many =>
      obtain rfl := Turn.leave.inj (Except.ok.inj visit)
      refine ⟨allowed, ?_, ⟨rfl, rfl, rfl⟩, .inl many⟩
      simp [Search.stopped, Search.truncate, Search.examine, unbounded, edgeLimitInfo]
    · split at visit
      · cases visit
      · next fresh =>
        split at visit
        · cases visit
        · next worse =>
          split at visit
          · next full =>
            obtain rfl := Turn.leave.inj (Except.ok.inj visit)
            refine ⟨allowed, ?_,
              ⟨counted_queue s entry, by simp [Search.truncate], by simp [Search.truncate]⟩,
              .inr ⟨by simpa using fresh, by simpa using worse, full⟩⟩
            simp [Search.stopped, Search.truncate, counted_truncation, unbounded, nodeLimitInfo]
          · split at visit <;> cases visit

theorem counted_examined (s : Search) (entry : Adjacency) :
    (counted request s entry).examinedEdges = s.examinedEdges + 1 := by
  unfold counted
  cases edgeCertainty entry.edge request.options.confirmedConfidence <;> rfl

theorem visitEntry_within {state : TraversalState} {entry : Adjacency} {s s' : Search}
    (edges : s.examinedEdges ≤ request.options.edgeLimit)
    (size : s.items.size ≤ request.options.nodeLimit)
    (visit : visitEntry request nodes target state entry s = .ok (.again s')) :
    s'.examinedEdges = s.examinedEdges + (examined target state.path [entry]).length ∧
      s'.examinedEdges ≤ request.options.edgeLimit ∧ s'.items.size ≤ request.options.nodeLimit := by
  unfold visitEntry at visit
  split at visit
  · next blocked =>
    obtain rfl := Turn.again.inj (Except.ok.inj visit)
    have blocked : follows state.path entry = false := by simpa using blocked
    exact ⟨by simp [examined, blocked], edges, size⟩
  · next allowed =>
    have allowed : follows state.path entry = true := by simpa using allowed
    have one : (examined target state.path [entry]).length = 1 := by simp [examined, allowed]
    split at visit
    · cases visit
    · next few =>
      have few : s.examinedEdges + 1 ≤ request.options.edgeLimit := not_lt.mp few
      rw [one]
      split at visit
      · obtain rfl := Turn.again.inj (Except.ok.inj visit)
        exact ⟨rfl, few, size⟩
      · split at visit
        · obtain rfl := Turn.again.inj (Except.ok.inj visit)
          exact ⟨counted_examined s entry, @counted_examined request s entry ▸ few,
            by rwa [counted_items]⟩
        · split at visit
          · cases visit
          · next room =>
            split at visit
            · cases visit
            · obtain rfl := Turn.again.inj (Except.ok.inj visit)
              refine ⟨counted_examined s entry, @counted_examined request s entry ▸ few,
                ?_⟩
              simp only [Search.record, counted_items, reach_nodeId, Std.ExtTreeMap.size_insert]
              split
              · exact size
              · next absent =>
                exact Nat.lt_of_not_le fun full => room ⟨absent, full⟩

def Exhausted (request : ImpactRequest) (context : ImpactContext) (target : Node) (s : Search)
    (kept : List (List ImpactPathStep)) (count : Nat) (p : List ImpactPathStep)
    (entry : Adjacency) : Prop :=
  request.options.edgeLimit < count + 1 ∨
    revisits target p entry = false ∧
      (∀ q ∈ kept, ¬ (impactSpace request context target).Covers q
        (p ++ [stepAlong (endpoint target p) entry])) ∧
      entry.neighbor ∉ s.items ∧ request.options.nodeLimit ≤ s.items.size

theorem visitEntries_scan {state : TraversalState}
    (place : state.nodeId = endpoint target state.path ∧
      state.certainty = pathCertainty request state.path) (entries : List Adjacency) :
    ∀ (s s' : Search) (queue kept : List (List ImpactPathStep)),
      Tracks request context nodes target s queue kept →
      (impactSpace request context target).Improving kept →
      (∀ q ∈ kept, q.length ≤ state.path.length + 1) → s.truncation = none →
      s.examinedEdges ≤ request.options.edgeLimit → s.items.size ≤ request.options.nodeLimit →
      visitEntries request nodes target state s entries = .ok s' →
      ∃ seen later, entries = seen ++ later ∧
        Tracks request context nodes target s'
          (queue ++ (impactSpace request context target).select kept
            (candidates target state.path seen))
          (kept ++ (impactSpace request context target).select kept
            (candidates target state.path seen)) ∧
        s.examinedEdges + (examined target state.path seen).length ≤ request.options.edgeLimit ∧
        s'.items.size ≤ request.options.nodeLimit ∧
        (later = [] ∧ s'.truncation = none ∧
            s'.examinedEdges = s.examinedEdges + (examined target state.path seen).length ∨
          s'.stopped = true ∧ ∃ entry rest, later = entry :: rest ∧
            follows state.path entry = true ∧
            Exhausted request context target s'
              (kept ++ (impactSpace request context target).select kept
                (candidates target state.path seen))
              (s.examinedEdges + (examined target state.path seen).length) state.path entry) := by
  induction entries with
  | nil =>
    intro s s' queue kept track _ _ unbounded edges size result
    obtain rfl := Except.ok.inj result
    exact ⟨[], [], rfl, by simpa [candidates, Space.select] using track, edges, size,
      .inl ⟨rfl, unbounded, rfl⟩⟩
  | cons entry rest ih =>
    intro s s' queue kept track improving short unbounded edges size result
    unfold visitEntries at result
    split at result
    · cases result
    · next left visit =>
      obtain rfl := Except.ok.inj result
      obtain ⟨allowed, stopped, ⟨sameQueue, sameBest, sameItems⟩, why⟩ :=
        visitEntry_left unbounded visit
      refine ⟨[], entry :: rest, rfl, ?_, edges, sameItems ▸ size,
        .inr ⟨stopped, entry, rest, rfl, allowed, ?_⟩⟩
      · simpa [candidates, Space.select] using track.of_eq sameQueue sameBest sameItems
      · refine why.imp id fun full => ⟨full.1, ?_, sameItems ▸ full.2.2⟩
        intro q hq cover
        rw [candidates, List.filter_nil, List.map_nil, Space.select, List.append_nil] at hq
        have better := (dominated_iff place track improving short entry).mpr ⟨q, hq, cover⟩
        rw [full.2.1] at better
        cases better
    · next s₁ visit =>
      have visited := visitEntry_visited visit
      have first := tracks_visit place track improving short visited
      have improved := Space.improving_select _ (candidates target state.path [entry]) _ improving
      have short' : ∀ q ∈ kept ++ (impactSpace request context target).select kept
          (candidates target state.path [entry]), q.length ≤ state.path.length + 1 := by
        intro q hq
        rcases List.mem_append.mp hq with hq | hq
        · exact short q hq
        · exact (candidates_length (Space.mem_of_mem_select _ _ _ hq)).le
      obtain ⟨count, edges', size'⟩ := visitEntry_within edges size visit
      obtain ⟨seen, later, rfl, last⟩ := ih s₁ s' _ _ first improved short'
        ((visited_again_truncation visited).trans unbounded) edges' size' result
      have both : (examined target state.path (entry :: seen)).length =
          (examined target state.path [entry]).length +
            (examined target state.path seen).length := by
        simp only [examined, ← List.length_append, ← List.map_append, ← List.filter_append,
          List.singleton_append]
      refine ⟨entry :: seen, later, rfl, ?_⟩
      rw [candidates_cons, Space.select_append, ← List.append_assoc, ← List.append_assoc, both,
        ← Nat.add_assoc, ← count]
      exact last

def examinedFrom (request : ImpactRequest) (context : ImpactContext) (target : Node)
    (popped : List (List ImpactPathStep)) : List (List ImpactPathStep) :=
  (popped.filter (·.length < request.options.maxDepth)).flatMap fun p =>
    examined target p (neighborsOf request context (endpoint target p))

theorem mem_examined_neighbors {p q : List ImpactPathStep} :
    q ∈ examined target p (neighborsOf request context (endpoint target p)) ↔
      ∃ step, Follows request context target p step ∧ q = p ++ [step] := by
  simp only [examined, List.mem_map, List.mem_filter, ← mem_followed]
  constructor
  · rintro ⟨entry, ⟨he, allowed⟩, rfl⟩
    exact ⟨_, ⟨entry, he, allowed, rfl⟩, rfl⟩
  · rintro ⟨_, ⟨entry, he, allowed, rfl⟩, rfl⟩
    exact ⟨entry, ⟨he, allowed⟩, rfl⟩

theorem mem_examinedFrom {popped : List (List ImpactPathStep)} {q : List ImpactPathStep} :
    q ∈ examinedFrom request context target popped ↔ ∃ p ∈ popped,
      p.length < request.options.maxDepth ∧
        ∃ step, Follows request context target p step ∧ q = p ++ [step] := by
  simp [examinedFrom, mem_examined_neighbors, and_assoc]

theorem follows_of_next {p : List ImpactPathStep} {step : ImpactPathStep}
    (h : step ∈ (impactSpace request context target).next p) :
    Follows request context target p step := by
  obtain ⟨source, propagates, realised, straight, -⟩ := mem_next.mp h
  exact ⟨source, propagates, realised, straight⟩

theorem examined_sorted (ids : (context.edges.map Edge.id).Nodup) (p : List ImpactPathStep) :
    (examined target p (neighborsOf request context (endpoint target p))).Pairwise
      fun q r => place q < place r := by
  refine List.pairwise_map.mpr (List.Pairwise.filter _ ?_)
  rw [neighborsOf_eq]
  refine (sortBy_strict Adjacency.key (entriesAt_keys_nodup _ _ ids)).imp fun {a b} lt => ?_
  exact Space.rank_last stepKey p lt

theorem examinedFrom_sorted (ids : (context.edges.map Edge.id).Nodup)
    {popped : List (List ImpactPathStep)} (order : popped.Pairwise fun q r => place q < place r) :
    (examinedFrom request context target popped).Pairwise fun q r => place q < place r := by
  refine List.pairwise_flatMap.mpr ⟨fun p _ => examined_sorted ids p, ?_⟩
  refine (List.Pairwise.filter _ order).imp fun {p p'} lt q hq r hr => ?_
  obtain ⟨step, -, rfl⟩ := mem_examined_neighbors.mp hq
  obtain ⟨step', -, rfl⟩ := mem_examined_neighbors.mp hr
  exact Space.rank_snoc stepKey lt step step'

/-- What holds between two turns of the loop. -/
structure Searching (request : ImpactRequest) (context : ImpactContext) (nodes : NodeIndex)
    (target : Node) (s : Search) (popped queue : List (List ImpactPathStep)) : Prop where
  scan : (impactSpace request context target).Scan request.options.maxDepth popped queue
  tracks : Tracks request context nodes target s queue (popped ++ queue)
  count : s.examinedEdges = (examinedFrom request context target popped).length
  edges : s.examinedEdges ≤ request.options.edgeLimit
  size : s.items.size ≤ request.options.nodeLimit
  unbounded : ∀ q ∈ queue, q.length < request.options.maxDepth → s.truncation = none

/-- What holds at the end: the paths found are those within the limits. -/
structure Ended (request : ImpactRequest) (context : ImpactContext) (nodes : NodeIndex)
    (target : Node) (s : Search) (kept : List (List ImpactPathStep)) : Prop where
  tracks : ∃ queue, Tracks request context nodes target s queue kept
  initial : kept <+: (impactSpace request context target).kept request.options.maxDepth
  within : ∀ p ∈ (impactSpace request context target).kept request.options.maxDepth, p ≠ [] →
    (p ∈ kept ↔ WithinLimits request context target p)
  all : s.truncation = none →
    kept = (impactSpace request context target).kept request.options.maxDepth

section Limits

variable (ids : (context.edges.map Edge.id).Nodup)
include ids

theorem examined_of_kept {p : List ImpactPathStep}
    (hp : p ∈ (impactSpace request context target).kept request.options.maxDepth)
    (nonempty : p ≠ []) : Examined request context target p := by
  obtain ⟨front, step, rfl⟩ := (List.eq_nil_or_concat p).resolve_left nonempty
  rw [List.concat_eq_append] at hp ⊢
  have size := (Space.mem_level_of_mem_kept _ _ hp).1
  rw [List.length_append, List.length_singleton] at size
  obtain ⟨before, last⟩ := Space.mem_kept_of_snoc _ hp
  exact ⟨front, step, rfl, (mem_kept_iff_preferred ids).mp before, by omega, follows_of_next last⟩

theorem ended_finished {s : Search} {popped : List (List ImpactPathStep)}
    (h : Searching request context nodes target s popped []) :
    Ended request context nodes target s popped := by
  have all := h.scan.finish
  refine ⟨⟨[], by simpa using h.tracks⟩, all ▸ List.prefix_rfl, fun p hp _ => ?_, fun _ => all⟩
  refine iff_of_true (all ▸ hp) ⟨?_, ?_⟩
  · refine (encard_le_length (x := examinedFrom request context target popped) ?_).trans ?_
    · rintro q ⟨⟨before, step, rfl, preferred, short, follow⟩, -⟩
      exact mem_examinedFrom.mpr
        ⟨before, all ▸ (mem_kept_iff_preferred ids).mpr preferred, short, step, follow, rfl⟩
    · exact_mod_cast h.count ▸ h.edges
  · refine (encard_le_length (x := s.items.keys) ?_).trans ?_
    · rintro v ⟨q, preferred, nonempty, -, rfl⟩
      have found : q ∈ popped ++ [] := by
        simpa [all] using (mem_kept_iff_preferred ids).mpr preferred
      exact Std.ExtTreeMap.mem_keys.mpr (h.tracks.reported q found nonempty)
    · rw [Std.ExtTreeMap.length_keys]
      exact_mod_cast h.size

end Limits

/-- The search has examined the entries `seen` behind the path it took last, with the paths `kept`
found so far, and examines `entry` next. -/
structure StandsAt (request : ImpactRequest) (context : ImpactContext) (target : Node)
    (popped queue : List (List ImpactPathStep)) (p : List ImpactPathStep)
    (seen : List Adjacency) (entry : Adjacency) (rest : List Adjacency)
    (kept : List (List ImpactPathStep)) : Prop where
  scan : (impactSpace request context target).Scan request.options.maxDepth popped (p :: queue)
  short : p.length < request.options.maxDepth
  neighbors : neighborsOf request context (endpoint target p) = seen ++ entry :: rest
  follow : follows p entry = true
  is : kept = popped ++ p :: queue ++ (impactSpace request context target).select
      (popped ++ p :: queue) (candidates target p seen)

section Stopped

variable {popped queue kept : List (List ImpactPathStep)} {p : List ImpactPathStep}
  {seen rest : List Adjacency} {entry : Adjacency}

theorem place_lt_of_initial (ids : (context.edges.map Edge.id).Nodup)
    (initial : kept <+: (impactSpace request context target).kept request.options.maxDepth)
    {q r : List ImpactPathStep} (hq : q ∈ kept)
    (hr : r ∈ (impactSpace request context target).kept request.options.maxDepth)
    (later : r ∉ kept) : place q < place r := by
  obtain ⟨more, split⟩ := initial
  have sorted := @kept_places request context target ids request.options.maxDepth
  rw [← split] at hr sorted
  exact (List.pairwise_append.mp sorted).2.2 q hq r ((List.mem_append.mp hr).resolve_left later)

variable (stands : StandsAt request context target popped queue p seen entry rest kept)
include stands

theorem StandsAt.whole : kept ++ (impactSpace request context target).select kept
    (candidates target p (entry :: rest)) <+:
      (impactSpace request context target).kept request.options.maxDepth := by
  have whole := (stands.scan.pop stands.short).initial
  have parts : (impactSpace request context target).extensions p =
      candidates target p seen ++ candidates target p (entry :: rest) := by
    rw [extensions_eq, stands.neighbors]
    simp [candidates]
  rwa [parts, Space.select_append, ← stands.is, List.append_assoc popped, List.singleton_append,
    ← List.cons_append, ← List.append_assoc, ← List.append_assoc, ← stands.is] at whole

theorem StandsAt.initial :
    kept <+: (impactSpace request context target).kept request.options.maxDepth :=
  (List.prefix_append _ _).trans stands.whole

/-- Of the paths that are kept in the end, those found so far are those examined so far. -/
theorem StandsAt.mem_kept_iff {q : List ImpactPathStep}
    (hq : q ∈ (impactSpace request context target).kept request.options.maxDepth)
    (nonempty : q ≠ []) :
    q ∈ kept ↔ q ∈ examinedFrom request context target popped ++ examined target p seen := by
  constructor
  · intro mem
    rw [stands.is, stands.scan.found] at mem
    rcases List.mem_append.mp mem with mem | mem
    · obtain ⟨a, ha, step, next, rfl⟩ :=
        Space.exists_of_mem_sweep _ _ _ ((List.mem_cons.mp mem).resolve_left nonempty)
      obtain ⟨ha, size⟩ := List.mem_filter.mp ha
      exact List.mem_append_left _ (mem_examinedFrom.mpr
        ⟨a, ha, of_decide_eq_true size, step, follows_of_next next, rfl⟩)
    · exact List.mem_append_right _
        ((candidates_sublist p seen).subset (Space.mem_of_mem_select _ _ _ mem))
  · intro mem
    rw [stands.is]
    rcases List.mem_append.mp mem with mem | mem
    · obtain ⟨a, ha, -, step, -, rfl⟩ := mem_examinedFrom.mp mem
      exact List.mem_append_left _ (stands.scan.mem_of_popped ha hq)
    · by_contra later
      rw [← stands.is] at later
      obtain ⟨visited, he, rfl⟩ := List.mem_map.mp mem
      have unseen := mem_next.mp (Space.mem_kept_of_snoc _ hq).2
      have listed : p ++ [stepAlong (endpoint target p) visited] ∈ candidates target p seen := by
        refine List.mem_map.mpr
          ⟨visited, List.mem_filter.mpr ⟨(List.mem_filter.mp he).1, ?_⟩, rfl⟩
        have fresh : revisits target p visited = false := by
          simpa [revisits] using ⟨unseen.2.2.2.2.1, unseen.2.2.2.2.2⟩
        rw [(List.mem_filter.mp he).2, fresh]
        rfl
      obtain ⟨r, hr, cover⟩ := Space.select_covers (impactSpace request context target) _
        (popped ++ p :: queue) listed
      exact Space.not_covers_of_initial stands.initial hq later r (stands.is ▸ hr) cover

variable (ids : (context.edges.map Edge.id).Nodup)
include ids

/-- The examined paths up to an entry: they come before it, and what is not among them does not. -/
theorem StandsAt.examined_upto {q : List ImpactPathStep}
    (hq : Examined request context target q) :
    (q ∈ examinedFrom request context target popped ++ examined target p seen →
      place q < place (p ++ [stepAlong (endpoint target p) entry])) ∧
    (q ∉ examinedFrom request context target popped ++ examined target p seen →
      place (p ++ [stepAlong (endpoint target p) entry]) ≤ place q) := by
  have sorted := @kept_places request context target ids request.options.maxDepth
  obtain ⟨more, split⟩ := stands.scan.initial
  have here := @examined_sorted request context target ids p
  have later : examined target p (seen ++ entry :: rest) = examined target p seen ++
      (p ++ [stepAlong (endpoint target p) entry]) :: examined target p rest := by
    simp [examined, stands.follow]
  rw [stands.neighbors, later] at here
  obtain ⟨-, after, before⟩ := List.pairwise_append.mp here
  constructor
  · intro mem
    rcases List.mem_append.mp mem with mem | mem
    · obtain ⟨a, ha, -, step, -, rfl⟩ := mem_examinedFrom.mp mem
      rw [← split, List.append_assoc] at sorted
      have lt := (List.pairwise_append.mp sorted).2.2 a ha p (by simp)
      exact Space.rank_snoc stepKey lt _ _
    · exact before q mem _ List.mem_cons_self
  · intro absent
    rw [List.mem_append, not_or] at absent
    obtain ⟨a, step, rfl, preferred, short, followed⟩ := hq
    have ha := (mem_kept_iff_preferred ids).mpr preferred
    rw [← split] at ha sorted
    rcases List.mem_append.mp ha with ha | ha
    · rcases List.mem_append.mp ha with ha | ha
      · exact absurd (mem_examinedFrom.mpr ⟨a, ha, short, step, followed, rfl⟩) absent.1
      · rcases List.mem_cons.mp ha with rfl | ha
        · have mem := mem_examined_neighbors.mpr ⟨step, followed, rfl⟩
          rw [stands.neighbors, later] at mem
          rcases List.mem_append.mp mem with mem | mem
          · exact absurd mem absent.2
          · rcases List.mem_cons.mp mem with same | mem
            · exact (congrArg place same).ge
            · exact ((List.pairwise_cons.mp after).1 _ mem).le
        · have lt := (List.pairwise_cons.mp
            (List.pairwise_append.mp (List.pairwise_append.mp sorted).1).2.1).1 a ha
          exact (Space.rank_snoc stepKey lt _ _).le
    · have lt := (List.pairwise_append.mp sorted).2.2 p (by simp) a ha
      exact (Space.rank_snoc stepKey lt _ _).le

/-- No more edges are examined and no more nodes are reached up to a path that is found. -/
theorem StandsAt.within {s : Search} {queue' : List (List ImpactPathStep)}
    (tracks : Tracks request context nodes target s queue' kept)
    (edges : (examinedFrom request context target popped).length + (examined target p seen).length ≤
      request.options.edgeLimit)
    (size : s.items.size ≤ request.options.nodeLimit) {q : List ImpactPathStep} (mem : q ∈ kept)
    (nonempty : q ≠ []) : WithinLimits request context target q := by
  have hq := stands.initial.subset mem
  have low := (stands.examined_upto ids (examined_of_kept ids hq nonempty)).1
    ((stands.mem_kept_iff hq nonempty).mp mem)
  constructor
  · refine (encard_le_length
      (x := examinedFrom request context target popped ++ examined target p seen) ?_).trans ?_
    · rintro r ⟨hr, le⟩
      by_contra later
      exact absurd ((stands.examined_upto ids hr).2 later) (not_le.mpr (le.trans_lt low))
    · rw [List.length_append]
      exact_mod_cast edges
  · refine (encard_le_length (x := s.items.keys) ?_).trans ?_
    · rintro v ⟨r, preferred, occupied, le, rfl⟩
      have hr := (mem_kept_iff_preferred ids).mpr preferred
      refine Std.ExtTreeMap.mem_keys.mpr (tracks.reported r ?_ occupied)
      by_contra later
      exact absurd (place_lt_of_initial ids stands.initial mem hr later) (not_lt.mpr le)
    · rw [Std.ExtTreeMap.length_keys]
      exact_mod_cast size

/-- The entry is examined up to any path that is found later. -/
theorem StandsAt.edges_beyond {q : List ImpactPathStep}
    (high : place (p ++ [stepAlong (endpoint target p) entry]) ≤ place q)
    (few : {r | Examined request context target r ∧ place r ≤ place q}.encard ≤
      request.options.edgeLimit) :
    (examinedFrom request context target popped).length + (examined target p seen).length + 1 ≤
      request.options.edgeLimit := by
  have listed : (examinedFrom request context target popped ++ examined target p seen ++
        [p ++ [stepAlong (endpoint target p) entry]]).Sublist
          (examinedFrom request context target (popped ++ [p])) := by
    simp [examinedFrom, stands.short, stands.neighbors, examined, stands.follow]
  have order : (popped ++ [p]).Pairwise fun q r => place q < place r := by
    refine (@kept_places request context target ids request.options.maxDepth).sublist ?_
    refine List.Sublist.trans ?_ stands.scan.initial.sublist
    simp
  have sorted := (@examinedFrom_sorted request context target ids _ order).sublist listed
  have inside : ∀ r ∈ examinedFrom request context target (popped ++ [p]),
      Examined request context target r := by
    intro r hr
    obtain ⟨a, ha, size, step, next, rfl⟩ := mem_examinedFrom.mp hr
    refine
      ⟨a, step, rfl, (mem_kept_iff_preferred ids).mp (stands.scan.initial.subset ?_), size, next⟩
    rcases List.mem_append.mp ha with ha | ha
    · exact List.mem_append_left _ ha
    · simp [List.mem_singleton.mp ha]
  have count := (length_le_encard
      (sorted.imp fun {q r} lt same => lt.ne (congrArg place same)) fun r hr => ?_).trans few
  · rw [List.length_append, List.length_append, List.length_singleton] at count
    exact_mod_cast count
  · have examined := inside r (listed.subset hr)
    refine ⟨examined, ?_⟩
    rcases List.mem_append.mp hr with hr | hr
    · exact ((stands.examined_upto ids examined).1 hr).le.trans high
    · exact List.mem_singleton.mp hr ▸ high

/-- A node that the entry reaches first is reached up to any path that is found later. -/
theorem StandsAt.nodes_beyond {s : Search} {queue' : List (List ImpactPathStep)}
    (tracks : Tracks request context nodes target s queue' kept)
    (fresh : revisits target p entry = false)
    (uncovered : ∀ q ∈ kept, ¬ (impactSpace request context target).Covers q
      (p ++ [stepAlong (endpoint target p) entry]))
    (absent : entry.neighbor ∉ s.items) {q : List ImpactPathStep}
    (hq : q ∈ (impactSpace request context target).kept request.options.maxDepth)
    (later : q ∉ kept) (high : place (p ++ [stepAlong (endpoint target p) entry]) ≤ place q)
    (few : {v | ∃ r, Preferred request context target r ∧ r ≠ [] ∧ place r ≤ place q ∧
      endpoint target r = v}.encard ≤ request.options.nodeLimit) :
    s.items.size + 1 ≤ request.options.nodeLimit := by
  have extended : kept ++ [p ++ [stepAlong (endpoint target p) entry]] <+:
      (impactSpace request context target).kept request.options.maxDepth := by
    refine List.IsPrefix.trans ?_ stands.whole
    have uncovered : ¬∃ q ∈ kept, (impactSpace request context target).Covers q
        (p ++ [stepAlong (endpoint target p) entry]) := by simpa using uncovered
    simp [candidates, stands.follow, fresh, Space.select, uncovered]
  have reached : Preferred request context target (p ++ [stepAlong (endpoint target p) entry]) :=
    (mem_kept_iff_preferred ids).mp (extended.subset (by simp))
  have nodup : (s.items.keys ++ [entry.neighbor]).Nodup := by
    refine List.nodup_append.mpr ⟨Std.ExtTreeMap.nodup_keys, List.nodup_singleton _, ?_⟩
    intro v hv w hw same
    rw [List.mem_singleton.mp hw] at same
    exact absent (same ▸ Std.ExtTreeMap.mem_keys.mp hv)
  have count := (length_le_encard nodup fun v hv => ?_).trans few
  · rw [List.length_append, Std.ExtTreeMap.length_keys, List.length_singleton] at count
    exact_mod_cast count
  · rcases List.mem_append.mp hv with hv | hv
    · obtain ⟨item, known⟩ := Option.isSome_iff_exists.mp
        (Std.ExtTreeMap.mem_iff_isSome_getElem?.mp (Std.ExtTreeMap.mem_keys.mp hv))
      obtain ⟨-, occupied, -, latest⟩ := tracks.items v item known
      obtain ⟨mem, ends⟩ := Space.latest_mem _ latest
      exact ⟨item.path, (mem_kept_iff_preferred ids).mp (stands.initial.subset mem), occupied,
        (place_lt_of_initial ids stands.initial mem hq later).le, ends⟩
    · exact ⟨_, reached, by simp, high, by rw [endpoint_snoc, List.mem_singleton.mp hv]; rfl⟩

theorem ended_stopped {s : Search} {queue' : List (List ImpactPathStep)}
    (tracks : Tracks request context nodes target s queue' kept)
    (edges : (examinedFrom request context target popped).length + (examined target p seen).length ≤
      request.options.edgeLimit)
    (size : s.items.size ≤ request.options.nodeLimit) (stopped : s.stopped = true)
    (exhausted : Exhausted request context target s kept
      ((examinedFrom request context target popped).length + (examined target p seen).length) p
      entry) : Ended request context nodes target s kept := by
  refine ⟨⟨queue', tracks⟩, stands.initial, fun q hq nonempty => ?_, fun none => ?_⟩
  · constructor
    · exact fun mem => stands.within ids tracks edges size mem nonempty
    · -- up to a path that is found later, the entry is one too many
      rintro ⟨fewEdges, fewNodes⟩
      by_contra later
      have high := (stands.examined_upto ids (examined_of_kept ids hq nonempty)).2 fun mem =>
        later ((stands.mem_kept_iff hq nonempty).mpr mem)
      rcases exhausted with many | ⟨fresh, uncovered, absent, full⟩
      · have count := stands.edges_beyond ids high fewEdges
        omega
      · have count := stands.nodes_beyond ids tracks fresh uncovered absent hq later high fewNodes
        omega
  · simp [Search.stopped, none] at stopped

end Stopped

/-- What holds between two turns: some paths have been taken and some wait. -/
def Continues (request : ImpactRequest) (context : ImpactContext) (nodes : NodeIndex)
    (target : Node) (s : Search) : Prop :=
  ∃ popped queue, Searching request context nodes target s popped queue

theorem Tracks.pop {s : Search} {state : TraversalState} {rest : List TraversalState}
    {queue kept : List (List ImpactPathStep)} (popped : s.queue = state :: rest)
    (track : Tracks request context nodes target s queue kept) :
    queue = state.path :: rest.map (·.path) ∧
      Tracks request context nodes target { s with queue := rest } (rest.map (·.path)) kept ∧
      state.nodeId = endpoint target state.path ∧
        state.certainty = pathCertainty request state.path := by
  refine ⟨?_, ⟨rfl, fun st hst => track.states st (popped ▸ .tail _ hst), track.best, track.items,
    track.reported⟩, track.states state (popped ▸ List.mem_cons_self)⟩
  rw [← track.paths, popped]
  rfl

theorem Searching.drop {s s' : Search} {state : TraversalState} {rest : List TraversalState}
    {popped queue : List (List ImpactPathStep)}
    (h : Searching request context nodes target s popped queue) (here : s.queue = state :: rest)
    (deep : state.path.length = request.options.maxDepth) (sameQueue : s'.queue = rest)
    (sameBest : s'.best = s.best) (sameItems : s'.items = s.items)
    (sameCount : s'.examinedEdges = s.examinedEdges) :
    Continues request context nodes target s' := by
  obtain ⟨rfl, track, -⟩ := h.tracks.pop here
  have long : ¬state.path.length < request.options.maxDepth := deep ▸ lt_irrefl _
  refine ⟨popped ++ [state.path], rest.map (·.path), h.scan.drop long, ?_, ?_, sameCount ▸ h.edges,
    sameItems ▸ h.size, fun q hq shorter => ?_⟩
  · rw [List.append_assoc, List.singleton_append]
    exact track.of_eq sameQueue sameBest sameItems
  · rw [sameCount, h.count, examinedFrom, examinedFrom, List.filter_append]
    simp [long]
  · have := (h.scan.waiting q hq).1
    omega

theorem searching_expand (ids : (context.edges.map Edge.id).Nodup)
    {s s' : Search} {state : TraversalState} {rest : List TraversalState}
    {popped queue : List (List ImpactPathStep)}
    (h : Searching request context nodes target s popped queue) (here : s.queue = state :: rest)
    (shallow : state.path.length ≠ request.options.maxDepth)
    (visit : visitEntries request nodes target state { s with queue := rest }
      (neighborsOf request context state.nodeId) = .ok s') :
    (s'.stopped = false → Continues request context nodes target s') ∧
      (s'.stopped = true → ∃ kept, Ended request context nodes target s' kept) := by
  obtain ⟨rfl, track, place⟩ := h.tracks.pop here
  have inside := (Space.mem_level_of_mem_kept _ _ (h.scan.initial.subset
    (List.mem_append_right popped (List.mem_cons_self (a := state.path))))).1
  have short : state.path.length < request.options.maxDepth := by omega
  have unbounded := h.unbounded state.path List.mem_cons_self short
  obtain ⟨seen, later, split, track', edges, size, last⟩ := visitEntries_scan place _ _ _ _ _
    track h.scan.improving h.scan.length unbounded h.edges h.size visit
  rw [place.1] at split
  rw [show ({ s with queue := rest } : Search).examinedEdges = s.examinedEdges from rfl, h.count]
    at edges last
  rcases last with ⟨rfl, complete, count⟩ | ⟨stopped, entry, others, rfl, follow, exhausted⟩
  · rw [List.append_nil] at split
    have free : s'.stopped = false := by simp [Search.stopped, complete]
    refine ⟨fun _ => ?_, fun stopped => absurd (free.symm.trans stopped) Bool.false_ne_true⟩
    have scan := h.scan.pop short
    rw [extensions_eq, split] at scan
    refine ⟨_, _, scan, ?_, ?_, count ▸ edges, size, fun _ _ _ => complete⟩
    · rw [List.append_assoc popped, List.singleton_append, ← List.cons_append, ← List.append_assoc]
      exact track'
    · rw [count, examinedFrom, examinedFrom, List.filter_append, List.flatMap_append,
        List.length_append]
      simp [short, split]
  · refine ⟨fun free => absurd (free.symm.trans stopped) Bool.false_ne_true, fun _ => ?_⟩
    exact ⟨_, ended_stopped ⟨h.scan, short, split, follow, rfl⟩ ids track' edges size stopped
      exhausted⟩

theorem traverse_ended (ids : (context.edges.map Edge.id).Nodup)
    {result : Traversal} (run : traverse request context nodes target = .ok result) :
    ∃ (s : Search) (kept : List (List ImpactPathStep)), result.items = values s.items ∧
      result.truncation = s.truncation ∧ Ended request context nodes target s kept := by
  unfold traverse at run
  split at run
  · cases run
  · next s ended =>
    obtain rfl := Except.ok.inj run
    have finished := loop_rule (@turn_terminates request context nodes target)
      (Continues request context nodes target)
      (fun r => ∀ s, r = .ok s → ∃ kept, Ended request context nodes target s kept)
      ?_ ?_ (start target) (start_depthBounded request target) ?_
    · obtain ⟨kept, ended⟩ := finished s ended
      exact ⟨s, kept, rfl, rfl, ended⟩
    · rintro s s' ⟨popped, queue, h⟩ again
      cases again ▸ @turn_turned request context nodes target s with
      | beyond state rest here deep info => exact h.drop here deep rfl rfl rfl rfl
      | bottom state rest here deep done => exact h.drop here deep rfl rfl rfl rfl
      | expanded state rest here shallow _ visit free =>
        exact (searching_expand ids h here shallow visit).1 free
    · rintro s r ⟨popped, queue, h⟩ left s₁ rfl
      cases left ▸ @turn_turned request context nodes target s with
      | finished empty =>
        obtain rfl : queue = [] := by rw [← h.tracks.paths, empty]; rfl
        exact ⟨popped, ended_finished ids h⟩
      | stopped state rest here _ visit bound shallow =>
        exact (searching_expand ids h here shallow visit).2 bound
    · exact ⟨[], [[]], .start, tracks_start, rfl, Nat.zero_le _, Nat.zero_le _, fun _ _ _ => rfl⟩

end Simulation

end CodeSystemGraph.Impact
