import CodeSystemGraph.ImpactSearch

/-! Exactness of a complete search (every reachable node is reported, with the
least certainty and depth of all its paths) can fail for one reason only: the one
path kept for a node ends in a `Contains` step after which the wanted step is a
structural pivot, while the path it displaced could have taken that step. -/

namespace CodeSystemGraph.Impact
open Ieee Model Ordered Iterate LabelSearch

section Exactness

variable (request : ImpactRequest) (context : ImpactContext) (target : Node)

def Reaches (p : List ImpactPathStep) (id : NodeId) : Prop :=
  IsImpactPath request context target p ∧ p.length ≤ request.options.maxDepth ∧
    endpoint target p = id

def label (p : List ImpactPathStep) : PathCertainty ×ₗ Nat :=
  toLex (pathCertainty request p, p.length)

def Exact (items : List ImpactItem) : Prop :=
  (∀ id, (∃ item ∈ items, item.node.id = id) ↔
    id ≠ target.id ∧ ∃ p, Reaches request context target p id) ∧
  ∀ item ∈ items, IsLeast {l | ∃ p, Reaches request context target p item.node.id ∧
    label request p = l} (toLex (pathCertainty request item.path, item.depth))

/-- A part of the path gives way to a preferred path that is no longer and no
less certain, but after which the next step of the path is a structural pivot. -/
def Overtaken (p : List ImpactPathStep) : Prop :=
  ∃ before step after, p = before ++ step :: after ∧
    ¬ Preferred request context target before ∧
    ∃ q, Preferred request context target q ∧ endpoint target q = endpoint target before ∧
      pathCertainty request q ≤ pathCertainty request before ∧ q.length ≤ before.length ∧
      PivotAfter q step

/-- Every reachable node has a path of least label that is not overtaken. -/
def NothingOvertaken : Prop :=
  ∀ id, id ≠ target.id → (∃ p, Reaches request context target p id) →
    ∃ p, Reaches request context target p id ∧
      (∀ q, Reaches request context target q id → label request p ≤ label request q) ∧
      ¬ Overtaken request context target p

variable {request context target}

theorem overtaken_iff_cut (ids : (context.edges.map Edge.id).Nodup) {p : List ImpactPathStep} :
    Overtaken request context target p ↔
      (impactSpace request context target).Cut PivotAfter request.options.maxDepth p := by
  simp only [Overtaken, Space.Cut, ← mem_kept_iff_preferred ids, Space.Covers, and_assoc]
  rfl

theorem exchange {p q : List ImpactPathStep} {step : ImpactPathStep} {d : Nat}
    (hp : (impactSpace request context target).IsPath (p ++ [step]))
    (hq : q ∈ (impactSpace request context target).kept d)
    (same : (impactSpace request context target).goal q =
      (impactSpace request context target).goal p) :
    step ∈ (impactSpace request context target).next q ∨
      (∃ q', q' <+: q ∧ (impactSpace request context target).goal q' =
        (impactSpace request context target).head step) ∨ PivotAfter q step := by
  have chained := (isPath_iff.mp (Space.isPath_of_mem_kept _ hq)).chained
  obtain ⟨source, propagates, realised, -, -, -⟩ := mem_next.mp ((Space.isPath_snoc _).mp hp).2
  by_cases pivot : PivotAfter q step
  · exact .inr (.inr pivot)
  by_cases back : step.toNode = target.id
  · exact .inr (.inl ⟨[], List.nil_prefix, back.symm⟩)
  by_cases seen : ∃ before ∈ q, before.toNode = step.toNode
  · obtain ⟨before, hb, visited⟩ := seen
    obtain ⟨front, rest, rfl⟩ := List.append_of_mem hb
    refine .inr (.inl ⟨front ++ [before], ⟨rest, by simp⟩, ?_⟩)
    rw [Space.goal_snoc]
    exact visited
  · refine .inl (mem_next.mpr ⟨source.trans same.symm, propagates, realised, pivot, back, ?_⟩)
    intro before hb
    refine ⟨fun h => ?_, fun h => seen ⟨before, hb, h⟩⟩
    rcases chained_fromNode chained before hb with first | ⟨other, ho, reached⟩
    · exact back (h.symm.trans first)
    · exact seen ⟨other, ho, reached.trans h⟩

/-- What a run without truncation reports: for each node the last path kept. -/
structure Reported (request : ImpactRequest) (context : ImpactContext) (target : Node)
    (items : List ImpactItem) : Prop where
  sound : ∀ item ∈ items, item.path ≠ [] ∧ item.depth = item.path.length ∧
    (impactSpace request context target).latest
      ((impactSpace request context target).kept request.options.maxDepth) item.node.id =
      some item.path
  complete : ∀ p ∈ (impactSpace request context target).kept request.options.maxDepth, p ≠ [] →
    ∃ item ∈ items, item.node.id = endpoint target p

theorem traverse_reported {nodes : NodeIndex} {result : Traversal}
    (valid : Valid request context nodes)
    (run : traverse request context nodes target = .ok result)
    (complete : result.truncation = none) :
    Reported request context target result.items := by
  obtain ⟨s, kept, items, truncated, ended⟩ :=
    traverse_ended valid.edgeIds run
  obtain ⟨queue, track⟩ := ended.tracks
  rw [ended.all (truncated ▸ complete)] at track
  rw [items]
  refine ⟨fun item hi => ?_, fun p hp nonempty => ?_⟩
  · obtain ⟨v, found⟩ := mem_values.mp hi
    obtain ⟨known, nonempty, depth, latest⟩ := track.items v item found
    rw [((valid.lookup _ _).mp known).2]
    exact ⟨nonempty, depth, latest⟩
  · have reported := track.reported p hp nonempty
    obtain ⟨item, found⟩ := Option.isSome_iff_exists.mp
      (Std.ExtTreeMap.mem_iff_isSome_getElem?.mp reported)
    exact ⟨item, mem_values.mpr ⟨_, found⟩,
      ((valid.lookup _ _).mp (track.items _ item found).1).2⟩

theorem reaches_of_mem_kept {p : List ImpactPathStep}
    (hp : p ∈ (impactSpace request context target).kept request.options.maxDepth) :
    Reaches request context target p (endpoint target p) :=
  ⟨isPath_iff.mp (Space.isPath_of_mem_kept _ hp), (Space.mem_level_of_mem_kept _ _ hp).1, rfl⟩

theorem exact_of_nothingOvertaken (ids : (context.edges.map Edge.id).Nodup)
    {items : List ImpactItem} (reported : Reported request context target items)
    (h : NothingOvertaken request context target) : Exact request context target items := by
  -- a node's least path is covered by a kept path, which then is the last one kept
  have selected : ∀ id, id ≠ target.id → (∃ p, Reaches request context target p id) →
      ∃ q, q ≠ [] ∧ (impactSpace request context target).latest
        ((impactSpace request context target).kept request.options.maxDepth) id = some q ∧
        Reaches request context target q id ∧
        ∀ p, Reaches request context target p id → label request q ≤ label request p := by
    intro id notTarget reachable
    obtain ⟨p, ⟨path, short, ends⟩, least, free⟩ := h id notTarget reachable
    rw [overtaken_iff_cut ids] at free
    obtain ⟨q, hq, cover, size⟩ := Space.covered_of_not_cut _
      (fun p q s hp hq same => exchange hp hq same) p (isPath_iff.mpr path) short free
    have goal : endpoint target q = id := cover.1.trans ends
    have reaches : Reaches request context target q id := goal ▸ reaches_of_mem_kept hq
    have below : label request q ≤ label request p := by
      rw [label, label, Prod.Lex.toLex_le_toLex]
      rcases cover.2.lt_or_eq with lt | same
      · exact .inl lt
      · exact .inr ⟨same, size⟩
    obtain ⟨r, latest, better⟩ := Space.latest_least _ (Space.improving_kept _ _) hq
    rw [show (impactSpace request context target).goal q = id from goal] at latest
    have same : r = q := by
      rcases better with same | lt
      · exact same
      · obtain ⟨hr, ends'⟩ := Space.latest_mem _ latest
        have reaches' : Reaches request context target r id := ends' ▸ reaches_of_mem_kept hr
        have := below.trans (least r reaches')
        rw [label, label, Prod.Lex.toLex_le_toLex] at this
        rcases this with lt' | ⟨same, -⟩
        · exact absurd lt' (lt_asymm lt)
        · exact absurd same lt.ne'
    refine ⟨q, ?_, same ▸ latest, reaches, fun p' hp' => below.trans (least p' hp')⟩
    rintro rfl
    exact notTarget (goal.symm.trans rfl)
  refine ⟨fun id => ⟨?_, ?_⟩, fun item hi => ?_⟩
  · rintro ⟨item, hi, rfl⟩
    obtain ⟨nonempty, -, latest⟩ := reported.sound item hi
    obtain ⟨mem, ends⟩ := Space.latest_mem _ latest
    have reaches := reaches_of_mem_kept mem
    have ends : endpoint target item.path = item.node.id := ends
    rw [ends] at reaches
    exact ⟨ends ▸ endpoint_ne_target reaches.1 nonempty, _, reaches⟩
  · rintro ⟨notTarget, reachable⟩
    obtain ⟨q, nonempty, latest, reaches, -⟩ := selected id notTarget reachable
    obtain ⟨item, hi, same⟩ := reported.complete q (Space.latest_mem _ latest).1 nonempty
    exact ⟨item, hi, same.trans reaches.2.2⟩
  · obtain ⟨nonempty, depth, latest⟩ := reported.sound item hi
    obtain ⟨mem, ends⟩ := Space.latest_mem _ latest
    have ends : endpoint target item.path = item.node.id := ends
    have reaches := ends ▸ reaches_of_mem_kept mem
    have notTarget := ends ▸ endpoint_ne_target reaches.1 nonempty
    obtain ⟨q, -, latest', reaches', least⟩ := selected _ notTarget ⟨_, reaches⟩
    obtain rfl : item.path = q := Option.some.inj (latest.symm.trans latest')
    rw [depth]
    exact ⟨⟨item.path, reaches, rfl⟩, fun l ⟨p, hp, hl⟩ => hl ▸ least p hp⟩

theorem nothingOvertaken_of_exact (ids : (context.edges.map Edge.id).Nodup)
    {items : List ImpactItem} (reported : Reported request context target items)
    (h : Exact request context target items) : NothingOvertaken request context target := by
  intro id notTarget reachable
  obtain ⟨item, hi, rfl⟩ := (h.1 id).mpr ⟨notTarget, reachable⟩
  obtain ⟨nonempty, depth, latest⟩ := reported.sound item hi
  obtain ⟨mem, ends⟩ := Space.latest_mem _ latest
  have ends : endpoint target item.path = item.node.id := ends
  refine ⟨item.path, ends ▸ reaches_of_mem_kept mem, fun q hq => ?_, ?_⟩
  · have least := (h.2 item hi).2 ⟨q, hq, rfl⟩
    rwa [depth] at least
  · rw [overtaken_iff_cut ids]
    exact Space.not_cut_of_mem_kept _ mem

/-- Propagation without truncation is exact if and only if nothing is overtaken. -/
theorem traverse_exact_iff (request : ImpactRequest) (context : ImpactContext) (nodes : NodeIndex)
    (target : Node) (result : Traversal)
    (valid : validateContext request context = .ok nodes)
    (run : traverse request context nodes target = .ok result)
    (complete : result.truncation = none) :
    Exact request context target result.items ↔ NothingOvertaken request context target := by
  have valid := validateContext_eq_ok.mp valid
  have reported := traverse_reported valid run complete
  exact ⟨nothingOvertaken_of_exact valid.edgeIds reported,
    exact_of_nothingOvertaken valid.edgeIds reported⟩

end Exactness

section Shadowed

def plainNode (id : NodeId) : Node := ⟨id, .service, none, id, id⟩

def plainEdge (id source target : String) (kind : EdgeKind) : Edge :=
  ⟨id, source, target, kind, .ofNat 1, .confirmed, []⟩

def shadowedContext : ImpactContext :=
  .ofGraph [plainNode "T", plainNode "N", plainNode "M"]
    [plainEdge "e1" "T" "N" .contains, plainEdge "e2" "T" "N" .consumes,
      plainEdge "e3" "M" "N" .contains]

def bothWays : ImpactRequest := ⟨.nodeId "T", .both, {}⟩

def shadowedPath : List ImpactPathStep :=
  [⟨"T", "N", "e2", .consumes, false, .ofNat 1, .confirmed⟩,
    ⟨"N", "M", "e3", .contains, true, .ofNat 1, .confirmed⟩]

theorem shadowedPath_reaches :
    Reaches bothWays shadowedContext (plainNode "T") shadowedPath "M" := by
  refine ⟨⟨⟨rfl, rfl, trivial⟩, ?_, by decide, ?_⟩, by decide, rfl⟩
  · simp [shadowedPath, shadowedContext, ImpactContext.ofGraph, plainEdge, Realises, bothWays, isPropagating]
  · simp [shadowedPath, Pivot]

theorem shadowed_run : ∃ nodes result,
    validateContext bothWays shadowedContext = .ok nodes ∧
    resolveTarget bothWays.target nodes = .ok ⟨plainNode "T", "node_id"⟩ ∧
    traverse bothWays shadowedContext nodes (plainNode "T") = .ok result ∧
    result.truncation = none ∧ result.items.map (·.node.id) = ["N"] := by
  have test : isOkAnd (validateContext bothWays shadowedContext) (fun nodes =>
      isOkAnd (resolveTarget bothWays.target nodes)
        (fun target => target = ⟨plainNode "T", "node_id"⟩) &&
      isOkAnd (traverse bothWays shadowedContext nodes (plainNode "T"))
        (fun result => result.truncation = none ∧ result.items.map (·.node.id) = ["N"])) = true := by
    decide +kernel
  obtain ⟨nodes, valid, passed⟩ := isOkAnd_iff.mp test
  obtain ⟨resolved, ran⟩ := Bool.and_eq_true_iff.mp passed
  obtain ⟨target, resolved, same⟩ := isOkAnd_iff.mp resolved
  obtain ⟨result, run, checks⟩ := isOkAnd_iff.mp ran
  obtain rfl := of_decide_eq_true same
  obtain ⟨complete, items⟩ := of_decide_eq_true checks
  exact ⟨nodes, result, valid, resolved, run, complete, items⟩

theorem traverse_not_exact : ∃ nodes target result,
    validateContext bothWays shadowedContext = .ok nodes ∧
    resolveTarget bothWays.target nodes = .ok target ∧
    traverse bothWays shadowedContext nodes target.node = .ok result ∧
    result.truncation = none ∧
    ¬ Exact bothWays shadowedContext target.node result.items := by
  obtain ⟨nodes, result, valid, resolved, run, complete, items⟩ := shadowed_run
  refine ⟨nodes, _, result, valid, resolved, run, complete, fun exact => ?_⟩
  obtain ⟨item, hi, same⟩ := (exact.1 "M").mpr ⟨by decide, shadowedPath, shadowedPath_reaches⟩
  have listed : item.node.id ∈ result.items.map (·.node.id) := List.mem_map.mpr ⟨item, hi, rfl⟩
  rw [items, same] at listed
  exact absurd listed (by decide)

theorem traverse_exact_iff_shadowed : ∃ nodes result,
    validateContext bothWays shadowedContext = .ok nodes ∧
    traverse bothWays shadowedContext nodes (plainNode "T") = .ok result ∧
    result.truncation = none ∧
    (Exact bothWays shadowedContext (plainNode "T") result.items ↔
      NothingOvertaken bothWays shadowedContext (plainNode "T")) := by
  obtain ⟨nodes, result, valid, -, run, complete, -⟩ := shadowed_run
  exact ⟨nodes, result, valid, run, complete,
    traverse_exact_iff bothWays shadowedContext nodes (plainNode "T") result valid run complete⟩

end Shadowed

end CodeSystemGraph.Impact
