import CodeSystemGraph.ImpactRisk

/-! A numeric risk is never a false-safe one. The loop counters `possible_edges`
and `unknown_edges` stay zero only while every label is confirmed; the gap list
and the flag `sufficient_for_score` agree condition by condition; and a score is
given exactly under that flag. A valid context never makes the analysis fail
after its target is resolved. -/

namespace CodeSystemGraph.Impact
open Ieee Model Ordered Iterate

section Calm

variable {request : ImpactRequest} {context : ImpactContext} {nodes : NodeIndex} {target : Node}

def Search.Calm (s : Search) : Prop := s.possibleEdges = 0 ∧ s.unknownEdges = 0

def IsConfirmed (classification : ImpactClassification) : Prop :=
  classification = .directlyDependent ∨ classification = .transitivelyAffected

structure Search.Confirmed (s : Search) : Prop where
  queue : ∀ state ∈ s.queue, state.certainty = .confirmed
  items : ∀ (v : NodeId) (item : ImpactItem), s.items[v]? = some item →
    IsConfirmed item.classification

theorem calm_counted {s : Search} {entry : Adjacency} (h : (counted request s entry).Calm) :
    s.Calm ∧ edgeCertainty entry.edge request.options.confirmedConfidence = .confirmed := by
  unfold counted at h
  cases certainty : edgeCertainty entry.edge request.options.confirmedConfidence with
  | confirmed =>
    rw [certainty] at h
    exact ⟨h, rfl⟩
  | possible =>
    rw [certainty] at h
    exact absurd h.1 (Nat.succ_ne_zero _)
  | unknown =>
    rw [certainty] at h
    exact absurd h.2 (Nat.succ_ne_zero _)

theorem classify_confirmed (depth : Nat) : IsConfirmed (classify .confirmed depth) := by
  unfold classify
  split <;> simp_all [IsConfirmed]

theorem confirmed_of_eq {s s' : Search} (h : s.Confirmed) (queue : s'.queue = s.queue)
    (items : s'.items = s.items) : s'.Confirmed :=
  ⟨by rw [queue]; exact h.queue, by rw [items]; exact h.items⟩

theorem confirmed_record {s : Search} {state : TraversalState} {entry : Adjacency} {node : Node}
    (h : s.Confirmed) (strong : state.certainty = .confirmed)
    (edge : edgeCertainty entry.edge request.options.confirmedConfidence = .confirmed) :
    ((counted request s entry).record (reach request state entry) node).Confirmed := by
  have certainty : (reach request state entry).certainty = .confirmed := by
    simp [reach, TraversalState.follow, strong, edge]
  constructor
  · intro next hn
    rcases List.mem_append.mp hn with hn | hn
    · exact h.queue next (by simpa using hn)
    · obtain rfl := List.mem_singleton.mp hn
      exact certainty
  · intro v item found
    simp only [Search.record, counted_items, Std.ExtTreeMap.getElem?_insert] at found
    split at found
    · obtain rfl := Option.some.inj found
      simp only [certainty]
      exact classify_confirmed _
    · exact h.items v item found

/-- The assertion of the inner loop, with the popped state. -/
def Confirming (state : TraversalState) (s : Search) : Prop :=
  s.Calm → state.certainty = .confirmed ∧ s.Confirmed

theorem confirming_visited {state : TraversalState} {entry : Adjacency} {s s' : Search}
    {t : Turn Search Search} (h : Confirming state s)
    (visit : Visited request nodes target state entry s t) (ht : t = .again s' ∨ t = .leave s') :
    Confirming state s' := by
  intro calm
  cases visit with
  | skipped _ =>
    obtain rfl : s = s' := by simpa using ht
    exact h calm
  | edgeLimit info =>
    obtain rfl : s.examine.truncate info = s' := by simpa using ht
    exact ⟨(h calm).1, confirmed_of_eq (h calm).2 rfl rfl⟩
  | revisited _ _ =>
    obtain rfl : s.examine = s' := by simpa using ht
    exact ⟨(h calm).1, confirmed_of_eq (h calm).2 rfl rfl⟩
  | covered _ _ _ =>
    obtain rfl : counted request s entry = s' := by simpa using ht
    have before := h (calm_counted calm).1
    exact ⟨before.1, confirmed_of_eq before.2 (by simp) (by simp)⟩
  | nodeLimit info =>
    obtain rfl : (counted request s entry).truncate info = s' := by simpa using ht
    have before := h (calm_counted calm).1
    exact ⟨before.1, confirmed_of_eq before.2 (counted_queue s entry)
      (show (counted request s entry).items = s.items by simp)⟩
  | admitted _ _ _ node _ =>
    obtain rfl : (counted request s entry).record (reach request state entry) node = s' := by
      simpa using ht
    have counters : (counted request s entry).Calm := calm
    obtain ⟨calm, edge⟩ := calm_counted counters
    have before := h calm
    exact ⟨before.1, confirmed_record before.2 before.1 edge⟩

theorem confirming_entries {state : TraversalState} {entries : List Adjacency} {s s' : Search}
    (h : Confirming state s)
    (visit : visitEntries request nodes target state s entries = .ok s') : Confirming state s' :=
  visitEntries_rule (Confirming state) (fun _ _ _ hs visited => confirming_visited hs visited (.inl rfl))
    (fun _ _ _ hs visited => confirming_visited hs visited (.inr rfl)) entries s s' h visit

theorem confirming_pop {s : Search} {state : TraversalState} {queue : List TraversalState}
    (popped : s.queue = state :: queue) (h : s.Calm → s.Confirmed) :
    Confirming state { s with queue := queue } := by
  intro calm
  have confirmed := h calm
  exact ⟨confirmed.queue state (popped ▸ List.mem_cons_self),
    fun st hst => confirmed.queue st (popped ▸ List.mem_cons_of_mem _ hst), confirmed.items⟩

theorem confirmed_turn (s s' : Search) (h : s.Calm → s.Confirmed)
    (step : turn request context nodes target s = .again s') : s'.Calm → s'.Confirmed := by
  intro calm
  cases step ▸ @turn_turned request context nodes target s with
  | beyond state queue popped deep info =>
    exact confirmed_of_eq (confirming_pop popped h calm).2 rfl rfl
  | bottom state queue popped deep done => exact (confirming_pop popped h calm).2
  | expanded state queue popped shallow _ visit =>
    exact (confirming_entries (confirming_pop popped h) visit calm).2

theorem traverse_confirmed {traversal : Traversal}
    (run : traverse request context nodes target = .ok traversal)
    (possible : traversal.possibleEdges = 0) (unknown : traversal.unknownEdges = 0) :
    ∀ item ∈ traversal.items, IsConfirmed item.classification := by
  unfold traverse at run
  split at run
  · cases run
  · next s ended =>
    obtain rfl := Except.ok.inj run
    have confirmed := loop_rule (@turn_terminates request context nodes target)
      (fun s => s.Calm → s.Confirmed) (fun r => ∀ s, r = .ok s → s.Calm → s.Confirmed)
      confirmed_turn ?_ (start target) (start_depthBounded request target)
      (fun _ => ⟨by simp [start], by simp [start]⟩)
    · intro item hi
      obtain ⟨v, found⟩ := mem_values.mp hi
      exact (confirmed s ended ⟨possible, unknown⟩).items v item found
    · intro s₀ r h left s₁ hr calm
      subst hr
      cases left ▸ @turn_turned request context nodes target s₀ with
      | finished empty => exact h calm
      | stopped state queue popped _ visit bound =>
        exact (confirming_entries (confirming_pop popped h) visit calm).2

end Calm

section Total

variable {request : ImpactRequest} {context : ImpactContext} {nodes : NodeIndex}

theorem neighborsOf_known (valid : Valid request context nodes) {node : NodeId}
    {entry : Adjacency} (h : entry ∈ neighborsOf request context node) :
    entry.neighbor ∈ nodes := by
  rw [neighborsOf_eq, mem_sortBy, List.mem_flatMap] at h
  obtain ⟨edge, he, h⟩ := h
  obtain ⟨-, source, target⟩ := valid.edges edge he
  unfold entriesAt at h
  rcases List.mem_append.mp h with h | h <;> split at h <;> simp_all

theorem visitEntries_total {target : Node} {state : TraversalState} {entries : List Adjacency}
    (known : ∀ entry ∈ entries, entry.neighbor ∈ nodes) :
    ∀ s, ∃ s', visitEntries request nodes target state s entries = .ok s' := by
  induction entries with
  | nil => intro s; exact ⟨s, rfl⟩
  | cons entry rest ih =>
    intro s
    obtain ⟨t, visit⟩ : ∃ t, visitEntry request nodes target state entry s = .ok t := by
      obtain ⟨node, found⟩ := Option.isSome_iff_exists.mp
        (Std.ExtTreeMap.mem_iff_isSome_getElem?.mp (known entry List.mem_cons_self))
      unfold visitEntry
      rw [found]
      split
      · exact ⟨_, rfl⟩
      · split
        · exact ⟨_, rfl⟩
        · split
          · exact ⟨_, rfl⟩
          · split
            · exact ⟨_, rfl⟩
            · split
              · exact ⟨_, rfl⟩
              · exact ⟨_, rfl⟩
    unfold visitEntries
    rw [visit]
    cases t with
    | leave s' => exact ⟨s', rfl⟩
    | again s' => exact ih (fun e he => known e (List.mem_cons_of_mem _ he)) s'

theorem traverse_total (valid : Valid request context nodes) (target : Node) :
    ∃ traversal, traverse request context nodes target = .ok traversal := by
  have ended := loop_rule (@turn_terminates request context nodes target) (fun _ => True)
    (fun r => ∃ s, r = .ok s) (fun _ _ _ _ => trivial) ?_ (start target)
    (start_depthBounded request target) trivial
  · obtain ⟨s, hs⟩ := ended
    unfold traverse
    rw [hs]
    exact ⟨_, rfl⟩
  · intro s r _ left
    cases left ▸ @turn_turned request context nodes target s with
    | finished _ => exact ⟨_, rfl⟩
    | stopped _ _ _ s' _ _ => exact ⟨s', rfl⟩
    | failed state queue popped e visit =>
      obtain ⟨s', ok⟩ := visitEntries_total (fun entry he => neighborsOf_known valid he) _
      rw [ok] at visit
      cases visit

end Total

section Coverage

variable (target : Node) (items : List ImpactItem) (context : ImpactContext)
  (truncation : Option TruncationInfo) (possibleEdges unknownEdges : Nat)

/-- The eleven conditions of sufficient coverage. -/
structure Covered : Prop where
  caller : context.coverageGaps = []
  graph : context.graphComplete = true
  stale : repositoriesIn target items context .stale = []
  partialInputs : repositoriesIn target items context .partialInputs = []
  unavailable : repositoriesIn target items context .unavailable = []
  missing : repositoriesIn target items context .missing = []
  possible : possibleEdges = 0
  unknown : unknownEdges = 0
  compatibility : unknownCompatibility target items context = []
  enrichment : ∀ input ∈ context.localEnrichment, input.status = .available ∧ input.truncated = false
  complete : truncation = none

@[simp] theorem gapWhen_gap {condition : Bool} {gap remediation : String} :
    (gapWhen condition gap remediation).1 = [] ↔ condition = false := by
  cases condition <;> simp [gapWhen]

theorem degradedLocals_eq_nil : degradedLocals context = [] ↔
    ∀ input ∈ context.localEnrichment, input.status = .available ∧ input.truncated = false := by
  simp [degradedLocals]

theorem gaps_eq_nil_iff :
    (coverageSummary target items context truncation possibleEdges unknownEdges).gaps = [] ↔
      Covered target items context truncation possibleEdges unknownEdges := by
  simp only [coverageSummary, sortedUnique_eq_nil, coverageEntries, List.flatMap_eq_nil_iff,
    List.forall_mem_cons, gapWhen_gap, List.map_eq_nil_iff, degradedLocals_eq_nil,
    Bool.not_eq_false', List.isEmpty_iff, decide_eq_false_iff_not, not_lt, Nat.le_zero,
    Option.isSome_eq_false_iff, Option.isNone_iff_eq_none, List.not_mem_nil, false_imp_iff,
    implies_true, and_true]
  constructor
  · rintro ⟨caller, graph, stale, partials, unavailable, missing, possible, unknown, compatibility,
      enrichment, complete⟩
    exact ⟨caller, graph, stale, partials, unavailable, missing, possible, unknown, compatibility,
      enrichment, complete⟩
  · intro h
    exact ⟨h.caller, h.graph, h.stale, h.partialInputs, h.unavailable, h.missing, h.possible,
      h.unknown, h.compatibility, h.enrichment, h.complete⟩

theorem sufficientForScore_iff :
    (coverageSummary target items context truncation possibleEdges
        unknownEdges).sufficientForScore = true ↔
      Covered target items context truncation possibleEdges unknownEdges := by
  simp only [coverageSummary, Bool.and_eq_true, List.isEmpty_iff, beq_iff_eq,
    Option.isNone_iff_eq_none, List.all_eq_true, Bool.not_eq_true']
  constructor
  · rintro ⟨⟨⟨⟨⟨⟨⟨⟨⟨⟨graph, stale⟩, partials⟩, unavailable⟩, missing⟩, possible⟩, unknown⟩,
      compatibility⟩, complete⟩, enrichment⟩, caller⟩
    exact ⟨caller, graph, stale, partials, unavailable, missing, possible, unknown, compatibility,
      enrichment, complete⟩
  · intro h
    exact ⟨⟨⟨⟨⟨⟨⟨⟨⟨⟨h.graph, h.stale⟩, h.partialInputs⟩, h.unavailable⟩, h.missing⟩, h.possible⟩,
      h.unknown⟩, h.compatibility⟩, h.complete⟩, h.enrichment⟩, h.caller⟩

variable {target items context truncation possibleEdges unknownEdges}

theorem freshnessIndex_record {repoId : RepoId} {state : RepoFreshnessState}
    (h : (freshnessIndex context)[repoId]? = some state) :
    ∃ record ∈ context.freshness, record.repoId = repoId ∧ record.state = state := by
  have general : ∀ (records : List RepoFreshness) (index : BTreeMap RepoId RepoFreshnessState),
      (records.foldl (fun index record => index.insert record.repoId record.state) index)[repoId]? =
        some state → index[repoId]? = some state ∨
        ∃ record ∈ records, record.repoId = repoId ∧ record.state = state := by
    intro records
    induction records with
    | nil => intro index h; exact .inl h
    | cons record rest ih =>
      intro index h
      rcases ih _ h with found | ⟨r, hr, same⟩
      · rw [Std.ExtTreeMap.getElem?_insert] at found
        split at found
        · next eq =>
          exact .inr ⟨record, List.mem_cons_self, by simpa using eq, Option.some.inj found⟩
        · exact .inl found
      · exact .inr ⟨r, List.mem_cons_of_mem _ hr, same⟩
  rcases general _ _ h with found | found
  · simp at found
  · exact found

theorem Covered.fresh (h : Covered target items context truncation possibleEdges unknownEdges)
    {repoId : RepoId} (relevant : repoId ∈ relevantRepositories target items) :
    ∃ record ∈ context.freshness, record.repoId = repoId ∧ record.state = .fresh := by
  have listed : repoId ∈ repositoriesIn target items context
      (freshnessGroup (freshnessIndex context)[repoId]?) :=
    List.mem_filter.mpr ⟨Std.ExtTreeSet.mem_toList.mpr relevant, by simp⟩
  cases state : (freshnessIndex context)[repoId]? with
  | none => simp [state, freshnessGroup, h.missing] at listed
  | some state' =>
    rw [state] at listed
    cases state' with
    | fresh => exact freshnessIndex_record state
    | _ => simp [freshnessGroup, h.stale, h.partialInputs, h.unavailable, h.missing] at listed

theorem mem_relevantRepositories {repoId : RepoId} :
    repoId ∈ relevantRepositories target items ↔
      (∃ item ∈ items, item.node.repoId = some repoId) ∨ target.repoId = some repoId := by
  simp [relevantRepositories, Std.ExtTreeSet.mem_insertMany_list, Option.mem_toList]

end Coverage

theorem assessRisk_score {target : Node} {items : List ImpactItem}
    {repositories : List RepositoryImpact} {services : List ServiceImpact}
    {contracts : List ContractImpact} {communities : List CommunityImpact}
    {tests : List TestRecommendation} {context : ImpactContext} {coverage : CoverageSummary}
    {truncation : Option TruncationInfo} :
    let assessed := assessRisk target items repositories services contracts communities tests
      context coverage truncation
    (assessed.2.1.isSome = true ↔ coverage.sufficientForScore = true) ∧
      (assessed.1 ≠ .unknown ↔ coverage.sufficientForScore = true) := by
  unfold assessRisk
  cases sufficient : coverage.sufficientForScore with
  | false => simp
  | true =>
    simp only [Bool.not_true, Bool.false_eq_true, if_false, Option.isSome_some, true_and, iff_true]
    split
    · simp
    · split
      · simp
      · split <;> simp

/-- A score is given exactly when there is no gap, and then nothing that could
hide an impact was met. -/
theorem numericRisk_not_false_safe (request : ImpactRequest) (context : ImpactContext)
    (nodes : NodeIndex) (target : ResolvedTarget)
    (valid : validateContext request context = .ok nodes)
    (resolved : resolveTarget request.target nodes = .ok target) :
    ∃ traversal report, traverse request context nodes target.node = .ok traversal ∧
      analyzeImpact request context = .ok report ∧
      (report.riskScore.isSome = true ↔ report.coverage.gaps = []) ∧
      (report.coverage.gaps = [] ↔ report.risk ≠ .unknown) ∧
      (report.riskScore.isSome = true →
        report.truncation = none ∧
        (∀ item ∈ traversal.items, item.classification = .directlyDependent ∨
          item.classification = .transitivelyAffected) ∧
        (∀ repoId, ((∃ item ∈ traversal.items, item.node.repoId = some repoId) ∨
            target.node.repoId = some repoId) →
          ∃ record ∈ context.freshness, record.repoId = repoId ∧ record.state = .fresh) ∧
        (∀ input ∈ context.compatibility,
          ((∃ item ∈ traversal.items, item.node.id = input.contractNodeId) ∨
            input.contractNodeId = target.node.id) → input.status ≠ .unknown) ∧
        ∀ input ∈ context.localEnrichment,
          input.status = .available ∧ input.truncated = false) := by
  obtain ⟨traversal, run⟩ := traverse_total (validateContext_eq_ok.mp valid) target.node
  refine ⟨traversal, buildReport request context nodes target traversal, run, ?_, ?_⟩
  · simp only [analyzeImpact, bind_eq_ok, pure_eq_ok]
    exact ⟨nodes, valid, target, resolved, traversal, run, rfl⟩
  · have gaps := gaps_eq_nil_iff target.node (sortItems traversal.items) context
      traversal.truncation traversal.possibleEdges traversal.unknownEdges
    have sufficient := sufficientForScore_iff target.node (sortItems traversal.items) context
      traversal.truncation traversal.possibleEdges traversal.unknownEdges
    have score : (buildReport request context nodes target traversal).riskScore.isSome = true ↔ _ :=
      assessRisk_score.1
    have level : (buildReport request context nodes target traversal).risk ≠ .unknown ↔ _ :=
      assessRisk_score.2
    refine ⟨score.trans (sufficient.trans gaps.symm), gaps.trans (sufficient.symm.trans level.symm),
      fun scored => ?_⟩
    have covered := sufficient.mp (score.mp scored)
    refine ⟨covered.complete, traverse_confirmed run covered.possible covered.unknown,
      fun repoId relevant => covered.fresh (mem_relevantRepositories.mpr ?_), fun input hi on => ?_,
      covered.enrichment⟩
    · simpa [sortItems] using relevant
    · intro unknown
      have listed : input ∈ unknownCompatibility target.node (sortItems traversal.items) context := by
        refine List.mem_filter.mpr ⟨hi, ?_⟩
        simpa [impactedIds, sortItems, unknown] using on
      rw [covered.compatibility] at listed
      cases listed

def freshContext : ImpactContext :=
  { ImpactContext.ofGraph [⟨"T", .service, some "r", "T", "T"⟩, ⟨"N", .service, some "r", "N", "N"⟩]
      [⟨"e", "T", "N", .consumes, .ofNat 1, .confirmed, []⟩] with
    freshness := [⟨"r", "c", none, "", .fresh, none⟩] }

theorem numericRisk_freshContext : ∃ nodes target report,
    validateContext ⟨.nodeId "T", .both, {}⟩ freshContext = .ok nodes ∧
    resolveTarget (.nodeId "T") nodes = .ok target ∧
    analyzeImpact ⟨.nodeId "T", .both, {}⟩ freshContext = .ok report ∧
    report.riskScore.isSome = true ∧ report.coverage.gaps = [] ∧ report.risk ≠ .unknown := by
  have test : isOkAnd (validateContext ⟨.nodeId "T", .both, {}⟩ freshContext) (fun nodes =>
      isOkAnd (resolveTarget (.nodeId "T") nodes) fun target =>
        isOkAnd (analyzeImpact ⟨.nodeId "T", .both, {}⟩ freshContext)
          fun report => report.riskScore.isSome) = true := by
    decide +kernel
  obtain ⟨nodes, valid, test⟩ := isOkAnd_iff.mp test
  obtain ⟨target, resolved, test⟩ := isOkAnd_iff.mp test
  obtain ⟨report, analyzed, scored⟩ := isOkAnd_iff.mp test
  obtain ⟨-, report', -, analyzed', score, level, -⟩ :=
    numericRisk_not_false_safe _ freshContext nodes target valid resolved
  obtain rfl : report = report' := Except.ok.inj (analyzed.symm.trans analyzed')
  exact ⟨nodes, target, report, valid, resolved, analyzed, scored, score.mp scored,
    level.mp (score.mp scored)⟩

end CodeSystemGraph.Impact
