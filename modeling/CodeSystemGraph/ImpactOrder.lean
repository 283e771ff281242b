import CodeSystemGraph.ImpactShown

/-! The order of the input graph. Nodes and edges are looked up, collected into
sets or sorted by keys that tell them apart, with one exception: test
recommendations are sorted and de-duplicated by a key that leaves out their
reasons and owners, so that of two recommendations for one test the one whose
edge comes first survives. The report is independent of the order of nodes and
edges exactly when such recommendations agree. -/

namespace CodeSystemGraph.Impact
open Ieee Model Ordered Iterate

section Reordered

variable {request : ImpactRequest} {context : ImpactContext} {nodes : NodeIndex}
variable {someNodes : List Node} {someEdges : List Edge}

def reordered (context : ImpactContext) (nodes : List Node) (edges : List Edge) : ImpactContext :=
  { context with nodes := nodes, edges := edges }

@[simp] theorem reordered_edges : (reordered context someNodes someEdges).edges = someEdges := rfl

theorem Valid.reordered (valid : Valid request context nodes)
    (sameNodes : someNodes.Perm context.nodes) (sameEdges : someEdges.Perm context.edges) :
    Valid request (reordered context someNodes someEdges) nodes where
  bounds := valid.bounds
  confirmed := valid.confirmed
  nodeIds := (sameNodes.map Node.id).nodup_iff.mpr valid.nodeIds
  lookup id node := by
    rw [valid.lookup]
    exact and_congr_left' sameNodes.mem_iff.symm
  edgeIds := (sameEdges.map Edge.id).nodup_iff.mpr valid.edgeIds
  edges edge he := valid.edges edge (sameEdges.mem_iff.mp he)
  freshness := valid.freshness
  references := valid.references

theorem neighborsOf_reordered (ids : (context.edges.map Edge.id).Nodup)
    (same : someEdges.Perm context.edges) (node : NodeId) :
    neighborsOf request (reordered context someNodes someEdges) node =
      neighborsOf request context node := by
  rw [neighborsOf_eq, neighborsOf_eq]
  refine (sortBy_congr Adjacency.key ?_ (entriesAt_keys_nodup _ _ ids)).symm
  exact (same.flatMap_right _).symm

theorem traverse_reordered (ids : (context.edges.map Edge.id).Nodup)
    (same : someEdges.Perm context.edges) (target : Node) :
    traverse request (reordered context someNodes someEdges) nodes target =
      traverse request context nodes target := by
  have body : turn request (reordered context someNodes someEdges) nodes target =
      turn request context nodes target := by
    funext s
    unfold turn
    simp only [neighborsOf_reordered ids same]
  have size : remaining request (reordered context someNodes someEdges) (start target) =
      remaining request context (start target) := by
    simp only [remaining, reordered, same.length_eq]
  unfold traverse
  rw [loop_congr _ (@turn_terminates request context nodes target) body _ _
    (start_depthBounded request target) size]

end Reordered

section Tests

variable {items : List ImpactItem} {context : ImpactContext} {nodes : NodeIndex}
variable {someNodes : List Node} {someEdges : List Edge}

theorem ownersFor_reordered (same : someEdges.Perm context.edges) (testId validatedId : NodeId) :
    ownersFor (reordered context someNodes someEdges) nodes testId validatedId =
      ownersFor context nodes testId validatedId := by
  unfold ownersFor ownerIds
  rw [reordered_edges, ofList_congr ((same.filter _).map _)]

theorem ownerCount_reordered (same : someEdges.Perm context.edges) (impacted : BTreeSet NodeId) :
    ownerCount impacted (reordered context someNodes someEdges) = ownerCount impacted context := by
  unfold ownerCount
  rw [reordered_edges, ofList_congr ((same.filter _).map _)]

theorem recommendationFor_reordered (same : someEdges.Perm context.edges) (edge : Edge) :
    recommendationFor items (reordered context someNodes someEdges) nodes edge =
      recommendationFor items context nodes edge := by
  unfold recommendationFor
  simp only [ownersFor_reordered same]
  rfl

/-- Recommendations as the loops push them, before sorting. -/
def pushed (items : List ImpactItem) (context : ImpactContext) (nodes : NodeIndex)
    (edges : List Edge) : List TestRecommendation :=
  edges.filterMap (recommendationFor items context nodes) ++ localRecommendations context

theorem recommendTests_reordered (same : someEdges.Perm context.edges) :
    recommendTests items (reordered context someNodes someEdges) nodes =
      rankFrom 0 (dedupBy sameTest (sortBy testKey (pushed items context nodes someEdges))) := by
  unfold recommendTests pushed
  have each : recommendationFor items (reordered context someNodes someEdges) nodes =
      recommendationFor items context nodes := funext (recommendationFor_reordered same)
  rw [each]
  rfl

theorem optionKey_injective : Function.Injective optionKey := by
  intro a b h
  have parts := Prod.mk.inj (toLex.injective h)
  cases a with
  | none => cases b with
    | none => rfl
    | some b => simp at parts
  | some a => cases b with
    | none => simp at parts
    | some b => simpa using parts.2

/-- What every pushed recommendation looks like. -/
structure Unranked (recommendation : TestRecommendation) : Prop where
  rank : recommendation.rank = 0
  source : recommendation.source =
    if recommendation.testNodeId.isSome then .graph else .localEnrichment

theorem recommendationFor_eq_some {edge : Edge} {recommendation : TestRecommendation} :
    recommendationFor items context nodes edge = some recommendation ↔
      ∃ testId validatedId item test, validation nodes edge = some (testId, validatedId) ∧
        (impactedIndex items)[validatedId]? = some item ∧ nodes[testId]? = some test ∧
        recommendation =
          { testNodeId := some test.id
            test := test.label
            repoId := test.repoId
            source := .graph
            rank := 0
            reasons := [validationReason item]
            owners := ownersFor context nodes test.id validatedId
            recommendedCommands := commandsFor context test.repoId } := by
  simp only [recommendationFor, Option.bind_eq_some_iff, Option.map_eq_some_iff, Prod.exists]
  constructor
  · rintro ⟨testId, validatedId, found, item, hit, test, known, rfl⟩
    exact ⟨testId, validatedId, item, test, found, hit, known, rfl⟩
  · rintro ⟨testId, validatedId, item, test, found, hit, known, rfl⟩
    exact ⟨testId, validatedId, found, item, hit, test, known, rfl⟩

theorem pushed_unranked {edges : List Edge} :
    ∀ recommendation ∈ pushed items context nodes edges, Unranked recommendation := by
  intro recommendation h
  rcases List.mem_append.mp h with h | h
  · obtain ⟨edge, -, made⟩ := List.mem_filterMap.mp h
    obtain ⟨-, -, -, -, -, -, -, rfl⟩ := recommendationFor_eq_some.mp made
    exact ⟨rfl, rfl⟩
  · obtain ⟨input, -, h⟩ := List.mem_flatMap.mp h
    obtain ⟨test, -, rfl⟩ := List.mem_map.mp h
    exact ⟨rfl, rfl⟩

theorem sameTest_iff {left right : TestRecommendation} (hl : Unranked left) (hr : Unranked right) :
    sameTest left right = true ↔ testKey left = testKey right := by
  simp only [sameTest, Bool.and_eq_true, beq_iff_eq, testKey, toLex.injective.eq_iff,
    Prod.mk.injEq, optionKey_injective.eq_iff]
  constructor
  · rintro ⟨⟨node, repo⟩, test⟩
    exact ⟨by rw [hl.source, hr.source, node], repo, test, node⟩
  · rintro ⟨-, repo, test, node⟩
    exact ⟨⟨node, repo⟩, test⟩

theorem rankFrom_forget {recommendations : List TestRecommendation}
    (unranked : ∀ r ∈ recommendations, Unranked r) : ∀ index,
    (rankFrom index recommendations).map (fun r => { r with rank := 0 }) = recommendations := by
  induction recommendations with
  | nil => intro index; rfl
  | cons r rest ih =>
    intro index
    rw [rankFrom, List.map_cons, ih fun r hr => unranked r (List.mem_cons_of_mem _ hr)]
    have zero := (unranked r List.mem_cons_self).rank
    obtain ⟨node, test, repo, source, rank, reasons, owners, commands⟩ := r
    obtain rfl : rank = 0 := zero
    rfl

end Tests

section Report

variable {request : ImpactRequest} {context : ImpactContext} {nodes : NodeIndex}
variable {someNodes : List Node} {someEdges : List Edge}

theorem assessRisk_reordered (same : someEdges.Perm context.edges) {target : Node}
    {items : List ImpactItem} {repositories : List RepositoryImpact}
    {services : List ServiceImpact} {contracts : List ContractImpact}
    {communities : List CommunityImpact} {tests : List TestRecommendation}
    {coverage : CoverageSummary} {truncation : Option TruncationInfo} :
    assessRisk target items repositories services contracts communities tests
        (reordered context someNodes someEdges) coverage truncation =
      assessRisk target items repositories services contracts communities tests context coverage
        truncation := by
  have factors : riskFactors target items repositories services contracts communities tests
        (reordered context someNodes someEdges) coverage truncation =
      riskFactors target items repositories services contracts communities tests context coverage
        truncation := by
    unfold riskFactors validationFactors
    rw [ownerCount_reordered same]
    rfl
  unfold assessRisk
  rw [factors]

theorem buildReport_reordered (same : someEdges.Perm context.edges) (target : ResolvedTarget)
    (traversal : Traversal) :
    buildReport request (reordered context someNodes someEdges) nodes target traversal =
        buildReport request context nodes target traversal ↔
      recommendTests (sortItems traversal.items) (reordered context someNodes someEdges) nodes =
        recommendTests (sortItems traversal.items) context nodes := by
  constructor
  · intro h
    exact congrArg ImpactReport.testRecommendations h
  · intro tests
    simp only [buildReport, tests, assessRisk_reordered same]
    rfl

theorem validation_test {edge : Edge} {testId validatedId : NodeId}
    (h : validation nodes edge = some (testId, validatedId)) :
    ∃ test, nodes[testId]? = some test := by
  have known : ∀ id, isTestCase nodes id = true → ∃ test, nodes[id]? = some test := by
    intro id hid
    unfold isTestCase at hid
    cases found : nodes[id]? with
    | none => simp [found] at hid
    | some test => exact ⟨test, rfl⟩
  unfold validation at h
  split at h
  · cases h
  · split at h
    · next source =>
      obtain ⟨rfl, -⟩ := Prod.mk.inj (Option.some.inj h)
      exact known _ source
    · split at h
      · next target =>
        obtain ⟨rfl, -⟩ := Prod.mk.inj (Option.some.inj h)
        exact known _ target
      · cases h

theorem testsAgree_iff {items : List ImpactItem}
    (ids : ∀ (id : NodeId) (node : Node), nodes[id]? = some node → node.id = id) :
    TestsAgree items context nodes ↔
      ∀ e₁ ∈ context.edges, ∀ e₂ ∈ context.edges, ∀ r₁ r₂,
        recommendationFor items context nodes e₁ = some r₁ →
        recommendationFor items context nodes e₂ = some r₂ → testKey r₁ = testKey r₂ → r₁ = r₂ := by
  constructor
  · intro agree e₁ he₁ e₂ he₂ r₁ r₂ made₁ made₂ same
    obtain ⟨t₁, v₁, i₁, test₁, valid₁, hit₁, known₁, rfl⟩ := recommendationFor_eq_some.mp made₁
    obtain ⟨t₂, v₂, i₂, test₂, valid₂, hit₂, known₂, rfl⟩ := recommendationFor_eq_some.mp made₂
    have node : some test₁.id = some test₂.id := by
      simp only [testKey, toLex.injective.eq_iff, Prod.mk.injEq, optionKey_injective.eq_iff] at same
      exact same.2.2.2
    rw [ids _ _ known₁, ids _ _ known₂] at node
    obtain rfl := Option.some.inj node
    obtain rfl : test₁ = test₂ := Option.some.inj (known₁.symm.trans known₂)
    obtain ⟨reason, owners⟩ := agree e₁ he₁ e₂ he₂ _ _ _ _ _ valid₁ valid₂ hit₁ hit₂
    rw [reason, ids _ _ known₁, owners]
  · intro agree e₁ he₁ e₂ he₂ testId v₁ v₂ i₁ i₂ valid₁ valid₂ hit₁ hit₂
    obtain ⟨test, known⟩ := validation_test valid₁
    have made₁ := (@recommendationFor_eq_some items context nodes e₁ _).mpr
      ⟨testId, v₁, i₁, test, valid₁, hit₁, known, rfl⟩
    have made₂ := (@recommendationFor_eq_some items context nodes e₂ _).mpr
      ⟨testId, v₂, i₂, test, valid₂, hit₂, known, rfl⟩
    have equal := agree e₁ he₁ e₂ he₂ _ _ made₁ made₂ rfl
    rw [ids _ _ known] at equal
    injection equal with _ _ _ _ _ reasons owners _
    exact ⟨by simpa using reasons, owners⟩

theorem recommendTests_eq_iff {items : List ImpactItem} {edges edges' : List Edge} :
    rankFrom 0 (dedupBy sameTest (sortBy testKey (pushed items context nodes edges))) =
        rankFrom 0 (dedupBy sameTest (sortBy testKey (pushed items context nodes edges'))) ↔
      ∀ k, (pushed items context nodes edges).find? (fun r => testKey r = k) =
        (pushed items context nodes edges').find? fun r => testKey r = k := by
  have agrees : ∀ edges, ∀ a ∈ pushed items context nodes edges,
      ∀ b ∈ pushed items context nodes edges, sameTest b a = true ↔ testKey b = testKey a :=
    fun edges a ha b hb => sameTest_iff (pushed_unranked b hb) (pushed_unranked a ha)
  have sorted : ∀ edges, ∀ a ∈ sortBy testKey (pushed items context nodes edges),
      ∀ b ∈ sortBy testKey (pushed items context nodes edges),
        sameTest b a = true ↔ testKey b = testKey a :=
    fun edges a ha b hb => agrees edges a ((mem_sortBy _).mp ha) b ((mem_sortBy _).mp hb)
  have unranked : ∀ edges, ∀ r ∈ dedupBy sameTest (sortBy testKey (pushed items context nodes edges)),
      Unranked r := fun edges r hr =>
    pushed_unranked r ((mem_sortBy _).mp ((dedupBy_sublist _ _).subset hr))
  have look := fun edges k => dedupBy_sortBy_find? testKey (agrees edges) k
  constructor
  · intro h k
    have lists := congrArg (List.map fun r => { r with rank := 0 }) h
    rw [rankFrom_forget (unranked _), rankFrom_forget (unranked _)] at lists
    rw [← look edges k, ← look edges' k, lists]
  · intro h
    have lists := eq_of_find? testKey
      (dedupBy_strict testKey (sortBy_sorted testKey _) (sorted edges))
      (dedupBy_strict testKey (sortBy_sorted testKey _) (sorted edges'))
      fun k => by rw [look edges k, look edges' k, h k]
    rw [lists]

theorem find?_perm {α K : Type} [DecidableEq K] {key : α → K} {l l' : List α} (same : l.Perm l')
    (agree : ∀ a ∈ l, ∀ b ∈ l, key a = key b → a = b) (k : K) :
    l.find? (fun a => key a = k) = l'.find? fun a => key a = k := by
  cases hit : l.find? fun a => key a = k with
  | none =>
    refine (List.find?_eq_none.mpr fun a ha => ?_).symm
    exact List.find?_eq_none.mp hit a (same.mem_iff.mpr ha)
  | some a =>
    have ha := List.mem_of_find?_eq_some hit
    have ka : key a = k := by simpa using List.find?_some hit
    cases hit' : l'.find? fun a => key a = k with
    | none => simpa [ka] using List.find?_eq_none.mp hit' a (same.mem_iff.mp ha)
    | some b =>
      have kb : key b = k := by simpa using List.find?_some hit'
      rw [agree a ha b (same.mem_iff.mpr (List.mem_of_find?_eq_some hit')) (ka.trans kb.symm)]

theorem find?_local (items : List ImpactItem) (edges : List Edge)
    (k : Nat ×ₗ (Bool ×ₗ String) ×ₗ String ×ₗ (Bool ×ₗ String)) :
    (pushed items context nodes edges).find? (fun r => testKey r = k) =
      ((edges.filterMap (recommendationFor items context nodes)).find? fun r => testKey r = k).or
        ((localRecommendations context).find? fun r => testKey r = k) := by
  rw [pushed, List.find?_append]

/-- The recommendations do not depend on the edge order exactly if they agree. -/
theorem recommendTests_reordered_iff {items : List ImpactItem}
    (ids : ∀ (id : NodeId) (node : Node), nodes[id]? = some node → node.id = id) :
    (∀ someEdges, someEdges.Perm context.edges →
      recommendTests items (reordered context context.nodes someEdges) nodes =
        recommendTests items context nodes) ↔ TestsAgree items context nodes := by
  have base : recommendTests items context nodes = rankFrom 0 (dedupBy sameTest
      (sortBy testKey (pushed items context nodes context.edges))) := rfl
  rw [testsAgree_iff ids]
  constructor
  · intro h e₁ he₁ e₂ he₂ r₁ r₂ made₁ made₂ same
    -- each of the two edges may come first
    have first : ∀ e ∈ context.edges, ∀ r, recommendationFor items context nodes e = some r →
        (pushed items context nodes context.edges).find? (fun r' => testKey r' = testKey r) =
          some r := by
      intro e he r made
      have perm := (List.perm_cons_erase he).symm
      have equal := h _ perm
      rw [recommendTests_reordered perm, base, recommendTests_eq_iff] at equal
      rw [← equal]
      simp [pushed, made]
    have look := first e₂ he₂ r₂ made₂
    rw [← same, first e₁ he₁ r₁ made₁] at look
    exact Option.some.inj look
  · intro agree someEdges same
    rw [recommendTests_reordered same, base, recommendTests_eq_iff]
    intro k
    rw [find?_local, find?_local]
    congr 1
    refine find?_perm (same.filterMap _) ?_ k
    intro a ha b hb
    obtain ⟨e₁, he₁, made₁⟩ := List.mem_filterMap.mp ha
    obtain ⟨e₂, he₂, made₂⟩ := List.mem_filterMap.mp hb
    exact agree e₁ (same.mem_iff.mp he₁) e₂ (same.mem_iff.mp he₂) a b made₁ made₂

/-- The report depends on neither order exactly when, for each test, the impacted
nodes that it validates agree. -/
theorem analyzeImpact_order_independent_iff (request : ImpactRequest) (context : ImpactContext)
    (nodes : NodeIndex) (valid : validateContext request context = .ok nodes) :
    (∀ someNodes someEdges, someNodes.Perm context.nodes → someEdges.Perm context.edges →
      analyzeImpact request (reordered context someNodes someEdges) =
        analyzeImpact request context) ↔
    ∀ target, Targets context target request.target →
      ValidationsAgree request context target := by
  have facts := validateContext_eq_ok.mp valid
  have ids : ∀ (id : NodeId) (node : Node), nodes[id]? = some node → node.id = id :=
    fun id node h => ((facts.lookup id node).mp h).2
  have accepted : ∀ someNodes someEdges, someNodes.Perm context.nodes →
      someEdges.Perm context.edges →
      validateContext request (reordered context someNodes someEdges) = .ok nodes :=
    fun someNodes someEdges sameNodes sameEdges =>
      validateContext_eq_ok.mpr (facts.reordered sameNodes sameEdges)
  cases resolved : resolveTarget request.target nodes with
  | error e =>
    refine iff_of_true (fun someNodes someEdges sameNodes sameEdges => ?_) fun target named => ?_
    · simp only [analyzeImpact, accepted _ _ sameNodes sameEdges, valid, resolved, bind,
        Except.bind]
    · obtain ⟨other, found, -⟩ := (resolveTarget_eq_ok facts).mpr named
      cases resolved.symm.trans found
  | ok target =>
    obtain ⟨traversal, run⟩ := traverse_total facts target.node
    have report : ∀ someNodes someEdges, someNodes.Perm context.nodes →
        someEdges.Perm context.edges →
        (analyzeImpact request (reordered context someNodes someEdges) =
          analyzeImpact request context ↔
        recommendTests (sortItems traversal.items) (reordered context someNodes someEdges) nodes =
          recommendTests (sortItems traversal.items) context nodes) := by
      intro someNodes someEdges sameNodes sameEdges
      rw [← @buildReport_reordered request context nodes _ _ sameEdges target traversal]
      simp only [analyzeImpact, accepted _ _ sameNodes sameEdges, valid, resolved, run,
        traverse_reordered facts.edgeIds sameEdges, bind, Except.bind, pure, Except.pure,
        Except.ok.injEq]
    have agree :=
      (@recommendTests_reordered_iff context nodes (sortItems traversal.items) ids).trans
        (testsAgree_iff_validationsAgree facts run)
    constructor
    · intro h other named
      obtain ⟨same, found, rfl⟩ := (resolveTarget_eq_ok facts).mpr named
      obtain rfl := Except.ok.inj (resolved.symm.trans found)
      exact agree.mp fun someEdges sameEdges =>
        (report _ _ (.refl _) sameEdges).mp (h _ _ (.refl _) sameEdges)
    · intro h someNodes someEdges sameNodes sameEdges
      have named := (resolveTarget_eq_ok facts).mp ⟨target, resolved, rfl⟩
      have tests := agree.mpr (h target.node named) someEdges sameEdges
      rw [recommendTests_reordered sameEdges] at tests
      rw [report _ _ sameNodes sameEdges, recommendTests_reordered sameEdges, tests]

end Report

section TwoValidations

def consumesEdge (id source target : String) : Edge :=
  ⟨id, source, target, .consumes, .ofNat 1, .confirmed, []⟩

def validatesEdge (id test validated : String) : Edge :=
  ⟨id, test, validated, .validates, .ofNat 1, .confirmed, []⟩

def twoValidations : ImpactContext :=
  .ofGraph [⟨"T", .service, none, "T", "T"⟩, ⟨"A", .service, none, "A", "A"⟩,
      ⟨"B", .service, none, "B", "B"⟩, ⟨"t", .testCase, none, "t", "t"⟩]
    [consumesEdge "e1" "T" "A", consumesEdge "e2" "T" "B",
      validatesEdge "v1" "t" "A", validatesEdge "v2" "t" "B"]

def swappedEdges : List Edge :=
  [consumesEdge "e1" "T" "A", consumesEdge "e2" "T" "B",
    validatesEdge "v2" "t" "B", validatesEdge "v1" "t" "A"]

def downward : ImpactRequest := ⟨.nodeId "T", .downstream, {}⟩

theorem analyzeImpact_depends_on_order :
    (∃ nodes, validateContext downward twoValidations = .ok nodes) ∧
      swappedEdges.Perm twoValidations.edges ∧
      analyzeImpact downward (reordered twoValidations twoValidations.nodes swappedEdges) ≠
        analyzeImpact downward twoValidations := by
  have test : isOkAnd (validateContext downward twoValidations) (fun _ => true) = true ∧
      isOkAnd (analyzeImpact downward (reordered twoValidations twoValidations.nodes swappedEdges))
        (fun report => report.testRecommendations.map (·.reasons) =
          [["validates impacted node `B` at depth 1"]]) = true ∧
      isOkAnd (analyzeImpact downward twoValidations)
        (fun report => report.testRecommendations.map (·.reasons) =
          [["validates impacted node `A` at depth 1"]]) = true := by
    decide +kernel
  obtain ⟨accepted, swapped, original⟩ := test
  obtain ⟨nodes, valid, -⟩ := isOkAnd_iff.mp accepted
  refine ⟨⟨nodes, valid⟩, by decide, fun same => ?_⟩
  obtain ⟨report, made, reasons⟩ := isOkAnd_iff.mp swapped
  obtain ⟨report', made', reasons'⟩ := isOkAnd_iff.mp original
  obtain rfl : report = report' := Except.ok.inj (made.symm.trans (same.trans made'))
  have reasons := (of_decide_eq_true reasons).symm.trans (of_decide_eq_true reasons')
  exact absurd reasons (by decide)

theorem order_independent_iff_twoValidations :
    (∀ someNodes someEdges, someNodes.Perm twoValidations.nodes →
      someEdges.Perm twoValidations.edges →
      analyzeImpact downward (reordered twoValidations someNodes someEdges) =
        analyzeImpact downward twoValidations) ↔
    ∀ target, Targets twoValidations target downward.target →
      ValidationsAgree downward twoValidations target := by
  have test : isOkAnd (validateContext downward twoValidations) (fun _ => true) = true := by
    decide +kernel
  obtain ⟨nodes, valid, -⟩ := isOkAnd_iff.mp test
  exact analyzeImpact_order_independent_iff downward twoValidations nodes valid

end TwoValidations

end CodeSystemGraph.Impact
