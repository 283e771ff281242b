import CodeSystemGraph.ImpactCoverage
import CodeSystemGraph.ImpactSearch

/-! The impacted nodes in terms of the paths of the input graph: a node is
reported by the last preferred path to it that the search finds within its
limits. From it, when the recommendations for one test agree: the impacted nodes
that the test validates have one stable key, one depth and the same owners. -/

namespace CodeSystemGraph.Impact
open Ieee Model Ordered Iterate LabelSearch

section Shown

variable (request : ImpactRequest) (context : ImpactContext) (target : Node)

/-- The node that the request names: by its identity, or as the only one with a stable key. -/
def Targets (context : ImpactContext) (node : Node) : ImpactTarget → Prop
  | .nodeId id => node ∈ context.nodes ∧ node.id = id
  | .stableKey key => node ∈ context.nodes ∧ node.stableKey = key ∧
      ∀ other ∈ context.nodes, other.stableKey = key → other = node

/-- The path by which a node is reported: of the preferred paths to it that the search finds within
its limits, the last in the breadth-first order. -/
structure Shown (p : List ImpactPathStep) (v : NodeId) : Prop where
  preferred : Preferred request context target p
  within : WithinLimits request context target p
  nonempty : p ≠ []
  here : endpoint target p = v
  last : ∀ q, Preferred request context target q → WithinLimits request context target q → q ≠ [] →
    endpoint target q = v → place q ≤ place p

def Validates (test validated : Node) : Prop :=
  test.kind = .testCase ∧ ∃ edge ∈ context.edges, edge.kind = .validates ∧
    (edge.source = test.id ∧ edge.target = validated.id ∨
      validated.kind ≠ .testCase ∧ edge.source = validated.id ∧ edge.target = test.id)

def OwnedBy (node owner : Node) : Prop :=
  owner.kind = .owner ∧ ∃ edge ∈ context.edges, edge.kind = .ownedBy ∧ edge.source = node.id ∧
    edge.target = owner.id

/-- The impacted nodes that one test validates have one stable key, one depth and, with the test,
the same owners. -/
def ValidationsAgree : Prop :=
  ∀ test ∈ context.nodes, ∀ v₁ ∈ context.nodes, ∀ v₂ ∈ context.nodes,
    Validates context test v₁ → Validates context test v₂ →
    ∀ p₁ p₂, Shown request context target p₁ v₁.id → Shown request context target p₂ v₂.id →
      v₁.stableKey = v₂.stableKey ∧ p₁.length = p₂.length ∧
        ∀ owner ∈ context.nodes, (OwnedBy context test owner ∨ OwnedBy context v₁ owner ↔
          OwnedBy context test owner ∨ OwnedBy context v₂ owner)

variable {request context target}
variable {nodes : NodeIndex} {result : Traversal}

theorem values_nodup (valid : Valid request context nodes) : (values nodes).Nodup := by
  refine List.pairwise_map.mpr (Std.ExtTreeMap.distinct_keys_toList.imp_of_mem ?_)
  intro a b ha hb distinct same
  have ida := ((valid.lookup _ _).mp (Std.ExtTreeMap.mem_toList_iff_getElem?_eq_some.mp ha)).2
  have idb := ((valid.lookup _ _).mp (Std.ExtTreeMap.mem_toList_iff_getElem?_eq_some.mp hb)).2
  rw [← ida, ← idb, same] at distinct
  exact distinct Std.ReflCmp.compare_self

theorem resolveTarget_eq_ok (valid : Valid request context nodes) {selector : ImpactTarget}
    {node : Node} :
    (∃ resolved, resolveTarget selector nodes = .ok resolved ∧ resolved.node = node) ↔
      Targets context node selector := by
  cases selector with
  | nodeId id =>
    rw [Targets, ← valid.lookup, resolveTarget]
    cases found : nodes[id]? with
    | none => simp
    | some other => simp
  | stableKey key =>
    have mem : ∀ other, other ∈ (values nodes).filter (·.stableKey == key) ↔
        other ∈ context.nodes ∧ other.stableKey = key := by
      intro other
      rw [List.mem_filter, mem_values, beq_iff_eq]
      refine and_congr_left fun _ => ⟨?_, fun known => ⟨_, (valid.lookup _ _).mpr ⟨known, rfl⟩⟩⟩
      rintro ⟨id, known⟩
      exact ((valid.lookup _ _).mp known).1
    have nodup := (values_nodup valid).filter (·.stableKey == key)
    rw [Targets, resolveTarget]
    generalize (values nodes).filter (·.stableKey == key) = named at mem nodup
    rw [← and_assoc, ← mem]
    simp only [← and_imp, ← mem]
    cases named with
    | nil => simp
    | cons first rest =>
      cases rest with
      | nil => simp [eq_comm]
      | cons second rest =>
        have differ : first ≠ second := fun same =>
          (List.nodup_cons.mp nodup).1 (same ▸ List.mem_cons_self)
        simp only [reduceCtorEq, false_and, exists_false, false_iff]
        rintro ⟨-, only⟩
        exact differ ((only first (by simp)).trans (only second (by simp)).symm)

theorem Shown.unique (ids : (context.edges.map Edge.id).Nodup) {p q : List ImpactPathStep}
    {v : NodeId} (hp : Shown request context target p v) (hq : Shown request context target q v) :
    p = q := by
  have distinct := List.pairwise_map.mpr
    ((@kept_places request context target ids request.options.maxDepth).imp ne_of_lt)
  exact List.inj_on_of_nodup_map distinct ((mem_kept_iff_preferred ids).mpr hp.preferred)
    ((mem_kept_iff_preferred ids).mpr hq.preferred)
    (le_antisymm (hq.last p hp.preferred hp.within hp.nonempty hp.here)
      (hp.last q hq.preferred hq.within hq.nonempty hq.here))

theorem traverse_shown (valid : Valid request context nodes)
    (run : traverse request context nodes target = .ok result) :
    (∀ item ∈ result.items, item.node ∈ context.nodes ∧ item.depth = item.path.length ∧
      Shown request context target item.path item.node.id) ∧
    ∀ p v, Shown request context target p v →
      ∃ item ∈ result.items, item.node.id = v ∧ item.path = p := by
  obtain ⟨s, kept, items, -, ended⟩ := traverse_ended valid.edgeIds run
  obtain ⟨queue, track⟩ := ended.tracks
  have order := (kept_places valid.edgeIds request.options.maxDepth).sublist ended.initial.sublist
  have found : ∀ {p : List ImpactPathStep}, p ≠ [] → (p ∈ kept ↔
      Preferred request context target p ∧ WithinLimits request context target p) := by
    intro p nonempty
    rw [← mem_kept_iff_preferred valid.edgeIds]
    exact ⟨fun hp => ⟨ended.initial.subset hp,
      (ended.within p (ended.initial.subset hp) nonempty).mp hp⟩,
      fun hp => (ended.within p hp.1 nonempty).mpr hp.2⟩
  have shown : ∀ {p : List ImpactPathStep} {v : NodeId}, p ≠ [] →
      ((impactSpace request context target).latest kept v = some p ↔
        Shown request context target p v) := by
    intro p v nonempty
    rw [Space.latest_eq_some_iff _ stepKey order]
    constructor
    · rintro ⟨hp, here, last⟩
      obtain ⟨preferred, within⟩ := (found nonempty).mp hp
      exact ⟨preferred, within, nonempty, here, fun q hq limits reached arrives =>
        last q ((found reached).mpr ⟨hq, limits⟩) arrives⟩
    · intro h
      refine ⟨(found nonempty).mpr ⟨h.preferred, h.within⟩, h.here, fun q hq arrives => ?_⟩
      have reached : q ≠ [] := by
        rintro rfl
        have path := isPath_iff.mp (Space.isPath_of_mem_kept _
          ((mem_kept_iff_preferred valid.edgeIds).mpr h.preferred))
        exact endpoint_ne_target path nonempty (h.here.trans arrives.symm)
      obtain ⟨preferred, within⟩ := (found reached).mp hq
      exact h.last q preferred within reached arrives
  refine ⟨fun item hi => ?_, fun p v h => ?_⟩
  · rw [items] at hi
    obtain ⟨v, listed⟩ := mem_values.mp hi
    obtain ⟨known, nonempty, depth, latest⟩ := track.items v item listed
    obtain ⟨inside, rfl⟩ := (valid.lookup _ _).mp known
    exact ⟨inside, depth, (shown nonempty).mp latest⟩
  · have reported := track.reported p ((found h.nonempty).mpr ⟨h.preferred, h.within⟩) h.nonempty
    obtain ⟨item, listed⟩ := Option.isSome_iff_exists.mp
      (Std.ExtTreeMap.mem_iff_isSome_getElem?.mp reported)
    rw [h.here] at listed
    obtain ⟨known, -, -, latest⟩ := track.items v item listed
    refine ⟨item, items ▸ mem_values.mpr ⟨v, listed⟩, ((valid.lookup _ _).mp known).2, ?_⟩
    exact Option.some.inj (latest.symm.trans ((shown h.nonempty).mpr h))

end Shown

def TestsAgree (items : List ImpactItem) (context : ImpactContext) (nodes : NodeIndex) : Prop :=
  ∀ e₁ ∈ context.edges, ∀ e₂ ∈ context.edges, ∀ (testId v₁ v₂ : NodeId) (i₁ i₂ : ImpactItem),
    validation nodes e₁ = some (testId, v₁) → validation nodes e₂ = some (testId, v₂) →
    (impactedIndex items)[v₁]? = some i₁ → (impactedIndex items)[v₂]? = some i₂ →
    validationReason i₁ = validationReason i₂ ∧
      ownersFor context nodes testId v₁ = ownersFor context nodes testId v₂

section Agreement

variable {request : ImpactRequest} {context : ImpactContext} {target : Node}
variable {nodes : NodeIndex} {result : Traversal}

theorem isTestCase_iff {id : NodeId} :
    isTestCase nodes id = true ↔ ∃ node, nodes[id]? = some node ∧ node.kind = .testCase := by
  unfold isTestCase
  cases nodes[id]? <;> simp

theorem validation_iff (valid : Valid request context nodes) {testId validatedId : NodeId} :
    (∃ edge ∈ context.edges, validation nodes edge = some (testId, validatedId)) ↔
      ∃ test ∈ context.nodes, ∃ validated ∈ context.nodes, test.id = testId ∧
        validated.id = validatedId ∧ Validates context test validated := by
  have known : ∀ {edge}, edge ∈ context.edges → (∃ node ∈ context.nodes, node.id = edge.source) ∧
      ∃ node ∈ context.nodes, node.id = edge.target := by
    intro edge he
    have ends := (valid.edges edge he).2
    have look : ∀ id, id ∈ nodes → ∃ node ∈ context.nodes, node.id = id := by
      intro id hid
      obtain ⟨node, found⟩ := Option.isSome_iff_exists.mp
        (Std.ExtTreeMap.mem_iff_isSome_getElem?.mp hid)
      exact ⟨node, (valid.lookup _ _).mp found⟩
    exact ⟨look _ ends.1, look _ ends.2⟩
  have isTest : ∀ {node}, node ∈ context.nodes →
      (isTestCase nodes node.id = true ↔ node.kind = .testCase) := by
    intro node hn
    rw [isTestCase_iff]
    refine ⟨?_, fun kind => ⟨node, (valid.lookup _ _).mpr ⟨hn, rfl⟩, kind⟩⟩
    rintro ⟨other, found, kind⟩
    obtain rfl : node = other :=
      Option.some.inj (((valid.lookup _ _).mpr ⟨hn, rfl⟩).symm.trans found)
    exact kind
  constructor
  · rintro ⟨edge, he, h⟩
    obtain ⟨⟨first, hf, source⟩, second, hs, reached⟩ := known he
    unfold validation at h
    rw [← source, ← reached] at h
    simp only [isTest hf, isTest hs] at h
    split at h
    · cases h
    · next kind =>
      have kind := not_not.mp kind
      split at h
      · next test =>
        obtain ⟨rfl, rfl⟩ := Prod.mk.inj (Option.some.inj h)
        exact ⟨first, hf, second, hs, rfl, rfl, test, edge, he, kind,
          .inl ⟨source.symm, reached.symm⟩⟩
      · next other =>
        split at h
        · next test =>
          obtain ⟨rfl, rfl⟩ := Prod.mk.inj (Option.some.inj h)
          exact ⟨second, hs, first, hf, rfl, rfl, test, edge, he, kind,
            .inr ⟨other, source.symm, reached.symm⟩⟩
        · cases h
  · rintro ⟨test, ht, validated, hv, rfl, rfl, kind, edge, he, validates, ends⟩
    refine ⟨edge, he, ?_⟩
    rcases ends with ⟨source, reached⟩ | ⟨other, source, reached⟩
    · simp [validation, validates, source, reached, (isTest ht).mpr kind]
    · simp [validation, validates, source, reached, (isTest ht).mpr kind, isTest hv, other]

theorem validationReason_eq_iff (left right : ImpactItem) :
    validationReason left = validationReason right ↔
      left.node.stableKey = right.node.stableKey ∧ left.depth = right.depth := by
  have blank : "` at depth " = "` at depth" ++ " " := by decide
  have spelled : ∀ item, (validationReason item).toList.reverse =
      item.depth.repr.toList.reverse ++ " ".toList ++
        ("validates impacted node `" ++ item.node.stableKey ++ "` at depth").toList.reverse := by
    intro item
    unfold validationReason
    rw [blank]
    generalize "validates impacted node `" ++ item.node.stableKey = first
    generalize "` at depth" = second
    rw [← String.append_assoc, String.toList_append, String.toList_append, List.reverse_append,
      List.reverse_append, List.append_assoc]
    rfl
  -- the decimal digits at the end hold no blank
  have free : ∀ n : Nat, ' ' ∉ n.repr.toList.reverse := fun n => by
    rw [List.mem_reverse]
    exact Text.notMem_repr (by decide)
  constructor
  · intro same
    have lists := congrArg (fun text => text.toList.reverse) same
    simp only [spelled, List.append_assoc] at lists
    obtain ⟨digits, rest⟩ := Text.append_cons_inj (free _) (free _) lists
    have texts := String.toList_inj.mp (List.reverse_injective rest)
    generalize "validates impacted node `" = first at texts
    generalize "` at depth" = second at texts
    simp only [String.append_assoc] at texts
    refine ⟨?_, Text.repr_inj (List.reverse_injective digits)⟩
    simpa using texts
  · rintro ⟨key, depth⟩
    unfold validationReason
    rw [key, depth]

theorem mem_ownerIds (valid : Valid request context nodes) {test validated : Node} {id : NodeId} :
    id ∈ ownerIds context nodes test.id validated.id ↔ ∃ owner ∈ context.nodes, owner.id = id ∧
      (OwnedBy context test owner ∨ OwnedBy context validated owner) := by
  have isOwner : (nodes[id]?.any fun node => node.kind == .owner) = true ↔
      ∃ owner ∈ context.nodes, owner.id = id ∧ owner.kind = .owner := by
    simp only [← and_assoc, ← valid.lookup]
    cases nodes[id]? <;> simp
  simp only [ownerIds, Std.ExtTreeSet.mem_ofList, List.contains_iff_mem, List.mem_map,
    List.mem_filter, decide_eq_true_eq]
  constructor
  · rintro ⟨edge, ⟨he, kind, ends, owns⟩, rfl⟩
    obtain ⟨owner, ho, same, is⟩ := isOwner.mp owns
    refine ⟨owner, ho, same, ends.imp ?_ ?_⟩ <;>
      exact fun source => ⟨is, edge, he, kind, source, same.symm⟩
  · rintro ⟨owner, ho, rfl, owns⟩
    have found := isOwner.mpr ⟨owner, ho, rfl, owns.elim (·.1) (·.1)⟩
    rcases owns with ⟨-, edge, he, kind, source, reached⟩ | ⟨-, edge, he, kind, source, reached⟩
    · exact ⟨edge, ⟨he, kind, .inl source, reached ▸ found⟩, reached⟩
    · exact ⟨edge, ⟨he, kind, .inr source, reached ▸ found⟩, reached⟩

theorem ownersFor_eq_iff (valid : Valid request context nodes) {test v₁ v₂ : Node} :
    ownersFor context nodes test.id v₁.id = ownersFor context nodes test.id v₂.id ↔
      ∀ owner ∈ context.nodes, (OwnedBy context test owner ∨ OwnedBy context v₁ owner ↔
        OwnedBy context test owner ∨ OwnedBy context v₂ owner) := by
  have mem : ∀ {v owner : Node}, owner ∈ context.nodes →
      (owner ∈ ownersFor context nodes test.id v.id ↔
        OwnedBy context test owner ∨ OwnedBy context v owner) := by
    intro v owner ho
    simp only [ownersFor, List.mem_filterMap, Std.ExtTreeSet.mem_toList, mem_ownerIds valid,
      valid.lookup]
    constructor
    · rintro ⟨id, ⟨other, hother, rfl, owns⟩, -, same⟩
      obtain rfl := List.inj_on_of_nodup_map valid.nodeIds ho hother same
      exact owns
    · exact fun owns => ⟨owner.id, ⟨owner, ho, rfl, owns⟩, ho, rfl⟩
  constructor
  · intro same owner ho
    rw [← mem ho, same, mem ho]
  · intro same
    have ids : ownerIds context nodes test.id v₁.id = ownerIds context nodes test.id v₂.id := by
      refine Std.ExtTreeSet.ext_mem fun id => ?_
      rw [mem_ownerIds valid, mem_ownerIds valid]
      exact exists_congr fun owner =>
        and_congr_right fun ho => and_congr_right fun _ => same owner ho
    rw [ownersFor, ownersFor, ids]

theorem impactedIndex_shown (valid : Valid request context nodes)
    (run : traverse request context nodes target = .ok result) :
    (∀ (v : NodeId) (item : ImpactItem), (impactedIndex (sortItems result.items))[v]? = some item →
      item.node.id = v ∧ item.node ∈ context.nodes ∧ item.depth = item.path.length ∧
        Shown request context target item.path v) ∧
    ∀ p v, Shown request context target p v →
      ∃ item, (impactedIndex (sortItems result.items))[v]? = some item ∧ item.path = p := by
  obtain ⟨shown, found⟩ := traverse_shown valid run
  have look : ∀ v : NodeId, (impactedIndex (sortItems result.items))[v]? =
      ((sortItems result.items).filter fun item => item.node.id = v).getLast? := by
    intro v
    rw [impactedIndex,
      getElem?_foldl_insert (fun item : ImpactItem => item.node.id) fun item => item]
    simp
  have hit : ∀ (v : NodeId) (item : ImpactItem),
      (impactedIndex (sortItems result.items))[v]? = some item →
      item.node.id = v ∧ item.node ∈ context.nodes ∧ item.depth = item.path.length ∧
        Shown request context target item.path v := by
    intro v item h
    obtain ⟨mem, same⟩ := List.mem_filter.mp (List.mem_of_getLast? (look v ▸ h))
    obtain rfl : item.node.id = v := by simpa using same
    exact ⟨rfl, shown item ((mem_sortBy _).mp mem)⟩
  refine ⟨hit, fun p v h => ?_⟩
  obtain ⟨item, hi, same, rfl⟩ := found p v h
  have listed : item ∈ (sortItems result.items).filter fun item => item.node.id = v :=
    List.mem_filter.mpr ⟨(mem_sortBy _).mpr hi, by simpa using same⟩
  obtain ⟨last, final⟩ := Option.isSome_iff_exists.mp
    (List.getLast?_isSome.mpr (List.ne_nil_of_mem listed))
  rw [← look] at final
  exact ⟨last, final, (hit v last final).2.2.2.unique valid.edgeIds h⟩

theorem testsAgree_iff_validationsAgree (valid : Valid request context nodes)
    (run : traverse request context nodes target = .ok result) :
    TestsAgree (sortItems result.items) context nodes ↔
      ValidationsAgree request context target := by
  obtain ⟨shown, found⟩ := impactedIndex_shown valid run
  constructor
  · intro agree test ht v₁ hv₁ v₂ hv₂ val₁ val₂ p₁ p₂ shown₁ shown₂
    obtain ⟨e₁, he₁, link₁⟩ := (validation_iff valid).mpr ⟨test, ht, v₁, hv₁, rfl, rfl, val₁⟩
    obtain ⟨e₂, he₂, link₂⟩ := (validation_iff valid).mpr ⟨test, ht, v₂, hv₂, rfl, rfl, val₂⟩
    obtain ⟨i₁, hit₁, rfl⟩ := found _ _ shown₁
    obtain ⟨i₂, hit₂, rfl⟩ := found _ _ shown₂
    obtain ⟨reason, owners⟩ := agree e₁ he₁ e₂ he₂ _ _ _ _ _ link₁ link₂ hit₁ hit₂
    obtain ⟨key, depth⟩ := (validationReason_eq_iff _ _).mp reason
    obtain ⟨id₁, in₁, depth₁, -⟩ := shown _ _ hit₁
    obtain ⟨id₂, in₂, depth₂, -⟩ := shown _ _ hit₂
    rw [List.inj_on_of_nodup_map valid.nodeIds in₁ hv₁ id₁,
      List.inj_on_of_nodup_map valid.nodeIds in₂ hv₂ id₂] at key
    exact ⟨key, by rw [← depth₁, ← depth₂, depth], (ownersFor_eq_iff valid).mp owners⟩
  · intro agree e₁ he₁ e₂ he₂ testId v₁ v₂ i₁ i₂ link₁ link₂ hit₁ hit₂
    obtain ⟨test, ht, n₁, hn₁, rfl, rfl, val₁⟩ := (validation_iff valid).mp ⟨e₁, he₁, link₁⟩
    obtain ⟨test', ht', n₂, hn₂, same, rfl, val₂⟩ := (validation_iff valid).mp ⟨e₂, he₂, link₂⟩
    obtain rfl := List.inj_on_of_nodup_map valid.nodeIds ht' ht same
    obtain ⟨id₁, in₁, depth₁, shown₁⟩ := shown _ _ hit₁
    obtain ⟨id₂, in₂, depth₂, shown₂⟩ := shown _ _ hit₂
    obtain ⟨key, size, owners⟩ := agree _ ht n₁ hn₁ n₂ hn₂ val₁ val₂ _ _ shown₁ shown₂
    obtain rfl := List.inj_on_of_nodup_map valid.nodeIds in₁ hn₁ id₁
    obtain rfl := List.inj_on_of_nodup_map valid.nodeIds in₂ hn₂ id₂
    exact ⟨(validationReason_eq_iff _ _).mpr ⟨key, by rw [depth₁, depth₂, size]⟩,
      (ownersFor_eq_iff valid).mpr owners⟩

end Agreement

end CodeSystemGraph.Impact
