import CodeSystemGraph.EventGraph
import CodeSystemGraph.StoreRecords

/-! Manual relationships over an automatic edge set: the checks of the declarations,
the resolution of their endpoints, and the edits applied one after the other. The hash
behind the identifiers is the parameter `stableId`. -/

namespace CodeSystemGraph.ManualLinks
open Ieee Model Ordered Text
open Events (edgeKindDebug)
open Store (LinkStatus)

section Claims

variable {ε α β K : Type} [DecidableEq K]

/-- Checks a list item by item and keeps what each gives, with an error at the second
item of an identity: `identities.insert(identity, index)` as the source uses it. -/
def claimFrom (check : Nat → α → Except ε (K × β)) (duplicate : Nat → Nat → α → β → ε) :
    Nat → List (K × Nat) → List α → Except ε (List β)
  | _, _, [] => .ok []
  | index, identities, a :: rest => do
    let (identity, b) ← check index a
    match identities.lookup identity with
    | some first => .error (duplicate first index a b)
    | none => do
      let more ← claimFrom check duplicate (index + 1) ((identity, index) :: identities) rest
      pure (b :: more)

theorem claimFrom_eq_ok {check : Nat → α → Except ε (K × β)} {duplicate : Nat → Nat → α → β → ε}
    {good : α → Prop} {key : α → K} {build : Nat → α → β}
    (checked : ∀ index a k b, check index a = .ok (k, b) ↔ good a ∧ k = key a ∧ b = build index a) :
    ∀ {l : List α} {index : Nat} {identities : List (K × Nat)} {results : List β},
      claimFrom check duplicate index identities l = .ok results ↔
        (∀ a ∈ l, good a ∧ identities.lookup (key a) = none) ∧ (l.map key).Nodup ∧
          results = (l.zipIdx index).map fun entry => build entry.2 entry.1 := by
  intro l
  induction l with
  | nil =>
    intro index identities results
    rw [claimFrom, Except.ok.injEq]
    simp only [List.not_mem_nil, false_imp_iff, implies_true, List.map_nil, List.nodup_nil,
      List.zipIdx_nil, true_and]
    exact eq_comm
  | cons a l ih =>
    intro index identities results
    rw [claimFrom]
    simp only [bind_eq_ok, Prod.exists, checked, List.forall_mem_cons, List.map_cons,
      List.nodup_cons, List.zipIdx_cons]
    constructor
    · rintro ⟨_, _, ⟨pass, rfl, rfl⟩, h⟩
      cases found : identities.lookup (key a) with
      | some first => simp [found] at h
      | none =>
        simp only [found, bind_eq_ok, pure_eq_ok] at h
        obtain ⟨more, claimed, rfl⟩ := h
        obtain ⟨each, nodup, rfl⟩ := ih.1 claimed
        have other : ∀ b ∈ l, key b ≠ key a ∧ identities.lookup (key b) = none := by
          intro b mem
          have fresh := (each b mem).2
          by_cases same : key b = key a
          · simp [same] at fresh
          · exact ⟨same, by simpa [List.lookup_cons, beq_eq_false_iff_ne.2 same] using fresh⟩
        refine ⟨⟨⟨pass, rfl⟩, fun b mem => ⟨(each b mem).1, (other b mem).2⟩⟩, ⟨?_, nodup⟩, rfl⟩
        intro mem
        obtain ⟨b, mem, same⟩ := List.mem_map.1 mem
        exact (other b mem).1 same
    · rintro ⟨⟨⟨pass, free⟩, each⟩, ⟨new, nodup⟩, rfl⟩
      refine ⟨key a, build index a, ⟨pass, rfl, rfl⟩, ?_⟩
      simp only [free, bind_eq_ok, pure_eq_ok]
      refine ⟨_, ih.2 ⟨fun b mem => ⟨(each b mem).1, ?_⟩, nodup, rfl⟩, rfl⟩
      have other : key b ≠ key a := fun same => new (same ▸ List.mem_map_of_mem mem)
      simpa [List.lookup_cons, beq_eq_false_iff_ne.2 other] using (each b mem).2

end Claims

structure ManualLinkConfig where
  fromNode : String
  toNode : String
  relation : EdgeKind
  contract : Option String
  reason : String
  suppress : Bool
deriving DecidableEq

inductive ManualLinkEndpoint
  | fromEnd | toEnd
deriving DecidableEq

inductive ManifestError
  | emptyField (field : String)
  | unsafeMetadata (field : String)
  | fieldTooLong (field : String) (maximum : Nat)
  | nonConcreteManualRelation (index : Nat)
  | manualSelfLink (index : Nat) (endpoint : String)
  | duplicateManualLink (first duplicate : Nat) (fromNode toNode : String) (relation : EdgeKind)
deriving DecidableEq

inductive ManualLinkError
  | invalidDeclaration (error : ManifestError)
  | missingEndpoint (index : Nat) (endpoint : ManualLinkEndpoint) (value : String)
  | ambiguousEndpoint (index : Nat) (endpoint : ManualLinkEndpoint) (value : String)
      (candidates : List NodeId)
  | resolvedSelfLink (index : Nat) (node : String)
  | duplicateResolvedLink (first duplicate : Nat) (sourceNode targetNode : NodeId)
      (relation : EdgeKind)
  | missingSuppressionTarget (index : Nat) (sourceNode targetNode : NodeId) (relation : EdgeKind)
deriving DecidableEq

structure RejectedAlternative where
  candidate : NodeId
  score : F32
  reasons : List String
deriving DecidableEq

structure EvidenceRef where
  id : EvidenceId
  provenance : Provenance
deriving DecidableEq

structure LinkDecision where
  source : NodeId
  target : NodeId
  relation : EdgeKind
  matcher : String
  matcherVersion : Nat × Nat × Nat
  score : F32
  confidence : F32
  reasons : List String
  rejectedAlternatives : List RejectedAlternative
  evidence : List EvidenceRef
  status : LinkStatus
deriving DecidableEq

structure ManualLinkResolution where
  edges : List Edge
  evidence : List Evidence
  decisions : List LinkDecision
deriving DecidableEq

structure ResolvedManualLink where
  index : Nat
  link : ManualLinkConfig
  source : NodeId
  target : NodeId
deriving DecidableEq

section Checks

def validateNotEmpty (field value : String) : Except ManifestError Unit := do
  ensure (!isBlank value) (.emptyField field)
  ensure (!containsUnsafeMetadataCharacters value) (.unsafeMetadata field)

def validateMaximum (field value : String) (maximum : Nat) : Except ManifestError Unit :=
  ensure (value.utf8ByteSize ≤ maximum) (.fieldTooLong field maximum)

def manualEndpointMaxBytes : Nat := 2048
def manualContractMaxBytes : Nat := 1024
def manualReasonMaxBytes : Nat := 4096

def manualField (index : Nat) (name : String) : String :=
  "manualLinks[" ++ toString index ++ "]." ++ name

def validateContract (index : Nat) : Option String → Except ManifestError Unit
  | none => .ok ()
  | some contract => do
    validateNotEmpty (manualField index "contract") contract
    validateMaximum (manualField index "contract") contract manualContractMaxBytes

/-- The checks of one declaration, in the order of `validate_manual_links`. -/
def validateManualLink (index : Nat) (link : ManualLinkConfig) : Except ManifestError Unit := do
  validateNotEmpty (manualField index "from") link.fromNode
  validateNotEmpty (manualField index "to") link.toNode
  validateNotEmpty (manualField index "reason") link.reason
  validateMaximum (manualField index "from") link.fromNode manualEndpointMaxBytes
  validateMaximum (manualField index "to") link.toNode manualEndpointMaxBytes
  validateMaximum (manualField index "reason") link.reason manualReasonMaxBytes
  validateContract index link.contract
  ensure (link.relation ≠ .manualLink) (.nonConcreteManualRelation index)
  ensure (link.fromNode ≠ link.toNode) (.manualSelfLink index link.fromNode)

def validateManualLinks (links : List ManualLinkConfig) : Except ManifestError Unit := do
  let _ ← claimFrom
    (fun index link => do
      validateManualLink index link
      pure ((link.fromNode, link.toNode, link.relation), ()))
    (fun first index link _ =>
      .duplicateManualLink first index link.fromNode link.toNode link.relation) 0 [] links
  pure ()

end Checks

section Resolution

variable (nodes : List Node)

def resolveManualEndpoint (index : Nat) (endpoint : ManualLinkEndpoint) (value : String) :
    Except ManualLinkError NodeId :=
  let matching := nodes.filter fun node => node.id == value || node.stableKey == value
  match sortedUnique (matching.map Node.id) with
  | [] => .error (.missingEndpoint index endpoint value)
  | [candidate] => .ok candidate
  | candidates => .error (.ambiguousEndpoint index endpoint value candidates)

def resolveManualLink (index : Nat) (link : ManualLinkConfig) :
    Except ManualLinkError ((NodeId × NodeId × EdgeKind) × ResolvedManualLink) := do
  let source ← resolveManualEndpoint nodes index .fromEnd link.fromNode
  let target ← resolveManualEndpoint nodes index .toEnd link.toNode
  ensure (source ≠ target) (.resolvedSelfLink index source)
  pure ((source, target, link.relation), ⟨index, link, source, target⟩)

def resolveEach (links : List ManualLinkConfig) : Except ManualLinkError (List ResolvedManualLink) :=
  claimFrom (resolveManualLink nodes)
    (fun first index link item =>
      .duplicateResolvedLink first index item.source item.target link.relation) 0 [] links

end Resolution

section Edits

variable (stableId : String → String → String)

def edgeMatches (link : ResolvedManualLink) (edge : Edge) : Bool :=
  edge.source == link.source && edge.target == link.target && edge.kind == link.link.relation

def manualLinkEvidence (link : ResolvedManualLink) : Evidence :=
  let contract := link.link.contract.getD ""
  let key := link.source ++ ":" ++ link.target ++ ":" ++ edgeKindDebug link.link.relation ++ ":" ++
    contract ++ ":" ++ toString link.link.suppress ++ ":" ++ link.link.reason
  { id := stableId "evidence" key
    repoId := none
    filePath := none
    startLine := none
    endLine := none
    extractor := "code-system-graph.manual-link"
    extractorVersion := "1.0.0"
    provenance := .manual
    confidence := .ofNat 1
    observedAtCommit := none
    contentHash := some (stableId "manual-link-declaration" key)
    note := some link.link.reason }

def manualLinkEdge (link : ResolvedManualLink) (evidence : Evidence) : Edge where
  id := stableId "edge" (link.source ++ ":" ++ edgeKindDebug link.link.relation ++ ":" ++ link.target)
  source := link.source
  target := link.target
  kind := link.link.relation
  confidence := .ofNat 1
  status := .confirmed
  evidence := [evidence.id]

def outcomeReason : LinkStatus → String
  | .confirmed => "manual declaration created the exact relationship"
  | .suppressed => "manual declaration removed the exact automatic relationship"
  | .ambiguous | .rejected => "manual declaration was not applied"

def manualLinkDecision (link : ResolvedManualLink) (evidence : EvidenceRef) (status : LinkStatus) :
    LinkDecision where
  source := link.source
  target := link.target
  relation := link.link.relation
  matcher := "manual_exact"
  matcherVersion := (1, 0, 0)
  score := .ofNat 1
  confidence := .ofNat 1
  reasons :=
    [link.link.reason, "both endpoints matched an exact node ID or stable key"] ++
      (link.link.contract.map fun contract => "declared contract: " ++ contract).toList ++
      [outcomeReason status]
  rejectedAlternatives := []
  evidence := [evidence]
  status := status

/-- The loop that applies the declarations to the edges. -/
def applyLinks (state : ManualLinkResolution) :
    List ResolvedManualLink → Except ManualLinkError ManualLinkResolution
  | [] => .ok state
  | item :: rest =>
    let evidence := manualLinkEvidence stableId item
    let reference : EvidenceRef := ⟨evidence.id, .manual⟩
    let kept := state.edges.filter fun edge => !edgeMatches item edge
    if item.link.suppress then
      if state.edges.length - kept.length = 0 then
        .error (.missingSuppressionTarget item.index item.source item.target item.link.relation)
      else
        applyLinks
          ⟨kept, state.evidence ++ [evidence],
            state.decisions ++ [manualLinkDecision item reference .suppressed]⟩ rest
    else
      applyLinks
        ⟨kept ++ [manualLinkEdge stableId item evidence], state.evidence ++ [evidence],
          state.decisions ++ [manualLinkDecision item reference .confirmed]⟩ rest

def resolvedKey (item : ResolvedManualLink) : NodeId ×ₗ NodeId ×ₗ Nat ×ₗ Bool :=
  toLex (item.source, toLex (item.target, toLex (item.link.relation.ctorIdx, item.link.suppress)))

def decisionKey (decision : LinkDecision) : NodeId ×ₗ NodeId ×ₗ Nat ×ₗ Nat :=
  toLex (decision.source, toLex (decision.target,
    toLex (decision.relation.ctorIdx, decision.status.ctorIdx)))

def resolveManualLinks (links : List ManualLinkConfig) (nodes : List Node)
    (automaticEdges : List Edge) : Except ManualLinkError ManualLinkResolution := do
  (validateManualLinks links).mapError .invalidDeclaration
  let resolved ← resolveEach nodes links
  let applied ← applyLinks stableId ⟨sortBy Edge.id automaticEdges, [], []⟩
    (sortBy resolvedKey resolved)
  pure
    { edges := sortBy Edge.id applied.edges
      evidence := sortBy Evidence.id applied.evidence
      decisions := sortBy decisionKey applied.decisions }

end Edits

section Endpoints

variable {nodes : List Node}

def Answers (node : Node) (value : String) : Prop := node.id = value ∨ node.stableKey = value

instance (node : Node) (value : String) : Decidable (Answers node value) :=
  inferInstanceAs (Decidable (_ ∨ _))

/-- One node has the identifier or stable key, whatever the number of its records. -/
def ResolvesTo (nodes : List Node) (value : String) (nodeId : NodeId) : Prop :=
  (∃ node ∈ nodes, Answers node value ∧ node.id = nodeId) ∧
    ∀ node ∈ nodes, Answers node value → node.id = nodeId

instance (nodes : List Node) (value : String) (nodeId : NodeId) :
    Decidable (ResolvesTo nodes value nodeId) :=
  inferInstanceAs (Decidable (_ ∧ _))

def Names (nodes : List Node) (link : ManualLinkConfig) (edge : Edge) : Prop :=
  ResolvesTo nodes link.fromNode edge.source ∧ ResolvesTo nodes link.toNode edge.target ∧
    edge.kind = link.relation

instance (nodes : List Node) (link : ManualLinkConfig) (edge : Edge) :
    Decidable (Names nodes link edge) :=
  inferInstanceAs (Decidable (_ ∧ _ ∧ _))

theorem sortedUnique_eq_singleton {values : List String} {value : String} :
    sortedUnique values = [value] ↔ value ∈ values ∧ ∀ other ∈ values, other = value := by
  constructor
  · intro same
    have members : ∀ other, other ∈ values ↔ other = value := by
      intro other
      rw [← mem_sortedUnique, same, List.mem_singleton]
    exact ⟨(members value).2 rfl, fun other => (members other).1⟩
  · rintro ⟨mem, only⟩
    have same : sortedUnique values = sortedUnique [value] := by
      refine sortedUnique_congr fun other => ?_
      rw [List.mem_singleton]
      exact ⟨only other, fun same => same ▸ mem⟩
    rw [same]
    simp [sortedUnique, sortBy, dedupBy]

theorem resolveManualEndpoint_eq_ok {index : Nat} {endpoint : ManualLinkEndpoint} {value : String}
    {nodeId : NodeId} :
    resolveManualEndpoint nodes index endpoint value = .ok nodeId ↔ ResolvesTo nodes value nodeId := by
  have single : sortedUnique ((nodes.filter fun node =>
      node.id == value || node.stableKey == value).map Node.id) = [nodeId] ↔
        ResolvesTo nodes value nodeId := by
    rw [sortedUnique_eq_singleton]
    simp only [List.mem_map, List.mem_filter, Bool.or_eq_true, beq_iff_eq, ResolvesTo, Answers,
      and_assoc, forall_exists_index, and_imp]
    refine and_congr_right fun _ => ⟨fun only node mem answers => only _ node mem answers rfl, ?_⟩
    rintro only _ node mem answers rfl
    exact only node mem answers
  rw [← single]
  unfold resolveManualEndpoint
  simp only
  split
  · next none => simp [none]
  · next candidate one => simp [one]
  · next many =>
    refine ⟨fun failed => ?_, fun one => (many nodeId one).elim⟩
    cases failed

def endpointOf (nodes : List Node) (value : String) : NodeId :=
  ((nodes.find? fun node => decide (Answers node value)).map Node.id).getD ""

theorem ResolvesTo.eq_endpointOf {value : String} {nodeId : NodeId}
    (resolves : ResolvesTo nodes value nodeId) : nodeId = endpointOf nodes value := by
  obtain ⟨⟨node, mem, answers, -⟩, only⟩ := resolves
  cases found : nodes.find? fun node => decide (Answers node value) with
  | none =>
    have none := List.find?_eq_none.1 found node mem
    simp [answers] at none
  | some first =>
    have answers := List.find?_some found
    simp only [decide_eq_true_eq] at answers
    simp [endpointOf, found, only first (List.mem_of_find?_eq_some found) answers]

def tripleOf (nodes : List Node) (link : ManualLinkConfig) : NodeId × NodeId × EdgeKind :=
  (endpointOf nodes link.fromNode, endpointOf nodes link.toNode, link.relation)

def Resolvable (nodes : List Node) (link : ManualLinkConfig) : Prop :=
  ResolvesTo nodes link.fromNode (endpointOf nodes link.fromNode) ∧
    ResolvesTo nodes link.toNode (endpointOf nodes link.toNode) ∧
    endpointOf nodes link.fromNode ≠ endpointOf nodes link.toNode

def resolvedAt (nodes : List Node) (index : Nat) (link : ManualLinkConfig) : ResolvedManualLink :=
  ⟨index, link, endpointOf nodes link.fromNode, endpointOf nodes link.toNode⟩

theorem resolveManualLink_eq_ok (index : Nat) (link : ManualLinkConfig)
    (identity : NodeId × NodeId × EdgeKind) (item : ResolvedManualLink) :
    resolveManualLink nodes index link = .ok (identity, item) ↔
      Resolvable nodes link ∧ identity = tripleOf nodes link ∧ item = resolvedAt nodes index link := by
  simp only [resolveManualLink, bind_eq_ok, resolveManualEndpoint_eq_ok, ensure_eq_ok,
    decide_eq_true_eq, pure_eq_ok, Prod.mk.injEq]
  constructor
  · rintro ⟨source, first, target, last, ⟨⟩, apart, rfl, rfl⟩
    obtain rfl := first.eq_endpointOf
    obtain rfl := last.eq_endpointOf
    exact ⟨⟨first, last, apart⟩, rfl, rfl⟩
  · rintro ⟨⟨first, last, apart⟩, rfl, rfl⟩
    exact ⟨_, first, _, last, (), apart, rfl, rfl⟩

theorem resolveEach_eq_ok {links : List ManualLinkConfig} {resolved : List ResolvedManualLink} :
    resolveEach nodes links = .ok resolved ↔
      (∀ link ∈ links, Resolvable nodes link) ∧ (links.map (tripleOf nodes)).Nodup ∧
        resolved = links.zipIdx.map fun entry => resolvedAt nodes entry.2 entry.1 := by
  rw [resolveEach, claimFrom_eq_ok resolveManualLink_eq_ok]
  simp

theorem matches_resolvedAt {link : ManualLinkConfig} (resolvable : Resolvable nodes link)
    (index : Nat) (edge : Edge) :
    edgeMatches (resolvedAt nodes index link) edge = true ↔ Names nodes link edge := by
  simp only [edgeMatches, resolvedAt, Bool.and_eq_true, beq_iff_eq, Names]
  constructor
  · rintro ⟨⟨source, target⟩, kind⟩
    exact ⟨source ▸ resolvable.1, target ▸ resolvable.2.1, kind⟩
  · rintro ⟨source, target, kind⟩
    exact ⟨⟨source.eq_endpointOf, target.eq_endpointOf⟩, kind⟩

end Endpoints

section Validation

theorem validateNotEmpty_eq_ok {field value : String} {u : Unit} :
    validateNotEmpty field value = .ok u ↔
      isBlank value = false ∧ containsUnsafeMetadataCharacters value = false := by
  simp [validateNotEmpty]

theorem validateMaximum_eq_ok {field value : String} {maximum : Nat} {u : Unit} :
    validateMaximum field value maximum = .ok u ↔ value.utf8ByteSize ≤ maximum := by
  simp [validateMaximum]

theorem validateContract_eq_ok {index : Nat} {contract : Option String} {u : Unit} :
    validateContract index contract = .ok u ↔ ∀ text ∈ contract,
      (isBlank text = false ∧ containsUnsafeMetadataCharacters text = false) ∧
        text.utf8ByteSize ≤ manualContractMaxBytes := by
  cases contract with
  | none => simp [validateContract]
  | some text => simp [validateContract, validateNotEmpty_eq_ok, validateMaximum_eq_ok]

theorem validateManualLink_place {link : ManualLinkConfig} (index index' : Nat) :
    validateManualLink index link = .ok () ↔ validateManualLink index' link = .ok () := by
  simp only [validateManualLink, bind_eq_ok, ensure_eq_ok, validateNotEmpty_eq_ok,
    validateMaximum_eq_ok, validateContract_eq_ok]

theorem validateManualLinks_eq_ok {links : List ManualLinkConfig} :
    validateManualLinks links = .ok () ↔
      (∀ link ∈ links, validateManualLink 0 link = .ok ()) ∧
        (links.map fun link => (link.fromNode, link.toNode, link.relation)).Nodup := by
  have checked : ∀ index link k (b : Unit),
      (do
        validateManualLink index link
        pure ((link.fromNode, link.toNode, link.relation), ())) = Except.ok (k, b) ↔
      validateManualLink 0 link = .ok () ∧ k = (link.fromNode, link.toNode, link.relation) ∧
        b = () := by
    intro index link k b
    simp only [bind_eq_ok, pure_eq_ok, Prod.mk.injEq]
    rw [validateManualLink_place 0 index]
    constructor
    · rintro ⟨⟨⟩, passed, rfl, -⟩
      exact ⟨passed, rfl, trivial⟩
    · rintro ⟨passed, rfl, -⟩
      exact ⟨(), passed, rfl, trivial⟩
  simp only [validateManualLinks, bind_eq_ok, pure_eq_ok]
  constructor
  · rintro ⟨results, claimed, -⟩
    obtain ⟨each, nodup, -⟩ := (claimFrom_eq_ok checked).1 claimed
    exact ⟨fun link mem => (each link mem).1, nodup⟩
  · rintro ⟨each, nodup⟩
    exact ⟨_, (claimFrom_eq_ok checked).2 ⟨fun link mem => ⟨each link mem, rfl⟩, nodup, rfl⟩, trivial⟩

end Validation

section Application

variable {stableId : String → String → String}

/-- What one declaration leaves in the audit records. -/
def decisionOf (stableId : String → String → String) (item : ResolvedManualLink) : LinkDecision :=
  manualLinkDecision item ⟨(manualLinkEvidence stableId item).id, .manual⟩
    (if item.link.suppress then .suppressed else .confirmed)

def edgeOf (stableId : String → String → String) (item : ResolvedManualLink) : Edge :=
  manualLinkEdge stableId item (manualLinkEvidence stableId item)

theorem length_filter_eq_zero {p : Edge → Bool} {edges : List Edge} :
    edges.length - (edges.filter p).length = 0 ↔ ∀ edge ∈ edges, p edge = true := by
  rw [Nat.sub_eq_zero_iff_le]
  constructor
  · intro le
    exact List.length_filter_eq_length_iff.1 (Nat.le_antisymm (List.length_filter_le _ _) le)
  · intro all
    rw [List.filter_eq_self.2 all]

theorem applyLinks_eq_ok :
    ∀ {items : List ResolvedManualLink} {base added : List Edge} {evidence : List Evidence}
      {decisions : List LinkDecision} {result : ManualLinkResolution},
      (items.Pairwise fun a b => ∀ edge, edgeMatches a edge = true → edgeMatches b edge = false) →
      (∀ item ∈ items, ∀ edge ∈ added, edgeMatches item edge = false) →
      (applyLinks stableId ⟨base ++ added, evidence, decisions⟩ items = .ok result ↔
        (∀ item ∈ items, item.link.suppress = true → ∃ edge ∈ base, edgeMatches item edge = true) ∧
        result =
          ⟨base.filter (fun edge => items.all fun item => !edgeMatches item edge) ++
              (added ++ (items.filter fun item => !item.link.suppress).map (edgeOf stableId)),
            evidence ++ items.map (manualLinkEvidence stableId),
            decisions ++ items.map (decisionOf stableId)⟩) := by
  intro items
  induction items with
  | nil =>
    intro base added evidence decisions result _ _
    simp only [applyLinks, Except.ok.injEq, List.not_mem_nil, false_imp_iff, implies_true, true_and,
      List.all_nil, List.filter_true, List.filter_nil, List.map_nil, List.append_nil]
    exact eq_comm
  | cons item items ih =>
    intro base added evidence decisions result apart outside
    obtain ⟨first, apart⟩ := List.pairwise_cons.1 apart
    obtain ⟨here, outside⟩ := List.forall_mem_cons.1 outside
    have untouched : added.filter (fun edge => !edgeMatches item edge) = added := by
      refine List.filter_eq_self.2 fun edge mem => ?_
      rw [here edge mem]
      rfl
    -- What later declarations look for is not among the edges that this one removes.
    have later : (∀ item' ∈ items, item'.link.suppress = true →
        ∃ edge ∈ base.filter (fun edge => !edgeMatches item edge), edgeMatches item' edge = true) ↔
        ∀ item' ∈ items, item'.link.suppress = true →
          ∃ edge ∈ base, edgeMatches item' edge = true := by
      refine forall₂_congr fun item' mem => imp_congr_right fun _ => ?_
      constructor
      · rintro ⟨edge, kept, found⟩
        exact ⟨edge, (List.mem_filter.1 kept).1, found⟩
      · rintro ⟨edge, known, found⟩
        refine ⟨edge, List.mem_filter.2 ⟨known, ?_⟩, found⟩
        cases hit : edgeMatches item edge with
        | false => rfl
        | true =>
          rw [first item' mem edge hit] at found
          cases found
    have filters : (base.filter fun edge => !edgeMatches item edge).filter
        (fun edge => items.all fun item => !edgeMatches item edge) =
        base.filter fun edge => (item :: items).all fun item => !edgeMatches item edge := by
      rw [List.filter_filter]
      simp only [List.all_cons, Bool.and_comm]
    rw [applyLinks]
    simp only [List.filter_append, untouched]
    cases suppress : item.link.suppress with
    | true =>
      have missing : ((base ++ added).length -
          (base.filter (fun edge => !edgeMatches item edge) ++ added).length = 0) ↔
          ¬∃ edge ∈ base, edgeMatches item edge = true := by
        have lengths : (base ++ added).length -
            (base.filter (fun edge => !edgeMatches item edge) ++ added).length =
            base.length - (base.filter fun edge => !edgeMatches item edge).length := by
          simp only [List.length_append]
          omega
        rw [lengths, length_filter_eq_zero]
        simp
      simp only [if_true]
      by_cases found : ∃ edge ∈ base, edgeMatches item edge = true
      · rw [if_neg (fun none => missing.1 none found), ih apart outside, later, filters,
          List.forall_mem_cons]
        simp [suppress, found, decisionOf]
      · rw [if_pos (missing.2 found), List.forall_mem_cons]
        simp [suppress, found]
    | false =>
      have fresh : ∀ item' ∈ items, ∀ edge ∈ added ++ [edgeOf stableId item],
          edgeMatches item' edge = false := by
        intro item' mem edge among
        cases List.mem_append.1 among with
        | inl old => exact outside item' mem edge old
        | inr new =>
          rw [List.mem_singleton.1 new]
          exact first item' mem _ (by simp [edgeMatches, edgeOf, manualLinkEdge])
      simp only [Bool.false_eq_true, if_false, List.append_assoc]
      rw [← edgeOf, ih apart fresh, later, filters, List.forall_mem_cons]
      simp [suppress, decisionOf]

end Application

section Whole

variable {stableId : String → String → String} {nodes : List Node}
variable {links links' : List ManualLinkConfig} {automatic automatic' : List Edge}

def itemTriple (item : ResolvedManualLink) : NodeId × NodeId × EdgeKind :=
  (item.source, item.target, item.link.relation)

theorem itemTriple_of_resolvedKey {item item' : ResolvedManualLink}
    (same : resolvedKey item = resolvedKey item') : itemTriple item = itemTriple item' := by
  simp only [resolvedKey, EmbeddingLike.apply_eq_iff_eq, Prod.mk.injEq] at same
  obtain ⟨source, target, relation, -⟩ := same
  have relation : item.link.relation = item'.link.relation := by
    revert relation
    cases item.link.relation <;> cases item'.link.relation <;> simp [EdgeKind.ctorIdx]
  simp [itemTriple, source, target, relation]

theorem pairwise_of_nodup {items : List ResolvedManualLink} (nodup : (items.map itemTriple).Nodup) :
    items.Pairwise fun a b => ∀ edge, edgeMatches a edge = true → edgeMatches b edge = false := by
  refine (List.pairwise_map.1 nodup).imp fun {a b} differ edge hit => ?_
  by_contra other
  rw [Bool.not_eq_false] at other
  simp only [edgeMatches, Bool.and_eq_true, beq_iff_eq] at hit other
  apply differ
  simp [itemTriple, ← hit.1.1, ← hit.1.2, ← hit.2, ← other.1.1, ← other.1.2, ← other.2]

/-- The declarations in the order of their relationships, without their places. -/
def ordered (nodes : List Node) (links : List ManualLinkConfig) : List ResolvedManualLink :=
  sortBy resolvedKey (links.map (resolvedAt nodes 0))

def edited (stableId : String → String → String) (nodes : List Node)
    (links : List ManualLinkConfig) (automatic : List Edge) : ManualLinkResolution where
  edges := sortBy Edge.id
    ((sortBy Edge.id automatic).filter (fun edge => decide (∀ link ∈ links, ¬Names nodes link edge)) ++
      ((ordered nodes links).filter fun item => !item.link.suppress).map (edgeOf stableId))
  evidence := sortBy Evidence.id ((ordered nodes links).map (manualLinkEvidence stableId))
  decisions := sortBy decisionKey ((ordered nodes links).map (decisionOf stableId))

def forgetPlace (item : ResolvedManualLink) : ResolvedManualLink := { item with index := 0 }

theorem map_forgetPlace_sorted :
    (sortBy resolvedKey (links.zipIdx.map fun entry => resolvedAt nodes entry.2 entry.1)).map
      forgetPlace = ordered nodes links := by
  have places : (links.zipIdx.map fun entry => resolvedAt nodes 0 entry.1) =
      (links.zipIdx.map Prod.fst).map (resolvedAt nodes 0) := by
    rw [List.map_map]
    rfl
  have sorted : ∀ items : List ResolvedManualLink,
      (sortBy resolvedKey items).map forgetPlace = sortBy resolvedKey (items.map forgetPlace) :=
    map_sortBy resolvedKey forgetPlace fun _ => rfl
  rw [sorted, List.map_map, ordered]
  exact congrArg _ (places.trans (by rw [List.zipIdx_map_fst]))

theorem nodup_triples (nodup : (links.map (tripleOf nodes)).Nodup) :
    ((links.map (resolvedAt nodes 0)).map itemTriple).Nodup := by
  rw [List.map_map]
  exact nodup

theorem applyLinks_sorted (resolvable : ∀ link ∈ links, Resolvable nodes link)
    (nodup : (links.map (tripleOf nodes)).Nodup) {result : ManualLinkResolution} :
    applyLinks stableId ⟨sortBy Edge.id automatic, [], []⟩
        (sortBy resolvedKey (links.zipIdx.map fun entry => resolvedAt nodes entry.2 entry.1)) =
          .ok result ↔
      (∀ link ∈ links, link.suppress = true → ∃ edge ∈ automatic, Names nodes link edge) ∧
      result =
        ⟨(sortBy Edge.id automatic).filter
            (fun edge => decide (∀ link ∈ links, ¬Names nodes link edge)) ++
          ((ordered nodes links).filter fun item => !item.link.suppress).map (edgeOf stableId),
          (ordered nodes links).map (manualLinkEvidence stableId),
          (ordered nodes links).map (decisionOf stableId)⟩ := by
  have members : ∀ item, item ∈ ordered nodes links ↔
      ∃ link ∈ links, resolvedAt nodes 0 link = item := by
    intro item
    rw [ordered, mem_sortBy, List.mem_map]
  have distinct : ((ordered nodes links).map itemTriple).Nodup := by
    refine (((sortBy_perm resolvedKey _).map itemTriple).nodup_iff).2 ?_
    rw [List.map_map]
    exact nodup
  rw [← map_forgetPlace_sorted] at members distinct ⊢
  generalize sortBy resolvedKey (links.zipIdx.map fun entry => resolvedAt nodes entry.2 entry.1) =
    items at members distinct ⊢
  rw [List.map_map] at distinct
  have apart := pairwise_of_nodup distinct
  have named : ∀ edge, (items.all fun item => !edgeMatches item edge) =
      decide (∀ link ∈ links, ¬Names nodes link edge) := by
    intro edge
    have place : (items.all fun item => !edgeMatches item edge) =
        (items.map forgetPlace).all fun item => !edgeMatches item edge := by
      rw [List.all_map]
      rfl
    rw [place, Bool.eq_iff_iff, List.all_eq_true, decide_eq_true_eq]
    simp only [members, forall_exists_index, and_imp, forall_apply_eq_imp_iff₂, Bool.not_eq_true']
    refine forall₂_congr fun link mem => ?_
    rw [← matches_resolvedAt (resolvable link mem) 0, Bool.not_eq_true]
  have suppressed : (∀ item ∈ items, item.link.suppress = true →
      ∃ edge ∈ sortBy Edge.id automatic, edgeMatches item edge = true) ↔
      ∀ link ∈ links, link.suppress = true → ∃ edge ∈ automatic, Names nodes link edge := by
    have place : (∀ item ∈ items, item.link.suppress = true →
        ∃ edge ∈ sortBy Edge.id automatic, edgeMatches item edge = true) ↔
        ∀ item ∈ items.map forgetPlace, item.link.suppress = true →
          ∃ edge ∈ sortBy Edge.id automatic, edgeMatches item edge = true := by
      rw [List.forall_mem_map]
      rfl
    rw [place]
    simp only [members, forall_exists_index, and_imp, forall_apply_eq_imp_iff₂, mem_sortBy]
    refine forall₂_congr fun link mem => imp_congr_right fun _ => exists_congr fun edge => ?_
    rw [matches_resolvedAt (resolvable link mem)]
  rw [← suppressed, ← List.append_nil (sortBy Edge.id automatic), applyLinks_eq_ok apart (by simp)]
  simp only [List.append_nil, named, List.nil_append, List.map_map, List.filter_map]
  rfl

theorem resolveManualLinks_eq_ok {result : ManualLinkResolution} :
    resolveManualLinks stableId links nodes automatic = .ok result ↔
      validateManualLinks links = .ok () ∧ (∀ link ∈ links, Resolvable nodes link) ∧
        (links.map (tripleOf nodes)).Nodup ∧
        (∀ link ∈ links, link.suppress = true → ∃ edge ∈ automatic, Names nodes link edge) ∧
        result = edited stableId nodes links automatic := by
  have valid : ∀ u, (validateManualLinks links).mapError ManualLinkError.invalidDeclaration = .ok u ↔
      validateManualLinks links = .ok () := by
    intro u
    cases validateManualLinks links <;> simp [Except.mapError]
  simp only [resolveManualLinks, bind_eq_ok, valid, pure_eq_ok, resolveEach_eq_ok, exists_const]
  refine and_congr_right fun _ => ?_
  constructor
  · rintro ⟨resolved, ⟨resolvable, nodup, rfl⟩, applied, done, rfl⟩
    obtain ⟨found, rfl⟩ := (applyLinks_sorted resolvable nodup).1 done
    exact ⟨resolvable, nodup, found, rfl⟩
  · rintro ⟨resolvable, nodup, found, rfl⟩
    exact ⟨_, ⟨resolvable, nodup, rfl⟩, _, (applyLinks_sorted resolvable nodup).2 ⟨found, rfl⟩, rfl⟩

theorem edited_congr (nodup : (links.map (tripleOf nodes)).Nodup) (perm : links'.Perm links)
    (distinct : (automatic.map Edge.id).Nodup) (perm' : automatic'.Perm automatic) :
    edited stableId nodes links' automatic' = edited stableId nodes links automatic := by
  have sorted : sortBy Edge.id automatic' = sortBy Edge.id automatic :=
    (sortBy_congr Edge.id perm'.symm distinct).symm
  have same : ordered nodes links' = ordered nodes links := by
    refine (sortBy_congr resolvedKey (perm.symm.map _) ?_).symm
    have triples := nodup_triples nodup
    rw [List.nodup_map_iff_inj_on (List.Nodup.of_map _ triples)]
    intro item mem item' mem' key
    exact List.inj_on_of_nodup_map triples mem mem' (itemTriple_of_resolvedKey key)
  have named : ∀ edge, (∀ link ∈ links', ¬Names nodes link edge) ↔
      ∀ link ∈ links, ¬Names nodes link edge := by
    intro edge
    simp only [perm.mem_iff]
  simp only [edited, sorted, same, named]

/-- Manual declarations over automatic edges as one edit: what they name goes, what they declare
comes, and each leaves one record and one decision. -/
structure DeclaredEdit (nodes : List Node) (links : List ManualLinkConfig) (automatic : List Edge)
    (result : ManualLinkResolution) : Prop where
  edges : ∃ manual, result.edges.Perm
      (automatic.filter (fun edge => decide (∀ link ∈ links, ¬Names nodes link edge)) ++ manual) ∧
    List.Forall₂ (fun link edge => Names nodes link edge ∧ edge.status = .confirmed ∧
      edge.confidence = .ofNat 1 ∧
      ∃ record ∈ result.evidence, edge.evidence = [record.id] ∧ record.provenance = .manual)
      (links.filter fun link => !link.suppress) manual
  suppressions : ∀ link ∈ links, link.suppress = true → ∃ edge ∈ automatic, Names nodes link edge
  evidence : ∃ records, result.evidence.Perm records ∧
    List.Forall₂ (fun link record => record.provenance = .manual ∧ record.note = some link.reason)
      links records
  decisions : ∃ decisions, result.decisions.Perm decisions ∧
    List.Forall₂ (fun link decision => ResolvesTo nodes link.fromNode decision.source ∧
      ResolvesTo nodes link.toNode decision.target ∧ decision.relation = link.relation ∧
      decision.status = if link.suppress then .suppressed else .confirmed) links decisions

theorem ordered_perm : (ordered nodes links).Perm (links.map (resolvedAt nodes 0)) :=
  sortBy_perm resolvedKey _

theorem edited_declaredEdit (resolvable : ∀ link ∈ links, Resolvable nodes link)
    (found : ∀ link ∈ links, link.suppress = true → ∃ edge ∈ automatic, Names nodes link edge) :
    DeclaredEdit nodes links automatic (edited stableId nodes links automatic) where
  edges := by
    refine ⟨(links.filter fun link => !link.suppress).map (edgeOf stableId ∘ resolvedAt nodes 0),
      ?_, ?_⟩
    · refine (sortBy_perm Edge.id _).trans (((sortBy_perm Edge.id _).filter _).append ?_)
      refine ((ordered_perm.filter _).map _).trans (List.Perm.of_eq ?_)
      rw [List.filter_map, List.map_map]
      rfl
    · rw [List.forall₂_map_right_iff, List.forall₂_same]
      intro link mem
      have mem := (List.mem_filter.1 mem).1
      refine ⟨?_, rfl, rfl, manualLinkEvidence stableId (resolvedAt nodes 0 link), ?_, rfl, rfl⟩
      · exact ⟨(resolvable link mem).1, (resolvable link mem).2.1, rfl⟩
      · rw [edited, mem_sortBy]
        exact List.mem_map_of_mem (ordered_perm.mem_iff.2 (List.mem_map_of_mem mem))
  suppressions := found
  evidence := by
    refine ⟨links.map (manualLinkEvidence stableId ∘ resolvedAt nodes 0), ?_, ?_⟩
    · refine (sortBy_perm Evidence.id _).trans ((ordered_perm.map _).trans (List.Perm.of_eq ?_))
      rw [List.map_map]
    · rw [List.forall₂_map_right_iff, List.forall₂_same]
      exact fun link _ => ⟨rfl, rfl⟩
  decisions := by
    refine ⟨links.map (decisionOf stableId ∘ resolvedAt nodes 0), ?_, ?_⟩
    · refine (sortBy_perm decisionKey _).trans ((ordered_perm.map _).trans (List.Perm.of_eq ?_))
      rw [List.map_map]
    · rw [List.forall₂_map_right_iff, List.forall₂_same]
      exact fun link mem => ⟨(resolvable link mem).1, (resolvable link mem).2.1, rfl, rfl⟩

/-- An accepted list of declarations is the declared edit, in whatever order it and the automatic
edges are given. -/
theorem resolveManualLinks_declared_edit (stableId : String → String → String)
    (links : List ManualLinkConfig) (nodes : List Node) (automatic : List Edge)
    (result : ManualLinkResolution)
    (accepted : resolveManualLinks stableId links nodes automatic = .ok result) :
    DeclaredEdit nodes links automatic result ∧
      ∀ links' automatic', links'.Perm links → automatic'.Perm automatic →
        (automatic.map Edge.id).Nodup →
        resolveManualLinks stableId links' nodes automatic' = .ok result := by
  obtain ⟨valid, resolvable, nodup, found, rfl⟩ := resolveManualLinks_eq_ok.1 accepted
  refine ⟨edited_declaredEdit resolvable found, ?_⟩
  intro links' automatic' perm perm' distinct
  obtain ⟨each, identities⟩ := validateManualLinks_eq_ok.1 valid
  refine resolveManualLinks_eq_ok.2 ⟨validateManualLinks_eq_ok.2 ⟨?_, ?_⟩, ?_, ?_, ?_, ?_⟩
  · exact fun link mem => each link (perm.mem_iff.1 mem)
  · exact ((perm.map _).nodup_iff).2 identities
  · exact fun link mem => resolvable link (perm.mem_iff.1 mem)
  · exact ((perm.map _).nodup_iff).2 nodup
  · intro link mem suppress
    obtain ⟨edge, known, names⟩ := found link (perm.mem_iff.1 mem) suppress
    exact ⟨edge, perm'.mem_iff.2 known, names⟩
  · exact (edited_congr nodup perm distinct perm').symm

def sampleNodes : List Node := ["a", "b", "c"].map fun id => ⟨id, .service, none, "key-" ++ id, id⟩

def sampleLinks : List ManualLinkConfig :=
  [⟨"a", "key-b", .callsRemote, none, "replace", false⟩, ⟨"b", "c", .consumes, none, "remove", true⟩]

def sampleEdges : List Edge :=
  [⟨"1", "a", "b", .callsRemote, .ofNat 0, .inferred, []⟩,
    ⟨"2", "b", "c", .consumes, .ofNat 0, .inferred, []⟩,
    ⟨"3", "a", "c", .consumes, .ofNat 0, .inferred, []⟩]

def sampleId (name key : String) : String := name ++ ":" ++ key

theorem resolveManualLinks_declared_edit_sample :
    ∃ result, resolveManualLinks sampleId sampleLinks sampleNodes sampleEdges = .ok result ∧
      DeclaredEdit sampleNodes sampleLinks sampleEdges result ∧
      resolveManualLinks sampleId sampleLinks.reverse sampleNodes sampleEdges.reverse =
        .ok result := by
  have accepted : isOkAnd (resolveManualLinks sampleId sampleLinks sampleNodes sampleEdges)
      (fun result => result.edges.length == 2) = true := by
    decide +kernel
  obtain ⟨result, accepted, -⟩ := isOkAnd_iff.1 accepted
  obtain ⟨edit, order⟩ := resolveManualLinks_declared_edit _ _ _ _ _ accepted
  exact ⟨result, accepted, edit, order _ _ (List.reverse_perm _) (List.reverse_perm _) (by decide)⟩

end Whole

end CodeSystemGraph.ManualLinks
