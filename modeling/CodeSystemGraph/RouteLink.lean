import CodeSystemGraph.RouteAuthority
import CodeSystemGraph.RouteTrie

/-! Linking of consumers, tests and implementation anchors to providers. The
identifier of an edge comes from a hash, taken as the parameter `stableId`. -/

namespace CodeSystemGraph.Routes
open Ieee Model Ordered Text

inductive RouteResolution
  | unique (provider : HttpBoundary)
  | ambiguous (candidates : List HttpBoundary)
  | unmatched

/-- The acceptance predicate of a restriction, which looks at the repository only. -/
def acceptsFor (restriction : Option RepoId) (repository : Option RepoId) : Bool :=
  match restriction with
  | some required => repository = some required
  | none => true

/-- A single provider in the caller's own repository wins over several. -/
def narrowToCaller (caller : Option RepoId) (found : List HttpBoundary) : List HttpBoundary :=
  match caller with
  | none => found
  | some caller =>
    let own := found.filter fun provider => provider.node.repoId = some caller
    if 1 < found.length ∧ own.length = 1 then own else found

def RouteResolution.ofFound : List HttpBoundary → RouteResolution
  | [] => .unmatched
  | [provider] => .unique provider
  | found => .ambiguous found

def RouteIndex.resolve (index : RouteIndex) (method path : String)
    (caller restriction : Option RepoId) : RouteResolution :=
  let found := index.find method (fun provider => acceptsFor restriction provider.node.repoId)
    (RouteShape.parse path).segments
  .ofFound (narrowToCaller caller found)

inductive Restriction
  | workspace
  | strict (repository : RepoId)
  | preferred (repository : RepoId)
  | external

def scopeRestriction (scope : CallScope) (caller : Option RepoId) (authorities : AuthorityMap) :
    Restriction :=
  match scope with
  | .workspace => .workspace
  | .inProcess => caller.elim .workspace .strict
  | .authority authority =>
    match authorities.lookup authority with
    | .workspace => .workspace
    | .declared repository => .strict repository
    | .inferred repository => .preferred repository
    | .external => .external
  | .external => .external

inductive CallResolution
  | route (resolution : RouteResolution)
  | external

def resolveCall (index : RouteIndex) (method path : String) (caller : Option RepoId)
    (scope : CallScope) (authorities : AuthorityMap) : CallResolution :=
  match scopeRestriction scope caller authorities with
  | .workspace => .route (index.resolve method path caller none)
  | .strict repository => .route (index.resolve method path caller (some repository))
  | .preferred repository =>
    match index.resolve method path caller (some repository) with
    | .unmatched => .route (index.resolve method path caller none)
    | resolution => .route resolution
  | .external => .external

def RouteResolution.candidates : RouteResolution → List HttpBoundary
  | .unique provider => [provider]
  | .ambiguous candidates => candidates
  | .unmatched => []

def CallResolution.candidates : CallResolution → List HttpBoundary
  | .route resolution => resolution.candidates
  | .external => []

structure DeclaredTestCase where
  node : Node
  method : String
  path : String
  scope : CallScope
  evidence : Evidence

structure DeclaredImplementation where
  node : Node
  method : String
  path : String
  evidence : Evidence

structure RemoteCall where
  node : Node
  method : String
  path : String
  scope : CallScope
  evidence : Evidence
  kind : EdgeKind
  relation : String

structure HttpLinkAmbiguity where
  method : String
  path : String
  candidates : List String
deriving DecidableEq

inductive HttpLinkGapReason
  | noProvider | ambiguous | external
deriving DecidableEq

structure HttpLinkGap where
  caller : NodeId
  method : String
  path : String
  reason : HttpLinkGapReason
  candidates : List NodeId
deriving DecidableEq

structure HttpLinkCoverage where
  linked : Nat
  noProvider : Nat
  ambiguous : Nat
  external : Nat
deriving DecidableEq

structure HttpLinkReport where
  coverage : HttpLinkCoverage
  gaps : List HttpLinkGap
deriving DecidableEq

structure HttpLinkResolution where
  edges : List Edge
  ambiguities : List HttpLinkAmbiguity
  report : HttpLinkReport

structure LinkSink where
  edges : BTreeMap EdgeId Edge
  ambiguities : List HttpLinkAmbiguity
  report : HttpLinkReport

def consensusStatus (confidence : F32) : EpistemicStatus :=
  if Binary.le (.ofNat 1) confidence then .confirmed else .inferred

def mergeEquivalentEdge (existing candidate : Edge) : Edge :=
  let confidence := existing.confidence.max candidate.confidence
  { existing with
    confidence := confidence
    status := consensusStatus confidence
    evidence := sortedUnique (existing.evidence ++ candidate.evidence) }

def addEdge (edges : BTreeMap EdgeId Edge) (edge : Edge) : BTreeMap EdgeId Edge :=
  edges.alter edge.id fun
    | none => some edge
    | some existing => some (mergeEquivalentEdge existing edge)

def httpLinkAmbiguity (method path : String) (candidates : List HttpBoundary) :
    HttpLinkAmbiguity :=
  ⟨method, path, sortedUnique (candidates.map (·.node.id))⟩

def HttpLinkGapReason.rank : HttpLinkGapReason → Nat
  | .noProvider => 0
  | .ambiguous => 1
  | .external => 2

def HttpLinkGap.key (gap : HttpLinkGap) : NodeId ×ₗ String ×ₗ String ×ₗ Nat ×ₗ List NodeId :=
  toLex (gap.caller, toLex (gap.method, toLex (gap.path, toLex (gap.reason.rank, gap.candidates))))

def HttpLinkAmbiguity.key (ambiguity : HttpLinkAmbiguity) : String ×ₗ String ×ₗ List String :=
  toLex (ambiguity.method, toLex (ambiguity.path, ambiguity.candidates))

def HttpLinkCoverage.count (coverage : HttpLinkCoverage) : HttpLinkGapReason → HttpLinkCoverage
  | .noProvider => { coverage with noProvider := coverage.noProvider + 1 }
  | .ambiguous => { coverage with ambiguous := coverage.ambiguous + 1 }
  | .external => { coverage with external := coverage.external + 1 }

def HttpLinkCoverage.total (coverage : HttpLinkCoverage) : Nat :=
  coverage.linked + coverage.noProvider + coverage.ambiguous + coverage.external

section Link

variable (stableId : String → String → String)

def linkEdge (source target : NodeId) (kind : EdgeKind) (relation : String) (confidence : F32)
    (evidence : List EvidenceId) : Edge where
  id := stableId "edge" (source ++ ":" ++ relation ++ ":" ++ target)
  source := source
  target := target
  kind := kind
  confidence := confidence
  status := consensusStatus confidence
  evidence := evidence

namespace LinkSink

def new : LinkSink := ⟨∅, [], ⟨⟨0, 0, 0, 0⟩, []⟩⟩

def link (sink : LinkSink) (edge : Edge) : LinkSink :=
  { sink with edges := addEdge sink.edges edge }

def countLinked (sink : LinkSink) : LinkSink :=
  { sink with
    report := { sink.report with
      coverage := { sink.report.coverage with linked := sink.report.coverage.linked + 1 } } }

def ambiguous (sink : LinkSink) (method path : String) (candidates : List HttpBoundary) :
    LinkSink :=
  { sink with ambiguities := sink.ambiguities ++ [httpLinkAmbiguity method path candidates] }

def gap (sink : LinkSink) (call : RemoteCall) (reason : HttpLinkGapReason)
    (candidates : List HttpBoundary) : LinkSink :=
  { sink with
    report :=
      { coverage := sink.report.coverage.count reason
        gaps := sink.report.gaps ++ [⟨call.node.id, call.method, call.path, reason,
          sortedUnique (candidates.map (·.node.id))⟩] } }

def finish (sink : LinkSink) : HttpLinkResolution where
  edges := values sink.edges
  ambiguities := sortDedup HttpLinkAmbiguity.key sink.ambiguities
  report := { sink.report with gaps := sortDedup HttpLinkGap.key sink.report.gaps }

end LinkSink

def linkRemoteCall (index : RouteIndex) (authorities : AuthorityMap) (sink : LinkSink)
    (call : RemoteCall) : LinkSink :=
  match resolveCall index call.method call.path call.node.repoId call.scope authorities with
  | .route (.unique provider) =>
    sink.countLinked.link (linkEdge stableId call.node.id provider.node.id call.kind call.relation
      (call.evidence.confidence.min provider.evidence.confidence)
      [call.evidence.id, provider.evidence.id])
  | .route (.ambiguous candidates) =>
    (sink.ambiguous call.method call.path candidates).gap call .ambiguous candidates
  | .route .unmatched => sink.gap call .noProvider []
  | .external => sink.gap call .external []

def linkImplementation (index : RouteIndex) (sink : LinkSink)
    (implementation : DeclaredImplementation) : LinkSink :=
  match implementation.node.repoId with
  | none => sink
  | some repository =>
    match index.resolve implementation.method implementation.path (some repository)
        (some repository) with
    | .unique provider =>
      sink.link (linkEdge stableId provider.node.id implementation.node.id .implementedBy
        "implemented_by" (provider.evidence.confidence.min implementation.evidence.confidence)
        [provider.evidence.id, implementation.evidence.id])
    | .ambiguous candidates =>
      sink.ambiguous implementation.method implementation.path candidates
    | .unmatched => sink

def consumerCall (consumer : HttpBoundary) : RemoteCall :=
  ⟨consumer.node, consumer.method, consumer.path, consumer.scope, consumer.evidence,
    .callsRemote, "calls_remote"⟩

def testCall (test : DeclaredTestCase) : RemoteCall :=
  ⟨test.node, test.method, test.path, test.scope, test.evidence, .validates, "validates"⟩

def isConsumer (boundary : HttpBoundary) : Bool := boundary.role = .consumer

def remoteCalls (boundaries : List HttpBoundary) (tests : List DeclaredTestCase) :
    List RemoteCall :=
  (boundaries.filter isConsumer).map consumerCall ++ tests.map testCall

def linkHttpRoutes (boundaries : List HttpBoundary) (tests : List DeclaredTestCase)
    (implementations : List DeclaredImplementation) (authorities : AuthorityMap) :
    HttpLinkResolution :=
  let index := RouteIndex.new boundaries
  let sink := (remoteCalls boundaries tests).foldl (linkRemoteCall stableId index authorities) .new
  (implementations.foldl (linkImplementation stableId index) sink).finish

/-! What one call or implementation adds, apart from the sink that receives it. -/

variable (index : RouteIndex) (authorities : AuthorityMap)

def callEdges (call : RemoteCall) : List Edge :=
  match resolveCall index call.method call.path call.node.repoId call.scope authorities with
  | .route (.unique provider) =>
    [linkEdge stableId call.node.id provider.node.id call.kind call.relation
      (call.evidence.confidence.min provider.evidence.confidence)
      [call.evidence.id, provider.evidence.id]]
  | _ => []

def callAmbiguities (call : RemoteCall) : List HttpLinkAmbiguity :=
  match resolveCall index call.method call.path call.node.repoId call.scope authorities with
  | .route (.ambiguous candidates) => [httpLinkAmbiguity call.method call.path candidates]
  | _ => []

def callGaps (call : RemoteCall) : List HttpLinkGap :=
  match resolveCall index call.method call.path call.node.repoId call.scope authorities with
  | .route (.unique _) => []
  | .route (.ambiguous candidates) =>
    [⟨call.node.id, call.method, call.path, .ambiguous,
      sortedUnique (candidates.map (·.node.id))⟩]
  | .route .unmatched => [⟨call.node.id, call.method, call.path, .noProvider, []⟩]
  | .external => [⟨call.node.id, call.method, call.path, .external, []⟩]

def implementationEdges (implementation : DeclaredImplementation) : List Edge :=
  match implementation.node.repoId with
  | none => []
  | some repository =>
    match index.resolve implementation.method implementation.path (some repository)
        (some repository) with
    | .unique provider =>
      [linkEdge stableId provider.node.id implementation.node.id .implementedBy "implemented_by"
        (provider.evidence.confidence.min implementation.evidence.confidence)
        [provider.evidence.id, implementation.evidence.id]]
    | _ => []

def implementationAmbiguities (implementation : DeclaredImplementation) : List HttpLinkAmbiguity :=
  match implementation.node.repoId with
  | none => []
  | some repository =>
    match index.resolve implementation.method implementation.path (some repository)
        (some repository) with
    | .ambiguous candidates =>
      [httpLinkAmbiguity implementation.method implementation.path candidates]
    | _ => []

def countGaps (reason : HttpLinkGapReason) (gaps : List HttpLinkGap) : Nat :=
  gaps.countP fun gap => gap.reason = reason

def coverageOf (linked : Nat) (gaps : List HttpLinkGap) : HttpLinkCoverage :=
  ⟨linked, countGaps .noProvider gaps, countGaps .ambiguous gaps, countGaps .external gaps⟩

variable {stableId index authorities}

theorem coverageOf_concat (linked : Nat) (gaps : List HttpLinkGap) (gap : HttpLinkGap) :
    coverageOf linked (gaps ++ [gap]) = (coverageOf linked gaps).count gap.reason := by
  cases reason : gap.reason <;> simp [coverageOf, countGaps, HttpLinkCoverage.count, reason]

theorem foldl_linkRemoteCall (calls : List RemoteCall) :
    calls.foldl (linkRemoteCall stableId index authorities) .new =
      { edges := (calls.flatMap (callEdges stableId index authorities)).foldl addEdge ∅
        ambiguities := calls.flatMap (callAmbiguities index authorities)
        report :=
          { coverage := coverageOf (calls.flatMap (callEdges stableId index authorities)).length
              (calls.flatMap (callGaps index authorities))
            gaps := calls.flatMap (callGaps index authorities) } } := by
  induction calls using List.reverseRecOn with
  | nil => rfl
  | append_singleton calls call ih =>
    rw [List.foldl_append, List.foldl_cons, List.foldl_nil, ih]
    simp only [List.flatMap_append, List.flatMap_singleton, linkRemoteCall, callEdges,
      callAmbiguities, callGaps]
    rcases resolveCall index call.method call.path call.node.repoId call.scope authorities with
      (provider | candidates | _) | _
    · simp [LinkSink.countLinked, LinkSink.link, coverageOf]
    · simp [LinkSink.ambiguous, LinkSink.gap, coverageOf_concat]
    · simp [LinkSink.gap, coverageOf_concat]
    · simp [LinkSink.gap, coverageOf_concat]

theorem foldl_linkImplementation (implementations : List DeclaredImplementation)
    (sink : LinkSink) :
    implementations.foldl (linkImplementation stableId index) sink =
      { sink with
        edges := (implementations.flatMap (implementationEdges stableId index)).foldl addEdge
          sink.edges
        ambiguities := sink.ambiguities ++
          implementations.flatMap (implementationAmbiguities index) } := by
  induction implementations generalizing sink with
  | nil => simp
  | cons implementation rest ih =>
    rw [List.foldl_cons, ih]
    simp only [List.flatMap_cons, List.foldl_append, linkImplementation, implementationEdges,
      implementationAmbiguities]
    cases implementation.node.repoId with
    | none => simp
    | some repository =>
      dsimp only
      cases index.resolve implementation.method implementation.path (some repository)
        (some repository) <;> simp [LinkSink.link, LinkSink.ambiguous]

variable (stableId index authorities)

def allEdges (boundaries : List HttpBoundary) (tests : List DeclaredTestCase)
    (implementations : List DeclaredImplementation) (authorities : AuthorityMap) : List Edge :=
  (remoteCalls boundaries tests).flatMap (callEdges stableId (.new boundaries) authorities) ++
    implementations.flatMap (implementationEdges stableId (.new boundaries))

def allAmbiguities (boundaries : List HttpBoundary) (tests : List DeclaredTestCase)
    (implementations : List DeclaredImplementation) (authorities : AuthorityMap) :
    List HttpLinkAmbiguity :=
  (remoteCalls boundaries tests).flatMap (callAmbiguities (.new boundaries) authorities) ++
    implementations.flatMap (implementationAmbiguities (.new boundaries))

def allGaps (boundaries : List HttpBoundary) (tests : List DeclaredTestCase)
    (authorities : AuthorityMap) : List HttpLinkGap :=
  (remoteCalls boundaries tests).flatMap (callGaps (.new boundaries) authorities)

variable {stableId}

/-- The result is a function of the separate contributions. -/
theorem linkHttpRoutes_eq (boundaries : List HttpBoundary) (tests : List DeclaredTestCase)
    (implementations : List DeclaredImplementation) (authorities : AuthorityMap) :
    linkHttpRoutes stableId boundaries tests implementations authorities =
      { edges := values
          ((allEdges stableId boundaries tests implementations authorities).foldl addEdge ∅)
        ambiguities := sortDedup HttpLinkAmbiguity.key
          (allAmbiguities boundaries tests implementations authorities)
        report :=
          { coverage := coverageOf ((remoteCalls boundaries tests).flatMap
              (callEdges stableId (.new boundaries) authorities)).length
              (allGaps boundaries tests authorities)
            gaps := sortDedup HttpLinkGap.key (allGaps boundaries tests authorities) } } := by
  simp only [linkHttpRoutes, foldl_linkRemoteCall, foldl_linkImplementation, LinkSink.finish,
    allEdges, allAmbiguities, allGaps, List.foldl_append]

/-- Every call is linked or leaves one gap. -/
theorem callEdges_length_add (call : RemoteCall) :
    (callEdges stableId index authorities call).length +
      (callGaps index authorities call).length = 1 := by
  unfold callEdges callGaps
  rcases resolveCall index call.method call.path call.node.repoId call.scope authorities with
    (provider | candidates | _) | _ <;> rfl

theorem countGaps_total (gaps : List HttpLinkGap) :
    countGaps .noProvider gaps + countGaps .ambiguous gaps + countGaps .external gaps =
      gaps.length := by
  induction gaps with
  | nil => rfl
  | cons gap gaps ih =>
    simp only [countGaps, List.countP_cons, List.length_cons] at ih ⊢
    cases gap.reason <;> simp <;> omega

theorem coverage_total (calls : List RemoteCall) :
    (calls.flatMap (callEdges stableId index authorities)).length +
      (calls.flatMap (callGaps index authorities)).length = calls.length := by
  induction calls with
  | nil => rfl
  | cons call calls ih =>
    have one := @callEdges_length_add stableId index authorities call
    simp only [List.flatMap_cons, List.length_append, List.length_cons]
    omega

end Link

section Scopes

variable {boundaries : List HttpBoundary} {method path : String} {caller : Option RepoId}

theorem narrowToCaller_subset (caller : Option RepoId) (found : List HttpBoundary) :
    narrowToCaller caller found ⊆ found := by
  unfold narrowToCaller
  split
  · exact List.Subset.refl _
  · dsimp only
    split
    · exact List.filter_subset_self _
    · exact List.Subset.refl _

theorem candidates_ofFound (found : List HttpBoundary) :
    (RouteResolution.ofFound found).candidates = found := by
  rcases found with _ | ⟨provider, _ | ⟨second, rest⟩⟩ <;> rfl

/-- A resolution names providers that the restriction accepts. -/
theorem resolve_candidates {restriction : Option RepoId} {provider : HttpBoundary}
    (mem : provider ∈
      ((RouteIndex.new boundaries).resolve method path caller restriction).candidates) :
    (provider ∈ boundaries ∧ provider.role = .provider) ∧
      acceptsFor restriction provider.node.repoId = true := by
  rw [RouteIndex.resolve, candidates_ofFound] at mem
  have found := narrowToCaller_subset _ _ mem
  rw [RouteIndex.find_new] at found
  obtain ⟨accepted, template, stored, -⟩ := find_sound _ _ found
  obtain ⟨⟨stored, role, -⟩, -⟩ := mem_routesOf.mp stored
  exact ⟨⟨stored, role⟩, accepted⟩

/-- The scopes that name one repository. -/
def StrictlyScoped (authorities : AuthorityMap) (scope : CallScope) (caller : Option RepoId)
    (repository : RepoId) : Prop :=
  (scope = .inProcess ∧ caller = some repository) ∨
  ∃ authority, scope = .authority authority ∧
    isLoopback (authorityHost authority.toList) = false ∧
    authorities.declared[authority]?.or
      authorities.declared[String.ofList (authorityHost authority.toList)]? = some repository

theorem scopeRestriction_strict {authorities : AuthorityMap} {scope : CallScope}
    {repository : RepoId} (strict : StrictlyScoped authorities scope caller repository) :
    scopeRestriction scope caller authorities = .strict repository := by
  rcases strict with ⟨rfl, rfl⟩ | ⟨authority, rfl, away, declared⟩
  · rfl
  · simp [scopeRestriction, AuthorityMap.lookup, away, declared]

theorem resolveCall_strict {authorities : AuthorityMap} {scope : CallScope}
    {repository : RepoId} (strict : StrictlyScoped authorities scope caller repository)
    {provider : HttpBoundary}
    (mem : provider ∈
      (resolveCall (.new boundaries) method path caller scope authorities).candidates) :
    provider ∈ boundaries ∧ provider.role = .provider ∧ provider.node.repoId = some repository := by
  rw [resolveCall, scopeRestriction_strict strict] at mem
  obtain ⟨⟨stored, role⟩, accepted⟩ := resolve_candidates mem
  exact ⟨stored, role, by simpa [acceptsFor] using accepted⟩

theorem resolveCall_candidates {authorities : AuthorityMap} {scope : CallScope}
    {provider : HttpBoundary}
    (mem : provider ∈
      (resolveCall (.new boundaries) method path caller scope authorities).candidates) :
    provider ∈ boundaries ∧ provider.role = .provider := by
  unfold resolveCall at mem
  split at mem
  · exact (resolve_candidates mem).1
  · exact (resolve_candidates mem).1
  · split at mem
    · exact (resolve_candidates mem).1
    · exact (resolve_candidates mem).1
  · simp [CallResolution.candidates] at mem

end Scopes

end CodeSystemGraph.Routes
