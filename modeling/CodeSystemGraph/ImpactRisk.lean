import CodeSystemGraph.ImpactReport

/-! The versioned risk model and the whole of `analyze_impact`. Weights are
single precision; the only weight that is not a constant or a capped multiple of
a small integer is the centrality product. -/

namespace CodeSystemGraph.Impact
open Ieee Model Ordered

inductive RiskLevel
  | low | medium | high | critical | unknown
deriving DecidableEq

structure RiskFactor where
  code : String
  weight : F32
  explanation : String
  evidence : List String
deriving DecidableEq

structure ImpactReport where
  riskModelVersion : String
  target : ResolvedTarget
  direction : ImpactDirection
  risk : RiskLevel
  riskScore : Option F32
  reasons : List RiskFactor
  directConsumers : List ImpactItem
  transitiveConsumers : List ImpactItem
  possiblyAffected : List ImpactItem
  unknownDueToCoverage : List ImpactItem
  affectedRepositories : List RepositoryImpact
  affectedServices : List ServiceImpact
  affectedContracts : List ContractImpact
  affectedCommunities : List CommunityImpact
  localImpactSummaries : List LocalImpactSummary
  testRecommendations : List TestRecommendation
  depthBuckets : List ImpactDepthBucket
  coverage : CoverageSummary
  truncation : Option TruncationInfo

def factor (code : String) (weight : F32) (explanation : String) (evidence : List String) :
    RiskFactor :=
  ⟨code, weight, explanation, sortedUnique evidence⟩

def usizeToF32 (value : Nat) : F32 := .ofNat (if value < 65536 then value else 65535)

/-- `usize_to_f32(count).mul_add(rate, 0.0).min(cap)`. -/
def capped (count : Nat) (rate : F32) (cap : Nat) : F32 :=
  Binary.min (Binary.mulAdd (usizeToF32 count) rate .zero) (.ofNat cap)

/-- `{:.3}` of a non-negative finite value: nearest thousandth, ties to even. -/
def threeDecimals (x : F32) : String :=
  let thousandths := Binary.roundHalfEven (x.magnitude * 1000) (Binary.scale ⟨8, 23⟩)
  let fraction := toString (thousandths % 1000)
  toString (thousandths / 1000) ++ "." ++
    String.ofList (List.replicate (3 - fraction.length) '0') ++ fraction

def directEvidence (items : List ImpactItem) : List String :=
  sortedUnique ((items.filter fun item =>
    item.classification = .directlyDependent).flatMap (·.evidence))

def compatibilityFactor (input : CompatibilityInput) : List RiskFactor :=
  match input.status with
  | .breaking => [factor "breaking_compatibility" (.ofNat 30)
      "a compatibility engine reported a breaking contract change" input.evidence]
  | .potentiallyBreaking => [factor "potentially_breaking_compatibility" (.ofNat 18)
      "a compatibility engine reported a potentially breaking change" input.evidence]
  | .compatible => []
  | .unknown => [factor "compatibility_unknown" .zero "compatibility coverage is unknown"
      (input.evidence ++ input.recommendedValidations)]

def tagFactor : CriticalityTag → String × F32
  | .critical => ("critical_tag", .ofNat 55)
  | .authentication => ("authentication_tag", .ofNat 35)
  | .security => ("security_tag", .ofNat 50)
  | .payment => ("payment_tag", .ofNat 50)
  | .dataBoundary => ("data_boundary_tag", .ofNat 45)

def tagName : CriticalityTag → String
  | .critical => "Critical"
  | .authentication => "Authentication"
  | .security => "Security"
  | .payment => "Payment"
  | .dataBoundary => "DataBoundary"

def criticalityFactor (assignment : CriticalityAssignment) : RiskFactor :=
  factor (tagFactor assignment.tag).1 (tagFactor assignment.tag).2
    ("explicit " ++ tagName assignment.tag ++ " tag applies to impacted node `" ++
      assignment.nodeId ++ "`") assignment.evidence

def ownerCount (impacted : BTreeSet NodeId) (context : ImpactContext) : Nat :=
  (Std.ExtTreeSet.ofList ((context.edges.filter fun edge =>
    edge.kind = .ownedBy ∧ edge.source ∈ impacted).map Edge.target) compare).size

section Assess

variable (target : Node) (items : List ImpactItem) (repositories : List RepositoryImpact)
  (services : List ServiceImpact) (contracts : List ContractImpact)
  (communities : List CommunityImpact) (tests : List TestRecommendation)
  (context : ImpactContext) (coverage : CoverageSummary) (truncation : Option TruncationInfo)

def factorWhen (condition : Bool) (present : RiskFactor) : List RiskFactor :=
  if condition then [present] else []

def consumerFactors : List RiskFactor :=
  let direct := (items.filter fun item => item.classification = .directlyDependent).length
  let transitive := (items.filter fun item => item.classification = .transitivelyAffected).length
  factorWhen (0 < direct) (factor "direct_consumers" (capped direct (.ofNat 4) 24)
    (toString direct ++ " confirmed direct dependents") (directEvidence items)) ++
  factorWhen (0 < transitive) (factor "transitive_fanout" (capped transitive (.ofDyadic 3 1) 15)
    (toString transitive ++ " confirmed transitive impacts") [])

def spreadFactors : List RiskFactor :=
  let repositoryIds : BTreeSet RepoId :=
    (Std.ExtTreeSet.ofList (repositories.map (·.repoId)) compare).insertMany target.repoId.toList
  factorWhen (1 < repositoryIds.size) (factor "cross_repository_count"
    (capped (repositoryIds.size - 1) (.ofNat 4) 16)
    ("impact spans " ++ toString repositoryIds.size ++ " repositories") repositoryIds.toList) ++
  factorWhen (!services.isEmpty) (factor "service_impact" (capped services.length (.ofNat 2) 10)
    ("impact reaches " ++ toString services.length ++ " services")
    (services.map (·.service.stableKey)))

def contractFactors : List RiskFactor :=
  let isPublic := contracts.filter (·.isPublic)
  let count := isPublic.length + if context.publicContracts.contains target.id then 1 else 0
  factorWhen (0 < count) (factor "public_contract" (.ofNat 12)
    (toString count ++ " explicitly public contracts are involved")
    (isPublic.map (·.contract.stableKey)))

def centralityFactors : List RiskFactor :=
  match context.centrality[target.id]? with
  | none => []
  | some centrality =>
    factorWhen (Binary.le (.ofDyadic 3 2) centrality) (factor "centrality"
      (Binary.mul centrality (.ofNat 12)) ("target centrality is " ++ threeDecimals centrality)
      [target.id])

def communityFactors : List RiskFactor :=
  let crossEdges := (communities.filter fun community => Binary.lt .zero community.coupling).length
  factorWhen (0 < crossEdges) (factor "community_process_fanout" (capped crossEdges (.ofNat 3) 9)
    (toString crossEdges ++ " affected communities cross structural boundaries")
    (communities.map (·.communityId)))

def validationFactors : List RiskFactor :=
  let environments : BTreeSet String := Std.ExtTreeSet.ofList
    ((context.environments.filter fun assignment =>
      (impactedIds target items).contains assignment.nodeId).map (·.environment)) compare
  factorWhen (tests.isEmpty && !items.isEmpty) (factor "missing_tests" (.ofNat 10)
    "no linked or locally supplied affected tests were found" []) ++
  factorWhen (ownerCount (impactedIds target items) context == 0 && !items.isEmpty)
    (factor "missing_owners" (.ofNat 8)
      "no Owner node is linked by OwnedBy to an impacted node" []) ++
  factorWhen (1 < environments.size) (factor "cross_environment" (.ofNat 10)
    ("impact spans " ++ toString environments.size ++ " explicit environments")
    environments.toList)

def coverageFactors : List RiskFactor :=
  factorWhen (!coverage.sufficientForScore) (factor "coverage_unknown" .zero
    "coverage is insufficient for a numeric risk conclusion" coverage.gaps) ++
  match truncation with
  | none => []
  | some info => [factor "truncated" .zero info.explanation
      [info.bound ++ "=" ++ toString info.limit]]

/-- Heaviest first. No weight is NaN, so comparing values is `partial_cmp`. -/
def factorKey (f : RiskFactor) : Int ×ₗ String ×ₗ String :=
  toLex (-f.weight.value, toLex (f.code, f.explanation))

def riskFactors : List RiskFactor :=
  sortBy factorKey
    (consumerFactors items ++ spreadFactors target repositories services ++
      contractFactors target contracts context ++
      (context.compatibility.filter fun input =>
        (impactedIds target items).contains input.contractNodeId).flatMap compatibilityFactor ++
      centralityFactors target context ++ communityFactors communities ++
      (context.criticality.filter fun assignment =>
        (impactedIds target items).contains assignment.nodeId).map criticalityFactor ++
      validationFactors target items tests context ++ coverageFactors coverage truncation)

def clampScore (score : F32) : F32 :=
  if score.lt (.ofNat 1) then .ofNat 1
  else if Binary.lt (.ofNat 100) score then .ofNat 100 else score

def explicitCritical (factors : List RiskFactor) : Bool :=
  factors.any fun f =>
    ["critical_tag", "security_tag", "payment_tag", "data_boundary_tag"].contains f.code &&
      !f.evidence.isEmpty

def assessRisk : RiskLevel × Option F32 × List RiskFactor :=
  let factors := riskFactors target items repositories services contracts communities tests context
    coverage truncation
  if !coverage.sufficientForScore then (.unknown, none, factors)
  else
    let score := clampScore ((factors.map (·.weight)).foldl Binary.add .zero)
    let level : RiskLevel :=
      if Binary.le (.ofNat 85) score && explicitCritical factors then .critical
      else if Binary.le (.ofNat 50) score then .high
      else if Binary.le (.ofNat 25) score then .medium
      else .low
    (level, some score, factors)

end Assess

/-- The report for given items, everything after the traversal. -/
def buildReport (request : ImpactRequest) (context : ImpactContext) (nodes : NodeIndex)
    (target : ResolvedTarget) (traversal : Traversal) : ImpactReport :=
  let items := sortItems traversal.items
  let repositories := aggregateRepositories items
  let services := aggregateServices items context nodes
  let contracts := aggregateContracts items context
  let communities := aggregateCommunities items context
  let tests := recommendTests items context nodes
  let coverage := coverageSummary target.node items context traversal.truncation
    traversal.possibleEdges traversal.unknownEdges
  let assessed := assessRisk target.node items repositories services contracts communities tests
    context coverage traversal.truncation
  let page :=
    if request.options.summaryOnly then []
    else (items.drop (min request.options.offset items.length)).take request.options.limit
  let only := fun classification => page.filter fun item => item.classification = classification
  { riskModelVersion := "1.0.0"
    target := target
    direction := request.direction
    risk := assessed.1
    riskScore := assessed.2.1
    reasons := assessed.2.2
    directConsumers := only .directlyDependent
    transitiveConsumers := only .transitivelyAffected
    possiblyAffected := only .possiblyAffected
    unknownDueToCoverage := only .unknownDueToCoverage
    affectedRepositories := repositories
    affectedServices := services
    affectedContracts := contracts
    affectedCommunities := communities
    localImpactSummaries := summarizeLocalEnrichment context
    testRecommendations := tests
    depthBuckets := if request.options.includeDepthBuckets then buildDepthBuckets items else []
    coverage := coverage
    truncation := traversal.truncation }

def analyzeImpact (request : ImpactRequest) (context : ImpactContext) :
    Except ImpactError ImpactReport := do
  let nodes ← validateContext request context
  let target ← resolveTarget request.target nodes
  let traversal ← traverse request context nodes target.node
  pure (buildReport request context nodes target traversal)

end CodeSystemGraph.Impact
