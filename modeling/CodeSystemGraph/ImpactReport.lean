import CodeSystemGraph.ImpactTraversal

/-! The parts of an impact report computed from the items: aggregates, test
recommendations, depth buckets and the coverage summary. The functions follow
the source one by one, with their texts; counters that the source adds with
saturation are natural numbers. -/

namespace CodeSystemGraph.Impact
open Ieee Model Ordered

structure RepositoryImpact where
  repoId : RepoId
  classification : ImpactClassification
  minimumDepth : Nat
  affectedNodes : Nat

structure ServiceImpact where
  service : Node
  classification : ImpactClassification
  minimumDepth : Nat
  affectedNodes : Nat

structure ContractImpact where
  contract : Node
  classification : ImpactClassification
  depth : Nat
  isPublic : Bool

structure CommunityImpact where
  communityId : CommunityId
  label : String
  classification : ImpactClassification
  affectedMembers : Nat
  coupling : F64
  limitations : List String

structure LocalImpactSummary where
  repoId : RepoId
  anchor : String
  status : LocalEnrichmentStatus
  affectedCount : Nat
  maximumDepth : Nat
  truncated : Bool
  degradations : List String

inductive TestRecommendationSource
  | graph | localEnrichment
deriving DecidableEq

structure TestRecommendation where
  testNodeId : Option NodeId
  test : String
  repoId : Option RepoId
  source : TestRecommendationSource
  rank : Nat
  reasons : List String
  owners : List Node
  recommendedCommands : List String
deriving DecidableEq

structure CoverageSummary where
  sufficientForScore : Bool
  relevantRepositories : List RepoId
  freshRepositories : List RepoId
  staleRepositories : List RepoId
  partialRepositories : List RepoId
  unavailableRepositories : List RepoId
  missingRepositories : List RepoId
  possibleEdges : Nat
  unknownEdges : Nat
  gaps : List String
  remediation : List String
  totalItems : Nat

structure ImpactDepthBucket where
  depth : Nat
  directlyDependent : Nat
  transitivelyAffected : Nat
  possiblyAffected : Nat
  unknownDueToCoverage : Nat

def classificationRank : ImpactClassification → Nat
  | .directlyDependent => 0
  | .transitivelyAffected => 1
  | .possiblyAffected => 2
  | .unknownDueToCoverage => 3

def stronger (left right : ImpactClassification) : ImpactClassification :=
  if classificationRank left ≤ classificationRank right then left else right

def pathKey (path : List ImpactPathStep) : List (EdgeId ×ₗ Bool) :=
  path.map fun step => toLex (step.edgeId, step.reversed)

/-- `Option` in the order of the source: `None` before `Some`. -/
def optionKey (value : Option String) : Bool ×ₗ String := toLex (value.isSome, value.getD "")

def itemKey (item : ImpactItem) :
    Nat ×ₗ Nat ×ₗ (Bool ×ₗ String) ×ₗ String ×ₗ NodeId ×ₗ List (EdgeId ×ₗ Bool) :=
  toLex (classificationRank item.classification, toLex (item.depth,
    toLex (optionKey item.node.repoId, toLex (item.node.stableKey,
      toLex (item.node.id, pathKey item.path)))))

def sortItems (items : List ImpactItem) : List ImpactItem := sortBy itemKey items

structure Aggregate where
  classification : ImpactClassification
  minimumDepth : Nat
  affectedNodes : Nat

def updateAggregate (aggregates : BTreeMap String Aggregate) (key : String) (item : ImpactItem) :
    BTreeMap String Aggregate :=
  aggregates.alter key fun
    | some aggregate => some
        { classification := stronger aggregate.classification item.classification
          minimumDepth := min aggregate.minimumDepth item.depth
          affectedNodes := aggregate.affectedNodes + 1 }
    | none => some ⟨item.classification, item.depth, 1⟩

def aggregateRepositories (items : List ImpactItem) : List RepositoryImpact :=
  let aggregates := items.foldl (fun aggregates item =>
    match item.node.repoId with
    | none => aggregates
    | some repoId => updateAggregate aggregates repoId item) ∅
  aggregates.toList.map fun (repoId, aggregate) =>
    ⟨repoId, aggregate.classification, aggregate.minimumDepth, aggregate.affectedNodes⟩

def aggregateServices (items : List ImpactItem) (context : ImpactContext) (nodes : NodeIndex) :
    List ServiceImpact :=
  let aggregates := items.foldl (fun aggregates item =>
    let aggregates :=
      if item.node.kind = .service then updateAggregate aggregates item.node.id item else aggregates
    (context.serviceMemberships[item.node.id]?.getD []).foldl
      (fun aggregates serviceId => updateAggregate aggregates serviceId item) aggregates) ∅
  aggregates.toList.filterMap fun (serviceId, aggregate) =>
    nodes[serviceId]?.map fun service =>
      ⟨service, aggregate.classification, aggregate.minimumDepth, aggregate.affectedNodes⟩

def isContract (kind : NodeKind) : Bool :=
  match kind with
  | .httpOperation | .graphqlOperation | .rpcMethod | .eventChannel | .eventSchema
  | .databaseTable | .databaseColumn | .configKey => true
  | _ => false

def aggregateContracts (items : List ImpactItem) (context : ImpactContext) :
    List ContractImpact :=
  (items.filter fun item => isContract item.node.kind).map fun item =>
    ⟨item.node, item.classification, item.depth, context.publicContracts.contains item.node.id⟩

abbrev ImpactedIndex := BTreeMap NodeId ImpactItem

def impactedIndex (items : List ImpactItem) : ImpactedIndex :=
  items.foldl (fun index item => index.insert item.node.id item) ∅

def aggregateMember (impacted : ImpactedIndex) (aggregate : Option Aggregate) (member : NodeId) :
    Option Aggregate :=
  match impacted[member]? with
  | none => aggregate
  | some item =>
    let current := aggregate.getD ⟨item.classification, item.depth, 0⟩
    some
      { classification := stronger current.classification item.classification
        minimumDepth := min current.minimumDepth item.depth
        affectedNodes := current.affectedNodes + 1 }

def aggregateCommunities (items : List ImpactItem) (context : ImpactContext) :
    List CommunityImpact :=
  match context.communities with
  | none => []
  | some snapshot =>
    let impacted := impactedIndex items
    sortBy CommunityImpact.communityId (snapshot.communities.filterMap fun community =>
      (community.members.foldl (aggregateMember impacted) none).map fun aggregate =>
        { communityId := community.id
          label := community.label
          classification := aggregate.classification
          affectedMembers := aggregate.affectedNodes
          coupling := community.coupling
          limitations := community.limitations })

def summarizeLocalEnrichment (context : ImpactContext) : List LocalImpactSummary :=
  sortBy (fun summary => toLex (summary.repoId, summary.anchor))
    (context.localEnrichment.map fun input =>
      { repoId := input.repoId
        anchor := input.anchor
        status := input.status
        affectedCount := input.affected.length
        maximumDepth := (input.affected.map (·.depth)).foldl max 0
        truncated := input.truncated
        degradations := sortedUnique input.degradations })

section Tests

variable (items : List ImpactItem) (context : ImpactContext) (nodes : NodeIndex)

/-- The owners linked to the test or to the node it validates. -/
def ownerIds (testId validatedId : NodeId) : BTreeSet NodeId :=
  .ofList ((context.edges.filter fun edge =>
    edge.kind = .ownedBy ∧ (edge.source = testId ∨ edge.source = validatedId) ∧
      nodes[edge.target]?.any (fun node => node.kind == .owner)).map Edge.target) compare

def ownersFor (testId validatedId : NodeId) : List Node :=
  (ownerIds context nodes testId validatedId).toList.filterMap fun ownerId => nodes[ownerId]?

def commandsFor (repoId : Option RepoId) : List String :=
  sortedUnique ((context.recommendedCommands.filter fun command =>
    repoId.any fun repo => repo == command.repoId).map (·.command))

def isTestCase (id : NodeId) : Bool := nodes[id]?.any fun node => node.kind == .testCase

/-- The test and the validated node of a `Validates` edge, in either orientation. -/
def validation (edge : Edge) : Option (NodeId × NodeId) :=
  if edge.kind ≠ .validates then none
  else if isTestCase nodes edge.source then some (edge.source, edge.target)
  else if isTestCase nodes edge.target then some (edge.target, edge.source)
  else none

def validationReason (item : ImpactItem) : String :=
  "validates impacted node `" ++ item.node.stableKey ++ "` at depth " ++ toString item.depth

def recommendationFor (edge : Edge) : Option TestRecommendation :=
  (validation nodes edge).bind fun (testId, validatedId) =>
    (impactedIndex items)[validatedId]?.bind fun item =>
      nodes[testId]?.map fun test =>
        { testNodeId := some test.id
          test := test.label
          repoId := test.repoId
          source := .graph
          rank := 0
          reasons := [validationReason item]
          owners := ownersFor context nodes test.id validatedId
          recommendedCommands := commandsFor context test.repoId }

def localRecommendations : List TestRecommendation :=
  context.localEnrichment.flatMap fun input => input.affectedTests.map fun test =>
    { testNodeId := none
      test := test
      repoId := some input.repoId
      source := .localEnrichment
      rank := 0
      reasons := ["optional local enrichment for anchor `" ++ input.anchor ++
        "` reported this test"]
      owners := []
      recommendedCommands := commandsFor context (some input.repoId) }

def testSourceRank : TestRecommendationSource → Nat
  | .graph => 0
  | .localEnrichment => 1

def testKey (recommendation : TestRecommendation) :
    Nat ×ₗ (Bool ×ₗ String) ×ₗ String ×ₗ (Bool ×ₗ String) :=
  toLex (testSourceRank recommendation.source, toLex (optionKey recommendation.repoId,
    toLex (recommendation.test, optionKey recommendation.testNodeId)))

def sameTest (left right : TestRecommendation) : Bool :=
  left.testNodeId == right.testNodeId && left.repoId == right.repoId && left.test == right.test

def rankFrom : Nat → List TestRecommendation → List TestRecommendation
  | _, [] => []
  | index, recommendation :: rest =>
    { recommendation with rank := index + 1 } :: rankFrom (index + 1) rest

def recommendTests : List TestRecommendation :=
  let recommendations :=
    context.edges.filterMap (recommendationFor items context nodes) ++ localRecommendations context
  rankFrom 0 (dedupBy sameTest (sortBy testKey recommendations))

end Tests

def countItem (bucket : ImpactDepthBucket) : ImpactClassification → ImpactDepthBucket
  | .directlyDependent => { bucket with directlyDependent := bucket.directlyDependent + 1 }
  | .transitivelyAffected => { bucket with transitivelyAffected := bucket.transitivelyAffected + 1 }
  | .possiblyAffected => { bucket with possiblyAffected := bucket.possiblyAffected + 1 }
  | .unknownDueToCoverage => { bucket with unknownDueToCoverage := bucket.unknownDueToCoverage + 1 }

def buildDepthBuckets (items : List ImpactItem) : List ImpactDepthBucket :=
  let buckets : BTreeMap Nat ImpactDepthBucket := items.foldl (fun buckets item =>
    buckets.alter item.depth fun bucket =>
      some (countItem (bucket.getD ⟨item.depth, 0, 0, 0, 0⟩) item.classification)) ∅
  values buckets

section Coverage

def localStatusName : LocalEnrichmentStatus → String
  | .available => "Available"
  | .partialResult => "Partial"
  | .stale => "Stale"
  | .unavailable => "Unavailable"

inductive FreshnessGroup
  | fresh | stale | partialInputs | unavailable | missing
deriving DecidableEq

def freshnessGroup : Option RepoFreshnessState → FreshnessGroup
  | some .fresh => .fresh
  | some .workingTreeChanged | some .commitsBehind | some .configChanged
  | some .extractorChanged | some .codegraphPending => .stale
  | some .partialCoverage => .partialInputs
  | some .unavailable | some .corrupt => .unavailable
  | some .unknown | none => .missing

variable (target : Node) (items : List ImpactItem) (context : ImpactContext)

def relevantRepositories : BTreeSet RepoId :=
  (Std.ExtTreeSet.ofList (items.filterMap (·.node.repoId)) compare).insertMany target.repoId.toList

def freshnessIndex : BTreeMap RepoId RepoFreshnessState :=
  context.freshness.foldl (fun index record => index.insert record.repoId record.state) ∅

def repositoriesIn (group : FreshnessGroup) : List RepoId :=
  (relevantRepositories target items).toList.filter fun repoId =>
    freshnessGroup (freshnessIndex context)[repoId]? = group

def impactedIds : BTreeSet NodeId :=
  Std.ExtTreeSet.ofList (items.map (·.node.id) ++ [target.id]) compare

def unknownCompatibility : List CompatibilityInput :=
  context.compatibility.filter fun input =>
    (impactedIds target items).contains input.contractNodeId && input.status == .unknown

def degradedLocals : List LocalEnrichmentInput :=
  context.localEnrichment.filter fun input => input.status != .available || input.truncated

def gapWhen (condition : Bool) (gap remediation : String) : List String × List String :=
  if condition then ([gap], [remediation]) else ([], [])

def localGap (input : LocalEnrichmentInput) : String :=
  "local enrichment for repository `" ++ input.repoId ++ "` is " ++ localStatusName input.status ++
    if input.truncated then " and truncated" else ""

/-- Gaps and remediations in the order in which they are pushed. -/
def coverageEntries (truncation : Option TruncationInfo) (possibleEdges unknownEdges : Nat) :
    List (List String × List String) :=
  [(context.coverageGaps,
      if context.coverageGaps.isEmpty then []
      else ["resolve each caller-supplied coverage gap and rerun analysis"]),
    gapWhen (!context.graphComplete) "federated graph extraction or linking is incomplete"
      "complete a fresh workspace scan and relink the graph",
    gapWhen (!(repositoriesIn target items context .stale).isEmpty)
      "one or more relevant repositories are stale"
      "rescan stale repositories at their current revisions",
    gapWhen (!(repositoriesIn target items context .partialInputs).isEmpty)
      "one or more relevant repositories have partial coverage"
      "resolve extractor limitations and complete partial scans",
    gapWhen (!(repositoriesIn target items context .unavailable).isEmpty)
      "one or more relevant repositories are unavailable or corrupt"
      "restore unavailable repositories or valid graph snapshots",
    gapWhen (!(repositoriesIn target items context .missing).isEmpty)
      "freshness is missing or unknown for relevant repositories"
      "record current freshness for every relevant repository",
    gapWhen (0 < possibleEdges)
      "candidate, inferred, ambiguous, or low-confidence relationships were used"
      "corroborate candidate relationships with direct evidence",
    gapWhen (0 < unknownEdges) "stale or incomplete relationships were used"
      "refresh or complete evidence for coverage-unknown relationships",
    ((unknownCompatibility target items context).map fun input =>
        "compatibility is unknown for contract node `" ++ input.contractNodeId ++ "`",
      (unknownCompatibility target items context).flatMap (·.recommendedValidations)),
    ((degradedLocals context).map localGap, (degradedLocals context).flatMap (·.degradations)),
    gapWhen truncation.isSome "configured traversal bounds truncated impact analysis"
      "increase impact bounds or narrow the target scope"]

def coverageSummary (truncation : Option TruncationInfo) (possibleEdges unknownEdges : Nat) :
    CoverageSummary :=
  let entries := coverageEntries target items context truncation possibleEdges unknownEdges
  { sufficientForScore := context.graphComplete &&
      (repositoriesIn target items context .stale).isEmpty &&
      (repositoriesIn target items context .partialInputs).isEmpty &&
      (repositoriesIn target items context .unavailable).isEmpty &&
      (repositoriesIn target items context .missing).isEmpty &&
      possibleEdges == 0 && unknownEdges == 0 &&
      (unknownCompatibility target items context).isEmpty && truncation.isNone &&
      (context.localEnrichment.all fun input => input.status == .available && !input.truncated) &&
      context.coverageGaps.isEmpty
    relevantRepositories := (relevantRepositories target items).toList
    freshRepositories := repositoriesIn target items context .fresh
    staleRepositories := repositoriesIn target items context .stale
    partialRepositories := repositoriesIn target items context .partialInputs
    unavailableRepositories := repositoriesIn target items context .unavailable
    missingRepositories := repositoriesIn target items context .missing
    possibleEdges := possibleEdges
    unknownEdges := unknownEdges
    gaps := sortedUnique (entries.flatMap Prod.fst)
    remediation := sortedUnique (entries.flatMap Prod.snd)
    totalItems := items.length }

end Coverage

end CodeSystemGraph.Impact
