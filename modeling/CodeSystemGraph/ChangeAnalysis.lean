import CodeSystemGraph.ChangeGate
import CodeSystemGraph.ChangeMapping
import CodeSystemGraph.ContractReport
import CodeSystemGraph.ImpactRisk

/-! The analysis of a change set: file mappings under the file bound, graph nodes under the
node bound, impact targets under the target bound, and the coverage that says whether any
of the bounds was hit. The fingerprint of the inputs is a parameter. -/

namespace CodeSystemGraph.Changes
open Model Ordered Contracts Impact

section Records

structure OwnedChangeSet extends ChangeSet where
  repoId : RepoId
  checkoutId : CheckoutId
  checkoutHeadSha : String
  workspaceManifestHash : String

structure ChangeAnalysisOptions where
  maxChangedFiles : ℕ
  maxChangedNodes : ℕ
  maxImpactTargets : ℕ
  direction : ImpactDirection
  maxDepth : ℕ
  offset : ℕ
  limit : ℕ
  summaryOnly : Bool

inductive ChangedEntityRole
  | artifact | symbolRef | boundary
deriving DecidableEq

structure ChangedEntity where
  node : Node
  roles : List ChangedEntityRole
  changedPaths : List NativePath

structure ContractCompatibilityInput where
  filePath : Option String
  contractNodeId : NodeId
  report : Option CompatibilityReport

structure SemanticContractDelta where
  contract : Node
  contractKind : NodeKind
  status : CompatibilityStatus
  beforeFingerprint : Option String
  afterFingerprint : Option String
  findings : List CompatibilityFinding
  factors : List String
  validations : List String

structure ChangeAnalysisCoverage where
  complete : Bool
  totalChangedFiles : ℕ
  analyzedChangedFiles : ℕ
  mappedChangedFiles : ℕ
  completeChangedFiles : ℕ
  totalChangedNodes : ℕ
  retainedChangedNodes : ℕ
  totalImpactTargets : ℕ
  analyzedImpactTargets : ℕ
  truncated : Bool
  gaps : List String

inductive ChangeConclusion
  | impactDetected | noSemanticImpactDetected | unknown
deriving DecidableEq

structure ChangeAnalysisSummary where
  conclusion : ChangeConclusion
  highestRisk : RiskLevel
  changedEntities : ℕ
  changedContracts : ℕ
  impactReports : ℕ
deriving DecidableEq

structure ChangeImpactReport where
  analyzerVersion : String
  analyzerFingerprint : String
  changeSet : OwnedChangeSet
  mappings : List ChangedArtifactMapping
  changedEntities : List ChangedEntity
  contractDeltas : List SemanticContractDelta
  impacts : List ImpactReport
  touchedRepositories : List RepoId
  touchedServices : List Node
  touchedCommunities : List CommunityId
  touchedContracts : List Node
  coverage : ChangeAnalysisCoverage
  summary : ChangeAnalysisSummary

inductive ChangeAnalysisError
  | invalidBounds
  | fingerprint (message : String)
  | impact (target : String) (source : ImpactError)

/-- The inputs of one analysis. -/
structure AnalysisInputs where
  changeSet : OwnedChangeSet
  nodes : List Node
  edges : List Edge
  evidence : List Evidence
  community : Option CommunitySnapshot
  freshness : List RepoFreshness
  compatibility : List ContractCompatibilityInput

end Records

section Options

def maxChangedFilesBound : ℕ := 100000
def maxChangedNodesBound : ℕ := 100000
def maxImpactTargetsBound : ℕ := 10000
def maxAnalysisDepth : ℕ := 128
def maxPageLimit : ℕ := 10000
def maxPageOffset : ℕ := 1000000

def optionsValid (options : ChangeAnalysisOptions) : Bool :=
  !(options.maxChangedFiles == 0 || maxChangedFilesBound < options.maxChangedFiles ||
    options.maxChangedNodes == 0 || maxChangedNodesBound < options.maxChangedNodes ||
    options.maxImpactTargets == 0 || maxImpactTargetsBound < options.maxImpactTargets ||
    options.maxDepth == 0 || maxAnalysisDepth < options.maxDepth ||
    options.limit == 0 || maxPageLimit < options.limit || maxPageOffset < options.offset)

def changeAnalyzerVersion : String := "1.0.0"

structure Material where
  analyzerVersion : String
  changeSet : OwnedChangeSet
  nodes : List Node
  edges : List Edge
  evidence : List Evidence
  community : Option CommunitySnapshot
  freshness : List RepoFreshness
  compatibility : List ContractCompatibilityInput
  options : ChangeAnalysisOptions

def freshnessKey (item : RepoFreshness) : String ×ₗ String := toLex (item.repoId, item.checkoutId)

def compatibilityKey (input : ContractCompatibilityInput) : String ×ₗ String :=
  toLex (input.contractNodeId, input.filePath.getD "")

def material (inputs : AnalysisInputs) (options : ChangeAnalysisOptions) : Material where
  analyzerVersion := changeAnalyzerVersion
  changeSet := inputs.changeSet
  nodes := sortBy Node.id inputs.nodes
  edges := sortBy Edge.id inputs.edges
  evidence := sortBy Evidence.id inputs.evidence
  community := inputs.community
  freshness := sortBy freshnessKey inputs.freshness
  compatibility := sortBy compatibilityKey inputs.compatibility
  options := options

end Options

section Files

def statusRank : ChangedFileStatus → ℕ
  | .added => 0
  | .modified => 1
  | .deleted => 2
  | .renamed => 3
  | .copied => 4
  | .untracked => 5

abbrev FileKey := ℕ ×ₗ ℕ ×ₗ WithBot NativePath ×ₗ WithBot NativePath

/-- `changed_file_order`, as a key. -/
def changedFileOrder (file : ChangedFile) : FileKey :=
  toLex (layerRank file.source, toLex (statusRank file.status, toLex (file.oldPath, file.newPath)))

/-- `mapping_order`, as a key. -/
def mappingOrder (work : MappingWork) : FileKey :=
  toLex (layerRank work.mapping.layer, toLex (statusRank work.mapping.status,
    toLex (work.mapping.oldPath, work.mapping.newPath)))

/-- A map that keeps the last record of each identifier. -/
def indexById {α : Type} (id : α → String) (l : List α) : BTreeMap String α :=
  l.foldl (fun index a => index.insert (id a) a) ∅

variable (inputs : AnalysisInputs) (options : ChangeAnalysisOptions)

def nodeIndex : BTreeMap NodeId Node := indexById Node.id inputs.nodes

def orderedFiles : List ChangedFile := sortBy changedFileOrder inputs.changeSet.files

def mapFile (file : ChangedFile) : MappingWork :=
  mapChangedFile file inputs.changeSet.repoId inputs.edges (nodeIndex inputs)
    (indexById Evidence.id inputs.evidence)

def mappingWork : List MappingWork :=
  sortBy mappingOrder (((orderedFiles inputs).take options.maxChangedFiles).map (mapFile inputs))

def mappedNodeIds (mapping : ChangedArtifactMapping) : List NodeId :=
  mapping.artifactNodeIds ++ mapping.symbolRefNodeIds ++ mapping.boundaryNodeIds

def changedNodeIds (work : List MappingWork) : List NodeId :=
  sortedUnique (work.flatMap fun work => mappedNodeIds work.mapping)

def retainedNodeIds : List NodeId :=
  (changedNodeIds (mappingWork inputs options)).take options.maxChangedNodes

def nodesTruncated : Bool :=
  (retainedNodeIds inputs options).length < (changedNodeIds (mappingWork inputs options)).length

def retainNodeIds (retained : List NodeId) (mapping : ChangedArtifactMapping) :
    ChangedArtifactMapping :=
  { mapping with
    artifactNodeIds := mapping.artifactNodeIds.filter retained.contains
    symbolRefNodeIds := mapping.symbolRefNodeIds.filter retained.contains
    boundaryNodeIds := mapping.boundaryNodeIds.filter retained.contains }

def degradeMapping (gap : String) (mapping : ChangedArtifactMapping) : ChangedArtifactMapping :=
  { mapping with
    completeness := .partialMapping
    gaps := sortedUnique (mapping.gaps ++ [gap]) }

def boundedWork : List MappingWork :=
  if nodesTruncated inputs options then
    (mappingWork inputs options).map fun work =>
      { work with
        mapping := degradeMapping
          "mapped node identities were truncated by the configured node bound"
          (retainNodeIds (retainedNodeIds inputs options) work.mapping) }
  else mappingWork inputs options

end Files

section Entities

structure EntityWork where
  roles : List ChangedEntityRole
  paths : List NativePath

def roleRank : ChangedEntityRole → ℕ
  | .artifact => 0
  | .symbolRef => 1
  | .boundary => 2

def noteEntity (role : ChangedEntityRole) (mapping : ChangedArtifactMapping)
    (work : List (NodeId × EntityWork)) (id : NodeId) : List (NodeId × EntityWork) :=
  upsert id ⟨[], []⟩ (fun entity =>
    { roles := entity.roles ++ [role]
      paths := entity.paths ++ mapping.oldPath.toList ++ mapping.newPath.toList }) work

def noteMapping (work : List (NodeId × EntityWork)) (mapping : ChangedArtifactMapping) :
    List (NodeId × EntityWork) :=
  let work := mapping.artifactNodeIds.foldl (noteEntity .artifact mapping) work
  let work := mapping.symbolRefNodeIds.foldl (noteEntity .symbolRef mapping) work
  mapping.boundaryNodeIds.foldl (noteEntity .boundary mapping) work

def buildChangedEntities (work : List MappingWork) (nodes : BTreeMap NodeId Node) :
    List ChangedEntity :=
  ((work.map MappingWork.mapping).foldl noteMapping []).filterMap fun entry =>
    nodes[entry.1]?.map fun node =>
      { node := node
        roles := sortDedup roleRank entry.2.roles
        changedPaths := sortDedup id entry.2.paths }

end Entities

section Deltas

def compatibilitySeverity : CompatibilityStatus → ℕ
  | .compatible => 0
  | .incomparable => 1
  | .unknown => 2
  | .potentiallyBreaking => 3
  | .breaking => 4

/-- `max_by_key`, the last of the greatest. -/
def mostSevere (statuses : List CompatibilityStatus) : Option CompatibilityStatus :=
  statuses.foldl (fun best status =>
    if best.any fun best => compatibilitySeverity status < compatibilitySeverity best then best
    else some status) none

def uniqueFingerprint (fingerprints : List String) : Option String :=
  match sortedUnique (fingerprints.filter fun value => value ≠ "" && value ≠ "unavailable") with
  | [value] => some value
  | _ => none

/-- The order of the findings of a delta, greatest first. -/
def deltaFindingKey (finding : CompatibilityFinding) :
    (ℕ ×ₗ String ×ₗ String ×ₗ List String ×ₗ List String)ᵒᵈ :=
  OrderDual.toDual (toLex (compatibilitySeverity finding.status, toLex (finding.code,
    toLex (finding.path, toLex (finding.factors, finding.evidence)))))

def mergeContractDelta (contract : Node) (inputs : List ContractCompatibilityInput) :
    SemanticContractDelta :=
  let reports := inputs.filterMap (·.report)
  let before := uniqueFingerprint (reports.map (·.beforeFingerprint))
  let after := uniqueFingerprint (reports.map (·.afterFingerprint))
  let findings := dedupBy (fun left right => left == right)
    (sortBy deltaFindingKey (reports.flatMap (·.findings)))
  { contract := contract
    contractKind := contract.kind
    status := if before.isNone || after.isNone then .unknown
      else (mostSevere (reports.map (·.status))).getD .unknown
    beforeFingerprint := before
    afterFingerprint := after
    findings
    factors := sortedUnique (findings.flatMap (·.factors))
    validations := sortedUnique (findings.flatMap (·.recommendedValidations)) }

def buildContractDeltas (contractIds : List NodeId) (work : List MappingWork)
    (nodes : BTreeMap NodeId Node) (inputs : List ContractCompatibilityInput) :
    List SemanticContractDelta :=
  contractIds.filterMap fun contractId =>
    nodes[contractId]?.map fun contract =>
      let paths := (work.filter fun work => work.mapping.boundaryNodeIds.contains contractId).flatMap
        MappingWork.representablePaths
      mergeContractDelta contract (inputs.filter fun input =>
        input.contractNodeId == contractId && input.filePath.all paths.contains)

/-- The contract has no comparison of both sides. -/
def incomparable (delta : SemanticContractDelta) : Bool :=
  delta.status == .unknown || delta.status == .incomparable

def impactStatus : CompatibilityStatus → ImpactCompatibilityStatus
  | .breaking => .breaking
  | .potentiallyBreaking => .potentiallyBreaking
  | .compatible => .compatible
  | .unknown => .unknown
  | .incomparable => .unknown

def impactCompatibilityInput (delta : SemanticContractDelta) : CompatibilityInput where
  contractNodeId := delta.contract.id
  status := impactStatus delta.status
  evidence := sortedUnique (delta.findings.map (·.code) ++ delta.factors)
  recommendedValidations := delta.validations

end Deltas

section Context

/-- `freshness_for_change_set`: a snapshot of another checkout, commit or manifest is not
fresh for the change. -/
def freshnessForChange (changeSet : OwnedChangeSet) (item : RepoFreshness) : RepoFreshness :=
  if item.repoId ≠ changeSet.repoId then item
  else if item.checkoutId ≠ changeSet.checkoutId then
    { item with
      state := .unknown
      reason := some "snapshot checkout does not match the analyzed change set" }
  else if item.headCommit ≠ some changeSet.checkoutHeadSha then
    { item with
      state := .commitsBehind
      reason := some "snapshot HEAD does not match the analyzed change set" }
  else if item.manifestHash ≠ changeSet.workspaceManifestHash then
    { item with
      state := .configChanged
      reason := some "snapshot manifest does not match the analyzed change set" }
  else item

def noteMembership (nodes : BTreeMap NodeId Node) (memberships : BTreeMap NodeId (List NodeId))
    (edge : Edge) : BTreeMap NodeId (List NodeId) :=
  if edge.kind ≠ .contains then memberships
  else
    match nodes[edge.source]?.map Node.kind, nodes[edge.target]?.map Node.kind with
    | some .service, some _ => pushTo memberships edge.target edge.source
    | some _, some .service => pushTo memberships edge.source edge.target
    | _, _ => memberships

def deriveServiceMemberships (nodes : BTreeMap NodeId Node) (edges : List Edge) :
    BTreeMap NodeId (List NodeId) :=
  (edges.foldl (noteMembership nodes) ∅).map fun _ services => sortedUnique services

end Context

section Analysis

variable (inputs : AnalysisInputs) (options : ChangeAnalysisOptions)

def changedEntities : List ChangedEntity :=
  buildChangedEntities (boundedWork inputs options) (nodeIndex inputs)

def entityPage : List ChangedEntity :=
  if options.summaryOnly then []
  else ((changedEntities inputs options).drop
    (min options.offset (changedEntities inputs options).length)).take options.limit

def changedBoundaryIds : List NodeId :=
  sortedUnique ((boundedWork inputs options).flatMap fun work => work.mapping.boundaryNodeIds)

def impactTargetIds : List NodeId := (changedBoundaryIds inputs options).take options.maxImpactTargets

def filesTruncated : Bool := (mappingWork inputs options).length < inputs.changeSet.files.length

def targetsTruncated : Bool :=
  (impactTargetIds inputs options).length < (changedBoundaryIds inputs options).length

def contractDeltas : List SemanticContractDelta :=
  buildContractDeltas (changedBoundaryIds inputs options) (boundedWork inputs options)
    (nodeIndex inputs) inputs.compatibility

/-- The gaps that are known before the impact analysis. -/
def coverageGaps : List String :=
  sortedUnique ((mappingWork inputs options).flatMap (fun work => work.mapping.gaps) ++
    gapIf (filesTruncated inputs options)
      ("changed files truncated at " ++ toString options.maxChangedFiles ++ "; " ++
        toString inputs.changeSet.files.length ++ " files were present") ++
    gapIf (nodesTruncated inputs options)
      ("changed graph nodes truncated at " ++ toString options.maxChangedNodes ++ "; " ++
        toString (changedNodeIds (mappingWork inputs options)).length ++ " nodes were mapped") ++
    gapIf (targetsTruncated inputs options)
      ("impact targets truncated at " ++ toString options.maxImpactTargets ++ "; " ++
        toString (changedBoundaryIds inputs options).length ++
        " exact changed boundaries were mapped") ++
    gapIf ((contractDeltas inputs options).any incomparable)
      "one or more changed contracts lack complete before/after compatibility data")

def completeChangedFiles : ℕ :=
  (boundedWork inputs options).countP fun work => work.mapping.completeness == .complete

def boundsTruncated : Bool :=
  filesTruncated inputs options || nodesTruncated inputs options || targetsTruncated inputs options

def provisionalComplete : Bool :=
  !boundsTruncated inputs options &&
    (boundedWork inputs options).length == inputs.changeSet.files.length &&
    completeChangedFiles inputs options == inputs.changeSet.files.length &&
    !(contractDeltas inputs options).any incomparable

def impactContext : ImpactContext where
  nodes := inputs.nodes
  edges := inputs.edges
  communities := inputs.community
  freshness := sortBy freshnessKey
    (inputs.freshness.map (freshnessForChange inputs.changeSet))
  compatibility := (contractDeltas inputs options).map impactCompatibilityInput
  localEnrichment := []
  publicContracts := changedBoundaryIds inputs options
  criticality := []
  centrality := ∅
  serviceMemberships := deriveServiceMemberships (nodeIndex inputs) inputs.edges
  environments := []
  recommendedCommands := []
  graphComplete := provisionalComplete inputs options
  coverageGaps := coverageGaps inputs options

def impactRequest (target : NodeId) : ImpactRequest where
  target := .nodeId target
  direction := options.direction
  options := {
    maxDepth := options.maxDepth
    nodeLimit := options.maxChangedNodes
    edgeLimit := 50000
    confirmedConfidence := .div (.ofNat 8) (.ofNat 10)
    offset := 0
    limit := options.limit
    summaryOnly := options.summaryOnly
    includeDepthBuckets := true }

def analyzeTarget (target : NodeId) : Except ChangeAnalysisError ImpactReport :=
  match analyzeImpact (impactRequest options target) (impactContext inputs options) with
  | .ok report => .ok report
  | .error source => .error (.impact target source)

def conclusive (impact : ImpactReport) : Bool :=
  impact.coverage.sufficientForScore && impact.truncation.isNone

def analysisCoverage (impacts : List ImpactReport) : ChangeAnalysisCoverage where
  complete := provisionalComplete inputs options && impacts.all conclusive
  totalChangedFiles := inputs.changeSet.files.length
  analyzedChangedFiles := (boundedWork inputs options).length
  mappedChangedFiles := (boundedWork inputs options).countP fun work =>
    !work.mapping.matchedEvidenceIds.isEmpty
  completeChangedFiles := completeChangedFiles inputs options
  totalChangedNodes := (changedNodeIds (mappingWork inputs options)).length
  retainedChangedNodes := (retainedNodeIds inputs options).length
  totalImpactTargets := (changedBoundaryIds inputs options).length
  analyzedImpactTargets := impacts.length
  truncated := boundsTruncated inputs options || impacts.any fun impact => impact.truncation.isSome
  gaps := sortedUnique (coverageGaps inputs options ++ impacts.flatMap fun impact =>
    impact.coverage.gaps)

def nodesById (entries : List Node) : List Node := values (indexById Node.id entries)

def changedNodes : List Node :=
  (retainedNodeIds inputs options).filterMap fun id => (nodeIndex inputs)[id]?

def touchedRepositories (impacts : List ImpactReport) : List RepoId :=
  sortedUnique (inputs.changeSet.repoId ::
    ((changedNodes inputs options).filterMap (·.repoId) ++
      impacts.flatMap fun impact => impact.affectedRepositories.map (·.repoId)))

def touchedServices (impacts : List ImpactReport) : List Node :=
  nodesById ((changedNodes inputs options).filter (·.kind == .service) ++
    impacts.flatMap fun impact => impact.affectedServices.map (·.service))

def touchedCommunities (impacts : List ImpactReport) : List CommunityId :=
  sortedUnique ((impacts.flatMap fun impact => impact.affectedCommunities.map (·.communityId)) ++
    inputs.community.toList.flatMap fun snapshot => (snapshot.communities.filter fun item =>
      item.members.any (retainedNodeIds inputs options).contains).map (·.id))

def touchedContracts (impacts : List ImpactReport) : List Node :=
  nodesById ((changedNodes inputs options).filter (isBoundaryKind ·.kind) ++
    (contractDeltas inputs options).map (·.contract) ++
    impacts.flatMap fun impact => impact.affectedContracts.map (·.contract))

def riskRank : RiskLevel → ℕ
  | .low => 0
  | .medium => 1
  | .high => 2
  | .critical => 3
  | .unknown => 4

def highestRisk (risks : List RiskLevel) : RiskLevel :=
  risks.foldl (fun highest risk => if riskRank highest ≤ riskRank risk then risk else highest) .low

def summarize (coverage : ChangeAnalysisCoverage) (changedEntities changedContracts : ℕ)
    (impacts : List ImpactReport) : ChangeAnalysisSummary where
  conclusion :=
    if !coverage.complete then .unknown
    else if 0 < changedEntities ∨ 0 < changedContracts ∨ !impacts.isEmpty then .impactDetected
    else .noSemanticImpactDetected
  highestRisk := if coverage.complete then highestRisk (impacts.map (·.risk)) else .unknown
  changedEntities := changedEntities
  changedContracts := changedContracts
  impactReports := impacts.length

def changeReport (fingerprint : String) (impacts : List ImpactReport) : ChangeImpactReport :=
  let coverage := analysisCoverage inputs options impacts
  { analyzerVersion := changeAnalyzerVersion
    analyzerFingerprint := fingerprint
    changeSet := inputs.changeSet
    mappings := (boundedWork inputs options).map MappingWork.mapping
    changedEntities := entityPage inputs options
    contractDeltas := contractDeltas inputs options
    impacts := impacts
    touchedRepositories := touchedRepositories inputs options impacts
    touchedServices := touchedServices inputs options impacts
    touchedCommunities := touchedCommunities inputs options impacts
    touchedContracts := touchedContracts inputs options impacts
    coverage
    summary := summarize coverage (changedEntities inputs options).length
      (contractDeltas inputs options).length impacts }

def targetKey (impact : ImpactReport) : NodeId := impact.target.node.id

variable (fingerprintOf : Material → Except String String)

def analyzeChanges : Except ChangeAnalysisError ChangeImpactReport := do
  if !optionsValid options then .error .invalidBounds
  else
    match fingerprintOf (material inputs options) with
    | .error message => .error (.fingerprint message)
    | .ok fingerprint => do
      let impacts ← (impactTargetIds inputs options).mapM (analyzeTarget inputs options)
      .ok (changeReport inputs options fingerprint (sortBy targetKey impacts))

end Analysis

end CodeSystemGraph.Changes
