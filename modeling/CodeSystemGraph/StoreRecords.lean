import CodeSystemGraph.IeeeExact
import CodeSystemGraph.RouteLink
import CodeSystemGraph.StoreDigest

/-! What callers hand to the store, and the rows and column texts it becomes.
Parts of a record that are only ever stored as serialised JSON (a community's
metrics and explanation, a manual link's decision) are carried as that JSON. -/

namespace CodeSystemGraph.Store
open Ieee Model Ordered Routes

/-- The functions of SQLite, BLAKE3 and `serde_json` that the store calls. -/
structure Libraries (Digest : Type) where
  json : JsonFunctions
  hash : Bytes → Digest
  toHex : Digest → String
  stringsJson : List String → String

structure RepositoryRecord where
  id : RepoId
  checkoutId : CheckoutId
  aliasName : String
  canonicalPath : NativePath
  gitCommonDir : Option NativePath
  normalizedRemote : Option String
  headCommit : Option String
  isLinkedWorktree : Bool
  workingTreeDirty : Bool

structure WorkspaceRecord where
  id : WorkspaceId
  name : String
  manifestHash : String
  configPath : Option NativePath
  repositories : List RepositoryRecord

structure ArtifactFingerprint where
  repoId : RepoId
  checkoutId : CheckoutId
  path : NativePath
  extractor : String
  contentHash : String
  sizeBytes : UInt64

structure StoredExtractorBatch where
  source : ArtifactFingerprint
  extractorVersion : String
  budgetFingerprint : String
  sourceWasLossy : Bool
  outputCount : UInt64
  payload : Bytes

structure ArtifactChange where
  repoId : RepoId
  checkoutId : CheckoutId
  path : NativePath
  extractor : String

structure ArtifactDelta where
  upsertedFingerprints : List ArtifactFingerprint
  upsertedBatches : List StoredExtractorBatch
  removed : List ArtifactChange

inductive ExtractorRunStatus
  | success | skippedUnchanged

structure ExtractorRun where
  id : String
  repoId : RepoId
  checkoutId : CheckoutId
  extractor : String
  extractorVersion : String
  status : ExtractorRunStatus
  discoveredFiles : UInt64
  parsedFiles : UInt64
  skippedFiles : UInt64
  elapsedMs : UInt64

inductive ManualLinkDisposition
  | active | suppression

inductive LinkStatus
  | confirmed | suppressed | ambiguous | rejected
deriving DecidableEq

structure LinkDecision where
  source : NodeId
  target : NodeId
  relation : EdgeKind
  reasons : List String
  status : LinkStatus
  json : Bytes

structure ManualLinkRecord where
  id : String
  snapshotId : String
  sourceNodeId : NodeId
  targetNodeId : NodeId
  kind : String
  disposition : ManualLinkDisposition
  reason : String
  decision : LinkDecision
  configVersion : UInt32

structure Community where
  id : CommunityId
  label : String
  members : List NodeId
  metricsJson : String
  explanationJson : String

structure CommunitySnapshot where
  snapshotId : String
  engineVersion : String
  algorithmJson : String
  configJson : String
  communities : List Community

structure RepositoryCoverageGap where
  repoId : RepoId
  reason : String

structure PublicationInput where
  workspace : WorkspaceRecord
  snapshotId : String
  nodes : List Node
  edges : List Edge
  evidence : List Evidence
  fingerprints : List ArtifactFingerprint
  extractorBatches : List StoredExtractorBatch
  artifactDelta : Option ArtifactDelta
  extractorRuns : List ExtractorRun
  manualLinks : List ManualLinkRecord
  communitySnapshot : Option CommunitySnapshot
  coverageGaps : List RepositoryCoverageGap
  httpLinks : HttpLinkReport

section Columns

/-- `serde_json::to_string` of a unit variant. -/
def quoted (name : String) : String := "\"" ++ name ++ "\""

def nodeKindName : NodeKind → String
  | .repository => "repository"
  | .service => "service"
  | .package => "package"
  | .artifact => "artifact"
  | .symbolRef => "symbol_ref"
  | .testCase => "test_case"
  | .httpOperation => "http_operation"
  | .graphqlOperation => "graphql_operation"
  | .rpcMethod => "rpc_method"
  | .eventChannel => "event_channel"
  | .eventSchema => "event_schema"
  | .database => "database"
  | .databaseTable => "database_table"
  | .databaseColumn => "database_column"
  | .configKey => "config_key"
  | .deployment => "deployment"
  | .document => "document"
  | .adr => "adr"
  | .owner => "owner"
  | .changeSet => "change_set"
  | .pullRequest => "pull_request"
  | .community => "community"

def edgeKindName : EdgeKind → String
  | .contains => "contains"
  | .provides => "provides"
  | .consumes => "consumes"
  | .callsRemote => "calls_remote"
  | .publishes => "publishes"
  | .subscribes => "subscribes"
  | .deliversTo => "delivers_to"
  | .dependsOnPackage => "depends_on_package"
  | .dependsOnRepository => "depends_on_repository"
  | .readsTable => "reads_table"
  | .writesTable => "writes_table"
  | .deploys => "deploys"
  | .configures => "configures"
  | .documents => "documents"
  | .ownedBy => "owned_by"
  | .implementedBy => "implemented_by"
  | .validates => "validates"
  | .changedIn => "changed_in"
  | .affects => "affects"
  | .precedes => "precedes"
  | .reverts => "reverts"
  | .compatibleWith => "compatible_with"
  | .incompatibleWith => "incompatible_with"
  | .memberOf => "member_of"
  | .manualLink => "manual_link"

def statusName : EpistemicStatus → String
  | .confirmed => "confirmed"
  | .inferred => "inferred"
  | .ambiguous => "ambiguous"
  | .stale => "stale"
  | .incomplete => "incomplete"

def provenanceName : Provenance → String
  | .declared => "declared"
  | .extracted => "extracted"
  | .inferred => "inferred"
  | .manual => "manual"
  | .runtime => "runtime"
  | .codeGraph => "code_graph"

def encodingName : NativePathEncoding → String
  | .unixBytes => "unix_bytes"
  | .windowsWide => "windows_wide"
  | .utf8 => "utf8"

def runStatusName : ExtractorRunStatus → String
  | .success => "success"
  | .skippedUnchanged => "skipped_unchanged"

def freshnessName : RepoFreshnessState → String
  | .fresh => "fresh"
  | .workingTreeChanged => "working_tree_changed"
  | .commitsBehind => "commits_behind"
  | .configChanged => "config_changed"
  | .extractorChanged => "extractor_changed"
  | .codegraphPending => "codegraph_pending"
  | .partialCoverage => "partial"
  | .corrupt => "corrupt"
  | .unknown => "unknown"
  | .unavailable => "unavailable"

def dispositionName : ManualLinkDisposition → String
  | .active => "active"
  | .suppression => "suppression"

def gapReasonName : HttpLinkGapReason → String
  | .noProvider => "no_provider"
  | .ambiguous => "ambiguous"
  | .external => "external"

/-- An `f32` in a `REAL` column. Whole values are kept as integers on disk, so a
negative zero loses its sign. -/
def realColumn (confidence : F32) : F64 :=
  if (widen confidence).magnitude = 0 then .zero else widen confidence

theorem realColumn_narrow {confidence : F32} (inUnit : unitReal (realColumn confidence)) :
    realColumn (narrow (realColumn confidence)) = realColumn confidence := by
  have finite : confidence.isFinite := by
    by_contra notFinite
    have wide : widen confidence = .nan ∨
        widen confidence = .ofCode confidence.negative (Binary.infinityCode ⟨11, 52⟩) := by
      by_cases nan : confidence.isNan
      · exact .inl (if_pos nan)
      · exact .inr ((if_neg nan).trans (if_neg notFinite))
    revert inUnit
    unfold realColumn
    rcases wide with wide | wide
    · rw [wide]
      decide +kernel
    · rw [wide]
      cases confidence.negative <;> decide +kernel
  by_cases zero : (widen confidence).magnitude = 0
  · have stored : realColumn confidence = .zero := if_pos zero
    rw [stored]
    decide +kernel
  · have stored : realColumn confidence = widen confidence := if_neg zero
    rw [stored, narrow_widen finite, stored]

/-- `i64::from(confidence.to_bits())`. -/
def confidenceBits (confidence : F32) : Int64 := .ofNat confidence.toBits

/-- A `u64` below `2 ^ 63` as an `INTEGER` column. -/
def integerColumn (value : UInt64) : Int64 := .ofNat value.toNat

def metricToI64 (field : String) (value : UInt64) : Except StoreError Int64 :=
  if value.toNat < 2 ^ 63 then .ok (integerColumn value)
  else .error (.integerOutOfRange field value.toNat)

end Columns

section Rows

variable (workspace : String)

def nodeRow (node : Node) : NodeRow :=
  ⟨workspace, node.id, quoted (nodeKindName node.kind), node.repoId, node.stableKey, node.label⟩

def evidenceRow (item : Evidence) : EvidenceRow where
  workspace := workspace
  id := item.id
  repoId := item.repoId
  filePath := item.filePath
  startLine := item.startLine.map fun line => .ofNat line.toNat
  endLine := item.endLine.map fun line => .ofNat line.toNat
  extractor := item.extractor
  extractorVersion := item.extractorVersion
  provenance := quoted (provenanceName item.provenance)
  confidence := realColumn item.confidence
  contentHash := item.contentHash
  observedAtCommit := item.observedAtCommit

def edgeRow (edge : Edge) : EdgeRow where
  workspace := workspace
  id := edge.id
  sourceNodeId := edge.source
  targetNodeId := edge.target
  kind := quoted (edgeKindName edge.kind)
  confidence := realColumn edge.confidence
  epistemicStatus := quoted (statusName edge.status)

def edgeEvidenceRows (edge : Edge) : List EdgeEvidenceRow :=
  edge.evidence.map fun evidenceId => ⟨workspace, edge.id, evidenceId⟩

def artifactKey (fingerprint : ArtifactFingerprint) : ArtifactKey :=
  ⟨fingerprint.repoId, fingerprint.checkoutId, quoted (encodingName fingerprint.path.encoding),
    fingerprint.path.bytes, fingerprint.extractor⟩

def fingerprintRow (fingerprint : ArtifactFingerprint) : FingerprintRow :=
  ⟨workspace, artifactKey fingerprint, fingerprint.path.display, fingerprint.contentHash,
    integerColumn fingerprint.sizeBytes⟩

def batchRow (payloadHash : String) (batch : StoredExtractorBatch) : BatchRow where
  workspace := workspace
  artifact := artifactKey batch.source
  pathDisplay := batch.source.path.display
  contentHash := batch.source.contentHash
  sizeBytes := integerColumn batch.source.sizeBytes
  extractorVersion := batch.extractorVersion
  budgetFingerprint := batch.budgetFingerprint
  sourceWasLossy := batch.sourceWasLossy
  outputCount := integerColumn batch.outputCount
  payloadHash := payloadHash
  payload := batch.payload

def manualLinkRow (record : ManualLinkRecord) : ManualLinkRow where
  workspace := workspace
  id := record.id
  sourceNodeId := record.sourceNodeId
  targetNodeId := record.targetNodeId
  kind := record.kind
  disposition := dispositionName record.disposition
  reason := record.reason
  decisionJson := record.decision.json
  configVersion := record.configVersion

def gapRow (stringsJson : List String → String) (gap : HttpLinkGap) : HttpGapRow :=
  ⟨workspace, gap.caller, gap.method, gap.path, gapReasonName gap.reason, stringsJson gap.candidates⟩

end Rows

/-- The order in which removed artifact keys are deleted. -/
def ArtifactKey.order (key : ArtifactKey) : String ×ₗ String ×ₗ String ×ₗ List Nat ×ₗ String :=
  toLex (key.repoId, toLex (key.checkoutId, toLex (key.pathEncoding,
    toLex (key.relativePath.map UInt8.toNat, key.extractor))))

/-- The order of the columns of a gap after its workspace. -/
def HttpGapRow.order (row : HttpGapRow) : String ×ₗ String ×ₗ String ×ₗ String ×ₗ String :=
  toLex (row.callerNodeId, toLex (row.method, toLex (row.path, toLex (row.reason,
    row.candidatesJson))))

end CodeSystemGraph.Store
