import CodeSystemGraph.Model
import CodeSystemGraph.Ordered
import CodeSystemGraph.Text
import Mathlib.Tactic.MkIffOfInductiveProp

/-! The relational schema of the store: one record a row, one list a table, and
the declared constraints. A statement computes the tables it leaves, with the
rows that `ON DELETE CASCADE` takes along, and fails as a whole when a primary
key, a foreign key or a check does not hold of the result; nothing else can
write. Times, row numbers, the search index and the audit log are left out. -/

namespace CodeSystemGraph.Store
open Ieee Model Ordered Text

def utf8 (text : String) : Bytes := text.toByteArray.data.toList

/-- `json_valid(x)` and `json_type(x) = 'array'` on the bytes of a text. -/
structure JsonFunctions where
  valid : Bytes → Bool
  isArray : Bytes → Bool

/-- `length(CAST(text AS BLOB)) BETWEEN low AND high`. -/
def sizeBetween (low high : Nat) (text : String) : Bool :=
  low ≤ text.utf8ByteSize && text.utf8ByteSize ≤ high

/-- `length(trim(text)) > 0`: `trim` drops spaces and `length` stops at a NUL. -/
def nonBlank (text : String) : Bool := (text.toList.dropWhile (· = ' ')).head?.any (· ≠ '\x00')

/-- `confidence >= 0.0 AND confidence <= 1.0`; a NaN is stored as NULL. -/
def unitReal (x : F64) : Bool := Binary.zero.le x && x.le (.ofNat 1)

inductive StoreError
  | constraint
  | integerOutOfRange (field : String) (value : Nat)
  | invalidGraphSnapshot (message : String)
  | invalidPersistenceRecord (message : String)
  | communitySnapshotMismatch (batchSnapshotId communitySnapshotId : String)
  | duplicateCommunityId (snapshotId communityId : String)
  | duplicateCommunityMembership (snapshotId communityId nodeId : String)
  | communityMembershipNodeMissing (snapshotId communityId nodeId : String)
  | communityJsonTooLarge (field : String) (actualBytes maxBytes : Nat)
deriving DecidableEq

structure WorkspaceRow where
  name : String
  manifestHash : String
  id : Option String
  configPathEncoding : Option String
  configPath : Option Bytes
  configPathDisplay : Option String
deriving DecidableEq

structure RepositoryRow where
  id : RepoId
  normalizedRemote : Option String
  gitCommonPathEncoding : Option String
  gitCommonPath : Option Bytes
  gitCommonPathDisplay : Option String
deriving DecidableEq

structure CheckoutRow where
  id : CheckoutId
  repoId : RepoId
  pathEncoding : String
  canonicalPath : Bytes
  pathDisplay : String
  headCommit : Option String
  isLinkedWorktree : Bool
  workingTreeDirty : Bool
deriving DecidableEq

/-- A row of `workspace_repositories`. -/
structure RegistrationRow where
  workspace : String
  aliasName : String
  repoId : RepoId
  checkoutId : CheckoutId
deriving DecidableEq

structure SnapshotRow where
  workspace : String
  id : String
deriving DecidableEq

@[ext] structure NodeRow where
  workspace : String
  id : NodeId
  kind : String
  repoId : Option RepoId
  stableKey : String
  label : String
deriving DecidableEq

@[ext] structure EvidenceRow where
  workspace : String
  id : EvidenceId
  repoId : Option RepoId
  filePath : Option String
  startLine : Option Int64
  endLine : Option Int64
  extractor : String
  extractorVersion : String
  provenance : String
  confidence : F64
  contentHash : Option String
  observedAtCommit : Option String
deriving DecidableEq

@[ext] structure EdgeRow where
  workspace : String
  id : EdgeId
  sourceNodeId : NodeId
  targetNodeId : NodeId
  kind : String
  confidence : F64
  epistemicStatus : String
deriving DecidableEq

structure EdgeEvidenceRow where
  workspace : String
  edgeId : EdgeId
  evidenceId : EvidenceId
deriving DecidableEq

structure FreshnessRow where
  workspace : String
  repoId : RepoId
  checkoutId : CheckoutId
  headCommit : Option String
  manifestHash : String
  state : String
  reason : Option String
deriving DecidableEq

structure HttpCoverageRow where
  workspace : String
  linked : Int64
  noProvider : Int64
  ambiguous : Int64
  external : Int64
deriving DecidableEq

structure HttpGapRow where
  workspace : String
  callerNodeId : NodeId
  method : String
  path : String
  reason : String
  candidatesJson : String
deriving DecidableEq

structure ExtractorRunRow where
  workspace : String
  id : String
  repoId : RepoId
  checkoutId : Option CheckoutId
  extractor : String
  extractorVersion : String
  status : String
  discoveredFiles : Int64
  parsedFiles : Int64
  skippedFiles : Int64
  elapsedMs : Int64
deriving DecidableEq

structure ArtifactKey where
  repoId : RepoId
  checkoutId : CheckoutId
  pathEncoding : String
  relativePath : Bytes
  extractor : String
deriving DecidableEq

@[ext] structure FingerprintRow where
  workspace : String
  artifact : ArtifactKey
  pathDisplay : String
  contentHash : String
  sizeBytes : Int64
deriving DecidableEq

@[ext] structure BatchRow where
  workspace : String
  artifact : ArtifactKey
  pathDisplay : String
  contentHash : String
  sizeBytes : Int64
  extractorVersion : String
  budgetFingerprint : String
  sourceWasLossy : Bool
  outputCount : Int64
  payloadHash : String
  payload : Bytes
deriving DecidableEq

structure CommunitySnapshotRow where
  snapshotId : String
  workspace : String
  engineVersion : String
  algorithm : String
  configJson : String
deriving DecidableEq

structure CommunityRow where
  snapshotId : String
  id : CommunityId
  label : String
  metricsJson : String
  explanationJson : String
deriving DecidableEq

structure MembershipRow where
  snapshotId : String
  communityId : CommunityId
  nodeId : NodeId
  memberOrder : Nat
deriving DecidableEq

structure ManualLinkRow where
  workspace : String
  id : String
  sourceNodeId : NodeId
  targetNodeId : NodeId
  kind : String
  disposition : String
  reason : String
  decisionJson : Bytes
  configVersion : UInt32
deriving DecidableEq

structure CapabilityRow where
  workspace : String
  repoId : RepoId
  provider : String
  providerVersion : String
deriving DecidableEq

structure QueryCacheRow where
  workspace : String
  snapshotId : String
  inputFingerprint : String
deriving DecidableEq

structure Db where
  workspaces : List WorkspaceRow := []
  repositories : List RepositoryRow := []
  checkouts : List CheckoutRow := []
  registrations : List RegistrationRow := []
  snapshots : List SnapshotRow := []
  nodes : List NodeRow := []
  evidence : List EvidenceRow := []
  edges : List EdgeRow := []
  edgeEvidence : List EdgeEvidenceRow := []
  freshness : List FreshnessRow := []
  httpCoverage : List HttpCoverageRow := []
  httpGaps : List HttpGapRow := []
  runs : List ExtractorRunRow := []
  fingerprints : List FingerprintRow := []
  batches : List BatchRow := []
  communitySnapshots : List CommunitySnapshotRow := []
  communities : List CommunityRow := []
  memberships : List MembershipRow := []
  manualLinks : List ManualLinkRow := []
  capabilities : List CapabilityRow := []
  queryCache : List QueryCacheRow := []
deriving DecidableEq

namespace NodeRow
def key (row : NodeRow) : String × NodeId := (row.workspace, row.id)
end NodeRow

namespace EvidenceRow
def key (row : EvidenceRow) : String × EvidenceId := (row.workspace, row.id)

def linesValid (row : EvidenceRow) : Bool :=
  row.startLine.all (0 < ·) &&
    row.endLine.all fun last => 0 < last && row.startLine.all (· ≤ last)
end EvidenceRow

namespace EdgeRow
def key (row : EdgeRow) : String × EdgeId := (row.workspace, row.id)
def sourceKey (row : EdgeRow) : String × NodeId := (row.workspace, row.sourceNodeId)
def targetKey (row : EdgeRow) : String × NodeId := (row.workspace, row.targetNodeId)
end EdgeRow

namespace EdgeEvidenceRow
def edgeKey (row : EdgeEvidenceRow) : String × EdgeId := (row.workspace, row.edgeId)
def evidenceKey (row : EdgeEvidenceRow) : String × EvidenceId := (row.workspace, row.evidenceId)
end EdgeEvidenceRow

namespace HttpGapRow
def key (row : HttpGapRow) : String × NodeId × String × String × String :=
  (row.workspace, row.callerNodeId, row.method, row.path, row.reason)

def valid (json : JsonFunctions) (row : HttpGapRow) : Bool :=
  sizeBetween 1 2048 row.callerNodeId && sizeBetween 1 32 row.method && sizeBetween 1 4096 row.path &&
    ["no_provider", "ambiguous", "external"].contains row.reason &&
    json.valid (utf8 row.candidatesJson) && json.isArray (utf8 row.candidatesJson)
end HttpGapRow

namespace FingerprintRow
def key (row : FingerprintRow) : String × ArtifactKey := (row.workspace, row.artifact)
end FingerprintRow

namespace BatchRow
def key (row : BatchRow) : String × ArtifactKey := (row.workspace, row.artifact)
end BatchRow

namespace MembershipRow
def communityKey (row : MembershipRow) : String × CommunityId := (row.snapshotId, row.communityId)
end MembershipRow

namespace ManualLinkRow
def sourceKey (row : ManualLinkRow) : String × NodeId := (row.workspace, row.sourceNodeId)
def targetKey (row : ManualLinkRow) : String × NodeId := (row.workspace, row.targetNodeId)

def valid (json : JsonFunctions) (row : ManualLinkRow) : Bool :=
  sizeBetween 1 2048 row.id && nonBlank row.id &&
    sizeBetween 1 2048 row.sourceNodeId && nonBlank row.sourceNodeId &&
    sizeBetween 1 2048 row.targetNodeId && nonBlank row.targetNodeId &&
    sizeBetween 1 256 row.kind && nonBlank row.kind &&
    ["active", "suppression"].contains row.disposition &&
    sizeBetween 1 4096 row.reason && nonBlank row.reason &&
    2 ≤ row.decisionJson.length && row.decisionJson.length ≤ 262144 && json.valid row.decisionJson &&
    1 ≤ row.configVersion && row.configVersion ≤ 2147483647
end ManualLinkRow

namespace Db

section Constraints

variable (json : JsonFunctions) (db : Db)

def workspaceNames : List String := db.workspaces.map (·.name)
def repositoryIds : List RepoId := db.repositories.map (·.id)
def checkoutIds : List CheckoutId := db.checkouts.map (·.id)
def snapshotKeys : List (String × String) := db.snapshots.map fun row => (row.id, row.workspace)
def nodeKeys : List (String × NodeId) := db.nodes.map NodeRow.key
def evidenceKeys : List (String × EvidenceId) := db.evidence.map EvidenceRow.key
def edgeKeys : List (String × EdgeId) := db.edges.map EdgeRow.key
def communitySnapshotIds : List String := db.communitySnapshots.map (·.snapshotId)
def communityKeys : List (String × CommunityId) :=
  db.communities.map fun row => (row.snapshotId, row.id)

/-- The primary keys and the `UNIQUE` constraints. -/
@[mk_iff] structure KeysDistinct : Prop where
  workspaces : db.workspaceNames.Nodup
  workspaceIds : (db.workspaces.filterMap (·.id)).Nodup
  repositories : db.repositoryIds.Nodup
  checkouts : db.checkoutIds.Nodup
  registrations : (db.registrations.map fun row => (row.workspace, row.aliasName)).Nodup
  snapshots : (db.snapshots.map (·.workspace)).Nodup
  snapshotIds : (db.snapshots.map (·.id)).Nodup
  nodes : db.nodeKeys.Nodup
  evidence : db.evidenceKeys.Nodup
  edges : db.edgeKeys.Nodup
  edgeEvidence : db.edgeEvidence.Nodup
  freshness : (db.freshness.map fun row => (row.workspace, row.repoId, row.checkoutId)).Nodup
  httpCoverage : (db.httpCoverage.map (·.workspace)).Nodup
  httpGaps : (db.httpGaps.map HttpGapRow.key).Nodup
  runs : (db.runs.map fun row => (row.workspace, row.id)).Nodup
  fingerprints : (db.fingerprints.map FingerprintRow.key).Nodup
  batches : (db.batches.map BatchRow.key).Nodup
  communitySnapshots : db.communitySnapshotIds.Nodup
  communities : db.communityKeys.Nodup
  memberships : (db.memberships.map fun row => (row.snapshotId, row.communityId, row.nodeId)).Nodup
  memberOrders :
    (db.memberships.map fun row => (row.snapshotId, row.communityId, row.memberOrder)).Nodup
  manualLinks : (db.manualLinks.map fun row => (row.workspace, row.id)).Nodup
  manualEndpoints : (db.manualLinks.map fun row =>
    (row.workspace, row.sourceNodeId, row.targetNodeId, row.kind)).Nodup
  capabilities :
    (db.capabilities.map fun row => (row.workspace, row.repoId, row.provider, row.providerVersion)).Nodup
  queryCache :
    (db.queryCache.map fun row => (row.workspace, row.snapshotId, row.inputFingerprint)).Nodup

/-- The foreign keys. -/
@[mk_iff] structure ReferencesHold : Prop where
  checkouts : ∀ row ∈ db.checkouts, row.repoId ∈ db.repositoryIds
  registrations : ∀ row ∈ db.registrations, row.workspace ∈ db.workspaceNames ∧
    row.repoId ∈ db.repositoryIds ∧ row.checkoutId ∈ db.checkoutIds
  snapshots : ∀ row ∈ db.snapshots, row.workspace ∈ db.workspaceNames
  nodes : ∀ row ∈ db.nodes, row.workspace ∈ db.workspaceNames
  evidence : ∀ row ∈ db.evidence, row.workspace ∈ db.workspaceNames
  edges : ∀ row ∈ db.edges, row.sourceKey ∈ db.nodeKeys ∧ row.targetKey ∈ db.nodeKeys
  edgeEvidence : ∀ row ∈ db.edgeEvidence,
    row.edgeKey ∈ db.edgeKeys ∧ row.evidenceKey ∈ db.evidenceKeys
  freshness : ∀ row ∈ db.freshness, row.workspace ∈ db.workspaceNames ∧
    row.repoId ∈ db.repositoryIds ∧ row.checkoutId ∈ db.checkoutIds
  httpCoverage : ∀ row ∈ db.httpCoverage, row.workspace ∈ db.workspaceNames
  httpGaps : ∀ row ∈ db.httpGaps, row.workspace ∈ db.workspaceNames
  runs : ∀ row ∈ db.runs, row.workspace ∈ db.workspaceNames ∧ row.repoId ∈ db.repositoryIds ∧
    ∀ id ∈ row.checkoutId, id ∈ db.checkoutIds
  fingerprints : ∀ row ∈ db.fingerprints, row.workspace ∈ db.workspaceNames ∧
    row.artifact.repoId ∈ db.repositoryIds ∧ row.artifact.checkoutId ∈ db.checkoutIds
  batches : ∀ row ∈ db.batches, row.workspace ∈ db.workspaceNames ∧
    row.artifact.repoId ∈ db.repositoryIds ∧ row.artifact.checkoutId ∈ db.checkoutIds
  communitySnapshots : ∀ row ∈ db.communitySnapshots, row.workspace ∈ db.workspaceNames
  communities : ∀ row ∈ db.communities, row.snapshotId ∈ db.communitySnapshotIds
  memberships : ∀ row ∈ db.memberships, row.communityKey ∈ db.communityKeys
  manualLinks : ∀ row ∈ db.manualLinks, row.sourceKey ∈ db.nodeKeys ∧ row.targetKey ∈ db.nodeKeys
  capabilities : ∀ row ∈ db.capabilities,
    row.workspace ∈ db.workspaceNames ∧ row.repoId ∈ db.repositoryIds
  queryCache : ∀ row ∈ db.queryCache, (row.snapshotId, row.workspace) ∈ db.snapshotKeys

/-- The `CHECK` constraints that the types of the columns do not imply. -/
@[mk_iff] structure ChecksHold : Prop where
  evidence : ∀ row ∈ db.evidence, row.linesValid ∧ unitReal row.confidence
  edges : ∀ row ∈ db.edges, unitReal row.confidence
  httpCoverage : ∀ row ∈ db.httpCoverage,
    0 ≤ row.linked ∧ 0 ≤ row.noProvider ∧ 0 ≤ row.ambiguous ∧ 0 ≤ row.external
  httpGaps : ∀ row ∈ db.httpGaps, row.valid json
  fingerprints : ∀ row ∈ db.fingerprints, 0 ≤ row.sizeBytes
  batches : ∀ row ∈ db.batches, 0 ≤ row.sizeBytes ∧ 0 ≤ row.outputCount ∧ json.valid row.payload
  communitySnapshots : ∀ row ∈ db.communitySnapshots,
    json.valid (utf8 row.algorithm) ∧ row.algorithm.utf8ByteSize ≤ 256 ∧
      json.valid (utf8 row.configJson) ∧ row.configJson.utf8ByteSize ≤ 65536
  communities : ∀ row ∈ db.communities,
    json.valid (utf8 row.metricsJson) ∧ row.metricsJson.utf8ByteSize ≤ 65536 ∧
      json.valid (utf8 row.explanationJson) ∧ row.explanationJson.utf8ByteSize ≤ 1048576
  manualLinks : ∀ row ∈ db.manualLinks, row.valid json
  capabilities : ∀ row ∈ db.capabilities, sizeBetween 1 256 row.provider ∧ nonBlank row.provider ∧
    sizeBetween 1 256 row.providerVersion ∧ nonBlank row.providerVersion
  queryCache : ∀ row ∈ db.queryCache,
    sizeBetween 1 256 row.inputFingerprint ∧ nonBlank row.inputFingerprint

@[mk_iff] structure WellFormed : Prop where
  keys : db.KeysDistinct
  references : db.ReferencesHold
  checks : db.ChecksHold json

set_option synthInstance.maxSize 1000 in
instance : Decidable db.KeysDistinct := decidable_of_iff' _ (keysDistinct_iff db)
set_option synthInstance.maxSize 1000 in
instance : Decidable db.ReferencesHold := decidable_of_iff' _ (referencesHold_iff db)
instance : Decidable (db.ChecksHold json) := decidable_of_iff' _ (checksHold_iff json db)
instance : Decidable (db.WellFormed json) := decidable_of_iff' _ (wellFormed_iff json db)

/-- The end of a statement: its result stands when the constraints hold of it. -/
def checked : Except StoreError Db := if db.WellFormed json then .ok db else .error .constraint

variable {json db}

@[simp] theorem checked_eq_ok {db' : Db} : db.checked json = .ok db' ↔ db' = db ∧ db.WellFormed json := by
  unfold checked
  split
  · next holds => simp [holds, eq_comm]
  · next fails => simp [fails]

end Constraints

section Deletes

/-! `DELETE` with the rows that `ON DELETE CASCADE` takes along, before the
constraints are checked. -/

variable (db : Db)

instance keyLawful : LawfulBEq (String × String) := inferInstance

def deleteEdges (p : EdgeRow → Bool) : Db :=
  let gone := (db.edges.filter p).map EdgeRow.key
  { db with
    edges := db.edges.filter fun row => !p row
    edgeEvidence := db.edgeEvidence.filter fun row => row.edgeKey ∉ gone }

def deleteNodes (p : NodeRow → Bool) : Db :=
  let gone := (db.nodes.filter p).map NodeRow.key
  { db with
    nodes := db.nodes.filter fun row => !p row
    manualLinks := db.manualLinks.filter fun row => row.sourceKey ∉ gone ∧ row.targetKey ∉ gone
    }.deleteEdges fun row => row.sourceKey ∈ gone ∨ row.targetKey ∈ gone

def deleteEvidence (p : EvidenceRow → Bool) : Db :=
  let gone := (db.evidence.filter p).map EvidenceRow.key
  { db with
    evidence := db.evidence.filter fun row => !p row
    edgeEvidence := db.edgeEvidence.filter fun row => row.evidenceKey ∉ gone }

def deleteSnapshots (p : SnapshotRow → Bool) : Db :=
  let gone := (db.snapshots.filter p).map fun row => (row.id, row.workspace)
  { db with
    snapshots := db.snapshots.filter fun row => !p row
    queryCache := db.queryCache.filter fun row => (row.snapshotId, row.workspace) ∉ gone }

def deleteCommunities (p : CommunityRow → Bool) : Db :=
  let gone := (db.communities.filter p).map fun row => (row.snapshotId, row.id)
  { db with
    communities := db.communities.filter fun row => !p row
    memberships := db.memberships.filter fun row => row.communityKey ∉ gone }

def deleteCommunitySnapshots (p : CommunitySnapshotRow → Bool) : Db :=
  let gone := (db.communitySnapshots.filter p).map (·.snapshotId)
  { db with communitySnapshots := db.communitySnapshots.filter fun row => !p row
    }.deleteCommunities fun row => row.snapshotId ∈ gone

def deleteCheckouts (p : CheckoutRow → Bool) : Db :=
  { db with checkouts := db.checkouts.filter fun row => !p row }

def deleteRepositories (p : RepositoryRow → Bool) : Db :=
  let gone := (db.repositories.filter p).map (·.id)
  { db with
    repositories := db.repositories.filter fun row => !p row
    capabilities := db.capabilities.filter fun row => row.repoId ∉ gone
    }.deleteCheckouts fun row => row.repoId ∈ gone

def deleteWorkspaces (p : WorkspaceRow → Bool) : Db :=
  let gone := (db.workspaces.filter p).map (·.name)
  { db with
    workspaces := db.workspaces.filter fun row => !p row
    registrations := db.registrations.filter fun row => row.workspace ∉ gone
    freshness := db.freshness.filter fun row => row.workspace ∉ gone
    httpCoverage := db.httpCoverage.filter fun row => row.workspace ∉ gone
    httpGaps := db.httpGaps.filter fun row => row.workspace ∉ gone
    runs := db.runs.filter fun row => row.workspace ∉ gone
    fingerprints := db.fingerprints.filter fun row => row.workspace ∉ gone
    batches := db.batches.filter fun row => row.workspace ∉ gone
    capabilities := db.capabilities.filter fun row => row.workspace ∉ gone
    }.deleteSnapshots (fun row => row.workspace ∈ gone)
    |>.deleteNodes (fun row => row.workspace ∈ gone)
    |>.deleteEvidence (fun row => row.workspace ∈ gone)
    |>.deleteCommunitySnapshots fun row => row.workspace ∈ gone

end Deletes

end Db

end CodeSystemGraph.Store
