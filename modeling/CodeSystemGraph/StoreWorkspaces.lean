import CodeSystemGraph.Steps
import CodeSystemGraph.StoreValidation

/-! The registry of workspaces: how a record replaces the registrations of its
workspace, how a snapshot is published, and how a workspace is removed together
with the repositories and checkouts that no registration names any more. Each
operation is a transaction, an error leaves the tables as they were. -/

namespace CodeSystemGraph.Store
open Model Ordered Relational Routes Text

section Registry

variable (json : JsonFunctions)

def workspaceRow (record : WorkspaceRecord) : WorkspaceRow where
  name := record.name
  manifestHash := record.manifestHash
  id := some record.id
  configPathEncoding := record.configPath.map fun path => quoted (encodingName path.encoding)
  configPath := record.configPath.map (·.bytes)
  configPathDisplay := record.configPath.map (·.display)

def repositoryRow (repository : RepositoryRecord) : RepositoryRow where
  id := repository.id
  normalizedRemote := repository.normalizedRemote
  gitCommonPathEncoding :=
    repository.gitCommonDir.map fun path => quoted (encodingName path.encoding)
  gitCommonPath := repository.gitCommonDir.map (·.bytes)
  gitCommonPathDisplay := repository.gitCommonDir.map (·.display)

def checkoutRow (repository : RepositoryRecord) : CheckoutRow where
  id := repository.checkoutId
  repoId := repository.id
  pathEncoding := quoted (encodingName repository.canonicalPath.encoding)
  canonicalPath := repository.canonicalPath.bytes
  pathDisplay := repository.canonicalPath.display
  headCommit := repository.headCommit
  isLinkedWorktree := repository.isLinkedWorktree
  workingTreeDirty := repository.workingTreeDirty

def registrationRow (workspace : String) (repository : RepositoryRecord) : RegistrationRow :=
  ⟨workspace, repository.aliasName, repository.id, repository.checkoutId⟩

def registerRepository (workspace : String) (db : Db) (repository : RepositoryRecord) :
    Except StoreError Db := do
  let db ← { db with
    repositories := put RepositoryRow.id db.repositories (repositoryRow repository) }.checked json
  let db ← { db with
    checkouts := put CheckoutRow.id db.checkouts (checkoutRow repository) }.checked json
  { db with registrations := db.registrations ++ [registrationRow workspace repository]
    }.checked json

def upsertRegistry (record : WorkspaceRecord) (db : Db) : Except StoreError Db := do
  let db ← { db with
    workspaces := put WorkspaceRow.name db.workspaces (workspaceRow record) }.checked json
  let db ← { db with
    registrations := db.registrations.filter fun row => row.workspace ≠ record.name }.checked json
  record.repositories.foldlM (registerRepository json record.name) db

def saveWorkspaceRegistry (record : WorkspaceRecord) (db : Db) : Except StoreError Db :=
  upsertRegistry json record db

namespace Db

def registersCheckout (db : Db) (id : CheckoutId) : Bool :=
  db.registrations.any fun row => row.checkoutId = id

def registersRepository (db : Db) (id : RepoId) : Bool :=
  db.registrations.any fun row => row.repoId = id

end Db

def removeWorkspace (workspace : String) (db : Db) : Except StoreError (Db × Bool) := do
  let removed := db.workspaces.countP fun row => row.name = workspace
  let db ← (db.deleteWorkspaces fun row => row.name = workspace).checked json
  let db ← (db.deleteCheckouts fun row => !db.registersCheckout row.id).checked json
  let db ← (db.deleteRepositories fun row => !db.registersRepository row.id).checked json
  pure (db, 0 < removed)

end Registry

section Validation

def validateSafeMetadata (field value : String) (minBytes maxBytes : Nat) : Except StoreError Unit := do
  ensure (sizeBetween minBytes maxBytes value && !(trim value.toList).isEmpty)
    (.invalidPersistenceRecord (field ++ " must contain between " ++ toString minBytes ++ " and " ++
      toString maxBytes ++ " non-blank UTF-8 bytes"))
  ensure (!containsUnsafeMetadataCharacters value)
    (.invalidPersistenceRecord (field ++ " contains unsafe control or bidirectional characters"))

def validateArtifactFingerprint (fingerprint : ArtifactFingerprint) : Except StoreError Unit := do
  validateSafeMetadata "artifact path display" fingerprint.path.display 1 4096
  validateSafeMetadata "extractor" fingerprint.extractor 1 256
  validateSafeMetadata "artifact content hash" fingerprint.contentHash 1 128

def validateArtifactFingerprints (fingerprints : List ArtifactFingerprint) : Except StoreError Unit :=
  fingerprints.forM validateArtifactFingerprint

def edgeKinds : List EdgeKind :=
  [.contains, .provides, .consumes, .callsRemote, .publishes, .subscribes, .deliversTo,
    .dependsOnPackage, .dependsOnRepository, .readsTable, .writesTable, .deploys, .configures,
    .documents, .ownedBy, .implementedBy, .validates, .changedIn, .affects, .precedes, .reverts,
    .compatibleWith, .incompatibleWith, .memberOf, .manualLink]

def parseEdgeKind (name : String) : Except String EdgeKind :=
  match edgeKinds.find? fun kind => edgeKindName kind = name with
  | some kind => .ok kind
  | none => .error ("unknown variant `" ++ name ++ "`, expected one of " ++
      ", ".intercalate (edgeKinds.map fun kind => "`" ++ edgeKindName kind ++ "`"))

def expectedStatus : ManualLinkDisposition → LinkStatus
  | .active => .confirmed
  | .suppression => .suppressed

def validateManualLinkDecision (record : ManualLinkRecord) : Except StoreError Unit := do
  ensure (record.decision.json.length ≤ 262144)
    (.invalidPersistenceRecord
      ("manual link `" ++ record.id ++ "` decision exceeds 262144 bytes"))
  let relation ← (parseEdgeKind record.kind).mapError fun error =>
    .invalidPersistenceRecord ("manual link `" ++ record.id ++ "` kind is invalid: " ++ error)
  ensure (record.decision.source = record.sourceNodeId && record.decision.target = record.targetNodeId &&
      record.decision.relation = relation &&
      record.decision.status = expectedStatus record.disposition &&
      record.decision.reasons.head? = some record.reason)
    (.invalidPersistenceRecord
      ("manual link `" ++ record.id ++ "` decision does not match its persisted declaration"))

/-- The loop over the records, with the identifiers and the declarations seen before. -/
def validateManualLinksFrom (snapshotId : String) (nodeIds : List NodeId) :
    List String → List (NodeId × NodeId × String) → List ManualLinkRecord → Except StoreError Unit
  | _, _, [] => .ok ()
  | ids, declarations, record :: records => do
    let declaration := (record.sourceNodeId, record.targetNodeId, record.kind)
    ensure (record.snapshotId = snapshotId)
      (.invalidPersistenceRecord ("manual link `" ++ record.id ++ "` belongs to snapshot `" ++
        record.snapshotId ++ "`, not `" ++ snapshotId ++ "`"))
    validateSafeMetadata "manual link identifier" record.id 1 2048
    validateSafeMetadata "manual link source node" record.sourceNodeId 1 2048
    validateSafeMetadata "manual link target node" record.targetNodeId 1 2048
    validateSafeMetadata "manual link kind" record.kind 1 256
    validateSafeMetadata "manual link reason" record.reason 1 4096
    validateManualLinkDecision record
    ensure (1 ≤ record.configVersion && record.configVersion ≤ 2147483647)
      (.invalidPersistenceRecord
        ("manual link `" ++ record.id ++ "` config version is outside 1..=2147483647"))
    ensure (record.id ∉ ids)
      (.invalidPersistenceRecord ("manual link identifier `" ++ record.id ++
        "` is duplicated in snapshot `" ++ snapshotId ++ "`"))
    ensure (declaration ∉ declarations)
      (.invalidPersistenceRecord
        ("manual link endpoints and kind are duplicated in snapshot `" ++ snapshotId ++ "`"))
    ensure (record.sourceNodeId ∈ nodeIds && record.targetNodeId ∈ nodeIds)
      (.invalidPersistenceRecord ("manual link `" ++ record.id ++
        "` references a node absent from snapshot `" ++ snapshotId ++ "`"))
    validateManualLinksFrom snapshotId nodeIds (record.id :: ids) (declaration :: declarations) records

def validateManualLinks (snapshotId : String) (records : List ManualLinkRecord) (nodes : List Node) :
    Except StoreError Unit := do
  validateSafeMetadata "snapshot identifier" snapshotId 1 2048
  validateManualLinksFrom snapshotId (nodes.map Node.id) [] [] records

def validateCommunity (snapshotId : String) (nodeIds : List NodeId) (community : Community) :
    Except StoreError Unit :=
  eachDistinct id (.duplicateCommunityMembership snapshotId community.id)
    (fun member => ensure (member ∈ nodeIds)
      (.communityMembershipNodeMissing snapshotId community.id member)) [] community.members

def validateCommunitySnapshot (snapshotId : String) (nodes : List Node) :
    Option CommunitySnapshot → Except StoreError Unit
  | none => .ok ()
  | some snapshot => do
    ensure (snapshot.snapshotId = snapshotId)
      (.communitySnapshotMismatch snapshotId snapshot.snapshotId)
    eachDistinct Community.id (fun community => .duplicateCommunityId snapshotId community.id)
      (validateCommunity snapshotId (nodes.map Node.id)) [] snapshot.communities

end Validation

section Operations

variable {Digest : Type} [DecidableEq Digest] (lib : Libraries Digest)

/-- `publish_snapshot_with_progress_and_coverage`; `publish_snapshot` is the case without
an artifact delta, coverage gaps and link report. -/
def publishSnapshot (input : PublicationInput) (db : Db) : Except StoreError Db := do
  validateGraphSnapshot input.nodes input.edges input.evidence
  validateArtifactFingerprints input.fingerprints
  validateManualLinks input.snapshotId input.manualLinks input.nodes
  validateCommunitySnapshot input.snapshotId input.nodes input.communitySnapshot
  let db ← upsertRegistry lib.json input.workspace db
  publishCurrentGraph lib input db

inductive Operation
  | save (record : WorkspaceRecord)
  | publish (input : PublicationInput)
  | remove (workspace : String)

/-- The tables after a call; a call that fails is not a step, it changes nothing. -/
def operate (db : Db) : Operation → Option Db
  | .save record => (saveWorkspaceRegistry lib.json record db).toOption
  | .publish input => (publishSnapshot lib input db).toOption
  | .remove workspace => (removeWorkspace lib.json workspace db).toOption.map Prod.fst

end Operations

end CodeSystemGraph.Store
