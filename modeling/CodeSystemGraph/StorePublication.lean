import CodeSystemGraph.Relational
import CodeSystemGraph.StoreRecords

/-! Delta publication of the current graph of a workspace. Every function runs
inside the caller's transaction: an error leaves the stored tables as they
were. The progress callback is left out. -/

namespace CodeSystemGraph.Store
open Ieee Model Ordered Relational Routes

variable {Digest : Type} [DecidableEq Digest] (lib : Libraries Digest) (workspace : String)

def digestOf (parts : List Part) : Digest := lib.hash (hasherInput parts)

/-- The keys that no candidate claimed, in order. -/
def sortedKeys (left : List (String × Digest)) : List String := sortBy id (left.map Prod.fst)

section Graph

def nodeParts (kind : String) (repoId : Option String) (stableKey label : String) : List Part :=
  [.text kind, .optionalText repoId, .text stableKey, .text label]

def storedNodes (db : Db) : List (NodeId × Digest) :=
  (db.nodes.filter fun row => row.workspace = workspace).map fun row =>
    (row.id, digestOf lib (nodeParts row.kind row.repoId row.stableKey row.label))

def nodeDigest (node : Node) : Digest :=
  digestOf lib (nodeParts (quoted (nodeKindName node.kind)) node.repoId node.stableKey node.label)

def upsertNodes (nodes : List Node) (db : Db) : Except StoreError (Db × List NodeId) := do
  let (db, left) ← reconcile (·.id) (fun node => .ok (nodeDigest lib node))
    (fun db _ node =>
      { db with nodes := put NodeRow.key db.nodes (nodeRow workspace node) }.checked lib.json)
    nodes (storedNodes lib workspace db) db
  pure (db, sortedKeys left)

def evidenceParts (repoId filePath : Option String) (startLine endLine : Option Int64)
    (extractor extractorVersion provenance : String) (confidence : F32)
    (contentHash observedAtCommit : Option String) : List Part :=
  [.optionalText repoId, .optionalText filePath, .integer startLine, .integer endLine,
    .text extractor, .text extractorVersion, .text provenance,
    .integer (some (confidenceBits confidence)), .optionalText contentHash,
    .optionalText observedAtCommit]

def storedEvidence (db : Db) : List (EvidenceId × Digest) :=
  (db.evidence.filter fun row => row.workspace = workspace).map fun row =>
    (row.id, digestOf lib (evidenceParts row.repoId row.filePath row.startLine row.endLine
      row.extractor row.extractorVersion row.provenance (narrow row.confidence) row.contentHash
      row.observedAtCommit))

def evidenceDigest (item : Evidence) : Digest :=
  digestOf lib (evidenceParts item.repoId item.filePath
    (item.startLine.map fun line => .ofNat line.toNat)
    (item.endLine.map fun line => .ofNat line.toNat) item.extractor item.extractorVersion
    (quoted (provenanceName item.provenance)) item.confidence item.contentHash
    item.observedAtCommit)

def upsertEvidence (evidence : List Evidence) (db : Db) :
    Except StoreError (Db × List EvidenceId) := do
  let (db, left) ← reconcile (·.id) (fun item => .ok (evidenceDigest lib item))
    (fun db _ item =>
      { db with evidence := put EvidenceRow.key db.evidence (evidenceRow workspace item)
        }.checked lib.json)
    evidence (storedEvidence lib workspace db) db
  pure (db, sortedKeys left)

def edgeParts (source target kind : String) (confidence : F32) (status : String)
    (evidence : List EvidenceId) : List Part :=
  [.text source, .text target, .text kind, .integer (some (confidenceBits confidence)),
    .text status] ++ evidence.map .text

/-- The evidence of one stored edge in the order of the identifiers. -/
def storedEdgeEvidence (db : Db) (edgeId : EdgeId) : List EvidenceId :=
  ((sortBy (fun row : EdgeEvidenceRow => toLex (row.edgeId, row.evidenceId))
    (db.edgeEvidence.filter fun row => row.workspace = workspace)).filter
      fun row => row.edgeId = edgeId).map (·.evidenceId)

def storedEdges (db : Db) : List (EdgeId × Digest) :=
  (db.edges.filter fun row => row.workspace = workspace).map fun row =>
    (row.id, digestOf lib (edgeParts row.sourceNodeId row.targetNodeId row.kind
      (narrow row.confidence) row.epistemicStatus (storedEdgeEvidence workspace db row.id)))

def edgeDigest (edge : Edge) : Digest :=
  digestOf lib (edgeParts edge.source edge.target (quoted (edgeKindName edge.kind))
    edge.confidence (quoted (statusName edge.status)) (sortBy id edge.evidence))

def deleteEdge (db : Db) (id : EdgeId) : Except StoreError Db :=
  (db.deleteEdges fun row => row.workspace = workspace ∧ row.id = id).checked lib.json

def insertEdgeEvidence (db : Db) (row : EdgeEvidenceRow) : Except StoreError Db :=
  { db with edgeEvidence := db.edgeEvidence ++ [row] }.checked lib.json

/-- One changed edge, deleted first if it was stored. -/
def writeEdge (db : Db) (edge : Edge) (existed : Bool) : Except StoreError Db := do
  let db ← (if existed then deleteEdge lib workspace db edge.id else .ok db)
  let db ← { db with edges := db.edges ++ [edgeRow workspace edge] }.checked lib.json
  (edgeEvidenceRows workspace edge).foldlM (insertEdgeEvidence lib) db

def replaceChangedEdges (edges : List Edge) (db : Db) : Except StoreError Db := do
  let (changed, left) ← reconcile (·.id) (fun edge => .ok (edgeDigest lib edge))
    (fun changed previous edge => .ok (changed ++ [(edge, previous.isSome)]))
    edges (storedEdges lib workspace db) ([] : List (Edge × Bool))
  let db ← (sortedKeys left).foldlM (deleteEdge lib workspace) db
  changed.foldlM (fun db (edge, existed) => writeEdge lib workspace db edge existed) db

def replaceManualLinks (records : List ManualLinkRecord) (db : Db) : Except StoreError Db := do
  let db ← { db with
    manualLinks := db.manualLinks.filter fun row => row.workspace ≠ workspace }.checked lib.json
  records.foldlM (fun db record =>
    { db with manualLinks := db.manualLinks ++ [manualLinkRow workspace record]
      }.checked lib.json) db

def deleteNode (db : Db) (id : NodeId) : Except StoreError Db :=
  (db.deleteNodes fun row => row.workspace = workspace ∧ row.id = id).checked lib.json

def deleteEvidenceItem (db : Db) (id : EvidenceId) : Except StoreError Db :=
  (db.deleteEvidence fun row => row.workspace = workspace ∧ row.id = id).checked lib.json

end Graph

section Artifacts

def sortedArtifacts (left : List (ArtifactKey × Digest)) : List ArtifactKey :=
  sortBy ArtifactKey.order (left.map Prod.fst)

def writeFingerprint (db : Db) (fingerprint : ArtifactFingerprint) : Except StoreError Db := do
  let _ ← metricToI64 "artifact_fingerprints.size_bytes" fingerprint.sizeBytes
  { db with
    fingerprints := put FingerprintRow.key db.fingerprints (fingerprintRow workspace fingerprint)
    }.checked lib.json

def deleteFingerprint (db : Db) (key : ArtifactKey) : Except StoreError Db :=
  { db with
    fingerprints := db.fingerprints.filter fun row => row.key ≠ (workspace, key) }.checked lib.json

def fingerprintParts (display contentHash : String) (sizeBytes : Int64) : List Part :=
  [.text display, .text contentHash, .integer (some sizeBytes)]

def storedFingerprints (db : Db) : List (ArtifactKey × Digest) :=
  (db.fingerprints.filter fun row => row.workspace = workspace).map fun row =>
    (row.artifact, digestOf lib (fingerprintParts row.pathDisplay row.contentHash row.sizeBytes))

def fingerprintDigest (fingerprint : ArtifactFingerprint) : Except StoreError Digest := do
  let sizeBytes ← metricToI64 "artifact_fingerprints.size_bytes" fingerprint.sizeBytes
  pure (digestOf lib
    (fingerprintParts fingerprint.path.display fingerprint.contentHash sizeBytes))

def upsertFingerprints (fingerprints : List ArtifactFingerprint) (db : Db) :
    Except StoreError Db := do
  let (db, left) ← reconcile artifactKey (fingerprintDigest lib)
    (fun db _ fingerprint => writeFingerprint lib workspace db fingerprint)
    fingerprints (storedFingerprints lib workspace db) db
  (sortedArtifacts left).foldlM (deleteFingerprint lib workspace) db

def payloadHash (batch : StoredExtractorBatch) : String := lib.toHex (lib.hash batch.payload)

def writeBatch (db : Db) (batch : StoredExtractorBatch) : Except StoreError Db := do
  let _ ← metricToI64 "extractor_batches.size_bytes" batch.source.sizeBytes
  let _ ← metricToI64 "extractor_batches.output_count" batch.outputCount
  { db with
    batches := put BatchRow.key db.batches (batchRow workspace (payloadHash lib batch) batch)
    }.checked lib.json

def deleteBatch (db : Db) (key : ArtifactKey) : Except StoreError Db :=
  { db with batches := db.batches.filter fun row => row.key ≠ (workspace, key) }.checked lib.json

/-- The payload itself is not part of the digest, only its stored hash. -/
def batchParts (display contentHash : String) (sizeBytes : Int64)
    (extractorVersion budgetFingerprint : String) (sourceWasLossy : Bool) (outputCount : Int64)
    (payloadHash : String) : List Part :=
  [.text display, .text contentHash, .integer (some sizeBytes), .text extractorVersion,
    .text budgetFingerprint, .integer (some (if sourceWasLossy then 1 else 0)),
    .integer (some outputCount), .text payloadHash]

def storedBatches (db : Db) : List (ArtifactKey × Digest) :=
  (db.batches.filter fun row => row.workspace = workspace).map fun row =>
    (row.artifact, digestOf lib (batchParts row.pathDisplay row.contentHash row.sizeBytes
      row.extractorVersion row.budgetFingerprint row.sourceWasLossy row.outputCount
      row.payloadHash))

def batchDigest (batch : StoredExtractorBatch) : Except StoreError Digest := do
  let sizeBytes ← metricToI64 "extractor_batches.size_bytes" batch.source.sizeBytes
  let outputCount ← metricToI64 "extractor_batches.output_count" batch.outputCount
  pure (digestOf lib (batchParts batch.source.path.display batch.source.contentHash sizeBytes
    batch.extractorVersion batch.budgetFingerprint batch.sourceWasLossy outputCount
    (payloadHash lib batch)))

def upsertExtractorBatches (batches : List StoredExtractorBatch) (db : Db) :
    Except StoreError Db := do
  let (db, left) ← reconcile (fun batch => artifactKey batch.source) (batchDigest lib)
    (fun db _ batch => writeBatch lib workspace db batch)
    batches (storedBatches lib workspace db) db
  (sortedArtifacts left).foldlM (deleteBatch lib workspace) db

def changeKey (change : ArtifactChange) : ArtifactKey :=
  ⟨change.repoId, change.checkoutId, quoted (encodingName change.path.encoding),
    change.path.bytes, change.extractor⟩

def applyArtifactDelta (delta : ArtifactDelta) (db : Db) : Except StoreError Db := do
  let db ← delta.upsertedFingerprints.foldlM (writeFingerprint lib workspace) db
  let db ← delta.upsertedBatches.foldlM (writeBatch lib workspace) db
  let db ← (delta.removed.map changeKey).foldlM (deleteFingerprint lib workspace) db
  (delta.removed.map changeKey).foldlM (deleteBatch lib workspace) db

end Artifacts

section Reports

def insertRun (db : Db) (run : ExtractorRun) : Except StoreError Db := do
  let discoveredFiles ← metricToI64 "extractor_runs.discovered_files" run.discoveredFiles
  let parsedFiles ← metricToI64 "extractor_runs.parsed_files" run.parsedFiles
  let skippedFiles ← metricToI64 "extractor_runs.skipped_files" run.skippedFiles
  let elapsedMs ← metricToI64 "extractor_runs.elapsed_ms" run.elapsedMs
  let row : ExtractorRunRow :=
    { workspace := workspace, id := run.id, repoId := run.repoId, checkoutId := some run.checkoutId
      extractor := run.extractor, extractorVersion := run.extractorVersion
      status := quoted (runStatusName run.status), discoveredFiles := discoveredFiles
      parsedFiles := parsedFiles, skippedFiles := skippedFiles, elapsedMs := elapsedMs }
  { db with runs := db.runs ++ [row] }.checked lib.json

def replaceExtractorRuns (runs : List ExtractorRun) (db : Db) : Except StoreError Db := do
  let db ← { db with runs := db.runs.filter fun row => row.workspace ≠ workspace }.checked lib.json
  runs.foldlM (insertRun lib workspace) db

def dirtyReason : String := "The repository working tree differed from HEAD when scanned."

def freshnessOf (repository : RepositoryRecord) (coverageGaps : List RepositoryCoverageGap) :
    RepoFreshnessState × Option String :=
  let reasons := sortedUnique
    ((coverageGaps.filter fun gap => gap.repoId = repository.id).map (·.reason))
  if reasons ≠ [] then
    let reasons := if repository.workingTreeDirty then reasons ++ [dirtyReason] else reasons
    (.partialCoverage, some (" ".intercalate reasons))
  else if repository.workingTreeDirty then (.workingTreeChanged, none)
  else (.fresh, none)

def freshnessRow (record : WorkspaceRecord) (coverageGaps : List RepositoryCoverageGap)
    (repository : RepositoryRecord) : FreshnessRow where
  workspace := record.name
  repoId := repository.id
  checkoutId := repository.checkoutId
  headCommit := repository.headCommit
  manifestHash := record.manifestHash
  state := quoted (freshnessName (freshnessOf repository coverageGaps).1)
  reason := (freshnessOf repository coverageGaps).2

def replaceFreshness (record : WorkspaceRecord) (coverageGaps : List RepositoryCoverageGap)
    (db : Db) : Except StoreError Db := do
  let db ← { db with
    freshness := db.freshness.filter fun row => row.workspace ≠ record.name }.checked lib.json
  let db ← record.repositories.foldlM (fun db repository =>
    { db with freshness := db.freshness ++ [freshnessRow record coverageGaps repository]
      }.checked lib.json) db
  { db with
    capabilities := db.capabilities.filter fun row => row.workspace ≠ record.name ∨
      db.registrations.any fun registration =>
        registration.workspace = record.name ∧ registration.repoId = row.repoId
    }.checked lib.json

/-- `i64::try_from` of one counter of the coverage. -/
def coverageCount (field : String) (value : Nat) : Except StoreError Int64 :=
  if value < 2 ^ 63 then .ok (.ofNat value) else .error (.integerOutOfRange field value)

def gapWithinBounds (gap : HttpLinkGap) : Bool :=
  sizeBetween 1 2048 gap.caller && sizeBetween 1 32 gap.method && sizeBetween 1 4096 gap.path

/-- `BTreeSet` of the stored columns. -/
def currentGaps (report : HttpLinkReport) : List HttpGapRow :=
  sortDedup HttpGapRow.order
    ((report.gaps.filter gapWithinBounds).map (gapRow workspace lib.stringsJson))

def previousGaps (db : Db) : List HttpGapRow :=
  sortDedup HttpGapRow.order (db.httpGaps.filter fun row => row.workspace = workspace)

/-- The delete matches the columns of the primary key, not the candidates. -/
def deleteGap (db : Db) (gap : HttpGapRow) : Except StoreError Db :=
  { db with httpGaps := db.httpGaps.filter fun row => row.key ≠ gap.key }.checked lib.json

def insertGap (db : Db) (gap : HttpGapRow) : Except StoreError Db :=
  { db with httpGaps := db.httpGaps ++ [gap] }.checked lib.json

def replaceHttpLinks (report : HttpLinkReport) (db : Db) : Except StoreError Db := do
  let linked ← coverageCount "http_link_coverage.linked" report.coverage.linked
  let noProvider ← coverageCount "http_link_coverage.no_provider" report.coverage.noProvider
  let ambiguous ← coverageCount "http_link_coverage.ambiguous" report.coverage.ambiguous
  let external ← coverageCount "http_link_coverage.external" report.coverage.external
  -- the `WHERE` of the upsert only skips an update that would change nothing
  let db ← { db with
    httpCoverage := put HttpCoverageRow.workspace db.httpCoverage
      ⟨workspace, linked, noProvider, ambiguous, external⟩ }.checked lib.json
  let current := currentGaps lib workspace report
  let previous := previousGaps workspace db
  let db ← (previous.filter (· ∉ current)).foldlM (deleteGap lib) db
  (current.filter (· ∉ previous)).foldlM (insertGap lib) db

def ensureCommunityJsonBound (field text : String) (maxBytes : Nat) : Except StoreError Unit :=
  ensure (text.utf8ByteSize ≤ maxBytes) (.communityJsonTooLarge field text.utf8ByteSize maxBytes)

def insertCommunity (snapshotId : String) (db : Db) (community : Community) :
    Except StoreError Db := do
  ensureCommunityJsonBound "communities.metrics_json" community.metricsJson 65536
  ensureCommunityJsonBound "communities.explanation_json" community.explanationJson 1048576
  let row : CommunityRow := ⟨snapshotId, community.id, community.label, community.metricsJson,
    community.explanationJson⟩
  let db ← { db with communities := db.communities ++ [row] }.checked lib.json
  community.members.zipIdx.foldlM (fun db (member, memberOrder) =>
    { db with
      memberships := db.memberships ++
        [MembershipRow.mk snapshotId community.id member memberOrder] }.checked lib.json) db

def insertCommunitySnapshot (snapshot : CommunitySnapshot) (db : Db) : Except StoreError Db := do
  ensureCommunityJsonBound "community_snapshots.algorithm" snapshot.algorithmJson 256
  ensureCommunityJsonBound "community_snapshots.config_json" snapshot.configJson 65536
  let row : CommunitySnapshotRow := ⟨snapshot.snapshotId, workspace, snapshot.engineVersion,
    snapshot.algorithmJson, snapshot.configJson⟩
  let db ← { db with communitySnapshots := db.communitySnapshots ++ [row] }.checked lib.json
  snapshot.communities.foldlM (insertCommunity lib snapshot.snapshotId) db

def replaceCommunities (snapshot : Option CommunitySnapshot) (db : Db) : Except StoreError Db :=
  match snapshot with
  | none => pure db
  | some snapshot => do
    let db ← (db.deleteCommunitySnapshots fun row => row.snapshotId = snapshot.snapshotId).checked
      lib.json
    insertCommunitySnapshot lib workspace snapshot db

end Reports

def publishArtifacts (input : PublicationInput) (db : Db) : Except StoreError Db :=
  match input.artifactDelta with
  | some delta => applyArtifactDelta lib input.workspace.name delta db
  | none => do
    let db ← upsertFingerprints lib input.workspace.name input.fingerprints db
    upsertExtractorBatches lib input.workspace.name input.extractorBatches db

/-- Candidates are written before anything is removed, so that no edge of the
candidate loses an endpoint or its evidence to a cascade. -/
def publishGraph (input : PublicationInput) (db : Db) : Except StoreError Db := do
  let workspace := input.workspace.name
  let (db, removedEvidence) ← upsertEvidence lib workspace input.evidence db
  let (db, removedNodes) ← upsertNodes lib workspace input.nodes db
  let db ← replaceChangedEdges lib workspace input.edges db
  let db ← replaceManualLinks lib workspace input.manualLinks db
  let db ← removedNodes.foldlM (deleteNode lib workspace) db
  removedEvidence.foldlM (deleteEvidenceItem lib workspace) db

def publishCurrentGraph (input : PublicationInput) (db : Db) : Except StoreError Db := do
  let workspace := input.workspace.name
  let previousSnapshotId := (lookup SnapshotRow.workspace workspace db.snapshots).map (·.id)
  let db ← { db with
    queryCache := db.queryCache.filter fun row => row.workspace ≠ workspace }.checked lib.json
  let db ← { db with
    snapshots := put SnapshotRow.workspace db.snapshots (.mk workspace input.snapshotId)
    }.checked lib.json
  let db ← publishGraph lib input db
  let db ← publishArtifacts lib input db
  let db ← replaceExtractorRuns lib workspace input.extractorRuns db
  let db ← replaceFreshness lib input.workspace input.coverageGaps db
  let db ← replaceHttpLinks lib workspace input.httpLinks db
  let db ← replaceCommunities lib workspace input.communitySnapshot db
  let retainedPrevious := (previousSnapshotId.filter (· ≠ input.snapshotId)).getD input.snapshotId
  (db.deleteCommunitySnapshots fun row =>
    row.workspace = workspace ∧ row.snapshotId ∉ [input.snapshotId, retainedPrevious]).checked lib.json

end CodeSystemGraph.Store
