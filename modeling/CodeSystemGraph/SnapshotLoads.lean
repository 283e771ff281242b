import CodeSystemGraph.IncrementalPublication

/-!
What the next scan loads of a published snapshot: its fingerprints and its extractor batches, in
the order of their columns.
-/

namespace CodeSystemGraph.Incremental

open Model Ordered Relational
open Store (ArtifactFingerprint ArtifactsFit BatchRow Db FingerprintRow PublicationInput SnapshotRow
  StoreError StoredExtractorBatch TableReplaced batchRow fingerprintRow payloadHash)

inductive LoadError
  | registryIncomplete (workspace : String)
  | currentSnapshotMissing (workspace : String)
  | json
  | integerOutOfRange (field : String) (value : Int)

section Model

/-! `encodingFromStr` is `serde_json::from_str` for the column of a path encoding. -/

variable (encodingFromStr : String → Option NativePathEncoding) (workspace : String)

def storedMetricToU64 (field : String) (value : Int64) : Except LoadError UInt64 :=
  if 0 ≤ value then .ok (.ofNat value.toInt.toNat)
  else .error (.integerOutOfRange field value.toInt)

def encodingColumn (text : String) : Except LoadError NativePathEncoding :=
  match encodingFromStr text with
  | none => .error .json
  | some encoding => .ok encoding

def currentSnapshotId (db : Db) : Except LoadError String :=
  match lookup SnapshotRow.workspace workspace db.snapshots with
  | none => .error (.currentSnapshotMissing workspace)
  | some row => .ok row.id

def findCurrentSnapshotId (db : Db) : Except LoadError (Option String) :=
  match currentSnapshotId workspace db with
  | .ok snapshotId => .ok (some snapshotId)
  | .error (.currentSnapshotMissing _) => .ok none
  | .error error => .error error

def artifactFromColumns (sizeField : String) (artifact : Store.ArtifactKey)
    (display contentHash : String) (sizeBytes : Int64) : Except LoadError ArtifactFingerprint := do
  let encoding ← encodingColumn encodingFromStr artifact.pathEncoding
  let size ← storedMetricToU64 sizeField sizeBytes
  pure
    { repoId := artifact.repoId
      checkoutId := artifact.checkoutId
      path := ⟨encoding, artifact.relativePath, display⟩
      extractor := artifact.extractor
      contentHash
      sizeBytes := size }

def fingerprintFromRow (row : FingerprintRow) : Except LoadError ArtifactFingerprint :=
  artifactFromColumns encodingFromStr "artifact_fingerprints.size_bytes" row.artifact row.pathDisplay
    row.contentHash row.sizeBytes

def batchFromRow (row : BatchRow) : Except LoadError StoredExtractorBatch := do
  let source ← artifactFromColumns encodingFromStr "extractor_batches.size_bytes" row.artifact
    row.pathDisplay row.contentHash row.sizeBytes
  let outputCount ← storedMetricToU64 "extractor_batches.output_count" row.outputCount
  pure
    { source
      extractorVersion := row.extractorVersion
      budgetFingerprint := row.budgetFingerprint
      sourceWasLossy := row.sourceWasLossy
      outputCount
      payload := row.payload }

def loadCurrentArtifactFingerprints (db : Db) : Except LoadError (List ArtifactFingerprint) := do
  let _ ← currentSnapshotId workspace db
  (sortBy (fun row => row.artifact.order) (db.fingerprints.filter fun row =>
    row.workspace = workspace)).mapM (fingerprintFromRow encodingFromStr)

def batchSelected (maximumPayloadBytes : Nat) (degradationExtractor : Option String)
    (payloadLength : Nat) (sourceWasLossy : Bool) (extractor : String) : Bool :=
  payloadLength ≤ min maximumPayloadBytes WorkState.i64Max &&
    degradationExtractor.all fun owner => sourceWasLossy || extractor == owner

def loadCurrentExtractorBatchesWhere (maximumPayloadBytes : Nat)
    (degradationExtractor : Option String) (db : Db) : Except LoadError (List StoredExtractorBatch) := do
  let _ ← currentSnapshotId workspace db
  (sortBy (fun row => row.artifact.order) (db.batches.filter fun row =>
    row.workspace = workspace ∧ batchSelected maximumPayloadBytes degradationExtractor
      row.payload.length row.sourceWasLossy row.artifact.extractor)).mapM (batchFromRow encodingFromStr)

def loadCurrentExtractorBatchesWithLimit (maximumPayloadBytes : Nat) (db : Db) :
    Except LoadError (List StoredExtractorBatch) :=
  loadCurrentExtractorBatchesWhere encodingFromStr workspace maximumPayloadBytes none db

def loadCurrentDegradationBatches (maximumPayloadBytes : Nat) (extractor : String) (db : Db) :
    Except LoadError (List StoredExtractorBatch) :=
  loadCurrentExtractorBatchesWhere encodingFromStr workspace maximumPayloadBytes (some extractor) db

/-- `load_current_fingerprints` of the command line: nothing before the first publication. -/
def loadCurrentFingerprints (db : Db) : Except LoadError (List ArtifactFingerprint) :=
  match loadCurrentArtifactFingerprints encodingFromStr workspace db with
  | .error (.currentSnapshotMissing _) => .ok []
  | other => other

end Model

section RoundTrips

variable {encodingFromStr : String → Option NativePathEncoding} {workspace : String} {db : Db}

def columnOrder (fingerprint : ArtifactFingerprint) :
    String ×ₗ String ×ₗ String ×ₗ List Nat ×ₗ String :=
  (Store.artifactKey fingerprint).order

/-- What a query selects of the batches of a snapshot. -/
def selectedBatches (maximumPayloadBytes : Nat) (degradationExtractor : Option String)
    (batches : List StoredExtractorBatch) : List StoredExtractorBatch :=
  sortBy (fun batch => columnOrder batch.source) (batches.filter fun batch =>
    batchSelected maximumPayloadBytes degradationExtractor batch.payload.length batch.sourceWasLossy
      batch.source.extractor)

theorem order_injective : Function.Injective Store.ArtifactKey.order := by
  intro key other same
  obtain ⟨repo, checkout, encoding, bytes, extractor⟩ := key
  obtain ⟨repo', checkout', encoding', bytes', extractor'⟩ := other
  simp only [Store.ArtifactKey.order, EmbeddingLike.apply_eq_iff_eq, Prod.mk.injEq] at same
  obtain ⟨rfl, rfl, rfl, bytes, rfl⟩ := same
  rw [List.map_injective_iff.2 (fun _ _ => UInt8.toNat_inj.1) bytes]

theorem storedMetricToU64_column {field : String} {value : UInt64}
    (checked : 0 ≤ Store.integerColumn value) :
    storedMetricToU64 field (Store.integerColumn value) = .ok value := by
  have bound := UInt64.toNat_lt value
  have small : value.toNat < 2 ^ 63 := by
    by_contra large
    have column : (Store.integerColumn value).toInt = (value.toNat : Int).bmod (2 ^ 64) :=
      Int64.toInt_ofNat
    have nonneg : 0 ≤ (Store.integerColumn value).toInt := by
      simpa using Int64.le_iff_toInt_le.1 checked
    rw [column, Int.bmod_def] at nonneg
    omega
  have column : (Store.integerColumn value).toInt = value.toNat :=
    Int64.toInt_ofNat_of_lt small
  rw [storedMetricToU64, if_pos checked, column, Int.toNat_natCast]
  simp

variable (reads : ∀ encoding, encodingFromStr (Store.quoted (Store.encodingName encoding)) =
  some encoding)

include reads in
theorem artifactFromColumns_row {sizeField : String} {fingerprint : ArtifactFingerprint}
    (checked : 0 ≤ Store.integerColumn fingerprint.sizeBytes) :
    artifactFromColumns encodingFromStr sizeField (Store.artifactKey fingerprint)
      fingerprint.path.display fingerprint.contentHash (Store.integerColumn fingerprint.sizeBytes) =
        .ok fingerprint := by
  have encoding : encodingColumn encodingFromStr (Store.artifactKey fingerprint).pathEncoding =
      .ok fingerprint.path.encoding := by
    simp only [encodingColumn, Store.artifactKey, reads]
  rw [artifactFromColumns, encoding, ok_bind, storedMetricToU64_column checked]
  rfl

include reads in
theorem fingerprintFromRow_row {fingerprint : ArtifactFingerprint}
    (checked : 0 ≤ (fingerprintRow workspace fingerprint).sizeBytes) :
    fingerprintFromRow encodingFromStr (fingerprintRow workspace fingerprint) = .ok fingerprint :=
  artifactFromColumns_row reads checked

include reads in
theorem batchFromRow_row {hash : String} {batch : StoredExtractorBatch}
    (checkedSize : 0 ≤ (batchRow workspace hash batch).sizeBytes)
    (checkedCount : 0 ≤ (batchRow workspace hash batch).outputCount) :
    batchFromRow encodingFromStr (batchRow workspace hash batch) = .ok batch := by
  have source : artifactFromColumns encodingFromStr "extractor_batches.size_bytes"
      (batchRow workspace hash batch).artifact (batchRow workspace hash batch).pathDisplay
      (batchRow workspace hash batch).contentHash (batchRow workspace hash batch).sizeBytes =
        .ok batch.source := artifactFromColumns_row reads checkedSize
  have count : storedMetricToU64 "extractor_batches.output_count"
      (batchRow workspace hash batch).outputCount = .ok batch.outputCount :=
    storedMetricToU64_column checkedCount
  rw [batchFromRow, source, ok_bind, count]
  rfl

theorem mapM_sortBy_exactly {Row Item ε K : Type} [LinearOrder K] {rowOf : Item → Row}
    {readRow : Row → Except ε Item} {key : Row → K} {itemKey : Item → K} {table : List Row}
    {items : List Item} (exactly : Exactly table (items.map rowOf))
    (distinct : (items.map itemKey).Nodup) (keys : ∀ item, key (rowOf item) = itemKey item)
    (restored : ∀ item ∈ items, readRow (rowOf item) = .ok item) :
    (sortBy key table).mapM readRow = .ok (sortBy itemKey items) := by
  have rowKeys : (items.map rowOf).map key = items.map itemKey := by
    rw [List.map_map]
    exact List.map_congr_left fun item _ => keys item
  have perm : table.Perm (items.map rowOf) :=
    (List.perm_ext_iff_of_nodup exactly.1 (List.Nodup.of_map key (rowKeys ▸ distinct))).2 exactly.2
  have nodup : (table.map key).Nodup := by
    rw [(perm.map key).nodup_iff, rowKeys]
    exact distinct
  rw [sortBy_congr key perm nodup, ← map_sortBy itemKey rowOf keys,
    mapM_map fun item mem => restored item ((mem_sortBy itemKey).1 mem), List.map_id']
  rfl

variable {Digest : Type} {lib : Store.Libraries Digest} {json : Store.JsonFunctions}
  {fingerprints : List ArtifactFingerprint} {batches : List StoredExtractorBatch} {snapshotId : String}

include reads in
theorem loadCurrentFingerprints_holds (wf : db.WellFormed json)
    (current : currentSnapshotId workspace db = .ok snapshotId)
    (distinct : (fingerprints.map Store.artifactKey).Nodup)
    (holds : Exactly (db.fingerprints.filter fun row => row.workspace = workspace)
      (fingerprints.map (fingerprintRow workspace))) :
    loadCurrentFingerprints encodingFromStr workspace db = .ok (sortBy columnOrder fingerprints) := by
  have loaded : (sortBy (fun row : FingerprintRow => row.artifact.order)
      (db.fingerprints.filter fun row => row.workspace = workspace)).mapM
        (fingerprintFromRow encodingFromStr) = .ok (sortBy columnOrder fingerprints) := by
    refine mapM_sortBy_exactly holds ?_ (fun _ => rfl) fun fingerprint mem => ?_
    · have orders := distinct.map order_injective
      rwa [List.map_map] at orders
    · have stored := (holds.2 _).2 (List.mem_map_of_mem mem)
      exact fingerprintFromRow_row reads (wf.checks.fingerprints _ (List.mem_of_mem_filter stored))
  rw [loadCurrentFingerprints, loadCurrentArtifactFingerprints, current, ok_bind, loaded]

include reads in
theorem loadCurrentExtractorBatchesWhere_holds (wf : db.WellFormed json)
    (current : currentSnapshotId workspace db = .ok snapshotId)
    (distinct : (batches.map fun batch => Store.artifactKey batch.source).Nodup)
    (holds : Exactly (db.batches.filter fun row => row.workspace = workspace)
      (batches.map fun batch => batchRow workspace (payloadHash lib batch) batch))
    (maximumPayloadBytes : Nat) (degradationExtractor : Option String) :
    loadCurrentExtractorBatchesWhere encodingFromStr workspace maximumPayloadBytes
        degradationExtractor db =
      .ok (selectedBatches maximumPayloadBytes degradationExtractor batches) := by
  have selected : Exactly (db.batches.filter fun row => row.workspace = workspace ∧
      batchSelected maximumPayloadBytes degradationExtractor row.payload.length row.sourceWasLossy
        row.artifact.extractor)
      ((batches.filter fun batch => batchSelected maximumPayloadBytes degradationExtractor
        batch.payload.length batch.sourceWasLossy batch.source.extractor).map fun batch =>
          batchRow workspace (payloadHash lib batch) batch) := by
    refine ⟨(wf.keys.batches.of_map).filter _, fun row => ?_⟩
    have listed := holds.2 row
    simp only [List.mem_filter, List.mem_map, decide_eq_true_eq] at listed ⊢
    constructor
    · rintro ⟨stored, here, passes⟩
      obtain ⟨batch, mem, rfl⟩ := listed.1 ⟨stored, here⟩
      exact ⟨batch, ⟨mem, passes⟩, rfl⟩
    · rintro ⟨batch, ⟨mem, passes⟩, rfl⟩
      obtain ⟨stored, here⟩ := listed.2 ⟨batch, mem, rfl⟩
      exact ⟨stored, here, passes⟩
  have loaded : (sortBy (fun row : BatchRow => row.artifact.order)
      (db.batches.filter fun row => row.workspace = workspace ∧
        batchSelected maximumPayloadBytes degradationExtractor row.payload.length row.sourceWasLossy
          row.artifact.extractor)).mapM (batchFromRow encodingFromStr) =
        .ok (selectedBatches maximumPayloadBytes degradationExtractor batches) := by
    refine mapM_sortBy_exactly selected ?_ (fun _ => rfl) fun batch mem => ?_
    · have orders := distinct.map order_injective
      rw [List.map_map] at orders
      exact orders.sublist (List.filter_sublist.map _)
    · have stored := (holds.2 _).2 (List.mem_map_of_mem (List.mem_of_mem_filter mem))
      have checks := wf.checks.batches _ (List.mem_of_mem_filter stored)
      exact batchFromRow_row reads checks.1 checks.2.1
  rw [loadCurrentExtractorBatchesWhere, current, ok_bind, loaded]

end RoundTrips

section Publication

/-! A publication writes the table of snapshots and those of the artifacts at one place each. -/

variable {Digest : Type} [DecidableEq Digest] {lib : Store.Libraries Digest} {db db' : Db}
  {input : PublicationInput}

def artifactTables (db : Db) := (db.snapshots, db.fingerprints, db.batches)

theorem publishArtifacts_snapshots (h : Store.publishArtifacts lib input db = .ok db') :
    db'.snapshots = db.snapshots := by
  obtain ⟨_, _, rfl, -, -⟩ := Store.publishArtifacts_owned h
  rfl

theorem publishCurrentGraph_artifacts (h : Store.publishCurrentGraph lib input db = .ok db') :
    ∃ before after : Db, before.fingerprints = db.fingerprints ∧ before.batches = db.batches ∧
      Store.publishArtifacts lib input before = .ok after ∧
      db'.fingerprints = after.fingerprints ∧ db'.batches = after.batches ∧
      db'.snapshots = put SnapshotRow.workspace db.snapshots ⟨input.workspace.name, input.snapshotId⟩ := by
  obtain ⟨db₁, cacheStep, h⟩ := bind_eq_ok.mp h
  obtain ⟨rfl, -⟩ := Db.checked_eq_ok.mp cacheStep
  obtain ⟨db₂, snapshotStep, h⟩ := bind_eq_ok.mp h
  obtain ⟨rfl, -⟩ := Db.checked_eq_ok.mp snapshotStep
  obtain ⟨db₃, graphStep, h⟩ := bind_eq_ok.mp h
  obtain ⟨db₄, artifactStep, h⟩ := bind_eq_ok.mp h
  obtain ⟨db₅, runStep, h⟩ := bind_eq_ok.mp h
  obtain ⟨db₆, freshnessStep, h⟩ := bind_eq_ok.mp h
  obtain ⟨db₇, httpStep, h⟩ := bind_eq_ok.mp h
  obtain ⟨db₈, communityStep, h⟩ := bind_eq_ok.mp h
  have reports : artifactTables db' = artifactTables db₄ :=
    calc artifactTables db' = artifactTables db₈ := Store.checked_view h rfl
      _ = artifactTables db₇ := Store.replaceCommunities_view (fun _ _ _ _ => rfl) communityStep
      _ = artifactTables db₆ :=
          Store.replaceHttpLinks_view (fun _ _ => rfl) (fun _ _ => rfl) httpStep
      _ = artifactTables db₅ :=
          Store.replaceFreshness_view (fun _ _ => rfl) (fun _ _ => rfl) freshnessStep
      _ = artifactTables db₄ := Store.replaceExtractorRuns_view (fun _ _ => rfl) runStep
  have graph : artifactTables db₃ = artifactTables _ :=
    Store.publishGraph_view (fun _ _ _ _ _ _ => rfl) graphStep
  simp only [artifactTables, Prod.mk.injEq] at reports graph
  refine ⟨db₃, db₄, graph.2.1, graph.2.2, artifactStep, reports.2.1, reports.2.2, ?_⟩
  rw [reports.1, publishArtifacts_snapshots artifactStep, graph.1]

theorem publishSnapshot_artifacts (h : Store.publishSnapshot lib input db = .ok db') :
    db'.WellFormed lib.json ∧
    ∃ before after : Db, before.fingerprints = db.fingerprints ∧ before.batches = db.batches ∧
      Store.publishArtifacts lib input before = .ok after ∧
      db'.fingerprints = after.fingerprints ∧ db'.batches = after.batches ∧
      db'.snapshots = put SnapshotRow.workspace db.snapshots ⟨input.workspace.name, input.snapshotId⟩ := by
  obtain ⟨_, -, h⟩ := bind_eq_ok.mp h
  obtain ⟨_, -, h⟩ := bind_eq_ok.mp h
  obtain ⟨_, -, h⟩ := bind_eq_ok.mp h
  obtain ⟨_, -, h⟩ := bind_eq_ok.mp h
  obtain ⟨db₁, registered, published⟩ := bind_eq_ok.mp h
  obtain ⟨rfl, -⟩ := Store.upsertRegistry_eq_ok registered
  obtain ⟨before, after, fingerprints, batches, step, ends⟩ := publishCurrentGraph_artifacts published
  exact ⟨Store.publishCurrentGraph_wellFormed published, before, after, fingerprints, batches, step, ends⟩

variable (collisionFree : Function.Injective lib.hash) (hexInjective : Function.Injective lib.toHex)

theorem filter_of_others {Row : Type} {workspaceOf : Row → String} {workspace other : String}
    {candidate before after : List Row}
    (replaced : TableReplaced workspaceOf workspace candidate before after) (ne : other ≠ workspace) :
    (after.filter fun row => workspaceOf row = other) =
      before.filter fun row => workspaceOf row = other := by
  have inside : ∀ table : List Row, (table.filter fun row => workspaceOf row = other) =
      (table.filter fun row => workspaceOf row ≠ workspace).filter fun row =>
        workspaceOf row = other := by
    intro table
    rw [List.filter_filter]
    refine List.filter_congr fun row _ => ?_
    by_cases here : workspaceOf row = other
    · simp [here, ne]
    · simp [here]
  rw [inside, inside before, replaced.others]

theorem currentSnapshotId_put {workspace other snapshotId : String} {before : List SnapshotRow}
    (snapshots : db.snapshots = put SnapshotRow.workspace before ⟨workspace, snapshotId⟩) :
    currentSnapshotId other db = if workspace = other then .ok snapshotId else
      currentSnapshotId other { db with snapshots := before } := by
  rw [currentSnapshotId, snapshots, lookup_put]
  by_cases same : workspace = other
  · rw [if_pos same, if_pos same]
  · rw [if_neg same, if_neg same]
    rfl

theorem loads_congr {encodingFromStr : String → Option NativePathEncoding} {workspace : String}
    (current : currentSnapshotId workspace db' = currentSnapshotId workspace db)
    (fingerprints : (db'.fingerprints.filter fun row => row.workspace = workspace) =
      db.fingerprints.filter fun row => row.workspace = workspace)
    (batches : (db'.batches.filter fun row => row.workspace = workspace) =
      db.batches.filter fun row => row.workspace = workspace) :
    loadCurrentFingerprints encodingFromStr workspace db' =
        loadCurrentFingerprints encodingFromStr workspace db ∧
      ∀ maximumPayloadBytes degradationExtractor,
        loadCurrentExtractorBatchesWhere encodingFromStr workspace maximumPayloadBytes
            degradationExtractor db' =
          loadCurrentExtractorBatchesWhere encodingFromStr workspace maximumPayloadBytes
            degradationExtractor db := by
  constructor
  · simp only [loadCurrentFingerprints, loadCurrentArtifactFingerprints, current, fingerprints]
  · intro maximum owner
    have selected : ∀ table : List BatchRow, (table.filter fun row => row.workspace = workspace ∧
        batchSelected maximum owner row.payload.length row.sourceWasLossy row.artifact.extractor) =
        (table.filter fun row => row.workspace = workspace).filter fun row =>
          batchSelected maximum owner row.payload.length row.sourceWasLossy row.artifact.extractor := by
      intro table
      rw [List.filter_filter]
      refine List.filter_congr fun row _ => ?_
      rw [Bool.decide_and, Bool.and_comm, Bool.decide_eq_true]
    rw [loadCurrentExtractorBatchesWhere, loadCurrentExtractorBatchesWhere, current, selected,
      selected db.batches, batches]

include collisionFree hexInjective in
/-- After a full publication its workspace loads what was published, in the order of the columns,
and every other workspace what it loaded before. -/
theorem publishSnapshot_loads {encodingFromStr : String → Option NativePathEncoding}
    (reads : ∀ encoding, encodingFromStr (Store.quoted (Store.encodingName encoding)) = some encoding)
    (noDelta : input.artifactDelta = none)
    (hashed : ∀ row ∈ db.batches, row.workspace = input.workspace.name →
      row.payloadHash = lib.toHex (lib.hash row.payload))
    (fits : ArtifactsFit db.fingerprints db.batches)
    (fits' : ArtifactsFit (input.tables lib).fingerprints (input.tables lib).batches)
    (distinct : (input.fingerprints.map Store.artifactKey).Nodup)
    (distinctBatches : (input.extractorBatches.map fun batch => Store.artifactKey batch.source).Nodup)
    (h : Store.publishSnapshot lib input db = .ok db') :
    findCurrentSnapshotId input.workspace.name db' = .ok (some input.snapshotId) ∧
      loadCurrentFingerprints encodingFromStr input.workspace.name db' =
        .ok (sortBy columnOrder input.fingerprints) ∧
      (∀ maximumPayloadBytes degradationExtractor,
        loadCurrentExtractorBatchesWhere encodingFromStr input.workspace.name maximumPayloadBytes
            degradationExtractor db' =
          .ok (selectedBatches maximumPayloadBytes degradationExtractor input.extractorBatches)) ∧
      ∀ workspace, workspace ≠ input.workspace.name →
        findCurrentSnapshotId workspace db' = findCurrentSnapshotId workspace db ∧
        loadCurrentFingerprints encodingFromStr workspace db' =
          loadCurrentFingerprints encodingFromStr workspace db ∧
        ∀ maximumPayloadBytes degradationExtractor,
          loadCurrentExtractorBatchesWhere encodingFromStr workspace maximumPayloadBytes
              degradationExtractor db' =
            loadCurrentExtractorBatchesWhere encodingFromStr workspace maximumPayloadBytes
              degradationExtractor db := by
  obtain ⟨wf, before, after, fingerprints, batches, step, fingerprints', batches', snapshots⟩ :=
    publishSnapshot_artifacts h
  obtain ⟨-, fingerprintRows, batchRows⟩ := Store.publishArtifacts_full collisionFree hexInjective noDelta
    (batches ▸ hashed) (fingerprints ▸ batches ▸ fits) fits' distinct distinctBatches step
    (fingerprints' ▸ wf.keys.fingerprints) (batches' ▸ wf.keys.batches)
  rw [← fingerprints', fingerprints] at fingerprintRows
  rw [← batches', batches] at batchRows
  have current : currentSnapshotId input.workspace.name db' = .ok input.snapshotId := by
    rw [currentSnapshotId_put snapshots, if_pos rfl]
  refine ⟨?_, loadCurrentFingerprints_holds reads wf current distinct fingerprintRows.exactly,
    loadCurrentExtractorBatchesWhere_holds reads wf current distinctBatches batchRows.exactly,
    fun workspace ne => ?_⟩
  · rw [findCurrentSnapshotId, current]
  · have same : currentSnapshotId workspace db' = currentSnapshotId workspace db := by
      rw [currentSnapshotId_put snapshots, if_neg ne.symm]
      rfl
    refine ⟨?_, loads_congr same (filter_of_others fingerprintRows ne) (filter_of_others batchRows ne)⟩
    rw [findCurrentSnapshotId, findCurrentSnapshotId, same]

end Publication

section Sample

def sampleFromStr (text : String) : Option NativePathEncoding :=
  [NativePathEncoding.unixBytes, .windowsWide, .utf8].find? fun encoding =>
    Store.quoted (Store.encodingName encoding) = text

theorem sampleFromStr_reads (encoding : NativePathEncoding) :
    sampleFromStr (Store.quoted (Store.encodingName encoding)) = some encoding := by
  cases encoding <;> decide

/-- Artifacts in another order than that of their columns. -/
def turnedInput : PublicationInput :=
  { changedInput with
    fingerprints := [publishedFingerprint "d" "old", publishedFingerprint "a" "new"]
    extractorBatches := [publishedBatch "d" "old", publishedBatch "a" "new"] }

theorem publishSnapshot_loads_turned :
    ∃ db', Store.publishSnapshot Store.plainLibraries turnedInput earlierDb = .ok db' ∧
      findCurrentSnapshotId "w" db' = .ok (some "s1") ∧
      loadCurrentFingerprints sampleFromStr "w" db' =
        .ok (sortBy columnOrder turnedInput.fingerprints) := by
  have succeeds : (Store.publishSnapshot Store.plainLibraries turnedInput earlierDb).isOk = true := by
    decide +kernel
  cases published : Store.publishSnapshot Store.plainLibraries turnedInput earlierDb with
  | error failure =>
    rw [published] at succeeds
    cases succeeds
  | ok db' =>
    obtain ⟨current, fingerprints, -⟩ := @publishSnapshot_loads _ _ Store.plainLibraries earlierDb db'
      turnedInput Function.injective_id Store.hexText_injective sampleFromStr
      sampleFromStr_reads rfl (by decide +kernel) (by decide +kernel)
      (by decide +kernel) (by decide +kernel) (by decide +kernel) published
    exact ⟨db', rfl, current, fingerprints⟩

end Sample

end CodeSystemGraph.Incremental
