import CodeSystemGraph.StorePublication

/-! The tables that a publication reconciles by upserts. With a hash without
collisions a stored row that is skipped is the row of its candidate, so that the
rows of the workspace end as the candidate's rows. -/

namespace CodeSystemGraph.Store
open Ieee Model Ordered Relational Routes

def Sized (texts : List String) : Prop := ∀ text ∈ texts, text.utf8ByteSize < 2 ^ 64

instance (texts : List String) : Decidable (Sized texts) :=
  inferInstanceAs (Decidable (∀ text ∈ texts, _))

namespace Db

/-- The texts that digests are taken of. -/
@[mk_iff] structure TextsFit (db : Db) : Prop where
  nodes : ∀ row ∈ db.nodes, Sized ([row.kind, row.stableKey, row.label] ++ row.repoId.toList)
  evidence : ∀ row ∈ db.evidence, Sized ([row.extractor, row.extractorVersion, row.provenance] ++
    (row.repoId.toList ++ row.filePath.toList ++ row.contentHash.toList ++
      row.observedAtCommit.toList))
  edges : ∀ row ∈ db.edges,
    Sized [row.sourceNodeId, row.targetNodeId, row.kind, row.epistemicStatus]
  edgeEvidence : ∀ row ∈ db.edgeEvidence, Sized [row.evidenceId]
  fingerprints : ∀ row ∈ db.fingerprints, Sized [row.pathDisplay, row.contentHash]
  batches : ∀ row ∈ db.batches, Sized [row.pathDisplay, row.contentHash, row.extractorVersion,
    row.budgetFingerprint, row.payloadHash]

instance (db : Db) : Decidable db.TextsFit := decidable_of_iff' _ db.textsFit_iff

end Db

variable {Digest : Type} {lib : Libraries Digest}

/-- The rows of a candidate. -/
def PublicationInput.tables (lib : Libraries Digest) (input : PublicationInput) : Db where
  nodes := input.nodes.map (nodeRow input.workspace.name)
  evidence := input.evidence.map (evidenceRow input.workspace.name)
  edges := input.edges.map (edgeRow input.workspace.name)
  edgeEvidence := input.edges.flatMap (edgeEvidenceRows input.workspace.name)
  fingerprints := input.fingerprints.map (fingerprintRow input.workspace.name)
  batches := input.extractorBatches.map fun batch =>
    batchRow input.workspace.name (payloadHash lib batch) batch

section Faithful

/-! A stored row with the key and the digest of a candidate is the candidate's row. -/

theorem digestOf_inj (collisionFree : Function.Injective lib.hash) {ps qs : List Part}
    (aligned : Aligned ps qs) (hp : ∀ p ∈ ps, p.Fits) (hq : ∀ q ∈ qs, q.Fits)
    (h : digestOf lib ps = digestOf lib qs) : ps = qs :=
  hasherInput_inj aligned hp hq (collisionFree h)

theorem nodeParts_fit {kind stableKey label : String} {repoId : Option String}
    (fits : Sized ([kind, stableKey, label] ++ repoId.toList)) :
    ∀ part ∈ nodeParts kind repoId stableKey label, part.Fits := by
  simp only [Sized, List.cons_append, List.nil_append, List.forall_mem_cons, Option.mem_toList]
    at fits
  simp only [nodeParts, List.forall_mem_cons, Part.Fits]
  exact ⟨fits.1, fits.2.2.2, fits.2.1, fits.2.2.1, by simp⟩

theorem node_faithful (collisionFree : Function.Injective lib.hash) {workspace : String}
    {node : Node} {row : NodeRow} (key : row.key = (workspace, node.id))
    (fits : Sized ([row.kind, row.stableKey, row.label] ++ row.repoId.toList))
    (fits' : Sized ([(nodeRow workspace node).kind, (nodeRow workspace node).stableKey,
      (nodeRow workspace node).label] ++ (nodeRow workspace node).repoId.toList))
    (h : nodeDigest lib node =
      digestOf lib (nodeParts row.kind row.repoId row.stableKey row.label)) :
    row = nodeRow workspace node := by
  have parts := digestOf_inj collisionFree (by exact ⟨rfl, rfl, rfl, rfl, trivial⟩)
    (nodeParts_fit fits') (nodeParts_fit fits) h
  simp only [nodeParts, List.cons.injEq, Part.text.injEq, Part.optionalText.injEq] at parts
  obtain ⟨kind, repoId, stableKey, label, -⟩ := parts
  obtain ⟨rowWorkspace, rowId⟩ := Prod.mk.inj key
  exact NodeRow.ext rowWorkspace rowId kind.symm repoId.symm stableKey.symm label.symm

theorem evidenceParts_fit {repoId filePath : Option String} {startLine endLine : Option Int64}
    {extractor extractorVersion provenance : String} {confidence : F32}
    {contentHash observedAtCommit : Option String}
    (fits : Sized ([extractor, extractorVersion, provenance] ++
      (repoId.toList ++ filePath.toList ++ contentHash.toList ++ observedAtCommit.toList))) :
    ∀ part ∈ evidenceParts repoId filePath startLine endLine extractor extractorVersion provenance
      confidence contentHash observedAtCommit, part.Fits := by
  simp only [Sized, List.cons_append, List.nil_append, List.forall_mem_cons, List.forall_mem_append,
    Option.mem_toList] at fits
  obtain ⟨extractorFits, versionFits, provenanceFits, ⟨⟨repoFits, fileFits⟩, hashFits⟩, commitFits⟩ :=
    fits
  simp only [evidenceParts, List.forall_mem_cons, Part.Fits]
  exact ⟨repoFits, fileFits, trivial, trivial, extractorFits, versionFits, provenanceFits, trivial,
    hashFits, commitFits, by simp⟩

theorem confidenceBits_inj {x y : F32} (h : confidenceBits x = confidenceBits y) : x = y := by
  have bits : ∀ z : F32, (confidenceBits z).toInt = z.toBits := by
    intro z
    have small : z.toBits < 2 ^ 32 := z.toBits_lt
    rw [confidenceBits, Int64.toInt_ofNat_of_lt (by omega)]
  have same := congrArg Int64.toInt h
  rw [bits, bits] at same
  exact Binary.toBits_injective (by exact_mod_cast same)

theorem evidence_faithful (collisionFree : Function.Injective lib.hash) {workspace : String}
    {item : Evidence} {row : EvidenceRow} (key : row.key = (workspace, item.id))
    (exact : row.confidence = realColumn (narrow row.confidence))
    (fits : Sized ([row.extractor, row.extractorVersion, row.provenance] ++
      (row.repoId.toList ++ row.filePath.toList ++ row.contentHash.toList ++
        row.observedAtCommit.toList)))
    (fits' : Sized ([(evidenceRow workspace item).extractor,
      (evidenceRow workspace item).extractorVersion, (evidenceRow workspace item).provenance] ++
      ((evidenceRow workspace item).repoId.toList ++ (evidenceRow workspace item).filePath.toList ++
        (evidenceRow workspace item).contentHash.toList ++
        (evidenceRow workspace item).observedAtCommit.toList)))
    (h : evidenceDigest lib item = digestOf lib (evidenceParts row.repoId row.filePath
      row.startLine row.endLine row.extractor row.extractorVersion row.provenance
      (narrow row.confidence) row.contentHash row.observedAtCommit)) :
    row = evidenceRow workspace item := by
  have parts := digestOf_inj collisionFree
    (by exact ⟨rfl, rfl, rfl, rfl, rfl, rfl, rfl, rfl, rfl, rfl, trivial⟩)
    (evidenceParts_fit fits') (evidenceParts_fit fits) h
  simp only [evidenceParts, List.cons.injEq, Part.text.injEq, Part.optionalText.injEq,
    Part.integer.injEq, Option.some.injEq] at parts
  obtain ⟨repoId, filePath, startLine, endLine, extractor, version, provenance, confidence,
    contentHash, commit, -⟩ := parts
  obtain ⟨rowWorkspace, rowId⟩ := Prod.mk.inj key
  have stored : row.confidence = realColumn item.confidence := by
    rw [exact, ← confidenceBits_inj confidence]
  exact EvidenceRow.ext rowWorkspace rowId repoId.symm filePath.symm startLine.symm endLine.symm
    extractor.symm version.symm provenance.symm stored contentHash.symm commit.symm

theorem edgeParts_fit {source target kind status : String} {confidence : F32}
    {evidence : List EvidenceId} (fits : Sized [source, target, kind, status])
    (evidenceFits : Sized evidence) :
    ∀ part ∈ edgeParts source target kind confidence status evidence, part.Fits := by
  simp only [Sized, List.forall_mem_cons] at fits
  simp only [edgeParts, List.forall_mem_append, List.forall_mem_cons, Part.Fits]
  refine ⟨⟨fits.1, fits.2.1, fits.2.2.1, trivial, fits.2.2.2.1, by simp⟩, fun part mem => ?_⟩
  obtain ⟨text, listed, rfl⟩ := List.mem_map.mp mem
  exact evidenceFits text listed

theorem edge_faithful (collisionFree : Function.Injective lib.hash) {workspace : String}
    {edge : Edge} {row : EdgeRow} {evidence : List EvidenceId}
    (key : row.key = (workspace, edge.id))
    (exact : row.confidence = realColumn (narrow row.confidence))
    (fits : Sized [row.sourceNodeId, row.targetNodeId, row.kind, row.epistemicStatus])
    (evidenceFits : Sized evidence)
    (fits' : Sized [(edgeRow workspace edge).sourceNodeId, (edgeRow workspace edge).targetNodeId,
      (edgeRow workspace edge).kind, (edgeRow workspace edge).epistemicStatus])
    (evidenceFits' : Sized edge.evidence)
    (h : edgeDigest lib edge = digestOf lib (edgeParts row.sourceNodeId row.targetNodeId row.kind
      (narrow row.confidence) row.epistemicStatus evidence)) :
    row = edgeRow workspace edge ∧ evidence = sortBy id edge.evidence := by
  have sorted : Sized (sortBy id edge.evidence) := fun text mem =>
    evidenceFits' text ((mem_sortBy id).mp mem)
  have parts := digestOf_inj collisionFree
    (by exact ⟨rfl, rfl, rfl, rfl, rfl, aligned_texts _ _⟩)
    (edgeParts_fit fits' sorted) (edgeParts_fit fits evidenceFits) h
  simp only [edgeParts, List.cons_append, List.nil_append, List.cons.injEq, Part.text.injEq,
    Part.integer.injEq, Option.some.injEq] at parts
  obtain ⟨source, target, kind, confidence, status, texts⟩ := parts
  obtain ⟨rowWorkspace, rowId⟩ := Prod.mk.inj key
  have stored : row.confidence = realColumn edge.confidence := by
    rw [exact, ← confidenceBits_inj confidence]
  have injective : Function.Injective Part.text := fun a b same => by simpa using same
  exact ⟨EdgeRow.ext rowWorkspace rowId source.symm target.symm kind.symm stored status.symm,
    (List.map_injective_iff.mpr injective texts).symm⟩

theorem metricToI64_eq_ok {field : String} {value : UInt64} {column : Int64}
    (h : metricToI64 field value = .ok column) : column = integerColumn value := by
  unfold metricToI64 at h
  split at h
  · exact (Except.ok.inj h).symm
  · cases h

theorem fingerprint_faithful (collisionFree : Function.Injective lib.hash) {workspace : String}
    {fingerprint : ArtifactFingerprint} {row : FingerprintRow}
    (key : row.key = (workspace, artifactKey fingerprint))
    (fits : Sized [row.pathDisplay, row.contentHash])
    (fits' : Sized [(fingerprintRow workspace fingerprint).pathDisplay,
      (fingerprintRow workspace fingerprint).contentHash])
    (h : fingerprintDigest lib fingerprint =
      .ok (digestOf lib (fingerprintParts row.pathDisplay row.contentHash row.sizeBytes))) :
    row = fingerprintRow workspace fingerprint := by
  obtain ⟨size, inRange, digest⟩ := bind_eq_ok.mp h
  obtain rfl := metricToI64_eq_ok inRange
  have fit : ∀ {display contentHash : String} {size : Int64}, Sized [display, contentHash] →
      ∀ part ∈ fingerprintParts display contentHash size, part.Fits := by
    intro display contentHash size fits
    simp only [Sized, List.forall_mem_cons] at fits
    simp only [fingerprintParts, List.forall_mem_cons, Part.Fits]
    exact ⟨fits.1, fits.2.1, trivial, by simp⟩
  have parts := digestOf_inj collisionFree (by exact ⟨rfl, rfl, rfl, trivial⟩) (fit fits')
    (fit fits) (Except.ok.inj digest)
  simp only [fingerprintParts, List.cons.injEq, Part.text.injEq, Part.integer.injEq,
    Option.some.injEq] at parts
  obtain ⟨display, contentHash, size, -⟩ := parts
  obtain ⟨rowWorkspace, artifact⟩ := Prod.mk.inj key
  exact FingerprintRow.ext rowWorkspace artifact display.symm contentHash.symm size.symm

theorem batch_faithful (collisionFree : Function.Injective lib.hash)
    (hexInjective : Function.Injective lib.toHex) {workspace : String}
    {batch : StoredExtractorBatch} {row : BatchRow}
    (key : row.key = (workspace, artifactKey batch.source))
    (hashed : row.payloadHash = lib.toHex (lib.hash row.payload))
    (fits : Sized [row.pathDisplay, row.contentHash, row.extractorVersion, row.budgetFingerprint,
      row.payloadHash])
    (fits' : Sized [(batchRow workspace (payloadHash lib batch) batch).pathDisplay,
      (batchRow workspace (payloadHash lib batch) batch).contentHash,
      (batchRow workspace (payloadHash lib batch) batch).extractorVersion,
      (batchRow workspace (payloadHash lib batch) batch).budgetFingerprint,
      (batchRow workspace (payloadHash lib batch) batch).payloadHash])
    (h : batchDigest lib batch = .ok (digestOf lib (batchParts row.pathDisplay row.contentHash
      row.sizeBytes row.extractorVersion row.budgetFingerprint row.sourceWasLossy row.outputCount
      row.payloadHash))) :
    row = batchRow workspace (payloadHash lib batch) batch := by
  obtain ⟨size, sizeInRange, rest⟩ := bind_eq_ok.mp h
  obtain ⟨count, countInRange, digest⟩ := bind_eq_ok.mp rest
  obtain rfl := metricToI64_eq_ok sizeInRange
  obtain rfl := metricToI64_eq_ok countInRange
  have fit : ∀ {display contentHash version budget hash : String} {size count : Int64}
      {lossy : Bool}, Sized [display, contentHash, version, budget, hash] →
      ∀ part ∈ batchParts display contentHash size version budget lossy count hash, part.Fits := by
    intro display contentHash version budget hash size count lossy fits
    simp only [Sized, List.forall_mem_cons] at fits
    simp only [batchParts, List.forall_mem_cons, Part.Fits]
    exact ⟨fits.1, fits.2.1, trivial, fits.2.2.1, fits.2.2.2.1, trivial, trivial, fits.2.2.2.2.1,
      by simp⟩
  have parts := digestOf_inj collisionFree
    (by exact ⟨rfl, rfl, rfl, rfl, rfl, rfl, rfl, rfl, trivial⟩) (fit fits') (fit fits)
    (Except.ok.inj digest)
  simp only [batchParts, List.cons.injEq, Part.text.injEq, Part.integer.injEq,
    Option.some.injEq] at parts
  obtain ⟨display, contentHash, size, version, budget, lossy, count, payload, -⟩ := parts
  obtain ⟨rowWorkspace, artifact⟩ := Prod.mk.inj key
  have sameLossy : batch.sourceWasLossy = row.sourceWasLossy := by
    revert lossy
    cases batch.sourceWasLossy <;> cases row.sourceWasLossy <;> decide
  have samePayload : batch.payload = row.payload := by
    rw [hashed] at payload
    exact collisionFree (hexInjective payload)
  exact BatchRow.ext rowWorkspace artifact display.symm contentHash.symm size.symm version.symm
    budget.symm sameLossy.symm count.symm payload.symm samePayload.symm

end Faithful

section Upserts

variable [DecidableEq Digest] {workspace : String} {db db' : Db}

/-- The table that a pass of upserts leaves. -/
def upserted {Row Item K : Type} [DecidableEq K] (key : Row → String × K) (itemKey : Item → K)
    (digest : Item → Except StoreError Digest) (rowOf : Item → Row) (items : List Item)
    (stored : List (K × Digest)) (table : List Row) : List Row :=
  ((changes itemKey digest items stored).map fun change => rowOf change.2).foldl (put key) table

theorem upsertNodes_eq_ok {nodes : List Node} {removed : List NodeId}
    (distinct : (nodes.map (·.id)).Nodup)
    (h : upsertNodes lib workspace nodes db = .ok (db', removed)) :
    db' = { db with
      nodes := upserted NodeRow.key (·.id) (fun node => .ok (nodeDigest lib node))
        (nodeRow workspace) nodes (storedNodes lib workspace db) db.nodes } ∧
      ∀ id, id ∈ removed ↔ (workspace, id) ∈ db.nodeKeys ∧ id ∉ nodes.map (·.id) := by
  obtain ⟨⟨db₁, left⟩, passed, rest⟩ := bind_eq_ok.mp h
  obtain ⟨rfl, rfl⟩ := Prod.mk.inj (Except.ok.inj rest)
  obtain ⟨is, leftover, -⟩ := reconcile_put (·.id) _ NodeRow.key (nodeRow workspace) Db.nodes
    (fun db table => { db with nodes := table }) (fun _ _ => rfl) (fun _ _ _ => rfl) (fun _ => rfl)
    (fun s _ node s' step => (Db.checked_eq_ok.mp step).1) distinct passed
  refine ⟨is, fun id => ?_⟩
  rw [sortedKeys, mem_sortBy, leftover]
  exact and_congr_left fun _ => mem_load NodeRow.key _ workspace

theorem upsertEvidence_eq_ok {evidence : List Evidence} {removed : List EvidenceId}
    (distinct : (evidence.map (·.id)).Nodup)
    (h : upsertEvidence lib workspace evidence db = .ok (db', removed)) :
    db' = { db with
      evidence := upserted EvidenceRow.key (·.id) (fun item => .ok (evidenceDigest lib item))
        (evidenceRow workspace) evidence (storedEvidence lib workspace db) db.evidence } ∧
      ∀ id, id ∈ removed ↔ (workspace, id) ∈ db.evidenceKeys ∧ id ∉ evidence.map (·.id) := by
  obtain ⟨⟨db₁, left⟩, passed, rest⟩ := bind_eq_ok.mp h
  obtain ⟨rfl, rfl⟩ := Prod.mk.inj (Except.ok.inj rest)
  obtain ⟨is, leftover, -⟩ := reconcile_put (·.id) _ EvidenceRow.key (evidenceRow workspace)
    Db.evidence (fun db table => { db with evidence := table }) (fun _ _ => rfl) (fun _ _ _ => rfl)
    (fun _ => rfl) (fun s _ item s' step => (Db.checked_eq_ok.mp step).1) distinct passed
  refine ⟨is, fun id => ?_⟩
  rw [sortedKeys, mem_sortBy, leftover]
  exact and_congr_left fun _ => mem_load EvidenceRow.key _ workspace

theorem artifacts_swept {Row Item : Type} (key : Row → String × ArtifactKey)
    (digestRow : Row → Digest) (itemKey : Item → ArtifactKey)
    (digest : Item → Except StoreError Digest) (rowOf : Item → Row) (get : Db → List Row)
    (set : Db → List Row → Db) (get_set : ∀ db table, get (set db table) = table)
    (set_set : ∀ db table table', set (set db table) table' = set db table')
    (set_get : ∀ db, set db (get db) = db) {write : Db → Option Digest → Item → Except StoreError Db}
    (writes : ∀ db previous item db', write db previous item = .ok db' →
      db' = set db (put key (get db) (rowOf item)))
    {delete : Db → ArtifactKey → Except StoreError Db}
    (deletes : ∀ db k db', delete db k = .ok db' →
      db' = set db ((get db).filter fun row => key row ≠ (workspace, k)))
    (rowKey : ∀ item, key (rowOf item) = (workspace, itemKey item)) {items : List Item}
    (distinct : (items.map itemKey).Nodup)
    (faithful : ∀ item ∈ items, ∀ row ∈ get db, key row = (workspace, itemKey item) →
      digest item = .ok (digestRow row) → row = rowOf item)
    {db₁ : Db} {left : List (ArtifactKey × Digest)}
    (passed : reconcile itemKey digest write items (load key digestRow workspace (get db)) db =
      .ok (db₁, left))
    (swept : (sortedArtifacts left).foldlM delete db₁ = .ok db') :
    (∃ table, db' = set db table) ∧ (((get db').map key).Nodup →
      Exactly ((get db').filter fun row => (key row).1 = workspace) (items.map rowOf) ∧
      ((get db').filter fun row => (key row).1 ≠ workspace) =
        (get db).filter fun row => (key row).1 ≠ workspace) := by
  obtain ⟨rfl, leftover, digests⟩ := reconcile_put itemKey digest key rowOf get set get_set set_set
    set_get writes distinct passed
  have deleted := foldlM_delete key (fun k => (workspace, k)) get set get_set set_set set_get
    deletes swept
  rw [get_set, set_set] at deleted
  have result : get db' = (upserted key itemKey digest rowOf items
      (load key digestRow workspace (get db)) (get db)).filter fun row =>
        key row ∉ (sortedArtifacts left).map fun k => (workspace, k) := by
    rw [deleted, get_set]
    exact List.filter_congr fun row _ => decide_eq_decide.mpr Iff.rfl
  refine ⟨⟨_, deleted⟩, fun nodup => sweep_exactly key digestRow workspace itemKey digest rowOf rowKey
    distinct digests faithful (fun k => ?_) ?_ result nodup⟩
  · have claimed : (workspace, k) ∈ (sortedArtifacts left).map (fun k => (workspace, k)) ↔
        k ∈ sortedArtifacts left := by simp
    rw [claimed, sortedArtifacts, mem_sortBy, leftover, mem_load]
  · intro k mem
    obtain ⟨_, -, rfl⟩ := List.mem_map.mp mem
    rfl

theorem upsertFingerprints_eq_ok {fingerprints : List ArtifactFingerprint}
    (collisionFree : Function.Injective lib.hash)
    (fits : ∀ row ∈ db.fingerprints, Sized [row.pathDisplay, row.contentHash])
    (fits' : ∀ fingerprint ∈ fingerprints, Sized [(fingerprintRow workspace fingerprint).pathDisplay,
      (fingerprintRow workspace fingerprint).contentHash])
    (distinct : (fingerprints.map artifactKey).Nodup)
    (h : upsertFingerprints lib workspace fingerprints db = .ok db') :
    (∃ table, db' = { db with fingerprints := table }) ∧
      ((db'.fingerprints.map FingerprintRow.key).Nodup →
        Exactly (db'.fingerprints.filter fun row => row.workspace = workspace)
          (fingerprints.map (fingerprintRow workspace)) ∧
        (db'.fingerprints.filter fun row => row.workspace ≠ workspace) =
          db.fingerprints.filter fun row => row.workspace ≠ workspace) := by
  obtain ⟨⟨db₁, left⟩, passed, swept⟩ := bind_eq_ok.mp h
  refine artifacts_swept FingerprintRow.key
    (fun row => digestOf lib (fingerprintParts row.pathDisplay row.contentHash row.sizeBytes))
    artifactKey (fingerprintDigest lib) (fingerprintRow workspace) Db.fingerprints
    (fun db table => { db with fingerprints := table }) (fun _ _ => rfl) (fun _ _ _ => rfl)
    (fun _ => rfl) (fun db _ fingerprint db' step => ?_)
    (fun db k db' step => (Db.checked_eq_ok.mp step).1) (fun _ => rfl) distinct
    (fun fingerprint mem row stored key same => fingerprint_faithful collisionFree key
      (fits row stored) (fits' fingerprint mem) same) passed swept
  obtain ⟨_, -, stored⟩ := bind_eq_ok.mp step
  exact (Db.checked_eq_ok.mp stored).1

theorem upsertExtractorBatches_eq_ok {batches : List StoredExtractorBatch}
    (collisionFree : Function.Injective lib.hash) (hexInjective : Function.Injective lib.toHex)
    (hashed : ∀ row ∈ db.batches, row.workspace = workspace →
      row.payloadHash = lib.toHex (lib.hash row.payload))
    (fits : ∀ row ∈ db.batches, Sized [row.pathDisplay, row.contentHash, row.extractorVersion,
      row.budgetFingerprint, row.payloadHash])
    (fits' : ∀ batch ∈ batches, Sized [(batchRow workspace (payloadHash lib batch) batch).pathDisplay,
      (batchRow workspace (payloadHash lib batch) batch).contentHash,
      (batchRow workspace (payloadHash lib batch) batch).extractorVersion,
      (batchRow workspace (payloadHash lib batch) batch).budgetFingerprint,
      (batchRow workspace (payloadHash lib batch) batch).payloadHash])
    (distinct : (batches.map fun batch => artifactKey batch.source).Nodup)
    (h : upsertExtractorBatches lib workspace batches db = .ok db') :
    (∃ table, db' = { db with batches := table }) ∧ ((db'.batches.map BatchRow.key).Nodup →
      Exactly (db'.batches.filter fun row => row.workspace = workspace)
        (batches.map fun batch => batchRow workspace (payloadHash lib batch) batch) ∧
      (db'.batches.filter fun row => row.workspace ≠ workspace) =
        db.batches.filter fun row => row.workspace ≠ workspace) := by
  obtain ⟨⟨db₁, left⟩, passed, swept⟩ := bind_eq_ok.mp h
  refine artifacts_swept BatchRow.key
    (fun row => digestOf lib (batchParts row.pathDisplay row.contentHash row.sizeBytes
      row.extractorVersion row.budgetFingerprint row.sourceWasLossy row.outputCount
      row.payloadHash))
    (fun batch => artifactKey batch.source) (batchDigest lib)
    (fun batch => batchRow workspace (payloadHash lib batch) batch) Db.batches
    (fun db table => { db with batches := table }) (fun _ _ => rfl) (fun _ _ _ => rfl)
    (fun _ => rfl) (fun db _ batch db' step => ?_)
    (fun db k db' step => (Db.checked_eq_ok.mp step).1) (fun _ => rfl) distinct
    (fun batch mem row stored key same => batch_faithful collisionFree hexInjective key
      (hashed row stored (congrArg Prod.fst key)) (fits row stored) (fits' batch mem) same)
    passed swept
  obtain ⟨_, -, rest⟩ := bind_eq_ok.mp step
  obtain ⟨_, -, stored⟩ := bind_eq_ok.mp rest
  exact (Db.checked_eq_ok.mp stored).1

end Upserts

end CodeSystemGraph.Store
