import CodeSystemGraph.SnapshotLoads

/-!
Runs of the store in which every publication is one of a scan. Of each workspace the next scan loads
what was last published, whether as a whole or as the delta of a plan.
-/

namespace CodeSystemGraph.Incremental

open Extraction Model Ordered Relational
open Store (ArtifactDelta ArtifactFingerprint ArtifactsFit BatchRow Db FingerprintRow PublicationInput
  SnapshotRow StoredExtractorBatch TableReplaced batchRow fingerprintRow payloadHash)

section Plans

variable {previous other current : List ArtifactFingerprint}

theorem planIncrementalScan_congr
    (same : ∀ k, latest artifactKey k previous = latest artifactKey k other) :
    planIncrementalScan previous current = planIncrementalScan other current := by
  have content : ∀ k, contentAt previous k = contentAt other k := fun k => by
    rw [contentAt, contentAt, same]
  have members : ∀ change, change ∈ planIncrementalScan previous current ↔
      change ∈ planIncrementalScan other current := fun change => by
    rw [mem_planIncrementalScan, mem_planIncrementalScan]
    simp only [same, content]
  have strict : ∀ l : List ArtifactFingerprint,
      (planIncrementalScan l current).Pairwise fun a b => changeKey a < changeKey b := fun l => by
    have nodup := @changeKey_nodup l current
    rw [planIncrementalScan] at nodup ⊢
    exact sortBy_strict changeKey (((sortBy_perm changeKey _).map changeKey).nodup_iff.1 nodup)
  have perm := (List.perm_ext_iff_of_nodup (@changeKey_nodup previous current).of_map
    (@changeKey_nodup other current).of_map).2 members
  exact perm.eq_of_pairwise (fun a b _ _ less greater => absurd greater (lt_asymm less))
    (strict previous) (strict other)

theorem planIncrementalScan_sortBy (sorted : (previous.map artifactKey).Pairwise (· < ·)) :
    planIncrementalScan (sortBy columnOrder previous) current =
      planIncrementalScan previous current := by
  have nodup : (previous.map artifactKey).Nodup := sorted.imp fun less => ne_of_lt less
  have nodup' : ((sortBy columnOrder previous).map artifactKey).Nodup :=
    ((sortBy_perm columnOrder previous).map artifactKey).nodup_iff.2 nodup
  refine planIncrementalScan_congr fun k => ?_
  cases found : latest artifactKey k previous with
  | some f =>
    obtain ⟨mem, rfl⟩ := mem_of_latest found
    exact latest_of_nodup nodup' ((mem_sortBy columnOrder).2 mem)
  | none =>
    exact latest_eq_none.2 fun f mem => latest_eq_none.1 found f ((mem_sortBy columnOrder).1 mem)

end Plans

section Runs

variable {Digest : Type} (lib : Store.Libraries Digest)
  (encodingFromStr : String → Option NativePathEncoding) (E : Type) (docs : Documents)
  (known : Set ArtifactFingerprint)

structure Scanned (input : PublicationInput) : Prop where
  snapshot : Snapshot input.fingerprints input.extractorBatches
  isKnown : ∀ f ∈ input.fingerprints, f ∈ known
  fits : ArtifactsFit (input.tables lib).fingerprints (input.tables lib).batches

/-- The delta of the plan against what a scan loads. The batches that it does not mark as unpublished
are among those that it has loaded. -/
structure PlannedFrom (db : Db) (input : PublicationInput) (delta : ArtifactDelta)
    (state : FocusedBatchState docs) (previous : List StoredExtractorBatch) : Prop where
  planned : ∃ before, loadCurrentFingerprints encodingFromStr input.workspace.name db = .ok before ∧
    plannedArtifactDelta (E := E) input.fingerprints
      (planIncrementalScan before input.fingerprints) state = .ok delta
  loaded : ∀ batch ∈ previous, ∃ maximumPayloadBytes batches, batch ∈ batches ∧
    loadCurrentExtractorBatchesWithLimit encodingFromStr input.workspace.name maximumPayloadBytes db =
      .ok batches
  stored : input.extractorBatches = state.storedBatches
  marks : MarksUnpublished previous state

def AsScanned (db : Db) : Store.Operation → Prop
  | .publish input => Scanned lib known input ∧ ∀ delta, input.artifactDelta = some delta →
      ∃ state previous, PlannedFrom encodingFromStr E docs db input delta state previous
  | .save _ => True
  | .remove _ => True

def publishedAfter (workspace : String) (current : Option PublicationInput) :
    Store.Operation → Option PublicationInput
  | .publish input => if input.workspace.name = workspace then some input else current
  | .save _ => current
  | .remove name => if name = workspace then none else current

/-- The last publication of a workspace, unless the workspace was removed after it. -/
def lastPublished (workspace : String) (operations : List Store.Operation) : Option PublicationInput :=
  operations.foldl (publishedAfter workspace) none

def fingerprintsOf (current : Option PublicationInput) : List ArtifactFingerprint :=
  current.elim [] (·.fingerprints)

def batchesOf (current : Option PublicationInput) : List StoredExtractorBatch :=
  current.elim [] (·.extractorBatches)

structure Traced (current : String → Option PublicationInput) (db : Db) : Prop where
  wellFormed : db.WellFormed lib.json
  snapshots : ∀ workspace, lookup SnapshotRow.workspace workspace db.snapshots =
    (current workspace).map fun input => ⟨workspace, input.snapshotId⟩
  holds : ∀ workspace,
    Holds lib workspace (fingerprintsOf (current workspace)) (batchesOf (current workspace)) db
  scanned : ∀ workspace input, current workspace = some input → Scanned lib known input

variable {lib encodingFromStr E docs known} {current : String → Option PublicationInput} {db db' : Db}
  {workspace : String}

theorem traced_empty : Traced lib known (fun _ => none) {} :=
  ⟨Store.sound_empty.1, fun _ => rfl,
    fun _ => ⟨⟨List.nodup_nil, fun _ => Iff.rfl⟩, ⟨List.nodup_nil, fun _ => Iff.rfl⟩⟩,
    fun _ _ published => by cases published⟩

theorem Traced.current_scanned (traced : Traced lib known current db) (workspace : String) :
    Snapshot (fingerprintsOf (current workspace)) (batchesOf (current workspace)) ∧
      (∀ f ∈ fingerprintsOf (current workspace), f ∈ known) ∧
      ArtifactsFit ((fingerprintsOf (current workspace)).map (fingerprintRow workspace))
        ((batchesOf (current workspace)).map fun batch =>
          batchRow workspace (payloadHash lib batch) batch) := by
  cases published : current workspace with
  | none =>
    exact ⟨⟨List.Pairwise.nil, rfl⟩, fun f mem => absurd mem List.not_mem_nil,
      ⟨fun row mem => absurd mem List.not_mem_nil, fun row mem => absurd mem List.not_mem_nil⟩⟩
  | some input =>
    have scanned := traced.scanned workspace input published
    refine ⟨scanned.snapshot, scanned.isKnown, fun row mem => ?_, fun row mem => ?_⟩
    · obtain ⟨f, own, rfl⟩ := List.mem_map.1 mem
      exact scanned.fits.fingerprints (fingerprintRow input.workspace.name f)
        (List.mem_map.2 ⟨f, own, rfl⟩)
    · obtain ⟨batch, own, rfl⟩ := List.mem_map.1 mem
      exact scanned.fits.batches (batchRow input.workspace.name (payloadHash lib batch) batch)
        (List.mem_map.2 ⟨batch, own, rfl⟩)

theorem storeKeys_of_known (agree : ∀ f ∈ known, ∀ g ∈ known, Agree f g)
    {fingerprints : List ArtifactFingerprint} {batches : List StoredExtractorBatch}
    (snapshot : Snapshot fingerprints batches) (isKnown : ∀ f ∈ fingerprints, f ∈ known) :
    (fingerprints.map Store.artifactKey).Nodup ∧
      (batches.map fun batch => Store.artifactKey batch.source).Nodup := by
  have keys := storeKeys_nodup snapshot.sorted fun f mem g mem' =>
    agree f (isKnown f mem) g (isKnown g mem')
  refine ⟨keys, ?_⟩
  rw [snapshot.batchKeys]
  exact keys.sublist (List.filter_sublist.map Store.artifactKey)

section Loads

variable (agree : ∀ f ∈ known, ∀ g ∈ known, Agree f g)
  (reads : ∀ encoding, encodingFromStr (Store.quoted (Store.encodingName encoding)) = some encoding)

include agree reads in
theorem Traced.loads (traced : Traced lib known current db) (workspace : String) :
    loadCurrentFingerprints encodingFromStr workspace db =
        .ok (sortBy columnOrder (fingerprintsOf (current workspace))) ∧
      ∀ maximumPayloadBytes degradationExtractor,
        loadCurrentExtractorBatchesWhere encodingFromStr workspace maximumPayloadBytes
            degradationExtractor db =
          (current workspace).elim (.error (.currentSnapshotMissing workspace)) fun input =>
            .ok (selectedBatches maximumPayloadBytes degradationExtractor input.extractorBatches) := by
  obtain ⟨snapshot, isKnown, -⟩ := traced.current_scanned workspace
  obtain ⟨keys, batchKeys⟩ := storeKeys_of_known agree snapshot isKnown
  have holds := traced.holds workspace
  have found := traced.snapshots workspace
  cases published : current workspace with
  | none =>
    rw [published] at found
    have missing : currentSnapshotId workspace db = .error (.currentSnapshotMissing workspace) := by
      rw [currentSnapshotId, found]
      rfl
    constructor
    · rw [loadCurrentFingerprints, loadCurrentArtifactFingerprints, missing]
      rfl
    · intro maximumPayloadBytes degradationExtractor
      rw [loadCurrentExtractorBatchesWhere, missing]
      rfl
  | some input =>
    rw [published] at found holds keys batchKeys
    have present : currentSnapshotId workspace db = .ok input.snapshotId := by
      rw [currentSnapshotId, found]
      rfl
    exact ⟨loadCurrentFingerprints_holds reads traced.wellFormed present keys holds.fingerprints,
      loadCurrentExtractorBatchesWhere_holds reads traced.wellFormed present batchKeys holds.batches⟩

theorem Traced.loaded_mem (traced : Traced lib known current db)
    (agree : ∀ f ∈ known, ∀ g ∈ known, Agree f g)
    (reads : ∀ encoding, encodingFromStr (Store.quoted (Store.encodingName encoding)) = some encoding)
    {maximumPayloadBytes : Nat} {batches : List StoredExtractorBatch}
    (loaded : loadCurrentExtractorBatchesWithLimit encodingFromStr workspace maximumPayloadBytes db =
      .ok batches) {batch : StoredExtractorBatch} (mem : batch ∈ batches) :
    batch ∈ batchesOf (current workspace) := by
  rw [loadCurrentExtractorBatchesWithLimit, (traced.loads agree reads workspace).2] at loaded
  cases published : current workspace with
  | none =>
    rw [published] at loaded
    cases loaded
  | some input =>
    rw [published] at loaded
    rw [← Except.ok.inj loaded] at mem
    exact List.mem_of_mem_filter ((mem_sortBy _).1 mem)

end Loads

theorem Traced.artifactsFit (traced : Traced lib known current db) :
    ArtifactsFit db.fingerprints db.batches := by
  constructor
  · intro row mem
    exact (traced.current_scanned row.workspace).2.2.fingerprints row
      (((traced.holds row.workspace).fingerprints.2 row).1 (List.mem_filter.2 ⟨mem, decide_eq_true rfl⟩))
  · intro row mem
    exact (traced.current_scanned row.workspace).2.2.batches row
      (((traced.holds row.workspace).batches.2 row).1 (List.mem_filter.2 ⟨mem, decide_eq_true rfl⟩))

theorem Holds.congr {before : List ArtifactFingerprint} {batches : List StoredExtractorBatch}
    (holds : Holds lib workspace before batches db)
    (sameFingerprints : (db'.fingerprints.filter fun row => row.workspace = workspace) =
      db.fingerprints.filter fun row => row.workspace = workspace)
    (sameBatches : (db'.batches.filter fun row => row.workspace = workspace) =
      db.batches.filter fun row => row.workspace = workspace) :
    Holds lib workspace before batches db' :=
  ⟨sameFingerprints ▸ holds.fingerprints, sameBatches ▸ holds.batches⟩

theorem Traced.saved (traced : Traced lib known current db) {record : Store.WorkspaceRecord}
    (done : Store.saveWorkspaceRegistry lib.json record db = .ok db') :
    Traced lib known current db' := by
  obtain ⟨rfl, wf⟩ := Store.upsertRegistry_eq_ok done
  exact ⟨wf, traced.snapshots, fun workspace => (traced.holds workspace).congr rfl rfl, traced.scanned⟩

theorem removeWorkspace_artifacts {json : Store.JsonFunctions} {existed : Bool}
    (wf : db.WellFormed json) (done : Store.removeWorkspace json workspace db = .ok (db', existed)) :
    db'.WellFormed json ∧
      db'.snapshots = (db.snapshots.filter fun row => row.workspace ≠ workspace) ∧
      db'.fingerprints = (db.fingerprints.filter fun row => row.workspace ≠ workspace) ∧
      db'.batches = (db.batches.filter fun row => row.workspace ≠ workspace) := by
  obtain ⟨db₁, first, rest⟩ := bind_eq_ok.1 done
  obtain ⟨db₂, second, rest⟩ := bind_eq_ok.1 rest
  obtain ⟨db₃, third, rest⟩ := bind_eq_ok.1 rest
  obtain ⟨rfl, -⟩ := Prod.mk.inj (pure_eq_ok.1 rest)
  obtain ⟨rfl, -⟩ := Db.checked_eq_ok.1 first
  obtain ⟨rfl, -⟩ := Db.checked_eq_ok.1 second
  obtain ⟨rfl, collected⟩ := Db.checked_eq_ok.1 third
  have names : ∀ name, name ∈ db.workspaceNames →
      (name ∈ (db.workspaces.filter fun row => row.name = workspace).map (·.name) ↔
        name = workspace) := by
    intro name registered
    rw [List.mem_map]
    constructor
    · rintro ⟨row, listed, rfl⟩
      exact of_decide_eq_true (List.mem_filter.1 listed).2
    · rintro rfl
      obtain ⟨row, listed, same⟩ := List.mem_map.1 registered
      exact ⟨row, List.mem_filter.2 ⟨listed, decide_eq_true same⟩, same⟩
  refine ⟨collected, ?_, ?_, ?_⟩
  · refine List.filter_congr fun row mem => ?_
    have name := names row.workspace (wf.references.snapshots row mem)
    rw [← decide_not]
    exact decide_eq_decide.2 (not_congr name)
  · refine List.filter_congr fun row mem => ?_
    exact decide_eq_decide.2 (not_congr (names row.workspace (wf.references.fingerprints row mem).1))
  · refine List.filter_congr fun row mem => ?_
    exact decide_eq_decide.2 (not_congr (names row.workspace (wf.references.batches row mem).1))

theorem filter_removed {Row : Type} {workspaceOf : Row → String} (table : List Row) {other : String} :
    ((table.filter fun row => workspaceOf row ≠ workspace).filter fun row => workspaceOf row = other) =
      if workspace = other then [] else table.filter fun row => workspaceOf row = other := by
  rw [List.filter_filter]
  by_cases same : workspace = other
  · rw [if_pos same, List.filter_eq_nil_iff]
    intro row _
    simp [same]
  · rw [if_neg same]
    refine List.filter_congr fun row _ => ?_
    by_cases here : workspaceOf row = other
    · simp [here, Ne.symm same]
    · simp [here]

theorem Traced.removed (traced : Traced lib known current db) {existed : Bool}
    (done : Store.removeWorkspace lib.json workspace db = .ok (db', existed)) :
    Traced lib known (fun other => if workspace = other then none else current other) db' := by
  obtain ⟨wf, snapshots, fingerprints, batches⟩ := removeWorkspace_artifacts traced.wellFormed done
  refine ⟨wf, fun other => ?_, fun other => ?_, fun other input is => ?_⟩
  · rw [snapshots, lookup_filter (fun name => decide (name ≠ workspace)), traced.snapshots]
    by_cases same : workspace = other
    · simp [same]
    · simp [same, Ne.symm same]
  · split
    · next same =>
      constructor
      · rw [fingerprints, filter_removed, if_pos same]
        exact ⟨List.nodup_nil, fun _ => Iff.rfl⟩
      · rw [batches, filter_removed, if_pos same]
        exact ⟨List.nodup_nil, fun _ => Iff.rfl⟩
    · next differ =>
      refine (traced.holds other).congr ?_ ?_
      · rw [fingerprints, filter_removed, if_neg differ]
      · rw [batches, filter_removed, if_neg differ]
  · split at is
    · cases is
    · exact traced.scanned other input is

section Publications

variable [DecidableEq Digest] {input : PublicationInput}
  (agree : ∀ f ∈ known, ∀ g ∈ known, Agree f g)
  (reads : ∀ encoding, encodingFromStr (Store.quoted (Store.encodingName encoding)) = some encoding)
  (collisionFree : Function.Injective lib.hash) (hexInjective : Function.Injective lib.toHex)

include agree reads collisionFree hexInjective in
theorem Traced.replaced (traced : Traced lib known current db)
    (asScanned : AsScanned lib encodingFromStr E docs known db (.publish input))
    (done : Store.publishSnapshot lib input db = .ok db') :
    db'.WellFormed lib.json ∧
      TableReplaced FingerprintRow.workspace input.workspace.name (input.tables lib).fingerprints
        db.fingerprints db'.fingerprints ∧
      TableReplaced BatchRow.workspace input.workspace.name (input.tables lib).batches
        db.batches db'.batches ∧
      db'.snapshots =
        put SnapshotRow.workspace db.snapshots ⟨input.workspace.name, input.snapshotId⟩ := by
  obtain ⟨scanned, delta⟩ := asScanned
  obtain ⟨wf, start, after, fingerprints, batches, step, fingerprints', batches', snapshots⟩ :=
    publishSnapshot_artifacts done
  have keys : (db'.fingerprints.map FingerprintRow.key).Nodup := wf.keys.fingerprints
  have batchKeys : (db'.batches.map BatchRow.key).Nodup := wf.keys.batches
  have holds := traced.holds input.workspace.name
  refine ⟨wf, ?_⟩
  cases whole : input.artifactDelta with
  | none =>
    have hashed : ∀ row ∈ start.batches, row.workspace = input.workspace.name →
        row.payloadHash = lib.toHex (lib.hash row.payload) := by
      intro row listed here
      rw [batches] at listed
      obtain ⟨batch, -, rfl⟩ := List.mem_map.1 ((holds.batches.2 row).1
        (List.mem_filter.2 ⟨listed, decide_eq_true here⟩))
      rfl
    obtain ⟨distinct, distinctBatches⟩ := storeKeys_of_known agree scanned.snapshot scanned.isKnown
    obtain ⟨-, fingerprintRows, batchRows⟩ := Store.publishArtifacts_full collisionFree hexInjective
      whole hashed
      (fingerprints ▸ batches ▸ traced.artifactsFit) scanned.fits distinct distinctBatches step
      (fingerprints' ▸ keys) (batches' ▸ batchKeys)
    rw [← fingerprints', fingerprints] at fingerprintRows
    rw [← batches', batches] at batchRows
    exact ⟨fingerprintRows, batchRows, snapshots⟩
  | some changes =>
    obtain ⟨state, previous, planned⟩ := delta changes whole
    obtain ⟨before, loaded, isPlanned⟩ := planned.planned
    obtain ⟨snapshot, isKnown, -⟩ := traced.current_scanned input.workspace.name
    rw [(traced.loads agree reads input.workspace.name).1] at loaded
    obtain rfl := Except.ok.inj loaded
    rw [planIncrementalScan_sortBy snapshot.sorted] at isPlanned
    obtain ⟨delta', isPlanned', parts, upserted⟩ :=
      @plannedArtifactDelta_eq_ok E docs (fingerprintsOf (current input.workspace.name))
        input.fingerprints scanned.snapshot.sorted state
    rw [isPlanned] at isPlanned'
    obtain rfl := Except.ok.inj isPlanned'
    rw [Store.publishArtifacts, whole] at step
    obtain ⟨fingerprintTable, batchTable⟩ := applyArtifactDelta_eq_ok step
    rw [← fingerprints', fingerprints] at fingerprintTable
    rw [← batches', batches] at batchTable
    have all : ∀ f ∈ fingerprintsOf (current input.workspace.name) ++ input.fingerprints, f ∈ known :=
      fun f mem => (List.mem_append.1 mem).elim (isKnown f) (scanned.isKnown f)
    have agree' : ∀ f ∈ fingerprintsOf (current input.workspace.name) ++ input.fingerprints,
        ∀ g ∈ fingerprintsOf (current input.workspace.name) ++ input.fingerprints, Agree f g :=
      fun f mem g mem' => agree f (all f mem) g (all g mem')
    have given : ∀ batch ∈ previous, batch ∈ batchesOf (current input.workspace.name) := by
      intro batch mem
      obtain ⟨_, batches, listed, loaded⟩ := planned.loaded batch mem
      exact traced.loaded_mem agree reads loaded listed
    have batchRows := parts.batchRows snapshot (planned.stored ▸ scanned.snapshot) agree' planned.marks
      given upserted traced.wellFormed.keys.batches holds.batches batchTable batchKeys
    rw [← planned.stored] at batchRows
    exact ⟨parts.fingerprintRows snapshot.sorted scanned.snapshot.sorted agree'
        traced.wellFormed.keys.fingerprints holds.fingerprints fingerprintTable keys,
      batchRows, snapshots⟩

include agree reads collisionFree hexInjective in
theorem Traced.published (traced : Traced lib known current db)
    (asScanned : AsScanned lib encodingFromStr E docs known db (.publish input))
    (done : Store.publishSnapshot lib input db = .ok db') :
    Traced lib known (fun workspace => publishedAfter workspace (current workspace) (.publish input))
      db' := by
  obtain ⟨wf, fingerprints, batches, snapshots⟩ :=
    traced.replaced agree reads collisionFree hexInjective asScanned done
  refine ⟨wf, fun workspace => ?_, fun workspace => ?_, fun workspace other is => ?_⟩
  · rw [snapshots, lookup_put, traced.snapshots, publishedAfter]
    split
    · next same =>
      rw [← same]
      rfl
    · rfl
  · rw [publishedAfter]
    split
    · next same =>
      subst same
      exact ⟨fingerprints.exactly, batches.exactly⟩
    · next differ =>
      exact (traced.holds workspace).congr (filter_of_others fingerprints (Ne.symm differ))
        (filter_of_others batches (Ne.symm differ))
  · rw [publishedAfter] at is
    split at is
    · obtain rfl := Option.some.inj is
      exact asScanned.1
    · exact traced.scanned workspace other is

include agree reads collisionFree hexInjective in
theorem Traced.operated (traced : Traced lib known current db) {operation : Store.Operation}
    (asScanned : AsScanned lib encodingFromStr E docs known db operation)
    (step : Store.operate lib db operation = some db') :
    Traced lib known (fun workspace => publishedAfter workspace (current workspace) operation) db' := by
  cases operation with
  | save record => exact traced.saved (toOption_eq_some.1 step)
  | publish input =>
    exact traced.published agree reads collisionFree hexInjective asScanned (toOption_eq_some.1 step)
  | remove workspace =>
    obtain ⟨⟨_, existed⟩, done, rfl⟩ := Option.map_eq_some_iff.1 step
    exact traced.removed (toOption_eq_some.1 done)

include agree reads collisionFree hexInjective in
theorem Traced.ran {operations : List Store.Operation} (traced : Traced lib known current db)
    (asScanned : Steps.Meets (Store.operate lib) (AsScanned lib encodingFromStr E docs known) db
      operations)
    (ran : Steps.run (Store.operate lib) db operations = some db') :
    Traced lib known (fun workspace => operations.foldl (publishedAfter workspace) (current workspace))
      db' := by
  induction operations generalizing db current with
  | nil =>
    obtain rfl := Option.some.inj ran
    exact traced
  | cons operation operations ih =>
    obtain ⟨between, step, rest⟩ := Steps.run_cons_eq_some.1 ran
    exact ih (traced.operated agree reads collisionFree hexInjective asScanned.1 step)
      (asScanned.2 between step) rest

/-- After every run whose publications are those of scans, each workspace loads what was last
published of it, and nothing if it was removed since or never published. -/
theorem publications_load {operations : List Store.Operation}
    (agree : ∀ f ∈ known, ∀ g ∈ known, Agree f g)
    (reads : ∀ encoding, encodingFromStr (Store.quoted (Store.encodingName encoding)) = some encoding)
    (collisionFree : Function.Injective lib.hash) (hexInjective : Function.Injective lib.toHex)
    (asScanned : Steps.Meets (Store.operate lib) (AsScanned lib encodingFromStr E docs known) {}
      operations)
    (ran : Steps.run (Store.operate lib) {} operations = some db) (workspace : String) :
    findCurrentSnapshotId workspace db =
        .ok ((lastPublished workspace operations).map (·.snapshotId)) ∧
      loadCurrentFingerprints encodingFromStr workspace db =
        .ok (sortBy columnOrder (fingerprintsOf (lastPublished workspace operations))) ∧
      ∀ maximumPayloadBytes degradationExtractor,
        loadCurrentExtractorBatchesWhere encodingFromStr workspace maximumPayloadBytes
            degradationExtractor db =
          (lastPublished workspace operations).elim (.error (.currentSnapshotMissing workspace))
            fun input => .ok
              (selectedBatches maximumPayloadBytes degradationExtractor input.extractorBatches) := by
  have traced := traced_empty.ran agree reads collisionFree hexInjective asScanned ran
  refine ⟨?_, traced.loads agree reads workspace⟩
  have found := traced.snapshots workspace
  rw [findCurrentSnapshotId, currentSnapshotId, found]
  change _ = Except.ok ((operations.foldl (publishedAfter workspace) none).map (·.snapshotId))
  cases operations.foldl (publishedAfter workspace) none <;> rfl

end Publications

end Runs

section Sample

def registeredInput : PublicationInput :=
  { changedInput with
    workspace := Store.exampleRecord "w" [Store.exampleRepository "r" "c" "/r"] }

def earlierInput : PublicationInput :=
  { registeredInput with
    fingerprints := earlierFingerprints
    extractorBatches := earlierBatches }

/-- The whole of one snapshot, then the delta that leads to the next. -/
def publishedRun : List Store.Operation :=
  [.publish earlierInput,
    .publish { registeredInput with
      snapshotId := "s2"
      artifactDelta := (plannedArtifactDelta (E := String) changedInput.fingerprints (planIncrementalScan
        (sortBy columnOrder earlierFingerprints) changedInput.fingerprints) changedState).toOption }]

theorem publications_load_planned :
    ∃ db, Steps.run (Store.operate Store.plainLibraries) {} publishedRun = some db ∧
      findCurrentSnapshotId "w" db = .ok (some "s2") ∧
      loadCurrentFingerprints sampleFromStr "w" db =
        .ok (sortBy columnOrder changedInput.fingerprints) := by
  have agree : ∀ f ∈ earlierFingerprints ++ changedInput.fingerprints,
      ∀ g ∈ earlierFingerprints ++ changedInput.fingerprints, Agree f g := by decide +kernel
  have selected : ∀ batch ∈ earlierBatches, batchSelected 1000 none batch.payload.length
      batch.sourceWasLossy batch.source.extractor = true := by decide +kernel
  have asScanned : Steps.Meets (Store.operate Store.plainLibraries) (AsScanned Store.plainLibraries
      sampleFromStr String sampleDocuments (fun f => f ∈ earlierFingerprints ++ changedInput.fingerprints))
      {} publishedRun := by
    have first : AsScanned Store.plainLibraries sampleFromStr String sampleDocuments
        (fun f => f ∈ earlierFingerprints ++ changedInput.fingerprints) {} (.publish earlierInput) :=
      ⟨⟨⟨by decide +kernel, by decide +kernel⟩, fun f mem => List.mem_append_left _ mem,
        by decide +kernel⟩, fun delta is => by cases is⟩
    refine ⟨first, fun db step => ⟨⟨⟨⟨by decide +kernel, by decide +kernel⟩,
      fun f mem => List.mem_append_right _ mem, by decide +kernel⟩, fun delta is => ?_⟩,
      fun _ _ => trivial⟩⟩
    obtain ⟨loads, loaded⟩ := (traced_empty.operated agree sampleFromStr_reads Function.injective_id
      Store.hexText_injective first step).loads agree sampleFromStr_reads "w"
    exact ⟨changedState, earlierBatches, ⟨_, loads, toOption_eq_some.1 is⟩, fun batch mem =>
      ⟨1000, _, (mem_sortBy _).2 (List.mem_filter.2 ⟨mem, selected batch mem⟩), loaded 1000 none⟩,
      rfl, changedState_marks⟩
  have succeeds : (Steps.run (Store.operate Store.plainLibraries) {} publishedRun).isSome = true := by
    decide +kernel
  obtain ⟨db, ran⟩ := Option.isSome_iff_exists.1 succeeds
  obtain ⟨current, fingerprints, -⟩ := publications_load agree sampleFromStr_reads Function.injective_id
    Store.hexText_injective asScanned ran "w"
  exact ⟨db, ran, current, fingerprints⟩

end Sample

end CodeSystemGraph.Incremental
