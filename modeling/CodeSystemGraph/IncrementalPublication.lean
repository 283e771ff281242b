import CodeSystemGraph.FocusedExtraction
import CodeSystemGraph.StoreRuns

/-!
The rows that an incremental scan publishes: only what its plan changed is written, and the tables
end as a publication of the whole snapshot would leave them.
-/

namespace CodeSystemGraph.Incremental

open Extraction Model Ordered Relational
open Store (ArtifactDelta ArtifactFingerprint BatchRow Db FingerprintRow PublicationInput Replaced
  StoredExtractorBatch TableReplaced batchRow fingerprintRow payloadHash)

section Model

variable {E : Type} {docs : Documents}

/-- A turn of the loop of `PlannedArtifactDelta::new`: what is upserted and what is removed. -/
def planChange (fingerprints : List ArtifactFingerprint)
    (delta : List ArtifactFingerprint × List Store.ArtifactChange) (change : ArtifactChange) :
    Except (ApplicationError E) (List ArtifactFingerprint × List Store.ArtifactChange) :=
  if change.kind = .deleted then .ok (delta.1, delta.2 ++ [change.toArtifactChange])
  else
    match BinarySearch.search artifactKey (changeKey change) fingerprints with
    | none => .error (.initialization ("changed artifact `" ++ change.path.display ++
        "` is missing from the current fingerprints"))
    | some fingerprint => .ok (delta.1 ++ [fingerprint], delta.2)

/-- `PlannedArtifactDelta::new`, as the store takes it. -/
def plannedArtifactDelta (fingerprints : List ArtifactFingerprint) (plan : List ArtifactChange)
    (focused : FocusedBatchState docs) : Except (ApplicationError E) ArtifactDelta :=
  (plan.foldlM (planChange fingerprints) ([], [])).map fun delta =>
    { upsertedFingerprints := delta.1
      upsertedBatches := focused.unpublishedBatches.filterMap fun index =>
        focused.storedBatches[index]?
      removed := delta.2 }

end Model

section Snapshots

/-- Equal paths are shown equally, and an artifact with one content has one size. -/
structure Agree (f g : ArtifactFingerprint) : Prop where
  display : f.path.encoding = g.path.encoding → f.path.bytes = g.path.bytes →
    f.path.display = g.path.display
  size : Store.artifactKey f = Store.artifactKey g → f.contentHash = g.contentHash →
    f.sizeBytes = g.sizeBytes

/-- What a scan publishes: fingerprints in the order of their keys, and one batch for each artifact
of a focused extractor. -/
structure Snapshot (fingerprints : List ArtifactFingerprint) (batches : List StoredExtractorBatch) :
    Prop where
  sorted : (fingerprints.map artifactKey).Pairwise (· < ·)
  sources : batches.map (·.source) = focusedOnly fingerprints

structure Holds {Digest : Type} (lib : Store.Libraries Digest) (workspace : String)
    (fingerprints : List ArtifactFingerprint) (batches : List StoredExtractorBatch) (db : Db) :
    Prop where
  fingerprints : Exactly (db.fingerprints.filter fun row => row.workspace = workspace)
    (fingerprints.map (fingerprintRow workspace))
  batches : Exactly (db.batches.filter fun row => row.workspace = workspace)
    (batches.map fun batch => batchRow workspace (payloadHash lib batch) batch)

variable {f g : ArtifactFingerprint} {fingerprints : List ArtifactFingerprint}
  {batches : List StoredExtractorBatch}

theorem encodingName_injective : Function.Injective fun encoding : NativePathEncoding =>
    Store.quoted (Store.encodingName encoding) := by
  intro encoding other same
  cases encoding <;> cases other <;> first | rfl | exact absurd same (by decide)

theorem storeKey_of_key (same : artifactKey f = artifactKey g) :
    Store.artifactKey f = Store.artifactKey g := by
  obtain ⟨repo, checkout, path, extractor⟩ := keyOf_inj same
  rw [Store.artifactKey, Store.artifactKey, repo, checkout, path, extractor]

theorem key_of_storeKey (agree : Agree f g) (same : Store.artifactKey f = Store.artifactKey g) :
    artifactKey f = artifactKey g := by
  simp only [Store.artifactKey, Store.ArtifactKey.mk.injEq] at same
  obtain ⟨repo, checkout, encoding, bytes, extractor⟩ := same
  have sameEncoding := encodingName_injective encoding
  have path : f.path = g.path := by
    have display := agree.display sameEncoding bytes
    cases onePath : f.path
    cases otherPath : g.path
    rw [onePath, otherPath] at sameEncoding bytes display
    rw [NativePath.mk.injEq]
    exact ⟨sameEncoding, bytes, display⟩
  rw [artifactKey, artifactKey, repo, checkout, path, extractor]

theorem eq_of_agree (agree : Agree f g) (same : artifactKey f = artifactKey g)
    (content : f.contentHash = g.contentHash) : f = g := by
  have size := agree.size (storeKey_of_key same) content
  obtain ⟨repo, checkout, path, extractor⟩ := keyOf_inj same
  cases f
  cases g
  rw [ArtifactFingerprint.mk.injEq]
  exact ⟨repo, checkout, path, extractor, content, size⟩

theorem eq_of_key (sorted : (fingerprints.map artifactKey).Pairwise (· < ·))
    (mem : f ∈ fingerprints) (mem' : g ∈ fingerprints) (same : artifactKey f = artifactKey g) :
    f = g :=
  List.inj_on_of_nodup_map (sorted.imp fun less => ne_of_lt less) mem mem' same

theorem storeKeys_nodup (sorted : (fingerprints.map artifactKey).Pairwise (· < ·))
    (agree : ∀ f ∈ fingerprints, ∀ g ∈ fingerprints, Agree f g) :
    (fingerprints.map Store.artifactKey).Nodup := by
  have keys : (fingerprints.map artifactKey).Nodup := sorted.imp fun less => ne_of_lt less
  refine (List.nodup_map_iff_inj_on keys.of_map).2 fun f mem g mem' same => ?_
  exact eq_of_key sorted mem mem' (key_of_storeKey (agree f mem g mem') same)

theorem Snapshot.source_mem (snapshot : Snapshot fingerprints batches) {batch : StoredExtractorBatch}
    (mem : batch ∈ batches) : batch.source ∈ focusedOnly fingerprints :=
  snapshot.sources ▸ List.mem_map_of_mem mem

theorem Snapshot.batchKeys (snapshot : Snapshot fingerprints batches) :
    (batches.map fun batch => Store.artifactKey batch.source) =
      (focusedOnly fingerprints).map Store.artifactKey := by
  rw [← snapshot.sources, List.map_map]
  rfl

end Snapshots

section Plans

variable {E : Type} {docs : Documents} {before after : List ArtifactFingerprint}

theorem latest_eq_none {k : BorrowedArtifactKey} {l : List ArtifactFingerprint} :
    latest artifactKey k l = none ↔ ∀ f ∈ l, artifactKey f ≠ k := by
  simp [latest]

theorem difference_present (content : Option String) (hash : String) :
    difference content (some hash) ≠ some .deleted := by
  cases content with
  | none => exact fun is => by cases is
  | some old =>
    rw [difference]
    split <;> exact fun is => by cases is

theorem exists_latest {l : List ArtifactFingerprint} {f : ArtifactFingerprint} (mem : f ∈ l) :
    ∃ g ∈ l, artifactKey g = artifactKey f ∧ latest artifactKey (artifactKey f) l = some g := by
  cases found : latest artifactKey (artifactKey f) l with
  | none => exact absurd rfl (latest_eq_none.1 found f mem)
  | some g =>
    obtain ⟨listed, same⟩ := mem_of_latest found
    exact ⟨g, listed, same, rfl⟩

theorem changed_mem {change : ArtifactChange} (mem : change ∈ planIncrementalScan before after)
    (kind : change.kind ≠ .deleted) : ∃ f ∈ after, artifactKey f = changeKey change := by
  rcases mem_planIncrementalScan.1 mem with ⟨f, found, kind', -, rfl⟩ | ⟨f, -, -, rfl⟩
  · exact ⟨f, (mem_of_latest found).1, rfl⟩
  · exact absurd rfl kind

theorem foldlM_planChange (sorted : (after.map artifactKey).Pairwise (· < ·))
    {plan : List ArtifactChange}
    (current : ∀ change ∈ plan, change.kind ≠ .deleted → ∃ f ∈ after, artifactKey f = changeKey change)
    (delta : List ArtifactFingerprint × List Store.ArtifactChange) :
    ∃ upserted, plan.foldlM (planChange (E := E) after) delta = .ok (delta.1 ++ upserted,
        delta.2 ++ (plan.filter (·.kind = .deleted)).map (·.toArtifactChange)) ∧
      upserted.map artifactKey = (plan.filter (·.kind ≠ .deleted)).map changeKey ∧
      ∀ f ∈ upserted, f ∈ after := by
  induction plan generalizing delta with
  | nil => exact ⟨[], by simp, rfl, fun f mem => absurd mem List.not_mem_nil⟩
  | cons change plan ih =>
    obtain ⟨here, later⟩ := List.forall_mem_cons.1 current
    by_cases kind : change.kind = .deleted
    · obtain ⟨upserted, done, keys, known⟩ := ih later (delta.1, delta.2 ++ [change.toArtifactChange])
      refine ⟨upserted, ?_, ?_, known⟩
      · rw [List.foldlM_cons, planChange, if_pos kind, ok_bind, done]
        simp [kind]
      · simpa [kind] using keys
    · obtain ⟨f, mem, same⟩ := here kind
      have found := (BinarySearch.search_eq_some (List.pairwise_map.1 sorted)).2 ⟨mem, same⟩
      obtain ⟨upserted, done, keys, known⟩ := ih later (delta.1 ++ [f], delta.2)
      refine ⟨f :: upserted, ?_, ?_, List.forall_mem_cons.2 ⟨mem, known⟩⟩
      · rw [List.foldlM_cons, planChange, if_neg kind, found, ok_bind, done]
        simp [kind]
      · simp [keys, same, kind]

structure Planned (before after : List ArtifactFingerprint) (delta : ArtifactDelta) : Prop where
  upserted : delta.upsertedFingerprints.map artifactKey =
    ((planIncrementalScan before after).filter (·.kind ≠ .deleted)).map changeKey
  current : ∀ f ∈ delta.upsertedFingerprints, f ∈ after
  removed : delta.removed =
    ((planIncrementalScan before after).filter (·.kind = .deleted)).map (·.toArtifactChange)

theorem plannedArtifactDelta_eq_ok (sorted : (after.map artifactKey).Pairwise (· < ·))
    (state : FocusedBatchState docs) :
    ∃ delta, plannedArtifactDelta (E := E) after (planIncrementalScan before after) state = .ok delta ∧
      Planned before after delta ∧
      delta.upsertedBatches = state.unpublishedBatches.filterMap fun index =>
        state.storedBatches[index]? := by
  obtain ⟨upserted, done, keys, known⟩ :=
    @foldlM_planChange E after sorted (planIncrementalScan before after)
      (fun change mem => changed_mem mem) ([], [])
  refine ⟨⟨upserted, state.unpublishedBatches.filterMap fun index => state.storedBatches[index]?,
    ((planIncrementalScan before after).filter (·.kind = .deleted)).map (·.toArtifactChange)⟩,
    ?_, ⟨keys, known, rfl⟩, rfl⟩
  rw [plannedArtifactDelta, done]
  rfl

variable {delta : ArtifactDelta}

theorem Planned.upserted_nodup (planned : Planned before after delta)
    (agree : ∀ f ∈ after, ∀ g ∈ after, Agree f g) :
    (delta.upsertedFingerprints.map Store.artifactKey).Nodup := by
  have keys : (delta.upsertedFingerprints.map artifactKey).Nodup := by
    rw [planned.upserted]
    exact changeKey_nodup.sublist (List.filter_sublist.map changeKey)
  refine (List.nodup_map_iff_inj_on keys.of_map).2 fun f mem g mem' same => ?_
  exact List.inj_on_of_nodup_map keys mem mem' (key_of_storeKey
    (agree f (planned.current f mem) g (planned.current g mem')) same)

theorem Planned.kept (planned : Planned before after delta)
    (sorted : (after.map artifactKey).Pairwise (· < ·))
    (agree : ∀ f ∈ before, ∀ g ∈ after, Agree f g) {f : ArtifactFingerprint} (mem : f ∈ after) :
    f ∈ delta.upsertedFingerprints ∨ f ∈ before := by
  obtain ⟨g, listed, same, found⟩ := exists_latest mem
  obtain rfl := eq_of_key sorted listed mem same
  cases kind : difference (contentAt before (artifactKey g)) (some g.contentHash) with
  | none =>
    right
    rw [contentAt] at kind
    cases old : latest artifactKey (artifactKey g) before with
    | none =>
      rw [old] at kind
      cases kind
    | some p =>
      obtain ⟨published, key⟩ := mem_of_latest old
      rw [old] at kind
      have content : p.contentHash = g.contentHash := by
        by_contra differ
        rw [Option.map_some, difference, if_pos differ] at kind
        cases kind
      rw [← eq_of_agree (agree p published g mem) key content]
      exact published
  | some kind' =>
    left
    have listed : changeOf g kind' ∈ planIncrementalScan before after :=
      mem_planIncrementalScan.2 (.inl ⟨g, found, kind', kind, rfl⟩)
    have current : kind' ≠ .deleted := fun is => difference_present _ _ (is ▸ kind)
    have key : artifactKey g ∈ delta.upsertedFingerprints.map artifactKey := by
      rw [planned.upserted]
      exact List.mem_map.2 ⟨_, List.mem_filter.2 ⟨listed, decide_eq_true current⟩, rfl⟩
    obtain ⟨upserted, isUpserted, same'⟩ := List.mem_map.1 key
    rwa [← eq_of_key sorted (planned.current _ isUpserted) mem same']

theorem Planned.removed_of_gone (planned : Planned before after delta) {p : ArtifactFingerprint}
    (mem : p ∈ before) (gone : Store.artifactKey p ∉ after.map Store.artifactKey) :
    Store.artifactKey p ∈ delta.removed.map Store.changeKey := by
  obtain ⟨q, listed, same, found⟩ := exists_latest mem
  have absent : latest artifactKey (artifactKey q) after = none := by
    refine latest_eq_none.2 fun f current key => gone ?_
    exact List.mem_map.2 ⟨f, current, (storeKey_of_key (key.trans same))⟩
  have change : changeOf q .deleted ∈ planIncrementalScan before after :=
    mem_planIncrementalScan.2 (.inr ⟨q, same ▸ found, absent, rfl⟩)
  rw [planned.removed, List.map_map]
  refine List.mem_map.2 ⟨_, List.mem_filter.2 ⟨change, decide_eq_true rfl⟩, ?_⟩
  exact storeKey_of_key same

theorem Planned.not_removed (planned : Planned before after delta)
    (agree : ∀ f ∈ before, ∀ g ∈ after, Agree f g) {f : ArtifactFingerprint} (mem : f ∈ after) :
    Store.artifactKey f ∉ delta.removed.map Store.changeKey := by
  rw [planned.removed, List.map_map]
  intro isRemoved
  obtain ⟨change, filtered, same⟩ := List.mem_map.1 isRemoved
  obtain ⟨listed, kind⟩ := List.mem_filter.1 filtered
  rcases mem_planIncrementalScan.1 listed with ⟨g, -, kind', is, rfl⟩ | ⟨p, found, absent, rfl⟩
  · obtain rfl : kind' = .deleted := of_decide_eq_true kind
    exact difference_present _ _ is
  · have key := key_of_storeKey (agree p (mem_of_latest found).1 f mem) same
    exact latest_eq_none.1 absent f mem key.symm

end Plans

section Tables

variable {Digest : Type} {lib : Store.Libraries Digest} {workspace : String} {db db' : Db}
  {before after : List ArtifactFingerprint} {delta : ArtifactDelta}

theorem applyArtifactDelta_eq_ok (h : Store.applyArtifactDelta lib workspace delta db = .ok db') :
    db'.fingerprints = (((delta.upsertedFingerprints.map (fingerprintRow workspace)).foldl
        (put FingerprintRow.key) db.fingerprints).filter fun row =>
          row.key ∉ (delta.removed.map Store.changeKey).map fun key => (workspace, key)) ∧
      db'.batches = ((delta.upsertedBatches.map fun batch =>
        batchRow workspace (payloadHash lib batch) batch).foldl (put BatchRow.key) db.batches).filter
          fun row => row.key ∉ (delta.removed.map Store.changeKey).map fun key => (workspace, key) := by
  obtain ⟨db₁, first, h⟩ := bind_eq_ok.mp h
  obtain ⟨db₂, second, h⟩ := bind_eq_ok.mp h
  obtain ⟨db₃, third, fourth⟩ := bind_eq_ok.mp h
  have written := foldlM_put FingerprintRow.key Db.fingerprints
    (fun db table => { db with fingerprints := table }) (fun _ _ => rfl) (fun _ _ _ => rfl)
    (fun _ => rfl) (fun _ _ _ step => Store.writeFingerprint_eq_ok step) first
  have written' := foldlM_put BatchRow.key Db.batches
    (fun db table => { db with batches := table }) (fun _ _ => rfl) (fun _ _ _ => rfl)
    (fun _ => rfl) (fun _ _ _ step => Store.writeBatch_eq_ok step) second
  have deleted := foldlM_delete FingerprintRow.key (fun key => (workspace, key)) Db.fingerprints
    (fun db table => { db with fingerprints := table }) (fun _ _ => rfl) (fun _ _ _ => rfl)
    (fun _ => rfl) (fun _ _ _ step => (Db.checked_eq_ok.mp step).1) third
  have deleted' := foldlM_delete BatchRow.key (fun key => (workspace, key)) Db.batches
    (fun db table => { db with batches := table }) (fun _ _ => rfl) (fun _ _ _ => rfl)
    (fun _ => rfl) (fun _ _ _ step => (Db.checked_eq_ok.mp step).1) fourth
  constructor
  · rw [deleted', deleted, written', written]
    exact List.filter_congr fun row _ => by congr
  · rw [deleted', deleted, written', written]
    exact List.filter_congr fun row _ => by congr

theorem removed_inScope : ∀ key ∈ (delta.removed.map Store.changeKey).map fun key => (workspace, key),
    key.1 = workspace := by
  intro key mem
  obtain ⟨_, -, rfl⟩ := List.mem_map.mp mem
  rfl

theorem mem_removed {key : Store.ArtifactKey} :
    (workspace, key) ∈ (delta.removed.map Store.changeKey).map (fun key => (workspace, key)) ↔
      key ∈ delta.removed.map Store.changeKey := by
  rw [List.mem_map]
  constructor
  · rintro ⟨other, mem, same⟩
    exact (Prod.mk.inj same).2 ▸ mem
  · exact fun mem => ⟨key, mem, rfl⟩

theorem Planned.fingerprintRows (planned : Planned before after delta)
    (sortedBefore : (before.map artifactKey).Pairwise (· < ·))
    (sorted : (after.map artifactKey).Pairwise (· < ·))
    (agree : ∀ f ∈ before ++ after, ∀ g ∈ before ++ after, Agree f g)
    {table : List FingerprintRow} (keys : (table.map FingerprintRow.key).Nodup)
    (holds : Exactly (table.filter fun row => row.workspace = workspace)
      (before.map (fingerprintRow workspace)))
    {swept : List FingerprintRow} (result : swept =
      ((delta.upsertedFingerprints.map (fingerprintRow workspace)).foldl (put FingerprintRow.key)
        table).filter fun row =>
          row.key ∉ (delta.removed.map Store.changeKey).map fun key => (workspace, key))
    (keys' : (swept.map FingerprintRow.key).Nodup) :
    TableReplaced FingerprintRow.workspace workspace (after.map (fingerprintRow workspace)) table
      swept := by
  have across : ∀ f ∈ before, ∀ g ∈ after, Agree f g := fun f mem g mem' =>
    agree f (List.mem_append_left _ mem) g (List.mem_append_right _ mem')
  have within : ∀ f ∈ after, ∀ g ∈ after, Agree f g := fun f mem g mem' =>
    agree f (List.mem_append_right _ mem) g (List.mem_append_right _ mem')
  obtain ⟨exactly, others⟩ := delta_exactly keys
    (fun f => (rfl : (fingerprintRow workspace f).key = (workspace, Store.artifactKey f)))
    (storeKeys_nodup sortedBefore fun f mem g mem' =>
      agree f (List.mem_append_left _ mem) g (List.mem_append_left _ mem'))
    (storeKeys_nodup sorted within) (planned.upserted_nodup within) holds planned.current
    (fun f mem => planned.kept sorted across mem) removed_inScope
    (fun f mem gone => mem_removed.2 (planned.removed_of_gone mem gone))
    (fun f mem => mt mem_removed.1 (planned.not_removed across mem)) result keys'
  exact ⟨exactly, others⟩

variable {docs : Documents} {state : FocusedBatchState docs}
  {published previous : List StoredExtractorBatch}

theorem focused_of_storeKey {f g : ArtifactFingerprint} (same : Store.artifactKey f = Store.artifactKey g)
    {fingerprints : List ArtifactFingerprint} (mem : g ∈ fingerprints)
    (focused : focusedExtractor f.extractor = true) : g ∈ focusedOnly fingerprints := by
  have extractor : f.extractor = g.extractor := congrArg Store.ArtifactKey.extractor same
  exact List.mem_filter.2 ⟨mem, extractor ▸ focused⟩

/-- A selection at ascending places keeps the order of a list. By induction on the places, what is
selected from one on is a part of what the list holds from there. -/
theorem filterMap_getElem?_sublist {α : Type} (l : List α) {places : List Nat}
    (ascending : places.Pairwise (· < ·)) : (places.filterMap (l[·]?)).Sublist l := by
  have fromOn : ∀ start, (∀ place ∈ places, start ≤ place) →
      (places.filterMap (l[·]?)).Sublist (l.drop start) := by
    induction places with
    | nil => exact fun start _ => List.nil_sublist _
    | cons place places ih =>
      intro start within
      obtain ⟨below, ascending⟩ := List.pairwise_cons.1 ascending
      obtain ⟨first, rest⟩ := List.forall_mem_cons.1 within
      cases found : l[place]? with
      | none =>
        rw [List.filterMap_cons_none found]
        exact ih ascending start rest
      | some a =>
        obtain ⟨inside, rfl⟩ := List.getElem?_eq_some_iff.1 found
        rw [List.filterMap_cons_some found]
        refine List.Sublist.trans ?_ (List.drop_sublist_drop_left l first)
        rw [List.drop_eq_getElem_cons inside]
        exact (ih ascending (place + 1) fun later mem => below later mem).cons_cons _
  exact fromOn 0 fun _ _ => Nat.zero_le _

theorem Planned.batchRows (planned : Planned before after delta)
    (snapshotBefore : Snapshot before published) (snapshot : Snapshot after state.storedBatches)
    (agree : ∀ f ∈ before ++ after, ∀ g ∈ before ++ after, Agree f g)
    (marks : MarksUnpublished previous state) (loaded : ∀ batch ∈ previous, batch ∈ published)
    (upserted : delta.upsertedBatches = state.unpublishedBatches.filterMap fun index =>
      state.storedBatches[index]?)
    {table : List BatchRow} (keys : (table.map BatchRow.key).Nodup)
    (holds : Exactly (table.filter fun row => row.workspace = workspace)
      (published.map fun batch => batchRow workspace (payloadHash lib batch) batch))
    {swept : List BatchRow} (result : swept =
      ((delta.upsertedBatches.map fun batch => batchRow workspace (payloadHash lib batch) batch).foldl
        (put BatchRow.key) table).filter fun row =>
          row.key ∉ (delta.removed.map Store.changeKey).map fun key => (workspace, key))
    (keys' : (swept.map BatchRow.key).Nodup) :
    TableReplaced BatchRow.workspace workspace (state.storedBatches.map fun batch =>
      batchRow workspace (payloadHash lib batch) batch) table swept := by
  have across : ∀ f ∈ before, ∀ g ∈ after, Agree f g := fun f mem g mem' =>
    agree f (List.mem_append_left _ mem) g (List.mem_append_right _ mem')
  have distinct : ∀ {l : List ArtifactFingerprint} {stored : List StoredExtractorBatch},
      Snapshot l stored → (∀ f ∈ l, ∀ g ∈ l, Agree f g) →
      (stored.map fun batch => Store.artifactKey batch.source).Nodup := by
    intro l stored snapshot within
    rw [snapshot.batchKeys]
    exact (storeKeys_nodup snapshot.sorted within).sublist (List.filter_sublist.map Store.artifactKey)
  have distinctAfter := distinct snapshot fun f mem g mem' =>
    agree f (List.mem_append_right _ mem) g (List.mem_append_right _ mem')
  have current : ∀ batch ∈ delta.upsertedBatches, batch ∈ state.storedBatches := by
    intro batch mem
    rw [upserted] at mem
    obtain ⟨index, -, found⟩ := List.mem_filterMap.1 mem
    exact List.mem_of_getElem? found
  have distinctUpserted :
      (delta.upsertedBatches.map fun batch => Store.artifactKey batch.source).Nodup := by
    rw [upserted]
    have sublist := (filterMap_getElem?_sublist state.storedBatches marks.ascending).map fun batch =>
      Store.artifactKey batch.source
    exact distinctAfter.sublist sublist
  have kept : ∀ batch ∈ state.storedBatches, batch ∈ delta.upsertedBatches ∨ batch ∈ published := by
    intro batch mem
    obtain ⟨index, found⟩ := List.mem_iff_getElem?.1 mem
    by_cases fresh : index ∈ state.unpublishedBatches
    · left
      rw [upserted]
      exact List.mem_filterMap.2 ⟨index, fresh, found⟩
    · exact .inr (loaded batch (marks.others index batch found fresh))
  have leftover : ∀ batch ∈ published, Store.artifactKey batch.source ∉
      state.storedBatches.map (fun batch => Store.artifactKey batch.source) →
        (workspace, Store.artifactKey batch.source) ∈
          (delta.removed.map Store.changeKey).map fun key => (workspace, key) := by
    intro batch mem gone
    obtain ⟨stored, focused⟩ := List.mem_filter.1 (snapshotBefore.source_mem mem)
    refine mem_removed.2 (planned.removed_of_gone stored fun stays => gone ?_)
    obtain ⟨f, isCurrent, same⟩ := List.mem_map.1 stays
    rw [snapshot.batchKeys]
    exact List.mem_map.2 ⟨f, focused_of_storeKey same.symm isCurrent focused, same⟩
  have stays : ∀ batch ∈ state.storedBatches, (workspace, Store.artifactKey batch.source) ∉
      (delta.removed.map Store.changeKey).map fun key => (workspace, key) := fun batch mem =>
    mt mem_removed.1 (planned.not_removed across (List.mem_of_mem_filter (snapshot.source_mem mem)))
  obtain ⟨exactly, others⟩ := delta_exactly keys
    (fun batch => (rfl : (batchRow workspace (payloadHash lib batch) batch).key =
      (workspace, Store.artifactKey batch.source)))
    (distinct snapshotBefore fun f mem g mem' =>
      agree f (List.mem_append_left _ mem) g (List.mem_append_left _ mem'))
    distinctAfter distinctUpserted holds current kept removed_inScope leftover stays result keys'
  exact ⟨exactly, others⟩

end Tables

section Publication

variable {Digest : Type} [DecidableEq Digest] {lib : Store.Libraries Digest} {db db' : Db}
  {input : PublicationInput}

variable {E : Type} {docs : Documents} {state : FocusedBatchState docs}
  {before : List ArtifactFingerprint} {published previous : List StoredExtractorBatch}

/-- On a store that holds the snapshot that was published before, the delta of the plan can be
planned, and its publication leaves what deleting the rows of the workspace and inserting the whole
candidate would leave. -/
theorem publishCurrentGraph_refines_delta (collisionFree : Function.Injective lib.hash)
    (authentic : db.Authentic lib input.workspace.name) (coherent : input.Coherent)
    (fits : db.TextsFit) (fits' : (input.tables lib).TextsFit)
    (holds : Holds lib input.workspace.name before published db) (snapshot : Snapshot before published)
    (candidate : Snapshot input.fingerprints input.extractorBatches)
    (agree : ∀ f ∈ before ++ input.fingerprints, ∀ g ∈ before ++ input.fingerprints, Agree f g)
    (stored : input.extractorBatches = state.storedBatches) (marks : MarksUnpublished previous state)
    (loaded : ∀ batch ∈ previous, batch ∈ published) :
    ∃ delta, plannedArtifactDelta (E := E) input.fingerprints
        (planIncrementalScan before input.fingerprints) state = .ok delta ∧
      ∀ db', Store.publishCurrentGraph lib { input with artifactDelta := some delta } db = .ok db' →
        Replaced input.workspace.name (input.tables lib) db db' := by
  obtain ⟨delta, done, planned, upserted⟩ :=
    @plannedArtifactDelta_eq_ok E docs before _ candidate.sorted state
  refine ⟨delta, done, fun db' h => ?_⟩
  obtain ⟨start, after, sameFingerprints, sameBatches, artifactStep, fingerprints', batches',
    fingerprintKeys, batchKeys, replaced⟩ := @Store.publishCurrentGraph_parts _ lib db db'
      { input with artifactDelta := some delta } _ collisionFree authentic
      ⟨coherent.nodes, coherent.edges, coherent.evidence, coherent.fingerprints, coherent.batches,
        coherent.endpoints, coherent.citations⟩ fits fits' h
  have frame : after = { start with
      fingerprints := after.fingerprints
      batches := after.batches } := by
    obtain ⟨_, _, rfl, -, -⟩ := Store.publishArtifacts_owned artifactStep
    rfl
  obtain ⟨fingerprintTable, batchTable⟩ := applyArtifactDelta_eq_ok artifactStep
  rw [sameFingerprints] at fingerprintTable
  rw [sameBatches] at batchTable
  have wf' := Store.publishCurrentGraph_wellFormed h
  refine replaced frame ?_ ?_
  · rw [fingerprints']
    exact planned.fingerprintRows snapshot.sorted candidate.sorted agree fingerprintKeys
      holds.fingerprints fingerprintTable (fingerprints' ▸ wf'.keys.fingerprints)
  · rw [batches']
    have rows := planned.batchRows snapshot (stored ▸ candidate) agree marks loaded
      upserted batchKeys holds.batches batchTable (batches' ▸ wf'.keys.batches)
    rwa [← stored] at rows

section Sample

def publishedFingerprint (name contentHash : String) : ArtifactFingerprint :=
  ⟨"r", "c", ⟨.unixBytes, Store.utf8 name, name⟩, "code-system-graph.packages", contentHash, 1⟩

def publishedBatch (name contentHash : String) : StoredExtractorBatch :=
  ⟨publishedFingerprint name contentHash, extractionContractVersion, "b", false, 0, [91, 93]⟩

def sampleDocuments : Documents := ⟨fun _ => Unit⟩

/-- `a` is changed, `b` is deleted and `c` is added, while `d` stays. -/
def changedState : FocusedBatchState sampleDocuments where
  outputs := []
  storedBatches := [publishedBatch "a" "new", publishedBatch "c" "first", publishedBatch "d" "old"]
  unpublishedBatches := [0, 1]
  degradations := []
  checkpointWrites := 2

def earlierBatches : List StoredExtractorBatch :=
  [publishedBatch "a" "old", publishedBatch "b" "old", publishedBatch "d" "old"]

def earlierFingerprints : List ArtifactFingerprint := earlierBatches.map (·.source)

theorem changedState_marks : MarksUnpublished earlierBatches changedState := by
  refine ⟨by decide, fun index batch found fresh => ?_⟩
  obtain _ | _ | _ | index := index
  · exact absurd List.mem_cons_self fresh
  · exact absurd (List.mem_cons_of_mem _ List.mem_cons_self) fresh
  · obtain rfl := Option.some.inj found
    exact List.mem_cons_of_mem _ (List.mem_cons_of_mem _ List.mem_cons_self)
  · cases found

def changedInput : PublicationInput :=
  { Store.exampleInput with
    fingerprints := changedState.storedBatches.map (·.source)
    extractorBatches := changedState.storedBatches }

def earlierDb : Db :=
  { Store.exampleDb with
    fingerprints := earlierFingerprints.map (fingerprintRow "w")
    batches := earlierBatches.map fun batch =>
      batchRow "w" (payloadHash Store.plainLibraries batch) batch }

instance (f g : ArtifactFingerprint) : Decidable (Agree f g) :=
  decidable_of_iff ((f.path.encoding = g.path.encoding → f.path.bytes = g.path.bytes →
      f.path.display = g.path.display) ∧
    (Store.artifactKey f = Store.artifactKey g → f.contentHash = g.contentHash →
      f.sizeBytes = g.sizeBytes))
    ⟨fun both => ⟨both.1, both.2⟩, fun agree => ⟨agree.display, agree.size⟩⟩

theorem publishCurrentGraph_refines_delta_changed :
    ∃ delta db', plannedArtifactDelta (E := String) changedInput.fingerprints
        (planIncrementalScan earlierFingerprints changedInput.fingerprints) changedState = .ok delta ∧
      Store.publishCurrentGraph Store.plainLibraries
        { changedInput with artifactDelta := some delta } earlierDb = .ok db' ∧
      Replaced "w" (changedInput.tables Store.plainLibraries) earlierDb db' := by
  have holds : Holds Store.plainLibraries "w" earlierFingerprints earlierBatches earlierDb := by
    have fingerprints : earlierDb.fingerprints.filter (fun row => row.workspace = "w") =
        earlierFingerprints.map (fingerprintRow "w") := by decide +kernel
    have batches : earlierDb.batches.filter (fun row => row.workspace = "w") =
        earlierBatches.map fun batch =>
          batchRow "w" (payloadHash Store.plainLibraries batch) batch := by decide +kernel
    constructor
    · rw [fingerprints]
      exact ⟨by decide +kernel, fun _ => Iff.rfl⟩
    · rw [batches]
      exact ⟨by decide +kernel, fun _ => Iff.rfl⟩
  obtain ⟨delta, planned, refines⟩ := @publishCurrentGraph_refines_delta _ _ Store.plainLibraries
    earlierDb changedInput String sampleDocuments changedState earlierFingerprints earlierBatches
    earlierBatches Function.injective_id
    (by decide +kernel) (by decide +kernel) (by decide +kernel) (by decide +kernel) holds
    ⟨by decide +kernel, by decide +kernel⟩ ⟨by decide +kernel, by decide +kernel⟩
    (by decide +kernel) rfl changedState_marks fun _ mem => mem
  have succeeds : ((plannedArtifactDelta (E := String) changedInput.fingerprints
      (planIncrementalScan earlierFingerprints changedInput.fingerprints)
      changedState).toOption.any fun delta => (Store.publishCurrentGraph Store.plainLibraries
        { changedInput with artifactDelta := some delta } earlierDb).isOk) = true := by
    decide +kernel
  rw [planned] at succeeds
  cases published : Store.publishCurrentGraph Store.plainLibraries
      { changedInput with artifactDelta := some delta } earlierDb with
  | error failure =>
    simp only [Except.toOption, Option.any_some, published] at succeeds
    cases succeeds
  | ok db' => exact ⟨delta, db', planned, published, refines db' published⟩

end Sample

end Publication

end CodeSystemGraph.Incremental
