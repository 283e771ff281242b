import CodeSystemGraph.StoreWorkspaces

/-! Workspaces share repositories and checkouts. A removal deletes those that no
registration names, while rows of other workspaces may name them as well: it
succeeds when every such row is covered by a registration. -/

namespace CodeSystemGraph.Store
open Model Ordered Relational Routes Steps

section Cascades

variable {Row K : Type} {w : String}

theorem nodup_map_filter {f : Row → K} {p : Row → Bool} {table : List Row}
    (nodup : (table.map f).Nodup) : ((table.filter p).map f).Nodup :=
  nodup.sublist (List.filter_sublist.map f)

theorem mem_keys_inside (f : Row → K) (scope : Row → String) (shown : K → String)
    (agree : ∀ row, scope row = shown (f row)) {table : List Row} {k : K} :
    k ∈ (table.filter fun row => scope row = w).map f ↔ k ∈ table.map f ∧ shown k = w := by
  simp only [List.mem_map, List.mem_filter, agree, decide_eq_true_eq]
  constructor
  · rintro ⟨row, ⟨mem, inside⟩, rfl⟩
    exact ⟨⟨row, mem, rfl⟩, inside⟩
  · rintro ⟨⟨row, mem, rfl⟩, inside⟩
    exact ⟨row, ⟨mem, inside⟩, rfl⟩

theorem mem_keys_outside (f : Row → K) (scope : Row → String) (shown : K → String)
    (agree : ∀ row, scope row = shown (f row)) {table : List Row} {k : K} :
    k ∈ (table.filter fun row => scope row ≠ w).map f ↔ k ∈ table.map f ∧ shown k ≠ w := by
  simp only [List.mem_map, List.mem_filter, agree, decide_eq_true_eq]
  constructor
  · rintro ⟨row, ⟨mem, outside⟩, rfl⟩
    exact ⟨⟨row, mem, rfl⟩, outside⟩
  · rintro ⟨⟨row, mem, rfl⟩, outside⟩
    exact ⟨row, ⟨mem, outside⟩, rfl⟩

end Cascades

/-- A row that names a repository, and possibly a checkout, without a cascade. -/
structure Holder where
  workspace : String
  repoId : RepoId
  checkoutId : Option CheckoutId
deriving DecidableEq

namespace Db

def holders (db : Db) : List Holder :=
  db.freshness.map (fun row => ⟨row.workspace, row.repoId, some row.checkoutId⟩) ++
    (db.runs.map (fun row => ⟨row.workspace, row.repoId, row.checkoutId⟩) ++
      (db.fingerprints.map
          (fun row => ⟨row.workspace, row.artifact.repoId, some row.artifact.checkoutId⟩) ++
        db.batches.map
          (fun row => ⟨row.workspace, row.artifact.repoId, some row.artifact.checkoutId⟩)))

theorem forall_holders {db : Db} {p : Holder → Prop} :
    (∀ holder ∈ db.holders, p holder) ↔
      (∀ row ∈ db.freshness, p ⟨row.workspace, row.repoId, some row.checkoutId⟩) ∧
      (∀ row ∈ db.runs, p ⟨row.workspace, row.repoId, row.checkoutId⟩) ∧
      (∀ row ∈ db.fingerprints,
        p ⟨row.workspace, row.artifact.repoId, some row.artifact.checkoutId⟩) ∧
      ∀ row ∈ db.batches,
        p ⟨row.workspace, row.artifact.repoId, some row.artifact.checkoutId⟩ := by
  simp only [holders, List.forall_mem_append, List.forall_mem_map]

def communitySnapshotsOf (db : Db) (workspace : String) : List String :=
  (db.communitySnapshots.filter fun row => row.workspace = workspace).map (·.snapshotId)

/-- The tables without the rows of one workspace, before anything shared is collected. -/
def without (db : Db) (workspace : String) : Db :=
  { db with
    workspaces := db.workspaces.filter fun row => row.name ≠ workspace
    registrations := db.registrations.filter fun row => row.workspace ≠ workspace
    snapshots := db.snapshots.filter fun row => row.workspace ≠ workspace
    nodes := db.nodes.filter fun row => row.workspace ≠ workspace
    evidence := db.evidence.filter fun row => row.workspace ≠ workspace
    edges := db.edges.filter fun row => row.workspace ≠ workspace
    edgeEvidence := db.edgeEvidence.filter fun row => row.workspace ≠ workspace
    freshness := db.freshness.filter fun row => row.workspace ≠ workspace
    httpCoverage := db.httpCoverage.filter fun row => row.workspace ≠ workspace
    httpGaps := db.httpGaps.filter fun row => row.workspace ≠ workspace
    runs := db.runs.filter fun row => row.workspace ≠ workspace
    fingerprints := db.fingerprints.filter fun row => row.workspace ≠ workspace
    batches := db.batches.filter fun row => row.workspace ≠ workspace
    communitySnapshots := db.communitySnapshots.filter fun row => row.workspace ≠ workspace
    communities := db.communities.filter fun row =>
      row.snapshotId ∉ db.communitySnapshotsOf workspace
    memberships := db.memberships.filter fun row =>
      row.snapshotId ∉ db.communitySnapshotsOf workspace
    manualLinks := db.manualLinks.filter fun row => row.workspace ≠ workspace
    capabilities := db.capabilities.filter fun row => row.workspace ≠ workspace
    queryCache := db.queryCache.filter fun row => row.workspace ≠ workspace }

theorem deleteWorkspaces_eq {db : Db} (holds : db.ReferencesHold) {workspace : String}
    (registered : workspace ∈ db.workspaceNames) :
    (db.deleteWorkspaces fun row => row.name = workspace) = db.without workspace := by
  have names : ∀ name, name ∈ (db.workspaces.filter fun row => row.name = workspace).map
      (·.name) ↔ name = workspace := by
    intro name
    refine (mem_keys_inside WorkspaceRow.name WorkspaceRow.name id fun _ => rfl).trans ?_
    exact ⟨fun mem => mem.2, fun same => ⟨same ▸ registered, same⟩⟩
  have inside : ∀ {Row : Type} (scope : Row → String), (fun row => decide (scope row ∈
      (db.workspaces.filter fun row => row.name = workspace).map (·.name))) =
      fun row => decide (scope row = workspace) := by
    intro Row scope
    funext row
    exact decide_eq_decide.2 (names _)
  have outside : ∀ {Row : Type} (scope : Row → String), (fun row => decide (scope row ∉
      (db.workspaces.filter fun row => row.name = workspace).map (·.name))) =
      fun row => decide (scope row ≠ workspace) := by
    intro Row scope
    funext row
    exact decide_eq_decide.2 (not_congr (names _))
  have left : ∀ {Row : Type} (scope : Row → String), (fun row => !decide (scope row ∈
      (db.workspaces.filter fun row => row.name = workspace).map (·.name))) =
      fun row => decide (scope row ≠ workspace) := by
    intro Row scope
    funext row
    rw [← decide_not]
    exact decide_eq_decide.2 (not_congr (names _))
  have kept : ∀ {Row : Type} (scope : Row → String), (fun row => !decide (scope row = workspace)) =
      fun row => decide (scope row ≠ workspace) := by
    intro Row scope
    funext row
    exact (decide_not).symm
  have snapshotKeys : ∀ key : String × String,
      key ∈ (db.snapshots.filter fun row => row.workspace = workspace).map
        (fun row => (row.id, row.workspace)) ↔ key ∈ db.snapshotKeys ∧ key.2 = workspace :=
    fun _ => mem_keys_inside _ SnapshotRow.workspace Prod.snd fun _ => rfl
  have nodeKeys : ∀ key : String × NodeId,
      key ∈ (db.nodes.filter fun row => row.workspace = workspace).map NodeRow.key ↔
        key ∈ db.nodeKeys ∧ key.1 = workspace :=
    fun _ => mem_keys_inside NodeRow.key NodeRow.workspace Prod.fst fun _ => rfl
  have evidenceKeys : ∀ key : String × EvidenceId,
      key ∈ (db.evidence.filter fun row => row.workspace = workspace).map EvidenceRow.key ↔
        key ∈ db.evidenceKeys ∧ key.1 = workspace :=
    fun _ => mem_keys_inside EvidenceRow.key EvidenceRow.workspace Prod.fst fun _ => rfl
  have edgeKeys : ∀ key : String × EdgeId,
      key ∈ (db.edges.filter fun row => row.workspace = workspace).map EdgeRow.key ↔
        key ∈ db.edgeKeys ∧ key.1 = workspace :=
    fun _ => mem_keys_inside EdgeRow.key EdgeRow.workspace Prod.fst fun _ => rfl
  have touches : ∀ row ∈ db.edges,
      (row.sourceKey ∈ (db.nodes.filter fun row => row.workspace = workspace).map NodeRow.key ∨
        row.targetKey ∈ (db.nodes.filter fun row => row.workspace = workspace).map NodeRow.key) ↔
      row.workspace = workspace := by
    intro row mem
    obtain ⟨source, target⟩ := holds.edges row mem
    rw [nodeKeys, nodeKeys, and_iff_right source, and_iff_right target]
    exact or_self_iff
  have goneEdges : (db.edges.filter fun row =>
        decide (row.sourceKey ∈ (db.nodes.filter fun row => row.workspace = workspace).map NodeRow.key ∨
          row.targetKey ∈ (db.nodes.filter fun row => row.workspace = workspace).map NodeRow.key)) =
      db.edges.filter fun row => row.workspace = workspace :=
    List.filter_congr fun row mem => decide_eq_decide.2 (touches row mem)
  have keptEdges : (db.edges.filter fun row => !decide
        (row.sourceKey ∈ (db.nodes.filter fun row => row.workspace = workspace).map NodeRow.key ∨
          row.targetKey ∈ (db.nodes.filter fun row => row.workspace = workspace).map NodeRow.key)) =
      db.edges.filter fun row => row.workspace ≠ workspace :=
    List.filter_congr fun row mem => by rw [decide_eq_decide.2 (touches row mem), decide_not]
  have citations : ((db.edgeEvidence.filter fun row => row.edgeKey ∉
        (db.edges.filter fun row => row.workspace = workspace).map EdgeRow.key).filter fun row =>
          row.evidenceKey ∉ (db.evidence.filter fun row => row.workspace = workspace).map
            EvidenceRow.key) =
      db.edgeEvidence.filter fun row => row.workspace ≠ workspace := by
    rw [List.filter_filter]
    refine List.filter_congr fun row mem => ?_
    obtain ⟨edge, evidence⟩ := holds.edgeEvidence row mem
    rw [← Bool.decide_and]
    refine decide_eq_decide.2 ?_
    rw [edgeKeys, evidenceKeys, and_iff_right edge, and_iff_right evidence]
    exact and_self_iff
  have links : (db.manualLinks.filter fun row =>
        row.sourceKey ∉ (db.nodes.filter fun row => row.workspace = workspace).map NodeRow.key ∧
        row.targetKey ∉ (db.nodes.filter fun row => row.workspace = workspace).map NodeRow.key) =
      db.manualLinks.filter fun row => row.workspace ≠ workspace := by
    refine List.filter_congr fun row mem => ?_
    obtain ⟨source, target⟩ := holds.manualLinks row mem
    refine decide_eq_decide.2 ?_
    rw [nodeKeys, nodeKeys, and_iff_right source, and_iff_right target]
    exact and_self_iff
  have cached : (db.queryCache.filter fun row => (row.snapshotId, row.workspace) ∉
        (db.snapshots.filter fun row => row.workspace = workspace).map
          fun row => (row.id, row.workspace)) =
      db.queryCache.filter fun row => row.workspace ≠ workspace := by
    refine List.filter_congr fun row mem => decide_eq_decide.2 (not_congr ?_)
    rw [snapshotKeys, and_iff_right (holds.queryCache row mem)]
  have communities : (fun row : CommunityRow =>
        !decide (row.snapshotId ∈ db.communitySnapshotsOf workspace)) =
      fun row => decide (row.snapshotId ∉ db.communitySnapshotsOf workspace) := by
    funext row
    exact (decide_not).symm
  have members : (db.memberships.filter fun row => row.communityKey ∉
        (db.communities.filter fun row =>
          row.snapshotId ∈ db.communitySnapshotsOf workspace).map fun row => (row.snapshotId, row.id)) =
      db.memberships.filter fun row => row.snapshotId ∉ db.communitySnapshotsOf workspace := by
    refine List.filter_congr fun row mem => decide_eq_decide.2 (not_congr ?_)
    obtain ⟨community, listed, same⟩ := List.mem_map.1 (holds.memberships row mem)
    have snapshot : community.snapshotId = row.snapshotId := congrArg Prod.fst same
    constructor
    · intro gone
      obtain ⟨other, selected, key⟩ := List.mem_map.1 gone
      have inside : other.snapshotId = row.snapshotId := congrArg Prod.fst key
      rw [← inside]
      simpa using (List.mem_filter.1 selected).2
    · intro gone
      refine List.mem_map.2 ⟨community, List.mem_filter.2 ⟨listed, ?_⟩, same⟩
      rw [snapshot]
      exact decide_eq_true gone
  unfold communitySnapshotsOf at communities members
  unfold deleteWorkspaces deleteSnapshots deleteNodes deleteEdges deleteEvidence
    deleteCommunitySnapshots deleteCommunities without communitySnapshotsOf
  simp only [inside, outside, left, goneEdges, keptEdges, citations, links, cached, communities, members,
    kept]

theorem mem_without_names {db : Db} {workspace name : String} :
    name ∈ (db.without workspace).workspaceNames ↔ name ∈ db.workspaceNames ∧ name ≠ workspace :=
  mem_keys_outside WorkspaceRow.name WorkspaceRow.name id fun _ => rfl

theorem ReferencesHold.without {db : Db} (holds : db.ReferencesHold) (workspace : String) :
    (db.without workspace).ReferencesHold where
  checkouts := holds.checkouts
  registrations row mem := by
    obtain ⟨stored, other⟩ := List.mem_filter.1 mem
    obtain ⟨name, rest⟩ := holds.registrations row stored
    exact ⟨mem_without_names.2 ⟨name, of_decide_eq_true other⟩, rest⟩
  snapshots row mem := by
    obtain ⟨stored, other⟩ := List.mem_filter.1 mem
    exact mem_without_names.2 ⟨holds.snapshots row stored, of_decide_eq_true other⟩
  nodes row mem := by
    obtain ⟨stored, other⟩ := List.mem_filter.1 mem
    exact mem_without_names.2 ⟨holds.nodes row stored, of_decide_eq_true other⟩
  evidence row mem := by
    obtain ⟨stored, other⟩ := List.mem_filter.1 mem
    exact mem_without_names.2 ⟨holds.evidence row stored, of_decide_eq_true other⟩
  edges row mem := by
    obtain ⟨stored, other⟩ := List.mem_filter.1 mem
    have nodes : ∀ key : String × NodeId, key ∈ db.nodeKeys → key.1 ≠ workspace →
        key ∈ (db.without workspace).nodeKeys := fun _ known outside =>
      (mem_keys_outside NodeRow.key NodeRow.workspace Prod.fst fun _ => rfl).2 ⟨known, outside⟩
    exact ⟨nodes _ (holds.edges row stored).1 (of_decide_eq_true other),
      nodes _ (holds.edges row stored).2 (of_decide_eq_true other)⟩
  edgeEvidence row mem := by
    obtain ⟨stored, other⟩ := List.mem_filter.1 mem
    exact ⟨(mem_keys_outside EdgeRow.key EdgeRow.workspace Prod.fst fun _ => rfl).2
        ⟨(holds.edgeEvidence row stored).1, of_decide_eq_true other⟩,
      (mem_keys_outside EvidenceRow.key EvidenceRow.workspace Prod.fst fun _ => rfl).2
        ⟨(holds.edgeEvidence row stored).2, of_decide_eq_true other⟩⟩
  freshness row mem := by
    obtain ⟨stored, other⟩ := List.mem_filter.1 mem
    obtain ⟨name, rest⟩ := holds.freshness row stored
    exact ⟨mem_without_names.2 ⟨name, of_decide_eq_true other⟩, rest⟩
  httpCoverage row mem := by
    obtain ⟨stored, other⟩ := List.mem_filter.1 mem
    exact mem_without_names.2 ⟨holds.httpCoverage row stored, of_decide_eq_true other⟩
  httpGaps row mem := by
    obtain ⟨stored, other⟩ := List.mem_filter.1 mem
    exact mem_without_names.2 ⟨holds.httpGaps row stored, of_decide_eq_true other⟩
  runs row mem := by
    obtain ⟨stored, other⟩ := List.mem_filter.1 mem
    obtain ⟨name, rest⟩ := holds.runs row stored
    exact ⟨mem_without_names.2 ⟨name, of_decide_eq_true other⟩, rest⟩
  fingerprints row mem := by
    obtain ⟨stored, other⟩ := List.mem_filter.1 mem
    obtain ⟨name, rest⟩ := holds.fingerprints row stored
    exact ⟨mem_without_names.2 ⟨name, of_decide_eq_true other⟩, rest⟩
  batches row mem := by
    obtain ⟨stored, other⟩ := List.mem_filter.1 mem
    obtain ⟨name, rest⟩ := holds.batches row stored
    exact ⟨mem_without_names.2 ⟨name, of_decide_eq_true other⟩, rest⟩
  communitySnapshots row mem := by
    obtain ⟨stored, other⟩ := List.mem_filter.1 mem
    exact mem_without_names.2 ⟨holds.communitySnapshots row stored, of_decide_eq_true other⟩
  communities row mem := by
    obtain ⟨stored, other⟩ := List.mem_filter.1 mem
    obtain ⟨snapshot, listed, same⟩ := List.mem_map.1 (holds.communities row stored)
    refine List.mem_map.2 ⟨snapshot, List.mem_filter.2 ⟨listed, ?_⟩, same⟩
    -- its snapshot would be one of the workspace
    refine decide_eq_true fun inside => ?_
    have gone : row.snapshotId ∈ db.communitySnapshotsOf workspace :=
      List.mem_map.2 ⟨snapshot, List.mem_filter.2 ⟨listed, decide_eq_true inside⟩, same⟩
    exact of_decide_eq_true other gone
  memberships row mem := by
    obtain ⟨stored, other⟩ := List.mem_filter.1 mem
    obtain ⟨community, listed, same⟩ := List.mem_map.1 (holds.memberships row stored)
    have snapshot : community.snapshotId = row.snapshotId := congrArg Prod.fst same
    refine List.mem_map.2 ⟨community, List.mem_filter.2 ⟨listed, ?_⟩, same⟩
    rw [snapshot]
    exact other
  manualLinks row mem := by
    obtain ⟨stored, other⟩ := List.mem_filter.1 mem
    have nodes : ∀ key : String × NodeId, key ∈ db.nodeKeys → key.1 ≠ workspace →
        key ∈ (db.without workspace).nodeKeys := fun _ known outside =>
      (mem_keys_outside NodeRow.key NodeRow.workspace Prod.fst fun _ => rfl).2 ⟨known, outside⟩
    exact ⟨nodes _ (holds.manualLinks row stored).1 (of_decide_eq_true other),
      nodes _ (holds.manualLinks row stored).2 (of_decide_eq_true other)⟩
  capabilities row mem := by
    obtain ⟨stored, other⟩ := List.mem_filter.1 mem
    obtain ⟨name, rest⟩ := holds.capabilities row stored
    exact ⟨mem_without_names.2 ⟨name, of_decide_eq_true other⟩, rest⟩
  queryCache row mem := by
    obtain ⟨stored, other⟩ := List.mem_filter.1 mem
    exact (mem_keys_outside (fun row : SnapshotRow => (row.id, row.workspace)) SnapshotRow.workspace
      Prod.snd fun _ => rfl).2 ⟨holds.queryCache row stored, of_decide_eq_true other⟩

theorem KeysDistinct.without {db : Db} (distinct : db.KeysDistinct) (workspace : String) :
    (db.without workspace).KeysDistinct where
  workspaces := nodup_map_filter distinct.workspaces
  workspaceIds := distinct.workspaceIds.sublist (List.filter_sublist.filterMap _)
  repositories := distinct.repositories
  checkouts := distinct.checkouts
  registrations := nodup_map_filter distinct.registrations
  snapshots := nodup_map_filter distinct.snapshots
  snapshotIds := nodup_map_filter distinct.snapshotIds
  nodes := nodup_map_filter distinct.nodes
  evidence := nodup_map_filter distinct.evidence
  edges := nodup_map_filter distinct.edges
  edgeEvidence := distinct.edgeEvidence.filter _
  freshness := nodup_map_filter distinct.freshness
  httpCoverage := nodup_map_filter distinct.httpCoverage
  httpGaps := nodup_map_filter distinct.httpGaps
  runs := nodup_map_filter distinct.runs
  fingerprints := nodup_map_filter distinct.fingerprints
  batches := nodup_map_filter distinct.batches
  communitySnapshots := nodup_map_filter distinct.communitySnapshots
  communities := nodup_map_filter distinct.communities
  memberships := nodup_map_filter distinct.memberships
  memberOrders := nodup_map_filter distinct.memberOrders
  manualLinks := nodup_map_filter distinct.manualLinks
  manualEndpoints := nodup_map_filter distinct.manualEndpoints
  capabilities := nodup_map_filter distinct.capabilities
  queryCache := nodup_map_filter distinct.queryCache

variable {json : JsonFunctions}

theorem ChecksHold.without {db : Db} (checks : db.ChecksHold json) (workspace : String) :
    (db.without workspace).ChecksHold json where
  evidence row mem := checks.evidence row (List.mem_of_mem_filter mem)
  edges row mem := checks.edges row (List.mem_of_mem_filter mem)
  httpCoverage row mem := checks.httpCoverage row (List.mem_of_mem_filter mem)
  httpGaps row mem := checks.httpGaps row (List.mem_of_mem_filter mem)
  fingerprints row mem := checks.fingerprints row (List.mem_of_mem_filter mem)
  batches row mem := checks.batches row (List.mem_of_mem_filter mem)
  communitySnapshots row mem := checks.communitySnapshots row (List.mem_of_mem_filter mem)
  communities row mem := checks.communities row (List.mem_of_mem_filter mem)
  manualLinks row mem := checks.manualLinks row (List.mem_of_mem_filter mem)
  capabilities row mem := checks.capabilities row (List.mem_of_mem_filter mem)
  queryCache row mem := checks.queryCache row (List.mem_of_mem_filter mem)

theorem WellFormed.without {db : Db} (wf : db.WellFormed json) (workspace : String) :
    (db.without workspace).WellFormed json :=
  ⟨wf.keys.without workspace, wf.references.without workspace, wf.checks.without workspace⟩

theorem ReferencesHold.holders {db : Db} (holds : db.ReferencesHold) :
    ∀ holder ∈ db.holders, holder.workspace ∈ db.workspaceNames ∧
      holder.repoId ∈ db.repositoryIds ∧ ∀ id ∈ holder.checkoutId, id ∈ db.checkoutIds := by
  have one : ∀ {id : CheckoutId}, id ∈ db.checkoutIds → ∀ other ∈ some id, other ∈ db.checkoutIds := by
    intro id known other same
    rw [← Option.some.inj same]
    exact known
  refine forall_holders.2 ⟨fun row mem => ?_, fun row mem => ?_, fun row mem => ?_, fun row mem => ?_⟩
  · obtain ⟨name, repository, checkout⟩ := holds.freshness row mem
    exact ⟨name, repository, one checkout⟩
  · exact holds.runs row mem
  · obtain ⟨name, repository, checkout⟩ := holds.fingerprints row mem
    exact ⟨name, repository, one checkout⟩
  · obtain ⟨name, repository, checkout⟩ := holds.batches row mem
    exact ⟨name, repository, one checkout⟩

theorem deleteCheckouts_wf_iff {db : Db} (wf : db.WellFormed json) (p : CheckoutRow → Bool) :
    (db.deleteCheckouts p).WellFormed json ↔
      (∀ row ∈ db.registrations, row.checkoutId ∈ (db.deleteCheckouts p).checkoutIds) ∧
      ∀ holder ∈ db.holders, ∀ id ∈ holder.checkoutId, id ∈ (db.deleteCheckouts p).checkoutIds := by
  rw [forall_holders]
  constructor
  · intro kept
    refine ⟨fun row mem => (kept.references.registrations row mem).2.2, ?_, ?_, ?_, ?_⟩
    · intro row mem id same
      rw [← Option.some.inj same]
      exact (kept.references.freshness row mem).2.2
    · intro row mem id same
      exact (kept.references.runs row mem).2.2 id same
    · intro row mem id same
      rw [← Option.some.inj same]
      exact (kept.references.fingerprints row mem).2.2
    · intro row mem id same
      rw [← Option.some.inj same]
      exact (kept.references.batches row mem).2.2
  · intro named
    obtain ⟨registrations, freshness, runs, fingerprints, batches⟩ := named
    refine ⟨{ wf.keys with checkouts := nodup_map_filter wf.keys.checkouts }, ?_,
      { wf.checks with }⟩
    exact
      { wf.references with
        checkouts := fun row mem => wf.references.checkouts row (List.mem_of_mem_filter mem)
        registrations := fun row mem => ⟨(wf.references.registrations row mem).1,
          (wf.references.registrations row mem).2.1, registrations row mem⟩
        freshness := fun row mem => ⟨(wf.references.freshness row mem).1,
          (wf.references.freshness row mem).2.1, freshness row mem _ rfl⟩
        runs := fun row mem => ⟨(wf.references.runs row mem).1, (wf.references.runs row mem).2.1,
          runs row mem⟩
        fingerprints := fun row mem => ⟨(wf.references.fingerprints row mem).1,
          (wf.references.fingerprints row mem).2.1, fingerprints row mem _ rfl⟩
        batches := fun row mem => ⟨(wf.references.batches row mem).1,
          (wf.references.batches row mem).2.1, batches row mem _ rfl⟩ }

theorem deleteRepositories_wf_iff {db : Db} (wf : db.WellFormed json) (p : RepositoryRow → Bool) :
    (db.deleteRepositories p).WellFormed json ↔
      (∀ row ∈ db.registrations, row.repoId ∈ (db.deleteRepositories p).repositoryIds ∧
        row.checkoutId ∈ (db.deleteRepositories p).checkoutIds) ∧
      ∀ holder ∈ db.holders, holder.repoId ∈ (db.deleteRepositories p).repositoryIds ∧
        ∀ id ∈ holder.checkoutId, id ∈ (db.deleteRepositories p).checkoutIds := by
  rw [forall_holders]
  constructor
  · intro kept
    refine ⟨fun row mem => (kept.references.registrations row mem).2, ?_, ?_, ?_, ?_⟩
    · intro row mem
      refine ⟨(kept.references.freshness row mem).2.1, fun id same => ?_⟩
      rw [← Option.some.inj same]
      exact (kept.references.freshness row mem).2.2
    · intro row mem
      exact (kept.references.runs row mem).2
    · intro row mem
      refine ⟨(kept.references.fingerprints row mem).2.1, fun id same => ?_⟩
      rw [← Option.some.inj same]
      exact (kept.references.fingerprints row mem).2.2
    · intro row mem
      refine ⟨(kept.references.batches row mem).2.1, fun id same => ?_⟩
      rw [← Option.some.inj same]
      exact (kept.references.batches row mem).2.2
  · intro named
    obtain ⟨registrations, freshness, runs, fingerprints, batches⟩ := named
    have remains : ∀ id, id ∈ db.repositoryIds → id ∉ (db.repositories.filter p).map (·.id) →
        id ∈ (db.deleteRepositories p).repositoryIds := by
      intro id known kept
      obtain ⟨row, mem, same⟩ := List.mem_map.1 known
      refine List.mem_map.2 ⟨row, List.mem_filter.2 ⟨mem, ?_⟩, same⟩
      cases gone : p row with
      | false => rfl
      | true => exact absurd (List.mem_map.2 ⟨row, List.mem_filter.2 ⟨mem, gone⟩, same⟩) kept
    refine ⟨{ wf.keys with
        repositories := nodup_map_filter wf.keys.repositories
        checkouts := nodup_map_filter wf.keys.checkouts
        capabilities := nodup_map_filter wf.keys.capabilities }, ?_,
      { wf.checks with
        capabilities := fun row mem => wf.checks.capabilities row (List.mem_of_mem_filter mem) }⟩
    exact
      { wf.references with
        checkouts := fun row mem => by
          obtain ⟨stored, kept⟩ := List.mem_filter.1 mem
          exact remains _ (wf.references.checkouts row stored) (by simpa using kept)
        registrations := fun row mem => ⟨(wf.references.registrations row mem).1,
          registrations row mem⟩
        freshness := fun row mem => ⟨(wf.references.freshness row mem).1, (freshness row mem).1,
          (freshness row mem).2 _ rfl⟩
        runs := fun row mem => ⟨(wf.references.runs row mem).1, runs row mem⟩
        fingerprints := fun row mem => ⟨(wf.references.fingerprints row mem).1,
          (fingerprints row mem).1, (fingerprints row mem).2 _ rfl⟩
        batches := fun row mem => ⟨(wf.references.batches row mem).1, (batches row mem).1,
          (batches row mem).2 _ rfl⟩
        capabilities := fun row mem => by
          obtain ⟨stored, kept⟩ := List.mem_filter.1 mem
          exact ⟨(wf.references.capabilities row stored).1,
            remains _ (wf.references.capabilities row stored).2 (by simpa using kept)⟩ }

/-- What a collection of the unregistered asks for: rows name registered repositories and
checkouts, and registered checkouts lie in registered repositories. -/
structure Covered (db : Db) : Prop where
  holders : ∀ holder ∈ db.holders, db.registersRepository holder.repoId = true ∧
    ∀ id ∈ holder.checkoutId, db.registersCheckout id = true
  checkouts : ∀ row ∈ db.registrations, ∀ checkout ∈ db.checkouts, checkout.id = row.checkoutId →
    db.registersRepository checkout.repoId = true

def withoutCheckouts (db : Db) : Db := db.deleteCheckouts fun row => !db.registersCheckout row.id

def collected (db : Db) : Db :=
  db.withoutCheckouts.deleteRepositories fun row => !db.registersRepository row.id

theorem registersCheckout_of_mem {db : Db} {row : RegistrationRow} (mem : row ∈ db.registrations) :
    db.registersCheckout row.checkoutId = true :=
  List.any_eq_true.2 ⟨row, mem, decide_eq_true rfl⟩

theorem registersRepository_of_mem {db : Db} {row : RegistrationRow}
    (mem : row ∈ db.registrations) : db.registersRepository row.repoId = true :=
  List.any_eq_true.2 ⟨row, mem, decide_eq_true rfl⟩

theorem mem_withoutCheckouts {db : Db} {id : CheckoutId} :
    id ∈ db.withoutCheckouts.checkoutIds ↔
      id ∈ db.checkoutIds ∧ db.registersCheckout id = true := by
  simp only [withoutCheckouts, deleteCheckouts, checkoutIds, List.mem_map, List.mem_filter,
    Bool.not_not]
  constructor
  · rintro ⟨row, ⟨mem, named⟩, rfl⟩
    exact ⟨⟨row, mem, rfl⟩, named⟩
  · rintro ⟨⟨row, mem, rfl⟩, named⟩
    exact ⟨row, ⟨mem, named⟩, rfl⟩

theorem mem_collected_repositories {db : Db} {id : RepoId} :
    id ∈ db.collected.repositoryIds ↔
      id ∈ db.repositoryIds ∧ db.registersRepository id = true := by
  simp only [collected, withoutCheckouts, deleteRepositories, deleteCheckouts, repositoryIds,
    List.mem_map, List.mem_filter, Bool.not_not]
  constructor
  · rintro ⟨row, ⟨mem, named⟩, rfl⟩
    exact ⟨⟨row, mem, rfl⟩, named⟩
  · rintro ⟨⟨row, mem, rfl⟩, named⟩
    exact ⟨row, ⟨mem, named⟩, rfl⟩

theorem mem_collected_checkouts {db : Db} (wf : db.WellFormed json) {row : CheckoutRow} :
    row ∈ db.collected.checkouts ↔ row ∈ db.checkouts ∧ db.registersCheckout row.id = true ∧
      db.registersRepository row.repoId = true := by
  have gone : row ∈ db.checkouts → (row.repoId ∈ (db.repositories.filter fun other =>
      !db.registersRepository other.id).map (·.id) ↔ db.registersRepository row.repoId = false) := by
    intro mem
    obtain ⟨repository, listed, same⟩ := List.mem_map.1 (wf.references.checkouts row mem)
    constructor
    · intro mem
      obtain ⟨other, selected, same⟩ := List.mem_map.1 mem
      rw [← same]
      simpa using (List.mem_filter.1 selected).2
    · intro unnamed
      refine List.mem_map.2 ⟨repository, List.mem_filter.2 ⟨listed, ?_⟩, same⟩
      rw [same, unnamed]
      rfl
  simp only [collected, withoutCheckouts, deleteRepositories, deleteCheckouts, List.mem_filter,
    Bool.not_not, Bool.not_eq_true', decide_eq_false_iff_not, and_assoc]
  refine and_congr_right fun mem => and_congr_right fun _ => ?_
  rw [gone mem]
  simp

theorem collected_wf_iff {db : Db} (wf : db.WellFormed json) :
    (db.withoutCheckouts.WellFormed json ∧ db.collected.WellFormed json) ↔ db.Covered := by
  have first := deleteCheckouts_wf_iff wf fun row => !db.registersCheckout row.id
  have stays : ∀ id, id ∈ db.collected.checkoutIds ↔ ∃ checkout ∈ db.checkouts, checkout.id = id ∧
      db.registersCheckout id = true ∧ db.registersRepository checkout.repoId = true := by
    intro id
    rw [checkoutIds, List.mem_map]
    constructor
    · rintro ⟨row, mem, rfl⟩
      obtain ⟨stored, named, inside⟩ := (mem_collected_checkouts wf).1 mem
      exact ⟨row, stored, rfl, named, inside⟩
    · rintro ⟨row, stored, rfl, named, inside⟩
      exact ⟨row, (mem_collected_checkouts wf).2 ⟨stored, named, inside⟩, rfl⟩
  constructor
  · intro both
    obtain ⟨kept, collected⟩ := both
    have second := (deleteRepositories_wf_iff kept fun row => !db.registersRepository row.id).1
      collected
    constructor
    · intro holder mem
      refine ⟨(mem_collected_repositories.1 (second.2 holder mem).1).2, fun id named => ?_⟩
      exact (mem_withoutCheckouts.1 ((first.1 kept).2 holder mem id named)).2
    · intro row mem checkout listed same
      obtain ⟨other, stored, id, -, inside⟩ := (stays _).1 (second.1 row mem).2
      obtain rfl := List.inj_on_of_nodup_map wf.keys.checkouts stored listed (id.trans same.symm)
      exact inside
  · intro covered
    have checkoutStays : ∀ id ∈ db.checkoutIds, db.registersCheckout id = true →
        id ∈ db.collected.checkoutIds := by
      intro id known named
      obtain ⟨checkout, listed, same⟩ := List.mem_map.1 known
      obtain ⟨row, mem, here⟩ := List.any_eq_true.1 named
      exact (stays id).2 ⟨checkout, listed, same, named,
        covered.checkouts row mem checkout listed (same.trans (of_decide_eq_true here).symm)⟩
    have kept : db.withoutCheckouts.WellFormed json := by
      refine first.2 ⟨fun row mem => mem_withoutCheckouts.2
        ⟨(wf.references.registrations row mem).2.2, registersCheckout_of_mem mem⟩, ?_⟩
      intro holder mem id named
      exact mem_withoutCheckouts.2 ⟨(wf.references.holders holder mem).2.2 id named,
        (covered.holders holder mem).2 id named⟩
    refine ⟨kept, (deleteRepositories_wf_iff kept _).2 ⟨fun row mem => ⟨?_, ?_⟩,
      fun holder mem => ⟨?_, fun id named => ?_⟩⟩⟩
    · exact mem_collected_repositories.2 ⟨(wf.references.registrations row mem).2.1,
        registersRepository_of_mem mem⟩
    · exact checkoutStays _ (wf.references.registrations row mem).2.2 (registersCheckout_of_mem mem)
    · exact mem_collected_repositories.2 ⟨(wf.references.holders holder mem).2.1,
        (covered.holders holder mem).1⟩
    · exact checkoutStays _ ((wf.references.holders holder mem).2.2 id named)
        ((covered.holders holder mem).2 id named)

end Db

section Removal

variable {json : JsonFunctions} {db : Db} {workspace : String}

/-- A removal takes every row of the workspace. Of the others it keeps every row, and of the
shared tables the repositories and checkouts that the others register. -/
structure Removed (workspace : String) (db db' : Db) : Prop where
  workspaces : db'.workspaces = db.workspaces.filter fun row => row.name ≠ workspace
  registrations : db'.registrations = db.registrations.filter fun row => row.workspace ≠ workspace
  repositories : ∀ row ∈ db.repositories,
    (∃ other ∈ db'.registrations, other.repoId = row.id) → row ∈ db'.repositories
  checkouts : ∀ row ∈ db.checkouts,
    (∃ other ∈ db'.registrations, other.checkoutId = row.id) → row ∈ db'.checkouts
  snapshots : db'.snapshots = db.snapshots.filter fun row => row.workspace ≠ workspace
  nodes : db'.nodes = db.nodes.filter fun row => row.workspace ≠ workspace
  evidence : db'.evidence = db.evidence.filter fun row => row.workspace ≠ workspace
  edges : db'.edges = db.edges.filter fun row => row.workspace ≠ workspace
  edgeEvidence : db'.edgeEvidence = db.edgeEvidence.filter fun row => row.workspace ≠ workspace
  freshness : db'.freshness = db.freshness.filter fun row => row.workspace ≠ workspace
  httpCoverage : db'.httpCoverage = db.httpCoverage.filter fun row => row.workspace ≠ workspace
  httpGaps : db'.httpGaps = db.httpGaps.filter fun row => row.workspace ≠ workspace
  runs : db'.runs = db.runs.filter fun row => row.workspace ≠ workspace
  fingerprints : db'.fingerprints = db.fingerprints.filter fun row => row.workspace ≠ workspace
  batches : db'.batches = db.batches.filter fun row => row.workspace ≠ workspace
  communitySnapshots :
    db'.communitySnapshots = db.communitySnapshots.filter fun row => row.workspace ≠ workspace
  communities : db'.communities = db.communities.filter fun row =>
    row.snapshotId ∉ db.communitySnapshotsOf workspace
  memberships : db'.memberships = db.memberships.filter fun row =>
    row.snapshotId ∉ db.communitySnapshotsOf workspace
  manualLinks : db'.manualLinks = db.manualLinks.filter fun row => row.workspace ≠ workspace
  capabilities : ∀ row ∈ db'.capabilities, row ∈ db.capabilities ∧ row.workspace ≠ workspace
  queryCache : db'.queryCache = db.queryCache.filter fun row => row.workspace ≠ workspace

def Isolated (json : JsonFunctions) (workspace : String) (db : Db) : Prop :=
  ∃ db', removeWorkspace json workspace db = .ok (db', true) ∧ Removed workspace db db'

theorem removeWorkspace_eq_ok (wf : db.WellFormed json) (registered : workspace ∈ db.workspaceNames)
    {result : Db × Bool} :
    removeWorkspace json workspace db = .ok result ↔
      (db.without workspace).Covered ∧ result = ((db.without workspace).collected, true) := by
  have rest := wf.without workspace
  have some : 0 < db.workspaces.countP fun row => row.name = workspace := by
    obtain ⟨row, mem, same⟩ := List.mem_map.1 registered
    exact List.countP_pos_iff.2 ⟨row, mem, decide_eq_true same⟩
  rw [← Db.collected_wf_iff rest]
  simp only [removeWorkspace, bind_eq_ok, Db.checked_eq_ok,
    Db.deleteWorkspaces_eq wf.references registered, pure_eq_ok, decide_eq_true some]
  constructor
  · rintro ⟨_, ⟨rfl, -⟩, _, ⟨rfl, kept⟩, _, ⟨rfl, collected⟩, rfl⟩
    exact ⟨⟨kept, collected⟩, rfl⟩
  · rintro ⟨⟨kept, collected⟩, rfl⟩
    exact ⟨_, ⟨rfl, rest⟩, _, ⟨rfl, kept⟩, _, ⟨rfl, collected⟩, rfl⟩

theorem removed_collected (wf : db.WellFormed json)
    (covered : (db.without workspace).Covered) :
    Removed workspace db (db.without workspace).collected where
  workspaces := rfl
  registrations := rfl
  repositories row mem named := by
    obtain ⟨other, listed, same⟩ := named
    refine List.mem_filter.2 ⟨mem, ?_⟩
    rw [Bool.not_not, ← same]
    exact Db.registersRepository_of_mem listed
  checkouts row mem named := by
    obtain ⟨other, listed, same⟩ := named
    have registered : (db.without workspace).registersCheckout other.checkoutId = true :=
      Db.registersCheckout_of_mem listed
    rw [same] at registered
    exact (Db.mem_collected_checkouts (wf.without workspace)).2
      ⟨mem, registered, covered.checkouts other listed row mem same.symm⟩
  snapshots := rfl
  nodes := rfl
  evidence := rfl
  edges := rfl
  edgeEvidence := rfl
  freshness := rfl
  httpCoverage := rfl
  httpGaps := rfl
  runs := rfl
  fingerprints := rfl
  batches := rfl
  communitySnapshots := rfl
  communities := rfl
  memberships := rfl
  manualLinks := rfl
  capabilities row mem := by
    obtain ⟨stored, outside⟩ := List.mem_filter.1 (List.mem_of_mem_filter mem)
    exact ⟨stored, of_decide_eq_true outside⟩
  queryCache := rfl

theorem isolated_iff (wf : db.WellFormed json) (registered : workspace ∈ db.workspaceNames) :
    Isolated json workspace db ↔ (db.without workspace).Covered := by
  constructor
  · intro isolated
    obtain ⟨db', removed, -⟩ := isolated
    exact ((removeWorkspace_eq_ok wf registered).1 removed).1
  · intro covered
    exact ⟨_, (removeWorkspace_eq_ok wf registered).2 ⟨covered, rfl⟩, removed_collected wf covered⟩

end Removal

end CodeSystemGraph.Store
