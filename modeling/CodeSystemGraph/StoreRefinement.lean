import CodeSystemGraph.StoreEdges

/-! Delta publication refines full replacement: whatever was stored before, the
rows of the published workspace end as the candidate's rows. -/

namespace CodeSystemGraph.Store
open Ieee Model Ordered Relational Routes

structure SameGraph (db db' : Db) : Prop where
  nodes : db'.nodes = db.nodes
  evidence : db'.evidence = db.evidence
  edges : db'.edges = db.edges
  edgeEvidence : db'.edgeEvidence = db.edgeEvidence
  fingerprints : db'.fingerprints = db.fingerprints
  batches : db'.batches = db.batches

variable {Digest : Type} {lib : Libraries Digest} {workspace : String} {db db' : Db}

section Frames

/-! The parts of a publication that write tables a view does not show. -/

variable {V : Type} {view : Db → V}

theorem checked_view {raw : Db} (h : raw.checked lib.json = .ok db') (same : view raw = view db) :
    view db' = view db := by
  obtain ⟨rfl, -⟩ := Db.checked_eq_ok.mp h
  exact same

theorem foldlM_view {α : Type} {step : Db → α → Except StoreError Db} {l : List α}
    (h : l.foldlM step db = .ok db')
    (steps : ∀ db a db', step db a = .ok db' → view db' = view db) : view db' = view db :=
  foldlM_rule (fun s => view s = view db) (fun _ a _ start stepped => (steps _ a _ stepped).trans start)
    h rfl

theorem replaceManualLinks_view (blind : ∀ db table, view { db with manualLinks := table } = view db)
    {records : List ManualLinkRecord}
    (h : replaceManualLinks lib workspace records db = .ok db') : view db' = view db := by
  obtain ⟨db₁, cleared, inserted⟩ := bind_eq_ok.mp h
  have start : view db₁ = view db := checked_view cleared (blind _ _)
  exact (foldlM_view inserted fun _ _ _ step => checked_view step (blind _ _)).trans start

theorem replaceExtractorRuns_view (blind : ∀ db table, view { db with runs := table } = view db)
    {runs : List ExtractorRun}
    (h : replaceExtractorRuns lib workspace runs db = .ok db') : view db' = view db := by
  obtain ⟨db₁, cleared, inserted⟩ := bind_eq_ok.mp h
  have start : view db₁ = view db := checked_view cleared (blind _ _)
  refine (foldlM_view inserted fun _ run _ step => ?_).trans start
  obtain ⟨_, -, rest⟩ := bind_eq_ok.mp step
  obtain ⟨_, -, rest⟩ := bind_eq_ok.mp rest
  obtain ⟨_, -, rest⟩ := bind_eq_ok.mp rest
  obtain ⟨_, -, inserted⟩ := bind_eq_ok.mp rest
  exact checked_view inserted (blind _ _)

theorem replaceFreshness_view (blind : ∀ db table, view { db with freshness := table } = view db)
    (blindCapabilities : ∀ db table, view { db with capabilities := table } = view db)
    {record : WorkspaceRecord} {gaps : List RepositoryCoverageGap}
    (h : replaceFreshness lib record gaps db = .ok db') : view db' = view db := by
  obtain ⟨db₁, cleared, rest⟩ := bind_eq_ok.mp h
  obtain ⟨db₂, inserted, pruned⟩ := bind_eq_ok.mp rest
  have start : view db₁ = view db := checked_view cleared (blind _ _)
  have middle : view db₂ = view db₁ := foldlM_view inserted fun _ _ _ step =>
    checked_view step (blind _ _)
  exact (checked_view pruned (blindCapabilities _ _)).trans (middle.trans start)

theorem replaceHttpLinks_view (blindCoverage : ∀ db table, view { db with httpCoverage := table } = view db)
    (blind : ∀ db table, view { db with httpGaps := table } = view db) {report : HttpLinkReport}
    (h : replaceHttpLinks lib workspace report db = .ok db') : view db' = view db := by
  obtain ⟨_, -, rest⟩ := bind_eq_ok.mp h
  obtain ⟨_, -, rest⟩ := bind_eq_ok.mp rest
  obtain ⟨_, -, rest⟩ := bind_eq_ok.mp rest
  obtain ⟨_, -, rest⟩ := bind_eq_ok.mp rest
  obtain ⟨db₁, counted, rest⟩ := bind_eq_ok.mp rest
  obtain ⟨db₂, deleted, inserted⟩ := bind_eq_ok.mp rest
  have start : view db₁ = view db := checked_view counted (blindCoverage _ _)
  have middle : view db₂ = view db₁ := foldlM_view deleted fun _ _ _ step =>
    checked_view step (blind _ _)
  exact (foldlM_view inserted fun _ _ _ step => checked_view step (blind _ _)).trans
    (middle.trans start)

theorem replaceCommunities_view (blind : ∀ db snapshots communities memberships,
      view { db with
        communitySnapshots := snapshots, communities := communities, memberships := memberships } =
      view db)
    {snapshot : Option CommunitySnapshot}
    (h : replaceCommunities lib workspace snapshot db = .ok db') : view db' = view db := by
  cases snapshot with
  | none =>
    obtain rfl := Except.ok.inj h
    rfl
  | some snapshot =>
    obtain ⟨db₁, deleted, rest⟩ := bind_eq_ok.mp h
    obtain ⟨_, -, rest⟩ := bind_eq_ok.mp rest
    obtain ⟨_, -, rest⟩ := bind_eq_ok.mp rest
    obtain ⟨db₂, inserted, communities⟩ := bind_eq_ok.mp rest
    have start : view db₁ = view db := checked_view deleted (blind db _ _ _)
    have middle : view db₂ = view db₁ := checked_view inserted (blind _ _ _ _)
    refine (foldlM_view communities fun _ community _ step => ?_).trans (middle.trans start)
    obtain ⟨_, -, rest⟩ := bind_eq_ok.mp step
    obtain ⟨_, -, rest⟩ := bind_eq_ok.mp rest
    obtain ⟨db₃, inserted, members⟩ := bind_eq_ok.mp rest
    exact (foldlM_view members fun _ _ _ step => checked_view step (blind _ _ _ _)).trans
      (checked_view inserted (blind _ _ _ _))

def graphTables (db : Db) := (db.nodes, db.evidence, db.edges, db.edgeEvidence, db.fingerprints, db.batches)

theorem sameGraph_of_tables (h : graphTables db' = graphTables db) : SameGraph db db' := by
  simp only [graphTables, Prod.mk.injEq] at h
  obtain ⟨nodes, evidence, edges, edgeEvidence, fingerprints, batches⟩ := h
  exact ⟨nodes, evidence, edges, edgeEvidence, fingerprints, batches⟩

end Frames

section Sweeps

theorem deleteNodes_eq_ok {ids : List NodeId}
    (free : ∀ row ∈ db.edges, row.sourceKey ∉ ids.map (fun id => (workspace, id)) ∧
      row.targetKey ∉ ids.map fun id => (workspace, id))
    (h : ids.foldlM (deleteNode lib workspace) db = .ok db') :
    SameGraph { db with
      nodes := db.nodes.filter fun row => row.key ∉ ids.map fun id => (workspace, id) } db' := by
  induction ids generalizing db with
  | nil =>
    obtain rfl := Except.ok.inj h
    exact ⟨by simp, rfl, rfl, rfl, rfl, rfl⟩
  | cons id ids ih =>
    rw [List.foldlM_cons] at h
    obtain ⟨db₁, deleted, rest⟩ := bind_eq_ok.mp h
    obtain ⟨rfl, -⟩ := Db.checked_eq_ok.mp deleted
    have selects : ∀ row : NodeRow, (row.workspace = workspace ∧ row.id = id) ↔
        row.key = (workspace, id) := fun row => by simp [NodeRow.key]
    have gone : ∀ key ∈ (db.nodes.filter fun row =>
        decide (row.workspace = workspace ∧ row.id = id)).map NodeRow.key,
        key = (workspace, id) := by
      intro key mem
      obtain ⟨row, selected, rfl⟩ := List.mem_map.mp mem
      exact (selects row).mp (by simpa using (List.mem_filter.mp selected).2)
    have untouched : ∀ row ∈ db.edges, ¬(row.sourceKey ∈ (db.nodes.filter fun row =>
        decide (row.workspace = workspace ∧ row.id = id)).map NodeRow.key ∨
        row.targetKey ∈ (db.nodes.filter fun row =>
          decide (row.workspace = workspace ∧ row.id = id)).map NodeRow.key) := by
      rintro row mem (source | target)
      · exact (free row mem).1 (gone _ source ▸ List.mem_cons_self)
      · exact (free row mem).2 (gone _ target ▸ List.mem_cons_self)
    have edges : (db.deleteNodes fun row =>
        decide (row.workspace = workspace ∧ row.id = id)).edges = db.edges := by
      refine List.filter_eq_self.mpr fun row mem => ?_
      simpa using untouched row mem
    have evidence : (db.deleteNodes fun row =>
        decide (row.workspace = workspace ∧ row.id = id)).edgeEvidence = db.edgeEvidence := by
      refine List.filter_eq_self.mpr fun row mem => ?_
      have none : (db.edges.filter fun row => decide (row.sourceKey ∈ (db.nodes.filter fun row =>
          decide (row.workspace = workspace ∧ row.id = id)).map NodeRow.key ∨
          row.targetKey ∈ (db.nodes.filter fun row =>
            decide (row.workspace = workspace ∧ row.id = id)).map NodeRow.key)) = [] :=
        List.filter_eq_nil_iff.mpr fun row mem => by simpa using untouched row mem
      simp only [none, List.map_nil, List.not_mem_nil, not_false_eq_true, decide_true]
    have rest := ih (fun row mem => ?_) rest
    · refine ⟨?_, rest.evidence, rest.edges.trans edges, rest.edgeEvidence.trans evidence,
        rest.fingerprints, rest.batches⟩
      rw [rest.nodes]
      simp only [Db.deleteNodes, Db.deleteEdges, List.filter_filter]
      refine List.filter_congr fun row _ => ?_
      rw [Bool.eq_iff_iff]
      simp [selects, and_comm]
    · rw [edges] at mem
      obtain ⟨source, target⟩ := free row mem
      exact ⟨fun mem => source (List.mem_cons_of_mem _ mem),
        fun mem => target (List.mem_cons_of_mem _ mem)⟩

theorem deleteEvidence_eq_ok {ids : List EvidenceId}
    (free : ∀ row ∈ db.edgeEvidence, row.evidenceKey ∉ ids.map fun id => (workspace, id))
    (h : ids.foldlM (deleteEvidenceItem lib workspace) db = .ok db') :
    SameGraph { db with
      evidence := db.evidence.filter fun row => row.key ∉ ids.map fun id => (workspace, id)
      } db' := by
  induction ids generalizing db with
  | nil =>
    obtain rfl := Except.ok.inj h
    exact ⟨rfl, by simp, rfl, rfl, rfl, rfl⟩
  | cons id ids ih =>
    rw [List.foldlM_cons] at h
    obtain ⟨db₁, deleted, rest⟩ := bind_eq_ok.mp h
    obtain ⟨rfl, -⟩ := Db.checked_eq_ok.mp deleted
    have selects : ∀ row : EvidenceRow, (row.workspace = workspace ∧ row.id = id) ↔
        row.key = (workspace, id) := fun row => by simp [EvidenceRow.key]
    have citations : (db.deleteEvidence fun row =>
        decide (row.workspace = workspace ∧ row.id = id)).edgeEvidence = db.edgeEvidence := by
      refine List.filter_eq_self.mpr fun row mem => ?_
      have kept : row.evidenceKey ∉ (db.evidence.filter fun row =>
          decide (row.workspace = workspace ∧ row.id = id)).map EvidenceRow.key := by
        intro isGone
        obtain ⟨item, selected, same⟩ := List.mem_map.mp isGone
        have key := (selects item).mp (by simpa using (List.mem_filter.mp selected).2)
        exact free row mem (same ▸ key ▸ List.mem_cons_self)
      simpa using kept
    have rest := ih (fun row mem => ?_) rest
    · refine ⟨rest.nodes, ?_, rest.edges, rest.edgeEvidence.trans citations, rest.fingerprints,
        rest.batches⟩
      rw [rest.evidence]
      simp only [Db.deleteEvidence, List.filter_filter]
      refine List.filter_congr fun row _ => ?_
      rw [Bool.eq_iff_iff]
      simp [selects, and_comm]
    · rw [citations] at mem
      exact fun listed => free row mem (List.mem_cons_of_mem _ listed)

end Sweeps

/-- The rows of a workspace are the candidate's, each once, and all others are as before. -/
structure TableReplaced {Row : Type} (workspaceOf : Row → String) (workspace : String)
    (candidate before after : List Row) : Prop where
  exactly : Exactly (after.filter fun row => workspaceOf row = workspace) candidate
  others : (after.filter fun row => workspaceOf row ≠ workspace) =
    before.filter fun row => workspaceOf row ≠ workspace

/-- Full replacement of the rows of a workspace by those of a candidate. -/
structure Replaced (workspace : String) (candidate db db' : Db) : Prop where
  nodes : TableReplaced NodeRow.workspace workspace candidate.nodes db.nodes db'.nodes
  evidence : TableReplaced EvidenceRow.workspace workspace candidate.evidence db.evidence db'.evidence
  edges : TableReplaced EdgeRow.workspace workspace candidate.edges db.edges db'.edges
  edgeEvidence : TableReplaced EdgeEvidenceRow.workspace workspace candidate.edgeEvidence
    db.edgeEvidence db'.edgeEvidence
  fingerprints : TableReplaced FingerprintRow.workspace workspace candidate.fingerprints
    db.fingerprints db'.fingerprints
  batches : TableReplaced BatchRow.workspace workspace candidate.batches db.batches db'.batches

/-- Rows as a publication writes them: a stored payload hash is that of the
payload, and a stored confidence is a single precision value. -/
@[mk_iff] structure Db.Authentic (lib : Libraries Digest) (workspace : String) (db : Db) : Prop where
  payloads : ∀ row ∈ db.batches, row.workspace = workspace →
    row.payloadHash = lib.toHex (lib.hash row.payload)
  evidence : ∀ row ∈ db.evidence, row.workspace = workspace →
    row.confidence = realColumn (narrow row.confidence)
  edges : ∀ row ∈ db.edges, row.workspace = workspace →
    row.confidence = realColumn (narrow row.confidence)

@[mk_iff] structure PublicationInput.Coherent (input : PublicationInput) : Prop where
  nodes : (input.nodes.map (·.id)).Nodup
  edges : (input.edges.map (·.id)).Nodup
  evidence : (input.evidence.map (·.id)).Nodup
  fingerprints : (input.fingerprints.map artifactKey).Nodup
  batches : (input.extractorBatches.map fun batch => artifactKey batch.source).Nodup
  endpoints : ∀ edge ∈ input.edges,
    edge.source ∈ input.nodes.map (·.id) ∧ edge.target ∈ input.nodes.map (·.id)
  citations : ∀ edge ∈ input.edges, ∀ id ∈ edge.evidence, id ∈ input.evidence.map (·.id)

instance (db : Db) : Decidable (db.Authentic lib workspace) :=
  decidable_of_iff' _ (Db.authentic_iff lib workspace db)

instance (input : PublicationInput) : Decidable input.Coherent :=
  decidable_of_iff' _ input.coherent_iff

section Assembly

variable {input : PublicationInput}

theorem edges_exactly (wf : db.WellFormed lib.json) {edges : List Edge}
    (distinct : (edges.map (·.id)).Nodup)
    (view : ∀ id, edgeView workspace db id = (lookup (·.id) id edges).map (candidateView workspace)) :
    Exactly (db.edges.filter fun row => row.workspace = workspace)
        (edges.map (edgeRow workspace)) ∧
      Exactly (db.edgeEvidence.filter fun row => row.workspace = workspace)
        (edges.flatMap (edgeEvidenceRows workspace)) := by
  have found : ∀ id, lookup EdgeRow.key (workspace, id) db.edges =
      (lookup (·.id) id edges).map (edgeRow workspace) := by
    intro id
    have first := congrArg (Option.map Prod.fst) (view id)
    simpa [edgeView, candidateView, Option.map_map, Function.comp_def] using first
  have cited : ∀ edge ∈ edges, ∀ row : EdgeEvidenceRow, row.edgeKey = (workspace, edge.id) →
      (row ∈ db.edgeEvidence ↔ row.evidenceId ∈ edge.evidence) := by
    intro edge mem row key
    have claimed := (mem_iff_lookup distinct).mp mem
    have here := view edge.id
    rw [claimed, edgeView, found, claimed] at here
    have evidence : storedEdgeEvidence workspace db edge.id = sortBy (·) edge.evidence := by
      simpa [candidateView] using here
    have listed : row.evidenceId ∈ edge.evidence ↔
        row.evidenceId ∈ evidenceAt workspace edge.id db.edgeEvidence := by
      rw [← mem_sortBy (fun id : EvidenceId => id), ← evidence, storedEdgeEvidence_eq, mem_sortBy]
    rw [listed, evidenceAt, List.mem_map]
    constructor
    · intro stored
      exact ⟨row, List.mem_filter.mpr ⟨stored, by simpa using key⟩, rfl⟩
    · rintro ⟨other, mem, same⟩
      obtain ⟨stored, otherKey⟩ := List.mem_filter.mp mem
      have sameKey : other.edgeKey = row.edgeKey := (by simpa using otherKey : _ = _).trans key.symm
      obtain ⟨w, e, v⟩ := other
      obtain ⟨w', e', v'⟩ := row
      obtain ⟨rfl, rfl⟩ := Prod.mk.inj sameKey
      obtain rfl : v = v' := same
      exact stored
  refine ⟨exactly_scope Edge.id (edgeRow workspace) wf.keys.edges (fun _ => rfl) distinct found,
    wf.keys.edgeEvidence.filter _, fun row => ?_⟩
  rw [List.mem_filter, List.mem_flatMap]
  constructor
  · rintro ⟨stored, here⟩
    have here : row.workspace = workspace := by simpa using here
    obtain ⟨edgeRow', isEdge, same⟩ := List.mem_map.mp (wf.references.edgeEvidence row stored).1
    have stands := (mem_iff_lookup wf.keys.edges).mp isEdge
    have key : edgeRow'.key = (workspace, row.edgeId) := same.trans (Prod.ext here rfl)
    rw [key, found] at stands
    obtain ⟨edge, claimed, -⟩ := Option.map_eq_some_iff.mp stands
    obtain ⟨mem, sameId⟩ := lookup_eq_some claimed
    have edgeKey : row.edgeKey = (workspace, edge.id) := Prod.ext here sameId.symm
    refine ⟨edge, mem, List.mem_map.mpr ⟨row.evidenceId, (cited edge mem row edgeKey).mp stored, ?_⟩⟩
    obtain ⟨w, e, v⟩ := row
    obtain rfl : w = workspace := here
    obtain rfl : edge.id = e := sameId
    rfl
  · rintro ⟨edge, mem, listed⟩
    obtain ⟨evidenceId, isCited, rfl⟩ := List.mem_map.mp listed
    exact ⟨(cited edge mem _ rfl).mpr isCited, by simp⟩

theorem Replaced.authentic (replaced : Replaced input.workspace.name (input.tables lib) db db')
    (wf : db'.WellFormed lib.json) : db'.Authentic lib input.workspace.name where
  payloads row mem here := by
    have listed := (replaced.batches.exactly.2 row).mp
      (List.mem_filter.mpr ⟨mem, by simpa using here⟩)
    obtain ⟨batch, -, rfl⟩ := List.mem_map.mp listed
    rfl
  evidence row mem here := by
    have listed := (replaced.evidence.exactly.2 row).mp
      (List.mem_filter.mpr ⟨mem, by simpa using here⟩)
    obtain ⟨item, -, rfl⟩ := List.mem_map.mp listed
    exact (realColumn_narrow (wf.checks.evidence _ mem).2).symm
  edges row mem here := by
    have listed := (replaced.edges.exactly.2 row).mp
      (List.mem_filter.mpr ⟨mem, by simpa using here⟩)
    obtain ⟨edge, -, rfl⟩ := List.mem_map.mp listed
    exact (realColumn_narrow (wf.checks.edges _ mem)).symm

variable [DecidableEq Digest]

theorem upsertEvidence_wellFormed {evidence : List Evidence} {removed : List EvidenceId}
    (distinct : (evidence.map (·.id)).Nodup) (wf : db.WellFormed lib.json)
    (h : upsertEvidence lib workspace evidence db = .ok (db', removed)) :
    db'.WellFormed lib.json := by
  obtain ⟨⟨db₁, left⟩, passed, rest⟩ := bind_eq_ok.mp h
  obtain ⟨rfl, -⟩ := Prod.mk.inj (Except.ok.inj rest)
  obtain ⟨written, -⟩ := reconcile_eq_ok Evidence.id _ distinct passed
  refine foldlM_rule (Db.WellFormed lib.json) (fun _ _ _ _ step => ?_) written wf
  obtain ⟨rfl, holds⟩ := Db.checked_eq_ok.mp step
  exact holds

theorem upsertNodes_wellFormed {nodes : List Node} {removed : List NodeId}
    (distinct : (nodes.map (·.id)).Nodup) (wf : db.WellFormed lib.json)
    (h : upsertNodes lib workspace nodes db = .ok (db', removed)) :
    db'.WellFormed lib.json := by
  obtain ⟨⟨db₁, left⟩, passed, rest⟩ := bind_eq_ok.mp h
  obtain ⟨rfl, -⟩ := Prod.mk.inj (Except.ok.inj rest)
  obtain ⟨written, -⟩ := reconcile_eq_ok Node.id _ distinct passed
  refine foldlM_rule (Db.WellFormed lib.json) (fun _ _ _ _ step => ?_) written wf
  obtain ⟨rfl, holds⟩ := Db.checked_eq_ok.mp step
  exact holds

theorem edges_free (coherent : input.Coherent) {removed : List NodeId}
    {stored : List (String × NodeId)} (left : ∀ id, id ∈ removed ↔
      (input.workspace.name, id) ∈ stored ∧ id ∉ input.nodes.map (·.id)) {edgeTable : List EdgeRow}
    (exactly : Exactly (edgeTable.filter fun row => row.workspace = input.workspace.name)
      (input.edges.map (edgeRow input.workspace.name))) {row : EdgeRow} (mem : row ∈ edgeTable) :
    row.sourceKey ∉ removed.map (fun id => (input.workspace.name, id)) ∧
      row.targetKey ∉ removed.map fun id => (input.workspace.name, id) := by
  have kept : ∀ id, (row.workspace = input.workspace.name → id ∈ input.nodes.map (·.id)) →
      (row.workspace, id) ∉ removed.map fun id => (input.workspace.name, id) := by
    intro id inNodes gone
    obtain ⟨other, isRemoved, same⟩ := List.mem_map.mp gone
    obtain ⟨here, rfl⟩ := Prod.mk.inj same
    exact ((left other).mp isRemoved).2 (inNodes here.symm)
  have candidate : row.workspace = input.workspace.name →
      row.sourceNodeId ∈ input.nodes.map (·.id) ∧ row.targetNodeId ∈ input.nodes.map (·.id) := by
    intro here
    have listed := (exactly.2 row).mp (List.mem_filter.mpr ⟨mem, by simpa using here⟩)
    obtain ⟨edge, isEdge, rfl⟩ := List.mem_map.mp listed
    exact coherent.endpoints edge isEdge
  exact ⟨kept _ fun here => (candidate here).1, kept _ fun here => (candidate here).2⟩

theorem citations_free (coherent : input.Coherent) {removed : List EvidenceId}
    {stored : List (String × EvidenceId)} (left : ∀ id, id ∈ removed ↔
      (input.workspace.name, id) ∈ stored ∧ id ∉ input.evidence.map (·.id))
    {table : List EdgeEvidenceRow}
    (exactly : Exactly (table.filter fun row => row.workspace = input.workspace.name)
      (input.edges.flatMap (edgeEvidenceRows input.workspace.name)))
    {row : EdgeEvidenceRow} (mem : row ∈ table) :
    row.evidenceKey ∉ removed.map fun id => (input.workspace.name, id) := by
  intro gone
  obtain ⟨other, isRemoved, same⟩ := List.mem_map.mp gone
  obtain ⟨here, rfl⟩ := Prod.mk.inj same
  refine ((left _).mp isRemoved).2 ?_
  have listed := (exactly.2 row).mp (List.mem_filter.mpr ⟨mem, by simpa using here.symm⟩)
  obtain ⟨edge, isEdge, cited⟩ := List.mem_flatMap.mp listed
  obtain ⟨evidenceId, isCited, rfl⟩ := List.mem_map.mp cited
  exact coherent.citations edge isEdge evidenceId isCited

theorem publishGraph_eq_ok (collisionFree : Function.Injective lib.hash)
    (coherent : input.Coherent) (wf : db.WellFormed lib.json)
    (authentic : db.Authentic lib input.workspace.name) (fits : db.TextsFit)
    (fits' : (input.tables lib).TextsFit) (h : publishGraph lib input db = .ok db') :
    db'.fingerprints = db.fingerprints ∧ db'.batches = db.batches ∧
      (db'.nodeKeys.Nodup → db'.evidenceKeys.Nodup →
        TableReplaced NodeRow.workspace input.workspace.name (input.tables lib).nodes db.nodes
          db'.nodes ∧
        TableReplaced EvidenceRow.workspace input.workspace.name (input.tables lib).evidence
          db.evidence db'.evidence ∧
        TableReplaced EdgeRow.workspace input.workspace.name (input.tables lib).edges db.edges
          db'.edges ∧
        TableReplaced EdgeEvidenceRow.workspace input.workspace.name (input.tables lib).edgeEvidence
          db.edgeEvidence db'.edgeEvidence) := by
  obtain ⟨⟨db₁, removedEvidence⟩, evidenceStep, h⟩ := bind_eq_ok.mp h
  obtain ⟨⟨db₂, removedNodes⟩, nodeStep, h⟩ := bind_eq_ok.mp h
  obtain ⟨db₃, edgeStep, h⟩ := bind_eq_ok.mp h
  obtain ⟨db₄, manualStep, h⟩ := bind_eq_ok.mp h
  obtain ⟨db₅, nodeSweep, evidenceSweep⟩ := bind_eq_ok.mp h
  have wf₁ := upsertEvidence_wellFormed coherent.evidence wf evidenceStep
  have wf₂ := upsertNodes_wellFormed coherent.nodes wf₁ nodeStep
  obtain ⟨rfl, evidenceLeft⟩ := upsertEvidence_eq_ok coherent.evidence evidenceStep
  obtain ⟨rfl, nodesLeft⟩ := upsertNodes_eq_ok coherent.nodes nodeStep
  obtain ⟨⟨edgeTable, evidenceTable, rfl⟩, wf₃, view, otherEdges, otherCitations⟩ :=
    replaceChangedEdges_eq_ok wf₂ coherent.edges (fun edge mem view found same =>
      view_faithful collisionFree fits.edges fits.edgeEvidence authentic.edges
        (fits'.edges _ (List.mem_map.mpr ⟨edge, mem, rfl⟩)) (fun text cited => fits'.edgeEvidence
          ⟨input.workspace.name, edge.id, text⟩ (List.mem_flatMap.mpr ⟨edge, mem,
            List.mem_map.mpr ⟨text, cited, rfl⟩⟩) _ List.mem_cons_self) found same) edgeStep
  obtain ⟨edgesExact, citationsExact⟩ := edges_exactly wf₃ coherent.edges view
  have manual : SameGraph _ db₄ := sameGraph_of_tables (replaceManualLinks_view (fun _ _ => rfl) manualStep)
  have nodesSwept := deleteNodes_eq_ok (fun row mem => edges_free coherent nodesLeft edgesExact
    (manual.edges ▸ mem)) nodeSweep
  have evidenceSwept := deleteEvidence_eq_ok (fun row mem => citations_free coherent evidenceLeft
    citationsExact (manual.edgeEvidence ▸ nodesSwept.edgeEvidence ▸ mem)) evidenceSweep
  have edges : db'.edges = edgeTable :=
    evidenceSwept.edges.trans (nodesSwept.edges.trans manual.edges)
  have citations : db'.edgeEvidence = evidenceTable :=
    evidenceSwept.edgeEvidence.trans (nodesSwept.edgeEvidence.trans manual.edgeEvidence)
  have fingerprints : db'.fingerprints = db.fingerprints :=
    evidenceSwept.fingerprints.trans (nodesSwept.fingerprints.trans manual.fingerprints)
  have batches : db'.batches = db.batches :=
    evidenceSwept.batches.trans (nodesSwept.batches.trans manual.batches)
  refine ⟨fingerprints, batches, fun nodeKeys evidenceKeys => ?_⟩
  have nodes : db'.nodes = (upserted NodeRow.key (·.id) (fun node => .ok (nodeDigest lib node))
      (nodeRow input.workspace.name) input.nodes (storedNodes lib input.workspace.name db)
      db.nodes).filter fun row =>
        row.key ∉ removedNodes.map fun id => (input.workspace.name, id) := by
    rw [evidenceSwept.nodes, nodesSwept.nodes, manual.nodes]
    rfl
  have evidence : db'.evidence = (upserted EvidenceRow.key (·.id)
      (fun item => .ok (evidenceDigest lib item)) (evidenceRow input.workspace.name) input.evidence
      (storedEvidence lib input.workspace.name db) db.evidence).filter fun row =>
        row.key ∉ removedEvidence.map fun id => (input.workspace.name, id) := by
    rw [evidenceSwept.evidence, nodesSwept.evidence, manual.evidence]
  have inScope : ∀ {K : Type} (ids : List K), ∀ key ∈ ids.map fun id => (input.workspace.name, id),
      key.1 = input.workspace.name := by
    intro K ids key mem
    obtain ⟨_, -, rfl⟩ := List.mem_map.mp mem
    rfl
  have claimed : ∀ {K : Type} (ids : List K) (k : K),
      (input.workspace.name, k) ∈ ids.map (fun id => (input.workspace.name, id)) ↔ k ∈ ids :=
    fun ids k => by simp
  obtain ⟨nodesExact, otherNodes⟩ := sweep_exactly NodeRow.key
    (fun row => digestOf lib (nodeParts row.kind row.repoId row.stableKey row.label))
    input.workspace.name Node.id (fun node => .ok (nodeDigest lib node))
    (nodeRow input.workspace.name) (fun _ => rfl) coherent.nodes (fun _ _ => ⟨_, rfl⟩)
    (fun node mem row stored key same => node_faithful collisionFree key (fits.nodes row stored)
      (fits'.nodes _ (List.mem_map.mpr ⟨node, mem, rfl⟩)) (Except.ok.inj same))
    (fun id => (claimed removedNodes id).trans (nodesLeft id)) (inScope _) nodes nodeKeys
  obtain ⟨evidenceExact, otherEvidence⟩ := sweep_exactly EvidenceRow.key
    (fun row => digestOf lib (evidenceParts row.repoId row.filePath row.startLine row.endLine
      row.extractor row.extractorVersion row.provenance (narrow row.confidence) row.contentHash
      row.observedAtCommit))
    input.workspace.name Evidence.id (fun item => .ok (evidenceDigest lib item))
    (evidenceRow input.workspace.name) (fun _ => rfl) coherent.evidence (fun _ _ => ⟨_, rfl⟩)
    (fun item mem row stored key same => evidence_faithful collisionFree key
      (authentic.evidence row stored (congrArg Prod.fst key)) (fits.evidence row stored)
      (fits'.evidence _ (List.mem_map.mpr ⟨item, mem, rfl⟩)) (Except.ok.inj same))
    (fun id => (claimed removedEvidence id).trans (evidenceLeft id)) (inScope _) evidence
    evidenceKeys
  refine ⟨⟨nodesExact, otherNodes⟩, ⟨evidenceExact, otherEvidence⟩, ?_, ?_⟩
  · rw [edges]
    exact ⟨edgesExact, otherEdges⟩
  · rw [citations]
    exact ⟨citationsExact, otherCitations⟩

theorem publishCurrentGraph_wellFormed (h : publishCurrentGraph lib input db = .ok db') :
    db'.WellFormed lib.json := by
  obtain ⟨_, -, h⟩ := bind_eq_ok.mp h
  obtain ⟨_, -, h⟩ := bind_eq_ok.mp h
  obtain ⟨_, -, h⟩ := bind_eq_ok.mp h
  obtain ⟨_, -, h⟩ := bind_eq_ok.mp h
  obtain ⟨_, -, h⟩ := bind_eq_ok.mp h
  obtain ⟨_, -, h⟩ := bind_eq_ok.mp h
  obtain ⟨_, -, h⟩ := bind_eq_ok.mp h
  obtain ⟨_, -, h⟩ := bind_eq_ok.mp h
  obtain ⟨rfl, holds⟩ := Db.checked_eq_ok.mp h
  exact holds

/-- What the digests of a table of fingerprints and of one of batches are taken of. -/
structure ArtifactsFit (fingerprints : List FingerprintRow) (batches : List BatchRow) : Prop where
  fingerprints : ∀ row ∈ fingerprints, Sized [row.pathDisplay, row.contentHash]
  batches : ∀ row ∈ batches, Sized [row.pathDisplay, row.contentHash, row.extractorVersion,
    row.budgetFingerprint, row.payloadHash]

instance (fingerprints : List FingerprintRow) (batches : List BatchRow) :
    Decidable (ArtifactsFit fingerprints batches) :=
  decidable_of_iff (_ ∧ _) ⟨fun both => ⟨both.1, both.2⟩, fun fits => ⟨fits.fingerprints, fits.batches⟩⟩

theorem publishArtifacts_full (collisionFree : Function.Injective lib.hash)
    (hexInjective : Function.Injective lib.toHex) (noDelta : input.artifactDelta = none)
    (hashed : ∀ row ∈ db.batches, row.workspace = input.workspace.name →
      row.payloadHash = lib.toHex (lib.hash row.payload))
    (fits : ArtifactsFit db.fingerprints db.batches)
    (fits' : ArtifactsFit (input.tables lib).fingerprints (input.tables lib).batches)
    (distinct : (input.fingerprints.map artifactKey).Nodup)
    (distinctBatches : (input.extractorBatches.map fun batch => artifactKey batch.source).Nodup)
    (h : publishArtifacts lib input db = .ok db')
    (keys : (db'.fingerprints.map FingerprintRow.key).Nodup)
    (batchKeys : (db'.batches.map BatchRow.key).Nodup) :
    db' = { db with
        fingerprints := db'.fingerprints
        batches := db'.batches } ∧
      TableReplaced FingerprintRow.workspace input.workspace.name (input.tables lib).fingerprints
        db.fingerprints db'.fingerprints ∧
      TableReplaced BatchRow.workspace input.workspace.name (input.tables lib).batches db.batches
        db'.batches := by
  rw [publishArtifacts, noDelta] at h
  obtain ⟨between, fingerprintStep, batchStep⟩ := bind_eq_ok.mp h
  obtain ⟨⟨fingerprintTable, is⟩, fingerprintsLeft⟩ := upsertFingerprints_eq_ok collisionFree
    fits.fingerprints (fun fingerprint mem => fits'.fingerprints _ (List.mem_map_of_mem mem)) distinct
    fingerprintStep
  have same : between.batches = db.batches := by rw [is]
  rw [← same] at hashed
  obtain ⟨⟨batchTable, is'⟩, batchesLeft⟩ := upsertExtractorBatches_eq_ok collisionFree
    hexInjective hashed (fun row mem => fits.batches row (same ▸ mem))
    (fun batch mem => fits'.batches _ (List.mem_map.mpr ⟨batch, mem, rfl⟩)) distinctBatches batchStep
  have fingerprints' : db'.fingerprints = between.fingerprints := by rw [is']
  obtain ⟨fingerprints, others⟩ := fingerprintsLeft (fingerprints' ▸ keys)
  obtain ⟨batches, otherBatches⟩ := batchesLeft batchKeys
  rw [same] at otherBatches
  rw [← fingerprints'] at fingerprints others
  exact ⟨by rw [is', is], ⟨fingerprints, others⟩, ⟨batches, otherBatches⟩⟩

theorem publishCurrentGraph_parts (collisionFree : Function.Injective lib.hash)
    (authentic : db.Authentic lib input.workspace.name) (coherent : input.Coherent)
    (fits : db.TextsFit) (fits' : (input.tables lib).TextsFit)
    (h : publishCurrentGraph lib input db = .ok db') :
    ∃ before after : Db, before.fingerprints = db.fingerprints ∧ before.batches = db.batches ∧
      publishArtifacts lib input before = .ok after ∧
      db'.fingerprints = after.fingerprints ∧ db'.batches = after.batches ∧
      (db.fingerprints.map FingerprintRow.key).Nodup ∧ (db.batches.map BatchRow.key).Nodup ∧
      (after = { before with
        fingerprints := after.fingerprints
        batches := after.batches } →
      TableReplaced FingerprintRow.workspace input.workspace.name (input.tables lib).fingerprints
          db.fingerprints db'.fingerprints →
        TableReplaced BatchRow.workspace input.workspace.name (input.tables lib).batches
          db.batches db'.batches → Replaced input.workspace.name (input.tables lib) db db') := by
  have wf' := publishCurrentGraph_wellFormed h
  obtain ⟨db₁, cacheStep, h⟩ := bind_eq_ok.mp h
  obtain ⟨rfl, wf₁⟩ := Db.checked_eq_ok.mp cacheStep
  obtain ⟨db₂, snapshotStep, h⟩ := bind_eq_ok.mp h
  obtain ⟨rfl, wf₂⟩ := Db.checked_eq_ok.mp snapshotStep
  obtain ⟨db₃, graphStep, h⟩ := bind_eq_ok.mp h
  obtain ⟨db₄, artifactStep, h⟩ := bind_eq_ok.mp h
  obtain ⟨db₅, runStep, h⟩ := bind_eq_ok.mp h
  obtain ⟨db₆, freshnessStep, h⟩ := bind_eq_ok.mp h
  obtain ⟨db₇, httpStep, h⟩ := bind_eq_ok.mp h
  obtain ⟨db₈, communityStep, h⟩ := bind_eq_ok.mp h
  have reports : SameGraph db₄ db' := by
    refine sameGraph_of_tables ?_
    calc graphTables db' = graphTables db₈ := checked_view h rfl
      _ = graphTables db₇ := replaceCommunities_view (fun _ _ _ _ => rfl) communityStep
      _ = graphTables db₆ :=
          replaceHttpLinks_view (fun _ _ => rfl) (fun _ _ => rfl) httpStep
      _ = graphTables db₅ :=
          replaceFreshness_view (fun _ _ => rfl) (fun _ _ => rfl) freshnessStep
      _ = graphTables db₄ := replaceExtractorRuns_view (fun _ _ => rfl) runStep
  obtain ⟨fingerprints₃, batches₃, graph⟩ := publishGraph_eq_ok collisionFree coherent wf₂
    ⟨authentic.payloads, authentic.evidence, authentic.edges⟩
    ⟨fits.nodes, fits.evidence, fits.edges, fits.edgeEvidence, fits.fingerprints, fits.batches⟩
    fits' graphStep
  refine ⟨db₃, db₄, fingerprints₃, batches₃, artifactStep, reports.fingerprints, reports.batches,
    wf₁.keys.fingerprints, wf₁.keys.batches, fun frame fingerprints batches => ?_⟩
  rw [frame] at reports
  have nodeKeys : db₃.nodeKeys.Nodup := by
    have nodup := wf'.keys.nodes
    rwa [Db.nodeKeys, reports.nodes] at nodup
  have evidenceKeys : db₃.evidenceKeys.Nodup := by
    have nodup := wf'.keys.evidence
    rwa [Db.evidenceKeys, reports.evidence] at nodup
  obtain ⟨nodes, evidence, edges, citations⟩ := graph nodeKeys evidenceKeys
  constructor
  · rw [reports.nodes]
    exact nodes
  · rw [reports.evidence]
    exact evidence
  · rw [reports.edges]
    exact edges
  · rw [reports.edgeEvidence]
    exact citations
  · exact fingerprints
  · exact batches

/-- A publication without an artifact delta that succeeds leaves what deleting the
rows of the workspace and inserting the candidate would leave. -/
theorem publishCurrentGraph_refines_replacement (collisionFree : Function.Injective lib.hash)
    (hexInjective : Function.Injective lib.toHex)
    (authentic : db.Authentic lib input.workspace.name) (coherent : input.Coherent)
    (noDelta : input.artifactDelta = none) (fits : db.TextsFit)
    (fits' : (input.tables lib).TextsFit) (h : publishCurrentGraph lib input db = .ok db') :
    Replaced input.workspace.name (input.tables lib) db db' ∧
      db'.Authentic lib input.workspace.name := by
  have wf' := publishCurrentGraph_wellFormed h
  refine (fun replaced => ⟨replaced, replaced.authentic wf'⟩) ?_
  obtain ⟨start, after, fingerprints, batches, step, fingerprints', batches', -, -, replaced⟩ :=
    publishCurrentGraph_parts collisionFree authentic coherent fits fits' h
  obtain ⟨frame, fingerprintRows, batchRows⟩ := publishArtifacts_full collisionFree hexInjective noDelta
    (batches ▸ authentic.payloads)
    ⟨fingerprints ▸ fits.fingerprints, batches ▸ fits.batches⟩ ⟨fits'.fingerprints, fits'.batches⟩
    coherent.fingerprints coherent.batches step (fingerprints' ▸ wf'.keys.fingerprints)
    (batches' ▸ wf'.keys.batches)
  refine replaced frame ?_ ?_
  · rw [fingerprints', ← fingerprints]
    exact fingerprintRows
  · rw [batches', ← batches]
    exact batchRows

end Assembly

section Examples

def hexDigit (n : Nat) : Char := Char.ofNat (if n < 10 then 48 + n else 87 + n)

/-- Lower case hexadecimal digits, as `to_hex` writes them. -/
def hexText (bytes : Bytes) : String :=
  .ofList (bytes.flatMap fun byte => [hexDigit (byte.toNat / 16), hexDigit (byte.toNat % 16)])

theorem hexText_injective : Function.Injective hexText := by
  have digits : ∀ a b : Fin 16, hexDigit a = hexDigit b → a = b := by decide
  intro bytes bytes' same
  have chars := String.ofList_injective same
  induction bytes generalizing bytes' with
  | nil =>
    cases bytes' with
    | nil => rfl
    | cons => simp at chars
  | cons byte bytes ih =>
    cases bytes' with
    | nil => simp at chars
    | cons byte' bytes' =>
      simp only [List.flatMap_cons, List.cons_append, List.nil_append, List.cons.injEq] at chars
      have bound := byte.toNat_lt
      have bound' := byte'.toNat_lt
      have high := digits ⟨byte.toNat / 16, by omega⟩ ⟨byte'.toNat / 16, by omega⟩ chars.1
      have low := digits ⟨byte.toNat % 16, by omega⟩ ⟨byte'.toNat % 16, by omega⟩ chars.2.1
      have value : byte = byte' := by
        have high := congrArg Fin.val high
        have low := congrArg Fin.val low
        dsimp only at high low
        exact UInt8.toNat_inj.mp (by omega)
      rw [value, ih (congrArg String.ofList chars.2.2) chars.2.2]

def plainLibraries : Libraries Bytes where
  json := ⟨fun _ => true, fun _ => true⟩
  hash := id
  toHex := hexText
  stringsJson strings := "[" ++ ",".intercalate (strings.map quoted) ++ "]"

def exampleWorkspace : WorkspaceRecord := ⟨"id", "w", "m", none, []⟩

def exampleInput : PublicationInput where
  workspace := exampleWorkspace
  snapshotId := "s1"
  nodes := []
  edges := []
  evidence := []
  fingerprints := []
  extractorBatches := []
  artifactDelta := none
  extractorRuns := []
  manualLinks := []
  communitySnapshot := none
  coverageGaps := []
  httpLinks := ⟨⟨0, 0, 0, 0⟩, []⟩

def exampleDb : Db where
  workspaces := [⟨"w", "m", some "id", none, none, none⟩]
  repositories := [⟨"r", none, none, none, none⟩]
  checkouts := [⟨"c", "r", quoted "unix_bytes", [], "", none, false, false⟩]

def exampleNode (id label : String) : Node := ⟨id, .service, none, id, label⟩

def exampleEvidenceItem (id : String) (confidence : F32) : Evidence :=
  ⟨id, none, none, none, none, "x", "1", .extracted, confidence, none, none, none⟩

def exampleBatch (payload : Bytes) : StoredExtractorBatch :=
  ⟨⟨"r", "c", ⟨.unixBytes, utf8 "a.rs", "a.rs"⟩, "x", "h", 1⟩, "1", "b", false, 0, payload⟩

/-- The edge `e` moves from `gone -> kept` with evidence `old` to `kept -> new`
with evidence `fresh`, while `gone` and `old` disappear. -/
def reroutedDb : Db :=
  { exampleDb with
    snapshots := [⟨"w", "s0"⟩]
    nodes := [exampleNode "gone" "a", exampleNode "kept" "b"].map (nodeRow "w")
    evidence := [exampleEvidenceItem "old" (.ofNat 1)].map (evidenceRow "w")
    edges := [edgeRow "w" ⟨"e", "gone", "kept", .consumes, .ofNat 1, .confirmed, ["old"]⟩]
    edgeEvidence := [⟨"w", "e", "old"⟩]
    batches := [batchRow "w" (hexText (utf8 "[]")) (exampleBatch (utf8 "[]"))] }

def reroutedInput : PublicationInput :=
  { exampleInput with
    nodes := [exampleNode "kept" "c", exampleNode "new" "d"]
    evidence := [exampleEvidenceItem "fresh" (.ofNat 1)]
    edges := [⟨"e", "kept", "new", .consumes, .ofNat 1, .confirmed, ["fresh"]⟩]
    extractorBatches := [exampleBatch (utf8 "[1]")] }

theorem publishCurrentGraph_refines_replacement_rerouted :
    ∃ db', publishCurrentGraph plainLibraries reroutedInput reroutedDb = .ok db' ∧
      Replaced "w" (reroutedInput.tables plainLibraries) reroutedDb db' ∧
      db'.Authentic plainLibraries "w" := by
  have succeeds : (publishCurrentGraph plainLibraries reroutedInput reroutedDb).isOk = true := by
    decide +kernel
  cases published : publishCurrentGraph plainLibraries reroutedInput reroutedDb with
  | error failure => rw [published] at succeeds; cases succeeds
  | ok db' =>
    exact ⟨db', rfl, publishCurrentGraph_refines_replacement Function.injective_id hexText_injective
      (by decide +kernel) (by decide +kernel) rfl (by decide +kernel) (by decide +kernel) published⟩

def forgedDb : Db :=
  { exampleDb with batches := [batchRow "w" (hexText (utf8 "[1]")) (exampleBatch (utf8 "[]"))] }

def forgedInput : PublicationInput :=
  { exampleInput with extractorBatches := [exampleBatch (utf8 "[1]")] }

/-- Evidence stored with a confidence that single precision does not hold. -/
def preciseDb : Db :=
  { exampleDb with
    evidence := [{ evidenceRow "w" (exampleEvidenceItem "v" .zero) with
      confidence := Binary.div (.ofNat 1) (.ofNat 10) }] }

def preciseInput : PublicationInput :=
  { exampleInput with evidence := [exampleEvidenceItem "v" (Binary.div (.ofNat 1) (.ofNat 10))] }

theorem publishCurrentGraph_keeps_foreign_rows :
    (forgedDb.WellFormed plainLibraries.json ∧ forgedInput.Coherent ∧
      forgedInput.artifactDelta = none ∧
      ∃ db', publishCurrentGraph plainLibraries forgedInput forgedDb = .ok db' ∧
        ¬Replaced "w" (forgedInput.tables plainLibraries) forgedDb db') ∧
    (preciseDb.WellFormed plainLibraries.json ∧ preciseInput.Coherent ∧
      preciseInput.artifactDelta = none ∧
      ∃ db', publishCurrentGraph plainLibraries preciseInput preciseDb = .ok db' ∧
        ¬Replaced "w" (preciseInput.tables plainLibraries) preciseDb db') := by
  refine ⟨⟨by decide +kernel, by decide +kernel, rfl, ?_⟩, by decide +kernel, by decide +kernel, rfl, ?_⟩
  · have kept : (publishCurrentGraph plainLibraries forgedInput forgedDb).toOption.map Db.batches =
        some forgedDb.batches := by decide +kernel
    cases published : publishCurrentGraph plainLibraries forgedInput forgedDb with
    | error failure => rw [published] at kept; cases kept
    | ok db' =>
      rw [published] at kept
      have batches : db'.batches = forgedDb.batches := Option.some.inj kept
      refine ⟨db', rfl, fun replaced => ?_⟩
      have exactly := replaced.batches.exactly.2
      rw [batches] at exactly
      refine absurd ((exactly (batchRow "w" (hexText (utf8 "[1]")) (exampleBatch (utf8 "[]")))).mp ?_) ?_ <;>
        decide
  · have kept : (publishCurrentGraph plainLibraries preciseInput preciseDb).toOption.map Db.evidence =
        some preciseDb.evidence := by decide +kernel
    cases published : publishCurrentGraph plainLibraries preciseInput preciseDb with
    | error failure => rw [published] at kept; cases kept
    | ok db' =>
      rw [published] at kept
      have evidence : db'.evidence = preciseDb.evidence := Option.some.inj kept
      refine ⟨db', rfl, fun replaced => ?_⟩
      have exactly := replaced.evidence.exactly.2
      rw [evidence] at exactly
      refine absurd ((exactly { evidenceRow "w" (exampleEvidenceItem "v" .zero) with
        confidence := Binary.div (.ofNat 1) (.ofNat 10) }).mp ?_) ?_ <;> decide +kernel

end Examples

end CodeSystemGraph.Store
