import CodeSystemGraph.StoreUpserts

/-! Replacement of changed edges with their evidence. An edge and its evidence
rows are reconciled as one record. -/

namespace CodeSystemGraph.Store
open Ieee Model Ordered Relational Routes

variable {Digest : Type} {lib : Libraries Digest} {workspace : String} {db db' : Db}

section Statements

theorem deleteEdge_eq_ok {id : EdgeId} (wf : db.WellFormed lib.json)
    (h : deleteEdge lib workspace db id = .ok db') :
    db' = { db with
      edges := db.edges.filter fun row => row.key ≠ (workspace, id)
      edgeEvidence := db.edgeEvidence.filter fun row => row.edgeKey ≠ (workspace, id) } ∧
      db'.WellFormed lib.json := by
  obtain ⟨rfl, holds⟩ := Db.checked_eq_ok.mp h
  have selects : ∀ row : EdgeRow, (row.workspace = workspace ∧ row.id = id) ↔
      row.key = (workspace, id) := fun row => by simp [EdgeRow.key]
  have edges : (db.edges.filter fun row => !decide (row.workspace = workspace ∧ row.id = id)) =
      db.edges.filter fun row => row.key ≠ (workspace, id) :=
    List.filter_congr fun row _ => by simp [selects]
  have evidence : (db.edgeEvidence.filter fun row => row.edgeKey ∉
      (db.edges.filter fun row => decide (row.workspace = workspace ∧ row.id = id)).map
        EdgeRow.key) = db.edgeEvidence.filter fun row => row.edgeKey ≠ (workspace, id) := by
    refine List.filter_congr fun row stored => decide_eq_decide.mpr (not_congr ?_)
    obtain ⟨edge, isEdge, same⟩ := List.mem_map.mp (wf.references.edgeEvidence row stored).1
    rw [List.mem_map]
    constructor
    · rintro ⟨gone, mem, eq⟩
      rw [← eq]
      exact (selects gone).mp (by simpa using (List.mem_filter.mp mem).2)
    · intro eq
      have selected := (selects edge).mpr (same.trans eq)
      exact ⟨edge, List.mem_filter.mpr ⟨isEdge, by simpa using selected⟩, same⟩
  refine ⟨?_, holds⟩
  dsimp only [Db.deleteEdges]
  rw [edges, evidence]

theorem deleteEdges_eq_ok {ids : List EdgeId} (wf : db.WellFormed lib.json)
    (h : ids.foldlM (deleteEdge lib workspace) db = .ok db') :
    db' = { db with
      edges := db.edges.filter fun row => row.key ∉ ids.map fun id => (workspace, id)
      edgeEvidence := db.edgeEvidence.filter fun row =>
        row.edgeKey ∉ ids.map fun id => (workspace, id) } ∧
      db'.WellFormed lib.json := by
  induction ids generalizing db with
  | nil =>
    obtain rfl := Except.ok.inj h
    simp [wf]
  | cons id ids ih =>
    rw [List.foldlM_cons] at h
    obtain ⟨db₁, deleted, rest⟩ := bind_eq_ok.mp h
    obtain ⟨rfl, wf₁⟩ := deleteEdge_eq_ok wf deleted
    obtain ⟨rfl, wf'⟩ := ih wf₁ rest
    refine ⟨?_, wf'⟩
    simp only [List.filter_filter, List.map_cons]
    congr 1
    · refine List.filter_congr fun row _ => ?_
      rw [Bool.eq_iff_iff]
      simp [and_comm]
    · refine List.filter_congr fun row _ => ?_
      rw [Bool.eq_iff_iff]
      simp [and_comm]

theorem insertEdgeEvidence_eq_ok {rows : List EdgeEvidenceRow} (wf : db.WellFormed lib.json)
    (h : rows.foldlM (insertEdgeEvidence lib) db = .ok db') :
    db' = { db with edgeEvidence := db.edgeEvidence ++ rows } ∧ db'.WellFormed lib.json := by
  induction rows generalizing db with
  | nil =>
    obtain rfl := Except.ok.inj h
    simp [wf]
  | cons row rows ih =>
    rw [List.foldlM_cons] at h
    obtain ⟨db₁, inserted, rest⟩ := bind_eq_ok.mp h
    obtain ⟨rfl, wf₁⟩ := Db.checked_eq_ok.mp inserted
    obtain ⟨rfl, wf'⟩ := ih wf₁ rest
    exact ⟨by simp, wf'⟩

/-- Evidence rows with those of one edge replaced. -/
def replaceEvidence (workspace : String) (rows : List EdgeEvidenceRow) (edge : Edge) :
    List EdgeEvidenceRow :=
  (rows.filter fun row => row.edgeKey ≠ (workspace, edge.id)) ++ edgeEvidenceRows workspace edge

/-- Written with or without a delete first, an edge ends as the only one under its key. -/
theorem writeEdge_eq_ok {edge : Edge} {existed : Bool} (wf : db.WellFormed lib.json)
    (h : writeEdge lib workspace db edge existed = .ok db') :
    db' = { db with
      edges := replace EdgeRow.key db.edges (edgeRow workspace edge)
      edgeEvidence := replaceEvidence workspace db.edgeEvidence edge } ∧
      db'.WellFormed lib.json := by
  obtain ⟨db₁, cleared, rest⟩ := bind_eq_ok.mp h
  obtain ⟨db₂, inserted, rest⟩ := bind_eq_ok.mp rest
  obtain ⟨rfl, wf₂⟩ := Db.checked_eq_ok.mp inserted
  obtain ⟨rfl, wf'⟩ := insertEdgeEvidence_eq_ok wf₂ rest
  refine ⟨?_, wf'⟩
  have cleared : db₁ = { db with
      edges := db.edges.filter fun row => row.key ≠ (workspace, edge.id)
      edgeEvidence := db.edgeEvidence.filter fun row => row.edgeKey ≠ (workspace, edge.id) } := by
    cases existed with
    | true => exact (deleteEdge_eq_ok wf (by simpa using cleared)).1
    | false =>
      obtain rfl : db = db₁ := by simpa using cleared
      -- the insert succeeded, so nothing was stored under the key
      have nodup : (db.edges.map EdgeRow.key ++ [(workspace, edge.id)]).Nodup := by
        have keys := wf₂.keys.edges
        simpa [Db.edgeKeys, EdgeRow.key, edgeRow] using keys
      have fresh : (workspace, edge.id) ∉ db.edgeKeys := by
        intro mem
        exact (List.nodup_append.mp nodup).2.2 _ mem _ List.mem_cons_self rfl
      have edges : (db.edges.filter fun row => row.key ≠ (workspace, edge.id)) = db.edges := by
        refine List.filter_eq_self.mpr fun row stored => ?_
        have differ : row.key ≠ (workspace, edge.id) := fun same =>
          fresh (List.mem_map.mpr ⟨row, stored, same⟩)
        simpa using differ
      have evidence : (db.edgeEvidence.filter fun row => row.edgeKey ≠ (workspace, edge.id)) =
          db.edgeEvidence := by
        refine List.filter_eq_self.mpr fun row stored => ?_
        have differ : row.edgeKey ≠ (workspace, edge.id) := fun same =>
          fresh (same ▸ (wf.references.edgeEvidence row stored).1)
        simpa using differ
      rw [edges, evidence]
  rw [cleared]
  rfl

theorem writeEdges_eq_ok {changed : List (Edge × Bool)} (wf : db.WellFormed lib.json)
    (h : changed.foldlM (fun db (edge, existed) => writeEdge lib workspace db edge existed) db =
      .ok db') :
    db' = { db with
      edges := (changed.map fun change => edgeRow workspace change.1).foldl (replace EdgeRow.key)
        db.edges
      edgeEvidence := (changed.map Prod.fst).foldl (replaceEvidence workspace) db.edgeEvidence } ∧
      db'.WellFormed lib.json := by
  induction changed generalizing db with
  | nil =>
    obtain rfl := Except.ok.inj h
    exact ⟨rfl, wf⟩
  | cons change changed ih =>
    rw [List.foldlM_cons] at h
    obtain ⟨db₁, written, rest⟩ := bind_eq_ok.mp h
    obtain ⟨rfl, wf₁⟩ := writeEdge_eq_ok wf written
    obtain ⟨rfl, wf'⟩ := ih wf₁ rest
    exact ⟨rfl, wf'⟩

end Statements

section View

def evidenceAt (workspace : String) (id : EdgeId) (rows : List EdgeEvidenceRow) : List EvidenceId :=
  (rows.filter fun row => row.edgeKey = (workspace, id)).map (·.evidenceId)

theorem storedEdgeEvidence_eq (id : EdgeId) :
    storedEdgeEvidence workspace db id = sortBy (·) (evidenceAt workspace id db.edgeEvidence) := by
  have selects : (db.edgeEvidence.filter fun row => row.workspace = workspace).filter
      (fun row => row.edgeId = id) =
      db.edgeEvidence.filter fun row => row.edgeKey = (workspace, id) := by
    rw [List.filter_filter]
    refine List.filter_congr fun row _ => ?_
    rw [Bool.eq_iff_iff]
    simp [EdgeEvidenceRow.edgeKey, and_comm]
  have perm : (storedEdgeEvidence workspace db id).Perm
      (sortBy (·) (evidenceAt workspace id db.edgeEvidence)) := by
    refine List.Perm.trans ?_ (sortBy_perm _ _).symm
    rw [evidenceAt, ← selects]
    exact ((sortBy_perm _ _).filter _).map _
  have sorted : (storedEdgeEvidence workspace db id).Pairwise (· ≤ ·) := by
    refine List.pairwise_map.mpr ((List.Pairwise.filter _ (sortBy_sorted _ _)).imp_of_mem ?_)
    intro a b ha hb le
    have sameA : a.edgeId = id := by simpa using (List.mem_filter.mp ha).2
    have sameB : b.edgeId = id := by simpa using (List.mem_filter.mp hb).2
    rcases Prod.Lex.le_iff.mp le with lt | ⟨-, le⟩
    · exact absurd lt (by simp [sameA, sameB])
    · exact le
  exact List.Perm.eq_of_pairwise (fun a b _ _ ab ba => le_antisymm ab ba) sorted
    (sortBy_sorted _ _) perm

def edgeView (workspace : String) (db : Db) (id : EdgeId) : Option (EdgeRow × List EvidenceId) :=
  (lookup EdgeRow.key (workspace, id) db.edges).map fun row =>
    (row, storedEdgeEvidence workspace db id)

def candidateView (workspace : String) (edge : Edge) : EdgeRow × List EvidenceId :=
  (edgeRow workspace edge, sortBy (·) edge.evidence)

def viewDigest (lib : Libraries Digest) (view : EdgeRow × List EvidenceId) : Digest :=
  digestOf lib (edgeParts view.1.sourceNodeId view.1.targetNodeId view.1.kind
    (narrow view.1.confidence) view.1.epistemicStatus view.2)

theorem storedEdges_lookup (id : EdgeId) :
    (storedEdges lib workspace db).lookup id = (edgeView workspace db id).map (viewDigest lib) := by
  have loaded := load_lookup EdgeRow.key (fun row => viewDigest lib
    (row, storedEdgeEvidence workspace db row.id)) workspace db.edges id
  refine loaded.trans ?_
  rw [edgeView, Option.map_map]
  refine Option.map_congr fun row found => ?_
  have same : row.id = id := (Prod.mk.inj (lookup_eq_some found).2).2
  simp [same]

theorem evidenceAt_foldl {edges : List Edge} (distinct : (edges.map (·.id)).Nodup)
    (rows : List EdgeEvidenceRow) (id : EdgeId) :
    evidenceAt workspace id (edges.foldl (replaceEvidence workspace) rows) =
      ((lookup (·.id) id edges).map (·.evidence)).getD (evidenceAt workspace id rows) := by
  induction edges generalizing rows with
  | nil => rfl
  | cons edge edges ih =>
    rw [List.map_cons, List.nodup_cons] at distinct
    rw [List.foldl_cons, ih distinct.2, lookup_cons]
    by_cases same : edge.id = id
    · have absent : lookup (·.id) id edges = none :=
        lookup_eq_none.mpr fun other mem eq =>
          distinct.1 (List.mem_map.mpr ⟨other, mem, eq.trans same.symm⟩)
      have kept : (edgeEvidenceRows workspace edge).filter
          (fun row => row.edgeKey = (workspace, id)) = edgeEvidenceRows workspace edge := by
        refine List.filter_eq_self.mpr fun row mem => ?_
        obtain ⟨evidenceId, -, rfl⟩ := List.mem_map.mp mem
        simp [EdgeEvidenceRow.edgeKey, same]
      have others : (rows.filter fun row => row.edgeKey ≠ (workspace, edge.id)).filter
          (fun row => row.edgeKey = (workspace, id)) = [] := by
        rw [List.filter_filter, List.filter_eq_nil_iff]
        intro row _
        simp [same]
      rw [absent, evidenceAt, replaceEvidence, List.filter_append, kept, others]
      simp [same, edgeEvidenceRows, Function.comp_def]
    · have unchanged : evidenceAt workspace id (replaceEvidence workspace rows edge) =
          evidenceAt workspace id rows := by
        have none : (edgeEvidenceRows workspace edge).filter
            (fun row => row.edgeKey = (workspace, id)) = [] := by
          refine List.filter_eq_nil_iff.mpr fun row mem => ?_
          obtain ⟨evidenceId, -, rfl⟩ := List.mem_map.mp mem
          simp [EdgeEvidenceRow.edgeKey, same]
        rw [evidenceAt, replaceEvidence, List.filter_append, none, List.append_nil,
          List.filter_filter, evidenceAt]
        congr 1
        refine List.filter_congr fun row _ => ?_
        by_cases here : row.edgeKey = (workspace, id)
        · simp [here, Ne.symm same]
        · simp [here]
      rw [unchanged]
      simp [same]

end View

section Replace

theorem view_faithful (collisionFree : Function.Injective lib.hash)
    (fits : ∀ row ∈ db.edges,
      Sized [row.sourceNodeId, row.targetNodeId, row.kind, row.epistemicStatus])
    (storedFits : ∀ row ∈ db.edgeEvidence, Sized [row.evidenceId])
    (stored : ∀ row ∈ db.edges, row.workspace = workspace →
      row.confidence = realColumn (narrow row.confidence))
    {edge : Edge} (fits' : Sized [(edgeRow workspace edge).sourceNodeId,
      (edgeRow workspace edge).targetNodeId, (edgeRow workspace edge).kind,
      (edgeRow workspace edge).epistemicStatus])
    (evidenceFits : Sized edge.evidence) {view : EdgeRow × List EvidenceId}
    (found : edgeView workspace db edge.id = some view)
    (same : edgeDigest lib edge = viewDigest lib view) : view = candidateView workspace edge := by
  obtain ⟨row, isRow, rfl⟩ := Option.map_eq_some_iff.mp found
  obtain ⟨mem, key⟩ := lookup_eq_some isRow
  have listFits : Sized (storedEdgeEvidence workspace db edge.id) := by
    intro text listed
    rw [storedEdgeEvidence_eq, mem_sortBy] at listed
    obtain ⟨evidence, inTable, rfl⟩ := List.mem_map.mp listed
    exact storedFits evidence (List.mem_filter.mp inTable).1 _ List.mem_cons_self
  obtain ⟨rowEq, evidenceEq⟩ := edge_faithful collisionFree key
    (stored row mem (congrArg Prod.fst key)) (fits row mem) listFits fits' evidenceFits same
  exact Prod.ext rowEq evidenceEq

theorem foldl_concat {α β : Type} (f : α → β) (l : List α) (acc : List β) :
    l.foldl (fun acc a => acc ++ [f a]) acc = acc ++ l.map f := by
  induction l generalizing acc with
  | nil => simp
  | cons a l ih => simp [ih]

theorem evidenceAt_filter (gone : List (String × EdgeId)) (id : EdgeId)
    (rows : List EdgeEvidenceRow) :
    evidenceAt workspace id (rows.filter fun row => row.edgeKey ∉ gone) =
      if (workspace, id) ∈ gone then [] else evidenceAt workspace id rows := by
  unfold evidenceAt
  rw [List.filter_filter]
  split
  · next isGone =>
    rw [List.map_eq_nil_iff, List.filter_eq_nil_iff]
    intro row _
    by_cases here : row.edgeKey = (workspace, id) <;> simp [here, isGone]
  · next kept =>
    congr 1
    refine List.filter_congr fun row _ => ?_
    by_cases here : row.edgeKey = (workspace, id) <;> simp [here, kept]

/-- The edges after deleting some keys and writing the changed ones. -/
def writtenEdges (workspace : String) (gone : List (String × EdgeId)) (changed : List Edge)
    (rows : List EdgeRow) : List EdgeRow :=
  (changed.map (edgeRow workspace)).foldl (replace EdgeRow.key)
    (rows.filter fun row => row.key ∉ gone)

def writtenEvidence (workspace : String) (gone : List (String × EdgeId)) (changed : List Edge)
    (rows : List EdgeEvidenceRow) : List EdgeEvidenceRow :=
  changed.foldl (replaceEvidence workspace) (rows.filter fun row => row.edgeKey ∉ gone)

theorem edgeView_written {gone : List (String × EdgeId)} {changed : List Edge}
    (distinct : (changed.map (·.id)).Nodup) (id : EdgeId) :
    edgeView workspace { db with
      edges := writtenEdges workspace gone changed db.edges
      edgeEvidence := writtenEvidence workspace gone changed db.edgeEvidence } id =
      ((lookup (·.id) id changed).map (candidateView workspace)).or
        (if (workspace, id) ∈ gone then none else edgeView workspace db id) := by
  have keys : ∀ edge : Edge, (edgeRow workspace edge).key = (workspace, id) ↔ edge.id = id :=
    fun edge => by simp [EdgeRow.key, edgeRow]
  have nodup : ((changed.map (edgeRow workspace)).map EdgeRow.key).Nodup := by
    refine List.Nodup.of_map Prod.snd ?_
    rwa [List.map_map, List.map_map]
  have edges : lookup EdgeRow.key (workspace, id) (writtenEdges workspace gone changed db.edges) =
      ((lookup (·.id) id changed).map (edgeRow workspace)).or
        (if (workspace, id) ∈ gone then none
          else lookup EdgeRow.key (workspace, id) db.edges) := by
    rw [writtenEdges, lookup_foldl lookup_replace nodup, lookup_map keys,
      lookup_filter fun key => decide (key ∉ gone)]
    by_cases isGone : (workspace, id) ∈ gone <;> simp [isGone]
  have evidence := @evidenceAt_foldl workspace _ distinct
    (db.edgeEvidence.filter fun row => row.edgeKey ∉ gone) id
  rw [evidenceAt_filter] at evidence
  rw [edgeView, edges, storedEdgeEvidence_eq, writtenEvidence, evidence]
  cases lookup (·.id) id changed with
  | some edge => rfl
  | none =>
    by_cases isGone : (workspace, id) ∈ gone
    · simp [isGone]
    · simp [isGone, edgeView, storedEdgeEvidence_eq]

theorem writtenEdges_others {gone : List (String × EdgeId)}
    (scope : ∀ key ∈ gone, key.1 = workspace) (changed : List Edge) (rows : List EdgeRow) :
    ((writtenEdges workspace gone changed rows).filter fun row => row.workspace ≠ workspace) =
      rows.filter fun row => row.workspace ≠ workspace := by
  have kept : ((rows.filter fun row => row.key ∉ gone).filter fun row =>
      row.workspace ≠ workspace) = rows.filter fun row => row.workspace ≠ workspace := by
    rw [List.filter_filter]
    refine List.filter_congr fun row _ => ?_
    by_cases here : row.workspace = workspace
    · simp [here]
    · have kept : row.key ∉ gone := fun mem => here (scope _ mem)
      simp [here, kept]
  rw [writtenEdges, ← kept]
  refine filter_foldl (fun row mem table => filter_replace (fun other same => ?_) table) _
  obtain ⟨edge, -, rfl⟩ := List.mem_map.mp mem
  have here : other.workspace = workspace := (Prod.mk.inj same).1
  simp [here]

theorem writtenEvidence_others {gone : List (String × EdgeId)}
    (scope : ∀ key ∈ gone, key.1 = workspace) (changed : List Edge) (rows : List EdgeEvidenceRow) :
    ((writtenEvidence workspace gone changed rows).filter fun row => row.workspace ≠ workspace) =
      rows.filter fun row => row.workspace ≠ workspace := by
  have kept : ((rows.filter fun row => row.edgeKey ∉ gone).filter fun row =>
      row.workspace ≠ workspace) = rows.filter fun row => row.workspace ≠ workspace := by
    rw [List.filter_filter]
    refine List.filter_congr fun row _ => ?_
    by_cases here : row.workspace = workspace
    · simp [here]
    · have kept : row.edgeKey ∉ gone := fun mem => here (scope _ mem)
      simp [here, kept]
  rw [writtenEvidence, ← kept]
  refine filter_foldl (fun edge _ table => ?_) _
  have none : (edgeEvidenceRows workspace edge).filter (fun row => row.workspace ≠ workspace) =
      [] := by
    refine List.filter_eq_nil_iff.mpr fun row mem => ?_
    obtain ⟨evidenceId, -, rfl⟩ := List.mem_map.mp mem
    simp
  rw [replaceEvidence, List.filter_append, none, List.append_nil, List.filter_filter]
  refine List.filter_congr fun row _ => ?_
  by_cases here : row.workspace = workspace
  · simp [here]
  · simp [here, EdgeEvidenceRow.edgeKey]

variable [DecidableEq Digest]

theorem changedEdges_eq {edges : List Edge} {stored : List (EdgeId × Digest)}
    {changed : List (Edge × Bool)}
    (h : (changes Edge.id (fun edge => .ok (edgeDigest lib edge) : Edge → Except StoreError Digest)
      edges stored).foldlM (fun (changed : List (Edge × Bool)) change =>
        (.ok (changed ++ [(change.2, change.1.isSome)]) : Except StoreError _)) [] = .ok changed) :
    changed = (changes Edge.id (fun edge => .ok (edgeDigest lib edge) :
      Edge → Except StoreError Digest) edges stored).map
        fun change => (change.2, change.1.isSome) := by
  have folded := foldlM_eq_foldl (fun _ _ _ step => (Except.ok.inj step).symm) h
  rwa [foldl_concat (fun change : Option Digest × Edge => (change.2, change.1.isSome)),
    List.nil_append] at folded

theorem replaceChangedEdges_eq_ok {edges : List Edge} (wf : db.WellFormed lib.json)
    (distinct : (edges.map (·.id)).Nodup)
    (faithful : ∀ edge ∈ edges, ∀ view, edgeView workspace db edge.id = some view →
      edgeDigest lib edge = viewDigest lib view → view = candidateView workspace edge)
    (h : replaceChangedEdges lib workspace edges db = .ok db') :
    (∃ edgeTable evidenceTable,
      db' = { db with edges := edgeTable, edgeEvidence := evidenceTable }) ∧
      db'.WellFormed lib.json ∧
      (∀ id, edgeView workspace db' id =
        (lookup (·.id) id edges).map (candidateView workspace)) ∧
      (db'.edges.filter fun row => row.workspace ≠ workspace) =
        (db.edges.filter fun row => row.workspace ≠ workspace) ∧
      (db'.edgeEvidence.filter fun row => row.workspace ≠ workspace) =
        db.edgeEvidence.filter fun row => row.workspace ≠ workspace := by
  obtain ⟨⟨collected, left⟩, passed, rest⟩ := bind_eq_ok.mp h
  obtain ⟨db₁, deleted, written⟩ := bind_eq_ok.mp rest
  obtain ⟨pass, rfl, digests⟩ := reconcile_eq_ok Edge.id _ distinct passed
  obtain rfl := changedEdges_eq pass
  obtain ⟨rfl, wf₁⟩ := deleteEdges_eq_ok wf deleted
  obtain ⟨is, wf'⟩ := writeEdges_eq_ok wf₁ written
  let digest : Edge → Except StoreError Digest := fun edge => .ok (edgeDigest lib edge)
  let stored := storedEdges lib workspace db
  let changed := (changes Edge.id digest edges stored).map Prod.snd
  let gone := (sortedKeys (stored.filter fun entry => entry.1 ∉ edges.map Edge.id)).map
    fun id => (workspace, id)
  have distinctChanged : (changed.map Edge.id).Nodup :=
    ((changes_sublist Edge.id digest edges stored).map Edge.id).nodup distinct
  have result : db' = { db with
      edges := writtenEdges workspace gone changed db.edges
      edgeEvidence := writtenEvidence workspace gone changed db.edgeEvidence } := by
    rw [is, List.map_map, List.map_map]
    simp only [writtenEdges, writtenEvidence, changed, List.map_map]
    rfl
  have scope : ∀ key ∈ gone, key.1 = workspace := by
    intro key mem
    obtain ⟨_, -, rfl⟩ := List.mem_map.mp mem
    rfl
  have goneIff : ∀ id, (workspace, id) ∈ gone ↔
      id ∈ stored.map Prod.fst ∧ id ∉ edges.map Edge.id := by
    intro id
    have claimed : (workspace, id) ∈ gone ↔ id ∈ sortedKeys (stored.filter fun entry =>
        entry.1 ∉ edges.map Edge.id) := by simp [gone]
    rw [claimed, sortedKeys, mem_sortBy]
    simp only [List.mem_map, List.mem_filter, decide_eq_true_eq]
    constructor
    · rintro ⟨entry, ⟨mem, outside⟩, rfl⟩
      exact ⟨⟨entry, mem, rfl⟩, outside⟩
    · rintro ⟨⟨entry, mem, rfl⟩, outside⟩
      exact ⟨entry, ⟨mem, outside⟩, rfl⟩
  refine ⟨⟨_, _, result⟩, wf', ?_, ?_, ?_⟩
  · refine reconciled Edge.id digest distinct storedEdges_lookup digests
      (fun edge mem view found same => faithful edge mem view found (Except.ok.inj same))
      (fun id => ?_)
    rw [result, edgeView_written distinctChanged,
      lookup_map (fun change : Option Digest × Edge => (Iff.rfl : change.2.id = id ↔ _)),
      Option.map_map]
    refine congrArg₂ Option.or rfl ?_
    by_cases claimed : id ∈ edges.map Edge.id
    · have kept : (workspace, id) ∉ gone := fun mem => ((goneIff id).mp mem).2 claimed
      rw [if_neg kept, if_pos claimed]
    · rw [if_neg claimed]
      split
      · rfl
      · next kept =>
        -- stored and unclaimed would have been left over
        have absent : id ∉ stored.map Prod.fst := fun mem => kept ((goneIff id).mpr ⟨mem, claimed⟩)
        have loaded := @storedEdges_lookup _ lib workspace db id
        rw [List.lookup_eq_none_iff.mpr fun entry mem => ?_] at loaded
        · exact Option.map_eq_none_iff.mp loaded.symm
        · have differ : id ≠ entry.1 := fun same => absent (List.mem_map.mpr ⟨entry, mem, same.symm⟩)
          simpa using differ
  · rw [result]
    exact writtenEdges_others scope changed db.edges
  · rw [result]
    exact writtenEvidence_others scope changed db.edgeEvidence

end Replace

end CodeSystemGraph.Store
