import CodeSystemGraph.StoreRefinement
import CodeSystemGraph.Text

/-! What a graph has to satisfy before it is published, against what the tables of nodes,
evidence, edges and their evidence demand. Columns that are `NOT NULL` have types without a
null; the other constraints are those of `Db.WellFormed`. -/

namespace CodeSystemGraph.Store
open Ieee Model Ordered Relational Text

section Validation

variable {ε α K : Type} [DecidableEq K]

/-- A loop that inserts each key into a set, with an error at a key that is already there,
and then checks the item. -/
def eachDistinct (key : α → K) (duplicate : α → ε) (check : α → Except ε Unit) (seen : List K) :
    List α → Except ε Unit
  | [] => .ok ()
  | item :: rest => do
    ensure (key item ∉ seen) (duplicate item)
    check item
    eachDistinct key duplicate check (key item :: seen) rest

theorem eachDistinct_eq_ok {key : α → K} {duplicate : α → ε} {check : α → Except ε Unit} {u : Unit} :
    ∀ {items : List α} {seen : List K},
      eachDistinct key duplicate check seen items = .ok u ↔
        (items.map key).Nodup ∧ ∀ item ∈ items, key item ∉ seen ∧ check item = .ok () := by
  intro items
  induction items with
  | nil => intro seen; simp [eachDistinct]
  | cons item items ih =>
    intro seen
    rw [List.forall_mem_cons]
    simp only [eachDistinct, bind_eq_ok, ensure_eq_ok, decide_eq_true_eq, ih, List.map_cons,
      List.nodup_cons, List.mem_cons, not_or]
    constructor
    · rintro ⟨⟨⟩, fresh, ⟨⟩, passed, nodup, rest⟩
      refine ⟨⟨fun mem => ?_, nodup⟩, ⟨fresh, passed⟩, fun other mem => ?_⟩
      · obtain ⟨other, mem, same⟩ := List.mem_map.1 mem
        exact (rest other mem).1.1 same
      · exact ⟨(rest other mem).1.2, (rest other mem).2⟩
    · rintro ⟨⟨new, nodup⟩, ⟨fresh, passed⟩, rest⟩
      refine ⟨(), fresh, (), passed, nodup, fun other mem => ⟨⟨?_, (rest other mem).1⟩, (rest other mem).2⟩⟩
      exact fun same => new (same ▸ List.mem_map_of_mem mem)

end Validation

section Graph

def maxMetadataBytes : Nat := 65536

def validateMetadata (field value : String) : Except StoreError Unit := do
  ensure (value.utf8ByteSize ≤ maxMetadataBytes)
    (.invalidGraphSnapshot (field ++ " exceeds 65536 bytes"))
  ensure (!containsUnsafeMetadataCharacters value)
    (.invalidGraphSnapshot (field ++ " contains unsafe control or bidirectional characters"))

def validateNode (node : Node) : Except StoreError Unit := do
  validateMetadata "node identifier" node.id
  validateMetadata "node stable key" node.stableKey
  validateMetadata "node label" node.label

def validateOptional (field : String) : Option String → Except StoreError Unit
  | none => .ok ()
  | some value => validateMetadata field value

def linesReversed (item : Evidence) : Bool :=
  item.startLine.any fun first => item.endLine.any fun last => last < first

def validateEvidence (item : Evidence) : Except StoreError Unit := do
  validateMetadata "evidence identifier" item.id
  validateMetadata "evidence extractor" item.extractor
  validateMetadata "evidence extractor version" item.extractorVersion
  validateOptional "evidence file path" item.filePath
  validateOptional "evidence observed commit" item.observedAtCommit
  validateOptional "evidence content hash" item.contentHash
  validateOptional "evidence note" item.note
  ensure (unitInterval item.confidence)
    (.invalidGraphSnapshot "evidence confidence must be finite and between zero and one")
  ensure (!linesReversed item) (.invalidGraphSnapshot "evidence line range is reversed")

def validateEdge (nodeIds : List NodeId) (evidenceIds : List EvidenceId) (edge : Edge) :
    Except StoreError Unit := do
  validateMetadata "edge identifier" edge.id
  ensure (edge.source ∈ nodeIds && edge.target ∈ nodeIds)
    (.invalidGraphSnapshot ("edge `" ++ edge.id ++ "` references a missing node"))
  ensure (unitInterval edge.confidence)
    (.invalidGraphSnapshot ("edge `" ++ edge.id ++ "` has invalid confidence"))
  eachDistinct id
    (fun evidenceId => .invalidGraphSnapshot
      ("edge `" ++ edge.id ++ "` repeats evidence `" ++ evidenceId ++ "`"))
    (fun evidenceId => ensure (evidenceId ∈ evidenceIds)
      (.invalidGraphSnapshot ("edge `" ++ edge.id ++ "` references missing evidence")))
    [] edge.evidence

def validateGraphSnapshot (nodes : List Node) (edges : List Edge) (evidence : List Evidence) :
    Except StoreError Unit := do
  eachDistinct Node.id
    (fun node => .invalidGraphSnapshot ("duplicate node identifier `" ++ node.id ++ "`"))
    validateNode [] nodes
  eachDistinct Evidence.id
    (fun item => .invalidGraphSnapshot ("duplicate evidence identifier `" ++ item.id ++ "`"))
    validateEvidence [] evidence
  eachDistinct Edge.id
    (fun edge => .invalidGraphSnapshot ("duplicate edge identifier `" ++ edge.id ++ "`"))
    (validateEdge (nodes.map Node.id) (evidence.map Evidence.id)) [] edges

/-- What the publication needs of an accepted graph. -/
structure Accepted (nodes : List Node) (edges : List Edge) (evidence : List Evidence) : Prop where
  nodeIds : (nodes.map Node.id).Nodup
  evidenceIds : (evidence.map Evidence.id).Nodup
  edgeIds : (edges.map Edge.id).Nodup
  item : ∀ item ∈ evidence, unitInterval item.confidence = true ∧ linesReversed item = false
  ends : ∀ edge ∈ edges, edge.source ∈ nodes.map Node.id ∧ edge.target ∈ nodes.map Node.id
  confidence : ∀ edge ∈ edges, unitInterval edge.confidence = true
  supported : ∀ edge ∈ edges, edge.evidence.Nodup ∧
    ∀ evidenceId ∈ edge.evidence, evidenceId ∈ evidence.map Evidence.id

theorem validateGraphSnapshot_accepted {nodes : List Node} {edges : List Edge}
    {evidence : List Evidence} (valid : validateGraphSnapshot nodes edges evidence = .ok ()) :
    Accepted nodes edges evidence := by
  simp only [validateGraphSnapshot, bind_eq_ok, eachDistinct_eq_ok] at valid
  obtain ⟨⟨⟩, ⟨nodes', -⟩, ⟨⟩, ⟨evidence', items⟩, edges', each⟩ := valid
  constructor
  case nodeIds => exact nodes'
  case evidenceIds => exact evidence'
  case edgeIds => exact edges'
  case item =>
    intro item mem
    have passed := (items item mem).2
    simp only [validateEvidence, bind_eq_ok, ensure_eq_ok, Bool.not_eq_true'] at passed
    obtain ⟨-, -, -, -, -, -, -, -, -, -, -, -, -, -, -, unit, lines⟩ := passed
    exact ⟨unit, lines⟩
  all_goals
    intro edge mem
    have passed := (each edge mem).2
    simp only [validateEdge, bind_eq_ok, ensure_eq_ok, eachDistinct_eq_ok, Bool.and_eq_true,
      decide_eq_true_eq, List.map_id] at passed
    obtain ⟨-, -, -, ends, -, unit, distinct, known⟩ := passed
  case ends => exact ends
  case confidence => exact unit
  case supported => exact ⟨distinct, fun evidenceId mem => (known evidenceId mem).2⟩

end Graph

section Columns

theorem mul_two_pow_le {m a : Nat} (b : Nat) (small : m ≤ 2 ^ a) : m * 2 ^ b ≤ 2 ^ (a + b) := by
  rw [Nat.pow_add]
  exact Nat.mul_le_mul_right _ small

theorem magnitude_one : (Binary.ofNat 1 : F32).value = ((2 ^ 149 : Nat) : Int) ∧
    (Binary.ofNat 1 : F64).value = ((2 ^ (149 + 925) : Nat) : Int) ∧
    (Binary.ofNat 1 : F64).isNan = false := by
  decide +kernel

theorem unitReal_realColumn {x : F32} (unit : Model.unitInterval x = true) :
    unitReal (realColumn x) = true := by
  simp only [Model.unitInterval, Binary.le, Bool.and_eq_true, Bool.not_eq_true', decide_eq_true_eq] at unit
  obtain ⟨finite, ⟨⟨-, notNan⟩, low⟩, -, high⟩ := unit
  obtain ⟨wide, magnitude, negative⟩ := widen_magnitude finite
  have units : Binary.scale ⟨11, 52⟩ - Binary.scale ⟨8, 23⟩ = 925 := by decide
  rw [units] at magnitude
  unfold realColumn
  by_cases zero : (widen x).magnitude = 0
  · rw [if_pos zero]
    decide +kernel
  · rw [if_neg zero]
    have notNan' : (widen x).isNan = false := decide_eq_false (Nat.lt_asymm (of_decide_eq_true wide))
    have start : (Binary.zero : F32).value = 0 := by decide +kernel
    have start' : (Binary.zero : F64).value = 0 ∧ (Binary.zero : F64).isNan = false := by decide +kernel
    obtain ⟨one, one', finiteOne⟩ := magnitude_one
    rw [start] at low
    rw [one] at high
    have positive : x.negative = false := by
      by_contra sign
      rw [Bool.not_eq_false] at sign
      rw [Binary.value, sign, if_pos rfl] at low
      have nothing : x.magnitude = 0 := by omega
      exact zero (by rw [magnitude, nothing, Nat.zero_mul])
    rw [Binary.value, positive, if_neg Bool.false_ne_true] at high
    have value : (widen x).value = (x.magnitude * 2 ^ 925 : Nat) := by
      rw [Binary.value, negative, positive, if_neg Bool.false_ne_true, magnitude]
    have bound : x.magnitude * 2 ^ 925 ≤ 2 ^ (149 + 925) := by
      have small : x.magnitude ≤ 2 ^ 149 := Int.ofNat_le.1 high
      exact mul_two_pow_le 925 small
    simp only [unitReal, Binary.le, notNan', start', finiteOne, one', value, Bool.not_false,
      Bool.true_and, Bool.and_eq_true, decide_eq_true_eq]
    exact ⟨Int.natCast_nonneg _, Int.ofNat_le.2 bound⟩

theorem lineColumn_toInt (line : UInt32) : (Int64.ofNat line.toNat).toInt = line.toNat := by
  have small := line.toNat_lt
  exact Int64.toInt_ofNat_of_lt (by omega)

theorem linesValid_iff {workspace : String} {item : Evidence} :
    (evidenceRow workspace item).linesValid = true ↔
      linesReversed item = false ∧ item.startLine ≠ some 0 ∧ item.endLine ≠ some 0 := by
  have positive : ∀ line : UInt32, 0 < Int64.ofNat line.toNat ↔ line ≠ 0 := by
    intro line
    rw [Int64.lt_iff_toInt_lt, lineColumn_toInt, ne_eq, ← UInt32.toNat_inj]
    simp only [Int64.toInt_zero, UInt32.toNat_zero]
    omega
  have ordered : ∀ first last : UInt32,
      Int64.ofNat first.toNat ≤ Int64.ofNat last.toNat ↔ ¬last < first := by
    intro first last
    rw [Int64.le_iff_toInt_le, lineColumn_toInt, lineColumn_toInt, UInt32.lt_iff_toNat_lt]
    omega
  simp only [EvidenceRow.linesValid, evidenceRow, linesReversed]
  cases item.startLine with
  | none =>
    cases item.endLine with
    | none => simp
    | some last => simp [positive]
  | some first =>
    cases item.endLine with
    | none => simp [positive]
    | some last =>
      simp only [Option.map_some, Option.all_some, Option.any_some, Bool.and_eq_true,
        decide_eq_true_eq, positive, ordered, decide_eq_false_iff_not, ne_eq, Option.some.injEq]
      constructor
      · rintro ⟨first, last, order⟩
        exact ⟨order, first, last⟩
      · rintro ⟨order, first, last⟩
        exact ⟨first, last, order⟩

end Columns

section Tables

variable {Row K : Type} [DecidableEq K] {key : Row → K}

theorem map_key_put (table : List Row) (row : Row) :
    (put key table row).map key =
      if key row ∈ table.map key then table.map key else table.map key ++ [key row] := by
  have found : (lookup key (key row) table).isSome = true ↔ key row ∈ table.map key := by
    rw [lookup, List.find?_isSome, List.mem_map]
    simp
  unfold put
  by_cases known : key row ∈ table.map key
  · rw [if_pos (found.2 known), if_pos known, List.map_map]
    refine List.map_congr_left fun other _ => ?_
    rw [Function.comp_apply]
    split
    · next same => exact same.symm
    · rfl
  · rw [if_neg (fun some => known (found.1 some)), if_neg known, List.map_append, List.map_singleton]

theorem nodup_put {table : List Row} (nodup : (table.map key).Nodup) (row : Row) :
    ((put key table row).map key).Nodup := by
  rw [map_key_put]
  split
  · exact nodup
  · next fresh => exact List.nodup_append.2 ⟨nodup, List.nodup_singleton _, by
      intro a mem b single same
      rw [List.mem_singleton.1 single] at same
      exact fresh (same ▸ mem)⟩

theorem keys_subset_put (table : List Row) (row : Row) :
    table.map key ⊆ (put key table row).map key := by
  rw [map_key_put]
  split
  · exact List.Subset.refl _
  · exact List.subset_append_left _ _

theorem mem_put {table : List Row} {row other : Row} (mem : other ∈ put key table row) :
    other = row ∨ other ∈ table := by
  unfold put at mem
  split at mem
  · obtain ⟨old, known, rfl⟩ := List.mem_map.1 mem
    split
    · exact .inl rfl
    · exact .inr known
  · exact (List.mem_append.1 mem).elim .inr fun single => .inl (List.mem_singleton.1 single)

theorem mem_put_self (table : List Row) (row : Row) : row ∈ put key table row := by
  unfold put
  split
  · next known =>
    rw [lookup, List.find?_isSome] at known
    obtain ⟨old, mem, same⟩ := known
    exact List.mem_map.2 ⟨old, mem, if_pos (by simpa using same)⟩
  · exact List.mem_append_right _ (List.mem_singleton.2 rfl)

end Tables

section Statements

variable {Digest : Type} {lib : Libraries Digest} {workspace : String} {db : Db}

theorem WellFormed.putNode (wf : db.WellFormed lib.json) {row : NodeRow}
    (registered : row.workspace ∈ db.workspaceNames) :
    ({ db with nodes := put NodeRow.key db.nodes row } : Db).WellFormed lib.json where
  keys := { wf.keys with nodes := nodup_put wf.keys.nodes row }
  references :=
    { wf.references with
      nodes := fun other mem => (mem_put mem).elim (fun same => same ▸ registered)
        (wf.references.nodes other)
      edges := fun edge mem => ⟨keys_subset_put _ _ (wf.references.edges edge mem).1,
        keys_subset_put _ _ (wf.references.edges edge mem).2⟩
      manualLinks := fun link mem => ⟨keys_subset_put _ _ (wf.references.manualLinks link mem).1,
        keys_subset_put _ _ (wf.references.manualLinks link mem).2⟩ }
  checks := { wf.checks with }

theorem WellFormed.putEvidence (wf : db.WellFormed lib.json) {row : EvidenceRow}
    (registered : row.workspace ∈ db.workspaceNames) (lines : row.linesValid = true)
    (unit : unitReal row.confidence = true) :
    ({ db with evidence := put EvidenceRow.key db.evidence row } : Db).WellFormed lib.json where
  keys := { wf.keys with evidence := nodup_put wf.keys.evidence row }
  references :=
    { wf.references with
      evidence := fun other mem => (mem_put mem).elim (fun same => same ▸ registered)
        (wf.references.evidence other)
      edgeEvidence := fun other mem => ⟨(wf.references.edgeEvidence other mem).1,
        keys_subset_put _ _ (wf.references.edgeEvidence other mem).2⟩ }
  checks :=
    { wf.checks with
      evidence := fun other mem => (mem_put mem).elim (fun same => same ▸ ⟨lines, unit⟩)
        (wf.checks.evidence other) }

theorem WellFormed.deleteEdges (wf : db.WellFormed lib.json) (p : EdgeRow → Bool) :
    (db.deleteEdges p).WellFormed lib.json where
  keys :=
    { wf.keys with
      edges := (List.filter_sublist.map _).nodup wf.keys.edges
      edgeEvidence := List.filter_sublist.nodup wf.keys.edgeEvidence }
  references :=
    { wf.references with
      edges := fun row mem => wf.references.edges row (List.mem_filter.1 mem).1
      edgeEvidence := fun row mem => by
        obtain ⟨stored, kept⟩ := List.mem_filter.1 mem
        obtain ⟨edge, evidence⟩ := wf.references.edgeEvidence row stored
        refine ⟨?_, evidence⟩
        obtain ⟨owner, mem, same⟩ := List.mem_map.1 edge
        refine List.mem_map.2 ⟨owner, List.mem_filter.2 ⟨mem, ?_⟩, same⟩
        by_contra gone
        rw [Bool.not_eq_true, Bool.not_eq_false'] at gone
        have among : row.edgeKey ∈ (db.edges.filter p).map EdgeRow.key :=
          List.mem_map.2 ⟨owner, List.mem_filter.2 ⟨mem, gone⟩, same⟩
        simp [among] at kept }
  checks :=
    { wf.checks with edges := fun row mem => wf.checks.edges row (List.mem_filter.1 mem).1 }

theorem nodup_concat {α : Type} {l : List α} {a : α} (nodup : l.Nodup) (fresh : a ∉ l) :
    (l ++ [a]).Nodup := by
  rw [← List.concat_eq_append]
  exact nodup.concat fresh

theorem WellFormed.insertEdge (wf : db.WellFormed lib.json) (row : EdgeRow)
    (fresh : row.key ∉ db.edgeKeys) (source : row.sourceKey ∈ db.nodeKeys)
    (target : row.targetKey ∈ db.nodeKeys) (unit : unitReal row.confidence = true) :
    ({ db with edges := db.edges ++ [row] } : Db).WellFormed lib.json where
  keys :=
    { wf.keys with
      edges := by
        rw [Db.edgeKeys, List.map_append]
        exact nodup_concat wf.keys.edges fresh }
  references :=
    { wf.references with
      edges := fun other mem => (List.mem_append.1 mem).elim (wf.references.edges other)
        fun single => by
          obtain rfl := List.mem_singleton.1 single
          exact ⟨source, target⟩
      edgeEvidence := fun other mem =>
        ⟨by
          rw [Db.edgeKeys, List.map_append]
          exact List.mem_append_left _ (wf.references.edgeEvidence other mem).1,
          (wf.references.edgeEvidence other mem).2⟩ }
  checks :=
    { wf.checks with
      edges := fun other mem => (List.mem_append.1 mem).elim (wf.checks.edges other)
        fun single => by
          obtain rfl := List.mem_singleton.1 single
          exact unit }

theorem WellFormed.insertEdgeEvidence (wf : db.WellFormed lib.json) {row : EdgeEvidenceRow}
    (fresh : row ∉ db.edgeEvidence) (edge : row.edgeKey ∈ db.edgeKeys)
    (evidence : row.evidenceKey ∈ db.evidenceKeys) :
    ({ db with edgeEvidence := db.edgeEvidence ++ [row] } : Db).WellFormed lib.json where
  keys := { wf.keys with edgeEvidence := nodup_concat wf.keys.edgeEvidence fresh }
  references :=
    { wf.references with
      edgeEvidence := fun other mem => (List.mem_append.1 mem).elim
        (wf.references.edgeEvidence other) fun single => by
          obtain rfl := List.mem_singleton.1 single
          exact ⟨edge, evidence⟩ }
  checks := { wf.checks with }

end Statements

section Edges

variable {Digest : Type} {lib : Libraries Digest} {workspace : String} {db : Db}

structure SameEnds (db db' : Db) : Prop where
  nodes : db'.nodeKeys = db.nodeKeys
  evidence : db'.evidenceKeys = db.evidenceKeys

theorem deleteEdge_total (workspace : String) (wf : db.WellFormed lib.json) (id : EdgeId) :
    ∃ db', deleteEdge lib workspace db id = .ok db' ∧ db'.WellFormed lib.json ∧ SameEnds db db' ∧
      db'.edgeKeys ⊆ db.edgeKeys ∧ (workspace, id) ∉ db'.edgeKeys := by
  have deleted : deleteEdge lib workspace db id = .ok _ :=
    Db.checked_eq_ok.2 ⟨rfl, WellFormed.deleteEdges wf _⟩
  refine ⟨_, deleted, WellFormed.deleteEdges wf _, ⟨rfl, rfl⟩, ?_, ?_⟩
  · intro key mem
    obtain ⟨row, stored, rfl⟩ := List.mem_map.1 mem
    exact List.mem_map_of_mem (List.mem_filter.1 stored).1
  · intro mem
    obtain ⟨row, stored, same⟩ := List.mem_map.1 mem
    have kept := (List.mem_filter.1 stored).2
    rw [EdgeRow.key, Prod.mk.injEq] at same
    simp [same] at kept

theorem deleteEdges_total (workspace : String) (wf : db.WellFormed lib.json) (ids : List EdgeId) :
    ∃ db', ids.foldlM (deleteEdge lib workspace) db = .ok db' ∧ db'.WellFormed lib.json ∧
      SameEnds db db' ∧ db'.edgeKeys ⊆ db.edgeKeys := by
  refine foldlM_total (fun _ db' => db'.WellFormed lib.json ∧ SameEnds db db' ∧
    db'.edgeKeys ⊆ db.edgeKeys) (fun id rest s kept => ?_) ⟨wf, ⟨rfl, rfl⟩, List.Subset.refl _⟩
  obtain ⟨wf, same, fewer⟩ := kept
  obtain ⟨s', deleted, wf', same', fewer', -⟩ := deleteEdge_total workspace wf id
  exact ⟨s', deleted, wf', ⟨same'.nodes.trans same.nodes, same'.evidence.trans same.evidence⟩,
    fun key mem => fewer (fewer' mem)⟩

/-- Evidence rows that can be inserted one after the other. -/
structure Insertable (lib : Libraries Digest) (rows : List EdgeEvidenceRow) (db : Db) : Prop where
  wf : db.WellFormed lib.json
  distinct : rows.Nodup
  fresh : ∀ row ∈ rows, row ∉ db.edgeEvidence
  known : ∀ row ∈ rows, row.edgeKey ∈ db.edgeKeys ∧ row.evidenceKey ∈ db.evidenceKeys

theorem insertRows_total {rows : List EdgeEvidenceRow} (insertable : Insertable lib rows db) :
    ∃ db', rows.foldlM (insertEdgeEvidence lib) db = .ok db' ∧ Insertable lib [] db' := by
  refine foldlM_total (Insertable lib) (fun row rest s insertable => ?_) insertable
  obtain ⟨wf, distinct, fresh, known⟩ := insertable
  obtain ⟨new, distinct⟩ := List.nodup_cons.1 distinct
  obtain ⟨fresh', fresh⟩ := List.forall_mem_cons.1 fresh
  obtain ⟨known', known⟩ := List.forall_mem_cons.1 known
  have wf' := WellFormed.insertEdgeEvidence wf fresh' known'.1 known'.2
  refine ⟨_, Db.checked_eq_ok.2 ⟨rfl, wf'⟩, wf', distinct, fun other mem stored => ?_, known⟩
  cases List.mem_append.1 stored with
  | inl old => exact fresh other mem old
  | inr single => exact new (List.mem_singleton.1 single ▸ mem)

/-- What an edge needs in order to be written. -/
structure Writable (workspace : String) (db : Db) (edge : Edge) : Prop where
  source : (workspace, edge.source) ∈ db.nodeKeys
  target : (workspace, edge.target) ∈ db.nodeKeys
  unit : unitReal (realColumn edge.confidence) = true
  distinct : edge.evidence.Nodup
  evidence : ∀ evidenceId ∈ edge.evidence, (workspace, evidenceId) ∈ db.evidenceKeys

theorem Writable.same {db' : Db} {edge : Edge} (writable : Writable workspace db edge)
    (same : SameEnds db db') : Writable workspace db' edge :=
  ⟨same.nodes ▸ writable.source, same.nodes ▸ writable.target, writable.unit, writable.distinct,
    same.evidence ▸ writable.evidence⟩

theorem insertEdge_total (wf : db.WellFormed lib.json) {edge : Edge}
    (writable : Writable workspace db edge) (fresh : (workspace, edge.id) ∉ db.edgeKeys) :
    ∃ db', ((do
      let db ← { db with edges := db.edges ++ [edgeRow workspace edge] }.checked lib.json
      (edgeEvidenceRows workspace edge).foldlM (insertEdgeEvidence lib) db) : Except StoreError Db) =
        .ok db' := by
  have inserted := WellFormed.insertEdge wf (edgeRow workspace edge) fresh writable.source
    writable.target writable.unit
  have insertable : Insertable lib (edgeEvidenceRows workspace edge)
      { db with edges := db.edges ++ [edgeRow workspace edge] } := by
    refine ⟨inserted, writable.distinct.map fun a b same => by simpa using same, ?_, ?_⟩
    · intro row mem stored
      obtain ⟨evidenceId, -, rfl⟩ := List.mem_map.1 mem
      exact fresh (wf.references.edgeEvidence _ stored).1
    · intro row mem
      obtain ⟨evidenceId, known, rfl⟩ := List.mem_map.1 mem
      refine ⟨?_, writable.evidence evidenceId known⟩
      rw [Db.edgeKeys, List.map_append]
      exact List.mem_append_right _ (List.mem_singleton.2 rfl)
  obtain ⟨db', rows, -⟩ := insertRows_total insertable
  exact ⟨db', bind_eq_ok.2 ⟨_, Db.checked_eq_ok.2 ⟨rfl, inserted⟩, rows⟩⟩

theorem writeEdge_total (wf : db.WellFormed lib.json) {edge : Edge}
    (writable : Writable workspace db edge) {existed : Bool}
    (fresh : existed = false → (workspace, edge.id) ∉ db.edgeKeys) :
    ∃ db', writeEdge lib workspace db edge existed = .ok db' ∧ db'.WellFormed lib.json ∧
      SameEnds db db' ∧ ∀ key ∈ db'.edgeKeys, key = (workspace, edge.id) ∨ key ∈ db.edgeKeys := by
  have written : ∃ db', writeEdge lib workspace db edge existed = .ok db' := by
    cases existed with
    | true =>
      obtain ⟨db₁, deleted, wf₁, same, -, gone⟩ := deleteEdge_total workspace wf edge.id
      obtain ⟨db', inserted⟩ := insertEdge_total wf₁ (writable.same same) gone
      exact ⟨db', bind_eq_ok.2 ⟨db₁, by simpa using deleted, inserted⟩⟩
    | false =>
      obtain ⟨db', inserted⟩ := insertEdge_total wf writable (fresh rfl)
      exact ⟨db', bind_eq_ok.2 ⟨db, by simp, inserted⟩⟩
  obtain ⟨db', written⟩ := written
  obtain ⟨rfl, wf'⟩ := writeEdge_eq_ok wf written
  refine ⟨_, written, wf', ⟨rfl, rfl⟩, fun key mem => ?_⟩
  obtain ⟨row, stored, rfl⟩ := List.mem_map.1 mem
  cases List.mem_append.1 stored with
  | inl old => exact .inr (List.mem_map_of_mem (List.mem_filter.1 old).1)
  | inr single => exact .inl (by rw [List.mem_singleton.1 single]; rfl)

/-- Changed edges that can be written one after the other. -/
structure WritableAll (lib : Libraries Digest) (workspace : String) (changed : List (Edge × Bool))
    (db : Db) : Prop where
  wf : db.WellFormed lib.json
  distinct : (changed.map fun change => change.1.id).Nodup
  each : ∀ change ∈ changed, Writable workspace db change.1
  fresh : ∀ change ∈ changed, change.2 = false → (workspace, change.1.id) ∉ db.edgeKeys

theorem WritableAll.step {change : Edge × Bool} {rest : List (Edge × Bool)}
    (all : WritableAll lib workspace (change :: rest) db) :
    ∃ db', writeEdge lib workspace db change.1 change.2 = .ok db' ∧
      WritableAll lib workspace rest db' := by
  obtain ⟨wf, distinct, each, fresh⟩ := all
  obtain ⟨first, each⟩ := List.forall_mem_cons.1 each
  obtain ⟨fresh', fresh⟩ := List.forall_mem_cons.1 fresh
  obtain ⟨new, distinct⟩ := List.nodup_cons.1 distinct
  obtain ⟨db', written, wf', same, keys⟩ := writeEdge_total wf first fresh'
  refine ⟨db', written, wf', distinct, fun other mem => (each other mem).same same, ?_⟩
  intro other mem created known
  cases keys _ known with
  | inl clash => exact new (List.mem_map.2 ⟨other, mem, (Prod.mk.inj clash).2⟩)
  | inr old => exact fresh other mem created old

end Edges

section Publication

variable {Digest : Type} [DecidableEq Digest] {lib : Libraries Digest} {workspace : String} {db : Db}

theorem foldl_put_keys {Row K : Type} [DecidableEq K] (key : Row → K) :
    ∀ (rows table : List Row),
      table.map key ⊆ (rows.foldl (put key) table).map key ∧
        rows.map key ⊆ (rows.foldl (put key) table).map key := by
  intro rows
  induction rows with
  | nil => intro table; simp
  | cons row rows ih =>
    intro table
    obtain ⟨kept, added⟩ := ih (put key table row)
    refine ⟨fun k mem => kept (keys_subset_put table row mem), ?_⟩
    rw [List.map_cons, List.cons_subset]
    refine ⟨kept ?_, added⟩
    rw [map_key_put]
    split
    · next known => exact known
    · simp

theorem upserted_keys {Row Item K : Type} [DecidableEq K] {key : Row → String × K}
    {itemKey : Item → K} {digest : Item → Except StoreError Digest} {rowOf : Item → Row}
    {items : List Item} {stored : List (K × Digest)} {table : List Row}
    (rowKey : ∀ item, key (rowOf item) = (workspace, itemKey item))
    (digests : ∀ item ∈ items, ∃ current, digest item = .ok current)
    (loaded : ∀ k ∈ stored.map Prod.fst, (workspace, k) ∈ table.map key) :
    ∀ item ∈ items, (workspace, itemKey item) ∈
      (upserted key itemKey digest rowOf items stored table).map key := by
  intro item mem
  obtain ⟨kept, added⟩ := foldl_put_keys key
    ((changes itemKey digest items stored).map fun change => rowOf change.2) table
  obtain ⟨current, is⟩ := digests item mem
  by_cases same : stored.lookup (itemKey item) = some current
  · refine kept (loaded _ ?_)
    exact List.mem_map.2 ⟨_, mem_of_lookup same, rfl⟩
  · rw [← rowKey]
    refine added (List.mem_map_of_mem (List.mem_map.2 ⟨(stored.lookup (itemKey item), item), ?_, rfl⟩))
    refine List.mem_filterMap.2 ⟨item, mem, ?_⟩
    simp [is, same]

theorem upsertEvidence_total (wf : db.WellFormed lib.json)
    (registered : workspace ∈ db.workspaceNames) {evidence : List Evidence}
    (distinct : (evidence.map Evidence.id).Nodup)
    (rows : ∀ item ∈ evidence, (evidenceRow workspace item).linesValid = true ∧
      unitReal (evidenceRow workspace item).confidence = true) :
    ∃ db' removed, upsertEvidence lib workspace evidence db = .ok (db', removed) ∧
      db'.WellFormed lib.json ∧ db'.workspaceNames = db.workspaceNames ∧
      ∀ item ∈ evidence, (workspace, item.id) ∈ db'.evidenceKeys := by
  obtain ⟨db', left, passed, wf', -⟩ := reconcile_total Evidence.id
    (fun item => .ok (evidenceDigest lib item))
    (fun (db : Db) _ item =>
      { db with evidence := put EvidenceRow.key db.evidence (evidenceRow workspace item)
        }.checked lib.json)
    (fun db => db.WellFormed lib.json ∧ workspace ∈ db.workspaceNames)
    (fun item _ => ⟨evidenceDigest lib item, rfl⟩)
    (fun s previous item mem kept =>
      ⟨_, Db.checked_eq_ok.2 ⟨rfl, WellFormed.putEvidence kept.1 kept.2 (rows item mem).1 (rows item mem).2⟩,
        WellFormed.putEvidence kept.1 kept.2 (rows item mem).1 (rows item mem).2, kept.2⟩)
    (storedEvidence lib workspace db) db ⟨wf, registered⟩
  have upserted : upsertEvidence lib workspace evidence db = .ok (db', sortedKeys left) :=
    bind_eq_ok.2 ⟨_, passed, rfl⟩
  obtain ⟨is, -⟩ := upsertEvidence_eq_ok distinct upserted
  refine ⟨db', _, upserted, wf', by rw [is]; rfl, ?_⟩
  rw [is]
  exact upserted_keys (fun _ => rfl) (fun item _ => ⟨evidenceDigest lib item, rfl⟩)
    fun k mem => (mem_load EvidenceRow.key _ workspace).1 mem

theorem upsertNodes_total (wf : db.WellFormed lib.json)
    (registered : workspace ∈ db.workspaceNames) {nodes : List Node}
    (distinct : (nodes.map Node.id).Nodup) :
    ∃ db' removed, upsertNodes lib workspace nodes db = .ok (db', removed) ∧
      db'.WellFormed lib.json ∧ db'.evidenceKeys = db.evidenceKeys ∧
      ∀ node ∈ nodes, (workspace, node.id) ∈ db'.nodeKeys := by
  obtain ⟨db', left, passed, wf', -⟩ := reconcile_total Node.id
    (fun node => .ok (nodeDigest lib node))
    (fun (db : Db) _ node =>
      { db with nodes := put NodeRow.key db.nodes (nodeRow workspace node) }.checked lib.json)
    (fun db => db.WellFormed lib.json ∧ workspace ∈ db.workspaceNames)
    (fun node _ => ⟨nodeDigest lib node, rfl⟩)
    (fun s previous node mem kept =>
      ⟨_, Db.checked_eq_ok.2 ⟨rfl, WellFormed.putNode kept.1 kept.2⟩,
        WellFormed.putNode kept.1 kept.2, kept.2⟩)
    (storedNodes lib workspace db) db ⟨wf, registered⟩
  have upserted : upsertNodes lib workspace nodes db = .ok (db', sortedKeys left) :=
    bind_eq_ok.2 ⟨_, passed, rfl⟩
  obtain ⟨is, -⟩ := upsertNodes_eq_ok distinct upserted
  refine ⟨db', _, upserted, wf', by rw [is]; rfl, ?_⟩
  rw [is]
  exact upserted_keys (fun _ => rfl) (fun node _ => ⟨nodeDigest lib node, rfl⟩)
    fun k mem => (mem_load NodeRow.key _ workspace).1 mem

theorem replaceChangedEdges_total (wf : db.WellFormed lib.json) {edges : List Edge}
    (distinct : (edges.map Edge.id).Nodup) (writable : ∀ edge ∈ edges, Writable workspace db edge) :
    ∃ db', replaceChangedEdges lib workspace edges db = .ok db' := by
  let digest : Edge → Except StoreError Digest := fun edge => .ok (edgeDigest lib edge)
  obtain ⟨changed, left, passed, -⟩ := reconcile_total Edge.id digest
    (fun (changed : List (Edge × Bool)) previous edge => .ok (changed ++ [(edge, previous.isSome)]))
    (fun _ => True) (fun edge _ => ⟨edgeDigest lib edge, rfl⟩) (fun _ _ _ _ _ => ⟨_, rfl, trivial⟩)
    (storedEdges lib workspace db) [] trivial
  obtain ⟨pass, -, -⟩ := reconcile_eq_ok Edge.id digest distinct passed
  obtain rfl := changedEdges_eq pass
  obtain ⟨db₁, deleted, wf₁, same, fewer⟩ := deleteEdges_total workspace wf (sortedKeys left)
  have ready : ∃ db', ((changes Edge.id digest edges (storedEdges lib workspace db)).map
      fun change => (change.2, change.1.isSome)).foldlM
        (fun db change => writeEdge lib workspace db change.1 change.2) db₁ = .ok db' ∧
      WritableAll lib workspace [] db' := by
    refine foldlM_total (WritableAll lib workspace) (fun change rest s all => all.step) ?_
    refine ⟨wf₁, ?_, ?_, ?_⟩
    · have nodup := ((changes_sublist Edge.id digest edges (storedEdges lib workspace db)).map
        Edge.id).nodup distinct
      rw [List.map_map] at nodup ⊢
      exact nodup
    · intro change mem
      obtain ⟨change, collected, rfl⟩ := List.mem_map.1 mem
      exact (writable _ (mem_changes Edge.id digest collected)).same same
    · intro change mem new known
      obtain ⟨change, collected, rfl⟩ := List.mem_map.1 mem
      -- an edge without a stored digest has no stored row
      have previous := previous_of_mem_changes Edge.id digest collected
      have none : (storedEdges lib workspace db).lookup change.2.id = none := by
        rw [← previous]
        simpa using new
      have stored : change.2.id ∈ (storedEdges lib workspace db).map Prod.fst :=
        (mem_load EdgeRow.key _ workspace).2 (fewer known)
      obtain ⟨entry, mem, same⟩ := List.mem_map.1 stored
      have absent := List.lookup_eq_none_iff.1 none entry mem
      simp [same] at absent
  obtain ⟨db', written, -⟩ := ready
  exact ⟨db', bind_eq_ok.2 ⟨_, passed, bind_eq_ok.2 ⟨db₁, deleted, written⟩⟩⟩

variable (lib workspace) in
/-- The part of `publish_current_graph` that writes nodes, evidence, edges and edge evidence. -/
def writeGraph (nodes : List Node) (edges : List Edge) (evidence : List Evidence) (db : Db) :
    Except StoreError Db := do
  let (db, _) ← upsertEvidence lib workspace evidence db
  let (db, _) ← upsertNodes lib workspace nodes db
  replaceChangedEdges lib workspace edges db

def LinesPositive (evidence : List Evidence) : Prop :=
  ∀ item ∈ evidence, item.startLine ≠ some 0 ∧ item.endLine ≠ some 0

theorem writeGraph_total {nodes : List Node} {edges : List Edge} {evidence : List Evidence}
    (accepted : Accepted nodes edges evidence) (positive : LinesPositive evidence)
    (wf : db.WellFormed lib.json) (registered : workspace ∈ db.workspaceNames) :
    ∃ db', writeGraph lib workspace nodes edges evidence db = .ok db' := by
  obtain ⟨db₁, removed, upserted, wf₁, names, supports⟩ :=
    upsertEvidence_total wf registered accepted.evidenceIds fun item mem =>
      ⟨linesValid_iff.2 ⟨(accepted.item item mem).2, positive item mem⟩,
        unitReal_realColumn (accepted.item item mem).1⟩
  obtain ⟨db₂, removed', upserted', wf₂, kept, ends⟩ :=
    upsertNodes_total wf₁ (names ▸ registered) accepted.nodeIds
  have endpoint : ∀ nodeId ∈ nodes.map Node.id, (workspace, nodeId) ∈ db₂.nodeKeys := by
    intro nodeId mem
    obtain ⟨node, listed, rfl⟩ := List.mem_map.1 mem
    exact ends node listed
  have writable : ∀ edge ∈ edges, Writable workspace db₂ edge := by
    intro edge mem
    refine ⟨endpoint _ (accepted.ends edge mem).1, endpoint _ (accepted.ends edge mem).2,
      unitReal_realColumn (accepted.confidence edge mem), (accepted.supported edge mem).1, ?_⟩
    intro evidenceId listed
    obtain ⟨item, known, rfl⟩ := List.mem_map.1 ((accepted.supported edge mem).2 evidenceId listed)
    exact kept ▸ supports item known
  have replaced : ∃ db', replaceChangedEdges lib workspace edges db₂ = .ok db' :=
    replaceChangedEdges_total wf₂ accepted.edgeIds writable
  obtain ⟨db', replaced⟩ := replaced
  exact ⟨db', bind_eq_ok.2 ⟨_, upserted, bind_eq_ok.2 ⟨_, upserted', replaced⟩⟩⟩

def emptyWorkspace (name : String) : Db :=
  { workspaces := [⟨name, "", none, none, none, none⟩] }

omit [DecidableEq Digest] in
theorem wellFormed_emptyWorkspace (name : String) :
    (emptyWorkspace name).WellFormed lib.json := by
  constructor
  · constructor <;> simp [emptyWorkspace, Db.workspaceNames, Db.repositoryIds, Db.checkoutIds,
      Db.nodeKeys, Db.evidenceKeys, Db.edgeKeys, Db.communitySnapshotIds, Db.communityKeys]
  · constructor <;> simp [emptyWorkspace]
  · constructor <;> simp [emptyWorkspace]

theorem linesPositive_of_written {evidence : List Evidence}
    (distinct : (evidence.map Evidence.id).Nodup) {result : Db × List EvidenceId}
    (written : upsertEvidence lib workspace evidence (emptyWorkspace workspace) = .ok result) :
    LinesPositive evidence := by
  obtain ⟨⟨db', left⟩, passed, -⟩ := bind_eq_ok.1 written
  obtain ⟨pass, -, -⟩ := reconcile_eq_ok Evidence.id _ distinct passed
  intro item mem
  have change : (none, item) ∈ changes Evidence.id
      (fun item => (.ok (evidenceDigest lib item) : Except StoreError Digest)) evidence
      (storedEvidence lib workspace (emptyWorkspace workspace)) :=
    List.mem_filterMap.2 ⟨item, mem, rfl⟩
  obtain ⟨before, after, step⟩ := foldlM_each pass _ change
  obtain ⟨rfl, wf⟩ := Db.checked_eq_ok.1 step
  have lines := (wf.checks.evidence _ (mem_put_self before.evidence (evidenceRow workspace item))).1
  exact (linesValid_iff.1 lines).2

/-- An accepted graph can be written into every database exactly when no line of its evidence is
the line zero. -/
theorem writeGraph_total_iff (lib : Libraries Digest) (workspace : String) (nodes : List Node)
    (edges : List Edge) (evidence : List Evidence)
    (valid : validateGraphSnapshot nodes edges evidence = .ok ()) :
    (∀ db : Db, db.WellFormed lib.json → workspace ∈ db.workspaceNames →
      ∃ db', writeGraph lib workspace nodes edges evidence db = .ok db') ↔
      LinesPositive evidence := by
  have accepted := validateGraphSnapshot_accepted valid
  constructor
  · intro total
    obtain ⟨db', written⟩ := total (emptyWorkspace workspace) (wellFormed_emptyWorkspace workspace)
      (by simp [emptyWorkspace, Db.workspaceNames])
    obtain ⟨result, upserted, -⟩ := bind_eq_ok.1 written
    exact linesPositive_of_written accepted.evidenceIds upserted
  · intro positive db wf registered
    exact writeGraph_total accepted positive wf registered

def citedGraph : List Node × List Edge × List Evidence :=
  ([exampleNode "a" "a", exampleNode "b" "b"],
    [⟨"e", "a", "b", .consumes, .ofNat 1, .confirmed, ["v"]⟩],
    [{ exampleEvidenceItem "v" (.ofNat 1) with startLine := some 1, endLine := some 2 }])

theorem writeGraph_total_citedGraph :
    validateGraphSnapshot citedGraph.1 citedGraph.2.1 citedGraph.2.2 = .ok () ∧
    (∀ db : Db, db.WellFormed plainLibraries.json → "w" ∈ db.workspaceNames →
      ∃ db', writeGraph plainLibraries "w" citedGraph.1 citedGraph.2.1 citedGraph.2.2 db = .ok db') := by
  have valid : validateGraphSnapshot citedGraph.1 citedGraph.2.1 citedGraph.2.2 = .ok () := by
    decide +kernel
  refine ⟨valid, (writeGraph_total_iff plainLibraries "w" _ _ _ valid).2 ?_⟩
  simp [LinesPositive, citedGraph]

theorem validateGraphSnapshot_accepts_line_zero :
    let item := { exampleEvidenceItem "v" (.ofNat 1) with startLine := some 0 }
    validateGraphSnapshot [] [] [item] = .ok () ∧
      (emptyWorkspace "w").WellFormed plainLibraries.json ∧
      "w" ∈ (emptyWorkspace "w").workspaceNames ∧
      writeGraph plainLibraries "w" [] [] [item] (emptyWorkspace "w") = .error .constraint := by
  intro item
  have valid : validateGraphSnapshot [] [] [item] = .ok () := by decide +kernel
  have known : "w" ∈ (emptyWorkspace "w").workspaceNames := by simp [emptyWorkspace, Db.workspaceNames]
  refine ⟨valid, wellFormed_emptyWorkspace "w", known, ?_⟩
  have broken : ({ emptyWorkspace "w" with evidence := [evidenceRow "w" item] } : Db).checked
      plainLibraries.json = .error .constraint := by
    refine if_neg fun wf => ?_
    have lines := (wf.checks.evidence _ (List.mem_singleton.2 rfl)).1
    exact (linesValid_iff.1 lines).2.1 rfl
  have written : reconcile Evidence.id
      (fun item => (.ok (evidenceDigest plainLibraries item) : Except StoreError Bytes))
      (fun (db : Db) _ item =>
        { db with evidence := put EvidenceRow.key db.evidence (evidenceRow "w" item)
          }.checked plainLibraries.json)
      [item] (storedEvidence plainLibraries "w" (emptyWorkspace "w")) (emptyWorkspace "w") =
        .error .constraint :=
    bind_eq_error.2 (.inr ⟨_, rfl, bind_eq_error.2 (.inl broken)⟩)
  have upserted : upsertEvidence plainLibraries "w" [item] (emptyWorkspace "w") =
      .error .constraint := bind_eq_error.2 (.inl written)
  exact bind_eq_error.2 (.inl upserted)

end Publication

end CodeSystemGraph.Store
