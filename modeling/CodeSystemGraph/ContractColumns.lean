import CodeSystemGraph.ContractStatus

/-! The status of a database comparison. The path of a column joins names with dots, so columns
of different tables can have one path; of two changes of their types, or of their nullability,
the report keeps the first. -/

namespace CodeSystemGraph.Contracts
open Ordered Routes

section Changes

def typeChange (before after : DatabaseColumn) : Option CompatibilityStatus :=
  if before.dataType = after.dataType then none
  else
    match before.dataType, after.dataType with
    | some previous, some candidate =>
      if databaseTypeNarrowed previous candidate then some .breaking else some .potentiallyBreaking
    | _, _ => some .unknown

def nullabilityChange (before after : DatabaseColumn) : Option CompatibilityStatus :=
  if before.nullable = after.nullable then none
  else
    match before.nullable, after.nullable with
    | some true, some false => if after.defaultPresent then some .potentiallyBreaking else some .breaking
    | some _, some _ => some .compatible
    | _, _ => some .unknown

def keptTables (before after : DataDocument) : List (String × DatabaseTable × DatabaseTable) :=
  (inventory databaseTableKey before.tables).flatMap fun entry =>
    ((inventory databaseTableKey after.tables).lookup entry.1).toList.map fun candidate =>
      (entry.1, entry.2, candidate)

def keptColumns (table : String × DatabaseTable × DatabaseTable) :
    List (String × DatabaseColumn × DatabaseColumn) :=
  (inventory (·.name) table.2.1.columns).flatMap fun entry =>
    ((inventory (·.name) table.2.2.columns).lookup entry.1).toList.map fun candidate =>
      (table.1 ++ "." ++ entry.1, entry.2, candidate)

def columnChanges (change : DatabaseColumn → DatabaseColumn → Option CompatibilityStatus)
    (before after : DataDocument) : List (String × CompatibilityStatus) :=
  ((keptTables before after).flatMap keptColumns).flatMap fun pair =>
    (change pair.2.1 pair.2.2).toList.map fun status => (pair.1, status)

/-- A break that is not in the type or the nullability of a column. -/
inductive OtherBreak (before after : DataDocument) : CompatibilityStatus → Prop
  | table (table : DatabaseTable) (mem : table ∈ before.tables)
      (gone : databaseTableKey table ∉ after.tables.map databaseTableKey) :
      OtherBreak before after .breaking
  | column (table : String × DatabaseTable × DatabaseTable) (mem : table ∈ keptTables before after)
      (column : DatabaseColumn) (mem' : column ∈ table.2.1.columns)
      (gone : column.name ∉ table.2.2.columns.map (·.name)) : OtherBreak before after .breaking
  | primaryKey (table : String × DatabaseTable × DatabaseTable) (mem : table ∈ keptTables before after)
      (pair : String × DatabaseColumn × DatabaseColumn) (mem' : pair ∈ keptColumns table)
      (lost : pair.2.1.primaryKey = true ∧ pair.2.2.primaryKey = false) :
      OtherBreak before after .breaking
  | predecessor (previous candidate : MigrationMetadata) (was : before.migration = some previous)
      (is : after.migration = some candidate) (same : previous.revision = candidate.revision)
      (moved : previous.downRevision ≠ candidate.downRevision) : OtherBreak before after .breaking
  | order (previous candidate : MigrationMetadata) (was : before.migration = some previous)
      (is : after.migration = some candidate) (previousOrder candidateOrder : ℕ)
      (wasAt : previous.orderHint = some previousOrder)
      (isAt : candidate.orderHint = some candidateOrder) (earlier : candidateOrder < previousOrder) :
      OtherBreak before after .breaking
  | unique (table : String × DatabaseTable × DatabaseTable) (mem : table ∈ keptTables before after)
      (pair : String × DatabaseColumn × DatabaseColumn) (mem' : pair ∈ keptColumns table)
      (lost : pair.2.1.unique = true ∧ pair.2.2.unique = false) :
      OtherBreak before after .potentiallyBreaking
  | index (table : String × DatabaseTable × DatabaseTable) (mem : table ∈ keptTables before after)
      (index : DatabaseIndex) (mem' : index ∈ table.2.1.indexes)
      (gone : databaseIndexKey index ∉ table.2.2.indexes.map databaseIndexKey) :
      OtherBreak before after .potentiallyBreaking
  | foreignKey (table : String × DatabaseTable × DatabaseTable) (mem : table ∈ keptTables before after)
      (foreignKey : DatabaseForeignKey) (mem' : foreignKey ∈ table.2.1.foreignKeys)
      (gone : databaseForeignKey foreignKey ∉ table.2.2.foreignKeys.map databaseForeignKey) :
      OtherBreak before after .potentiallyBreaking
  | conflict (previous candidate : MigrationMetadata) (was : before.migration = some previous)
      (is : after.migration = some candidate) (moved : previous.revision ≠ candidate.revision)
      (apart : candidate.downRevision ≠ previous.revision) :
      OtherBreak before after .potentiallyBreaking

def Makes (status : CompatibilityStatus) (before after : DataDocument) : Prop :=
  OtherBreak before after status ∨ ∃ change ∈ [typeChange, nullabilityChange],
    ∃ path, (path, status) ∈ columnChanges change before after

/-- The breaks of this status are all changes of columns whose paths have another change of
the same kind before them. -/
structure Hidden (status : CompatibilityStatus) (before after : DataDocument) : Prop where
  made : Makes status before after
  elsewhere : ¬OtherBreak before after status
  covered : ∀ change ∈ [typeChange, nullabilityChange], ∀ path,
    (columnChanges change before after).lookup path ≠ some status

def HidesBreak (before after : DataDocument) : Prop :=
  Hidden .breaking before after ∨
    ¬Makes .breaking before after ∧ Hidden .potentiallyBreaking before after

end Changes

section Findings

def typeCode : String := "database.column_type_changed"

def nullabilityCode : String := "database.column_nullability_changed"

theorem databaseInventory_fst (document : DataDocument) (side : String) :
    (databaseInventory document side).1 = inventory databaseTableKey document.tables :=
  takeInventory_fst document.tables

theorem databaseColumnInventory_fst (path side : String) (table : DatabaseTable) :
    (databaseColumnInventory path side table).1 = inventory (·.name) table.columns :=
  takeInventory_fst table.columns

/-- The status of each rule that has only one. -/
def databaseRuleStatus (code : String) : CompatibilityStatus :=
  if code ∈ ["database.table_removed", "database.column_removed", "database.primary_key_removed",
      "database.migration_predecessor_changed", "database.migration_order_regressed"] then .breaking
  else if code ∈ ["database.unique_constraint_removed", "database.index_removed",
      "database.foreign_key_removed", "database.migration_predecessor_conflict"] then
    .potentiallyBreaking
  else if code ∈ ["database.table_duplicate", "database.column_duplicate"] then .incomparable
  else .unknown

def FixedStatus (f : CompatibilityFinding) : Prop :=
  f.code ∈ [typeCode, nullabilityCode] ∨ f.status = databaseRuleStatus f.code

theorem fixedStatus_column (path : String) (before after : DatabaseColumn) :
    Each FixedStatus (compareDatabaseColumn path before after) := by
  simp only [compareDatabaseColumn, each_append, each_ite, each_singleton, each_nil]
  simp [FixedStatus, databaseFinding, databaseRuleStatus, typeCode, nullabilityCode]

/-- What the comparison of two tables reports about one column. -/
def columnFindings (path : String) (after : List (String × DatabaseColumn))
    (entry : String × DatabaseColumn) : List CompatibilityFinding :=
  match after.lookup entry.1 with
  | none =>
    [databaseFinding "database.column_removed" (path ++ "." ++ entry.1) .breaking entry.2.evidence
      "column is absent from the candidate table"]
  | some candidate => compareDatabaseColumn (path ++ "." ++ entry.1) entry.2 candidate

theorem compareDatabaseTable_eq (path : String) (before after : DatabaseTable) :
    compareDatabaseTable path before after =
      (databaseColumnInventory path "before" before).2 ++
      (databaseColumnInventory path "after" after).2 ++
      (inventory (·.name) before.columns).flatMap
        (columnFindings path (inventory (·.name) after.columns)) ++
      compareDatabaseIndexes path before.indexes after.indexes ++
      compareDatabaseForeignKeys path before.foreignKeys after.foreignKeys := by
  simp only [compareDatabaseTable, databaseColumnInventory_fst]
  rfl

def tableFindings (after : List (String × DatabaseTable)) (entry : String × DatabaseTable) :
    List CompatibilityFinding :=
  match after.lookup entry.1 with
  | none =>
    [databaseFinding "database.table_removed" entry.1 .breaking entry.2.evidence
      "table is absent from the candidate schema"]
  | some candidate => compareDatabaseTable entry.1 entry.2 candidate

/-- What the comparison reports before it comes to the tables. -/
def openingFindings (fingerprint : DataDocument → Option String) (before after : DataDocument) :
    List CompatibilityFinding :=
  (fingerprints (fingerprint before) (fingerprint after) "database").2 ++
  (if before.incomplete || after.incomplete || !before.warnings.isEmpty || !after.warnings.isEmpty then
    [finding "database.extraction_incomplete" "database" .unknown
      ["one or both database documents contain extraction limitations"]
      [before.sourcePath, after.sourcePath]
      ["resolve database extraction warnings before compatibility analysis"]]
    else []) ++
  (databaseInventory before "before").2 ++ (databaseInventory after "after").2

def sharedConsumerFinding (before after : DataDocument) : CompatibilityFinding :=
  finding "database.shared_consumer_impact_unmodeled" "database.consumers" .unknown
    ["one artifact cannot establish the impact on every shared-table consumer"]
    [before.sourcePath, after.sourcePath]
    ["query the repository graph for all readers and writers, then run their integration tests"]

theorem databaseFindings_eq (fingerprint : DataDocument → Option String)
    (before after : DataDocument) :
    databaseFindings fingerprint before after =
      openingFindings fingerprint before after ++
      (inventory databaseTableKey before.tables).flatMap
        (tableFindings (inventory databaseTableKey after.tables)) ++
      compareMigrations before after ++ [sharedConsumerFinding before after] := by
  simp only [databaseFindings, databaseInventory_fst]
  rfl

variable (fingerprint : DataDocument → Option String) (before after : DataDocument)

theorem codes_openingFindings : Codes ["database.fingerprint_unavailable",
    "database.extraction_incomplete", "database.table_duplicate"]
    (openingFindings fingerprint before after) := by
  have inventories : ∀ document side, Codes ["database.fingerprint_unavailable",
      "database.extraction_incomplete", "database.table_duplicate"]
      (databaseInventory document side).2 := fun document side =>
    each_takeInventory (fun _ => each_nil) (fun _ _ => by simp) document.tables
  simp only [openingFindings, each_append, inventories, and_true]
  refine ⟨fun f member => ?_, by simp⟩
  have same : f.code = "database" ++ ".fingerprint_unavailable" :=
    List.mem_singleton.mp (code_fingerprints _ _ _ f member)
  simp only [same]
  decide

theorem codes_columnInventory (path side : String) (table : DatabaseTable) :
    Codes ["database.column_duplicate"] (databaseColumnInventory path side table).2 :=
  each_takeInventory (fun _ => each_nil) (fun _ _ => by simp) table.columns

theorem codes_indexes (path : String) (before after : List DatabaseIndex) :
    Codes ["database.index_removed"] (compareDatabaseIndexes path before after) := by
  simp [compareDatabaseIndexes, databaseFinding]

theorem codes_foreignKeys (path : String) (before after : List DatabaseForeignKey) :
    Codes ["database.foreign_key_removed"] (compareDatabaseForeignKeys path before after) := by
  simp [compareDatabaseForeignKeys, databaseFinding]

theorem codes_migrations : Codes ["database.migration_predecessor_changed",
    "database.migration_predecessor_conflict", "database.migration_order_regressed",
    "database.migration_metadata_removed", "database.migration_metadata_added"]
    (compareMigrations before after) := by
  unfold compareMigrations
  split
  · refine each_append.mpr ⟨by simp, ?_⟩
    split
    · simp
    · exact each_nil
  · simp
  · simp
  · exact each_nil

theorem marks_columns {code : String}
    {change : DatabaseColumn → DatabaseColumn → Option CompatibilityStatus}
    (varies : code ∈ [typeCode, nullabilityCode])
    (column : ∀ path before after, marks code (compareDatabaseColumn path before after) =
      (change before after).toList.map fun status => (path, status)) :
    marks code (databaseFindings fingerprint before after) = columnChanges change before after := by
  have outside : ∀ codes : List String, (codes.contains typeCode || codes.contains nullabilityCode) =
      false → codes.contains code = false := by
    intro codes none
    rw [Bool.or_eq_false_iff] at none
    rcases List.mem_cons.mp varies with rfl | last
    · exact none.1
    · rw [List.mem_singleton.mp last]
      exact none.2
  have columns : ∀ path after entry, marks code (columnFindings path after entry) =
      (after.lookup entry.1).toList.flatMap fun candidate =>
        (change entry.2 candidate).toList.map fun status => (path ++ "." ++ entry.1, status) := by
    intro path after entry
    cases found : after.lookup entry.1 with
    | none =>
      have removed : Codes ["database.column_removed"] (columnFindings path after entry) := by
        simp [columnFindings, found, databaseFinding]
      exact marks_eq_nil removed (outside _ (by decide))
    | some candidate =>
      rw [columnFindings, found]
      simpa using column _ _ _
  have tables : ∀ after entry, marks code (tableFindings after entry) =
      (after.lookup entry.1).toList.flatMap fun candidate =>
        (keptColumns (entry.1, entry.2, candidate)).flatMap fun pair =>
          (change pair.2.1 pair.2.2).toList.map fun status => (pair.1, status) := by
    intro after entry
    cases found : after.lookup entry.1 with
    | none =>
      have removed : Codes ["database.table_removed"] (tableFindings after entry) := by
        simp [tableFindings, found, databaseFinding]
      exact marks_eq_nil removed (outside _ (by decide))
    | some candidate =>
      rw [tableFindings, found]
      simp only [compareDatabaseTable_eq, marks_append, marks_flatMap, columns, keptColumns,
        List.flatMap_assoc, Option.toList_some, List.flatMap_singleton]
      rw [marks_eq_nil (codes_columnInventory _ _ _) (outside _ (by decide)),
        marks_eq_nil (codes_columnInventory _ _ _) (outside _ (by decide)),
        marks_eq_nil (codes_indexes _ _ _) (outside _ (by decide)),
        marks_eq_nil (codes_foreignKeys _ _ _) (outside _ (by decide))]
      simp [List.flatMap_map]
  have shared : Codes ["database.shared_consumer_impact_unmodeled"]
      [sharedConsumerFinding before after] := by simp [sharedConsumerFinding]
  simp only [databaseFindings_eq, marks_append, marks_flatMap, tables]
  rw [marks_eq_nil (codes_openingFindings fingerprint before after) (outside _ (by decide)),
    marks_eq_nil (codes_migrations before after) (outside _ (by decide)),
    marks_eq_nil shared (outside _ (by decide))]
  simp [columnChanges, keptTables, List.flatMap_assoc, List.flatMap_map]

theorem marks_ite {code : String} {p : Prop} [Decidable p] {f : CompatibilityFinding} :
    marks code (if p then [f] else []) = if p ∧ f.code = code then [(f.path, f.status)] else [] := by
  by_cases h : p <;> by_cases same : f.code = code <;> simp [marks, h, same]

theorem marks_typeCode (path : String) (before after : DatabaseColumn) :
    marks typeCode (compareDatabaseColumn path before after) =
      (typeChange before after).toList.map fun status => (path, status) := by
  simp only [compareDatabaseColumn, marks_append, marks_ite, databaseFinding, code_finding,
    path_finding, status_finding, typeCode, String.reduceEq, and_false, and_true, if_false,
    List.append_nil, typeChange]
  by_cases same : before.dataType = after.dataType
  · rw [if_neg (not_not_intro same), if_pos same]
    rfl
  · rw [if_pos same, if_neg same]
    cases before.dataType <;> cases after.dataType
    · rfl
    · rfl
    · rfl
    · dsimp only
      split_ifs <;> rfl

theorem marks_nullabilityCode (path : String) (before after : DatabaseColumn) :
    marks nullabilityCode (compareDatabaseColumn path before after) =
      (nullabilityChange before after).toList.map fun status => (path, status) := by
  simp only [compareDatabaseColumn, marks_append, marks_ite, databaseFinding, code_finding,
    path_finding, status_finding, nullabilityCode, String.reduceEq, and_false, and_true, if_false,
    List.append_nil, List.nil_append, nullabilityChange]
  by_cases same : before.nullable = after.nullable
  · rw [if_neg (not_not_intro same), if_pos same]
    rfl
  · rw [if_pos same, if_neg same]
    rcases before.nullable with _ | _ | _ <;> rcases after.nullable with _ | _ | _ <;>
      first | rfl | (dsimp only; split_ifs <;> rfl)

end Findings

section Spared

abbrev Spared (status : CompatibilityStatus) : List CompatibilityFinding → Prop :=
  Each fun f => f.status = status → f.code ∈ [typeCode, nullabilityCode]

variable {status : CompatibilityStatus}

theorem spared_column (path : String) (before after : DatabaseColumn) :
    Spared status (compareDatabaseColumn path before after) ↔
      ¬(status = .breaking ∧ before.primaryKey = true ∧ after.primaryKey = false) ∧
        ¬(status = .potentiallyBreaking ∧ before.unique = true ∧ after.unique = false) := by
  simp only [compareDatabaseColumn, each_append, each_ite, each_singleton, each_nil, databaseFinding,
    code_finding, status_finding, typeCode, nullabilityCode, List.mem_cons, String.reduceEq,
    List.not_mem_nil, or_false, or_true, implies_true, and_true, true_and, imp_false,
    Bool.and_eq_true, Bool.not_eq_true']
  grind

theorem spared_columnFindings (path : String) (after : List (String × DatabaseColumn))
    (entry : String × DatabaseColumn) :
    Spared status (columnFindings path after entry) ↔
      (after.lookup entry.1 = none → status ≠ .breaking) ∧
        ∀ candidate, after.lookup entry.1 = some candidate →
          ¬(status = .breaking ∧ entry.2.primaryKey = true ∧ candidate.primaryKey = false) ∧
          ¬(status = .potentiallyBreaking ∧ entry.2.unique = true ∧ candidate.unique = false) := by
  cases found : after.lookup entry.1 with
  | none =>
    simp only [columnFindings, found, databaseFinding, each_singleton, code_finding, status_finding,
      typeCode, nullabilityCode, List.mem_cons, String.reduceEq, List.not_mem_nil, or_false, imp_false]
    grind
  | some candidate =>
    rw [columnFindings, found]
    simp only [spared_column, reduceCtorEq, false_imp_iff, true_and, Option.some.injEq, forall_eq']

theorem spared_indexes (path : String) (before after : List DatabaseIndex) :
    Spared status (compareDatabaseIndexes path before after) ↔
      (status = .potentiallyBreaking → ∀ index ∈ before,
        databaseIndexKey index ∈ after.map databaseIndexKey) := by
  simp only [compareDatabaseIndexes, each_flatMap, each_ite, each_singleton, each_nil, databaseFinding,
    code_finding, status_finding, typeCode, nullabilityCode, List.mem_cons, String.reduceEq,
    List.not_mem_nil, or_false, imp_false, implies_true, true_and]
  grind

theorem spared_foreignKeys (path : String) (before after : List DatabaseForeignKey) :
    Spared status (compareDatabaseForeignKeys path before after) ↔
      (status = .potentiallyBreaking → ∀ foreignKey ∈ before,
        databaseForeignKey foreignKey ∈ after.map databaseForeignKey) := by
  simp only [compareDatabaseForeignKeys, each_flatMap, each_ite, each_singleton, each_nil,
    databaseFinding, code_finding, status_finding, typeCode, nullabilityCode, List.mem_cons,
    String.reduceEq, List.not_mem_nil, or_false, imp_false, implies_true, true_and]
  grind

variable (fingerprint : DataDocument → Option String) (before after : DataDocument)

theorem quiet_openingFindings : Quiet (openingFindings fingerprint before after) := by
  have inventories : ∀ document side, Quiet (databaseInventory document side).2 := fun document _ =>
    each_takeInventory (fun _ => each_nil) (fun _ _ => by simp) document.tables
  simp only [openingFindings, each_append, inventories, and_true]
  exact ⟨quiet_fingerprints _ _ _, by simp⟩

theorem quiet_columnInventory (path side : String) (table : DatabaseTable) :
    Quiet (databaseColumnInventory path side table).2 :=
  each_takeInventory (fun _ => each_nil) (fun _ _ => by simp) table.columns

theorem spared_of_quiet {findings : List CompatibilityFinding} (quiet : Quiet findings)
    (breaks : status.Breaks) : Spared status findings :=
  fun f member same => absurd (same ▸ breaks) (quiet f member)

theorem spared_migrations (breaks : status.Breaks) :
    Spared status (compareMigrations before after) ↔
      ∀ previous, before.migration = some previous → ∀ candidate, after.migration = some candidate →
        ¬(status = .breaking ∧ previous.revision = candidate.revision ∧
          previous.downRevision ≠ candidate.downRevision) ∧
        ¬(status = .potentiallyBreaking ∧ previous.revision ≠ candidate.revision ∧
          candidate.downRevision ≠ previous.revision) ∧
        ∀ previousOrder, previous.orderHint = some previousOrder →
          ∀ candidateOrder, candidate.orderHint = some candidateOrder →
            ¬(status = .breaking ∧ candidateOrder < previousOrder) := by
  have quiet : ∀ {f : CompatibilityFinding}, f.status = .unknown → Spared status [f] := by
    intro f unknown
    refine spared_of_quiet (each_singleton.mpr ?_) breaks
    rw [unknown]
    exact not_breaks_unknown
  cases was : before.migration with
  | none =>
    refine iff_of_true ?_ (by simp)
    cases is : after.migration with
    | none =>
      rw [compareMigrations, was, is]
      exact each_nil
    | some candidate =>
      rw [compareMigrations, was, is]
      exact quiet rfl
  | some previous =>
    cases is : after.migration with
    | none =>
      refine iff_of_true ?_ (by simp)
      rw [compareMigrations, was, is]
      exact quiet rfl
    | some candidate =>
      rw [compareMigrations, was, is]
      simp only [Option.some.injEq, forall_eq']
      refine each_append.trans ?_
      cases previous.orderHint <;> cases candidate.orderHint <;>
        simp only [each_ite, each_singleton, each_nil, code_finding, status_finding, typeCode,
          nullabilityCode, List.mem_cons, String.reduceEq, List.not_mem_nil, or_false, imp_false,
          reduceCtorEq, false_imp_iff, implies_true, and_true, Option.some.injEq, forall_eq']
      · grind
      · grind
      · grind
      · grind

theorem forall_missing {α : Type} {key : α → String} {l l' : List α} {P : Prop} :
    (∀ entry ∈ inventory key l, (inventory key l').lookup entry.1 = none → P) ↔
      ∀ a ∈ l, key a ∉ l'.map key → P := by
  have absent : ∀ k, (inventory key l').lookup k = none ↔ k ∉ l'.map key := fun k => by
    rw [← Option.isNone_iff_eq_none, lookup_isNone, mem_map_inventory]
  simp only [absent]
  constructor
  · intro all a member missing
    have here : key a ∈ (inventory key l).map Prod.fst :=
      mem_map_inventory.mpr (List.mem_map_of_mem member)
    obtain ⟨entry, listed, same⟩ := List.mem_map.mp here
    exact all entry listed (same ▸ missing)
  · intro all entry member missing
    obtain ⟨listed, same⟩ := mem_of_mem_inventory member
    exact all entry.2 listed (same ▸ missing)

theorem mem_keptTables {table : String × DatabaseTable × DatabaseTable} :
    table ∈ keptTables before after ↔
      (table.1, table.2.1) ∈ inventory databaseTableKey before.tables ∧
        (inventory databaseTableKey after.tables).lookup table.1 = some table.2.2 := by
  simp only [keptTables, List.mem_flatMap, List.mem_map, Option.mem_toList]
  constructor
  · rintro ⟨entry, member, candidate, found, rfl⟩
    exact ⟨member, found⟩
  · rintro ⟨member, found⟩
    exact ⟨_, member, _, found, rfl⟩

theorem spared_compareDatabaseTable (breaks : status.Breaks)
    (table : String × DatabaseTable × DatabaseTable) :
    Spared status (compareDatabaseTable table.1 table.2.1 table.2.2) ↔
      (∀ column ∈ table.2.1.columns, column.name ∉ table.2.2.columns.map (·.name) →
        status ≠ .breaking) ∧
      (∀ pair ∈ keptColumns table,
        ¬(status = .breaking ∧ pair.2.1.primaryKey = true ∧ pair.2.2.primaryKey = false) ∧
        ¬(status = .potentiallyBreaking ∧ pair.2.1.unique = true ∧ pair.2.2.unique = false)) ∧
      (status = .potentiallyBreaking → ∀ index ∈ table.2.1.indexes,
        databaseIndexKey index ∈ table.2.2.indexes.map databaseIndexKey) ∧
      (status = .potentiallyBreaking → ∀ foreignKey ∈ table.2.1.foreignKeys,
        databaseForeignKey foreignKey ∈ table.2.2.foreignKeys.map databaseForeignKey) := by
  have inventories : ∀ path side table,
      Spared status (databaseColumnInventory path side table).2 := fun path side table =>
    spared_of_quiet (quiet_columnInventory path side table) breaks
  have pairs : (∀ pair ∈ keptColumns table,
        ¬(status = .breaking ∧ pair.2.1.primaryKey = true ∧ pair.2.2.primaryKey = false) ∧
        ¬(status = .potentiallyBreaking ∧ pair.2.1.unique = true ∧ pair.2.2.unique = false)) ↔
      ∀ entry ∈ inventory (·.name) table.2.1.columns, ∀ candidate,
        (inventory (·.name) table.2.2.columns).lookup entry.1 = some candidate →
          ¬(status = .breaking ∧ entry.2.primaryKey = true ∧ candidate.primaryKey = false) ∧
          ¬(status = .potentiallyBreaking ∧ entry.2.unique = true ∧ candidate.unique = false) := by
    simp only [keptColumns, List.mem_flatMap, List.mem_map, Option.mem_toList]
    constructor
    · intro all entry member candidate found
      exact all _ ⟨entry, member, candidate, found, rfl⟩
    · rintro all _ ⟨entry, member, candidate, found, rfl⟩
      exact all entry member candidate found
  rw [compareDatabaseTable_eq, pairs, ← forall_missing]
  simp only [each_append, each_flatMap, inventories, spared_columnFindings, spared_indexes,
    spared_foreignKeys, true_and, forall_and, and_assoc]

theorem spared_tables :
    (∀ entry ∈ inventory databaseTableKey before.tables,
        Spared status (tableFindings (inventory databaseTableKey after.tables) entry)) ↔
      (∀ table ∈ before.tables, databaseTableKey table ∉ after.tables.map databaseTableKey →
        status ≠ .breaking) ∧
      ∀ table ∈ keptTables before after,
        Spared status (compareDatabaseTable table.1 table.2.1 table.2.2) := by
  rw [← forall_missing]
  constructor
  · intro all
    refine ⟨fun entry member missing breaking => ?_, fun table member => ?_⟩
    · have spared := all entry member
      rw [tableFindings, missing] at spared
      have column := each_singleton.mp spared breaking.symm
      exact absurd column (by simp [databaseFinding, typeCode, nullabilityCode])
    · obtain ⟨listed, found⟩ := (mem_keptTables before after).mp member
      have spared := all _ listed
      rwa [tableFindings, found] at spared
  · intro ⟨missing, kept⟩ entry member
    cases found : (inventory databaseTableKey after.tables).lookup entry.1 with
    | none =>
      rw [tableFindings, found]
      exact each_singleton.mpr fun same => absurd same.symm (missing entry member found)
    | some candidate =>
      rw [tableFindings, found]
      exact kept (entry.1, entry.2, candidate) ((mem_keptTables before after).mpr ⟨member, found⟩)

theorem spared_databaseFindings (breaks : status.Breaks) :
    Spared status (databaseFindings fingerprint before after) ↔ ¬OtherBreak before after status := by
  have opening : Spared status (openingFindings fingerprint before after) :=
    spared_of_quiet (quiet_openingFindings fingerprint before after) breaks
  have shared : Spared status [sharedConsumerFinding before after] :=
    spared_of_quiet (each_singleton.mpr not_breaks_unknown) breaks
  rw [databaseFindings_eq]
  simp only [each_append, each_flatMap, opening, shared, true_and, and_true,
    spared_tables before after, spared_compareDatabaseTable breaks,
    spared_migrations before after breaks]
  constructor
  · rintro ⟨⟨tables, kept⟩, migrations⟩ other
    cases other with
    | table table mem gone => exact tables table mem gone rfl
    | column table mem column mem' gone => exact (kept table mem).1 column mem' gone rfl
    | primaryKey table mem pair mem' lost => exact ((kept table mem).2.1 pair mem').1 ⟨rfl, lost⟩
    | predecessor previous candidate was is same moved =>
      exact (migrations previous was candidate is).1 ⟨rfl, same, moved⟩
    | order previous candidate was is previousOrder candidateOrder wasAt isAt earlier =>
      exact (migrations previous was candidate is).2.2 previousOrder wasAt candidateOrder isAt
        ⟨rfl, earlier⟩
    | unique table mem pair mem' lost => exact ((kept table mem).2.1 pair mem').2 ⟨rfl, lost⟩
    | index table mem index mem' gone => exact gone ((kept table mem).2.2.1 rfl index mem')
    | foreignKey table mem foreignKey mem' gone =>
      exact gone ((kept table mem).2.2.2 rfl foreignKey mem')
    | conflict previous candidate was is moved apart =>
      exact (migrations previous was candidate is).2.1 ⟨rfl, moved, apart⟩
  · intro none
    refine ⟨⟨?_, fun table mem => ⟨?_, fun pair mem' => ⟨?_, ?_⟩, ?_, ?_⟩⟩,
      fun previous was candidate is => ⟨?_, ?_, ?_⟩⟩
    · rintro table mem gone rfl
      exact none (.table table mem gone)
    · rintro column mem' gone rfl
      exact none (.column table mem column mem' gone)
    · rintro ⟨rfl, lost⟩
      exact none (.primaryKey table mem pair mem' lost)
    · rintro ⟨rfl, lost⟩
      exact none (.unique table mem pair mem' lost)
    · rintro rfl index mem'
      by_contra gone
      exact none (.index table mem index mem' gone)
    · rintro rfl foreignKey mem'
      by_contra gone
      exact none (.foreignKey table mem foreignKey mem' gone)
    · rintro ⟨rfl, same, moved⟩
      exact none (.predecessor previous candidate was is same moved)
    · rintro ⟨rfl, moved, apart⟩
      exact none (.conflict previous candidate was is moved apart)
    · rintro previousOrder wasAt candidateOrder isAt ⟨rfl, earlier⟩
      exact none (.order previous candidate was is previousOrder candidateOrder wasAt isAt earlier)

end Spared

section Main

theorem fixed_table (path : String) (before after : DatabaseTable) :
    Each FixedStatus (compareDatabaseTable path before after) := by
  have inventories : ∀ path side (table : DatabaseTable),
      Each FixedStatus (databaseColumnInventory path side table).2 := fun path side table =>
    each_takeInventory (fun _ => each_nil) (fun _ _ => by simp [FixedStatus, databaseRuleStatus])
      table.columns
  have columns : ∀ after entry, Each FixedStatus (columnFindings path after entry) := by
    intro after entry
    unfold columnFindings
    split
    · simp [FixedStatus, databaseFinding, databaseRuleStatus]
    · exact fixedStatus_column _ _ _
  rw [compareDatabaseTable_eq]
  simp only [each_append, each_flatMap, inventories, columns, true_and, implies_true]
  constructor
  · simp [compareDatabaseIndexes, FixedStatus, databaseFinding, databaseRuleStatus]
  · simp [compareDatabaseForeignKeys, FixedStatus, databaseFinding, databaseRuleStatus]

theorem fixed_databaseFindings (fingerprint : DataDocument → Option String)
    (before after : DataDocument) :
    Each FixedStatus (databaseFindings fingerprint before after) := by
  have inventories : ∀ document side, Each FixedStatus (databaseInventory document side).2 :=
    fun document side => each_takeInventory (fun _ => each_nil)
      (fun _ _ => by simp [FixedStatus, databaseRuleStatus]) document.tables
  have prints : Each FixedStatus
      (fingerprints (fingerprint before) (fingerprint after) "database").2 := by
    have ruled : Each (fun f => f.status = databaseRuleStatus f.code)
        (fingerprints (fingerprint before) (fingerprint after) "database").2 :=
      ruled_fingerprints _ _ (by decide)
    exact fun f member => .inr (ruled f member)
  have tables : ∀ after entry, Each FixedStatus (tableFindings after entry) := by
    intro after entry
    unfold tableFindings
    split
    · simp [FixedStatus, databaseFinding, databaseRuleStatus]
    · exact fixed_table _ _ _
  have migrations : Each FixedStatus (compareMigrations before after) := by
    unfold compareMigrations
    split
    · refine each_append.mpr ⟨by simp [FixedStatus, databaseRuleStatus], ?_⟩
      split <;> simp [FixedStatus, databaseRuleStatus]
    · simp [FixedStatus, databaseRuleStatus]
    · simp [FixedStatus, databaseRuleStatus]
    · exact each_nil
  rw [databaseFindings_eq]
  simp only [openingFindings, each_append, each_flatMap, inventories, prints, tables, migrations,
    true_and, and_true, implies_true]
  exact ⟨by simp [FixedStatus, databaseRuleStatus],
    by simp [sharedConsumerFinding, FixedStatus, databaseRuleStatus]⟩

section Database

variable (fingerprint : DataDocument → Option String) {before after : DataDocument}
  {status : CompatibilityStatus}

theorem otherBreak_iff (breaks : status.Breaks) : OtherBreak before after status ↔
    ∃ f ∈ databaseFindings fingerprint before after,
      f.status = status ∧ f.code ∉ [typeCode, nullabilityCode] := by
  have spared := spared_databaseFindings fingerprint before after breaks
  rw [← not_iff_not, ← spared]
  simp only [Each, not_exists, not_and, not_not]

theorem exists_change {P : List (String × CompatibilityStatus) → Prop} :
    (∃ change ∈ [typeChange, nullabilityChange], P (columnChanges change before after)) ↔
      ∃ code ∈ [typeCode, nullabilityCode],
        P (marks code (databaseFindings fingerprint before after)) := by
  have types := marks_columns fingerprint before after (by simp) marks_typeCode
  have nullability := marks_columns fingerprint before after (by simp) marks_nullabilityCode
  simp [types, nullability]

theorem reports_databaseFindings (breaks : status.Breaks) :
    Reports status (databaseFindings fingerprint before after) ↔ Makes status before after := by
  rw [Makes, otherBreak_iff fingerprint breaks,
    exists_change fingerprint (P := fun changes => ∃ path, (path, status) ∈ changes)]
  simp only [← reports_code]
  constructor
  · rintro ⟨f, member, same⟩
    by_cases varies : f.code ∈ [typeCode, nullabilityCode]
    · exact .inr ⟨f.code, varies, f, member, rfl, same⟩
    · exact .inl ⟨f, member, same, varies⟩
  · rintro (⟨f, member, same, -⟩ | ⟨code, -, f, member, -, same⟩)
    · exact ⟨f, member, same⟩
    · exact ⟨f, member, same⟩

theorem reports_kept (prints : String × String) (breaks : status.Breaks) :
    Reports status (finishReport prints (databaseFindings fingerprint before after)).findings ↔
      OtherBreak before after status ∨ ∃ change ∈ [typeChange, nullabilityChange],
        ∃ path, (columnChanges change before after).lookup path = some status := by
  rw [exists_change fingerprint (P := fun changes => ∃ path, changes.lookup path = some status)]
  have kept : ∀ code, (∃ path, (marks code (databaseFindings fingerprint before after)).lookup path =
        some status) ↔
      ∃ f ∈ (finishReport prints (databaseFindings fingerprint before after)).findings,
        f.code = code ∧ f.status = status := fun _ => kept_code.symm
  simp only [kept]
  constructor
  · rintro ⟨f, shown, same⟩
    by_cases varies : f.code ∈ [typeCode, nullabilityCode]
    · exact .inr ⟨f.code, varies, f, shown, rfl, same⟩
    · exact .inl ((otherBreak_iff fingerprint breaks).mpr ⟨f, mem_finishReport shown, same, varies⟩)
  · rintro (other | ⟨code, -, f, shown, -, same⟩)
    · obtain ⟨f, member, same, fixed⟩ := (otherBreak_iff fingerprint breaks).mp other
      obtain ⟨g, shown, listed, key⟩ := exists_finishReport member
      have code := (path_code_of_key key).2
      have ruled := fixed_databaseFindings fingerprint before after
      refine ⟨g, shown, ?_⟩
      rw [(ruled g listed).resolve_left (code ▸ fixed), code,
        ← (ruled f member).resolve_left fixed, same]
    · exact ⟨f, shown, same⟩

theorem hidden_iff (prints : String × String) (breaks : status.Breaks) :
    Hidden status before after ↔
      Reports status (databaseFindings fingerprint before after) ∧
        ¬Reports status (finishReport prints (databaseFindings fingerprint before after)).findings := by
  rw [reports_databaseFindings fingerprint breaks, reports_kept fingerprint prints breaks]
  constructor
  · rintro ⟨made, elsewhere, covered⟩
    refine ⟨made, ?_⟩
    rintro (other | ⟨change, mem, path, found⟩)
    · exact elsewhere other
    · exact covered change mem path found
  · rintro ⟨made, lost⟩
    exact ⟨made, fun other => lost (.inl other),
      fun change mem path found => lost (.inr ⟨change, mem, path, found⟩)⟩

theorem database_statusFaithful_iff (prints : String × String) :
    StatusFaithful (databaseFindings fingerprint before after)
        (finishReport prints (databaseFindings fingerprint before after)) ↔
      ¬HidesBreak before after := by
  have unknown : ¬∀ f ∈ (finishReport prints (databaseFindings fingerprint before after)).findings,
      f.status = .compatible := by
    intro all
    have member : sharedConsumerFinding before after ∈ databaseFindings fingerprint before after := by
      rw [databaseFindings_eq]
      simp
    obtain ⟨g, shown, listed, key⟩ := exists_finishReport member
    have code : g.code = "database.shared_consumer_impact_unmodeled" := (path_code_of_key key).2
    have ruled := fixed_databaseFindings fingerprint before after g listed
    rw [FixedStatus, code, all g shown] at ruled
    exact absurd ruled (by decide)
  rw [statusFaithful_iff, HidesBreak, hidden_iff fingerprint prints (.inl rfl),
    hidden_iff fingerprint prints (.inr rfl), ← reports_databaseFindings fingerprint (.inl rfl)]
  simp only [unknown, false_imp_iff, and_true]
  grind

end Database

variable (graphqlPrint : GraphqlDocument → Option String) (eventPrint : EventDocument → Option String)
  (protoPrint : ProtoFile → Option String)
  (httpPrint : List (String × String × String × String × ℕ × ℕ × ℕ) → Option String)
  (packagePrint : PackageManifest → Option String) (dataPrint : DataDocument → Option String)

/-- The status of every report is that of its worst finding, unless the worst breaks of a
database comparison are hidden behind earlier changes of columns with the same paths. -/
theorem reports_faithful_iff (graphql graphql' : GraphqlDocument) (event event' : EventDocument)
    (proto proto' : ProtoFile) (http http' : List HttpBoundary) (package package' : PackageManifest)
    (data data' : DataDocument) :
    StatusFaithful (graphqlFindings graphqlPrint graphql graphql')
        (compareGraphqlContracts graphqlPrint graphql graphql') ∧
      StatusFaithful (eventFindings eventPrint event event')
        (compareEventContracts eventPrint event event') ∧
      StatusFaithful (protobufFindings protoPrint proto proto')
        (compareProtobufContracts protoPrint proto proto') ∧
      StatusFaithful (httpFindings httpPrint http http') (compareHttpContracts httpPrint http http') ∧
      StatusFaithful (packageFindings packagePrint package package')
        (comparePackageContracts packagePrint package package') ∧
      StatusFaithful (databaseFindings dataPrint data data')
        (compareDatabaseContracts dataPrint data data') ↔
    ¬HidesBreak data data' := by
  have graphqlFaithful : StatusFaithful (graphqlFindings graphqlPrint graphql graphql')
      (compareGraphqlContracts graphqlPrint graphql graphql') :=
    statusFaithful_of_keyed (keyed_of_rule (ruled_graphql graphqlPrint graphql graphql'))
  have eventFaithful : StatusFaithful (eventFindings eventPrint event event')
      (compareEventContracts eventPrint event event') :=
    statusFaithful_of_keyed (keyed_of_rule (ruled_event eventPrint event event'))
  have protoFaithful : StatusFaithful (protobufFindings protoPrint proto proto')
      (compareProtobufContracts protoPrint proto proto') :=
    statusFaithful_of_keyed (keyed_of_rule (ruled_protobuf protoPrint proto proto'))
  have httpFaithful : StatusFaithful (httpFindings httpPrint http http')
      (compareHttpContracts httpPrint http http') :=
    statusFaithful_of_keyed (keyed_of_rule (ruled_http httpPrint http http'))
  have packageFaithful : StatusFaithful (packageFindings packagePrint package package')
      (comparePackageContracts packagePrint package package') :=
    statusFaithful_of_keyed (keyed_package packagePrint package package')
  have databaseFaithful : StatusFaithful (databaseFindings dataPrint data data')
      (compareDatabaseContracts dataPrint data data') ↔ ¬HidesBreak data data' :=
    database_statusFaithful_iff dataPrint _
  rw [databaseFaithful]
  exact ⟨fun all => all.2.2.2.2.2, fun shown => ⟨graphqlFaithful, eventFaithful, protoFaithful,
    httpFaithful, packageFaithful, shown⟩⟩

end Main

section Dotted

def dottedColumn (name : String) (nullable : Bool) : DatabaseColumn where
  name := name
  dataType := none
  nullable := some nullable
  primaryKey := false
  unique := false
  defaultPresent := false
  evidence := 1

def dottedTable (schema : Option String) (name : String) (column : DatabaseColumn) : DatabaseTable where
  database := none
  schema := schema
  name := name
  columns := [column]
  indexes := []
  foreignKeys := []
  evidence := 1

/-- The column b.c of the table a and the column c of the table a.b have one path. -/
def dottedDocument (first second : Bool) : DataDocument where
  sourcePath := "schema.sql"
  tables := [dottedTable none "a" (dottedColumn "b.c" first),
    dottedTable (some "a") "b" (dottedColumn "c" second)]
  migration := none
  warnings := []
  incomplete := false
  unread := []

/-- One column becomes nullable and the other one is no longer, and the break is not told. -/
theorem hidden_nullability :
    ¬∀ (dataPrint : DataDocument → Option String) (data data' : DataDocument),
      StatusFaithful (databaseFindings dataPrint data data')
        (compareDatabaseContracts dataPrint data data') := by
  intro all
  have faithful := all (fun _ => some "") (dottedDocument false true) (dottedDocument true false)
  have test : (databaseFindings (fun _ => some "") (dottedDocument false true)
        (dottedDocument true false)).any (fun f => f.status = .breaking) = true ∧
      (compareDatabaseContracts (fun _ => some "") (dottedDocument false true)
        (dottedDocument true false)).status = .unknown := by
    decide +kernel
  have broken := faithful.breaking (by simpa [Reports] using test.1)
  rw [test.2] at broken
  cases broken

end Dotted

end CodeSystemGraph.Contracts
