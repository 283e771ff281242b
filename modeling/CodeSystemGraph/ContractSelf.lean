import CodeSystemGraph.ContractInventories
import CodeSystemGraph.ContractSchemas

/-! Comparing a contract with itself. The comparators that inventory both sides are
silent. The others hold each entry against the last one with its key, so they are
silent exactly when that one keeps what the entry declares. -/

namespace CodeSystemGraph.Contracts
open Ordered

section Findings

def Each (P : CompatibilityFinding → Prop) (findings : List CompatibilityFinding) : Prop :=
  ∀ f ∈ findings, P f

abbrev Quiet (findings : List CompatibilityFinding) : Prop := Each (fun f => ¬f.status.Breaks) findings

variable {α : Type} {P : CompatibilityFinding → Prop}

@[simp] theorem each_nil : Each P [] := by simp [Each]

@[simp] theorem each_singleton {f : CompatibilityFinding} : Each P [f] ↔ P f := by simp [Each]

@[simp] theorem each_append {l l' : List CompatibilityFinding} :
    Each P (l ++ l') ↔ Each P l ∧ Each P l' := by
  simp only [Each, List.mem_append, or_imp, forall_and]

@[simp] theorem each_flatMap {l : List α} {report : α → List CompatibilityFinding} :
    Each P (l.flatMap report) ↔ ∀ a ∈ l, Each P (report a) := by
  simp only [Each, List.mem_flatMap]
  constructor
  · exact fun each a mem f here => each f ⟨a, mem, here⟩
  · rintro each f ⟨a, mem, here⟩
    exact each a mem f here

@[simp] theorem each_ite {c : Prop} [Decidable c] {l l' : List CompatibilityFinding} :
    Each P (if c then l else l') ↔ (c → Each P l) ∧ (¬c → Each P l') := by
  by_cases h : c <;> simp [h]

@[simp] theorem breaks_breaking : CompatibilityStatus.breaking.Breaks := .inl rfl

@[simp] theorem breaks_potentiallyBreaking : CompatibilityStatus.potentiallyBreaking.Breaks := .inr rfl

@[simp] theorem not_breaks_unknown : ¬CompatibilityStatus.unknown.Breaks := by decide

@[simp] theorem not_breaks_incomparable : ¬CompatibilityStatus.incomparable.Breaks := by decide

@[simp] theorem not_breaks_compatible : ¬CompatibilityStatus.compatible.Breaks := by decide

@[simp] theorem status_finding (code path : String) (status : CompatibilityStatus)
    (factors evidence validations : List String) :
    (finding code path status factors evidence validations).status = status := rfl

@[simp] theorem code_finding (code path : String) (status : CompatibilityStatus)
    (factors evidence validations : List String) :
    (finding code path status factors evidence validations).code = code := rfl

@[simp] theorem path_finding (code path : String) (status : CompatibilityStatus)
    (factors evidence validations : List String) :
    (finding code path status factors evidence validations).path = path := rfl

theorem quiet_fingerprints (before after : Option String) (family : String) :
    Quiet (fingerprints before after family).2 := by
  simp [fingerprints]

end Findings

section Inventories

variable {K α : Type} [LinearOrder K] {key : α → K} {check : α → List CompatibilityFinding}
  {duplicate : α → α → CompatibilityFinding}

theorem takeInventory_fst (l : List α) : (takeInventory key check duplicate l).1 = inventory key l := by
  induction l using List.reverseRecOn with
  | nil => rfl
  | append_singleton l a ih =>
    rw [takeInventory, inventory, List.foldl_append, List.foldl_append, List.foldl_cons,
      List.foldl_cons]
    exact congrArg (upsert (key a) a fun _ => a) ih

theorem each_takeInventory {P : CompatibilityFinding → Prop} (checked : ∀ a, Each P (check a))
    (doubled : ∀ a b, P (duplicate a b)) (l : List α) :
    Each P (takeInventory key check duplicate l).2 := by
  induction l using List.reverseRecOn with
  | nil => exact each_nil
  | append_singleton l a ih =>
    rw [takeInventory, List.foldl_append, List.foldl_cons, List.foldl_nil]
    refine each_append.mpr ⟨each_append.mpr ⟨ih, checked a⟩, fun f mem => ?_⟩
    obtain ⟨previous, -, rfl⟩ := List.mem_map.mp mem
    exact doubled previous a

theorem lookup_of_mem_inventory [BEq K] [LawfulBEq K] {l : List α} {entry : K × α} (mem : entry ∈ inventory key l) :
    (inventory key l).lookup entry.1 = some entry.2 :=
  lookup_of_mem (nodup_inventory l) mem

theorem foldl_unchanged {β : Type} {step : β → α → β} {l : List α} {state : β}
    (same : ∀ a ∈ l, step state a = state) : l.foldl step state = state := by
  induction l with
  | nil => rfl
  | cons a l ih =>
    rw [List.foldl_cons, same a List.mem_cons_self]
    exact ih fun b mem => same b (List.mem_cons_of_mem a mem)

end Inventories

section Both

theorem compareHttpContracts_self
    (fingerprint : List (String × String × String × String × Nat × Nat × Nat) → Option String)
    (boundaries : List Routes.HttpBoundary) :
    Quiet (httpFindings fingerprint boundaries boundaries) := by
  have side : ∀ side, (httpInventory boundaries side).1 = inventory httpKey boundaries := fun _ =>
    takeInventory_fst boundaries
  have quiet : ∀ side, Quiet (httpInventory boundaries side).2 := by
    intro side
    refine each_takeInventory (fun boundary => ?_) (fun _ _ => by simp) boundaries
    simp [httpIncomplete]
  have unchanged : (inventory httpKey boundaries).foldl (compareHttpOperation
      (inventory httpKey boundaries) (inventory httpKey boundaries)) ([], []) = ([], []) := by
    refine foldl_unchanged fun entry mem => ?_
    rw [compareHttpOperation, lookup_of_mem_inventory mem]
    rfl
  simp only [httpFindings, side, unchanged, each_append, quiet, quiet_fingerprints, each_nil,
    each_flatMap, each_ite, each_singleton, status_finding, not_breaks_compatible,
    not_breaks_incomparable, not_false_eq_true, implies_true, and_self]

theorem compareManifestValues_self (family : String) (values : List PackageManifestValue)
    (removedStatus addedStatus : CompatibilityStatus) :
    Quiet (compareManifestValues family values values removedStatus addedStatus) := by
  have side : ∀ side, (manifestValueInventory family side values).1 = inventory (·.value) values :=
    fun _ => takeInventory_fst values
  have quiet : ∀ side, Quiet (manifestValueInventory family side values).2 := fun _ =>
    each_takeInventory (fun _ => each_nil) (fun _ _ => by simp) values
  simp only [compareManifestValues, side, each_append, quiet, each_flatMap, true_and]
  refine ⟨fun entry mem => ?_, fun entry mem => ?_⟩ <;>
    (rw [lookup_of_mem_inventory mem]; exact each_nil)

theorem comparePackageDependencies_self (dependencies : List PackageDependency) :
    Quiet (comparePackageDependencies dependencies dependencies) := by
  have side : ∀ side, (dependencyInventory dependencies side).1 = inventory dependencyKey dependencies :=
    fun _ => takeInventory_fst dependencies
  have quiet : ∀ side, Quiet (dependencyInventory dependencies side).2 := fun _ =>
    each_takeInventory (fun _ => each_nil) (fun _ _ => by simp) dependencies
  simp only [comparePackageDependencies, side, each_append, quiet, each_flatMap, true_and]
  refine ⟨fun entry mem => ?_, fun entry mem => ?_⟩
  · rw [lookup_of_mem_inventory mem]
    simp
  · rw [lookup_of_mem_inventory mem]
    exact each_nil

theorem comparePackageCoordinates_self (manifest : PackageManifest) :
    Quiet (comparePackageCoordinates manifest manifest) := by
  have side : ∀ side, (packageInventory manifest.packages side).1 =
      inventory packageKey manifest.packages := fun _ => takeInventory_fst manifest.packages
  have quiet : ∀ side, Quiet (packageInventory manifest.packages side).2 := fun _ =>
    each_takeInventory (fun _ => each_nil) (fun _ _ => by simp) manifest.packages
  have unchanged : (inventory packageKey manifest.packages).foldl
      (comparePackage (inventory packageKey manifest.packages)) ([], []) = ([], []) := by
    refine foldl_unchanged fun entry mem => ?_
    rw [comparePackage, lookup_of_mem_inventory mem]
    simp [comparePackageVersion]
  simp only [comparePackageCoordinates, side, unchanged, each_append, quiet, each_nil,
    each_flatMap, each_ite, each_singleton, status_finding, not_breaks_compatible,
    not_false_eq_true, implies_true, and_self]

theorem comparePackageContracts_self (fingerprint : PackageManifest → Option String)
    (manifest : PackageManifest) : Quiet (packageFindings fingerprint manifest manifest) := by
  simp only [packageFindings, each_append, quiet_fingerprints, comparePackageCoordinates_self,
    compareManifestValues_self, comparePackageDependencies_self, each_ite, each_singleton,
    status_finding, not_breaks_unknown, not_false_eq_true, each_nil, implies_true, and_self]

theorem compareDatabaseTable_self (path : String) (table : DatabaseTable) :
    Quiet (compareDatabaseTable path table table) := by
  have side : ∀ side, (databaseColumnInventory path side table).1 = inventory (·.name) table.columns :=
    fun _ => takeInventory_fst table.columns
  have quiet : ∀ side, Quiet (databaseColumnInventory path side table).2 := fun _ =>
    each_takeInventory (fun _ => each_nil) (fun _ _ => by simp) table.columns
  simp only [compareDatabaseTable, side, each_append, quiet, each_flatMap, true_and]
  refine ⟨⟨fun entry mem => ?_, ?_⟩, ?_⟩
  · rw [lookup_of_mem_inventory mem]
    simp [compareDatabaseColumn]
  · simp only [compareDatabaseIndexes, each_flatMap]
    intro index mem
    simp [List.mem_map_of_mem mem]
  · simp only [compareDatabaseForeignKeys, each_flatMap]
    intro foreignKey mem
    simp [List.mem_map_of_mem mem]

theorem compareMigrations_self (document : DataDocument) :
    Quiet (compareMigrations document document) := by
  cases migration : document.migration with
  | none => simp [compareMigrations, migration]
  | some metadata => cases hint : metadata.orderHint <;> simp [compareMigrations, migration, hint]

theorem compareDatabaseContracts_self (fingerprint : DataDocument → Option String)
    (document : DataDocument) : Quiet (databaseFindings fingerprint document document) := by
  have side : ∀ side, (databaseInventory document side).1 = inventory databaseTableKey document.tables :=
    fun _ => takeInventory_fst document.tables
  have quiet : ∀ side, Quiet (databaseInventory document side).2 := fun _ =>
    each_takeInventory (fun _ => each_nil) (fun _ _ => by simp) document.tables
  simp only [databaseFindings, side, each_append, quiet, quiet_fingerprints, compareMigrations_self,
    each_ite, each_singleton, status_finding, not_breaks_unknown, not_false_eq_true, each_nil,
    each_flatMap, implies_true, and_self, and_true, true_and]
  intro entry mem
  rw [lookup_of_mem_inventory mem]
  exact compareDatabaseTable_self entry.1 entry.2

end Both

section Rules

/-- The status that each rule of the schema comparators reports. -/
def ruleStatus (code : String) : CompatibilityStatus :=
  if code ∈ ["graphql.fingerprint_unavailable", "graphql.extraction_incomplete",
      "event.fingerprint_unavailable", "event.extraction_incomplete",
      "event.schema_coverage_changed", "protobuf.fingerprint_unavailable"] then .unknown
  else .breaking

abbrev Ruled (findings : List CompatibilityFinding) : Prop :=
  Each (fun f => f.status = ruleStatus f.code) findings

theorem ruled_fingerprints {rule : String → CompatibilityStatus} (before after : Option String)
    {family : String} (known : rule (family ++ ".fingerprint_unavailable") = .unknown) :
    Each (fun f => f.status = rule f.code) (fingerprints before after family).2 := by
  simp [fingerprints, known]

theorem noBreak_iff_quiet {prints : String × String} {findings : List CompatibilityFinding}
    (ruled : Ruled findings) : (finishReport prints findings).NoBreak ↔ Quiet findings :=
  noBreak_iff fun f hf g hg code => by rw [ruled f hf, ruled g hg, code]

theorem ruled_graphql (fingerprint : GraphqlDocument → Option String)
    (before after : GraphqlDocument) : Ruled (graphqlFindings fingerprint before after) := by
  have field : ∀ previous current : GraphqlFieldDefinition,
      Ruled (compareGraphqlField previous current) := by
    intro previous current
    simp [compareGraphqlField, graphqlBreaking, ruleStatus]
  have type : ∀ previous current : GraphqlTypeDefinition,
      Ruled (compareGraphqlType previous current) := by
    intro previous current
    simp only [compareGraphqlType, each_append, each_flatMap]
    refine ⟨fun previous _ => ?_, fun value _ => ?_⟩
    · split
      · simp [graphqlBreaking, ruleStatus]
      · exact field _ _
    · simp [graphqlBreaking, ruleStatus]
  simp only [graphqlFindings, each_append, each_flatMap]
  refine ⟨⟨⟨ruled_fingerprints _ _ (by decide), by simp [ruleStatus]⟩, fun previous _ => ?_⟩, ?_⟩
  · split
    · simp [graphqlBreaking, ruleStatus]
    · exact type _ _
  · simp [comparePersistedOperations, graphqlBreaking, ruleStatus]

theorem ruled_event (fingerprint : EventDocument → Option String) (before after : EventDocument) :
    Ruled (eventFindings fingerprint before after) := by
  have fields : ∀ previous current candidate path,
      Ruled (compareEventFields previous current candidate path) := by
    intro previous current candidate path
    simp only [compareEventFields, each_append, each_flatMap]
    refine ⟨fun entry _ => ?_, fun entry _ => ?_⟩
    · split <;> simp [eventBreaking, ruleStatus]
    · simp [eventBreaking, ruleStatus]
  have observation : ∀ previous current path,
      Ruled (compareEventObservation previous current path) := by
    intro previous current path
    simp only [compareEventObservation, each_append]
    refine ⟨by simp [eventBreaking, ruleStatus], ?_⟩
    split
    · rw [each_append]
      exact ⟨by simp [eventBreaking, ruleStatus], fields _ _ _ _⟩
    · simp [ruleStatus]
  simp only [eventFindings, each_append, each_flatMap]
  refine ⟨⟨ruled_fingerprints _ _ (by decide), by simp [ruleStatus]⟩, fun entry _ => ?_⟩
  split
  · simp [eventBreaking, ruleStatus]
  · exact observation _ _ _

theorem ruled_protobuf (fingerprint : ProtoFile → Option String) (before after : ProtoFile) :
    Ruled (protobufFindings fingerprint before after) := by
  have field : ∀ name fields field, Ruled (compareProtoField name fields field) := by
    intro name fields field
    unfold compareProtoField
    split
    · simp [protoBreaking, ruleStatus]
    · simp only [each_append]
      refine ⟨⟨by simp [protoBreaking, ruleStatus], by simp [protoBreaking, ruleStatus]⟩, ?_⟩
      split <;> simp [protoBreaking, ruleStatus]
  have messages : Ruled (compareProtoMessages before after) := by
    simp only [compareProtoMessages, each_flatMap]
    intro entry _
    split
    · simp [protoBreaking, ruleStatus]
    · simp only [compareProtoMessage, each_append, each_flatMap, field]
      simp [protoBreaking, ruleStatus]
  have enums : Ruled (compareProtoEnums before after) := by
    simp only [compareProtoEnums, each_flatMap]
    intro entry _
    split <;> simp [protoBreaking, ruleStatus]
  have services : Ruled (compareProtoServices before after) := by
    simp only [compareProtoServices, each_flatMap]
    intro service _
    split
    · simp [protoBreaking, ruleStatus]
    · simp only [each_flatMap, compareProtoMethod]
      intro method _
      split <;> simp [protoBreaking, ruleStatus]
  simp only [protobufFindings, each_append, messages, enums, services, and_true]
  exact ⟨ruled_fingerprints _ _ (by decide), by simp [protoBreaking, ruleStatus]⟩

end Rules

section Consistency

/-- What the comparison of two declarations of a field asks for. -/
def FieldKept (before after : GraphqlFieldDefinition) : Prop :=
  typeNarrowed before.typeRef after.typeRef = false ∧
    ∀ argument ∈ after.arguments, typeIsNonNull argument.typeRef → argument.defaultValueKind = none →
      argument.name ∈ before.arguments.map (·.name)

def TypeKept (before after : GraphqlTypeDefinition) : Prop :=
  (∀ field ∈ before.fields, ∃ last, latest (·.name) field.name after.fields = some last ∧
    FieldKept field last) ∧ ∀ value ∈ before.enumValues, value ∈ after.enumValues

/-- The last declaration of a type keeps what each declaration of it says. -/
def GraphqlDocument.Consistent (document : GraphqlDocument) : Prop :=
  ∀ declared ∈ document.types, ∀ last, latest (·.name) declared.name document.types = some last →
    TypeKept declared last

def SchemaKept (before after : EventSchemaDefinition) : Prop :=
  (before.version = after.version ∨ before.version = none ∨ after.version = none) ∧
    (∀ name previous, latest (·.name) name before.fields = some previous →
      ∃ current, latest (·.name) name after.fields = some current ∧
        previous.fieldType = current.fieldType) ∧
    ∀ name current, latest (·.name) name after.fields = some current → current.required = true →
      latest (·.name) name before.fields ≠ none

def ObservationKept (before after : EventObservation) : Prop :=
  before.routingKey = after.routingKey ∧ before.partitionKey = after.partitionKey ∧
    ∀ beforeSchema ∈ before.schema, ∀ afterSchema ∈ after.schema, SchemaKept beforeSchema afterSchema

/-- The last observation with a key keeps what each observation with it says. -/
def EventDocument.Consistent (document : EventDocument) : Prop :=
  ∀ entry ∈ keyedObservations document, ∀ last,
    latest Prod.fst entry.1 (keyedObservations document) = some last → ObservationKept entry.2 last.2

def ProtoMessage.Consistent (message : ProtoMessage) : Prop :=
  ∀ field ∈ message.fields,
    (∀ last, latest (·.number) field.number message.fields = some last →
      last.name = field.name ∧ last.wireType = field.wireType ∧ last.typeName = field.typeName ∧
        last.cardinality = field.cardinality) ∧
    ∀ last, latest (·.name) field.name message.fields = some last → last.number = field.number

/-- The last value with a number has the name of each value with it. -/
def ProtoEnum.Consistent (enumeration : ProtoEnum) : Prop :=
  ∀ value ∈ enumeration.values, ∀ last,
    latest (·.number) value.number enumeration.values = some last → last.name = value.name

def ServiceKept (before after : ProtoService) : Prop :=
  ∀ method ∈ before.methods, ∃ last, latest (·.name) method.name after.methods = some last ∧
    method.requestType = last.requestType ∧ method.responseType = last.responseType ∧
    method.clientStreaming = last.clientStreaming ∧ method.serverStreaming = last.serverStreaming

def ProtoFile.Consistent (file : ProtoFile) : Prop :=
  (∀ entry ∈ flattenMessages file.messages, entry.2.Consistent) ∧
    (∀ entry ∈ flattenEnums file.messages file.enums, entry.2.Consistent) ∧
    ∀ service ∈ file.services, ∀ last,
      latest (·.fullName) service.fullName file.services = some last → ServiceKept service last

theorem quiet_graphqlField {before after : GraphqlFieldDefinition} :
    Quiet (compareGraphqlField before after) ↔ FieldKept before after := by
  simp only [compareGraphqlField, FieldKept, each_append, each_flatMap, each_ite, each_singleton,
    graphqlBreaking, status_finding, breaks_breaking, not_true_eq_false, each_nil, implies_true,
    and_true, Option.isNone_iff_eq_none, Bool.not_eq_true, imp_false]
  refine and_congr Iff.rfl (forall₂_congr fun argument _ => ?_)
  tauto

theorem quiet_graphqlType {before after : GraphqlTypeDefinition} :
    Quiet (compareGraphqlType before after) ↔ TypeKept before after := by
  simp only [compareGraphqlType, TypeKept, each_append, each_flatMap, lookup_inventory]
  refine and_congr (forall₂_congr fun field _ => ?_) (forall₂_congr fun value _ => ?_)
  · cases latest (·.name) field.name after.fields with
    | none => simp [graphqlBreaking]
    | some last => simp [quiet_graphqlField]
  · simp [graphqlBreaking]

theorem quiet_graphql (fingerprint : GraphqlDocument → Option String) (document : GraphqlDocument) :
    Quiet (graphqlFindings fingerprint document document) ↔ document.Consistent := by
  have persisted : Quiet (comparePersistedOperations document document) := by
    simp only [comparePersistedOperations, each_flatMap]
    intro operation mem
    rw [if_pos (List.mem_map_of_mem mem)]
    exact each_nil
  simp only [graphqlFindings, each_append, quiet_fingerprints, persisted, each_ite, each_singleton,
    status_finding, not_breaks_unknown, not_false_eq_true, implies_true, each_nil, and_true, true_and,
    each_flatMap, lookup_inventory]
  refine forall₂_congr fun declared mem => ?_
  obtain ⟨last, found⟩ := latest_of_mem (·.name) mem
  simp [found, quiet_graphqlType]

theorem quiet_eventFields {before after : EventSchemaDefinition} {candidate : EventObservation}
    {path : String} :
    Quiet (compareEventFields before after candidate path) ↔
      (∀ name previous, latest (·.name) name before.fields = some previous →
        ∃ current, latest (·.name) name after.fields = some current ∧
          previous.fieldType = current.fieldType) ∧
      ∀ name current, latest (·.name) name after.fields = some current → current.required = true →
        latest (·.name) name before.fields ≠ none := by
  simp only [compareEventFields, each_append, each_flatMap, lookup_inventory]
  have entries : ∀ (fields : List EventSchemaField) (name : String) (field : EventSchemaField),
      (name, field) ∈ inventory (·.name) fields ↔ latest (·.name) name fields = some field := by
    intro fields name field
    rw [← lookup_inventory]
    exact ⟨fun mem => lookup_of_mem_inventory mem, mem_of_lookup⟩
  refine and_congr ⟨?_, ?_⟩ ⟨?_, ?_⟩
  · intro quiet name previous found
    have here := quiet (name, previous) ((entries ..).mpr found)
    cases current : latest (·.name) name after.fields with
    | none => simp [current, eventBreaking] at here
    | some field => exact ⟨field, rfl, by simpa [current, eventBreaking] using here⟩
  · rintro kept ⟨name, previous⟩ mem
    obtain ⟨current, found, same⟩ := kept name previous ((entries ..).mp mem)
    simp [found, same]
  · intro quiet name current found required
    have here := quiet (name, current) ((entries ..).mpr found)
    simpa [required, eventBreaking] using here
  · rintro kept ⟨name, current⟩ mem
    simpa [eventBreaking] using kept name current ((entries ..).mp mem)

theorem quiet_eventObservation {before after : EventObservation} {path : String} :
    Quiet (compareEventObservation before after path) ↔ ObservationKept before after := by
  simp only [compareEventObservation, ObservationKept, each_append, ← and_assoc]
  refine and_congr ?_ ?_
  · simp only [each_ite, each_singleton, eventBreaking, status_finding, breaks_breaking,
      not_true_eq_false, each_nil, implies_true, and_true, imp_false, not_or, not_not]
  · cases previous : before.schema with
    | none => cases after.schema <;> simp
    | some beforeSchema =>
      cases current : after.schema with
      | none => simp
      | some afterSchema =>
        simp only [each_append, quiet_eventFields, SchemaKept, Option.mem_def, Option.some.injEq,
          forall_eq']
        refine and_congr ?_ Iff.rfl
        simp only [each_ite, each_singleton, eventBreaking, status_finding, breaks_breaking,
          not_true_eq_false, each_nil, implies_true, and_true, imp_false, Option.isSome_iff_ne_none]
        tauto

theorem quiet_event (fingerprint : EventDocument → Option String) (document : EventDocument) :
    Quiet (eventFindings fingerprint document document) ↔ document.Consistent := by
  simp only [eventFindings, each_append, quiet_fingerprints, each_ite, each_singleton, status_finding,
    not_breaks_unknown, not_false_eq_true, implies_true, each_nil, and_true, true_and, each_flatMap,
    lookup_inventory]
  refine forall₂_congr fun entry mem => ?_
  obtain ⟨last, found⟩ := latest_of_mem Prod.fst mem
  simp [found, quiet_eventObservation]

theorem quiet_protoMessage {name : String} {message : ProtoMessage} :
    Quiet (compareProtoMessage name message message) ↔ message.Consistent := by
  have own : Quiet (message.fields.flatMap fun field =>
      if field.cardinality = .required ∧ field.name ∉ message.fields.map (·.name) then
        [protoBreaking "protobuf.required_field_added" (name ++ "." ++ field.name) field.line
          "required proto2 field was added"]
      else []) := by
    refine each_flatMap.mpr fun field mem => ?_
    rw [if_neg fun absent => absent.2 (List.mem_map_of_mem mem)]
    exact each_nil
  simp only [compareProtoMessage, each_append, own, and_true, each_flatMap]
  refine forall₂_congr fun field mem => ?_
  obtain ⟨byNumber, number⟩ := latest_of_mem (·.number) mem
  obtain ⟨byName, named⟩ := latest_of_mem (·.name) mem
  simp only [compareProtoField, lookup_inventory, number, named, each_append, each_ite, each_singleton,
    protoBreaking, status_finding, breaks_breaking, not_true_eq_false, each_nil, implies_true,
    and_true, imp_false, not_or, not_not, Option.some.injEq, forall_eq', ne_eq]

theorem quiet_protobuf (fingerprint : ProtoFile → Option String) (file : ProtoFile) :
    Quiet (protobufFindings fingerprint file file) ↔ file.Consistent := by
  simp only [protobufFindings, each_append, quiet_fingerprints, ne_eq, not_true_eq_false, if_false,
    each_nil, true_and, ProtoFile.Consistent, and_assoc]
  refine and_congr ?_ (and_congr ?_ ?_)
  · simp only [compareProtoMessages, each_flatMap]
    refine forall₂_congr fun entry mem => ?_
    rw [flattenMessages, lookup_of_mem_inventory mem]
    exact quiet_protoMessage
  · simp only [compareProtoEnums, each_flatMap]
    refine forall₂_congr fun entry mem => ?_
    rw [flattenEnums, lookup_of_mem_inventory mem]
    simp only [each_flatMap]
    refine forall₂_congr fun value here => ?_
    obtain ⟨last, found⟩ := latest_of_mem (·.number) here
    simp [lookup_inventory, found, protoBreaking]
  · simp only [compareProtoServices, each_flatMap]
    refine forall₂_congr fun service mem => ?_
    obtain ⟨last, found⟩ := latest_of_mem (·.fullName) mem
    simp only [lookup_inventory, found, each_flatMap, Option.some.injEq, forall_eq', ServiceKept]
    refine forall₂_congr fun method here => ?_
    unfold compareProtoMethod
    rw [lookup_inventory]
    cases current : latest (·.name) method.name last.methods with
    | none => simp [protoBreaking]
    | some other => simp [protoBreaking]

end Consistency

section Main

variable (graphqlPrint : GraphqlDocument → Option String) (eventPrint : EventDocument → Option String)
  (protoPrint : ProtoFile → Option String)
  (httpPrint : List (String × String × String × String × Nat × Nat × Nat) → Option String)
  (packagePrint : PackageManifest → Option String) (dataPrint : DataDocument → Option String)

theorem selfComparison_noBreak_iff (graphql : GraphqlDocument) (event : EventDocument)
    (proto : ProtoFile) (http : List Routes.HttpBoundary) (package : PackageManifest)
    (data : DataDocument) :
    ((compareGraphqlContracts graphqlPrint graphql graphql).NoBreak ↔ graphql.Consistent) ∧
      ((compareEventContracts eventPrint event event).NoBreak ↔ event.Consistent) ∧
      ((compareProtobufContracts protoPrint proto proto).NoBreak ↔ proto.Consistent) ∧
      (compareHttpContracts httpPrint http http).NoBreak ∧
      (comparePackageContracts packagePrint package package).NoBreak ∧
      (compareDatabaseContracts dataPrint data data).NoBreak := by
  refine ⟨?_, ?_, ?_, ?_, ?_, ?_⟩
  · exact (noBreak_iff_quiet (ruled_graphql graphqlPrint graphql graphql)).trans (quiet_graphql ..)
  · exact (noBreak_iff_quiet (ruled_event eventPrint event event)).trans (quiet_event ..)
  · exact (noBreak_iff_quiet (ruled_protobuf protoPrint proto proto)).trans (quiet_protobuf ..)
  · exact noBreak_of (compareHttpContracts_self httpPrint http)
  · exact noBreak_of (comparePackageContracts_self packagePrint package)
  · exact noBreak_of (compareDatabaseContracts_self dataPrint data)

/-- An extended type, two publications to one channel and an aliased enum value. -/
theorem selfComparison_breaks :
    let field (name : String) : GraphqlFieldDefinition :=
      { coordinate := "Query." ++ name, name, arguments := [], typeRef := .named "Int" false
        startLine := 1 }
    let declared (name : String) : GraphqlTypeDefinition :=
      { kind := .object, name := "Query", fields := [field name], enumValues := [], startLine := 1 }
    let graphql : GraphqlDocument :=
      { sourcePath := "schema.graphql", types := [declared "a", declared "b"]
        persistedOperations := [], complete := true, unread := [] }
    let publication (routingKey : String) : EventObservation :=
      { broker := .rabbitMq, role := .publisher, channel := some "orders", namespaceName := none
        schema := none, partitionKey := none, routingKey := some routingKey, evidence := [] }
    let event : EventDocument :=
      { sourcePath := none, observations := [publication "created", publication "paid"]
        incomplete := false, unread := [] }
    let state : ProtoEnum :=
      { fullName := "State", values := [⟨"STARTED", 0, 2⟩, ⟨"RUNNING", 0, 3⟩], line := 1 }
    let proto : ProtoFile :=
      { package := none, packageLine := none, messages := [], enums := [state], services := []
        unread := [] }
    (compareGraphqlContracts (fun _ => some "") graphql graphql).status = .breaking ∧
      (compareEventContracts (fun _ => some "") event event).status = .breaking ∧
      (compareProtobufContracts (fun _ => some "") proto proto).status = .breaking := by
  decide +kernel

end Main

end CodeSystemGraph.Contracts
