import CodeSystemGraph.DocumentMarkdown

/-!
Extraction from a service catalog. The JSON and the YAML reader are parameters.
-/

namespace CodeSystemGraph.Documents

open Text
open PullRequests (Value)

section Fields

def explicitCatalogName (mapping : Mapping) : Option String :=
  (mappingString mapping ["name"]).or
    ((mappingMapping mapping "metadata").bind fun metadata => mappingString metadata ["name"])

def catalogStatus (mapping : Mapping) : Option String :=
  (mappingString mapping ["status", "lifecycle"]).or
    ((mappingMapping mapping "spec").bind fun spec => mappingString spec ["status", "lifecycle"])

/-- What a mapping, its `spec` and its `metadata` list. -/
def listedValues (values : Mapping → List String) (mapping : Mapping) : List String :=
  values mapping ++ (((mappingMapping mapping "spec").map values).getD []) ++
    (((mappingMapping mapping "metadata").map values).getD [])

def catalogOwners (mapping : Mapping) : List String :=
  listedValues (mappingStrings · ["owner", "owners"]) mapping

def linkKeys : List String := ["url", "href", "target"]

def linkValue : Value → Option String
  | .string link => some link
  | .object fields => mappingString fields linkKeys
  | _ => none

def mappingLinkValues (mapping : Mapping) : List String :=
  match mapping.lookup "links" with
  | some (.array values) => values.filterMap linkValue
  | some value => (linkValue value).toList
  | none => []

def catalogLinks (mapping : Mapping) : List String := listedValues mappingLinkValues mapping

end Fields

section Entries

structure CatalogEntry where
  mapping : Mapping
  fallbackName : Option String

abbrev Entries := List CatalogEntry × ExtractionState

def appendCatalogSequence : List Value → Entries → Entries
  | [], collected => collected
  | value :: values, collected =>
    if maxRecords ≤ collected.1.length then
      (collected.1, collected.2.warn "service_catalog_record_limit_reached")
    else
      match value with
      | .object mapping =>
        appendCatalogSequence values (collected.1 ++ [⟨mapping, none⟩], collected.2)
      | _ =>
        appendCatalogSequence values
          (collected.1, collected.2.warn "unsupported_service_catalog_entry_omitted")

/-- The entries of a mapping by name; at the limit no other collection is read. -/
def appendCatalogMapping : Mapping → Entries → Entries × Bool
  | [], collected => (collected, false)
  | (name, value) :: values, collected =>
    if maxRecords ≤ collected.1.length then
      ((collected.1, collected.2.warn "service_catalog_record_limit_reached"), true)
    else
      match value with
      | .object mapping =>
        appendCatalogMapping values (collected.1 ++ [⟨mapping, some name⟩], collected.2)
      | _ =>
        appendCatalogMapping values
          (collected.1, collected.2.warn "unsupported_service_catalog_entry_omitted")

def catalogCollections (mapping : Mapping) : List String → Entries → Bool → Entries × Bool
  | [], collected, found => (collected, found)
  | key :: keys, collected, found =>
    match mapping.lookup key with
    | none => catalogCollections mapping keys collected found
    | some (.array values) => catalogCollections mapping keys (appendCatalogSequence values collected) true
    | some (.object values) =>
      let appended := appendCatalogMapping values collected
      if appended.2 then (appended.1, true) else catalogCollections mapping keys appended.1 true
    | some _ =>
      catalogCollections mapping keys
        (collected.1, collected.2.warn "unsupported_service_catalog_collection_omitted") true

def catalogEntries (root : Value) (state : ExtractionState) : Entries :=
  match root with
  | .array values => appendCatalogSequence values ([], state)
  | .object mapping =>
    let collected :=
      catalogCollections mapping ["services", "components", "entities", "catalog"] ([], state) false
    if !collected.2 && (explicitCatalogName mapping).isSome then
      (collected.1.1 ++ [⟨mapping, none⟩], collected.1.2)
    else collected.1
  | _ => ([], state.warn "unsupported_service_catalog_root_omitted")

end Entries

section Records

/-- References of one kind to each of a list, at one place. -/
def pushReferences (kind : ExplicitReferenceKind) (evidence : LineEvidence) (targets : List String)
    (collected : List ExplicitReference × ExtractionState) :
    List ExplicitReference × ExtractionState :=
  targets.foldl (fun collected target => pushReference collected.1 ⟨kind, target, evidence⟩ collected.2)
    collected

def pushLinks (evidence : LineEvidence) (links : List String)
    (collected : List ExplicitReference × ExtractionState) :
    List ExplicitReference × ExtractionState :=
  links.foldl (fun collected link =>
    match referenceTarget link true collected.2 with
    | (some (kind, target), state) => pushReference collected.1 ⟨kind, target, evidence⟩ state
    | (none, state) => (collected.1, state)) collected

def titledRecord (sourcePath : String) (mapping : Mapping) (title : String) (evidence : LineEvidence)
    (state : ExtractionState) : DocumentRecord × ExtractionState :=
  let status := sanitizeOptional (catalogStatus mapping) state
  let owners := pushOwners (catalogOwners mapping) [] status.2
  let references := pushLinks evidence (catalogLinks mapping)
    (pushReferences .owner evidence owners.1 (pushReferences .service evidence [title] ([], owners.2)))
  ({ sourcePath
     kind := .serviceCatalog
     title := some title
     status := status.1
     headings := []
     owners := owners.1
     references := references.1
     warnings := []
     incomplete := false }, references.2)

def catalogRecord (sourcePath : String) (entry : CatalogEntry) (evidence : LineEvidence)
    (state : ExtractionState) : Option DocumentRecord × ExtractionState :=
  match (explicitCatalogName entry.mapping).or entry.fallbackName with
  | none => (none, state)
  | some name =>
    match sanitizeIdentifier name maxDisplayBytes state with
    | (none, state) => (none, state)
    | (some title, state) =>
      let record := titledRecord sourcePath entry.mapping title evidence state
      (some record.1, record.2)

def catalogRecords (sourcePath : String) (evidence : LineEvidence) :
    List CatalogEntry → List DocumentRecord × ExtractionState → List DocumentRecord × ExtractionState
  | [], collected => collected
  | entry :: entries, collected =>
    if maxRecords ≤ collected.1.length then
      (collected.1, collected.2.warn "service_catalog_record_limit_reached")
    else
      match catalogRecord sourcePath entry evidence collected.2 with
      | (some record, state) =>
        catalogRecords sourcePath evidence entries (collected.1 ++ [record], state)
      | (none, state) => catalogRecords sourcePath evidence entries (collected.1, state)

end Records

section Extraction

variable (fromYaml fromJson : String → Option Value)

def parseCatalog (sourcePath input : String) : Except DocumentationExtractionError Value :=
  let jsonByPath := match rsplitOnce '.' sourcePath.toList with
    | some (_, extension) => lowercase extension = "json".toList
    | none => false
  let first := (input.toList.dropWhile isWhitespace).head?
  let read :=
    if jsonByPath || first = some '\x7b' || first = some '[' then fromJson input else fromYaml input
  match read with
  | some value => .ok value
  | none => .error .invalidServiceCatalog

mutual

def validateCatalogDepth (depth : ℕ) : Value → Except DocumentationExtractionError Unit
  | .array values =>
    if maxCatalogDepth < depth then .error (.catalogNestingTooDeep maxCatalogDepth)
    else validateDepths (depth + 1) values
  | .object fields =>
    if maxCatalogDepth < depth then .error (.catalogNestingTooDeep maxCatalogDepth)
    else validateFieldDepths (depth + 1) fields
  | _ => if maxCatalogDepth < depth then .error (.catalogNestingTooDeep maxCatalogDepth) else .ok ()

def validateDepths (depth : ℕ) : List Value → Except DocumentationExtractionError Unit
  | [] => .ok ()
  | value :: values => do
    validateCatalogDepth depth value
    validateDepths depth values

def validateFieldDepths (depth : ℕ) :
    List (String × Value) → Except DocumentationExtractionError Unit
  | [] => .ok ()
  | (_, value) :: fields => do
    validateCatalogDepth depth value
    validateFieldDepths depth fields

end

def extractServiceCatalog (sourcePath input : String) :
    Except DocumentationExtractionError DocumentationDocument := do
  validateBounds sourcePath input
  let root ← parseCatalog fromYaml fromJson sourcePath input
  validateCatalogDepth 0 root
  let entries := catalogEntries root {}
  let read := catalogRecords sourcePath (documentEvidence input.toList) entries.1 ([], entries.2)
  let state :=
    if read.1.isEmpty then read.2.warn "service_catalog_has_no_explicit_named_records" else read.2
  pure {
    records := read.1.map fun record =>
      { record with warnings := state.warnings, incomplete := record.incomplete || state.incomplete }
    ownershipRules := []
    warnings := state.warnings
    incomplete := state.incomplete }

end Extraction

end CodeSystemGraph.Documents
