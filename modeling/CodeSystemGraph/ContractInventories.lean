import CodeSystemGraph.ContractReport
import CodeSystemGraph.RouteTrie

/-! Comparison of HTTP operations, package manifests and database schemas. Both
sides are inventoried under the same key; an entry whose key was seen before is
reported as incomparable. -/

namespace CodeSystemGraph.Contracts
open Ieee Model Ordered Routes Text

section Inventory

variable {K α : Type} [LinearOrder K]

/-- The loop that fills a map, reports on each entry and on each replaced one. -/
def takeInventory (key : α → K) (check : α → List CompatibilityFinding)
    (duplicate : α → α → CompatibilityFinding) (l : List α) :
    List (K × α) × List CompatibilityFinding :=
  l.foldl (fun (entries, findings) a =>
    (upsert (key a) a (fun _ => a) entries,
      findings ++ check a ++ ((entries.lookup (key a)).toList.map fun previous => duplicate previous a)))
    ([], [])

end Inventory

section Http

abbrev HttpKey := String ×ₗ String ×ₗ String

def httpRole : BoundaryRole → String
  | .provider => "provider"
  | .consumer => "consumer"

def toAsciiUppercase (c : Char) : Char :=
  if 'a' ≤ c ∧ c ≤ 'z' then Char.ofNat (c.toNat - 32) else c

def httpKey (boundary : HttpBoundary) : HttpKey :=
  toLex (httpRole boundary.role,
    toLex (String.ofList ((trim boundary.method.toList).map toAsciiUppercase),
      String.ofList (trim boundary.path.toList)))

def keyRole (key : HttpKey) : String := (ofLex key).1

def keyMethod (key : HttpKey) : String := (ofLex (ofLex key).2).1

def keyPath (key : HttpKey) : String := (ofLex (ofLex key).2).2

def httpKeyPath (key : HttpKey) : String := keyRole key ++ ":" ++ keyMethod key ++ " " ++ keyPath key

/-- The tuples that the fingerprint encodes. -/
def httpFingerprintContract (boundaries : List HttpBoundary) :
    List (String × String × String × String × Nat × Nat × Nat) :=
  boundaries.map fun boundary =>
    (httpRole boundary.role, boundary.method, boundary.path, boundary.evidence.filePath.getD "",
      (boundary.evidence.startLine.getD 0).toNat, (boundary.evidence.endLine.getD 0).toNat,
      boundary.evidence.confidence.toBits)

def httpEvidence (boundary : HttpBoundary) : List String :=
  let source := boundary.evidence.filePath.getD "<unknown>"
  let locator :=
    match boundary.evidence.startLine, boundary.evidence.endLine with
    | some first, some last => source ++ ":" ++ toString first.toNat ++ "-" ++ toString last.toNat
    | some first, none => source ++ ":" ++ toString first.toNat
    | none, _ => source
  [locator, boundary.node.stableKey]

def combinedHttpEvidence (before after : HttpBoundary) : List String :=
  httpEvidence before ++ httpEvidence after

def httpInventoryEvidence (before after : List HttpBoundary) : List String :=
  (before ++ after).flatMap httpEvidence

def httpIncomplete (side : String) (boundary : HttpBoundary) : List CompatibilityFinding :=
  let key := httpKey boundary
  if keyMethod key = "" ∨ keyPath key = "" ∨ (keyPath key).toList.head? ≠ some '/' ∨
      !boundary.evidence.confidence.isFinite ∨ boundary.evidence.confidence.lt (.ofNat 1) then
    [finding "http.operation_incomplete" (httpKeyPath key) .unknown
      [side ++ " operation lacks an exact method, canonical path, or full-confidence evidence"]
      (httpEvidence boundary)
      ["rerun bounded HTTP extraction and resolve dynamic operation evidence"]]
  else []

def httpInventory (boundaries : List HttpBoundary) (side : String) :
    List (HttpKey × HttpBoundary) × List CompatibilityFinding :=
  takeInventory httpKey (httpIncomplete side)
    (fun previous boundary =>
      finding "http.operation_duplicate" (httpKeyPath (httpKey boundary)) .incomparable
        [side ++ " inventory contains duplicate operation coordinates"]
        (combinedHttpEvidence previous boundary)
        ["deduplicate providers or disambiguate the operation declarations"])
    boundaries

/-- One round of the loop over the previous operations; the state is the additions
already taken for a change and the findings. -/
def compareHttpOperation (before after : List (HttpKey × HttpBoundary))
    (state : List HttpKey × List CompatibilityFinding) (entry : HttpKey × HttpBoundary) :
    List HttpKey × List CompatibilityFinding :=
  let key := entry.1
  if (after.lookup key).isSome then state
  else
    let candidates := after.filter fun candidate =>
      candidate.1 ∉ state.1 && (before.lookup candidate.1).isNone &&
        keyRole key == keyRole candidate.1 &&
        ((keyMethod key == keyMethod candidate.1) ^^ (keyPath key == keyPath candidate.1))
    match candidates with
    | [candidate] =>
      (state.1 ++ [candidate.1],
        state.2 ++ [finding "http.operation_changed" (httpKeyPath key) .potentiallyBreaking
          ["operation changed from " ++ keyMethod key ++ " " ++ keyPath key ++ " to " ++
            keyMethod candidate.1 ++ " " ++ keyPath candidate.1]
          (combinedHttpEvidence entry.2 candidate.2)
          ["confirm the path or method migration with every HTTP consumer",
            "run request and response contract tests against the candidate operation"]])
    | _ =>
      (state.1,
        state.2 ++ [finding "http.operation_removed" (httpKeyPath key) .breaking
          ["endpoint and method pair is absent from the candidate inventory"]
          (httpEvidence entry.2)
          ["run affected HTTP consumers against the candidate provider"]])

def httpFindings
    (fingerprint : List (String × String × String × String × Nat × Nat × Nat) → Option String)
    (before after : List HttpBoundary) : List CompatibilityFinding :=
  let beforeInventory := httpInventory before "before"
  let afterInventory := httpInventory after "after"
  let compared := beforeInventory.1.foldl (compareHttpOperation beforeInventory.1 afterInventory.1)
    ([], [])
  (fingerprints (fingerprint (httpFingerprintContract before))
    (fingerprint (httpFingerprintContract after)) "http").2 ++
  beforeInventory.2 ++ afterInventory.2 ++ compared.2 ++
  (afterInventory.1.flatMap fun (key, candidate) =>
    if (beforeInventory.1.lookup key).isNone ∧ key ∉ compared.1 then
      [finding "http.operation_added" (httpKeyPath key) .compatible
        ["an exact endpoint and method pair was added"] (httpEvidence candidate)
        ["validate routing and authorization before exposing the operation"]]
    else []) ++
  [finding "http.schema_semantics_unmodeled" "http" .incomparable
    ["HTTP boundaries model endpoint, method, and role but not parameters or schemas"]
    (httpInventoryEvidence before after)
    ["compare complete OpenAPI request, response, media-type, status, and security schemas"]]

def compareHttpContracts
    (fingerprint : List (String × String × String × String × Nat × Nat × Nat) → Option String)
    (before after : List HttpBoundary) : CompatibilityReport :=
  finishReport (fingerprints (fingerprint (httpFingerprintContract before))
    (fingerprint (httpFingerprintContract after)) "http").1 (httpFindings fingerprint before after)

end Http

section Packages

inductive PackageEcosystem
  | npm | python | cargo | go | maven | gradle | nuGet
deriving DecidableEq

inductive DependencyScope
  | runtime | dev | test | build | peer | optional
deriving DecidableEq

/-- The derived `Debug` form. -/
def PackageEcosystem.debug : PackageEcosystem → String
  | .npm => "Npm"
  | .python => "Python"
  | .cargo => "Cargo"
  | .go => "Go"
  | .maven => "Maven"
  | .gradle => "Gradle"
  | .nuGet => "NuGet"

structure PackageEvidenceLine where
  line : Nat
  text : String
deriving DecidableEq

structure PackageCoordinate where
  ecosystem : PackageEcosystem
  name : String
  version : Option String
  sourcePath : String
  evidence : PackageEvidenceLine
deriving DecidableEq

structure PackageDependency where
  ecosystem : PackageEcosystem
  name : String
  versionOrRange : Option String
  scope : DependencyScope
  optional : Bool
  condition : Option String
  sourcePath : String
  evidence : PackageEvidenceLine
deriving DecidableEq

structure PackageManifestValue where
  value : String
  sourcePath : String
  evidence : PackageEvidenceLine
  confidence : F32
deriving DecidableEq

structure PackageManifest where
  packages : List PackageCoordinate
  dependencies : List PackageDependency
  workspaceMembers : List PackageManifestValue
  exports : List PackageManifestValue
  features : List PackageManifestValue
  unread : Bytes
deriving DecidableEq

abbrev PackageKey := String ×ₗ String

def packageKeyPath (key : PackageKey) : String := (ofLex key).1 ++ ":" ++ (ofLex key).2

def packageLocator (package : PackageCoordinate) : String :=
  package.sourcePath ++ ":" ++ toString package.evidence.line

def packageCoordinateEvidence (before after : PackageCoordinate) : List String :=
  [packageLocator before, packageLocator after]

def packageDependencyLocator (dependency : PackageDependency) : String :=
  dependency.sourcePath ++ ":" ++ toString dependency.evidence.line

def manifestValueLocator (value : PackageManifestValue) : String :=
  value.sourcePath ++ ":" ++ toString value.evidence.line

def manifestValueEvidence (before after : List PackageManifestValue) : List String :=
  (before ++ after).map manifestValueLocator

def packageManifestEvidence (before after : PackageManifest) : List String :=
  (before.packages ++ after.packages).map packageLocator ++
    (before.exports ++ after.exports).map manifestValueLocator

def packageKey (package : PackageCoordinate) : PackageKey :=
  toLex (package.ecosystem.debug, package.name)

def packageInventory (packages : List PackageCoordinate) (side : String) :
    List (PackageKey × PackageCoordinate) × List CompatibilityFinding :=
  takeInventory packageKey (fun _ => [])
    (fun previous package =>
      finding "package.coordinate_duplicate" (packageKeyPath (packageKey package)) .incomparable
        [side ++ " manifest contains duplicate package coordinates"]
        (packageCoordinateEvidence previous package)
        ["deduplicate package declarations before comparison"])
    packages

/-- The first run of digits as a `u64`. -/
def leadingVersionMajor (value : String) : Option Nat :=
  match value.toList.dropWhile fun c => !c.isDigit with
  | [] => none
  | digits => parseUnsigned (2 ^ 64) (digits.takeWhile Char.isDigit)

def comparePackageVersion (before after : PackageCoordinate) : List CompatibilityFinding :=
  if before.version = after.version then []
  else
    let status :=
      match before.version, after.version with
      | some previous, some candidate =>
        if leadingVersionMajor previous ≠ leadingVersionMajor candidate then .breaking
        else .potentiallyBreaking
      | _, _ => .unknown
    [finding "package.declared_version_changed" (before.ecosystem.debug ++ ":" ++ before.name) status
      ["declared package version changed from " ++ before.version.getD "<unspecified>" ++ " to " ++
        after.version.getD "<unspecified>"]
      (packageCoordinateEvidence before after)
      ["resolve the published versions and run downstream package compatibility tests"]]

/-- One round of the loop over the previous packages; the state is the packages
already taken for a rename and the findings. -/
def comparePackage (after : List (PackageKey × PackageCoordinate))
    (state : List PackageKey × List CompatibilityFinding) (entry : PackageKey × PackageCoordinate) :
    List PackageKey × List CompatibilityFinding :=
  match after.lookup entry.1 with
  | some candidate => (state.1, state.2 ++ comparePackageVersion entry.2 candidate)
  | none =>
    let candidates := after.filter fun candidate =>
      candidate.1 ∉ state.1 && (ofLex entry.1).1 == (ofLex candidate.1).1 &&
        entry.2.sourcePath == candidate.2.sourcePath
    match candidates with
    | [candidate] =>
      (state.1 ++ [candidate.1],
        state.2 ++ [finding "package.coordinate_renamed" (packageKeyPath entry.1) .breaking
          ["package coordinate changed from " ++ entry.2.name ++ " to " ++ candidate.2.name]
          (packageCoordinateEvidence entry.2 candidate.2)
          ["publish a compatibility package or migrate every downstream dependency"]])
    | _ =>
      (state.1,
        state.2 ++ [finding "package.coordinate_removed" (packageKeyPath entry.1) .breaking
          ["package coordinate is absent from the candidate manifest"] [packageLocator entry.2]
          ["verify all registry and workspace consumers before removing the package"]])

def comparePackageCoordinates (before after : PackageManifest) : List CompatibilityFinding :=
  let beforePackages := packageInventory before.packages "before"
  let afterPackages := packageInventory after.packages "after"
  let compared := beforePackages.1.foldl (comparePackage afterPackages.1) ([], [])
  beforePackages.2 ++ afterPackages.2 ++ compared.2 ++
  afterPackages.1.flatMap fun (key, candidate) =>
    if (beforePackages.1.lookup key).isNone ∧ key ∉ compared.1 then
      [finding "package.coordinate_added" (packageKeyPath key) .compatible
        ["a distinct package coordinate was added"] [packageLocator candidate]
        ["validate publication metadata before release"]]
    else []

def manifestValueInventory (family side : String) (values : List PackageManifestValue) :
    List (String × PackageManifestValue) × List CompatibilityFinding :=
  takeInventory (·.value) (fun _ => [])
    (fun previous value =>
      finding (family ++ "_duplicate") value.value .incomparable
        [side ++ " manifest contains duplicate declarations"]
        [manifestValueLocator previous, manifestValueLocator value]
        ["deduplicate declarations before comparison"])
    values

def compareManifestValues (family : String) (before after : List PackageManifestValue)
    (removedStatus addedStatus : CompatibilityStatus) : List CompatibilityFinding :=
  let beforeValues := manifestValueInventory family "before" before
  let afterValues := manifestValueInventory family "after" after
  beforeValues.2 ++ afterValues.2 ++
  (beforeValues.1.flatMap fun (value, previous) =>
    if (afterValues.1.lookup value).isNone then
      [finding (family ++ "_removed") value removedStatus
        [family ++ " declaration is absent from the candidate manifest"]
        [manifestValueLocator previous]
        ["validate downstream consumers of `" ++ value ++ "` before release"]]
    else []) ++
  afterValues.1.flatMap fun (value, candidate) =>
    if (beforeValues.1.lookup value).isNone then
      [finding (family ++ "_added") value addedStatus [family ++ " declaration was added"]
        [manifestValueLocator candidate]
        ["validate the new `" ++ value ++ "` declaration with the package manager"]]
    else []

def dependencyKey (dependency : PackageDependency) : PackageKey :=
  toLex (dependency.ecosystem.debug, dependency.name)

def dependencyInventory (dependencies : List PackageDependency) (side : String) :
    List (PackageKey × PackageDependency) × List CompatibilityFinding :=
  takeInventory dependencyKey (fun _ => [])
    (fun previous dependency =>
      finding "package.dependency_duplicate" (packageKeyPath (dependencyKey dependency)) .incomparable
        [side ++ " manifest contains duplicate dependency coordinates"]
        [packageDependencyLocator previous, packageDependencyLocator dependency]
        ["deduplicate dependency declarations before comparison"])
    dependencies

def dependencyDriftStatus : DependencyScope → CompatibilityStatus
  | .dev | .test => .unknown
  | .runtime | .build | .peer | .optional => .potentiallyBreaking

def packageDependencyFinding (code : String) (key : PackageKey) (status : CompatibilityStatus)
    (before : PackageDependency) (after : Option PackageDependency) (factor : String) :
    CompatibilityFinding :=
  finding code (packageKeyPath key) status [factor]
    (packageDependencyLocator before :: after.toList.map packageDependencyLocator)
    ["resolve dependency ranges and run package-manager peer validation"]

def comparePackageDependencies (before after : List PackageDependency) :
    List CompatibilityFinding :=
  let beforeDependencies := dependencyInventory before "before"
  let afterDependencies := dependencyInventory after "after"
  beforeDependencies.2 ++ afterDependencies.2 ++
  (beforeDependencies.1.flatMap fun (key, previous) =>
    match afterDependencies.1.lookup key with
    | none =>
      [packageDependencyFinding "package.dependency_removed" key
        (dependencyDriftStatus previous.scope) previous none
        "dependency declaration is absent from the candidate manifest"]
    | some candidate =>
      if previous.versionOrRange ≠ candidate.versionOrRange ∨ previous.scope ≠ candidate.scope ∨
          previous.optional ≠ candidate.optional ∨ previous.condition ≠ candidate.condition then
        let status :=
          if previous.versionOrRange.isNone || candidate.versionOrRange.isNone then .unknown
          else dependencyDriftStatus previous.scope
        [packageDependencyFinding "package.dependency_drift" key status previous (some candidate)
          "version range, scope, optionality, or condition changed"]
      else []) ++
  afterDependencies.1.flatMap fun (key, candidate) =>
    if (beforeDependencies.1.lookup key).isNone then
      [packageDependencyFinding "package.dependency_added" key
        (if candidate.scope = .peer then .potentiallyBreaking else .unknown) candidate none
        "dependency declaration was added"]
    else []

/-- The derived equality, under which a NaN confidence differs from itself. -/
def sameManifestValue (a b : PackageManifestValue) : Bool :=
  a.value == b.value && a.sourcePath == b.sourcePath && a.evidence == b.evidence &&
    (a.confidence.le b.confidence && b.confidence.le a.confidence)

def sameManifestValues (before after : List PackageManifestValue) : Bool :=
  before.length == after.length && (before.zip after).all fun pair => sameManifestValue pair.1 pair.2

def packageFindings (fingerprint : PackageManifest → Option String) (before after : PackageManifest) :
    List CompatibilityFinding :=
  (fingerprints (fingerprint before) (fingerprint after) "package").2 ++
  comparePackageCoordinates before after ++
  compareManifestValues "package.export" before.exports after.exports .breaking .compatible ++
  comparePackageDependencies before.dependencies after.dependencies ++
  compareManifestValues "package.feature" before.features after.features .potentiallyBreaking
    .compatible ++
  compareManifestValues "package.workspace" before.workspaceMembers after.workspaceMembers .unknown
    .unknown ++
  (if !sameManifestValues before.workspaceMembers after.workspaceMembers then
    [finding "package.workspace_cycle_unmodeled" "package.workspace" .unknown
      ["workspace membership changed but dependency cycles are not modeled"]
      (manifestValueEvidence before.workspaceMembers after.workspaceMembers)
      ["resolve the candidate workspace graph and reject newly introduced cycles"]]
    else []) ++
  [finding "package.type_declarations_unmodeled" "package.types" .unknown
    ["package manifests do not model public type declaration compatibility"]
    (packageManifestEvidence before after)
    ["run the ecosystem type checker against representative downstream consumers"]]

def comparePackageContracts (fingerprint : PackageManifest → Option String)
    (before after : PackageManifest) : CompatibilityReport :=
  finishReport (fingerprints (fingerprint before) (fingerprint after) "package").1
    (packageFindings fingerprint before after)

end Packages

section Databases

structure DatabaseColumn where
  name : String
  dataType : Option String
  nullable : Option Bool
  primaryKey : Bool
  unique : Bool
  defaultPresent : Bool
  evidence : Nat
deriving DecidableEq

structure DatabaseIndex where
  columns : List String
  unique : Bool
  evidence : Nat
deriving DecidableEq

structure DatabaseForeignKey where
  columns : List String
  referencedTable : String
  referencedColumns : List String
  evidence : Nat
deriving DecidableEq

structure DatabaseTable where
  database : Option String
  schema : Option String
  name : String
  columns : List DatabaseColumn
  indexes : List DatabaseIndex
  foreignKeys : List DatabaseForeignKey
  evidence : Nat
deriving DecidableEq

structure MigrationMetadata where
  revision : Option String
  downRevision : Option String
  orderHint : Option Nat
  evidence : Nat
deriving DecidableEq

inductive DataWarning
  | dynamicQuery | unsupportedConstruct | unresolvedReference | limitExceeded | sqlParseRecovery
deriving DecidableEq

structure DataDocument where
  sourcePath : String
  tables : List DatabaseTable
  migration : Option MigrationMetadata
  warnings : List DataWarning
  incomplete : Bool
  unread : Bytes
deriving DecidableEq

def dataLocator (document : DataDocument) (line : Nat) : String :=
  document.sourcePath ++ ":" ++ toString line

def databaseFinding (code path : String) (status : CompatibilityStatus) (line : Nat)
    (factor : String) : CompatibilityFinding :=
  finding code path status [factor] ["line:" ++ toString line]
    ["run database migration and affected reader/writer integration tests"]

def databaseTableKey (table : DatabaseTable) : String :=
  ".".intercalate (table.database.toList ++ table.schema.toList ++ [table.name])

def databaseInventory (document : DataDocument) (side : String) :
    List (String × DatabaseTable) × List CompatibilityFinding :=
  takeInventory databaseTableKey (fun _ => [])
    (fun previous table =>
      finding "database.table_duplicate" (databaseTableKey table) .incomparable
        [side ++ " document contains duplicate table coordinates"]
        [dataLocator document previous.evidence, dataLocator document table.evidence]
        ["deduplicate or qualify table declarations before comparison"])
    document.tables

def databaseColumnInventory (path side : String) (table : DatabaseTable) :
    List (String × DatabaseColumn) × List CompatibilityFinding :=
  takeInventory (·.name) (fun _ => [])
    (fun previous column =>
      finding "database.column_duplicate" (path ++ "." ++ column.name) .incomparable
        [side ++ " table contains duplicate column declarations"]
        ["line:" ++ toString previous.evidence, "line:" ++ toString column.evidence]
        ["deduplicate column declarations before comparison"])
    table.columns

def integerRank (value : List Char) : Option Nat :=
  if value = "tinyint".toList then some 0
  else if value = "smallint".toList then some 1
  else if value = "int".toList ∨ value = "integer".toList then some 2
  else if value = "bigint".toList then some 3
  else none

def typeWidth (value : List Char) (head : String) : Option Nat := do
  let value ← stripPrefix head.toList value
  let value ← stripPrefix ['('] value
  let value ← stripSuffix [')'] value
  parseUnsigned (2 ^ 64) value

/-- The first family of widths that both types belong to decides. -/
def widthNarrowed (before after : List Char) : List String → Bool
  | [] => false
  | head :: rest =>
    match typeWidth before head, typeWidth after head with
    | some previous, some candidate => candidate < previous
    | _, _ => widthNarrowed before after rest

def databaseTypeNarrowed (before after : String) : Bool :=
  let before := (before.toList.map toAsciiLowercase).filter (· ≠ ' ')
  let after := (after.toList.map toAsciiLowercase).filter (· ≠ ' ')
  match integerRank before, integerRank after with
  | some previous, some candidate => candidate < previous
  | _, _ => widthNarrowed before after ["char", "varchar", "binary", "varbinary"]

def compareDatabaseColumn (path : String) (before after : DatabaseColumn) :
    List CompatibilityFinding :=
  (if before.dataType ≠ after.dataType then
    let status :=
      match before.dataType, after.dataType with
      | some previous, some candidate =>
        if databaseTypeNarrowed previous candidate then .breaking else .potentiallyBreaking
      | _, _ => .unknown
    [databaseFinding "database.column_type_changed" path status after.evidence
      "declared column type changed"]
    else []) ++
  (if before.nullable ≠ after.nullable then
    let status :=
      match before.nullable, after.nullable with
      | some true, some false => if after.defaultPresent then .potentiallyBreaking else .breaking
      | some _, some _ => .compatible
      | _, _ => .unknown
    [databaseFinding "database.column_nullability_changed" path status after.evidence
      "declared column nullability changed"]
    else []) ++
  (if before.primaryKey && !after.primaryKey then
    [databaseFinding "database.primary_key_removed" path .breaking after.evidence
      "primary-key constraint was removed"]
    else []) ++
  if before.unique && !after.unique then
    [databaseFinding "database.unique_constraint_removed" path .potentiallyBreaking after.evidence
      "unique constraint was removed"]
  else []

def databaseIndexKey (index : DatabaseIndex) : String :=
  toString index.unique ++ ":" ++ ",".intercalate index.columns

def compareDatabaseIndexes (path : String) (before after : List DatabaseIndex) :
    List CompatibilityFinding :=
  before.flatMap fun index =>
    let key := databaseIndexKey index
    if key ∈ after.map databaseIndexKey then []
    else
      [databaseFinding "database.index_removed" (path ++ ".index:" ++ key) .potentiallyBreaking
        index.evidence "index or unique-index constraint was removed"]

def databaseForeignKey (foreignKey : DatabaseForeignKey) : String :=
  ",".intercalate foreignKey.columns ++ "->" ++ foreignKey.referencedTable ++ ":" ++
    ",".intercalate foreignKey.referencedColumns

def compareDatabaseForeignKeys (path : String) (before after : List DatabaseForeignKey) :
    List CompatibilityFinding :=
  before.flatMap fun foreignKey =>
    let key := databaseForeignKey foreignKey
    if key ∈ after.map databaseForeignKey then []
    else
      [databaseFinding "database.foreign_key_removed" (path ++ ".foreign_key:" ++ key)
        .potentiallyBreaking foreignKey.evidence "foreign-key constraint was removed"]

def compareDatabaseTable (path : String) (before after : DatabaseTable) :
    List CompatibilityFinding :=
  let beforeColumns := databaseColumnInventory path "before" before
  let afterColumns := databaseColumnInventory path "after" after
  beforeColumns.2 ++ afterColumns.2 ++
  (beforeColumns.1.flatMap fun (name, previous) =>
    match afterColumns.1.lookup name with
    | none =>
      [databaseFinding "database.column_removed" (path ++ "." ++ name) .breaking previous.evidence
        "column is absent from the candidate table"]
    | some candidate => compareDatabaseColumn (path ++ "." ++ name) previous candidate) ++
  compareDatabaseIndexes path before.indexes after.indexes ++
  compareDatabaseForeignKeys path before.foreignKeys after.foreignKeys

def compareMigrations (before after : DataDocument) : List CompatibilityFinding :=
  match before.migration, after.migration with
  | some previous, some candidate =>
    let locators := [dataLocator before previous.evidence, dataLocator after candidate.evidence]
    (if previous.revision = candidate.revision ∧ previous.downRevision ≠ candidate.downRevision then
      [finding "database.migration_predecessor_changed" "database.migration" .breaking
        ["the predecessor of an existing migration revision changed"] locators
        ["validate the full migration DAG on a production-like snapshot"]]
      else if previous.revision ≠ candidate.revision ∧ candidate.downRevision ≠ previous.revision then
        [finding "database.migration_predecessor_conflict" "database.migration" .potentiallyBreaking
          ["candidate migration does not directly follow the previous revision"] locators
          ["resolve migration branches and validate the complete predecessor graph"]]
      else []) ++
    match previous.orderHint, candidate.orderHint with
    | some previousOrder, some candidateOrder =>
      if candidateOrder < previousOrder then
        [finding "database.migration_order_regressed" "database.migration" .breaking
          ["candidate migration order precedes the previous order hint"] locators
          ["apply the complete migration sequence to an empty and upgraded database"]]
      else []
    | _, _ => []
  | some previous, none =>
    [finding "database.migration_metadata_removed" "database.migration" .unknown
      ["candidate document lacks previously modeled migration metadata"]
      [dataLocator before previous.evidence]
      ["restore migration ancestry metadata before release"]]
  | none, some candidate =>
    [finding "database.migration_metadata_added" "database.migration" .unknown
      ["migration ancestry was added without a comparable predecessor document"]
      [dataLocator after candidate.evidence]
      ["validate the candidate against the deployed migration head"]]
  | none, none => []

def databaseFindings (fingerprint : DataDocument → Option String) (before after : DataDocument) :
    List CompatibilityFinding :=
  let beforeTables := databaseInventory before "before"
  let afterTables := databaseInventory after "after"
  (fingerprints (fingerprint before) (fingerprint after) "database").2 ++
  (if before.incomplete || after.incomplete || !before.warnings.isEmpty || !after.warnings.isEmpty then
    [finding "database.extraction_incomplete" "database" .unknown
      ["one or both database documents contain extraction limitations"]
      [before.sourcePath, after.sourcePath]
      ["resolve database extraction warnings before compatibility analysis"]]
    else []) ++
  beforeTables.2 ++ afterTables.2 ++
  (beforeTables.1.flatMap fun (key, previous) =>
    match afterTables.1.lookup key with
    | none =>
      [databaseFinding "database.table_removed" key .breaking previous.evidence
        "table is absent from the candidate schema"]
    | some candidate => compareDatabaseTable key previous candidate) ++
  compareMigrations before after ++
  [finding "database.shared_consumer_impact_unmodeled" "database.consumers" .unknown
    ["one artifact cannot establish the impact on every shared-table consumer"]
    [before.sourcePath, after.sourcePath]
    ["query the repository graph for all readers and writers, then run their integration tests"]]

def compareDatabaseContracts (fingerprint : DataDocument → Option String)
    (before after : DataDocument) : CompatibilityReport :=
  finishReport (fingerprints (fingerprint before) (fingerprint after) "database").1
    (databaseFindings fingerprint before after)

end Databases

end CodeSystemGraph.Contracts
