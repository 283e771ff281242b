import CodeSystemGraph.Text

/-!
What documentation extraction retains of a source: records, ownership rules and
warnings. Every text that is kept goes through one of the tests below.
-/

namespace CodeSystemGraph.Documents

open Text

def maxInputBytes : ℕ := 1048576
def maxSourcePathBytes : ℕ := 4096
def maxRecords : ℕ := 1024
def maxItems : ℕ := 4096
def maxWarnings : ℕ := 128
def maxCatalogDepth : ℕ := 32
def maxDisplayBytes : ℕ := 512
def maxReferenceBytes : ℕ := 1024
def maxOwnerBytes : ℕ := 256
def redacted : String := "[redacted]"

inductive DocumentKind
  | markdown | readme | adr | rfc | runbook | serviceCatalog | codeowners
deriving DecidableEq

inductive ExplicitReferenceKind
  | repository | repositoryDependency | service | httpContract | eventChannel
  | graphqlOperation | rpcMethod | databaseTable | deployment | configKey | document | owner
deriving DecidableEq

structure LineEvidence where
  start : ℕ
  finish : ℕ
deriving DecidableEq

structure ExplicitReference where
  kind : ExplicitReferenceKind
  target : String
  evidence : LineEvidence
deriving DecidableEq

structure DocumentRecord where
  sourcePath : String
  kind : DocumentKind
  title : Option String
  status : Option String
  headings : List String
  owners : List String
  references : List ExplicitReference
  warnings : List String
  incomplete : Bool

structure OwnershipRule where
  pattern : String
  owners : List String
  line : ℕ
deriving DecidableEq

structure DocumentationDocument where
  records : List DocumentRecord
  ownershipRules : List OwnershipRule
  warnings : List String
  incomplete : Bool

inductive DocumentationExtractionError
  | inputTooLarge (actual maximum : ℕ)
  | sourcePathTooLong (actual maximum : ℕ)
  | invalidServiceCatalog
  | catalogNestingTooDeep (maximum : ℕ)
deriving DecidableEq

structure ExtractionState where
  warnings : List String := []
  incomplete : Bool := false

def ExtractionState.warn (state : ExtractionState) (warning : String) : ExtractionState where
  incomplete := true
  warnings :=
    if state.warnings.length < maxWarnings ∧ warning ∉ state.warnings then
      state.warnings ++ [warning]
    else state.warnings

def validateBounds (sourcePath input : String) : Except DocumentationExtractionError Unit :=
  if maxSourcePathBytes < sourcePath.utf8ByteSize then
    .error (.sourcePathTooLong sourcePath.utf8ByteSize maxSourcePathBytes)
  else if maxInputBytes < input.utf8ByteSize then
    .error (.inputTooLarge input.utf8ByteSize maxInputBytes)
  else .ok ()

def secretMarkers : List String :=
  ["password", "passwd", "secret", "token", "api_key", "api-key", "apikey", "private_key",
    "private-key", "credential", "access_key", "access-key"]

/-- A text goes on with optional white space and then `:` or `=`. -/
def assigns (rest : List Char) : Bool :=
  match rest.dropWhile isWhitespace with
  | c :: _ => c = ':' || c = '='
  | [] => false

/-- Looks behind the first occurrence of each marker. -/
def containsSecretValue (value : String) : Bool :=
  let lower := value.toList.map toAsciiLowercase
  secretMarkers.any fun marker =>
    match afterFirst marker.toList lower with
    | some rest => assigns rest
    | none => false

def isAsciiAlphanumeric (c : Char) : Bool := c.isAlphanum

def pushUniqueBounded (values : List String) (value : String) (state : ExtractionState) :
    List String × ExtractionState :=
  if value ∈ values then (values, state)
  else if maxItems ≤ values.length then (values, state.warn "documentation_item_limit_reached")
  else (values ++ [value], state)

def pushReference (references : List ExplicitReference) (reference : ExplicitReference)
    (state : ExtractionState) : List ExplicitReference × ExtractionState :=
  if maxItems ≤ references.length then
    (references, state.warn "documentation_reference_limit_reached")
  else (references ++ [reference], state)

def u32Max : ℕ := 4294967295

def oneBasedLine (index : ℕ) : ℕ := min (index + 1) u32Max

def singleLine (line : ℕ) : LineEvidence := ⟨line, line⟩

/-- What follows the last `/` or backslash. -/
def fileName (path : String) : String :=
  String.ofList (path.toList.reverse.takeWhile fun c => c ≠ '/' && c ≠ '\\').reverse

end CodeSystemGraph.Documents
