import CodeSystemGraph.PullRequests

/-!
Markdown resources that must fit into a number of bytes. The sizes of real strings
do not saturate. How JSON is printed is a parameter.
-/

namespace CodeSystemGraph.AgentMarkdown

open Text
open PullRequests (Value JsonNumber)

def truncationNotice : String :=
  "\n## Truncation\n\nAdditional result content was omitted by the effective MCP " ++
    "response-byte limit.\n"

section Characters

def between (low high : ℕ) (c : Char) : Bool := low ≤ c.toNat && c.toNat ≤ high

def safeCharacter (c : Char) : Char :=
  if isControl c || c == '\u061C' || between 0x200B 0x200F c || between 0x202A 0x202E c ||
      between 0x2060 0x2069 c || c == '\uFEFF' then '\uFFFD'
  else c

def headingCharacter (c : Char) : Char :=
  if ['_', '-', '\n', '\r', '\t', '\x00'].contains c then ' ' else safeCharacter c

def heading (value : String) : String := String.ofList (value.toList.map headingCharacter)

def inlineCharacter (c : Char) : List Char :=
  if ['\n', '\r', '\t', '\x00'].contains c then [' ']
  else if c = '|' then ['¦']
  else if c = '\x60' then ['ˋ']
  else if c = '<' then ['‹']
  else if c = '>' then ['›']
  else if ['\\', '[', ']', '(', ')', '*', '_', '#', '!'].contains c then ['\\', c]
  else [safeCharacter c]

def inlineText (value : String) : String := String.ofList (value.toList.flatMap inlineCharacter)

def safeMultiline (value : String) : String :=
  String.ofList (value.toList.map fun c =>
    if c = '\n' ∨ c = '\t' then c else if c = '\r' then '\n' else safeCharacter c)

/-- One backtick more than the longest run of them, and at least three. -/
def fenceMarker (value : String) : String :=
  let runs := (value.toList.splitOnP fun c => c != '\x60').map List.length
  String.ofList (List.replicate (max (runs.max?.getD 0) 2 + 1) '\x60')

def fenced (language value : String) : String :=
  let value := safeMultiline value
  let fence := fenceMarker value
  "\n" ++ fence ++ language ++ "\n" ++ value ++ "\n" ++ fence ++ "\n"

end Characters

section Documents

inductive DocumentBlock
  | control (value : String)
  | atomic (value : String)
  | collection (heading : String) (total : ℕ) (sourceTruncated : Bool) (items : List String)
deriving DecidableEq

structure MarkdownDocument where
  blocks : List DocumentBlock
  compact : String

def boolText (value : Bool) : String := if value then "true" else "false"

def collectionBlock (name : String) (total retained : ℕ) (truncated : Bool) (items : List String) :
    String :=
  "\n## " ++ heading name ++ "\n\n- Total: \x60" ++ total.repr ++ "\x60\n- Retained: \x60" ++
    retained.repr ++ "\x60\n- Truncated: \x60" ++ boolText truncated ++ "\x60\n" ++ String.join items

def DocumentBlock.complete : DocumentBlock → String
  | .control value => value
  | .atomic value => value
  | .collection heading total sourceTruncated items =>
    collectionBlock heading total items.length sourceTruncated items

def MarkdownDocument.intoComplete (document : MarkdownDocument) : String :=
  String.join (document.blocks.map DocumentBlock.complete)

section Collections

variable (name : String) (total : ℕ) (sourceTruncated : Bool) (maximum : ℕ)

def fitItems : ℕ → ℕ → List String → ℕ × ℕ
  | retained, bytes, [] => (retained, bytes)
  | retained, bytes, item :: items =>
    let truncated := sourceTruncated || decide (retained + 1 < total)
    let metadata := collectionBlock name total (retained + 1) truncated []
    if maximum < metadata.utf8ByteSize + bytes + item.utf8ByteSize then (retained, bytes)
    else fitItems (retained + 1) (bytes + item.utf8ByteSize) items

def boundedCollectionBlock (items : List String) : Option String :=
  let fitted := fitItems name total sourceTruncated maximum 0 0 items
  let truncated := sourceTruncated || decide (fitted.1 < total)
  let output := collectionBlock name total fitted.1 truncated []
  if maximum < output.utf8ByteSize + fitted.2 then none
  else some (output ++ String.join (items.take fitted.1))

end Collections

def addFitting (available : ℕ) (output block : String) : String :=
  if output.utf8ByteSize + block.utf8ByteSize ≤ available then output ++ block else output

def addBlock (available : ℕ) (output : String) : DocumentBlock → String
  | .control _ => output
  | .atomic value => addFitting available output value
  | .collection heading total sourceTruncated items =>
    match boundedCollectionBlock heading total sourceTruncated (available - output.utf8ByteSize)
        items with
    | some value => output ++ value
    | none => output

def fitDocument (blocks : List DocumentBlock) (maximum : ℕ) (compact : String) : String :=
  let complete := String.join (blocks.map DocumentBlock.complete)
  if complete.utf8ByteSize ≤ maximum then complete
  else
    let available := maximum - truncationNotice.utf8ByteSize
    let opening := if compact.utf8ByteSize ≤ available then compact else ""
    addFitting maximum (blocks.foldl (addBlock available) opening) truncationNotice

def MarkdownDocument.render (document : MarkdownDocument) (maximum : ℕ) : String :=
  fitDocument document.blocks maximum document.compact

end Documents

section Catalogs

variable (pretty : Value → String) (displayNumber : JsonNumber → String)

def fitAtomicBlocks (blocks : List String) (maximum : ℕ) : String :=
  let complete := String.join blocks
  if complete.utf8ByteSize ≤ maximum then complete
  else
    let available := maximum - truncationNotice.utf8ByteSize
    addFitting maximum (blocks.foldl (addFitting available) "") truncationNotice

def compactJson : Value → String
  | .null => "_none_"
  | .bool value => "\x60" ++ boolText value ++ "\x60"
  | .number value => "\x60" ++ displayNumber value ++ "\x60"
  | .string value => inlineText value
  | .array _ => "_structured item_"
  | .object _ => "_structured item_"

def schemaCatalogEntry (entry : String × Value) : String :=
  "\n## " ++ heading entry.1 ++ "\n" ++ fenced "json" (pretty entry.2)

def catalogHeader : String := "# Schema Catalog\n"

def schemaCatalogPreamble (version mediaType : String) (total retained : ℕ) (truncated : Bool) :
    String :=
  "\n## Catalog\n\n- Schema version: " ++ version ++ "\n- Media type: " ++ mediaType ++
    "\n- Schemas: total \x60" ++ total.repr ++ "\x60, retained \x60" ++ retained.repr ++
    "\x60, truncated \x60" ++ boolText truncated ++ "\x60\n"

def preambleFields : List String :=
  ["schema_version", "media_type", "schemas", "schema_total", "schema_retained", "schemas_truncated"]

structure CatalogFacts where
  version : String
  mediaType : String
  total : ℕ
  sourceTruncated : Bool

def catalogFacts (object schemas : List (String × Value)) : CatalogFacts :=
  let total := max (((object.lookup "schema_total").bind Value.asU64).getD schemas.length) schemas.length
  { version := ((object.lookup "schema_version").map (compactJson displayNumber)).getD "_none_"
    mediaType := ((object.lookup "media_type").map (compactJson displayNumber)).getD "_none_"
    total
    sourceTruncated := ((object.lookup "schemas_truncated").bind Value.asBool).getD
      (decide (schemas.length < total)) }

def CatalogFacts.preamble (facts : CatalogFacts) (retained : ℕ) : String :=
  schemaCatalogPreamble facts.version facts.mediaType facts.total retained
    (facts.sourceTruncated || decide (retained < facts.total))

/-- A schema that does not fit is skipped, and those after it are still tried. -/
def keepSchemas (facts : CatalogFacts) (available : ℕ) (kept : List String) (block : String) :
    List String :=
  let length := catalogHeader.utf8ByteSize + (facts.preamble (kept.length + 1)).utf8ByteSize +
    (String.join kept).utf8ByteSize + block.utf8ByteSize
  if length ≤ available then kept ++ [block] else kept

def schemaBlocks (schemas : List (String × Value)) : List String :=
  schemas.map (schemaCatalogEntry pretty)

def optionalBlocks (object : List (String × Value)) : List String :=
  (object.filter fun entry => !preambleFields.contains entry.1).map (schemaCatalogEntry pretty)

def renderNestedSchemaCatalog (object schemas : List (String × Value)) (maximum : ℕ) : String :=
  let facts := catalogFacts displayNumber object schemas
  let complete := catalogHeader ++ facts.preamble schemas.length ++
    String.join (schemaBlocks pretty schemas) ++ String.join (optionalBlocks pretty object)
  if complete.utf8ByteSize ≤ maximum then complete
  else
    let available := maximum - truncationNotice.utf8ByteSize
    let kept := (schemaBlocks pretty schemas).foldl (keepSchemas facts available) []
    let base := catalogHeader ++ facts.preamble kept.length ++ String.join kept
    addFitting maximum ((optionalBlocks pretty object).foldl (addFitting available) base) truncationNotice

/-- The members of a catalog and of its `schemas`. -/
def nestedCatalog : Value → Option (List (String × Value) × List (String × Value))
  | .object object =>
    match object.lookup "schemas" with
    | some (.object schemas) => some (object, schemas)
    | _ => none
  | _ => none

def flatBlocks : Value → List String
  | .object object => catalogHeader :: object.map (schemaCatalogEntry pretty)
  | value => [catalogHeader, fenced "json" (pretty value)]

def renderSchemaCatalog (value : Value) (maximum : ℕ) : String :=
  match nestedCatalog value with
  | some (object, schemas) => renderNestedSchemaCatalog pretty displayNumber object schemas maximum
  | none => fitAtomicBlocks (flatBlocks pretty value) maximum

end Catalogs

end CodeSystemGraph.AgentMarkdown
