import CodeSystemGraph.DocumentText
import CodeSystemGraph.Ordered
import CodeSystemGraph.Utf8Slices
import Mathlib.Data.List.Destutter

/-!
Extraction of configuration keys without their values: the collector of keys under its
budgets, the scanner of JSON keys over the bytes of a text, and the document that the
format of a path selects. `serde_json` and the readers of YAML and TOML are parameters.
-/

namespace CodeSystemGraph.SafeConfig

open Ordered Text Utf8

def maxInputBytes : Nat := 1024 * 1024
def maxDepth : Nat := 32
def maxKeys : Nat := 4096
def maxKeyBytes : Nat := 256

inductive ConfigArtifactKind
  | dotenv | yaml | json | toml
deriving DecidableEq

inductive SensitiveKeyKind
  | token | password | secret | privateKey | credential | accessKey | connectionString | databaseUrl
deriving DecidableEq

structure SafeConfigKey where
  scope : List String
  name : String
  line : Nat
  sensitiveKind : Option SensitiveKeyKind
deriving DecidableEq

structure SafeConfigDocument where
  sourcePath : String
  artifactKind : ConfigArtifactKind
  keys : List SafeConfigKey
  warnings : List String
  incomplete : Bool

inductive ConfigExtractionError
  | unsupportedArtifact
  | inputTooLarge (actual maximum : Nat)
  | depthLimitExceeded (line maximum : Nat)
  | keyLimitExceeded (maximum : Nat)
  | keyTooLong (line maximum : Nat)
  | malformed (artifactKind : ConfigArtifactKind) (line column : Nat)
deriving DecidableEq

def malformed (artifactKind : ConfigArtifactKind) (line column : Nat) : ConfigExtractionError :=
  .malformed artifactKind (max line 1) (max column 1)

def checkDepth (depth line : Nat) : Except ConfigExtractionError Unit :=
  ensure (depth ≤ maxDepth) (.depthLimitExceeded line maxDepth)

section Classification

/-- The characters of a name in lower case, with a blank for every separator and before a
capital letter that follows a small letter or a digit. -/
def normalizedCharacters : Bool → List Char → List Char
  | _, [] => []
  | previousLowerOrDigit, c :: rest =>
    if c.isAlphanum then
      (if c.isUpper && previousLowerOrDigit then [' '] else []) ++
        toAsciiLowercase c :: normalizedCharacters (c.isLower || c.isDigit) rest
    else ' ' :: normalizedCharacters false rest

def normalizedWords (name : String) : List (List Char) :=
  Documents.splitWhitespace (normalizedCharacters false name.toList)

def classifySensitiveKey (name : String) : Option SensitiveKeyKind :=
  let words := normalizedWords name
  let compact := words.flatten
  let contains (needle : String) : Bool := containsText compact needle.toList
  let has (needle : String) : Bool := words.contains needle.toList
  let adjacent (first second : String) : Bool :=
    (words.zip words.tail).contains (first.toList, second.toList)
  if contains "privatekey" || adjacent "private" "key" then some .privateKey
  else if contains "connectionstring" || contains "connstr" || adjacent "connection" "string" then
    some .connectionString
  else if contains "databaseurl" || contains "dburl" || contains "jdbcurl" ||
      adjacent "database" "url" then
    some .databaseUrl
  else if contains "accesskey" || contains "apikey" || adjacent "access" "key" ||
      adjacent "api" "key" then
    some .accessKey
  else if has "password" || has "passwd" || has "passphrase" || has "pwd" then some .password
  else if has "credential" || has "credentials" || has "cred" || has "creds" then some .credential
  else if has "token" || "token".toList.isSuffixOf compact || has "authorization" ||
      has "bearer" then
    some .token
  else if has "secret" || "secret".toList.isSuffixOf compact then some .secret
  else none

end Classification

section Collector

abbrev KeyPath := List String ×ₗ String

instance : Std.LawfulEqOrd KeyPath where
  compare_self := by
    intro path
    simp
  eq_of_compare := by
    intro path other same
    rw [Prod.Lex.compare_def, compareLex_eq_eq, compareOn, compareOn] at same
    exact Prod.ext (Std.LawfulEqOrd.eq_of_compare same.1) (Std.LawfulEqOrd.eq_of_compare same.2)

instance : Std.TransOrd KeyPath := inferInstance

structure KeyCollector where
  keys : BTreeMap KeyPath SafeConfigKey := ∅

namespace KeyCollector

def insert (collector : KeyCollector) (scope : List String) (name : String) (line : Nat) :
    Except ConfigExtractionError KeyCollector :=
  if maxKeyBytes < name.utf8ByteSize then .error (.keyTooLong line maxKeyBytes)
  else if name = "" then .ok collector
  else
    let identity : KeyPath := toLex (scope, name)
    match collector.keys[identity]? with
    | some existing =>
      .ok ⟨collector.keys.insert identity { existing with line := min existing.line line }⟩
    | none =>
      if maxKeys ≤ collector.keys.size then .error (.keyLimitExceeded maxKeys)
      else .ok ⟨collector.keys.insert identity ⟨scope, name, line, classifySensitiveKey name⟩⟩

def intoKeys (collector : KeyCollector) : List SafeConfigKey := values collector.keys

end KeyCollector

end Collector

section Scanner

/-- Where an extraction ends without a document: at a slice inside a character, without
fuel, or with an error. -/
inductive Stop
  | panicked
  | exhausted
  | failed (error : ConfigExtractionError)

/-- `from_str` of `serde_json`: whether it accepts a text, and the string that a text
stands for. An error has a line and a column. -/
structure Serde where
  ignored : List Char → Except (Nat × Nat) Unit
  string : List Char → Except (Nat × Nat) String

def isAsciiWhitespace (byte : UInt8) : Bool :=
  byte == 9 || byte == 10 || byte == 12 || byte == 13 || byte == 32

structure JsonKeyParser where
  input : List Char
  position : Nat
  line : Nat
  collector : KeyCollector

namespace JsonKeyParser

def currentByte (parser : JsonKeyParser) : Option UInt8 := (encode parser.input)[parser.position]?

def advance (parser : JsonKeyParser) : JsonKeyParser :=
  { parser with
    line := if parser.currentByte = some 10 then parser.line + 1 else parser.line
    position := parser.position + 1 }

/-- The bytes that are left, which bound the steps of every loop. -/
def remaining (parser : JsonKeyParser) : Nat := (encode parser.input).length - parser.position

def lineStart (head : List Char) : Nat :=
  (encode (head.reverse.dropWhile (· != '\n')).reverse).length

def error (parser : JsonKeyParser) : Stop :=
  match slice parser.input 0 (min parser.position (encode parser.input).length) with
  | none => .panicked
  | some head =>
    .failed (SafeConfig.malformed .json parser.line (parser.position - lineStart head + 1))

def consume (expected : UInt8) (parser : JsonKeyParser) : Option JsonKeyParser :=
  if parser.currentByte = some expected then some parser.advance else none

def skipWhile (wanted : UInt8 → Bool) : Nat → JsonKeyParser → JsonKeyParser
  | 0, parser => parser
  | fuel + 1, parser =>
    if parser.currentByte.any wanted then skipWhile wanted fuel parser.advance else parser

def skipWhitespace (parser : JsonKeyParser) : JsonKeyParser :=
  parser.skipWhile isAsciiWhitespace parser.remaining

def isScalarByte (byte : UInt8) : Bool :=
  !(isAsciiWhitespace byte || byte == 44 || byte == 93 || byte == 125)

def skipScalar (parser : JsonKeyParser) : Except Stop JsonKeyParser :=
  let after := parser.skipWhile isScalarByte parser.remaining
  if after.position = parser.position then .error after.error else .ok after

def skipStringLoop : Nat → Bool → JsonKeyParser → Except Stop JsonKeyParser
  | 0, _, _ => .error .exhausted
  | fuel + 1, escaped, parser =>
    match parser.currentByte with
    | none => .error parser.error
    | some byte =>
      if escaped then skipStringLoop fuel false parser.advance
      else if byte = 92 then skipStringLoop fuel true parser.advance
      else if byte = 34 then .ok parser.advance
      else skipStringLoop fuel false parser.advance

def skipString (parser : JsonKeyParser) : Except Stop JsonKeyParser :=
  match parser.consume 34 with
  | none => .error parser.error
  | some parser => skipStringLoop (parser.remaining + 1) false parser

def insert (parser : JsonKeyParser) (scope : List String) (name : String) (line : Nat) :
    Except Stop JsonKeyParser :=
  match parser.collector.insert scope name line with
  | .ok collector => .ok { parser with collector := collector }
  | .error error => .error (.failed error)

variable (serde : Serde)

def parseKeyString (parser : JsonKeyParser) : Except Stop (String × JsonKeyParser) :=
  if parser.currentByte = some 34 then do
    let after ← parser.skipString
    match slice parser.input parser.position after.position with
    | none => .error .panicked
    | some quoted =>
      match serde.string quoted with
      | .ok name => .ok (name, after)
      | .error (line, column) =>
        .error (.failed (SafeConfig.malformed .json (line + (after.line - 1)) column))
  else .error parser.error

/-- The end of an item: the closing byte ends the loop, a comma goes on with it. -/
def separate (closing : UInt8) (next : JsonKeyParser → Except Stop JsonKeyParser)
    (parser : JsonKeyParser) : Except Stop JsonKeyParser :=
  match parser.consume closing with
  | some parser => .ok parser
  | none =>
    match parser.consume 44 with
    | some parser => next parser
    | none => .error parser.error

/-- The loop of `parse_object`, with the parser of the values one level down. -/
def objectLoop (parse : List String → Nat → JsonKeyParser → Except Stop JsonKeyParser)
    (scope : List String) (depth : Nat) : Nat → JsonKeyParser → Except Stop JsonKeyParser
  | 0, _ => .error .exhausted
  | fuel + 1, parser => do
    let parser := parser.skipWhitespace
    let keyLine := parser.line
    let (key, parser) ← parser.parseKeyString serde
    let parser := parser.skipWhitespace
    match parser.consume 58 with
    | none => .error parser.error
    | some parser =>
      let parser ← parser.insert scope key keyLine
      let parser ← parse (scope ++ [key]) (depth + 1) parser
      parser.skipWhitespace.separate 125 (objectLoop parse scope depth fuel)

def parseObject (parse : List String → Nat → JsonKeyParser → Except Stop JsonKeyParser)
    (scope : List String) (depth : Nat) (parser : JsonKeyParser) : Except Stop JsonKeyParser :=
  let start := parser.advance.skipWhitespace
  match start.consume 125 with
  | some parser => .ok parser
  | none => objectLoop serde parse scope depth parser.remaining start

/-- The loop of `parse_array`, with the parser of the values one level down. -/
def arrayLoop (parse : List String → Nat → JsonKeyParser → Except Stop JsonKeyParser)
    (scope : List String) (depth : Nat) : Nat → JsonKeyParser → Except Stop JsonKeyParser
  | 0, _ => .error .exhausted
  | fuel + 1, parser => do
    let parser ← parse scope (depth + 1) parser
    parser.skipWhitespace.separate 93 (arrayLoop parse scope depth fuel)

def parseArray (parse : List String → Nat → JsonKeyParser → Except Stop JsonKeyParser)
    (scope : List String) (depth : Nat) (parser : JsonKeyParser) : Except Stop JsonKeyParser :=
  let start := parser.advance.skipWhitespace
  match start.consume 93 with
  | some parser => .ok parser
  | none => arrayLoop parse scope depth parser.remaining start

/-- The fuel bounds the nesting, as the check of the depth does. -/
def parseValue : Nat → List String → Nat → JsonKeyParser → Except Stop JsonKeyParser
  | 0, _, _, _ => .error .exhausted
  | fuel + 1, scope, depth, parser =>
    let parser := parser.skipWhitespace
    match checkDepth depth parser.line with
    | .error error => .error (.failed error)
    | .ok () =>
      match parser.currentByte with
      | none => .error parser.error
      | some byte =>
        if byte = 123 then parser.parseObject serde (parseValue fuel) scope depth
        else if byte = 91 then parser.parseArray (parseValue fuel) scope depth
        else if byte = 34 then parser.skipString
        else parser.skipScalar

end JsonKeyParser

def parseJson (serde : Serde) (input : List Char) (collector : KeyCollector) :
    Except Stop KeyCollector := do
  let parser ← JsonKeyParser.parseValue serde (maxDepth + 2) [] 0 ⟨input, 0, 1, collector⟩
  let parser := parser.skipWhitespace
  if parser.position ≠ (encode input).length then .error parser.error
  else
    match serde.ignored input with
    | .error (line, column) => .error (.failed (malformed .json line column))
    | .ok () => .ok parser.collector

end Scanner

section Extraction

def isDotenvKey (key : List Char) : Bool :=
  key.head?.any (fun c => c.isAlpha || c = '_') && key.tail.all fun c => c.isAlphanum || c = '_'

def parseDotenv : Nat → List (List Char) → KeyCollector → Except ConfigExtractionError KeyCollector
  | _, [], collector => .ok collector
  | line, sourceLine :: rest, collector =>
    let text := trim sourceLine
    if text = [] || text.head? = some '#' then parseDotenv (line + 1) rest collector
    else
      let assignment :=
        match stripPrefix "export ".toList text with
        | some assignment => assignment.dropWhile isWhitespace
        | none => text
      match splitOnce '=' assignment with
      | (_, none) => .error (malformed .dotenv line 1)
      | (key, some _) =>
        if isDotenvKey (trim key) then do
          let collector ← collector.insert [] (String.ofList (trim key)) line
          parseDotenv (line + 1) rest collector
        else .error (malformed .dotenv line 1)

structure Readers where
  yaml : List Char → KeyCollector → Except Stop (KeyCollector × List String)
  toml : List Char → KeyCollector → Except Stop (KeyCollector × List String)

def artifactKind (sourcePath : String) : Except ConfigExtractionError ConfigArtifactKind :=
  let fileName := (((sourcePath.toList.splitOnP fun c => c = '/' || c = '\\').getLast?).getD
    sourcePath.toList).map toAsciiLowercase
  if fileName = ".env".toList || ".env.".toList.isPrefixOf fileName then .ok .dotenv
  else
    match (rsplitOnce '.' fileName).map fun parts => String.ofList parts.2 with
    | some "env" => .ok .dotenv
    | some "yaml" => .ok .yaml
    | some "yml" => .ok .yaml
    | some "json" => .ok .json
    | some "toml" => .ok .toml
    | _ => .error .unsupportedArtifact

def lift {α : Type} : Except ConfigExtractionError α → Except Stop α
  | .ok a => .ok a
  | .error error => .error (.failed error)

def extractSafeConfig (serde : Serde) (readers : Readers) (sourcePath input : String) :
    Except Stop SafeConfigDocument := do
  let artifactKind ← lift (artifactKind sourcePath)
  if maxInputBytes < input.utf8ByteSize then
    .error (.failed (.inputTooLarge input.utf8ByteSize maxInputBytes))
  else
    let (collector, warnings) ←
      match artifactKind with
      | .dotenv => (lift (parseDotenv 1 (textLines input.toList) {})).map (·, [])
      | .yaml => readers.yaml input.toList {}
      | .json => (parseJson serde input.toList {}).map (·, [])
      | .toml => readers.toml input.toList {}
    let warnings := (warnings.mergeSort (· ≤ ·)).destutter (· ≠ ·)
    .ok ⟨sourcePath, artifactKind, collector.intoKeys, warnings, !warnings.isEmpty⟩

end Extraction

end CodeSystemGraph.SafeConfig
