import CodeSystemGraph.KeepFirst
import CodeSystemGraph.Text
import Mathlib.Data.Prod.Lex

/-!
Protobuf contracts. A file is given as the element tree of the parser; messages,
groups and extend blocks are read into messages, each list sorted and kept to
the first of each full name. Budgets only refuse a file and are left out.
-/

namespace CodeSystemGraph.Protobuf

open Ordered Text

mutual

inductive Literal
  | array (values : List Literal)
  | orderedMap (entries : List NamedLiteral)
  | scalar (source : String)

inductive NamedLiteral
  | mk (name : String) (literal : Literal)

end

structure ProtoOption where
  name : String
  constant : Literal

structure FieldCommon where
  name : String
  typeName : String
  sequence : ℤ
  line : ℕ
  options : List ProtoOption

inductive ImportKind
  | default | public_ | weak
deriving DecidableEq

/-- The elements of the parser; what no function reads is `other`. -/
inductive Element
  | version (edition : Bool) (value : String) (line : ℕ)
  | package (name : String) (line : ℕ)
  | importFile (filename : String) (kind : ImportKind) (line : ℕ)
  | option (option : ProtoOption)
  | message (name : String) (isExtend : Bool) (line : ℕ) (elements : List Element)
  | enumeration (name : String) (line : ℕ) (elements : List Element)
  | service (name : String) (line : ℕ) (elements : List Element)
  | rpc (name requestType returnsType : String) (streamsRequest streamsReturns : Bool) (line : ℕ)
      (elements : List Element)
  | normalField (field : FieldCommon) (optional required repeated : Bool)
  | mapField (field : FieldCommon) (keyType : String)
  | oneof (name : String) (elements : List Element)
  | oneofField (field : FieldCommon)
  | group (name : String) (sequence : ℤ) (optional required repeated : Bool) (line : ℕ)
      (elements : List Element)
  | enumField (name : String) (integer : ℤ) (line : ℕ) (elements : List Element)
  | reserved (ranges fieldNames : List String)
  | other

namespace Element

/-- The elements inside of an element. -/
def contents : Element → List Element
  | message _ _ _ elements => elements
  | enumeration _ _ elements => elements
  | service _ _ elements => elements
  | rpc _ _ _ _ _ _ elements => elements
  | oneof _ elements => elements
  | group _ _ _ _ _ _ elements => elements
  | enumField _ _ _ elements => elements
  | _ => []

theorem list_induction {P : List Element → Prop} (nil : P [])
    (cons : ∀ element elements, P element.contents → P elements → P (element :: elements)) :
    ∀ elements, P elements :=
  @Element.rec_1 (fun element => P element.contents) P (fun _ _ _ => nil) (fun _ _ => nil)
    (fun _ _ _ => nil) (fun _ => nil) (fun _ _ _ _ inner => inner) (fun _ _ _ inner => inner)
    (fun _ _ _ inner => inner) (fun _ _ _ _ _ _ _ inner => inner) (fun _ _ _ _ => nil)
    (fun _ _ => nil) (fun _ _ inner => inner) (fun _ => nil) (fun _ _ _ _ _ _ _ inner => inner)
    (fun _ _ _ _ inner => inner) (fun _ _ => nil) nil nil
    (fun element elements first rest => cons element elements first rest)

end Element

inductive ProtoSyntax
  | proto2 | proto3
  | edition (version : String)
deriving DecidableEq

inductive ProtoFieldCardinality
  | singular | optional | required | repeated
deriving DecidableEq

inductive ProtoWireType
  | varint | fixed64 | lengthDelimited | startGroup | fixed32 | unknown
deriving DecidableEq

/-- A `BTreeMap` of option names and values, sorted by name. -/
abbrev Options := List (String × String)

structure ProtoField where
  name : String
  number : ℤ
  typeName : String
  wireType : ProtoWireType
  cardinality : ProtoFieldCardinality
  oneof : Option String
  mapKeyType : Option String
  mapValueType : Option String
  options : Options
  line : ℕ
deriving DecidableEq

structure ProtoEnumValue where
  name : String
  number : ℤ
  options : Options
  line : ℕ
deriving DecidableEq

structure ProtoEnum where
  name : String
  fullName : String
  values : List ProtoEnumValue
  reservedNumbers : List String
  reservedNames : List String
  options : Options
  line : ℕ
deriving DecidableEq

inductive ProtoMessage
  | mk (name fullName : String) (fields : List ProtoField) (messages : List ProtoMessage)
      (enums : List ProtoEnum) (reservedNumbers reservedNames : List String) (options : Options)
      (isExtension : Bool) (line : ℕ)

namespace ProtoMessage

def fullName : ProtoMessage → String
  | mk _ fullName _ _ _ _ _ _ _ _ => fullName

def messages : ProtoMessage → List ProtoMessage
  | mk _ _ _ messages _ _ _ _ _ _ => messages

def fields : ProtoMessage → List ProtoField
  | mk _ _ fields _ _ _ _ _ _ _ => fields

def enums : ProtoMessage → List ProtoEnum
  | mk _ _ _ _ enums _ _ _ _ _ => enums

def isExtension : ProtoMessage → Bool
  | mk _ _ _ _ _ _ _ _ isExtension _ => isExtension

mutual

/-- A message and the messages inside of it. -/
def all : ProtoMessage → List ProtoMessage
  | mk name fullName fields messages enums reservedNumbers reservedNames options isExtension line =>
    mk name fullName fields messages enums reservedNumbers reservedNames options isExtension line ::
      allOf messages

def allOf : List ProtoMessage → List ProtoMessage
  | [] => []
  | message :: messages => all message ++ allOf messages

end

theorem mem_allOf {message : ProtoMessage} {messages : List ProtoMessage} :
    message ∈ allOf messages ↔ ∃ outer ∈ messages, message ∈ all outer := by
  induction messages with
  | nil => simp [allOf]
  | cons outer messages ih => simp [allOf, ih]

end ProtoMessage

structure ProtoRpcMethod where
  name : String
  requestType : String
  responseType : String
  clientStreaming : Bool
  serverStreaming : Bool
  options : Options
  line : ℕ
deriving DecidableEq

structure ProtoService where
  name : String
  fullName : String
  methods : List ProtoRpcMethod
  options : Options
  line : ℕ
deriving DecidableEq

structure ProtoFile where
  sourcePath : String
  version : ProtoSyntax
  versionLine : Option ℕ
  package : Option String
  packageLine : Option ℕ
  imports : List String
  publicImports : List String
  weakImports : List String
  importLines : List (String × ℕ)
  options : Options
  messages : List ProtoMessage
  enums : List ProtoEnum
  services : List ProtoService

inductive ProtobufExtractionError
  | invalidDeclaration (sourcePath : String) (line : ℕ) (message : String)
  | invalidFieldNumber (sourcePath field : String) (number : ℤ) (line : ℕ)
  | duplicateField (message coordinate value : String) (line : ℕ)
deriving DecidableEq

def maxFieldNumber : ℤ := 536870911
def firstReservedImplementationField : ℤ := 19000
def lastReservedImplementationField : ℤ := 19999

def sourceLine (value : ℕ) : ℕ := min value 4294967295

def trimDots (name : String) : String := String.ofList (name.toList.dropWhile fun c => c = '.')

def qualifiedName (scope name : String) : String :=
  if scope = "" ∨ name.toList.head? = some '.' then trimDots name else scope ++ "." ++ name

def optionNameMatchesRoot (name root : String) : Bool :=
  name = root ||
    match (stripPrefix ['('] name.toList).bind (stripPrefix root.toList) with
    | some suffix => suffix = [')'] || (")." : String).toList.isPrefixOf suffix
    | none => false

def relevantNames : List String :=
  ["cc_enable_arenas", "cc_generic_services", "csharp_namespace", "ctype", "deprecated",
    "go_package", "idempotency_level", "java_generic_services", "java_multiple_files",
    "java_outer_classname", "java_package", "json_name", "jstype", "objc_class_prefix",
    "optimize_for", "packed", "php_class_prefix", "php_metadata_namespace", "php_namespace",
    "py_generic_services", "ruby_package", "swift_prefix"]

def relevantRoots : List String :=
  ["google.api.http", "grpc.gateway.protoc_gen_openapiv2.options.openapiv2_swagger",
    "grpc.gateway.protoc_gen_openapiv2.options.openapiv2_operation",
    "grpc.gateway.protoc_gen_openapiv2.options.openapiv2_schema",
    "grpc.gateway.protoc_gen_openapiv2.options.openapiv2_field",
    "grpc.gateway.protoc_gen_openapiv2.options.openapiv2_tag"]

def isRelevantOption (name : String) : Bool :=
  relevantNames.contains name || relevantRoots.any (optionNameMatchesRoot name)

mutual

def literalValue : Literal → String
  | .array values => "[" ++ String.intercalate "," (literalValues values) ++ "]"
  | .orderedMap entries => "\x7b" ++ String.intercalate "," (entryValues entries) ++ "\x7d"
  | .scalar source => source

def literalValues : List Literal → List String
  | [] => []
  | value :: values => literalValue value :: literalValues values

def entryValue : NamedLiteral → String
  | .mk name literal => name ++ ":" ++ literalValue literal

def entryValues : List NamedLiteral → List String
  | [] => []
  | entry :: entries => entryValue entry :: entryValues entries

end

def relevantOptions (source : List ProtoOption) : Options :=
  (source.filter fun option => isRelevantOption option.name).foldl
    (fun options option =>
      upsert option.name (literalValue option.constant)
        (fun _ => literalValue option.constant) options) []

def optionOf : Element → Option ProtoOption
  | .option option => some option
  | _ => none

def optionsFromElements (elements : List Element) : Options :=
  relevantOptions (elements.filterMap optionOf)

def cardinality (optional required repeated : Bool) : ProtoFieldCardinality :=
  if repeated then .repeated
  else if required then .required
  else if optional then .optional
  else .singular

structure KnownTypes where
  enums : List String := []
  messages : List String := []

def KnownTypes.append (first second : KnownTypes) : KnownTypes where
  enums := first.enums ++ second.enums
  messages := first.messages ++ second.messages

mutual

def elementTypeNames (scope : String) : Element → KnownTypes
  | .enumeration name _ _ => { enums := [qualifiedName scope name] }
  | .message name _ _ elements =>
    KnownTypes.append { messages := [qualifiedName scope name] }
      (collectTypeNames (qualifiedName scope name) elements)
  | .group name _ _ _ _ _ elements =>
    KnownTypes.append { messages := [qualifiedName scope name] }
      (collectTypeNames (qualifiedName scope name) elements)
  | _ => {}

def collectTypeNames (scope : String) : List Element → KnownTypes
  | [] => {}
  | element :: elements =>
    KnownTypes.append (elementTypeNames scope element) (collectTypeNames scope elements)

end

/-- The names that are looked up from a scope outward. -/
def resolvesFrom (typeName : String) (names : List String) (fuel : ℕ) (scope : List Char) : Bool :=
  match fuel with
  | 0 => false
  | fuel + 1 =>
    names.contains (qualifiedName (String.ofList scope) typeName) ||
      match rsplitOnce '.' scope with
      | some (parent, _) => resolvesFrom typeName names fuel parent
      | none => names.contains typeName

/-- Each turn of the loop shortens the scope, so its length is enough fuel. -/
def resolvesType (typeName messageScope : String) (names : List String) : Bool :=
  match stripPrefix ['.'] typeName.toList with
  | some absolute => names.contains (String.ofList absolute)
  | none => resolvesFrom typeName names (messageScope.toList.length + 1) messageScope.toList

def scalarWireType (typeName : String) : Option ProtoWireType :=
  if typeName ∈ ["double", "fixed64", "sfixed64"] then some .fixed64
  else if typeName ∈ ["float", "fixed32", "sfixed32"] then some .fixed32
  else if typeName ∈ ["int32", "int64", "uint32", "uint64", "sint32", "sint64", "bool"] then
    some .varint
  else if typeName ∈ ["string", "bytes"] then some .lengthDelimited
  else none

def wireType (typeName messageScope : String) (known : KnownTypes) : ProtoWireType :=
  match scalarWireType (trimDots typeName) with
  | some scalar => scalar
  | none =>
    if resolvesType (trimDots typeName) messageScope known.enums then .varint
    else if resolvesType (trimDots typeName) messageScope known.messages then .lengthDelimited
    else .unknown

def validateFieldNumber (sourcePath field : String) (number : ℤ) (line : ℕ) :
    Except ProtobufExtractionError Unit :=
  if number ≤ 0 ∨ maxFieldNumber < number ∨
      (firstReservedImplementationField ≤ number ∧ number ≤ lastReservedImplementationField) then
    .error (.invalidFieldNumber sourcePath field number (sourceLine line))
  else .ok ()

def fieldFromCommon (sourcePath : String) (field : FieldCommon)
    (cardinality : ProtoFieldCardinality) (oneof mapKeyType : Option String)
    (messageScope : String) (known : KnownTypes) : Except ProtobufExtractionError ProtoField := do
  validateFieldNumber sourcePath field.name field.sequence field.line
  pure {
    name := field.name
    number := field.sequence
    typeName :=
      match mapKeyType with
      | some keyType => "map<" ++ keyType ++ ", " ++ field.typeName ++ ">"
      | none => field.typeName
    wireType :=
      if mapKeyType.isSome then .lengthDelimited else wireType field.typeName messageScope known
    cardinality
    oneof
    mapKeyType
    mapValueType := mapKeyType.map fun _ => field.typeName
    options := relevantOptions field.options
    line := sourceLine field.line }

/-- The first field in order whose name or number an earlier one has. -/
def validateUniqueFields (message : String) (names : List String) (numbers : List ℤ) :
    List ProtoField → Except ProtobufExtractionError Unit
  | [] => .ok ()
  | field :: fields =>
    if field.name ∈ names then .error (.duplicateField message "name" field.name field.line)
    else if field.number ∈ numbers then
      .error (.duplicateField message "number" (toString field.number) field.line)
    else validateUniqueFields message (field.name :: names) (field.number :: numbers) fields

def enumValueOf : Element → Option ProtoEnumValue
  | .enumField name integer line elements =>
    some ⟨name, integer, optionsFromElements elements, sourceLine line⟩
  | _ => none

def reservedRangesOf : Element → List String
  | .reserved ranges _ => ranges
  | _ => []

def reservedNamesOf : Element → List String
  | .reserved _ names => names
  | _ => []

def sortedStrings (values : List String) : List String := sortDedup id values

def enumValueOrder (value : ProtoEnumValue) : ℤ ×ₗ String := toLex (value.number, value.name)

def extractEnum (name : String) (line : ℕ) (elements : List Element) (parentScope : String) :
    ProtoEnum where
  name
  fullName := qualifiedName parentScope name
  values := keepFirst enumValueOrder (elements.filterMap enumValueOf)
  reservedNumbers := sortedStrings (elements.flatMap reservedRangesOf)
  reservedNames := sortedStrings (elements.flatMap reservedNamesOf)
  options := optionsFromElements elements
  line := sourceLine line

structure Parts where
  fields : List ProtoField := []
  messages : List ProtoMessage := []
  enums : List ProtoEnum := []
  reservedNumbers : List String := []
  reservedNames : List String := []

def Parts.append (first second : Parts) : Parts where
  fields := first.fields ++ second.fields
  messages := first.messages ++ second.messages
  enums := first.enums ++ second.enums
  reservedNumbers := first.reservedNumbers ++ second.reservedNumbers
  reservedNames := first.reservedNames ++ second.reservedNames

def fieldOrder (field : ProtoField) : ℤ ×ₗ String := toLex (field.number, field.name)

/-- The checks and sorts after the loop. -/
def finishMessage (name : String) (isExtension : Bool) (line : ℕ) (elements : List Element)
    (parentScope : String) (parts : Parts) : Except ProtobufExtractionError ProtoMessage := do
  let fields := sortBy fieldOrder parts.fields
  validateUniqueFields (qualifiedName parentScope name) [] [] fields
  pure (.mk name (qualifiedName parentScope name) fields
    (keepFirst ProtoMessage.fullName parts.messages) (keepFirst ProtoEnum.fullName parts.enums)
    (sortedStrings parts.reservedNumbers) (sortedStrings parts.reservedNames)
    (optionsFromElements elements) isExtension (sourceLine line))

theorem finishMessage_eq_ok {name : String} {isExtension : Bool} {line : ℕ} {elements : List Element}
    {parentScope : String} {parts : Parts} {message : ProtoMessage}
    (finished : finishMessage name isExtension line elements parentScope parts = .ok message) :
    message.fullName = qualifiedName parentScope name ∧
      message.fields = sortBy fieldOrder parts.fields ∧
      message.messages = keepFirst ProtoMessage.fullName parts.messages ∧
      message.enums = keepFirst ProtoEnum.fullName parts.enums := by
  unfold finishMessage at finished
  simp only [bind_eq_ok, pure_eq_ok] at finished
  obtain ⟨_, -, rfl⟩ := finished
  exact ⟨rfl, rfl, rfl, rfl⟩

section Elements

variable (sourcePath : String) (known : KnownTypes)

/-- Of the contents of a `oneof` only its fields are read. -/
def oneofFields (oneof messageScope : String) :
    List Element → Except ProtobufExtractionError (List ProtoField)
  | [] => .ok []
  | .oneofField field :: elements => do
    let first ← fieldFromCommon sourcePath field .singular (some oneof) none messageScope known
    let rest ← oneofFields oneof messageScope elements
    pure (first :: rest)
  | _ :: elements => oneofFields oneof messageScope elements

mutual

def extractElement (scope : String) : Element → Except ProtobufExtractionError Parts
  | .normalField field optional required repeated => do
    let field ← fieldFromCommon sourcePath field (cardinality optional required repeated) none none
      scope known
    pure { fields := [field] }
  | .mapField field keyType => do
    let field ← fieldFromCommon sourcePath field .repeated none (some keyType) scope known
    pure { fields := [field] }
  | .oneof name elements => do
    let fields ← oneofFields sourcePath known name scope elements
    pure { fields }
  | .message name isExtend line elements => do
    let parts ← extractElements (qualifiedName scope name) elements
    let message ← finishMessage name isExtend line elements scope parts
    pure { messages := [message] }
  | .group name sequence optional required repeated line elements => do
    validateFieldNumber sourcePath name sequence line
    let parts ← extractElements (qualifiedName scope name) elements
    let message ← finishMessage name false line elements scope parts
    pure {
      fields := [{
        name
        number := sequence
        typeName := name
        wireType := .startGroup
        cardinality := cardinality optional required repeated
        oneof := none
        mapKeyType := none
        mapValueType := none
        options := []
        line := sourceLine line }]
      messages := [message] }
  | .enumeration name line elements => .ok { enums := [extractEnum name line elements scope] }
  | .reserved ranges names => .ok { reservedNumbers := ranges, reservedNames := names }
  | _ => .ok {}

def extractElements (scope : String) : List Element → Except ProtobufExtractionError Parts
  | [] => .ok {}
  | element :: elements => do
    let first ← extractElement scope element
    let rest ← extractElements scope elements
    pure (first.append rest)

end

end Elements

def methodOf : Element → Option ProtoRpcMethod
  | .rpc name requestType returnsType streamsRequest streamsReturns line elements =>
    some ⟨name, requestType, returnsType, streamsRequest, streamsReturns,
      optionsFromElements elements, sourceLine line⟩
  | _ => none

def methodOrder (method : ProtoRpcMethod) : String ×ₗ String ×ₗ String :=
  toLex (method.name, toLex (method.requestType, method.responseType))

def extractService (name : String) (line : ℕ) (elements : List Element) (package : String) :
    ProtoService where
  name
  fullName := qualifiedName package name
  methods := dedupBy (fun a b => a == b) (sortBy methodOrder (elements.filterMap methodOf))
  options := optionsFromElements elements
  line := sourceLine line

def versionOf : Element → Option (ℕ × Except String ProtoSyntax)
  | .version true value line => some (line, .ok (.edition value))
  | .version false value line =>
    some (line, if value = "proto2" then .ok .proto2
      else if value = "proto3" then .ok .proto3
      else .error ("unsupported syntax \x60" ++ value ++ "\x60"))
  | _ => none

/-- `extract_syntax`. -/
def extractVersion (sourcePath : String) (elements : List Element) :
    Except ProtobufExtractionError (ProtoSyntax × Option ℕ) :=
  match elements.filterMap versionOf with
  | [] => .ok (.proto2, none)
  | [(line, .ok version)] => .ok (version, some (sourceLine line))
  | [(line, .error message)] => .error (.invalidDeclaration sourcePath (sourceLine line) message)
  | _ :: (line, _) :: _ => .error (.invalidDeclaration sourcePath (sourceLine line)
      "multiple syntax or edition declarations")

def packageOf : Element → Option (String × ℕ)
  | .package name line => some (name, line)
  | _ => none

def extractPackage (sourcePath : String) (elements : List Element) :
    Except ProtobufExtractionError (Option String × Option ℕ) :=
  match elements.filterMap packageOf with
  | [] => .ok (none, none)
  | [(name, line)] => .ok (some name, some (sourceLine line))
  | _ :: (_, line) :: _ =>
    .error (.invalidDeclaration sourcePath (sourceLine line) "multiple package declarations")

def importOf : Element → Option (String × ImportKind × ℕ)
  | .importFile filename kind line => some (filename, kind, line)
  | _ => none

/-- The declarations of a file: the loop of `extract_protobuf_with_tracker` reads no others. -/
structure FileParts where
  messages : List ProtoMessage := []
  enums : List ProtoEnum := []
  services : List ProtoService := []

def extractDeclarations (sourcePath : String) (known : KnownTypes) (package : String) :
    List Element → Except ProtobufExtractionError FileParts
  | [] => .ok {}
  | .message name isExtend line elements :: rest => do
    let parts ← extractElements sourcePath known (qualifiedName package name) elements
    let message ← finishMessage name isExtend line elements package parts
    let more ← extractDeclarations sourcePath known package rest
    pure { more with messages := message :: more.messages }
  | .enumeration name line elements :: rest => do
    let more ← extractDeclarations sourcePath known package rest
    pure { more with enums := extractEnum name line elements package :: more.enums }
  | .service name line elements :: rest => do
    let more ← extractDeclarations sourcePath known package rest
    pure { more with services := extractService name line elements package :: more.services }
  | _ :: rest => extractDeclarations sourcePath known package rest

def extractProtobuf (sourcePath : String) (elements : List Element) :
    Except ProtobufExtractionError ProtoFile := do
  let version ← extractVersion sourcePath elements
  let package ← extractPackage sourcePath elements
  let scope := package.1.getD ""
  let known := collectTypeNames scope elements
  let imports := elements.filterMap importOf
  let parts ← extractDeclarations sourcePath known scope elements
  pure {
    sourcePath
    version := version.1
    versionLine := version.2
    package := package.1
    packageLine := package.2
    imports := sortedStrings (imports.map fun entry => entry.1)
    publicImports :=
      sortedStrings ((imports.filter fun entry => entry.2.1 = .public_).map fun entry => entry.1)
    weakImports :=
      sortedStrings ((imports.filter fun entry => entry.2.1 = .weak).map fun entry => entry.1)
    importLines := imports.foldl (fun lines entry =>
      upsert entry.1 (sourceLine entry.2.2) id lines) []
    options := optionsFromElements elements
    messages := keepFirst ProtoMessage.fullName parts.messages
    enums := keepFirst ProtoEnum.fullName parts.enums
    services := keepFirst ProtoService.fullName parts.services }

end CodeSystemGraph.Protobuf
