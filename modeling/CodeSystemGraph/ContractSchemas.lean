import CodeSystemGraph.ContractReport
import CodeSystemGraph.Model

/-! Comparison of GraphQL schemas, event contracts and protobuf files. One side is
indexed by names or numbers and the other is walked entry by entry. A document
carries the encoding of the fields that only its fingerprint reads. -/

namespace CodeSystemGraph.Contracts
open Model Ordered

section Graphql

inductive GraphqlTypeKind
  | scalar | object | interface | inputObject | enumeration | union
deriving DecidableEq

inductive GraphqlLiteralKind
  | null | boolean | integer | float | string | enumeration | list | object | variable
deriving DecidableEq

inductive GraphqlTypeRef
  | named (name : String) (nonNull : Bool)
  | list (element : GraphqlTypeRef) (nonNull : Bool)
deriving DecidableEq

def GraphqlTypeRef.asGraphql : GraphqlTypeRef → String
  | .named name nonNull => name ++ if nonNull then "!" else ""
  | .list element nonNull => "[" ++ element.asGraphql ++ "]" ++ if nonNull then "!" else ""

structure GraphqlArgumentDefinition where
  name : String
  typeRef : GraphqlTypeRef
  defaultValueKind : Option GraphqlLiteralKind
  startLine : Nat
deriving DecidableEq

structure GraphqlFieldDefinition where
  coordinate : String
  name : String
  arguments : List GraphqlArgumentDefinition
  typeRef : GraphqlTypeRef
  startLine : Nat
deriving DecidableEq

structure GraphqlTypeDefinition where
  kind : GraphqlTypeKind
  name : String
  fields : List GraphqlFieldDefinition
  enumValues : List String
  startLine : Nat
deriving DecidableEq

structure GraphqlPersistedOperation where
  id : String
  startLine : Nat
deriving DecidableEq

structure GraphqlDocument where
  sourcePath : String
  types : List GraphqlTypeDefinition
  persistedOperations : List GraphqlPersistedOperation
  complete : Bool
  unread : Bytes
deriving DecidableEq

def graphqlBreaking (code path : String) (line : Nat) (factor : String) : CompatibilityFinding :=
  finding code path .breaking [factor] ["line:" ++ toString line]
    ["run affected GraphQL consumer operations against the candidate schema"]

def typeNarrowed (before after : GraphqlTypeRef) : Bool :=
  if before = after then false
  else
    match before, after with
    | .named beforeName beforeNonNull, .named afterName afterNonNull =>
      beforeName ≠ afterName || (!beforeNonNull && afterNonNull)
    | .list beforeElement beforeNonNull, .list afterElement afterNonNull =>
      (!beforeNonNull && afterNonNull) || typeNarrowed beforeElement afterElement
    | _, _ => true

def typeIsNonNull : GraphqlTypeRef → Bool
  | .named _ nonNull | .list _ nonNull => nonNull

def compareGraphqlField (before after : GraphqlFieldDefinition) : List CompatibilityFinding :=
  (if typeNarrowed before.typeRef after.typeRef then
    [graphqlBreaking "graphql.return_type_narrowed" before.coordinate after.startLine
      ("return type changed from " ++ before.typeRef.asGraphql ++ " to " ++
        after.typeRef.asGraphql)]
    else []) ++
  after.arguments.flatMap fun argument =>
    if argument.name ∉ before.arguments.map (·.name) ∧ typeIsNonNull argument.typeRef ∧
        argument.defaultValueKind.isNone then
      [graphqlBreaking "graphql.required_argument_added"
        (before.coordinate ++ "(" ++ argument.name ++ ")") argument.startLine
        "new argument is non-null and has no default"]
    else []

def compareGraphqlType (before after : GraphqlTypeDefinition) : List CompatibilityFinding :=
  (before.fields.flatMap fun previous =>
    match (inventory (·.name) after.fields).lookup previous.name with
    | none =>
      [graphqlBreaking "graphql.field_removed" previous.coordinate previous.startLine
        "field is absent from the candidate schema"]
    | some current => compareGraphqlField previous current) ++
  before.enumValues.flatMap fun value =>
    if value ∈ after.enumValues then []
    else
      [graphqlBreaking "graphql.enum_value_removed" (before.name ++ "." ++ value) before.startLine
        "enum value is absent from the candidate schema"]

def comparePersistedOperations (before after : GraphqlDocument) : List CompatibilityFinding :=
  before.persistedOperations.flatMap fun operation =>
    if operation.id ∈ after.persistedOperations.map (·.id) then []
    else
      [graphqlBreaking "graphql.persisted_operation_invalidated" operation.id operation.startLine
        "persisted operation identifier is absent from the candidate manifest"]

def graphqlFindings (fingerprint : GraphqlDocument → Option String) (before after : GraphqlDocument) :
    List CompatibilityFinding :=
  (fingerprints (fingerprint before) (fingerprint after) "graphql").2 ++
  (if !before.complete || !after.complete then
    [finding "graphql.extraction_incomplete" "graphql" .unknown
      ["one or both GraphQL documents are incomplete"] [before.sourcePath, after.sourcePath]
      ["resolve extraction warnings before compatibility analysis"]]
    else []) ++
  (before.types.flatMap fun previous =>
    match (inventory (·.name) after.types).lookup previous.name with
    | none =>
      [graphqlBreaking "graphql.type_removed" previous.name previous.startLine
        "type is absent from the candidate schema"]
    | some current => compareGraphqlType previous current) ++
  comparePersistedOperations before after

def compareGraphqlContracts (fingerprint : GraphqlDocument → Option String)
    (before after : GraphqlDocument) : CompatibilityReport :=
  finishReport (fingerprints (fingerprint before) (fingerprint after) "graphql").1
    (graphqlFindings fingerprint before after)

end Graphql

section Events

inductive EventBroker
  | kafka | rabbitMq | awsSns | awsSqs | nats | googlePubSub | generic
deriving DecidableEq

inductive EventRole
  | publisher | subscriber | declaration
deriving DecidableEq

/-- The derived `Debug` form. -/
def EventBroker.debug : EventBroker → String
  | .kafka => "Kafka"
  | .rabbitMq => "RabbitMq"
  | .awsSns => "AwsSns"
  | .awsSqs => "AwsSqs"
  | .nats => "Nats"
  | .googlePubSub => "GooglePubSub"
  | .generic => "Generic"

def EventRole.debug : EventRole → String
  | .publisher => "Publisher"
  | .subscriber => "Subscriber"
  | .declaration => "Declaration"

structure EventEvidenceLine where
  line : Nat
  text : String
deriving DecidableEq

structure EventSchemaField where
  name : String
  fieldType : Option String
  required : Bool
deriving DecidableEq

structure EventSchemaDefinition where
  version : Option String
  fields : List EventSchemaField
deriving DecidableEq

structure EventObservation where
  broker : EventBroker
  role : EventRole
  channel : Option String
  namespaceName : Option String
  schema : Option EventSchemaDefinition
  partitionKey : Option String
  routingKey : Option String
  evidence : List EventEvidenceLine
deriving DecidableEq

structure EventDocument where
  sourcePath : Option String
  observations : List EventObservation
  incomplete : Bool
  unread : Bytes
deriving DecidableEq

def eventEvidence (observation : EventObservation) : List String :=
  observation.evidence.map fun evidence => "line:" ++ toString evidence.line ++ ":" ++ evidence.text

def eventBreaking (code path : String) (observation : EventObservation) (factor : String) :
    CompatibilityFinding :=
  finding code path .breaking [factor] (eventEvidence observation)
    ["validate all event producers and consumers against the candidate schema"]

def eventKey (observation : EventObservation) : Option String :=
  observation.channel.map fun channel =>
    observation.broker.debug ++ ":" ++ observation.namespaceName.getD "" ++ ":" ++ channel ++ ":" ++
      observation.role.debug

def compareEventFields (before after : EventSchemaDefinition) (candidate : EventObservation)
    (path : String) : List CompatibilityFinding :=
  let beforeFields := inventory (·.name) before.fields
  let afterFields := inventory (·.name) after.fields
  (beforeFields.flatMap fun (name, previous) =>
    match afterFields.lookup name with
    | none =>
      [eventBreaking "event.field_removed" (path ++ "." ++ name) candidate
        "payload field is absent from the candidate schema"]
    | some current =>
      if previous.fieldType ≠ current.fieldType then
        [eventBreaking "event.field_type_changed" (path ++ "." ++ name) candidate
          "payload field type changed"]
      else []) ++
  afterFields.flatMap fun (name, current) =>
    if current.required ∧ (beforeFields.lookup name).isNone then
      [eventBreaking "event.required_field_added" (path ++ "." ++ name) candidate
        "new payload field is required"]
    else []

def compareEventObservation (before after : EventObservation) (path : String) :
    List CompatibilityFinding :=
  (if before.routingKey ≠ after.routingKey ∨ before.partitionKey ≠ after.partitionKey then
    [eventBreaking "event.routing_key_changed" path after
      "routing or partition key declaration changed"]
    else []) ++
  match before.schema, after.schema with
  | some beforeSchema, some afterSchema =>
    (if beforeSchema.version ≠ afterSchema.version ∧ beforeSchema.version.isSome ∧
        afterSchema.version.isSome then
      [eventBreaking "event.schema_version_changed" path after "explicit schema version changed"]
      else []) ++
    compareEventFields beforeSchema afterSchema after path
  | beforeSchema, afterSchema =>
    if beforeSchema.isSome ≠ afterSchema.isSome then
      [finding "event.schema_coverage_changed" path .unknown
        ["payload schema is absent from one side of the comparison"] (eventEvidence after)
        ["validate producer and consumer payloads at runtime"]]
    else []

def keyedObservations (document : EventDocument) : List (String × EventObservation) :=
  document.observations.filterMap fun observation =>
    (eventKey observation).map fun key => (key, observation)

def eventFindings (fingerprint : EventDocument → Option String) (before after : EventDocument) :
    List CompatibilityFinding :=
  (fingerprints (fingerprint before) (fingerprint after) "event").2 ++
  (if before.incomplete || after.incomplete then
    [finding "event.extraction_incomplete" "event" .unknown
      ["one or both event documents are incomplete"]
      [before.sourcePath.getD "", after.sourcePath.getD ""]
      ["resolve event extraction warnings before compatibility analysis"]]
    else []) ++
  (keyedObservations before).flatMap fun (key, previous) =>
    match (inventory Prod.fst (keyedObservations after)).lookup key with
    | none =>
      [eventBreaking "event.channel_removed" key previous
        "channel role is absent from the candidate contract"]
    | some (_, candidate) => compareEventObservation previous candidate key

def compareEventContracts (fingerprint : EventDocument → Option String)
    (before after : EventDocument) : CompatibilityReport :=
  finishReport (fingerprints (fingerprint before) (fingerprint after) "event").1
    (eventFindings fingerprint before after)

end Events

section Protobuf

inductive ProtoFieldCardinality
  | singular | optional | required | repeated
deriving DecidableEq

inductive ProtoWireType
  | varint | fixed64 | lengthDelimited | startGroup | fixed32 | unknown
deriving DecidableEq

structure ProtoField where
  name : String
  number : Int
  typeName : String
  wireType : ProtoWireType
  cardinality : ProtoFieldCardinality
  line : Nat
deriving DecidableEq

structure ProtoEnumValue where
  name : String
  number : Int
  line : Nat
deriving DecidableEq

structure ProtoEnum where
  fullName : String
  values : List ProtoEnumValue
  line : Nat
deriving DecidableEq

inductive ProtoMessage
  | mk (fullName : String) (fields : List ProtoField) (messages : List ProtoMessage)
    (enums : List ProtoEnum) (line : Nat)

namespace ProtoMessage

def fullName : ProtoMessage → String
  | .mk fullName _ _ _ _ => fullName

def fields : ProtoMessage → List ProtoField
  | .mk _ fields _ _ _ => fields

def enums : ProtoMessage → List ProtoEnum
  | .mk _ _ _ enums _ => enums

def line : ProtoMessage → Nat
  | .mk _ _ _ _ line => line

end ProtoMessage

structure ProtoRpcMethod where
  name : String
  requestType : String
  responseType : String
  clientStreaming : Bool
  serverStreaming : Bool
  line : Nat
deriving DecidableEq

structure ProtoService where
  fullName : String
  methods : List ProtoRpcMethod
  line : Nat
deriving DecidableEq

structure ProtoFile where
  package : Option String
  packageLine : Option Nat
  messages : List ProtoMessage
  enums : List ProtoEnum
  services : List ProtoService
  unread : Bytes

def protoBreaking (code path : String) (line : Nat) (factor : String) : CompatibilityFinding :=
  finding code path .breaking [factor] ["line:" ++ toString line]
    ["regenerate clients and run protobuf wire-compatibility tests before release"]

mutual

/-- A message and the messages inside it, in the order of the recursive insertion. -/
def ProtoMessage.nested : ProtoMessage → List ProtoMessage
  | .mk fullName fields messages enums line =>
    .mk fullName fields messages enums line :: nestedMessages messages

def nestedMessages : List ProtoMessage → List ProtoMessage
  | [] => []
  | message :: rest => message.nested ++ nestedMessages rest

end

def flattenMessages (messages : List ProtoMessage) : List (String × ProtoMessage) :=
  inventory ProtoMessage.fullName (nestedMessages messages)

def flattenEnums (messages : List ProtoMessage) (enums : List ProtoEnum) :
    List (String × ProtoEnum) :=
  inventory (·.fullName) (enums ++ (nestedMessages messages).flatMap ProtoMessage.enums)

def compareProtoField (name : String) (fields : List ProtoField) (field : ProtoField) :
    List CompatibilityFinding :=
  match (inventory (·.number) fields).lookup field.number with
  | none =>
    [protoBreaking "protobuf.field_removed" (name ++ "." ++ field.name) field.line
      "field number is absent from the candidate message"]
  | some numberMatch =>
    (if numberMatch.name ≠ field.name then
      [protoBreaking "protobuf.field_number_reused" (name ++ "." ++ toString field.number)
        numberMatch.line "field number is assigned to a different name"]
      else []) ++
    (if numberMatch.wireType ≠ field.wireType ∨ numberMatch.typeName ≠ field.typeName ∨
        numberMatch.cardinality ≠ field.cardinality then
      [protoBreaking "protobuf.field_wire_incompatible" (name ++ "." ++ toString field.number)
        numberMatch.line "field type, wire encoding, or cardinality changed"]
      else []) ++
    match (inventory (·.name) fields).lookup field.name with
    | some nameMatch =>
      if nameMatch.number ≠ field.number then
        [protoBreaking "protobuf.field_number_changed" (name ++ "." ++ field.name) nameMatch.line
          "field name moved to a different number"]
      else []
    | none => []

def compareProtoMessage (name : String) (previous candidate : ProtoMessage) :
    List CompatibilityFinding :=
  previous.fields.flatMap (compareProtoField name candidate.fields) ++
  candidate.fields.flatMap fun field =>
    if field.cardinality = .required ∧ field.name ∉ previous.fields.map (·.name) then
      [protoBreaking "protobuf.required_field_added" (name ++ "." ++ field.name) field.line
        "required proto2 field was added"]
    else []

def compareProtoMessages (before after : ProtoFile) : List CompatibilityFinding :=
  (flattenMessages before.messages).flatMap fun (name, previous) =>
    match (flattenMessages after.messages).lookup name with
    | none =>
      [protoBreaking "protobuf.message_removed" name previous.line
        "message is absent from the candidate schema"]
    | some candidate => compareProtoMessage name previous candidate

def compareProtoEnums (before after : ProtoFile) : List CompatibilityFinding :=
  (flattenEnums before.messages before.enums).flatMap fun (name, previous) =>
    match (flattenEnums after.messages after.enums).lookup name with
    | none =>
      [protoBreaking "protobuf.enum_removed" name previous.line
        "enum is absent from the candidate schema"]
    | some candidate =>
      previous.values.flatMap fun value =>
        if ((inventory (·.number) candidate.values).lookup value.number).map (·.name) ≠
            some value.name then
          [protoBreaking "protobuf.enum_numeric_changed" (name ++ "." ++ value.name) value.line
            "enum numeric value was removed or reassigned"]
        else []

def compareProtoMethod (service : ProtoService) (methods : List ProtoRpcMethod)
    (method : ProtoRpcMethod) : List CompatibilityFinding :=
  let path := service.fullName ++ "/" ++ method.name
  match (inventory (·.name) methods).lookup method.name with
  | none =>
    [protoBreaking "protobuf.method_removed" path method.line
      "RPC method is absent from the candidate service"]
  | some current =>
    if method.requestType ≠ current.requestType ∨ method.responseType ≠ current.responseType ∨
        method.clientStreaming ≠ current.clientStreaming ∨
        method.serverStreaming ≠ current.serverStreaming then
      [protoBreaking "protobuf.method_signature_changed" path current.line
        "RPC request, response, or streaming mode changed"]
    else []

def compareProtoServices (before after : ProtoFile) : List CompatibilityFinding :=
  before.services.flatMap fun service =>
    match (inventory (·.fullName) after.services).lookup service.fullName with
    | none =>
      [protoBreaking "protobuf.service_removed" service.fullName service.line
        "service is absent from the candidate schema"]
    | some candidate => service.methods.flatMap (compareProtoMethod service candidate.methods)

def protobufFindings (fingerprint : ProtoFile → Option String) (before after : ProtoFile) :
    List CompatibilityFinding :=
  (fingerprints (fingerprint before) (fingerprint after) "protobuf").2 ++
  (if before.package ≠ after.package then
    [protoBreaking "protobuf.package_renamed" (before.package.getD "<root>")
      (before.packageLine.getD 1) "protobuf package changed"]
    else []) ++
  compareProtoMessages before after ++ compareProtoEnums before after ++
  compareProtoServices before after

def compareProtobufContracts (fingerprint : ProtoFile → Option String) (before after : ProtoFile) :
    CompatibilityReport :=
  finishReport (fingerprints (fingerprint before) (fingerprint after) "protobuf").1
    (protobufFindings fingerprint before after)

end Protobuf

end CodeSystemGraph.Contracts
