import CodeSystemGraph.ContractSchemas
import CodeSystemGraph.KeepFirst

/-! Graph facts of event documents. Artifacts come first, then what contracts declare,
then the calls in source files, and of the facts with one identifier the first is kept.
The hash behind the identifiers is the parameter `stableId`. -/

namespace CodeSystemGraph.Events
open Ieee Model Contracts Ordered

inductive SourceLanguage
  | javaScript | typeScript | rust | python | go | java
deriving DecidableEq

/-- An observation with the fields that the graph reads; `schemaName` is the name inside
its schema. -/
structure SourcedObservation extends EventObservation where
  eventType : Option String
  schemaName : Option String
  deadLetterChannel : Option String
  language : Option SourceLanguage
  confidence : F32
  incomplete : Bool
deriving DecidableEq

structure EventInput where
  repoId : RepoId
  sourcePath : String
  contentHash : String
  observations : List SourcedObservation
deriving DecidableEq

structure EventGraphFacts where
  nodes : List Node
  edges : List Edge
  evidence : List Evidence
deriving DecidableEq

def EventGraphFacts.add (facts more : EventGraphFacts) : EventGraphFacts where
  nodes := facts.nodes ++ more.nodes
  edges := facts.edges ++ more.edges
  evidence := facts.evidence ++ more.evidence

structure EventEndpoint where
  repoId : RepoId
  sourcePath : String
  observation : SourcedObservation
  evidence : Evidence
deriving DecidableEq

def edgeKindDebug : EdgeKind → String
  | .contains => "Contains"
  | .provides => "Provides"
  | .consumes => "Consumes"
  | .callsRemote => "CallsRemote"
  | .publishes => "Publishes"
  | .subscribes => "Subscribes"
  | .deliversTo => "DeliversTo"
  | .dependsOnPackage => "DependsOnPackage"
  | .dependsOnRepository => "DependsOnRepository"
  | .readsTable => "ReadsTable"
  | .writesTable => "WritesTable"
  | .deploys => "Deploys"
  | .configures => "Configures"
  | .documents => "Documents"
  | .ownedBy => "OwnedBy"
  | .implementedBy => "ImplementedBy"
  | .validates => "Validates"
  | .changedIn => "ChangedIn"
  | .affects => "Affects"
  | .precedes => "Precedes"
  | .reverts => "Reverts"
  | .compatibleWith => "CompatibleWith"
  | .incompatibleWith => "IncompatibleWith"
  | .memberOf => "MemberOf"
  | .manualLink => "ManualLink"

section Graph

variable (stableId : String → String → String)

section Facts

def sourceNode (endpoint : EventEndpoint) : Node :=
  let channel := endpoint.observation.channel.getD "dynamic"
  let stableKey := "event-source:" ++ endpoint.repoId ++ ":" ++ endpoint.sourcePath ++ ":" ++
    endpoint.observation.role.debug ++ ":" ++ channel ++ ":" ++ endpoint.observation.broker.debug
  { id := stableId "node" stableKey
    kind := .symbolRef
    repoId := some endpoint.repoId
    stableKey
    label := endpoint.sourcePath ++ " " ++ channel }

def channelNode (observation : SourcedObservation) : Node :=
  let channel := observation.channel.getD "dynamic"
  let stableKey := "event:" ++ observation.broker.debug ++ ":" ++ observation.namespaceName.getD "" ++
    ":" ++ channel
  { id := stableId "node" stableKey, kind := .eventChannel, repoId := none, stableKey
    label := channel }

def artifactNode (repoId : RepoId) (sourcePath : String) : Node :=
  let stableKey := "event-artifact:" ++ repoId ++ ":" ++ sourcePath
  { id := stableId "node" stableKey, kind := .artifact, repoId := some repoId, stableKey
    label := sourcePath }

def repositoryNode (repoId : RepoId) : Node :=
  let stableKey := "repository:" ++ repoId
  { id := stableId "node" stableKey, kind := .repository, repoId := some repoId, stableKey
    label := repoId }

def eventEvidence (repoId : RepoId) (sourcePath contentHash : String)
    (observation : Option SourcedObservation) (note : String) : Evidence :=
  let line : UInt32 :=
    match observation.bind (·.evidence.head?) with
    | some evidence => UInt32.ofNat evidence.line
    | none => 1
  let key := repoId ++ ":" ++ sourcePath ++ ":" ++ toString line ++ ":" ++ note ++ ":" ++ contentHash
  { id := stableId "evidence" key
    repoId := some repoId
    filePath := some sourcePath
    startLine := some line
    endLine := some line
    extractor := "code-system-graph.events"
    extractorVersion := "1.0.0"
    provenance := .extracted
    confidence := (observation.map (·.confidence)).getD (.ofNat 1)
    observedAtCommit := none
    contentHash := some contentHash
    note := some note }

def edge (source target : NodeId) (kind : EdgeKind) (evidence : List EvidenceId) : Edge where
  id := stableId "edge" (source ++ ":" ++ edgeKindDebug kind ++ ":" ++ target)
  source := source
  target := target
  kind := kind
  confidence := .ofNat 1
  status := .confirmed
  evidence := evidence

end Facts

section Collect

/-- The repository and the artifact of a document. -/
def artifactFacts (input : EventInput) : EventGraphFacts :=
  let repository := repositoryNode stableId input.repoId
  let artifact := artifactNode stableId input.repoId input.sourcePath
  let evidence := eventEvidence stableId input.repoId input.sourcePath input.contentHash none
    "event artifact"
  { nodes := [repository, artifact]
    edges := [edge stableId repository.id artifact.id .contains [evidence.id]]
    evidence := [evidence] }

def SourcedObservation.Complete (observation : SourcedObservation) : Prop :=
  observation.channel.isSome ∧ observation.incomplete = false

instance (observation : SourcedObservation) : Decidable observation.Complete :=
  inferInstanceAs (Decidable (_ ∧ _))

def SourcedObservation.isDeclaration (observation : SourcedObservation) : Bool :=
  observation.language.isNone || observation.role = .declaration

def endpointOf (input : EventInput) (observation : SourcedObservation) : EventEndpoint where
  repoId := input.repoId
  sourcePath := input.sourcePath
  observation := observation
  evidence := eventEvidence stableId input.repoId input.sourcePath input.contentHash
    (some observation) "event boundary"

structure Collected where
  result : EventGraphFacts
  declarations : List EventEndpoint
  endpoints : List EventEndpoint

def collectObservation (input : EventInput) (state : Collected) (observation : SourcedObservation) :
    Collected :=
  if ¬observation.Complete then state
  else if observation.isDeclaration then
    { state with declarations := state.declarations ++ [endpointOf stableId input observation] }
  else { state with endpoints := state.endpoints ++ [endpointOf stableId input observation] }

def collectDocument (state : Collected) (input : EventInput) : Collected :=
  input.observations.foldl (collectObservation stableId input)
    { state with result := state.result.add (artifactFacts stableId input) }

end Collect

section Append

def schemaFacts (declaration : EventEndpoint) (channel : Node) : EventGraphFacts :=
  match declaration.observation.schema with
  | none => ⟨[], [], []⟩
  | some schema =>
    match declaration.observation.schemaName.or declaration.observation.eventType with
    | none => ⟨[], [], []⟩
    | some name =>
      let stableKey := "event-schema:" ++ declaration.observation.broker.debug ++ ":" ++ name ++ ":" ++
        schema.version.getD ""
      let node : Node :=
        { id := stableId "node" stableKey, kind := .eventSchema, repoId := some declaration.repoId
          stableKey, label := name }
      { nodes := [node]
        edges := [edge stableId channel.id node.id .contains [declaration.evidence.id]]
        evidence := [] }

def deadLetterFacts (declaration : EventEndpoint) (channel : Node) : EventGraphFacts :=
  match declaration.observation.deadLetterChannel with
  | none => ⟨[], [], []⟩
  | some deadLetter =>
    let target := channelNode stableId { declaration.observation with channel := some deadLetter }
    { nodes := [target]
      edges := [edge stableId channel.id target.id .callsRemote [declaration.evidence.id]]
      evidence := [] }

def declaredKind : EventRole → EdgeKind
  | .publisher => .publishes
  | .subscriber => .subscribes
  | .declaration => .contains

def declarationFacts (declaration : EventEndpoint) : EventGraphFacts :=
  let channel := channelNode stableId declaration.observation
  let artifact := artifactNode stableId declaration.repoId declaration.sourcePath
  let link := edge stableId artifact.id channel.id (declaredKind declaration.observation.role)
    [declaration.evidence.id]
  (((⟨[], [link], []⟩ : EventGraphFacts).add (schemaFacts stableId declaration channel)).add
    (deadLetterFacts stableId declaration channel)).add ⟨[channel], [], [declaration.evidence]⟩

def appendDeclarations (declarations : List EventEndpoint) (result : EventGraphFacts) :
    EventGraphFacts :=
  declarations.foldl (fun result declaration => result.add (declarationFacts stableId declaration))
    result

def isCandidate (endpoint declaration : EventEndpoint) : Bool :=
  declaration.observation.channel = endpoint.observation.channel ∧
    (endpoint.observation.broker = .generic ∨
      declaration.observation.broker = endpoint.observation.broker) ∧
    (endpoint.observation.namespaceName = none ∨
      declaration.observation.namespaceName = endpoint.observation.namespaceName)

def resolveChannel (declarations : List EventEndpoint) (endpoint : EventEndpoint) :
    Option EventEndpoint :=
  if endpoint.observation.channel.isNone then none
  else
    let candidates := declarations.filter (isCandidate endpoint)
    match candidates.head? with
    | none => none
    | some first =>
      if candidates.all fun candidate =>
          (channelNode stableId candidate.observation).id = (channelNode stableId first.observation).id
      then some first
      else none

/-- The channel a call is linked to: the declared one, or its own. -/
def endpointChannel (declarations : List EventEndpoint) (endpoint : EventEndpoint) : Node :=
  match resolveChannel stableId declarations endpoint with
  | none => channelNode stableId endpoint.observation
  | some declaration => channelNode stableId declaration.observation

def endpointFacts (declarations : List EventEndpoint) (endpoint : EventEndpoint) : EventGraphFacts :=
  let channel := endpointChannel stableId declarations endpoint
  let source := sourceNode stableId endpoint
  { nodes := [source, channel]
    edges :=
      match endpoint.observation.role with
      | .publisher => [edge stableId source.id channel.id .publishes [endpoint.evidence.id]]
      | .subscriber =>
        [edge stableId source.id channel.id .subscribes [endpoint.evidence.id],
          edge stableId channel.id source.id .deliversTo [endpoint.evidence.id]]
      | .declaration => []
    evidence := [endpoint.evidence] }

def appendEndpoints (declarations endpoints : List EventEndpoint) (result : EventGraphFacts) :
    EventGraphFacts :=
  endpoints.foldl
    (fun result endpoint => result.add (endpointFacts stableId declarations endpoint)) result

def finish (result : EventGraphFacts) : EventGraphFacts where
  nodes := keepFirst (·.id) result.nodes
  edges := keepFirst (·.id) result.edges
  evidence := keepFirst (·.id) result.evidence

def eventDocumentsToGraph (inputs : List EventInput) : EventGraphFacts :=
  let state := inputs.foldl (collectDocument stableId) ⟨⟨[], [], []⟩, [], []⟩
  let result := appendDeclarations stableId state.declarations state.result
  finish (appendEndpoints stableId state.declarations state.endpoints result)

end Append

section Rounds

def declarationsOf (input : EventInput) : List EventEndpoint :=
  (input.observations.filter fun observation => observation.Complete ∧ observation.isDeclaration).map
    (endpointOf stableId input)

def callsOf (input : EventInput) : List EventEndpoint :=
  (input.observations.filter fun observation =>
    observation.Complete ∧ observation.isDeclaration = false).map (endpointOf stableId input)

def declarations (inputs : List EventInput) : List EventEndpoint :=
  inputs.flatMap (declarationsOf stableId)

variable {β : Type} (part : EventGraphFacts → List β)

/-- What one document adds in each of the three loops. -/
def rounds (declarations : List EventEndpoint) : List (EventInput → List β) :=
  [fun input => part (artifactFacts stableId input),
    fun input => (declarationsOf stableId input).flatMap fun declaration =>
      part (declarationFacts stableId declaration),
    fun input => (callsOf stableId input).flatMap fun endpoint =>
      part (endpointFacts stableId declarations endpoint)]

variable {stableId part}

theorem foldl_collectObservation (input : EventInput) (observations : List SourcedObservation)
    (state : Collected) :
    observations.foldl (collectObservation stableId input) state =
      { result := state.result
        declarations := state.declarations ++
          (observations.filter fun observation =>
            observation.Complete ∧ observation.isDeclaration).map (endpointOf stableId input)
        endpoints := state.endpoints ++
          (observations.filter fun observation =>
            observation.Complete ∧ observation.isDeclaration = false).map
              (endpointOf stableId input) } := by
  induction observations generalizing state with
  | nil => simp
  | cons observation observations ih =>
    rw [List.foldl_cons, ih, collectObservation]
    by_cases complete : observation.Complete
    · cases declared : observation.isDeclaration <;> simp [complete, declared]
    · simp [complete]

theorem foldl_collectDocument (inputs : List EventInput) (state : Collected) :
    inputs.foldl (collectDocument stableId) state =
      { result := inputs.foldl (fun result input => result.add (artifactFacts stableId input))
          state.result
        declarations := state.declarations ++ declarations stableId inputs
        endpoints := state.endpoints ++ inputs.flatMap (callsOf stableId) } := by
  induction inputs generalizing state with
  | nil => simp [declarations]
  | cons input inputs ih =>
    rw [List.foldl_cons, ih, collectDocument, foldl_collectObservation]
    simp [declarations, declarationsOf, callsOf]

theorem part_foldl_add {α : Type} (additive : ∀ facts more, part (facts.add more) = part facts ++ part more)
    (facts : α → EventGraphFacts) (l : List α) (result : EventGraphFacts) :
    part (l.foldl (fun result a => result.add (facts a)) result) =
      part result ++ l.flatMap fun a => part (facts a) := by
  induction l generalizing result with
  | nil => simp
  | cons a l ih => rw [List.foldl_cons, ih, additive, List.flatMap_cons, List.append_assoc]

theorem eventDocumentsToGraph_eq (inputs : List EventInput) :
    ∃ result, eventDocumentsToGraph stableId inputs = finish result ∧
      ∀ {β : Type} (part : EventGraphFacts → List β), part ⟨[], [], []⟩ = [] →
        (∀ facts more, part (facts.add more) = part facts ++ part more) →
        part result = collected (rounds stableId part (declarations stableId inputs)) inputs := by
  refine ⟨_, rfl, fun part empty additive => ?_⟩
  simp only [foldl_collectDocument, List.nil_append, appendEndpoints, appendDeclarations,
    part_foldl_add additive, empty]
  simp [collected, rounds, declarations, List.flatMap_assoc]

end Rounds
end Graph
end CodeSystemGraph.Events
