import CodeSystemGraph.EventEvidence

/-! When the event graph does not depend on the order of the documents: the documents agree on what
their first declarations, or their first calls, say of a thing. -/

namespace CodeSystemGraph.Events
open Ieee Model Contracts Ordered

section Statement

/-- A namespace and a digest, as the hashes of repositories and contents are written. -/
def Identifier (text : String) : Prop :=
  ∃ name digest : String, ':' ∉ name.toList ∧ ':' ∉ digest.toList ∧ text = name ++ ":" ++ digest

structure Scanned (input : EventInput) : Prop where
  repository : Identifier input.repoId
  content : Identifier input.contentHash

def SameFile (a b : EventInput) : Prop := a.repoId = b.repoId ∧ a.sourcePath = b.sourcePath

inductive Thing
  | channel (text : String)
  | schema (text : String)
  | call (text : String)
deriving DecidableEq

structure Name where
  thing : Thing
  owner : Option RepoId
  label : String
deriving DecidableEq

/-- What a declaration relates: its file to the channel, the channel to its schema or to the channel
of its dead letters. -/
inductive Relation
  | declares (file : String) (role : EventRole) (channel : String)
  | schema (channel text : String)
  | deadLetter (channel target : String)
deriving DecidableEq

namespace SourcedObservation

def channelText (observation : SourcedObservation) : String :=
  observation.broker.debug ++ ":" ++ observation.namespaceName.getD "" ++ ":" ++
    observation.channel.getD "dynamic"

def channelNamed (observation : SourcedObservation) : Name :=
  ⟨.channel observation.channelText, none, observation.channel.getD "dynamic"⟩

def deadLetter (observation : SourcedObservation) : Option SourcedObservation :=
  observation.deadLetterChannel.map fun channel => { observation with channel := some channel }

/-- The text and the name of the schema. -/
def schemaNamed (observation : SourcedObservation) : Option (String × String) :=
  observation.schema.bind fun schema =>
    (observation.schemaName.or observation.eventType).map fun name =>
      (observation.broker.debug ++ ":" ++ name ++ ":" ++ schema.version.getD "", name)

def line (observation : SourcedObservation) : UInt32 :=
  match observation.evidence.head? with
  | some evidence => UInt32.ofNat evidence.line
  | none => 1

end SourcedObservation

namespace EventInput

def declared (input : EventInput) : List SourcedObservation :=
  input.observations.filter fun observation => observation.Complete ∧ observation.isDeclaration

def called (input : EventInput) : List SourcedObservation :=
  input.observations.filter fun observation =>
    observation.Complete ∧ observation.isDeclaration = false

def declaredNames (input : EventInput) : List Name :=
  input.declared.flatMap fun observation =>
    (observation.schemaNamed.toList.map fun schema =>
      (⟨.schema schema.1, some input.repoId, schema.2⟩ : Name)) ++
    (observation.deadLetter.toList ++ [observation]).map (·.channelNamed)

def callNamed (input : EventInput) (observation : SourcedObservation) : Name where
  thing := .call (input.repoId ++ ":" ++ input.sourcePath ++ ":" ++ observation.role.debug ++ ":" ++
    observation.channel.getD "dynamic" ++ ":" ++ observation.broker.debug)
  owner := some input.repoId
  label := input.sourcePath ++ " " ++ observation.channel.getD "dynamic"

def relations (input : EventInput) (observation : SourcedObservation) : List Relation :=
  .declares (input.repoId ++ ":" ++ input.sourcePath) observation.role observation.channelText ::
    ((observation.schemaNamed.toList.map fun schema =>
        Relation.schema observation.channelText schema.1) ++
      observation.deadLetter.toList.map fun target =>
        Relation.deadLetter observation.channelText target.channelText)

end EventInput

variable (stableId : String → String → String)

/-- The channel that a call is linked to. -/
def linked (inputs : List EventInput) (input : EventInput) (observation : SourcedObservation) :
    SourcedObservation :=
  ((resolveChannel stableId (declarations stableId inputs) (endpointOf stableId input observation)).map
    (·.observation)).getD observation

def calledNames (inputs : List EventInput) (input : EventInput) : List Name :=
  input.called.flatMap fun observation =>
    [input.callNamed observation, (linked stableId inputs input observation).channelNamed]

/-- The first names that documents declare of one thing are the same, and so are those in the calls of
what no document declares. -/
structure NamesAgree (inputs : List EventInput) : Prop where
  declared : ∀ thing, ∀ a ∈ inputs, ∀ b ∈ inputs,
    ∀ x ∈ a.declaredNames.find? fun name => name.thing = thing,
    ∀ y ∈ b.declaredNames.find? fun name => name.thing = thing, x = y
  called : ∀ thing, (∀ c ∈ inputs, ∀ name ∈ c.declaredNames, name.thing ≠ thing) →
    ∀ a ∈ inputs, ∀ b ∈ inputs,
    ∀ x ∈ (calledNames stableId inputs a).find? fun name => name.thing = thing,
    ∀ y ∈ (calledNames stableId inputs b).find? fun name => name.thing = thing, x = y

/-- Documents of one file have one content, and the first declarations that relate the same things
stand on one line of one file. -/
structure LinksAgree (inputs : List EventInput) : Prop where
  contents : ∀ a ∈ inputs, ∀ b ∈ inputs, SameFile a b → a.contentHash = b.contentHash
  relations : ∀ relation, ∀ a ∈ inputs, ∀ b ∈ inputs,
    ∀ x ∈ a.declared.find? fun declaration => relation ∈ a.relations declaration,
    ∀ y ∈ b.declared.find? fun declaration => relation ∈ b.relations declaration,
      SameFile a b ∧ x.line = y.line

/-- Documents of one file give a line one confidence where they first declare something on it, or
where they first call something if none declares anything there. -/
structure LinesAgree (inputs : List EventInput) : Prop where
  declared : ∀ line, ∀ a ∈ inputs, ∀ b ∈ inputs, SameFile a b →
    ∀ x ∈ a.declared.find? fun declaration => declaration.line = line,
    ∀ y ∈ b.declared.find? fun declaration => declaration.line = line, x.confidence = y.confidence
  called : ∀ line, ∀ a ∈ inputs, ∀ b ∈ inputs, SameFile a b →
    (∀ c ∈ inputs, SameFile c a → ∀ declaration ∈ c.declared, declaration.line ≠ line) →
    ∀ x ∈ a.called.find? fun call => call.line = line,
    ∀ y ∈ b.called.find? fun call => call.line = line, x.confidence = y.confidence

structure DocumentsAgree (inputs : List EventInput) : Prop where
  names : NamesAgree stableId inputs
  links : LinksAgree inputs
  lines : LinesAgree inputs

end Statement

section Texts

theorem append_colon_inj_right {a a' b b' : String} (free : ':' ∉ b.toList) (free' : ':' ∉ b'.toList)
    (same : a ++ ":" ++ b = a' ++ ":" ++ b') : a = a' ∧ b = b' := by
  have lists := congrArg (fun text => text.toList.reverse) same
  simp only [String.toList_append, List.reverse_append, List.append_assoc] at lists
  have parts := Text.append_cons_inj (by rwa [List.mem_reverse]) (by rwa [List.mem_reverse]) lists
  exact ⟨String.toList_inj.mp (List.reverse_injective parts.2),
    String.toList_inj.mp (List.reverse_injective parts.1)⟩

theorem Identifier.append_inj {one other a b : String} (first : Identifier one)
    (second : Identifier other) (same : one ++ ":" ++ a = other ++ ":" ++ b) :
    one = other ∧ a = b := by
  obtain ⟨name, digest, free, digestFree, rfl⟩ := first
  obtain ⟨name', digest', free', digestFree', rfl⟩ := second
  simp only [String.append_assoc] at same
  obtain ⟨rfl, rest⟩ := append_colon_inj free free' same
  obtain ⟨rfl, rfl⟩ := append_colon_inj digestFree digestFree' rest
  exact ⟨rfl, rfl⟩

theorem Identifier.inj_append {one other a b : String} (first : Identifier one)
    (second : Identifier other) (same : a ++ ":" ++ one = b ++ ":" ++ other) :
    a = b ∧ one = other := by
  obtain ⟨name, digest, free, digestFree, rfl⟩ := first
  obtain ⟨name', digest', free', digestFree', rfl⟩ := second
  simp only [← String.append_assoc] at same
  obtain ⟨names, rfl⟩ := append_colon_inj_right digestFree digestFree' same
  obtain ⟨rfl, rfl⟩ := append_colon_inj_right free free' names
  exact ⟨rfl, rfl⟩

theorem colon_line (line : UInt32) : ':' ∉ (toString line).toList :=
  Text.notMem_repr (n := line.toNat) (by decide)

theorem line_inj {line line' : UInt32} (same : toString line = toString line') : line = line' :=
  UInt32.toNat_inj.mp (Text.repr_inj (congrArg String.toList same))

variable {stableId : String → String → String} {a b : EventInput}

theorem artifact_id_iff (ids : StableIds stableId) (scanned : Scanned a) (scanned' : Scanned b) :
    (artifactNode stableId a.repoId a.sourcePath).id =
      (artifactNode stableId b.repoId b.sourcePath).id ↔ SameFile a b := by
  constructor
  · intro same
    have texts := ids.injective _ same
    simp only [String.append_assoc, String.append_right_inj] at texts
    refine scanned.repository.append_inj scanned'.repository ?_
    simpa only [String.append_assoc] using texts
  · rintro ⟨repo, path⟩
    rw [repo, path]

def lineOf (observation : Option SourcedObservation) : UInt32 := observation.elim 1 (·.line)

theorem eventEvidence_eq (input : EventInput) (observation : Option SourcedObservation)
    (note : String) :
    eventEvidence stableId input.repoId input.sourcePath input.contentHash observation note =
      { id := stableId "evidence" (input.repoId ++ ":" ++ input.sourcePath ++ ":" ++
          toString (lineOf observation) ++ ":" ++ note ++ ":" ++ input.contentHash)
        repoId := some input.repoId
        filePath := some input.sourcePath
        startLine := some (lineOf observation)
        endLine := some (lineOf observation)
        extractor := "code-system-graph.events"
        extractorVersion := "1.0.0"
        provenance := .extracted
        confidence := (observation.map (·.confidence)).getD (.ofNat 1)
        observedAtCommit := none
        contentHash := some input.contentHash
        note := some note } := by
  cases observation <;> rfl

theorem evidence_id_iff (ids : StableIds stableId) (scanned : Scanned a) (scanned' : Scanned b)
    {x y : Option SourcedObservation} {note note' : String} (free : ':' ∉ note.toList)
    (free' : ':' ∉ note'.toList) :
    (eventEvidence stableId a.repoId a.sourcePath a.contentHash x note).id =
        (eventEvidence stableId b.repoId b.sourcePath b.contentHash y note').id ↔
      SameFile a b ∧ a.contentHash = b.contentHash ∧ lineOf x = lineOf y ∧ note = note' := by
  rw [eventEvidence_eq, eventEvidence_eq]
  constructor
  · intro same
    obtain ⟨noted, content⟩ := scanned.content.inj_append scanned'.content (ids.injective _ same)
    obtain ⟨lined, notes⟩ := append_colon_inj_right free free' noted
    obtain ⟨file, lines⟩ := append_colon_inj_right (colon_line _) (colon_line _) lined
    exact ⟨scanned.repository.append_inj scanned'.repository file, content, line_inj lines, notes⟩
  · rintro ⟨⟨repo, path⟩, content, lines, notes⟩
    rw [repo, path, content, lines, notes]

end Texts

section Firsts

variable {α β : Type} {id : β → String} {inputs : List EventInput}

theorem find?_congr_iff {p q : α → Prop} [DecidablePred p] [DecidablePred q] {l : List α}
    (same : ∀ a, p a ↔ q a) : (l.find? fun a => p a) = l.find? fun a => q a := by
  congr 1
  funext a
  exact decide_eq_decide.mpr (same a)

/-- Any two documents that report something report the same. -/
def Alike (inputs : List EventInput) (report : EventInput → Option β) : Prop :=
  ∀ a ∈ inputs, ∀ b ∈ inputs, ∀ x ∈ report a, ∀ y ∈ report b, x = y

theorem settled_three {k : String} {first second third : EventInput → List β} :
    Settled id inputs k [first, second, third] ↔
      Alike inputs (fun a => leading id k (first a)) ∧
      ((∀ a ∈ inputs, leading id k (first a) = none) →
        Alike inputs (fun a => leading id k (second a)) ∧
        ((∀ a ∈ inputs, leading id k (second a) = none) →
          Alike inputs (fun a => leading id k (third a)))) := by
  simp only [Settled, Alike, implies_true, and_true]

theorem leading_eq_none {k : String} {l : List β} : leading id k l = none ↔ ∀ b ∈ l, id b ≠ k := by
  simp [leading]

variable {items : EventInput → List α} {fact : EventInput → α → β} {k : String}
  {p : EventInput → α → Prop} [∀ a, DecidablePred (p a)]

theorem leading_map (named : ∀ a ∈ inputs, ∀ x, id (fact a x) = k ↔ p a x) {a : EventInput}
    (mem : a ∈ inputs) : leading id k ((items a).map (fact a)) =
      ((items a).find? fun x => p a x).map (fact a) := by
  rw [leading, List.find?_map, ← find?_congr_iff (named a mem)]
  rfl

theorem alike_map_iff (named : ∀ a ∈ inputs, ∀ x, id (fact a x) = k ↔ p a x) :
    Alike inputs (fun a => leading id k ((items a).map (fact a))) ↔
      ∀ a ∈ inputs, ∀ b ∈ inputs, ∀ x ∈ (items a).find? fun x => p a x,
        ∀ y ∈ (items b).find? fun y => p b y, fact a x = fact b y := by
  refine forall₂_congr fun a memA => forall₂_congr fun b memB => ?_
  simp only [leading_map named memA, leading_map named memB, Option.mem_def, Option.map_eq_some_iff,
    forall_exists_index, and_imp, forall_apply_eq_imp_iff₂]

theorem none_map_iff (named : ∀ a ∈ inputs, ∀ x, id (fact a x) = k ↔ p a x) :
    (∀ a ∈ inputs, leading id k ((items a).map (fact a)) = none) ↔
      ∀ a ∈ inputs, ∀ x ∈ items a, ¬p a x := by
  refine forall₂_congr fun a mem => ?_
  rw [leading_map named mem, Option.map_eq_none_iff, List.find?_eq_none]
  simp only [decide_eq_true_eq]

end Firsts

section Facts

variable {stableId : String → String → String} {inputs : List EventInput} {a b : EventInput}

theorem append_ne_append {kind kind' text text' : String}
    (apart : ¬kind.toList <+: kind'.toList ∧ ¬kind'.toList <+: kind.toList) :
    kind ++ text ≠ kind' ++ text' := by
  intro same
  have lists := congrArg String.toList same
  rw [String.toList_append, String.toList_append] at lists
  have first := List.prefix_append kind.toList text.toList
  rw [lists] at first
  rcases List.prefix_or_prefix_of_prefix first (List.prefix_append _ _) with before | after
  · exact apart.1 before
  · exact apart.2 after

def Thing.key : Thing → String
  | .channel text => "event:" ++ text
  | .schema text => "event-schema:" ++ text
  | .call text => "event-source:" ++ text

def Thing.kind : Thing → NodeKind
  | .channel _ => .eventChannel
  | .schema _ => .eventSchema
  | .call _ => .symbolRef

theorem Thing.key_injective : Function.Injective Thing.key := by
  intro thing other same
  cases thing <;> cases other <;>
    first
      | exact congrArg _ ((String.append_right_inj _).mp same)
      | exact absurd same (append_ne_append (by decide))

def Name.node (stableId : String → String → String) (name : Name) : Node where
  id := stableId "node" name.thing.key
  kind := name.thing.kind
  repoId := name.owner
  stableKey := name.thing.key
  label := name.label

theorem Name.node_eq_iff {x y : Name} : x.node stableId = y.node stableId ↔ x = y := by
  refine ⟨fun same => ?_, congrArg _⟩
  have thing := Thing.key_injective (congrArg Node.stableKey same)
  cases x
  cases y
  rw [Name.mk.injEq]
  exact ⟨thing, congrArg Node.repoId same, congrArg Node.label same⟩

/-- The keys of the ends of a relation, and its kind. -/
def Relation.ends : Relation → String × String × EdgeKind
  | .declares file role channel =>
    ("event-artifact:" ++ file, "event:" ++ channel, declaredKind role)
  | .schema channel text => ("event:" ++ channel, "event-schema:" ++ text, .contains)
  | .deadLetter channel target => ("event:" ++ channel, "event:" ++ target, .callsRemote)

theorem Relation.ends_injective : Function.Injective Relation.ends := by
  intro relation other same
  obtain ⟨source, rest⟩ := Prod.mk.inj same
  obtain ⟨target, kind⟩ := Prod.mk.inj rest
  cases relation <;> cases other
  case declares.declares =>
    rw [(String.append_right_inj _).mp source, (String.append_right_inj _).mp target,
      declaredKind_injective kind]
  case schema.schema | deadLetter.deadLetter =>
    rw [(String.append_right_inj _).mp source, (String.append_right_inj _).mp target]
  case schema.deadLetter | deadLetter.schema => cases kind
  all_goals exact absurd source (append_ne_append (by decide))

def Relation.edge (stableId : String → String → String) (relation : Relation)
    (evidence : EvidenceId) : Edge :=
  Events.edge stableId (stableId "node" relation.ends.1) (stableId "node" relation.ends.2.1)
    relation.ends.2.2 [evidence]

theorem edge_id_iff (ids : StableIds stableId) {x y x' y' : String} {kind kind' : EdgeKind}
    {evidence evidence' : List EvidenceId} :
    (edge stableId (stableId "node" x) (stableId "node" y) kind evidence).id =
        (edge stableId (stableId "node" x') (stableId "node" y') kind' evidence').id ↔
      (x, y, kind) = (x', y', kind') := by
  constructor
  · intro same
    obtain ⟨source, target, rfl⟩ := edge_id_inj ids same
    rw [ids.injective _ source, ids.injective _ target]
  · intro same
    obtain ⟨rfl, rest⟩ := Prod.mk.inj same
    obtain ⟨rfl, rfl⟩ := Prod.mk.inj rest
    rfl

theorem Relation.edge_id_iff (ids : StableIds stableId) {relation other : Relation}
    {evidence evidence' : EvidenceId} :
    (relation.edge stableId evidence).id = (other.edge stableId evidence').id ↔ relation = other :=
  (Events.edge_id_iff ids).trans Relation.ends_injective.eq_iff

variable (stableId) in
def boundaryEvidence (input : EventInput) (observation : SourcedObservation) : Evidence :=
  eventEvidence stableId input.repoId input.sourcePath input.contentHash (some observation)
    "event boundary"

theorem boundaryEvidence_id_iff (ids : StableIds stableId) (scanned : Scanned a)
    (scanned' : Scanned b) {x y : SourcedObservation} :
    (boundaryEvidence stableId a x).id = (boundaryEvidence stableId b y).id ↔
      SameFile a b ∧ a.contentHash = b.contentHash ∧ x.line = y.line := by
  rw [boundaryEvidence, boundaryEvidence, evidence_id_iff ids scanned scanned' (by decide) (by decide),
    and_iff_left rfl]
  rfl

theorem channelNode_eq_node (observation : SourcedObservation) :
    channelNode stableId observation = observation.channelNamed.node stableId := by
  simp only [channelNode, SourcedObservation.channelNamed, SourcedObservation.channelText, Name.node,
    Thing.key, Thing.kind, String.append_assoc]

theorem sourceNode_eq_node (input : EventInput) (observation : SourcedObservation) :
    sourceNode stableId (endpointOf stableId input observation) =
      (input.callNamed observation).node stableId := by
  simp only [sourceNode, endpointOf, EventInput.callNamed, Name.node, Thing.key, Thing.kind,
    String.append_assoc]

theorem endpointChannel_linked (input : EventInput) (observation : SourcedObservation) :
    endpointChannel stableId (declarations stableId inputs) (endpointOf stableId input observation) =
      channelNode stableId (linked stableId inputs input observation) := by
  rw [endpointChannel, linked]
  cases resolveChannel stableId (declarations stableId inputs)
    (endpointOf stableId input observation) <;> rfl

theorem declarationFacts_eq (input : EventInput) (observation : SourcedObservation) :
    declarationFacts stableId (endpointOf stableId input observation) =
      { nodes := ((observation.schemaNamed.toList.map fun schema =>
            (⟨.schema schema.1, some input.repoId, schema.2⟩ : Name)) ++
          (observation.deadLetter.toList ++ [observation]).map (·.channelNamed)).map
            (Name.node stableId)
        edges := (input.relations observation).map fun relation =>
          relation.edge stableId (boundaryEvidence stableId input observation).id
        evidence := [boundaryEvidence stableId input observation] } := by
  have artifact : (artifactNode stableId input.repoId input.sourcePath).id =
      stableId "node" ("event-artifact:" ++ (input.repoId ++ ":" ++ input.sourcePath)) := by
    simp only [artifactNode, String.append_assoc]
  have own : (endpointOf stableId input observation).observation = observation := rfl
  simp only [declarationFacts, schemaFacts, deadLetterFacts, SourcedObservation.schemaNamed,
    SourcedObservation.deadLetter, own, EventInput.relations, channelNode_eq_node]
  cases observation.schema <;> cases observation.schemaName.or observation.eventType <;>
    cases observation.deadLetterChannel <;>
    simp [EventGraphFacts.add, Relation.edge, Relation.ends, Name.node, Thing.key, Thing.kind,
      SourcedObservation.channelNamed, endpointOf, boundaryEvidence, artifactNode,
      String.append_assoc]

end Facts

section Settling

variable {stableId : String → String → String} {inputs : List EventInput}

theorem nodeRounds_eq : rounds stableId (·.nodes) (declarations stableId inputs) =
    [fun a => (artifactFacts stableId a).nodes,
      fun a => a.declaredNames.map (Name.node stableId),
      fun a => (calledNames stableId inputs a).map (Name.node stableId)] := by
  have declared : ∀ a : EventInput, ((declarationsOf stableId a).flatMap fun declaration =>
      (declarationFacts stableId declaration).nodes) = a.declaredNames.map (Name.node stableId) := by
    intro a
    rw [declarationsOf, EventInput.declaredNames, List.flatMap_map, List.map_flatMap]
    exact List.flatMap_congr fun observation _ => by rw [declarationFacts_eq]
  have called : ∀ a : EventInput, ((callsOf stableId a).flatMap fun endpoint =>
      (endpointFacts stableId (declarations stableId inputs) endpoint).nodes) =
        (calledNames stableId inputs a).map (Name.node stableId) := by
    intro a
    rw [callsOf, calledNames, List.flatMap_map, List.map_flatMap]
    refine List.flatMap_congr fun observation _ => ?_
    rw [List.map_cons, List.map_singleton, ← sourceNode_eq_node, ← channelNode_eq_node,
      ← endpointChannel_linked]
    rfl
  simp only [rounds, declared, called]

theorem edgeRounds_eq : rounds stableId (·.edges) (declarations stableId inputs) =
    [fun a => (artifactFacts stableId a).edges,
      fun a => a.declared.flatMap fun declaration => (a.relations declaration).map fun relation =>
        relation.edge stableId (boundaryEvidence stableId a declaration).id,
      fun a => (callsOf stableId a).flatMap fun endpoint =>
        (endpointFacts stableId (declarations stableId inputs) endpoint).edges] := by
  have declared : ∀ a : EventInput, ((declarationsOf stableId a).flatMap fun declaration =>
      (declarationFacts stableId declaration).edges) = a.declared.flatMap fun declaration =>
        (a.relations declaration).map fun relation =>
          relation.edge stableId (boundaryEvidence stableId a declaration).id := by
    intro a
    rw [declarationsOf, List.flatMap_map]
    exact List.flatMap_congr fun observation _ => by rw [declarationFacts_eq]
  simp only [rounds, declared]

theorem evidenceRounds_eq : rounds stableId (·.evidence) (declarations stableId inputs) =
    [fun a => (artifactFacts stableId a).evidence,
      fun a => a.declared.map (boundaryEvidence stableId a),
      fun a => a.called.map (boundaryEvidence stableId a)] := by
  have declared : ∀ a : EventInput, ((declarationsOf stableId a).flatMap fun declaration =>
      (declarationFacts stableId declaration).evidence) =
        a.declared.map (boundaryEvidence stableId a) := by
    intro a
    rw [declarationsOf, List.flatMap_map, List.map_eq_flatMap]
    exact List.flatMap_congr fun observation _ => by rw [declarationFacts_eq]
  have called : ∀ a : EventInput, ((callsOf stableId a).flatMap fun endpoint =>
      (endpointFacts stableId (declarations stableId inputs) endpoint).evidence) =
        a.called.map (boundaryEvidence stableId a) := by
    intro a
    rw [callsOf, List.flatMap_map, List.map_eq_flatMap]
    rfl
  simp only [rounds, declared, called]

theorem artifactNode_key (input : EventInput) :
    (artifactNode stableId input.repoId input.sourcePath).id =
      stableId "node" ("event-artifact:" ++ (input.repoId ++ ":" ++ input.sourcePath)) := by
  simp only [artifactNode, String.append_assoc]

theorem artifact_nodes_alike (ids : StableIds stableId) (scanned : ∀ a ∈ inputs, Scanned a)
    (id : NodeId) : Alike inputs fun a => leading (·.id) id (artifactFacts stableId a).nodes := by
  intro a memA b memB x foundX y foundY
  have same : x.id = y.id := (key_of_leading foundX).trans (key_of_leading foundY).symm
  have mem : ∀ {c : EventInput} {z : Node}, z ∈ leading (·.id) id (artifactFacts stableId c).nodes →
      z = repositoryNode stableId c.repoId ∨ z = artifactNode stableId c.repoId c.sourcePath := by
    intro c z found
    simpa [artifactFacts] using List.mem_of_find?_eq_some found
  rcases mem foundX with rfl | rfl <;> rcases mem foundY with rfl | rfl
  · rw [(String.append_right_inj _).mp (ids.injective _ same)]
  · rw [artifactNode_key] at same
    exact absurd (ids.injective _ same) (append_ne_append (by decide))
  · rw [artifactNode_key] at same
    exact absurd (ids.injective _ same) (append_ne_append (by decide))
  · obtain ⟨repo, path⟩ := (artifact_id_iff ids (scanned a memA) (scanned b memB)).mp same
    rw [repo, path]

theorem settled_nodes_iff (ids : StableIds stableId) (scanned : ∀ a ∈ inputs, Scanned a) :
    (∀ id, Settled (·.id) inputs id
      (rounds stableId (·.nodes) (declarations stableId inputs))) ↔ NamesAgree stableId inputs := by
  simp only [nodeRounds_eq, settled_three]
  have named : ∀ thing, ∀ a ∈ inputs, ∀ x : Name,
      (x.node stableId).id = stableId "node" thing.key ↔ x.thing = thing := fun thing a _ x =>
    (ids.injective "node").eq_iff.trans Thing.key_injective.eq_iff
  have artifacts : ∀ thing : Thing, ∀ a ∈ inputs,
      leading (·.id) (stableId "node" thing.key) (artifactFacts stableId a).nodes = none := by
    intro thing a _
    refine leading_eq_none.mpr fun node mem => ?_
    obtain rfl | rfl : node = repositoryNode stableId a.repoId ∨
        node = artifactNode stableId a.repoId a.sourcePath := by simpa [artifactFacts] using mem
    · cases thing <;> exact (ids.injective "node").ne (append_ne_append (by decide))
    · rw [artifactNode_key]
      cases thing <;> exact (ids.injective "node").ne (append_ne_append (by decide))
  constructor
  · intro settled
    have declared := fun thing : Thing => (settled (stableId "node" thing.key)).2 (artifacts thing)
    refine ⟨fun thing a memA b memB x foundX y foundY => ?_,
      fun thing undeclared a memA b memB x foundX y foundY => ?_⟩
    · exact Name.node_eq_iff.mp ((alike_map_iff (named thing)).mp (declared thing).1 a memA b memB x
        foundX y foundY)
    · have none := (none_map_iff (named thing)).mpr undeclared
      exact Name.node_eq_iff.mp ((alike_map_iff (named thing)).mp ((declared thing).2 none) a memA b
        memB x foundX y foundY)
  · intro agree id
    refine ⟨artifact_nodes_alike ids scanned id, fun _ => ⟨?_, fun undeclared => ?_⟩⟩
    · intro c memC d memD e foundX
      obtain ⟨z, -, rfl⟩ := List.mem_map.mp (List.mem_of_find?_eq_some foundX)
      have is : (z.node stableId).id = id := key_of_leading foundX
      subst is
      exact (alike_map_iff (named z.thing)).mpr (fun a memA b memB x foundX y foundY =>
        congrArg _ (agree.declared z.thing a memA b memB x foundX y foundY)) c memC d memD _ foundX
    · intro c memC d memD e foundX
      obtain ⟨z, -, rfl⟩ := List.mem_map.mp (List.mem_of_find?_eq_some foundX)
      have is : (z.node stableId).id = id := key_of_leading foundX
      subst is
      have none := (none_map_iff (named z.thing)).mp undeclared
      exact (alike_map_iff (named z.thing)).mpr (fun a memA b memB x foundX y foundY =>
        congrArg _ (agree.called z.thing none a memA b memB x foundX y foundY)) c memC d memD _ foundX

variable (stableId) in
def artifactEdge (input : EventInput) : Edge :=
  edge stableId (stableId "node" ("repository:" ++ input.repoId))
    (stableId "node" ("event-artifact:" ++ (input.repoId ++ ":" ++ input.sourcePath))) .contains
    [(eventEvidence stableId input.repoId input.sourcePath input.contentHash none "event artifact").id]

theorem artifactFacts_edges (input : EventInput) :
    (artifactFacts stableId input).edges = [artifactEdge stableId input] := by
  simp only [artifactFacts, artifactEdge, repositoryNode, artifactNode, String.append_assoc]

theorem artifactEdge_id_iff (ids : StableIds stableId) {a b : EventInput} (scanned : Scanned a)
    (scanned' : Scanned b) : (artifactEdge stableId a).id = (artifactEdge stableId b).id ↔
      SameFile a b := by
  rw [artifactEdge, artifactEdge, edge_id_iff ids]
  simp only [Prod.mk.injEq, String.append_right_inj, and_true]
  constructor
  · exact fun same => scanned.repository.append_inj scanned'.repository same.2
  · rintro ⟨repo, path⟩
    exact ⟨repo, by rw [repo, path]⟩

theorem artifactEdge_eq_iff (ids : StableIds stableId) {a b : EventInput} (scanned : Scanned a)
    (scanned' : Scanned b) (file : SameFile a b) :
    artifactEdge stableId a = artifactEdge stableId b ↔ a.contentHash = b.contentHash := by
  constructor
  · intro same
    have evidence := List.head_eq_of_cons_eq (congrArg Edge.evidence same)
    exact ((evidence_id_iff ids scanned scanned' (by decide) (by decide)).mp evidence).2.1
  · intro content
    rw [artifactEdge, artifactEdge, file.1, file.2, content]

theorem leading_artifactEdge (input : EventInput) :
    leading (·.id) (artifactEdge stableId input).id [artifactEdge stableId input] =
      some (artifactEdge stableId input) := by
  simp [leading]

theorem artifactEdge_ne_relation (ids : StableIds stableId) (input : EventInput) (relation : Relation)
    (evidence : EvidenceId) : (artifactEdge stableId input).id ≠ (relation.edge stableId evidence).id := by
  intro same
  have source := congrArg Prod.fst ((edge_id_iff ids).mp same)
  cases relation <;> exact absurd source (append_ne_append (by decide))

theorem called_edges_alike (ids : StableIds stableId) (shared : SharedEvidence stableId inputs)
    (id : EdgeId) : Alike inputs fun a => leading (·.id) id ((callsOf stableId a).flatMap fun endpoint =>
      (endpointFacts stableId (declarations stableId inputs) endpoint).edges) := by
  have form : ∀ {c : EventInput} {e : Edge}, c ∈ inputs → e ∈ ((callsOf stableId c).flatMap
      fun endpoint => (endpointFacts stableId (declarations stableId inputs) endpoint).edges) →
      ∃ endpoint ∈ boundaries stableId inputs,
        e = boundaryEdge stableId (declarations stableId inputs) endpoint ∨
        endpoint.observation.role = .subscriber ∧
          e = edge stableId (boundaryChannel stableId (declarations stableId inputs) endpoint).id
            (boundarySource stableId endpoint).id .deliversTo [endpoint.evidence.id] := by
    intro c e memC mem
    obtain ⟨endpoint, called, here⟩ := List.mem_flatMap.mp mem
    obtain ⟨observation, listed, complete, call, rfl⟩ := mem_callsOf called
    obtain ⟨plain, cases⟩ := (mem_endpointFacts_edges call).mp here
    refine ⟨_, mem_boundaries.mpr ⟨c, memC, observation, listed, complete, plain, rfl⟩, ?_⟩
    have own : (endpointOf stableId c observation).observation.isDeclaration = false := call
    simp only [boundaryChannel, boundarySource, own, Bool.false_eq_true, if_false]
    exact cases
  intro a memA b memB x foundX y foundY
  have same : x.id = y.id := (key_of_leading foundX).trans (key_of_leading foundY).symm
  obtain ⟨one, listed, formX⟩ := form memA (List.mem_of_find?_eq_some foundX)
  obtain ⟨other, listed', formY⟩ := form memB (List.mem_of_find?_eq_some foundY)
  obtain ⟨s, t, source, channel⟩ := boundaryEdge_nodes stableId (declarations stableId inputs) one
  obtain ⟨s', t', source', channel'⟩ :=
    boundaryEdge_nodes stableId (declarations stableId inputs) other
  have agree := shared one listed other listed'
  rw [source, channel, source', channel'] at agree
  have roles : ∀ role : EventRole, declaredKind role ≠ .deliversTo := by
    intro role
    cases role <;> decide
  rcases formX with rfl | ⟨subscribes, rfl⟩ <;> rcases formY with rfl | ⟨subscribes', rfl⟩ <;>
    simp only [boundaryEdge, source, channel, source', channel', edge_id_iff ids, Prod.mk.injEq]
      at same ⊢
  · obtain ⟨rfl, rfl, kinds⟩ := same
    rw [kinds, agree rfl rfl (declaredKind_injective kinds)]
  · exact absurd same.2.2 (roles _)
  · exact absurd same.2.2.symm (roles _)
  · obtain ⟨rfl, rfl, -⟩ := same
    rw [agree rfl rfl (subscribes.trans subscribes'.symm)]

/-- The edge of a relation is that of the first declaration which relates its ends. -/
theorem leading_relation (ids : StableIds stableId) (a : EventInput) (relation : Relation)
    (evidence : EvidenceId) :
    leading (·.id) (relation.edge stableId evidence).id (a.declared.flatMap fun declaration =>
        (a.relations declaration).map fun relation =>
          relation.edge stableId (boundaryEvidence stableId a declaration).id) =
      (a.declared.find? fun declaration => relation ∈ a.relations declaration).map fun declaration =>
        relation.edge stableId (boundaryEvidence stableId a declaration).id := by
  induction a.declared with
  | nil => rfl
  | cons declaration rest ih =>
    have first : leading (·.id) (relation.edge stableId evidence).id
        ((a.relations declaration).map fun relation =>
          relation.edge stableId (boundaryEvidence stableId a declaration).id) =
        if relation ∈ a.relations declaration then
          some (relation.edge stableId (boundaryEvidence stableId a declaration).id) else none := by
      rw [leading, List.find?_map]
      have same : (fun edge : Edge => decide (edge.id = (relation.edge stableId evidence).id)) ∘
          (fun relation => relation.edge stableId (boundaryEvidence stableId a declaration).id) =
            fun other : Relation => decide (other = relation) := by
        funext other
        exact decide_eq_decide.mpr (Relation.edge_id_iff ids)
      rw [same]
      split
      · next mem =>
        cases found : (a.relations declaration).find? fun other => other = relation with
        | none => exact absurd (decide_eq_true rfl) (List.find?_eq_none.mp found relation mem)
        | some other =>
          obtain rfl : other = relation := by simpa using List.find?_some found
          rfl
      · next absent =>
        rw [List.find?_eq_none.mpr, Option.map_none]
        rintro other mem here
        exact absent (of_decide_eq_true here ▸ mem)
    rw [leading] at first ih ⊢
    rw [List.flatMap_cons, List.find?_append, first, ih, List.find?_cons]
    by_cases mem : relation ∈ a.relations declaration <;> simp [mem]

theorem settled_edges_iff (ids : StableIds stableId) (scanned : ∀ a ∈ inputs, Scanned a)
    (shared : SharedEvidence stableId inputs) :
    (∀ id, Settled (·.id) inputs id
      (rounds stableId (·.edges) (declarations stableId inputs))) ↔ LinksAgree inputs := by
  simp only [edgeRounds_eq, settled_three, artifactFacts_edges]
  have cited : ∀ {a b : EventInput}, a ∈ inputs → b ∈ inputs → ∀ {x y : SourcedObservation},
      (boundaryEvidence stableId a x).id = (boundaryEvidence stableId b y).id ↔
        SameFile a b ∧ a.contentHash = b.contentHash ∧ x.line = y.line := fun memA memB =>
    boundaryEvidence_id_iff ids (scanned _ memA) (scanned _ memB)
  constructor
  · intro settled
    refine ⟨fun a memA b memB file => ?_, fun relation a memA b memB x foundX y foundY => ?_⟩
    · have id := (artifactEdge_id_iff ids (scanned b memB) (scanned a memA)).mpr
        ⟨file.1.symm, file.2.symm⟩
      have alike := (settled (artifactEdge stableId a).id).1 a memA b memB _ (leading_artifactEdge a)
      rw [← id] at alike
      exact (artifactEdge_eq_iff ids (scanned a memA) (scanned b memB) file).mp
        (alike _ (leading_artifactEdge b))
    · have same := ((settled (relation.edge stableId "").id).2 fun c _ =>
        leading_eq_none.mpr fun edge mem => List.mem_singleton.mp mem ▸
          artifactEdge_ne_relation ids c relation "").1 a memA b memB
      simp only [leading_relation ids] at same
      have edges := same _ (Option.mem_map_of_mem _ foundX) _ (Option.mem_map_of_mem _ foundY)
      obtain ⟨file, -, line⟩ :=
        (cited memA memB).mp (List.head_eq_of_cons_eq (congrArg Edge.evidence edges))
      exact ⟨file, line⟩
  · intro agree id
    refine ⟨?_, fun _ => ⟨?_, fun _ => called_edges_alike ids shared id⟩⟩
    · intro a memA b memB x foundX y foundY
      have same : x.id = y.id := (key_of_leading foundX).trans (key_of_leading foundY).symm
      obtain rfl := List.mem_singleton.mp (List.mem_of_find?_eq_some foundX)
      obtain rfl := List.mem_singleton.mp (List.mem_of_find?_eq_some foundY)
      have file := (artifactEdge_id_iff ids (scanned a memA) (scanned b memB)).mp same
      exact (artifactEdge_eq_iff ids (scanned a memA) (scanned b memB) file).mpr
        (agree.contents a memA b memB file)
    · intro a memA b memB e foundX e' foundY
      obtain ⟨z, -, here⟩ := List.mem_flatMap.mp (List.mem_of_find?_eq_some foundX)
      obtain ⟨relation, -, rfl⟩ := List.mem_map.mp here
      have is := key_of_leading foundX
      subst is
      simp only [leading_relation ids] at foundX foundY
      obtain ⟨x, isFirst, sameX⟩ := Option.map_eq_some_iff.mp foundX
      obtain ⟨y, isSecond, rfl⟩ := Option.map_eq_some_iff.mp foundY
      obtain ⟨file, line⟩ := agree.relations relation a memA b memB x isFirst y isSecond
      rw [← sameX, (cited memA memB).mpr ⟨file, agree.contents a memA b memB file, line⟩]

theorem boundaryEvidence_eq_iff {a b : EventInput} {x y : SourcedObservation} (file : SameFile a b)
    (content : a.contentHash = b.contentHash) (line : x.line = y.line) :
    boundaryEvidence stableId a x = boundaryEvidence stableId b y ↔ x.confidence = y.confidence := by
  have lines : lineOf (some x) = lineOf (some y) := line
  rw [boundaryEvidence, boundaryEvidence, eventEvidence_eq, eventEvidence_eq, file.1, file.2, content,
    lines]
  constructor
  · exact fun same => congrArg Evidence.confidence same
  · intro confidence
    rw [Option.map_some, Option.map_some, confidence]

instance (a b : EventInput) : Decidable (SameFile a b) := inferInstanceAs (Decidable (_ ∧ _))

theorem SameFile.join {a b c : EventInput} (one : SameFile a c) (other : SameFile b c) :
    SameFile a b :=
  ⟨one.1.trans other.1.symm, one.2.trans other.2.symm⟩

theorem settled_evidence_iff (ids : StableIds stableId) (scanned : ∀ a ∈ inputs, Scanned a)
    (contents : ∀ a ∈ inputs, ∀ b ∈ inputs, SameFile a b → a.contentHash = b.contentHash) :
    (∀ id, Settled (·.id) inputs id
      (rounds stableId (·.evidence) (declarations stableId inputs))) ↔ LinesAgree inputs := by
  simp only [evidenceRounds_eq, settled_three]
  have named : ∀ c ∈ inputs, ∀ z, ∀ a ∈ inputs, ∀ x, (boundaryEvidence stableId a x).id =
      (boundaryEvidence stableId c z).id ↔ SameFile a c ∧ x.line = z.line := by
    intro c memC z a memA x
    rw [boundaryEvidence_id_iff ids (scanned a memA) (scanned c memC)]
    exact ⟨fun same => ⟨same.1, same.2.2⟩, fun same =>
      ⟨same.1, contents a memA c memC same.1, same.2⟩⟩
  have equal : ∀ a ∈ inputs, ∀ b ∈ inputs, SameFile a b → ∀ x y : SourcedObservation,
      x.line = y.line →
      (boundaryEvidence stableId a x = boundaryEvidence stableId b y ↔ x.confidence = y.confidence) :=
    fun a memA b memB file x y line => boundaryEvidence_eq_iff file (contents a memA b memB file) line
  have here : ∀ {a c : EventInput} {z : SourcedObservation} (l : List SourcedObservation),
      SameFile a c → (l.find? fun x => SameFile a c ∧ x.line = z.line) =
        l.find? fun x => x.line = z.line := fun l file => find?_congr_iff fun _ => and_iff_right file
  have apart : ∀ c ∈ inputs, ∀ z, ∀ a ∈ inputs, leading (·.id) (boundaryEvidence stableId c z).id
      (artifactFacts stableId a).evidence = none := by
    intro c memC z a memA
    refine leading_eq_none.mpr fun e mem same => ?_
    rw [List.mem_singleton.mp mem] at same
    exact absurd ((evidence_id_iff ids (scanned a memA) (scanned c memC) (by decide)
      (by decide)).mp same).2.2.2 (by decide)
  constructor
  · intro settled
    have declared := fun c memC z => (settled (boundaryEvidence stableId c z).id).2 (apart c memC z)
    have alike : ∀ (listed : EventInput → List SourcedObservation) (line : UInt32), ∀ a ∈ inputs,
        ∀ b ∈ inputs, SameFile a b → ∀ x ∈ (listed a).find? (fun x => x.line = line),
        ∀ y ∈ (listed b).find? (fun y => y.line = line),
        Alike inputs (fun a' => leading (·.id) (boundaryEvidence stableId a x).id
          ((listed a').map (boundaryEvidence stableId a'))) → x.confidence = y.confidence := by
      intro listed line a memA b memB file x foundX y foundY alike
      have lineX : x.line = line := by simpa using List.find?_some foundX
      have lineY : y.line = line := by simpa using List.find?_some foundY
      subst lineX
      have first := here (c := a) (listed a) ⟨rfl, rfl⟩ |>.trans foundX
      have second := here (listed b) (SameFile.join ⟨rfl, rfl⟩ file) |>.trans foundY
      exact (equal a memA b memB file x y lineY.symm).mp
        ((alike_map_iff (named a memA x)).mp alike a memA b memB x first y second)
    refine ⟨fun line a memA b memB file x foundX y foundY => ?_,
      fun line a memA b memB file undeclared x foundX y foundY => ?_⟩
    · exact alike _ line a memA b memB file x foundX y foundY (declared a memA x).1
    · have lineX : x.line = line := by simpa using List.find?_some foundX
      refine alike _ line a memA b memB file x foundX y foundY ((declared a memA x).2 ?_)
      refine (none_map_iff (named a memA x)).mpr fun c memC declaration mem same => ?_
      exact undeclared c memC same.1 declaration mem (same.2.trans lineX)
  · intro agree id
    have alike : ∀ (listed : EventInput → List SourcedObservation), ∀ c ∈ inputs, ∀ z,
        (∀ a ∈ inputs, ∀ b ∈ inputs, SameFile a c → SameFile b c →
          ∀ x ∈ (listed a).find? fun x => x.line = z.line,
          ∀ y ∈ (listed b).find? fun y => y.line = z.line, x.confidence = y.confidence) →
        Alike inputs (fun a => leading (·.id) (boundaryEvidence stableId c z).id
          ((listed a).map (boundaryEvidence stableId a))) := by
      intro listed c memC z agree
      refine (alike_map_iff (named c memC z)).mpr fun a memA b memB x foundX y foundY => ?_
      have isX : SameFile a c ∧ x.line = z.line := by simpa using List.find?_some foundX
      have isY : SameFile b c ∧ y.line = z.line := by simpa using List.find?_some foundY
      rw [here _ isX.1] at foundX
      rw [here _ isY.1] at foundY
      exact (equal a memA b memB (isX.1.join isY.1) x y (isX.2.trans isY.2.symm)).mpr
        (agree a memA b memB isX.1 isY.1 x foundX y foundY)
    refine ⟨?_, fun _ => ⟨?_, fun undeclared => ?_⟩⟩
    · intro a memA b memB x foundX y foundY
      have same : x.id = y.id := (key_of_leading foundX).trans (key_of_leading foundY).symm
      obtain rfl := List.mem_singleton.mp (List.mem_of_find?_eq_some foundX)
      obtain rfl := List.mem_singleton.mp (List.mem_of_find?_eq_some foundY)
      obtain ⟨file, content, -⟩ :=
        (evidence_id_iff ids (scanned a memA) (scanned b memB) (by decide) (by decide)).mp same
      rw [file.1, file.2, content]
    · intro c memC d memD e foundX
      obtain ⟨z, -, rfl⟩ := List.mem_map.mp (List.mem_of_find?_eq_some foundX)
      have is := key_of_leading foundX
      subst is
      exact alike (·.declared) c memC z (fun a memA b memB fileA fileB =>
        agree.declared z.line a memA b memB (fileA.join fileB)) c memC d memD _ foundX
    · intro c memC d memD e foundX
      obtain ⟨z, -, rfl⟩ := List.mem_map.mp (List.mem_of_find?_eq_some foundX)
      have is := key_of_leading foundX
      subst is
      have none := (none_map_iff (named c memC z)).mp undeclared
      exact alike (·.called) c memC z (fun a memA b memB fileA fileB =>
        agree.called z.line a memA b memB (fileA.join fileB) fun e memE file declaration mem line =>
          none e memE declaration mem
            ⟨⟨file.1.trans fileA.1, file.2.trans fileA.2⟩, line⟩) c memC d memD _ foundX

end Settling

section Result

variable (stableId : String → String → String)

theorem eventDocumentsToGraph_keeps_iff (ids : StableIds stableId) (inputs : List EventInput)
    (scanned : ∀ input ∈ inputs, Scanned input) :
    (KeepsEvidence stableId inputs ∧ Closed (eventDocumentsToGraph stableId inputs) ∧
      OrderFree stableId inputs) ↔ SharedEvidence stableId inputs ∧ DocumentsAgree stableId inputs := by
  rw [keepsEvidence_iff ids, orderFree_iff ids]
  constructor
  · rintro ⟨shared, -, agreed⟩
    have links := (settled_edges_iff ids scanned shared).mp agreed.edges
    exact ⟨shared, (settled_nodes_iff ids scanned).mp agreed.nodes, links,
      (settled_evidence_iff ids scanned links.contents).mp agreed.evidence⟩
  · rintro ⟨shared, names, links, lines⟩
    exact ⟨shared, closed_graph, (settled_nodes_iff ids scanned).mpr names,
      (settled_edges_iff ids scanned shared).mpr links,
      (settled_evidence_iff ids scanned links.contents).mpr lines⟩

def pairDigest (key : List Char) : List Char :=
  key.flatMap fun c => if c = ':' then ['_', 'c'] else ['.', c]

def pairId (name key : String) : String := name ++ ":" ++ String.ofList (pairDigest key.toList)

theorem pairDigest_injective : Function.Injective pairDigest := by
  intro key key' same
  induction key generalizing key' with
  | nil =>
    cases key' with
    | nil => rfl
    | cons c key' => by_cases colon : c = ':' <;> simp [pairDigest, colon] at same
  | cons c key ih =>
    cases key' with
    | nil => by_cases colon : c = ':' <;> simp [pairDigest, colon] at same
    | cons c' key' =>
      have tails : pairDigest key = pairDigest key' → key = key' := fun same => ih same
      by_cases colon : c = ':' <;> by_cases colon' : c' = ':' <;> simp_all [pairDigest]

theorem stableIds_pairId : StableIds pairId := by
  refine ⟨fun name key key' same => ?_, fun name key => ⟨_, rfl, ?_⟩⟩
  · have digests := String.ofList_injective ((String.append_right_inj _).mp same)
    exact String.toList_inj.mp (pairDigest_injective digests)
  · rw [String.toList_ofList]
    intro mem
    obtain ⟨c, -, here⟩ := List.mem_flatMap.mp mem
    by_cases colon : c = ':'
    · simp [colon] at here
    · simp only [colon, if_false, List.mem_cons, List.not_mem_nil, or_false] at here
      rcases here with dot | same
      · exact absurd dot (by decide)
      · exact colon same.symm

/-- A call that publishes to or subscribes to a channel of RabbitMQ. -/
def rabbitCall (role : EventRole) (channel : String) (routingKey : Option String) (line : Nat) :
    SourcedObservation where
  broker := .rabbitMq
  role
  channel := some channel
  namespaceName := none
  schema := none
  partitionKey := none
  routingKey
  evidence := [⟨line, "rabbitmq literal call"⟩]
  eventType := none
  schemaName := none
  deadLetterChannel := none
  language := some .python
  confidence := .ofNat 1
  incomplete := false

def rabbitFile (repoId : RepoId) (observations : List SourcedObservation) : EventInput where
  repoId
  sourcePath := "src/main.py"
  contentHash := "artifact-content:1f"
  observations

def ordersFiles : List EventInput :=
  [rabbitFile "repo:1a" [rabbitCall .publisher "orders" (some "created") 3],
    rabbitFile "repo:2b" [rabbitCall .subscriber "orders" none 9]]

theorem ordersFiles_scanned : ∀ input ∈ ordersFiles, Scanned input := by
  have content : Identifier "artifact-content:1f" := ⟨"artifact-content", "1f", by decide, by decide, rfl⟩
  intro input mem
  obtain rfl | rfl : input = _ ∨ input = _ := by simpa [ordersFiles] using mem
  · exact ⟨⟨"repo", "1a", by decide, by decide, rfl⟩, content⟩
  · exact ⟨⟨"repo", "2b", by decide, by decide, rfl⟩, content⟩

theorem ordersFiles_agree : DocumentsAgree pairId ordersFiles := by
  have undeclared : ∀ a ∈ ordersFiles, a.declared = [] ∧ a.declaredNames = [] := by decide
  have apart : ∀ a ∈ ordersFiles, ∀ b ∈ ordersFiles, a.repoId = b.repoId → a = b := by decide
  have named : ∀ a ∈ ordersFiles, ∀ b ∈ ordersFiles, ∀ x ∈ calledNames pairId ordersFiles a,
      ∀ y ∈ calledNames pairId ordersFiles b, x.thing = y.thing → x = y := by decide +kernel
  refine ⟨⟨?_, ?_⟩, ⟨?_, ?_⟩, ⟨?_, ?_⟩⟩
  · intro thing a memA b memB x foundX
    rw [(undeclared a memA).2] at foundX
    cases foundX
  · intro thing _ a memA b memB x foundX y foundY
    have isX : x.thing = thing := by simpa using List.find?_some foundX
    have isY : y.thing = thing := by simpa using List.find?_some foundY
    exact named a memA b memB x (List.mem_of_find?_eq_some foundX) y
      (List.mem_of_find?_eq_some foundY) (isX.trans isY.symm)
  · intro a memA b memB file
    rw [apart a memA b memB file.1]
  · intro relation a memA b memB x foundX
    rw [(undeclared a memA).1] at foundX
    cases foundX
  · intro line a memA b memB file x foundX
    rw [(undeclared a memA).1] at foundX
    cases foundX
  · intro line a memA b memB file _ x foundX y foundY
    obtain rfl := apart a memA b memB file.1
    rw [Option.mem_unique foundX foundY]

theorem eventDocumentsToGraph_keeps_orders :
    KeepsEvidence pairId ordersFiles ∧ OrderFree pairId ordersFiles := by
  have kept := (eventDocumentsToGraph_keeps_iff pairId stableIds_pairId ordersFiles
    ordersFiles_scanned).mpr ⟨?_, ordersFiles_agree⟩
  · exact ⟨kept.1, kept.2.2⟩
  · unfold SharedEvidence
    decide +kernel

/-- Two publications of one exchange, which have different routing keys. -/
theorem eventDocumentsToGraph_loses_line :
    StableIds pairId ∧ Scanned (rabbitFile "repo:1a" []) ∧
      ¬KeepsEvidence pairId [rabbitFile "repo:1a" [rabbitCall .publisher "orders" (some "cancelled") 3,
        rabbitCall .publisher "orders" (some "created") 9]] := by
  refine ⟨stableIds_pairId, ⟨⟨"repo", "1a", by decide, by decide, rfl⟩,
    ⟨"artifact-content", "1f", by decide, by decide, rfl⟩⟩, fun keeps => ?_⟩
  refine absurd ((keepsEvidence_iff stableIds_pairId).mp keeps) ?_
  unfold SharedEvidence
  decide +kernel

end Result
end CodeSystemGraph.Events
