import CodeSystemGraph.ContractSelf

/-! What a compatible GraphQL report says to a client. The rule for return types keeps
the values of the old type inside the new one, which is the direction of an argument:
a client reads the other way. -/

namespace CodeSystemGraph.Contracts
open Ordered

section Values

/-- A value of a response or an argument. A leaf carries the named type it belongs to. -/
inductive GraphqlValue
  | null
  | leaf (typeName text : String)
  | list (items : List GraphqlValue)

def GraphqlTypeRef.Has : GraphqlTypeRef → GraphqlValue → Prop
  | .named _ nonNull, .null => nonNull = false
  | .named name _, .leaf typeName _ => typeName = name
  | .list _ nonNull, .null => nonNull = false
  | .list element _, .list items => ∀ item ∈ items, element.Has item
  | _, _ => False

def GraphqlTypeRef.sample : GraphqlTypeRef → GraphqlValue
  | .named name _ => .leaf name ""
  | .list _ _ => .list []

theorem has_sample (type : GraphqlTypeRef) : type.Has type.sample := by
  cases type with
  | named name nonNull => rfl
  | list element nonNull => exact fun item mem => absurd mem List.not_mem_nil

/-- The same type up to non-null markers, none of them on the wider side only. -/
def Widened : (narrow wide : GraphqlTypeRef) → Prop
  | .named name nonNull, .named name' nonNull' => name = name' ∧ (nonNull' = true → nonNull = true)
  | .list element nonNull, .list element' nonNull' =>
    (nonNull' = true → nonNull = true) ∧ Widened element element'
  | _, _ => False

theorem widened_refl (type : GraphqlTypeRef) : Widened type type := by
  induction type with
  | named name nonNull => exact ⟨rfl, id⟩
  | list element nonNull ih => exact ⟨id, ih⟩

theorem eq_of_widened {type type' : GraphqlTypeRef} (wide : Widened type type')
    (narrow : Widened type' type) : type = type' := by
  induction type generalizing type' with
  | named name nonNull =>
    cases type' with
    | named name' nonNull' => rw [wide.1, Bool.eq_iff_iff.mpr ⟨narrow.2, wide.2⟩]
    | list => exact wide.elim
  | list element nonNull ih =>
    cases type' with
    | named => exact wide.elim
    | list element' nonNull' => rw [ih wide.2 narrow.2, Bool.eq_iff_iff.mpr ⟨narrow.1, wide.1⟩]

theorem typeNarrowed_eq_false {before after : GraphqlTypeRef} :
    typeNarrowed before after = false ↔ Widened before after := by
  induction before generalizing after with
  | named name nonNull =>
    cases after with
    | named name' nonNull' => cases nonNull <;> cases nonNull' <;> simp [typeNarrowed, Widened]
    | list => simp [typeNarrowed, Widened]
  | list element nonNull ih =>
    cases after with
    | named => simp [typeNarrowed, Widened]
    | list element' nonNull' =>
      rw [typeNarrowed]
      split
      · next same =>
        cases same
        exact iff_of_true rfl (widened_refl _)
      · cases nonNull <;> cases nonNull' <;> simp [Widened, ih]

theorem has_of_widened {narrow wide : GraphqlTypeRef} (widened : Widened narrow wide)
    {value : GraphqlValue} (has : narrow.Has value) : wide.Has value := by
  have nullable : ∀ {x x' : Bool}, (x' = true → x = true) → x = false → x' = false := by decide
  induction narrow generalizing wide value with
  | named name nonNull =>
    cases wide with
    | list => exact widened.elim
    | named name' nonNull' =>
      cases value with
      | null => exact nullable widened.2 has
      | leaf typeName text => exact Eq.trans has widened.1
      | list items => exact has
  | list element nonNull ih =>
    cases wide with
    | named => exact widened.elim
    | list element' nonNull' =>
      cases value with
      | null => exact nullable widened.1 has
      | leaf typeName text => exact has
      | list items => exact fun item mem => ih widened.2 (has item mem)

theorem has_imp_iff {narrow wide : GraphqlTypeRef} :
    (∀ value, narrow.Has value → wide.Has value) ↔ Widened narrow wide := by
  refine ⟨fun holds => ?_, fun widened value => has_of_widened widened⟩
  have marker : ∀ {x x' : Bool}, (x = false → x' = false) → x' = true → x = true := by decide
  induction narrow generalizing wide with
  | named name nonNull =>
    cases wide with
    | named name' nonNull' => exact ⟨holds (.leaf name "") rfl, marker (holds .null)⟩
    | list => exact (holds (.leaf name "") rfl).elim
  | list element nonNull ih =>
    cases wide with
    | named => exact (holds (.list []) (has_sample (.list element nonNull))).elim
    | list element' nonNull' =>
      refine ⟨marker (holds .null), ih fun value has => ?_⟩
      -- a list of one item shows each value of the element type
      exact holds (.list [value]) (List.forall_mem_singleton.mpr has) value List.mem_cons_self

end Values

section Clients

def GraphqlArgumentDefinition.Required (argument : GraphqlArgumentDefinition) : Prop :=
  typeIsNonNull argument.typeRef ∧ argument.defaultValueKind = none

instance (argument : GraphqlArgumentDefinition) : Decidable argument.Required :=
  inferInstanceAs (Decidable (_ ∧ _))

def GraphqlFieldDefinition.argument? (field : GraphqlFieldDefinition) (name : String) :
    Option GraphqlArgumentDefinition :=
  field.arguments.find? (·.name = name)

/-- The call supplies every required argument, and only declared ones with values of
their types. -/
structure GraphqlFieldDefinition.Accepts (field : GraphqlFieldDefinition)
    (supplied : List (String × GraphqlValue)) : Prop where
  required : ∀ argument ∈ field.arguments, argument.Required → argument.name ∈ supplied.map (·.1)
  declared : ∀ entry ∈ supplied, ∃ argument, field.argument? entry.1 = some argument ∧
    argument.typeRef.Has entry.2

/-- A client written against the first declaration can use the second one. -/
structure SoundField (before after : GraphqlFieldDefinition) : Prop where
  values : ∀ value, after.typeRef.Has value → before.typeRef.Has value
  calls : ∀ supplied, before.Accepts supplied → after.Accepts supplied

def GraphqlTypeDefinition.HasFields (type : GraphqlTypeDefinition) : Prop :=
  type.kind = .object ∨ type.kind = .interface

def SoundForClients (before after : GraphqlDocument) : Prop :=
  ∀ type ∈ before.types, type.HasFields → ∀ field ∈ type.fields,
    ∃ type' ∈ after.types, type'.name = type.name ∧
      ∃ field' ∈ type'.fields, field'.name = field.name ∧ SoundField field field'

/-- The return type reads the same, no argument is dropped, made narrower or made
required. -/
structure FieldUnchanged (before after : GraphqlFieldDefinition) : Prop where
  type : after.typeRef = before.typeRef
  arguments : ∀ name argument, before.argument? name = some argument →
    ∃ argument', after.argument? name = some argument' ∧ Widened argument.typeRef argument'.typeRef
  required : ∀ argument' ∈ after.arguments, argument'.Required →
    ∃ argument ∈ before.arguments, argument.name = argument'.name ∧ argument.Required

def Unchanged (before after : GraphqlDocument) : Prop :=
  ∀ type ∈ before.types, type.HasFields → ∀ field ∈ type.fields,
    ∀ type' ∈ after.types, type'.name = type.name →
      ∀ field' ∈ type'.fields, field'.name = field.name → FieldUnchanged field field'

structure GraphqlDocument.UniqueNames (document : GraphqlDocument) : Prop where
  types : (document.types.map (·.name)).Nodup
  fields : ∀ type ∈ document.types, (type.fields.map (·.name)).Nodup

end Clients

section Calls

variable {before after : GraphqlFieldDefinition}

theorem argument?_of_mem {argument : GraphqlArgumentDefinition} (mem : argument ∈ before.arguments) :
    ∃ first, before.argument? argument.name = some first := by
  refine Option.isSome_iff_exists.mp (List.find?_isSome.mpr ⟨argument, mem, ?_⟩)
  exact decide_eq_true rfl

def GraphqlFieldDefinition.sampleEntry (field : GraphqlFieldDefinition) (name : String) :
    String × GraphqlValue :=
  (name, ((field.argument? name).map (·.typeRef.sample)).getD .null)

theorem declared_sampleEntry {argument : GraphqlArgumentDefinition}
    (mem : argument ∈ before.arguments) :
    ∃ first, before.argument? (before.sampleEntry argument.name).1 = some first ∧
      first.typeRef.Has (before.sampleEntry argument.name).2 := by
  obtain ⟨first, found⟩ := argument?_of_mem mem
  refine ⟨first, found, ?_⟩
  rw [GraphqlFieldDefinition.sampleEntry, found]
  exact has_sample first.typeRef

theorem accepts_samples (chosen : GraphqlArgumentDefinition → Bool)
    (required : ∀ argument ∈ before.arguments, argument.Required → chosen argument = true)
    {extra : List (String × GraphqlValue)}
    (declared : ∀ entry ∈ extra, ∃ argument, before.argument? entry.1 = some argument ∧
      argument.typeRef.Has entry.2) :
    before.Accepts (((before.arguments.filter chosen).map fun argument =>
      before.sampleEntry argument.name) ++ extra) := by
  refine ⟨fun argument mem needed => ?_, fun entry mem => ?_⟩
  · rw [List.map_append, List.map_map]
    apply List.mem_append_left
    exact List.mem_map.mpr ⟨argument, List.mem_filter.mpr ⟨mem, required argument mem needed⟩, rfl⟩
  · rcases List.mem_append.mp mem with sampled | added
    · obtain ⟨argument, chosen, rfl⟩ := List.mem_map.mp sampled
      exact declared_sampleEntry (List.mem_of_mem_filter chosen)
    · exact declared entry added

theorem fieldUnchanged_arguments
    (calls : ∀ supplied, before.Accepts supplied → after.Accepts supplied) (name : String)
    (argument : GraphqlArgumentDefinition) (found : before.argument? name = some argument) :
    ∃ argument', after.argument? name = some argument' ∧
      Widened argument.typeRef argument'.typeRef := by
  have still : ∀ value, argument.typeRef.Has value →
      ∃ argument', after.argument? name = some argument' ∧ argument'.typeRef.Has value := by
    intro value has
    have declared : ∀ entry ∈ [(name, value)], ∃ argument,
        before.argument? entry.1 = some argument ∧ argument.typeRef.Has entry.2 :=
      List.forall_mem_singleton.mpr ⟨argument, found, has⟩
    have accepted := accepts_samples (fun _ => true) (fun _ _ _ => rfl) declared
    exact (calls _ accepted).declared (name, value) (List.mem_append_right _ List.mem_cons_self)
  obtain ⟨argument', found', -⟩ := still _ (has_sample argument.typeRef)
  refine ⟨argument', found', has_imp_iff.mp fun value has => ?_⟩
  obtain ⟨other, foundOther, hasOther⟩ := still value has
  rw [found'] at foundOther
  cases foundOther
  exact hasOther

theorem fieldUnchanged_required
    (calls : ∀ supplied, before.Accepts supplied → after.Accepts supplied)
    (argument' : GraphqlArgumentDefinition) (mem : argument' ∈ after.arguments)
    (needed : argument'.Required) :
    ∃ argument ∈ before.arguments, argument.name = argument'.name ∧ argument.Required := by
  -- the call with the required arguments only
  have none : ∀ entry ∈ ([] : List (String × GraphqlValue)), ∃ argument,
      before.argument? entry.1 = some argument ∧ argument.typeRef.Has entry.2 := by simp
  have accepted := accepts_samples (fun argument => argument.Required)
    (fun _ _ required => decide_eq_true required) none
  have supplied := (calls _ accepted).required argument' mem needed
  rw [List.append_nil, List.map_map] at supplied
  obtain ⟨argument, chosen, name⟩ := List.mem_map.mp supplied
  have ⟨listed, required⟩ := List.mem_filter.mp chosen
  exact ⟨argument, listed, name, of_decide_eq_true required⟩

theorem accepts_of_unchanged (unchanged : FieldUnchanged before after)
    {supplied : List (String × GraphqlValue)} (accepts : before.Accepts supplied) :
    after.Accepts supplied := by
  refine ⟨fun argument' mem needed => ?_, fun entry mem => ?_⟩
  · obtain ⟨argument, listed, name, required⟩ := unchanged.required argument' mem needed
    exact name ▸ accepts.required argument listed required
  · obtain ⟨argument, found, has⟩ := accepts.declared entry mem
    obtain ⟨argument', found', widened⟩ := unchanged.arguments entry.1 argument found
    exact ⟨argument', found', has_of_widened widened has⟩

theorem soundField_iff (kept : typeNarrowed before.typeRef after.typeRef = false) :
    SoundField before after ↔ FieldUnchanged before after := by
  constructor
  · intro sound
    refine ⟨?_, fieldUnchanged_arguments sound.calls, fieldUnchanged_required sound.calls⟩
    exact eq_of_widened (has_imp_iff.mp sound.values) (typeNarrowed_eq_false.mp kept)
  · intro unchanged
    refine ⟨fun value has => ?_, fun supplied => accepts_of_unchanged unchanged⟩
    exact unchanged.type ▸ has

end Calls

section Reports

theorem quiet_of_compatible {fingerprint : GraphqlDocument → Option String}
    {before after : GraphqlDocument}
    (compatible : (compareGraphqlContracts fingerprint before after).status = .compatible) :
    Quiet (graphqlFindings fingerprint before after) := by
  have noBreak : (compareGraphqlContracts fingerprint before after).NoBreak := by
    have silent : ¬(compareGraphqlContracts fingerprint before after).status.Breaks :=
      compatible ▸ not_breaks_compatible
    exact ⟨fun f shown breaks => silent (aggregate_breaks.mpr ⟨f, shown, breaks⟩), silent⟩
  exact (noBreak_iff_quiet (ruled_graphql fingerprint before after)).mp noBreak

theorem field_of_compatible {fingerprint : GraphqlDocument → Option String}
    {before after : GraphqlDocument}
    (compatible : (compareGraphqlContracts fingerprint before after).status = .compatible)
    {type : GraphqlTypeDefinition} (listed : type ∈ before.types) {field : GraphqlFieldDefinition}
    (mem : field ∈ type.fields) :
    ∃ type', latest (·.name) type.name after.types = some type' ∧
      ∃ field', latest (·.name) field.name type'.fields = some field' ∧ FieldKept field field' := by
  have quiet := quiet_of_compatible compatible
  simp only [graphqlFindings, each_append, each_flatMap] at quiet
  have compared := quiet.1.2 type listed
  rw [lookup_inventory] at compared
  cases found : latest (·.name) type.name after.types with
  | none => simp [found, graphqlBreaking] at compared
  | some type' =>
    simp only [found] at compared
    obtain ⟨field', last, kept⟩ := (quiet_graphqlType.mp compared).1 field mem
    exact ⟨type', rfl, field', last, kept⟩

theorem soundForClients_iff (fingerprint : GraphqlDocument → Option String)
    {before after : GraphqlDocument} (unique : after.UniqueNames)
    (compatible : (compareGraphqlContracts fingerprint before after).status = .compatible) :
    SoundForClients before after ↔ Unchanged before after := by
  constructor
  · intro sound type listed hasFields field mem type' listed' typeName field' mem' fieldName
    obtain ⟨other, listedOther, nameOther, otherField, memOther, fieldNameOther, sound⟩ :=
      sound type listed hasFields field mem
    obtain rfl : other = type' :=
      List.inj_on_of_nodup_map unique.types listedOther listed' (nameOther.trans typeName.symm)
    obtain rfl : otherField = field' := List.inj_on_of_nodup_map (unique.fields other listed') memOther
      mem' (fieldNameOther.trans fieldName.symm)
    obtain ⟨last, found, lastField, foundField, kept⟩ := field_of_compatible compatible listed mem
    rw [← typeName, latest_of_nodup unique.types listed'] at found
    cases found
    rw [← fieldName, latest_of_nodup (unique.fields other listed') mem'] at foundField
    cases foundField
    exact (soundField_iff kept.1).mp sound
  · intro unchanged type listed hasFields field mem
    obtain ⟨type', found, field', foundField, kept⟩ := field_of_compatible compatible listed mem
    have ⟨listed', typeName⟩ := mem_of_latest found
    have ⟨mem', fieldName⟩ := mem_of_latest foundField
    refine ⟨type', listed', typeName, field', mem', fieldName, (soundField_iff kept.1).mpr ?_⟩
    exact unchanged type listed hasFields field mem type' listed' typeName field' mem' fieldName

def nameSchema (nonNull : Bool) (arguments : List GraphqlArgumentDefinition) : GraphqlDocument where
  sourcePath := "schema.graphql"
  types := [{
    kind := .object
    name := "Query"
    fields := [{
      coordinate := "Query.name"
      name := "name"
      arguments
      typeRef := .named "String" nonNull
      startLine := 2 }]
    enumValues := []
    startLine := 1 }]
  persistedOperations := []
  complete := true
  unread := []

def optionalArgument (name : String) : GraphqlArgumentDefinition where
  name := name
  typeRef := .named "Int" false
  defaultValueKind := none
  startLine := 2

theorem soundForClients_argument_added :
    SoundForClients (nameSchema true []) (nameSchema true [optionalArgument "first"]) := by
  refine (soundForClients_iff (fun document => some document.sourcePath)
    ⟨by decide, by decide⟩ (by decide +kernel)).mpr ?_
  simp only [Unchanged, nameSchema, List.forall_mem_singleton]
  intro _ _ _
  exact ⟨rfl, by simp [GraphqlFieldDefinition.argument?], by
    simp [optionalArgument, GraphqlArgumentDefinition.Required, typeIsNonNull]⟩

theorem compatible_not_sound :
    (nameSchema true []).complete = true ∧ (nameSchema false []).complete = true ∧
      (nameSchema true []).UniqueNames ∧ (nameSchema false []).UniqueNames ∧
      (compareGraphqlContracts (fun document => some document.sourcePath) (nameSchema true [])
        (nameSchema false [])).status = .compatible ∧
      ¬SoundForClients (nameSchema true []) (nameSchema false []) := by
  refine ⟨rfl, rfl, ⟨by decide, by decide⟩, ⟨by decide, by decide⟩, by decide +kernel, fun sound => ?_⟩
  obtain ⟨type, listed, -, field, mem, -, sound⟩ :=
    sound _ List.mem_cons_self (.inl rfl) _ List.mem_cons_self
  obtain rfl := List.mem_singleton.mp listed
  obtain rfl := List.mem_singleton.mp mem
  have null : true = false := sound.values .null rfl
  exact Bool.noConfusion null

end Reports
end CodeSystemGraph.Contracts
