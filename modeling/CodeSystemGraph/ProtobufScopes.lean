import CodeSystemGraph.Protobuf
import Mathlib.Data.List.Induction
import Mathlib.Data.List.Infix

/-!
The wire type of a field against the scoping rules of protobuf. A name is looked
up in the scope of its field and outward, whatever the kind of the type; the
extractor walks all scopes for enums first, and then all for messages.
-/

namespace CodeSystemGraph.Protobuf

open Ordered Text

inductive TypeKind
  | enumType | messageType
deriving DecidableEq

mutual

/-- The types an element declares. An extend block declares none: what it
contains belongs to the scope that the block stands in. -/
def elementTypes (scope : String) : Element → List (String × TypeKind)
  | .enumeration name _ _ => [(qualifiedName scope name, .enumType)]
  | .message _ true _ elements => declaredTypes scope elements
  | .message name false _ elements =>
    (qualifiedName scope name, .messageType) :: declaredTypes (qualifiedName scope name) elements
  | .group name _ _ _ _ _ elements =>
    (qualifiedName scope name, .messageType) :: declaredTypes (qualifiedName scope name) elements
  | .oneof _ elements => declaredTypes scope elements
  | _ => []

def declaredTypes (scope : String) : List Element → List (String × TypeKind)
  | [] => []
  | element :: elements => elementTypes scope element ++ declaredTypes scope elements

end

/-- A field whose type is a name: the scope it stands in, and the full name of the
message it is put into. -/
structure Site where
  scope : String
  container : String
  typeName : String
deriving DecidableEq

mutual

def elementSites (scope container : String) : Element → List Site
  | .normalField field _ _ _ => [⟨scope, container, field.typeName⟩]
  | .oneofField field => [⟨scope, container, field.typeName⟩]
  | .oneof _ elements => sites scope container elements
  | .message name isExtend _ elements =>
    sites (if isExtend then scope else qualifiedName scope name) (qualifiedName container name)
      elements
  | .group name _ _ _ _ _ elements =>
    sites (qualifiedName scope name) (qualifiedName container name) elements
  | _ => []

def sites (scope container : String) : List Element → List Site
  | [] => []
  | element :: elements => elementSites scope container element ++ sites scope container elements

end

/-- A scope and what encloses it, up to the file, the innermost first. -/
def enclosingScopes (scope : String) : List String :=
  ((scope.toList.inits.filter fun outer =>
    outer = [] || outer = scope.toList || (outer ++ ['.']).isPrefixOf scope.toList).reverse).map
      String.ofList

def resolve (types : List (String × TypeKind)) (scope typeName : String) : Option TypeKind :=
  match stripPrefix ['.'] typeName.toList with
  | some absolute => types.lookup (String.ofList absolute)
  | none => (enclosingScopes scope).findSome? fun outer => types.lookup (qualifiedName outer typeName)

def expectedWire : Option TypeKind → ProtoWireType
  | some .enumType => .varint
  | some .messageType => .lengthDelimited
  | none => .unknown

def Meets (names : List String) (container name : String) : Prop :=
  ∃ outer ∈ enclosingScopes container, qualifiedName outer name ∈ names

def WalksAgree (known : KnownTypes) (container name : String) : Option TypeKind → Prop
  | some .enumType => Meets known.enums container name
  | some .messageType =>
    ¬ Meets known.enums container name ∧ Meets known.messages container name
  | none => ¬ Meets known.enums container name ∧ ¬ Meets known.messages container name

/-- An absolute name is taken for a scalar type, or the walks meet the kinds of the type. -/
def ReadAsScoped (known : KnownTypes) (container typeName : String) (kind : Option TypeKind) : Prop :=
  match scalarWireType (trimDots typeName) with
  | some scalar => scalar = expectedWire kind
  | none => WalksAgree known container (trimDots typeName) kind

section Scopes

theorem ofList_eq_iff {chars : List Char} {text : String} :
    String.ofList chars = text ↔ chars = text.toList := by
  rw [← String.toList_inj, String.toList_ofList]

theorem mem_enclosingScopes {outer scope : String} :
    outer ∈ enclosingScopes scope ↔
      outer = "" ∨ outer = scope ∨ outer.toList ++ ['.'] <+: scope.toList := by
  unfold enclosingScopes
  simp only [List.mem_map, List.mem_reverse, List.mem_filter, List.mem_inits, Bool.or_eq_true,
    decide_eq_true_eq, List.isPrefixOf_iff_prefix]
  constructor
  · rintro ⟨chars, ⟨-, shape⟩, rfl⟩
    simpa [or_assoc, ofList_eq_iff] using shape
  · intro shape
    refine ⟨outer.toList, ⟨?_, ?_⟩, String.ofList_toList⟩
    · rcases shape with empty | same | before
      · simp [empty]
      · rw [same]
      · exact (List.prefix_append _ _).trans before
    · simpa [or_assoc, String.toList_inj] using shape

theorem dotted_before {outer parent last : List Char} (free : '.' ∉ last) :
    outer ++ ['.'] <+: parent ++ '.' :: last ↔ outer = parent ∨ outer ++ ['.'] <+: parent := by
  have shape : outer = parent ∨ outer ++ ['.'] <+: parent ↔ outer ++ ['.'] <+: parent ++ ['.'] := by
    rw [List.prefix_concat_iff, List.append_cancel_right_eq]
  rw [shape, List.append_cons parent '.' last]
  constructor
  · rintro ⟨more, same⟩
    rcases List.append_eq_append_iff.1 same with ⟨between, longer, -⟩ | ⟨between, shorter, rest⟩
    · exact ⟨between, longer.symm⟩
    · cases between using List.reverseRecOn with
      | nil => simp [shorter]
      | append_singleton between c =>
        rw [← List.append_assoc] at shorter
        have dot : ['.'] = [c] := (List.append_inj' shorter rfl).2
        cases dot
        exact absurd (by simp [rest]) free
  · intro begins
    exact begins.trans (List.prefix_append _ _)

theorem mem_enclosingScopes_parent {outer : String} {parent last : List Char} (free : '.' ∉ last) :
    outer ∈ enclosingScopes (String.ofList (parent ++ '.' :: last)) ↔
      outer = String.ofList (parent ++ '.' :: last) ∨ outer ∈ enclosingScopes (String.ofList parent) := by
  have named : outer.toList = parent ↔ outer = String.ofList parent := by
    rw [@eq_comm _ outer, ofList_eq_iff, eq_comm]
  rw [mem_enclosingScopes, mem_enclosingScopes, String.toList_ofList, String.toList_ofList,
    dotted_before free, named, or_left_comm]

theorem mem_enclosingScopes_single {outer : String} {scope : List Char} (free : '.' ∉ scope) :
    outer ∈ enclosingScopes (String.ofList scope) ↔ outer = "" ∨ outer = String.ofList scope := by
  rw [mem_enclosingScopes, String.toList_ofList, ← or_assoc]
  apply or_iff_left
  intro begins
  exact free (begins.subset (by simp))

theorem trimDots_of_relative {name : String} (relative : name.toList.head? ≠ some '.') :
    trimDots name = name := by
  unfold trimDots
  rw [ofList_eq_iff]
  cases text : name.toList with
  | nil => rfl
  | cons c rest =>
    rw [text, List.head?_cons, ne_eq, Option.some.injEq] at relative
    rw [List.dropWhile_cons_of_neg (by simpa using relative)]

theorem relative_trimDots (name : String) : (trimDots name).toList.head? ≠ some '.' := by
  intro dotted
  unfold trimDots at dotted
  rw [String.toList_ofList] at dotted
  have clean := List.head?_dropWhile_not (fun c => decide (c = '.')) name.toList
  rw [dotted] at clean
  simp at clean

theorem resolvesFrom_iff {name : String} (relative : name.toList.head? ≠ some '.')
    {names : List String} : ∀ {fuel : ℕ} {scope : List Char}, scope.length < fuel →
      (resolvesFrom name names fuel scope = true ↔ Meets names (String.ofList scope) name) := by
  have root : qualifiedName "" name = name := by
    rw [qualifiedName, if_pos (Or.inl rfl), trimDots_of_relative relative]
  intro fuel
  induction fuel with
  | zero =>
    intro scope short
    omega
  | succ fuel ih =>
    intro scope short
    rw [resolvesFrom, Bool.or_eq_true, List.contains_iff_mem]
    unfold Meets at ih ⊢
    cases split : rsplitOnce '.' scope with
    | none =>
      have free := rsplitOnce_eq_none split
      simp only [mem_enclosingScopes_single free, List.contains_iff_mem]
      simp only [or_and_right, exists_or, exists_eq_left, root]
      exact or_comm
    | some parts =>
      obtain ⟨same, free⟩ := rsplitOnce_eq_some split
      have shorter : parts.1.length < fuel := by
        rw [same, List.length_append, List.length_cons] at short
        omega
      rw [same]
      simp only [mem_enclosingScopes_parent free, ih shorter]
      simp only [or_and_right, exists_or, exists_eq_left]

theorem resolvesType_iff {name container : String} (relative : name.toList.head? ≠ some '.')
    {names : List String} : resolvesType name container names = true ↔ Meets names container name := by
  have strip : stripPrefix ['.'] name.toList = none := by
    apply Option.eq_none_iff_forall_not_mem.2
    intro rest found
    rw [stripPrefix_eq_some.1 found] at relative
    exact relative rfl
  rw [resolvesType, strip]
  have walk := @resolvesFrom_iff name relative names _ _ (Nat.lt_succ_self container.toList.length)
  rwa [String.ofList_toList] at walk

theorem expectedWire_iff {known : KnownTypes} {container typeName : String} {kind : Option TypeKind} :
    wireType typeName container known = expectedWire kind ↔
      ReadAsScoped known container typeName kind := by
  have relative := relative_trimDots typeName
  unfold wireType ReadAsScoped
  cases scalarWireType (trimDots typeName) with
  | some scalar => rfl
  | none =>
    have enums := @resolvesType_iff _ container relative known.enums
    have messages := @resolvesType_iff _ container relative known.messages
    generalize resolvesType (trimDots typeName) container known.enums = first at enums ⊢
    generalize resolvesType (trimDots typeName) container known.messages = second at messages ⊢
    cases kind with
    | none => cases first <;> cases second <;> simp [WalksAgree, expectedWire, ← enums, ← messages]
    | some kind =>
      cases kind <;> cases first <;> cases second <;>
        simp [WalksAgree, expectedWire, ← enums, ← messages]

end Scopes

section Extraction

/-- A field that is neither a map nor a group has the wire type of its type name. -/
def Typed (known : KnownTypes) (container : String) (field : ProtoField) : Prop :=
  field.mapKeyType = none → field.wireType ≠ .startGroup →
    field.wireType = wireType field.typeName container known

def AllTyped (known : KnownTypes) (messages : List ProtoMessage) : Prop :=
  ∀ message ∈ ProtoMessage.allOf messages, ∀ field ∈ message.fields,
    Typed known message.fullName field

variable {sourcePath : String} {known : KnownTypes}

theorem fieldFromCommon_typed {common : FieldCommon} {cardinality : ProtoFieldCardinality}
    {oneof mapKeyType : Option String} {container : String} {field : ProtoField}
    (read : fieldFromCommon sourcePath common cardinality oneof mapKeyType container known = .ok field) :
    Typed known container field := by
  unfold fieldFromCommon at read
  simp only [bind_eq_ok, pure_eq_ok] at read
  obtain ⟨_, -, rfl⟩ := read
  intro plain _
  cases mapKeyType with
  | none => rfl
  | some key => cases plain

theorem oneofFields_typed {oneof container : String} {elements : List Element} :
    ∀ {fields}, oneofFields sourcePath known oneof container elements = .ok fields →
      ∀ field ∈ fields, Typed known container field := by
  induction elements with
  | nil =>
    intro fields read
    cases read
    simp
  | cons element elements ih =>
    intro fields read
    cases element
    case oneofField common =>
      rw [oneofFields] at read
      simp only [bind_eq_ok, pure_eq_ok] at read
      obtain ⟨first, here, rest, later, rfl⟩ := read
      rw [List.forall_mem_cons]
      exact ⟨fieldFromCommon_typed here, ih later⟩
    all_goals exact ih read

theorem allTyped_nil : AllTyped known [] := by
  simp [AllTyped, ProtoMessage.allOf]

theorem allTyped_append {first second : List ProtoMessage} (here : AllTyped known first)
    (later : AllTyped known second) : AllTyped known (first ++ second) := by
  intro message among
  obtain ⟨outer, listed, inside⟩ := ProtoMessage.mem_allOf.1 among
  rcases List.mem_append.1 listed with before | after
  · exact here message (ProtoMessage.mem_allOf.2 ⟨outer, before, inside⟩)
  · exact later message (ProtoMessage.mem_allOf.2 ⟨outer, after, inside⟩)

theorem allTyped_keepFirst {messages : List ProtoMessage} (typed : AllTyped known messages) :
    AllTyped known (keepFirst ProtoMessage.fullName messages) := by
  intro message among
  obtain ⟨outer, kept, inside⟩ := ProtoMessage.mem_allOf.1 among
  exact typed message (ProtoMessage.mem_allOf.2 ⟨outer, mem_of_keepFirst kept, inside⟩)

theorem finishMessage_typed {name scope : String} {isExtension : Bool} {line : ℕ}
    {elements : List Element} {parts : Parts} {message : ProtoMessage}
    (fields : ∀ field ∈ parts.fields, Typed known (qualifiedName scope name) field)
    (messages : AllTyped known parts.messages)
    (finished : finishMessage name isExtension line elements scope parts = .ok message) :
    AllTyped known [message] := by
  obtain ⟨named, read, inner, -⟩ := finishMessage_eq_ok finished
  have whole : ProtoMessage.allOf [message] = message :: ProtoMessage.allOf message.messages := by
    cases message
    simp [ProtoMessage.allOf, ProtoMessage.all, ProtoMessage.messages]
  intro inside among field listed
  rw [whole, inner, List.mem_cons] at among
  rcases among with rfl | deeper
  · rw [read, mem_sortBy] at listed
    rw [named]
    exact fields field listed
  · exact allTyped_keepFirst messages inside deeper field listed

theorem extractElements_typed (elements : List Element) : ∀ {scope : String} {parts : Parts},
    extractElements sourcePath known scope elements = .ok parts →
      (∀ field ∈ parts.fields, Typed known scope field) ∧ AllTyped known parts.messages := by
  induction elements using Element.list_induction with
  | nil =>
    intro scope parts read
    rw [extractElements] at read
    cases read
    exact ⟨by simp, allTyped_nil⟩
  | cons element elements inner rest =>
    intro scope parts read
    rw [extractElements] at read
    simp only [bind_eq_ok, pure_eq_ok] at read
    obtain ⟨first, here, more, later, rfl⟩ := read
    have head : (∀ field ∈ first.fields, Typed known scope field) ∧ AllTyped known first.messages := by
      cases element
      all_goals simp only [extractElement, bind_eq_ok, pure_eq_ok, Except.ok.injEq] at here
      case normalField =>
        obtain ⟨field, single, rfl⟩ := here
        exact ⟨by simpa using fieldFromCommon_typed single, allTyped_nil⟩
      case mapField =>
        obtain ⟨field, single, rfl⟩ := here
        exact ⟨by simpa using fieldFromCommon_typed single, allTyped_nil⟩
      case oneof =>
        obtain ⟨fields, several, rfl⟩ := here
        exact ⟨oneofFields_typed several, allTyped_nil⟩
      case message =>
        obtain ⟨parts, inside, message, finished, rfl⟩ := here
        have typed := inner inside
        exact ⟨by simp, finishMessage_typed typed.1 typed.2 finished⟩
      case group =>
        obtain ⟨_, -, parts, inside, message, finished, rfl⟩ := here
        have typed := inner inside
        exact ⟨by simp [Typed], finishMessage_typed typed.1 typed.2 finished⟩
      all_goals
        subst here
        exact ⟨by simp, allTyped_nil⟩
    have tail := rest later
    constructor
    · intro field among
      exact (List.mem_append.1 among).elim (head.1 field) (tail.1 field)
    · exact allTyped_append head.2 tail.2

theorem extractDeclarations_typed {package : String} {elements : List Element} : ∀ {parts : FileParts},
    extractDeclarations sourcePath known package elements = .ok parts →
      AllTyped known parts.messages := by
  induction elements with
  | nil =>
    intro parts read
    cases read
    exact allTyped_nil
  | cons element elements ih =>
    intro parts read
    cases element
    all_goals simp only [extractDeclarations, bind_eq_ok, pure_eq_ok] at read
    case message =>
      obtain ⟨inside, contents, message, finished, more, later, rfl⟩ := read
      have typed := extractElements_typed _ contents
      exact allTyped_append (finishMessage_typed typed.1 typed.2 finished) (ih later)
    case enumeration =>
      obtain ⟨more, later, rfl⟩ := read
      exact @ih more later
    case service =>
      obtain ⟨more, later, rfl⟩ := read
      exact @ih more later
    all_goals exact ih read

theorem extractProtobuf_typed {elements : List Element} {file : ProtoFile}
    (accepted : extractProtobuf sourcePath elements = .ok file) :
    AllTyped (collectTypeNames (file.package.getD "") elements) file.messages := by
  unfold extractProtobuf at accepted
  simp only [bind_eq_ok, pure_eq_ok] at accepted
  obtain ⟨version, -, package, -, parts, declared, rfl⟩ := accepted
  exact allTyped_keepFirst (extractDeclarations_typed declared)

end Extraction

def typesOf (file : ProtoFile) (elements : List Element) : List (String × TypeKind) :=
  declaredTypes (file.package.getD "") elements

theorem wireType_scoped_iff {sourcePath : String} {elements : List Element} {file : ProtoFile}
    (accepted : extractProtobuf sourcePath elements = .ok file) {message : ProtoMessage}
    (among : message ∈ ProtoMessage.allOf file.messages) {field : ProtoField}
    (listed : field ∈ message.fields) (single : field.mapKeyType = none)
    (plain : field.wireType ≠ .startGroup) (scope : String) :
    field.wireType = expectedWire (resolve (typesOf file elements) scope field.typeName) ↔
      ReadAsScoped (collectTypeNames (file.package.getD "") elements) message.fullName
        field.typeName (resolve (typesOf file elements) scope field.typeName) := by
  rw [extractProtobuf_typed accepted message among field listed single plain]
  exact expectedWire_iff

def nestedElements : List Element :=
  [.package "p" 1, .message "M" false 2 [.enumeration "S" 3 [.enumField "Z" 0 3 []],
    .normalField ⟨"s", "S", 1, 4, []⟩ false false false]]

theorem wireType_scoped_iff_nested : ∃ file message field,
    extractProtobuf "s" nestedElements = .ok file ∧ message ∈ ProtoMessage.allOf file.messages ∧
      field ∈ message.fields ∧ Site.mk "p.M" message.fullName field.typeName ∈
        sites "p" "p" nestedElements ∧
      (field.wireType = expectedWire (resolve (typesOf file nestedElements) "p.M" "S") ↔
        ReadAsScoped (collectTypeNames (file.package.getD "") nestedElements) "p.M" "S"
          (resolve (typesOf file nestedElements) "p.M" "S")) := by
  have run : isOkAnd (extractProtobuf "s" nestedElements) (fun file =>
      (ProtoMessage.allOf file.messages).any fun message => message.fullName = "p.M" &&
        message.fields.any fun field => field.typeName = "S" && field.mapKeyType = none &&
          field.wireType = .varint) = true := by
    decide +kernel
  obtain ⟨file, accepted, test⟩ := isOkAnd_iff.1 run
  simp only [Bool.and_eq_true, List.any_eq_true, decide_eq_true_eq] at test
  obtain ⟨message, among, named, field, listed, ⟨typed, single⟩, wire⟩ := test
  have scoped' := wireType_scoped_iff accepted among listed single (by rw [wire]; decide) "p.M"
  rw [named, typed] at scoped'
  exact ⟨file, message, field, accepted, among, listed, by rw [named, typed]; decide +kernel,
    scoped'⟩

/-- `enum X` beside `message M`, which holds `message X`, `message Y`, a field of type `X` and a
field of type `.Y`. -/
def shadowedElements : List Element :=
  [.package "p" 1, .enumeration "X" 2 [.enumField "Z" 0 2 []],
    .message "M" false 3 [.message "X" false 4 [], .message "Y" false 5 [],
      .normalField ⟨"a", "X", 1, 6, []⟩ false false false,
      .normalField ⟨"b", ".Y", 2, 7, []⟩ false false false]]

def wireTypes (result : Except ProtobufExtractionError ProtoFile) : List (String × ProtoWireType) :=
  match result with
  | .ok file => (ProtoMessage.allOf file.messages).flatMap fun message =>
      message.fields.map fun field => (field.name, field.wireType)
  | .error _ => []

/-- The inner message `X` is read as the outer enum, and the absolute `.Y` as the nested `Y`. -/
theorem shadowed_names_are_mistyped :
    ((declaredTypes "p" shadowedElements).map Prod.fst).Nodup ∧
      sites "p" "p" shadowedElements = [⟨"p.M", "p.M", "X"⟩, ⟨"p.M", "p.M", ".Y"⟩] ∧
      expectedWire (resolve (declaredTypes "p" shadowedElements) "p.M" "X") = .lengthDelimited ∧
      expectedWire (resolve (declaredTypes "p" shadowedElements) "p.M" ".Y") = .unknown ∧
      wireTypes (extractProtobuf "s" shadowedElements) =
        [("a", .varint), ("b", .lengthDelimited)] := by
  decide +kernel

end CodeSystemGraph.Protobuf
