import CodeSystemGraph.Protobuf

/-!
What of a file the extraction keeps. Of the messages, groups and extend blocks of
one full name in one list the first is kept, and so are the enums and services;
of a `oneof` its fields are.
-/

namespace CodeSystemGraph.Protobuf

open Ordered Text

inductive Item
  | field (container : String) (number : ℤ) (name typeName : String)
      (cardinality : ProtoFieldCardinality)
  | value (container name : String) (number : ℤ)
  | method (container name requestType responseType : String) (clientStreaming serverStreaming : Bool)
deriving DecidableEq

def Item.isField : Item → Bool
  | .field .. => true
  | _ => false

section Declared

def valueItem (container : String) (value : ProtoEnumValue) : Item :=
  .value container value.name value.number

def methodItem (container : String) (method : ProtoRpcMethod) : Item :=
  .method container method.name method.requestType method.responseType method.clientStreaming
    method.serverStreaming

def writtenType (typeName : String) : Option String → String
  | some keyType => "map<" ++ keyType ++ ", " ++ typeName ++ ">"
  | none => typeName

def commonItem (container : String) (field : FieldCommon) (mapKeyType : Option String)
    (cardinality : ProtoFieldCardinality) : Item :=
  .field container field.sequence field.name (writtenType field.typeName mapKeyType) cardinality

mutual

def elementItems (container : String) : Element → List Item
  | .normalField field optional required repeated =>
    [commonItem container field none (cardinality optional required repeated)]
  | .mapField field keyType => [commonItem container field (some keyType) .repeated]
  | .oneofField field => [commonItem container field none .singular]
  | .oneof _ elements => declaredItems container elements
  | .group name sequence optional required repeated _ elements =>
    .field container sequence name name (cardinality optional required repeated) ::
      declaredItems (qualifiedName container name) elements
  | .message name _ _ elements => declaredItems (qualifiedName container name) elements
  | .enumeration name _ elements =>
    (elements.filterMap enumValueOf).map (valueItem (qualifiedName container name))
  | .service name _ elements =>
    (elements.filterMap methodOf).map (methodItem (qualifiedName container name))
  | _ => []

def declaredItems (container : String) : List Element → List Item
  | [] => []
  | element :: elements => elementItems container element ++ declaredItems container elements

end

structure Kept where
  retained : List Item := []
  lost : List Item := []

def Kept.append (first second : Kept) : Kept where
  retained := first.retained ++ second.retained
  lost := first.lost ++ second.lost

def lose (items : List Item) : Kept := { lost := items }

/-- The full names of the declarations that came before in one list. -/
structure Seen where
  messages : List String := []
  enums : List String := []
  services : List String := []

def Seen.add (seen : Seen) (container : String) : Element → Seen
  | .message name _ _ _ => { seen with messages := qualifiedName container name :: seen.messages }
  | .group name _ _ _ _ _ _ =>
    { seen with messages := qualifiedName container name :: seen.messages }
  | .enumeration name _ _ => { seen with enums := qualifiedName container name :: seen.enums }
  | .service name _ _ => { seen with services := qualifiedName container name :: seen.services }
  | _ => seen

def oneofKept (container : String) : List Element → Kept
  | [] => {}
  | .oneofField field :: elements =>
    Kept.append { retained := [commonItem container field none .singular] }
      (oneofKept container elements)
  | element :: elements => (lose (elementItems container element)).append (oneofKept container elements)

mutual

def elementKept (container : String) (seen : Seen) : Element → Kept
  | .normalField field optional required repeated =>
    { retained := elementItems container (.normalField field optional required repeated) }
  | .mapField field keyType => { retained := elementItems container (.mapField field keyType) }
  | .oneof _ elements => oneofKept container elements
  | .group name sequence optional required repeated _ elements =>
    Kept.append
      { retained := [.field container sequence name name (cardinality optional required repeated)] }
      (if qualifiedName container name ∈ seen.messages then
        lose (declaredItems (qualifiedName container name) elements)
      else bodyKept (qualifiedName container name) {} elements)
  | .message name _ _ elements =>
    if qualifiedName container name ∈ seen.messages then
      lose (declaredItems (qualifiedName container name) elements)
    else bodyKept (qualifiedName container name) {} elements
  | .enumeration name line elements =>
    if qualifiedName container name ∈ seen.enums then
      lose (elementItems container (.enumeration name line elements))
    else { retained := elementItems container (.enumeration name line elements) }
  | element => lose (elementItems container element)

def bodyKept (container : String) (seen : Seen) : List Element → Kept
  | [] => {}
  | element :: elements =>
    (elementKept container seen element).append
      (bodyKept container (seen.add container element) elements)

end

/-- What a file keeps: at its top only messages, extend blocks, enums and services are read. -/
def fileKept (package : String) : Seen → List Element → Kept
  | _, [] => {}
  | seen, .message name isExtend line elements :: rest =>
    (elementKept package seen (.message name isExtend line elements)).append
      (fileKept package (seen.add package (.message name isExtend line elements)) rest)
  | seen, .enumeration name line elements :: rest =>
    (elementKept package seen (.enumeration name line elements)).append
      (fileKept package (seen.add package (.enumeration name line elements)) rest)
  | seen, .service name line elements :: rest =>
    Kept.append
      (if qualifiedName package name ∈ seen.services then
        lose (elementItems package (.service name line elements))
      else { retained := elementItems package (.service name line elements) })
      (fileKept package (seen.add package (.service name line elements)) rest)
  | seen, element :: rest =>
    (lose (elementItems package element)).append (fileKept package seen rest)

theorem mem_oneofKept {container : String} {item : Item} {elements : List Element} :
    item ∈ declaredItems container elements ↔
      item ∈ (oneofKept container elements).retained ∨ item ∈ (oneofKept container elements).lost := by
  induction elements with
  | nil => simp [declaredItems, oneofKept]
  | cons element elements ih =>
    cases element
    all_goals simp [declaredItems, oneofKept, elementItems, Kept.append, lose, ih, or_assoc, or_left_comm]

theorem mem_bodyKept (elements : List Element) : ∀ {container : String} {seen : Seen} {item : Item},
    item ∈ declaredItems container elements ↔
      item ∈ (bodyKept container seen elements).retained ∨
        item ∈ (bodyKept container seen elements).lost := by
  induction elements using Element.list_induction with
  | nil => simp [declaredItems, bodyKept]
  | cons element elements inner rest =>
    intro container seen item
    have head : item ∈ elementItems container element ↔
        item ∈ (elementKept container seen element).retained ∨
          item ∈ (elementKept container seen element).lost := by
      cases element
      case oneof => exact mem_oneofKept
      case message name _ _ _ =>
        rw [elementItems, elementKept]
        split
        · simp [lose]
        · exact inner
      case group name _ _ _ _ _ _ =>
        rw [elementItems, elementKept]
        split
        · simp [lose, Kept.append]
        · have deeper := @inner (qualifiedName container name) {} item
          rw [Element.contents] at deeper
          simp only [Kept.append, List.mem_cons, List.mem_append, List.not_mem_nil, or_false,
            List.nil_append, deeper, or_assoc]
      case enumeration =>
        rw [elementKept]
        split <;> simp [lose]
      all_goals simp [elementItems, elementKept, lose]
    have tail := @rest container (seen.add container element) item
    rw [declaredItems, bodyKept, Kept.append, List.mem_append, List.mem_append, List.mem_append, head,
      tail, or_or_or_comm]

theorem mem_fileKept {package : String} {item : Item} {elements : List Element} :
    ∀ {seen : Seen}, item ∈ declaredItems package elements ↔
      item ∈ (fileKept package seen elements).retained ∨
        item ∈ (fileKept package seen elements).lost := by
  induction elements with
  | nil => simp [declaredItems, fileKept]
  | cons element elements ih =>
    intro seen
    have single : item ∈ elementItems package element ↔
        item ∈ (elementKept package seen element).retained ∨
          item ∈ (elementKept package seen element).lost := by
      have alone := @mem_bodyKept [element] package seen item
      simpa [declaredItems, bodyKept, Kept.append] using alone
    have tail := @ih (seen.add package element)
    cases element
    case message =>
      rw [declaredItems, fileKept, Kept.append, List.mem_append, List.mem_append, List.mem_append,
        single, tail, or_or_or_comm]
    case enumeration =>
      rw [declaredItems, fileKept, Kept.append, List.mem_append, List.mem_append, List.mem_append,
        single, tail, or_or_or_comm]
    case service =>
      rw [declaredItems, fileKept, Kept.append, List.mem_append, List.mem_append, List.mem_append,
        tail]
      split <;> simp [lose, or_left_comm, or_assoc]
    all_goals
      simp [declaredItems, fileKept, Kept.append, lose, @ih seen, or_left_comm]

end Declared

section Extracted

def fieldItem (container : String) (field : ProtoField) : Item :=
  .field container field.number field.name field.typeName field.cardinality

def enumItems (enumeration : ProtoEnum) : List Item :=
  enumeration.values.map (valueItem enumeration.fullName)

def serviceItems (service : ProtoService) : List Item :=
  service.methods.map (methodItem service.fullName)

def ownItems (message : ProtoMessage) : List Item :=
  message.fields.map (fieldItem message.fullName) ++ message.enums.flatMap enumItems

def messageItems (message : ProtoMessage) : List Item :=
  (ProtoMessage.all message).flatMap ownItems

def fileItems (file : ProtoFile) : List Item :=
  (ProtoMessage.allOf file.messages).flatMap ownItems ++ file.enums.flatMap enumItems ++
    file.services.flatMap serviceItems

structure Alike (first second : List Item) : Prop where
  mem : ∀ item, item ∈ first ↔ item ∈ second
  count : ∀ item, item.isField → first.count item = second.count item

theorem Alike.of_perm {first second : List Item} (perm : first.Perm second) : Alike first second :=
  ⟨fun _ => perm.mem_iff, fun item _ => perm.count_eq item⟩

theorem Alike.refl (items : List Item) : Alike items items := Alike.of_perm (List.Perm.refl items)

theorem Alike.trans {first second third : List Item} (here : Alike first second)
    (there : Alike second third) : Alike first third :=
  ⟨fun item => (here.mem item).trans (there.mem item),
    fun item field => (here.count item field).trans (there.count item field)⟩

theorem Alike.append {first second first' second' : List Item} (here : Alike first second)
    (there : Alike first' second') : Alike (first ++ first') (second ++ second') := by
  constructor
  · intro item
    rw [List.mem_append, List.mem_append, here.mem, there.mem]
  · intro item field
    rw [List.count_append, List.count_append, here.count item field, there.count item field]

theorem Alike.of_mem {first second : List Item} (mem : ∀ item, item ∈ first ↔ item ∈ second)
    (none : ∀ item ∈ first, item.isField = false) : Alike first second := by
  refine ⟨mem, fun item field => ?_⟩
  have absent : item ∉ first := fun among => by simp [none item among] at field
  rw [List.count_eq_zero.2 absent, List.count_eq_zero.2 (mt (mem item).2 absent)]

def partsItems (container : String) (seen : Seen) (parts : Parts) : List Item :=
  parts.fields.map (fieldItem container) ++
    (firstsAfter ProtoMessage.fullName seen.messages parts.messages).flatMap messageItems ++
    (firstsAfter ProtoEnum.fullName seen.enums parts.enums).flatMap enumItems

theorem flatMap_allOf (messages : List ProtoMessage) :
    (ProtoMessage.allOf messages).flatMap ownItems = messages.flatMap messageItems := by
  induction messages with
  | nil => rfl
  | cons message messages ih =>
    rw [ProtoMessage.allOf, List.flatMap_append, ih]
    rfl

theorem messageItems_eq (message : ProtoMessage) :
    messageItems message = ownItems message ++ message.messages.flatMap messageItems := by
  cases message with
  | mk name fullName fields messages enums reservedNumbers reservedNames options isExtension line =>
    rw [messageItems, ProtoMessage.all, List.flatMap_cons, flatMap_allOf]
    rfl

theorem finishMessage_alike {name scope : String} {isExtension : Bool} {line : ℕ}
    {elements : List Element} {parts : Parts} {message : ProtoMessage}
    (finished : finishMessage name isExtension line elements scope parts = .ok message) :
    Alike (messageItems message) (partsItems (qualifiedName scope name) {} parts) := by
  obtain ⟨named, fields, messages, enums⟩ := finishMessage_eq_ok finished
  apply Alike.of_perm
  rw [messageItems_eq, ownItems, partsItems, named, fields, messages, enums, List.append_assoc,
    List.append_assoc]
  have ofFields := (sortBy_perm fieldOrder parts.fields).map (fieldItem (qualifiedName scope name))
  have ofMessages := (keepFirst_perm ProtoMessage.fullName parts.messages).flatMap_right
    messageItems
  have ofEnums := (keepFirst_perm ProtoEnum.fullName parts.enums).flatMap_right enumItems
  exact ofFields.append ((ofEnums.append ofMessages).trans List.perm_append_comm)

theorem fieldFromCommon_item {sourcePath : String} {known : KnownTypes} {common : FieldCommon}
    {cardinality : ProtoFieldCardinality} {oneof mapKeyType : Option String} {container : String}
    {field : ProtoField}
    (read : fieldFromCommon sourcePath common cardinality oneof mapKeyType container known = .ok field) :
    fieldItem container field = commonItem container common mapKeyType cardinality := by
  unfold fieldFromCommon at read
  simp only [bind_eq_ok, pure_eq_ok] at read
  obtain ⟨_, -, rfl⟩ := read
  cases mapKeyType <;> rfl

theorem oneofFields_items {sourcePath : String} {known : KnownTypes} {oneof container : String}
    {elements : List Element} : ∀ {fields},
      oneofFields sourcePath known oneof container elements = .ok fields →
        fields.map (fieldItem container) = (oneofKept container elements).retained := by
  induction elements with
  | nil =>
    intro fields read
    cases read
    rfl
  | cons element elements ih =>
    intro fields read
    cases element
    case oneofField common =>
      rw [oneofFields] at read
      simp only [bind_eq_ok, pure_eq_ok] at read
      obtain ⟨first, here, rest, later, rfl⟩ := read
      rw [List.map_cons, fieldFromCommon_item here, ih later]
      rfl
    all_goals exact ih read

theorem extractEnum_alike (name : String) (line : ℕ) (elements : List Element) (container : String) :
    Alike (enumItems (extractEnum name line elements container))
      (elementItems container (.enumeration name line elements)) := by
  apply Alike.of_mem
  · intro item
    rw [enumItems, elementItems, extractEnum, List.mem_map, List.mem_map]
    constructor
    · rintro ⟨value, kept, rfl⟩
      exact ⟨value, mem_of_keepFirst kept, rfl⟩
    · rintro ⟨value, listed, rfl⟩
      obtain ⟨first, kept, same⟩ := exists_keepFirst enumValueOrder listed
      have parts := toLex.injective same
      exact ⟨first, kept, by rw [valueItem, valueItem, (Prod.mk.inj parts).1, (Prod.mk.inj parts).2]⟩
  · intro item among
    obtain ⟨value, -, rfl⟩ := List.mem_map.1 among
    rfl

theorem extractService_alike (name : String) (line : ℕ) (elements : List Element)
    (container : String) :
    Alike (serviceItems (extractService name line elements container))
      (elementItems container (.service name line elements)) := by
  apply Alike.of_mem
  · intro item
    rw [serviceItems, elementItems, extractService, List.mem_map, List.mem_map]
    have members : ∀ method, method ∈ dedupBy (fun a b => a == b)
        (sortBy methodOrder (elements.filterMap methodOf)) ↔ method ∈ elements.filterMap methodOf := by
      intro method
      rw [mem_dedupBy, mem_sortBy]
      intro a _ b _ same
      exact eq_of_beq same
    simp only [members]
  · intro item among
    obtain ⟨method, -, rfl⟩ := List.mem_map.1 among
    rfl

theorem partsItems_message (container : String) (seen : Seen) (message : ProtoMessage)
    (rest : Parts) :
    Alike (partsItems container seen (Parts.append { messages := [message] } rest))
      ((if message.fullName ∈ seen.messages then [] else messageItems message) ++
        partsItems container { seen with messages := message.fullName :: seen.messages } rest) := by
  apply Alike.of_perm
  rw [List.perm_iff_count]
  intro item
  simp only [partsItems, Parts.append, List.nil_append, List.cons_append, firstsAfter,
    List.flatMap_append, List.count_append]
  split
  · rw [List.flatMap_nil, List.count_nil]
    omega
  · rw [List.flatMap_singleton]
    omega

theorem partsItems_enum (container : String) (seen : Seen) (enumeration : ProtoEnum) (rest : Parts) :
    Alike (partsItems container seen (Parts.append { enums := [enumeration] } rest))
      ((if enumeration.fullName ∈ seen.enums then [] else enumItems enumeration) ++
        partsItems container { seen with enums := enumeration.fullName :: seen.enums } rest) := by
  apply Alike.of_perm
  rw [List.perm_iff_count]
  intro item
  simp only [partsItems, Parts.append, List.nil_append, List.cons_append, firstsAfter,
    List.flatMap_append, List.count_append]
  split
  · rw [List.flatMap_nil, List.count_nil]
    omega
  · rw [List.flatMap_singleton]
    omega

theorem finishMessage_block {name scope : String} {isExtension : Bool} {line : ℕ}
    {elements : List Element} {parts : Parts} {message : ProtoMessage} (seen : Seen)
    (finished : finishMessage name isExtension line elements scope parts = .ok message)
    (inside : Alike (partsItems (qualifiedName scope name) {} parts)
      (bodyKept (qualifiedName scope name) {} elements).retained) :
    Alike (if qualifiedName scope name ∈ seen.messages then [] else messageItems message)
      (if qualifiedName scope name ∈ seen.messages then
        lose (declaredItems (qualifiedName scope name) elements)
      else bodyKept (qualifiedName scope name) {} elements).retained := by
  split
  · exact Alike.refl []
  · exact (finishMessage_alike finished).trans inside

theorem extractEnum_block (seen : Seen) (name : String) (line : ℕ) (elements : List Element)
    (container : String) :
    Alike (if (extractEnum name line elements container).fullName ∈ seen.enums then []
        else enumItems (extractEnum name line elements container))
      (elementKept container seen (.enumeration name line elements)).retained := by
  change Alike (if qualifiedName container name ∈ seen.enums then [] else _) _
  rw [elementKept]
  split
  · exact Alike.refl []
  · exact extractEnum_alike name line elements container

theorem extractElement_alike {sourcePath : String} {known : KnownTypes} {container : String}
    {element : Element}
    (inner : ∀ {container parts}, extractElements sourcePath known container element.contents = .ok parts →
      Alike (partsItems container {} parts) (bodyKept container {} element.contents).retained)
    {first : Parts} (read : extractElement sourcePath known container element = .ok first)
    (seen : Seen) (rest : Parts) :
    Alike (partsItems container seen (first.append rest))
      ((elementKept container seen element).retained ++
        partsItems container (seen.add container element) rest) := by
  cases element
  all_goals simp only [extractElement, bind_eq_ok, pure_eq_ok, Except.ok.injEq] at read
  case normalField common optional required repeated =>
    obtain ⟨field, single, rfl⟩ := read
    have item := fieldFromCommon_item single
    apply Alike.of_perm
    simp [partsItems, Parts.append, elementKept, elementItems, Seen.add, item]
  case mapField common keyType =>
    obtain ⟨field, single, rfl⟩ := read
    have item := fieldFromCommon_item single
    apply Alike.of_perm
    simp [partsItems, Parts.append, elementKept, elementItems, Seen.add, item]
  case oneof name elements =>
    obtain ⟨fields, several, rfl⟩ := read
    have items := oneofFields_items several
    apply Alike.of_perm
    simp [partsItems, Parts.append, elementKept, Seen.add, items]
  case message name isExtend line elements =>
    obtain ⟨parts, inside, message, finished, rfl⟩ := read
    have named := (finishMessage_eq_ok finished).1
    have block := finishMessage_block seen finished (inner inside)
    refine (partsItems_message container seen message rest).trans ?_
    rw [elementKept, Seen.add, named]
    exact block.append (Alike.refl _)
  case group name sequence optional required repeated line elements =>
    obtain ⟨_, -, parts, inside, message, finished, rfl⟩ := read
    have named := (finishMessage_eq_ok finished).1
    have block := finishMessage_block seen finished (inner inside)
    have first := Alike.refl
      [Item.field container sequence name name (cardinality optional required repeated)]
    refine (first.append (partsItems_message container seen message rest)).trans ?_
    rw [elementKept, Kept.append, Seen.add, named, List.append_assoc]
    exact first.append (block.append (Alike.refl _))
  case enumeration name line elements =>
    subst read
    refine (partsItems_enum container seen _ rest).trans ?_
    rw [Seen.add]
    exact (extractEnum_block seen name line elements container).append (Alike.refl _)
  all_goals
    subst read
    apply Alike.of_perm
    simp [partsItems, Parts.append, elementKept, lose, Seen.add]

theorem extractElements_alike {sourcePath : String} {known : KnownTypes} (elements : List Element) :
    ∀ {container : String} {parts : Parts},
      extractElements sourcePath known container elements = .ok parts →
        ∀ seen, Alike (partsItems container seen parts) (bodyKept container seen elements).retained := by
  induction elements using Element.list_induction with
  | nil =>
    intro container parts read seen
    rw [extractElements] at read
    cases read
    exact Alike.refl []
  | cons element elements inner rest =>
    intro container parts read seen
    rw [extractElements] at read
    simp only [bind_eq_ok, pure_eq_ok] at read
    obtain ⟨first, here, more, later, rfl⟩ := read
    have head := extractElement_alike (fun read => inner read {}) here seen more
    refine head.trans ?_
    rw [bodyKept, Kept.append]
    exact (Alike.refl _).append (rest later _)

/-- The items of the declarations of a file, after those in `seen`. -/
def declarationItems (package : String) (seen : Seen) (parts : FileParts) : List Item :=
  partsItems package seen { messages := parts.messages, enums := parts.enums } ++
    (firstsAfter ProtoService.fullName seen.services parts.services).flatMap serviceItems

theorem extractDeclarations_alike {sourcePath : String} {known : KnownTypes} {package : String}
    {elements : List Element} : ∀ {parts : FileParts},
      extractDeclarations sourcePath known package elements = .ok parts →
        ∀ seen, Alike (declarationItems package seen parts) (fileKept package seen elements).retained := by
  induction elements with
  | nil =>
    intro parts read seen
    cases read
    exact Alike.refl []
  | cons element elements ih =>
    intro parts read seen
    cases element
    all_goals simp only [extractDeclarations, bind_eq_ok, pure_eq_ok] at read
    case message name isExtend line contents =>
      obtain ⟨inside, body, message, finished, more, later, rfl⟩ := read
      have named := (finishMessage_eq_ok finished).1
      have block := finishMessage_block seen finished (extractElements_alike _ body {})
      have head := partsItems_message package seen message
        { messages := more.messages, enums := more.enums }
      rw [fileKept, Kept.append, elementKept, Seen.add]
      rw [named] at head
      refine (head.append (Alike.refl _)).trans ?_
      rw [List.append_assoc]
      exact block.append (ih later _)
    case enumeration name line contents =>
      obtain ⟨more, later, rfl⟩ := read
      have head := partsItems_enum package seen (extractEnum name line contents package)
        { messages := more.messages, enums := more.enums }
      rw [fileKept, Kept.append]
      refine (head.append (Alike.refl _)).trans ?_
      rw [List.append_assoc]
      exact (extractEnum_block seen name line contents package).append (ih later _)
    case service name line contents =>
      obtain ⟨more, later, rfl⟩ := read
      rw [fileKept, Kept.append, declarationItems, firstsAfter, List.flatMap_append]
      refine (Alike.of_perm (List.perm_append_comm_assoc _ _ _)).trans ?_
      refine Alike.append ?_ (ih later (seen.add package (.service name line contents)))
      have methods := extractService_alike name line contents package
      change Alike (List.flatMap serviceItems
        (if qualifiedName package name ∈ seen.services then [] else _)) _
      split
      · exact Alike.refl []
      · rwa [List.flatMap_singleton]
    all_goals exact ih read seen

end Extracted

def keptOf (file : ProtoFile) (elements : List Element) : Kept :=
  fileKept (file.package.getD "") {} elements

theorem fileItems_alike {sourcePath : String} {elements : List Element} {file : ProtoFile}
    (accepted : extractProtobuf sourcePath elements = .ok file) :
    Alike (fileItems file) (keptOf file elements).retained := by
  unfold extractProtobuf at accepted
  simp only [bind_eq_ok, pure_eq_ok] at accepted
  obtain ⟨version, -, package, -, parts, declared, rfl⟩ := accepted
  refine Alike.trans (Alike.of_perm ?_) (extractDeclarations_alike declared {})
  rw [fileItems, flatMap_allOf, declarationItems, partsItems, List.map_nil, List.nil_append]
  have ofMessages := (keepFirst_perm ProtoMessage.fullName parts.messages).flatMap_right
    messageItems
  have ofEnums := (keepFirst_perm ProtoEnum.fullName parts.enums).flatMap_right enumItems
  have ofServices := (keepFirst_perm ProtoService.fullName parts.services).flatMap_right
    serviceItems
  exact (ofMessages.append ofEnums).append ofServices

/-- Every declared item is in the result, and each field is there once. -/
def NothingLost (file : ProtoFile) (elements : List Element) : Prop :=
  ∀ item ∈ declaredItems (file.package.getD "") elements,
    item ∈ fileItems file ∧ (item.isField → (fileItems file).count item = 1)

/-- The result holds every declaration exactly when every item of a dropped one also stands in one
that is kept, and no two that are kept share a field. -/
theorem nothingLost_iff {sourcePath : String} {elements : List Element} {file : ProtoFile}
    (accepted : extractProtobuf sourcePath elements = .ok file) :
    NothingLost file elements ↔
      (∀ item ∈ (keptOf file elements).lost, item ∈ (keptOf file elements).retained) ∧
        ((keptOf file elements).retained.filter Item.isField).Nodup := by
  have alike := fileItems_alike accepted
  have members : ∀ item, item ∈ declaredItems (file.package.getD "") elements ↔
      item ∈ (keptOf file elements).retained ∨ item ∈ (keptOf file elements).lost :=
    fun item => mem_fileKept
  unfold NothingLost
  constructor
  · intro complete
    constructor
    · intro item lost
      exact (alike.mem item).1 (complete item ((members item).2 (Or.inr lost))).1
    · rw [List.nodup_iff_count_eq_one]
      intro item among
      obtain ⟨retained, field⟩ := List.mem_filter.1 among
      rw [List.count_filter field, ← alike.count item field]
      exact (complete item ((members item).2 (Or.inl retained))).2 field
  · rintro ⟨covered, single⟩ item declared
    have retained := ((members item).1 declared).elim id (covered item)
    refine ⟨(alike.mem item).2 retained, fun field => ?_⟩
    rw [alike.count item field, ← List.count_filter field]
    exact List.nodup_iff_count_eq_one.1 single item (List.mem_filter.2 ⟨retained, field⟩)

/-- Messages with fields of one name, an enum of one name in and beside a message, and a service. -/
def plainElements : List Element :=
  [.package "p" 1,
    .message "Foo" false 2 [.normalField ⟨"a", "int32", 1, 3, []⟩ false false false,
      .oneof "choice" [.oneofField ⟨"b", "string", 2, 5, []⟩, .oneofField ⟨"c", "Bar", 3, 6, []⟩],
      .message "Bar" false 8 [.normalField ⟨"a", "int32", 1, 9, []⟩ false false true,
        .mapField ⟨"tags", "string", 2, 10, []⟩ "string"],
      .enumeration "Kind" 12 [.enumField "NONE" 0 13 []]],
    .enumeration "Kind" 16 [.enumField "NONE" 0 17 [], .enumField "SOME" 1 18 []],
    .service "Greeter" 20 [.rpc "Greet" "Foo" "Foo.Bar" false true 21 []]]

theorem nothingLost_iff_plain : ∃ file, extractProtobuf "s" plainElements = .ok file ∧
    (declaredItems "p" plainElements).length = 9 ∧ NothingLost file plainElements := by
  have run : isOkAnd (extractProtobuf "s" plainElements) (fun file =>
      decide ((keptOf file plainElements).lost = [] ∧
        ((keptOf file plainElements).retained.filter Item.isField).Nodup)) = true := by
    decide +kernel
  obtain ⟨file, accepted, test⟩ := isOkAnd_iff.1 run
  obtain ⟨covered, single⟩ := of_decide_eq_true test
  refine ⟨file, accepted, by decide +kernel, (nothingLost_iff accepted).2 ⟨?_, single⟩⟩
  rw [covered]
  exact fun item lost => absurd lost List.not_mem_nil

/-- `message Foo` and, after it, `extend Foo` with a field of its own. -/
def extendedElements : List Element :=
  plainElements ++
    [.message "Foo" true 4 [.normalField ⟨"b", "int32", 100, 5, []⟩ true false false]]

theorem extension_is_lost : ∃ file, extractProtobuf "s" extendedElements = .ok file ∧
    ¬ NothingLost file extendedElements := by
  have run : isOkAnd (extractProtobuf "s" extendedElements) (fun file =>
      (declaredItems (file.package.getD "") extendedElements).any fun item =>
        decide (item ∉ fileItems file)) = true := by
    decide +kernel
  obtain ⟨file, accepted, test⟩ := isOkAnd_iff.1 run
  obtain ⟨item, declared, missing⟩ := List.any_eq_true.1 test
  exact ⟨file, accepted, fun complete => of_decide_eq_true missing (complete item declared).1⟩

end CodeSystemGraph.Protobuf
