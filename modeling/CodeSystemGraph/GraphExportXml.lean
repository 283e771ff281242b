import CodeSystemGraph.GraphExport
import CodeSystemGraph.XmlReader

/-!
What a reader of XML gets from an exported GraphML document: the exported nodes
and edges.
-/

namespace CodeSystemGraph.GraphExport

open Ieee Model Ordered Text Xml
open Store (nodeKindName edgeKindName statusName)

/-- No control character, U+FFFE or U+FFFF. -/
def Clean (value : String) : Prop :=
  ∀ c ∈ value.toList, isControl c = false ∧ c.toNat ≠ 0xFFFE ∧ c.toNat ≠ 0xFFFF

theorem clean_of_all {value : String} (clean : (value.toList.all fun c =>
    !isControl c && c.toNat != 0xFFFE && c.toNat != 0xFFFF) = true) : Clean value := by
  intro c mem
  have valid := List.all_eq_true.1 clean c mem
  simpa [and_assoc] using valid

/-- Kinds and statuses have names without such characters. -/
theorem clean_names : (∀ kind, Clean (nodeKindName kind)) ∧ (∀ kind, Clean (edgeKindName kind)) ∧
    ∀ status, Clean (statusName status) := by
  refine ⟨fun kind => ?_, fun kind => ?_, fun status => ?_⟩
  · exact clean_of_all (by cases kind <;> decide)
  · exact clean_of_all (by cases kind <;> decide)
  · exact clean_of_all (by cases status <;> decide)

inductive GraphRow
  | node (id kind stableKey label : String)
  | edge (id source target kind status : String)
deriving DecidableEq

section Reader

def textOf : List Tree → List Char
  | [] => []
  | .text content :: trees => content ++ textOf trees
  | .element .. :: trees => textOf trees

def attributeOf (name : String) (attributes : List (List Char × List Char)) : Option String :=
  (attributes.lookup name.toList).map String.ofList

/-- The text of the `data` element with a key. -/
def dataOf (key : String) (children : List Tree) : Option String :=
  children.findSome? fun child => match child with
    | .element name attributes content =>
      if name = "data".toList ∧ attributes.lookup "key".toList = some key.toList then
        some (String.ofList (textOf content))
      else none
    | .text _ => none

def readRow : Tree → Option GraphRow
  | .element name attributes children =>
    if name = "node".toList then do
      some (.node (← attributeOf "id" attributes) (← dataOf "kind" children)
        (← dataOf "stable_key" children) (← dataOf "label" children))
    else if name = "edge".toList then do
      some (.edge (← attributeOf "id" attributes) (← attributeOf "source" attributes)
        (← attributeOf "target" attributes) (← dataOf "kind" children) (← dataOf "status" children))
    else none
  | .text _ => none

def isElement : Tree → Bool
  | .element .. => true
  | .text _ => false

def graphOf (children : List Tree) : Option (List Tree) :=
  children.findSome? fun child => match child with
    | .element name _ content => if name = "graph".toList then some (content.filter isElement) else none
    | .text _ => none

/-- The nodes and edges of the graph of a document, in its order. -/
def readGraph (content : String) : Option (List GraphRow) :=
  match read content.toList with
  | some (.element name _ children) =>
    if name = "graphml".toList then (graphOf children).bind fun rows => rows.mapM readRow else none
  | _ => none

end Reader

section Escapes

theorem escapeXml_eq (value : String) (clean : Clean value) : escapeXml value = escape value.toList := by
  unfold escapeXml escape
  apply List.flatMap_congr
  intro c mem
  have plain := (clean c mem).1
  unfold escapeXmlChar
  split_ifs with space control
  · rcases space with rfl | rfl | rfl <;> exact absurd plain (by decide)
  · exact absurd control (by simp [plain])
  · rfl

theorem isLegal_of_clean {value : String} (clean : Clean value) {c : Char} (mem : c ∈ value.toList) :
    isLegal c = true := by
  obtain ⟨control, lower, upper⟩ := clean c mem
  have scalar := c.valid
  unfold isControl at control
  unfold isLegal
  change c.toNat < 0xD800 ∨ (0xDFFF < c.toNat ∧ c.toNat < 0x110000) at scalar
  simp only [Bool.or_eq_false_iff, decide_eq_false_iff_not, Bool.or_eq_true, Bool.and_eq_true,
    decide_eq_true_eq, beq_iff_eq] at control ⊢
  omega

theorem value_of_clean {value : String} (clean : Clean value) :
    ∀ c ∈ value.toList, normalized c = c ∧ isLegal c = true := by
  intro c mem
  refine ⟨?_, isLegal_of_clean clean mem⟩
  have plain := (clean c mem).1
  unfold normalized isSpace
  split
  · next space =>
    simp only [Bool.or_eq_true, beq_iff_eq] at space
    rcases space with ((rfl | rfl) | rfl) | rfl
    · rfl
    · exact absurd plain (by decide)
    · exact absurd plain (by decide)
    · exact absurd plain (by decide)
  · rfl

end Escapes

section Tokens

def lineBreak : Token := .text ['\n']

def dataTokens (key : String) (value : List Char) : List Token :=
  [.opening "data".toList [("key".toList, key.toList)]] ++
    (if value = [] then [] else [.text value]) ++ [.closing "data".toList]

def nodeTokens (node : Node) : List Token :=
  [.opening "node".toList [("id".toList, node.id.toList)]] ++
    dataTokens "kind" (nodeKindName node.kind).toList ++ dataTokens "stable_key" node.stableKey.toList ++
    dataTokens "label" node.label.toList ++ [.closing "node".toList, lineBreak]

variable (display : F32 → String)

def edgeTokens (item : ExportEdge) : List Token :=
  [.opening "edge".toList [("id".toList, item.edge.id.toList),
      ("source".toList, item.edge.source.toList), ("target".toList, item.edge.target.toList)]] ++
    dataTokens "kind" (edgeKindName item.edge.kind).toList ++
    dataTokens "status" (statusName item.edge.status).toList ++
    dataTokens "confidence" (display item.edge.confidence).toList ++
    dataTokens "evidence" (locations item.evidence).toList ++ [.closing "edge".toList, lineBreak]

def keyToken (id scope type : String) : Token :=
  .single "key".toList [("id".toList, id.toList), ("for".toList, scope.toList),
    ("attr.name".toList, id.toList), ("attr.type".toList, type.toList)]

def headerTokens : List Token :=
  [.opening "graphml".toList
    [("xmlns".toList, "http://graphml.graphdrawing.org/xmlns".toList)], lineBreak] ++
  [keyToken "kind" "all" "string", lineBreak] ++ [keyToken "stable_key" "node" "string", lineBreak] ++
  [keyToken "label" "node" "string", lineBreak] ++ [keyToken "status" "edge" "string", lineBreak] ++
  [keyToken "confidence" "edge" "float", lineBreak] ++
  [keyToken "evidence" "edge" "string", lineBreak] ++
  [.opening "graph".toList [("id".toList, "code-system-graph".toList),
    ("edgedefault".toList, "directed".toList)], lineBreak]

def closingTokens : List Token :=
  [.closing "graph".toList, lineBreak, .closing "graphml".toList, lineBreak]

theorem write_data {key : String} (plain : escape key.toList = key.toList) (value : List Char) :
    (dataTokens key value).flatMap write = graphmlData key (escape value) := by
  unfold dataTokens graphmlData
  split
  · next empty =>
    have none : escape value = [] := by rw [empty]; rfl
    simp [none, write, writeAttribute, plain]
  · simp [write, writeAttribute, plain]

/-- The words that stand in the markup itself. -/
theorem escape_words : ∀ word ∈ ["kind", "stable_key", "label", "status", "confidence", "evidence",
    "all", "node", "edge", "string", "float"], escape word.toList = word.toList := by
  decide +kernel

theorem writeAttribute_plain {name value : String} (plain : escape value.toList = value.toList) :
    writeAttribute (name.toList, value.toList) =
      ' ' :: name.toList ++ "=\"".toList ++ value.toList ++ "\"".toList := by
  rw [writeAttribute, plain]
  simp

theorem write_key {id scope type : String} (plainId : escape id.toList = id.toList)
    (plainScope : escape scope.toList = scope.toList) (plainType : escape type.toList = type.toList) :
    [keyToken id scope type, lineBreak].flatMap write = graphmlKey id scope type := by
  have lineEnd : write lineBreak = ['\n'] := rfl
  unfold keyToken graphmlKey
  rw [List.flatMap_cons, List.flatMap_singleton, lineEnd, write]
  rw [List.flatMap_cons, List.flatMap_cons, List.flatMap_cons, List.flatMap_singleton]
  rw [writeAttribute_plain plainId, writeAttribute_plain plainScope, writeAttribute_plain plainType,
    writeAttribute_plain plainId]
  simp only [List.append_assoc, List.cons_append]
  rfl

theorem write_node {node : Node} (id : Clean node.id) (key : Clean node.stableKey)
    (label : Clean node.label) : (nodeTokens node).flatMap write = graphmlNode node := by
  have begins : write (.opening "node".toList [("id".toList, node.id.toList)]) =
      "<node id=\"".toList ++ escape node.id.toList ++ "\">".toList := by
    simp [write, writeAttribute]
  have ends : [.closing "node".toList, lineBreak].flatMap write = "</node>\n".toList := by decide +kernel
  unfold nodeTokens graphmlNode
  simp only [escapeXml_eq _ (clean_names.1 _), escapeXml_eq _ id, escapeXml_eq _ key, escapeXml_eq _ label,
    List.flatMap_append, List.flatMap_singleton, begins, ends,
    write_data (escape_words "kind" (by simp)),
    write_data (escape_words "stable_key" (by simp)),
    write_data (escape_words "label" (by simp))]

theorem write_edge {item : ExportEdge} (id : Clean item.edge.id) (source : Clean item.edge.source)
    (target : Clean item.edge.target) (evidence : Clean (locations item.evidence))
    (plain : escape (display item.edge.confidence).toList = (display item.edge.confidence).toList) :
    (edgeTokens display item).flatMap write = graphmlEdge display item := by
  have begins : write (.opening "edge".toList [("id".toList, item.edge.id.toList),
      ("source".toList, item.edge.source.toList), ("target".toList, item.edge.target.toList)]) =
        "<edge id=\"".toList ++ escape item.edge.id.toList ++ "\" source=\"".toList ++
          escape item.edge.source.toList ++ "\" target=\"".toList ++ escape item.edge.target.toList ++
          "\">".toList := by
    simp [write, writeAttribute]
  have ends : [.closing "edge".toList, lineBreak].flatMap write = "</edge>\n".toList := by decide +kernel
  unfold edgeTokens graphmlEdge
  simp only [escapeXml_eq _ (clean_names.2.1 _), escapeXml_eq _ (clean_names.2.2 _),
    escapeXml_eq _ id, escapeXml_eq _ source, escapeXml_eq _ target, escapeXml_eq _ evidence,
    List.flatMap_append, List.flatMap_singleton, begins, ends, plain,
    write_data (escape_words "kind" (by simp)),
    write_data (escape_words "status" (by simp)),
    write_data (escape_words "confidence" (by simp)),
    write_data (escape_words "evidence" (by simp))]

theorem write_header : graphmlHeader =
    declaration ++ (write lineBreak ++ headerTokens.flatMap write) := by
  have graphml : "\n<graphml xmlns=\"http://graphml.graphdrawing.org/xmlns\">\n".toList =
      write lineBreak ++ [.opening "graphml".toList
        [("xmlns".toList, "http://graphml.graphdrawing.org/xmlns".toList)], lineBreak].flatMap write := by
    decide +kernel
  have graph : "<graph id=\"code-system-graph\" edgedefault=\"directed\">\n".toList =
      [.opening "graph".toList [("id".toList, "code-system-graph".toList),
        ("edgedefault".toList, "directed".toList)], lineBreak].flatMap write := by
    decide +kernel
  have keys : ∀ id ∈ ["kind", "stable_key", "label", "status", "confidence", "evidence"],
      ∀ scope ∈ ["all", "node", "edge"], ∀ type ∈ ["string", "float"],
        [keyToken id scope type, lineBreak].flatMap write = graphmlKey id scope type := by
    intro id among scope within type listed
    apply write_key
    · exact escape_words id (by revert id; decide)
    · exact escape_words scope (by revert scope; decide)
    · exact escape_words type (by revert type; decide)
  unfold graphmlHeader headerTokens declaration
  simp only [List.flatMap_append, graphml, graph, List.append_assoc, keys, List.mem_cons, true_or,
    or_true]

theorem write_closing : closingTokens.flatMap write = "</graph>\n</graphml>\n".toList := by
  decide +kernel

def bodyTokens (nodes : List Node) (edges : List ExportEdge) : List Token :=
  headerTokens ++ nodes.flatMap nodeTokens ++ edges.flatMap (edgeTokens display) ++ closingTokens

/-- The tokens of a document after its declaration. -/
def documentTokens (nodes : List Node) (edges : List ExportEdge) : List Token :=
  lineBreak :: bodyTokens display nodes edges

def CleanNode (node : Node) : Prop := Clean node.id ∧ Clean node.stableKey ∧ Clean node.label

def CleanEdge (item : ExportEdge) : Prop :=
  Clean item.edge.id ∧ Clean item.edge.source ∧ Clean item.edge.target ∧
    Clean (locations item.evidence)

/-- A number is displayed with letters, digits, points and minus signs. -/
def Plain (display : F32 → String) : Prop :=
  ∀ x, ∀ c ∈ (display x).toList, c.isAlphanum = true ∨ c = '.' ∨ c = '-'

variable {display}

theorem escape_display (plain : Plain display) (x : F32) :
    escape (display x).toList = (display x).toList := by
  have each : ∀ c ∈ (display x).toList, escapeChar c = [c] := by
    intro c mem
    unfold escapeChar
    have letter := plain x c mem
    split_ifs with amp lt gt quot apos
    · exact absurd (amp ▸ letter) (by decide)
    · exact absurd (lt ▸ letter) (by decide)
    · exact absurd (gt ▸ letter) (by decide)
    · exact absurd (quot ▸ letter) (by decide)
    · exact absurd (apos ▸ letter) (by decide)
    · rfl
  rw [escape, List.flatMap_congr each]
  simp

theorem write_document (plain : Plain display) {nodes : List Node} {edges : List ExportEdge}
    (cleanNodes : ∀ node ∈ nodes, CleanNode node) (cleanEdges : ∀ item ∈ edges, CleanEdge item) :
    renderGraphml display nodes edges =
      declaration ++ (documentTokens display nodes edges).flatMap write := by
  have ofNodes : (nodes.flatMap nodeTokens).flatMap write = nodes.flatMap graphmlNode := by
    rw [List.flatMap_assoc]
    apply List.flatMap_congr
    intro node mem
    have clean := cleanNodes node mem
    exact write_node clean.1 clean.2.1 clean.2.2
  have ofEdges : (edges.flatMap (edgeTokens display)).flatMap write =
      edges.flatMap (graphmlEdge display) := by
    rw [List.flatMap_assoc]
    apply List.flatMap_congr
    intro item mem
    have clean := cleanEdges item mem
    exact write_edge display clean.1 clean.2.1 clean.2.2.1 clean.2.2.2 (escape_display plain _)
  rw [renderGraphml, write_header, documentTokens, List.flatMap_cons, bodyTokens,
    List.flatMap_append, List.flatMap_append, List.flatMap_append, ofNodes, ofEdges, write_closing]
  simp only [List.append_assoc]

end Tokens

section Shape

/-- A block of tokens that begins with a tag, holds no two texts side by side, and is writable. -/
structure Block (tokens : List Token) : Prop where
  begins : ∀ token ∈ tokens.head?, token.isText = false
  apart : tokens.IsChain fun a b => a.isText = false ∨ b.isText = false
  writable : ∀ token ∈ tokens, token.Writable

theorem Block.append {first second : List Token} (here : Block first) (there : Block second) :
    Block (first ++ second) := by
  constructor
  · intro token mem
    cases first with
    | nil => exact there.begins token mem
    | cons a first => exact here.begins token mem
  · rw [List.isChain_append]
    exact ⟨here.apart, there.apart, fun _ _ token mem => Or.inr (there.begins token mem)⟩
  · intro token mem
    exact (List.mem_append.1 mem).elim (here.writable token) (there.writable token)

theorem Block.flatMap {α : Type} {tokens : α → List Token} {items : List α}
    (each : ∀ item ∈ items, Block (tokens item)) : Block (items.flatMap tokens) := by
  induction items with
  | nil => exact ⟨by simp, by simp, by simp⟩
  | cons item items ih =>
    rw [List.flatMap_cons]
    exact (each item (List.mem_cons_self ..)).append
      (ih fun other mem => each other (List.mem_cons_of_mem _ mem))

theorem Block.tag {token : Token} (markup : token.isText = false) (valid : token.Writable) :
    Block [token] := by
  constructor
  · intro other mem
    rw [← Option.mem_some.1 mem]
    exact markup
  · exact List.isChain_singleton token
  · intro other mem
    rw [List.mem_singleton.1 mem]
    exact valid

theorem Block.tagText {token : Token} (markup : token.isText = false) (valid : token.Writable)
    {content : List Char} (plain : (Token.text content).Writable) : Block [token, .text content] := by
  constructor
  · intro other mem
    rw [← Option.mem_some.1 mem]
    exact markup
  · rw [List.isChain_cons_cons]
    exact ⟨Or.inl markup, List.isChain_singleton _⟩
  · intro other mem
    rcases List.mem_cons.1 mem with rfl | last
    · exact valid
    · rw [List.mem_singleton.1 last]
      exact plain

/-- The names of the elements and the attributes. -/
theorem name_words : ∀ word ∈ ["graphml", "xmlns", "key", "for", "attr.name", "attr.type", "graph",
    "edgedefault", "node", "edge", "id", "source", "target", "data"], Name word.toList := by
  have words : ["graphml", "xmlns", "key", "for", "attr.name", "attr.type", "graph", "edgedefault",
      "node", "edge", "id", "source", "target", "data"].all
        (fun word => !word.toList.isEmpty && word.toList.all isNameChar) = true := by
    decide +kernel
  exact fun word mem => name_of_all (List.all_eq_true.1 words word mem)

/-- The attribute values that do not depend on the graph. -/
theorem clean_words : ∀ word ∈ ["http://graphml.graphdrawing.org/xmlns", "code-system-graph",
    "directed", "kind", "stable_key", "label", "status", "confidence", "evidence", "all", "node",
    "edge", "string", "float"], ∀ c ∈ word.toList, normalized c = c ∧ isLegal c = true := by
  have words : ["http://graphml.graphdrawing.org/xmlns", "code-system-graph", "directed", "kind",
      "stable_key", "label", "status", "confidence", "evidence", "all", "node", "edge", "string",
      "float"].all (fun word => word.toList.all fun c => normalized c == c && isLegal c) = true := by
    decide +kernel
  intro word mem c inside
  have valid := List.all_eq_true.1 (List.all_eq_true.1 words word mem) c inside
  simpa using valid

theorem writable_lineBreak : lineBreak.Writable := ⟨by decide, List.all_eq_true.1 (by decide)⟩

theorem Block.data {key : String} (plain : ∀ c ∈ key.toList, normalized c = c ∧ isLegal c = true)
    {value : List Char} (legal : ∀ c ∈ value, isLegal c = true) : Block (dataTokens key value) := by
  have named : Name "data".toList := name_words "data" (by simp)
  have keyed : ∀ pair ∈ [("key".toList, key.toList)], Attribute pair := by
    intro pair mem
    rw [List.mem_singleton.1 mem]
    exact ⟨name_words "key" (by simp), plain⟩
  have opens : (Token.opening "data".toList [("key".toList, key.toList)]).Writable := ⟨named, keyed⟩
  have closes : Block [.closing "data".toList] := Block.tag rfl named
  unfold dataTokens
  split
  · exact (Block.tag rfl opens).append closes
  · next nonempty => exact (Block.tagText rfl opens ⟨nonempty, legal⟩).append closes

theorem legal_display {display : F32 → String} (plain : Plain display) (x : F32) :
    ∀ c ∈ (display x).toList, isLegal c = true := by
  intro c mem
  apply isLegal_of_isNameChar
  rcases plain x c mem with letter | rfl | rfl
  · rw [isNameChar, letter]
    rfl
  · rfl
  · rfl

theorem block_node {node : Node} (clean : CleanNode node) : Block (nodeTokens node) := by
  have named : Name "node".toList := name_words "node" (by simp)
  have keyed : ∀ pair ∈ [("id".toList, node.id.toList)], Attribute pair := by
    intro pair mem
    rw [List.mem_singleton.1 mem]
    exact ⟨name_words "id" (by simp), value_of_clean clean.1⟩
  have opens : Block [.opening "node".toList [("id".toList, node.id.toList)]] :=
    Block.tag rfl ⟨named, keyed⟩
  have closes : (Token.closing "node".toList).Writable := named
  unfold nodeTokens
  exact (((opens.append (Block.data (clean_words "kind" (by simp)) fun c mem => isLegal_of_clean (clean_names.1 _) mem)).append
    (Block.data (clean_words "stable_key" (by simp)) fun _ => isLegal_of_clean clean.2.1)).append
    (Block.data (clean_words "label" (by simp)) fun _ => isLegal_of_clean clean.2.2)).append
    (Block.tagText rfl closes writable_lineBreak)

theorem block_edge {display : F32 → String} (plain : Plain display) {item : ExportEdge}
    (clean : CleanEdge item) : Block (edgeTokens display item) := by
  have named : Name "edge".toList := name_words "edge" (by simp)
  have keyed : ∀ pair ∈ [("id".toList, item.edge.id.toList), ("source".toList, item.edge.source.toList),
      ("target".toList, item.edge.target.toList)], Attribute pair := by
    rw [List.forall_mem_cons, List.forall_mem_cons, List.forall_mem_singleton]
    exact ⟨⟨name_words "id" (by simp), value_of_clean clean.1⟩,
      ⟨name_words "source" (by simp), value_of_clean clean.2.1⟩,
      ⟨name_words "target" (by simp), value_of_clean clean.2.2.1⟩⟩
  have opens : Block [.opening "edge".toList [("id".toList, item.edge.id.toList),
      ("source".toList, item.edge.source.toList), ("target".toList, item.edge.target.toList)]] :=
    Block.tag rfl ⟨named, keyed⟩
  have closes : (Token.closing "edge".toList).Writable := named
  unfold edgeTokens
  exact ((((opens.append (Block.data (clean_words "kind" (by simp)) fun c mem => isLegal_of_clean (clean_names.2.1 _) mem)).append
    (Block.data (clean_words "status" (by simp)) fun c mem => isLegal_of_clean (clean_names.2.2 _) mem)).append
    (Block.data (clean_words "confidence" (by simp)) (legal_display plain _))).append
    (Block.data (clean_words "evidence" (by simp)) fun _ => isLegal_of_clean clean.2.2.2)).append
    (Block.tagText rfl closes writable_lineBreak)

theorem block_key {id scope type : String} (plainId : ∀ c ∈ id.toList, normalized c = c ∧ isLegal c = true)
    (plainScope : ∀ c ∈ scope.toList, normalized c = c ∧ isLegal c = true)
    (plainType : ∀ c ∈ type.toList, normalized c = c ∧ isLegal c = true) : Block [keyToken id scope type, lineBreak] := by
  have keyed : ∀ pair ∈ [("id".toList, id.toList), ("for".toList, scope.toList),
      ("attr.name".toList, id.toList), ("attr.type".toList, type.toList)], Attribute pair := by
    rw [List.forall_mem_cons, List.forall_mem_cons, List.forall_mem_cons, List.forall_mem_singleton]
    exact ⟨⟨name_words "id" (by simp), plainId⟩, ⟨name_words "for" (by simp), plainScope⟩,
      ⟨name_words "attr.name" (by simp), plainId⟩, ⟨name_words "attr.type" (by simp), plainType⟩⟩
  have valid : (keyToken id scope type).Writable := ⟨name_words "key" (by simp), keyed⟩
  exact Block.tagText rfl valid writable_lineBreak

theorem block_header : Block headerTokens := by
  have graphml : (Token.opening "graphml".toList
      [("xmlns".toList, "http://graphml.graphdrawing.org/xmlns".toList)]).Writable := by
    refine ⟨name_words "graphml" (by simp), ?_⟩
    rw [List.forall_mem_singleton]
    exact ⟨name_words "xmlns" (by simp), clean_words _ (List.mem_cons_self ..)⟩
  have graph : (Token.opening "graph".toList [("id".toList, "code-system-graph".toList),
      ("edgedefault".toList, "directed".toList)]).Writable := by
    refine ⟨name_words "graph" (by simp), ?_⟩
    rw [List.forall_mem_cons, List.forall_mem_singleton]
    exact ⟨⟨name_words "id" (by simp), clean_words "code-system-graph" (by simp)⟩,
      ⟨name_words "edgedefault" (by simp), clean_words "directed" (by simp)⟩⟩
  have keys : ∀ id ∈ ["kind", "stable_key", "label", "status", "confidence", "evidence"],
      ∀ scope ∈ ["all", "node", "edge"], ∀ type ∈ ["string", "float"],
        Block [keyToken id scope type, lineBreak] := by
    intro id among scope within type listed
    apply block_key
    · exact clean_words id (by revert id; decide)
    · exact clean_words scope (by revert scope; decide)
    · exact clean_words type (by revert type; decide)
  unfold headerTokens
  exact (((((((Block.tagText rfl graphml writable_lineBreak).append
    (keys "kind" (by simp) "all" (by simp) "string" (by simp))).append
    (keys "stable_key" (by simp) "node" (by simp) "string" (by simp))).append
    (keys "label" (by simp) "node" (by simp) "string" (by simp))).append
    (keys "status" (by simp) "edge" (by simp) "string" (by simp))).append
    (keys "confidence" (by simp) "edge" (by simp) "float" (by simp))).append
    (keys "evidence" (by simp) "edge" (by simp) "string" (by simp))).append
    (Block.tagText rfl graph writable_lineBreak)

theorem block_closing : Block closingTokens := by
  have graph : (Token.closing "graph".toList).Writable := name_words "graph" (by simp)
  have graphml : (Token.closing "graphml".toList).Writable := name_words "graphml" (by simp)
  unfold closingTokens
  exact (Block.tagText rfl graph writable_lineBreak).append (Block.tagText rfl graphml writable_lineBreak)

variable {display : F32 → String} {nodes : List Node} {edges : List ExportEdge}

theorem block_body (plain : Plain display) (cleanNodes : ∀ node ∈ nodes, CleanNode node)
    (cleanEdges : ∀ item ∈ edges, CleanEdge item) : Block (bodyTokens display nodes edges) :=
  ((block_header.append (Block.flatMap fun node mem => block_node (cleanNodes node mem))).append
    (Block.flatMap fun item mem => block_edge plain (cleanEdges item mem))).append block_closing

end Shape

section Trees

def dataTree (key : String) (value : List Char) : Tree :=
  .element "data".toList [("key".toList, key.toList)] (if value = [] then [] else [.text value])

def nodeTree (node : Node) : Tree :=
  .element "node".toList [("id".toList, node.id.toList)]
    [dataTree "kind" (nodeKindName node.kind).toList, dataTree "stable_key" node.stableKey.toList,
      dataTree "label" node.label.toList]

variable (display : F32 → String)

def edgeTree (item : ExportEdge) : Tree :=
  .element "edge".toList [("id".toList, item.edge.id.toList), ("source".toList, item.edge.source.toList),
      ("target".toList, item.edge.target.toList)]
    [dataTree "kind" (edgeKindName item.edge.kind).toList,
      dataTree "status" (statusName item.edge.status).toList,
      dataTree "confidence" (display item.edge.confidence).toList,
      dataTree "evidence" (locations item.evidence).toList]

def lineTree : Tree := .text ['\n']

def keyTree (id scope type : String) : Tree :=
  .element "key".toList [("id".toList, id.toList), ("for".toList, scope.toList),
    ("attr.name".toList, id.toList), ("attr.type".toList, type.toList)] []

def keyTrees : List Tree :=
  [lineTree, keyTree "kind" "all" "string", lineTree, keyTree "stable_key" "node" "string", lineTree,
    keyTree "label" "node" "string", lineTree, keyTree "status" "edge" "string", lineTree,
    keyTree "confidence" "edge" "float", lineTree, keyTree "evidence" "edge" "string", lineTree]

def graphTree (rows : List Tree) : Tree :=
  .element "graph".toList
    [("id".toList, "code-system-graph".toList), ("edgedefault".toList, "directed".toList)] rows

def rowTrees (nodes : List Node) (edges : List ExportEdge) : List Tree :=
  nodes.flatMap (fun node => [nodeTree node, lineTree]) ++
    edges.flatMap fun item => [edgeTree display item, lineTree]

variable {display}

theorem build_data (key : String) (value : List Char) (tokens : List Token) (frame : Frame)
    (outer : List Frame) :
    build (dataTokens key value ++ tokens) frame outer =
      build tokens (frame.push (dataTree key value)) outer := by
  unfold dataTokens dataTree
  split
  · next empty => simp [build]
  · next nonempty => simp [build, Frame.push]

theorem build_node (node : Node) (tokens : List Token) (frame : Frame) (outer : List Frame) :
    build (nodeTokens node ++ tokens) frame outer =
      build tokens ((frame.push (nodeTree node)).push lineTree) outer := by
  unfold nodeTokens nodeTree lineBreak lineTree
  simp only [List.append_assoc, List.cons_append, List.nil_append, build, build_data, Frame.push,
    if_true]

theorem build_edge (item : ExportEdge) (tokens : List Token) (frame : Frame) (outer : List Frame) :
    build (edgeTokens display item ++ tokens) frame outer =
      build tokens ((frame.push (edgeTree display item)).push lineTree) outer := by
  unfold edgeTokens edgeTree lineBreak lineTree
  simp only [List.append_assoc, List.cons_append, List.nil_append, build, build_data, Frame.push,
    if_true]

/-- Blocks that each add their trees to the open element. -/
theorem build_flatMap {α : Type} {block : α → List Token} {tree : α → List Tree}
    (each : ∀ item tokens frame outer, build (block item ++ tokens) frame outer =
      build tokens { frame with children := frame.children ++ tree item } outer)
    (items : List α) (tokens : List Token) (frame : Frame) (outer : List Frame) :
    build (items.flatMap block ++ tokens) frame outer =
      build tokens { frame with children := frame.children ++ items.flatMap tree } outer := by
  induction items generalizing frame with
  | nil => simp
  | cons item items ih =>
    rw [List.flatMap_cons, List.append_assoc, each, ih, List.flatMap_cons]
    simp only [List.append_assoc]

theorem build_rows (nodes : List Node) (edges : List ExportEdge) (tokens : List Token) (frame : Frame)
    (outer : List Frame) :
    build (nodes.flatMap nodeTokens ++ (edges.flatMap (edgeTokens display) ++ tokens)) frame outer =
      build tokens { frame with children := frame.children ++ rowTrees display nodes edges } outer := by
  have ofNodes := @build_flatMap _ nodeTokens (fun node => [nodeTree node, lineTree])
    fun node tokens frame outer => by rw [build_node]; simp [Frame.push]
  have ofEdges := @build_flatMap _ (edgeTokens display) (fun item => [edgeTree display item, lineTree])
    fun item tokens frame outer => by rw [build_edge]; simp [Frame.push]
  rw [ofNodes, ofEdges, rowTrees, List.append_assoc]

theorem build_key (id scope type : String) (tokens : List Token) (frame : Frame) (outer : List Frame) :
    build ([keyToken id scope type, lineBreak] ++ tokens) frame outer =
      build tokens ((frame.push (keyTree id scope type)).push lineTree) outer := rfl

theorem build_opening (name : List Char) (attributes : List (List Char × List Char))
    (tokens : List Token) (frame : Frame) (outer : List Frame) :
    build ([.opening name attributes, lineBreak] ++ tokens) frame outer =
      build tokens ⟨name, attributes, [lineTree]⟩ (frame :: outer) := rfl

theorem build_closing (name : List Char) (attributes : List (List Char × List Char))
    (children : List Tree) (tokens : List Token) (parent : Frame) (outer : List Frame) :
    build ([.closing name, lineBreak] ++ tokens) ⟨name, attributes, children⟩ (parent :: outer) =
      build tokens ((parent.push (.element name attributes children)).push lineTree) outer := by
  simp [build, lineBreak, lineTree]

theorem build_document (nodes : List Node) (edges : List ExportEdge) :
    build (documentTokens display nodes edges) {} [] =
      some [lineTree, .element "graphml".toList
        [("xmlns".toList, "http://graphml.graphdrawing.org/xmlns".toList)]
        (keyTrees ++ [graphTree (lineTree :: rowTrees display nodes edges), lineTree]), lineTree] := by
  have closes : closingTokens = [.closing "graph".toList, lineBreak] ++
      ([.closing "graphml".toList, lineBreak] ++ []) := rfl
  unfold documentTokens bodyTokens headerTokens
  rw [closes]
  simp only [List.append_assoc]
  rw [lineBreak, build, ← lineBreak]
  rw [build_opening, build_key, build_key, build_key, build_key, build_key, build_key, build_opening,
    build_rows, build_closing]
  simp only [Frame.push, List.nil_append, List.cons_append]
  rw [build, if_pos rfl, lineBreak, build, build]
  rfl

end Trees

section Rows

variable {display : F32 → String}

def nodeRow (node : Node) : GraphRow :=
  .node node.id (nodeKindName node.kind) node.stableKey node.label

def edgeRow (edge : Edge) : GraphRow :=
  .edge edge.id edge.source edge.target (edgeKindName edge.kind) (statusName edge.status)

theorem dataOf_here (key : String) (value : List Char) (trees : List Tree) :
    dataOf key (dataTree key value :: trees) = some (String.ofList value) := by
  have content : textOf (if value = [] then [] else [.text value]) = value := by
    split
    · next empty => rw [empty]; rfl
    · simp [textOf]
  simp [dataOf, dataTree, content]

theorem dataOf_later {key other : String} (differ : other ≠ key) (value : List Char)
    (trees : List Tree) : dataOf key (dataTree other value :: trees) = dataOf key trees := by
  simp [dataOf, dataTree, String.toList_inj, differ]

theorem readRow_node (node : Node) : readRow (nodeTree node) = some (nodeRow node) := by
  have id : attributeOf "id" [("id".toList, node.id.toList)] = some node.id := by
    simp [attributeOf]
  rw [nodeTree, readRow, if_pos rfl, id, dataOf_here, dataOf_later (by decide), dataOf_here,
    dataOf_later (by decide), dataOf_later (by decide), dataOf_here]
  simp [nodeRow]

theorem readRow_edge (item : ExportEdge) :
    readRow (edgeTree display item) = some (edgeRow item.edge) := by
  have other : "edge".toList ≠ "node".toList := by decide
  have id : attributeOf "id" [("id".toList, item.edge.id.toList),
      ("source".toList, item.edge.source.toList), ("target".toList, item.edge.target.toList)] =
        some item.edge.id := by
    simp [attributeOf]
  have source : attributeOf "source" [("id".toList, item.edge.id.toList),
      ("source".toList, item.edge.source.toList), ("target".toList, item.edge.target.toList)] =
        some item.edge.source := by
    simp [attributeOf, List.lookup_cons]
  have target : attributeOf "target" [("id".toList, item.edge.id.toList),
      ("source".toList, item.edge.source.toList), ("target".toList, item.edge.target.toList)] =
        some item.edge.target := by
    simp [attributeOf, List.lookup_cons]
  rw [edgeTree, readRow, if_neg other, if_pos rfl, id, source, target, dataOf_here,
    dataOf_later (by decide), dataOf_here]
  simp [edgeRow]

theorem rows_filter (nodes : List Node) (edges : List ExportEdge) :
    (lineTree :: rowTrees display nodes edges).filter isElement =
      nodes.map nodeTree ++ edges.map (edgeTree display) := by
  have ofNodes : (nodes.flatMap fun node => [nodeTree node, lineTree]).filter isElement =
      nodes.map nodeTree := by
    induction nodes with
    | nil => rfl
    | cons node nodes ih =>
      rw [List.flatMap_cons, List.filter_append, ih]
      rfl
  have ofEdges : (edges.flatMap fun item => [edgeTree display item, lineTree]).filter isElement =
      edges.map (edgeTree display) := by
    induction edges with
    | nil => rfl
    | cons item edges ih =>
      rw [List.flatMap_cons, List.filter_append, ih]
      rfl
  rw [rowTrees, List.filter_cons_of_neg (by decide), List.filter_append, ofNodes, ofEdges]

theorem graphOf_document (rows : List Tree) :
    graphOf (keyTrees ++ [graphTree rows, lineTree]) = some (rows.filter isElement) := by
  have other : "key".toList ≠ "graph".toList := by decide
  simp only [graphOf, keyTrees, keyTree, lineTree, graphTree, List.cons_append, List.nil_append,
    List.findSome?_cons, if_neg other, if_true]

theorem readGraph_render (plain : Plain display) {nodes : List Node} {edges : List ExportEdge}
    (cleanNodes : ∀ node ∈ nodes, CleanNode node) (cleanEdges : ∀ item ∈ edges, CleanEdge item) :
    readGraph (String.ofList (renderGraphml display nodes edges)) =
      some (nodes.map nodeRow ++ edges.map fun item => edgeRow item.edge) := by
  have block := block_body plain cleanNodes cleanEdges
  have valid : ∀ token ∈ documentTokens display nodes edges, token.Writable :=
    List.forall_mem_cons.2 ⟨writable_lineBreak, block.writable⟩
  have apart : (documentTokens display nodes edges).IsChain
      fun a b => a.isText = false ∨ b.isText = false := by
    rw [documentTokens, List.isChain_cons]
    exact ⟨fun token mem => Or.inr (block.begins token mem), block.apart⟩
  have rows : (nodes.map nodeTree ++ edges.map (edgeTree display)).mapM readRow =
      some (nodes.map nodeRow ++ edges.map fun item => edgeRow item.edge) := by
    rw [List.mapM_append, mapM_map fun node _ => readRow_node node,
      mapM_map fun item _ => readRow_edge item]
    rfl
  have found : root [lineTree, .element "graphml".toList
        [("xmlns".toList, "http://graphml.graphdrawing.org/xmlns".toList)]
        (keyTrees ++ [graphTree (lineTree :: rowTrees display nodes edges), lineTree]), lineTree] =
      some (.element "graphml".toList
        [("xmlns".toList, "http://graphml.graphdrawing.org/xmlns".toList)]
        (keyTrees ++ [graphTree (lineTree :: rowTrees display nodes edges), lineTree])) := rfl
  unfold readGraph
  rw [String.toList_ofList, write_document plain cleanNodes cleanEdges, read_write valid apart,
    build_document, Option.bind_some, found]
  simp only [if_true, graphOf_document, Option.bind_some, rows_filter, rows]

end Rows

end CodeSystemGraph.GraphExport
