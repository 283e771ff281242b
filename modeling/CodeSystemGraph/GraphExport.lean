import CodeSystemGraph.StoreRecords
import CodeSystemGraph.Text
import CodeSystemGraph.XmlReader

/-!
The bounded graph export. Nodes are ordered by stable key and identifier, edges by
identifier, and an edge is exported only with both its ends. How a confidence is
displayed and how records are serialized to JSON are parameters.
-/

namespace CodeSystemGraph.GraphExport

open Ieee Model Ordered Text
open Store (nodeKindName edgeKindName statusName)

def maxExportNodes : ℕ := 100000
def maxExportEdges : ℕ := 1000000
def interfaceSchemaVersion : ℕ := 2
def interfaceResultVersion : ℕ := 2

/-- Evidence without its note. -/
structure EvidenceMetadata where
  id : EvidenceId
  repoId : Option RepoId
  filePath : Option String
  startLine : Option UInt32
  endLine : Option UInt32
  extractor : String
  extractorVersion : String
  provenance : Provenance
  confidence : F32
  observedAtCommit : Option String
  contentHash : Option String
deriving DecidableEq

def EvidenceMetadata.ofEvidence (value : Evidence) : EvidenceMetadata where
  id := value.id
  repoId := value.repoId
  filePath := value.filePath
  startLine := value.startLine
  endLine := value.endLine
  extractor := value.extractor
  extractorVersion := value.extractorVersion
  provenance := value.provenance
  confidence := value.confidence
  observedAtCommit := value.observedAtCommit
  contentHash := value.contentHash

structure ExportEdge where
  edge : Edge
  evidence : List EvidenceMetadata
deriving DecidableEq

structure Warning where
  code : String
  message : String
deriving DecidableEq

inductive InterfaceError
  | duplicateIdentity (entity id : String)
  | invalidBound (name : String) (value maximum : ℕ)
  | serialization (subject : String)
deriving DecidableEq

inductive ExportFormat
  | json | graphMl | markdown
deriving DecidableEq

structure ExportRequest where
  format : ExportFormat
  maxNodes : ℕ
  maxEdges : ℕ

structure ExportReport where
  schemaVersion : ℕ
  resultVersion : ℕ
  format : ExportFormat
  content : String
  exportedNodes : ℕ
  exportedEdges : ℕ
  omittedNodes : ℕ
  omittedEdges : ℕ
  truncated : Bool
  warnings : List Warning
deriving DecidableEq

def validateBound (name : String) (value maximum : ℕ) : Except InterfaceError Unit :=
  if value = 0 ∨ maximum < value then .error (.invalidBound name value maximum) else .ok ()

section Rendering

/-- `escape_xml`: the predefined entities, and no control characters but blanks. -/
def escapeXmlChar (c : Char) : List Char :=
  if c = '\t' ∨ c = '\n' ∨ c = '\r' then [c]
  else if isControl c then ['\uFFFD']
  else Xml.escapeChar c

def escapeXml (value : String) : List Char := value.toList.flatMap escapeXmlChar

def markdownPunctuation : List Char :=
  ['\\', '\x60', '*', '_', '\x7b', '\x7d', '[', ']', '(', ')', '#', '+', '-', '.', '!', '|', '>']

def escapeMarkdownChar (c : Char) : List Char :=
  if c = '\r' ∨ c = '\n' ∨ c = '\t' then [' ']
  else if isControl c then ['\uFFFD']
  else if markdownPunctuation.contains c then ['\\', c]
  else [c]

def escapeMarkdown (value : String) : List Char := value.toList.flatMap escapeMarkdownChar

def evidenceLocation (evidence : EvidenceMetadata) : String :=
  let path := evidence.filePath.getD "<unknown>"
  match evidence.startLine, evidence.endLine with
  | some start, some stop => path ++ ":" ++ start.toNat.repr ++ "-" ++ stop.toNat.repr
  | some start, none => path ++ ":" ++ start.toNat.repr
  | none, _ => path

def locations (evidence : List EvidenceMetadata) : String :=
  String.intercalate "; " (evidence.map evidenceLocation)

variable (display : F32 → String)

/-- `<key id=".." for=".." attr.name=".." attr.type=".."/>` -/
def graphmlKey (id scope type : String) : List Char :=
  "<key id=\"".toList ++ id.toList ++ "\" for=\"".toList ++ scope.toList ++
  "\" attr.name=\"".toList ++ id.toList ++ "\" attr.type=\"".toList ++ type.toList ++ "\"/>\n".toList

def graphmlHeader : List Char :=
  "<?xml version=\"1.0\" encoding=\"UTF-8\"?>".toList ++
  "\n<graphml xmlns=\"http://graphml.graphdrawing.org/xmlns\">\n".toList ++
  graphmlKey "kind" "all" "string" ++ graphmlKey "stable_key" "node" "string" ++
  graphmlKey "label" "node" "string" ++ graphmlKey "status" "edge" "string" ++
  graphmlKey "confidence" "edge" "float" ++ graphmlKey "evidence" "edge" "string" ++
  "<graph id=\"code-system-graph\" edgedefault=\"directed\">\n".toList

/-- `<data key="..">..</data>` -/
def graphmlData (key : String) (value : List Char) : List Char :=
  "<data key=\"".toList ++ key.toList ++ "\">".toList ++ value ++ "</data>".toList

def graphmlNode (node : Node) : List Char :=
  "<node id=\"".toList ++ escapeXml node.id ++ "\">".toList ++
  graphmlData "kind" (escapeXml (nodeKindName node.kind)) ++
  graphmlData "stable_key" (escapeXml node.stableKey) ++
  graphmlData "label" (escapeXml node.label) ++ "</node>\n".toList

def graphmlEdge (item : ExportEdge) : List Char :=
  "<edge id=\"".toList ++ escapeXml item.edge.id ++ "\" source=\"".toList ++
  escapeXml item.edge.source ++ "\" target=\"".toList ++ escapeXml item.edge.target ++
  "\">".toList ++ graphmlData "kind" (escapeXml (edgeKindName item.edge.kind)) ++
  graphmlData "status" (escapeXml (statusName item.edge.status)) ++
  graphmlData "confidence" (display item.edge.confidence).toList ++
  graphmlData "evidence" (escapeXml (locations item.evidence)) ++ "</edge>\n".toList

def renderGraphml (nodes : List Node) (edges : List ExportEdge) : List Char :=
  graphmlHeader ++ nodes.flatMap graphmlNode ++ edges.flatMap (graphmlEdge display) ++
    "</graph>\n</graphml>\n".toList

def markdownRow (cells : List (List Char)) : List Char :=
  "| ".toList ++ " | ".toList.intercalate cells ++ " |\n".toList

def nodeCells (node : Node) : List (List Char) :=
  [escapeMarkdown node.id, escapeMarkdown (nodeKindName node.kind), escapeMarkdown node.stableKey,
    escapeMarkdown node.label]

def edgeCells (item : ExportEdge) : List (List Char) :=
  [escapeMarkdown item.edge.id, escapeMarkdown item.edge.source, escapeMarkdown item.edge.target,
    escapeMarkdown (edgeKindName item.edge.kind), escapeMarkdown (statusName item.edge.status),
    (display item.edge.confidence).toList, escapeMarkdown (locations item.evidence)]

def renderMarkdown (nodes : List Node) (edges : List ExportEdge) : List Char :=
  ("# Code System Graph graph export\n\n## Nodes\n\n" ++
    "| ID | Kind | Stable key | Label |\n|---|---|---|---|\n").toList ++
  nodes.flatMap (fun node => markdownRow (nodeCells node)) ++
  ("\n## Edges\n\n| ID | Source | Target | Kind | Status | Confidence | Evidence |\n" ++
    "|---|---|---|---|---|---:|---|\n").toList ++
  edges.flatMap fun item => markdownRow (edgeCells display item)

end Rendering

section Selection

def nodeOrder (node : Node) : String ×ₗ String := toLex (node.stableKey, node.id)

def warningOrder (warning : Warning) : String ×ₗ String := toLex (warning.code, warning.message)

def selectNodes (maximum : ℕ) (nodes : List Node) : List Node :=
  (sortBy nodeOrder nodes).take maximum

def isEligible (selected : List Node) (edge : Edge) : Bool :=
  (selected.map Node.id).contains edge.source && (selected.map Node.id).contains edge.target

def evidenceForEdge (index : BTreeMap EvidenceId Evidence) (edge : Edge) : List EvidenceMetadata :=
  sortBy EvidenceMetadata.id
    (edge.evidence.filterMap fun id => index[id]?.map EvidenceMetadata.ofEvidence)

def selectEdges (maximum : ℕ) (selected : List Node) (edges : List Edge) : List Edge :=
  (sortBy Edge.id (edges.filter (isEligible selected))).take maximum

def edgeWarnings (nodeIndex : BTreeMap NodeId Node) (evidenceIndex : BTreeMap EvidenceId Evidence)
    (edge : Edge) : List Warning :=
  (if edge.source ∉ nodeIndex ∨ edge.target ∉ nodeIndex then
    [⟨"export.dangling_edge",
      "Edge \x60" ++ edge.id ++ "\x60 was omitted because an endpoint is missing."⟩]
  else []) ++
  (edge.evidence.filter fun id => id ∉ evidenceIndex).map fun id =>
    ⟨"export.evidence_not_observed",
      "Evidence \x60" ++ id ++ "\x60 referenced by edge \x60" ++ edge.id ++ "\x60 was not observed."⟩

end Selection

def renderContent (display : F32 → String)
    (renderJson : List Node → List ExportEdge → Except InterfaceError String) (format : ExportFormat)
    (nodes : List Node) (edges : List ExportEdge) : Except InterfaceError String :=
  match format with
  | .json => renderJson nodes edges
  | .graphMl => .ok (String.ofList (renderGraphml display nodes edges))
  | .markdown => .ok (String.ofList (renderMarkdown display nodes edges))

def exportGraph (display : F32 → String)
    (renderJson : List Node → List ExportEdge → Except InterfaceError String) (nodes : List Node)
    (edges : List Edge) (evidence : List Evidence) (request : ExportRequest) :
    Except InterfaceError ExportReport := do
  validateBound "node export" request.maxNodes maxExportNodes
  validateBound "edge export" request.maxEdges maxExportEdges
  let nodeIndex ← indexBy Node.id (fun node => .duplicateIdentity "node" node.id) nodes
  let _ ← indexBy Edge.id (fun edge => InterfaceError.duplicateIdentity "edge" edge.id) edges
  let evidenceIndex ← indexBy Evidence.id (fun item => .duplicateIdentity "evidence" item.id) evidence
  let selectedNodes := selectNodes request.maxNodes nodes
  let selectedEdges := (selectEdges request.maxEdges selectedNodes edges).map fun edge =>
    (⟨edge, evidenceForEdge evidenceIndex edge⟩ : ExportEdge)
  let warnings := sortDedup warningOrder (edges.flatMap (edgeWarnings nodeIndex evidenceIndex))
  let content ← renderContent display renderJson request.format selectedNodes selectedEdges
  let omittedNodes := nodes.length - selectedNodes.length
  let omittedEdges := edges.length - selectedEdges.length
  pure {
    schemaVersion := interfaceSchemaVersion
    resultVersion := interfaceResultVersion
    format := request.format
    content
    exportedNodes := selectedNodes.length
    exportedEdges := selectedEdges.length
    omittedNodes
    omittedEdges
    truncated := omittedNodes > 0 || omittedEdges > 0
    warnings }

end CodeSystemGraph.GraphExport
