import CodeSystemGraph.GraphExportXml
import CodeSystemGraph.MarkdownTable

/-!
What a reader of pipe tables gets from an exported Markdown document: the exported
nodes and edges.
-/

namespace CodeSystemGraph.GraphExport

open Ieee Model Ordered Text Markdown
open Store (nodeKindName edgeKindName statusName)

section Reader

def nodeOfCells : List (List Char) → Option GraphRow
  | [id, kind, stableKey, label] =>
    some (.node (String.ofList id) (String.ofList kind) (String.ofList stableKey) (String.ofList label))
  | _ => none

/-- The columns of the confidence and the evidence are left out. -/
def edgeOfCells : List (List Char) → Option GraphRow
  | [id, source, target, kind, status, _, _] =>
    some (.edge (String.ofList id) (String.ofList source) (String.ofList target) (String.ofList kind)
      (String.ofList status))
  | _ => none

/-- The nodes of the first table, then the edges of the second. -/
def readMarkdown (content : String) : Option (List GraphRow) :=
  match readTables content.toList with
  | [nodes, edges] => do
    let nodes ← nodes.mapM nodeOfCells
    let edges ← edges.mapM edgeOfCells
    some (nodes ++ edges)
  | _ => none

end Reader

section Escapes

theorem escapeMarkdownChar_clean {c : Char} (plain : isControl c = false) :
    escapeMarkdownChar c = if markdownPunctuation.contains c then ['\\', c] else [c] := by
  have space : ¬ (c = '\r' ∨ c = '\n' ∨ c = '\t') := by
    rintro (rfl | rfl | rfl)
    · exact absurd plain (by decide)
    · exact absurd plain (by decide)
    · exact absurd plain (by decide)
  rw [escapeMarkdownChar, if_neg space, if_neg (by simp [plain])]

theorem isPunctuation_of_markdown {c : Char} (mem : markdownPunctuation.contains c = true) :
    isPunctuation c = true := by
  have listed : c ∈ markdownPunctuation := by simpa using mem
  exact List.all_eq_true.1 (by decide) c listed

theorem cell_escape {text : List Char} (plain : ∀ c ∈ text, isControl c = false) :
    Cell (text.flatMap escapeMarkdownChar) := by
  induction text with
  | nil => exact Cell.nil
  | cons c text ih =>
    have later := ih fun d mem => plain d (List.mem_cons_of_mem _ mem)
    rw [List.flatMap_cons, escapeMarkdownChar_clean (plain c (List.mem_cons_self ..))]
    split
    · exact Cell.escape later
    · next other =>
      have free : c ∉ markdownPunctuation := by simpa using other
      apply Cell.plain ?_ ?_ later
      · rintro rfl
        exact free (by decide)
      · rintro rfl
        exact free (by decide)

theorem unescape_plain {c : Char} (plain : c ≠ '\\') (rest : List Char) :
    unescape (c :: rest) = c :: unescape rest := by
  cases rest with
  | nil => rfl
  | cons d rest => rw [unescape, if_neg fun both => plain both.1]

theorem unescape_escape {text : List Char} (plain : ∀ c ∈ text, isControl c = false) :
    unescape (text.flatMap escapeMarkdownChar) = text := by
  induction text with
  | nil => rfl
  | cons c text ih =>
    have later := ih fun d mem => plain d (List.mem_cons_of_mem _ mem)
    rw [List.flatMap_cons, escapeMarkdownChar_clean (plain c (List.mem_cons_self ..))]
    split
    · next listed =>
      rw [List.cons_append, List.singleton_append, unescape,
        if_pos ⟨rfl, isPunctuation_of_markdown listed⟩, later]
    · next other =>
      have free : c ∉ markdownPunctuation := by simpa using other
      have slash : c ≠ '\\' := by
        rintro rfl
        exact free (by decide)
      rw [List.singleton_append, unescape_plain slash, later]

/-- An escaped text stays on its line. -/
theorem newline_escape (value : String) : '\n' ∉ escapeMarkdown value := by
  intro mem
  obtain ⟨c, -, inside⟩ := List.mem_flatMap.1 mem
  unfold escapeMarkdownChar at inside
  split_ifs at inside with space control listed
  · revert inside; decide
  · revert inside; decide
  · have same : '\n' = c := by simpa using inside
    rw [← same] at listed
    revert listed
    decide
  · have same : '\n' = c := by simpa using inside
    exact space (Or.inr (Or.inl same.symm))

def CleanCell (text cell : List Char) : Prop := Cell cell ∧ '\n' ∉ cell ∧ unescape cell = text

theorem CleanCell.escape {value : String} (clean : Clean value) :
    CleanCell value.toList (escapeMarkdown value) :=
  ⟨cell_escape fun c mem => (clean c mem).1, newline_escape value,
    unescape_escape fun c mem => (clean c mem).1⟩

end Escapes

section Rows

variable (display : F32 → String)

def nodeLine (node : Node) : List Char := writeRow (nodeCells node)

def edgeLine (item : ExportEdge) : List Char := writeRow (edgeCells display item)

theorem intercalate_cells (cell : List Char) (cells : List (List Char)) :
    ' ' :: (" | ".toList.intercalate (cell :: cells) ++ " |".toList) =
      (cell :: cells).flatMap fun cell => pad cell ++ ['|'] := by
  induction cells generalizing cell with
  | nil => simp [pad]
  | cons next cells ih =>
    have later := ih next
    rw [List.flatMap_cons, ← later, List.intercalate_cons_cons]
    simp [pad]

theorem markdownRow_eq (cell : List Char) (cells : List (List Char)) :
    markdownRow (cell :: cells) = writeRow (cell :: cells) ++ ['\n'] := by
  rw [writeRow, ← intercalate_cells, markdownRow]
  simp

variable {display}

theorem readCells_node {node : Node} (clean : CleanNode node) :
    nodeOfCells (readCells (nodeLine node)) = some (nodeRow node) := by
  have id := CleanCell.escape clean.1
  have kind := CleanCell.escape (clean_names.1 node.kind)
  have key := CleanCell.escape clean.2.1
  have label := CleanCell.escape clean.2.2
  have closed : ∀ cell ∈ nodeCells node, Cell cell := by
    simp only [nodeCells, List.forall_mem_cons]
    exact ⟨id.1, kind.1, key.1, label.1, List.forall_mem_nil _⟩
  rw [nodeLine, readCells_write closed, nodeCells]
  simp [nodeOfCells, nodeRow, id.2.2, kind.2.2, key.2.2, label.2.2]

theorem display_plain (plain : Plain display) (x : F32) :
    ∀ c ∈ (display x).toList, (c ≠ '|' ∧ c ≠ '\\') ∧ c ≠ '\n' := by
  intro c mem
  have letter := plain x c mem
  refine ⟨⟨?_, ?_⟩, ?_⟩
  all_goals
    rintro rfl
    revert letter
    decide

theorem cell_display (plain : Plain display) (x : F32) :
    Cell (display x).toList ∧ '\n' ∉ (display x).toList :=
  ⟨Cell.of_plain fun c mem => (display_plain plain x c mem).1,
    fun mem => (display_plain plain x _ mem).2 rfl⟩

theorem readCells_edge (plain : Plain display) {item : ExportEdge} (clean : CleanEdge item) :
    edgeOfCells (readCells (edgeLine display item)) = some (edgeRow item.edge) := by
  have id := CleanCell.escape clean.1
  have source := CleanCell.escape clean.2.1
  have target := CleanCell.escape clean.2.2.1
  have kind := CleanCell.escape (clean_names.2.1 item.edge.kind)
  have status := CleanCell.escape (clean_names.2.2 item.edge.status)
  have evidence := CleanCell.escape clean.2.2.2
  have closed : ∀ cell ∈ edgeCells display item, Cell cell := by
    simp only [edgeCells, List.forall_mem_cons]
    exact ⟨id.1, source.1, target.1, kind.1, status.1, (cell_display plain _).1, evidence.1,
      List.forall_mem_nil _⟩
  rw [edgeLine, readCells_write closed, edgeCells]
  simp [edgeOfCells, edgeRow, id.2.2, source.2.2, target.2.2, kind.2.2, status.2.2]

theorem newline_row {cells : List (List Char)} (free : ∀ cell ∈ cells, '\n' ∉ cell) :
    '\n' ∉ writeRow cells := by
  intro mem
  simp only [writeRow, pad, List.mem_cons, List.mem_flatMap, List.mem_append, List.cons_append,
    List.not_mem_nil, or_false] at mem
  rcases mem with pipe | ⟨cell, listed, blank | (inside | blank) | pipe⟩
  · exact absurd pipe (by decide)
  · exact absurd blank (by decide)
  · exact free cell listed inside
  · exact absurd blank (by decide)
  · exact absurd pipe (by decide)

theorem newline_node (node : Node) : '\n' ∉ nodeLine node := by
  apply newline_row
  simp only [nodeCells, List.forall_mem_cons]
  exact ⟨newline_escape _, newline_escape _, newline_escape _, newline_escape _, List.forall_mem_nil _⟩

theorem newline_edge (plain : Plain display) (item : ExportEdge) : '\n' ∉ edgeLine display item := by
  apply newline_row
  simp only [edgeCells, List.forall_mem_cons]
  exact ⟨newline_escape _, newline_escape _, newline_escape _, newline_escape _, newline_escape _,
    (cell_display plain _).2, newline_escape _, List.forall_mem_nil _⟩

end Rows

section Document

def frontLines : List (List Char) :=
  ["# Code System Graph graph export".toList, [], "## Nodes".toList, []]

def nodeHead : List (List Char) :=
  ["| ID | Kind | Stable key | Label |".toList, "|---|---|---|---|".toList]

def middleLines : List (List Char) := [[], "## Edges".toList, []]

def edgeHead : List (List Char) :=
  ["| ID | Source | Target | Kind | Status | Confidence | Evidence |".toList,
    "|---|---|---|---|---|---:|---|".toList]

variable (display : F32 → String)

def documentLines (nodes : List Node) (edges : List ExportEdge) : List (List Char) :=
  frontLines ++ ((nodeHead ++ nodes.map nodeLine) ++
    (middleLines ++ (edgeHead ++ edges.map (edgeLine display))))

theorem write_front : ("# Code System Graph graph export\n\n## Nodes\n\n" ++
    "| ID | Kind | Stable key | Label |\n|---|---|---|---|\n").toList =
      writeLines (frontLines ++ nodeHead) := by
  rw [String.toList_append]
  simp [writeLines, frontLines, nodeHead]

theorem write_middle :
    ("\n## Edges\n\n| ID | Source | Target | Kind | Status | Confidence | Evidence |\n" ++
      "|---|---|---|---|---|---:|---|\n").toList = writeLines (middleLines ++ edgeHead) := by
  rw [String.toList_append]
  simp [writeLines, middleLines, edgeHead]

theorem render_lines (nodes : List Node) (edges : List ExportEdge) :
    renderMarkdown display nodes edges = writeLines (documentLines display nodes edges) := by
  have ofNodes : nodes.flatMap (fun node => markdownRow (nodeCells node)) =
      writeLines (nodes.map nodeLine) := by
    unfold writeLines nodeLine nodeCells
    simp only [markdownRow_eq, List.flatMap_map]
  have ofEdges : edges.flatMap (fun item => markdownRow (edgeCells display item)) =
      writeLines (edges.map (edgeLine display)) := by
    unfold writeLines edgeLine edgeCells
    simp only [markdownRow_eq, List.flatMap_map]
  unfold renderMarkdown documentLines
  rw [write_front, write_middle, ofNodes, ofEdges]
  simp only [writeLines, List.flatMap_append, List.append_assoc]

variable {display}

theorem newline_document (plain : Plain display) (nodes : List Node) (edges : List ExportEdge) :
    ∀ line ∈ documentLines display nodes edges, '\n' ∉ line := by
  have heads : ∀ line ∈ frontLines ++ nodeHead ++ middleLines ++ edgeHead, '\n' ∉ line := by
    decide +kernel
  intro line mem
  simp only [documentLines, List.mem_append, List.mem_map] at mem
  rcases mem with front | (head | ⟨node, -, rfl⟩) | middle | head | ⟨item, -, rfl⟩
  · exact heads line (by simp [front])
  · exact heads line (by simp [head])
  · exact newline_node node
  · exact heads line (by simp [middle])
  · exact heads line (by simp [head])
  · exact newline_edge plain item

theorem groups_document (nodes : List Node) (edges : List ExportEdge) :
    groups (documentLines display nodes edges ++ [[]]) =
      [nodeHead ++ nodes.map nodeLine, edgeHead ++ edges.map (edgeLine display)] := by
  have front : ∀ line ∈ frontLines, isRow line = false := by decide +kernel
  have middle : ∀ line ∈ middleLines, isRow line = false := by decide +kernel
  have ofNodes : ∀ line ∈ nodeHead ++ nodes.map nodeLine, isRow line = true := by
    intro line mem
    simp only [List.mem_append, List.mem_map] at mem
    rcases mem with head | ⟨node, -, rfl⟩
    · revert line
      decide +kernel
    · rfl
  have ofEdges : ∀ line ∈ edgeHead ++ edges.map (edgeLine display), isRow line = true := by
    intro line mem
    simp only [List.mem_append, List.mem_map] at mem
    rcases mem with head | ⟨item, -, rfl⟩
    · revert line
      decide +kernel
    · rfl
  have shape : documentLines display nodes edges ++ [[]] =
      frontLines ++ ((nodeHead ++ nodes.map nodeLine) ++ [] :: (middleLines.tail ++
        ((edgeHead ++ edges.map (edgeLine display)) ++ [] :: []))) := by
    simp [documentLines, middleLines]
  rw [shape, groups_gap front, groups_rows ofNodes (by simp [nodeHead]) rfl,
    groups_gap fun line mem => middle line (List.mem_of_mem_tail mem),
    groups_rows ofEdges (by simp [edgeHead]) rfl]
  rfl

/-- An exported Markdown document is read back as its nodes and its edges. -/
theorem readMarkdown_render (plain : Plain display) {nodes : List Node} {edges : List ExportEdge}
    (cleanNodes : ∀ node ∈ nodes, CleanNode node) (cleanEdges : ∀ item ∈ edges, CleanEdge item) :
    readMarkdown (String.ofList (renderMarkdown display nodes edges)) =
      some (nodes.map nodeRow ++ edges.map fun item => edgeRow item.edge) := by
  have ofNodes : ((nodes.map nodeLine).map readCells).mapM nodeOfCells = some (nodes.map nodeRow) := by
    rw [List.map_map]
    exact mapM_map fun node mem => readCells_node (cleanNodes node mem)
  have ofEdges : ((edges.map (edgeLine display)).map readCells).mapM edgeOfCells =
      some (edges.map fun item => edgeRow item.edge) := by
    rw [List.map_map]
    exact mapM_map fun item mem => readCells_edge plain (cleanEdges item mem)
  unfold readMarkdown
  rw [String.toList_ofList, render_lines, readTables_eq (newline_document plain nodes edges),
    groups_document]
  simp only [List.map_cons, List.map_nil, nodeHead, edgeHead, List.cons_append, List.nil_append,
    List.drop_succ_cons, List.drop_zero, ofNodes, ofEdges, Option.bind_some, Option.bind_eq_bind]

end Document

end CodeSystemGraph.GraphExport
