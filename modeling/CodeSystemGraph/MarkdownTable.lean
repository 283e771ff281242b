import CodeSystemGraph.Text

/-!
A reader of pipe tables whose cells have one blank of padding on each side. A row
is split at each `|` that no backslash escapes; then the escapes are removed.
-/

namespace CodeSystemGraph.Markdown

open Text

section Reader

def isPunctuation (c : Char) : Bool :=
  let n := c.toNat
  (0x21 ≤ n && n ≤ 0x2F) || (0x3A ≤ n && n ≤ 0x40) || (0x5B ≤ n && n ≤ 0x60) ||
    (0x7B ≤ n && n ≤ 0x7E)

def unescape : List Char → List Char
  | [] => []
  | [c] => [c]
  | c :: d :: rest =>
    if c = '\\' ∧ isPunctuation d = true then d :: unescape rest else c :: unescape (d :: rest)

def splitRow : Bool → List Char → List (List Char)
  | _, [] => [[]]
  | true, c :: rest => (splitRow false rest).modifyHead (c :: ·)
  | false, c :: rest =>
    if c = '|' then [] :: splitRow false rest
    else (splitRow (c == '\\') rest).modifyHead (c :: ·)

def unpad (piece : List Char) : List Char :=
  let piece := (stripPrefix [' '] piece).getD piece
  (stripSuffix [' '] piece).getD piece

/-- The cells of a row: what stands before its first and after its last pipe is left out. -/
def readCells (line : List Char) : List (List Char) :=
  ((splitRow false line).tail.dropLast).map fun piece => unescape (unpad piece)

def isRow (line : List Char) : Bool := line.head? == some '|'

/-- The rows of each table, without its heading and the line under it. -/
def readTables (text : List Char) : List (List (List (List Char))) :=
  (((text.splitOn '\n').splitOnP fun line => !isRow line).filter (· ≠ [])).map fun rows =>
    (rows.drop 2).map readCells

end Reader

section Cells

/-- Text without a free pipe and without a backslash that escapes nothing in it. -/
inductive Cell : List Char → Prop
  | nil : Cell []
  | plain {c : Char} {rest : List Char} (pipe : c ≠ '|') (backslash : c ≠ '\\') (later : Cell rest) :
    Cell (c :: rest)
  | escape {c : Char} {rest : List Char} (later : Cell rest) : Cell ('\\' :: c :: rest)

theorem Cell.append {first second : List Char} (here : Cell first) (there : Cell second) :
    Cell (first ++ second) := by
  induction here with
  | nil => exact there
  | plain pipe backslash later ih => exact Cell.plain pipe backslash ih
  | escape later ih => exact Cell.escape ih

theorem Cell.of_plain {text : List Char} (plain : ∀ c ∈ text, c ≠ '|' ∧ c ≠ '\\') : Cell text := by
  induction text with
  | nil => exact Cell.nil
  | cons c text ih =>
    have here := plain c (List.mem_cons_self ..)
    exact Cell.plain here.1 here.2 (ih fun d mem => plain d (List.mem_cons_of_mem _ mem))

theorem splitRow_cell {cell : List Char} (closed : Cell cell) (rest : List Char) :
    splitRow false (cell ++ '|' :: rest) = cell :: splitRow false rest := by
  induction closed with
  | nil => simp [splitRow]
  | @plain c text pipe backslash later ih =>
    have other : (c == '\\') = false := by simpa using backslash
    rw [List.cons_append, splitRow, if_neg pipe, other, ih]
    rfl
  | @escape c text later ih =>
    rw [List.cons_append, List.cons_append, splitRow, if_neg (by decide)]
    have slash : ('\\' == '\\') = true := rfl
    rw [slash, splitRow, ih]
    rfl

def pad (cell : List Char) : List Char := ' ' :: cell ++ [' ']

theorem unpad_pad (cell : List Char) : unpad (pad cell) = cell := by
  have first : stripPrefix [' '] (' ' :: (cell ++ [' '])) = some (cell ++ [' ']) :=
    stripPrefix_eq_some.2 rfl
  have last : stripSuffix [' '] (cell ++ [' ']) = some cell := stripSuffix_eq_some.2 rfl
  simp only [unpad, pad, List.cons_append, first, Option.getD_some, last]

theorem Cell.pad {cell : List Char} (closed : Cell cell) : Cell (pad cell) :=
  Cell.plain (by decide) (by decide)
    (closed.append (Cell.plain (by decide) (by decide) Cell.nil))

def writeRow (cells : List (List Char)) : List Char :=
  '|' :: cells.flatMap fun cell => pad cell ++ ['|']

theorem splitRow_cells {cells : List (List Char)} (closed : ∀ cell ∈ cells, Cell cell) :
    splitRow false (cells.flatMap fun cell => pad cell ++ ['|']) = cells.map pad ++ [[]] := by
  induction cells with
  | nil => rfl
  | cons cell cells ih =>
    have later := ih fun other mem => closed other (List.mem_cons_of_mem _ mem)
    rw [List.flatMap_cons, List.append_assoc, List.singleton_append,
      splitRow_cell (closed cell (List.mem_cons_self ..)).pad, later]
    rfl

theorem readCells_write {cells : List (List Char)} (closed : ∀ cell ∈ cells, Cell cell) :
    readCells (writeRow cells) = cells.map unescape := by
  unfold readCells writeRow
  rw [splitRow, if_pos rfl, splitRow_cells closed, List.tail_cons, List.dropLast_concat, List.map_map]
  apply List.map_congr_left
  intro cell mem
  rw [Function.comp_apply, unpad_pad]

end Cells

section Lines

def writeLines (lines : List (List Char)) : List Char := lines.flatMap (· ++ ['\n'])

theorem splitOn_lines {lines : List (List Char)} (free : ∀ line ∈ lines, '\n' ∉ line) :
    (writeLines lines).splitOn '\n' = lines ++ [[]] := by
  unfold writeLines
  induction lines with
  | nil => rfl
  | cons line lines ih =>
    have later := ih fun other mem => free other (List.mem_cons_of_mem _ mem)
    have here : ∀ c ∈ line, (c == '\n') = false := by
      intro c mem
      have differ : c ≠ '\n' := fun same => free line (List.mem_cons_self ..) (same ▸ mem)
      simpa using differ
    rw [List.splitOn_eq_splitOnP] at later ⊢
    rw [List.flatMap_cons, List.append_assoc, List.singleton_append,
      List.splitOnP_append_cons_of_forall_mem here '\n' rfl, later]
    rfl

def groups (lines : List (List Char)) : List (List (List Char)) :=
  (lines.splitOnP fun line => !isRow line).filter (· ≠ [])

theorem groups_gap {gap : List (List Char)} (none : ∀ line ∈ gap, isRow line = false)
    (rest : List (List Char)) : groups (gap ++ rest) = groups rest := by
  induction gap with
  | nil => rfl
  | cons line gap ih =>
    have here : (!isRow line) = true := by rw [none line (List.mem_cons_self ..)]; rfl
    rw [List.cons_append, groups, List.splitOnP_cons_eq_if_modifyHead, if_pos here, List.filter_cons_of_neg (by simp)]
    exact ih fun other mem => none other (List.mem_cons_of_mem _ mem)

theorem groups_rows {rows : List (List Char)} (each : ∀ line ∈ rows, isRow line = true)
    (nonempty : rows ≠ []) {line : List Char} (ends : isRow line = false) (rest : List (List Char)) :
    groups (rows ++ line :: rest) = rows :: groups rest := by
  have inside : ∀ row ∈ rows, (!isRow row) = false := by
    intro row mem
    rw [each row mem]
    rfl
  have last : (!isRow line) = true := by rw [ends]; rfl
  rw [groups, List.splitOnP_append_cons_of_forall_mem inside line last,
    List.filter_cons_of_pos (by simpa using nonempty)]
  rfl

theorem readTables_eq {lines : List (List Char)} (free : ∀ line ∈ lines, '\n' ∉ line) :
    readTables (writeLines lines) =
      (groups (lines ++ [[]])).map fun rows => (rows.drop 2).map readCells := by
  rw [readTables, splitOn_lines free]
  rfl

end Lines

end CodeSystemGraph.Markdown
