import CodeSystemGraph.ChangePatch

/-! Decoding what Git prints. A patch is rendered from its sections and hunks, and
the decoder is run on it line by line: each section's hunks reach their file, with
the positions of those lines that it does not take for file headers. -/

namespace CodeSystemGraph.Changes
open Model Ordered Text

section Source

/-! What Git prints. Texts are any bytes without a line feed. -/

abbrev LineText := { text : Bytes // (10 : UInt8) ∉ text }

/-- One hunk; each side may end in a marker for a missing line feed, and a count of
one may be left out. -/
structure HunkSource where
  oldStart : Nat
  newStart : Nat
  removed : List LineText
  added : List LineText
  heading : Option LineText
  removedMarker : Bool
  addedMarker : Bool
  abbreviated : Bool
  oldFits : oldStart < u32Values ∧ removed.length < u32Values ∧ oldStart + removed.length ≤ u32Values
  newFits : newStart < u32Values ∧ added.length < u32Values ∧ newStart + added.length ≤ u32Values

def headerMarkers : List String :=
  ["old mode ", "new mode ", "deleted file mode ", "new file mode ", "copy from ", "copy to ",
    "rename from ", "rename to ", "similarity index ", "dissimilarity index ", "index ",
    "Binary files ", "--- ", "+++ "]

structure HeaderLine where
  marker : String
  text : LineText
  known : marker ∈ headerMarkers

structure FileSource where
  paths : LineText
  header : List HeaderLine
  hunks : List HunkSource

def rangeText (abbreviated : Bool) (start count : Nat) : List Char :=
  if abbreviated && count = 1 then Nat.toDigits 10 start
  else Nat.toDigits 10 start ++ ',' :: Nat.toDigits 10 count

namespace HunkSource

variable (source : HunkSource)

def oldRange : List Char := '-' :: rangeText source.abbreviated source.oldStart source.removed.length

def newRange : List Char := '+' :: rangeText source.abbreviated source.newStart source.added.length

def headerText : List Char :=
  ['@', '@'] ++ ' ' :: (source.oldRange ++ ' ' :: (source.newRange ++ ' ' :: ['@', '@']))

def headerLine : Bytes :=
  encode source.headerText ++ source.heading.elim [] fun text => encode [' '] ++ text.val

def lines : List Bytes :=
  source.headerLine ::
    (source.removed.map (fun text => bytes "-" ++ text.val) ++
      (if source.removedMarker then [bytes "\\ No newline at end of file"] else []) ++
      (source.added.map (fun text => bytes "+" ++ text.val) ++
        (if source.addedMarker then [bytes "\\ No newline at end of file"] else [])))

end HunkSource

def FileSource.lines (source : FileSource) : List Bytes :=
  (bytes "diff --git " ++ source.paths.val) ::
    (source.header.map (fun line => bytes line.marker ++ line.text.val) ++
      source.hunks.flatMap HunkSource.lines)

def renderPatch (sources : List FileSource) : Bytes :=
  (sources.flatMap FileSource.lines).flatMap fun line => line ++ [10]

def position : ChangedLineKind → Nat → ChangedLine
  | .removed, line => ⟨.removed, some line, none⟩
  | .added, line => ⟨.added, none, some line⟩

def numbered (kind : ChangedLineKind) (start count : Nat) : List ChangedLine :=
  (List.range count).map fun k => position kind (start + k)

/-- The hunk that a header announces, with the lines that follow it. -/
def HunkSource.hunkWith (source : HunkSource) (lines : List ChangedLine) : ChangeHunk where
  oldStart := source.oldStart
  oldCount := source.removed.length
  newStart := source.newStart
  newCount := source.added.length
  lines := lines

def HunkSource.hunk (source : HunkSource) : ChangeHunk :=
  source.hunkWith (numbered .removed source.oldStart source.removed.length ++
    numbered .added source.newStart source.added.length)

def HunkSource.HeadingIsText (source : HunkSource) : Prop :=
  ∀ text ∈ source.heading, text.val.toByteArray.IsValidUTF8

instance (source : HunkSource) : Decidable source.HeadingIsText :=
  inferInstanceAs (Decidable (∀ text ∈ source.heading, text.val.toByteArray.IsValidUTF8))

/-- What no line of a hunk may look like: a removed text that continues its `-` to
`---`, an added one that continues its `+` to `+++`, or a heading that is not text. -/
def HunkSource.Decodable (source : HunkSource) : Prop :=
  (∀ text ∈ source.removed, ¬bytes "--" <+: text.val) ∧
    (∀ text ∈ source.added, ¬bytes "++" <+: text.val) ∧ source.HeadingIsText

end Source

section Rendering

theorem not_mem_encode {text : List Char} (ascii : ∀ c ∈ text, c.toNat < 128 ∧ c ≠ '\n') :
    (10 : UInt8) ∉ encode text := by
  intro mem
  obtain ⟨c, hc, here⟩ := List.mem_flatMap.mp mem
  obtain ⟨low, other⟩ := ascii c hc
  have small : c.utf8Size = 1 :=
    Char.utf8Size_eq_one_iff.mpr (UInt32.le_iff_toNat_le.mpr (Nat.le_of_lt_succ low))
  rw [String.utf8EncodeChar_eq_singleton small, List.mem_singleton] at here
  refine other (Char.ext (UInt32.toNat_inj.mp ?_))
  have code : c.val.toNat % 256 = 10 := by
    rw [← UInt32.toNat_toUInt8, ← here]
    rfl
  have low : c.val.toNat < 128 := low
  show c.val.toNat = 10
  omega

theorem splitInclusive_lines {lines : List Bytes} (free : ∀ line ∈ lines, (10 : UInt8) ∉ line) :
    splitInclusive (lines.flatMap fun line => line ++ [10]) = lines.map (· ++ [10]) := by
  induction lines with
  | nil => rfl
  | cons line lines ih =>
    rw [List.forall_mem_cons] at free
    rw [List.flatMap_cons, List.append_assoc, List.singleton_append, splitInclusive_line free.1,
      ih free.2, List.map_cons]

theorem isDigit_or_comma {abbreviated : Bool} {start count : Nat} {c : Char}
    (mem : c ∈ rangeText abbreviated start count) : c.isDigit = true ∨ c = ',' := by
  unfold rangeText at mem
  split at mem
  · exact .inl (isDigit_of_mem mem)
  · rcases List.mem_append.mp mem with mem | mem
    · exact .inl (isDigit_of_mem mem)
    · rcases List.mem_cons.mp mem with rfl | mem
      · exact .inr rfl
      · exact .inl (isDigit_of_mem mem)

theorem parseRange_rangeText (abbreviated : Bool) {start count : Nat} (sign : Char)
    (fits : start < u32Values) (counted : count < u32Values) :
    parseRange (sign :: rangeText abbreviated start count) sign = .ok (start, count) := by
  have strip : ∀ text, stripPrefix [sign] (sign :: text) = some text := by simp [stripPrefix]
  have digits : ',' ∉ Nat.toDigits 10 start := fun mem => absurd (isDigit_of_mem mem) (by decide)
  by_cases short : (abbreviated && decide (count = 1)) = true
  · have text : rangeText abbreviated start count = Nat.toDigits 10 start := if_pos short
    obtain rfl : count = 1 := by simpa using And.right (Bool.and_eq_true_iff.mp short)
    simp [parseRange, strip, text, orMalformed, splitOnce_of_not_mem digits,
      parseUnsigned_toDigits fits, show parseUnsigned u32Values ['1'] = some 1 from by decide,
      bind, pure, Except.bind, Except.pure]
  · have text : rangeText abbreviated start count =
        Nat.toDigits 10 start ++ ',' :: Nat.toDigits 10 count := if_neg short
    simp [parseRange, strip, text, orMalformed, splitOnce_append digits,
      parseUnsigned_toDigits fits, parseUnsigned_toDigits counted, bind, pure, Except.bind,
      Except.pure]

theorem field_chars {sign c : Char} {abbreviated : Bool} {start count : Nat}
    (mem : c ∈ sign :: rangeText abbreviated start count) : c = sign ∨ c.isDigit = true ∨ c = ',' :=
  (List.mem_cons.mp mem).imp_right isDigit_or_comma

theorem isAsciiWhitespace_field {sign c : Char} {abbreviated : Bool} {start count : Nat}
    (visible : isAsciiWhitespace sign = false)
    (mem : c ∈ sign :: rangeText abbreviated start count) : isAsciiWhitespace c = false := by
  rcases field_chars mem with rfl | digit | rfl
  · exact visible
  · have other : c ≠ ' ' ∧ c ≠ '\t' ∧ c ≠ '\n' ∧ c ≠ '\x0c' ∧ c ≠ '\r' := by
      refine ⟨?_, ?_, ?_, ?_, ?_⟩ <;> rintro rfl <;> exact absurd digit (by decide)
    simp [isAsciiWhitespace, other]
  · decide

theorem splitAsciiWhitespace_header (source : HunkSource) (rest : List Char) :
    (splitAsciiWhitespace (source.headerText ++ rest)).take 3 =
      [['@', '@'], source.oldRange, source.newRange] := by
  have old : ∀ c ∈ source.oldRange, isAsciiWhitespace c = false := fun c mem =>
    isAsciiWhitespace_field (by decide) mem
  have new : ∀ c ∈ source.newRange, isAsciiWhitespace c = false := fun c mem =>
    isAsciiWhitespace_field (by decide) mem
  have text : source.headerText ++ rest = ['@', '@'] ++ ' ' ::
      (source.oldRange ++ ' ' :: (source.newRange ++ ' ' :: (['@', '@'] ++ rest))) := by
    simp [HunkSource.headerText]
  rw [text, splitAsciiWhitespace_field (by simp) (by simp [isAsciiWhitespace]),
    splitAsciiWhitespace_field (by simp [HunkSource.oldRange]) old,
    splitAsciiWhitespace_field (by simp [HunkSource.newRange]) new]
  rfl

theorem parseHunkHeader_text {line : Bytes} {source : HunkSource} (rest : List Char)
    (decoded : fromUtf8 line = some (source.headerText ++ rest)) :
    parseHunkHeader line = .ok (source.hunkWith []) := by
  have fields := splitAsciiWhitespace_header source rest
  have field : ∀ k < 3, (splitAsciiWhitespace (source.headerText ++ rest))[k]? =
      [['@', '@'], source.oldRange, source.newRange][k]? := by
    intro k within
    rw [← fields, List.getElem?_take, if_pos within]
  have old := parseRange_rangeText source.abbreviated '-' source.oldFits.1
    source.oldFits.2.1
  have new := parseRange_rangeText source.abbreviated '+' source.newFits.1
    source.newFits.2.1
  simp [parseHunkHeader, decoded, orMalformed, field, HunkSource.oldRange, HunkSource.newRange,
    old, new, HunkSource.hunkWith, bind, pure, Except.bind, Except.pure]

theorem parseHunkHeader_headerLine (source : HunkSource) :
    parseHunkHeader (source.headerLine ++ [10]) =
      if source.HeadingIsText then .ok (source.hunkWith [])
      else malformed "non-ASCII hunk header" := by
  have decoded := fromUtf8_encode_append source.headerText
    (source.heading.elim [] (fun text => encode [' '] ++ text.val) ++ [10])
  rw [← List.append_assoc] at decoded
  cases heading : source.heading with
  | none =>
    rw [if_pos (by simp [HunkSource.HeadingIsText, heading])]
    refine parseHunkHeader_text ['\n'] ?_
    rw [HunkSource.headerLine, decoded, heading]
    rfl
  | some text =>
    rw [heading, Option.elim_some] at decoded
    have spaced := fromUtf8_encode_append [' '] (text.val ++ [10])
    rw [← List.append_assoc] at spaced
    by_cases valid : text.val.toByteArray.IsValidUTF8
    · rw [if_pos (by simpa [HunkSource.HeadingIsText, heading] using valid)]
      obtain ⟨chars, read⟩ := Option.ne_none_iff_exists'.mp fun none =>
        fromUtf8_eq_none.mp none (isValidUTF8_line.mpr valid)
      refine parseHunkHeader_text (' ' :: chars) ?_
      rw [HunkSource.headerLine, heading, Option.elim_some, decoded, spaced, read]
      rfl
    · rw [if_neg (by simpa [HunkSource.HeadingIsText, heading] using valid)]
      have none : fromUtf8 (text.val ++ [10]) = none :=
        fromUtf8_eq_none.mpr fun ok => valid (isValidUTF8_line.mp ok)
      rw [parseHunkHeader, HunkSource.headerLine, heading, Option.elim_some, decoded, spaced, none]
      rfl

end Rendering

section Lines

/-- The byte before a changed line. -/
def sign : ChangedLineKind → Bytes
  | .removed => bytes "-"
  | .added => bytes "+"

/-- What a text starts with that the decoder takes for a file header. -/
def doubled : ChangedLineKind → Bytes
  | .removed => bytes "--"
  | .added => bytes "++"

def Decoder.cursor (state : Decoder) : ChangedLineKind → Nat
  | .removed => state.oldLine
  | .added => state.newLine

def Decoder.record (state : Decoder) (hunk : ChangeHunk) (kind : ChangedLineKind) : Decoder :=
  let hunk := { hunk with lines := hunk.lines ++ [position kind (state.cursor kind)] }
  match kind with
  | .removed => { state with currentHunk := some hunk, oldLine := saturatingAdd state.oldLine 1 }
  | .added => { state with currentHunk := some hunk, newLine := saturatingAdd state.newLine 1 }

theorem bytes_diff : bytes "diff --git " = [100, 105, 102, 102, 32, 45, 45, 103, 105, 116, 32] := by
  decide

theorem bytes_hunk : bytes "@@ " = [64, 64, 32] := by decide

theorem bytes_minus : bytes "-" = [45] := by decide

theorem bytes_plus : bytes "+" = [43] := by decide

theorem bytes_minuses : bytes "---" = [45, 45, 45] := by decide

theorem bytes_pluses : bytes "+++" = [43, 43, 43] := by decide

theorem bytes_two_minuses : bytes "--" = [45, 45] := by decide

theorem bytes_two_pluses : bytes "++" = [43, 43] := by decide

theorem bytes_space : bytes " " = [32] := by decide

theorem twice_isPrefixOf {byte : UInt8} (visible : byte ≠ 10) (text : Bytes) :
    [byte, byte].isPrefixOf (text ++ [10]) = decide ([byte, byte] <+: text) := by
  match text with
  | [] => simp [List.isPrefixOf]
  | [first] => simp [List.isPrefixOf, visible]
  | first :: second :: rest => simp [List.isPrefixOf, Bool.beq_eq_decide_eq]

theorem patchLine_changed {state : Decoder} {hunk : ChangeHunk} (here : state.currentHunk = some hunk)
    (kind : ChangedLineKind) (text : Bytes) :
    patchLine state (sign kind ++ text ++ [10]) =
      .ok (if doubled kind <+: text then state else state.record hunk kind) := by
  cases kind with
  | removed =>
    have plain := twice_isPrefixOf (show (45 : UInt8) ≠ 10 by decide) text
    by_cases hidden : [45, 45] <+: text <;>
      simp [patchLine, sign, doubled, bytes_diff, bytes_hunk, bytes_minus, here, changedLine,
        bytes_plus, bytes_minuses, bytes_two_minuses, bytes_space, plain, hidden, Decoder.record,
        Decoder.cursor, position, pure, Except.pure]
  | added =>
    have plain := twice_isPrefixOf (show (43 : UInt8) ≠ 10 by decide) text
    by_cases hidden : [43, 43] <+: text <;>
      simp [patchLine, sign, doubled, bytes_diff, bytes_hunk, bytes_minus, here, changedLine,
        bytes_plus, bytes_pluses, bytes_two_pluses, bytes_space, plain, hidden, Decoder.record,
        Decoder.cursor, position, pure, Except.pure]

theorem patchLine_noNewline {state : Decoder} {hunk : ChangeHunk}
    (here : state.currentHunk = some hunk) :
    patchLine state (bytes "\\ No newline at end of file" ++ [10]) = .ok state := by
  have text : bytes "\\ No newline at end of file" = 92 :: (bytes " No newline at end of file") := by
    decide
  simp [patchLine, text, bytes_diff, bytes_hunk, here, changedLine, bytes_plus, bytes_minus,
    bytes_space, pure, Except.pure]

theorem numbered_succ (kind : ChangedLineKind) (start count : Nat) :
    numbered kind start (count + 1) = position kind start :: numbered kind (start + 1) count := by
  simp [numbered, List.range_succ_eq_map, Nat.add_assoc, Nat.add_comm 1]

theorem cursor_record (state : Decoder) (hunk : ChangeHunk) (kind : ChangedLineKind) :
    (state.record hunk kind).cursor kind = saturatingAdd (state.cursor kind) 1 := by
  cases kind <;> rfl

theorem cursor_record_other (state : Decoder) (hunk : ChangeHunk) {kind other : ChangedLineKind}
    (different : other ≠ kind) : (state.record hunk kind).cursor other = state.cursor other := by
  cases kind <;> cases other <;> first | rfl | exact absurd rfl different

theorem currentHunk_record (state : Decoder) (hunk : ChangeHunk) (kind : ChangedLineKind) :
    (state.record hunk kind).currentHunk =
      some { hunk with lines := hunk.lines ++ [position kind (state.cursor kind)] } := by
  cases kind <;> rfl

/-- The lines of one side of a hunk: those whose text is not doubled are counted. -/
theorem foldlM_changed (kind : ChangedLineKind) {texts : List LineText} :
    ∀ {state : Decoder} {hunk : ChangeHunk}, state.currentHunk = some hunk →
      state.cursor kind + texts.length ≤ u32Values →
      ∃ state', (texts.map fun text => sign kind ++ text.val ++ [10]).foldlM patchLine state = .ok state' ∧
        state'.files = state.files ∧ state'.fileIndex = state.fileIndex ∧
        state'.currentHunk = some { hunk with
          lines := hunk.lines ++ numbered kind (state.cursor kind)
            (texts.countP fun text => ¬doubled kind <+: text.val) } ∧
        ∀ other ≠ kind, state'.cursor other = state.cursor other := by
  induction texts with
  | nil =>
    intro state hunk here fits
    exact ⟨state, rfl, rfl, rfl, by simp [here, numbered], fun _ _ => rfl⟩
  | cons text texts ih =>
    intro state hunk here fits
    rw [List.map_cons, List.foldlM_cons, patchLine_changed here]
    by_cases hidden : doubled kind <+: text.val
    · rw [if_pos hidden]
      obtain ⟨state', run, files, index, current, others⟩ :=
        ih here (by simp only [List.length_cons] at fits; omega)
      exact ⟨state', run, files, index, by simpa [hidden] using current, others⟩
    · rw [if_neg hidden]
      rw [List.length_cons] at fits
      have next := cursor_record state hunk kind
      obtain ⟨state', run, files, index, current, others⟩ := ih (currentHunk_record state hunk kind)
        (by rw [next, saturatingAdd]; omega)
      refine ⟨state', run, files.trans ?_, index.trans ?_, ?_, fun other different =>
        (others other different).trans (cursor_record_other state hunk different)⟩
      · cases kind <;> rfl
      · cases kind <;> rfl
      · -- The next number saturates only when no line is left to take it.
        have number : numbered kind (saturatingAdd (state.cursor kind) 1)
              (texts.countP fun text => ¬doubled kind <+: text.val) =
            numbered kind (state.cursor kind + 1)
              (texts.countP fun text => ¬doubled kind <+: text.val) := by
          cases texts with
          | nil => rfl
          | cons text texts =>
            rw [List.length_cons] at fits
            rw [show saturatingAdd (state.cursor kind) 1 = state.cursor kind + 1 by
              rw [saturatingAdd]; omega]
        rw [current, next, number, List.countP_cons_of_pos (by simpa using hidden), numbered_succ]
        simp

end Lines

section Runs

/-- The hunk that the decoder reads. -/
def HunkSource.decoded (source : HunkSource) : ChangeHunk :=
  source.hunkWith
    (numbered .removed source.oldStart
        (source.removed.countP fun text => ¬doubled .removed <+: text.val) ++
      numbered .added source.newStart
        (source.added.countP fun text => ¬doubled .added <+: text.val))

def pushHunks (index : Nat) (hunks : List ChangeHunk) (files : List ChangedFile) : List ChangedFile :=
  files.modify index fun file => { file with hunks := file.hunks ++ hunks }

/-- The decoder is in a section; closing the open hunk leaves the files. -/
structure Decoder.Flushes (state : Decoder) (index : Nat) (files : List ChangedFile) : Prop where
  index : state.fileIndex = some index
  finish : finishHunk state.files state.fileIndex state.currentHunk = .ok files

theorem foldlM_marker {state : Decoder} {hunk : ChangeHunk} (here : state.currentHunk = some hunk)
    (marker : Bool) :
    ((if marker then [bytes "\\ No newline at end of file"] else []).map (· ++ [10])).foldlM patchLine
      state = .ok state := by
  cases marker with
  | false => rfl
  | true => simp [patchLine_noNewline here, bind, pure, Except.bind, Except.pure]

theorem headerLine_prefix (source : HunkSource) : bytes "@@ " <+: source.headerLine := by
  rw [bytes_hunk, HunkSource.headerLine, HunkSource.headerText]
  exact ⟨_, rfl⟩

theorem patchLine_headerLine {state : Decoder} {index : Nat} {files : List ChangedFile}
    (flushes : state.Flushes index files) (source : HunkSource) :
    patchLine state (source.headerLine ++ [10]) = do
      let hunk ← parseHunkHeader (source.headerLine ++ [10])
      return { state with
        files, currentHunk := some hunk, oldLine := hunk.oldStart, newLine := hunk.newStart } := by
  obtain ⟨rest, starts⟩ := headerLine_prefix source
  rw [bytes_hunk] at starts
  rw [patchLine, ← starts, if_neg (by simp [bytes_diff]), if_pos (by simp [bytes_hunk]),
    flushes.finish]
  rfl

theorem foldlM_hunk {source : HunkSource} (isText : source.HeadingIsText) {state : Decoder}
    {index : Nat} {files : List ChangedFile} (flushes : state.Flushes index files)
    (within : index < files.length) :
    ∃ state', (source.lines.map (· ++ [10])).foldlM patchLine state = .ok state' ∧
      state'.Flushes index (pushHunks index [source.decoded] files) := by
  let opened : Decoder := { state with
    files
    currentHunk := some (source.hunkWith [])
    oldLine := source.oldStart
    newLine := source.newStart }
  have header : patchLine state (source.headerLine ++ [10]) = .ok opened := by
    rw [patchLine_headerLine flushes, parseHunkHeader_headerLine, if_pos isText]
    rfl
  obtain ⟨middle, removed, middleFiles, middleIndex, middleHunk, middleCursor⟩ :=
    @foldlM_changed .removed source.removed opened _ rfl source.oldFits.2.2
  obtain ⟨last, added, lastFiles, lastIndex, lastHunk, -⟩ :=
    @foldlM_changed .added source.added middle _ middleHunk
      (by rw [middleCursor .added (by decide)]; exact source.newFits.2.2)
  have start : middle.cursor .added = source.newStart := middleCursor .added (by decide)
  refine ⟨last, ?_, ⟨by rw [lastIndex, middleIndex]; exact flushes.index, ?_⟩⟩
  · have split : source.lines.map (· ++ [10]) = (source.headerLine ++ [10]) ::
        (source.removed.map (fun text => sign .removed ++ text.val ++ [10]) ++
          (if source.removedMarker then [bytes "\\ No newline at end of file"] else []).map (· ++ [10]) ++
          (source.added.map (fun text => sign .added ++ text.val ++ [10]) ++
            (if source.addedMarker then [bytes "\\ No newline at end of file"] else []).map
              (· ++ [10]))) := by
      simp [HunkSource.lines, sign, Function.comp_def]
    rw [split, List.foldlM_cons, header, ok_bind, List.foldlM_append, List.foldlM_append,
      removed, ok_bind, foldlM_marker middleHunk, ok_bind, List.foldlM_append,
      added, ok_bind, foldlM_marker lastHunk]
  · rw [lastHunk, lastIndex, middleIndex, lastFiles, middleFiles, start]
    show finishHunk files state.fileIndex (some source.decoded) = _
    rw [flushes.index, finishHunk]
    simp [within, pushHunks]

theorem foldlM_hunk_invalid {source : HunkSource} (invalid : ¬source.HeadingIsText) {state : Decoder}
    {index : Nat} {files : List ChangedFile} (flushes : state.Flushes index files) :
    (source.lines.map (· ++ [10])).foldlM patchLine state = malformed "non-ASCII hunk header" := by
  rw [HunkSource.lines, List.map_cons, List.foldlM_cons, patchLine_headerLine flushes,
    parseHunkHeader_headerLine, if_neg invalid]
  rfl

theorem pushHunks_nil (index : Nat) (files : List ChangedFile) : pushHunks index [] files = files := by
  have same : (fun file : ChangedFile => { file with hunks := file.hunks ++ [] }) = id := by
    funext file
    cases file
    simp
  rw [pushHunks, same, List.modify_id]

theorem pushHunks_pushHunks (index : Nat) (hunks hunks' : List ChangeHunk) (files : List ChangedFile) :
    pushHunks index hunks' (pushHunks index hunks files) = pushHunks index (hunks ++ hunks') files := by
  rw [pushHunks, pushHunks, List.modify_modify_eq, pushHunks]
  simp [Function.comp_def]

theorem length_pushHunks (index : Nat) (hunks : List ChangeHunk) (files : List ChangedFile) :
    (pushHunks index hunks files).length = files.length := List.length_modify ..

theorem foldlM_hunks {sources : List HunkSource} : ∀ {state : Decoder} {index : Nat}
    {files : List ChangedFile}, state.Flushes index files → index < files.length →
    if ∀ source ∈ sources, source.HeadingIsText then
      ∃ state', ((sources.flatMap HunkSource.lines).map (· ++ [10])).foldlM patchLine state = .ok state' ∧
        state'.Flushes index (pushHunks index (sources.map HunkSource.decoded) files)
    else ((sources.flatMap HunkSource.lines).map (· ++ [10])).foldlM patchLine state =
      malformed "non-ASCII hunk header" := by
  induction sources with
  | nil =>
    intro state index files flushes within
    rw [if_pos (by simp)]
    exact ⟨state, rfl, by rwa [List.map_nil, pushHunks_nil]⟩
  | cons source sources ih =>
    intro state index files flushes within
    rw [List.flatMap_cons, List.map_append, List.foldlM_append]
    by_cases isText : source.HeadingIsText
    · obtain ⟨next, first, flushed⟩ := foldlM_hunk isText flushes within
      have rest := ih flushed (by rwa [length_pushHunks])
      rw [first, ok_bind]
      by_cases all : ∀ source ∈ sources, source.HeadingIsText
      · rw [if_pos all] at rest
        rw [if_pos (List.forall_mem_cons.mpr ⟨isText, all⟩)]
        obtain ⟨last, run, done⟩ := rest
        rw [pushHunks_pushHunks] at done
        exact ⟨last, run, done⟩
      · rw [if_neg all] at rest
        rw [if_neg fun every => all (List.forall_mem_cons.mp every).2]
        exact rest
    · rw [foldlM_hunk_invalid isText flushes,
        if_neg fun every => isText (List.forall_mem_cons.mp every).1]
      rfl

/-- Before the first hunk of a section every header line is skipped. -/
theorem patchLine_header {state : Decoder} (closed : state.currentHunk = none) (line : HeaderLine) :
    patchLine state (bytes line.marker ++ line.text.val ++ [10]) = .ok state := by
  have differs : ∀ marker ∈ headerMarkers, 3 ≤ (bytes marker).length ∧
      (bytes marker).take 3 ≠ (bytes "diff --git ").take 3 ∧
      (bytes marker).take 3 ≠ (bytes "@@ ").take 3 := by decide
  obtain ⟨long, diff, hunk⟩ := differs line.marker line.known
  have front : (bytes line.marker ++ line.text.val ++ [10]).take 3 = (bytes line.marker).take 3 := by
    rw [List.append_assoc, List.take_append_of_le_length long]
  have other : ∀ marker : Bytes, 3 ≤ marker.length → (bytes line.marker).take 3 ≠ marker.take 3 →
      ¬marker.isPrefixOf (bytes line.marker ++ line.text.val ++ [10]) = true := by
    intro marker long different starts
    obtain ⟨rest, same⟩ := List.isPrefixOf_iff_prefix.mp starts
    rw [← front, ← same, List.take_append_of_le_length long] at different
    exact different rfl
  rw [patchLine, if_neg (other _ (by decide) diff), if_neg (other _ (by decide +kernel) hunk),
    closed]
  rfl

theorem foldlM_header {lines : List HeaderLine} {state : Decoder} (closed : state.currentHunk = none) :
    (lines.map fun line => bytes line.marker ++ line.text.val ++ [10]).foldlM patchLine state =
      .ok state := by
  induction lines with
  | nil => rfl
  | cons line lines ih =>
    rw [List.map_cons, List.foldlM_cons, patchLine_header closed, ok_bind, ih]

def Decoder.nextIndex (state : Decoder) : Nat := state.fileIndex.elim 0 (· + 1)

theorem foldlM_file {state : Decoder} {files : List ChangedFile} (source : FileSource)
    (finish : finishHunk state.files state.fileIndex state.currentHunk = .ok files)
    (within : state.nextIndex < files.length) :
    if ∀ hunk ∈ source.hunks, hunk.HeadingIsText then
      ∃ state', (source.lines.map (· ++ [10])).foldlM patchLine state = .ok state' ∧
        state'.Flushes state.nextIndex
          (pushHunks state.nextIndex (source.hunks.map HunkSource.decoded) files)
    else (source.lines.map (· ++ [10])).foldlM patchLine state =
      malformed "non-ASCII hunk header" := by
  let opened : Decoder :=
    { state with files, fileIndex := some state.nextIndex, currentHunk := none }
  have split : source.lines.map (· ++ [10]) =
      (bytes "diff --git " ++ (source.paths.val ++ [10])) ::
        ((source.header.map fun line => bytes line.marker ++ line.text.val ++ [10]) ++
          (source.hunks.flatMap HunkSource.lines).map (· ++ [10])) := by
    simp [FileSource.lines, Function.comp_def]
  have first : patchLine state (bytes "diff --git " ++ (source.paths.val ++ [10])) = .ok opened := by
    rw [patchLine, if_pos (List.isPrefixOf_iff_prefix.mpr ⟨_, rfl⟩), finish]
    rfl
  have flushes : opened.Flushes state.nextIndex files := ⟨rfl, rfl⟩
  have hunks := @foldlM_hunks source.hunks opened _ _ flushes within
  rw [split, List.foldlM_cons, first, ok_bind, List.foldlM_append, foldlM_header rfl, ok_bind]
  exact hunks

def withHunks (read : HunkSource → ChangeHunk) (entry : ChangedFile × FileSource) : ChangedFile :=
  { entry.1 with hunks := entry.1.hunks ++ entry.2.hunks.map read }

theorem pushHunks_append (done : List ChangedFile) (hunks : List ChangeHunk) (file : ChangedFile)
    (rest : List ChangedFile) :
    pushHunks done.length hunks (done ++ file :: rest) =
      done ++ { file with hunks := file.hunks ++ hunks } :: rest := by
  induction done with
  | nil => rfl
  | cons first done ih => exact congrArg (first :: ·) ih

theorem foldlM_files {sections : List (ChangedFile × FileSource)} : ∀ {done : List ChangedFile}
    {state : Decoder},
    finishHunk state.files state.fileIndex state.currentHunk = .ok (done ++ sections.map Prod.fst) →
    state.nextIndex = done.length →
    if ∀ entry ∈ sections, ∀ hunk ∈ entry.2.hunks, hunk.HeadingIsText then
      ∃ state', ((sections.flatMap fun entry => entry.2.lines).map (· ++ [10])).foldlM patchLine state =
          .ok state' ∧
        finishHunk state'.files state'.fileIndex state'.currentHunk = .ok (done ++
          sections.map (withHunks HunkSource.decoded)) ∧
        state'.nextIndex = done.length + sections.length
    else ((sections.flatMap fun entry => entry.2.lines).map (· ++ [10])).foldlM patchLine state =
      malformed "non-ASCII hunk header" := by
  induction sections with
  | nil =>
    intro done state finish index
    rw [if_pos (by simp)]
    exact ⟨state, rfl, finish, index⟩
  | cons entry sections ih =>
    intro done state finish index
    have here := foldlM_file entry.2 finish (by rw [index]; simp)
    rw [List.flatMap_cons, List.map_append, List.foldlM_append]
    by_cases isText : ∀ hunk ∈ entry.2.hunks, hunk.HeadingIsText
    · rw [if_pos isText] at here
      obtain ⟨next, run, flushes⟩ := here
      have finished := flushes.finish
      rw [index, List.map_cons, pushHunks_append, ← List.singleton_append, ← List.append_assoc] at finished
      have rest := @ih (done ++ [withHunks HunkSource.decoded entry]) next finished (by
        rw [Decoder.nextIndex, flushes.index, Option.elim_some, index]
        simp)
      rw [run, ok_bind]
      by_cases all : ∀ entry ∈ sections, ∀ hunk ∈ entry.2.hunks, hunk.HeadingIsText
      · rw [if_pos all] at rest
        rw [if_pos (List.forall_mem_cons.mpr ⟨isText, all⟩)]
        obtain ⟨last, run, finish, index⟩ := rest
        refine ⟨last, run, ?_, ?_⟩
        · simpa using finish
        · simpa [Nat.add_assoc, Nat.add_comm 1] using index
      · rw [if_neg all] at rest
        rw [if_neg fun every => all (List.forall_mem_cons.mp every).2]
        exact rest
    · rw [if_neg isText] at here
      rw [here, if_neg fun every => isText (List.forall_mem_cons.mp every).1]
      rfl

theorem applyPatch_lines {lines : List Bytes} (free : ∀ line ∈ lines, (10 : UInt8) ∉ line)
    (files : List ChangedFile) :
    applyPatch (lines.flatMap fun line => line ++ [10]) files = do
      let state ← (lines.map (· ++ [10])).foldlM patchLine ⟨files, none, none, 0, 0⟩
      let files ← finishHunk state.files state.fileIndex state.currentHunk
      if state.fileIndex.any (files.length ≤ ·) then
        malformed "patch has more file sections than raw output"
      else return files := by
  rw [applyPatch, splitInclusive_lines free]

theorem ascii_of_mem_range {c : Char} {abbreviated : Bool} {start count : Nat}
    (mem : c ∈ rangeText abbreviated start count) : c.toNat < 128 ∧ c ≠ '\n' := by
  rcases isDigit_or_comma mem with digit | rfl
  · refine ⟨?_, ?_⟩
    · have high : c.val ≤ 57 := by
        have bounds : 48 ≤ c.val ∧ c.val ≤ 57 := by simpa [Char.isDigit] using digit
        exact bounds.2
      exact Nat.lt_of_le_of_lt (UInt32.le_iff_toNat_le.mp high) (by decide)
    · rintro rfl
      exact absurd digit (by decide)
  · decide

theorem ascii_of_mem_header {source : HunkSource} {c : Char} (mem : c ∈ source.headerText) :
    c.toNat < 128 ∧ c ≠ '\n' := by
  have literal : ∀ c ∈ ['@', ' ', '-', '+'], c.toNat < 128 ∧ c ≠ '\n' := by simp
  simp only [HunkSource.headerText, HunkSource.oldRange, HunkSource.newRange, List.mem_append,
    List.mem_cons, List.not_mem_nil, or_false] at mem
  rcases mem with (rfl | rfl) | rfl | (rfl | mem) | rfl | (rfl | mem) | rfl | rfl | rfl
  all_goals first
    | exact ascii_of_mem_range mem
    | exact literal _ (by simp)

theorem not_mem_hunkLines (source : HunkSource) : ∀ line ∈ source.lines, (10 : UInt8) ∉ line := by
  have minus : (10 : UInt8) ∉ bytes "-" := by decide
  have plus : (10 : UInt8) ∉ bytes "+" := by decide
  have marker : (10 : UInt8) ∉ bytes "\\ No newline at end of file" := by decide
  have header : (10 : UInt8) ∉ source.headerLine := by
    intro mem
    rcases List.mem_append.mp mem with mem | mem
    · exact not_mem_encode (fun c hc => ascii_of_mem_header hc) mem
    · cases heading : source.heading with
      | none => simp [heading] at mem
      | some text =>
        rw [heading, Option.elim_some] at mem
        rcases List.mem_append.mp mem with mem | mem
        · exact not_mem_encode (by simp) mem
        · exact text.property mem
  have side : ∀ (lead : Bytes) (texts : List LineText), (10 : UInt8) ∉ lead →
      ∀ line ∈ texts.map fun text => lead ++ text.val, (10 : UInt8) ∉ line := by
    intro lead texts free line mem
    obtain ⟨text, -, rfl⟩ := List.mem_map.mp mem
    rw [List.mem_append, not_or]
    exact ⟨free, text.property⟩
  have optional : ∀ shown : Bool, ∀ line ∈ (if shown then [bytes "\\ No newline at end of file"] else []),
      (10 : UInt8) ∉ line := by
    intro shown line mem
    cases shown with
    | false => simp at mem
    | true =>
      obtain rfl : line = bytes "\\ No newline at end of file" := by simpa using mem
      exact marker
  intro line mem
  rcases List.mem_cons.mp mem with rfl | mem
  · exact header
  · rcases List.mem_append.mp mem with mem | mem <;> rcases List.mem_append.mp mem with mem | mem
    · exact side _ _ minus line mem
    · exact optional _ line mem
    · exact side _ _ plus line mem
    · exact optional _ line mem

theorem not_mem_lines (source : FileSource) : ∀ line ∈ source.lines, (10 : UInt8) ∉ line := by
  have first : (10 : UInt8) ∉ bytes "diff --git " := by decide
  have markers : ∀ marker ∈ headerMarkers, (10 : UInt8) ∉ bytes marker := by decide
  intro line mem
  rcases List.mem_cons.mp mem with rfl | mem
  · rw [List.mem_append, not_or]
    exact ⟨first, source.paths.property⟩
  · rcases List.mem_append.mp mem with mem | mem
    · obtain ⟨header, -, rfl⟩ := List.mem_map.mp mem
      rw [List.mem_append, not_or]
      exact ⟨markers header.marker header.known, header.text.property⟩
    · obtain ⟨hunk, -, here⟩ := List.mem_flatMap.mp mem
      exact not_mem_hunkLines hunk line here

theorem applyPatch_renderPatch (sections : List (ChangedFile × FileSource)) :
    applyPatch (renderPatch (sections.map Prod.snd)) (sections.map Prod.fst) =
      if ∀ entry ∈ sections, ∀ hunk ∈ entry.2.hunks, hunk.HeadingIsText then
        .ok (sections.map (withHunks HunkSource.decoded))
      else malformed "non-ASCII hunk header" := by
  have lines : (sections.map Prod.snd).flatMap FileSource.lines =
      sections.flatMap fun entry => entry.2.lines := by simp [List.flatMap_map]
  have run := @foldlM_files sections [] ⟨sections.map Prod.fst, none, none, 0, 0⟩ rfl rfl
  rw [renderPatch, lines, applyPatch_lines]
  · split_ifs at run ⊢ with isText
    · obtain ⟨state, run, finish, index⟩ := run
      rw [run, ok_bind, finish, ok_bind, if_neg]
      · rfl
      · cases here : state.fileIndex with
        | none => simp
        | some last =>
          have next : last + 1 = sections.length := by simpa [Decoder.nextIndex, here] using index
          simp
          omega
    · rw [run]
      rfl
  · intro line mem
    obtain ⟨entry, -, here⟩ := List.mem_flatMap.mp mem
    exact not_mem_lines entry.2 line here

end Runs

section Exactness

theorem countP_numbered (kind other : ChangedLineKind) (start count : Nat) :
    (numbered kind start count).countP (fun line => line.kind = other) =
      if kind = other then count else 0 := by
  have lineKind : ∀ line, (position kind line).kind = kind := by
    intro line
    cases kind <;> rfl
  rw [numbered, List.countP_map]
  simp only [Function.comp_def, lineKind]
  by_cases same : kind = other <;> simp [same]

theorem decoded_eq_hunk {source : HunkSource} : source.decoded = source.hunk ↔
    (∀ text ∈ source.removed, ¬doubled .removed <+: text.val) ∧
      ∀ text ∈ source.added, ¬doubled .added <+: text.val := by
  constructor
  · intro same
    have lines : source.decoded.lines = source.hunk.lines := congrArg ChangeHunk.lines same
    have removed := congrArg (List.countP fun line => line.kind = .removed) lines
    have added := congrArg (List.countP fun line => line.kind = .added) lines
    simp only [HunkSource.decoded, HunkSource.hunk, HunkSource.hunkWith, List.countP_append,
      countP_numbered, reduceCtorEq, if_true, if_false, Nat.add_zero, Nat.zero_add] at removed added
    exact ⟨fun text mem => of_decide_eq_true (List.countP_eq_length.mp removed text mem),
      fun text mem => of_decide_eq_true (List.countP_eq_length.mp added text mem)⟩
  · rintro ⟨removed, added⟩
    rw [HunkSource.decoded, HunkSource.hunk,
      List.countP_eq_length.mpr fun text mem => decide_eq_true (removed text mem),
      List.countP_eq_length.mpr fun text mem => decide_eq_true (added text mem)]

theorem applyPatch_exact_iff (sections : List (ChangedFile × FileSource)) :
    applyPatch (renderPatch (sections.map Prod.snd)) (sections.map Prod.fst) =
        .ok (sections.map (withHunks HunkSource.hunk)) ↔
      ∀ entry ∈ sections, ∀ hunk ∈ entry.2.hunks, hunk.Decodable := by
  rw [applyPatch_renderPatch]
  have hunks : ∀ entry : ChangedFile × FileSource,
      withHunks HunkSource.decoded entry = withHunks HunkSource.hunk entry ↔
        ∀ hunk ∈ entry.2.hunks, hunk.decoded = hunk.hunk := by
    intro entry
    constructor
    · intro same
      have lists := congrArg ChangedFile.hunks same
      exact List.map_inj_left.mp (List.append_cancel_left lists)
    · intro same
      rw [withHunks, withHunks, List.map_inj_left.mpr same]
  constructor
  · intro exact entry mem hunk here
    split at exact
    · next isText =>
      have files := List.map_inj_left.mp (Except.ok.inj exact)
      obtain ⟨removed, added⟩ := decoded_eq_hunk.mp ((hunks entry).mp (files entry mem) hunk here)
      exact ⟨removed, added, isText entry mem hunk here⟩
    · cases exact
  · intro decodable
    rw [if_pos fun entry mem hunk here => (decodable entry mem hunk here).2.2]
    refine congrArg _ (List.map_inj_left.mpr fun entry mem => (hunks entry).mpr fun hunk here => ?_)
    exact decoded_eq_hunk.mpr ⟨(decodable entry mem hunk here).1, (decodable entry mem hunk here).2.1⟩

/-- A removed SQL comment line: `-- drop` is shown as `--- drop`. -/
theorem applyPatch_loses_comment :
    let hunk : HunkSource :=
      { oldStart := 3, newStart := 2, removed := [⟨bytes "-- drop", by decide⟩], added := []
        heading := none, removedMarker := false, addedMarker := false, abbreviated := false
        oldFits := by decide, newFits := by decide }
    let source : FileSource := { paths := ⟨bytes "a.sql a.sql", by decide⟩, header := [], hunks := [hunk] }
    let file : ChangedFile :=
      { status := .modified, oldPath := none, newPath := none, binary := false, hunks := []
        source := .worktree }
    applyPatch (renderPatch [source]) [file] = .ok [{ file with hunks := [hunk.hunkWith []] }] ∧
      applyPatch (renderPatch [source]) [file] ≠ .ok [withHunks HunkSource.hunk (file, source)] := by
  decide

end Exactness

end CodeSystemGraph.Changes
