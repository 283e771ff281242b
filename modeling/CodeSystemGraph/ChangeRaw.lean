import CodeSystemGraph.ChangePatch

/-! The two listings of a Git diff that end every field with a NUL byte: the raw listing
with the status and the paths of each file, and the line counts, which tell binary files
apart. Both are read by a cursor, and the second is matched to the first by position. -/

namespace CodeSystemGraph.Changes
open Model Ordered

section Paths

def isContinuation (byte : UInt8) : Bool := 0x80 ≤ byte && byte ≤ 0xBF

def utf8Lead (lead : UInt8) : Option (ℕ × UInt8 × UInt8) :=
  if lead < 0x80 then some (1, 0, 0)
  else if lead < 0xC2 then none
  else if lead ≤ 0xDF then some (2, 0x80, 0xBF)
  else if lead = 0xE0 then some (3, 0xA0, 0xBF)
  else if lead = 0xED then some (3, 0x80, 0x9F)
  else if lead ≤ 0xEF then some (3, 0x80, 0xBF)
  else if lead = 0xF0 then some (4, 0x90, 0xBF)
  else if lead ≤ 0xF3 then some (4, 0x80, 0xBF)
  else if lead = 0xF4 then some (4, 0x80, 0x8F)
  else none

def utf8Sequence (lead : UInt8) (rest : Bytes) : ℕ × Bool :=
  match utf8Lead lead with
  | none => (1, false)
  | some (width, low, high) =>
    let second := rest.take 1 |>.takeWhile fun byte => low ≤ byte && byte ≤ high
    let later := if second.isEmpty then [] else (rest.drop 1).takeWhile isContinuation
    let length := min width (1 + second.length + later.length)
    (length, length = width)

/-- `String::from_utf8_lossy`: each start of a character that is not continued is replaced. -/
def fromUtf8LossyFrom : (skip : ℕ) → Bytes → List Char
  | _, [] => []
  | skip + 1, _ :: rest => fromUtf8LossyFrom skip rest
  | 0, lead :: rest =>
    let (length, whole) := utf8Sequence lead rest
    let c := if whole then ((fromUtf8 ((lead :: rest).take length)).bind List.head?).getD '\ufffd'
      else '\ufffd'
    c :: fromUtf8LossyFrom (length - 1) rest

def fromUtf8Lossy (bytes : Bytes) : String := String.ofList (fromUtf8LossyFrom 0 bytes)

def nativePathBytes (bytes : Bytes) : NativePath where
  encoding := .unixBytes
  bytes := bytes
  display := fromUtf8Lossy bytes

end Paths

section Decoder

/-- A field of the listing with the place after it. -/
structure Taken (cursor : ℕ) where
  value : Bytes
  next : ℕ
  advanced : cursor < next

def takeNul (bytes : Bytes) (cursor : ℕ) : Except ChangeError (Taken cursor) := do
  let remaining ← orMalformed "cursor exceeds output"
    (if cursor ≤ bytes.length then some (bytes.drop cursor) else none)
  let length ← orMalformed "missing NUL delimiter" (remaining.idxOf? 0)
  return { value := remaining.take length, next := cursor + length + 1, advanced := by omega }

def isAsciiWhitespaceByte (byte : UInt8) : Bool :=
  byte = 32 || byte = 9 || byte = 10 || byte = 12 || byte = 13

/-- The first byte of the last field of a raw header. -/
def rawStatus (header : Bytes) : Option UInt8 :=
  (header.splitOnP isAsciiWhitespaceByte).getLast?.bind List.head?

/-- What a raw record says after its header, and the place after it. -/
structure RawEntry (cursor : ℕ) where
  status : ChangedFileStatus
  oldPath : Option Bytes
  newPath : Option Bytes
  next : ℕ
  advanced : cursor < next

def rawEntry (raw : Bytes) (statusByte : UInt8) {cursor : ℕ} (first : Taken cursor) :
    Except ChangeError (RawEntry cursor) :=
  if statusByte = 65 then
    .ok ⟨.added, none, some first.value, first.next, first.advanced⟩
  else if statusByte = 77 ∨ statusByte = 84 ∨ statusByte = 85 then
    .ok ⟨.modified, some first.value, some first.value, first.next, first.advanced⟩
  else if statusByte = 68 then
    .ok ⟨.deleted, some first.value, none, first.next, first.advanced⟩
  else if statusByte = 82 then do
    let second ← takeNul raw first.next
    return ⟨.renamed, some first.value, some second.value, second.next,
      first.advanced.trans second.advanced⟩
  else if statusByte = 67 then do
    let second ← takeNul raw first.next
    return ⟨.copied, some first.value, some second.value, second.next,
      first.advanced.trans second.advanced⟩
  else malformed ("unsupported raw status `" ++ String.singleton (Char.ofNat statusByte.toNat) ++ "`")

def rawFile (source : ChangeSourceLayer) {cursor : ℕ} (entry : RawEntry cursor) : ChangedFile where
  status := entry.status
  oldPath := entry.oldPath.map nativePathBytes
  newPath := entry.newPath.map nativePathBytes
  binary := false
  hunks := []
  source := source

def parseRawFrom (raw : Bytes) (source : ChangeSourceLayer) (cursor : ℕ) (files : List ChangedFile) :
    Except ChangeError (List ChangedFile) :=
  if _ : cursor < raw.length then do
    let header ← takeNul raw cursor
    have _ := header.advanced
    if header.value.isEmpty then parseRawFrom raw source header.next files
    else if header.value.head? ≠ some 58 then malformed "raw record does not start with ':'"
    else do
      let statusByte ← orMalformed "missing raw status" (rawStatus header.value)
      let first ← takeNul raw header.next
      let entry ← rawEntry raw statusByte first
      have _ := entry.advanced
      parseRawFrom raw source entry.next (files ++ [rawFile source entry])
  else .ok files
termination_by raw.length - cursor

def parseRaw (raw : Bytes) (source : ChangeSourceLayer) : Except ChangeError (List ChangedFile) :=
  parseRawFrom raw source 0 []

/-- The bytes before the first tab, and those after it if there is one. -/
def splitTab (record : Bytes) : Bytes × Option Bytes :=
  (record.takeWhile (· ≠ 9), (record.dropWhile (· ≠ 9)).tail?)

/-- The three pieces of `splitn(3, ..)` at tabs. -/
def numstatFields (record : Bytes) : Option (Bytes × Bytes × Bytes) := do
  let (added, rest) := splitTab record
  let (removed, path) := splitTab (← rest)
  return (added, removed, ← path)

def applyNumstatFrom (numstat : Bytes) (cursor index : ℕ) (files : List ChangedFile) :
    Except ChangeError (List ChangedFile) :=
  if _ : cursor < numstat.length then do
    let record ← takeNul numstat cursor
    have _ := record.advanced
    if record.value.isEmpty then applyNumstatFrom numstat record.next index files
    else do
      let fields ← orMalformed "invalid numstat record" (numstatFields record.value)
      let file ← orMalformed "numstat has too many records" files[index]?
      let binary : Bool := fields.1 = bytes "-" || fields.2.1 = bytes "-"
      let files := files.set index { file with binary }
      if fields.2.2.isEmpty then do
        let old ← takeNul numstat record.next
        have _ := old.advanced
        let new ← takeNul numstat old.next
        have _ := new.advanced
        applyNumstatFrom numstat new.next (index + 1) files
      else applyNumstatFrom numstat record.next (index + 1) files
  else if index ≠ files.length then malformed "raw and numstat record counts differ"
  else .ok files
termination_by numstat.length - cursor

def applyNumstat (numstat : Bytes) (files : List ChangedFile) :
    Except ChangeError (List ChangedFile) :=
  applyNumstatFrom numstat 0 0 files

end Decoder

section Listings

abbrev NulFree := { field : Bytes // (0 : UInt8) ∉ field }

abbrev PathBytes := { path : Bytes // path ≠ [] ∧ (0 : UInt8) ∉ path }

abbrev Decimal := { text : Bytes // ∀ byte ∈ text, 48 ≤ byte.toNat ∧ byte.toNat ≤ 57 }

inductive DiffChange
  | added (path : PathBytes)
  | modified (path : PathBytes)
  | deleted (path : PathBytes)
  | renamed (score : Decimal) (oldPath newPath : PathBytes)
  | copied (score : Decimal) (oldPath newPath : PathBytes)

/-- One file of a diff: what the raw listing says of the two blobs, the change and the line
counts, which a binary file does not have. -/
structure DiffRecord where
  oldMode : NulFree
  newMode : NulFree
  oldId : NulFree
  newId : NulFree
  change : DiffChange
  counts : Option (Decimal × Decimal)

namespace DiffChange

def letter : DiffChange → UInt8
  | added _ => 65
  | modified _ => 77
  | deleted _ => 68
  | renamed _ _ _ => 82
  | copied _ _ _ => 67

def score : DiffChange → Bytes
  | renamed score _ _ => score.1
  | copied score _ _ => score.1
  | _ => []

def paths : DiffChange → List PathBytes
  | added path => [path]
  | modified path => [path]
  | deleted path => [path]
  | renamed _ oldPath newPath => [oldPath, newPath]
  | copied _ oldPath newPath => [oldPath, newPath]

def status : DiffChange → ChangedFileStatus
  | added _ => .added
  | modified _ => .modified
  | deleted _ => .deleted
  | renamed _ _ _ => .renamed
  | copied _ _ _ => .copied

def oldPath : DiffChange → Option PathBytes
  | added _ => none
  | modified path => some path
  | deleted path => some path
  | renamed _ oldPath _ => some oldPath
  | copied _ oldPath _ => some oldPath

def newPath : DiffChange → Option PathBytes
  | added path => some path
  | modified path => some path
  | deleted _ => none
  | renamed _ _ newPath => some newPath
  | copied _ _ newPath => some newPath

end DiffChange

def nul (field : Bytes) : Bytes := field ++ [0]

namespace DiffRecord

variable (record : DiffRecord)

/-- The raw header, with the status in its last field. -/
def header : Bytes :=
  58 :: record.oldMode.1 ++ 32 :: record.newMode.1 ++ 32 :: record.oldId.1 ++
    32 :: record.newId.1 ++ 32 :: record.change.letter :: record.change.score

def raw : Bytes := nul record.header ++ record.change.paths.flatMap fun path => nul path.1

def added : Bytes := record.counts.elim [45] (·.1.1)

def removed : Bytes := record.counts.elim [45] (·.2.1)

/-- The counts, then the path, or an empty field with both paths after it. -/
def numstat : Bytes :=
  match record.change.paths with
  | [path] => nul (record.added ++ 9 :: record.removed ++ 9 :: path.1)
  | paths => nul (record.added ++ 9 :: record.removed ++ [9]) ++ paths.flatMap fun path => nul path.1

def file (source : ChangeSourceLayer) : ChangedFile where
  status := record.change.status
  oldPath := record.change.oldPath.map fun path => nativePathBytes path.1
  newPath := record.change.newPath.map fun path => nativePathBytes path.1
  binary := record.counts.isNone
  hunks := []
  source := source

end DiffRecord

def renderRaw (records : List DiffRecord) : Bytes := records.flatMap DiffRecord.raw

def renderNumstat (records : List DiffRecord) : Bytes := records.flatMap DiffRecord.numstat

end Listings

section Fields

variable {bytes field rest : Bytes} {cursor : ℕ}

theorem lt_length (here : bytes.drop cursor = nul field ++ rest) : cursor < bytes.length := by
  by_contra past
  rw [List.drop_eq_nil_of_le (Nat.le_of_not_lt past)] at here
  simp [nul] at here

theorem drop_next (here : bytes.drop cursor = nul field ++ rest) :
    bytes.drop (cursor + field.length + 1) = rest := by
  rw [Nat.add_assoc, ← List.drop_drop, here]
  simp [nul]

theorem idxOf?_nul (free : (0 : UInt8) ∉ field) (rest : Bytes) :
    (nul field ++ rest).idxOf? 0 = some field.length := by
  induction field with
  | nil => rfl
  | cons byte field ih =>
    have differ : byte ≠ 0 := fun same => free (same ▸ List.mem_cons_self)
    have later : (0 : UInt8) ∉ field := fun mem => free (List.mem_cons_of_mem _ mem)
    have cons : nul (byte :: field) ++ rest = byte :: (nul field ++ rest) := rfl
    rw [cons, List.idxOf?_cons, ih later, if_neg (by simpa using differ)]
    rfl

theorem takeNul_eq (free : (0 : UInt8) ∉ field) (here : bytes.drop cursor = nul field ++ rest) :
    takeNul bytes cursor = .ok ⟨field, cursor + field.length + 1, by omega⟩ := by
  have taken : (nul field ++ rest).take field.length = field := by simp [nul]
  simp only [takeNul, if_pos (lt_length here).le, orMalformed, ok_bind, here, idxOf?_nul free, taken]
  rfl

theorem not_whitespace_of_digit {byte : UInt8} (digit : 48 ≤ byte.toNat ∧ byte.toNat ≤ 57) :
    byte ≠ 0 ∧ byte ≠ 9 ∧ isAsciiWhitespaceByte byte = false := by
  have differ : ∀ other : UInt8, other.toNat < 48 → byte ≠ other := by
    rintro other small rfl
    omega
  refine ⟨differ 0 (by decide), differ 9 (by decide), ?_⟩
  simp [isAsciiWhitespaceByte, differ 32 (by decide), differ 9 (by decide), differ 10 (by decide),
    differ 12 (by decide), differ 13 (by decide)]

theorem rawStatus_last {before field : Bytes}
    (solid : ∀ byte ∈ field, isAsciiWhitespaceByte byte = false) :
    rawStatus (before ++ 32 :: field) = field.head? := by
  have single : field.splitOnP isAsciiWhitespaceByte = [field] :=
    List.splitOnP_eq_singleton (by simpa using solid)
  rw [rawStatus, List.splitOnP_append_cons _ _ (by decide), single]
  simp

theorem letter_solid (change : DiffChange) :
    change.letter ≠ 0 ∧ isAsciiWhitespaceByte change.letter = false := by
  cases change with
  | added path => exact (by decide : (65 : UInt8) ≠ 0 ∧ isAsciiWhitespaceByte 65 = false)
  | modified path => exact (by decide : (77 : UInt8) ≠ 0 ∧ isAsciiWhitespaceByte 77 = false)
  | deleted path => exact (by decide : (68 : UInt8) ≠ 0 ∧ isAsciiWhitespaceByte 68 = false)
  | renamed score oldPath newPath =>
    exact (by decide : (82 : UInt8) ≠ 0 ∧ isAsciiWhitespaceByte 82 = false)
  | copied score oldPath newPath =>
    exact (by decide : (67 : UInt8) ≠ 0 ∧ isAsciiWhitespaceByte 67 = false)

theorem score_solid (change : DiffChange) {byte : UInt8} (mem : byte ∈ change.score) :
    byte ≠ 0 ∧ isAsciiWhitespaceByte byte = false := by
  have digit : ∀ score : Decimal, byte ∈ score.1 → byte ≠ 0 ∧ isAsciiWhitespaceByte byte = false :=
    fun score mem =>
      have solid := not_whitespace_of_digit (score.2 byte mem)
      ⟨solid.1, solid.2.2⟩
  cases change with
  | renamed score oldPath newPath => exact digit score mem
  | copied score oldPath newPath => exact digit score mem
  | _ => exact absurd mem List.not_mem_nil

theorem header_free (record : DiffRecord) : (0 : UInt8) ∉ record.header := by
  have scoreFree : (0 : UInt8) ∉ record.change.score := fun mem => (score_solid _ mem).1 rfl
  simp [DiffRecord.header, record.oldMode.2, record.newMode.2, record.oldId.2, record.newId.2,
    scoreFree, (letter_solid record.change).1.symm]

theorem rawStatus_header (record : DiffRecord) :
    rawStatus record.header = some record.change.letter := by
  refine rawStatus_last (List.forall_mem_cons.mpr ⟨(letter_solid _).2, fun byte mem => ?_⟩)
  exact (score_solid _ mem).2

end Fields

section RawListing

variable {raw rest rest' : Bytes} {source : ChangeSourceLayer} {cursor : ℕ}

theorem parseRawFrom_header (record : DiffRecord) (path : PathBytes)
    (here : raw.drop cursor = nul record.header ++ (nul path.1 ++ rest)) (files : List ChangedFile) :
    parseRawFrom raw source cursor files =
      rawEntry raw record.change.letter (⟨path.1, cursor + record.header.length + 1 +
        path.1.length + 1, by omega⟩ : Taken (cursor + record.header.length + 1)) >>= fun entry =>
      parseRawFrom raw source entry.next (files ++ [rawFile source entry]) := by
  have colon : ¬record.header.head? ≠ some 58 := fun differ => differ rfl
  have nonempty : ¬record.header.isEmpty = true := Bool.false_ne_true
  rw [parseRawFrom, dif_pos (lt_length here), takeNul_eq (header_free record) here]
  simp only [ok_bind]
  rw [if_neg nonempty, if_neg colon, rawStatus_header, takeNul_eq path.2.2 (drop_next here)]
  rfl

theorem parseRawFrom_record (record : DiffRecord) (here : raw.drop cursor = record.raw ++ rest)
    (files : List ChangedFile) :
    ∃ next, raw.drop next = rest ∧ parseRawFrom raw source cursor files =
      parseRawFrom raw source next (files ++ [{ record.file source with binary := false }]) := by
  have single : ∀ path : PathBytes, record.change.paths = [path] →
      raw.drop cursor = nul record.header ++ (nul path.1 ++ rest) := by
    intro path paths
    simpa [DiffRecord.raw, paths] using here
  have double : ∀ oldPath newPath : PathBytes, record.change.paths = [oldPath, newPath] →
      raw.drop cursor = nul record.header ++ (nul oldPath.1 ++ (nul newPath.1 ++ rest)) := by
    intro oldPath newPath paths
    simpa [DiffRecord.raw, paths] using here
  cases change : record.change with
  | added path
  | modified path
  | deleted path =>
    have here := single path (by rw [change]; rfl)
    refine ⟨_, drop_next (drop_next here), ?_⟩
    rw [parseRawFrom_header record path here, change]
    simp [rawEntry, DiffChange.letter, rawFile, DiffRecord.file, change, DiffChange.status,
      DiffChange.oldPath, DiffChange.newPath]
  | renamed score oldPath newPath
  | copied score oldPath newPath =>
    have here := double oldPath newPath (by rw [change]; rfl)
    have second := drop_next (drop_next here)
    refine ⟨_, drop_next second, ?_⟩
    rw [parseRawFrom_header record oldPath here, change]
    simp [rawEntry, DiffChange.letter, rawFile, DiffRecord.file, change, DiffChange.status,
      DiffChange.oldPath, DiffChange.newPath, takeNul_eq newPath.2.2 second]

theorem parseRawFrom_renderRaw (records : List DiffRecord) {cursor : ℕ}
    (here : raw.drop cursor = renderRaw records) (files : List ChangedFile) :
    parseRawFrom raw source cursor files =
      .ok (files ++ records.map fun record => { record.file source with binary := false }) := by
  induction records generalizing cursor files with
  | nil =>
    have past : ¬cursor < raw.length := by
      have empty : raw.drop cursor = [] := here
      simpa using List.drop_eq_nil_iff.mp empty
    rw [parseRawFrom, dif_neg past]
    simp
  | cons record records ih =>
    obtain ⟨next, after, step⟩ := parseRawFrom_record record here files
    rw [step, ih after]
    simp

end RawListing

section NumstatListing

/-- A count as the listing has it: a number, or the dash of a binary file. -/
def IsCount (count : Bytes) : Prop := (0 : UInt8) ∉ count ∧ (9 : UInt8) ∉ count

theorem isCount_decimal (number : Decimal) : IsCount number.1 :=
  ⟨fun mem => (not_whitespace_of_digit (number.2 0 mem)).1 rfl,
    fun mem => (not_whitespace_of_digit (number.2 9 mem)).2.1 rfl⟩

theorem isCount_dash : IsCount [45] := ⟨by decide, by decide⟩

theorem isCount_added (record : DiffRecord) : IsCount record.added := by
  unfold DiffRecord.added
  cases record.counts with
  | none => exact isCount_dash
  | some counts => exact isCount_decimal counts.1

theorem isCount_removed (record : DiffRecord) : IsCount record.removed := by
  unfold DiffRecord.removed
  cases record.counts with
  | none => exact isCount_dash
  | some counts => exact isCount_decimal counts.2

theorem dash_iff (record : DiffRecord) :
    (record.added = bytes "-" || record.removed = bytes "-" : Bool) = record.counts.isNone := by
  have number : ∀ number : Decimal, number.1 ≠ [45] := by
    intro number same
    have digit := number.2 45 (by rw [same]; exact List.mem_singleton_self _)
    exact absurd digit.1 (by decide)
  have dash : bytes "-" = [45] := by decide
  unfold DiffRecord.added DiffRecord.removed
  rw [dash]
  cases record.counts with
  | none => rfl
  | some counts => simp [number counts.1, number counts.2]

theorem splitTab_tab {field : Bytes} (free : (9 : UInt8) ∉ field) (rest : Bytes) :
    splitTab (field ++ 9 :: rest) = (field, some rest) := by
  have solid : ∀ byte ∈ field, (decide (byte ≠ 9)) = true := by
    intro byte mem
    have differ : byte ≠ 9 := fun same => free (same ▸ mem)
    simpa using differ
  unfold splitTab
  rw [List.takeWhile_append_of_pos solid, List.dropWhile_append_of_pos solid]
  simp

theorem numstatFields_eq {added removed : Bytes} (isAdded : IsCount added) (isRemoved : IsCount removed)
    (path : Bytes) : numstatFields (added ++ 9 :: removed ++ 9 :: path) = some (added, removed, path) := by
  have whole : added ++ 9 :: removed ++ 9 :: path = added ++ 9 :: (removed ++ 9 :: path) := by simp
  rw [numstatFields, whole, splitTab_tab isAdded.2]
  simp [splitTab_tab isRemoved.2]

variable {numstat rest : Bytes} {cursor : ℕ}

theorem paths_cases (change : DiffChange) :
    (∃ path, change.paths = [path]) ∨ ∃ oldPath newPath, change.paths = [oldPath, newPath] := by
  cases change with
  | added path => exact .inl ⟨path, rfl⟩
  | modified path => exact .inl ⟨path, rfl⟩
  | deleted path => exact .inl ⟨path, rfl⟩
  | renamed score oldPath newPath => exact .inr ⟨oldPath, newPath, rfl⟩
  | copied score oldPath newPath => exact .inr ⟨oldPath, newPath, rfl⟩

theorem applyNumstatFrom_counts (record : DiffRecord) {path : Bytes} (free : (0 : UInt8) ∉ path)
    (here : numstat.drop cursor =
      nul (record.added ++ 9 :: record.removed ++ 9 :: path) ++ rest) (index : ℕ)
    (files : List ChangedFile) :
    ∃ next, numstat.drop next = rest ∧ applyNumstatFrom numstat cursor index files =
      (orMalformed "numstat has too many records" files[index]?) >>= fun file =>
        if path.isEmpty then do
          let old ← takeNul numstat next
          let new ← takeNul numstat old.next
          applyNumstatFrom numstat new.next (index + 1)
            (files.set index { file with binary := record.counts.isNone })
        else applyNumstatFrom numstat next (index + 1)
          (files.set index { file with binary := record.counts.isNone }) := by
  have added := isCount_added record
  have removed := isCount_removed record
  have recordFree : (0 : UInt8) ∉ record.added ++ 9 :: record.removed ++ 9 :: path := by
    simp [added.1, removed.1, free]
  have nonempty : ¬(record.added ++ 9 :: record.removed ++ 9 :: path).isEmpty = true := by simp
  refine ⟨_, drop_next here, ?_⟩
  rw [applyNumstatFrom, dif_pos (lt_length here), takeNul_eq recordFree here]
  simp only [ok_bind]
  rw [if_neg nonempty, numstatFields_eq added removed, orMalformed, ok_bind, dash_iff]

theorem applyNumstatFrom_record (record : DiffRecord)
    (here : numstat.drop cursor = record.numstat ++ rest) (index : ℕ) (files : List ChangedFile) :
    ∃ next, numstat.drop next = rest ∧ applyNumstatFrom numstat cursor index files =
      (orMalformed "numstat has too many records" files[index]?) >>= fun file =>
        applyNumstatFrom numstat next (index + 1)
          (files.set index { file with binary := record.counts.isNone }) := by
  obtain ⟨path, paths⟩ | ⟨oldPath, newPath, paths⟩ := paths_cases record.change
  · have here : numstat.drop cursor =
        nul (record.added ++ 9 :: record.removed ++ 9 :: path.1) ++ rest := by
      simpa [DiffRecord.numstat, paths] using here
    obtain ⟨next, after, step⟩ := applyNumstatFrom_counts record path.2.2 here index files
    have nonempty : ¬path.1.isEmpty = true := by simpa using path.2.1
    refine ⟨next, after, step.trans ?_⟩
    simp only [if_neg nonempty]
  · have here : numstat.drop cursor = nul (record.added ++ 9 :: record.removed ++ 9 :: []) ++
        (nul oldPath.1 ++ (nul newPath.1 ++ rest)) := by
      simpa [DiffRecord.numstat, paths] using here
    obtain ⟨next, after, step⟩ :=
      applyNumstatFrom_counts record List.not_mem_nil here index files
    refine ⟨_, drop_next (drop_next after), step.trans ?_⟩
    simp only [List.isEmpty_nil, if_true, takeNul_eq oldPath.2.2 after, ok_bind,
      takeNul_eq newPath.2.2 (drop_next after)]

theorem applyNumstatFrom_renderNumstat (records : List DiffRecord) {cursor : ℕ}
    (here : numstat.drop cursor = renderNumstat records) (done files : List ChangedFile) :
    applyNumstatFrom numstat cursor done.length (done ++ files) =
      if records.length = files.length then
        .ok (done ++ List.zipWith (fun record file => { file with binary := record.counts.isNone })
          records files)
      else if files.length < records.length then malformed "numstat has too many records"
      else malformed "raw and numstat record counts differ" := by
  induction records generalizing cursor done files with
  | nil =>
    have past : ¬cursor < numstat.length := by
      have empty : numstat.drop cursor = [] := here
      simpa using List.drop_eq_nil_iff.mp empty
    rw [applyNumstatFrom, dif_neg past]
    cases files with
    | nil => simp
    | cons file files => simp
  | cons record records ih =>
    obtain ⟨next, after, step⟩ := applyNumstatFrom_record record here done.length (done ++ files)
    rw [step]
    cases files with
    | nil => simp [orMalformed, malformed, bind, Except.bind]
    | cons file files =>
      have found : (done ++ file :: files)[done.length]? = some file := by simp
      have set : (done ++ file :: files).set done.length
          { file with binary := record.counts.isNone } =
          (done ++ [{ file with binary := record.counts.isNone }]) ++ files := by simp
      have length : done.length + 1 =
          (done ++ [{ file with binary := record.counts.isNone }]).length := by simp
      rw [found, orMalformed, ok_bind, set, length, ih after]
      simp

end NumstatListing

section Diff

theorem parseRaw_renderRaw (records : List DiffRecord) (source : ChangeSourceLayer) :
    parseRaw (renderRaw records) source =
      .ok (records.map fun record => { record.file source with binary := false }) :=
  parseRawFrom_renderRaw records List.drop_zero []

theorem applyNumstat_renderNumstat (records : List DiffRecord) (files : List ChangedFile) :
    applyNumstat (renderNumstat records) files =
      if records.length = files.length then
        .ok (List.zipWith (fun record file => { file with binary := record.counts.isNone })
          records files)
      else if files.length < records.length then malformed "numstat has too many records"
      else malformed "raw and numstat record counts differ" :=
  applyNumstatFrom_renderNumstat records List.drop_zero [] files

end Diff

end CodeSystemGraph.Changes
