import CodeSystemGraph.Model
import CodeSystemGraph.Ordered
import CodeSystemGraph.Text
import Mathlib.Data.List.Infix

/-! Local Git changes and the decoder of a zero-context patch. The decoder sees
one line at a time and keeps the section it is in, the open hunk and the next
line number on each side. -/

namespace CodeSystemGraph.Changes
open Model Ordered Text

def bytes (text : String) : Bytes := text.toByteArray.data.toList

inductive ChangeSourceLayer
  | staged | worktree | untracked | commit
deriving DecidableEq

inductive ChangedFileStatus
  | added | modified | deleted | renamed | copied | untracked
deriving DecidableEq

inductive ChangedLineKind
  | removed | added
deriving DecidableEq

structure ChangedLine where
  kind : ChangedLineKind
  oldLine : Option Nat
  newLine : Option Nat
deriving DecidableEq

structure ChangeHunk where
  oldStart : Nat
  oldCount : Nat
  newStart : Nat
  newCount : Nat
  lines : List ChangedLine
deriving DecidableEq

structure ChangedFile where
  status : ChangedFileStatus
  oldPath : Option NativePath
  newPath : Option NativePath
  binary : Bool
  hunks : List ChangeHunk
  source : ChangeSourceLayer
deriving DecidableEq

inductive ChangeError
  | malformedGitOutput (message : String)
  | invalidPathspec (pathspec : String)
deriving DecidableEq

section Decoder

/-- The number of values of a `u32`. -/
def u32Values : Nat := 2 ^ 32

def saturatingAdd (a b : Nat) : Nat := min (a + b) (u32Values - 1)

def fromUtf8 (line : Bytes) : Option (List Char) := line.toByteArray.utf8Decode?.map Array.toList

/-- `char::is_ascii_whitespace`: a vertical tab is not one. -/
def isAsciiWhitespace (c : Char) : Bool :=
  c = ' ' || c = '\t' || c = '\n' || c = '\x0c' || c = '\r'

def splitAsciiWhitespace (text : List Char) : List (List Char) :=
  (text.splitOnP isAsciiWhitespace).filter fun field => !field.isEmpty

def splitInclusive : Bytes → List Bytes
  | [] => []
  | byte :: rest =>
    if byte = 10 then [byte] :: splitInclusive rest
    else
      match splitInclusive rest with
      | [] => [[byte]]
      | line :: lines => (byte :: line) :: lines

def malformed {α : Type} (message : String) : Except ChangeError α :=
  .error (.malformedGitOutput message)

def orMalformed {α : Type} (message : String) : Option α → Except ChangeError α
  | some a => .ok a
  | none => malformed message

def parseRange (value : List Char) (sign : Char) : Except ChangeError (Nat × Nat) := do
  let value ← orMalformed "invalid hunk range prefix" (stripPrefix [sign] value)
  let (start, count) := splitOnce ',' value
  let start ← orMalformed "invalid hunk start" (parseUnsigned u32Values start)
  let count ← orMalformed "invalid hunk count" (parseUnsigned u32Values (count.getD ['1']))
  return (start, count)

def parseHunkHeader (line : Bytes) : Except ChangeError ChangeHunk := do
  let text ← orMalformed "non-ASCII hunk header" (fromUtf8 line)
  let fields := splitAsciiWhitespace text
  if fields[0]? ≠ some ['@', '@'] then malformed "invalid hunk marker"
  else
    let old ← orMalformed "missing old hunk range" fields[1]?
    let new ← orMalformed "missing new hunk range" fields[2]?
    let (oldStart, oldCount) ← parseRange old '-'
    let (newStart, newCount) ← parseRange new '+'
    return { oldStart, oldCount, newStart, newCount, lines := [] }

def finishHunk (files : List ChangedFile) (fileIndex : Option Nat) (hunk : Option ChangeHunk) :
    Except ChangeError (List ChangedFile) :=
  match hunk with
  | none => .ok files
  | some hunk =>
    match fileIndex with
    | none => malformed "hunk precedes file header"
    | some index =>
      if index < files.length then
        .ok (files.modify index fun file => { file with hunks := file.hunks ++ [hunk] })
      else malformed "patch file index exceeds raw output"

structure Decoder where
  files : List ChangedFile
  fileIndex : Option Nat
  currentHunk : Option ChangeHunk
  oldLine : Nat
  newLine : Nat

/-- A line inside an open hunk. -/
def changedLine (state : Decoder) (hunk : ChangeHunk) (line : Bytes) : Decoder :=
  if (bytes "+").isPrefixOf line && !(bytes "+++").isPrefixOf line then
    { state with
      currentHunk := some { hunk with lines := hunk.lines ++ [⟨.added, none, some state.newLine⟩] }
      newLine := saturatingAdd state.newLine 1 }
  else if (bytes "-").isPrefixOf line && !(bytes "---").isPrefixOf line then
    { state with
      currentHunk := some { hunk with lines := hunk.lines ++ [⟨.removed, some state.oldLine, none⟩] }
      oldLine := saturatingAdd state.oldLine 1 }
  else if (bytes " ").isPrefixOf line then
    { state with
      oldLine := saturatingAdd state.oldLine 1
      newLine := saturatingAdd state.newLine 1 }
  else state

def patchLine (state : Decoder) (line : Bytes) : Except ChangeError Decoder := do
  if (bytes "diff --git ").isPrefixOf line then
    let files ← finishHunk state.files state.fileIndex state.currentHunk
    return { state with
      files
      fileIndex := some (state.fileIndex.elim 0 (· + 1))
      currentHunk := none }
  else if (bytes "@@ ").isPrefixOf line then
    let files ← finishHunk state.files state.fileIndex state.currentHunk
    let hunk ← parseHunkHeader line
    return { state with
      files, currentHunk := some hunk, oldLine := hunk.oldStart, newLine := hunk.newStart }
  else
    match state.currentHunk with
    | none => return state
    | some hunk => return changedLine state hunk line

def applyPatch (patch : Bytes) (files : List ChangedFile) : Except ChangeError (List ChangedFile) := do
  let state ← (splitInclusive patch).foldlM patchLine ⟨files, none, none, 0, 0⟩
  let files ← finishHunk state.files state.fileIndex state.currentHunk
  if state.fileIndex.any (files.length ≤ ·) then
    malformed "patch has more file sections than raw output"
  else return files

end Decoder

section Texts

def encode (text : List Char) : Bytes := text.flatMap String.utf8EncodeChar

theorem isValidUTF8_encode_append (text : List Char) (rest : ByteArray) :
    (text.utf8Encode ++ rest).IsValidUTF8 ↔ rest.IsValidUTF8 := by
  induction text with
  | nil => simp
  | cons c text ih =>
    rw [List.utf8Encode_cons, ByteArray.append_assoc,
      ByteArray.isValidUTF8_utf8Encode_singleton_append_iff, ih]

theorem fromUtf8_eq_none {line : Bytes} : fromUtf8 line = none ↔ ¬line.toByteArray.IsValidUTF8 := by
  rw [fromUtf8, Option.map_eq_none_iff, ← ByteArray.isSome_utf8Decode?_iff]
  simp

theorem fromUtf8_encode_append (text : List Char) (rest : Bytes) :
    fromUtf8 (encode text ++ rest) = (fromUtf8 rest).map (text ++ ·) := by
  have split : (encode text ++ rest).toByteArray = text.utf8Encode ++ rest.toByteArray := by
    simp [encode, List.utf8Encode]
  by_cases valid : rest.toByteArray.IsValidUTF8
  · obtain ⟨tail, encoded⟩ := valid
    rw [fromUtf8, fromUtf8, split, encoded, ← List.utf8Encode_append,
      List.utf8Decode?_utf8Encode, List.utf8Decode?_utf8Encode]
    rfl
  · have invalid : ¬(encode text ++ rest).toByteArray.IsValidUTF8 := by
      rwa [split, isValidUTF8_encode_append]
    rw [fromUtf8_eq_none.mpr valid, fromUtf8_eq_none.mpr invalid, Option.map_none]

theorem isValidUTF8_line {line : Bytes} :
    (line ++ [10]).toByteArray.IsValidUTF8 ↔ line.toByteArray.IsValidUTF8 := by
  constructor
  · rintro ⟨text, encoded⟩
    have same : text.flatMap String.utf8EncodeChar = line ++ [10] := by
      have data := congrArg (·.data.toList) encoded
      simpa [List.utf8Encode] using data.symm
    rcases List.eq_nil_or_concat text with rfl | ⟨text, c, rfl⟩
    · simp at same
    · rw [List.concat_eq_append, List.flatMap_append, List.flatMap_singleton] at same
      have size : 0 < (String.utf8EncodeChar c).length := by
        simpa using c.utf8Size_pos
      have last : (String.utf8EncodeChar c)[(String.utf8EncodeChar c).length - 1] = 10 := by
        have ends := congrArg List.getLast? same
        rw [List.getLast?_append, List.getLast?_concat, List.getLast?_eq_getElem?,
          List.getElem?_eq_getElem (by omega)] at ends
        simpa using ends
      have first : (10 : UInt8).IsUTF8FirstByte := by decide
      have single : (String.utf8EncodeChar c).length - 1 = 0 := by
        rw [← last] at first
        exact UInt8.isUTF8FirstByte_getElem_utf8EncodeChar.mp first
      obtain ⟨byte, only⟩ := List.length_eq_one_iff.mp (show (String.utf8EncodeChar c).length = 1 by omega)
      rw [only] at same
      have front : text.flatMap String.utf8EncodeChar = line := (List.append_inj' same rfl).1
      exact ⟨text, by rw [← front]; rfl⟩
  · rintro ⟨text, encoded⟩
    refine ⟨text ++ ['\n'], ?_⟩
    rw [List.utf8Encode_append, ← encoded, List.toByteArray_append]
    rfl

theorem splitInclusive_line {line : Bytes} (free : 10 ∉ line) (rest : Bytes) :
    splitInclusive (line ++ 10 :: rest) = (line ++ [10]) :: splitInclusive rest := by
  induction line with
  | nil => simp [splitInclusive]
  | cons byte line ih =>
    rw [List.mem_cons, not_or] at free
    simp [splitInclusive, Ne.symm free.1, ih free.2]

theorem splitAsciiWhitespace_field {field : List Char} (nonempty : field ≠ [])
    (free : ∀ c ∈ field, isAsciiWhitespace c = false) (rest : List Char) :
    splitAsciiWhitespace (field ++ ' ' :: rest) = field :: splitAsciiWhitespace rest := by
  have cut := List.splitOnP_append_cons_of_forall_mem free ' ' (by decide) rest
  simp [splitAsciiWhitespace, cut, nonempty]

theorem isDigit_of_mem {n : Nat} {c : Char} (mem : c ∈ Nat.toDigits 10 n) : c.isDigit = true :=
  Nat.isDigit_of_mem_toDigits (by decide) (by decide) mem

theorem parseUnsigned_toDigits {limit n : Nat} (fits : n < limit) :
    parseUnsigned limit (Nat.toDigits 10 n) = some n := by
  have unsigned : (Nat.toDigits 10 n).head? ≠ some '+' := by
    intro plus
    have digit := isDigit_of_mem (List.mem_of_mem_head? plus)
    exact absurd digit (by decide)
  have all : (Nat.toDigits 10 n).all Char.isDigit = true :=
    List.all_eq_true.mpr fun c mem => isDigit_of_mem mem
  simp [parseUnsigned, unsigned, all, fits, Nat.toDigits_ne_nil]

end Texts

end CodeSystemGraph.Changes
