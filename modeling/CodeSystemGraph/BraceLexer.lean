import CodeSystemGraph.Text
import Mathlib.Data.List.Count
import Mathlib.Data.List.TakeDrop

/-! The lexer of JavaScript and TypeScript, Go, and Java. Positions index the characters of
the source; a run that reads outside of them has no result. -/

namespace CodeSystemGraph.BraceLexer
open Text

inductive BraceDialect
  | script | go | java
deriving DecidableEq

inductive TokenKind
  | ident (word : List Char)
  | literal (value : Option (List Char))
  | template (body : List Char)
  | punct (character : Char)
deriving DecidableEq

structure Token where
  kind : TokenKind
  line : UInt32
  endLine : UInt32
deriving DecidableEq

/-- A token with the position of its first character and the one after its last. -/
structure Spanned where
  token : Token
  start : Nat
  stop : Nat
deriving DecidableEq

/-- The letters of the Unicode tables. A newline is none of them. -/
structure Alphabet where
  isAlphabetic : Char → Bool
  isAlphanumeric : Char → Bool
  newline : isAlphanumeric '\n' = false

def backtick : Char := '\x60'

def apostrophe : Char := '\x27'

def isAsciiAlphabetic (c : Char) : Bool := ('a' ≤ c && c ≤ 'z') || ('A' ≤ c && c ≤ 'Z')

def isAsciiDigit (c : Char) : Bool := '0' ≤ c && c ≤ '9'

def isAsciiAlphanumeric (c : Char) : Bool := isAsciiAlphabetic c || isAsciiDigit c

section Characters

def regexKeywords : List String :=
  ["return", "typeof", "case", "do", "else", "in", "of", "new", "delete", "void", "throw",
    "yield", "await"]

def isWordStart (alphabet : Alphabet) (dialect : BraceDialect) (character : Char) : Bool :=
  character = '_' || alphabet.isAlphabetic character || (character = '$' && dialect ≠ .go)

def isWordContinue (alphabet : Alphabet) (dialect : BraceDialect) (character : Char) : Bool :=
  character = '_' || alphabet.isAlphanumeric character || (character = '$' && dialect ≠ .go)

def regexAllowed : Option TokenKind → Bool
  | none => true
  | some (.punct character) => !(character = ')' || character = ']' || character = '}')
  | some (.ident word) => regexKeywords.any fun keyword => keyword.toList = word
  | some (.literal _) => false
  | some (.template _) => false

def unescape (escaped : Char) : Char :=
  if escaped = 'n' then '\n' else if escaped = 't' then '\t' else if escaped = 'r' then '\r' else escaped

end Characters

section Scanners

variable (characters : List Char)

def slice (start stop : Nat) : Option (List Char) :=
  if start ≤ stop ∧ stop ≤ characters.length then some ((characters.take stop).drop start) else none

def scanWhile (test : Char → Bool) : Nat → Nat → Option Nat
  | 0, _ => none
  | fuel + 1, index =>
    if index < characters.length then do
      let character ← characters[index]?
      if test character then scanWhile test fuel (index + 1) else some index
    else some index

def scanLines (closes : Char → Option Char → Bool) : Nat → Nat → UInt32 → Option (Nat × UInt32)
  | 0, _, _ => none
  | fuel + 1, index, line =>
    if index < characters.length then do
      let character ← characters[index]?
      if closes character characters[index + 1]? then some (index, line)
      else scanLines closes fuel (index + 1) (if character = '\n' then line + 1 else line)
    else some (index, line)

def skipRegex : Nat → Nat → Bool → Option Nat
  | 0, _, _ => none
  | fuel + 1, index, inClass =>
    if index < characters.length then do
      let character ← characters[index]?
      if character = '\n' then some index
      else if character = '\\' then skipRegex fuel (index + 2) inClass
      else if character = '[' then skipRegex fuel (index + 1) true
      else if character = ']' then skipRegex fuel (index + 1) false
      else if character = '/' && !inClass then
        scanWhile characters isAsciiAlphabetic fuel (index + 1)
      else skipRegex fuel (index + 1) inClass
    else some index

def quoted (quote : Char) : Nat → Nat → List Char → Option (Nat × Option (List Char))
  | 0, _, _ => none
  | fuel + 1, index, value =>
    if index < characters.length then do
      let character ← characters[index]?
      if character = '\n' then some (index, none)
      else if character = '\\' then
        quoted quote fuel (index + 2) (value ++ (characters[index + 1]?.map unescape).toList)
      else if character = quote then some (index + 1, some value)
      else quoted quote fuel (index + 1) (value ++ [character])
    else some (index, none)

def rawString (fuel start : Nat) (line : UInt32) : Option (Nat × List Char × UInt32) := do
  let found ← scanLines characters (fun character _ => character = backtick) fuel start line
  let value ← slice characters start found.1
  some (found.1 + 1, value, found.2)

def textBlock (start : Nat) : Nat → Nat → UInt32 → Option (Nat × Option (List Char) × UInt32)
  | 0, _, _ => none
  | fuel + 1, index, line =>
    if index + 2 < characters.length then do
      let first ← characters[index]?
      let second ← characters[index + 1]?
      let third ← characters[index + 2]?
      if first = '"' && second = '"' && third = '"' then do
        let value ← slice characters start index
        some (index + 3, some (trim value), line)
      else textBlock start fuel (index + 1) (if first = '\n' then line + 1 else line)
    else some (characters.length, none, line)

def template : Nat → Nat → Nat → UInt32 → UInt32 → Option (Nat × List Char × UInt32)
  | 0, _, _, _, _ => none
  | fuel + 1, start, index, depth, line =>
    if index < characters.length then do
      let character ← characters[index]?
      if character = '\n' then template fuel start (index + 1) depth (line + 1)
      else if character = '\\' then template fuel start (index + 2) depth line
      else if character = '$' && depth = 0 && characters[index + 1]? = some '\x7b' then
        template fuel start (index + 2) 1 line
      else if character = '\x7b' && 0 < depth then template fuel start (index + 1) (depth + 1) line
      else if character = '\x7d' && 0 < depth then template fuel start (index + 1) (depth - 1) line
      else if character = backtick && depth = 0 then do
        let body ← slice characters start index
        some (index + 1, body, line)
      else if character = backtick then do
        let nested ← template fuel (index + 1) (index + 1) 0 line
        template fuel start nested.1 depth nested.2.2
      else if (character = '"' || character = apostrophe) && 0 < depth then do
        let inner ← quoted characters character fuel (index + 1) []
        template fuel start inner.1 depth line
      else template fuel start (index + 1) depth line
    else do
      let body ← slice characters start characters.length
      some (index, body, line)

end Scanners

section Lexer

variable (characters : List Char)

structure Lexer where
  index : Nat
  line : UInt32
  tokens : List Spanned

/-- A token from the current position up to the given one. -/
def Lexer.push (s : Lexer) (kind : TokenKind) (stop : Nat) (line : UInt32) : Lexer :=
  { index := stop
    line
    tokens := s.tokens ++ [{
      token := { kind, line := s.line, endLine := line }
      start := s.index
      stop := min stop characters.length }] }

variable (alphabet : Alphabet) (dialect : BraceDialect)

/-- One turn of the main loop, at a position inside the source. -/
def Lexer.turn (fuel : Nat) (s : Lexer) : Option Lexer := do
  let character ← characters[s.index]?
  let next := characters[s.index + 1]?
  if character = '\n' then some { s with index := s.index + 1, line := s.line + 1 }
  else if isWhitespace character then some { s with index := s.index + 1 }
  else if character = '/' && next = some '/' then do
    let stop ← scanWhile characters (· ≠ '\n') fuel s.index
    some { s with index := stop }
  else if character = '/' && next = some '*' then do
    let found ← scanLines characters (fun c following => c = '*' && following = some '/') fuel
      (s.index + 2) s.line
    some { s with index := found.1 + 2, line := found.2 }
  else if character = '/' && dialect = .script && regexAllowed (s.tokens.getLast?.map (·.token.kind)) then do
    let stop ← skipRegex characters fuel (s.index + 1) false
    some (s.push characters (.literal none) stop s.line)
  else if character = '"' && dialect = .java && next = some '"' && characters[s.index + 2]? = some '"' then do
    let found ← textBlock characters (s.index + 3) fuel (s.index + 3) s.line
    some (s.push characters (.literal found.2.1) found.1 found.2.2)
  else if character = '"' || character = apostrophe then do
    let found ← quoted characters character fuel (s.index + 1) []
    some (s.push characters (.literal found.2) found.1 s.line)
  else if character = backtick && dialect = .script then do
    let found ← template characters fuel (s.index + 1) (s.index + 1) 0 s.line
    some (s.push characters (.template found.2.1) found.1 found.2.2)
  else if character = backtick && dialect = .go then do
    let found ← rawString characters fuel (s.index + 1) s.line
    some (s.push characters (.literal (some found.2.1)) found.1 found.2.2)
  else if isAsciiDigit character then do
    let stop ← scanWhile characters (fun c => isAsciiAlphanumeric c || c = '.' || c = '_') fuel s.index
    some (s.push characters (.literal none) stop s.line)
  else if isWordStart alphabet dialect character then do
    let stop ← scanWhile characters (isWordContinue alphabet dialect) fuel (s.index + 1)
    let word ← slice characters s.index stop
    some (s.push characters (.ident word) stop s.line)
  else some (s.push characters (.punct character) (s.index + 1) s.line)

def Lexer.run : Nat → Lexer → Option (List Spanned)
  | 0, _ => none
  | fuel + 1, s =>
    if s.index < characters.length then do
      let s' ← s.turn characters alphabet dialect fuel
      Lexer.run fuel s'
    else some s.tokens

def lexSpanned (fuel : Nat) (source : List Char) : Option (List Spanned) :=
  Lexer.run source alphabet dialect fuel { index := 0, line := 1, tokens := [] }

def lexBrace (fuel : Nat) (source : List Char) : Option (List Token) :=
  (lexSpanned alphabet dialect fuel source).map fun tokens => tokens.map (·.token)

end Lexer

end CodeSystemGraph.BraceLexer
