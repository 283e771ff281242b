import Mathlib.Data.List.Basic

/-!
The texts of JSON as concrete syntax trees that keep every character, so that a text is well
formed when some tree has it. The keys that a text declares are read off its tree, each with
the keys of the objects around it and with the line where it stands.
-/

namespace CodeSystemGraph.JsonText

section Tokens

def isSpace (c : Char) : Bool := c == ' ' || c == '\t' || c == '\n' || c == '\r'

def isPlain (c : Char) : Bool := c != '"' && c != '\\' && 0x20 ≤ c.toNat

/-- The characters that a single character after a backslash may be. -/
def isEscape (c : Char) : Bool := ['"', '\\', '/', 'b', 'f', 'n', 'r', 't'].contains c

def isHex (c : Char) : Bool := c.isDigit || ('a' ≤ c && c ≤ 'f') || ('A' ≤ c && c ≤ 'F')

structure Space where
  chars : List Char
  blank : chars.all isSpace = true

structure CodeUnit where
  digits : List Char
  four : digits.length = 4
  hex : digits.all isHex = true

inductive Element
  | plain (c : Char) (plain : isPlain c = true)
  | escape (c : Char) (escape : isEscape c = true)
  | unicode (unit : CodeUnit)

structure Digits where
  chars : List Char
  nonempty : chars ≠ []
  decimal : chars.all Char.isDigit = true

structure Exponent where
  upper : Bool
  sign : Option Bool
  digits : Digits

/-- A number: a sign, digits without a leading zero, a fraction and an exponent. -/
structure Number where
  negative : Bool
  whole : Digits
  canonical : whole.chars.head? = some '0' → whole.chars = ['0']
  fraction : Option Digits
  exponent : Option Exponent

inductive Scalar
  | null
  | bool (value : Bool)
  | number (digits : Number)

def Element.text : Element → List Char
  | plain c _ => [c]
  | escape c _ => ['\\', c]
  | unicode unit => '\\' :: 'u' :: unit.digits

def bodyText (body : List Element) : List Char := body.flatMap Element.text

def quoted (body : List Element) : List Char := '"' :: (bodyText body ++ ['"'])

def Exponent.text (exponent : Exponent) : List Char :=
  (if exponent.upper then 'E' else 'e') ::
    ((match exponent.sign with
      | none => []
      | some true => ['-']
      | some false => ['+']) ++ exponent.digits.chars)

def Number.text (number : Number) : List Char :=
  (if number.negative then ['-'] else []) ++ number.whole.chars ++
    (match number.fraction with
      | none => []
      | some digits => '.' :: digits.chars) ++
    (match number.exponent with
      | none => []
      | some exponent => exponent.text)

def Scalar.text : Scalar → List Char
  | null => ['n', 'u', 'l', 'l']
  | bool true => ['t', 'r', 'u', 'e']
  | bool false => ['f', 'a', 'l', 's', 'e']
  | number digits => digits.text

def isScalarChar (c : Char) : Bool :=
  let n := c.toNat
  (48 ≤ n && n ≤ 57) || (65 ≤ n && n ≤ 90) || (97 ≤ n && n ≤ 122) || n == 43 || n == 45 || n == 46

theorem isScalarChar_of_isDigit {c : Char} (digit : c.isDigit = true) : isScalarChar c = true := by
  have range : 48 ≤ c.toNat ∧ c.toNat ≤ 57 := Char.isDigit_iff_toNat.1 digit
  simp [isScalarChar, range]

theorem Digits.scalar (digits : Digits) : ∀ c ∈ digits.chars, isScalarChar c = true :=
  fun _ mem => isScalarChar_of_isDigit (List.all_eq_true.1 digits.decimal _ mem)

theorem Exponent.scalar (exponent : Exponent) : ∀ c ∈ exponent.text, isScalarChar c = true := by
  obtain ⟨upper, sign, digits⟩ := exponent
  intro c mem
  rw [Exponent.text, List.mem_cons, List.mem_append] at mem
  rcases mem with letter | mem | mem
  · subst letter
    cases upper <;> rfl
  · cases sign with
    | none => exact absurd mem List.not_mem_nil
    | some negative =>
      cases negative <;> rw [List.mem_singleton] at mem <;> subst mem <;> rfl
  · exact Digits.scalar digits c mem

theorem Number.scalar (number : Number) : ∀ c ∈ number.text, isScalarChar c = true := by
  obtain ⟨negative, whole, canonical, fraction, exponent⟩ := number
  intro c mem
  simp only [Number.text, List.mem_append] at mem
  rcases mem with ((mem | mem) | mem) | mem
  · cases negative with
    | false => exact absurd mem List.not_mem_nil
    | true =>
      obtain rfl := List.mem_singleton.1 mem
      rfl
  · exact Digits.scalar whole c mem
  · cases fraction with
    | none => exact absurd mem List.not_mem_nil
    | some digits =>
      rcases List.mem_cons.1 mem with rfl | mem
      · rfl
      · exact Digits.scalar digits c mem
  · cases exponent with
    | none => exact absurd mem List.not_mem_nil
    | some exponent => exact Exponent.scalar exponent c mem

theorem Scalar.scalar (token : Scalar) : ∀ c ∈ token.text, isScalarChar c = true := by
  cases token with
  | number digits => exact Number.scalar digits
  | null => exact List.all_eq_true.1 rfl
  | bool value => cases value <;> exact List.all_eq_true.1 rfl

theorem Scalar.text_ne_nil (token : Scalar) : token.text ≠ [] := by
  cases token with
  | number digits => simp [Scalar.text, Number.text, digits.whole.nonempty]
  | null => exact List.cons_ne_nil _ _
  | bool value => cases value <;> exact List.cons_ne_nil _ _

end Tokens

section Decoding

def hexValue (c : Char) : Nat :=
  if c.isDigit then c.toNat - 48 else if 'a' ≤ c then c.toNat - 87 else c.toNat - 55

def CodeUnit.value (unit : CodeUnit) : Nat :=
  unit.digits.foldl (fun value c => value * 16 + hexValue c) 0

def CodeUnit.isHigh (unit : CodeUnit) : Bool := 0xD800 ≤ unit.value && unit.value < 0xDC00

def CodeUnit.isLow (unit : CodeUnit) : Bool := 0xDC00 ≤ unit.value && unit.value < 0xE000

def escaped (c : Char) : Char :=
  if c = 'b' then Char.ofNat 8 else if c = 'f' then Char.ofNat 12 else if c = 'n' then '\n'
  else if c = 'r' then '\r' else if c = 't' then '\t' else c

/-- The characters that a string stands for; a surrogate that is not half of a pair stands
for none. -/
def decode : List Element → Option (List Char)
  | [] => some []
  | .plain c _ :: rest => (decode rest).map (c :: ·)
  | .escape c _ :: rest => (decode rest).map (escaped c :: ·)
  | .unicode unit :: rest =>
    if unit.isLow then none
    else if unit.isHigh then
      match rest with
      | .unicode low :: rest =>
        if low.isLow then
          (decode rest).map
            (Char.ofNat (0x10000 + (unit.value - 0xD800) * 0x400 + (low.value - 0xDC00)) :: ·)
        else none
      | _ => none
    else (decode rest).map (Char.ofNat unit.value :: ·)

/-- The elements of a text between quotes, if it is the text of any. -/
def readBody : List Char → Option (List Element)
  | [] => some []
  | c :: rest =>
    if plain : isPlain c = true then (readBody rest).map (.plain c plain :: ·)
    else if c = '\\' then
      match rest with
      | [] => none
      | e :: rest =>
        if escape : isEscape e = true then (readBody rest).map (.escape e escape :: ·)
        else if e = 'u' then
          if hex : (rest.take 4).length = 4 ∧ (rest.take 4).all isHex = true then
            (readBody (rest.drop 4)).map (.unicode ⟨rest.take 4, hex.1, hex.2⟩ :: ·)
          else none
        else none
    else none
termination_by text => text.length
decreasing_by all_goals simp; try omega

theorem readBody_bodyText (body : List Element) : readBody (bodyText body) = some body := by
  induction body with
  | nil => rw [bodyText, List.flatMap_nil, readBody]
  | cons element body ih =>
    have text : bodyText (element :: body) = element.text ++ bodyText body := List.flatMap_cons
    rw [text]
    cases element with
    | plain c plain =>
      change readBody (c :: bodyText body) = _
      rw [readBody.eq_def]
      simp [plain, ih]
    | escape c escape =>
      have backslash : isPlain '\\' = false := rfl
      change readBody ('\\' :: c :: bodyText body) = _
      rw [readBody.eq_def]
      simp [backslash, escape, ih]
    | unicode unit =>
      obtain ⟨digits, four, hex⟩ := unit
      have backslash : isPlain '\\' = false := rfl
      have other : isEscape 'u' = false := by decide
      have taken : (digits ++ bodyText body).take 4 = digits := by
        rw [← four, List.take_left]
      have left : (digits ++ bodyText body).drop 4 = bodyText body := by
        rw [← four, List.drop_left]
      change readBody ('\\' :: 'u' :: (digits ++ bodyText body)) = _
      rw [readBody.eq_def]
      simp only [backslash, other, taken, left, ih]
      simp [four, hex]

example : decode [.unicode ⟨['d', '8', '3', 'd'], rfl, rfl⟩,
    .unicode ⟨['D', 'E', '0', '0'], rfl, rfl⟩, .escape 'n' rfl] = some ['😀', '\n'] := by decide

end Decoding

section Trees

structure Label where
  before : Space
  key : List Element
  middle : Space
  space : Space

def Label.text (label : Label) : List Char :=
  label.before.chars ++ quoted label.key ++ label.middle.chars ++ ':' :: label.space.chars

inductive Part
  | value | items | members

/-- Values, the items of an array and the members of an object, with the space around them. -/
inductive Json : Part → Type
  | scalar (token : Scalar) : Json .value
  | string (body : List Element) : Json .value
  | emptyArray (space : Space) : Json .value
  | array (content : Json .items) : Json .value
  | emptyObject (space : Space) : Json .value
  | object (content : Json .members) : Json .value
  | item (before : Space) (value : Json .value) (after : Space) : Json .items
  | items (before : Space) (value : Json .value) (after : Space) (rest : Json .items) : Json .items
  | member (label : Label) (value : Json .value) (after : Space) : Json .members
  | members (label : Label) (value : Json .value) (after : Space) (rest : Json .members) :
    Json .members

namespace Json

def text : {part : Part} → Json part → List Char
  | _, .scalar token => token.text
  | _, .string body => quoted body
  | _, .emptyArray space => '[' :: (space.chars ++ [']'])
  | _, .array content => '[' :: (content.text ++ [']'])
  | _, .emptyObject space => '{' :: (space.chars ++ ['}'])
  | _, .object content => '{' :: (content.text ++ ['}'])
  | _, .item before value after => before.chars ++ value.text ++ after.chars
  | _, .items before value after rest =>
    before.chars ++ value.text ++ after.chars ++ ',' :: rest.text
  | _, .member label value after => label.text ++ value.text ++ after.chars
  | _, .members label value after rest => label.text ++ value.text ++ after.chars ++ ',' :: rest.text

/-- How many arrays and objects lie in one another. -/
def depth : {part : Part} → Json part → Nat
  | _, .scalar _ => 0
  | _, .string _ => 0
  | _, .emptyArray _ => 1
  | _, .array content => content.depth + 1
  | _, .emptyObject _ => 1
  | _, .object content => content.depth + 1
  | _, .item _ value _ => value.depth
  | _, .items _ value _ rest => max value.depth rest.depth
  | _, .member _ value _ => value.depth
  | _, .members _ value _ rest => max value.depth rest.depth

def keys : {part : Part} → Json part → List (List Element)
  | _, .scalar _ => []
  | _, .string _ => []
  | _, .emptyArray _ => []
  | _, .array content => content.keys
  | _, .emptyObject _ => []
  | _, .object content => content.keys
  | _, .item _ value _ => value.keys
  | _, .items _ value _ rest => value.keys ++ rest.keys
  | _, .member label value _ => label.key :: value.keys
  | _, .members label value _ rest => label.key :: (value.keys ++ rest.keys)

end Json

def lines (text : List Char) : Nat := text.count '\n'

theorem lines_append (text more : List Char) : lines (text ++ more) = lines text + lines more :=
  List.count_append

@[simp] theorem lines_nil : lines [] = 0 := rfl

theorem lines_cons {c : Char} (text : List Char) (differs : c ≠ '\n') :
    lines (c :: text) = lines text := by
  rw [lines, List.count_cons_of_ne differs]
  rfl

theorem lines_of_ne {c : Char} (differs : c ≠ '\n') : lines [c] = 0 := by
  rw [lines, List.count_singleton, if_neg (by simpa)]

/-- A key in an object that the keys of its scope lead to, and the line of its declaration. -/
structure Declaration where
  scope : List String
  name : String
  line : Nat
deriving DecidableEq

def keyName (key : List Element) : String := String.ofList ((decode key).getD [])

/-- The declarations of a text that begins on a line, in an object that a scope leads to;
an array adds nothing to the scope. -/
def Json.declarations : {part : Part} → Json part → List String → Nat → List Declaration
  | _, .scalar _, _, _ => []
  | _, .string _, _, _ => []
  | _, .emptyArray _, _, _ => []
  | _, .array content, scope, line => content.declarations scope line
  | _, .emptyObject _, _, _ => []
  | _, .object content, scope, line => content.declarations scope line
  | _, .item before value _, scope, line => value.declarations scope (line + lines before.chars)
  | _, .items before value after rest, scope, line =>
    value.declarations scope (line + lines before.chars) ++
      rest.declarations scope (line + lines (before.chars ++ value.text ++ after.chars))
  | _, .member label value _, scope, line =>
    ⟨scope, keyName label.key, line + lines label.before.chars⟩ ::
      value.declarations (scope ++ [keyName label.key]) (line + lines label.text)
  | _, .members label value after rest, scope, line =>
    ⟨scope, keyName label.key, line + lines label.before.chars⟩ ::
      (value.declarations (scope ++ [keyName label.key]) (line + lines label.text) ++
        rest.declarations scope (line + lines (label.text ++ value.text ++ after.chars)))

/-- The tree with `null` in the place of every string and every other scalar. -/
def Json.concealed : {part : Part} → Json part → Json part
  | _, .scalar _ => .scalar .null
  | _, .string _ => .scalar .null
  | _, .emptyArray space => .emptyArray space
  | _, .array content => .array content.concealed
  | _, .emptyObject space => .emptyObject space
  | _, .object content => .object content.concealed
  | _, .item before value after => .item before value.concealed after
  | _, .items before value after rest => .items before value.concealed after rest.concealed
  | _, .member label value after => .member label value.concealed after
  | _, .members label value after rest => .members label value.concealed after rest.concealed

theorem lines_eq_zero {text : List Char} (none : '\n' ∉ text) : lines text = 0 :=
  List.count_eq_zero.2 none

theorem lines_scalar (token : Scalar) : lines token.text = 0 :=
  lines_eq_zero fun mem => absurd (Scalar.scalar token _ mem) (by decide)

theorem Element.lineFeed_notMem_text (element : Element) : '\n' ∉ element.text := by
  cases element with
  | plain c plain =>
    intro mem
    obtain rfl := List.mem_singleton.1 mem
    exact absurd plain (by decide)
  | escape c escape =>
    intro mem
    rcases List.mem_cons.1 mem with same | mem
    · exact absurd same (by decide)
    · obtain rfl := List.mem_singleton.1 mem
      exact absurd escape (by decide)
  | unicode unit =>
    intro mem
    rcases List.mem_cons.1 mem with same | mem
    · exact absurd same (by decide)
    · rcases List.mem_cons.1 mem with same | mem
      · exact absurd same (by decide)
      · exact absurd (List.all_eq_true.1 unit.hex _ mem) (by decide)

theorem lines_quoted (body : List Element) : lines (quoted body) = 0 := by
  refine lines_eq_zero fun mem => ?_
  simp only [quoted, bodyText, List.mem_cons, List.mem_append, List.mem_flatMap, List.not_mem_nil,
    or_false] at mem
  rcases mem with same | ⟨element, -, mem⟩ | same
  · exact absurd same (by decide)
  · exact element.lineFeed_notMem_text mem
  · exact absurd same (by decide)

theorem Json.lines_concealed {part : Part} (json : Json part) :
    lines json.concealed.text = lines json.text := by
  induction json with
  | scalar token => rw [concealed, text, text, lines_scalar, lines_scalar]
  | string body => rw [concealed, text, text, lines_scalar, lines_quoted]
  | emptyArray space => rfl
  | array content ih => simp [concealed, text, lines_cons, lines_append, ih]
  | emptyObject space => rfl
  | object content ih => simp [concealed, text, lines_cons, lines_append, ih]
  | item before value after ih => simp [concealed, text, lines_append, ih]
  | items before value after rest ih others =>
    simp [concealed, text, lines_cons, lines_append, ih, others]
  | member label value after ih => simp [concealed, text, lines_append, ih]
  | members label value after rest ih others =>
    simp [concealed, text, lines_cons, lines_append, ih, others]

theorem Json.declarations_concealed {part : Part} (json : Json part) (scope : List String)
    (line : Nat) : json.concealed.declarations scope line = json.declarations scope line := by
  induction json generalizing scope line with
  | scalar token => rfl
  | string body => rfl
  | emptyArray space => rfl
  | array content ih => exact ih scope line
  | emptyObject space => rfl
  | object content ih => exact ih scope line
  | item before value after ih => exact ih scope _
  | items before value after rest ih others =>
    simp only [concealed, declarations, lines_append, lines_concealed, ih, others]
  | member label value after ih => simp only [concealed, declarations, ih]
  | members label value after rest ih others =>
    simp only [concealed, declarations, lines_append, lines_concealed, ih, others]

theorem Json.depth_concealed {part : Part} (json : Json part) :
    json.concealed.depth = json.depth := by
  induction json <;> simp_all [concealed, depth]

theorem Json.keys_concealed {part : Part} (json : Json part) : json.concealed.keys = json.keys := by
  induction json <;> simp_all [concealed, keys]

structure Document where
  before : Space
  value : Json .value
  after : Space

namespace Document

def text (document : Document) : List Char :=
  document.before.chars ++ document.value.text ++ document.after.chars

def declarations (document : Document) : List Declaration :=
  document.value.declarations [] (1 + lines document.before.chars)

def concealed (document : Document) : Document :=
  { document with value := document.value.concealed }

theorem declarations_concealed (document : Document) :
    document.concealed.declarations = document.declarations :=
  document.value.declarations_concealed [] _

end Document

def WellFormed (text : List Char) : Prop := ∃ document : Document, document.text = text

end Trees

end CodeSystemGraph.JsonText
