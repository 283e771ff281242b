import CodeSystemGraph.Text
import Mathlib.Data.List.Chain

/-!
A reader of XML documents made of elements, attributes and character data, with
the five predefined entities. A text that writes tokens is read back as those.
-/

namespace CodeSystemGraph.Xml

open Text

def isLegal (c : Char) : Bool :=
  let n := c.toNat
  n == 0x9 || n == 0xA || n == 0xD || (0x20 ≤ n && n ≤ 0xD7FF) || (0xE000 ≤ n && n ≤ 0xFFFD) ||
    0x10000 ≤ n

def isSpace (c : Char) : Bool := c == ' ' || c == '\t' || c == '\n' || c == '\r'

/-- The ASCII part of the production `NameChar`. -/
def isNameChar (c : Char) : Bool := c.isAlphanum || c == '-' || c == '.' || c == '_' || c == ':'

section References

def escapeChar (c : Char) : List Char :=
  if c = '&' then "&amp;".toList
  else if c = '<' then "&lt;".toList
  else if c = '>' then "&gt;".toList
  else if c = '"' then "&quot;".toList
  else if c = '\x27' then "&apos;".toList
  else [c]

def escape (text : List Char) : List Char := text.flatMap escapeChar

def entity (name : String) : Option Char :=
  if name = "amp" then some '&'
  else if name = "lt" then some '<'
  else if name = "gt" then some '>'
  else if name = "quot" then some '"'
  else if name = "apos" then some '\x27'
  else none

/-- Character data with its references resolved. `pending` is the name of the reference that is
being read, last character first. -/
def decodeFrom : Option (List Char) → List Char → Option (List Char)
  | none, [] => some []
  | some _, [] => none
  | none, c :: rest =>
    if c = '&' then decodeFrom (some []) rest
    else if c = '<' then none
    else (decodeFrom none rest).map (c :: ·)
  | some name, c :: rest =>
    if c = ';' then
      match entity (String.ofList name.reverse) with
      | some character => (decodeFrom none rest).map (character :: ·)
      | none => none
    else decodeFrom (some (c :: name)) rest

def decode (text : List Char) : Option (List Char) := decodeFrom none text

theorem decodeFrom_escapeChar (c : Char) (rest : List Char) :
    decodeFrom none (escapeChar c ++ rest) = (decodeFrom none rest).map (c :: ·) := by
  unfold escapeChar
  split_ifs with amp lt gt quot apos
  · rw [amp]; rfl
  · rw [lt]; rfl
  · rw [gt]; rfl
  · rw [quot]; rfl
  · rw [apos]; rfl
  · rw [List.singleton_append, decodeFrom, if_neg amp, if_neg lt]

theorem decode_escape (text : List Char) : decode (escape text) = some text := by
  unfold decode escape
  induction text with
  | nil => rfl
  | cons c text ih => rw [List.flatMap_cons, decodeFrom_escapeChar, ih, Option.map_some]

theorem notMem_escape {text : List Char} {c : Char} (markup : c = '<' ∨ c = '"') : c ∉ escape text := by
  intro mem
  obtain ⟨x, -, inside⟩ := List.mem_flatMap.1 mem
  unfold escapeChar at inside
  rcases markup with rfl | rfl
  · split_ifs at inside with amp lt
    · revert inside; decide
    · revert inside; decide
    · revert inside; decide
    · revert inside; decide
    · revert inside; decide
    · exact lt (List.mem_singleton.1 inside).symm
  · split_ifs at inside with amp lt gt quot
    · revert inside; decide
    · revert inside; decide
    · revert inside; decide
    · revert inside; decide
    · revert inside; decide
    · exact quot (List.mem_singleton.1 inside).symm

theorem escape_ne_nil {text : List Char} (nonempty : text ≠ []) : escape text ≠ [] := by
  intro empty
  have decoded := decode_escape text
  rw [empty] at decoded
  exact nonempty (Option.some.inj decoded).symm

end References

section Tokens

inductive Token
  | opening (name : List Char) (attributes : List (List Char × List Char))
  | single (name : List Char) (attributes : List (List Char × List Char))
  | closing (name : List Char)
  | text (content : List Char)
deriving DecidableEq

def normalized (c : Char) : Char := if isSpace c then ' ' else c

def readAttributes : ℕ → List Char → Option (List (List Char × List Char) × List Char)
  | 0, _ => none
  | fuel + 1, text =>
    let rest := text.dropWhile isSpace
    if rest.head? = some '>' ∨ rest.head? = some '/' then some ([], rest)
    else if text.head?.any isSpace then
      match rest.dropWhile isNameChar with
      | '=' :: quote :: more =>
        if quote = '"' ∨ quote = '\x27' then
          match splitOnce quote more with
          | (raw, some after) => do
            let value ← decode raw
            let (attributes, final) ← readAttributes fuel after
            some ((rest.takeWhile isNameChar, value.map normalized) :: attributes, final)
          | (_, none) => none
        else none
      | _ => none
    else none

def lex : ℕ → List Char → Option (List Token)
  | 0, _ => none
  | _ + 1, [] => some []
  | fuel + 1, '<' :: '/' :: rest =>
    match (rest.dropWhile isNameChar).dropWhile isSpace with
    | '>' :: more => (lex fuel more).map (.closing (rest.takeWhile isNameChar) :: ·)
    | _ => none
  | fuel + 1, '<' :: '?' :: rest => (afterFirst "?>".toList rest).bind (lex fuel)
  | fuel + 1, '<' :: rest => do
    let (attributes, final) ← readAttributes rest.length (rest.dropWhile isNameChar)
    match final with
    | '>' :: more => (lex fuel more).map (.opening (rest.takeWhile isNameChar) attributes :: ·)
    | '/' :: '>' :: more => (lex fuel more).map (.single (rest.takeWhile isNameChar) attributes :: ·)
    | _ => none
  | fuel + 1, c :: rest => do
    let content ← decode ((c :: rest).takeWhile (· != '<'))
    (lex fuel ((c :: rest).dropWhile (· != '<'))).map (.text content :: ·)

def writeAttribute (pair : List Char × List Char) : List Char :=
  ' ' :: pair.1 ++ '=' :: '"' :: escape pair.2 ++ ['"']

def write : Token → List Char
  | .opening name attributes => '<' :: name ++ attributes.flatMap writeAttribute ++ ['>']
  | .single name attributes => '<' :: name ++ attributes.flatMap writeAttribute ++ ['/', '>']
  | .closing name => '<' :: '/' :: name ++ ['>']
  | .text content => escape content

def Name (name : List Char) : Prop := name ≠ [] ∧ ∀ c ∈ name, isNameChar c = true

def Attribute (pair : List Char × List Char) : Prop :=
  Name pair.1 ∧ ∀ c ∈ pair.2, normalized c = c ∧ isLegal c = true

theorem name_of_all {name : List Char} (valid : (!name.isEmpty && name.all isNameChar) = true) :
    Name name := by
  rw [Bool.and_eq_true, List.all_eq_true] at valid
  exact ⟨by simpa using valid.1, valid.2⟩

/-- What a token may hold so that it is read back. -/
def Token.Writable : Token → Prop
  | .opening name attributes => Name name ∧ ∀ pair ∈ attributes, Attribute pair
  | .single name attributes => Name name ∧ ∀ pair ∈ attributes, Attribute pair
  | .closing name => Name name
  | .text content => content ≠ [] ∧ ∀ c ∈ content, isLegal c = true

def Token.isText : Token → Bool
  | .text _ => true
  | _ => false

theorem takeWhile_name {name rest : List Char} (named : ∀ c ∈ name, isNameChar c = true)
    (ends : rest.head?.all fun c => !isNameChar c) :
    (name ++ rest).takeWhile isNameChar = name ∧ (name ++ rest).dropWhile isNameChar = rest := by
  rw [List.takeWhile_append_of_pos named, List.dropWhile_append_of_pos named]
  cases rest with
  | nil => simp
  | cons c rest =>
    have other : isNameChar c = false := by simpa using ends
    simp [other]

theorem not_of_isNameChar {c : Char} (named : isNameChar c = true) :
    isSpace c = false ∧ c ≠ '>' ∧ c ≠ '/' ∧ c ≠ '?' := by
  refine ⟨?_, ?_, ?_, ?_⟩
  · rw [Bool.eq_false_iff]
    intro space
    simp only [isSpace, Bool.or_eq_true, beq_iff_eq] at space
    rcases space with ((rfl | rfl) | rfl) | rfl <;> revert named <;> decide
  all_goals
    rintro rfl
    revert named
    decide

theorem writeAttribute_append (pair : List Char × List Char) (rest : List Char) :
    writeAttribute pair ++ rest = ' ' :: (pair.1 ++ '=' :: '"' :: (escape pair.2 ++ '"' :: rest)) := by
  simp [writeAttribute]

theorem readAttributes_write {attributes : List (List Char × List Char)}
    (valid : ∀ pair ∈ attributes, Attribute pair) {final : List Char}
    (ends : final.head? = some '>' ∨ final.head? = some '/') :
    ∀ {fuel : ℕ}, attributes.length < fuel →
      readAttributes fuel (attributes.flatMap writeAttribute ++ final) = some (attributes, final) := by
  induction attributes with
  | nil =>
    intro fuel enough
    obtain ⟨fuel, rfl⟩ := Nat.exists_eq_succ_of_ne_zero (Nat.ne_of_gt enough)
    have stays : final.dropWhile isSpace = final := by
      cases final with
      | nil => rfl
      | cons c final => rcases ends with gt | slash <;> simp_all [isSpace]
    rw [List.flatMap_nil, List.nil_append, readAttributes, stays, if_pos ends]
  | cons pair attributes ih =>
    intro fuel enough
    obtain ⟨fuel, rfl⟩ := Nat.exists_eq_succ_of_ne_zero (Nat.ne_of_gt (Nat.zero_lt_of_lt enough))
    obtain ⟨⟨nonempty, named⟩, clean⟩ := valid pair (List.mem_cons_self ..)
    have later := ih (fun other mem => valid other (List.mem_cons_of_mem _ mem))
      (Nat.lt_of_succ_lt_succ enough)
    generalize rest : attributes.flatMap writeAttribute ++ final = more at later
    have text : (pair :: attributes).flatMap writeAttribute ++ final =
        ' ' :: (pair.1 ++ '=' :: '"' :: (escape pair.2 ++ '"' :: more)) := by
      rw [List.flatMap_cons, List.append_assoc, rest, writeAttribute_append]
    have spaces : (' ' :: (pair.1 ++ '=' :: '"' :: (escape pair.2 ++ '"' :: more))).dropWhile isSpace =
        pair.1 ++ '=' :: '"' :: (escape pair.2 ++ '"' :: more) := by
      obtain ⟨c, name, shape⟩ := List.exists_cons_of_ne_nil nonempty
      have first := not_of_isNameChar (named c (by simp [shape]))
      rw [shape, List.dropWhile_cons_of_pos rfl, List.cons_append,
        List.dropWhile_cons_of_neg (by simp [first.1])]
    have open_ : ¬ ((pair.1 ++ '=' :: '"' :: (escape pair.2 ++ '"' :: more)).head? = some '>' ∨
        (pair.1 ++ '=' :: '"' :: (escape pair.2 ++ '"' :: more)).head? = some '/') := by
      obtain ⟨c, name, shape⟩ := List.exists_cons_of_ne_nil nonempty
      have first := not_of_isNameChar (named c (by simp [shape]))
      simp [shape, first.2.1, first.2.2.1]
    have name := @takeWhile_name _ ('=' :: '"' :: (escape pair.2 ++ '"' :: more)) named rfl
    have begins : (' ' :: (pair.1 ++ '=' :: '"' :: (escape pair.2 ++ '"' :: more))).head?.any isSpace =
        true := rfl
    have value : pair.2.map normalized = pair.2 := by
      rw [List.map_congr_left fun c mem => (clean c mem).1, List.map_id']
    rw [text, readAttributes, spaces, if_neg open_, if_pos begins, name.1, name.2]
    simp [splitOnce_append (notMem_escape (Or.inr rfl)), decode_escape, later, value]

theorem head_write {token : Token} (markup : token.isText = false) (rest : List Char) :
    (write token ++ rest).head? = some '<' := by
  cases token with
  | text content => cases markup
  | opening name attributes => rfl
  | single name attributes => rfl
  | closing name => rfl

theorem lex_tag {fuel : ℕ} {rest : List Char} (slash : rest.head? ≠ some '/')
    (question : rest.head? ≠ some '?') :
    lex (fuel + 1) ('<' :: rest) =
      (readAttributes rest.length (rest.dropWhile isNameChar)).bind fun parts =>
        match parts.2 with
        | '>' :: more => (lex fuel more).map (.opening (rest.takeWhile isNameChar) parts.1 :: ·)
        | '/' :: '>' :: more => (lex fuel more).map (.single (rest.takeWhile isNameChar) parts.1 :: ·)
        | _ => none := by
  rw [lex]
  · rfl
  · rintro more rfl
    exact slash rfl
  · rintro more rfl
    exact question rfl

theorem lex_text {fuel : ℕ} {c : Char} {rest : List Char} (plain : c ≠ '<') :
    lex (fuel + 1) (c :: rest) =
      (decode ((c :: rest).takeWhile (· != '<'))).bind fun content =>
        (lex fuel ((c :: rest).dropWhile (· != '<'))).map (.text content :: ·) := by
  rw [lex]
  · rfl
  · rintro more rfl
    exact absurd rfl plain
  · rintro more rfl
    exact absurd rfl plain
  · intro same
    exact absurd same plain

theorem length_le_attributes (attributes : List (List Char × List Char)) :
    attributes.length ≤ (attributes.flatMap writeAttribute).length := by
  induction attributes with
  | nil => exact Nat.le_refl 0
  | cons pair attributes ih =>
    rw [List.flatMap_cons, List.length_append, List.length_cons]
    simp only [writeAttribute, List.length_cons, List.length_append]
    omega

theorem tag_parts {name : List Char} (named : Name name) {attributes : List (List Char × List Char)}
    (valid : ∀ pair ∈ attributes, Attribute pair) {final : List Char}
    (ends : final.head? = some '>' ∨ final.head? = some '/') :
    let rest := name ++ (attributes.flatMap writeAttribute ++ final)
    rest.head? ≠ some '/' ∧ rest.head? ≠ some '?' ∧ rest.takeWhile isNameChar = name ∧
      readAttributes rest.length (rest.dropWhile isNameChar) = some (attributes, final) := by
  intro rest
  obtain ⟨c, more, shape⟩ := List.exists_cons_of_ne_nil named.1
  have first := not_of_isNameChar (named.2 c (by simp [shape]))
  have begins : rest.head? = some c := by simp [rest, shape]
  have stops : (attributes.flatMap writeAttribute ++ final).head?.all fun c => !isNameChar c := by
    cases attributes with
    | nil => rcases ends with gt | slash <;> simp_all [isNameChar]
    | cons pair attributes => rfl
  have parts := takeWhile_name named.2 stops
  have enough : attributes.length < rest.length := by
    have each := length_le_attributes attributes
    have nonempty := List.length_pos_iff.2 named.1
    simp only [rest, List.length_append]
    omega
  refine ⟨?_, ?_, parts.1, ?_⟩
  · rw [begins]
    simpa using first.2.2.1
  · rw [begins]
    simpa using first.2.2.2
  · rw [parts.2, readAttributes_write valid ends enough]

theorem text_parts {content rest : List Char} (ends : rest.head?.all fun c => c == '<') :
    (escape content ++ rest).takeWhile (· != '<') = escape content ∧
      (escape content ++ rest).dropWhile (· != '<') = rest := by
  have plain : ∀ c ∈ escape content, (c != '<') = true := by
    intro c mem
    have other : c ≠ '<' := fun same => notMem_escape (Or.inl rfl) (same ▸ mem)
    simpa using other
  rw [List.takeWhile_append_of_pos plain, List.dropWhile_append_of_pos plain]
  cases rest with
  | nil => simp
  | cons c rest =>
    have markup : c = '<' := by simpa using ends
    simp [markup]

theorem length_le_write {tokens : List Token} (valid : ∀ token ∈ tokens, token.Writable) :
    tokens.length ≤ (tokens.flatMap write).length := by
  induction tokens with
  | nil => exact Nat.le_refl 0
  | cons token tokens ih =>
    have later := ih fun other mem => valid other (List.mem_cons_of_mem _ mem)
    have here := valid token (List.mem_cons_self ..)
    have nonempty : 0 < (write token).length := by
      cases token with
      | text content => exact List.length_pos_iff.2 (escape_ne_nil here.1)
      | opening name attributes => simp [write]
      | single name attributes => simp [write]
      | closing name => simp [write]
    rw [List.flatMap_cons, List.length_append, List.length_cons]
    omega

theorem isLegal_of_isNameChar {c : Char} (named : isNameChar c = true) : isLegal c = true := by
  simp only [isNameChar, Bool.or_eq_true, beq_iff_eq] at named
  rcases named with (((word | rfl) | rfl) | rfl) | rfl
  · have code := code_of_isAlphanum word
    simp only [isLegal, Bool.or_eq_true, Bool.and_eq_true, decide_eq_true_eq, beq_iff_eq]
    omega
  all_goals decide

theorem escape_legal {text : List Char} (legal : ∀ c ∈ text, isLegal c = true) :
    ∀ c ∈ escape text, isLegal c = true := by
  intro c mem
  obtain ⟨x, inside, escaped⟩ := List.mem_flatMap.1 mem
  clear mem
  unfold escapeChar at escaped
  split_ifs at escaped
  · exact List.all_eq_true.1 (by decide) c escaped
  · exact List.all_eq_true.1 (by decide) c escaped
  · exact List.all_eq_true.1 (by decide) c escaped
  · exact List.all_eq_true.1 (by decide) c escaped
  · exact List.all_eq_true.1 (by decide) c escaped
  · rw [List.mem_singleton.1 escaped]
    exact legal x inside

theorem attributes_legal {attributes : List (List Char × List Char)}
    (valid : ∀ pair ∈ attributes, Attribute pair) :
    ∀ c ∈ attributes.flatMap writeAttribute, isLegal c = true := by
  intro c mem
  obtain ⟨pair, listed, inside⟩ := List.mem_flatMap.1 mem
  have value := escape_legal fun c mem => ((valid pair listed).2 c mem).2
  simp only [writeAttribute, List.mem_append, List.mem_cons, List.cons_append, List.not_mem_nil,
    or_false] at inside
  rcases inside with rfl | (name | rfl | rfl | escaped) | rfl
  · rfl
  · exact isLegal_of_isNameChar ((valid pair listed).1.2 c name)
  · rfl
  · rfl
  · exact value c escaped
  · rfl

theorem write_legal {token : Token} (valid : token.Writable) : ∀ c ∈ write token, isLegal c = true := by
  intro c mem
  cases token with
  | opening name attributes =>
    simp only [write, List.mem_append, List.mem_cons, List.cons_append, List.not_mem_nil,
      or_false] at mem
    rcases mem with rfl | (name | inside) | rfl
    · rfl
    · exact isLegal_of_isNameChar (valid.1.2 c name)
    · exact attributes_legal valid.2 c inside
    · rfl
  | single name attributes =>
    simp only [write, List.mem_append, List.mem_cons, List.cons_append, List.not_mem_nil,
      or_false] at mem
    rcases mem with rfl | (name | inside) | rfl | rfl
    · rfl
    · exact isLegal_of_isNameChar (valid.1.2 c name)
    · exact attributes_legal valid.2 c inside
    · rfl
    · rfl
  | closing name =>
    simp only [write, List.mem_append, List.mem_cons, List.cons_append, List.not_mem_nil,
      or_false] at mem
    rcases mem with rfl | rfl | name | rfl
    · rfl
    · rfl
    · exact isLegal_of_isNameChar (valid.2 c name)
    · rfl
  | text content => exact escape_legal valid.2 c mem

theorem lex_write (tokens : List Token) (valid : ∀ token ∈ tokens, token.Writable)
    (apart : tokens.IsChain fun a b => a.isText = false ∨ b.isText = false) :
    ∀ {fuel : ℕ}, tokens.length < fuel → lex fuel (tokens.flatMap write) = some tokens := by
  induction tokens with
  | nil =>
    intro fuel enough
    obtain ⟨fuel, rfl⟩ := Nat.exists_eq_succ_of_ne_zero (Nat.ne_of_gt enough)
    rfl
  | cons token tokens ih =>
    intro fuel enough
    obtain ⟨fuel, rfl⟩ := Nat.exists_eq_succ_of_ne_zero (Nat.ne_of_gt (Nat.zero_lt_of_lt enough))
    have later := ih (fun other mem => valid other (List.mem_cons_of_mem _ mem)) apart.tail
      (Nat.lt_of_succ_lt_succ enough)
    have here := valid token (List.mem_cons_self ..)
    rw [List.flatMap_cons]
    cases token with
    | opening name attributes =>
      have shape : write (.opening name attributes) ++ tokens.flatMap write =
          '<' :: (name ++ (attributes.flatMap writeAttribute ++ '>' :: tokens.flatMap write)) := by
        simp [write]
      obtain ⟨slash, question, whole, pairs⟩ :=
        @tag_parts _ here.1 _ here.2 ('>' :: tokens.flatMap write) (Or.inl rfl)
      rw [shape, lex_tag slash question, whole, pairs]
      simp [later]
    | single name attributes =>
      have shape : write (.single name attributes) ++ tokens.flatMap write =
          '<' :: (name ++ (attributes.flatMap writeAttribute ++ '/' :: '>' :: tokens.flatMap write)) := by
        simp [write]
      obtain ⟨slash, question, whole, pairs⟩ :=
        @tag_parts _ here.1 _ here.2 ('/' :: '>' :: tokens.flatMap write) (Or.inr rfl)
      rw [shape, lex_tag slash question, whole, pairs]
      simp [later]
    | closing name =>
      have parts := @takeWhile_name _ ('>' :: tokens.flatMap write) here.2 rfl
      have shape : write (.closing name) ++ tokens.flatMap write =
          '<' :: '/' :: (name ++ '>' :: tokens.flatMap write) := by simp [write]
      rw [shape, lex, parts.1, parts.2, List.dropWhile_cons_of_neg (by decide)]
      simp [later]
    | text content =>
      have stops : (tokens.flatMap write).head?.all fun c => c == '<' := by
        cases tokens with
        | nil => rfl
        | cons next tokens =>
          have markup : next.isText = false :=
            (List.isChain_cons_cons.1 apart).1.resolve_left (by simp [Token.isText])
          rw [List.flatMap_cons, head_write markup]
          rfl
      obtain ⟨c, more, shape⟩ := List.exists_cons_of_ne_nil (escape_ne_nil here.1)
      have plain : c ≠ '<' := fun same => notMem_escape (Or.inl rfl) (by rw [shape, same]; simp)
      have begins : write (.text content) ++ tokens.flatMap write =
          c :: (more ++ tokens.flatMap write) := by
        rw [write, shape]
        rfl
      have parts := @text_parts content _ stops
      rw [begins, lex_text plain, ← begins, write, parts.1, parts.2, decode_escape, Option.bind_some,
        later]
      rfl

end Tokens

section Trees

inductive Tree
  | element (name : List Char) (attributes : List (List Char × List Char)) (children : List Tree)
  | text (content : List Char)

structure Frame where
  name : List Char := []
  attributes : List (List Char × List Char) := []
  children : List Tree := []

def Frame.push (frame : Frame) (tree : Tree) : Frame :=
  { frame with children := frame.children ++ [tree] }

/-- The trees at the top, which the last frame collects. -/
def build : List Token → Frame → List Frame → Option (List Tree)
  | [], frame, [] => some frame.children
  | [], _, _ :: _ => none
  | .text content :: tokens, frame, outer => build tokens (frame.push (.text content)) outer
  | .single name attributes :: tokens, frame, outer =>
    build tokens (frame.push (.element name attributes [])) outer
  | .opening name attributes :: tokens, frame, outer =>
    build tokens ⟨name, attributes, []⟩ (frame :: outer)
  | .closing _ :: _, _, [] => none
  | .closing name :: tokens, frame, parent :: outer =>
    if name = frame.name then
      build tokens (parent.push (.element frame.name frame.attributes frame.children)) outer
    else none

/-- The root element: around it there is nothing but white space. -/
def root (trees : List Tree) : Option Tree :=
  match trees.filter fun tree => match tree with
    | .text content => !content.all isSpace
    | .element .. => true with
  | [.element name attributes children] => some (.element name attributes children)
  | _ => none

def read (text : List Char) : Option Tree :=
  if text.all isLegal then
    ((lex (text.length + 1) text).bind fun tokens => build tokens {} []).bind root
  else none

def declaration : List Char := "<?xml version=\"1.0\" encoding=\"UTF-8\"?>".toList

theorem lex_declaration (fuel : ℕ) (rest : List Char) :
    lex (fuel + 1) (declaration ++ rest) = lex fuel rest := by
  rfl

theorem read_write {tokens : List Token} (valid : ∀ token ∈ tokens, token.Writable)
    (apart : tokens.IsChain fun a b => a.isText = false ∨ b.isText = false) :
    read (declaration ++ tokens.flatMap write) = (build tokens {} []).bind root := by
  have legal : (declaration ++ tokens.flatMap write).all isLegal = true := by
    rw [List.all_append, Bool.and_eq_true]
    constructor
    · decide +kernel
    · rw [List.all_eq_true]
      intro c mem
      obtain ⟨token, listed, inside⟩ := List.mem_flatMap.1 mem
      exact write_legal (valid token listed) c inside
  have enough : tokens.length < (declaration ++ tokens.flatMap write).length := by
    have each := length_le_write valid
    have begins : 0 < declaration.length := by decide +kernel
    rw [List.length_append]
    omega
  rw [read, if_pos legal, lex_declaration, lex_write tokens valid apart enough, Option.bind_some]

end Trees

end CodeSystemGraph.Xml
