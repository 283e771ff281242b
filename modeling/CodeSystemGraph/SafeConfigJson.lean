import CodeSystemGraph.SafeConfigKeys
import CodeSystemGraph.SafeConfigScanner

/-!
The keys of JSON documents. The scanner takes a well-formed value character by character and
gives the collector every declaration of its tree in order; what the collector then has is
read off the declarations alone.
-/

namespace CodeSystemGraph.SafeConfig

open JsonKeyParser JsonText Ordered Utf8

section Scanning

theorem takeWhile_append_of_stop {α : Type} {p : α → Bool} {text rest : List α}
    (all : ∀ a ∈ text, p a = true) (stop : ∀ a ∈ rest.head?, p a = false) :
    (text ++ rest).takeWhile p = text ∧ (text ++ rest).dropWhile p = rest := by
  rw [List.takeWhile_append_of_pos all, List.dropWhile_append_of_pos all]
  cases rest with
  | nil => simp
  | cons a rest => simp [stop a rfl]

theorem byte_of_isScalarChar : ∀ n < 128, isScalarChar (Char.ofNat n) = true →
    isScalarByte (UInt8.ofNat n) = true ∧ isAsciiWhitespace (UInt8.ofNat n) = false ∧
      n ≠ 34 ∧ n ≠ 91 ∧ n ≠ 123 := by
  decide

theorem ascii_of_isScalarChar {c : Char} (scalar : isScalarChar c = true) : c.toNat < 128 := by
  simp only [isScalarChar, Bool.or_eq_true, Bool.and_eq_true, decide_eq_true_eq, beq_iff_eq] at scalar
  omega

theorem scalarChar_wants {c : Char} (scalar : isScalarChar c = true) :
    wants isScalarByte c = true ∧ wants isAsciiWhitespace c = false ∧
      c ≠ '"' ∧ c ≠ '[' ∧ c ≠ '\x7b' := by
  have ascii := ascii_of_isScalarChar scalar
  have bytes := byte_of_isScalarChar c.toNat ascii (by rwa [Char.ofNat_toNat])
  rw [wants_ascii _ ascii, wants_ascii _ ascii]
  refine ⟨bytes.1, bytes.2.1, ?_, ?_, ?_⟩ <;> rintro rfl
  · exact bytes.2.2.1 rfl
  · exact bytes.2.2.2.1 rfl
  · exact bytes.2.2.2.2 rfl

theorem isSpace_cases {c : Char} (space : isSpace c = true) :
    c = ' ' ∨ c = '\t' ∨ c = '\n' ∨ c = '\r' := by
  simpa [isSpace, or_assoc] using space

theorem space_wants {c : Char} (space : isSpace c = true) :
    wants isAsciiWhitespace c = true ∧ wants isScalarByte c = false := by
  rcases isSpace_cases space with rfl | rfl | rfl | rfl <;> decide

theorem stops_cons {wanted : UInt8 → Bool} {c : Char} {text : List Char}
    (stop : wants wanted c = false) : ∀ d ∈ (c :: text).head?, wants wanted d = false := by
  simpa using stop

theorem skipWhitespace_space {before rest : List Char} {line : Nat} {collector : KeyCollector}
    (space : Space) (stop : ∀ c ∈ rest.head?, wants isAsciiWhitespace c = false) :
    (scanned before (space.chars ++ rest) line collector).skipWhitespace =
      scanned (before ++ space.chars) rest (line + lines space.chars) collector := by
  have blank : ∀ c ∈ space.chars, wants isAsciiWhitespace c = true :=
    fun c mem => (space_wants (List.all_eq_true.1 space.blank c mem)).1
  have taken := takeWhile_append_of_stop blank stop
  rw [skipWhitespace_scanned, taken.1, taken.2]

theorem closing_append_plain {text rest : List Char}
    (plain : ∀ c ∈ text, c ≠ '"' ∧ c ≠ '\\') :
    closing false (text ++ rest) =
      (closing false rest).map fun parts => (text ++ parts.1, parts.2) := by
  induction text with
  | nil => simp
  | cons c text ih =>
    obtain ⟨first, others⟩ := List.forall_mem_cons.1 plain
    rw [List.cons_append, closing, if_neg (by simp [first.1])]
    have goes : (!false && decide (c = '\\')) = false := by simp [first.2]
    rw [goes, ih others, Option.map_map]
    rfl

theorem hex_ne {c : Char} (hex : isHex c = true) : c ≠ '"' ∧ c ≠ '\\' := by
  refine ⟨?_, ?_⟩ <;> rintro rfl <;> exact absurd hex (by decide)

theorem closing_escape {c : Char} {text : List Char} :
    closing false ('\\' :: c :: text) =
      (closing false text).map fun parts => ('\\' :: c :: parts.1, parts.2) := by
  have second : closing true (c :: text) =
      (closing false text).map fun parts => (c :: parts.1, parts.2) := by
    rw [closing, if_neg (by simp)]
    rfl
  have first : closing false ('\\' :: c :: text) =
      (closing true (c :: text)).map fun parts => ('\\' :: parts.1, parts.2) := by
    rw [closing, if_neg (by decide)]
    rfl
  rw [first, second, Option.map_map]
  rfl

theorem closing_element (element : Element) (rest : List Char) :
    closing false (element.text ++ rest) =
      (closing false rest).map fun parts => (element.text ++ parts.1, parts.2) := by
  cases element with
  | plain c plain =>
    refine closing_append_plain fun d mem => ?_
    obtain rfl := List.mem_singleton.1 mem
    simp only [isPlain, Bool.and_eq_true, bne_iff_ne] at plain
    exact plain.1
  | escape c escape => exact closing_escape
  | unicode unit =>
    have digits : ∀ c ∈ unit.digits, c ≠ '"' ∧ c ≠ '\\' :=
      fun c mem => hex_ne (List.all_eq_true.1 unit.hex c mem)
    have text : (Element.unicode unit).text ++ rest = '\\' :: 'u' :: (unit.digits ++ rest) := rfl
    rw [text, closing_escape, closing_append_plain digits, Option.map_map]
    rfl

theorem closing_body (body : List Element) (rest : List Char) :
    closing false (bodyText body ++ '"' :: rest) = some (bodyText body ++ ['"'], rest) := by
  induction body with
  | nil => rfl
  | cons element body ih =>
    have text : bodyText (element :: body) = element.text ++ bodyText body := List.flatMap_cons
    rw [text, List.append_assoc, closing_element, ih, Option.map_some, List.append_assoc]

theorem takeWhile_dropWhile {α : Type} (p : α → Bool) (text : List α) :
    (text.dropWhile p).takeWhile p = [] := by
  induction text with
  | nil => rfl
  | cons a text ih =>
    rw [List.dropWhile_cons]
    split
    · exact ih
    · next stop => rw [List.takeWhile_cons, if_neg stop]

theorem skipWhitespace_skipWhitespace {before after : List Char} {line : Nat}
    {collector : KeyCollector} :
    (scanned before after line collector).skipWhitespace.skipWhitespace =
      (scanned before after line collector).skipWhitespace := by
  have none := takeWhile_dropWhile (wants isAsciiWhitespace) after
  have whole := List.takeWhile_append_dropWhile (p := wants isAsciiWhitespace)
    (l := after.dropWhile (wants isAsciiWhitespace))
  rw [none, List.nil_append] at whole
  rw [skipWhitespace_scanned, skipWhitespace_scanned, none, whole, List.append_nil, lines_nil,
    Nat.add_zero]

variable {serde : Serde} {before after : List Char} {line : Nat} {collector : KeyCollector}

theorem parseValue_skipWhitespace (fuel : Nat) (scope : List String) (depth : Nat) :
    parseValue serde (fuel + 1) scope depth (scanned before after line collector).skipWhitespace =
      parseValue serde (fuel + 1) scope depth (scanned before after line collector) := by
  simp only [parseValue, skipWhitespace_skipWhitespace]

theorem objectLoop_skipWhitespace
    (parse : List String → Nat → JsonKeyParser → Except Stop JsonKeyParser) (scope : List String)
    (depth fuel : Nat) :
    objectLoop serde parse scope depth (fuel + 1)
        (scanned before after line collector).skipWhitespace =
      objectLoop serde parse scope depth (fuel + 1) (scanned before after line collector) := by
  simp only [objectLoop, skipWhitespace_skipWhitespace]

/-- What a value begins with decides which parser reads it. -/
theorem parseValue_cons {c : Char} {parser : JsonKeyParser} (fuel : Nat) (scope : List String)
    {depth : Nat} (ascii : c.toNat < 128) (shallow : depth ≤ maxDepth)
    (skipped : parser.skipWhitespace = scanned before (c :: after) line collector) :
    parseValue serde (fuel + 1) scope depth parser =
      if c = '\x7b' then
        (scanned before (c :: after) line collector).parseObject serde (parseValue serde fuel) scope
          depth
      else if c = '[' then
        (scanned before (c :: after) line collector).parseArray (parseValue serde fuel) scope depth
      else if c = '"' then (scanned before (c :: after) line collector).skipString
      else (scanned before (c :: after) line collector).skipScalar := by
  have brace : UInt8.ofNat c.toNat = 123 ↔ c = '\x7b' := ofNat_toNat_eq_iff (d := '\x7b') ascii (by decide)
  have bracket : UInt8.ofNat c.toNat = 91 ↔ c = '[' := ofNat_toNat_eq_iff (d := '[') ascii (by decide)
  have quote : UInt8.ofNat c.toNat = 34 ↔ c = '"' := ofNat_toNat_eq_iff (d := '"') ascii (by decide)
  have checked : checkDepth depth line = .ok () := by
    rw [checkDepth, ensure_eq_ok, decide_eq_true_eq]
    exact shallow
  rw [parseValue]
  simp only [skipped, scanned_line, checked, currentByte_ascii ascii, brace, bracket, quote]

theorem value_head (value : Json .value) : ∃ c text, value.text = c :: text ∧ c.toNat < 128 ∧
    wants isAsciiWhitespace c = false ∧ c ≠ ']' ∧ c ≠ '\x7d' := by
  cases value with
  | scalar token =>
    obtain ⟨c, text, same⟩ := List.exists_cons_of_ne_nil token.text_ne_nil
    have mem : c ∈ token.text := same ▸ List.mem_cons_self
    have scalar := Scalar.scalar token c mem
    refine ⟨c, text, same, ?_, (scalarChar_wants scalar).2.1, ?_, ?_⟩
    · exact ascii_of_isScalarChar scalar
    · rintro rfl
      exact absurd scalar (by decide)
    · rintro rfl
      exact absurd scalar (by decide)
  | string body => exact ⟨'"', _, rfl, by decide, by decide, by decide, by decide⟩
  | emptyArray space => exact ⟨'[', _, rfl, by decide, by decide, by decide, by decide⟩
  | array content => exact ⟨'[', _, rfl, by decide, by decide, by decide, by decide⟩
  | emptyObject space => exact ⟨'\x7b', _, rfl, by decide, by decide, by decide, by decide⟩
  | object content => exact ⟨'\x7b', _, rfl, by decide, by decide, by decide, by decide⟩

/-- The scanner takes a text of the tree and gives its declarations to the collector. -/
def Reads (serde : Serde) : {part : Part} → Json part → Prop
  | .value, value => ∀ fuel scope depth (space : Space) before after line collector collected,
    maxDepth + 2 ≤ fuel + depth → value.depth + depth ≤ maxDepth →
    (∀ c ∈ after.head?, wants isScalarByte c = false) →
    insertAll collector (value.declarations scope (line + lines space.chars)) = .ok collected →
    parseValue serde fuel scope depth
        (scanned before (space.chars ++ (value.text ++ after)) line collector) =
      .ok (scanned (before ++ space.chars ++ value.text) after
        (line + lines space.chars + lines value.text) collected)
  | .items, items => ∀ fuel scope depth steps before after line collector collected,
    maxDepth + 2 ≤ fuel + (depth + 1) → items.depth + (depth + 1) ≤ maxDepth →
    (encode items.text).length < steps →
    insertAll collector (items.declarations scope line) = .ok collected →
    arrayLoop (parseValue serde fuel) scope depth steps
        (scanned before (items.text ++ ']' :: after) line collector) =
      .ok (scanned (before ++ items.text ++ [']']) after (line + lines items.text) collected)
  | .members, members => ∀ fuel scope depth steps before after line collector collected,
    maxDepth + 2 ≤ fuel + (depth + 1) → members.depth + (depth + 1) ≤ maxDepth →
    (encode members.text).length < steps →
    insertAll collector (members.declarations scope line) = .ok collected →
    objectLoop serde (parseValue serde fuel) scope depth steps
        (scanned before (members.text ++ '\x7d' :: after) line collector) =
      .ok (scanned (before ++ members.text ++ ['\x7d']) after (line + lines members.text) collected)

theorem succ_of_enough {fuel depth : Nat} (enough : maxDepth + 2 ≤ fuel + depth)
    (shallow : depth ≤ maxDepth) : ∃ more, fuel = more + 1 ∧ maxDepth + 2 ≤ more + (depth + 1) :=
  ⟨fuel - 1, by omega, by omega⟩

theorem reads_scalar (token : Scalar) : Reads serde (.scalar token) := by
  intro fuel scope depth space before after line collector collected enough shallow ends inserted
  obtain ⟨fuel, rfl, -⟩ := succ_of_enough enough (Nat.le_of_add_left_le shallow)
  obtain ⟨c, text, same⟩ := List.exists_cons_of_ne_nil token.text_ne_nil
  have chars := Scalar.scalar token
  have head := scalarChar_wants (chars c (same ▸ List.mem_cons_self))
  have taken := takeWhile_append_of_stop (fun c mem => (scalarChar_wants (chars c mem)).1) ends
  have skipped : (scanned before (space.chars ++ (token.text ++ after)) line
      collector).skipWhitespace = scanned (before ++ space.chars) (c :: (text ++ after))
        (line + lines space.chars) collector := by
    rw [same, List.cons_append]
    exact skipWhitespace_space space (stops_cons head.2.1)
  obtain rfl : collector = collected := Except.ok.inj inserted
  change parseValue serde (fuel + 1) scope depth
    (scanned before (space.chars ++ (token.text ++ after)) line collector) = _
  rw [parseValue_cons fuel scope (ascii_of_isScalarChar (chars c (same ▸ List.mem_cons_self)))
    (Nat.le_of_add_left_le shallow) skipped, if_neg head.2.2.2.2, if_neg head.2.2.2.1,
    if_neg head.2.2.1, ← List.cons_append, ← same, skipScalar_scanned, taken.1, taken.2,
    if_neg token.text_ne_nil]
  rfl

theorem reads_string (body : List Element) : Reads serde (.string body) := by
  intro fuel scope depth space before after line collector collected enough shallow ends inserted
  obtain ⟨fuel, rfl, -⟩ := succ_of_enough enough (Nat.le_of_add_left_le shallow)
  have skipped : (scanned before (space.chars ++ ((Json.string body).text ++ after)) line
      collector).skipWhitespace = scanned (before ++ space.chars)
        ('"' :: (bodyText body ++ '"' :: after)) (line + lines space.chars) collector := by
    have text : (Json.string body).text ++ after = '"' :: (bodyText body ++ '"' :: after) := by
      simp [Json.text, quoted]
    rw [text]
    exact skipWhitespace_space space (stops_cons (by decide))
  obtain rfl : collector = collected := Except.ok.inj inserted
  rw [parseValue_cons fuel scope (by decide) (Nat.le_of_add_left_le shallow) skipped,
    if_neg (by decide), if_neg (by decide), if_pos rfl, skipString_cons, closing_body]
  simp [Json.text, quoted, lines_cons]

theorem consume_byte {byte : UInt8} {c : Char} (same : byte = UInt8.ofNat c.toNat)
    (ascii : c.toNat < 128) : (scanned before (c :: after) line collector).consume byte =
      some (scanned (before ++ [c]) after (line + lines [c]) collector) :=
  same ▸ consume_cons ascii

theorem consume_other {byte : UInt8} {c d : Char} (same : byte = UInt8.ofNat d.toNat)
    (ascii : d.toNat < 128) (differs : c ≠ d) :
    (scanned before (c :: after) line collector).consume byte = none :=
  same ▸ consume_eq_none ascii (by simpa using differs)

section Brackets

variable {parse : List String → Nat → JsonKeyParser → Except Stop JsonKeyParser}
  {scope : List String} {depth : Nat} {parser next : JsonKeyParser}

theorem parseArray_closed (closed : parser.advance.skipWhitespace.consume 93 = some next) :
    parser.parseArray parse scope depth = .ok next := by
  simp only [parseArray, closed]

theorem parseArray_open (inside : parser.advance.skipWhitespace.consume 93 = none) :
    parser.parseArray parse scope depth =
      arrayLoop parse scope depth parser.remaining parser.advance.skipWhitespace := by
  simp only [parseArray, inside]

theorem parseObject_closed (closed : parser.advance.skipWhitespace.consume 125 = some next) :
    parser.parseObject serde parse scope depth = .ok next := by
  simp only [parseObject, closed]

theorem parseObject_open (inside : parser.advance.skipWhitespace.consume 125 = none) :
    parser.parseObject serde parse scope depth =
      objectLoop serde parse scope depth parser.remaining parser.advance.skipWhitespace := by
  simp only [parseObject, inside]

variable {goes : JsonKeyParser → Except Stop JsonKeyParser}

theorem separate_closed (closing : UInt8) (c : Char) (same : closing = UInt8.ofNat c.toNat)
    (ascii : c.toNat < 128) (stop : wants isAsciiWhitespace c = false) (close : Space) :
    (scanned before (close.chars ++ c :: after) line collector).skipWhitespace.separate closing goes =
      .ok (scanned (before ++ close.chars ++ [c]) after (line + lines close.chars + lines [c])
        collector) := by
  rw [skipWhitespace_space close (stops_cons stop)]
  simp only [separate, consume_byte same ascii]

theorem separate_comma (closing : UInt8) (c : Char) (same : closing = UInt8.ofNat c.toNat)
    (ascii : c.toNat < 128) (differs : ',' ≠ c) (close : Space) :
    (scanned before (close.chars ++ ',' :: after) line collector).skipWhitespace.separate closing
        goes =
      goes (scanned (before ++ close.chars ++ [',']) after (line + lines close.chars + lines [','])
        collector) := by
  have comma : (44 : UInt8) = UInt8.ofNat ','.toNat := by decide
  rw [skipWhitespace_space close (stops_cons (by decide))]
  simp only [separate, consume_other same ascii differs, consume_byte comma (by decide)]

theorem consume_blank {byte : UInt8} (opening closing : Char)
    (same : byte = UInt8.ofNat closing.toNat) (ascii : opening.toNat < 128)
    (ascii' : closing.toNat < 128) (stop : wants isAsciiWhitespace closing = false) (blank : Space) :
    (scanned before (opening :: (blank.chars ++ closing :: after)) line
        collector).advance.skipWhitespace.consume byte =
      some (scanned (before ++ [opening] ++ blank.chars ++ [closing]) after
        (line + lines [opening] + lines blank.chars + lines [closing]) collector) := by
  rw [advance_ascii ascii, skipWhitespace_space blank (stops_cons stop)]
  exact consume_byte same ascii'

theorem consume_content {byte : UInt8} (opening closing : Char) {c : Char} {blank : Space}
    {text tail : List Char} (same : byte = UInt8.ofNat closing.toNat) (ascii : opening.toNat < 128)
    (ascii' : closing.toNat < 128) (head : text = blank.chars ++ c :: tail)
    (stop : wants isAsciiWhitespace c = false) (differs : c ≠ closing) :
    (scanned before (opening :: (text ++ closing :: after)) line
      collector).advance.skipWhitespace.consume byte = none := by
  rw [advance_ascii ascii, head, List.append_assoc, List.cons_append,
    skipWhitespace_space blank (stops_cons stop)]
  exact consume_other same ascii' differs

theorem length_bracketed {opening : Char} (ascii : opening.toNat < 128) (text rest : List Char) :
    ∃ steps, (encode (opening :: (text ++ rest))).length = steps + 1 ∧
      (encode text).length ≤ steps := by
  refine ⟨(encode (text ++ rest)).length, ?_, ?_⟩
  · rw [encode_ascii ascii, List.length_cons]
  · rw [encode_append, List.length_append]
    omega

end Brackets

theorem reads_emptyArray (blank : Space) : Reads serde (.emptyArray blank) := by
  intro fuel scope depth space before after line collector collected enough shallow ends inserted
  obtain ⟨fuel, rfl, -⟩ := succ_of_enough enough (Nat.le_of_add_left_le shallow)
  have text : (Json.emptyArray blank).text ++ after = '[' :: (blank.chars ++ ']' :: after) := by
    simp [Json.text]
  obtain rfl : collector = collected := Except.ok.inj inserted
  rw [text, parseValue_cons fuel scope (by decide) (Nat.le_of_add_left_le shallow)
    (skipWhitespace_space space (stops_cons (by decide))), if_neg (by decide), if_pos rfl]
  rw [parseArray_closed (consume_blank '[' ']' rfl (by decide) (by decide) (by decide) blank)]
  simp [Json.text, lines_cons, lines_append, Nat.add_assoc]

theorem reads_emptyObject (blank : Space) : Reads serde (.emptyObject blank) := by
  intro fuel scope depth space before after line collector collected enough shallow ends inserted
  obtain ⟨fuel, rfl, -⟩ := succ_of_enough enough (Nat.le_of_add_left_le shallow)
  have text : (Json.emptyObject blank).text ++ after =
      '\x7b' :: (blank.chars ++ '\x7d' :: after) := by
    simp [Json.text]
  obtain rfl : collector = collected := Except.ok.inj inserted
  rw [text, parseValue_cons fuel scope (by decide) (Nat.le_of_add_left_le shallow)
    (skipWhitespace_space space (stops_cons (by decide))), if_pos rfl]
  rw [parseObject_closed (consume_blank '\x7b' '\x7d' rfl (by decide) (by decide) (by decide) blank)]
  simp [Json.text, lines_cons, lines_append, Nat.add_assoc]

theorem items_head (items : Json .items) : ∃ (space : Space) (c : Char) (text : List Char),
    items.text = space.chars ++ c :: text ∧ wants isAsciiWhitespace c = false ∧ c ≠ ']' := by
  cases items with
  | item space value after =>
    obtain ⟨c, text, same, -, stop, differs, -⟩ := value_head value
    exact ⟨space, c, text ++ after.chars, by simp [Json.text, same], stop, differs⟩
  | items space value after rest =>
    obtain ⟨c, text, same, -, stop, differs, -⟩ := value_head value
    exact ⟨space, c, text ++ after.chars ++ ',' :: rest.text, by simp [Json.text, same], stop, differs⟩

theorem members_head (members : Json .members) : ∃ (space : Space) (text : List Char),
    members.text = space.chars ++ '"' :: text := by
  cases members with
  | member label value after =>
    exact ⟨label.before, _, by simp [Json.text, Label.text, quoted]; rfl⟩
  | members label value after rest =>
    exact ⟨label.before, _, by simp [Json.text, Label.text, quoted]; rfl⟩

theorem arrayLoop_skipWhitespace (fuel : Nat) (scope : List String) (depth steps : Nat) :
    arrayLoop (parseValue serde (fuel + 1)) scope depth (steps + 1)
        (scanned before after line collector).skipWhitespace =
      arrayLoop (parseValue serde (fuel + 1)) scope depth (steps + 1)
        (scanned before after line collector) := by
  simp only [arrayLoop, parseValue_skipWhitespace]

theorem reads_array {items : Json .items} (content : Reads serde items) :
    Reads serde (.array items) := by
  intro fuel scope depth space before after line collector collected enough shallow ends inserted
  obtain ⟨fuel, rfl, inner⟩ := succ_of_enough enough (Nat.le_of_add_left_le shallow)
  have deep : (Json.array items).depth = items.depth + 1 := rfl
  obtain ⟨fuel, rfl, -⟩ := succ_of_enough inner (by omega)
  have text : (Json.array items).text ++ after = '[' :: (items.text ++ ']' :: after) := by
    simp [Json.text]
  rw [text, parseValue_cons _ scope (by decide) (Nat.le_of_add_left_le shallow)
    (skipWhitespace_space space (stops_cons (by decide))), if_neg (by decide), if_pos rfl]
  obtain ⟨blank, c, tail, head, stop, differs⟩ := items_head items
  obtain ⟨steps, length, bound⟩ := @length_bracketed '[' (by decide) items.text
    (']' :: after)
  rw [parseArray_open (consume_content '[' ']' rfl (by decide) (by decide) head stop differs),
    advance_ascii (by decide), remaining_scanned, length,
    arrayLoop_skipWhitespace, content _ _ _ _ _ _ _ _ collected inner (by omega) (by omega)
      (by rwa [lines_of_ne (by decide)])]
  simp [Json.text, lines_cons, lines_append, Nat.add_assoc]

theorem reads_object {members : Json .members} (content : Reads serde members) :
    Reads serde (.object members) := by
  intro fuel scope depth space before after line collector collected enough shallow ends inserted
  obtain ⟨fuel, rfl, inner⟩ := succ_of_enough enough (Nat.le_of_add_left_le shallow)
  have deep : (Json.object members).depth = members.depth + 1 := rfl
  have text : (Json.object members).text ++ after =
      '\x7b' :: (members.text ++ '\x7d' :: after) := by
    simp [Json.text]
  rw [text, parseValue_cons _ scope (by decide) (Nat.le_of_add_left_le shallow)
    (skipWhitespace_space space (stops_cons (by decide))), if_pos rfl]
  obtain ⟨blank, tail, head⟩ := members_head members
  obtain ⟨steps, length, bound⟩ := @length_bracketed '\x7b' (by decide) members.text
    ('\x7d' :: after)
  rw [parseObject_open (consume_content '\x7b' '\x7d' rfl (by decide) (by decide) head (by decide)
    (by decide)),
    advance_ascii (by decide), remaining_scanned, length,
    objectLoop_skipWhitespace, content _ _ _ _ _ _ _ _ collected inner (by omega) (by omega)
      (by rwa [lines_of_ne (by decide)])]
  simp [Json.text, lines_cons, lines_append, Nat.add_assoc]

theorem space_ends (space : Space) {c : Char} {text : List Char}
    (stop : wants isScalarByte c = false) :
    ∀ d ∈ (space.chars ++ c :: text).head?, wants isScalarByte d = false := by
  obtain ⟨chars, blank⟩ := space
  cases chars with
  | nil => exact stops_cons stop
  | cons d chars => exact stops_cons (space_wants (List.all_eq_true.1 blank d List.mem_cons_self)).2

theorem succ_of_lt {n steps : Nat} (bound : n < steps) : ∃ more, steps = more + 1 :=
  ⟨steps - 1, by omega⟩

theorem reads_item (space : Space) {value : Json .value} (close : Space)
    (reads : Reads serde value) : Reads serde (.item space value close) := by
  intro fuel scope depth steps before after line collector collected enough shallow bound inserted
  obtain ⟨steps, rfl⟩ := succ_of_lt bound
  have text : (Json.item space value close).text ++ ']' :: after =
      space.chars ++ (value.text ++ (close.chars ++ ']' :: after)) := by
    simp [Json.text]
  have parsed := reads fuel scope (depth + 1) space before (close.chars ++ ']' :: after) line
    collector collected enough shallow (space_ends close (by decide)) inserted
  rw [arrayLoop, text, parsed, ok_bind,
    separate_closed 93 ']' (by decide) (by decide) (by decide) close]
  simp [Json.text, lines_cons, lines_append, Nat.add_assoc]

theorem reads_items (space : Space) {value : Json .value} (close : Space) {rest : Json .items}
    (reads : Reads serde value) (others : Reads serde rest) :
    Reads serde (.items space value close rest) := by
  intro fuel scope depth steps before after line collector collected enough shallow bound inserted
  obtain ⟨steps, rfl⟩ := succ_of_lt bound
  have deep : (Json.items space value close rest).depth = max value.depth rest.depth := rfl
  obtain ⟨next, first, second⟩ := insertAll_append.1 inserted
  have text : (Json.items space value close rest).text ++ ']' :: after =
      space.chars ++ (value.text ++ (close.chars ++ ',' :: (rest.text ++ ']' :: after))) := by
    simp [Json.text]
  have parsed := reads fuel scope (depth + 1) space before
    (close.chars ++ ',' :: (rest.text ++ ']' :: after)) line collector next enough (by omega)
    (space_ends close (by decide)) first
  have smaller : (encode rest.text).length < steps := by
    have whole : (Json.items space value close rest).text =
        space.chars ++ value.text ++ close.chars ++ ',' :: rest.text := rfl
    rw [whole, encode_append, List.length_append, encode_ascii (by decide), List.length_cons] at bound
    omega
  rw [arrayLoop, text, parsed, ok_bind,
    separate_comma 93 ']' (by decide) (by decide) (by decide) close,
    others fuel scope depth steps _ after _ next collected enough (by omega) smaller]
  · simp [Json.text, lines_cons, lines_append, Nat.add_assoc]
  · rw [lines_of_ne (by decide)]
    simpa [lines_append, Nat.add_assoc] using second

end Scanning

section Members

variable {serde : Serde} {before after : List Char} {line : Nat} {collector : KeyCollector}

/-- `from_str::<String>` gives the string that a body stands for. -/
def Serde.Decodes (serde : Serde) : Prop :=
  ∀ key name, decode key = some name → serde.string (quoted key) = .ok (String.ofList name)

def head (label : Label) : List Char :=
  label.before.chars ++ quoted label.key ++ label.middle.chars ++ [':']

theorem objectLoop_label {parse : List String → Nat → JsonKeyParser → Except Stop JsonKeyParser}
    {scope : List String} {depth steps : Nat} {label : Label} {next : KeyCollector}
    (decodes : serde.Decodes) (decoded : (decode label.key).isSome)
    (inserted : collector.insert scope (keyName label.key) (line + lines label.before.chars) =
      .ok next) :
    objectLoop serde parse scope depth (steps + 1)
        (scanned before (label.text ++ after) line collector) =
      parse (scope ++ [keyName label.key]) (depth + 1)
          (scanned (before ++ head label) (label.space.chars ++ after) (line + lines (head label))
            next) >>=
        fun parser => parser.skipWhitespace.separate 125 (objectLoop serde parse scope depth steps) := by
  obtain ⟨name, known⟩ := Option.isSome_iff_exists.1 decoded
  have named : keyName label.key = String.ofList name := by rw [keyName, known, Option.getD_some]
  have text : label.text ++ after = label.before.chars ++ '"' :: (bodyText label.key ++ '"' ::
      (label.middle.chars ++ ':' :: (label.space.chars ++ after))) := by
    simp [Label.text, quoted]
  have colon : (58 : UInt8) = UInt8.ofNat ':'.toNat := by decide
  have string : serde.string ('"' :: (bodyText label.key ++ ['"'])) = .ok (keyName label.key) :=
    named ▸ decodes label.key name known
  have middle : ∀ before line, (scanned before (label.middle.chars ++ ':' ::
      (label.space.chars ++ after)) line collector).skipWhitespace =
        scanned (before ++ label.middle.chars) (':' :: (label.space.chars ++ after))
          (line + lines label.middle.chars) collector :=
    fun _ _ => skipWhitespace_space label.middle (stops_cons (by decide))
  have stored : ∀ before after at_line,
      (scanned before after at_line collector).insert scope (keyName label.key)
        (line + lines label.before.chars) = .ok (scanned before after at_line next) := by
    intro before after at_line
    rw [JsonKeyParser.insert, scanned_collector, inserted]
    rfl
  rw [objectLoop, text, skipWhitespace_space label.before (stops_cons (by decide)),
    parseKeyString_cons (closing_body label.key _) string]
  simp only [ok_bind, middle, consume_byte colon (by decide), scanned_line, stored]
  simp [head, quoted, lines_cons, lines_append, Nat.add_assoc]

theorem label_text (label : Label) : label.text = head label ++ label.space.chars := by
  simp [Label.text, head]

theorem reads_member (decodes : serde.Decodes) {label : Label} {value : Json .value} (close : Space)
    (decoded : (decode label.key).isSome) (reads : Reads serde value) :
    Reads serde (.member label value close) := by
  intro fuel scope depth steps before after line collector collected enough shallow bound inserted
  obtain ⟨steps, rfl⟩ := succ_of_lt bound
  obtain ⟨next, first, second⟩ := insertAll_cons.1 inserted
  have text : (Json.member label value close).text ++ '\x7d' :: after =
      label.text ++ (value.text ++ (close.chars ++ '\x7d' :: after)) := by
    simp [Json.text]
  have parsed := reads fuel (scope ++ [keyName label.key]) (depth + 1) label.space
    (before ++ head label) (close.chars ++ '\x7d' :: after) (line + lines (head label)) next collected
    enough shallow (space_ends close (by decide))
    (by rwa [label_text, lines_append, ← Nat.add_assoc] at second)
  rw [text, objectLoop_label decodes decoded first, parsed, ok_bind,
    separate_closed 125 '\x7d' (by decide) (by decide) (by decide) close]
  simp [Json.text, label_text, lines_cons, lines_append, Nat.add_assoc]

theorem reads_members (decodes : serde.Decodes) {label : Label} {value : Json .value} (close : Space)
    {rest : Json .members} (decoded : (decode label.key).isSome) (reads : Reads serde value)
    (others : Reads serde rest) : Reads serde (.members label value close rest) := by
  intro fuel scope depth steps before after line collector collected enough shallow bound inserted
  obtain ⟨steps, rfl⟩ := succ_of_lt bound
  obtain ⟨next, first, second⟩ := insertAll_cons.1 inserted
  obtain ⟨middle, inner, last⟩ := insertAll_append.1 second
  have deep : (Json.members label value close rest).depth = max value.depth rest.depth := rfl
  have text : (Json.members label value close rest).text ++ '\x7d' :: after =
      label.text ++ (value.text ++ (close.chars ++ ',' :: (rest.text ++ '\x7d' :: after))) := by
    simp [Json.text]
  have parsed := reads fuel (scope ++ [keyName label.key]) (depth + 1) label.space
    (before ++ head label) (close.chars ++ ',' :: (rest.text ++ '\x7d' :: after))
    (line + lines (head label)) next middle enough (by omega) (space_ends close (by decide))
    (by rwa [label_text, lines_append, ← Nat.add_assoc] at inner)
  have smaller : (encode rest.text).length < steps := by
    have whole : (Json.members label value close rest).text =
        label.text ++ value.text ++ close.chars ++ ',' :: rest.text := rfl
    rw [whole, encode_append, List.length_append, encode_ascii (by decide), List.length_cons] at bound
    omega
  rw [text, objectLoop_label decodes decoded first, parsed, ok_bind,
    separate_comma 125 '\x7d' (by decide) (by decide) (by decide) close,
    others fuel scope depth steps _ after _ middle collected enough (by omega) smaller]
  · simp [Json.text, label_text, lines_cons, lines_append, Nat.add_assoc]
  · rw [lines_of_ne (by decide)]
    simpa [label_text, lines_append, Nat.add_assoc] using last

theorem reads (decodes : serde.Decodes) {part : Part} (json : Json part)
    (decoded : ∀ key ∈ json.keys, (decode key).isSome) : Reads serde json := by
  induction json with
  | scalar token => exact reads_scalar token
  | string body => exact reads_string body
  | emptyArray space => exact reads_emptyArray space
  | array content ih => exact reads_array (ih decoded)
  | emptyObject space => exact reads_emptyObject space
  | object content ih => exact reads_object (ih decoded)
  | item space value close ih => exact reads_item space close (ih decoded)
  | items space value close rest ih others =>
    simp only [Json.keys, List.forall_mem_append] at decoded
    exact reads_items space close (ih decoded.1) (others decoded.2)
  | member label value close ih =>
    simp only [Json.keys, List.forall_mem_cons] at decoded
    exact reads_member decodes close decoded.1 (ih decoded.2)
  | members label value close rest ih others =>
    simp only [Json.keys, List.forall_mem_cons, List.forall_mem_append] at decoded
    exact reads_members decodes close decoded.1 (ih decoded.2.1) (others decoded.2.2)

end Members

section Documents

variable {serde : Serde} {readers : Readers} {sourcePath : String}

theorem exists_of_mem_declarations {part : Part} (json : Json part) {scope : List String} {line : Nat}
    {key : Declaration} (mem : key ∈ json.declarations scope line) :
    ∃ written ∈ json.keys, key.name = keyName written := by
  induction json generalizing scope line with
  | scalar token => exact absurd mem List.not_mem_nil
  | string body => exact absurd mem List.not_mem_nil
  | emptyArray space => exact absurd mem List.not_mem_nil
  | array content ih => exact ih mem
  | emptyObject space => exact absurd mem List.not_mem_nil
  | object content ih => exact ih mem
  | item space value close ih => exact ih mem
  | items space value close rest ih others =>
    rcases List.mem_append.1 mem with mem | mem
    · obtain ⟨written, listed, name⟩ := ih mem
      exact ⟨written, List.mem_append_left _ listed, name⟩
    · obtain ⟨written, listed, name⟩ := others mem
      exact ⟨written, List.mem_append_right _ listed, name⟩
  | member label value close ih =>
    rcases List.mem_cons.1 mem with rfl | mem
    · exact ⟨label.key, List.mem_cons_self, rfl⟩
    · obtain ⟨written, listed, name⟩ := ih mem
      exact ⟨written, List.mem_cons_of_mem _ listed, name⟩
  | members label value close rest ih others =>
    rcases List.mem_cons.1 mem with rfl | mem
    · exact ⟨label.key, List.mem_cons_self, rfl⟩
    · rcases List.mem_append.1 mem with mem | mem
      · obtain ⟨written, listed, name⟩ := ih mem
        exact ⟨written, List.mem_cons_of_mem _ (List.mem_append_left _ listed), name⟩
      · obtain ⟨written, listed, name⟩ := others mem
        exact ⟨written, List.mem_cons_of_mem _ (List.mem_append_right _ listed), name⟩

theorem parseJson_document (decodes : serde.Decodes) {document : Document}
    (shallow : document.value.depth ≤ maxDepth)
    (decoded : ∀ key ∈ document.value.keys, (decode key).isSome) {collected : KeyCollector}
    (inserted : insertAll {} document.declarations = .ok collected)
    (accepted : serde.ignored document.text = .ok ()) :
    parseJson serde document.text {} = .ok collected := by
  have text : document.text =
      document.before.chars ++ (document.value.text ++ document.after.chars) := by
    rw [Document.text, List.append_assoc]
  have ends : ∀ c ∈ document.after.chars.head?, wants isScalarByte c = false := by
    intro c first
    exact (space_wants (List.all_eq_true.1 document.after.blank c (List.mem_of_mem_head? first))).2
  have parsed := reads decodes document.value decoded (maxDepth + 2) [] 0 document.before []
    document.after.chars 1 {} collected (by omega) (by omega) ends inserted
  rw [List.nil_append, ← text] at parsed
  have start : (⟨document.text, 0, 1, {}⟩ : JsonKeyParser) = scanned [] document.text 1 {} := rfl
  have blank := @skipWhitespace_space (document.before.chars ++ document.value.text) []
    (1 + lines document.before.chars + lines document.value.text) collected document.after (by simp)
  have whole : document.before.chars ++ document.value.text ++ document.after.chars =
      document.text := rfl
  rw [List.append_nil, whole] at blank
  rw [parseJson, start, parsed, ok_bind, blank]
  simp [accepted]

/-- A document within the budgets of depth, of the bytes of a name and of the number of paths. -/
structure Fits (document : Document) : Prop where
  shallow : document.value.depth ≤ maxDepth
  short : ∀ key ∈ document.value.keys, ∃ name, decode key = some name ∧
    (String.ofList name).utf8ByteSize ≤ maxKeyBytes
  few : (keyPaths document.declarations).toFinset.card ≤ maxKeys

theorem parseJson_fits (decodes : serde.Decodes) {document : Document} (fits : Fits document)
    (accepted : serde.ignored document.text = .ok ()) :
    ∃ collected, parseJson serde document.text {} = .ok collected ∧
      insertAll {} document.declarations = .ok collected ∧
      Collected document.declarations collected := by
  have short : ∀ key ∈ document.declarations, key.name.utf8ByteSize ≤ maxKeyBytes := by
    intro key mem
    obtain ⟨written, listed, same⟩ := exists_of_mem_declarations document.value mem
    obtain ⟨name, known, bound⟩ := fits.short written listed
    rwa [same, keyName, known, Option.getD_some]
  have decoded : ∀ key ∈ document.value.keys, (decode key).isSome := by
    intro key listed
    obtain ⟨name, known, -⟩ := fits.short key listed
    exact Option.isSome_iff_exists.2 ⟨name, known⟩
  obtain ⟨collected, inserted, stands⟩ := insertAll_collected collected_nil short fits.few
  exact ⟨collected, parseJson_document decodes fits.shallow decoded inserted accepted, inserted, stands⟩

theorem extractSafeConfig_of_json {input : String} (json : artifactKind sourcePath = .ok .json)
    (within : input.utf8ByteSize ≤ maxInputBytes) :
    extractSafeConfig serde readers sourcePath input =
      (parseJson serde input.toList {}).map fun collector =>
        ⟨sourcePath, .json, collector.intoKeys, [], false⟩ := by
  rw [extractSafeConfig, json]
  simp only [lift, ok_bind, if_neg (Nat.not_lt.2 within)]
  cases parseJson serde input.toList {} with
  | error stop => rfl
  | ok collector =>
    simp only [Except.map, ok_bind, List.mergeSort_nil]
    rfl

/-- Extraction from JSON is exact: it always ends in keys or in an error, it fails on a text that
is not JSON, and on a document within the budgets it gives every declared path once, with its
least line. -/
theorem extractSafeConfig_json {input : String} (json : artifactKind sourcePath = .ok .json)
    (within : input.utf8ByteSize ≤ maxInputBytes) (decodes : serde.Decodes)
    (accepts : serde.ignored input.toList = .ok () ↔ WellFormed input.toList) :
    ((∃ config, extractSafeConfig serde readers sourcePath input = .ok config) ∨
      ∃ error, extractSafeConfig serde readers sourcePath input = .error (.failed error)) ∧
    (¬WellFormed input.toList →
      ∃ error, extractSafeConfig serde readers sourcePath input = .error (.failed error)) ∧
    ∀ document : Document, document.text = input.toList → Fits document →
      ∃ config, extractSafeConfig serde readers sourcePath input = .ok config ∧
        config.warnings = [] ∧ config.incomplete = false ∧
        (config.keys.map fun key => (key.scope, key.name)).Nodup ∧
        ∀ key, key ∈ config.keys ↔ Summary document.declarations key := by
  rw [extractSafeConfig_of_json json within]
  refine ⟨?_, fun ill => ?_, fun document text fits => ?_⟩
  · rcases @parseJson_ends serde input.toList {} with ⟨collected, done⟩ | ⟨error, failed⟩
    · exact .inl ⟨_, by rw [done]; rfl⟩
    · exact .inr ⟨error, by rw [failed]; rfl⟩
  · rcases @parseJson_ends serde input.toList {} with ⟨collected, done⟩ | ⟨error, failed⟩
    · exact absurd (accepts.1 (ignored_of_parseJson done)) ill
    · exact ⟨error, by rw [failed]; rfl⟩
  · have accepted := accepts.2 ⟨document, text⟩
    rw [← text] at accepted ⊢
    obtain ⟨collected, done, -, stands⟩ := parseJson_fits decodes fits accepted
    exact ⟨_, by rw [done]; rfl, rfl, rfl, stands.nodup, stands.mem_intoKeys⟩

/-- `serde_json` on strings, and on some documents. -/
def sampleSerde (texts : List (List Char)) : Serde where
  ignored text := if text ∈ texts then .ok () else .error (1, 1)
  string quoted :=
    ((readBody (quoted.drop 1).dropLast).bind decode).elim (.error (1, 1)) fun name =>
      .ok (String.ofList name)

theorem sampleSerde_decodes (texts : List (List Char)) : (sampleSerde texts).Decodes := by
  intro key name known
  have inner : ((quoted key).drop 1).dropLast = bodyText key := by simp [quoted]
  simp only [sampleSerde, inner, readBody_bodyText, Option.bind_some, known, Option.elim_some]

def plainBody (text : List Char) (plain : text.all isPlain = true) : List Element :=
  text.attach.map fun c => .plain c.1 (List.all_eq_true.1 plain c.1 c.2)

def noSpace : Space := ⟨[], rfl⟩

/-- A key that is declared twice, a key below an array, and a value that looks like a key. -/
def sampleDocument : Document where
  before := ⟨[' ', '\n'], rfl⟩
  value := .object (.members ⟨noSpace, plainBody ['d', 'b'] rfl, noSpace, ⟨[' '], rfl⟩⟩
    (.array (.item noSpace (.object (.member ⟨⟨['\n'], rfl⟩, plainBody ['é'] rfl, noSpace, noSpace⟩
      (.string [.escape '"' rfl, .plain ':' rfl]) noSpace)) noSpace)) noSpace
    (.member ⟨⟨['\n'], rfl⟩, plainBody ['d', 'b'] rfl, noSpace, noSpace⟩ (.scalar .null) noSpace))
  after := noSpace

def sampleReaders : Readers where
  yaml _ collector := .ok (collector, [])
  toml _ collector := .ok (collector, [])

theorem sample_fits : Fits sampleDocument where
  shallow := by decide
  short := by
    intro key listed
    have keys : sampleDocument.value.keys =
        [plainBody ['d', 'b'] rfl, plainBody ['é'] rfl, plainBody ['d', 'b'] rfl] := rfl
    rw [keys] at listed
    simp only [List.mem_cons, List.not_mem_nil, or_false] at listed
    rcases listed with rfl | rfl | rfl
    · exact ⟨['d', 'b'], rfl, by decide⟩
    · exact ⟨['é'], rfl, by decide⟩
    · exact ⟨['d', 'b'], rfl, by decide⟩
  few := by decide

theorem sample_declarations : sampleDocument.declarations =
    [⟨[], "db", 2⟩, ⟨["db"], "é", 3⟩, ⟨[], "db", 4⟩] := by
  decide

theorem extractSafeConfig_json_sample :
    ∃ config, extractSafeConfig (sampleSerde [sampleDocument.text]) sampleReaders "app.json"
        (String.ofList sampleDocument.text) = .ok config ∧
      (⟨[], "db", 2, none⟩ : SafeConfigKey) ∈ config.keys ∧
      (⟨["db"], "é", 3, none⟩ : SafeConfigKey) ∈ config.keys := by
  have text : (String.ofList sampleDocument.text).toList = sampleDocument.text :=
    String.toList_ofList
  have accepts : (sampleSerde [sampleDocument.text]).ignored
      (String.ofList sampleDocument.text).toList = .ok () ↔
        WellFormed (String.ofList sampleDocument.text).toList := by
    rw [text]
    exact iff_of_true (by simp [sampleSerde]) ⟨sampleDocument, rfl⟩
  obtain ⟨config, done, -, -, -, keys⟩ := (@extractSafeConfig_json _ sampleReaders "app.json" _
    (by decide) (by decide) (sampleSerde_decodes _) accepts).2.2 sampleDocument text.symm sample_fits
  refine ⟨config, done, (keys _).2 ⟨by decide, ⟨?_, ?_⟩, by decide⟩,
    (keys _).2 ⟨by decide, ⟨?_, ?_⟩, by decide⟩⟩
  · simp [linesOf, sample_declarations]
  · intro line mem
    simp only [linesOf, sample_declarations] at mem
    simp at mem
    change 2 ≤ line
    omega
  · simp [linesOf, sample_declarations]
  · intro line mem
    simp only [linesOf, sample_declarations] at mem
    simp at mem
    change 3 ≤ line
    omega

/-- Values never surface: documents that differ in strings and scalars only have one result. -/
theorem extractSafeConfig_conceals {document other : Document}
    (same : document.concealed = other.concealed) (json : artifactKind sourcePath = .ok .json)
    (within : (String.ofList document.text).utf8ByteSize ≤ maxInputBytes)
    (within' : (String.ofList other.text).utf8ByteSize ≤ maxInputBytes) (decodes : serde.Decodes)
    (accepted : serde.ignored document.text = .ok ()) (accepted' : serde.ignored other.text = .ok ())
    (fits : Fits document) :
    extractSafeConfig serde readers sourcePath (String.ofList document.text) =
      extractSafeConfig serde readers sourcePath (String.ofList other.text) := by
  have declared : document.declarations = other.declarations := by
    rw [← document.declarations_concealed, same, other.declarations_concealed]
  have values : document.value.concealed = other.value.concealed := congrArg Document.value same
  have fits' : Fits other := by
    refine ⟨?_, ?_, declared ▸ fits.few⟩
    · rw [← other.value.depth_concealed, ← values, document.value.depth_concealed]
      exact fits.shallow
    · rw [← other.value.keys_concealed, ← values, document.value.keys_concealed]
      exact fits.short
  obtain ⟨collected, done, inserted, -⟩ := parseJson_fits decodes fits accepted
  obtain ⟨collected', done', inserted', -⟩ := parseJson_fits decodes fits' accepted'
  obtain rfl : collected = collected' := Except.ok.inj (inserted.symm.trans (declared ▸ inserted'))
  rw [extractSafeConfig_of_json json within, extractSafeConfig_of_json json within',
    String.toList_ofList, String.toList_ofList, done, done']

/-- The sample with another value. -/
def otherDocument : Document where
  before := ⟨[' ', '\n'], rfl⟩
  value := .object (.members ⟨noSpace, plainBody ['d', 'b'] rfl, noSpace, ⟨[' '], rfl⟩⟩
    (.array (.item noSpace (.object (.member ⟨⟨['\n'], rfl⟩, plainBody ['é'] rfl, noSpace, noSpace⟩
      (.scalar (.bool true)) noSpace)) noSpace)) noSpace
    (.member ⟨⟨['\n'], rfl⟩, plainBody ['d', 'b'] rfl, noSpace, noSpace⟩ (.string []) noSpace))
  after := noSpace

theorem extractSafeConfig_conceals_sample :
    extractSafeConfig (sampleSerde [sampleDocument.text, otherDocument.text]) sampleReaders "app.json"
        (String.ofList sampleDocument.text) =
      extractSafeConfig (sampleSerde [sampleDocument.text, otherDocument.text]) sampleReaders
        "app.json" (String.ofList otherDocument.text) :=
  extractSafeConfig_conceals rfl (by decide) (by decide) (by decide) (sampleSerde_decodes _)
    (by simp [sampleSerde]) (by simp [sampleSerde]) sample_fits

end Documents

end CodeSystemGraph.SafeConfig
