import CodeSystemGraph.JsonText
import CodeSystemGraph.SafeConfig

/-!
The scanner of JSON keys, seen between characters: every loop takes whole characters, so
that no slice is made inside of one, and the parser ends on every text.
-/

namespace CodeSystemGraph.SafeConfig

open JsonText Ordered Utf8

namespace JsonKeyParser

section Bytes

variable {parser : JsonKeyParser} {byte : UInt8} {bytes more : Bytes}

def rest (parser : JsonKeyParser) : Bytes := (encode parser.input).drop parser.position

def forward (parser : JsonKeyParser) (count : Nat) : JsonKeyParser :=
  { parser with position := parser.position + count }

theorem currentByte_eq (parser : JsonKeyParser) : parser.currentByte = parser.rest.head? := by
  rw [currentByte, rest, List.head?_drop]

theorem rest_forward (parser : JsonKeyParser) (count : Nat) :
    (parser.forward count).rest = parser.rest.drop count := by
  simp only [rest, forward, List.drop_drop]

theorem forward_forward (parser : JsonKeyParser) (count more : Nat) :
    (parser.forward count).forward more = parser.forward (count + more) := by
  simp only [forward, Nat.add_assoc]

theorem advance_eq (found : parser.currentByte = some byte) (feed : byte ≠ 10) :
    parser.advance = parser.forward 1 := by
  have line : parser.currentByte ≠ some 10 := by
    rw [found]
    exact fun same => feed (Option.some.inj same)
  rw [advance, if_neg line]
  rfl

theorem skipWhile_bytes {wanted : UInt8 → Bool} (fuel : Nat)
    (all : ∀ byte ∈ bytes, wanted byte = true ∧ byte ≠ 10) (left : parser.rest = bytes ++ more) :
    parser.skipWhile wanted (bytes.length + fuel) =
      (parser.forward bytes.length).skipWhile wanted fuel := by
  induction bytes generalizing parser with
  | nil =>
    rw [List.length_nil, Nat.zero_add]
    rfl
  | cons byte bytes ih =>
    obtain ⟨first, others⟩ := List.forall_mem_cons.1 all
    have found : parser.currentByte = some byte := by
      rw [currentByte_eq, left]
      rfl
    have after : (parser.forward 1).rest = bytes ++ more := by
      rw [rest_forward, left]
      rfl
    have length : (byte :: bytes).length + fuel = (bytes.length + fuel) + 1 := by
      rw [List.length_cons]
      omega
    rw [length, skipWhile, found, Option.any_some, if_pos first.1, advance_eq found first.2,
      ih others after]
    rw [forward_forward, Nat.add_comm 1, List.length_cons]

/-- The bytes of a character that is not of ASCII end an escape and are nothing else. -/
theorem skipStringLoop_bytes (fuel : Nat) (escaped : Bool)
    (all : ∀ byte ∈ bytes, 128 ≤ byte.toNat) (left : parser.rest = bytes ++ more)
    (nonempty : bytes ≠ []) :
    skipStringLoop (bytes.length + fuel) escaped parser =
      skipStringLoop fuel false (parser.forward bytes.length) := by
  induction bytes generalizing parser escaped with
  | nil => exact absurd rfl nonempty
  | cons byte bytes ih =>
    obtain ⟨first, others⟩ := List.forall_mem_cons.1 all
    have differs : byte ≠ 92 ∧ byte ≠ 34 ∧ byte ≠ 10 := by
      refine ⟨?_, ?_, ?_⟩ <;> rintro rfl <;> exact absurd first (by decide)
    have found : parser.currentByte = some byte := by
      rw [currentByte_eq, left]
      rfl
    have length : (byte :: bytes).length + fuel = (bytes.length + fuel) + 1 := by
      rw [List.length_cons]
      omega
    have step : skipStringLoop ((byte :: bytes).length + fuel) escaped parser =
        skipStringLoop (bytes.length + fuel) false (parser.forward 1) := by
      rw [length, skipStringLoop, found]
      simp only [differs.1, differs.2.1, if_false, ite_self, advance_eq found differs.2.2]
    rw [step]
    cases bytes with
    | nil => rw [List.length_nil, Nat.zero_add, List.length_singleton]
    | cons second bytes =>
      have after : (parser.forward 1).rest = second :: bytes ++ more := by
        rw [rest_forward, left]
        rfl
      rw [ih false others after (List.cons_ne_nil _ _), forward_forward]
      congr 2
      exact Nat.add_comm 1 _

end Bytes

section Characters

variable {before after : List Char} {line : Nat} {collector : KeyCollector} {c : Char}

/-- The parser between two characters of its input. -/
def scanned (before after : List Char) (line : Nat) (collector : KeyCollector) : JsonKeyParser :=
  ⟨before ++ after, (encode before).length, line, collector⟩

@[simp] theorem scanned_line : (scanned before after line collector).line = line := rfl

@[simp] theorem scanned_collector :
    (scanned before after line collector).collector = collector := rfl

@[simp] theorem scanned_position :
    (scanned before after line collector).position = (encode before).length := rfl

@[simp] theorem scanned_input :
    (scanned before after line collector).input = before ++ after := rfl

@[simp] theorem rest_scanned : (scanned before after line collector).rest = encode after := by
  simp [rest]

@[simp] theorem remaining_scanned :
    (scanned before after line collector).remaining = (encode after).length := by
  simp [remaining]

theorem currentByte_ascii (ascii : c.toNat < 128) :
    (scanned before (c :: after) line collector).currentByte = some (UInt8.ofNat c.toNat) := by
  rw [currentByte_eq, rest_scanned, encode_ascii ascii, List.head?_cons]

@[simp] theorem currentByte_nil : (scanned before [] line collector).currentByte = none := by
  rw [currentByte_eq, rest_scanned]
  rfl

theorem forward_scanned :
    (scanned before (c :: after) line collector).forward (String.utf8EncodeChar c).length =
      scanned (before ++ [c]) after line collector := by
  simp only [forward, scanned, encode_append, encode_cons, encode_nil, List.append_nil,
    List.length_append, List.append_assoc, List.singleton_append]

theorem currentByte_eq_iff {d : Char} (ascii : d.toNat < 128) :
    (scanned before (c :: after) line collector).currentByte = some (UInt8.ofNat d.toNat) ↔
      c = d := by
  rcases utf8EncodeChar_cases c with ⟨small, -⟩ | ⟨large, high⟩
  · rw [currentByte_ascii small, Option.some_inj, ofNat_toNat_eq_iff small ascii]
  · refine iff_of_false (fun found => ?_) (fun same => by subst same; omega)
    rw [currentByte_eq, rest_scanned, encode_cons, List.head?_append] at found
    have pos := length_utf8EncodeChar_pos c
    cases bytes : String.utf8EncodeChar c with
    | nil => simp [bytes] at pos
    | cons byte more =>
      rw [bytes] at found high
      have big := high byte List.mem_cons_self
      rw [Option.some_inj.1 found, UInt8.toNat_ofNat'] at big
      omega

theorem advance_ascii (ascii : c.toNat < 128) :
    (scanned before (c :: after) line collector).advance =
      scanned (before ++ [c]) after (line + lines [c]) collector := by
  have feed : (scanned before (c :: after) line collector).currentByte = some 10 ↔ c = '\n' :=
    currentByte_eq_iff (d := '\n') (by decide)
  have count : (if (scanned before (c :: after) line collector).currentByte = some 10 then line + 1
      else line) = line + lines [c] := by
    by_cases same : c = '\n'
    · rw [if_pos (feed.2 same), same]
      rfl
    · rw [if_neg (fun found => same (feed.1 found)), lines_of_ne same, Nat.add_zero]
  have length : (encode (before ++ [c])).length = (encode before).length + 1 := by
    rw [encode_append, List.length_append, encode_ascii ascii]
    rfl
  rw [advance, scanned_line, count]
  simp only [scanned, length, List.append_assoc, List.singleton_append]

theorem skipWhile_of_not {wanted : UInt8 → Bool} {parser : JsonKeyParser} (fuel : Nat)
    (stop : parser.currentByte.any wanted = false) : parser.skipWhile wanted fuel = parser := by
  cases fuel with
  | zero => rfl
  | succ fuel => rw [skipWhile, stop, if_neg Bool.false_ne_true]

def wants (wanted : UInt8 → Bool) (c : Char) : Bool := (String.utf8EncodeChar c).all wanted

theorem wants_ascii (wanted : UInt8 → Bool) (ascii : c.toNat < 128) :
    wants wanted c = wanted (UInt8.ofNat c.toNat) := by
  rcases utf8EncodeChar_cases c with ⟨-, single⟩ | ⟨large, -⟩
  · rw [wants, single, List.all_cons, List.all_nil, Bool.and_true]
  · omega

theorem wants_eq {wanted : UInt8 → Bool} {beyond : Bool}
    (uniform : ∀ byte : UInt8, 128 ≤ byte.toNat → wanted byte = beyond)
    (high : ∀ byte ∈ String.utf8EncodeChar c, 128 ≤ byte.toNat) : wants wanted c = beyond := by
  cases beyond with
  | true => exact List.all_eq_true.2 fun byte mem => uniform byte (high byte mem)
  | false =>
    obtain ⟨byte, mem⟩ := List.exists_mem_of_length_pos (length_utf8EncodeChar_pos c)
    exact List.all_eq_false.2 ⟨byte, mem, by rw [uniform byte (high byte mem)]; simp⟩

theorem skipWhile_scanned {wanted : UInt8 → Bool} (beyond : Bool)
    (uniform : ∀ byte : UInt8, 128 ≤ byte.toNat → wanted byte = beyond) {fuel : Nat}
    (enough : (encode after).length ≤ fuel) :
    (scanned before after line collector).skipWhile wanted fuel =
      scanned (before ++ after.takeWhile (wants wanted)) (after.dropWhile (wants wanted))
        (line + lines (after.takeWhile (wants wanted))) collector := by
  induction after generalizing before line fuel with
  | nil =>
    rw [skipWhile_of_not fuel (by rw [currentByte_nil]; rfl)]
    simp [lines]
  | cons c after ih =>
    have length : (String.utf8EncodeChar c).length + (encode after).length ≤ fuel := by
      rwa [encode_cons, List.length_append] at enough
    have pos := length_utf8EncodeChar_pos c
    rw [List.takeWhile_cons, List.dropWhile_cons]
    rcases utf8EncodeChar_cases c with ⟨ascii, single⟩ | ⟨large, high⟩
    · have want := wants_ascii wanted ascii
      obtain ⟨fuel, rfl⟩ : ∃ more, fuel = more + 1 := ⟨fuel - 1, by omega⟩
      rw [single, List.length_singleton] at length
      rw [want]
      by_cases go : wanted (UInt8.ofNat c.toNat) = true
      · rw [skipWhile, currentByte_ascii ascii, Option.any_some, if_pos go, advance_ascii ascii,
          ih (by omega), if_pos go, if_pos go, List.append_assoc, List.singleton_append, Nat.add_assoc,
          ← lines_append, List.singleton_append]
      · rw [skipWhile_of_not _ (by rw [currentByte_ascii ascii]; simpa using go), if_neg go, if_neg go]
        simp [lines]
    · rw [wants_eq uniform high]
      cases beyond with
      | true =>
        obtain ⟨fuel, rfl⟩ : ∃ more, fuel = (String.utf8EncodeChar c).length + more :=
          ⟨fuel - (String.utf8EncodeChar c).length, by omega⟩
        have left : (scanned before (c :: after) line collector).rest =
            String.utf8EncodeChar c ++ encode after := rest_scanned
        have differs : c ≠ '\n' := by
          rintro rfl
          exact absurd large (by decide)
        rw [skipWhile_bytes fuel (fun byte mem => ?_) left, forward_scanned, ih (by omega)]
        · rw [if_pos rfl, if_pos rfl, ← List.singleton_append (l := after.takeWhile _), lines_append,
            lines_of_ne differs, Nat.zero_add, List.append_assoc]
        · refine ⟨uniform byte (high byte mem), ?_⟩
          rintro rfl
          exact absurd (high 10 mem) (by decide)
      | false =>
        obtain ⟨byte, more, bytes⟩ := List.exists_cons_of_length_pos pos
        have first : (scanned before (c :: after) line collector).currentByte = some byte := by
          rw [currentByte_eq, rest_scanned, encode_cons, bytes]
          rfl
        have stop := uniform byte (high byte (bytes ▸ List.mem_cons_self))
        rw [skipWhile_of_not fuel (by rw [first, Option.any_some, stop])]
        simp [lines]

theorem ne_of_large {byte : UInt8} (large : 128 ≤ byte.toNat) (small : UInt8)
    (bound : small.toNat < 128) : byte ≠ small := by
  rintro rfl
  omega

theorem skipWhitespace_scanned :
    (scanned before after line collector).skipWhitespace =
      scanned (before ++ after.takeWhile (wants isAsciiWhitespace))
        (after.dropWhile (wants isAsciiWhitespace))
        (line + lines (after.takeWhile (wants isAsciiWhitespace))) collector := by
  refine skipWhile_scanned false (fun byte large => ?_) (Nat.le_of_eq remaining_scanned.symm)
  have differs := ne_of_large large
  simp [isAsciiWhitespace, differs]

/-- The characters up to the quote that closes a string, and the characters after it. -/
def closing : Bool → List Char → Option (List Char × List Char)
  | _, [] => none
  | escaped, c :: rest =>
    if !escaped && c = '"' then some ([c], rest)
    else (closing (!escaped && c = '\\') rest).map fun parts => (c :: parts.1, parts.2)

theorem closing_append {escaped : Bool} {text taken rest : List Char}
    (found : closing escaped text = some (taken, rest)) : text = taken ++ rest := by
  induction text generalizing escaped taken with
  | nil => exact absurd found (by simp [closing])
  | cons c text ih =>
    rw [closing] at found
    split at found
    · cases found
      rfl
    · rw [Option.map_eq_some_iff] at found
      obtain ⟨⟨first, second⟩, parts, same⟩ := found
      cases same
      rw [List.cons_append, ← ih parts]

theorem skipStringLoop_scanned {fuel : Nat} (escaped : Bool)
    (enough : (encode after).length < fuel) :
    skipStringLoop fuel escaped (scanned before after line collector) =
      (closing escaped after).elim
        (.error (scanned (before ++ after) [] (line + lines after) collector).error)
        fun parts => .ok (scanned (before ++ parts.1) parts.2 (line + lines parts.1) collector) := by
  induction after generalizing before line fuel escaped with
  | nil =>
    obtain ⟨fuel, rfl⟩ : ∃ more, fuel = more + 1 := ⟨fuel - 1, by omega⟩
    rw [skipStringLoop, currentByte_nil, List.append_nil]
    rfl
  | cons c after ih =>
    have length : (String.utf8EncodeChar c).length + (encode after).length < fuel := by
      rwa [encode_cons, List.length_append] at enough
    have goes : ∀ {fuel : Nat} (next : Bool), (encode after).length < fuel →
        (!escaped && c = '"') = false → next = (!escaped && c = '\\') →
        skipStringLoop fuel next (scanned (before ++ [c]) after (line + lines [c]) collector) =
          (closing escaped (c :: after)).elim
            (.error (scanned (before ++ c :: after) [] (line + lines (c :: after)) collector).error)
            fun parts =>
              .ok (scanned (before ++ parts.1) parts.2 (line + lines parts.1) collector) := by
      intro fuel next enough stays same
      rw [ih next enough, closing, stays, if_neg Bool.false_ne_true, ← same,
        ← List.singleton_append (l := after), lines_append, List.append_assoc, Nat.add_assoc]
      cases closing next after with
      | none => rfl
      | some parts =>
        have tail : lines (c :: parts.1) = lines [c] + lines parts.1 := lines_append [c] parts.1
        simp only [Option.map_some, Option.elim_some, tail, List.append_assoc, List.singleton_append, Nat.add_assoc]
    rcases utf8EncodeChar_cases c with ⟨ascii, single⟩ | ⟨large, high⟩
    · obtain ⟨fuel, rfl⟩ : ∃ more, fuel = more + 1 := ⟨fuel - 1, by omega⟩
      rw [single, List.length_singleton] at length
      have backslash : UInt8.ofNat c.toNat = 92 ↔ c = '\\' :=
        ofNat_toNat_eq_iff (d := '\\') ascii (by decide)
      have quote : UInt8.ofNat c.toNat = 34 ↔ c = '"' :=
        ofNat_toNat_eq_iff (d := '"') ascii (by decide)
      rw [skipStringLoop, currentByte_ascii ascii]
      simp only [backslash, quote, advance_ascii ascii]
      cases escaped with
      | true => exact goes false (by omega) rfl rfl
      | false =>
        rw [if_neg Bool.false_ne_true]
        by_cases first : c = '\\'
        · rw [if_pos first]
          exact goes true (by omega) (by subst first; rfl) (by subst first; rfl)
        · rw [if_neg first]
          by_cases last : c = '"'
          · rw [if_pos last, closing, if_pos (by simp [last])]
            rfl
          · rw [if_neg last]
            exact goes false (by omega) (by simp [last]) (by simp [first])
    · have differs : c ≠ '"' ∧ c ≠ '\\' ∧ c ≠ '\n' := by
        refine ⟨?_, ?_, ?_⟩ <;> rintro rfl <;> exact absurd large (by decide)
      obtain ⟨fuel, rfl⟩ : ∃ more, fuel = (String.utf8EncodeChar c).length + more :=
        ⟨fuel - (String.utf8EncodeChar c).length, by omega⟩
      have left : (scanned before (c :: after) line collector).rest =
          String.utf8EncodeChar c ++ encode after := rest_scanned
      have nonempty : String.utf8EncodeChar c ≠ [] := String.utf8EncodeChar_ne_nil
      rw [skipStringLoop_bytes fuel escaped high left nonempty, forward_scanned]
      have passed := @goes fuel false (by omega) (by simp [differs.1]) (by simp [differs.2.1])
      rwa [lines_of_ne differs.2.2, Nat.add_zero] at passed

theorem error_scanned : ∃ error, (scanned before after line collector).error = .failed error := by
  have within : min (encode before).length (encode (before ++ after)).length =
      (encode before).length := by
    rw [encode_append, List.length_append]
    omega
  have head : slice (before ++ after) 0 (encode before).length = some before :=
    slice_append [] before after
  rw [error, scanned_input, scanned_position, within, head]
  exact ⟨_, rfl⟩

theorem consume_scanned {d : Char} (ascii : d.toNat < 128) :
    (scanned before after line collector).consume (UInt8.ofNat d.toNat) =
      if after.head? = some d then
        some (scanned (before ++ [d]) after.tail (line + lines [d]) collector)
      else none := by
  rw [consume]
  cases after with
  | nil => simp
  | cons c after =>
    by_cases same : c = d
    · subst same
      rw [if_pos (currentByte_ascii ascii), advance_ascii ascii, List.head?_cons, if_pos rfl,
        List.tail_cons]
    · rw [if_neg (fun found => same ((currentByte_eq_iff ascii).1 found)),
        if_neg (by simpa using same)]

theorem consume_cons (ascii : c.toNat < 128) :
    (scanned before (c :: after) line collector).consume (UInt8.ofNat c.toNat) =
      some (scanned (before ++ [c]) after (line + lines [c]) collector) := by
  rw [consume_scanned ascii, List.head?_cons, if_pos rfl, List.tail_cons]

theorem consume_eq_none {d : Char} (ascii : d.toNat < 128) (differs : after.head? ≠ some d) :
    (scanned before after line collector).consume (UInt8.ofNat d.toNat) = none := by
  rw [consume_scanned ascii, if_neg differs]

theorem skipScalar_scanned :
    (scanned before after line collector).skipScalar =
      if after.takeWhile (wants isScalarByte) = [] then
        .error (scanned before after line collector).error
      else .ok (scanned (before ++ after.takeWhile (wants isScalarByte))
        (after.dropWhile (wants isScalarByte))
        (line + lines (after.takeWhile (wants isScalarByte))) collector) := by
  have uniform : ∀ byte : UInt8, 128 ≤ byte.toNat → isScalarByte byte = true := by
    intro byte large
    have differs := ne_of_large large
    simp [isScalarByte, isAsciiWhitespace, differs]
  have loop := @skipWhile_scanned before after line collector isScalarByte true uniform
    (encode after).length (Nat.le_refl _)
  rw [skipScalar, remaining_scanned, loop]
  by_cases none : after.takeWhile (wants isScalarByte) = []
  · have same : after.dropWhile (wants isScalarByte) = after := by
      have whole := List.takeWhile_append_dropWhile (p := wants isScalarByte) (l := after)
      rwa [none, List.nil_append] at whole
    rw [if_pos none]
    simp [none, same, lines]
  · rw [if_neg none]
    obtain ⟨c, more, text⟩ := List.exists_cons_of_ne_nil none
    have pos := length_utf8EncodeChar_pos c
    rw [if_neg (by
      rw [text, scanned_position, scanned_position, encode_append, List.length_append, encode_cons,
        List.length_append]
      omega)]

theorem skipString_cons :
    (scanned before ('"' :: after) line collector).skipString =
      (closing false after).elim
        (.error (scanned (before ++ '"' :: after) [] (line + lines after) collector).error)
        fun parts =>
          .ok (scanned (before ++ '"' :: parts.1) parts.2 (line + lines parts.1) collector) := by
  have opened : (scanned before ('"' :: after) line collector).consume 34 =
      some (scanned (before ++ ['"']) after (line + lines ['"']) collector) :=
    consume_cons (c := '"') (by decide)
  rw [skipString, opened]
  simp only [remaining_scanned]
  rw [skipStringLoop_scanned false (Nat.lt_succ_self _), lines_of_ne (by decide), Nat.add_zero]
  simp only [List.append_assoc, List.singleton_append]

theorem skipString_of_ne (differs : after.head? ≠ some '"') :
    (scanned before after line collector).skipString =
      .error (scanned before after line collector).error := by
  have closed : (scanned before after line collector).consume 34 = none :=
    consume_eq_none (d := '"') (by decide) differs
  rw [skipString, closed]

end Characters

section Safety

variable {α β : Type} {input : List Char} {limit : Nat} {parser : JsonKeyParser} {serde : Serde}

/-- The parser stands between two characters of its input with at most so many bytes left. -/
def Between (input : List Char) (limit : Nat) (parser : JsonKeyParser) : Prop :=
  ∃ before after line collector, parser = scanned before after line collector ∧
    before ++ after = input ∧ (encode after).length ≤ limit

/-- A step that neither slices inside a character nor runs out of fuel. -/
def Settles (view : α → JsonKeyParser) (input : List Char) (limit : Nat) : Except Stop α → Prop
  | .ok a => Between input limit (view a)
  | .error stop => ∃ error, stop = .failed error

theorem Between.mono {less : Nat} (between : Between input less parser) (le : less ≤ limit) :
    Between input limit parser := by
  obtain ⟨before, after, line, collector, same, text, bound⟩ := between
  exact ⟨before, after, line, collector, same, text, by omega⟩

theorem Settles.mono {view : α → JsonKeyParser} {less : Nat} {x : Except Stop α}
    (settles : Settles view input less x) (le : less ≤ limit) : Settles view input limit x := by
  cases x with
  | error stop => exact settles
  | ok a => exact Between.mono settles le

theorem Settles.bind {view : α → JsonKeyParser} {view' : β → JsonKeyParser} {limit' : Nat}
    {x : Except Stop α} {f : α → Except Stop β} (settles : Settles view input limit x)
    (next : ∀ a, Between input limit (view a) → Settles view' input limit' (f a)) :
    Settles view' input limit' (x >>= f) := by
  cases x with
  | error stop => exact settles
  | ok a => exact next a settles

theorem Between.error (between : Between input limit parser) :
    Settles id input limit (.error parser.error) := by
  obtain ⟨before, after, line, collector, same, -, -⟩ := between
  rw [same]
  exact error_scanned

theorem Between.skipWhitespace (between : Between input limit parser) :
    Between input limit parser.skipWhitespace := by
  obtain ⟨before, after, line, collector, same, text, bound⟩ := between
  rw [same, skipWhitespace_scanned]
  refine ⟨_, _, _, _, rfl, ?_, ?_⟩
  · rw [List.append_assoc, List.takeWhile_append_dropWhile, text]
  · exact (length_encode_le (List.dropWhile_suffix _)).trans bound

/-- A byte of ASCII is a character of its own. -/
theorem Between.advance {d : Char} (between : Between input limit parser) (ascii : d.toNat < 128)
    (found : parser.currentByte = some (UInt8.ofNat d.toNat)) :
    0 < limit ∧ Between input (limit - 1) parser.advance := by
  obtain ⟨before, after, line, collector, same, text, bound⟩ := between
  subst same
  cases after with
  | nil => exact absurd found (by simp)
  | cons c after =>
    obtain rfl := (currentByte_eq_iff ascii).1 found
    rw [encode_ascii ascii, List.length_cons] at bound
    rw [advance_ascii ascii]
    exact ⟨by omega, _, _, _, _, rfl, by simpa using text, by omega⟩

theorem Between.consume {d : Char} {next : JsonKeyParser} (between : Between input limit parser)
    (ascii : d.toNat < 128) (found : parser.consume (UInt8.ofNat d.toNat) = some next) :
    0 < limit ∧ Between input (limit - 1) next := by
  rw [JsonKeyParser.consume] at found
  split at found
  · next current =>
    cases found
    exact between.advance ascii current
  · exact absurd found (by simp)

theorem Between.skipString (between : Between input limit parser) :
    Settles id input limit parser.skipString := by
  obtain ⟨before, after, line, collector, same, text, bound⟩ := between
  subst same
  by_cases quote : after.head? = some '"'
  · obtain ⟨after, rfl⟩ := List.head?_eq_some_iff.1 quote
    rw [skipString_cons]
    cases found : closing false after with
    | none => exact error_scanned
    | some parts =>
      obtain ⟨taken, rest⟩ := parts
      have whole := closing_append found
      subst whole
      refine ⟨_, _, _, _, rfl, by simpa using text, ?_⟩
      refine (length_encode_le ?_).trans bound
      exact (List.suffix_append taken rest).trans (List.suffix_cons _ _)
  · rw [skipString_of_ne quote]
    exact error_scanned

theorem Between.skipScalar (between : Between input limit parser) :
    Settles id input limit parser.skipScalar := by
  obtain ⟨before, after, line, collector, same, text, bound⟩ := between
  subst same
  rw [skipScalar_scanned]
  split
  · exact error_scanned
  · refine ⟨_, _, _, _, rfl, ?_, ?_⟩
    · rw [List.append_assoc, List.takeWhile_append_dropWhile, text]
    · exact (length_encode_le (List.dropWhile_suffix _)).trans bound

theorem Between.insert (between : Between input limit parser) (scope : List String) (name : String)
    (line : Nat) : Settles id input limit (parser.insert scope name line) := by
  obtain ⟨before, after, at_line, collector, same, text, bound⟩ := between
  subst same
  rw [JsonKeyParser.insert]
  cases (scanned before after at_line collector).collector.insert scope name line with
  | error error => exact ⟨error, rfl⟩
  | ok inserted => exact ⟨before, after, at_line, inserted, rfl, text, bound⟩

theorem parseKeyString_cons {before after taken rest : List Char} {line : Nat}
    {collector : KeyCollector} {name : String} (found : closing false after = some (taken, rest))
    (decoded : serde.string ('"' :: taken) = .ok name) :
    (scanned before ('"' :: after) line collector).parseKeyString serde =
      .ok (name, scanned (before ++ '"' :: taken) rest (line + lines taken) collector) := by
  have quote : (scanned before ('"' :: after) line collector).currentByte = some 34 :=
    currentByte_ascii (c := '"') (by decide)
  have text : before ++ '"' :: after = before ++ '"' :: taken ++ rest := by
    rw [closing_append found, List.append_assoc, List.cons_append]
  rw [parseKeyString, if_pos quote, skipString_cons, found]
  simp only [Option.elim_some, ok_bind, scanned_input, scanned_position, text, slice_append, decoded]

theorem Between.parseKeyString (between : Between input limit parser) :
    Settles Prod.snd input limit (parser.parseKeyString serde) := by
  have string := between.skipString
  have error := between.error
  rw [JsonKeyParser.parseKeyString]
  split
  · next quote =>
    obtain ⟨before, after, line, collector, same, text, bound⟩ := between
    subst same
    cases after with
    | nil => exact absurd quote (by simp)
    | cons c after =>
      obtain rfl := (currentByte_eq_iff (d := '"') (by decide)).1 quote
      rw [skipString_cons] at string ⊢
      cases found : closing false after with
      | none => exact error_scanned
      | some parts =>
        obtain ⟨taken, rest⟩ := parts
        have whole : before ++ '"' :: after = before ++ '"' :: taken ++ rest := by
          rw [closing_append found, List.append_assoc, List.cons_append]
        rw [found] at string
        simp only [Option.elim_some, ok_bind, scanned_input, scanned_position, whole, slice_append]
        cases serde.string ('"' :: taken) with
        | ok name => exact string
        | error place => exact ⟨_, rfl⟩
  · exact error

theorem Between.separate {d : Char} {next : JsonKeyParser → Except Stop JsonKeyParser}
    (between : Between input limit parser) (ascii : d.toNat < 128)
    (goes : 0 < limit → ∀ after, Between input (limit - 1) after →
      Settles id input limit (next after)) :
    Settles id input limit (parser.separate (UInt8.ofNat d.toNat) next) := by
  rw [JsonKeyParser.separate]
  cases closed : parser.consume (UInt8.ofNat d.toNat) with
  | some after => exact (between.consume ascii closed).2.mono (Nat.sub_le _ _)
  | none =>
    cases comma : parser.consume 44 with
    | none => exact between.error
    | some after =>
      have consumed := between.consume (d := ',') (by decide) comma
      exact goes consumed.1 after consumed.2

variable {parse : List String → Nat → JsonKeyParser → Except Stop JsonKeyParser} {depth : Nat}

theorem Between.objectLoop
    (values : ∀ scope limit parser, Between input limit parser →
      Settles id input limit (parse scope (depth + 1) parser))
    {scope : List String} {fuel : Nat} (enough : limit < fuel) (between : Between input limit parser) :
    Settles id input limit (objectLoop serde parse scope depth fuel parser) := by
  induction fuel generalizing limit parser with
  | zero => omega
  | succ fuel ih =>
    refine Settles.bind between.skipWhitespace.parseKeyString fun keyed stands => ?_
    cases colon : keyed.2.skipWhitespace.consume 58 with
    | none =>
      simp only [colon]
      exact stands.skipWhitespace.error
    | some parser =>
      simp only [colon]
      have consumed := stands.skipWhitespace.consume (d := ':') (by decide) colon
      have here := consumed.2.mono (Nat.sub_le _ 1)
      refine Settles.bind (here.insert scope keyed.1 _) fun parser stands => ?_
      refine Settles.bind (values _ _ _ stands) fun parser stands => ?_
      refine stands.skipWhitespace.separate (d := '}') (by decide) fun pos parser stands => ?_
      exact (ih (by omega) stands).mono (Nat.sub_le _ _)

theorem Between.arrayLoop
    (values : ∀ scope limit parser, Between input limit parser →
      Settles id input limit (parse scope (depth + 1) parser))
    {scope : List String} {fuel : Nat} (enough : limit < fuel) (between : Between input limit parser) :
    Settles id input limit (arrayLoop parse scope depth fuel parser) := by
  induction fuel generalizing limit parser with
  | zero => omega
  | succ fuel ih =>
    refine Settles.bind (values _ _ _ between) fun parser stands => ?_
    refine stands.skipWhitespace.separate (d := ']') (by decide) fun pos parser stands => ?_
    exact (ih (by omega) stands).mono (Nat.sub_le _ _)

theorem Between.remaining_le (between : Between input limit parser) : parser.remaining ≤ limit := by
  obtain ⟨before, after, line, collector, same, text, bound⟩ := between
  rwa [same, remaining_scanned]

theorem Between.exact (between : Between input limit parser) :
    Between input parser.remaining parser := by
  obtain ⟨before, after, line, collector, same, text, -⟩ := between
  exact ⟨before, after, line, collector, same, text, by rw [same, remaining_scanned]⟩

theorem Between.parseObject
    (values : ∀ scope limit parser, Between input limit parser →
      Settles id input limit (parse scope (depth + 1) parser))
    {scope : List String} (between : Between input limit parser)
    (brace : parser.currentByte = some 123) :
    Settles id input limit (parser.parseObject serde parse scope depth) := by
  have opened := between.exact.advance (d := '{') (by decide) brace
  have start := opened.2.skipWhitespace
  have bound := between.remaining_le
  rw [JsonKeyParser.parseObject]
  cases closed : parser.advance.skipWhitespace.consume 125 with
  | some after =>
    exact (start.consume (d := '}') (by decide) closed).2.mono (by omega)
  | none =>
    exact (start.objectLoop values (by omega)).mono (by omega)

theorem Between.parseArray
    (values : ∀ scope limit parser, Between input limit parser →
      Settles id input limit (parse scope (depth + 1) parser))
    {scope : List String} (between : Between input limit parser)
    (bracket : parser.currentByte = some 91) :
    Settles id input limit (parser.parseArray parse scope depth) := by
  have opened := between.exact.advance (d := '[') (by decide) bracket
  have start := opened.2.skipWhitespace
  have bound := between.remaining_le
  rw [JsonKeyParser.parseArray]
  cases closed : parser.advance.skipWhitespace.consume 93 with
  | some after =>
    exact (start.consume (d := ']') (by decide) closed).2.mono (by omega)
  | none =>
    exact (start.arrayLoop values (by omega)).mono (by omega)

/-- The check of the depth ends the recursion before its fuel does. -/
theorem Between.parseValue {fuel : Nat} (enough : maxDepth + 2 ≤ fuel + depth)
    (bounded : depth ≤ maxDepth + 1) {scope : List String} (between : Between input limit parser) :
    Settles id input limit (parseValue serde fuel scope depth parser) := by
  induction fuel generalizing depth scope limit parser with
  | zero => omega
  | succ fuel ih =>
    have start := between.skipWhitespace
    rw [JsonKeyParser.parseValue]
    cases checked : checkDepth depth parser.skipWhitespace.line with
    | error error =>
      exact ⟨error, rfl⟩
    | ok u =>
      have shallow : depth ≤ maxDepth := by
        rw [checkDepth, ensure_eq_ok, decide_eq_true_eq] at checked
        exact checked
      have values : ∀ scope limit parser, Between input limit parser →
          Settles id input limit (JsonKeyParser.parseValue serde fuel scope (depth + 1) parser) :=
        fun scope limit parser between => ih (by omega) (by omega) between
      cases current : parser.skipWhitespace.currentByte with
      | none => exact start.error
      | some byte =>
        by_cases brace : byte = 123
        · simp only [if_pos brace]
          exact start.parseObject values (brace ▸ current)
        · by_cases bracket : byte = 91
          · simp only [if_neg brace, if_pos bracket]
            exact start.parseArray values (bracket ▸ current)
          · simp only [if_neg brace, if_neg bracket]
            split
            · exact start.skipString
            · exact start.skipScalar

end Safety

end JsonKeyParser

variable {serde : Serde} {input : List Char} {collector : KeyCollector}

/-- The scan of any text ends in keys or in an error. -/
theorem parseJson_ends :
    (∃ collected, parseJson serde input collector = .ok collected) ∨
      ∃ error, parseJson serde input collector = .error (.failed error) := by
  have start : JsonKeyParser.Between input (encode input).length ⟨input, 0, 1, collector⟩ :=
    ⟨[], input, 1, collector, rfl, rfl, Nat.le_refl _⟩
  have ends : JsonKeyParser.Settles id input (encode input).length
      (JsonKeyParser.parseValue serde (maxDepth + 2) [] 0 ⟨input, 0, 1, collector⟩) :=
    start.parseValue (by omega) (by omega)
  rw [parseJson]
  cases parsed : JsonKeyParser.parseValue serde (maxDepth + 2) [] 0 ⟨input, 0, 1, collector⟩ with
  | error stop =>
    rw [parsed] at ends
    obtain ⟨error, rfl⟩ := ends
    exact .inr ⟨error, rfl⟩
  | ok parser =>
    rw [parsed] at ends
    rw [ok_bind]
    by_cases whole : parser.skipWhitespace.position ≠ (encode input).length
    · obtain ⟨error, failed⟩ := (JsonKeyParser.Between.skipWhitespace ends).error
      exact .inr ⟨error, (if_pos whole).trans (congrArg _ failed)⟩
    · simp only [if_neg whole]
      cases serde.ignored input with
      | error place => exact .inr ⟨_, rfl⟩
      | ok u => exact .inl ⟨_, rfl⟩

theorem ignored_of_parseJson {collected : KeyCollector}
    (parsed : parseJson serde input collector = .ok collected) : serde.ignored input = .ok () := by
  rw [parseJson, bind_eq_ok] at parsed
  obtain ⟨parser, -, done⟩ := parsed
  by_cases whole : parser.skipWhitespace.position ≠ (encode input).length
  · simp [whole] at done
  · simp only [if_neg whole] at done
    cases accepted : serde.ignored input with
    | error place => simp [accepted] at done
    | ok u => rfl

end CodeSystemGraph.SafeConfig
