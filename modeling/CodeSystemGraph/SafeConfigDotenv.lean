import CodeSystemGraph.SafeConfigJson

/-!
The keys of dotenv texts: the assignments of their lines, if there is no other line and the
budgets hold. What stands after the first `=` of a line has no part in the result.
-/

namespace CodeSystemGraph.SafeConfig

open JsonText Ordered Text

def concealLine (line : List Char) : List Char :=
  match splitOnce '=' line with
  | (_, none) => line
  | (key, some _) => key ++ ['=']

theorem concealLine_of_notMem {line : List Char} (free : '=' ∉ line) : concealLine line = line := by
  rw [concealLine, splitOnce_of_not_mem free]

theorem concealLine_append {key : List Char} (free : '=' ∉ key) (value : List Char) :
    concealLine (key ++ '=' :: value) = key ++ ['='] := by
  rw [concealLine, splitOnce_append free]

theorem dropWhile_append_cons {α : Type} {p : α → Bool} {a : α} (stop : p a = false)
    (text rest : List α) : (text ++ a :: rest).dropWhile p = text.dropWhile p ++ a :: rest := by
  induction text with
  | nil => simp [stop]
  | cons b text ih =>
    rw [List.cons_append, List.dropWhile_cons, List.dropWhile_cons, ih]
    split <;> rfl

theorem trim_assignment (key value : List Char) :
    ∃ rest, trim (key ++ '=' :: value) = key.dropWhile isWhitespace ++ '=' :: rest := by
  have stop : isWhitespace '=' = false := by decide
  refine ⟨(value.reverse.dropWhile isWhitespace).reverse, ?_⟩
  have ends : (key.dropWhile isWhitespace ++ '=' :: value).reverse =
      value.reverse ++ '=' :: (key.dropWhile isWhitespace).reverse := by simp
  rw [trim, dropWhile_append_cons stop, ends, dropWhile_append_cons stop]
  simp

theorem stripPrefix_append {head first rest : List Char} (free : '=' ∉ head) :
    stripPrefix head (first ++ '=' :: rest) =
      (stripPrefix head first).map fun after => after ++ '=' :: rest := by
  cases stripped : stripPrefix head first with
  | some after =>
    rw [stripPrefix_eq_some] at stripped
    rw [stripped, Option.map_some, stripPrefix_eq_some, List.append_assoc]
  | none =>
    rw [Option.map_none, Option.eq_none_iff_forall_ne_some]
    intro after found
    have begins : head <+: first ++ '=' :: rest := ⟨after, (stripPrefix_eq_some.1 found).symm⟩
    obtain ⟨more, rfl⟩ := prefix_of_free free begins
    rw [stripPrefix_eq_some.2 rfl] at stripped
    cases stripped

def assignedKey (written : List Char) : List Char :=
  let text := written.dropWhile isWhitespace
  trim (((stripPrefix "export ".toList text).map (·.dropWhile isWhitespace)).getD text)

theorem parseDotenv_assignment {key : List Char} (free : '=' ∉ key) (value : List Char)
    (line : Nat) (rest : List (List Char)) (collector : KeyCollector) :
    parseDotenv line ((key ++ '=' :: value) :: rest) collector =
      if (key.dropWhile isWhitespace).head? = some '#' then parseDotenv (line + 1) rest collector
      else if isDotenvKey (assignedKey key) then do
        let collector ← collector.insert [] (String.ofList (assignedKey key)) line
        parseDotenv (line + 1) rest collector
      else .error (malformed .dotenv line 1) := by
  obtain ⟨after, trimmed⟩ := trim_assignment key value
  have clean : '=' ∉ key.dropWhile isWhitespace :=
    fun mem => free ((List.dropWhile_suffix _).subset mem)
  have first : (trim (key ++ '=' :: value)).head? = some '#' ↔
      (key.dropWhile isWhitespace).head? = some '#' := by
    rw [trimmed]
    cases key.dropWhile isWhitespace <;> simp
  have nonempty : trim (key ++ '=' :: value) ≠ [] := by simp [trimmed]
  rw [parseDotenv]
  simp only [nonempty, decide_false, Bool.false_or, decide_eq_true_eq, first]
  by_cases comment : (key.dropWhile isWhitespace).head? = some '#'
  · rw [if_pos comment, if_pos comment]
  · rw [if_neg comment, if_neg comment, trimmed, stripPrefix_append (by decide)]
    cases stripped : stripPrefix "export ".toList (key.dropWhile isWhitespace) with
    | some name =>
      have inner : '=' ∉ name.dropWhile isWhitespace := by
        intro mem
        have listed := (List.dropWhile_suffix _).subset mem
        rw [stripPrefix_eq_some] at stripped
        exact clean (stripped ▸ List.mem_append_right _ listed)
      have stop : isWhitespace '=' = false := by decide
      simp only [Option.map_some, dropWhile_append_cons stop, splitOnce_append inner, assignedKey,
        stripped, Option.getD_some]
    | none =>
      simp only [Option.map_none, splitOnce_append clean, assignedKey, stripped, Option.getD_none]

def lineKey (line : List Char) : Option (Option String) :=
  if trim line = [] ∨ (trim line).head? = some '#' then some none
  else
    let (key, value) := splitOnce '=' line
    if value.isSome && isDotenvKey (assignedKey key) then
      some (some (String.ofList (assignedKey key)))
    else none

/-- The declarations of lines from the given number on, unless one of them declares nothing. -/
def dotenvDeclarations : Nat → List (List Char) → Option (List Declaration)
  | _, [] => some []
  | line, source :: rest =>
    (lineKey source).bind fun key =>
      (dotenvDeclarations (line + 1) rest).map fun declared =>
        (key.map fun name => (⟨[], name, line⟩ : Declaration)).toList ++ declared

theorem lineKey_assignment {key : List Char} (free : '=' ∉ key) (value : List Char) :
    lineKey (key ++ '=' :: value) =
      if (key.dropWhile isWhitespace).head? = some '#' then some none
      else if isDotenvKey (assignedKey key) then some (some (String.ofList (assignedKey key)))
      else none := by
  obtain ⟨after, trimmed⟩ := trim_assignment key value
  have first : (trim (key ++ '=' :: value)).head? = some '#' ↔
      (key.dropWhile isWhitespace).head? = some '#' := by
    rw [trimmed]
    cases key.dropWhile isWhitespace <;> simp
  have nonempty : trim (key ++ '=' :: value) ≠ [] := by simp [trimmed]
  simp only [lineKey, nonempty, first, false_or, splitOnce_append free, Option.isSome_some,
    Bool.true_and]

theorem lineKey_concealLine (line : List Char) : lineKey (concealLine line) = lineKey line := by
  cases found : splitOnce '=' line with
  | mk key value =>
    cases value with
    | none => rw [concealLine_of_notMem (splitOnce_eq_none found)]
    | some value =>
      obtain ⟨rfl, free⟩ := splitOnce_eq_some found
      rw [concealLine_append free, lineKey_assignment free, lineKey_assignment free]

theorem parseDotenv_of_notMem {source : List Char} (free : '=' ∉ source) (line : Nat)
    (rest : List (List Char)) (collector : KeyCollector) :
    parseDotenv line (source :: rest) collector =
      if trim source = [] ∨ (trim source).head? = some '#' then parseDotenv (line + 1) rest collector
      else .error (malformed .dotenv line 1) := by
  have clean : '=' ∉ trim source := by
    rw [trim, List.mem_reverse]
    intro mem
    have listed := (List.dropWhile_suffix _).subset mem
    exact free ((List.dropWhile_suffix _).subset (List.mem_reverse.1 listed))
  rw [parseDotenv]
  simp only [Bool.or_eq_true, decide_eq_true_eq]
  by_cases empty : trim source = [] ∨ (trim source).head? = some '#'
  · rw [if_pos empty, if_pos empty]
  · rw [if_neg empty, if_neg empty]
    cases stripped : stripPrefix "export ".toList (trim source) with
    | some name =>
      have inner : '=' ∉ name.dropWhile isWhitespace := by
        intro mem
        have listed := (List.dropWhile_suffix _).subset mem
        rw [stripPrefix_eq_some] at stripped
        exact clean (stripped ▸ List.mem_append_right _ listed)
      simp only [splitOnce_of_not_mem inner]
    | none => simp only [splitOnce_of_not_mem clean]

theorem parseDotenv_cons (line : Nat) (source : List Char) (rest : List (List Char))
    (collector : KeyCollector) :
    parseDotenv line (source :: rest) collector =
      (lineKey source).elim (.error (malformed .dotenv line 1)) fun key =>
        key.elim (.ok collector) (fun name => collector.insert [] name line) >>=
          parseDotenv (line + 1) rest := by
  cases found : splitOnce '=' source with
  | mk key value =>
    cases value with
    | none =>
      rw [parseDotenv_of_notMem (splitOnce_eq_none found), lineKey, found]
      split <;> rfl
    | some value =>
      obtain ⟨rfl, free⟩ := splitOnce_eq_some found
      rw [parseDotenv_assignment free, lineKey_assignment free]
      split
      · rfl
      · split <;> rfl

theorem parseDotenv_eq_ok {line : Nat} {source : List (List Char)} {collector result : KeyCollector} :
    parseDotenv line source collector = .ok result ↔
      ∃ declared, dotenvDeclarations line source = some declared ∧
        insertAll collector declared = .ok result := by
  induction source generalizing line collector with
  | nil => simp [parseDotenv, dotenvDeclarations, insertAll_nil]
  | cons first rest ih =>
    rw [parseDotenv_cons, dotenvDeclarations]
    cases lineKey first with
    | none => simp
    | some key =>
      cases key with
      | none =>
        rw [Option.elim_some, Option.elim_none, ok_bind, ih]
        simp
      | some name =>
        rw [Option.elim_some, Option.elim_some, bind_eq_ok]
        simp only [ih, Option.bind_some, Option.map_eq_some_iff]
        constructor
        · rintro ⟨next, inserted, declared, lines, done⟩
          exact ⟨_, ⟨declared, lines, rfl⟩, insertAll_cons.2 ⟨next, inserted, done⟩⟩
        · rintro ⟨_, ⟨declared, lines, rfl⟩, done⟩
          obtain ⟨next, inserted, done⟩ := insertAll_cons.1 done
          exact ⟨next, inserted, declared, lines, done⟩

theorem parseDotenv_congr {source other : List (List Char)}
    (same : source.map concealLine = other.map concealLine) (line : Nat) (collector : KeyCollector) :
    parseDotenv line source collector = parseDotenv line other collector := by
  induction source generalizing other line collector with
  | nil =>
    cases other with
    | nil => rfl
    | cons first other => cases same
  | cons first source ih =>
    cases other with
    | nil => cases same
    | cons first' other =>
      obtain ⟨head, tail⟩ := List.cons.inj same
      have others : ∀ line, parseDotenv line source = parseDotenv line other :=
        fun line => funext fun collector => ih tail line collector
      rw [parseDotenv_cons, parseDotenv_cons, ← lineKey_concealLine first,
        ← lineKey_concealLine first', head, others]

section Extraction

variable {serde : Serde} {readers : Readers} {sourcePath : String}

theorem lift_eq_ok {α : Type} {x : Except ConfigExtractionError α} {a : α} :
    lift x = .ok a ↔ x = .ok a := by
  cases x <;> simp [lift]

theorem extractSafeConfig_of_dotenv {input : String} (dotenv : artifactKind sourcePath = .ok .dotenv)
    (within : input.utf8ByteSize ≤ maxInputBytes) :
    extractSafeConfig serde readers sourcePath input =
      (lift (parseDotenv 1 (textLines input.toList) {})).map fun collector =>
        ⟨sourcePath, .dotenv, collector.intoKeys, [], false⟩ := by
  rw [extractSafeConfig, dotenv]
  simp only [lift, ok_bind, if_neg (Nat.not_lt.2 within)]
  cases parseDotenv 1 (textLines input.toList) {} with
  | error error => rfl
  | ok collector =>
    simp only [Except.map, ok_bind, List.mergeSort_nil]
    rfl

/-- Extraction from dotenv is exact: it succeeds when every line is blank, a comment or an
assignment and the budgets hold, and only then; and it gives the assigned keys, each once with
its least line. -/
theorem extractSafeConfig_dotenv {input : String} (dotenv : artifactKind sourcePath = .ok .dotenv)
    (within : input.utf8ByteSize ≤ maxInputBytes) :
    ((∃ config, extractSafeConfig serde readers sourcePath input = .ok config) ↔
      ∃ declared, dotenvDeclarations 1 (textLines input.toList) = some declared ∧
        (∀ key ∈ declared, key.name.utf8ByteSize ≤ maxKeyBytes) ∧
        (keyPaths declared).toFinset.card ≤ maxKeys) ∧
    ∀ config declared, extractSafeConfig serde readers sourcePath input = .ok config →
      dotenvDeclarations 1 (textLines input.toList) = some declared →
        (config.keys.map fun key => (key.scope, key.name)).Nodup ∧
        ∀ key, key ∈ config.keys ↔ Summary declared key := by
  have done : ∀ config, extractSafeConfig serde readers sourcePath input = .ok config ↔
      ∃ declared, dotenvDeclarations 1 (textLines input.toList) = some declared ∧
        ∃ collector, insertAll {} declared = .ok collector ∧
          config = ⟨sourcePath, .dotenv, collector.intoKeys, [], false⟩ := by
    intro config
    rw [extractSafeConfig_of_dotenv dotenv within, map_eq_ok]
    simp only [lift_eq_ok, parseDotenv_eq_ok]
    constructor
    · rintro ⟨collector, ⟨declared, lines, inserted⟩, same⟩
      exact ⟨declared, lines, collector, inserted, same.symm⟩
    · rintro ⟨declared, lines, collector, inserted, same⟩
      exact ⟨collector, ⟨declared, lines, inserted⟩, same.symm⟩
  constructor
  · constructor
    · rintro ⟨config, ok⟩
      obtain ⟨declared, lines, collector, inserted, -⟩ := (done config).1 ok
      exact ⟨declared, lines, insertAll_isOk_iff.1 ⟨collector, inserted⟩⟩
    · rintro ⟨declared, lines, budgets⟩
      obtain ⟨collector, inserted⟩ := insertAll_isOk_iff.2 budgets
      exact ⟨_, (done _).2 ⟨declared, lines, collector, inserted, rfl⟩⟩
  · intro config declared ok lines
    obtain ⟨declared', lines', collector, inserted, rfl⟩ := (done config).1 ok
    obtain rfl : declared = declared' := Option.some.inj (lines.symm.trans lines')
    obtain ⟨short, fits⟩ := insertAll_isOk_iff.1 ⟨collector, inserted⟩
    obtain ⟨collector', again, stands⟩ := insertAll_collected collected_nil short fits
    obtain rfl : collector = collector' := Except.ok.inj (inserted.symm.trans again)
    exact ⟨stands.nodup, stands.mem_intoKeys⟩

theorem extractSafeConfig_dotenv_sample :
    ∃ config, extractSafeConfig (sampleSerde []) sampleReaders ".env"
        "# local\nexport API_KEY = sk\n\nDEBUG=1\nAPI_KEY=" = .ok config ∧
      (config.keys.map fun key => (key.scope, key.name)).Nodup ∧
      ∀ key, key ∈ config.keys ↔
        Summary [⟨[], "API_KEY", 2⟩, ⟨[], "DEBUG", 4⟩, ⟨[], "API_KEY", 5⟩] key := by
  have extracted := @extractSafeConfig_dotenv (sampleSerde []) sampleReaders ".env"
    "# local\nexport API_KEY = sk\n\nDEBUG=1\nAPI_KEY=" (by decide) (by decide)
  obtain ⟨config, ok⟩ := extracted.1.2
    ⟨[⟨[], "API_KEY", 2⟩, ⟨[], "DEBUG", 4⟩, ⟨[], "API_KEY", 5⟩], by decide, by decide, by decide⟩
  exact ⟨config, ok, extracted.2 config _ ok (by decide)⟩

/-- Values never surface: dotenv texts that agree up to the first `=` of each line have one result,
keys or error. -/
theorem extractSafeConfig_dotenv_conceals {input other : String} (dotenv : artifactKind sourcePath = .ok .dotenv)
    (within : input.utf8ByteSize ≤ maxInputBytes) (within' : other.utf8ByteSize ≤ maxInputBytes)
    (same : (textLines input.toList).map concealLine = (textLines other.toList).map concealLine) :
    extractSafeConfig serde readers sourcePath input =
      extractSafeConfig serde readers sourcePath other := by
  rw [extractSafeConfig_of_dotenv dotenv within, extractSafeConfig_of_dotenv dotenv within',
    parseDotenv_congr same]

theorem extractSafeConfig_dotenv_conceals_secret :
    extractSafeConfig (sampleSerde []) sampleReaders ".env" "export API_KEY = sk-1=2\n#x=1\nDEBUG=1" =
      extractSafeConfig (sampleSerde []) sampleReaders ".env"
        "export API_KEY =\n#x=\nDEBUG=\"API_KEY=3\"" :=
  extractSafeConfig_dotenv_conceals (by decide) (by decide) (by decide) (by decide)

end Extraction

end CodeSystemGraph.SafeConfig
