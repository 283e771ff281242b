import CodeSystemGraph.BraceLexer
import Mathlib.Data.List.Basic

/-! The line numbers of the tokens. A scanner either counts the newlines it steps over or
leaves some of them out; what it leaves out shifts every later token. -/

namespace CodeSystemGraph.BraceLexer

variable {characters : List Char}

section Positions

variable (characters) in
def newlinesBefore (position : Nat) : Nat := (characters.take position).count '\n'

variable (characters) in
def textOf (start stop : Nat) : List Char := (characters.take stop).drop start

theorem newlinesBefore_succ {index : Nat} {c : Char} (found : characters[index]? = some c) :
    newlinesBefore characters (index + 1) =
      newlinesBefore characters index + if c = '\n' then 1 else 0 := by
  rw [newlinesBefore, newlinesBefore, List.take_add_one, found, List.count_append]
  by_cases newline : c = '\n' <;> simp [newline]

theorem newlinesBefore_past {index : Nat} (past : characters.length ≤ index) :
    newlinesBefore characters index = newlinesBefore characters characters.length := by
  rw [newlinesBefore, newlinesBefore, List.take_of_length_le past, List.take_length]

theorem newlinesBefore_min (index : Nat) :
    newlinesBefore characters (min index characters.length) = newlinesBefore characters index := by
  by_cases inside : index ≤ characters.length
  · rw [Nat.min_eq_left inside]
  · rw [Nat.min_eq_right (Nat.le_of_not_le inside), newlinesBefore_past (Nat.le_of_not_le inside)]

theorem newlinesBefore_skip {index : Nat} (other : characters[index]? ≠ some '\n') :
    newlinesBefore characters (index + 1) = newlinesBefore characters index := by
  cases found : characters[index]? with
  | none =>
    have past := List.getElem?_eq_none_iff.mp found
    rw [newlinesBefore_past past, newlinesBefore_past (Nat.le_succ_of_le past)]
  | some c =>
    have different : c ≠ '\n' := fun same => other (same ▸ found)
    rw [newlinesBefore_succ found, if_neg different, Nat.add_zero]

theorem newlinesBefore_step2 {index : Nat} (found : characters[index]? = some '\\') :
    newlinesBefore characters (index + 2) = newlinesBefore characters index +
      if characters[index + 1]? = some '\n' then 1 else 0 := by
  have first : newlinesBefore characters (index + 1) = newlinesBefore characters index :=
    newlinesBefore_skip (by rw [found]; decide)
  split_ifs with newline
  · rw [newlinesBefore_succ newline, if_pos rfl, first]
  · rw [newlinesBefore_skip newline, first, Nat.add_zero]

theorem newlinesBefore_textOf {start stop : Nat} (le : start ≤ stop) :
    newlinesBefore characters stop =
      newlinesBefore characters start + (textOf characters start stop).count '\n' := by
  have split : characters.take stop = characters.take start ++ textOf characters start stop := by
    have whole := List.take_append_drop start (characters.take stop)
    rw [List.take_take, Nat.min_eq_left le] at whole
    exact whole.symm
  rw [newlinesBefore, split, List.count_append]
  rfl

theorem textOf_cons {start stop : Nat} {c : Char} (found : characters[start]? = some c)
    (lt : start < stop) : textOf characters start stop = c :: textOf characters (start + 1) stop := by
  have taken : (characters.take stop)[start]? = some c := by
    rw [List.getElem?_take_of_lt lt, found]
  obtain ⟨inside, same⟩ := List.getElem?_eq_some_iff.mp taken
  rw [textOf, textOf, List.drop_eq_getElem_cons inside, same]

theorem textOf_nil {start stop : Nat} (le : stop ≤ start ∨ characters.length ≤ start) :
    textOf characters start stop = [] := by
  rw [textOf, List.drop_eq_nil_iff, List.length_take]
  omega

end Positions

section Escapes

/-- The newlines right after a backslash that is not itself escaped. -/
def escapedNewlines : List Char → Nat
  | [] => 0
  | [_] => 0
  | c :: d :: rest =>
    if c = '\\' then (if d = '\n' then 1 else 0) + escapedNewlines rest
    else escapedNewlines (d :: rest)

/-- A walk from one position to another that takes escapes in one step, with the
newlines among the escaped characters. -/
inductive Escaped (characters : List Char) : Nat → Nat → Nat → Prop
  | here {index : Nat} : Escaped characters index index 0
  | plain {index stop missed : Nat} {c : Char} (found : characters[index]? = some c) (other : c ≠ '\\')
      (rest : Escaped characters (index + 1) stop missed) : Escaped characters index stop missed
  | escape {index stop missed : Nat} (found : characters[index]? = some '\\')
      (rest : Escaped characters (index + 2) stop missed) :
      Escaped characters index stop ((if characters[index + 1]? = some '\n' then 1 else 0) + missed)

theorem Escaped.le {index stop missed : Nat} (walk : Escaped characters index stop missed) :
    index ≤ stop := by
  induction walk with
  | here => exact le_rfl
  | plain _ _ _ ih => omega
  | escape _ _ ih => omega

theorem Escaped.trans {index middle stop missed missed' : Nat}
    (first : Escaped characters index middle missed) (second : Escaped characters middle stop missed') :
    Escaped characters index stop (missed + missed') := by
  induction first with
  | here => rwa [Nat.zero_add]
  | plain found other _ ih => exact .plain found other (ih second)
  | escape found _ ih =>
    rw [Nat.add_assoc]
    exact .escape found (ih second)

theorem escapedNewlines_plain {c : Char} (other : c ≠ '\\') (rest : List Char) :
    escapedNewlines (c :: rest) = escapedNewlines rest := by
  cases rest with
  | nil => rfl
  | cons d rest => rw [escapedNewlines, if_neg other]

theorem Escaped.text {index stop missed : Nat} (walk : Escaped characters index stop missed) :
    escapedNewlines (textOf characters index stop) = missed := by
  induction walk with
  | here => rw [textOf_nil (.inl le_rfl), escapedNewlines]
  | plain found other rest ih => rw [textOf_cons found rest.le, escapedNewlines_plain other, ih]
  | @escape index stop missed found rest ih =>
    have le := rest.le
    rw [textOf_cons found (by omega)]
    cases next : characters[index + 1]? with
    | none =>
      have past := List.getElem?_eq_none_iff.mp next
      rw [textOf_nil (.inr past)]
      rw [textOf_nil (.inr (Nat.le_succ_of_le past))] at ih
      rw [← ih]
      rfl
    | some c =>
      simp [textOf_cons next (show index + 1 < stop by omega), escapedNewlines, ih]

theorem escapedNewlines_le (text : List Char) : escapedNewlines text ≤ text.count '\n' := by
  induction text using escapedNewlines.induct with
  | case1 => exact le_rfl
  | case2 c => exact Nat.zero_le _
  | case3 d rest ih =>
    rw [escapedNewlines, if_pos rfl, List.count_cons, List.count_cons]
    by_cases newline : d = '\n' <;> simp [newline] <;> omega
  | case4 c d rest other ih =>
    rw [escapedNewlines, if_neg other]
    exact ih.trans List.count_le_count_cons

end Escapes

section Scanners

variable {fuel : Nat}

theorem scanWhile_spec (test : Char → Bool) (index : Nat) (newline : test '\n' = false) (positive : 0 < fuel)
    (enough : characters.length < fuel + index) :
    ∃ stop, scanWhile characters test fuel index = some stop ∧ index ≤ stop ∧
      (index ≤ characters.length → stop ≤ characters.length) ∧
      newlinesBefore characters stop = newlinesBefore characters index ∧
      ∀ c, characters[stop]? = some c → test c = false := by
  induction fuel generalizing index with
  | zero => omega
  | succ fuel ih =>
    rw [scanWhile]
    split_ifs with inside
    · have found := List.getElem?_eq_getElem inside
      rw [found]
      simp only [Option.bind_eq_bind, Option.bind_some]
      split_ifs with passes
      · obtain ⟨stop, scanned, le, bound, same, closes⟩ :=
          ih (index + 1) (by omega) (by omega)
        refine ⟨stop, scanned, by omega, fun _ => bound inside, ?_, closes⟩
        rw [same, newlinesBefore_succ found, if_neg, Nat.add_zero]
        intro same
        rw [same, newline] at passes
        cases passes
      · refine ⟨index, rfl, le_rfl, id, rfl, fun c here => ?_⟩
        rw [found, Option.some.injEq] at here
        rw [← here]
        exact Bool.eq_false_iff.mpr passes
    · refine ⟨index, rfl, le_rfl, id, rfl, fun c here => ?_⟩
      rw [List.getElem?_eq_none (Nat.le_of_not_lt inside)] at here
      cases here

theorem scanLines_spec (closes : Char → Option Char → Bool) (index : Nat) (line : UInt32) (positive : 0 < fuel)
    (enough : characters.length < fuel + index) :
    ∃ stop counted, scanLines characters closes fuel index line = some (stop, line + UInt32.ofNat counted) ∧
      index ≤ stop ∧ (index ≤ characters.length → stop ≤ characters.length) ∧
      newlinesBefore characters stop = newlinesBefore characters index + counted ∧
      ∀ c, characters[stop]? = some c → closes c characters[stop + 1]? = true := by
  induction fuel generalizing index line with
  | zero => omega
  | succ fuel ih =>
    rw [scanLines]
    split_ifs with inside
    · have found := List.getElem?_eq_getElem inside
      rw [found]
      simp only [Option.bind_eq_bind, Option.bind_some]
      by_cases closed : closes characters[index] characters[index + 1]? = true
      · rw [if_pos closed]
        refine ⟨index, 0, by simp, le_rfl, id, rfl, fun c here => ?_⟩
        rw [found, Option.some.injEq] at here
        rwa [← here]
      · rw [if_neg closed]
        obtain ⟨stop, counted, scanned, le, bound, same, ends⟩ := ih (index + 1)
          (if characters[index] = '\n' then line + 1 else line) (by omega) (by omega)
        refine ⟨stop, (if characters[index] = '\n' then 1 else 0) + counted, ?_, by omega,
          fun _ => bound inside, ?_, ends⟩
        · rw [scanned]
          split_ifs
          · rw [UInt32.ofNat_add, ← UInt32.add_assoc]
            rfl
          · rw [Nat.zero_add]
        · rw [same, newlinesBefore_succ found, Nat.add_assoc]
    · refine ⟨index, 0, by simp, le_rfl, id, rfl, fun c here => ?_⟩
      rw [List.getElem?_eq_none (Nat.le_of_not_lt inside)] at here
      cases here

theorem skipRegex_spec (index : Nat) (inClass : Bool) (positive : 0 < fuel)
    (enough : characters.length < fuel + index) :
    ∃ stop, skipRegex characters fuel index inClass = some stop ∧ index ≤ stop := by
  induction fuel generalizing index inClass with
  | zero => omega
  | succ fuel ih =>
    rw [skipRegex]
    split_ifs with inside
    · rw [List.getElem?_eq_getElem inside]
      simp only [Option.bind_eq_bind, Option.bind_some]
      split_ifs
      · exact ⟨index, rfl, le_rfl⟩
      · obtain ⟨stop, scanned, le⟩ := ih (index + 2) _ (by omega) (by omega)
        exact ⟨stop, scanned, by omega⟩
      · obtain ⟨stop, scanned, le⟩ := ih (index + 1) _ (by omega) (by omega)
        exact ⟨stop, scanned, by omega⟩
      · obtain ⟨stop, scanned, le⟩ := ih (index + 1) _ (by omega) (by omega)
        exact ⟨stop, scanned, by omega⟩
      · obtain ⟨stop, scanned, le, -⟩ := scanWhile_spec isAsciiAlphabetic (index + 1)
          (by decide) (show 0 < fuel by omega)
          (show characters.length < fuel + (index + 1) by omega)
        exact ⟨stop, scanned, by omega⟩
      · obtain ⟨stop, scanned, le⟩ := ih (index + 1) _ (by omega) (by omega)
        exact ⟨stop, scanned, by omega⟩
    · exact ⟨index, rfl, le_rfl⟩

theorem quoted_spec (index : Nat) (quote : Char) (value : List Char) (positive : 0 < fuel)
    (enough : characters.length < fuel + index) :
    ∃ stop result missed, quoted characters quote fuel index value = some (stop, result) ∧
      Escaped characters index stop missed ∧
      newlinesBefore characters stop = newlinesBefore characters index + missed := by
  induction fuel generalizing index value with
  | zero => omega
  | succ fuel ih =>
    rw [quoted]
    split_ifs with inside
    · have found := List.getElem?_eq_getElem inside
      rw [found]
      simp only [Option.bind_eq_bind, Option.bind_some]
      split_ifs with newline escape closes
      · exact ⟨index, none, 0, rfl, .here, rfl⟩
      · obtain ⟨stop, result, missed, scanned, walk, same⟩ := ih (index + 2) _ (by omega) (by omega)
        rw [escape] at found
        refine ⟨stop, result, _, scanned, .escape found walk, ?_⟩
        rw [same, newlinesBefore_step2 found]
        omega
      · refine ⟨index + 1, some value, 0, rfl, .plain found escape .here, ?_⟩
        rw [newlinesBefore_succ found, if_neg newline]
      · obtain ⟨stop, result, missed, scanned, walk, same⟩ := ih (index + 1) _ (by omega) (by omega)
        refine ⟨stop, result, missed, scanned, .plain found escape walk, ?_⟩
        rw [same, newlinesBefore_succ found, if_neg newline, Nat.add_zero]
    · exact ⟨index, none, 0, rfl, .here, rfl⟩

theorem slice_eq {start stop : Nat} (le : start ≤ stop) (bound : stop ≤ characters.length) :
    slice characters start stop = some (textOf characters start stop) := if_pos ⟨le, bound⟩

theorem template_spec (start index : Nat) (depth line : UInt32) (begins : start ≤ index)
    (inside : start ≤ characters.length) (positive : 0 < fuel)
    (enough : characters.length < fuel + index) :
    ∃ stop body counted missed,
      template characters fuel start index depth line = some (stop, body, line + UInt32.ofNat counted) ∧
        Escaped characters index stop missed ∧
        newlinesBefore characters stop = newlinesBefore characters index + (counted + missed) := by
  induction fuel generalizing start index depth line with
  | zero => omega
  | succ fuel ih =>
    rw [template]
    by_cases bound : index < characters.length
    · rw [if_pos bound]
      have found := List.getElem?_eq_getElem bound
      rw [found]
      simp only [Option.bind_eq_bind, Option.bind_some]
      generalize characters[index] = c at found
      have onward : ∀ depth, c ≠ '\n' → c ≠ '\\' → ∃ stop body counted missed,
          template characters fuel start (index + 1) depth line =
              some (stop, body, line + UInt32.ofNat counted) ∧
            Escaped characters index stop missed ∧
            newlinesBefore characters stop = newlinesBefore characters index + (counted + missed) := by
        intro depth newline escape
        obtain ⟨stop, body, counted, missed, scanned, walk, same⟩ :=
          ih start (index + 1) depth line (by omega) inside (by omega) (by omega)
        refine ⟨stop, body, counted, missed, scanned, .plain found escape walk, ?_⟩
        rw [same, newlinesBefore_succ found, if_neg newline, Nat.add_zero]
      split_ifs with newline escape opens deeper closes ends nests quotes
      · obtain ⟨stop, body, counted, missed, scanned, walk, same⟩ :=
          ih start (index + 1) depth (line + 1) (by omega) inside (by omega) (by omega)
        refine ⟨stop, body, 1 + counted, missed, ?_, .plain found (by rw [newline]; decide) walk, ?_⟩
        · rw [scanned, UInt32.ofNat_add, ← UInt32.add_assoc]
          rfl
        · rw [same, newlinesBefore_succ found, if_pos newline]
          omega
      · obtain ⟨stop, body, counted, missed, scanned, walk, same⟩ :=
          ih start (index + 2) depth line (by omega) inside (by omega) (by omega)
        rw [escape] at found
        refine ⟨stop, body, counted, _, scanned, .escape found walk, ?_⟩
        rw [same, newlinesBefore_step2 found]
        omega
      · obtain ⟨stop, body, counted, missed, scanned, walk, same⟩ :=
          ih start (index + 2) 1 line (by omega) inside (by omega) (by omega)
        simp only [Bool.and_eq_true, decide_eq_true_eq] at opens
        have brace : characters[index + 1]? = some '\x7b' := opens.2
        refine ⟨stop, body, counted, missed, scanned,
          .plain found escape (.plain brace (by decide) walk), ?_⟩
        rw [same, newlinesBefore_succ brace, newlinesBefore_succ found, if_neg newline,
          if_neg (by decide)]
        rfl
      · exact onward _ newline escape
      · exact onward _ newline escape
      · rw [slice_eq begins (Nat.le_of_lt bound)]
        refine ⟨index + 1, _, 0, 0, by simp; rfl, .plain found escape .here, ?_⟩
        rw [newlinesBefore_succ found, if_neg newline]
      · obtain ⟨middle, nested, counted, missed, scanned, walk, same⟩ :=
          ih (index + 1) (index + 1) 0 line le_rfl (by omega) (by omega) (by omega)
        have further := walk.le
        obtain ⟨stop, body, counted', missed', scanned', walk', same'⟩ :=
          ih start middle depth (line + UInt32.ofNat counted) (by omega) inside (by omega) (by omega)
        refine ⟨stop, body, counted + counted', missed + missed', ?_,
          .plain found escape (walk.trans walk'), ?_⟩
        · rw [scanned, Option.bind_some, scanned', UInt32.ofNat_add, UInt32.add_assoc]
        · rw [same', same, newlinesBefore_succ found, if_neg newline]
          omega
      · obtain ⟨middle, value, missed, scanned, walk, same⟩ := quoted_spec (index + 1)
          c [] (show 0 < fuel by omega) (show characters.length < fuel + (index + 1) by omega)
        have further := walk.le
        obtain ⟨stop, body, counted, missed', scanned', walk', same'⟩ :=
          ih start middle depth line (by omega) inside (by omega) (by omega)
        refine ⟨stop, body, counted, missed + missed', ?_,
          .plain found escape (walk.trans walk'), ?_⟩
        · rw [scanned, Option.bind_some, scanned']
        · rw [same', same, newlinesBefore_succ found, if_neg newline]
          omega
      · exact onward _ newline escape
    · rw [if_neg bound, slice_eq inside le_rfl]
      exact ⟨index, _, 0, 0, by simp; rfl, .here, rfl⟩

theorem rawString_spec (start : Nat) (line : UInt32) (inside : start ≤ characters.length)
    (positive : 0 < fuel) (enough : characters.length < fuel + start) :
    ∃ stop value counted, rawString characters fuel start line = some (stop, value, line + UInt32.ofNat counted) ∧
      start < stop ∧ newlinesBefore characters stop = newlinesBefore characters start + counted := by
  obtain ⟨stop, counted, scanned, le, bound, same, closes⟩ := scanLines_spec
    (fun character _ => character = backtick) start line positive enough
  refine ⟨stop + 1, textOf characters start stop, counted, ?_, by omega, ?_⟩
  · rw [rawString, scanned]
    simp only [Option.bind_eq_bind, Option.bind_some, slice_eq le (bound inside)]
  · rw [newlinesBefore_skip, same]
    intro newline
    have closed := closes _ newline
    simp [backtick] at closed

theorem textBlock_spec (start index : Nat) (line : UInt32) (begins : start ≤ index)
    (inside : index ≤ characters.length) (positive : 0 < fuel)
    (enough : characters.length < fuel + index) :
    ∃ stop value counted,
      textBlock characters start fuel index line = some (stop, value, line + UInt32.ofNat counted) ∧
        min (index + 3) characters.length ≤ stop ∧ stop ≤ characters.length ∧
        newlinesBefore characters (max index (stop - 2)) = newlinesBefore characters index + counted := by
  induction fuel generalizing index line with
  | zero => omega
  | succ fuel ih =>
    rw [textBlock]
    by_cases bound : index + 2 < characters.length
    · rw [if_pos bound]
      have found := List.getElem?_eq_getElem (show index < characters.length by omega)
      rw [found, List.getElem?_eq_getElem (show index + 1 < characters.length by omega),
        List.getElem?_eq_getElem bound]
      simp only [Option.bind_eq_bind, Option.bind_some]
      by_cases closes : (characters[index] = '"' && characters[index + 1] = '"' &&
          characters[index + 2] = '"') = true
      · rw [if_pos closes, slice_eq begins inside]
        refine ⟨index + 3, _, 0, by simp; rfl, by omega, by omega, ?_⟩
        simp only [Bool.and_eq_true, decide_eq_true_eq] at closes
        rw [Nat.max_eq_right (by omega), show index + 3 - 2 = index + 1 by omega,
          newlinesBefore_succ found, closes.1.1]
        rfl
      · rw [if_neg closes]
        obtain ⟨stop, value, counted, scanned, le, bound', same⟩ := ih (index + 1)
          (if characters[index] = '\n' then line + 1 else line) (by omega) (by omega) (by omega) (by omega)
        refine ⟨stop, value, (if characters[index] = '\n' then 1 else 0) + counted, ?_, by omega, bound', ?_⟩
        · rw [scanned]
          split_ifs
          · rw [UInt32.ofNat_add, ← UInt32.add_assoc]
            rfl
          · rw [Nat.zero_add]
        · rw [newlinesBefore_succ found, Nat.add_assoc] at same
          rw [← same, Nat.max_eq_right (by omega), Nat.max_eq_right (by omega)]
    · rw [if_neg bound]
      exact ⟨characters.length, none, 0, by simp, by omega, le_rfl, by rw [Nat.max_eq_left (by omega)]; rfl⟩

end Scanners

section Tracking

variable (characters) in
def Spanned.text (t : Spanned) : List Char := textOf characters t.start t.stop

def opensBlock (text : List Char) : Bool :=
  text[0]? = some '"' && text[1]? = some '"' && text[2]? = some '"'

/-- The newlines in the text of a token that the lexer steps over without counting them. -/
def uncounted (dialect : BraceDialect) (text : List Char) : Nat :=
  if text.head? = some backtick then if dialect = .script then escapedNewlines text else 0
  else if dialect = .java && opensBlock text then (text.drop (text.length - 2)).count '\n'
  else text.count '\n'

variable (characters) (dialect : BraceDialect)

/-- By how many lines the counter is behind after the given tokens. -/
def lag (tokens : List Spanned) : Nat :=
  tokens.foldr (fun t behind => uncounted dialect (t.text characters) + behind) 0

/-- Tokens in source order, each with the lines that the counter showed. -/
inductive Tracks : List Spanned → Prop
  | nil : Tracks []
  | snoc {tokens : List Spanned} {t : Spanned} (n counted : Nat) (before : Tracks tokens)
      (proper : t.start < t.stop) (bound : t.stop ≤ characters.length)
      (apart : ∀ earlier ∈ tokens, earlier.stop ≤ t.start)
      (line : t.token.line = UInt32.ofNat (1 + n))
      (endLine : t.token.endLine = UInt32.ofNat (1 + n + counted))
      (place : newlinesBefore characters t.start = n + lag characters dialect tokens)
      (size : newlinesBefore characters t.stop =
        newlinesBefore characters t.start + (counted + uncounted dialect (t.text characters))) :
      Tracks (tokens ++ [t])

structure Follows (s : Lexer) : Prop where
  tracks : Tracks characters dialect s.tokens
  line : ∃ n, s.line = UInt32.ofNat (1 + n) ∧
    newlinesBefore characters s.index = n + lag characters dialect s.tokens
  apart : ∀ t ∈ s.tokens, t.stop ≤ s.index

variable {characters dialect} {s : Lexer}

theorem textOf_min (start stop : Nat) :
    textOf characters start (min stop characters.length) = textOf characters start stop := by
  by_cases inside : stop ≤ characters.length
  · rw [Nat.min_eq_left inside]
  · rw [Nat.min_eq_right (Nat.le_of_not_le inside), textOf, textOf, List.take_length,
      List.take_of_length_le (Nat.le_of_not_le inside)]

theorem getElem?_textOf {start stop k : Nat} {c : Char}
    (found : (textOf characters start stop)[k]? = some c) : characters[start + k]? = some c := by
  rw [textOf, List.getElem?_drop, List.getElem?_take] at found
  split_ifs at found
  exact found

theorem uncounted_of_plain {text : List Char} (plain : text.count '\n' = 0) :
    uncounted dialect text = 0 := by
  have escaped := escapedNewlines_le text
  have last : (text.drop (text.length - 2)).count '\n' ≤ text.count '\n' :=
    (List.drop_sublist _ _).count_le _
  unfold uncounted
  split_ifs <;> omega

theorem uncounted_of_head {c : Char} {rest : List Char} (other : c ≠ backtick)
    (short : (dialect = .java && opensBlock (c :: rest)) = false) :
    uncounted dialect (c :: rest) = (c :: rest).count '\n' := by
  rw [uncounted, if_neg (by simpa using other), if_neg (by simp [short])]

theorem lag_concat (tokens : List Spanned) (t : Spanned) :
    lag characters dialect (tokens ++ [t]) =
      lag characters dialect tokens + uncounted dialect (t.text characters) := by
  induction tokens with
  | nil => exact Nat.add_comm _ 0
  | cons first tokens ih =>
    change uncounted dialect (first.text characters) + lag characters dialect (tokens ++ [t]) = _
    rw [ih, ← Nat.add_assoc]
    rfl

theorem Follows.move (follows : Follows characters dialect s) {index counted : Nat}
    (le : s.index ≤ index)
    (same : newlinesBefore characters index = newlinesBefore characters s.index + counted) :
    Follows characters dialect { s with index, line := s.line + UInt32.ofNat counted } where
  tracks := follows.tracks
  line := by
    obtain ⟨n, line, place⟩ := follows.line
    refine ⟨n + counted, ?_, ?_⟩
    · rw [line, ← UInt32.ofNat_add, Nat.add_assoc]
    · simp only [same, place]
      omega
  apart t mem := (follows.apart t mem).trans le

theorem Follows.stay (follows : Follows characters dialect s) {index : Nat} (le : s.index ≤ index)
    (same : newlinesBefore characters index = newlinesBefore characters s.index) :
    Follows characters dialect { s with index } := by
  have moved : Follows characters dialect
      { s with index, line := s.line + UInt32.ofNat 0 } := follows.move le same
  simpa using moved

theorem Follows.push (follows : Follows characters dialect s) (inside : s.index < characters.length)
    {stop counted : Nat} (further : s.index < stop) (kind : TokenKind)
    (size : newlinesBefore characters stop = newlinesBefore characters s.index +
      (counted + uncounted dialect (textOf characters s.index stop))) :
    Follows characters dialect (s.push characters kind stop (s.line + UInt32.ofNat counted)) := by
  obtain ⟨n, line, place⟩ := follows.line
  have text : Spanned.text characters
      ⟨⟨kind, s.line, s.line + UInt32.ofNat counted⟩, s.index, min stop characters.length⟩ =
      textOf characters s.index stop := textOf_min _ _
  constructor
  · refine .snoc n counted follows.tracks ?_ (Nat.min_le_right _ _) follows.apart line ?_ place ?_
    · exact Nat.lt_min.mpr ⟨further, inside⟩
    · change s.line + UInt32.ofNat counted = _
      rw [line, ← UInt32.ofNat_add]
    · rw [text]
      exact (newlinesBefore_min stop).trans size
  · refine ⟨n + counted, ?_, ?_⟩
    · change s.line + UInt32.ofNat counted = _
      rw [line, ← UInt32.ofNat_add, Nat.add_assoc]
    · have grown : lag characters dialect
          (s.push characters kind stop (s.line + UInt32.ofNat counted)).tokens =
            lag characters dialect s.tokens + uncounted dialect (textOf characters s.index stop) :=
        (lag_concat _ _).trans (by rw [text])
      change newlinesBefore characters stop = _
      rw [size, place, grown]
      omega
  · intro t mem
    rcases List.mem_append.mp mem with mem | mem
    · exact (follows.apart t mem).trans (Nat.le_of_lt further)
    · rw [List.mem_singleton.mp mem]
      exact Nat.min_le_left _ _

theorem Follows.pushSame (follows : Follows characters dialect s) (inside : s.index < characters.length)
    {stop : Nat} (further : s.index < stop) (kind : TokenKind)
    (size : newlinesBefore characters stop = newlinesBefore characters s.index +
      uncounted dialect (textOf characters s.index stop)) :
    Follows characters dialect (s.push characters kind stop s.line) := by
  have pushed : Follows characters dialect (s.push characters kind stop (s.line + UInt32.ofNat 0)) :=
    follows.push inside further kind (by rw [size, Nat.zero_add])
  simpa using pushed

theorem Follows.pushPlain (follows : Follows characters dialect s) (inside : s.index < characters.length)
    {stop : Nat} (further : s.index < stop) (kind : TokenKind)
    (same : newlinesBefore characters stop = newlinesBefore characters s.index) :
    Follows characters dialect (s.push characters kind stop s.line) := by
  have counts : newlinesBefore characters stop = _ := newlinesBefore_textOf (Nat.le_of_lt further)
  refine follows.pushSame inside further kind ?_
  rw [same, uncounted_of_plain (by omega)]
  rfl

end Tracking

section Turns

variable (characters) in
def Advances (dialect : BraceDialect) (s : Lexer) (result : Option Lexer) : Prop :=
  ∃ s', result = some s' ∧ s.index < s'.index ∧ Follows characters dialect s'

variable {alphabet : Alphabet} {dialect : BraceDialect} {fuel : Nat} {s : Lexer} {c : Char}

theorem lineComment_advances (follows : Follows characters dialect s)
    (found : characters[s.index]? = some c) (slash : c = '/') (positive : 0 < fuel)
    (enough : characters.length < fuel + s.index) :
    Advances characters dialect s
      ((scanWhile characters (· ≠ '\n') fuel s.index).bind fun stop => some { s with index := stop }) := by
  obtain ⟨stop, scanned, le, -, same, closes⟩ :=
    scanWhile_spec (fun c => decide (c ≠ '\n')) s.index (by decide) positive enough
  have apart : stop ≠ s.index := by
    rintro rfl
    have closed := closes c found
    simp [slash] at closed
  refine ⟨_, by rw [scanned, Option.bind_some], ?_, follows.stay le same⟩
  exact Nat.lt_of_le_of_ne le apart.symm

theorem blockComment_advances (follows : Follows characters dialect s) (positive : 0 < fuel)
    (enough : characters.length < fuel + s.index) (same : newlinesBefore characters (s.index + 2) =
      newlinesBefore characters s.index) :
    Advances characters dialect s
      ((scanLines characters (fun c following => c = '*' && following = some '/') fuel (s.index + 2)
        s.line).bind fun found => some { s with index := found.1 + 2, line := found.2 }) := by
  obtain ⟨stop, counted, scanned, le, -, lines, closes⟩ :=
    scanLines_spec (fun c following => decide (c = '*') && decide (following = some '/'))
      (s.index + 2) s.line positive (show characters.length < fuel + (s.index + 2) by omega)
  have first : characters[stop]? ≠ some '\n' := by
    intro newline
    have closed := closes _ newline
    simp at closed
  have second : characters[stop + 1]? ≠ some '\n' := by
    intro newline
    cases found : characters[stop]? with
    | none =>
      rw [List.getElem?_eq_none (Nat.le_succ_of_le (List.getElem?_eq_none_iff.mp found))] at newline
      cases newline
    | some c =>
      have closed := closes c found
      simp [newline] at closed
  refine ⟨_, by rw [scanned, Option.bind_some], show s.index < stop + 2 by omega,
    follows.move (by omega) ?_⟩
  rw [newlinesBefore_skip second, newlinesBefore_skip first, lines, same]

theorem regex_advances (follows : Follows characters dialect s) (inside : s.index < characters.length)
    (found : characters[s.index]? = some c) (slash : c = '/') (positive : 0 < fuel)
    (enough : characters.length < fuel + s.index) :
    Advances characters dialect s ((skipRegex characters fuel (s.index + 1) false).bind fun stop =>
      some (s.push characters (.literal none) stop s.line)) := by
  obtain ⟨stop, scanned, le⟩ := skipRegex_spec (s.index + 1) false positive
    (show characters.length < fuel + (s.index + 1) by omega)
  refine ⟨_, by rw [scanned, Option.bind_some], show s.index < stop from le, follows.pushSame inside le _ ?_⟩
  rw [newlinesBefore_textOf (Nat.le_of_lt le), textOf_cons found le, uncounted_of_head]
  · rw [slash]
    decide
  · simp [opensBlock, slash]

theorem quoted_advances (follows : Follows characters dialect s) (inside : s.index < characters.length)
    (found : characters[s.index]? = some c) (quote : c = '"' ∨ c = apostrophe)
    (single : (c = '"' && dialect = .java && characters[s.index + 1]? = some '"' &&
      characters[s.index + 2]? = some '"') = false) (positive : 0 < fuel)
    (enough : characters.length < fuel + s.index) :
    Advances characters dialect s ((quoted characters c fuel (s.index + 1) []).bind fun found =>
      some (s.push characters (.literal found.2) found.1 s.line)) := by
  obtain ⟨stop, result, missed, scanned, walk, -⟩ := quoted_spec (s.index + 1) c [] positive
    (show characters.length < fuel + (s.index + 1) by omega)
  have le := walk.le
  refine ⟨_, by rw [scanned, Option.bind_some], show s.index < stop from le, follows.pushSame inside le _ ?_⟩
  rw [newlinesBefore_textOf (Nat.le_of_lt le), textOf_cons found le, uncounted_of_head]
  · rcases quote with rfl | rfl <;> decide
  · rw [← textOf_cons found le]
    apply Bool.eq_false_iff.mpr
    intro opens
    simp only [opensBlock, Bool.and_eq_true, decide_eq_true_eq] at opens
    have first := getElem?_textOf opens.2.1.1
    rw [Nat.add_zero, found, Option.some.injEq] at first
    simp [first, opens.1, getElem?_textOf opens.2.1.2, getElem?_textOf opens.2.2] at single

theorem template_advances (follows : Follows characters .script s)
    (inside : s.index < characters.length) (found : characters[s.index]? = some backtick)
    (positive : 0 < fuel) (enough : characters.length < fuel + s.index) :
    Advances characters .script s
      ((template characters fuel (s.index + 1) (s.index + 1) 0 s.line).bind fun found =>
        some (s.push characters (.template found.2.1) found.1 found.2.2)) := by
  obtain ⟨stop, body, counted, missed, scanned, walk, same⟩ := template_spec (s.index + 1) (s.index + 1)
    0 s.line le_rfl inside positive (show characters.length < fuel + (s.index + 1) by omega)
  have le := walk.le
  have whole : Escaped characters s.index stop missed := .plain found (by decide) walk
  refine ⟨_, by rw [scanned, Option.bind_some], show s.index < stop from le, follows.push inside le _ ?_⟩
  have text : uncounted .script (textOf characters s.index stop) = missed := by
    rw [uncounted, if_pos (by rw [textOf_cons found le]; rfl), if_pos rfl, whole.text]
  rw [text, same, newlinesBefore_skip (by rw [found]; decide)]

theorem rawString_advances (follows : Follows characters .go s)
    (inside : s.index < characters.length) (found : characters[s.index]? = some backtick)
    (positive : 0 < fuel) (enough : characters.length < fuel + s.index) :
    Advances characters .go s ((rawString characters fuel (s.index + 1) s.line).bind fun found =>
      some (s.push characters (.literal (some found.2.1)) found.1 found.2.2)) := by
  obtain ⟨stop, value, counted, scanned, le, same⟩ := rawString_spec (s.index + 1) s.line inside positive
    (show characters.length < fuel + (s.index + 1) by omega)
  have further : s.index < stop := by omega
  refine ⟨_, by rw [scanned, Option.bind_some], further, follows.push inside further _ ?_⟩
  have text : uncounted .go (textOf characters s.index stop) = 0 := by
    rw [uncounted, if_pos (by rw [textOf_cons found further]; rfl), if_neg (by decide)]
  rw [text, same, newlinesBefore_skip (by rw [found]; decide), Nat.add_zero]

theorem textBlock_advances (follows : Follows characters .java s)
    (first : characters[s.index]? = some '"') (second : characters[s.index + 1]? = some '"')
    (third : characters[s.index + 2]? = some '"') (positive : 0 < fuel)
    (enough : characters.length < fuel + s.index) :
    Advances characters .java s
      ((textBlock characters (s.index + 3) fuel (s.index + 3) s.line).bind fun found =>
        some (s.push characters (.literal found.2.1) found.1 found.2.2)) := by
  have room : s.index + 2 < characters.length := (List.getElem?_eq_some_iff.mp third).1
  obtain ⟨stop, value, counted, scanned, low, high, lines⟩ := textBlock_spec (s.index + 3) (s.index + 3)
    s.line le_rfl room positive (show characters.length < fuel + (s.index + 3) by omega)
  have further : s.index + 3 ≤ stop := by omega
  have plain : ∀ {index}, characters[index]? = some '"' →
      newlinesBefore characters (index + 1) = newlinesBefore characters index :=
    fun found => newlinesBefore_skip (by rw [found]; decide)
  have opened : newlinesBefore characters (s.index + 3) = newlinesBefore characters s.index := by
    rw [plain third, plain second, plain first]
  have middle : newlinesBefore characters (stop - 2) = newlinesBefore characters s.index + counted := by
    rw [← opened, ← lines]
    rcases Nat.le_total (s.index + 3) (stop - 2) with le | le
    · rw [Nat.max_eq_right le]
    · rw [Nat.max_eq_left le]
      obtain same | same : stop - 2 = s.index + 1 ∨ stop - 2 = s.index + 2 ∨ stop - 2 = s.index + 3 := by
        omega
      · rw [same, plain first, opened]
      · rcases same with same | same
        · rw [same, plain third]
        · rw [same]
  have short : (textOf characters s.index stop).drop ((textOf characters s.index stop).length - 2) =
      textOf characters (stop - 2) stop := by
    rw [textOf, textOf, List.drop_drop, List.length_drop, List.length_take, Nat.min_eq_left high]
    congr 1
    omega
  have inside : s.index < characters.length := by omega
  refine ⟨_, by rw [scanned, Option.bind_some], show s.index < stop by omega,
    follows.push inside (by omega) _ ?_⟩
  have text : uncounted .java (textOf characters s.index stop) =
      (textOf characters (stop - 2) stop).count '\n' := by
    rw [← short]
    rw [textOf_cons first (by omega), textOf_cons second (by omega), textOf_cons third (by omega)]
    rw [uncounted, if_neg (by simp [backtick]), if_pos (by simp [opensBlock])]
  rw [text, newlinesBefore_textOf (show stop - 2 ≤ stop by omega), middle, Nat.add_assoc]

theorem number_advances (follows : Follows characters dialect s) (inside : s.index < characters.length)
    (found : characters[s.index]? = some c) (digit : isAsciiDigit c = true) (positive : 0 < fuel)
    (enough : characters.length < fuel + s.index) :
    Advances characters dialect s
      ((scanWhile characters (fun c => isAsciiAlphanumeric c || c = '.' || c = '_') fuel s.index).bind
        fun stop => some (s.push characters (.literal none) stop s.line)) := by
  obtain ⟨stop, scanned, le, -, same, closes⟩ :=
    scanWhile_spec (fun c => isAsciiAlphanumeric c || decide (c = '.') || decide (c = '_'))
      s.index (by decide) positive enough
  have apart : stop ≠ s.index := by
    rintro rfl
    have closed := closes c found
    simp [isAsciiAlphanumeric, digit] at closed
  have further := Nat.lt_of_le_of_ne le apart.symm
  exact ⟨_, by rw [scanned, Option.bind_some], further, follows.pushPlain inside further _ same⟩

theorem word_advances (follows : Follows characters dialect s) (inside : s.index < characters.length)
    (step : newlinesBefore characters (s.index + 1) = newlinesBefore characters s.index)
    (positive : 0 < fuel) (enough : characters.length < fuel + s.index) :
    Advances characters dialect s
      ((scanWhile characters (isWordContinue alphabet dialect) fuel (s.index + 1)).bind fun stop =>
        (slice characters s.index stop).bind fun word =>
          some (s.push characters (.ident word) stop s.line)) := by
  have newline : isWordContinue alphabet dialect '\n' = false := by
    simp [isWordContinue, alphabet.newline]
  obtain ⟨stop, scanned, le, bound, same, -⟩ := scanWhile_spec _ (s.index + 1) newline positive
    (show characters.length < fuel + (s.index + 1) by omega)
  refine ⟨_, by rw [scanned, Option.bind_some, slice_eq (by omega) (bound inside), Option.bind_some], show s.index < stop from le,
    follows.pushPlain inside le _ (same.trans step)⟩

theorem turn_advances (alphabet : Alphabet) (follows : Follows characters dialect s) (inside : s.index < characters.length)
    (positive : 0 < fuel) (enough : characters.length < fuel + s.index) :
    Advances characters dialect s (s.turn characters alphabet dialect fuel) := by
  have found := List.getElem?_eq_getElem inside
  rw [Lexer.turn, found]
  simp only [Option.bind_eq_bind, Option.bind_some]
  generalize characters[s.index] = c at found
  have step : newlinesBefore characters (s.index + 1) = _ := newlinesBefore_succ found
  by_cases newline : c = '\n'
  · rw [if_pos newline]
    rw [if_pos newline] at step
    exact ⟨_, rfl, Nat.lt_succ_self _, follows.move (Nat.le_succ _) step⟩
  rw [if_neg newline, Nat.add_zero] at step
  rw [if_neg newline]
  by_cases white : Text.isWhitespace c = true
  · rw [if_pos white]
    exact ⟨_, rfl, Nat.lt_succ_self _, follows.stay (Nat.le_succ _) step⟩
  rw [if_neg white]
  by_cases comment : (decide (c = '/') && decide (characters[s.index + 1]? = some '/')) = true
  · rw [if_pos comment]
    simp only [Bool.and_eq_true, decide_eq_true_eq] at comment
    exact lineComment_advances follows found comment.1 positive enough
  rw [if_neg comment]
  by_cases block : (decide (c = '/') && decide (characters[s.index + 1]? = some '*')) = true
  · rw [if_pos block]
    simp only [Bool.and_eq_true, decide_eq_true_eq] at block
    refine blockComment_advances follows positive enough ?_
    rw [newlinesBefore_skip (by rw [block.2]; decide), step, Nat.add_zero]
  rw [if_neg block]
  by_cases regex : (decide (c = '/') && decide (dialect = .script) &&
      regexAllowed (s.tokens.getLast?.map (·.token.kind))) = true
  · rw [if_pos regex]
    simp only [Bool.and_eq_true, decide_eq_true_eq] at regex
    exact regex_advances follows inside found regex.1.1 positive enough
  rw [if_neg regex]
  by_cases triple : (decide (c = '"') && decide (dialect = .java) &&
      decide (characters[s.index + 1]? = some '"') && decide (characters[s.index + 2]? = some '"')) = true
  · rw [if_pos triple]
    simp only [Bool.and_eq_true, decide_eq_true_eq] at triple
    obtain ⟨⟨⟨rfl, rfl⟩, second⟩, third⟩ := triple
    exact textBlock_advances follows found second third positive enough
  rw [if_neg triple]
  by_cases quote : (decide (c = '"') || decide (c = apostrophe)) = true
  · rw [if_pos quote]
    simp only [Bool.or_eq_true, decide_eq_true_eq] at quote
    exact quoted_advances follows inside found quote (Bool.eq_false_iff.mpr triple) positive enough
  rw [if_neg quote]
  by_cases script : (decide (c = backtick) && decide (dialect = .script)) = true
  · rw [if_pos script]
    simp only [Bool.and_eq_true, decide_eq_true_eq] at script
    obtain ⟨rfl, rfl⟩ := script
    exact template_advances follows inside found positive enough
  rw [if_neg script]
  by_cases go : (decide (c = backtick) && decide (dialect = .go)) = true
  · rw [if_pos go]
    simp only [Bool.and_eq_true, decide_eq_true_eq] at go
    obtain ⟨rfl, rfl⟩ := go
    exact rawString_advances follows inside found positive enough
  rw [if_neg go]
  by_cases digit : isAsciiDigit c = true
  · rw [if_pos digit]
    exact number_advances follows inside found digit positive enough
  rw [if_neg digit]
  by_cases word : isWordStart alphabet dialect c = true
  · rw [if_pos word]
    exact word_advances follows inside step positive enough
  rw [if_neg word]
  exact ⟨_, rfl, Nat.lt_succ_self _, follows.pushPlain inside (Nat.lt_succ_self _) _ step⟩

theorem run_tracks (follows : Follows characters dialect s) (positive : 0 < fuel)
    (enough : characters.length + 1 < fuel + s.index) :
    ∃ tokens, Lexer.run characters alphabet dialect fuel s = some tokens ∧
      Tracks characters dialect tokens := by
  induction fuel generalizing s with
  | zero => omega
  | succ fuel ih =>
    rw [Lexer.run]
    by_cases inside : s.index < characters.length
    · rw [if_pos inside]
      obtain ⟨s', turned, further, follows'⟩ :=
        turn_advances alphabet follows inside (show 0 < fuel by omega) (by omega)
      obtain ⟨tokens, rest, tracks⟩ := ih follows' (by omega) (by omega)
      refine ⟨tokens, ?_, tracks⟩
      rw [turned]
      exact rest
    · rw [if_neg inside]
      exact ⟨s.tokens, rfl, follows.tracks⟩

theorem lexSpanned_tracks (alphabet : Alphabet) (dialect : BraceDialect) (source : List Char)
    (enough : source.length + 1 < fuel) :
    ∃ tokens, lexSpanned alphabet dialect fuel source = some tokens ∧ Tracks source dialect tokens := by
  refine run_tracks ⟨.nil, ⟨0, rfl, rfl⟩, fun t mem => ?_⟩ (by omega) (by simpa using enough)
  cases mem

end Turns

section Exactness

variable (characters) in
/-- The lines of a token are those of its first and its last character. -/
def Spanned.ExactIn (t : Spanned) : Prop :=
  t.token.line.toNat = 1 + newlinesBefore characters t.start ∧
    t.token.endLine.toNat = 1 + newlinesBefore characters (t.stop - 1)

instance (characters : List Char) (t : Spanned) : Decidable (t.ExactIn characters) :=
  inferInstanceAs (Decidable (_ ∧ _))

variable (characters) in
structure InOrder (tokens : List Spanned) : Prop where
  proper : ∀ t ∈ tokens, t.start < t.stop ∧ t.stop ≤ characters.length
  apart : tokens.Pairwise fun t t' => t.stop ≤ t'.start

variable (characters) in
/-- Every newline is counted: the last token may leave out the one that it ends in, and
must where it ends in one. -/
structure Counted (dialect : BraceDialect) (tokens : List Spanned) : Prop where
  earlier : ∀ t ∈ tokens.dropLast, uncounted dialect (t.text characters) = 0
  each : ∀ t ∈ tokens, uncounted dialect (t.text characters) =
    if (t.text characters).getLast? = some '\n' then 1 else 0
  small : ∀ t ∈ tokens, newlinesBefore characters (t.stop - 1) + 1 < 4294967296

variable {dialect : BraceDialect} {tokens : List Spanned}

theorem getLast?_textOf {start stop : Nat} (lt : start < stop) (bound : stop ≤ characters.length) :
    (textOf characters start stop).getLast? = characters[stop - 1]? := by
  have length : (textOf characters start stop).length = stop - start := by
    rw [textOf, List.length_drop, List.length_take, Nat.min_eq_left bound]
  rw [List.getLast?_eq_getElem?, length, textOf, List.getElem?_drop,
    List.getElem?_take_of_lt (by omega)]
  congr 1
  omega

theorem exactIn_iff {t : Spanned} {n counted behind : Nat} (proper : t.start < t.stop)
    (bound : t.stop ≤ characters.length) (line : t.token.line = UInt32.ofNat (1 + n))
    (endLine : t.token.endLine = UInt32.ofNat (1 + n + counted))
    (place : newlinesBefore characters t.start = n + behind)
    (size : newlinesBefore characters t.stop =
      newlinesBefore characters t.start + (counted + uncounted dialect (t.text characters))) :
    t.ExactIn characters ↔ behind = 0 ∧
      uncounted dialect (t.text characters) =
        (if (t.text characters).getLast? = some '\n' then 1 else 0) ∧
      newlinesBefore characters (t.stop - 1) + 1 < 4294967296 := by
  have last : characters[t.stop - 1]? = some (characters[t.stop - 1]) :=
    List.getElem?_eq_getElem (by omega)
  have onward := newlinesBefore_succ last
  rw [Nat.sub_add_cancel (by omega)] at onward
  have grows : newlinesBefore characters (t.stop - 1) = _ :=
    newlinesBefore_textOf (show t.start ≤ t.stop - 1 by omega)
  have ends : (t.text characters).getLast? = some '\n' ↔ characters[t.stop - 1] = '\n' := by
    rw [Spanned.text, getLast?_textOf proper bound, last, Option.some.injEq]
  have toNat : ∀ m : Nat, (UInt32.ofNat m).toNat = m % 4294967296 := fun m => UInt32.toNat_ofNat'
  rw [Spanned.ExactIn, line, endLine, toNat, toNat]
  simp only [ends]
  split_ifs at onward ⊢ <;> omega

theorem lag_eq_zero : lag characters dialect tokens = 0 ↔
    ∀ t ∈ tokens, uncounted dialect (t.text characters) = 0 := by
  induction tokens with
  | nil => exact ⟨fun _ t mem => (List.not_mem_nil mem).elim, fun _ => rfl⟩
  | cons t tokens ih =>
    rw [List.forall_mem_cons, ← ih]
    exact Nat.add_eq_zero_iff

theorem Tracks.inOrder (tracks : Tracks characters dialect tokens) : InOrder characters tokens := by
  induction tracks with
  | nil => exact ⟨fun t mem => (List.not_mem_nil mem).elim, .nil⟩
  | snoc n counted before proper bound apart line endLine place size ih =>
    constructor
    · intro t mem
      rcases List.mem_append.mp mem with mem | mem
      · exact ih.proper t mem
      · rw [List.mem_singleton.mp mem]
        exact ⟨proper, bound⟩
    · refine List.pairwise_append.mpr ⟨ih.apart, List.pairwise_singleton _ _, fun t mem t' mem' => ?_⟩
      rw [List.mem_singleton.mp mem']
      exact apart t mem

theorem Tracks.exact_iff (tracks : Tracks characters dialect tokens) :
    (∀ t ∈ tokens, t.ExactIn characters) ↔ Counted characters dialect tokens := by
  induction tracks with
  | nil =>
    have none : ∀ {p : Spanned → Prop}, ∀ t ∈ ([] : List Spanned), p t :=
      fun t mem => (List.not_mem_nil mem).elim
    exact ⟨fun _ => ⟨none, none, none⟩, fun _ => none⟩
  | @snoc tokens t n counted before proper bound apart line endLine place size ih =>
    have here := exactIn_iff proper bound line endLine place size
    rw [lag_eq_zero] at here
    constructor
    · intro all
      have before' := ih.mp fun t' mem => all t' (List.mem_append_left _ mem)
      obtain ⟨none, each, small⟩ := here.mp (all t (List.mem_append_right _ (List.mem_singleton_self t)))
      refine ⟨by rwa [List.dropLast_concat], fun t' mem => ?_, fun t' mem => ?_⟩
      · rcases List.mem_append.mp mem with mem | mem
        · exact before'.each t' mem
        · rwa [List.mem_singleton.mp mem]
      · rcases List.mem_append.mp mem with mem | mem
        · exact before'.small t' mem
        · rwa [List.mem_singleton.mp mem]
    · intro condition t' mem
      have none := condition.earlier
      rw [List.dropLast_concat] at none
      rcases List.mem_append.mp mem with mem | mem
      · refine ih.mpr ⟨fun t mem => none t (List.dropLast_subset _ mem), fun t mem => ?_, fun t mem => ?_⟩ t' mem
        · exact condition.each t (List.mem_append_left _ mem)
        · exact condition.small t (List.mem_append_left _ mem)
      · rw [List.mem_singleton.mp mem]
        have last : t ∈ tokens ++ [t] := List.mem_append_right _ (List.mem_singleton_self t)
        exact here.mpr ⟨none, condition.each t last, condition.small t last⟩

/-- The lexer ends on every text with tokens in source order. Their lines are right exactly
when no newline of a token goes uncounted. -/
theorem lexBrace_positions (alphabet : Alphabet) (dialect : BraceDialect) (source : List Char) :
    ∃ least, ∀ fuel ≥ least, ∃ tokens,
      lexSpanned alphabet dialect fuel source = some tokens ∧
        lexBrace alphabet dialect fuel source = some (tokens.map (·.token)) ∧
        InOrder source tokens ∧
        ((∀ t ∈ tokens, t.ExactIn source) ↔ Counted source dialect tokens) := by
  refine ⟨source.length + 2, fun fuel enough => ?_⟩
  obtain ⟨tokens, lexed, tracks⟩ := lexSpanned_tracks alphabet dialect source
    (show source.length + 1 < fuel by omega)
  exact ⟨tokens, lexed, by rw [lexBrace, lexed]; rfl, tracks.inOrder, tracks.exact_iff⟩

def asciiAlphabet : Alphabet where
  isAlphabetic := Char.isAlpha
  isAlphanumeric := Char.isAlphanum
  newline := by decide

/-- A template that goes on after a backslash at the end of its first line. -/
def continuedTemplate : List Char := "\x60a\\\nb\x60 c".toList

theorem lexBrace_escaped_newline : ∃ tokens,
    lexSpanned asciiAlphabet .script 10 continuedTemplate = some tokens ∧
      ¬∀ t ∈ tokens, t.ExactIn continuedTemplate := by
  refine ⟨_, rfl, ?_⟩
  decide

end Exactness

end CodeSystemGraph.BraceLexer
