import CodeSystemGraph.RouteShape

/-!
Mixed segments are matched from left to right, each literal at its first
occurrence. Taking the first occurrence never loses a match: what a later one
leaves is the end of what the first one leaves, and a longer rest only makes the
next parameter longer.
-/

namespace CodeSystemGraph.Routes

open Text

/-- A first literal, and then each value with the literal that follows it. -/
def filled : String → List String → List String → String
  | first, literal :: literals, value :: values => first ++ value ++ filled literal literals values
  | first, _, _ => first

def Fills : List String → List Char → Prop
  | [], text => text ≠ []
  | literal :: middle, text =>
    ∃ value rest, value ≠ [] ∧ text = value ++ literal.toList ++ rest ∧ Fills middle rest

theorem Fills.extend {middle : List String} {text : List Char} (fills : Fills middle text)
    (more : List Char) : Fills middle (more ++ text) := by
  cases middle with
  | nil => exact List.append_ne_nil_of_right_ne_nil more fills
  | cons literal middle =>
    obtain ⟨value, rest, some, rfl, fills⟩ := fills
    exact ⟨more ++ value, rest, List.append_ne_nil_of_right_ne_nil more some, by simp, fills⟩

theorem consumeMiddle_iff {middle : List String} {text : List Char} :
    consumeMiddle middle text = true ↔ Fills middle text := by
  induction middle generalizing text with
  | nil => simp [consumeMiddle, Fills]
  | cons literal middle ih =>
    cases text with
    | nil =>
      constructor
      · intro impossible
        cases impossible
      · intro fills
        obtain ⟨value, rest, some, same, _⟩ := fills
        simp [some] at same
    | cons c text =>
      rw [consumeMiddle]
      constructor
      · intro consumed
        cases found : afterFirst literal.toList text with
        | none => simp [found] at consumed
        | some rest =>
          obtain ⟨first, rfl⟩ := afterFirst_split found
          simp only [found] at consumed
          exact ⟨c :: first, rest, List.cons_ne_nil c first, rfl, ih.1 consumed⟩
      · intro fills
        obtain ⟨value, rest, some, same, fills⟩ := fills
        cases value with
        | nil => exact absurd rfl some
        | cons c' value =>
          rw [List.cons_append, List.cons_append] at same
          obtain ⟨more, found⟩ := @afterFirst_of_occurrence literal.toList value rest
          rw [(List.cons.inj same).2, found]
          exact ih.2 (fills.extend more)

theorem filled_cons (first literal : String) (literals : List String) (value : String)
    (values : List String) : filled first (literal :: literals) (value :: values) =
      first ++ value ++ filled literal literals values := rfl

theorem filled_begins (first : String) (literals values : List String) :
    ∃ more : List Char, (filled first literals values).toList = first.toList ++ more := by
  cases literals with
  | nil => exact ⟨[], by simp [filled]⟩
  | cons literal literals =>
    cases values with
    | nil => exact ⟨[], by simp [filled]⟩
    | cons value values => exact ⟨_, by rw [filled_cons, String.append_assoc, String.toList_append]⟩

theorem fills_iff {middle : List String} {first last : String} {text : List Char} :
    (∃ rest, text = rest ++ last.toList ∧ Fills middle rest) ↔
      ∃ values : List String, values.length = middle.length + 1 ∧ (∀ value ∈ values, value ≠ "") ∧
        first.toList ++ text = (filled first (middle ++ [last]) values).toList := by
  induction middle generalizing first text with
  | nil =>
    constructor
    · intro fills
      obtain ⟨rest, rfl, some⟩ := fills
      refine ⟨[String.ofList rest], rfl, ?_, by simp [filled]⟩
      intro value mem
      rw [List.mem_singleton.1 mem]
      intro empty
      exact some (by simpa using congrArg String.toList empty)
    · intro chosen
      obtain ⟨values, count, nonempty, same⟩ := chosen
      obtain ⟨value, rfl⟩ := List.length_eq_one_iff.1 count
      refine ⟨value.toList, by simpa [filled] using same, ?_⟩
      intro empty
      exact nonempty value (List.mem_singleton_self value) (String.toList_eq_nil_iff.1 empty)
  | cons literal middle ih =>
    constructor
    · intro fills
      obtain ⟨_, rfl, part, rest, some, rfl, fills⟩ := fills
      obtain ⟨values, count, nonempty, same⟩ := (@ih literal (rest ++ last.toList)).1 ⟨rest, rfl, fills⟩
      refine ⟨String.ofList part :: values, by rw [List.length_cons, count]; rfl, ?_, ?_⟩
      · intro value mem
        rcases List.mem_cons.1 mem with rfl | later
        · intro empty
          exact some (by simpa using congrArg String.toList empty)
        · exact nonempty value later
      · rw [List.cons_append, filled_cons, String.toList_append, ← same]
        simp
    · intro chosen
      obtain ⟨values, count, nonempty, same⟩ := chosen
      cases values with
      | nil => cases count
      | cons value values =>
        obtain ⟨more, begins⟩ := filled_begins literal (middle ++ [last]) values
        rw [List.cons_append, filled_cons, String.toList_append, begins, String.toList_append,
          List.append_assoc, List.append_cancel_left_eq] at same
        obtain ⟨rest, text', fills⟩ := (@ih literal more).2 ⟨values, by simpa using count,
          fun value mem => nonempty value (List.mem_cons_of_mem _ mem), begins.symm⟩
        refine ⟨value.toList ++ literal.toList ++ rest, by rw [same, text']; simp, value.toList, rest,
          ?_, rfl, fills⟩
        intro empty
        exact nonempty value List.mem_cons_self (String.toList_eq_nil_iff.1 empty)

theorem mixedSegmentMatches_iff (first second : String) (rest : List String) (value : String) :
    mixedSegmentMatches (first :: second :: rest) value = true ↔
      ∃ values : List String, values.length = (second :: rest).length ∧
        (∀ part ∈ values, part ≠ "") ∧ value = filled first (second :: rest) values := by
  have listed : (second :: rest).dropLast ++ [(second :: rest).getLast (List.cons_ne_nil _ _)] =
      second :: rest := List.dropLast_append_getLast _
  have count : ((second :: rest).dropLast).length + 1 = (second :: rest).length := by simp
  have fills (text : List Char) := @fills_iff (second :: rest).dropLast first
    ((second :: rest).getLast (List.cons_ne_nil _ _)) text
  rw [listed, count] at fills
  have stripped (text : List Char) : (stripPrefix first.toList value.toList).bind
      (stripSuffix ((second :: rest).getLast (List.cons_ne_nil _ _)).toList) = some text ↔
        value.toList =
          first.toList ++ (text ++ ((second :: rest).getLast (List.cons_ne_nil _ _)).toList) := by
    simp only [Option.bind_eq_some_iff, stripPrefix_eq_some, stripSuffix_eq_some,
      exists_eq_right]
  have meaning : mixedSegmentMatches (first :: second :: rest) value = true ↔ ∃ text,
      (stripPrefix first.toList value.toList).bind
        (stripSuffix ((second :: rest).getLast (List.cons_ne_nil _ _)).toList) = some text ∧
        Fills (second :: rest).dropLast text := by
    unfold mixedSegmentMatches
    dsimp only
    split
    · rename_i unmatched
      simp [unmatched]
    · rename_i text matched
      simp only [matched, Option.some.injEq, exists_eq_left', consumeMiddle_iff]
  rw [meaning]
  simp only [stripped]
  constructor
  · intro matched
    obtain ⟨text, same, middle⟩ := matched
    obtain ⟨values, length, nonempty, equal⟩ := (fills _).1 ⟨text, rfl, middle⟩
    exact ⟨values, length, nonempty, String.toList_inj.1 (same.trans equal)⟩
  · intro chosen
    obtain ⟨values, length, nonempty, same⟩ := chosen
    obtain ⟨more, begins⟩ := filled_begins first (second :: rest) values
    obtain ⟨text, rfl, middle⟩ := (fills more).2 ⟨values, length, nonempty, begins.symm⟩
    exact ⟨text, by rw [same, begins], middle⟩

end CodeSystemGraph.Routes
