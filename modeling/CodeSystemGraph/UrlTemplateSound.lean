import CodeSystemGraph.UrlFilling
import Mathlib.Data.List.Infix

/-!
Client literals of URL templates against the URLs that the templates stand for. A URL is
divided at its authority; a value inside the authority cannot move that division, a value
of a whole segment cannot move a slash, so the segments of the path are those of the
template, one by one.
-/

namespace CodeSystemGraph.Sources
open Text Routes
open Http.PathTemplate (segmentsOf)

section Division

open UrlTemplate (hole afterScheme splitOrigin fillSegments)

/-- Where a URL or a template is divided: before a path, after a base URL that is one leading
value, or after an authority. -/
inductive Division : List Char → List Char → Prop
  | path (rest : List Char) (single : rest.head? ≠ some '/') : Division [] ('/' :: rest)
  | base (rest : List Char) : Division [hole] ('/' :: rest)
  | authority (scheme host rest : List Char) (clean : Confined scheme) (part : isSchemePart scheme = true)
    (clean' : Confined host) (ends : Ends rest) : Division (scheme ++ '/' :: '/' :: host) rest

/-- The scheme and authority of a flattened template; a leading value before a slash is both. -/
def divideTemplate (text : List Char) : List Char × List Char :=
  if [hole, '/'].isPrefixOf text then ([hole], text.tail) else divide text

theorem divideTemplate_of_division {origin rest : List Char} (division : Division origin rest) :
    divideTemplate (origin ++ rest) = (origin, rest) := by
  unfold divideTemplate
  cases division with
  | base rest => exact if_pos (List.isPrefixOf_iff_prefix.2 ⟨rest, rfl⟩)
  | path rest single =>
    rw [if_neg, List.nil_append, divide_path single]
    intro begins
    obtain ⟨more, same⟩ := List.isPrefixOf_iff_prefix.1 begins
    cases (List.cons.inj same).1
  | authority scheme host rest clean part clean' ends =>
    have whole : scheme ++ '/' :: '/' :: host ++ rest = scheme ++ '/' :: '/' :: (host ++ rest) := by simp
    rw [whole, if_neg, divide_authority clean part clean' ends]
    intro begins
    -- a value before the slashes would be a scheme that does not end with a colon
    cases scheme with
    | nil =>
      obtain ⟨more, same⟩ := List.isPrefixOf_iff_prefix.1 begins
      cases (List.cons.inj same).1
    | cons c scheme =>
      obtain ⟨more, same⟩ := List.isPrefixOf_iff_prefix.1 begins
      have first : hole = c := (List.cons.inj same).1
      cases scheme with
      | nil =>
        rw [← first] at part
        exact absurd part (by decide)
      | cons c' scheme =>
        have second : '/' = c' := (List.cons.inj (List.cons.inj same).2).1
        exact absurd (clean c' (by simp)) (by rw [← second]; decide)

theorem confined_of_letter {c : Char} (letter : (c == hole || c.isAlpha) = true) :
    confined c = true := by
  cases here : confined c with
  | true => rfl
  | false => rcases eq_of_not_confined here with rfl | rfl | rfl <;> exact absurd letter (by decide)

theorem afterScheme_eq_some {text : List Char} {start : Nat} (found : afterScheme text = some start) :
    ∃ scheme rest, text = scheme ++ '/' :: '/' :: rest ∧ start = scheme.length + 2 ∧
      Confined scheme ∧ isSchemePart scheme = true := by
  have slashes : (if ['/', '/'].isPrefixOf text then some 2 else none) = some start →
      ∃ scheme rest, text = scheme ++ '/' :: '/' :: rest ∧ start = scheme.length + 2 ∧
        Confined scheme ∧ isSchemePart scheme = true := by
    intro h
    split at h
    · next begins =>
      cases h
      obtain ⟨rest, same⟩ := List.isPrefixOf_iff_prefix.1 begins
      exact ⟨[], rest, same.symm, rfl, fun c mem => absurd mem List.not_mem_nil, rfl⟩
    · cases h
  unfold afterScheme at found
  split at found
  · next position first =>
    split at found
    · next letters =>
      cases found
      obtain ⟨inside, here, -⟩ := List.findIdx?_eq_some_iff_getElem.1 first
      rw [List.getElem_tails] at here
      obtain ⟨rest, same⟩ := List.isPrefixOf_iff_prefix.1 here
      have shorter : position ≤ text.length := by
        rw [List.length_tails] at inside
        omega
      refine ⟨text.take position ++ [':'], rest, ?_, ?_, ?_, isSchemePart_iff.2 (.inr List.getLast?_concat)⟩
      · conv_lhs => rw [← List.take_append_drop position text, ← same]
        simp
      · rw [List.length_append, List.length_take, Nat.min_eq_left shorter]
        rfl
      · refine List.forall_mem_append.2 ⟨fun c mem => ?_, confined_of_all rfl⟩
        exact confined_of_letter (List.all_eq_true.1 letters c mem)
    · exact slashes found
  · exact slashes found

theorem afterScheme_eq_none {text : List Char} (absent : afterScheme text = none) :
    ¬['/', '/'] <+: text := by
  intro begins
  have slashes : ['/', '/'].isPrefixOf text = true := List.isPrefixOf_iff_prefix.2 begins
  unfold afterScheme at absent
  split at absent
  · split at absent
    · cases absent
    · exact absurd absent (by simp [slashes])
  · exact absurd absent (by simp [slashes])

theorem splitOrigin_division {text origin rest : List Char}
    (split : splitOrigin text = some (origin, rest)) (ends : Ends rest) :
    text = origin ++ rest ∧ Division origin rest := by
  unfold splitOrigin at split
  split at split
  · next start found =>
    obtain ⟨scheme, after, rfl, rfl, clean, part⟩ := afterScheme_eq_some found
    have drops : ∀ n, (scheme ++ '/' :: '/' :: after).drop (scheme.length + 2 + n) = after.drop n := by
      intro n
      rw [Nat.add_assoc, List.drop_length_add_append, Nat.add_comm 2 n]
      rfl
    have takes : ∀ n, (scheme ++ '/' :: '/' :: after).take (scheme.length + 2 + n) =
        scheme ++ '/' :: '/' :: after.take n := by
      intro n
      rw [Nat.add_assoc, List.take_length_add_append, Nat.add_comm 2 n]
      rfl
    obtain ⟨n, short, split⟩ : ∃ n ≤ (after.takeWhile confined).length,
        (if scheme.length + 2 + n = scheme.length + 2 then none
        else some (scheme ++ '/' :: '/' :: after.take n, after.drop n)) = some (origin, rest) := by
      have whole := drops 0
      rw [Nat.add_zero, List.drop_zero] at whole
      simp only [whole, drops, takes] at split
      refine ⟨_, ?_, split⟩
      split
      · exact (List.takeWhile_sublist _).length_le
      · exact le_rfl
    split at split
    · cases split
    · obtain ⟨rfl, rfl⟩ := Prod.mk.inj (Option.some.inj split)
      refine ⟨by simp, .authority scheme _ _ clean part (fun c mem => ?_) ends⟩
      have begins : after.take n <+: after.takeWhile confined :=
        List.prefix_of_prefix_length_le (List.take_prefix n after) (List.takeWhile_prefix confined)
          ((List.length_take_le n after).trans short)
      exact List.mem_takeWhile_imp (begins.subset mem)
  · next absent =>
    have single := afterScheme_eq_none absent
    split at split
    · next rest' =>
      obtain ⟨rfl, rfl⟩ := Prod.mk.inj (Option.some.inj split)
      refine ⟨rfl, .path rest' fun first => ?_⟩
      obtain ⟨more, same⟩ := List.head?_eq_some_iff.1 first
      exact single ⟨more, by rw [same]; rfl⟩
    · next first rest' _ =>
      split at split
      · next here =>
        obtain ⟨rfl, rfl⟩ := Prod.mk.inj (Option.some.inj split)
        exact ⟨by rw [here]; rfl, .base rest'⟩
      · cases split
    · cases split

end Division

section Instances

open UrlTemplate (hole)

def IsOrigin (value : List Char) : Prop :=
  ∃ scheme host, Confined scheme ∧ isSchemePart scheme = true ∧ Confined host ∧
    value = scheme ++ '/' :: '/' :: host

/-- The runtime values that a flattened template stands for. -/
structure Admissible (text : List Char) (values : List (List Char)) : Prop where
  count : values.length = text.count hole
  origin : ∀ value ∈ values.take ((divideTemplate text).1.count hole),
    if (divideTemplate text).1 = [hole] then IsOrigin value else Confined value
  path : ∀ value ∈ values.drop ((divideTemplate text).1.count hole), Written value

theorem takeWhile_fill (text : List Char) : ∀ {values : List (List Char)},
    (∀ value ∈ values, Written value) →
      (fill text values).takeWhile inPath = fill (text.takeWhile inPath) values := by
  induction text with
  | nil => exact fun _ => rfl
  | cons c text ih =>
    intro values written
    by_cases here : c = hole
    · rw [here, List.takeWhile_cons_of_pos (by decide), fill, fill, if_pos rfl, if_pos rfl,
        ← ih fun value mem => written value (List.mem_of_mem_tail mem)]
      apply List.takeWhile_append_of_pos
      intro c mem
      cases values with
      | nil => cases mem
      | cons value values =>
        have clean := (written value List.mem_cons_self).2 c mem
        simp [inPath, clean.2.1, clean.2.2]
    · rw [fill_cons here, List.takeWhile_cons, List.takeWhile_cons]
      split
      · rw [fill_cons here, ih written]
      · rfl

theorem fill_scheme {scheme : List Char} (part : isSchemePart scheme = true) (values : List (List Char)) :
    isSchemePart (fill scheme values) = true := by
  cases isSchemePart_iff.1 part with
  | inl empty =>
    rw [empty]
    rfl
  | inr colon =>
    obtain ⟨before, rfl⟩ := List.getLast?_eq_some_iff.1 colon
    rw [fill_append, isSchemePart_iff]
    exact .inr (by simp [fill, show ¬(':' = hole) by decide])

theorem ends_fill {rest : List Char} (ends : Ends rest) (values : List (List Char)) :
    Ends (fill rest values) := by
  cases rest with
  | nil => exact fun c first => absurd first (by simp [fill])
  | cons c rest =>
    have stop := ends c rfl
    have literal : c ≠ hole := by
      rintro rfl
      exact absurd stop (by decide)
    rw [fill_cons literal]
    intro c' first
    rw [List.head?_cons, Option.mem_some_iff] at first
    rwa [← first]

variable {origin rest : List Char} {values : List (List Char)}

theorem divide_fill (division : Division origin rest) (admissible : Admissible (origin ++ rest) values) :
    divide (fill (origin ++ rest) values) =
      (fill origin values, fill rest (values.drop (origin.count hole))) := by
  obtain ⟨count, inOrigin, inRest⟩ := admissible
  rw [divideTemplate_of_division division] at inOrigin inRest
  rw [fill_append]
  cases division with
  | path rest single =>
    change divide (fill ('/' :: rest) values) = ([], fill ('/' :: rest) values)
    rw [fill_cons (by decide)]
    refine divide_path fun first => ?_
    cases rest with
    | nil => cases first
    | cons c rest =>
      rw [fill] at first
      split at first
      · next here =>
        cases values with
        | nil =>
          rw [List.nil_append, here, List.count_cons_of_ne (by decide), List.count_cons_self] at count
          simp at count
        | cons value values =>
          have written := inRest value List.mem_cons_self
          cases value with
          | nil => exact written.1 rfl
          | cons c' value => exact (written.2 c' List.mem_cons_self).1 (Option.some.inj first)
      · exact single first
  | base rest =>
    cases values with
    | nil => simp at count
    | cons value values =>
      obtain ⟨scheme, host, clean, part, clean', same⟩ : IsOrigin value := inOrigin value (by simp)
      rw [fill_hole, same, List.append_assoc, List.cons_append, List.cons_append]
      exact divide_authority clean part clean' (ends_fill (ends_slash rest) _)
  | authority scheme host rest clean part clean' ends =>
    have ordinary : scheme ++ '/' :: '/' :: host ≠ [hole] := by
      intro same
      have slash : '/' ∈ [hole] := by
        rw [← same]
        simp
      exact absurd slash (by decide)
    simp only [if_neg ordinary] at inOrigin
    have slashes : fill (scheme ++ '/' :: '/' :: host) values =
        fill scheme values ++ '/' :: '/' :: fill host (values.drop (scheme.count hole)) := by
      rw [fill_append, fill_cons (by decide), fill_cons (by decide)]
    have total : (scheme ++ '/' :: '/' :: host).count hole = scheme.count hole + host.count hole := by
      rw [List.count_append, List.count_cons_of_ne (by decide), List.count_cons_of_ne (by decide)]
    rw [slashes, List.append_assoc, List.cons_append, List.cons_append]
    refine divide_authority (fill_confined clean fun value mem => ?_) (fill_scheme part values)
      (fill_confined clean' fun value mem => ?_) (ends_fill ends _)
    · refine inOrigin value ?_
      rw [total, List.take_add]
      exact List.mem_append_left _ mem
    · refine inOrigin value ?_
      rw [total, List.take_add]
      exact List.mem_append_right _ mem

theorem urlPath_fill (division : Division origin rest) (admissible : Admissible (origin ++ rest) values) :
    urlPath (fill (origin ++ rest) values) =
      fill (rest.takeWhile inPath) (values.drop (origin.count hole)) := by
  have written := admissible.path
  rw [divideTemplate_of_division division] at written
  rw [urlPath, divide_fill division admissible, takeWhile_fill rest written]

end Instances

section Segments

open UrlTemplate (hole fillSegments parameterName)

def Word (text : List Char) : Prop := ∀ c ∈ text, (c.isAlphanum || c == '_') = true

/-- A segment of a template in the literal: itself, or a named parameter for a value. -/
def Literal (segment written : List Char) : Prop :=
  (hole ∉ segment ∧ written = segment) ∨
    (segment = [hole] ∧ ∃ name, Word name ∧ written = '{' :: (name ++ ['}']))

def Stands (segment value : List Char) : Prop :=
  (hole ∉ segment ∧ value = segment) ∨ (segment = [hole] ∧ Written value)

theorem word_value : Word "value".toList := by
  have all : "value".toList.all (fun c => c.isAlphanum || c == '_') = true := by decide
  exact List.all_eq_true.1 all

theorem word_parameterName (name : String) : Word (parameterName name) := by
  unfold parameterName
  dsimp only
  split
  · next both =>
    rw [Bool.and_eq_true] at both
    exact List.all_eq_true.1 both.2
  · exact word_value

theorem fillSegments_spec {segments filled : List (List Char)} :
    ∀ {names : List (Option String)}, fillSegments segments names = some filled →
      List.Forall₂ Literal segments filled := by
  induction segments generalizing filled with
  | nil =>
    intro names h
    cases h
    exact .nil
  | cons segment segments ih =>
    intro names h
    rw [fillSegments] at h
    split at h
    · next has =>
      split at h
      · cases h
      · next single =>
        obtain ⟨rest, found, rfl⟩ := Option.map_eq_some_iff.1 h
        obtain ⟨c, rfl⟩ := List.length_eq_one_iff.1 (not_not.1 single)
        have here : hole = c := List.mem_singleton.1 (List.contains_iff_mem.1 has)
        refine .cons (.inr ⟨by rw [here], _, ?_, rfl⟩) (ih found)
        cases (names.head?).bind id with
        | none => exact word_value
        | some name => exact word_parameterName name
    · next literal =>
      obtain ⟨rest, found, rfl⟩ := Option.map_eq_some_iff.1 h
      exact .cons (.inl ⟨fun mem => literal (List.contains_iff_mem.2 mem), rfl⟩) (ih found)

theorem word_apart {name : List Char} (word : Word name) {c : Char}
    (other : (c.isAlphanum || c == '_') = false) : c ∉ name := fun mem => by
  rw [word c mem] at other
  cases other

theorem classify_named {name : List Char} (word : Word name) :
    classifySegment ('{' :: (name ++ ['}'])) = .param := by
  have braces : braced ('{' :: (name ++ ['}'])) = some name := by
    have opening := word_apart word (c := '{') (by decide)
    have closing := word_apart word (c := '}') (by decide)
    rw [braced, between_eq_some.2 rfl]
    simp [opening, closing]
  have single : ¬('{' :: (name ++ ['}']) = "*".toList ∨ '{' :: (name ++ ['}']) = "**".toList) := by
    intro star
    cases star with
    | inl same => cases (List.cons.inj same).1
    | inr same => cases (List.cons.inj same).1
  have begins : startsWith name "*" = false := by
    rw [← Bool.not_eq_true, startsWith_iff]
    exact fun more => word_apart word (c := '*') (by decide) (more.subset (by decide))
  have ends : ∀ tail ∈ ["...", ":path", ":.*", ":.+"], endsWith name tail = false := by
    intro tail mem
    have marked : (["...", ":path", ":.*", ":.+"].all fun tail =>
        tail.toList.any fun c => !(c.isAlphanum || c == '_')) = true := by decide
    obtain ⟨c, inside, other⟩ := List.any_eq_true.1 (List.all_eq_true.1 marked tail mem)
    rw [← Bool.not_eq_true, endsWith_iff]
    exact fun more => word_apart word (by simpa using other) (more.subset inside)
  rw [classifySegment, if_neg single, braces]
  simp only [begins, ends "..." (by decide), ends ":path" (by decide), ends ":.*" (by decide),
    ends ":.+" (by decide), Bool.or_self, Bool.false_eq_true, if_false]

theorem literal_admits {segment written value : List Char} (literal : Literal segment written)
    (stands : Stands segment value) (some : segment ≠ []) :
    segmentAdmits value (classifySegment written) = true := by
  rcases literal with ⟨free, rfl⟩ | ⟨rfl, name, word, rfl⟩
  · rcases stands with ⟨-, rfl⟩ | ⟨rfl, -⟩
    · exact segmentAdmits_classify some
    · exact absurd List.mem_cons_self free
  · rcases stands with ⟨free, -⟩ | ⟨-, written⟩
    · exact absurd List.mem_cons_self free
    · rw [classify_named word, segmentAdmits]
      simpa using written.1

theorem stands_fill {segment : List Char} (clean : '/' ∉ segment)
    (whole : hole ∉ segment ∨ segment = [hole]) {values : List (List Char)}
    (written : ∀ value ∈ values, Written value) (enough : segment.count hole ≤ values.length) :
    '/' ∉ fill segment values ∧ Stands segment (fill segment values) := by
  rcases whole with free | rfl
  · rw [fill_free free]
    exact ⟨clean, .inl ⟨free, rfl⟩⟩
  · obtain ⟨value, values, rfl⟩ := List.exists_cons_of_length_pos (l := values) enough
    have here := written value List.mem_cons_self
    rw [fill_hole]
    exact ⟨fun slash => (here.2 '/' slash).1 rfl, .inr ⟨rfl, here⟩⟩

theorem splitOn_fill {segments : List (List Char)} (some : segments ≠ [])
    (each : ∀ segment ∈ segments, '/' ∉ segment ∧ (hole ∉ segment ∨ segment = [hole])) :
    ∀ {values : List (List Char)}, (∀ value ∈ values, Written value) →
      (['/'].intercalate segments).count hole ≤ values.length →
      List.Forall₂ Stands segments ((fill (['/'].intercalate segments) values).splitOn '/') := by
  induction segments with
  | nil => exact absurd rfl some
  | cons segment rest ih =>
    obtain ⟨⟨clean, whole⟩, each⟩ := List.forall_mem_cons.1 each
    intro values written enough
    cases rest with
    | nil =>
      rw [List.intercalate_singleton] at enough ⊢
      obtain ⟨free, stands⟩ := stands_fill clean whole written enough
      rw [List.splitOn_eq_singleton free]
      exact .cons stands .nil
    | cons next rest =>
      rw [List.intercalate_cons_cons, List.append_assoc, List.singleton_append] at enough ⊢
      rw [List.count_append, List.count_cons_of_ne (by decide)] at enough
      obtain ⟨free, stands⟩ := stands_fill clean whole written (by omega)
      rw [fill_append, fill_cons (by decide), List.splitOn_append_cons_self_of_not_mem free]
      refine .cons stands (ih (List.cons_ne_nil _ _) each ?_ ?_)
      · exact fun value mem => written value (List.mem_of_mem_drop mem)
      · rw [List.length_drop]
        omega

theorem forall₂_nonempty {R : List Char → List Char → Prop}
    (same : ∀ segment value, R segment value → (segment = [] ↔ value = []))
    {segments values : List (List Char)} (pairs : List.Forall₂ R segments values) :
    List.Forall₂ R (segments.filter (· ≠ [])) (values.filter (· ≠ [])) := by
  refine List.rel_filter (fun segment value related => ?_) pairs
  simp only [decide_eq_true_eq]
  exact not_congr (same segment value related)

theorem literal_nonempty (segment written : List Char) (literal : Literal segment written) :
    segment = [] ↔ written = [] := by
  rcases literal with ⟨-, rfl⟩ | ⟨rfl, name, -, rfl⟩ <;> simp

theorem stands_nonempty (segment value : List Char) (stands : Stands segment value) :
    segment = [] ↔ value = [] := by
  rcases stands with ⟨-, rfl⟩ | ⟨rfl, written⟩
  · rfl
  · simp [written.1]

theorem admits_forall₂ {segments written values : List (List Char)}
    (some : ∀ segment ∈ segments, segment ≠ []) (literals : List.Forall₂ Literal segments written)
    (stands : List.Forall₂ Stands segments values) :
    written.length = values.length ∧ admits (classifyAll written) values = true := by
  refine ⟨literals.length_eq.symm.trans stands.length_eq, admits_classifyAll ?_⟩
  induction literals generalizing values with
  | nil =>
    cases stands
    exact .nil
  | cons literal literals ih =>
    cases stands with
    | cons here rest =>
      obtain ⟨first, some⟩ := List.forall_mem_cons.1 some
      exact .cons (literal_admits literal here first) (ih some rest)

theorem params_iff {segments written : List (List Char)}
    (literals : List.Forall₂ Literal segments written) :
    (∀ i : Nat, ∀ segment ∈ segments[i]?, hole ∈ segment →
      (classifyAll written)[i]? = some .param) ↔
    segments.Pairwise fun before after => hole ∈ after → classifySegment before ≠ .catchAll := by
  induction literals with
  | nil => simp
  | @cons segment text segments written literal literals ih =>
    rw [List.pairwise_cons, ← ih, classifyAll]
    have parts : ∀ shape : List RouteSegment, (∀ i : Nat, ∀ part ∈ (segment :: segments)[i]?,
        hole ∈ part → shape[i]? = some .param) ↔ (hole ∈ segment → shape[0]? = some .param) ∧
        ∀ i : Nat, ∀ part ∈ segments[i]?, hole ∈ part → shape[i + 1]? = some .param := by
      intro shape
      constructor
      · intro all
        exact ⟨all 0 segment rfl, fun i => all (i + 1)⟩
      · intro both i
        cases i with
        | zero =>
          intro part here
          obtain rfl := Option.some.inj here
          exact both.1
        | succ i => exact both.2 i
    rw [parts]
    split
    · next caught =>
      have free : hole ∉ segment ∧ classifySegment segment = .catchAll := by
        rcases literal with ⟨free, rfl⟩ | ⟨-, name, word, rfl⟩
        · exact ⟨free, caught⟩
        · rw [classify_named word] at caught
          cases caught
      constructor
      · intro both
        refine ⟨fun after mem has => ?_, fun i part here has => ?_⟩
        · obtain ⟨i, bound, here⟩ := List.getElem_of_mem mem
          have cut := both.2 i after (by rw [List.getElem?_eq_getElem bound, here]; rfl) has
          cases cut
        · have cut := both.2 i part here has
          cases cut
      · intro both
        refine ⟨fun has => absurd has free.1, fun i part here has => ?_⟩
        exact absurd free.2 (both.1 part (List.mem_of_getElem? here) has)
    · next single =>
      have first : (hole ∈ segment → (classifySegment text :: classifyAll written)[0]? = some .param) ∧
          classifySegment segment ≠ .catchAll := by
        rcases literal with ⟨free, rfl⟩ | ⟨rfl, name, word, rfl⟩
        · exact ⟨fun has => absurd has free, single⟩
        · exact ⟨fun _ => by rw [classify_named word]; rfl, by decide +kernel⟩
      constructor
      · exact fun both => ⟨fun _ _ _ => first.2, both.2⟩
      · exact fun both => ⟨first.1, both.2⟩

end Segments

section Soundness

open UrlTemplate (hole splitOrigin fillSegments)

/-- The path of a client literal, in which a leading slash opens the path, as it does for the
reader of client literals. -/
def literalPath (literal : List Char) : List Char :=
  if literal.head? = some '/' then literal.takeWhile inPath else urlPath literal

/-- What the client literal of a template says about a URL of the template. -/
structure Reads (literal : String) (template : UrlTemplate) (values : List (List Char)) : Prop where
  count : (segmentsOf (urlPath (instantiate template.parts values).1)).length =
    (segmentsOf (literalPath literal.toList)).length
  admitted : admits (RouteShape.parse (String.ofList (literalPath literal.toList))).segments
    (segmentsOf (urlPath (instantiate template.parts values).1)) = true
  params : ∀ i : Nat, ∀ segment ∈
    (segmentsOf ((divideTemplate template.flatten).2.takeWhile inPath))[i]?, hole ∈ segment →
      (RouteShape.parse (String.ofList (literalPath literal.toList))).segments[i]? = some .param

def opensHost : List Char → Bool
  | '/' :: '/' :: c :: _ => c != '/'
  | _ => false

/-- The authority of the template, where a literal one is kept, has a scheme in front of it, and
no catch-all of the literal text stands before a runtime value. -/
@[mk_iff] structure Exact (text : List Char) : Prop where
  schemed : hole ∉ (divideTemplate text).1 → opensHost (text.takeWhile inPath) = false
  literal : (segmentsOf ((divideTemplate text).2.takeWhile inPath)).Pairwise fun before after =>
    hole ∈ after → classifySegment before ≠ .catchAll

instance (text : List Char) : Decidable (Exact text) := decidable_of_iff' _ (exact_iff text)

theorem splitOn_slash (text : List Char) : ('/' :: text).splitOn '/' = [] :: text.splitOn '/' := by
  rw [List.splitOn_cons_eq_if_modifyHead, if_pos (by decide)]

theorem segmentsOf_eq (text : List Char) : segmentsOf text = (text.splitOn '/').filter (· ≠ []) := by
  rw [List.splitOn_eq_splitOnP]
  rfl

theorem segmentsOf_join {parts : List (List Char)} (some : parts ≠ [])
    (clean : ∀ part ∈ parts, '/' ∉ part) :
    segmentsOf (['/'].intercalate parts) = parts.filter (· ≠ []) := by
  rw [segmentsOf_eq, List.splitOn_intercalate '/' clean some]

theorem parse_path {path : List Char} (clean : ∀ c ∈ path, inPath c = true) :
    (RouteShape.parse (String.ofList path)).segments = classifyAll (segmentsOf path) := by
  have whole : (path.takeWhile fun c => c ≠ '?' && c ≠ '#') = path := by
    rw [List.takeWhile_eq_self_iff]
    intro c mem
    simpa [inPath] using clean c mem
  rw [parse_segments, segmentTexts, String.toList_ofList, whole]
  rfl

theorem inPath_urlPath (url : List Char) : ∀ c ∈ urlPath url, inPath c = true := fun _ mem =>
  List.mem_takeWhile_imp mem

theorem clientLiteral_cases {template : UrlTemplate} {literal : String}
    (found : template.clientLiteral = some literal) :
    template.asLiteral = some literal ∨
    ∃ origin rest written, template.flatten = origin ++ rest ∧ Division origin rest ∧
      (rest.takeWhile inPath = [] ∨ ∃ path, rest.takeWhile inPath = '/' :: path) ∧
      List.Forall₂ Literal ((rest.takeWhile inPath).tail.splitOn '/') written ∧
      literal.toList = (if hole ∈ origin then [] else origin) ++ '/' :: ['/'].intercalate written := by
  unfold UrlTemplate.clientLiteral at found
  split at found
  · next whole same => exact .inl (same.trans found)
  · split at found
    · cases found
    · next origin rest split =>
      dsimp only at found
      rw [show (fun c : Char => c != '?' && c != '#') = inPath from rfl] at found
      split at found
      · cases found
      · next begins =>
        obtain ⟨filled, spec, rfl⟩ := Option.map_eq_some_iff.1 found
        have shape : rest.takeWhile inPath = [] ∨ ∃ path, rest.takeWhile inPath = '/' :: path := by
          by_cases empty : rest.takeWhile inPath = []
          · exact .inl empty
          · exact .inr (List.head?_eq_some_iff.1 (not_not.1 fun other => begins ⟨empty, other⟩))
        have ends : Ends rest := by
          intro c first
          obtain ⟨more, rfl⟩ := List.head?_eq_some_iff.1 first
          rw [List.takeWhile_cons] at shape
          by_cases inside : inPath c = true
          · rw [if_pos inside] at shape
            rcases shape with none | ⟨path, same⟩
            · cases none
            · rw [(List.cons.inj same).1]
              rfl
          · exact Bool.not_eq_true _ ▸ fun other => inside (inPath_of_confined other)
        obtain ⟨whole, division⟩ := splitOrigin_division split ends
        have kept : (if origin.contains hole then [] else origin) = if hole ∈ origin then [] else origin := by
          by_cases has : hole ∈ origin
          · rw [if_pos has, if_pos (List.contains_iff_mem.2 has)]
          · rw [if_neg has, if_neg (mt List.contains_iff_mem.1 has)]
        have pairs := fillSegments_spec spec
        rw [kept]
        rcases shape with none | ⟨path, same⟩
        · rw [none] at pairs ⊢
          refine .inr ⟨origin, rest, filled, whole, division, .inl none, ?_, ?_⟩
          · rwa [none]
          · simp
        · rw [same, splitOn_slash] at pairs
          cases pairs with
          | @cons _ first _ written literal pairs =>
            obtain rfl := (literal_nonempty _ _ literal).1 rfl
            have some : written ≠ [] := by
              rintro rfl
              exact List.splitOn_ne_nil '/' path (List.forall₂_nil_right_iff.1 pairs)
            refine .inr ⟨origin, rest, written, whole, division, .inr ⟨path, same⟩, ?_, ?_⟩
            · rwa [same]
            · rw [same, String.toList_ofList, List.intercalate_cons_of_ne_nil some]
              simp

variable {written : List (List Char)}

theorem noSlash_of_confined {part : List Char} (clean : Confined part) : '/' ∉ part := fun mem =>
  absurd (clean '/' mem) (by decide)

theorem confined_iff {c : Char} : confined c = true ↔ c ≠ '/' ∧ inPath c = true := by
  simp [confined, inPath]

theorem literalPath_slash (text : List Char) :
    literalPath ('/' :: text) = ('/' :: text).takeWhile inPath := if_pos rfl

theorem inPath_literalPath (literal : List Char) : ∀ c ∈ literalPath literal, inPath c = true := by
  unfold literalPath
  split
  · exact fun _ mem => List.mem_takeWhile_imp mem
  · exact inPath_urlPath literal

theorem ends_cases {rest : List Char} (ends : Ends rest) :
    rest.takeWhile inPath = [] ∨ ∃ more, rest.takeWhile inPath = '/' :: more := by
  cases rest with
  | nil => exact .inl rfl
  | cons c rest =>
    rcases eq_of_not_confined (ends c rfl) with rfl | rfl | rfl
    · exact .inr ⟨_, List.takeWhile_cons_of_pos (by decide)⟩
    · exact .inl (List.takeWhile_cons_of_neg (by decide))
    · exact .inl (List.takeWhile_cons_of_neg (by decide))

theorem segmentsOf_host {host path : List Char} (clean : Confined host) (some : host ≠ [])
    (shape : path = [] ∨ ∃ more, path = '/' :: more) :
    segmentsOf (host ++ path) = host :: segmentsOf path := by
  have apart := noSlash_of_confined clean
  rcases shape with rfl | ⟨more, rfl⟩
  · rw [List.append_nil, segmentsOf_eq, List.splitOn_eq_singleton apart]
    simp [some, segmentsOf]
  · have pieces : host ++ '/' :: more = ['/'].intercalate (host :: more.splitOn '/') := by
      rw [List.intercalate_cons_of_ne_nil (List.splitOn_ne_nil '/' more), List.intercalate_splitOn]
      simp
    rw [pieces, segmentsOf_eq, List.splitOn_intercalate '/' _ (List.cons_ne_nil _ _),
      Http.PathTemplate.segmentsOf_slash, segmentsOf_eq, List.filter_cons_of_pos (by simpa using some)]
    refine List.forall_mem_cons.2 ⟨apart, fun part mem slash => ?_⟩
    rw [List.splitOn_eq_splitOnP] at mem
    simpa using (mem_splitOnP mem '/' slash).2

theorem segmentsOf_literalPath (text : List Char) :
    if opensHost (text.takeWhile inPath) = true then
      (segmentsOf (literalPath text)).length = (segmentsOf (urlPath text)).length + 1
    else segmentsOf (literalPath text) = segmentsOf (urlPath text) := by
  cases text with
  | nil => rfl
  | cons first text =>
    by_cases slash : first = '/'
    · subst slash
      rw [literalPath_slash]
      by_cases double : text.head? = some '/'
      · obtain ⟨rest, rfl⟩ := List.head?_eq_some_iff.1 double
        have clean : Confined (rest.takeWhile confined) := fun _ mem => List.mem_takeWhile_imp mem
        have ends : Ends (rest.dropWhile confined) := by
          intro c here
          have kept := List.head?_dropWhile_not confined rest
          rw [Option.mem_def.1 here] at kept
          simpa using kept
        have whole : rest.takeWhile confined ++ rest.dropWhile confined = rest :=
          List.takeWhile_append_dropWhile
        have url : urlPath ('/' :: '/' :: rest) = (rest.dropWhile confined).takeWhile inPath := by
          conv => lhs; rw [← whole]
          exact congrArg (fun parts : List Char × List Char => parts.2.takeWhile inPath)
            (@divide_authority [] _ _ (fun c mem => absurd mem List.not_mem_nil) rfl clean ends)
        have path : ('/' :: '/' :: rest).takeWhile inPath = '/' :: '/' ::
            (rest.takeWhile confined ++ (rest.dropWhile confined).takeWhile inPath) := by
          conv => lhs; rw [← whole]
          rw [List.takeWhile_cons_of_pos (by decide), List.takeWhile_cons_of_pos (by decide),
            List.takeWhile_append_of_pos fun c mem => inPath_of_confined (clean c mem)]
        rw [url, path, Http.PathTemplate.segmentsOf_slash, Http.PathTemplate.segmentsOf_slash]
        have shape := ends_cases ends
        cases host : rest.takeWhile confined with
        | nil =>
          rw [List.nil_append, if_neg]
          rcases shape with none | ⟨more, some⟩
          · rw [none]
            decide
          · rw [some]
            simp [opensHost]
        | cons c host' =>
          rw [host] at clean
          have named : (c != '/') = true := by
            simpa using (confined_iff.1 (clean c List.mem_cons_self)).1
          rw [if_pos (by simpa [opensHost] using named), segmentsOf_host clean (by simp) shape]
          rfl
      · rw [urlPath, divide_path double, if_neg]
        rw [List.takeWhile_cons_of_pos (by decide)]
        cases text with
        | nil => decide
        | cons c text =>
          have other : c ≠ '/' := fun same => double (by rw [same]; rfl)
          rw [List.takeWhile_cons]
          split <;> simp [opensHost, other]
    · have path : literalPath (first :: text) = urlPath (first :: text) :=
        if_neg fun same => slash (Option.some.inj same)
      rw [path, if_neg]
      rw [List.takeWhile_cons]
      split <;> simp [opensHost, slash]

theorem confined_literals {path : List Char} (clean : ∀ c ∈ path, inPath c = true)
    (literals : List.Forall₂ Literal (path.splitOn '/') written) : ∀ part ∈ written, Confined part := by
  have segments : ∀ segment ∈ path.splitOn '/', Confined segment := by
    intro segment mem c among
    rw [List.splitOn_eq_splitOnP] at mem
    obtain ⟨inside, apart⟩ := mem_splitOnP mem c among
    exact confined_iff.2 ⟨by simpa using apart, clean c inside⟩
  generalize path.splitOn '/' = parts at literals segments
  induction literals with
  | nil => exact fun part mem => absurd mem List.not_mem_nil
  | cons literal literals ih =>
    obtain ⟨first, segments⟩ := List.forall_mem_cons.1 segments
    refine List.forall_mem_cons.2 ⟨?_, ih segments⟩
    rcases literal with ⟨-, rfl⟩ | ⟨-, name, word, rfl⟩
    · exact first
    · refine List.forall_mem_cons.2 ⟨rfl, List.forall_mem_append.2
        ⟨fun c mem => ?_, confined_of_all rfl⟩⟩
      cases here : confined c with
      | true => rfl
      | false =>
        rcases eq_of_not_confined here with rfl | rfl | rfl <;>
          exact absurd mem (word_apart word (by decide))

variable {origin rest : List Char} {values : List (List Char)}

theorem clean_tail (rest : List Char) : ∀ c ∈ (rest.takeWhile inPath).tail, inPath c = true :=
  fun _ mem => List.mem_takeWhile_imp (List.mem_of_mem_tail mem)

theorem segmentsOf_tail {path : List Char} (shape : path = [] ∨ ∃ more, path = '/' :: more) :
    segmentsOf path = (path.tail.splitOn '/').filter (· ≠ []) := by
  rcases shape with rfl | ⟨more, rfl⟩
  · rfl
  · rw [Http.PathTemplate.segmentsOf_slash, segmentsOf_eq]
    rfl

theorem stands_segments (division : Division origin rest)
    (shape : rest.takeWhile inPath = [] ∨ ∃ more, rest.takeWhile inPath = '/' :: more)
    (literals : List.Forall₂ Literal ((rest.takeWhile inPath).tail.splitOn '/') written)
    (admissible : Admissible (origin ++ rest) values) :
    List.Forall₂ Stands (segmentsOf (rest.takeWhile inPath))
      (segmentsOf (urlPath (fill (origin ++ rest) values))) := by
  have each : ∀ segment ∈ (rest.takeWhile inPath).tail.splitOn '/',
      '/' ∉ segment ∧ (hole ∉ segment ∨ segment = [hole]) := by
    intro segment mem
    constructor
    · intro slash
      rw [List.splitOn_eq_splitOnP] at mem
      simpa using (mem_splitOnP mem '/' slash).2
    · generalize (rest.takeWhile inPath).tail.splitOn '/' = parts at literals mem
      induction literals with
      | nil => cases mem
      | cons literal literals ih =>
        rcases List.mem_cons.1 mem with rfl | later
        · exact literal.imp And.left And.left
        · exact ih later
  have written := admissible.path
  rw [divideTemplate_of_division division] at written
  have enough : (rest.takeWhile inPath).tail.count hole ≤
      (values.drop (origin.count hole)).length := by
    rw [List.length_drop, admissible.count, List.count_append, Nat.add_sub_cancel_left]
    exact ((List.tail_sublist _).trans (List.takeWhile_sublist _)).count_le hole
  have stands := splitOn_fill (List.splitOn_ne_nil '/' _) each written
  rw [List.intercalate_splitOn] at stands
  rw [urlPath_fill division admissible, segmentsOf_tail shape]
  have same : segmentsOf (fill (rest.takeWhile inPath) (values.drop (origin.count hole))) =
      segmentsOf (fill (rest.takeWhile inPath).tail (values.drop (origin.count hole))) := by
    rcases shape with none | ⟨more, some⟩
    · rw [none]
      rfl
    · rw [some, fill_cons (by decide), Http.PathTemplate.segmentsOf_slash]
      rfl
  rw [same, segmentsOf_eq]
  exact forall₂_nonempty stands_nonempty (stands enough)

theorem opensHost_of_single {rest : List Char} (single : rest.head? ≠ some '/') :
    opensHost (('/' :: rest).takeWhile inPath) = false := by
  rw [List.takeWhile_cons_of_pos (by decide)]
  cases rest with
  | nil => rfl
  | cons c rest =>
    have other : c ≠ '/' := fun same => single (by rw [same]; rfl)
    rw [List.takeWhile_cons]
    split <;> simp [opensHost, other]

theorem segmentsOf_literal (division : Division origin rest)
    (literals : List.Forall₂ Literal ((rest.takeWhile inPath).tail.splitOn '/') written) :
    let segments := segmentsOf
      (literalPath ((if hole ∈ origin then [] else origin) ++ '/' :: ['/'].intercalate written))
    if hole ∉ origin ∧ opensHost ((origin ++ rest).takeWhile inPath) = true then
      segments.length = (written.filter (· ≠ [])).length + 1
    else segments = written.filter (· ≠ []) := by
  have clean := confined_literals (clean_tail rest) literals
  have some : written ≠ [] := by
    rintro rfl
    exact List.splitOn_ne_nil '/' _ (List.forall₂_nil_right_iff.1 literals)
  have path : ∀ c ∈ '/' :: ['/'].intercalate written, inPath c = true := by
    refine List.forall_mem_cons.2 ⟨rfl, fun c inside => ?_⟩
    rcases mem_intercalate inside with rfl | ⟨part, listed, among⟩
    · rfl
    · exact inPath_of_confined (clean part listed c among)
  have whole : segmentsOf ('/' :: ['/'].intercalate written) = written.filter (· ≠ []) := by
    rw [Http.PathTemplate.segmentsOf_slash,
      segmentsOf_join some fun part mem => noSlash_of_confined (clean part mem)]
  have bare : segmentsOf (literalPath ('/' :: ['/'].intercalate written)) = written.filter (· ≠ []) := by
    rw [literalPath_slash, List.takeWhile_eq_self_iff.2 path, whole]
  dsimp only
  by_cases has : hole ∈ origin
  · rw [if_pos has, List.nil_append, bare, if_neg fun both => both.1 has]
  · rw [if_neg has]
    cases division with
    | base rest => exact absurd List.mem_cons_self has
    | path rest single =>
      rw [List.nil_append, List.nil_append, bare, opensHost_of_single single, if_neg (by simp)]
    | authority scheme host rest clean' part clean'' ends =>
      have text : ∀ more, scheme ++ '/' :: '/' :: host ++ more = scheme ++ '/' :: '/' :: (host ++ more) := by
        simp
      have url : segmentsOf (urlPath (scheme ++ '/' :: '/' :: (host ++ '/' :: ['/'].intercalate written))) =
          written.filter (· ≠ []) := by
        rw [urlPath, divide_authority clean' part clean'' (ends_slash _),
          List.takeWhile_eq_self_iff.2 path, whole]
      have literal := segmentsOf_literalPath
        (scheme ++ '/' :: '/' :: (host ++ '/' :: ['/'].intercalate written))
      -- whether a host stands first is told by what comes before the path
      have opens : opensHost ((scheme ++ '/' :: '/' :: (host ++ '/' :: ['/'].intercalate written)).takeWhile
          inPath) = opensHost ((scheme ++ '/' :: '/' :: (host ++ rest)).takeWhile inPath) := by
        cases scheme with
        | cons c scheme =>
          have first : c ≠ '/' := (confined_iff.1 (clean' c List.mem_cons_self)).1
          rw [List.cons_append, List.cons_append, List.takeWhile_cons, List.takeWhile_cons]
          split <;> simp [opensHost, first]
        | nil =>
          simp only [List.nil_append, List.takeWhile_cons_of_pos (show inPath '/' = true from rfl)]
          cases host with
          | nil =>
            rw [List.nil_append, List.nil_append, List.takeWhile_cons_of_pos (by decide)]
            rcases ends_cases ends with none | ⟨more, some⟩
            · rw [none]
              rfl
            · rw [some]
              rfl
          | cons c host =>
            have inside := inPath_of_confined (clean'' c List.mem_cons_self)
            rw [List.cons_append, List.cons_append, List.takeWhile_cons_of_pos inside,
              List.takeWhile_cons_of_pos inside]
            rfl
      rw [url, opens] at literal
      rw [text, text]
      simpa [has] using literal

theorem exists_admissible (text : List Char) (within : (divideTemplate text).1.count hole ≤ text.count hole) :
    ∃ values, Admissible text values := by
  refine ⟨List.replicate ((divideTemplate text).1.count hole)
      (if (divideTemplate text).1 = [hole] then "//host".toList else ['v']) ++
    List.replicate (text.count hole - (divideTemplate text).1.count hole) ['v'], ?_, ?_, ?_⟩
  · rw [List.length_append, List.length_replicate, List.length_replicate]
    omega
  · rw [List.take_left' List.length_replicate]
    intro value mem
    rw [List.eq_of_mem_replicate mem]
    split
    · exact ⟨[], "host".toList, confined_of_all rfl, rfl, confined_of_all rfl, rfl⟩
    · exact confined_of_all rfl
  · rw [List.drop_left' List.length_replicate]
    intro value mem
    rw [List.eq_of_mem_replicate mem]
    exact written_of_all (by decide) (by decide)

theorem asLiteral_eq_some {template : UrlTemplate} {literal : String}
    (whole : template.asLiteral = some literal) (free : template.HoleFree) :
    template.flatten = literal.toList ∧ hole ∉ template.flatten := by
  obtain ⟨parts⟩ := template
  unfold UrlTemplate.asLiteral at whole
  split at whole
  · next none =>
    cases none
    cases whole
    exact ⟨rfl, List.not_mem_nil⟩
  · next value single =>
    cases single
    cases whole
    have same : UrlTemplate.flatten ⟨[.text literal]⟩ = literal.toList := by simp [UrlTemplate.flatten]
    exact ⟨same, same ▸ free literal List.mem_cons_self⟩
  · cases whole

theorem divideTemplate_append (text : List Char) :
    (divideTemplate text).1 ++ (divideTemplate text).2 = text := by
  unfold divideTemplate
  split
  · next begins =>
    obtain ⟨rest, rfl⟩ := List.isPrefixOf_iff_prefix.1 begins
    rfl
  · unfold divide
    dsimp only
    split
    · next both =>
      obtain ⟨rest, same⟩ := List.isPrefixOf_iff_prefix.1 (Bool.and_eq_true_iff.1 both).1
      rw [← same]
      calc text.takeWhile confined ++ '/' :: '/' :: rest.takeWhile confined ++ rest.dropWhile confined =
            text.takeWhile confined ++ (['/', '/'] ++ (rest.takeWhile confined ++ rest.dropWhile confined)) := by
              simp
        _ = text := by rw [List.takeWhile_append_dropWhile, same, List.takeWhile_append_dropWhile]
    · rfl

theorem segments_free {text : List Char} (free : hole ∉ text) :
    ∀ segment ∈ segmentsOf ((divideTemplate text).2.takeWhile inPath), hole ∉ segment := by
  intro segment mem has
  have inside := (mem_splitOnP (List.mem_of_mem_filter mem) hole has).1
  apply free
  rw [← divideTemplate_append text]
  exact List.mem_append_right _ ((List.takeWhile_sublist _).subset inside)

theorem exact_of_free {text : List Char} (free : hole ∉ text) :
    Exact text ↔ opensHost (text.takeWhile inPath) = false := by
  have outside : hole ∉ (divideTemplate text).1 := by
    intro has
    apply free
    rw [← divideTemplate_append text]
    exact List.mem_append_left _ has
  rw [exact_iff]
  refine ⟨fun both => both.1 outside, fun schemed => ⟨fun _ => schemed, ?_⟩⟩
  exact List.pairwise_of_forall_mem_list fun _ _ after mem has => absurd has (segments_free free after mem)

theorem reads_literal {template : UrlTemplate} {literal : String} (free : template.HoleFree)
    (whole : template.asLiteral = some literal) :
    (∀ values, Admissible template.flatten values → Reads literal template values) ↔
      Exact template.flatten := by
  obtain ⟨same, absent⟩ := asLiteral_eq_some whole free
  have url : ∀ values, (instantiate template.parts values).1 = literal.toList := by
    intro values
    rw [← fill_flatten free, fill_free absent, same]
  have segments := segmentsOf_literalPath literal.toList
  have parsed := parse_path (inPath_literalPath literal.toList)
  rw [exact_of_free absent, same]
  constructor
  · intro sound
    have within : (divideTemplate template.flatten).1.count hole ≤ template.flatten.count hole := by
      conv => rhs; rw [← divideTemplate_append template.flatten, List.count_append]
      exact Nat.le_add_right _ _
    obtain ⟨values, admissible⟩ := exists_admissible template.flatten within
    have count := (sound values (same ▸ admissible)).count
    rw [Bool.eq_false_iff]
    intro opens
    rw [if_pos opens] at segments
    rw [url] at count
    omega
  · intro closed values _
    rw [if_neg (by simp [closed])] at segments
    constructor
    · rw [url, segments]
    · rw [url, parsed, segments]
      refine admits_classifyAll ?_
      rw [List.forall₂_same]
      exact fun segment mem => segmentAdmits_classify (by simpa using (List.mem_filter.1 mem).2)
    · exact fun i segment here has =>
        absurd has (segments_free absent segment (List.mem_of_getElem? here))

theorem reads_iff {template : UrlTemplate} {literal : String} (free : template.HoleFree)
    (parts : template.flatten = origin ++ rest) (division : Division origin rest)
    (shape : rest.takeWhile inPath = [] ∨ ∃ path, rest.takeWhile inPath = '/' :: path)
    (literals : List.Forall₂ Literal ((rest.takeWhile inPath).tail.splitOn '/') written)
    (text : literal.toList = (if hole ∈ origin then [] else origin) ++ '/' :: ['/'].intercalate written) :
    (∀ values, Admissible template.flatten values → Reads literal template values) ↔
      Exact template.flatten := by
  have divided := divideTemplate_of_division division
  have parsed := parse_path (inPath_literalPath literal.toList)
  have segments := segmentsOf_literal division literals
  have pairs := forall₂_nonempty literal_nonempty literals
  rw [← text] at segments
  rw [← segmentsOf_tail shape] at pairs
  have stands : ∀ values, Admissible template.flatten values →
      List.Forall₂ Stands (segmentsOf (rest.takeWhile inPath))
        (segmentsOf (urlPath (instantiate template.parts values).1)) := by
    intro values admissible
    rw [← fill_flatten free, parts]
    rw [parts] at admissible
    exact stands_segments division shape literals admissible
  constructor
  · intro sound
    have within : (divideTemplate template.flatten).1.count hole ≤ template.flatten.count hole := by
      rw [parts, divided, List.count_append]
      exact Nat.le_add_right _ _
    obtain ⟨values, admissible⟩ := exists_admissible template.flatten within
    have reads := sound values admissible
    have schemed : ¬(hole ∉ origin ∧ opensHost ((origin ++ rest).takeWhile inPath) = true) := by
      intro opens
      rw [if_pos opens] at segments
      have count := reads.count
      rw [← (stands values admissible).length_eq, pairs.length_eq] at count
      omega
    rw [if_neg schemed] at segments
    have params := reads.params
    rw [parsed, segments, parts, divided] at params
    rw [exact_iff, parts, divided]
    refine ⟨fun has => ?_, (params_iff pairs).1 params⟩
    exact Bool.eq_false_iff.2 fun opens => schemed ⟨has, opens⟩
  · intro exact' values admissible
    rw [exact_iff, parts, divided] at exact'
    obtain ⟨schemed, literal'⟩ := exact'
    rw [if_neg fun opens => by simp [schemed opens.1] at opens] at segments
    have some : ∀ segment ∈ segmentsOf (rest.takeWhile inPath), segment ≠ [] := fun segment mem => by
      simpa using (List.mem_filter.1 mem).2
    obtain ⟨count, admitted⟩ := admits_forall₂ some pairs (stands values admissible)
    constructor
    · rw [segments, count]
    · rw [parsed, segments, admitted]
    · rw [parsed, segments, parts, divided]
      exact (params_iff pairs).2 literal'

def orderTemplate : UrlTemplate :=
  ⟨[.value (some "BASE_URL"), .text "/orders/", .parameter "order.id" 0, .text "/items?page=", .value none]⟩

def wildcardTemplate : UrlTemplate := ⟨[.text "/files/*/", .value (some "id")]⟩

/-- An authority without a scheme. -/
def schemelessTemplate : UrlTemplate := ⟨[.text "//cdn/", .value (some "id")]⟩

end Soundness

end CodeSystemGraph.Sources
