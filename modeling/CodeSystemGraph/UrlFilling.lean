import CodeSystemGraph.HttpPaths
import CodeSystemGraph.MixedSegments

/-!
URLs and their paths, flattened templates filled with runtime values, and the segments of a
route shape against the segments of a path. Binding the parameters of a template and filling
it is filling each parameter with what its argument stands for.
-/

namespace CodeSystemGraph.Sources
open Text Routes
open Http.PathTemplate (segmentsOf)

section Urls

def confined (c : Char) : Bool := !(['/', '?', '#'].contains c)

theorem eq_of_not_confined {c : Char} (ends : confined c = false) : c = '/' ∨ c = '?' ∨ c = '#' := by
  rw [confined, Bool.not_eq_false', List.contains_iff_mem] at ends
  simpa using ends

def isSchemePart (text : List Char) : Bool := text.getLast?.all (· == ':')

theorem isSchemePart_iff {text : List Char} :
    isSchemePart text = true ↔ text = [] ∨ text.getLast? = some ':' := by
  unfold isSchemePart
  cases last : text.getLast? with
  | none => simpa using last
  | some c =>
    have some : text ≠ [] := by
      rintro rfl
      cases last
    simp [some]

/-- The scheme and authority of a URL, and what follows. -/
def divide (url : List Char) : List Char × List Char :=
  let scheme := url.takeWhile confined
  let rest := url.dropWhile confined
  if ['/', '/'].isPrefixOf rest && isSchemePart scheme then
    (scheme ++ '/' :: '/' :: (rest.drop 2).takeWhile confined, (rest.drop 2).dropWhile confined)
  else ([], url)

def inPath (c : Char) : Bool := c != '?' && c != '#'

def urlPath (url : List Char) : List Char := (divide url).2.takeWhile inPath

example : urlPath "http://host:80/a/b?c".toList = "/a/b".toList := by decide +kernel
example : urlPath "//host/a#b".toList = "/a".toList := by decide +kernel
example : urlPath "/go?to=http://host/a".toList = "/go".toList := by decide +kernel

def Confined (text : List Char) : Prop := ∀ c ∈ text, confined c = true

theorem confined_of_all {text : List Char} (all : text.all confined = true) : Confined text :=
  List.all_eq_true.1 all

def Ends (rest : List Char) : Prop := ∀ c ∈ rest.head?, confined c = false

theorem inPath_of_confined {c : Char} (clean : confined c = true) : inPath c = true := by
  simp_all [confined, inPath]

theorem takeWhile_confined {text rest : List Char} (clean : Confined text) (ends : Ends rest) :
    (text ++ rest).takeWhile confined = text := by
  rw [List.takeWhile_append_of_pos clean]
  cases rest with
  | nil => simp
  | cons c rest => simp [ends c rfl]

theorem dropWhile_confined {text rest : List Char} (clean : Confined text) (ends : Ends rest) :
    (text ++ rest).dropWhile confined = rest := by
  rw [List.dropWhile_append_of_pos clean]
  cases rest with
  | nil => simp
  | cons c rest => simp [ends c rfl]

theorem ends_slash (rest : List Char) : Ends ('/' :: rest) := by
  intro c first
  rw [List.head?_cons, Option.mem_some_iff] at first
  rw [← first]
  rfl

theorem divide_authority {scheme authority rest : List Char} (clean : Confined scheme)
    (part : isSchemePart scheme = true) (clean' : Confined authority) (ends : Ends rest) :
    divide (scheme ++ '/' :: '/' :: (authority ++ rest)) =
      (scheme ++ '/' :: '/' :: authority, rest) := by
  have slashes := ends_slash ('/' :: (authority ++ rest))
  unfold divide
  simp only [takeWhile_confined clean slashes, dropWhile_confined clean slashes]
  have begins : ['/', '/'].isPrefixOf ('/' :: '/' :: (authority ++ rest)) = true :=
    List.isPrefixOf_iff_prefix.2 ⟨authority ++ rest, rfl⟩
  rw [if_pos (Bool.and_eq_true_iff.2 ⟨begins, part⟩), List.drop_succ_cons, List.drop_succ_cons,
    List.drop_zero, takeWhile_confined clean' ends, dropWhile_confined clean' ends]

theorem divide_path {rest : List Char} (single : rest.head? ≠ some '/') :
    divide ('/' :: rest) = ([], '/' :: rest) := by
  unfold divide
  rw [List.takeWhile_cons_of_neg (by decide), List.dropWhile_cons_of_neg (by decide), if_neg]
  intro both
  obtain ⟨more, same⟩ := List.isPrefixOf_iff_prefix.1 (Bool.and_eq_true_iff.1 both).1
  obtain rfl := (List.cons.inj same).2
  exact single rfl

end Urls

section Filling

def fill : List Char → List (List Char) → List Char
  | [], _ => []
  | c :: text, values =>
    if c = UrlTemplate.hole then values.headD [] ++ fill text values.tail else c :: fill text values

theorem fill_cons {c : Char} (literal : c ≠ UrlTemplate.hole) (text : List Char)
    (values : List (List Char)) : fill (c :: text) values = c :: fill text values := if_neg literal

theorem fill_append (text more : List Char) : ∀ values : List (List Char),
    fill (text ++ more) values =
      fill text values ++ fill more (values.drop (text.count UrlTemplate.hole)) := by
  induction text with
  | nil => simp [fill]
  | cons c text ih =>
    intro values
    rw [List.cons_append, fill, fill]
    by_cases here : c = UrlTemplate.hole
    · rw [if_pos here, if_pos here, ih, here, List.count_cons_self, List.append_assoc,
        List.drop_tail, Nat.add_comm]
    · rw [if_neg here, if_neg here, ih, List.count_cons_of_ne here, List.cons_append]

theorem fill_free {text : List Char} (free : UrlTemplate.hole ∉ text) (values : List (List Char)) :
    fill text values = text := by
  induction text with
  | nil => rfl
  | cons c text ih =>
    rw [List.mem_cons, not_or] at free
    rw [fill_cons (Ne.symm free.1), ih free.2]

theorem fill_hole (value : List Char) (values : List (List Char)) :
    fill [UrlTemplate.hole] (value :: values) = value := by simp [fill]

theorem fill_confined {text : List Char} (clean : Confined text) : ∀ {values : List (List Char)},
    (∀ value ∈ values.take (text.count UrlTemplate.hole), Confined value) →
      Confined (fill text values) := by
  induction text with
  | nil => exact fun _ c mem => absurd mem List.not_mem_nil
  | cons c text ih =>
    obtain ⟨first, clean⟩ := List.forall_mem_cons.1 clean
    intro values confined
    rw [fill]
    by_cases here : c = UrlTemplate.hole
    · rw [here, List.count_cons_self] at confined
      rw [if_pos here]
      cases values with
      | nil => exact ih clean (by simp)
      | cons value values =>
        rw [List.take_succ_cons] at confined
        obtain ⟨head, tail⟩ := List.forall_mem_cons.1 confined
        exact List.forall_mem_append.2 ⟨head, ih clean tail⟩
    · rw [List.count_cons_of_ne here] at confined
      rw [if_neg here]
      exact List.forall_mem_cons.2 ⟨first, ih clean confined⟩

/-- The text of parts with their runtime values in order, and the values that are left. -/
def instantiate : List UrlPart → List (List Char) → List Char × List (List Char)
  | [], values => ([], values)
  | .text value :: parts, values =>
    (value.toList ++ (instantiate parts values).1, (instantiate parts values).2)
  | .parameter _ _ :: parts, values =>
    (values.headD [] ++ (instantiate parts values.tail).1, (instantiate parts values.tail).2)
  | .value _ :: parts, values =>
    (values.headD [] ++ (instantiate parts values.tail).1, (instantiate parts values.tail).2)

def UrlTemplate.HoleFree (template : UrlTemplate) : Prop :=
  ∀ value : String, UrlPart.text value ∈ template.parts → UrlTemplate.hole ∉ value.toList

theorem fill_flatten {template : UrlTemplate} (free : template.HoleFree) :
    ∀ values, fill template.flatten values = (instantiate template.parts values).1 := by
  obtain ⟨parts⟩ := template
  induction parts with
  | nil => exact fun _ => rfl
  | cons part parts ih =>
    intro values
    have rest : UrlTemplate.HoleFree ⟨parts⟩ := fun value mem => free value (List.mem_cons_of_mem _ mem)
    change fill (_ ++ UrlTemplate.flatten ⟨parts⟩) values = _
    rw [fill_append]
    cases part with
    | text value =>
      have none := free value List.mem_cons_self
      rw [fill_free none, List.count_eq_zero_of_not_mem none, List.drop_zero, ih rest, instantiate]
    | parameter name index =>
      rw [List.count_singleton_self, List.drop_one, ih rest, instantiate]
      simp [fill]
    | value name =>
      rw [List.count_singleton_self, List.drop_one, ih rest, instantiate]
      simp [fill]

end Filling

section Binding

theorem instantiate_append (first second : List UrlPart) (values : List (List Char)) :
    instantiate (first ++ second) values =
      ((instantiate first values).1 ++ (instantiate second (instantiate first values).2).1,
        (instantiate second (instantiate first values).2).2) := by
  induction first generalizing values with
  | nil => rfl
  | cons part first ih => cases part <;> simp [instantiate, ih]

theorem instantiate_push (template : UrlTemplate) (part : UrlPart) :
    instantiate (template.push part).parts = instantiate (template.parts ++ [part]) := by
  funext values
  cases part with
  | parameter name index => rfl
  | value name => rfl
  | text value =>
    rw [UrlTemplate.push, UrlTemplate.pushText]
    split
    · next empty => simp [instantiate_append, instantiate, empty]
    · split
      · next last found =>
        obtain ⟨before, parts⟩ := List.getLast?_eq_some_iff.1 found
        rw [parts, List.dropLast_concat]
        simp [instantiate_append, instantiate]
      · rfl

theorem instantiate_extend (template other : UrlTemplate) :
    instantiate (template.extend other).parts = instantiate (template.parts ++ other.parts) := by
  obtain ⟨parts⟩ := other
  unfold UrlTemplate.extend
  induction parts generalizing template with
  | nil => simp
  | cons part parts ih =>
    rw [List.foldl_cons, ih]
    funext values
    rw [instantiate_append, instantiate_push, ← instantiate_append, List.append_assoc,
      List.singleton_append]

def instantiateBound (arguments : BoundArguments) :
    List UrlPart → List (List Char) → List Char × List (List Char)
  | [], values => ([], values)
  | part :: parts, values =>
    let (piece, left) :=
      match part with
      | .parameter name index =>
        match (arguments.byName[name]?).or (arguments.byIndex[index]?) with
        | some argument => instantiate argument.parts values
        | none => (values.headD [], values.tail)
      | .text value => (value.toList, values)
      | .value _ => (values.headD [], values.tail)
    (piece ++ (instantiateBound arguments parts left).1, (instantiateBound arguments parts left).2)

theorem instantiate_foldl {arguments : BoundArguments} {step : UrlTemplate → UrlPart → UrlTemplate}
    (single : ∀ bound part values, instantiate (step bound part).parts values =
      ((instantiate bound.parts values).1 ++
          (instantiateBound arguments [part] (instantiate bound.parts values).2).1,
        (instantiateBound arguments [part] (instantiate bound.parts values).2).2))
    (parts : List UrlPart) (bound : UrlTemplate) (values : List (List Char)) :
    instantiate (parts.foldl step bound).parts values =
      ((instantiate bound.parts values).1 ++
          (instantiateBound arguments parts (instantiate bound.parts values).2).1,
        (instantiateBound arguments parts (instantiate bound.parts values).2).2) := by
  induction parts generalizing bound with
  | nil => simp [instantiateBound]
  | cons part parts ih =>
    rw [List.foldl_cons, ih, single]
    simp [instantiateBound]

theorem instantiate_bind (template : UrlTemplate) (arguments : BoundArguments) :
    instantiate (template.bind arguments).parts = instantiateBound arguments template.parts := by
  funext values
  unfold UrlTemplate.bind
  refine instantiate_foldl (fun bound part values => ?_) template.parts {} values
  cases part with
  | text value => simp [instantiate_push, instantiate_append, instantiate, instantiateBound]
  | value name => simp [instantiate_push, instantiate_append, instantiate, instantiateBound]
  | parameter name index =>
    cases argument : (arguments.byName[name]?).or (arguments.byIndex[index]?) with
    | some argument => simp [instantiate_extend, instantiate_append, instantiateBound, argument]
    | none =>
      simp [instantiate_push, instantiate_append, instantiate, instantiateBound, argument]

end Binding

section Matching

/-- A segment of a shape against the text of a path. -/
def segmentAdmits (value : List Char) : RouteSegment → Bool
  | .static text => String.ofList value = text
  | .param => !value.isEmpty
  | .mixed literals => mixedSegmentMatches literals (String.ofList value)
  | .catchAll => true

def admits : List RouteSegment → List (List Char) → Bool
  | [], [] => true
  | .catchAll :: _, _ :: _ => true
  | segment :: shape, value :: path => segmentAdmits value segment && admits shape path
  | _, _ => false

theorem filled_assemble (last : List Char) : ∀ (pieces : List (List Char × List Char))
    (before name : List Char), ∃ values : List String, values.length = pieces.length + 1 ∧
      (∀ value ∈ values, value ≠ "") ∧
      String.ofList (assemble ((before, name) :: pieces) last) =
        filled (String.ofList (stripSigil before))
          (pieces.map (fun piece => String.ofList (stripSigil piece.1)) ++ [String.ofList last]) values := by
  intro pieces
  induction pieces with
  | nil =>
    intro before name
    obtain ⟨sigil, same⟩ := stripSigil_isPrefix before
    refine ⟨[String.ofList (sigil ++ '{' :: (name ++ ['}']))], rfl, ?_, ?_⟩
    · rw [List.forall_mem_singleton]
      exact fun empty => by simpa using congrArg String.toList empty
    · rw [← String.toList_inj, assemble_cons]
      generalize stripSigil before = kept at same ⊢
      rw [← same]
      simp [filled, assemble]
  | cons piece pieces ih =>
    intro before name
    obtain ⟨before', name'⟩ := piece
    obtain ⟨values, count, some, rest⟩ := ih before' name'
    obtain ⟨sigil, same⟩ := stripSigil_isPrefix before
    refine ⟨String.ofList (sigil ++ '{' :: (name ++ ['}'])) :: values, by simp [count], ?_, ?_⟩
    · exact List.forall_mem_cons.2 ⟨fun empty => by simpa using congrArg String.toList empty, some⟩
    · rw [List.map_cons, List.cons_append, filled_cons, ← rest, ← String.toList_inj, assemble_cons]
      generalize stripSigil before = kept at same ⊢
      rw [← same]
      simp

theorem segmentAdmits_classify {segment : List Char} (some : segment ≠ []) :
    segmentAdmits segment (classifySegment segment) = true := by
  rcases classifySegment_cases segment with caught | param | static | ⟨literals, -, found, -, mixed⟩
  · rw [caught]
    rfl
  · rw [param, segmentAdmits]
    simpa using some
  · rw [static, segmentAdmits]
    exact decide_eq_true rfl
  · rw [mixed, segmentAdmits]
    obtain ⟨pieces, last, rfl, -, -, opened, rfl⟩ := exists_pieces segment.length le_rfl found
    cases pieces with
    | nil => exact absurd rfl (opened.resolve_left (not_not_intro rfl))
    | cons piece pieces =>
      obtain ⟨before, name⟩ := piece
      obtain ⟨values, count, nonempty, same⟩ := filled_assemble last pieces before name
      rw [same]
      cases pieces with
      | nil => exact (mixedSegmentMatches_iff _ _ _ _).2 ⟨values, by simpa using count, nonempty, rfl⟩
      | cons next pieces =>
        exact (mixedSegmentMatches_iff _ _ _ _).2 ⟨values, by simpa using count, nonempty, rfl⟩

theorem admits_cons {segment : RouteSegment} (single : segment ≠ .catchAll)
    {shape : List RouteSegment} {value : List Char} {path : List (List Char)} :
    admits (segment :: shape) (value :: path) = (segmentAdmits value segment && admits shape path) := by
  cases segment <;> simp_all [admits]

theorem admits_classifyAll {segments path : List (List Char)}
    (pairs : List.Forall₂ (fun segment value => segmentAdmits value (classifySegment segment) = true)
      segments path) : admits (classifyAll segments) path = true := by
  induction pairs with
  | nil => rfl
  | @cons segment value segments path here _ ih =>
    rw [classifyAll]
    split
    · rfl
    · next single => rw [admits_cons single, ih, here, Bool.and_self]

end Matching

end CodeSystemGraph.Sources
