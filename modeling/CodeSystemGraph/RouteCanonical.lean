import CodeSystemGraph.RouteShape
import Mathlib.Data.List.TakeWhile

/-! The identity form of a route, and what reading it again gives. A template with literals
loses its parameter names when it is rendered, and a `$` before each parameter when it is read. -/

namespace CodeSystemGraph.Routes
open Text

def renderSegment : RouteSegment → List Char
  | .static value => value.toList
  | .param => "{}".toList
  | .mixed literals => List.intercalate "{}".toList (literals.map String.toList)
  | .catchAll => "{*}".toList

/-- Parameters become `{}` and catch-alls become `{*}`. -/
def RouteShape.canonical (shape : RouteShape) : String :=
  if shape.segments.isEmpty then "/"
  else String.ofList (shape.segments.flatMap fun segment => '/' :: renderSegment segment)

def canonicalRoute (path : String) : String := (RouteShape.parse path).canonical

example : canonicalRoute "/a/x{n}.json/${id}/*rest" = "/a/x{}.json/{}/{*}" := by decide +kernel

section Literals

def stripSigil (text : List Char) : List Char := (stripSuffix ['$'] text).getD text

def assemble (pieces : List (List Char × List Char)) (last : List Char) : List Char :=
  pieces.flatMap (fun piece => piece.1 ++ '{' :: (piece.2 ++ ['}'])) ++ last

def Unbraced (text : List Char) : Prop := '{' ∉ text ∧ '}' ∉ text

theorem assemble_cons (before name : List Char) (pieces : List (List Char × List Char))
    (last : List Char) :
    assemble ((before, name) :: pieces) last =
      before ++ '{' :: (name ++ '}' :: assemble pieces last) := by
  simp [assemble]

theorem mixedLiteralsFrom_assemble {pieces : List (List Char × List Char)} {last : List Char}
    (free : ∀ piece ∈ pieces, Unbraced piece.1 ∧ Unbraced piece.2) (end' : Unbraced last) :
    ∀ {literals : List String}, literals ≠ [] ∨ pieces ≠ [] →
      mixedLiteralsFrom literals (assemble pieces last) =
        some (literals ++ pieces.map (fun piece => String.ofList (stripSigil piece.1)) ++
          [String.ofList last]) := by
  induction pieces with
  | nil =>
    intro literals some
    have some : literals ≠ [] := by simpa using some
    rw [assemble, List.flatMap_nil, List.nil_append,
      mixedLiteralsFrom_last (splitOnce_of_not_mem end'.1)]
    simp [some, end'.2]
  | cons piece pieces ih =>
    intro literals _
    obtain ⟨before, name⟩ := piece
    obtain ⟨⟨before', name'⟩, free⟩ := List.forall_mem_cons.1 free
    rw [assemble_cons, mixedLiteralsFrom_next (splitOnce_append before'.1 _)
      (splitOnce_append name'.2 _), if_neg (by simp [name'.1, before'.2]), ih free (by simp)]
    simp [stripSigil]

theorem exists_pieces : ∀ (size : Nat) {text : List Char} {literals result : List String},
    text.length ≤ size → mixedLiteralsFrom literals text = some result →
      ∃ pieces last, text = assemble pieces last ∧
        (∀ piece ∈ pieces, Unbraced piece.1 ∧ Unbraced piece.2) ∧ Unbraced last ∧
        (literals ≠ [] ∨ pieces ≠ []) ∧
        result = literals ++ pieces.map (fun piece => String.ofList (stripSigil piece.1)) ++
          [String.ofList last] := by
  intro size
  induction size with
  | zero =>
    intro text literals result short h
    obtain rfl : text = [] := List.length_eq_zero_iff.1 (Nat.le_zero.1 short)
    rw [mixedLiteralsFrom_last (splitOnce_of_not_mem List.not_mem_nil)] at h
    split at h
    · cases h
    · next some =>
      cases h
      refine ⟨[], [], rfl, by simp, ⟨List.not_mem_nil, List.not_mem_nil⟩, .inl ?_, by simp⟩
      simpa using some
  | succ size ih =>
    intro text literals result short h
    cases outer : splitOnce '{' text with
    | mk before parameter =>
      cases parameter with
      | none =>
        rw [mixedLiteralsFrom_last outer] at h
        split at h
        · cases h
        · next some =>
          cases h
          simp only [Bool.or_eq_true, not_or, List.isEmpty_iff, List.contains_iff_mem] at some
          exact ⟨[], text, rfl, by simp, ⟨splitOnce_eq_none outer, some.2⟩, .inl some.1, by simp⟩
      | some parameter =>
        obtain ⟨text', before'⟩ := splitOnce_eq_some outer
        cases inner : splitOnce '}' parameter with
        | mk name after =>
          cases after with
          | none =>
            rw [mixedLiteralsFrom_open outer inner] at h
            cases h
          | some after =>
            obtain ⟨parameter', name'⟩ := splitOnce_eq_some inner
            rw [mixedLiteralsFrom_next outer inner] at h
            split at h
            · cases h
            · next free =>
              simp only [Bool.or_eq_true, not_or, List.contains_iff_mem] at free
              have shorter : after.length ≤ size := by
                have := splitOnce_length outer
                have := splitOnce_length inner
                omega
              obtain ⟨pieces, last, rfl, unbraced, end', -, rfl⟩ := ih shorter h
              refine ⟨(before, name) :: pieces, last, ?_, ?_, end', .inr (by simp), by simp [stripSigil]⟩
              · rw [text', parameter', assemble_cons]
              · exact List.forall_mem_cons.2 ⟨⟨⟨before', free.2⟩, ⟨free.1, name'⟩⟩, unbraced⟩

theorem render_mixed (pieces : List (List Char × List Char)) (last : List Char) :
    renderSegment (.mixed (pieces.map (fun piece => String.ofList (stripSigil piece.1)) ++
      [String.ofList last])) = assemble (pieces.map fun piece => (stripSigil piece.1, [])) last := by
  induction pieces with
  | nil => simp [renderSegment, assemble]
  | cons piece pieces ih =>
    rw [List.map_cons, List.map_cons, assemble_cons, ← ih]
    cases pieces with
    | nil => simp [renderSegment]
    | cons next pieces => simp [renderSegment]

theorem stripSigil_concat (text : List Char) : stripSigil (text ++ ['$']) = text := by
  have ends : ['$'].isSuffixOf (text ++ ['$']) = true := by
    rw [List.isSuffixOf_iff_suffix]
    exact List.suffix_append _ _
  simp [stripSigil, stripSuffix, ends]

theorem stripSigil_of_not_suffix {text : List Char} (free : ¬['$'] <:+ text) :
    stripSigil text = text := by
  have ends : ['$'].isSuffixOf text = false := by
    rw [← Bool.not_eq_true, List.isSuffixOf_iff_suffix]
    exact free
  simp [stripSigil, stripSuffix, ends]

theorem stripSigil_isPrefix (text : List Char) : stripSigil text <+: text := by
  by_cases ends : ['$'] <:+ text
  · obtain ⟨rest, rfl⟩ := ends
    rw [stripSigil_concat]
    exact List.prefix_append _ _
  · exact ⟨[], by rw [stripSigil_of_not_suffix ends, List.append_nil]⟩

theorem stripSigil_twice {text : List Char} :
    stripSigil (stripSigil text) = stripSigil text ↔ ¬['$', '$'] <:+ text := by
  by_cases ends : ['$'] <:+ text
  · obtain ⟨rest, rfl⟩ := ends
    rw [stripSigil_concat]
    by_cases again : ['$'] <:+ rest
    · obtain ⟨rest, rfl⟩ := again
      rw [stripSigil_concat]
      simp
    · rw [stripSigil_of_not_suffix again]
      simp only [true_iff]
      rintro ⟨init, same⟩
      refine again ⟨init, ?_⟩
      have same : (init ++ ['$']) ++ ['$'] = rest ++ ['$'] := by simpa using same
      exact List.append_cancel_right same
  · rw [stripSigil_of_not_suffix ends, stripSigil_of_not_suffix ends]
    simp only [true_iff]
    rintro ⟨init, rfl⟩
    exact ends ⟨init ++ ['$'], by simp⟩

theorem doubled_iff {pieces : List (List Char × List Char)} {last : List Char}
    (free : ∀ piece ∈ pieces, Unbraced piece.1 ∧ Unbraced piece.2) (end' : Unbraced last) :
    ['$', '$', '{'] <:+: assemble pieces last ↔ ∃ piece ∈ pieces, ['$', '$'] <:+ piece.1 := by
  induction pieces with
  | nil =>
    simp only [List.not_mem_nil, false_and, exists_false, iff_false]
    intro inside
    exact end'.1 (inside.subset (by simp))
  | cons piece pieces ih =>
    obtain ⟨before, name⟩ := piece
    obtain ⟨⟨before', name'⟩, free⟩ := List.forall_mem_cons.1 free
    rw [assemble_cons, List.exists_mem_cons_iff, ← ih free]
    constructor
    · rintro ⟨left, right, same⟩
      have same : (left ++ ['$', '$']) ++ '{' :: right =
          before ++ '{' :: (name ++ '}' :: assemble pieces last) := by simpa using same
      by_cases first : '{' ∈ left
      · -- the brace of the doubled sigil is not the first one, so it stands after the name
        right
        obtain ⟨start, middle, rfl, clean⟩ := List.eq_append_cons_of_mem first
        have same : start ++ '{' :: ((middle ++ ['$', '$']) ++ '{' :: right) =
            before ++ '{' :: (name ++ '}' :: assemble pieces last) := by
          simpa using same
        obtain ⟨-, same⟩ := append_cons_inj clean before'.1 same
        cases List.append_eq_append_iff.1 same with
        | inl inName =>
          obtain ⟨between, within, tail⟩ := inName
          cases between with
          | nil => simp at tail
          | cons c between =>
            rw [List.cons_append] at tail
            obtain ⟨rfl, -⟩ := List.cons.inj tail
            exact absurd (by simp [within]) name'.1
        | inr later =>
          obtain ⟨between, ends, tail⟩ := later
          cases between with
          | nil => simp at tail
          | cons c between =>
            rw [List.cons_append] at tail
            obtain ⟨rfl, rest⟩ := List.cons.inj tail
            have inside : ['$', '$'] <:+ between :=
              suffix_of_free (by decide) (ends ▸ List.suffix_append middle ['$', '$'])
            obtain ⟨init, rfl⟩ := inside
            exact ⟨init, right, by simp [rest]⟩
      · left
        have clean : '{' ∉ left ++ ['$', '$'] := by simp [first]
        exact ⟨left, (append_cons_inj clean before'.1 same).1⟩
    · rintro (⟨init, rfl⟩ | ⟨left, right, same⟩)
      · exact ⟨init, name ++ '}' :: assemble pieces last, by simp⟩
      · exact ⟨before ++ '{' :: (name ++ '}' :: left), right, by simp [← same]⟩

end Literals

section Classification

/-- No parameter or catch-all syntax of the whole segment applies. -/
structure Plain (segment : List Char) : Prop where
  star : ¬(segment = "*".toList ∨ segment = "**".toList)
  braces : braced segment = none
  spread : ((startsWith segment "[..." && endsWith segment "]") ||
    (startsWith segment "[[..." && endsWith segment "]]")) = false
  square : (2 < segment.length && startsWith segment "[" && endsWith segment "]") = false
  angle : between '<' '>' segment = none
  colon : (stripPrefix [':'] segment).filter (· ≠ []) = none
  glob : (1 < segment.length && startsWith segment "*") = false

theorem classifySegment_of_plain {segment : List Char} (plain : Plain segment)
    {literals : List String} (found : mixedSegmentLiterals segment = some literals) :
    classifySegment segment = if literals = ["", ""] then .param else .mixed literals := by
  rw [classifySegment, if_neg plain.star, plain.braces]
  simp only [plain.spread, plain.square, plain.angle, plain.colon, plain.glob, found,
    Bool.false_eq_true, if_false]

theorem classifySegment_cases (segment : List Char) :
    classifySegment segment = .catchAll ∨ classifySegment segment = .param ∨
      classifySegment segment = .static (String.ofList segment) ∨
      ∃ literals, Plain segment ∧ mixedSegmentLiterals segment = some literals ∧
        literals ≠ ["", ""] ∧ classifySegment segment = .mixed literals := by
  by_cases star : segment = "*".toList ∨ segment = "**".toList
  · exact .inl (by rw [classifySegment, if_pos star])
  have start : classifySegment segment = classifySegment segment := rfl
  conv_rhs at start => rw [classifySegment, if_neg star]
  cases braces : braced segment with
  | some inner =>
    simp only [braces] at start
    split at start <;> simp [start]
  | none =>
    simp only [braces] at start
    split at start
    · exact .inl start
    · next spread =>
      split at start
      · exact .inr (.inl start)
      · next square =>
        cases angle : between '<' '>' segment with
        | some inner =>
          simp only [angle] at start
          split at start <;> simp [start]
        | none =>
          simp only [angle] at start
          cases colon : (stripPrefix [':'] segment).filter (· ≠ []) with
          | some name =>
            simp only [colon] at start
            split at start <;> simp [start]
          | none =>
            simp only [colon] at start
            split at start
            · exact .inl start
            · next glob =>
              cases found : mixedSegmentLiterals segment with
              | none =>
                simp only [found] at start
                exact .inr (.inr (.inl start))
              | some literals =>
                simp only [found] at start
                split at start
                · exact .inr (.inl start)
                · next other =>
                  refine .inr (.inr (.inr ⟨literals, ?_, rfl, other, start⟩))
                  exact ⟨star, braces, by simpa using spread, by simpa using square, angle, colon,
                    by simpa using glob⟩

theorem startsWith_iff {text : List Char} {head : String} :
    startsWith text head = true ↔ head.toList <+: text :=
  List.isPrefixOf_iff_prefix

theorem endsWith_iff {text : List Char} {tail : String} :
    endsWith text tail = true ↔ tail.toList <:+ text :=
  List.isSuffixOf_iff_suffix

theorem between_eq_some {opening closing : Char} {text inner : List Char} :
    between opening closing text = some inner ↔ text = opening :: (inner ++ [closing]) := by
  unfold between stripPrefix
  constructor
  · intro found
    by_cases begins : [opening].isPrefixOf text = true
    · obtain ⟨rest, rfl⟩ := List.isPrefixOf_iff_prefix.1 begins
      rw [if_pos begins] at found
      simp only [List.singleton_append, List.length_singleton, List.drop_succ_cons, List.drop_zero,
        Option.bind_some, stripSuffix] at found
      by_cases finishes : [closing].isSuffixOf rest = true
      · obtain ⟨init, rfl⟩ := List.isSuffixOf_iff_suffix.1 finishes
        rw [if_pos finishes] at found
        simpa using found
      · rw [if_neg finishes] at found
        cases found
    · rw [if_neg begins] at found
      cases found
  · rintro rfl
    have finishes : [closing].isSuffixOf (inner ++ [closing]) = true :=
      List.isSuffixOf_iff_suffix.2 (List.suffix_append _ _)
    simp [stripSuffix, finishes]

variable {pieces : List (List Char × List Char)} {last : List Char}

theorem assemble_closes (some : pieces ≠ []) :
    ∃ front, assemble pieces last = front ++ '}' :: last := by
  obtain ⟨init, piece, rfl⟩ := List.eq_nil_or_concat pieces |>.resolve_left some
  exact ⟨init.flatMap (fun piece => piece.1 ++ '{' :: (piece.2 ++ ['}'])) ++ piece.1 ++
    '{' :: piece.2, by simp [assemble]⟩

theorem Plain.render (plain : Plain (assemble pieces last)) (some : pieces ≠ [])
    (free : ∀ piece ∈ pieces, Unbraced piece.1 ∧ Unbraced piece.2) (end' : Unbraced last)
    (other : pieces.map (fun piece => String.ofList (stripSigil piece.1)) ++ [String.ofList last] ≠
      ["", ""]) :
    Plain (assemble (pieces.map fun piece => (stripSigil piece.1, [])) last) := by
  have closes : ∃ front, assemble pieces last = front ++ '}' :: last := assemble_closes some
  have closes' : ∃ front,
      assemble (pieces.map fun piece => (stripSigil piece.1, [])) last = front ++ '}' :: last :=
    assemble_closes (by simpa using some)
  obtain ⟨front, closes⟩ := closes
  obtain ⟨front', closes'⟩ := closes'
  obtain ⟨⟨before, name⟩, pieces, rfl⟩ := List.exists_cons_of_ne_nil some
  have opens := assemble_cons before name pieces last
  have opens' : assemble (((before, name) :: pieces).map fun piece => (stripSigil piece.1, [])) last =
      stripSigil before ++ '{' :: ([] ++ '}' :: assemble (pieces.map _) last) := assemble_cons ..
  generalize assemble ((before, name) :: pieces) last = part at plain closes opens
  generalize rendered : assemble (((before, name) :: pieces).map fun piece =>
    (stripSigil piece.1, [])) last = text at closes' opens' ⊢
  have begins : ∀ head : List Char, '{' ∉ head → head <+: text → head <+: part := by
    intro head clean prefixed
    rw [opens'] at prefixed
    rw [opens]
    exact ((prefix_of_free clean prefixed).trans (stripSigil_isPrefix before)).trans
      (List.prefix_append _ _)
  have finishes : ∀ tail : List Char, '}' ∉ tail → tail <:+ text → tail <:+ part := by
    intro tail clean suffixed
    rw [closes'] at suffixed
    rw [closes]
    exact (suffix_of_free clean suffixed).trans
      ((List.suffix_cons _ _).trans (List.suffix_append _ _))
  have opened : '{' ∈ text := by simp [opens']
  have long : ∀ c, c ≠ '{' → [c] <+: part → ∃ rest, part = c :: rest ∧ 2 ≤ rest.length := by
    intro c differ prefixed
    obtain ⟨rest, same⟩ := prefixed
    refine ⟨rest, same.symm, ?_⟩
    have first : [c] <+: part := ⟨rest, same⟩
    rw [opens] at first
    have first := prefix_of_free (by simpa using differ.symm) first
    have lengths := congrArg List.length (same.trans opens)
    have := first.length_le
    simp only [List.length_append, List.length_cons, List.length_nil] at lengths this
    omega
  constructor
  case star =>
    rintro (same | same) <;>
    · rw [same] at opened
      revert opened
      decide
  case braces =>
    rw [braced, Option.filter_eq_none_iff]
    intro inner found clean
    simp only [Bool.and_eq_true, Bool.not_eq_true', List.contains_eq_mem, decide_eq_false_iff_not]
      at clean
    -- one parameter and nothing else would be a parameter, not literals
    have same : stripSigil before ++ '{' :: _ = [] ++ '{' :: (inner ++ ['}']) :=
      opens'.symm.trans (between_eq_some.1 found)
    obtain ⟨nothing, same⟩ := append_cons_inj
      (fun mem => (free _ (List.mem_cons_self ..)).1.1 ((stripSigil_isPrefix before).subset mem))
      List.not_mem_nil same
    cases inner with
    | cons c inner =>
      rw [List.cons_append] at same
      exact clean.2 (by simp [← (List.cons.inj same).1])
    | nil =>
      have rest : assemble (pieces.map fun piece => (stripSigil piece.1, [])) last = [] := by
        simpa using same
      cases pieces with
      | cons piece pieces => simp [assemble] at rest
      | nil =>
        obtain rfl : last = [] := by simpa [assemble] using rest
        exact other (by simp [nothing])
  case spread =>
    rw [← Bool.not_eq_true]
    intro matched
    have spread := plain.spread
    simp only [Bool.or_eq_true, Bool.and_eq_true, startsWith_iff, endsWith_iff] at matched
    rw [← Bool.not_eq_true] at spread
    simp only [Bool.or_eq_true, Bool.and_eq_true, startsWith_iff, endsWith_iff] at spread
    refine spread (matched.imp (fun two => ?_) fun two => ?_)
    · exact ⟨begins _ (by decide) two.1, finishes _ (by decide) two.2⟩
    · exact ⟨begins _ (by decide) two.1, finishes _ (by decide) two.2⟩
  case square =>
    rw [← Bool.not_eq_true]
    intro matched
    have square := plain.square
    simp only [Bool.and_eq_true, startsWith_iff, endsWith_iff] at matched
    rw [← Bool.not_eq_true] at square
    simp only [Bool.and_eq_true, startsWith_iff, endsWith_iff, decide_eq_true_eq] at square
    have first := begins _ (by decide) matched.1.2
    obtain ⟨rest, same, two⟩ := long '[' (by decide) first
    refine square ⟨⟨?_, first⟩, finishes _ (by decide) matched.2⟩
    rw [same, List.length_cons]
    omega
  case angle =>
    rw [Option.eq_none_iff_forall_ne_some]
    intro inner found
    have same := between_eq_some.1 found
    obtain ⟨rest, part', two⟩ := long '<' (by decide)
      (begins ['<'] (by decide) ⟨_, same.symm⟩)
    have tail : ['>'] <:+ '<' :: rest :=
      part' ▸ finishes ['>'] (by decide) ⟨'<' :: inner, by simp [same]⟩
    cases List.suffix_cons_iff.1 tail with
    | inl whole => simp at whole
    | inr tail =>
      obtain ⟨inner, rfl⟩ := tail
      have angle := plain.angle
      rw [between_eq_some.2 part'] at angle
      cases angle
  case colon =>
    have absent : ¬[':'] <+: text := by
      intro prefixed
      obtain ⟨rest, part', two⟩ := long ':' (by decide) (begins [':'] (by decide) prefixed)
      have colon := plain.colon
      have nonempty : rest ≠ [] := by
        rintro rfl
        simp at two
      rw [part'] at colon
      simp [stripPrefix, List.isPrefixOf, nonempty] at colon
    rw [← List.isPrefixOf_iff_prefix] at absent
    simp [stripPrefix, absent]
  case glob =>
    rw [← Bool.not_eq_true]
    intro matched
    simp only [Bool.and_eq_true, startsWith_iff] at matched
    have first := begins _ (by decide) matched.2
    obtain ⟨rest, same, two⟩ := long '*' (by decide) first
    have glob := plain.glob
    rw [← Bool.not_eq_true] at glob
    simp only [Bool.and_eq_true, startsWith_iff, decide_eq_true_eq] at glob
    refine glob ⟨?_, first⟩
    rw [same, List.length_cons]
    omega

theorem classify_render_iff (part : List Char) :
    classifySegment (renderSegment (classifySegment part)) = classifySegment part ↔
      ¬((∃ literals, classifySegment part = .mixed literals) ∧ ['$', '$', '{'] <:+: part) := by
  obtain class' | class' | class' | ⟨literals, plain, found, other, class'⟩ :=
    classifySegment_cases part
  · simp only [class', reduceCtorEq, exists_false, false_and, not_false_eq_true, iff_true]
    decide
  · simp only [class', reduceCtorEq, exists_false, false_and, not_false_eq_true, iff_true]
    decide
  · rw [class', renderSegment, String.toList_ofList, class']
    simp
  · obtain ⟨pieces, last, rfl, free, end', some, rfl⟩ :=
      exists_pieces _ (Nat.le_refl _) found
    have some : pieces ≠ [] := by simpa using some
    rw [List.nil_append] at other class'
    have clean : ∀ piece ∈ pieces.map (fun piece => (stripSigil piece.1, ([] : List Char))),
        Unbraced piece.1 ∧ Unbraced piece.2 := by
      rw [List.forall_mem_map]
      intro piece mem
      have within := (stripSigil_isPrefix piece.1).subset
      exact ⟨⟨fun mem' => (free piece mem).1.1 (within mem'),
        fun mem' => (free piece mem).1.2 (within mem')⟩, List.not_mem_nil, List.not_mem_nil⟩
    have again : mixedSegmentLiterals _ = _ :=
      mixedLiteralsFrom_assemble clean end' (.inr (by simpa using some))
    rw [List.nil_append, List.map_map] at again
    rw [class', render_mixed, classifySegment_of_plain (plain.render some free end' other) again,
      doubled_iff free end']
    have same : (pieces.map ((fun piece => String.ofList (stripSigil piece.1)) ∘
        fun piece => (stripSigil piece.1, ([] : List Char))) ++ [String.ofList last] =
        pieces.map (fun piece => String.ofList (stripSigil piece.1)) ++ [String.ofList last]) ↔
        ¬∃ piece ∈ pieces, ['$', '$'] <:+ piece.1 := by
      rw [List.append_cancel_right_eq, List.map_inj_left]
      simp only [Function.comp_apply, String.ofList_inj, stripSigil_twice]
      simp
    simp only [RouteSegment.mixed.injEq, exists_eq', true_and]
    rw [← same]
    split
    · next empty => simp [empty, other.symm]
    · rw [RouteSegment.mixed.injEq]

end Classification

section Paths

/-- The non-empty texts between slashes, before a query string or fragment. -/
def segmentTexts (path : String) : List (List Char) :=
  ((path.toList.takeWhile fun c => c ≠ '?' && c ≠ '#').splitOnP (· == '/')).filter (· ≠ [])

theorem parse_segments (path : String) :
    (RouteShape.parse path).segments = classifyAll (segmentTexts path) := rfl

def Written (part : List Char) : Prop := part ≠ [] ∧ ∀ c ∈ part, c ≠ '/' ∧ c ≠ '?' ∧ c ≠ '#'

theorem written_segmentTexts {path : String} {part : List Char} (mem : part ∈ segmentTexts path) :
    Written part := by
  obtain ⟨mem, nonempty⟩ := List.mem_filter.1 mem
  refine ⟨by simpa using nonempty, fun c among => ?_⟩
  obtain ⟨kept, differ⟩ := mem_splitOnP mem c among
  have kept := List.mem_takeWhile_imp kept
  simp only [ne_eq, Bool.and_eq_true, decide_eq_true_eq] at kept
  exact ⟨by simpa using differ, kept.1, kept.2⟩

theorem written_of_all {part : List Char} (some : part ≠ [])
    (clean : part.all fun c => !(['/', '?', '#'].contains c)) : Written part := by
  refine ⟨some, fun c among => ?_⟩
  simpa using List.all_eq_true.1 clean c among

theorem written_render {part : List Char} (written : Written part) :
    Written (renderSegment (classifySegment part)) := by
  obtain class' | class' | class' | ⟨literals, -, found, -, class'⟩ := classifySegment_cases part
  · rw [class']
    exact written_of_all (by decide) (by decide)
  · rw [class']
    exact written_of_all (by decide) (by decide)
  · rw [class', renderSegment, String.toList_ofList]
    exact written
  · obtain ⟨pieces, last, rfl, -, -, some, rfl⟩ := exists_pieces _ (Nat.le_refl _) found
    rw [class', List.nil_append, render_mixed]
    constructor
    · intro nothing
      cases pieces with
      | nil => simp at some
      | cons piece pieces => simp [assemble] at nothing
    · intro c among
      rw [assemble, List.mem_append, List.mem_flatMap] at among
      cases among with
      | inr ends => exact written.2 c (by simp [assemble, ends])
      | inl inside =>
        obtain ⟨piece, mem, among⟩ := inside
        obtain ⟨piece, known, rfl⟩ := List.mem_map.1 mem
        simp only [List.nil_append, List.mem_append, List.mem_cons, List.not_mem_nil, or_false]
          at among
        obtain among | rfl | rfl := among
        · refine written.2 c (List.mem_append_left _ (List.mem_flatMap.2 ⟨piece, known, ?_⟩))
          exact List.mem_append_left _ ((stripSigil_isPrefix piece.1).subset among)
        · decide
        · decide

theorem noSlash_of_not_mem {text : List Char} (clean : '/' ∉ text) :
    ∀ c ∈ text, (c == '/') = false := by
  intro c mem
  rw [beq_eq_false_iff_ne]
  rintro rfl
  exact clean mem

theorem splitOnP_join {parts : List (List Char)} : ∀ {first : List Char}, '/' ∉ first →
    (∀ part ∈ parts, '/' ∉ part) →
    (first ++ parts.flatMap fun part => '/' :: part).splitOnP (· == '/') = first :: parts := by
  induction parts with
  | nil =>
    intro first clean _
    rw [List.flatMap_nil, List.append_nil]
    exact List.splitOnP_eq_singleton (noSlash_of_not_mem clean)
  | cons part parts ih =>
    intro first clean rest
    obtain ⟨clean', rest⟩ := List.forall_mem_cons.1 rest
    rw [List.flatMap_cons, List.cons_append, List.splitOnP_append_cons_of_forall_mem
      (noSlash_of_not_mem clean) '/' (by decide), ih clean' rest]

theorem segmentTexts_render {parts : List (List Char)} (written : ∀ part ∈ parts, Written part) :
    segmentTexts (String.ofList (parts.flatMap fun part => '/' :: part)) = parts := by
  have whole : ((parts.flatMap fun part => '/' :: part).takeWhile fun c => c ≠ '?' && c ≠ '#') =
      parts.flatMap fun part => '/' :: part := by
    rw [List.takeWhile_eq_self_iff]
    intro c among
    obtain ⟨part, mem, among⟩ := List.mem_flatMap.1 among
    cases List.mem_cons.1 among with
    | inl slash => simp [slash]
    | inr inside => simpa using ((written part mem).2 c inside).2
  have cut : (parts.flatMap fun part => '/' :: part).splitOnP (· == '/') = [] :: parts :=
    splitOnP_join List.not_mem_nil fun part mem slash => ((written part mem).2 '/' slash).1 rfl
  rw [segmentTexts, String.toList_ofList, whole, cut, List.filter_cons]
  simp only [ne_eq, not_true_eq_false, decide_false, Bool.false_eq_true, if_false]
  refine List.filter_eq_self.2 fun part mem => ?_
  simpa using (written part mem).1

theorem classifyAll_render_iff (parts : List (List Char)) :
    classifyAll ((classifyAll parts).map renderSegment) = classifyAll parts ↔
      ∀ part ∈ parts.takeWhile (fun part => classifySegment part ≠ .catchAll),
        classifySegment (renderSegment (classifySegment part)) = classifySegment part := by
  induction parts with
  | nil => simp [classifyAll]
  | cons part parts ih =>
    by_cases caught : classifySegment part = .catchAll
    · rw [classifyAll, if_pos caught, List.takeWhile_cons]
      simp only [caught, ne_eq, not_true_eq_false, decide_false, Bool.false_eq_true, if_false,
        List.not_mem_nil, false_imp_iff, implies_true, iff_true]
      decide
    · rw [classifyAll, if_neg caught, List.map_cons, classifyAll, List.takeWhile_cons]
      simp only [caught, ne_eq, not_false_eq_true, decide_true, if_true, List.forall_mem_cons]
      rw [← ih]
      split
      · next lost =>
        rw [lost]
        simp [Ne.symm caught]
      · rw [List.cons.injEq]

/-- A literal that ends in a doubled sigil: the text `$$` before a parameter, in a segment with
literals that is read at all. -/
def DoubledSigil (path : String) : Prop :=
  ∃ part ∈ (segmentTexts path).takeWhile (fun part => classifySegment part ≠ .catchAll),
    (∃ literals, classifySegment part = .mixed literals) ∧ ['$', '$', '{'] <:+: part

theorem written_segments {path : String} :
    ∀ part ∈ (classifyAll (segmentTexts path)).map renderSegment, Written part := by
  have each : ∀ parts : List (List Char), (∀ part ∈ parts, Written part) →
      ∀ part ∈ (classifyAll parts).map renderSegment, Written part := by
    intro parts
    induction parts with
    | nil => simp [classifyAll]
    | cons part parts ih =>
      intro written
      obtain ⟨first, rest⟩ := List.forall_mem_cons.1 written
      rw [classifyAll]
      split
      · next caught =>
        rw [← caught, List.map_singleton, List.forall_mem_singleton]
        exact written_render first
      · exact List.forall_mem_cons.2 ⟨written_render first, ih rest⟩
  exact each _ fun part mem => written_segmentTexts mem

theorem parse_canonical (path : String) :
    (RouteShape.parse (RouteShape.parse path).canonical).segments =
      classifyAll ((RouteShape.parse path).segments.map renderSegment) := by
  rw [RouteShape.canonical]
  cases segments : (RouteShape.parse path).segments with
  | nil => decide +kernel
  | cons segment rest =>
    rw [List.isEmpty_cons, if_neg Bool.false_ne_true, parse_segments, ← segments, parse_segments,
      ← List.flatMap_map renderSegment (fun part => '/' :: part),
      segmentTexts_render written_segments]

theorem parse_canonical_iff (path : String) :
    RouteShape.parse (RouteShape.parse path).canonical = RouteShape.parse path ↔
      ¬DoubledSigil path := by
  have ext : RouteShape.parse (RouteShape.parse path).canonical = RouteShape.parse path ↔
      (RouteShape.parse (RouteShape.parse path).canonical).segments =
        (RouteShape.parse path).segments := RouteShape.mk.injEq .. ▸ Iff.rfl
  rw [ext, parse_canonical, parse_segments, classifyAll_render_iff]
  simp only [classify_render_iff, DoubledSigil]
  push Not
  rfl

/-- The identity form stands for the shape exactly where no sigil is doubled; there it is its own
identity form, and paths of one identity form are paths of one shape. -/
theorem canonicalRoute_faithful_iff (path : String) :
    (RouteShape.parse (RouteShape.parse path).canonical = RouteShape.parse path ↔
      ¬DoubledSigil path) ∧
    (¬DoubledSigil path → canonicalRoute (canonicalRoute path) = canonicalRoute path) ∧
    ∀ other, ¬DoubledSigil path → ¬DoubledSigil other →
      (canonicalRoute path = canonicalRoute other ↔
        RouteShape.parse path = RouteShape.parse other) := by
  refine ⟨parse_canonical_iff path, fun single => ?_, fun other single single' => ?_⟩
  · have same := (parse_canonical_iff path).2 single
    rw [canonicalRoute, canonicalRoute, same]
  · constructor
    · intro same
      calc
        RouteShape.parse path = RouteShape.parse (canonicalRoute path) :=
          ((parse_canonical_iff path).2 single).symm
        _ = RouteShape.parse (canonicalRoute other) := by rw [same]
        _ = RouteShape.parse other := (parse_canonical_iff other).2 single'
    · intro same
      rw [canonicalRoute, same, canonicalRoute]

theorem parse_canonical_loses_dollar :
    RouteShape.parse (RouteShape.parse "/price/$${amount}").canonical ≠
      RouteShape.parse "/price/$${amount}" := by
  decide +kernel

theorem canonicalRoute_faithful_iff_files :
    ¬DoubledSigil "/f/${n}.js" ∧
      canonicalRoute (canonicalRoute "/f/${n}.js") = canonicalRoute "/f/${n}.js" := by
  have texts : segmentTexts "/f/${n}.js" = [['f'], ['$', '{', 'n', '}', '.', 'j', 's']] := by
    decide +kernel
  have single : ¬DoubledSigil "/f/${n}.js" := by
    rintro ⟨part, mem, -, inside⟩
    have mem := (List.takeWhile_prefix _).subset mem
    rw [texts, List.mem_cons, List.mem_singleton] at mem
    revert inside
    obtain rfl | rfl := mem
    · decide
    · decide
  exact ⟨single, (canonicalRoute_faithful_iff "/f/${n}.js").2.1 single⟩

end Paths

end CodeSystemGraph.Routes
