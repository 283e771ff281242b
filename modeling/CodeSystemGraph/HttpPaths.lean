import CodeSystemGraph.RouteCanonical
import CodeSystemGraph.SourceObservations
import Mathlib.Data.List.DropRight

/-!
The paths of HTTP boundaries (`http.rs`): a path template is trimmed, its runs of slashes
are collapsed and its trailing slashes removed, once each and in that order.
-/

namespace CodeSystemGraph.Http
open Text
open Sources (collapseSlashes normalizeSourceHttpPath)

section Templates

structure PathTemplate where
  segments : List (List Char)
  written : ∀ segment ∈ segments, segment ≠ [] ∧ '/' ∉ segment

namespace PathTemplate

theorem eq_of_segments {left right : PathTemplate} (same : left.segments = right.segments) :
    left = right := by
  cases left
  cases right
  simpa using same

def slashed (segments : List (List Char)) : List Char := segments.flatMap fun part => '/' :: part

theorem slashed_eq_nil (segments : List (List Char)) : slashed segments = [] ↔ segments = [] := by
  cases segments <;> simp [slashed]

def render (template : PathTemplate) : List Char :=
  if template.segments = [] then ['/'] else slashed template.segments

def segmentsOf (text : List Char) : List (List Char) :=
  (text.splitOnP (· == '/')).filter (· ≠ [])

def parse (text : List Char) : PathTemplate where
  segments := segmentsOf text
  written := by
    intro segment mem
    obtain ⟨mem, nonempty⟩ := List.mem_filter.1 mem
    refine ⟨by simpa using nonempty, fun slash => ?_⟩
    simpa using (mem_splitOnP mem '/' slash).2

theorem segmentsOf_slash (text : List Char) : segmentsOf ('/' :: text) = segmentsOf text := by
  have cut : ('/' :: text).splitOnP (· == '/') = [] :: text.splitOnP (· == '/') := by
    rw [List.splitOnP_cons_eq_if_modifyHead, if_pos (by decide)]
  rw [segmentsOf, cut]
  rfl

theorem segmentsOf_segment {part : List Char} (some : part ≠ []) (clean : '/' ∉ part) :
    segmentsOf part = [part] := by
  rw [segmentsOf, List.splitOnP_eq_singleton (Routes.noSlash_of_not_mem clean)]
  simp [some]

theorem segmentsOf_next {part : List Char} (some : part ≠ []) (clean : '/' ∉ part)
    (rest : List Char) : segmentsOf (part ++ '/' :: rest) = part :: segmentsOf rest := by
  rw [segmentsOf, List.splitOnP_append_cons_of_forall_mem (Routes.noSlash_of_not_mem clean) '/'
    (by decide), List.filter_cons, if_pos (by simpa using some)]
  rfl

theorem segmentsOf_slashed {segments : List (List Char)}
    (written : ∀ segment ∈ segments, segment ≠ [] ∧ '/' ∉ segment) :
    segmentsOf (slashed segments) = segments := by
  have cut : (slashed segments).splitOnP (· == '/') = [] :: segments :=
    Routes.splitOnP_join List.not_mem_nil fun segment mem => (written segment mem).2
  rw [segmentsOf, cut, List.filter_cons, if_neg (by decide)]
  refine List.filter_eq_self.2 fun segment mem => ?_
  simpa using (written segment mem).1

theorem parse_render (template : PathTemplate) : parse template.render = template := by
  apply eq_of_segments
  change segmentsOf template.render = template.segments
  unfold render
  split
  · next empty => rw [empty]; decide
  · exact segmentsOf_slashed template.written

theorem render_inj {left right : PathTemplate} (same : left.render = right.render) :
    left = right := by
  rw [← parse_render left, same, parse_render]

end PathTemplate

end Templates

section Normalization

/-- The loop that pops trailing slashes, on the reversed text. -/
def popSlashes : List Char → List Char
  | '/' :: c :: rest => popSlashes (c :: rest)
  | reversed => reversed

def normalizeHttpPath (path : String) : String :=
  let trimmed := trim path.toList
  if trimmed = [] ∨ trimmed = ['/'] then "/"
  else
    let normalized := (if trimmed.head? = some '/' then [] else ['/']) ++ collapseSlashes false trimmed
    String.ofList (popSlashes normalized.reverse).reverse

example : normalizeHttpPath " api//orders/ " = "/api/orders" := by decide +kernel

theorem popSlashes_eq {reversed : List Char} (some : reversed ≠ []) :
    popSlashes reversed =
      if reversed.dropWhile (· == '/') = [] then ['/'] else reversed.dropWhile (· == '/') := by
  fun_induction popSlashes reversed with
  | case1 c rest ih =>
    rw [ih (List.cons_ne_nil c rest)]
    simp
  | case2 reversed last =>
    cases reversed with
    | nil => exact absurd rfl some
    | cons c rest =>
      by_cases slash : c = '/'
      · cases rest with
        | nil => simp [slash]
        | cons d rest => exact absurd (by rw [slash]) (last d rest)
      · simp [slash]

theorem reverse_popSlashes {text : List Char} (some : text ≠ []) :
    (popSlashes text.reverse).reverse =
      if text.rdropWhile (· == '/') = [] then ['/'] else text.rdropWhile (· == '/') := by
  rw [popSlashes_eq (by simpa using some), List.rdropWhile]
  by_cases none : text.reverse.dropWhile (· == '/') = []
  · rw [if_pos none, if_pos (by rw [none]; rfl)]
    rfl
  · rw [if_neg none, if_neg (by simpa using none)]

theorem rdropWhile_segment {part : List Char} (some : part ≠ []) (clean : '/' ∉ part)
    (rest : List Char) :
    ('/' :: (part ++ rest)).rdropWhile (· == '/') = '/' :: (part ++ rest.rdropWhile (· == '/')) := by
  induction rest using List.reverseRecOn with
  | nil =>
    rw [List.append_nil, List.rdropWhile_nil, List.append_nil, List.rdropWhile_eq_self_iff]
    intro whole last
    rw [List.getLast_cons some, beq_iff_eq] at last
    exact clean (last ▸ List.getLast_mem some)
  | append_singleton rest c ih =>
    rw [← List.append_assoc, ← List.cons_append, List.rdropWhile_concat, List.rdropWhile_concat]
    split
    · exact ih
    · simp

open PathTemplate in
theorem rdropWhile_collapse (text : List Char) :
    ('/' :: collapseSlashes true text).rdropWhile (· == '/') = slashed (segmentsOf text) ∧
      ∀ part : List Char, part ≠ [] → '/' ∉ part →
        ('/' :: (part ++ collapseSlashes false text)).rdropWhile (· == '/') =
          slashed (segmentsOf (part ++ text)) := by
  induction text with
  | nil =>
    refine ⟨rfl, fun part some clean => ?_⟩
    rw [rdropWhile_segment some clean, List.append_nil, segmentsOf_segment some clean]
    rfl
  | cons c text ih =>
    by_cases slash : c = '/'
    · rw [slash]
      constructor
      · rw [segmentsOf_slash]
        exact ih.1
      · intro part some clean
        have turn : collapseSlashes false ('/' :: text) = '/' :: collapseSlashes true text := rfl
        rw [turn, rdropWhile_segment some clean, ih.1, segmentsOf_next some clean]
        rfl
    · constructor
      · have next := ih.2 [c] (List.cons_ne_nil c []) (by simpa using Ne.symm slash)
        simpa [collapseSlashes, slash] using next
      · intro part some clean
        have next := ih.2 (part ++ [c]) (by simp) (by simpa [clean] using Ne.symm slash)
        simpa [collapseSlashes, slash] using next

open PathTemplate in
theorem normalizeHttpPath_eq (path : String) :
    normalizeHttpPath path = String.ofList (parse (trim path.toList)).render := by
  unfold normalizeHttpPath
  dsimp only
  split
  · next short =>
    cases short with
    | inl empty => rw [empty]; decide +kernel
    | inr slash => rw [slash]; decide +kernel
  · next long =>
    obtain ⟨empty, -⟩ := not_or.1 long
    cases shape : trim path.toList with
    | nil => exact absurd shape empty
    | cons c rest =>
      have whole : ((if (c :: rest).head? = some '/' then [] else ['/']) ++
          collapseSlashes false (c :: rest)).rdropWhile (· == '/') = slashed (segmentsOf (c :: rest)) := by
        by_cases slash : c = '/'
        · simpa [slash, collapseSlashes, segmentsOf_slash] using (rdropWhile_collapse rest).1
        · simpa [slash, collapseSlashes] using
            (rdropWhile_collapse rest).2 [c] (List.cons_ne_nil c []) (by simpa using Ne.symm slash)
      rw [reverse_popSlashes (by simp [collapseSlashes]; split_ifs <;> simp), whole, render]
      change String.ofList _ = String.ofList (if segmentsOf (c :: rest) = [] then _ else _)
      simp only [slashed_eq_nil]
      rfl

theorem toList_normalizeHttpPath (path : String) :
    (normalizeHttpPath path).toList = (PathTemplate.parse (trim path.toList)).render := by
  rw [normalizeHttpPath_eq, String.toList_ofList]

end Normalization

section Form

namespace PathTemplate

theorem head_render (template : PathTemplate) : template.render.head? = some '/' := by
  unfold render
  split
  · rfl
  · cases shape : template.segments with
    | nil => contradiction
    | cons part rest => rfl

theorem infix_append {part : List Char} (clean : '/' ∉ part) {rest : List Char}
    (doubled : ['/', '/'] <:+: part ++ rest) : ['/', '/'] <:+: rest := by
  induction part with
  | nil => exact doubled
  | cons c part ih =>
    rw [List.mem_cons, not_or] at clean
    rw [List.cons_append, List.infix_cons_iff] at doubled
    apply ih clean.2
    apply doubled.resolve_left
    intro first
    exact clean.1 (List.cons_prefix_cons.1 first).1

theorem infix_slashed {segments : List (List Char)}
    (written : ∀ segment ∈ segments, segment ≠ [] ∧ '/' ∉ segment) :
    ¬['/', '/'] <:+: slashed segments := by
  induction segments with
  | nil => decide
  | cons part rest ih =>
    obtain ⟨⟨some, clean⟩, later⟩ := List.forall_mem_cons.1 written
    intro doubled
    change ['/', '/'] <:+: '/' :: (part ++ slashed rest) at doubled
    rw [List.infix_cons_iff] at doubled
    cases doubled with
    | inl first =>
      cases part with
      | nil => exact some rfl
      | cons c part =>
        have second := (List.cons_prefix_cons.1 first).2
        rw [List.cons_append, List.cons_prefix_cons] at second
        exact clean (second.1 ▸ List.mem_cons_self)
    | inr inside => exact ih later (infix_append clean inside)

theorem getLast_slashed {segments : List (List Char)}
    (written : ∀ segment ∈ segments, segment ≠ [] ∧ '/' ∉ segment) :
    (slashed segments).getLast? ≠ some '/' := by
  induction segments with
  | nil => simp [slashed]
  | cons part rest ih =>
    obtain ⟨⟨some, clean⟩, later⟩ := List.forall_mem_cons.1 written
    change ('/' :: part ++ slashed rest).getLast? ≠ _
    cases rest with
    | nil =>
      intro last
      rw [slashed, List.flatMap_nil, List.append_nil, List.getLast?_cons_of_ne_nil some] at last
      exact clean (List.mem_of_getLast? last)
    | cons next rest =>
      rw [List.getLast?_append_of_ne_nil _ (by simp [slashed])]
      exact ih later

theorem infix_render (template : PathTemplate) : ¬['/', '/'] <:+: template.render := by
  unfold render
  split
  · decide
  · exact infix_slashed template.written

theorem getLast_render (template : PathTemplate) (root : template.render ≠ ['/']) :
    template.render.getLast? ≠ some '/' := by
  unfold render at root ⊢
  split at root
  · exact absurd rfl root
  · next some =>
    rw [if_neg some]
    exact getLast_slashed template.written

theorem flatten_splitOnP (text : List Char) :
    (text.splitOnP (· == '/')).flatten = text.filter fun c => !(c == '/') := by
  induction text with
  | nil => rfl
  | cons c text ih =>
    rw [List.splitOnP_cons_eq_if_modifyHead, List.filter_cons]
    by_cases slash : c = '/'
    · simpa [slash] using ih
    · obtain ⟨part, rest, shape⟩ := List.exists_cons_of_ne_nil (List.splitOnP_ne_nil (· == '/') text)
      rw [shape] at ih ⊢
      simpa [slash] using ih

theorem flatten_segmentsOf (text : List Char) :
    (segmentsOf text).flatten = text.filter fun c => !(c == '/') := by
  rw [segmentsOf, List.flatten_filter_ne_nil, flatten_splitOnP]

theorem getLast_flatten (text : List Char) :
    (segmentsOf text).flatten.getLast? = (text.rdropWhile (· == '/')).getLast? := by
  rw [flatten_segmentsOf, ← List.head?_reverse, ← List.filter_reverse, List.head?_filter,
    List.find?_not_eq_head?_dropWhile, List.rdropWhile, List.getLast?_reverse]

theorem trim_render (template : PathTemplate) :
    trim template.render = template.render.rdropWhile isWhitespace := by
  have start : template.render.dropWhile isWhitespace = template.render := by
    cases shape : template.render with
    | nil => rfl
    | cons c rest =>
      have slash := template.head_render
      rw [shape, List.head?_cons, Option.some.injEq] at slash
      rw [slash]
      exact List.dropWhile_cons_of_neg (by decide)
  rw [trim, start]
  rfl

theorem parse_trim_render_iff (template : PathTemplate) :
    parse (trim template.render) = template ↔
      template.segments.flatten.getLast?.any isWhitespace = false := by
  have whole : segmentsOf template.render = template.segments :=
    congrArg segments (parse_render template)
  have blanks : (template.render.rtakeWhile isWhitespace).filter (fun c => !(c == '/')) =
      template.render.rtakeWhile isWhitespace := by
    refine List.filter_eq_self.2 fun c mem => ?_
    have white := List.mem_rtakeWhile_imp mem
    by_cases slash : c = '/'
    · rw [slash] at white
      exact absurd white (by decide)
    · simpa using slash
  have letters : template.segments.flatten =
      (segmentsOf (trim template.render)).flatten ++ template.render.rtakeWhile isWhitespace := by
    rw [flatten_segmentsOf, ← blanks, ← List.filter_append, trim_render,
      List.rdropWhile_append_rtakeWhile, ← flatten_segmentsOf, whole]
  constructor
  · intro same
    have kept : (segmentsOf (trim template.render)).flatten = template.segments.flatten :=
      congrArg (fun t => t.segments.flatten) same
    rw [kept, List.self_eq_append_right, List.rtakeWhile_eq_nil_iff] at letters
    rw [← whole, getLast_flatten]
    by_cases root : template.render = ['/']
    · rw [root]
      decide
    · have last := template.getLast_render root
      have some : template.render ≠ [] := by
        intro none
        have slash := template.head_render
        rw [none] at slash
        cases slash
      rw [List.getLast?_eq_some_getLast some, ne_eq, Option.some.injEq] at last
      rw [List.rdropWhile_eq_self_iff.2 fun _ => by simpa using last,
        List.getLast?_eq_some_getLast some, Option.any_some]
      simpa using letters some
  · intro tight
    have none : template.render.rtakeWhile isWhitespace = [] := by
      by_contra some
      rw [letters, List.getLast?_append_of_ne_nil _ some, List.getLast?_eq_some_getLast some] at tight
      have white := List.mem_rtakeWhile_imp (List.getLast_mem some)
      rw [Option.any_some, white] at tight
      cases tight
    have kept := @List.rdropWhile_append_rtakeWhile _ isWhitespace template.render
    rw [none, List.append_nil] at kept
    rw [trim_render, kept, parse_render]

end PathTemplate

/-- The trimmed path has a blank right before its trailing slashes. -/
def blankBeforeSlashes (path : String) : Bool :=
  ((trim path.toList).rdropWhile (· == '/')).getLast?.any isWhitespace

theorem normalizeHttpPath_idempotent_iff (path : String) :
    normalizeHttpPath (normalizeHttpPath path) = normalizeHttpPath path ↔
      blankBeforeSlashes path = false := by
  have again : normalizeHttpPath (normalizeHttpPath path) = normalizeHttpPath path ↔
      PathTemplate.parse (trim (PathTemplate.parse (trim path.toList)).render) =
        PathTemplate.parse (trim path.toList) := by
    rw [← String.toList_inj, toList_normalizeHttpPath, toList_normalizeHttpPath]
    exact ⟨PathTemplate.render_inj, congrArg PathTemplate.render⟩
  rw [again, PathTemplate.parse_trim_render_iff, blankBeforeSlashes, ← PathTemplate.getLast_flatten]
  rfl

/-- What the loops ensure of every path, whatever was trimmed. -/
structure Collapsed (path : String) : Prop where
  leading : path.toList.head? = some '/'
  single : ¬['/', '/'] <:+: path.toList
  trailing : path ≠ "/" → path.toList.getLast? ≠ some '/'

theorem collapsed_normalizeHttpPath (path : String) : Collapsed (normalizeHttpPath path) where
  leading := by
    rw [toList_normalizeHttpPath]
    exact PathTemplate.head_render _
  single := by
    rw [toList_normalizeHttpPath]
    exact PathTemplate.infix_render _
  trailing := by
    intro root
    rw [toList_normalizeHttpPath]
    apply PathTemplate.getLast_render
    intro same
    apply root
    rw [normalizeHttpPath_eq, same]

/-- The paths on which the function is a normaliser. -/
theorem normalizeHttpPath_normal_iff (path : String) :
    (normalizeHttpPath (normalizeHttpPath path) = normalizeHttpPath path ∧
        (normalizeHttpPath path).toList.head? = some '/' ∧
        ¬"//".toList <:+: (normalizeHttpPath path).toList ∧
        ((normalizeHttpPath path).toList.getLast? = some '/' → normalizeHttpPath path = "/")) ↔
      blankBeforeSlashes path = false := by
  have form := collapsed_normalizeHttpPath path
  rw [← normalizeHttpPath_idempotent_iff]
  refine ⟨fun normal => normal.1, fun same => ⟨same, form.leading, form.single, fun last => ?_⟩⟩
  by_contra root
  exact form.trailing root last

theorem normalizeHttpPath_blank_slash :
    ¬∀ path : String, normalizeHttpPath (normalizeHttpPath path) = normalizeHttpPath path ∧
      (normalizeHttpPath path).toList.head? = some '/' ∧
      ¬"//".toList <:+: (normalizeHttpPath path).toList ∧
      ((normalizeHttpPath path).toList.getLast? = some '/' → normalizeHttpPath path = "/") := by
  intro normal
  have once : normalizeHttpPath "/a /" = "/a " := by decide +kernel
  have twice : normalizeHttpPath "/a " = "/a" := by decide +kernel
  have same := (normal "/a /").1
  rw [once, twice] at same
  exact absurd same (by decide)

end Form

end CodeSystemGraph.Http
