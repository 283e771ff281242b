import CodeSystemGraph.SourceSymbols
import Mathlib.Data.List.Infix
import Mathlib.Data.List.TakeWhile

/-!
The files that relative imports denote. A Python import names a module by the
package of the importing file; the resolver looks for every path of the repository
that ends with the module, and wants exactly one.
-/

namespace CodeSystemGraph.Sources

open Ordered Text

section Denotation

def moduleDots (module : String) : Nat := (module.toList.takeWhile (· == '.')).length

def dotComponents (text : List Char) : List String :=
  ((text.splitOn '.').map String.ofList).filter (· != "")

/-- The module that a relative import names: one directory of the importing file's package is
removed for each dot after the first. Without enough directories there is none. -/
def relativeTarget (directory : List String) (dots : Nat) (components : List String) : List String :=
  if directory.length < dots - 1 then []
  else directory.take (directory.length - (dots - 1)) ++ components

/-- The files of a module, as components. `__init__.py` is the file of its directory only. -/
def moduleForms (target : List String) : List (List String) :=
  match target.getLast? with
  | none => []
  | some last =>
    (target ++ ["__init__.py"]) ::
      if last = "__init__" then [] else [target.dropLast ++ [last ++ ".py"]]

def modulePath (path : String) : List String :=
  if (pathSegments path).getLast? = some "__init__" then (pathSegments path).dropLast
  else pathSegments path

def isPythonPath (path : String) : Bool :=
  (pathExtension path).any fun extension => extension.map toAsciiLowercase == "py".toList

/-- A stem of a script path: without its script extension, or the path if it has none. -/
def ScriptStem (joined stem : String) : Prop :=
  (∃ extension ∈ scriptExtensions, joined = stem ++ "." ++ extension) ∨
    stem = joined ∧ ∀ extension ∈ scriptExtensions, ∀ other, joined ≠ other ++ "." ++ extension

def ScriptDenotes (joined path : String) : Prop :=
  path = joined ∨
    (∃ stem, ScriptStem joined stem ∧
      (path = stem ∨ ∃ extension ∈ scriptExtensions, path = stem ++ "." ++ extension)) ∨
    ∃ extension ∈ scriptExtensions, path = joined ++ "/index." ++ extension

end Denotation

namespace RepositorySymbols

variable (symbols : RepositorySymbols)

def directory (index : Nat) : List String := (pathComponents (symbols.file index).path).dropLast

def namedModule (index : Nat) (module : String) : List String :=
  relativeTarget (symbols.directory index) (moduleDots module) (dotComponents module.toList)

/-- For a dotted name, the module below it that the first component of the name may be. -/
def nestedModule (index : Nat) (module name : String) : Option (List String) :=
  match splitOnce '.' name.toList with
  | (head, some _) => some (relativeTarget (symbols.directory index) (moduleDots module)
      (dotComponents module.toList ++ [String.ofList head].filter (· != "")))
  | (_, none) => none

def denoted (target : List String) : List (String × Nat) :=
  symbols.paths.toList.filter fun entry => pathComponents entry.1 ∈ moduleForms target

def denotedModule (index : Nat) (module name : String) : List String :=
  match symbols.nestedModule index module name with
  | some nested =>
    if symbols.denoted nested = [] then symbols.namedModule index module else nested
  | none => symbols.namedModule index module

/-- The import resolves to nothing but a file it denotes, and a Python import of a module with
one file resolves. -/
def ResolvesAsDenoted (index : Nat) (module name : String) : Prop :=
  (∀ file symbol, symbols.resolve index (.imported module name) = some (.name file symbol) →
    if symbols.language index = some .python then
      pathComponents (symbols.file file).path ∈ moduleForms (symbols.denotedModule index module name)
    else
      ∃ components, joinComponents (symbols.directory index)
          ((module.toList.splitOn '/').map String.ofList) = some components ∧
        ScriptDenotes ("/".intercalate components) (symbols.file file).path) ∧
  (symbols.language index = some .python →
    (symbols.denoted (symbols.denotedModule index module name)).length = 1 →
      (symbols.resolve index (.imported module name)).isSome)

def candidates (target : List String) : List (String × Nat) :=
  if target.isEmpty then []
  else symbols.paths.toList.filter fun entry =>
    isPythonPath entry.1 && target.isSuffixOf (modulePath entry.1)

def foreign (target : List String) : List (String × Nat) :=
  (symbols.candidates target).filter fun entry => pathComponents entry.1 ∉ moduleForms target

/-- No foreign file decides the search for a module: there is none, or several and no file
of the module, or the module has two files itself. -/
def Undisturbed (target : List String) : Prop :=
  symbols.foreign target = [] ∨
    symbols.denoted target = [] ∧ 2 ≤ (symbols.foreign target).length ∨
    2 ≤ (symbols.denoted target).length

/-- For a dotted name the module below is looked for first: if it has no file, no foreign file may
take its place, and if it has two, the search for the module itself may not end at one path. -/
def ImportUndisturbed (index : Nat) (module name : String) : Prop :=
  match symbols.nestedModule index module name with
  | none => symbols.Undisturbed (symbols.namedModule index module)
  | some nested =>
    if symbols.denoted nested = [] then
      (symbols.foreign nested).length ≠ 1 ∧ symbols.Undisturbed (symbols.namedModule index module)
    else
      symbols.Undisturbed nested ∧
        (2 ≤ (symbols.denoted nested).length →
          (symbols.candidates (symbols.namedModule index module)).length ≠ 1)

end RepositorySymbols

section Components

theorem dotComponents_append (first second : List Char) :
    dotComponents (first ++ '.' :: second) = dotComponents first ++ dotComponents second := by
  unfold dotComponents
  rw [List.splitOn_append_cons_self, List.map_append, List.filter_append]

theorem dotComponents_of_free {text : List Char} (free : '.' ∉ text) :
    dotComponents text = [String.ofList text].filter (· != "") := by
  unfold dotComponents
  rw [List.splitOn_eq_singleton free, List.map_singleton]

theorem dotComponents_drop (text : List Char) :
    dotComponents (text.drop (text.takeWhile (· == '.')).length) = dotComponents text := by
  induction text with
  | nil => rfl
  | cons c text ih =>
    by_cases dot : c = '.'
    · rw [dot, List.takeWhile_cons_of_pos rfl, List.length_cons, List.drop_succ_cons, ih]
      exact (dotComponents_append [] text).symm
    · rw [List.takeWhile_cons_of_neg (by simpa using dot), List.length_nil, List.drop_zero]

theorem dotComponents_ne {text : List Char} : ∀ component ∈ dotComponents text, component ≠ "" := by
  intro component mem
  simpa using (List.mem_filter.1 mem).2

theorem pathComponents_ne {path : String} : ∀ component ∈ pathComponents path, component ≠ "" := by
  intro component mem
  have kept := (List.mem_filter.1 mem).2
  simp only [Bool.and_eq_true, bne_iff_ne, ne_eq] at kept
  exact kept.1

theorem nested_dots {module head : List Char} (relative : module.head? = some '.') (free : '.' ∉ head) :
    let joined := module ++ (if module.getLast? = some '.' then [] else ['.']) ++ head
    (joined.takeWhile (· == '.')).length = (module.takeWhile (· == '.')).length ∧
      dotComponents joined = dotComponents module ++ [String.ofList head].filter (· != "") := by
  intro joined
  constructor
  · by_cases dots : (module.takeWhile (· == '.')).length = module.length
    · have all : module.takeWhile (· == '.') = module := (List.takeWhile_prefix _).eq_of_length dots
      have last : module.getLast? = some '.' := by
        obtain ⟨c, found⟩ := List.getLast?_isSome.2 (List.ne_nil_of_mem (List.mem_of_head? relative))
          |> Option.isSome_iff_exists.1
        have dot := List.takeWhile_eq_self_iff.1 all c (List.mem_of_getLast? found)
        rw [found, beq_iff_eq.1 dot]
      have none : head.takeWhile (· == '.') = [] := by
        rw [List.takeWhile_eq_nil_iff]
        intro nonempty dot
        exact free (beq_iff_eq.1 dot ▸ List.get_mem head ⟨0, nonempty⟩)
      have whole : joined = module ++ head := by simp [joined, last]
      rw [whole, List.takeWhile_append, if_pos dots, none, List.append_nil, all]
    · have whole : joined = module ++ ((if module.getLast? = some '.' then [] else ['.']) ++ head) :=
        List.append_assoc _ _ _
      rw [whole, List.takeWhile_append, if_neg dots]
  · by_cases last : module.getLast? = some '.'
    · obtain ⟨before, rfl⟩ := List.getLast?_eq_some_iff.1 last
      have whole : joined = before ++ '.' :: head := by simp [joined]
      rw [whole, dotComponents_append, dotComponents_append, dotComponents_of_free free]
      simp [dotComponents]
    · have whole : joined = module ++ '.' :: head := by simp [joined, last]
      rw [whole, dotComponents_append, dotComponents_of_free free]

theorem rsplitOnce_append {separator : Char} {first rest : List Char} (free : separator ∉ rest) :
    rsplitOnce separator (first ++ separator :: rest) = some (first, rest) := by
  have turned : (first ++ separator :: rest).reverse = rest.reverse ++ separator :: first.reverse := by
    simp
  rw [rsplitOnce, turned, splitOnce_append (by simpa using free)]
  simp

theorem modulePath_of_form {target : List String} (named : ∀ component ∈ target, component ≠ "")
    {path : String} (form : pathComponents path ∈ moduleForms target) :
    isPythonPath path = true ∧ modulePath path = target := by
  unfold moduleForms at form
  split at form
  · cases form
  · next last found =>
    rw [List.mem_cons] at form
    rcases form with init | single
    · have segments : pathSegments path = target ++ ["__init__"] := by
        rw [pathSegments, init, List.dropLast_concat, List.getLast?_concat]
        rfl
      constructor
      · rw [isPythonPath, pathExtension, init, List.getLast?_concat]
        rfl
      · rw [modulePath, segments, List.getLast?_concat, if_pos rfl, List.dropLast_concat]
    · split at single
      · cases single
      · next other =>
        have split : rsplitOnce '.' (last ++ ".py").toList = some (last.toList, ['p', 'y']) := by
          rw [String.toList_append]
          exact rsplitOnce_append (by decide)
        have nonempty : last.toList ≠ [] := by
          simpa using named last (List.mem_of_getLast? found)
        have segments : pathSegments path = target := by
          rw [pathSegments, List.mem_singleton.1 single, List.dropLast_concat, List.getLast?_concat,
            Option.map_some, stem, split, Option.elim_some, String.ofList_toList]
          exact List.dropLast_append_getLast? last found
        constructor
        · rw [isPythonPath, pathExtension, List.mem_singleton.1 single, List.getLast?_concat,
            Option.bind_some, split, if_neg]
          · have lower : ['p', 'y'].map toAsciiLowercase = "py".toList := by decide
            simp [nonempty, lower]
          · intro dots
            have lengths := congrArg (fun text => text.toList.getLast?) dots
            rw [String.toList_append] at lengths
            simp at lengths
        · rw [modulePath, segments, found, if_neg (by simpa using other)]

theorem relativeTarget_ne {directory components : List String} {dots : Nat}
    (outer : ∀ component ∈ directory, component ≠ "") (inner : ∀ component ∈ components, component ≠ "") :
    ∀ component ∈ relativeTarget directory dots components, component ≠ "" := by
  intro component mem
  unfold relativeTarget at mem
  split at mem
  · cases mem
  · exact (List.mem_append.1 mem).elim (fun before => outer component (List.mem_of_mem_take before))
      (inner component)

theorem unique_eq_some {α : Type} {l : List α} {a : α} : unique l = some a ↔ l = [a] := by
  unfold unique
  split
  · simp
  · next shape =>
    constructor
    · intro found
      cases found
    · intro single
      exact absurd single (shape a)

theorem unique_isSome {α : Type} {l : List α} : (unique l).isSome ↔ l.length = 1 := by
  rw [Option.isSome_iff_exists, List.length_eq_one_iff]
  simp only [unique_eq_some]

theorem unique_map {α β : Type} (f : α → β) (l : List α) : unique (l.map f) = (unique l).map f := by
  match l with
  | [] => rfl
  | [a] => rfl
  | a :: b :: l => rfl

end Components

namespace RepositorySymbols

variable {symbols : RepositorySymbols} {index : Nat}

theorem directory_ne : ∀ component ∈ symbols.directory index, component ≠ "" :=
  fun component mem => pathComponents_ne component (List.dropLast_subset _ mem)

theorem namedModule_ne {module : String} :
    ∀ component ∈ symbols.namedModule index module, component ≠ "" :=
  relativeTarget_ne directory_ne dotComponents_ne

theorem nestedModule_eq {module name : String} {nested : List String}
    (dotted : symbols.nestedModule index module name = some nested) :
    (∀ component ∈ nested, component ≠ "") ∧ (nested = symbols.namedModule index module ∨
      ∃ first, nested = symbols.namedModule index module ++ [first]) := by
  unfold nestedModule at dotted
  split at dotted
  · next head tail split =>
    cases dotted
    constructor
    · apply relativeTarget_ne directory_ne
      intro component mem
      rcases List.mem_append.1 mem with before | first
      · exact dotComponents_ne component before
      · simpa using (List.mem_filter.1 first).2
    · unfold namedModule relativeTarget
      by_cases outside : (symbols.directory index).length < moduleDots module - 1
      · rw [if_pos outside, if_pos outside]
        exact Or.inl rfl
      · rw [if_neg outside, if_neg outside]
        by_cases empty : String.ofList head = ""
        · left
          simp [empty]
        · right
          exact ⟨String.ofList head, by simp [empty]⟩
  · cases dotted

theorem pythonModule_eq {module : String} (relative : module.toList.head? = some '.') :
    symbols.pythonModule index module =
      (unique (symbols.candidates (symbols.namedModule index module))).map Prod.snd := by
  have dots : ¬ moduleDots module = 0 := by
    rw [moduleDots, List.length_eq_zero_iff, List.takeWhile_eq_nil_iff]
    intro none
    cases text : module.toList with
    | nil => simp [text] at relative
    | cons c rest =>
      rw [text, List.head?_cons, Option.some.injEq] at relative
      exact none (by simp [text]) (by simp [text, relative])
  have selected : ∀ target : List String, symbols.paths.toList.filterMap (fun entry =>
      if isPythonPath entry.1 && target.isSuffixOf (modulePath entry.1) then some entry.2 else none) =
        (symbols.paths.toList.filter fun entry =>
          isPythonPath entry.1 && target.isSuffixOf (modulePath entry.1)).map Prod.snd := by
    intro target
    rw [← List.filterMap_eq_map, List.filterMap_filter]
    rfl
  have search : symbols.pythonModule index module =
      (if moduleDots module = 0 then some (dotComponents (module.toList.drop (moduleDots module)))
        else if (symbols.directory index).length < moduleDots module - 1 then none
        else some ((symbols.directory index).take ((symbols.directory index).length -
          (moduleDots module - 1)) ++ dotComponents (module.toList.drop (moduleDots module)))).bind
      fun target => if target.isEmpty then none else
        unique (symbols.paths.toList.filterMap fun entry =>
          if isPythonPath entry.1 && target.isSuffixOf (modulePath entry.1) then some entry.2
          else none) := rfl
  have components : dotComponents (module.toList.drop (moduleDots module)) =
      dotComponents module.toList := dotComponents_drop module.toList
  rw [search, if_neg dots, components]
  unfold namedModule relativeTarget candidates
  split
  · rfl
  · rw [Option.bind_some]
    split
    · rfl
    · rw [← unique_map, ← selected]

theorem filter_candidates {target : List String} (named : ∀ component ∈ target, component ≠ "") :
    (symbols.candidates target).filter (fun entry => pathComponents entry.1 ∈ moduleForms target) =
      symbols.denoted target := by
  unfold candidates denoted
  split
  · next empty =>
    rw [List.isEmpty_iff.1 empty]
    simp [moduleForms]
  · rw [List.filter_filter]
    apply List.filter_congr
    intro entry _
    by_cases form : pathComponents entry.1 ∈ moduleForms target
    · have path := modulePath_of_form named form
      simp [form, path.1, path.2]
    · simp [form]

theorem length_candidates {target : List String} (named : ∀ component ∈ target, component ≠ "") :
    (symbols.candidates target).length =
      (symbols.denoted target).length + (symbols.foreign target).length := by
  have parts := List.length_eq_length_filter_add (l := symbols.candidates target)
    fun entry => pathComponents entry.1 ∈ moduleForms target
  rw [filter_candidates named] at parts
  rw [parts, foreign]
  simp

theorem resolve_plain {module name : String} (python : symbols.language index = some .python)
    (relative : module.toList.head? = some '.')
    (plain : symbols.nestedModule index module name = none) :
    symbols.resolve index (.imported module name) =
      (unique (symbols.candidates (symbols.namedModule index module))).map
        fun entry => SymbolKey.name entry.2 name := by
  unfold nestedModule at plain
  split at plain
  · cases plain
  · next head split =>
    rw [resolve, resolveImport, if_pos python, split, pythonModule_eq relative, Option.map_map]
    rfl

theorem resolve_nested {module name : String} {nested : List String}
    (python : symbols.language index = some .python) (relative : module.toList.head? = some '.')
    (dotted : symbols.nestedModule index module name = some nested) :
    ∃ tail, symbols.resolve index (.imported module name) =
      ((unique (symbols.candidates nested)).map fun entry => SymbolKey.name entry.2 tail).or
        ((unique (symbols.candidates (symbols.namedModule index module))).map
          fun entry => SymbolKey.name entry.2 name) := by
  unfold nestedModule at dotted
  split at dotted
  · next head tail split =>
    have free := (splitOnce_eq_some split).2
    obtain ⟨dots, components⟩ := nested_dots relative free
    have joined : (module ++ (if module.toList.getLast? = some '.' then "" else ".") ++
        String.ofList head).toList =
          module.toList ++ (if module.toList.getLast? = some '.' then [] else ['.']) ++ head := by
      rw [String.toList_append, String.toList_append, String.toList_ofList]
      split <;> rfl
    have named : symbols.namedModule index (module ++ (if module.toList.getLast? = some '.' then ""
        else ".") ++ String.ofList head) = nested := by
      cases dotted
      rw [namedModule, moduleDots, joined, dots, components, moduleDots]
    have inner : (module ++ (if module.toList.getLast? = some '.' then "" else ".") ++
        String.ofList head).toList.head? = some '.' := by
      rw [joined, List.append_assoc, List.head?_append, relative, Option.some_or]
    refine ⟨String.ofList tail, ?_⟩
    rw [resolve, resolveImport, if_pos python, split]
    simp only [pythonModule_eq inner, named, pythonModule_eq relative, Option.map_map]
    rfl
  · cases dotted

def Indexed (symbols : RepositorySymbols) : Prop :=
  ∀ entry ∈ symbols.paths.toList, (symbols.file entry.2).path = entry.1

theorem indexed_new (files : List SymbolFile) : (new files).Indexed := by
  intro entry mem
  have found := Std.ExtTreeMap.mem_toList_iff_getElem?_eq_some.1 mem
  have last := getElem?_foldl_insert (fun pair : SymbolFile × Nat => pair.1.path) Prod.snd
    files.zipIdx ∅ entry.1
  have same : (new files).paths[entry.1]? = _ := last
  rw [found, Std.ExtTreeMap.getElem?_empty, Option.or_none] at same
  obtain ⟨pair, listed, value⟩ := Option.map_eq_some_iff.1 same.symm
  obtain ⟨among, path⟩ := List.mem_filter.1 (List.mem_of_getLast? listed)
  have position := List.mem_zipIdx' among
  have stored : files[entry.2]? = some pair.1 := by
    rw [← value]
    exact List.mem_zipIdx_iff_getElem?.1 among
  change (files[entry.2]?.getD ⟨"", []⟩).path = entry.1
  rw [stored]
  simpa using path

theorem scriptStem_cut (joined : String) : ScriptStem joined
    (((scriptExtensions.findSome? fun extension =>
      stripSuffix ('.' :: extension.toList) joined.toList).map String.ofList).getD joined) := by
  cases cut : scriptExtensions.findSome? fun extension =>
      stripSuffix ('.' :: extension.toList) joined.toList with
  | some before =>
    obtain ⟨extension, listed, here⟩ := List.exists_of_findSome?_eq_some cut
    refine Or.inl ⟨extension, listed, ?_⟩
    rw [← String.toList_inj, stripSuffix_eq_some.1 here]
    simp
  | none =>
    refine Or.inr ⟨rfl, ?_⟩
    intro extension listed other same
    have absent := List.findSome?_eq_none_iff.1 cut extension listed
    have present : stripSuffix ('.' :: extension.toList) joined.toList = some other.toList := by
      rw [stripSuffix_eq_some, same]
      simp
    rw [absent] at present
    cases present

theorem scriptModule_denotes (indexed : symbols.Indexed) {module : String} {file : Nat}
    (found : symbols.scriptModule index module = some file) :
    ∃ components, joinComponents (symbols.directory index)
        ((module.toList.splitOn '/').map String.ofList) = some components ∧
      ScriptDenotes ("/".intercalate components) (symbols.file file).path := by
  unfold scriptModule at found
  split at found
  · cases found
  · obtain ⟨components, joined, candidate⟩ := Option.bind_eq_some_iff.1 found
    refine ⟨components, joined, ?_⟩
    obtain ⟨path, listed, stored⟩ := List.exists_of_findSome?_eq_some candidate
    have stem := scriptStem_cut ("/".intercalate components)
    have named := indexed (path, file) (Std.ExtTreeMap.mem_toList_iff_getElem?_eq_some.2 stored)
    rw [named]
    rw [List.mem_append, List.mem_cons, List.mem_map, List.mem_map] at listed
    rcases listed with (whole | ⟨extension, script, rfl⟩) | ⟨extension, script, rfl⟩
    · exact Or.inl whole
    · exact Or.inr (Or.inl ⟨_, stem, Or.inr ⟨extension, script, rfl⟩⟩)
    · exact Or.inr (Or.inr ⟨extension, script, rfl⟩)

theorem search_iff {target : List String} (named : ∀ component ∈ target, component ≠ "") :
    ((∀ entry, unique (symbols.candidates target) = some entry →
        pathComponents entry.1 ∈ moduleForms target) ∧
      ((symbols.denoted target).length = 1 → (unique (symbols.candidates target)).isSome)) ↔
      symbols.Undisturbed target := by
  have count := @length_candidates symbols target named
  have only : (∀ entry, unique (symbols.candidates target) = some entry →
      pathComponents entry.1 ∈ moduleForms target) ↔
        ((symbols.candidates target).length = 1 → (symbols.foreign target).length = 0) := by
    constructor
    · intro forms single
      obtain ⟨entry, shape⟩ := List.length_eq_one_iff.1 single
      have form := forms entry (unique_eq_some.2 shape)
      rw [foreign, shape]
      simp [form]
    · intro none entry found
      have shape := unique_eq_some.1 found
      have empty := none (by rw [shape]; rfl)
      rw [foreign, shape] at empty
      simpa using empty
  rw [only, unique_isSome, Undisturbed, ← List.length_eq_zero_iff, ← List.length_eq_zero_iff]
  omega

section Decided

variable {module name : String}

theorem modulePath_of_candidate {target : List String} {entry : String × Nat}
    (found : entry ∈ symbols.candidates target) : target <:+ modulePath entry.1 := by
  unfold candidates at found
  split at found
  · cases found
  · have kept := (List.mem_filter.1 found).2
    rw [Bool.and_eq_true, List.isSuffixOf_iff_suffix] at kept
    exact kept.2

theorem nested_not_named {nested : List String} {entry : String × Nat}
    (dotted : symbols.nestedModule index module name = some nested)
    (none : symbols.denoted nested = []) (found : entry ∈ symbols.candidates nested) :
    pathComponents entry.1 ∉ moduleForms (symbols.namedModule index module) := by
  intro form
  have path := (modulePath_of_form namedModule_ne form).2
  have ending := modulePath_of_candidate found
  rw [path] at ending
  rcases (nestedModule_eq dotted).2 with same | ⟨first, deeper⟩
  · have mem : entry ∈ symbols.denoted nested := by
      rw [← filter_candidates (nestedModule_eq dotted).1]
      exact List.mem_filter.2 ⟨found, by simpa [same] using form⟩
    rw [none] at mem
    cases mem
  · have lengths := ending.length_le
    rw [deeper, List.length_append, List.length_singleton] at lengths
    omega

theorem named_not_nested {nested : List String} {entry : String × Nat}
    (several : 2 ≤ (symbols.candidates nested).length)
    (named : ∀ component ∈ nested, component ≠ "")
    (single : symbols.candidates (symbols.namedModule index module) = [entry]) :
    pathComponents entry.1 ∉ moduleForms nested := by
  intro form
  have path := (modulePath_of_form named form).2
  have ending : symbols.namedModule index module <:+ nested := by
    rw [← path]
    exact modulePath_of_candidate (by rw [single]; exact List.mem_singleton_self _)
  have sub : (symbols.candidates nested).Sublist
      (symbols.candidates (symbols.namedModule index module)) := by
    unfold candidates at single ⊢
    split
    · exact List.nil_sublist _
    · split at single
      · cases single
      · next nonempty =>
        rw [if_neg nonempty]
        apply List.monotone_filter_right
        intro other kept
        rw [Bool.and_eq_true, List.isSuffixOf_iff_suffix] at kept ⊢
        exact ⟨kept.1, ending.trans kept.2⟩
  have lengths := sub.length_le
  rw [single, List.length_singleton] at lengths
  omega

def found (symbols : RepositorySymbols) (index : Nat) (module name : String) : Option (String × Nat) :=
  match symbols.nestedModule index module name with
  | some nested => (unique (symbols.candidates nested)).or
      (unique (symbols.candidates (symbols.namedModule index module)))
  | none => unique (symbols.candidates (symbols.namedModule index module))

theorem resolve_found (python : symbols.language index = some .python)
    (relative : module.toList.head? = some '.') :
    (∀ file symbol, symbols.resolve index (.imported module name) = some (.name file symbol) →
        ∃ entry, symbols.found index module name = some entry ∧ entry.2 = file) ∧
      (symbols.resolve index (.imported module name)).isSome =
        (symbols.found index module name).isSome ∧
      ∀ entry, symbols.found index module name = some entry →
        ∃ symbol, symbols.resolve index (.imported module name) = some (.name entry.2 symbol) := by
  unfold found
  cases dotted : symbols.nestedModule index module name with
  | none =>
    rw [resolve_plain python relative dotted]
    dsimp only
    generalize unique (symbols.candidates (symbols.namedModule index module)) = only
    cases only <;> simp
  | some nested =>
    obtain ⟨tail, same⟩ := resolve_nested python relative dotted
    rw [same]
    dsimp only
    generalize unique (symbols.candidates (symbols.namedModule index module)) = second
    generalize unique (symbols.candidates nested) = first
    cases first <;> cases second <;> simp

theorem mem_paths_of_found {entry : String × Nat}
    (here : symbols.found index module name = some entry) : entry ∈ symbols.paths.toList := by
  have among : ∀ target, unique (symbols.candidates target) = some entry →
      entry ∈ symbols.paths.toList := by
    intro target single
    have mem : entry ∈ symbols.candidates target := by
      rw [unique_eq_some.1 single]
      exact List.mem_singleton_self _
    unfold candidates at mem
    split at mem
    · cases mem
    · exact (List.mem_filter.1 mem).1
  unfold found at here
  split at here
  · rcases Option.or_eq_some_iff.1 here with first | ⟨-, second⟩
    · exact among _ first
    · exact among _ second
  · exact among _ here

theorem resolvesAsDenoted_python (indexed : symbols.Indexed)
    (python : symbols.language index = some .python) (relative : module.toList.head? = some '.') :
    symbols.ResolvesAsDenoted index module name ↔
      (∀ entry, symbols.found index module name = some entry →
        pathComponents entry.1 ∈ moduleForms (symbols.denotedModule index module name)) ∧
      ((symbols.denoted (symbols.denotedModule index module name)).length = 1 →
        (symbols.found index module name).isSome) := by
  obtain ⟨leads, same, stems⟩ := @resolve_found symbols index module name python relative
  unfold ResolvesAsDenoted
  simp only [if_pos python]
  constructor
  · intro denotes
    constructor
    · intro entry here
      obtain ⟨symbol, resolved⟩ := stems entry here
      rw [← indexed entry (mem_paths_of_found here)]
      exact denotes.1 _ _ resolved
    · intro single
      rw [← same]
      exact denotes.2 python single
  · intro denotes
    constructor
    · intro file symbol resolved
      obtain ⟨entry, here, rfl⟩ := leads file symbol resolved
      rw [indexed entry (mem_paths_of_found here)]
      exact denotes.1 entry here
    · intro _ single
      rw [same]
      exact denotes.2 single

theorem found_nested {nested : List String}
    (dotted : symbols.nestedModule index module name = some nested) :
    symbols.found index module name = (unique (symbols.candidates nested)).or
      (unique (symbols.candidates (symbols.namedModule index module))) := by
  rw [found, dotted]

theorem found_below_iff {nested : List String}
    (dotted : symbols.nestedModule index module name = some nested)
    (files : symbols.denoted nested ≠ []) :
    ((∀ entry, symbols.found index module name = some entry →
        pathComponents entry.1 ∈ moduleForms nested) ∧
      ((symbols.denoted nested).length = 1 → (symbols.found index module name).isSome)) ↔
      symbols.Undisturbed nested ∧ (2 ≤ (symbols.denoted nested).length →
        (symbols.candidates (symbols.namedModule index module)).length ≠ 1) := by
  have named := (nestedModule_eq dotted).1
  have positive := List.length_pos_iff.2 files
  have count := @length_candidates symbols nested named
  rw [← search_iff named, found_nested dotted]
  -- without a single candidate below, the search for the module itself ends at no file of it
  have elsewhere : ∀ entry, unique (symbols.candidates nested) = none →
      unique (symbols.candidates (symbols.namedModule index module)) = some entry →
        pathComponents entry.1 ∉ moduleForms nested := by
    intro entry none single
    have several : ¬ (symbols.candidates nested).length = 1 := by
      rw [← unique_isSome, none]
      exact Bool.false_ne_true
    exact named_not_nested (by omega) named (unique_eq_some.1 single)
  have first := @unique_isSome _ (symbols.candidates nested)
  have second := @unique_isSome _ (symbols.candidates (symbols.namedModule index module))
  generalize unique (symbols.candidates nested) = below at *
  generalize unique (symbols.candidates (symbols.namedModule index module)) = itself at *
  cases below with
  | some entry =>
    have single : (symbols.candidates nested).length = 1 := first.1 rfl
    have few : ¬ 2 ≤ (symbols.denoted nested).length := by omega
    simp [few]
  | none =>
    have several : ¬ (symbols.candidates nested).length = 1 := fun single => by
      cases first.2 single
    cases itself with
    | none =>
      have quiet : ¬ (symbols.candidates (symbols.namedModule index module)).length = 1 :=
        fun single => by cases second.2 single
      simp [quiet]
    | some entry =>
      have single := second.1 rfl
      constructor
      · rintro ⟨denotes, -⟩
        exact absurd (denotes entry rfl) (elsewhere entry rfl rfl)
      · rintro ⟨⟨-, resolves⟩, quiet⟩
        have two : ¬ 2 ≤ (symbols.denoted nested).length := fun two => quiet two single
        cases resolves (by omega)

theorem found_itself_iff {nested : List String}
    (dotted : symbols.nestedModule index module name = some nested)
    (none : symbols.denoted nested = []) :
    ((∀ entry, symbols.found index module name = some entry →
        pathComponents entry.1 ∈ moduleForms (symbols.namedModule index module)) ∧
      ((symbols.denoted (symbols.namedModule index module)).length = 1 →
        (symbols.found index module name).isSome)) ↔
      (symbols.foreign nested).length ≠ 1 ∧
        symbols.Undisturbed (symbols.namedModule index module) := by
  have count := @length_candidates symbols nested (nestedModule_eq dotted).1
  rw [none, List.length_nil, Nat.zero_add] at count
  have first := @unique_isSome _ (symbols.candidates nested)
  rw [← search_iff namedModule_ne, found_nested dotted, ← count, Ne, ← first]
  cases below : unique (symbols.candidates nested) with
  | none => simp
  | some entry =>
    have listed : entry ∈ symbols.candidates nested := by
      rw [unique_eq_some.1 below]
      exact List.mem_singleton_self _
    have apart := nested_not_named dotted none listed
    simp [apart]

end Decided

/-- A relative import resolves as it denotes exactly when no Python file elsewhere, whose path
merely ends with the module, decides the search. Script imports always do. -/
theorem resolvesAsDenoted_iff (files : List SymbolFile) (index : Nat) (module name : String)
    (relative : module.toList.head? = some '.') :
    (new files).ResolvesAsDenoted index module name ↔
      ((new files).language index = some .python →
        (new files).ImportUndisturbed index module name) := by
  have indexed := indexed_new files
  by_cases python : (new files).language index = some .python
  · rw [resolvesAsDenoted_python indexed python relative, denotedModule, ImportUndisturbed]
    simp only [python, forall_const]
    cases dotted : (new files).nestedModule index module name with
    | none =>
      rw [found, dotted]
      exact search_iff namedModule_ne
    | some nested =>
      dsimp only
      split
      · next none => exact found_itself_iff dotted none
      · next some => exact found_below_iff dotted some
  · simp only [ResolvesAsDenoted, python, false_implies, if_false, and_true, iff_true]
    intro file symbol resolved
    rw [resolve, resolveImport, if_neg python] at resolved
    obtain ⟨target, script, same⟩ := Option.map_eq_some_iff.1 resolved
    cases same
    exact scriptModule_denotes indexed script

def importingFile (path : String) : SymbolFile where
  path := path
  observations :=
    [{ language := .python, framework := .fastApi, role := .mount, lines := ⟨1, 1⟩
       status := .confirmed, confidence := .ofNat 1 }]

theorem resolvesAsDenoted_sibling :
    ".m".toList.head? = some '.' ∧
      ((new [importingFile "a/b.py", ⟨"a/m.py", []⟩]).ResolvesAsDenoted 0 ".m" "x" ↔
        ((new [importingFile "a/b.py", ⟨"a/m.py", []⟩]).language 0 = some .python →
          (new [importingFile "a/b.py", ⟨"a/m.py", []⟩]).ImportUndisturbed 0 ".m" "x")) :=
  ⟨by decide, resolvesAsDenoted_iff _ 0 ".m" "x" (by decide)⟩

theorem sibling_resolves_elsewhere :
    ¬ (new [importingFile "a/b.py", ⟨"c/a/m.py", []⟩]).ResolvesAsDenoted 0 ".m" "x" := by
  intro denotes
  have python : (new [importingFile "a/b.py", ⟨"c/a/m.py", []⟩]).language 0 = some .python := rfl
  have search : (new [importingFile "a/b.py", ⟨"c/a/m.py", []⟩]).pythonModule 0 ".m" = some 1 := by
    decide +kernel
  have resolved : (new [importingFile "a/b.py", ⟨"c/a/m.py", []⟩]).resolve 0 (.imported ".m" "x") =
      some (.name 1 "x") := by
    have plain : splitOnce '.' "x".toList = (['x'], none) := by decide
    rw [resolve, resolveImport, if_pos python, search, plain]
    rfl
  have form := denotes.1 1 "x" resolved
  rw [if_pos python] at form
  revert form
  decide +kernel

end RepositorySymbols

end CodeSystemGraph.Sources
