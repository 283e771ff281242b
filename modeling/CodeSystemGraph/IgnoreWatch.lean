import CodeSystemGraph.IgnorePolicy
import Mathlib.Data.List.Forall2
import Mathlib.Data.List.Infix

/-!
The watcher's filter of file events (`sync_watch.rs`) against discovery. Discovery does not
enter an excluded directory; the watcher tests the whole path once.
-/

namespace CodeSystemGraph.Ignore

open Ordered Text

section Watch

structure RepositoryPathMatcher where
  policy : IgnorePolicy
  gitignore : Option (Path → Bool → Except String Bool)

def RepositoryPathMatcher.new (gitignoreOf : Path → Option (Path → Bool → Except String Bool))
    (root : Path) (policy : IgnorePolicy) : RepositoryPathMatcher where
  policy := policy
  gitignore := if policy.useGitignore then gitignoreOf root else none

def RepositoryPathMatcher.excludes (matcher : RepositoryPathMatcher) (relative : Path)
    (directory : Bool) : Except String Bool :=
  if matcher.policy.excludes relative directory then .ok true
  else
    match matcher.gitignore with
    | none => .ok false
    | some matched => matched relative directory

structure WatchRepository where
  root : Path
  ignorePolicy : IgnorePolicy
  ignoreMatcher : RepositoryPathMatcher
  explicitPaths : List Path

def WatchRepository.new (gitignoreOf : Path → Option (Path → Bool → Except String Bool))
    (root : Path) (ignorePolicy : IgnorePolicy) (explicitPaths : List Path) : WatchRepository where
  root := root
  ignorePolicy := ignorePolicy
  ignoreMatcher := .new gitignoreOf root ignorePolicy
  explicitPaths := explicitPaths

def below (root path : Path) : Option Path :=
  if root.isPrefixOf path then some (path.drop root.length) else none

def WatchRepository.relevant (repository : WatchRepository) (path : Path) (directory : Bool) :
    Except String Bool :=
  match below repository.root path with
  | none => .ok false
  | some relative =>
    if (repository.ignorePolicy.useGitignore &&
          relative.getLast?.any fun name => name.text = ".gitignore".toList) ||
        repository.explicitPaths.any fun explicit =>
          relative = explicit || relative.isPrefixOf explicit || explicit.isPrefixOf relative then
      .ok true
    else
      match repository.ignoreMatcher.excludes relative directory with
      | .error error => .error error
      | .ok excluded => .ok !excluded

end Watch

section Globs

def plain (text : List Char) : Bool := text.all fun c => !"[]\x7b\x7d\\".toList.contains c

/-- A component without wildcards. -/
def plainName (name : List Char) : Bool :=
  plain name && literalComponent name && !name.contains '/' && name != []

def recursivePattern (name : List Char) : String :=
  String.ofList ("**/".toList ++ name ++ "/**".toList)

/-- What is documented of the globs with literal separators: a name between recursive wildcards
matches what is below a component with that name, and the components of a pattern before its first
wildcard are the first ones of the text. -/
structure Globset (build : String → Except String Glob) : Prop where
  recursive : ∀ name glob, plainName name = true → build (recursivePattern name) = .ok glob →
    ∀ text, glob text = true ↔ ∃ first rest, pieces text.toList = first ++ name :: rest ∧ rest ≠ []
  literal : ∀ pattern glob, plain pattern.toList = true → build pattern = .ok glob →
    ∀ text, glob text = true → literalComponents pattern <+: pieces text.toList

def recursiveName (pattern : String) : Option (List Char) :=
  (stripPrefix "**/".toList pattern.toList).bind (stripSuffix "/**".toList)

theorem recursive_builtin : ∀ pattern ∈ protectedExcludes ++ defaultExcludes,
    ∃ name, pattern = recursivePattern name ∧ plainName name = true := by
  have all : (protectedExcludes ++ defaultExcludes).all
      (fun pattern => (recursiveName pattern).any plainName) = true := by decide +kernel
  intro pattern mem
  have here := List.all_eq_true.1 all pattern mem
  rw [Option.any_eq_true] at here
  obtain ⟨name, found, ordinary⟩ := here
  obtain ⟨rest, begins, finishes⟩ := Option.bind_eq_some_iff.1 found
  refine ⟨name, ?_, ordinary⟩
  rw [recursivePattern, List.append_assoc, ← stripSuffix_eq_some.1 finishes,
    ← stripPrefix_eq_some.1 begins, String.ofList_toList]

end Globs

section Compilation

theorem compile_spec {build : String → Except String Glob} {setError : List String → Option String}
    {patterns : List String} {globs : List Glob} (compiled : compile build setError patterns = .ok globs) :
    List.Forall₂ (fun pattern glob => build pattern = .ok glob) patterns globs := by
  unfold compile at compiled
  cases built : patterns.mapM (compileGlob build) with
  | error error =>
    rw [built] at compiled
    cases compiled
  | ok made =>
    rw [built] at compiled
    have same : made = globs := by
      dsimp only at compiled
      split at compiled
      · cases compiled
      · exact Except.ok.inj compiled
    rw [← same]
    refine (mapM_eq_ok built).imp fun pattern glob compiled => ?_
    unfold compileGlob at compiled
    split at compiled
    · next read => rw [read, Except.ok.inj compiled]
    · cases compiled

theorem any_of_forall₂ {α β : Type} {relation : α → β → Prop} {items : List α} {others : List β}
    (agree : List.Forall₂ relation items others) {other : β} (mem : other ∈ others) :
    ∃ item ∈ items, relation item other := by
  induction agree with
  | nil => cases mem
  | cons related rest ih =>
    rcases List.mem_cons.1 mem with rfl | later
    · exact ⟨_, List.mem_cons_self, related⟩
    · obtain ⟨item, listed, holds⟩ := ih later
      exact ⟨item, List.mem_cons_of_mem _ listed, holds⟩

end Compilation

section Candidates

theorem pieces_candidate {path : Path} (some : path ≠ []) : pieces (candidate path) = names path := by
  apply List.splitOn_intercalate
  · intro part mem
    obtain ⟨name, -, rfl⟩ := List.mem_map.1 mem
    exact name.normal.2.1
  · simpa [names] using some

theorem pieces_directory {path : Path} (some : path ≠ []) :
    pieces (candidate path ++ ['/']) = names path ++ [[]] := by
  rw [← pieces_candidate some, pieces, pieces, List.splitOn_eq_splitOnP, List.splitOn_eq_splitOnP,
    List.splitOnP_append_cons _ _ (by decide), List.splitOnP_nil]

theorem names_above {directory path : Path} (above : Above directory path) :
    ∃ more, more ≠ [] ∧ names path = names directory ++ names more := by
  obtain ⟨-, ⟨more, whole⟩, differs⟩ := above
  refine ⟨more, ?_, ?_⟩
  · rintro rfl
    exact differs (by rw [← whole, List.append_nil])
  · rw [← whole, names, List.map_append]
    rfl

theorem ne_nil_of_above {directory path : Path} (above : Above directory path) : path ≠ [] := by
  obtain ⟨more, some, whole⟩ := names_above above
  rintro rfl
  rw [names, List.map_nil, eq_comm, List.append_eq_nil_iff] at whole
  exact some (List.map_eq_nil_iff.1 whole.2)

end Candidates

section Pruning

variable {build : String → Except String Glob} {setError : List String → Option String}

theorem matching_below (globset : Globset build) {patterns : List String} {globs : List Glob}
    (builtin : ∀ pattern ∈ patterns, pattern ∈ protectedExcludes ++ defaultExcludes)
    (compiled : List.Forall₂ (fun pattern glob => build pattern = .ok glob) patterns globs)
    {directory path : Path} (above : Above directory path)
    (matched : matching directory true globs = true) : matching path false globs = true := by
  obtain ⟨more, some, whole⟩ := names_above above
  have found : ∃ glob ∈ globs, glob (String.ofList (candidate directory)) = true ∨
      glob (String.ofList (candidate directory ++ ['/'])) = true := by
    rw [matching, Bool.true_and, Bool.or_eq_true, List.any_eq_true, List.any_eq_true] at matched
    rcases matched with ⟨glob, mem, here⟩ | ⟨glob, mem, here⟩
    · exact ⟨glob, mem, Or.inl here⟩
    · exact ⟨glob, mem, Or.inr here⟩
  obtain ⟨glob, mem, here⟩ := found
  obtain ⟨pattern, listed, built⟩ := any_of_forall₂ compiled mem
  obtain ⟨name, rfl, ordinary⟩ := recursive_builtin pattern (builtin pattern listed)
  have exactly := globset.recursive name glob ordinary built
  have inside : ∃ first rest, names directory = first ++ name :: rest := by
    rcases here with file | slash
    · obtain ⟨first, rest, split, -⟩ := (exactly _).1 file
      rw [String.toList_ofList, pieces_candidate above.1] at split
      exact ⟨first, rest, split⟩
    · obtain ⟨first, rest, split, nonempty⟩ := (exactly _).1 slash
      rw [String.toList_ofList, pieces_directory above.1] at split
      rw [← List.dropLast_append_getLast nonempty, ← List.cons_append, ← List.append_assoc] at split
      exact ⟨first, rest.dropLast, (List.append_inj' split rfl).1⟩
  obtain ⟨first, rest, split⟩ := inside
  rw [matching, Bool.or_eq_true]
  refine Or.inl (List.any_eq_true.2 ⟨glob, mem, ?_⟩)
  rw [exactly, String.toList_ofList, pieces_candidate (ne_nil_of_above above)]
  refine ⟨first, rest ++ names more, ?_, ?_⟩
  · rw [whole, split, List.append_assoc]
    rfl
  · simp [names, some]

/-- What an accepted policy was compiled from. -/
structure Compiled (build : String → Except String Glob) (policy : IgnorePolicy) : Prop where
  protectedGlobs : List.Forall₂ (fun pattern glob => build pattern = .ok glob) protectedExcludes
    policy.protectedMatcher
  defaultGlobs : List.Forall₂ (fun pattern glob => build pattern = .ok glob) defaultExcludes
    policy.defaultMatcher
  includeGlobs : List.Forall₂ (fun pattern glob => build pattern = .ok glob) policy.includeDefaults
    policy.includeMatcher
  includePlain : ∀ pattern ∈ policy.includeDefaults, plain pattern.toList = true
  prefixes : (policy.includePrefixes, policy.includeCanMatchAnywhere) =
    includePrefixes policy.includeDefaults

theorem plain_components {text : List Char} (ordinary : plain text = true) {parts : List (List Char)}
    (among : ∀ part ∈ parts, part ∈ pieces text) : plain (['/'].intercalate parts) = true := by
  refine List.all_eq_true.2 fun c mem => ?_
  rcases mem_intercalate mem with slash | inside
  · rw [slash]
    decide
  · obtain ⟨part, listed, here⟩ := inside
    have found := among part listed
    rw [pieces, List.splitOn_eq_splitOnP] at found
    exact List.all_eq_true.1 ordinary c (mem_splitOnP found c here).1

theorem plain_of_supported {text : List Char} {components : List (List Char)}
    (supported : ¬unsupportedSyntax text components = true) (backslash : ¬text.contains '\\' = true) :
    plain text = true := by
  have refused : "[]\x7b\x7d\\".toList = "[]\x7b\x7d".toList ++ ['\\'] := by decide +kernel
  rw [unsupportedSyntax, Bool.or_eq_true, not_or, List.any_eq_true] at supported
  refine List.all_eq_true.2 fun c mem => ?_
  have bracket : c ∉ "[]\x7b\x7d".toList := by
    intro inside
    exact supported.1 ⟨c, mem, List.contains_iff_mem.2 inside⟩
  have slash : c ≠ '\\' := by
    rintro rfl
    exact backslash (List.contains_iff_mem.2 mem)
  rw [Bool.not_eq_true', ← Bool.not_eq_true, List.contains_iff_mem, refused, List.mem_append,
    List.mem_singleton]
  exact not_or.2 ⟨bracket, slash⟩

theorem normalizePattern_plain {pattern normalized : String}
    (accepted : normalizePattern pattern = .ok normalized) : plain normalized.toList = true := by
  unfold normalizePattern at accepted
  dsimp only at accepted
  generalize listed : (pieces pattern.toList).filter
    (fun component => component ≠ [] && component ≠ ['.']) = components at accepted
  generalize (decide (pattern.toList.getLast? = some '/') ||
    decide (((pieces pattern.toList).filter (· ≠ [])).getLast? = some ['.'])) = terminal at accepted
  have among : ∀ part ∈ components, part ∈ pieces pattern.toList := by
    intro part mem
    rw [← listed] at mem
    exact (List.mem_filter.1 mem).1
  split_ifs at accepted with blank absolute backslash parent control missing unsupported again
  all_goals
    have ordinary := plain_of_supported unsupported backslash
    have joined := plain_components ordinary among
    rw [← Except.ok.inj accepted, String.toList_ofList]
  · rw [plain, List.all_append, ← plain, joined]
    decide
  · exact joined

theorem compiled_of_withGitignore {excludes includes : List String} {useGitignore : Bool}
    {policy : IgnorePolicy}
    (accepted : IgnorePolicy.withGitignore build setError excludes includes useGitignore = .ok policy) :
    Compiled build policy ∧ policy.useGitignore = useGitignore := by
  unfold IgnorePolicy.withGitignore at accepted
  obtain ⟨configured, -, accepted⟩ := bind_eq_ok.1 accepted
  obtain ⟨defaults, normalized, accepted⟩ := bind_eq_ok.1 accepted
  obtain ⟨-, -, accepted⟩ := bind_eq_ok.1 accepted
  obtain ⟨protectedMatcher, first, accepted⟩ := bind_eq_ok.1 accepted
  obtain ⟨defaultMatcher, second, accepted⟩ := bind_eq_ok.1 accepted
  obtain ⟨configuredMatcher, -, accepted⟩ := bind_eq_ok.1 accepted
  obtain ⟨includeMatcher, third, accepted⟩ := bind_eq_ok.1 accepted
  rw [pure_eq_ok] at accepted
  rw [← accepted]
  refine ⟨⟨compile_spec first, compile_spec second, compile_spec third, ?_, rfl⟩, rfl⟩
  intro pattern mem
  obtain ⟨source, -, made⟩ := any_of_forall₂ (mapM_eq_ok normalized) ((mem_sortDedup id).1 mem)
  exact normalizePattern_plain made

theorem mayContain_of_include (globset : Globset build) {policy : IgnorePolicy}
    (compiled : Compiled build policy) {directory path : Path} (above : Above directory path)
    (included : matching path false policy.includeMatcher = true) :
    policy.mayContainIncludedDefault directory = true := by
  obtain ⟨more, -, whole⟩ := names_above above
  rw [matching, Bool.false_and, Bool.or_false, List.any_eq_true] at included
  obtain ⟨glob, mem, here⟩ := included
  obtain ⟨pattern, listed, built⟩ := any_of_forall₂ compiled.includeGlobs mem
  have begins := globset.literal pattern glob (compiled.includePlain pattern listed) built _ here
  rw [String.toList_ofList, pieces_candidate (ne_nil_of_above above)] at begins
  have nonempty : ∀ part ∈ literalComponents pattern, part ≠ [] := by
    intro part among
    obtain ⟨name, -, rfl⟩ := List.mem_map.1 (begins.subset among)
    exact name.normal.1
  have literal : includePrefix pattern = literalComponents pattern :=
    List.filter_eq_self.2 fun part among => by simpa using nonempty part among
  have fields := Prod.mk.inj compiled.prefixes
  unfold IgnorePolicy.mayContainIncludedDefault
  by_cases anywhere : includePrefix pattern = []
  · have known : policy.includeCanMatchAnywhere = true := by
      rw [fields.2, List.contains_iff_mem]
      exact anywhere ▸ List.mem_map_of_mem listed
    rw [known, Bool.true_or]
  · have known : includePrefix pattern ∈ policy.includePrefixes := by
      rw [fields.1, mem_sortDedup]
      exact List.mem_filter.2 ⟨List.mem_map_of_mem listed, by simpa using anywhere⟩
    rw [Bool.or_eq_true, List.any_eq_true]
    refine Or.inr ⟨_, known, ?_⟩
    rw [Bool.or_eq_true, List.isPrefixOf_iff_prefix, List.isPrefixOf_iff_prefix, literal]
    exact List.prefix_or_prefix_of_prefix (whole ▸ List.prefix_append _ _) begins

theorem excludes_above (globset : Globset build) {policy : IgnorePolicy}
    (compiled : Compiled build policy) {directory path : Path} (above : Above directory path)
    (kept : policy.excludes path false = false) :
    policy.excludes directory true = matching directory true policy.configuredMatcher := by
  unfold IgnorePolicy.excludes at kept
  rw [Bool.false_and, Bool.not_false, Bool.and_true] at kept
  split at kept
  · cases kept
  · next outside =>
    rw [Bool.or_eq_true, not_or] at outside
    have unprotected : matching directory true policy.protectedMatcher = false := by
      rw [← Bool.not_eq_true]
      intro matched
      exact outside.1 (matching_below globset (fun pattern mem => List.mem_append_left _ mem)
        compiled.protectedGlobs above matched)
    unfold IgnorePolicy.excludes
    rw [unprotected, Bool.false_or]
    cases configured : matching directory true policy.configuredMatcher with
    | true => rfl
    | false =>
      rw [if_neg Bool.false_ne_true]
      cases defaulted : matching directory true policy.defaultMatcher with
      | false => rfl
      | true =>
        have matched := matching_below globset (fun pattern mem => List.mem_append_right _ mem)
          compiled.defaultGlobs above defaulted
        rw [matched, Bool.true_and, Bool.not_eq_false'] at kept
        rw [mayContain_of_include globset compiled above kept, Bool.and_true, Bool.not_true,
          Bool.and_false]

end Pruning

section Walk

variable {ignored : Path → Bool → Bool} {policy : IgnorePolicy}

theorem filtered_eq (native : policy.useGitignore = false) (path : Path) (directory : Bool) :
    filtered ignored policy none path directory = policy.excludes path directory := by
  rw [filtered, native, Option.any_none, Bool.or_false, Bool.false_and, Bool.or_false]

theorem ne_nil_of_hasFile {tree : Entries} : ∀ {path : Path}, tree.HasFile path → path ≠ [] := by
  induction tree with
  | none =>
    intro path file
    cases file
  | file name rest ih =>
    intro path file
    rcases file with rfl | later
    · exact List.cons_ne_nil _ _
    · exact ih later
  | directory name children rest inner ih =>
    intro path file
    rcases file with ⟨below, rfl, -⟩ | later
    · exact List.cons_ne_nil _ _
    · exact ih later
  | symlink name rest ih => exact ih
  | special name rest ih => exact ih

theorem above_cons (name : FileName) {below : Path} (some : below ≠ []) (directory : Path) :
    Above directory (name :: below) ↔
      directory = [name] ∨ ∃ inner, directory = name :: inner ∧ Above inner below := by
  constructor
  · rintro ⟨nonempty, begins, differs⟩
    obtain ⟨first, inner, rfl⟩ := List.exists_cons_of_ne_nil nonempty
    obtain ⟨rfl, later⟩ := List.cons_prefix_cons.1 begins
    by_cases short : inner = []
    · exact Or.inl (by rw [short])
    · exact Or.inr ⟨inner, rfl, short, later, fun same => differs (by rw [same])⟩
  · rintro (rfl | ⟨inner, rfl, -, begins, differs⟩)
    · exact ⟨List.cons_ne_nil _ _, List.cons_prefix_cons.2 ⟨rfl, List.nil_prefix⟩,
        fun same => some (List.cons.inj same).2.symm⟩
    · exact ⟨List.cons_ne_nil _ _, List.cons_prefix_cons.2 ⟨rfl, begins⟩,
        fun same => differs (List.cons.inj same).2⟩

theorem not_above_single (directory : Path) (name : FileName) : ¬Above directory [name] := by
  rintro ⟨nonempty, begins, differs⟩
  obtain ⟨first, inner, rfl⟩ := List.exists_cons_of_ne_nil nonempty
  obtain ⟨rfl, later⟩ := List.cons_prefix_cons.1 begins
  exact differs (by rw [List.prefix_nil.1 later])

theorem mem_discoverIn (native : policy.useGitignore = false) {path : Path} (tree : Entries) :
    ∀ here : Path, path ∈ discoverIn ignored policy none here tree ↔
      ∃ inside, path = here ++ inside ∧ tree.HasFile inside ∧
        policy.excludes (here ++ inside) false = false ∧
          ∀ directory, Above directory inside → policy.excludes (here ++ directory) true = false := by
  induction tree with
  | none =>
    intro here
    simp [discoverIn, Entries.HasFile]
  | file name rest ih =>
    intro here
    have first : path ∈ (if policy.excludes (here ++ [name]) false = true then []
        else [here ++ [name]]) ↔ path = here ++ [name] ∧ policy.excludes (here ++ [name]) false = false := by
      split
      · next excluded => simp [excluded]
      · next kept => simpa using fun _ => kept
    rw [discoverIn, List.mem_append, ih, filtered_eq native, first]
    constructor
    · rintro (⟨rfl, kept⟩ | ⟨inside, rfl, file, kept, reached⟩)
      · exact ⟨[name], rfl, Or.inl rfl, kept, fun directory above =>
          absurd above (not_above_single directory name)⟩
      · exact ⟨inside, rfl, Or.inr file, kept, reached⟩
    · rintro ⟨inside, rfl, rfl | file, kept, reached⟩
      · exact Or.inl ⟨rfl, kept⟩
      · exact Or.inr ⟨inside, rfl, file, kept, reached⟩
  | directory name children rest inner ih =>
    intro here
    have first : path ∈ (if policy.excludes (here ++ [name]) true = true then []
        else discoverIn ignored policy none (here ++ [name]) children) ↔
        policy.excludes (here ++ [name]) true = false ∧
          path ∈ discoverIn ignored policy none (here ++ [name]) children := by
      split
      · next excluded => simp [excluded]
      · next kept => simp [kept]
    rw [discoverIn, List.mem_append, ih, filtered_eq native, first, inner]
    constructor
    · rintro (⟨entered, below, rfl, file, kept, reached⟩ | ⟨inside, rfl, file, kept, reached⟩)
      · refine ⟨name :: below, List.append_assoc .., Or.inl ⟨below, rfl, file⟩, ?_, ?_⟩
        · rw [List.append_assoc] at kept
          exact kept
        · intro directory above
          rcases (above_cons name (ne_nil_of_hasFile file) directory).1 above with rfl | ⟨deeper, rfl, within⟩
          · exact entered
          · have later := reached deeper within
            rw [List.append_assoc] at later
            exact later
      · exact ⟨inside, rfl, Or.inr file, kept, reached⟩
    · rintro ⟨inside, rfl, ⟨below, rfl, file⟩ | file, kept, reached⟩
      · have directories := above_cons name (ne_nil_of_hasFile file)
        refine Or.inl ⟨reached [name] ((directories [name]).2 (Or.inl rfl)), below, ?_, file, ?_, ?_⟩
        · rw [List.append_assoc]
          rfl
        · rw [List.append_assoc]
          exact kept
        · intro directory above
          rw [List.append_assoc]
          exact reached _ ((directories _).2 (Or.inr ⟨directory, rfl, above⟩))
      · exact Or.inr ⟨inside, rfl, file, kept, reached⟩
  | symlink name rest ih => exact ih
  | special name rest ih => exact ih

end Walk

section Agreement

variable {build : String → Except String Glob} {setError : List String → Option String}

theorem below_append (root path : Path) : below root (root ++ path) = some path := by
  rw [below, if_pos (List.isPrefixOf_iff_prefix.2 (List.prefix_append _ _)), List.drop_left]

theorem relevant_eq (gitignoreOf : Path → Option (Path → Bool → Except String Bool))
    {policy : IgnorePolicy} (native : policy.useGitignore = false) (root path : Path)
    (directory : Bool) :
    (WatchRepository.new gitignoreOf root policy []).relevant (root ++ path) directory =
      .ok !policy.excludes path directory := by
  have opened : below (WatchRepository.new gitignoreOf root policy []).root (root ++ path) = some path :=
    below_append root path
  unfold WatchRepository.relevant
  rw [opened]
  unfold WatchRepository.new RepositoryPathMatcher.new RepositoryPathMatcher.excludes
  simp only [native, Bool.false_and, List.any_nil, Bool.or_false, Bool.false_eq_true, if_false]
  cases policy.excludes path directory <;> rfl

end Agreement

section Instance

def wildcard : List Char → List Char → Bool
  | [], text => text.isEmpty
  | c :: rest, text =>
    if c = '*' then text.tails.any (wildcard rest)
    else
      match text with
      | [] => false
      | d :: text => (c = '?' || c = d) && wildcard rest text

/-- `**` across components; at the end, one component or more. -/
def matchComponents : List (List Char) → List (List Char) → Bool
  | [], texts => texts.isEmpty
  | part :: parts, texts =>
    if part = "**".toList then
      if parts = [] then texts ≠ [] else texts.tails.any (matchComponents parts)
    else
      match texts with
      | [] => false
      | text :: texts => wildcard part text && matchComponents parts texts

def componentGlobs (pattern : String) : Except String Glob :=
  .ok fun text => matchComponents (pieces pattern.toList) (pieces text.toList)

theorem wildcard_literal {part : List Char} : literalComponent part = true →
    ∀ text, wildcard part text = true ↔ part = text := by
  induction part with
  | nil =>
    intro _ text
    cases text <;> simp [wildcard]
  | cons c part ih =>
    intro literal text
    simp only [literalComponent, Bool.and_eq_true, Bool.not_eq_true', List.contains_cons,
      Bool.or_eq_false_iff, beq_eq_false_iff_ne] at literal
    have rest : literalComponent part = true := by
      rw [literalComponent, literal.1.2, literal.2.2]
      rfl
    cases text with
    | nil => simp [wildcard, Ne.symm literal.1.1]
    | cons d text => simp [wildcard, Ne.symm literal.1.1, ih rest, Ne.symm literal.2.1]

theorem matchComponents_literal {part : List Char} (literal : literalComponent part = true)
    (parts texts : List (List Char)) :
    matchComponents (part :: parts) texts = true ↔
      ∃ rest, texts = part :: rest ∧ matchComponents parts rest = true := by
  have single : part ≠ "**".toList := by
    rintro rfl
    exact absurd literal (by decide)
  cases texts with
  | nil =>
    rw [matchComponents, if_neg single]
    simp
  | cons text texts =>
    rw [matchComponents, if_neg single, Bool.and_eq_true, wildcard_literal literal]
    constructor
    · rintro ⟨rfl, later⟩
      exact ⟨texts, rfl, later⟩
    · rintro ⟨rest, same, later⟩
      obtain ⟨rfl, rfl⟩ := List.cons.inj same
      exact ⟨rfl, later⟩

theorem literal_prefix {parts : List (List Char)} : ∀ {texts : List (List Char)},
    matchComponents parts texts = true → parts.takeWhile literalComponent <+: texts := by
  induction parts with
  | nil =>
    intro texts _
    exact List.nil_prefix
  | cons part parts ih =>
    intro texts matched
    by_cases literal : literalComponent part = true
    · obtain ⟨rest, rfl, later⟩ := (matchComponents_literal literal parts texts).1 matched
      rw [List.takeWhile_cons_of_pos literal]
      exact List.cons_prefix_cons.2 ⟨rfl, ih later⟩
    · rw [List.takeWhile_cons_of_neg literal]
      exact List.nil_prefix

theorem globset_componentGlobs : Globset componentGlobs where
  recursive := by
    intro name glob ordinary built text
    rw [← Except.ok.inj built]
    rw [plainName, Bool.and_eq_true, Bool.and_eq_true, Bool.and_eq_true] at ordinary
    obtain ⟨⟨⟨-, literal⟩, slash⟩, -⟩ := ordinary
    have clean : '/' ∉ name := by simpa using slash
    have parts : pieces (recursivePattern name).toList = ["**".toList, name, "**".toList] := by
      have joined : (recursivePattern name).toList =
          ['/'].intercalate ["**".toList, name, "**".toList] := by
        rw [recursivePattern, String.toList_ofList]
        rfl
      rw [joined]
      apply List.splitOn_intercalate
      · intro part mem
        simp only [List.mem_cons, List.not_mem_nil, or_false] at mem
        rcases mem with rfl | rfl | rfl
        · decide
        · exact clean
        · decide
      · exact List.cons_ne_nil _ _
    have last : ∀ texts, matchComponents ["**".toList] texts = true ↔ texts ≠ [] := by
      intro texts
      simp [matchComponents]
    have first : ∀ texts, matchComponents ["**".toList, name, "**".toList] texts = true ↔
        ∃ tail ∈ texts.tails, matchComponents [name, "**".toList] tail = true := by
      intro texts
      simp [matchComponents]
    dsimp only
    rw [parts, first]
    constructor
    · rintro ⟨tail, mem, matched⟩
      obtain ⟨rest, rfl, later⟩ := (matchComponents_literal literal _ _).1 matched
      obtain ⟨before, whole⟩ := (List.mem_tails _ _).1 mem
      exact ⟨before, rest, whole.symm, (last rest).1 later⟩
    · rintro ⟨before, rest, whole, some⟩
      refine ⟨name :: rest, (List.mem_tails _ _).2 ⟨before, whole.symm⟩, ?_⟩
      exact (matchComponents_literal literal _ _).2 ⟨rest, rfl, (last rest).2 some⟩
  literal := by
    intro pattern glob _ built text matched
    rw [← Except.ok.inj built] at matched
    exact literal_prefix matched

end Instance

section Discovered

variable {build : String → Except String Glob} {setError : List String → Option String}

/-- A file is found by discovery exactly when its events concern the watcher, unless a configured
pattern excludes a directory above it and nothing excludes the file. -/
theorem discovery_agrees_iff (globset : Globset build) {excludes includes : List String}
    {policy : IgnorePolicy}
    (accepted : IgnorePolicy.withGitignore build setError excludes includes false = .ok policy)
    (ignored : Path → Bool → Bool) (gitignoreOf : Path → Option (Path → Bool → Except String Bool))
    (root : Path) (tree : Entries) (path : Path) (file : tree.HasFile path) :
    (path ∈ discoverRepositoryFiles ignored policy none tree ↔
        (WatchRepository.new gitignoreOf root policy []).relevant (root ++ path) false = .ok true) ↔
      (policy.excludes path false = true ∨ ∀ directory, Above directory path →
        matching directory true policy.configuredMatcher = false) := by
  obtain ⟨compiled, native⟩ := compiled_of_withGitignore accepted
  have found : path ∈ discoverRepositoryFiles ignored policy none tree ↔
      policy.excludes path false = false ∧
        ∀ directory, Above directory path → policy.excludes directory true = false := by
    rw [discoverRepositoryFiles, mem_sortDedup, mem_discoverIn native]
    constructor
    · rintro ⟨inside, rfl, -, kept, reached⟩
      exact ⟨kept, reached⟩
    · rintro ⟨kept, reached⟩
      exact ⟨path, rfl, file, kept, reached⟩
  rw [found, relevant_eq gitignoreOf native, Except.ok.injEq, Bool.not_eq_true']
  cases kept : policy.excludes path false with
  | true => simp
  | false =>
    have above : (∀ directory, Above directory path → policy.excludes directory true = false) ↔
        ∀ directory, Above directory path → matching directory true policy.configuredMatcher = false :=
      forall₂_congr fun directory above => by rw [excludes_above globset compiled above kept]
    simp [above]

def sourceName : FileName := ⟨"src".toList, by decide⟩

def mainName : FileName := ⟨"main.rs".toList, by decide⟩

def generatedName : FileName := ⟨"generated".toList, by decide⟩

theorem discovery_agrees_iff_logs :
    ∃ policy, IgnorePolicy.withGitignore componentGlobs (fun _ => none) ["*.log"] [] false = .ok policy ∧
      ([sourceName, mainName] ∈ discoverRepositoryFiles (fun _ _ => false) policy none
          (.directory sourceName (.file mainName .none) .none) ↔
        (WatchRepository.new (fun _ => none) [] policy []).relevant [sourceName, mainName] false =
          .ok true) := by
  have made : isOkAnd (IgnorePolicy.withGitignore componentGlobs (fun _ => none) ["*.log"] [] false)
      (fun policy => !matching [sourceName] true policy.configuredMatcher) = true := by
    decide +kernel
  obtain ⟨policy, accepted, entered⟩ := isOkAnd_iff.1 made
  refine ⟨policy, accepted, (discovery_agrees_iff globset_componentGlobs accepted (fun _ _ => false)
    (fun _ => none) [] (.directory sourceName (.file mainName .none) .none) [sourceName, mainName]
      (Or.inl ⟨[mainName], rfl, Or.inl rfl⟩)).2 (Or.inr fun directory above => ?_)⟩
  rcases (above_cons sourceName (List.cons_ne_nil _ _) directory).1 above with rfl | ⟨inner, rfl, within⟩
  · simpa using entered
  · exact absurd within (not_above_single inner mainName)

/-- The directory is not entered, and the path of the file below it is not excluded. -/
theorem watch_events_below_excluded_directory :
    ¬∀ (build : String → Except String Glob) (setError : List String → Option String),
      Globset build → ∀ excludes includes policy,
        IgnorePolicy.withGitignore build setError excludes includes false = .ok policy →
      ∀ (ignored : Path → Bool → Bool)
        (gitignoreOf : Path → Option (Path → Bool → Except String Bool)) (root : Path)
        (tree : Entries) (path : Path), tree.HasFile path →
      (path ∈ discoverRepositoryFiles ignored policy none tree ↔
        (WatchRepository.new gitignoreOf root policy []).relevant (root ++ path) false = .ok true) := by
  intro agrees
  have made : isOkAnd (IgnorePolicy.withGitignore componentGlobs (fun _ => none) ["generated"] [] false)
      (fun policy => !policy.useGitignore && !policy.excludes [generatedName, mainName] false &&
        (discoverRepositoryFiles (fun _ _ => false) policy none
          (.directory generatedName (.file mainName .none) .none)).isEmpty) = true := by
    decide +kernel
  obtain ⟨policy, accepted, facts⟩ := isOkAnd_iff.1 made
  rw [Bool.and_eq_true, Bool.and_eq_true, Bool.not_eq_true', Bool.not_eq_true'] at facts
  obtain ⟨⟨native, kept⟩, empty⟩ := facts
  have same := agrees componentGlobs (fun _ => none) globset_componentGlobs _ _ policy accepted
    (fun _ _ => false) (fun _ => none) [] (.directory generatedName (.file mainName .none) .none)
    [generatedName, mainName] (Or.inl ⟨[mainName], rfl, Or.inl rfl⟩)
  have wakes := relevant_eq (fun _ => none) native [] [generatedName, mainName] false
  rw [kept] at wakes
  have found := same.2 wakes
  rw [List.isEmpty_iff.1 empty] at found
  cases found

end Discovered

end CodeSystemGraph.Ignore
