import CodeSystemGraph.ChangePatch
import Mathlib.Data.List.Lex
import Mathlib.Data.Prod.Lex

/-! The commit gate: which changed files a modelled `git commit` selects. Git's own
matching of pathspecs is stated beside the gate's literal one; what a magic
pathspec matches is a parameter. -/

namespace CodeSystemGraph.Changes
open Model Ordered Text

inductive ChangeScope
  | unstaged
  | staged
  | all
  | compare (reference : String)
  | commit (sha : String)
  | range (base head : String)
  | pullRequest (provider : String) (number : Nat)
deriving DecidableEq

structure ChangeSet where
  scope : ChangeScope
  files : List ChangedFile

inductive CommitSelection
  | default
  | allTracked
  | only (pathspecs : List String)
  | includePaths (pathspecs : List String)

structure CommitIntent where
  selection : CommitSelection

structure CommitFileSelection where
  path : NativePath
  layers : List ChangeSourceLayer
deriving DecidableEq

structure CommitGate where
  allowed : Bool
  selected : List CommitFileSelection
  reasons : List String
deriving DecidableEq

section Order

def encodingRank : NativePathEncoding → Nat
  | .unixBytes => 0
  | .windowsWide => 1
  | .utf8 => 2

def pathKey (path : NativePath) : Nat ×ₗ List Nat ×ₗ String :=
  toLex (encodingRank path.encoding, toLex (path.bytes.map UInt8.toNat, path.display))

theorem pathKey_injective : Function.Injective pathKey := by
  rintro ⟨encoding, bytes, display⟩ ⟨encoding', bytes', display'⟩ same
  obtain ⟨rank, rest⟩ := Prod.mk.inj (toLex.injective same)
  obtain ⟨list, rfl⟩ := Prod.mk.inj (toLex.injective rest)
  obtain rfl := List.map_injective_iff.mpr (fun _ _ => UInt8.toNat_inj.mp) list
  have kind : encoding = encoding' := by
    cases encoding <;> cases encoding' <;> first | rfl | cases rank
  rw [kind]

instance : LinearOrder NativePath := LinearOrder.lift' pathKey pathKey_injective

def layerRank : ChangeSourceLayer → Nat
  | .staged => 0
  | .worktree => 1
  | .untracked => 2
  | .commit => 3

end Order

section Gate

def validatePathspec (pathspec : String) : Except ChangeError Unit :=
  let text := pathspec.toList
  let invalid := text.isEmpty || ['-'].isPrefixOf text || [':', '('].isPrefixOf text ||
    containsText text ['.', '.'] || text.any (fun c => c ∈ ['*', '?', '[', ']']) ||
    text.any isControl || ['/'].isPrefixOf text || (text.splitOn '/').any (· = ['.', '.'])
  if invalid then .error (.invalidPathspec pathspec) else .ok ()

def effectivePath (file : ChangedFile) : Option NativePath := file.newPath.or file.oldPath

def literalPathspecMatches (pathspec : String) (path : Bytes) : Bool :=
  let spec := ((bytes pathspec).reverse.dropWhile (· = 47)).reverse
  path == spec || (spec.isPrefixOf path && path[spec.length]? == some 47)

def CommitSelection.pathspecs : CommitSelection → Option (List String)
  | .only pathspecs | .includePaths pathspecs => some pathspecs
  | .default | .allTracked => none

/-- Whether the loop over the files selects one with this path. -/
def included (selection : CommitSelection) (path : NativePath) (source : ChangeSourceLayer) : Bool :=
  let matched := selection.pathspecs.all fun specs =>
    specs.any fun spec => literalPathspecMatches spec path.bytes
  match selection with
  | .default => source = .staged
  | .allTracked => source = .staged || source = .worktree
  | .only _ => matched && (source = .staged || source = .worktree || source = .untracked)
  | .includePaths _ => source = .staged || (matched && (source = .worktree || source = .untracked))

abbrev Selected := List (NativePath × List ChangeSourceLayer)

def selectFile (selection : CommitSelection) (selected : Selected) (file : ChangedFile) : Selected :=
  match effectivePath file with
  | none => selected
  | some path =>
    if included selection path file.source then
      upsert path [] (fun layers => sortDedup layerRank (layers ++ [file.source])) selected
    else selected

def evaluateCommitGate (changeSet : ChangeSet) (intent : CommitIntent) :
    Except ChangeError CommitGate := do
  (intent.selection.pathspecs.getD []).forM validatePathspec
  let selected := changeSet.files.foldl (selectFile intent.selection) []
  let reasons :=
    (if selected.isEmpty then ["The modeled command selects no analyzed changes."] else []) ++
    (match intent.selection with
      | .only _ =>
        if selected.any (fun entry => 1 < entry.2.length) then
          ["`--only` overlaps staged and worktree layers; the exact committed blob is ambiguous."]
        else []
      | _ => [])
  return {
    allowed := reasons.isEmpty
    selected := selected.map fun entry => ⟨entry.1, entry.2⟩
    reasons }

end Gate

section Git

def isMagic (pathspec : String) : Bool := [':'].isPrefixOf pathspec.toList

/-- A pathspec with a component `.`, which Git drops. -/
def hasDot (pathspec : String) : Bool := ((bytes pathspec).splitOn 47).contains [46]

/-- The pathspec without its components `.`. -/
def withoutDots (pathspec : String) : Bytes :=
  [47].intercalate (((bytes pathspec).splitOn 47).filter (· ≠ [46]))

/-- A path equal to the pathspec, or below it as a directory; the empty one is the
root of the worktree. -/
def belowOrEqual (spec path : Bytes) : Bool :=
  spec.isEmpty || path == spec || (spec ++ [47]).isPrefixOf path ||
    ([47].isSuffixOf spec && spec.isPrefixOf path)

def gitMatches (magic : String → Bytes → Bool) (pathspec : String) (path : Bytes) : Bool :=
  if isMagic pathspec then magic pathspec path else belowOrEqual (withoutDots pathspec) path

variable (magic : String → Bytes → Bool)

def gitSelects (pathspec : String) (file : ChangedFile) : Bool :=
  file.oldPath.any (fun path => gitMatches magic pathspec path.bytes) ||
    file.newPath.any fun path => gitMatches magic pathspec path.bytes

def isTracked (file : ChangedFile) : Bool := file.source = .staged || file.source = .worktree

/-- The tracked changes that the modelled command records. -/
def recorded (selection : CommitSelection) (file : ChangedFile) : Bool :=
  match selection with
  | .default => file.source = .staged
  | .allTracked => isTracked file
  | .only pathspecs => isTracked file && pathspecs.any fun spec => gitSelects magic spec file
  | .includePaths pathspecs =>
    file.source = .staged || (isTracked file && pathspecs.any fun spec => gitSelects magic spec file)

end Git

section Matching

variable {magic : String → Bytes → Bool}

theorem trimmed_append (spec : Bytes) : ∃ slashes : Bytes, (∀ byte ∈ slashes, byte = 47) ∧
    spec = (spec.reverse.dropWhile (· = 47)).reverse ++ slashes := by
  refine ⟨(spec.reverse.takeWhile (· = 47)).reverse, fun byte mem => ?_, ?_⟩
  · simpa using List.all_eq_true.mp List.all_takeWhile byte (List.mem_reverse.mp mem)
  · rw [← List.reverse_append, List.takeWhile_append_dropWhile, List.reverse_reverse]

theorem literalPathspecMatches_of_append {pathspec : String} {path tail : Bytes}
    (split : path = ((bytes pathspec).reverse.dropWhile (· = 47)).reverse ++ tail)
    (ends : ∀ byte ∈ tail.head?, byte = 47) : literalPathspecMatches pathspec path = true := by
  cases tail with
  | nil => simp [literalPathspecMatches, split]
  | cons byte tail =>
    obtain rfl : byte = 47 := ends byte rfl
    simp [literalPathspecMatches, split]

theorem withoutDots_eq {pathspec : String} (plain : hasDot pathspec = false) :
    withoutDots pathspec = bytes pathspec := by
  have kept : ((bytes pathspec).splitOn 47).filter (· ≠ [46]) = (bytes pathspec).splitOn 47 := by
    refine List.filter_eq_self.mpr fun component mem => ?_
    have absent : [46] ∉ (bytes pathspec).splitOn 47 := by simpa [hasDot] using plain
    simpa using fun same : component = [46] => absent (same ▸ mem)
  rw [withoutDots, kept, List.intercalate_splitOn]

theorem bytes_ne_nil {pathspec : String} (valid : validatePathspec pathspec = .ok ()) :
    bytes pathspec ≠ [] := by
  intro empty
  obtain rfl : pathspec = "" :=
    String.toByteArray_inj.mp (ByteArray.ext (Array.toList_inj.mp empty))
  cases valid

theorem literal_of_gitMatches {pathspec : String} {path : Bytes}
    (valid : validatePathspec pathspec = .ok ()) (literal : isMagic pathspec = false)
    (plain : hasDot pathspec = false) (matched : gitMatches magic pathspec path = true) :
    literalPathspecMatches pathspec path = true := by
  obtain ⟨slashes, all, split⟩ := trimmed_append (bytes pathspec)
  have cases : path = bytes pathspec ∨ bytes pathspec ++ [47] <+: path ∨
      ([47] <:+ bytes pathspec ∧ bytes pathspec <+: path) := by
    simpa [gitMatches, literal, withoutDots_eq plain, belowOrEqual, bytes_ne_nil valid,
      or_assoc] using matched
  have slashed : ∀ rest : Bytes, (slashes = [] → ∀ byte ∈ rest.head?, byte = 47) →
      path = bytes pathspec ++ rest → literalPathspecMatches pathspec path = true := by
    intro rest ends whole
    refine literalPathspecMatches_of_append
      (by rw [whole, ← List.append_assoc, ← split] : path = _ ++ (slashes ++ rest)) ?_
    cases slashes with
    | nil => exact ends rfl
    | cons slash slashes => simpa using all slash (by simp)
  rcases cases with rfl | ⟨rest, whole⟩ | ⟨⟨front, slash⟩, ⟨rest, whole⟩⟩
  · exact slashed [] (by simp) (by simp)
  · exact slashed (47 :: rest) (by simp) (by rw [← whole]; simp)
  · refine slashed rest (fun none => ?_) whole.symm
    -- A trailing slash is trimmed off, so the trimmed text is shorter.
    rw [none, List.append_nil] at split
    have shorter := congrArg List.length split
    rw [← slash] at shorter
    simp only [List.reverse_append, List.reverse_singleton, List.singleton_append,
      List.dropWhile_cons_of_pos, decide_true, List.length_reverse, List.length_append,
      List.length_singleton] at shorter
    have bound := (List.dropWhile_sublist (· = 47) (l := front.reverse)).length_le
    rw [List.length_reverse] at bound
    omega

end Matching

section Selection

variable {selection : CommitSelection}

theorem lookup_selectFile (selected : Selected) (file : ChangedFile) (path : NativePath) :
    (selectFile selection selected file).lookup path =
      if effectivePath file = some path ∧ included selection path file.source then
        some (sortDedup layerRank ((selected.lookup path).getD [] ++ [file.source]))
      else selected.lookup path := by
  unfold selectFile
  cases found : effectivePath file with
  | none => simp
  | some here =>
    by_cases same : here = path
    · subst same
      by_cases chosen : included selection here file.source
      · simp [chosen, lookup_upsert]
      · simp [chosen]
    · by_cases chosen : included selection here file.source
      · simp [chosen, lookup_upsert, same, Ne.symm same]
      · simp [chosen, same]

theorem mem_lookup_foldl {layer : ChangeSourceLayer} {path : NativePath} {files : List ChangedFile} :
    ∀ {selected : Selected},
      layer ∈ ((files.foldl (selectFile selection) selected).lookup path).getD [] ↔
        layer ∈ (selected.lookup path).getD [] ∨
          ∃ file ∈ files, effectivePath file = some path ∧ included selection path layer ∧
            file.source = layer := by
  induction files with
  | nil => simp
  | cons file files ih =>
    intro selected
    rw [List.foldl_cons, ih, lookup_selectFile]
    by_cases here : effectivePath file = some path ∧ included selection path file.source
    · rw [if_pos here, Option.getD_some, mem_sortDedup, List.mem_append, List.mem_singleton]
      simp only [List.mem_cons, or_and_right, exists_or, exists_eq_left, or_assoc]
      refine or_congr Iff.rfl (or_congr ⟨?_, ?_⟩ Iff.rfl)
      · rintro rfl
        exact ⟨here.1, here.2, rfl⟩
      · exact fun found => found.2.2.symm
    · rw [if_neg here]
      simp only [List.mem_cons, or_and_right, exists_or, exists_eq_left]
      refine or_congr Iff.rfl ⟨.inr, ?_⟩
      rintro (⟨found, chosen, rfl⟩ | later)
      · exact absurd ⟨found, chosen⟩ here
      · exact later

theorem nodup_foldl_selectFile {files : List ChangedFile} : ∀ {selected : Selected},
    (selected.map Prod.fst).Nodup →
      ((files.foldl (selectFile selection) selected).map Prod.fst).Nodup := by
  induction files with
  | nil => exact fun nodup => nodup
  | cons file files ih =>
    intro selected nodup
    refine ih ?_
    unfold selectFile
    split
    · exact nodup
    · split
      · exact nodup_keys_upsert _ _ _ nodup
      · exact nodup

def CommitGate.Shows (gate : CommitGate) (file : ChangedFile) : Prop :=
  ∃ entry ∈ gate.selected, effectivePath file = some entry.path ∧ file.source ∈ entry.layers

theorem evaluateCommitGate_eq_ok {changeSet : ChangeSet} {intent : CommitIntent} {gate : CommitGate}
    (evaluated : evaluateCommitGate changeSet intent = .ok gate) :
    (∀ spec ∈ intent.selection.pathspecs.getD [], validatePathspec spec = .ok ()) ∧
      gate.selected = (changeSet.files.foldl (selectFile intent.selection) []).map
        fun entry => ⟨entry.1, entry.2⟩ := by
  obtain ⟨_, valid, result⟩ := bind_eq_ok.mp evaluated
  refine ⟨forM_eq_ok.mp valid, ?_⟩
  rw [← Except.ok.inj result]

theorem shows_iff {changeSet : ChangeSet} {intent : CommitIntent} {gate : CommitGate}
    (evaluated : evaluateCommitGate changeSet intent = .ok gate) {file : ChangedFile}
    (mem : file ∈ changeSet.files) :
    gate.Shows file ↔ ∃ path, effectivePath file = some path ∧
      included intent.selection path file.source := by
  have shown := (evaluateCommitGate_eq_ok evaluated).2
  have nodup := @nodup_foldl_selectFile intent.selection changeSet.files [] (by simp)
  have layers := @mem_lookup_foldl intent.selection file.source
  constructor
  · rintro ⟨entry, listed, here, layer⟩
    rw [shown] at listed
    obtain ⟨⟨path, kept⟩, stored, rfl⟩ := List.mem_map.mp listed
    refine ⟨path, here, ?_⟩
    have found := lookup_of_mem nodup stored
    obtain absurd | ⟨-, -, -, chosen, -⟩ := (@layers path changeSet.files []).mp (by rw [found]; exact layer)
    · simp at absurd
    · exact chosen
  · rintro ⟨path, here, chosen⟩
    have layer := (@layers path changeSet.files []).mpr (.inr ⟨file, mem, here, chosen, rfl⟩)
    cases found : (changeSet.files.foldl (selectFile intent.selection) []).lookup path with
    | none => simp [found] at layer
    | some kept =>
      rw [found] at layer
      refine ⟨⟨path, kept⟩, ?_, here, layer⟩
      rw [shown]
      exact List.mem_map.mpr ⟨_, mem_of_lookup found, rfl⟩

end Selection

section Completeness

variable (magic : String → Bytes → Bool)

/-- Changes as the provider collects them with the scope of all local layers. -/
structure CollectedAll (changeSet : ChangeSet) : Prop where
  scope : changeSet.scope = .all
  layers : ∀ file ∈ changeSet.files, file.source ≠ .commit
  paths : ∀ file ∈ changeSet.files, (effectivePath file).isSome

/-- Git selects the change by magic, through a component `.`, or by another path than
the one the gate looks at. -/
def SelectsIndirectly (pathspec : String) (file : ChangedFile) : Prop :=
  gitSelects magic pathspec file ∧
    (isMagic pathspec ∨ hasDot pathspec ∨
      ¬(effectivePath file).any fun path => gitMatches magic pathspec path.bytes)

/-- A tracked change that Git selects indirectly is matched literally as well; what is
staged needs no match where the index is committed anyway. -/
def LiterallyCovered (selection : CommitSelection) (file : ChangedFile) : Prop :=
  match selection with
  | .default | .allTracked => True
  | .only pathspecs => isTracked file → (∃ spec ∈ pathspecs, SelectsIndirectly magic spec file) →
      (effectivePath file).any fun path => pathspecs.any (literalPathspecMatches · path.bytes)
  | .includePaths pathspecs =>
      file.source = .worktree → (∃ spec ∈ pathspecs, SelectsIndirectly magic spec file) →
      (effectivePath file).any fun path => pathspecs.any (literalPathspecMatches · path.bytes)

variable {magic}

theorem literal_or_indirect {pathspecs : List String} {file : ChangedFile} {path : NativePath}
    (valid : ∀ spec ∈ pathspecs, validatePathspec spec = .ok ())
    (found : effectivePath file = some path)
    (selected : pathspecs.any (fun spec => gitSelects magic spec file) = true) :
    pathspecs.any (literalPathspecMatches · path.bytes) = true ∨
      ∃ spec ∈ pathspecs, SelectsIndirectly magic spec file := by
  obtain ⟨spec, mem, here⟩ := List.any_eq_true.mp selected
  by_cases indirect : SelectsIndirectly magic spec file
  · exact .inr ⟨spec, mem, indirect⟩
  · obtain ⟨literal, plain, matched⟩ : isMagic spec = false ∧ hasDot spec = false ∧
        gitMatches magic spec path.bytes = true := by
      simpa [SelectsIndirectly, here, found] using indirect
    exact .inl (List.any_eq_true.mpr
      ⟨spec, mem, literal_of_gitMatches (valid spec mem) literal plain matched⟩)

theorem any_of_indirect {pathspecs : List String} {file : ChangedFile}
    (indirect : ∃ spec ∈ pathspecs, SelectsIndirectly magic spec file) :
    pathspecs.any (fun spec => gitSelects magic spec file) = true := by
  obtain ⟨spec, mem, selects, -⟩ := indirect
  exact List.any_eq_true.mpr ⟨spec, mem, selects⟩

theorem evaluateCommitGate_complete_iff (magic : String → Bytes → Bool) (changeSet : ChangeSet)
    (intent : CommitIntent) (gate : CommitGate) (collected : CollectedAll changeSet)
    (evaluated : evaluateCommitGate changeSet intent = .ok gate) :
    gate.allowed = true →
      ((∀ file ∈ changeSet.files, recorded magic intent.selection file → gate.Shows file) ↔
        ∀ file ∈ changeSet.files, LiterallyCovered magic intent.selection file) := by
  intro _
  have valid := (evaluateCommitGate_eq_ok evaluated).1
  refine forall₂_congr fun file mem => ?_
  rw [shows_iff evaluated mem]
  obtain ⟨path, found⟩ := Option.isSome_iff_exists.mp (collected.paths file mem)
  cases selection : intent.selection with
  | default => simp [recorded, LiterallyCovered, included, found]
  | allTracked => simp [recorded, isTracked, LiterallyCovered, included, found]
  | only pathspecs =>
    rw [selection] at valid
    have chosen : included (.only pathspecs) path file.source = true ↔
        pathspecs.any (literalPathspecMatches · path.bytes) = true := by
      have layer := collected.layers file mem
      cases source : file.source <;> simp_all [included, CommitSelection.pathspecs]
    simp only [recorded, LiterallyCovered, found, Option.some.injEq, exists_eq_left', chosen,
      Bool.and_eq_true, Option.any_some]
    constructor
    · intro complete tracked indirect
      exact complete ⟨tracked, any_of_indirect indirect⟩
    · rintro covered ⟨tracked, selected⟩
      exact (literal_or_indirect valid found selected).elim id (covered tracked)
  | includePaths pathspecs =>
    rw [selection] at valid
    simp only [recorded, LiterallyCovered, found, Option.some.injEq, exists_eq_left',
      Bool.and_eq_true, Option.any_some, Bool.or_eq_true, decide_eq_true_eq]
    constructor
    · intro complete worktree indirect
      have shown := complete (.inr ⟨by simp [isTracked, worktree], any_of_indirect indirect⟩)
      simpa [included, worktree, CommitSelection.pathspecs] using shown
    · rintro covered (staged | ⟨tracked, selected⟩)
      · simp [included, staged]
      · by_cases staged : file.source = .staged
        · simp [included, staged]
        · have worktree : file.source = .worktree := by simpa [isTracked, staged] using tracked
          have literal := (literal_or_indirect valid found selected).elim id (covered worktree)
          simpa [included, worktree, CommitSelection.pathspecs] using literal

def unixPath (path : String) : NativePath := ⟨.unixBytes, bytes path, path⟩

def changedFile (path : String) (source : ChangeSourceLayer) : ChangedFile :=
  { status := .modified, oldPath := some (unixPath path), newPath := some (unixPath path)
    binary := false, hunks := [], source }

theorem evaluateCommitGate_complete_src :
    let changeSet : ChangeSet :=
      ⟨.all, [changedFile "staged" .staged, changedFile "src/new" .worktree]⟩
    let selection := CommitSelection.includePaths ["src"]
    let gate : CommitGate :=
      ⟨true, [⟨unixPath "src/new", [.worktree]⟩, ⟨unixPath "staged", [.staged]⟩], []⟩
    evaluateCommitGate changeSet ⟨selection⟩ = .ok gate ∧
      ∀ file ∈ changeSet.files, recorded (fun _ _ => false) selection file → gate.Shows file := by
  intro changeSet selection gate
  have evaluated : evaluateCommitGate changeSet ⟨selection⟩ = .ok gate := by decide +kernel
  have collected : CollectedAll changeSet := ⟨rfl, by decide, by decide⟩
  refine ⟨evaluated, (evaluateCommitGate_complete_iff _ changeSet ⟨selection⟩ gate collected
    evaluated rfl).mpr ?_⟩
  intro file mem worktree _
  rcases List.mem_pair.mp mem with rfl | rfl
  · cases worktree
  · decide

theorem evaluateCommitGate_misses_dot :
    let changeSet : ChangeSet :=
      ⟨.all, [changedFile "staged" .staged, changedFile "src/new" .worktree]⟩
    let selection := CommitSelection.includePaths ["./src"]
    let gate : CommitGate := ⟨true, [⟨unixPath "staged", [.staged]⟩], []⟩
    CollectedAll changeSet ∧ evaluateCommitGate changeSet ⟨selection⟩ = .ok gate ∧
      ∀ magic, ∃ file ∈ changeSet.files, recorded magic selection file ∧ ¬gate.Shows file := by
  have literal : isMagic "./src" = false := by decide
  have below : belowOrEqual (withoutDots "./src") (bytes "src/new") = true := by decide
  refine ⟨⟨rfl, by decide, by decide⟩, by decide +kernel, fun magic =>
    ⟨changedFile "src/new" .worktree, by simp, ?_, ?_⟩⟩
  · simp [recorded, isTracked, gitSelects, gitMatches, changedFile, unixPath, literal, below]
  · rintro ⟨entry, mem, path, -⟩
    obtain rfl := List.mem_singleton.mp mem
    exact absurd path (by decide)

end Completeness

end CodeSystemGraph.Changes
