import CodeSystemGraph.Ordered
import CodeSystemGraph.Text
import Mathlib.Data.List.Lex

/-!
Discovery exclusions (`ignore_policy.rs`). Patterns are normalized and compiled once; a walk
over a checkout leaves out what they exclude and does not enter an excluded directory. The
glob compiler is a parameter.
-/

namespace CodeSystemGraph.Ignore

open Ordered Text

section Patterns

def protectedExcludes : List String :=
  ["**/.git/**", "**/.hg/**", "**/.svn/**", "**/.codegraph/**", "**/.code-system-graph/**"]

def defaultExcludes : List String :=
  ["**/.next/**", "**/.venv/**", "**/.mypy_cache/**", "**/.nox/**", "**/.pytest_cache/**",
    "**/.ruff_cache/**", "**/.tox/**", "**/venv/**", "**/env/**", "**/site-packages/**",
    "**/node_modules/**", "**/vendor/**", "**/target/**", "**/dist/**", "**/build/**",
    "**/__pycache__/**"]

def protectedDirectoryNames : List String :=
  [".git", ".hg", ".svn", ".codegraph", ".code-system-graph"]

inductive IgnorePatternError
  | empty
  | missingPathComponent (pattern : String)
  | absolute (pattern : String)
  | parentTraversal (pattern : String)
  | backslash (pattern : String)
  | unsafeCharacters
  | unsupportedSyntax (pattern : String)
  | invalidGlob (pattern detail : String)
  | protectedInclude (pattern directory : String)
deriving DecidableEq

/-- Starts with `/`, or with one byte and a colon. -/
def absolutePattern (pattern : List Char) : Bool :=
  pattern.head? = some '/' ||
    match pattern with
    | c :: ':' :: _ => c.utf8Size == 1
    | _ => false

def unsafeCharacter (c : Char) : Bool :=
  let n := c.toNat
  isControl c || n == 0x061C || n == 0x200E || n == 0x200F || (0x202A ≤ n && n ≤ 0x202E) ||
    (0x2066 ≤ n && n ≤ 0x2069)

def pieces (text : List Char) : List (List Char) := text.splitOn '/'

def unsupportedSyntax (pattern : List Char) (components : List (List Char)) : Bool :=
  pattern.any (fun c => "[]\x7b\x7d".toList.contains c) ||
    components.any fun component => containsText component "**".toList && component != "**".toList

def normalizePattern (pattern : String) : Except IgnorePatternError String :=
  let text := pattern.toList
  if isBlank pattern then .error .empty
  else if absolutePattern text then .error (.absolute pattern)
  else if text.contains '\\' then .error (.backslash pattern)
  else if (pieces text).contains "..".toList then .error (.parentTraversal pattern)
  else if text.any unsafeCharacter then .error .unsafeCharacters
  else
    let directoryOnly :=
      text.getLast? = some '/' || ((pieces text).filter (· ≠ [])).getLast? = some ['.']
    let components := (pieces text).filter fun component => component ≠ [] && component ≠ ['.']
    if components = [] then .error (.missingPathComponent pattern)
    else if unsupportedSyntax text components then .error (.unsupportedSyntax pattern)
    else
      let normalized := ['/'].intercalate components
      if absolutePattern normalized then .error (.absolute pattern)
      else .ok (String.ofList (if directoryOnly then normalized ++ ['/'] else normalized))

def normalizePatterns (patterns : List String) : Except IgnorePatternError (List String) :=
  patterns.mapM normalizePattern

/-- The first component of a pattern that names a protected directory. -/
def protectedComponent (pattern : String) : Option String :=
  ((pieces pattern.toList).map String.ofList).find? protectedDirectoryNames.contains

def validateProtectedIncludes : List String → Except IgnorePatternError Unit
  | [] => .ok ()
  | pattern :: patterns =>
    match protectedComponent pattern with
    | some directory => .error (.protectedInclude pattern directory)
    | none => validateProtectedIncludes patterns

abbrev Glob := String → Bool

variable (build : String → Except String Glob) (setError : List String → Option String)

def compileGlob (pattern : String) : Except IgnorePatternError Glob :=
  match build pattern with
  | .ok glob => .ok glob
  | .error detail => .error (.invalidGlob pattern detail)

def compile (patterns : List String) : Except IgnorePatternError (List Glob) :=
  match patterns.mapM (compileGlob build) with
  | .error error => .error error
  | .ok globs =>
    match setError patterns with
    | some detail => .error (.invalidGlob "<set>" detail)
    | none => .ok globs

def literalComponent (component : List Char) : Bool :=
  !component.contains '*' && !component.contains '?'

/-- The components of a pattern before its first wildcard. -/
def literalComponents (pattern : String) : List (List Char) :=
  (pieces pattern.toList).takeWhile literalComponent

def includePrefix (pattern : String) : List (List Char) := (literalComponents pattern).filter (· ≠ [])

def includePrefixes (patterns : List String) : List (List (List Char)) × Bool :=
  let prefixes := patterns.map includePrefix
  (sortDedup id (prefixes.filter (· ≠ [])), prefixes.contains [])

end Patterns

section Policy

structure FileName where
  text : List Char
  normal : text ≠ [] ∧ '/' ∉ text ∧ text ≠ ['.'] ∧ text ≠ ['.', '.']
deriving DecidableEq

abbrev Path := List FileName

structure IgnorePolicy where
  configuredExcludes : List String
  includeDefaults : List String
  useGitignore : Bool
  protectedMatcher : List Glob
  defaultMatcher : List Glob
  configuredMatcher : List Glob
  includeMatcher : List Glob
  includePrefixes : List (List (List Char))
  includeCanMatchAnywhere : Bool

variable (build : String → Except String Glob) (setError : List String → Option String)

def IgnorePolicy.withGitignore (configuredExcludes includeDefaults : List String)
    (useGitignore : Bool) : Except IgnorePatternError IgnorePolicy := do
  let configuredExcludes ← normalizePatterns configuredExcludes
  let includeDefaults ← normalizePatterns includeDefaults
  validateProtectedIncludes includeDefaults
  let configuredExcludes := sortDedup id configuredExcludes
  let includeDefaults := sortDedup id includeDefaults
  let prefixes := Ignore.includePrefixes includeDefaults
  let protectedMatcher ← compile build setError protectedExcludes
  let defaultMatcher ← compile build setError defaultExcludes
  let configuredMatcher ← compile build setError configuredExcludes
  let includeMatcher ← compile build setError includeDefaults
  pure {
    configuredExcludes, includeDefaults, useGitignore, protectedMatcher, defaultMatcher,
    configuredMatcher, includeMatcher
    includePrefixes := prefixes.1
    includeCanMatchAnywhere := prefixes.2 }

def names (path : Path) : List (List Char) := path.map FileName.text

def candidate (relative : Path) : List Char := ['/'].intercalate (names relative)

def matching (relative : Path) (directory : Bool) (globs : List Glob) : Bool :=
  globs.any (fun glob => glob (String.ofList (candidate relative))) ||
    (directory && globs.any fun glob => glob (String.ofList (candidate relative ++ ['/'])))

namespace IgnorePolicy

def mayContainIncludedDefault (policy : IgnorePolicy) (directory : Path) : Bool :=
  policy.includeCanMatchAnywhere || policy.includePrefixes.any fun literal =>
    (names directory).isPrefixOf literal || literal.isPrefixOf (names directory)

def excludes (policy : IgnorePolicy) (relative : Path) (directory : Bool) : Bool :=
  if matching relative directory policy.protectedMatcher ||
      matching relative directory policy.configuredMatcher then true
  else
    matching relative directory policy.defaultMatcher &&
      !matching relative directory policy.includeMatcher &&
      !(directory && policy.mayContainIncludedDefault relative)

end IgnorePolicy

end Policy

section Discovery

inductive Entries
  | none
  | file (name : FileName) (rest : Entries)
  | directory (name : FileName) (children rest : Entries)
  | symlink (name : FileName) (rest : Entries)
  | special (name : FileName) (rest : Entries)

variable (ignored : Path → Bool → Bool) (policy : IgnorePolicy) (maxDepth : Option ℕ)

/-- What the walk does not yield: it is excluded, too deep, or ignored by an enabled `.gitignore`. -/
def filtered (path : Path) (directory : Bool) : Bool :=
  policy.excludes path directory || maxDepth.any (· < path.length) ||
    (policy.useGitignore && ignored path directory)

def discoverIn (here : Path) : Entries → List Path
  | .none => []
  | .file name rest =>
    (if filtered ignored policy maxDepth (here ++ [name]) false then [] else [here ++ [name]]) ++
      discoverIn here rest
  | .directory name children rest =>
    (if filtered ignored policy maxDepth (here ++ [name]) true then []
      else discoverIn (here ++ [name]) children) ++ discoverIn here rest
  | .symlink _ rest => discoverIn here rest
  | .special _ rest => discoverIn here rest

def discoverRepositoryFiles (tree : Entries) : List Path :=
  sortDedup names (discoverIn ignored policy maxDepth [] tree)

def Entries.HasFile : Entries → Path → Prop
  | .none, _ => False
  | .file name rest, path => path = [name] ∨ rest.HasFile path
  | .directory name children rest, path =>
    (∃ below, path = name :: below ∧ children.HasFile below) ∨ rest.HasFile path
  | .symlink _ rest, path => rest.HasFile path
  | .special _ rest, path => rest.HasFile path

def Above (directory path : Path) : Prop := directory ≠ [] ∧ directory <+: path ∧ directory ≠ path

end Discovery

end CodeSystemGraph.Ignore
