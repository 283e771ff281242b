import CodeSystemGraph.SourceObservations

/-!
Resolution of symbol references across the files of one repository: names of a file, relative
script imports, Python package imports and module-qualified function paths. A reference that does
not resolve to exactly one declaration stays unresolved.
-/

namespace CodeSystemGraph.Sources

open Ordered Text

def scriptExtensions : List String := ["ts", "tsx", "js", "jsx", "mjs", "cjs", "mts", "cts"]

/-- The only candidate, if there is exactly one. -/
def unique {α : Type} : List α → Option α
  | [candidate] => some candidate
  | _ => none

def pathComponents (path : String) : List String :=
  ((path.toList.splitOn '/').map String.ofList).filter fun component =>
    component != "" && component != "."

def stem (component : String) : String :=
  (rsplitOnce '.' component.toList).elim component fun parts => String.ofList parts.1

def pathSegments (path : String) : List String :=
  let components := pathComponents path
  components.dropLast ++ (components.getLast?.map stem).toList

/-- The extension of the file name; a name that begins with its only dot has none. -/
def pathExtension (path : String) : Option (List Char) :=
  (pathComponents path).getLast?.bind fun name =>
    if name = ".." then none
    else
      match rsplitOnce '.' name.toList with
      | some (before, extension) => if before.isEmpty then none else some extension
      | none => none

def joinComponents (base : List String) : List String → Option (List String)
  | [] => some base
  | component :: rest =>
    if component = "" ∨ component = "." then joinComponents base rest
    else if component = ".." then
      if base.isEmpty then none else joinComponents base.dropLast rest
    else joinComponents (base ++ [component]) rest

def splitColons : List Char → List (List Char)
  | ':' :: ':' :: rest => [] :: splitColons rest
  | [] => [[]]
  | c :: rest =>
    match splitColons rest with
    | [] => [[c]]
    | first :: others => (c :: first) :: others

structure SymbolFile where
  path : String
  observations : List SourceObservation

inductive SymbolKey
  | name (file : Nat) (name : String)
  | function (key : List String)

structure RepositorySymbols where
  files : List SymbolFile
  paths : BTreeMap String Nat
  functions : BTreeSet (List String)

namespace RepositorySymbols

def new (files : List SymbolFile) : RepositorySymbols where
  files := files
  paths := files.zipIdx.foldl (fun paths (file, index) => paths.insert file.path index) ∅
  functions := ∅

variable (symbols : RepositorySymbols)

def file (index : Nat) : SymbolFile :=
  symbols.files[index]?.getD ⟨"", []⟩

def language (index : Nat) : Option SourceLanguage :=
  (symbols.file index).observations.head?.map SourceObservation.language

def functionKey (index : Nat) (name : String) : List String :=
  if name.toList.head? = some '@' then [name]
  else
    let segments := pathSegments (symbols.file index).path
    let popped := fun (stems : List String) (segments : List String) =>
      if segments.getLast?.any fun stem => stems.contains stem then segments.dropLast else segments
    let module :=
      match symbols.language index with
      | some .go => segments.dropLast
      | some .rust =>
        -- what follows the last `src`, or everything
        popped ["main", "lib", "mod"] (segments.reverse.takeWhile (· != "src")).reverse
      | _ => popped ["index", "__init__"] segments
    module ++ [name]

def declareFunction (index : Nat) (name : String) : RepositorySymbols × List String :=
  let key := symbols.functionKey index name
  ({ symbols with functions := symbols.functions.insert key }, key)

def resolveCall (index : Nat) (path : String) : Option (List String) :=
  let segments := (((splitColons path.toList).flatMap fun segment => segment.splitOn '.').map
    String.ofList).filter fun segment =>
      segment != "" && !(["crate", "self", "super", "this"].contains segment)
  let found := match segments with
    | [name] =>
      let key := symbols.functionKey index name
      if key ∈ symbols.functions then some key else none
    | _ => none
  match found, segments.getLast? with
  | some key, _ => some key
  | none, none => none
  | none, some last =>
    let suffixMatches := symbols.functions.toList.filter fun candidate => segments.isSuffixOf candidate
    if suffixMatches.isEmpty then
      -- an import renames the qualifier
      unique (symbols.functions.toList.filter fun candidate => candidate.getLast? = some last)
    else unique suffixMatches

def pythonModule (index : Nat) (module : String) : Option Nat :=
  let dots := (module.toList.takeWhile (· == '.')).length
  let rest := (((module.toList.drop dots).splitOn '.').map String.ofList).filter (· != "")
  let directory := (pathComponents (symbols.file index).path).dropLast
  let target :=
    if dots = 0 then some rest
    else if directory.length < dots - 1 then none
    else some (directory.take (directory.length - (dots - 1)) ++ rest)
  target.bind fun target =>
    if target.isEmpty then none
    else
      unique (symbols.paths.toList.filterMap fun (path, candidate) =>
        let segments := pathSegments path
        let segments := if segments.getLast? = some "__init__" then segments.dropLast else segments
        let isPython := (pathExtension path).any fun extension =>
          extension.map toAsciiLowercase == "py".toList
        if isPython && target.isSuffixOf segments then some candidate else none)

def scriptModule (index : Nat) (module : String) : Option Nat :=
  if module.toList.head? ≠ some '.' then none
  else
    let directory := (pathComponents (symbols.file index).path).dropLast
    (joinComponents directory ((module.toList.splitOn '/').map String.ofList)).bind fun components =>
      let joined := "/".intercalate components
      let stem := ((scriptExtensions.findSome? fun extension =>
        stripSuffix ('.' :: extension.toList) joined.toList).map String.ofList).getD joined
      let candidates := joined :: scriptExtensions.map (fun extension => stem ++ "." ++ extension) ++
        scriptExtensions.map fun extension => joined ++ "/index." ++ extension
      candidates.findSome? fun candidate => symbols.paths[candidate]?

def resolveImport (index : Nat) (module name : String) : Option SymbolKey :=
  if symbols.language index = some .python then
    let separator := if module.toList.getLast? = some '.' then "" else "."
    let nested := match splitOnce '.' name.toList with
      | (head, some tail) =>
        (symbols.pythonModule index (module ++ separator ++ String.ofList head)).map fun target =>
          SymbolKey.name target (String.ofList tail)
      | (_, none) => none
    nested.or ((symbols.pythonModule index module).map fun target => .name target name)
  else (symbols.scriptModule index module).map fun target => .name target name

def declares (file : Nat) (name : String) : Bool :=
  (symbols.file file).observations.any fun observation =>
    observation.symbolName == some name && observation.role != .test

/-- The nearest enclosing `conftest.py` that declares a fixture. The components of the directory
are innermost first. -/
def enclosingFixture (name : String) : List String → Option SymbolKey
  | [] => none
  | _ :: parents =>
    let candidate := "/".intercalate (parents.reverse ++ ["conftest.py"])
    match symbols.paths[candidate]? with
    | some file =>
      if symbols.declares file name then some (.name file name) else enclosingFixture name parents
    | none => enclosingFixture name parents

def resolveFixture (index : Nat) (name : String) : Option SymbolKey :=
  if symbols.declares index name then some (.name index name)
  else symbols.enclosingFixture name (pathComponents (symbols.file index).path).reverse

def resolve (index : Nat) : SymbolRef → Option SymbolKey
  | .name name => some (.name index name)
  | .function name => some (.function (symbols.functionKey index name))
  | .call path => (symbols.resolveCall index path).map .function
  | .imported module name => symbols.resolveImport index module name
  | .fixture name => symbols.resolveFixture index name
  | .parameter _ _ => none

end RepositorySymbols

end CodeSystemGraph.Sources
