import CodeSystemGraph.Ieee
import CodeSystemGraph.Ordered
import CodeSystemGraph.RouteAuthority

/-!
Observations of the source parsers, the URL templates of client calls, and the consumer that a
template yields once its parameters are bound.
-/

namespace CodeSystemGraph.Sources

open Ieee Ordered Text

inductive SourceLanguage
  | javaScript | typeScript | rust | python | go | java
deriving DecidableEq

inductive SourceFramework
  | fetch | axios | express | fastify | nestJs | nextJs | axum | actixWeb | utoipa | reqwest
  | rustTest | tokioTest | rstest | fastApi | flask | requests | httpx | aioHttp
  | pythonHttpRegistry | factoryBoy | pytest | unittest | pythonTest | goNetHttp | gin | chi
  | springMvc | webClient | feign | restTemplate | testClient | flaskTestClient | jest | vitest
  | mocha | playwright | supertest | goTest | httptest | jUnit | mockMvc | restAssured
  | webTestClient | testRestTemplate | axumOneshot | actixTest
deriving DecidableEq

inductive SourceRole
  | provider | consumer | test | factory | mount | call | client
deriving DecidableEq

inductive SymbolRef
  | name (name : String)
  | imported (module name : String)
  | function (name : String)
  | call (path : String)
  | fixture (name : String)
  | parameter (name : String) (index : Nat)
deriving DecidableEq

inductive UrlPart
  | text (value : String)
  | parameter (name : String) (index : Nat)
  | value (name : Option String)
deriving DecidableEq

structure UrlTemplate where
  parts : List UrlPart := []
deriving DecidableEq

structure CallArgument where
  keyword : Option String
  value : Option UrlTemplate
deriving DecidableEq

structure CallSite where
  callee : SymbolRef
  arguments : List CallArgument
deriving DecidableEq

inductive SourceEpistemicStatus
  | confirmed | ambiguous | incomplete
deriving DecidableEq

structure SourceLineRange where
  start : Nat
  stop : Nat
deriving DecidableEq

inductive SourceWarning
  | dynamicMethod | dynamicPath | unsupportedLiteralPath | missingSymbol | syntaxErrorRecovery
  | advisoryDeclaration
deriving DecidableEq

structure SourceObservation where
  language : SourceLanguage
  framework : SourceFramework
  role : SourceRole
  method : Option String := none
  path : Option String := none
  symbolName : Option String := none
  symbolStartLine : Option Nat := none
  relatedSymbol : Option String := none
  relatedPath : Option String := none
  authority : Option String := none
  router : Option SymbolRef := none
  mountParent : Option SymbolRef := none
  url : Option UrlTemplate := none
  call : Option CallSite := none
  lines : SourceLineRange
  status : SourceEpistemicStatus
  confidence : F32
  warnings : List SourceWarning := []
deriving DecidableEq

structure BoundArguments where
  byName : BTreeMap String UrlTemplate := ∅
  byIndex : BTreeMap Nat UrlTemplate := ∅

namespace UrlTemplate

def pushText (template : UrlTemplate) (value : String) : UrlTemplate :=
  if value = "" then template
  else
    match template.parts.getLast? with
    | some (.text last) => ⟨template.parts.dropLast ++ [.text (last ++ value)]⟩
    | _ => ⟨template.parts ++ [.text value]⟩

def push (template : UrlTemplate) : UrlPart → UrlTemplate
  | .text value => template.pushText value
  | part => ⟨template.parts ++ [part]⟩

def extend (template other : UrlTemplate) : UrlTemplate :=
  other.parts.foldl push template

def asLiteral (template : UrlTemplate) : Option String :=
  match template.parts with
  | [] => some ""
  | [.text value] => some value
  | _ => none

def isParameter : UrlPart → Bool
  | .parameter _ _ => true
  | _ => false

def hasParameters (template : UrlTemplate) : Bool :=
  template.parts.any isParameter

def bind (template : UrlTemplate) (arguments : BoundArguments) : UrlTemplate :=
  template.parts.foldl
    (fun bound part =>
      match part with
      | .parameter name index =>
        match (arguments.byName[name]?).or (arguments.byIndex[index]?) with
        | some value => bound.extend value
        | none => bound.push (.value (some name))
      | part => bound.push part) {}

def hole : Char := '\uE000'

def flatten (template : UrlTemplate) : List Char :=
  template.parts.flatMap fun part =>
    match part with
    | .text value => value.toList
    | .parameter _ _ => [hole]
    | .value _ => [hole]

def names (template : UrlTemplate) : List (Option String) :=
  template.parts.filterMap fun part =>
    match part with
    | .text _ => none
    | .parameter name _ => some (some name)
    | .value name => some name

def parameterName (name : String) : List Char :=
  let name := (name.toList.reverse.takeWhile fun c => c != '.' && c != ':').reverse
  if !name.isEmpty && name.all (fun c => c.isAlphanum || c == '_') then name else "value".toList

def afterScheme (text : List Char) : Option Nat :=
  match text.tails.findIdx? fun tail => "://".toList.isPrefixOf tail with
  | some position =>
    if (text.take position).all fun c => c == hole || c.isAlpha then some (position + 3)
    else if "//".toList.isPrefixOf text then some 2 else none
  | none => if "//".toList.isPrefixOf text then some 2 else none

/-- The scheme and authority, and the path that follows. -/
def splitOrigin (text : List Char) : Option (List Char × List Char) :=
  match afterScheme text with
  | some start =>
    let authority := (text.drop start).takeWhile fun c => !"/?#".toList.contains c
    let host := authority.takeWhile (· != hole)
    -- a runtime value after a literal authority starts the path unless it continues a label, a
    -- port or user information
    let stop := start +
      if host ≠ authority ∧ host ≠ [] ∧ !host.getLast?.any (".-:@".toList.contains ·) then host.length
      else authority.length
    if stop = start then none else some (text.take stop, text.drop stop)
  | none =>
    match text with
    | '/' :: _ => some ([], text)
    | first :: '/' :: rest => if first = hole then some ([hole], '/' :: rest) else none
    | _ => none

/-- The segments of a path with the names of their runtime values. -/
def fillSegments : List (List Char) → List (Option String) → Option (List (List Char))
  | [], _ => some []
  | segment :: segments, names =>
    if segment.contains hole then
      if segment.length ≠ 1 then none
      else
        let name := ((names.head?).bind id).elim "value".toList parameterName
        (fillSegments segments names.tail).map fun filled => ('{' :: name ++ ['}']) :: filled
    else (fillSegments segments names).map fun filled => segment :: filled

/-- The client literal with the same meaning, unless the path depends on runtime values that are
not whole segments. -/
def clientLiteral (template : UrlTemplate) : Option String :=
  match template.asLiteral with
  | some literal => some literal
  | none =>
    match splitOrigin template.flatten with
    | none => none
    | some (origin, rest) =>
      let path := rest.takeWhile fun c => c != '?' && c != '#'
      if path ≠ [] ∧ path.head? ≠ some '/' then none
      else
        let names := template.names.drop (origin.count hole)
        let start := (if origin.contains hole then [] else origin) ++ if path.isEmpty then ['/'] else []
        (fillSegments (path.splitOn '/') names).map fun segments =>
          String.ofList (start ++ ['/'].intercalate segments)

end UrlTemplate

def collapseSlashes (previousSlash : Bool) : List Char → List Char
  | [] => []
  | c :: rest =>
    if c = '/' then
      if previousSlash then collapseSlashes true rest else '/' :: collapseSlashes true rest
    else c :: collapseSlashes false rest

def normalizeSourceHttpPath (path : List Char) : List Char :=
  let trimmed := trim path
  if trimmed.isEmpty || trimmed == ['/'] then ['/']
  else
    let normalized := (if trimmed.head? = some '/' then [] else ['/']) ++ collapseSlashes false trimmed
    let stripped := (normalized.reverse.dropWhile (· == '/')).reverse
    if stripped.isEmpty then ['/'] else stripped

def urlAuthority (url : List Char) : Option (List Char) :=
  ((stripPrefix "http://".toList url).or (stripPrefix "https://".toList url)).bind fun rest =>
    Routes.normalizeAuthority (String.ofList (rest.takeWhile fun c => !"/?#".toList.contains c))

def clientLiteralIdentity (value : String) : Option String × Option String :=
  let text := value.toList
  let beforeQuery := fun path : List Char => path.takeWhile fun c => c != '?' && c != '#'
  if text.head? = some '/' then
    (some (String.ofList (normalizeSourceHttpPath (beforeQuery text))), none)
  else
    match (stripPrefix "http://".toList text).or (stripPrefix "https://".toList text) with
    | none => (none, none)
    | some rest =>
      if rest.isEmpty || rest.head? = some '/' then (none, none)
      else
        let path := rest.dropWhile (· != '/')
        (some (String.ofList
          (normalizeSourceHttpPath (beforeQuery (if path.isEmpty then ['/'] else path)))),
          (urlAuthority text).map String.ofList)

/-- `http_from_literal` of a client call with a literal. -/
def httpFromLiteral (language : SourceLanguage) (framework : SourceFramework)
    (method : Option String) (literal : String) (symbolName : Option String)
    (lines : SourceLineRange) : SourceObservation :=
  let (path, authority) := clientLiteralIdentity literal
  let confirmed := path.isSome && method.isSome
  { language := language
    framework := framework
    role := .consumer
    method := method
    path := path
    symbolName := symbolName
    authority := authority
    lines := lines
    status := if confirmed then .confirmed else .ambiguous
    confidence := .ofNat (if confirmed then 1 else 0)
    warnings := if path.isNone then [.unsupportedLiteralPath] else [] }

def instantiatedConsumer (origin : SourceObservation) (template : UrlTemplate) (caller : String)
    (lines : SourceLineRange) : Option SourceObservation :=
  template.clientLiteral.bind fun literal =>
    let observation :=
      httpFromLiteral origin.language origin.framework origin.method literal (some caller) lines
    if observation.status = .confirmed then some observation else none

def boundArguments (call : SourceObservation) : BoundArguments :=
  ((call.call.elim [] CallSite.arguments).foldl
    (fun (bound, position) argument =>
      match argument.keyword, argument.value with
      | some keyword, some value => ({ bound with byName := bound.byName.insert keyword value }, position)
      | some _, none => (bound, position)
      | none, some value =>
        ({ bound with byIndex := bound.byIndex.insert position value }, position + 1)
      | none, none => (bound, position + 1))
    (({} : BoundArguments), 0)).1

abbrev ConsumerIdentity := Option String × Option String × Option String

def consumerIdentity (observation : SourceObservation) : ConsumerIdentity :=
  (observation.method, observation.path, observation.authority)

end CodeSystemGraph.Sources
