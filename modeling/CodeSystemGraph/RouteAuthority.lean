import Mathlib.Data.List.Induction
import CodeSystemGraph.Ordered
import CodeSystemGraph.RouteShape

/-! The authorities of absolute URLs and the repositories that serve them. A
declared authority restricts a call strictly; an inferred one is a preference,
and a host inferred for two repositories restricts nothing. -/

namespace CodeSystemGraph.Routes
open Model Ordered Text

def splitPort (authority : List Char) : List Char × Option (List Char) :=
  match stripPrefix ['['] authority with
  | some rest =>
    match splitOnce ']' rest with
    | (host, some tail) => (host, stripPrefix [':'] tail)
    | (_, none) => (authority, none)
  | none =>
    match rsplitOnce ':' authority with
    | some (host, port) => if host.contains ':' then (authority, none) else (host, some port)
    | none => (authority, none)

def authorityHost (authority : List Char) : List Char := (splitPort authority).1

def isLoopback (host : List Char) : Bool :=
  ["localhost", "::1", "0.0.0.0", "host.docker.internal"].contains (String.ofList host) ||
    endsWith host ".localhost" || startsWith host "127."

def serviceHost (host : List Char) : List Char :=
  match (stripSuffix ".svc.cluster.local".toList host).or (stripSuffix ".svc".toList host) with
  | some name => (splitOnce '.' name).1
  | none => host

def parsesAsU16 (text : List Char) : Bool :=
  let digits := (stripPrefix ['+'] text).getD text
  !digits.isEmpty && digits.all Char.isDigit &&
    digits.foldl (fun value digit => 10 * value + (digit.toNat - '0'.toNat)) 0 < 65536

def normalizeAuthority (value : String) : Option (List Char) :=
  let value := trim value.toList
  if value.isEmpty || value.any (fun c => "/?# \t".toList.contains c) ||
      containsText value "://".toList then none
  else
    let hostAndPort := ((rsplitOnce '@' value).map Prod.snd).getD value
    let (host, port) := splitPort hostAndPort
    let host := (host.reverse.dropWhile (· == '.')).reverse.map toAsciiLowercase
    if host.isEmpty || port.any (fun port => !parsesAsU16 port) then none
    else
      match port with
      | some port =>
        if host.contains ':' then some ("[".toList ++ host ++ "]:".toList ++ port)
        else some (host ++ ":".toList ++ port)
      | none => some host

structure AuthorityMap where
  declared : BTreeMap String RepoId
  inferred : BTreeMap String (Option RepoId)

inductive AuthorityTarget
  | workspace
  | declared (repository : RepoId)
  | inferred (repository : RepoId)
  | external
deriving DecidableEq

namespace AuthorityMap

def new : AuthorityMap := ⟨∅, ∅⟩

def declare (authorities : AuthorityMap) (authority : String) (repository : RepoId) :
    AuthorityMap :=
  { authorities with declared := authorities.declared.insert authority repository }

/-- `entry(host).and_modify(..).or_insert_with(..)`. -/
def noteHost (inferred : BTreeMap String (Option RepoId)) (host : String) (repository : RepoId) :
    BTreeMap String (Option RepoId) :=
  inferred.alter host fun
    | none => some (some repository)
    | some existing => some (if existing = some repository then existing else none)

def infer (authorities : AuthorityMap) (host : String) (repository : RepoId) : AuthorityMap :=
  match normalizeAuthority host with
  | none => authorities
  | some host =>
    { authorities with
      inferred := noteHost authorities.inferred (String.ofList (serviceHost (authorityHost host)))
        repository }

def lookup (authorities : AuthorityMap) (authority : String) : AuthorityTarget :=
  let host := authorityHost authority.toList
  if isLoopback host then .workspace
  else
    match authorities.declared[authority]?.or authorities.declared[String.ofList host]? with
    | some repository => .declared repository
    | none =>
      match authorities.inferred[String.ofList (serviceHost host)]? with
      | some (some repository) => .inferred repository
      | some none => .workspace
      | none => .external

end AuthorityMap

end CodeSystemGraph.Routes
