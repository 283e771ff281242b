import CodeSystemGraph.ClientFlows
import Mathlib.Data.Sum.Order
import Mathlib.Order.WithBot

/-!
Composition of router prefixes across the files of a repository. Every route path is rewritten
with each chain of mounts that leads from its router to a root.
-/

namespace CodeSystemGraph.Sources

open Ordered Text

def maxMountDepth : Nat := 8
def maxComposedPrefixes : Nat := 16

section Keys

/-- The derived order of the keys: names of files first. -/
def SymbolKey.order : SymbolKey → (Nat ×ₗ String) ⊕ₗ List String
  | .name file text => Sum.inlₗ (toLex (file, text))
  | .function key => Sum.inrₗ key

theorem SymbolKey.order_injective : Function.Injective SymbolKey.order := by
  intro key key' same
  cases key with
  | name file text =>
    cases key' with
    | name file' text' =>
      have pair := Prod.mk.inj (toLex.injective (Sum.inl.inj (toLex.injective same)))
      rw [pair.1, pair.2]
    | function key' => cases toLex.injective same
  | function key =>
    cases key' with
    | name file' text' => cases toLex.injective same
    | function key' => rw [Sum.inr.inj (toLex.injective same)]

instance : LinearOrder SymbolKey := LinearOrder.lift' SymbolKey.order SymbolKey.order_injective

instance : Std.TransOrd SymbolKey := instLawfulBCmpCompare_mathlib.toTransCmp

instance : Std.LawfulEqOrd SymbolKey where
  compare_self := by
    intro key
    exact compare_eq_iff_eq.mpr rfl
  eq_of_compare := by
    intro key key' same
    exact compare_eq_iff_eq.mp same

end Keys

abbrev Mount := Option SymbolKey × String

abbrev Mounts := BTreeMap SymbolKey (List Mount)

section Walk

def gather (outer : SymbolKey → List String) (edges : List Mount) : BTreeSet String :=
  edges.foldl
    (fun found edge =>
      ((edge.1.elim [""] outer).map fun text => text ++ edge.2).foldl
        (fun found text => found.insert text) found) ∅

def walk (mounts : Mounts) (key : SymbolKey) (visiting : List SymbolKey) : List String :=
  match mounts[key]? with
  | none => [""]
  | some edges =>
    if _closed : maxMountDepth ≤ visiting.length ∨ key ∈ visiting then []
    else
      (gather (fun parent => walk mounts parent (visiting ++ [key])) edges).toList.take
        maxComposedPrefixes
termination_by maxMountDepth - visiting.length
decreasing_by
  rw [List.length_append, List.length_singleton]
  omega

/-- What is found for a router whose chains are not cached. -/
def freshPrefixes (mounts : Mounts) (key : SymbolKey) : List String :=
  let found := walk mounts key []
  if found.isEmpty then [""] else found

abbrev MountCache := BTreeMap SymbolKey (List String)

/-- Every chain from a router to a root, outermost text first. -/
def prefixes (mounts : Mounts) (key : SymbolKey) (cache : MountCache) : List String × MountCache :=
  match cache[key]? with
  | some cached => (cached, cache)
  | none =>
    let found := freshPrefixes mounts key
    (found, cache.insert key found)

end Walk

section Repository

/-- Normalized text of a mount without a trailing slash; the root is empty. -/
def prefixText (path : String) : String :=
  let normalized := normalizeSourceHttpPath path.toList
  if normalized = ['/'] then "" else String.ofList normalized

structure RepositoryRouters where
  symbols : RepositorySymbols
  mounts : Mounts

namespace RepositoryRouters

def declareReference (position : Nat) (symbols : RepositorySymbols) :
    Option SymbolRef → RepositorySymbols
  | some (.function name) => (symbols.declareFunction position name).1
  | _ => symbols

def declareReferences (symbols : RepositorySymbols) (entry : Nat × SourceObservation) :
    RepositorySymbols :=
  [entry.2.router, entry.2.mountParent].foldl (declareReference entry.1) symbols

def addMount (symbols : RepositorySymbols) (mounts : Mounts) (entry : Nat × SourceObservation) : Mounts :=
  if entry.2.role = .mount then
    match entry.2.router.bind (symbols.resolve entry.1) with
    | none => mounts
    | some child =>
      let parent := entry.2.mountParent.bind (symbols.resolve entry.1)
      if parent = some child then mounts
      else pushTo mounts child (parent, (entry.2.path.map prefixText).getD "")
  else mounts

def mountOrder (mount : Mount) : WithBot SymbolKey ×ₗ String := toLex mount

def new (files : List RepositorySourceFile) (members : List Nat) : RepositoryRouters :=
  let listed := members.filterMap fun index => files[index]?
  let symbols := RepositorySymbols.new (listed.map fun file => ⟨file.path, file.observations⟩)
  let entries := listed.zipIdx.flatMap fun (file, position) =>
    file.observations.map fun observation => (position, observation)
  let symbols := entries.foldl declareReferences symbols
  let mounts := entries.foldl (addMount symbols) ∅
  { symbols := symbols
    mounts := mounts.map fun _ edges => sortDedup mountOrder edges }

variable (routers : RepositoryRouters)

def withPath (observation : SourceObservation) (path text : String) : SourceObservation :=
  { observation with
    path := some (String.ofList (normalizeSourceHttpPath (text ++ path).toList)) }

def rewriteObservation (position : Nat) (cache : MountCache) (observation : SourceObservation) :
    List SourceObservation × MountCache :=
  match observation.role with
  | .mount => ([], cache)
  | .provider =>
    let found :=
      match observation.router.bind (routers.symbols.resolve position) with
      | some key => prefixes routers.mounts key cache
      | none => ([], cache)
    match observation.path with
    | some path =>
      if !found.1.isEmpty && found.1 ≠ [""] then
        (found.1.map (withPath observation path), found.2)
      else ([observation], found.2)
    | none => ([observation], found.2)
  | _ => ([observation], cache)

def rewrite (position : Nat) (cache : MountCache) : List SourceObservation × MountCache :=
  (routers.symbols.file position).observations.foldl
    (fun state observation =>
      let found := routers.rewriteObservation position state.2 observation
      (state.1 ++ found.1, found.2)) ([], cache)

def rewriteFile (state : List (List SourceObservation) × MountCache) (entry : Nat × Nat) :
    List (List SourceObservation) × MountCache :=
  let found := routers.rewrite entry.2 state.2
  (state.1.set entry.1 found.1, found.2)

end RepositoryRouters

def withoutMounts (observations : List SourceObservation) : List SourceObservation :=
  observations.filter fun observation => observation.role ≠ .mount

def composeMounts (files : List RepositorySourceFile) (output : List (List SourceObservation))
    (members : List Nat) : List (List SourceObservation) :=
  let routers := RepositoryRouters.new files members
  if routers.mounts.isEmpty then
    members.foldl (fun output index => output.modify index withoutMounts) output
  else (members.zipIdx.foldl routers.rewriteFile (output, (∅ : MountCache))).1

theorem composeMounts_of_empty {files : List RepositorySourceFile} {members : List Nat}
    (empty : (RepositoryRouters.new files members).mounts.isEmpty = true)
    (output : List (List SourceObservation)) : composeMounts files output members =
      members.foldl (fun output index => output.modify index withoutMounts) output :=
  if_pos empty

theorem composeMounts_of_mounts {files : List RepositorySourceFile} {members : List Nat}
    (some' : ¬(RepositoryRouters.new files members).mounts.isEmpty = true)
    (output : List (List SourceObservation)) : composeMounts files output members =
      (members.zipIdx.foldl (RepositoryRouters.new files members).rewriteFile
        (output, (∅ : MountCache))).1 :=
  if_neg some'

def composeRouterMounts (files : List RepositorySourceFile) : List (List SourceObservation) :=
  (values (filesByRepository files)).foldl (composeMounts files)
    (files.map RepositorySourceFile.observations)

end Repository

end CodeSystemGraph.Sources
