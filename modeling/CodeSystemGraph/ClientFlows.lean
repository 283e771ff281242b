import CodeSystemGraph.SourceSymbols

/-!
Composition of HTTP client calls through wrappers, helpers and fixtures of one repository. Wrapper
URLs are instantiated at every call site that binds them, in rounds over a snapshot; then each test
gets the client calls of the functions it reaches.
-/

namespace CodeSystemGraph.Sources

open Ordered

def maxWrapperHops : Nat := 3
def maxTestCallDepth : Nat := 3
def maxOpenUrls : Nat := 16

/-- A named function of one file, by the index of the file within its repository. -/
abbrev Function := Nat ×ₗ String

def Function.file (function : Function) : Nat := (ofLex function).1

def Function.name (function : Function) : String := (ofLex function).2

instance : Std.LawfulEqOrd Function where
  compare_self := by
    intro function
    simp
  eq_of_compare := by
    intro function other same
    rw [Prod.Lex.compare_def, compareLex_eq_eq, compareOn, compareOn] at same
    exact Prod.ext (Std.LawfulEqOrd.eq_of_compare same.1) (Std.LawfulEqOrd.eq_of_compare same.2)

structure RepositorySourceFile where
  repoId : Model.RepoId
  path : String
  observations : List SourceObservation

/-- A client call whose URL still depends on parameters of the function that issues it. -/
structure OpenUrl where
  origin : SourceObservation
  url : UrlTemplate

structure RepositoryFlows where
  symbols : RepositorySymbols
  functions : BTreeMap (List String) (Option Function)
  locals : BTreeMap Function Function
  consumers : BTreeMap Function (List SourceObservation)
  calls : BTreeMap Function (List SourceObservation)
  callers : BTreeMap Function (List (Function × SourceObservation)) := ∅
  tests : BTreeSet Function
  clients : BTreeMap Function SourceFramework
  received : BTreeMap Function (List SourceObservation) := ∅

namespace RepositoryFlows

section New

def collect (flows : RepositoryFlows) (entry : Nat × SourceObservation) : RepositoryFlows :=
  match entry.2.symbolName with
  | none => flows
  | some name =>
    let function : Function := toLex (entry.1, name)
    match entry.2.role with
    | .consumer => { flows with consumers := pushTo flows.consumers function entry.2 }
    | .call => { flows with calls := pushTo flows.calls function entry.2 }
    | .test => { flows with tests := flows.tests.insert function }
    | .client => { flows with clients := flows.clients.insert function entry.2.framework }
    | .provider | .factory | .mount => flows

/-- Two functions with one module-qualified key leave it without a function. -/
def declare (flows : RepositoryFlows) (function : Function) : RepositoryFlows :=
  let (symbols, key) := flows.symbols.declareFunction function.file function.name
  { flows with
    symbols := symbols
    locals := flows.locals.insert function function
    functions := flows.functions.alter key fun declared =>
      match declared with
      | none => some (some function)
      | some known => some (if known = some function then known else none) }

end New

variable (flows : RepositoryFlows)

def consumersOf (function : Function) : List SourceObservation :=
  flows.consumers[function]?.getD []

def callsOf (function : Function) : List SourceObservation :=
  flows.calls[function]?.getD []

def callee (file : Nat) (call : SourceObservation) : Option Function :=
  call.call.bind fun site =>
    (flows.symbols.resolve file site.callee).bind fun key =>
      match key with
      | .name file name => flows.locals[(toLex (file, name) : Function)]?
      | .function key => flows.functions[key]?.join

def sites : List (Function × SourceObservation) :=
  flows.calls.toList.flatMap fun (caller, calls) => calls.map fun call => (caller, call)

def resolveCallers : BTreeMap Function (List (Function × SourceObservation)) :=
  flows.sites.foldl
    (fun callers (caller, call) =>
      match flows.callee caller.file call with
      | some callee => pushTo callers callee (caller, call)
      | none => callers) ∅

def requestsFixture (function : Function) (name : String) : Bool :=
  (flows.callsOf function).any fun call => call.call.any fun site => site.callee = .fixture name

def fixtureClient (function : Function) (name : String) : Option SourceFramework :=
  match flows.symbols.resolve function.file (.fixture name) with
  | some (.name file name) => flows.clients[(toLex (file, name) : Function)]?
  | _ => none

/-- The first framework, if every other is the same. -/
def agreed : List (Option SourceFramework) → Option SourceFramework
  | some first :: rest => if rest.all (· = some first) then some first else none
  | _ => none

def receivedClient : Nat → Function → String → Nat → Option SourceFramework
  | 0, function, name, _ =>
    if flows.requestsFixture function name then flows.fixtureClient function name else none
  | left + 1, function, name, index =>
    if flows.requestsFixture function name then flows.fixtureClient function name
    else
      agreed ((flows.callers[function]?.getD []).map fun (caller, call) =>
        let arguments := boundArguments call
        match (arguments.byName[name]?).or (arguments.byIndex[index]?) with
        | some ⟨[.parameter name index]⟩ => receivedClient left caller name index
        | _ => none)

def confirmReceived (consumer : SourceObservation) (framework : SourceFramework) :
    SourceObservation :=
  let confirmed := { consumer with framework := framework, router := none }
  if confirmed.method.isSome && confirmed.path.isSome then
    { confirmed with status := .confirmed, confidence := .ofNat 1 }
  else confirmed

/-- The client calls through a parameter that receives an in-process test client. -/
def resolveReceived : BTreeMap Function (List SourceObservation) :=
  (flows.consumers.toList.flatMap fun (function, consumers) =>
    consumers.map fun consumer => (function, consumer)).foldl
    (fun received (function, consumer) =>
      match consumer.router with
      | some (.parameter name index) =>
        match flows.receivedClient maxTestCallDepth function name index with
        | some framework => pushTo received function (confirmReceived consumer framework)
        | none => received
      | _ => received) ∅

def new (files : List RepositorySourceFile) (members : List Nat) : RepositoryFlows :=
  let members := members.filterMap (files[·]?)
  let empty : RepositoryFlows :=
    { symbols := .new (members.map fun file => ⟨file.path, file.observations⟩)
      functions := ∅, locals := ∅, consumers := ∅, calls := ∅, tests := ∅, clients := ∅ }
  let collected := (members.zipIdx.flatMap fun (file, index) =>
    file.observations.map fun observation => (index, observation)).foldl collect empty
  let declared := (collected.consumers.keys ++ collected.calls.keys).foldl declare collected
  let linked := { declared with callers := declared.resolveCallers }
  { linked with received := linked.resolveReceived }

section Wrappers

def openUrls (consumers : List SourceObservation) : List OpenUrl :=
  consumers.filterMap fun origin =>
    match origin.url, origin.path with
    | some url, none => some ⟨origin, url⟩
    | _, _ => none

def ownUrls (function : Function) : List OpenUrl :=
  openUrls (flows.consumersOf function)

structure Wrapping where
  openUrls : BTreeMap Function (List OpenUrl)
  resolved : BTreeMap Function (List SourceObservation)
  changed : Bool

def Wrapping.openOf (s : Wrapping) (function : Function) : List OpenUrl :=
  s.openUrls[function]?.getD []

def Wrapping.resolvedOf (s : Wrapping) (function : Function) : List SourceObservation :=
  s.resolved[function]?.getD []

def Wrapping.resolve (s : Wrapping) (caller : Function) (consumer : SourceObservation) : Wrapping :=
  if (s.resolvedOf caller).any fun known => consumerIdentity known = consumerIdentity consumer then s
  else { s with resolved := pushTo s.resolved caller consumer, changed := true }

def Wrapping.leaveOpen (s : Wrapping) (caller : Function) (wrapper : OpenUrl) : Wrapping :=
  if (s.openOf caller).length < maxOpenUrls ∧
      ¬ (s.openOf caller).any fun known => known.url = wrapper.url then
    { s with openUrls := pushTo s.openUrls caller wrapper, changed := true }
  else s

def visitWrapper (caller : Function) (call : SourceObservation) (s : Wrapping) (wrapper : OpenUrl) :
    Wrapping :=
  let url := wrapper.url.bind (boundArguments call)
  match instantiatedConsumer wrapper.origin url caller.name call.lines with
  | some consumer => s.resolve caller { consumer with symbolStartLine := call.symbolStartLine }
  | none => if url.hasParameters then s.leaveOpen caller ⟨wrapper.origin, url⟩ else s

def visitCall (snapshot : BTreeMap Function (List OpenUrl)) (s : Wrapping)
    (site : Function × SourceObservation) : Wrapping :=
  match (flows.callee site.1.file site.2).filter (· ≠ site.1) with
  | none => s
  | some callee => (snapshot[callee]?.getD []).foldl (visitWrapper site.1 site.2) s

def round (s : Wrapping) : Wrapping :=
  flows.sites.foldl (flows.visitCall s.openUrls) { s with changed := false }

def rounds : Nat → Wrapping → Wrapping
  | 0, s => s
  | left + 1, s =>
    let next := flows.round s
    if next.changed then rounds left next else next

/-- Every function with its own open URLs; an empty list is read like a missing one. -/
def startWrapping : Wrapping where
  openUrls := flows.consumers.map fun _ consumers => openUrls consumers
  resolved := ∅
  changed := false

def instantiateWrappers : BTreeMap Function (List SourceObservation) :=
  (flows.rounds maxWrapperHops flows.startWrapping).resolved

end Wrappers

section Tests

def isExact (observation : SourceObservation) : Bool :=
  observation.status = .confirmed && observation.method.isSome && observation.path.isSome

/-- The exact consumers of a function, its own or through an instantiated wrapper. -/
def exactConsumers (resolved : BTreeMap Function (List SourceObservation)) (function : Function) :
    List SourceObservation :=
  (flows.consumersOf function).filter isExact ++ flows.received[function]?.getD [] ++
    resolved[function]?.getD []

def attributed (test : Function) (lines : SourceLineRange) (consumer : SourceObservation) :
    SourceObservation :=
  { consumer with symbolName := some test.name, symbolStartLine := none, lines := lines, url := none }

def callees (function : Function) : List (Function × SourceObservation) :=
  (flows.callsOf function).filterMap fun call =>
    (flows.callee function.file call).map fun callee => (callee, call)

structure Reach where
  visited : BTreeSet Function
  reached : List SourceObservation
  next : List (Function × SourceLineRange)

def Reach.enter (resolved : BTreeMap Function (List SourceObservation)) (test : Function)
    (s : Reach) (entry : Function × SourceLineRange) : Reach :=
  if entry.1 ∈ s.visited then s
  else
    { visited := s.visited.insert entry.1
      reached := s.reached ++ (flows.exactConsumers resolved entry.1).map (attributed test entry.2)
      next := s.next ++ (flows.callees entry.1).map fun callee => (callee.1, entry.2) }

def levels (resolved : BTreeMap Function (List SourceObservation)) (test : Function) :
    Nat → Reach → Reach
  | 0, s => s
  | left + 1, s =>
    levels resolved test left (s.next.foldl (Reach.enter flows resolved test) { s with next := [] })

def startReach (test : Function) : Reach where
  visited := (∅ : BTreeSet Function).insert test
  reached := []
  next := (flows.callees test).map fun callee => (callee.1, callee.2.lines)

def reachedConsumers (resolved : BTreeMap Function (List SourceObservation)) (test : Function) :
    List SourceObservation :=
  (flows.levels resolved test maxTestCallDepth (flows.startReach test)).reached

def unseen : List ConsumerIdentity → List SourceObservation → List SourceObservation
  | _, [] => []
  | seen, observation :: rest =>
    if consumerIdentity observation ∈ seen then unseen seen rest
    else observation :: unseen (consumerIdentity observation :: seen) rest

def gained (test : Function) : List SourceObservation :=
  let resolved := flows.instantiateWrappers
  unseen ((flows.exactConsumers resolved test).map consumerIdentity)
    (flows.reachedConsumers resolved test)

end Tests

def compose : BTreeMap Nat (List SourceObservation) :=
  let additions := (flows.received.toList ++ flows.instantiateWrappers.toList ++
    flows.tests.toList.map fun test => (test, flows.gained test)).flatMap fun (function, observations) =>
      observations.map fun observation => (function.file, observation)
  additions.foldl (fun files (file, observation) => pushTo files file observation) ∅

end RepositoryFlows

def isReceived (observation : SourceObservation) : Bool :=
  observation.role = .consumer &&
    match observation.router with
    | some (.parameter _ _) => true
    | _ => false

def filesByRepository (files : List RepositorySourceFile) : BTreeMap Model.RepoId (List Nat) :=
  files.zipIdx.foldl (fun groups (file, index) => pushTo groups file.repoId index) ∅

/-- Whether a repository has a call or a received client: without one nothing is composed. -/
def composable (files : List RepositorySourceFile) (members : List Nat) : Bool :=
  members.any fun index => (files[index]?.elim [] RepositorySourceFile.observations).any
    fun observation => observation.role = .call || isReceived observation

def appendAdditions (members : List Nat) (output : List (List SourceObservation))
    (entry : Nat × List SourceObservation) : List (List SourceObservation) :=
  match members[entry.1]? with
  | some index => output.modify index (· ++ entry.2)
  | none => output

def composeRepository (files : List RepositorySourceFile) (output : List (List SourceObservation))
    (members : List Nat) : List (List SourceObservation) :=
  if composable files members then
    (RepositoryFlows.new files members).compose.toList.foldl (appendAdditions members) output
  else output

def isKept (observation : SourceObservation) : Bool :=
  observation.role ≠ .call && observation.role ≠ .client && !isReceived observation

def composeClientFlows (files : List RepositorySourceFile) : List (List SourceObservation) :=
  let output := (values (filesByRepository files)).foldl (composeRepository files)
    (files.map RepositorySourceFile.observations)
  output.map fun observations => observations.filter isKept

section Groups

variable {files : List RepositorySourceFile} {members : List Nat} {index : Nat}

theorem getElem?_filesByRepository (files : List RepositorySourceFile) (repo : Model.RepoId) :
    (filesByRepository files)[repo]?.getD [] =
      (files.zipIdx.filter fun entry => entry.1.repoId = repo).map Prod.snd :=
  (foldl_pushTo_getD (fun entry : RepositorySourceFile × Nat => entry.1.repoId) Prod.snd
    files.zipIdx ∅ repo).trans (by simp)

theorem mem_members {repo : Model.RepoId}
    (found : (filesByRepository files)[repo]? = some members) :
    members.Nodup ∧ ∀ index, index ∈ members ↔ ∃ file, files[index]? = some file ∧ file.repoId = repo := by
  have same := getElem?_filesByRepository files repo
  rw [found, Option.getD_some] at same
  subst same
  constructor
  · have positions : (files.zipIdx.map Prod.snd).Nodup := by
      rw [List.zipIdx_map_snd]
      exact List.nodup_range' 1
    exact positions.sublist (List.filter_sublist.map _)
  · intro index
    simp only [List.mem_map, List.mem_filter, decide_eq_true_eq]
    constructor
    · rintro ⟨⟨file, index⟩, ⟨mem, owned⟩, rfl⟩
      exact ⟨file, List.mem_zipIdx_iff_getElem?.mp mem, owned⟩
    · rintro ⟨file, there, owned⟩
      exact ⟨(file, index), ⟨List.mem_zipIdx_iff_getElem?.mpr there, owned⟩, rfl⟩

theorem foldl_groups {step : List (List SourceObservation) → List Nat → List (List SourceObservation)}
    (size : ∀ output members, (step output members).length = output.length)
    (other : ∀ output members, members.Nodup → index < output.length → index ∉ members →
      (step output members)[index]? = output[index]?)
    {file : RepositorySourceFile} (found : files[index]? = some file) :
    ∃ (members : List Nat) (position : Nat), (filesByRepository files)[file.repoId]? = some members ∧
      members[position]? = some index ∧ ∃ output, output[index]? = some file.observations ∧
        output.length = files.length ∧
        ((values (filesByRepository files)).foldl step
          (files.map RepositorySourceFile.observations))[index]? = (step output members)[index]? := by
  have outside : ∀ (groups : List (List Nat)) (output : List (List SourceObservation)),
      (∀ m ∈ groups, m.Nodup ∧ index ∉ m) → index < output.length →
      (groups.foldl step output)[index]? = output[index]? ∧
        (groups.foldl step output).length = output.length := by
    intro groups
    induction groups with
    | nil => exact fun _ _ _ => ⟨rfl, rfl⟩
    | cons m groups ih =>
      intro output apart inside
      obtain ⟨⟨nodup, absent⟩, apart⟩ := List.forall_mem_cons.mp apart
      obtain ⟨same, length⟩ := ih (step output m) apart ((size output m).symm ▸ inside)
      exact ⟨same.trans (other output m nodup inside absent), length.trans (size output m)⟩
  have listed : index ∈ (filesByRepository files)[file.repoId]?.getD [] := by
    rw [getElem?_filesByRepository, List.mem_map]
    exact ⟨(file, index), List.mem_filter.mpr ⟨List.mem_zipIdx_iff_getElem?.mpr found, by simp⟩, rfl⟩
  cases group : (filesByRepository files)[file.repoId]? with
  | none => simp [group] at listed
  | some members =>
    rw [group, Option.getD_some] at listed
    obtain ⟨position, member⟩ := List.mem_iff_getElem?.mp listed
    have entry := Std.ExtTreeMap.mem_toList_iff_getElem?_eq_some.mpr group
    obtain ⟨before, after, split⟩ := List.append_of_mem entry
    have distinct := Std.ExtTreeMap.distinct_keys_toList (t := filesByRepository files)
    rw [split] at distinct
    obtain ⟨-, last, first⟩ := List.pairwise_append.mp distinct
    have apart : ∀ entry ∈ before ++ after, entry.2.Nodup ∧ index ∉ entry.2 := by
      intro entry mem
      have different : entry.1 ≠ file.repoId := by
        rcases List.mem_append.mp mem with mem | mem
        · exact fun same => first entry mem _ List.mem_cons_self (by
            rw [same]; exact Std.ReflCmp.compare_self)
        · exact fun same => (List.pairwise_cons.mp last).1 entry mem (by
            rw [same]; exact Std.ReflCmp.compare_self)
      have stored : (filesByRepository files)[entry.1]? = some entry.2 := by
        rw [← Std.ExtTreeMap.mem_toList_iff_getElem?_eq_some, split]
        exact (List.mem_append.mp mem).elim (List.mem_append_left _)
          fun mem => List.mem_append_right _ (List.mem_cons_of_mem _ mem)
      obtain ⟨nodup, owns⟩ := mem_members stored
      refine ⟨nodup, fun inside => ?_⟩
      obtain ⟨file', found', owned⟩ := (owns index).mp inside
      rw [found, Option.some.injEq] at found'
      exact different (owned.symm.trans (by rw [found']))
    have inside : index < (files.map RepositorySourceFile.observations).length := by
      rw [List.length_map]
      exact (List.getElem?_eq_some_iff.mp found).1
    have groups : values (filesByRepository files) =
        before.map Prod.snd ++ members :: after.map Prod.snd := by
      rw [values, split, List.map_append, List.map_cons]
    obtain ⟨same, length⟩ := outside (before.map Prod.snd) _ (List.forall_mem_map.mpr fun entry mem =>
      apart entry (List.mem_append_left _ mem)) inside
    refine ⟨members, position, rfl, member, _, ?_, length.trans (List.length_map ..), ?_⟩
    · rw [same, List.getElem?_map, found, Option.map_some]
    · rw [groups, List.foldl_append, List.foldl_cons]
      exact (outside (after.map Prod.snd) _ (List.forall_mem_map.mpr fun entry mem =>
        apart entry (List.mem_append_right _ mem)) (by rwa [size, length])).1

end Groups

end CodeSystemGraph.Sources
