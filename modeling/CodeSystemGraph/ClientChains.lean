import Mathlib.Logic.Function.Iterate
import CodeSystemGraph.ClientFlows

/-!
What the rounds of `instantiate_wrappers` and the search from a test have to do with call chains. A
chain begins at a client call with an open URL and binds the arguments of one call after the other.
-/

namespace CodeSystemGraph.Sources

open Ordered

section Workspace

variable {files : List RepositorySourceFile} {members : List Nat} {index : Nat}

theorem getElem?_appendAdditions (entries : List (Nat × List SourceObservation))
    (output : List (List SourceObservation)) :
    (entries.foldl (appendAdditions members) output)[index]? = output[index]?.map
      (· ++ (entries.filter fun entry => members[entry.1]? = some index).flatMap Prod.snd) ∧
    (entries.foldl (appendAdditions members) output).length = output.length := by
  induction entries generalizing output with
  | nil => simp
  | cons entry entries ih =>
    obtain ⟨same, length⟩ := ih (appendAdditions members output entry)
    rw [List.foldl_cons, same, length, appendAdditions]
    cases at_file : members[entry.1]? with
    | none => simp [at_file]
    | some other =>
      rw [List.getElem?_modify, List.length_modify]
      by_cases here : other = index
      · cases output[index]? <;> simp [at_file, here]
      · cases output[index]? <;> simp [at_file, here]

theorem composeRepository_length (output : List (List SourceObservation)) (members : List Nat) :
    (composeRepository files output members).length = output.length := by
  rw [composeRepository]
  split
  · exact (@getElem?_appendAdditions members 0 _ output).2
  · rfl

theorem getElem?_composeClientFlows {file : RepositorySourceFile} (found : files[index]? = some file) :
    ∃ (members : List Nat) (position : Nat), (filesByRepository files)[file.repoId]? = some members ∧
      members[position]? = some index ∧
      (composeClientFlows files)[index]? = some ((file.observations ++
        if composable files members then (RepositoryFlows.new files members).compose[position]?.getD []
        else []).filter isKept) := by
  have other : ∀ (output : List (List SourceObservation)) (members : List Nat), members.Nodup →
      index < output.length → index ∉ members →
      (composeRepository files output members)[index]? = output[index]? := by
    intro output members _ _ outside
    rw [composeRepository]
    split
    · have none : ∀ entries : List (Nat × List SourceObservation),
          (entries.filter fun entry => members[entry.1]? = some index) = [] := fun entries =>
        List.filter_eq_nil_iff.mpr fun entry _ same =>
          outside (List.mem_of_getElem? (of_decide_eq_true same))
      rw [(getElem?_appendAdditions _ output).1, none]
      simp
    · rfl
  obtain ⟨members, position, group, member, output, start, -, composed⟩ :=
    foldl_groups composeRepository_length other found
  refine ⟨members, position, group, member, ?_⟩
  rw [composeClientFlows, List.getElem?_map, composed, composeRepository]
  split
  · obtain ⟨nodup, -⟩ := mem_members group
    have at_position : ∀ entry : Nat × List SourceObservation,
        decide (members[entry.1]? = some index) = decide (entry.1 = position) := by
      intro entry
      rw [decide_eq_decide, ← member]
      constructor
      · intro same
        exact ((List.getElem?_inj (List.getElem?_eq_some_iff.mp member).1 nodup).mp same.symm).symm
      · exact congrArg (members[·]?)
    rw [(getElem?_appendAdditions _ output).1, start, funext at_position, List.flatMap_def, filter_toList]
    cases (RepositoryFlows.new files members).compose[position]? <;> simp
  · rw [start]
    simp

end Workspace

namespace RepositoryFlows

variable (flows : RepositoryFlows)

section Chains

/-- One call of a chain, from a function that is not its own callee. -/
structure Link (caller callee : Function) (call : SourceObservation) : Prop where
  mem : call ∈ flows.callsOf caller
  found : flows.callee caller.file call = some callee
  apart : callee ≠ caller

/-- After the given number of calls the URL of a client call is still open in a function. -/
inductive Reaches : Nat → Function → SourceObservation → UrlTemplate → Prop
  | own {function : Function} {origin : SourceObservation} {url : UrlTemplate}
    (mem : ⟨origin, url⟩ ∈ flows.ownUrls function) : Reaches 0 function origin url
  | through {n : Nat} {callee caller : Function} {origin call : SourceObservation}
    {url : UrlTemplate} (reaches : Reaches n callee origin url) (link : flows.Link caller callee call)
    (rejected : instantiatedConsumer origin (url.bind (boundArguments call)) caller.name call.lines =
      none)
    (parameters : (url.bind (boundArguments call)).hasParameters = true) :
    Reaches (n + 1) caller origin (url.bind (boundArguments call))

/-- A chain whose last call, after the given number of others, binds its URL to an exact path. -/
inductive Instantiates (n : Nat) (caller : Function) : SourceObservation → Prop
  | intro {callee : Function} {origin call consumer : SourceObservation} {url : UrlTemplate}
    (reaches : flows.Reaches n callee origin url) (link : flows.Link caller callee call)
    (accepted : instantiatedConsumer origin (url.bind (boundArguments call)) caller.name call.lines =
      some consumer) :
    Instantiates n caller { consumer with symbolStartLine := call.symbolStartLine }

/-- At most the given number of further calls bind an open URL to an exact path. -/
inductive Closes : Nat → Function → SourceObservation → UrlTemplate → Prop
  | here {n : Nat} {callee caller : Function} {origin call consumer : SourceObservation}
    {url : UrlTemplate} (link : flows.Link caller callee call)
    (accepted : instantiatedConsumer origin (url.bind (boundArguments call)) caller.name call.lines =
      some consumer) : Closes (n + 1) callee origin url
  | later {n : Nat} {callee caller : Function} {origin call : SourceObservation} {url : UrlTemplate}
    (link : flows.Link caller callee call)
    (rejected : instantiatedConsumer origin (url.bind (boundArguments call)) caller.name call.lines =
      none)
    (parameters : (url.bind (boundArguments call)).hasParameters = true)
    (closes : Closes n caller origin (url.bind (boundArguments call))) :
    Closes (n + 1) callee origin url

/-- No function collects more open URLs than `MAX_OPEN_URLS`: its own, and the other templates that
reach it through fewer calls than the rounds. -/
def Bounded : Prop :=
  ∀ function, ∃ others : List UrlTemplate,
    (∀ n origin url, n < maxWrapperHops → flows.Reaches n function origin url →
      url ∈ (flows.ownUrls function).map OpenUrl.url ∨ url ∈ others) ∧
    (flows.ownUrls function).length + others.length ≤ maxOpenUrls

/-- Where a URL that calls have left open, and that further calls close, meets an equal template in
one function, the two come from client calls with the same method. -/
def Unambiguous : Prop :=
  ∀ n n' function origin origin' url, 0 < n → n < maxWrapperHops → n' < maxWrapperHops →
    flows.Reaches n function origin url → flows.Closes (maxWrapperHops - n) function origin url →
    flows.Reaches n' function origin' url → origin'.method = origin.method

end Chains

theorem instantiatedConsumer_congr {origin origin' : SourceObservation}
    (same : origin'.method = origin.method) (url : UrlTemplate) (caller : String)
    (lines : SourceLineRange) :
    (instantiatedConsumer origin' url caller lines).map consumerIdentity =
      (instantiatedConsumer origin url caller lines).map consumerIdentity := by
  cases literal : url.clientLiteral with
  | none => simp [instantiatedConsumer, literal]
  | some literal' =>
    simp only [instantiatedConsumer, literal, Option.bind_some, httpFromLiteral, same]
    split <;> rfl

section Rounds

/-- The visits of a round: each wrapper of the callee, at each call. -/
def visits (snapshot : BTreeMap Function (List OpenUrl)) :
    List ((Function × SourceObservation) × OpenUrl) :=
  flows.sites.flatMap fun site =>
    (((flows.callee site.1.file site.2).filter (· ≠ site.1)).elim []
      fun callee => snapshot[callee]?.getD []).map fun wrapper => (site, wrapper)

def visit (s : Wrapping) (visited : (Function × SourceObservation) × OpenUrl) : Wrapping :=
  visitWrapper visited.1.1 visited.1.2 s visited.2

theorem round_eq (s : Wrapping) :
    flows.round s = (flows.visits s.openUrls).foldl visit { s with changed := false } := by
  rw [round, visits, List.foldl_flatMap]
  congr 1
  funext state site
  rw [List.foldl_map, visitCall]
  cases (flows.callee site.1.file site.2).filter (· ≠ site.1) with
  | none => rfl
  | some callee => rfl

theorem mem_sites {caller : Function} {call : SourceObservation} :
    (caller, call) ∈ flows.sites ↔ call ∈ flows.callsOf caller := by
  simp only [sites, List.mem_flatMap, Prod.exists, List.mem_map, Prod.mk.injEq, callsOf]
  constructor
  · rintro ⟨caller', calls, found, call', mem, rfl, rfl⟩
    rwa [Std.ExtTreeMap.mem_toList_iff_getElem?_eq_some.1 found, Option.getD_some]
  · intro mem
    cases found : flows.calls[caller]? with
    | none => simp [found] at mem
    | some calls =>
      exact ⟨caller, calls, Std.ExtTreeMap.mem_toList_iff_getElem?_eq_some.2 found, call,
        by simpa [found] using mem, rfl, rfl⟩

theorem mem_visits {snapshot : BTreeMap Function (List OpenUrl)} {caller : Function}
    {call : SourceObservation} {wrapper : OpenUrl} :
    ((caller, call), wrapper) ∈ flows.visits snapshot ↔
      ∃ callee, flows.Link caller callee call ∧ wrapper ∈ snapshot[callee]?.getD [] := by
  simp only [visits, List.mem_flatMap, List.mem_map, Prod.mk.injEq, Prod.exists, mem_sites]
  constructor
  · rintro ⟨caller', call', mem, wrapper', found, ⟨rfl, rfl⟩, rfl⟩
    cases callee : (flows.callee caller'.file call').filter (· ≠ caller') with
    | none =>
      rw [callee] at found
      cases found
    | some callee' =>
      obtain ⟨is, apart⟩ := Option.filter_eq_some_iff.1 callee
      rw [callee] at found
      exact ⟨callee', ⟨mem, is, by simpa using apart⟩, found⟩
  · rintro ⟨callee, link, mem⟩
    refine ⟨caller, call, link.mem, wrapper, ?_, ⟨rfl, rfl⟩, rfl⟩
    have is : (flows.callee caller.file call).filter (· ≠ caller) = some callee :=
      Option.filter_eq_some_iff.2 ⟨link.found, by simpa using link.apart⟩
    rwa [is]

end Rounds

section Visits

variable {s : Wrapping} {caller : Function} {call : SourceObservation} {wrapper : OpenUrl}

inductive Visited (s : Wrapping) (caller : Function) (call : SourceObservation)
    (wrapper : OpenUrl) : Wrapping → Prop
  | resolved {consumer known : SourceObservation}
    (accepted : instantiatedConsumer wrapper.origin (wrapper.url.bind (boundArguments call))
      caller.name call.lines = some consumer)
    (mem : known ∈ s.resolvedOf caller) (same : consumerIdentity known = consumerIdentity consumer) :
    Visited s caller call wrapper s
  | resolves {consumer : SourceObservation}
    (accepted : instantiatedConsumer wrapper.origin (wrapper.url.bind (boundArguments call))
      caller.name call.lines = some consumer) :
    Visited s caller call wrapper
      { s with
        resolved := pushTo s.resolved caller { consumer with symbolStartLine := call.symbolStartLine }
        changed := true }
  | closed (rejected : instantiatedConsumer wrapper.origin (wrapper.url.bind (boundArguments call))
      caller.name call.lines = none)
    (closed : (wrapper.url.bind (boundArguments call)).hasParameters = false) :
    Visited s caller call wrapper s
  | known {known : OpenUrl}
    (rejected : instantiatedConsumer wrapper.origin (wrapper.url.bind (boundArguments call))
      caller.name call.lines = none)
    (parameters : (wrapper.url.bind (boundArguments call)).hasParameters = true)
    (mem : known ∈ s.openOf caller) (same : known.url = wrapper.url.bind (boundArguments call)) :
    Visited s caller call wrapper s
  | full (rejected : instantiatedConsumer wrapper.origin (wrapper.url.bind (boundArguments call))
      caller.name call.lines = none)
    (parameters : (wrapper.url.bind (boundArguments call)).hasParameters = true)
    (full : maxOpenUrls ≤ (s.openOf caller).length)
    (fresh : ∀ known ∈ s.openOf caller, known.url ≠ wrapper.url.bind (boundArguments call)) :
    Visited s caller call wrapper s
  | opens (rejected : instantiatedConsumer wrapper.origin (wrapper.url.bind (boundArguments call))
      caller.name call.lines = none)
    (parameters : (wrapper.url.bind (boundArguments call)).hasParameters = true)
    (fresh : ∀ known ∈ s.openOf caller, known.url ≠ wrapper.url.bind (boundArguments call)) :
    Visited s caller call wrapper
      { s with
        openUrls := pushTo s.openUrls caller
          ⟨wrapper.origin, wrapper.url.bind (boundArguments call)⟩
        changed := true }

theorem visitWrapper_visited (s : Wrapping) (caller : Function) (call : SourceObservation)
    (wrapper : OpenUrl) : Visited s caller call wrapper (visitWrapper caller call s wrapper) := by
  cases accepted : instantiatedConsumer wrapper.origin (wrapper.url.bind (boundArguments call))
      caller.name call.lines with
  | some consumer =>
    by_cases known : (s.resolvedOf caller).any fun known =>
        consumerIdentity known = consumerIdentity consumer
    · have stays : visitWrapper caller call s wrapper = s := by
        simp only [visitWrapper, accepted, Wrapping.resolve]
        exact if_pos known
      obtain ⟨other, mem, same⟩ := List.any_eq_true.1 known
      rw [stays]
      exact .resolved accepted mem (by simpa using same)
    · have grows : visitWrapper caller call s wrapper =
          { s with
            resolved := pushTo s.resolved caller
              { consumer with symbolStartLine := call.symbolStartLine }
            changed := true } := by
        simp only [visitWrapper, accepted, Wrapping.resolve]
        exact if_neg known
      rw [grows]
      exact .resolves accepted
  | none =>
    cases parameters : (wrapper.url.bind (boundArguments call)).hasParameters with
    | false =>
      have stays : visitWrapper caller call s wrapper = s := by
        simp [visitWrapper, accepted, parameters]
      rw [stays]
      exact .closed accepted parameters
    | true =>
      have visits : visitWrapper caller call s wrapper =
          s.leaveOpen caller ⟨wrapper.origin, wrapper.url.bind (boundArguments call)⟩ := by
        simp [visitWrapper, accepted, parameters]
      rw [visits, Wrapping.leaveOpen]
      by_cases known : (s.openOf caller).any fun known =>
          known.url = wrapper.url.bind (boundArguments call)
      · rw [if_neg (fun fresh => fresh.2 known)]
        obtain ⟨other, mem, same⟩ := List.any_eq_true.1 known
        exact .known accepted parameters mem (by simpa using same)
      · have fresh : ∀ known ∈ s.openOf caller,
            known.url ≠ wrapper.url.bind (boundArguments call) := by simpa using known
        by_cases room : (s.openOf caller).length < maxOpenUrls
        · rw [if_pos ⟨room, known⟩]
          exact .opens accepted parameters fresh
        · rw [if_neg (fun both => room both.1)]
          exact .full accepted parameters (by omega) fresh

theorem openOf_push (s : Wrapping) (caller function : Function) (wrapper : OpenUrl) (changed : Bool) :
    ({ s with openUrls := pushTo s.openUrls caller wrapper, changed := changed } : Wrapping).openOf
        function = s.openOf function ++ if caller = function then [wrapper] else [] :=
  pushTo_getD s.openUrls caller function wrapper

theorem resolvedOf_push (s : Wrapping) (caller function : Function) (consumer : SourceObservation)
    (changed : Bool) :
    ({ s with resolved := pushTo s.resolved caller consumer, changed := changed } :
        Wrapping).resolvedOf function =
      s.resolvedOf function ++ if caller = function then [consumer] else [] :=
  pushTo_getD s.resolved caller function consumer

variable {next : Wrapping}

theorem Visited.openOf_mono (visited : Visited s caller call wrapper next) {function : Function}
    {known : OpenUrl} (mem : known ∈ s.openOf function) : known ∈ next.openOf function := by
  cases visited with
  | opens =>
    rw [openOf_push]
    exact List.mem_append_left _ mem
  | _ => exact mem

theorem Visited.resolvedOf_mono (visited : Visited s caller call wrapper next) {function : Function}
    {known : SourceObservation} (mem : known ∈ s.resolvedOf function) :
    known ∈ next.resolvedOf function := by
  cases visited with
  | resolves =>
    rw [resolvedOf_push]
    exact List.mem_append_left _ mem
  | _ => exact mem

theorem foldl_visit_each (inv done : Wrapping → Prop)
    {l : List ((Function × SourceObservation) × OpenUrl)}
    {v : (Function × SourceObservation) × OpenUrl} (mem : v ∈ l)
    (start : inv s) (kept : ∀ s, inv s → ∀ w ∈ l, inv (visit s w))
    (does : ∀ s, inv s → done (visit s v)) (stays : ∀ s w, done s → done (visit s w)) :
    done (l.foldl visit s) := by
  obtain ⟨before, after, rfl⟩ := List.append_of_mem mem
  rw [List.foldl_append, List.foldl_cons]
  have reached : inv (before.foldl visit s) :=
    List.foldlRecOn before visit start fun s holds w among =>
      kept s holds w (List.mem_append_left _ among)
  exact List.foldlRecOn after visit (does _ reached) fun s holds w _ => stays s w holds

end Visits

section Soundness

variable {flows} {depth : Nat} {s : Wrapping}

/-- What the rounds have collected comes from chains, and the open URLs of a function are its own
and others with pairwise different templates. -/
structure Collected (flows : RepositoryFlows) (depth : Nat) (s : Wrapping) : Prop where
  reaches : ∀ function, ∀ wrapper ∈ s.openOf function,
    ∃ n ≤ depth, flows.Reaches n function wrapper.origin wrapper.url
  instantiates : ∀ function, ∀ consumer ∈ s.resolvedOf function,
    ∃ n < depth, flows.Instantiates n function consumer
  own : ∀ function, ∃ others, s.openOf function = flows.ownUrls function ++ others ∧
    (others.map OpenUrl.url).Nodup ∧
    ∀ wrapper ∈ others, wrapper.url ∉ (flows.ownUrls function).map OpenUrl.url

theorem Collected.deepen (collected : flows.Collected depth s) : flows.Collected (depth + 1) s where
  reaches := by
    intro function wrapper mem
    obtain ⟨n, le, reaches⟩ := collected.reaches function wrapper mem
    exact ⟨n, by omega, reaches⟩
  instantiates := by
    intro function consumer mem
    obtain ⟨n, lt, chain⟩ := collected.instantiates function consumer mem
    exact ⟨n, by omega, chain⟩
  own := collected.own

theorem Collected.visit {caller callee : Function} {call : SourceObservation} {wrapper : OpenUrl}
    {next : Wrapping} {n : Nat} (collected : flows.Collected (depth + 1) s) (le : n ≤ depth)
    (reaches : flows.Reaches n callee wrapper.origin wrapper.url)
    (link : flows.Link caller callee call) (visited : Visited s caller call wrapper next) :
    flows.Collected (depth + 1) next := by
  cases visited with
  | resolves accepted =>
    refine ⟨collected.reaches, ?_, collected.own⟩
    intro function consumer mem
    rw [resolvedOf_push, List.mem_append] at mem
    rcases mem with mem | mem
    · exact collected.instantiates function consumer mem
    · split at mem
      · next same =>
        rw [List.mem_singleton] at mem
        subst mem same
        exact ⟨n, by omega, .intro reaches link accepted⟩
      · cases mem
  | opens rejected parameters fresh =>
    refine ⟨?_, collected.instantiates, ?_⟩
    · intro function known mem
      rw [openOf_push, List.mem_append] at mem
      rcases mem with mem | mem
      · exact collected.reaches function known mem
      · split at mem
        · next same =>
          rw [List.mem_singleton] at mem
          subst mem same
          exact ⟨n + 1, by omega, reaches.through link rejected parameters⟩
        · cases mem
    · intro function
      obtain ⟨others, is, nodup, apart⟩ := collected.own function
      rw [openOf_push]
      by_cases same : caller = function
      · subst same
        rw [if_pos rfl, is, List.append_assoc]
        refine ⟨_, rfl, ?_, ?_⟩
        · rw [List.map_append, List.nodup_append]
          refine ⟨nodup, List.nodup_singleton _, ?_⟩
          intro url mem url' mem'
          obtain ⟨known, among, rfl⟩ := List.mem_map.1 mem
          rw [List.map_singleton, List.mem_singleton] at mem'
          rw [mem']
          exact fresh known (is ▸ List.mem_append_right _ among)
        · intro known mem
          rcases List.mem_append.1 mem with mem | mem
          · exact apart known mem
          · rw [List.mem_singleton] at mem
            subst mem
            intro own
            obtain ⟨other, among, same⟩ := List.mem_map.1 own
            exact fresh other (is ▸ List.mem_append_left _ among) same
      · rw [if_neg same, List.append_nil]
        exact ⟨others, is, nodup, apart⟩
  | _ => exact collected

theorem Collected.visits (collected : flows.Collected depth s) {state : Wrapping}
    (holds : flows.Collected (depth + 1) state) {v : (Function × SourceObservation) × OpenUrl}
    (mem : v ∈ flows.visits s.openUrls) : flows.Collected (depth + 1) (RepositoryFlows.visit state v) := by
  obtain ⟨callee, link, among⟩ := flows.mem_visits.1 mem
  obtain ⟨n, le, reaches⟩ := collected.reaches callee v.2 among
  exact holds.visit le reaches link (visitWrapper_visited state v.1.1 v.1.2 v.2)

theorem Collected.round (collected : flows.Collected depth s) :
    flows.Collected (depth + 1) (flows.round s) := by
  have start : flows.Collected (depth + 1) { s with changed := false } :=
    ⟨collected.deepen.reaches, collected.deepen.instantiates, collected.deepen.own⟩
  rw [round_eq]
  exact List.foldlRecOn _ _ start fun state holds v mem => collected.visits holds mem

theorem startWrapping_openOf (function : Function) :
    flows.startWrapping.openOf function = flows.ownUrls function := by
  rw [Wrapping.openOf, startWrapping, Std.ExtTreeMap.getElem?_map, ownUrls, consumersOf]
  cases flows.consumers[function]? with
  | none => rfl
  | some consumers => rfl

theorem collected_start : flows.Collected 0 flows.startWrapping where
  reaches := by
    intro function wrapper mem
    rw [startWrapping_openOf] at mem
    exact ⟨0, le_rfl, .own mem⟩
  instantiates := by
    intro function consumer mem
    simp [Wrapping.resolvedOf, startWrapping] at mem
  own := by
    intro function
    rw [startWrapping_openOf]
    refine ⟨[], (List.append_nil _).symm, List.nodup_nil, ?_⟩
    intro wrapper mem
    cases mem

end Soundness

section Completeness

variable {flows} {depth : Nat} {s : Wrapping}

theorem round_openOf_mono {function : Function} {known : OpenUrl}
    (mem : known ∈ s.openOf function) : known ∈ (flows.round s).openOf function := by
  rw [round_eq]
  have start : known ∈ ({ s with changed := false } : Wrapping).openOf function := mem
  exact List.foldlRecOn (motive := fun state => known ∈ state.openOf function)
    (flows.visits s.openUrls) visit start fun state holds v _ => (visitWrapper_visited state v.1.1 v.1.2 v.2).openOf_mono holds

theorem round_resolvedOf_mono {function : Function} {known : SourceObservation}
    (mem : known ∈ s.resolvedOf function) : known ∈ (flows.round s).resolvedOf function := by
  rw [round_eq]
  have start : known ∈ ({ s with changed := false } : Wrapping).resolvedOf function := mem
  exact List.foldlRecOn (motive := fun state => known ∈ state.resolvedOf function)
    (flows.visits s.openUrls) visit start fun state holds v _ => (visitWrapper_visited state v.1.1 v.1.2 v.2).resolvedOf_mono holds

theorem round_resolves {caller callee : Function} {call consumer : SourceObservation}
    {wrapper : OpenUrl} (link : flows.Link caller callee call) (mem : wrapper ∈ s.openOf callee)
    (accepted : instantiatedConsumer wrapper.origin (wrapper.url.bind (boundArguments call))
      caller.name call.lines = some consumer) :
    ∃ known ∈ (flows.round s).resolvedOf caller,
      consumerIdentity known = consumerIdentity consumer := by
  rw [round_eq]
  have among : ((caller, call), wrapper) ∈ flows.visits s.openUrls :=
    flows.mem_visits.2 ⟨callee, link, mem⟩
  refine foldl_visit_each (fun _ => True)
    (fun state => ∃ known ∈ state.resolvedOf caller,
      consumerIdentity known = consumerIdentity consumer)
    among trivial (fun _ _ _ _ => trivial) ?_ ?_
  · intro state _
    have visited := visitWrapper_visited state caller call wrapper
    rw [visit]
    generalize visitWrapper caller call state wrapper = next at visited
    cases visited with
    | resolved accepted' mem same =>
      rw [accepted] at accepted'
      cases accepted'
      exact ⟨_, mem, same⟩
    | resolves accepted' =>
      rw [accepted] at accepted'
      cases accepted'
      refine ⟨{ consumer with symbolStartLine := call.symbolStartLine }, ?_, rfl⟩
      rw [resolvedOf_push, if_pos rfl]
      exact List.mem_append_right _ (List.mem_singleton_self _)
    | closed rejected => rw [accepted] at rejected; cases rejected
    | known rejected => rw [accepted] at rejected; cases rejected
    | full rejected => rw [accepted] at rejected; cases rejected
    | opens rejected => rw [accepted] at rejected; cases rejected
  · rintro state v ⟨known, mem, same⟩
    exact ⟨known, (visitWrapper_visited state v.1.1 v.1.2 v.2).resolvedOf_mono mem, same⟩

theorem Collected.room (bounded : flows.Bounded) (collected : flows.Collected depth s)
    (shallow : depth < maxWrapperHops) {n : Nat} {function : Function} {origin : SourceObservation}
    {url : UrlTemplate} (le : n ≤ depth) (reaches : flows.Reaches n function origin url)
    (fresh : ∀ known ∈ s.openOf function, known.url ≠ url) :
    (s.openOf function).length < maxOpenUrls := by
  obtain ⟨others, is, nodup, apart⟩ := collected.own function
  obtain ⟨templates, cover, bound⟩ := bounded function
  have distinct : (url :: others.map OpenUrl.url).Nodup := by
    rw [List.nodup_cons]
    refine ⟨?_, nodup⟩
    intro mem
    obtain ⟨known, among, same⟩ := List.mem_map.1 mem
    exact fresh known (is ▸ List.mem_append_right _ among) same
  have covered : url :: others.map OpenUrl.url ⊆ templates := by
    intro template mem
    rcases List.mem_cons.1 mem with rfl | mem
    · refine (cover n origin template (by omega) reaches).resolve_left ?_
      intro own
      obtain ⟨known, among, same⟩ := List.mem_map.1 own
      exact fresh known (is ▸ List.mem_append_left _ among) same
    · obtain ⟨known, among, rfl⟩ := List.mem_map.1 mem
      obtain ⟨m, le', reaches'⟩ := collected.reaches function known (is ▸ List.mem_append_right _ among)
      exact (cover m known.origin known.url (by omega) reaches').resolve_left (apart known among)
  have fewer := (List.subperm_of_subset distinct covered).length_le
  rw [List.length_cons, List.length_map] at fewer
  rw [is, List.length_append]
  omega

theorem round_opens (bounded : flows.Bounded) (collected : flows.Collected depth s)
    (shallow : depth + 1 < maxWrapperHops) {caller callee : Function} {call : SourceObservation}
    {wrapper : OpenUrl} (link : flows.Link caller callee call) (mem : wrapper ∈ s.openOf callee)
    (rejected : instantiatedConsumer wrapper.origin (wrapper.url.bind (boundArguments call))
      caller.name call.lines = none)
    (parameters : (wrapper.url.bind (boundArguments call)).hasParameters = true) :
    ∃ known ∈ (flows.round s).openOf caller, known.url = wrapper.url.bind (boundArguments call) := by
  obtain ⟨n, le, reaches⟩ := collected.reaches callee wrapper mem
  rw [round_eq]
  have among : ((caller, call), wrapper) ∈ flows.visits s.openUrls :=
    flows.mem_visits.2 ⟨callee, link, mem⟩
  have start : flows.Collected (depth + 1) { s with changed := false } :=
    ⟨collected.deepen.reaches, collected.deepen.instantiates, collected.deepen.own⟩
  refine foldl_visit_each (flows.Collected (depth + 1))
    (fun state => ∃ known ∈ state.openOf caller,
      known.url = wrapper.url.bind (boundArguments call))
    among start (fun _ holds _ => collected.visits holds) ?_ ?_
  · intro state holds
    have visited := visitWrapper_visited state caller call wrapper
    rw [visit]
    generalize visitWrapper caller call state wrapper = next at visited
    cases visited with
    | resolved accepted => rw [rejected] at accepted; cases accepted
    | resolves accepted => rw [rejected] at accepted; cases accepted
    | closed _ closed => rw [parameters] at closed; cases closed
    | known _ _ mem same => exact ⟨_, mem, same⟩
    | full _ _ full fresh =>
      have room := holds.room bounded shallow (by omega)
        (reaches.through link rejected parameters) fresh
      omega
    | opens _ _ _ =>
      refine ⟨⟨wrapper.origin, wrapper.url.bind (boundArguments call)⟩, ?_, rfl⟩
      rw [openOf_push, if_pos rfl]
      exact List.mem_append_right _ (List.mem_singleton_self _)
  · rintro state v ⟨known, mem, same⟩
    exact ⟨known, (visitWrapper_visited state v.1.1 v.1.2 v.2).openOf_mono mem, same⟩

/-- The chains of at most the given number of calls are followed, up to the origin of an open
URL. -/
structure Complete (flows : RepositoryFlows) (depth : Nat) (s : Wrapping) : Prop where
  opened : ∀ n function origin url, n ≤ depth → n < maxWrapperHops →
    flows.Reaches n function origin url → flows.Closes (maxWrapperHops - n) function origin url →
    ∃ wrapper ∈ s.openOf function, wrapper.url = url ∧ wrapper.origin.method = origin.method
  instantiated : ∀ n function consumer, n < depth → flows.Instantiates n function consumer →
    ∃ known ∈ s.resolvedOf function, consumerIdentity known = consumerIdentity consumer

theorem complete_start : flows.Complete 0 flows.startWrapping where
  opened := by
    intro n function origin url le _ reaches _
    obtain rfl : n = 0 := by omega
    cases reaches with
    | own mem =>
      rw [startWrapping_openOf]
      exact ⟨⟨origin, url⟩, mem, rfl, rfl⟩
  instantiated := by
    intro n function consumer lt
    omega

theorem accepted_of_method {origin origin' consumer : SourceObservation} {url : UrlTemplate}
    {caller : String} {lines : SourceLineRange} (same : origin'.method = origin.method)
    (accepted : instantiatedConsumer origin url caller lines = some consumer) :
    ∃ other, instantiatedConsumer origin' url caller lines = some other ∧
      consumerIdentity other = consumerIdentity consumer := by
  have identity := instantiatedConsumer_congr same url caller lines
  rw [accepted, Option.map_some] at identity
  exact Option.map_eq_some_iff.1 identity

theorem rejected_of_method {origin origin' : SourceObservation} {url : UrlTemplate}
    {caller : String} {lines : SourceLineRange} (same : origin'.method = origin.method)
    (rejected : instantiatedConsumer origin url caller lines = none) :
    instantiatedConsumer origin' url caller lines = none := by
  have identity := instantiatedConsumer_congr same url caller lines
  rw [rejected, Option.map_none] at identity
  exact Option.map_eq_none_iff.1 identity

theorem Complete.round (bounded : flows.Bounded) (unambiguous : flows.Unambiguous)
    (complete : flows.Complete depth s) (collected : flows.Collected depth s)
    (shallow : depth < maxWrapperHops) : flows.Complete (depth + 1) (flows.round s) where
  opened := by
    intro n function origin url le lt reaches closes
    by_cases old : n ≤ depth
    · obtain ⟨wrapper, mem, same⟩ := complete.opened n function origin url old lt reaches closes
      exact ⟨wrapper, round_openOf_mono mem, same⟩
    · obtain rfl : n = depth + 1 := by omega
      have reached := reaches
      cases reaches with
      | @through _ callee _ _ call url before link rejected parameters =>
        have further : flows.Closes (maxWrapperHops - depth) callee origin url := by
          have hops : maxWrapperHops - depth = maxWrapperHops - (depth + 1) + 1 := by omega
          rw [hops]
          exact .later link rejected parameters closes
        obtain ⟨wrapper, mem, rfl, method⟩ :=
          complete.opened depth callee origin url le_rfl shallow before further
        obtain ⟨known, mem', same⟩ := round_opens bounded collected lt link mem
          (rejected_of_method method rejected) parameters
        obtain ⟨m, le', reaches'⟩ := collected.round.reaches function known mem'
        rw [same] at reaches'
        exact ⟨known, mem', same, unambiguous (depth + 1) m function origin known.origin _
          (by omega) lt (by omega) reached closes reaches'⟩
  instantiated := by
    intro n function consumer lt chain
    by_cases old : n < depth
    · obtain ⟨known, mem, same⟩ := complete.instantiated n function consumer old chain
      exact ⟨known, round_resolvedOf_mono mem, same⟩
    · obtain rfl : n = depth := by omega
      cases chain with
      | @intro callee origin call consumer url reaches link accepted =>
        have closes : flows.Closes (maxWrapperHops - n) callee origin url := by
          have hops : maxWrapperHops - n = maxWrapperHops - (n + 1) + 1 := by omega
          rw [hops]
          exact .here link accepted
        obtain ⟨wrapper, mem, rfl, method⟩ :=
          complete.opened n callee origin url le_rfl shallow reaches closes
        obtain ⟨other, accepted', same⟩ := accepted_of_method method accepted
        obtain ⟨known, mem', same'⟩ := round_resolves link mem accepted'
        exact ⟨known, mem', same'.trans same⟩

end Completeness

section Iteration

variable {flows}

theorem visit_unchanged {s : Wrapping} (v : (Function × SourceObservation) × OpenUrl)
    (unchanged : (visit s v).changed = false) : visit s v = s := by
  have visited := visitWrapper_visited s v.1.1 v.1.2 v.2
  rw [visit] at unchanged ⊢
  generalize visitWrapper v.1.1 v.1.2 s v.2 = next at visited unchanged ⊢
  cases visited with
  | resolves => cases unchanged
  | opens => cases unchanged
  | _ => rfl

theorem foldl_visit_unchanged {l : List ((Function × SourceObservation) × OpenUrl)} :
    ∀ {s : Wrapping}, (l.foldl visit s).changed = false → l.foldl visit s = s := by
  induction l with
  | nil =>
    intro s _
    rfl
  | cons v l ih =>
    intro s unchanged
    rw [List.foldl_cons] at unchanged ⊢
    have rest := ih unchanged
    rw [rest] at unchanged ⊢
    exact visit_unchanged v unchanged

/-- A round without a change ends the loop because further rounds change nothing. -/
theorem round_unchanged {s : Wrapping} (unchanged : (flows.round s).changed = false) :
    flows.round (flows.round s) = flows.round s := by
  have fixed : flows.round s = { s with changed := false } := by
    rw [round_eq] at unchanged ⊢
    exact foldl_visit_unchanged unchanged
  have again : flows.round { s with changed := false } = flows.round s := rfl
  rw [fixed, again, fixed]

theorem rounds_eq_iterate (n : Nat) : ∀ s : Wrapping, flows.rounds n s = flows.round^[n] s := by
  induction n with
  | zero =>
    intro s
    rfl
  | succ n ih =>
    intro s
    rw [rounds, Function.iterate_succ_apply]
    split
    · exact ih _
    · next unchanged =>
      have fixed := round_unchanged (Bool.eq_false_iff.2 unchanged)
      exact (Function.iterate_fixed fixed n).symm

theorem collected_iterate (n : Nat) : flows.Collected n (flows.round^[n] flows.startWrapping) := by
  induction n with
  | zero => exact collected_start
  | succ n ih =>
    rw [Function.iterate_succ_apply']
    exact ih.round

theorem complete_iterate (bounded : flows.Bounded) (unambiguous : flows.Unambiguous) (n : Nat)
    (le : n ≤ maxWrapperHops) : flows.Complete n (flows.round^[n] flows.startWrapping) := by
  induction n with
  | zero => exact complete_start
  | succ n ih =>
    rw [Function.iterate_succ_apply']
    exact (ih (by omega)).round bounded unambiguous (collected_iterate n) (by omega)

end Iteration

section Tests

inductive CallPath (start : Function) : Nat → Function → Prop
  | refl : CallPath start 0 start
  | step {n : Nat} {caller callee : Function} {call : SourceObservation}
    (path : CallPath start n caller) (mem : (callee, call) ∈ flows.callees caller) :
    CallPath start (n + 1) callee

def Distance (start : Function) (n : Nat) (function : Function) : Prop :=
  flows.CallPath start n function ∧ ∀ m < n, ¬ flows.CallPath start m function

variable {flows} {resolved : BTreeMap Function (List SourceObservation)} {test : Function}
  {depth : Nat} {s : Reach}

theorem exists_distance {n : Nat} {function : Function} (path : flows.CallPath test n function) :
    ∃ m ≤ n, flows.Distance test m function := by
  classical
  have some : ∃ m, flows.CallPath test m function := ⟨n, path⟩
  exact ⟨Nat.find some, Nat.find_le path, Nat.find_spec some, fun m lt => Nat.find_min some lt⟩

theorem callPath_zero {function : Function} :
    flows.CallPath test 0 function ↔ function = test := by
  constructor
  · intro path
    cases path
    rfl
  · rintro rfl
    exact .refl

/-- The search after some depths. Every call of a visited function leads to a visited function or
to the frontier. -/
structure Searched (flows : RepositoryFlows) (resolved : BTreeMap Function (List SourceObservation))
    (test : Function) (depth : Nat) (s : Reach) : Prop where
  visited : ∀ function, function ∈ s.visited ↔ ∃ n ≤ depth, flows.CallPath test n function
  next : ∀ function lines, (function, lines) ∈ s.next → flows.CallPath test (depth + 1) function
  closed : ∀ caller ∈ s.visited, ∀ callee call, (callee, call) ∈ flows.callees caller →
    callee ∈ s.visited ∨ ∃ lines, (callee, lines) ∈ s.next
  reached : ∀ identity, identity ∈ s.reached.map consumerIdentity ↔
    ∃ function ∈ s.visited, function ≠ test ∧
      identity ∈ (flows.exactConsumers resolved function).map consumerIdentity

structure Entering (flows : RepositoryFlows) (resolved : BTreeMap Function (List SourceObservation))
    (test : Function) (depth : Nat) (before : Reach) (entered : List (Function × SourceLineRange))
    (s : Reach) : Prop where
  visited : ∀ function, function ∈ s.visited ↔
    function ∈ before.visited ∨ ∃ lines, (function, lines) ∈ entered
  next : ∀ function lines, (function, lines) ∈ s.next → flows.CallPath test (depth + 2) function
  closed : ∀ caller ∈ s.visited, caller ∉ before.visited → ∀ callee call,
    (callee, call) ∈ flows.callees caller → ∃ lines, (callee, lines) ∈ s.next
  reached : ∀ identity, identity ∈ s.reached.map consumerIdentity ↔
    ∃ function ∈ s.visited, function ≠ test ∧
      identity ∈ (flows.exactConsumers resolved function).map consumerIdentity

theorem Entering.enter {before : Reach} {entered : List (Function × SourceLineRange)}
    (self : test ∈ before.visited) (entering : flows.Entering resolved test depth before entered s)
    {entry : Function × SourceLineRange} (path : flows.CallPath test (depth + 1) entry.1) :
    flows.Entering resolved test depth before (entered ++ [entry])
      (Reach.enter flows resolved test s entry) := by
  rw [Reach.enter]
  by_cases known : entry.1 ∈ s.visited
  · rw [if_pos known]
    refine ⟨?_, entering.next, entering.closed, entering.reached⟩
    intro function
    rw [entering.visited]
    constructor
    · rintro (old | ⟨lines, mem⟩)
      · exact .inl old
      · exact .inr ⟨lines, List.mem_append_left _ mem⟩
    · rintro (old | ⟨lines, mem⟩)
      · exact .inl old
      · rcases List.mem_append.1 mem with mem | mem
        · exact .inr ⟨lines, mem⟩
        · rw [List.mem_singleton] at mem
          rw [← mem] at known
          exact (entering.visited function).1 known
  · rw [if_neg known]
    have apart : entry.1 ≠ test := by
      intro same
      rw [same] at known
      exact known ((entering.visited test).2 (.inl self))
    refine ⟨?_, ?_, ?_, ?_⟩
    · intro function
      rw [Std.ExtTreeSet.mem_insert, entering.visited, Std.LawfulEqOrd.compare_eq_iff_eq]
      constructor
      · rintro (rfl | old | ⟨lines, mem⟩)
        · exact .inr ⟨entry.2, List.mem_append_right _ (List.mem_singleton_self _)⟩
        · exact .inl old
        · exact .inr ⟨lines, List.mem_append_left _ mem⟩
      · rintro (old | ⟨lines, mem⟩)
        · exact .inr (.inl old)
        · rcases List.mem_append.1 mem with mem | mem
          · exact .inr (.inr ⟨lines, mem⟩)
          · rw [List.mem_singleton] at mem
            exact .inl (by rw [← mem])
    · intro function lines mem
      rcases List.mem_append.1 mem with mem | mem
      · exact entering.next function lines mem
      · obtain ⟨callee, among, same⟩ := List.mem_map.1 mem
        cases same
        exact path.step among
    · intro caller mem fresh callee call among
      rcases Std.ExtTreeSet.mem_insert.1 mem with same | mem
      · rw [Std.LawfulEqOrd.compare_eq_iff_eq] at same
        subst same
        exact ⟨entry.2, List.mem_append_right _ (List.mem_map.2 ⟨_, among, rfl⟩)⟩
      · obtain ⟨lines, mem⟩ := entering.closed caller mem fresh callee call among
        exact ⟨lines, List.mem_append_left _ mem⟩
    · intro identity
      have identities : ((flows.exactConsumers resolved entry.1).map (attributed test entry.2)).map
          consumerIdentity = (flows.exactConsumers resolved entry.1).map consumerIdentity := by
        rw [List.map_map]
        rfl
      rw [List.map_append, List.mem_append, identities, entering.reached]
      constructor
      · rintro (⟨function, mem, other, among⟩ | among)
        · exact ⟨function, Std.ExtTreeSet.mem_insert.2 (.inr mem), other, among⟩
        · exact ⟨entry.1, Std.ExtTreeSet.mem_insert_self, apart, among⟩
      · rintro ⟨function, mem, other, among⟩
        rcases Std.ExtTreeSet.mem_insert.1 mem with same | mem
        · rw [Std.LawfulEqOrd.compare_eq_iff_eq] at same
          subst same
          exact .inr among
        · exact .inl ⟨function, mem, other, among⟩

theorem Entering.foldl {before : Reach} (self : test ∈ before.visited)
    {entries : List (Function × SourceLineRange)} :
    ∀ {entered : List (Function × SourceLineRange)} {s : Reach},
      flows.Entering resolved test depth before entered s →
      (∀ entry ∈ entries, flows.CallPath test (depth + 1) entry.1) →
      flows.Entering resolved test depth before (entered ++ entries)
        (entries.foldl (Reach.enter flows resolved test) s) := by
  induction entries with
  | nil =>
    intro entered s entering _
    rwa [List.append_nil]
  | cons entry entries ih =>
    intro entered s entering paths
    have next := ih (entering.enter self (paths entry List.mem_cons_self))
      fun other mem => paths other (List.mem_cons_of_mem _ mem)
    rwa [List.append_assoc, List.singleton_append] at next

theorem Searched.level (searched : flows.Searched resolved test depth s) :
    flows.Searched resolved test (depth + 1)
      (s.next.foldl (Reach.enter flows resolved test) { s with next := [] }) := by
  have self : test ∈ s.visited := (searched.visited test).2 ⟨0, by omega, .refl⟩
  have start : flows.Entering resolved test depth s [] { s with next := [] } :=
    { visited := by simp
      next := by simp
      closed := fun caller mem fresh => absurd mem fresh
      reached := searched.reached }
  have entered := start.foldl self fun entry mem => searched.next entry.1 entry.2 mem
  rw [List.nil_append] at entered
  refine ⟨?_, entered.next, ?_, entered.reached⟩
  · intro function
    rw [entered.visited, searched.visited]
    constructor
    · rintro (⟨n, le, path⟩ | ⟨lines, mem⟩)
      · exact ⟨n, by omega, path⟩
      · exact ⟨depth + 1, le_rfl, searched.next function lines mem⟩
    · rintro ⟨n, le, path⟩
      by_cases old : n ≤ depth
      · exact .inl ⟨n, old, path⟩
      · obtain rfl : n = depth + 1 := by omega
        cases path with
        | @step _ caller _ call before mem =>
          have known : caller ∈ s.visited := (searched.visited caller).2 ⟨depth, le_rfl, before⟩
          rw [← searched.visited]
          exact searched.closed caller known function call mem
  · intro caller mem callee call among
    by_cases old : caller ∈ s.visited
    · left
      exact (entered.visited callee).2 (searched.closed caller old callee call among)
    · exact .inr (entered.closed caller mem old callee call among)

theorem Searched.levels (n : Nat) : ∀ {depth : Nat} {s : Reach},
    flows.Searched resolved test depth s →
      flows.Searched resolved test (depth + n) (flows.levels resolved test n s) := by
  induction n with
  | zero => exact fun searched => searched
  | succ n ih =>
    intro depth s searched
    have next := ih searched.level
    rwa [Nat.add_right_comm, Nat.add_assoc] at next

theorem searched_start : flows.Searched resolved test 0 (flows.startReach test) where
  visited := by
    intro function
    simp only [startReach, Std.ExtTreeSet.mem_insert, Std.LawfulEqOrd.compare_eq_iff_eq,
      Std.ExtTreeSet.not_mem_empty, or_false, Nat.le_zero, exists_eq_left, callPath_zero]
    exact eq_comm
  next := by
    intro function lines mem
    obtain ⟨callee, among, same⟩ := List.mem_map.1 mem
    cases same
    exact CallPath.refl.step among
  closed := by
    intro caller mem callee call among
    simp only [startReach, Std.ExtTreeSet.mem_insert, Std.LawfulEqOrd.compare_eq_iff_eq,
      Std.ExtTreeSet.not_mem_empty, or_false] at mem
    subst mem
    exact .inr ⟨call.lines, List.mem_map.2 ⟨_, among, rfl⟩⟩
  reached := by
    intro identity
    simp only [startReach, List.map_nil, List.not_mem_nil, Std.ExtTreeSet.mem_insert,
      Std.LawfulEqOrd.compare_eq_iff_eq, Std.ExtTreeSet.not_mem_empty, or_false, false_iff]
    rintro ⟨function, same, other, _⟩
    exact other same.symm

theorem mem_reachedConsumers (identity : ConsumerIdentity) :
    identity ∈ (flows.reachedConsumers resolved test).map consumerIdentity ↔
      ∃ n function, 1 ≤ n ∧ n ≤ maxTestCallDepth ∧ flows.Distance test n function ∧
        identity ∈ (flows.exactConsumers resolved function).map consumerIdentity := by
  have searched : flows.Searched resolved test (0 + maxTestCallDepth)
      (flows.levels resolved test maxTestCallDepth (flows.startReach test)) :=
    searched_start.levels maxTestCallDepth
  rw [Nat.zero_add] at searched
  rw [reachedConsumers, searched.reached]
  constructor
  · rintro ⟨function, visited, other, mem⟩
    obtain ⟨n, le, path⟩ := (searched.visited function).1 visited
    obtain ⟨m, le', distance⟩ := exists_distance path
    refine ⟨m, function, ?_, by omega, distance, mem⟩
    rcases Nat.eq_zero_or_pos m with rfl | positive
    · exact absurd (callPath_zero.1 distance.1) other
    · exact positive
  · rintro ⟨n, function, positive, le, distance, mem⟩
    refine ⟨function, (searched.visited function).2 ⟨n, le, distance.1⟩, ?_, mem⟩
    rintro rfl
    exact distance.2 0 (by omega) .refl

theorem mem_unseen {l : List SourceObservation} {identity : ConsumerIdentity} :
    ∀ {seen : List ConsumerIdentity}, identity ∈ (unseen seen l).map consumerIdentity ↔
      identity ∈ l.map consumerIdentity ∧ identity ∉ seen := by
  induction l with
  | nil =>
    intro seen
    simp [unseen]
  | cons observation l ih =>
    intro seen
    rw [unseen]
    by_cases known : consumerIdentity observation ∈ seen
    · rw [if_pos known, ih, List.map_cons, List.mem_cons]
      constructor
      · rintro ⟨mem, fresh⟩
        exact ⟨.inr mem, fresh⟩
      · rintro ⟨rfl | mem, fresh⟩
        · exact absurd known fresh
        · exact ⟨mem, fresh⟩
    · rw [if_neg known, List.map_cons, List.map_cons, List.mem_cons, List.mem_cons, ih,
        List.mem_cons]
      constructor
      · rintro (rfl | ⟨mem, fresh⟩)
        · exact ⟨.inl rfl, known⟩
        · exact ⟨.inr mem, fun mem' => fresh (.inr mem')⟩
      · rintro ⟨rfl | mem, fresh⟩
        · exact .inl rfl
        · by_cases same : identity = consumerIdentity observation
          · exact .inl same
          · exact .inr ⟨mem, fun mem' => mem'.elim same fresh⟩

end Tests

theorem mem_compose {file : Nat} {observation : SourceObservation} :
    observation ∈ flows.compose[file]?.getD [] ↔ ∃ function : Function, function.file = file ∧
      (observation ∈ flows.received[function]?.getD [] ∨
        observation ∈ flows.instantiateWrappers[function]?.getD [] ∨
        function ∈ flows.tests ∧ observation ∈ flows.gained function) := by
  have listed : ∀ (m : BTreeMap Function (List SourceObservation)) (function : Function),
      (∃ observations, (function, observations) ∈ m.toList ∧ observation ∈ observations) ↔
        observation ∈ m[function]?.getD [] := by
    intro m function
    simp only [Std.ExtTreeMap.mem_toList_iff_getElem?_eq_some]
    cases m[function]? <;> simp
  rw [compose, foldl_pushTo_getD Prod.fst Prod.snd]
  simp only [Std.ExtTreeMap.getElem?_empty, Option.getD_none, List.nil_append, List.mem_map,
    List.mem_filter, List.mem_flatMap, List.mem_append, decide_eq_true_eq, Prod.exists]
  constructor
  · rintro ⟨_, _, ⟨⟨function, observations, added, _, mem, same⟩, rfl⟩, rfl⟩
    obtain ⟨rfl, rfl⟩ := Prod.mk.inj same
    refine ⟨function, rfl, ?_⟩
    rcases added with (added | added) | ⟨test, tested, is⟩
    · exact .inl ((listed _ _).mp ⟨observations, added, mem⟩)
    · exact .inr (.inl ((listed _ _).mp ⟨observations, added, mem⟩))
    · obtain ⟨rfl, rfl⟩ := Prod.mk.inj is
      exact .inr (.inr ⟨Std.ExtTreeSet.mem_toList.mp tested, mem⟩)
  · rintro ⟨function, rfl, sources⟩
    rcases sources with mem | mem | ⟨tested, mem⟩
    · obtain ⟨observations, added, mem⟩ := (listed _ _).mpr mem
      exact ⟨_, _, ⟨⟨function, observations, .inl (.inl added), observation, mem, rfl⟩, rfl⟩, rfl⟩
    · obtain ⟨observations, added, mem⟩ := (listed _ _).mpr mem
      exact ⟨_, _, ⟨⟨function, observations, .inl (.inr added), observation, mem, rfl⟩, rfl⟩, rfl⟩
    · exact ⟨_, _, ⟨⟨function, flows.gained function,
        .inr ⟨function, Std.ExtTreeSet.mem_toList.mpr tested, rfl⟩, observation, mem, rfl⟩, rfl⟩, rfl⟩

/-- Without two origins of one open template, every bounded chain is followed; every instantiated
consumer comes from a chain; a test gains what the functions at a distance of one to three calls
consume and it does not; and these are what the composition adds, to the files of every workspace. -/
theorem compose_follows_chains (bounded : flows.Bounded) (unambiguous : flows.Unambiguous) :
    (∀ n function consumer, n < maxWrapperHops → flows.Instantiates n function consumer →
      ∃ known ∈ flows.instantiateWrappers[function]?.getD [],
        consumerIdentity known = consumerIdentity consumer) ∧
    (∀ function, ∀ consumer ∈ flows.instantiateWrappers[function]?.getD [],
      ∃ n < maxWrapperHops, flows.Instantiates n function consumer) ∧
    (∀ test identity, identity ∈ (flows.gained test).map consumerIdentity ↔
      (∃ n function, 1 ≤ n ∧ n ≤ maxTestCallDepth ∧ flows.Distance test n function ∧
        identity ∈ (flows.exactConsumers flows.instantiateWrappers function).map consumerIdentity) ∧
      identity ∉ (flows.exactConsumers flows.instantiateWrappers test).map consumerIdentity) ∧
    (∀ (file : Nat) (observation : SourceObservation),
      observation ∈ flows.compose[file]?.getD [] ↔ ∃ function : Function, function.file = file ∧
        (observation ∈ flows.received[function]?.getD [] ∨
          observation ∈ flows.instantiateWrappers[function]?.getD [] ∨
          function ∈ flows.tests ∧ observation ∈ flows.gained function)) ∧
    ∀ (files : List RepositorySourceFile) (index : Nat) (file : RepositorySourceFile),
      files[index]? = some file → ∃ (members : List Nat) (position : Nat),
        (filesByRepository files)[file.repoId]? = some members ∧ members[position]? = some index ∧
        (composeClientFlows files)[index]? = some ((file.observations ++
          if composable files members then
            (RepositoryFlows.new files members).compose[position]?.getD []
          else []).filter isKept) := by
  have wrappers : flows.instantiateWrappers =
      (flows.round^[maxWrapperHops] flows.startWrapping).resolved := by
    rw [instantiateWrappers, rounds_eq_iterate]
  refine ⟨?_, ?_, ?_, fun _ _ => flows.mem_compose,
    fun _ _ _ found => getElem?_composeClientFlows found⟩
  · intro n function consumer lt chain
    rw [wrappers]
    exact (complete_iterate bounded unambiguous maxWrapperHops le_rfl).instantiated n function
      consumer lt chain
  · intro function consumer mem
    rw [wrappers] at mem
    exact (collected_iterate maxWrapperHops).instantiates function consumer mem
  · intro test identity
    rw [gained, mem_unseen, mem_reachedConsumers]

end RepositoryFlows

section Example

def exampleLines : SourceLineRange := ⟨1, 1⟩

def exampleTemplate : UrlTemplate := ⟨[.text "/api", .parameter "path" 0]⟩

def exampleConsumer (method : String) : SourceObservation where
  language := .python
  framework := .requests
  role := .consumer
  method := some method
  symbolName := some "send"
  url := some exampleTemplate
  lines := exampleLines
  status := .ambiguous
  confidence := .ofNat 0

def exampleCall (caller callee : String) (argument : UrlPart) : SourceObservation where
  language := .python
  framework := .requests
  role := .call
  symbolName := some caller
  call := some ⟨.name callee, [⟨none, some ⟨[argument]⟩⟩]⟩
  lines := exampleLines
  status := .confirmed
  confidence := .ofNat 1

def exampleForward : SourceObservation := exampleCall "forward" "send" (.parameter "path" 0)
def exampleRead : SourceObservation := exampleCall "read" "forward" (.text "/orders")

/-- `read` calls `forward`, which passes its parameter on to `send`. -/
def exampleFile (methods : List String) : RepositorySourceFile where
  repoId := "repository"
  path := "api.py"
  observations := methods.map exampleConsumer ++ [exampleForward, exampleRead]

def exampleFlows (methods : List String) : RepositoryFlows := .new [exampleFile methods] [0]

def exampleFunction (name : String) : Function := toLex (0, name)

def exampleResult (method : String) : SourceObservation :=
  httpFromLiteral .python .requests (some method) "/api/orders" (some "read") exampleLines

structure IsExample (methods : List String) (flows : RepositoryFlows) : Prop where
  consumers : flows.consumers.toList = [(exampleFunction "send", methods.map exampleConsumer)]
  sites : flows.sites =
    [(exampleFunction "forward", exampleForward), (exampleFunction "read", exampleRead)]
  forward : flows.callee 0 exampleForward = some (exampleFunction "send")
  read : flows.callee 0 exampleRead = some (exampleFunction "forward")

theorem isExample_one : IsExample ["GET"] (exampleFlows ["GET"]) :=
  ⟨by decide +kernel, by decide +kernel, by decide +kernel, by decide +kernel⟩

theorem isExample_two : IsExample ["GET", "POST"] (exampleFlows ["GET", "POST"]) :=
  ⟨by decide +kernel, by decide +kernel, by decide +kernel, by decide +kernel⟩

namespace IsExample

variable {methods : List String} {flows : RepositoryFlows} (isExample : IsExample methods flows)

include isExample

theorem ownUrls (function : Function) : flows.ownUrls function =
    if function = exampleFunction "send" then
      methods.map fun method => ⟨exampleConsumer method, exampleTemplate⟩
    else [] := by
  have found : ∀ consumers, flows.consumers[function]? = some consumers ↔
      function = exampleFunction "send" ∧ consumers = methods.map exampleConsumer := by
    intro consumers
    rw [← Std.ExtTreeMap.mem_toList_iff_getElem?_eq_some, isExample.consumers, List.mem_singleton,
      Prod.mk.injEq]
  rw [RepositoryFlows.ownUrls, RepositoryFlows.consumersOf]
  by_cases is : function = exampleFunction "send"
  · rw [if_pos is, (found _).2 ⟨is, rfl⟩, Option.getD_some, RepositoryFlows.openUrls,
      List.filterMap_map]
    exact congrFun (List.filterMap_eq_map (f := fun method =>
      (⟨exampleConsumer method, exampleTemplate⟩ : OpenUrl))) methods
  · rw [if_neg is]
    cases consumers : flows.consumers[function]? with
    | none => rfl
    | some list => exact absurd ((found list).1 consumers).1 is

theorem reaches {n : Nat} {function : Function} {origin : SourceObservation} {url : UrlTemplate}
    (reached : flows.Reaches n function origin url) :
    url = exampleTemplate ∧ ∃ method ∈ methods, origin = exampleConsumer method := by
  induction reached with
  | @own function origin url mem =>
    rw [isExample.ownUrls] at mem
    split at mem
    · obtain ⟨method, among, same⟩ := List.mem_map.1 mem
      cases same
      exact ⟨rfl, method, among, rfl⟩
    · cases mem
  | @through _ callee caller origin call url _ link rejected parameters ih =>
    obtain ⟨rfl, among⟩ := ih
    have site := flows.mem_sites.2 link.mem
    rw [isExample.sites, List.mem_cons, List.mem_singleton, Prod.mk.injEq, Prod.mk.injEq] at site
    obtain ⟨_, rfl⟩ | ⟨_, rfl⟩ := site
    · have bound : exampleTemplate.bind (boundArguments exampleForward) = exampleTemplate := by
        decide +kernel
      exact ⟨bound, among⟩
    · have closed : (exampleTemplate.bind (boundArguments exampleRead)).hasParameters = false := by
        decide +kernel
      rw [closed] at parameters
      cases parameters

theorem bounded (few : methods.length < maxOpenUrls) : flows.Bounded := by
  intro function
  refine ⟨[exampleTemplate], ?_, ?_⟩
  · intro n origin url _ reached
    exact .inr (List.mem_singleton.2 (isExample.reaches reached).1)
  · rw [isExample.ownUrls]
    split
    · rw [List.length_map, List.length_singleton]
      omega
    · exact Nat.le_of_ble_eq_true rfl

theorem instantiates {method : String} (mem : method ∈ methods)
    (rejected : instantiatedConsumer (exampleConsumer method)
      (exampleTemplate.bind (boundArguments exampleForward)) "forward" exampleLines = none)
    (accepted : instantiatedConsumer (exampleConsumer method)
      ((exampleTemplate.bind (boundArguments exampleForward)).bind (boundArguments exampleRead))
      "read" exampleLines = some (exampleResult method)) :
    flows.Instantiates 1 (exampleFunction "read") (exampleResult method) := by
  have own : flows.Reaches 0 (exampleFunction "send") (exampleConsumer method) exampleTemplate := by
    refine .own ?_
    rw [isExample.ownUrls, if_pos rfl]
    exact List.mem_map.2 ⟨method, mem, rfl⟩
  have first : flows.Link (exampleFunction "forward") (exampleFunction "send") exampleForward :=
    ⟨flows.mem_sites.1 (by simp [isExample.sites]), isExample.forward, by decide⟩
  have second : flows.Link (exampleFunction "read") (exampleFunction "forward") exampleRead :=
    ⟨flows.mem_sites.1 (by simp [isExample.sites]), isExample.read, by decide⟩
  exact .intro (own.through first rejected (by decide +kernel)) second accepted

end IsExample

theorem compose_follows_chains_example :
    ∃ known ∈ (exampleFlows ["GET"]).instantiateWrappers[exampleFunction "read"]?.getD [],
      consumerIdentity known = consumerIdentity (exampleResult "GET") := by
  have unambiguous : (exampleFlows ["GET"]).Unambiguous := by
    intro _ _ _ origin origin' _ _ _ _ reached _ reached'
    obtain ⟨method, mem, rfl⟩ := (isExample_one.reaches reached).2
    obtain ⟨method', mem', rfl⟩ := (isExample_one.reaches reached').2
    rw [List.mem_singleton.1 mem, List.mem_singleton.1 mem']
  exact ((exampleFlows ["GET"]).compose_follows_chains (isExample_one.bounded (by decide))
    unambiguous).1 1 (exampleFunction "read") (exampleResult "GET") (by decide)
    (isExample_one.instantiates (by decide) (by decide +kernel) (by decide +kernel))

theorem compose_drops_method :
    (exampleFlows ["GET", "POST"]).Bounded ∧
    (exampleFlows ["GET", "POST"]).Instantiates 1 (exampleFunction "read") (exampleResult "POST") ∧
    ∀ known ∈ (exampleFlows ["GET", "POST"]).instantiateWrappers[exampleFunction "read"]?.getD [],
      consumerIdentity known ≠ consumerIdentity (exampleResult "POST") :=
  ⟨isExample_two.bounded (by decide),
    isExample_two.instantiates (by decide) (by decide +kernel) (by decide +kernel),
    by decide +kernel⟩

end Example

end CodeSystemGraph.Sources
