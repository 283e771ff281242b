import Mathlib.Data.List.Induction
import Mathlib.Data.List.Lex
import CodeSystemGraph.Ordered
import CodeSystemGraph.RouteShape

/-! The provider index: one trie of route templates a method. The trie is
understood through the list of routes that were inserted: a child of the trie
built from some routes is the trie built from what remains of those routes
below one segment. `find_nil` and `find_cons` state the search in these terms
and are all that later proofs use of the trie. -/

namespace CodeSystemGraph.Routes
open Ieee Model Ordered Text

inductive BoundaryRole
  | provider | consumer
deriving DecidableEq

inductive CallScope
  | workspace
  | inProcess
  | authority (authority : String)
  | external
deriving DecidableEq

structure HttpBoundary where
  node : Node
  method : String
  path : String
  role : BoundaryRole
  scope : CallScope
  evidence : Evidence
deriving DecidableEq

structure ProviderSet where
  providers : List HttpBoundary

/-- Replaces the first provider of the same node by a more confident one, or appends. -/
def insertProvider (provider : HttpBoundary) : List HttpBoundary → List HttpBoundary
  | [] => [provider]
  | existing :: rest =>
    if existing.node.id = provider.node.id then
      (if existing.evidence.confidence.lt provider.evidence.confidence then provider
        else existing) :: rest
    else existing :: insertProvider provider rest

namespace ProviderSet

def empty : ProviderSet := ⟨[]⟩

def insert (set : ProviderSet) (provider : HttpBoundary) : ProviderSet :=
  ⟨insertProvider provider set.providers⟩

def accepted (set : ProviderSet) (accept : HttpBoundary → Bool) : List HttpBoundary :=
  set.providers.filter accept

def ofList (providers : List HttpBoundary) : ProviderSet := providers.foldl insert empty

end ProviderSet

structure RouteNode where
  statics : List (String × RouteNode)
  mixed : List (List String × RouteNode)
  param : Option RouteNode
  catchAll : ProviderSet
  terminal : ProviderSet

/-- What a template's literals say about one segment of a query. -/
def mixedAgrees (literals : List String) : RouteSegment → Bool
  | .static value => mixedSegmentMatches literals value
  | .mixed queryLiterals => literals = queryLiterals
  | .param => false
  | .catchAll => false

/-- The early returns of the search: an empty result falls through. -/
def orElse (found otherwise : List HttpBoundary) : List HttpBoundary :=
  if found.isEmpty then otherwise else found

namespace RouteNode

def empty : RouteNode := ⟨[], [], none, .empty, .empty⟩

def insert : List RouteSegment → HttpBoundary → RouteNode → RouteNode
  | [], provider, node => { node with terminal := node.terminal.insert provider }
  | .static value :: rest, provider, node =>
    { node with statics := upsert value empty (insert rest provider) node.statics }
  | .param :: rest, provider, node =>
    { node with param := some (insert rest provider (node.param.getD empty)) }
  | .mixed literals :: rest, provider, node =>
    { node with mixed := upsert literals empty (insert rest provider) node.mixed }
  | .catchAll :: _, provider, node => { node with catchAll := node.catchAll.insert provider }

def find (accept : HttpBoundary → Bool) : List RouteSegment → RouteNode → List HttpBoundary
  | [], node => node.terminal.accepted accept
  | first :: rest, node =>
    orElse
      (match first with
        | .static value => ((node.statics.lookup value).map (find accept rest)).getD []
        | _ => [])
      (orElse
        ((node.mixed.filter fun entry => mixedAgrees entry.1 first).flatMap fun entry =>
          find accept rest entry.2)
        (orElse
          (if first ≠ .catchAll then (node.param.map (find accept rest)).getD [] else [])
          (node.catchAll.accepted accept)))

end RouteNode

structure RouteIndex where
  methods : BTreeMap String RouteNode

def RouteIndex.insert (index : RouteIndex) (provider : HttpBoundary) : RouteIndex where
  methods := index.methods.alter provider.method fun node =>
    some ((node.getD .empty).insert (RouteShape.parse provider.path).segments provider)

def isProvider (boundary : HttpBoundary) : Bool := boundary.role = .provider

def RouteIndex.new (boundaries : List HttpBoundary) : RouteIndex :=
  (boundaries.filter isProvider).foldl RouteIndex.insert ⟨∅⟩

section Routes

abbrev Route := List RouteSegment × HttpBoundary

def RouteNode.build (routes : List Route) : RouteNode :=
  routes.foldl (fun node route => node.insert route.1 route.2) .empty

/-- What remains of the routes that begin with the segment. -/
def below (segment : RouteSegment) (routes : List Route) : List Route :=
  routes.filterMap fun route =>
    match route.1 with
    | [] => none
    | first :: rest => if first = segment then some (rest, route.2) else none

def ending (routes : List Route) : List HttpBoundary :=
  (routes.filter fun route => route.1 = []).map Prod.snd

def catching (routes : List Route) : List HttpBoundary :=
  (routes.filter fun route => route.1.head? = some .catchAll).map Prod.snd

theorem build_concat (routes : List Route) (route : Route) :
    RouteNode.build (routes ++ [route]) = (RouteNode.build routes).insert route.1 route.2 := by
  simp [RouteNode.build]

theorem ofList_concat (providers : List HttpBoundary) (provider : HttpBoundary) :
    ProviderSet.ofList (providers ++ [provider]) =
      (ProviderSet.ofList providers).insert provider := by
  simp [ProviderSet.ofList]

theorem below_concat (segment : RouteSegment) (routes : List Route) (route : Route) :
    below segment (routes ++ [route]) = below segment routes ++ below segment [route] := by
  simp [below, List.filterMap_append]

theorem mem_below {segment : RouteSegment} {routes : List Route} {route : Route} :
    route ∈ below segment routes ↔ (segment :: route.1, route.2) ∈ routes := by
  simp only [below, List.mem_filterMap, Prod.exists]
  constructor
  · rintro ⟨segments, provider, mem, kept⟩
    cases segments with
    | nil => simp at kept
    | cons first rest =>
      simp only [Option.ite_none_right_eq_some, Option.some.injEq] at kept
      obtain ⟨rfl, rfl⟩ := kept
      exact mem
  · intro mem
    exact ⟨_, _, mem, by simp⟩

theorem below_perm {routes routes' : List Route} (perm : routes.Perm routes')
    (segment : RouteSegment) : (below segment routes).Perm (below segment routes') :=
  perm.filterMap _

/-- A part of the trie whose children are found by segment, as the routes give it. -/
def childOf (routes : List Route) (segment : RouteSegment) : Option RouteNode :=
  if below segment routes = [] then none else some (.build (below segment routes))

theorem childOf_concat (routes : List Route) (route : Route) (segment : RouteSegment) :
    childOf (routes ++ [route]) segment =
      match below segment [route] with
      | [] => childOf routes segment
      | tail :: _ => some (((childOf routes segment).getD .empty).insert tail.1 tail.2) := by
  have short : below segment [route] = [] ∨ ∃ tail, below segment [route] = [tail] := by
    obtain ⟨segments, provider⟩ := route
    cases segments with
    | nil => exact .inl rfl
    | cons first rest => by_cases same : first = segment <;> simp [below, same]
  unfold childOf
  rcases short with none' | ⟨tail, one⟩
  · simp [below_concat, none']
  · have start : (if below segment routes = [] then none
        else some (RouteNode.build (below segment routes))).getD .empty =
        RouteNode.build (below segment routes) := by
      by_cases nothing : below segment routes = []
      · rw [if_pos nothing, nothing]
        rfl
      · rw [if_neg nothing, Option.getD_some]
    rw [below_concat, one, start, if_neg (by simp), build_concat]

theorem build_parts (routes : List Route) :
    (∀ value, (RouteNode.build routes).statics.lookup value = childOf routes (.static value)) ∧
    (∀ literals, (RouteNode.build routes).mixed.lookup literals = childOf routes (.mixed literals)) ∧
    (RouteNode.build routes).param = childOf routes .param ∧
    (RouteNode.build routes).catchAll = .ofList (catching routes) ∧
    (RouteNode.build routes).terminal = .ofList (ending routes) ∧
    ((RouteNode.build routes).mixed.map Prod.fst).Nodup := by
  induction routes using List.reverseRecOn with
  | nil =>
    refine ⟨fun _ => rfl, fun _ => rfl, rfl, rfl, rfl, List.nodup_nil⟩
  | append_singleton routes route ih =>
    obtain ⟨statics, mixed, param, catchAll, terminal, nodup⟩ := ih
    obtain ⟨segments, provider⟩ := route
    rw [build_concat]
    simp only [childOf_concat]
    -- one insertion touches the part that the first segment names, and no other
    cases segments with
    | nil =>
      refine ⟨statics, mixed, param, ?_, ?_, nodup⟩
      · simp [RouteNode.insert, catching, catchAll, List.filter_append]
      · simp only [RouteNode.insert, terminal, ending, List.filter_append, List.map_append]
        exact (ofList_concat _ _).symm
    | cons first rest =>
      have unended : ending (routes ++ [(first :: rest, provider)]) = ending routes := by
        simp [ending, List.filter_append]
      rw [unended]
      cases first with
      | static value =>
        refine ⟨fun value' => ?_, mixed, param, ?_, terminal, nodup⟩
        · by_cases same : value' = value
          · simp [RouteNode.insert, lookup_upsert, below, same, statics]
          · simp [RouteNode.insert, lookup_upsert, below, same, Ne.symm same, statics]
        · simp [RouteNode.insert, catching, catchAll, List.filter_append]
      | param =>
        refine ⟨statics, mixed, ?_, ?_, terminal, nodup⟩
        · simp [RouteNode.insert, below, param]
        · simp [RouteNode.insert, catching, catchAll, List.filter_append]
      | mixed literals =>
        refine ⟨statics, fun literals' => ?_, param, ?_, terminal, ?_⟩
        · by_cases same : literals' = literals
          · simp [RouteNode.insert, lookup_upsert, below, same, mixed]
          · simp [RouteNode.insert, lookup_upsert, below, same, Ne.symm same, mixed]
        · simp [RouteNode.insert, catching, catchAll, List.filter_append]
        · exact nodup_keys_upsert _ _ _ nodup
      | catchAll =>
        refine ⟨statics, mixed, param, ?_, terminal, nodup⟩
        simp only [RouteNode.insert, catchAll, catching, List.filter_append, List.map_append]
        exact (ofList_concat _ _).symm

/-- The literal segments at the root, in the order in which they are visited. -/
def mixedKeys (routes : List Route) : List (List String) :=
  (RouteNode.build routes).mixed.map Prod.fst

theorem mixedKeys_nodup (routes : List Route) : (mixedKeys routes).Nodup :=
  (build_parts routes).2.2.2.2.2

theorem mem_mixedKeys {routes : List Route} {literals : List String} :
    literals ∈ mixedKeys routes ↔ below (.mixed literals) routes ≠ [] := by
  have found := (build_parts routes).2.1 literals
  unfold childOf at found
  constructor
  · intro mem nothing
    rw [if_pos nothing, List.lookup_eq_none_iff] at found
    obtain ⟨entry, listed, rfl⟩ := List.mem_map.mp mem
    simpa using found entry listed
  · intro something
    rw [if_neg something] at found
    obtain ⟨before, after, split, -⟩ := List.lookup_eq_some_iff.mp found
    rw [mixedKeys, split]
    simp

theorem mixed_eq (routes : List Route) :
    (RouteNode.build routes).mixed =
      (mixedKeys routes).map fun literals => (literals, .build (below (.mixed literals) routes)) := by
  refine entries_eq_map (mixedKeys_nodup routes) _ fun entry mem => ?_
  have something := mem_mixedKeys.mp (List.mem_map_of_mem mem)
  rw [(build_parts routes).2.1, childOf, if_neg something]

variable (accept : HttpBoundary → Bool)

theorem find_empty (query : List RouteSegment) :
    RouteNode.find accept query (.build []) = [] := by
  cases query with
  | nil => rfl
  | cons first rest => cases first <;> rfl

theorem find_childOf (query : List RouteSegment) (routes : List Route) (segment : RouteSegment) :
    ((childOf routes segment).map (RouteNode.find accept query)).getD [] =
      RouteNode.find accept query (.build (below segment routes)) := by
  unfold childOf
  by_cases nothing : below segment routes = []
  · rw [if_pos nothing, nothing, find_empty]
    rfl
  · rw [if_neg nothing]
    rfl

theorem find_nil (routes : List Route) :
    RouteNode.find accept [] (.build routes) =
      (ProviderSet.ofList (ending routes)).accepted accept := by
  rw [RouteNode.find, (build_parts routes).2.2.2.2.1]

/-- The providers below the child that the query's own text names. -/
def findStatic (routes : List Route) (first : RouteSegment) (rest : List RouteSegment) :
    List HttpBoundary :=
  match first with
  | .static value => RouteNode.find accept rest (.build (below (.static value) routes))
  | _ => []

def findMixed (routes : List Route) (first : RouteSegment) (rest : List RouteSegment) :
    List HttpBoundary :=
  ((mixedKeys routes).filter fun literals => mixedAgrees literals first).flatMap fun literals =>
    RouteNode.find accept rest (.build (below (.mixed literals) routes))

def findParam (routes : List Route) (first : RouteSegment) (rest : List RouteSegment) :
    List HttpBoundary :=
  if first ≠ .catchAll then RouteNode.find accept rest (.build (below .param routes)) else []

theorem find_cons (routes : List Route) (first : RouteSegment) (rest : List RouteSegment) :
    RouteNode.find accept (first :: rest) (.build routes) =
      orElse (findStatic accept routes first rest)
        (orElse (findMixed accept routes first rest)
          (orElse (findParam accept routes first rest)
            ((ProviderSet.ofList (catching routes)).accepted accept))) := by
  obtain ⟨statics, -, param, catchAll, -, -⟩ := build_parts routes
  cases first <;>
    · simp only [RouteNode.find, catchAll, param, statics, find_childOf, mixed_eq, List.filter_map,
        List.flatMap_map]
      rfl

end Routes

section Matching

def segmentAgrees (first : RouteSegment) : RouteSegment → Bool
  | .static value => first = .static value
  | .mixed literals => mixedAgrees literals first
  | .param => first ≠ .catchAll
  | .catchAll => true

/-- Direct matching of a template against a query, segment by segment. -/
def templateMatches : List RouteSegment → List RouteSegment → Bool
  | [], [] => true
  | .catchAll :: _, _ :: _ => true
  | segment :: template, first :: query =>
    segmentAgrees first segment && templateMatches template query
  | _, _ => false

theorem templateMatches_cons {segment first : RouteSegment} {template query : List RouteSegment}
    (single : segment ≠ .catchAll) :
    templateMatches (segment :: template) (first :: query) =
      (segmentAgrees first segment && templateMatches template query) := by
  cases segment <;> simp_all [templateMatches]

theorem mem_orElse {provider : HttpBoundary} {found otherwise : List HttpBoundary}
    (mem : provider ∈ orElse found otherwise) : provider ∈ found ∨ provider ∈ otherwise := by
  unfold orElse at mem
  split at mem
  · exact .inr mem
  · exact .inl mem

theorem mem_insertProvider {provider other : HttpBoundary} {providers : List HttpBoundary}
    (mem : other ∈ insertProvider provider providers) : other = provider ∨ other ∈ providers := by
  fun_induction insertProvider provider providers with
  | case1 => simpa using mem
  | case2 existing rest same =>
    rcases List.mem_cons.mp mem with rfl | mem
    · split
      · exact .inl rfl
      · exact .inr List.mem_cons_self
    · exact .inr (List.mem_cons_of_mem _ mem)
  | case3 existing rest differ ih =>
    rcases List.mem_cons.mp mem with rfl | mem
    · exact .inr List.mem_cons_self
    · exact (ih mem).imp_right (List.mem_cons_of_mem _)

theorem mem_ofList {provider : HttpBoundary} {providers : List HttpBoundary}
    (mem : provider ∈ (ProviderSet.ofList providers).providers) : provider ∈ providers := by
  induction providers using List.reverseRecOn with
  | nil => simp [ProviderSet.ofList, ProviderSet.empty] at mem
  | append_singleton providers last ih =>
    rw [ofList_concat] at mem
    rcases mem_insertProvider mem with rfl | mem
    · simp
    · exact List.mem_append_left _ (ih mem)

theorem insertProvider_ids {provider : HttpBoundary} {providers : List HttpBoundary} :
    ((insertProvider provider providers).map (·.node.id)) =
      if provider.node.id ∈ providers.map (·.node.id) then providers.map (·.node.id)
      else providers.map (·.node.id) ++ [provider.node.id] := by
  fun_induction insertProvider provider providers with
  | case1 => simp
  | case2 existing rest same =>
    have kept : (if existing.evidence.confidence.lt provider.evidence.confidence then provider
        else existing).node.id = provider.node.id := by
      split
      · rfl
      · exact same
    simp [same, kept]
  | case3 existing rest differ ih =>
    rw [List.map_cons, ih]
    by_cases mem : provider.node.id ∈ rest.map (·.node.id)
    · simp [mem]
    · simp [mem, Ne.symm differ]

theorem mem_ids_ofList {providers : List HttpBoundary} {nodeId : NodeId} :
    nodeId ∈ (ProviderSet.ofList providers).providers.map (·.node.id) ↔
      nodeId ∈ providers.map (·.node.id) := by
  induction providers using List.reverseRecOn with
  | nil => rfl
  | append_singleton providers last ih =>
    rw [ofList_concat, ProviderSet.insert, insertProvider_ids, List.map_append, List.mem_append,
      ← ih]
    split
    · next seen =>
      simp only [List.map_cons, List.map_nil, List.mem_singleton, iff_self_or]
      rintro rfl
      exact seen
    · simp

theorem find_sound (accept : HttpBoundary → Bool) {provider : HttpBoundary}
    (query : List RouteSegment) : ∀ {routes : List Route},
      provider ∈ RouteNode.find accept query (.build routes) →
        accept provider = true ∧
          ∃ template, (template, provider) ∈ routes ∧ templateMatches template query = true := by
  induction query with
  | nil =>
    intro routes mem
    rw [find_nil] at mem
    obtain ⟨mem, accepted⟩ := List.mem_filter.mp mem
    obtain ⟨⟨template, provider⟩, listed, rfl⟩ := List.mem_map.mp (mem_ofList mem)
    obtain ⟨stored, ended⟩ := List.mem_filter.mp listed
    obtain rfl : template = [] := by simpa using ended
    exact ⟨accepted, [], stored, rfl⟩
  | cons first rest ih =>
    intro routes mem
    -- whatever is found below a segment was inserted with that segment in front
    have deeper : ∀ segment : RouteSegment, segment ≠ .catchAll →
        segmentAgrees first segment = true →
        provider ∈ RouteNode.find accept rest (.build (below segment routes)) →
        accept provider = true ∧ ∃ template, (template, provider) ∈ routes ∧
          templateMatches template (first :: rest) = true := by
      intro segment single agrees mem
      obtain ⟨accepted, template, stored, found⟩ := ih mem
      exact ⟨accepted, segment :: template, mem_below.mp stored, by
        rw [templateMatches_cons single, agrees, found]
        rfl⟩
    rw [find_cons] at mem
    rcases mem_orElse mem with mem | mem
    · unfold findStatic at mem
      split at mem
      · exact deeper (.static _) (by simp) (by simp [segmentAgrees]) mem
      · simp at mem
    rcases mem_orElse mem with mem | mem
    · obtain ⟨literals, listed, mem⟩ := List.mem_flatMap.mp mem
      exact deeper (.mixed literals) (by simp) (List.mem_filter.mp listed).2 mem
    rcases mem_orElse mem with mem | mem
    · unfold findParam at mem
      split at mem
      · next single => exact deeper .param (by simp) (by simpa [segmentAgrees] using single) mem
      · simp at mem
    · obtain ⟨mem, accepted⟩ := List.mem_filter.mp mem
      obtain ⟨⟨template, provider⟩, listed, rfl⟩ := List.mem_map.mp (mem_ofList mem)
      obtain ⟨stored, caught⟩ := List.mem_filter.mp listed
      refine ⟨accepted, template, stored, ?_⟩
      cases template with
      | nil => simp at caught
      | cons segment template =>
        obtain rfl : segment = .catchAll := by simpa using caught
        rfl

end Matching

section Index

def routesOf (method : String) (boundaries : List HttpBoundary) : List Route :=
  ((boundaries.filter isProvider).filter fun provider => provider.method = method).map
    fun provider => ((RouteShape.parse provider.path).segments, provider)

/-- The search of `resolve`, which has no root for an unknown method. -/
def RouteIndex.find (index : RouteIndex) (method : String) (accept : HttpBoundary → Bool)
    (query : List RouteSegment) : List HttpBoundary :=
  ((index.methods[method]?).map (RouteNode.find accept query)).getD []

theorem foldl_insert_methods (providers : List HttpBoundary) (method : String) :
    (providers.foldl RouteIndex.insert ⟨∅⟩).methods[method]? =
      let routes := (providers.filter fun provider => provider.method = method).map
        fun provider => ((RouteShape.parse provider.path).segments, provider)
      if routes = [] then none else some (RouteNode.build routes) := by
  induction providers using List.reverseRecOn with
  | nil => simp
  | append_singleton providers provider ih =>
    rw [List.foldl_append, List.foldl_cons, List.foldl_nil]
    simp only [RouteIndex.insert, Std.ExtTreeMap.getElem?_alter,
      Std.LawfulEqOrd.compare_eq_iff_eq]
    by_cases same : provider.method = method
    · rw [if_pos same, same, ih]
      simp only [List.filter_append, List.map_append, same, decide_true, List.filter_cons_of_pos,
        List.filter_nil, List.map_cons, List.map_nil, List.append_eq_nil_iff, List.cons_ne_nil,
        and_false, ↓reduceIte, build_concat]
      split
      · next none' => rw [none']; rfl
      · rfl
    · rw [if_neg same, ih]
      simp [List.filter_append, same]

theorem RouteIndex.find_new (boundaries : List HttpBoundary) (method : String)
    (accept : HttpBoundary → Bool) (query : List RouteSegment) :
    (RouteIndex.new boundaries).find method accept query =
      RouteNode.find accept query (.build (routesOf method boundaries)) := by
  rw [RouteIndex.find, RouteIndex.new, foldl_insert_methods]
  simp only [routesOf]
  split
  · next nothing =>
    rw [nothing, find_empty]
    rfl
  · rfl

structure MatchingProvider (boundaries : List HttpBoundary) (method path : String)
    (accepts : Option RepoId → Bool) (provider : HttpBoundary) : Prop where
  stored : provider ∈ boundaries
  role : provider.role = .provider
  method : provider.method = method
  accepted : accepts provider.node.repoId = true
  shape : templateMatches (RouteShape.parse provider.path).segments
    (RouteShape.parse path).segments = true

theorem mem_routesOf {boundaries : List HttpBoundary} {method : String} {route : Route} :
    route ∈ routesOf method boundaries ↔
      (route.2 ∈ boundaries ∧ route.2.role = .provider ∧ route.2.method = method) ∧
        route.1 = (RouteShape.parse route.2.path).segments := by
  obtain ⟨template, provider⟩ := route
  simp only [routesOf, List.mem_map, List.mem_filter, isProvider, decide_eq_true_eq, Prod.mk.injEq]
  constructor
  · rintro ⟨p, ⟨⟨mem, role⟩, same⟩, rfl, rfl⟩
    exact ⟨⟨mem, role, same⟩, rfl⟩
  · rintro ⟨⟨mem, role, same⟩, rfl⟩
    exact ⟨provider, ⟨⟨mem, role⟩, same⟩, rfl, rfl⟩

def exampleEvidence (confidence : F32) : Evidence :=
  ⟨"e", none, none, none, none, "http", "1", .declared, confidence, none, none, none⟩

def exampleBoundary (role : BoundaryRole) (scope : CallScope) (nodeId : NodeId) (repoId : RepoId)
    (path : String) : HttpBoundary :=
  ⟨⟨nodeId, .httpOperation, some repoId, nodeId, path⟩, "GET", path, role, scope,
    exampleEvidence (.ofNat 1)⟩

def exampleProvider : NodeId → RepoId → String → HttpBoundary :=
  exampleBoundary .provider .workspace

end Index

end CodeSystemGraph.Routes
