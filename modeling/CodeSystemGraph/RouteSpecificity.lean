import CodeSystemGraph.RouteTrie

/-! Which of the matching templates the search returns. Kinds of segments are preferred among
the templates that share what stands before them; templates with different literals in one
segment are searched side by side, so a later segment of one is not compared with the other's. -/

namespace CodeSystemGraph.Routes
open Model

def RouteSegment.rank : RouteSegment → Nat
  | .static _ => 0
  | .mixed _ => 1
  | .param => 2
  | .catchAll => 3

/-- Static before mixed before a whole-segment parameter before a catch-all, from the left. -/
def specificity (template : List RouteSegment) : List Nat := template.map RouteSegment.rank

/-- The rival has the template's own segments up to one at which it is more specific. -/
def overtakes : List RouteSegment → List RouteSegment → Bool
  | rival :: rivals, segment :: template =>
    rival.rank < segment.rank || (rival == segment && overtakes rivals template)
  | _, _ => false

def Ended : List RouteSegment → Prop
  | [] => True
  | segment :: template => (segment = .catchAll → template = []) ∧ Ended template

theorem ended_classifyAll (parts : List (List Char)) : Ended (classifyAll parts) := by
  induction parts with
  | nil => trivial
  | cons part parts ih =>
    rw [classifyAll]
    split
    · exact ⟨fun _ => rfl, trivial⟩
    · next single => exact ⟨fun caught => absurd caught single, ih⟩

section Kept

variable {routes : List Route} {template : List RouteSegment} {segment : RouteSegment}

def keptUnder (routes : List Route) (template : List RouteSegment) : List HttpBoundary :=
  (ProviderSet.ofList ((routes.filter fun route => route.1 = template).map Prod.snd)).providers

theorem keptUnder_below : keptUnder (below segment routes) template =
    keptUnder routes (segment :: template) := by
  have same : ((below segment routes).filter fun route => route.1 = template).map Prod.snd =
      (routes.filter fun route => route.1 = segment :: template).map Prod.snd := by
    induction routes with
    | nil => rfl
    | cons route routes ih =>
      obtain ⟨path, provider⟩ := route
      rw [below, List.filterMap_cons] at *
      cases path with
      | nil => simpa using ih
      | cons first rest =>
        by_cases here : first = segment
        · by_cases there : rest = template
          · simpa [here, there] using ih
          · simpa [here, there] using ih
        · simpa [here] using ih
  rw [keptUnder, same, keptUnder]

theorem ended_below (ended : ∀ route ∈ routes, Ended route.1) :
    ∀ route ∈ below segment routes, Ended route.1 := by
  intro route mem
  exact (ended _ (mem_below.mp mem)).2

theorem keptUnder_catchAll (ended : ∀ route ∈ routes, Ended route.1) :
    keptUnder routes [.catchAll] = (ProviderSet.ofList (catching routes)).providers := by
  have same : (routes.filter fun route => route.1 = [.catchAll]) =
      routes.filter fun route => route.1.head? = some .catchAll := by
    refine List.filter_congr fun route mem => ?_
    have ended := ended route mem
    cases path : route.1 with
    | nil => rfl
    | cons first rest =>
      rw [path] at ended
      by_cases caught : first = .catchAll
      · simp [caught, ended.1 caught]
      · simp [caught]
  rw [keptUnder, same, catching]

theorem mem_routes_of_keptUnder {provider : HttpBoundary} (kept : provider ∈ keptUnder routes template) :
    (template, provider) ∈ routes := by
  obtain ⟨route, mem, rfl⟩ := List.mem_map.mp (mem_ofList kept)
  obtain ⟨stored, same⟩ := List.mem_filter.mp mem
  obtain rfl : route.1 = template := by simpa using same
  exact stored

end Kept

section Search

variable (accept : HttpBoundary → Bool)

/-- A provider that the index keeps under a matching template, and that is accepted. -/
structure Live (query : List RouteSegment) (routes : List Route) (template : List RouteSegment)
    (provider : HttpBoundary) : Prop where
  matching : templateMatches template query = true
  kept : provider ∈ keptUnder routes template
  accepted : accept provider = true

variable {accept} {first segment : RouteSegment} {rest template : List RouteSegment}
variable {routes : List Route} {provider : HttpBoundary}

theorem live_cons (single : segment ≠ .catchAll) :
    Live accept (first :: rest) routes (segment :: template) provider ↔
      segmentAgrees first segment = true ∧ Live accept rest (below segment routes) template provider := by
  constructor
  · rintro ⟨matching, kept, accepted⟩
    rw [templateMatches_cons single, Bool.and_eq_true] at matching
    exact ⟨matching.1, matching.2, keptUnder_below ▸ kept, accepted⟩
  · rintro ⟨agrees, matching, kept, accepted⟩
    exact ⟨by rw [templateMatches_cons single, agrees, matching, Bool.and_self],
      keptUnder_below ▸ kept, accepted⟩

theorem live_catchAll (ended : ∀ route ∈ routes, Ended route.1) :
    Live accept (first :: rest) routes (.catchAll :: template) provider ↔
      template = [] ∧ provider ∈ (ProviderSet.ofList (catching routes)).accepted accept := by
  rw [ProviderSet.accepted, List.mem_filter]
  constructor
  · rintro ⟨-, kept, accepted⟩
    obtain rfl : template = [] := (ended _ (mem_routes_of_keptUnder kept)).1 rfl
    rw [keptUnder_catchAll ended] at kept
    exact ⟨rfl, kept, accepted⟩
  · rintro ⟨rfl, kept, accepted⟩
    exact ⟨rfl, by rwa [keptUnder_catchAll ended], accepted⟩

theorem live_nil : Live accept [] routes template provider ↔
    template = [] ∧ provider ∈ (ProviderSet.ofList (ending routes)).accepted accept := by
  rw [ProviderSet.accepted, List.mem_filter]
  constructor
  · rintro ⟨matching, kept, accepted⟩
    cases template with
    | nil => exact ⟨rfl, kept, accepted⟩
    | cons segment template => cases segment <;> simp [templateMatches] at matching
  · rintro ⟨rfl, kept, accepted⟩
    exact ⟨rfl, kept, accepted⟩

theorem mem_orElse_iff {found otherwise : List HttpBoundary} :
    provider ∈ orElse found otherwise ↔ provider ∈ found ∨ (found = [] ∧ provider ∈ otherwise) := by
  unfold orElse
  cases found with
  | nil => simp
  | cons first rest => simp

variable (accept) in
def InBranch (rank : Nat) (first : RouteSegment) (rest : List RouteSegment) (routes : List Route)
    (provider : HttpBoundary) : Prop :=
  ∃ segment : RouteSegment, segment.rank = rank ∧ segment ≠ .catchAll ∧
    segmentAgrees first segment = true ∧
    provider ∈ RouteNode.find accept rest (.build (below segment routes))

theorem mem_findStatic :
    provider ∈ findStatic accept routes first rest ↔ InBranch accept 0 first rest routes provider := by
  unfold findStatic InBranch
  constructor
  · intro mem
    cases first with
    | static value => exact ⟨.static value, rfl, by simp, by simp [segmentAgrees], mem⟩
    | mixed | param | catchAll => cases mem
  · rintro ⟨segment, rank, -, agrees, mem⟩
    cases segment with
    | static value =>
      obtain rfl : first = .static value := by simpa [segmentAgrees] using agrees
      exact mem
    | mixed | param | catchAll => cases rank

theorem mem_findMixed :
    provider ∈ findMixed accept routes first rest ↔ InBranch accept 1 first rest routes provider := by
  unfold findMixed InBranch
  rw [List.mem_flatMap]
  constructor
  · rintro ⟨literals, listed, mem⟩
    exact ⟨.mixed literals, rfl, by simp, (List.mem_filter.mp listed).2, mem⟩
  · rintro ⟨segment, rank, -, agrees, mem⟩
    cases segment with
    | mixed literals =>
      refine ⟨literals, List.mem_filter.mpr ⟨mem_mixedKeys.mpr fun nothing => ?_, agrees⟩, mem⟩
      rw [nothing, find_empty] at mem
      cases mem
    | static | param | catchAll => cases rank

theorem mem_findParam :
    provider ∈ findParam accept routes first rest ↔ InBranch accept 2 first rest routes provider := by
  unfold findParam InBranch
  constructor
  · intro mem
    split at mem
    · next single => exact ⟨.param, rfl, by simp, by simpa [segmentAgrees] using single, mem⟩
    · cases mem
  · rintro ⟨segment, rank, -, agrees, mem⟩
    cases segment with
    | param =>
      rw [if_pos (by simpa [segmentAgrees] using agrees)]
      exact mem
    | static | mixed | catchAll => cases rank

theorem mem_find_cons :
    provider ∈ RouteNode.find accept (first :: rest) (.build routes) ↔
      (∃ rank, InBranch accept rank first rest routes provider ∧
        ∀ lower < rank, ∀ other, ¬InBranch accept lower first rest routes other) ∨
      (provider ∈ (ProviderSet.ofList (catching routes)).accepted accept ∧
        ∀ rank other, ¬InBranch accept rank first rest routes other) := by
  have kinds : ∀ rank other, InBranch accept rank first rest routes other → rank < 3 := by
    rintro rank other ⟨segment, rfl, single, -, -⟩
    cases segment <;> simp_all [RouteSegment.rank]
  rw [find_cons]
  simp only [mem_orElse_iff, List.eq_nil_iff_forall_not_mem, mem_findStatic, mem_findMixed,
    mem_findParam]
  constructor
  · rintro (static | ⟨noStatic, mixed | ⟨noMixed, param | ⟨noParam, caught⟩⟩⟩)
    · exact .inl ⟨0, static, fun lower less => absurd less (Nat.not_lt_zero _)⟩
    · refine .inl ⟨1, mixed, fun lower less => ?_⟩
      obtain rfl : lower = 0 := by omega
      exact noStatic
    · refine .inl ⟨2, param, fun lower less => ?_⟩
      obtain rfl | rfl : lower = 0 ∨ lower = 1 := by omega
      · exact noStatic
      · exact noMixed
    · refine .inr ⟨caught, fun rank other found => ?_⟩
      have small := kinds rank other found
      obtain rfl | rfl | rfl : rank = 0 ∨ rank = 1 ∨ rank = 2 := by omega
      · exact noStatic other found
      · exact noMixed other found
      · exact noParam other found
  · rintro (⟨rank, found, lower⟩ | ⟨caught, none⟩)
    · have small := kinds rank provider found
      obtain rfl | rfl | rfl : rank = 0 ∨ rank = 1 ∨ rank = 2 := by omega
      · exact .inl found
      · exact .inr ⟨lower 0 (by decide), .inl found⟩
      · exact .inr ⟨lower 0 (by decide), .inr ⟨lower 1 (by decide), .inl found⟩⟩
    · exact .inr ⟨none 0, .inr ⟨none 1, .inr ⟨none 2, caught⟩⟩⟩

theorem find_isSome_iff (query : List RouteSegment) : ∀ {routes : List Route},
    (∀ route ∈ routes, Ended route.1) →
      ((∃ provider, provider ∈ RouteNode.find accept query (.build routes)) ↔
        ∃ template provider, Live accept query routes template provider) := by
  induction query with
  | nil =>
    intro routes _
    simp only [find_nil, live_nil]
    exact ⟨fun found => ⟨[], found.choose, rfl, found.choose_spec⟩, fun live => by
      obtain ⟨template, provider, -, found⟩ := live
      exact ⟨provider, found⟩⟩
  | cons first rest ih =>
    intro routes ended
    simp only [mem_find_cons]
    constructor
    · rintro ⟨provider, ⟨rank, ⟨segment, -, single, agrees, found⟩, -⟩ | ⟨caught, -⟩⟩
      · obtain ⟨template, other, live⟩ := (ih (ended_below ended)).1 ⟨provider, found⟩
        exact ⟨segment :: template, other, (live_cons single).2 ⟨agrees, live⟩⟩
      · exact ⟨[.catchAll], provider, (live_catchAll ended).2 ⟨rfl, caught⟩⟩
    · rintro ⟨template, provider, live⟩
      by_cases some : ∃ rank other, InBranch accept rank first rest routes other
      · classical
        obtain ⟨other, found⟩ := Nat.find_spec some
        exact ⟨other, .inl ⟨Nat.find some, found, fun lower less other found =>
          Nat.find_min some less ⟨other, found⟩⟩⟩
      · cases template with
        | nil => cases live.matching
        | cons segment template =>
          by_cases single : segment = .catchAll
          · subst single
            exact ⟨provider, .inr ⟨((live_catchAll ended).1 live).2,
              fun rank other found => some ⟨rank, other, found⟩⟩⟩
          · obtain ⟨agrees, live⟩ := (live_cons single).1 live
            obtain ⟨other, found⟩ := (ih (ended_below ended)).2 ⟨template, provider, live⟩
            exact absurd ⟨segment.rank, other, segment, rfl, single, agrees, found⟩ some

theorem mem_find_iff (query : List RouteSegment) : ∀ {routes : List Route} {provider : HttpBoundary},
    (∀ route ∈ routes, Ended route.1) →
      (provider ∈ RouteNode.find accept query (.build routes) ↔
        ∃ template, Live accept query routes template provider ∧
          ∀ rival other, Live accept query routes rival other → overtakes rival template = false) := by
  induction query with
  | nil =>
    intro routes provider _
    rw [find_nil]
    constructor
    · intro found
      refine ⟨[], live_nil.2 ⟨rfl, found⟩, fun rival other live => ?_⟩
      rw [(live_nil.1 live).1]
      rfl
    · rintro ⟨template, live, -⟩
      exact (live_nil.1 live).2
  | cons first rest ih =>
    intro routes provider ended
    have branch : ∀ rank, (∃ other, InBranch accept rank first rest routes other) ↔
        ∃ segment template other, segment.rank = rank ∧ segment ≠ .catchAll ∧
          Live accept (first :: rest) routes (segment :: template) other := by
      intro rank
      constructor
      · rintro ⟨other, segment, kind, single, agrees, found⟩
        obtain ⟨template, other, live⟩ := (find_isSome_iff rest (ended_below ended)).1 ⟨other, found⟩
        exact ⟨segment, template, other, kind, single, (live_cons single).2 ⟨agrees, live⟩⟩
      · rintro ⟨segment, template, other, kind, single, live⟩
        obtain ⟨agrees, live⟩ := (live_cons single).1 live
        obtain ⟨other, found⟩ :=
          (find_isSome_iff rest (ended_below ended)).2 ⟨template, other, live⟩
        exact ⟨other, segment, kind, single, agrees, found⟩
    rw [mem_find_cons]
    constructor
    · rintro (⟨rank, ⟨segment, kind, single, agrees, found⟩, lower⟩ | ⟨caught, none⟩)
      · obtain ⟨template, live, best⟩ := (ih (ended_below ended)).1 found
        refine ⟨segment :: template, (live_cons single).2 ⟨agrees, live⟩, ?_⟩
        intro rival other rivals
        cases rival with
        | nil => cases rivals.matching
        | cons rival rest' =>
          rw [overtakes, Bool.or_eq_false_iff, Bool.and_eq_false_imp]
          constructor
          · -- a rival of a lower kind would have been found before
            rw [decide_eq_false_iff_not]
            intro less
            have other' : rival ≠ .catchAll := by
              rintro rfl
              cases segment <;> simp [RouteSegment.rank] at less
            obtain ⟨found', here⟩ := (branch rival.rank).2 ⟨rival, rest', other, rfl, other', rivals⟩
            exact lower rival.rank (kind ▸ less) found' here
          · intro same
            obtain rfl : rival = segment := by simpa using same
            exact best rest' other ((live_cons single).1 rivals).2
      · refine ⟨[.catchAll], (live_catchAll ended).2 ⟨rfl, caught⟩, ?_⟩
        intro rival other rivals
        cases rival with
        | nil => cases rivals.matching
        | cons rival rest' =>
          by_cases single : rival = .catchAll
          · subst single
            obtain ⟨rfl, -⟩ := (live_catchAll ended).1 rivals
            rfl
          · obtain ⟨found', here⟩ := (branch rival.rank).2 ⟨rival, rest', other, rfl, single, rivals⟩
            exact absurd here (none rival.rank found')
    · rintro ⟨template, live, best⟩
      cases template with
      | nil => cases live.matching
      | cons segment template =>
        have lower : ∀ rank < segment.rank, ∀ other, ¬InBranch accept rank first rest routes other := by
          intro rank less other here
          obtain ⟨rival, rest', other, kind, -, rivals⟩ := (branch rank).1 ⟨other, here⟩
          have kept := best (rival :: rest') other rivals
          rw [overtakes, kind, decide_eq_true less, Bool.true_or] at kept
          cases kept
        by_cases single : segment = .catchAll
        · subst single
          refine .inr ⟨((live_catchAll ended).1 live).2, fun rank other here => ?_⟩
          obtain ⟨rival, -, -, kind, other', -⟩ := (branch rank).1 ⟨other, here⟩
          refine lower rank ?_ other here
          cases rival <;> simp_all [RouteSegment.rank] <;> omega
        · obtain ⟨agrees, live⟩ := (live_cons single).1 live
          refine .inl ⟨segment.rank, ⟨segment, rfl, single, agrees, ?_⟩, lower⟩
          refine (ih (ended_below ended)).2 ⟨template, live, fun rival other rivals => ?_⟩
          have kept := best (segment :: rival) other ((live_cons single).2 ⟨agrees, rivals⟩)
          rw [overtakes, Bool.or_eq_false_iff] at kept
          simpa using kept.2

end Search

section Index

variable (boundaries : List HttpBoundary) (method path : String) (accepts : Option RepoId → Bool)

def templateOf (provider : HttpBoundary) : List RouteSegment := (RouteShape.parse provider.path).segments

/-- A matching provider that the index keeps: of the providers of one method, template and node
it keeps one. -/
structure KeptProvider (provider : HttpBoundary) : Prop where
  direct : MatchingProvider boundaries method path accepts provider
  kept : provider ∈ keptUnder (routesOf method boundaries) (templateOf provider)

def MostSpecific : Prop :=
  ∀ provider ∈ (RouteIndex.new boundaries).find method (fun p => accepts p.node.repoId)
      (RouteShape.parse path).segments,
    (∀ other, MatchingProvider boundaries method path accepts other →
      ¬specificity (templateOf other) < specificity (templateOf provider)) ∧
    ∀ other ∈ (RouteIndex.new boundaries).find method (fun p => accepts p.node.repoId)
        (RouteShape.parse path).segments,
      specificity (templateOf other) = specificity (templateOf provider)

variable {boundaries method path accepts}

theorem ended_routesOf : ∀ route ∈ routesOf method boundaries, Ended route.1 := by
  intro route mem
  rw [(mem_routesOf.mp mem).2]
  exact ended_classifyAll _

theorem live_routesOf {template : List RouteSegment} {provider : HttpBoundary} :
    Live (fun p => accepts p.node.repoId) (RouteShape.parse path).segments
        (routesOf method boundaries) template provider ↔
      template = templateOf provider ∧ KeptProvider boundaries method path accepts provider := by
  constructor
  · rintro ⟨matching, kept, accepted⟩
    obtain ⟨⟨stored, role, same⟩, shape⟩ := mem_routesOf.mp (mem_routes_of_keptUnder kept)
    have shape : template = templateOf provider := shape
    subst shape
    exact ⟨rfl, ⟨stored, role, same, accepted, matching⟩, kept⟩
  · rintro ⟨rfl, direct, kept⟩
    exact ⟨direct.shape, kept, direct.accepted⟩

theorem mem_find_new_iff {provider : HttpBoundary} :
    provider ∈ (RouteIndex.new boundaries).find method (fun p => accepts p.node.repoId)
        (RouteShape.parse path).segments ↔
      KeptProvider boundaries method path accepts provider ∧
        ∀ rival, KeptProvider boundaries method path accepts rival →
          overtakes (templateOf rival) (templateOf provider) = false := by
  rw [RouteIndex.find_new, mem_find_iff _ ended_routesOf]
  simp only [live_routesOf]
  constructor
  · rintro ⟨_, ⟨rfl, kept⟩, best⟩
    exact ⟨kept, fun rival kept' => best _ rival ⟨rfl, kept'⟩⟩
  · rintro ⟨kept, best⟩
    refine ⟨_, ⟨rfl, kept⟩, ?_⟩
    rintro _ other ⟨rfl, kept'⟩
    exact best other kept'

theorem find_new_ne_nil_iff :
    (RouteIndex.new boundaries).find method (fun p => accepts p.node.repoId)
        (RouteShape.parse path).segments ≠ [] ↔
      ∃ provider, KeptProvider boundaries method path accepts provider := by
  constructor
  · intro some
    obtain ⟨provider, found⟩ := List.exists_mem_of_ne_nil _ some
    exact ⟨provider, (mem_find_new_iff.1 found).1⟩
  · rintro ⟨provider, kept⟩
    rw [RouteIndex.find_new]
    obtain ⟨other, found⟩ := (find_isSome_iff _ ended_routesOf).2 ⟨_, provider, live_routesOf.2 ⟨rfl, kept⟩⟩
    exact List.ne_nil_of_mem found

/-- Providers of one method, template and node belong to one repository. -/
def NodesOwned (boundaries : List HttpBoundary) : Prop :=
  ∀ one ∈ boundaries, ∀ other ∈ boundaries, one.role = .provider → other.role = .provider →
    one.method = other.method → templateOf one = templateOf other → one.node.id = other.node.id →
    one.node.repoId = other.node.repoId

theorem keptProvider_of_matching (owned : NodesOwned boundaries) {provider : HttpBoundary}
    (direct : MatchingProvider boundaries method path accepts provider) :
    ∃ kept, KeptProvider boundaries method path accepts kept := by
  have stored : (templateOf provider, provider) ∈ routesOf method boundaries :=
    mem_routesOf.mpr ⟨⟨direct.stored, direct.role, direct.method⟩, rfl⟩
  have listed : provider ∈ ((routesOf method boundaries).filter fun route =>
      route.1 = templateOf provider).map Prod.snd :=
    List.mem_map.mpr ⟨_, List.mem_filter.mpr ⟨stored, decide_eq_true rfl⟩, rfl⟩
  obtain ⟨kept, mem, same⟩ :=
    List.mem_map.mp (mem_ids_ofList.mpr (List.mem_map_of_mem (f := (·.node.id)) listed))
  obtain ⟨⟨stored', role, verb⟩, shape⟩ := mem_routesOf.mp (mem_routes_of_keptUnder mem)
  have shape : templateOf provider = templateOf kept := shape
  have repository := owned kept stored' provider direct.stored role direct.role
    (verb.trans direct.method.symm) shape.symm same
  refine ⟨kept, ⟨stored', role, verb, ?_, ?_⟩, shape ▸ mem⟩
  · rw [repository, direct.accepted]
  · rw [← direct.shape]
    exact congrArg (templateMatches · _) shape.symm

theorem find_agrees_with_matching (boundaries : List HttpBoundary) (method path : String)
    (accepts : Option RepoId → Bool) :
    (∀ provider ∈ (RouteIndex.new boundaries).find method (fun p => accepts p.node.repoId)
        (RouteShape.parse path).segments,
      MatchingProvider boundaries method path accepts provider) ∧
    (NodesOwned boundaries →
      (∃ provider, MatchingProvider boundaries method path accepts provider) →
      (RouteIndex.new boundaries).find method (fun p => accepts p.node.repoId)
        (RouteShape.parse path).segments ≠ []) := by
  constructor
  · intro provider found
    exact (mem_find_new_iff.1 found).1.direct
  · intro owned some
    obtain ⟨provider, direct⟩ := some
    exact find_new_ne_nil_iff.2 (keptProvider_of_matching owned direct)

theorem find_misses_shared_node :
    MatchingProvider [exampleProvider "n" "r1" "/a", exampleProvider "n" "r2" "/a"] "GET" "/a"
      (· == some "r2") (exampleProvider "n" "r2" "/a") ∧
    (RouteIndex.new [exampleProvider "n" "r1" "/a", exampleProvider "n" "r2" "/a"]).find "GET"
      (fun p => p.node.repoId == some "r2") (RouteShape.parse "/a").segments = [] := by
  constructor
  · exact ⟨by decide, rfl, rfl, rfl, by decide +kernel⟩
  · decide +kernel

theorem find_agrees_with_matching_ids :
    NodesOwned [exampleProvider "n" "r1" "/a/{id}", exampleProvider "n" "r2" "/a/{*rest}"] ∧
    (RouteIndex.new [exampleProvider "n" "r1" "/a/{id}", exampleProvider "n" "r2" "/a/{*rest}"]).find
      "GET" (fun p => p.node.repoId == some "r2") (RouteShape.parse "/a/7").segments ≠ [] := by
  have owned : NodesOwned
      [exampleProvider "n" "r1" "/a/{id}", exampleProvider "n" "r2" "/a/{*rest}"] := by
    unfold NodesOwned
    decide +kernel
  refine ⟨owned, (find_agrees_with_matching _ "GET" "/a/7" (· == some "r2")).2 owned
    ⟨exampleProvider "n" "r2" "/a/{*rest}", ?_⟩⟩
  exact ⟨by decide, rfl, rfl, rfl, by decide +kernel⟩

theorem find_most_specific_iff (boundaries : List HttpBoundary) (method path : String)
    (accepts : Option RepoId → Bool) :
    MostSpecific boundaries method path accepts ↔
      ∀ provider, KeptProvider boundaries method path accepts provider →
        ∀ other, MatchingProvider boundaries method path accepts other →
          specificity (templateOf other) < specificity (templateOf provider) →
          ∃ rival, KeptProvider boundaries method path accepts rival ∧
            overtakes (templateOf rival) (templateOf provider) = true := by
  constructor
  · intro exact' provider kept other direct better
    by_contra alone
    refine (exact' provider (mem_find_new_iff.2 ⟨kept, fun rival kept' => ?_⟩)).1 other direct better
    rw [← Bool.not_eq_true]
    exact fun overtaken => alone ⟨rival, kept', overtaken⟩
  · intro condition
    have best : ∀ provider ∈ (RouteIndex.new boundaries).find method (fun p => accepts p.node.repoId)
        (RouteShape.parse path).segments, ∀ other,
          MatchingProvider boundaries method path accepts other →
          ¬specificity (templateOf other) < specificity (templateOf provider) := by
      intro provider found other direct better
      obtain ⟨kept, unrivalled⟩ := mem_find_new_iff.1 found
      obtain ⟨rival, kept', overtaken⟩ := condition provider kept other direct better
      rw [unrivalled rival kept'] at overtaken
      cases overtaken
    intro provider found
    refine ⟨best provider found, fun other found' => ?_⟩
    have direct := (mem_find_new_iff.1 found).1.direct
    have direct' := (mem_find_new_iff.1 found').1.direct
    exact le_antisymm (not_lt.1 (best other found' provider direct))
      (not_lt.1 (best provider found other direct'))

/-- Overlapping literals: the template whose second segment is static does not hide the one whose
second segment is a parameter. -/
theorem find_returns_less_specific :
    ¬MostSpecific [exampleProvider "m" "r" "/a{x}/b", exampleProvider "n" "r" "/{y}c/{z}"] "GET"
      "/a1c/b" (fun _ => true) := by
  intro exact'
  have found : exampleProvider "n" "r" "/{y}c/{z}" ∈
      (RouteIndex.new [exampleProvider "m" "r" "/a{x}/b", exampleProvider "n" "r" "/{y}c/{z}"]).find
        "GET" (fun _ => true) (RouteShape.parse "/a1c/b").segments := by
    decide +kernel
  refine (exact' _ found).1 (exampleProvider "m" "r" "/a{x}/b") ⟨by simp, rfl, rfl, rfl, ?_⟩ ?_
  · decide +kernel
  · decide +kernel

end Index

end CodeSystemGraph.Routes
