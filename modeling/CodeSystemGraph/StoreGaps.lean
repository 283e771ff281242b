import CodeSystemGraph.RouteOrder
import CodeSystemGraph.RouteSpecificity
import CodeSystemGraph.StoreValidation

/-! The gaps of a link report and the table that stores them. The linker drops
repeated gaps by all their fields, the table is keyed without the candidates,
so a report is storable when its gaps differ outside their candidates. -/

namespace CodeSystemGraph.Routes
open Model Ordered

section Searches

theorem one_lt_length_iff {α : Type} {l : List α} (nodup : l.Nodup) :
    1 < l.length ↔ ∃ one other, one ≠ other ∧ one ∈ l ∧ other ∈ l := by
  constructor
  · intro several
    refine ⟨l[0], l[1], fun same => ?_, List.getElem_mem _, List.getElem_mem _⟩
    have position := (List.Nodup.getElem_inj_iff nodup).1 same
    cases position
  · rintro ⟨one, other, apart, mem, mem'⟩
    by_contra few
    obtain ⟨i, inside, rfl⟩ := List.getElem_of_mem mem
    obtain ⟨j, inside', rfl⟩ := List.getElem_of_mem mem'
    obtain rfl : i = j := by omega
    exact apart rfl

theorem length_eq_one_iff_unique {α : Type} {l : List α} (nodup : l.Nodup) :
    l.length = 1 ↔ ∃! a, a ∈ l := by
  constructor
  · intro one
    obtain ⟨a, rfl⟩ := List.length_eq_one_iff.1 one
    exact ⟨a, List.mem_singleton_self a, fun b mem => List.mem_singleton.1 mem⟩
  · rintro ⟨a, mem, only⟩
    have few : ¬1 < l.length := by
      rw [one_lt_length_iff nodup]
      rintro ⟨one, other, apart, mem', mem''⟩
      exact apart ((only one mem').trans (only other mem'').symm)
    have some := List.length_pos_of_mem mem
    omega

theorem nodup_ofList (providers : List HttpBoundary) : (ProviderSet.ofList providers).providers.Nodup :=
  (ids_nodup_ofList providers).of_map _

theorem nodup_find (accept : HttpBoundary → Bool) (query : List RouteSegment) :
    ∀ {routes : List Route}, (∀ route ∈ routes, ∀ other ∈ routes, route.2 = other.2 → route.1 = other.1) →
      (RouteNode.find accept query (.build routes)).Nodup := by
  induction query with
  | nil =>
    intro routes _
    rw [find_nil]
    exact (nodup_ofList _).filter _
  | cons first rest ih =>
    intro routes single
    have deeper : ∀ segment, (RouteNode.find accept rest (.build (below segment routes))).Nodup := by
      refine fun segment => ih fun route mem other mem' same => ?_
      exact (List.cons.inj (single _ (mem_below.mp mem) _ (mem_below.mp mem') same)).2
    have fallThrough : ∀ {found otherwise : List HttpBoundary}, found.Nodup → otherwise.Nodup →
        (orElse found otherwise).Nodup := by
      intro found otherwise nodup nodup'
      unfold orElse
      split
      · exact nodup'
      · exact nodup
    rw [find_cons]
    refine fallThrough ?_ (fallThrough ?_ (fallThrough ?_ ((nodup_ofList _).filter _)))
    · unfold findStatic
      split
      · exact deeper _
      · exact List.nodup_nil
    · refine List.nodup_flatMap.2 ⟨fun literals _ => deeper _, ?_⟩
      refine ((mixedKeys_nodup routes).filter _).imp fun apart => ?_
      intro provider mem mem'
      obtain ⟨-, template, stored, -⟩ := find_sound accept rest mem
      obtain ⟨-, template', stored', -⟩ := find_sound accept rest mem'
      have same := (List.cons.inj (single _ (mem_below.mp stored) _ (mem_below.mp stored') rfl)).1
      exact apart (RouteSegment.mixed.inj same)
    · unfold findParam
      split
      · exact deeper _
      · exact List.nodup_nil

variable (boundaries : List HttpBoundary) (method path : String)

/-- A kept provider in the repository of the restriction, if there is one, which none of the
others there overtakes. -/
def Foremost (restriction : Option RepoId) (provider : HttpBoundary) : Prop :=
  KeptProvider boundaries method path (acceptsFor restriction) provider ∧
    ∀ rival, KeptProvider boundaries method path (acceptsFor restriction) rival →
      overtakes (templateOf rival) (templateOf provider) = false

/-- Several providers are foremost, and not exactly one of them is the caller's own. -/
structure Undecided (caller restriction : Option RepoId) : Prop where
  several : ∃ one other, one ≠ other ∧ Foremost boundaries method path restriction one ∧
    Foremost boundaries method path restriction other
  own : ∀ repository ∈ caller, ¬∃! provider, Foremost boundaries method path restriction provider ∧
    provider.node.repoId = some repository

/-- The restriction under which the providers of a call are searched. An inferred repository is
one as long as it has a matching provider. -/
def Searches (caller : Option RepoId) (scope : CallScope) (authorities : AuthorityMap)
    (restriction : Option RepoId) : Prop :=
  match scopeRestriction scope caller authorities with
  | .workspace => restriction = none
  | .strict repository => restriction = some repository
  | .preferred repository =>
    ((∃ provider, KeptProvider boundaries method path (acceptsFor (some repository)) provider) ∧
      restriction = some repository) ∨
    ((¬∃ provider, KeptProvider boundaries method path (acceptsFor (some repository)) provider) ∧
      restriction = none)
  | .external => False

variable {boundaries method path} {caller restriction : Option RepoId}

/-- What the search finds under a restriction. -/
def foundUnder (boundaries : List HttpBoundary) (method path : String) (restriction : Option RepoId) :
    List HttpBoundary :=
  (RouteIndex.new boundaries).find method (fun provider => acceptsFor restriction provider.node.repoId)
    (RouteShape.parse path).segments

theorem mem_foundUnder {provider : HttpBoundary} :
    provider ∈ foundUnder boundaries method path restriction ↔
      Foremost boundaries method path restriction provider := mem_find_new_iff

theorem nodup_foundUnder : (foundUnder boundaries method path restriction).Nodup := by
  rw [foundUnder, RouteIndex.find_new]
  refine nodup_find _ _ fun route mem other mem' same => ?_
  rw [(mem_routesOf.mp mem).2, (mem_routesOf.mp mem').2, same]

theorem undecided_iff :
    Undecided boundaries method path caller restriction ↔
      1 < (narrowToCaller caller (foundUnder boundaries method path restriction)).length := by
  have several := one_lt_length_iff (@nodup_foundUnder boundaries method path restriction)
  simp only [mem_foundUnder] at several
  have own : ∀ repository, ((foundUnder boundaries method path restriction).filter fun provider =>
      provider.node.repoId = some repository).length = 1 ↔
      ∃! provider, Foremost boundaries method path restriction provider ∧
        provider.node.repoId = some repository := by
    intro repository
    rw [length_eq_one_iff_unique (nodup_foundUnder.filter _)]
    simp only [List.mem_filter, mem_foundUnder, decide_eq_true_eq]
  unfold narrowToCaller
  cases caller with
  | none => exact ⟨fun h => several.2 h.several, fun h => ⟨several.1 h, fun _ none => by cases none⟩⟩
  | some caller =>
    dsimp only
    split
    · next narrowed =>
      refine iff_of_false (fun h => h.own caller rfl ((own caller).1 narrowed.2)) ?_
      rw [narrowed.2]
      exact lt_irrefl 1
    · next kept =>
      refine ⟨fun h => several.2 h.several, fun h => ⟨several.1 h, fun repository mem => ?_⟩⟩
      obtain rfl := Option.some.inj mem
      exact fun one => kept ⟨h, (own caller).2 one⟩

theorem narrow_of_undecided (undecided : Undecided boundaries method path caller restriction) :
    narrowToCaller caller (foundUnder boundaries method path restriction) =
      foundUnder boundaries method path restriction := by
  have several := undecided_iff.1 undecided
  unfold narrowToCaller at several ⊢
  cases caller with
  | none => rfl
  | some caller =>
    dsimp only at several ⊢
    split
    · next narrowed =>
      rw [if_pos narrowed, narrowed.2] at several
      exact absurd several (lt_irrefl 1)
    · rfl

theorem resolve_unmatched :
    (RouteIndex.new boundaries).resolve method path caller restriction = .unmatched ↔
      ¬∃ provider, KeptProvider boundaries method path (acceptsFor restriction) provider := by
  rw [← find_new_ne_nil_iff, not_not]
  change RouteResolution.ofFound (narrowToCaller caller (foundUnder boundaries method path restriction)) =
    .unmatched ↔ foundUnder boundaries method path restriction = []
  have empty : narrowToCaller caller (foundUnder boundaries method path restriction) = [] ↔
      foundUnder boundaries method path restriction = [] := by
    constructor
    · intro none
      unfold narrowToCaller at none
      cases caller with
      | none => exact none
      | some caller =>
        dsimp only at none
        split at none
        · next narrowed =>
          rw [none] at narrowed
          cases narrowed.2
        · exact none
    · intro none
      exact List.eq_nil_of_subset_nil (none ▸ narrowToCaller_subset caller _)
  rw [← empty]
  cases narrowToCaller caller (foundUnder boundaries method path restriction) with
  | nil => exact iff_of_true rfl rfl
  | cons first rest => cases rest <;> exact iff_of_false (fun same => by cases same) (List.cons_ne_nil _ _)

theorem resolveCall_searches {scope : CallScope} {authorities : AuthorityMap} :
    (resolveCall (.new boundaries) method path caller scope authorities = .external ∧
      ∀ restriction, ¬Searches boundaries method path caller scope authorities restriction) ∨
    ∃ restriction, (∀ other, Searches boundaries method path caller scope authorities other ↔
        other = restriction) ∧
      resolveCall (.new boundaries) method path caller scope authorities =
        .route ((RouteIndex.new boundaries).resolve method path caller restriction) := by
  unfold resolveCall Searches
  cases scopeRestriction scope caller authorities with
  | external => exact .inl ⟨rfl, fun _ none => none⟩
  | workspace => exact .inr ⟨none, fun _ => .rfl, rfl⟩
  | strict repository => exact .inr ⟨some repository, fun _ => .rfl, rfl⟩
  | preferred repository =>
    by_cases matching : ∃ provider,
        KeptProvider boundaries method path (acceptsFor (some repository)) provider
    · refine .inr ⟨some repository, fun other => by simp [matching], ?_⟩
      dsimp only
      split
      · next unmatched => exact absurd matching (resolve_unmatched.1 unmatched)
      · rfl
    · refine .inr ⟨none, fun other => by simp [matching], ?_⟩
      dsimp only
      rw [resolve_unmatched.2 matching]

end Searches

def HttpLinkGap.site (gap : HttpLinkGap) : NodeId × String × String × HttpLinkGapReason :=
  (gap.caller, gap.method, gap.path, gap.reason)

section Sites

variable (boundaries : List HttpBoundary) (tests : List DeclaredTestCase)
  (authorities : AuthorityMap)

def RemoteCall.choices (call : RemoteCall) : List HttpBoundary :=
  (resolveCall (.new boundaries) call.method call.path call.node.repoId call.scope
    authorities).candidates

/-- Calls of one caller with one method and path leave the choice between the same
providers, whatever their scopes are, unless they leave none. -/
def ChoicesAgree : Prop :=
  ∀ call ∈ remoteCalls boundaries tests, ∀ other ∈ remoteCalls boundaries tests,
    call.node.id = other.node.id → call.method = other.method → call.path = other.path →
    1 < (call.choices boundaries authorities).length →
    1 < (other.choices boundaries authorities).length →
    ∀ provider ∈ (call.choices boundaries authorities).map (·.node.id),
      provider ∈ (other.choices boundaries authorities).map (·.node.id)

/-- Calls of one caller with one method and path that are searched under different restrictions and
stay undecided under both have the same foremost nodes. -/
def ProvidersAgree : Prop :=
  ∀ call ∈ remoteCalls boundaries tests, ∀ other ∈ remoteCalls boundaries tests,
    call.node.id = other.node.id → call.method = other.method → call.path = other.path →
    ∀ restriction restriction',
      Searches boundaries call.method call.path call.node.repoId call.scope authorities restriction →
      Searches boundaries call.method call.path other.node.repoId other.scope authorities restriction' →
      restriction ≠ restriction' →
      Undecided boundaries call.method call.path call.node.repoId restriction →
      Undecided boundaries call.method call.path other.node.repoId restriction' →
      ∀ nodeId,
        (∃ provider, Foremost boundaries call.method call.path restriction provider ∧
          provider.node.id = nodeId) ↔
        ∃ provider, Foremost boundaries call.method call.path restriction' provider ∧
          provider.node.id = nodeId

variable {boundaries tests authorities}

theorem resolve_choice {method path : String} {caller : Option RepoId} {scope : CallScope}
    (index : RouteIndex) :
    resolveCall index method path caller scope authorities = .external ∨
      ∃ found, resolveCall index method path caller scope authorities = .route (.ofFound found) := by
  unfold resolveCall
  split
  · exact .inr ⟨_, rfl⟩
  · exact .inr ⟨_, rfl⟩
  · split
    · exact .inr ⟨_, rfl⟩
    · exact .inr ⟨_, rfl⟩
  · exact .inl rfl

theorem choices_undecided (call : RemoteCall) :
    1 < (call.choices boundaries authorities).length ↔ ∃ restriction,
      Searches boundaries call.method call.path call.node.repoId call.scope authorities restriction ∧
        Undecided boundaries call.method call.path call.node.repoId restriction := by
  rw [RemoteCall.choices]
  rcases @resolveCall_searches boundaries call.method call.path call.node.repoId call.scope
    authorities with ⟨external, none⟩ | ⟨restriction, only, routed⟩
  · rw [external]
    refine iff_of_false (by simp [CallResolution.candidates]) ?_
    rintro ⟨restriction, searches, -⟩
    exact none restriction searches
  · simp only [only, exists_eq_left, undecided_iff, routed, CallResolution.candidates]
    rw [RouteIndex.resolve, candidates_ofFound]
    rfl

theorem mem_choices {call : RemoteCall} {restriction : Option RepoId}
    (searches : Searches boundaries call.method call.path call.node.repoId call.scope authorities
      restriction)
    (undecided : Undecided boundaries call.method call.path call.node.repoId restriction)
    (nodeId : NodeId) :
    nodeId ∈ (call.choices boundaries authorities).map (·.node.id) ↔
      ∃ provider, Foremost boundaries call.method call.path restriction provider ∧
        provider.node.id = nodeId := by
  rw [RemoteCall.choices]
  rcases @resolveCall_searches boundaries call.method call.path call.node.repoId call.scope
    authorities with ⟨-, none⟩ | ⟨same, only, routed⟩
  · exact absurd searches (none restriction)
  · obtain rfl := (only restriction).1 searches
    have found : (call.choices boundaries authorities) =
        foundUnder boundaries call.method call.path restriction := by
      rw [RemoteCall.choices, routed, CallResolution.candidates, RouteIndex.resolve, candidates_ofFound]
      exact narrow_of_undecided undecided
    rw [RemoteCall.choices] at found
    simp only [found, List.mem_map, mem_foundUnder]

theorem choicesAgree_iff :
    ChoicesAgree boundaries tests authorities ↔ ProvidersAgree boundaries tests authorities := by
  constructor
  · intro agree call listed other listed' node method path restriction restriction' searches searches'
      _ undecided undecided' nodeId
    rw [method, path] at searches' undecided'
    have several := (choices_undecided call).2 ⟨restriction, searches, undecided⟩
    have several' := (choices_undecided other).2 ⟨restriction', searches', undecided'⟩
    have mine := mem_choices searches undecided nodeId
    have other' := mem_choices searches' undecided' nodeId
    rw [← method, ← path] at other'
    rw [← mine, ← other']
    exact ⟨agree call listed other listed' node method path several several' nodeId,
      agree other listed' call listed node.symm method.symm path.symm several' several nodeId⟩
  · intro agree call listed other listed' node method path several several' nodeId chosen
    obtain ⟨restriction, searches, undecided⟩ := (choices_undecided call).1 several
    obtain ⟨restriction', searches', undecided'⟩ := (choices_undecided other).1 several'
    rw [mem_choices searches undecided] at chosen
    rw [mem_choices searches' undecided']
    rw [← method, ← path] at searches' undecided' ⊢
    by_cases same : restriction = restriction'
    · exact same ▸ chosen
    · exact (agree call listed other listed' node method path restriction restriction' searches searches'
        same undecided undecided' nodeId).1 chosen

theorem mem_callGaps {call : RemoteCall} {gap : HttpLinkGap}
    (mem : gap ∈ callGaps (.new boundaries) authorities call) :
    gap.caller = call.node.id ∧ gap.method = call.method ∧ gap.path = call.path ∧
      ((gap.reason = .ambiguous ∧ 1 < (call.choices boundaries authorities).length ∧
        gap.candidates = sortedUnique ((call.choices boundaries authorities).map (·.node.id))) ∨
      (gap.reason ≠ .ambiguous ∧ gap.candidates = [])) := by
  unfold callGaps at mem
  unfold RemoteCall.choices
  cases resolve_choice (.new boundaries) with
  | inl external =>
    rw [external] at mem
    rw [List.mem_singleton.1 mem]
    exact ⟨rfl, rfl, rfl, .inr ⟨by simp, rfl⟩⟩
  | inr routed =>
    obtain ⟨found, resolved⟩ := routed
    rw [resolved] at mem ⊢
    cases found with
    | nil =>
      rw [List.mem_singleton.1 mem]
      exact ⟨rfl, rfl, rfl, .inr ⟨by simp, rfl⟩⟩
    | cons first rest =>
      cases rest with
      | nil => cases mem
      | cons second rest =>
        rw [List.mem_singleton.1 mem]
        exact ⟨rfl, rfl, rfl, .inl ⟨rfl, by simp [CallResolution.candidates, candidates_ofFound], rfl⟩⟩

theorem ambiguous_mem_callGaps {call : RemoteCall}
    (several : 1 < (call.choices boundaries authorities).length) :
    ⟨call.node.id, call.method, call.path, .ambiguous,
      sortedUnique ((call.choices boundaries authorities).map (·.node.id))⟩ ∈
      callGaps (.new boundaries) authorities call := by
  unfold callGaps
  unfold RemoteCall.choices at several ⊢
  cases resolve_choice (.new boundaries) with
  | inl external =>
    rw [external] at several
    cases several
  | inr routed =>
    obtain ⟨found, resolved⟩ := routed
    rw [resolved] at several ⊢
    simp only [CallResolution.candidates, candidates_ofFound] at several ⊢
    cases found with
    | nil => simp at several
    | cons first rest =>
      cases rest with
      | nil => simp at several
      | cons second rest => exact List.mem_singleton.2 rfl

theorem site_inj_iff :
    (∀ gap ∈ allGaps boundaries tests authorities, ∀ other ∈ allGaps boundaries tests authorities,
      gap.site = other.site → gap = other) ↔ ChoicesAgree boundaries tests authorities := by
  constructor
  · intro apart call listed call' listed' node method path several several' provider chosen
    have same := apart _ (List.mem_flatMap.2 ⟨call, listed, ambiguous_mem_callGaps several⟩)
      _ (List.mem_flatMap.2 ⟨call', listed', ambiguous_mem_callGaps several'⟩)
      (by rw [HttpLinkGap.site, HttpLinkGap.site, node, method, path])
    have candidates := congrArg HttpLinkGap.candidates same
    dsimp only at candidates
    rw [← mem_sortedUnique, ← candidates, mem_sortedUnique]
    exact chosen
  · intro agree gap mem gap' mem' sites
    obtain ⟨call, listed, own⟩ := List.mem_flatMap.1 mem
    obtain ⟨call', listed', own'⟩ := List.mem_flatMap.1 mem'
    obtain ⟨caller, method, path, kind⟩ := mem_callGaps own
    obtain ⟨caller', method', path', kind'⟩ := mem_callGaps own'
    obtain ⟨callers, methods, paths, reasons⟩ : gap.caller = gap'.caller ∧
        gap.method = gap'.method ∧ gap.path = gap'.path ∧ gap.reason = gap'.reason := by
      simpa [HttpLinkGap.site] using sites
    have candidates : gap.candidates = gap'.candidates := by
      rcases kind with ⟨ambiguous, several, named⟩ | ⟨other, empty⟩
      · rcases kind' with ⟨-, several', named'⟩ | ⟨other', -⟩
        · have node := caller.symm.trans (callers.trans caller')
          have verb := method.symm.trans (methods.trans method')
          have route := path.symm.trans (paths.trans path')
          rw [named, named']
          refine sortedUnique_congr fun provider => ⟨?_, ?_⟩
          · exact agree call listed call' listed' node verb route several several' provider
          · exact agree call' listed' call listed node.symm verb.symm route.symm several' several
              provider
        · exact absurd (reasons.symm.trans ambiguous) other'
      · rcases kind' with ⟨ambiguous', -⟩ | ⟨-, empty'⟩
        · exact absurd (reasons.trans ambiguous') other
        · rw [empty, empty']
    cases gap
    cases gap'
    simp_all

variable {stableId : String → String → String} {implementations : List DeclaredImplementation}

theorem report_gaps :
    (linkHttpRoutes stableId boundaries tests implementations authorities).report.gaps =
      sortDedup HttpLinkGap.key (allGaps boundaries tests authorities) := by
  rw [linkHttpRoutes_eq]

theorem sites_nodup_iff :
    ((linkHttpRoutes stableId boundaries tests implementations authorities).report.gaps.map
      HttpLinkGap.site).Nodup ↔ ChoicesAgree boundaries tests authorities := by
  have nodup : (sortDedup HttpLinkGap.key (allGaps boundaries tests authorities)).Nodup :=
    (sortDedup_strict HttpLinkGap.key gapKey_injective _).imp fun lt same => by
      rw [same] at lt
      exact lt_irrefl _ lt
  rw [report_gaps, List.nodup_map_iff_inj_on nodup, ← site_inj_iff]
  simp only [mem_sortDedup]

theorem report_counts_le (reason : HttpLinkCoverage → Nat)
    (part : ∀ coverage : HttpLinkCoverage, reason coverage ≤ coverage.total) :
    reason (linkHttpRoutes stableId boundaries tests implementations authorities).report.coverage ≤
      boundaries.length + tests.length := by
  refine (part _).trans ?_
  rw [coverage_accounts tests]
  exact Nat.add_le_add_right (List.length_filter_le isConsumer boundaries) _

end Sites

end CodeSystemGraph.Routes

namespace CodeSystemGraph.Store
open Model Ordered Relational Routes

section Gaps

variable {Digest : Type} {lib : Libraries Digest} {workspace : String} {db : Db}

theorem WellFormed.setGaps (wf : db.WellFormed lib.json) {gaps : List HttpGapRow}
    (keys : (gaps.map HttpGapRow.key).Nodup)
    (registered : ∀ row ∈ gaps, row.workspace ∈ db.workspaceNames)
    (valid : ∀ row ∈ gaps, row.valid lib.json = true) :
    ({ db with httpGaps := gaps } : Db).WellFormed lib.json where
  keys := { wf.keys with httpGaps := keys }
  references := { wf.references with httpGaps := registered }
  checks := { wf.checks with httpGaps := valid }

theorem WellFormed.gaps_sublist {gaps rest : List HttpGapRow}
    (wf : ({ db with httpGaps := gaps } : Db).WellFormed lib.json) (part : rest.Sublist gaps) :
    ({ db with httpGaps := rest } : Db).WellFormed lib.json :=
  WellFormed.setGaps wf (wf.keys.httpGaps.sublist (part.map _))
    (fun row mem => wf.references.httpGaps row (part.subset mem))
    (fun row mem => wf.checks.httpGaps row (part.subset mem))

theorem WellFormed.putCoverage (wf : db.WellFormed lib.json) (row : HttpCoverageRow)
    (registered : row.workspace ∈ db.workspaceNames)
    (counts : 0 ≤ row.linked ∧ 0 ≤ row.noProvider ∧ 0 ≤ row.ambiguous ∧ 0 ≤ row.external) :
    ({ db with httpCoverage := put HttpCoverageRow.workspace db.httpCoverage row } : Db).WellFormed
      lib.json where
  keys := { wf.keys with httpCoverage := nodup_put wf.keys.httpCoverage row }
  references :=
    { wf.references with
      httpCoverage := fun other mem => (mem_put mem).elim (fun same => same ▸ registered)
        (wf.references.httpCoverage other) }
  checks :=
    { wf.checks with
      httpCoverage := fun other mem => (mem_put mem).elim (fun same => same ▸ counts)
        (wf.checks.httpCoverage other) }

theorem deleteGaps_eq (wf : db.WellFormed lib.json) (rows : List HttpGapRow) :
    rows.foldlM (deleteGap lib) db = .ok { db with
      httpGaps := db.httpGaps.filter fun row => row.key ∉ rows.map HttpGapRow.key } := by
  induction rows generalizing db with
  | nil => simp [pure, Except.pure]
  | cons row rows ih =>
    have kept : ({ db with httpGaps := db.httpGaps.filter fun other => other.key ≠ row.key } :
        Db).WellFormed lib.json := WellFormed.gaps_sublist wf List.filter_sublist
    have deleted : deleteGap lib db row = .ok _ := Db.checked_eq_ok.2 ⟨rfl, kept⟩
    rw [List.foldlM_cons, deleted, ok_bind, ih kept]
    dsimp only
    rw [List.filter_filter]
    congr 2
    refine List.filter_congr fun other _ => ?_
    rw [Bool.eq_iff_iff]
    simp [and_comm]

theorem insertGaps_eq {rows : List HttpGapRow}
    (wf : ({ db with httpGaps := db.httpGaps ++ rows } : Db).WellFormed lib.json) :
    rows.foldlM (insertGap lib) db = .ok { db with httpGaps := db.httpGaps ++ rows } := by
  induction rows generalizing db with
  | nil => simp [pure, Except.pure]
  | cons row rows ih =>
    have one : ({ db with httpGaps := db.httpGaps ++ [row] } : Db).WellFormed lib.json :=
      WellFormed.gaps_sublist wf (by simp)
    have inserted : insertGap lib db row = .ok _ := Db.checked_eq_ok.2 ⟨rfl, one⟩
    rw [List.foldlM_cons, inserted, ok_bind, ih (by simpa using wf)]
    simp

theorem gapReasonName_injective : Function.Injective gapReasonName := by
  intro reason other
  cases reason <;> cases other <;> simp [gapReasonName]

theorem gapRow_key (workspace : String) (json : List String → String) (gap : HttpLinkGap) :
    (gapRow workspace json gap).key =
      (workspace, gap.caller, gap.method, gap.path, gapReasonName gap.reason) := rfl

variable {report : HttpLinkReport}

theorem mem_currentGaps {row : HttpGapRow} :
    row ∈ currentGaps lib workspace report ↔
      ∃ gap ∈ report.gaps, gapWithinBounds gap = true ∧ gapRow workspace lib.stringsJson gap = row := by
  simp only [currentGaps, mem_sortDedup, List.mem_map, List.mem_filter, and_assoc]

theorem mem_previousGaps {row : HttpGapRow} :
    row ∈ previousGaps workspace db ↔ row ∈ db.httpGaps ∧ row.workspace = workspace := by
  simp [previousGaps, mem_sortDedup]

theorem currentGaps_workspace {row : HttpGapRow} (mem : row ∈ currentGaps lib workspace report) :
    row.workspace = workspace := by
  obtain ⟨gap, -, -, rfl⟩ := mem_currentGaps.1 mem
  rfl

theorem currentGaps_nodup : (currentGaps lib workspace report).Nodup := by
  have strict : (currentGaps lib workspace report).Pairwise fun a b => a.order < b.order := by
    refine dedupBy_strict HttpGapRow.order (sortBy_sorted _ _) fun row mem other mem' => ?_
    obtain ⟨gap, -, rfl⟩ := List.mem_map.1 ((mem_sortBy _).1 mem)
    obtain ⟨gap', -, rfl⟩ := List.mem_map.1 ((mem_sortBy _).1 mem')
    simp [HttpGapRow.order, gapRow]
  exact strict.imp fun lt same => by
    rw [same] at lt
    exact lt_irrefl _ lt

theorem currentGaps_apart (distinct : (report.gaps.map HttpLinkGap.site).Nodup)
    {row other : HttpGapRow} (mem : row ∈ currentGaps lib workspace report)
    (mem' : other ∈ currentGaps lib workspace report) (same : row.key = other.key) :
    row = other := by
  obtain ⟨gap, listed, -, rfl⟩ := mem_currentGaps.1 mem
  obtain ⟨gap', listed', -, rfl⟩ := mem_currentGaps.1 mem'
  have sites : gap.site = gap'.site := by
    simpa [gapRow_key, HttpLinkGap.site, gapReasonName_injective.eq_iff] using same
  rw [List.inj_on_of_nodup_map distinct listed listed' sites]

/-- What the store relies on of the serialised lists of names. -/
def ListsAreArrays (lib : Libraries Digest) : Prop :=
  ∀ names, lib.json.valid (utf8 (lib.stringsJson names)) = true ∧
    lib.json.isArray (utf8 (lib.stringsJson names)) = true

theorem currentGaps_valid (arrays : ListsAreArrays lib) {row : HttpGapRow}
    (mem : row ∈ currentGaps lib workspace report) : row.valid lib.json = true := by
  obtain ⟨gap, -, inBounds, rfl⟩ := mem_currentGaps.1 mem
  have reason : ["no_provider", "ambiguous", "external"].contains (gapReasonName gap.reason) = true := by
    cases gap.reason <;> decide
  simp only [gapWithinBounds, Bool.and_eq_true] at inBounds
  simp only [HttpGapRow.valid, gapRow, Bool.and_eq_true]
  exact ⟨⟨⟨⟨⟨inBounds.1.1, inBounds.1.2⟩, inBounds.2⟩, reason⟩, (arrays _).1⟩, (arrays _).2⟩

def replacedGaps (lib : Libraries Digest) (workspace : String) (report : HttpLinkReport) (db : Db) :
    List HttpGapRow :=
  let current := currentGaps lib workspace report
  let previous := previousGaps workspace db
  (db.httpGaps.filter fun row =>
      row.key ∉ (previous.filter (· ∉ current)).map HttpGapRow.key) ++
    current.filter (· ∉ previous)

theorem survives_iff (wf : db.WellFormed lib.json) {row : HttpGapRow} (mem : row ∈ db.httpGaps)
    (own : row.workspace = workspace) :
    row.key ∉ ((previousGaps workspace db).filter
      (· ∉ currentGaps lib workspace report)).map HttpGapRow.key ↔
      row ∈ currentGaps lib workspace report := by
  rw [← not_iff_not, not_not, List.mem_map]
  constructor
  · rintro ⟨other, removed, same⟩
    obtain ⟨stored, gone⟩ := List.mem_filter.1 removed
    have equal := List.inj_on_of_nodup_map wf.keys.httpGaps (mem_previousGaps.1 stored).1 mem same
    rw [← equal]
    simpa using gone
  · intro gone
    exact ⟨row, List.mem_filter.2 ⟨mem_previousGaps.2 ⟨mem, own⟩, by simpa using gone⟩, rfl⟩

theorem mem_replacedGaps (wf : db.WellFormed lib.json) {row : HttpGapRow}
    (own : row.workspace = workspace) :
    row ∈ replacedGaps lib workspace report db ↔ row ∈ currentGaps lib workspace report := by
  simp only [replacedGaps, List.mem_append, List.mem_filter, decide_eq_true_eq]
  constructor
  · rintro (⟨stored, kept⟩ | ⟨fresh, -⟩)
    · exact (survives_iff wf stored own).1 kept
    · exact fresh
  · intro fresh
    by_cases stored : row ∈ previousGaps workspace db
    · have mem := (mem_previousGaps.1 stored).1
      exact .inl ⟨mem, (survives_iff wf mem own).2 fresh⟩
    · exact .inr ⟨fresh, stored⟩

theorem replacedGaps_keys (wf : db.WellFormed lib.json)
    (distinct : (report.gaps.map HttpLinkGap.site).Nodup) :
    ((replacedGaps lib workspace report db).map HttpGapRow.key).Nodup := by
  rw [replacedGaps, List.map_append]
  refine List.nodup_append.2 ⟨wf.keys.httpGaps.sublist (List.filter_sublist.map _), ?_, ?_⟩
  · refine (List.nodup_map_iff_inj_on (currentGaps_nodup.filter _)).2 fun row mem other mem' => ?_
    exact currentGaps_apart distinct (List.mem_of_mem_filter mem) (List.mem_of_mem_filter mem')
  · intro key kept key' added same
    obtain ⟨row, mem, rfl⟩ := List.mem_map.1 kept
    obtain ⟨other, mem', rfl⟩ := List.mem_map.1 added
    obtain ⟨stored, survives⟩ := List.mem_filter.1 mem
    obtain ⟨fresh, unknown⟩ := List.mem_filter.1 mem'
    -- a kept row with the key of a new one would be that row
    have own : row.workspace = workspace :=
      (congrArg Prod.fst same).trans (currentGaps_workspace fresh)
    have current := (survives_iff wf stored own).1 (by simpa using survives)
    obtain rfl := currentGaps_apart distinct current fresh same
    exact absurd (mem_previousGaps.2 ⟨stored, own⟩) (by simpa using unknown)

theorem replacedGaps_wf (arrays : ListsAreArrays lib) (wf : db.WellFormed lib.json)
    (registered : workspace ∈ db.workspaceNames)
    (distinct : (report.gaps.map HttpLinkGap.site).Nodup) :
    ({ db with httpGaps := replacedGaps lib workspace report db } : Db).WellFormed lib.json := by
  refine WellFormed.setGaps wf (replacedGaps_keys wf distinct) (fun row mem => ?_) fun row mem => ?_
  · rcases List.mem_append.1 mem with kept | added
    · exact wf.references.httpGaps row (List.mem_of_mem_filter kept)
    · rw [currentGaps_workspace (List.mem_of_mem_filter added)]
      exact registered
  · rcases List.mem_append.1 mem with kept | added
    · exact wf.checks.httpGaps row (List.mem_of_mem_filter kept)
    · exact currentGaps_valid arrays (List.mem_of_mem_filter added)

theorem coverageCount_eq_ok {field : String} {value : Nat} (small : value < 2 ^ 63) :
    ∃ column, coverageCount field value = .ok column ∧ 0 ≤ column := by
  refine ⟨_, if_pos small, ?_⟩
  rw [Int64.le_iff_toInt_le, Int64.toInt_ofNat_of_lt (by omega)]
  simp

theorem replaceHttpLinks_total (arrays : ListsAreArrays lib) (wf : db.WellFormed lib.json)
    (registered : workspace ∈ db.workspaceNames)
    (distinct : (report.gaps.map HttpLinkGap.site).Nodup)
    (linked : report.coverage.linked < 2 ^ 63) (noProvider : report.coverage.noProvider < 2 ^ 63)
    (ambiguous : report.coverage.ambiguous < 2 ^ 63)
    (external : report.coverage.external < 2 ^ 63) :
    ∃ db', replaceHttpLinks lib workspace report db = .ok db' ∧
      db'.httpGaps = replacedGaps lib workspace report db := by
  obtain ⟨linkedColumn, linkedOk, linkedNonneg⟩ := coverageCount_eq_ok linked
  obtain ⟨noProviderColumn, noProviderOk, noProviderNonneg⟩ := coverageCount_eq_ok noProvider
  obtain ⟨ambiguousColumn, ambiguousOk, ambiguousNonneg⟩ := coverageCount_eq_ok ambiguous
  obtain ⟨externalColumn, externalOk, externalNonneg⟩ := coverageCount_eq_ok external
  have counted := WellFormed.putCoverage wf ⟨workspace, linkedColumn, noProviderColumn,
    ambiguousColumn, externalColumn⟩ registered
    ⟨linkedNonneg, noProviderNonneg, ambiguousNonneg, externalNonneg⟩
  have replaced := replacedGaps_wf arrays counted registered distinct
  refine ⟨{ db with
    httpCoverage := put HttpCoverageRow.workspace db.httpCoverage ⟨workspace, linkedColumn,
      noProviderColumn, ambiguousColumn, externalColumn⟩
    httpGaps := replacedGaps lib workspace report db }, ?_, rfl⟩
  rw [replaceHttpLinks, linkedOk, noProviderOk, ambiguousOk, externalOk]
  simp only [ok_bind]
  rw [Db.checked_eq_ok.2 ⟨rfl, counted⟩]
  simp only [ok_bind]
  rw [deleteGaps_eq counted]
  simp only [ok_bind]
  rw [insertGaps_eq replaced]
  rfl

/-- Wherever the workspace is registered, the report can be stored, and the gaps of the
workspace are then those of the report whose texts fit the columns. -/
def Storable (lib : Libraries Digest) (report : HttpLinkReport) : Prop :=
  ∀ (workspace : String) (db : Db), db.WellFormed lib.json → workspace ∈ db.workspaceNames →
    ∃ db', replaceHttpLinks lib workspace report db = .ok db' ∧
      Exactly (db'.httpGaps.filter fun row => row.workspace = workspace)
        ((report.gaps.filter gapWithinBounds).map (gapRow workspace lib.stringsJson))

theorem storable_of_distinct (arrays : ListsAreArrays lib)
    (distinct : (report.gaps.map HttpLinkGap.site).Nodup)
    (linked : report.coverage.linked < 2 ^ 63) (noProvider : report.coverage.noProvider < 2 ^ 63)
    (ambiguous : report.coverage.ambiguous < 2 ^ 63)
    (external : report.coverage.external < 2 ^ 63) : Storable lib report := by
  intro workspace db wf registered
  obtain ⟨db', replaced, gaps⟩ := replaceHttpLinks_total arrays wf registered distinct linked
    noProvider ambiguous external
  refine ⟨db', replaced, ?_, fun row => ?_⟩
  · rw [gaps]
    exact (replacedGaps_keys wf distinct).of_map.filter _
  · have listed : row ∈ (report.gaps.filter gapWithinBounds).map (gapRow workspace lib.stringsJson) ↔
        row ∈ currentGaps lib workspace report := by
      simp only [mem_currentGaps, List.mem_map, List.mem_filter, and_assoc]
    rw [gaps, List.mem_filter, listed, decide_eq_true_eq]
    constructor
    · intro own
      exact (mem_replacedGaps wf own.2).1 own.1
    · intro current
      have own := currentGaps_workspace current
      exact ⟨(mem_replacedGaps wf own).2 current, own⟩

/-- The gaps of a link report differ in caller, method, path or reason, and can be stored,
exactly when calls of one site choose between the same providers. The number of calls is
that of two collections in memory. -/
theorem linkHttpRoutes_storable_iff (arrays : ListsAreArrays lib)
    (stableId : String → String → String) (boundaries : List HttpBoundary)
    (tests : List DeclaredTestCase) (implementations : List DeclaredImplementation)
    (authorities : AuthorityMap) (inMemory : boundaries.length + tests.length < 2 ^ 63) :
    (((linkHttpRoutes stableId boundaries tests implementations authorities).report.gaps.map
        HttpLinkGap.site).Nodup ∧
      Storable lib (linkHttpRoutes stableId boundaries tests implementations authorities).report) ↔
      ProvidersAgree boundaries tests authorities := by
  rw [← choicesAgree_iff, ← @sites_nodup_iff boundaries tests authorities stableId implementations]
  constructor
  · intro storable
    exact storable.1
  · intro distinct
    have count := fun reason part => @report_counts_le boundaries tests authorities stableId
      implementations reason part
    refine ⟨distinct, storable_of_distinct arrays distinct ?_ ?_ ?_ ?_⟩
    · exact (count (·.linked) fun coverage => by simp only [HttpLinkCoverage.total]; omega).trans_lt
        inMemory
    · exact (count (·.noProvider) fun coverage => by simp only [HttpLinkCoverage.total]; omega).trans_lt
        inMemory
    · exact (count (·.ambiguous) fun coverage => by simp only [HttpLinkCoverage.total]; omega).trans_lt
        inMemory
    · exact (count (·.external) fun coverage => by simp only [HttpLinkCoverage.total]; omega).trans_lt
        inMemory

def scopedTwice : List HttpBoundary :=
  [exampleProvider "p1" "r1" "/a", exampleProvider "p2" "r1" "/a", exampleProvider "p3" "r2" "/a",
    exampleConsumer "c" "r1" "/a", ownConsumer]

def scopedAlike : List HttpBoundary :=
  [exampleProvider "p1" "r1" "/a", exampleProvider "p2" "r1" "/a", exampleProvider "p3" "r2" "/b",
    exampleConsumer "c" "r1" "/a", ownConsumer]

theorem linkHttpRoutes_storable_iff_alike :
    ((linkHttpRoutes exampleId scopedAlike [] [] .new).report.gaps.map HttpLinkGap.site).Nodup ∧
      Storable plainLibraries (linkHttpRoutes exampleId scopedAlike [] [] .new).report := by
  refine (linkHttpRoutes_storable_iff (fun names => ⟨rfl, rfl⟩) exampleId scopedAlike [] [] .new
    (by decide)).2 (choicesAgree_iff.1 ?_)
  unfold ChoicesAgree
  decide +kernel

theorem linkHttpRoutes_gaps_share_key :
    ¬((linkHttpRoutes exampleId scopedTwice [] [] .new).report.gaps.map HttpLinkGap.site).Nodup ∧
      ¬Storable plainLibraries (linkHttpRoutes exampleId scopedTwice [] [] .new).report := by
  refine ⟨by decide +kernel, fun storable => ?_⟩
  have refused : replaceHttpLinks plainLibraries "w"
      (linkHttpRoutes exampleId scopedTwice [] [] .new).report exampleDb = .error .constraint := by
    decide +kernel
  obtain ⟨db', replaced, -⟩ := storable "w" exampleDb (by decide +kernel) (by decide)
  rw [refused] at replaced
  cases replaced

end Gaps

end CodeSystemGraph.Store
