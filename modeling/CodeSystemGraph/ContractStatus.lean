import CodeSystemGraph.ContractRenames

/-! The status of a report against the findings that went into it. Of findings with one path
and one rule only the first is kept, so a comparator whose rules vary in status must not give
one path to two coordinates. -/

namespace CodeSystemGraph.Contracts
open Ordered Routes Text

section Kept

def Reports (status : CompatibilityStatus) (findings : List CompatibilityFinding) : Prop :=
  ∃ f ∈ findings, f.status = status

/-- The status of the report is that of the worst of the findings, and is compatible only if
all of them are. -/
structure StatusFaithful (findings : List CompatibilityFinding) (report : CompatibilityReport) :
    Prop where
  breaking : Reports .breaking findings → report.status = .breaking
  potentiallyBreaking : ¬Reports .breaking findings → Reports .potentiallyBreaking findings →
    report.status = .potentiallyBreaking
  compatible : report.status = .compatible → ∀ f ∈ findings, f.status = .compatible

theorem aggregate_eq_breaking {findings : List CompatibilityFinding} :
    aggregate findings = .breaking ↔ Reports .breaking findings := by
  have any : findings.any (fun f => f.status = .breaking) = true ↔ Reports .breaking findings := by
    simp [Reports]
  rw [aggregate, ← any]
  split_ifs <;> simp_all

theorem aggregate_eq_potentiallyBreaking {findings : List CompatibilityFinding} :
    aggregate findings = .potentiallyBreaking ↔
      ¬Reports .breaking findings ∧ Reports .potentiallyBreaking findings := by
  have any : ∀ status, findings.any (fun f => f.status = status) = true ↔ Reports status findings := by
    simp [Reports]
  rw [aggregate, ← any, ← any]
  split_ifs <;> simp_all

theorem aggregate_eq_compatible {findings : List CompatibilityFinding} :
    aggregate findings = .compatible ↔ ∀ f ∈ findings, f.status = .compatible := by
  have any : ∀ status, findings.any (fun f => f.status = status) = true ↔ Reports status findings := by
    simp [Reports]
  constructor
  · intro all f member
    rw [aggregate] at all
    split_ifs at all with breaking potentially incomparable unknown
    rw [any] at breaking potentially incomparable unknown
    cases status : f.status with
    | breaking => exact absurd ⟨f, member, status⟩ breaking
    | potentiallyBreaking => exact absurd ⟨f, member, status⟩ potentially
    | compatible => rfl
    | unknown => exact absurd ⟨f, member, status⟩ unknown
    | incomparable => exact absurd ⟨f, member, status⟩ incomparable
  · intro all
    have none : ∀ status, status ≠ .compatible →
        ¬findings.any (fun f => f.status = status) = true := by
      intro status other
      rw [any]
      rintro ⟨f, member, found⟩
      exact other (found.symm.trans (all f member))
    rw [aggregate, if_neg (none _ (by decide)), if_neg (none _ (by decide)),
      if_neg (none _ (by decide)), if_neg (none _ (by decide))]

theorem path_code_of_key {f g : CompatibilityFinding} (same : findingKey f = findingKey g) :
    f.path = g.path ∧ f.code = g.code := Prod.mk.inj (toLex.injective same)

variable {prints : String × String} {findings : List CompatibilityFinding}

theorem statusFaithful_iff : StatusFaithful findings (finishReport prints findings) ↔
    (Reports .breaking findings → Reports .breaking (finishReport prints findings).findings) ∧
    (¬Reports .breaking findings → Reports .potentiallyBreaking findings →
      Reports .potentiallyBreaking (finishReport prints findings).findings) ∧
    ((∀ f ∈ (finishReport prints findings).findings, f.status = .compatible) →
      ∀ f ∈ findings, f.status = .compatible) := by
  have status : (finishReport prints findings).status =
      aggregate (finishReport prints findings).findings := rfl
  have fewer : Reports .breaking (finishReport prints findings).findings → Reports .breaking findings :=
    fun ⟨f, member, found⟩ => ⟨f, mem_finishReport member, found⟩
  constructor
  · rintro ⟨breaking, potentially, compatible⟩
    rw [status, aggregate_eq_breaking] at breaking
    rw [status, aggregate_eq_potentiallyBreaking] at potentially
    rw [status, aggregate_eq_compatible] at compatible
    exact ⟨breaking, fun none some => (potentially none some).2, compatible⟩
  · rintro ⟨breaking, potentially, compatible⟩
    refine ⟨?_, ?_, ?_⟩
    · rwa [status, aggregate_eq_breaking]
    · rw [status, aggregate_eq_potentiallyBreaking]
      exact fun none some => ⟨mt fewer none, potentially none some⟩
    · rwa [status, aggregate_eq_compatible]

def Keyed (findings : List CompatibilityFinding) : Prop :=
  ∀ f ∈ findings, ∀ g ∈ findings, f.path = g.path → f.code = g.code → f.status = g.status

theorem statusFaithful_of_keyed (keyed : Keyed findings) :
    StatusFaithful findings (finishReport prints findings) := by
  have kept : ∀ f ∈ findings, ∃ g ∈ (finishReport prints findings).findings, g.status = f.status := by
    intro f member
    obtain ⟨g, shown, listed, key⟩ := exists_finishReport member
    have same := path_code_of_key key
    exact ⟨g, shown, keyed g listed f member same.1 same.2⟩
  have reported : ∀ status, Reports status findings →
      Reports status (finishReport prints findings).findings := by
    rintro status ⟨f, member, rfl⟩
    exact kept f member
  refine statusFaithful_iff.mpr ⟨reported _, fun _ => reported _, fun all f member => ?_⟩
  obtain ⟨g, shown, same⟩ := kept f member
  rw [← same, all g shown]

theorem keyed_of_rule {rule : String → CompatibilityStatus}
    (ruled : Each (fun f => f.status = rule f.code) findings) : Keyed findings := by
  intro f member g member' _ code
  rw [ruled f member, ruled g member', code]

theorem keyed_of_status {status : CompatibilityStatus}
    (each : Each (fun f => f.status = status) findings) : Keyed findings := by
  intro f member g member' _ _
  rw [each f member, each g member']

theorem keyed_nil : Keyed [] := by
  intro f member
  cases member

theorem keyed_singleton (f : CompatibilityFinding) : Keyed [f] := by
  intro g member g' member' _ _
  rw [List.mem_singleton.mp member, List.mem_singleton.mp member']

theorem keyed_ite {p : Prop} [Decidable p] {f : CompatibilityFinding} :
    Keyed (if p then [f] else []) := by
  split_ifs
  · exact keyed_singleton f
  · exact keyed_nil

structure KeyedPart (codes : List String) (findings : List CompatibilityFinding) : Prop where
  keyed : Keyed findings
  codes : Codes codes findings

theorem KeyedPart.append {codes codes' : List String} {findings' : List CompatibilityFinding}
    (part : KeyedPart codes findings) (part' : KeyedPart codes' findings')
    (apart : codes.all (fun code => !codes'.contains code) = true) :
    KeyedPart (codes ++ codes') (findings ++ findings') := by
  have different : ∀ f ∈ findings, ∀ g ∈ findings', f.code ≠ g.code := by
    intro f member g member' same
    have outside := List.all_eq_true.mp apart f.code (part.codes f member)
    rw [same, List.contains_eq_mem, decide_eq_true (part'.codes g member')] at outside
    cases outside
  refine ⟨?_, each_append.mpr ⟨?_, ?_⟩⟩
  · intro f member g member' path code
    rcases List.mem_append.mp member with left | right
    · rcases List.mem_append.mp member' with left' | right'
      · exact part.keyed f left g left' path code
      · exact absurd code (different f left g right')
    · rcases List.mem_append.mp member' with left' | right'
      · exact absurd code.symm (different g left' f right)
      · exact part'.keyed f right g right' path code
  · exact fun f member => List.mem_append_left _ (part.codes f member)
  · exact fun f member => List.mem_append_right _ (part'.codes f member)

theorem keyed_flatMap {α : Type} {entries : List α} {report : α → List CompatibilityFinding}
    (path : α → String) (located : ∀ a ∈ entries, Each (fun f => f.path = path a) (report a))
    (injective : ∀ a ∈ entries, ∀ b ∈ entries, path a = path b → a = b)
    (within : ∀ a ∈ entries, Keyed (report a)) : Keyed (entries.flatMap report) := by
  intro f member g member' samePath code
  obtain ⟨a, listed, inA⟩ := List.mem_flatMap.mp member
  obtain ⟨b, listed', inB⟩ := List.mem_flatMap.mp member'
  have same := injective a listed b listed'
    ((located a listed f inA).symm.trans (samePath.trans (located b listed' g inB)))
  exact within a listed f inA g (same ▸ inB) samePath code

end Kept

section Marks

def marks (code : String) (findings : List CompatibilityFinding) : List (String × CompatibilityStatus) :=
  (findings.filter fun f => f.code = code).map fun f => (f.path, f.status)

variable {prints : String × String} {findings : List CompatibilityFinding} {code : String}
  {status : CompatibilityStatus}

@[simp] theorem marks_append (findings findings' : List CompatibilityFinding) :
    marks code (findings ++ findings') = marks code findings ++ marks code findings' := by
  simp [marks]

@[simp] theorem marks_flatMap {α : Type} (l : List α) (report : α → List CompatibilityFinding) :
    marks code (l.flatMap report) = l.flatMap fun a => marks code (report a) := by
  simp [marks, List.filter_flatMap, List.map_flatMap]

theorem marks_eq_nil {codes : List String} (inCodes : Codes codes findings)
    (other : codes.contains code = false) : marks code findings = [] := by
  rw [marks, List.map_eq_nil_iff, List.filter_eq_nil_iff]
  intro f member same
  rw [List.contains_eq_mem, ← of_decide_eq_true same, decide_eq_true (inCodes f member)] at other
  cases other

theorem reports_code : (∃ f ∈ findings, f.code = code ∧ f.status = status) ↔
    ∃ path, (path, status) ∈ marks code findings := by
  simp only [marks, List.mem_map, List.mem_filter, decide_eq_true_eq, Prod.mk.injEq]
  constructor
  · rintro ⟨f, member, same, rfl⟩
    exact ⟨f.path, f, ⟨member, same⟩, rfl, rfl⟩
  · rintro ⟨path, f, ⟨member, same⟩, -, rfl⟩
    exact ⟨f, member, same, rfl⟩

theorem lookup_marks (path : String) (findings : List CompatibilityFinding) :
    (marks code findings).lookup path =
      (findings.find? fun f => findingKey f = toLex (path, code)).map (·.status) := by
  induction findings with
  | nil => rfl
  | cons f findings ih =>
    by_cases same : f.code = code
    · by_cases here : path = f.path
      · simp [marks, findingKey, same, here]
      · have later : (marks code (f :: findings)).lookup path = (marks code findings).lookup path := by
          simp [marks, same, List.lookup_cons, beq_eq_false_iff_ne.mpr here]
        rw [later, ih, List.find?_cons_of_neg]
        simp [findingKey, Ne.symm here]
    · have later : marks code (f :: findings) = marks code findings := by simp [marks, same]
      rw [later, ih, List.find?_cons_of_neg]
      simp [findingKey, same]

theorem kept_code : (∃ f ∈ (finishReport prints findings).findings, f.code = code ∧ f.status = status) ↔
    ∃ path, (marks code findings).lookup path = some status := by
  constructor
  · rintro ⟨f, shown, rfl, rfl⟩
    refine ⟨f.path, ?_⟩
    rw [lookup_marks]
    exact Option.map_eq_some_iff.mpr ⟨f, mem_finishReport_iff.mp shown, rfl⟩
  · rintro ⟨path, found⟩
    rw [lookup_marks] at found
    obtain ⟨f, first, rfl⟩ := Option.map_eq_some_iff.mp found
    have key : findingKey f = toLex (path, code) := by simpa using List.find?_some first
    refine ⟨f, mem_finishReport_iff.mpr ?_, (Prod.mk.inj (toLex.injective key)).2, rfl⟩
    rw [key, first]

end Marks

section Http

def httpRuleStatus (code : String) : CompatibilityStatus :=
  if code = "http.operation_removed" then .breaking
  else if code = "http.operation_changed" then .potentiallyBreaking
  else if code = "http.operation_added" then .compatible
  else if code ∈ ["http.fingerprint_unavailable", "http.operation_incomplete"] then .unknown
  else .incomparable

theorem ruled_http
    (fingerprint : List (String × String × String × String × ℕ × ℕ × ℕ) → Option String)
    (before after : List HttpBoundary) :
    Each (fun f => f.status = httpRuleStatus f.code) (httpFindings fingerprint before after) := by
  have inventories : ∀ boundaries side,
      Each (fun f => f.status = httpRuleStatus f.code) (httpInventory boundaries side).2 := by
    intro boundaries side
    refine each_takeInventory (fun boundary => ?_) (fun _ _ => by simp [httpRuleStatus]) boundaries
    simp [httpIncomplete, httpRuleStatus]
  have outcomes : Each (fun f => f.status = httpRuleStatus f.code)
      ((httpOutcomes before after).map httpOutcomeFinding) := by
    intro f member
    obtain ⟨outcome, -, rfl⟩ := List.mem_map.mp member
    unfold httpOutcomeFinding
    cases outcome.2 with
    | none => simp [httpRuleStatus]
    | some candidate => simp [httpRuleStatus]
  have added : Each (fun f => f.status = httpRuleStatus f.code)
      ((httpAdded before after).map httpAddedFinding) := by
    intro f member
    obtain ⟨entry, -, rfl⟩ := List.mem_map.mp member
    simp [httpAddedFinding, httpRuleStatus]
  rw [httpFindings_eq]
  simp only [each_append, inventories, outcomes, added, and_true]
  exact ⟨ruled_fingerprints _ _ (by decide), by simp [httpRuleStatus]⟩

end Http

section Packages

theorem colon_not_mem_debug (ecosystem : PackageEcosystem) : ':' ∉ ecosystem.debug.toList := by
  cases ecosystem <;> decide

theorem packageKeyPath_inj {ecosystem ecosystem' : PackageEcosystem} {name name' : String}
    (same : ecosystem.debug ++ ":" ++ name = ecosystem'.debug ++ ":" ++ name') :
    ecosystem = ecosystem' ∧ name = name' := by
  have lists := congrArg String.toList same
  simp only [String.toList_append, List.append_assoc] at lists
  have parts := append_cons_inj (colon_not_mem_debug ecosystem) (colon_not_mem_debug ecosystem') lists
  exact ⟨debug_injective (String.toList_inj.mp parts.1), String.toList_inj.mp parts.2⟩

theorem packageKeyPath_inventory {α : Type} {key : α → PackageKey} {ecosystem : α → PackageEcosystem}
    {name : α → String} (parts : ∀ a, key a = toLex ((ecosystem a).debug, name a)) {l : List α}
    {entry entry' : PackageKey × α} (mem : entry ∈ inventory key l) (mem' : entry' ∈ inventory key l)
    (same : packageKeyPath entry.1 = packageKeyPath entry'.1) : entry = entry' := by
  refine inventory_inj mem mem' ?_
  rw [← (mem_of_mem_inventory mem).2, ← (mem_of_mem_inventory mem').2, parts, parts] at same ⊢
  obtain ⟨sameEcosystem, sameName⟩ : ecosystem entry.2 = ecosystem entry'.2 ∧
    name entry.2 = name entry'.2 := packageKeyPath_inj same
  rw [sameEcosystem, sameName]

/-- What the first loop reports about a dependency. -/
def lostDependency (entry : PackageKey × PackageDependency) (found : Option PackageDependency) :
    List CompatibilityFinding :=
  match found with
  | none =>
    [packageDependencyFinding "package.dependency_removed" entry.1
      (dependencyDriftStatus entry.2.scope) entry.2 none
      "dependency declaration is absent from the candidate manifest"]
  | some candidate =>
    if entry.2.versionOrRange ≠ candidate.versionOrRange ∨ entry.2.scope ≠ candidate.scope ∨
        entry.2.optional ≠ candidate.optional ∨ entry.2.condition ≠ candidate.condition then
      [packageDependencyFinding "package.dependency_drift" entry.1
        (if entry.2.versionOrRange.isNone || candidate.versionOrRange.isNone then .unknown
          else dependencyDriftStatus entry.2.scope) entry.2 (some candidate)
        "version range, scope, optionality, or condition changed"]
    else []

/-- What the second loop reports about a dependency. -/
def newDependency (before : List (PackageKey × PackageDependency))
    (entry : PackageKey × PackageDependency) : List CompatibilityFinding :=
  if (before.lookup entry.1).isNone then
    [packageDependencyFinding "package.dependency_added" entry.1
      (if entry.2.scope = .peer then .potentiallyBreaking else .unknown) entry.2 none
      "dependency declaration was added"]
  else []

theorem comparePackageDependencies_eq (before after : List PackageDependency) :
    comparePackageDependencies before after =
      (dependencyInventory before "before").2 ++ (dependencyInventory after "after").2 ++
      (inventory dependencyKey before).flatMap (fun entry =>
        lostDependency entry ((inventory dependencyKey after).lookup entry.1)) ++
      (inventory dependencyKey after).flatMap (newDependency (inventory dependencyKey before)) := by
  have side : ∀ dependencies side, (dependencyInventory dependencies side).1 =
      inventory dependencyKey dependencies := fun dependencies _ => takeInventory_fst dependencies
  simp only [comparePackageDependencies, side]
  rfl

theorem lostDependency_spec (entry : PackageKey × PackageDependency)
    (found : Option PackageDependency) :
    Each (fun f => f.path = packageKeyPath entry.1) (lostDependency entry found) ∧
      Codes ["package.dependency_removed", "package.dependency_drift"] (lostDependency entry found) ∧
      Keyed (lostDependency entry found) := by
  cases found with
  | none =>
    refine ⟨?_, ?_, keyed_singleton _⟩ <;> simp [lostDependency, packageDependencyFinding]
  | some candidate =>
    refine ⟨?_, ?_, keyed_ite⟩ <;> simp [lostDependency, packageDependencyFinding]

theorem dependency_apart {dependencies : List PackageDependency} :
    ∀ entry ∈ inventory dependencyKey dependencies, ∀ entry' ∈ inventory dependencyKey dependencies,
      packageKeyPath entry.1 = packageKeyPath entry'.1 → entry = entry' :=
  fun _ mem _ mem' => packageKeyPath_inventory (fun _ => rfl) mem mem'

theorem keyed_dependencies (before after : List PackageDependency) :
    KeyedPart ["package.dependency_duplicate", "package.dependency_removed",
      "package.dependency_drift", "package.dependency_added"]
      (comparePackageDependencies before after) := by
  have inventories : KeyedPart ["package.dependency_duplicate"]
      ((dependencyInventory before "before").2 ++ (dependencyInventory after "after").2) := by
    have duplicates : ∀ dependencies side, Each (fun f => f.status = .incomparable)
        (dependencyInventory dependencies side).2 := fun dependencies _ =>
      each_takeInventory (fun _ => each_nil) (fun _ _ => by simp) dependencies
    have codes : ∀ dependencies side, Codes ["package.dependency_duplicate"]
        (dependencyInventory dependencies side).2 := fun dependencies _ =>
      each_takeInventory (fun _ => each_nil) (fun _ _ => by simp) dependencies
    exact ⟨keyed_of_status (each_append.mpr ⟨duplicates _ _, duplicates _ _⟩),
      each_append.mpr ⟨codes _ _, codes _ _⟩⟩
  have lost : KeyedPart ["package.dependency_removed", "package.dependency_drift"]
      ((inventory dependencyKey before).flatMap fun entry =>
        lostDependency entry ((inventory dependencyKey after).lookup entry.1)) := by
    refine ⟨keyed_flatMap (fun entry => packageKeyPath entry.1) ?_ dependency_apart ?_, each_flatMap.mpr ?_⟩
    · exact fun entry _ => (lostDependency_spec entry _).1
    · exact fun entry _ => (lostDependency_spec entry _).2.2
    · exact fun entry _ => (lostDependency_spec entry _).2.1
  have new : KeyedPart ["package.dependency_added"]
      ((inventory dependencyKey after).flatMap (newDependency (inventory dependencyKey before))) := by
    refine ⟨keyed_flatMap (fun entry => packageKeyPath entry.1) ?_ dependency_apart fun _ _ => keyed_ite, ?_⟩
    · simp [newDependency, packageDependencyFinding]
    · simp [newDependency, packageDependencyFinding]
  rw [comparePackageDependencies_eq]
  exact (inventories.append lost (by decide)).append new (by decide)

theorem mem_foldl_comparePackage (after items : List (PackageKey × PackageCoordinate)) :
    Each (fun f => f ∈ items.flatMap (versionFindings after) ∨
        f.code ∈ ["package.coordinate_renamed", "package.coordinate_removed"] ∧ f.status = .breaking)
      (items.foldl (comparePackage after) ([], [])).2 := by
  induction items using List.reverseRecOn with
  | nil => exact each_nil
  | append_singleton items entry ih =>
    have before : Each (fun f => f ∈ (items ++ [entry]).flatMap (versionFindings after) ∨
        f.code ∈ ["package.coordinate_renamed", "package.coordinate_removed"] ∧ f.status = .breaking)
        (items.foldl (comparePackage after) ([], [])).2 := by
      intro f member
      refine (ih f member).imp_left fun listed => ?_
      rw [List.flatMap_append]
      exact List.mem_append_left _ listed
    rw [List.foldl_append, List.foldl_cons, List.foldl_nil]
    cases gone : (after.lookup entry.1).isNone with
    | false =>
      rw [comparePackage_known gone]
      refine each_append.mpr ⟨before, fun f member => .inl ?_⟩
      rw [List.flatMap_append]
      exact List.mem_append_right _ (by simpa using member)
    | true =>
      rw [comparePackage_gone gone]
      refine each_append.mpr ⟨before, each_singleton.mpr (.inr ?_)⟩
      refine ⟨code_packageOutcomeFinding _, ?_⟩
      unfold packageOutcomeFinding
      split <;> rfl

theorem keyed_versions (before : List PackageCoordinate)
    (after : List (PackageKey × PackageCoordinate)) :
    Keyed ((inventory packageKey before).flatMap (versionFindings after)) := by
  refine keyed_flatMap (fun entry => packageKeyPath entry.1) ?_ ?_ ?_
  · intro entry mem
    have key : packageKey entry.2 = entry.1 := (mem_of_mem_inventory mem).2
    cases found : after.lookup entry.1 with
    | none => simp [versionFindings, found]
    | some candidate =>
      simp only [versionFindings, found, Option.map_some, Option.getD_some, comparePackageVersion]
      rw [← key]
      simp [packageKeyPath, packageKey]
  · exact fun _ mem _ mem' => packageKeyPath_inventory (fun _ => rfl) mem mem'
  · intro entry _
    unfold versionFindings
    cases after.lookup entry.1 with
    | none => exact keyed_nil
    | some candidate =>
      rw [Option.map_some, Option.getD_some, comparePackageVersion]
      split_ifs
      · exact keyed_nil
      · exact keyed_singleton _

theorem keyed_coordinates (before after : PackageManifest) :
    KeyedPart ["package.coordinate_duplicate", "package.declared_version_changed",
      "package.coordinate_renamed", "package.coordinate_removed", "package.coordinate_added"]
      (comparePackageCoordinates before after) := by
  have inventories : KeyedPart ["package.coordinate_duplicate"]
      ((packageInventory before.packages "before").2 ++ (packageInventory after.packages "after").2) := by
    have duplicates : ∀ packages side, Each (fun f => f.status = .incomparable)
        (packageInventory packages side).2 := fun packages _ =>
      each_takeInventory (fun _ => each_nil) (fun _ _ => by simp) packages
    exact ⟨keyed_of_status (each_append.mpr ⟨duplicates _ _, duplicates _ _⟩),
      each_append.mpr ⟨code_packageInventory _ _, code_packageInventory _ _⟩⟩
  have loop : KeyedPart ["package.declared_version_changed", "package.coordinate_renamed",
      "package.coordinate_removed"]
      ((inventory packageKey before.packages).foldl (comparePackage (inventory packageKey after.packages))
        ([], [])).2 := by
    have each := mem_foldl_comparePackage (inventory packageKey after.packages)
      (inventory packageKey before.packages)
    have versions : Codes ["package.declared_version_changed"] ((inventory packageKey
        before.packages).flatMap (versionFindings (inventory packageKey after.packages))) :=
      each_flatMap.mpr fun entry _ => code_versionFindings _ entry
    constructor
    · intro f member g member' path code
      rcases each f member with version | ⟨outcome, breaks⟩
      · rcases each g member' with version' | ⟨outcome', -⟩
        · exact keyed_versions _ _ f version g version' path code
        · rw [← code, List.mem_singleton.mp (versions f version)] at outcome'
          exact absurd outcome' (by decide)
      · rcases each g member' with version' | ⟨-, breaks'⟩
        · rw [code, List.mem_singleton.mp (versions g version')] at outcome
          exact absurd outcome (by decide)
        · rw [breaks, breaks']
    · intro f member
      rcases each f member with version | ⟨outcome, -⟩
      · rw [List.mem_singleton.mp (versions f version)]
        decide
      · exact List.mem_cons_of_mem _ outcome
  have added : KeyedPart ["package.coordinate_added"]
      ((packageAdded before after).map packageAddedFinding) := by
    have compatible : Each (fun f => f.status = .compatible)
        ((packageAdded before after).map packageAddedFinding) := by
      intro f member
      obtain ⟨entry, -, rfl⟩ := List.mem_map.mp member
      rfl
    exact ⟨keyed_of_status compatible, codes_map fun _ => List.mem_singleton_self _⟩
  rw [comparePackageCoordinates_eq]
  exact (inventories.append loop (by decide)).append added (by decide)

/-- The status of each rule about declared values. -/
def valueRuleStatus (family : String) (removedStatus addedStatus : CompatibilityStatus)
    (code : String) : CompatibilityStatus :=
  if code = family ++ "_removed" then removedStatus
  else if code = family ++ "_added" then addedStatus
  else .incomparable

theorem keyed_manifestValues (family : String) (before after : List PackageManifestValue)
    (removedStatus addedStatus : CompatibilityStatus) :
    KeyedPart [family ++ "_duplicate", family ++ "_removed", family ++ "_added"]
      (compareManifestValues family before after removedStatus addedStatus) := by
  have ruled : Each (fun f => f.status = valueRuleStatus family removedStatus addedStatus f.code ∧
      f.code ∈ [family ++ "_duplicate", family ++ "_removed", family ++ "_added"])
      (compareManifestValues family before after removedStatus addedStatus) := by
    have inventories : ∀ values side, Each (fun f => f.status = valueRuleStatus family removedStatus
        addedStatus f.code ∧ f.code ∈ [family ++ "_duplicate", family ++ "_removed", family ++ "_added"])
        (manifestValueInventory family side values).2 := fun values side =>
      each_takeInventory (fun _ => each_nil) (fun _ _ => by simp [valueRuleStatus]) values
    simp only [compareManifestValues, each_append, inventories, true_and]
    simp [valueRuleStatus]
  exact ⟨keyed_of_rule fun f member => (ruled f member).1, fun f member => (ruled f member).2⟩

theorem keyed_package (fingerprint : PackageManifest → Option String)
    (before after : PackageManifest) : Keyed (packageFindings fingerprint before after) := by
  have prints : KeyedPart ["package.fingerprint_unavailable"]
      (fingerprints (fingerprint before) (fingerprint after) "package").2 := by
    refine ⟨?_, code_fingerprints _ _ _⟩
    rw [fingerprints]
    exact keyed_ite
  have cycle : KeyedPart ["package.workspace_cycle_unmodeled"]
      (if !sameManifestValues before.workspaceMembers after.workspaceMembers then
        [finding "package.workspace_cycle_unmodeled" "package.workspace" .unknown
          ["workspace membership changed but dependency cycles are not modeled"]
          (manifestValueEvidence before.workspaceMembers after.workspaceMembers)
          ["resolve the candidate workspace graph and reject newly introduced cycles"]]
        else []) := ⟨keyed_ite, by simp⟩
  have types : KeyedPart ["package.type_declarations_unmodeled"]
      [finding "package.type_declarations_unmodeled" "package.types" .unknown
        ["package manifests do not model public type declaration compatibility"]
        (packageManifestEvidence before after)
        ["run the ecosystem type checker against representative downstream consumers"]] :=
    ⟨keyed_singleton _, by simp⟩
  have parts := ((((((prints.append (keyed_coordinates before after) (by decide)).append
    (keyed_manifestValues "package.export" before.exports after.exports .breaking .compatible)
      (by decide)).append
    (keyed_dependencies before.dependencies after.dependencies) (by decide)).append
    (keyed_manifestValues "package.feature" before.features after.features .potentiallyBreaking
      .compatible) (by decide)).append
    (keyed_manifestValues "package.workspace" before.workspaceMembers after.workspaceMembers .unknown
      .unknown) (by decide)).append cycle (by decide)).append types (by decide)
  exact parts.keyed

end Packages

end CodeSystemGraph.Contracts
