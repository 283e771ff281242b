import CodeSystemGraph.Attribution
import CodeSystemGraph.ContractSelf

/-! Renames in the comparison of HTTP operations and of package coordinates. Both loops give a
key that is gone to the only candidate that is left for it; they differ in what a candidate
is. -/

namespace CodeSystemGraph.Contracts
open Ordered Routes Attribution

section Accounts

variable {K α : Type} [BEq K]

/-- Every key of one of the sides alone is reported once: one that is gone with its target if
it has one, one that is new as a target or as added. -/
structure AccountsOnce (before after : List K) (outcomes : List (K × Option K)) (added : List K) :
    Prop where
  one : (outcomes.map Prod.fst).Nodup
  gone : ∀ k, k ∈ outcomes.map Prod.fst ↔ k ∈ before ∧ k ∉ after
  fresh : ∀ k ∈ targets outcomes, k ∈ after ∧ k ∉ before
  distinct : (targets outcomes).Nodup
  new : ∀ k, k ∈ after ∧ k ∉ before ↔ k ∈ targets outcomes ∨ k ∈ added
  apart : added.Nodup ∧ ∀ k ∈ added, k ∉ targets outcomes

def missingFrom (other entries : List (K × α)) : List (K × α) :=
  entries.filter fun entry => (other.lookup entry.1).isNone

variable (eligible : K × α → K × α → Bool) (before after : List (K × α))

def entryOutcomes : List ((K × α) × Option (K × α)) :=
  attributions Prod.fst eligible after (missingFrom after before)

/-- The new entries that are not the target of one that is gone. -/
def addedEntries : List (K × α) :=
  (missingFrom before after).filter fun entry =>
    !((targets (entryOutcomes eligible before after)).map Prod.fst).contains entry.1

def outcomeKeys (outcomes : List ((K × α) × Option (K × α))) : List (K × Option K) :=
  outcomes.map fun outcome => (outcome.1.1, outcome.2.map Prod.fst)

variable {eligible before after} [LawfulBEq K]

theorem lookup_isNone {entries : List (K × α)} {k : K} :
    (entries.lookup k).isNone = true ↔ k ∉ entries.map Prod.fst := by
  rw [Option.isNone_iff_eq_none, List.lookup_eq_none_iff]
  simp only [List.mem_map, not_exists, not_and, bne_iff_ne, ne_eq]
  exact forall₂_congr fun entry _ => not_congr eq_comm

omit [BEq K] [LawfulBEq K] in
theorem targets_outcomeKeys (outcomes : List ((K × α) × Option (K × α))) :
    targets (outcomeKeys outcomes) = (targets outcomes).map Prod.fst := by
  rw [targets, outcomeKeys, List.filterMap_map, targets, List.map_filterMap]
  rfl

theorem mem_map_missingFrom {other entries : List (K × α)} {k : K} :
    k ∈ (missingFrom other entries).map Prod.fst ↔
      k ∈ entries.map Prod.fst ∧ k ∉ other.map Prod.fst := by
  simp only [List.mem_map, missingFrom, List.mem_filter, lookup_isNone]
  grind

omit [LawfulBEq K] in
theorem map_fst_entryOutcomes : (outcomeKeys (entryOutcomes eligible before after)).map Prod.fst =
    (missingFrom after before).map Prod.fst := by
  rw [outcomeKeys, List.map_map]
  have pairs : (attributions Prod.fst eligible after (missingFrom after before)).map Prod.fst =
      missingFrom after before := map_fst_attributions _
  calc (entryOutcomes eligible before after).map (Prod.fst ∘ fun outcome =>
        (outcome.1.1, outcome.2.map Prod.fst))
      = ((entryOutcomes eligible before after).map Prod.fst).map Prod.fst := by
        rw [List.map_map]
        rfl
    _ = (missingFrom after before).map Prod.fst := by rw [entryOutcomes, pairs]

theorem mem_map_inventory {K : Type} [LinearOrder K] {key : α → K} {l : List α} {k : K} :
    k ∈ (inventory key l).map Prod.fst ↔ k ∈ l.map key := by
  rw [← not_iff_not, ← lookup_isNone, lookup_inventory, Option.isNone_iff_eq_none, latest,
    List.getLast?_eq_none_iff, List.filter_eq_nil_iff]
  simp

omit [BEq K] [LawfulBEq K] in
theorem accountsOnce_congr {before' after' : List K} {before after : List K}
    {outcomes : List (K × Option K)} {added : List K} (sameBefore : ∀ k, k ∈ before' ↔ k ∈ before)
    (sameAfter : ∀ k, k ∈ after' ↔ k ∈ after) :
    AccountsOnce before' after' outcomes added ↔ AccountsOnce before after outcomes added := by
  constructor
  · rintro ⟨one, gone, fresh, distinct, new, apart⟩
    simp only [sameBefore, sameAfter] at gone fresh new
    exact ⟨one, gone, fresh, distinct, new, apart⟩
  · rintro ⟨one, gone, fresh, distinct, new, apart⟩
    simp only [← sameBefore, ← sameAfter] at gone fresh new
    exact ⟨one, gone, fresh, distinct, new, apart⟩

theorem accountsOnce_iff (distinctBefore : (before.map Prod.fst).Nodup)
    (distinctAfter : (after.map Prod.fst).Nodup) :
    AccountsOnce (before.map Prod.fst) (after.map Prod.fst)
        (outcomeKeys (entryOutcomes eligible before after))
        ((addedEntries eligible before after).map Prod.fst) ↔
      ∀ target ∈ targets (entryOutcomes eligible before after), target.1 ∉ before.map Prod.fst := by
  constructor
  · intro accounts target member
    refine (accounts.fresh target.1 ?_).2
    rw [targets_outcomeKeys]
    exact List.mem_map_of_mem member
  · intro fresh
    have known : ∀ k, k ∈ (targets (entryOutcomes eligible before after)).map Prod.fst →
        k ∈ after.map Prod.fst ∧ k ∉ before.map Prod.fst := by
      intro k member
      obtain ⟨target, taken, rfl⟩ := List.mem_map.mp member
      obtain ⟨entry, outcome⟩ := mem_targets.mp taken
      exact ⟨List.mem_map_of_mem (eligible_of_mem outcome).1, fresh target taken⟩
    have mem_added : ∀ k, k ∈ (addedEntries eligible before after).map Prod.fst ↔
        (k ∈ after.map Prod.fst ∧ k ∉ before.map Prod.fst) ∧
          k ∉ (targets (entryOutcomes eligible before after)).map Prod.fst := by
      intro k
      rw [← mem_map_missingFrom]
      simp only [addedEntries, List.mem_map, List.mem_filter, Bool.not_eq_true',
        List.contains_eq_mem, decide_eq_false_iff_not]
      grind
    refine ⟨?_, ?_, ?_, ?_, ?_, ?_, ?_⟩
    · rw [map_fst_entryOutcomes]
      exact distinctBefore.sublist (List.filter_sublist.map _)
    · intro k
      rw [map_fst_entryOutcomes, mem_map_missingFrom]
    · rwa [targets_outcomeKeys]
    · rw [targets_outcomeKeys]
      exact nodup_targets _
    · intro k
      rw [targets_outcomeKeys, mem_added]
      by_cases taken : k ∈ (targets (entryOutcomes eligible before after)).map Prod.fst
      · exact iff_of_true (known k taken) (.inl taken)
      · simp [taken]
    · exact (distinctAfter.sublist ((List.filter_sublist.trans List.filter_sublist).map _))
    · intro k member
      rw [targets_outcomeKeys]
      exact ((mem_added k).mp member).2

end Accounts

section Rendering

def hasCode (codes : List String) (f : CompatibilityFinding) : Bool := codes.contains f.code

abbrev Codes (codes : List String) : List CompatibilityFinding → Prop := Each fun f => f.code ∈ codes

theorem filter_hasCode_eq_nil {codes others : List String} {l : List CompatibilityFinding}
    (each : Codes others l) (apart : others.all (fun code => !codes.contains code) = true) :
    l.filter (hasCode codes) = [] := by
  rw [List.filter_eq_nil_iff]
  intro f member
  simpa [hasCode] using List.all_eq_true.mp apart f.code (each f member)

theorem filter_hasCode_eq_self {codes : List String} {l : List CompatibilityFinding}
    (each : Codes codes l) : l.filter (hasCode codes) = l := by
  rw [List.filter_eq_self]
  intro f member
  simpa [hasCode] using each f member

theorem code_fingerprints (before after : Option String) (family : String) :
    Codes [family ++ ".fingerprint_unavailable"] (fingerprints before after family).2 := by
  simp [fingerprints]

theorem codes_map {β : Type} {codes : List String} {l : List β} {report : β → CompatibilityFinding}
    (each : ∀ b, (report b).code ∈ codes) : Codes codes (l.map report) := by
  intro f member
  obtain ⟨b, -, rfl⟩ := List.mem_map.mp member
  exact each b

theorem flatMap_ite_singleton {β γ : Type} {p : β → Bool} {f : β → γ} (l : List β) :
    (l.flatMap fun b => if p b then [f b] else []) = (l.filter p).map f := by
  induction l with
  | nil => rfl
  | cons b l ih =>
    rw [List.flatMap_cons, ih, List.filter_cons]
    split_ifs <;> rfl

end Rendering

section HttpRenames

/-- A candidate is new, of the same role, and keeps either the method or the path. -/
def httpEligible (before : List (HttpKey × HttpBoundary)) (entry candidate : HttpKey × HttpBoundary) :
    Bool :=
  (before.lookup candidate.1).isNone && (keyRole entry.1 == keyRole candidate.1 &&
    ((keyMethod entry.1 == keyMethod candidate.1) ^^ (keyPath entry.1 == keyPath candidate.1)))

def httpOutcomes (before after : List HttpBoundary) :
    List ((HttpKey × HttpBoundary) × Option (HttpKey × HttpBoundary)) :=
  entryOutcomes (httpEligible (inventory httpKey before)) (inventory httpKey before)
    (inventory httpKey after)

def httpAdded (before after : List HttpBoundary) : List (HttpKey × HttpBoundary) :=
  addedEntries (httpEligible (inventory httpKey before)) (inventory httpKey before)
    (inventory httpKey after)

/-- The finding about an operation that is gone; with a target it names the target. -/
def httpOutcomeFinding (outcome : (HttpKey × HttpBoundary) × Option (HttpKey × HttpBoundary)) :
    CompatibilityFinding :=
  match outcome.2 with
  | some candidate =>
    finding "http.operation_changed" (httpKeyPath outcome.1.1) .potentiallyBreaking
      ["operation changed from " ++ keyMethod outcome.1.1 ++ " " ++ keyPath outcome.1.1 ++ " to " ++
        keyMethod candidate.1 ++ " " ++ keyPath candidate.1]
      (combinedHttpEvidence outcome.1.2 candidate.2)
      ["confirm the path or method migration with every HTTP consumer",
        "run request and response contract tests against the candidate operation"]
  | none =>
    finding "http.operation_removed" (httpKeyPath outcome.1.1) .breaking
      ["endpoint and method pair is absent from the candidate inventory"]
      (httpEvidence outcome.1.2)
      ["run affected HTTP consumers against the candidate provider"]

def httpAddedFinding (entry : HttpKey × HttpBoundary) : CompatibilityFinding :=
  finding "http.operation_added" (httpKeyPath entry.1) .compatible
    ["an exact endpoint and method pair was added"] (httpEvidence entry.2)
    ["validate routing and authorization before exposing the operation"]

/-- The findings about changed, removed and added operations are those of the outcomes, and
these account for every key once. -/
structure HttpAccounted
    (fingerprint : List (String × String × String × String × ℕ × ℕ × ℕ) → Option String)
    (before after : List HttpBoundary) : Prop where
  gone : (httpFindings fingerprint before after).filter
      (hasCode ["http.operation_changed", "http.operation_removed"]) =
    (httpOutcomes before after).map httpOutcomeFinding
  new : (httpFindings fingerprint before after).filter (hasCode ["http.operation_added"]) =
    (httpAdded before after).map httpAddedFinding
  once : AccountsOnce (before.map httpKey) (after.map httpKey)
    (outcomeKeys (httpOutcomes before after)) ((httpAdded before after).map Prod.fst)

theorem compareHttpOperation_known {before after : List (HttpKey × HttpBoundary)}
    {state : List HttpKey × List CompatibilityFinding} {entry : HttpKey × HttpBoundary}
    (known : (after.lookup entry.1).isNone = false) :
    compareHttpOperation before after state entry = state := by
  rw [compareHttpOperation, if_pos (by simpa using known)]

theorem compareHttpOperation_gone {before after : List (HttpKey × HttpBoundary)}
    {state : List HttpKey × List CompatibilityFinding} {entry : HttpKey × HttpBoundary}
    (gone : (after.lookup entry.1).isNone = true) :
    compareHttpOperation before after state entry =
      (state.1 ++ ((onlyCandidate Prod.fst (httpEligible before) after state.1 entry).map
          Prod.fst).toList,
        state.2 ++ [httpOutcomeFinding
          (entry, onlyCandidate Prod.fst (httpEligible before) after state.1 entry)]) := by
  have candidates : (after.filter fun candidate => candidate.1 ∉ state.1 &&
        (before.lookup candidate.1).isNone && keyRole entry.1 == keyRole candidate.1 &&
        ((keyMethod entry.1 == keyMethod candidate.1) ^^ (keyPath entry.1 == keyPath candidate.1))) =
      after.filter fun candidate => candidate.1 ∉ state.1 && httpEligible before entry candidate := by
    simp only [httpEligible, Bool.and_assoc]
  have absent : ¬(after.lookup entry.1).isSome = true := by
    rw [Option.isNone_iff_eq_none.mp gone]
    decide
  rw [compareHttpOperation, if_neg absent, candidates]
  cases only : onlyCandidate Prod.fst (httpEligible before) after state.1 entry with
  | some candidate =>
    simp only [onlyCandidate_eq_some.mp only]
    rfl
  | none =>
    dsimp only
    split
    · next candidate found =>
      rw [onlyCandidate_eq_some.mpr found] at only
      cases only
    · next other =>
      rw [Option.map_none, Option.toList_none, List.append_nil]
      rfl

theorem foldl_compareHttpOperation (before after items : List (HttpKey × HttpBoundary)) :
    items.foldl (compareHttpOperation before after) ([], []) =
      ((targets (attributions Prod.fst (httpEligible before) after (missingFrom after items))).map
          Prod.fst,
        (attributions Prod.fst (httpEligible before) after (missingFrom after items)).map
          httpOutcomeFinding) := by
  induction items using List.reverseRecOn with
  | nil => rfl
  | append_singleton items entry ih =>
    rw [List.foldl_append, ih, List.foldl_cons, List.foldl_nil]
    cases gone : (after.lookup entry.1).isNone with
    | false =>
      have same : missingFrom after (items ++ [entry]) = missingFrom after items := by
        simp [missingFrom, List.filter_append, gone]
      rw [compareHttpOperation_known gone, same]
    | true =>
      have more : missingFrom after (items ++ [entry]) = missingFrom after items ++ [entry] := by
        simp [missingFrom, List.filter_append, gone]
      rw [compareHttpOperation_gone gone, more, attributions_concat, targets_append,
        List.map_append, List.map_append]
      cases onlyCandidate Prod.fst (httpEligible before) after _ entry <;> rfl

theorem httpInventory_fst (boundaries : List HttpBoundary) (side : String) :
    (httpInventory boundaries side).1 = inventory httpKey boundaries := takeInventory_fst boundaries

theorem code_httpInventory (boundaries : List HttpBoundary) (side : String) :
    Codes ["http.operation_incomplete", "http.operation_duplicate"]
      (httpInventory boundaries side).2 := by
  refine each_takeInventory (fun boundary => ?_) (fun _ _ => by simp) boundaries
  simp [httpIncomplete]

theorem httpFindings_eq
    (fingerprint : List (String × String × String × String × ℕ × ℕ × ℕ) → Option String)
    (before after : List HttpBoundary) :
    httpFindings fingerprint before after =
      (fingerprints (fingerprint (httpFingerprintContract before))
        (fingerprint (httpFingerprintContract after)) "http").2 ++
      (httpInventory before "before").2 ++ (httpInventory after "after").2 ++
      (httpOutcomes before after).map httpOutcomeFinding ++
      (httpAdded before after).map httpAddedFinding ++
      [finding "http.schema_semantics_unmodeled" "http" .incomparable
        ["HTTP boundaries model endpoint, method, and role but not parameters or schemas"]
        (httpInventoryEvidence before after)
        ["compare complete OpenAPI request, response, media-type, status, and security schemas"]] := by
  rw [httpFindings]
  simp only [httpInventory_fst, foldl_compareHttpOperation]
  have added : ((inventory httpKey after).flatMap fun entry =>
      if ((inventory httpKey before).lookup entry.1).isNone ∧
          entry.1 ∉ (targets (httpOutcomes before after)).map Prod.fst then
        [httpAddedFinding entry] else []) = (httpAdded before after).map httpAddedFinding := by
    rw [httpAdded, addedEntries, missingFrom, List.filter_filter, ← flatMap_ite_singleton]
    simp only [Bool.and_eq_true, Bool.not_eq_true', List.contains_eq_mem, decide_eq_false_iff_not,
      and_comm]
    rfl
  rw [← added]
  rfl

theorem code_httpOutcomeFinding (outcome : (HttpKey × HttpBoundary) × Option (HttpKey × HttpBoundary)) :
    (httpOutcomeFinding outcome).code ∈ ["http.operation_changed", "http.operation_removed"] := by
  unfold httpOutcomeFinding
  cases outcome.2 with
  | none => simp
  | some candidate => simp

theorem httpAccounted
    (fingerprint : List (String × String × String × String × ℕ × ℕ × ℕ) → Option String)
    (before after : List HttpBoundary) : HttpAccounted fingerprint before after := by
  have prints := code_fingerprints (fingerprint (httpFingerprintContract before))
    (fingerprint (httpFingerprintContract after)) "http"
  have outcomes : Codes ["http.operation_changed", "http.operation_removed"]
      ((httpOutcomes before after).map httpOutcomeFinding) := codes_map code_httpOutcomeFinding
  have added : Codes ["http.operation_added"] ((httpAdded before after).map httpAddedFinding) :=
    codes_map fun _ => List.mem_singleton_self _
  refine ⟨?_, ?_, ?_⟩
  · rw [httpFindings_eq]
    simp only [List.filter_append]
    rw [filter_hasCode_eq_nil prints (by decide),
      filter_hasCode_eq_nil (code_httpInventory before "before") (by decide),
      filter_hasCode_eq_nil (code_httpInventory after "after") (by decide),
      filter_hasCode_eq_self outcomes, filter_hasCode_eq_nil added (by decide)]
    simp [hasCode]
  · rw [httpFindings_eq]
    simp only [List.filter_append]
    rw [filter_hasCode_eq_nil prints (by decide),
      filter_hasCode_eq_nil (code_httpInventory before "before") (by decide),
      filter_hasCode_eq_nil (code_httpInventory after "after") (by decide),
      filter_hasCode_eq_nil outcomes (by decide), filter_hasCode_eq_self added]
    simp [hasCode]
  · refine (accountsOnce_congr (fun _ => mem_map_inventory) fun _ => mem_map_inventory).mp ?_
    refine (accountsOnce_iff (nodup_inventory before) (nodup_inventory after)).mpr ?_
    intro target member
    obtain ⟨entry, outcome⟩ := mem_targets.mp member
    have suits := (eligible_of_mem outcome).2
    rw [httpEligible, Bool.and_eq_true] at suits
    exact lookup_isNone.mp suits.1

end HttpRenames

section PackageRenames

/-- A candidate is of the same ecosystem and declared at the same path; it may have been there
before. -/
def packageEligible (entry candidate : PackageKey × PackageCoordinate) : Bool :=
  (ofLex entry.1).1 == (ofLex candidate.1).1 && entry.2.sourcePath == candidate.2.sourcePath

def packageOutcomes (before after : PackageManifest) :
    List ((PackageKey × PackageCoordinate) × Option (PackageKey × PackageCoordinate)) :=
  entryOutcomes packageEligible (inventory packageKey before.packages)
    (inventory packageKey after.packages)

def packageAdded (before after : PackageManifest) : List (PackageKey × PackageCoordinate) :=
  addedEntries packageEligible (inventory packageKey before.packages)
    (inventory packageKey after.packages)

/-- The finding about a coordinate that is gone; with a target it names the target. -/
def packageOutcomeFinding
    (outcome : (PackageKey × PackageCoordinate) × Option (PackageKey × PackageCoordinate)) :
    CompatibilityFinding :=
  match outcome.2 with
  | some candidate =>
    finding "package.coordinate_renamed" (packageKeyPath outcome.1.1) .breaking
      ["package coordinate changed from " ++ outcome.1.2.name ++ " to " ++ candidate.2.name]
      (packageCoordinateEvidence outcome.1.2 candidate.2)
      ["publish a compatibility package or migrate every downstream dependency"]
  | none =>
    finding "package.coordinate_removed" (packageKeyPath outcome.1.1) .breaking
      ["package coordinate is absent from the candidate manifest"] [packageLocator outcome.1.2]
      ["verify all registry and workspace consumers before removing the package"]

def packageAddedFinding (entry : PackageKey × PackageCoordinate) : CompatibilityFinding :=
  finding "package.coordinate_added" (packageKeyPath entry.1) .compatible
    ["a distinct package coordinate was added"] [packageLocator entry.2]
    ["validate publication metadata before release"]

/-- The findings about renamed, removed and added coordinates are those of the outcomes, and
these account for every key once. -/
structure PackagesAccounted (before after : PackageManifest) : Prop where
  gone : (comparePackageCoordinates before after).filter
      (hasCode ["package.coordinate_renamed", "package.coordinate_removed"]) =
    (packageOutcomes before after).map packageOutcomeFinding
  new : (comparePackageCoordinates before after).filter (hasCode ["package.coordinate_added"]) =
    (packageAdded before after).map packageAddedFinding
  once : AccountsOnce (before.packages.map packageKey) (after.packages.map packageKey)
    (outcomeKeys (packageOutcomes before after)) ((packageAdded before after).map Prod.fst)

def versionFindings (after : List (PackageKey × PackageCoordinate))
    (entry : PackageKey × PackageCoordinate) : List CompatibilityFinding :=
  ((after.lookup entry.1).map (comparePackageVersion entry.2)).getD []

theorem code_versionFindings (after : List (PackageKey × PackageCoordinate))
    (entry : PackageKey × PackageCoordinate) :
    Codes ["package.declared_version_changed"] (versionFindings after entry) := by
  cases found : after.lookup entry.1 with
  | none => simp [versionFindings, found]
  | some candidate => simp [versionFindings, found, comparePackageVersion]

theorem comparePackage_known {after : List (PackageKey × PackageCoordinate)}
    {state : List PackageKey × List CompatibilityFinding} {entry : PackageKey × PackageCoordinate}
    (known : (after.lookup entry.1).isNone = false) :
    comparePackage after state entry = (state.1, state.2 ++ versionFindings after entry) := by
  obtain ⟨candidate, found⟩ := Option.isSome_iff_exists.mp (Option.isNone_eq_false_iff.mp known)
  rw [comparePackage, versionFindings, found]
  rfl

theorem comparePackage_gone {after : List (PackageKey × PackageCoordinate)}
    {state : List PackageKey × List CompatibilityFinding} {entry : PackageKey × PackageCoordinate}
    (gone : (after.lookup entry.1).isNone = true) :
    comparePackage after state entry =
      (state.1 ++ ((onlyCandidate Prod.fst packageEligible after state.1 entry).map Prod.fst).toList,
        state.2 ++ [packageOutcomeFinding
          (entry, onlyCandidate Prod.fst packageEligible after state.1 entry)]) := by
  have candidates : (after.filter fun candidate => candidate.1 ∉ state.1 &&
        (ofLex entry.1).1 == (ofLex candidate.1).1 && entry.2.sourcePath == candidate.2.sourcePath) =
      after.filter fun candidate => candidate.1 ∉ state.1 && packageEligible entry candidate := by
    simp only [packageEligible, Bool.and_assoc]
  rw [comparePackage, Option.isNone_iff_eq_none.mp gone]
  dsimp only
  rw [candidates]
  cases only : onlyCandidate Prod.fst packageEligible after state.1 entry with
  | some candidate =>
    simp only [onlyCandidate_eq_some.mp only]
    rfl
  | none =>
    split
    · next candidate found =>
      rw [onlyCandidate_eq_some.mpr found] at only
      cases only
    · next other =>
      rw [Option.map_none, Option.toList_none, List.append_nil]
      rfl

theorem code_packageOutcomeFinding
    (outcome : (PackageKey × PackageCoordinate) × Option (PackageKey × PackageCoordinate)) :
    (packageOutcomeFinding outcome).code ∈
      ["package.coordinate_renamed", "package.coordinate_removed"] := by
  unfold packageOutcomeFinding
  cases outcome.2 with
  | none => simp
  | some candidate => simp

theorem foldl_comparePackage (after items : List (PackageKey × PackageCoordinate)) :
    ∃ findings, items.foldl (comparePackage after) ([], []) =
        ((targets (attributions Prod.fst packageEligible after (missingFrom after items))).map
          Prod.fst, findings) ∧
      findings.filter (hasCode ["package.coordinate_renamed", "package.coordinate_removed"]) =
        (attributions Prod.fst packageEligible after (missingFrom after items)).map
          packageOutcomeFinding ∧
      findings.filter (hasCode ["package.coordinate_added"]) = [] := by
  induction items using List.reverseRecOn with
  | nil => exact ⟨[], rfl, rfl, rfl⟩
  | append_singleton items entry ih =>
    obtain ⟨findings, folded, outcomes, added⟩ := ih
    rw [List.foldl_append, folded, List.foldl_cons, List.foldl_nil]
    cases gone : (after.lookup entry.1).isNone with
    | false =>
      have same : missingFrom after (items ++ [entry]) = missingFrom after items := by
        simp [missingFrom, List.filter_append, gone]
      have codes := code_versionFindings after entry
      rw [comparePackage_known gone, same]
      refine ⟨findings ++ versionFindings after entry, rfl, ?_, ?_⟩
      · rw [List.filter_append, outcomes, filter_hasCode_eq_nil codes (by decide), List.append_nil]
      · rw [List.filter_append, added, filter_hasCode_eq_nil codes (by decide), List.append_nil]
    | true =>
      have more : missingFrom after (items ++ [entry]) = missingFrom after items ++ [entry] := by
        simp [missingFrom, List.filter_append, gone]
      rw [comparePackage_gone gone, more, attributions_concat, targets_append, List.map_append,
        List.map_append]
      generalize onlyCandidate Prod.fst packageEligible after
        ((targets (attributions Prod.fst packageEligible after (missingFrom after items))).map
          Prod.fst) entry = target
      have codes : Codes ["package.coordinate_renamed", "package.coordinate_removed"]
          [packageOutcomeFinding (entry, target)] :=
        each_singleton.mpr (code_packageOutcomeFinding _)
      refine ⟨findings ++ [packageOutcomeFinding (entry, target)], ?_, ?_, ?_⟩
      · cases target <;> rfl
      · rw [List.filter_append, outcomes, filter_hasCode_eq_self codes]
        rfl
      · rw [List.filter_append, added, filter_hasCode_eq_nil codes (by decide), List.append_nil]

theorem packageInventory_fst (packages : List PackageCoordinate) (side : String) :
    (packageInventory packages side).1 = inventory packageKey packages := takeInventory_fst packages

theorem code_packageInventory (packages : List PackageCoordinate) (side : String) :
    Codes ["package.coordinate_duplicate"] (packageInventory packages side).2 :=
  each_takeInventory (fun _ => each_nil) (fun _ _ => by simp) packages

theorem comparePackageCoordinates_eq (before after : PackageManifest) :
    comparePackageCoordinates before after =
      (packageInventory before.packages "before").2 ++ (packageInventory after.packages "after").2 ++
      ((inventory packageKey before.packages).foldl (comparePackage (inventory packageKey
        after.packages)) ([], [])).2 ++
      (packageAdded before after).map packageAddedFinding := by
  obtain ⟨findings, folded, -, -⟩ := foldl_comparePackage
    (inventory packageKey after.packages) (inventory packageKey before.packages)
  have news : ((inventory packageKey after.packages).flatMap fun entry =>
      if ((inventory packageKey before.packages).lookup entry.1).isNone ∧
          entry.1 ∉ (targets (packageOutcomes before after)).map Prod.fst then
        [packageAddedFinding entry] else []) = (packageAdded before after).map packageAddedFinding := by
    rw [packageAdded, addedEntries, missingFrom, List.filter_filter, ← flatMap_ite_singleton]
    simp only [Bool.and_eq_true, Bool.not_eq_true', List.contains_eq_mem, decide_eq_false_iff_not,
      and_comm]
    rfl
  rw [comparePackageCoordinates, ← news]
  simp only [packageInventory_fst, folded]
  rfl

theorem gone_and_new (before after : PackageManifest) :
    (comparePackageCoordinates before after).filter
        (hasCode ["package.coordinate_renamed", "package.coordinate_removed"]) =
      (packageOutcomes before after).map packageOutcomeFinding ∧
    (comparePackageCoordinates before after).filter (hasCode ["package.coordinate_added"]) =
      (packageAdded before after).map packageAddedFinding := by
  obtain ⟨findings, folded, outcomes, added⟩ := foldl_comparePackage
    (inventory packageKey after.packages) (inventory packageKey before.packages)
  have addedCodes : Codes ["package.coordinate_added"]
      ((packageAdded before after).map packageAddedFinding) :=
    codes_map fun _ => List.mem_singleton_self _
  rw [comparePackageCoordinates_eq, folded]
  simp only [List.filter_append]
  rw [filter_hasCode_eq_nil (code_packageInventory before.packages "before") (by decide),
    filter_hasCode_eq_nil (code_packageInventory after.packages "after") (by decide),
    filter_hasCode_eq_nil (code_packageInventory before.packages "before") (by decide),
    filter_hasCode_eq_nil (code_packageInventory after.packages "after") (by decide),
    filter_hasCode_eq_nil addedCodes (by decide), filter_hasCode_eq_self addedCodes, outcomes, added]
  simp [packageOutcomes, entryOutcomes]

def SamePlace (package other : PackageCoordinate) : Prop :=
  package.ecosystem = other.ecosystem ∧ package.sourcePath = other.sourcePath

instance (package other : PackageCoordinate) : Decidable (SamePlace package other) :=
  inferInstanceAs (Decidable (_ ∧ _))

/-- A coordinate is gone, and the only one that its place has now was there before. -/
def KeptTarget (before after : PackageManifest) : Prop :=
  ∃ gone ∈ before.packages, packageKey gone ∉ after.packages.map packageKey ∧
    ∃ kept ∈ after.packages, packageKey kept ∈ before.packages.map packageKey ∧
      SamePlace gone kept ∧ ∀ other ∈ after.packages, SamePlace gone other → other = kept

theorem debug_injective : Function.Injective PackageEcosystem.debug := by
  intro ecosystem other same
  cases ecosystem <;> cases other <;> first | rfl | exact absurd same (by decide)

theorem packageEligible_iff {package other : PackageCoordinate} :
    packageEligible (packageKey package, package) (packageKey other, other) = true ↔
      SamePlace package other := by
  rw [packageEligible, Bool.and_eq_true, beq_iff_eq, beq_iff_eq, SamePlace]
  exact and_congr_left fun _ => debug_injective.eq_iff

theorem packageEligible_grouped : Grouped packageEligible := by
  intro entry entry' candidate candidate' suits suits' joined
  simp only [packageEligible, Bool.and_eq_true, beq_iff_eq] at suits suits' joined ⊢
  exact ⟨joined.1.trans (suits.1.symm.trans suits'.1), joined.2.trans (suits.2.symm.trans suits'.2)⟩

theorem eq_singleton_iff {β : Type} {l : List β} (nodup : l.Nodup) {b : β} :
    l = [b] ↔ b ∈ l ∧ ∀ c ∈ l, c = b := by
  constructor
  · rintro rfl
    simp
  · intro ⟨mem, only⟩
    refine List.perm_singleton.mp ((List.perm_ext_iff_of_nodup nodup (List.nodup_singleton b)).mpr ?_)
    intro c
    rw [List.mem_singleton]
    exact ⟨only c, fun same => same ▸ mem⟩

section Unique

variable {before after : PackageManifest}
  (uniqueBefore : (before.packages.map packageKey).Nodup)
  (uniqueAfter : (after.packages.map packageKey).Nodup)
include uniqueBefore uniqueAfter

theorem keptTarget_iff : KeptTarget before after ↔
    ∃ target ∈ targets (packageOutcomes before after),
      target.1 ∈ (inventory packageKey before.packages).map Prod.fst := by
  have distinct : (inventory packageKey after.packages).Nodup := (nodup_inventory _).of_map _
  simp only [packageOutcomes, entryOutcomes,
    mem_targets_attributions packageEligible_grouped (nodup_inventory after.packages),
    eq_singleton_iff (distinct.filter _), List.mem_filter, missingFrom, lookup_isNone,
    mem_map_inventory]
  constructor
  · rintro ⟨gone, wasThere, absent, kept, stays, known, place, alone⟩
    refine ⟨(packageKey kept, kept), ⟨(packageKey gone, gone), ⟨?_, absent⟩, ⟨?_, ?_⟩, ?_⟩, known⟩
    · exact (mem_inventory uniqueBefore).mpr ⟨wasThere, rfl⟩
    · exact (mem_inventory uniqueAfter).mpr ⟨stays, rfl⟩
    · exact packageEligible_iff.mpr place
    · intro other suits
      obtain ⟨stays', key⟩ := (mem_inventory uniqueAfter).mp suits.1
      have same : other = (packageKey other.2, other.2) := Prod.ext key.symm rfl
      rw [same] at suits ⊢
      rw [alone other.2 stays' (packageEligible_iff.mp suits.2)]
  · rintro ⟨target, ⟨entry, ⟨listed, absent⟩, ⟨listed', suits⟩, alone⟩, known⟩
    obtain ⟨wasThere, key⟩ := (mem_inventory uniqueBefore).mp listed
    obtain ⟨stays, key'⟩ := (mem_inventory uniqueAfter).mp listed'
    have same : entry = (packageKey entry.2, entry.2) := Prod.ext key.symm rfl
    have same' : target = (packageKey target.2, target.2) := Prod.ext key'.symm rfl
    refine ⟨entry.2, wasThere, key ▸ absent, target.2, stays, key' ▸ known, ?_, ?_⟩
    · rw [same, same'] at suits
      exact packageEligible_iff.mp suits
    · intro other stays' place
      have only := alone (packageKey other, other)
        ⟨(mem_inventory uniqueAfter).mpr ⟨stays', rfl⟩, same ▸ packageEligible_iff.mpr place⟩
      exact congrArg Prod.snd only

theorem packagesAccounted_iff : PackagesAccounted before after ↔ ¬KeptTarget before after := by
  have once : AccountsOnce (before.packages.map packageKey) (after.packages.map packageKey)
        (outcomeKeys (packageOutcomes before after)) ((packageAdded before after).map Prod.fst) ↔
      ∀ target ∈ targets (packageOutcomes before after),
        target.1 ∉ (inventory packageKey before.packages).map Prod.fst :=
    (accountsOnce_congr (fun _ => mem_map_inventory.symm) fun _ => mem_map_inventory.symm).trans
      (accountsOnce_iff (nodup_inventory before.packages) (nodup_inventory after.packages))
  have parts := gone_and_new before after
  rw [keptTarget_iff uniqueBefore uniqueAfter, not_exists]
  simp only [not_and]
  exact ⟨fun accounted => once.mp accounted.once, fun fresh => ⟨parts.1, parts.2, once.mpr fresh⟩⟩

/-- Every key of one of the sides alone is reported once, unless a coordinate that is gone
shares its place only with one that stays. -/
theorem renames_accounted_iff
    (fingerprint : List (String × String × String × String × ℕ × ℕ × ℕ) → Option String)
    (httpBefore httpAfter : List HttpBoundary) :
    HttpAccounted fingerprint httpBefore httpAfter ∧ PackagesAccounted before after ↔
      ¬KeptTarget before after := by
  rw [and_iff_right (httpAccounted fingerprint httpBefore httpAfter)]
  exact packagesAccounted_iff uniqueBefore uniqueAfter

end Unique

section Manifests

def packageAt (name : String) (line : ℕ) : PackageCoordinate :=
  ⟨.npm, name, none, "package.json", ⟨line, name⟩⟩

def manifestOf (packages : List PackageCoordinate) : PackageManifest := ⟨packages, [], [], [], [], []⟩

theorem renames_accounted_renamed : HttpAccounted (fun _ => none) [] [] ∧
    PackagesAccounted (manifestOf [packageAt "api" 1]) (manifestOf [packageAt "service" 1]) := by
  refine (renames_accounted_iff (by decide) (by decide) (fun _ => none) [] []).mpr ?_
  rintro ⟨gone, -, -, kept, stays, known, -⟩
  obtain rfl : kept = packageAt "service" 1 := List.mem_singleton.mp stays
  exact absurd known (by decide)

theorem removed_as_renamed :
    ¬∀ (fingerprint : List (String × String × String × String × ℕ × ℕ × ℕ) → Option String)
      (httpBefore httpAfter : List HttpBoundary) (before after : PackageManifest),
      (httpBefore.map httpKey).Nodup → (httpAfter.map httpKey).Nodup →
      (before.packages.map packageKey).Nodup → (after.packages.map packageKey).Nodup →
        HttpAccounted fingerprint httpBefore httpAfter ∧ PackagesAccounted before after := by
  intro all
  have accounted := (all (fun _ => none) [] [] (manifestOf [packageAt "api" 1, packageAt "service" 2])
    (manifestOf [packageAt "service" 2]) (by decide) (by decide) (by decide) (by decide)).2
  refine (packagesAccounted_iff (by decide) (by decide)).mp accounted ?_
  refine ⟨packageAt "api" 1, by decide, by decide, packageAt "service" 2, by decide, by decide,
    by decide, fun other stays _ => List.mem_singleton.mp stays⟩

end Manifests

end PackageRenames

end CodeSystemGraph.Contracts
