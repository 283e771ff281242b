import CodeSystemGraph.Ordered
import CodeSystemGraph.Text

/-! Compatibility reports: findings with a status, sorted by coordinate and rule,
one for each pair, and the most conservative of their statuses. -/

namespace CodeSystemGraph.Contracts
open Ordered

def maxFindingValues : Nat := 8
def maxFindingValueChars : Nat := 512

inductive CompatibilityStatus
  | breaking | potentiallyBreaking | compatible | unknown | incomparable
deriving DecidableEq

structure CompatibilityFinding where
  code : String
  path : String
  status : CompatibilityStatus
  factors : List String
  evidence : List String
  recommendedValidations : List String
deriving DecidableEq

structure CompatibilityReport where
  status : CompatibilityStatus
  beforeFingerprint : String
  afterFingerprint : String
  findings : List CompatibilityFinding
deriving DecidableEq

def boundedValues (values : List String) : List String :=
  (values.take maxFindingValues).map fun value =>
    String.ofList (value.toList.take maxFindingValueChars)

def finding (code path : String) (status : CompatibilityStatus)
    (factors evidence recommendedValidations : List String) : CompatibilityFinding where
  code := code
  path := path
  status := status
  factors := boundedValues factors
  evidence := boundedValues evidence
  recommendedValidations := boundedValues recommendedValidations

/-- The texts of the two fingerprints, and what is reported when one is missing. -/
def fingerprints (before after : Option String) (family : String) :
    (String × String) × List CompatibilityFinding :=
  ((before.getD "unavailable", after.getD "unavailable"),
    if before.isNone || after.isNone then
      [finding (family ++ ".fingerprint_unavailable") family .unknown
        ["structured contract serialization failed"] []
        ["report the serialization failure and rerun extraction"]]
    else [])

def findingKey (f : CompatibilityFinding) : String ×ₗ String := toLex (f.path, f.code)

def aggregate (findings : List CompatibilityFinding) : CompatibilityStatus :=
  if findings.any (·.status = .breaking) then .breaking
  else if findings.any (·.status = .potentiallyBreaking) then .potentiallyBreaking
  else if findings.any (·.status = .incomparable) then .incomparable
  else if findings.any (·.status = .unknown) then .unknown
  else .compatible

def finishReport (fingerprints : String × String) (findings : List CompatibilityFinding) :
    CompatibilityReport :=
  let findings := dedupBy (fun left right => left.path == right.path && left.code == right.code)
    (sortBy findingKey findings)
  { status := aggregate findings
    beforeFingerprint := fingerprints.1
    afterFingerprint := fingerprints.2
    findings }

section Breaks

def CompatibilityStatus.Breaks (status : CompatibilityStatus) : Prop :=
  status = .breaking ∨ status = .potentiallyBreaking

instance (status : CompatibilityStatus) : Decidable status.Breaks :=
  inferInstanceAs (Decidable (_ ∨ _))

/-- No finding reports a break, and neither does the report as a whole. -/
def CompatibilityReport.NoBreak (report : CompatibilityReport) : Prop :=
  (∀ f ∈ report.findings, ¬f.status.Breaks) ∧ ¬report.status.Breaks

theorem aggregate_breaks {findings : List CompatibilityFinding} :
    (aggregate findings).Breaks ↔ ∃ f ∈ findings, f.status.Breaks := by
  unfold aggregate
  constructor
  · intro breaks
    split at breaks
    · next found =>
      obtain ⟨f, mem, status⟩ := List.any_eq_true.mp found
      exact ⟨f, mem, .inl (of_decide_eq_true status)⟩
    split at breaks
    · next found =>
      obtain ⟨f, mem, status⟩ := List.any_eq_true.mp found
      exact ⟨f, mem, .inr (of_decide_eq_true status)⟩
    split at breaks
    · exact absurd breaks (by decide)
    split at breaks <;> exact absurd breaks (by decide)
  · rintro ⟨f, mem, status | status⟩
    · rw [if_pos (List.any_eq_true.mpr ⟨f, mem, decide_eq_true status⟩)]
      exact .inl rfl
    · have found : findings.any (·.status = .potentiallyBreaking) = true :=
        List.any_eq_true.mpr ⟨f, mem, decide_eq_true status⟩
      rw [if_pos found]
      split
      · exact .inl rfl
      · exact .inr rfl

theorem mem_finishReport {prints : String × String} {findings : List CompatibilityFinding}
    {f : CompatibilityFinding} (mem : f ∈ (finishReport prints findings).findings) : f ∈ findings :=
  (mem_sortBy findingKey).mp ((dedupBy_sublist _ _).subset mem)

theorem mem_finishReport_iff {prints : String × String} {findings : List CompatibilityFinding}
    {f : CompatibilityFinding} : f ∈ (finishReport prints findings).findings ↔
      findings.find? (fun g => findingKey g = findingKey f) = some f := by
  refine mem_dedupBy_sortBy findingKey fun a _ b _ => ?_
  simp [findingKey]

theorem exists_finishReport {prints : String × String} {findings : List CompatibilityFinding}
    {f : CompatibilityFinding} (mem : f ∈ findings) :
    ∃ g ∈ (finishReport prints findings).findings, g ∈ findings ∧ findingKey g = findingKey f := by
  cases first : findings.find? fun a => findingKey a = findingKey f with
  | none => simpa using List.find?_eq_none.mp first f mem
  | some g =>
    have key : findingKey g = findingKey f := by simpa using List.find?_some first
    refine ⟨g, mem_finishReport_iff.mpr ?_, List.mem_of_find?_eq_some first, key⟩
    rw [key, first]

theorem noBreak_of {prints : String × String} {findings : List CompatibilityFinding}
    (none : ∀ f ∈ findings, ¬f.status.Breaks) : (finishReport prints findings).NoBreak := by
  have shown : ∀ f ∈ (finishReport prints findings).findings, ¬f.status.Breaks := fun f mem =>
    none f (mem_finishReport mem)
  refine ⟨shown, fun breaks => ?_⟩
  obtain ⟨f, mem, status⟩ := aggregate_breaks.mp breaks
  exact shown f mem status

/-- Where a rule always reports one status, only a break among the findings gives one
in the report. -/
theorem noBreak_iff {prints : String × String} {findings : List CompatibilityFinding}
    (ruled : ∀ f ∈ findings, ∀ g ∈ findings, f.code = g.code → f.status = g.status) :
    (finishReport prints findings).NoBreak ↔ ∀ f ∈ findings, ¬f.status.Breaks := by
  refine ⟨?_, noBreak_of⟩
  rintro ⟨none, -⟩ f mem breaks
  obtain ⟨g, shown, listed, key⟩ := exists_finishReport mem
  have code : g.code = f.code := (Prod.mk.inj (toLex.injective key)).2
  exact none g shown (ruled f mem g listed code.symm ▸ breaks)

end Breaks

end CodeSystemGraph.Contracts
