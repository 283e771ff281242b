import CodeSystemGraph.Ordered
import CodeSystemGraph.Text

/-! The overlap of two pull requests and the order suggested for them. The order is found
by a cascade of rules, each of which treats the two sides alike. -/

namespace CodeSystemGraph.PullRequests
open Ordered

section Inputs

inductive ContractRole
  | provider | consumer
deriving DecidableEq

structure PullRequestContractChange where
  contract : String
  role : ContractRole
  breaking : Bool
deriving DecidableEq

/-- The derived order: the fields one after the other. -/
def PullRequestContractChange.order (change other : PullRequestContractChange) : Ordering :=
  compareLex (compareOn (·.contract))
    (compareLex (compareOn (·.role.ctorIdx)) (compareOn (·.breaking))) change other

instance : Ord PullRequestContractChange := ⟨PullRequestContractChange.order⟩

instance : Std.TransOrd PullRequestContractChange := inferInstanceAs (Std.TransCmp (compareLex _ _))

inductive PullRequestReadiness
  | ready | blocked | unknown | stale
deriving DecidableEq

structure PullRequestSemanticInput where
  fingerprint : String
  files : BTreeSet String
  contracts : BTreeSet PullRequestContractChange
  services : BTreeSet String
  communities : BTreeSet String
  dependsOn : BTreeSet String
  readiness : PullRequestReadiness

inductive PullRequestOverlapKind
  | disjoint | file | contract | service | community | conflicting
deriving DecidableEq

structure PullRequestOverlap where
  kind : PullRequestOverlapKind
  files : List String
  contracts : List String
  services : List String
  communities : List String
deriving DecidableEq

inductive PullRequestOrder
  | leftFirst | rightFirst | coordinated | noDefinitiveOrder
deriving DecidableEq

structure PullRequestOrderSuggestion where
  order : PullRequestOrder
  reasons : List String
deriving DecidableEq

end Inputs

section Overlap

def intersection (left right : BTreeSet String) : List String := (left ∩ right).toList

def isMigrationPath (path : String) : Bool :=
  let normalized := path.toList.map fun c => Text.toAsciiLowercase (if c = '\\' then '/' else c)
  Text.containsText normalized "/migrations/".toList ||
    "migrations/".toList.isPrefixOf normalized || ".migration.sql".toList.isSuffixOf normalized

def contractNames (input : PullRequestSemanticInput) : BTreeSet String :=
  .ofList (input.contracts.toList.map (·.contract)) compare

def overlapKind (conflict : Bool) (contracts services communities files : List String) :
    PullRequestOverlapKind :=
  if conflict then .conflicting
  else if !contracts.isEmpty then .contract
  else if !services.isEmpty then .service
  else if !communities.isEmpty then .community
  else if !files.isEmpty then .file
  else .disjoint

def semanticPullRequestOverlap (left right : PullRequestSemanticInput) : PullRequestOverlap :=
  let files := intersection left.files right.files
  let contracts := intersection (contractNames left) (contractNames right)
  let services := intersection left.services right.services
  let communities := intersection left.communities right.communities
  let migrationConflict := files.any isMigrationPath
  let breakingContractConflict := contracts.any fun contract =>
    (left.contracts.toList ++ right.contracts.toList).any fun change =>
      change.contract = contract && change.breaking
  { kind := overlapKind (migrationConflict || breakingContractConflict) contracts services communities
      files
    files, contracts, services, communities }

end Overlap

section Order

/-- The first pair of changes of one contract, one of them breaking at its provider. -/
def breakingProviderOrder (left right : PullRequestSemanticInput) : Option PullRequestOrder :=
  left.contracts.toList.findSome? fun leftChange =>
    right.contracts.toList.findSome? fun rightChange =>
      if leftChange.contract ≠ rightChange.contract then none
      else if leftChange.breaking && leftChange.role = .provider then some .leftFirst
      else if rightChange.breaking && rightChange.role = .provider then some .rightFirst
      else none

def suggestion (order : PullRequestOrder) (reasons : List String) : PullRequestOrderSuggestion where
  order := order
  reasons := sortedUnique reasons

def isUnsettled (readiness : PullRequestReadiness) : Bool := readiness = .unknown || readiness = .stale

def readinessOrder (left right : PullRequestReadiness) : PullRequestOrderSuggestion :=
  match left, right with
  | .ready, .blocked => suggestion .leftFirst ["ci_review_readiness"]
  | .blocked, .ready => suggestion .rightFirst ["ci_review_readiness"]
  | _, _ => suggestion .noDefinitiveOrder ["no_ordering_evidence"]

def suggestPullRequestOrder (left right : PullRequestSemanticInput) : PullRequestOrderSuggestion :=
  if isUnsettled left.readiness || isUnsettled right.readiness then
    suggestion .noDefinitiveOrder ["readiness_unknown_or_stale"]
  else if (semanticPullRequestOverlap left right).kind = .conflicting then
    suggestion .coordinated ["shared_migration_or_breaking_contract"]
  else
    let leftDependsOnRight := left.dependsOn.contains right.fingerprint
    let rightDependsOnLeft := right.dependsOn.contains left.fingerprint
    match leftDependsOnRight, rightDependsOnLeft with
    | true, true => suggestion .coordinated ["dependency_cycle"]
    | true, false => suggestion .rightFirst ["dependency_direction"]
    | false, true => suggestion .leftFirst ["dependency_direction"]
    | false, false =>
      match breakingProviderOrder left right with
      | some order => suggestion order ["breaking_contract_provider_before_consumer"]
      | none => readinessOrder left.readiness right.readiness

end Order

section Symmetry

/-- The other side first. -/
def PullRequestOrder.mirror : PullRequestOrder → PullRequestOrder
  | .leftFirst => .rightFirst
  | .rightFirst => .leftFirst
  | .coordinated => .coordinated
  | .noDefinitiveOrder => .noDefinitiveOrder

def PullRequestOrderSuggestion.mirror (advice : PullRequestOrderSuggestion) : PullRequestOrderSuggestion where
  order := advice.order.mirror
  reasons := advice.reasons

theorem mirror_suggestion (order : PullRequestOrder) (reasons : List String) :
    (suggestion order reasons).mirror = suggestion order.mirror reasons := rfl

theorem mirror_readinessOrder (left right : PullRequestReadiness) :
    (readinessOrder left right).mirror = readinessOrder right left := by
  cases left <;> cases right <;> rfl

theorem mem_intersection {left right : BTreeSet String} {item : String} :
    item ∈ intersection left right ↔ item ∈ left ∧ item ∈ right := by
  rw [intersection, Std.ExtTreeSet.mem_toList, Std.ExtTreeSet.mem_inter_iff]

theorem intersection_comm (left right : BTreeSet String) :
    intersection left right = intersection right left := by
  have same : left ∩ right = right ∩ left := by
    refine Std.ExtTreeSet.ext_mem fun item => ?_
    rw [Std.ExtTreeSet.mem_inter_iff, Std.ExtTreeSet.mem_inter_iff, and_comm]
  rw [intersection, same, intersection]

theorem semanticPullRequestOverlap_comm (left right : PullRequestSemanticInput) :
    semanticPullRequestOverlap left right = semanticPullRequestOverlap right left := by
  have either : ∀ test : PullRequestContractChange → Bool,
      (left.contracts.toList ++ right.contracts.toList).any test =
        (right.contracts.toList ++ left.contracts.toList).any test := by
    intro test
    rw [List.any_append, List.any_append, Bool.or_comm]
  simp only [semanticPullRequestOverlap, intersection_comm left.files, intersection_comm left.services,
    intersection_comm left.communities, intersection_comm (contractNames left), either]

theorem mem_contractNames {input : PullRequestSemanticInput} {change : PullRequestContractChange}
    (listed : change ∈ input.contracts.toList) : change.contract ∈ contractNames input := by
  rw [contractNames, Std.ExtTreeSet.mem_ofList, List.contains_iff_mem]
  exact List.mem_map_of_mem listed

theorem conflicting_of_breaking {left right : PullRequestSemanticInput}
    {leftChange rightChange : PullRequestContractChange}
    (leftListed : leftChange ∈ left.contracts.toList) (rightListed : rightChange ∈ right.contracts.toList)
    (shared : leftChange.contract = rightChange.contract)
    (breaking : leftChange.breaking = true ∨ rightChange.breaking = true) :
    (semanticPullRequestOverlap left right).kind = .conflicting := by
  have common : leftChange.contract ∈ intersection (contractNames left) (contractNames right) :=
    mem_intersection.mpr ⟨mem_contractNames leftListed, shared ▸ mem_contractNames rightListed⟩
  have conflict : (intersection (contractNames left) (contractNames right)).any (fun contract =>
      (left.contracts.toList ++ right.contracts.toList).any fun change =>
        change.contract = contract && change.breaking) = true := by
    refine List.any_eq_true.mpr ⟨_, common, List.any_eq_true.mpr ?_⟩
    rcases breaking with breaking | breaking
    · exact ⟨leftChange, List.mem_append_left _ leftListed, by simp [breaking]⟩
    · exact ⟨rightChange, List.mem_append_right _ rightListed, by simp [breaking, shared]⟩
  simp only [semanticPullRequestOverlap, conflict, Bool.or_true, overlapKind, if_true]

theorem breakingProviderOrder_eq_none {left right : PullRequestSemanticInput}
    (apart : (semanticPullRequestOverlap left right).kind ≠ .conflicting) :
    breakingProviderOrder left right = none := by
  rw [breakingProviderOrder, List.findSome?_eq_none_iff]
  intro leftChange leftListed
  rw [List.findSome?_eq_none_iff]
  intro rightChange rightListed
  split
  · rfl
  next shared =>
    have shared := not_not.mp shared
    have sound : ¬(leftChange.breaking = true ∨ rightChange.breaking = true) := fun breaking =>
      apart (conflicting_of_breaking leftListed rightListed shared breaking)
    rw [not_or, Bool.not_eq_true, Bool.not_eq_true] at sound
    simp [sound]

/-- Advice about two pull requests does not depend on which one is called left. -/
theorem advice_mirrored (left right : PullRequestSemanticInput) :
    suggestPullRequestOrder right left = (suggestPullRequestOrder left right).mirror ∧
      semanticPullRequestOverlap right left = semanticPullRequestOverlap left right := by
  refine ⟨?_, semanticPullRequestOverlap_comm right left⟩
  unfold suggestPullRequestOrder
  rw [semanticPullRequestOverlap_comm right left, Bool.or_comm]
  by_cases unsettled : (isUnsettled left.readiness || isUnsettled right.readiness) = true
  · rw [if_pos unsettled, if_pos unsettled, mirror_suggestion]
    rfl
  rw [if_neg unsettled, if_neg unsettled]
  by_cases conflict : (semanticPullRequestOverlap left right).kind = .conflicting
  · rw [if_pos conflict, if_pos conflict, mirror_suggestion]
    rfl
  rw [if_neg conflict, if_neg conflict]
  have conflict' := conflict
  rw [semanticPullRequestOverlap_comm] at conflict'
  rw [breakingProviderOrder_eq_none conflict, breakingProviderOrder_eq_none conflict']
  cases left.dependsOn.contains right.fingerprint <;> cases right.dependsOn.contains left.fingerprint
  · exact (mirror_readinessOrder left.readiness right.readiness).symm
  · rfl
  · rfl
  · rfl

end Symmetry
end CodeSystemGraph.PullRequests
