import Mathlib.Order.Bounds.Basic
import CodeSystemGraph.Lowest
import CodeSystemGraph.Model
import CodeSystemGraph.Ordered
import CodeSystemGraph.Text

/-! Deliveries between repositories that share an event channel. Observations are first
collapsed for each repository, with a bounded set of evidence, and then joined. -/

namespace CodeSystemGraph.Events
open Ieee Model Ordered Lowest

section Records

def eventDeliveryEvidenceLimit : Nat := 16

structure EventObservationAggregate where
  status : EpistemicStatus
  confidence : F32
  evidence : BTreeSet EvidenceId
  evidenceTruncated : Bool

abbrev EventObservationsByChannel := BTreeMap NodeId (BTreeMap RepoId EventObservationAggregate)

structure EventDeliveryProjection where
  channelId : NodeId
  channelLabel : String
  namespaceKnown : Bool
  publisherRepository : RepoId
  subscriberRepository : RepoId
  status : EpistemicStatus
  confidence : F32
  evidence : List EvidenceId
  evidenceTruncated : Bool
deriving DecidableEq

structure EventDeliveryProjectionReport where
  deliveries : List EventDeliveryProjection
  total : Nat
  truncated : Bool
  cancelled : Bool
deriving DecidableEq

end Records

section Aggregate

def eventChannelHasNamespace (node : Node) : Bool :=
  match Text.stripPrefix "event:".toList node.stableKey.toList with
  | none => false
  | some identity =>
    match Text.splitOnce ':' identity with
    | (_, none) => false
    | (_, some identity) =>
      match Text.splitOnce ':' identity with
      | (_, none) => false
      | (namespaceName, some _) => !namespaceName.isEmpty

def severity : EpistemicStatus → Nat
  | .confirmed => 0
  | .inferred => 1
  | .ambiguous => 2
  | .stale => 3
  | .incomplete => 4

def conservativeStatus (left right : EpistemicStatus) : EpistemicStatus :=
  if severity right ≤ severity left then left else right

def popLast (evidence : BTreeSet EvidenceId) : BTreeSet EvidenceId :=
  match evidence.max? with
  | none => evidence
  | some last => evidence.erase last

def insertEvidence (aggregate : EventObservationAggregate) (evidence : EvidenceId) :
    EventObservationAggregate :=
  let grown := aggregate.evidence.insert evidence
  if eventDeliveryEvidenceLimit < grown.size then
    { aggregate with evidence := popLast grown, evidenceTruncated := true }
  else { aggregate with evidence := grown }

def observe (found : Option EventObservationAggregate) (edge : Edge) : EventObservationAggregate :=
  let aggregate := found.getD ⟨edge.status, edge.confidence, ∅, false⟩
  edge.evidence.foldl insertEvidence { aggregate with
    status := conservativeStatus aggregate.status edge.status
    confidence := Binary.min aggregate.confidence edge.confidence }

def addObservation (observations : EventObservationsByChannel) (entry : RepoId × Edge) :
    EventObservationsByChannel :=
  observations.alter entry.2.target fun repositories =>
    some ((repositories.getD ∅).alter entry.1 fun found => some (observe found entry.2))

def eventChannels (nodes : List Node) : BTreeMap NodeId (String × Bool) :=
  (nodes.filter (·.kind = .eventChannel)).foldl
    (fun channels node => channels.insert node.id (node.label, eventChannelHasNamespace node)) ∅

variable (owners : BTreeMap NodeId RepoId) (channels : BTreeMap NodeId (String × Bool))
  (cancelled : Nat → Bool)

structure EventRoles where
  publishers : EventObservationsByChannel
  subscribers : EventObservationsByChannel

def addEdge (roles : EventRoles) (edge : Edge) : EventRoles :=
  match owners[edge.source]? with
  | none => roles
  | some repository =>
    if edge.kind = .publishes ∧ edge.target ∈ channels then
      { roles with publishers := addObservation roles.publishers (repository, edge) }
    else if edge.kind = .subscribes ∧ edge.target ∈ channels then
      { roles with subscribers := addObservation roles.subscribers (repository, edge) }
    else roles

/-- `cancelled` gives the answer to each call of the callback; the number of calls so far
is returned with the result. -/
def aggregateEventObservations : (calls : Nat) → List Edge → EventRoles → Option (EventRoles × Nat)
  | calls, [], roles => some (roles, calls)
  | calls, edge :: edges, roles =>
    if cancelled calls then none
    else aggregateEventObservations (calls + 1) edges (addEdge owners channels roles edge)

end Aggregate

section Join

def usizeMax : Nat := 18446744073709551615

def saturatingUsize (n : Nat) : Nat := min n usizeMax

structure EventPair where
  channelId : NodeId
  publisherRepository : RepoId
  publisher : EventObservationAggregate
  subscriberRepository : RepoId
  subscriber : EventObservationAggregate

/-- The distinct items up to the first one past the limit. -/
def firstEvidence : List EvidenceId → List EvidenceId → List EvidenceId
  | evidence, [] => evidence
  | evidence, item :: items =>
    let evidence := if item ∈ evidence then evidence else evidence ++ [item]
    if eventDeliveryEvidenceLimit < evidence.length then evidence else firstEvidence evidence items

variable (channels : BTreeMap NodeId (String × Bool)) (cancelled : Nat → Bool)

def delivery (pair : EventPair) : EventDeliveryProjection :=
  let channel := channels[pair.channelId]?.getD ("", false)
  let evidence := firstEvidence [] (pair.publisher.evidence.min?.toList ++
    pair.subscriber.evidence.min?.toList ++
    (pair.publisher.evidence ∪ pair.subscriber.evidence).toList)
  let observedStatus := conservativeStatus pair.publisher.status pair.subscriber.status
  let observedConfidence := Binary.min pair.publisher.confidence pair.subscriber.confidence
  { channelId := pair.channelId
    channelLabel := channel.1
    namespaceKnown := channel.2
    publisherRepository := pair.publisherRepository
    subscriberRepository := pair.subscriberRepository
    status := if channel.2 then observedStatus else conservativeStatus observedStatus .ambiguous
    confidence :=
      if channel.2 then observedConfidence else Binary.min observedConfidence (.ofDyadic 1 1)
    evidence := evidence.take eventDeliveryEvidenceLimit
    evidenceTruncated := pair.publisher.evidenceTruncated || pair.subscriber.evidenceTruncated ||
      eventDeliveryEvidenceLimit < evidence.length }

def totalPairs (publishers subscribers : EventObservationsByChannel) : Nat :=
  (publishers.toList.filterMap fun entry =>
    subscribers[entry.1]?.map fun repositories =>
      saturatingUsize (entry.2.size * repositories.size)).foldl
    (fun total pairs => saturatingUsize (total + pairs)) 0

/-- The pairs of one channel, in the order of the two inner loops. -/
def channelPairs (subscribers : EventObservationsByChannel)
    (entry : NodeId × BTreeMap RepoId EventObservationAggregate) : List EventPair :=
  match subscribers[entry.1]? with
  | none => []
  | some repositories =>
    entry.2.toList.flatMap fun publisher =>
      repositories.toList.map fun subscriber =>
        ⟨entry.1, publisher.1, publisher.2, subscriber.1, subscriber.2⟩

def eventPairs (publishers subscribers : EventObservationsByChannel) : List EventPair :=
  publishers.toList.flatMap (channelPairs subscribers)

def joinPairs (limit total : Nat) :
    (calls : Nat) → List EventPair → List EventDeliveryProjection → EventDeliveryProjectionReport
  | _, [], deliveries => ⟨deliveries, total, deliveries.length < total, false⟩
  | calls, pair :: pairs, deliveries =>
    if cancelled calls then ⟨deliveries, total, true, true⟩
    else if deliveries.length = limit then ⟨deliveries, total, true, false⟩
    else joinPairs limit total (calls + 1) pairs (deliveries ++ [delivery channels pair])

def joinEventObservations (roles : EventRoles) (limit calls : Nat) : EventDeliveryProjectionReport :=
  joinPairs channels cancelled limit (totalPairs roles.publishers roles.subscribers) calls
    (eventPairs roles.publishers roles.subscribers) []

def projectEventDeliveriesBounded (nodes : List Node) (edges : List Edge)
    (owners : BTreeMap NodeId RepoId) (limit : Nat) : EventDeliveryProjectionReport :=
  let channels := eventChannels nodes
  match aggregateEventObservations owners channels cancelled 0 edges ⟨∅, ∅⟩ with
  | none => ⟨[], 0, false, true⟩
  | some (roles, calls) => joinEventObservations channels cancelled roles limit calls

end Join

section Evidence

def elements (evidence : BTreeSet EvidenceId) : Finset EvidenceId := evidence.toList.toFinset

@[simp] theorem mem_elements {evidence : BTreeSet EvidenceId} {item : EvidenceId} :
    item ∈ elements evidence ↔ item ∈ evidence := by
  rw [elements, List.mem_toFinset, Std.ExtTreeSet.mem_toList]

theorem nodup_toList (evidence : BTreeSet EvidenceId) : evidence.toList.Nodup := by
  refine Std.ExtTreeSet.distinct_toList.imp fun {a b} apart same => apart ?_
  rw [same]
  exact Std.ReflCmp.compare_self

theorem card_elements (evidence : BTreeSet EvidenceId) : (elements evidence).card = evidence.size := by
  rw [elements, List.toFinset_card_of_nodup (nodup_toList evidence), Std.ExtTreeSet.length_toList]

theorem elements_injective : Function.Injective elements := by
  intro evidence evidence' same
  refine Std.ExtTreeSet.ext_mem fun item => ?_
  rw [← mem_elements, same, mem_elements]

@[simp] theorem elements_empty : elements ∅ = ∅ := rfl

theorem elements_insert (evidence : BTreeSet EvidenceId) (item : EvidenceId) :
    elements (evidence.insert item) = insert item (elements evidence) := by
  ext other
  rw [mem_elements, Std.ExtTreeSet.mem_insert, Finset.mem_insert, mem_elements,
    Std.LawfulEqCmp.compare_eq_iff_eq]
  exact or_congr_left eq_comm

theorem elements_erase (evidence : BTreeSet EvidenceId) (item : EvidenceId) :
    elements (evidence.erase item) = (elements evidence).erase item := by
  ext other
  rw [mem_elements, Std.ExtTreeSet.mem_erase, Finset.mem_erase, mem_elements, Ne,
    Std.LawfulEqCmp.compare_eq_iff_eq]
  exact and_congr_left' (not_congr eq_comm)

/-- What an aggregate holds of the evidence that came to it. -/
structure Gathers (all : Finset EvidenceId) (aggregate : EventObservationAggregate) : Prop where
  kept : Keeps eventDeliveryEvidenceLimit all (elements aggregate.evidence)
  truncated : aggregate.evidenceTruncated = true ↔ eventDeliveryEvidenceLimit < all.card

variable {all : Finset EvidenceId} {aggregate : EventObservationAggregate}

theorem insertEvidence_gathers (gathers : Gathers all aggregate) (item : EvidenceId) :
    Gathers (insert item all) (insertEvidence aggregate item) := by
  have grown := elements_insert aggregate.evidence item
  have size := card_elements (aggregate.evidence.insert item)
  rw [grown] at size
  by_cases excess : eventDeliveryEvidenceLimit < (aggregate.evidence.insert item).size
  · have full := excess
    rw [← size] at full
    have more : (insert item (elements aggregate.evidence)).card ≤ (insert item all).card :=
      Finset.card_le_card (Finset.insert_subset_insert item gathers.kept.subset)
    rw [insertEvidence, if_pos excess]
    refine ⟨?_, iff_of_true rfl (full.trans_le more)⟩
    have last : ∃ last, (aggregate.evidence.insert item).max? = some last := by
      cases found : (aggregate.evidence.insert item).max? with
      | none =>
        rw [Std.ExtTreeSet.max?_eq_none_iff] at found
        rw [found] at excess
        exact absurd excess (Nat.not_lt_zero _)
      | some last => exact ⟨last, rfl⟩
    obtain ⟨last, found⟩ := last
    obtain ⟨mem, greatest⟩ := Std.ExtTreeSet.max?_eq_some_iff_mem_and_forall.mp found
    simp only [popLast, found, elements_erase, grown]
    refine gathers.kept.insert_evict full ?_ fun x held => ?_
    · rw [← grown, mem_elements]
      exact mem
    · rw [← grown, mem_elements] at held
      exact compare_le_iff_le.mp (Ordering.ne_gt_iff_isLE.mpr (greatest x held))
  · have fits : (insert item (elements aggregate.evidence)).card ≤ eventDeliveryEvidenceLimit := by
      rw [size]
      exact Nat.le_of_not_lt excess
    rw [insertEvidence, if_neg excess]
    have kept := gathers.kept.insert_fits fits
    refine ⟨by rw [grown]; exact kept, ?_⟩
    rw [gathers.truncated]
    have before := gathers.kept.card
    have after := kept.card
    by_cases known : item ∈ elements aggregate.evidence
    · rw [Finset.insert_eq_of_mem (gathers.kept.subset known)]
    · have grows := Finset.card_insert_le item all
      have more := Finset.card_le_card (Finset.subset_insert item all)
      rw [Finset.card_insert_of_notMem known] at fits
      omega

theorem foldl_insertEvidence (items : List EvidenceId) (gathers : Gathers all aggregate) :
    Gathers (all ∪ items.toFinset) (items.foldl insertEvidence aggregate) ∧
      (items.foldl insertEvidence aggregate).status = aggregate.status ∧
      (items.foldl insertEvidence aggregate).confidence = aggregate.confidence := by
  induction items generalizing all aggregate with
  | nil => exact ⟨by simpa using gathers, rfl, rfl⟩
  | cons item items ih =>
    have kept : (insertEvidence aggregate item).status = aggregate.status ∧
        (insertEvidence aggregate item).confidence = aggregate.confidence := by
      by_cases excess : eventDeliveryEvidenceLimit < (aggregate.evidence.insert item).size
      · rw [insertEvidence, if_pos excess]
        exact ⟨rfl, rfl⟩
      · rw [insertEvidence, if_neg excess]
        exact ⟨rfl, rfl⟩
    obtain ⟨rest, status, confidence⟩ := ih (insertEvidence_gathers gathers item)
    refine ⟨?_, status.trans kept.1, confidence.trans kept.2⟩
    rw [List.toFinset_cons, Finset.union_insert, ← Finset.insert_union]
    exact rest

end Evidence

section Collapse

def evidenceOf (edges : List Edge) : Finset EvidenceId := (edges.flatMap (·.evidence)).toFinset

/-- No confidence is a NaN and equal ones are the same: `<=` orders them totally. -/
structure OrderedConfidences (edges : List Edge) : Prop where
  numbers : ∀ edge ∈ edges, edge.confidence.isNan = false
  antisymm : ∀ edge ∈ edges, ∀ other ∈ edges, edge.confidence.value = other.confidence.value →
    edge.confidence = other.confidence

structure Summarizes (edges : List Edge) (aggregate : EventObservationAggregate) : Prop where
  status : ∃ edge ∈ edges, aggregate.status = edge.status
  conservative : ∀ edge ∈ edges, severity edge.status ≤ severity aggregate.status
  confidence : ∃ edge ∈ edges, aggregate.confidence = edge.confidence
  least : ∀ edge ∈ edges, aggregate.confidence.value ≤ edge.confidence.value
  gathers : Gathers (evidenceOf edges) aggregate

theorem severity_injective : Function.Injective severity := by
  intro status other same
  cases status <;> cases other <;> first | rfl | cases same

theorem severity_conservativeStatus (left right : EpistemicStatus) :
    severity (conservativeStatus left right) = max (severity left) (severity right) := by
  unfold conservativeStatus
  split <;> omega

theorem conservativeStatus_eq (left right : EpistemicStatus) :
    conservativeStatus left right = left ∨ conservativeStatus left right = right := by
  unfold conservativeStatus
  split
  · exact .inl rfl
  · exact .inr rfl

theorem min_confidence_eq (left right : F32) :
    Binary.min left right = left ∨ Binary.min left right = right := by
  unfold Binary.min
  split
  · exact .inr rfl
  split
  · exact .inl rfl
  split
  · exact .inr rfl
  · exact .inl rfl

theorem observe_none (edge : Edge) : Summarizes [edge] (observe none edge) := by
  have empty : Gathers ∅ ⟨conservativeStatus edge.status edge.status,
      Binary.min edge.confidence edge.confidence, ∅, false⟩ := by
    refine ⟨?_, by simp⟩
    rw [elements_empty]
    exact keeps_empty _
  obtain ⟨gathers, status, confidence⟩ := foldl_insertEvidence edge.evidence empty
  have same : Binary.min edge.confidence edge.confidence = edge.confidence :=
    (min_confidence_eq _ _).elim id id
  have same' : conservativeStatus edge.status edge.status = edge.status :=
    (conservativeStatus_eq _ _).elim id id
  refine ⟨⟨edge, List.mem_singleton_self _, status.trans same'⟩, fun other mem => ?_,
    ⟨edge, List.mem_singleton_self _, confidence.trans same⟩, fun other mem => ?_, ?_⟩
  · rw [List.mem_singleton.mp mem]
    exact (congrArg severity (status.trans same')).ge
  · rw [List.mem_singleton.mp mem]
    exact (congrArg Binary.value (confidence.trans same)).le
  · have own : evidenceOf [edge] = ∅ ∪ edge.evidence.toFinset := by simp [evidenceOf]
    rw [own]
    exact gathers

theorem observe_some {edges : List Edge} {aggregate : EventObservationAggregate} {edge : Edge}
    (numbers : ∀ other ∈ edges ++ [edge], other.confidence.isNan = false)
    (summarizes : Summarizes edges aggregate) :
    Summarizes (edges ++ [edge]) (observe (some aggregate) edge) := by
  have before : Gathers (evidenceOf edges)
      { aggregate with
        status := conservativeStatus aggregate.status edge.status
        confidence := Binary.min aggregate.confidence edge.confidence } :=
    ⟨summarizes.gathers.kept, summarizes.gathers.truncated⟩
  obtain ⟨gathers, status, confidence⟩ := foldl_insertEvidence edge.evidence before
  have own : edge ∈ edges ++ [edge] := List.mem_append_right _ (List.mem_singleton_self _)
  have number : aggregate.confidence.isNan = false := by
    obtain ⟨first, mem, same⟩ := summarizes.confidence
    rw [same]
    exact numbers first (List.mem_append_left _ mem)
  have value : (observe (some aggregate) edge).confidence.value =
      min aggregate.confidence.value edge.confidence.value := by
    rw [← Binary.value_min number (numbers edge own)]
    exact congrArg Binary.value confidence
  have weight : severity (observe (some aggregate) edge).status =
      max (severity aggregate.status) (severity edge.status) := by
    rw [← severity_conservativeStatus]
    exact congrArg severity status
  refine ⟨?_, fun other mem => ?_, ?_, fun other mem => ?_, ?_⟩
  · rcases conservativeStatus_eq aggregate.status edge.status with left | right
    · obtain ⟨first, mem, same⟩ := summarizes.status
      exact ⟨first, List.mem_append_left _ mem, status.trans (left.trans same)⟩
    · exact ⟨edge, own, status.trans right⟩
  · rw [weight]
    rcases List.mem_append.mp mem with old | new
    · exact (summarizes.conservative other old).trans (le_max_left _ _)
    · rw [List.mem_singleton.mp new]
      exact le_max_right _ _
  · rcases min_confidence_eq aggregate.confidence edge.confidence with left | right
    · obtain ⟨first, mem, same⟩ := summarizes.confidence
      exact ⟨first, List.mem_append_left _ mem, confidence.trans (left.trans same)⟩
    · exact ⟨edge, own, confidence.trans right⟩
  · rw [value]
    rcases List.mem_append.mp mem with old | new
    · exact (min_le_left _ _).trans (summarizes.least other old)
    · rw [List.mem_singleton.mp new]
      exact min_le_right _ _
  · have union : evidenceOf (edges ++ [edge]) = evidenceOf edges ∪ edge.evidence.toFinset := by
      simp [evidenceOf]
    rw [union]
    exact gathers

def collapse (edges : List Edge) : Option EventObservationAggregate :=
  edges.foldl (fun found edge => some (observe found edge)) none

theorem foldl_observe {seen : List Edge} {aggregate : EventObservationAggregate} (edges : List Edge)
    (numbers : ∀ edge ∈ seen ++ edges, edge.confidence.isNan = false)
    (summarizes : Summarizes seen aggregate) :
    ∃ result, edges.foldl (fun found edge => some (observe found edge)) (some aggregate) = some result ∧
      Summarizes (seen ++ edges) result := by
  induction edges generalizing seen aggregate with
  | nil => exact ⟨aggregate, rfl, by rwa [List.append_nil]⟩
  | cons edge edges ih =>
    rw [List.append_cons] at numbers ⊢
    exact ih numbers (observe_some (fun other mem => numbers other (List.mem_append_left _ mem)) summarizes)

theorem collapse_eq_none {edges : List Edge} : collapse edges = none ↔ edges = [] := by
  cases edges with
  | nil => exact iff_of_true rfl rfl
  | cons edge edges =>
    refine iff_of_false (fun empty => ?_) (List.cons_ne_nil _ _)
    have returns : ∀ (edges : List Edge) (aggregate : EventObservationAggregate),
        edges.foldl (fun found edge => some (observe found edge)) (some aggregate) ≠ none := by
      intro edges
      induction edges with
      | nil => exact fun _ => Option.some_ne_none _
      | cons edge edges ih => exact fun _ => ih _
    exact returns edges _ empty

theorem summarizes_collapse {edges : List Edge} (numbers : ∀ edge ∈ edges, edge.confidence.isNan = false)
    {aggregate : EventObservationAggregate} (found : collapse edges = some aggregate) :
    Summarizes edges aggregate := by
  cases edges with
  | nil => cases found
  | cons edge edges =>
    have first : Summarizes [edge] _ := observe_none edge
    obtain ⟨result, same, summarizes⟩ := foldl_observe edges numbers first
    rw [collapse, List.foldl_cons, same] at found
    cases found
    exact summarizes

theorem Summarizes.unique {edges edges' : List Edge} {aggregate aggregate' : EventObservationAggregate}
    (ordered : OrderedConfidences edges) (one : Summarizes edges aggregate)
    (other : Summarizes edges' aggregate') (same : ∀ edge, edge ∈ edges' ↔ edge ∈ edges) :
    aggregate' = aggregate := by
  have evidence : evidenceOf edges' = evidenceOf edges := by
    ext item
    simp only [evidenceOf, List.mem_toFinset, List.mem_flatMap, same]
  have status : aggregate'.status = aggregate.status := by
    apply severity_injective
    obtain ⟨edge, mem, is⟩ := one.status
    obtain ⟨edge', mem', is'⟩ := other.status
    apply Nat.le_antisymm
    · rw [is']
      exact one.conservative edge' ((same edge').mp mem')
    · rw [is]
      exact other.conservative edge ((same edge).mpr mem)
  have confidence : aggregate'.confidence = aggregate.confidence := by
    obtain ⟨edge, mem, is⟩ := one.confidence
    obtain ⟨edge', mem', is'⟩ := other.confidence
    have value : edge'.confidence.value = edge.confidence.value := by
      rw [← is, ← is']
      apply le_antisymm
      · rw [is]
        exact other.least edge ((same edge).mpr mem)
      · rw [is']
        exact one.least edge' ((same edge').mp mem')
    rw [is, is', ordered.antisymm edge' ((same edge').mp mem') edge mem value]
  have kept : aggregate'.evidence = aggregate.evidence := by
    have kept' := other.gathers.kept
    rw [evidence] at kept'
    exact elements_injective (kept'.unique one.gathers.kept)
  have truncated : aggregate'.evidenceTruncated = aggregate.evidenceTruncated := by
    rw [Bool.eq_iff_iff, other.gathers.truncated, one.gathers.truncated, evidence]
  cases aggregate
  cases aggregate'
  simp only at status confidence kept truncated
  rw [status, confidence, kept, truncated]

theorem collapse_perm {edges edges' : List Edge} (ordered : OrderedConfidences edges)
    (perm : edges'.Perm edges) : collapse edges' = collapse edges := by
  cases found : collapse edges with
  | none =>
    rw [collapse_eq_none] at found ⊢
    rw [found] at perm
    exact perm.eq_nil
  | some aggregate =>
    cases found' : collapse edges' with
    | none =>
      rw [collapse_eq_none] at found'
      rw [found'] at perm
      rw [perm.symm.eq_nil] at found
      cases found
    | some aggregate' =>
      have one := summarizes_collapse ordered.numbers found
      have other := summarizes_collapse (fun edge mem => ordered.numbers edge (perm.mem_iff.mp mem)) found'
      rw [one.unique ordered other fun edge => perm.mem_iff]

end Collapse

section Groups

variable (owners : BTreeMap NodeId RepoId) (channels : BTreeMap NodeId (String × Bool)) (kind : EdgeKind)

/-- The edges of a kind that start in an owned node and end in a channel, with the owners. -/
def contributions (edges : List Edge) : List (RepoId × Edge) :=
  edges.filterMap fun edge =>
    if edge.kind = kind ∧ edge.target ∈ channels then owners[edge.source]?.map (·, edge) else none

/-- The edges of a kind that join a repository and a channel. -/
def observations (edges : List Edge) (channel : NodeId) (repository : RepoId) : List Edge :=
  edges.filter fun edge => edge.kind = kind ∧ edge.target = channel ∧ channel ∈ channels ∧
    owners[edge.source]? = some repository

variable {owners channels kind}

theorem contributions_cons (edge : Edge) (edges : List Edge) :
    contributions owners channels kind (edge :: edges) =
      (if edge.kind = kind ∧ edge.target ∈ channels then (owners[edge.source]?.map (·, edge)).toList
        else []) ++ contributions owners channels kind edges := by
  by_cases fits : edge.kind = kind ∧ edge.target ∈ channels
  · cases owner : owners[edge.source]? <;> simp [contributions, fits, owner]
  · simp [contributions, fits]

theorem foldl_addEdge (edges : List Edge) (roles : EventRoles) :
    edges.foldl (addEdge owners channels) roles =
      ⟨(contributions owners channels .publishes edges).foldl addObservation roles.publishers,
        (contributions owners channels .subscribes edges).foldl addObservation roles.subscribers⟩ := by
  induction edges generalizing roles with
  | nil => rfl
  | cons edge edges ih =>
    rw [List.foldl_cons, ih, contributions_cons, contributions_cons, addEdge]
    by_cases publishes : edge.kind = .publishes ∧ edge.target ∈ channels
    · have other : ¬(edge.kind = .subscribes ∧ edge.target ∈ channels) := by
        rw [publishes.1]
        exact fun both => EdgeKind.noConfusion both.1
      rw [if_pos publishes, if_neg other]
      cases owner : owners[edge.source]? with
      | none => rfl
      | some repository =>
        simp only [if_pos publishes]
        rfl
    · rw [if_neg publishes]
      by_cases subscribes : edge.kind = .subscribes ∧ edge.target ∈ channels
      · rw [if_pos subscribes]
        cases owner : owners[edge.source]? with
        | none => rfl
        | some repository =>
          simp only [if_neg publishes, if_pos subscribes]
          rfl
      · rw [if_neg subscribes]
        cases owner : owners[edge.source]? with
        | none => rfl
        | some repository =>
          simp only [if_neg publishes, if_neg subscribes]
          rfl

theorem aggregate_uncancelled (calls : Nat) (edges : List Edge) (roles : EventRoles) :
    aggregateEventObservations owners channels (fun _ => false) calls edges roles =
      some (edges.foldl (addEdge owners channels) roles, calls + edges.length) := by
  induction edges generalizing calls roles with
  | nil => rfl
  | cons edge edges ih =>
    rw [aggregateEventObservations, if_neg Bool.false_ne_true, ih, List.foldl_cons, List.length_cons]
    rw [Nat.add_assoc, Nat.add_comm 1]

/-- A map of channels to repositories to aggregates, as it follows from the edges. -/
structure Grouped (edges : NodeId → RepoId → List Edge) (groups : EventObservationsByChannel) : Prop where
  inner : ∀ channel repositories, groups[channel]? = some repositories →
    ∀ repository, repositories[repository]? = collapse (edges channel repository)
  outer : ∀ channel, groups[channel]? = none ↔ ∀ repository, edges channel repository = []

theorem foldl_some {α β : Type} (f : β → α → β) (b : β) (l : List α) :
    l.foldl (fun found a => some (f (found.getD b) a)) none = if l = [] then none else some (l.foldl f b) := by
  have later : ∀ (l : List α) (b' : β),
      l.foldl (fun found a => some (f (found.getD b) a)) (some b') = some (l.foldl f b') := by
    intro l
    induction l with
    | nil => exact fun _ => rfl
    | cons a l ih => exact fun b' => ih (f b' a)
  cases l with
  | nil => rfl
  | cons a l =>
    rw [if_neg (List.cons_ne_nil a l), List.foldl_cons, List.foldl_cons]
    exact later l (f b a)

theorem contributions_group (edges : List Edge) (channel : NodeId) (repository : RepoId) :
    (((contributions owners channels kind edges).filter fun entry => entry.2.target = channel).filter
        fun entry => entry.1 = repository).map (·.2) =
      observations owners channels kind edges channel repository := by
  induction edges with
  | nil => rfl
  | cons edge edges ih =>
    rw [contributions_cons, List.filter_append, List.filter_append, List.map_append, ih, observations,
      observations, List.filter_cons]
    by_cases fits : edge.kind = kind ∧ edge.target ∈ channels
    · rw [if_pos fits]
      cases owner : owners[edge.source]? with
      | none => simp
      | some found =>
        by_cases here : edge.target = channel
        · have known := fits.2
          rw [here] at known
          by_cases own : found = repository
          · simp [here, own, fits.1, known]
          · simp [here, own]
        · simp [here]
    · rw [if_neg fits]
      have skip : ¬(edge.kind = kind ∧ edge.target = channel ∧ channel ∈ channels ∧
          owners[edge.source]? = some repository) := by
        rintro ⟨same, rfl, known, -⟩
        exact fits ⟨same, known⟩
      simp [skip]

theorem grouped_addObservation (edges : List Edge) :
    Grouped (observations owners channels kind edges)
      ((contributions owners channels kind edges).foldl addObservation ∅) := by
  have look : ∀ channel : NodeId,
      ((contributions owners channels kind edges).foldl addObservation ∅)[channel]? =
        if ((contributions owners channels kind edges).filter fun entry => entry.2.target = channel) = []
        then none
        else some (((contributions owners channels kind edges).filter
          fun entry => entry.2.target = channel).foldl (fun repositories entry =>
            repositories.alter entry.1 fun found => some (observe found entry.2)) ∅) := by
    intro channel
    rw [← foldl_some]
    have seen := getElem?_foldl_alter (K := NodeId) (fun entry : RepoId × Edge => entry.2.target)
      (fun repositories entry => some ((repositories.getD (∅ : BTreeMap RepoId EventObservationAggregate)).alter
        entry.1 fun found => some (observe found entry.2)))
      (contributions owners channels kind edges) ∅ channel
    rw [Std.ExtTreeMap.getElem?_empty] at seen
    exact seen
  have inside : ∀ (entries : List (RepoId × Edge)) (repository : RepoId),
      (entries.foldl (fun repositories entry =>
        repositories.alter entry.1 fun found => some (observe found entry.2))
          (∅ : BTreeMap RepoId EventObservationAggregate))[repository]? =
        collapse ((entries.filter fun entry => entry.1 = repository).map (·.2)) := by
    intro entries repository
    rw [getElem?_foldl_alter (K := RepoId) (fun entry : RepoId × Edge => entry.1)
      (fun found entry => some (observe found entry.2)) entries ∅ repository,
      Std.ExtTreeMap.getElem?_empty, collapse, List.foldl_map]
  refine ⟨fun channel repositories found repository => ?_, fun channel => ?_⟩
  · rw [look] at found
    split at found
    · cases found
    · cases found
      rw [inside, contributions_group]
  · rw [look]
    split
    · next empty =>
      refine iff_of_true rfl fun repository => ?_
      rw [← contributions_group, empty]
      rfl
    · next some =>
      refine iff_of_false (Option.some_ne_none _) fun none => ?_
      obtain ⟨entry, mem⟩ := List.exists_mem_of_ne_nil _ some
      have listed : entry.2 ∈ observations owners channels kind edges channel entry.1 := by
        rw [← contributions_group]
        exact List.mem_map_of_mem (List.mem_filter.mpr ⟨mem, decide_eq_true rfl⟩)
      rw [none] at listed
      exact absurd listed List.not_mem_nil

end Groups

section Pairs

variable {edges edges' : NodeId → RepoId → List Edge} {publishers subscribers : EventObservationsByChannel}

theorem Grouped.find (grouped : Grouped edges publishers) {channel : NodeId} {repository : RepoId}
    {aggregate : EventObservationAggregate} :
    (∃ repositories, publishers[channel]? = some repositories ∧
      repositories[repository]? = some aggregate) ↔ collapse (edges channel repository) = some aggregate := by
  constructor
  · intro ⟨repositories, found, here⟩
    rw [← grouped.inner channel repositories found]
    exact here
  · intro collapsed
    cases found : publishers[channel]? with
    | none =>
      rw [(grouped.outer channel).mp found repository] at collapsed
      cases collapsed
    | some repositories =>
      exact ⟨repositories, rfl, (grouped.inner channel repositories found repository).trans collapsed⟩

theorem Grouped.unique {publishers' : EventObservationsByChannel} (grouped : Grouped edges publishers)
    (grouped' : Grouped edges' publishers')
    (same : ∀ (channel : NodeId) (repository : RepoId),
      collapse (edges' channel repository) = collapse (edges channel repository)) :
    publishers' = publishers := by
  have empty : ∀ channel : NodeId, publishers'[channel]? = none ↔ publishers[channel]? = none := by
    intro channel
    simp only [grouped.outer, grouped'.outer, ← collapse_eq_none, same]
  refine Std.ExtTreeMap.ext_getElem? fun channel => ?_
  cases found : publishers[channel]? with
  | none => exact (empty channel).mpr found
  | some repositories =>
    cases found' : publishers'[channel]? with
    | none =>
      rw [(empty channel).mp found'] at found
      cases found
    | some repositories' =>
      refine congrArg some (Std.ExtTreeMap.ext_getElem? fun repository => ?_)
      rw [grouped'.inner channel repositories' found', grouped.inner channel repositories found, same]

theorem mem_channelPairs {entry : NodeId × BTreeMap RepoId EventObservationAggregate} {pair : EventPair} :
    pair ∈ channelPairs subscribers entry ↔ pair.channelId = entry.1 ∧
      entry.2[pair.publisherRepository]? = some pair.publisher ∧
      ∃ repositories, subscribers[entry.1]? = some repositories ∧
        repositories[pair.subscriberRepository]? = some pair.subscriber := by
  unfold channelPairs
  cases found : subscribers[entry.1]? with
  | none => simp
  | some repositories =>
    simp only [List.mem_flatMap, List.mem_map]
    constructor
    · rintro ⟨⟨publisher, aggregate⟩, held, ⟨subscriber, aggregate'⟩, held', rfl⟩
      exact ⟨rfl, Std.ExtTreeMap.mem_toList_iff_getElem?_eq_some.mp held, repositories, rfl,
        Std.ExtTreeMap.mem_toList_iff_getElem?_eq_some.mp held'⟩
    · rintro ⟨channel, held, _, same, held'⟩
      cases same
      exact ⟨(pair.publisherRepository, pair.publisher),
        Std.ExtTreeMap.mem_toList_iff_getElem?_eq_some.mpr held,
        (pair.subscriberRepository, pair.subscriber),
        Std.ExtTreeMap.mem_toList_iff_getElem?_eq_some.mpr held', by rw [← channel]⟩

theorem mem_eventPairs {pair : EventPair} : pair ∈ eventPairs publishers subscribers ↔
    (∃ repositories, publishers[pair.channelId]? = some repositories ∧
      repositories[pair.publisherRepository]? = some pair.publisher) ∧
    ∃ repositories, subscribers[pair.channelId]? = some repositories ∧
      repositories[pair.subscriberRepository]? = some pair.subscriber := by
  simp only [eventPairs, List.mem_flatMap, mem_channelPairs]
  constructor
  · rintro ⟨⟨channel, repositories⟩, listed, rfl, held, subscribed⟩
    exact ⟨⟨repositories, Std.ExtTreeMap.mem_toList_iff_getElem?_eq_some.mp listed, held⟩, subscribed⟩
  · rintro ⟨⟨repositories, listed, held⟩, subscribed⟩
    exact ⟨(pair.channelId, repositories), Std.ExtTreeMap.mem_toList_iff_getElem?_eq_some.mpr listed, rfl,
      held, subscribed⟩

def EventPair.place (pair : EventPair) : NodeId ×ₗ RepoId ×ₗ RepoId :=
  toLex (pair.channelId, toLex (pair.publisherRepository, pair.subscriberRepository))

theorem keys_lt {V : Type} (m : BTreeMap String V) : m.toList.Pairwise fun a b => a.1 < b.1 :=
  Std.ExtTreeMap.ordered_keys_toList.imp fun before => compare_lt_iff_lt.mp before

theorem place_lt {pair pair' : EventPair} : pair.place < pair'.place ↔
    pair.channelId < pair'.channelId ∨ pair.channelId = pair'.channelId ∧
      (pair.publisherRepository < pair'.publisherRepository ∨
        pair.publisherRepository = pair'.publisherRepository ∧
          pair.subscriberRepository < pair'.subscriberRepository) := by
  simp only [EventPair.place, Prod.Lex.toLex_lt_toLex]

theorem channelPairs_sorted (entry : NodeId × BTreeMap RepoId EventObservationAggregate) :
    (channelPairs subscribers entry).Pairwise fun a b => a.place < b.place := by
  unfold channelPairs
  cases subscribers[entry.1]? with
  | none => exact List.Pairwise.nil
  | some repositories =>
    rw [List.pairwise_flatMap]
    constructor
    · intro publisher _
      rw [List.pairwise_map]
      refine (keys_lt repositories).imp fun before => ?_
      exact place_lt.mpr (.inr ⟨rfl, .inr ⟨rfl, before⟩⟩)
    · refine (keys_lt entry.2).imp fun before x memx y memy => ?_
      obtain ⟨_, -, rfl⟩ := List.mem_map.mp memx
      obtain ⟨_, -, rfl⟩ := List.mem_map.mp memy
      exact place_lt.mpr (.inr ⟨rfl, .inl before⟩)

theorem eventPairs_sorted :
    (eventPairs publishers subscribers).Pairwise fun a b => a.place < b.place := by
  rw [eventPairs, List.pairwise_flatMap]
  refine ⟨fun entry _ => channelPairs_sorted entry, ?_⟩
  refine (keys_lt publishers).imp fun before x memx y memy => place_lt.mpr (.inl ?_)
  rw [(mem_channelPairs.mp memx).1, (mem_channelPairs.mp memy).1]
  exact before

theorem saturatingUsize_add (m n : Nat) :
    saturatingUsize (saturatingUsize m + saturatingUsize n) = saturatingUsize (m + n) := by
  unfold saturatingUsize
  omega

theorem totalPairs_eq :
    totalPairs publishers subscribers = saturatingUsize (eventPairs publishers subscribers).length := by
  have count : ∀ (entries : List (NodeId × BTreeMap RepoId EventObservationAggregate)) (total : Nat),
      (entries.filterMap fun entry => subscribers[entry.1]?.map fun repositories =>
        saturatingUsize (entry.2.size * repositories.size)).foldl
          (fun total pairs => saturatingUsize (total + pairs)) (saturatingUsize total) =
        saturatingUsize (total + (entries.flatMap (channelPairs subscribers)).length) := by
    intro entries
    induction entries with
    | nil => exact fun total => rfl
    | cons entry entries ih =>
      intro total
      rw [List.filterMap_cons, List.flatMap_cons, List.length_append, channelPairs]
      cases subscribers[entry.1]? with
      | none =>
        rw [Option.map_none]
        simpa using ih total
      | some repositories =>
        rw [Option.map_some]
        simp only [List.foldl_cons, saturatingUsize_add, ih]
        rw [List.length_flatMap]
        simp [Nat.add_assoc]
  have counted := count publishers.toList 0
  rw [Nat.zero_add] at counted
  exact counted

end Pairs

section Join

variable {channels : BTreeMap NodeId (String × Bool)}

theorem joinPairs_uncancelled {limit total calls : Nat} (pairs : List EventPair)
    {deliveries : List EventDeliveryProjection} (room : deliveries.length ≤ limit)
    (counted : total = saturatingUsize (deliveries.length + pairs.length)) :
    joinPairs channels (fun _ => false) limit total calls pairs deliveries =
      ⟨deliveries ++ (pairs.take (limit - deliveries.length)).map (delivery channels), total,
        decide (limit < deliveries.length + pairs.length), false⟩ := by
  induction pairs generalizing calls deliveries with
  | nil =>
    have bound : ¬deliveries.length < total := by
      rw [counted, saturatingUsize]
      simp
    have within : ¬limit < deliveries.length := Nat.not_lt.mpr room
    simp [joinPairs, bound, within]
  | cons pair pairs ih =>
    rw [joinPairs, if_neg Bool.false_ne_true]
    by_cases full : deliveries.length = limit
    · rw [if_pos full, full, Nat.sub_self]
      simp
    · rw [if_neg full]
      have room' : (deliveries ++ [delivery channels pair]).length ≤ limit := by
        rw [List.length_append, List.length_singleton]
        omega
      have length : (deliveries ++ [delivery channels pair]).length + pairs.length =
          deliveries.length + (pair :: pairs).length := by
        rw [List.length_append, List.length_singleton, List.length_cons]
        omega
      have counted' : total = saturatingUsize
          ((deliveries ++ [delivery channels pair]).length + pairs.length) := by rw [length, counted]
      have more : limit - deliveries.length =
          limit - (deliveries ++ [delivery channels pair]).length + 1 := by
        rw [List.length_append, List.length_singleton]
        omega
      rw [ih room' counted', length, more, List.take_succ_cons, List.map_cons, List.append_assoc]
      rfl

theorem firstEvidence_overflows (items : List EvidenceId) {evidence : List EvidenceId}
    (nodup : evidence.Nodup) (short : evidence.length ≤ eventDeliveryEvidenceLimit) :
    eventDeliveryEvidenceLimit < (firstEvidence evidence items).length ↔
      eventDeliveryEvidenceLimit < (evidence ++ items).toFinset.card := by
  induction items generalizing evidence with
  | nil =>
    rw [firstEvidence, List.append_nil, List.toFinset_card_of_nodup nodup]
  | cons item items ih =>
    by_cases known : item ∈ evidence
    · have same : (evidence ++ item :: items).toFinset = (evidence ++ items).toFinset := by
        ext other
        simp only [List.mem_toFinset, List.mem_append, List.mem_cons]
        constructor
        · rintro (old | rfl | new)
          · exact .inl old
          · exact .inl known
          · exact .inr new
        · rintro (old | new)
          · exact .inl old
          · exact .inr (.inr new)
      simp only [firstEvidence, if_pos known, if_neg (Nat.not_lt.mpr short)]
      rw [ih nodup short, same]
    · have nodup' : (evidence ++ [item]).Nodup :=
        List.nodup_append.mpr ⟨nodup, List.nodup_singleton item, fun a old b new same => by
          rw [List.mem_singleton] at new
          exact known (new ▸ same ▸ old)⟩
      simp only [firstEvidence, if_neg known]
      by_cases excess : eventDeliveryEvidenceLimit < (evidence ++ [item]).length
      · rw [if_pos excess]
        refine iff_of_true excess (excess.trans_le ?_)
        have grown : (evidence ++ [item]).toFinset ⊆ (evidence ++ item :: items).toFinset := by
          intro other mem
          rw [List.mem_toFinset] at mem ⊢
          rw [List.append_cons]
          exact List.mem_append_left _ mem
        rw [← List.toFinset_card_of_nodup nodup']
        exact Finset.card_le_card grown
      · rw [if_neg excess, ih nodup' (Nat.le_of_not_lt excess), ← List.append_cons]

theorem union_firsts (evidence evidence' : BTreeSet EvidenceId) :
    (evidence.min?.toList ++ evidence'.min?.toList ++ (evidence ∪ evidence').toList).toFinset =
      elements evidence ∪ elements evidence' := by
  ext item
  simp only [List.mem_toFinset, List.mem_append, Option.mem_toList, Std.ExtTreeSet.mem_toList,
    Std.ExtTreeSet.mem_union_iff, Finset.mem_union, mem_elements]
  constructor
  · rintro ((first | first) | both)
    · exact .inl (Std.ExtTreeSet.min?_mem first)
    · exact .inr (Std.ExtTreeSet.min?_mem first)
    · exact both
  · exact .inr

end Join

section Statement

variable (nodes : List Node) (owners : BTreeMap NodeId RepoId) (edges : List Edge)

/-- The last event channel with the identifier. -/
def channelOf (channel : NodeId) : Option Node :=
  (nodes.filter fun node => node.kind = .eventChannel ∧ node.id = channel).getLast?

/-- The edge is an observation of the given kind in the repository, about the channel. -/
def Observes (kind : EdgeKind) (channel : NodeId) (repository : RepoId) (edge : Edge) : Prop :=
  edge.kind = kind ∧ edge.target = channel ∧ owners[edge.source]? = some repository ∧
    ∃ node ∈ nodes, node.kind = .eventChannel ∧ node.id = channel

instance (kind : EdgeKind) (channel : NodeId) (repository : RepoId) (edge : Edge) :
    Decidable (Observes nodes owners kind channel repository edge) := inferInstanceAs (Decidable (_ ∧ _))

def Delivers (channel : NodeId) (publisher subscriber : RepoId) : Prop :=
  (∃ edge ∈ edges, Observes nodes owners .publishes channel publisher edge) ∧
    ∃ edge ∈ edges, Observes nodes owners .subscribes channel subscriber edge

/-- The edge contributes to the delivery at one of its ends. -/
def Supports (delivery : EventDeliveryProjection) (edge : Edge) : Prop :=
  Observes nodes owners .publishes delivery.channelId delivery.publisherRepository edge ∨
    Observes nodes owners .subscribes delivery.channelId delivery.subscriberRepository edge

instance (delivery : EventDeliveryProjection) (edge : Edge) :
    Decidable (Supports nodes owners delivery edge) := inferInstanceAs (Decidable (_ ∨ _))

/-- A delivery says what the edges that contribute to it say together. -/
structure Supported (delivery : EventDeliveryProjection) : Prop where
  channel : ∃ node, channelOf nodes delivery.channelId = some node ∧
    delivery.channelLabel = node.label ∧ delivery.namespaceKnown = eventChannelHasNamespace node
  status : IsGreatest
    {n | (∃ edge ∈ edges, Supports nodes owners delivery edge ∧ severity edge.status = n) ∨
      delivery.namespaceKnown = false ∧ severity .ambiguous = n} (severity delivery.status)
  confidence : IsLeast
    {v | (∃ edge ∈ edges, Supports nodes owners delivery edge ∧ edge.confidence.value = v) ∨
      delivery.namespaceKnown = false ∧ (Binary.ofDyadic 1 1 : F32).value = v} delivery.confidence.value
  evidence : delivery.evidenceTruncated = true ↔
    eventDeliveryEvidenceLimit < (evidenceOf (edges.filter (Supports nodes owners delivery))).card

def EventDeliveryProjection.place (delivery : EventDeliveryProjection) : NodeId ×ₗ RepoId ×ₗ RepoId :=
  toLex (delivery.channelId, toLex (delivery.publisherRepository, delivery.subscriberRepository))

/-- The report of the join of single observations: all deliveries in order, of which the
first are kept. -/
structure NaiveJoin (limit : Nat) (report : EventDeliveryProjectionReport) : Prop where
  deliveries : ∃ all : List (NodeId ×ₗ RepoId ×ₗ RepoId), all.Pairwise (· < ·) ∧
    (∀ channel publisher subscriber, toLex (channel, toLex (publisher, subscriber)) ∈ all ↔
      Delivers nodes owners edges channel publisher subscriber) ∧
    report.deliveries.map (·.place) = all.take limit ∧ report.total = saturatingUsize all.length ∧
    (report.truncated = true ↔ limit < all.length)
  supported : ∀ delivery ∈ report.deliveries, Supported nodes owners edges delivery
  completed : report.cancelled = false

end Statement

section Result

variable {nodes : List Node} {owners : BTreeMap NodeId RepoId} {edges : List Edge}

theorem eventChannels_look (channel : NodeId) : (eventChannels nodes)[channel]? =
    (channelOf nodes channel).map fun node => (node.label, eventChannelHasNamespace node) := by
  have same : (nodes.filter (·.kind = .eventChannel)).filter (fun node => node.id = channel) =
      nodes.filter fun node => node.kind = .eventChannel ∧ node.id = channel := by
    rw [List.filter_filter]
    exact List.filter_congr fun node _ => by simp [and_comm]
  rw [eventChannels, getElem?_foldl_insert, same, Std.ExtTreeMap.getElem?_empty, Option.or_none]
  rfl

theorem mem_eventChannels {channel : NodeId} : channel ∈ eventChannels nodes ↔
    ∃ node ∈ nodes, node.kind = .eventChannel ∧ node.id = channel := by
  rw [Std.ExtTreeMap.mem_iff_isSome_getElem?, eventChannels_look, Option.isSome_map, channelOf,
    List.getLast?_isSome, Ne, List.filter_eq_nil_iff]
  simp

theorem mem_observations {kind : EdgeKind} {channel : NodeId} {repository : RepoId} {edge : Edge} :
    edge ∈ observations owners (eventChannels nodes) kind edges channel repository ↔
      edge ∈ edges ∧ Observes nodes owners kind channel repository edge := by
  simp only [observations, List.mem_filter, decide_eq_true_eq, mem_eventChannels, Observes]
  exact and_congr_right' (and_congr_right' (and_congr_right' and_comm))

theorem exists_collapse {kind : EdgeKind} {channel : NodeId} {repository : RepoId} :
    (∃ aggregate, collapse (observations owners (eventChannels nodes) kind edges channel repository) =
      some aggregate) ↔ ∃ edge ∈ edges, Observes nodes owners kind channel repository edge := by
  rw [← Option.isSome_iff_exists, ← Option.ne_none_iff_isSome, Ne, collapse_eq_none]
  constructor
  · intro some
    obtain ⟨edge, mem⟩ := List.exists_mem_of_ne_nil _ some
    obtain ⟨listed, observes⟩ := mem_observations.mp mem
    exact ⟨edge, listed, observes⟩
  · intro ⟨edge, listed, observes⟩ none
    have mem := mem_observations.mpr ⟨listed, observes⟩
    rw [none] at mem
    exact absurd mem List.not_mem_nil

theorem delivery_cap {pair : EventPair} {node : Node}
    (found : channelOf nodes pair.channelId = some node)
    (publisher : pair.publisher.confidence.isNan = false)
    (subscriber : pair.subscriber.confidence.isNan = false) :
    let projection := delivery (eventChannels nodes) pair
    let observed := max (severity pair.publisher.status) (severity pair.subscriber.status)
    let confidence := min pair.publisher.confidence.value pair.subscriber.confidence.value
    projection.channelLabel = node.label ∧ projection.namespaceKnown = eventChannelHasNamespace node ∧
      (eventChannelHasNamespace node = true → severity projection.status = observed ∧
        projection.confidence.value = confidence) ∧
      (eventChannelHasNamespace node = false →
        severity projection.status = max observed (severity .ambiguous) ∧
        projection.confidence.value = min confidence (Binary.ofDyadic 1 1 : F32).value) := by
  have look : (eventChannels nodes)[pair.channelId]? = _ := eventChannels_look pair.channelId
  rw [found, Option.map_some] at look
  have half : (Binary.ofDyadic 1 1 : F32).isNan = false := by decide
  have both : (Binary.min pair.publisher.confidence pair.subscriber.confidence).isNan = false := by
    rw [Binary.isNan_min, publisher]
    rfl
  simp only [delivery, look, Option.getD_some]
  refine ⟨trivial, trivial, fun known => ?_, fun unknown => ?_⟩
  · rw [if_pos known, if_pos known, severity_conservativeStatus, Binary.value_min publisher subscriber]
    exact ⟨rfl, rfl⟩
  · rw [unknown, if_neg Bool.false_ne_true, if_neg Bool.false_ne_true, severity_conservativeStatus,
      severity_conservativeStatus, Binary.value_min both half, Binary.value_min publisher subscriber]
    exact ⟨rfl, rfl⟩

theorem Summarizes.isGreatest {observed : List Edge} {aggregate : EventObservationAggregate}
    (summarizes : Summarizes observed aggregate) :
    IsGreatest ((fun edge : Edge => severity edge.status) '' {edge | edge ∈ observed})
      (severity aggregate.status) := by
  obtain ⟨edge, mem, same⟩ := summarizes.status
  refine ⟨⟨edge, mem, congrArg severity same.symm⟩, ?_⟩
  rintro n ⟨other, mem', rfl⟩
  exact summarizes.conservative other mem'

theorem Summarizes.isLeast {observed : List Edge} {aggregate : EventObservationAggregate}
    (summarizes : Summarizes observed aggregate) :
    IsLeast ((fun edge : Edge => edge.confidence.value) '' {edge | edge ∈ observed})
      aggregate.confidence.value := by
  obtain ⟨edge, mem, same⟩ := summarizes.confidence
  refine ⟨⟨edge, mem, congrArg Binary.value same.symm⟩, ?_⟩
  rintro v ⟨other, mem', rfl⟩
  exact summarizes.least other mem'

theorem mem_supporting {pair : EventPair} {edge : Edge} :
    edge ∈ edges.filter (Supports nodes owners (delivery (eventChannels nodes) pair)) ↔
      edge ∈ observations owners (eventChannels nodes) .publishes edges pair.channelId
          pair.publisherRepository ∨
        edge ∈ observations owners (eventChannels nodes) .subscribes edges pair.channelId
          pair.subscriberRepository := by
  rw [List.mem_filter, decide_eq_true_eq, mem_observations, mem_observations, ← and_or_left]
  rfl

theorem supported_values {β : Type} (say : Edge → β) (cap : β) (pair : EventPair) :
    {b | (∃ edge ∈ edges, Supports nodes owners (delivery (eventChannels nodes) pair) edge ∧ say edge = b) ∨
        (delivery (eventChannels nodes) pair).namespaceKnown = false ∧ cap = b} =
      (say '' {edge | edge ∈ observations owners (eventChannels nodes) .publishes edges pair.channelId
          pair.publisherRepository} ∪
        say '' {edge | edge ∈ observations owners (eventChannels nodes) .subscribes edges pair.channelId
          pair.subscriberRepository}) ∪
        if (delivery (eventChannels nodes) pair).namespaceKnown then ∅ else {cap} := by
  ext b
  have ends : (∃ edge ∈ edges, Supports nodes owners (delivery (eventChannels nodes) pair) edge ∧
      say edge = b) ↔ b ∈ say '' {edge | edge ∈ observations owners (eventChannels nodes) .publishes edges
          pair.channelId pair.publisherRepository} ∪
        say '' {edge | edge ∈ observations owners (eventChannels nodes) .subscribes edges pair.channelId
          pair.subscriberRepository} := by
    rw [← Set.image_union]
    constructor
    · intro ⟨edge, listed, supports, same⟩
      exact ⟨edge, mem_supporting.mp (List.mem_filter.mpr ⟨listed, decide_eq_true supports⟩), same⟩
    · intro ⟨edge, mem, same⟩
      obtain ⟨listed, supports⟩ := List.mem_filter.mp (mem_supporting.mpr mem)
      exact ⟨edge, listed, of_decide_eq_true supports, same⟩
  rw [Set.mem_union, ← ends]
  cases (delivery (eventChannels nodes) pair).namespaceKnown with
  | true => simp
  | false => simp [eq_comm]

theorem delivery_supported {pair : EventPair}
    (publisher : Summarizes (observations owners (eventChannels nodes) .publishes edges pair.channelId
      pair.publisherRepository) pair.publisher)
    (subscriber : Summarizes (observations owners (eventChannels nodes) .subscribes edges pair.channelId
      pair.subscriberRepository) pair.subscriber)
    (numbers : ∀ edge ∈ edges, edge.confidence.isNan = false) :
    Supported nodes owners edges (delivery (eventChannels nodes) pair) := by
  have number : pair.publisher.confidence.isNan = false := by
    obtain ⟨edge, mem, same⟩ := publisher.confidence
    rw [same]
    exact numbers edge (mem_observations.mp mem).1
  have number' : pair.subscriber.confidence.isNan = false := by
    obtain ⟨edge, mem, same⟩ := subscriber.confidence
    rw [same]
    exact numbers edge (mem_observations.mp mem).1
  have known : ∃ node, channelOf nodes pair.channelId = some node := by
    obtain ⟨edge, mem, -⟩ := publisher.status
    have declared := mem_eventChannels.mpr (mem_observations.mp mem).2.2.2.2
    rw [Std.ExtTreeMap.mem_iff_isSome_getElem?, eventChannels_look, Option.isSome_map] at declared
    exact Option.isSome_iff_exists.mp declared
  obtain ⟨node, found⟩ := known
  obtain ⟨label, namespaceKnown, plain, capped⟩ := delivery_cap found number number'
  refine ⟨⟨node, found, label, namespaceKnown⟩, ?_, ?_, ?_⟩
  · have greatest := publisher.isGreatest.union subscriber.isGreatest
    rw [supported_values (fun edge => severity edge.status)]
    cases named : eventChannelHasNamespace node with
    | true =>
      rw [(plain named).1, namespaceKnown, named, if_pos rfl, Set.union_empty]
      exact greatest
    | false =>
      rw [(capped named).1, namespaceKnown, named, if_neg Bool.false_ne_true]
      exact greatest.union isGreatest_singleton
  · have least := publisher.isLeast.union subscriber.isLeast
    rw [supported_values (fun edge => edge.confidence.value)]
    cases named : eventChannelHasNamespace node with
    | true =>
      rw [(plain named).2, namespaceKnown, named, if_pos rfl, Set.union_empty]
      exact least
    | false =>
      rw [(capped named).2, namespaceKnown, named, if_neg Bool.false_ne_true]
      exact least.union isLeast_singleton
  · have union : evidenceOf (edges.filter (Supports nodes owners (delivery (eventChannels nodes) pair))) =
        evidenceOf (observations owners (eventChannels nodes) .publishes edges pair.channelId
          pair.publisherRepository) ∪
        evidenceOf (observations owners (eventChannels nodes) .subscribes edges pair.channelId
          pair.subscriberRepository) := by
      ext item
      simp only [evidenceOf, List.mem_toFinset, List.mem_flatMap, Finset.mem_union, mem_supporting,
        or_and_right, exists_or]
    have overflow := firstEvidence_overflows (pair.publisher.evidence.min?.toList ++
      pair.subscriber.evidence.min?.toList ++
      (pair.publisher.evidence ∪ pair.subscriber.evidence).toList)
      (List.nodup_nil : ([] : List EvidenceId).Nodup) (Nat.zero_le _)
    rw [List.nil_append, union_firsts] at overflow
    rw [union, publisher.gathers.kept.union_overflows subscriber.gathers.kept, ← overflow,
      ← publisher.gathers.truncated, ← subscriber.gathers.truncated]
    simp only [delivery, Bool.or_eq_true, decide_eq_true_eq, or_assoc]

/-- The aggregates of a role, channel by channel. -/
def groups (nodes : List Node) (owners : BTreeMap NodeId RepoId) (kind : EdgeKind) (edges : List Edge) :
    EventObservationsByChannel :=
  (contributions owners (eventChannels nodes) kind edges).foldl addObservation ∅

theorem grouped_groups (kind : EdgeKind) : Grouped
    (observations owners (eventChannels nodes) kind edges) (groups nodes owners kind edges) :=
  grouped_addObservation edges

theorem project_eq (limit : Nat) :
    projectEventDeliveriesBounded (fun _ => false) nodes edges owners limit =
      let pairs := eventPairs (groups nodes owners .publishes edges) (groups nodes owners .subscribes edges)
      ⟨(pairs.take limit).map (delivery (eventChannels nodes)), saturatingUsize pairs.length,
        decide (limit < pairs.length), false⟩ := by
  simp only [projectEventDeliveriesBounded, aggregate_uncancelled, foldl_addEdge, joinEventObservations]
  rw [joinPairs_uncancelled _ (Nat.zero_le _) (by rw [totalPairs_eq, List.length_nil, Nat.zero_add]),
    totalPairs_eq]
  simp only [groups, List.nil_append, List.length_nil, Nat.sub_zero, Nat.zero_add,
    EventDeliveryProjectionReport.mk.injEq, true_and, and_true]
  exact decide_eq_decide.mpr Iff.rfl

theorem pair_iff {pair : EventPair} : pair ∈ eventPairs (groups nodes owners .publishes edges)
      (groups nodes owners .subscribes edges) ↔
    collapse (observations owners (eventChannels nodes) .publishes edges pair.channelId
      pair.publisherRepository) = some pair.publisher ∧
    collapse (observations owners (eventChannels nodes) .subscribes edges pair.channelId
      pair.subscriberRepository) = some pair.subscriber := by
  rw [mem_eventPairs, (grouped_groups .publishes).find, (grouped_groups .subscribes).find]

theorem groups_perm {edges' : List Edge} (ordered : OrderedConfidences edges) (perm : edges'.Perm edges)
    (kind : EdgeKind) : groups nodes owners kind edges' = groups nodes owners kind edges := by
  refine (grouped_groups kind).unique (grouped_groups kind) fun channel repository => ?_
  have subset : observations owners (eventChannels nodes) kind edges channel repository ⊆ edges :=
    List.filter_subset_self _
  refine collapse_perm ⟨fun edge mem => ordered.numbers edge (subset mem), ?_⟩ (perm.filter _)
  exact fun edge mem other mem' => ordered.antisymm edge (subset mem) other (subset mem')

theorem projectEventDeliveries_joins (nodes : List Node) (edges : List Edge)
    (owners : BTreeMap NodeId RepoId) (limit : Nat) (ordered : OrderedConfidences edges) :
    NaiveJoin nodes owners edges limit
        (projectEventDeliveriesBounded (fun _ => false) nodes edges owners limit) ∧
      ∀ edges', edges'.Perm edges →
        projectEventDeliveriesBounded (fun _ => false) nodes edges' owners limit =
          projectEventDeliveriesBounded (fun _ => false) nodes edges owners limit := by
  refine ⟨?_, fun edges' perm => ?_⟩
  · rw [project_eq]
    refine ⟨⟨(eventPairs (groups nodes owners .publishes edges)
      (groups nodes owners .subscribes edges)).map (·.place), ?_, ?_, ?_, ?_, ?_⟩, ?_, rfl⟩
    · exact List.pairwise_map.mpr eventPairs_sorted
    · intro channel publisher subscriber
      rw [Delivers, ← exists_collapse, ← exists_collapse, List.mem_map]
      constructor
      · rintro ⟨pair, mem, place⟩
        obtain ⟨left, right⟩ := pair_iff.mp mem
        cases place
        exact ⟨⟨_, left⟩, _, right⟩
      · rintro ⟨⟨aggregate, left⟩, aggregate', right⟩
        exact ⟨⟨channel, publisher, aggregate, subscriber, aggregate'⟩, pair_iff.mpr ⟨left, right⟩, rfl⟩
    · simp only [List.map_map, List.map_take]
      rfl
    · rw [List.length_map]
    · rw [List.length_map, decide_eq_true_eq]
    · intro projection mem
      obtain ⟨pair, kept, rfl⟩ := List.mem_map.mp mem
      obtain ⟨left, right⟩ := pair_iff.mp (List.mem_of_mem_take kept)
      refine delivery_supported (summarizes_collapse ?_ left) (summarizes_collapse ?_ right) ordered.numbers
      · exact fun edge mem => ordered.numbers edge (mem_observations.mp mem).1
      · exact fun edge mem => ordered.numbers edge (mem_observations.mp mem).1
  · rw [project_eq, project_eq, groups_perm ordered perm, groups_perm ordered perm]

def ordersChannel : Node where
  id := "channel"
  kind := .eventChannel
  repoId := none
  stableKey := "event:Kafka:prod:orders"
  label := "orders"

def orderEdge (source : NodeId) (kind : EdgeKind) (confidence : F32) : Edge where
  id := source ++ "-edge"
  source := source
  target := "channel"
  kind := kind
  confidence := confidence
  status := .inferred
  evidence := [source ++ "-evidence"]

def orderEdges : List Edge :=
  [orderEdge "producer" .publishes (.ofNat 1), orderEdge "consumer" .subscribes (.ofDyadic 3 2)]

def orderOwners : BTreeMap NodeId RepoId := .ofList [("producer", "shop"), ("consumer", "billing")] compare

theorem projectEventDeliveries_joins_orders :
    OrderedConfidences orderEdges ∧ NaiveJoin [ordersChannel] orderOwners orderEdges 10
      (projectEventDeliveriesBounded (fun _ => false) [ordersChannel] orderEdges orderOwners 10) := by
  have ordered : OrderedConfidences orderEdges := ⟨by decide, by decide⟩
  exact ⟨ordered, (projectEventDeliveries_joins [ordersChannel] orderEdges orderOwners 10 ordered).1⟩

end Result
end CodeSystemGraph.Events
