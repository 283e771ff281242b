import CodeSystemGraph.CommunityDescription
import Mathlib.Data.List.Lex

/-! The comparison of two community snapshots: splits and merges first, then a greedy matching of
what is left, then what was not matched. Overlaps are exact. -/

namespace CodeSystemGraph.Communities
open Model Ordered

inductive CommunityChangeKind
  | created | removed | split | merged | materiallyChanged
deriving DecidableEq

structure CommunityChange where
  kind : CommunityChangeKind
  before : List CommunityId
  after : List CommunityId
  overlap : ℚ
  explanation : String
deriving DecidableEq

structure CommunityDelta where
  beforeSnapshotId : String
  afterSnapshotId : String
  changes : List CommunityChange
deriving DecidableEq

def relatedOverlap : ℚ := 25 / 100

def stableOverlap : ℚ := 80 / 100

section Overlaps

abbrev Overlaps := List ((Nat × Nat) × ℚ)

def memberOverlap (old new : Community) : ℚ :=
  let intersection := (old.members.toFinset ∩ new.members.toFinset).card
  let union := (old.members.toFinset ∪ new.members.toFinset).card
  if union = 0 then 1 else (intersection : ℚ) / (union : ℚ)

def overlapMatrix (before after : List Community) : Overlaps :=
  before.zipIdx.flatMap fun old => after.zipIdx.map fun new =>
    ((old.2, new.2), memberOverlap old.1 new.1)

def relatedAfter (overlaps : Overlaps) (beforeCount afterCount : Nat) : List (List Nat) :=
  (List.range beforeCount).map fun before => (List.range afterCount).filter fun after =>
    (overlaps.lookup (before, after)).any fun overlap => relatedOverlap ≤ overlap

def relatedBefore (overlaps : Overlaps) (beforeCount afterCount : Nat) : List (List Nat) :=
  (List.range afterCount).map fun after => (List.range beforeCount).filter fun before =>
    (overlaps.lookup (before, after)).any fun overlap => relatedOverlap ≤ overlap

end Overlaps

section Changes

variable (before after : List Community) (overlaps : Overlaps)

def communityId (communities : List Community) (index : Nat) : CommunityId :=
  (communities[index]?.map Community.id).getD ""

def maximumOverlap (related : List Nat) (key : Nat → Nat × Nat) : ℚ :=
  (related.filterMap fun index => overlaps.lookup (key index)).foldl max 0

def splitChange (beforeIndex : Nat) (related : List Nat) : CommunityChange where
  kind := .split
  before := [communityId before beforeIndex]
  after := related.map (communityId after)
  overlap := maximumOverlap overlaps related fun index => (beforeIndex, index)
  explanation := "One prior community overlaps " ++ toString related.length ++
    " successor communities at or above 0.25."

def mergeChange (afterIndex : Nat) (related : List Nat) : CommunityChange where
  kind := .merged
  before := related.map (communityId before)
  after := [communityId after afterIndex]
  overlap := maximumOverlap overlaps related fun index => (index, afterIndex)
  explanation := toString related.length ++
    " prior communities overlap one successor at or above 0.25."

/-- `{:.3}` of a value that is not negative: half a thousandth goes to the even neighbour. -/
def fixedThousandths (value : ℚ) : String :=
  let whole := (1000 * value).floor.toNat
  let rest := 1000 * value - whole
  let rounded := if rest < 1 / 2 ∨ (rest = 1 / 2 ∧ whole % 2 = 0) then whole else whole + 1
  let digits := toString (rounded % 1000)
  toString (rounded / 1000) ++ "." ++ String.ofList (List.replicate (3 - digits.length) '0') ++ digits

def materialChange (pair : Nat × Nat) (overlap : ℚ) : CommunityChange where
  kind := .materiallyChanged
  before := [communityId before pair.1]
  after := [communityId after pair.2]
  overlap := overlap
  explanation := "Best one-to-one member overlap is " ++ fixedThousandths overlap ++
    ", below the stable threshold 0.80."

def removedChange (index : Nat) : CommunityChange where
  kind := .removed
  before := [communityId before index]
  after := []
  overlap := 0
  explanation := "No successor community reaches the related-overlap threshold 0.25."

def createdChange (index : Nat) : CommunityChange where
  kind := .created
  before := []
  after := [communityId after index]
  overlap := 0
  explanation := "No prior community reaches the related-overlap threshold 0.25."

end Changes

section Classification

/-- The changes so far, with the communities of either side that they have used up. -/
structure Classified where
  changes : List CommunityChange
  matchedBefore : Finset Nat
  matchedAfter : Finset Nat

variable (before after : List Community) (overlaps : Overlaps)

def classifySplit (s : Classified) (entry : List Nat × Nat) : Classified :=
  if 2 ≤ entry.1.length then
    { changes := s.changes ++ [splitChange before after overlaps entry.2 entry.1]
      matchedBefore := insert entry.2 s.matchedBefore
      matchedAfter := s.matchedAfter ∪ entry.1.toFinset }
  else s

def classifyMerge (s : Classified) (entry : List Nat × Nat) : Classified :=
  if 2 ≤ entry.1.length then
    { changes := s.changes ++ [mergeChange before after overlaps entry.2 entry.1]
      matchedBefore := s.matchedBefore ∪ entry.1.toFinset
      matchedAfter := insert entry.2 s.matchedAfter }
  else s

def classifyStructuralChanges (beforeRelated afterRelated : List (List Nat)) : Classified :=
  afterRelated.zipIdx.foldl (classifyMerge before after overlaps)
    (beforeRelated.zipIdx.foldl (classifySplit before after overlaps) ⟨[], ∅, ∅⟩)

def candidateOrder (entry : (Nat × Nat) × ℚ) : ℚᵒᵈ ×ₗ CommunityId ×ₗ CommunityId :=
  toLex (OrderDual.toDual entry.2, toLex (communityId before entry.1.1, communityId after entry.1.2))

def classifyPair (s : Classified) (entry : (Nat × Nat) × ℚ) : Classified :=
  if entry.1.1 ∈ s.matchedBefore ∨ entry.1.2 ∈ s.matchedAfter then s
  else
    { changes := if entry.2 + epsilon < stableOverlap then
        s.changes ++ [materialChange before after entry.1 entry.2] else s.changes
      matchedBefore := insert entry.1.1 s.matchedBefore
      matchedAfter := insert entry.1.2 s.matchedAfter }

def pairCandidates : Overlaps :=
  sortBy (candidateOrder before after) (overlaps.filter fun entry => relatedOverlap ≤ entry.2)

def classifyPairwiseChanges (s : Classified) : Classified :=
  (pairCandidates before after overlaps).foldl (classifyPair before after) s

def classifyUnmatched (s : Classified) : List CommunityChange :=
  s.changes ++
    ((List.range before.length).filter fun index => index ∉ s.matchedBefore).map
      (removedChange before) ++
    ((List.range after.length).filter fun index => index ∉ s.matchedAfter).map (createdChange after)

def changeKindIndex : CommunityChangeKind → Nat
  | .created => 0
  | .removed => 1
  | .split => 2
  | .merged => 3
  | .materiallyChanged => 4

def compareChanges (change : CommunityChange) :
    Nat ×ₗ List CommunityId ×ₗ List CommunityId ×ₗ ℚ ×ₗ String :=
  toLex (changeKindIndex change.kind, toLex (change.before, toLex (change.after,
    toLex (change.overlap, change.explanation))))

end Classification

def compareCommunitySnapshots (before after : CommunitySnapshot) : CommunityDelta :=
  let overlaps := overlapMatrix before.communities after.communities
  let beforeRelated := relatedAfter overlaps before.communities.length after.communities.length
  let afterRelated := relatedBefore overlaps before.communities.length after.communities.length
  let classified := classifyPairwiseChanges before.communities after.communities overlaps
    (classifyStructuralChanges before.communities after.communities overlaps beforeRelated
      afterRelated)
  { beforeSnapshotId := before.snapshotId
    afterSnapshotId := after.snapshotId
    changes := sortBy compareChanges
      (classifyUnmatched before.communities after.communities classified) }


end CodeSystemGraph.Communities
