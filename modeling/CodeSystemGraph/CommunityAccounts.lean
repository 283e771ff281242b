import CodeSystemGraph.CommunityChanges
import CodeSystemGraph.Pairing
import Mathlib.Data.List.ProdSigma
import Mathlib.Tactic.NormNum

/-! Every community is accounted for in the comparison of two snapshots. Splits and merges leave
over communities that are related to at most one community of the other side, so the greedy
matching that follows has no choice. -/

namespace CodeSystemGraph.Communities
open Model Ordered Pairing

section Relation

variable (before after : List Community)

def overlapAt (pair : Nat × Nat) : Option ℚ :=
  before[pair.1]?.bind fun old => after[pair.2]?.map (memberOverlap old)

def related (pair : Nat × Nat) : Bool :=
  (overlapAt before after pair).any fun overlap => relatedOverlap ≤ overlap

def successors (index : Nat) : List Nat :=
  (List.range after.length).filter fun other => related before after (index, other)

def predecessors (index : Nat) : List Nat :=
  (List.range before.length).filter fun other => related before after (other, index)

/-- The pairs that are related to each other only. -/
def continued : List (Nat × Nat) :=
  (List.range before.length ×ˢ List.range after.length).filter fun pair =>
    successors before after pair.1 = [pair.2] ∧ predecessors before after pair.2 = [pair.1]

def overlapOf (pair : Nat × Nat) : ℚ := (overlapAt before after pair).getD 0

end Relation

section Accounts

variable (before after : List Community)

def splits : List CommunityChange :=
  ((List.range before.length).filter fun index => 2 ≤ (successors before after index).length).map
    fun index => splitChange before after (overlapMatrix before after) index
      (successors before after index)

def merges : List CommunityChange :=
  ((List.range after.length).filter fun index => 2 ≤ (predecessors before after index).length).map
    fun index => mergeChange before after (overlapMatrix before after) index
      (predecessors before after index)

def materialChanges (material : ℚ → Bool) : List CommunityChange :=
  ((continued before after).filter fun pair => material (overlapOf before after pair)).map
    fun pair => materialChange before after pair (overlapOf before after pair)

def removals : List CommunityChange :=
  ((List.range before.length).filter fun index => successors before after index = []).map
    (removedChange before)

def creations : List CommunityChange :=
  ((List.range after.length).filter fun index => predecessors before after index = []).map
    (createdChange after)

/-- Every community is reported by what it is related to. One that is neither gone nor split nor
merged goes on as the only community related to it, and is reported if their overlap is
material. -/
structure Accounted (material : ℚ → Bool) (changes : List CommunityChange) : Prop where
  reported : changes.Perm (splits before after ++ merges before after ++
    materialChanges before after material ++ removals before after ++ creations before after)
  matched : ∀ index < before.length, successors before after index ≠ [] →
    (successors before after index).length < 2 →
    (∀ other ∈ successors before after index, (predecessors before after other).length < 2) →
    ∃ other, (index, other) ∈ continued before after
  oneToOne : ((continued before after).map Prod.fst).Nodup ∧
    ((continued before after).map Prod.snd).Nodup

end Accounts

section Entries

variable {before after : List Community}

theorem map_fst_overlapMatrix (before after : List Community) :
    (overlapMatrix before after).map Prod.fst =
      List.range before.length ×ˢ List.range after.length := by
  have indices : ∀ l : List Community, l.zipIdx.map Prod.snd = List.range l.length := by
    intro l
    rw [List.zipIdx_map_snd, List.range_eq_range']
  rw [← indices before, ← indices after, overlapMatrix, List.map_flatMap]
  simp only [List.map_map, SProd.sprod, List.product, List.flatMap_map]
  rfl

theorem nodup_overlapMatrix (before after : List Community) :
    ((overlapMatrix before after).map Prod.fst).Nodup := by
  rw [map_fst_overlapMatrix]
  exact List.nodup_range.product List.nodup_range

theorem mem_overlapMatrix {pair : Nat × Nat} {overlap : ℚ} :
    (pair, overlap) ∈ overlapMatrix before after ↔ overlapAt before after pair = some overlap := by
  obtain ⟨i, j⟩ := pair
  simp only [overlapMatrix, List.mem_flatMap, List.mem_map, Prod.exists, List.mem_zipIdx_iff_getElem?,
    Prod.mk.injEq, overlapAt, Option.bind_eq_some_iff, Option.map_eq_some_iff]
  constructor
  · rintro ⟨old, i, first, new, j, second, ⟨rfl, rfl⟩, same⟩
    exact ⟨old, first, new, second, same⟩
  · rintro ⟨old, first, new, second, same⟩
    exact ⟨old, i, first, new, j, second, ⟨rfl, rfl⟩, same⟩

theorem lookup_overlapMatrix (before after : List Community) (pair : Nat × Nat) :
    (overlapMatrix before after).lookup pair = overlapAt before after pair := by
  refine Option.ext fun overlap => ?_
  rw [← mem_overlapMatrix]
  exact ⟨mem_of_lookup, lookup_of_mem (nodup_overlapMatrix before after)⟩

theorem relatedAfter_eq (before after : List Community) :
    relatedAfter (overlapMatrix before after) before.length after.length =
      (List.range before.length).map (successors before after) := by
  simp only [relatedAfter, lookup_overlapMatrix]
  rfl

theorem relatedBefore_eq (before after : List Community) :
    relatedBefore (overlapMatrix before after) before.length after.length =
      (List.range after.length).map (predecessors before after) := by
  simp only [relatedBefore, lookup_overlapMatrix]
  rfl

theorem related_iff {pair : Nat × Nat} : related before after pair = true ↔
    ∃ overlap, overlapAt before after pair = some overlap ∧ relatedOverlap ≤ overlap := by
  unfold related
  cases overlapAt before after pair with
  | none => simp
  | some overlap => simp

theorem related_bounds {pair : Nat × Nat} (holds : related before after pair = true) :
    pair.1 < before.length ∧ pair.2 < after.length := by
  obtain ⟨overlap, found, -⟩ := related_iff.1 holds
  obtain ⟨old, first, rest⟩ := Option.bind_eq_some_iff.1 found
  obtain ⟨new, second, -⟩ := Option.map_eq_some_iff.1 rest
  exact ⟨(List.getElem?_eq_some_iff.1 first).1, (List.getElem?_eq_some_iff.1 second).1⟩

theorem mem_successors {i j : Nat} :
    j ∈ successors before after i ↔ related before after (i, j) = true := by
  rw [successors, List.mem_filter, List.mem_range]
  exact and_iff_right_of_imp fun holds => (related_bounds holds).2

theorem mem_predecessors {i j : Nat} :
    i ∈ predecessors before after j ↔ related before after (i, j) = true := by
  rw [predecessors, List.mem_filter, List.mem_range]
  exact and_iff_right_of_imp fun holds => (related_bounds holds).1

theorem mem_continued {pair : Nat × Nat} : pair ∈ continued before after ↔
    successors before after pair.1 = [pair.2] ∧ predecessors before after pair.2 = [pair.1] := by
  rw [continued, List.mem_filter, decide_eq_true_eq, List.mem_product, List.mem_range, List.mem_range]
  refine and_iff_right_of_imp fun alone => related_bounds (mem_successors.1 ?_)
  rw [alone.1]
  exact List.mem_singleton_self _

theorem nodup_continued (before after : List Community) : (continued before after).Nodup :=
  (List.nodup_range.product List.nodup_range).filter _

/-- Of two pairs in the list neither end is shared. -/
theorem continued_apart {pair pair' : Nat × Nat} (mem : pair ∈ continued before after)
    (mem' : pair' ∈ continued before after) (differ : pair ≠ pair') :
    pair.1 ≠ pair'.1 ∧ pair.2 ≠ pair'.2 := by
  obtain ⟨forward, backward⟩ := mem_continued.1 mem
  obtain ⟨forward', backward'⟩ := mem_continued.1 mem'
  constructor
  · intro same
    rw [same, forward', List.singleton_inj] at forward
    exact differ (Prod.ext same forward.symm)
  · intro same
    rw [same, backward', List.singleton_inj] at backward
    exact differ (Prod.ext backward.symm same)

theorem mirror (before after : List Community) (i j : Nat) :
    j ∈ successors before after i ↔ i ∈ predecessors before after j := by
  rw [mem_successors, mem_predecessors]

theorem related_of_continued {pair : Nat × Nat} (mem : pair ∈ continued before after) :
    related before after pair = true := by
  refine mem_successors.1 (?_ : pair.2 ∈ _)
  rw [(mem_continued.1 mem).1]
  exact List.mem_singleton_self _

theorem mem_map_fst_continued {i : Nat} : i ∈ (continued before after).map Prod.fst ↔
    ∃ j, successors before after i = [j] ∧ predecessors before after j = [i] := by
  simp [mem_continued]

theorem mem_map_snd_continued {j : Nat} : j ∈ (continued before after).map Prod.snd ↔
    ∃ i, predecessors before after j = [i] ∧ successors before after i = [j] := by
  simp [mem_continued, and_comm]

end Entries

section Passes

variable {before after : List Community}

theorem foldl_classify {α : Type} {step : Classified → α → Classified} {notable : α → Bool}
    {change : α → CommunityChange} {lefts rights : α → Finset Nat}
    (skips : ∀ s a, notable a = false → step s a = s)
    (notes : ∀ s a, notable a = true → (step s a).changes = s.changes ++ [change a] ∧
      (∀ i, i ∈ (step s a).matchedBefore ↔ i ∈ s.matchedBefore ∨ i ∈ lefts a) ∧
      ∀ j, j ∈ (step s a).matchedAfter ↔ j ∈ s.matchedAfter ∨ j ∈ rights a)
    (entries : List α) (s : Classified) :
    (entries.foldl step s).changes = s.changes ++ (entries.filter notable).map change ∧
    (∀ i, i ∈ (entries.foldl step s).matchedBefore ↔
      i ∈ s.matchedBefore ∨ ∃ a ∈ entries.filter notable, i ∈ lefts a) ∧
    ∀ j, j ∈ (entries.foldl step s).matchedAfter ↔
      j ∈ s.matchedAfter ∨ ∃ a ∈ entries.filter notable, j ∈ rights a := by
  induction entries generalizing s with
  | nil => simp
  | cons a entries ih =>
    obtain ⟨changes, matchedBefore, matchedAfter⟩ := ih (step s a)
    rw [List.foldl_cons]
    cases holds : notable a with
    | false =>
      rw [skips s a holds] at changes matchedBefore matchedAfter ⊢
      rw [List.filter_cons_of_neg (by simp [holds])]
      exact ⟨changes, matchedBefore, matchedAfter⟩
    | true =>
      obtain ⟨first, first', first''⟩ := notes s a holds
      rw [List.filter_cons_of_pos holds]
      refine ⟨?_, fun i => ?_, fun j => ?_⟩
      · rw [changes, first, List.map_cons, List.append_assoc, List.singleton_append]
      · rw [matchedBefore, first', or_assoc, List.exists_mem_cons_iff]
      · rw [matchedAfter, first'', or_assoc, List.exists_mem_cons_iff]

theorem classifySplit_spec (before after : List Community) (overlaps : Overlaps)
    (entries : List (List Nat × Nat)) (s : Classified) :
    (entries.foldl (classifySplit before after overlaps) s).changes =
      s.changes ++ (entries.filter fun entry => 2 ≤ entry.1.length).map
        (fun entry => splitChange before after overlaps entry.2 entry.1) ∧
    (∀ i, i ∈ (entries.foldl (classifySplit before after overlaps) s).matchedBefore ↔
      i ∈ s.matchedBefore ∨ ∃ entry ∈ entries.filter fun entry => 2 ≤ entry.1.length,
        i ∈ ({entry.2} : Finset Nat)) ∧
    ∀ j, j ∈ (entries.foldl (classifySplit before after overlaps) s).matchedAfter ↔
      j ∈ s.matchedAfter ∨ ∃ entry ∈ entries.filter fun entry => 2 ≤ entry.1.length,
        j ∈ entry.1.toFinset := by
  refine foldl_classify (fun s entry few => ?_) (fun s entry many => ?_) entries s
  · exact if_neg (of_decide_eq_false few)
  · rw [classifySplit, if_pos (of_decide_eq_true many)]
    refine ⟨rfl, fun i => ?_, fun j => Finset.mem_union⟩
    rw [Finset.mem_insert, Finset.mem_singleton, or_comm]

theorem classifyMerge_spec (before after : List Community) (overlaps : Overlaps)
    (entries : List (List Nat × Nat)) (s : Classified) :
    (entries.foldl (classifyMerge before after overlaps) s).changes =
      s.changes ++ (entries.filter fun entry => 2 ≤ entry.1.length).map
        (fun entry => mergeChange before after overlaps entry.2 entry.1) ∧
    (∀ i, i ∈ (entries.foldl (classifyMerge before after overlaps) s).matchedBefore ↔
      i ∈ s.matchedBefore ∨ ∃ entry ∈ entries.filter fun entry => 2 ≤ entry.1.length,
        i ∈ entry.1.toFinset) ∧
    ∀ j, j ∈ (entries.foldl (classifyMerge before after overlaps) s).matchedAfter ↔
      j ∈ s.matchedAfter ∨ ∃ entry ∈ entries.filter fun entry => 2 ≤ entry.1.length,
        j ∈ ({entry.2} : Finset Nat) := by
  refine foldl_classify (fun s entry few => ?_) (fun s entry many => ?_) entries s
  · exact if_neg (of_decide_eq_false few)
  · rw [classifyMerge, if_pos (of_decide_eq_true many)]
    refine ⟨rfl, fun i => Finset.mem_union, fun j => ?_⟩
    rw [Finset.mem_insert, Finset.mem_singleton, or_comm]

theorem zipIdx_map_range {f : Nat → List Nat} (count : Nat) :
    ((List.range count).map f).zipIdx = (List.range count).map fun i => (f i, i) := by
  refine List.ext_getElem (by simp) fun i _ _ => ?_
  simp

theorem classifyStructuralChanges_spec {s : Classified}
    (is : s = classifyStructuralChanges before after (overlapMatrix before after)
      (relatedAfter (overlapMatrix before after) before.length after.length)
      (relatedBefore (overlapMatrix before after) before.length after.length)) :
    s.changes = splits before after ++ merges before after ∧
    (∀ i, i ∈ s.matchedBefore ↔ Branched (successors before after) (predecessors before after) i) ∧
    ∀ j, j ∈ s.matchedAfter ↔ Branched (predecessors before after) (successors before after) j := by
  have bound : ∀ i, 2 ≤ (successors before after i).length → i < before.length := by
    intro i many
    obtain ⟨j, mem⟩ := List.exists_mem_of_length_pos (Nat.lt_of_lt_of_le Nat.two_pos many)
    exact (related_bounds (mem_successors.1 mem)).1
  have bound' : ∀ j, 2 ≤ (predecessors before after j).length → j < after.length := by
    intro j many
    obtain ⟨i, mem⟩ := List.exists_mem_of_length_pos (Nat.lt_of_lt_of_le Nat.two_pos many)
    exact (related_bounds (mem_predecessors.1 mem)).2
  obtain ⟨changes, matchedBefore, matchedAfter⟩ := classifySplit_spec before after
    (overlapMatrix before after)
    (relatedAfter (overlapMatrix before after) before.length after.length).zipIdx ⟨[], ∅, ∅⟩
  obtain ⟨changes', matchedBefore', matchedAfter'⟩ := classifyMerge_spec before after
    (overlapMatrix before after)
    (relatedBefore (overlapMatrix before after) before.length after.length).zipIdx
    ((relatedAfter (overlapMatrix before after) before.length after.length).zipIdx.foldl
      (classifySplit before after (overlapMatrix before after)) ⟨[], ∅, ∅⟩)
  rw [is, classifyStructuralChanges]
  refine ⟨?_, fun i => ?_, fun j => ?_⟩
  · rw [changes', changes, relatedAfter_eq, relatedBefore_eq, zipIdx_map_range, zipIdx_map_range,
      List.filter_map, List.filter_map, List.map_map, List.map_map]
    rfl
  · rw [matchedBefore', matchedBefore, relatedAfter_eq, relatedBefore_eq, zipIdx_map_range,
      zipIdx_map_range]
    simp only [Finset.notMem_empty, false_or, List.mem_filter, List.mem_map, List.mem_range,
      decide_eq_true_eq, Finset.mem_singleton, List.mem_toFinset]
    constructor
    · rintro (⟨entry, ⟨⟨i', inside, rfl⟩, many⟩, rfl⟩ | ⟨entry, ⟨⟨j, inside, rfl⟩, many⟩, mem⟩)
      · exact .inl many
      · exact .inr ⟨j, many, mem⟩
    · rintro (many | ⟨j, many, mem⟩)
      · exact .inl ⟨_, ⟨⟨i, bound i many, rfl⟩, many⟩, rfl⟩
      · exact .inr ⟨_, ⟨⟨j, bound' j many, rfl⟩, many⟩, mem⟩
  · rw [matchedAfter', matchedAfter, relatedAfter_eq, relatedBefore_eq, zipIdx_map_range,
      zipIdx_map_range, or_comm]
    simp only [Finset.notMem_empty, false_or, List.mem_filter, List.mem_map, List.mem_range,
      decide_eq_true_eq, Finset.mem_singleton, List.mem_toFinset]
    constructor
    · rintro (⟨entry, ⟨⟨j', inside, rfl⟩, many⟩, rfl⟩ | ⟨entry, ⟨⟨i, inside, rfl⟩, many⟩, mem⟩)
      · exact .inl many
      · exact .inr ⟨i, many, mem⟩
    · rintro (many | ⟨i, many, mem⟩)
      · exact .inl ⟨_, ⟨⟨j, bound' j many, rfl⟩, many⟩, rfl⟩
      · exact .inr ⟨_, ⟨⟨i, bound i many, rfl⟩, many⟩, mem⟩

def leftIndex (entry : (Nat × Nat) × ℚ) : Nat := entry.1.1

def rightIndex (entry : (Nat × Nat) × ℚ) : Nat := entry.1.2

theorem foldl_classifyPair (before after : List Community) (candidates : Overlaps) :
    ∀ s : Classified, ∃ taken, taken = pairUp leftIndex rightIndex s.matchedBefore s.matchedAfter
        candidates ∧
      (candidates.foldl (classifyPair before after) s).changes = s.changes ++
        (taken.filter fun entry => entry.2 + epsilon < stableOverlap).map
          (fun entry => materialChange before after entry.1 entry.2) ∧
      (∀ i, i ∈ (candidates.foldl (classifyPair before after) s).matchedBefore ↔
        i ∈ s.matchedBefore ∨ i ∈ taken.map leftIndex) ∧
      ∀ j, j ∈ (candidates.foldl (classifyPair before after) s).matchedAfter ↔
        j ∈ s.matchedAfter ∨ j ∈ taken.map rightIndex := by
  induction candidates with
  | nil => exact fun s => ⟨[], rfl, by simp⟩
  | cons entry candidates ih =>
    intro s
    obtain ⟨taken, is, changes, matchedBefore, matchedAfter⟩ := ih (classifyPair before after s entry)
    rw [List.foldl_cons]
    by_cases used : entry.1.1 ∈ s.matchedBefore ∨ entry.1.2 ∈ s.matchedAfter
    · rw [classifyPair, if_pos used] at is changes matchedBefore matchedAfter ⊢
      refine ⟨taken, ?_, changes, matchedBefore, matchedAfter⟩
      rw [is, pairUp]
      exact (if_pos used).symm
    · rw [classifyPair, if_neg used] at is changes matchedBefore matchedAfter ⊢
      refine ⟨entry :: taken, ?_, ?_, fun i => ?_, fun j => ?_⟩
      · rw [is, pairUp]
        exact (if_neg used).symm
      · rw [changes, List.filter_cons]
        by_cases material : entry.2 + epsilon < stableOverlap
        · simp [material]
        · simp [material]
      · rw [matchedBefore, Finset.mem_insert, List.map_cons, List.mem_cons, leftIndex, or_assoc,
          or_left_comm]
      · rw [matchedAfter, Finset.mem_insert, List.map_cons, List.mem_cons, rightIndex, or_assoc,
          or_left_comm]

theorem mem_pairCandidates {entry : (Nat × Nat) × ℚ} :
    entry ∈ pairCandidates before after (overlapMatrix before after) ↔
      overlapAt before after entry.1 = some entry.2 ∧ relatedOverlap ≤ entry.2 := by
  rw [pairCandidates, mem_sortBy, List.mem_filter, decide_eq_true_eq]
  exact and_congr_left fun _ => mem_overlapMatrix

theorem nodup_pairCandidates (before after : List Community) :
    (pairCandidates before after (overlapMatrix before after)).Nodup := by
  have distinct : (overlapMatrix before after).Nodup :=
    (nodup_overlapMatrix before after).of_map
  exact (sortBy_perm _ _).nodup_iff.2 (distinct.filter _)

/-- The candidates that splits and merges leave over are the pairs related to each other only. -/
theorem mem_unused_pairCandidates {lefts rights : Finset Nat}
    (matchedBefore : ∀ i, i ∈ lefts ↔ Branched (successors before after) (predecessors before after) i)
    (matchedAfter : ∀ j, j ∈ rights ↔ Branched (predecessors before after) (successors before after) j)
    {entry : (Nat × Nat) × ℚ} :
    entry ∈ unused leftIndex rightIndex lefts rights
        (pairCandidates before after (overlapMatrix before after)) ↔
      entry.1 ∈ continued before after ∧ overlapAt before after entry.1 = some entry.2 := by
  rw [unused, List.mem_filter, mem_pairCandidates, decide_eq_true_eq, leftIndex, rightIndex,
    matchedBefore, matchedAfter]
  constructor
  · rintro ⟨⟨found, enough⟩, free, -⟩
    have mem : entry.1.2 ∈ successors before after entry.1.1 :=
      mem_successors.2 (related_iff.2 ⟨entry.2, found, enough⟩)
    obtain ⟨j, only⟩ := exists_only_of_not_branched (mirror before after) (List.ne_nil_of_mem mem) free
    rw [only.1, List.mem_singleton] at mem
    exact ⟨mem_continued.2 (mem ▸ only), found⟩
  · rintro ⟨listed, found⟩
    obtain ⟨forward, backward⟩ := mem_continued.1 listed
    obtain ⟨overlap, found', enough⟩ := related_iff.1 (related_of_continued listed)
    obtain rfl : overlap = entry.2 := Option.some.inj (found'.symm.trans found)
    refine ⟨⟨found, enough⟩, not_branched_of_only (mirror before after) forward backward, ?_⟩
    exact not_branched_of_only (fun j i => (mirror before after i j).symm) backward forward

end Passes

section Comparison

theorem map_continued_perm {pairs : Overlaps} (distinct : pairs.Nodup) {before after : List Community}
    (members : ∀ entry, entry ∈ pairs ↔
      entry.1 ∈ continued before after ∧ overlapAt before after entry.1 = some entry.2) :
    pairs.Perm ((continued before after).map fun pair => (pair, overlapOf before after pair)) := by
  have distinct' : ((continued before after).map fun pair =>
      (pair, overlapOf before after pair)).Nodup :=
    (nodup_continued before after).map fun _ _ same => congrArg Prod.fst same
  refine (List.perm_ext_iff_of_nodup distinct distinct').2 fun entry => ?_
  rw [members, List.mem_map]
  constructor
  · rintro ⟨listed, found⟩
    refine ⟨entry.1, listed, Prod.ext rfl ?_⟩
    rw [overlapOf, found, Option.getD_some]
  · rintro ⟨pair, listed, rfl⟩
    refine ⟨listed, ?_⟩
    obtain ⟨overlap, found, -⟩ := related_iff.1 (related_of_continued listed)
    rw [overlapOf, found, Option.getD_some]

theorem nodup_map_continued (before after : List Community) :
    ((continued before after).map Prod.fst).Nodup ∧
      ((continued before after).map Prod.snd).Nodup := by
  constructor
  · refine (nodup_continued before after).map_on fun pair mem pair' mem' same => ?_
    by_contra differ
    exact (continued_apart mem mem' differ).1 same
  · refine (nodup_continued before after).map_on fun pair mem pair' mem' same => ?_
    by_contra differ
    exact (continued_apart mem mem' differ).2 same

def isMaterial (overlap : ℚ) : Bool := overlap + epsilon < stableOverlap

theorem reported_changes (before after : CommunitySnapshot) :
    (compareCommunitySnapshots before after).changes.Perm
      (splits before.communities after.communities ++ merges before.communities after.communities ++
        materialChanges before.communities after.communities isMaterial ++
        removals before.communities after.communities ++
        creations before.communities after.communities) := by
  let old := before.communities
  let new := after.communities
  let overlaps := overlapMatrix old new
  obtain ⟨structural, is⟩ : ∃ s, s = classifyStructuralChanges old new overlaps
      (relatedAfter overlaps old.length new.length) (relatedBefore overlaps old.length new.length) :=
    ⟨_, rfl⟩
  obtain ⟨changes, matchedBefore, matchedAfter⟩ := classifyStructuralChanges_spec is
  obtain ⟨taken, paired, changes', matchedBefore', matchedAfter'⟩ :=
    foldl_classifyPair old new (pairCandidates old new overlaps) structural
  have members : ∀ entry, entry ∈ unused leftIndex rightIndex structural.matchedBefore
      structural.matchedAfter (pairCandidates old new overlaps) ↔
        entry.1 ∈ continued old new ∧ overlapAt old new entry.1 = some entry.2 := by
    intro entry
    exact mem_unused_pairCandidates matchedBefore matchedAfter
  have distinct : (unused leftIndex rightIndex structural.matchedBefore
      structural.matchedAfter (pairCandidates old new overlaps)).Nodup :=
    (nodup_pairCandidates old new).filter _
  -- the candidates that are left share no end, so the matching takes them all
  have all : taken = unused leftIndex rightIndex structural.matchedBefore structural.matchedAfter
      (pairCandidates old new overlaps) := by
    refine paired.trans (pairUp_eq_unused (distinct.pairwise_of_forall_ne ?_))
    intro entry mem entry' mem' differ
    obtain ⟨listed, found⟩ := (members entry).1 mem
    obtain ⟨listed', found'⟩ := (members entry').1 mem'
    refine continued_apart listed listed' fun same => differ (Prod.ext same ?_)
    rw [same] at found
    exact Option.some.inj (found.symm.trans found')
  have perm : taken.Perm ((continued old new).map fun pair => (pair, overlapOf old new pair)) :=
    all ▸ map_continued_perm distinct members
  have result : (compareCommunitySnapshots before after).changes.Perm
      (classifyUnmatched old new ((pairCandidates old new overlaps).foldl (classifyPair old new)
        structural)) := by
    rw [is]
    exact sortBy_perm _ _
  refine result.trans ?_
  have gone : ((List.range old.length).filter fun index => index ∉
      ((pairCandidates old new overlaps).foldl (classifyPair old new) structural).matchedBefore) =
      (List.range old.length).filter fun index => successors old new index = [] := by
    refine List.filter_congr fun index _ => decide_eq_decide.2 ?_
    rw [matchedBefore', matchedBefore, (perm.map leftIndex).mem_iff, List.map_map,
      ← unpaired_iff (mirror old new), ← mem_map_fst_continued]
    rfl
  have fresh : ((List.range new.length).filter fun index => index ∉
      ((pairCandidates old new overlaps).foldl (classifyPair old new) structural).matchedAfter) =
      (List.range new.length).filter fun index => predecessors old new index = [] := by
    refine List.filter_congr fun index _ => decide_eq_decide.2 ?_
    rw [matchedAfter', matchedAfter, (perm.map rightIndex).mem_iff, List.map_map,
      ← unpaired_iff fun j i => (mirror old new i j).symm, ← mem_map_snd_continued]
    rfl
  rw [classifyUnmatched, gone, fresh, changes', changes]
  refine ((List.Perm.append_left _ ?_).append_right _).append_right _
  refine ((perm.filter _).map _).trans (.of_eq ?_)
  rw [List.filter_map, List.map_map]
  rfl

theorem accounted_changes (before after : CommunitySnapshot) :
    Accounted before.communities after.communities isMaterial
      (compareCommunitySnapshots before after).changes where
  reported := reported_changes before after
  matched := by
    intro index _ found few fewBack
    obtain ⟨other, only⟩ := exists_only (mirror _ _) found few fewBack
    exact ⟨other, mem_continued.2 only⟩
  oneToOne := nodup_map_continued before.communities after.communities

def numbered (number : Nat) : NodeId := String.ofList (List.replicate number 'n')

theorem numbered_injective : Function.Injective numbered := by
  intro number number' same
  have equal := congrArg List.length (String.ofList_injective same)
  rwa [List.length_replicate, List.length_replicate] at equal

/-- A community with as many members as it is said to have, and nothing else. -/
def countedCommunity (id : CommunityId) (count : Nat) : Community where
  id := id
  label := id
  members := (List.range count).map numbered
  centralNodes := []
  repositories := []
  services := []
  inboundContracts := []
  outboundContracts := []
  metrics := ⟨count, 0, 0, 0, 0⟩
  labelEvidence := []
  limitations := []

def countedSnapshot (id : CommunityId) (count : Nat) : CommunitySnapshot where
  snapshotId := id
  engineVersion := "1.0.0"
  config := ⟨.connectedComponents, .federated, 0, .ofNat 1, .zero, [], 1⟩
  communities := [countedCommunity id count]

theorem memberOverlap_counted {few many : Nat} (le : few ≤ many) (occupied : 0 < many)
    (id id' : CommunityId) :
    memberOverlap (countedCommunity id few) (countedCommunity id' many) = (few : ℚ) / (many : ℚ) := by
  have members : ∀ (id : CommunityId) (count : Nat), (countedCommunity id count).members.toFinset =
      (Finset.range count).image numbered := by
    intro id count
    ext node
    simp [countedCommunity]
  have within : (Finset.range few).image numbered ⊆ (Finset.range many).image numbered :=
    Finset.image_subset_image (Finset.range_subset_range.2 le)
  rw [memberOverlap, members, members, Finset.inter_eq_left.2 within, Finset.union_eq_right.2 within,
    Finset.card_image_of_injective _ numbered_injective,
    Finset.card_image_of_injective _ numbered_injective, Finset.card_range, Finset.card_range]
  exact if_neg occupied.ne'

/-- The tolerance lets a pair pass whose overlap is below the threshold by less. -/
theorem tolerated_overlap : ¬Accounted (countedSnapshot "before" 1600000000003).communities
    (countedSnapshot "after" 2000000000004).communities (fun overlap => overlap < stableOverlap)
    (compareCommunitySnapshots (countedSnapshot "before" 1600000000003)
      (countedSnapshot "after" 2000000000004)).changes := by
  intro claimed
  obtain ⟨few, isFew⟩ : ∃ few : Nat, few = 1600000000003 := ⟨_, rfl⟩
  obtain ⟨many, isMany⟩ : ∃ many : Nat, many = 2000000000004 := ⟨_, rfl⟩
  rw [← isFew, ← isMany] at claimed
  have both := (claimed.reported.symm.trans (reported_changes _ _)).length_eq
  simp only [List.length_append, Nat.add_right_cancel_iff, Nat.add_left_cancel_iff] at both
  have overlap : overlapAt (countedSnapshot "before" few).communities
      (countedSnapshot "after" many).communities (0, 0) = some ((few : ℚ) / (many : ℚ)) :=
    congrArg some (memberOverlap_counted (by omega) (by omega) "before" "after")
  have holds : related (countedSnapshot "before" few).communities
      (countedSnapshot "after" many).communities (0, 0) = true := by
    refine related_iff.2 ⟨_, overlap, ?_⟩
    rw [isFew, isMany, relatedOverlap]
    norm_num
  have listed : (0, 0) ∈ continued (countedSnapshot "before" few).communities
      (countedSnapshot "after" many).communities := by
    refine mem_continued.2 ⟨?_, ?_⟩
    · simpa [successors, countedSnapshot] using holds
    · simpa [predecessors, countedSnapshot] using holds
  have only : ∀ pair ∈ continued (countedSnapshot "before" few).communities
      (countedSnapshot "after" many).communities, pair = (0, 0) := by
    intro pair mem
    have inside := List.mem_product.1 (List.mem_of_mem_filter mem)
    exact Prod.ext (by simpa [countedSnapshot] using inside.1) (by simpa [countedSnapshot] using inside.2)
  have silent : materialChanges (countedSnapshot "before" few).communities
      (countedSnapshot "after" many).communities isMaterial = [] := by
    rw [materialChanges, List.map_eq_nil_iff, List.filter_eq_nil_iff]
    intro pair mem
    rw [only pair mem, overlapOf, overlap, Option.getD_some, isMaterial, decide_eq_true_eq, isFew,
      isMany, epsilon_rat, stableOverlap]
    norm_num
  rw [silent, List.length_nil, materialChanges, List.length_map, List.length_eq_zero_iff,
    List.filter_eq_nil_iff] at both
  refine both _ listed ?_
  rw [overlapOf, overlap, Option.getD_some, decide_eq_true_eq, isFew, isMany, stableOverlap]
  norm_num

end Comparison

end CodeSystemGraph.Communities
