import Mathlib.Data.List.Induction
import Mathlib.Data.List.Nodup
import Mathlib.Tactic.Common

/-! Attribution of items to candidates in one pass. An item takes a candidate when exactly one
of those that are left is eligible for it. Where eligibility is a matter of groups, a candidate
is taken exactly when it is alone in its group and some item is of the group. -/

namespace CodeSystemGraph.Attribution

variable {A B K : Type} [BEq K]

def targets (outcomes : List (A × Option B)) : List B := outcomes.filterMap Prod.snd

variable (key : B → K) (eligible : A → B → Bool) (candidates : List B)

def onlyCandidate (taken : List K) (a : A) : Option B :=
  match candidates.filter fun b => !taken.contains (key b) && eligible a b with
  | [b] => some b
  | _ => none

def attributeTo (outcomes : List (A × Option B)) (a : A) : List (A × Option B) :=
  outcomes ++ [(a, onlyCandidate key eligible candidates ((targets outcomes).map key) a)]

def attributions (items : List A) : List (A × Option B) :=
  items.foldl (attributeTo key eligible candidates) []

variable {key eligible candidates}

theorem targets_append (outcomes outcomes' : List (A × Option B)) :
    targets (outcomes ++ outcomes') = targets outcomes ++ targets outcomes' := List.filterMap_append

theorem mem_targets {outcomes : List (A × Option B)} {b : B} :
    b ∈ targets outcomes ↔ ∃ a, (a, some b) ∈ outcomes := by
  simp [targets]

@[simp] theorem attributions_nil : attributions key eligible candidates [] = [] := rfl

theorem attributions_concat (items : List A) (a : A) :
    attributions key eligible candidates (items ++ [a]) =
      attributions key eligible candidates items ++
        [(a, onlyCandidate key eligible candidates
          ((targets (attributions key eligible candidates items)).map key) a)] := by
  simp [attributions, attributeTo]

theorem map_fst_attributions (items : List A) :
    (attributions key eligible candidates items).map Prod.fst = items := by
  induction items using List.reverseRecOn with
  | nil => rfl
  | append_singleton items a ih => simp [attributions_concat, ih]

variable [LawfulBEq K]

theorem onlyCandidate_eq_some {taken : List K} {a : A} {b : B} :
    onlyCandidate key eligible candidates taken a = some b ↔
      candidates.filter (fun b => key b ∉ taken && eligible a b) = [b] := by
  have same : (candidates.filter fun b => !taken.contains (key b) && eligible a b) =
      candidates.filter fun b => key b ∉ taken && eligible a b := by
    simp
  unfold onlyCandidate
  rw [same]
  split
  · next c found => rw [found, Option.some.injEq, List.cons.injEq, and_iff_left rfl]
  · next other => exact iff_of_false (by simp) fun found => other b found

theorem mem_of_onlyCandidate {taken : List K} {a : A} {b : B}
    (only : onlyCandidate key eligible candidates taken a = some b) :
    b ∈ candidates ∧ key b ∉ taken ∧ eligible a b = true := by
  have member : b ∈ candidates.filter (fun b => key b ∉ taken && eligible a b) := by
    rw [onlyCandidate_eq_some.mp only]
    exact List.mem_singleton_self b
  simpa using member

theorem eligible_of_mem {items : List A} {a : A} {b : B}
    (mem : (a, some b) ∈ attributions key eligible candidates items) :
    b ∈ candidates ∧ eligible a b = true := by
  induction items using List.reverseRecOn with
  | nil => cases mem
  | append_singleton items a' ih =>
    rw [attributions_concat, List.mem_append, List.mem_singleton] at mem
    rcases mem with mem | last
    · exact ih mem
    · obtain ⟨rfl, only⟩ := Prod.mk.inj last
      have found := mem_of_onlyCandidate only.symm
      exact ⟨found.1, found.2.2⟩

theorem nodup_targets (items : List A) :
    ((targets (attributions key eligible candidates items)).map key).Nodup := by
  induction items using List.reverseRecOn with
  | nil => exact List.nodup_nil
  | append_singleton items a ih =>
    rw [attributions_concat, targets_append, List.map_append]
    cases only : onlyCandidate key eligible candidates
        ((targets (attributions key eligible candidates items)).map key) a with
    | none => simpa [targets] using ih
    | some b =>
      have fresh := (mem_of_onlyCandidate only).2.1
      refine List.nodup_append.mpr ⟨ih, by simp [targets], fun k taken k' last => ?_⟩
      have same : k' = key b := by simpa [targets] using last
      intro equal
      exact fresh (same ▸ equal ▸ taken)

def Grouped (eligible : A → B → Bool) : Prop :=
  ∀ a a' b b', eligible a b = true → eligible a b' = true → eligible a' b = true →
    eligible a' b' = true

variable (grouped : Grouped eligible) (distinct : (candidates.map key).Nodup)
include grouped distinct

theorem mem_targets_attributions {items : List A} {b : B} :
    b ∈ targets (attributions key eligible candidates items) ↔
      ∃ a ∈ items, candidates.filter (eligible a) = [b] := by
  induction items using List.reverseRecOn generalizing b with
  | nil => simp [targets]
  | append_singleton items a ih =>
    have split : ∀ taken : List K, candidates.filter (fun b => key b ∉ taken && eligible a b) =
        (candidates.filter (eligible a)).filter fun b => key b ∉ taken := by
      intro taken
      rw [List.filter_filter]
    rw [attributions_concat, targets_append, List.mem_append]
    constructor
    · rintro (earlier | last)
      · obtain ⟨a', mem, alone⟩ := ih.mp earlier
        exact ⟨a', List.mem_append_left _ mem, alone⟩
      · have only : onlyCandidate key eligible candidates
            ((targets (attributions key eligible candidates items)).map key) a = some b := by
          simpa [targets] using last
        obtain ⟨mem, fresh, suits⟩ := mem_of_onlyCandidate only
        refine ⟨a, by simp, ?_⟩
        rw [onlyCandidate_eq_some, split] at only
        -- a candidate of the group that was taken before was alone in the group
        have left : ∀ c ∈ candidates.filter (eligible a),
            decide (key c ∉ (targets (attributions key eligible candidates items)).map key) = true := by
          intro c member
          have suits' := (List.mem_filter.mp member).2
          refine decide_eq_true fun taken => ?_
          obtain ⟨d, earlier, same⟩ := List.mem_map.mp taken
          obtain ⟨a', member', alone⟩ := ih.mp earlier
          have known : d ∈ candidates.filter (eligible a') := by
            rw [alone]
            exact List.mem_singleton_self d
          obtain rfl : d = c :=
            List.inj_on_of_nodup_map distinct (List.mem_filter.mp known).1 (List.mem_filter.mp member).1
              same
          have joined : b ∈ candidates.filter (eligible a') :=
            List.mem_filter.mpr ⟨mem, grouped a a' d b suits' suits (List.mem_filter.mp known).2⟩
          rw [alone, List.mem_singleton] at joined
          exact fresh (joined ▸ taken)
        rwa [List.filter_eq_self.mpr left] at only
    · rintro ⟨a', mem, alone⟩
      rcases List.mem_append.mp mem with mem | last
      · exact .inl (ih.mpr ⟨a', mem, alone⟩)
      · obtain rfl := List.mem_singleton.mp last
        by_cases taken : key b ∈ (targets (attributions key eligible candidates items)).map key
        · obtain ⟨c, earlier, same⟩ := List.mem_map.mp taken
          obtain ⟨a'', -, alone'⟩ := ih.mp earlier
          have known : c ∈ candidates := by
            refine List.mem_of_mem_filter (p := eligible a'') ?_
            rw [alone']
            exact List.mem_singleton_self c
          have known' : b ∈ candidates := by
            refine List.mem_of_mem_filter (p := eligible a') ?_
            rw [alone]
            exact List.mem_singleton_self b
          exact .inl (List.inj_on_of_nodup_map distinct known known' same ▸ earlier)
        · have only : onlyCandidate key eligible candidates
              ((targets (attributions key eligible candidates items)).map key) a' = some b := by
            rw [onlyCandidate_eq_some, split, alone, List.filter_eq_self]
            exact List.forall_mem_singleton.mpr (decide_eq_true taken)
          rw [only]
          exact .inr (mem_targets.mpr ⟨a', List.mem_singleton_self _⟩)

end CodeSystemGraph.Attribution
