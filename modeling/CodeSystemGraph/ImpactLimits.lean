import CodeSystemGraph.ImpactRisk

/-! The node bound of the traversal. A run that no bound truncated takes the same turns
under any larger node bound, so the report is the same too. -/

namespace CodeSystemGraph.Impact
open Ieee Model Ordered Iterate

def ImpactRequest.withNodeLimit (request : ImpactRequest) (limit : Nat) : ImpactRequest :=
  { request with options := { request.options with nodeLimit := limit } }

section Turns

variable {request : ImpactRequest} {context : ImpactContext} {nodes : NodeIndex} {target : Node}
  {limit : Nat}

theorem truncated_visitEntries {state : TraversalState} {entries : List Adjacency} {s s' : Search}
    (truncated : s.truncation ≠ none)
    (result : visitEntries request nodes target state s entries = .ok s') : s'.truncation ≠ none :=
  visitEntries_rule (fun s => s.truncation ≠ none)
    (fun _ _ _ truncated visited => by rwa [visited_again_truncation visited])
    (fun _ _ _ _ visited => visited_leave_truncation visited) entries s s' truncated result

theorem truncated_turn (s s' : Search) (truncated : s.truncation ≠ none)
    (again : turn request context nodes target s = .again s') : s'.truncation ≠ none := by
  cases again ▸ @turn_turned request context nodes target s with
  | beyond state queue popped deep info => simp [Search.truncate]
  | bottom state queue popped deep done => exact truncated
  | expanded state queue popped shallow s' visit =>
    exact truncated_visitEntries (s := { s with queue := queue }) truncated visit

theorem truncated_leave (s : Search) (r : Except ImpactError Search) (truncated : s.truncation ≠ none)
    (leave : turn request context nodes target s = .leave r) :
    ∀ s', r = .ok s' → s'.truncation ≠ none := by
  rintro s' rfl
  cases leave ▸ @turn_turned request context nodes target s with
  | finished empty => exact truncated
  | stopped state queue popped s' visit bound =>
    exact truncated_visitEntries (s := { s with queue := queue }) truncated visit

theorem visitEntry_looser (le : request.options.nodeLimit ≤ limit) {state : TraversalState}
    {entry : Adjacency} {s s' : Search}
    (again : visitEntry request nodes target state entry s = .ok (.again s')) :
    visitEntry (request.withNodeLimit limit) nodes target state entry s = .ok (.again s') := by
  have edgeLimit : (request.withNodeLimit limit).options.edgeLimit = request.options.edgeLimit := rfl
  have nodeLimit : (request.withNodeLimit limit).options.nodeLimit = limit := rfl
  have reached : reach (request.withNodeLimit limit) state entry = reach request state entry := rfl
  have count : counted (request.withNodeLimit limit) s entry = counted request s entry := rfl
  rw [visitEntry, edgeLimit, nodeLimit, reached, count]
  rw [visitEntry] at again
  split_ifs at again ⊢ with blocked edges seen better loose tight tight
  · exact again
  · cases again
  · exact again
  · exact again
  · cases again
  · exact absurd ⟨loose.1, le.trans loose.2⟩ tight
  · cases again
  · exact again

theorem visitEntries_looser (le : request.options.nodeLimit ≤ limit) {state : TraversalState}
    (entries : List Adjacency) {s s' : Search} (whole : s'.truncation = none)
    (result : visitEntries request nodes target state s entries = .ok s') :
    visitEntries (request.withNodeLimit limit) nodes target state s entries = .ok s' := by
  induction entries generalizing s with
  | nil => exact result
  | cons entry rest ih =>
    rw [visitEntries] at result ⊢
    cases visit : visitEntry request nodes target state entry s with
    | error e =>
      rw [visit] at result
      cases result
    | ok round =>
      rw [visit] at result
      cases round with
      | leave left =>
        obtain rfl : left = s' := Except.ok.inj result
        exact absurd whole (visited_leave_truncation (visitEntry_visited visit))
      | again next =>
        rw [visitEntry_looser le visit]
        exact ih result

/-- A turn that leaves no truncation is the same under a larger node bound. -/
theorem turn_looser (le : request.options.nodeLimit ≤ limit) {s : Search}
    {round : Turn Search (Except ImpactError Search)}
    (taken : turn request context nodes target s = round)
    (whole : ∀ s', round = .again s' ∨ round = .leave (.ok s') → s'.truncation = none)
    (fine : ∀ e, round ≠ .leave (.error e)) :
    turn (request.withNodeLimit limit) context nodes target s = round := by
  have maxDepth : (request.withNodeLimit limit).options.maxDepth = request.options.maxDepth := rfl
  have neighbors : ∀ id, neighborsOf (request.withNodeLimit limit) context id =
      neighborsOf request context id := fun _ => rfl
  have depthInfo : ∀ n, maxDepthInfo (request.withNodeLimit limit) n = maxDepthInfo request n :=
    fun _ => rfl
  unfold turn at taken ⊢
  cases queue : s.queue with
  | nil =>
    rw [queue] at taken
    exact taken
  | cons state rest =>
    rw [queue] at taken
    simp only [maxDepth, neighbors, depthInfo] at taken ⊢
    by_cases deep : state.path.length = request.options.maxDepth
    · rwa [if_pos deep] at taken ⊢
    · rw [if_neg deep] at taken ⊢
      cases visit : visitEntries request nodes target state { s with queue := rest }
          (neighborsOf request context state.nodeId) with
      | error e =>
        rw [visit] at taken
        exact absurd taken.symm (fine e)
      | ok s' =>
        rw [visit] at taken
        have untouched : s'.truncation = none := by
          refine whole s' ?_
          rw [← taken]
          by_cases stopped : s'.stopped = true
          · exact .inr (if_pos stopped)
          · exact .inl (if_neg stopped)
        rw [visitEntries_looser le _ untouched visit]
        exact taken

theorem run_looser (le : request.options.nodeLimit ≤ limit) (fuel : Nat) {s r : Search}
    (whole : r.truncation = none)
    (result : run (turn request context nodes target) fuel s = some (.ok r)) :
    run (turn (request.withNodeLimit limit) context nodes target) fuel s = some (.ok r) := by
  induction fuel generalizing s with
  | zero => cases result
  | succ fuel ih =>
    rw [run] at result ⊢
    cases taken : turn request context nodes target s with
    | leave left =>
      rw [taken] at result
      obtain rfl : left = .ok r := Option.some.inj result
      rw [turn_looser le taken (by rintro s' (same | same) <;> simp_all) (by simp)]
    | again next =>
      rw [taken] at result
      have untouched : next.truncation = none := by
        by_contra truncated
        exact run_rule (fun s => s.truncation ≠ none) (fun r => ∀ s, r = .ok s → s.truncation ≠ none)
          truncated_turn truncated_leave fuel next truncated _ result r rfl whole
      rw [turn_looser le taken (by rintro s' (same | same) <;> simp_all) (by simp)]
      exact ih result

theorem traverse_looser (le : request.options.nodeLimit ≤ limit) {result : Traversal}
    (whole : result.truncation = none) (found : traverse request context nodes target = .ok result) :
    traverse (request.withNodeLimit limit) context nodes target = .ok result := by
  unfold traverse at found ⊢
  cases ended : loop (@turn_terminates request context nodes target) (start target)
      (start_depthBounded request target) with
  | error e =>
    rw [ended] at found
    cases found
  | ok r =>
    rw [ended] at found
    obtain rfl := Except.ok.inj found
    have ran : run (turn request context nodes target)
        (remaining request context (start target) + 1) (start target) = some (.ok r) := by
      rw [← ended]
      exact (Option.some_get _).symm
    have same : loop (@turn_terminates (request.withNodeLimit limit) context nodes target)
        (start target) (start_depthBounded (request.withNodeLimit limit) target) = .ok r :=
      Option.get_of_eq_some _ (run_looser le _ whole ran)
    rw [same]

end Turns

theorem validateContext_limit {request : ImpactRequest} {context : ImpactContext} {limit : Nat}
    {nodes nodes' : NodeIndex} (valid : validateContext request context = .ok nodes)
    (valid' : validateContext (request.withNodeLimit limit) context = .ok nodes') : nodes' = nodes := by
  simp only [validateContext, bind_eq_ok, pure_eq_ok] at valid valid'
  obtain ⟨_, -, _, -, nodes, indexed, _, -, _, -, _, -, rfl⟩ := valid
  obtain ⟨_, -, _, -, nodes', indexed', _, -, _, -, _, -, rfl⟩ := valid'
  rw [indexed] at indexed'
  exact (Except.ok.inj indexed').symm

theorem analyzeImpact_looser {request : ImpactRequest} {context : ImpactContext} {limit : Nat}
    {report report' : ImpactReport} (le : request.options.nodeLimit ≤ limit)
    (tight : analyzeImpact request context = .ok report) (whole : report.truncation = none)
    (loose : analyzeImpact (request.withNodeLimit limit) context = .ok report') : report' = report := by
  simp only [analyzeImpact, bind_eq_ok, pure_eq_ok] at tight loose
  obtain ⟨nodes, valid, target, resolved, traversal, traversed, rfl⟩ := tight
  obtain ⟨nodes', valid', target', resolved', traversal', traversed', rfl⟩ := loose
  obtain rfl := validateContext_limit valid valid'
  obtain rfl : target' = target := by
    have same : resolveTarget request.target nodes' = .ok target' := resolved'
    rw [resolved] at same
    exact (Except.ok.inj same).symm
  rw [traverse_looser le whole traversed] at traversed'
  obtain rfl := Except.ok.inj traversed'
  rfl

end CodeSystemGraph.Impact
