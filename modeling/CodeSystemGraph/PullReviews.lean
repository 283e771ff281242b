import CodeSystemGraph.PullProviders
import Mathlib.Data.Finset.Card

/-! What the review summary of a GitHub pull request says about its reviewers. The
summary reads each author's last review, whatever its state; a reviewer's standing
decision is the last review that decides anything. -/

namespace CodeSystemGraph.PullRequests
open Ordered

section Standing

def githubReviewStates : List String :=
  ["approved", "changes_requested", "commented", "dismissed", "pending"]

def decides (review : PullRequestReview) : Bool :=
  ["approved", "changes_requested", "dismissed"].contains review.state

def lastState (author : String) (reviews : List PullRequestReview) : Option String :=
  (latest (·.author) author reviews).map (·.state)

/-- An author's decision, which neither a comment nor a pending review replaces. -/
def standingDecision (author : String) (reviews : List PullRequestReview) : Option String :=
  lastState author (reviews.filter decides)

def authors (reviews : List PullRequestReview) : Finset String := (reviews.map (·.author)).toFinset

def holding (read : String → List PullRequestReview → Option String) (state : String)
    (reviews : List PullRequestReview) : Finset String :=
  (authors reviews).filter fun author => read author reviews = some state

structure FollowsStanding (reviews : List PullRequestReview) : Prop where
  changesRequested : (summarizeGithubReviews reviews).state = .changesRequested ↔
    (holding standingDecision "changes_requested" reviews).Nonempty
  approved : ¬(holding standingDecision "changes_requested" reviews).Nonempty →
    ((summarizeGithubReviews reviews).state = .approved ↔
      (holding standingDecision "approved" reviews).Nonempty)
  approvals : (summarizeGithubReviews reviews).approvals =
    (holding standingDecision "approved" reviews).card

theorem mem_authors {author : String} {reviews : List PullRequestReview} :
    author ∈ authors reviews ↔ ∃ review ∈ reviews, review.author = author := by
  simp [authors]

theorem lastState_author {author state : String} {reviews : List PullRequestReview}
    (last : lastState author reviews = some state) : author ∈ authors reviews := by
  obtain ⟨review, found, -⟩ := Option.map_eq_some_iff.mp last
  exact mem_authors.mpr ⟨review, mem_of_latest found⟩

theorem standingDecision_author {author state : String} {reviews : List PullRequestReview}
    (standing : standingDecision author reviews = some state) : author ∈ authors reviews := by
  obtain ⟨review, mem, same⟩ := mem_authors.mp (lastState_author standing)
  exact mem_authors.mpr ⟨review, List.mem_of_mem_filter mem, same⟩

theorem mem_holding_last {author state : String} {reviews : List PullRequestReview} :
    author ∈ holding lastState state reviews ↔ lastState author reviews = some state := by
  rw [holding, Finset.mem_filter]
  exact ⟨And.right, fun last => ⟨lastState_author last, last⟩⟩

theorem mem_holding_standing {author state : String} {reviews : List PullRequestReview} :
    author ∈ holding standingDecision state reviews ↔
      standingDecision author reviews = some state := by
  rw [holding, Finset.mem_filter]
  exact ⟨And.right, fun standing => ⟨standingDecision_author standing, standing⟩⟩

theorem standingDecision_of_last {author : String} {reviews : List PullRequestReview}
    {review : PullRequestReview} (found : latest (·.author) author reviews = some review)
    (decided : decides review = true) : standingDecision author reviews = some review.state := by
  obtain ⟨before, concat⟩ := List.getLast?_eq_some_iff.mp found
  have swapped : (reviews.filter decides).filter (fun review => review.author = author) =
      before.filter decides ++ [review] := by
    rw [List.filter_comm, concat, List.filter_append]
    simp [decided]
  rw [standingDecision, lastState, latest, swapped]
  simp

theorem holding_last_subset {state : String} (reviews : List PullRequestReview)
    (deciding : ["approved", "changes_requested", "dismissed"].contains state = true) :
    holding lastState state reviews ⊆ holding standingDecision state reviews := by
  intro author last
  rw [mem_holding_last] at last
  obtain ⟨review, found, rfl⟩ := Option.map_eq_some_iff.mp last
  exact mem_holding_standing.mpr (standingDecision_of_last found deciding)

end Standing

section Summary

theorem reviewState_changesRequested {requested : Bool} {approvals : ℕ}
    {reviews : List PullRequestReview} :
    reviewState requested approvals reviews = .changesRequested ↔ requested = true := by
  unfold reviewState
  split_ifs with asked <;> simp [asked]

theorem reviewState_approved {requested : Bool} {approvals : ℕ} {reviews : List PullRequestReview} :
    reviewState requested approvals reviews = .approved ↔ ¬requested = true ∧ 0 < approvals := by
  unfold reviewState
  split_ifs with asked some <;> simp_all

variable (reviews : List PullRequestReview)

theorem keys_toFinset (state : String) :
    (((inventory (·.author) reviews).filter fun entry => entry.2.state = state).map Prod.fst).toFinset =
      holding lastState state reviews := by
  ext author
  rw [mem_holding_last, List.mem_toFinset, List.mem_map]
  constructor
  · rintro ⟨entry, mem, rfl⟩
    obtain ⟨mem, same⟩ := List.mem_filter.mp mem
    have found := lookup_of_mem (nodup_inventory reviews) mem
    rw [lookup_inventory] at found
    rw [lastState, found]
    simpa using same
  · intro last
    obtain ⟨review, found, same⟩ := Option.map_eq_some_iff.mp last
    rw [← lookup_inventory] at found
    exact ⟨(author, review), List.mem_filter.mpr ⟨mem_of_lookup found, by simpa using same⟩, rfl⟩

theorem summary_count (state : String) :
    ((inventory (·.author) reviews).map (·.2.state)).countP (· = state) =
      (holding lastState state reviews).card := by
  have distinct : (((inventory (·.author) reviews).filter
      fun entry => entry.2.state = state).map Prod.fst).Nodup :=
    (nodup_inventory reviews).sublist (List.filter_sublist.map Prod.fst)
  rw [← keys_toFinset, List.toFinset_card_of_nodup distinct, List.length_map, List.countP_map,
    List.countP_eq_length_filter]
  rfl

theorem summary_any (state : String) :
    ((inventory (·.author) reviews).map (·.2.state)).any (· = state) = true ↔
      (holding lastState state reviews).Nonempty := by
  rw [← Finset.card_pos, ← summary_count, List.countP_pos_iff, List.any_eq_true]

theorem summary_approvals : (summarizeGithubReviews reviews).approvals =
    (holding lastState "approved" reviews).card :=
  summary_count reviews "approved"

theorem summary_changesRequested :
    (summarizeGithubReviews reviews).state = .changesRequested ↔
      (holding lastState "changes_requested" reviews).Nonempty := by
  rw [← summary_any]
  exact reviewState_changesRequested

theorem summary_approved :
    (summarizeGithubReviews reviews).state = .approved ↔
      ¬(holding lastState "changes_requested" reviews).Nonempty ∧
        (holding lastState "approved" reviews).Nonempty := by
  rw [← summary_any, ← Finset.card_pos, ← summary_count]
  exact reviewState_approved

/-- The summary is that of the standing decisions exactly when no approval is followed by
a review that decides nothing, and when one of the change requests is its author's last
word. -/
theorem summary_follows_standing :
    FollowsStanding reviews ↔
      (∀ author, standingDecision author reviews = some "approved" →
        lastState author reviews = some "approved") ∧
      ((∃ author, standingDecision author reviews = some "changes_requested") →
        ∃ author, lastState author reviews = some "changes_requested") := by
  have approvedSubset : holding lastState "approved" reviews ⊆
      holding standingDecision "approved" reviews := holding_last_subset reviews rfl
  have changesSubset : holding lastState "changes_requested" reviews ⊆
      holding standingDecision "changes_requested" reviews := holding_last_subset reviews rfl
  constructor
  · intro follows
    have same : holding lastState "approved" reviews = holding standingDecision "approved" reviews := by
      refine Finset.eq_of_subset_of_card_le approvedSubset ?_
      rw [← summary_approvals, follows.approvals]
    refine ⟨fun author standing => ?_, fun requested => ?_⟩
    · rw [← mem_holding_last, same, mem_holding_standing]
      exact standing
    · obtain ⟨author, standing⟩ := requested
      have some := follows.changesRequested.mpr ⟨author, mem_holding_standing.mpr standing⟩
      obtain ⟨other, last⟩ := (summary_changesRequested reviews).mp some
      exact ⟨other, mem_holding_last.mp last⟩
  · intro ⟨approvals, changes⟩
    have same : holding lastState "approved" reviews = holding standingDecision "approved" reviews :=
      approvedSubset.antisymm fun author standing =>
        mem_holding_last.mpr (approvals author (mem_holding_standing.mp standing))
    have requested : (holding lastState "changes_requested" reviews).Nonempty ↔
        (holding standingDecision "changes_requested" reviews).Nonempty := by
      refine ⟨fun last => last.mono changesSubset, fun ⟨author, standing⟩ => ?_⟩
      obtain ⟨other, last⟩ := changes ⟨author, mem_holding_standing.mp standing⟩
      exact ⟨other, mem_holding_last.mpr last⟩
    refine ⟨(summary_changesRequested reviews).trans requested, fun none => ?_, ?_⟩
    · rw [summary_approved, requested, same]
      exact and_iff_right none
    · rw [summary_approvals, same]

def commentedApproval : List PullRequestReview :=
  [{ id := "1", author := "alice", state := "approved", submittedAt := none },
    { id := "2", author := "alice", state := "commented", submittedAt := none }]

theorem comment_hides_approval :
    ¬∀ reviews : List PullRequestReview,
      (∀ review ∈ reviews, review.state ∈ githubReviewStates) → FollowsStanding reviews := by
  intro all
  have known : ∀ review ∈ commentedApproval, review.state ∈ githubReviewStates := by decide
  have approvals := (all commentedApproval known).approvals
  have none : (summarizeGithubReviews commentedApproval).approvals = 0 := by decide
  have one : holding standingDecision "approved" commentedApproval = {"alice"} := by decide
  rw [none, one] at approvals
  simp at approvals

end Summary

end CodeSystemGraph.PullRequests
