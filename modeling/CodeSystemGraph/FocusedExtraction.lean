import CodeSystemGraph.ExtractorBatches
import CodeSystemGraph.IncrementalPlan
import CodeSystemGraph.ParallelMap
import CodeSystemGraph.WorkState

/-!
Focused extractor batches: what a scan gathers of them, and the fence that stops the workers after
a failure. What the ordered merge sees does not depend on the schedule of the workers.
-/

namespace CodeSystemGraph.Incremental

open Extraction Model Ordered Parallel
open Store (ArtifactFingerprint StoredExtractorBatch)

inductive FocusedKind
  | source | package | generatedClient | graphql | event | protobuf | data | infrastructure
  | documentation | config
deriving DecidableEq

def sourceExtractor (extractor : String) : Bool :=
  ["code-system-graph.source.javascript", "code-system-graph.source.typescript",
    "code-system-graph.source.rust", "code-system-graph.source.python",
    "code-system-graph.source.go", "code-system-graph.source.java"].contains extractor

def graphqlExtractor (extractor : String) : Bool :=
  ["code-system-graph.graphql.document", "code-system-graph.graphql.persisted",
    "code-system-graph.graphql.source"].contains extractor

def eventExtractor (extractor : String) : Bool :=
  ["code-system-graph.events.asyncapi", "code-system-graph.events.source"].contains extractor

def protobufExtractor (extractor : String) : Bool :=
  ["code-system-graph.protobuf", "code-system-graph.protobuf.generated"].contains extractor

def dataExtractor (extractor : String) : Bool :=
  ["code-system-graph.data.artifact", "code-system-graph.data.source"].contains extractor

def infrastructureExtractor (extractor : String) : Bool :=
  ["code-system-graph.infrastructure.compose", "code-system-graph.infrastructure.kubernetes",
    "code-system-graph.infrastructure.helm",
    "code-system-graph.infrastructure.terraform"].contains extractor

def documentationExtractor (extractor : String) : Bool :=
  ["code-system-graph.documents.markdown", "code-system-graph.documents.codeowners",
    "code-system-graph.documents.catalog"].contains extractor

def focusedExtractor (extractor : String) : Bool :=
  sourceExtractor extractor ||
    ["code-system-graph.packages", "code-system-graph.http.generated-client"].contains extractor ||
    graphqlExtractor extractor || eventExtractor extractor || protobufExtractor extractor ||
    dataExtractor extractor || infrastructureExtractor extractor ||
    documentationExtractor extractor || extractor == "code-system-graph.config.safe"

structure Documents where
  Output : FocusedKind → Type

inductive ApplicationError (E : Type)
  | registryAliasMissing (name : String)
  | initialization (message : String)
  | batch (error : BatchPlanError)
  | extraction (error : E)

structure FocusedOutput (docs : Documents) where
  kind : FocusedKind
  batch : ExtractorBatch (docs.Output kind)

structure FocusedBatchState (docs : Documents) where
  outputs : List (FocusedOutput docs)
  storedBatches : List StoredExtractorBatch
  unpublishedBatches : List Nat
  degradations : List String
  checkpointWrites : Nat

def focusedOnly (fingerprints : List ArtifactFingerprint) : List ArtifactFingerprint :=
  fingerprints.filter fun fingerprint => focusedExtractor fingerprint.extractor

/-- Batches that are not marked as unpublished were published before. -/
structure MarksUnpublished {docs : Documents} (previous : List StoredExtractorBatch)
    (state : FocusedBatchState docs) : Prop where
  ascending : state.unpublishedBatches.Pairwise (· < ·)
  others : ∀ index batch, state.storedBatches[index]? = some batch →
    index ∉ state.unpublishedBatches → batch ∈ previous

section Fence

abbrev FailureFence := Option Nat

def FailureFence.skips (fence : FailureFence) (index : Nat) : Bool :=
  fence.any fun failed => failed < index

def FailureFence.record (index : Nat) (fence : FailureFence) : FailureFence :=
  some (fence.elim index (min index))

def finishJob {E O : Type} (index : Nat) :
    Except E O → Operation FailureFence (Option (Except E O)) 1
  | .ok outcome => .result (some (.ok outcome))
  | .error e => .atomic (FailureFence.record index) fun _ => .result (some (.error e))

/-- What a worker does with a job, which it skips if one before it failed. -/
def attempt {E O Job : Type} (run : Job → Except E O) (indexed : Nat × Job) :
    Operation FailureFence (Option (Except E O)) 2 :=
  .atomic id fun fence =>
    if fence.skips indexed.1 then .result none else finishJob indexed.1 (run indexed.2)

variable {E O Job : Type} {run : Job → Except E O} {jobs : List Job}

/-- Some job before the index fails. -/
def FailsBefore (run : Job → Except E O) (jobs : List Job) (index : Nat) : Prop :=
  ∃ failed < index, ∃ job e, jobs[failed]? = some job ∧ run job = .error e

def Attempted (run : Job → Except E O) (jobs : List Job) (index : Nat)
    (result : Option (Except E O)) : Prop :=
  ∃ job, jobs[index]? = some job ∧
    (result = some (run job) ∨ result = none ∧ FailsBefore run jobs index)

def Recorded (run : Job → Except E O) (jobs : List Job) (fence : FailureFence) : Prop :=
  ∀ failed ∈ fence, ∃ job e, jobs[failed]? = some job ∧ run job = .error e

theorem attempt_keeps {indexed : Nat × Job} (found : jobs[indexed.1]? = some indexed.2) :
    (attempt run indexed).Keeps (Recorded run jobs) (Attempted run jobs indexed.1) := by
  intro fence recorded
  refine ⟨recorded, ?_⟩
  beta_reduce
  by_cases skips : fence.skips indexed.1 = true
  · rw [if_pos skips]
    refine ⟨indexed.2, found, .inr ⟨rfl, ?_⟩⟩
    cases fence with
    | none => cases skips
    | some failed => exact ⟨failed, of_decide_eq_true skips, recorded failed rfl⟩
  · rw [if_neg skips]
    cases done : run indexed.2 with
    | ok outcome => exact ⟨indexed.2, found, .inl (by rw [done])⟩
    | error e =>
      intro later recorded
      refine ⟨?_, indexed.2, found, .inl (by rw [done])⟩
      intro failed is
      obtain rfl := Option.some.inj is
      cases later with
      | none => exact ⟨indexed.2, e, found, done⟩
      | some lowest =>
        rcases Nat.le_total indexed.1 lowest with below | above
        · rw [Option.elim_some, Nat.min_eq_left below]
          exact ⟨indexed.2, e, found, done⟩
        · rw [Option.elim_some, Nat.min_eq_right above]
          exact recorded lowest rfl

theorem getElem?_indexed {index : Nat} {indexed : Nat × Job}
    (found : (jobs.zipIdx.map Prod.swap)[index]? = some indexed) :
    indexed.1 = index ∧ jobs[indexed.1]? = some indexed.2 := by
  rw [List.getElem?_map, List.getElem?_zipIdx, Option.map_map, Option.map_eq_some_iff] at found
  obtain ⟨job, is, rfl⟩ := found
  exact ⟨Nat.zero_add index, by simpa using is⟩

theorem attempted {workers : Nat} {finished : FailureFence × List (Option (Except E O))}
    (ended : MapOrdered (jobs.zipIdx.map Prod.swap) (attempt run) workers none finished) :
    finished.2.length = jobs.length ∧
      ∀ index result, finished.2[index]? = some result → Attempted run jobs index result := by
  have spec := (@mapOrdered_spec _ _ _ 2 (jobs.zipIdx.map Prod.swap) (attempt run)
    (Recorded run jobs) (Attempted run jobs) none (fun failed is => by cases is)
    (fun index indexed found => ?_) workers).2 finished ended
  · exact ⟨by simpa using spec.2.1, spec.2.2⟩
  · obtain ⟨rfl, job⟩ := getElem?_indexed found
    exact attempt_keeps job

theorem mapM_of_attempted {results : List (Option (Except E O))} (length : results.length = jobs.length)
    (all : ∀ index result, results[index]? = some result → Attempted run jobs index result) :
    (results.filterMap id).mapM id = jobs.mapM run := by
  induction jobs generalizing results with
  | nil =>
    obtain rfl := List.eq_nil_of_length_eq_zero length
    rfl
  | cons job jobs ih =>
    obtain _ | ⟨result, results⟩ := results
    · cases length
    obtain ⟨job', found, first⟩ := all 0 result rfl
    obtain rfl := Option.some.inj found
    rcases first with rfl | ⟨-, failed, before, -⟩
    · rw [List.filterMap_cons_some (f := id) (b := run job) rfl, List.mapM_cons, List.mapM_cons]
      cases done : run job with
      | error e => rfl
      | ok outcome =>
        have rest := ih (Nat.succ.inj length) fun index result found => by
          obtain ⟨later, is, cases⟩ := all (index + 1) result found
          refine ⟨later, is, cases.imp_right fun skipped => ⟨skipped.1, ?_⟩⟩
          obtain ⟨failed, before, job', e, at_failed, fails⟩ := skipped.2
          cases failed with
          | zero =>
            obtain rfl := Option.some.inj at_failed
            rw [done] at fails
            cases fails
          | succ failed => exact ⟨failed, Nat.lt_of_succ_lt_succ before, job', e, at_failed, fails⟩
        rw [id, rest]
    · exact absurd before (Nat.not_lt_zero failed)

theorem mapOrdered_attempt {workers : Nat} {finished : FailureFence × List (Option (Except E O))}
    (ended : MapOrdered (jobs.zipIdx.map Prod.swap) (attempt run) workers none finished) :
    (finished.2.filterMap id).mapM id = jobs.mapM run := by
  obtain ⟨length, all⟩ := attempted ended
  exact mapM_of_attempted length all

/-- The second of four jobs fails while the first still runs; the others are skipped. -/
theorem mapOrdered_attempt_skips :
    let run : Nat → Except Nat Nat := fun job => if job % 2 = 0 then .error job else .ok job
    let finished : FailureFence × List (Option (Except Nat Nat)) :=
      (some 1, [some (.ok 1), some (.error 2), none, none])
    MapOrdered ([1, 2, 3, 4].zipIdx.map Prod.swap) (attempt run) 2 none finished ∧
      (finished.2.filterMap id).mapM id = [1, 2, 3, 4].mapM run := by
  intro run finished
  have ended : MapOrdered ([1, 2, 3, 4].zipIdx.map Prod.swap) (attempt run) 2 none finished := by
    refine (if_neg (by decide)).mpr ⟨[0, 1, 1, 1, 1, 1, 1, 0, 0, 0, 0, 0, 0, 1, 1], ⟨some 1, 6,
      [⟨.stopped, [(0, some (.ok 1)), (3, none)]⟩, ⟨.stopped, [(1, some (.error 2)), (2, none)]⟩]⟩,
      rfl, ?_, rfl⟩
    simp [Pool.finished]
  exact ⟨ended, mapOrdered_attempt ended⟩

end Fence

end CodeSystemGraph.Incremental
