import CodeSystemGraph.ExtractionBudget

/-!
The batches of outputs that extractors store and load, under their budgets.
-/

namespace CodeSystemGraph.Extraction

open Model Ordered Store

structure ExtractorBatch (T : Type) where
  source : ArtifactFingerprint
  outputs : List T

inductive BatchPlanError
  | invalidPayload (message : String)
  | extractionLimit (limit : ExtractionLimitExceeded)
  | outputCountOverflow
  | outputCountMismatch (stored : UInt64) (decoded : Nat)
deriving DecidableEq

/-- What `serde_json` makes of outputs: the pieces that `to_writer` writes, with the error that
ends them if there is one, and the reading of a payload. -/
structure Codec (T : Type) where
  toWriter : List T → List Bytes × Option String
  fromSlice : Bytes → Except String (List T)

def Codec.RoundTrips {T : Type} (codec : Codec T) (outputs : List T) : Prop :=
  ∀ pieces, codec.toWriter outputs = (pieces, none) →
    codec.fromSlice pieces.flatten = .ok outputs

structure BoundedJsonWriter where
  bytes : Bytes
  maximum : Nat
  exceeded : Option Nat := none

/-- Whether the buffer was taken, and the writer after it. No two buffers in memory have lengths
whose sum is above `u64::MAX`, at which the source saturates. -/
def BoundedJsonWriter.write (writer : BoundedJsonWriter) (buffer : Bytes) : Bool × BoundedJsonWriter :=
  let observed := writer.bytes.length + buffer.length
  if writer.maximum < observed then (false, { writer with exceeded := some observed })
  else (true, { writer with bytes := writer.bytes ++ buffer })

/-- Writes in a row, until one is refused. -/
def BoundedJsonWriter.writeAll (writer : BoundedJsonWriter) : List Bytes → Bool × BoundedJsonWriter
  | [] => (true, writer)
  | piece :: pieces =>
    match writer.write piece with
    | (false, writer) => (false, writer)
    | (true, writer) => writer.writeAll pieces

namespace ExtractionTracker

variable (tracker : ExtractionTracker)

def boundedJsonWriter : BoundedJsonWriter where
  bytes := []
  maximum := tracker.budgets.maximum .serializedOutputBytes

def outputLimitError (writer : BoundedJsonWriter) : Option ExtractionLimitExceeded :=
  writer.exceeded.map (tracker.exceeded .serializedOutputBytes)

end ExtractionTracker

section Batches

variable {T : Type} (codec : Codec T) (stableId : String → String → String)

def storeExtractorBatch (batch : ExtractorBatch T) (tracker : ExtractionTracker)
    (sourceWasLossy : Bool) : Except BatchPlanError StoredExtractorBatch × ExtractionTracker :=
  match tracker.ensureObservations batch.outputs.length with
  | (.error e, tracker) => (.error (.extractionLimit e), tracker)
  | (.ok (), tracker) =>
    let (pieces, failure) := codec.toWriter batch.outputs
    let (taken, writer) := tracker.boundedJsonWriter.writeAll pieces
    if taken && failure.isNone then
      if u64Max < batch.outputs.length then (.error .outputCountOverflow, tracker)
      else
        (.ok
          { source := batch.source
            extractorVersion := extractionContractVersion
            budgetFingerprint := tracker.budgets.fingerprint stableId
            sourceWasLossy
            outputCount := .ofNat batch.outputs.length
            payload := writer.bytes }, tracker)
    else
      (.error (((tracker.outputLimitError writer).map .extractionLimit).getD
        (.invalidPayload (failure.getD ""))), tracker)

def loadExtractorBatchWithBudgets (stored : StoredExtractorBatch) (budgets : ExtractionBudgets) :
    Except BatchPlanError (ExtractorBatch T) :=
  let exceeded (resource : ExtractionResource) (observed : Nat) : BatchPlanError :=
    .extractionLimit ⟨stored.source.path.display, stored.source.extractor, resource, observed,
      budgets.maximum resource⟩
  if budgets.maximum .observations < stored.outputCount.toNat then
    .error (exceeded .observations stored.outputCount.toNat)
  else if budgets.maximum .serializedOutputBytes < stored.payload.length then
    .error (exceeded .serializedOutputBytes stored.payload.length)
  else
    match codec.fromSlice stored.payload with
    | .error message => .error (.invalidPayload message)
    | .ok outputs =>
      if stored.outputCount.toNat ≠ outputs.length then
        .error (.outputCountMismatch stored.outputCount outputs.length)
      else .ok ⟨stored.source, outputs⟩

def loadExtractorBatch (stored : StoredExtractorBatch) : Except BatchPlanError (ExtractorBatch T) :=
  loadExtractorBatchWithBudgets codec stored {}

end Batches

section Writer

theorem writeAll_cons (writer : BoundedJsonWriter) (piece : Bytes) (pieces : List Bytes) :
    writer.writeAll (piece :: pieces) =
      if writer.maximum < writer.bytes.length + piece.length then
        (false, { writer with exceeded := some (writer.bytes.length + piece.length) })
      else BoundedJsonWriter.writeAll { writer with bytes := writer.bytes ++ piece } pieces := by
  rw [BoundedJsonWriter.writeAll, BoundedJsonWriter.write]
  by_cases full : writer.maximum < writer.bytes.length + piece.length
  · simp only [if_pos full]
  · simp only [if_neg full]

theorem writeAll_taken {writer : BoundedJsonWriter} {pieces : List Bytes}
    (within : writer.bytes.length ≤ writer.maximum) :
    (writer.writeAll pieces).1 = true ↔
      writer.bytes.length + pieces.flatten.length ≤ writer.maximum := by
  induction pieces generalizing writer with
  | nil => simp [BoundedJsonWriter.writeAll, within]
  | cons piece pieces ih =>
    rw [writeAll_cons, List.flatten_cons, List.length_append]
    split
    · next full =>
      refine iff_of_false (fun taken => by cases taken) ?_
      omega
    · next room =>
      rw [ih (by rw [List.length_append]; exact Nat.not_lt.1 room), List.length_append, Nat.add_assoc]

theorem writeAll_bytes {writer : BoundedJsonWriter} {pieces : List Bytes}
    (taken : (writer.writeAll pieces).1 = true) :
    (writer.writeAll pieces).2.bytes = writer.bytes ++ pieces.flatten := by
  induction pieces generalizing writer with
  | nil => simp [BoundedJsonWriter.writeAll]
  | cons piece pieces ih =>
    rw [writeAll_cons] at taken ⊢
    split at taken
    · cases taken
    · next room =>
      rw [if_neg room, ih taken, List.flatten_cons, List.append_assoc]

end Writer

section RoundTrip

variable {T : Type} {codec : Codec T} {stableId : String → String → String}

theorem ensureObservations_performed {tracker : ExtractionTracker}
    (within : tracker.usage.Within tracker.budgets) (sampled : tracker.Sampled) (minimum : Nat) :
    Performed tracker (0, .ensure minimum) (tracker.ensureObservations minimum).1
      (tracker.ensureObservations minimum).2 :=
  perform_performed within sampled 0 (.ensure minimum)

theorem storeExtractorBatch_eq_ok {batch : ExtractorBatch T} {tracker : ExtractionTracker}
    {lossy : Bool} {stored : StoredExtractorBatch}
    (within : tracker.usage.Within tracker.budgets) (sampled : tracker.Sampled)
    (done : (storeExtractorBatch codec stableId batch tracker lossy).1 = .ok stored) :
    ∃ pieces, codec.toWriter batch.outputs = (pieces, none) ∧
      stored = ⟨batch.source, extractionContractVersion, tracker.budgets.fingerprint stableId, lossy,
        .ofNat batch.outputs.length, pieces.flatten⟩ ∧
      stored.outputCount.toNat = batch.outputs.length ∧
      batch.outputs.length ≤ tracker.budgets.maximum .observations ∧
      pieces.flatten.length ≤ tracker.budgets.maximum .serializedOutputBytes := by
  have performed := ensureObservations_performed within sampled batch.outputs.length
  rw [storeExtractorBatch] at done
  split at done
  · cases done
  · next next ensured =>
    rw [ensured] at performed
    have budgets : next.budgets = tracker.budgets := performed.budgets
    obtain ⟨-, usage, -⟩ := performed.accepted rfl
    have observed : batch.outputs.length ≤ tracker.budgets.maximum .observations := by
      have kept := performed.within.observations
      rw [usage, budgets] at kept
      exact (Nat.le_max_right _ _).trans kept
    split at done
    next pieces failure written =>
    split at done
    next taken writer wrote =>
    have empty : next.boundedJsonWriter.bytes.length ≤ next.boundedJsonWriter.maximum :=
      Nat.zero_le _
    split at done
    · next both =>
      obtain ⟨rfl, none⟩ := Bool.and_eq_true_iff.1 both
      rw [Option.isNone_iff_eq_none] at none
      subst none
      have took : (next.boundedJsonWriter.writeAll pieces).1 = true := by rw [wrote]
      have bytes := writeAll_bytes took
      have room := (writeAll_taken empty).1 took
      rw [wrote] at bytes
      change 0 + pieces.flatten.length ≤ next.budgets.maximum .serializedOutputBytes at room
      rw [Nat.zero_add, budgets] at room
      split at done
      · cases done
      · next counted =>
        obtain rfl := Except.ok.inj done
        refine ⟨pieces, written, ?_, ?_, observed, room⟩
        · rw [budgets, bytes]
          rfl
        · exact UInt64.toNat_ofNat_of_lt' (Nat.lt_succ_of_le (Nat.not_lt.1 counted))
    · cases done

/-- A batch that a tracker stored, after whatever it was charged before, is loaded again under its
own budgets; and under others exactly when it is within them. -/
theorem loadExtractorBatchWithBudgets_stored {batch : ExtractorBatch T}
    (roundTrips : codec.RoundTrips batch.outputs) {artifact extractor : String}
    {budgets : ExtractionBudgets} {calls : List (Nat × Call)} {lossy : Bool}
    {stored : StoredExtractorBatch}
    (done : (storeExtractorBatch codec stableId batch
      (performAll (.new artifact extractor budgets) calls).2 lossy).1 = .ok stored) :
    loadExtractorBatchWithBudgets codec stored budgets = .ok batch ∧
    ∀ other, loadExtractorBatchWithBudgets codec stored other = .ok batch ↔
      batch.outputs.length ≤ other.maximum .observations ∧
      stored.payload.length ≤ other.maximum .serializedOutputBytes := by
  have ran := performAll_ran (new_within artifact extractor budgets)
    (new_sampled artifact extractor budgets) calls
  have same : (performAll (.new artifact extractor budgets) calls).2.budgets = budgets := ran.budgets
  obtain ⟨pieces, written, is, count, observed, room⟩ :=
    storeExtractorBatch_eq_ok ran.within ran.sampled done
  rw [same] at observed room
  have payload : stored.payload = pieces.flatten := by rw [is]
  have source : stored.source = batch.source := by rw [is]
  have loads : ∀ other : ExtractionBudgets,
      loadExtractorBatchWithBudgets codec stored other = .ok batch ↔
        batch.outputs.length ≤ other.maximum .observations ∧
        stored.payload.length ≤ other.maximum .serializedOutputBytes := by
    intro other
    rw [loadExtractorBatchWithBudgets]
    simp only [count, payload, roundTrips pieces written, source]
    split
    · next many => exact iff_of_false (fun ok => by cases ok) (by omega)
    · split
      · next long => exact iff_of_false (fun ok => by cases ok) (by omega)
      · exact iff_of_true (if_neg (fun differ => differ rfl)) (by omega)
  refine ⟨(loads budgets).2 ⟨observed, ?_⟩, loads⟩
  rw [payload]
  exact room

def nullPieces : List Unit → List Bytes
  | [] => [[91], [93]]
  | _ :: rest => [91] :: [110, 117, 108, 108] ::
    ((rest.flatMap fun _ => [[44], [110, 117, 108, 108]]) ++ [[93]])

def nullCodec : Codec Unit where
  toWriter outputs := (nullPieces outputs, none)
  fromSlice payload :=
    let outputs := List.replicate ((payload.length - 1) / 5) ()
    if payload = (nullPieces outputs).flatten then .ok outputs else .error "expected value"

theorem length_nullPieces (outputs : List Unit) :
    ((nullPieces outputs).flatten.length - 1) / 5 = outputs.length := by
  cases outputs with
  | nil => rfl
  | cons first rest =>
    have pairs : (rest.flatMap fun _ => [[44], [110, 117, 108, 108]] : List Bytes).flatten.length =
        rest.length * 5 := by
      induction rest with
      | nil => rfl
      | cons second rest ih =>
        rw [List.flatMap_cons, List.flatten_append, List.length_append, ih, List.length_cons]
        simp only [List.flatten_cons, List.flatten_nil, List.length_append, List.length_cons,
          List.length_nil]
        omega
    simp only [nullPieces, List.flatten_cons, List.flatten_append, List.length_append, pairs,
      List.flatten_nil, List.length_cons, List.length_nil]
    omega

theorem nullCodec_roundTrips (outputs : List Unit) : nullCodec.RoundTrips outputs := by
  intro pieces written
  obtain rfl := (Prod.mk.inj written).1
  have units : List.replicate outputs.length () = outputs :=
    (List.eq_replicate_of_mem fun _ _ => rfl).symm
  simp only [nullCodec, length_nullPieces, units, if_true]

def sampleFingerprint : ArtifactFingerprint :=
  ⟨"repo:api", "checkout:api", ⟨.utf8, [97], "a"⟩, "code-system-graph.packages", "h", 1⟩

theorem loadExtractorBatchWithBudgets_stored_nulls :
    ∃ stored, (storeExtractorBatch nullCodec (· ++ ":" ++ ·) ⟨sampleFingerprint, [(), ()]⟩
        (performAll (.new "a" "code-system-graph.packages" {}) [(0, .observation 1)]).2 false).1 =
          .ok stored ∧
      loadExtractorBatchWithBudgets nullCodec stored {} = .ok ⟨sampleFingerprint, [(), ()]⟩ := by
  have succeeds : (storeExtractorBatch nullCodec (· ++ ":" ++ ·) ⟨sampleFingerprint, [(), ()]⟩
      (performAll (.new "a" "code-system-graph.packages" {}) [(0, .observation 1)]).2
        false).1.isOk = true := by
    decide
  cases done : (storeExtractorBatch nullCodec (· ++ ":" ++ ·) ⟨sampleFingerprint, [(), ()]⟩
      (performAll (.new "a" "code-system-graph.packages" {}) [(0, .observation 1)]).2 false).1 with
  | error e =>
    rw [done] at succeeds
    cases succeeds
  | ok stored =>
    exact ⟨stored, rfl, (loadExtractorBatchWithBudgets_stored (nullCodec_roundTrips _) done).1⟩

end RoundTrip

end CodeSystemGraph.Extraction
