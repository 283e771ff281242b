import CodeSystemGraph.Ordered
import CodeSystemGraph.StoreRecords

/-!
The budgets of one extraction, the tracker that charges what the extractor does to them, and the
batches that are stored and loaded under them. The clock is read at most once in a call; its
reading comes with the call.
-/

namespace CodeSystemGraph.Extraction

open Model Ordered Store

def extractionContractVersion : String := "1.2.1"

structure ExtractionBudgets where
  maxInputBytesPerArtifact : UInt64 := 8388608
  maxStructuralDepthPerArtifact : UInt64 := 64
  maxAstDepthPerArtifact : UInt64 := 256
  maxWorkUnitsPerArtifact : UInt64 := 100000
  maxTreeSitterNodesPerArtifact : UInt64 := 500000
  maxObservationsPerArtifact : UInt64 := 100000
  maxAccumulatedStringBytesPerArtifact : UInt64 := 33554432
  maxSerializedOutputBytesPerArtifact : UInt64 := 33554432
  maxStringBytesPerValue : UInt64 := 65536
  maxPortablePathBytesPerValue : UInt64 := 4096
  maxIdentifierBytesPerValue : UInt64 := 1024
  maxStructuredWallTimeMsPerArtifact : UInt64 := 5000
  maxTreeSitterWallTimeMsPerArtifact : UInt64 := 10000
deriving DecidableEq

inductive ExtractionResource
  | inputBytes | structuralDepth | astDepth | workUnits | treeSitterNodes | observations
  | accumulatedStringBytes | serializedOutputBytes | stringBytesPerValue
  | portablePathBytesPerValue | identifierBytesPerValue | structuredWallTimeMs
  | treeSitterWallTimeMs
deriving DecidableEq

namespace ExtractionBudgets

def canonicalValues (budgets : ExtractionBudgets) : List (String × UInt64) :=
  [("maxInputBytesPerArtifact", budgets.maxInputBytesPerArtifact),
    ("maxStructuralDepthPerArtifact", budgets.maxStructuralDepthPerArtifact),
    ("maxAstDepthPerArtifact", budgets.maxAstDepthPerArtifact),
    ("maxWorkUnitsPerArtifact", budgets.maxWorkUnitsPerArtifact),
    ("maxTreeSitterNodesPerArtifact", budgets.maxTreeSitterNodesPerArtifact),
    ("maxObservationsPerArtifact", budgets.maxObservationsPerArtifact),
    ("maxAccumulatedStringBytesPerArtifact", budgets.maxAccumulatedStringBytesPerArtifact),
    ("maxSerializedOutputBytesPerArtifact", budgets.maxSerializedOutputBytesPerArtifact),
    ("maxStringBytesPerValue", budgets.maxStringBytesPerValue),
    ("maxPortablePathBytesPerValue", budgets.maxPortablePathBytesPerValue),
    ("maxIdentifierBytesPerValue", budgets.maxIdentifierBytesPerValue),
    ("maxStructuredWallTimeMsPerArtifact", budgets.maxStructuredWallTimeMsPerArtifact),
    ("maxTreeSitterWallTimeMsPerArtifact", budgets.maxTreeSitterWallTimeMsPerArtifact)]

def canonical (budgets : ExtractionBudgets) : String :=
  ";".intercalate (budgets.canonicalValues.map fun entry => entry.1 ++ "=" ++ entry.2.toNat.repr)

def fingerprint (stableId : String → String → String) (budgets : ExtractionBudgets) : String :=
  stableId "extraction-budgets" budgets.canonical

end ExtractionBudgets

def ExtractionBudgets.maximum (budgets : ExtractionBudgets) : ExtractionResource → Nat
  | .inputBytes => budgets.maxInputBytesPerArtifact.toNat
  | .structuralDepth => budgets.maxStructuralDepthPerArtifact.toNat
  | .astDepth => budgets.maxAstDepthPerArtifact.toNat
  | .workUnits => budgets.maxWorkUnitsPerArtifact.toNat
  | .treeSitterNodes => budgets.maxTreeSitterNodesPerArtifact.toNat
  | .observations => budgets.maxObservationsPerArtifact.toNat
  | .accumulatedStringBytes => budgets.maxAccumulatedStringBytesPerArtifact.toNat
  | .serializedOutputBytes => budgets.maxSerializedOutputBytesPerArtifact.toNat
  | .stringBytesPerValue => budgets.maxStringBytesPerValue.toNat
  | .portablePathBytesPerValue => budgets.maxPortablePathBytesPerValue.toNat
  | .identifierBytesPerValue => budgets.maxIdentifierBytesPerValue.toNat
  | .structuredWallTimeMs => budgets.maxStructuredWallTimeMsPerArtifact.toNat
  | .treeSitterWallTimeMs => budgets.maxTreeSitterWallTimeMsPerArtifact.toNat

structure ExtractionLimitExceeded where
  artifact : String
  extractor : String
  resource : ExtractionResource
  observed : Nat
  maximum : Nat
deriving DecidableEq

structure ExtractionTracker where
  budgets : ExtractionBudgets
  artifact : String
  extractor : String
  workUnits : Nat := 0
  treeSitterNodes : Nat := 0
  observations : Nat := 0
  accumulatedStringBytes : Nat := 0
  sampledUnits : Nat := 0
deriving DecidableEq

def u64Max : Nat := 18446744073709551615

abbrev Charged := Except ExtractionLimitExceeded Unit

namespace ExtractionTracker

def new (artifact extractor : String) (budgets : ExtractionBudgets) : ExtractionTracker where
  budgets
  artifact
  extractor

variable (tracker : ExtractionTracker)

/-- The source passes each resource with its budget. -/
def exceeded (resource : ExtractionResource) (observed : Nat) : ExtractionLimitExceeded :=
  ⟨tracker.artifact, tracker.extractor, resource, observed, tracker.budgets.maximum resource⟩

def checkValueBytes (observed : Nat) (resource : ExtractionResource) : Charged :=
  if tracker.budgets.maximum resource < observed then .error (tracker.exceeded resource observed)
  else .ok ()

def checkInputBytes (observed : Nat) : Charged := tracker.checkValueBytes observed .inputBytes
def checkStringBytes (observed : Nat) : Charged :=
  tracker.checkValueBytes observed .stringBytesPerValue
def checkIdentifierBytes (observed : Nat) : Charged :=
  tracker.checkValueBytes observed .identifierBytesPerValue
def checkAccumulatedStringBytes (observed : Nat) : Charged :=
  tracker.checkValueBytes observed .accumulatedStringBytes
def checkWorkUnits (observed : Nat) : Charged := tracker.checkValueBytes observed .workUnits
def checkObservations (observed : Nat) : Charged := tracker.checkValueBytes observed .observations
def checkStructuralDepth (depth : Nat) : Charged := tracker.checkValueBytes depth .structuralDepth
def checkAstDepth (depth : Nat) : Charged := tracker.checkValueBytes depth .astDepth

def chargeCounter (current amount : Nat) (resource : ExtractionResource) :
    Except ExtractionLimitExceeded Nat :=
  if u64Max < current + amount then .error (tracker.exceeded resource u64Max)
  else if tracker.budgets.maximum resource < current + amount then
    .error (tracker.exceeded resource (current + amount))
  else .ok (current + amount)

def timeResource (treeSitter : Bool) : ExtractionResource :=
  if treeSitter then .treeSitterWallTimeMs else .structuredWallTimeMs

def checkElapsed (elapsed : Nat) (treeSitter : Bool) : Charged :=
  tracker.checkValueBytes (min elapsed u64Max) (timeResource treeSitter)

def checkStructuredTime (elapsed : Nat) : Charged := tracker.checkElapsed elapsed false
def checkTreeSitterTime (elapsed : Nat) : Charged := tracker.checkElapsed elapsed true

/-- `work_units.saturating_add(tree_sitter_nodes)`. -/
def units : Nat := min (tracker.workUnits + tracker.treeSitterNodes) u64Max

def sampleTime (elapsed : Nat) (treeSitter : Bool) : Charged × ExtractionTracker :=
  if (tracker.sampledUnits = 0 ∧ 0 < tracker.units) ∨
      tracker.sampledUnits / 1024 < tracker.units / 1024 then
    (tracker.checkElapsed elapsed treeSitter, { tracker with sampledUnits := tracker.units })
  else (.ok (), tracker)

def charge (current amount : Nat) (resource : ExtractionResource)
    (accept : Nat → Charged × ExtractionTracker) : Charged × ExtractionTracker :=
  match tracker.chargeCounter current amount resource with
  | .error e => (.error e, tracker)
  | .ok observed => accept observed

def chargeWork (elapsed amount : Nat) : Charged × ExtractionTracker :=
  tracker.charge tracker.workUnits amount .workUnits fun workUnits =>
    { tracker with workUnits }.sampleTime elapsed false

def chargeTreeSitterNode (elapsed depth : Nat) : Charged × ExtractionTracker :=
  match tracker.checkAstDepth depth with
  | .error e => (.error e, tracker)
  | .ok () =>
    tracker.charge tracker.treeSitterNodes 1 .treeSitterNodes fun treeSitterNodes =>
      { tracker with treeSitterNodes }.sampleTime elapsed true

def chargeObservation (amount : Nat) : Charged × ExtractionTracker :=
  tracker.charge tracker.observations amount .observations fun observations =>
    (.ok (), { tracker with observations })

def ensureObservations (minimum : Nat) : Charged × ExtractionTracker :=
  if tracker.observations < minimum then
    tracker.chargeObservation (minimum - tracker.observations)
  else (.ok (), tracker)

def chargeValue (bytes : Nat) (resource : ExtractionResource) : Charged × ExtractionTracker :=
  match tracker.checkValueBytes bytes resource with
  | .error e => (.error e, tracker)
  | .ok () =>
    tracker.charge tracker.accumulatedStringBytes bytes .accumulatedStringBytes
      fun accumulatedStringBytes => (.ok (), { tracker with accumulatedStringBytes })

def chargeString (value : String) : Charged × ExtractionTracker :=
  tracker.chargeValue value.utf8ByteSize .stringBytesPerValue
def chargePortablePath (value : String) : Charged × ExtractionTracker :=
  tracker.chargeValue value.utf8ByteSize .portablePathBytesPerValue
def chargeIdentifier (value : String) : Charged × ExtractionTracker :=
  tracker.chargeValue value.utf8ByteSize .identifierBytesPerValue
def chargeIdentifierBytes (bytes : Nat) : Charged × ExtractionTracker :=
  tracker.chargeValue bytes .identifierBytesPerValue

end ExtractionTracker

/-- The calls of an extractor on its tracker. -/
inductive Call
  | inputBytes (observed : Nat)
  | stringBytes (observed : Nat)
  | identifierBytes (observed : Nat)
  | accumulatedStringBytes (observed : Nat)
  | workUnits (observed : Nat)
  | observations (observed : Nat)
  | structuralDepth (depth : Nat)
  | astDepth (depth : Nat)
  | structuredTime
  | treeSitterTime
  | work (amount : Nat)
  | node (depth : Nat)
  | observation (amount : Nat)
  | ensure (minimum : Nat)
  | string (value : String)
  | portablePath (value : String)
  | identifier (value : String)
  | identifierOf (bytes : Nat)

/-- A call, with what the clock shows in milliseconds if it reads it. -/
def perform (tracker : ExtractionTracker) (elapsed : Nat) : Call → Charged × ExtractionTracker
  | .inputBytes observed => (tracker.checkInputBytes observed, tracker)
  | .stringBytes observed => (tracker.checkStringBytes observed, tracker)
  | .identifierBytes observed => (tracker.checkIdentifierBytes observed, tracker)
  | .accumulatedStringBytes observed => (tracker.checkAccumulatedStringBytes observed, tracker)
  | .workUnits observed => (tracker.checkWorkUnits observed, tracker)
  | .observations observed => (tracker.checkObservations observed, tracker)
  | .structuralDepth depth => (tracker.checkStructuralDepth depth, tracker)
  | .astDepth depth => (tracker.checkAstDepth depth, tracker)
  | .structuredTime => (tracker.checkStructuredTime elapsed, tracker)
  | .treeSitterTime => (tracker.checkTreeSitterTime elapsed, tracker)
  | .work amount => tracker.chargeWork elapsed amount
  | .node depth => tracker.chargeTreeSitterNode elapsed depth
  | .observation amount => tracker.chargeObservation amount
  | .ensure minimum => tracker.ensureObservations minimum
  | .string value => tracker.chargeString value
  | .portablePath value => tracker.chargePortablePath value
  | .identifier value => tracker.chargeIdentifier value
  | .identifierOf bytes => tracker.chargeIdentifierBytes bytes

/-- Calls in a row, until one fails. -/
def performAll (tracker : ExtractionTracker) : List (Nat × Call) → Charged × ExtractionTracker
  | [] => (.ok (), tracker)
  | (elapsed, call) :: calls =>
    match perform tracker elapsed call with
    | (.error e, next) => (.error e, next)
    | (.ok (), next) => performAll next calls

/-- What calls have used up, by their own account. -/
@[ext] structure Usage where
  workUnits : Nat := 0
  treeSitterNodes : Nat := 0
  observations : Nat := 0
  accumulatedStringBytes : Nat := 0

namespace Usage

structure Within (usage : Usage) (budgets : ExtractionBudgets) : Prop where
  workUnits : usage.workUnits ≤ budgets.maximum .workUnits
  treeSitterNodes : usage.treeSitterNodes ≤ budgets.maximum .treeSitterNodes
  observations : usage.observations ≤ budgets.maximum .observations
  accumulatedStringBytes : usage.accumulatedStringBytes ≤ budgets.maximum .accumulatedStringBytes

def keep (usage : Usage) (bytes : Nat) : Usage :=
  { usage with accumulatedStringBytes := usage.accumulatedStringBytes + bytes }

/-- What a call uses up if it is accepted. -/
def spend (usage : Usage) : Call → Usage
  | .work amount => { usage with workUnits := usage.workUnits + amount }
  | .node _ => { usage with treeSitterNodes := usage.treeSitterNodes + 1 }
  | .observation amount => { usage with observations := usage.observations + amount }
  | .ensure minimum => { usage with observations := max usage.observations minimum }
  | .string value => usage.keep value.utf8ByteSize
  | .portablePath value => usage.keep value.utf8ByteSize
  | .identifier value => usage.keep value.utf8ByteSize
  | .identifierOf bytes => usage.keep bytes
  | _ => usage

def spendAll (usage : Usage) (calls : List (Nat × Call)) : Usage :=
  calls.foldl (fun usage call => usage.spend call.2) usage

end Usage

/-- What a call measures by itself, whatever was charged before. -/
def Call.measure : Call → Option (ExtractionResource × Nat)
  | .inputBytes observed => some (.inputBytes, observed)
  | .stringBytes observed => some (.stringBytesPerValue, observed)
  | .identifierBytes observed => some (.identifierBytesPerValue, observed)
  | .accumulatedStringBytes observed => some (.accumulatedStringBytes, observed)
  | .workUnits observed => some (.workUnits, observed)
  | .observations observed => some (.observations, observed)
  | .structuralDepth depth => some (.structuralDepth, depth)
  | .astDepth depth => some (.astDepth, depth)
  | .node depth => some (.astDepth, depth)
  | .string value => some (.stringBytesPerValue, value.utf8ByteSize)
  | .portablePath value => some (.portablePathBytesPerValue, value.utf8ByteSize)
  | .identifier value => some (.identifierBytesPerValue, value.utf8ByteSize)
  | .identifierOf bytes => some (.identifierBytesPerValue, bytes)
  | _ => none

def Call.clock : Call → Option ExtractionResource
  | .structuredTime | .work _ => some .structuredWallTimeMs
  | .treeSitterTime | .node _ => some .treeSitterWallTimeMs
  | _ => none

def Call.Fits (budgets : ExtractionBudgets) (call : Call) : Prop :=
  ∀ measured ∈ call.measure, measured.2 ≤ budgets.maximum measured.1

def InTime (budgets : ExtractionBudgets) (call : Nat × Call) : Prop :=
  ∀ resource ∈ call.2.clock, min call.1 u64Max ≤ budgets.maximum resource

def Late (budgets : ExtractionBudgets) (call : Nat × Call) : Prop :=
  ∀ resource ∈ call.2.clock, budgets.maximum resource < min call.1 u64Max

namespace ExtractionTracker

def usage (tracker : ExtractionTracker) : Usage :=
  ⟨tracker.workUnits, tracker.treeSitterNodes, tracker.observations,
    tracker.accumulatedStringBytes⟩

/-- The clock was read in the current block of 1,024 units. -/
structure Sampled (tracker : ExtractionTracker) : Prop where
  before : tracker.sampledUnits ≤ tracker.units
  block : tracker.units / 1024 ≤ tracker.sampledUnits / 1024
  started : 0 < tracker.units → 0 < tracker.sampledUnits

end ExtractionTracker

def Usage.counter (usage : Usage) : ExtractionResource → Option Nat
  | .workUnits => some usage.workUnits
  | .treeSitterNodes => some usage.treeSitterNodes
  | .observations => some usage.observations
  | .accumulatedStringBytes => some usage.accumulatedStringBytes
  | _ => none

/-- What a call shows of a resource and how an error reports it: what the call measures by itself,
a counter with what the call adds to it, or the clock. -/
inductive Shows (usage : Usage) (call : Nat × Call) (resource : ExtractionResource) :
    Nat → Nat → Prop
  | measured {observed : Nat} (measure : call.2.measure = some (resource, observed)) :
    Shows usage call resource observed observed
  | counted {count : Nat} (counter : (usage.spend call.2).counter resource = some count) :
    Shows usage call resource count (min count u64Max)
  | clocked (clock : call.2.clock = some resource) :
    Shows usage call resource call.1 (min call.1 u64Max)

/-- An error names what is worked on and a resource of which the call, after what was used up
before, shows more than its budget. -/
structure ExtractionLimitExceeded.Justified (e : ExtractionLimitExceeded) (artifact extractor : String)
    (budgets : ExtractionBudgets) (usage : Usage) (call : Nat × Call) : Prop where
  artifact : e.artifact = artifact
  extractor : e.extractor = extractor
  maximum : e.maximum = budgets.maximum e.resource
  exceeds : ∃ shown, Shows usage call e.resource shown e.observed ∧ e.maximum < shown

section Calls

variable {tracker : ExtractionTracker}

theorem maximum_le (budgets : ExtractionBudgets) (resource : ExtractionResource) :
    budgets.maximum resource ≤ u64Max := by
  have bound : ∀ value : UInt64, value.toNat ≤ u64Max := fun value =>
    Nat.le_of_lt_succ value.toNat_lt
  cases resource <;> exact bound _

theorem checkValueBytes_ok {observed : Nat} {resource : ExtractionResource} :
    tracker.checkValueBytes observed resource = .ok () ↔
      observed ≤ tracker.budgets.maximum resource := by
  rw [ExtractionTracker.checkValueBytes]
  split <;> simp <;> omega

theorem checkValueBytes_error {observed : Nat} {resource : ExtractionResource}
    {e : ExtractionLimitExceeded} (failed : tracker.checkValueBytes observed resource = .error e) :
    e = tracker.exceeded resource observed ∧ tracker.budgets.maximum resource < observed := by
  rw [ExtractionTracker.checkValueBytes] at failed
  split at failed
  · next less => exact ⟨(Except.error.inj failed).symm, less⟩
  · cases failed

variable (tracker) in
abbrev Refused (call : Nat × Call) (e : ExtractionLimitExceeded) : Prop :=
  e.Justified tracker.artifact tracker.extractor tracker.budgets tracker.usage call

theorem refused_of_shown {call : Nat × Call} {resource : ExtractionResource} {shown observed : Nat}
    (shows : Shows tracker.usage call resource shown observed)
    (above : tracker.budgets.maximum resource < shown) :
    Refused tracker call (tracker.exceeded resource observed) :=
  ⟨rfl, rfl, rfl, shown, shows, above⟩

theorem refused_of_measure {call : Nat × Call} {resource : ExtractionResource} {observed : Nat}
    {e : ExtractionLimitExceeded} (measure : call.2.measure = some (resource, observed))
    (failed : tracker.checkValueBytes observed resource = .error e) : Refused tracker call e := by
  obtain ⟨rfl, above⟩ := checkValueBytes_error failed
  exact refused_of_shown (.measured measure) above

theorem refused_of_clock {call : Nat × Call} {treeSitter : Bool} {e : ExtractionLimitExceeded}
    (clock : call.2.clock = some (ExtractionTracker.timeResource treeSitter))
    (failed : tracker.checkElapsed call.1 treeSitter = .error e) : Refused tracker call e := by
  obtain ⟨rfl, above⟩ := checkValueBytes_error failed
  exact refused_of_shown (.clocked clock) (by omega)

theorem charge_cases (tracker : ExtractionTracker) (current amount : Nat)
    (resource : ExtractionResource) (accept : Nat → Charged × ExtractionTracker) :
    (tracker.budgets.maximum resource < current + amount ∧
      tracker.charge current amount resource accept =
        (.error (tracker.exceeded resource (min (current + amount) u64Max)), tracker)) ∨
    (current + amount ≤ tracker.budgets.maximum resource ∧
      tracker.charge current amount resource accept = accept (current + amount)) := by
  have bound := maximum_le tracker.budgets resource
  rw [ExtractionTracker.charge, ExtractionTracker.chargeCounter]
  split
  · next result e failed =>
    refine .inl ?_
    split at failed
    · next overflows =>
      obtain rfl := Except.error.inj failed
      exact ⟨by omega, by rw [Nat.min_eq_right (Nat.le_of_lt overflows)]⟩
    · next fits =>
      split at failed
      · next less =>
        obtain rfl := Except.error.inj failed
        exact ⟨less, by rw [Nat.min_eq_left (Nat.not_lt.1 fits)]⟩
      · cases failed
  · next result observed accepted =>
    refine .inr ?_
    split at accepted
    · cases accepted
    · split at accepted
      · cases accepted
      · obtain rfl := Except.ok.inj accepted
        exact ⟨by omega, rfl⟩

/-- What a call does to a tracker, whether it is accepted or not. -/
structure Performed (tracker : ExtractionTracker) (call : Nat × Call) (result : Charged)
    (next : ExtractionTracker) : Prop where
  budgets : next.budgets = tracker.budgets
  artifact : next.artifact = tracker.artifact
  extractor : next.extractor = tracker.extractor
  within : next.usage.Within next.budgets
  sampled : next.Sampled
  accepted : result = .ok () → call.2.Fits tracker.budgets ∧
    next.usage = tracker.usage.spend call.2 ∧
      (Late tracker.budgets call → next.sampledUnits = tracker.sampledUnits)
  refused : ∀ e, result = .error e → Refused tracker call e ∧ ¬(call.2.Fits tracker.budgets ∧
    (tracker.usage.spend call.2).Within tracker.budgets ∧ InTime tracker.budgets call)

theorem Performed.check {call : Nat × Call} {result : Charged}
    (within : tracker.usage.Within tracker.budgets) (sampled : tracker.Sampled)
    (free : tracker.usage.spend call.2 = tracker.usage)
    (accepted : result = .ok () → call.2.Fits tracker.budgets)
    (refused : ∀ e, result = .error e → Refused tracker call e ∧
      ¬(call.2.Fits tracker.budgets ∧ InTime tracker.budgets call)) :
    Performed tracker call result tracker where
  budgets := rfl
  artifact := rfl
  extractor := rfl
  within := within
  sampled := sampled
  accepted ok := ⟨accepted ok, free.symm, fun _ => rfl⟩
  refused e failed := ⟨(refused e failed).1, fun all =>
    (refused e failed).2 ⟨all.1, all.2.2⟩⟩

theorem Performed.measured {call : Nat × Call} {resource : ExtractionResource} {observed : Nat}
    {e : ExtractionLimitExceeded} (within : tracker.usage.Within tracker.budgets)
    (sampled : tracker.Sampled) (measure : call.2.measure = some (resource, observed))
    (failed : tracker.checkValueBytes observed resource = .error e) :
    Performed tracker call (.error e) tracker where
  budgets := rfl
  artifact := rfl
  extractor := rfl
  within := within
  sampled := sampled
  accepted ok := by cases ok
  refused e' same := by
    obtain rfl := Except.error.inj same
    refine ⟨refused_of_measure measure failed, fun all => ?_⟩
    have fits := checkValueBytes_ok.2 (all.1 (resource, observed) (by rw [measure]; rfl))
    rw [failed] at fits
    cases fits

theorem Performed.refuse {call : Nat × Call} {e : ExtractionLimitExceeded}
    (within : tracker.usage.Within tracker.budgets) (sampled : tracker.Sampled)
    (refused : Refused tracker call e)
    (above : ¬(tracker.usage.spend call.2).Within tracker.budgets) :
    Performed tracker call (.error e) tracker where
  budgets := rfl
  artifact := rfl
  extractor := rfl
  within := within
  sampled := sampled
  accepted ok := by cases ok
  refused e' same := by
    obtain rfl := Except.error.inj same
    exact ⟨refused, fun all => above all.2.1⟩

theorem Performed.sample {call : Nat × Call} {charged : ExtractionTracker} {treeSitter : Bool}
    (budgets : charged.budgets = tracker.budgets) (artifact : charged.artifact = tracker.artifact)
    (extractor : charged.extractor = tracker.extractor)
    (last : charged.sampledUnits = tracker.sampledUnits) (sampled : tracker.Sampled)
    (more : tracker.units ≤ charged.units) (fits : call.2.Fits tracker.budgets)
    (usage : charged.usage = tracker.usage.spend call.2)
    (within : (tracker.usage.spend call.2).Within tracker.budgets)
    (clock : call.2.clock = some (ExtractionTracker.timeResource treeSitter)) :
    Performed tracker call (charged.sampleTime call.1 treeSitter).1
      (charged.sampleTime call.1 treeSitter).2 := by
  have inTime : charged.checkElapsed call.1 treeSitter = .ok () ↔ InTime tracker.budgets call := by
    rw [ExtractionTracker.checkElapsed, checkValueBytes_ok, InTime, clock, budgets]
    simp
  rw [ExtractionTracker.sampleTime]
  split
  · refine ⟨budgets, artifact, extractor, ?_, ⟨Nat.le_refl _, Nat.le_refl _, id⟩, ?_, ?_⟩
    · change charged.usage.Within charged.budgets
      rwa [usage, budgets]
    · intro ok
      refine ⟨fits, usage, fun late => ?_⟩
      have timely := inTime.1 ok _ (by rw [clock]; rfl)
      exact absurd (late _ (by rw [clock]; rfl)) (Nat.not_lt.2 timely)
    · intro e failed
      obtain ⟨rfl, above⟩ := checkValueBytes_error failed
      refine ⟨⟨artifact, extractor, by rw [← budgets]; rfl, call.1, .clocked clock,
        lt_of_lt_of_le above (Nat.min_le_left _ _)⟩, fun all => ?_⟩
      rw [inTime.2 all.2.2] at failed
      cases failed
  · next unsampled =>
    rw [last] at unsampled
    obtain ⟨before, block, started⟩ := sampled
    refine ⟨budgets, artifact, extractor, ?_, ⟨?_, ?_, ?_⟩, ?_, ?_⟩
    · rwa [usage, budgets]
    · change charged.sampledUnits ≤ charged.units
      omega
    · change charged.units / 1024 ≤ charged.sampledUnits / 1024
      omega
    · change 0 < charged.units → 0 < charged.sampledUnits
      omega
    · exact fun _ => ⟨fits, usage, fun _ => last⟩
    · intro e failed
      cases failed

theorem Performed.charge {call : Nat × Call} {charged : ExtractionTracker}
    (budgets : charged.budgets = tracker.budgets) (artifact : charged.artifact = tracker.artifact)
    (extractor : charged.extractor = tracker.extractor)
    (last : charged.sampledUnits = tracker.sampledUnits) (units : charged.units = tracker.units)
    (sampled : tracker.Sampled) (fits : call.2.Fits tracker.budgets)
    (usage : charged.usage = tracker.usage.spend call.2)
    (within : (tracker.usage.spend call.2).Within tracker.budgets) :
    Performed tracker call (.ok ()) charged where
  budgets := budgets
  artifact := artifact
  extractor := extractor
  within := by rwa [usage, budgets]
  sampled := by
    obtain ⟨before, block, started⟩ := sampled
    refine ⟨?_, ?_, ?_⟩ <;> rw [last, units] <;> assumption
  accepted _ := ⟨fits, usage, fun _ => last⟩
  refused e failed := by cases failed

theorem chargeValue_performed {call : Nat × Call} {bytes : Nat} {resource : ExtractionResource}
    (within : tracker.usage.Within tracker.budgets) (sampled : tracker.Sampled)
    (measure : call.2.measure = some (resource, bytes))
    (spend : tracker.usage.spend call.2 = tracker.usage.keep bytes) :
    Performed tracker call (tracker.chargeValue bytes resource).1
      (tracker.chargeValue bytes resource).2 := by
  rw [ExtractionTracker.chargeValue]
  cases checked : tracker.checkValueBytes bytes resource with
  | error e => exact .measured within sampled measure checked
  | ok u =>
    have fits : call.2.Fits tracker.budgets := by
      intro measured mem
      rw [measure] at mem
      obtain rfl := Option.some.inj mem
      exact checkValueBytes_ok.1 checked
    rcases charge_cases tracker tracker.accumulatedStringBytes bytes .accumulatedStringBytes
      fun accumulatedStringBytes => (.ok (), { tracker with accumulatedStringBytes })
      with ⟨above, charged⟩ | ⟨below, charged⟩
    · simp only [charged]
      have refused := refused_of_shown (.counted (by rw [spend]; rfl)) above
      refine .refuse within sampled refused fun kept => ?_
      rw [spend] at kept
      exact absurd kept.accumulatedStringBytes (Nat.not_le.2 above)
    · simp only [charged]
      refine .charge rfl rfl rfl rfl rfl sampled fits spend.symm ?_
      rw [spend]
      exact ⟨within.workUnits, within.treeSitterNodes, within.observations, below⟩

theorem chargeObservation_performed {call : Nat × Call} {amount : Nat}
    (within : tracker.usage.Within tracker.budgets) (sampled : tracker.Sampled)
    (measure : call.2.measure = none)
    (spend : tracker.usage.spend call.2 =
      { tracker.usage with observations := tracker.observations + amount }) :
    Performed tracker call (tracker.chargeObservation amount).1
      (tracker.chargeObservation amount).2 := by
  have fits : call.2.Fits tracker.budgets := by
    intro measured mem
    rw [measure] at mem
    cases mem
  rw [ExtractionTracker.chargeObservation]
  rcases charge_cases tracker tracker.observations amount .observations
    fun observations => (.ok (), { tracker with observations })
    with ⟨above, charged⟩ | ⟨below, charged⟩
  · simp only [charged]
    have refused := refused_of_shown (.counted (by rw [spend]; rfl)) above
    refine .refuse within sampled refused fun kept => ?_
    rw [spend] at kept
    exact absurd kept.observations (Nat.not_le.2 above)
  · simp only [charged]
    refine .charge rfl rfl rfl rfl rfl sampled fits spend.symm ?_
    rw [spend]
    exact ⟨within.workUnits, within.treeSitterNodes, below, within.accumulatedStringBytes⟩

theorem checkTime_performed {call : Nat × Call} {treeSitter : Bool}
    (within : tracker.usage.Within tracker.budgets) (sampled : tracker.Sampled)
    (measure : call.2.measure = none) (free : tracker.usage.spend call.2 = tracker.usage)
    (clock : call.2.clock = some (ExtractionTracker.timeResource treeSitter)) :
    Performed tracker call (tracker.checkElapsed call.1 treeSitter) tracker := by
  refine .check within sampled free (fun _ measured mem => ?_) fun e failed => ?_
  · rw [measure] at mem
    cases mem
  · refine ⟨refused_of_clock clock failed, fun all => ?_⟩
    have inTime := all.2 (ExtractionTracker.timeResource treeSitter) (by rw [clock]; rfl)
    rw [ExtractionTracker.checkElapsed, checkValueBytes_ok.2 inTime] at failed
    cases failed

theorem checkValue_performed {call : Nat × Call} {observed : Nat} {resource : ExtractionResource}
    (within : tracker.usage.Within tracker.budgets) (sampled : tracker.Sampled)
    (measure : call.2.measure = some (resource, observed))
    (free : tracker.usage.spend call.2 = tracker.usage) :
    Performed tracker call (tracker.checkValueBytes observed resource) tracker := by
  cases checked : tracker.checkValueBytes observed resource with
  | error e => exact .measured within sampled measure checked
  | ok u =>
    refine .check within sampled free (fun _ measured mem => ?_) fun e failed => by cases failed
    rw [measure] at mem
    obtain rfl := Option.some.inj mem
    exact checkValueBytes_ok.1 checked

theorem units_mono {budgets : ExtractionBudgets} {artifact extractor : String}
    {work work' nodes nodes' observations accumulated sampled : Nat} (work_le : work ≤ work')
    (nodes_le : nodes ≤ nodes') :
    (⟨budgets, artifact, extractor, work, nodes, observations, accumulated, sampled⟩ :
      ExtractionTracker).units ≤
    (⟨budgets, artifact, extractor, work', nodes', observations, accumulated, sampled⟩ :
      ExtractionTracker).units := by
  simp only [ExtractionTracker.units]
  omega

theorem perform_performed (within : tracker.usage.Within tracker.budgets)
    (sampled : tracker.Sampled) (elapsed : Nat) (call : Call) :
    Performed tracker (elapsed, call) (perform tracker elapsed call).1
      (perform tracker elapsed call).2 := by
  cases call with
  | inputBytes observed => exact checkValue_performed within sampled rfl rfl
  | stringBytes observed => exact checkValue_performed within sampled rfl rfl
  | identifierBytes observed => exact checkValue_performed within sampled rfl rfl
  | accumulatedStringBytes observed => exact checkValue_performed within sampled rfl rfl
  | workUnits observed => exact checkValue_performed within sampled rfl rfl
  | observations observed => exact checkValue_performed within sampled rfl rfl
  | structuralDepth depth => exact checkValue_performed within sampled rfl rfl
  | astDepth depth => exact checkValue_performed within sampled rfl rfl
  | structuredTime => exact checkTime_performed within sampled rfl rfl rfl
  | treeSitterTime => exact checkTime_performed within sampled rfl rfl rfl
  | string value => exact chargeValue_performed within sampled rfl rfl
  | portablePath value => exact chargeValue_performed within sampled rfl rfl
  | identifier value => exact chargeValue_performed within sampled rfl rfl
  | identifierOf bytes => exact chargeValue_performed within sampled rfl rfl
  | observation amount => exact chargeObservation_performed within sampled rfl rfl
  | ensure minimum =>
    rw [perform, ExtractionTracker.ensureObservations]
    split
    · next fewer =>
      refine chargeObservation_performed within sampled rfl ?_
      have larger : max tracker.observations minimum =
          tracker.observations + (minimum - tracker.observations) := by omega
      simp [Usage.spend, ExtractionTracker.usage, larger]
    · next enough =>
      refine .check within sampled ?_ (fun _ measured mem => by cases mem) fun e failed => by
        cases failed
      have same : max tracker.observations minimum = tracker.observations := by omega
      simp [Usage.spend, ExtractionTracker.usage, same]
  | work amount =>
    rw [perform, ExtractionTracker.chargeWork]
    rcases charge_cases tracker tracker.workUnits amount .workUnits
      (fun workUnits => { tracker with workUnits }.sampleTime elapsed false)
      with ⟨above, charged⟩ | ⟨below, charged⟩
    · rw [charged]
      exact .refuse within sampled (refused_of_shown (.counted rfl) above) fun kept =>
        absurd kept.workUnits (Nat.not_le.2 above)
    · rw [charged]
      exact .sample rfl rfl rfl rfl sampled
        (units_mono (Nat.le_add_right _ _) (Nat.le_refl _)) (fun measured mem => by cases mem) rfl
        ⟨below, within.treeSitterNodes, within.observations, within.accumulatedStringBytes⟩ rfl
  | node depth =>
    rw [perform, ExtractionTracker.chargeTreeSitterNode]
    cases checked : tracker.checkAstDepth depth with
    | error e => exact .measured within sampled rfl checked
    | ok u =>
      have fits : (Call.node depth).Fits tracker.budgets := by
        intro measured mem
        obtain rfl := Option.some.inj mem
        exact checkValueBytes_ok.1 checked
      rcases charge_cases tracker tracker.treeSitterNodes 1 .treeSitterNodes
        (fun treeSitterNodes => { tracker with treeSitterNodes }.sampleTime elapsed true)
        with ⟨above, charged⟩ | ⟨below, charged⟩
      · simp only [charged]
        exact .refuse within sampled (refused_of_shown (.counted rfl) above) fun kept =>
          absurd kept.treeSitterNodes (Nat.not_le.2 above)
      · simp only [charged]
        exact .sample rfl rfl rfl rfl sampled
          (units_mono (Nat.le_refl _) (Nat.le_add_right _ _)) fits rfl
          ⟨within.workUnits, below, within.observations, within.accumulatedStringBytes⟩ rfl

theorem performAll_cons (elapsed : Nat) (call : Call) (calls : List (Nat × Call)) :
    performAll tracker ((elapsed, call) :: calls) =
      if (perform tracker elapsed call).1 = .ok () then
        performAll (perform tracker elapsed call).2 calls
      else perform tracker elapsed call := by
  rw [performAll]
  split
  · next e next failed =>
    rw [failed]
    rfl
  · next next done =>
    rw [done]
    rfl

end Calls

section Runs

variable {tracker : ExtractionTracker}

theorem Usage.spend_within {usage : Usage} {budgets : ExtractionBudgets} {call : Call}
    (within : (usage.spend call).Within budgets) : usage.Within budgets := by
  obtain ⟨work, nodes, observations, strings⟩ := within
  constructor
  · refine le_trans ?_ work
    cases call <;> simp [Usage.spend, Usage.keep]
  · refine le_trans ?_ nodes
    cases call <;> simp [Usage.spend, Usage.keep]
  · refine le_trans ?_ observations
    cases call <;> simp [Usage.spend, Usage.keep]
  · refine le_trans ?_ strings
    cases call <;> simp [Usage.spend, Usage.keep]

theorem Usage.spendAll_within {usage : Usage} {budgets : ExtractionBudgets}
    {calls : List (Nat × Call)} (within : (usage.spendAll calls).Within budgets) :
    usage.Within budgets := by
  induction calls generalizing usage with
  | nil => exact within
  | cons call calls ih => exact spend_within (ih within)

structure Ran (tracker : ExtractionTracker) (calls : List (Nat × Call)) (result : Charged)
    (next : ExtractionTracker) : Prop where
  budgets : next.budgets = tracker.budgets
  within : next.usage.Within next.budgets
  sampled : next.Sampled
  accepted : result = .ok () → (∀ call ∈ calls, call.2.Fits tracker.budgets) ∧
    next.usage = tracker.usage.spendAll calls ∧
      ((∀ call ∈ calls, Late tracker.budgets call) → next.sampledUnits = tracker.sampledUnits)
  refused : ∀ e, result = .error e →
    (∃ before call after, calls = before ++ call :: after ∧ (performAll tracker before).1 = .ok () ∧
      e.Justified tracker.artifact tracker.extractor tracker.budgets (tracker.usage.spendAll before)
        call) ∧
    ¬((∀ call ∈ calls, call.2.Fits tracker.budgets ∧ InTime tracker.budgets call) ∧
      (tracker.usage.spendAll calls).Within tracker.budgets)

theorem performAll_ran (within : tracker.usage.Within tracker.budgets) (sampled : tracker.Sampled)
    (calls : List (Nat × Call)) :
    Ran tracker calls (performAll tracker calls).1 (performAll tracker calls).2 := by
  induction calls generalizing tracker with
  | nil =>
    refine ⟨rfl, within, sampled, fun _ => ⟨fun call mem => absurd mem List.not_mem_nil, rfl,
      fun _ => rfl⟩, fun e failed => by cases failed⟩
  | cons first calls ih =>
    obtain ⟨elapsed, call⟩ := first
    have moved := perform_performed within sampled elapsed call
    rw [performAll_cons]
    split
    · next done =>
      obtain ⟨fits, usage, last⟩ := moved.accepted done
      have ran := ih moved.within moved.sampled
      refine ⟨ran.budgets.trans moved.budgets, ran.within, ran.sampled, fun ok => ?_, fun e failed => ?_⟩
      · obtain ⟨others, total, held⟩ := ran.accepted ok
        rw [moved.budgets] at others held
        refine ⟨List.forall_mem_cons.2 ⟨fits, others⟩, ?_, fun late => ?_⟩
        · rw [total, usage]
          rfl
        · obtain ⟨first, rest⟩ := List.forall_mem_cons.1 late
          exact (held rest).trans (last first)
      · obtain ⟨⟨before, last, after, split, went, justified⟩, broken⟩ := ran.refused e failed
        rw [moved.budgets, moved.artifact, moved.extractor, usage] at justified
        refine ⟨⟨(elapsed, call) :: before, last, after, by rw [split]; rfl, ?_, justified⟩,
          fun all => broken ?_⟩
        · rw [performAll_cons, if_pos done]
          exact went
        · rw [moved.budgets, usage]
          exact ⟨(List.forall_mem_cons.1 all.1).2, all.2⟩
    · next failed =>
      refine ⟨moved.budgets, moved.within, moved.sampled, fun ok => absurd ok failed,
        fun e is => ?_⟩
      obtain ⟨justified, broken⟩ := moved.refused e is
      refine ⟨⟨[], (elapsed, call), calls, rfl, rfl, justified⟩, fun all => broken ?_⟩
      obtain ⟨fits, inTime⟩ := (List.forall_mem_cons.1 all.1).1
      exact ⟨fits, Usage.spendAll_within all.2, inTime⟩

theorem new_within (artifact extractor : String) (budgets : ExtractionBudgets) :
    (ExtractionTracker.new artifact extractor budgets).usage.Within budgets :=
  ⟨Nat.zero_le _, Nat.zero_le _, Nat.zero_le _, Nat.zero_le _⟩

theorem new_sampled (artifact extractor : String) (budgets : ExtractionBudgets) :
    (ExtractionTracker.new artifact extractor budgets).Sampled :=
  ⟨Nat.zero_le _, Nat.le_refl _, id⟩

/-- The budgets of one extraction hold at every moment and are exact: a run is accepted only when
each call fits by itself and so does their sum, an error names a resource of which the first
refused call shows too much, and there is none for a run in time that fits. -/
theorem performAll_exact (artifact extractor : String) (budgets : ExtractionBudgets)
    (calls : List (Nat × Call)) :
    (performAll (.new artifact extractor budgets) calls).2.usage.Within budgets ∧
    ((performAll (.new artifact extractor budgets) calls).1 = .ok () →
      (∀ call ∈ calls, call.2.Fits budgets) ∧
      (performAll (.new artifact extractor budgets) calls).2.usage = Usage.spendAll {} calls) ∧
    ∀ e, (performAll (.new artifact extractor budgets) calls).1 = .error e →
      (∃ before call after, calls = before ++ call :: after ∧
        (performAll (.new artifact extractor budgets) before).1 = .ok () ∧
        e.Justified artifact extractor budgets (Usage.spendAll {} before) call) ∧
      ¬((∀ call ∈ calls, call.2.Fits budgets ∧ InTime budgets call) ∧
        (Usage.spendAll {} calls).Within budgets) := by
  have ran := performAll_ran (new_within artifact extractor budgets)
    (new_sampled artifact extractor budgets) calls
  refine ⟨?_, fun ok => ⟨(ran.accepted ok).1, (ran.accepted ok).2.1⟩, ran.refused⟩
  have within := ran.within
  rwa [ran.budgets] at within

/-- Past both deadlines fewer than 1,024 further units of work and nodes are accepted, whatever
the calls, since the clock is read once in each block. -/
theorem performAll_late (artifact extractor : String) (budgets : ExtractionBudgets)
    (fits : budgets.maximum .workUnits + budgets.maximum .treeSitterNodes ≤ u64Max)
    (before calls : List (Nat × Call)) (late : ∀ call ∈ calls, Late budgets call)
    (accepted : (performAll (performAll (.new artifact extractor budgets) before).2 calls).1 =
      .ok ()) :
    (Usage.spendAll (performAll (.new artifact extractor budgets) before).2.usage calls).workUnits +
      (Usage.spendAll (performAll (.new artifact extractor budgets) before).2.usage
        calls).treeSitterNodes <
      (performAll (.new artifact extractor budgets) before).2.workUnits +
        (performAll (.new artifact extractor budgets) before).2.treeSitterNodes + 1024 := by
  have began := performAll_ran (new_within artifact extractor budgets)
    (new_sampled artifact extractor budgets) before
  generalize (performAll (.new artifact extractor budgets) before).2 = tracker at *
  have same : tracker.budgets = budgets := began.budgets
  have ran := performAll_ran began.within began.sampled calls
  obtain ⟨-, usage, held⟩ := ran.accepted accepted
  have unread := held (same.symm ▸ late)
  have block := ran.sampled.block
  have within := ran.within
  rw [← usage]
  rw [unread] at block
  rw [ran.budgets, same] at within
  have start := began.sampled.before
  have work := within.workUnits
  have nodes := within.treeSitterNodes
  have total : (performAll tracker calls).2.units =
      (performAll tracker calls).2.workUnits + (performAll tracker calls).2.treeSitterNodes := by
    rw [ExtractionTracker.units]
    exact Nat.min_eq_left ((Nat.add_le_add work nodes).trans fits)
  have first : tracker.units ≤ tracker.workUnits + tracker.treeSitterNodes := Nat.min_le_left _ _
  change (performAll tracker calls).2.workUnits + (performAll tracker calls).2.treeSitterNodes < _
  omega

theorem performAll_late_work :
    (Usage.spendAll (performAll (.new "a.rs" "x" {}) [(0, .work 1)]).2.usage
        [(20000, .work 1000)]).workUnits +
      (Usage.spendAll (performAll (.new "a.rs" "x" {}) [(0, .work 1)]).2.usage
        [(20000, .work 1000)]).treeSitterNodes <
      (performAll (.new "a.rs" "x" {}) [(0, .work 1)]).2.workUnits +
        (performAll (.new "a.rs" "x" {}) [(0, .work 1)]).2.treeSitterNodes + 1024 := by
  refine performAll_late "a.rs" "x" {} (by decide) [(0, .work 1)] _ (fun call mem => ?_) (by decide)
  obtain rfl := List.mem_singleton.1 mem
  intro resource clock
  obtain rfl := Option.some.inj clock
  decide

end Runs

end CodeSystemGraph.Extraction
