import Mathlib.Data.List.Basic
import CodeSystemGraph.Steps

/-!
A supervised worker process, the thread that reads its standard output, and the loop of
`monitor_worker`. Lines of the protocol stand for the messages they encode. Time is in
nanoseconds since the loop began; a sleep is time that passes before the next poll.
-/

namespace CodeSystemGraph.Worker

open Steps

def protocolVersion : Nat := 2
def protocolQueueCapacity : Nat := 256
def maxProtocolMessagesPerPoll : Nat := 1024
def maxProtocolLineBytes : Nat := 1048576

inductive JobPhase
  | configuration | discovery | fingerprinting | extraction | graphAssembly | communities
  | publication | codeGraphSync
deriving DecidableEq

inductive ExecutionResource
  | wallTimeMs | noProgressTimeMs | workerMemoryBytes | workUnits | workerProcess
  | workerProtocolBytes | cancellation
deriving DecidableEq

inductive ExitCode
  | success | invalidInput | notFound | ambiguous | conflict | incomplete | unavailable | timeout
  | internal | cancelled
deriving DecidableEq

structure ExecutionPolicy where
  maxScanWallTimeMs : Nat
  maxNoProgressTimeMs : Nat
  maxWorkerMemoryBytes : Nat
deriving DecidableEq

structure ExecutionLimitExceeded where
  runId : String
  phase : JobPhase
  resource : ExecutionResource
  observed : Nat
  maximum : Nat
  completedUnits : Nat
deriving DecidableEq

section Messages

-- `D` is data that the supervisor passes on without reading it: the error of an extraction limit,
-- the fields that `copy_artifact_timings` copies, the other fields of a summary.
variable (D : Type)

structure ExecutionSummary where
  runId : String
  durationMs : Nat
  peakWorkerMemoryBytes : Nat
  completedWorkUnits : Nat
  checkpointHits : Nat
  checkpointsWritten : Nat
  timings : D
deriving DecidableEq

structure ScanSummary where
  execution : ExecutionSummary D
  rest : D
deriving DecidableEq

structure SyncSummary where
  execution : ExecutionSummary D
  scan : ScanSummary D
  rest : D
deriving DecidableEq

inductive WorkerFailure
  | extractionLimit (error : D)
  | executionLimit (error : ExecutionLimitExceeded)
  | partialScanBudgetChanged
  | transient (message : String)
  | other (exitCode : ExitCode) (message : String)
deriving DecidableEq

inductive WorkerMessage
  | policy (schemaVersion : Nat) (policy : ExecutionPolicy)
  | progress (schemaVersion : Nat) (phase : JobPhase) (completedUnits : Nat)
  | scanResult (schemaVersion : Nat) (summary : ScanSummary D)
  | syncResult (schemaVersion : Nat) (summary : SyncSummary D)
  | failure (schemaVersion : Nat) (failure : WorkerFailure D)
deriving DecidableEq

inductive ExpectedResult
  | scan | sync
deriving DecidableEq

inductive SupervisedResult
  | scan (summary : ScanSummary D)
  | sync (summary : SyncSummary D)
deriving DecidableEq

/-- The errors of the application that the supervisor returns. -/
inductive ApplicationError
  | extractionLimit (error : D)
  | executionLimit (error : ExecutionLimitExceeded)
  | partialScanBudgetChanged
  | transientExecution (message : String)
  | supervisedApplication (exitCode : ExitCode) (message : String)
deriving DecidableEq

inductive ProtocolReadError
  | io (message : String)
  | lineTooLong (bytes : Nat)
  | invalid (message : String)
deriving DecidableEq

variable {D}

abbrev Outcome (D : Type) := Except (ApplicationError D) (SupervisedResult D)

def applicationFailure : WorkerFailure D → ApplicationError D
  | .extractionLimit error => .extractionLimit error
  | .executionLimit error => .executionLimit error
  | .partialScanBudgetChanged => .partialScanBudgetChanged
  | .transient message => .transientExecution message
  | .other exitCode message => .supervisedApplication exitCode message

def ProtocolReadError.observed : ProtocolReadError → Nat
  | .io message => message.utf8ByteSize
  | .lineTooLong bytes => bytes
  | .invalid message => message.utf8ByteSize

def attachExecution (execution : ExecutionSummary D) : SupervisedResult D → SupervisedResult D
  | .scan summary =>
    .scan { summary with
      execution := { execution with
        checkpointHits := summary.execution.checkpointHits
        checkpointsWritten := summary.execution.checkpointsWritten
        timings := summary.execution.timings } }
  | .sync summary =>
    let execution := { execution with
      checkpointHits := summary.scan.execution.checkpointHits
      checkpointsWritten := summary.scan.execution.checkpointsWritten
      timings := summary.scan.execution.timings }
    .sync { summary with execution := execution, scan := { summary.scan with execution := execution } }

def SupervisedResult.kind : SupervisedResult D → ExpectedResult
  | .scan _ => .scan
  | .sync _ => .sync

end Messages

section Monitor

variable {D : Type}

def durationMillis (nanos : Nat) : Nat :=
  min (nanos / 1000000) 18446744073709551615

structure Supervision where
  runId : String
  wallTimeCapMs : Option Nat
  expected : ExpectedResult

inductive Control (D : Type)
  | poll
  | drain (left : Nat)
  | test
  | wait
  | returned (outcome : Outcome D)

structure Monitor (D : Type) where
  lastProgress : Nat := 0
  completedUnits : Nat := 0
  phase : JobPhase := .configuration
  peakMemory : Nat := 0
  finalResult : Option (SupervisedResult D) := none
  successfulExitObserved : Option Nat := none
  policyReceived : Bool := false
  policy : ExecutionPolicy
  control : Control D := .poll

namespace Monitor

variable (supervision : Supervision) (m : Monitor D)

def limitError (resource : ExecutionResource) (observed maximum : Nat) : Monitor D :=
  { m with
    control := .returned (.error (.executionLimit
      ⟨supervision.runId, m.phase, resource, observed, maximum, m.completedUnits⟩)) }

def cap (effective : ExecutionPolicy) : ExecutionPolicy :=
  match supervision.wallTimeCapMs with
  | none => effective
  | some cap => { effective with maxScanWallTimeMs := min effective.maxScanWallTimeMs (max cap 1) }

/-- The message loop, for one message. After a failure the supervisor waits up to a quarter of a
second for the worker and returns the failure in either case. -/
def handle (now : Nat) : Except ProtocolReadError (WorkerMessage D) → Monitor D
  | .ok (.policy version effective) =>
    if version = protocolVersion ∧ m.policyReceived = false then
      { m with policy := cap supervision effective, policyReceived := true }
    else m.limitError supervision .workerProtocolBytes 1 0
  | .ok (.progress version phase completed) =>
    if version = protocolVersion ∧ m.policyReceived = true ∧ m.completedUnits < completed then
      { m with completedUnits := completed, phase := phase, lastProgress := now }
    else m
  | .ok (.scanResult version summary) =>
    if version = protocolVersion ∧ m.policyReceived = true ∧ supervision.expected = .scan then
      { m with finalResult := some (.scan summary) }
    else m.limitError supervision .workerProtocolBytes 1 0
  | .ok (.syncResult version summary) =>
    if version = protocolVersion ∧ m.policyReceived = true ∧ supervision.expected = .sync then
      { m with finalResult := some (.sync summary) }
    else m.limitError supervision .workerProtocolBytes 1 0
  | .ok (.failure version failure) =>
    if version = protocolVersion then
      { m with control := .returned (.error (applicationFailure failure)) }
    else m.limitError supervision .workerProtocolBytes 1 0
  | .error error =>
    m.limitError supervision .workerProtocolBytes error.observed maxProtocolLineBytes

/-- The limit that the tests after a drain find exceeded. -/
def exceeded (now memory : Nat) : Option (ExecutionResource × Nat × Nat) :=
  if m.policy.maxScanWallTimeMs < now / 1000000 then
    some (.wallTimeMs, durationMillis now, m.policy.maxScanWallTimeMs)
  else if m.policy.maxNoProgressTimeMs < (now - m.lastProgress) / 1000000 then
    some (.noProgressTimeMs, durationMillis (now - m.lastProgress), m.policy.maxNoProgressTimeMs)
  else if m.policy.maxWorkerMemoryBytes < memory then
    some (.workerMemoryBytes, memory, m.policy.maxWorkerMemoryBytes)
  else none

def execution [Inhabited D] (now : Nat) : ExecutionSummary D where
  runId := supervision.runId
  durationMs := durationMillis now
  peakWorkerMemoryBytes := m.peakMemory
  completedWorkUnits := m.completedUnits
  checkpointHits := 0
  checkpointsWritten := 0
  timings := default

/-- The part of a poll after the process was found to have exited. -/
def conclude [Inhabited D] (now status : Nat) : Monitor D :=
  if status = 0 then
    match m.finalResult with
    | some result =>
      { m with control := .returned (.ok (attachExecution (m.execution supervision now) result)) }
    | none =>
      let observed := m.successfulExitObserved.getD now
      if now - observed ≤ 1000000000 then
        { m with successfulExitObserved := some observed, control := .poll }
      else m.limitError supervision .workerProcess status 0
  else m.limitError supervision .workerProcess status 0

/-- The poll ends the supervision without a message of the worker. -/
def GivesUp (now status : Nat) : Prop :=
  status ≠ 0 ∨ (m.finalResult = none ∧ 1000000000 < now - m.successfulExitObserved.getD now)

instance (now status : Nat) : Decidable (m.GivesUp now status) :=
  inferInstanceAs (Decidable (_ ∨ _))

end Monitor

structure State (D : Type) where
  now : Nat := 0
  unwritten : List (WorkerMessage D)
  status : Nat
  exited : Option Nat := none
  pipe : List (WorkerMessage D) := []
  queue : List (Except ProtocolReadError (WorkerMessage D)) := []
  cancelled : Bool := false
  monitor : Monitor D

/-- What a worker says and how it exits. Only `exit_for_execution_limit` exits with a status other
than zero. -/
structure Session (D : Type) where
  policy : ExecutionPolicy
  progress : List (JobPhase × Nat)
  final : SupervisedResult D ⊕ WorkerFailure D
  status : Nat
  exits : status = 0 ∨ (status = 70 ∧ ∃ error, final = .inr (.executionLimit error))

def progressMessage (progress : JobPhase × Nat) : WorkerMessage D :=
  .progress protocolVersion progress.1 progress.2

def finalMessage : SupervisedResult D ⊕ WorkerFailure D → WorkerMessage D
  | .inl (.scan summary) => .scanResult protocolVersion summary
  | .inl (.sync summary) => .syncResult protocolVersion summary
  | .inr failure => .failure protocolVersion failure

def Session.script (session : Session D) : List (WorkerMessage D) :=
  .policy protocolVersion session.policy ::
    (session.progress.map progressMessage ++ [finalMessage session.final])

def Session.start (session : Session D) (policy : ExecutionPolicy) : State D where
  unwritten := session.script
  status := session.status
  monitor := { policy := policy }

inductive Action
  | tick (nanos : Nat)
  | write
  | exit
  | forward
  | cancel
  | poll
  | receive
  | test (memory : Nat)
  | wait
deriving DecidableEq

variable (supervision : Supervision)

def receive (s : State D) (left : Nat) : State D :=
  match left, s.queue with
  | left + 1, item :: queue =>
    { s with
      queue := queue
      monitor := { s.monitor with control := .drain left }.handle supervision s.now item }
  | _, _ => { s with monitor := { s.monitor with control := .test } }

theorem receive_stop {s : State D} {left : Nat} (stop : left = 0 ∨ s.queue = []) :
    receive supervision s left = { s with monitor := { s.monitor with control := .test } } := by
  rcases stop with zero | empty
  · simp only [receive, zero]
  · simp only [receive, empty]

theorem receive_take {s : State D} {left : Nat}
    {item : Except ProtocolReadError (WorkerMessage D)}
    {queue : List (Except ProtocolReadError (WorkerMessage D))} (first : s.queue = item :: queue) :
    receive supervision s (left + 1) =
      { s with
        queue := queue
        monitor := { s.monitor with control := .drain left }.handle supervision s.now item } := by
  simp only [receive, first]

def testLimits (s : State D) (memory : Nat) : State D :=
  match s.monitor.exceeded s.now memory with
  | some (resource, observed, maximum) =>
    { s with monitor := s.monitor.limitError supervision resource observed maximum }
  | none =>
    { s with
      monitor := { s.monitor with peakMemory := max s.monitor.peakMemory memory, control := .wait } }

def testExit [Inhabited D] (s : State D) : State D :=
  match s.exited with
  | none => { s with monitor := { s.monitor with control := .poll } }
  | some _ => { s with monitor := s.monitor.conclude supervision s.now s.status }

theorem testExit_running [Inhabited D] {s : State D} (running : s.exited = none) :
    testExit supervision s = { s with monitor := { s.monitor with control := .poll } } := by
  simp only [testExit, running]

theorem testExit_exited [Inhabited D] {s : State D} (exited : s.exited.isSome) :
    testExit supervision s =
      { s with monitor := s.monitor.conclude supervision s.now s.status } := by
  obtain ⟨time, found⟩ := Option.isSome_iff_exists.1 exited
  simp only [testExit, found]

def step [Inhabited D] (s : State D) : Action → Option (State D)
  | .tick nanos => some { s with now := s.now + nanos }
  | .write =>
    match s.unwritten with
    | [] => none
    | message :: rest => some { s with unwritten := rest, pipe := s.pipe ++ [message] }
  | .exit =>
    if s.exited = none ∧ s.unwritten.isEmpty then some { s with exited := some s.now } else none
  | .forward =>
    match s.pipe with
    | [] => none
    | message :: rest =>
      if s.queue.length < protocolQueueCapacity then
        some { s with pipe := rest, queue := s.queue ++ [.ok message] }
      else none
  | .cancel => some { s with cancelled := true }
  | .poll =>
    match s.monitor.control with
    | .poll =>
      if s.cancelled then
        some { s with monitor := s.monitor.limitError supervision .cancellation 1 0 }
      else some { s with monitor := { s.monitor with control := .drain maxProtocolMessagesPerPoll } }
    | _ => none
  | .receive =>
    match s.monitor.control with
    | .drain left => some (receive supervision s left)
    | _ => none
  | .test memory =>
    match s.monitor.control with
    | .test => some (testLimits supervision s memory)
    | _ => none
  | .wait =>
    match s.monitor.control with
    | .wait => some (testExit supervision s)
    | _ => none

def Action.Supervisor : Action → Bool
  | .poll | .receive | .test _ | .wait => true
  | _ => false

/-- No cancellation and no limit ends the supervision at this step. -/
def Uninterrupted (s : State D) : Action → Prop
  | .poll => s.cancelled = false
  | .test memory => s.monitor.exceeded s.now memory = none
  | _ => True

instance (s : State D) : (action : Action) → Decidable (Uninterrupted s action)
  | .poll => inferInstanceAs (Decidable (s.cancelled = false))
  | .test memory => inferInstanceAs (Decidable (s.monitor.exceeded s.now memory = none))
  | .tick _ | .write | .exit | .forward | .cancel | .receive | .wait => isTrue trivial

/-- An exit test does not give up while a line of the worker is in the pipe or in the queue. -/
def Patient (s : State D) (action : Action) : Prop :=
  action = .wait → s.exited.isSome → s.monitor.GivesUp s.now s.status → s.pipe = [] ∧ s.queue = []

instance [DecidableEq D] (s : State D) (action : Action) : Decidable (Patient s action) :=
  inferInstanceAs (Decidable (_ → _))

/-- Once a second has passed after the exit, the reader has forwarded every line. -/
def Punctual (s : State D) : Prop :=
  ∀ exited ∈ s.exited, exited + 1000000000 < s.now → s.pipe = []

instance [DecidableEq D] (s : State D) : Decidable (Punctual s) :=
  inferInstanceAs (Decidable (∀ exited ∈ s.exited, _ → _))

/-- The supervisor reports what the worker said last. -/
structure Reports (expected : ExpectedResult) (final : SupervisedResult D ⊕ WorkerFailure D)
    (outcome : Outcome D) : Prop where
  ok_iff : (∃ summary, outcome = .ok summary) ↔ ∃ result, final = .inl result ∧ result.kind = expected
  ok : ∀ result, final = .inl result → result.kind = expected →
    ∃ execution, outcome = .ok (attachExecution execution result)
  error : ∀ failure, final = .inr failure → outcome = .error (applicationFailure failure)

def Control.turnsLeft : Control D → Nat → Nat
  | .returned _, _ => 0
  | .wait, 0 => 1
  | .test, 0 => 2
  | .drain _, 0 => 3
  | .poll, 0 => 4
  | .drain (_ + 1), lines + 1 => 5 * lines + 6
  | .poll, lines + 1 => 5 * lines + 7
  | .wait, lines + 1 => 5 * lines + 8
  | .test, lines + 1 => 5 * lines + 9
  | .drain 0, lines + 1 => 5 * lines + 10

def State.turnsLeft (s : State D) : Nat :=
  s.monitor.control.turnsLeft s.queue.length

theorem turnsLeft_drain_le (left lines : Nat) :
    (Control.drain left : Control D).turnsLeft lines ≤ 5 * lines + 5 := by
  cases lines <;> cases left <;> simp only [Control.turnsLeft] <;> omega

/-- A step of the world around the supervisor: time passes, or a line moves on. -/
structure Carried (s next : State D) : Prop where
  monitor : next.monitor = s.monitor
  status : next.status = s.status
  written : (s.exited.isSome → s.unwritten = []) → next.exited.isSome → next.unwritten = []
  lines : ∀ waiting, s.queue = waiting.map .ok → ∃ waiting', next.queue = waiting'.map .ok ∧
    waiting' ++ next.pipe ++ next.unwritten = waiting ++ s.pipe ++ s.unwritten
  silent : s.exited.isSome → s.unwritten = [] → s.pipe = [] →
    next.exited.isSome ∧ next.pipe = [] ∧ next.queue = s.queue

/-- A step of a supervisor that nothing interrupts. -/
inductive Turn [Inhabited D] (s : State D) : Action → State D → Prop
  | poll (control : s.monitor.control = .poll) :
    Turn s .poll { s with monitor := { s.monitor with control := .drain maxProtocolMessagesPerPoll } }
  | receive {left : Nat} (control : s.monitor.control = .drain left) :
    Turn s .receive (receive supervision s left)
  | test {memory : Nat} (control : s.monitor.control = .test) :
    Turn s (.test memory) { s with
      monitor := { s.monitor with peakMemory := max s.monitor.peakMemory memory, control := .wait } }
  | wait (control : s.monitor.control = .wait) : Turn s .wait (testExit supervision s)

variable {supervision}

theorem step_environment [Inhabited D] {s next : State D} {action : Action}
    (own : action.Supervisor = false) (stepped : step supervision s action = some next) :
    Carried s next := by
  cases action with
  | tick nanos
  | cancel =>
    cases stepped
    exact ⟨rfl, rfl, id, fun waiting queue => ⟨waiting, queue, rfl⟩,
      fun exited _ pipe => ⟨exited, pipe, rfl⟩⟩
  | write =>
    rw [step] at stepped
    split at stepped
    · cases stepped
    · next message rest unwritten =>
      cases stepped
      refine ⟨rfl, rfl, ?_, fun waiting queue => ⟨waiting, queue, by simp [unwritten]⟩, ?_⟩
      · intro written exited
        rw [written exited] at unwritten
        cases unwritten
      · intro _ empty
        rw [empty] at unwritten
        cases unwritten
  | exit =>
    rw [step] at stepped
    split at stepped
    · next idle =>
      cases stepped
      exact ⟨rfl, rfl, fun _ _ => List.isEmpty_iff.1 idle.2,
        fun waiting queue => ⟨waiting, queue, rfl⟩, fun _ _ pipe => ⟨rfl, pipe, rfl⟩⟩
    · cases stepped
  | forward =>
    rw [step] at stepped
    split at stepped
    · cases stepped
    · next message rest pipe =>
      split at stepped
      · cases stepped
        refine ⟨rfl, rfl, id, fun waiting queue => ⟨waiting ++ [message], ?_, by simp [pipe]⟩, ?_⟩
        · simp [queue]
        · intro _ _ empty
          rw [empty] at pipe
          cases pipe
      · cases stepped
  | _ => cases own

theorem step_supervisor [Inhabited D] {s next : State D} {action : Action}
    (own : action.Supervisor = true) (uninterrupted : Uninterrupted s action)
    (stepped : step supervision s action = some next) : Turn supervision s action next := by
  cases action with
  | poll =>
    have flag : s.cancelled = false := uninterrupted
    rw [step] at stepped
    split at stepped
    · next control =>
      rw [if_neg (by rw [flag]; nofun), Option.some.injEq] at stepped
      subst stepped
      exact .poll control
    · cases stepped
  | receive =>
    rw [step] at stepped
    split at stepped
    · next left control =>
      cases stepped
      exact .receive control
    · cases stepped
  | test memory =>
    have within : s.monitor.exceeded s.now memory = none := uninterrupted
    rw [step] at stepped
    split at stepped
    · next control =>
      simp only [testLimits, within, Option.some.injEq] at stepped
      subst stepped
      exact .test control
    · cases stepped
  | wait =>
    rw [step] at stepped
    split at stepped
    · next control =>
      cases stepped
      exact .wait control
    · cases stepped
  | _ => cases own

theorem step_cases [Inhabited D] {s next : State D} {action : Action}
    (uninterrupted : Uninterrupted s action) (stepped : step supervision s action = some next) :
    (action.Supervisor = false ∧ Carried s next) ∨
      (action.Supervisor = true ∧ Turn supervision s action next) := by
  cases own : action.Supervisor with
  | false => exact .inl ⟨rfl, step_environment own stepped⟩
  | true => exact .inr ⟨rfl, step_supervisor own uninterrupted stepped⟩

end Monitor

section Reporting

variable {D : Type} {supervision : Supervision} {session : Session D}

/-- The supervisor has heard the session up to the messages that are left. -/
inductive Heard (session : Session D) (expected : ExpectedResult) (m : Monitor D) :
    List (WorkerMessage D) → Prop
  | nothing (received : m.policyReceived = false) (unset : m.finalResult = none) :
    Heard session expected m session.script
  | policy (left : List (JobPhase × Nat)) (received : m.policyReceived = true)
    (unset : m.finalResult = none) :
    Heard session expected m (left.map progressMessage ++ [finalMessage session.final])
  | all (result : SupervisedResult D) (final : session.final = .inl result)
    (kind : result.kind = expected) (set : m.finalResult = some result) : Heard session expected m []

theorem Heard.congr {expected : ExpectedResult} {m m' : Monitor D} {left : List (WorkerMessage D)}
    (heard : Heard session expected m left) (received : m'.policyReceived = m.policyReceived)
    (result : m'.finalResult = m.finalResult) : Heard session expected m' left := by
  cases heard with
  | nothing none unset => exact .nothing (received.trans none) (result.trans unset)
  | policy left some unset => exact .policy left (received.trans some) (result.trans unset)
  | all summary final kind set => exact .all summary final kind (result.trans set)

theorem Heard.result {expected : ExpectedResult} {m : Monitor D} (heard : Heard session expected m []) :
    ∃ result, session.final = .inl result ∧ result.kind = expected ∧ m.finalResult = some result := by
  generalize none : ([] : List (WorkerMessage D)) = left at heard
  cases heard with
  | nothing => simp [Session.script] at none
  | policy => simp at none
  | all result final kind set => exact ⟨result, final, kind, set⟩

theorem Heard.final {expected : ExpectedResult} {m : Monitor D} {left : List (WorkerMessage D)}
    {result : SupervisedResult D} (heard : Heard session expected m left)
    (found : m.finalResult = some result) :
    session.final = .inl result ∧ result.kind = expected ∧ left = [] := by
  cases heard with
  | nothing _ unset => rw [unset] at found; cases found
  | policy _ _ unset => rw [unset] at found; cases found
  | all summary final kind set =>
    rw [set, Option.some.injEq] at found
    subst found
    exact ⟨final, kind, rfl⟩

theorem reports_result {expected : ExpectedResult} {result : SupervisedResult D}
    (kind : result.kind = expected) (execution : ExecutionSummary D) :
    Reports expected (.inl result) (.ok (attachExecution execution result)) where
  ok_iff := ⟨fun _ => ⟨result, rfl, kind⟩, fun _ => ⟨_, rfl⟩⟩
  ok := by
    intro other same _
    cases same
    exact ⟨execution, rfl⟩
  error := by
    intro failure same
    cases same

theorem reports_unexpected {expected : ExpectedResult} {result : SupervisedResult D}
    (kind : result.kind ≠ expected) (error : ApplicationError D) :
    Reports expected (.inl result) (.error error) where
  ok_iff := by
    constructor
    · rintro ⟨summary, same⟩
      cases same
    · rintro ⟨other, same, expected⟩
      cases same
      exact absurd expected kind
  ok := by
    intro other same expected
    cases same
    exact absurd expected kind
  error := by
    intro failure same
    cases same

theorem reports_failure (expected : ExpectedResult) (failure : WorkerFailure D) :
    Reports expected (.inr failure) (.error (applicationFailure failure)) where
  ok_iff := by
    constructor
    · rintro ⟨summary, same⟩
      cases same
    · rintro ⟨other, same, _⟩
      cases same
  ok := by
    intro result same
    cases same
  error := by
    intro other same
    cases same
    rfl

theorem handle_control (supervision : Supervision) (m : Monitor D) (now : Nat)
    (item : Except ProtocolReadError (WorkerMessage D)) :
    (m.handle supervision now item).control = m.control ∨
      ∃ outcome, (m.handle supervision now item).control = .returned outcome := by
  rcases item with error | message
  · exact .inr ⟨_, rfl⟩
  · cases message <;> simp only [Monitor.handle] <;> split <;>
      first | exact .inl rfl | exact .inr ⟨_, rfl⟩

theorem handle_final {m : Monitor D} {now : Nat} (received : m.policyReceived = true) :
    (∃ outcome, (m.handle supervision now (.ok (finalMessage session.final))).control =
        .returned outcome ∧ Reports supervision.expected session.final outcome) ∨
      ((m.handle supervision now (.ok (finalMessage session.final))).control = m.control ∧
        Heard session supervision.expected
          (m.handle supervision now (.ok (finalMessage session.final))) []) := by
  cases final : session.final with
  | inr failure => exact .inl ⟨_, rfl, reports_failure _ failure⟩
  | inl result =>
    by_cases kind : result.kind = supervision.expected
    · cases result with
      | scan summary =>
        have expected : supervision.expected = .scan := kind.symm
        refine .inr ⟨?_, .all (.scan summary) final kind ?_⟩ <;>
          simp [finalMessage, Monitor.handle, received, expected]
      | sync summary =>
        have expected : supervision.expected = .sync := kind.symm
        refine .inr ⟨?_, .all (.sync summary) final kind ?_⟩ <;>
          simp [finalMessage, Monitor.handle, received, expected]
    · cases result with
      | scan summary =>
        have other : ¬ supervision.expected = .scan := fun same => kind same.symm
        have handled : m.handle supervision now (.ok (finalMessage (.inl (.scan summary)))) =
            m.limitError supervision .workerProtocolBytes 1 0 := by
          simp [finalMessage, Monitor.handle, other]
        rw [handled]
        exact .inl ⟨_, rfl, reports_unexpected kind _⟩
      | sync summary =>
        have other : ¬ supervision.expected = .sync := fun same => kind same.symm
        have handled : m.handle supervision now (.ok (finalMessage (.inl (.sync summary)))) =
            m.limitError supervision .workerProtocolBytes 1 0 := by
          simp [finalMessage, Monitor.handle, other]
        rw [handled]
        exact .inl ⟨_, rfl, reports_unexpected kind _⟩

theorem handle_heard {m : Monitor D} {now : Nat} {message : WorkerMessage D}
    {left : List (WorkerMessage D)}
    (heard : Heard session supervision.expected m (message :: left)) :
    (∃ outcome, (m.handle supervision now (.ok message)).control = .returned outcome ∧
        Reports supervision.expected session.final outcome) ∨
      ((m.handle supervision now (.ok message)).control = m.control ∧
        Heard session supervision.expected (m.handle supervision now (.ok message)) left) := by
  generalize all : message :: left = messages at heard
  cases heard with
  | all => cases all
  | nothing received unset =>
    rw [Session.script, List.cons.injEq] at all
    obtain ⟨rfl, rfl⟩ := all
    have handled : m.handle supervision now (.ok (.policy protocolVersion session.policy)) =
        { m with policy := Monitor.cap supervision session.policy, policyReceived := true } := by
      simp [Monitor.handle, received]
    rw [handled]
    exact .inr ⟨rfl, .policy session.progress rfl unset⟩
  | policy progress received unset =>
    cases progress with
    | nil =>
      rw [List.map_nil, List.nil_append, List.cons.injEq] at all
      obtain ⟨rfl, rfl⟩ := all
      exact handle_final received
    | cons unit units =>
      rw [List.map_cons, List.cons_append, List.cons.injEq] at all
      obtain ⟨rfl, rfl⟩ := all
      refine .inr ⟨?_, .policy units ?_ ?_⟩ <;>
        simp only [progressMessage, Monitor.handle] <;> split <;> first | rfl | assumption

theorem conclude_cases [Inhabited D] (supervision : Supervision) (m : Monitor D) (now status : Nat) :
    (status = 0 ∧ ∃ result, m.finalResult = some result ∧
        m.conclude supervision now status =
          { m with control :=
              .returned (.ok (attachExecution (m.execution supervision now) result)) }) ∨
      m.GivesUp now status ∨
      (m.finalResult = none ∧ ∃ observed, m.conclude supervision now status =
        { m with successfulExitObserved := observed, control := .poll }) := by
  by_cases zero : status = 0
  · cases found : m.finalResult with
    | some result =>
      refine .inl ⟨zero, result, rfl, ?_⟩
      rw [Monitor.conclude, if_pos zero, found]
    | none =>
      by_cases grace : now - m.successfulExitObserved.getD now ≤ 1000000000
      · refine .inr (.inr ⟨rfl, some (m.successfulExitObserved.getD now), ?_⟩)
        rw [Monitor.conclude, if_pos zero, found]
        exact if_pos grace
      · exact .inr (.inl (.inr ⟨found, by omega⟩))
  · exact .inr (.inl (.inl zero))

/-- What holds in every state of a patient supervision. -/
structure Invariant (supervision : Supervision) (session : Session D) (s : State D) : Prop where
  status : s.status = session.status
  written : s.exited.isSome → s.unwritten = []
  listening : (∀ outcome, s.monitor.control ≠ .returned outcome) →
    ∃ waiting, s.queue = waiting.map .ok ∧
      Heard session supervision.expected s.monitor (waiting ++ s.pipe ++ s.unwritten)
  reports : ∀ outcome, s.monitor.control = .returned outcome →
    Reports supervision.expected session.final outcome

namespace Invariant

variable {s : State D} (invariant : Invariant supervision session s)

include invariant

theorem proceed {m : Monitor D} (received : m.policyReceived = s.monitor.policyReceived)
    (result : m.finalResult = s.monitor.finalResult)
    (before : ∀ outcome, s.monitor.control ≠ .returned outcome)
    (after : ∀ outcome, m.control ≠ .returned outcome) :
    Invariant supervision session { s with monitor := m } where
  status := invariant.status
  written := invariant.written
  listening := by
    intro _
    obtain ⟨waiting, queue, heard⟩ := invariant.listening before
    exact ⟨waiting, queue, heard.congr received result⟩
  reports := fun outcome returned => absurd returned (after outcome)

theorem carried {next : State D} (moved : Carried s next) :
    Invariant supervision session next where
  status := moved.status.trans invariant.status
  written := moved.written invariant.written
  listening := by
    rw [moved.monitor]
    intro before
    obtain ⟨waiting, queue, heard⟩ := invariant.listening before
    obtain ⟨waiting', queue', same⟩ := moved.lines waiting queue
    exact ⟨waiting', queue', by rwa [same]⟩
  reports := by
    rw [moved.monitor]
    exact invariant.reports

theorem returns {m : Monitor D} {outcome : Outcome D} (returned : m.control = .returned outcome)
    (right : Reports supervision.expected session.final outcome) :
    Invariant supervision session { s with monitor := m } where
  status := invariant.status
  written := invariant.written
  listening := fun open' => absurd returned (open' outcome)
  reports := by
    intro other same
    dsimp only at same
    rw [returned] at same
    cases same
    exact right

theorem receive {left : Nat} (draining : s.monitor.control = .drain left) :
    Invariant supervision session (Worker.receive supervision s left) := by
  have before : ∀ outcome, s.monitor.control ≠ .returned outcome := by
    intro outcome same
    rw [draining] at same
    cases same
  obtain ⟨waiting, queue, heard⟩ := invariant.listening before
  by_cases stop : left = 0 ∨ s.queue = []
  · rw [receive_stop supervision stop]
    exact invariant.proceed rfl rfl before (fun _ same => by cases same)
  · cases left with
    | zero => exact absurd (.inl rfl) stop
    | succ left =>
      cases waiting with
      | nil => exact absurd (.inr queue) stop
      | cons message waiting =>
        have taking : Heard session supervision.expected { s.monitor with control := .drain left }
            (message :: (waiting ++ s.pipe ++ s.unwritten)) := heard.congr rfl rfl
        rw [receive_take supervision queue]
        rcases handle_heard taking with ⟨outcome, returned, right⟩ | ⟨control, heard⟩
        · exact {
            status := invariant.status
            written := invariant.written
            listening := fun open' => absurd returned (open' outcome)
            reports := fun other same => by
              rw [returned] at same
              cases same
              exact right }
        · exact {
            status := invariant.status
            written := invariant.written
            listening := fun _ => ⟨waiting, rfl, heard⟩
            reports := fun other same => by
              rw [control] at same
              cases same }

theorem heardResult (exited : s.exited.isSome) (pipe : s.pipe = []) (queue : s.queue = [])
    (before : ∀ outcome, s.monitor.control ≠ .returned outcome) :
    ∃ result, session.final = .inl result ∧ s.monitor.finalResult = some result := by
  obtain ⟨waiting, same, heard⟩ := invariant.listening before
  rw [queue] at same
  have empty : waiting = [] := List.map_eq_nil_iff.1 same.symm
  rw [empty, pipe, invariant.written exited] at heard
  obtain ⟨result, final, _, set⟩ := heard.result
  exact ⟨result, final, set⟩

theorem not_givesUp {now : Nat} (exited : s.exited.isSome) (pipe : s.pipe = []) (queue : s.queue = [])
    (before : ∀ outcome, s.monitor.control ≠ .returned outcome) :
    ¬ s.monitor.GivesUp now s.status := by
  obtain ⟨result, final, set⟩ := invariant.heardResult exited pipe queue before
  rintro (failed | ⟨unset, _⟩)
  · rw [invariant.status] at failed
    obtain zero | ⟨_, error, failure⟩ := session.exits
    · exact failed zero
    · rw [final] at failure
      cases failure
  · rw [set] at unset
    cases unset

theorem testExit [Inhabited D] (waits : s.monitor.control = .wait) (patient : Patient s .wait) :
    Invariant supervision session (Worker.testExit supervision s) := by
  have before : ∀ outcome, s.monitor.control ≠ .returned outcome := by
    intro outcome same
    rw [waits] at same
    cases same
  by_cases exited : s.exited.isSome
  · rw [testExit_exited supervision exited]
    obtain ⟨_, result, found, concluded⟩ | givesUp | ⟨_, observed, concluded⟩ :=
      conclude_cases supervision s.monitor s.now s.status
    · obtain ⟨waiting, _, heard⟩ := invariant.listening before
      obtain ⟨final, kind, _⟩ := heard.final found
      rw [concluded]
      refine invariant.returns rfl ?_
      rw [final]
      exact reports_result kind _
    · obtain ⟨pipe, queue⟩ := patient rfl exited givesUp
      exact absurd givesUp (invariant.not_givesUp exited pipe queue before)
    · rw [concluded]
      exact invariant.proceed rfl rfl before (fun _ same => by cases same)
  · rw [testExit_running supervision (Option.not_isSome_iff_eq_none.1 exited)]
    exact invariant.proceed rfl rfl before (fun _ same => by cases same)

theorem step [Inhabited D] {action : Action} {next : State D}
    (allowed : Uninterrupted s action ∧ Patient s action)
    (stepped : Worker.step supervision s action = some next) :
    Invariant supervision session next := by
  obtain ⟨_, moved⟩ | ⟨_, turn⟩ := step_cases allowed.1 stepped
  · exact invariant.carried moved
  · cases turn with
    | poll control => exact invariant.proceed rfl rfl (control ▸ nofun) nofun
    | receive control => exact invariant.receive control
    | test control => exact invariant.proceed rfl rfl (control ▸ nofun) nofun
    | wait control => exact invariant.testExit control allowed.2

theorem turn [Inhabited D] {action : Action} {next : State D} (patient : Patient s action)
    (exited : s.exited.isSome) (pipe : s.pipe = []) (turn : Turn supervision s action next) :
    next.exited.isSome ∧ next.pipe = [] ∧ next.turnsLeft < s.turnsLeft := by
  cases turn with
  | poll control =>
    refine ⟨exited, pipe, ?_⟩
    rw [State.turnsLeft, State.turnsLeft, control]
    cases s.queue <;> simp [Control.turnsLeft, maxProtocolMessagesPerPoll]
  | test control =>
    refine ⟨exited, pipe, ?_⟩
    rw [State.turnsLeft, State.turnsLeft, control]
    cases s.queue <;> simp [Control.turnsLeft]
  | @receive left control =>
    by_cases stop : left = 0 ∨ s.queue = []
    · rw [receive_stop supervision stop]
      refine ⟨exited, pipe, ?_⟩
      rw [State.turnsLeft, State.turnsLeft, control]
      rcases stop with rfl | empty
      · cases s.queue <;> simp [Control.turnsLeft]
      · simp [Control.turnsLeft, empty]
    · rw [not_or] at stop
      obtain ⟨left, rfl⟩ := Nat.exists_eq_succ_of_ne_zero stop.1
      obtain ⟨item, queue, first⟩ := List.exists_cons_of_ne_nil stop.2
      rw [receive_take supervision first]
      refine ⟨exited, pipe, ?_⟩
      rw [State.turnsLeft, State.turnsLeft, control, first]
      have before : (Control.drain (left + 1) : Control D).turnsLeft (item :: queue).length =
          5 * queue.length + 6 := rfl
      have after := turnsLeft_drain_le (D := D) left queue.length
      rw [Nat.succ_eq_add_one, before]
      rcases handle_control supervision { s.monitor with control := .drain left }
        s.now item with same | ⟨outcome, returned⟩
      · rw [same]
        exact Nat.lt_succ_of_le after
      · rw [returned]
        exact Nat.succ_pos _
  | wait control =>
    have before : ∀ outcome, s.monitor.control ≠ .returned outcome := control ▸ nofun
    rw [testExit_exited supervision exited]
    refine ⟨exited, pipe, ?_⟩
    obtain ⟨_, result, found, concluded⟩ | givesUp | ⟨unset, observed, concluded⟩ :=
      conclude_cases supervision s.monitor s.now s.status
    · rw [State.turnsLeft, State.turnsLeft, control, concluded]
      cases s.queue <;> simp [Control.turnsLeft]
    · obtain ⟨_, queue⟩ := patient rfl exited givesUp
      exact absurd givesUp (invariant.not_givesUp exited pipe queue before)
    · cases queue : s.queue with
      | nil =>
        obtain ⟨result, _, set⟩ := invariant.heardResult exited pipe queue before
        rw [unset] at set
        cases set
      | cons item queue =>
        rw [State.turnsLeft, State.turnsLeft, control, concluded, queue]
        simp [Control.turnsLeft]

end Invariant

theorem invariant_start (supervision : Supervision) (session : Session D) (policy : ExecutionPolicy) :
    Invariant supervision session (session.start policy) where
  status := rfl
  written := nofun
  listening := fun _ => ⟨[], rfl, .nothing rfl rfl⟩
  reports := nofun

/-- A step of the supervision that nothing interrupts and that does not give up on a line. -/
def Allowed (s : State D) (action : Action) : Prop :=
  Uninterrupted s action ∧ Patient s action

instance [DecidableEq D] (s : State D) (action : Action) : Decidable (Allowed s action) :=
  inferInstanceAs (Decidable (_ ∧ _))

variable [Inhabited D]

theorem turns_bounded {later : List Action} : ∀ {s s' : State D},
    Invariant supervision session s → s.exited.isSome → s.pipe = [] →
    Meets (step supervision) Allowed s later → run (step supervision) s later = some s' →
    later.countP Action.Supervisor + s'.turnsLeft ≤ s.turnsLeft := by
  induction later with
  | nil =>
    intro s s' _ _ _ _ ran
    rw [run, Option.some.injEq] at ran
    simp [ran]
  | cons action later ih =>
    intro s s' invariant exited pipe meets ran
    obtain ⟨next, stepped, rest⟩ := run_cons_eq_some.1 ran
    have kept := invariant.step meets.1 stepped
    obtain ⟨own, moved⟩ | ⟨own, turn⟩ := step_cases meets.1.1 stepped
    · obtain ⟨exited', pipe', queue⟩ := moved.silent exited (invariant.written exited) pipe
      have bound := ih kept exited' pipe' (meets.2 next stepped) rest
      have same : next.turnsLeft = s.turnsLeft := by
        rw [State.turnsLeft, State.turnsLeft, moved.monitor, queue]
      rw [List.countP_cons_of_neg (by simp [own])]
      omega
    · obtain ⟨exited', pipe', nearer⟩ := invariant.turn meets.1.2 exited pipe turn
      have bound := ih kept exited' pipe' (meets.2 next stepped) rest
      rw [List.countP_cons_of_pos own]
      omega

theorem supervisor_enabled (supervision : Supervision) {s : State D}
    (before : ∀ outcome, s.monitor.control ≠ .returned outcome) :
    ∃ action, action.Supervisor = true ∧ (step supervision s action).isSome := by
  cases control : s.monitor.control with
  | poll =>
    refine ⟨.poll, rfl, ?_⟩
    simp only [step, control]
    split <;> rfl
  | drain left => exact ⟨.receive, rfl, by simp [step, control]⟩
  | test => exact ⟨.test 0, rfl, by simp [step, control]⟩
  | wait => exact ⟨.wait, rfl, by simp [step, control]⟩
  | returned outcome => exact absurd control (before outcome)

/-- In every run in which nothing interrupts the supervisor and no exit test gives up on a line of
the worker, `monitor_worker` reports what the worker said last, and it does return. -/
theorem monitorWorker_reports (supervision : Supervision) (session : Session D)
    (policy : ExecutionPolicy) (actions : List Action) (s : State D)
    (meets : Meets (step supervision) Allowed (session.start policy) actions)
    (ran : run (step supervision) (session.start policy) actions = some s) :
    (∀ outcome, s.monitor.control = .returned outcome →
      Reports supervision.expected session.final outcome) ∧
    ((∀ outcome, s.monitor.control ≠ .returned outcome) →
      ∃ action, action.Supervisor = true ∧ (step supervision s action).isSome) ∧
    (s.exited.isSome → s.pipe = [] → ∀ later s', Meets (step supervision) Allowed s later →
      run (step supervision) s later = some s' →
      later.countP Action.Supervisor ≤ s.turnsLeft) := by
  have invariant : Invariant supervision session s :=
    run_keeps_of_meets (fun _ _ _ holds allowed stepped => holds.step allowed stepped)
      (invariant_start supervision session policy) meets ran
  refine ⟨invariant.reports, supervisor_enabled supervision, ?_⟩
  intro exited pipe later s' allowed ran'
  have bound := turns_bounded invariant exited pipe allowed ran'
  omega

end Reporting

section Runs

def exampleSupervision : Supervision := ⟨"run", none, .scan⟩

def examplePolicy : ExecutionPolicy := ⟨60000, 60000, 1000000⟩

def exampleExecution : ExecutionSummary Unit := ⟨"run", 0, 0, 0, 0, 0, ()⟩

def successfulSession : Session Unit where
  policy := examplePolicy
  progress := []
  final := .inl (.scan ⟨exampleExecution, ()⟩)
  status := 0
  exits := .inl rfl

def limitedSession : Session Unit where
  policy := examplePolicy
  progress := []
  final := .inr (.executionLimit ⟨"run", .discovery, .workUnits, 11, 10, 10⟩)
  status := 70
  exits := .inr ⟨rfl, _, rfl⟩

theorem monitorWorker_reports_result :
    ∃ s outcome, run (step exampleSupervision) (successfulSession.start examplePolicy)
        [.write, .forward, .write, .poll, .receive, .receive, .forward, .exit, .test 0, .wait, .poll,
          .receive, .receive, .test 0, .wait] = some s ∧
      s.monitor.control = .returned outcome ∧
      Reports exampleSupervision.expected successfulSession.final outcome :=
  ⟨_, _, rfl, rfl, (monitorWorker_reports exampleSupervision successfulSession examplePolicy
    [.write, .forward, .write, .poll, .receive, .receive, .forward, .exit, .test 0, .wait, .poll,
      .receive, .receive, .test 0, .wait] _ (by decide) rfl).1 _ rfl⟩

/-- A worker that writes its failure and exits with status 70 right after a drain, and one that
exits with status zero and whose result arrives in the last moments of the second of grace, after
the drain of the poll that finds the second over. -/
theorem monitorWorker_loses_last_message :
    (∃ actions s, Meets (step exampleSupervision)
        (fun s action => Uninterrupted s action ∧ Punctual s) (limitedSession.start examplePolicy)
        actions ∧
      run (step exampleSupervision) (limitedSession.start examplePolicy) actions = some s ∧
      s.monitor.control = .returned (.error (.executionLimit
        ⟨"run", .configuration, .workerProcess, 70, 0, 0⟩)) ∧
      ¬ Reports exampleSupervision.expected limitedSession.final (.error (.executionLimit
        ⟨"run", .configuration, .workerProcess, 70, 0, 0⟩))) ∧
    ∃ actions s, Meets (step exampleSupervision)
        (fun s action => Uninterrupted s action ∧ Punctual s) (successfulSession.start examplePolicy)
        actions ∧
      run (step exampleSupervision) (successfulSession.start examplePolicy) actions = some s ∧
      s.monitor.control = .returned (.error (.executionLimit
        ⟨"run", .configuration, .workerProcess, 0, 0, 0⟩)) ∧
      ¬ Reports exampleSupervision.expected successfulSession.final (.error (.executionLimit
        ⟨"run", .configuration, .workerProcess, 0, 0, 0⟩)) := by
  refine ⟨⟨[.write, .forward, .poll, .receive, .receive, .write, .forward, .exit, .test 0, .wait],
      _, by decide, rfl, rfl, ?_⟩,
    ⟨[.write, .forward, .poll, .receive, .receive, .test 0, .write, .exit, .wait, .tick 900000000,
      .poll, .receive, .forward, .tick 200000000, .test 0, .wait], _, by decide, rfl, rfl, ?_⟩⟩
  · intro reports
    have same := reports.error _ rfl
    cases same
  · intro reports
    obtain ⟨summary, same⟩ := reports.ok_iff.2 ⟨_, rfl, rfl⟩
    cases same

end Runs

end CodeSystemGraph.Worker
