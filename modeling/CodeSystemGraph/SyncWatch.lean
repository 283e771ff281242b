import CodeSystemGraph.Ordered
import CodeSystemGraph.Steps

/-!
The parties of `csgraph sync --watch`: watcher callbacks and the event loop of the
worker process, the reader of its standard output, and the supervisor that runs a
pass for each debounced change. Every step is one access to state that two of
them share: a flag, a locked set, a channel of capacity one, or the pipe.
-/

namespace CodeSystemGraph.SyncWatch

open Ordered

inductive EventScope
  | irrelevant
  | repositories (aliases : List String)
  | workspace
deriving DecidableEq, Repr

structure TouchedRepositories where
  aliases : List String := []
  workspace : Bool := false
deriving DecidableEq, Repr

namespace TouchedRepositories

def record (touched : TouchedRepositories) : EventScope → TouchedRepositories
  | .irrelevant => touched
  | .repositories aliases => { touched with aliases := sortedUnique (touched.aliases ++ aliases) }
  | .workspace => { touched with workspace := true }

/-- The touched aliases, or `none` when the next pass must cover the workspace. The set itself
is left empty. -/
def take (touched : TouchedRepositories) : Option (List String) :=
  if !touched.workspace && !touched.aliases.isEmpty then some touched.aliases else none

end TouchedRepositories

structure PendingChanges where
  refreshDirectories : Bool := false
  refreshScope : Bool := false
  touched : TouchedRepositories := {}
deriving DecidableEq, Repr

inductive WatchSignal
  | dirty
  | refreshDirectories
deriving DecidableEq, Repr

inductive WatchEventMessage
  | ready (schemaVersion : Nat)
  | dirty (schemaVersion : Nat) (refreshScope : Bool) (repositories : List String)
deriving DecidableEq, Repr

def WatchEventMessage.schemaVersion : WatchEventMessage → Nat
  | .ready schemaVersion => schemaVersion
  | .dirty schemaVersion _ _ => schemaVersion

structure WatchEventState where
  initialReady : Bool := false
  refreshStarted : Bool := false
  refreshScope : Bool := false
  touched : TouchedRepositories := {}
  failed : Bool := false
deriving DecidableEq, Repr

structure ScanOverrides where
  repository : Option String
  touchedRepositories : List String
deriving DecidableEq, Repr

def watchOverrides (repository : Option String) : ScanOverrides :=
  { repository, touchedRepositories := [] }

/-- Restricts a watch pass to the touched repositories unless the scope or workspace changed. -/
def targetedPassOverrides (overrides : ScanOverrides) (refreshScope : Bool)
    (touched : Option (List String)) : ScanOverrides :=
  if !refreshScope && overrides.repository.isNone then
    { overrides with touchedRepositories := touched.getD [] }
  else overrides

/-- What the watcher backend hands to `forward_event`: an event with the answers of the scope to
it (its `event_scope`, whether it changes an enabled `.gitignore`, whether it created a
directory), or an error with the paths it names. -/
inductive Notification (Path : Type)
  | event (eventScope : Except String EventScope) (changesEnabledGitignore : Bool)
      (createdDirectory : Bool)
  | error (paths : List Path)

inductive PendingFlag
  | refreshScope
  | refreshDirectories
deriving DecidableEq, Repr

def PendingChanges.store (pending : PendingChanges) : PendingFlag → PendingChanges
  | .refreshScope => { pending with refreshScope := true }
  | .refreshDirectories => { pending with refreshDirectories := true }

/-- What a callback has left to do after it recorded its event: the flags it stores and the
signal it sends at last. -/
structure Callback where
  stores : List PendingFlag
  signal : WatchSignal
deriving DecidableEq, Repr

def forwardEvent {Path : Type} (databaseArtifact : Path → Bool) :
    Notification Path → Option (EventScope × Callback)
  | .event (.ok .irrelevant) _ _ => none
  | .event (.ok touched) changesEnabledGitignore createdDirectory =>
    some (touched,
      { stores := (if changesEnabledGitignore then [.refreshScope] else [])
          ++ (if createdDirectory then [.refreshDirectories] else []),
        signal := if createdDirectory then .refreshDirectories else .dirty })
  | .event (.error _) _ _ => some (.workspace, { stores := [], signal := .dirty })
  | .error paths =>
    if !paths.isEmpty && paths.all databaseArtifact then none
    else some (.workspace, { stores := [], signal := .dirty })

def watchEventProtocolMaxBytes : Nat := 16 * 1024

/-- `emit_dirty`: the message, widened to the whole workspace when it would exceed the protocol
bound; nothing is written when even that is too long. -/
def emitDirty (encodedLength : WatchEventMessage → Nat) (refreshScope : Bool)
    (repositories : List String) : Option WatchEventMessage :=
  let message := WatchEventMessage.dirty 2 refreshScope repositories
  if encodedLength message < watchEventProtocolMaxBytes then some message
  else
    let widened := WatchEventMessage.dirty 2 refreshScope []
    if encodedLength widened + 1 ≤ watchEventProtocolMaxBytes then some widened else none

def WatchEventState.merge (current : WatchEventState) : WatchEventMessage → Option WatchEventState
  | .ready 2 => some { current with initialReady := true, refreshStarted := false }
  | .dirty 2 refreshScope repositories =>
    some { current with
      refreshStarted := true
      refreshScope := current.refreshScope || refreshScope
      touched := current.touched.record
        (if repositories.isEmpty then .workspace else .repositories (sortedUnique repositories)) }
  | _ => none

inductive Worker
  | waiting
  | received (signal : WatchSignal)
  | scoped (signal : WatchSignal) (refreshScope : Bool)
  | taken (signal : WatchSignal) (refreshScope : Bool) (repositories : List String)
  | dirtied (signal : WatchSignal)
  | refreshing (refresh : Bool)
deriving DecidableEq, Repr

inductive Reader
  | reading
  | signalling
  | stopped
deriving DecidableEq, Repr

structure Pass where
  overrides : ScanOverrides
  recordedBefore : Nat
deriving DecidableEq, Repr

inductive Supervisor
  | waiting
  | debouncing
  | changed
  | scoped (refreshScope : Bool)
  | passing (pass : Pass)
deriving DecidableEq, Repr

structure State where
  recorded : List EventScope := []
  callbacks : List Callback := []
  pending : PendingChanges := {}
  signals : Option WatchSignal := none
  worker : Worker := .waiting
  pipe : List WatchEventMessage := []
  reader : Reader := .reading
  shared : WatchEventState := {}
  token : Bool := false
  supervisor : Supervisor := .waiting
  passes : List Pass := []
deriving DecidableEq, Repr

structure Setting (Path : Type) where
  databaseArtifact : Path → Bool
  encodedLength : WatchEventMessage → Nat
  repository : Option String

inductive Action (Path : Type)
  | notify (notification : Notification Path)
  | callback (index : Nat)
  | work
  | read
  | receive
  | supervise

namespace State

variable {Path : Type}

def notify (databaseArtifact : Path → Bool) (s : State) (notification : Notification Path) :
    State :=
  match forwardEvent databaseArtifact notification with
  | none => s
  | some (scope, callback) =>
    { s with
      recorded := s.recorded ++ [scope]
      pending := { s.pending with touched := s.pending.touched.record scope }
      callbacks := s.callbacks ++ [callback] }

def advance (s : State) (index : Nat) : Option State :=
  match s.callbacks[index]? with
  | none => none
  | some { stores := flag :: stores, signal } =>
    some { s with
      pending := s.pending.store flag
      callbacks := s.callbacks.set index { stores, signal } }
  | some { stores := [], signal } =>
    some { s with
      signals := s.signals.or (some signal)
      callbacks := s.callbacks.eraseIdx index }

def work (encodedLength : WatchEventMessage → Nat) (s : State) : Option State :=
  match s.worker with
  | .waiting => s.signals.map fun signal => { s with signals := none, worker := .received signal }
  | .received signal =>
    some { s with
      pending := { s.pending with refreshScope := false }
      worker := .scoped signal s.pending.refreshScope }
  | .scoped signal refreshScope =>
    some { s with
      pending := { s.pending with touched := {} }
      worker := .taken signal refreshScope (s.pending.touched.take.getD []) }
  | .taken signal refreshScope repositories =>
    (emitDirty encodedLength refreshScope repositories).map fun message =>
      { s with pipe := s.pipe ++ [message], worker := .dirtied signal }
  | .dirtied signal =>
    some { s with
      pending := { s.pending with refreshDirectories := false }
      worker := .refreshing
        (s.pending.refreshDirectories || signal == .refreshDirectories) }
  | .refreshing _ => some { s with pipe := s.pipe ++ [.ready 2], worker := .waiting }

def read (s : State) : Option State :=
  match s.reader, s.pipe with
  | .reading, message :: pipe =>
    match s.shared.merge message with
    | none => some { s with pipe, reader := .stopped, shared := { s.shared with failed := true } }
    | some shared =>
      some { s with
        pipe, shared
        reader := match message with
          | .ready _ => .reading
          | .dirty _ _ _ => .signalling }
  | .signalling, _ => some { s with reader := .reading, token := true }
  | _, _ => none

def receive (s : State) : Option State :=
  match s.supervisor, s.token with
  | .waiting, true | .debouncing, true => some { s with supervisor := .debouncing, token := false }
  | _, _ => none

def supervise (overrides : ScanOverrides) (s : State) : Option State :=
  match s.supervisor with
  | .waiting => none
  | .debouncing => some { s with supervisor := .changed }
  | .changed =>
    some { s with
      shared := { s.shared with refreshScope := false }
      supervisor := .scoped s.shared.refreshScope }
  | .scoped refreshScope =>
    some { s with
      shared := { s.shared with touched := {} }
      supervisor := .passing
        { overrides := targetedPassOverrides overrides refreshScope s.shared.touched.take,
          recordedBefore := s.recorded.length } }
  | .passing pass => some { s with supervisor := .waiting, passes := s.passes ++ [pass] }

def step (setting : Setting Path) (s : State) : Action Path → Option State
  | .notify notification => some (s.notify setting.databaseArtifact notification)
  | .callback index => s.advance index
  | .work => s.work setting.encodedLength
  | .read => s.read
  | .receive => s.receive
  | .supervise => s.supervise (watchOverrides setting.repository)

end State

/-- The worker has installed its watches and is about to emit its first `Ready`. The supervisor
waits for that message and runs its catch-up pass before it first waits for a change; in both it
takes nothing that the other parties share. -/
def start : State := { worker := .refreshing false }

def run {Path : Type} (setting : Setting Path) (actions : List (Action Path)) : Option State :=
  Steps.run (State.step setting) start actions

end CodeSystemGraph.SyncWatch
