import CodeSystemGraph.Ordered
import CodeSystemGraph.Steps
import CodeSystemGraph.Text

/-!
The writer lock of the store: `StoreLock::acquire` and its `Drop`, with one step for each call of
the file system that they make, by any number of processes. Time is in nanoseconds.
-/

namespace CodeSystemGraph.StoreLock

open Ordered Steps Text

structure LockMetadata where
  pid : Nat
  processStartedAt : Nat
  token : String
deriving DecidableEq

namespace LockMetadata

def encode (metadata : LockMetadata) : String :=
  "version=1\npid=" ++ toString metadata.pid ++ "\nprocess_started_at=" ++
    toString metadata.processStartedAt ++ "\ntoken=" ++ metadata.token ++ "\n"

structure Fields where
  version : Option (List Char) := none
  pid : Option Nat := none
  processStartedAt : Option Nat := none
  token : Option (List Char) := none

def readLine (fields : Fields) (line : List Char) : Option Fields :=
  match splitOnce '=' line with
  | (_, none) => none
  | (key, some value) =>
    if key = "version".toList then some { fields with version := some value }
    else if key = "pid".toList then some { fields with pid := parseUnsigned 4294967296 value }
    else if key = "process_started_at".toList then
      some { fields with processStartedAt := parseUnsigned 18446744073709551616 value }
    else if key = "token".toList then some { fields with token := some value }
    else none

def decode (content : String) : Option LockMetadata :=
  ((textLines content.toList).foldlM readLine {}).bind fun fields =>
    match fields with
    | ⟨some ['1'], some pid, some startedAt, some (c :: token)⟩ =>
      some ⟨pid, startedAt, String.ofList (c :: token)⟩
    | _ => none

end LockMetadata

/-- Where a process is in `acquire` or `drop`: the call it makes next. `content` is what it writes
into its lock, `file` the file it has created. -/
inductive Control
  | idle
  | create (retry : Bool) (content : String)
  | write (content : String) (file : Nat)
  | stat (content : String)
  | read (content : String)
  | judge (content found : String)
  | remove (content : String)
  | holding (content : String) (file : Nat)
  | dropRead (content : String) (file : Nat)
  | dropRemove (file : Nat)
deriving DecidableEq

/-- The lock file that a process has created and not yet given up. -/
def Control.owned : Control → Option Nat
  | .write _ file | .holding _ file | .dropRead _ file | .dropRemove file => some file
  | _ => none

def Control.Holds : Control → Bool
  | .holding _ _ | .dropRead _ _ | .dropRemove _ => true
  | _ => false

structure Process where
  startedAt : Nat
  control : Control := .idle
deriving DecidableEq

/-- The file at the path of the lock; `id` tells files apart that follow one another there. -/
structure LockFile where
  id : Nat
  creator : Nat
  content : String
  modified : Nat
deriving DecidableEq

structure State where
  now : Nat
  processes : BTreeMap Nat Process
  lockFile : Option LockFile
  nextFile : Nat

inductive Action
  | tick (nanos : Nat)
  | spawn (pid startedAt : Nat)
  | exit (pid : Nat)
  | acquire (pid : Nat)
  | drop (pid : Nat)
  | call (pid : Nat)
  | fail (pid : Nat)
deriving DecidableEq

namespace State

variable (s : State)

def control (pid : Nat) : Option Control :=
  s.processes[pid]?.map Process.control

def moveTo (pid : Nat) (control : Control) : State :=
  { s with processes := s.processes.alter pid fun process =>
      process.map fun process => { process with control := control } }

def processStartTime (pid : Nat) : Option Nat :=
  s.processes[pid]?.map Process.startedAt

def lockOwnerIsAlive (metadata : LockMetadata) : Bool :=
  (s.processStartTime metadata.pid).any fun startedAt =>
    metadata.processStartedAt = 0 || metadata.processStartedAt = startedAt

def newContent (stableId : String → String → String) (pid : Nat) : String :=
  LockMetadata.encode
    { pid := pid
      processStartedAt := (s.processStartTime pid).getD 0
      token := stableId "lock" (toString pid ++ ":" ++ toString (s.now / 1000000000) ++ ":" ++
        toString (s.now % 1000000000)) }

def oldEnough (staleAfter : Nat) (file : LockFile) : Bool :=
  file.modified ≤ s.now && staleAfter ≤ s.now - file.modified

def createFile (pid : Nat) : State :=
  { s with lockFile := some ⟨s.nextFile, pid, "", s.now⟩, nextFile := s.nextFile + 1 }

/-- The writer has its file open: the write does not go to a file that has taken its place. -/
def writeFile (file : Nat) (content : String) : State :=
  { s with lockFile := s.lockFile.map fun found =>
      if found.id = file then { found with content := content, modified := s.now } else found }

def removeFile : State :=
  { s with lockFile := none }

end State

/-- The next call of a process, and where it is afterwards. A call that finds no file where it needs
one, like `LockHeld`, ends `acquire`. -/
def call (staleAfter : Nat) (s : State) (pid : Nat) : Control → Option State
  | .idle => none
  | .create retry content =>
    match s.lockFile with
    | none => some ((s.createFile pid).moveTo pid (.write content s.nextFile))
    | some _ => some (s.moveTo pid (if retry then .idle else .stat content))
  | .write content file => some ((s.writeFile file content).moveTo pid (.holding content file))
  | .stat content =>
    match s.lockFile with
    | none => some (s.moveTo pid .idle)
    | some file => some (s.moveTo pid (if s.oldEnough staleAfter file then .read content else .idle))
  | .read content =>
    match s.lockFile with
    | none => some (s.moveTo pid .idle)
    | some file => some (s.moveTo pid (.judge content file.content))
  | .judge content found =>
    -- a lock that cannot be decoded has no live owner
    let stale := (LockMetadata.decode found).all fun metadata => !s.lockOwnerIsAlive metadata
    some (s.moveTo pid (if stale then .remove content else .idle))
  | .remove content =>
    match s.lockFile with
    | none => some (s.moveTo pid .idle)
    | some _ => some (s.removeFile.moveTo pid (.create true content))
  | .holding _ _ => none
  | .dropRead content file =>
    match s.lockFile with
    | none => some (s.moveTo pid .idle)
    | some found => some (s.moveTo pid (if found.content = content then .dropRemove file else .idle))
  | .dropRemove _ => some (s.removeFile.moveTo pid .idle)

def fail (s : State) (pid : Nat) : Control → Option State
  | .idle | .holding _ _ | .judge _ _ => none
  | _ => some (s.moveTo pid .idle)

section Step

variable (stableId : String → String → String) (staleAfter : Nat)

def step (s : State) : Action → Option State
  | .tick nanos => some { s with now := s.now + nanos }
  | .spawn pid startedAt =>
    if s.processes[pid]?.isSome then none
    else some { s with processes := s.processes.insert pid { startedAt := startedAt } }
  | .exit pid =>
    if s.processes[pid]?.isSome then some { s with processes := s.processes.erase pid } else none
  | .acquire pid =>
    if s.control pid = some .idle then some (s.moveTo pid (.create false (s.newContent stableId pid)))
    else none
  | .drop pid =>
    match s.control pid with
    | some (.holding content file) => some (s.moveTo pid (.dropRead content file))
    | _ => none
  | .call pid => (s.control pid).bind (call staleAfter s pid)
  | .fail pid => (s.control pid).bind (fail s pid)

end Step

section Exclusion

variable {stableId : String → String → String} {staleAfter : Nat} {s : State}

def Owns (s : State) (pid file : Nat) : Prop :=
  (s.control pid).bind Control.owned = some file

/-- The file of a process that owns one is the lock, and the process has created it. -/
def Exclusive (s : State) : Prop :=
  ∀ pid file, Owns s pid file → ∃ found ∈ s.lockFile, found.id = file ∧ found.creator = pid

def Control.Removes : Control → Bool
  | .remove _ => true
  | _ => false

/-- No recovering process removes a file that a live process has created and still owns. -/
def Unowned (s : State) : Action → Prop
  | .call pid => (s.control pid).any Control.Removes → ∀ file ∈ s.lockFile,
      ∀ entry ∈ s.processes.toList, entry.2.control.owned ≠ some file.id
  | _ => True

instance (s : State) : (action : Action) → Decidable (Unowned s action)
  | .call pid => inferInstanceAs (Decidable ((s.control pid).any Control.Removes → _))
  | .tick _ | .spawn _ _ | .exit _ | .acquire _ | .drop _ | .fail _ => isTrue trivial

theorem control_moveTo (s : State) (pid other : Nat) (control : Control) :
    (s.moveTo pid control).control other =
      if pid = other then (s.control other).map fun _ => control else s.control other := by
  simp only [State.control, State.moveTo, Std.ExtTreeMap.getElem?_alter,
    Std.LawfulEqOrd.compare_eq_iff_eq]
  by_cases same : pid = other
  · subst same
    simp only [if_true, Option.map_map]
    rfl
  · simp only [same, if_false]

theorem owns_moveTo {pid other file : Nat} {control : Control}
    (owns : Owns (s.moveTo pid control) other file) :
    (pid = other ∧ control.owned = some file) ∨ (pid ≠ other ∧ Owns s other file) := by
  rw [Owns, control_moveTo] at owns
  by_cases same : pid = other
  · rw [if_pos same] at owns
    cases found : s.control other with
    | none =>
      rw [found] at owns
      cases owns
    | some before =>
      rw [found] at owns
      exact .inl ⟨same, owns⟩
  · rw [if_neg same] at owns
    exact .inr ⟨same, owns⟩

theorem Exclusive.move (exclusive : Exclusive s) {pid : Nat} {control : Control}
    (keeps : ∀ file, control.owned = some file → Owns s pid file) :
    Exclusive (s.moveTo pid control) := by
  intro other file owns
  obtain ⟨same, owned⟩ | ⟨_, owns⟩ := owns_moveTo owns
  · subst same
    exact exclusive pid file (keeps file owned)
  · exact exclusive other file owns

theorem Exclusive.create (exclusive : Exclusive s) (pid : Nat) (content : String)
    (absent : s.lockFile = none) :
    Exclusive ((s.createFile pid).moveTo pid (.write content s.nextFile)) := by
  intro other file owns
  obtain ⟨same, owned⟩ | ⟨_, owns⟩ := owns_moveTo owns
  · subst same
    cases owned
    exact ⟨_, rfl, rfl, rfl⟩
  · obtain ⟨found, is, _⟩ := exclusive other file owns
    rw [absent] at is
    cases is

theorem Exclusive.write (exclusive : Exclusive s) (file : Nat) (content : String) :
    Exclusive (s.writeFile file content) := by
  intro pid file' owns
  obtain ⟨found, is, same, creator⟩ := exclusive pid file' owns
  refine ⟨_, Option.mem_map_of_mem _ is, ?_⟩
  split
  · exact ⟨same, creator⟩
  · exact ⟨same, creator⟩

theorem Exclusive.remove {pid : Nat} {control : Control} (gone : control.owned = none)
    (alone : ∀ other file, pid ≠ other → ¬ Owns s other file) :
    Exclusive (s.removeFile.moveTo pid control) := by
  intro other file owns
  obtain ⟨_, owned⟩ | ⟨apart, owns⟩ := owns_moveTo owns
  · rw [gone] at owned
    cases owned
  · exact absurd owns (alone other file apart)

theorem Exclusive.unique (exclusive : Exclusive s) {pid other file file' : Nat}
    (owns : Owns s pid file) (owns' : Owns s other file') : pid = other := by
  obtain ⟨found, is, _, creator⟩ := exclusive pid file owns
  obtain ⟨found', is', _, creator'⟩ := exclusive other file' owns'
  cases Option.mem_unique is is'
  rw [← creator, creator']

theorem owns_of_control {pid file : Nat} {control : Control} (at' : s.control pid = some control)
    (owned : control.owned = some file) : Owns s pid file := by
  rw [Owns, at']
  exact owned

theorem Exclusive.call (exclusive : Exclusive s) {pid : Nat} {control : Control} {next : State}
    (at' : s.control pid = some control) (unowned : Unowned s (.call pid))
    (called : call staleAfter s pid control = some next) : Exclusive next := by
  cases control with
  | idle => cases called
  | holding content file => cases called
  | create retry content =>
    cases absent : s.lockFile with
    | none =>
      rw [StoreLock.call, absent] at called
      cases called
      exact exclusive.create pid content absent
    | some file =>
      rw [StoreLock.call, absent] at called
      cases called
      refine exclusive.move ?_
      intro file owned
      split at owned <;> cases owned
  | write content file =>
    cases called
    refine (exclusive.write file content).move ?_
    intro file' owned
    exact owns_of_control at' owned
  | stat content =>
    cases absent : s.lockFile with
    | none =>
      rw [StoreLock.call, absent] at called
      cases called
      exact exclusive.move nofun
    | some file =>
      rw [StoreLock.call, absent] at called
      cases called
      refine exclusive.move ?_
      intro file owned
      split at owned <;> cases owned
  | read content =>
    cases absent : s.lockFile with
    | none =>
      rw [StoreLock.call, absent] at called
      cases called
      exact exclusive.move nofun
    | some file =>
      rw [StoreLock.call, absent] at called
      cases called
      exact exclusive.move nofun
  | judge content found =>
    cases called
    refine exclusive.move ?_
    intro file owned
    split at owned <;> cases owned
  | remove content =>
    cases absent : s.lockFile with
    | none =>
      rw [StoreLock.call, absent] at called
      cases called
      exact exclusive.move nofun
    | some file =>
      rw [StoreLock.call, absent] at called
      cases called
      refine Exclusive.remove rfl ?_
      intro other file' _ owns
      obtain ⟨found, is, same, _⟩ := exclusive other file' owns
      obtain ⟨before, live, owned⟩ := Option.bind_eq_some_iff.1 owns
      obtain ⟨process, listed, rfl⟩ := Option.map_eq_some_iff.1 live
      have free := unowned (by rw [at']; rfl) found is (other, process)
        (Std.ExtTreeMap.mem_toList_iff_getElem?_eq_some.2 listed)
      rw [same] at free
      exact free owned
  | dropRead content file =>
    cases absent : s.lockFile with
    | none =>
      rw [StoreLock.call, absent] at called
      cases called
      exact exclusive.move nofun
    | some found =>
      rw [StoreLock.call, absent] at called
      cases called
      refine exclusive.move ?_
      intro file' owned
      split at owned
      · exact owns_of_control at' owned
      · cases owned
  | dropRemove file =>
    cases called
    refine Exclusive.remove rfl ?_
    intro other file' apart owns
    exact apart (exclusive.unique (owns_of_control at' rfl) owns)

theorem control_erase {pid other : Nat} :
    ({ s with processes := s.processes.erase pid } : State).control other =
      if pid = other then none else s.control other := by
  simp only [State.control, Std.ExtTreeMap.getElem?_erase, Std.LawfulEqOrd.compare_eq_iff_eq]
  split <;> rfl

theorem control_insert {pid other : Nat} {process : Process} :
    ({ s with processes := s.processes.insert pid process } : State).control other =
      if pid = other then some process.control else s.control other := by
  simp only [State.control, Std.ExtTreeMap.getElem?_insert, Std.LawfulEqOrd.compare_eq_iff_eq]
  split <;> rfl

theorem Exclusive.step (exclusive : Exclusive s) {action : Action} {next : State}
    (unowned : Unowned s action) (stepped : step stableId staleAfter s action = some next) :
    Exclusive next := by
  cases action with
  | tick nanos =>
    cases stepped
    exact exclusive
  | spawn pid startedAt =>
    rw [StoreLock.step] at stepped
    split at stepped
    · cases stepped
    · cases stepped
      intro other file owns
      rw [Owns, control_insert] at owns
      split at owns
      · cases owns
      · exact exclusive other file owns
  | exit pid =>
    rw [StoreLock.step] at stepped
    split at stepped
    · cases stepped
      intro other file owns
      rw [Owns, control_erase] at owns
      split at owns
      · cases owns
      · exact exclusive other file owns
    · cases stepped
  | acquire pid =>
    rw [StoreLock.step] at stepped
    split at stepped
    · cases stepped
      exact exclusive.move nofun
    · cases stepped
  | drop pid =>
    rw [StoreLock.step] at stepped
    split at stepped
    · next content file at' =>
      cases stepped
      exact exclusive.move fun file' owned => owns_of_control at' owned
    · cases stepped
  | call pid =>
    obtain ⟨control, at', called⟩ := Option.bind_eq_some_iff.1 stepped
    exact exclusive.call at' unowned called
  | fail pid =>
    obtain ⟨control, at', failed⟩ := Option.bind_eq_some_iff.1 stepped
    cases control with
    | idle => cases failed
    | holding content file => cases failed
    | judge content found => cases failed
    | _ =>
      cases failed
      exact exclusive.move nofun

def Idle (s : State) : Prop :=
  ∀ pid, ∀ control ∈ s.control pid, control = .idle

/-- In every run in which no recovering process removes a file that a live process owns, at most
one live process holds the lock, and a drop removes the file of its own process. -/
theorem lock_exclusive (stableId : String → String → String) (staleAfter : Nat) (start s : State)
    (actions : List Action) (idle : Idle start)
    (meets : Meets (step stableId staleAfter) Unowned start actions)
    (ran : run (step stableId staleAfter) start actions = some s) :
    (∀ pid other, (s.control pid).any Control.Holds → (s.control other).any Control.Holds →
      pid = other) ∧
    ∀ pid file, s.control pid = some (.dropRemove file) →
      ∃ found ∈ s.lockFile, found.creator = pid := by
  have start : Exclusive start := by
    intro pid file owns
    obtain ⟨control, at', owned⟩ := Option.bind_eq_some_iff.1 owns
    rw [idle pid control at'] at owned
    cases owned
  have exclusive : Exclusive s :=
    run_keeps_of_meets (fun _ _ _ holds unowned stepped => Exclusive.step holds unowned stepped)
      start meets ran
  have owner : ∀ pid, (s.control pid).any Control.Holds → ∃ file, Owns s pid file := by
    intro pid holds
    cases at' : s.control pid with
    | none =>
      rw [at'] at holds
      cases holds
    | some control =>
      rw [at'] at holds
      cases control with
      | holding content file => exact ⟨file, owns_of_control at' rfl⟩
      | dropRead content file => exact ⟨file, owns_of_control at' rfl⟩
      | dropRemove file => exact ⟨file, owns_of_control at' rfl⟩
      | _ => cases holds
  constructor
  · intro pid other holds holds'
    obtain ⟨file, owns⟩ := owner pid holds
    obtain ⟨file', owns'⟩ := owner other holds'
    exact exclusive.unique owns owns'
  · intro pid file at'
    obtain ⟨found, is, _, creator⟩ := exclusive pid file (owns_of_control at' rfl)
    exact ⟨found, is, creator⟩

end Exclusion

section Runs

def exampleId (kind value : String) : String := kind ++ value

/-- Two processes, and the lock that a process has left behind that is no longer there. -/
def exampleStart : State where
  now := 100
  processes := (∅ : BTreeMap Nat Process).insert 1 { startedAt := 5 } |>.insert 2 { startedAt := 6 }
  lockFile := some ⟨0, 9, LockMetadata.encode ⟨9, 3, "old"⟩, 10⟩
  nextFile := 1

theorem exampleStart_idle : Idle exampleStart := by
  intro pid control at'
  obtain ⟨process, found, rfl⟩ := Option.map_eq_some_iff.1 at'
  simp only [exampleStart, Std.ExtTreeMap.getElem?_insert] at found
  split at found
  · cases found
    rfl
  · split at found
    · cases found
      rfl
    · simp at found

def recovery (pid : Nat) : List Action :=
  [.acquire pid, .call pid, .call pid, .call pid, .call pid, .call pid, .call pid, .call pid]

theorem lock_exclusive_recovery :
    ∃ s, run (step exampleId 50) exampleStart (recovery 1) = some s ∧
      (s.control 1).any Control.Holds = true ∧
      ∀ pid other, (s.control pid).any Control.Holds → (s.control other).any Control.Holds →
        pid = other :=
  ⟨_, rfl, by decide +kernel, (lock_exclusive exampleId 50 exampleStart _ (recovery 1)
    exampleStart_idle (by decide +kernel) rfl).1⟩

theorem lock_not_exclusive :
    ∃ actions s, run (step exampleId 50) exampleStart actions = some s ∧
      (s.control 1).any Control.Holds = true ∧ (s.control 2).any Control.Holds = true :=
  ⟨[.acquire 1, .call 1, .call 1, .call 1, .call 1, .acquire 2, .call 2, .call 2, .call 2, .call 2,
    .call 1, .call 1, .call 1, .call 2, .call 2, .call 2], _, rfl, by decide +kernel,
    by decide +kernel⟩

end Runs

end CodeSystemGraph.StoreLock
