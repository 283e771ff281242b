import CodeSystemGraph.Steps
import Mathlib.Logic.Function.Basic

/-!
`restore_database` on Linux, one file-system call at a time. Between any two of its
calls another process may create, replace or rewrite the destination; every
call may fail.
-/

namespace CodeSystemGraph.StoreRestore

inductive Origin
  | original
  | other
  | backup
  | safetyCopy
  | incomplete
deriving DecidableEq, Repr

structure File where
  bytes : List UInt8
  origin : Origin
deriving DecidableEq, Repr

/-- The paths in question: the destination, `database.sqlite` in the staging directory of the
restore and in that of the safety copy, and the safety backup. -/
inductive Place
  | destination
  | staging
  | safetyStaging
  | safety
deriving DecidableEq, Repr

structure Disk where
  files : Nat → File
  next : Nat
  names : Place → Option Nat

namespace Disk

def create (disk : Disk) (place : Place) (file : File) : Disk where
  files := Function.update disk.files disk.next file
  next := disk.next + 1
  names := Function.update disk.names place (some disk.next)

def rewrite (disk : Disk) (identity : Nat) (file : File) : Disk :=
  { disk with files := Function.update disk.files identity file }

def hardLink (disk : Disk) (source target : Place) : Option Disk :=
  match disk.names source, disk.names target with
  | some identity, none =>
    some { disk with names := Function.update disk.names target (some identity) }
  | _, _ => none

def exchange (disk : Disk) (left right : Place) : Option Disk :=
  match disk.names left, disk.names right with
  | some leftFile, some rightFile =>
    some { disk with
      names := Function.update (Function.update disk.names left (some rightFile)) right
        (some leftFile) }
  | _, _ => none

def remove (disk : Disk) (place : Place) : Disk :=
  { disk with names := Function.update disk.names place none }

def read (disk : Disk) (place : Place) : Option (List UInt8) :=
  (disk.names place).map fun identity => (disk.files identity).bytes

end Disk

structure DestinationSnapshot (Digest : Type) where
  identity : Nat
  digest : Digest
deriving DecidableEq, Repr

inductive RestoreError
  | io
  | changedDuringSnapshot
  | changedBeforeReplacement
  | rollbackMismatch
  | changedDuringReplacement
deriving DecidableEq, Repr

inductive RestoreResult
  | ok
  | error (operation : RestoreError) (cleanupFailed : Bool)
deriving DecidableEq, Repr

def RestoreResult.afterCleanup (reported : Bool) : RestoreResult → RestoreResult
  | .ok => .ok
  | .error operation cleanupFailed => .error operation (cleanupFailed || reported)

section Phases

variable (Digest : Type)

/-- Why `DestinationSnapshot::capture` runs: before the safety copy, after it, or on the file that
the exchange displaced. -/
inductive Capture
  | before
  | after (before : DestinationSnapshot Digest) (safetyDigest : Digest)
  | displaced (expected : DestinationSnapshot Digest)
deriving DecidableEq, Repr

/-- Why `DestinationSnapshot::matches` runs on the destination: before the replacement, or after
the rollback. -/
inductive Comparison
  | unchanged (expected : DestinationSnapshot Digest)
  | rolledBack (displaced : DestinationSnapshot Digest)
deriving DecidableEq, Repr

inductive Phase
  | checking
  | locking
  | identifying (capture : Capture Digest)
  | digesting (capture : Capture Digest) (identity : Nat)
  | copying (before : DestinationSnapshot Digest)
  | linkingSafety (before : DestinationSnapshot Digest) (safetyDigest : Digest)
  | creatingStaging (expected : Option (DestinationSnapshot Digest))
  | filling (expected : Option (DestinationSnapshot Digest))
  | readying (expected : Option (DestinationSnapshot Digest))
  | comparingIdentity (comparison : Comparison Digest)
  | comparingDigest (comparison : Comparison Digest)
  | publishing (expected : Option (DestinationSnapshot Digest))
  | rollingBack (displaced : Option (DestinationSnapshot Digest))
  | cleaning (result : RestoreResult) (reported : Bool)
  | returned (result : RestoreResult)
deriving DecidableEq, Repr

end Phases

variable {Digest : Type}

def Capture.place : Capture Digest → Place
  | .before => .destination
  | .after _ _ => .destination
  | .displaced _ => .staging

def Comparison.snapshot : Comparison Digest → DestinationSnapshot Digest
  | .unchanged expected => expected
  | .rolledBack displaced => displaced

structure State (Digest : Type) where
  disk : Disk
  phase : Phase Digest
  databaseExisted : Bool
  snapshot : Option (DestinationSnapshot Digest)
  displaced : List (Nat × List UInt8)
  replaced : List Nat

/-- The digest of a content; what taking the SQLite write lock leaves of the destination, whose
journal is checkpointed into it; the bytes of a validated copy of the backup. -/
structure Setting (Digest : Type) where
  digest : List UInt8 → Digest
  checkpoint : List UInt8 → List UInt8
  backup : List UInt8

namespace State

variable (s : State Digest)

def go (phase : Phase Digest) : State Digest := { s with phase }

def fail (error : RestoreError) : State Digest := s.go (.returned (.error error false))

def failAndClean (error : RestoreError) : State Digest := s.go (.cleaning (.error error false) true)

/-- The error branch of a capture. The displaced file is put back without an inspection. -/
def captureFailed : Capture Digest → State Digest
  | .before => s.fail .io
  | .after _ _ => s.fail .io
  | .displaced _ => s.go (.rollingBack none)

variable [DecidableEq Digest]

def captured (snapshot : DestinationSnapshot Digest) : Capture Digest → State Digest
  | .before => s.go (.copying snapshot)
  | .after before safetyDigest =>
    if before ≠ snapshot ∨ safetyDigest ≠ before.digest then s.fail .changedDuringSnapshot
    else { s with snapshot := some snapshot, phase := .creatingStaging (some snapshot) }
  | .displaced expected =>
    if expected = snapshot then s.go (.cleaning .ok false) else s.go (.rollingBack (some snapshot))

/-- What is done when the destination could not be compared. A staging directory that still owns
its cleanup is dropped, one that displaced a file is kept. -/
def compareFailed : Comparison Digest → State Digest
  | .unchanged _ => s.go (.cleaning (.error .io false) false)
  | .rolledBack _ => s.fail .io

def compared (same : Bool) : Comparison Digest → State Digest
  | .unchanged expected =>
    if same then s.go (.publishing (some expected)) else s.failAndClean .changedBeforeReplacement
  | .rolledBack _ =>
    if same then s.fail .changedDuringReplacement else s.fail .rollbackMismatch

def exchange (next : Phase Digest) : Option (State Digest) :=
  match s.disk.names .destination, s.disk.exchange .staging .destination with
  | some identity, some disk =>
    some { s with
      disk
      phase := next
      displaced := s.displaced ++ [(identity, (s.disk.files identity).bytes)] }
  | _, _ => none

def attempt {α : Type} (succeeds : Bool) (call : Option α) (next : α → State Digest)
    (failed : State Digest) : State Digest :=
  match call with
  | some value => if succeeds then next value else failed
  | none => failed

def restore (setting : Setting Digest) (succeeds : Bool) : Option (State Digest) :=
  match s.phase with
  | .checking =>
    some (attempt succeeds (s.disk.names .destination)
      (fun _ => { s with databaseExisted := true, phase := .locking })
      { s with databaseExisted := false, phase := .creatingStaging none })
  | .locking =>
    some (attempt succeeds (s.disk.names .destination)
      (fun identity =>
        let file := s.disk.files identity
        { s with
          disk := s.disk.rewrite identity { file with bytes := setting.checkpoint file.bytes }
          phase := .identifying .before })
      (s.fail .io))
  | .identifying capture =>
    some (attempt succeeds (s.disk.names capture.place)
      (fun identity => s.go (.digesting capture identity))
      (s.captureFailed capture))
  | .digesting capture identity =>
    some (attempt succeeds (s.disk.read capture.place)
      (fun bytes => s.captured ⟨identity, setting.digest bytes⟩ capture)
      (s.captureFailed capture))
  | .copying before =>
    some (attempt succeeds (s.disk.read .destination)
      (fun bytes =>
        { s with
          disk := s.disk.create .safetyStaging { bytes, origin := .safetyCopy }
          phase := .linkingSafety before (setting.digest bytes) })
      (s.fail .io))
  | .linkingSafety before safetyDigest =>
    some (attempt succeeds (s.disk.hardLink .safetyStaging .safety)
      (fun disk =>
        { s with
          disk := disk.remove .safetyStaging
          phase := .identifying (.after before safetyDigest) })
      (s.fail .io))
  | .creatingStaging expected =>
    some (attempt succeeds (some (s.disk.create .staging { bytes := [], origin := .incomplete }))
      (fun disk => { s with disk, phase := .filling expected })
      (s.fail .io))
  | .filling expected =>
    some (attempt succeeds (s.disk.names .staging)
      (fun identity =>
        { s with
          disk := s.disk.rewrite identity { bytes := setting.backup, origin := .backup }
          phase := .readying expected })
      (s.failAndClean .io))
  | .readying none =>
    some (attempt succeeds (some ()) (fun _ => s.go (.publishing none)) (s.failAndClean .io))
  | .readying (some snapshot) =>
    some (attempt succeeds (some ())
      (fun _ => s.go (.comparingIdentity (.unchanged snapshot)))
      (s.failAndClean .io))
  | .comparingIdentity comparison =>
    some (attempt succeeds (s.disk.names .destination)
      (fun identity =>
        if comparison.snapshot.identity = identity then s.go (.comparingDigest comparison)
        else s.compared false comparison)
      (s.compareFailed comparison))
  | .comparingDigest comparison =>
    some (attempt succeeds (s.disk.read .destination)
      (fun bytes => s.compared (comparison.snapshot.digest = setting.digest bytes) comparison)
      (s.compareFailed comparison))
  | .publishing none =>
    some (attempt succeeds (s.disk.hardLink .staging .destination)
      (fun disk => { s with disk, phase := .cleaning .ok false })
      (s.failAndClean .io))
  | .publishing (some snapshot) =>
    some (attempt succeeds (s.exchange (.identifying (.displaced snapshot))) id (s.fail .io))
  | .rollingBack none =>
    some (attempt succeeds (s.exchange (.returned (.error .io false))) id (s.fail .io))
  | .rollingBack (some displaced) =>
    some (attempt succeeds (s.exchange (.comparingIdentity (.rolledBack displaced))) id (s.fail .io))
  | .cleaning result reported =>
    some (attempt succeeds (some (s.disk.remove .staging))
      (fun disk => { s with disk, phase := .returned result })
      (s.go (.returned (result.afterCleanup reported))))
  | .returned _ => none

inductive Interference
  | create (bytes : List UInt8)
  | replace (bytes : List UInt8)
  | rewrite (bytes : List UInt8)
deriving DecidableEq, Repr

def interfere : Interference → Option (State Digest)
  | .create bytes =>
    match s.disk.names .destination with
    | some _ => none
    | none => some { s with disk := s.disk.create .destination { bytes, origin := .other } }
  | .replace bytes =>
    match s.disk.names .destination with
    | some identity =>
      some { s with
        disk := s.disk.create .destination { bytes, origin := .other }
        replaced := s.replaced ++ [identity] }
    | none => none
  | .rewrite bytes =>
    match s.disk.names .destination with
    | some identity => some { s with disk := s.disk.rewrite identity { bytes, origin := .other } }
    | none => none

inductive Action
  | restore (succeeds : Bool)
  | interfere (interference : Interference)
deriving DecidableEq, Repr

def step (setting : Setting Digest) (s : State Digest) : Action → Option (State Digest)
  | .restore succeeds => s.restore setting succeeds
  | .interfere interference => s.interfere interference

end State

/-- The destination with the original, or none; the staging directories and the safety backup do
not exist yet. -/
def start (original : Option (List UInt8)) : State Digest where
  disk :=
    { files := fun _ => { bytes := original.getD [], origin := .original }
      next := 1
      names := Function.update (fun _ => none) .destination (original.map fun _ => 0) }
  phase := .checking
  databaseExisted := false
  snapshot := none
  displaced := []
  replaced := []

def run [DecidableEq Digest] (setting : Setting Digest) (original : Option (List UInt8))
    (actions : List State.Action) : Option (State Digest) :=
  Steps.run (State.step setting) (start original) actions

end CodeSystemGraph.StoreRestore
