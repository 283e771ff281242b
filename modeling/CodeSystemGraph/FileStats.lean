import CodeSystemGraph.Ordered
import CodeSystemGraph.Steps
import CodeSystemGraph.WorkState
import Mathlib.Data.List.Lex
import Mathlib.Data.Prod.Lex

/-!
Fingerprinting with the stat cache. A scan takes the metadata of each file and
reads the file only when the cache has no entry with the same metadata; between
any two of its steps the files below the checkouts may be edited.
-/

namespace CodeSystemGraph.FileStats

open Ordered

abbrev Inode := Nat × Nat

abbrev FileStatKey := String × List UInt8

/-- Times are in nanoseconds of the Unix epoch; a modification time may lie before it. -/
structure File where
  content : List UInt8
  modified : Int
  changed : Nat
deriving DecidableEq, Repr

structure World where
  clock : Nat
  inodes : Inode → File
  paths : FileStatKey → Option Inode

namespace World

def stamp (granule : Nat) (world : World) : Nat := world.clock / granule * granule

def setFile (world : World) (inode : Inode) (file : File) : World :=
  { world with inodes := Function.update world.inodes inode file }

def contentAt (world : World) (key : FileStatKey) : Option (List UInt8) :=
  (world.paths key).map fun inode => (world.inodes inode).content

end World

/-- What may happen to the files. A new file is a `write` to an unused or reused inode and then a
`replace`; a rename is a `replace`. -/
inductive Edit
  | tick (nanoseconds : Nat)
  | write (inode : Inode) (content : List UInt8)
  | setModified (inode : Inode) (modified : Int)
  | touch (inode : Inode)
  | replace (key : FileStatKey) (inode : Inode)
  | remove (key : FileStatKey)

/-- Every write and every metadata change stamps the change time; a write stamps the modification
time too, which may be set to any earlier value afterwards. -/
def World.edit (granule : Nat) (world : World) : Edit → Option World
  | .tick nanoseconds => some { world with clock := world.clock + nanoseconds }
  | .write inode content =>
    some (world.setFile inode
      { content, modified := world.stamp granule, changed := world.stamp granule })
  | .setModified inode modified =>
    if modified ≤ world.stamp granule then
      some (world.setFile inode
        { world.inodes inode with modified, changed := world.stamp granule })
    else none
  | .touch inode =>
    some (world.setFile inode { world.inodes inode with changed := world.stamp granule })
  | .replace key inode =>
    some { world.setFile inode { world.inodes inode with changed := world.stamp granule } with
      paths := Function.update world.paths key (some inode) }
  | .remove key => some { world with paths := Function.update world.paths key none }

structure Metadata where
  len : Nat
  modified : Int
  dev : Nat
  ino : Nat
  ctime : Nat
  ctimeNsec : Nat
deriving DecidableEq, Repr

def World.metadata (world : World) (key : FileStatKey) : Option Metadata :=
  (world.paths key).map fun inode =>
    let file := world.inodes inode
    { len := file.content.length, modified := file.modified, dev := inode.1, ino := inode.2,
      ctime := file.changed / 1000000000, ctimeNsec := file.changed % 1000000000 }

/-- Nanoseconds of the epoch as a signed 64-bit number; times outside of it count as the epoch. -/
def unixNanos (time : Int) : Int := if 0 ≤ time ∧ time < 9223372036854775808 then time else 0

def fileIdentity (metadata : Metadata) : String :=
  metadata.dev.repr ++ ":" ++ metadata.ino.repr ++ ":" ++ metadata.ctime.repr ++ "."
    ++ metadata.ctimeNsec.repr

structure ObservedStat where
  size : Nat
  modified : Int
  identity : String
deriving DecidableEq, Repr

def observedStat (metadata : Metadata) : Option ObservedStat :=
  some ⟨metadata.len, unixNanos metadata.modified, fileIdentity metadata⟩

structure FileStat where
  sizeBytes : Nat
  modifiedUnixNs : Int
  fileIdentity : String
  contentHash : String
deriving DecidableEq, Repr

abbrev StatCache := List (FileStatKey × FileStat)

structure FileStatDelta where
  upserts : List (FileStatKey × FileStat) := []
  removals : List FileStatKey := []
deriving DecidableEq, Repr

def upsertRow (rows : StatCache) (row : FileStatKey × FileStat) : Option StatCache :=
  (WorkState.sqliteInteger row.2.sizeBytes "file size").toOption.map fun _ => row :: rows.filter fun other => other.1 != row.1

def applyFileStatDelta (rows : StatCache) (delta : FileStatDelta) : Option StatCache :=
  delta.upserts.foldlM upsertRow
    (delta.removals.foldl (fun rows key => rows.filter fun row => row.1 != key) rows)

structure ArtifactFingerprint where
  repoId : String
  checkoutId : String
  path : List UInt8
  extractor : String
  contentHash : String
  sizeBytes : Nat
deriving DecidableEq, Repr

structure FileRequest where
  repoId : String
  checkoutId : String
  extractors : List String
deriving DecidableEq, Repr

structure FileOutcome where
  fingerprints : List ArtifactFingerprint
  stat : Option (FileStatKey × FileStat)
  statHit : Bool
deriving DecidableEq, Repr

/-- A stat entry is trusted only when the file was last modified at least this long before the
entry was recorded. -/
def racyWindowNs : Int := 2000000000

def saturatingSub (a b : Int) : Int := max (-9223372036854775808) (min 9223372036854775807 (a - b))

def recordedBefore (clock : Nat) : Int := saturatingSub (unixNanos clock) racyWindowNs

def cachedHash (cache : StatCache) (key : FileStatKey) (observed : Option ObservedStat) :
    Option String :=
  (cache.lookup key).bind fun stat =>
    (observed.filter fun seen =>
      stat.sizeBytes == seen.size && stat.modifiedUnixNs == seen.modified
        && stat.fileIdentity == seen.identity).map fun _ => stat.contentHash

def fileOutcome (request : FileRequest) (path : List UInt8) (len : Nat)
    (observed : Option ObservedStat) (recordedBeforeNs : Int) (statHit : Bool)
    (contentHash : String) : FileOutcome where
  fingerprints := request.extractors.map fun extractor =>
    { repoId := request.repoId, checkoutId := request.checkoutId, path, extractor, contentHash,
      sizeBytes := len }
  stat := (observed.filter fun seen => seen.modified < recordedBeforeNs).map fun seen =>
    ((request.checkoutId, path), ⟨seen.size, seen.modified, seen.identity, contentHash⟩)
  statHit

/-- How far `fingerprint_file` is with a request. A request is `statted` while the file is still
to be read. -/
inductive Progress
  | waiting
  | statted (path : List UInt8) (len : Nat) (observed : Option ObservedStat)
  | done (path : List UInt8) (outcome : FileOutcome)
deriving DecidableEq, Repr

structure Job where
  request : FileRequest
  progress : Progress
deriving DecidableEq, Repr

structure Scan where
  cache : StatCache
  recordedBeforeNs : Int
  jobs : List Job
  moments : List World

def dedupLast {α : Type} (same : α → α → Bool) : List α → List α
  | [] => []
  | [a] => [a]
  | a :: b :: rest =>
    if same b a then dedupLast same (b :: rest) else a :: dedupLast same (b :: rest)

def artifactKey (fingerprint : ArtifactFingerprint) :
    String ×ₗ String ×ₗ List Nat ×ₗ String :=
  toLex (fingerprint.repoId, toLex (fingerprint.checkoutId,
    toLex (fingerprint.path.map UInt8.toNat, fingerprint.extractor)))

def sameArtifact (later earlier : ArtifactFingerprint) : Bool :=
  later.checkoutId == earlier.checkoutId && later.path == earlier.path
    && later.extractor == earlier.extractor

structure DiscoveredArtifacts where
  fingerprints : List ArtifactFingerprint
  statDelta : FileStatDelta
  statHits : Nat
deriving DecidableEq, Repr

def discovered (cache : StatCache) (requests : List FileRequest) (outcomes : List FileOutcome) :
    DiscoveredArtifacts :=
  let stats := outcomes.filterMap (·.stat)
  let seen := stats.map Prod.fst
  let scannedCheckouts := requests.map (·.checkoutId)
  { fingerprints := dedupLast sameArtifact (sortBy artifactKey (outcomes.flatMap (·.fingerprints)))
    statDelta :=
      { upserts := stats.filter fun entry => cache.lookup entry.1 != some entry.2
        removals := sortBy (fun key => (toLex (key.1, key.2.map UInt8.toNat) : String ×ₗ List Nat))
          ((cache.map Prod.fst).filter fun key =>
            scannedCheckouts.contains key.1 && !seen.contains key) }
    statHits := outcomes.countP (·.statHit) }

/-- What a completed scan returned, with the files as they were at every moment of it. -/
structure Returned where
  fingerprints : List ArtifactFingerprint
  moments : List World

structure State where
  world : World
  rows : StatCache
  scan : Option Scan
  returned : List Returned

inductive Action
  | edit (edit : Edit)
  | begin (force : Bool) (requests : List FileRequest)
  | stat (index : Nat) (path : List UInt8)
  | read (index : Nat)
  | finish
  | fail

/-- What is fixed while scans run: the granule of the file system's timestamps, the input budget
of one file, and the hash of contents. -/
structure Setting where
  granule : Nat
  maxInputBytes : Nat
  contentHash : List UInt8 → String

variable (setting : Setting)

def Job.outcome (job : Job) : Option FileOutcome :=
  match job.progress with
  | .done _ outcome => some outcome
  | _ => none

/-- Canonicalization gives the path; its metadata decides between the cache and a read. A file
that is missing or over its budget fails the scan. -/
def Scan.stat (world : World) (scan : Scan) (index : Nat) (path : List UInt8) : Option Scan :=
  match scan.jobs[index]? with
  | some { request, progress := .waiting } =>
    (world.metadata (request.checkoutId, path)).bind fun metadata =>
      if metadata.len ≤ setting.maxInputBytes then
        let observed := observedStat metadata
        let progress := match cachedHash scan.cache (request.checkoutId, path) observed with
          | some hash => .done path
              (fileOutcome request path metadata.len observed scan.recordedBeforeNs true hash)
          | none => .statted path metadata.len observed
        some { scan with jobs := scan.jobs.set index { request, progress } }
      else none
  | _ => none

def Scan.read (world : World) (scan : Scan) (index : Nat) : Option Scan :=
  match scan.jobs[index]? with
  | some { request, progress := .statted path len observed } =>
    (world.contentAt (request.checkoutId, path)).bind fun content =>
      if content.length ≤ setting.maxInputBytes then
        let outcome := fileOutcome request path len observed scan.recordedBeforeNs false
          (setting.contentHash content)
        some { scan with jobs := scan.jobs.set index { request, progress := .done path outcome } }
      else none
  | _ => none

namespace State

def edit (s : State) (edit : Edit) : Option State :=
  (s.world.edit setting.granule edit).map fun world =>
    { s with
      world
      scan := s.scan.map fun scan => { scan with moments := scan.moments ++ [world] } }

def begin (s : State) (force : Bool) (requests : List FileRequest) : Option State :=
  match s.scan with
  | some _ => none
  | none =>
    some { s with
      scan := some
        { cache := if force then [] else s.rows
          recordedBeforeNs := recordedBefore s.world.clock
          jobs := requests.map fun request => { request, progress := .waiting }
          moments := [s.world] } }

def finish (s : State) : Option State :=
  s.scan.bind fun scan =>
    (scan.jobs.mapM Job.outcome).map fun outcomes =>
      let result := discovered scan.cache (scan.jobs.map (·.request)) outcomes
      match applyFileStatDelta s.rows result.statDelta with
      | none => { s with scan := none }
      | some rows =>
        { s with
          rows
          scan := none
          returned := s.returned ++ [⟨result.fingerprints, scan.moments⟩] }

def step (s : State) : Action → Option State
  | .edit edit => s.edit setting edit
  | .begin force requests => s.begin force requests
  | .stat index path => s.scan.bind fun scan =>
      (scan.stat setting s.world index path).map fun scan => { s with scan := some scan }
  | .read index => s.scan.bind fun scan =>
      (scan.read setting s.world index).map fun scan => { s with scan := some scan }
  | .finish => s.finish
  | .fail => s.scan.map fun _ => { s with scan := none }

end State

def start (world : World) : State := { world, rows := [], scan := none, returned := [] }

def run (world : World) (actions : List Action) : Option State :=
  Steps.run (State.step setting) (start world) actions

end CodeSystemGraph.FileStats
