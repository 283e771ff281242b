import CodeSystemGraph.Eviction
import CodeSystemGraph.Ordered
import CodeSystemGraph.Steps
import CodeSystemGraph.StoreRecords
import Mathlib.Data.Prod.Lex

/-!
The checkpoint cache of the work sidecar. A put stores extractor batches and
then evicts the least recently used rows until the rest fits the quota; a load
serves the rows whose payload fits and removes those it cannot serve. Each call
is one transaction.
-/

namespace CodeSystemGraph.WorkState

open Model Ordered Steps Store

deriving instance DecidableEq for ArtifactFingerprint, StoredExtractorBatch

structure CachedBatchHeader where
  source : ArtifactFingerprint
  extractorVersion : String
  budgetFingerprint : String
  sourceWasLossy : Bool
  outputCount : UInt64
deriving DecidableEq

structure Request where
  fingerprint : ArtifactFingerprint
  budgetFingerprint : String
  extractorVersion : String
deriving DecidableEq

def headerOf (batch : StoredExtractorBatch) : CachedBatchHeader where
  source := batch.source
  extractorVersion := batch.extractorVersion
  budgetFingerprint := batch.budgetFingerprint
  sourceWasLossy := batch.sourceWasLossy
  outputCount := batch.outputCount

def requestOf (batch : StoredExtractorBatch) : Request where
  fingerprint := batch.source
  budgetFingerprint := batch.budgetFingerprint
  extractorVersion := batch.extractorVersion

/-- The byte strings that `serde_json` writes for headers and for the material of keys, and the
hash that keys are made with. -/
structure Libraries (Json Material : Type) where
  headerToVec : CachedBatchHeader → Json
  headerFromSlice : Json → Option CachedBatchHeader
  headerLen : Json → ℕ
  materialToVec : Request → Material
  stableIdBytes : String → Material → String

variable {Json Material : Type} (lib : Libraries Json Material)

def Libraries.batchCacheKey (request : Request) : String :=
  lib.stableIdBytes "work-batch-v1" (lib.materialToVec request)

/-- A row of `batch_cache` without its key. -/
structure CacheRow (Json : Type) where
  headerJson : Json
  payload : Bytes
  sizeBytes : ℕ
  lastAccessUnixMs : ℕ
deriving DecidableEq

abbrev BatchCache (Json : Type) := BTreeMap String (CacheRow Json)

def i64Max : ℕ := 9223372036854775807

def u64Max : ℕ := 18446744073709551615

def sqliteInteger (value : ℕ) (field : String) : Except String ℕ :=
  if value ≤ i64Max then .ok value else .error (field ++ " is not representable by SQLite")

def batchSize (batch : StoredExtractorBatch) : ℕ :=
  min (lib.headerLen (lib.headerToVec (headerOf batch)) + batch.payload.length) u64Max

def cacheRow (batch : StoredExtractorBatch) (now : ℕ) : CacheRow Json where
  headerJson := lib.headerToVec (headerOf batch)
  payload := batch.payload
  sizeBytes := batchSize lib batch
  lastAccessUnixMs := now

def loadOne (budgetFingerprint extractorVersion : String) (maximumPayloadBytes now : ℕ)
    (loaded : BatchCache Json × List StoredExtractorBatch) (fingerprint : ArtifactFingerprint) :
    BatchCache Json × List StoredExtractorBatch :=
  let key := lib.batchCacheKey ⟨fingerprint, budgetFingerprint, extractorVersion⟩
  match loaded.1[key]? with
  | none => loaded
  | some row =>
    match if row.payload.length ≤ maximumPayloadBytes then lib.headerFromSlice row.headerJson
      else none with
    | none => (loaded.1.erase key, loaded.2)
    | some header =>
      if header.source = fingerprint ∧ header.budgetFingerprint = budgetFingerprint ∧
          header.extractorVersion = extractorVersion then
        (loaded.1.insert key { row with lastAccessUnixMs := now }, loaded.2 ++ [{
          source := header.source
          extractorVersion := header.extractorVersion
          budgetFingerprint := header.budgetFingerprint
          sourceWasLossy := header.sourceWasLossy
          outputCount := header.outputCount
          payload := row.payload }])
      else loaded

def loadBatches (cache : BatchCache Json) (fingerprints : List ArtifactFingerprint)
    (budgetFingerprint extractorVersion : String) (maximumPayloadBytes nowUnixMs : ℕ) :
    Except String (BatchCache Json × List StoredExtractorBatch) := do
  let now ← sqliteInteger nowUnixMs "cache timestamp"
  let maximum ← sqliteInteger (min maximumPayloadBytes i64Max) "cache batch maximum"
  pure (fingerprints.foldl (loadOne lib budgetFingerprint extractorVersion maximum now) (cache, []))

def storable (quotaBytes : ℕ) (batch : StoredExtractorBatch) : Bool :=
  !(decide (quotaBytes < batchSize lib batch) || decide (i64Max < batchSize lib batch))

/-- One turn of the loop of `put_batches`, with the number of rows written so far. The table
checks that a size is positive. -/
def putOne (quotaBytes now : ℕ) (stored : BatchCache Json × ℕ) (batch : StoredExtractorBatch) :
    Except String (BatchCache Json × ℕ) :=
  if storable lib quotaBytes batch then do
    let size ← sqliteInteger (batchSize lib batch) "cache entry size"
    ensure (decide (0 < size)) "CHECK constraint failed: size_bytes > 0"
    pure (stored.1.insert (lib.batchCacheKey (requestOf batch)) (cacheRow lib batch now),
      stored.2 + 1)
  else pure stored

def rowSize (entry : String × CacheRow Json) : ℕ := entry.2.sizeBytes

def totalSize (cache : BatchCache Json) : ℕ := Eviction.total rowSize cache.toList

def evictionOrder (entry : String × CacheRow Json) : ℕ ×ₗ String :=
  toLex (entry.2.lastAccessUnixMs, entry.1)

def oldest (cache : BatchCache Json) : List (String × CacheRow Json) :=
  sortBy evictionOrder cache.toList

def evictToQuota (cache : BatchCache Json) (quotaBytes : ℕ) : Except String (BatchCache Json) :=
  if i64Max < totalSize cache then .error "integer overflow"
  else if totalSize cache ≤ quotaBytes then .ok cache
  else .ok ((Eviction.victims rowSize quotaBytes (totalSize cache) (oldest cache)).foldl
    (fun cache entry => cache.erase entry.1) cache)

def putBatches (cache : BatchCache Json) (batches : List StoredExtractorBatch)
    (quotaBytes nowUnixMs : ℕ) : Except String (BatchCache Json × ℕ) :=
  if batches.isEmpty then .ok (cache, 0)
  else do
    let now ← sqliteInteger nowUnixMs "cache timestamp"
    let stored ← batches.foldlM (putOne lib quotaBytes now) (cache, 0)
    let kept ← evictToQuota stored.1 quotaBytes
    pure (kept, stored.2)

inductive Call
  | putBatches (batches : List StoredExtractorBatch) (quotaBytes nowUnixMs : ℕ)
  | loadBatches (fingerprints : List ArtifactFingerprint)
      (budgetFingerprint extractorVersion : String) (maximumPayloadBytes nowUnixMs : ℕ)

inductive Reply
  | written (count : ℕ)
  | loaded (batches : List StoredExtractorBatch)

structure Event (Json : Type) where
  call : Call
  reply : Reply
  cache : BatchCache Json

def perform (cache : BatchCache Json) : Call → Except String (BatchCache Json × Reply)
  | .putBatches batches quotaBytes now =>
    (putBatches lib cache batches quotaBytes now).map fun done => (done.1, .written done.2)
  | .loadBatches fingerprints budgetFingerprint extractorVersion maximum now =>
    (loadBatches lib cache fingerprints budgetFingerprint extractorVersion maximum now).map
      fun done => (done.1, .loaded done.2)

/-- What happened to a cache that was empty at first, the newest last. -/
structure History (Json : Type) where
  events : List (Event Json)
  cache : BatchCache Json

def record (history : History Json) (call : Call) : History Json :=
  match perform lib history.cache call with
  | .ok (cache, reply) => ⟨history.events ++ [⟨call, reply, cache⟩], cache⟩
  | .error _ => history

def run (calls : List Call) : History Json := calls.foldl (record lib) ⟨[], ∅⟩

end CodeSystemGraph.WorkState
