import CodeSystemGraph.FileStatSound
import CodeSystemGraph.WorkState

/-!
The checkpoint cache against its history. A row is the batch last put under its
request, as long as no call since has taken it out, with the time at which it
was last put or served. Puts keep the sum of sizes at the quota and evict from
the rows used longest ago.
-/

namespace CodeSystemGraph.WorkState

open Model Ordered Steps Store

variable {Json Material : Type} {lib : Libraries Json Material}

section History

variable (lib)

/-- The batch that the call stores last under a request. -/
def Call.stored (call : Call) (request : Request) : Option StoredExtractorBatch :=
  match call with
  | .putBatches batches quotaBytes _ =>
    ((batches.filter (storable lib quotaBytes)).filter fun batch =>
      requestOf batch = request).getLast?
  | .loadBatches _ _ _ _ _ => none

/-- The time at which the call stored or served a request. -/
def Event.used (event : Event Json) (request : Request) : Option ℕ :=
  match event.call, event.reply with
  | .putBatches _ _ now, _ => (event.call.stored lib request).map fun _ => now
  | .loadBatches _ _ _ _ now, .loaded batches =>
    if request ∈ batches.map requestOf then some now else none
  | .loadBatches _ _ _ _ _, .written _ => none

/-- The batch was put last under its request, and no call since has taken it out. -/
def Kept (events : List (Event Json)) (batch : StoredExtractorBatch) : Prop :=
  Since (fun event => event.call.stored lib (requestOf batch) = some batch ∧
      lib.batchCacheKey (requestOf batch) ∈ event.cache)
    (fun event => event.call.stored lib (requestOf batch) = none ∧
      lib.batchCacheKey (requestOf batch) ∈ event.cache) events

def LastUsed (events : List (Event Json)) (request : Request) (time : ℕ) : Prop :=
  Since (fun event => event.used lib request = some time)
    (fun event => event.used lib request = none) events

def Explained (history : History Json) : Prop :=
  ∀ key row, history.cache[key]? = some row ↔ ∃ batch time,
    Kept lib history.events batch ∧ LastUsed lib history.events (requestOf batch) time ∧
      key = lib.batchCacheKey (requestOf batch) ∧ row = cacheRow lib batch time

/-- The rows just before a put evicts: what it stored, and what it left from before. -/
def Filled (history : History Json) (call : Call) (now : ℕ) (filled : BatchCache Json) : Prop :=
  ∀ key row, filled[key]? = some row ↔ ∃ batch time,
    key = lib.batchCacheKey (requestOf batch) ∧ row = cacheRow lib batch time ∧
      (call.stored lib (requestOf batch) = some batch ∧ time = now ∨
        call.stored lib (requestOf batch) = none ∧ Kept lib history.events batch ∧
          LastUsed lib history.events (requestOf batch) time)

def decoded (row : CacheRow Json) : Option StoredExtractorBatch :=
  (lib.headerFromSlice row.headerJson).map fun header =>
    { source := header.source
      extractorVersion := header.extractorVersion
      budgetFingerprint := header.budgetFingerprint
      sourceWasLossy := header.sourceWasLossy
      outputCount := header.outputCount
      payload := row.payload }

def present (cache : BatchCache Json) (batch : StoredExtractorBatch) : Bool :=
  cache[lib.batchCacheKey (requestOf batch)]?.bind (decoded lib) = some batch

end History

theorem used_put (batches : List StoredExtractorBatch) (quotaBytes now written : ℕ)
    (cache : BatchCache Json) (request : Request) :
    Event.used lib ⟨.putBatches batches quotaBytes now, .written written, cache⟩ request =
      ((Call.putBatches batches quotaBytes now).stored lib request).map fun _ => now := rfl

theorem used_load (fingerprints : List ArtifactFingerprint)
    (budgetFingerprint extractorVersion : String) (maximum now : ℕ)
    (loaded : List StoredExtractorBatch) (cache : BatchCache Json) (request : Request) :
    Event.used lib ⟨.loadBatches fingerprints budgetFingerprint extractorVersion maximum now,
      .loaded loaded, cache⟩ request =
      if request ∈ loaded.map requestOf then some now else none := rfl

theorem mem_of_stored {call : Call} {request : Request} {batch : StoredExtractorBatch}
    (stored : call.stored lib request = some batch) :
    requestOf batch = request ∧ ∃ quotaBytes, storable lib quotaBytes batch = true := by
  cases call with
  | putBatches batches quotaBytes now =>
    have mem := List.mem_of_getLast? stored
    simp only [List.mem_filter, decide_eq_true_eq] at mem
    exact ⟨mem.2, quotaBytes, mem.1.2⟩
  | loadBatches _ _ _ _ _ => cases stored

theorem storable_iff {quotaBytes : ℕ} {batch : StoredExtractorBatch} :
    storable lib quotaBytes batch = true ↔
      batchSize lib batch ≤ quotaBytes ∧ batchSize lib batch ≤ i64Max := by
  simp [storable]

theorem sqliteInteger_eq_ok {value result : ℕ} {field : String} :
    sqliteInteger value field = .ok result ↔ value ≤ i64Max ∧ value = result := by
  unfold sqliteInteger
  split <;> simp_all

section Eviction

theorem nodup_toList (cache : BatchCache Json) : cache.toList.Nodup := by
  have distinct := Std.ExtTreeMap.distinct_keys_toList (t := cache)
  exact distinct.imp fun different same => different (by rw [same]; exact Std.ReflCmp.compare_self)

theorem getElem?_erase_of_ne {cache : BatchCache Json} {key other : String} (ne : other ≠ key) :
    (cache.erase key)[other]? = cache[other]? := by
  rw [Std.ExtTreeMap.getElem?_erase,
    if_neg fun eq => ne (Std.LawfulEqCmp.compare_eq_iff_eq.1 eq).symm]

theorem getElem?_insert_of_ne {cache : BatchCache Json} {key other : String}
    {row : CacheRow Json} (ne : other ≠ key) :
    (cache.insert key row)[other]? = cache[other]? := by
  rw [Std.ExtTreeMap.getElem?_insert,
    if_neg fun eq => ne (Std.LawfulEqCmp.compare_eq_iff_eq.1 eq).symm]

theorem getElem?_foldl_erase (entries : List (String × CacheRow Json)) (cache : BatchCache Json)
    (key : String) :
    (entries.foldl (fun cache entry => cache.erase entry.1) cache)[key]? =
      if key ∈ entries.map Prod.fst then none else cache[key]? := by
  induction entries generalizing cache with
  | nil => rfl
  | cons entry entries ih =>
    rw [List.foldl_cons, ih]
    by_cases same : key = entry.1
    · simp [same]
    · have named : key ∈ (entry :: entries).map Prod.fst ↔ key ∈ entries.map Prod.fst := by
        simp [same]
      rw [getElem?_erase_of_ne same]
      exact (if_congr named rfl rfl).symm

theorem rowSize_le_totalSize {cache : BatchCache Json} {key : String} {row : CacheRow Json}
    (found : cache[key]? = some row) : row.sizeBytes ≤ totalSize cache :=
  Eviction.weight_le_total rowSize (Std.ExtTreeMap.mem_toList_iff_getElem?_eq_some.2 found)

structure Evicts (cache : BatchCache Json) (quotaBytes : ℕ) (kept : BatchCache Json) : Prop where
  fits : totalSize kept ≤ quotaBytes
  subset : ∀ (key : String) (row : CacheRow Json), kept[key]? = some row → cache[key]? = some row
  idle : totalSize cache ≤ quotaBytes → kept = cache
  oldestFirst : ∀ (key : String) (row : CacheRow Json) (other : String) (row' : CacheRow Json), cache[key]? = some row → key ∉ kept →
    cache[other]? = some row' → row'.lastAccessUnixMs < row.lastAccessUnixMs → other ∉ kept

theorem mem_oldest {cache : BatchCache Json} {entry : String × CacheRow Json} :
    entry ∈ oldest cache ↔ cache[entry.1]? = some entry.2 := by
  rw [oldest, (sortBy_perm _ _).mem_iff, Std.ExtTreeMap.mem_toList_iff_getElem?_eq_some]

theorem not_mem_evicted {cache kept : BatchCache Json} {victims : List (String × CacheRow Json)}
    (listed : ∀ entry ∈ victims, entry ∈ oldest cache)
    (left : ∀ key : String, kept[key]? = if key ∈ victims.map Prod.fst then none else cache[key]?)
    {key : String} {row : CacheRow Json} (found : cache[key]? = some row) :
    key ∉ kept ↔ (key, row) ∈ victims := by
  rw [Std.ExtTreeMap.mem_iff_isSome_getElem?, left]
  split
  · rename_i named
    obtain ⟨victim, mem, same⟩ := List.mem_map.1 named
    have row' := mem_oldest.1 (listed victim mem)
    rw [same, found, Option.some.injEq] at row'
    rw [← same, row']
    simp [mem]
  · rename_i unnamed
    simp only [found, Option.isSome_some, not_true_eq_false, false_iff]
    intro mem
    exact unnamed (List.mem_map_of_mem mem)

theorem totalSize_evicted {cache kept : BatchCache Json}
    {victims rest : List (String × CacheRow Json)} (split : oldest cache = victims ++ rest)
    (left : ∀ key : String,
      kept[key]? = if key ∈ victims.map Prod.fst then none else cache[key]?) :
    totalSize kept + Eviction.total rowSize victims = totalSize cache := by
  have perm : (oldest cache).Perm cache.toList := sortBy_perm _ _
  have nodup : (oldest cache).Nodup := perm.nodup_iff.2 (nodup_toList cache)
  have listed : ∀ entry ∈ victims, entry ∈ oldest cache := by
    intro entry mem
    rw [split]
    exact List.mem_append_left _ mem
  have parts : (kept.toList ++ victims).Perm (oldest cache) := by
    apply (List.perm_ext_iff_of_nodup ?_ nodup).2
    · intro entry
      rw [List.mem_append, Std.ExtTreeMap.mem_toList_iff_getElem?_eq_some]
      by_cases victim : entry ∈ victims
      · simp [victim, listed entry victim]
      · rw [mem_oldest]
        constructor
        · intro held
          have row := held.resolve_right victim
          rw [left] at row
          split at row
          · cases row
          · exact row
        · intro row
          have stays := mt (not_mem_evicted listed left row).1 victim
          rw [not_not, Std.ExtTreeMap.mem_iff_isSome_getElem?, left] at stays
          rw [left]
          split at stays
          · cases stays
          · rename_i unnamed
            rw [if_neg unnamed]
            exact Or.inl row
    · apply List.Nodup.append (nodup_toList kept)
        (List.Nodup.of_append_left (show (victims ++ rest).Nodup from split ▸ nodup))
      intro entry here victim
      rw [Std.ExtTreeMap.mem_toList_iff_getElem?_eq_some, left,
        if_pos (List.mem_map_of_mem victim)] at here
      cases here
  rw [totalSize, ← Eviction.total_append, Eviction.total_perm rowSize (parts.trans perm), totalSize]

theorem evictToQuota_evicts {cache kept : BatchCache Json} {quotaBytes : ℕ}
    (done : evictToQuota cache quotaBytes = .ok kept) : Evicts cache quotaBytes kept := by
  unfold evictToQuota at done
  split at done
  · cases done
  split at done
  · rename_i fits
    cases done
    exact ⟨fits, fun _ _ found => found, fun _ => rfl, fun key row _ _ found missing => by
      rw [Std.ExtTreeMap.mem_iff_isSome_getElem?, found] at missing
      exact absurd rfl missing⟩
  · rename_i overflow
    have covered : totalSize cache ≤ Eviction.total rowSize (oldest cache) := by
      rw [totalSize, Eviction.total_perm rowSize (sortBy_perm evictionOrder cache.toList).symm]
      exact le_rfl
    obtain ⟨rest, split, bound⟩ :=
      Eviction.victims_split quotaBytes (totalSize cache) (oldest cache) covered
    cases done
    have left := getElem?_foldl_erase
      (Eviction.victims rowSize quotaBytes (totalSize cache) (oldest cache)) cache
    have sizes := totalSize_evicted split left
    refine ⟨by omega, ?_, fun fits => absurd fits overflow, ?_⟩
    · intro key row found
      rw [left] at found
      split at found
      · cases found
      · exact found
    · intro key row other row' found evicted found' earlier
      have listed : ∀ entry ∈
          Eviction.victims rowSize quotaBytes (totalSize cache) (oldest cache), entry ∈ oldest cache := by
        intro entry mem
        rw [split]
        exact List.mem_append_left _ mem
      have victim := (not_mem_evicted listed left found).1 evicted
      have order : evictionOrder (other, row') < evictionOrder (key, row) :=
        Prod.Lex.toLex_lt_toLex.2 (Or.inl earlier)
      apply (not_mem_evicted listed left found').2
      exact Eviction.victims_first quotaBytes (sortBy_sorted evictionOrder cache.toList) covered
        victim (mem_oldest.2 found') order

end Eviction

section Put

theorem foldlM_putOne {quotaBytes now : ℕ} {batches : List StoredExtractorBatch}
    {stored stored' : BatchCache Json × ℕ}
    (done : batches.foldlM (putOne lib quotaBytes now) stored = .ok stored') :
    stored'.1 = (batches.filter (storable lib quotaBytes)).foldl
        (fun cache batch => cache.insert (lib.batchCacheKey (requestOf batch))
          (cacheRow lib batch now)) stored.1 ∧
      stored'.2 = stored.2 + (batches.filter (storable lib quotaBytes)).length := by
  induction batches generalizing stored with
  | nil =>
    simp only [List.foldlM_nil, pure_eq_ok] at done
    rw [← done]
    exact ⟨rfl, rfl⟩
  | cons batch batches ih =>
    rw [List.foldlM_cons, bind_eq_ok] at done
    obtain ⟨next, one, rest⟩ := done
    unfold putOne at one
    split at one
    · rename_i stays
      simp only [bind_eq_ok, pure_eq_ok] at one
      obtain ⟨_, _, _, _, rfl⟩ := one
      rw [List.filter_cons_of_pos stays, List.foldl_cons, List.length_cons]
      have later := ih rest
      exact ⟨later.1, later.2.trans (by omega)⟩
    · rename_i skipped
      rw [pure_eq_ok] at one
      subst one
      rw [List.filter_cons_of_neg skipped]
      exact ih rest

theorem putBatches_eq_ok {cache kept : BatchCache Json} {batches : List StoredExtractorBatch}
    {quotaBytes now written : ℕ} (given : batches ≠ [])
    (done : putBatches lib cache batches quotaBytes now = .ok (kept, written)) :
    ∃ filled : BatchCache Json, Evicts filled quotaBytes kept ∧
      written = (batches.filter (storable lib quotaBytes)).length ∧
      ∀ key : String, filled[key]? =
        (((batches.filter (storable lib quotaBytes)).filter fun batch =>
          lib.batchCacheKey (requestOf batch) = key).getLast?.map
            fun batch => cacheRow lib batch now).or cache[key]? := by
  unfold putBatches at done
  rw [if_neg (by simpa using given)] at done
  simp only [bind_eq_ok, pure_eq_ok, Prod.mk.injEq] at done
  obtain ⟨now', time, stored, loop, left, evicted, rfl, rfl⟩ := done
  obtain ⟨_, rfl⟩ := sqliteInteger_eq_ok.1 time
  obtain ⟨table, count⟩ := foldlM_putOne loop
  refine ⟨stored.1, evictToQuota_evicts evicted, by simpa using count, ?_⟩
  intro key
  rw [table]
  exact getElem?_foldl_insert (fun batch => lib.batchCacheKey (requestOf batch))
    (fun batch => cacheRow lib batch now) _ cache key

theorem getElem?_filled (injective : Function.Injective lib.batchCacheKey)
    {cache filled : BatchCache Json} {batches : List StoredExtractorBatch} {quotaBytes now : ℕ}
    (table : ∀ key : String, filled[key]? =
      (((batches.filter (storable lib quotaBytes)).filter fun batch =>
        lib.batchCacheKey (requestOf batch) = key).getLast?.map
          fun batch => cacheRow lib batch now).or cache[key]?) (request : Request) :
    filled[lib.batchCacheKey request]? =
      (((Call.putBatches batches quotaBytes now).stored lib request).map
        fun batch => cacheRow lib batch now).or cache[lib.batchCacheKey request]? := by
  rw [table]
  simp only [injective.eq_iff]
  rfl

end Put

section Load

variable (lib) in
/-- Every row holds a batch under the key of its request. -/
def RowsOfBatches (cache : BatchCache Json) : Prop :=
  ∀ (key : String) (row : CacheRow Json), cache[key]? = some row →
    ∃ batch time, key = lib.batchCacheKey (requestOf batch) ∧ row = cacheRow lib batch time

variable (lib) in
def served (cache : BatchCache Json) (maximum : ℕ) (key : String) : Option StoredExtractorBatch :=
  (cache[key]?.bind (decoded lib)).filter fun batch => batch.payload.length ≤ maximum

variable (roundTrip : ∀ header, lib.headerFromSlice (lib.headerToVec header) = some header)
  (injective : Function.Injective lib.batchCacheKey)

include roundTrip in
theorem decoded_cacheRow (batch : StoredExtractorBatch) (time : ℕ) :
    decoded lib (cacheRow lib batch time) = some batch := by
  unfold decoded cacheRow
  rw [roundTrip]
  rfl

include roundTrip in
theorem loadOne_of_row {budgetFingerprint extractorVersion : String} {maximum now time : ℕ}
    {cache : BatchCache Json} {batches : List StoredExtractorBatch}
    {fingerprint : ArtifactFingerprint} {batch : StoredExtractorBatch}
    (request : requestOf batch = ⟨fingerprint, budgetFingerprint, extractorVersion⟩)
    (row : cache[lib.batchCacheKey (requestOf batch)]? = some (cacheRow lib batch time)) :
    loadOne lib budgetFingerprint extractorVersion maximum now (cache, batches) fingerprint =
      if batch.payload.length ≤ maximum then
        (cache.insert (lib.batchCacheKey (requestOf batch)) (cacheRow lib batch now),
          batches ++ [batch])
      else (cache.erase (lib.batchCacheKey (requestOf batch)), batches) := by
  unfold loadOne
  rw [← request]
  simp only [row]
  have payload : (cacheRow lib batch time).payload = batch.payload := rfl
  have header : lib.headerFromSlice (cacheRow lib batch time).headerJson =
      some (headerOf batch) := roundTrip (headerOf batch)
  rw [payload, header]
  obtain ⟨rfl, rfl, rfl⟩ : batch.source = fingerprint ∧
      batch.budgetFingerprint = budgetFingerprint ∧ batch.extractorVersion = extractorVersion := by
    simpa [requestOf] using request
  by_cases fits : batch.payload.length ≤ maximum
  · rw [if_pos fits, if_pos fits]
    exact if_pos ⟨rfl, rfl, rfl⟩
  · rw [if_neg fits, if_neg fits]

theorem loadOne_of_none {budgetFingerprint extractorVersion : String} {maximum now : ℕ}
    {loaded : BatchCache Json × List StoredExtractorBatch} {fingerprint : ArtifactFingerprint}
    (missing : loaded.1[lib.batchCacheKey
      ⟨fingerprint, budgetFingerprint, extractorVersion⟩]? = none) :
    loadOne lib budgetFingerprint extractorVersion maximum now loaded fingerprint = loaded := by
  unfold loadOne
  simp only [missing]

include roundTrip in
theorem served_of_row {cache : BatchCache Json} {maximum time : ℕ} {key : String}
    {batch : StoredExtractorBatch} (row : cache[key]? = some (cacheRow lib batch time)) :
    served lib cache maximum key =
      if batch.payload.length ≤ maximum then some batch else none := by
  rw [served, row, Option.bind_some, decoded_cacheRow roundTrip]
  simp [Option.filter]

include roundTrip injective in
theorem loadOne_served {cache : BatchCache Json} (rows : RowsOfBatches lib cache)
    {budgetFingerprint extractorVersion : String} {maximum now : ℕ}
    {fingerprint : ArtifactFingerprint} {key : String}
    (named : key = lib.batchCacheKey ⟨fingerprint, budgetFingerprint, extractorVersion⟩)
    {loaded : BatchCache Json × List StoredExtractorBatch} {turned : Prop} [Decidable turned]
    (known : loaded.1[key]? = if turned then
      (served lib cache maximum key).map fun batch => cacheRow lib batch now else cache[key]?) :
    (loadOne lib budgetFingerprint extractorVersion maximum now loaded fingerprint).2 =
        loaded.2 ++ (served lib cache maximum key).toList ∧
      ∀ other : String,
        (loadOne lib budgetFingerprint extractorVersion maximum now loaded fingerprint).1[other]? =
          if other = key then (served lib cache maximum key).map fun batch => cacheRow lib batch now
          else loaded.1[other]? := by
  obtain ⟨table, batches⟩ := loaded
  have unchanged (missing : table[key]? = none) (unserved : served lib cache maximum key = none) :
      (loadOne lib budgetFingerprint extractorVersion maximum now (table, batches) fingerprint).2 =
          batches ++ (served lib cache maximum key).toList ∧
        ∀ other : String, (loadOne lib budgetFingerprint extractorVersion maximum now
          (table, batches) fingerprint).1[other]? = if other = key then
            (served lib cache maximum key).map fun batch => cacheRow lib batch now
          else table[other]? := by
    rw [loadOne_of_none (named ▸ missing), unserved]
    refine ⟨(List.append_nil batches).symm, ?_⟩
    intro other
    split
    · rename_i same
      rw [same, missing]
      rfl
    · rfl
  cases found : cache[key]? with
  | none =>
    have unserved : served lib cache maximum key = none := by
      rw [served, found]
      rfl
    apply unchanged _ unserved
    rw [known, unserved, found]
    simp
  | some row =>
    obtain ⟨batch, time, same, rfl⟩ := rows key row found
    have request : requestOf batch = ⟨fingerprint, budgetFingerprint, extractorVersion⟩ :=
      injective (same.symm.trans named)
    have value : served lib cache maximum key = _ := served_of_row roundTrip found
    rw [found] at known
    by_cases fits : batch.payload.length ≤ maximum
    · rw [if_pos fits] at value
      have row : ∃ time', table[key]? = some (cacheRow lib batch time') := by
        rw [known, value]
        split
        · exact ⟨now, rfl⟩
        · exact ⟨time, rfl⟩
      obtain ⟨time', row⟩ := row
      rw [loadOne_of_row roundTrip request (same ▸ row), if_pos fits, value, ← same]
      refine ⟨rfl, ?_⟩
      intro other
      by_cases here : other = key
      · rw [here, if_pos rfl, Std.ExtTreeMap.getElem?_insert_self]
        rfl
      · rw [if_neg here, getElem?_insert_of_ne here]
    · rw [if_neg fits] at value
      by_cases turn : turned
      · rw [if_pos turn, value] at known
        exact unchanged known value
      · rw [if_neg turn] at known
        rw [loadOne_of_row roundTrip request (same ▸ known), if_neg fits, value, ← same]
        refine ⟨(List.append_nil batches).symm, ?_⟩
        intro other
        by_cases here : other = key
        · rw [here, if_pos rfl, Std.ExtTreeMap.getElem?_erase_self]
          rfl
        · rw [if_neg here, getElem?_erase_of_ne here]

include roundTrip injective in
theorem foldl_loadOne {cache : BatchCache Json} (rows : RowsOfBatches lib cache)
    (budgetFingerprint extractorVersion : String) (maximum now : ℕ)
    (fingerprints : List ArtifactFingerprint) :
    (fingerprints.foldl (loadOne lib budgetFingerprint extractorVersion maximum now)
        (cache, [])).2 =
      fingerprints.filterMap (fun fingerprint => served lib cache maximum
        (lib.batchCacheKey ⟨fingerprint, budgetFingerprint, extractorVersion⟩)) ∧
    ∀ key : String, (fingerprints.foldl
        (loadOne lib budgetFingerprint extractorVersion maximum now) (cache, [])).1[key]? =
      if key ∈ fingerprints.map fun fingerprint =>
          lib.batchCacheKey ⟨fingerprint, budgetFingerprint, extractorVersion⟩ then
        (served lib cache maximum key).map fun batch => cacheRow lib batch now
      else cache[key]? := by
  induction fingerprints using List.reverseRecOn with
  | nil => exact ⟨rfl, fun _ => rfl⟩
  | append_singleton fingerprints fingerprint ih =>
    obtain ⟨replies, table⟩ := ih
    obtain ⟨reply, changed⟩ := loadOne_served roundTrip injective rows rfl
      (table (lib.batchCacheKey ⟨fingerprint, budgetFingerprint, extractorVersion⟩))
    rw [List.foldl_concat]
    constructor
    · rw [reply, replies, List.filterMap_append, List.filterMap_cons, List.filterMap_nil]
      cases served lib cache maximum
        (lib.batchCacheKey ⟨fingerprint, budgetFingerprint, extractorVersion⟩) <;> rfl
    · intro key
      rw [changed, table, List.map_append]
      by_cases last : key =
          lib.batchCacheKey ⟨fingerprint, budgetFingerprint, extractorVersion⟩
      · rw [if_pos last, if_pos (by simp [last]), last]
      · rw [if_neg last]
        exact if_congr (by simp [last]) rfl rfl

end Load

section Runs

variable (roundTrip : ∀ header, lib.headerFromSlice (lib.headerToVec header) = some header)
  (injective : Function.Injective lib.batchCacheKey)

variable (lib) in
def Follows (cache : BatchCache Json) (event : Event Json) : Prop :=
  ∀ (key : String) (row : CacheRow Json), event.cache[key]? = some row → ∃ request,
    key = lib.batchCacheKey request ∧
      ((∃ batch time, event.call.stored lib request = some batch ∧
          event.used lib request = some time ∧ row = cacheRow lib batch time) ∨
        (event.call.stored lib request = none ∧ ∃ old : CacheRow Json, cache[key]? = some old ∧
          row = { old with
            lastAccessUnixMs := (event.used lib request).getD old.lastAccessUnixMs }))

theorem kept_concat {events : List (Event Json)} {event : Event Json}
    {batch : StoredExtractorBatch} :
    Kept lib (events ++ [event]) batch ↔
      lib.batchCacheKey (requestOf batch) ∈ event.cache ∧
        (event.call.stored lib (requestOf batch) = some batch ∨
          event.call.stored lib (requestOf batch) = none ∧ Kept lib events batch) := by
  unfold Kept
  rw [since_concat, and_right_comm, ← or_and_right, and_comm]

theorem lastUsed_concat {events : List (Event Json)} {event : Event Json} {request : Request}
    {time : ℕ} :
    LastUsed lib (events ++ [event]) request time ↔ event.used lib request = some time ∨
      event.used lib request = none ∧ LastUsed lib events request time := since_concat

include injective in
theorem explained_step {history : History Json} {event : Event Json}
    (explained : Explained lib history) (follows : Follows lib history.cache event) :
    Explained lib ⟨history.events ++ [event], event.cache⟩ := by
  intro key row
  constructor
  · intro found
    have member : key ∈ event.cache := Std.ExtTreeMap.mem_iff_isSome_getElem?.2 (by rw [found]; rfl)
    obtain ⟨request, rfl, now | before⟩ := follows key row found
    · obtain ⟨batch, time, stored, used, rfl⟩ := now
      obtain ⟨rfl, _⟩ := mem_of_stored stored
      exact ⟨batch, time, kept_concat.2 ⟨member, Or.inl stored⟩,
        lastUsed_concat.2 (Or.inl used), rfl, rfl⟩
    · obtain ⟨unstored, old, row, rfl⟩ := before
      obtain ⟨batch, time, kept, last, same, rfl⟩ := (explained _ _).1 row
      have request := injective same
      subst request
      have kept' := kept_concat.2 ⟨member, Or.inr ⟨unstored, kept⟩⟩
      cases used : event.used lib (requestOf batch) with
      | none =>
        exact ⟨batch, time, kept', lastUsed_concat.2 (Or.inr ⟨used, last⟩), rfl, rfl⟩
      | some now => exact ⟨batch, now, kept', lastUsed_concat.2 (Or.inl used), rfl, rfl⟩
  · intro said
    obtain ⟨batch, time, kept, last, rfl, rfl⟩ := said
    obtain ⟨member, cases⟩ := kept_concat.1 kept
    obtain ⟨row, found⟩ := Option.isSome_iff_exists.1
      (Std.ExtTreeMap.mem_iff_isSome_getElem?.1 member)
    obtain ⟨request, same, now | before⟩ := follows _ row found
    · obtain ⟨batch', now, stored, used, rfl⟩ := now
      have request := injective same
      subst request
      have batches : batch' = batch := by
        rcases cases with putNow | untouched
        · exact Option.some.inj (stored.symm.trans putNow)
        · exact absurd (stored.symm.trans untouched.1) (Option.some_ne_none batch')
      have times : now = time := by
        rcases lastUsed_concat.1 last with usedNow | unused
        · exact Option.some.inj (used.symm.trans usedNow)
        · exact absurd (used.symm.trans unused.1) (Option.some_ne_none now)
      rw [found, batches, times]
    · obtain ⟨unstored, old, row, rfl⟩ := before
      have request := injective same
      subst request
      have keptBefore : Kept lib history.events batch := by
        rcases cases with putNow | untouched
        · exact absurd (unstored.symm.trans putNow) (Option.some_ne_none batch).symm
        · exact untouched.2
      rw [found]
      rcases lastUsed_concat.1 last with usedNow | unused
      · obtain ⟨batch', time', _, last', request, same⟩ := (explained _ _).1 row
        rw [← injective request] at last'
        rw [(explained _ _).2 ⟨batch, time', keptBefore, last', rfl, rfl⟩, Option.some.injEq] at row
        rw [← row, usedNow]
        rfl
      · rw [(explained _ _).2 ⟨batch, time, keptBefore, unused.2, rfl, rfl⟩,
          Option.some.injEq] at row
        rw [← row, unused.1]
        rfl

theorem rowsOfBatches {history : History Json} (explained : Explained lib history) :
    RowsOfBatches lib history.cache := by
  intro key row found
  obtain ⟨batch, time, _, _, same, row⟩ := (explained key row).1 found
  exact ⟨batch, time, same, row⟩

include injective in
theorem filled_iff {history : History Json} (explained : Explained lib history)
    {batches : List StoredExtractorBatch} {quotaBytes now : ℕ} {filled : BatchCache Json}
    (table : ∀ key : String, filled[key]? =
      (((batches.filter (storable lib quotaBytes)).filter fun batch =>
        lib.batchCacheKey (requestOf batch) = key).getLast?.map
          fun batch => cacheRow lib batch now).or history.cache[key]?) :
    Filled lib history (.putBatches batches quotaBytes now) now filled := by
  intro key row
  constructor
  · intro found
    have row' := table key
    rw [found] at row'
    rcases Option.or_eq_some_iff.1 row'.symm with put | old
    · obtain ⟨batch, last, rfl⟩ := Option.map_eq_some_iff.1 put
      have same : lib.batchCacheKey (requestOf batch) = key := by
        simpa using (List.mem_filter.1 (List.mem_of_getLast? last)).2
      subst same
      simp only [injective.eq_iff] at last
      exact ⟨batch, now, rfl, rfl, Or.inl ⟨last, rfl⟩⟩
    · obtain ⟨unput, old⟩ := old
      obtain ⟨batch, time, kept, last, rfl, rfl⟩ := (explained key row).1 old
      simp only [injective.eq_iff, Option.map_eq_none_iff] at unput
      exact ⟨batch, time, rfl, rfl, Or.inr ⟨unput, kept, last⟩⟩
  · intro said
    obtain ⟨batch, time, rfl, rfl, put | old⟩ := said
    · rw [getElem?_filled injective table, put.1, put.2]
      rfl
    · rw [getElem?_filled injective table, old.1, Option.map_none, Option.none_or]
      exact (explained _ _).2 ⟨batch, time, old.2.1, old.2.2, rfl, rfl⟩

include injective in
theorem follows_put {history : History Json} (explained : Explained lib history)
    {batches : List StoredExtractorBatch} {quotaBytes now written : ℕ} {kept : BatchCache Json}
    (done : putBatches lib history.cache batches quotaBytes now = .ok (kept, written)) :
    Follows lib history.cache ⟨.putBatches batches quotaBytes now, .written written, kept⟩ := by
  intro key row found
  cases batches with
  | nil =>
    cases done
    obtain ⟨batch, time, _, _, same, _⟩ := (explained key row).1 found
    exact ⟨requestOf batch, same, Or.inr ⟨rfl, row, found, rfl⟩⟩
  | cons batch batches =>
    obtain ⟨filled, evicts, _, table⟩ := putBatches_eq_ok (List.cons_ne_nil batch batches) done
    have before := (filled_iff injective explained table key row).1 (evicts.subset key row found)
    obtain ⟨batch', time, rfl, rfl, put | old⟩ := before
    · refine ⟨requestOf batch', rfl, Or.inl ⟨batch', now, put.1, ?_, by rw [put.2]⟩⟩
      rw [used_put, put.1]
      rfl
    · refine ⟨requestOf batch', rfl, Or.inr ⟨old.1, cacheRow lib batch' time,
        (explained _ _).2 ⟨batch', time, old.2.1, old.2.2, rfl, rfl⟩, ?_⟩⟩
      rw [used_put, old.1]
      rfl

theorem used_of_stored {event : Event Json} {request : Request} {batch : StoredExtractorBatch}
    (stored : event.call.stored lib request = some batch) :
    ∃ time, event.used lib request = some time := by
  unfold Event.used
  cases call : event.call with
  | putBatches batches quotaBytes now =>
    rw [call] at stored
    exact ⟨now, by simp [stored]⟩
  | loadBatches _ _ _ _ _ =>
    rw [call] at stored
    cases stored

theorem lastUsed_of_kept {events : List (Event Json)} {batch : StoredExtractorBatch}
    (kept : Kept lib events batch) : ∃ time, LastUsed lib events (requestOf batch) time := by
  induction events using List.reverseRecOn with
  | nil => exact absurd kept (not_since_nil _ _)
  | append_singleton events event ih =>
    rcases (kept_concat.1 kept).2 with put | old
    · obtain ⟨time, used⟩ := used_of_stored put
      exact ⟨time, lastUsed_concat.2 (Or.inl used)⟩
    · cases used : event.used lib (requestOf batch) with
      | none =>
        obtain ⟨time, last⟩ := ih old.2
        exact ⟨time, lastUsed_concat.2 (Or.inr ⟨used, last⟩)⟩
      | some time => exact ⟨time, lastUsed_concat.2 (Or.inl used)⟩

theorem size_of_kept {events : List (Event Json)} {batch : StoredExtractorBatch}
    (kept : Kept lib events batch) : batchSize lib batch ≤ i64Max := by
  obtain ⟨_, event, _, _, started, _⟩ := kept
  obtain ⟨quotaBytes, stays⟩ := (mem_of_stored started.1).2
  exact (storable_iff.1 stays).2

theorem payload_of_size {batch : StoredExtractorBatch} (size : batchSize lib batch ≤ i64Max) :
    batch.payload.length ≤ i64Max := by
  unfold batchSize at size
  have below : i64Max < u64Max := by decide
  omega

include roundTrip in
theorem served_iff {history : History Json} (explained : Explained lib history)
    (injective : Function.Injective lib.batchCacheKey) {maximum : ℕ} {request : Request}
    {batch : StoredExtractorBatch} :
    served lib history.cache maximum (lib.batchCacheKey request) = some batch ↔
      Kept lib history.events batch ∧ requestOf batch = request ∧
        batch.payload.length ≤ maximum := by
  constructor
  · intro serves
    cases found : history.cache[lib.batchCacheKey request]? with
    | none => simp [served, found] at serves
    | some row =>
      obtain ⟨batch', time, kept, last, same, rfl⟩ := (explained _ _).1 found
      rw [served_of_row roundTrip found] at serves
      split at serves
      · rename_i fits
        cases serves
        exact ⟨kept, (injective same).symm, fits⟩
      · cases serves
  · intro said
    obtain ⟨kept, rfl, fits⟩ := said
    obtain ⟨time, last⟩ := lastUsed_of_kept kept
    rw [served_of_row roundTrip ((explained _ _).2 ⟨batch, time, kept, last, rfl, rfl⟩),
      if_pos fits]

include roundTrip injective in
theorem loadBatches_eq_ok {history : History Json} (explained : Explained lib history)
    {fingerprints : List ArtifactFingerprint} {budgetFingerprint extractorVersion : String}
    {maximum now : ℕ} {cache : BatchCache Json} {loaded : List StoredExtractorBatch}
    (done : loadBatches lib history.cache fingerprints budgetFingerprint extractorVersion maximum
      now = .ok (cache, loaded)) :
    loaded = fingerprints.filterMap (fun fingerprint => served lib history.cache maximum
        (lib.batchCacheKey ⟨fingerprint, budgetFingerprint, extractorVersion⟩)) ∧
      ∀ key : String, cache[key]? =
        if key ∈ fingerprints.map fun fingerprint =>
            lib.batchCacheKey ⟨fingerprint, budgetFingerprint, extractorVersion⟩ then
          (served lib history.cache maximum key).map fun batch => cacheRow lib batch now
        else history.cache[key]? := by
  have clamped (key : String) : served lib history.cache (min maximum i64Max) key =
      served lib history.cache maximum key := by
    cases found : history.cache[key]? with
    | none => simp [served, found]
    | some row =>
      obtain ⟨batch, time, kept, _, _, rfl⟩ := (explained _ _).1 found
      have short := payload_of_size (size_of_kept kept)
      rw [served_of_row roundTrip found, served_of_row roundTrip found]
      exact if_congr (by omega) rfl rfl
  unfold loadBatches at done
  simp only [bind_eq_ok, pure_eq_ok] at done
  obtain ⟨now', time, maximum', bound, result⟩ := done
  obtain ⟨_, rfl⟩ := sqliteInteger_eq_ok.1 time
  obtain ⟨_, rfl⟩ := sqliteInteger_eq_ok.1 bound
  have fold := foldl_loadOne roundTrip injective (rowsOfBatches explained) budgetFingerprint
    extractorVersion (min maximum i64Max) now fingerprints
  rw [result] at fold
  simp only [clamped] at fold
  exact fold

include roundTrip injective in
theorem follows_load {history : History Json} (explained : Explained lib history)
    {fingerprints : List ArtifactFingerprint} {budgetFingerprint extractorVersion : String}
    {maximum now : ℕ} {cache : BatchCache Json} {loaded : List StoredExtractorBatch}
    (done : loadBatches lib history.cache fingerprints budgetFingerprint extractorVersion maximum
      now = .ok (cache, loaded)) :
    Follows lib history.cache ⟨.loadBatches fingerprints budgetFingerprint extractorVersion maximum
      now, .loaded loaded, cache⟩ := by
  obtain ⟨replies, table⟩ := loadBatches_eq_ok roundTrip injective explained done
  intro key row found
  rw [table] at found
  split at found
  · rename_i named
    obtain ⟨fingerprint, mem, rfl⟩ := List.mem_map.1 named
    obtain ⟨batch, serves, rfl⟩ := Option.map_eq_some_iff.1 found
    obtain ⟨kept, request, _⟩ := (served_iff roundTrip explained injective).1 serves
    obtain ⟨time, last⟩ := lastUsed_of_kept kept
    have listed : batch ∈ loaded := by
      rw [replies]
      exact List.mem_filterMap.2 ⟨fingerprint, mem, serves⟩
    refine ⟨requestOf batch, by rw [request], Or.inr ⟨rfl, cacheRow lib batch time,
      (explained _ _).2 ⟨batch, time, kept, last, by rw [request], rfl⟩, ?_⟩⟩
    rw [used_load, if_pos (List.mem_map_of_mem listed)]
    rfl
  · rename_i unnamed
    obtain ⟨batch, time, _, _, rfl, _⟩ := (explained _ _).1 found
    refine ⟨requestOf batch, rfl, Or.inr ⟨rfl, row, found, ?_⟩⟩
    have unserved : requestOf batch ∉ loaded.map requestOf := by
      intro listed
      obtain ⟨batch', mem, same⟩ := List.mem_map.1 listed
      rw [replies] at mem
      obtain ⟨fingerprint, asked, serves⟩ := List.mem_filterMap.1 mem
      obtain ⟨_, request, _⟩ := (served_iff roundTrip explained injective).1 serves
      exact unnamed (List.mem_map.2 ⟨fingerprint, asked, by rw [← request, same]⟩)
    rw [used_load, if_neg unserved]
    rfl

include roundTrip injective in
theorem explained_run (calls : List Call) : Explained lib (run lib calls) := by
  induction calls using List.reverseRecOn with
  | nil =>
    intro key row
    constructor
    · intro found
      simp [run] at found
    · intro said
      obtain ⟨batch, _, kept, _⟩ := said
      exact absurd kept (not_since_nil _ _)
  | append_singleton calls call ih =>
    rw [run, List.foldl_concat]
    change Explained lib (record lib (run lib calls) call)
    unfold record
    cases done : perform lib (run lib calls).cache call with
    | error _ => exact ih
    | ok result =>
      obtain ⟨cache, reply⟩ := result
      apply explained_step injective ih
      cases call with
      | putBatches batches quotaBytes now =>
        obtain ⟨⟨kept, written⟩, put, same⟩ := map_eq_ok.1 done
        cases same
        exact follows_put injective ih put
      | loadBatches fingerprints budgetFingerprint extractorVersion maximum now =>
        obtain ⟨⟨rest, loaded⟩, load, same⟩ := map_eq_ok.1 done
        cases same
        exact follows_load roundTrip injective ih load

theorem stored_of_nodup {batches : List StoredExtractorBatch} {quotaBytes now : ℕ}
    (nodup : (batches.map requestOf).Nodup) {batch : StoredExtractorBatch} (mem : batch ∈ batches)
    (stays : storable lib quotaBytes batch = true) :
    (Call.putBatches batches quotaBytes now).stored lib (requestOf batch) = some batch := by
  have listed : batch ∈ (batches.filter (storable lib quotaBytes)).filter fun other =>
      requestOf other = requestOf batch := by
    simp [mem, stays]
  have last := List.getLast?_eq_some_getLast (List.ne_nil_of_mem listed)
  have found := List.getLast_mem (List.ne_nil_of_mem listed)
  simp only [List.mem_filter, decide_eq_true_eq] at found
  rw [List.inj_on_of_nodup_map nodup found.1.1 mem found.2] at last
  exact last

include roundTrip in
theorem not_mem_loaded {history : History Json} (explained : Explained lib history)
    {keys : List String} {maximum now : ℕ} {rest : BatchCache Json}
    (table : ∀ key : String, rest[key]? = if key ∈ keys then
      (served lib history.cache maximum key).map fun batch => cacheRow lib batch now
      else history.cache[key]?) {key : String} {row : CacheRow Json}
    (found : history.cache[key]? = some row) :
    key ∉ rest ↔ maximum < row.payload.length ∧ key ∈ keys := by
  obtain ⟨batch, time, _, _, _, rfl⟩ := (explained _ _).1 found
  rw [Std.ExtTreeMap.mem_iff_isSome_getElem?, table, served_of_row roundTrip found]
  have payload : (cacheRow lib batch time).payload = batch.payload := rfl
  rw [payload]
  by_cases asked : key ∈ keys
  · by_cases fits : batch.payload.length ≤ maximum
    · simp [asked, fits]
    · simp [asked, Nat.lt_of_not_le fits]
  · simp [asked, found]

include roundTrip injective in
theorem written_eq_present {history : History Json} (explained : Explained lib history)
    {batches : List StoredExtractorBatch} {quotaBytes now written : ℕ} {kept : BatchCache Json}
    (given : batches ≠ [])
    (done : putBatches lib history.cache batches quotaBytes now = .ok (kept, written))
    (nodup : (batches.map requestOf).Nodup)
    (stay : ∀ batch ∈ batches, storable lib quotaBytes batch = true →
      lib.batchCacheKey (requestOf batch) ∈ kept) :
    written = (batches.filter (present lib kept)).length := by
  obtain ⟨filled, evicts, count, table⟩ := putBatches_eq_ok given done
  have rows := filled_iff injective explained table
  rw [count]
  apply congrArg List.length
  apply List.filter_congr
  intro batch mem
  rw [Bool.eq_iff_iff]
  constructor
  · intro stays
    have member := stay batch mem stays
    obtain ⟨row, found⟩ := Option.isSome_iff_exists.1
      (Std.ExtTreeMap.mem_iff_isSome_getElem?.1 member)
    have stored : (Call.putBatches batches quotaBytes now).stored lib (requestOf batch) =
        some batch := stored_of_nodup nodup mem stays
    have row' := evicts.subset _ _ found
    rw [getElem?_filled injective table, stored, Option.map_some, Option.some_or,
      Option.some.injEq] at row'
    rw [present, found, ← row', Option.bind_some, decoded_cacheRow roundTrip]
    exact decide_eq_true rfl
  · intro here
    obtain ⟨row, found, holds⟩ := Option.bind_eq_some_iff.1 (of_decide_eq_true here)
    obtain ⟨batch', time, same, rfl, cases⟩ := (rows _ _).1 (evicts.subset _ _ found)
    rw [decoded_cacheRow roundTrip, Option.some.injEq] at holds
    subst holds
    have size : batchSize lib batch' ≤ i64Max := by
      rcases cases with put | old
      · exact (storable_iff.1 (mem_of_stored put.1).2.choose_spec).2
      · exact size_of_kept old.2.1
    exact storable_iff.2 ⟨(rowSize_le_totalSize found).trans evicts.fits, size⟩

end Runs

section Example

/-- Each character behind a mark, so that the end of the text is known. -/
def marked (text : String) : List Char := text.toList.flatMap (fun c => ['+', c]) ++ ['.']

theorem marked_inj {s t : String} {rest rest' : List Char}
    (same : marked s ++ rest = marked t ++ rest') : s = t ∧ rest = rest' := by
  have chars : ∀ cs cs' : List Char,
      cs.flatMap (fun c => ['+', c]) ++ '.' :: rest =
        cs'.flatMap (fun c => ['+', c]) ++ '.' :: rest' → cs = cs' ∧ rest = rest' := by
    intro cs
    induction cs with
    | nil =>
      intro cs' same
      cases cs' with
      | nil => simpa using same
      | cons c' cs' => simp at same
    | cons c cs ih =>
      intro cs' same
      cases cs' with
      | nil => simp at same
      | cons c' cs' =>
        simp only [List.flatMap_cons, List.cons_append, List.nil_append, List.cons.injEq,
          true_and] at same
        obtain ⟨rfl, tails⟩ := ih cs' same.2
        exact ⟨by rw [same.1], tails⟩
  simp only [marked, List.append_assoc, List.singleton_append] at same
  obtain ⟨texts, rests⟩ := chars s.toList t.toList same
  exact ⟨String.toList_inj.1 texts, rests⟩

def exampleId (fields : List String) : String := String.ofList (fields.flatMap marked)

theorem exampleId_injective : Function.Injective exampleId := by
  intro fields fields' same
  have chars := String.ofList_injective same
  induction fields generalizing fields' with
  | nil =>
    cases fields' with
    | nil => rfl
    | cons field' fields' => simp [marked] at chars
  | cons field fields ih =>
    cases fields' with
    | nil => simp [marked] at chars
    | cons field' fields' =>
      obtain ⟨rfl, rest⟩ := marked_inj chars
      rw [ih (congrArg String.ofList rest) rest]

def tally (count : ℕ) : String := String.ofList (List.replicate count '1')

theorem tally_inj {count count' : ℕ} (same : tally count = tally count') : count = count' := by
  simpa using congrArg List.length (String.ofList_injective same)

def encodingName : NativePathEncoding → String
  | .unixBytes => "unix_bytes"
  | .windowsWide => "windows_wide"
  | .utf8 => "utf8"

def requestFields (request : Request) : List String :=
  [request.budgetFingerprint, request.extractorVersion, request.fingerprint.repoId,
    request.fingerprint.checkoutId, encodingName request.fingerprint.path.encoding,
    request.fingerprint.path.display, request.fingerprint.extractor,
    request.fingerprint.contentHash, tally request.fingerprint.sizeBytes.toNat,
    FileStats.exampleHash request.fingerprint.path.bytes]

theorem requestFields_injective : Function.Injective requestFields := by
  intro request request' same
  obtain ⟨⟨repo, checkout, ⟨encoding, bytes, display⟩, extractor, hash, size⟩, budget, version⟩ :=
    request
  obtain ⟨⟨repo', checkout', ⟨encoding', bytes', display'⟩, extractor', hash', size'⟩, budget',
    version'⟩ := request'
  simp only [requestFields, List.cons.injEq] at same
  obtain ⟨rfl, rfl, rfl, rfl, encodings, rfl, rfl, rfl, sizes, hashes, _⟩ := same
  have encodings' : encoding = encoding' := by
    cases encoding <;> cases encoding' <;> first | rfl | exact absurd encodings (by decide)
  have sizes' : size = size' := UInt64.toNat_inj.1 (tally_inj sizes)
  have bytes' : bytes = bytes' := FileStats.exampleHash_injective hashes
  rw [encodings', sizes', bytes']

def exampleLibraries : Libraries CachedBatchHeader (List String) where
  headerToVec := id
  headerFromSlice := some
  headerLen := fun _ => 239
  materialToVec := requestFields
  stableIdBytes := fun _ => exampleId

def exampleFingerprint (hash : String) : ArtifactFingerprint where
  repoId := "r"
  checkoutId := "c"
  path := ⟨.utf8, [97], "a"⟩
  extractor := "x"
  contentHash := hash
  sizeBytes := 4

def exampleBatch (hash : String) : StoredExtractorBatch where
  source := exampleFingerprint hash
  extractorVersion := "1"
  budgetFingerprint := "b"
  sourceWasLossy := false
  outputCount := 1
  payload := [91, 123, 125, 93]

def exampleRun : List Call := [.putBatches [exampleBatch "1"] 1000 1]

end Example

/-- In every run, a put that is given batches leaves at most the quota, evicts nothing when what
it filled fits, evicts rows used earlier before rows used later, and reports the batches present
afterwards unless it evicted one of its own; a load serves, for each fingerprint, the batch last
put under the request that no call has taken out, if its payload is within the maximum, and takes
out exactly the rows it was asked for whose payload is not. -/
theorem batch_cache_is_bounded_lru (lib : Libraries Json Material)
    (hash : Function.Injective (lib.stableIdBytes "work-batch-v1"))
    (material : Function.Injective lib.materialToVec)
    (roundTrip : ∀ header, lib.headerFromSlice (lib.headerToVec header) = some header)
    (calls : List Call) :
    (∀ batches quotaBytes now kept written, batches ≠ [] →
      putBatches lib (run lib calls).cache batches quotaBytes now = .ok (kept, written) →
        totalSize kept ≤ quotaBytes ∧
        (∃ filled : BatchCache Json,
          Filled lib (run lib calls) (.putBatches batches quotaBytes now) now filled ∧
          (∀ (key : String) (row : CacheRow Json),
            kept[key]? = some row → filled[key]? = some row) ∧
          (totalSize filled ≤ quotaBytes → kept = filled) ∧
          ∀ (key : String) (row : CacheRow Json) (other : String) (row' : CacheRow Json),
            filled[key]? = some row → key ∉ kept → filled[other]? = some row' →
              row'.lastAccessUnixMs < row.lastAccessUnixMs → other ∉ kept) ∧
        ((batches.map requestOf).Nodup →
          (∀ batch ∈ batches, storable lib quotaBytes batch = true →
            lib.batchCacheKey (requestOf batch) ∈ kept) →
          written = (batches.filter (present lib kept)).length)) ∧
    (∀ fingerprints budgetFingerprint extractorVersion maximum now rest loaded,
      loadBatches lib (run lib calls).cache fingerprints budgetFingerprint extractorVersion maximum
        now = .ok (rest, loaded) →
        (∃ serves : ArtifactFingerprint → Option StoredExtractorBatch,
          (∀ fingerprint batch, serves fingerprint = some batch ↔
            Kept lib (run lib calls).events batch ∧
              requestOf batch = ⟨fingerprint, budgetFingerprint, extractorVersion⟩ ∧
              batch.payload.length ≤ maximum) ∧
          loaded = fingerprints.filterMap serves) ∧
        ∀ (key : String) (row : CacheRow Json), (run lib calls).cache[key]? = some row →
          (key ∉ rest ↔ maximum < row.payload.length ∧ ∃ fingerprint ∈ fingerprints,
            key = lib.batchCacheKey ⟨fingerprint, budgetFingerprint, extractorVersion⟩)) := by
  have injective : Function.Injective lib.batchCacheKey := hash.comp material
  have explained := explained_run roundTrip injective calls
  constructor
  · intro batches quotaBytes now kept written given done
    obtain ⟨filled, evicts, _, table⟩ := putBatches_eq_ok given done
    exact ⟨evicts.fits, ⟨filled, filled_iff injective explained table, evicts.subset, evicts.idle,
      evicts.oldestFirst⟩, written_eq_present roundTrip injective explained given done⟩
  · intro fingerprints budgetFingerprint extractorVersion maximum now rest loaded done
    obtain ⟨replies, table⟩ := loadBatches_eq_ok roundTrip injective explained done
    refine ⟨⟨_, fun _ _ => served_iff roundTrip explained injective, replies⟩, ?_⟩
    intro key row found
    rw [not_mem_loaded roundTrip explained table found]
    simp [eq_comm]

/-- A second batch under a quota for one takes the place of the first; until then the first is
served. -/
theorem batch_cache_is_bounded_lru_example :
    (∃ kept : BatchCache CachedBatchHeader, totalSize kept ≤ 300 ∧
      putBatches exampleLibraries (run exampleLibraries exampleRun).cache [exampleBatch "2"] 300 2 =
        .ok (kept, 1)) ∧
    Kept exampleLibraries (run exampleLibraries exampleRun).events (exampleBatch "1") := by
  obtain ⟨puts, loads⟩ := batch_cache_is_bounded_lru exampleLibraries exampleId_injective
    requestFields_injective (fun _ => rfl) exampleRun
  constructor
  · obtain ⟨⟨kept, written⟩, done, count⟩ := isOkAnd_iff.1
      (show isOkAnd (putBatches exampleLibraries (run exampleLibraries exampleRun).cache
        [exampleBatch "2"] 300 2) (fun done => done.2 = 1) = true by decide +kernel)
    refine ⟨kept, (puts _ _ _ _ _ (List.cons_ne_nil _ _) done).1, ?_⟩
    rw [done, ← of_decide_eq_true count]
  · obtain ⟨⟨rest, loaded⟩, done, batches⟩ := isOkAnd_iff.1
      (show isOkAnd (loadBatches exampleLibraries (run exampleLibraries exampleRun).cache
        [exampleFingerprint "1"] "b" "1" 4 2)
        (fun done => done.2 = [exampleBatch "1"]) = true by decide +kernel)
    obtain ⟨⟨serves, means, replies⟩, _⟩ := loads _ _ _ _ _ _ _ done
    have replies' : [exampleBatch "1"] = _ := (of_decide_eq_true batches).symm.trans replies
    have listed : exampleBatch "1" ∈ [exampleFingerprint "1"].filterMap serves := by
      rw [← replies']
      exact List.mem_singleton_self _
    obtain ⟨fingerprint, _, served⟩ := List.mem_filterMap.1 listed
    exact ((means fingerprint (exampleBatch "1")).1 served).1

/-- A put without batches does not evict; a put reports a batch that it evicts again; a load with
a smaller maximum takes out a batch that a later one then misses. -/
theorem batch_cache_outside_of_bound :
    (Function.Injective (exampleLibraries.stableIdBytes "work-batch-v1") ∧
      Function.Injective exampleLibraries.materialToVec ∧
      ∀ header, exampleLibraries.headerFromSlice (exampleLibraries.headerToVec header) =
        some header) ∧
    (¬∀ batches quotaBytes now kept written,
      putBatches exampleLibraries (run exampleLibraries exampleRun).cache batches quotaBytes now =
        .ok (kept, written) → totalSize kept ≤ quotaBytes) ∧
    (¬∀ batches quotaBytes now kept written,
      putBatches exampleLibraries ∅ batches quotaBytes now = .ok (kept, written) →
        (batches.map requestOf).Nodup →
          written = (batches.filter (present exampleLibraries kept)).length) ∧
    ∃ rest, loadBatches exampleLibraries (run exampleLibraries (exampleRun ++
        [.loadBatches [exampleFingerprint "1"] "b" "1" 3 2])).cache
      [exampleFingerprint "1"] "b" "1" 4 3 = .ok (rest, []) := by
  refine ⟨⟨exampleId_injective, requestFields_injective, fun _ => rfl⟩, ?_, ?_, ?_⟩
  · intro claim
    exact absurd (claim [] 0 2 _ 0 rfl) (by decide +kernel)
  · intro claim
    obtain ⟨⟨kept, written⟩, done, count⟩ := isOkAnd_iff.1
      (show isOkAnd (putBatches exampleLibraries ∅ [exampleBatch "1", exampleBatch "2"] 300 1)
        (fun done => done.2 ≠ ([exampleBatch "1", exampleBatch "2"].filter
          (present exampleLibraries done.1)).length) = true by decide +kernel)
    have differ : written ≠ ([exampleBatch "1", exampleBatch "2"].filter
        (present exampleLibraries kept)).length := of_decide_eq_true count
    have distinct : ([exampleBatch "1", exampleBatch "2"].map requestOf).Nodup := by
      decide +kernel
    exact differ (claim [exampleBatch "1", exampleBatch "2"] 300 1 kept written done distinct)
  · obtain ⟨⟨rest, loaded⟩, done, none⟩ := isOkAnd_iff.1
      (show isOkAnd (loadBatches exampleLibraries (run exampleLibraries (exampleRun ++
          [.loadBatches [exampleFingerprint "1"] "b" "1" 3 2])).cache
        [exampleFingerprint "1"] "b" "1" 4 3) (fun done => done.2 = []) = true by
          decide +kernel)
    exact ⟨rest, by rw [done, ← of_decide_eq_true none]⟩

end CodeSystemGraph.WorkState
