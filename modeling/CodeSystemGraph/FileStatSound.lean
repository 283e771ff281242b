import CodeSystemGraph.FileStats
import CodeSystemGraph.Text

/-!
When a hit of the stat cache is as good as a read. The window is tested on the
modification time alone, which anyone may set back; an entry is safe when the
change time has left its granule before the metadata is taken, for then every
later change leaves its mark.
-/

namespace CodeSystemGraph.FileStats

open Ordered

section Identity

theorem fileIdentity_inj {m m' : Metadata} (same : fileIdentity m = fileIdentity m') :
    m.dev = m'.dev ∧ m.ino = m'.ino ∧ m.ctime = m'.ctime ∧ m.ctimeNsec = m'.ctimeNsec := by
  have colon : ":".toList = [':'] := by decide
  have dot : ".".toList = ['.'] := by decide
  have lists := congrArg String.toList same
  simp only [fileIdentity, String.toList_append, List.append_assoc, colon, dot,
    List.singleton_append] at lists
  obtain ⟨dev, lists⟩ :=
    Text.append_cons_inj (Text.notMem_repr (by decide)) (Text.notMem_repr (by decide)) lists
  obtain ⟨ino, lists⟩ :=
    Text.append_cons_inj (Text.notMem_repr (by decide)) (Text.notMem_repr (by decide)) lists
  obtain ⟨ctime, nsec⟩ :=
    Text.append_cons_inj (Text.notMem_repr (by decide)) (Text.notMem_repr (by decide)) lists
  exact ⟨Text.repr_inj dev, Text.repr_inj ino, Text.repr_inj ctime, Text.repr_inj nsec⟩

/-- The identity that a file with this inode and change time has. -/
def identityOf (inode : Inode) (changed : Nat) : String :=
  fileIdentity
    { len := 0, modified := 0, dev := inode.1, ino := inode.2, ctime := changed / 1000000000,
      ctimeNsec := changed % 1000000000 }

theorem identityOf_inj {inode inode' : Inode} {changed changed' : Nat}
    (same : identityOf inode changed = identityOf inode' changed') :
    inode = inode' ∧ changed = changed' := by
  obtain ⟨dev, ino, seconds, nanoseconds⟩ := fileIdentity_inj same
  exact ⟨Prod.ext dev ino, by simp only at seconds nanoseconds; omega⟩

end Identity

section Entries

variable {setting : Setting} {world next : World} {key : FileStatKey} {stat : FileStat}

theorem stamp_mono {granule : Nat} (longer : world.clock ≤ next.clock) :
    world.stamp granule ≤ next.stamp granule :=
  Nat.mul_le_mul_right _ (Nat.div_le_div_right longer)

theorem edit_cases {granule : Nat} {edit : Edit} (edited : world.edit granule edit = some next)
    (key : FileStatKey) {inode : Inode} (named : next.paths key = some inode) :
    (next.inodes inode).changed = world.stamp granule ∨
      world.paths key = some inode ∧ next.inodes inode = world.inodes inode := by
  cases edit with
  | tick nanoseconds =>
    cases edited
    exact .inr ⟨named, rfl⟩
  | write target content
  | touch target =>
    cases edited
    by_cases same : inode = target
    · left
      simp [World.setFile, same]
    · right
      exact ⟨named, by simp [World.setFile, same]⟩
  | setModified target modified =>
    rw [World.edit] at edited
    split at edited
    · cases edited
      by_cases same : inode = target
      · left
        simp [World.setFile, same]
      · right
        exact ⟨named, by simp [World.setFile, same]⟩
    · cases edited
  | replace replaced target =>
    cases edited
    by_cases same : inode = target
    · left
      simp [World.setFile, same]
    · right
      by_cases here : key = replaced
      · simp [here] at named
        exact absurd named.symm same
      · simp [here] at named
        exact ⟨named, by simp [World.setFile, same]⟩
  | remove removed =>
    cases edited
    by_cases here : key = removed
    · simp [here] at named
    · simp [here] at named
      exact .inr ⟨named, rfl⟩

theorem clock_edit {granule : Nat} {edit : Edit} (edited : world.edit granule edit = some next) :
    world.clock ≤ next.clock := by
  cases edit with
  | tick nanoseconds =>
    cases edited
    exact Nat.le_add_right _ _
  | setModified target modified =>
    rw [World.edit] at edited
    split at edited <;> cases edited
    exact Nat.le_refl _
  | write | touch | replace | remove =>
    cases edited
    exact Nat.le_refl _

variable (setting) in
/-- An entry that can be believed: the change time it records is past, and as long as its path
names a file with that identity, the hash is that file's. -/
def Valid (world : World) (key : FileStatKey) (stat : FileStat) : Prop :=
  ∃ inode changed, stat.fileIdentity = identityOf inode changed ∧
    changed < world.stamp setting.granule ∧
    (world.paths key = some inode → (world.inodes inode).changed = changed →
      stat.contentHash = setting.contentHash (world.inodes inode).content)

theorem Valid.edit (valid : Valid setting world key stat) {edit : Edit}
    (edited : world.edit setting.granule edit = some next) : Valid setting next key stat := by
  obtain ⟨inode, changed, identity, past, hash⟩ := valid
  refine ⟨inode, changed, identity, Nat.lt_of_lt_of_le past (stamp_mono (clock_edit edited)), ?_⟩
  intro named unchanged
  obtain fresh | ⟨before, same⟩ := edit_cases edited key named
  · omega
  · rw [same] at unchanged ⊢
    exact hash before unchanged

theorem metadata_eq_some {metadata : Metadata} (found : world.metadata key = some metadata) :
    ∃ inode, world.paths key = some inode ∧
      metadata.len = (world.inodes inode).content.length ∧
      metadata.modified = (world.inodes inode).modified ∧
      fileIdentity metadata = identityOf inode (world.inodes inode).changed := by
  obtain ⟨inode, named, rfl⟩ := Option.map_eq_some_iff.1 found
  exact ⟨inode, named, rfl, rfl, rfl⟩

theorem contentAt_of_named {inode : Inode} (named : world.paths key = some inode) :
    world.contentAt key = some (world.inodes inode).content := by
  rw [World.contentAt, named, Option.map_some]

end Entries

section Scans

variable (setting : Setting)

/-- The hash of a fingerprint is the hash of a content that its path had at one of the moments. -/
def Current (moments : List World) (fingerprint : ArtifactFingerprint) : Prop :=
  ∃ world ∈ moments, ∃ content,
    world.contentAt (fingerprint.checkoutId, fingerprint.path) = some content ∧
      fingerprint.contentHash = setting.contentHash content

/-- What is known of a job while its scan runs. -/
def Job.Sound (world : World) (recordedBeforeNs : Int) (moments : List World) (job : Job) : Prop :=
  match job.progress with
  | .waiting => True
  | .statted _ _ observed => ∀ seen, observed = some seen → seen.modified < recordedBeforeNs →
      ∃ inode changed, seen.identity = identityOf inode changed ∧
        changed < world.stamp setting.granule
  | .done _ outcome => (∀ fingerprint ∈ outcome.fingerprints, Current setting moments fingerprint) ∧
      ∀ key stat, outcome.stat = some (key, stat) → Valid setting world key stat

structure Scan.Sound (world : World) (scan : Scan) : Prop where
  present : world ∈ scan.moments
  cache : ∀ key stat, (key, stat) ∈ scan.cache → Valid setting world key stat
  jobs : ∀ job ∈ scan.jobs, job.Sound setting world scan.recordedBeforeNs scan.moments

structure State.Sound (s : State) : Prop where
  rows : ∀ key stat, (key, stat) ∈ s.rows → Valid setting s.world key stat
  scan : ∀ scan, s.scan = some scan → scan.Sound setting s.world
  returned : ∀ result ∈ s.returned, ∀ fingerprint ∈ result.fingerprints,
    Current setting result.moments fingerprint

/-- The defect is not reached: when a scan takes the metadata of a file with an old modification
time, the change time of that file has left the current granule. -/
def State.ChangeIsPast (s : State) : Action → Prop
  | .stat index path => ∀ scan ∈ s.scan, ∀ job ∈ scan.jobs[index]?,
      ∀ inode ∈ s.world.paths (job.request.checkoutId, path),
        unixNanos (s.world.inodes inode).modified < scan.recordedBeforeNs →
          (s.world.inodes inode).changed < s.world.stamp setting.granule
  | _ => True

instance (s : State) : ∀ action, Decidable (s.ChangeIsPast setting action)
  | .stat index path => inferInstanceAs (Decidable (∀ scan ∈ s.scan, ∀ job ∈ scan.jobs[index]?,
      ∀ inode ∈ s.world.paths (job.request.checkoutId, path),
        unixNanos (s.world.inodes inode).modified < scan.recordedBeforeNs →
          (s.world.inodes inode).changed < s.world.stamp setting.granule))
  | .edit _ => isTrue trivial
  | .begin _ _ => isTrue trivial
  | .read _ => isTrue trivial
  | .finish => isTrue trivial
  | .fail => isTrue trivial

variable {setting} {world next : World} {moments moments' : List World} {recordedBeforeNs : Int}

theorem Current.mono {fingerprint : ArtifactFingerprint}
    (current : Current setting moments fingerprint) (subset : moments ⊆ moments') :
    Current setting moments' fingerprint := by
  obtain ⟨world, mem, content⟩ := current
  exact ⟨world, subset mem, content⟩

theorem Job.Sound.edit {job : Job} (sound : job.Sound setting world recordedBeforeNs moments)
    {edit : Edit} (edited : world.edit setting.granule edit = some next)
    (subset : moments ⊆ moments') : job.Sound setting next recordedBeforeNs moments' := by
  obtain ⟨request, progress⟩ := job
  cases progress with
  | waiting => trivial
  | statted path len observed =>
    intro seen found old
    obtain ⟨inode, changed, identity, past⟩ := sound seen found old
    exact ⟨inode, changed, identity, Nat.lt_of_lt_of_le past (stamp_mono (clock_edit edited))⟩
  | done path outcome =>
    exact ⟨fun fingerprint mem => (sound.1 fingerprint mem).mono subset,
      fun key stat found => (sound.2 key stat found).edit edited⟩

theorem Scan.Sound.edit {scan : Scan} (sound : scan.Sound setting world) {edit : Edit}
    (edited : world.edit setting.granule edit = some next) :
    Scan.Sound setting next { scan with moments := scan.moments ++ [next] } where
  present := List.mem_append_right _ (List.mem_singleton_self _)
  cache key stat mem := (sound.cache key stat mem).edit edited
  jobs job mem := (sound.jobs job mem).edit edited (List.subset_append_left _ _)

theorem sound_fileOutcome {request : FileRequest} {path : List UInt8} {len : Nat}
    {observed : Option ObservedStat} {statHit : Bool} {contentHash : String} {content : List UInt8}
    (present : world ∈ moments) (found : world.contentAt (request.checkoutId, path) = some content)
    (hashed : contentHash = setting.contentHash content)
    (past : ∀ seen, observed = some seen → seen.modified < recordedBeforeNs →
      ∃ inode changed, seen.identity = identityOf inode changed ∧
        changed < world.stamp setting.granule) :
    Job.Sound setting world recordedBeforeNs moments
      { request, progress := .done path
          (fileOutcome request path len observed recordedBeforeNs statHit contentHash) } := by
  refine ⟨?_, ?_⟩
  · intro fingerprint mem
    obtain ⟨extractor, -, rfl⟩ := List.mem_map.1 mem
    exact ⟨world, present, content, found, hashed⟩
  · intro key stat recorded
    obtain ⟨seen, kept, same⟩ := Option.map_eq_some_iff.1 recorded
    obtain ⟨observed, old⟩ := Option.filter_eq_some_iff.1 kept
    obtain ⟨inode, changed, identity, before⟩ := past seen observed (of_decide_eq_true old)
    cases same
    refine ⟨inode, changed, identity, before, fun named _ => ?_⟩
    rw [contentAt_of_named named, Option.some.injEq] at found
    rw [hashed, found]

theorem Scan.Sound.set {scan : Scan} (sound : scan.Sound setting world) (index : Nat) {job : Job}
    (jobSound : job.Sound setting world scan.recordedBeforeNs scan.moments) :
    Scan.Sound setting world { scan with jobs := scan.jobs.set index job } where
  present := sound.present
  cache := sound.cache
  jobs other mem := by
    obtain old | rfl := List.mem_or_eq_of_mem_set mem
    · exact sound.jobs other old
    · exact jobSound

theorem hash_of_cached {cache : StatCache} {key : FileStatKey} {metadata : Metadata} {hash : String}
    (valid : ∀ key stat, (key, stat) ∈ cache → Valid setting world key stat)
    (found : world.metadata key = some metadata)
    (hit : cachedHash cache key (observedStat metadata) = some hash) :
    ∃ content, world.contentAt key = some content ∧ hash = setting.contentHash content := by
  obtain ⟨inode, named, -, -, identity⟩ := metadata_eq_some found
  obtain ⟨stat, entry, matched⟩ := Option.bind_eq_some_iff.1 hit
  obtain ⟨seen, kept, rfl⟩ := Option.map_eq_some_iff.1 matched
  obtain ⟨observed, equal⟩ := Option.filter_eq_some_iff.1 kept
  obtain ⟨inode', changed, recorded, -, hash⟩ := valid key stat (mem_of_lookup entry)
  rw [observedStat, Option.some.injEq] at observed
  subst observed
  simp only [Bool.and_eq_true, beq_iff_eq] at equal
  rw [recorded, identity] at equal
  obtain ⟨rfl, rfl⟩ := identityOf_inj equal.2
  exact ⟨_, contentAt_of_named named, hash named rfl⟩

theorem Scan.Sound.stat {scan after : Scan} (sound : scan.Sound setting world) {index : Nat}
    {path : List UInt8}
    (past : ∀ job inode, scan.jobs[index]? = some job →
      world.paths (job.request.checkoutId, path) = some inode →
      unixNanos (world.inodes inode).modified < scan.recordedBeforeNs →
        (world.inodes inode).changed < world.stamp setting.granule)
    (stepped : scan.stat setting world index path = some after) : after.Sound setting world := by
  rw [Scan.stat] at stepped
  split at stepped
  · next request waiting =>
    obtain ⟨metadata, found, stepped⟩ := Option.bind_eq_some_iff.1 stepped
    obtain ⟨inode, named, -, modified, identity⟩ := metadata_eq_some found
    have believed : ∀ seen, observedStat metadata = some seen →
        seen.modified < scan.recordedBeforeNs → ∃ inode changed,
          seen.identity = identityOf inode changed ∧ changed < world.stamp setting.granule := by
      intro seen observed old
      rw [observedStat, Option.some.injEq] at observed
      subst observed
      simp only [modified] at old
      exact ⟨inode, (world.inodes inode).changed, identity, past _ inode waiting named old⟩
    split at stepped
    · cases hit : cachedHash scan.cache (request.checkoutId, path) (observedStat metadata) with
      | none =>
        simp only [hit, Option.some.injEq] at stepped
        subst stepped
        exact sound.set index believed
      | some hash =>
        simp only [hit, Option.some.injEq] at stepped
        subst stepped
        obtain ⟨content, present, hashed⟩ := hash_of_cached sound.cache found hit
        exact sound.set index (sound_fileOutcome sound.present present hashed believed)
    · cases stepped
  · cases stepped

theorem Scan.Sound.read {scan after : Scan} (sound : scan.Sound setting world) {index : Nat}
    (stepped : scan.read setting world index = some after) : after.Sound setting world := by
  rw [Scan.read] at stepped
  split at stepped
  · next request path len observed statted =>
    obtain ⟨content, found, stepped⟩ := Option.bind_eq_some_iff.1 stepped
    split at stepped
    · cases stepped
      have believed := sound.jobs _ (List.mem_of_getElem? statted)
      exact sound.set index (sound_fileOutcome sound.present found rfl believed)
    · cases stepped
  · cases stepped

theorem mem_dedupLast {α : Type} {same : α → α → Bool} {a : α} {l : List α}
    (mem : a ∈ dedupLast same l) : a ∈ l := by
  fun_induction dedupLast same l with
  | case1 => exact mem
  | case2 => exact mem
  | case3 first second rest merged ih => exact List.mem_cons_of_mem _ (ih mem)
  | case4 first second rest kept ih =>
    rw [List.mem_cons] at mem ⊢
    exact mem.imp_right ih

theorem mem_applyFileStatDelta {rows after : StatCache} {delta : FileStatDelta}
    {row : FileStatKey × FileStat} (applied : applyFileStatDelta rows delta = some after)
    (mem : row ∈ after) : row ∈ rows ∨ row ∈ delta.upserts := by
  have removed : ∀ (removals : List FileStatKey) (rows : StatCache),
      removals.foldl (fun rows key => rows.filter fun row => row.1 != key) rows ⊆ rows := by
    intro removals
    induction removals with
    | nil => exact fun rows => List.Subset.refl rows
    | cons key removals ih =>
      intro rows row mem
      exact (List.mem_filter.1 (ih _ mem)).1
  have upserted : ∀ (upserts rows : StatCache), upserts.foldlM upsertRow rows = some after →
      row ∈ rows ∨ row ∈ upserts := by
    intro upserts
    induction upserts with
    | nil =>
      intro rows applied
      rw [List.foldlM_nil] at applied
      cases applied
      exact .inl mem
    | cons upsert upserts ih =>
      intro rows applied
      rw [List.foldlM_cons] at applied
      obtain ⟨middle, first, rest⟩ := Option.bind_eq_some_iff.1 applied
      obtain ⟨size, -, rfl⟩ := Option.map_eq_some_iff.1 first
      cases ih _ rest with
      | inr later => exact .inr (List.mem_cons_of_mem _ later)
      | inl middle =>
        rw [List.mem_cons, List.mem_filter] at middle
        obtain rfl | ⟨old, -⟩ := middle
        · exact .inr (List.mem_cons_self ..)
        · exact .inl old
  rw [applyFileStatDelta] at applied
  exact (upserted _ _ applied).imp_left (fun kept => removed _ _ kept)

theorem outcome_eq_some {job : Job} {outcome : FileOutcome} (done : job.outcome = some outcome) :
    ∃ path, job.progress = .done path outcome := by
  rw [Job.outcome] at done
  split at done
  · next path outcome progress =>
    cases done
    exact ⟨path, progress⟩
  · cases done

theorem job_of_mem_outcomes {jobs : List Job} {outcomes : List FileOutcome} {outcome : FileOutcome}
    (done : jobs.mapM Job.outcome = some outcomes) (mem : outcome ∈ outcomes) :
    ∃ job ∈ jobs, job.outcome = some outcome := by
  induction jobs generalizing outcomes with
  | nil =>
    rw [List.mapM_nil] at done
    cases done
    cases mem
  | cons job jobs ih =>
    rw [List.mapM_cons] at done
    obtain ⟨first, found, rest⟩ := Option.bind_eq_some_iff.1 done
    obtain ⟨others, mapped, same⟩ := Option.bind_eq_some_iff.1 rest
    cases same
    rw [List.mem_cons] at mem
    cases mem with
    | inl here => exact ⟨job, List.mem_cons_self .., here ▸ found⟩
    | inr later =>
      obtain ⟨other, member, outcome⟩ := ih mapped later
      exact ⟨other, List.mem_cons_of_mem _ member, outcome⟩

theorem Scan.Sound.outcome {scan : Scan} (sound : scan.Sound setting world)
    {outcomes : List FileOutcome} (done : scan.jobs.mapM Job.outcome = some outcomes)
    {outcome : FileOutcome} (mem : outcome ∈ outcomes) :
    (∀ fingerprint ∈ outcome.fingerprints, Current setting scan.moments fingerprint) ∧
      ∀ key stat, outcome.stat = some (key, stat) → Valid setting world key stat := by
  obtain ⟨job, member, found⟩ := job_of_mem_outcomes done mem
  obtain ⟨path, progress⟩ := outcome_eq_some found
  have jobSound := sound.jobs job member
  rw [Job.Sound, progress] at jobSound
  exact jobSound

namespace State.Sound

variable {s t : State}

theorem finish (sound : s.Sound setting) (stepped : s.finish = some t) : t.Sound setting := by
  obtain ⟨scan, running, stepped⟩ := Option.bind_eq_some_iff.1 stepped
  obtain ⟨outcomes, done, rfl⟩ := Option.map_eq_some_iff.1 stepped
  have scanSound := sound.scan scan running
  cases applied : applyFileStatDelta s.rows
      (discovered scan.cache (scan.jobs.map (·.request)) outcomes).statDelta with
  | none =>
    simp only [applied]
    exact ⟨sound.rows, fun _ idle => absurd idle.symm (Option.some_ne_none _), sound.returned⟩
  | some rows =>
    simp only [applied]
    refine ⟨?_, fun _ idle => absurd idle.symm (Option.some_ne_none _), ?_⟩
    · intro key stat mem
      cases mem_applyFileStatDelta applied mem with
      | inl old => exact sound.rows key stat old
      | inr recorded =>
        obtain ⟨outcome, member, found⟩ :=
          List.mem_filterMap.1 (List.mem_filter.1 recorded).1
        exact (scanSound.outcome done member).2 key stat found
    · intro result mem fingerprint member
      rw [List.mem_append, List.mem_singleton] at mem
      cases mem with
      | inl old => exact sound.returned result old fingerprint member
      | inr last =>
        subst last
        have listed := (sortBy_perm artifactKey _).mem_iff.1 (mem_dedupLast member)
        obtain ⟨outcome, outcomeMem, fingerprintMem⟩ := List.mem_flatMap.1 listed
        exact (scanSound.outcome done outcomeMem).1 fingerprint fingerprintMem

theorem begin (sound : s.Sound setting) {force : Bool} {requests : List FileRequest}
    (stepped : s.begin force requests = some t) : t.Sound setting := by
  rw [State.begin] at stepped
  split at stepped
  · cases stepped
  · cases stepped
    refine ⟨sound.rows, ?_, sound.returned⟩
    intro scan begun
    cases begun
    refine ⟨List.mem_singleton_self _, ?_, ?_⟩
    · intro key stat mem
      cases force with
      | true => simp at mem
      | false => exact sound.rows key stat mem
    · intro job mem
      obtain ⟨request, -, rfl⟩ := List.mem_map.1 mem
      trivial

theorem edit (sound : s.Sound setting) {edit : Edit} (stepped : s.edit setting edit = some t) :
    t.Sound setting := by
  obtain ⟨next, edited, rfl⟩ := Option.map_eq_some_iff.1 stepped
  refine ⟨fun key stat mem => (sound.rows key stat mem).edit edited, ?_, sound.returned⟩
  intro scan found
  obtain ⟨before, running, rfl⟩ := Option.map_eq_some_iff.1 found
  exact (sound.scan before running).edit edited

theorem setScan (sound : s.Sound setting) {scan : Scan} (scanSound : scan.Sound setting s.world) :
    Sound setting { s with scan := some scan } := by
  refine ⟨sound.rows, ?_, sound.returned⟩
  intro other same
  cases same
  exact scanSound

theorem step (sound : s.Sound setting) {action : Action} (past : s.ChangeIsPast setting action)
    (stepped : s.step setting action = some t) : t.Sound setting := by
  cases action with
  | edit edit => exact sound.edit stepped
  | begin force requests => exact sound.begin stepped
  | stat index path =>
    obtain ⟨scan, running, stepped⟩ := Option.bind_eq_some_iff.1 stepped
    obtain ⟨after, statted, rfl⟩ := Option.map_eq_some_iff.1 stepped
    refine sound.setScan ((sound.scan scan running).stat ?_ statted)
    intro job inode waiting named old
    exact past scan running job waiting inode named old
  | read index =>
    obtain ⟨scan, running, stepped⟩ := Option.bind_eq_some_iff.1 stepped
    obtain ⟨after, read, rfl⟩ := Option.map_eq_some_iff.1 stepped
    exact sound.setScan ((sound.scan scan running).read read)
  | finish => exact sound.finish stepped
  | fail =>
    obtain ⟨scan, running, rfl⟩ := Option.map_eq_some_iff.1 stepped
    exact ⟨sound.rows, fun _ idle => absurd idle.symm (Option.some_ne_none _), sound.returned⟩

end State.Sound

theorem sound_start (world : World) : (start world).Sound setting where
  rows := by simp [start]
  scan := by simp [start]
  returned := by simp [start]

end Scans

/-- In every run in which no scan meets a recently changed file with an old modification time,
every hash that a scan returns is the hash of a content the file had during that scan. -/
theorem returned_hash_current (setting : Setting) (world : World) (actions : List Action) (s : State)
    (past : Steps.Meets (State.step setting) (State.ChangeIsPast setting) (start world) actions)
    (ran : run setting world actions = some s) :
    ∀ result ∈ s.returned, ∀ fingerprint ∈ result.fingerprints,
      Current setting result.moments fingerprint :=
  (Steps.run_keeps_of_meets (fun _ _ _ sound past stepped => sound.step past stepped)
    (sound_start world) past ran).returned

def exampleHash (content : List UInt8) : String :=
  String.ofList (content.map fun byte => Char.ofNat byte.toNat)

theorem exampleHash_injective : Function.Injective exampleHash := by
  intro content content' same
  have chars : Function.Injective fun byte : UInt8 => Char.ofNat byte.toNat := by
    intro byte byte' same
    have code : ∀ byte : UInt8, (Char.ofNat byte.toNat).toNat = byte.toNat := by
      intro byte
      have small := byte.toNat_lt
      rw [Char.ofNat, dif_pos (Or.inl (by omega))]
      rfl
    apply UInt8.toNat.inj
    rw [← code byte, ← code byte']
    exact congrArg Char.toNat same
  exact List.map_injective_iff.2 chars (String.ofList_injective same)

def exampleSetting : Setting where
  granule := 1000000000
  maxInputBytes := 1048576
  contentHash := exampleHash

def exampleKey : FileStatKey := ("checkout", [97])

def exampleWorld : World where
  clock := 10000000000
  inodes := fun _ => { content := [], modified := 0, changed := 0 }
  paths := fun _ => none

def exampleRequest : FileRequest where
  repoId := "repo"
  checkoutId := "checkout"
  extractors := ["code-system-graph.http.openapi"]

/-- A file is unpacked with its old modification time, and scanned. -/
def unpackAndScan (pause : Nat) : List Action :=
  [.edit (.write (1, 7) [88]), .edit (.setModified (1, 7) 5000000000),
    .edit (.replace exampleKey (1, 7)), .edit (.tick pause), .begin false [exampleRequest],
    .stat 0 [97], .read 0, .finish]

/-- It is unpacked once more with other content of the same length and time, and scanned again. -/
def unpackAgain (pause : Nat) : List Action :=
  [.edit (.write (1, 7) [89]), .edit (.setModified (1, 7) 5000000000), .edit (.tick pause),
    .begin false [exampleRequest], .stat 0 [97]]

def summary (s : State) : List (List ArtifactFingerprint × List (Option (List UInt8))) :=
  s.returned.map fun result =>
    (result.fingerprints, result.moments.map fun world => world.contentAt exampleKey)

def exampleFingerprint (contentHash : String) : ArtifactFingerprint where
  repoId := "repo"
  checkoutId := "checkout"
  path := [97]
  extractor := "code-system-graph.http.openapi"
  contentHash := contentHash
  sizeBytes := 1

theorem returned_hash_current_unpacked :
    ∃ s, run exampleSetting exampleWorld
        (unpackAndScan 1000000000 ++ unpackAgain 1000000000 ++ [.read 0, .finish]) = some s ∧
      summary s = [([exampleFingerprint "X"], [some [88]]), ([exampleFingerprint "Y"], [some [89]])] ∧
      ∀ result ∈ s.returned, ∀ fingerprint ∈ result.fingerprints,
        Current exampleSetting result.moments fingerprint := by
  have values : (run exampleSetting exampleWorld
      (unpackAndScan 1000000000 ++ unpackAgain 1000000000 ++ [.read 0, .finish])).map summary =
      some [([exampleFingerprint "X"], [some [88]]), ([exampleFingerprint "Y"], [some [89]])] := by
    decide
  obtain ⟨s, ran, results⟩ := Option.map_eq_some_iff.1 values
  exact ⟨s, ran, results,
    returned_hash_current exampleSetting exampleWorld _ s (by decide) ran⟩

theorem stale_hash_returned :
    ¬∀ setting : Setting, 0 < setting.granule → setting.granule < 2000000000 →
      Function.Injective setting.contentHash → ∀ world actions s,
        run setting world actions = some s → ∀ result ∈ s.returned,
          ∀ fingerprint ∈ result.fingerprints, Current setting result.moments fingerprint := by
  intro claim
  have values : (run exampleSetting exampleWorld (unpackAndScan 0 ++ unpackAgain 0 ++ [.finish])).map summary = some
      [([exampleFingerprint "X"], [some [88]]), ([exampleFingerprint "X"], [some [89]])] := by
    decide
  obtain ⟨s, ran, results⟩ := Option.map_eq_some_iff.1 values
  have second : ([exampleFingerprint "X"], [some [89]]) ∈ summary s := by
    rw [results]
    exact List.mem_cons_of_mem _ (List.mem_singleton_self _)
  obtain ⟨result, mem, same⟩ := List.mem_map.1 second
  rw [Prod.mk.injEq] at same
  obtain ⟨world, moment, content, found, hash⟩ :=
    claim exampleSetting (by decide) (by decide) exampleHash_injective exampleWorld _ s ran result mem
      (exampleFingerprint "X") (by rw [same.1]; exact List.mem_singleton_self _)
  have seen : world.contentAt exampleKey ∈ [some [89]] := by
    rw [← same.2]
    exact List.mem_map_of_mem moment
  have content89 : some content = some [89] := by
    rw [← found]
    exact List.mem_singleton.1 seen
  cases content89
  exact absurd hash (by decide)

end CodeSystemGraph.FileStats
