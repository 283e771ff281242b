import CodeSystemGraph.StoreIsolation

/-! Runs of the registry, from the empty schema. As long as every registration
covers the rows of its workspace and gives a checkout the repository that all
other registrations give it, any workspace can be removed without the others. -/

namespace CodeSystemGraph.Store
open Model Ordered Relational Routes Steps

section Tables

variable {Row K : Type} [DecidableEq K] {key : Row → K}

theorem mem_put_apart {table : List Row} {row other : Row} (mem : other ∈ put key table row) :
    other = row ∨ other ∈ table ∧ key other ≠ key row := by
  unfold put at mem
  split at mem
  · obtain ⟨old, known, rfl⟩ := List.mem_map.1 mem
    split
    · exact .inl rfl
    · next differ => exact .inr ⟨known, differ⟩
  · next absent =>
    rw [Option.not_isSome_iff_eq_none, lookup_eq_none] at absent
    rcases List.mem_append.1 mem with known | single
    · exact .inr ⟨known, absent other known⟩
    · exact .inl (List.mem_singleton.1 single)

theorem mem_foldl_put {rows table : List Row} {other : Row}
    (mem : other ∈ rows.foldl (put key) table) :
    other ∈ rows ∨ other ∈ table ∧ ∀ row ∈ rows, key other ≠ key row := by
  induction rows generalizing table with
  | nil => exact .inr ⟨mem, by simp⟩
  | cons row rows ih =>
    rcases ih mem with written | ⟨stored, apart⟩
    · exact .inl (List.mem_cons_of_mem _ written)
    · rcases mem_put_apart stored with rfl | ⟨old, differ⟩
      · exact .inl List.mem_cons_self
      · exact .inr ⟨old, List.forall_mem_cons.2 ⟨differ, apart⟩⟩

end Tables

section Registry

variable {json : JsonFunctions} {db db' : Db}

/-- The tables after a record has replaced the registrations of its workspace. -/
def Db.register (db : Db) (workspace : String) (repositories : List RepositoryRecord) : Db :=
  { db with
    repositories := (repositories.map repositoryRow).foldl (put RepositoryRow.id) db.repositories
    checkouts := (repositories.map checkoutRow).foldl (put CheckoutRow.id) db.checkouts
    registrations := db.registrations ++ repositories.map (registrationRow workspace) }

theorem registerRepositories_eq_ok {workspace : String} {repositories : List RepositoryRecord}
    (wf : db.WellFormed json)
    (h : repositories.foldlM (registerRepository json workspace) db = .ok db') :
    db' = db.register workspace repositories ∧ db'.WellFormed json := by
  induction repositories generalizing db with
  | nil =>
    obtain rfl := Except.ok.inj h
    exact ⟨by simp [Db.register], wf⟩
  | cons repository repositories ih =>
    obtain ⟨db₁, step, rest⟩ := bind_eq_ok.mp h
    obtain ⟨_, repositoryStep, step⟩ := bind_eq_ok.mp step
    obtain ⟨_, checkoutStep, step⟩ := bind_eq_ok.mp step
    obtain ⟨rfl, -⟩ := Db.checked_eq_ok.mp repositoryStep
    obtain ⟨rfl, -⟩ := Db.checked_eq_ok.mp checkoutStep
    obtain ⟨rfl, wf₁⟩ := Db.checked_eq_ok.mp step
    obtain ⟨rfl, wf'⟩ := ih wf₁ rest
    exact ⟨by simp [Db.register], wf'⟩

theorem upsertRegistry_eq_ok {record : WorkspaceRecord} (h : upsertRegistry json record db = .ok db') :
    db' = Db.register { db with
        workspaces := put WorkspaceRow.name db.workspaces (workspaceRow record)
        registrations := db.registrations.filter fun row => row.workspace ≠ record.name }
      record.name record.repositories ∧ db'.WellFormed json := by
  obtain ⟨_, named, rest⟩ := bind_eq_ok.mp h
  obtain ⟨_, cleared, rest⟩ := bind_eq_ok.mp rest
  obtain ⟨rfl, -⟩ := Db.checked_eq_ok.mp named
  obtain ⟨rfl, wf⟩ := Db.checked_eq_ok.mp cleared
  exact registerRepositories_eq_ok wf rest

end Registry

section Anchored

/-- A record registers the repository and the checkout that a row names. -/
def Registers (record : WorkspaceRecord) (repoId : RepoId) (checkoutId : Option CheckoutId) : Prop :=
  repoId ∈ record.repositories.map (·.id) ∧
    ∀ id ∈ checkoutId, id ∈ record.repositories.map (·.checkoutId)

instance (record : WorkspaceRecord) (repoId : RepoId) (checkoutId : Option CheckoutId) :
    Decidable (Registers record repoId checkoutId) := inferInstanceAs (Decidable (_ ∧ _))

/-- A record gives each of its checkouts one repository, the one that the other workspaces
give it. -/
@[mk_iff] structure OwnsCheckouts (db : Db) (record : WorkspaceRecord) : Prop where
  inside : ∀ one ∈ record.repositories, ∀ other ∈ record.repositories,
    one.checkoutId = other.checkoutId → one.id = other.id
  across : ∀ repository ∈ record.repositories, ∀ row ∈ db.registrations,
    row.workspace ≠ record.name → row.checkoutId = repository.checkoutId →
      row.repoId = repository.id

instance (db : Db) (record : WorkspaceRecord) : Decidable (OwnsCheckouts db record) :=
  decidable_of_iff' _ (ownsCheckouts_iff db record)

/-- Every row names what its own workspace registers, and registrations agree with the
repository of their checkout. -/
structure Anchored (db : Db) : Prop where
  holders : ∀ holder ∈ db.holders,
    (∃ row ∈ db.registrations, row.workspace = holder.workspace ∧ row.repoId = holder.repoId) ∧
    ∀ id ∈ holder.checkoutId,
      ∃ row ∈ db.registrations, row.workspace = holder.workspace ∧ row.checkoutId = id
  checkouts : ∀ row ∈ db.registrations, ∀ checkout ∈ db.checkouts,
    checkout.id = row.checkoutId → checkout.repoId = row.repoId

variable {db db' : Db}

theorem Db.mem_holders_without (workspace : String) : ∀ holder ∈ (db.without workspace).holders,
    holder ∈ db.holders ∧ holder.workspace ≠ workspace := by
  obtain ⟨freshness, runs, fingerprints, batches⟩ :=
    Db.forall_holders.1 fun _ (mem : _ ∈ db.holders) => mem
  refine Db.forall_holders.2 ⟨fun row mem => ?_, fun row mem => ?_, fun row mem => ?_,
    fun row mem => ?_⟩ <;> obtain ⟨stored, other⟩ := List.mem_filter.1 mem
  · exact ⟨freshness row stored, of_decide_eq_true other⟩
  · exact ⟨runs row stored, of_decide_eq_true other⟩
  · exact ⟨fingerprints row stored, of_decide_eq_true other⟩
  · exact ⟨batches row stored, of_decide_eq_true other⟩

theorem Anchored.without (anchored : Anchored db) (workspace : String) :
    Anchored (db.without workspace) where
  holders holder mem := by
    obtain ⟨listed, other⟩ := Db.mem_holders_without workspace holder mem
    have remains : ∀ row ∈ db.registrations, row.workspace = holder.workspace →
        row ∈ (db.without workspace).registrations := fun row mem same =>
      List.mem_filter.2 ⟨mem, decide_eq_true (same ▸ other)⟩
    obtain ⟨⟨row, registered, same, repository⟩, checkouts⟩ := anchored.holders holder listed
    refine ⟨⟨row, remains row registered same, same, repository⟩, fun id named => ?_⟩
    obtain ⟨row, registered, same, checkout⟩ := checkouts id named
    exact ⟨row, remains row registered same, same, checkout⟩
  checkouts row mem := anchored.checkouts row (List.mem_of_mem_filter mem)

theorem Anchored.collected (anchored : Anchored db) : Anchored db.collected where
  holders := anchored.holders
  checkouts row mem checkout listed := anchored.checkouts row mem checkout
    (List.mem_of_mem_filter (List.mem_of_mem_filter listed))

theorem Anchored.covered (anchored : Anchored db) : db.Covered where
  holders holder mem := by
    obtain ⟨⟨row, registered, -, repository⟩, checkouts⟩ := anchored.holders holder mem
    constructor
    · rw [← repository]
      exact Db.registersRepository_of_mem registered
    · intro id named
      obtain ⟨row, registered, -, rfl⟩ := checkouts id named
      exact Db.registersCheckout_of_mem registered
  checkouts row mem checkout listed same := by
    rw [anchored.checkouts row mem checkout listed same]
    exact Db.registersRepository_of_mem mem

theorem Anchored.register (anchored : Anchored db) {record : WorkspaceRecord}
    (owns : OwnsCheckouts db record)
    (registrations : db'.registrations =
      (db.registrations.filter fun row => row.workspace ≠ record.name) ++
        record.repositories.map (registrationRow record.name))
    (checkouts : db'.checkouts =
      (record.repositories.map checkoutRow).foldl (put CheckoutRow.id) db.checkouts)
    (holders : ∀ holder ∈ db'.holders,
      (holder ∈ db.holders ∧ holder.workspace ≠ record.name) ∨
        (holder.workspace = record.name ∧ Registers record holder.repoId holder.checkoutId)) :
    Anchored db' where
  holders holder mem := by
    rw [registrations]
    rcases holders holder mem with ⟨stored, other⟩ | ⟨own, repository, checkouts⟩
    · obtain ⟨⟨row, registered, same, repository⟩, checkouts⟩ := anchored.holders holder stored
      have remains : ∀ row ∈ db.registrations, row.workspace = holder.workspace →
          row ∈ db.registrations.filter fun row => row.workspace ≠ record.name := fun row mem same =>
        List.mem_filter.2 ⟨mem, decide_eq_true (same ▸ other)⟩
      refine ⟨⟨row, List.mem_append_left _ (remains row registered same), same, repository⟩, ?_⟩
      intro id named
      obtain ⟨row, registered, same, checkout⟩ := checkouts id named
      exact ⟨row, List.mem_append_left _ (remains row registered same), same, checkout⟩
    · rw [own]
      constructor
      · obtain ⟨entry, listed, same⟩ := List.mem_map.1 repository
        exact ⟨_, List.mem_append_right _ (List.mem_map.2 ⟨entry, listed, rfl⟩), rfl, same⟩
      · intro id named
        obtain ⟨entry, listed, same⟩ := List.mem_map.1 (checkouts id named)
        exact ⟨_, List.mem_append_right _ (List.mem_map.2 ⟨entry, listed, rfl⟩), rfl, same⟩
  checkouts row mem checkout listed same := by
    rw [registrations] at mem
    rw [checkouts] at listed
    have placed := mem_foldl_put listed
    rcases List.mem_append.1 mem with kept | added
    · obtain ⟨stored, other⟩ := List.mem_filter.1 kept
      rcases placed with written | ⟨old, -⟩
      · obtain ⟨entry, inRecord, rfl⟩ := List.mem_map.1 written
        exact (owns.across entry inRecord row stored (of_decide_eq_true other) same.symm).symm
      · exact anchored.checkouts row stored checkout old same
    · obtain ⟨entry, inRecord, rfl⟩ := List.mem_map.1 added
      rcases placed with written | ⟨-, apart⟩
      · obtain ⟨other, inRecord', rfl⟩ := List.mem_map.1 written
        exact owns.inside other inRecord' entry inRecord same
      · exact absurd same (apart (checkoutRow entry) (List.mem_map.2 ⟨entry, inRecord, rfl⟩))

end Anchored

section Publication

variable {Digest : Type} {lib : Libraries Digest} {db db' : Db}

def holderTables (db : Db) :=
  (db.registrations, db.checkouts, db.freshness, db.runs, db.fingerprints, db.batches)

variable [DecidableEq Digest]

theorem publishGraph_view {input : PublicationInput} {V : Type} {view : Db → V}
    (blind : ∀ db nodes evidence edges edgeEvidence manualLinks, view { db with
      nodes := nodes, evidence := evidence, edges := edges, edgeEvidence := edgeEvidence,
      manualLinks := manualLinks } = view db)
    (h : publishGraph lib input db = .ok db') : view db' = view db := by
  obtain ⟨⟨db₁, removedEvidence⟩, evidenceStep, h⟩ := bind_eq_ok.mp h
  obtain ⟨⟨db₂, removedNodes⟩, nodeStep, h⟩ := bind_eq_ok.mp h
  obtain ⟨db₃, edgeStep, h⟩ := bind_eq_ok.mp h
  obtain ⟨db₄, manualStep, h⟩ := bind_eq_ok.mp h
  obtain ⟨db₅, nodeSweep, evidenceSweep⟩ := bind_eq_ok.mp h
  have evidence : view db₁ = view db := by
    obtain ⟨⟨_, left⟩, passed, rest⟩ := bind_eq_ok.mp evidenceStep
    obtain ⟨rfl, -⟩ := Prod.mk.inj (Except.ok.inj rest)
    exact reconcile_view _ _ passed fun db _ _ _ step => checked_view step (blind db _ _ _ _ _)
  have nodes : view db₂ = view db₁ := by
    obtain ⟨⟨_, left⟩, passed, rest⟩ := bind_eq_ok.mp nodeStep
    obtain ⟨rfl, -⟩ := Prod.mk.inj (Except.ok.inj rest)
    exact reconcile_view _ _ passed fun db _ _ _ step => checked_view step (blind db _ _ _ _ _)
  have edges : view db₃ = view db₂ := by
    obtain ⟨⟨changed, left⟩, -, rest⟩ := bind_eq_ok.mp edgeStep
    obtain ⟨cleared, deleted, written⟩ := bind_eq_ok.mp rest
    refine (foldlM_view written fun db edge _ step => ?_).trans
      (foldlM_view deleted fun db _ _ step => checked_view step (blind db _ _ _ _ _))
    obtain ⟨_, gone, step⟩ := bind_eq_ok.mp step
    obtain ⟨_, inserted, cited⟩ := bind_eq_ok.mp step
    refine (foldlM_view cited fun db _ _ step =>
      checked_view step (blind db _ _ _ _ _)).trans
        ((checked_view inserted (blind _ _ _ _ _ _)).trans ?_)
    split at gone
    · exact checked_view gone (blind _ _ _ _ _ _)
    · obtain rfl := Except.ok.inj gone
      rfl
  calc view db' = view db₅ := foldlM_view evidenceSweep fun db _ _ step =>
        checked_view step (blind db _ _ _ _ _)
    _ = view db₄ := foldlM_view nodeSweep fun db _ _ step =>
        checked_view step (blind db _ _ _ _ _)
    _ = view db₃ := replaceManualLinks_view (fun db _ => blind db _ _ _ _ _) manualStep
    _ = view db₂ := edges
    _ = view db₁ := nodes
    _ = view db := evidence

end Publication

section Owned

/-! A table of which one scope is rewritten: the rows outside are old ones, the
rows inside have keys that the writer knows. -/

variable {Row K : Type} {key : Row → String × K} {scope : String}

def Owned (key : Row → String × K) (scope : String) (before : List Row) (known : K → Prop)
    (after : List Row) : Prop :=
  ∀ row ∈ after, (row ∈ before ∧ (key row).1 ≠ scope) ∨ ((key row).1 = scope ∧ known (key row).2)

variable {before after : List Row} {known : K → Prop}

theorem Owned.refl (table : List Row) :
    Owned key scope table (fun k => (scope, k) ∈ table.map key) table := by
  intro row mem
  by_cases inside : (key row).1 = scope
  · have split : key row = (scope, (key row).2) := Prod.ext inside rfl
    exact .inr ⟨inside, List.mem_map.2 ⟨row, mem, split⟩⟩
  · exact .inl ⟨mem, inside⟩

theorem Owned.mono {wider : K → Prop} (owned : Owned key scope before known after)
    (implies : ∀ k, known k → wider k) : Owned key scope before wider after :=
  fun row mem => (owned row mem).imp_right fun inside => ⟨inside.1, implies _ inside.2⟩

theorem Owned.delete (owned : Owned key scope before known after) {gone : List K}
    {kept : Row → Bool} (keeps : ∀ row, kept row = true → key row ∉ gone.map fun k => (scope, k)) :
    Owned key scope before (fun k => known k ∧ k ∉ gone) (after.filter kept) := by
  intro row mem
  obtain ⟨stored, stays⟩ := List.mem_filter.1 mem
  refine (owned row stored).imp_right fun inside => ⟨inside.1, inside.2, fun deleted => ?_⟩
  have split : (scope, (key row).2) = key row := Prod.ext inside.1.symm rfl
  exact keeps row stays (List.mem_map.2 ⟨(key row).2, deleted, split⟩)

variable [DecidableEq K]

theorem Owned.put (owned : Owned key scope before known after) {row : Row} {k : K}
    (place : key row = (scope, k)) (new : known k) :
    Owned key scope before known (put key after row) := by
  intro other mem
  rcases mem_put mem with rfl | old
  · rw [place]
    exact .inr ⟨rfl, new⟩
  · exact owned other old

end Owned

section Artifacts

structure TableOf (Row : Type) where
  get : Db → List Row
  set : Db → List Row → Db
  get_set : ∀ db table, get (set db table) = table
  set_set : ∀ db table table', set (set db table) table' = set db table'
  set_get : ∀ db, set db (get db) = db

namespace TableOf

variable {Row Item : Type} (t : TableOf Row) {key : Row → String × ArtifactKey} {workspace : String}
  {itemKey : Item → ArtifactKey} (rowOf : Item → Row) {db db' : Db} {items : List Item}

theorem writes_owned (rowKey : ∀ item, key (rowOf item) = (workspace, itemKey item))
    {write : Db → Item → Except StoreError Db} (writes : ∀ db item db', write db item = .ok db' →
      db' = t.set db (put key (t.get db) (rowOf item)))
    (h : items.foldlM write db = .ok db') :
    ∃ table, db' = t.set db table ∧ Owned key workspace (t.get db)
      (fun k => (workspace, k) ∈ (t.get db).map key ∨ k ∈ items.map itemKey) table := by
  refine ⟨_, foldlM_put key t.get t.set t.get_set t.set_set t.set_get writes h, ?_⟩
  clear h writes
  have start : Owned key workspace (t.get db)
      (fun k => (workspace, k) ∈ (t.get db).map key ∨ k ∈ items.map itemKey) (t.get db) :=
    (Owned.refl (t.get db)).mono fun _ known => .inl known
  suffices folded : ∀ rest : List Item, rest ⊆ items → ∀ table, Owned key workspace (t.get db)
      (fun k => (workspace, k) ∈ (t.get db).map key ∨ k ∈ items.map itemKey) table →
      Owned key workspace (t.get db)
        (fun k => (workspace, k) ∈ (t.get db).map key ∨ k ∈ items.map itemKey)
        ((rest.map rowOf).foldl (put key) table) from
    folded items (List.Subset.refl _) _ start
  intro rest
  induction rest with
  | nil => exact fun _ _ owned => owned
  | cons item rest ih =>
    intro inside table owned
    have listed : item ∈ items := inside List.mem_cons_self
    exact ih (fun other mem => inside (List.mem_cons_of_mem _ mem)) _
      (owned.put (rowKey item) (.inr (List.mem_map_of_mem listed)))

theorem deletes_owned {before : List Row} {known : ArtifactKey → Prop}
    (owned : Owned key workspace before known (t.get db))
    {delete : Db → ArtifactKey → Except StoreError Db}
    (deletes : ∀ db k db', delete db k = .ok db' →
      db' = t.set db ((t.get db).filter fun row => key row ≠ (workspace, k)))
    {keys : List ArtifactKey} (h : keys.foldlM delete db = .ok db') :
    ∃ table, db' = t.set db table ∧
      Owned key workspace before (fun k => known k ∧ k ∉ keys) table := by
  refine ⟨_, foldlM_delete key (fun k => (workspace, k)) t.get t.set t.get_set t.set_set t.set_get
    deletes h, owned.delete fun row stays => ?_⟩
  simpa only [decide_eq_true_eq] using stays

variable {Digest : Type} [DecidableEq Digest]

theorem swept_owned (digestRow : Row → Digest) {digest : Item → Except StoreError Digest}
    (rowKey : ∀ item, key (rowOf item) = (workspace, itemKey item))
    {write : Db → Option Digest → Item → Except StoreError Db}
    (writes : ∀ db previous item db', write db previous item = .ok db' →
      db' = t.set db (put key (t.get db) (rowOf item)))
    {delete : Db → ArtifactKey → Except StoreError Db}
    (deletes : ∀ db k db', delete db k = .ok db' →
      db' = t.set db ((t.get db).filter fun row => key row ≠ (workspace, k)))
    {db₁ : Db} {left : List (ArtifactKey × Digest)}
    (passed : reconcile itemKey digest write items (load key digestRow workspace (t.get db)) db =
      .ok (db₁, left))
    (swept : (sortedArtifacts left).foldlM delete db₁ = .ok db') :
    ∃ table, db' = t.set db table ∧
      Owned key workspace (t.get db) (· ∈ items.map itemKey) table := by
  -- rows inside have the key of a candidate or of an entry that is still to be taken
  have passes := reconcile_rule itemKey digest (fun stored s => ∃ table, s = t.set db table ∧
      Owned key workspace (t.get db)
        (fun k => k ∈ items.map itemKey ∨ k ∈ stored.map Prod.fst) table)
    (fun item mem stored s kept => ?_) (fun item mem stored s previous s' kept step => ?_)
    passed ⟨t.get db, (t.set_get db).symm, (Owned.refl (t.get db)).mono fun k known =>
      .inr ((mem_load key _ workspace).2 known)⟩
  · obtain ⟨table, rfl, owned⟩ := passes
    rw [← t.get_set db table] at owned
    obtain ⟨rest, rfl, kept⟩ := t.deletes_owned owned deletes swept
    refine ⟨rest, t.set_set db table rest, kept.mono fun k known => ?_⟩
    rcases known.1 with candidate | uncovered
    · exact candidate
    · exact absurd ((mem_sortBy _).2 uncovered) known.2
  · obtain ⟨table, is, owned⟩ := kept
    refine ⟨table, is, owned.mono fun k known => ?_⟩
    rcases known with candidate | entry
    · exact .inl candidate
    · obtain ⟨pair, listed, rfl⟩ := List.mem_map.1 entry
      by_cases same : pair.1 = itemKey item
      · rw [same]
        exact .inl (List.mem_map_of_mem mem)
      · exact .inr (List.mem_map.2 ⟨pair, List.mem_filter.2 ⟨listed, decide_eq_true same⟩, rfl⟩)
  · obtain ⟨table, rfl, owned⟩ := kept
    refine ⟨put key table (rowOf item), ?_, owned.put (rowKey item) (.inl (List.mem_map_of_mem mem))⟩
    rw [writes _ _ _ _ step, t.get_set, t.set_set]

end TableOf

def fingerprintTable : TableOf FingerprintRow :=
  ⟨Db.fingerprints, fun db table => { db with fingerprints := table }, fun _ _ => rfl,
    fun _ _ _ => rfl, fun _ => rfl⟩

def batchTable : TableOf BatchRow :=
  ⟨Db.batches, fun db table => { db with batches := table }, fun _ _ => rfl, fun _ _ _ => rfl,
    fun _ => rfl⟩

/-- The artifacts whose fingerprints a publication leaves in its workspace. -/
def PublicationInput.keptFingerprints (input : PublicationInput) (db : Db) : List ArtifactKey :=
  match input.artifactDelta with
  | none => input.fingerprints.map artifactKey
  | some delta =>
    ((db.fingerprints.filter fun row => row.workspace = input.workspace.name).map (·.artifact) ++
      delta.upsertedFingerprints.map artifactKey).filter (· ∉ delta.removed.map changeKey)

/-- The artifacts whose extractor batches a publication leaves in its workspace. -/
def PublicationInput.keptBatches (input : PublicationInput) (db : Db) : List ArtifactKey :=
  match input.artifactDelta with
  | none => input.extractorBatches.map fun batch => artifactKey batch.source
  | some delta =>
    ((db.batches.filter fun row => row.workspace = input.workspace.name).map (·.artifact) ++
      delta.upsertedBatches.map fun batch => artifactKey batch.source).filter
        (· ∉ delta.removed.map changeKey)

variable {Digest : Type} {lib : Libraries Digest} {workspace : String} {db db' : Db}

theorem writeFingerprint_eq_ok {fingerprint : ArtifactFingerprint}
    (h : writeFingerprint lib workspace db fingerprint = .ok db') :
    db' = { db with
      fingerprints := put FingerprintRow.key db.fingerprints (fingerprintRow workspace fingerprint) } := by
  obtain ⟨_, -, stored⟩ := bind_eq_ok.mp h
  exact (Db.checked_eq_ok.mp stored).1

theorem writeBatch_eq_ok {batch : StoredExtractorBatch}
    (h : writeBatch lib workspace db batch = .ok db') :
    db' = { db with
      batches := put BatchRow.key db.batches (batchRow workspace (payloadHash lib batch) batch) } := by
  obtain ⟨_, -, rest⟩ := bind_eq_ok.mp h
  obtain ⟨_, -, stored⟩ := bind_eq_ok.mp rest
  exact (Db.checked_eq_ok.mp stored).1

variable [DecidableEq Digest] {input : PublicationInput}

theorem publishArtifacts_owned (h : publishArtifacts lib input db = .ok db') :
    ∃ fingerprints batches, db' = { db with fingerprints := fingerprints, batches := batches } ∧
      Owned FingerprintRow.key input.workspace.name db.fingerprints (· ∈ input.keptFingerprints db)
        fingerprints ∧
      Owned BatchRow.key input.workspace.name db.batches (· ∈ input.keptBatches db) batches := by
  unfold publishArtifacts at h
  cases noDelta : input.artifactDelta with
  | none =>
    rw [noDelta] at h
    obtain ⟨db₁, first, second⟩ := bind_eq_ok.mp h
    obtain ⟨⟨_, left⟩, passed, swept⟩ := bind_eq_ok.mp first
    obtain ⟨⟨_, left'⟩, passed', swept'⟩ := bind_eq_ok.mp second
    obtain ⟨fingerprints, rfl, owned⟩ := fingerprintTable.swept_owned
      (fingerprintRow input.workspace.name) _ (fun _ => rfl)
      (fun _ _ _ _ step => writeFingerprint_eq_ok step)
      (fun _ _ _ step => (Db.checked_eq_ok.mp step).1) passed swept
    obtain ⟨batches, rfl, owned'⟩ : ∃ table,
        db' = batchTable.set (fingerprintTable.set db fingerprints) table ∧
          Owned BatchRow.key input.workspace.name db.batches
            (· ∈ input.extractorBatches.map fun batch => artifactKey batch.source) table :=
      batchTable.swept_owned
      (fun batch => batchRow input.workspace.name (payloadHash lib batch) batch)
      (fun row => digestOf lib (batchParts row.pathDisplay row.contentHash row.sizeBytes
        row.extractorVersion row.budgetFingerprint row.sourceWasLossy row.outputCount
        row.payloadHash))
      (fun _ => rfl) (fun _ _ _ _ step => writeBatch_eq_ok step)
      (fun _ _ _ step => (Db.checked_eq_ok.mp step).1) passed' swept'
    refine ⟨fingerprints, batches, rfl, owned.mono fun k known => ?_, owned'.mono fun k known => ?_⟩
    · rw [PublicationInput.keptFingerprints, noDelta]
      exact known
    · rw [PublicationInput.keptBatches, noDelta]
      exact known
  | some delta =>
    rw [noDelta] at h
    obtain ⟨db₁, first, h⟩ := bind_eq_ok.mp h
    obtain ⟨db₂, second, h⟩ := bind_eq_ok.mp h
    obtain ⟨db₃, third, fourth⟩ := bind_eq_ok.mp h
    obtain ⟨written, rfl, owned⟩ := fingerprintTable.writes_owned
      (fingerprintRow input.workspace.name) (fun _ => rfl)
      (fun _ _ _ step => writeFingerprint_eq_ok step) first
    obtain ⟨written', rfl, owned'⟩ := batchTable.writes_owned
      (fun batch => batchRow input.workspace.name (payloadHash lib batch) batch) (fun _ => rfl)
      (fun _ _ _ step => writeBatch_eq_ok step) second
    obtain ⟨fingerprints, rfl, kept⟩ := fingerprintTable.deletes_owned owned
      (fun _ _ _ step => (Db.checked_eq_ok.mp step).1) third
    obtain ⟨batches, rfl, kept'⟩ := batchTable.deletes_owned owned'
      (fun _ _ _ step => (Db.checked_eq_ok.mp step).1) fourth
    have inside : ∀ {Row : Type} (key : Row → String × ArtifactKey) (table : List Row) (k : ArtifactKey),
        (input.workspace.name, k) ∈ table.map key →
          k ∈ (table.filter fun row => (key row).1 = input.workspace.name).map fun row => (key row).2 := by
      intro Row key table k mem
      obtain ⟨row, stored, same⟩ := List.mem_map.1 mem
      refine List.mem_map.2 ⟨row, List.mem_filter.2 ⟨stored, ?_⟩, congrArg Prod.snd same⟩
      exact decide_eq_true (congrArg Prod.fst same)
    refine ⟨fingerprints, batches, rfl, kept.mono fun k known => ?_, kept'.mono fun k known => ?_⟩
    · rw [PublicationInput.keptFingerprints, noDelta]
      refine List.mem_filter.2 ⟨List.mem_append.2 (known.1.imp_left ?_), decide_eq_true known.2⟩
      exact inside FingerprintRow.key db.fingerprints k
    · rw [PublicationInput.keptBatches, noDelta]
      refine List.mem_filter.2 ⟨List.mem_append.2 (known.1.imp_left ?_), decide_eq_true known.2⟩
      exact inside BatchRow.key db.batches k

end Artifacts

section Reports

variable {Digest : Type} {lib : Libraries Digest} {workspace : String} {db db' : Db}

theorem insertRun_eq_ok {run : ExtractorRun} (h : insertRun lib workspace db run = .ok db') :
    ∃ row : ExtractorRunRow, row.workspace = workspace ∧ row.repoId = run.repoId ∧
      row.checkoutId = some run.checkoutId ∧ db' = { db with runs := db.runs ++ [row] } := by
  obtain ⟨_, -, rest⟩ := bind_eq_ok.mp h
  obtain ⟨_, -, rest⟩ := bind_eq_ok.mp rest
  obtain ⟨_, -, rest⟩ := bind_eq_ok.mp rest
  obtain ⟨_, -, inserted⟩ := bind_eq_ok.mp rest
  exact ⟨_, rfl, rfl, rfl, (Db.checked_eq_ok.mp inserted).1⟩

def RunOf (workspace : String) (runs : List ExtractorRun) (row : ExtractorRunRow) : Prop :=
  row.workspace = workspace ∧
    ∃ run ∈ runs, row.repoId = run.repoId ∧ row.checkoutId = some run.checkoutId

theorem insertRuns_eq_ok {runs : List ExtractorRun} (h : runs.foldlM (insertRun lib workspace) db = .ok db') :
    ∃ rows, db' = { db with runs := db.runs ++ rows } ∧ ∀ row ∈ rows, RunOf workspace runs row := by
  induction runs generalizing db with
  | nil =>
    obtain rfl := Except.ok.inj h
    exact ⟨[], by simp, by simp⟩
  | cons run runs ih =>
    obtain ⟨db₁, step, rest⟩ := bind_eq_ok.mp h
    obtain ⟨row, own, repository, checkout, rfl⟩ := insertRun_eq_ok step
    obtain ⟨rows, rfl, each⟩ := ih rest
    refine ⟨row :: rows, by simp, List.forall_mem_cons.2 ⟨?_, fun other mem => ?_⟩⟩
    · exact ⟨own, run, List.mem_cons_self, repository, checkout⟩
    · obtain ⟨inside, known, listed, names⟩ := each other mem
      exact ⟨inside, known, List.mem_cons_of_mem _ listed, names⟩

theorem replaceExtractorRuns_eq_ok {runs : List ExtractorRun}
    (h : replaceExtractorRuns lib workspace runs db = .ok db') :
    ∃ rows, db' = { db with
      runs := (db.runs.filter fun row => row.workspace ≠ workspace) ++ rows } ∧
      ∀ row ∈ rows, RunOf workspace runs row := by
  obtain ⟨_, cleared, inserted⟩ := bind_eq_ok.mp h
  obtain ⟨rfl, -⟩ := Db.checked_eq_ok.mp cleared
  exact insertRuns_eq_ok inserted

theorem insertFreshness_eq_ok {record : WorkspaceRecord} {gaps : List RepositoryCoverageGap}
    {repositories : List RepositoryRecord}
    (h : repositories.foldlM (fun db repository =>
      { db with freshness := db.freshness ++ [freshnessRow record gaps repository]
        }.checked lib.json) db = .ok db') :
    db' = { db with freshness := db.freshness ++ repositories.map (freshnessRow record gaps) } := by
  induction repositories generalizing db with
  | nil =>
    obtain rfl := Except.ok.inj h
    simp
  | cons repository repositories ih =>
    obtain ⟨_, step, rest⟩ := bind_eq_ok.mp h
    obtain ⟨rfl, -⟩ := Db.checked_eq_ok.mp step
    rw [ih rest]
    simp

theorem replaceFreshness_eq_ok {record : WorkspaceRecord} {gaps : List RepositoryCoverageGap}
    (h : replaceFreshness lib record gaps db = .ok db') :
    ∃ capabilities, db' = { db with
      freshness := (db.freshness.filter fun row => row.workspace ≠ record.name) ++
        record.repositories.map (freshnessRow record gaps)
      capabilities := capabilities } := by
  obtain ⟨_, cleared, rest⟩ := bind_eq_ok.mp h
  obtain ⟨_, inserted, pruned⟩ := bind_eq_ok.mp rest
  obtain ⟨rfl, -⟩ := Db.checked_eq_ok.mp cleared
  obtain rfl := insertFreshness_eq_ok inserted
  obtain ⟨rfl, -⟩ := Db.checked_eq_ok.mp pruned
  exact ⟨_, rfl⟩

end Reports

section Publications

/-- Everything a publication leaves in its workspace is of the repositories and checkouts
that its record registers. -/
@[mk_iff] structure PublishesOwn (db : Db) (input : PublicationInput) : Prop where
  runs : ∀ run ∈ input.extractorRuns, Registers input.workspace run.repoId (some run.checkoutId)
  artifacts : ∀ key ∈ input.keptFingerprints db ++ input.keptBatches db,
    Registers input.workspace key.repoId (some key.checkoutId)

instance (db : Db) (input : PublicationInput) : Decidable (PublishesOwn db input) :=
  decidable_of_iff' _ (publishesOwn_iff db input)

/-- A saved record still registers what the stored rows of its workspace name, a published
record what is published; both agree with the others on the repository of a checkout. -/
def Settled (db : Db) : Operation → Prop
  | .save record => OwnsCheckouts db record ∧ ∀ holder ∈ db.holders,
      holder.workspace = record.name → Registers record holder.repoId holder.checkoutId
  | .publish input => OwnsCheckouts db input.workspace ∧ PublishesOwn db input
  | .remove _ => True

instance (db : Db) (operation : Operation) : Decidable (Settled db operation) := by
  cases operation <;> unfold Settled <;> infer_instance

variable {Digest : Type} [DecidableEq Digest] {lib : Libraries Digest} {db db' : Db}
  {input : PublicationInput}

theorem publishCurrentGraph_holders (own : PublishesOwn db input)
    (h : publishCurrentGraph lib input db = .ok db') :
    db'.registrations = db.registrations ∧ db'.checkouts = db.checkouts ∧
      ∀ holder ∈ db'.holders,
        (holder ∈ db.holders ∧ holder.workspace ≠ input.workspace.name) ∨
          (holder.workspace = input.workspace.name ∧
            Registers input.workspace holder.repoId holder.checkoutId) := by
  obtain ⟨db₁, cacheStep, h⟩ := bind_eq_ok.mp h
  obtain ⟨db₂, snapshotStep, h⟩ := bind_eq_ok.mp h
  obtain ⟨db₃, graphStep, h⟩ := bind_eq_ok.mp h
  obtain ⟨db₄, artifactStep, h⟩ := bind_eq_ok.mp h
  obtain ⟨db₅, runStep, h⟩ := bind_eq_ok.mp h
  obtain ⟨db₆, freshnessStep, h⟩ := bind_eq_ok.mp h
  obtain ⟨db₇, httpStep, h⟩ := bind_eq_ok.mp h
  obtain ⟨db₈, communityStep, h⟩ := bind_eq_ok.mp h
  have before : holderTables db₃ = holderTables db :=
    calc holderTables db₃ = holderTables db₂ := publishGraph_view (fun _ _ _ _ _ _ => rfl) graphStep
      _ = holderTables db₁ := checked_view snapshotStep rfl
      _ = holderTables db := checked_view cacheStep rfl
  have after : holderTables db' = holderTables db₆ :=
    calc holderTables db' = holderTables db₈ := checked_view h rfl
      _ = holderTables db₇ := replaceCommunities_view (fun _ _ _ _ => rfl) communityStep
      _ = holderTables db₆ := replaceHttpLinks_view (fun _ _ => rfl) (fun _ _ => rfl) httpStep
  obtain ⟨fingerprints, batches, rfl, ownedFingerprints, ownedBatches⟩ :=
    publishArtifacts_owned artifactStep
  obtain ⟨rows, rfl, eachRun⟩ := replaceExtractorRuns_eq_ok runStep
  obtain ⟨capabilities, rfl⟩ := replaceFreshness_eq_ok freshnessStep
  simp only [holderTables, Prod.mk.injEq] at before after
  obtain ⟨registrations, checkouts, freshness, runs, oldFingerprints, oldBatches⟩ := before
  obtain ⟨registrations', checkouts', freshness', runs', fingerprints', batches'⟩ := after
  have sameFingerprints : input.keptFingerprints db₃ = input.keptFingerprints db := by
    simp only [PublicationInput.keptFingerprints, oldFingerprints]
  have sameBatches : input.keptBatches db₃ = input.keptBatches db := by
    simp only [PublicationInput.keptBatches, oldBatches]
  rw [sameFingerprints, oldFingerprints] at ownedFingerprints
  rw [sameBatches, oldBatches] at ownedBatches
  obtain ⟨ofFreshness, ofRuns, ofFingerprints, ofBatches⟩ :=
    Db.forall_holders.1 fun _ (mem : _ ∈ db.holders) => mem
  refine ⟨registrations'.trans registrations, checkouts'.trans checkouts, Db.forall_holders.2
    ⟨fun row mem => ?_, fun row mem => ?_, fun row mem => ?_, fun row mem => ?_⟩⟩
  · rw [freshness', freshness] at mem
    rcases List.mem_append.1 mem with kept | added
    · obtain ⟨stored, other⟩ := List.mem_filter.1 kept
      exact .inl ⟨ofFreshness row stored, of_decide_eq_true other⟩
    · obtain ⟨repository, listed, rfl⟩ := List.mem_map.1 added
      refine .inr ⟨rfl, List.mem_map_of_mem listed, fun id named => ?_⟩
      rw [← Option.some.inj named]
      exact List.mem_map_of_mem listed
  · rw [runs', runs] at mem
    rcases List.mem_append.1 mem with kept | added
    · obtain ⟨stored, other⟩ := List.mem_filter.1 kept
      exact .inl ⟨ofRuns row stored, of_decide_eq_true other⟩
    · obtain ⟨inside, run, listed, repository, checkout⟩ := eachRun row added
      refine .inr ⟨inside, ?_⟩
      rw [repository, checkout]
      exact own.runs run listed
  · rw [fingerprints'] at mem
    rcases ownedFingerprints row mem with ⟨stored, other⟩ | ⟨inside, kept⟩
    · exact .inl ⟨ofFingerprints row stored, other⟩
    · exact .inr ⟨inside, own.artifacts _ (List.mem_append_left _ kept)⟩
  · rw [batches'] at mem
    rcases ownedBatches row mem with ⟨stored, other⟩ | ⟨inside, kept⟩
    · exact .inl ⟨ofBatches row stored, other⟩
    · exact .inr ⟨inside, own.artifacts _ (List.mem_append_right _ kept)⟩

def Sound (json : JsonFunctions) (db : Db) : Prop := db.WellFormed json ∧ Anchored db

theorem publish_sound (sound : Sound lib.json db) (settled : Settled db (.publish input))
    (h : publishSnapshot lib input db = .ok db') : Sound lib.json db' := by
  obtain ⟨_, -, h⟩ := bind_eq_ok.mp h
  obtain ⟨_, -, h⟩ := bind_eq_ok.mp h
  obtain ⟨_, -, h⟩ := bind_eq_ok.mp h
  obtain ⟨_, -, h⟩ := bind_eq_ok.mp h
  obtain ⟨db₁, registered, published⟩ := bind_eq_ok.mp h
  obtain ⟨is, -⟩ := upsertRegistry_eq_ok registered
  have own : PublishesOwn db₁ input := by
    rw [is]
    exact ⟨settled.2.runs, settled.2.artifacts⟩
  obtain ⟨registrations, checkouts, holders⟩ := publishCurrentGraph_holders own published
  rw [is] at registrations checkouts holders
  exact ⟨publishCurrentGraph_wellFormed published,
    sound.2.register settled.1 registrations checkouts holders⟩

end Publications

section Registry

variable {json : JsonFunctions} {db db' : Db} {workspace : String}

theorem sound_empty : Sound json {} := by
  refine ⟨⟨by decide, by decide, ?_⟩, by simp [Db.holders], by simp⟩
  constructor <;> simp

theorem save_sound {record : WorkspaceRecord} (sound : Sound json db)
    (settled : Settled db (.save record))
    (h : saveWorkspaceRegistry json record db = .ok db') : Sound json db' := by
  obtain ⟨is, wf⟩ := upsertRegistry_eq_ok h
  refine ⟨wf, sound.2.register settled.1 (by rw [is]; rfl) (by rw [is]; rfl) fun holder mem => ?_⟩
  have stored : holder ∈ db.holders := by
    rw [is] at mem
    exact mem
  by_cases own : holder.workspace = record.name
  · exact .inr ⟨own, settled.2 holder stored own⟩
  · exact .inl ⟨stored, own⟩

theorem deleteWorkspaces_unregistered (absent : workspace ∉ db.workspaceNames) :
    (db.deleteWorkspaces fun row => row.name = workspace) = db := by
  have others : ∀ row ∈ db.workspaces, row.name ≠ workspace := fun row mem same =>
    absent (List.mem_map.2 ⟨row, mem, same⟩)
  have none : (db.workspaces.filter fun row => row.name = workspace) = [] :=
    List.filter_eq_nil_iff.2 fun row mem => by simpa using others row mem
  have all : (db.workspaces.filter fun row => !decide (row.name = workspace)) = db.workspaces :=
    List.filter_eq_self.2 fun row mem => by simpa using others row mem
  unfold Db.deleteWorkspaces Db.deleteSnapshots Db.deleteNodes Db.deleteEdges Db.deleteEvidence
    Db.deleteCommunitySnapshots Db.deleteCommunities
  simp [none, all]

theorem remove_sound {removed : Bool} (sound : Sound json db)
    (h : removeWorkspace json workspace db = .ok (db', removed)) : Sound json db' := by
  obtain ⟨db₁, deleted, h⟩ := bind_eq_ok.mp h
  obtain ⟨db₂, unchecked, h⟩ := bind_eq_ok.mp h
  obtain ⟨db₃, collected, h⟩ := bind_eq_ok.mp h
  obtain ⟨rfl, -⟩ := Prod.mk.inj (Except.ok.inj h)
  obtain ⟨is, -⟩ := Db.checked_eq_ok.mp deleted
  obtain ⟨rfl, -⟩ := Db.checked_eq_ok.mp unchecked
  obtain ⟨rfl, wf⟩ := Db.checked_eq_ok.mp collected
  have anchored : Anchored db₁ := by
    rw [is]
    by_cases registered : workspace ∈ db.workspaceNames
    · rw [Db.deleteWorkspaces_eq sound.1.references registered]
      exact sound.2.without workspace
    · rw [deleteWorkspaces_unregistered registered]
      exact sound.2
  exact ⟨wf, anchored.collected⟩

end Registry

section Runs

variable {Digest : Type} [DecidableEq Digest] {lib : Libraries Digest} {db db' : Db}
  {operation : Operation}

theorem operate_wellFormed (step : operate lib db operation = some db') :
    db'.WellFormed lib.json := by
  cases operation with
  | save record => exact (upsertRegistry_eq_ok (toOption_eq_some.1 step)).2
  | publish input =>
    obtain ⟨_, -, h⟩ := bind_eq_ok.mp (toOption_eq_some.1 step)
    obtain ⟨_, -, h⟩ := bind_eq_ok.mp h
    obtain ⟨_, -, h⟩ := bind_eq_ok.mp h
    obtain ⟨_, -, h⟩ := bind_eq_ok.mp h
    obtain ⟨_, -, published⟩ := bind_eq_ok.mp h
    exact publishCurrentGraph_wellFormed published
  | remove workspace =>
    obtain ⟨result, removed, same⟩ := Option.map_eq_some_iff.1 step
    obtain ⟨_, -, h⟩ := bind_eq_ok.mp (toOption_eq_some.1 removed)
    obtain ⟨_, -, h⟩ := bind_eq_ok.mp h
    obtain ⟨_, collected, h⟩ := bind_eq_ok.mp h
    obtain ⟨rfl, wf⟩ := Db.checked_eq_ok.mp collected
    obtain rfl := Except.ok.inj h
    rw [← same]
    exact wf

theorem operate_sound (sound : Sound lib.json db) (settled : Settled db operation)
    (step : operate lib db operation = some db') : Sound lib.json db' := by
  cases operation with
  | save record => exact save_sound sound settled (toOption_eq_some.1 step)
  | publish input => exact publish_sound sound settled (toOption_eq_some.1 step)
  | remove workspace =>
    obtain ⟨result, removed, same⟩ := Option.map_eq_some_iff.1 step
    rw [← same]
    exact remove_sound sound (toOption_eq_some.1 removed)

/-- After any run a registered workspace can be removed without the others exactly when what is
left is covered; after a run of settled steps every one can. -/
theorem removal_isolated_in_runs (lib : Libraries Digest) {operations : List Operation} {db : Db}
    (ran : run (operate lib) {} operations = some db) :
    (∀ workspace ∈ db.workspaceNames,
      (Isolated lib.json workspace db ↔ (db.without workspace).Covered)) ∧
    (Meets (operate lib) Settled {} operations →
      ∀ workspace ∈ db.workspaceNames, Isolated lib.json workspace db) := by
  constructor
  · have wf : db.WellFormed lib.json :=
      run_keeps (fun _ _ _ _ step => operate_wellFormed step) sound_empty.1 ran
    exact fun workspace registered => isolated_iff wf registered
  · intro settled workspace registered
    have sound : Sound lib.json db := run_keeps_of_meets
      (fun _ _ _ sound settled step => operate_sound sound settled step) sound_empty settled ran
    exact (isolated_iff sound.1 registered).2 (sound.2.without workspace).covered

def exampleRepository (id checkout path : String) : RepositoryRecord :=
  ⟨id, checkout, path, ⟨.unixBytes, utf8 path, path⟩, none, none, none, false, false⟩

def exampleRecord (name : String) (repositories : List RepositoryRecord) : WorkspaceRecord :=
  ⟨"id of " ++ name, name, "m", none, repositories⟩

def sharedRun : List Operation :=
  [.save (exampleRecord "w1" [exampleRepository "r1" "c1" "/1"]),
    .publish { exampleInput with
      workspace := exampleRecord "w2" [exampleRepository "r1" "c1" "/1", exampleRepository "r2" "c2" "/2"]
      fingerprints := [(exampleBatch (utf8 "[]")).source].map fun source =>
        { source with
          repoId := "r1"
          checkoutId := "c1" } }]

theorem removal_isolated_in_runs_shared :
    ∃ db, run (operate plainLibraries) {} sharedRun = some db ∧
      ∀ workspace ∈ ["w1", "w2"], Isolated plainLibraries.json workspace db := by
  have named : (run (operate plainLibraries) {} sharedRun).map Db.workspaceNames =
      some ["w1", "w2"] := by decide +kernel
  obtain ⟨db, ran, names⟩ := Option.map_eq_some_iff.1 named
  refine ⟨db, ran, ?_⟩
  rw [← names]
  exact (removal_isolated_in_runs plainLibraries ran).2 (by decide +kernel)

/-- The record of the published workspace is saved without its repository. -/
def unregisteredRun : List Operation :=
  [.save (exampleRecord "w1" [exampleRepository "r1" "c1" "/1"]),
    .publish { exampleInput with
      workspace := exampleRecord "w2" [exampleRepository "r2" "c2" "/2"] },
    .save (exampleRecord "w2" [])]

theorem unregistered_checkout_blocks_removal :
    ∃ db, run (operate plainLibraries) {} unregisteredRun = some db ∧ "w1" ∈ db.workspaceNames ∧
      removeWorkspace plainLibraries.json "w1" db = .error .constraint ∧
      ¬Isolated plainLibraries.json "w1" db := by
  have failed : (run (operate plainLibraries) {} unregisteredRun).map (fun db =>
      (db.workspaceNames, (removeWorkspace plainLibraries.json "w1" db).map Prod.snd)) =
      some (["w1", "w2"], .error .constraint) := by decide +kernel
  obtain ⟨db, ran, outcome⟩ := Option.map_eq_some_iff.1 failed
  obtain ⟨names, refused⟩ := Prod.mk.inj outcome
  have constraint : removeWorkspace plainLibraries.json "w1" db = .error .constraint := by
    cases result : removeWorkspace plainLibraries.json "w1" db with
    | error failure =>
      rw [result] at refused
      exact congrArg Except.error (Except.error.inj refused)
    | ok result' =>
      rw [result] at refused
      cases refused
  refine ⟨db, ran, by rw [names]; decide, constraint, fun isolated => ?_⟩
  obtain ⟨_, removed, -⟩ := isolated
  rw [constraint] at removed
  cases removed

end Runs

end CodeSystemGraph.Store
