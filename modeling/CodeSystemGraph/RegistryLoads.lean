import CodeSystemGraph.SnapshotLoads

/-!
The registration of a workspace as it is loaded: a record that was saved is read back, as long as
its repositories agree on what they share.
-/

namespace CodeSystemGraph.Incremental

open Model Ordered Relational
open Store (CheckoutRow Db RegistrationRow RepositoryRecord RepositoryRow WorkspaceRecord WorkspaceRow
  checkoutRow registrationRow repositoryRow workspaceRow)

section Model

variable (encodingFromStr : String → Option NativePathEncoding) (workspace : String)

def decodeOptionalPath (encoding : Option String) (bytes : Option Bytes) (display : Option String) :
    Except LoadError (Option NativePath) :=
  match encoding, bytes, display with
  | some encoding, some bytes, some display =>
    (encodingColumn encodingFromStr encoding).map fun encoding => some ⟨encoding, bytes, display⟩
  | _, _, _ => .ok none

structure WorkspaceIdentity where
  id : WorkspaceId
  manifestHash : String
  configPath : Option NativePath

def loadWorkspaceIdentity (db : Db) : Except LoadError WorkspaceIdentity :=
  match lookup WorkspaceRow.name workspace db.workspaces with
  | none => .error (.registryIncomplete workspace)
  | some row =>
    match row.id with
    | none => .error (.registryIncomplete workspace)
    | some id => (decodeOptionalPath encodingFromStr row.configPathEncoding row.configPath
        row.configPathDisplay).map fun configPath => ⟨id, row.manifestHash, configPath⟩

def registered (db : Db) (row : RegistrationRow) :
    Option (RegistrationRow × RepositoryRow × CheckoutRow) :=
  (lookup RepositoryRow.id row.repoId db.repositories).bind fun repository =>
    (lookup CheckoutRow.id row.checkoutId db.checkouts).map fun checkout => (row, repository, checkout)

def repositoryFromRow (row : RegistrationRow × RepositoryRow × CheckoutRow) :
    Except LoadError RepositoryRecord := do
  let encoding ← encodingColumn encodingFromStr row.2.2.pathEncoding
  let gitCommonDir ← decodeOptionalPath encodingFromStr row.2.1.gitCommonPathEncoding
    row.2.1.gitCommonPath row.2.1.gitCommonPathDisplay
  pure
    { id := row.2.1.id
      checkoutId := row.2.2.id
      aliasName := row.1.aliasName
      canonicalPath := ⟨encoding, row.2.2.canonicalPath, row.2.2.pathDisplay⟩
      gitCommonDir
      normalizedRemote := row.2.1.normalizedRemote
      headCommit := row.2.2.headCommit
      isLinkedWorktree := row.2.2.isLinkedWorktree
      workingTreeDirty := row.2.2.workingTreeDirty }

def loadWorkspaceRepositories (db : Db) : Except LoadError (List RepositoryRecord) :=
  (sortBy (fun row => row.1.aliasName) ((db.registrations.filter fun row =>
    row.workspace = workspace).filterMap (registered db))).mapM (repositoryFromRow encodingFromStr)

def loadWorkspaceRegistry (db : Db) : Except LoadError WorkspaceRecord := do
  let identity ← loadWorkspaceIdentity encodingFromStr workspace db
  let repositories ← loadWorkspaceRepositories encodingFromStr workspace db
  pure
    { id := identity.id
      name := workspace
      manifestHash := identity.manifestHash
      configPath := identity.configPath
      repositories }

end Model

section Writes

variable {Row K : Type} [DecidableEq K] {key : Row → K}

theorem lookup_foldl_put_of_not_mem {rows table : List Row} {k : K}
    (absent : ∀ row ∈ rows, key row ≠ k) :
    lookup key k (rows.foldl (put key) table) = lookup key k table := by
  induction rows generalizing table with
  | nil => rfl
  | cons row rows ih =>
    obtain ⟨first, rest⟩ := List.forall_mem_cons.1 absent
    rw [List.foldl_cons, ih rest, lookup_put, if_neg first]

theorem lookup_foldl_put_of_mem {rows table : List Row} {row : Row} (mem : row ∈ rows)
    (same : ∀ other ∈ rows, key other = key row → other = row) :
    lookup key (key row) (rows.foldl (put key) table) = some row := by
  induction rows generalizing table with
  | nil => cases mem
  | cons first rows ih =>
    rw [List.foldl_cons]
    by_cases later : row ∈ rows
    · exact ih later fun other mem' => same other (List.mem_cons_of_mem _ mem')
    · obtain rfl := (List.mem_cons.1 mem).resolve_right later
      have absent : ∀ other ∈ rows, key other ≠ key row := fun other mem' eq =>
        later (same other (List.mem_cons_of_mem _ mem') eq ▸ mem')
      rw [lookup_foldl_put_of_not_mem absent, lookup_put, if_pos rfl]

end Writes

section RoundTrip

variable {encodingFromStr : String → Option NativePathEncoding} {json : Store.JsonFunctions}
  {record : WorkspaceRecord} {db db' : Db}

/-- Repositories with one identifier are one repository, and checkouts with one identifier are one
checkout. -/
@[mk_iff] structure SharesAlike (records : List RepositoryRecord) : Prop where
  repositories : ∀ a ∈ records, ∀ b ∈ records, a.id = b.id → repositoryRow a = repositoryRow b
  checkouts : ∀ a ∈ records, ∀ b ∈ records, a.checkoutId = b.checkoutId → checkoutRow a = checkoutRow b

instance (records : List RepositoryRecord) : Decidable (SharesAlike records) :=
  decidable_of_iff' _ (sharesAlike_iff records)

variable (reads : ∀ encoding, encodingFromStr (Store.quoted (Store.encodingName encoding)) =
  some encoding)

include reads in
theorem decodeOptionalPath_columns (path : Option NativePath) :
    decodeOptionalPath encodingFromStr (path.map fun path => Store.quoted (Store.encodingName path.encoding))
      (path.map (·.bytes)) (path.map (·.display)) = .ok path := by
  cases path with
  | none => rfl
  | some path =>
    simp only [Option.map_some, decodeOptionalPath, encodingColumn, reads]
    rfl

include reads in
theorem repositoryFromRow_rows (workspace : String) (repository : RepositoryRecord) :
    repositoryFromRow encodingFromStr (registrationRow workspace repository, repositoryRow repository,
      checkoutRow repository) = .ok repository := by
  have encoding : encodingColumn encodingFromStr (checkoutRow repository).pathEncoding =
      .ok repository.canonicalPath.encoding := by
    simp only [encodingColumn, checkoutRow, reads]
  have gitCommonDir : decodeOptionalPath encodingFromStr (repositoryRow repository).gitCommonPathEncoding
      (repositoryRow repository).gitCommonPath (repositoryRow repository).gitCommonPathDisplay =
        .ok repository.gitCommonDir := decodeOptionalPath_columns reads repository.gitCommonDir
  rw [repositoryFromRow, encoding, ok_bind, gitCommonDir]
  rfl

theorem saveWorkspaceRegistry_eq_ok (h : Store.saveWorkspaceRegistry json record db = .ok db') :
    db'.WellFormed json ∧
      db'.workspaces = put WorkspaceRow.name db.workspaces (workspaceRow record) ∧
      db'.repositories = (record.repositories.map repositoryRow).foldl (put RepositoryRow.id)
        db.repositories ∧
      db'.checkouts = (record.repositories.map checkoutRow).foldl (put CheckoutRow.id) db.checkouts ∧
      db'.registrations = (db.registrations.filter fun row => row.workspace ≠ record.name) ++
        record.repositories.map (registrationRow record.name) := by
  obtain ⟨rfl, wf⟩ := Store.upsertRegistry_eq_ok h
  exact ⟨wf, rfl, rfl, rfl, rfl⟩

theorem registered_saved (shares : SharesAlike record.repositories)
    (repositories : db'.repositories =
      (record.repositories.map repositoryRow).foldl (put RepositoryRow.id) db.repositories)
    (checkouts : db'.checkouts =
      (record.repositories.map checkoutRow).foldl (put CheckoutRow.id) db.checkouts)
    {repository : RepositoryRecord} (mem : repository ∈ record.repositories) :
    registered db' (registrationRow record.name repository) =
      some (registrationRow record.name repository, repositoryRow repository, checkoutRow repository) := by
  have stored : lookup RepositoryRow.id repository.id db'.repositories =
      some (repositoryRow repository) := by
    rw [repositories]
    refine @lookup_foldl_put_of_mem _ _ _ RepositoryRow.id _ _ (repositoryRow repository)
      (List.mem_map_of_mem mem) fun other mem' same => ?_
    obtain ⟨other, listed, rfl⟩ := List.mem_map.1 mem'
    exact shares.repositories other listed repository mem same
  have checkedOut : lookup CheckoutRow.id repository.checkoutId db'.checkouts =
      some (checkoutRow repository) := by
    rw [checkouts]
    refine @lookup_foldl_put_of_mem _ _ _ CheckoutRow.id _ _ (checkoutRow repository)
      (List.mem_map_of_mem mem) fun other mem' same => ?_
    obtain ⟨other, listed, rfl⟩ := List.mem_map.1 mem'
    exact shares.checkouts other listed repository mem same
  have repoId : (registrationRow record.name repository).repoId = repository.id := rfl
  have checkoutId : (registrationRow record.name repository).checkoutId = repository.checkoutId := rfl
  rw [registered, repoId, checkoutId, stored, checkedOut]
  rfl

include reads in
/-- A record that is saved is loaded again, with its repositories in the order of their aliases; of
another workspace everything is loaded as before unless the record holds a repository or a checkout
that it registers. -/
theorem saveWorkspaceRegistry_loads (shares : SharesAlike record.repositories)
    (h : Store.saveWorkspaceRegistry json record db = .ok db') :
    loadWorkspaceRegistry encodingFromStr record.name db' =
        .ok { record with repositories := sortBy (·.aliasName) record.repositories } ∧
      ∀ workspace, workspace ≠ record.name →
        (∀ row ∈ db.registrations, row.workspace = workspace →
          ∀ repository ∈ record.repositories,
            row.repoId ≠ repository.id ∧ row.checkoutId ≠ repository.checkoutId) →
        loadWorkspaceRegistry encodingFromStr workspace db' =
          loadWorkspaceRegistry encodingFromStr workspace db := by
  obtain ⟨wf, workspaces, repositories, checkouts, registrations⟩ := saveWorkspaceRegistry_eq_ok h
  constructor
  · have identity : loadWorkspaceIdentity encodingFromStr record.name db' =
        .ok ⟨record.id, record.manifestHash, record.configPath⟩ := by
      have row : lookup WorkspaceRow.name record.name db'.workspaces = some (workspaceRow record) := by
        rw [workspaces, lookup_put]
        exact if_pos rfl
      have path : decodeOptionalPath encodingFromStr (workspaceRow record).configPathEncoding
          (workspaceRow record).configPath (workspaceRow record).configPathDisplay =
            .ok record.configPath := decodeOptionalPath_columns reads record.configPath
      rw [loadWorkspaceIdentity, row]
      simp only [path]
      rfl
    have own : (db'.registrations.filter fun row => row.workspace = record.name) =
        record.repositories.map (registrationRow record.name) := by
      rw [registrations, List.filter_append, List.filter_filter]
      have none : (db.registrations.filter fun row =>
          decide (row.workspace = record.name) && decide (row.workspace ≠ record.name)) = [] :=
        List.filter_eq_nil_iff.2 fun row _ => by simp
      rw [none, List.nil_append, List.filter_eq_self]
      intro row mem
      obtain ⟨repository, -, rfl⟩ := List.mem_map.1 mem
      exact decide_eq_true rfl
    have aliases : (record.repositories.map (·.aliasName)).Nodup := by
      have keys := wf.keys.registrations
      rw [registrations, List.map_append, List.nodup_append] at keys
      have own := keys.2.1
      rw [List.map_map] at own
      refine List.Nodup.of_map (fun aliasName => (record.name, aliasName)) ?_
      rw [List.map_map]
      exact own
    have joined : (record.repositories.map (registrationRow record.name)).filterMap (registered db') =
        record.repositories.map fun repository => (registrationRow record.name repository,
          repositoryRow repository, checkoutRow repository) := by
      rw [List.filterMap_map, ← List.filterMap_eq_map]
      exact List.filterMap_congr fun repository mem =>
        registered_saved shares repositories checkouts mem
    have loaded : loadWorkspaceRepositories encodingFromStr record.name db' =
        .ok (sortBy (·.aliasName) record.repositories) := by
      rw [loadWorkspaceRepositories, own, joined]
      refine mapM_sortBy_exactly ⟨?_, fun row => Iff.rfl⟩ aliases (fun _ => rfl) fun repository _ =>
        repositoryFromRow_rows reads record.name repository
      refine List.Nodup.of_map (fun row => row.1.aliasName) ?_
      rw [List.map_map]
      exact aliases
    rw [loadWorkspaceRegistry, identity, ok_bind, loaded]
    rfl
  · intro workspace ne apart
    have identity : lookup WorkspaceRow.name workspace db'.workspaces =
        lookup WorkspaceRow.name workspace db.workspaces := by
      rw [workspaces, lookup_put]
      exact if_neg (Ne.symm ne)
    have others : (db'.registrations.filter fun row => row.workspace = workspace) =
        db.registrations.filter fun row => row.workspace = workspace := by
      rw [registrations, List.filter_append, List.filter_filter]
      have none : (record.repositories.map (registrationRow record.name)).filter
          (fun row => row.workspace = workspace) = [] := by
        refine List.filter_eq_nil_iff.2 fun row mem => ?_
        obtain ⟨repository, -, rfl⟩ := List.mem_map.1 mem
        exact fun same => ne (of_decide_eq_true same).symm
      rw [none, List.append_nil]
      refine List.filter_congr fun row _ => ?_
      by_cases here : row.workspace = workspace
      · simp [here, ne]
      · simp [here]
    have joins : (db.registrations.filter fun row => row.workspace = workspace).filterMap
        (registered db') = (db.registrations.filter fun row => row.workspace = workspace).filterMap
          (registered db) := by
      refine List.filterMap_congr fun row mem => ?_
      obtain ⟨stored, here⟩ := List.mem_filter.1 mem
      have away := apart row stored (of_decide_eq_true here)
      have repository : lookup RepositoryRow.id row.repoId db'.repositories =
          lookup RepositoryRow.id row.repoId db.repositories := by
        rw [repositories]
        refine lookup_foldl_put_of_not_mem fun other mem' => ?_
        obtain ⟨repository, listed, rfl⟩ := List.mem_map.1 mem'
        exact (away repository listed).1.symm
      have checkout : lookup CheckoutRow.id row.checkoutId db'.checkouts =
          lookup CheckoutRow.id row.checkoutId db.checkouts := by
        rw [checkouts]
        refine lookup_foldl_put_of_not_mem fun other mem' => ?_
        obtain ⟨repository, listed, rfl⟩ := List.mem_map.1 mem'
        exact (away repository listed).2.symm
      rw [registered, registered, repository, checkout]
    rw [loadWorkspaceRegistry, loadWorkspaceRegistry, loadWorkspaceIdentity, loadWorkspaceIdentity,
      loadWorkspaceRepositories, loadWorkspaceRepositories, identity, others, joins]

def aliasedRecord : WorkspaceRecord where
  id := "id"
  name := "w"
  manifestHash := "m"
  configPath := some ⟨.utf8, [119], "w"⟩
  repositories := ["web", "api"].map fun aliasName =>
    ⟨"r", "c", aliasName, ⟨.unixBytes, [47], "/"⟩, some ⟨.utf8, [103], "g"⟩, none, none, false, false⟩

theorem saveWorkspaceRegistry_loads_aliased :
    ∃ db', Store.saveWorkspaceRegistry Store.plainLibraries.json aliasedRecord {} = .ok db' ∧
      (loadWorkspaceRegistry sampleFromStr "w" db').toOption.map (fun record =>
        record.repositories.map (·.aliasName)) = some ["api", "web"] := by
  have succeeds : (Store.saveWorkspaceRegistry Store.plainLibraries.json aliasedRecord {}).isOk = true := by
    decide +kernel
  cases saved : Store.saveWorkspaceRegistry Store.plainLibraries.json aliasedRecord {} with
  | error failure =>
    rw [saved] at succeeds
    cases succeeds
  | ok db' =>
    have loads := (@saveWorkspaceRegistry_loads sampleFromStr Store.plainLibraries.json aliasedRecord {} db'
      sampleFromStr_reads (by decide +kernel) saved).1
    have name : aliasedRecord.name = "w" := rfl
    rw [name] at loads
    refine ⟨db', rfl, ?_⟩
    rw [loads]
    decide +kernel

end RoundTrip

end CodeSystemGraph.Incremental
