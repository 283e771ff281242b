import CodeSystemGraph.Model
import CodeSystemGraph.Ordered
import CodeSystemGraph.Spread

/-! Which repositories own a node. A repository that a node names itself always wins;
other nodes inherit every repository from which confirmed containment reaches them. -/

namespace CodeSystemGraph.Ownership
open Model Ordered Iterate Spread

structure RepositoryOwnership where
  repositories : BTreeSet RepoId
  direct : Bool

section Resolution

def usizeMax : Nat := 18446744073709551615

def mayContain : NodeKind → NodeKind → Bool
  | .repository, target => target = .artifact
  | .artifact, target => target ≠ .document
  | .database, _ | .databaseTable, _ | .eventChannel, _ => true
  | _, _ => false

def ownershipContainment (nodes : BTreeMap NodeId Node) (edge : Edge) : Bool :=
  nodes[edge.source]?.any fun source =>
    nodes[edge.target]?.any fun target => mayContain source.kind target.kind

def indexNodes (nodes : List Node) : BTreeMap NodeId Node :=
  nodes.foldl (fun index node => index.insert node.id node) ∅

def ownOf (node : Node) : RepositoryOwnership :=
  { repositories := node.repoId.elim ∅ fun repository => (∅ : BTreeSet RepoId).insert repository
    direct := node.repoId.isSome }

/-- The answers of the stop callback, by the number of calls before. -/
abbrev Stop := Nat → Bool

def contains (nodes : BTreeMap NodeId Node) (edge : Edge) : Bool :=
  edge.kind = .contains && edge.status = .confirmed && ownershipContainment nodes edge

/-- The scan of the edges from the given index on. -/
def collectChildren (shouldStop : Stop) (nodes : BTreeMap NodeId Node) :
    Nat → Nat → BTreeMap NodeId (List NodeId) → List Edge →
      Except Unit (BTreeMap NodeId (List NodeId) × Nat)
  | _, calls, children, [] => .ok (children, calls)
  | index, calls, children, edge :: edges =>
    let asks := index % 256 = 0
    if asks && shouldStop calls then .error ()
    else
      collectChildren shouldStop nodes (index + 1) (if asks then calls + 1 else calls)
        (if contains nodes edge then pushTo children edge.source edge.target else children) edges

structure Worklist where
  ownership : BTreeMap NodeId RepositoryOwnership
  queue : List NodeId
  work : Nat
  calls : Nat

def inherit (repositories : BTreeSet RepoId)
    (s : BTreeMap NodeId RepositoryOwnership × List NodeId) (child : NodeId) :
    BTreeMap NodeId RepositoryOwnership × List NodeId :=
  match s.1[child]? with
  | none => s
  | some owner =>
    if owner.direct then s
    else
      let grown := repositories.toList.foldl (fun set repository => set.insert repository)
        owner.repositories
      (s.1.insert child { owner with repositories := grown },
        if grown.toList ≠ owner.repositories.toList then s.2 ++ [child] else s.2)

def Worklist.turn (shouldStop : Stop) (children : BTreeMap NodeId (List NodeId)) (s : Worklist) :
    Turn Worklist (Except Unit (BTreeMap NodeId RepositoryOwnership)) :=
  match s.queue with
  | [] => .leave (.ok s.ownership)
  | parent :: queue =>
    let work := min (s.work + 1) usizeMax
    let asks := work % 256 = 0
    if asks && shouldStop s.calls then .leave (.error ())
    else
      let repositories := (s.ownership[parent]?.map (·.repositories)).getD ∅
      let s' := (children[parent]?.getD []).foldl (inherit repositories) (s.ownership, queue)
      .again { ownership := s'.1, queue := s'.2, work, calls := if asks then s.calls + 1 else s.calls }

def resolveRepositoryOwnership (fuel : Nat) (nodes : List Node) (edges : List Edge)
    (shouldStop : Stop) : Option (Except Unit (BTreeMap NodeId RepositoryOwnership)) :=
  let index := indexNodes nodes
  let ownership := index.map fun _ node => ownOf node
  match collectChildren shouldStop index 0 0 ∅ edges with
  | .error stopped => some (.error stopped)
  | .ok (children, calls) =>
    let children := children.map fun _ values => sortDedup id values
    let queue := (ownership.toList.filter fun entry => !entry.2.repositories.isEmpty).map Prod.fst
    run (Worklist.turn shouldStop children) fuel { ownership, queue, work := 0, calls }

end Resolution

section Meaning

/-- Confirmed containment between two nodes that passes ownership on. -/
def Passes (nodes : List Node) (edges : List Edge) (parent child : NodeId) : Prop :=
  ∃ edge ∈ edges, edge.kind = .contains ∧ edge.status = .confirmed ∧
    edge.source = parent ∧ edge.target = child ∧
    ∃ source ∈ nodes, ∃ target ∈ nodes, source.id = parent ∧ target.id = child ∧
      mayContain source.kind target.kind = true

/-- A node below the root, with no node between them that names a repository. -/
inductive Inherits (nodes : List Node) (edges : List Edge) (root : NodeId) : NodeId → Prop
  | contained {child : NodeId} (passes : Passes nodes edges root child) :
      Inherits nodes edges root child
  | through {via : Node} {child : NodeId} (above : Inherits nodes edges root via.id)
      (listed : via ∈ nodes) (unowned : via.repoId = none) (passes : Passes nodes edges via.id child) :
      Inherits nodes edges root child

structure Resolved (nodes : List Node) (edges : List Edge)
    (ownership : BTreeMap NodeId RepositoryOwnership) : Prop where
  keys : ∀ id : NodeId, id ∈ ownership ↔ ∃ node ∈ nodes, node.id = id
  direct : ∀ node ∈ nodes, ∀ repository, node.repoId = some repository →
    ∃ owner, ownership[node.id]? = some owner ∧ owner.direct = true ∧
      ∀ r, r ∈ owner.repositories ↔ r = repository
  inherited : ∀ node ∈ nodes, node.repoId = none →
    ∃ owner, ownership[node.id]? = some owner ∧ owner.direct = false ∧
      ∀ r, r ∈ owner.repositories ↔
        ∃ root ∈ nodes, root.repoId = some r ∧ Inherits nodes edges root.id node.id

variable {nodes nodes' : List Node} {edges edges' : List Edge}

theorem Passes.mono (more : nodes ⊆ nodes') (more' : edges ⊆ edges') {parent child : NodeId}
    (passes : Passes nodes edges parent child) : Passes nodes' edges' parent child := by
  obtain ⟨edge, listed, kind, status, above, below, source, mem, target, mem', rest⟩ := passes
  exact ⟨edge, more' listed, kind, status, above, below, source, more mem, target, more mem', rest⟩

theorem Inherits.mono (more : nodes ⊆ nodes') (more' : edges ⊆ edges') {root child : NodeId}
    (inherits : Inherits nodes edges root child) : Inherits nodes' edges' root child := by
  induction inherits with
  | contained passes => exact .contained (passes.mono more more')
  | through _ listed unowned passes ih =>
    exact .through ih (more listed) unowned (passes.mono more more')

theorem Resolved.perm {ownership : BTreeMap NodeId RepositoryOwnership}
    (resolved : Resolved nodes edges ownership) (same : nodes.Perm nodes') (same' : edges.Perm edges') :
    Resolved nodes' edges' ownership where
  keys id := by
    rw [resolved.keys]
    exact exists_congr fun node => and_congr_left' same.mem_iff
  direct node listed := resolved.direct node (same.mem_iff.mpr listed)
  inherited node listed none := by
    obtain ⟨owner, found, direct, owned⟩ := resolved.inherited node (same.mem_iff.mpr listed) none
    refine ⟨owner, found, direct, fun r => (owned r).trans ?_⟩
    refine exists_congr fun root => and_congr same.mem_iff (and_congr_right fun _ => ?_)
    exact ⟨.mono same.subset same'.subset, .mono same.symm.subset same'.symm.subset⟩

theorem RepositoryOwnership.ext {owner owner' : RepositoryOwnership} (direct : owner.direct = owner'.direct)
    (same : ∀ r, r ∈ owner.repositories ↔ r ∈ owner'.repositories) : owner = owner' := by
  cases owner
  cases owner'
  cases direct
  rw [RepositoryOwnership.mk.injEq]
  exact ⟨Std.ExtTreeSet.ext_mem fun {r} => same r, rfl⟩

theorem Resolved.unique {ownership ownership' : BTreeMap NodeId RepositoryOwnership}
    (resolved : Resolved nodes edges ownership) (resolved' : Resolved nodes edges ownership') :
    ownership = ownership' := by
  apply Std.ExtTreeMap.ext_getElem?
  intro id
  by_cases known : ∃ node ∈ nodes, node.id = id
  · obtain ⟨node, listed, rfl⟩ := known
    cases names : node.repoId with
    | none =>
      obtain ⟨owner, found, direct, owned⟩ := resolved.inherited node listed names
      obtain ⟨owner', found', direct', owned'⟩ := resolved'.inherited node listed names
      rw [found, found', RepositoryOwnership.ext (direct.trans direct'.symm)
        fun r => (owned r).trans (owned' r).symm]
    | some repository =>
      obtain ⟨owner, found, direct, owned⟩ := resolved.direct node listed repository names
      obtain ⟨owner', found', direct', owned'⟩ := resolved'.direct node listed repository names
      rw [found, found', RepositoryOwnership.ext (direct.trans direct'.symm)
        fun r => (owned r).trans (owned' r).symm]
  · rw [Std.ExtTreeMap.getElem?_eq_none (mt (resolved.keys id).mp known),
      Std.ExtTreeMap.getElem?_eq_none (mt (resolved'.keys id).mp known)]

end Meaning

section Index

variable {nodes : List Node} {edges : List Edge}

theorem getElem?_indexNodes (id : NodeId) : (indexNodes nodes)[id]? = latest Node.id id nodes := by
  rw [indexNodes, getElem?_foldl_insert Node.id fun node => node, Option.map_id', Std.ExtTreeMap.getElem?_empty,
    Option.or_none]
  rfl

theorem indexNodes_eq_some (distinct : (nodes.map (·.id)).Nodup) {id : NodeId} {node : Node} :
    (indexNodes nodes)[id]? = some node ↔ node ∈ nodes ∧ node.id = id := by
  rw [getElem?_indexNodes]
  refine ⟨mem_of_latest, fun listed => ?_⟩
  rw [← listed.2]
  exact latest_of_nodup distinct listed.1

theorem ownershipContainment_iff (distinct : (nodes.map (·.id)).Nodup) {edge : Edge} :
    ownershipContainment (indexNodes nodes) edge = true ↔
      ∃ source ∈ nodes, ∃ target ∈ nodes, source.id = edge.source ∧ target.id = edge.target ∧
        mayContain source.kind target.kind = true := by
  simp only [ownershipContainment, Option.any_eq_true, indexNodes_eq_some distinct]
  constructor
  · rintro ⟨source, ⟨mem, id⟩, target, ⟨mem', id'⟩, may⟩
    exact ⟨source, mem, target, mem', id, id', may⟩
  · rintro ⟨source, mem, target, mem', id, id', may⟩
    exact ⟨source, ⟨mem, id⟩, target, ⟨mem', id'⟩, may⟩

theorem collectChildren_ok (edges : List Edge) (index : BTreeMap NodeId Node) (at' calls : Nat)
    (children : BTreeMap NodeId (List NodeId)) :
    ∃ result, collectChildren (fun _ => false) index at' calls children edges = .ok result ∧
      ∀ parent : NodeId, result.1[parent]?.getD [] = children[parent]?.getD [] ++
        ((edges.filter (contains index)).filter fun edge => edge.source = parent).map (·.target) := by
  induction edges generalizing at' calls children with
  | nil => exact ⟨_, rfl, by simp⟩
  | cons edge edges ih =>
    obtain ⟨result, collected, each⟩ := ih (at' + 1) (if at' % 256 = 0 then calls + 1 else calls)
      (if contains index edge then pushTo children edge.source edge.target else children)
    refine ⟨result, ?_, fun parent => ?_⟩
    · rw [collectChildren]
      simpa using collected
    · rw [each]
      by_cases kept : contains index edge = true
      · rw [if_pos kept, pushTo_getD, List.filter_cons_of_pos kept, List.append_assoc]
        by_cases here : edge.source = parent <;> simp [here]
      · rw [if_neg kept, List.filter_cons_of_neg kept]

theorem contains_iff (distinct : (nodes.map (·.id)).Nodup) {parent child : NodeId} :
    (∃ edge ∈ edges, contains (indexNodes nodes) edge = true ∧ edge.source = parent ∧
      edge.target = child) ↔ Passes nodes edges parent child := by
  refine exists_congr fun edge => and_congr_right fun _ => ?_
  simp only [contains, Bool.and_eq_true, decide_eq_true_eq, ownershipContainment_iff distinct]
  constructor
  · rintro ⟨⟨⟨kind, status⟩, accepted⟩, rfl, rfl⟩
    exact ⟨kind, status, rfl, rfl, accepted⟩
  · rintro ⟨kind, status, rfl, rfl, accepted⟩
    exact ⟨⟨⟨kind, status⟩, accepted⟩, rfl, rfl⟩

end Index

section Spreading

def RepositoryOwnership.owners (owner : RepositoryOwnership) : Finset RepoId :=
  owner.repositories.toList.toFinset

@[simp] theorem mem_owners {owner : RepositoryOwnership} {r : RepoId} :
    r ∈ owner.owners ↔ r ∈ owner.repositories := by
  rw [RepositoryOwnership.owners, List.mem_toFinset, Std.ExtTreeSet.mem_toList]

def held (ownership : BTreeMap NodeId RepositoryOwnership) (id : NodeId) : Finset RepoId :=
  (ownership[id]?.map RepositoryOwnership.owners).getD ∅

/-- The nodes that take part: those that name no repository themselves. -/
def takes (ownership : BTreeMap NodeId RepositoryOwnership) (id : NodeId) : Bool :=
  ownership[id]?.any fun owner => !owner.direct

def directs (ownership : BTreeMap NodeId RepositoryOwnership) (id : NodeId) : Option Bool :=
  ownership[id]?.map (·.direct)

theorem takes_eq (ownership : BTreeMap NodeId RepositoryOwnership) (id : NodeId) :
    takes ownership id = (directs ownership id).any (!·) := by
  rw [takes, directs]
  cases ownership[id]? <;> rfl

variable {ownership ownership' : BTreeMap NodeId RepositoryOwnership} {queue : List NodeId}
  {repositories : BTreeSet RepoId} {child : NodeId}

theorem mem_foldl_insert {l : List RepoId} {set : BTreeSet RepoId} {r : RepoId} :
    r ∈ l.foldl (fun set repository => set.insert repository) set ↔ r ∈ set ∨ r ∈ l := by
  induction l generalizing set with
  | nil => simp
  | cons a l ih =>
    rw [List.foldl_cons, ih, Std.ExtTreeSet.mem_insert, Std.LawfulEqCmp.compare_eq_iff_eq,
      List.mem_cons, eq_comm (a := a), or_assoc, or_left_comm]

theorem inherit_skips (skips : takes ownership child = false) :
    inherit repositories (ownership, queue) child = (ownership, queue) := by
  unfold takes at skips
  unfold inherit
  cases found : ownership[child]? with
  | none => rfl
  | some owner =>
    have direct : owner.direct = true := by simpa [found] using skips
    simp only [direct, if_true]

theorem inherit_takes (repositories : BTreeSet RepoId) (queue : List NodeId)
    {owner : RepositoryOwnership} (found : ownership[child]? = some owner)
    (open' : owner.direct = false) :
    ∃ grown : BTreeSet RepoId, (∀ r, r ∈ grown ↔ r ∈ owner.repositories ∨ r ∈ repositories) ∧
      inherit repositories (ownership, queue) child =
        (ownership.insert child { owner with repositories := grown },
          if ∀ r ∈ repositories.toList, r ∈ owner.repositories then queue else queue ++ [child]) := by
  refine ⟨repositories.toList.foldl (fun set repository => set.insert repository) owner.repositories,
    fun r => ?_, ?_⟩
  · rw [mem_foldl_insert, Std.ExtTreeSet.mem_toList]
  · have same : (repositories.toList.foldl (fun set repository => set.insert repository)
        owner.repositories).toList = owner.repositories.toList ↔
          ∀ r ∈ repositories.toList, r ∈ owner.repositories := by
      rw [Std.ExtTreeSet.toList_inj]
      constructor
      · intro same r given
        rw [← same, mem_foldl_insert]
        exact .inr given
      · intro known
        apply Std.ExtTreeSet.ext_mem
        intro r
        rw [mem_foldl_insert]
        exact ⟨fun either => either.elim id (known r), .inl⟩
    simp only [inherit, found, open', Bool.false_eq_true, if_false, ne_eq, same, ite_not]

theorem directs_inherit (id : NodeId) :
    directs (inherit repositories (ownership, queue) child).1 id = directs ownership id := by
  cases takes' : takes ownership child with
  | false => rw [inherit_skips takes']
  | true =>
    obtain ⟨owner, found, open'⟩ := Option.any_eq_true _ _ |>.mp takes'
    obtain ⟨grown, -, result⟩ := inherit_takes repositories queue found
      (by simpa using open')
    rw [result, directs, directs, Std.ExtTreeMap.getElem?_insert]
    by_cases same : child = id
    · subst same
      simp [found]
    · simp [same]

theorem inherit_receive (queue : List NodeId) (takes' : takes ownership child = true) (given : Finset RepoId)
    (same : ∀ r, r ∈ given ↔ r ∈ repositories) :
    held (inherit repositories (ownership, queue) child).1 =
        (receive given { held := held ownership, queue } child).held ∧
      (inherit repositories (ownership, queue) child).2 =
        (receive given { held := held ownership, queue } child).queue := by
  obtain ⟨owner, found, open'⟩ := Option.any_eq_true _ _ |>.mp takes'
  obtain ⟨grown, members, result⟩ := inherit_takes repositories queue
    found (by simpa using open')
  have here : held ownership child = owner.owners := by rw [held, found]; rfl
  have known : (given ⊆ held ownership child) ↔ ∀ r ∈ repositories.toList, r ∈ owner.repositories := by
    rw [here, Finset.subset_iff]
    simp only [same, mem_owners, Std.ExtTreeSet.mem_toList]
  rw [result]
  constructor
  · funext id
    rw [receive_held, held, Std.ExtTreeMap.getElem?_insert]
    by_cases at' : id = child
    · subst at'
      ext r
      simp [here, same, members]
    · have apart : child ≠ id := fun eq => at' eq.symm
      simp [at', apart, held]
  · unfold receive
    simp only [known]
    split_ifs
    · rfl
    · rfl

end Spreading

section Simulation

variable {ownership start : BTreeMap NodeId RepositoryOwnership} {queue : List NodeId}
  {repositories : BTreeSet RepoId}

def view (s : BTreeMap NodeId RepositoryOwnership × List NodeId) : State NodeId RepoId :=
  { held := held s.1, queue := s.2 }

theorem view_inherit {child : NodeId} (takes' : takes ownership child = true) (given : Finset RepoId)
    (same : ∀ r, r ∈ given ↔ r ∈ repositories) :
    view (inherit repositories (ownership, queue) child) =
      receive given (view (ownership, queue)) child := by
  obtain ⟨holds, waits⟩ := inherit_receive queue takes' given same
  rw [view, holds, waits]
  rfl

theorem view_foldl_inherit (given : Finset RepoId) (same : ∀ r, r ∈ given ↔ r ∈ repositories)
    (l : List NodeId) {s : BTreeMap NodeId RepositoryOwnership × List NodeId}
    (kept : ∀ id, directs s.1 id = directs start id) :
    view (l.foldl (inherit repositories) s) =
        (l.filter (takes start)).foldl (receive given) (view s) ∧
      ∀ id, directs (l.foldl (inherit repositories) s).1 id = directs start id := by
  induction l generalizing s with
  | nil => exact ⟨rfl, kept⟩
  | cons child l ih =>
    obtain ⟨ownership, queue⟩ := s
    have after : ∀ id, directs (inherit repositories (ownership, queue) child).1 id =
        directs start id := fun id => (directs_inherit id).trans (kept id)
    obtain ⟨spread, kept'⟩ := ih after
    refine ⟨?_, kept'⟩
    have role : takes ownership child = takes start child := by
      rw [takes_eq, takes_eq]
      exact congrArg _ (kept child)
    rw [List.foldl_cons, spread]
    cases takes' : takes start child with
    | false => rw [List.filter_cons_of_neg (by simp [takes']), inherit_skips (role.trans takes')]
    | true =>
      rw [List.filter_cons_of_pos takes', List.foldl_cons,
        view_inherit (role.trans takes') given same]

variable (start) in
/-- What the loop keeps next to the sets: which nodes name a repository themselves. -/
def Follows (s : State NodeId RepoId) (w : Worklist) : Prop :=
  s = view (w.ownership, w.queue) ∧ ∀ id, directs w.ownership id = directs start id

variable (start) in
def Returns (found : NodeId → Finset RepoId)
    (result : Except Unit (BTreeMap NodeId RepositoryOwnership)) : Prop :=
  ∃ ownership, result = .ok ownership ∧ found = held ownership ∧
    ∀ id, directs ownership id = directs start id

theorem turn_related (children : BTreeMap NodeId (List NodeId)) {s : State NodeId RepoId}
    {w : Worklist} (follows : Follows start s w) :
    (Spread.turn (fun id => (children[id]?.getD []).filter (takes start)) s).Related
      (Follows start) (Returns start) (w.turn (fun _ => false) children) := by
  obtain ⟨rfl, kept⟩ := follows
  unfold Spread.turn Worklist.turn
  cases next : w.queue with
  | nil => exact ⟨w.ownership, rfl, rfl, kept⟩
  | cons parent queue =>
    have same : ∀ r, r ∈ held w.ownership parent ↔
        r ∈ (w.ownership[parent]?.map (·.repositories)).getD ∅ := by
      intro r
      rw [held]
      cases w.ownership[parent]? <;> simp
    obtain ⟨spread, kept'⟩ := view_foldl_inherit (held w.ownership parent) same
      (children[parent]?.getD []) (s := (w.ownership, queue)) kept
    simp only [Bool.and_false, Bool.false_eq_true, if_false]
    exact ⟨spread.symm, kept'⟩

theorem run_follows {children : BTreeMap NodeId (List NodeId)} {fuel : Nat} {w : Worklist}
    {found : NodeId → Finset RepoId} (kept : ∀ id, directs w.ownership id = directs start id)
    (spread : run (Spread.turn fun id => (children[id]?.getD []).filter (takes start)) fuel
      (view (w.ownership, w.queue)) = some found) :
    ∃ ownership, run (Worklist.turn (fun _ => false) children) fuel w = some (.ok ownership) ∧
      held ownership = found ∧ ∀ id, directs ownership id = directs start id := by
  have related := run_related (fun s w => turn_related (s := s) (w := w) children) fuel
    (show Follows start (view (w.ownership, w.queue)) w from ⟨rfl, kept⟩)
  rw [spread] at related
  generalize run (Worklist.turn (fun _ => false) children) fuel w = result at related
  cases related with
  | some returns =>
    obtain ⟨ownership, rfl, same, kept'⟩ := returns
    exact ⟨ownership, rfl, same.symm, kept'⟩

end Simulation

section Result

variable {nodes : List Node} {edges : List Edge}

variable (nodes) in
/-- The ownership before anything is inherited. -/
def initial : BTreeMap NodeId RepositoryOwnership := (indexNodes nodes).map fun _ node => ownOf node

theorem getElem?_initial (distinct : (nodes.map (·.id)).Nodup) {id : NodeId}
    {owner : RepositoryOwnership} :
    (initial nodes)[id]? = some owner ↔ ∃ node ∈ nodes, node.id = id ∧ owner = ownOf node := by
  rw [initial, Std.ExtTreeMap.getElem?_map, Option.map_eq_some_iff]
  refine exists_congr fun node => ?_
  rw [indexNodes_eq_some distinct, and_assoc, eq_comm (a := owner)]

theorem mem_held_initial (distinct : (nodes.map (·.id)).Nodup) {id : NodeId} {r : RepoId} :
    r ∈ held (initial nodes) id ↔ ∃ node ∈ nodes, node.id = id ∧ node.repoId = some r := by
  have own : ∀ node : Node, r ∈ (ownOf node).owners ↔ node.repoId = some r := by
    intro node
    rw [mem_owners, ownOf]
    cases node.repoId with
    | none => simp
    | some repository => simp
  rw [held]
  constructor
  · intro mem
    cases found : (initial nodes)[id]? with
    | none => simp [found] at mem
    | some owner =>
      obtain ⟨node, listed, same, rfl⟩ := (getElem?_initial distinct).mp found
      rw [found] at mem
      exact ⟨node, listed, same, (own node).mp mem⟩
  · rintro ⟨node, listed, same, names⟩
    rw [(getElem?_initial distinct).mpr ⟨node, listed, same, rfl⟩]
    exact (own node).mpr names

theorem takes_initial (distinct : (nodes.map (·.id)).Nodup) {id : NodeId} :
    takes (initial nodes) id = true ↔ ∃ node ∈ nodes, node.id = id ∧ node.repoId = none := by
  rw [takes, Option.any_eq_true]
  constructor
  · rintro ⟨owner, found, open'⟩
    obtain ⟨node, listed, same, rfl⟩ := (getElem?_initial distinct).mp found
    exact ⟨node, listed, same, by simpa [ownOf] using open'⟩
  · rintro ⟨node, listed, same, none⟩
    exact ⟨ownOf node, (getElem?_initial distinct).mpr ⟨node, listed, same, rfl⟩, by simp [ownOf, none]⟩

theorem reaches_iff (distinct : (nodes.map (·.id)).Nodup) {children : NodeId → List NodeId}
    (below : ∀ parent child, child ∈ children parent ↔
      Passes nodes edges parent child ∧ takes (initial nodes) child = true) {id : NodeId} {r : RepoId} :
    Reaches (held (initial nodes)) children r id ↔ ∃ root ∈ nodes, root.repoId = some r ∧
      (root.id = id ∨ takes (initial nodes) id = true ∧ Inherits nodes edges root.id id) := by
  constructor
  · intro reaches
    induction reaches with
    | seed mem =>
      obtain ⟨root, listed, same, names⟩ := (mem_held_initial distinct).mp mem
      exact ⟨root, listed, names, .inl same⟩
    | step _ edge ih =>
      obtain ⟨root, listed, names, above⟩ := ih
      obtain ⟨passes, takes'⟩ := (below _ _).mp edge
      refine ⟨root, listed, names, .inr ⟨takes', ?_⟩⟩
      rcases above with rfl | ⟨open', inherits⟩
      · exact .contained passes
      · obtain ⟨via, listed', rfl, none⟩ := (takes_initial distinct).mp open'
        exact .through inherits listed' none passes
  · rintro ⟨root, listed, names, rfl | ⟨open', inherits⟩⟩
    · exact .seed ((mem_held_initial distinct).mpr ⟨root, listed, rfl, names⟩)
    · have seeded : Reaches (held (initial nodes)) children r root.id :=
        .seed ((mem_held_initial distinct).mpr ⟨root, listed, rfl, names⟩)
      induction inherits with
      | contained passes => exact seeded.step ((below _ _).mpr ⟨passes, open'⟩)
      | through _ listed' none passes ih =>
        have above := ih ((takes_initial distinct).mpr ⟨_, listed', rfl, none⟩)
        exact above.step ((below _ _).mpr ⟨passes, open'⟩)

variable (nodes) in
theorem held_initial_unqueued {id : NodeId}
    (outside : id ∉ ((initial nodes).toList.filter fun entry => !entry.2.repositories.isEmpty).map Prod.fst) :
    held (initial nodes) id = ∅ := by
  apply Finset.eq_empty_of_forall_notMem
  intro r mem
  apply outside
  cases found : (initial nodes)[id]? with
  | none => simp [held, found] at mem
  | some owner =>
    have owned : r ∈ owner.repositories := by simpa [held, found] using mem
    have nonempty : owner.repositories.isEmpty = false := by
      rw [Std.ExtTreeSet.isEmpty_eq_false_iff]
      rintro none
      simp [none] at owned
    refine List.mem_map.mpr ⟨(id, owner), List.mem_filter.mpr ⟨?_, by simp [nonempty]⟩, rfl⟩
    exact Std.ExtTreeMap.mem_toList_iff_getElem?_eq_some.mpr found

theorem mem_below (distinct : (nodes.map (·.id)).Nodup) {collected : BTreeMap NodeId (List NodeId)}
    (each : ∀ parent : NodeId, collected[parent]?.getD [] =
      ((edges.filter (contains (indexNodes nodes))).filter fun edge => edge.source = parent).map (·.target))
    (parent child : NodeId) :
    child ∈ ((collected.map fun _ values => sortDedup id values)[parent]?.getD []).filter
        (takes (initial nodes)) ↔
      Passes nodes edges parent child ∧ takes (initial nodes) child = true := by
  have listed : child ∈ (collected.map fun _ values => sortDedup id values)[parent]?.getD [] ↔
      child ∈ collected[parent]?.getD [] := by
    rw [Std.ExtTreeMap.getElem?_map]
    cases collected[parent]? with
    | none => rfl
    | some values => exact mem_sortDedup id
  rw [List.mem_filter, listed, each, ← contains_iff distinct]
  refine and_congr_left' ?_
  simp only [List.mem_map, List.mem_filter, decide_eq_true_eq, and_assoc]

theorem resolved_of_reaches (distinct : (nodes.map (·.id)).Nodup) {children : NodeId → List NodeId}
    (below : ∀ parent child, child ∈ children parent ↔
      Passes nodes edges parent child ∧ takes (initial nodes) child = true)
    {ownership : BTreeMap NodeId RepositoryOwnership}
    (exact' : ∀ id r, r ∈ held ownership id ↔ Reaches (held (initial nodes)) children r id)
    (kept : ∀ id, directs ownership id = directs (initial nodes) id) :
    Resolved nodes edges ownership := by
  have entry : ∀ node ∈ nodes, ∃ owner, ownership[node.id]? = some owner ∧
      owner.direct = node.repoId.isSome ∧ ∀ r, r ∈ owner.repositories ↔ ∃ root ∈ nodes,
        root.repoId = some r ∧ (root.id = node.id ∨
          takes (initial nodes) node.id = true ∧ Inherits nodes edges root.id node.id) := by
    intro node listed
    have same := kept node.id
    rw [directs, directs, (getElem?_initial distinct).mpr ⟨node, listed, rfl, rfl⟩] at same
    obtain ⟨owner, found, direct⟩ := Option.map_eq_some_iff.mp same
    refine ⟨owner, found, direct, fun r => ?_⟩
    rw [← reaches_iff distinct below, ← exact', held, found]
    exact mem_owners.symm
  have only : ∀ node ∈ nodes, ∀ root ∈ nodes, root.id = node.id → root = node :=
    fun node listed root listed' same => List.inj_on_of_nodup_map distinct listed' listed same
  constructor
  · intro id
    have known : id ∈ initial nodes ↔ ∃ node ∈ nodes, node.id = id := by
      rw [Std.ExtTreeMap.mem_iff_isSome_getElem?, Option.isSome_iff_exists]
      simp only [getElem?_initial distinct]
      constructor
      · rintro ⟨_, node, listed, same, -⟩
        exact ⟨node, listed, same⟩
      · rintro ⟨node, listed, same⟩
        exact ⟨_, node, listed, same, rfl⟩
    have sizes : ownership[id]?.isSome = (initial nodes)[id]?.isSome := by
      simpa [directs] using congrArg Option.isSome (kept id)
    rw [← known, Std.ExtTreeMap.mem_iff_isSome_getElem?, Std.ExtTreeMap.mem_iff_isSome_getElem?, sizes]
  · intro node listed repository names
    obtain ⟨owner, found, direct, owned⟩ := entry node listed
    have closed : takes (initial nodes) node.id = false := by
      rw [takes, (getElem?_initial distinct).mpr ⟨node, listed, rfl, rfl⟩]
      simp [ownOf, names]
    refine ⟨owner, found, by rw [direct, names]; rfl, fun r => ?_⟩
    rw [owned]
    constructor
    · rintro ⟨root, listed', names', same | ⟨takes', -⟩⟩
      · obtain rfl := only node listed root listed' same
        exact Option.some.inj (names'.symm.trans names)
      · rw [closed] at takes'
        cases takes'
    · rintro rfl
      exact ⟨node, listed, names, .inl rfl⟩
  · intro node listed none
    obtain ⟨owner, found, direct, owned⟩ := entry node listed
    refine ⟨owner, found, by rw [direct, none]; rfl, fun r => ?_⟩
    rw [owned]
    refine exists_congr fun root => and_congr_right fun listed' => and_congr_right fun names => ?_
    constructor
    · rintro (same | ⟨-, inherits⟩)
      · obtain rfl := only node listed root listed' same
        rw [none] at names
        cases names
      · exact inherits
    · exact fun inherits => .inr ⟨(takes_initial distinct).mpr ⟨node, listed, rfl, none⟩, inherits⟩

theorem resolveRepositoryOwnership_eq {shouldStop : Stop}
    {found : BTreeMap NodeId (List NodeId) × Nat}
    (scanned : collectChildren shouldStop (indexNodes nodes) 0 0 ∅ edges = .ok found) (fuel : Nat) :
    resolveRepositoryOwnership fuel nodes edges shouldStop =
      run (Worklist.turn shouldStop (found.1.map fun _ values => sortDedup id values)) fuel
        { ownership := initial nodes
          queue := ((initial nodes).toList.filter
            fun entry => !entry.2.repositories.isEmpty).map Prod.fst
          work := 0
          calls := found.2 } := by
  unfold resolveRepositoryOwnership
  simp only [scanned]
  rfl

theorem resolves (edges : List Edge) (distinct : (nodes.map (·.id)).Nodup) : ∃ fuel ownership,
    resolveRepositoryOwnership fuel nodes edges (fun _ => false) = some (.ok ownership) ∧
      Resolved nodes edges ownership := by
  obtain ⟨⟨collected, calls⟩, scanned, each⟩ :=
    collectChildren_ok edges (indexNodes nodes) 0 0 ∅
  have each' : ∀ parent : NodeId, collected[parent]?.getD [] =
      ((edges.filter (contains (indexNodes nodes))).filter fun edge => edge.source = parent).map
        (·.target) := by
    intro parent
    rw [each parent]
    simp
  have below := fun parent child => mem_below distinct each' parent child
  have known : ∀ k : NodeId, ∀ k' ∈ ((collected.map fun _ values => sortDedup id values)[k]?.getD []).filter
      (takes (initial nodes)), k' ∈ (nodes.map (·.id)).toFinset := by
    intro k k' mem
    obtain ⟨node, listed, rfl, -⟩ := (takes_initial distinct).mp ((below k k').mp mem).2
    exact List.mem_toFinset.mpr (List.mem_map_of_mem listed)
  have bounded : ∀ k, held (initial nodes) k ⊆ (nodes.filterMap (·.repoId)).toFinset := by
    intro k r mem
    obtain ⟨node, listed, -, names⟩ := (mem_held_initial distinct).mp mem
    exact List.mem_toFinset.mpr (List.mem_filterMap.mpr ⟨node, listed, names⟩)
  obtain ⟨found, spread⟩ := Option.isSome_iff_exists.mp
    (run_isSome (terminates known) _ (view (initial nodes, ((initial nodes).toList.filter
      fun entry => !entry.2.repositories.isEmpty).map Prod.fst)) bounded (Nat.lt_succ_self _))
  have exact' := fun id r => run_exact (k := id) (v := r)
    (settling_start fun id outside => held_initial_unqueued nodes outside) spread
  obtain ⟨ownership, ran, rfl, kept⟩ := run_follows
    (w := { ownership := initial nodes, queue := _, work := 0, calls }) (fun _ => rfl) spread
  exact ⟨_, ownership, (resolveRepositoryOwnership_eq scanned _).trans ran,
    resolved_of_reaches distinct below exact' kept⟩

theorem resolveRepositoryOwnership_mono {fuel more : Nat} (le : fuel ≤ more) {shouldStop : Stop}
    {result : Except Unit (BTreeMap NodeId RepositoryOwnership)}
    (resolved : resolveRepositoryOwnership fuel nodes edges shouldStop = some result) :
    resolveRepositoryOwnership more nodes edges shouldStop = some result := by
  cases scanned : collectChildren shouldStop (indexNodes nodes) 0 0 ∅ edges with
  | error stopped =>
    unfold resolveRepositoryOwnership at resolved ⊢
    simpa only [scanned] using resolved
  | ok found =>
    rw [resolveRepositoryOwnership_eq scanned] at resolved ⊢
    exact run_mono le resolved

/-- A loop without a stop ends with the containment closure of the direct owners, in
whatever order the nodes and the edges come. -/
theorem resolveRepositoryOwnership_closure (nodes : List Node) (edges : List Edge)
    (distinct : (nodes.map (·.id)).Nodup) :
    ∃ ownership, Resolved nodes edges ownership ∧
      ∀ nodes' edges', nodes'.Perm nodes → edges'.Perm edges → ∃ fuel, ∀ more ≥ fuel,
        resolveRepositoryOwnership more nodes' edges' (fun _ => false) = some (.ok ownership) := by
  obtain ⟨_, ownership, -, resolved⟩ := resolves edges distinct
  refine ⟨ownership, resolved, fun nodes' edges' same same' => ?_⟩
  have distinct' : (nodes'.map (·.id)).Nodup := (same.map _).nodup_iff.mpr distinct
  obtain ⟨fuel, ownership', ran, resolved'⟩ := resolves edges' distinct'
  obtain rfl := resolved.unique (resolved'.perm same same')
  exact ⟨fuel, fun more le => resolveRepositoryOwnership_mono le ran⟩

/-- A direct owner above a cycle of two nodes without one. -/
def cycleNodes : List Node :=
  [{ id := "left", kind := .artifact, repoId := none, stableKey := "left", label := "left" },
    { id := "root", kind := .artifact, repoId := some "repo:a", stableKey := "root", label := "root" },
    { id := "right", kind := .artifact, repoId := none, stableKey := "right", label := "right" }]

def cycleEdge (id source target : String) : Edge :=
  { id, source, target, kind := .contains, confidence := .ofNat 1, status := .confirmed, evidence := [] }

def cycleEdges : List Edge :=
  [cycleEdge "1" "left" "right", cycleEdge "2" "root" "left", cycleEdge "3" "right" "left"]

theorem resolveRepositoryOwnership_cycle :
    ∃ ownership, Resolved cycleNodes cycleEdges ownership ∧
      ∀ nodes' edges', nodes'.Perm cycleNodes → edges'.Perm cycleEdges → ∃ fuel, ∀ more ≥ fuel,
        resolveRepositoryOwnership more nodes' edges' (fun _ => false) = some (.ok ownership) :=
  resolveRepositoryOwnership_closure cycleNodes cycleEdges (by decide)

example : (match resolveRepositoryOwnership 9 cycleNodes cycleEdges (fun _ => false) with
    | some (.ok ownership) => ownership["right"]?.map (·.repositories.toList)
    | _ => none) = some ["repo:a"] := by decide +kernel

end Result

end CodeSystemGraph.Ownership
