import CodeSystemGraph.RouterMounts

/-!
What the composed paths mean: one for every chain of mounts that leads from a router to a root
without coming by a router twice.
-/

namespace CodeSystemGraph.Sources

open Ordered

section Chains

/-- A chain of mounts from a router to a root with the routers that are mounted on it, and its
texts, the outermost first. -/
inductive MountChain (mounts : Mounts) : SymbolKey → List SymbolKey → String → Prop
  | unmounted {key : SymbolKey} (absent : mounts[key]? = none) : MountChain mounts key [] ""
  | root {key : SymbolKey} {edges : List Mount} {text : String} (found : mounts[key]? = some edges)
      (listed : (none, text) ∈ edges) : MountChain mounts key [key] text
  | under {key parent : SymbolKey} {edges : List Mount} {routers : List SymbolKey}
      {outer text : String} (found : mounts[key]? = some edges)
      (listed : (some parent, text) ∈ edges) (above : MountChain mounts parent routers outer) :
      MountChain mounts key (key :: routers) (outer ++ text)

/-- A chain of at most eight mounts that comes by no router twice. -/
def Composes (mounts : Mounts) (key : SymbolKey) (text : String) : Prop :=
  ∃ routers, MountChain mounts key routers text ∧ routers.Nodup ∧ routers.length ≤ maxMountDepth

inductive Visits (mounts : Mounts) (key : SymbolKey) : SymbolKey → List SymbolKey → Prop
  | start : Visits mounts key key []
  | step {via parent : SymbolKey} {visiting : List SymbolKey} {edges : List Mount} {text : String}
      (before : Visits mounts key via visiting) (found : mounts[via]? = some edges)
      (room : visiting.length < maxMountDepth) (fresh : via ∉ visiting)
      (listed : (some parent, text) ∈ edges) : Visits mounts key parent (visiting ++ [via])

/-- No set of texts on the way to a root exceeds the cap. -/
def Uncapped (mounts : Mounts) (key : SymbolKey) : Prop :=
  ∀ via visiting edges, Visits mounts key via visiting → mounts[via]? = some edges →
    visiting.length < maxMountDepth → via ∉ visiting →
      (gather (fun parent => walk mounts parent (visiting ++ [via])) edges).size ≤ maxComposedPrefixes

variable {mounts : Mounts} {key : SymbolKey}

theorem mem_foldl_insertText {l : List String} {set : BTreeSet String} {text : String} :
    text ∈ l.foldl (fun found text => found.insert text) set ↔ text ∈ set ∨ text ∈ l := by
  induction l generalizing set with
  | nil => simp
  | cons a l ih =>
    rw [List.foldl_cons, ih, Std.ExtTreeSet.mem_insert, Std.LawfulEqCmp.compare_eq_iff_eq,
      List.mem_cons, eq_comm (a := a), or_assoc, or_left_comm]

theorem mem_gather {outer : SymbolKey → List String} {edges : List Mount} {text : String} :
    text ∈ gather outer edges ↔ ∃ edge ∈ edges, ∃ head ∈ edge.1.elim [""] outer, text = head ++ edge.2 := by
  have each : ∀ set : BTreeSet String, text ∈ edges.foldl
      (fun found edge => ((edge.1.elim [""] outer).map fun text => text ++ edge.2).foldl
        (fun found text => found.insert text) found) set ↔
      text ∈ set ∨ ∃ edge ∈ edges, ∃ head ∈ edge.1.elim [""] outer, text = head ++ edge.2 := by
    induction edges with
    | nil => simp
    | cons edge edges ih =>
      intro set
      rw [List.foldl_cons, ih, mem_foldl_insertText, List.mem_map, or_assoc, List.exists_mem_cons_iff]
      simp only [eq_comm (a := text)]
  rw [gather, each]
  simp

theorem walk_mounted {visiting : List SymbolKey} {edges : List Mount} (found : mounts[key]? = some edges)
    (room : visiting.length < maxMountDepth) (fresh : key ∉ visiting) :
    walk mounts key visiting =
      (gather (fun parent => walk mounts parent (visiting ++ [key])) edges).toList.take
        maxComposedPrefixes := by
  rw [walk, found]
  exact dif_neg (not_or.mpr ⟨Nat.not_le.mpr room, fresh⟩)

theorem walk_closed {visiting : List SymbolKey} {edges : List Mount} (found : mounts[key]? = some edges)
    (closed : maxMountDepth ≤ visiting.length ∨ key ∈ visiting) : walk mounts key visiting = [] := by
  rw [walk, found]
  exact dif_pos closed

theorem walk_unmounted {visiting : List SymbolKey} (absent : mounts[key]? = none) :
    walk mounts key visiting = [""] := by
  rw [walk, absent]

theorem length_walk_le (visiting : List SymbolKey) :
    (walk mounts key visiting).length ≤ maxComposedPrefixes := by
  cases found : mounts[key]? with
  | none =>
    rw [walk_unmounted found]
    decide
  | some edges =>
    by_cases closed : maxMountDepth ≤ visiting.length ∨ key ∈ visiting
    · rw [walk_closed found closed]
      exact Nat.zero_le _
    · rw [not_or, not_le] at closed
      rw [walk_mounted found closed.1 closed.2]
      exact List.length_take_le ..

theorem size_foldl_insertText (l : List String) (set : BTreeSet String) :
    (l.foldl (fun found text => found.insert text) set).size ≤ set.size + l.length := by
  induction l generalizing set with
  | nil => exact le_rfl
  | cons text l ih =>
    have one := Std.ExtTreeSet.size_insert_le (t := set) (k := text)
    have rest := ih (set.insert text)
    rw [List.foldl_cons, List.length_cons]
    omega

theorem uncapped_of_single (key : SymbolKey)
    (single : ∀ (via : SymbolKey) (edges : List Mount), mounts[via]? = some edges → edges.length ≤ 1) :
    Uncapped mounts key := by
  intro via visiting edges _ found _ _
  cases edges with
  | nil => exact Nat.zero_le _
  | cons edge rest =>
    obtain rfl : rest = [] := List.length_eq_zero_iff.mp (by simpa using single via _ found)
    refine (size_foldl_insertText _ ∅).trans ?_
    rw [Std.ExtTreeSet.size_empty, Nat.zero_add, List.length_map]
    cases edge.1 with
    | none =>
      have one : 1 ≤ maxComposedPrefixes := by decide
      exact one
    | some parent => exact length_walk_le _

theorem mem_walk (uncapped : Uncapped mounts key) (room : Nat) {via : SymbolKey}
    {visiting : List SymbolKey} (visits : Visits mounts key via visiting)
    (depth : visiting.length + room = maxMountDepth) {text : String} :
    text ∈ walk mounts via visiting ↔ ∃ routers, MountChain mounts via routers text ∧
      routers.Nodup ∧ (∀ router ∈ routers, router ∉ visiting) ∧ routers.length ≤ room := by
  induction room generalizing via visiting text with
  | zero =>
    cases found : mounts[via]? with
    | none =>
      rw [walk_unmounted found, List.mem_singleton]
      constructor
      · rintro rfl
        exact ⟨[], .unmounted found, .nil, by simp, le_rfl⟩
      · rintro ⟨routers, chain, -, -, short⟩
        cases chain with
        | unmounted _ => rfl
        | root _ _ => cases short
        | under _ _ _ => cases short
    | some edges =>
      rw [walk_closed found (.inl depth.symm.le)]
      refine ⟨fun mem => (List.not_mem_nil mem).elim, ?_⟩
      rintro ⟨routers, chain, -, -, short⟩
      cases chain with
      | unmounted absent =>
        rw [found] at absent
        cases absent
      | root _ _ => cases short
      | under _ _ _ => cases short
  | succ room ih =>
    cases found : mounts[via]? with
    | none =>
      rw [walk_unmounted found, List.mem_singleton]
      constructor
      · rintro rfl
        exact ⟨[], .unmounted found, .nil, by simp, Nat.zero_le _⟩
      · rintro ⟨routers, chain, -⟩
        cases chain with
        | unmounted _ => rfl
        | root mounted _ =>
          rw [found] at mounted
          cases mounted
        | under mounted _ _ =>
          rw [found] at mounted
          cases mounted
    | some edges =>
      by_cases fresh : via ∈ visiting
      · rw [walk_closed found (.inr fresh)]
        refine ⟨fun mem => (List.not_mem_nil mem).elim, ?_⟩
        rintro ⟨routers, chain, -, apart, -⟩
        cases chain with
        | unmounted absent =>
          rw [found] at absent
          cases absent
        | root _ _ => exact absurd fresh (apart via List.mem_cons_self)
        | under _ _ _ => exact absurd fresh (apart via List.mem_cons_self)
      · have inside : visiting.length < maxMountDepth := by omega
        rw [walk_mounted found inside fresh, List.take_of_length_le, Std.ExtTreeSet.mem_toList, mem_gather]
        · have further : ∀ {parent below}, (some parent, below) ∈ edges →
              Visits mounts key parent (visiting ++ [via]) :=
            fun listed => .step visits found inside fresh listed
          have deeper : (visiting ++ [via]).length + room = maxMountDepth := by
            rw [List.length_append, List.length_singleton]
            omega
          constructor
          · rintro ⟨⟨parent, below⟩, listed, head, mem, rfl⟩
            cases parent with
            | none =>
              rw [Option.elim_none, List.mem_singleton] at mem
              subst mem
              rw [String.empty_append]
              exact ⟨[via], .root found listed, List.nodup_singleton _, by simpa using fresh, by simp⟩
            | some parent =>
              obtain ⟨routers, chain, nodup, apart, short⟩ := (ih (further listed) deeper).mp mem
              refine ⟨via :: routers, .under found listed chain, ?_, ?_, Nat.succ_le_succ short⟩
              · refine List.nodup_cons.mpr ⟨fun mem => apart via mem ?_, nodup⟩
                exact List.mem_append_right _ (List.mem_singleton_self via)
              · rw [List.forall_mem_cons]
                exact ⟨fresh, fun router mem seen => apart router mem (List.mem_append_left _ seen)⟩
          · rintro ⟨routers, chain, nodup, apart, short⟩
            cases chain with
            | unmounted absent =>
              rw [found] at absent
              cases absent
            | root mounted listed =>
              rw [found] at mounted
              cases mounted
              exact ⟨_, listed, "", by simp, (String.empty_append).symm⟩
            | @under _ parent _ routers outer below mounted listed above =>
              rw [found] at mounted
              cases mounted
              refine ⟨_, listed, outer, ?_, rfl⟩
              obtain ⟨outside, nodup⟩ := List.nodup_cons.mp nodup
              refine (ih (further listed) deeper).mpr ⟨routers, above, nodup, fun router mem seen => ?_,
                Nat.le_of_succ_le_succ short⟩
              rcases List.mem_append.mp seen with seen | seen
              · exact apart router (List.mem_cons_of_mem _ mem) seen
              · rw [List.mem_singleton.mp seen] at mem
                exact outside mem
        · rw [Std.ExtTreeSet.length_toList]
          exact uncapped via visiting edges visits found inside fresh

theorem walk_sorted (visiting : List SymbolKey) : (walk mounts key visiting).Pairwise (· < ·) := by
  cases found : mounts[key]? with
  | none =>
    rw [walk_unmounted found]
    exact List.pairwise_singleton _ _
  | some edges =>
    by_cases closed : maxMountDepth ≤ visiting.length ∨ key ∈ visiting
    · rw [walk_closed found closed]
      exact .nil
    · rw [walk_mounted found (by omega) (not_or.mp closed).2]
      refine List.Pairwise.sublist (List.take_sublist _ _) ?_
      exact Std.ExtTreeSet.ordered_toList.imp fun less => compare_lt_iff_lt.mp less

theorem mem_freshPrefixes (uncapped : Uncapped mounts key) {text : String} :
    text ∈ freshPrefixes mounts key ↔
      Composes mounts key text ∨ (¬∃ other, Composes mounts key other) ∧ text = "" := by
  have found : ∀ {text}, text ∈ walk mounts key [] ↔ Composes mounts key text := by
    intro text
    rw [mem_walk uncapped maxMountDepth .start (Nat.zero_add _)]
    exact exists_congr fun routers => by simp
  unfold freshPrefixes
  cases walked : walk mounts key [] with
  | nil =>
    have none : ∀ other, ¬Composes mounts key other := by
      intro other composes
      rw [← found, walked] at composes
      exact List.not_mem_nil composes
    simp [none]
  | cons head rest =>
    have some' : ∃ other, Composes mounts key other := ⟨head, found.mp (by simp [walked])⟩
    simp only [List.isEmpty_cons, Bool.false_eq_true, if_false, some', not_true_eq_false, false_and,
      or_false]
    rw [← walked]
    exact found

theorem freshPrefixes_sorted (mounts : Mounts) (key : SymbolKey) :
    (freshPrefixes mounts key).Pairwise (· < ·) := by
  change (if (walk mounts key []).isEmpty then [""] else walk mounts key []).Pairwise (· < ·)
  split_ifs
  · exact List.pairwise_singleton _ _
  · exact walk_sorted _

end Chains

section Cache

variable {mounts : Mounts}

def Faithful (mounts : Mounts) (cache : MountCache) : Prop :=
  ∀ key cached, cache[key]? = some cached → cached = freshPrefixes mounts key

theorem faithful_empty : Faithful mounts (∅ : MountCache) := by
  intro key cached found
  simp at found

theorem prefixes_faithful {cache : MountCache} (faithful : Faithful mounts cache) (key : SymbolKey) :
    (prefixes mounts key cache).1 = freshPrefixes mounts key ∧
      Faithful mounts (prefixes mounts key cache).2 := by
  unfold prefixes
  cases found : cache[key]? with
  | some cached => exact ⟨faithful key cached found, faithful⟩
  | none =>
    refine ⟨rfl, fun other cached kept => ?_⟩
    rw [Std.ExtTreeMap.getElem?_insert] at kept
    split_ifs at kept with same
    · obtain rfl := Std.LawfulEqCmp.compare_eq_iff_eq.mp same
      exact (Option.some.inj kept).symm
    · exact faithful other cached kept

def answers (mounts : Mounts) : List SymbolKey → MountCache → List (List String)
  | [], _ => []
  | key :: keys, cache =>
    let found := prefixes mounts key cache
    found.1 :: answers mounts keys found.2

theorem answers_faithful (keys : List SymbolKey) {cache : MountCache} (faithful : Faithful mounts cache) :
    answers mounts keys cache = keys.map (freshPrefixes mounts) := by
  induction keys generalizing cache with
  | nil => rfl
  | cons key keys ih =>
    obtain ⟨same, kept⟩ := prefixes_faithful faithful key
    rw [answers, List.map_cons, same, ih kept]

end Cache

section Composition

namespace RepositoryRouters

variable (routers : RepositoryRouters)

/-- What one observation contributes: a provider on a resolved router one observation for
each of its composed texts, unless the only text is the empty one. -/
def contribution (position : Nat) (observation : SourceObservation) : List SourceObservation :=
  match observation.role with
  | .mount => []
  | .provider =>
    match observation.path, observation.router.bind (routers.symbols.resolve position) with
    | some path, some key =>
      if freshPrefixes routers.mounts key = [""] then [observation]
      else (freshPrefixes routers.mounts key).map (withPath observation path)
    | _, _ => [observation]
  | _ => [observation]

theorem freshPrefixes_ne_nil (mounts : Mounts) (key : SymbolKey) : freshPrefixes mounts key ≠ [] := by
  change (if (walk mounts key []).isEmpty then [""] else walk mounts key []) ≠ []
  split_ifs with empty
  · exact List.cons_ne_nil _ _
  · exact fun none => empty (List.isEmpty_iff.mpr none)

theorem rewriteObservation_faithful (position : Nat) {cache : MountCache}
    (faithful : Faithful routers.mounts cache) (observation : SourceObservation) :
    (routers.rewriteObservation position cache observation).1 =
        routers.contribution position observation ∧
      Faithful routers.mounts (routers.rewriteObservation position cache observation).2 := by
  unfold rewriteObservation contribution
  cases observation.role with
  | provider =>
    cases resolved : observation.router.bind (routers.symbols.resolve position) with
    | none => cases observation.path <;> exact ⟨rfl, faithful⟩
    | some key =>
      obtain ⟨same, kept⟩ := prefixes_faithful faithful key
      cases observation.path with
      | none => exact ⟨rfl, kept⟩
      | some path =>
        have some' : (freshPrefixes routers.mounts key).isEmpty = false :=
          List.isEmpty_eq_false_iff.mpr (freshPrefixes_ne_nil _ _)
        simp only [same, some', Bool.not_false, Bool.true_and, decide_eq_true_eq, ne_eq]
        split_ifs with single
        · exact ⟨rfl, kept⟩
        · exact ⟨rfl, kept⟩
  | consumer => exact ⟨rfl, faithful⟩
  | test => exact ⟨rfl, faithful⟩
  | factory => exact ⟨rfl, faithful⟩
  | mount => exact ⟨rfl, faithful⟩
  | call => exact ⟨rfl, faithful⟩
  | client => exact ⟨rfl, faithful⟩

theorem rewrite_faithful (position : Nat) {cache : MountCache}
    (faithful : Faithful routers.mounts cache) :
    (routers.rewrite position cache).1 =
        (routers.symbols.file position).observations.flatMap (routers.contribution position) ∧
      Faithful routers.mounts (routers.rewrite position cache).2 := by
  have each : ∀ (l done : List SourceObservation) (cache : MountCache), Faithful routers.mounts cache →
      (l.foldl (fun state observation =>
        ((state.1 ++ (routers.rewriteObservation position state.2 observation).1,
          (routers.rewriteObservation position state.2 observation).2) :
            List SourceObservation × MountCache)) (done, cache)).1 =
          done ++ l.flatMap (routers.contribution position) ∧
        Faithful routers.mounts (l.foldl (fun state observation =>
          ((state.1 ++ (routers.rewriteObservation position state.2 observation).1,
            (routers.rewriteObservation position state.2 observation).2) :
              List SourceObservation × MountCache)) (done, cache)).2 := by
    intro l
    induction l with
    | nil => exact fun done cache faithful => ⟨by simp, faithful⟩
    | cons observation l ih =>
      intro done cache faithful
      obtain ⟨same, kept⟩ := routers.rewriteObservation_faithful position faithful observation
      obtain ⟨rest, kept'⟩ := ih (done ++ (routers.rewriteObservation position cache observation).1) _ kept
      refine ⟨?_, kept'⟩
      rw [List.foldl_cons, rest, same, List.flatMap_cons, List.append_assoc]
  exact each _ [] cache faithful

theorem files_new (files : List RepositorySourceFile) (members : List Nat) :
    (RepositoryRouters.new files members).symbols.files =
      (members.filterMap fun index => files[index]?).map fun file => ⟨file.path, file.observations⟩ := by
  have each : ∀ (entries : List (Nat × SourceObservation)) (symbols : RepositorySymbols),
      (entries.foldl declareReferences symbols).files = symbols.files := by
    intro entries
    induction entries with
    | nil => exact fun symbols => rfl
    | cons entry entries ih =>
      intro symbols
      rw [List.foldl_cons, ih]
      have once : ∀ (symbols : RepositorySymbols) (reference : Option SymbolRef),
          (declareReference entry.1 symbols reference).files = symbols.files := by
        intro symbols reference
        unfold declareReference
        split <;> rfl
      exact (once _ _).trans (once _ _)
  exact each _ _

theorem file_new {files : List RepositorySourceFile} {members : List Nat}
    (valid : ∀ index ∈ members, index < files.length) {position index : Nat} {file : RepositorySourceFile}
    (member : members[position]? = some index) (found : files[index]? = some file) :
    (RepositoryRouters.new files members).symbols.file position = ⟨file.path, file.observations⟩ := by
  have listed : (members.filterMap fun index => files[index]?)[position]? = some file := by
    induction members generalizing position with
    | nil => cases member
    | cons first rest ih =>
      obtain ⟨head, there⟩ : ∃ head, files[first]? = some head :=
        ⟨_, List.getElem?_eq_getElem (valid first List.mem_cons_self)⟩
      rw [List.filterMap_cons_some there]
      cases position with
      | zero =>
        cases member
        exact there.symm.trans found
      | succ position => exact ih (fun index mem => valid index (List.mem_cons_of_mem _ mem)) member
  rw [RepositorySymbols.file, files_new, List.getElem?_map, listed]
  rfl

theorem contribution_unmounted (empty : routers.mounts.isEmpty = true) (position : Nat)
    (observation : SourceObservation) : routers.contribution position observation =
      if observation.role ≠ .mount then [observation] else [] := by
  have none : ∀ key, freshPrefixes routers.mounts key = [""] := by
    intro key
    have absent : routers.mounts[key]? = none := by
      rw [Std.ExtTreeMap.isEmpty_iff.mp empty, Std.ExtTreeMap.getElem?_empty]
    unfold freshPrefixes
    rw [walk_unmounted absent]
    rfl
  unfold contribution
  cases observation.role with
  | provider =>
    cases observation.path with
    | none => rfl
    | some path =>
      cases observation.router.bind (routers.symbols.resolve position) with
      | none => rfl
      | some key => exact if_pos (none key)
  | consumer => rfl
  | test => rfl
  | factory => rfl
  | mount => rfl
  | call => rfl
  | client => rfl

end RepositoryRouters

open RepositoryRouters

variable {files : List RepositorySourceFile} {output : List (List SourceObservation)}
  {members : List Nat} {index : Nat}

theorem getElem?_foldl_rewriteFile (routers : RepositoryRouters) (index : Nat) (l : List (Nat × Nat))
    {state : List (List SourceObservation) × MountCache} (faithful : Faithful routers.mounts state.2)
    (nodup : (l.map Prod.fst).Nodup) (inside : index < state.1.length) :
    (index ∉ l.map Prod.fst → (l.foldl routers.rewriteFile state).1[index]? = state.1[index]?) ∧
    ∀ position, (index, position) ∈ l → (l.foldl routers.rewriteFile state).1[index]? =
      some ((routers.symbols.file position).observations.flatMap (routers.contribution position)) := by
  induction l generalizing state with
  | nil => exact ⟨fun _ => rfl, fun position mem => (List.not_mem_nil mem).elim⟩
  | cons entry l ih =>
    obtain ⟨same, kept⟩ := routers.rewrite_faithful entry.2 faithful
    rw [List.map_cons, List.nodup_cons] at nodup
    have inside' : index < (routers.rewriteFile state entry).1.length := by
      rw [rewriteFile, List.length_set]
      exact inside
    obtain ⟨other, here⟩ := ih (show Faithful routers.mounts (routers.rewriteFile state entry).2 from kept)
      nodup.2 inside'
    refine ⟨fun outside => ?_, fun position mem => ?_⟩
    · rw [List.map_cons, List.mem_cons, not_or] at outside
      exact (other outside.2).trans (List.getElem?_set_ne (Ne.symm outside.1))
    · rcases List.mem_cons.mp mem with rfl | mem
      · refine (other nodup.1).trans ?_
        rw [rewriteFile, List.getElem?_set_self inside, same]
      · exact here position mem

theorem getElem?_foldl_withoutMounts (index : Nat) (l : List Nat)
    (output : List (List SourceObservation)) (nodup : l.Nodup) :
    (l.foldl (fun output index => output.modify index withoutMounts) output)[index]? =
      if index ∈ l then output[index]?.map withoutMounts else output[index]? := by
  induction l generalizing output with
  | nil => simp
  | cons first l ih =>
    obtain ⟨fresh, nodup⟩ := List.nodup_cons.mp nodup
    rw [List.foldl_cons, ih _ nodup, List.getElem?_modify]
    by_cases same : first = index
    · subst same
      simp [fresh]
    · simp [same, Ne.symm same]

theorem composeMounts_other (nodup : members.Nodup) (inside : index < output.length)
    (outside : index ∉ members) : (composeMounts files output members)[index]? = output[index]? := by
  have fsts : members.zipIdx.map Prod.fst = members := List.zipIdx_map_fst _ _
  by_cases empty : (RepositoryRouters.new files members).mounts.isEmpty = true
  · rw [composeMounts_of_empty empty, getElem?_foldl_withoutMounts _ _ _ nodup, if_neg outside]
  · rw [composeMounts_of_mounts empty]
    exact (getElem?_foldl_rewriteFile _ index members.zipIdx faithful_empty (by rwa [fsts]) inside).1
      (by rwa [fsts])

theorem composeMounts_member (valid : ∀ index ∈ members, index < files.length) (nodup : members.Nodup)
    {position : Nat} {file : RepositorySourceFile} (member : members[position]? = some index)
    (found : files[index]? = some file) (start : output[index]? = some file.observations) :
    (composeMounts files output members)[index]? =
      some (file.observations.flatMap ((RepositoryRouters.new files members).contribution position)) := by
  have mem : index ∈ members := List.mem_of_getElem? member
  by_cases empty : (RepositoryRouters.new files members).mounts.isEmpty = true
  · rw [composeMounts_of_empty empty, getElem?_foldl_withoutMounts _ _ _ nodup, if_pos mem, start,
      Option.map_some, withoutMounts]
    congr 1
    induction file.observations with
    | nil => rfl
    | cons observation rest ih =>
      rw [List.flatMap_cons, ← ih, contribution_unmounted _ empty, List.filter_cons]
      by_cases mount : observation.role = .mount <;> simp [mount]
  · have inside : index < output.length := (List.getElem?_eq_some_iff.mp start).1
    have fsts : members.zipIdx.map Prod.fst = members := List.zipIdx_map_fst _ _
    have listed : (index, position) ∈ members.zipIdx := List.mem_zipIdx_iff_getElem?.mpr member
    rw [composeMounts_of_mounts empty]
    refine ((getElem?_foldl_rewriteFile _ index members.zipIdx faithful_empty (by rwa [fsts]) inside).2
      position listed).trans ?_
    rw [file_new valid member found]

theorem length_foldl_rewriteFile (routers : RepositoryRouters) (l : List (Nat × Nat))
    (state : List (List SourceObservation) × MountCache) :
    (l.foldl routers.rewriteFile state).1.length = state.1.length := by
  induction l generalizing state with
  | nil => rfl
  | cons entry l ih => rw [List.foldl_cons, ih, rewriteFile, List.length_set]

theorem length_composeMounts (output : List (List SourceObservation)) (members : List Nat) :
    (composeMounts files output members).length = output.length := by
  have dropped : ∀ (l : List Nat) (output : List (List SourceObservation)),
      (l.foldl (fun output index => output.modify index withoutMounts) output).length =
        output.length := by
    intro l
    induction l with
    | nil => exact fun _ => rfl
    | cons first l ih =>
      intro output
      rw [List.foldl_cons, ih, List.length_modify]
  by_cases empty : (RepositoryRouters.new files members).mounts.isEmpty = true
  · rw [composeMounts_of_empty empty, dropped]
  · rw [composeMounts_of_mounts empty, length_foldl_rewriteFile]

theorem getElem?_composeRouterMounts {file : RepositorySourceFile} (found : files[index]? = some file) :
    ∃ members position, (filesByRepository files)[file.repoId]? = some members ∧
      members[position]? = some index ∧
      (composeRouterMounts files)[index]? = some (file.observations.flatMap
        ((RepositoryRouters.new files members).contribution position)) := by
  obtain ⟨members, position, group, member, output, start, -, composed⟩ :=
    foldl_groups length_composeMounts (fun _ _ => composeMounts_other) found
  obtain ⟨nodup, owns⟩ := mem_members group
  have valid : ∀ index ∈ members, index < files.length := by
    intro index mem
    obtain ⟨file', found', -⟩ := (owns index).mp mem
    exact (List.getElem?_eq_some_iff.mp found').1
  exact ⟨members, position, group, member,
    composed.trans (composeMounts_member valid nodup member found start)⟩

theorem prefixes_empty (mounts : Mounts) (key : SymbolKey) :
    (prefixes mounts key ∅).1 = freshPrefixes mounts key :=
  (prefixes_faithful faithful_empty key).1

def Declares (symbols : RepositorySymbols) (entry : Nat × SourceObservation) (child : SymbolKey)
    (mount : Mount) : Prop :=
  entry.2.role = .mount ∧ entry.2.router.bind (symbols.resolve entry.1) = some child ∧
    mount = (entry.2.mountParent.bind (symbols.resolve entry.1),
      (entry.2.path.map prefixText).getD "") ∧ mount.1 ≠ some child

theorem mem_addMount {symbols : RepositorySymbols} {known : Mounts} {entry : Nat × SourceObservation}
    {child : SymbolKey} {mount : Mount} :
    mount ∈ (RepositoryRouters.addMount symbols known entry)[child]?.getD [] ↔
      mount ∈ known[child]?.getD [] ∨ Declares symbols entry child mount := by
  unfold RepositoryRouters.addMount Declares
  by_cases role : entry.2.role = .mount
  · rw [if_pos role]
    cases router : entry.2.router.bind (symbols.resolve entry.1) with
    | none => simp
    | some other =>
      by_cases loop : entry.2.mountParent.bind (symbols.resolve entry.1) = some other
      · have none : ¬(mount = (entry.2.mountParent.bind (symbols.resolve entry.1),
            (entry.2.path.map prefixText).getD "") ∧ mount.1 ≠ some other) := by
          rintro ⟨rfl, apart⟩
          exact apart loop
        simp only [loop, if_true]
        refine (or_iff_left ?_).symm
        rintro ⟨-, same, declared, apart⟩
        obtain rfl := Option.some.inj same
        exact apart (by rw [declared])
      · simp only [loop, if_false, pushTo_getD, List.mem_append]
        by_cases same : other = child
        · subst same
          simp only [if_true, List.mem_singleton, role, true_and]
          refine or_congr_right ⟨?_, fun h => h.1⟩
          rintro rfl
          exact ⟨rfl, loop⟩
        · simp [same]
  · simp [role]

theorem mem_mounts {child : SymbolKey} {mount : Mount} :
    mount ∈ (RepositoryRouters.new files members).mounts[child]?.getD [] ↔
      ∃ position file observation, (members.filterMap (files[·]?))[position]? = some file ∧
        observation ∈ file.observations ∧
        Declares (RepositoryRouters.new files members).symbols (position, observation) child mount := by
  have folded : ∀ (symbols : RepositorySymbols) (entries : List (Nat × SourceObservation)) (mounts : Mounts),
      mount ∈ (entries.foldl (RepositoryRouters.addMount symbols) mounts)[child]?.getD [] ↔
        mount ∈ mounts[child]?.getD [] ∨ ∃ entry ∈ entries, Declares symbols entry child mount := by
    intro symbols entries
    induction entries with
    | nil => simp
    | cons entry entries ih =>
      intro mounts
      rw [List.foldl_cons, ih, mem_addMount, List.exists_mem_cons_iff, or_assoc]
  have sorted : ∀ edges : Option (List Mount),
      mount ∈ (edges.map (sortDedup RepositoryRouters.mountOrder)).getD [] ↔ mount ∈ edges.getD [] := by
    intro edges
    cases edges with
    | none => rfl
    | some edges => exact mem_sortDedup RepositoryRouters.mountOrder
  unfold RepositoryRouters.new
  simp only [Std.ExtTreeMap.getElem?_map, sorted, folded, Std.ExtTreeMap.getElem?_empty,
    Option.getD_none, List.not_mem_nil, false_or, List.mem_flatMap, List.mem_map, Prod.exists,
    List.mem_zipIdx_iff_getElem?]
  constructor
  · rintro ⟨_, _, ⟨file, position, listed, observation, mem, same⟩, declares⟩
    obtain ⟨rfl, rfl⟩ := Prod.mk.inj same
    exact ⟨position, file, observation, listed, mem, declares⟩
  · rintro ⟨position, file, observation, listed, mem, declares⟩
    exact ⟨_, _, ⟨file, position, listed, observation, mem, rfl⟩, declares⟩

def mountObservation (router : String) (parent : Option String) (path : String) : SourceObservation where
  language := .python
  framework := .fastApi
  role := .mount
  path := some path
  router := some (.name router)
  mountParent := parent.map .name
  lines := ⟨5, 5⟩
  status := .confirmed
  confidence := .ofNat 1

/-- `orders` is mounted at `/v1` on `api`, which is mounted at `/api` on the root. -/
def apiFile : RepositorySourceFile where
  repoId := "repo:a"
  path := "src/app.py"
  observations :=
    [{ mountObservation "orders" none "/orders" with role := .provider, method := some "GET" },
      mountObservation "orders" (some "api") "/v1", mountObservation "api" none "/api"]

def apiMounts : Mounts := (RepositoryRouters.new [apiFile] [0]).mounts

end Composition

end CodeSystemGraph.Sources
