import CodeSystemGraph.Ordered

/-! Tables as lists of rows with a key, and the reconciliation of the rows of one
scope with a list of candidates by key and digest: what is stored with the
digest of the candidate is left alone, everything else is written, and the keys
that no candidate claims are left over to be deleted. -/

namespace CodeSystemGraph.Relational
open Ordered

section Table

variable {Row K : Type} [DecidableEq K] (key : Row → K)

def lookup (k : K) (table : List Row) : Option Row := table.find? fun row => key row = k

/-- `INSERT .. ON CONFLICT(key) DO UPDATE` of every other column. -/
def put (table : List Row) (row : Row) : List Row :=
  if (lookup key (key row) table).isSome then
    table.map fun other => if key other = key row then row else other
  else table ++ [row]

/-- A `DELETE` by key followed by an `INSERT`. -/
def replace (table : List Row) (row : Row) : List Row :=
  (table.filter fun other => key other ≠ key row) ++ [row]

variable {key}

theorem lookup_eq_some {k : K} {table : List Row} {row : Row} (h : lookup key k table = some row) :
    row ∈ table ∧ key row = k :=
  ⟨List.mem_of_find?_eq_some h, by simpa using List.find?_some h⟩

theorem lookup_eq_none {k : K} {table : List Row} :
    lookup key k table = none ↔ ∀ row ∈ table, key row ≠ k := by
  simp [lookup]

theorem mem_iff_lookup {table : List Row} (nodup : (table.map key).Nodup) {row : Row} :
    row ∈ table ↔ lookup key (key row) table = some row := by
  refine ⟨fun mem => ?_, fun found => (lookup_eq_some found).1⟩
  cases found : lookup key (key row) table with
  | none => exact absurd rfl (lookup_eq_none.mp found row mem)
  | some other =>
    obtain ⟨mem', same⟩ := lookup_eq_some found
    rw [List.inj_on_of_nodup_map nodup mem' mem same]

theorem lookup_cons (k : K) (row : Row) (table : List Row) :
    lookup key k (row :: table) = if key row = k then some row else lookup key k table := by
  by_cases same : key row = k <;> simp [lookup, same]

theorem lookup_append (k : K) (table table' : List Row) :
    lookup key k (table ++ table') = (lookup key k table).or (lookup key k table') :=
  List.find?_append

theorem lookup_filter (keep : K → Bool) (k : K) (table : List Row) :
    lookup key k (table.filter fun row => keep (key row)) =
      if keep k then lookup key k table else none := by
  induction table with
  | nil => simp [lookup]
  | cons row table ih =>
    rw [List.filter_cons, lookup_cons]
    by_cases same : key row = k
    · subst same
      by_cases kept : keep (key row)
      · simp [kept, lookup_cons]
      · simpa [kept] using ih
    · by_cases kept : keep (key row)
      · simp [kept, lookup_cons, same, ih]
      · simp [kept, same, ih]

theorem lookup_map {Item K' : Type} [DecidableEq K'] {itemKey : Item → K'} {rowOf : Item → Row}
    {k : K} {k' : K'} (keys : ∀ item, key (rowOf item) = k ↔ itemKey item = k') (items : List Item) :
    lookup key k (items.map rowOf) = (lookup itemKey k' items).map rowOf := by
  induction items with
  | nil => rfl
  | cons item items ih =>
    rw [List.map_cons, lookup_cons, lookup_cons, ih]
    by_cases here : itemKey item = k'
    · simp [here, (keys item).mpr here]
    · simp [here, mt (keys item).mp here]

theorem lookup_put (table : List Row) (row : Row) (k : K) :
    lookup key k (put key table row) = if key row = k then some row else lookup key k table := by
  unfold put
  split
  · next present =>
    have mapped : ∀ table : List Row, lookup key k (table.map fun other =>
        if key other = key row then row else other) =
        if key row = k then (lookup key k table).map fun _ => row else lookup key k table := by
      intro table
      induction table with
      | nil => simp [lookup]
      | cons other table ih =>
        rw [List.map_cons, lookup_cons, lookup_cons, ih]
        by_cases here : key other = key row
        · by_cases same : key row = k <;> simp [here, same]
        · by_cases same : key row = k
          · simp [same ▸ here, same]
          · simp [here, same]
    rw [mapped]
    split
    · next same =>
      subst same
      obtain ⟨found, is⟩ := Option.isSome_iff_exists.mp present
      rw [is, Option.map_some]
    · rfl
  · next absent =>
    rw [lookup_append]
    simp only [Option.isSome_iff_ne_none, ne_eq, not_not] at absent
    by_cases same : key row = k
    · subst same
      rw [absent]
      simp [lookup]
    · simp [lookup, same]

theorem lookup_replace (table : List Row) (row : Row) (k : K) :
    lookup key k (replace key table row) = if key row = k then some row else lookup key k table := by
  have kept := @lookup_filter _ _ _ key (fun other => decide (other ≠ key row)) k table
  rw [replace, lookup_append, kept]
  by_cases same : key row = k
  · simp [same, lookup]
  · simp [lookup, same, Ne.symm same]

theorem lookup_foldl {write : List Row → Row → List Row}
    (writes : ∀ table row k, lookup key k (write table row) =
      if key row = k then some row else lookup key k table)
    {rows : List Row} (nodup : (rows.map key).Nodup) (table : List Row) (k : K) :
    lookup key k (rows.foldl write table) = (lookup key k rows).or (lookup key k table) := by
  induction rows generalizing table with
  | nil => rfl
  | cons row rows ih =>
    rw [List.map_cons, List.nodup_cons] at nodup
    rw [List.foldl_cons, ih nodup.2, writes, lookup_cons]
    by_cases same : key row = k
    · have absent : lookup key k rows = none :=
        lookup_eq_none.mpr fun other mem eq =>
          nodup.1 (List.mem_map.mpr ⟨other, mem, eq.trans same.symm⟩)
      simp [same, absent]
    · simp [same]

theorem filter_put {keep : Row → Bool} {row : Row} (outside : ∀ other, key other = key row → keep other = false)
    (table : List Row) : (put key table row).filter keep = table.filter keep := by
  unfold put
  split
  · have mapped : ∀ table : List Row, (table.map fun other =>
        if key other = key row then row else other).filter keep = table.filter keep := by
      intro table
      induction table with
      | nil => rfl
      | cons other table ih =>
        rw [List.map_cons, List.filter_cons, List.filter_cons, ih]
        by_cases here : key other = key row
        · simp [here, outside row rfl, outside other here]
        · simp [here]
    exact mapped table
  · simp [outside row rfl]

theorem filter_replace {keep : Row → Bool} {row : Row}
    (outside : ∀ other, key other = key row → keep other = false) (table : List Row) :
    (replace key table row).filter keep = table.filter keep := by
  rw [replace, List.filter_append, List.filter_filter]
  have last : [row].filter keep = [] := by simp [outside row rfl]
  rw [last, List.append_nil]
  refine List.filter_congr fun other _ => ?_
  by_cases here : key other = key row
  · simp [outside other here]
  · simp [here]

end Table

theorem filter_foldl {Row α : Type} {write : List Row → α → List Row} {keep : Row → Bool}
    {items : List α} (writes : ∀ item ∈ items, ∀ table, (write table item).filter keep = table.filter keep)
    (table : List Row) : (items.foldl write table).filter keep = table.filter keep := by
  induction items generalizing table with
  | nil => rfl
  | cons item items ih =>
    rw [List.foldl_cons, ih fun other mem => writes other (List.mem_cons_of_mem _ mem),
      writes item List.mem_cons_self]

def Exactly {Row : Type} (table candidate : List Row) : Prop :=
  table.Nodup ∧ ∀ row, row ∈ table ↔ row ∈ candidate

theorem exactly_scope {Row Item S K : Type} [DecidableEq S] [DecidableEq K] {key : Row → S × K}
    {scope : S} (itemKey : Item → K) (rowOf : Item → Row) {table : List Row}
    (nodup : (table.map key).Nodup) (rowKey : ∀ item, key (rowOf item) = (scope, itemKey item))
    {items : List Item} (distinct : (items.map itemKey).Nodup)
    (found : ∀ k, lookup key (scope, k) table = (lookup itemKey k items).map rowOf) :
    Exactly (table.filter fun row => (key row).1 = scope) (items.map rowOf) := by
  refine ⟨nodup.of_map.filter _, fun row => ?_⟩
  rw [List.mem_filter, List.mem_map]
  constructor
  · rintro ⟨mem, here⟩
    have is := (mem_iff_lookup nodup).mp mem
    have split : key row = (scope, (key row).2) := Prod.ext (by simpa using here) rfl
    rw [split, found] at is
    obtain ⟨item, claimed, rfl⟩ := Option.map_eq_some_iff.mp is
    exact ⟨item, (lookup_eq_some claimed).1, rfl⟩
  · rintro ⟨item, mem, rfl⟩
    have claimed := (mem_iff_lookup distinct).mp mem
    have is : lookup key (key (rowOf item)) table = some (rowOf item) := by
      rw [rowKey, found, claimed, Option.map_some]
    exact ⟨(lookup_eq_some is).1, by simp [rowKey]⟩

section Programs

variable {σ α ε : Type}

theorem foldlM_rule {step : σ → α → Except ε σ} (assertion : σ → Prop)
    (preserved : ∀ s a s', assertion s → step s a = .ok s' → assertion s')
    {l : List α} {s s' : σ} (h : l.foldlM step s = .ok s') (start : assertion s) : assertion s' := by
  induction l generalizing s with
  | nil => simpa using (Except.ok.inj h) ▸ start
  | cons a l ih =>
    rw [List.foldlM_cons] at h
    obtain ⟨t, stepped, rest⟩ := bind_eq_ok.mp h
    exact ih rest (preserved s a t start stepped)

theorem foldlM_each {step : σ → α → Except ε σ} {l : List α} {s s' : σ}
    (h : l.foldlM step s = .ok s') : ∀ a ∈ l, ∃ before after, step before a = .ok after := by
  induction l generalizing s with
  | nil => intro a mem; cases mem
  | cons head tail ih =>
    obtain ⟨next, stepped, rest⟩ := bind_eq_ok.mp h
    intro a mem
    cases List.mem_cons.mp mem with
    | inl same => exact ⟨s, next, same ▸ stepped⟩
    | inr later => exact ih rest a later

theorem foldlM_total {step : σ → α → Except ε σ} (assertion : List α → σ → Prop)
    (steps : ∀ a l s, assertion (a :: l) s → ∃ s', step s a = .ok s' ∧ assertion l s') :
    ∀ {l : List α} {s : σ}, assertion l s → ∃ s', l.foldlM step s = .ok s' ∧ assertion [] s' := by
  intro l
  induction l with
  | nil => intro s start; exact ⟨s, rfl, start⟩
  | cons a l ih =>
    intro s start
    obtain ⟨t, stepped, next⟩ := steps a l s start
    obtain ⟨s', rest, done⟩ := ih next
    exact ⟨s', by rw [List.foldlM_cons]; exact bind_eq_ok.mpr ⟨t, stepped, rest⟩, done⟩

theorem foldlM_eq_foldl {step : σ → α → Except ε σ} {update : σ → α → σ}
    (steps : ∀ s a s', step s a = .ok s' → s' = update s a)
    {l : List α} {s s' : σ} (h : l.foldlM step s = .ok s') : s' = l.foldl update s := by
  induction l generalizing s with
  | nil => exact (Except.ok.inj h).symm
  | cons a l ih =>
    rw [List.foldlM_cons] at h
    obtain ⟨t, stepped, rest⟩ := bind_eq_ok.mp h
    rw [List.foldl_cons, ← steps s a t stepped]
    exact ih rest

theorem foldlM_put {Row K : Type} [DecidableEq K] (key : Row → K) (get : σ → List Row)
    (set : σ → List Row → σ) (get_set : ∀ s table, get (set s table) = table)
    (set_set : ∀ s table table', set (set s table) table' = set s table')
    (set_get : ∀ s, set s (get s) = s) {row : α → Row} {step : σ → α → Except ε σ}
    (steps : ∀ s a s', step s a = .ok s' → s' = set s (put key (get s) (row a)))
    {l : List α} {s s' : σ} (h : l.foldlM step s = .ok s') :
    s' = set s ((l.map row).foldl (put key) (get s)) := by
  rw [foldlM_eq_foldl steps h]
  clear h
  induction l generalizing s with
  | nil => exact (set_get s).symm
  | cons a l ih => rw [List.foldl_cons, ih, get_set, set_set, List.map_cons, List.foldl_cons]

theorem foldlM_delete {Row K : Type} [DecidableEq K] (key : Row → K) (target : α → K)
    (get : σ → List Row) (set : σ → List Row → σ) (get_set : ∀ s table, get (set s table) = table)
    (set_set : ∀ s table table', set (set s table) table' = set s table')
    (set_get : ∀ s, set s (get s) = s) {step : σ → α → Except ε σ}
    (steps : ∀ s a s', step s a = .ok s' →
      s' = set s ((get s).filter fun row => key row ≠ target a))
    {l : List α} {s s' : σ} (h : l.foldlM step s = .ok s') :
    s' = set s ((get s).filter fun row => key row ∉ l.map target) := by
  rw [foldlM_eq_foldl steps h]
  clear h
  induction l generalizing s with
  | nil => simp [set_get]
  | cons a l ih =>
    rw [List.foldl_cons, ih, get_set, set_set, List.filter_filter]
    congr 1
    refine List.filter_congr fun row _ => ?_
    rw [Bool.eq_iff_iff]
    simp [and_comm]

end Programs

section Reconcile

variable {σ Item K D ε : Type} [DecidableEq K]

/-- `HashMap::remove` on the entries of a map. -/
def erase (k : K) (stored : List (K × D)) : List (K × D) := stored.filter fun entry => entry.1 ≠ k

theorem lookup_erase {k k' : K} (stored : List (K × D)) :
    (erase k stored).lookup k' = if k' = k then none else stored.lookup k' := by
  induction stored with
  | nil => simp [erase]
  | cons entry stored ih =>
    obtain ⟨name, value⟩ := entry
    have step : erase k ((name, value) :: stored) =
        if name = k then erase k stored else (name, value) :: erase k stored := by
      by_cases here : name = k <;> simp [erase, here]
    rw [step, List.lookup_cons]
    by_cases here : name = k
    · subst here
      by_cases same : k' = name
      · simpa [same] using ih
      · simp [same, ih, beq_eq_false_iff_ne.mpr same]
    · by_cases same : k' = name
      · subst same
        simp [here]
      · simp [here, ih, List.lookup_cons, beq_eq_false_iff_ne.mpr same]

variable [DecidableEq D] (key : Item → K) (digest : Item → Except ε D)

/-- One pass over the candidates. Each takes its entry out of `stored`; unless
that had the digest of the candidate, the candidate is written. What no
candidate took is returned. -/
def reconcile (write : σ → Option D → Item → Except ε σ) :
    List Item → List (K × D) → σ → Except ε (σ × List (K × D))
  | [], stored, s => .ok (s, stored)
  | item :: items, stored, s => do
    let current ← digest item
    let previous := stored.lookup (key item)
    let stored := erase (key item) stored
    if previous = some current then
      reconcile write items stored s
    else
      let s ← write s previous item
      reconcile write items stored s

/-- What a pass writes, with the digest that was stored before. -/
def changes (items : List Item) (stored : List (K × D)) : List (Option D × Item) :=
  items.filterMap fun item =>
    match digest item with
    | .ok current =>
      if stored.lookup (key item) = some current then none
      else some (stored.lookup (key item), item)
    | .error _ => none

theorem changes_sublist (items : List Item) (stored : List (K × D)) :
    ((changes key digest items stored).map Prod.snd).Sublist items := by
  induction items with
  | nil => exact List.Sublist.refl _
  | cons item items ih =>
    unfold changes at ih ⊢
    rw [List.filterMap_cons]
    cases digest item with
    | error failure => exact ih.cons item
    | ok current =>
      by_cases same : stored.lookup (key item) = some current
      · simpa [same] using ih.cons item
      · simpa [same] using ih

theorem mem_changes {items : List Item} {stored : List (K × D)} {change : Option D × Item}
    (mem : change ∈ changes key digest items stored) : change.2 ∈ items :=
  (changes_sublist key digest items stored).subset (List.mem_map.mpr ⟨change, mem, rfl⟩)

theorem previous_of_mem_changes {items : List Item} {stored : List (K × D)}
    {change : Option D × Item} (mem : change ∈ changes key digest items stored) :
    change.1 = stored.lookup (key change.2) := by
  obtain ⟨item, -, is⟩ := List.mem_filterMap.mp mem
  cases current : digest item with
  | error failure => simp [current] at is
  | ok current' =>
    simp only [current] at is
    split at is
    · cases is
    · obtain rfl := Option.some.inj is
      rfl

theorem changes_erase {items : List Item} {k : K} (fresh : k ∉ items.map key)
    (stored : List (K × D)) :
    changes key digest items (erase k stored) = changes key digest items stored := by
  refine List.filterMap_congr fun item mem => ?_
  have differ : key item ≠ k := fun same => fresh (List.mem_map.mpr ⟨item, mem, same⟩)
  simp [lookup_erase, differ]

theorem reconcile_eq_ok {write : σ → Option D → Item → Except ε σ} {items : List Item}
    (distinct : (items.map key).Nodup) {stored left : List (K × D)} {s s' : σ}
    (h : reconcile key digest write items stored s = .ok (s', left)) :
    (changes key digest items stored).foldlM (fun s change => write s change.1 change.2) s = .ok s' ∧
      left = (stored.filter fun entry => entry.1 ∉ items.map key) ∧
      ∀ item ∈ items, ∃ current, digest item = .ok current := by
  induction items generalizing stored s with
  | nil =>
    obtain ⟨rfl, rfl⟩ := Prod.mk.inj (Except.ok.inj h)
    exact ⟨rfl, by simp, by simp⟩
  | cons item items ih =>
    rw [List.map_cons, List.nodup_cons] at distinct
    obtain ⟨current, is, rest⟩ := bind_eq_ok.mp h
    have unerase := changes_erase key digest distinct.1 stored
    have leftover : (erase (key item) stored).filter (fun entry => entry.1 ∉ items.map key) =
        stored.filter fun entry => entry.1 ∉ (item :: items).map key := by
      rw [erase, List.filter_filter]
      refine List.filter_congr fun entry _ => ?_
      rw [List.map_cons, Bool.eq_iff_iff]
      simp [List.mem_cons, and_comm]
    have digests : ∀ tail : (∀ other ∈ items, ∃ current, digest other = .ok current),
        ∀ other ∈ item :: items, ∃ current, digest other = .ok current := by
      intro tail other mem
      rcases List.mem_cons.mp mem with rfl | mem
      · exact ⟨current, is⟩
      · exact tail other mem
    dsimp only at rest
    split at rest
    · next unchanged =>
      obtain ⟨written, rfl, all⟩ := ih distinct.2 rest
      refine ⟨?_, leftover, digests all⟩
      rw [unerase] at written
      simpa [changes, is, unchanged] using written
    · next changed =>
      obtain ⟨t, stepped, rest⟩ := bind_eq_ok.mp rest
      obtain ⟨written, rfl, all⟩ := ih distinct.2 rest
      refine ⟨?_, leftover, digests all⟩
      rw [unerase] at written
      simp only [changes, List.filterMap_cons, is, changed, ↓reduceIte, List.foldlM_cons]
      exact bind_eq_ok.mpr ⟨t, stepped, written⟩

theorem reconcile_rule {write : σ → Option D → Item → Except ε σ}
    (assertion : List (K × D) → σ → Prop) {items : List Item}
    (taken : ∀ item ∈ items, ∀ stored s, assertion stored s → assertion (erase (key item) stored) s)
    (written : ∀ item ∈ items, ∀ stored s previous s', assertion stored s →
      write s previous item = .ok s' → assertion stored s')
    {stored left : List (K × D)} {s s' : σ}
    (h : reconcile key digest write items stored s = .ok (s', left)) (start : assertion stored s) :
    assertion left s' := by
  induction items generalizing stored s with
  | nil =>
    obtain ⟨rfl, rfl⟩ := Prod.mk.inj (Except.ok.inj h)
    exact start
  | cons item items ih =>
    have later := @ih (fun item mem => taken item (List.mem_cons_of_mem _ mem))
      (fun item mem => written item (List.mem_cons_of_mem _ mem))
    have claimed := taken item List.mem_cons_self stored s start
    obtain ⟨current, -, rest⟩ := bind_eq_ok.mp h
    dsimp only at rest
    split at rest
    · exact later rest claimed
    · obtain ⟨t, stepped, rest⟩ := bind_eq_ok.mp rest
      exact later rest (written item List.mem_cons_self _ s _ t claimed stepped)

theorem reconcile_view {V : Type} {view : σ → V} {write : σ → Option D → Item → Except ε σ}
    {items : List Item} {stored left : List (K × D)} {s s' : σ}
    (h : reconcile key digest write items stored s = .ok (s', left))
    (steps : ∀ s previous item s', write s previous item = .ok s' → view s' = view s) :
    view s' = view s :=
  reconcile_rule key digest (fun _ t => view t = view s) (fun _ _ _ _ same => same)
    (fun item _ _ t previous _ same step => (steps t previous item _ step).trans same) h rfl

theorem reconcile_total (write : σ → Option D → Item → Except ε σ) (inv : σ → Prop)
    {items : List Item} (digests : ∀ item ∈ items, ∃ current, digest item = .ok current)
    (writes : ∀ s previous, ∀ item ∈ items, inv s → ∃ s', write s previous item = .ok s' ∧ inv s') :
    ∀ (stored : List (K × D)) (s : σ), inv s →
      ∃ s' left, reconcile key digest write items stored s = .ok (s', left) ∧ inv s' := by
  induction items with
  | nil => intro stored s start; exact ⟨s, stored, rfl, start⟩
  | cons item items ih =>
    intro stored s start
    obtain ⟨⟨current, is⟩, digests⟩ := List.forall_mem_cons.mp digests
    have later := ih digests fun s previous item mem => writes s previous item (List.mem_cons_of_mem _ mem)
    rw [reconcile, is, ok_bind]
    dsimp only
    split
    · exact later _ s start
    · obtain ⟨t, stepped, kept⟩ := writes s _ item List.mem_cons_self start
      obtain ⟨s', left, rest, done⟩ := later _ t kept
      exact ⟨s', left, bind_eq_ok.mpr ⟨t, stepped, rest⟩, done⟩

theorem reconcile_put {Row R : Type} [DecidableEq R] (rowKey : Row → R) (rowOf : Item → Row)
    (get : σ → List Row) (set : σ → List Row → σ) (get_set : ∀ s table, get (set s table) = table)
    (set_set : ∀ s table table', set (set s table) table' = set s table')
    (set_get : ∀ s, set s (get s) = s) {write : σ → Option D → Item → Except ε σ}
    (writes : ∀ s previous item s', write s previous item = .ok s' →
      s' = set s (put rowKey (get s) (rowOf item)))
    {items : List Item} (distinct : (items.map key).Nodup) {stored left : List (K × D)} {s s' : σ}
    (h : reconcile key digest write items stored s = .ok (s', left)) :
    s' = set s (((changes key digest items stored).map fun change => rowOf change.2).foldl
      (put rowKey) (get s)) ∧
      (∀ k, k ∈ left.map Prod.fst ↔ k ∈ stored.map Prod.fst ∧ k ∉ items.map key) ∧
      ∀ item ∈ items, ∃ current, digest item = .ok current := by
  obtain ⟨written, rfl, digests⟩ := reconcile_eq_ok key digest distinct h
  refine ⟨foldlM_put rowKey get set get_set set_set set_get
    (fun s change s' step => writes s change.1 change.2 s' step) written, fun k => ?_, digests⟩
  simp only [List.mem_map, List.mem_filter, decide_eq_true_eq]
  constructor
  · rintro ⟨entry, ⟨mem, outside⟩, rfl⟩
    exact ⟨⟨entry, mem, rfl⟩, outside⟩
  · rintro ⟨⟨entry, mem, rfl⟩, outside⟩
    exact ⟨entry, ⟨mem, outside⟩, rfl⟩

theorem reconciled {Row : Type} {before after : K → Option Row} {digestRow : Row → D}
    {rowOf : Item → Row} {items : List Item} (distinct : (items.map key).Nodup)
    {stored : List (K × D)} (loaded : ∀ k, stored.lookup k = (before k).map digestRow)
    (digests : ∀ item ∈ items, ∃ current, digest item = .ok current)
    (faithful : ∀ item ∈ items, ∀ row, before (key item) = some row →
      digest item = .ok (digestRow row) → row = rowOf item)
    (written : ∀ k, after k =
      ((lookup (fun change => key change.2) k (changes key digest items stored)).map
        fun change => rowOf change.2).or (if k ∈ items.map key then before k else none)) (k : K) :
    after k = (lookup key k items).map rowOf := by
  rw [written]
  cases claimed : lookup key k items with
  | none =>
    have outside : k ∉ items.map key := by
      intro mem
      obtain ⟨item, mem, same⟩ := List.mem_map.mp mem
      exact lookup_eq_none.mp claimed item mem same
    have unwritten : lookup (fun change => key change.2) k (changes key digest items stored) = none := by
      refine lookup_eq_none.mpr fun change mem same => outside ?_
      exact List.mem_map.mpr ⟨change.2, mem_changes key digest mem, same⟩
    simp [unwritten, outside]
  | some item =>
    obtain ⟨mem, rfl⟩ := lookup_eq_some claimed
    obtain ⟨current, is⟩ := digests item mem
    -- the change of an item is the only one under its key
    have unique : ∀ change ∈ changes key digest items stored, key change.2 = key item →
        change.2 = item := fun change inChanges same =>
      List.inj_on_of_nodup_map distinct (mem_changes key digest inChanges) mem same
    cases found : lookup (fun change => key change.2) (key item) (changes key digest items stored) with
    | some change =>
      obtain ⟨inChanges, same⟩ := lookup_eq_some found
      simp [unique change inChanges same]
    | none =>
      have same : stored.lookup (key item) = some current := by
        by_contra changed
        refine lookup_eq_none.mp found (stored.lookup (key item), item)
          (List.mem_filterMap.mpr ⟨item, mem, ?_⟩) rfl
        simp [is, changed]
      rw [loaded] at same
      obtain ⟨row, stands, digested⟩ := Option.map_eq_some_iff.mp same
      have eq := faithful item mem row stands (digested ▸ is)
      have claimed' : key item ∈ items.map key := List.mem_map.mpr ⟨item, mem, rfl⟩
      simp [claimed', stands, eq]

end Reconcile

section Sweep

/-! A table of which one scope is reconciled by upserts and swept afterwards. -/

variable {Row Item S K D ε : Type} [DecidableEq S]
variable (key : Row → S × K) (digestRow : Row → D) (scope : S)

/-- The keys and digests of the rows of the scope. -/
def load (table : List Row) : List (K × D) :=
  (table.filter fun row => (key row).1 = scope).map fun row => ((key row).2, digestRow row)

theorem mem_load {table : List Row} {k : K} :
    k ∈ (load key digestRow scope table).map Prod.fst ↔ (scope, k) ∈ table.map key := by
  simp only [load, List.map_map, List.mem_map, List.mem_filter, Function.comp]
  constructor
  · rintro ⟨row, ⟨mem, here⟩, rfl⟩
    exact ⟨row, mem, Prod.ext (by simpa using here) rfl⟩
  · rintro ⟨row, mem, eq⟩
    exact ⟨row, ⟨mem, by simp [eq]⟩, by rw [eq]⟩

variable [DecidableEq K]

theorem load_lookup (table : List Row) (k : K) :
    (load key digestRow scope table).lookup k = (lookup key (scope, k) table).map digestRow := by
  induction table with
  | nil => rfl
  | cons row table ih =>
    rw [lookup_cons]
    by_cases here : (key row).1 = scope
    · by_cases same : (key row).2 = k
      · have eq : key row = (scope, k) := Prod.ext here same
        simp [load, eq]
      · have differ : key row ≠ (scope, k) := fun eq => same (congrArg Prod.snd eq)
        have skip : (k == (key row).2) = false := beq_eq_false_iff_ne.mpr (Ne.symm same)
        simpa [load, here, differ, List.lookup_cons, skip] using ih
    · have differ : key row ≠ (scope, k) := fun eq => here (congrArg Prod.fst eq)
      simpa [load, here, differ] using ih

variable [DecidableEq D]
variable (itemKey : Item → K) (digest : Item → Except ε D) (rowOf : Item → Row)

theorem sweep_exactly {items : List Item} {table swept : List Row}
    (rowKey : ∀ item, key (rowOf item) = (scope, itemKey item))
    (distinct : (items.map itemKey).Nodup)
    (digests : ∀ item ∈ items, ∃ current, digest item = .ok current)
    (faithful : ∀ item ∈ items, ∀ row ∈ table, key row = (scope, itemKey item) →
      digest item = .ok (digestRow row) → row = rowOf item)
    {gone : List (S × K)} (leftover : ∀ k, (scope, k) ∈ gone ↔
      (scope, k) ∈ table.map key ∧ k ∉ items.map itemKey)
    (inScope : ∀ k ∈ gone, k.1 = scope)
    (result : swept = (((changes itemKey digest items (load key digestRow scope table)).map
      fun change => rowOf change.2).foldl (put key) table).filter fun row => key row ∉ gone)
    (nodup : (swept.map key).Nodup) :
    Exactly (swept.filter fun row => (key row).1 = scope) (items.map rowOf) ∧
      (swept.filter fun row => (key row).1 ≠ scope) =
        table.filter fun row => (key row).1 ≠ scope := by
  have distinctChanges : ((changes itemKey digest items (load key digestRow scope table)).map
      fun change => itemKey change.2).Nodup := by
    have sub := changes_sublist itemKey digest items (load key digestRow scope table)
    have keys := (sub.map itemKey).nodup distinct
    rwa [List.map_map] at keys
  have rows : (((changes itemKey digest items (load key digestRow scope table)).map
      fun change => rowOf change.2).map key).Nodup := by
    rw [List.map_map]
    refine List.Nodup.of_map Prod.snd ?_
    rw [List.map_map]
    refine Eq.mp (congrArg List.Nodup (List.map_congr_left fun change _ => ?_)) distinctChanges
    simp [rowKey]
  constructor
  · have written : ∀ k, lookup key (scope, k) swept =
        ((lookup (fun change => itemKey change.2) k
          (changes itemKey digest items (load key digestRow scope table))).map
            fun change => rowOf change.2).or
          (if k ∈ items.map itemKey then lookup key (scope, k) table else none) := by
      intro k
      have keys : ∀ change : Option D × Item, key (rowOf change.2) = (scope, k) ↔
          itemKey change.2 = k := fun change => by simp [rowKey]
      rw [result, lookup_filter (fun other => decide (other ∉ gone)), lookup_foldl lookup_put rows,
        lookup_map keys]
      by_cases isGone : (scope, k) ∈ gone
      · obtain ⟨-, outside⟩ := (leftover k).mp isGone
        have unwritten : lookup (fun change => itemKey change.2) k
            (changes itemKey digest items (load key digestRow scope table)) = none :=
          lookup_eq_none.mpr fun change mem same =>
            outside (List.mem_map.mpr ⟨change.2, mem_changes itemKey digest mem, same⟩)
        simp [isGone, unwritten, outside]
      · by_cases claimed : k ∈ items.map itemKey
        · simp [isGone, claimed]
        · have absent : lookup key (scope, k) table = none :=
            lookup_eq_none.mpr fun row mem same =>
              isGone ((leftover k).mpr ⟨List.mem_map.mpr ⟨row, mem, same⟩, claimed⟩)
          simp [isGone, claimed, absent]
    exact exactly_scope itemKey rowOf nodup rowKey distinct fun k =>
      reconciled itemKey digest distinct (load_lookup key digestRow scope table) digests
        (fun item mem row stands => faithful item mem row (lookup_eq_some stands).1
          (lookup_eq_some stands).2) written k
  · rw [result, List.filter_filter]
    have outside : ∀ row : Row, (decide ((key row).1 ≠ scope) && decide (key row ∉ gone)) =
        decide ((key row).1 ≠ scope) := by
      intro row
      by_cases here : (key row).1 = scope
      · simp [here]
      · have kept : key row ∉ gone := fun mem => here (inScope _ mem)
        simp [here, kept]
    rw [List.filter_congr fun row _ => outside row]
    refine filter_foldl (fun row mem table => ?_) table
    obtain ⟨change, -, rfl⟩ := List.mem_map.mp mem
    refine filter_put (fun other same => ?_) table
    rw [rowKey] at same
    simp [same]

end Sweep

section Delta

/-! A table of which one scope is brought from one list of items to another by upserts of what is
new and deletes of what is gone. -/

variable {Row Item S K : Type} [DecidableEq S] [DecidableEq K] {key : Row → S × K} {scope : S}
  {itemKey : Item → K} {rowOf : Item → Row}

theorem lookup_scope {table : List Row} (nodup : (table.map key).Nodup)
    (rowKey : ∀ item, key (rowOf item) = (scope, itemKey item)) {items : List Item}
    (exactly : Exactly (table.filter fun row => (key row).1 = scope) (items.map rowOf)) (k : K) :
    lookup key (scope, k) table = (lookup itemKey k items).map rowOf := by
  cases claimed : lookup itemKey k items with
  | none =>
    refine lookup_eq_none.mpr fun row mem same => ?_
    have listed := (exactly.2 row).mp (List.mem_filter.mpr ⟨mem, by simp [same]⟩)
    obtain ⟨item, isItem, rfl⟩ := List.mem_map.mp listed
    rw [rowKey] at same
    exact lookup_eq_none.mp claimed item isItem (congrArg Prod.snd same)
  | some item =>
    obtain ⟨mem, rfl⟩ := lookup_eq_some claimed
    have stored := (List.mem_filter.mp
      ((exactly.2 (rowOf item)).mpr (List.mem_map.mpr ⟨item, mem, rfl⟩))).1
    rw [← rowKey]
    exact (mem_iff_lookup nodup).mp stored

theorem delta_exactly {table swept : List Row} (nodup : (table.map key).Nodup)
    (rowKey : ∀ item, key (rowOf item) = (scope, itemKey item)) {before after written : List Item}
    (distinctBefore : (before.map itemKey).Nodup) (distinct : (after.map itemKey).Nodup)
    (distinctWritten : (written.map itemKey).Nodup)
    (holds : Exactly (table.filter fun row => (key row).1 = scope) (before.map rowOf))
    (candidates : ∀ item ∈ written, item ∈ after)
    (kept : ∀ item ∈ after, item ∈ written ∨ item ∈ before)
    {gone : List (S × K)} (inScope : ∀ k ∈ gone, k.1 = scope)
    (leftover : ∀ item ∈ before, itemKey item ∉ after.map itemKey → (scope, itemKey item) ∈ gone)
    (stays : ∀ item ∈ after, (scope, itemKey item) ∉ gone)
    (result : swept = ((written.map rowOf).foldl (put key) table).filter fun row => key row ∉ gone)
    (nodupSwept : (swept.map key).Nodup) :
    Exactly (swept.filter fun row => (key row).1 = scope) (after.map rowOf) ∧
      (swept.filter fun row => (key row).1 ≠ scope) =
        table.filter fun row => (key row).1 ≠ scope := by
  have rows : ((written.map rowOf).map key).Nodup := by
    refine List.Nodup.of_map Prod.snd ?_
    simpa [Function.comp_def, rowKey] using distinctWritten
  have keys : ∀ (k : K) (item : Item), key (rowOf item) = (scope, k) ↔ itemKey item = k :=
    fun k item => by simp [rowKey]
  constructor
  · refine exactly_scope itemKey rowOf nodupSwept rowKey distinct fun k => ?_
    rw [result, lookup_filter (fun other => decide (other ∉ gone)), lookup_foldl lookup_put rows,
      lookup_map (keys k), lookup_scope nodup rowKey holds]
    cases claimed : lookup itemKey k after with
    | none =>
      have outside : k ∉ after.map itemKey := by
        intro mem
        obtain ⟨item, isItem, same⟩ := List.mem_map.mp mem
        exact lookup_eq_none.mp claimed item isItem same
      have unwritten : lookup itemKey k written = none :=
        lookup_eq_none.mpr fun item mem same =>
          outside (List.mem_map.mpr ⟨item, candidates item mem, same⟩)
      cases old : lookup itemKey k before with
      | none => simp [unwritten]
      | some item =>
        obtain ⟨mem, rfl⟩ := lookup_eq_some old
        simp [leftover item mem outside]
    | some item =>
      obtain ⟨mem, rfl⟩ := lookup_eq_some claimed
      have only : ∀ other ∈ written, itemKey other = itemKey item → other = item :=
        fun other mem' same => List.inj_on_of_nodup_map distinct (candidates other mem') mem same
      have found : ((lookup itemKey (itemKey item) written).map rowOf).or
          ((lookup itemKey (itemKey item) before).map rowOf) = some (rowOf item) := by
        cases new : lookup itemKey (itemKey item) written with
        | some other =>
          obtain ⟨mem', same⟩ := lookup_eq_some new
          simp [only other mem' same]
        | none =>
          have old := (kept item mem).resolve_left fun isNew => lookup_eq_none.mp new item isNew rfl
          simp [(mem_iff_lookup distinctBefore).mp old]
      simp [stays item mem, found]
  · rw [result, List.filter_filter]
    have outside : ∀ row : Row, (decide ((key row).1 ≠ scope) && decide (key row ∉ gone)) =
        decide ((key row).1 ≠ scope) := by
      intro row
      by_cases here : (key row).1 = scope
      · simp [here]
      · have elsewhere : key row ∉ gone := fun mem => here (inScope _ mem)
        simp [here, elsewhere]
    rw [List.filter_congr fun row _ => outside row]
    refine filter_foldl (fun row mem table => ?_) table
    obtain ⟨item, -, rfl⟩ := List.mem_map.mp mem
    refine filter_put (fun other same => ?_) table
    rw [rowKey] at same
    simp [same]

end Delta

end CodeSystemGraph.Relational
