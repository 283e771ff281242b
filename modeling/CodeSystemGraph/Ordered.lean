import Mathlib.Data.List.Induction
import Mathlib.Data.List.Sort
import Mathlib.Data.Prod.Lex
import Mathlib.Data.String.Basic
import Std.Data.ExtTreeMap
import Std.Data.ExtTreeSet

/-! Ordered collections and fail-fast checks, as a program with B-tree maps and
stable sorts uses them. The maps are extensional: two maps with the same lookups
are equal, so a result read off a map does not depend on insertion order. -/

namespace CodeSystemGraph.Ordered

abbrev BTreeMap (K V : Type) [Ord K] := Std.ExtTreeMap K V compare
abbrev BTreeSet (K : Type) [Ord K] := Std.ExtTreeSet K compare

section Values

variable {K V : Type} [Ord K] [Std.TransOrd K] [Std.LawfulEqOrd K]

def values (m : BTreeMap K V) : List V := m.toList.map Prod.snd

theorem mem_values {m : BTreeMap K V} {v : V} : v ∈ values m ↔ ∃ k : K, m[k]? = some v := by
  simp [values, Std.ExtTreeMap.mem_toList_iff_getElem?_eq_some]

theorem ofList_congr [BEq K] [LawfulBEq K] [Std.LawfulBEqOrd K] {l l' : List K}
    (same : l.Perm l') : Std.ExtTreeSet.ofList l compare = Std.ExtTreeSet.ofList l' compare := by
  refine Std.ExtTreeSet.ext_mem fun k => ?_
  simp [same.mem_iff]

/-- `entry(k).or_default().push(v)`. -/
def pushTo (m : BTreeMap K (List V)) (k : K) (v : V) : BTreeMap K (List V) :=
  m.alter k fun entries => some (entries.getD [] ++ [v])

theorem pushTo_getD [DecidableEq K] (m : BTreeMap K (List V)) (k k' : K) (v : V) :
    (pushTo m k v)[k']?.getD [] = m[k']?.getD [] ++ if k = k' then [v] else [] := by
  rw [pushTo, Std.ExtTreeMap.getElem?_alter]
  by_cases same : k = k'
  · simp [same]
  · simp [same]

theorem foldl_pushTo_getD [DecidableEq K] {α : Type} (key : α → K) (value : α → V) (l : List α)
    (m : BTreeMap K (List V)) (k : K) :
    (l.foldl (fun m a => pushTo m (key a) (value a)) m)[k]?.getD [] =
      m[k]?.getD [] ++ (l.filter fun a => key a = k).map value := by
  induction l generalizing m with
  | nil => simp
  | cons a l ih =>
    rw [List.foldl_cons, ih, pushTo_getD, List.append_assoc]
    by_cases same : key a = k <;> simp [same]

theorem filter_toList [DecidableEq K] (m : BTreeMap K V) (k : K) :
    (m.toList.filter fun entry => entry.1 = k).map Prod.snd = m[k]?.toList := by
  have nodup : (m.toList.filter fun entry => entry.1 = k).Nodup :=
    (Std.ExtTreeMap.distinct_keys_toList.imp fun {a b} apart same =>
      apart (by rw [same]; exact Std.ReflCmp.compare_self)).filter _
  cases found : m[k]? with
  | none =>
    rw [List.filter_eq_nil_iff.mpr, List.map_nil, Option.toList_none]
    intro entry mem same
    rw [Std.ExtTreeMap.mem_toList_iff_getElem?_eq_some, of_decide_eq_true same, found] at mem
    cases mem
  | some v =>
    have only : (m.toList.filter fun entry => entry.1 = k).Perm [(k, v)] := by
      refine (List.perm_ext_iff_of_nodup nodup (List.nodup_singleton _)).mpr fun entry => ?_
      rw [List.mem_filter, List.mem_singleton, Std.ExtTreeMap.mem_toList_iff_getElem?_eq_some,
        decide_eq_true_eq]
      constructor
      · rintro ⟨stored, rfl⟩
        exact Prod.ext rfl (Option.some.inj (stored.symm.trans found))
      · rintro rfl
        exact ⟨found, rfl⟩
    rw [List.perm_singleton.mp only]
    rfl

theorem getElem?_foldl_alter [DecidableEq K] {α : Type} (key : α → K) (step : Option V → α → Option V)
    (l : List α) (m : BTreeMap K V) (k : K) :
    (l.foldl (fun m a => m.alter (key a) fun v => step v a) m)[k]? =
      (l.filter fun a => key a = k).foldl step m[k]? := by
  induction l generalizing m with
  | nil => rfl
  | cons a l ih =>
    rw [List.foldl_cons, ih, Std.ExtTreeMap.getElem?_alter]
    by_cases same : key a = k
    · subst same
      simp
    · simp [same]

theorem getElem?_foldl_insert [DecidableEq K] {α : Type} (key : α → K) (value : α → V) (l : List α)
    (m : BTreeMap K V) (k : K) :
    (l.foldl (fun m a => m.insert (key a) (value a)) m)[k]? =
      ((l.filter fun a => key a = k).getLast?.map value).or m[k]? := by
  induction l generalizing m with
  | nil => rfl
  | cons a l ih =>
    rw [List.foldl_cons, ih, Std.ExtTreeMap.getElem?_insert, List.filter_cons]
    by_cases same : key a = k
    · simp only [same, Std.ReflCmp.compare_self, if_true, decide_true, List.getLast?_cons]
      cases (l.filter fun a => key a = k).getLast? <;> rfl
    · simp [same]

end Values

section Checks

variable {ε α β : Type}

def ensure (condition : Bool) (failure : ε) : Except ε Unit :=
  if condition then .ok () else .error failure

@[simp] theorem ensure_eq_ok {condition : Bool} {failure : ε} {u : Unit} :
    ensure condition failure = .ok u ↔ condition = true := by
  unfold ensure
  split <;> simp_all

@[simp] theorem bind_eq_ok {x : Except ε α} {f : α → Except ε β} {b : β} :
    (x >>= f) = .ok b ↔ ∃ a, x = .ok a ∧ f a = .ok b := by
  cases x with
  | error e => simp [bind, Except.bind]
  | ok a => simp [bind, Except.bind]

theorem toOption_eq_some {x : Except ε α} {a : α} : x.toOption = some a ↔ x = .ok a := by
  cases x with
  | error e => simp [Except.toOption]
  | ok b => simp [Except.toOption]

theorem ensure_eq_error {condition : Bool} {failure e : ε} :
    ensure condition failure = .error e ↔ condition = false ∧ failure = e := by
  unfold ensure
  split <;> simp_all

theorem bind_eq_error {x : Except ε α} {f : α → Except ε β} {e : ε} :
    (x >>= f) = .error e ↔ x = .error e ∨ ∃ a, x = .ok a ∧ f a = .error e := by
  cases x with
  | error e' => simp [bind, Except.bind]
  | ok a => simp [bind, Except.bind]

theorem map_eq_ok {x : Except ε α} {f : α → β} {b : β} :
    x.map f = .ok b ↔ ∃ a, x = .ok a ∧ f a = b := by
  cases x with
  | error e => simp [Except.map]
  | ok a => simp [Except.map]

@[simp] theorem ok_bind (a : α) (f : α → Except ε β) : (Except.ok a >>= f) = f a := rfl

@[simp] theorem pure_eq_ok {a b : α} : (pure a : Except ε α) = .ok b ↔ a = b := by
  simp [pure, Except.pure]

theorem mapM_eq_ok {f : α → Except ε β} {items : List α} : ∀ {results : List β},
    items.mapM f = .ok results →
      List.Forall₂ (fun item result => f item = .ok result) items results := by
  induction items with
  | nil =>
    intro results done
    rw [List.mapM_nil, pure_eq_ok] at done
    rw [← done]
    exact .nil
  | cons item items ih =>
    intro results done
    rw [List.mapM_cons] at done
    obtain ⟨first, read, done⟩ := bind_eq_ok.1 done
    obtain ⟨rest, later, done⟩ := bind_eq_ok.1 done
    rw [pure_eq_ok] at done
    rw [← done]
    exact .cons read (ih later)

theorem mapM_map {m : Type → Type} [Monad m] [LawfulMonad m] {γ : Type} {written : α → γ}
    {read : γ → m β} {result : α → β} {items : List α}
    (each : ∀ item ∈ items, read (written item) = pure (result item)) :
    (items.map written).mapM read = pure (items.map result) := by
  induction items with
  | nil => rw [List.map_nil, List.mapM_nil, List.map_nil]
  | cons item items ih =>
    obtain ⟨first, rest⟩ := List.forall_mem_cons.mp each
    rw [List.map_cons, List.mapM_cons, first, pure_bind, ih rest, pure_bind, List.map_cons]

/-- A test that runs, for results whose type has no decidable equality. -/
def isOkAnd (x : Except ε α) (test : α → Bool) : Bool :=
  match x with
  | .ok a => test a
  | .error _ => false

theorem isOkAnd_iff {x : Except ε α} {test : α → Bool} :
    isOkAnd x test = true ↔ ∃ a, x = .ok a ∧ test a = true := by
  cases x with
  | error e => simp [isOkAnd]
  | ok a => simp [isOkAnd]

theorem forM_eq_ok {f : α → Except ε Unit} {l : List α} {u : Unit} :
    l.forM f = .ok u ↔ ∀ a ∈ l, f a = .ok () := by
  induction l with
  | nil => simp
  | cons a l ih =>
    change (f a >>= fun _ => l.forM f) = .ok u ↔ _
    simp only [bind_eq_ok, ih, List.mem_cons, forall_eq_or_imp]
    constructor
    · rintro ⟨⟨⟩, first, rest⟩
      exact ⟨first, rest⟩
    · rintro ⟨first, rest⟩
      exact ⟨(), first, rest⟩

end Checks

section Index

variable {ε α K : Type} [Ord K] [Std.TransOrd K] (key : α → K) (duplicate : α → ε)

/-- One record a key, in the manner of `insert(..).is_some()` as an error. -/
def indexFrom (index : BTreeMap K α) : List α → Except ε (BTreeMap K α)
  | [] => .ok index
  | a :: rest =>
    if (key a) ∈ index then .error (duplicate a)
    else indexFrom (index.insert (key a) a) rest

def indexBy (l : List α) : Except ε (BTreeMap K α) := indexFrom key duplicate ∅ l

theorem indexFrom_eq_error {l : List α} {e : ε} : ∀ {index : BTreeMap K α},
    indexFrom key duplicate index l = .error e → ∃ a ∈ l, duplicate a = e := by
  induction l with
  | nil => intro index h; simp [indexFrom] at h
  | cons x rest ih =>
    intro index h
    unfold indexFrom at h
    split at h
    · exact ⟨x, List.mem_cons_self, by simpa using h⟩
    · obtain ⟨a, mem, same⟩ := ih h
      exact ⟨a, List.mem_cons_of_mem _ mem, same⟩

variable [Std.LawfulEqOrd K]

theorem getElem?_insert_fresh {index : BTreeMap K α} {a b : α} {k : K} (fresh : key a ∉ index) :
    (index.insert (key a) a)[k]? = some b ↔ (b = a ∧ key a = k) ∨ index[k]? = some b := by
  rw [Std.ExtTreeMap.getElem?_insert]
  by_cases same : key a = k
  · subst same
    have none : index[key a]? = none := by simpa using fresh
    simp [none, eq_comm]
  · have differ : compare (key a) k ≠ .eq := by simpa using same
    simp [differ, same]

theorem indexFrom_eq_ok {l : List α} : ∀ {index result : BTreeMap K α},
    indexFrom key duplicate index l = .ok result ↔
      (l.map key).Nodup ∧ (∀ a ∈ l, key a ∉ index) ∧
        ∀ k a, result[k]? = some a ↔ (a ∈ l ∧ key a = k) ∨ index[k]? = some a := by
  induction l with
  | nil =>
    intro index result
    simp only [indexFrom, Except.ok.injEq, List.map_nil, List.nodup_nil, List.not_mem_nil,
      false_imp_iff, implies_true, false_and, false_or, true_and]
    refine ⟨fun h k a => h ▸ Iff.rfl, fun h => ?_⟩
    exact (Std.ExtTreeMap.ext_getElem? fun k => Option.ext fun a => h k a).symm
  | cons x rest ih =>
    intro index result
    unfold indexFrom
    split
    · next found => simp [found]
    · next fresh =>
      have look : ∀ k a, ((a ∈ rest ∧ key a = k) ∨ (index.insert (key x) x)[k]? = some a) ↔
          ((a ∈ x :: rest ∧ key a = k) ∨ index[k]? = some a) := by
        intro k a
        rw [getElem?_insert_fresh key fresh, List.mem_cons]
        constructor
        · rintro (⟨ha, hk⟩ | ⟨rfl, hk⟩ | h)
          · exact .inl ⟨.inr ha, hk⟩
          · exact .inl ⟨.inl rfl, hk⟩
          · exact .inr h
        · rintro (⟨rfl | ha, hk⟩ | h)
          · exact .inr (.inl ⟨rfl, hk⟩)
          · exact .inl ⟨ha, hk⟩
          · exact .inr (.inr h)
      simp only [ih, look, List.map_cons, List.nodup_cons, List.mem_map, List.mem_cons,
        forall_eq_or_imp, Std.ExtTreeMap.mem_insert, Std.LawfulEqOrd.compare_eq_iff_eq, not_or,
        not_exists, not_and]
      constructor
      · rintro ⟨nodup, new, rest⟩
        exact ⟨⟨fun b hb same => (new b hb).1 same.symm, nodup⟩,
          ⟨fresh, fun b hb => (new b hb).2⟩, rest⟩
      · rintro ⟨⟨first, nodup⟩, ⟨-, new⟩, rest⟩
        exact ⟨nodup, fun b hb => ⟨fun same => first b hb same.symm, new b hb⟩, rest⟩

theorem indexBy_eq_ok {l : List α} {index : BTreeMap K α} :
    indexBy key duplicate l = .ok index ↔
      (l.map key).Nodup ∧ ∀ k a, index[k]? = some a ↔ a ∈ l ∧ key a = k := by
  rw [indexBy, indexFrom_eq_ok]
  simp

theorem indexFrom_total {l : List α} : ∀ {index : BTreeMap K α}, (l.map key).Nodup →
    (∀ a ∈ l, key a ∉ index) → ∃ result, indexFrom key duplicate index l = .ok result := by
  induction l with
  | nil => intro index _ _; exact ⟨index, rfl⟩
  | cons x rest ih =>
    intro index nodup fresh
    obtain ⟨first, nodup⟩ := List.nodup_cons.mp nodup
    rw [indexFrom, if_neg (fresh x List.mem_cons_self)]
    refine ih nodup fun a ha mem => ?_
    rcases Std.ExtTreeMap.mem_insert.mp mem with same | old
    · rw [Std.LawfulEqOrd.compare_eq_iff_eq] at same
      exact first (List.mem_map.mpr ⟨a, ha, same.symm⟩)
    · exact fresh a (List.mem_cons_of_mem _ ha) old

theorem indexBy_total {l : List α} (nodup : (l.map key).Nodup) :
    ∃ index, indexBy key duplicate l = .ok index :=
  indexFrom_total key duplicate nodup (by simp)

end Index

section Sorting

variable {α K : Type} [LinearOrder K] (key : α → K)

def sortBy (l : List α) : List α := l.insertionSort fun a b => key a ≤ key b

theorem sortBy_perm (l : List α) : (sortBy key l).Perm l := List.perm_insertionSort _ l

@[simp] theorem mem_sortBy {a : α} {l : List α} : a ∈ sortBy key l ↔ a ∈ l :=
  (sortBy_perm key l).mem_iff

theorem sortBy_sorted (l : List α) : (sortBy key l).Pairwise fun a b => key a ≤ key b :=
  List.pairwise_insertionSort _ l

theorem sortBy_strict {l : List α} (nodup : (l.map key).Nodup) :
    (sortBy key l).Pairwise fun a b => key a < key b := by
  have distinct : ((sortBy key l).map key).Nodup :=
    (((sortBy_perm key l).map key).nodup_iff).mpr nodup
  exact ((sortBy_sorted key l).and (List.pairwise_map.mp distinct)).imp
    fun {a b} h => lt_of_le_of_ne h.1 h.2

theorem sortBy_congr {l l' : List α} (perm : l.Perm l') (nodup : (l.map key).Nodup) :
    sortBy key l = sortBy key l' := by
  have perm' : (sortBy key l).Perm (sortBy key l') :=
    (sortBy_perm key l).trans (perm.trans (sortBy_perm key l').symm)
  refine List.Perm.eq_of_pairwise ?_ (sortBy_sorted key l) (sortBy_sorted key l') perm'
  intro a b ha hb le ge
  exact List.inj_on_of_nodup_map nodup ((mem_sortBy key).mp ha)
    (perm.mem_iff.mpr ((mem_sortBy key).mp hb)) (le_antisymm le ge)

theorem map_sortBy {β : Type} {key' : β → K} (f : α → β) (same : ∀ a, key' (f a) = key a)
    (l : List α) : (sortBy key l).map f = sortBy key' (l.map f) := by
  refine List.map_insertionSort _ _ f l fun a _ b _ => ?_
  rw [same, same]

theorem sortBy_filter (k : K) (l : List α) :
    (sortBy key l).filter (fun a => key a = k) = l.filter fun a => key a = k := by
  have insert : ∀ (a : α) (l : List α),
      (l.orderedInsert (fun a b => key a ≤ key b) a).filter (fun a => key a = k) =
        (a :: l).filter fun a => key a = k := by
    intro a l
    induction l with
    | nil => rfl
    | cons b l ih =>
      rw [List.orderedInsert_cons]
      split
      · rfl
      · next after =>
        rw [List.filter_cons, ih]
        by_cases hb : key b = k
        · have differ : key a ≠ k := fun ha => after (ha.trans hb.symm).le
          simp [hb, differ]
        · simp [List.filter_cons, hb]
  unfold sortBy
  induction l with
  | nil => rfl
  | cons a l ih =>
    rw [List.insertionSort_cons, insert, List.filter_cons, List.filter_cons, ih]

omit [LinearOrder K] in
theorem filterMap_congr_keys {β : Type} {f : α → Option β} : ∀ {l l' : List α},
    l.map key = l'.map key → (∀ a ∈ l, ∀ b ∈ l', key a = key b → f a = f b) →
      l.filterMap f = l'.filterMap f := by
  intro l
  induction l with
  | nil =>
    intro l' keys _
    rw [List.map_eq_nil_iff.mp keys.symm]
  | cons a l ih =>
    intro l' keys same
    obtain ⟨b, rest, rfl, head, tail⟩ := List.map_eq_cons_iff.mp keys.symm
    have first := same a List.mem_cons_self b List.mem_cons_self head.symm
    have later := ih tail.symm fun a mem b mem' =>
      same a (List.mem_cons_of_mem _ mem) b (List.mem_cons_of_mem _ mem')
    rw [List.filterMap_cons, List.filterMap_cons, first, later]

theorem filterMap_sortBy_congr {β : Type} {f : α → Option β} {p : α → Bool} {l l' : List α}
    (perm : l.Perm l') (skip : ∀ a, p a = false → f a = none)
    (same : ∀ a b, p a = true → p b = true → key a = key b → f a = f b) :
    (sortBy key l).filterMap f = (sortBy key l').filterMap f := by
  have kept : ∀ l : List α, l.filterMap f = (l.filter p).filterMap f := by
    intro l
    rw [List.filterMap_filter]
    refine List.filterMap_congr fun a _ => ?_
    cases holds : p a with
    | false => exact skip a holds
    | true => rfl
  have sorted : ∀ l : List α, (((sortBy key l).filter p).map key).Pairwise (· ≤ ·) :=
    fun l => List.pairwise_map.mpr ((sortBy_sorted key l).filter p)
  have keys : ((sortBy key l).filter p).map key = ((sortBy key l').filter p).map key := by
    refine List.Perm.eq_of_pairwise (fun a b _ _ le ge => le_antisymm le ge) (sorted l) (sorted l') ?_
    exact (((sortBy_perm key l).trans (perm.trans (sortBy_perm key l').symm)).filter p).map key
  rw [kept (sortBy key l), kept (sortBy key l')]
  exact filterMap_congr_keys key keys fun a mem b mem' =>
    same a b (List.mem_filter.mp mem).2 (List.mem_filter.mp mem').2

/-- `dedup_by`: an element equal to the last one kept is dropped. -/
def dedupBy (same : α → α → Bool) : List α → List α
  | [] => []
  | [a] => [a]
  | a :: b :: rest => if same b a then dedupBy same (a :: rest) else a :: dedupBy same (b :: rest)
termination_by l => l.length

theorem dedupBy_sublist (same : α → α → Bool) (l : List α) : (dedupBy same l).Sublist l := by
  fun_induction dedupBy same l with
  | case1 => exact List.Sublist.refl _
  | case2 a => exact List.Sublist.refl _
  | case3 a b rest _ ih => exact ih.trans ((List.sublist_cons_self b rest).cons_cons a)
  | case4 a b rest _ ih => exact ih.cons_cons a

theorem dedupBy_eq_nil (same : α → α → Bool) (l : List α) : dedupBy same l = [] ↔ l = [] := by
  fun_induction dedupBy same l <;> simp_all

/-- On a sorted list, dropping neighbours of equal key leaves the first record of
each key. -/
theorem dedupBy_find? {same : α → α → Bool} {l : List α}
    (sorted : l.Pairwise fun a b => key a ≤ key b)
    (agrees : ∀ a ∈ l, ∀ b ∈ l, same b a = true ↔ key b = key a) (k : K) :
    (dedupBy same l).find? (fun a => key a = k) = l.find? fun a => key a = k := by
  fun_induction dedupBy same l with
  | case1 => rfl
  | case2 a => rfl
  | case3 a b rest eq ih =>
    have equal : key b = key a := (agrees a (by simp) b (by simp)).mp eq
    have sub : (a :: rest).Sublist (a :: b :: rest) := (List.sublist_cons_self b rest).cons_cons a
    rw [ih (sorted.sublist sub) fun x hx y hy => agrees x (sub.subset hx) y (sub.subset hy)]
    by_cases ha : key a = k <;> simp [ha, equal]
  | case4 a b rest differ ih =>
    have tail := (List.pairwise_cons.mp sorted).2
    have later := ih tail fun x hx y hy => agrees x (by simp [hx]) y (by simp [hy])
    by_cases ha : key a = k
    · simp [ha]
    · rw [List.find?_cons_of_neg (by simpa using ha), List.find?_cons_of_neg (by simpa using ha),
        later]

theorem dedupBy_strict {same : α → α → Bool} {l : List α}
    (sorted : l.Pairwise fun a b => key a ≤ key b)
    (agrees : ∀ a ∈ l, ∀ b ∈ l, same b a = true ↔ key b = key a) :
    (dedupBy same l).Pairwise fun a b => key a < key b := by
  fun_induction dedupBy same l with
  | case1 => exact List.Pairwise.nil
  | case2 a => exact List.pairwise_singleton _ _
  | case3 a b rest eq ih =>
    have sub : (a :: rest).Sublist (a :: b :: rest) := (List.sublist_cons_self b rest).cons_cons a
    exact ih (sorted.sublist sub) fun x hx y hy => agrees x (sub.subset hx) y (sub.subset hy)
  | case4 a b rest differ ih =>
    obtain ⟨first, tail⟩ := List.pairwise_cons.mp sorted
    refine List.pairwise_cons.mpr ⟨fun c hc => ?_,
      ih tail fun x hx y hy => agrees x (by simp [hx]) y (by simp [hy])⟩
    have hc := (dedupBy_sublist same (b :: rest)).subset hc
    have apart : key a < key b := by
      refine lt_of_le_of_ne (first b (by simp)) fun equal => differ ?_
      exact (agrees a (by simp) b (by simp)).mpr equal.symm
    rcases List.mem_cons.mp hc with rfl | hc
    · exact apart
    · exact apart.trans_le ((List.pairwise_cons.mp tail).1 c hc)

theorem eq_of_find? {l l' : List α} (sorted : l.Pairwise fun a b => key a < key b)
    (sorted' : l'.Pairwise fun a b => key a < key b)
    (look : ∀ k, l.find? (fun a => key a = k) = l'.find? fun a => key a = k) : l = l' := by
  have mem : ∀ {m m' : List α}, m.Pairwise (fun a b => key a < key b) →
      (∀ k, m.find? (fun a => key a = k) = m'.find? fun a => key a = k) → ∀ a ∈ m, a ∈ m' := by
    intro m m' sorted look a ha
    have nodup : (m.map key).Nodup := List.pairwise_map.mpr (sorted.imp fun h => h.ne)
    cases hit : m.find? fun b => key b = key a with
    | none => simpa using List.find?_eq_none.mp hit a ha
    | some b =>
      have same : key b = key a := by simpa using List.find?_some hit
      obtain rfl := List.inj_on_of_nodup_map nodup (List.mem_of_find?_eq_some hit) ha same
      exact List.mem_of_find?_eq_some ((look (key b)).symm.trans hit)
  have nodup : ∀ {m : List α}, m.Pairwise (fun a b => key a < key b) → m.Nodup :=
    fun h => h.imp fun lt => by rintro rfl; exact lt_irrefl _ lt
  have perm : l.Perm l' := (List.perm_ext_iff_of_nodup (nodup sorted) (nodup sorted')).mpr
    fun a => ⟨mem sorted look a, mem sorted' (fun k => (look k).symm) a⟩
  refine List.Perm.eq_of_pairwise ?_ sorted sorted' perm
  intro a b _ _ lt lt'
  exact absurd lt' (lt_asymm lt)

theorem mem_dedupBy {same : α → α → Bool} {l : List α}
    (equal : ∀ a ∈ l, ∀ b ∈ l, same b a = true → b = a) {x : α} :
    x ∈ dedupBy same l ↔ x ∈ l := by
  fun_induction dedupBy same l with
  | case1 => rfl
  | case2 a => rfl
  | case3 a b rest eq ih =>
    have sub : (a :: rest).Sublist (a :: b :: rest) := (List.sublist_cons_self b rest).cons_cons a
    rw [ih fun y hy z hz => equal y (sub.subset hy) z (sub.subset hz)]
    obtain rfl := equal a (by simp) b (by simp) eq
    simp
  | case4 a b rest differ ih =>
    rw [List.mem_cons, ih fun y hy z hz => equal y (by simp [hy]) z (by simp [hz]), ← List.mem_cons]

theorem dedupBy_sortBy_find? {same : α → α → Bool} {l : List α}
    (agrees : ∀ a ∈ l, ∀ b ∈ l, same b a = true ↔ key b = key a) (k : K) :
    (dedupBy same (sortBy key l)).find? (fun a => key a = k) = l.find? fun a => key a = k := by
  rw [dedupBy_find? key (sortBy_sorted key l) (by simpa using agrees) k]
  have stable := congrArg List.head? (sortBy_filter key k l)
  simpa only [List.head?_filter] using stable

theorem mem_dedupBy_sortBy {same : α → α → Bool} {l : List α}
    (agrees : ∀ a ∈ l, ∀ b ∈ l, same b a = true ↔ key b = key a) {a : α} :
    a ∈ dedupBy same (sortBy key l) ↔ l.find? (fun b => key b = key a) = some a := by
  rw [← dedupBy_sortBy_find? key agrees]
  have strict := dedupBy_strict key (sortBy_sorted key l) (by simpa using agrees)
  have nodup : ((dedupBy same (sortBy key l)).map key).Nodup :=
    List.pairwise_map.mpr (strict.imp fun less => ne_of_lt less)
  constructor
  · intro member
    cases found : (dedupBy same (sortBy key l)).find? fun b => key b = key a with
    | none => simpa using List.find?_eq_none.mp found a member
    | some b =>
      have equal : key b = key a := by simpa using List.find?_some found
      rw [List.inj_on_of_nodup_map nodup (List.mem_of_find?_eq_some found) member equal]
  · exact List.mem_of_find?_eq_some

variable [DecidableEq α]

/-- `sort()` followed by `dedup()`. -/
def sortDedup (l : List α) : List α := dedupBy (fun a b => a == b) (sortBy key l)

theorem mem_sortDedup {a : α} {l : List α} : a ∈ sortDedup key l ↔ a ∈ l := by
  rw [sortDedup, mem_dedupBy, mem_sortBy]
  intro b _ c _ same
  simpa using same

theorem sortDedup_strict (injective : Function.Injective key) (l : List α) :
    (sortDedup key l).Pairwise fun a b => key a < key b := by
  refine dedupBy_strict key (sortBy_sorted key l) fun a _ b _ => ?_
  simp [injective.eq_iff]

/-- Sorting without duplicates forgets everything but the members. -/
theorem sortDedup_congr (injective : Function.Injective key) {l l' : List α}
    (same : ∀ a, a ∈ l ↔ a ∈ l') :
    sortDedup key l = sortDedup key l' := by
  have nodup : ∀ m : List α, (sortDedup key m).Nodup := fun m =>
    (sortDedup_strict key injective m).imp fun lt => by rintro rfl; exact lt_irrefl _ lt
  have perm : (sortDedup key l).Perm (sortDedup key l') :=
    (List.perm_ext_iff_of_nodup (nodup l) (nodup l')).mpr fun a => by
      rw [mem_sortDedup, mem_sortDedup, same]
  refine List.Perm.eq_of_pairwise ?_ (sortDedup_strict key injective l)
    (sortDedup_strict key injective l') perm
  intro a b _ _ lt lt'
  exact absurd lt' (lt_asymm lt)

end Sorting

section Entries

variable {K V : Type} [BEq K] [LawfulBEq K]

theorem mem_of_lookup {entries : List (K × V)} {k : K} {v : V} (found : entries.lookup k = some v) :
    (k, v) ∈ entries := by
  obtain ⟨before, after, rfl, -⟩ := List.lookup_eq_some_iff.mp found
  simp

theorem lookup_of_mem {entries : List (K × V)} (nodup : (entries.map Prod.fst).Nodup) {k : K} {v : V}
    (mem : (k, v) ∈ entries) : entries.lookup k = some v := by
  obtain ⟨before, after, rfl⟩ := List.append_of_mem mem
  refine List.lookup_eq_some_iff.mpr ⟨before, after, rfl, fun entry earlier => ?_⟩
  rw [List.map_append, List.map_cons] at nodup
  have apart := (List.nodup_append.mp nodup).2.2 entry.1 (List.mem_map_of_mem earlier) k (by simp)
  simpa using Ne.symm apart

theorem entries_eq_map {entries : List (K × V)} (nodup : (entries.map Prod.fst).Nodup)
    (value : K → V) (found : ∀ entry ∈ entries, entries.lookup entry.1 = some (value entry.1)) :
    entries = (entries.map Prod.fst).map fun k => (k, value k) := by
  induction entries with
  | nil => rfl
  | cons entry entries ih =>
    obtain ⟨fresh, nodup⟩ := List.nodup_cons.mp nodup
    have here := found entry List.mem_cons_self
    rw [List.lookup_cons_self] at here
    have value_eq : entry.2 = value entry.1 := by simpa using here
    rw [List.map_cons, List.map_cons, ← ih nodup, ← value_eq]
    intro other mem
    have found' := found other (List.mem_cons_of_mem _ mem)
    rw [List.lookup_cons] at found'
    have differ : other.1 ≠ entry.1 := fun same => fresh (List.mem_map.mpr ⟨other, mem, same⟩)
    simpa [beq_eq_false_iff_ne.mpr differ] using found'

variable [LinearOrder K]

/-- `entry(key).or_default()` followed by an update, on the entries of a map in
key order. Maps inside a recursive type are kept as such lists. -/
def upsert (key : K) (fresh : V) (update : V → V) (entries : List (K × V)) : List (K × V) :=
  match entries.lookup key with
  | some _ => entries.map fun entry => if entry.1 = key then (entry.1, update entry.2) else entry
  | none => entries.orderedInsert (fun a b => a.1 ≤ b.1) (key, update fresh)

theorem lookup_map_update (key k : K) (update : V → V) (entries : List (K × V)) :
    (entries.map fun entry => if entry.1 = key then (entry.1, update entry.2) else entry).lookup k =
      (entries.lookup k).map fun v => if k = key then update v else v := by
  induction entries with
  | nil => rfl
  | cons entry entries ih =>
    rw [List.map_cons, List.lookup_cons, List.lookup_cons, ih]
    by_cases here : k = entry.1
    · by_cases same : entry.1 = key <;> simp [here, same]
    · have differ : (k == entry.1) = false := by simpa using here
      by_cases same : entry.1 = key
      · simp only [same, ↓reduceIte]
        rw [← same, differ]
      · simp only [same, ↓reduceIte, differ]

theorem lookup_orderedInsert (key k : K) (v : V) {entries : List (K × V)}
    (absent : entries.lookup key = none) :
    (entries.orderedInsert (fun a b => a.1 ≤ b.1) (key, v)).lookup k =
      if k = key then some v else entries.lookup k := by
  induction entries with
  | nil => by_cases same : k = key <;> simp [same]
  | cons entry entries ih =>
    obtain ⟨name, value⟩ := entry
    rw [List.lookup_cons] at absent
    have other : key ≠ name := fun same => by simp [same] at absent
    simp only [beq_eq_false_iff_ne.mpr other] at absent
    rw [List.orderedInsert_cons]
    split
    · rw [List.lookup_cons]
      by_cases same : k = key
      · simp [same]
      · simp [same, beq_eq_false_iff_ne.mpr same]
    · rw [List.lookup_cons, List.lookup_cons, ih absent]
      by_cases here : k = name
      · have differ : k ≠ key := fun same => other (same.symm.trans here)
        simp [here, other.symm]
      · simp [beq_eq_false_iff_ne.mpr here]

theorem lookup_upsert (key k : K) (fresh : V) (update : V → V) (entries : List (K × V)) :
    (upsert key fresh update entries).lookup k =
      if k = key then some (update ((entries.lookup key).getD fresh)) else entries.lookup k := by
  unfold upsert
  split
  · next v found =>
    rw [lookup_map_update]
    by_cases same : k = key
    · simp [same, found]
    · cases entries.lookup k <;> simp [same]
  · next absent =>
    rw [lookup_orderedInsert key k _ absent, absent, Option.getD_none]

theorem nodup_keys_upsert (key : K) (fresh : V) (update : V → V) {entries : List (K × V)}
    (nodup : (entries.map Prod.fst).Nodup) :
    ((upsert key fresh update entries).map Prod.fst).Nodup := by
  unfold upsert
  split
  · have same : (Prod.fst ∘ fun entry : K × V =>
        if entry.1 = key then (entry.1, update entry.2) else entry) = Prod.fst := by
      funext entry
      by_cases here : entry.1 = key <;> simp [here]
    rwa [List.map_map, same]
  · next absent =>
    have perm := (List.perm_orderedInsert (fun a b : K × V => a.1 ≤ b.1) (key, update fresh)
      entries).map Prod.fst
    rw [perm.nodup_iff, List.map_cons, List.nodup_cons]
    refine ⟨fun mem => ?_, nodup⟩
    obtain ⟨entry, mem, same⟩ := List.mem_map.mp mem
    have differ := List.lookup_eq_none_iff.mp absent entry mem
    simp [same] at differ

end Entries

section Inventory

variable {K α : Type} [LinearOrder K] (key : α → K)

/-- The entries of a map collected from records; a later record replaces an earlier
one with its key. -/
def inventory (l : List α) : List (K × α) :=
  l.foldl (fun entries a => upsert (key a) a (fun _ => a) entries) []

/-- The last record with the key. -/
def latest (k : K) (l : List α) : Option α := (l.filter fun a => key a = k).getLast?

theorem latest_of_mem {l : List α} {a : α} (mem : a ∈ l) : ∃ b, latest key (key a) l = some b := by
  have filtered : a ∈ l.filter fun b => key b = key a := List.mem_filter.mpr ⟨mem, by simp⟩
  exact ⟨_, List.getLast?_eq_some_getLast (List.ne_nil_of_mem filtered)⟩

variable {key}

theorem latest_concat (k : K) (l : List α) (a : α) :
    latest key k (l ++ [a]) = if key a = k then some a else latest key k l := by
  by_cases same : key a = k <;> simp [latest, List.filter_append, same]

theorem mem_of_latest {k : K} {l : List α} {a : α} (found : latest key k l = some a) :
    a ∈ l ∧ key a = k := by
  simpa using List.mem_filter.mp (List.mem_of_getLast? found)

theorem latest_of_nodup {l : List α} (nodup : (l.map key).Nodup) {a : α} (mem : a ∈ l) :
    latest key (key a) l = some a := by
  obtain ⟨last, found⟩ := latest_of_mem key mem
  have ⟨listed, same⟩ := mem_of_latest found
  rw [found, List.inj_on_of_nodup_map nodup listed mem same]

theorem lookup_inventory (k : K) (l : List α) : (inventory key l).lookup k = latest key k l := by
  induction l using List.reverseRecOn with
  | nil => rfl
  | append_singleton l a ih =>
    rw [inventory, List.foldl_append, List.foldl_cons, List.foldl_nil, lookup_upsert, latest_concat]
    by_cases same : key a = k
    · simp [same]
    · rw [if_neg (Ne.symm same), if_neg same]
      exact ih

theorem nodup_inventory (l : List α) : ((inventory key l).map Prod.fst).Nodup := by
  induction l using List.reverseRecOn with
  | nil => exact List.nodup_nil
  | append_singleton l a ih =>
    rw [inventory, List.foldl_append, List.foldl_cons, List.foldl_nil]
    exact nodup_keys_upsert _ _ _ ih

theorem mem_of_mem_inventory {l : List α} {entry : K × α} (mem : entry ∈ inventory key l) :
    entry.2 ∈ l ∧ key entry.2 = entry.1 := by
  have found := lookup_of_mem (nodup_inventory l) mem
  rw [lookup_inventory] at found
  exact mem_of_latest found

theorem inventory_inj {l : List α} {entry entry' : K × α} (mem : entry ∈ inventory key l)
    (mem' : entry' ∈ inventory key l) (same : entry.1 = entry'.1) : entry = entry' :=
  List.inj_on_of_nodup_map (nodup_inventory l) mem mem' same

theorem mem_inventory {l : List α} (nodup : (l.map key).Nodup) {entry : K × α} :
    entry ∈ inventory key l ↔ entry.2 ∈ l ∧ key entry.2 = entry.1 := by
  constructor
  · exact mem_of_mem_inventory
  · intro ⟨mem, same⟩
    have found := latest_of_nodup nodup mem
    rw [same, ← lookup_inventory] at found
    exact mem_of_lookup found

end Inventory

def sortedUnique (values : List String) : List String :=
  dedupBy (fun a b => a == b) (sortBy id values)

theorem mem_sortedUnique {value : String} {values : List String} :
    value ∈ sortedUnique values ↔ value ∈ values :=
  mem_sortDedup id

theorem sortedUnique_congr {values values' : List String}
    (same : ∀ value, value ∈ values ↔ value ∈ values') :
    sortedUnique values = sortedUnique values' :=
  sortDedup_congr id Function.injective_id same

@[simp] theorem sortedUnique_eq_nil {values : List String} :
    sortedUnique values = [] ↔ values = [] := by
  rw [sortedUnique, dedupBy_eq_nil, ← List.length_eq_zero_iff, (sortBy_perm id values).length_eq,
    List.length_eq_zero_iff]

end CodeSystemGraph.Ordered
