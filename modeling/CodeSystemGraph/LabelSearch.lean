import Mathlib.Order.BoundedOrder.Lattice
import Mathlib.Data.List.Infix
import Mathlib.Data.List.Lex
import Mathlib.Data.Prod.Lex

/-! Breadth-first search over paths, with one label per node. A path is a list
of steps; its cost is the greatest weight on it. The search keeps a path only
if no path kept before it reaches the same node at no greater cost, and it
extends kept paths only. Whether a step may follow a path depends on the whole
path (`next`), so a kept path may be unable to take a step that the path it
replaced could take: such a step is `blocked`. The kept paths are given level
by level (`level`), and by the queue that a program would use (`Scan`). -/

namespace CodeSystemGraph.LabelSearch

structure Space (S N C : Type*) where
  start : N
  head : S → N
  weight : S → C
  next : List S → List S

variable {S N C : Type*} (sp : Space S N C)

namespace Space

def goal (p : List S) : N := (p.getLast?.map sp.head).getD sp.start

@[simp] theorem goal_nil : sp.goal [] = sp.start := rfl

@[simp] theorem goal_snoc (p : List S) (s : S) : sp.goal (p ++ [s]) = sp.head s := by
  simp [goal]

/-- The label of a node: the last path kept for it. -/
def latest [DecidableEq N] (kept : List (List S)) (v : N) : Option (List S) :=
  kept.reverse.find? fun p => sp.goal p = v

theorem latest_snoc [DecidableEq N] (kept : List (List S)) (p : List S) (v : N) :
    sp.latest (kept ++ [p]) v = if sp.goal p = v then some p else sp.latest kept v := by
  by_cases same : sp.goal p = v <;> simp [latest, same]

theorem latest_mem [DecidableEq N] {kept : List (List S)} {v : N} {p : List S}
    (h : sp.latest kept v = some p) :
    p ∈ kept ∧ sp.goal p = v :=
  ⟨by simpa using List.mem_of_find?_eq_some h, by simpa using List.find?_some h⟩

/-- Every step of the path may follow the steps before it. -/
def IsPath (p : List S) : Prop := ∀ q s, q ++ [s] <+: p → s ∈ sp.next q

theorem isPath_nil : sp.IsPath [] := by
  intro q s h
  simp at h

theorem isPath_snoc {p : List S} {s : S} :
    sp.IsPath (p ++ [s]) ↔ sp.IsPath p ∧ s ∈ sp.next p := by
  constructor
  · intro h
    exact ⟨fun q t hq => h q t (hq.trans (List.prefix_append p [s])), h p s List.prefix_rfl⟩
  · rintro ⟨hp, hs⟩ q t hq
    rw [← List.concat_eq_append, List.prefix_concat_iff] at hq
    rcases hq with hq | hq
    · rw [List.concat_eq_append] at hq
      obtain ⟨rfl, ht⟩ := List.append_inj' hq rfl
      obtain rfl : t = s := by simpa using ht
      exact hs
    · rw [List.concat_eq_append] at hq
      exact hp q t hq

def extensions (p : List S) : List (List S) := (sp.next p).map fun s => p ++ [s]

theorem lex_append {K : Type*} [LinearOrder K] {a b : List K} (lt : a < b)
    (size : a.length = b.length) (x y : List K) : a ++ x < b ++ y := by
  induction lt with
  | nil => simp at size
  | rel h => exact .rel h
  | cons _ ih => exact .cons (ih (by simpa using size))

theorem extensions_sorted {K : Type*} [LinearOrder K] (key : S → K)
    (sorted : ∀ p, (sp.next p).Pairwise fun s t => key s < key t)
    (ps : List (List S)) (d : Nat) (size : ∀ p ∈ ps, p.length = d)
    (order : ps.Pairwise fun q r => q.map key < r.map key) :
    (ps.flatMap sp.extensions).Pairwise fun q r => q.map key < r.map key := by
  rw [List.pairwise_flatMap]
  constructor
  · intro p _
    refine List.pairwise_map.mpr ((sorted p).imp fun {s t} lt => ?_)
    simp only [List.map_append, List.map_cons, List.map_nil]
    exact List.append_left_lt (.rel lt)
  · refine order.imp_of_mem fun {p q} hp hq lt => ?_
    intro x hx y hy
    obtain ⟨s, -, rfl⟩ := List.mem_map.mp hx
    obtain ⟨t, -, rfl⟩ := List.mem_map.mp hy
    simp only [List.map_append]
    exact lex_append lt (by simp [size p hp, size q hq]) _ _

variable [LinearOrder C] [OrderBot C]

def cost (p : List S) : C := p.foldr (fun s c => max (sp.weight s) c) ⊥

@[simp] theorem cost_nil : sp.cost [] = ⊥ := rfl

@[simp] theorem cost_cons (s : S) (p : List S) :
    sp.cost (s :: p) = max (sp.weight s) (sp.cost p) := rfl

@[simp] theorem cost_append (p q : List S) : sp.cost (p ++ q) = max (sp.cost p) (sp.cost q) := by
  induction p with
  | nil => simp
  | cons s p ih => simp [ih, max_assoc]

theorem cost_snoc (p : List S) (s : S) : sp.cost (p ++ [s]) = max (sp.cost p) (sp.weight s) := by
  simp

theorem cost_le_of_prefix {p q : List S} (h : p <+: q) : sp.cost p ≤ sp.cost q := by
  obtain ⟨r, rfl⟩ := h
  simp

/-- The first path makes the second superfluous. -/
def Covers (q p : List S) : Prop := sp.goal q = sp.goal p ∧ sp.cost q ≤ sp.cost p

theorem Covers.trans {p q r : List S} (hpq : sp.Covers p q) (hqr : sp.Covers q r) :
    sp.Covers p r :=
  ⟨hpq.1.trans hqr.1, hpq.2.trans hqr.2⟩

variable [DecidableEq N]

instance (q p : List S) : Decidable (sp.Covers q p) :=
  inferInstanceAs (Decidable (_ ∧ _))

def select (kept : List (List S)) : List (List S) → List (List S)
  | [] => []
  | c :: rest =>
    if ∃ q ∈ kept, sp.Covers q c then select kept rest
    else c :: select (kept ++ [c]) rest

def sweep (kept : List (List S)) : List (List S) → List (List S)
  | [] => []
  | p :: rest =>
    let new := sp.select kept (sp.extensions p)
    new ++ sweep (kept ++ new) rest

/-- The paths of one length that the search keeps, and all it has kept so far. -/
def level : Nat → List (List S) × List (List S)
  | 0 => ([[]], [[]])
  | d + 1 =>
    let new := sp.sweep (level d).2 (level d).1
    (new, (level d).2 ++ new)

def kept (d : Nat) : List (List S) := (sp.level d).2

theorem mem_of_mem_select {c : List S} (cs : List (List S)) :
    ∀ kept, c ∈ sp.select kept cs → c ∈ cs := by
  induction cs with
  | nil => intro kept h; simp [select] at h
  | cons c' rest ih =>
    intro kept h
    unfold select at h
    split at h
    · exact List.mem_cons_of_mem _ (ih kept h)
    · rcases List.mem_cons.mp h with rfl | h
      · exact List.mem_cons_self
      · exact List.mem_cons_of_mem _ (ih _ h)

theorem select_covers {c : List S} (cs : List (List S)) :
    ∀ kept, c ∈ cs → ∃ q ∈ kept ++ sp.select kept cs, sp.Covers q c := by
  induction cs with
  | nil => intro kept h; simp at h
  | cons c' rest ih =>
    intro kept h
    unfold select
    rcases List.mem_cons.mp h with rfl | h
    · split
      · next found =>
        obtain ⟨q, hq, cover⟩ := found
        exact ⟨q, List.mem_append_left _ hq, cover⟩
      · exact ⟨c, by simp, rfl, le_rfl⟩
    · split
      · exact ih kept h
      · obtain ⟨q, hq, cover⟩ := ih (kept ++ [c']) h
        exact ⟨q, by simpa using hq, cover⟩

theorem select_append (cs ds : List (List S)) : ∀ kept,
    sp.select kept (cs ++ ds) =
      sp.select kept cs ++ sp.select (kept ++ sp.select kept cs) ds := by
  induction cs with
  | nil => intro kept; simp [select]
  | cons c rest ih =>
    intro kept
    simp only [List.cons_append, select]
    split
    · exact ih kept
    · simp [ih, List.append_assoc]

theorem sweep_append (ps qs : List (List S)) : ∀ kept,
    sp.sweep kept (ps ++ qs) =
      sp.sweep kept ps ++ sp.sweep (kept ++ sp.sweep kept ps) qs := by
  induction ps with
  | nil => intro kept; simp [sweep]
  | cons p rest ih => intro kept; simp [sweep, ih, List.append_assoc]

theorem sweep_snoc (kept ps : List (List S)) (p : List S) :
    sp.sweep kept (ps ++ [p]) =
      sp.sweep kept ps ++ sp.select (kept ++ sp.sweep kept ps) (sp.extensions p) := by
  rw [sweep_append]
  simp [sweep]

theorem exists_of_mem_sweep {c : List S} (ps : List (List S)) :
    ∀ kept, c ∈ sp.sweep kept ps → ∃ p ∈ ps, ∃ s ∈ sp.next p, c = p ++ [s] := by
  induction ps with
  | nil => intro kept h; simp [sweep] at h
  | cons p rest ih =>
    intro kept h
    rcases List.mem_append.mp h with h | h
    · obtain ⟨s, hs, rfl⟩ := List.mem_map.mp (sp.mem_of_mem_select _ _ h)
      exact ⟨p, List.mem_cons_self, s, hs, rfl⟩
    · obtain ⟨q, hq, found⟩ := ih _ h
      exact ⟨q, List.mem_cons_of_mem _ hq, found⟩

theorem sweep_covers {p : List S} {s : S} (ps : List (List S)) (hs : s ∈ sp.next p) :
    ∀ kept, p ∈ ps → ∃ q ∈ kept ++ sp.sweep kept ps, sp.Covers q (p ++ [s]) := by
  induction ps with
  | nil => intro kept h; simp at h
  | cons p' rest ih =>
    intro kept h
    rcases List.mem_cons.mp h with rfl | h
    · obtain ⟨q, hq, cover⟩ :=
        sp.select_covers (sp.extensions p) kept (List.mem_map.mpr ⟨s, hs, rfl⟩)
      refine ⟨q, ?_, cover⟩
      rcases List.mem_append.mp hq with hq | hq <;> simp [sweep, hq]
    · obtain ⟨q, hq, cover⟩ := ih (kept ++ sp.select kept (sp.extensions p')) h
      exact ⟨q, by simpa [sweep, List.append_assoc] using hq, cover⟩

theorem length_of_mem_level (d : Nat) : ∀ p ∈ (sp.level d).1, p.length = d := by
  induction d with
  | zero => intro p hp; simp [level] at hp; simp [hp]
  | succ d ih =>
    intro p hp
    obtain ⟨q, hq, s, -, rfl⟩ := sp.exists_of_mem_sweep _ _ hp
    simp [ih q hq]

theorem kept_succ (d : Nat) : sp.kept (d + 1) = sp.kept d ++ (sp.level (d + 1)).1 := rfl

theorem mem_level_of_mem_kept {p : List S} (d : Nat) :
    p ∈ sp.kept d → p.length ≤ d ∧ p ∈ (sp.level p.length).1 := by
  induction d with
  | zero => intro hp; simp [kept, level] at hp; simp [hp, level]
  | succ d ih =>
    intro hp
    rcases List.mem_append.mp hp with hp | hp
    · exact ⟨(ih hp).1.trans d.le_succ, (ih hp).2⟩
    · have size := sp.length_of_mem_level (d + 1) p hp
      exact ⟨size.le, size ▸ hp⟩

theorem kept_subset {d e : Nat} (h : d ≤ e) : sp.kept d ⊆ sp.kept e := by
  induction e, h using Nat.le_induction with
  | base => exact List.Subset.refl _
  | succ e _ ih => exact List.Subset.trans ih (List.subset_append_left _ _)

theorem level_subset_kept (d : Nat) : (sp.level d).1 ⊆ sp.kept d := by
  cases d with
  | zero => intro p hp; exact hp
  | succ d => exact List.subset_append_right _ _

theorem nil_mem_kept (d : Nat) : [] ∈ sp.kept d :=
  sp.kept_subset d.zero_le (by simp [kept, level])

theorem mem_kept_of_snoc {p : List S} {s : S} {d : Nat} (h : p ++ [s] ∈ sp.kept d) :
    p ∈ sp.kept d ∧ s ∈ sp.next p := by
  obtain ⟨size, hp⟩ := sp.mem_level_of_mem_kept d h
  simp only [List.length_append, List.length_singleton] at size hp
  obtain ⟨q, hq, t, ht, equal⟩ := sp.exists_of_mem_sweep _ _ hp
  obtain ⟨rfl, hs⟩ := List.append_inj' equal rfl
  obtain rfl : s = t := by simpa using hs
  exact ⟨sp.kept_subset (by omega) (sp.level_subset_kept _ hq), ht⟩

theorem mem_kept_of_prefix {p q : List S} {d : Nat} (h : p <+: q) (hq : q ∈ sp.kept d) :
    p ∈ sp.kept d := by
  obtain ⟨r, rfl⟩ := h
  induction r using List.reverseRecOn with
  | nil => simpa using hq
  | append_singleton r s ih =>
    rw [← List.append_assoc] at hq
    exact ih (sp.mem_kept_of_snoc hq).1

theorem isPath_of_mem_kept {p : List S} {d : Nat} (h : p ∈ sp.kept d) : sp.IsPath p := by
  intro q s hq
  exact (sp.mem_kept_of_snoc (sp.mem_kept_of_prefix hq h)).2

theorem kept_closed {p : List S} {s : S} {d : Nat} (hp : p ∈ sp.kept d) (short : p.length < d)
    (hs : s ∈ sp.next p) :
    ∃ q ∈ sp.kept d, sp.Covers q (p ++ [s]) ∧ q.length ≤ p.length + 1 := by
  obtain ⟨-, hl⟩ := sp.mem_level_of_mem_kept d hp
  obtain ⟨q, hq, cover⟩ := sp.sweep_covers _ hs (sp.level p.length).2 hl
  have mem : q ∈ sp.kept (p.length + 1) := hq
  exact ⟨q, sp.kept_subset short mem, cover, (sp.mem_level_of_mem_kept _ mem).1⟩

/-- Of two kept paths to one node the later one is strictly cheaper. -/
def Improving (ps : List (List S)) : Prop :=
  ps.Pairwise fun p q => sp.goal p = sp.goal q → sp.cost q < sp.cost p

theorem improving_select (cs : List (List S)) :
    ∀ kept, sp.Improving kept → sp.Improving (kept ++ sp.select kept cs) := by
  induction cs with
  | nil => intro kept h; simpa [select] using h
  | cons c rest ih =>
    intro kept h
    unfold select
    split
    · exact ih kept h
    · next fresh =>
      have extended : sp.Improving (kept ++ [c]) := by
        refine List.pairwise_append.mpr ⟨h, List.pairwise_singleton _ _, ?_⟩
        intro p hp q hq same
        obtain rfl : q = c := by simpa using hq
        exact not_le.mp fun le => fresh ⟨p, hp, same, le⟩
      simpa using ih (kept ++ [c]) extended

theorem improving_sweep (ps : List (List S)) :
    ∀ kept, sp.Improving kept → sp.Improving (kept ++ sp.sweep kept ps) := by
  induction ps with
  | nil => intro kept h; simpa [sweep] using h
  | cons p rest ih =>
    intro kept h
    simpa [sweep, List.append_assoc] using ih _ (sp.improving_select (sp.extensions p) kept h)

theorem improving_kept (d : Nat) : sp.Improving (sp.kept d) := by
  induction d with
  | zero => exact List.pairwise_singleton _ _
  | succ d ih => exact sp.improving_sweep _ _ ih

theorem latest_least {kept : List (List S)} (improving : sp.Improving kept) {p : List S}
    (hp : p ∈ kept) :
    ∃ q, sp.latest kept (sp.goal p) = some q ∧ (q = p ∨ sp.cost q < sp.cost p) := by
  induction kept using List.reverseRecOn with
  | nil => simp at hp
  | append_singleton kept r ih =>
    obtain ⟨before, -, last⟩ := List.pairwise_append.mp improving
    rw [latest_snoc]
    by_cases same : sp.goal r = sp.goal p
    · refine ⟨r, by simp [same], ?_⟩
      rcases List.mem_append.mp hp with hp | hp
      · exact .inr (last p hp r (List.mem_singleton_self r) same.symm)
      · exact .inl (List.mem_singleton.mp hp).symm
    · rcases List.mem_append.mp hp with hp | hp
      · simpa [same] using ih before hp
      · exact absurd (by rw [List.mem_singleton.mp hp]) same

theorem covered_iff_latest {kept : List (List S)} (improving : sp.Improving kept) (p : List S) :
    (∃ q ∈ kept, sp.Covers q p) ↔
      ∃ q, sp.latest kept (sp.goal p) = some q ∧ sp.cost q ≤ sp.cost p := by
  constructor
  · rintro ⟨q, hq, same, le⟩
    obtain ⟨r, label, least⟩ := sp.latest_least improving hq
    rw [same] at label
    refine ⟨r, label, ?_⟩
    rcases least with rfl | lt
    · exact le
    · exact lt.le.trans le
  · rintro ⟨q, label, le⟩
    obtain ⟨hq, same⟩ := sp.latest_mem label
    exact ⟨q, hq, same, le⟩

section Selected

variable {K : Type*} [LinearOrder K] (key : S → K)

/-- The kept paths without the search. A path is selected if it extends a
selected path, no shorter selected path covers it, and neither does an extension
of the same length that comes before it in the order of the step keys. -/
def Selected : Nat → List S → Prop
  | 0, p => p = []
  | n + 1, p =>
    Selected n p ∨
      (∃ q s, Selected n q ∧ q.length = n ∧ s ∈ sp.next q ∧ p = q ++ [s]) ∧
      (∀ r, Selected n r → ¬ sp.Covers r p) ∧
      ∀ q s, Selected n q → q.length = n → s ∈ sp.next q →
        (q ++ [s]).map key < p.map key → ¬ sp.Covers (q ++ [s]) p

/-- The place of a path in a breadth-first order: by length, then by the keys of the steps. -/
def rank (p : List S) : Nat ×ₗ List K := toLex (p.length, p.map key)

theorem rank_snoc {p q : List S} (lt : rank key p < rank key q) (s t : S) :
    rank key (p ++ [s]) < rank key (q ++ [t]) := by
  simp only [rank, Prod.Lex.toLex_lt_toLex, List.length_append, List.length_singleton,
    List.map_append] at lt ⊢
  rcases lt with shorter | ⟨size, lt⟩
  · exact .inl (by omega)
  · exact .inr ⟨by omega, lex_append lt (by simpa using size) _ _⟩

theorem rank_last (p : List S) {s t : S} (lt : key s < key t) :
    rank key (p ++ [s]) < rank key (p ++ [t]) := by
  simp only [rank, Prod.Lex.toLex_lt_toLex, List.length_append, List.length_singleton,
    List.map_append]
  exact .inr ⟨trivial, List.append_left_lt (.rel lt)⟩

omit [LinearOrder C] [OrderBot C] in
/-- In an ordered list the label of a node is its last path. -/
theorem latest_eq_some_iff {kept : List (List S)} {v : N} {p : List S}
    (order : kept.Pairwise fun q r => rank key q < rank key r) : sp.latest kept v = some p ↔
      p ∈ kept ∧ sp.goal p = v ∧ ∀ q ∈ kept, sp.goal q = v → rank key q ≤ rank key p := by
  induction kept using List.reverseRecOn with
  | nil => simp [latest]
  | append_singleton kept r ih =>
    obtain ⟨order, -, last⟩ := List.pairwise_append.mp order
    have below : ∀ q ∈ kept, rank key q < rank key r := fun q hq => last q hq r (by simp)
    rw [latest_snoc]
    split
    · next here =>
      simp only [Option.some.injEq, List.mem_append, List.mem_singleton]
      constructor
      · rintro rfl
        refine ⟨.inr rfl, here, fun q hq _ => ?_⟩
        rcases hq with hq | rfl
        · exact (below q hq).le
        · exact le_rfl
      · rintro ⟨hp, -, greatest⟩
        refine (hp.resolve_left fun earlier => ?_).symm
        exact absurd (greatest r (.inr rfl) here) (not_le.mpr (below p earlier))
    · next elsewhere =>
      rw [ih order]
      simp only [List.mem_append, List.mem_singleton, or_imp, forall_and, forall_eq]
      constructor
      · rintro ⟨hp, goal, greatest⟩
        exact ⟨.inl hp, goal, greatest, fun same => absurd same elsewhere⟩
      · rintro ⟨hp, goal, greatest, -⟩
        exact ⟨hp.resolve_right fun same => elsewhere (same ▸ goal), goal, greatest⟩

theorem sweep_eq_select (ps : List (List S)) :
    ∀ kept, sp.sweep kept ps = sp.select kept (ps.flatMap sp.extensions) := by
  induction ps with
  | nil => intro kept; rfl
  | cons p rest ih =>
    intro kept
    rw [sweep, List.flatMap_cons, select_append, ih]

theorem select_sublist (cs : List (List S)) : ∀ kept, (sp.select kept cs).Sublist cs := by
  induction cs with
  | nil => intro kept; exact List.Sublist.refl _
  | cons c rest ih =>
    intro kept
    unfold select
    split
    · exact (ih kept).cons c
    · exact (ih _).cons_cons c

theorem mem_select_iff {p : List S} (cs : List (List S))
    (sorted : cs.Pairwise fun q r => q.map key < r.map key) : ∀ kept,
    p ∈ sp.select kept cs ↔ p ∈ cs ∧ (∀ q ∈ kept, ¬ sp.Covers q p) ∧
      ∀ r ∈ cs, r.map key < p.map key → ¬ sp.Covers r p := by
  induction cs with
  | nil => intro kept; simp [select]
  | cons c rest ih =>
    intro kept
    obtain ⟨first, sorted⟩ := List.pairwise_cons.mp sorted
    unfold select
    split
    · next found =>
      obtain ⟨q, hq, cover⟩ := found
      rw [ih sorted]
      constructor
      · rintro ⟨hp, free, early⟩
        refine ⟨List.mem_cons_of_mem _ hp, free, fun r hr lt => ?_⟩
        rcases List.mem_cons.mp hr with rfl | hr
        · exact fun h => free q hq (Covers.trans sp cover h)
        · exact early r hr lt
      · rintro ⟨hp, free, early⟩
        refine ⟨?_, free, fun r hr => early r (List.mem_cons_of_mem _ hr)⟩
        rcases List.mem_cons.mp hp with rfl | hp
        · exact absurd cover (free q hq)
        · exact hp
    · next fresh =>
      rw [List.mem_cons, ih sorted]
      constructor
      · rintro (rfl | ⟨hp, free, early⟩)
        · refine ⟨List.mem_cons_self, fun q hq h => fresh ⟨q, hq, h⟩, fun r hr lt => ?_⟩
          rcases List.mem_cons.mp hr with rfl | hr
          · exact absurd lt (List.lt_irrefl _)
          · exact absurd (first r hr) (List.lt_asymm lt)
        · refine ⟨List.mem_cons_of_mem _ hp, fun q hq => free q (List.mem_append_left _ hq),
            fun r hr lt => ?_⟩
          rcases List.mem_cons.mp hr with rfl | hr
          · exact free r (List.mem_append_right _ (List.mem_singleton_self _))
          · exact early r hr lt
      · rintro ⟨hp, free, early⟩
        rcases List.mem_cons.mp hp with rfl | later
        · exact .inl rfl
        · refine .inr ⟨later, fun q hq => ?_, fun r hr => early r (List.mem_cons_of_mem _ hr)⟩
          rcases List.mem_append.mp hq with hq | hq
          · exact free q hq
          · obtain rfl : q = c := by simpa using hq
            exact early q List.mem_cons_self (first p later)

variable (sorted : ∀ p, (sp.next p).Pairwise fun s t => key s < key t)
include sorted

theorem level_sorted (d : Nat) :
    (sp.level d).1.Pairwise fun q r => q.map key < r.map key := by
  induction d with
  | zero => exact List.pairwise_singleton _ _
  | succ d ih =>
    have cands := sp.extensions_sorted key sorted _ d (sp.length_of_mem_level d) ih
    show (sp.sweep _ _).Pairwise _
    rw [sweep_eq_select]
    exact cands.sublist (sp.select_sublist _ _)

theorem kept_sorted (d : Nat) : (sp.kept d).Pairwise fun p q => rank key p < rank key q := by
  induction d with
  | zero => exact List.pairwise_singleton _ _
  | succ d ih =>
    refine List.pairwise_append.mpr ⟨ih, ?_, fun p hp q hq => ?_⟩
    · refine (sp.level_sorted key sorted (d + 1)).imp_of_mem fun {p q} hp hq lt => ?_
      refine Prod.Lex.toLex_lt_toLex.mpr (.inr ⟨?_, lt⟩)
      rw [sp.length_of_mem_level (d + 1) p hp, sp.length_of_mem_level (d + 1) q hq]
    · have long : q.length = d + 1 := sp.length_of_mem_level (d + 1) q hq
      have := (sp.mem_level_of_mem_kept d hp).1
      exact Prod.Lex.toLex_lt_toLex.mpr (.inl (by omega))

theorem mem_kept_iff_selected (d : Nat) (p : List S) :
    p ∈ sp.kept d ↔ sp.Selected key d p := by
  induction d generalizing p with
  | zero => simp [kept, level, Selected]
  | succ d ih =>
    have grown : ∀ r, r ∈ (sp.level d).1.flatMap sp.extensions ↔
        ∃ q s, sp.Selected key d q ∧ q.length = d ∧ s ∈ sp.next q ∧ r = q ++ [s] := by
      intro r
      simp only [List.mem_flatMap, extensions, List.mem_map]
      constructor
      · rintro ⟨q, hq, s, hs, rfl⟩
        exact ⟨q, s, (ih q).mp (sp.level_subset_kept d hq), sp.length_of_mem_level d q hq, hs, rfl⟩
      · rintro ⟨q, s, hq, size, hs, rfl⟩
        have mem := (sp.mem_level_of_mem_kept d ((ih q).mpr hq)).2
        exact ⟨q, size ▸ mem, s, hs, rfl⟩
    have cands := sp.extensions_sorted key sorted _ d (sp.length_of_mem_level d)
      (sp.level_sorted key sorted d)
    have new : (sp.level (d + 1)).1 =
        sp.select (sp.kept d) ((sp.level d).1.flatMap sp.extensions) :=
      sp.sweep_eq_select _ _
    rw [kept_succ, List.mem_append, new, sp.mem_select_iff key _ cands, ih, grown, Selected]
    refine or_congr_right (and_congr_right fun _ => and_congr ?_ ?_)
    · exact forall_congr' fun q => imp_congr_left (ih q)
    · constructor
      · intro h q s hq size hs
        exact h _ ((grown _).mpr ⟨q, s, hq, size, hs, rfl⟩)
      · intro h r hr
        obtain ⟨q, s, hq, size, hs, rfl⟩ := (grown r).mp hr
        exact h q s hq size hs

end Selected

section Uncut

variable (blocked : List S → S → Prop) (d : Nat)

/-- Some prefix of the path was dropped for a kept path that is no longer and
no weaker, but after which the next step of the path is blocked. -/
def Cut (p : List S) : Prop :=
  ∃ p₀ s r, p = p₀ ++ s :: r ∧ p₀ ∉ sp.kept d ∧
    ∃ q ∈ sp.kept d, sp.Covers q p₀ ∧ q.length ≤ p₀.length ∧ blocked q s

variable {blocked d}

theorem not_cut_of_mem_kept {p : List S} (h : p ∈ sp.kept d) : ¬ sp.Cut blocked d p := by
  rintro ⟨p₀, s, r, rfl, absent, -⟩
  exact absent (sp.mem_kept_of_prefix (List.prefix_append _ _) h)

theorem Cut.append {p r : List S} (h : sp.Cut blocked d p) : sp.Cut blocked d (p ++ r) := by
  obtain ⟨p₀, s, r₀, rfl, rest⟩ := h
  exact ⟨p₀, s, r₀ ++ r, by simp, rest⟩

/-- A path that is not cut is covered by a kept path that is no longer. -/
theorem covered_of_not_cut
    (exchange : ∀ p q s, sp.IsPath (p ++ [s]) → q ∈ sp.kept d → sp.goal q = sp.goal p →
      s ∈ sp.next q ∨ (∃ q', q' <+: q ∧ sp.goal q' = sp.head s) ∨ blocked q s)
    (p : List S) (hp : sp.IsPath p) (short : p.length ≤ d) (uncut : ¬ sp.Cut blocked d p) :
    ∃ q ∈ sp.kept d, sp.Covers q p ∧ q.length ≤ p.length := by
  induction p using List.reverseRecOn with
  | nil => exact ⟨[], sp.nil_mem_kept d, ⟨rfl, le_rfl⟩, le_rfl⟩
  | append_singleton p s ih =>
    simp only [List.length_append, List.length_singleton] at short ⊢
    have hp' := (sp.isPath_snoc.mp hp).1
    obtain ⟨q, hq, cover, size⟩ := ih hp' (by omega) fun h => uncut h.append
    by_cases member : p ∈ sp.kept d
    · obtain ⟨q', hq', cover', size'⟩ :=
        sp.kept_closed member (by omega) (sp.isPath_snoc.mp hp).2
      exact ⟨q', hq', cover', size'⟩
    · rcases exchange p q s hp hq cover.1 with follows | ⟨q', pre, same⟩ | stop
      · obtain ⟨q', hq', cover', size'⟩ := sp.kept_closed hq (by omega) follows
        refine ⟨q', hq', ⟨by simpa using cover'.1, ?_⟩, by omega⟩
        calc
          sp.cost q' ≤ max (sp.cost q) (sp.weight s) := by simpa using cover'.2
          _ ≤ sp.cost (p ++ [s]) := by
            rw [cost_snoc]
            exact sup_le_sup_right cover.2 _
      · refine ⟨q', sp.mem_kept_of_prefix pre hq, ⟨by simpa using same, ?_⟩, ?_⟩
        · calc
            sp.cost q' ≤ sp.cost q := sp.cost_le_of_prefix pre
            _ ≤ sp.cost (p ++ [s]) := cover.2.trans (by simp)
        · have := pre.length_le
          omega
      · exact absurd ⟨p, s, [], rfl, member, q, hq, cover, size, stop⟩ uncut

end Uncut

section Queue

theorem filter_kept (d : Nat) : (sp.kept (d + 1)).filter (·.length < d + 1) = sp.kept d := by
  rw [kept_succ, List.filter_append, List.filter_eq_self.mpr, List.filter_eq_nil_iff.mpr,
    List.append_nil]
  · intro p hp
    simp [sp.length_of_mem_level _ p hp]
  · intro p hp
    simpa [Nat.lt_succ_iff] using (sp.mem_level_of_mem_kept d hp).1

theorem kept_succ_eq_sweep (d : Nat) : sp.kept (d + 1) = [] :: sp.sweep [[]] (sp.kept d) := by
  induction d with
  | zero => rfl
  | succ d ih =>
    have split : sp.kept (d + 1) = sp.kept d ++ (sp.level (d + 1)).1 := rfl
    conv_rhs => rw [split, sweep_append, ← List.cons_append, List.singleton_append, ← ih]
    rfl

theorem kept_eq_sweep (d : Nat) :
    sp.kept d = [] :: sp.sweep [[]] ((sp.kept d).filter (·.length < d)) := by
  cases d with
  | zero => simp [kept, level, sweep]
  | succ d => rw [filter_kept, kept_succ_eq_sweep]

theorem length_kept_sorted (d : Nat) : (sp.kept d).Pairwise fun p q => p.length ≤ q.length := by
  induction d with
  | zero => exact List.pairwise_singleton _ _
  | succ d ih =>
    refine List.pairwise_append.mpr ⟨ih, ?_, fun p hp q hq => ?_⟩
    · refine List.pairwise_of_forall_mem_list fun p hp q hq => ?_
      rw [sp.length_of_mem_level (d + 1) p hp, sp.length_of_mem_level (d + 1) q hq]
    · have long : q.length = d + 1 := sp.length_of_mem_level _ q hq
      have := (sp.mem_level_of_mem_kept d hp).1
      omega

/-- The paths a program has taken from its queue and those that wait in it. A path as long as the
bound allows is taken without being extended. -/
structure Scan (bound : Nat) (popped queue : List (List S)) : Prop where
  found : popped ++ queue = [] :: sp.sweep [[]] (popped.filter (·.length < bound))
  initial : popped ++ queue <+: sp.kept bound

variable {sp} {bound : Nat} {popped queue : List (List S)} {p : List S}

theorem Scan.start : sp.Scan bound [] [[]] where
  found := rfl
  initial := by
    rw [kept_eq_sweep]
    exact ⟨_, rfl⟩

theorem Scan.pop (h : sp.Scan bound popped (p :: queue)) (short : p.length < bound) :
    sp.Scan bound (popped ++ [p])
      (queue ++ sp.select (popped ++ p :: queue) (sp.extensions p)) := by
  have taken : (popped ++ [p]).filter (·.length < bound) =
      popped.filter (·.length < bound) ++ [p] := by
    simp [short]
  have found : (popped ++ [p]) ++ (queue ++ sp.select (popped ++ p :: queue) (sp.extensions p)) =
      [] :: sp.sweep [[]] ((popped ++ [p]).filter (·.length < bound)) := by
    rw [taken, sweep_snoc, ← List.cons_append, List.singleton_append, ← h.found]
    simp
  refine ⟨found, ?_⟩
  have first : popped ++ [p] <+: sp.kept bound := by
    refine List.IsPrefix.trans ?_ h.initial
    exact ⟨queue, by simp⟩
  obtain ⟨rest, split⟩ := List.IsPrefix.filter (·.length < bound) first
  rw [found, kept_eq_sweep, ← split, sweep_append]
  exact ⟨_, rfl⟩

theorem Scan.drop (h : sp.Scan bound popped (p :: queue)) (long : ¬p.length < bound) :
    sp.Scan bound (popped ++ [p]) queue where
  found := by
    have skipped : [p].filter (·.length < bound) = [] := by simpa using long
    rw [List.filter_append, skipped, List.append_nil, ← h.found, List.append_assoc,
      List.singleton_append]
  initial := by
    rw [List.append_assoc, List.singleton_append]
    exact h.initial

theorem Scan.improving (h : sp.Scan bound popped queue) : sp.Improving (popped ++ queue) :=
  (sp.improving_kept bound).sublist h.initial.sublist

theorem not_covers_of_initial {first : List (List S)} (initial : first <+: sp.kept bound)
    (hp : p ∈ sp.kept bound) (later : p ∉ first) : ∀ q ∈ first, ¬ sp.Covers q p := by
  obtain ⟨rest, split⟩ := initial
  have improving := split ▸ sp.improving_kept bound
  have mem : p ∈ rest := (List.mem_append.mp (split ▸ hp)).resolve_left later
  intro q hq cover
  exact absurd cover.2 (not_le.mpr ((List.pairwise_append.mp improving).2.2 q hq p mem cover.1))

/-- An extension of a path that was taken is kept only if it has been found. -/
theorem Scan.mem_of_popped (h : sp.Scan bound popped queue) {s : S} (mem : p ∈ popped)
    (hp : p ++ [s] ∈ sp.kept bound) : p ++ [s] ∈ popped ++ queue := by
  by_contra later
  have size := (sp.mem_level_of_mem_kept bound hp).1
  rw [List.length_append, List.length_singleton] at size
  obtain ⟨q, found, cover⟩ := sp.sweep_covers (popped.filter (·.length < bound))
    (sp.mem_kept_of_snoc hp).2 [[]] (List.mem_filter.mpr ⟨mem, decide_eq_true (by omega)⟩)
  rw [List.singleton_append, ← h.found] at found
  exact not_covers_of_initial h.initial hp later q found cover

theorem Scan.finish (h : sp.Scan bound popped []) : popped = sp.kept bound := by
  have initial := h.initial
  rw [List.append_nil] at initial
  obtain ⟨rest, split⟩ := initial
  cases rest with
  | nil => rw [← split, List.append_nil]
  | cons p rest =>
    exfalso
    have hp : p ∈ sp.kept bound := split ▸ by simp
    have sorted := split ▸ sp.length_kept_sorted bound
    have improving := split ▸ sp.improving_kept bound
    have apart : ∀ q ∈ popped, ¬ sp.Covers q p := fun q hq cover =>
      absurd cover.2 (not_le.mpr
        ((List.pairwise_append.mp improving).2.2 q hq p List.mem_cons_self cover.1))
    have found := h.found
    rw [List.append_nil] at found
    cases p using List.reverseRecOn with
    | nil => exact apart [] (found ▸ List.mem_cons_self) ⟨rfl, le_rfl⟩
    | append_singleton q s =>
      have before : q ∈ popped := by
        have mem := (sp.mem_kept_of_snoc hp).1
        rw [← split] at mem
        refine (List.mem_append.mp mem).resolve_right fun later => ?_
        have size : (q ++ [s]).length ≤ q.length := by
          rcases List.mem_cons.mp later with same | later
          · exact (congrArg List.length same).ge
          · exact (List.pairwise_cons.mp (List.pairwise_append.mp sorted).2.1).1 q later
        rw [List.length_append, List.length_singleton] at size
        omega
      have mem := h.mem_of_popped before hp
      rw [List.append_nil] at mem
      exact apart _ mem ⟨rfl, le_rfl⟩

theorem Scan.length (h : sp.Scan bound popped (p :: queue)) :
    ∀ q ∈ popped ++ p :: queue, q.length ≤ p.length + 1 := by
  intro q hq
  rw [h.found] at hq
  rcases List.mem_cons.mp hq with rfl | hq
  · simp
  · obtain ⟨r, hr, s, -, rfl⟩ := sp.exists_of_mem_sweep _ _ hq
    have sorted := (sp.length_kept_sorted bound).sublist h.initial.sublist
    have le := (List.pairwise_append.mp sorted).2.2 r (List.mem_filter.mp hr).1 p
      List.mem_cons_self
    simpa using le

theorem Scan.waiting (h : sp.Scan bound popped (p :: queue)) :
    ∀ q ∈ queue, p.length ≤ q.length ∧ q.length ≤ bound := by
  intro q hq
  have sorted := (sp.length_kept_sorted bound).sublist h.initial.sublist
  refine ⟨(List.pairwise_cons.mp (List.pairwise_append.mp sorted).2.1).1 q hq, ?_⟩
  exact (sp.mem_level_of_mem_kept bound (h.initial.subset (by simp [hq]))).1

end Queue

end Space

end CodeSystemGraph.LabelSearch
