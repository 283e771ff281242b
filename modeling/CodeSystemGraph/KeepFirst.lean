import CodeSystemGraph.Ordered

/-! Records collected from documents in several rounds, of which the first with each
key is kept. The result forgets the order of the documents exactly when the documents
of the round that decides a key agree on its record. -/

namespace CodeSystemGraph.Ordered

section KeepFirst

variable {K β : Type} [LinearOrder K] (key : β → K)

def leading (k : K) (l : List β) : Option β := l.find? fun b => key b = k

/-- `sort_by` on a key followed by `dedup_by` on it. -/
def keepFirst (l : List β) : List β := dedupBy (fun a b => key a == key b) (sortBy key l)

variable {key}

theorem key_of_leading {k : K} {l : List β} {b : β} (found : leading key k l = some b) : key b = k := by
  simpa using List.find?_some found

variable (key) in
theorem leading_of_mem {l : List β} {b : β} (mem : b ∈ l) : ∃ a, leading key (key b) l = some a :=
  Option.isSome_iff_exists.mp (List.find?_isSome.mpr ⟨b, mem, decide_eq_true rfl⟩)

theorem find?_keepFirst (k : K) (l : List β) : leading key k (keepFirst key l) = leading key k l := by
  apply dedupBy_sortBy_find? key
  intro a _ b _
  exact beq_iff_eq

theorem nodup_keepFirst (l : List β) : ((keepFirst key l).map key).Nodup := by
  have strict : (keepFirst key l).Pairwise fun a b => key a < key b := by
    apply dedupBy_strict key (sortBy_sorted key l)
    intro a _ b _
    exact beq_iff_eq
  exact List.pairwise_map.mpr (strict.imp fun lt => lt.ne)

theorem mem_keepFirst {l : List β} {b : β} : b ∈ keepFirst key l ↔ leading key (key b) l = some b := by
  rw [← find?_keepFirst]
  constructor
  · intro mem
    obtain ⟨a, found⟩ := leading_of_mem key mem
    have same := key_of_leading found
    have listed := List.mem_of_find?_eq_some found
    rwa [List.inj_on_of_nodup_map (nodup_keepFirst l) listed mem same] at found
  · exact List.mem_of_find?_eq_some

theorem mem_of_keepFirst {l : List β} {b : β} (kept : b ∈ keepFirst key l) : b ∈ l :=
  List.mem_of_find?_eq_some (mem_keepFirst.mp kept)

variable (key) in
theorem exists_keepFirst {l : List β} {b : β} (mem : b ∈ l) :
    ∃ a ∈ keepFirst key l, key a = key b := by
  obtain ⟨a, found⟩ := leading_of_mem key mem
  have same := key_of_leading found
  exact ⟨a, mem_keepFirst.mpr (same ▸ found), same⟩

variable (key) in
def firstsAfter : List K → List β → List β
  | _, [] => []
  | seen, b :: l => (if key b ∈ seen then [] else [b]) ++ firstsAfter (key b :: seen) l

theorem key_of_firstsAfter {l : List β} {b : β} : ∀ {seen : List K}, b ∈ firstsAfter key seen l →
    key b ∉ seen := by
  induction l with
  | nil =>
    intro seen mem
    cases mem
  | cons a l ih =>
    intro seen mem
    rw [firstsAfter, List.mem_append] at mem
    rcases mem with here | later
    · split at here
      · cases here
      · next fresh => rwa [List.mem_singleton.1 here]
    · exact List.not_mem_of_not_mem_cons (ih later)

theorem mem_firstsAfter {l : List β} {b : β} : ∀ {seen : List K}, key b ∉ seen →
    (b ∈ firstsAfter key seen l ↔ leading key (key b) l = some b) := by
  induction l with
  | nil =>
    intro seen _
    simp [firstsAfter, leading]
  | cons a l ih =>
    intro seen fresh
    rw [firstsAfter, List.mem_append]
    by_cases same : key a = key b
    · have later : b ∉ firstsAfter key (key a :: seen) l :=
        fun mem => key_of_firstsAfter mem (same ▸ List.mem_cons_self ..)
      rw [or_iff_left later]
      simp [leading, same, fresh, eq_comm]
    · have other : b ≠ a := fun equal => same (congrArg key equal.symm)
      have inner : key b ∉ key a :: seen := by simp [Ne.symm same, fresh]
      rw [ih inner]
      have skip : b ∉ if key a ∈ seen then [] else [a] := by split <;> simp [other]
      simp [leading, same, skip]

theorem nodup_firstsAfter (l : List β) : ∀ seen : List K, (firstsAfter key seen l).Nodup := by
  induction l with
  | nil => exact fun _ => List.nodup_nil
  | cons a l ih =>
    intro seen
    rw [firstsAfter, List.nodup_append]
    refine ⟨by split <;> simp, ih _, ?_⟩
    intro b here c later same
    have first : b = a := by
      split at here
      · cases here
      · exact List.mem_singleton.1 here
    rw [← same, first] at later
    exact key_of_firstsAfter later (List.mem_cons_self ..)

variable (key) in
theorem keepFirst_perm (l : List β) : (keepFirst key l).Perm (firstsAfter key [] l) := by
  rw [List.perm_ext_iff_of_nodup (List.Nodup.of_map key (nodup_keepFirst l)) (nodup_firstsAfter l [])]
  intro b
  rw [mem_keepFirst, mem_firstsAfter List.not_mem_nil]

theorem keepFirst_congr {l l' : List β} :
    (∀ b, b ∈ keepFirst key l ↔ b ∈ keepFirst key l') ↔
      ∀ k, leading key k l = leading key k l' := by
  constructor
  · intro same k
    apply Option.ext
    intro b
    constructor
    · intro found
      have here := key_of_leading found
      subst here
      exact mem_keepFirst.mp ((same b).mp (mem_keepFirst.mpr found))
    · intro found
      have here := key_of_leading found
      subst here
      exact mem_keepFirst.mp ((same b).mpr (mem_keepFirst.mpr found))
  · intro same b
    rw [mem_keepFirst, mem_keepFirst, same]

end KeepFirst

section Rounds

variable {α β K : Type} [LinearOrder K] (key : β → K)

def collected (rounds : List (α → List β)) (documents : List α) : List β :=
  rounds.flatMap fun round => documents.flatMap round

/-- In the first round that finds a record with the key, each document that has one
starts with the same. -/
def Settled (documents : List α) (k : K) : List (α → List β) → Prop
  | [] => True
  | round :: later =>
    (∀ a ∈ documents, ∀ b ∈ documents, ∀ x ∈ leading key k (round a), ∀ y ∈ leading key k (round b),
      x = y) ∧
    ((∀ a ∈ documents, leading key k (round a) = none) → Settled documents k later)

variable {key}

theorem leading_collected (k : K) (round : α → List β) (later : List (α → List β))
    (documents : List α) :
    leading key k (collected (round :: later) documents) =
      (documents.findSome? fun a => leading key k (round a)).or
        (leading key k (collected later documents)) := by
  rw [collected, List.flatMap_cons, leading, List.find?_append, List.find?_flatMap]
  rfl

theorem findSome?_perm {report : α → Option β} {documents documents' : List α}
    (perm : documents'.Perm documents)
    (agree : ∀ a ∈ documents, ∀ b ∈ documents, ∀ x ∈ report a, ∀ y ∈ report b, x = y) :
    documents'.findSome? report = documents.findSome? report := by
  apply Option.ext
  have one : ∀ {l l' : List α} {x : β}, l.Perm l' →
      (∀ a ∈ l', ∀ b ∈ l', ∀ x ∈ report a, ∀ y ∈ report b, x = y) →
      l.findSome? report = some x → l'.findSome? report = some x := by
    intro l l' x perm agree found
    obtain ⟨a, mem, here⟩ := List.exists_of_findSome?_eq_some found
    cases other : l'.findSome? report with
    | none =>
      have absent := List.findSome?_eq_none_iff.mp other a (perm.mem_iff.mp mem)
      rw [absent] at here
      cases here
    | some y =>
      obtain ⟨b, mem', here'⟩ := List.exists_of_findSome?_eq_some other
      rw [agree a (perm.mem_iff.mp mem) b mem' x here y here']
  intro x
  constructor
  · exact one perm agree
  · refine one perm.symm fun a ha b hb => ?_
    exact agree a (perm.mem_iff.mp ha) b (perm.mem_iff.mp hb)

theorem findSome?_front {report : α → Option β} {documents : List α} {a : α} {x : β}
    (mem : a ∈ documents) (here : x ∈ report a) :
    ∃ documents' : List α, documents'.Perm documents ∧ documents'.findSome? report = some x := by
  obtain ⟨before, after, rfl⟩ := List.append_of_mem mem
  exact ⟨a :: (before ++ after), List.perm_middle.symm, by
    rw [List.findSome?_cons, Option.mem_def.mp here]⟩

theorem settled_iff {rounds : List (α → List β)} {documents : List α} {k : K} :
    (∀ documents', documents'.Perm documents →
      leading key k (collected rounds documents') = leading key k (collected rounds documents)) ↔
      Settled key documents k rounds := by
  induction rounds with
  | nil => exact iff_of_true (fun _ _ => rfl) trivial
  | cons round later ih =>
    simp only [leading_collected, Settled]
    constructor
    · intro same
      refine ⟨fun a ha b hb x hx y hy => ?_, fun absent => ?_⟩
      · have front := @findSome?_front α β fun a => leading key k (round a)
        obtain ⟨first, perm, found⟩ := front ha hx
        obtain ⟨first', perm', found'⟩ := front hb hy
        have equal := (same first perm).trans (same first' perm').symm
        rw [found, found'] at equal
        simpa using equal
      · refine ih.mp fun documents' perm => ?_
        have here := same documents' perm
        have found : documents.findSome? (fun a => leading key k (round a)) = none :=
          List.findSome?_eq_none_iff.mpr absent
        have found' : documents'.findSome? (fun a => leading key k (round a)) = none :=
          List.findSome?_eq_none_iff.mpr fun a mem => absent a (perm.mem_iff.mp mem)
        rwa [found, found', Option.none_or, Option.none_or] at here
    · rintro ⟨agree, settled⟩ documents' perm
      rw [findSome?_perm perm agree]
      cases found : documents.findSome? fun a => leading key k (round a) with
      | some x => rfl
      | none => exact ih.mpr (settled (List.findSome?_eq_none_iff.mp found)) documents' perm

theorem mem_collected {rounds : List (α → List β)} {documents : List α} {b : β} :
    b ∈ collected rounds documents ↔ ∃ round ∈ rounds, ∃ a ∈ documents, b ∈ round a := by
  simp only [collected, List.mem_flatMap]

end Rounds

end CodeSystemGraph.Ordered
