import CodeSystemGraph.BinarySearch
import CodeSystemGraph.Ordered
import CodeSystemGraph.StoreRecords

/-!
The plan of an incremental scan: how the fingerprints of the current artifacts differ from those
of the published snapshot.
-/

namespace CodeSystemGraph.Incremental

open Model Ordered

abbrev BorrowedArtifactKey := String ×ₗ String ×ₗ (Nat ×ₗ List Nat ×ₗ String) ×ₗ String

def encodingIndex : NativePathEncoding → Nat
  | .unixBytes => 0
  | .windowsWide => 1
  | .utf8 => 2

def pathKey (path : NativePath) : Nat ×ₗ List Nat ×ₗ String :=
  toLex (encodingIndex path.encoding, toLex (path.bytes.map UInt8.toNat, path.display))

def keyOf (repoId : RepoId) (checkoutId : CheckoutId) (path : NativePath) (extractor : String) :
    BorrowedArtifactKey :=
  toLex (repoId, toLex (checkoutId, toLex (pathKey path, extractor)))

def artifactKey (fingerprint : Store.ArtifactFingerprint) : BorrowedArtifactKey :=
  keyOf fingerprint.repoId fingerprint.checkoutId fingerprint.path fingerprint.extractor

inductive ArtifactChangeKind
  | added | modified | deleted
deriving DecidableEq

structure ArtifactChange extends Store.ArtifactChange where
  kind : ArtifactChangeKind

def changeKey (change : ArtifactChange) : BorrowedArtifactKey :=
  keyOf change.repoId change.checkoutId change.path change.extractor

def changeOf (fingerprint : Store.ArtifactFingerprint) (kind : ArtifactChangeKind) :
    ArtifactChange where
  repoId := fingerprint.repoId
  checkoutId := fingerprint.checkoutId
  path := fingerprint.path
  extractor := fingerprint.extractor
  kind

/-- The entries of the map collected from fingerprints: of those with one key the last. -/
def fingerprintMap (fingerprints : List Store.ArtifactFingerprint) :
    List (BorrowedArtifactKey × Store.ArtifactFingerprint) :=
  inventory artifactKey fingerprints

def planIncrementalScan (previous current : List Store.ArtifactFingerprint) : List ArtifactChange :=
  let addedOrModified := (fingerprintMap current).filterMap fun entry =>
    let kind :=
      match latest artifactKey entry.1 previous with
      | none => some ArtifactChangeKind.added
      | some before => if before.contentHash ≠ entry.2.contentHash then some .modified else none
    kind.map (changeOf entry.2)
  let deleted := ((fingerprintMap previous).filter fun entry =>
    (latest artifactKey entry.1 current).isNone).map fun entry => changeOf entry.2 .deleted
  sortBy changeKey (addedOrModified ++ deleted)

section Exactness

/-- What has become of an artifact, by its content hash before and after. -/
def difference : Option String → Option String → Option ArtifactChangeKind
  | none, none => none
  | none, some _ => some .added
  | some _, none => some .deleted
  | some before, some after => if before ≠ after then some .modified else none

def contentAt (fingerprints : List Store.ArtifactFingerprint) (k : BorrowedArtifactKey) :
    Option String :=
  (latest artifactKey k fingerprints).map (·.contentHash)

theorem pathKey_injective : Function.Injective pathKey := by
  intro path other same
  obtain ⟨encoding, bytes, display⟩ := path
  obtain ⟨encoding', bytes', display'⟩ := other
  have parts := Prod.mk.inj (toLex.injective same)
  have rest := Prod.mk.inj (toLex.injective parts.2)
  have sameEncoding : encoding = encoding' := by
    have index := parts.1
    cases encoding <;> cases encoding' <;> first | rfl | cases index
  have sameBytes : bytes = bytes' :=
    List.map_injective_iff.2 (fun _ _ => UInt8.toNat_inj.1) rest.1
  have sameDisplay : display = display' := rest.2
  rw [sameEncoding, sameBytes, sameDisplay]

theorem keyOf_inj {repoId repoId' : RepoId} {checkoutId checkoutId' : CheckoutId}
    {path path' : NativePath} {extractor extractor' : String}
    (same : keyOf repoId checkoutId path extractor = keyOf repoId' checkoutId' path' extractor') :
    repoId = repoId' ∧ checkoutId = checkoutId' ∧ path = path' ∧ extractor = extractor' := by
  have outer := Prod.mk.inj (toLex.injective same)
  have middle := Prod.mk.inj (toLex.injective outer.2)
  have inner := Prod.mk.inj (toLex.injective middle.2)
  exact ⟨outer.1, middle.1, pathKey_injective inner.1, inner.2⟩

@[simp] theorem changeKey_changeOf (fingerprint : Store.ArtifactFingerprint)
    (kind : ArtifactChangeKind) : changeKey (changeOf fingerprint kind) = artifactKey fingerprint := rfl

theorem mem_inventory_iff {α K : Type} [LinearOrder K] {key : α → K} {l : List α} {entry : K × α} :
    entry ∈ inventory key l ↔ latest key entry.1 l = some entry.2 ∧ key entry.2 = entry.1 := by
  constructor
  · intro mem
    have found := lookup_of_mem (nodup_inventory l) mem
    rw [lookup_inventory] at found
    exact ⟨found, (mem_of_mem_inventory mem).2⟩
  · intro both
    have found := both.1
    rw [← lookup_inventory] at found
    exact mem_of_lookup found

variable {previous current : List Store.ArtifactFingerprint}

theorem mem_fingerprintMap {l : List Store.ArtifactFingerprint}
    {entry : BorrowedArtifactKey × Store.ArtifactFingerprint} : entry ∈ fingerprintMap l ↔
      entry.1 = artifactKey entry.2 ∧ latest artifactKey (artifactKey entry.2) l = some entry.2 := by
  rw [fingerprintMap, mem_inventory_iff]
  constructor
  · rintro ⟨found, same⟩
    exact ⟨same.symm, same ▸ found⟩
  · rintro ⟨same, found⟩
    exact ⟨same ▸ found, same.symm⟩

theorem mem_planIncrementalScan {change : ArtifactChange} :
    change ∈ planIncrementalScan previous current ↔
      (∃ after, latest artifactKey (artifactKey after) current = some after ∧
        ∃ kind, difference (contentAt previous (artifactKey after)) (some after.contentHash) =
          some kind ∧ change = changeOf after kind) ∨
      ∃ before, latest artifactKey (artifactKey before) previous = some before ∧
        latest artifactKey (artifactKey before) current = none ∧ change = changeOf before .deleted := by
  rw [planIncrementalScan, mem_sortBy, List.mem_append]
  refine or_congr ?_ ?_
  · rw [List.mem_filterMap]
    constructor
    · rintro ⟨entry, mem, is⟩
      obtain ⟨key, found⟩ := mem_fingerprintMap.1 mem
      obtain ⟨kind, kinds, rfl⟩ := Option.map_eq_some_iff.1 is
      refine ⟨entry.2, found, kind, ?_, rfl⟩
      rw [← kinds, key, contentAt]
      cases latest artifactKey (artifactKey entry.2) previous <;> rfl
    · rintro ⟨after, found, kind, kinds, rfl⟩
      refine ⟨(artifactKey after, after), mem_fingerprintMap.2 ⟨rfl, found⟩, ?_⟩
      rw [Option.map_eq_some_iff]
      refine ⟨kind, ?_, rfl⟩
      rw [← kinds, contentAt]
      cases latest artifactKey (artifactKey after) previous <;> rfl
  · rw [List.mem_map]
    constructor
    · rintro ⟨entry, mem, rfl⟩
      obtain ⟨mem, absent⟩ := List.mem_filter.1 mem
      obtain ⟨key, found⟩ := mem_fingerprintMap.1 mem
      rw [key, Option.isNone_iff_eq_none] at absent
      exact ⟨entry.2, found, absent, rfl⟩
    · rintro ⟨before, found, absent, rfl⟩
      refine ⟨(artifactKey before, before), List.mem_filter.2 ⟨mem_fingerprintMap.2 ⟨rfl, found⟩, ?_⟩, rfl⟩
      rw [absent]
      rfl

theorem filterMap_sublist_map {α β : Type} {f : α → Option β} {g : α → β} {l : List α}
    (same : ∀ a ∈ l, ∀ b, f a = some b → b = g a) : (l.filterMap f).Sublist (l.map g) := by
  induction l with
  | nil => exact List.Sublist.refl []
  | cons a l ih =>
    obtain ⟨first, rest⟩ := List.forall_mem_cons.1 same
    cases is : f a with
    | none =>
      rw [List.filterMap_cons_none is, List.map_cons]
      exact (ih rest).cons _
    | some b =>
      rw [List.filterMap_cons_some is, List.map_cons, first b is]
      exact (ih rest).cons_cons _

theorem changeKey_nodup : ((planIncrementalScan previous current).map changeKey).Nodup := by
  rw [planIncrementalScan, ((sortBy_perm changeKey _).map changeKey).nodup_iff, List.map_append]
  have keys : ∀ l : List Store.ArtifactFingerprint, ((fingerprintMap l).map Prod.fst).Nodup :=
    fun l => nodup_inventory l
  refine List.Nodup.append ?_ ?_ fun k added deleted => ?_
  · refine (keys current).sublist ?_
    rw [List.map_filterMap]
    refine filterMap_sublist_map fun entry mem k is => ?_
    simp only [Option.map_map, Option.map_eq_some_iff] at is
    obtain ⟨kind, -, rfl⟩ := is
    exact (mem_fingerprintMap.1 mem).1.symm
  · refine (keys previous).sublist ?_
    rw [List.map_map]
    have same : ∀ entry ∈ (fingerprintMap previous).filter fun entry =>
        (latest artifactKey entry.1 current).isNone,
        (changeKey ∘ fun entry => changeOf entry.2 .deleted) entry = Prod.fst entry := by
      intro entry mem
      exact (mem_fingerprintMap.1 (List.mem_filter.1 mem).1).1.symm
    rw [List.map_congr_left same]
    exact List.filter_sublist.map Prod.fst
  · obtain ⟨change, mem, rfl⟩ := List.mem_map.1 added
    obtain ⟨entry, listed, is⟩ := List.mem_filterMap.1 mem
    obtain ⟨kind, -, rfl⟩ := Option.map_eq_some_iff.1 is
    obtain ⟨gone, mem', same⟩ := List.mem_map.1 deleted
    obtain ⟨before, filtered, rfl⟩ := List.mem_map.1 mem'
    obtain ⟨listed', absent⟩ := List.mem_filter.1 filtered
    have here := (mem_fingerprintMap.1 listed).2
    rw [(mem_fingerprintMap.1 listed').1, Option.isNone_iff_eq_none] at absent
    rw [changeKey_changeOf, changeKey_changeOf] at same
    rw [same, here] at absent
    cases absent

/-- The plan is the exact difference of the snapshots: it lists each artifact whose content hash
came, changed or went, with what became of it, once, in the order of the keys. -/
theorem planIncrementalScan_exact (previous current : List Store.ArtifactFingerprint) :
    ((planIncrementalScan previous current).Pairwise fun a b => changeKey a < changeKey b) ∧
    ∀ k kind, (∃ change ∈ planIncrementalScan previous current,
      changeKey change = k ∧ change.kind = kind) ↔
        difference (contentAt previous k) (contentAt current k) = some kind := by
  constructor
  · have nodup := @changeKey_nodup previous current
    rw [planIncrementalScan] at nodup ⊢
    exact sortBy_strict changeKey (((sortBy_perm changeKey _).map changeKey).nodup_iff.1 nodup)
  · intro k kind
    constructor
    · rintro ⟨change, mem, rfl, rfl⟩
      rcases mem_planIncrementalScan.1 mem with ⟨after, found, kind, is, rfl⟩ |
        ⟨before, found, absent, rfl⟩
      · rw [changeKey_changeOf, contentAt.eq_def current, found]
        exact is
      · rw [changeKey_changeOf, contentAt, contentAt, found, absent]
        rfl
    · intro is
      cases found : latest artifactKey k current with
      | some after =>
        obtain ⟨-, rfl⟩ := mem_of_latest found
        refine ⟨changeOf after kind, mem_planIncrementalScan.2 (.inl ⟨after, found, kind, ?_, rfl⟩),
          rfl, rfl⟩
        rw [← is, contentAt, contentAt, found]
        rfl
      | none =>
        cases stood : latest artifactKey k previous with
        | some before =>
          obtain ⟨-, rfl⟩ := mem_of_latest stood
          rw [contentAt, contentAt, found, stood] at is
          obtain rfl := Option.some.inj is
          exact ⟨changeOf before .deleted,
            mem_planIncrementalScan.2 (.inr ⟨before, stood, found, rfl⟩), rfl, rfl⟩
        | none =>
          rw [contentAt, contentAt, found, stood] at is
          cases is

end Exactness

end CodeSystemGraph.Incremental
