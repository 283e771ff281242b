import CodeSystemGraph.ExtractionBudget
import CodeSystemGraph.IncrementalPlan
import CodeSystemGraph.StoreRefinement

/-!
The identity of a snapshot: the manifest, the budgets and every fingerprint are hashed field by
field, each with its length, so that no two inputs run together.
-/

namespace CodeSystemGraph.Incremental

open Extraction Model
open Store (ArtifactFingerprint leBytes utf8)

section Model

def updateField (bytes : Bytes) : Bytes := leBytes 8 (min bytes.length u64Max) ++ bytes

def identityEncoding : NativePathEncoding → Bytes
  | .unixBytes => utf8 "unix"
  | .windowsWide => utf8 "wide"
  | .utf8 => utf8 "utf8"

/-- The fields of a fingerprint before its size. -/
def identityFields (fingerprint : ArtifactFingerprint) : List Bytes :=
  [utf8 fingerprint.repoId, utf8 fingerprint.checkoutId, identityEncoding fingerprint.path.encoding,
    fingerprint.path.bytes, utf8 fingerprint.extractor, utf8 fingerprint.contentHash]

def fingerprintInput (fingerprint : ArtifactFingerprint) : Bytes :=
  (identityFields fingerprint).flatMap updateField ++ leBytes 8 fingerprint.sizeBytes.toNat

def identityHeader (manifestHash budgetFingerprint : String) : List Bytes :=
  [utf8 "community-engine-v1", utf8 extractionContractVersion, utf8 budgetFingerprint,
    utf8 manifestHash]

def identityInput (manifestHash budgetFingerprint : String) (fingerprints : List ArtifactFingerprint) :
    Bytes :=
  (identityHeader manifestHash budgetFingerprint).flatMap updateField ++
    fingerprints.flatMap fingerprintInput

def snapshotIdentity {Digest : Type} (lib : Store.Libraries Digest)
    (manifestHash budgetFingerprint : String) (fingerprints : List ArtifactFingerprint) : String :=
  "snapshot:" ++ lib.toHex (lib.hash (identityInput manifestHash budgetFingerprint fingerprints))

end Model

section Framing

/-- A field whose length a `u64` holds, as that of every field in memory. -/
def FieldFits (bytes : Bytes) : Prop := bytes.length ≤ u64Max

instance (bytes : Bytes) : Decidable (FieldFits bytes) := inferInstanceAs (Decidable (_ ≤ _))

theorem updateField_inj {field other rest rest' : Bytes} (fits : FieldFits field)
    (fits' : FieldFits other) (same : updateField field ++ rest = updateField other ++ rest') :
    field = other ∧ rest = rest' := by
  rw [updateField, updateField, Nat.min_eq_left fits, Nat.min_eq_left fits', List.append_assoc,
    List.append_assoc] at same
  obtain ⟨lengths, fields⟩ := List.append_inj same (by simp)
  have length := @Store.leBytes_inj 8 _ _ (Nat.lt_succ_of_le fits) (Nat.lt_succ_of_le fits') lengths
  exact List.append_inj fields length

theorem updateFields_inj {fields others : List Bytes} (count : fields.length = others.length)
    (fits : ∀ field ∈ fields, FieldFits field) (fits' : ∀ field ∈ others, FieldFits field)
    {rest rest' : Bytes}
    (same : fields.flatMap updateField ++ rest = others.flatMap updateField ++ rest') :
    fields = others ∧ rest = rest' := by
  induction fields generalizing others with
  | nil =>
    obtain rfl := List.eq_nil_of_length_eq_zero count.symm
    exact ⟨rfl, same⟩
  | cons field fields ih =>
    obtain _ | ⟨other, others⟩ := others
    · cases count
    · rw [List.flatMap_cons, List.flatMap_cons, List.append_assoc, List.append_assoc] at same
      obtain ⟨first, later⟩ := List.forall_mem_cons.1 fits
      obtain ⟨first', later'⟩ := List.forall_mem_cons.1 fits'
      obtain ⟨rfl, tails⟩ := updateField_inj first first' same
      obtain ⟨rfl, ends⟩ := ih (Nat.succ.inj count) later later' tails
      exact ⟨rfl, ends⟩

theorem identityEncoding_injective : Function.Injective identityEncoding := by
  intro encoding other same
  cases encoding <;> cases other <;> first | rfl | exact absurd same (by decide)

/-- All that an identity tells of a fingerprint: its place in the store, its content and its size,
but not how its path is shown. -/
def identityOf (fingerprint : ArtifactFingerprint) : Store.ArtifactKey × String × UInt64 :=
  (Store.artifactKey fingerprint, fingerprint.contentHash, fingerprint.sizeBytes)

theorem identityOf_of_fields {f g : ArtifactFingerprint} (same : identityFields f = identityFields g)
    (size : f.sizeBytes = g.sizeBytes) : identityOf f = identityOf g := by
  simp only [identityFields, List.cons.injEq, and_true] at same
  obtain ⟨repo, checkout, encoding, bytes, extractor, content⟩ := same
  rw [identityOf, identityOf, Store.artifactKey, Store.artifactKey, Store.utf8_injective repo,
    Store.utf8_injective checkout, identityEncoding_injective encoding, bytes,
    Store.utf8_injective extractor, Store.utf8_injective content, size]

theorem fields_of_identityOf {f g : ArtifactFingerprint} (same : identityOf f = identityOf g) :
    fingerprintInput f = fingerprintInput g := by
  simp only [identityOf, Store.artifactKey, Prod.mk.injEq, Store.ArtifactKey.mk.injEq] at same
  obtain ⟨⟨repo, checkout, encoding, bytes, extractor⟩, content, size⟩ := same
  have encodings : f.path.encoding = g.path.encoding := by
    cases one : f.path.encoding <;> cases other : g.path.encoding <;> rw [one, other] at encoding <;>
      first | rfl | exact absurd encoding (by decide)
  rw [fingerprintInput, fingerprintInput, identityFields, identityFields, repo, checkout, encodings,
    bytes, extractor, content, size]

theorem fingerprintInput_ne_nil (fingerprint : ArtifactFingerprint) :
    fingerprintInput fingerprint ≠ [] := by
  intro empty
  have size := congrArg List.length (List.append_eq_nil_iff.1 empty).2
  rw [Store.leBytes_length] at size
  cases size

theorem fingerprintInputs_inj {fingerprints others : List ArtifactFingerprint}
    (fits : ∀ f ∈ fingerprints, ∀ field ∈ identityFields f, FieldFits field)
    (fits' : ∀ f ∈ others, ∀ field ∈ identityFields f, FieldFits field)
    (same : fingerprints.flatMap fingerprintInput = others.flatMap fingerprintInput) :
    fingerprints.map identityOf = others.map identityOf := by
  induction fingerprints generalizing others with
  | nil =>
    obtain _ | ⟨other, others⟩ := others
    · rfl
    · exact absurd (List.append_eq_nil_iff.1 same.symm).1 (fingerprintInput_ne_nil other)
  | cons f fingerprints ih =>
    obtain _ | ⟨g, others⟩ := others
    · exact absurd (List.append_eq_nil_iff.1 same).1 (fingerprintInput_ne_nil f)
    · rw [List.flatMap_cons, List.flatMap_cons, fingerprintInput, fingerprintInput, List.append_assoc,
        List.append_assoc] at same
      obtain ⟨first, later⟩ := List.forall_mem_cons.1 fits
      obtain ⟨first', later'⟩ := List.forall_mem_cons.1 fits'
      obtain ⟨fields, tails⟩ := @updateFields_inj (identityFields f) (identityFields g) rfl first first' _ _ same
      obtain ⟨sizes, ends⟩ := List.append_inj tails (by simp)
      have size := @Store.leBytes_inj 8 _ _ (UInt64.toNat_lt _) (UInt64.toNat_lt _) sizes
      rw [List.map_cons, List.map_cons, identityOf_of_fields fields (UInt64.toNat_inj.1 size),
        ih later later' ends]

end Framing

section Identity

variable {Digest : Type} {lib : Store.Libraries Digest}

theorem snapshotIdentity_congr {manifestHash budgetFingerprint : String}
    {fingerprints others : List ArtifactFingerprint}
    (same : fingerprints.map identityOf = others.map identityOf) :
    snapshotIdentity lib manifestHash budgetFingerprint fingerprints =
      snapshotIdentity lib manifestHash budgetFingerprint others := by
  have inputs : fingerprints.flatMap fingerprintInput = others.flatMap fingerprintInput := by
    induction fingerprints generalizing others with
    | nil =>
      obtain rfl := List.map_eq_nil_iff.1 same.symm
      rfl
    | cons f fingerprints ih =>
      obtain _ | ⟨g, others⟩ := others
      · cases same
      · obtain ⟨first, later⟩ := List.cons.inj same
        rw [List.flatMap_cons, List.flatMap_cons, fields_of_identityOf first, ih later]
  rw [snapshotIdentity, snapshotIdentity, identityInput, identityInput, inputs]

structure IdentityFits (manifestHash budgetFingerprint : String)
    (fingerprints : List ArtifactFingerprint) : Prop where
  manifest : FieldFits (utf8 manifestHash)
  budget : FieldFits (utf8 budgetFingerprint)
  fingerprints : ∀ f ∈ fingerprints, ∀ field ∈ identityFields f, FieldFits field

instance (manifestHash budgetFingerprint : String) (fingerprints : List ArtifactFingerprint) :
    Decidable (IdentityFits manifestHash budgetFingerprint fingerprints) :=
  decidable_of_iff (FieldFits (utf8 manifestHash) ∧ FieldFits (utf8 budgetFingerprint) ∧
      ∀ f ∈ fingerprints, ∀ field ∈ identityFields f, FieldFits field)
    ⟨fun fits => ⟨fits.1, fits.2.1, fits.2.2⟩,
      fun fits => ⟨fits.manifest, fits.budget, fits.fingerprints⟩⟩

theorem IdentityFits.header {manifestHash budgetFingerprint : String}
    {fingerprints : List ArtifactFingerprint}
    (fits : IdentityFits manifestHash budgetFingerprint fingerprints) :
    ∀ field ∈ identityHeader manifestHash budgetFingerprint, FieldFits field := by
  rw [identityHeader]
  simp only [List.forall_mem_cons, List.not_mem_nil, false_implies, implies_true, and_true]
  exact ⟨by decide, by decide, fits.budget, fits.manifest⟩

theorem snapshotIdentity_inj (collisionFree : Function.Injective lib.hash)
    (hexInjective : Function.Injective lib.toHex) {manifestHash budgetFingerprint : String}
    {fingerprints : List ArtifactFingerprint}
    (fits : IdentityFits manifestHash budgetFingerprint fingerprints)
    {manifestHash' budgetFingerprint' : String} {others : List ArtifactFingerprint}
    (fits' : IdentityFits manifestHash' budgetFingerprint' others)
    (same : snapshotIdentity lib manifestHash budgetFingerprint fingerprints =
      snapshotIdentity lib manifestHash' budgetFingerprint' others) :
    manifestHash = manifestHash' ∧ budgetFingerprint = budgetFingerprint' ∧
      fingerprints.map identityOf = others.map identityOf := by
  have texts := congrArg String.toList same
  rw [snapshotIdentity, snapshotIdentity, String.toList_append, String.toList_append] at texts
  have input := collisionFree (hexInjective (String.toList_inj.1 (List.append_cancel_left texts)))
  obtain ⟨fields, rest⟩ := @updateFields_inj (identityHeader manifestHash budgetFingerprint)
    (identityHeader manifestHash' budgetFingerprint') rfl fits.header fits'.header _ _ input
  simp only [identityHeader, List.cons.injEq, true_and, and_true] at fields
  exact ⟨Store.utf8_injective fields.2, Store.utf8_injective fields.1,
    fingerprintInputs_inj fits.fingerprints fits'.fingerprints rest⟩

theorem snapshotIdentity_eq_iff (collisionFree : Function.Injective lib.hash)
    (hexInjective : Function.Injective lib.toHex) {manifestHash budgetFingerprint : String}
    {fingerprints : List ArtifactFingerprint}
    (fits : IdentityFits manifestHash budgetFingerprint fingerprints)
    {manifestHash' budgetFingerprint' : String} {others : List ArtifactFingerprint}
    (fits' : IdentityFits manifestHash' budgetFingerprint' others) :
    snapshotIdentity lib manifestHash budgetFingerprint fingerprints =
        snapshotIdentity lib manifestHash' budgetFingerprint' others ↔
      manifestHash = manifestHash' ∧ budgetFingerprint = budgetFingerprint' ∧
        fingerprints.map identityOf = others.map identityOf := by
  constructor
  · exact snapshotIdentity_inj collisionFree hexInjective fits fits'
  · rintro ⟨rfl, rfl, same⟩
    exact snapshotIdentity_congr same

/-- `main.rs` of a checkout, shown in one of several ways. -/
def framed (repoId checkoutId display : String) : ArtifactFingerprint where
  repoId := repoId
  checkoutId := checkoutId
  path := ⟨.unixBytes, utf8 "main.rs", display⟩
  extractor := "code-system-graph.source"
  contentHash := "h"
  sizeBytes := 1

def framedPair (display : String) : List ArtifactFingerprint :=
  [framed "r" "xc" display, framed "r" "c" display]

/-- Text moved from the budget to the manifest, text moved between two fields of a fingerprint, and
the fingerprints in the other order. -/
def shiftedInputs : List (String × String × List ArtifactFingerprint) :=
  [("xm", "b", framedPair "a"), ("m", "bx", [framed "rx" "c" "a", framed "r" "c" "a"]),
    ("m", "bx", (framedPair "a").reverse)]

theorem snapshotIdentity_eq_iff_shifted :
    snapshotIdentity Store.plainLibraries "m" "bx" (framedPair "a") =
      snapshotIdentity Store.plainLibraries "m" "bx" (framedPair "b") ∧
    ∀ other ∈ shiftedInputs, snapshotIdentity Store.plainLibraries "m" "bx" (framedPair "a") ≠
      snapshotIdentity Store.plainLibraries other.1 other.2.1 other.2.2 := by
  have fits : IdentityFits "m" "bx" (framedPair "a") := by decide
  have fits' : ∀ other ∈ shiftedInputs, IdentityFits other.1 other.2.1 other.2.2 := by decide
  have differ : ∀ other ∈ shiftedInputs, ¬("m" = other.1 ∧ "bx" = other.2.1 ∧
      (framedPair "a").map identityOf = other.2.2.map identityOf) := by decide
  constructor
  · have shown : IdentityFits "m" "bx" (framedPair "b") := by decide
    exact (snapshotIdentity_eq_iff Function.injective_id Store.hexText_injective fits shown).2
      ⟨rfl, rfl, rfl⟩
  · intro other mem same
    exact differ other mem ((snapshotIdentity_eq_iff Function.injective_id Store.hexText_injective
      fits (fits' other mem)).1 same)

end Identity

end CodeSystemGraph.Incremental
