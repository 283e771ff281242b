import CodeSystemGraph.AgentMarkdown

/-!
What stands in a Markdown resource that had to fit: whole blocks and items in their
order, with counts of what was emitted. The bound holds of every document, and of a
schema catalog when its heading and a preamble that retains nothing fit.
-/

namespace CodeSystemGraph.AgentMarkdown

open PullRequests (Value JsonNumber)

section Sizes

variable {available : ℕ} {output block : String}

theorem addFitting_of_fits (fits : output.utf8ByteSize + block.utf8ByteSize ≤ available) :
    addFitting available output block = output ++ block := if_pos fits

theorem addFitting_of_exceeds (exceeds : ¬ output.utf8ByteSize + block.utf8ByteSize ≤ available) :
    addFitting available output block = output := if_neg exceeds

theorem size_addFitting (available : ℕ) (output block : String) :
    (addFitting available output block).utf8ByteSize ≤ max output.utf8ByteSize available := by
  by_cases fits : output.utf8ByteSize + block.utf8ByteSize ≤ available
  · rw [addFitting_of_fits fits, String.utf8ByteSize_append]
    omega
  · rw [addFitting_of_exceeds fits]
    omega

theorem addFitting_eq (available : ℕ) (output block : String) :
    ∃ added, (added = "" ∨ added = block) ∧ addFitting available output block = output ++ added := by
  by_cases fits : output.utf8ByteSize + block.utf8ByteSize ≤ available
  · exact ⟨block, Or.inr rfl, addFitting_of_fits fits⟩
  · refine ⟨"", Or.inl rfl, ?_⟩
    rw [addFitting_of_exceeds fits, String.append_empty]

theorem size_foldl_addFitting (available : ℕ) (blocks : List String) : ∀ output : String,
    (blocks.foldl (addFitting available) output).utf8ByteSize ≤ max output.utf8ByteSize available := by
  induction blocks with
  | nil => exact fun output => le_max_left _ _
  | cons block blocks ih =>
    intro output
    have step := size_addFitting available output block
    have later := ih (addFitting available output block)
    rw [List.foldl_cons]
    omega

theorem foldl_addFitting (available : ℕ) (blocks : List String) : ∀ output : String,
    ∃ kept, kept.Sublist blocks ∧
      blocks.foldl (addFitting available) output = output ++ String.join kept := by
  induction blocks with
  | nil =>
    intro output
    refine ⟨[], List.Sublist.refl _, ?_⟩
    rw [List.foldl_nil, String.join_nil, String.append_empty]
  | cons block blocks ih =>
    intro output
    obtain ⟨kept, part, same⟩ := ih (addFitting available output block)
    rw [List.foldl_cons, same]
    by_cases fits : output.utf8ByteSize + block.utf8ByteSize ≤ available
    · refine ⟨block :: kept, part.cons_cons block, ?_⟩
      rw [addFitting_of_fits fits, String.join_cons, String.append_assoc]
    · refine ⟨kept, part.cons block, ?_⟩
      rw [addFitting_of_exceeds fits]

end Sizes

section Documents

/-- What may be emitted of a block: nothing, all of it, or a prefix of a collection that says how
long it is and, when items are missing, that it is truncated. -/
inductive Emits : DocumentBlock → String → Prop
  | nothing {block : DocumentBlock} : Emits block ""
  | control {value : String} : Emits (.control value) value
  | atomic {value : String} : Emits (.atomic value) value
  | collection {heading : String} {total : ℕ} {sourceTruncated : Bool} {items : List String}
    {retained : ℕ} {truncated : Bool} (inside : retained ≤ items.length)
    (honest : retained < total → truncated = true) :
    Emits (.collection heading total sourceTruncated items)
      (collectionBlock heading total retained truncated (items.take retained))

/-- A collection has at most its total of items, and says so when some are missing. -/
def Counted : DocumentBlock → Prop
  | .control _ => True
  | .atomic _ => True
  | .collection _ total sourceTruncated items =>
    items.length ≤ total ∧ (items.length < total → sourceTruncated = true)

structure BoundedDocument (document : MarkdownDocument) (maximum : ℕ) (output : String) : Prop where
  bound : output.utf8ByteSize ≤ maximum
  whole : document.intoComplete.utf8ByteSize ≤ maximum → output = document.intoComplete
  parts : ∃ opening pieces closing, (opening = "" ∨ opening = document.compact) ∧
    List.Forall₂ Emits document.blocks pieces ∧ (closing = "" ∨ closing = truncationNotice) ∧
      output = opening ++ String.join pieces ++ closing

variable {name : String} {total : ℕ} {sourceTruncated : Bool} {maximum : ℕ}

theorem collectionBlock_append (retained : ℕ) (truncated : Bool) (items : List String) :
    collectionBlock name total retained truncated [] ++ String.join items =
      collectionBlock name total retained truncated items := by
  rw [collectionBlock, collectionBlock, String.join_nil, String.append_empty]

theorem fitItems_spec (items : List String) : ∀ retained bytes,
    ∃ count ≤ items.length, fitItems name total sourceTruncated maximum retained bytes items =
      (retained + count, bytes + (String.join (items.take count)).utf8ByteSize) := by
  induction items with
  | nil => exact fun retained bytes => ⟨0, Nat.le_refl 0, by simp [fitItems]⟩
  | cons item items ih =>
    intro retained bytes
    unfold fitItems
    dsimp only
    split_ifs with exceeds
    · exact ⟨0, Nat.zero_le _, by simp⟩
    · obtain ⟨count, inside, same⟩ := ih (retained + 1) (bytes + item.utf8ByteSize)
      refine ⟨count + 1, Nat.succ_le_succ inside, ?_⟩
      rw [same, List.take_succ_cons, String.join_cons, String.utf8ByteSize_append]
      simp only [Prod.mk.injEq]
      omega

theorem boundedCollectionBlock_spec {items : List String} {value : String}
    (found : boundedCollectionBlock name total sourceTruncated maximum items = some value) :
    value.utf8ByteSize ≤ maximum ∧ Emits (.collection name total sourceTruncated items) value := by
  obtain ⟨count, inside, same⟩ := @fitItems_spec name total sourceTruncated maximum items 0 0
  rw [boundedCollectionBlock, same] at found
  simp only [Nat.zero_add] at found
  split_ifs at found with exceeds
  cases found
  constructor
  · rw [String.utf8ByteSize_append]
    omega
  · rw [collectionBlock_append]
    apply Emits.collection inside
    intro fewer
    rw [decide_eq_true fewer, Bool.or_true]

theorem addBlock_spec (available : ℕ) (output : String) (block : DocumentBlock) :
    ∃ piece, Emits block piece ∧ addBlock available output block = output ++ piece ∧
      (output.utf8ByteSize ≤ available → (output ++ piece).utf8ByteSize ≤ available) := by
  cases block with
  | control value => exact ⟨"", Emits.nothing, by simp [addBlock], by simp⟩
  | atomic value =>
    have bound := size_addFitting available output value
    obtain ⟨added, which, same⟩ := addFitting_eq available output value
    rw [same] at bound
    refine ⟨added, ?_, same, by omega⟩
    rcases which with rfl | rfl
    · exact Emits.nothing
    · exact Emits.atomic
  | collection heading total sourceTruncated items =>
    cases found : boundedCollectionBlock heading total sourceTruncated
        (available - output.utf8ByteSize) items with
    | none => exact ⟨"", Emits.nothing, by simp [addBlock, found], by simp⟩
    | some value =>
      obtain ⟨bound, emitted⟩ := boundedCollectionBlock_spec found
      refine ⟨value, emitted, by rw [addBlock, found], fun inside => ?_⟩
      rw [String.utf8ByteSize_append]
      omega

theorem foldl_addBlock (available : ℕ) (blocks : List DocumentBlock) : ∀ output : String,
    output.utf8ByteSize ≤ available → ∃ pieces, List.Forall₂ Emits blocks pieces ∧
      blocks.foldl (addBlock available) output = output ++ String.join pieces ∧
        (output ++ String.join pieces).utf8ByteSize ≤ available := by
  induction blocks with
  | nil =>
    intro output inside
    refine ⟨[], List.Forall₂.nil, ?_, ?_⟩
    · rw [List.foldl_nil, String.join_nil, String.append_empty]
    · rw [String.join_nil, String.append_empty]
      exact inside
  | cons block blocks ih =>
    intro output inside
    obtain ⟨piece, emitted, same, kept⟩ := addBlock_spec available output block
    obtain ⟨pieces, others, final, bound⟩ := ih (output ++ piece) (kept inside)
    refine ⟨piece :: pieces, List.Forall₂.cons emitted others, ?_, ?_⟩
    · rw [List.foldl_cons, same, final, String.join_cons, String.append_assoc]
    · rw [String.join_cons, ← String.append_assoc]
      exact bound

theorem emits_complete {block : DocumentBlock} (counted : Counted block) :
    Emits block block.complete := by
  cases block with
  | control value => exact Emits.control
  | atomic value => exact Emits.atomic
  | collection heading total sourceTruncated items =>
    have emitted : Emits (.collection heading total sourceTruncated items)
        (collectionBlock heading total items.length sourceTruncated (items.take items.length)) :=
      Emits.collection (Nat.le_refl _) counted.2
    rw [List.take_length] at emitted
    exact emitted

theorem emits_blocks {blocks : List DocumentBlock} (counted : ∀ block ∈ blocks, Counted block) :
    List.Forall₂ Emits blocks (blocks.map DocumentBlock.complete) := by
  induction blocks with
  | nil => exact List.Forall₂.nil
  | cons block blocks ih =>
    exact List.Forall₂.cons (emits_complete (counted block (List.mem_cons_self ..)))
      (ih fun other mem => counted other (List.mem_cons_of_mem _ mem))

theorem render_bounded {document : MarkdownDocument} (counted : ∀ block ∈ document.blocks, Counted block)
    (maximum : ℕ) : BoundedDocument document maximum (document.render maximum) := by
  unfold MarkdownDocument.render fitDocument
  dsimp only
  split_ifs with fits compactFits
  · refine ⟨fits, fun _ => rfl, "", _, "", Or.inl rfl, emits_blocks counted, Or.inl rfl, ?_⟩
    simp
  · obtain ⟨pieces, emitted, same, bound⟩ :=
      foldl_addBlock _ document.blocks document.compact compactFits
    obtain ⟨closing, which, final⟩ :=
      addFitting_eq maximum (document.compact ++ String.join pieces) truncationNotice
    have size := size_addFitting maximum (document.compact ++ String.join pieces) truncationNotice
    rw [same]
    refine ⟨by omega, fun whole => absurd whole fits, document.compact, pieces, closing, Or.inr rfl,
      emitted, which, final⟩
  · obtain ⟨pieces, emitted, same, bound⟩ :=
      foldl_addBlock (maximum - truncationNotice.utf8ByteSize) document.blocks "" (Nat.zero_le _)
    obtain ⟨closing, which, final⟩ :=
      addFitting_eq maximum ("" ++ String.join pieces) truncationNotice
    have size := size_addFitting maximum ("" ++ String.join pieces) truncationNotice
    rw [same]
    refine ⟨by omega, fun whole => absurd whole fits, "", pieces, closing, Or.inl rfl, emitted, which,
      final⟩

end Documents

section Catalogs

variable (pretty : Value → String) (displayNumber : JsonNumber → String)

def catalogComplete (value : Value) : String :=
  match nestedCatalog value with
  | some (object, schemas) =>
    catalogHeader ++ (catalogFacts displayNumber object schemas).preamble schemas.length ++
      String.join (schemaBlocks pretty schemas) ++ String.join (optionalBlocks pretty object)
  | none => String.join (flatBlocks pretty value)

/-- Whole blocks in their order; a nested catalog counts the schemas that it keeps, and says that it
is truncated when some are missing. -/
def CatalogParts (value : Value) (output : String) : Prop :=
  match nestedCatalog value with
  | some (object, schemas) =>
    let facts := catalogFacts displayNumber object schemas
    ∃ kept others closing truncated, kept.Sublist (schemaBlocks pretty schemas) ∧
      others.Sublist (optionalBlocks pretty object) ∧ (closing = "" ∨ closing = truncationNotice) ∧
      (kept.length < facts.total → truncated = true) ∧
      output = catalogHeader ++
        schemaCatalogPreamble facts.version facts.mediaType facts.total kept.length truncated ++
          String.join kept ++ String.join others ++ closing
  | none => ∃ kept closing, kept.Sublist (flatBlocks pretty value) ∧
      (closing = "" ∨ closing = truncationNotice) ∧ output = String.join kept ++ closing

structure BoundedCatalog (value : Value) (maximum : ℕ) (output : String) : Prop where
  bound : output.utf8ByteSize ≤ maximum
  whole : (catalogComplete pretty displayNumber value).utf8ByteSize ≤ maximum →
    output = catalogComplete pretty displayNumber value
  parts : CatalogParts pretty displayNumber value output

/-- The heading of a nested catalog and its preamble for no schema fit. -/
def CatalogFits (value : Value) (maximum : ℕ) : Prop :=
  ∀ object schemas, nestedCatalog value = some (object, schemas) →
    catalogHeader.utf8ByteSize +
      ((catalogFacts displayNumber object schemas).preamble 0).utf8ByteSize ≤ maximum

theorem size_repr_pos (n : ℕ) : 1 ≤ n.repr.utf8ByteSize := by
  rw [Nat.one_le_iff_ne_zero, Ne, String.utf8ByteSize_eq_zero_iff]
  intro empty
  have digits := Nat.toList_repr (n := n)
  rw [empty] at digits
  exact Nat.toDigits_ne_nil digits.symm

theorem preamble_zero (facts : CatalogFacts) {retained : ℕ} (some : retained = 0 ∨ 0 < facts.total) :
    (facts.preamble 0).utf8ByteSize ≤ (facts.preamble retained).utf8ByteSize := by
  rcases some with rfl | positive
  · exact Nat.le_refl _
  · have digits := size_repr_pos retained
    have zero : (0 : ℕ).repr.utf8ByteSize = 1 := rfl
    have flag : ∀ value, (boolText true).utf8ByteSize ≤ (boolText value).utf8ByteSize := by decide
    have flags := flag (facts.sourceTruncated || decide (retained < facts.total))
    unfold CatalogFacts.preamble schemaCatalogPreamble
    rw [decide_eq_true positive, Bool.or_true]
    simp only [String.utf8ByteSize_append, zero]
    omega

theorem length_le_total (object schemas : List (String × Value)) :
    schemas.length ≤ (catalogFacts displayNumber object schemas).total := le_max_right _ _

theorem foldl_keepSchemas (facts : CatalogFacts) (available : ℕ) (blocks : List String) :
    ∀ kept : List String, ∃ more, more.Sublist blocks ∧
      blocks.foldl (keepSchemas facts available) kept = kept ++ more ∧
        (more ≠ [] → catalogHeader.utf8ByteSize + (facts.preamble (kept ++ more).length).utf8ByteSize +
          (String.join (kept ++ more)).utf8ByteSize ≤ available) := by
  induction blocks with
  | nil => exact fun kept => ⟨[], List.Sublist.refl _, (List.append_nil _).symm, fun none => absurd rfl none⟩
  | cons block blocks ih =>
    intro kept
    obtain ⟨more, part, same, fits⟩ := ih (keepSchemas facts available kept block)
    rw [List.foldl_cons, same]
    unfold keepSchemas at fits ⊢
    dsimp only at fits ⊢
    split_ifs at fits ⊢ with inside
    · refine ⟨block :: more, part.cons_cons block, by simp, fun _ => ?_⟩
      cases more with
      | nil =>
        rw [String.join_append, String.utf8ByteSize_append, String.join_cons, String.join_nil,
          String.append_empty, List.length_append, List.length_singleton]
        omega
      | cons next more =>
        have later := fits (List.cons_ne_nil _ _)
        rw [List.append_assoc] at later
        exact later
    · exact ⟨more, part.cons block, rfl, fits⟩

variable {pretty displayNumber}

theorem fitAtomicBlocks_bounded (blocks : List String) (maximum : ℕ) :
    (fitAtomicBlocks blocks maximum).utf8ByteSize ≤ maximum ∧
      ((String.join blocks).utf8ByteSize ≤ maximum → fitAtomicBlocks blocks maximum = String.join blocks) ∧
      ∃ kept closing, kept.Sublist blocks ∧ (closing = "" ∨ closing = truncationNotice) ∧
        fitAtomicBlocks blocks maximum = String.join kept ++ closing := by
  unfold fitAtomicBlocks
  dsimp only
  split_ifs with fits
  · refine ⟨fits, fun _ => rfl, blocks, "", List.Sublist.refl _, Or.inl rfl, ?_⟩
    rw [String.append_empty]
  · obtain ⟨kept, part, same⟩ :=
      foldl_addFitting (maximum - truncationNotice.utf8ByteSize) blocks ""
    have inside := size_foldl_addFitting (maximum - truncationNotice.utf8ByteSize) blocks ""
    obtain ⟨closing, which, final⟩ := addFitting_eq maximum ("" ++ String.join kept) truncationNotice
    have size := size_addFitting maximum ("" ++ String.join kept) truncationNotice
    have empty : ("" : String).utf8ByteSize = 0 := rfl
    rw [same] at inside ⊢
    refine ⟨by omega, fun whole => absurd whole fits, kept, closing, part, which, ?_⟩
    rw [final, String.empty_append]

theorem nested_exceeds (object schemas : List (String × Value)) {maximum : ℕ}
    (exceeds : ¬ (catalogHeader ++ (catalogFacts displayNumber object schemas).preamble schemas.length ++
      String.join (schemaBlocks pretty schemas) ++
        String.join (optionalBlocks pretty object)).utf8ByteSize ≤ maximum) :
    ∃ kept others closing, kept.Sublist (schemaBlocks pretty schemas) ∧
      others.Sublist (optionalBlocks pretty object) ∧ (closing = "" ∨ closing = truncationNotice) ∧
      let base := catalogHeader ++ (catalogFacts displayNumber object schemas).preamble kept.length ++
        String.join kept
      renderNestedSchemaCatalog pretty displayNumber object schemas maximum =
          base ++ String.join others ++ closing ∧
        (kept ≠ [] → base.utf8ByteSize ≤ maximum) ∧
        (base ++ String.join others ++ closing).utf8ByteSize ≤ max base.utf8ByteSize maximum := by
  obtain ⟨kept, part, same, inside⟩ := foldl_keepSchemas (catalogFacts displayNumber object schemas)
    (maximum - truncationNotice.utf8ByteSize) (schemaBlocks pretty schemas) []
  rw [List.nil_append] at same inside
  generalize start : catalogHeader ++ (catalogFacts displayNumber object schemas).preamble kept.length ++
    String.join kept = base
  obtain ⟨others, optional, final⟩ := foldl_addFitting (maximum - truncationNotice.utf8ByteSize)
    (optionalBlocks pretty object) base
  have size := size_foldl_addFitting (maximum - truncationNotice.utf8ByteSize)
    (optionalBlocks pretty object) base
  obtain ⟨closing, which, ended⟩ := addFitting_eq maximum (base ++ String.join others) truncationNotice
  have last := size_addFitting maximum (base ++ String.join others) truncationNotice
  rw [final] at size
  rw [ended] at last
  refine ⟨kept, others, closing, part, optional, which, ?_⟩
  dsimp only
  rw [start]
  refine ⟨?_, fun some => ?_, by omega⟩
  · unfold renderNestedSchemaCatalog
    dsimp only
    rw [if_neg exceeds, same, start, final, ended]
  · have fits := inside some
    rw [← start, String.utf8ByteSize_append, String.utf8ByteSize_append]
    omega

theorem nested_whole (object schemas : List (String × Value)) {maximum : ℕ}
    (fits : (catalogHeader ++ (catalogFacts displayNumber object schemas).preamble schemas.length ++
      String.join (schemaBlocks pretty schemas) ++
        String.join (optionalBlocks pretty object)).utf8ByteSize ≤ maximum) :
    renderNestedSchemaCatalog pretty displayNumber object schemas maximum = catalogHeader ++
      (catalogFacts displayNumber object schemas).preamble schemas.length ++
        String.join (schemaBlocks pretty schemas) ++ String.join (optionalBlocks pretty object) :=
  if_pos fits

theorem preamble_eq (facts : CatalogFacts) (retained : ℕ) : ∃ truncated,
    (retained < facts.total → truncated = true) ∧ facts.preamble retained =
      schemaCatalogPreamble facts.version facts.mediaType facts.total retained truncated := by
  refine ⟨facts.sourceTruncated || decide (retained < facts.total), fun fewer => ?_, rfl⟩
  rw [decide_eq_true fewer, Bool.or_true]

theorem nested_parts (object schemas : List (String × Value)) (maximum : ℕ) :
    let facts := catalogFacts displayNumber object schemas
    ∃ kept others closing truncated, kept.Sublist (schemaBlocks pretty schemas) ∧
      others.Sublist (optionalBlocks pretty object) ∧ (closing = "" ∨ closing = truncationNotice) ∧
      (kept.length < facts.total → truncated = true) ∧
      renderNestedSchemaCatalog pretty displayNumber object schemas maximum = catalogHeader ++
        schemaCatalogPreamble facts.version facts.mediaType facts.total kept.length truncated ++
          String.join kept ++ String.join others ++ closing := by
  intro facts
  by_cases fits : (catalogHeader ++ facts.preamble schemas.length ++
      String.join (schemaBlocks pretty schemas) ++
        String.join (optionalBlocks pretty object)).utf8ByteSize ≤ maximum
  · obtain ⟨truncated, honest, same⟩ := preamble_eq facts schemas.length
    have count : (schemaBlocks pretty schemas).length = schemas.length := List.length_map ..
    refine ⟨schemaBlocks pretty schemas, optionalBlocks pretty object, "", truncated,
      List.Sublist.refl _, List.Sublist.refl _, Or.inl rfl, ?_, ?_⟩
    · rw [count]
      exact honest
    · rw [nested_whole object schemas fits, count, ← same, String.append_empty]
  · obtain ⟨kept, others, closing, part, optional, which, same, -⟩ := nested_exceeds object schemas fits
    obtain ⟨truncated, honest, stated⟩ := preamble_eq facts kept.length
    refine ⟨kept, others, closing, truncated, part, optional, which, honest, ?_⟩
    rw [same, ← stated]

theorem nested_bound (object schemas : List (String × Value)) (maximum : ℕ) :
    (renderNestedSchemaCatalog pretty displayNumber object schemas maximum).utf8ByteSize ≤ maximum ↔
      catalogHeader.utf8ByteSize +
        ((catalogFacts displayNumber object schemas).preamble 0).utf8ByteSize ≤ maximum := by
  have total := length_le_total displayNumber object schemas
  by_cases fits : (catalogHeader ++ (catalogFacts displayNumber object schemas).preamble schemas.length ++
      String.join (schemaBlocks pretty schemas) ++
        String.join (optionalBlocks pretty object)).utf8ByteSize ≤ maximum
  · rw [nested_whole object schemas fits]
    have least := preamble_zero (catalogFacts displayNumber object schemas)
      (show schemas.length = 0 ∨ _ by omega)
    simp only [fits, true_iff]
    simp only [String.utf8ByteSize_append] at fits
    omega
  · obtain ⟨kept, others, closing, part, -, -, same, inside, size⟩ := nested_exceeds object schemas fits
    have fewer : kept.length ≤ schemas.length := by
      have count := part.length_le
      rw [schemaBlocks, List.length_map] at count
      exact count
    have least := preamble_zero (catalogFacts displayNumber object schemas)
      (show kept.length = 0 ∨ _ by omega)
    rw [same]
    constructor
    · intro bound
      simp only [String.utf8ByteSize_append] at bound
      omega
    · intro starts
      cases kept with
      | nil =>
        have alone : (catalogHeader ++ (catalogFacts displayNumber object schemas).preamble 0 ++
            String.join []).utf8ByteSize ≤ maximum := by
          rw [String.join_nil, String.append_empty, String.utf8ByteSize_append]
          exact starts
        rw [List.length_nil] at size ⊢
        omega
      | cons block kept =>
        have within := inside (List.cons_ne_nil _ _)
        omega

theorem renderSchemaCatalog_bounded (value : Value) (maximum : ℕ) :
    BoundedCatalog pretty displayNumber value maximum
        (renderSchemaCatalog pretty displayNumber value maximum) ↔
      CatalogFits displayNumber value maximum := by
  constructor
  · intro bounded object schemas nested
    have bound := bounded.bound
    rw [renderSchemaCatalog, nested] at bound
    exact (nested_bound object schemas maximum).1 bound
  · intro fits
    cases nested : nestedCatalog value with
    | none =>
      obtain ⟨bound, whole, parts⟩ := fitAtomicBlocks_bounded (flatBlocks pretty value) maximum
      constructor
      · rw [renderSchemaCatalog, nested]
        exact bound
      · rw [renderSchemaCatalog, catalogComplete, nested]
        exact whole
      · rw [renderSchemaCatalog, CatalogParts, nested]
        exact parts
    | some found =>
      obtain ⟨object, schemas⟩ := found
      constructor
      · rw [renderSchemaCatalog, nested]
        exact (nested_bound object schemas maximum).2 (fits object schemas nested)
      · rw [renderSchemaCatalog, catalogComplete, nested]
        exact nested_whole object schemas
      · rw [renderSchemaCatalog, CatalogParts, nested]
        exact nested_parts object schemas maximum

/-- Every document is bounded, and a catalog exactly when its heading and an empty preamble fit. -/
theorem render_bounded_iff {document : MarkdownDocument}
    (counted : ∀ block ∈ document.blocks, Counted block) (value : Value) (maximum : ℕ) :
    BoundedDocument document maximum (document.render maximum) ∧
        BoundedCatalog pretty displayNumber value maximum
          (renderSchemaCatalog pretty displayNumber value maximum) ↔
      CatalogFits displayNumber value maximum := by
  rw [renderSchemaCatalog_bounded]
  exact and_iff_right (render_bounded counted maximum)

def sampleDocument : MarkdownDocument :=
  ⟨[.control "# A\n", .collection "Items" 3 true ["\n- a\n", "\n- b\n"]], "# A\n"⟩

def sampleSchemas : List (String × Value) :=
  ["Order", "Invoice", "Refund", "Shipment", "Customer", "Address", "Price"].map (·, .null)

/-- A nested catalog with a field of its own, longer than the bytes it is given below. -/
def sampleCatalog : Value := .object [("schemas", .object sampleSchemas), ("note", .null)]

theorem render_bounded_iff_sample :
    BoundedDocument sampleDocument 300 (sampleDocument.render 300) ∧
      BoundedCatalog (fun _ => "null") (fun _ => "") sampleCatalog 300
        (renderSchemaCatalog (fun _ => "null") (fun _ => "") sampleCatalog 300) ∧
      ¬ (catalogComplete (fun _ => "null") (fun _ => "") sampleCatalog).utf8ByteSize ≤ 300 := by
  have counted : ∀ block ∈ sampleDocument.blocks, Counted block := by
    intro block mem
    rcases List.mem_cons.1 mem with rfl | later
    · exact trivial
    · rw [List.mem_singleton.1 later]
      exact ⟨by decide, fun _ => rfl⟩
  have fits : CatalogFits (fun _ => "") sampleCatalog 300 := by
    intro object schemas nested
    cases nested
    decide +kernel
  have bounded := (@render_bounded_iff (fun _ => "null") (fun _ => "") sampleDocument counted
    sampleCatalog 300).2 fits
  exact ⟨bounded.1, bounded.2, by decide +kernel⟩

theorem renderSchemaCatalog_exceeds :
    ¬ BoundedCatalog (fun _ => "") (fun _ => "") (.object [("schemas", .object [])]) 64
      (renderSchemaCatalog (fun _ => "") (fun _ => "") (.object [("schemas", .object [])]) 64) := by
  intro bounded
  have bound := bounded.bound
  revert bound
  decide +kernel

end Catalogs

end CodeSystemGraph.AgentMarkdown
