import CodeSystemGraph.DocumentSecrets

/-!
What CODEOWNERS files and service catalogs retain, and when the three extractors retain
no secret assignment.
-/

namespace CodeSystemGraph.Documents

open Text Ordered
open PullRequests (Value)

section Codeowners

/-- The pattern of a line that becomes a rule. -/
def rulePattern (line : List Char) : Option String :=
  match lineTokens line with
  | some (pattern :: listed) =>
    if validCodeownersPattern pattern ∧ listed.any validOwner then some pattern else none
  | _ => none

def codeownersPatterns (input : String) : List String :=
  ((textLines input.toList).filterMap rulePattern).take maxItems

theorem ruleOwners_eq (listed : List String) (state : ExtractionState) :
    (ruleOwners listed state).1 = (listed.filter validOwner).eraseDups.take maxItems := by
  induction listed using List.reverseRecOn with
  | nil => rfl
  | append_singleton listed owner ih =>
    unfold ruleOwners at ih ⊢
    rw [List.foldl_append, List.foldl_cons, List.foldl_nil, List.filter_append]
    generalize listed.foldl _ ([], state) = collected at ih ⊢
    by_cases valid : validOwner owner = true
    · have one : [owner].filter validOwner = [owner] := List.filter_cons_of_pos valid
      rw [if_pos valid, one, ← pushUnique_dups _ owner collected.2, ← ih]
    · have none : [owner].filter validOwner = [] := List.filter_cons_of_neg valid
      rw [if_neg valid, none, List.append_nil, ← ih]

theorem validOwner_of_ruleOwners {listed : List String} {state : ExtractionState} {owner : String}
    (mem : owner ∈ (ruleOwners listed state).1) : owner ∈ listed ∧ validOwner owner = true := by
  rw [ruleOwners_eq] at mem
  exact List.mem_filter.1 (List.mem_eraseDups.1 (List.mem_of_mem_take mem))

theorem ruleOwners_isEmpty (listed : List String) (state : ExtractionState) :
    (ruleOwners listed state).1.isEmpty = !listed.any validOwner := by
  by_cases some : listed.any validOwner = true
  · obtain ⟨owner, mem, valid⟩ := List.any_eq_true.1 some
    have kept : owner ∈ (listed.filter validOwner).eraseDups :=
      List.mem_eraseDups.2 (List.mem_filter.2 ⟨mem, valid⟩)
    have full : (ruleOwners listed state).1 ≠ [] := by
      rw [ruleOwners_eq, ne_eq, List.take_eq_nil_iff, not_or]
      exact ⟨by decide, List.ne_nil_of_mem kept⟩
    rw [some, Bool.not_true]
    exact List.isEmpty_eq_false_iff.2 full
  · have none : (ruleOwners listed state).1 = [] := by
      rw [List.eq_nil_iff_forall_not_mem]
      intro owner mem
      obtain ⟨listed, valid⟩ := validOwner_of_ruleOwners mem
      exact some (List.any_eq_true.2 ⟨owner, listed, valid⟩)
    rw [none, Bool.eq_false_iff.2 some]
    rfl

/-- Every owner of a file is a valid one. -/
structure Codeowners.Owned (file : Codeowners) : Prop where
  rules : ∀ rule ∈ file.rules, ∀ owner ∈ rule.owners, validOwner owner = true
  owners : ∀ owner ∈ file.owners, validOwner owner = true
  references : ∀ reference ∈ file.references, validOwner reference.target = true

theorem recordOwner_owned (line : ℕ) {file : Codeowners} {owner : String} (owned : file.Owned)
    (valid : validOwner owner = true) :
    (recordOwner line file owner).Owned ∧ (recordOwner line file owner).rules = file.rules := by
  refine ⟨⟨owned.rules, fun value mem => ?_, fun reference mem => ?_⟩, rfl⟩
  · simp only [recordOwner, pushUniqueBounded] at mem
    split_ifs at mem
    · exact owned.owners value mem
    · exact owned.owners value mem
    · rcases List.mem_append.1 mem with old | new
      · exact owned.owners value old
      · exact List.mem_singleton.1 new ▸ valid
  · simp only [recordOwner, pushReference] at mem
    split_ifs at mem
    · exact owned.references reference mem
    · rcases List.mem_append.1 mem with old | new
      · exact owned.references reference old
      · exact List.mem_singleton.1 new ▸ valid

theorem foldl_recordOwner (line : ℕ) {owners : List String} : ∀ {file : Codeowners}, file.Owned →
    (∀ owner ∈ owners, validOwner owner = true) →
      (owners.foldl (recordOwner line) file).Owned ∧
        (owners.foldl (recordOwner line) file).rules = file.rules := by
  induction owners with
  | nil => exact fun owned _ => ⟨owned, rfl⟩
  | cons owner owners ih =>
    intro file owned valid
    obtain ⟨first, rest⟩ := List.forall_mem_cons.1 valid
    obtain ⟨recorded, rules⟩ := recordOwner_owned line owned first
    obtain ⟨later, same⟩ := ih recorded rest
    exact ⟨later, same.trans rules⟩

theorem codeownersLine_spec (index : ℕ) (line : List Char) {file : Codeowners} (owned : file.Owned) :
    (codeownersLine index line file).Owned ∧
      (codeownersLine index line file).rules.map OwnershipRule.pattern =
        file.rules.map OwnershipRule.pattern ++ (rulePattern line).toList := by
  unfold codeownersLine codeownersTokens rulePattern
  have skip : ∀ state, ({ file with state } : Codeowners).Owned ∧
      ({ file with state } : Codeowners).rules.map OwnershipRule.pattern =
        file.rules.map OwnershipRule.pattern ++ [] := by
    intro state
    exact ⟨⟨owned.rules, owned.owners, owned.references⟩, (List.append_nil _).symm⟩
  cases lineTokens line with
  | none => exact skip _
  | some tokens =>
    cases tokens with
    | nil => exact skip _
    | cons pattern listed =>
      cases listed with
      | nil => simpa using skip file.state
      | cons owner listed =>
        dsimp only
        rw [if_pos (by simp)]
        dsimp only
        rw [ruleOwners_isEmpty]
        by_cases accepted : validCodeownersPattern pattern = true
        · by_cases some : (owner :: listed).any validOwner = true
          · rw [if_neg (by simp [accepted]), if_neg (by simp [some]), if_pos ⟨accepted, some⟩]
            have start : ({ file with
                state := (ruleOwners (owner :: listed) file.state).2 } : Codeowners).Owned :=
              ⟨owned.rules, owned.owners, owned.references⟩
            obtain ⟨recorded, rules⟩ := foldl_recordOwner (oneBasedLine index) start
              fun value mem => (validOwner_of_ruleOwners mem).2
            refine ⟨⟨fun rule mem => ?_, recorded.owners, recorded.references⟩, ?_⟩
            · rcases List.mem_append.1 mem with old | new
              · exact recorded.rules rule old
              · rw [List.mem_singleton.1 new]
                exact fun value mem => (validOwner_of_ruleOwners mem).2
            · rw [List.map_append, rules]
              rfl
          · rw [if_neg (by simp [accepted]), if_pos (by simpa using some),
              if_neg fun both => some both.2]
            exact skip _
        · rw [if_pos (by simpa using accepted), if_neg fun both => accepted both.1]
          exact skip _

theorem codeownersLines_spec (lines : List (List Char)) : ∀ (index : ℕ) {file : Codeowners}
    {patterns : List String}, file.Owned →
    file.rules.map OwnershipRule.pattern = patterns.take maxItems →
      (codeownersLines index file lines).Owned ∧
        (codeownersLines index file lines).rules.map OwnershipRule.pattern =
          (patterns ++ lines.filterMap rulePattern).take maxItems := by
  induction lines with
  | nil =>
    intro index file patterns owned same
    rw [List.filterMap_nil, List.append_nil]
    exact ⟨owned, same⟩
  | cons line lines ih =>
    intro index file patterns owned same
    have count := congrArg List.length same
    rw [List.length_map, List.length_take] at count
    rw [codeownersLines]
    split_ifs with full
    · refine ⟨⟨owned.rules, owned.owners, owned.references⟩, ?_⟩
      rw [List.take_append_of_le_length (by omega)]
      exact same
    · obtain ⟨next, added⟩ := codeownersLine_spec index line owned
      have whole : patterns.take maxItems = patterns := List.take_of_length_le (by omega)
      have kept : (codeownersLine index line file).rules.map OwnershipRule.pattern =
          (patterns ++ (rulePattern line).toList).take maxItems := by
        have one : (rulePattern line).toList.length ≤ 1 := by
          cases rulePattern line <;> simp
        rw [added, same, whole, List.take_of_length_le]
        rw [List.length_append]
        omega
      obtain ⟨later, rules⟩ := ih (index + 1) next kept
      refine ⟨later, ?_⟩
      rw [rules, List.append_assoc, List.filterMap_cons]
      cases rulePattern line <;> rfl

theorem toAsciiLowercase_eq {c d : Char} (same : toAsciiLowercase c = d) (early : d.toNat < 97) :
    c = d := by
  unfold toAsciiLowercase at same
  split at same
  · next upper =>
    have low : 65 ≤ c.toNat := upper.1
    have high : c.toNat ≤ 90 := upper.2
    have codes : ∀ n < 91, 65 ≤ n → 97 ≤ (Char.ofNat (n + 32)).toNat := by decide
    have late := codes c.toNat (by omega) low
    rw [same] at late
    omega
  · exact same

theorem sign_of_assigns {value : String} (assigned : Assigns value) :
    ':' ∈ value.toList ∨ '=' ∈ value.toList := by
  obtain ⟨marker, -, before, rest, whole, sign⟩ := assigned
  have found : ∃ d ∈ rest, d = ':' ∨ d = '=' := by
    unfold assigns at sign
    split at sign
    · next c tail shape =>
      refine ⟨c, ?_, by simpa using sign⟩
      exact (List.dropWhile_suffix isWhitespace).subset (shape ▸ List.mem_cons_self)
    · cases sign
  obtain ⟨d, mem, which⟩ := found
  have inside : d ∈ lowercase value.toList := by
    rw [whole]
    exact List.mem_append_right _ mem
  obtain ⟨c, listed, same⟩ := List.mem_map.1 inside
  rcases which with rfl | rfl
  · exact Or.inl (toAsciiLowercase_eq same (by decide) ▸ listed)
  · exact Or.inr (toAsciiLowercase_eq same (by decide) ▸ listed)

theorem free_of_validOwner {owner : String} (valid : validOwner owner = true) :
    ':' ∉ owner.toList ∧ '=' ∉ owner.toList := by
  unfold validOwner at valid
  split at valid
  · cases valid
  · split at valid
    · next name begins =>
      rw [stripPrefix_eq_some.1 begins]
      rw [Bool.and_eq_true] at valid
      refine ⟨fun mem => ?_, fun mem => ?_⟩
      · have colon := List.all_eq_true.1 valid.2 ':' (by simpa using mem)
        exact absurd colon (by decide)
      · have equals := List.all_eq_true.1 valid.2 '=' (by simpa using mem)
        exact absurd equals (by decide)
    · split at valid
      · cases valid
      · rw [Bool.and_eq_true] at valid
        refine ⟨fun mem => ?_, fun mem => ?_⟩
        · exact absurd (List.all_eq_true.1 valid.2 ':' mem) (by decide)
        · exact absurd (List.all_eq_true.1 valid.2 '=' mem) (by decide)

theorem not_assigns_of_validOwner {owner : String} (valid : validOwner owner = true) :
    ¬Assigns owner := by
  intro assigned
  cases sign_of_assigns assigned with
  | inl colon => exact (free_of_validOwner valid).1 colon
  | inr equals => exact (free_of_validOwner valid).2 equals

theorem extractCodeowners_spec {sourcePath input : String} {document : DocumentationDocument}
    (accepted : extractCodeowners sourcePath input = .ok document) :
    SecretFree document ↔ ∀ pattern ∈ codeownersPatterns input, ¬Assigns pattern := by
  unfold extractCodeowners at accepted
  split at accepted
  · cases accepted
  · rw [← Except.ok.inj accepted]
    have start : ({} : Codeowners).Owned := ⟨by simp, by simp, by simp⟩
    have none : ({} : Codeowners).rules.map OwnershipRule.pattern = [].take maxItems := rfl
    obtain ⟨owned, rules⟩ := codeownersLines_spec (textLines input.toList) 0 start none
    rw [List.nil_append] at rules
    constructor
    · intro free pattern mem
      apply free
      rw [codeownersPatterns, ← rules] at mem
      obtain ⟨rule, listed, same⟩ := List.mem_map.1 mem
      exact Or.inr ⟨rule, listed, Or.inl same⟩
    · intro free value retained
      unfold Retained at retained
      simp only [List.mem_singleton, exists_eq_left, ne_eq, not_true_eq_false, false_and,
        reduceCtorEq, List.not_mem_nil, false_or] at retained
      rcases retained with (owner | target) | ⟨rule, listed, pattern | owner⟩
      · exact not_assigns_of_validOwner (owned.owners value owner)
      · obtain ⟨reference, listed, rfl⟩ := List.mem_map.1 target
        exact not_assigns_of_validOwner (owned.references reference listed)
      · apply free
        rw [codeownersPatterns, ← rules, ← pattern]
        exact List.mem_map_of_mem listed
      · exact not_assigns_of_validOwner (owned.rules rule listed value owner)

end Codeowners

section Catalogs

structure RecordTexts where
  title : Option String
  status : Option String
  headings : List String
  owners : List String
  targets : List String

def recordTexts (record : DocumentRecord) : RecordTexts where
  title := if record.kind = .codeowners then none else record.title
  status := record.status
  headings := record.headings
  owners := record.owners
  targets := record.references.map ExplicitReference.target

/-- An entry with its sanitized name. -/
def titledEntry (entry : CatalogEntry) : Option (Mapping × String) :=
  ((explicitCatalogName entry.mapping).or entry.fallbackName).bind fun name =>
    ((sanitizeIdentifier name maxDisplayBytes {}).1).map fun title => (entry.mapping, title)

def entryReferences (entry : Mapping × String) : List Tested :=
  (same entry.2 :: (ownerTexts (catalogOwners entry.1)).map same ++
    (catalogLinks entry.1).filterMap linked).take maxItems

def entryTexts (entry : Mapping × String) : RecordTexts where
  title := some entry.2
  status := (catalogStatus entry.1).bind shown
  headings := []
  owners := ownerTexts (catalogOwners entry.1)
  targets := (entryReferences entry).map Tested.retain

theorem pushReferences_targets (kind : ExplicitReferenceKind) (evidence : LineEvidence)
    (added : List String) : ∀ {collected : List ExplicitReference × ExtractionState}
    {targets : List String}, collected.1.map ExplicitReference.target = targets.take maxItems →
      (pushReferences kind evidence added collected).1.map ExplicitReference.target =
        (targets ++ added).take maxItems := by
  induction added with
  | nil =>
    intro collected targets before
    rw [List.append_nil]
    exact before
  | cons target added ih =>
    intro collected targets before
    have later := ih (pushReference_targets before ⟨kind, target, evidence⟩ collected.2)
    rw [List.append_assoc] at later
    exact later

theorem pushLinks_targets (evidence : LineEvidence) (links : List String) :
    ∀ {collected : List ExplicitReference × ExtractionState} {targets : List String},
      collected.1.map ExplicitReference.target = targets.take maxItems →
      (pushLinks evidence links collected).1.map ExplicitReference.target =
        (targets ++ links.filterMap linkTarget).take maxItems := by
  induction links with
  | nil =>
    intro collected targets before
    rw [List.filterMap_nil, List.append_nil]
    exact before
  | cons link links ih =>
    intro collected targets before
    have known := referenceTarget_eq link collected.2
    unfold pushLinks
    rw [List.foldl_cons]
    cases read : referenceTarget link true collected.2 with
    | mk found state =>
      rw [read] at known
      cases found with
      | none =>
        have none : linkTarget link = none := known.symm
        rw [List.filterMap_cons_none none]
        exact ih before
      | some entry =>
        have one : linkTarget link = some entry.2 := known.symm
        have later := ih (pushReference_targets before ⟨entry.1, entry.2, evidence⟩ state)
        rw [List.append_assoc] at later
        rw [List.filterMap_cons_some one]
        exact later

theorem retain_owners (listed : List String) :
    ((ownerTexts listed).map same).map Tested.retain = ownerTexts listed := by
  rw [List.map_map]
  refine (List.map_congr_left fun owner mem => ?_).trans (List.map_id _)
  exact retain_same (mem_ownerTexts_safe mem)

theorem retain_links (links : List String) :
    (links.filterMap linked).map Tested.retain = links.filterMap linkTarget := by
  rw [List.map_filterMap]
  refine List.filterMap_congr fun link _ => ?_
  unfold linkTarget
  cases found : linked link with
  | none => rfl
  | some tested => exact congrArg some (retain_of_safe (linked_safe found))

theorem retain_entryReferences (entry : Mapping × String) (safe : containsSecretValue entry.2 = false) :
    (entryReferences entry).map Tested.retain =
      (entry.2 :: ownerTexts (catalogOwners entry.1) ++
        (catalogLinks entry.1).filterMap linkTarget).take maxItems := by
  rw [entryReferences, List.map_take, List.map_append, List.map_cons, retain_owners, retain_links,
    retain_same safe]

theorem titledRecord_texts (sourcePath : String) (mapping : Mapping) (title : String)
    (evidence : LineEvidence) (state : ExtractionState) (safe : containsSecretValue title = false) :
    recordTexts (titledRecord sourcePath mapping title evidence state).1 = entryTexts (mapping, title) := by
  have owners := pushOwners_eq (catalogOwners mapping)
    (sanitizeOptional (catalogStatus mapping) state).2
  have start : (([], (pushOwners (catalogOwners mapping) []
      (sanitizeOptional (catalogStatus mapping) state).2).2) :
        List ExplicitReference × ExtractionState).1.map ExplicitReference.target =
      [].take maxItems := rfl
  have named := pushReferences_targets .service evidence [title] start
  have owned := pushReferences_targets .owner evidence (pushOwners (catalogOwners mapping) []
    (sanitizeOptional (catalogStatus mapping) state).2).1 named
  have references := pushLinks_targets evidence (catalogLinks mapping) owned
  unfold recordTexts entryTexts
  rw [retain_entryReferences _ safe]
  unfold titledRecord
  simp only [reduceCtorEq, if_false, RecordTexts.mk.injEq, true_and]
  refine ⟨sanitizeOptional_eq _ _, owners, references.trans ?_⟩
  rw [owners]
  rfl

theorem catalogRecord_texts (sourcePath : String) (entry : CatalogEntry) (evidence : LineEvidence)
    (state : ExtractionState) :
    (catalogRecord sourcePath entry evidence state).1.map recordTexts =
      (titledEntry entry).map entryTexts := by
  unfold catalogRecord titledEntry
  cases (explicitCatalogName entry.mapping).or entry.fallbackName with
  | none => rfl
  | some name =>
    have known := sanitizeIdentifier_state name maxDisplayBytes state
    dsimp only
    rw [Option.bind_some, ← known]
    cases read : sanitizeIdentifier name maxDisplayBytes state with
    | mk found later =>
      cases found with
      | none => rfl
      | some title =>
        have safe := sanitizeIdentifier_safe (congrArg Prod.fst read)
        simp only [Option.map_some, titledRecord_texts _ _ _ _ _ safe]

theorem catalogRecords_texts (sourcePath : String) (evidence : LineEvidence)
    {entries : List CatalogEntry} : ∀ {collected : List DocumentRecord × ExtractionState}
    {before : List RecordTexts}, collected.1.map recordTexts = before.take maxRecords →
      (catalogRecords sourcePath evidence entries collected).1.map recordTexts =
        (before ++ (entries.filterMap titledEntry).map entryTexts).take maxRecords := by
  induction entries with
  | nil =>
    intro collected before same
    rw [List.filterMap_nil, List.map_nil, List.append_nil]
    exact same
  | cons entry entries ih =>
    intro collected before same
    have count := congrArg List.length same
    rw [List.length_map, List.length_take] at count
    rw [catalogRecords]
    split_ifs with full
    · rw [List.take_append_of_le_length (by omega)]
      exact same
    · have known := catalogRecord_texts sourcePath entry evidence collected.2
      have whole : before.take maxRecords = before := List.take_of_length_le (by omega)
      cases read : catalogRecord sourcePath entry evidence collected.2 with
      | mk found state =>
        rw [read] at known
        cases found with
        | none =>
          have none : titledEntry entry = none := Option.map_eq_none_iff.1 known.symm
          rw [List.filterMap_cons_none none]
          exact ih same
        | some record =>
          obtain ⟨titled, one, texts⟩ := Option.map_eq_some_iff.1 known.symm
          have next : (collected.1 ++ [record]).map recordTexts =
              (before ++ [entryTexts titled]).take maxRecords := by
            rw [List.map_append, same, whole, List.take_of_length_le, texts]
            · rfl
            · rw [List.length_append, List.length_singleton]
              omega
          have later := @ih (collected.1 ++ [record], state) _ next
          rw [List.append_assoc] at later
          rw [List.filterMap_cons_some one]
          exact later

variable (fromYaml fromJson : String → Option Value)

def catalogTitled (sourcePath input : String) : List (Mapping × String) :=
  match parseCatalog fromYaml fromJson sourcePath input with
  | .ok root => ((catalogEntries root {}).1.filterMap titledEntry).take maxRecords
  | .error _ => []

def entryTested (entry : Mapping × String) : List Tested :=
  same entry.2 :: ((catalogStatus entry.1).bind displayed).toList ++
    (ownerTexts (catalogOwners entry.1)).map same ++ entryReferences entry

def catalogTexts (sourcePath input : String) : List Tested :=
  (catalogTitled fromYaml fromJson sourcePath input).flatMap entryTested

def catalogLinkTexts (sourcePath input : String) : List String :=
  (catalogTitled fromYaml fromJson sourcePath input).flatMap fun entry => catalogLinks entry.1

def catalogTargets (sourcePath input : String) : List String :=
  (catalogTitled fromYaml fromJson sourcePath input).flatMap fun entry =>
    (entryReferences entry).map Tested.retain

variable {fromYaml fromJson} {sourcePath input : String} {document : DocumentationDocument}

theorem extractServiceCatalog_spec
    (accepted : extractServiceCatalog fromYaml fromJson sourcePath input = .ok document) :
    document.records.map recordTexts =
        (catalogTitled fromYaml fromJson sourcePath input).map entryTexts ∧
      document.ownershipRules = [] := by
  unfold extractServiceCatalog at accepted
  obtain ⟨-, -, accepted⟩ := bind_eq_ok.1 accepted
  obtain ⟨root, read, accepted⟩ := bind_eq_ok.1 accepted
  obtain ⟨-, -, accepted⟩ := bind_eq_ok.1 accepted
  rw [pure_eq_ok] at accepted
  rw [← accepted, catalogTitled, read]
  refine ⟨?_, rfl⟩
  have records := @catalogRecords_texts sourcePath (documentEvidence input.toList)
    (catalogEntries root {}).1 ([], (catalogEntries root {}).2) [] rfl
  rw [List.nil_append, ← List.map_take] at records
  rw [← records, List.map_map]
  rfl

theorem safe_of_catalogTitled {entry : Mapping × String}
    (mem : entry ∈ catalogTitled fromYaml fromJson sourcePath input) :
    containsSecretValue entry.2 = false := by
  unfold catalogTitled at mem
  split at mem
  · obtain ⟨source, -, titled⟩ := List.mem_filterMap.1 (List.mem_of_mem_take mem)
    obtain ⟨name, -, found⟩ := Option.bind_eq_some_iff.1 titled
    obtain ⟨title, accepted, rfl⟩ := Option.map_eq_some_iff.1 found
    exact sanitizeIdentifier_safe accepted
  · cases mem

theorem exists_mem_map {α β : Type} {f : α → β} {items : List α} {p : β → Prop} :
    (∃ value ∈ items.map f, p value) ↔ ∃ item ∈ items, p (f item) := by
  simp only [List.mem_map, exists_exists_and_eq_and]

theorem retained_iff_texts (value : String) :
    Retained document value ↔
      (∃ texts ∈ document.records.map recordTexts, texts.title = some value ∨
        texts.status = some value ∨ value ∈ texts.headings ∨ value ∈ texts.owners ∨
          value ∈ texts.targets) ∨
      ∃ rule ∈ document.ownershipRules, rule.pattern = value ∨ value ∈ rule.owners := by
  have title : ∀ record : DocumentRecord, (recordTexts record).title = some value ↔
      record.kind ≠ .codeowners ∧ record.title = some value := by
    intro record
    simp only [recordTexts]
    split_ifs with file
    · simp [file]
    · simp [file]
  simp only [Retained, exists_mem_map, title]
  rfl

theorem retained_catalog
    (accepted : extractServiceCatalog fromYaml fromJson sourcePath input = .ok document) (value : String) :
    Retained document value ↔
      ∃ tested ∈ catalogTexts fromYaml fromJson sourcePath input, tested.retain = value := by
  obtain ⟨records, rules⟩ := extractServiceCatalog_spec accepted
  rw [retained_iff_texts, records, rules]
  simp only [exists_mem_map, List.not_mem_nil, false_and, exists_false, or_false]
  have entries : (∃ tested ∈ catalogTexts fromYaml fromJson sourcePath input, tested.retain = value) ↔
      ∃ entry ∈ catalogTitled fromYaml fromJson sourcePath input,
        ∃ tested ∈ entryTested entry, tested.retain = value := by
    simp only [catalogTexts, List.mem_flatMap]
    constructor
    · rintro ⟨tested, ⟨entry, mem, inside⟩, kept⟩
      exact ⟨entry, mem, tested, inside, kept⟩
    · rintro ⟨entry, mem, tested, inside, kept⟩
      exact ⟨tested, ⟨entry, mem, inside⟩, kept⟩
  rw [entries]
  refine exists_congr fun entry => and_congr_right fun mem => ?_
  have title : (same entry.2).retain = entry.2 := retain_same (safe_of_catalogTitled mem)
  have owners : value ∈ ownerTexts (catalogOwners entry.1) ↔
      ∃ tested ∈ (ownerTexts (catalogOwners entry.1)).map same, tested.retain = value := by
    rw [← List.mem_map, retain_owners]
  have targets : value ∈ (entryReferences entry).map Tested.retain ↔
      ∃ tested ∈ entryReferences entry, tested.retain = value := List.mem_map
  unfold entryTested entryTexts
  rw [shown_iff, owners, targets]
  simp only [List.cons_append, List.mem_cons, List.mem_append, or_and_right, exists_or,
    exists_eq_left, title, Option.some.injEq, List.not_mem_nil, false_or, or_assoc]

theorem target_catalog
    (accepted : extractServiceCatalog fromYaml fromJson sourcePath input = .ok document)
    (target : String) :
    Target document target ↔ target ∈ catalogTargets fromYaml fromJson sourcePath input := by
  obtain ⟨records, -⟩ := extractServiceCatalog_spec accepted
  have texts : Target document target ↔
      ∃ texts ∈ document.records.map recordTexts, target ∈ texts.targets := by
    rw [exists_mem_map]
    rfl
  rw [texts, records, exists_mem_map, catalogTargets, List.mem_flatMap]
  rfl

end Catalogs

section Extractors

variable (fromYaml fromJson : String → Option Value) (parseMarkdown : String → List (Event × ℕ × ℕ))

def signFree (tested : Tested) : Bool :=
  !tested.kept.toList.contains ':' && !tested.kept.toList.contains '='

theorem found_of_signFree {texts : List Tested} (free : texts.all signFree = true) :
    ∀ tested ∈ texts, tested.Found := by
  intro tested mem assigned
  have none := List.all_eq_true.1 free tested mem
  rw [signFree, Bool.and_eq_true, Bool.not_eq_true', Bool.not_eq_true'] at none
  cases sign_of_assigns assigned with
  | inl colon => simp [colon] at none
  | inr equals => simp [equals] at none

theorem found_of_codeownersPatterns {input pattern : String} (mem : pattern ∈ codeownersPatterns input) :
    (same pattern).Found ↔ ¬Assigns pattern := by
  have safe : containsSecretValue pattern = false := by
    obtain ⟨line, -, ruled⟩ := List.mem_filterMap.1 (List.mem_of_mem_take mem)
    unfold rulePattern at ruled
    split at ruled
    · split_ifs at ruled with accepted
      rw [← Option.some.inj ruled]
      have valid := accepted.1
      unfold validCodeownersPattern at valid
      rw [Bool.and_eq_true] at valid
      simpa using valid.2
    · cases ruled
  simp only [Tested.Found, same, safe, Bool.false_eq_true]

/-- The three extractors keep secret assignments and unstripped links out exactly when the test
finds every assignment that is kept, and the links that a reference prefix names are stripped. -/
theorem extraction_secretFree_iff (sourcePath input : String) :
    (∀ document, extractMarkdown fromYaml parseMarkdown sourcePath input = .ok document →
      (SecretFree document ∧
          LinksStripped (linkTexts (bodyEvents fromYaml parseMarkdown input.toList)) document ↔
        (∀ tested ∈ markdownTexts fromYaml parseMarkdown input.toList, tested.Found) ∧
          NamedStripped (linkTexts (bodyEvents fromYaml parseMarkdown input.toList))
            ((markdownReferences fromYaml parseMarkdown input.toList).map Tested.retain))) ∧
    (∀ document, extractCodeowners sourcePath input = .ok document →
      (SecretFree document ↔ ∀ pattern ∈ codeownersPatterns input, (same pattern).Found)) ∧
    (∀ document, extractServiceCatalog fromYaml fromJson sourcePath input = .ok document →
      (SecretFree document ∧
          LinksStripped (catalogLinkTexts fromYaml fromJson sourcePath input) document ↔
        (∀ tested ∈ catalogTexts fromYaml fromJson sourcePath input, tested.Found) ∧
          NamedStripped (catalogLinkTexts fromYaml fromJson sourcePath input)
            (catalogTargets fromYaml fromJson sourcePath input))) := by
  refine ⟨fun document accepted => ?_, fun document accepted => ?_, fun document accepted => ?_⟩
  · exact and_congr (free_iff_found _ (retained_markdown accepted))
      (linksStripped_iff (target_markdown accepted))
  · rw [extractCodeowners_spec accepted]
    exact forall₂_congr fun pattern mem => (found_of_codeownersPatterns mem).symm
  · exact and_congr (free_iff_found _ (retained_catalog accepted))
      (linksStripped_iff (target_catalog accepted))

theorem extraction_secretFree_iff_guide :
    (∃ document, extractMarkdown (fun _ => none) (fun _ => [(.startHeading 1, 0, 7), (.text "Guide", 2, 7),
        (.endHeading, 0, 7)]) "guide.md" "# Guide" = .ok document ∧ SecretFree document) ∧
      (∃ document, extractCodeowners "CODEOWNERS" "* @team\n" = .ok document ∧
        SecretFree document) ∧
      ∃ document, extractServiceCatalog (fun _ => some (.object [("name", .string "billing")]))
        (fun _ => none) "catalog.yaml" "name: billing" = .ok document ∧ SecretFree document := by
  refine ⟨⟨_, rfl, ?_⟩, ⟨_, rfl, ?_⟩, ⟨_, rfl, ?_⟩⟩
  · refine (((extraction_secretFree_iff (fun _ => none) (fun _ => none) (fun _ =>
      [(.startHeading 1, 0, 7), (.text "Guide", 2, 7), (.endHeading, 0, 7)]) "guide.md"
        "# Guide").1 _ rfl).2 ⟨found_of_signFree (by decide +kernel), ?_⟩).1
    intro link mem
    cases mem
  · refine ((extraction_secretFree_iff (fun _ => none) (fun _ => none) (fun _ => []) "CODEOWNERS"
      "* @team\n").2.1 _ rfl).2 fun pattern mem => ?_
    have only : codeownersPatterns "* @team\n" = ["*"] := by decide +kernel
    rw [only, List.mem_singleton] at mem
    rw [mem]
    have free : [same "*"].all signFree = true := by decide
    exact found_of_signFree free _ (List.mem_singleton_self _)
  · refine (((extraction_secretFree_iff (fun _ => some (.object [("name", .string "billing")]))
      (fun _ => none) (fun _ => []) "catalog.yaml" "name: billing").2.2 _ rfl).2
        ⟨found_of_signFree (by decide +kernel), ?_⟩).1
    have none : catalogLinkTexts (fun _ => some (.object [("name", .string "billing")]))
        (fun _ => none) "catalog.yaml" "name: billing" = [] := by decide +kernel
    intro link mem
    rw [none] at mem
    cases mem

/-- A paragraph with one link. -/
def linkedEvents : List (Event × ℕ × ℕ) :=
  [(.other, 0, 28), (.startLink "http://user:pw@host/x?y", 0, 28), (.text "a", 1, 2), (.other, 0, 28),
    (.other, 0, 28)]

/-- The first occurrence of a marker is not assigned, but the second one is; and a link keeps the
user information and the query that follow a prefix. -/
theorem extraction_retains_secrets :
    (¬∀ sourcePath input document, extractCodeowners sourcePath input = .ok document →
      SecretFree document) ∧
    ∃ document, extractMarkdown (fun _ => none) (fun _ => linkedEvents) "guide.md"
        "[a](http://user:pw@host/x?y)" = .ok document ∧
      Target document "//user:pw@host/x?y" ∧ ¬LinksStripped (linkTexts linkedEvents) document := by
  constructor
  · intro free
    obtain ⟨document, accepted, pattern⟩ : ∃ document,
        extractCodeowners "CODEOWNERS" "/token_name/token=x @team\n" = .ok document ∧
          document.ownershipRules.map OwnershipRule.pattern = ["/token_name/token=x"] :=
      ⟨_, rfl, by decide +kernel⟩
    obtain ⟨rule, listed, same⟩ := List.mem_map.1 (pattern ▸ List.mem_singleton_self _)
    apply free _ _ document accepted "/token_name/token=x" (Or.inr ⟨rule, listed, Or.inl same⟩)
    exact ⟨"token", by decide, "/token_name/".toList, "=x".toList, by decide +kernel, by decide⟩
  · obtain ⟨document, accepted, targets⟩ : ∃ document,
        extractMarkdown (fun _ => none) (fun _ => linkedEvents) "guide.md"
          "[a](http://user:pw@host/x?y)" = .ok document ∧
        document.records.map (fun record => record.references.map ExplicitReference.target) =
          [["//user:pw@host/x?y"]] :=
      ⟨_, rfl, by decide +kernel⟩
    have kept : Target document "//user:pw@host/x?y" := by
      obtain ⟨record, listed, same⟩ := List.mem_map.1 (targets ▸ List.mem_singleton_self _)
      exact ⟨record, listed, same ▸ List.mem_singleton_self _⟩
    refine ⟨document, accepted, kept, fun clean => ?_⟩
    have scheme : BeginsWithScheme "http://user:pw@host/x?y" :=
      ⟨"http".toList, "user:pw@host/x?y".toList, by decide,
        List.all_eq_true.1 (by decide +kernel), by decide⟩
    have stripped := clean "http://user:pw@host/x?y" (by decide) "//user:pw@host/x?y"
      (by decide +kernel) kept scheme
    exact stripped.1 (by decide)

end Extractors

end CodeSystemGraph.Documents
