import CodeSystemGraph.Codeowners
import CodeSystemGraph.DocumentCatalogs
import Mathlib.Data.List.TakeWhile

/-!
Which extractions retain a secret assignment. The shared test looks behind the first
occurrence of each marker only, and a link with a reference prefix keeps its user
information, its query and its fragment.
-/

namespace CodeSystemGraph.Documents

open Text Ordered
open PullRequests (Value)

def Assigns (value : String) : Prop :=
  ∃ marker ∈ secretMarkers, ∃ before rest,
    lowercase value.toList = before ++ marker.toList ++ rest ∧ assigns rest = true

/-- A text that passed the test, with what is retained of it. -/
structure Tested where
  text : String
  kept : String

def Tested.retain (tested : Tested) : String :=
  if containsSecretValue tested.text = true then redacted else tested.kept

/-- The test finds an assignment in the text when what is kept of it has one. -/
def Tested.Found (tested : Tested) : Prop :=
  Assigns tested.kept → containsSecretValue tested.text = true

section Assignments

theorem not_assigns_redacted : ¬ Assigns redacted := by
  have none : ∀ marker ∈ secretMarkers, ¬ marker.toList <:+: lowercase redacted.toList := by
    decide +kernel
  rintro ⟨marker, listed, before, rest, same, -⟩
  exact none marker listed ⟨before, rest, same.symm⟩

theorem free_iff_found (texts : List Tested) {retained : String → Prop}
    (exactly : ∀ value, retained value ↔ ∃ tested ∈ texts, tested.retain = value) :
    (∀ value, retained value → ¬ Assigns value) ↔ ∀ tested ∈ texts, tested.Found := by
  constructor
  · intro free tested mem assigned
    cases secret : containsSecretValue tested.text with
    | true => rfl
    | false =>
      have kept : tested.retain = tested.kept := if_neg (by rw [secret]; decide)
      exact absurd assigned (kept ▸ free _ ((exactly _).2 ⟨tested, mem, rfl⟩))
  · intro found value mem
    obtain ⟨tested, listed, rfl⟩ := (exactly value).1 mem
    unfold Tested.retain
    split
    · exact not_assigns_redacted
    · next safe => exact fun assigned => safe (found tested listed assigned)

end Assignments

section Sanitized

def displayed (value : String) : Option Tested :=
  if collapse value = "" then none
  else some ⟨collapse value, String.ofList (truncateUtf8 maxDisplayBytes (collapse value).toList)⟩

def canonical (value : String) : Option Tested :=
  ((sanitizeReference value false {}).1).map fun target => ⟨target, target⟩

/-- A link is tested without its components, and a hosted repository is kept by its name. -/
def linked (link : String) : Option Tested :=
  match namedReference link.toList with
  | some (_, target) => canonical (String.ofList target)
  | none =>
    ((sanitizeReference link true {}).1).map fun target =>
      ⟨target, (hostedRepositorySlug target.toList).getD target⟩

theorem truncateUtf8_of_le {maximum : ℕ} {text : List Char}
    (fits : (String.ofList text).utf8ByteSize ≤ maximum) : truncateUtf8 maximum text = text := by
  induction text generalizing maximum with
  | nil => rfl
  | cons c text ih =>
    have size : (String.ofList (c :: text)).utf8ByteSize =
        c.utf8Size + (String.ofList text).utf8ByteSize := by
      rw [String.ofList_cons, String.utf8ByteSize_append, String.utf8ByteSize_singleton]
    have here : c.utf8Size ≤ maximum := by omega
    rw [truncateUtf8, if_pos here, ih (by omega)]

theorem sanitizeDisplay_eq (value : String) (state : ExtractionState) :
    (sanitizeDisplay value state).1 = (displayed value).map Tested.retain := by
  unfold sanitizeDisplay displayed
  dsimp only
  split
  · rfl
  · rw [Option.map_some, Tested.retain]
    split
    · rfl
    · split
      · rfl
      · next fits =>
        rw [truncateUtf8_of_le, String.ofList_toList]
        rw [String.ofList_toList]
        omega

theorem sanitizeIdentifier_state (value : String) (maximum : ℕ) (state : ExtractionState) :
    (sanitizeIdentifier value maximum state).1 = (sanitizeIdentifier value maximum {}).1 := by
  unfold sanitizeIdentifier
  dsimp only
  split_ifs <;> rfl

theorem sanitizeReference_state (value : String) (strip : Bool) (state : ExtractionState) :
    (sanitizeReference value strip state).1 = (sanitizeReference value strip {}).1 := by
  unfold sanitizeReference
  dsimp only
  split_ifs <;> rfl

theorem sanitizeIdentifier_safe {value name : String} {maximum : ℕ} {state : ExtractionState}
    (accepted : (sanitizeIdentifier value maximum state).1 = some name) :
    containsSecretValue name = false := by
  unfold sanitizeIdentifier at accepted
  dsimp only at accepted
  split_ifs at accepted with empty long secret
  cases accepted
  rw [Bool.not_eq_true, Bool.or_eq_false_iff] at secret
  exact secret.1

theorem sanitizeReference_safe {value target : String} {strip : Bool} {state : ExtractionState}
    (accepted : (sanitizeReference value strip state).1 = some target) :
    containsSecretValue target = false := by
  unfold sanitizeReference at accepted
  dsimp only at accepted
  generalize (if strip = true then
    stripLinkComponents (trimBoth ['<', '>'] ['<', '>'] (trim value.toList))
      else trimBoth ['<', '>'] ['<', '>'] (trim value.toList)) = text at accepted
  split_ifs at accepted with credentials empty long secret control
  rw [← Option.some.inj accepted]
  exact Bool.eq_false_iff.2 secret

theorem sanitizeOwner_fst (value : String) (state : ExtractionState) :
    (sanitizeOwner value state).1 = (sanitizeIdentifier value maxOwnerBytes state).1.filter fun owner =>
      owner.toList.all fun c => isAsciiAlphanumeric c || ownerPunctuation.contains c := by
  unfold sanitizeOwner
  cases read : sanitizeIdentifier value maxOwnerBytes state with
  | mk name later =>
    cases name with
    | none => rfl
    | some owner =>
      rw [Option.filter_some]
      dsimp only
      split_ifs <;> rfl

theorem sanitizeOwner_state (value : String) (state : ExtractionState) :
    (sanitizeOwner value state).1 = (sanitizeOwner value {}).1 := by
  rw [sanitizeOwner_fst, sanitizeOwner_fst, sanitizeIdentifier_state]

theorem sanitizeOwner_safe {value owner : String} {state : ExtractionState}
    (accepted : (sanitizeOwner value state).1 = some owner) : containsSecretValue owner = false := by
  rw [sanitizeOwner_fst, Option.filter_eq_some_iff] at accepted
  exact sanitizeIdentifier_safe accepted.1

theorem referenceTarget_eq (link : String) (state : ExtractionState) :
    (referenceTarget link true state).1.map Prod.snd = (linked link).map Tested.kept := by
  unfold referenceTarget linked
  cases named : namedReference link.toList with
  | some entry =>
    simp only [canonical, Option.map_map, Function.comp_def, sanitizeReference_state _ _ state]
  | none =>
    simp only [Bool.not_true, Bool.false_eq_true, if_false, Option.map_map, Function.comp_def,
      sanitizeReference_state _ _ state]
    congr 1
    funext target
    cases hostedRepositorySlug target.toList <;> rfl

theorem linked_safe {link : String} {tested : Tested} (accepted : linked link = some tested) :
    containsSecretValue tested.text = false := by
  unfold linked canonical at accepted
  split at accepted
  · obtain ⟨target, found, rfl⟩ := Option.map_eq_some_iff.1 accepted
    exact sanitizeReference_safe found
  · obtain ⟨target, found, rfl⟩ := Option.map_eq_some_iff.1 accepted
    exact sanitizeReference_safe found

theorem retain_of_safe {tested : Tested} (safe : containsSecretValue tested.text = false) :
    tested.retain = tested.kept := if_neg (by rw [safe]; decide)

end Sanitized

section Folds

theorem pushUnique_dups (values : List String) (value : String) (state : ExtractionState) :
    (pushUniqueBounded (values.eraseDups.take maxItems) value state).1 =
      (values ++ [value]).eraseDups.take maxItems := by
  rw [List.eraseDups_append]
  unfold pushUniqueBounded
  by_cases known : value ∈ values
  · have none : [value].removeAll values = [] := by simp [List.removeAll, known]
    rw [none, List.eraseDups_nil, List.append_nil]
    split_ifs with kept full
    · rfl
    · rfl
    · have whole : values.eraseDups.take maxItems = values.eraseDups := by
        rw [List.length_take] at full
        exact List.take_of_length_le (by omega)
      rw [whole, List.mem_eraseDups] at kept
      exact absurd known kept
  · have one : [value].removeAll values = [value] := by simp [List.removeAll, known]
    have single : [value].eraseDups = [value] := rfl
    have absent : value ∉ values.eraseDups.take maxItems :=
      fun mem => known (List.mem_eraseDups.1 (List.mem_of_mem_take mem))
    rw [one, single, if_neg absent]
    split_ifs with full
    · rw [List.length_take] at full
      rw [List.take_append_of_le_length (by omega)]
    · rw [List.length_take] at full
      rw [List.take_of_length_le (by omega), List.take_of_length_le (by
        rw [List.length_append, List.length_singleton]
        omega)]

theorem pushOwners_eq (listed : List String) (state : ExtractionState) :
    (pushOwners listed [] state).1 =
      (listed.filterMap fun value => (sanitizeOwner value {}).1).eraseDups.take maxItems := by
  induction listed using List.reverseRecOn with
  | nil => rfl
  | append_singleton listed value ih =>
    unfold pushOwners at ih ⊢
    rw [List.foldl_append, List.foldl_cons, List.foldl_nil, List.filterMap_append]
    generalize listed.foldl _ ([], state) = collected at ih ⊢
    have known := sanitizeOwner_state value collected.2
    cases read : sanitizeOwner value collected.2 with
    | mk owner later =>
      rw [read] at known
      cases owner with
      | none => simp [← known, ih]
      | some owner =>
        have one : [value].filterMap (fun value => (sanitizeOwner value {}).1) = [owner] := by
          simp [← known]
        rw [one, ← pushUnique_dups _ owner later, ← ih]

theorem pushReference_targets {references : List ExplicitReference} {targets : List String}
    (same : references.map ExplicitReference.target = targets.take maxItems)
    (reference : ExplicitReference) (state : ExtractionState) :
    (pushReference references reference state).1.map ExplicitReference.target =
      (targets ++ [reference.target]).take maxItems := by
  have count := congrArg List.length same
  rw [List.length_take, List.length_map] at count
  unfold pushReference
  split_ifs with full
  · rw [same, List.take_append_of_le_length (by omega)]
  · rw [List.map_append, same, List.take_of_length_le (by omega), List.take_of_length_le (by
      rw [List.length_append, List.length_singleton]
      omega)]
    rfl

end Folds

section Outlines

/-- The text of each heading, with the text of the one that is open. -/
def headingTexts : Option (List Char) → List (Event × ℕ × ℕ) → List String
  | _, [] => []
  | active, entry :: events =>
    match entry.1 with
    | .startHeading _ => headingTexts (some []) events
    | .endHeading => active.toList.map String.ofList ++ headingTexts none events
    | .text text => headingTexts (active.map (appendHeadingText · text.toList)) events
    | .code text => headingTexts (active.map (appendHeadingText · text.toList)) events
    | .softBreak => headingTexts (active.map (appendHeadingText · [' '])) events
    | .hardBreak => headingTexts (active.map (appendHeadingText · [' '])) events
    | .startLink _ => headingTexts active events
    | .other => headingTexts active events

def linkText : Event × ℕ × ℕ → Option String
  | (.startLink destination, _, _) => some destination
  | _ => none

def linkTexts (events : List (Event × ℕ × ℕ)) : List String := events.filterMap linkText

def shown (value : String) : Option String := (displayed value).map Tested.retain

def linkTarget (link : String) : Option String := (linked link).map Tested.kept

variable (input body : List Char) (offset : ℕ)

theorem appendText_heading (text : List Char) (outline : Outline) :
    (appendText text outline).activeHeading.map Prod.snd =
        (outline.activeHeading.map Prod.snd).map (appendHeadingText · text) ∧
      (appendText text outline).headings = outline.headings ∧
      (appendText text outline).references = outline.references ∧
      (appendText text outline).firstH1 = outline.firstH1 := by
  cases outline with
  | mk headings firstH1 activeHeading references state =>
    cases activeHeading with
    | none => exact ⟨rfl, rfl, rfl, rfl⟩
    | some active => exact ⟨rfl, rfl, rfl, rfl⟩

theorem endHeading_spec {outline : Outline} {headings : List String}
    (same : outline.headings = headings.take maxItems) :
    (endHeading outline).headings = (headings ++ ((outline.activeHeading.map Prod.snd).toList.map
        String.ofList).filterMap shown).take maxItems ∧
      (endHeading outline).activeHeading = none ∧
      (endHeading outline).references = outline.references ∧
      (∀ value ∈ outline.headings, value ∈ (endHeading outline).headings) ∧
      ∀ title, (endHeading outline).firstH1 = some title →
        outline.firstH1 = some title ∨ title ∈ (endHeading outline).headings := by
  cases outline with
  | mk written firstH1 activeHeading references state =>
    have count := congrArg List.length same
    rw [List.length_take] at count
    dsimp only at same count ⊢
    cases activeHeading with
    | none =>
      refine ⟨?_, rfl, rfl, fun value mem => mem, fun title found => Or.inl found⟩
      simpa [endHeading] using same
    | some active =>
      obtain ⟨level, text⟩ := active
      have known := sanitizeDisplay_eq (String.ofList text) state
      have single : ((some (level, text)).map Prod.snd).toList.map String.ofList =
        [String.ofList text] := rfl
      rw [single]
      cases read : sanitizeDisplay (String.ofList text) state with
      | mk heading later =>
        rw [read] at known
        simp only [endHeading, read]
        cases heading with
        | none =>
          have none : [String.ofList text].filterMap shown = [] := by
            simp [shown, ← known]
          rw [none, List.append_nil]
          exact ⟨same, rfl, rfl, fun value mem => mem, fun title found => Or.inl found⟩
        | some heading =>
          have one : [String.ofList text].filterMap shown = [heading] := by
            simp [shown, ← known]
          rw [one]
          dsimp only
          by_cases full : maxItems ≤ written.length
          · rw [if_pos full]
            refine ⟨?_, rfl, rfl, fun value mem => mem, fun title found => Or.inl found⟩
            rw [same, List.take_append_of_le_length (by omega)]
          · rw [if_neg full]
            refine ⟨?_, rfl, rfl, fun value mem => List.mem_append_left _ mem, fun title found => ?_⟩
            · rw [same, List.take_of_length_le (by omega), List.take_of_length_le (by
                rw [List.length_append, List.length_singleton]
                omega)]
            · dsimp only at found ⊢
              split_ifs at found with first
              · cases found
                exact Or.inr (List.mem_append_right _ (List.mem_singleton.2 rfl))
              · exact Or.inl found

theorem addLink_spec (input body : List Char) (offset start finish : ℕ) {outline : Outline}
    {targets : List String}
    (same : outline.references.map ExplicitReference.target = targets.take maxItems)
    (destination : String) :
    (addLink input body offset destination start finish outline).references.map
        ExplicitReference.target = (targets ++ [destination].filterMap linkTarget).take maxItems ∧
      (addLink input body offset destination start finish outline).headings = outline.headings ∧
      (addLink input body offset destination start finish outline).activeHeading =
        outline.activeHeading ∧
      (addLink input body offset destination start finish outline).firstH1 = outline.firstH1 := by
  have known := referenceTarget_eq destination outline.state
  cases read : referenceTarget destination true outline.state with
  | mk found later =>
    rw [read] at known
    simp only [addLink, read]
    cases found with
    | none =>
      have none : [destination].filterMap linkTarget = [] := by
        simp [linkTarget, ← known]
      rw [none, List.append_nil]
      exact ⟨same, rfl, rfl, rfl⟩
    | some entry =>
      have one : [destination].filterMap linkTarget = [entry.2] := by
        simp [linkTarget, ← known]
      rw [one]
      exact ⟨pushReference_targets same _ _, rfl, rfl, rfl⟩

theorem outline_spec (input body : List Char) (offset : ℕ) (events : List (Event × ℕ × ℕ)) :
    ∀ (outline : Outline) (headings targets : List String),
      outline.headings = headings.take maxItems →
      outline.references.map ExplicitReference.target = targets.take maxItems →
      (∀ title, outline.firstH1 = some title → title ∈ outline.headings) →
      let final := events.foldl (outlineEvent input body offset) outline
      final.headings = (headings ++
          (headingTexts (outline.activeHeading.map Prod.snd) events).filterMap shown).take maxItems ∧
        final.references.map ExplicitReference.target =
          (targets ++ (linkTexts events).filterMap linkTarget).take maxItems ∧
        ∀ title, final.firstH1 = some title → title ∈ final.headings := by
  induction events with
  | nil =>
    intro outline headings targets first second titles
    simpa [headingTexts, linkTexts] using ⟨first, second, titles⟩
  | cons entry events ih =>
    intro outline headings targets first second titles
    obtain ⟨event, start, finish⟩ := entry
    have text : ∀ added, let next := appendText added outline
        let final := events.foldl (outlineEvent input body offset) next
        final.headings = (headings ++ (headingTexts ((outline.activeHeading.map Prod.snd).map
            (appendHeadingText · added)) events).filterMap shown).take maxItems ∧
          final.references.map ExplicitReference.target =
            (targets ++ (linkTexts events).filterMap linkTarget).take maxItems ∧
          ∀ title, final.firstH1 = some title → title ∈ final.headings := by
      intro added
      obtain ⟨active, written, references, title⟩ := appendText_heading added outline
      have later := ih (appendText added outline) headings targets (written ▸ first)
        (references ▸ second) (title ▸ written ▸ titles)
      rw [active] at later
      exact later
    rw [List.foldl_cons]
    cases event with
    | startHeading level => exact ih _ headings targets first second titles
    | endHeading =>
      obtain ⟨written, active, references, grows, title⟩ := endHeading_spec first
      have later := ih (endHeading outline) _ targets written (references ▸ second) ?_
      · rw [active, List.append_assoc, ← List.filterMap_append] at later
        exact later
      · intro value found
        rcases title value found with before | inside
        · exact grows value (titles value before)
        · exact inside
    | text added => exact text added.toList
    | code added => exact text added.toList
    | softBreak => exact text [' ']
    | hardBreak => exact text [' ']
    | startLink destination =>
      obtain ⟨references, written, active, title⟩ :=
        addLink_spec input body offset start finish second destination
      have later := ih (addLink input body offset destination start finish outline) headings _
        (written ▸ first) references (title ▸ written ▸ titles)
      rw [active, List.append_assoc, ← List.filterMap_append] at later
      exact later
    | other => exact ih outline headings targets first second titles

end Outlines

section Canonical

/-- What one prefix names at the beginning of a text. -/
def canonicalText (remainder : List Char) (entry : String × ExplicitReferenceKind) : Option String :=
  match stripPrefix entry.1.toList remainder with
  | none => none
  | some raw =>
    let target := trimReferencePunctuation (raw.takeWhile fun c => !isWhitespace c)
    if target = [] ∨ (entry.2 = .httpContract ∧ "//".toList.isPrefixOf target = true) then none
    else some (String.ofList target)

/-- What a text names, given the character before it. -/
def canonicalTexts : Option Char → List Char → List String
  | _, [] => []
  | previous, c :: rest =>
    (if referenceBoundary previous then referencePrefixes.filterMap (canonicalText (c :: rest)) else []) ++
      canonicalTexts (some c) rest

def canonicalTarget (value : String) : Option String := (canonical value).map Tested.kept

theorem canonicalTarget_eq (value : String) (state : ExtractionState) :
    (sanitizeReference value false state).1 = canonicalTarget value := by
  rw [sanitizeReference_state, canonicalTarget, canonical, Option.map_map]
  exact Option.map_id'.symm

theorem canonicalReference_targets (input : List Char) (offset : ℕ) (remainder : List Char)
    (entry : String × ExplicitReferenceKind)
    {collected : List ExplicitReference × ExtractionState} {targets : List String}
    (same : collected.1.map ExplicitReference.target = targets.take maxItems) :
    (canonicalReference input offset remainder collected entry).1.map ExplicitReference.target =
      (targets ++ ([entry].filterMap (canonicalText remainder)).filterMap canonicalTarget).take
        maxItems := by
  unfold canonicalReference
  have known : [entry].filterMap (canonicalText remainder) = (canonicalText remainder entry).toList := by
    cases read : canonicalText remainder entry <;> simp [read]
  rw [known]
  unfold canonicalText
  cases stripPrefix entry.1.toList remainder with
  | none => simpa using same
  | some raw =>
    dsimp only
    split_ifs with skipped
    · simpa using same
    · have value := canonicalTarget_eq (String.ofList
        (trimReferencePunctuation (raw.takeWhile fun c => !isWhitespace c))) collected.2
      cases read : sanitizeReference (String.ofList
          (trimReferencePunctuation (raw.takeWhile fun c => !isWhitespace c))) false collected.2 with
      | mk found later =>
        rw [read] at value
        cases found with
        | none => simpa [← value] using same
        | some target =>
          have pushed := pushReference_targets same
            ⟨entry.2, target, rangeEvidence input offset (offset + entry.1.length +
              (trimReferencePunctuation (raw.takeWhile fun c => !isWhitespace c)).length)⟩ later
          simpa [← value] using pushed

theorem foldl_canonicalReference (input : List Char) (offset : ℕ) (remainder : List Char)
    (entries : List (String × ExplicitReferenceKind)) :
    ∀ (collected : List ExplicitReference × ExtractionState) (targets : List String),
      collected.1.map ExplicitReference.target = targets.take maxItems →
      (entries.foldl (canonicalReference input offset remainder) collected).1.map
          ExplicitReference.target =
        (targets ++ (entries.filterMap (canonicalText remainder)).filterMap canonicalTarget).take
          maxItems := by
  induction entries with
  | nil =>
    intro collected targets same
    simpa using same
  | cons entry entries ih =>
    intro collected targets same
    have step := canonicalReference_targets input offset remainder entry same
    have later := ih _ _ step
    rw [List.append_assoc, ← List.filterMap_append, ← List.filterMap_append] at later
    exact later

theorem canonicalReferences_targets (input text : List Char) :
    ∀ (offset : ℕ) (previous : Option Char) (collected : List ExplicitReference × ExtractionState)
      (targets : List String), collected.1.map ExplicitReference.target = targets.take maxItems →
      (canonicalReferences input offset previous text collected).1.map ExplicitReference.target =
        (targets ++ (canonicalTexts previous text).filterMap canonicalTarget).take maxItems := by
  induction text with
  | nil =>
    intro offset previous collected targets same
    simpa [canonicalReferences, canonicalTexts] using same
  | cons c text ih =>
    intro offset previous collected targets same
    unfold canonicalReferences canonicalTexts
    dsimp only
    rw [List.filterMap_append]
    split_ifs with boundary
    · have here := foldl_canonicalReference input offset (c :: text) referencePrefixes collected targets
        same
      rw [← List.append_assoc]
      exact ih (offset + 1) (some c) _ _ here
    · exact ih (offset + 1) (some c) collected targets same

end Canonical

section Links

def isSchemeCharacter (c : Char) : Bool := c.isAlphanum || c == '+' || c == '-' || c == '.'

def BeginsWithScheme (link : String) : Prop :=
  ∃ scheme rest, scheme ≠ [] ∧ (∀ c ∈ scheme, isSchemeCharacter c = true) ∧
    link.toList = scheme ++ "://".toList ++ rest

def authority (text : List Char) : List Char :=
  match afterFirst "//".toList text with
  | some rest => rest.takeWhile (· != '/')
  | none => []

def Stripped (target : String) : Prop :=
  '?' ∉ target.toList ∧ '#' ∉ target.toList ∧ '@' ∉ authority target.toList

theorem not_of_isSchemeCharacter {c : Char} (valid : isSchemeCharacter c = true) :
    c ≠ '/' ∧ c ≠ ':' ∧ c ≠ '#' ∧ c ≠ '?' ∧ c ≠ '<' ∧ c ≠ '>' ∧ isWhitespace c = false := by
  refine ⟨?_, ?_, ?_, ?_, ?_, ?_, ?_⟩
  iterate 6
    rintro rfl
    revert valid
    decide
  have code : 43 ≤ c.toNat ∧ c.toNat ≤ 122 := by
    simp only [isSchemeCharacter, Bool.or_eq_true, beq_iff_eq] at valid
    rcases valid with ((word | rfl) | rfl) | rfl
    · have code := code_of_isAlphanum word
      omega
    all_goals decide
  simp only [isWhitespace, Bool.or_eq_false_iff, Bool.and_eq_false_iff, decide_eq_false_iff_not,
    beq_eq_false_iff_ne]
  omega

theorem afterFirst_of_head {literal : List Char} {c : Char} {text : List Char}
    (differs : literal.head? ≠ some c) (nonempty : literal ≠ []) :
    afterFirst literal (c :: text) = afterFirst literal text := by
  have none : stripPrefix literal (c :: text) = none := by
    cases found : stripPrefix literal (c :: text) with
    | none => rfl
    | some rest =>
      have same := stripPrefix_eq_some.1 found
      cases literal with
      | nil => exact absurd rfl nonempty
      | cons d literal =>
        rw [List.cons_append, List.cons.injEq] at same
        exact absurd (by rw [same.1]; rfl) differs
  rw [afterFirst, none]

theorem afterFirst_scheme {scheme : List Char} (valid : ∀ c ∈ scheme, isSchemeCharacter c = true)
    {rest : List Char} : ∀ {text : List Char}, text <+: scheme ++ "://".toList ++ rest →
      afterFirst "//".toList text = afterFirst "://".toList text := by
  induction scheme with
  | nil =>
    intro text begins
    have colon : "://".toList = [':', '/', '/'] := rfl
    have slashes : "//".toList = ['/', '/'] := rfl
    rw [colon, List.nil_append] at begins
    rw [colon, slashes]
    cases text with
    | nil => rfl
    | cons a text =>
      obtain ⟨rfl, afterColon⟩ := List.cons_prefix_cons.1 begins
      cases text with
      | nil => rfl
      | cons b text =>
        obtain ⟨rfl, afterSlash⟩ := List.cons_prefix_cons.1 afterColon
        cases text with
        | nil => rfl
        | cons d text =>
          have slash := (List.cons_prefix_cons.1 afterSlash).1
          rw [slash]
          rfl
  | cons c scheme ih =>
    intro text begins
    have here := not_of_isSchemeCharacter (valid c (List.mem_cons_self ..))
    cases text with
    | nil => rfl
    | cons d text =>
      rw [List.cons_append, List.cons_append, List.cons_prefix_cons] at begins
      obtain ⟨rfl, later⟩ := begins
      rw [afterFirst_of_head, afterFirst_of_head, ih (fun x mem => valid x (List.mem_cons_of_mem _ mem)) later]
      · simpa using here.2.1.symm
      · decide
      · simpa using here.1.symm
      · decide

theorem trimEnd_spec {p : Char → Bool} (text : List Char) :
    ∃ tail, text = (text.reverse.dropWhile p).reverse ++ tail ∧ ∀ c ∈ tail, p c = true := by
  refine ⟨(text.reverse.takeWhile p).reverse, ?_, ?_⟩
  · rw [← List.reverse_append, List.takeWhile_append_dropWhile, List.reverse_reverse]
  · intro c mem
    exact List.mem_takeWhile_imp (List.mem_reverse.1 mem)

/-- What `sanitize_reference` trims of a text that begins with an ordinary character. -/
def trimmed (text : List Char) : List Char := trimBoth ['<', '>'] ['<', '>'] (trim text)

theorem trimmed_spec {c : Char} {text : List Char} (space : isWhitespace c = false)
    (left : c ≠ '<') (right : c ≠ '>') :
    ∃ first tail, trimmed (c :: text) = c :: first ∧ c :: text = c :: first ++ tail ∧
      ∀ x ∈ tail, isWhitespace x = true ∨ x = '<' ∨ x = '>' := by
  have start : (c :: text).dropWhile isWhitespace = c :: text :=
    List.dropWhile_cons_of_neg (by simp [space])
  obtain ⟨spaces, whole, allSpaces⟩ := @trimEnd_spec isWhitespace (c :: text)
  have blank : trim (c :: text) ≠ [] := by
    intro none
    rw [trim, start] at none
    rw [none, List.nil_append] at whole
    have bad := allSpaces c (by rw [← whole]; exact List.mem_cons_self ..)
    rw [space] at bad
    cases bad
  have inner : c :: text = trim (c :: text) ++ spaces := by
    rw [trim, start]
    exact whole
  obtain ⟨d, middle, shape⟩ := List.exists_cons_of_ne_nil blank
  have first : d = c := by
    rw [shape] at inner
    exact (List.cons.inj inner).1.symm
  subst first
  have plain : ['<', '>'].contains d = false := by simp [left, right]
  obtain ⟨brackets, rest, allBrackets⟩ := @trimEnd_spec ['<', '>'].contains (d :: middle)
  have done : trimmed (d :: text) = ((d :: middle).reverse.dropWhile ['<', '>'].contains).reverse := by
    rw [trimmed, trimBoth, shape, List.dropWhile_cons_of_neg (by rw [plain]; decide)]
  rw [← done] at rest
  have full : trimmed (d :: text) ≠ [] := by
    intro none
    rw [none, List.nil_append] at rest
    have bad := allBrackets d (by rw [← rest]; exact List.mem_cons_self ..)
    rw [plain] at bad
    cases bad
  obtain ⟨e, more, final⟩ := List.exists_cons_of_ne_nil full
  have same : e = d := by
    rw [final] at rest
    exact (List.cons.inj rest).1.symm
  subst same
  refine ⟨more, brackets ++ spaces, final, ?_, ?_⟩
  · rw [inner, shape, rest, final, List.append_assoc]
  · intro x mem
    rcases List.mem_append.1 mem with bracket | space
    · have which := allBrackets x bracket
      right
      simpa using which
    · exact Or.inl (allSpaces x space)

theorem sanitizeReference_accepted {value target : String} {strip : Bool}
    (accepted : (sanitizeReference value strip {}).1 = some target) :
    target.toList = (if strip = true then stripLinkComponents (trimmed value.toList)
        else trimmed value.toList) ∧ target.toList ≠ [] ∧
      (strip = true → ∀ host, urlAuthority target.toList = some host → '@' ∉ host) := by
  unfold sanitizeReference at accepted
  dsimp only at accepted
  rw [← trimmed] at accepted
  generalize (if strip = true then stripLinkComponents (trimmed value.toList)
    else trimmed value.toList) = text at accepted ⊢
  split_ifs at accepted with credentials empty long secret control
  rw [← Option.some.inj accepted, String.toList_ofList]
  refine ⟨rfl, empty, fun stripped host found => ?_⟩
  rw [stripped, found] at credentials
  simpa using credentials

theorem stripLinkComponents_spec {c : Char} {text : List Char} (head : c ≠ '#') :
    stripLinkComponents (c :: text) <+: c :: text ∧
      ∀ x ∈ stripLinkComponents (c :: text), x ≠ '?' ∧ x ≠ '#' := by
  have other : ¬ (c :: text).head? = some '#' := by simpa using head
  rw [stripLinkComponents, if_neg other]
  refine ⟨List.takeWhile_prefix _, fun x mem => ?_⟩
  have kept := List.mem_takeWhile_imp mem
  simpa using kept

theorem trimStartText_suffix (literal : List Char) (fuel : ℕ) : ∀ text : List Char,
    trimStartText literal fuel text <:+ text := by
  induction fuel with
  | zero => exact fun text => List.suffix_refl text
  | succ fuel ih =>
    intro text
    unfold trimStartText
    cases found : stripPrefix literal text with
    | none => exact List.suffix_refl text
    | some rest =>
      rw [stripPrefix_eq_some.1 found]
      exact (ih rest).trans (List.suffix_append _ _)

theorem afterFirst_skip {first : List Char} (plain : ∀ c ∈ first, c ≠ '/') (rest : List Char) :
    afterFirst "//".toList (first ++ rest) = afterFirst "//".toList rest := by
  induction first with
  | nil => rfl
  | cons c first ih =>
    have here := plain c (List.mem_cons_self ..)
    rw [List.cons_append, afterFirst_of_head (by simpa using here.symm) (by decide)]
    exact ih fun x mem => plain x (List.mem_cons_of_mem _ mem)

theorem afterFirst_single {rest : List Char} (next : rest.head? ≠ some '/') :
    afterFirst "//".toList ('/' :: rest) = afterFirst "//".toList rest := by
  have none : stripPrefix "//".toList ('/' :: rest) = none := by
    cases found : stripPrefix "//".toList ('/' :: rest) with
    | none => rfl
    | some more =>
      have same := List.cons.inj (stripPrefix_eq_some.1 found)
      exact absurd (by rw [same.2]; rfl) next
  rw [afterFirst, none]

theorem repositoryPath_spec {path owner repository : List Char}
    (found : repositoryPath path = some (owner, repository)) :
    ∀ part, part = owner ∨ part = repository →
      part ≠ [] ∧ ∀ c ∈ part, c ≠ '/' ∧ c ≠ '?' ∧ c ≠ '#' := by
  unfold repositoryPath at found
  split at found
  · next first second pieces =>
    have segments : ∀ piece, piece = first ∨ piece = second →
        piece ≠ [] ∧ ∀ c ∈ piece, c ≠ '/' ∧ c ≠ '?' ∧ c ≠ '#' := by
      intro piece which
      have listed : piece ∈ ((path.takeWhile fun c => c != '?' && c != '#').splitOn '/').filter
          (· ≠ []) := by
        rw [pieces]
        rcases which with rfl | rfl
        · exact List.mem_cons_self ..
        · exact List.mem_cons_of_mem _ (List.mem_cons_self ..)
      obtain ⟨inside, nonempty⟩ := List.mem_filter.1 listed
      refine ⟨by simpa using nonempty, fun c mem => ?_⟩
      rw [List.splitOn_eq_splitOnP] at inside
      obtain ⟨there, slash⟩ := mem_splitOnP inside c mem
      have plain := List.mem_takeWhile_imp there
      simp only [Bool.and_eq_true, bne_iff_ne] at plain
      exact ⟨by simpa using slash, plain⟩
    dsimp only at found
    split_ifs at found with empty
    obtain ⟨rfl, rfl⟩ := Prod.mk.inj (Option.some.inj found)
    rintro part (rfl | rfl)
    · exact segments _ (Or.inl rfl)
    · refine ⟨empty, fun c mem => (segments second (Or.inr rfl)).2 c ?_⟩
      have inside := (trimStartText_suffix _ _ _).subset (List.mem_reverse.1 mem)
      exact List.mem_reverse.1 inside
  · cases found

theorem hostedRepositorySlug_stripped {text : List Char} {repository : String}
    (hosted : hostedRepositorySlug text = some repository) : Stripped repository := by
  unfold hostedRepositorySlug at hosted
  split at hosted
  · cases hosted
  · next remainder found =>
    split at hosted
    · cases hosted
    · next hostPart path parts =>
      split_ifs at hosted with known
      obtain ⟨segments, split, rfl⟩ := Option.map_eq_some_iff.1 hosted
      obtain ⟨owned, ownerPlain⟩ := repositoryPath_spec split _ (Or.inl rfl)
      obtain ⟨-, repositoryPlain⟩ := repositoryPath_spec split _ (Or.inr rfl)
      have hostPlain : ∀ c ∈ hostName hostPart, c ≠ '/' ∧ c ≠ '?' ∧ c ≠ '#' := by
        have hosts : (repositoryHosts.all fun host =>
            host.toList.all fun c => c != '/' && c != '?' && c != '#') = true := by decide +kernel
        intro c mem
        have listed : String.ofList (hostName hostPart) ∈ repositoryHosts := by simpa using known
        have plain := List.all_eq_true.1 (List.all_eq_true.1 hosts _ listed) c
          (by rw [String.toList_ofList]; exact mem)
        simpa [and_assoc] using plain
      obtain ⟨c, owner, shape⟩ := List.exists_cons_of_ne_nil owned
      have start : c ≠ '/' := (ownerPlain c (by rw [shape]; exact List.mem_cons_self ..)).1
      have last : segments.2.head? ≠ some '/' :=
        fun begins => (repositoryPlain _ (List.mem_of_head? begins)).1 rfl
      have plain : ∀ x ∈ hostName hostPart ++ '/' :: (segments.1 ++ '/' :: segments.2),
          x ≠ '?' ∧ x ≠ '#' := by
        intro x mem
        simp only [List.mem_append, List.mem_cons] at mem
        rcases mem with host | rfl | inOwner | rfl | inRepository
        · exact (hostPlain x host).2
        · decide
        · exact (ownerPlain x inOwner).2
        · decide
        · exact (repositoryPlain x inRepository).2
      have noSlashes : afterFirst "//".toList
          (hostName hostPart ++ '/' :: (segments.1 ++ '/' :: segments.2)) = none := by
        rw [afterFirst_skip (fun x mem => (hostPlain x mem).1), shape, List.cons_append,
          afterFirst_single (by simpa using start), ← List.cons_append, ← shape,
          afterFirst_skip (fun x mem => (ownerPlain x mem).1), afterFirst_single last,
          ← List.append_nil segments.2, afterFirst_skip fun x mem => (repositoryPlain x mem).1]
        rfl
      unfold Stripped
      rw [String.toList_ofList, authority, noSlashes]
      exact ⟨fun mem => (plain _ mem).1 rfl, fun mem => (plain _ mem).2 rfl, List.not_mem_nil⟩

theorem stripped_of_unnamed {link : String} (scheme : BeginsWithScheme link)
    (unnamed : namedReference link.toList = none) {target : String}
    (kept : linkTarget link = some target) : Stripped target := by
  obtain ⟨name, rest, nonempty, valid, shape⟩ := scheme
  obtain ⟨c, others, begins⟩ := List.exists_cons_of_ne_nil nonempty
  have here := not_of_isSchemeCharacter (valid c (by rw [begins]; exact List.mem_cons_self ..))
  have start : link.toList = c :: (others ++ "://".toList ++ rest) := by
    rw [shape, begins]
    rfl
  obtain ⟨first, tail, cut, whole, -⟩ := @trimmed_spec c (others ++ "://".toList ++ rest)
    here.2.2.2.2.2.2 here.2.2.2.2.1 here.2.2.2.2.2.1
  rw [linkTarget, linked, unnamed, Option.map_map, Option.map_eq_some_iff] at kept
  obtain ⟨value, accepted, same⟩ := kept
  obtain ⟨text, -, safe⟩ := sanitizeReference_accepted accepted
  rw [if_pos rfl, start, cut] at text
  obtain ⟨part, clean⟩ := @stripLinkComponents_spec c first here.2.2.1
  rw [← text] at part clean
  have query : '?' ∉ value.toList := fun mem => (clean _ mem).1 rfl
  have fragment : '#' ∉ value.toList := fun mem => (clean _ mem).2 rfl
  cases hosted : hostedRepositorySlug value.toList with
  | some repository =>
    simp only [Function.comp_apply, hosted, Option.getD_some] at same
    rw [← same]
    exact hostedRepositorySlug_stripped hosted
  | none =>
    simp only [Function.comp_apply, hosted, Option.getD_none] at same
    subst same
    refine ⟨query, fragment, ?_⟩
    have inside : value.toList <+: name ++ "://".toList ++ rest := by
      rw [← shape, start, whole]
      exact part.trans (List.prefix_append _ _)
    rw [authority, afterFirst_scheme valid inside]
    cases found : afterFirst "://".toList value.toList with
    | none => exact List.not_mem_nil
    | some remainder =>
      apply safe rfl
      rw [urlAuthority, found]
      rfl

theorem prefix_shape : ∀ entry ∈ referencePrefixes,
    entry.1.toList = entry.1.toList.dropLast ++ [':'] ∧ ':' ∉ entry.1.toList.dropLast := by
  decide +kernel

theorem namedReference_split {raw target : List Char} {kind : ExplicitReferenceKind}
    (named : namedReference raw = some (kind, target)) :
    ∃ word, ':' ∉ word ∧ raw = word ++ ':' :: target := by
  obtain ⟨entry, listed, found⟩ := List.exists_of_findSome?_eq_some named
  obtain ⟨rest, begins, same⟩ := Option.map_eq_some_iff.1 found
  obtain ⟨shape, free⟩ := prefix_shape entry listed
  refine ⟨entry.1.toList.dropLast, free, ?_⟩
  have text := stripPrefix_eq_some.1 begins
  rw [shape, List.append_assoc] at text
  rw [text, (Prod.mk.injEq .. ▸ same : entry.2 = kind ∧ rest = target).2]
  rfl

theorem afterFirst_slashes {scheme : List Char} (valid : ∀ c ∈ scheme, isSchemeCharacter c = true)
    (rest : List Char) : afterFirst "//".toList (scheme ++ "://".toList ++ rest) = some rest := by
  rw [List.append_assoc, afterFirst_skip fun c mem => (not_of_isSchemeCharacter (valid c mem)).1]
  rfl

theorem mem_takeWhile_append {c : Char} {first tail : List Char} (absent : c ∉ tail) :
    c ∈ (first ++ tail).takeWhile (· != '/') ↔ c ∈ first.takeWhile (· != '/') := by
  induction first with
  | nil =>
    simp only [List.nil_append, List.takeWhile_nil, List.not_mem_nil, iff_false]
    exact fun mem => absent (List.takeWhile_prefix _ |>.subset mem)
  | cons x first ih =>
    rw [List.cons_append, List.takeWhile_cons, List.takeWhile_cons]
    split
    · rw [List.mem_cons, List.mem_cons, ih]
    · exact Iff.rfl

theorem stripped_iff_of_named {link : String} (scheme : BeginsWithScheme link)
    (named : (namedReference link.toList).isSome = true) {target : String}
    (kept : linkTarget link = some target) : Stripped target ↔ Stripped link := by
  obtain ⟨name, rest, nonempty, valid, shape⟩ := scheme
  obtain ⟨entry, found⟩ := Option.isSome_iff_exists.1 named
  obtain ⟨kind, behind⟩ := entry
  obtain ⟨word, free, split⟩ := namedReference_split found
  have colons : ':' ∉ name := fun mem => (not_of_isSchemeCharacter (valid _ mem)).2.1 rfl
  have spelled : link.toList = name ++ ':' :: ('/' :: '/' :: rest) := by
    rw [shape, List.append_assoc]
    rfl
  obtain ⟨-, slashes⟩ := append_cons_inj free colons (split ▸ spelled)
  rw [linkTarget, linked, found] at kept
  simp only [canonical, Option.map_map, Option.map_eq_some_iff, Function.comp_apply] at kept
  obtain ⟨value, accepted, rfl⟩ := kept
  obtain ⟨text, -, -⟩ := sanitizeReference_accepted accepted
  obtain ⟨first, tail, cut, whole, trailing⟩ := @trimmed_spec '/' ('/' :: rest) (by decide) (by decide)
    (by decide)
  rw [if_neg (by decide), String.toList_ofList, slashes, cut] at text
  have other : ∀ c ∈ tail, c ≠ '?' ∧ c ≠ '#' ∧ c ≠ '@' ∧ c ≠ '/' := by
    intro c mem
    rcases trailing c mem with space | rfl | rfl
    · refine ⟨?_, ?_, ?_, ?_⟩
      all_goals
        rintro rfl
        revert space
        decide
    · decide
    · decide
  have second : ∃ more, first = '/' :: more ∧ rest = more ++ tail := by
    cases first with
    | nil =>
      have rest_eq : '/' :: rest = tail := (List.cons.inj whole).2
      have tailed : '/' ∈ tail := by
        rw [← rest_eq]
        exact List.mem_cons_self ..
      exact absurd rfl (other _ tailed).2.2.2
    | cons c more =>
      obtain ⟨same, final⟩ := List.cons.inj (List.cons.inj whole).2
      exact ⟨more, by rw [same], final⟩
  obtain ⟨more, rfl, rfl⟩ := second
  have notIn : ∀ c ∈ name, c ≠ '?' ∧ c ≠ '#' := by
    intro c mem
    have ordinary := not_of_isSchemeCharacter (valid c mem)
    exact ⟨ordinary.2.2.2.1, ordinary.2.2.1⟩
  have ofValue : authority value.toList = more.takeWhile (· != '/') := by
    rw [text]
    rfl
  have ofLink : authority link.toList = (more ++ tail).takeWhile (· != '/') := by
    rw [shape, authority, afterFirst_slashes valid]
  unfold Stripped
  rw [ofValue, ofLink, mem_takeWhile_append fun mem => (other _ mem).2.2.1 rfl, text, spelled]
  have query : '?' ∉ name ∧ '?' ∉ tail := ⟨fun mem => (notIn _ mem).1 rfl, fun mem => (other _ mem).1 rfl⟩
  have fragment : '#' ∉ name ∧ '#' ∉ tail :=
    ⟨fun mem => (notIn _ mem).2 rfl, fun mem => (other _ mem).2.1 rfl⟩
  simp [query, fragment]

end Links

section Retained

/-- A title that is no file name, a status, a heading, an owner, a reference target or a pattern. -/
def Retained (document : DocumentationDocument) (value : String) : Prop :=
  (∃ record ∈ document.records,
      (record.kind ≠ .codeowners ∧ record.title = some value) ∨ record.status = some value ∨
        value ∈ record.headings ∨ value ∈ record.owners ∨
          value ∈ record.references.map ExplicitReference.target) ∨
    ∃ rule ∈ document.ownershipRules, rule.pattern = value ∨ value ∈ rule.owners

def SecretFree (document : DocumentationDocument) : Prop :=
  ∀ value, Retained document value → ¬ Assigns value

def Target (document : DocumentationDocument) (target : String) : Prop :=
  ∃ record ∈ document.records, target ∈ record.references.map ExplicitReference.target

/-- Targets taken from links that begin with a scheme are stripped. -/
def LinksStripped (links : List String) (document : DocumentationDocument) : Prop :=
  ∀ link ∈ links, ∀ target, linkTarget link = some target → Target document target →
    BeginsWithScheme link → Stripped target

/-- Links that a prefix names are stripped already when their targets are kept. -/
def NamedStripped (links targets : List String) : Prop :=
  ∀ link ∈ links, ∀ target ∈ targets, linkTarget link = some target → BeginsWithScheme link →
    (namedReference link.toList).isSome = true → Stripped link

theorem linksStripped_iff {links targets : List String} {document : DocumentationDocument}
    (exactly : ∀ target, Target document target ↔ target ∈ targets) :
    LinksStripped links document ↔ NamedStripped links targets := by
  constructor
  · intro stripped link mem target kept found scheme named
    exact (stripped_iff_of_named scheme named found).1
      (stripped link mem target found ((exactly target).2 kept) scheme)
  · intro stripped link mem target found kept scheme
    cases named : namedReference link.toList with
    | none => exact stripped_of_unnamed scheme named found
    | some entry =>
      have isNamed : (namedReference link.toList).isSome = true := by rw [named]; rfl
      exact (stripped_iff_of_named scheme isNamed found).2
        (stripped link mem target ((exactly target).1 kept) found scheme isNamed)

end Retained

section Markdown

variable (fromYaml : String → Option Value) (parseMarkdown : String → List (Event × ℕ × ℕ))

/-- The mapping of the front matter, when there is one that can be read. -/
def frontMapping (input : List Char) : Mapping :=
  match splitOnce '\n' input with
  | (_, none) => []
  | (first, some rest) =>
    if trim first ≠ "---".toList then []
    else
      match (findClosing [] (splitInclusive rest)).bind fun parts => fromYaml (String.ofList parts.1) with
      | some (.object mapping) => mapping
      | _ => []

def bodyEvents (input : List Char) : List (Event × ℕ × ℕ) :=
  parseMarkdown (String.ofList (input.drop (parseFrontMatter fromYaml input {}).1.bodyStart))

def ownerTexts (listed : List String) : List String :=
  (listed.filterMap fun value => (sanitizeOwner value {}).1).eraseDups.take maxItems

def frontOwners (input : List Char) : List String :=
  ownerTexts (mappingStrings (frontMapping fromYaml input) ["owner", "owners"])

def same (value : String) : Tested := ⟨value, value⟩

def markdownReferences (input : List Char) : List Tested :=
  ((linkTexts (bodyEvents fromYaml parseMarkdown input)).filterMap linked).take maxItems ++
    ((canonicalTexts none input).filterMap canonical).take maxItems

/-- The texts that a Markdown document retains, as they are tested. -/
def markdownTexts (input : List Char) : List Tested :=
  ((mappingString (frontMapping fromYaml input) ["title"]).bind displayed).toList ++
    ((mappingString (frontMapping fromYaml input) ["status"]).bind displayed).toList ++
    ((headingTexts none (bodyEvents fromYaml parseMarkdown input)).filterMap displayed).take maxItems ++
    (frontOwners fromYaml input).map same ++ markdownReferences fromYaml parseMarkdown input

theorem sanitizeOptional_eq (value : Option String) (state : ExtractionState) :
    (sanitizeOptional value state).1 = value.bind shown := by
  cases value with
  | none => rfl
  | some value => exact sanitizeDisplay_eq value state

theorem parseFrontMatter_spec (input : List Char) :
    (parseFrontMatter fromYaml input {}).1.title =
        (mappingString (frontMapping fromYaml input) ["title"]).bind shown ∧
      (parseFrontMatter fromYaml input {}).1.status =
        (mappingString (frontMapping fromYaml input) ["status"]).bind shown ∧
      (parseFrontMatter fromYaml input {}).1.owners = frontOwners fromYaml input := by
  unfold frontOwners frontMapping parseFrontMatter
  cases splitOnce '\n' input with
  | mk first rest =>
    cases rest with
    | none => exact ⟨rfl, rfl, rfl⟩
    | some rest =>
      dsimp only
      by_cases marked : trim first ≠ "---".toList
      · rw [if_pos marked, if_pos marked]
        exact ⟨rfl, rfl, rfl⟩
      · rw [if_neg marked, if_neg marked]
        cases findClosing [] (splitInclusive rest) with
        | none => exact ⟨rfl, rfl, rfl⟩
        | some parts =>
          rw [Option.bind_some]
          dsimp only
          cases fromYaml (String.ofList parts.1) with
          | none => exact ⟨rfl, rfl, rfl⟩
          | some value =>
            cases value with
            | object mapping =>
              exact ⟨sanitizeOptional_eq _ _, sanitizeOptional_eq _ _, pushOwners_eq _ _⟩
            | null => exact ⟨rfl, rfl, rfl⟩
            | bool value => exact ⟨rfl, rfl, rfl⟩
            | number value => exact ⟨rfl, rfl, rfl⟩
            | string value => exact ⟨rfl, rfl, rfl⟩
            | array values => exact ⟨rfl, rfl, rfl⟩

theorem classifyMarkdown_ne (sourcePath : String) (explicit : Option DocumentKind)
    (title : Option String) : classifyMarkdown sourcePath explicit title ≠ .codeowners := by
  have other : classifyByPath sourcePath title ≠ .codeowners := by
    unfold classifyByPath
    dsimp only
    split_ifs <;> simp
  unfold classifyMarkdown
  cases explicit with
  | none => exact other
  | some kind =>
    dsimp only
    split_ifs with named
    · exact other
    · exact fun same => named (Or.inl same)

theorem referencedOwners_spec (references : List ExplicitReference) :
    ∀ (owners : List String) (state : ExtractionState),
      (∀ owner ∈ owners, owner ∈ (referencedOwners references owners state).1) ∧
      ∀ owner ∈ (referencedOwners references owners state).1,
        owner ∈ owners ∨ owner ∈ references.map ExplicitReference.target := by
  induction references with
  | nil => exact fun owners state => ⟨fun owner mem => mem, fun owner mem => Or.inl mem⟩
  | cons reference references ih =>
    intro owners state
    have step : ∀ owner, owner ∈ (pushUniqueBounded owners reference.target state).1 →
        owner ∈ owners ∨ owner = reference.target := by
      intro owner mem
      unfold pushUniqueBounded at mem
      split_ifs at mem
      · exact Or.inl mem
      · exact Or.inl mem
      · simpa using mem
    have grows : ∀ owner ∈ owners, owner ∈ (pushUniqueBounded owners reference.target state).1 := by
      intro owner mem
      unfold pushUniqueBounded
      split_ifs
      · exact mem
      · exact mem
      · exact List.mem_append_left _ mem
    by_cases owner : reference.kind = .owner
    · have unfolded : referencedOwners (reference :: references) owners state =
          referencedOwners references (pushUniqueBounded owners reference.target state).1
            (pushUniqueBounded owners reference.target state).2 := by
        rw [referencedOwners, List.foldl_cons, if_pos owner]
        rfl
      rw [unfolded]
      obtain ⟨kept, origin⟩ := ih (pushUniqueBounded owners reference.target state).1
        (pushUniqueBounded owners reference.target state).2
      refine ⟨fun value mem => kept value (grows value mem), fun value mem => ?_⟩
      rcases origin value mem with before | later
      · rcases step value before with old | rfl
        · exact Or.inl old
        · exact Or.inr (List.mem_cons_self ..)
      · exact Or.inr (List.mem_cons_of_mem _ later)
    · have unfolded : referencedOwners (reference :: references) owners state =
          referencedOwners references owners state := by
        rw [referencedOwners, List.foldl_cons, if_neg owner]
        rfl
      rw [unfolded]
      obtain ⟨kept, origin⟩ := ih owners state
      exact ⟨kept, fun value mem => (origin value mem).imp id (List.mem_cons_of_mem _)⟩

theorem mem_take_filterMap {texts : List String} {tests : String → Option Tested} {value : String} :
    value ∈ (texts.filterMap fun text => (tests text).map Tested.kept).take maxItems ↔
      ∃ tested ∈ (texts.filterMap tests).take maxItems, tested.kept = value := by
  rw [← List.map_filterMap, ← List.map_take, List.mem_map]

variable {fromYaml parseMarkdown} {sourcePath input : String} {document : DocumentationDocument}

/-- What a Markdown document retains, field by field. -/
structure MarkdownRecord (fromYaml : String → Option Value)
    (parseMarkdown : String → List (Event × ℕ × ℕ)) (input : List Char) (record : DocumentRecord) :
    Prop where
  kind : record.kind ≠ .codeowners
  title : ∃ heading, (∀ text, heading = some text → text ∈ record.headings) ∧
    record.title = ((mappingString (frontMapping fromYaml input) ["title"]).bind shown).or heading
  status : record.status = (mappingString (frontMapping fromYaml input) ["status"]).bind shown
  headings : record.headings =
    ((headingTexts none (bodyEvents fromYaml parseMarkdown input)).filterMap shown).take maxItems
  owners : ∀ owner ∈ record.owners, owner ∈ frontOwners fromYaml input ∨
    owner ∈ record.references.map ExplicitReference.target
  frontOwners : ∀ owner ∈ frontOwners fromYaml input, owner ∈ record.owners
  references : ∀ target, target ∈ record.references.map ExplicitReference.target ↔
    target ∈ ((linkTexts (bodyEvents fromYaml parseMarkdown input)).filterMap linkTarget).take maxItems ∨
      target ∈ ((canonicalTexts none input).filterMap canonicalTarget).take maxItems

theorem extractMarkdown_spec
    (accepted : extractMarkdown fromYaml parseMarkdown sourcePath input = .ok document) :
    ∃ record, document.records = [record] ∧ document.ownershipRules = [] ∧
      MarkdownRecord fromYaml parseMarkdown input.toList record := by
  unfold extractMarkdown at accepted
  split at accepted
  · cases accepted
  · obtain ⟨frontTitle, frontStatus, fronted⟩ := parseFrontMatter_spec fromYaml input.toList
    dsimp only at accepted
    rw [← Except.ok.inj accepted]
    refine ⟨_, rfl, rfl, ?_⟩
    obtain ⟨headings, links, titles⟩ := outline_spec input.toList
      (input.toList.drop (parseFrontMatter fromYaml input.toList {}).1.bodyStart)
      (parseFrontMatter fromYaml input.toList {}).1.bodyStart
      (bodyEvents fromYaml parseMarkdown input.toList)
      { state := (parseFrontMatter fromYaml input.toList {}).2 } [] [] rfl rfl (by simp)
    constructor
    · exact classifyMarkdown_ne _ _ _
    · refine ⟨_, titles, ?_⟩
      rw [← frontTitle]
      rfl
    · exact frontStatus
    · exact headings
    · rw [← fronted]
      exact (referencedOwners_spec _ _ _).2
    · rw [← fronted]
      exact (referencedOwners_spec _ _ _).1
    · intro target
      have named := canonicalReferences_targets input.toList input.toList 0 none
        ([], ((bodyEvents fromYaml parseMarkdown input.toList).foldl
          (outlineEvent input.toList
            (input.toList.drop (parseFrontMatter fromYaml input.toList {}).1.bodyStart)
            (parseFrontMatter fromYaml input.toList {}).1.bodyStart)
          { state := (parseFrontMatter fromYaml input.toList {}).2 }).state) [] rfl
      rw [List.nil_append] at links named
      rw [← links, ← named, ← List.mem_append, ← List.map_append, List.mem_map, List.mem_map]
      constructor
      · rintro ⟨reference, mem, rfl⟩
        exact ⟨reference, (mem_sortBy referenceOrder).1 (List.mem_eraseDups.1 mem), rfl⟩
      · rintro ⟨reference, mem, rfl⟩
        exact ⟨reference, List.mem_eraseDups.2 ((mem_sortBy referenceOrder).2 mem), rfl⟩

theorem retain_same {owner : String} (safe : containsSecretValue owner = false) :
    (same owner).retain = owner := retain_of_safe safe

theorem mem_ownerTexts_safe {listed : List String} {owner : String} (mem : owner ∈ ownerTexts listed) :
    containsSecretValue owner = false := by
  have inside := List.mem_eraseDups.1 (List.mem_of_mem_take mem)
  obtain ⟨value, -, accepted⟩ := List.mem_filterMap.1 inside
  exact sanitizeOwner_safe accepted

theorem canonical_safe {value : String} {tested : Tested} (accepted : canonical value = some tested) :
    containsSecretValue tested.text = false := by
  obtain ⟨target, found, rfl⟩ := Option.map_eq_some_iff.1 accepted
  exact sanitizeReference_safe found

theorem mem_take_retain {texts : List String} {tests : String → Option Tested} {value : String} :
    value ∈ (texts.filterMap fun text => (tests text).map Tested.retain).take maxItems ↔
      ∃ tested ∈ (texts.filterMap tests).take maxItems, tested.retain = value := by
  rw [← List.map_filterMap, ← List.map_take, List.mem_map]

theorem mem_markdownReferences (target : String) :
    (∃ tested ∈ markdownReferences fromYaml parseMarkdown input.toList, tested.retain = target) ↔
      target ∈ ((linkTexts (bodyEvents fromYaml parseMarkdown input.toList)).filterMap
          linkTarget).take maxItems ∨
        target ∈ ((canonicalTexts none input.toList).filterMap canonicalTarget).take maxItems := by
  unfold linkTarget canonicalTarget
  rw [mem_take_filterMap, mem_take_filterMap]
  constructor
  · rintro ⟨tested, mem, rfl⟩
    rcases List.mem_append.1 mem with link | named
    · obtain ⟨text, -, accepted⟩ := List.mem_filterMap.1 (List.mem_of_mem_take link)
      exact Or.inl ⟨tested, link, (retain_of_safe (linked_safe accepted)).symm⟩
    · obtain ⟨text, -, accepted⟩ := List.mem_filterMap.1 (List.mem_of_mem_take named)
      exact Or.inr ⟨tested, named, (retain_of_safe (canonical_safe accepted)).symm⟩
  · rintro (⟨tested, link, rfl⟩ | ⟨tested, named, rfl⟩)
    · obtain ⟨text, -, accepted⟩ := List.mem_filterMap.1 (List.mem_of_mem_take link)
      exact ⟨tested, List.mem_append_left _ link, retain_of_safe (linked_safe accepted)⟩
    · obtain ⟨text, -, accepted⟩ := List.mem_filterMap.1 (List.mem_of_mem_take named)
      exact ⟨tested, List.mem_append_right _ named, retain_of_safe (canonical_safe accepted)⟩

theorem shown_iff {value : Option String} {kept : String} :
    value.bind shown = some kept ↔ ∃ tested ∈ (value.bind displayed).toList, tested.retain = kept := by
  cases value with
  | none => simp
  | some value =>
    rw [Option.bind_some, Option.bind_some, shown, Option.map_eq_some_iff]
    simp only [Option.mem_toList]

theorem retained_markdown
    (accepted : extractMarkdown fromYaml parseMarkdown sourcePath input = .ok document) (value : String) :
    Retained document value ↔
      ∃ tested ∈ markdownTexts fromYaml parseMarkdown input.toList, tested.retain = value := by
  obtain ⟨record, records, rules, spec⟩ := extractMarkdown_spec accepted
  obtain ⟨heading, listed, title⟩ := spec.title
  have fields : Retained document value ↔
      ((mappingString (frontMapping fromYaml input.toList) ["title"]).bind shown = some value ∨
        (mappingString (frontMapping fromYaml input.toList) ["status"]).bind shown = some value ∨
        value ∈ record.headings) ∨ value ∈ frontOwners fromYaml input.toList ∨
          value ∈ record.references.map ExplicitReference.target := by
    unfold Retained
    rw [records, rules]
    simp only [List.mem_singleton, exists_eq_left, List.not_mem_nil, false_and, exists_false, or_false]
    rw [title, spec.status]
    constructor
    · rintro (⟨-, named⟩ | status | heading | owner | target)
      · rcases Option.or_eq_some_iff.1 named with front | ⟨-, first⟩
        · exact Or.inl (Or.inl front)
        · exact Or.inl (Or.inr (Or.inr (listed _ first)))
      · exact Or.inl (Or.inr (Or.inl status))
      · exact Or.inl (Or.inr (Or.inr heading))
      · exact Or.inr (spec.owners value owner)
      · exact Or.inr (Or.inr target)
    · rintro ((front | status | heading) | owner | target)
      · exact Or.inl ⟨spec.kind, Option.or_eq_some_iff.2 (Or.inl front)⟩
      · exact Or.inr (Or.inl status)
      · exact Or.inr (Or.inr (Or.inl heading))
      · exact Or.inr (Or.inr (Or.inr (Or.inl (spec.frontOwners value owner))))
      · exact Or.inr (Or.inr (Or.inr (Or.inr target)))
  have headings : value ∈
      ((headingTexts none (bodyEvents fromYaml parseMarkdown input.toList)).filterMap shown).take maxItems ↔
        ∃ tested ∈ ((headingTexts none
          (bodyEvents fromYaml parseMarkdown input.toList)).filterMap displayed).take maxItems,
            tested.retain = value := mem_take_retain
  have owners : value ∈ frontOwners fromYaml input.toList ↔
      ∃ tested ∈ (frontOwners fromYaml input.toList).map same, tested.retain = value := by
    constructor
    · intro mem
      exact ⟨same value, List.mem_map_of_mem mem, retain_same (mem_ownerTexts_safe mem)⟩
    · rintro ⟨tested, mem, rfl⟩
      obtain ⟨owner, listed, rfl⟩ := List.mem_map.1 mem
      rw [retain_same (mem_ownerTexts_safe listed)]
      exact listed
  rw [fields, shown_iff, shown_iff, spec.headings, spec.references, owners,
    ← mem_markdownReferences, headings]
  unfold markdownTexts
  simp only [List.mem_append, or_and_right, exists_or, or_assoc]

theorem target_markdown
    (accepted : extractMarkdown fromYaml parseMarkdown sourcePath input = .ok document)
    (target : String) : Target document target ↔
      target ∈ (markdownReferences fromYaml parseMarkdown input.toList).map Tested.retain := by
  obtain ⟨record, records, -, spec⟩ := extractMarkdown_spec accepted
  rw [List.mem_map, mem_markdownReferences, ← spec.references, Target, records]
  simp only [List.mem_singleton, exists_eq_left]

end Markdown

end CodeSystemGraph.Documents
