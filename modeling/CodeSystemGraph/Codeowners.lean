import CodeSystemGraph.Documents
import Mathlib.Data.List.Induction
import Mathlib.Data.List.Forall2

/-!
CODEOWNERS files. The last line whose pattern matches a path decides who owns
it, so a line that is left out changes what earlier lines mean. The extractor
leaves out lines with a pattern and no owner without saying so.
-/

namespace CodeSystemGraph.Documents

open Text

/-- The loop over the characters of a line: `token` is what is read of the current token. -/
def tokensFrom (tokens : List String) (token : List Char) (afterWhitespace : Bool) :
    List Char → Option (List String × List Char)
  | [] => some (tokens, token)
  | '\\' :: ' ' :: rest => tokensFrom tokens (token ++ [' ']) false rest
  | '\\' :: '\t' :: rest => tokensFrom tokens (token ++ ['\t']) false rest
  | '\\' :: '#' :: rest => tokensFrom tokens (token ++ ['#']) false rest
  | ['\\'] => none
  | c :: rest =>
    if c = '#' ∧ afterWhitespace then some (tokens, token)
    else if c = '\\' then tokensFrom tokens (token ++ ['\\']) false rest
    else if isWhitespace c then
      tokensFrom (if token.isEmpty then tokens else tokens ++ [String.ofList token]) [] true rest
    else tokensFrom tokens (token ++ [c]) false rest

/-- The tokens of a line, none when it ends with an open escape. -/
def lineTokens (line : List Char) : Option (List String) :=
  (tokensFrom [] [] true line).map fun read =>
    if read.2.isEmpty then read.1 else read.1 ++ [String.ofList read.2]

def codeownersTokens (line : List Char) (state : ExtractionState) :
    Option (List String) × ExtractionState :=
  match lineTokens line with
  | none => (none, state.warn "dangling_codeowners_escape_omitted")
  | some tokens => (if 2 ≤ tokens.length then some tokens else none, state)

def validCodeownersPattern (pattern : String) : Bool :=
  pattern ≠ "" && decide (pattern.utf8ByteSize ≤ maxReferenceBytes) &&
    !(pattern.toList.head? = some '!') && !pattern.toList.any isControl &&
    !containsSecretValue pattern

def validOwner (owner : String) : Bool :=
  if owner = "" ∨ maxOwnerBytes < owner.utf8ByteSize ∨ containsSecretValue owner = true then false
  else
    match stripPrefix ['@'] owner.toList with
    | some name =>
      name ≠ [] && !(name.getLast? = some '/') &&
        name.all fun c => isAsciiAlphanumeric c || "-_./".toList.contains c
    | none =>
      match splitOnce '@' owner.toList with
      | (_, none) => false
      | (localPart, some domain) =>
        localPart ≠ [] && domain.contains '.' && !(domain.head? = some '.') &&
          !(domain.getLast? = some '.') &&
          owner.toList.all fun c => isAsciiAlphanumeric c || ".-_+@".toList.contains c

def ruleOwners (listed : List String) (state : ExtractionState) : List String × ExtractionState :=
  listed.foldl (fun collected owner =>
    if validOwner owner then pushUniqueBounded collected.1 owner collected.2
    else (collected.1, collected.2.warn "invalid_codeowners_owner_omitted")) ([], state)

structure Codeowners where
  rules : List OwnershipRule := []
  owners : List String := []
  references : List ExplicitReference := []
  state : ExtractionState := {}

def recordOwner (line : ℕ) (file : Codeowners) (owner : String) : Codeowners :=
  let owners := pushUniqueBounded file.owners owner file.state
  let references := pushReference file.references ⟨.owner, owner, singleLine line⟩ owners.2
  { file with owners := owners.1, references := references.1, state := references.2 }

def codeownersLine (index : ℕ) (line : List Char) (file : Codeowners) : Codeowners :=
  match codeownersTokens line file.state with
  | (some (pattern :: listed), state) =>
    if !validCodeownersPattern pattern then
      { file with state := state.warn "unsupported_codeowners_pattern_omitted" }
    else
      let owners := ruleOwners listed state
      if owners.1.isEmpty then
        { file with state := owners.2.warn "codeowners_rule_without_valid_owner_omitted" }
      else
        let recorded := owners.1.foldl (recordOwner (oneBasedLine index))
          { file with state := owners.2 }
        { recorded with rules := recorded.rules ++ [⟨pattern, owners.1, oneBasedLine index⟩] }
  | (_, state) => { file with state }

def codeownersLines (index : ℕ) (file : Codeowners) : List (List Char) → Codeowners
  | [] => file
  | line :: rest =>
    if maxItems ≤ file.rules.length then
      { file with state := file.state.warn "codeowners_rule_limit_reached" }
    else codeownersLines (index + 1) (codeownersLine index line file) rest

def extractCodeowners (sourcePath input : String) :
    Except DocumentationExtractionError DocumentationDocument :=
  match validateBounds sourcePath input with
  | .error error => .error error
  | .ok () =>
    let file := codeownersLines 0 {} (textLines input.toList)
    .ok {
      records := [{
        sourcePath
        kind := .codeowners
        title := some (fileName sourcePath)
        status := none
        headings := []
        owners := file.owners
        references := file.references
        warnings := file.state.warnings
        incomplete := file.state.incomplete }]
      ownershipRules := file.rules
      warnings := file.state.warnings
      incomplete := file.state.incomplete }

structure OwnershipLine where
  pattern : String
  owners : List String
deriving DecidableEq

def ownershipLine (line : List Char) : Option OwnershipLine :=
  match lineTokens line with
  | some (pattern :: owners) => some ⟨pattern, owners⟩
  | _ => none

def ownershipLines (input : String) : List OwnershipLine :=
  (textLines input.toList).filterMap ownershipLine

def OwnershipLine.owned (line : OwnershipLine) : Bool := !line.owners.isEmpty

def lastMatch {α : Type} (matching : α → Bool) (entries : List α) : Option α :=
  (entries.filter matching).getLast?

/-- The rules give every path the owners that the lines give it. -/
def PreservesOwnership (lines : List OwnershipLine) (rules : List OwnershipRule) : Prop :=
  ∀ (Path : Type) (matching : String → Path → Bool) (path : Path),
    (∀ line, lastMatch (fun line => matching line.pattern path) lines = some line →
      line.owners ≠ [] → ∃ rule, lastMatch (fun rule => matching rule.pattern path) rules =
        some rule ∧ ∀ owner, owner ∈ rule.owners ↔ owner ∈ line.owners) ∧
    ((∀ line, lastMatch (fun line => matching line.pattern path) lines = some line →
      line.owners = []) → ∀ rule ∈ rules, matching rule.pattern path = false)

/-- A line without owner takes nothing from an earlier line, as one of the two patterns comes
again. -/
def Superseded (lines : List OwnershipLine) : Prop :=
  ∀ before line between ownerless after,
    lines = before ++ line :: between ++ ownerless :: after → line.owners ≠ [] →
      ownerless.owners = [] →
        ∃ later ∈ after, later.pattern = line.pattern ∨ later.pattern = ownerless.pattern

theorem superseded_of_owned {lines : List OwnershipLine}
    (owned : ∀ line ∈ lines, line.owners ≠ []) : Superseded lines := by
  intro before line between ownerless after split _ none
  exact absurd none (owned ownerless (by rw [split]; simp))

section LastMatch

variable {α β : Type} {matching : α → Bool} {entries : List α}

theorem lastMatch_eq_some {entry : α} : lastMatch matching entries = some entry ↔
    ∃ before after, entries = before ++ entry :: after ∧ matching entry = true ∧
      ∀ later ∈ after, matching later = false := by
  rw [lastMatch, List.getLast?_eq_some_iff]
  constructor
  · intro found
    obtain ⟨first, concat⟩ := found
    obtain ⟨before, rest, rfl, _, tail⟩ := List.filter_eq_append_iff.1 concat
    obtain ⟨skipped, after, rfl, _, matched, none⟩ := List.filter_eq_cons_iff.1 tail
    refine ⟨before ++ skipped, after, by rw [List.append_assoc], matched, ?_⟩
    intro later mem
    simpa using List.filter_eq_nil_iff.1 none later mem
  · intro split
    obtain ⟨before, after, rfl, matched, none⟩ := split
    refine ⟨before.filter matching, ?_⟩
    have rest : after.filter matching = [] :=
      List.filter_eq_nil_iff.2 fun later mem => by simp [none later mem]
    rw [List.filter_append, List.filter_cons_of_pos matched, rest]

theorem lastMatch_eq_none :
    lastMatch matching entries = none ↔ ∀ entry ∈ entries, matching entry = false := by
  simp [lastMatch]

theorem head?_forall₂ {relation : β → α → Prop} {others : List β} {entries : List α}
    (related : List.Forall₂ relation others entries) :
    Option.Rel relation others.head? entries.head? := by
  cases related with
  | nil => exact Option.Rel.none
  | cons first _ => exact Option.Rel.some first

theorem rel_some {relation : β → α → Prop} {other : Option β} {entry : α}
    (related : Option.Rel relation other (some entry)) :
    ∃ value, other = some value ∧ relation value entry := by
  cases related with
  | some holds => exact ⟨_, rfl, holds⟩

theorem lastMatch_forall₂ {relation : β → α → Prop} {others : List β} {matching' : β → Bool}
    (related : List.Forall₂ relation others entries)
    (same : ∀ other entry, relation other entry → matching' other = matching entry) :
    Option.Rel relation (lastMatch matching' others) (lastMatch matching entries) := by
  have filtered : List.Forall₂ relation (others.filter matching') (entries.filter matching) := by
    apply List.rel_filter _ related
    intro other entry holds
    exact Bool.eq_iff_iff.1 (same other entry holds)
  have reversed := List.forall₂_reverse_iff.2 filtered
  rw [lastMatch, lastMatch, List.getLast?_eq_head?_reverse, List.getLast?_eq_head?_reverse]
  exact head?_forall₂ reversed

theorem exists_of_forall₂ {relation : β → α → Prop} {others : List β} {entries : List α}
    (related : List.Forall₂ relation others entries) {entry : α} (mem : entry ∈ entries) :
    ∃ other ∈ others, relation other entry := by
  induction related with
  | nil => cases mem
  | cons first _ ih =>
    rcases List.mem_cons.1 mem with rfl | later
    · exact ⟨_, List.mem_cons_self, first⟩
    · obtain ⟨other, mem, holds⟩ := ih later
      exact ⟨other, List.mem_cons_of_mem _ mem, holds⟩

end LastMatch

def Says (rule : OwnershipRule) (line : OwnershipLine) : Prop :=
  rule.pattern = line.pattern ∧ ∀ owner, owner ∈ rule.owners ↔ owner ∈ line.owners

section Quiet

theorem pushUniqueBounded_quiet {values : List String} {value : String} {state : ExtractionState}
    (quiet : (pushUniqueBounded values value state).2.incomplete = false) :
    state.incomplete = false ∧
      ∀ other, other ∈ (pushUniqueBounded values value state).1 ↔ other ∈ values ∨ other = value := by
  unfold pushUniqueBounded at quiet ⊢
  split_ifs at quiet ⊢ with known full
  · refine ⟨quiet, fun other => ⟨Or.inl, ?_⟩⟩
    intro cases
    rcases cases with old | rfl
    · exact old
    · exact known
  · cases quiet
  · exact ⟨quiet, fun other => by simp⟩

theorem ruleOwners_quiet {listed : List String} {state : ExtractionState}
    (quiet : (ruleOwners listed state).2.incomplete = false) :
    state.incomplete = false ∧
      ∀ owner, owner ∈ (ruleOwners listed state).1 ↔ owner ∈ listed := by
  induction listed using List.reverseRecOn with
  | nil => exact ⟨quiet, fun owner => Iff.rfl⟩
  | append_singleton listed last ih =>
    have turn : ruleOwners (listed ++ [last]) state = if validOwner last = true then
        pushUniqueBounded (ruleOwners listed state).1 last (ruleOwners listed state).2
        else ((ruleOwners listed state).1,
          (ruleOwners listed state).2.warn "invalid_codeowners_owner_omitted") := by
      rw [ruleOwners, List.foldl_concat]
      rfl
    rw [turn] at quiet ⊢
    split_ifs at quiet ⊢
    · obtain ⟨before, members⟩ := pushUniqueBounded_quiet quiet
      obtain ⟨start, earlier⟩ := ih before
      refine ⟨start, fun owner => ?_⟩
      rw [members, earlier, List.mem_append, List.mem_singleton]
    · cases quiet

theorem recordOwner_quiet {line : ℕ} {owners : List String} {file : Codeowners}
    (quiet : (owners.foldl (recordOwner line) file).state.incomplete = false) :
    file.state.incomplete = false ∧ (owners.foldl (recordOwner line) file).rules = file.rules := by
  induction owners generalizing file with
  | nil => exact ⟨quiet, rfl⟩
  | cons owner owners ih =>
    obtain ⟨quiet, rules⟩ := ih quiet
    refine ⟨?_, rules⟩
    simp only [recordOwner, pushReference] at quiet
    split_ifs at quiet
    · cases quiet
    · exact (pushUniqueBounded_quiet quiet).1

theorem codeownersLine_quiet {index : ℕ} {line : List Char} {file : Codeowners}
    (quiet : (codeownersLine index line file).state.incomplete = false) :
    file.state.incomplete = false ∧ ∃ added : List OwnershipRule,
      (codeownersLine index line file).rules = file.rules ++ added ∧
        List.Forall₂ Says added ((ownershipLine line).toList.filter OwnershipLine.owned) := by
  unfold codeownersLine codeownersTokens at quiet ⊢
  unfold ownershipLine
  cases read : lineTokens line with
  | none =>
    rw [read] at quiet
    cases quiet
  | some tokens =>
    rw [read] at quiet
    dsimp only at quiet ⊢
    cases tokens with
    | nil => exact ⟨quiet, [], (List.append_nil _).symm, List.Forall₂.nil⟩
    | cons pattern listed =>
      cases listed with
      | nil => exact ⟨quiet, [], (List.append_nil _).symm, List.Forall₂.nil⟩
      | cons owner listed =>
        rw [if_pos (by simp)] at quiet ⊢
        dsimp only at quiet ⊢
        split_ifs at quiet ⊢ with unsupported unowned
        · cases quiet
        · cases quiet
        · obtain ⟨recorded, rules⟩ := recordOwner_quiet quiet
          obtain ⟨start, members⟩ := ruleOwners_quiet recorded
          refine ⟨start, [_], by rw [rules], ?_⟩
          exact List.Forall₂.cons ⟨rfl, members⟩ List.Forall₂.nil

theorem codeownersLines_quiet {index : ℕ} {lines : List (List Char)} {file : Codeowners}
    (quiet : (codeownersLines index file lines).state.incomplete = false) :
    file.state.incomplete = false ∧ ∃ added : List OwnershipRule,
      (codeownersLines index file lines).rules = file.rules ++ added ∧
        List.Forall₂ Says added ((lines.filterMap ownershipLine).filter OwnershipLine.owned) := by
  induction lines generalizing index file with
  | nil => exact ⟨quiet, [], (List.append_nil _).symm, List.Forall₂.nil⟩
  | cons line lines ih =>
    rw [codeownersLines] at quiet ⊢
    split_ifs at quiet ⊢
    · cases quiet
    · obtain ⟨before, rest, later, agree⟩ := ih quiet
      obtain ⟨start, added, now, agree'⟩ := codeownersLine_quiet before
      refine ⟨start, added ++ rest, by rw [later, now, List.append_assoc], ?_⟩
      have lists : (line :: lines).filterMap ownershipLine =
          (ownershipLine line).toList ++ lines.filterMap ownershipLine := by
        rw [List.filterMap_cons]
        cases ownershipLine line <;> rfl
      rw [lists, List.filter_append]
      exact List.rel_append agree' agree

end Quiet

theorem preservesOwnership_iff {lines : List OwnershipLine} {rules : List OwnershipRule}
    (agree : List.Forall₂ Says rules (lines.filter OwnershipLine.owned)) :
    PreservesOwnership lines rules ↔ Superseded lines := by
  constructor
  · intro preserves before line between ownerless after split owned none
    by_contra gone
    push Not at gone
    let matching : String → Unit → Bool := fun pattern _ =>
      decide (pattern = line.pattern ∨ pattern = ownerless.pattern)
    have last : lastMatch (fun line => matching line.pattern ()) lines = some ownerless := by
      rw [lastMatch_eq_some]
      refine ⟨before ++ line :: between, after, split, by simp [matching], ?_⟩
      intro later mem
      simp [matching, gone later mem]
    have clear := (preserves Unit matching ()).2 fun found same => by
      rw [last, Option.some.injEq] at same
      rw [← same, none]
    have kept : line ∈ lines.filter OwnershipLine.owned := by
      rw [List.mem_filter, split]
      exact ⟨by simp, by simp [OwnershipLine.owned, owned]⟩
    obtain ⟨rule, mem, stands⟩ := exists_of_forall₂ agree kept
    have matched := clear rule mem
    simp [matching, stands.1] at matched
  · intro superseded Path matching path
    have related := lastMatch_forall₂ agree
      (fun rule line stands => congrArg (matching · path) stands.1)
    constructor
    · intro line last owned
      obtain ⟨before, after, split, matched, none⟩ := lastMatch_eq_some.1 last
      have kept : lastMatch (fun line => matching line.pattern path)
          (lines.filter OwnershipLine.owned) = some line := by
        rw [lastMatch_eq_some]
        refine ⟨before.filter OwnershipLine.owned, after.filter OwnershipLine.owned, ?_, matched,
          fun later mem => none later (List.mem_filter.1 mem).1⟩
        rw [split, List.filter_append, List.filter_cons_of_pos (by simp [OwnershipLine.owned, owned])]
      rw [kept] at related
      obtain ⟨rule, found, stands⟩ := rel_some related
      exact ⟨rule, found, stands.2⟩
    · intro unowned rule mem
      by_contra matched
      obtain ⟨line, kept, stands⟩ := exists_of_forall₂ agree.flip mem
      obtain ⟨listed, owned⟩ := List.mem_filter.1 kept
      have owned' : line.owners ≠ [] := by simpa [OwnershipLine.owned] using owned
      have matches' : matching line.pattern path = true := by
        rw [← stands.1]
        exact eq_true_of_ne_false matched
      cases last : lastMatch (fun line => matching line.pattern path) lines with
      | none => exact Bool.false_ne_true ((lastMatch_eq_none.1 last line listed).symm.trans matches')
      | some ownerless =>
        have none := unowned ownerless last
        obtain ⟨before, after, split, over', clear⟩ := lastMatch_eq_some.1 last
        have first : line ∈ before := by
          rw [split] at listed
          rcases List.mem_append.1 listed with first | rest
          · exact first
          · rcases List.mem_cons.1 rest with same | later
            · exact absurd (same ▸ none) owned'
            · exact absurd ((clear line later).symm.trans matches') Bool.false_ne_true
        obtain ⟨before', between, rfl⟩ := List.append_of_mem first
        obtain ⟨later, mem, again⟩ :=
          superseded before' line between ownerless after split owned' none
        rcases again with same | same
        · exact absurd ((clear later mem).symm.trans (same ▸ matches')) Bool.false_ne_true
        · exact absurd ((clear later mem).symm.trans (same ▸ over')) Bool.false_ne_true

/-- A file that is read completely keeps its ownership exactly when none of its lines without an
owner takes paths away from an earlier line. -/
theorem codeowners_preserves_ownership_iff (sourcePath input : String)
    (document : DocumentationDocument)
    (extracted : extractCodeowners sourcePath input = .ok document)
    (complete : document.incomplete = false) :
    PreservesOwnership (ownershipLines input) document.ownershipRules ↔
      Superseded (ownershipLines input) := by
  apply preservesOwnership_iff
  unfold extractCodeowners at extracted
  split at extracted
  · cases extracted
  · cases extracted
    obtain ⟨_, added, rules, agree⟩ := codeownersLines_quiet complete
    rw [rules]
    exact agree

theorem codeowners_preserves_ownership_iff_example :
    ∃ document, extractCodeowners "CODEOWNERS" "* @team\n/docs/ @docs\n" = .ok document ∧
      PreservesOwnership (ownershipLines "* @team\n/docs/ @docs\n") document.ownershipRules := by
  refine ⟨_, rfl, ?_⟩
  apply (codeowners_preserves_ownership_iff "CODEOWNERS" "* @team\n/docs/ @docs\n" _ rfl
    (by decide +kernel)).2
  apply superseded_of_owned
  decide +kernel

theorem codeowners_drops_ownerless_line :
    ∃ document, extractCodeowners "CODEOWNERS" "* @team\n/generated/\n" = .ok document ∧
      document.incomplete = false ∧
        ¬PreservesOwnership (ownershipLines "* @team\n/generated/\n")
          document.ownershipRules := by
  refine ⟨_, rfl, by decide +kernel, ?_⟩
  intro preserves
  have last : lastMatch (fun _ => true) (ownershipLines "* @team\n/generated/\n") =
      some ⟨"/generated/", []⟩ := by decide +kernel
  have clear := (preserves Unit (fun _ _ => true) ()).2 fun line same => by
    rw [last, Option.some.injEq] at same
    rw [← same]
  have unmatched : true = false := clear ⟨"*", ["@team"], 1⟩ (by decide +kernel)
  cases unmatched

end CodeSystemGraph.Documents
