import CodeSystemGraph.Effects
import CodeSystemGraph.PullProviders
import CodeSystemGraph.Replace

/-! What the text of an error says about the token. A message is a template with the token
at some of its places; two tokens are compared in it. -/

namespace CodeSystemGraph.PullRequests
open Replace Model Effects

section Templates

abbrev Template := List (Option Char)

variable (token : List Char)

def instantiate (template : Template) : List Char :=
  template.flatMap fun piece => piece.elim token ([·])

def messageOf (template : Template) (token : String) : String :=
  String.ofList (instantiate token.toList template)

/-- Where the tokens begin, in a message whose first character stands at `start`. -/
def positions (length : ℕ) : ℕ → Template → List ℕ
  | _, [] => []
  | start, some _ :: rest => positions length (start + 1) rest
  | start, none :: rest => start :: positions length (start + length) rest

/-- The token occurs in the message at the positions of the template only. -/
def OccursOnly (template : Template) : Prop :=
  token ≠ [] → ∀ i < (instantiate token template).length,
    token <+: (instantiate token template).drop i → i ∈ positions token.length 0 template

instance (template : Template) : Decidable (OccursOnly token template) :=
  inferInstanceAs (Decidable (_ → _))

@[simp] theorem instantiate_nil : instantiate token [] = [] := rfl

@[simp] theorem instantiate_some (c : Char) (rest : Template) :
    instantiate token (some c :: rest) = c :: instantiate token rest := rfl

@[simp] theorem instantiate_none (rest : Template) :
    instantiate token (none :: rest) = token ++ instantiate token rest := rfl

variable {token}

theorem le_of_mem_positions {length start position : ℕ} {template : Template}
    (mem : position ∈ positions length start template) : start ≤ position := by
  induction template generalizing start with
  | nil => simp [positions] at mem
  | cons piece rest ih =>
    cases piece with
    | some c => exact (Nat.le_succ start).trans (ih mem)
    | none =>
      rcases List.mem_cons.mp mem with rfl | mem
      · exact Nat.le_refl _
      · exact (Nat.le_add_right _ _).trans (ih mem)

theorem OccursOnly.unbounded {template : Template} (only : OccursOnly token template)
    (some : token ≠ []) (i : ℕ) (found : token <+: (instantiate token template).drop i) :
    i ∈ positions token.length 0 template := by
  refine only some i ?_ found
  have le := found.length_le
  have length := List.length_pos_iff.mpr some
  rw [List.length_drop] at le
  omega

end Templates

section Cut

/-- What is left of a message after the cut and the redaction: a token that the cut goes
through keeps its first characters. -/
def visible (token : List Char) : ℕ → Template → List Char
  | _, [] => []
  | n, some c :: rest => if n = 0 then [] else c :: visible token (n - 1) rest
  | n, none :: rest =>
    if token.length ≤ n then redacted.toList ++ visible token (n - token.length) rest
    else token.take n

variable {token first second : List Char}

theorem replaceAll_instantiate (nonempty : token ≠ []) (template : Template) (start n : ℕ)
    (only : ∀ i, token <+: (instantiate token template).drop i →
      start + i ∈ positions token.length start template) :
    replaceAll token redacted.toList ((instantiate token template).take n) =
      visible token n template := by
  induction template generalizing start n with
  | nil => simp [visible]
  | cons piece rest ih =>
    cases piece with
    | some c =>
      have absent : ¬token <+: c :: instantiate token rest := by
        intro found
        have late : start + 1 ≤ start := le_of_mem_positions (only 0 found)
        omega
      rw [visible, instantiate_some]
      split_ifs with zero
      · simp [zero]
      · obtain ⟨n, rfl⟩ := Nat.exists_eq_succ_of_ne_zero zero
        rw [List.take_succ_cons, replaceAll_other]
        · rw [ih (start + 1)]
          · rfl
          · intro i found
            rw [Nat.add_right_comm, Nat.add_assoc]
            exact only (i + 1) found
        · intro found
          have longer := List.take_prefix (n + 1) (c :: instantiate token rest)
          exact absent (found.trans longer)
    | none =>
      rw [visible, instantiate_none]
      split_ifs with whole
      · rw [List.take_append, List.take_of_length_le whole, replaceAll_pattern _ nonempty,
          ih (start + token.length)]
        intro i found
        have mem := only (token.length + i) (by simpa using found)
        have length := List.length_pos_iff.mpr nonempty
        rcases List.mem_cons.mp mem with same | mem
        · omega
        · rwa [Nat.add_assoc]
      · rw [List.take_append_of_le_length (by omega), replaceAll_short]
        rw [List.length_take]
        omega

theorem visible_eq_iff (length : first.length = second.length) (template : Template) (start n : ℕ) :
    visible first n template = visible second n template ↔
      ∀ position ∈ positions first.length start template, position < start + n →
        start + n < position + first.length →
          first.take (start + n - position) = second.take (start + n - position) := by
  induction template generalizing start n with
  | nil => simp [visible, positions]
  | cons piece rest ih =>
    cases piece with
    | some c =>
      rw [visible, visible, positions]
      split_ifs with zero
      · have vacuous : ∀ position ∈ positions first.length (start + 1) rest,
            ¬position < start + n := by
          intro position mem
          have le := le_of_mem_positions mem
          omega
        exact iff_of_true rfl fun position mem before => absurd before (vacuous position mem)
      · have shift : start + 1 + (n - 1) = start + n := by omega
        rw [List.cons_inj_right, ih (start + 1), shift]
    | none =>
      rw [visible, visible, positions, ← length, List.forall_mem_cons]
      split_ifs with whole
      · have shift : start + first.length + (n - first.length) = start + n := by omega
        rw [List.append_cancel_left_eq, ih (start + first.length), shift]
        refine (and_iff_right ?_).symm
        intro _ cut
        omega
      · have later : ∀ position ∈ positions first.length (start + first.length) rest,
            ¬position < start + n := by
          intro position mem
          have le := le_of_mem_positions mem
          omega
        have rest_holds : ∀ position ∈ positions first.length (start + first.length) rest,
            position < start + n → start + n < position + first.length →
              first.take (start + n - position) = second.take (start + n - position) :=
          fun position mem before => absurd before (later position mem)
        rw [and_iff_left rest_holds, Nat.add_sub_cancel_left]
        refine ⟨fun same _ _ => same, fun same => ?_⟩
        rcases Nat.eq_zero_or_pos n with rfl | pos
        · simp
        · exact same (by omega) (by omega)

end Cut

section Errors

variable {Url : Type} (lib : Libraries Url) (config : PullRequestProviderConfig)

def withToken (token : String) : PullRequestProviderConfig := { config with authToken := token }

def carriedMessage (body : Bytes) : Option String :=
  match lib.fromSlice body with
  | .error _ => none
  | .ok value =>
    (optionalString value "message").or ((value.get "error").bind (optionalString · "message"))

def failing (world : World Url) (message : String) : World Url :=
  { world with turns := ⟨false, .failed message⟩ :: world.turns }

structure RevealsNothing (template : Template) (first second : String) : Prop where
  redacted : redactMessage (messageOf template first) first =
    redactMessage (messageOf template second) second
  provider : ∀ {Url : Type} (lib : Libraries Url) (config : PullRequestProviderConfig)
    (body body' : Bytes), carriedMessage lib body = some (messageOf template first) →
      carriedMessage lib body' = some (messageOf template second) →
        apiErrorMessage lib (withToken config first) body =
          apiErrorMessage lib (withToken config second) body'
  transport : ∀ {Url : Type} (config : PullRequestProviderConfig) (endpoint : Endpoint) (url : Url)
    (etag : Option String) (world : World Url),
      ((sendOnce (withToken config first) endpoint url etag).run.run
        (failing world (messageOf template first))).1 =
      ((sendOnce (withToken config second) endpoint url etag).run.run
        (failing world (messageOf template second))).1

theorem apiErrorMessage_carried {body : Bytes} {message : String}
    (carried : carriedMessage lib body = some message) :
    apiErrorMessage lib config body = redactMessage message config.authToken := by
  change redactMessage ((carriedMessage lib body).getD _) _ = _
  rw [carried, Option.getD_some]

theorem sendOnce_failing (endpoint : Endpoint) (url : Url) (etag : Option String)
    (world : World Url) (message : String) :
    ((sendOnce config endpoint url etag).run.run (failing world message)).1 =
      .error (if config.maxOutputBytes - world.outputBytes = 0 then .outputLimitExceeded
        else .transport (redactMessage message config.authToken)) := by
  change (outcome _ _).1 = _
  simp only [sendOnce, outcome_bind, outcome_get]
  have uncancelled : ¬(failing world message).turn.cancelledBefore = true := Bool.false_ne_true
  have bytes : (failing world message).outputBytes = world.outputBytes := rfl
  rw [if_neg uncancelled, bytes]
  by_cases spent : config.maxOutputBytes - world.outputBytes = 0
  · rw [if_pos spent, if_pos spent]
    rfl
  · rw [if_neg spent, if_neg spent, outcome_bind, outcome_set]
    rfl

variable {template : Template} {first second : String}

theorem revealsNothing_iff_redacted :
    RevealsNothing template first second ↔
      redactMessage (messageOf template first) first =
        redactMessage (messageOf template second) second := by
  refine ⟨RevealsNothing.redacted, fun same => ⟨same, ?_, ?_⟩⟩
  · intro Url lib config body body' carried carried'
    rw [apiErrorMessage_carried lib _ carried, apiErrorMessage_carried lib _ carried']
    exact same
  · intro Url config endpoint url etag world
    rw [sendOnce_failing, sendOnce_failing]
    simp only [withToken, same]
    rfl

theorem toList_redactMessage {token : String} (nonempty : token ≠ "")
    (only : OccursOnly token.toList template) :
    (redactMessage (messageOf template token) token).toList =
      visible token.toList 512 template := by
  have some : token.toList ≠ [] := by simpa using nonempty
  have unset : token.isEmpty = false := by simpa using nonempty
  rw [redactMessage, unset, if_neg Bool.false_ne_true, toList_replace nonempty, messageOf,
    String.toList_ofList, String.toList_ofList]
  refine replaceAll_instantiate some template 0 512 fun i found => ?_
  rw [Nat.zero_add]
  exact only.unbounded some i found

theorem redacted_eq_iff (length : first.toList.length = second.toList.length)
    (onlyFirst : OccursOnly first.toList template) (onlySecond : OccursOnly second.toList template) :
    redactMessage (messageOf template first) first =
        redactMessage (messageOf template second) second ↔
      ∀ position ∈ positions first.toList.length 0 template, position < 512 →
        512 < position + first.toList.length →
          first.toList.take (512 - position) = second.toList.take (512 - position) := by
  by_cases empty : first = ""
  · have other : second = "" := by simpa [empty] using length.symm
    subst empty other
    refine iff_of_true rfl fun position _ before after => ?_
    simp
  · have other : second ≠ "" := by
      rintro rfl
      exact empty (by simpa using length)
    rw [← String.toList_inj, toList_redactMessage empty onlyFirst,
      toList_redactMessage other onlySecond, visible_eq_iff length template 0 512, Nat.zero_add]

theorem error_text_hides_token (length : first.toList.length = second.toList.length)
    (onlyFirst : OccursOnly first.toList template) (onlySecond : OccursOnly second.toList template) :
    RevealsNothing template first second ↔
      ∀ position ∈ positions first.toList.length 0 template, position < 512 →
        512 < position + first.toList.length →
          first.toList.take (512 - position) = second.toList.take (512 - position) :=
  revealsNothing_iff_redacted.trans (redacted_eq_iff length onlyFirst onlySecond)

/-- A message in which the token stands at the end, before the cut. -/
def invalidToken : Template := "invalid token ".toList.map some ++ [none]

theorem error_text_hides_token_short :
    RevealsNothing invalidToken "secret" "hidden" := by
  refine (error_text_hides_token (by decide) (by decide) (by decide)).mpr ?_
  decide

def longRequest : Template := List.replicate 509 (some 'a') ++ [none]

theorem cut_reveals_token :
    ¬∀ (template : Template) (first second : String), first.toList.length = second.toList.length →
      OccursOnly first.toList template → OccursOnly second.toList template →
        RevealsNothing template first second := by
  intro all
  have same := (all longRequest "secret" "hidden" (by decide) (by decide +kernel)
    (by decide +kernel)).redacted
  rw [redacted_eq_iff (by decide) (by decide +kernel) (by decide +kernel)] at same
  have cut := same 509 (by decide +kernel) (by decide) (by decide)
  exact absurd cut (by decide)

end Errors

end CodeSystemGraph.PullRequests
