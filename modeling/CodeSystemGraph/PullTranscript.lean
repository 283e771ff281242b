import CodeSystemGraph.PullBudget

/-! What a provider call hears. The answers of a run are read back from its turns, each
with the endpoint of its request; a collection is read to its end or a warning is left. -/

namespace CodeSystemGraph.PullRequests
open Model Effects Ordered

variable {Url : Type}

section Log

/-- The answers a part of a call takes, with the endpoints it asks. -/
structure Hears (log : List (Endpoint × Answer)) (s t : World Url) : Prop where
  sent : t.sent.map Prod.fst = s.sent.map Prod.fst ++ log.map Prod.fst
  turns : s.turns.map Turn.answer = log.map Prod.snd ++ t.turns.map Turn.answer

def transcript (turns : List Turn) (world : World Url) : List (Endpoint × Answer) :=
  (world.sent.map Prod.fst).zip (turns.map Turn.answer)

def heard (endpoint : Endpoint) (log : List (Endpoint × Answer)) : List Answer :=
  (log.filter (·.1 = endpoint)).map Prod.snd

def replies (endpoint : Endpoint) (answers : List Answer) : List (Endpoint × Answer) :=
  answers.map (Prod.mk endpoint)

@[simp] theorem heard_append (endpoint : Endpoint) (log log' : List (Endpoint × Answer)) :
    heard endpoint (log ++ log') = heard endpoint log ++ heard endpoint log' := by
  simp [heard]

@[simp] theorem heard_replies (endpoint other : Endpoint) (answers : List Answer) :
    heard endpoint (replies other answers) = if other = endpoint then answers else [] := by
  by_cases same : other = endpoint
  · simp [heard, replies, same, List.filter_map, Function.comp_def]
  · simp [heard, replies, same]

@[simp] theorem heard_nil (endpoint : Endpoint) : heard endpoint [] = [] := rfl

theorem replies_append (endpoint : Endpoint) (answers answers' : List Answer) :
    replies endpoint (answers ++ answers') = replies endpoint answers ++ replies endpoint answers' := by
  simp [replies]

theorem hears_same {s t : World Url} (turns : t.turns = s.turns) (sent : t.sent = s.sent) :
    Hears [] s t := ⟨by simp [sent], by simp [turns]⟩

theorem Hears.append {log log' : List (Endpoint × Answer)} {s t u : World Url} (first : Hears log s t)
    (second : Hears log' t u) : Hears (log ++ log') s u where
  sent := by rw [second.sent, first.sent, List.map_append, List.append_assoc]
  turns := by rw [first.turns, second.turns, List.map_append, List.append_assoc]

theorem transcript_start {turns : List Turn} {log : List (Endpoint × Answer)} {world : World Url}
    (hears : Hears log (World.start turns) world) : transcript turns world = log := by
  have sent : world.sent.map Prod.fst = log.map Prod.fst ++ [] := by
    simpa [World.start] using hears.sent
  have answers : turns.map Turn.answer = log.map Prod.snd ++ world.turns.map Turn.answer := hears.turns
  rw [transcript, sent, answers, List.zip_append (by simp), List.zip_nil_left, List.append_nil,
    List.zip_map', List.map_id']

end Log

section Requests

variable (lib : Libraries Url) (config : PullRequestProviderConfig)

/-- The value and the headers of an answer that the provider call accepts. -/
def page : Answer → Option (Value × List (String × String))
  | .response response =>
    if 200 ≤ response.status ∧ response.status < 300 then
      (lib.fromSlice response.body).toOption.map (·, response.headers)
    else none
  | _ => none

/-- The credentials do not reach what was asked for. -/
def forbids : Answer → Bool
  | .response response => response.status = 401 || response.status = 403
  | _ => false

/-- Answers that only lead on. -/
def Redirected (answers : List Answer) : Prop :=
  ∀ answer ∈ answers, ∃ response, answer = .response response ∧ response.status ∈ redirectStatuses

theorem redirected_pages {answers : List Answer} (redirected : Redirected answers) :
    answers.filterMap (page lib) = [] := by
  refine List.filterMap_eq_nil_iff.mpr fun answer mem => ?_
  obtain ⟨response, rfl, redirect⟩ := redirected answer mem
  have outside : ¬(200 ≤ response.status ∧ response.status < 300) := by
    simp only [redirectStatuses, List.mem_cons, List.not_mem_nil, or_false] at redirect
    omega
  rw [page, if_neg outside]

theorem redirected_forbids {answers : List Answer} (redirected : Redirected answers) :
    answers.any forbids = false := by
  refine List.any_eq_false.mpr fun answer mem => ?_
  obtain ⟨response, rfl, redirect⟩ := redirected answer mem
  simp only [redirectStatuses, List.mem_cons, List.not_mem_nil, or_false] at redirect
  simp only [forbids, Bool.or_eq_true, decide_eq_true_eq]
  omega

variable {lib config}

structure Asks (endpoint : Endpoint) (answers : List Answer) (s t : World Url) : Prop where
  hears : Hears (replies endpoint answers) s t
  quiet : t.warnings = s.warnings

theorem Asks.append {endpoint : Endpoint} {answers answers' : List Answer} {s t u : World Url}
    (first : Asks endpoint answers s t) (second : Asks endpoint answers' t u) :
    Asks endpoint (answers ++ answers') s u where
  hears := replies_append endpoint answers answers' ▸ first.hears.append second.hears
  quiet := second.quiet.trans first.quiet

variable {endpoint : Endpoint} {url : Url} {etag : Option String} {s t : World Url}

theorem sendOnce_ok {response : PrHttpResponse}
    (run : outcome (sendOnce config endpoint url etag) s = (.ok response, t)) :
    Asks endpoint [.response response] s t := by
  rcases sendOnce_cases config endpoint url etag s with
    ⟨e, -, result⟩ | ⟨e, -, result⟩ | ⟨response', answer, -, result⟩
  · rw [result] at run
    cases run
  · rw [result] at run
    cases run
  · rw [result] at run
    cases run
    have turns : s.turns = s.turn :: s.turns.tail := by
      have mem := turns_head answer
      unfold World.turn
      cases turns : s.turns with
      | nil => simp [turns] at mem
      | cons turn rest => rfl
    refine ⟨⟨by simp [answered, asked, replies], ?_⟩, rfl⟩
    rw [turns, List.map_cons, answer]
    rfl

theorem sendOnce_error {e : PullRequestError}
    (run : outcome (sendOnce config endpoint url etag) s = (.error e, t)) : ¬e.IsApi := by
  rcases sendOnce_cases config endpoint url etag s with
    ⟨e', other, result⟩ | ⟨e', other, result⟩ | ⟨response, -, -, result⟩
  · rw [result] at run
    cases run
    exact other
  · rw [result] at run
    cases run
    exact other
  · rw [result] at run
    cases run

theorem ofExcept_eq {α : Type} {result found : Except PullRequestError α} :
    outcome (ofExcept result) s = (found, t) ↔ result = found ∧ s = t := by
  rw [show outcome (ofExcept result) s = (result, s) from rfl, Prod.mk.injEq]

theorem redirectTarget_error {response : PrHttpResponse} {status : Nat} {message : String}
    (refused : redirectTarget lib url response = .error (.api status message)) :
    status = response.status := by
  unfold redirectTarget orMalformed at refused
  split at refused
  · rw [ok_bind] at refused
    split at refused
    · rw [ok_bind] at refused
      split at refused
      · cases refused
      · cases refused
        rfl
    · cases refused
  · cases refused

theorem sendJsonRequest_ok {left : Nat} {response : PrHttpResponse}
    (run : outcome (sendJsonRequest lib config endpoint etag left url) s = (.ok response, t)) :
    ∃ answers, Redirected answers ∧ Asks endpoint (answers ++ [.response response]) s t ∧
      response.status ∉ redirectStatuses := by
  induction left generalizing url s with
  | zero =>
    rw [sendJsonRequest, outcome_bind_eq_ok] at run
    obtain ⟨first, u, once, run⟩ := run
    have asks := sendOnce_ok once
    split at run
    · cases run
    · cases run
      exact ⟨[], fun _ mem => absurd mem List.not_mem_nil, asks, ‹_›⟩
  | succ left ih =>
    rw [sendJsonRequest, outcome_bind_eq_ok] at run
    obtain ⟨first, u, once, run⟩ := run
    have asks := sendOnce_ok once
    split at run
    · rename_i redirect
      rw [outcome_bind_eq_ok] at run
      obtain ⟨target, v, aimed, run⟩ := run
      obtain ⟨-, rfl⟩ := ofExcept_eq.mp aimed
      obtain ⟨answers, redirected, asks', final⟩ := ih run
      refine ⟨.response first :: answers, fun answer mem => ?_, asks.append asks', final⟩
      rcases List.mem_cons.mp mem with rfl | mem
      · exact ⟨first, rfl, redirect⟩
      · exact redirected answer mem
    · cases run
      exact ⟨[], fun _ mem => absurd mem List.not_mem_nil, asks, ‹_›⟩

theorem sendJsonRequest_api {left status : Nat} {message : String}
    (run : outcome (sendJsonRequest lib config endpoint etag left url) s =
      (.error (.api status message), t)) : status ∈ redirectStatuses := by
  induction left generalizing url s with
  | zero =>
    rw [sendJsonRequest, outcome_bind_eq_error] at run
    obtain run | ⟨first, u, once, run⟩ := run
    · exact absurd trivial (sendOnce_error run)
    split at run
    · cases run
      assumption
    · cases run
  | succ left ih =>
    rw [sendJsonRequest, outcome_bind_eq_error] at run
    obtain run | ⟨first, u, once, run⟩ := run
    · exact absurd trivial (sendOnce_error run)
    split at run
    · rename_i redirect
      rw [outcome_bind_eq_error] at run
      obtain refused | ⟨target, v, aimed, run⟩ := run
      · rw [redirectTarget_error (ofExcept_eq.mp refused).1]
        exact redirect
      · exact ih run
    · cases run

theorem getJson_value {value : Value} {etag' : Option String} {headers : List (String × String)}
    (run : outcome (getJson lib config endpoint url etag) s = (.ok (.value value etag' headers), t)) :
    ∃ answers, Asks endpoint answers s t ∧ answers.filterMap (page lib) = [(value, headers)] ∧
      answers.any forbids = false := by
  rw [getJson, outcome_bind_eq_ok] at run
  obtain ⟨response, u, sent, run⟩ := run
  obtain ⟨answers, redirected, asks, -⟩ := sendJsonRequest_ok sent
  split at run
  · cases run
  rw [outcome_bind_eq_ok] at run
  obtain ⟨world, v, get, run⟩ := run
  cases get
  split at run
  · cases run
  split at run
  · cases run
  rename_i accepted
  have accepted := not_not.mp accepted
  split at run
  · cases run
  rename_i value' decoded
  cases run
  refine ⟨answers ++ [.response response], asks, ?_, ?_⟩
  · rw [List.filterMap_append, redirected_pages lib redirected]
    simp [page, accepted, decoded, Except.toOption]
  · rw [List.any_append, redirected_forbids redirected]
    simp only [List.any_cons, List.any_nil, forbids, Bool.or_false, Bool.false_or, Bool.or_eq_false_iff,
      decide_eq_false_iff_not]
    omega

theorem getJson_notModified
    (run : outcome (getJson lib config endpoint url etag) s = (.ok .notModified, t)) :
    ∃ answers, Asks endpoint answers s t ∧ answers.filterMap (page lib) = [] := by
  rw [getJson, outcome_bind_eq_ok] at run
  obtain ⟨response, u, sent, run⟩ := run
  obtain ⟨answers, redirected, asks, -⟩ := sendJsonRequest_ok sent
  split at run
  · rename_i unmodified
    cases run
    refine ⟨answers ++ [.response response], asks, ?_⟩
    rw [List.filterMap_append, redirected_pages lib redirected]
    simp [page, unmodified]
  rw [outcome_bind_eq_ok] at run
  obtain ⟨world, v, get, run⟩ := run
  cases get
  split at run
  · cases run
  split at run
  · cases run
  split at run
  · cases run
  · cases run

theorem getJson_forbidden {status : Nat} {message : String} (forbidden : status = 401 ∨ status = 403)
    (run : outcome (getJson lib config endpoint url etag) s = (.error (.api status message), t)) :
    ∃ answers, Asks endpoint answers s t ∧ answers.any forbids = true := by
  rw [getJson, outcome_bind_eq_error] at run
  obtain run | ⟨response, u, sent, run⟩ := run
  · have redirect := sendJsonRequest_api run
    simp only [redirectStatuses, List.mem_cons, List.not_mem_nil, or_false] at redirect
    omega
  obtain ⟨answers, redirected, asks, -⟩ := sendJsonRequest_ok sent
  split at run
  · cases run
  rw [outcome_bind_eq_error] at run
  obtain run | ⟨world, v, get, run⟩ := run
  · cases run
  cases get
  split at run
  · cases run
  split at run
  · cases run
    refine ⟨answers ++ [.response response], asks, ?_⟩
    rw [List.any_append]
    simp only [List.any_cons, List.any_nil, forbids, Bool.or_false, Bool.or_eq_true, decide_eq_true_eq]
    exact .inr forbidden
  split at run
  · cases run
  · cases run

end Requests
section Pages

variable {lib : Libraries Url} {config : PullRequestProviderConfig} {T : Type}

/-- Results that are never an error of the provider. -/
def Quiet {α : Type} (result : Except PullRequestError α) : Prop := ∀ e, result = .error e → ¬e.IsApi

theorem quiet_ok {α : Type} (a : α) : Quiet (.ok a) := fun e failed => by cases failed

theorem quiet_bind {α β : Type} {result : Except PullRequestError α}
    {next : α → Except PullRequestError β} (first : Quiet result) (second : ∀ a, Quiet (next a)) :
    Quiet (result >>= next) := by
  intro e failed
  rcases bind_eq_error.mp failed with failed | ⟨a, -, failed⟩
  · exact first e failed
  · exact second a e failed

theorem quiet_orMalformed {α : Type} (value : Option α) (message : String) :
    Quiet (orMalformed value message) := by
  intro e failed
  cases value with
  | none =>
    cases failed
    exact id
  | some a => cases failed

variable {endpoint : Endpoint} {parse : Value → Except PullRequestError T} {s t : World Url}

theorem collectItems_ok {items : List Value} {output shown : List T}
    (short : output.length ≤ config.maxItems)
    (run : outcome (collectItems config parse items output) s = (.ok shown, t)) :
    ∃ extra, t = { s with warnings := s.warnings ++ extra } ∧ shown.length ≤ config.maxItems ∧
      (extra = [] ↔ output.length + items.length ≤ config.maxItems) ∧
      (extra = [] → ∃ news, items.mapM parse = .ok news ∧ shown = output ++ news) := by
  induction items generalizing output s with
  | nil =>
    cases run
    exact ⟨[], by simp, short, by simpa using short, fun _ => ⟨[], rfl, by simp⟩⟩
  | cons item items ih =>
    rw [collectItems] at run
    split at run
    · rename_i full
      rw [outcome_bind_eq_ok] at run
      obtain ⟨_, u, warned, run⟩ := run
      cases warned
      cases run
      refine ⟨[limitWarning "items"], rfl, short, ?_, fun none => by cases none⟩
      rw [List.length_cons]
      exact ⟨fun none => (by cases none), fun fits => by omega⟩
    · rename_i room
      rw [outcome_bind_eq_ok] at run
      obtain ⟨parsed, u, reads, run⟩ := run
      obtain ⟨read, rfl⟩ := ofExcept_eq.mp reads
      have short' : (output ++ [parsed]).length ≤ config.maxItems := by
        rw [List.length_append, List.length_singleton]
        omega
      obtain ⟨extra, moved, bounded, kept, all⟩ := ih short' run
      refine ⟨extra, moved, bounded, ?_, fun none => ?_⟩
      · rw [kept, List.length_append, List.length_singleton, List.length_cons]
        omega
      · obtain ⟨news, items', rfl⟩ := all none
        refine ⟨parsed :: news, ?_, by simp⟩
        rw [List.mapM_cons, read, ok_bind, items', ok_bind]
        rfl

theorem collectItems_error (quiet : ∀ item, Quiet (parse item)) {items : List Value} {output : List T}
    {e : PullRequestError}
    (run : outcome (collectItems config parse items output) s = (.error e, t)) : ¬e.IsApi := by
  induction items generalizing output s with
  | nil => cases run
  | cons item items ih =>
    rw [collectItems] at run
    split at run
    · cases run
    · rw [outcome_bind_eq_error] at run
      obtain run | ⟨parsed, u, -, run⟩ := run
      · exact quiet item e (ofExcept_eq.mp run).1
      · exact ih run

/-- What a provider lists on one page and whether it announces another. -/
structure Listing (values : Value → Except PullRequestError (List Value))
    (next : Value → List (String × String) → Except PullRequestError (Option Url))
    (items : Value → List Value) (more : Value × List (String × String) → Bool) : Prop where
  items : ∀ {value found}, values value = .ok found → found = items value
  more : ∀ {value headers following}, next value headers = .ok following →
    following.isSome = more (value, headers)

variable (lib) in
def received (items : Value → List Value) (answers : List Answer) : List Value :=
  (answers.filterMap (page lib)).flatMap fun page => items page.1

variable (lib) in
/-- A page is still to come: the first one, or the one that the last announces. -/
def pending (more : Value × List (String × String) → Bool) (first : Bool) (answers : List Answer) :
    Bool :=
  ((answers.filterMap (page lib)).getLast?.map more).getD first

variable {values : Value → Except PullRequestError (List Value)}
  {next : Value → List (String × String) → Except PullRequestError (Option Url)}
  {items : Value → List Value} {more : Value × List (String × String) → Bool}

theorem pending_append {answers answers' : List Answer} {value : Value}
    {headers : List (String × String)} (only : answers.filterMap (page lib) = [(value, headers)])
    (first : Bool) :
    pending lib more first (answers ++ answers') = pending lib more (more (value, headers)) answers' := by
  rw [pending, pending, List.filterMap_append, only, List.getLast?_append]
  cases (answers'.filterMap (page lib)).getLast? <;> rfl

theorem received_append {answers answers' : List Answer} {value : Value}
    {headers : List (String × String)} (only : answers.filterMap (page lib) = [(value, headers)]) :
    received lib items (answers ++ answers') = items value ++ received lib items answers' := by
  rw [received, List.filterMap_append, only, List.flatMap_append, List.flatMap_singleton]
  rfl

theorem paginated_ok (listing : Listing values next items more) {left : Nat} {url : Option Url}
    {output shown : List T} (short : output.length ≤ config.maxItems)
    (run : outcome (paginated lib config endpoint parse values next left url output) s = (.ok shown, t)) :
    ∃ answers extra, Hears (replies endpoint answers) s t ∧ t.warnings = s.warnings ++ extra ∧
      answers.any forbids = false ∧
      (extra = [] ↔ output.length + (received lib items answers).length ≤ config.maxItems ∧
        pending lib more url.isSome answers = false) ∧
      (extra = [] → ∃ news, (received lib items answers).mapM parse = .ok news ∧
        shown = output ++ news) := by
  have cut : ∀ {url : Url} {s : World Url} {output : List T},
      outcome (warn (limitWarning "pagination") >>= fun _ => pure output) s = (.ok shown, t) →
      ∃ answers extra, Hears (replies endpoint answers) s t ∧ t.warnings = s.warnings ++ extra ∧
        answers.any forbids = false ∧
        (extra = [] ↔ output.length + (received lib items answers).length ≤ config.maxItems ∧
          pending lib more (some url).isSome answers = false) ∧
        (extra = [] → ∃ news, (received lib items answers).mapM parse = .ok news ∧
          shown = output ++ news) := by
    intro url s output run
    rw [outcome_bind_eq_ok] at run
    obtain ⟨_, u, warned, run⟩ := run
    cases warned
    cases run
    refine ⟨[], [limitWarning "pagination"], hears_same rfl rfl, rfl, rfl, ?_, fun none => by cases none⟩
    exact ⟨fun none => (by cases none), fun finished => by cases finished.2⟩
  induction left generalizing url output s with
  | zero =>
    cases url with
    | none =>
      cases run
      refine ⟨[], [], hears_same rfl rfl, by simp, rfl, ?_, fun _ => ⟨[], rfl, by simp⟩⟩
      exact ⟨fun _ => ⟨short, rfl⟩, fun _ => rfl⟩
    | some url => exact cut run
  | succ left ih =>
    cases url with
    | none =>
      cases run
      refine ⟨[], [], hears_same rfl rfl, by simp, rfl, ?_, fun _ => ⟨[], rfl, by simp⟩⟩
      exact ⟨fun _ => ⟨short, rfl⟩, fun _ => rfl⟩
    | some url =>
      rw [paginated] at run
      split at run
      · exact cut run
      rw [outcome_bind_eq_ok] at run
      obtain ⟨response, u, fetched, run⟩ := run
      cases response with
      | notModified => cases run
      | value value etag headers =>
        obtain ⟨answers, asks, only, allowed⟩ := getJson_value fetched
        simp only [outcome_bind_eq_ok, ofExcept_eq] at run
        obtain ⟨found, _, ⟨listed, rfl⟩, output', v, taken, following, _, ⟨announced, rfl⟩, run⟩ := run
        obtain ⟨extra, rfl, short', kept, all⟩ := collectItems_ok short taken
        obtain ⟨answers', extra', hears, warnings, allowed', kept', all'⟩ := ih short' run
        rw [listing.items listed] at kept all
        refine ⟨answers ++ answers', extra ++ extra', ?_, ?_, ?_, ?_, fun none => ?_⟩
        · rw [replies_append]
          exact asks.hears.append ⟨hears.sent, hears.turns⟩
        · rw [warnings, ← asks.quiet, List.append_assoc]
        · rw [List.any_append, allowed, allowed']
          rfl
        · rw [List.append_eq_nil_iff, received_append only, pending_append only, ← listing.more announced, kept,
            List.length_append]
          constructor
          · rintro ⟨fits, none'⟩
            obtain ⟨news, parsed, rfl⟩ := all (kept.mpr fits)
            have counted := length_of_mapM parsed
            obtain ⟨fits', done⟩ := kept'.mp none'
            rw [List.length_append] at fits'
            exact ⟨by omega, done⟩
          · rintro ⟨fits, done⟩
            have fits₁ : output.length + (items value).length ≤ config.maxItems := by omega
            obtain ⟨news, parsed, rfl⟩ := all (kept.mpr fits₁)
            have counted := length_of_mapM parsed
            refine ⟨fits₁, kept'.mpr ⟨?_, done⟩⟩
            rw [List.length_append]
            omega
        · obtain ⟨none₁, none₂⟩ := List.append_eq_nil_iff.mp none
          obtain ⟨news, parsed, rfl⟩ := all none₁
          obtain ⟨news', parsed', rfl⟩ := all' none₂
          refine ⟨news ++ news', ?_, by simp⟩
          rw [received_append only, List.mapM_append, parsed, ok_bind, parsed', ok_bind]
          rfl

theorem paginated_forbidden (quiet : ∀ item, Quiet (parse item)) (quietValues : ∀ value, Quiet (values value))
    (quietNext : ∀ value headers, Quiet (next value headers)) {left status : Nat} {message : String}
    (forbidden : status = 401 ∨ status = 403) {url : Option Url} {output : List T}
    (short : output.length ≤ config.maxItems)
    (run : outcome (paginated lib config endpoint parse values next left url output) s =
      (.error (.api status message), t)) :
    ∃ answers extra, Hears (replies endpoint answers) s t ∧ t.warnings = s.warnings ++ extra ∧
      answers.any forbids = true := by
  have api : ∀ {e : PullRequestError}, e = .api status message → e.IsApi := fun same => same ▸ trivial
  induction left generalizing url output s with
  | zero => cases url <;> cases run
  | succ left ih =>
    cases url with
    | none => cases run
    | some url =>
      rw [paginated] at run
      split at run
      · cases run
      rw [outcome_bind_eq_error] at run
      obtain run | ⟨response, u, fetched, run⟩ := run
      · obtain ⟨answers, asks, refused⟩ := getJson_forbidden forbidden run
        exact ⟨answers, [], asks.hears, by rw [asks.quiet, List.append_nil], refused⟩
      cases response with
      | notModified => cases run
      | value value etag headers =>
        obtain ⟨answers, asks, -, -⟩ := getJson_value fetched
        simp only [outcome_bind_eq_error, ofExcept_eq] at run
        obtain run | ⟨found, _, ⟨listed, rfl⟩, run⟩ := run
        · exact absurd (api rfl) (quietValues value _ run.1)
        obtain run | ⟨output', v, taken, run⟩ := run
        · exact absurd (api rfl) (collectItems_error quiet run)
        obtain run | ⟨following, _, ⟨announced, rfl⟩, run⟩ := run
        · exact absurd (api rfl) (quietNext value headers _ run.1)
        obtain ⟨extra, rfl, short', -⟩ := collectItems_ok short taken
        obtain ⟨answers', extra', hears, warnings, refused⟩ := ih short' run
        refine ⟨answers ++ answers', extra ++ extra', ?_, ?_, ?_⟩
        · rw [replies_append]
          exact asks.hears.append ⟨hears.sent, hears.turns⟩
        · rw [warnings, ← asks.quiet, List.append_assoc]
        · rw [List.any_append, refused, Bool.or_true]

variable (lib config) in
/-- Every page was read, with all its items, and nothing was refused. -/
def Finished (items : Value → List Value) (more : Value × List (String × String) → Bool)
    (answers : List Answer) : Prop :=
  (received lib items answers).length ≤ config.maxItems ∧ pending lib more true answers = false ∧
    answers.any forbids = false

structure Collects (config : PullRequestProviderConfig) (lib : Libraries Url) (endpoint : Endpoint)
    (parse : Value → Except PullRequestError T) (items : Value → List Value)
    (more : Value × List (String × String) → Bool) (answers : List Answer)
    (extra : List PullRequestWarning) (shown : List T) (s t : World Url) : Prop where
  hears : Hears (replies endpoint answers) s t
  warnings : t.warnings = s.warnings ++ extra
  silent : extra = [] ↔ Finished lib config items more answers
  all : extra = [] → (received lib items answers).mapM parse = .ok shown

theorem paginated_collects (listing : Listing values next items more) {left : Nat} {url : Url}
    {shown : List T}
    (run : outcome (paginated lib config endpoint parse values next left (some url) []) s =
      (.ok shown, t)) :
    ∃ answers extra, Collects config lib endpoint parse items more answers extra shown s t := by
  obtain ⟨answers, extra, hears, warnings, allowed, kept, all⟩ :=
    paginated_ok listing (Nat.zero_le _) run
  refine ⟨answers, extra, hears, warnings, ?_, fun none => ?_⟩
  · rw [kept, Finished, List.length_nil, Nat.zero_add, Option.isSome_some]
    exact ⟨fun ⟨fits, done⟩ => ⟨fits, done, allowed⟩, fun ⟨fits, done, _⟩ => ⟨fits, done⟩⟩
  · obtain ⟨news, parsed, rfl⟩ := all none
    exact parsed

end Pages

section Adapters

variable {lib : Libraries Url} {config : PullRequestProviderConfig} {T : Type}

def arrayAt (field : String) (value : Value) : List Value :=
  ((value.get field).bind Value.asArray).getD []

def Adapter.items : Adapter → Endpoint → Value → List Value
  | .gitHub, .metadata, _ => []
  | .gitHub, .checks, value => arrayAt "check_runs" value
  | .gitHub, _, value => value.asArray.getD []
  | .bitbucket, .metadata, value => arrayAt "participants" value
  | .bitbucket, _, value => arrayAt "values" value

def Adapter.more (adapter : Adapter) (endpoint : Endpoint) (page : Value × List (String × String)) :
    Bool :=
  match adapter, endpoint with
  | _, .metadata => false
  | .gitHub, _ => !(((header page.2 "link").map nextLinks).getD []).isEmpty
  | .bitbucket, _ => (optionalString page.1 "next").isSome

theorem orMalformed_eq_ok {α : Type} {value : Option α} {message : String} {a : α} :
    orMalformed value message = .ok a ↔ value = some a := by
  cases value <;> simp [orMalformed]

theorem asArray_of_required {value : Value} {name : String} {found : List Value}
    (read : requiredArray value name = .ok found) : value.asArray = some found :=
  orMalformed_eq_ok.mp read

theorem arrayAt_of_required {value : Value} {field : String} {found : List Value}
    (read : (do requiredArray (← requiredField value field) field) = .ok found) :
    found = arrayAt field value := by
  obtain ⟨inner, named, listed⟩ := bind_eq_ok.mp read
  rw [arrayAt, orMalformed_eq_ok.mp named, Option.bind_some, asArray_of_required listed]
  rfl

theorem githubNext_isSome {headers : List (String × String)} {base : Url} {following : Option Url}
    (read : githubNextUrl lib headers base = .ok following) :
    following.isSome = !(((header headers "link").map nextLinks).getD []).isEmpty := by
  unfold githubNextUrl at read
  cases links : ((header headers "link").map nextLinks).getD [] with
  | nil =>
    rw [links] at read
    cases read
    rfl
  | cons raw rest =>
    simp only [links] at read
    obtain ⟨candidate, -, read⟩ := bind_eq_ok.mp read
    obtain ⟨_, -, read⟩ := bind_eq_ok.mp read
    cases read
    rfl

theorem bitbucketNext_isSome {value : Value} {following : Option Url}
    (read : bitbucketNext lib value = .ok following) :
    following.isSome = (optionalString value "next").isSome := by
  unfold bitbucketNext at read
  cases next : optionalString value "next" with
  | none =>
    rw [next] at read
    cases read
    rfl
  | some text =>
    simp only [next] at read
    obtain ⟨candidate, -, read⟩ := bind_eq_ok.mp read
    cases read
    rfl

variable {endpoint : Endpoint} {parse : Value → Except PullRequestError T} {initial : Url}
  {shown : List T} {s t : World Url}

theorem githubPage_collects (later : endpoint = .files ∨ endpoint = .reviews)
    (run : outcome (githubPaginatedImpl lib config endpoint parse initial none) s = (.ok shown, t)) :
    ∃ answers extra, Collects config lib endpoint parse (Adapter.gitHub.items endpoint)
      (Adapter.gitHub.more endpoint) answers extra shown s t := by
  refine paginated_collects ⟨fun {value found} read => ?_, fun {value headers following} read => ?_⟩ run
  · have listed : value.asArray.getD [] = found := by rw [asArray_of_required read]; rfl
    rcases later with rfl | rfl <;> exact listed.symm
  · obtain ⟨base, -, read⟩ := bind_eq_ok.mp read
    rw [githubNext_isSome read]
    rcases later with rfl | rfl <;> rfl

theorem githubChecks_collects
    (run : outcome (githubPaginatedImpl lib config .checks parse initial (some "check_runs")) s =
      (.ok shown, t)) :
    ∃ answers extra, Collects config lib .checks parse (Adapter.gitHub.items .checks)
      (Adapter.gitHub.more .checks) answers extra shown s t := by
  refine paginated_collects ⟨fun {value found} read => ?_, fun {value headers following} read => ?_⟩ run
  · exact arrayAt_of_required read
  · obtain ⟨base, -, read⟩ := bind_eq_ok.mp read
    rw [githubNext_isSome read]
    rfl

theorem quiet_requiredArray (value : Value) (name : String) : Quiet (requiredArray value name) :=
  quiet_orMalformed _ _

theorem quiet_requiredString (value : Value) (field : String) : Quiet (requiredString value field) :=
  quiet_bind (quiet_orMalformed _ _) fun _ => quiet_orMalformed _ _

theorem quiet_parseBaseUrl (text : String) : Quiet (parseBaseUrl lib.toUrlCrate text) := by
  intro e failed
  unfold parseBaseUrl at failed
  split at failed
  · cases failed
    exact id
  · split at failed
    · cases failed
      exact id
    · cases failed

theorem quiet_validatePaginationOrigin (base candidate : Url) :
    Quiet (validatePaginationOrigin lib.toUrlCrate base candidate) := by
  intro e failed
  unfold validatePaginationOrigin at failed
  split at failed
  · cases failed
    exact id
  · cases failed

theorem quiet_bitbucketNext (value : Value) : Quiet (bitbucketNext lib value) := by
  unfold bitbucketNext
  split
  · exact quiet_ok none
  · exact quiet_bind (quiet_orMalformed _ _) fun candidate => quiet_ok _

theorem quiet_parseBitbucketFile (value : Value) : Quiet (parseBitbucketFile value) :=
  quiet_bind (quiet_requiredString _ _) fun _ => quiet_ok _

theorem quiet_parseBitbucketCheck (value : Value) : Quiet (parseBitbucketCheck value) :=
  quiet_bind (quiet_requiredString _ _) fun _ => quiet_bind (quiet_requiredString _ _) fun _ => quiet_ok _

theorem bitbucketPage_collects (later : endpoint = .files ∨ endpoint = .checks)
    (quiet : ∀ item, Quiet (parse item)) {subject : String}
    (run : outcome (bitbucketOptionalPaginated lib config endpoint parse initial subject) s =
      (.ok shown, t)) :
    ∃ answers extra, Collects config lib endpoint parse (Adapter.bitbucket.items endpoint)
      (Adapter.bitbucket.more endpoint) answers extra shown s t := by
  rcases outcome_tryCatch_eq_ok.mp run with run | ⟨e, u, failed, handled⟩
  · refine paginated_collects ⟨fun {value found} read => ?_, fun {value headers following} read => ?_⟩ run
    · rw [arrayAt_of_required read]
      rcases later with rfl | rfl <;> rfl
    · obtain ⟨next, named, read⟩ := bind_eq_ok.mp read
      have announced : following.isSome = (optionalString value "next").isSome := by
        rw [← bitbucketNext_isSome named]
        cases next with
        | none =>
          cases read
          rfl
        | some candidate =>
          obtain ⟨base, -, read⟩ := bind_eq_ok.mp read
          obtain ⟨_, -, read⟩ := bind_eq_ok.mp read
          cases read
          rfl
      rw [announced]
      rcases later with rfl | rfl <;> rfl
  · cases e with
    | api status message =>
      dsimp only at handled
      split at handled
      · rename_i forbidden
        have refusal := paginated_forbidden quiet
          (fun value => quiet_bind (quiet_orMalformed _ _) fun _ => quiet_requiredArray _ _)
          (fun value headers => quiet_bind (quiet_bitbucketNext value) fun next => by
            cases next with
            | none => exact quiet_ok none
            | some candidate =>
              refine quiet_bind (quiet_parseBaseUrl _) fun base => ?_
              exact quiet_bind (quiet_validatePaginationOrigin _ _) fun _ => quiet_ok _)
          forbidden (Nat.zero_le _) failed
        obtain ⟨answers, extra, hears, warnings, refused⟩ := refusal
        rw [outcome_bind_eq_ok] at handled
        obtain ⟨_, v, warned, returned⟩ := handled
        cases warned
        cases returned
        refine ⟨answers, extra ++ [providerScopeWarning subject], ⟨hears.sent, hears.turns⟩, ?_, ?_, ?_⟩
        · rw [← List.append_assoc, ← warnings]
        · constructor
          · intro none
            exact absurd none (List.append_ne_nil_of_right_ne_nil _ (List.cons_ne_nil _ _))
          · intro ⟨_, _, allowed⟩
            rw [refused] at allowed
            cases allowed
        · intro none
          exact absurd none (List.append_ne_nil_of_right_ne_nil _ (List.cons_ne_nil _ _))
      · cases handled
    | _ => cases handled

end Adapters
end CodeSystemGraph.PullRequests
