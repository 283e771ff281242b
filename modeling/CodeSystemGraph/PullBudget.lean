import CodeSystemGraph.Effects
import CodeSystemGraph.PullProviders

/-! What a provider call may send and accept, whatever the transport answers. Every
request goes to the configured origin as long as no redirect is followed to a `blob:`
URL, whose origin is that of the URL inside it. -/

namespace CodeSystemGraph.PullRequests
open Model Effects Ordered

variable {Url : Type} (lib : Libraries Url) (config : PullRequestProviderConfig)

section Relation

def place (url : Url) : String × Option String × Option Nat :=
  (lib.scheme url, lib.hostStr url, lib.portOrKnownDefault url)

/-- What the URL standard says of the operations in use: the path and the query do not
change the place of a URL, an opaque path excludes a host, and a tuple origin is the
place of the URL except for blobs, whose path is opaque. -/
structure UrlStandard : Prop where
  extendPath : ∀ {url url' segments}, lib.extendPath url segments = some url' →
    place lib url' = place lib url
  appendPairs : ∀ url pairs, place lib (lib.appendPairs url pairs) = place lib url
  opaqueHost : ∀ {url}, lib.cannotBeABase url = true → lib.hostStr url = none
  origin : ∀ {url origin}, lib.origin url = some origin →
    origin = place lib url ∨ lib.scheme url = "blob" ∧ lib.cannotBeABase url = true

variable (safe : Turn → Prop) (good : Url → Prop)

def SafeWorld (world : World Url) : Prop := ∀ turn ∈ world.turns, safe turn

structure Spends (n : Endpoint → Nat) (s t : World Url) : Prop where
  turns : t.turns ⊆ s.turns
  adds : ∃ requests lengths, t.sent = s.sent ++ requests ∧ t.accepted = s.accepted ++ lengths ∧
    t.outputBytes = s.outputBytes + lengths.sum ∧ (∀ request ∈ requests, good request.2.url) ∧
    ∀ endpoint, requests.countP (·.1 = endpoint) ≤ n endpoint
  bytes : s.outputBytes ≤ config.maxOutputBytes → t.outputBytes ≤ config.maxOutputBytes

theorem spends_same {n : Endpoint → Nat} {s t : World Url} (turns : t.turns = s.turns)
    (sent : t.sent = s.sent) (accepted : t.accepted = s.accepted)
    (bytes : t.outputBytes = s.outputBytes) : Spends config good n s t where
  turns := turns ▸ List.Subset.refl _
  adds := ⟨[], [], by simp [sent, accepted, bytes]⟩
  bytes := fun within => bytes ▸ within

theorem graded_spends : Graded (SafeWorld safe) (Spends config good) where
  refl g s := spends_same config good rfl rfl rfl rfl
  trans := by
    intro g h s t u first second
    obtain ⟨requests, lengths, sent, accepted, output, fine, counts⟩ := first.adds
    obtain ⟨requests', lengths', sent', accepted', output', fine', counts'⟩ := second.adds
    refine ⟨fun turn mem => first.turns (second.turns mem),
      ⟨requests ++ requests', lengths ++ lengths', ?_⟩, fun within => second.bytes (first.bytes within)⟩
    refine ⟨by rw [sent', sent, List.append_assoc], by rw [accepted', accepted, List.append_assoc],
      by rw [output', output, List.sum_append, Nat.add_assoc], fun request mem => ?_, fun endpoint => ?_⟩
    · exact (List.mem_append.mp mem).elim (fine request) (fine' request)
    · rw [List.countP_append]
      exact Nat.add_le_add (counts endpoint) (counts' endpoint)
  keeps := fun safeWorld spends turn mem => safeWorld turn (spends.turns mem)

def only (endpoint : Endpoint) (n : Nat) : Endpoint → Nat := fun other => if other = endpoint then n else 0

theorem only_add (endpoint : Endpoint) (n k : Nat) :
    only endpoint n + only endpoint k = only endpoint (n + k) := by
  funext other
  by_cases same : other = endpoint <;> simp [only, same]

end Relation

section Send

variable {lib config} {safe : Turn → Prop} {good : Url → Prop}

abbrev Keeps (config : PullRequestProviderConfig) (safe : Turn → Prop) (good : Url → Prop) {α : Type}
    (n : Endpoint → Nat) (post : α → Prop) (call : Call Url α) : Prop :=
  Does (SafeWorld safe) (Spends config good) n post call

theorem keeps_ofExcept {α : Type} {n : Endpoint → Nat} {post : α → Prop}
    {result : Except PullRequestError α} (holds : ∀ a, result = .ok a → post a) :
    Keeps config safe good n post (ofExcept result : Call Url α) := by
  intro s _
  exact ⟨(graded_spends config safe good).refl n s, holds⟩

theorem keeps_warn {n : Endpoint → Nat} (warning : PullRequestWarning) :
    Keeps config safe good n (fun _ => True) (warn warning : Call Url Unit) := by
  intro s _
  exact ⟨spends_same config good rfl rfl rfl rfl, fun _ _ => trivial⟩

theorem keeps_then {α β : Type} {n : Endpoint → Nat} {post : α → Prop} {post' : β → Prop}
    {call : Call Url α} {next : α → Call Url β} (first : Keeps config safe good 0 post call)
    (second : ∀ a, post a → Keeps config safe good n post' (next a)) :
    Keeps config safe good n post' (call >>= next) := by
  rw [← zero_add n]
  exact does_bind (graded_spends config safe good) first second

theorem turns_head {world : World Url} {response : PrHttpResponse}
    (answer : world.turn.answer = .response response) : world.turn ∈ world.turns := by
  unfold World.turn at answer ⊢
  cases turns : world.turns with
  | nil => simp [turns] at answer
  | cons turn rest => exact List.mem_cons_self

/-- The state after a request is handed to the transport. -/
def asked (config : PullRequestProviderConfig) (endpoint : Endpoint) (url : Url) (etag : Option String)
    (world : World Url) : World Url :=
  { world with
    turns := world.turns.tail
    sent := world.sent ++ [(endpoint, transportRequest config url etag
      (config.maxOutputBytes - world.outputBytes))] }

/-- The state after a body within the budget is accepted. -/
def answered (response : PrHttpResponse) (world : World Url) : World Url :=
  { world with
    outputBytes := world.outputBytes + response.body.length
    accepted := world.accepted ++ [response.body.length]
    rateLimit := rateLimitFromHeaders response.headers }

/-- An error of the provider, not of the transport. -/
def PullRequestError.IsApi : PullRequestError → Prop
  | .api _ _ => True
  | _ => False

variable (config) in
theorem sendOnce_cases (endpoint : Endpoint) (url : Url) (etag : Option String) (s : World Url) :
    (∃ e, ¬e.IsApi ∧ outcome (sendOnce config endpoint url etag) s = (.error e, s)) ∨
    (∃ e, ¬e.IsApi ∧
      outcome (sendOnce config endpoint url etag) s = (.error e, asked config endpoint url etag s)) ∨
    ∃ response, s.turn.answer = .response response ∧
      response.body.length ≤ config.maxOutputBytes - s.outputBytes ∧
      outcome (sendOnce config endpoint url etag) s =
        (.ok response, answered response (asked config endpoint url etag s)) := by
  simp only [sendOnce, outcome_bind, outcome_get]
  by_cases cancelled : s.turn.cancelledBefore = true
  · rw [if_pos cancelled]
    exact .inl ⟨_, id, rfl⟩
  rw [if_neg cancelled]
  by_cases spent : config.maxOutputBytes - s.outputBytes = 0
  · rw [if_pos spent]
    exact .inl ⟨_, id, rfl⟩
  rw [if_neg spent, outcome_bind, outcome_set]
  right
  cases answer : s.turn.answer with
  | cancelled => exact .inl ⟨_, id, rfl⟩
  | timedOut => exact .inl ⟨_, id, rfl⟩
  | failed message => exact .inl ⟨_, id, rfl⟩
  | response response =>
    by_cases long : config.maxOutputBytes - s.outputBytes < response.body.length
    · simp only [if_pos long]
      exact .inl ⟨_, id, rfl⟩
    · simp only [if_neg long]
      exact .inr ⟨response, rfl, Nat.le_of_not_lt long, rfl⟩

theorem spends_asked {endpoint : Endpoint} {url : Url} {etag : Option String} (fine : good url)
    (s : World Url) : Spends config good (only endpoint 1) s (asked config endpoint url etag s) where
  turns := fun _ mem => List.mem_of_mem_tail mem
  adds := by
    refine ⟨[_], [], rfl, by simp [asked], by simp [asked], ?_, fun other => ?_⟩
    · intro request mem
      rw [List.mem_singleton.mp mem]
      exact fine
    · by_cases same : other = endpoint <;> simp [only, same, eq_comm]
  bytes := id

theorem spends_answered {response : PrHttpResponse} {s : World Url}
    (short : response.body.length ≤ config.maxOutputBytes - s.outputBytes) :
    Spends config good 0 s (answered response s) where
  turns := List.Subset.refl _
  adds := ⟨[], [response.body.length], by simp [answered]⟩
  bytes := by
    intro within
    simp only [answered]
    omega

theorem keeps_sendOnce {endpoint : Endpoint} {url : Url} {etag : Option String} (fine : good url) :
    Keeps config safe good (only endpoint 1)
      (fun response => ∃ turn, safe turn ∧ turn.answer = .response response)
      (sendOnce config endpoint url etag) := by
  intro s safeWorld
  have graded := graded_spends config safe good
  rcases sendOnce_cases config endpoint url etag s with
    ⟨e, -, result⟩ | ⟨e, -, result⟩ | ⟨response, answer, short, result⟩
  · rw [result]
    refine ⟨graded.refl _ s, fun a ok => ?_⟩
    cases ok
  · rw [result]
    refine ⟨spends_asked fine s, fun a ok => ?_⟩
    cases ok
  · rw [result]
    refine ⟨?_, fun a ok => ?_⟩
    · exact graded.trans (spends_asked fine s) (spends_answered short)
    · cases ok
      exact ⟨s.turn, safeWorld s.turn (turns_head answer), answer⟩

/-- A redirect that a safe turn asks for leads from a good URL to a good one. -/
def SafeRedirects (lib : Libraries Url) (safe : Turn → Prop) (good : Url → Prop) : Prop :=
  ∀ {turn response url redirected}, safe turn → turn.answer = .response response → good url →
    response.status ∈ redirectStatuses → redirectTarget lib url response = .ok redirected →
    good redirected

theorem keeps_sendJsonRequest (redirects : SafeRedirects lib safe good) {endpoint : Endpoint}
    {etag : Option String} (left : Nat) {url : Url} (fine : good url) :
    Keeps config safe good (only endpoint (left + 1)) (fun _ => True)
      (sendJsonRequest lib config endpoint etag left url) := by
  have graded := @graded_spends Url config safe good
  induction left generalizing url with
  | zero =>
    rw [sendJsonRequest]
    refine does_bind (h := 0) graded (keeps_sendOnce fine) fun response _ => ?_
    by_cases redirect : response.status ∈ redirectStatuses
    · rw [if_pos redirect]
      exact does_throw graded _
    · rw [if_neg redirect]
      exact does_pure graded trivial
  | succ left ih =>
    rw [sendJsonRequest, Nat.add_comm, ← only_add]
    refine does_bind graded (keeps_sendOnce fine) fun response ⟨turn, safeTurn, answer⟩ => ?_
    by_cases redirect : response.status ∈ redirectStatuses
    · rw [if_pos redirect]
      have target : Keeps config safe good 0 good (ofExcept (redirectTarget lib url response)) :=
        keeps_ofExcept fun redirected target => redirects safeTurn answer fine redirect target
      exact keeps_then target fun redirected fine' => ih fine'
    · rw [if_neg redirect]
      exact does_pure graded trivial

theorem keeps_getJson (redirects : SafeRedirects lib safe good) {endpoint : Endpoint} {url : Url}
    {etag : Option String} (fine : good url) :
    Keeps config safe good (only endpoint 4) (fun _ => True) (getJson lib config endpoint url etag) := by
  have graded := @graded_spends Url config safe good
  refine does_bind (h := 0) graded (keeps_sendJsonRequest redirects 3 fine) fun response _ => ?_
  by_cases unmodified : response.status = 304
  · rw [if_pos unmodified]
    exact does_pure graded trivial
  rw [if_neg unmodified]
  refine keeps_then (does_get graded) fun world _ => ?_
  split
  · exact does_throw graded _
  split
  · exact does_throw graded _
  split
  · exact does_throw graded _
  · exact does_pure graded trivial

end Send

section Pages

variable {lib config} {safe : Turn → Prop} {good : Url → Prop} {T : Type}

theorem keeps_collectItems (parse : Value → Except PullRequestError T) (items : List Value)
    {output : List T} (short : output.length ≤ config.maxItems) :
    Keeps config safe good 0 (fun output : List T => output.length ≤ config.maxItems)
      (collectItems config parse items output : Call Url (List T)) := by
  have graded := @graded_spends Url config safe good
  induction items generalizing output with
  | nil => exact does_pure graded short
  | cons item items ih =>
    rw [collectItems]
    by_cases full : config.maxItems ≤ output.length
    · rw [if_pos full]
      exact keeps_then (keeps_warn _) fun _ _ => does_pure graded short
    · rw [if_neg full]
      have parsed : Keeps config safe good 0 (fun _ => True) (ofExcept (parse item) : Call Url T) :=
        keeps_ofExcept fun _ _ => trivial
      refine keeps_then parsed fun a _ => ih ?_
      rw [List.length_append, List.length_singleton]
      omega

variable {endpoint : Endpoint} {parse : Value → Except PullRequestError T}
  {values : Value → Except PullRequestError (List Value)}
  {next : Value → List (String × String) → Except PullRequestError (Option Url)}

theorem keeps_paginated (redirects : SafeRedirects lib safe good)
    (pages : ∀ value headers url, next value headers = .ok (some url) → good url) (left : Nat)
    {url : Option Url} (fine : ∀ u ∈ url, good u) {output : List T}
    (short : output.length ≤ config.maxItems) :
    Keeps config safe good (only endpoint (4 * left)) (fun output : List T => output.length ≤ config.maxItems)
      (paginated lib config endpoint parse values next left url output) := by
  have graded := @graded_spends Url config safe good
  induction left generalizing url output with
  | zero =>
    cases url with
    | none => exact does_pure graded short
    | some url =>
      rw [paginated]
      exact keeps_then (keeps_warn _) fun _ _ => does_pure graded short
  | succ left ih =>
    cases url with
    | none => exact does_pure graded short
    | some url =>
      rw [paginated]
      by_cases full : config.maxItems ≤ output.length
      · rw [if_pos full]
        exact keeps_then (keeps_warn _) fun _ _ => does_pure graded short
      · rw [if_neg full, Nat.mul_succ, Nat.add_comm, ← only_add]
        refine does_bind graded (keeps_getJson redirects (fine url rfl)) fun response _ => ?_
        cases response with
        | notModified => exact does_throw graded _
        | value value etag headers =>
          have listed : Keeps config safe good 0 (fun _ => True)
            (ofExcept (values value) : Call Url (List Value)) := keeps_ofExcept fun _ _ => trivial
          have following : Keeps config safe good 0 (fun url => ∀ u ∈ url, good u)
              (ofExcept (next value headers)) := by
            refine keeps_ofExcept fun url result u mem => ?_
            rw [Option.mem_def.mp mem] at result
            exact pages value headers u result
          refine keeps_then listed fun items _ => ?_
          refine keeps_then (keeps_collectItems parse items short) fun output short => ?_
          exact keeps_then following fun url fine => ih fine short

end Pages

section Providers

variable {lib config} {safe : Turn → Prop} {good : Url → Prop}

structure Guarded (lib : Libraries Url) (config : PullRequestProviderConfig) (safe : Turn → Prop)
    (good : Url → Prop) : Prop where
  redirects : SafeRedirects lib safe good
  initial : ∀ {segments url}, providerUrl lib config segments = .ok url → good url
  queries : ∀ {url} pairs, good url → good (lib.appendPairs url pairs)
  pages : ∀ {base candidate}, parseBaseUrl lib.toUrlCrate config.apiBaseUrl = .ok base →
    validatePaginationOrigin lib.toUrlCrate base candidate = .ok () → good candidate

abbrev Short (config : PullRequestProviderConfig) {T : Type} (items : List T) : Prop :=
  items.length ≤ config.maxItems

theorem keeps_providerUrl (guarded : Guarded lib config safe good) (segments : List String) :
    Keeps config safe good 0 good (ofExcept (providerUrl lib config segments)) :=
  keeps_ofExcept fun _ result => guarded.initial result

theorem githubNextUrl_pages {headers : List (String × String)} {base url : Url}
    (result : githubNextUrl lib headers base = .ok (some url)) :
    validatePaginationOrigin lib.toUrlCrate base url = .ok () := by
  unfold githubNextUrl at result
  split at result
  · cases result
  · simp only [bind_eq_ok, Except.ok.injEq, Option.some.injEq] at result
    obtain ⟨candidate, -, _, valid, rfl⟩ := result
    exact valid

theorem keeps_githubPaginatedImpl (guarded : Guarded lib config safe good) {T : Type}
    {endpoint : Endpoint} {parse : Value → Except PullRequestError T} {initial : Url}
    (fine : good initial) (key : Option String) :
    Keeps config safe good (only endpoint (4 * config.maxPages)) (Short config)
      (githubPaginatedImpl lib config endpoint parse initial key) := by
  refine keeps_paginated guarded.redirects (fun value headers url result => ?_) config.maxPages
    (fun u mem => ?_) (Nat.zero_le _)
  · obtain ⟨base, parsed, result⟩ := bind_eq_ok.mp result
    exact guarded.pages parsed (githubNextUrl_pages result)
  · cases mem
    exact fine

theorem keeps_bitbucketPaginated (guarded : Guarded lib config safe good) {T : Type}
    {endpoint : Endpoint} {parse : Value → Except PullRequestError T} {initial : Url}
    (fine : good initial) :
    Keeps config safe good (only endpoint (4 * config.maxPages)) (Short config)
      (bitbucketPaginated lib config endpoint parse initial) := by
  refine keeps_paginated guarded.redirects (fun value headers url result => ?_) config.maxPages
    (fun u mem => ?_) (Nat.zero_le _)
  · obtain ⟨next, -, result⟩ := bind_eq_ok.mp result
    cases next with
    | none => cases result
    | some candidate =>
      simp only [bind_eq_ok, Except.ok.injEq, Option.some.injEq] at result
      obtain ⟨base, parsed, _, valid, rfl⟩ := result
      exact guarded.pages parsed valid
  · cases mem
    exact fine

theorem keeps_bitbucketOptionalPaginated (guarded : Guarded lib config safe good) {T : Type}
    {endpoint : Endpoint} {parse : Value → Except PullRequestError T} {initial : Url}
    (fine : good initial) (subject : String) :
    Keeps config safe good (only endpoint (4 * config.maxPages)) (Short config)
      (bitbucketOptionalPaginated lib config endpoint parse initial subject) := by
  have graded := @graded_spends Url config safe good
  rw [← add_zero (only endpoint (4 * config.maxPages))]
  refine does_tryCatch graded (keeps_bitbucketPaginated guarded fine) fun error => ?_
  split
  · split
    · exact keeps_then (keeps_warn _) fun _ _ => does_pure graded (Nat.zero_le _)
    · exact does_throw graded _
  · exact does_throw graded _

/-- The lists of an inspection are within the bound on items. -/
structure Bounded (config : PullRequestProviderConfig) (files : List PullRequestChangedFile)
    (checks : List PullRequestCheck) (reviews : List PullRequestReview) : Prop where
  files : Short config files
  checks : Short config checks
  reviews : Short config reviews

def BoundedCollections (config : PullRequestProviderConfig) (collections : Collections) : Prop :=
  Bounded config collections.files collections.checks collections.review.reviews

/-- The requests that one inspection may send after the metadata. -/
def collectSpend (config : PullRequestProviderConfig) : Endpoint → Nat :=
  only .files (4 * config.maxPages) + (only .checks (4 * config.maxPages) +
    only .reviews (4 * config.maxPages))

theorem keeps_githubCollect (guarded : Guarded lib config safe good)
    (coordinates : PullRequestCoordinates) (value : Value) :
    Keeps config safe good (collectSpend config) (BoundedCollections config)
      (githubCollect lib config coordinates value) := by
  have graded := @graded_spends Url config safe good
  have parsed : Keeps config safe good 0 (fun _ => True)
      (ofExcept (parseGithubMetadata value) : Call Url _) := keeps_ofExcept fun _ _ => trivial
  have files : Keeps config safe good (only .files (4 * config.maxPages)) (Short config)
      (githubFiles lib config coordinates) :=
    keeps_then (keeps_providerUrl guarded _) fun url fine => keeps_githubPaginatedImpl guarded fine none
  have checks : ∀ sha, Keeps config safe good (only .checks (4 * config.maxPages)) (Short config)
      (githubChecks lib config coordinates sha) := fun sha =>
    keeps_then (keeps_providerUrl guarded _) fun url fine => keeps_githubPaginatedImpl guarded fine _
  have reviews : Keeps config safe good (only .reviews (4 * config.maxPages)) (Short config)
      (githubReviews lib config coordinates) :=
    keeps_then (keeps_providerUrl guarded _) fun url fine => keeps_githubPaginatedImpl guarded fine none
  refine keeps_then parsed fun metadata _ => does_bind graded files fun files shortFiles => ?_
  refine does_bind graded (checks metadata.head.sha) fun checks shortChecks => ?_
  rw [← add_zero (only Endpoint.reviews _)]
  refine does_bind graded reviews fun reviews shortReviews => does_pure graded ?_
  exact ⟨shortFiles, shortChecks, shortReviews⟩

theorem length_of_mapM {α β : Type} {parse : α → Except PullRequestError β} {l : List α}
    {l' : List β} (result : l.mapM parse = .ok l') : l'.length = l.length := by
  induction l generalizing l' with
  | nil =>
    cases result
    rfl
  | cons a l ih =>
    rw [List.mapM_cons] at result
    obtain ⟨b, -, result⟩ := bind_eq_ok.mp result
    obtain ⟨rest, mapped, result⟩ := bind_eq_ok.mp result
    cases result
    rw [List.length_cons, List.length_cons, ih mapped]

theorem parseBitbucketReviews_short {value : Value} {summary : PullRequestReviewSummary}
    (result : parseBitbucketReviews value config.maxItems = .ok summary) :
    Short config summary.reviews := by
  unfold parseBitbucketReviews at result
  split at result
  · cases result
    exact Nat.zero_le _
  · simp only [bind_eq_ok, Except.ok.injEq] at result
    obtain ⟨participants, -, parsed, mapped, rfl⟩ := result
    rw [Short, List.length_map, length_of_mapM mapped]
    exact List.length_take_le _ _

theorem keeps_bitbucketCollect (guarded : Guarded lib config safe good)
    (coordinates : PullRequestCoordinates) (value : Value) :
    Keeps config safe good (collectSpend config) (BoundedCollections config)
      (bitbucketCollect lib config coordinates value) := by
  have graded := @graded_spends Url config safe good
  have parsed : Keeps config safe good 0 (fun _ => True)
      (ofExcept (parseBitbucketMetadata value) : Call Url _) := keeps_ofExcept fun _ _ => trivial
  have review : Keeps config safe good 0 (fun summary => Short config summary.reviews)
      (ofExcept (parseBitbucketReviews value config.maxItems) : Call Url _) :=
    keeps_ofExcept fun summary result => parseBitbucketReviews_short result
  refine keeps_then parsed fun metadata _ => keeps_then (keeps_providerUrl guarded _) fun url fine => ?_
  refine does_bind graded (keeps_bitbucketOptionalPaginated guarded fine _) fun files shortFiles => ?_
  refine keeps_then (keeps_providerUrl guarded _) fun url fine => ?_
  refine does_bind graded (keeps_bitbucketOptionalPaginated guarded fine _) fun checks shortChecks => ?_
  refine keeps_then review fun summary shortReviews => does_pure graded ?_
  exact ⟨shortFiles, shortChecks, shortReviews⟩

variable {digest : PullRequestMetadata → List PullRequestChangedFile → Except PullRequestError String}

def BoundedInspection (config : PullRequestProviderConfig) (inspection : PullRequestInspection) : Prop :=
  Bounded config inspection.changedFiles inspection.ci.checks inspection.review.reviews

def BoundedCache (config : PullRequestProviderConfig) (cache : Cache) : Prop :=
  ∀ entry ∈ cache, BoundedInspection config entry.2.inspection

theorem boundedCache_store {cache : Cache} (bounded : BoundedCache config cache) (now : Nat)
    (coordinates : PullRequestCoordinates) {inspection : PullRequestInspection}
    (holds : BoundedInspection config inspection) (etag : Option String) :
    BoundedCache config (storeCache config cache now coordinates inspection etag) := by
  intro entry mem
  rcases List.mem_cons.mp mem with rfl | old
  · exact holds
  · exact bounded entry (List.mem_of_mem_filter old)

theorem boundedInspection_lookup {cache : Cache} (bounded : BoundedCache config cache) {key : CacheKey}
    {entry : CacheEntry} (found : cache.lookup key = some entry) :
    BoundedInspection config entry.inspection :=
  bounded (key, entry) (mem_of_lookup found)

/-- The postcondition of an inspection: its lists and the cache stay bounded. -/
def InspectPost (config : PullRequestProviderConfig) (result : PullRequestInspection × Cache) : Prop :=
  BoundedInspection config result.1 ∧ BoundedCache config result.2

theorem keeps_inspect (guarded : Guarded lib config safe good) (expected : PullRequestProviderKind)
    (segments : PullRequestCoordinates → List String)
    {collect : PullRequestCoordinates → Value → Call Url Collections}
    (collects : ∀ coordinates value, Keeps config safe good (collectSpend config)
      (BoundedCollections config) (collect coordinates value))
    {cache : Cache} (bounded : BoundedCache config cache) (now storedAt : Nat)
    (request : PullRequestInspectRequest) :
    Keeps config safe good (only .metadata 4 + collectSpend config) (InspectPost config)
      (inspect lib config digest expected segments collect cache now storedAt request) := by
  have graded := @graded_spends Url config safe good
  have authorized : Keeps config safe good 0 (fun _ => True)
      (ofExcept (authorize config request expected) : Call Url Unit) :=
    keeps_ofExcept fun _ _ => trivial
  refine keeps_then authorized fun _ _ => ?_
  cases fresh : freshCache cache now request.coordinates with
  | some cached =>
    refine does_pure graded ⟨?_, bounded⟩
    simp only [freshCache, Option.map_eq_some_iff, Option.filter_eq_some_iff] at fresh
    obtain ⟨entry, ⟨found, -⟩, rfl⟩ := fresh
    exact boundedInspection_lookup bounded found
  | none =>
    refine keeps_then (keeps_providerUrl guarded _) fun url fine => ?_
    refine does_bind graded (keeps_getJson guarded.redirects fine) fun fetched _ => ?_
    cases fetched with
    | notModified =>
      cases stale : cache.lookup (cacheKey request.coordinates) with
      | none => exact does_throw graded _
      | some entry =>
        have held := boundedInspection_lookup bounded stale
        exact does_pure graded ⟨held, boundedCache_store bounded storedAt _ held _⟩
    | value value etag headers =>
      have fingerprint : ∀ collections : Collections, Keeps config safe good 0 (fun _ => True)
          (ofExcept (digest collections.metadata collections.files) : Call Url String) := fun _ =>
        keeps_ofExcept fun _ _ => trivial
      rw [← add_zero (collectSpend config)]
      refine does_bind graded (collects request.coordinates value) fun collections held => ?_
      refine keeps_then (fingerprint collections) fun print _ => ?_
      refine keeps_then (does_get graded) fun world _ => does_pure graded ?_
      refine ⟨held, boundedCache_store bounded storedAt _ ?_ _⟩
      exact held

theorem keeps_list (guarded : Guarded lib config safe good) (contract : ListContract Url)
    (request : PullRequestListRequest) :
    Keeps config safe good (only .list 4) (fun page => Short config page.items)
      (list lib config contract request) := by
  have graded := @graded_spends Url config safe good
  have plain : ∀ {α : Type} (result : Except PullRequestError α),
      Keeps config safe good 0 (fun a => result = .ok a) (ofExcept result : Call Url α) := fun result =>
    keeps_ofExcept fun _ holds => holds
  refine keeps_then (plain _) fun _ _ => keeps_then (keeps_providerUrl guarded _) fun url fine => ?_
  rw [← add_zero (only Endpoint.list 4)]
  refine does_bind graded (keeps_getJson guarded.redirects (guarded.queries _ fine)) fun fetched _ => ?_
  cases fetched with
  | notModified => exact does_throw graded _
  | value value etag headers =>
    refine keeps_then (plain _) fun values _ => ?_
    split
    · exact does_throw graded _
    · next within =>
      refine keeps_then (plain _) fun items parsed => keeps_then (plain _) fun base _ => ?_
      refine keeps_then (plain _) fun next _ => keeps_then (plain _) fun cursor _ => ?_
      refine keeps_then (does_get graded) fun world _ => does_pure graded ?_
      have sorted := (sortBy_perm (fun summary : PullRequestSummary => summary.coordinates.number)
        items).length_eq
      simp only [Short, listPage, sorted, length_of_mapM parsed]
      omega

end Providers

section Guards

variable {lib config}

/-- No redirect is followed from the base's place to a blob. -/
def Safe (lib : Libraries Url) (base : Url) (turn : Turn) : Prop :=
  ∀ response, turn.answer = .response response → response.status ∈ redirectStatuses →
    ∀ url redirected, place lib url = place lib base →
      redirectTarget lib url response = .ok redirected → lib.scheme redirected ≠ "blob"

theorem parseBaseUrl_host {text : String} {base : Url}
    (parsed : parseBaseUrl lib.toUrlCrate text = .ok base) : lib.hostStr base ≠ none := by
  unfold parseBaseUrl at parsed
  split at parsed
  · cases parsed
  · split at parsed
    · cases parsed
    · next rejected =>
      cases parsed
      intro missing
      simp [missing] at rejected

theorem redirectTarget_origin {url redirected : Url} {response : PrHttpResponse}
    (result : redirectTarget lib url response = .ok redirected) :
    lib.sameOrigin redirected url = true := by
  unfold redirectTarget at result
  simp only [bind_eq_ok] at result
  obtain ⟨location, -, other, -, result⟩ := result
  split at result
  · next same =>
    cases result
    exact same
  · cases result

theorem guarded_place (standard : UrlStandard lib) {base : Url}
    (parsed : parseBaseUrl lib.toUrlCrate config.apiBaseUrl = .ok base) :
    Guarded lib config (Safe lib base) (fun url => place lib url = place lib base) where
  redirects := by
    intro turn response url redirected safe answer fine redirect target
    have blob := safe response answer redirect url redirected fine target
    have same := redirectTarget_origin target
    have host : lib.hostStr url ≠ none := by
      rw [show lib.hostStr url = lib.hostStr base from congrArg (·.2.1) fine]
      exact parseBaseUrl_host parsed
    unfold UrlCrate.sameOrigin at same
    split at same
    · next origin origin' found found' =>
      have equal : origin = origin' := by simpa using same
      have here : origin' = place lib url :=
        (standard.origin found').resolve_right fun held => host (standard.opaqueHost held.2)
      have there : origin = place lib redirected :=
        (standard.origin found).resolve_right fun held => blob held.1
      rw [← there, equal, here, fine]
    · cases same
  initial := by
    intro segments url result
    unfold providerUrl at result
    rw [parsed, ok_bind] at result
    split at result
    · next found =>
      cases result
      exact standard.extendPath found
    · cases result
  queries := fun pairs fine => (standard.appendPairs _ pairs).trans fine
  pages := by
    intro other candidate parsed' valid
    rw [parsed] at parsed'
    cases parsed'
    unfold validatePaginationOrigin at valid
    split at valid
    · cases valid
    · next same =>
      simp only [Bool.or_eq_true, decide_eq_true_eq, not_or, not_not] at same
      rw [place, place, same.1.1, same.1.2, same.2]

variable (lib config) in
theorem guarded_any : Guarded lib config (fun _ => True) (fun _ => True) where
  redirects := fun _ _ _ _ _ => trivial
  initial := fun _ => trivial
  queries := fun _ _ => trivial
  pages := fun _ _ => trivial

end Guards

section Visits

variable {lib config} {digest : PullRequestMetadata → List PullRequestChangedFile →
  Except PullRequestError String}

def Reply.Short (config : PullRequestProviderConfig) : Reply → Prop
  | .inspection held => BoundedInspection config held
  | .page held => PullRequests.Short config held.items

/-- What a visit spends, whatever the transport answers. -/
structure Budgeted (config : PullRequestProviderConfig) (visit : Visit) (outcome : Outcome Url) :
    Prop where
  consent : outcome.world.sent ≠ [] → config.enabled = true ∧ visit.request.consent = true
  bytes : outcome.world.accepted.sum ≤ config.maxOutputBytes
  items : ∀ reply, outcome.reply = .ok reply → reply.Short config
  requests : ∀ endpoint, outcome.world.sent.countP (·.1 = endpoint) ≤ config.maxPages * 4

def visitSpend (config : PullRequestProviderConfig) : ProviderRequest → Endpoint → Nat
  | .inspect _ => only .metadata 4 + collectSpend config
  | .list _ => only .list 4

theorem visitSpend_le (pages : config.maxPages ≠ 0) (request : ProviderRequest) (endpoint : Endpoint) :
    visitSpend config request endpoint ≤ config.maxPages * 4 := by
  cases request <;> cases endpoint <;> simp [visitSpend, collectSpend, only] <;> omega

variable {safe : Turn → Prop} {good : Url → Prop}

variable (digest) in
theorem keeps_adapterInspect (guarded : Guarded lib config safe good) (adapter : Adapter)
    {cache : Cache} (bounded : BoundedCache config cache) (now storedAt : Nat)
    (request : PullRequestInspectRequest) :
    Keeps config safe good (only .metadata 4 + collectSpend config) (InspectPost config)
      (adapter.inspect lib config digest cache now storedAt request) := by
  cases adapter with
  | gitHub => exact keeps_inspect guarded _ _ (keeps_githubCollect guarded) bounded now storedAt request
  | bitbucket =>
    exact keeps_inspect guarded _ _ (keeps_bitbucketCollect guarded) bounded now storedAt request

theorem keeps_adapterList (guarded : Guarded lib config safe good) (adapter : Adapter)
    (request : PullRequestListRequest) :
    Keeps config safe good (only .list 4) (fun page => Short config page.items)
      (adapter.list lib config request) := by
  cases adapter with
  | gitHub => exact keeps_list guarded _ request
  | bitbucket => exact keeps_list guarded _ request

variable (digest) in
theorem spends_visit (guarded : Guarded lib config safe good) (adapter : Adapter) {cache : Cache}
    (bounded : BoundedCache config cache) (next : Visit) (safeTurns : ∀ turn ∈ next.turns, safe turn) :
    let outcome := visit lib config digest adapter cache next
    Spends config good (visitSpend config next.request) (World.start next.turns) outcome.world ∧
      BoundedCache config outcome.cache ∧
      ∀ reply, outcome.reply = .ok reply → reply.Short config := by
  obtain ⟨request, turns, now, storedAt⟩ := next
  cases request with
  | inspect request =>
    have does := keeps_adapterInspect digest guarded adapter bounded now storedAt request
      (World.start turns) safeTurns
    unfold outcome at does
    cases result : (adapter.inspect lib config digest cache now storedAt request).run.run
        (World.start turns) with
    | mk reply world =>
      rw [result] at does
      cases reply with
      | ok value =>
        have post := does.2 value rfl
        simp only [visit, result]
        refine ⟨does.1, post.2, fun reply shown => ?_⟩
        cases shown
        exact post.1
      | error e =>
        simp only [visit, result]
        refine ⟨does.1, bounded, fun reply shown => ?_⟩
        cases shown
  | list request =>
    have does := keeps_adapterList guarded adapter request (World.start turns) safeTurns
    unfold outcome at does
    cases result : (adapter.list lib config request).run.run (World.start turns) with
    | mk reply world =>
      rw [result] at does
      cases reply with
      | ok page =>
        simp only [visit, result]
        refine ⟨does.1, bounded, fun reply shown => ?_⟩
        cases shown
        exact does.2 page rfl
      | error e =>
        simp only [visit, result]
        refine ⟨does.1, bounded, fun reply shown => ?_⟩
        cases shown

theorem authorize_refused {request : PullRequestInspectRequest}
    (missing : ¬(config.enabled = true ∧ request.consentToRemoteAccess = true))
    (expected : PullRequestProviderKind) : ∃ e, authorize config request expected = .error e := by
  unfold authorize
  cases enabled : config.enabled with
  | false => exact ⟨_, rfl⟩
  | true =>
    cases consent : request.consentToRemoteAccess with
    | false => exact ⟨_, rfl⟩
    | true => exact absurd ⟨enabled, consent⟩ missing

theorem authorizeList_refused {request : PullRequestListRequest}
    (missing : ¬(config.enabled = true ∧ request.consentToRemoteAccess = true))
    (expected : PullRequestProviderKind) : ∃ e, authorizeList config request expected = .error e := by
  unfold authorizeList
  cases enabled : config.enabled with
  | false => exact ⟨_, rfl⟩
  | true =>
    cases consent : request.consentToRemoteAccess with
    | false => exact ⟨_, rfl⟩
    | true => exact absurd ⟨enabled, consent⟩ missing

theorem run_refused {α β : Type} {check : Except PullRequestError α} {next : α → Call Url β}
    (refused : ∃ e, check = .error e) (s : World Url) :
    ∃ e, (ofExcept check >>= next).run.run s = (.error e, s) := by
  obtain ⟨e, rfl⟩ := refused
  exact ⟨e, rfl⟩

theorem visit_unauthorized (adapter : Adapter) (cache : Cache) {next : Visit}
    (missing : ¬(config.enabled = true ∧ next.request.consent = true)) :
    (visit lib config digest adapter cache next).world.sent = [] := by
  obtain ⟨request, turns, now, storedAt⟩ := next
  cases request with
  | inspect request =>
    have refused : ∃ e, (adapter.inspect lib config digest cache now storedAt request).run.run
        (World.start turns) = (.error e, World.start turns) := by
      cases adapter <;> exact run_refused (authorize_refused missing _) _
    obtain ⟨e, result⟩ := refused
    simp only [visit, result]
    rfl
  | list request =>
    have refused : ∃ e, (adapter.list lib config request).run.run (World.start turns) =
        (.error e, World.start turns) := by
      cases adapter <;> exact run_refused (authorizeList_refused missing _) _
    obtain ⟨e, result⟩ := refused
    simp only [visit, result]
    rfl

theorem budgeted_visit (pages : config.maxPages ≠ 0) (adapter : Adapter) {cache : Cache}
    (bounded : BoundedCache config cache) (next : Visit) :
    Budgeted config next (visit lib config digest adapter cache next) := by
  obtain ⟨spends, -, short⟩ := spends_visit digest (guarded_any lib config) adapter bounded next
    fun _ _ => trivial
  obtain ⟨requests, lengths, sent, accepted, output, -, counts⟩ := spends.adds
  have within := spends.bytes (Nat.zero_le _)
  refine ⟨fun some => ?_, ?_, short, fun endpoint => ?_⟩
  · by_contra missing
    exact some (visit_unauthorized adapter cache missing)
  · rw [accepted]
    simpa [output, World.start] using within
  · rw [sent]
    exact (counts endpoint).trans (visitSpend_le pages next.request endpoint)

theorem place_visit (standard : UrlStandard lib) {base : Url}
    (parsed : parseBaseUrl lib.toUrlCrate config.apiBaseUrl = .ok base) (adapter : Adapter)
    {cache : Cache} (bounded : BoundedCache config cache) {next : Visit}
    (safeTurns : ∀ turn ∈ next.turns, Safe lib base turn) :
    ∀ request ∈ (visit lib config digest adapter cache next).world.sent,
      place lib request.2.url = place lib base := by
  obtain ⟨spends, -⟩ := spends_visit digest (guarded_place standard parsed) adapter bounded next
    safeTurns
  obtain ⟨requests, lengths, sent, -, -, fine, -⟩ := spends.adds
  rw [sent]
  exact fine

theorem validate_pages (valid : config.validate lib = .ok ()) : config.maxPages ≠ 0 := by
  intro none
  simp [PullRequestProviderConfig.validate, none] at valid

/-- In every life of a provider each visit stays within its budget, and at the configured
origin unless a redirect leads to a blob. -/
theorem visits_contained (lib : Libraries Url) (config : PullRequestProviderConfig)
    (digest : PullRequestMetadata → List PullRequestChangedFile → Except PullRequestError String)
    (standard : UrlStandard lib) (adapter : Adapter)
    (accepted : newProvider lib config adapter = .ok ()) (base : Url)
    (parsed : parseBaseUrl lib.toUrlCrate config.apiBaseUrl = .ok base) (uses : List Visit) :
    ∀ use ∈ visits lib config digest adapter [] uses, Budgeted config use.1 use.2 ∧
      ((∀ turn ∈ use.1.turns, Safe lib base turn) →
        ∀ request ∈ use.2.world.sent, place lib request.2.url = place lib base) := by
  have pages : config.maxPages ≠ 0 := by
    obtain ⟨_, valid, -⟩ := bind_eq_ok.mp accepted
    exact validate_pages valid
  have run : ∀ (uses : List Visit) {cache : Cache}, BoundedCache config cache →
      ∀ use ∈ visits lib config digest adapter cache uses, Budgeted config use.1 use.2 ∧
        ((∀ turn ∈ use.1.turns, Safe lib base turn) →
          ∀ request ∈ use.2.world.sent, place lib request.2.url = place lib base) := by
    intro uses
    induction uses with
    | nil => exact fun _ use mem => absurd mem List.not_mem_nil
    | cons next later ih =>
      intro cache bounded use mem
      rcases List.mem_cons.mp mem with rfl | mem
      · exact ⟨budgeted_visit pages adapter bounded next, place_visit standard parsed adapter bounded⟩
      · obtain ⟨-, kept, -⟩ := spends_visit digest (guarded_any lib config) adapter bounded next
          fun _ _ => trivial
        exact ih kept use mem
  exact run uses fun entry mem => absurd mem List.not_mem_nil

end Visits

section Samples

inductive SampleUrl
  | https (host path : String) (query : List (String × String))
  | blob (path : String)

def sampleParse (text : String) : Option SampleUrl :=
  match Text.stripPrefix "blob:".toList text.toList with
  | some path => some (.blob (String.ofList path))
  | none =>
    (Text.stripPrefix "https://".toList text.toList).map fun rest =>
      .https (String.ofList (rest.takeWhile (· ≠ '/'))) (String.ofList (rest.dropWhile (· ≠ '/'))) []

def SampleUrl.join (url : SampleUrl) (location : String) : Option SampleUrl :=
  match sampleParse location, url with
  | some target, _ => some target
  | none, .https host _ _ => if location.startsWith "/" then some (.https host location []) else none
  | none, .blob _ => none

def SampleUrl.origin : SampleUrl → Option (String × Option String × Option Nat)
  | .https host _ _ => some ("https", some host, some 443)
  | .blob path =>
    match sampleParse path with
    | some (.https host _ _) => some ("https", some host, some 443)
    | _ => none

def SampleUrl.extendPath : SampleUrl → List String → Option SampleUrl
  | .https host path query, segments =>
    some (.https host (segments.foldl (fun path part => path ++ "/" ++ part) path) query)
  | .blob _, _ => none

def SampleUrl.appendPairs : SampleUrl → List (String × String) → SampleUrl
  | .https host path query, pairs => .https host path (query ++ pairs)
  | .blob path, _ => .blob path

def sampleLibraries : Libraries SampleUrl where
  parse := sampleParse
  join := SampleUrl.join
  origin := SampleUrl.origin
  scheme
    | .https .. => "https"
    | .blob _ => "blob"
  hostStr
    | .https host .. => some host
    | .blob _ => none
  portOrKnownDefault
    | .https .. => some 443
    | .blob _ => none
  cannotBeABase
    | .https .. => false
    | .blob _ => true
  username _ := ""
  password _ := none
  query
    | .https _ _ (_ :: _) => some "query"
    | _ => none
  fragment _ := none
  path
    | .https _ path _ => path
    | .blob path => path
  text
    | .https host path _ => "https://" ++ host ++ path
    | .blob path => "blob:" ++ path
  strip
    | .https host path _ => .https host path []
    | .blob path => .blob path
  setPath
    | .https host _ query, path => .https host path query
    | .blob _, path => .blob path
  extendPath := SampleUrl.extendPath
  appendPairs := SampleUrl.appendPairs
  queryPairs
    | .https _ _ query => query
    | .blob _ => []
  isLoopbackAddress _ := false
  fromSlice _ := .error "EOF while parsing a value at line 1 column 0"

theorem sampleStandard : UrlStandard sampleLibraries where
  extendPath := by
    intro url url' segments result
    cases url with
    | https host path query =>
      cases result
      rfl
    | blob path => cases result
  appendPairs := by
    intro url pairs
    cases url <;> rfl
  opaqueHost := by
    intro url isOpaque
    cases url with
    | https host path query => cases isOpaque
    | blob path => rfl
  origin := by
    intro url origin found
    cases url with
    | https host path query =>
      cases found
      exact .inl rfl
    | blob path => exact .inr ⟨rfl, rfl⟩

def sampleConfig : PullRequestProviderConfig where
  provider := .gitHub
  enabled := true
  apiBaseUrl := "https://api.github.com"
  apiBaseUrlAllowlist := ["https://api.github.com"]
  allowLoopbackHttp := false
  authToken := "token"
  basicAuthUsername := none
  requestTimeoutMs := 10000
  maxOutputBytes := 2 * 1024 * 1024
  maxItems := 500
  maxPages := 20
  cacheTtlSeconds := 60

/-- An inspection whose first request is redirected. -/
def redirectedVisit (location : String) : Visit where
  request := .inspect ⟨⟨.gitHub, "owner", "repository", 1⟩, true, false⟩
  turns := [⟨false, .response ⟨302, [("location", location)], []⟩⟩]
  now := 0
  storedAt := 0

def sampleDigest (_ : PullRequestMetadata) (_ : List PullRequestChangedFile) :
    Except PullRequestError String := .ok "fingerprint"

def sampleBase : SampleUrl := .https "api.github.com" "" []

theorem safe_moved : Safe sampleLibraries sampleBase
    ⟨false, .response ⟨302, [("location", "/moved")], []⟩⟩ := by
  intro response answer _ url redirected fine target
  cases answer
  have located : header [("location", "/moved")] "location" = some "/moved" := by decide
  have relative : sampleParse "/moved" = none := by decide
  have rooted : "/moved".startsWith "/" = true := by decide +kernel
  cases url with
  | blob path => exact absurd (congrArg Prod.fst fine) (show "blob" ≠ "https" by decide)
  | https host path query =>
    have joined : sampleLibraries.join (.https host path query) "/moved" =
        some (.https host "/moved" []) := by
      simp [sampleLibraries, SampleUrl.join, relative, rooted]
    simp only [redirectTarget, located, orMalformed, ok_bind, joined] at target
    split at target
    · cases target
      exact show "https" ≠ "blob" by decide
    · cases target

theorem visits_contained_moved :
    ∃ use ∈ visits sampleLibraries sampleConfig sampleDigest .gitHub [] [redirectedVisit "/moved"],
      use.2.world.sent.length = 2 ∧
        ∀ request ∈ use.2.world.sent,
          place sampleLibraries request.2.url = place sampleLibraries sampleBase := by
  refine ⟨_, List.mem_cons_self, by decide +kernel, ?_⟩
  have contained := visits_contained sampleLibraries sampleConfig sampleDigest sampleStandard .gitHub
    (by decide) sampleBase rfl [redirectedVisit "/moved"] _ List.mem_cons_self
  refine contained.2 fun turn listed => ?_
  rw [List.mem_singleton.mp listed]
  exact safe_moved

theorem visits_follow_blob :
    newProvider sampleLibraries sampleConfig .gitHub = .ok () ∧ UrlStandard sampleLibraries ∧
      ∃ use ∈ visits sampleLibraries sampleConfig sampleDigest .gitHub []
          [redirectedVisit "blob:https://api.github.com/moved"],
        ∃ request ∈ use.2.world.sent,
          place sampleLibraries request.2.url ≠ place sampleLibraries sampleBase := by
  refine ⟨by decide, sampleStandard, by decide⟩

end Samples
end CodeSystemGraph.PullRequests
