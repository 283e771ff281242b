import CodeSystemGraph.PullReviews
import CodeSystemGraph.PullTranscript

/-! What an inspection leaves out of what the provider offers. Every page loop warns where
it stops early; the participants of a Bitbucket pull request are cut without a warning. -/

namespace CodeSystemGraph.PullRequests
open Model Effects Ordered

variable {Url : Type} (lib : Libraries Url) (config : PullRequestProviderConfig)

section Offers

def Adapter.parseFile : Adapter → Value → Except PullRequestError PullRequestChangedFile
  | .gitHub => parseGithubFile
  | .bitbucket => parseBitbucketFile

def Adapter.parseCheck : Adapter → Value → Except PullRequestError PullRequestCheck
  | .gitHub => parseGithubCheck
  | .bitbucket => parseBitbucketCheck

def Adapter.parseReview : Adapter → Value → Except PullRequestError PullRequestReview
  | .gitHub, review => parseGithubReview review
  | .bitbucket, participant => do .ok (← parseParticipant participant).2

def Adapter.reviewEndpoint : Adapter → Endpoint
  | .gitHub => .reviews
  | .bitbucket => .metadata

def Adapter.decision : Adapter → List Value → Except PullRequestError ReviewState
  | .gitHub, reviews => do .ok (summarizeGithubReviews (← reviews.mapM parseGithubReview)).state
  | .bitbucket, participants => do
    let metadata := .object [("participants", .array participants)]
    .ok (← parseBitbucketReviews metadata participants.length).state

/-- All that the provider offers at an endpoint: the items it sent and, where its last page
announces another, whatever follows. -/
def offered (adapter : Adapter) (log : List (Endpoint × Answer)) (later : Endpoint → List Value)
    (endpoint : Endpoint) : List Value :=
  received lib (adapter.items endpoint) (heard endpoint log) ++
    if pending lib (adapter.more endpoint) false (heard endpoint log) then later endpoint else []

def Shown {T : Type} (parse : Value → Except PullRequestError T) (items : List Value)
    (shown : List T) : Prop :=
  ∀ item ∈ items, ∃ a ∈ shown, parse item = .ok a

structure Complete (adapter : Adapter) (offers : Endpoint → List Value)
    (inspection : PullRequestInspection) : Prop where
  files : Shown adapter.parseFile (offers .files) inspection.changedFiles
  checks : Shown adapter.parseCheck (offers .checks) inspection.ci.checks
  reviews : Shown adapter.parseReview (offers adapter.reviewEndpoint) inspection.review.reviews
  decision : adapter.decision (offers adapter.reviewEndpoint) = .ok .changesRequested →
    inspection.review.state ≠ .approved

/-- An inspection without a warning leaves nothing out. -/
def Disclosed (adapter : Adapter) (offers : Endpoint → List Value)
    (inspection : PullRequestInspection) : Prop :=
  inspection.warnings = [] → Complete adapter offers inspection

def Adapter.Exhausts (adapter : Adapter) (log : List (Endpoint × Answer)) (endpoint : Endpoint) : Prop :=
  Finished lib config (adapter.items endpoint) (adapter.more endpoint) (heard endpoint log)

/-- Each participant past the item limit looks like one within it. -/
def Repeats (maxItems : Nat) (participants : List Value) : Prop :=
  ∀ participant ∈ participants.drop maxItems, ∃ kept ∈ participants.take maxItems,
    Adapter.bitbucket.parseReview participant = Adapter.bitbucket.parseReview kept

end Offers

section Reading

variable {lib config} {adapter : Adapter} {log : List (Endpoint × Answer)} {endpoint : Endpoint}
  {later : Endpoint → List Value}

theorem offered_of_exhausts (exhausts : adapter.Exhausts lib config log endpoint) :
    offered lib adapter log later endpoint =
      received lib (adapter.items endpoint) (heard endpoint log) := by
  have done := exhausts.2.1
  have none : pending lib (adapter.more endpoint) false (heard endpoint log) = false := by
    unfold pending at done ⊢
    cases last : ((heard endpoint log).filterMap (page lib)).getLast? with
    | none => rfl
    | some page => simpa [last] using done
  rw [offered, none, if_neg Bool.false_ne_true, List.append_nil]

theorem offered_of_pages (none : (heard endpoint log).filterMap (page lib) = []) :
    offered lib adapter log later endpoint = [] := by
  simp [offered, received, pending, none]

theorem offered_replies {answers : List Answer} (none : answers.filterMap (page lib) = []) :
    offered lib adapter (replies .metadata answers) later = fun _ => [] := by
  funext endpoint
  apply offered_of_pages
  rw [heard_replies]
  split
  · exact none
  · rfl

theorem shown_of_mapM {T : Type} {parse : Value → Except PullRequestError T} {items : List Value}
    {shown : List T} (parsed : items.mapM parse = .ok shown) : Shown parse items shown := by
  induction items generalizing shown with
  | nil => exact fun item mem => absurd mem List.not_mem_nil
  | cons first items ih =>
    rw [List.mapM_cons] at parsed
    obtain ⟨a, read, parsed⟩ := bind_eq_ok.mp parsed
    obtain ⟨rest, parsed', last⟩ := bind_eq_ok.mp parsed
    cases last
    intro item mem
    rcases List.mem_cons.mp mem with rfl | mem
    · exact ⟨a, List.mem_cons_self, read⟩
    · obtain ⟨b, listed, read⟩ := ih parsed' item mem
      exact ⟨b, List.mem_cons_of_mem _ listed, read⟩

theorem mapM_parseReview {participants : List Value} {parsed : List (Bool × PullRequestReview)}
    (read : participants.mapM parseParticipant = .ok parsed) :
    participants.mapM Adapter.bitbucket.parseReview = .ok (parsed.map (·.2)) := by
  induction participants generalizing parsed with
  | nil =>
    cases read
    rfl
  | cons participant participants ih =>
    rw [List.mapM_cons] at read ⊢
    obtain ⟨review, first, read⟩ := bind_eq_ok.mp read
    obtain ⟨reviews, rest, last⟩ := bind_eq_ok.mp read
    cases last
    rw [Adapter.parseReview, first, ok_bind, ok_bind, ih rest, ok_bind]
    rfl

def requestsChanges (review : PullRequestReview) : Bool :=
  Text.containsText review.state.toList "changes_requested".toList

theorem parseBitbucketReviews_ok {metadata : Value} {maxItems : Nat}
    {summary : PullRequestReviewSummary}
    (read : parseBitbucketReviews metadata maxItems = .ok summary) :
    ((arrayAt "participants" metadata).take maxItems).mapM Adapter.bitbucket.parseReview =
        .ok summary.reviews ∧
      (summary.state = .changesRequested ↔ ∃ review ∈ summary.reviews, requestsChanges review = true) := by
  unfold parseBitbucketReviews at read
  cases found : metadata.get "participants" with
  | none =>
    rw [found] at read
    cases read
    simp [arrayAt, found]
  | some participants =>
    simp only [found] at read
    obtain ⟨listed, isArray, read⟩ := bind_eq_ok.mp read
    obtain ⟨parsed, each, read⟩ := bind_eq_ok.mp read
    cases read
    have array : arrayAt "participants" metadata = listed := by
      rw [arrayAt, found, Option.bind_some, asArray_of_required isArray]
      rfl
    rw [array]
    refine ⟨mapM_parseReview each, ?_⟩
    rw [reviewState_changesRequested, List.any_eq_true]
    rfl

variable {digest : PullRequestMetadata → List PullRequestChangedFile → Except PullRequestError String}

theorem inspect_ok {expected : PullRequestProviderKind} {segments : PullRequestCoordinates → List String}
    {collect : PullRequestCoordinates → Value → Call Url Collections} {cache cache' : Cache}
    {now storedAt : Nat} {request : PullRequestInspectRequest} {inspection : PullRequestInspection}
    {s t : World Url}
    (run : outcome (PullRequests.inspect lib config digest expected segments collect cache now storedAt
      request) s = (.ok (inspection, cache'), t)) :
    (∃ answers, Asks .metadata answers s t ∧ answers.filterMap (page lib) = []) ∨
    ∃ answers value headers u collections, Asks .metadata answers s u ∧
      answers.filterMap (page lib) = [(value, headers)] ∧
      outcome (collect request.coordinates value) u = (.ok collections, t) ∧
      inspection.changedFiles = collections.files ∧ inspection.ci.checks = collections.checks ∧
      inspection.review = collections.review ∧ inspection.warnings = t.warnings := by
  rw [PullRequests.inspect, outcome_bind_eq_ok] at run
  obtain ⟨_, u, authorized, run⟩ := run
  obtain ⟨-, rfl⟩ := ofExcept_eq.mp authorized
  split at run
  · cases run
    exact .inl ⟨[], ⟨hears_same rfl rfl, rfl⟩, rfl⟩
  rw [outcome_bind_eq_ok] at run
  obtain ⟨url, u, built, run⟩ := run
  obtain ⟨-, rfl⟩ := ofExcept_eq.mp built
  rw [outcome_bind_eq_ok] at run
  obtain ⟨fetched, u, got, run⟩ := run
  cases fetched with
  | notModified =>
    obtain ⟨answers, asks, none⟩ := getJson_notModified got
    dsimp only at run
    split at run
    · cases run
    · cases run
      exact .inl ⟨answers, asks, none⟩
  | value value etag headers =>
    obtain ⟨answers, asks, only, -⟩ := getJson_value got
    dsimp only at run
    simp only [outcome_bind_eq_ok, ofExcept_eq] at run
    obtain ⟨collections, v, collected, fingerprint, w, ⟨-, rfl⟩, world, w, get, run⟩ := run
    cases get
    cases run
    exact .inr ⟨answers, value, headers, u, collections, asks, only, collected, rfl, rfl, rfl, rfl⟩

theorem mem_of_mapM {T : Type} {parse : Value → Except PullRequestError T} {items : List Value}
    {shown : List T} (parsed : items.mapM parse = .ok shown) {a : T} (listed : a ∈ shown) :
    ∃ item ∈ items, parse item = .ok a := by
  induction items generalizing shown with
  | nil =>
    cases parsed
    exact absurd listed List.not_mem_nil
  | cons first items ih =>
    rw [List.mapM_cons] at parsed
    obtain ⟨b, read, parsed⟩ := bind_eq_ok.mp parsed
    obtain ⟨rest, parsed', last⟩ := bind_eq_ok.mp parsed
    cases last
    rcases List.mem_cons.mp listed with rfl | listed
    · exact ⟨first, List.mem_cons_self, read⟩
    · obtain ⟨item, mem, read'⟩ := ih parsed' listed
      exact ⟨item, List.mem_cons_of_mem _ mem, read'⟩

theorem Collects.offered {T : Type} {parse : Value → Except PullRequestError T} {answers : List Answer}
    {extra : List PullRequestWarning} {shown : List T} {s t : World Url}
    (collects : Collects config lib endpoint parse (adapter.items endpoint) (adapter.more endpoint) answers
      extra shown s t) (none : extra = []) (same : heard endpoint log = answers) :
    (offered lib adapter log later endpoint).mapM parse = .ok shown := by
  have exhausts : adapter.Exhausts lib config log endpoint := by
    rw [Adapter.Exhausts, same]
    exact collects.silent.mp none
  rw [offered_of_exhausts exhausts, same]
  exact collects.all none

theorem complete_nothing (inspection : PullRequestInspection) :
    Complete adapter (fun _ => []) inspection where
  files := fun item mem => absurd mem List.not_mem_nil
  checks := fun item mem => absurd mem List.not_mem_nil
  reviews := fun item mem => absurd mem List.not_mem_nil
  decision := by
    intro decided
    cases adapter <;> cases decided

end Reading

section GitHub

variable {lib config} {coordinates : PullRequestCoordinates} {value : Value} {s t : World Url}

theorem githubCollect_ok {collections : Collections}
    (run : outcome (githubCollect lib config coordinates value) s = (.ok collections, t)) :
    ∃ files checks reviews filesWarn checksWarn reviewsWarn listed u v,
      Collects config lib .files parseGithubFile (Adapter.gitHub.items .files)
        (Adapter.gitHub.more .files) files filesWarn collections.files s u ∧
      Collects config lib .checks parseGithubCheck (Adapter.gitHub.items .checks)
        (Adapter.gitHub.more .checks) checks checksWarn collections.checks u v ∧
      Collects config lib .reviews parseGithubReview (Adapter.gitHub.items .reviews)
        (Adapter.gitHub.more .reviews) reviews reviewsWarn listed v t ∧
      collections.review = summarizeGithubReviews listed := by
  rw [githubCollect] at run
  simp only [githubFiles, githubChecks, githubReviews, outcome_bind_eq_ok, ofExcept_eq] at run
  obtain ⟨metadata, _, ⟨-, rfl⟩, files, u, ⟨_, _, ⟨-, rfl⟩, filesRun⟩, checks, v,
    ⟨_, _, ⟨-, rfl⟩, checksRun⟩, reviews, w, ⟨_, _, ⟨-, rfl⟩, reviewsRun⟩, run⟩ := run
  cases run
  obtain ⟨filesHeard, filesWarn, files⟩ := githubPage_collects (.inl rfl) filesRun
  obtain ⟨checksHeard, checksWarn, checks⟩ := githubChecks_collects checksRun
  obtain ⟨reviewsHeard, reviewsWarn, reviews⟩ := githubPage_collects (.inr rfl) reviewsRun
  exact ⟨_, _, _, _, _, _, _, _, _, files, checks, reviews, rfl⟩

variable {digest : PullRequestMetadata → List PullRequestChangedFile → Except PullRequestError String}
  {cache cache' : Cache} {now storedAt : Nat} {request : PullRequestInspectRequest} {turns : List Turn}
  {inspection : PullRequestInspection} {world : World Url}

theorem githubInspect_disclosed
    (run : outcome (Adapter.gitHub.inspect lib config digest cache now storedAt request)
      (World.start turns) = (.ok (inspection, cache'), world)) (later : Endpoint → List Value) :
    Disclosed .gitHub (offered lib .gitHub (transcript turns world) later) inspection := by
  intro silent
  rcases inspect_ok run with ⟨answers, asks, none⟩ |
    ⟨answers, value, headers, u, collections, asks, only, collected, files, checks, review, warnings⟩
  · rw [transcript_start asks.hears, offered_replies none]
    exact complete_nothing inspection
  · obtain ⟨filesHeard, checksHeard, reviewsHeard, filesWarn, checksWarn, reviewsWarn, listed, v, w,
      readFiles, readChecks, readReviews, summary⟩ := githubCollect_ok collected
    have hears := asks.hears.append
      (readFiles.hears.append (readChecks.hears.append readReviews.hears))
    rw [transcript_start hears]
    rw [warnings, readReviews.warnings, readChecks.warnings, readFiles.warnings, asks.quiet] at silent
    simp only [World.start, List.nil_append, List.append_eq_nil_iff] at silent
    obtain ⟨⟨noFiles, noChecks⟩, noReviews⟩ := silent
    refine ⟨?_, ?_, ?_, fun decided => ?_⟩
    · rw [files]
      exact shown_of_mapM (readFiles.offered noFiles (by simp))
    · rw [checks]
      exact shown_of_mapM (readChecks.offered noChecks (by simp))
    · rw [review, summary]
      exact shown_of_mapM (readReviews.offered noReviews (by simp))
    · obtain ⟨reviews, listed', decided⟩ := bind_eq_ok.mp decided
      have same : reviews = listed :=
        Except.ok.inj (listed'.symm.trans (readReviews.offered noReviews (by simp)))
      rw [review, summary, ← same, Except.ok.inj decided]
      exact fun approved => by cases approved

end GitHub

section Bitbucket

variable {lib config} {coordinates : PullRequestCoordinates} {value : Value} {s t : World Url}

theorem bitbucketCollect_ok {collections : Collections}
    (run : outcome (bitbucketCollect lib config coordinates value) s = (.ok collections, t)) :
    ∃ files checks filesWarn checksWarn u,
      Collects config lib .files parseBitbucketFile (Adapter.bitbucket.items .files)
        (Adapter.bitbucket.more .files) files filesWarn collections.files s u ∧
      Collects config lib .checks parseBitbucketCheck (Adapter.bitbucket.items .checks)
        (Adapter.bitbucket.more .checks) checks checksWarn collections.checks u t ∧
      parseBitbucketReviews value config.maxItems = .ok collections.review := by
  rw [bitbucketCollect] at run
  simp only [outcome_bind_eq_ok, ofExcept_eq] at run
  obtain ⟨metadata, _, ⟨-, rfl⟩, _, _, ⟨-, rfl⟩, files, u, filesRun, _, _, ⟨-, rfl⟩, checks, v, checksRun,
    review, _, ⟨read, rfl⟩, run⟩ := run
  cases run
  obtain ⟨filesHeard, filesWarn, files⟩ :=
    bitbucketPage_collects (.inl rfl) quiet_parseBitbucketFile filesRun
  obtain ⟨checksHeard, checksWarn, checks⟩ :=
    bitbucketPage_collects (.inr rfl) quiet_parseBitbucketCheck checksRun
  exact ⟨_, _, _, _, _, files, checks, read⟩

variable {digest : PullRequestMetadata → List PullRequestChangedFile → Except PullRequestError String}
  {cache cache' : Cache} {now storedAt : Nat} {request : PullRequestInspectRequest} {turns : List Turn}
  {inspection : PullRequestInspection} {world : World Url}

theorem bitbucketInspect_disclosed
    (run : outcome (Adapter.bitbucket.inspect lib config digest cache now storedAt request)
      (World.start turns) = (.ok (inspection, cache'), world)) {log : List (Endpoint × Answer)}
    (exchanged : transcript turns world = log) (later : Endpoint → List Value) :
    Disclosed .bitbucket (offered lib .bitbucket log later) inspection ↔
      Repeats config.maxItems
          (received lib (Adapter.bitbucket.items .metadata) (heard .metadata log)) ∨
        ¬Adapter.bitbucket.Exhausts lib config log .files ∨
        ¬Adapter.bitbucket.Exhausts lib config log .checks := by
  rcases inspect_ok run with ⟨answers, asks, none⟩ |
    ⟨answers, value, headers, u, collections, asks, only, collected, files, checks, review, warnings⟩
  · rw [transcript_start asks.hears] at exchanged
    rw [← exchanged, offered_replies none]
    refine ⟨fun _ => .inl fun participant mem => ?_, fun _ _ => complete_nothing inspection⟩
    simp [received, none] at mem
  · obtain ⟨filesHeard, checksHeard, filesWarn, checksWarn, v, readFiles, readChecks, summary⟩ :=
      bitbucketCollect_ok collected
    rw [transcript_start (asks.hears.append (readFiles.hears.append readChecks.hears))] at exchanged
    have silent : inspection.warnings = [] ↔ filesWarn = [] ∧ checksWarn = [] := by
      rw [warnings, readChecks.warnings, readFiles.warnings, asks.quiet]
      simp [World.start]
    have exhaustsFiles : Adapter.bitbucket.Exhausts lib config log .files ↔ filesWarn = [] := by
      rw [readFiles.silent, Adapter.Exhausts, ← exchanged]
      simp
    have exhaustsChecks : Adapter.bitbucket.Exhausts lib config log .checks ↔ checksWarn = [] := by
      rw [readChecks.silent, Adapter.Exhausts, ← exchanged]
      simp
    have participants : received lib (Adapter.bitbucket.items .metadata) (heard .metadata log) =
        arrayAt "participants" value := by
      rw [← exchanged]
      simp [received, only, Adapter.items]
    have offers : offered lib .bitbucket log later .metadata = arrayAt "participants" value := by
      rw [offered, participants, ← exchanged]
      simp [pending, only, Adapter.more]
    obtain ⟨kept, state⟩ := parseBitbucketReviews_ok summary
    rw [participants, exhaustsFiles, exhaustsChecks]
    constructor
    · intro disclosed
      by_cases none : filesWarn = [] ∧ checksWarn = []
      · refine .inl fun participant mem => ?_
        have complete := (disclosed (silent.mpr none)).reviews
        have mem' : participant ∈ offered lib .bitbucket log later .metadata := by
          rw [offers]
          exact List.mem_of_mem_drop mem
        obtain ⟨a, shown, read⟩ := complete participant mem'
        rw [review] at shown
        obtain ⟨first, listed, read'⟩ := mem_of_mapM kept shown
        exact ⟨first, listed, read.trans read'.symm⟩
      · exact .inr (not_and_or.mp none)
    · intro condition none
      obtain ⟨noFiles, noChecks⟩ := silent.mp none
      have repeats := condition.resolve_right fun unread =>
        unread.elim (fun cut => cut noFiles) (fun cut => cut noChecks)
      have reviews : Shown Adapter.bitbucket.parseReview (arrayAt "participants" value)
          collections.review.reviews := by
        intro participant mem
        rw [← List.take_append_drop config.maxItems (arrayAt "participants" value)] at mem
        rcases List.mem_append.mp mem with first | past
        · exact shown_of_mapM kept participant first
        · obtain ⟨first, listed, same⟩ := repeats participant past
          rw [same]
          exact shown_of_mapM kept first listed
      refine ⟨?_, ?_, ?_, fun decided => ?_⟩
      · rw [files]
        exact shown_of_mapM (readFiles.offered noFiles (by simp [← exchanged]))
      · rw [checks]
        exact shown_of_mapM (readChecks.offered noChecks (by simp [← exchanged]))
      · rw [review, Adapter.reviewEndpoint, offers]
        exact reviews
      · rw [Adapter.reviewEndpoint, offers] at decided
        obtain ⟨all, allRead, allDecided⟩ := bind_eq_ok.mp decided
        obtain ⟨parsed, allState⟩ := parseBitbucketReviews_ok allRead
        obtain ⟨opinion, listed, changes⟩ := allState.mp (Except.ok.inj allDecided)
        obtain ⟨participant, mem, read⟩ := mem_of_mapM parsed listed
        obtain ⟨a, shown, read'⟩ := reviews participant (List.mem_of_mem_take mem)
        have same : opinion = a := Except.ok.inj (read.symm.trans read')
        rw [review, state.mpr ⟨opinion, same ▸ shown, changes⟩]
        exact fun approved => by cases approved

end Bitbucket

section Inspections

/-- An inspection without warnings leaves nothing out, and hides no request for changes,
exactly when the provider is GitHub, no participant is lost at the item limit, or there was
a reason to warn anyway. -/
theorem inspection_disclosed (lib : Libraries Url) (config : PullRequestProviderConfig)
    (digest : PullRequestMetadata → List PullRequestChangedFile → Except PullRequestError String)
    (adapter : Adapter) (cache cache' : Cache) (now storedAt : Nat) (request : PullRequestInspectRequest)
    (turns : List Turn) (inspection : PullRequestInspection) (world : World Url)
    (run : (adapter.inspect lib config digest cache now storedAt request).run.run (World.start turns) =
      (.ok (inspection, cache'), world)) (log : List (Endpoint × Answer))
    (exchanged : transcript turns world = log) (later : Endpoint → List Value) :
    Disclosed adapter (offered lib adapter log later) inspection ↔
      adapter = .gitHub ∨
        Repeats config.maxItems (received lib (adapter.items .metadata) (heard .metadata log)) ∨
        ¬adapter.Exhausts lib config log .files ∨ ¬adapter.Exhausts lib config log .checks := by
  cases adapter with
  | gitHub =>
    rw [← exchanged]
    exact ⟨fun _ => .inl rfl, fun _ => githubInspect_disclosed run later⟩
  | bitbucket =>
    rw [bitbucketInspect_disclosed run exchanged later]
    exact ⟨.inr, fun condition => condition.resolve_left (fun other => by cases other)⟩

/-- A pull request with an approval and a request for changes. -/
def opposedText : String :=
    "\x7b\"id\":1,\"title\":\"Change\",\"state\":\"OPEN\"," ++
    "\"links\":\x7b\"html\":\x7b\"href\":\"https://bitbucket.org/1\"\x7d\x7d," ++
    "\"author\":\x7b\"display_name\":\"Carol\"\x7d," ++
    "\"destination\":\x7b\"branch\":\x7b\"name\":\"main\"\x7d," ++
    "\"commit\":\x7b\"hash\":\"abc\"\x7d," ++
    "\"repository\":\x7b\"full_name\":\"owner/repository\"\x7d\x7d," ++
    "\"source\":\x7b\"branch\":\x7b\"name\":\"topic\"\x7d," ++
    "\"commit\":\x7b\"hash\":\"abc\"\x7d," ++
    "\"repository\":\x7b\"full_name\":\"owner/repository\"\x7d\x7d," ++
    "\"created_on\":\"2026-01-01\",\"updated_on\":\"2026-01-02\"," ++
    "\"participants\":[\x7b\"user\":\x7b\"display_name\":\"Alice\"\x7d,\"approved\":true," ++
    "\"state\":\"approved\"\x7d,\x7b\"user\":\x7b\"display_name\":\"Bob\"\x7d," ++
    "\"approved\":false,\"state\":\"changes_requested\"\x7d]\x7d"

def opposedRef (branch : String) : Value :=
  .object [("branch", .object [("name", .string branch)]), ("commit", .object [("hash", .string "abc")]),
    ("repository", .object [("full_name", .string "owner/repository")])]

def opposedParticipant (name : String) (approved : Bool) (state : String) : Value :=
  .object [("user", .object [("display_name", .string name)]), ("approved", .bool approved),
    ("state", .string state)]

def opposedMetadata : Value :=
  .object [("id", .number (.unsigned 1)), ("title", .string "Change"), ("state", .string "OPEN"),
    ("links", .object [("html", .object [("href", .string "https://bitbucket.org/1")])]),
    ("author", .object [("display_name", .string "Carol")]), ("destination", opposedRef "main"),
    ("source", opposedRef "topic"), ("created_on", .string "2026-01-01"),
    ("updated_on", .string "2026-01-02"),
    ("participants", .array [opposedParticipant "Alice" true "approved",
      opposedParticipant "Bob" false "changes_requested"])]

def emptyPageText : String := "\x7b\"values\":[]\x7d"

def utf8 (text : String) : Bytes := text.toByteArray.data.toList

def opposedLibraries : Libraries SampleUrl where
  __ := sampleLibraries
  fromSlice body :=
    if body = utf8 opposedText then .ok opposedMetadata
    else if body = utf8 emptyPageText then .ok (.object [("values", .array [])])
    else .error "expected value at line 1 column 1"

def oneItemConfig : PullRequestProviderConfig where
  __ := sampleConfig
  provider := .bitbucketCloud
  apiBaseUrl := "https://api.bitbucket.org"
  apiBaseUrlAllowlist := ["https://api.bitbucket.org"]
  maxItems := 1

def opposedTurns : List Turn :=
  [opposedText, emptyPageText, emptyPageText].map fun text => ⟨false, .response ⟨200, [], utf8 text⟩⟩

def opposedRequest : PullRequestInspectRequest := ⟨⟨.bitbucketCloud, "owner", "repository", 1⟩, true, false⟩

def opposedRun : Except PullRequestError (PullRequestInspection × Cache) × World SampleUrl :=
  (Adapter.bitbucket.inspect opposedLibraries oneItemConfig sampleDigest [] 0 0
    opposedRequest).run.run (World.start opposedTurns)

/-- The warnings and the review state of a run that returns. -/
def report (run : Except PullRequestError (PullRequestInspection × Cache) × World Url) :
    Option (List PullRequestWarning × ReviewState) :=
  run.1.toOption.map fun result => (result.1.warnings, result.1.review.state)

theorem returned_of_report
    {run : Except PullRequestError (PullRequestInspection × Cache) × World Url}
    {warnings : List PullRequestWarning} {state : ReviewState}
    (reported : report run = some (warnings, state)) :
    ∃ inspection cache, run = (.ok (inspection, cache), run.2) ∧ inspection.warnings = warnings ∧
      inspection.review.state = state := by
  obtain ⟨value, world⟩ := run
  cases value with
  | error e => cases reported
  | ok result =>
    cases reported
    exact ⟨result.1, result.2, rfl, rfl, rfl⟩

theorem report_opposed : report opposedRun = some ([], .approved) := by decide +kernel

theorem inspection_disclosed_opposed :
    ∃ inspection cache, opposedRun = (.ok (inspection, cache), opposedRun.2) ∧
      ∀ later, Disclosed .bitbucket
          (offered opposedLibraries .bitbucket (transcript opposedTurns opposedRun.2) later) inspection ↔
        Adapter.bitbucket = .gitHub ∨
          Repeats oneItemConfig.maxItems (received opposedLibraries (Adapter.bitbucket.items .metadata)
            (heard .metadata (transcript opposedTurns opposedRun.2))) ∨
          ¬Adapter.bitbucket.Exhausts opposedLibraries oneItemConfig
            (transcript opposedTurns opposedRun.2) .files ∨
          ¬Adapter.bitbucket.Exhausts opposedLibraries oneItemConfig
            (transcript opposedTurns opposedRun.2) .checks := by
  obtain ⟨inspection, cache, run, -, -⟩ := returned_of_report report_opposed
  exact ⟨inspection, cache, run, inspection_disclosed opposedLibraries oneItemConfig sampleDigest .bitbucket
    [] cache 0 0 opposedRequest opposedTurns inspection opposedRun.2 run _ rfl⟩

/-- The request for changes is past the limit: the pull request is reported as approved,
without a warning. -/
theorem participant_cut :
    ¬∀ (lib : Libraries SampleUrl) (config : PullRequestProviderConfig)
      (digest : PullRequestMetadata → List PullRequestChangedFile → Except PullRequestError String)
      (adapter : Adapter) (cache cache' : Cache) (now storedAt : Nat) (request : PullRequestInspectRequest)
      (turns : List Turn) (inspection : PullRequestInspection) (world : World SampleUrl),
      newProvider lib config adapter = .ok () →
      (adapter.inspect lib config digest cache now storedAt request).run.run (World.start turns) =
        (.ok (inspection, cache'), world) →
      ∀ later, Disclosed adapter (offered lib adapter (transcript turns world) later) inspection := by
  intro all
  obtain ⟨inspection, cache, run, silent, approved⟩ := returned_of_report report_opposed
  have disclosed := all opposedLibraries oneItemConfig sampleDigest .bitbucket [] cache 0 0 opposedRequest opposedTurns
    inspection opposedRun.2 (by decide +kernel) run fun _ => []
  have decided : Adapter.bitbucket.decision (offered opposedLibraries .bitbucket
      (transcript opposedTurns opposedRun.2) (fun _ => []) .metadata) = .ok .changesRequested := by
    decide +kernel
  exact (disclosed silent).decision decided approved

end Inspections
end CodeSystemGraph.PullRequests
