import CodeSystemGraph.PullRequests

/-! The GitHub and Bitbucket Cloud adapters: what they read from a response, and the
requests of one inspection or listing. -/

namespace CodeSystemGraph.PullRequests
open Model

section Records

inductive PullRequestState
  | opened | closed | merged | unknown
deriving DecidableEq

structure PullRequestRepository where
  fullName : String
  url : Option String
deriving DecidableEq

structure PullRequestRef where
  name : String
  sha : String
  repository : PullRequestRepository
deriving DecidableEq

structure PullRequestMetadata where
  id : String
  title : String
  url : String
  state : PullRequestState
  draft : Bool
  author : String
  base : PullRequestRef
  head : PullRequestRef
  createdAt : String
  updatedAt : String
deriving DecidableEq

inductive ChangedFileStatus
  | added | modified | removed | renamed | copied | unknown
deriving DecidableEq

structure PullRequestChangedFile where
  status : ChangedFileStatus
  oldPath : Option String
  newPath : Option String
  additions : Nat
  deletions : Nat
  binary : Bool
  patchTruncated : Bool
deriving DecidableEq

inductive CheckState
  | success | failure | pending | unknown
deriving DecidableEq

structure PullRequestCheck where
  name : String
  state : CheckState
  url : Option String
deriving DecidableEq

structure PullRequestCi where
  state : CheckState
  checks : List PullRequestCheck
deriving DecidableEq

structure PullRequestReview where
  id : String
  author : String
  state : String
  submittedAt : Option String
deriving DecidableEq

inductive ReviewState
  | approved | changesRequested | pending | unknown
deriving DecidableEq

structure PullRequestReviewSummary where
  state : ReviewState
  approvals : Nat
  reviews : List PullRequestReview
deriving DecidableEq

structure PullRequestInspection where
  coordinates : PullRequestCoordinates
  metadata : PullRequestMetadata
  changedFiles : List PullRequestChangedFile
  ci : PullRequestCi
  review : PullRequestReviewSummary
  rateLimit : PullRequestRateLimit
  warnings : List PullRequestWarning
  fingerprint : String
  fromCache : Bool
deriving DecidableEq

structure PullRequestSummary where
  coordinates : PullRequestCoordinates
  title : String
  url : String
  state : PullRequestState
  draft : Bool
  author : String
  baseBranch : String
  headBranch : String
  createdAt : String
  updatedAt : String
deriving DecidableEq

structure PullRequestListPage where
  items : List PullRequestSummary
  nextCursor : Option String
  hasMore : Bool
  truncated : Bool
  rateLimit : PullRequestRateLimit
  warnings : List PullRequestWarning
deriving DecidableEq

inductive PullRequestListState
  | opened | closed | all
deriving DecidableEq

structure PullRequestInspectRequest where
  coordinates : PullRequestCoordinates
  consentToRemoteAccess : Bool
  cancelled : Bool
deriving DecidableEq

structure PullRequestListRequest where
  provider : PullRequestProviderKind
  owner : String
  repository : String
  state : PullRequestListState
  cursor : Option String
  limit : Nat
  consentToRemoteAccess : Bool
  cancelled : Bool
deriving DecidableEq

end Records

section GitHub

def isDraft (value : Value) : Bool := ((value.get "draft").bind Value.asBool).getD false

def githubState (state : String) : PullRequestState :=
  if state = "open" then .opened else if state = "closed" then .closed else .unknown

def parseGithubSummary (value : Value) (owner repository : String) :
    Except PullRequestError PullRequestSummary := do
  let state ← if (value.get "merged_at").any fun value => !value.isNull then .ok .merged
    else do .ok (githubState (← requiredString value "state"))
  .ok {
    coordinates := {
      provider := .gitHub
      owner
      repository
      number := ← requiredU64 value "number" }
    title := ← requiredString value "title"
    url := ← requiredString value "html_url"
    state
    draft := isDraft value
    author := ← nestedString value ["user", "login"]
    baseBranch := ← nestedString value ["base", "ref"]
    headBranch := ← nestedString value ["head", "ref"]
    createdAt := ← requiredString value "created_at"
    updatedAt := ← requiredString value "updated_at" }

def parseGithubRef (value : Value) : Except PullRequestError PullRequestRef := do
  .ok {
    name := ← requiredString value "ref"
    sha := ← requiredString value "sha"
    repository := {
      fullName := ← nestedString value ["repo", "full_name"]
      url := (value.get "repo").bind (optionalString · "html_url") } }

def parseGithubMetadata (value : Value) : Except PullRequestError PullRequestMetadata := do
  let state ← if ((value.get "merged").bind Value.asBool).getD false then .ok .merged
    else do .ok (githubState (← requiredString value "state"))
  .ok {
    id := ← valueId value "id"
    title := ← requiredString value "title"
    url := ← requiredString value "html_url"
    state
    draft := isDraft value
    author := ← nestedString value ["user", "login"]
    base := ← parseGithubRef (← requiredField value "base")
    head := ← parseGithubRef (← requiredField value "head")
    createdAt := ← requiredString value "created_at"
    updatedAt := ← requiredString value "updated_at" }

def githubFileStatus (status : String) : ChangedFileStatus :=
  if status = "added" then .added
  else if status = "modified" ∨ status = "changed" then .modified
  else if status = "removed" then .removed
  else if status = "renamed" then .renamed
  else if status = "copied" then .copied
  else .unknown

def count (value : Value) (field : String) : Nat := ((value.get field).bind Value.asU64).getD 0

def parseGithubFile (value : Value) : Except PullRequestError PullRequestChangedFile := do
  let filename ← requiredString value "filename"
  let status := githubFileStatus (← requiredString value "status")
  let additions := count value "additions"
  let deletions := count value "deletions"
  let patchPresent := ((value.get "patch").bind Value.asStr).isSome
  .ok {
    status
    oldPath :=
      if status = .renamed then optionalString value "previous_filename"
      else if status = .removed then some filename
      else none
    newPath := if status = .removed then none else some filename
    additions
    deletions
    binary := !patchPresent && 0 < additions + deletions
    patchTruncated := patchPresent }

def githubCheckState (status conclusion : String) : CheckState :=
  if status = "completed" then
    if conclusion ∈ ["success", "neutral", "skipped"] then .success
    else if conclusion ∈ ["failure", "timed_out", "cancelled", "action_required"] then .failure
    else .unknown
  else .pending

def parseGithubCheck (value : Value) : Except PullRequestError PullRequestCheck := do
  .ok {
    name := ← requiredString value "name"
    state := githubCheckState ((optionalString value "status").getD "unknown")
      ((optionalString value "conclusion").getD "unknown")
    url := optionalString value "details_url" }

def asciiLowercase (text : String) : String := String.ofList (text.toList.map Text.toAsciiLowercase)

def parseGithubReview (value : Value) : Except PullRequestError PullRequestReview := do
  .ok {
    id := ← valueId value "id"
    author := ← nestedString value ["user", "login"]
    state := asciiLowercase (← requiredString value "state")
    submittedAt := optionalString value "submitted_at" }

def reviewState (changesRequested : Bool) (approvals : Nat) (reviews : List PullRequestReview) :
    ReviewState :=
  if changesRequested then .changesRequested
  else if 0 < approvals then .approved
  else if reviews.isEmpty then .unknown
  else .pending

/-- The last review of each author counts. -/
def summarizeGithubReviews (reviews : List PullRequestReview) : PullRequestReviewSummary :=
  let latest := (Ordered.inventory (·.author) reviews).map (·.2.state)
  let approvals := latest.countP (· = "approved")
  { state := reviewState (latest.any (· = "changes_requested")) approvals reviews
    approvals
    reviews }

def summarizeChecks (checks : List PullRequestCheck) : PullRequestCi where
  state :=
    if checks.isEmpty then .unknown
    else if checks.any (·.state = .failure) then .failure
    else if checks.any (·.state = .pending) then .pending
    else if checks.all (·.state = .success) then .success
    else .unknown
  checks := checks

end GitHub

section Bitbucket

def bitbucketState (state : String) : PullRequestState :=
  if state = "OPEN" then .opened
  else if state = "MERGED" ∨ state = "FULFILLED" then .merged
  else if state = "DECLINED" ∨ state = "SUPERSEDED" then .closed
  else .unknown

def parseBitbucketRef (value : Value) : Except PullRequestError PullRequestRef := do
  let repository ← requiredField value "repository"
  .ok {
    name := ← nestedString value ["branch", "name"]
    sha := ← nestedString value ["commit", "hash"]
    repository := {
      fullName := ← requiredString repository "full_name"
      url := (nested repository ["links", "html"]).toOption.bind (optionalString · "href") } }

def parseBitbucketMetadata (value : Value) : Except PullRequestError PullRequestMetadata := do
  let state := bitbucketState (← requiredString value "state")
  .ok {
    id := ← valueId value "id"
    title := ← requiredString value "title"
    url := ← nestedString value ["links", "html", "href"]
    state
    draft := isDraft value
    author := ← nestedString value ["author", "display_name"]
    base := ← parseBitbucketRef (← requiredField value "destination")
    head := ← parseBitbucketRef (← requiredField value "source")
    createdAt := ← requiredString value "created_on"
    updatedAt := ← requiredString value "updated_on" }

def parseBitbucketSummary (value : Value) (owner repository : String) :
    Except PullRequestError PullRequestSummary := do
  let state := bitbucketState (← requiredString value "state")
  .ok {
    coordinates := {
      provider := .bitbucketCloud
      owner
      repository
      number := ← requiredU64 value "id" }
    title := ← requiredString value "title"
    url := ← nestedString value ["links", "html", "href"]
    state
    draft := isDraft value
    author := ← nestedString value ["author", "display_name"]
    baseBranch := ← nestedString value ["destination", "branch", "name"]
    headBranch := ← nestedString value ["source", "branch", "name"]
    createdAt := ← requiredString value "created_on"
    updatedAt := ← requiredString value "updated_on" }

def bitbucketFileStatus (status : String) : ChangedFileStatus :=
  if status = "added" then .added
  else if status = "modified" then .modified
  else if status = "removed" then .removed
  else if status = "renamed" then .renamed
  else .unknown

def parseBitbucketFile (value : Value) : Except PullRequestError PullRequestChangedFile := do
  .ok {
    status := bitbucketFileStatus (← requiredString value "status")
    oldPath := (value.get "old").bind (optionalString · "path")
    newPath := (value.get "new").bind (optionalString · "path")
    additions := count value "lines_added"
    deletions := count value "lines_removed"
    binary := (((value.get "new").or (value.get "old")).bind (optionalString · "type")).any
      (eqIgnoreAsciiCase · "binary")
    patchTruncated := false }

def bitbucketCheckState (state : String) : CheckState :=
  if state = "SUCCESSFUL" then .success
  else if state = "FAILED" ∨ state = "STOPPED" then .failure
  else if state = "INPROGRESS" then .pending
  else .unknown

def parseBitbucketCheck (value : Value) : Except PullRequestError PullRequestCheck := do
  let state := bitbucketCheckState (← requiredString value "state")
  .ok { name := ← requiredString value "key", state, url := optionalString value "url" }

/-- A participant as a review, and whether it approves. -/
def parseParticipant (participant : Value) : Except PullRequestError (Bool × PullRequestReview) := do
  let approved := ((participant.get "approved").bind Value.asBool).getD false
  let state := asciiLowercase
    ((optionalString participant "state").getD (if approved then "approved" else "pending"))
  let user ← requiredField participant "user"
  let author ← orMalformed ((optionalString user "display_name").or (optionalString user "nickname"))
    "Bitbucket participant has no identity"
  let id := (optionalString user "uuid").getD author
  .ok (approved, { id, author, state, submittedAt := none })

def parseBitbucketReviews (metadata : Value) (maxItems : Nat) :
    Except PullRequestError PullRequestReviewSummary :=
  match metadata.get "participants" with
  | none => .ok { state := .unknown, approvals := 0, reviews := [] }
  | some participants => do
    let participants ← requiredArray participants "participants"
    let parsed ← (participants.take maxItems).mapM parseParticipant
    let reviews := parsed.map (·.2)
    let approvals := parsed.countP (·.1)
    let changesRequested := reviews.any fun review =>
      Text.containsText review.state.toList "changes_requested".toList
    .ok { state := reviewState changesRequested approvals reviews, approvals, reviews }

end Bitbucket

section Lists

def maxPullRequestListLimit : Nat := 100

def parseListCursor (cursor : String) : Except PullRequestError Nat :=
  match (parseU64 cursor).filter (0 < ·) with
  | some page => .ok page
  | none => .error (.invalidConfiguration "pull-request list cursor must be a positive page number")

def validateListName (name value : String) : Except PullRequestError Unit :=
  if Text.isBlank value || value = "." || value = ".." || value.toList.any Text.isControl then
    .error (.invalidConfiguration
      ("pull-request list " ++ name ++ " must be non-empty and control-free"))
  else .ok ()

def validateListRequest (request : PullRequestListRequest) : Except PullRequestError Unit := do
  if ¬(1 ≤ request.limit ∧ request.limit ≤ maxPullRequestListLimit) then
    .error (.invalidConfiguration "pull-request list limit must be between 1 and 100")
  else do
    validateListName "owner" request.owner
    validateListName "repository" request.repository
    match request.cursor with
    | none => .ok ()
    | some cursor => do
      let _ ← parseListCursor cursor
      .ok ()

def githubListState : PullRequestListState → String
  | .opened => "open"
  | .closed => "closed"
  | .all => "all"

def listPage (items : List PullRequestSummary) (nextCursor : Option String)
    (requestedLimit effectiveLimit : Nat) (rateLimit : PullRequestRateLimit) : PullRequestListPage :=
  let truncated := effectiveLimit < requestedLimit && nextCursor.isSome
  { items
    nextCursor
    hasMore := nextCursor.isSome
    truncated
    rateLimit
    warnings :=
      if truncated then
        [⟨"configured_limit_applied",
          "Pull-request list page size was reduced to the configured limit of " ++
            toString effectiveLimit⟩]
      else [] }

variable {Url : Type} (lib : Libraries Url)

def paginationCursor (candidate base : Url) (expectedPath pageSizeParameter : String) :
    Except PullRequestError String := do
  validatePaginationOrigin lib.toUrlCrate base candidate
  if !(lib.username candidate).isEmpty || (lib.password candidate).isSome ||
      (lib.fragment candidate).isSome || lib.path candidate ≠ expectedPath then
    .error (.malformedResponse "pagination URL escaped the pull-request list endpoint")
  else if ((lib.queryPairs candidate).lookup pageSizeParameter).any fun pageSize =>
      !((Text.parseUnsigned (2 ^ 64) pageSize.toList).any fun value =>
        1 ≤ value && value ≤ maxPullRequestListLimit) then
    .error (.malformedResponse "provider pagination exceeded the pull-request list limit")
  else
    match ((lib.queryPairs candidate).filter (·.1 = "page")).map (·.2) with
    | [] => .error (.malformedResponse "provider pagination omitted a positive page cursor")
    | [page] =>
      match (parseU64 page).filter (0 < ·) with
      | some page => .ok (toString page)
      | none => .error (.malformedResponse "provider pagination returned an invalid page cursor")
    | _ => .error (.malformedResponse "provider pagination returned multiple page cursors")

end Lists

section Inspect

variable {Url : Type} (lib : Libraries Url) (config : PullRequestProviderConfig)
  (digest : PullRequestMetadata → List PullRequestChangedFile → Except PullRequestError String)

def authorize (request : PullRequestInspectRequest) (expected : PullRequestProviderKind) :
    Except PullRequestError Unit :=
  if !config.enabled then .error .disabled
  else if !request.consentToRemoteAccess then .error .consentRequired
  else if request.coordinates.provider ≠ expected then .error .providerMismatch
  else if request.cancelled then .error .cancelled
  else .ok ()

def authorizeList (request : PullRequestListRequest) (expected : PullRequestProviderKind) :
    Except PullRequestError Unit :=
  if !config.enabled then .error .disabled
  else if !request.consentToRemoteAccess then .error .consentRequired
  else if request.provider = .bitbucketDataCenter then .error .unsupportedProvider
  else if request.provider ≠ expected then .error .providerMismatch
  else if request.cancelled then .error .cancelled
  else validateListRequest request

structure CacheEntry where
  inspection : PullRequestInspection
  etag : Option String
  expiresAt : Nat
deriving DecidableEq

abbrev CacheKey := String × String × Nat
abbrev Cache := List (CacheKey × CacheEntry)

def cacheKey (coordinates : PullRequestCoordinates) : CacheKey :=
  (coordinates.owner, coordinates.repository, coordinates.number)

def freshCache (cache : Cache) (now : Nat) (coordinates : PullRequestCoordinates) :
    Option PullRequestInspection :=
  ((cache.lookup (cacheKey coordinates)).filter fun entry => now < entry.expiresAt).map fun entry =>
    { entry.inspection with fromCache := true }

def storeCache (cache : Cache) (now : Nat) (coordinates : PullRequestCoordinates)
    (inspection : PullRequestInspection) (etag : Option String) : Cache :=
  (cacheKey coordinates, {
    inspection := { inspection with fromCache := false }
    etag
    expiresAt := now + config.cacheTtlSeconds }) ::
      cache.filter fun entry => entry.1 ≠ cacheKey coordinates

/-- What an adapter reads after the metadata. -/
structure Collections where
  metadata : PullRequestMetadata
  files : List PullRequestChangedFile
  checks : List PullRequestCheck
  review : PullRequestReviewSummary

/-- One inspection: the metadata, then what the adapter collects. The clock is read when
the cache is looked up and when the result is stored. -/
def inspect (expected : PullRequestProviderKind)
    (segments : PullRequestCoordinates → List String)
    (collect : PullRequestCoordinates → Value → Call Url Collections)
    (cache : Cache) (now storedAt : Nat) (request : PullRequestInspectRequest) :
    Call Url (PullRequestInspection × Cache) := do
  ofExcept (authorize config request expected)
  match freshCache cache now request.coordinates with
  | some cached => pure (cached, cache)
  | none => do
    let stale := cache.lookup (cacheKey request.coordinates)
    let url ← ofExcept (providerUrl lib config (segments request.coordinates))
    let fetched ← getJson lib config .metadata url (stale.bind (·.etag))
    match fetched with
    | .notModified =>
      match stale with
      | none =>
        throw (.malformedResponse "provider returned 304 without a cached representation")
      | some entry =>
        let cached := { entry.inspection with fromCache := true }
        pure (cached, storeCache config cache storedAt request.coordinates cached entry.etag)
    | .value value etag _ => do
      let collections ← collect request.coordinates value
      let fingerprint ← ofExcept (digest collections.metadata collections.files)
      let world ← get
      let inspection := {
        coordinates := request.coordinates
        metadata := collections.metadata
        changedFiles := collections.files
        ci := summarizeChecks collections.checks
        review := collections.review
        rateLimit := world.rateLimit
        warnings := world.warnings
        fingerprint
        fromCache := false }
      pure (inspection, storeCache config cache storedAt request.coordinates inspection etag)

def githubSegments (coordinates : PullRequestCoordinates) : List String :=
  ["repos", coordinates.owner, coordinates.repository, "pulls", toString coordinates.number]

def githubFiles (coordinates : PullRequestCoordinates) : Call Url (List PullRequestChangedFile) := do
  let initial ← ofExcept (providerUrl lib config (githubSegments coordinates ++ ["files"]))
  githubPaginatedImpl lib config .files parseGithubFile initial none

def githubChecks (coordinates : PullRequestCoordinates) (sha : String) :
    Call Url (List PullRequestCheck) := do
  let initial ← ofExcept (providerUrl lib config
    ["repos", coordinates.owner, coordinates.repository, "commits", sha, "check-runs"])
  githubPaginatedImpl lib config .checks parseGithubCheck initial (some "check_runs")

def githubReviews (coordinates : PullRequestCoordinates) : Call Url (List PullRequestReview) := do
  let initial ← ofExcept (providerUrl lib config (githubSegments coordinates ++ ["reviews"]))
  githubPaginatedImpl lib config .reviews parseGithubReview initial none

def githubCollect (coordinates : PullRequestCoordinates) (value : Value) : Call Url Collections := do
  let metadata ← ofExcept (parseGithubMetadata value)
  let files ← githubFiles lib config coordinates
  let checks ← githubChecks lib config coordinates metadata.head.sha
  let reviews ← githubReviews lib config coordinates
  pure { metadata, files, checks, review := summarizeGithubReviews reviews }

def bitbucketSegments (coordinates : PullRequestCoordinates) : List String :=
  ["repositories", coordinates.owner, coordinates.repository, "pullrequests",
    toString coordinates.number]

def bitbucketCollect (coordinates : PullRequestCoordinates) (value : Value) :
    Call Url Collections := do
  let metadata ← ofExcept (parseBitbucketMetadata value)
  let filesUrl ← ofExcept (providerUrl lib config (bitbucketSegments coordinates ++ ["diffstat"]))
  let files ← bitbucketOptionalPaginated lib config .files parseBitbucketFile filesUrl "changed files"
  let checksUrl ← ofExcept (providerUrl lib config
    ["repositories", coordinates.owner, coordinates.repository, "commit", metadata.head.sha,
      "statuses"])
  let checks ← bitbucketOptionalPaginated lib config .checks parseBitbucketCheck checksUrl
    "commit statuses"
  let review ← ofExcept (parseBitbucketReviews value config.maxItems)
  pure { metadata, files, checks, review }

end Inspect

section List

variable {Url : Type} (lib : Libraries Url) (config : PullRequestProviderConfig)

/-- One listing. The adapters differ in the address and its query, in where the entries
and the next page stand, and in the texts of their errors. -/
structure ListContract (Url : Type) where
  expected : PullRequestProviderKind
  segments : PullRequestListRequest → List String
  pairs : PullRequestListRequest → (pageLimit : Nat) → List (String × String)
  values : Value → Except PullRequestError (List Value)
  tooMany : String
  parse : Value → (owner repository : String) → Except PullRequestError PullRequestSummary
  next : Value → List (String × String) → Url → Except PullRequestError (Option Url)
  pageSizeParameter : String

def githubList : ListContract Url where
  expected := .gitHub
  segments request := ["repos", request.owner, request.repository, "pulls"]
  pairs request pageLimit :=
    [("state", githubListState request.state), ("per_page", toString pageLimit), ("sort", "created"),
      ("direction", "asc")] ++ (request.cursor.map fun cursor => ("page", cursor)).toList
  values value := requiredArray value "pull requests"
  tooMany := "GitHub returned more pull requests than the requested page size"
  parse := parseGithubSummary
  next _ headers base := githubNextUrl lib headers base
  pageSizeParameter := "per_page"

def bitbucketStates : PullRequestListState → List (String × String)
  | .opened => [("state", "OPEN")]
  | .closed => [("state", "MERGED"), ("state", "FULFILLED"), ("state", "DECLINED"),
      ("state", "SUPERSEDED")]
  | .all => []

def bitbucketList : ListContract Url where
  expected := .bitbucketCloud
  segments request := ["repositories", request.owner, request.repository, "pullrequests"]
  pairs request pageLimit :=
    [("pagelen", toString pageLimit), ("sort", "created_on")] ++ bitbucketStates request.state ++
      -- the cursor was checked by `authorize_list`, and is written again as a number
      ((request.cursor.bind parseU64).map fun page => ("page", toString page)).toList
  values value := do requiredArray (← requiredField value "values") "values"
  tooMany := "Bitbucket returned more pull requests than the requested page size"
  parse := parseBitbucketSummary
  next value _ _ := bitbucketNext lib value
  pageSizeParameter := "pagelen"

def list (contract : ListContract Url) (request : PullRequestListRequest) :
    Call Url PullRequestListPage := do
  ofExcept (authorizeList config request contract.expected)
  let pageLimit := min (min request.limit config.maxItems) maxPullRequestListLimit
  let url ← ofExcept (providerUrl lib config (contract.segments request))
  let expectedPath := lib.path url
  let fetched ← getJson lib config .list (lib.appendPairs url (contract.pairs request pageLimit)) none
  match fetched with
  | .notModified =>
    throw (.malformedResponse "unexpected 304 for uncached pull-request list")
  | .value value _ headers => do
    let values ← ofExcept (contract.values value)
    if pageLimit < values.length then throw (.malformedResponse contract.tooMany)
    else do
      let items ← ofExcept (values.mapM fun value =>
        contract.parse value request.owner request.repository)
      let base ← ofExcept (parseBaseUrl lib.toUrlCrate config.apiBaseUrl)
      let next ← ofExcept (contract.next value headers base)
      let cursor ← ofExcept (next.mapM fun next =>
        paginationCursor lib next base expectedPath contract.pageSizeParameter)
      let world ← get
      pure (listPage (Ordered.sortBy (·.coordinates.number) items) cursor request.limit pageLimit
        world.rateLimit)

end List

section Providers

variable {Url : Type} (lib : Libraries Url) (config : PullRequestProviderConfig)
  (digest : PullRequestMetadata → List PullRequestChangedFile → Except PullRequestError String)

inductive Adapter
  | gitHub | bitbucket
deriving DecidableEq

def Adapter.kind : Adapter → PullRequestProviderKind
  | .gitHub => .gitHub
  | .bitbucket => .bitbucketCloud

/-- `ProviderCore::new`. -/
def newProvider (adapter : Adapter) : Except PullRequestError Unit := do
  config.validate lib
  if config.provider ≠ adapter.kind then .error .providerMismatch else .ok ()

def Adapter.inspect : Adapter → Cache → (now storedAt : Nat) → PullRequestInspectRequest →
    Call Url (PullRequestInspection × Cache)
  | .gitHub => PullRequests.inspect lib config digest .gitHub githubSegments (githubCollect lib config)
  | .bitbucket =>
    PullRequests.inspect lib config digest .bitbucketCloud bitbucketSegments
      (bitbucketCollect lib config)

def Adapter.list : Adapter → PullRequestListRequest → Call Url PullRequestListPage
  | .gitHub => PullRequests.list lib config (githubList lib)
  | .bitbucket => PullRequests.list lib config (bitbucketList lib)

inductive ProviderRequest
  | inspect (request : PullRequestInspectRequest)
  | list (request : PullRequestListRequest)

def ProviderRequest.consent : ProviderRequest → Bool
  | .inspect request => request.consentToRemoteAccess
  | .list request => request.consentToRemoteAccess

inductive Reply
  | inspection (inspection : PullRequestInspection)
  | page (page : PullRequestListPage)

structure Visit where
  request : ProviderRequest
  turns : List Turn
  now : Nat
  storedAt : Nat

structure Outcome (Url : Type) where
  reply : Except PullRequestError Reply
  cache : Cache
  world : World Url

/-- A failed inspection leaves the cache as it was. -/
def visit (adapter : Adapter) (cache : Cache) (visit : Visit) : Outcome Url :=
  match visit.request with
  | .inspect request =>
    match (adapter.inspect lib config digest cache visit.now visit.storedAt request).run.run
        (World.start visit.turns) with
    | (.ok (inspection, cache), world) => ⟨.ok (.inspection inspection), cache, world⟩
    | (.error e, world) => ⟨.error e, cache, world⟩
  | .list request =>
    match (adapter.list lib config request).run.run (World.start visit.turns) with
    | (.ok page, world) => ⟨.ok (.page page), cache, world⟩
    | (.error e, world) => ⟨.error e, cache, world⟩

/-- The life of a provider, visit by visit, with its cache. -/
def visits (adapter : Adapter) : Cache → List Visit → List (Visit × Outcome Url)
  | _, [] => []
  | cache, next :: later =>
    let outcome := visit lib config digest adapter cache next
    (next, outcome) :: visits adapter outcome.cache later

end Providers
end CodeSystemGraph.PullRequests
