import CodeSystemGraph.Model
import CodeSystemGraph.Ordered
import CodeSystemGraph.Text

/-! Requests of the pull request providers. The transport is an adversary: each turn says
whether the caller has cancelled and what comes back. The `url` crate, the JSON decoder
and the fingerprint are parameters. -/

namespace CodeSystemGraph.PullRequests
open Model

section Data

inductive PullRequestProviderKind
  | gitHub | bitbucketCloud | bitbucketDataCenter
deriving DecidableEq

structure PullRequestCoordinates where
  provider : PullRequestProviderKind
  owner : String
  repository : String
  number : Nat
deriving DecidableEq

structure PullRequestProviderConfig where
  provider : PullRequestProviderKind
  enabled : Bool
  apiBaseUrl : String
  apiBaseUrlAllowlist : List String
  allowLoopbackHttp : Bool
  authToken : String
  basicAuthUsername : Option String
  requestTimeoutMs : Nat
  maxOutputBytes : Nat
  maxItems : Nat
  maxPages : Nat
  cacheTtlSeconds : Nat
deriving DecidableEq

structure PullRequestRateLimit where
  limit : Option Nat
  remaining : Option Nat
  reset : Option String
  retryAfterSeconds : Option Nat
deriving DecidableEq

structure PullRequestWarning where
  code : String
  message : String
deriving DecidableEq

inductive PullRequestError
  | disabled
  | consentRequired
  | invalidConfiguration (message : String)
  | providerMismatch
  | unsupportedProvider
  | cancelled
  | timeout
  | outputLimitExceeded
  | rateLimited (status : Nat) (metadata : PullRequestRateLimit)
  | api (status : Nat) (message : String)
  | malformedResponse (message : String)
  | transport (message : String)
deriving DecidableEq

inductive PrHttpAuthentication
  | none
  | bearer (token : String)
  | basic (username token : String)
deriving DecidableEq

/-- A request as the transport gets it. Its URL is the parsed one; the method is always
`GET`. -/
structure PrHttpRequest (Url : Type) where
  url : Url
  headers : List (String × String)
  authentication : PrHttpAuthentication
  maxResponseBytes : Nat
  timeoutMs : Nat

structure PrHttpResponse where
  status : Nat
  headers : List (String × String)
  body : Bytes
deriving DecidableEq

inductive JsonNumber
  | unsigned (n : Nat) | negative (n : Int) | float (bits : UInt64)
deriving DecidableEq

inductive Value
  | null
  | bool (value : Bool)
  | number (value : JsonNumber)
  | string (value : String)
  | array (items : List Value)
  | object (fields : List (String × Value))

end Data

section Json

def Value.get (value : Value) (field : String) : Option Value :=
  match value with
  | .object fields => fields.lookup field
  | _ => none

def Value.asStr : Value → Option String
  | .string value => some value
  | _ => none

def Value.asBool : Value → Option Bool
  | .bool value => some value
  | _ => none

def Value.asU64 : Value → Option Nat
  | .number (.unsigned n) => some n
  | _ => none

def Value.asArray : Value → Option (List Value)
  | .array items => some items
  | _ => none

def Value.isNull : Value → Bool
  | .null => true
  | _ => false

/-- `ok_or_else` with a malformed response. -/
def orMalformed {α : Type} (value : Option α) (message : String) : Except PullRequestError α :=
  match value with
  | some a => .ok a
  | none => .error (.malformedResponse message)

def requiredField (value : Value) (field : String) : Except PullRequestError Value :=
  orMalformed (value.get field) ("missing required field `" ++ field ++ "`")

def requiredString (value : Value) (field : String) : Except PullRequestError String := do
  let found ← requiredField value field
  orMalformed (found.asStr.filter fun text => !text.isEmpty) ("field `" ++ field ++ "` must be a string")

def optionalString (value : Value) (field : String) : Option String := (value.get field).bind Value.asStr

def requiredArray (value : Value) (field : String) : Except PullRequestError (List Value) :=
  orMalformed value.asArray ("field `" ++ field ++ "` must be an array")

def nested (value : Value) (fields : List String) : Except PullRequestError Value :=
  fields.foldlM requiredField value

def nestedString (value : Value) (fields : List String) : Except PullRequestError String :=
  match fields.getLast? with
  | none => .error (.malformedResponse "empty JSON field path")
  | some last => do requiredString (← nested value fields.dropLast) last

def valueId (value : Value) (field : String) : Except PullRequestError String := do
  let id ← requiredField value field
  orMalformed (id.asStr.or (id.asU64.map toString))
    ("field `" ++ field ++ "` must be a string or integer")

def requiredU64 (value : Value) (field : String) : Except PullRequestError Nat := do
  orMalformed (← requiredField value field).asU64
    ("field `" ++ field ++ "` must be a non-negative integer")

end Json

section Urls

/-- What the providers use of the `url` crate. An opaque origin is equal to none, so it is
`none` here. -/
structure UrlCrate (Url : Type) where
  parse : String → Option Url
  join : Url → String → Option Url
  origin : Url → Option (String × Option String × Option Nat)
  scheme : Url → String
  hostStr : Url → Option String
  portOrKnownDefault : Url → Option Nat
  cannotBeABase : Url → Bool
  username : Url → String
  password : Url → Option String
  query : Url → Option String
  fragment : Url → Option String
  path : Url → String
  text : Url → String
  strip : Url → Url
  setPath : Url → String → Url
  extendPath : Url → List String → Option Url
  appendPairs : Url → List (String × String) → Url
  queryPairs : Url → List (String × String)

variable {Url : Type} (urls : UrlCrate Url)

def UrlCrate.sameOrigin (left right : Url) : Bool :=
  match urls.origin left, urls.origin right with
  | some origin, some origin' => origin = origin'
  | _, _ => false

def trimEndMatches (c : Char) (text : String) : String :=
  String.ofList (text.toList.reverse.dropWhile (· = c)).reverse

def trimStartMatches (c : Char) (text : String) : String := String.ofList (text.toList.dropWhile (· = c))

def parseBaseUrl (value : String) : Except PullRequestError Url :=
  match urls.parse value with
  | none => .error (.invalidConfiguration "provider API base URL is invalid")
  | some url =>
    if urls.cannotBeABase url || (urls.hostStr url).isNone || !(urls.username url).isEmpty ||
        (urls.password url).isSome || (urls.query url).isSome || (urls.fragment url).isSome then
      .error (.invalidConfiguration "provider API base URL must be an absolute credential-free URL")
    else .ok url

def normalizeBaseUrl (url : Url) : String :=
  let url := urls.strip url
  let url := urls.setPath url (trimEndMatches '/' (urls.path url))
  trimEndMatches '/' (urls.text url)

def eqIgnoreAsciiCase (left right : String) : Bool :=
  left.toList.map Text.toAsciiLowercase = right.toList.map Text.toAsciiLowercase

/-- `isLoopbackAddress` is `parse::<IpAddr>` followed by `is_loopback`. -/
def isLoopback (isLoopbackAddress : String → Bool) (url : Url) : Bool :=
  (urls.hostStr url).any fun host => eqIgnoreAsciiCase host "localhost" || isLoopbackAddress host

def validatePaginationOrigin (base candidate : Url) : Except PullRequestError Unit :=
  if urls.scheme base ≠ urls.scheme candidate || urls.hostStr base ≠ urls.hostStr candidate ||
      urls.portOrKnownDefault base ≠ urls.portOrKnownDefault candidate then
    .error (.malformedResponse "pagination URL escaped the configured provider origin")
  else .ok ()

end Urls

section Texts

def redacted : String := "[REDACTED]"

def redactMessage (message token : String) : String :=
  let bounded := String.ofList (message.toList.take 512)
  if token.isEmpty then bounded else bounded.replace token redacted

def header (headers : List (String × String)) (name : String) : Option String :=
  (headers.find? fun entry => eqIgnoreAsciiCase entry.1 name).map (·.2)

def parseU64 (text : String) : Option Nat := Text.parseUnsigned (2 ^ 64) text.toList

def rateLimitFromHeaders (headers : List (String × String)) : PullRequestRateLimit where
  limit := (header headers "x-ratelimit-limit").bind parseU64
  remaining := (header headers "x-ratelimit-remaining").bind parseU64
  reset := header headers "x-ratelimit-reset"
  retryAfterSeconds := (header headers "retry-after").bind parseU64

def limitWarning (subject : String) : PullRequestWarning :=
  ⟨"limit_reached", subject ++ " stopped at the configured limit"⟩

def providerScopeWarning (subject : String) : PullRequestWarning :=
  ⟨"provider_scope_missing",
    "Provider credentials cannot read " ++ subject ++ "; the corresponding result is unknown"⟩

end Texts

structure Libraries (Url : Type) extends UrlCrate Url where
  isLoopbackAddress : String → Bool
  fromSlice : Bytes → Except String Value

section Validate

variable {Url : Type} (lib : Libraries Url)

def PullRequestProviderConfig.validate (config : PullRequestProviderConfig) :
    Except PullRequestError Unit :=
  if config.requestTimeoutMs = 0 || config.maxOutputBytes = 0 || config.maxItems = 0 ||
      config.maxPages = 0 then
    .error (.invalidConfiguration "request bounds must be greater than zero")
  else if config.basicAuthUsername.any fun username =>
      Text.isBlank username || username.toList.any Text.isControl then
    .error (.invalidConfiguration "Basic-auth username must be non-empty and control-free")
  else do
    let base ← parseBaseUrl lib.toUrlCrate config.apiBaseUrl
    if isLoopback lib.toUrlCrate lib.isLoopbackAddress base && config.allowLoopbackHttp then .ok ()
    else if lib.scheme base ≠ "https" then
      .error (.invalidConfiguration "provider API base URL must use HTTPS")
    else if (config.apiBaseUrlAllowlist.filterMap lib.parse).any fun candidate =>
        lib.scheme candidate = "https" ∧
          normalizeBaseUrl lib.toUrlCrate candidate = normalizeBaseUrl lib.toUrlCrate base then .ok ()
    else .error (.invalidConfiguration "provider API base URL is not allowlisted")

end Validate

section Transport

/-- What the environment does in one turn of the request loop. -/
inductive Answer
  | cancelled
  | timedOut
  | failed (message : String)
  | response (response : PrHttpResponse)

structure Turn where
  cancelledBefore : Bool
  answer : Answer

inductive Endpoint
  | metadata | files | checks | reviews | list
deriving DecidableEq

/-- The state of one provider call: the budget and the warnings, the turns to come, and
for the statements the requests sent for each endpoint and the accepted body lengths. -/
structure World (Url : Type) where
  turns : List Turn
  outputBytes : Nat
  rateLimit : PullRequestRateLimit
  warnings : List PullRequestWarning
  sent : List (Endpoint × PrHttpRequest Url)
  accepted : List Nat

def World.start {Url : Type} (turns : List Turn) : World Url where
  turns := turns
  outputBytes := 0
  rateLimit := ⟨none, none, none, none⟩
  warnings := []
  sent := []
  accepted := []

abbrev Call (Url : Type) := ExceptT PullRequestError (StateM (World Url))

/-- The next turn; a transport that never answers runs into the timeout. -/
def World.turn {Url : Type} (world : World Url) : Turn := world.turns.head?.getD ⟨false, .timedOut⟩

variable {Url : Type} (lib : Libraries Url) (config : PullRequestProviderConfig)

def ofExcept {α : Type} (result : Except PullRequestError α) : Call Url α := ExceptT.mk (pure result)

def warn (warning : PullRequestWarning) : Call Url Unit :=
  modify fun world => { world with warnings := world.warnings ++ [warning] }

def authentication : PrHttpAuthentication :=
  if config.authToken.isEmpty then .none
  else
    match config.basicAuthUsername with
    | some username => .basic username config.authToken
    | none => .bearer config.authToken

def transportRequest (url : Url) (etag : Option String) (remaining : Nat) : PrHttpRequest Url where
  url := url
  headers := [("accept", "application/json"), ("user-agent", "code-system-graph")] ++
    (etag.map fun etag => ("if-none-match", etag)).toList
  authentication := authentication config
  maxResponseBytes := remaining
  timeoutMs := config.requestTimeoutMs

/-- One turn of the loop: the checks before the request, the request and the budget. -/
def sendOnce (endpoint : Endpoint) (url : Url) (etag : Option String) : Call Url PrHttpResponse := do
  let world ← get
  let remaining := config.maxOutputBytes - world.outputBytes
  if world.turn.cancelledBefore then throw .cancelled
  else if remaining = 0 then throw .outputLimitExceeded
  else do
    set { world with
      turns := world.turns.tail
      sent := world.sent ++ [(endpoint, transportRequest config url etag remaining)] }
    match world.turn.answer with
    | .cancelled => throw .cancelled
    | .timedOut => throw .timeout
    | .failed message => throw (.transport (redactMessage message config.authToken))
    | .response response =>
      if remaining < response.body.length then throw .outputLimitExceeded
      else do
        modify fun world => { world with
          outputBytes := world.outputBytes + response.body.length
          accepted := world.accepted ++ [response.body.length]
          rateLimit := rateLimitFromHeaders response.headers }
        pure response

def redirectStatuses : List Nat := [301, 302, 303, 307, 308]

/-- Where a redirect leads, or why it is refused. -/
def redirectTarget (url : Url) (response : PrHttpResponse) : Except PullRequestError Url := do
  let location ← orMalformed (header response.headers "location")
    "provider redirect omitted the location header"
  let redirected ← orMalformed (lib.join url location) "provider returned an invalid redirect URL"
  if lib.sameOrigin redirected url then .ok redirected
  else .error (.api response.status "provider redirect crossed the configured origin")

def maxSameOriginRedirects : Nat := 3

/-- The request loop with the redirects that are left. -/
def sendJsonRequest (endpoint : Endpoint) (etag : Option String) :
    (redirectsLeft : Nat) → (url : Url) → Call Url PrHttpResponse
  | redirectsLeft, url => do
    let response ← sendOnce config endpoint url etag
    if response.status ∈ redirectStatuses then
      match redirectsLeft with
      | 0 => throw (.api response.status "provider redirect limit exceeded")
      | redirectsLeft + 1 => do
        let redirected ← ofExcept (redirectTarget lib url response)
        sendJsonRequest endpoint etag redirectsLeft redirected
    else pure response

inductive FetchJson
  | notModified
  | value (value : Value) (etag : Option String) (headers : List (String × String))

def apiErrorMessage (body : Bytes) : String :=
  let message :=
    match lib.fromSlice body with
    | .error _ => none
    | .ok value =>
      (optionalString value "message").or ((value.get "error").bind (optionalString · "message"))
  redactMessage (message.getD "provider returned an error") config.authToken

def getJson (endpoint : Endpoint) (url : Url) (etag : Option String) : Call Url FetchJson := do
  let response ← sendJsonRequest lib config endpoint etag maxSameOriginRedirects url
  if response.status = 304 then pure .notModified
  else do
    let world ← get
    if response.status = 429 ∨ response.status = 403 ∧
        (world.rateLimit.remaining = some 0 ∨ world.rateLimit.retryAfterSeconds.isSome) then
      throw (.rateLimited response.status world.rateLimit)
    else if ¬(200 ≤ response.status ∧ response.status < 300) then
      throw (.api response.status (apiErrorMessage lib config response.body))
    else
      match lib.fromSlice response.body with
      | .error message => throw (.malformedResponse message)
      | .ok value => pure (.value value (header response.headers "etag") response.headers)

def providerUrl (segments : List String) : Except PullRequestError Url := do
  let url ← parseBaseUrl lib.toUrlCrate config.apiBaseUrl
  match lib.extendPath url segments with
  | some url => .ok url
  | none => .error (.invalidConfiguration "provider API base URL cannot be a base")

end Transport

section Pages

variable {Url : Type} (lib : Libraries Url) (config : PullRequestProviderConfig)

/-- The targets of a `Link` header whose relation is `next`. -/
def nextLinks (link : String) : List String :=
  (link.toList.splitOn ',').filterMap fun part =>
    match (Text.trim part).splitOn ';' with
    | [] => none
    | target :: sections =>
      if sections.any fun part => Text.trim part = "rel=\"next\"".toList then
        some (trimEndMatches '>' (trimStartMatches '<' (String.ofList (Text.trim target))))
      else none

def githubNextUrl (headers : List (String × String)) (base : Url) :
    Except PullRequestError (Option Url) :=
  match ((header headers "link").map nextLinks).getD [] with
  | [] => .ok none
  | raw :: _ => do
    let candidate ← orMalformed (lib.parse raw) "GitHub returned an invalid pagination URL"
    validatePaginationOrigin lib.toUrlCrate base candidate
    .ok (some candidate)

def bitbucketNext (value : Value) : Except PullRequestError (Option Url) :=
  match optionalString value "next" with
  | none => .ok none
  | some next => do
    let candidate ← orMalformed (lib.parse next) "Bitbucket returned an invalid pagination URL"
    .ok (some candidate)

variable {T : Type} (endpoint : Endpoint) (parse : Value → Except PullRequestError T)

def collectItems : List Value → List T → Call Url (List T)
  | [], output => pure output
  | item :: items, output =>
    if config.maxItems ≤ output.length then do
      warn (limitWarning "items")
      pure output
    else do
      let parsed ← ofExcept (parse item)
      collectItems items (output ++ [parsed])

variable (values : Value → Except PullRequestError (List Value))
  (next : Value → List (String × String) → Except PullRequestError (Option Url))

/-- The page loop of both providers, with the pages that are left. -/
def paginated : (pagesLeft : Nat) → Option Url → List T → Call Url (List T)
  | _, none, output => pure output
  | 0, some _, output => do
    warn (limitWarning "pagination")
    pure output
  | pagesLeft + 1, some url, output =>
    if config.maxItems ≤ output.length then do
      warn (limitWarning "pagination")
      pure output
    else do
      let response ← getJson lib config endpoint url none
      match response with
      | .notModified => throw (.malformedResponse "unexpected 304 for uncached page")
      | .value value _ headers => do
        let items ← ofExcept (values value)
        let output ← collectItems config parse items output
        let following ← ofExcept (next value headers)
        paginated pagesLeft following output

def githubPaginatedImpl (initial : Url) (key : Option String) : Call Url (List T) :=
  paginated lib config endpoint parse
    (fun value =>
      match key with
      | some key => do requiredArray (← requiredField value key) key
      | none => requiredArray value "page")
    (fun _ headers => do githubNextUrl lib headers (← parseBaseUrl lib.toUrlCrate config.apiBaseUrl))
    config.maxPages (some initial) []

def bitbucketPaginated (initial : Url) : Call Url (List T) :=
  paginated lib config endpoint parse
    (fun value => do requiredArray (← requiredField value "values") "values")
    (fun value _ => do
      match ← bitbucketNext lib value with
      | none => .ok none
      | some candidate => do
        validatePaginationOrigin lib.toUrlCrate (← parseBaseUrl lib.toUrlCrate config.apiBaseUrl)
          candidate
        .ok (some candidate))
    config.maxPages (some initial) []

def bitbucketOptionalPaginated (initial : Url) (subject : String) : Call Url (List T) :=
  tryCatch (bitbucketPaginated lib config endpoint parse initial) fun error =>
    match error with
    | .api status message =>
      if status = 401 ∨ status = 403 then do
        warn (providerScopeWarning subject)
        pure []
      else throw (.api status message)
    | error => throw error

end Pages
end CodeSystemGraph.PullRequests
