import CodeSystemGraph.Documents

/-!
The sanitizers through which documentation metadata goes, and the references that a
text or a link names.
-/

namespace CodeSystemGraph.Documents

open Text

section Strings

def splitWhitespace (text : List Char) : List (List Char) :=
  (text.splitOnP isWhitespace).filter (· ≠ [])

def collapse (value : String) : String :=
  String.ofList ([' '].intercalate (splitWhitespace value.toList))

def truncateUtf8 (maximum : ℕ) : List Char → List Char
  | [] => []
  | c :: rest => if c.utf8Size ≤ maximum then c :: truncateUtf8 (maximum - c.utf8Size) rest else []

def trimBoth (first last : List Char) (text : List Char) : List Char :=
  ((text.dropWhile first.contains).reverse.dropWhile last.contains).reverse

def trimStartText (literal : List Char) : ℕ → List Char → List Char
  | 0, text => text
  | fuel + 1, text =>
    match stripPrefix literal text with
    | some rest => trimStartText literal fuel rest
    | none => text

def lowercase (text : List Char) : List Char := text.map toAsciiLowercase

end Strings

section Sanitizers

def sanitizeDisplay (value : String) (state : ExtractionState) : Option String × ExtractionState :=
  let value := collapse value
  if value = "" then (none, state)
  else if containsSecretValue value then
    (some redacted, state.warn "secret_bearing_metadata_redacted")
  else if maxDisplayBytes < value.utf8ByteSize then
    (some (String.ofList (truncateUtf8 maxDisplayBytes value.toList)),
      state.warn "oversized_metadata_truncated")
  else (some value, state)

def sanitizeIdentifier (value : String) (maximum : ℕ) (state : ExtractionState) :
    Option String × ExtractionState :=
  let value := String.ofList (trim value.toList)
  if value = "" then (none, state)
  else if maximum < value.utf8ByteSize then (none, state.warn "oversized_identifier_omitted")
  else if containsSecretValue value || value.toList.any isControl then
    (none, state.warn "sensitive_or_invalid_identifier_omitted")
  else (some value, state)

def ownerPunctuation : List Char := "@-_.+:/".toList

def sanitizeOwner (value : String) (state : ExtractionState) : Option String × ExtractionState :=
  match sanitizeIdentifier value maxOwnerBytes state with
  | (some owner, state) =>
    if owner.toList.all fun c => isAsciiAlphanumeric c || ownerPunctuation.contains c then
      (some owner, state)
    else (none, state.warn "invalid_owner_omitted")
  | (none, state) => (none, state)

def urlAuthority (value : List Char) : Option (List Char) :=
  (afterFirst "://".toList value).map fun rest => rest.takeWhile (· != '/')

/-- A link without its query and fragment, or as it is when it is a fragment. -/
def stripLinkComponents (value : List Char) : List Char :=
  if value.head? = some '#' then value else value.takeWhile fun c => c != '?' && c != '#'

def sanitizeReference (value : String) (stripComponents : Bool) (state : ExtractionState) :
    Option String × ExtractionState :=
  let trimmed := trimBoth ['<', '>'] ['<', '>'] (trim value.toList)
  let value := if stripComponents then stripLinkComponents trimmed else trimmed
  if stripComponents && (urlAuthority value).any (fun authority => authority.contains '@') then
    (none, state.warn "credential_bearing_link_omitted")
  else if value = [] then (none, state)
  else if maxReferenceBytes < (String.ofList value).utf8ByteSize then
    (none, state.warn "oversized_reference_omitted")
  else if containsSecretValue (String.ofList value) then
    (none, state.warn "secret_bearing_reference_omitted")
  else if value.any isControl then (none, state.warn "invalid_reference_omitted")
  else (some (String.ofList value), state)

end Sanitizers

section References

def referencePrefixes : List (String × ExplicitReferenceKind) :=
  [("repository:", .repository), ("deployment:", .deployment), ("graphql:", .graphqlOperation),
    ("document:", .document), ("service:", .service), ("config:", .configKey),
    ("event:", .eventChannel), ("owner:", .owner), ("table:", .databaseTable),
    ("repo:", .repository), ("http:", .httpContract), ("rpc:", .rpcMethod)]

def hostName (authority : List Char) : List Char :=
  let host := match rsplitOnce '@' authority with
    | some (_, host) => host
    | none => authority
  lowercase (trimStartText "www.".toList host.length (host.takeWhile (· != ':')))

/-- The two segments of a path, the second without `.git` at its end. -/
def repositoryPath (path : List Char) : Option (List Char × List Char) :=
  match ((path.takeWhile fun c => c != '?' && c != '#').splitOn '/').filter (· ≠ []) with
  | [owner, repository] =>
    let repository := (trimStartText ".git".toList.reverse repository.length repository.reverse).reverse
    if repository = [] then none else some (owner, repository)
  | _ => none

def repositoryHosts : List String := ["github.com", "gitlab.com", "bitbucket.org"]

def hostedRepositorySlug (value : List Char) : Option String :=
  match afterFirst "://".toList value with
  | none => none
  | some remainder =>
    match splitOnce '/' remainder with
    | (_, none) => none
    | (authority, some path) =>
      if repositoryHosts.contains (String.ofList (hostName authority)) then
        (repositoryPath path).map fun parts =>
          String.ofList (hostName authority ++ '/' :: (parts.1 ++ '/' :: parts.2))
      else none

/-- The first prefix that a text begins with, and what follows it. -/
def namedReference (raw : List Char) : Option (ExplicitReferenceKind × List Char) :=
  referencePrefixes.findSome? fun entry =>
    (stripPrefix entry.1.toList raw).map fun target => (entry.2, target)

def referenceTarget (raw : String) (markdownLink : Bool) (state : ExtractionState) :
    Option (ExplicitReferenceKind × String) × ExtractionState :=
  match namedReference raw.toList with
  | some (kind, target) =>
    let sanitized := sanitizeReference (String.ofList target) false state
    (sanitized.1.map fun target => (kind, target), sanitized.2)
  | none =>
    if !markdownLink then (none, state)
    else
      let sanitized := sanitizeReference raw true state
      (sanitized.1.map fun target =>
        match hostedRepositorySlug target.toList with
        | some repository => (.repository, repository)
        | none => (.document, target), sanitized.2)

end References

section Lines

def charLine (input : List Char) (offset : ℕ) : ℕ := min ((input.take offset).count '\n' + 1) u32Max

def rangeEvidence (input : List Char) (start finish : ℕ) : LineEvidence :=
  let first := charLine input start
  ⟨first, max (charLine input (max (finish - 1) start)) first⟩

def documentEvidence (input : List Char) : LineEvidence :=
  ⟨1, min (max (textLines input).length 1) u32Max⟩

end Lines

end CodeSystemGraph.Documents
