import CodeSystemGraph.DocumentText
import CodeSystemGraph.Ordered
import CodeSystemGraph.PullRequests

/-!
Extraction from one Markdown document. The YAML reader and the Markdown parser, with
its events and their ranges, are parameters.
-/

namespace CodeSystemGraph.Documents

open Text Ordered
open PullRequests (Value)

abbrev Mapping := List (String × Value)

section Mappings

def mappingString (mapping : Mapping) (keys : List String) : Option String :=
  keys.findSome? fun key => (mapping.lookup key).bind Value.asStr

def mappingStrings (mapping : Mapping) (keys : List String) : List String :=
  match keys.findSome? fun key => mapping.lookup key with
  | some (.string value) => [value]
  | some (.array values) => values.filterMap Value.asStr
  | _ => []

def mappingMapping (mapping : Mapping) (key : String) : Option Mapping :=
  match mapping.lookup key with
  | some (.object fields) => some fields
  | _ => none

/-- The sanitized owners of a list, after those there are. -/
def pushOwners (listed : List String) (owners : List String) (state : ExtractionState) :
    List String × ExtractionState :=
  listed.foldl (fun collected owner =>
    match sanitizeOwner owner collected.2 with
    | (some owner, state) => pushUniqueBounded collected.1 owner state
    | (none, state) => (collected.1, state)) (owners, state)

end Mappings

section FrontMatter

structure FrontMatter where
  title : Option String := none
  status : Option String := none
  kind : Option DocumentKind := none
  owners : List String := []
  bodyStart : ℕ := 0

/-- `str::split_inclusive` at line ends. -/
def splitInclusive : List Char → List (List Char)
  | [] => []
  | c :: rest =>
    if c = '\n' then [c] :: splitInclusive rest
    else
      match splitInclusive rest with
      | [] => [[c]]
      | line :: lines => (c :: line) :: lines

/-- The text before the closing line, and what follows that line. -/
def findClosing : List Char → List (List Char) → Option (List Char × List Char)
  | _, [] => none
  | front, line :: lines =>
    if trim line = "---".toList ∨ trim line = "...".toList then some (front, lines.flatten)
    else findClosing (front ++ line) lines

def parseDocumentKind (value : String) : Option DocumentKind :=
  let name := String.ofList (lowercase (trim value.toList))
  if ["markdown", "document", "doc"].contains name then some .markdown
  else if name = "readme" then some .readme
  else if ["adr", "architecture decision record"].contains name then some .adr
  else if ["rfc", "request for comments"].contains name then some .rfc
  else if ["runbook", "playbook"].contains name then some .runbook
  else none

def sanitizeOptional (value : Option String) (state : ExtractionState) :
    Option String × ExtractionState :=
  match value with
  | some value => sanitizeDisplay value state
  | none => (none, state)

def frontMatterOf (mapping : Mapping) (bodyStart : ℕ) (state : ExtractionState) :
    FrontMatter × ExtractionState :=
  let title := sanitizeOptional (mappingString mapping ["title"]) state
  let status := sanitizeOptional (mappingString mapping ["status"]) title.2
  let owners := pushOwners (mappingStrings mapping ["owner", "owners"]) [] status.2
  ({ title := title.1
     status := status.1
     kind := (mappingString mapping ["kind", "type", "document_type"]).bind parseDocumentKind
     owners := owners.1
     bodyStart }, owners.2)

variable (fromYaml : String → Option Value)

def parseFrontMatter (input : List Char) (state : ExtractionState) : FrontMatter × ExtractionState :=
  match splitOnce '\n' input with
  | (_, none) => ({}, state)
  | (first, some rest) =>
    if trim first ≠ "---".toList then ({}, state)
    else
      match findClosing [] (splitInclusive rest) with
      | none => ({}, state.warn "unterminated_front_matter_ignored")
      | some (front, body) =>
        let bodyStart := input.length - body.length
        match fromYaml (String.ofList front) with
        | none => ({ bodyStart }, state.warn "invalid_front_matter_ignored")
        | some (.object mapping) => frontMatterOf mapping bodyStart state
        | some _ => ({ bodyStart }, state.warn "non_mapping_front_matter_ignored")

end FrontMatter

section Structure

inductive Event
  | startHeading (level : ℕ)
  | endHeading
  | text (text : String)
  | code (text : String)
  | softBreak
  | hardBreak
  | startLink (destination : String)
  | other

structure Outline where
  headings : List String := []
  firstH1 : Option String := none
  activeHeading : Option (ℕ × List Char) := none
  references : List ExplicitReference := []
  state : ExtractionState := {}

def appendHeadingText (heading text : List Char) : List Char :=
  let spaced :=
    if heading ≠ [] ∧ !(heading.getLast?.any isWhitespace) ∧ !(text.head?.any isWhitespace) then
      heading ++ [' ']
    else heading
  if (String.ofList spaced).utf8ByteSize < maxDisplayBytes * 2 then spaced ++ text else spaced

def negativePhrases : List String :=
  ["does not depend on", "doesn't depend on", "no dependency on", "not generated by",
    "not produced by", "not created by"]

def dependencyPhrases : List String :=
  ["depends on", "dependency on", "requires", "generated by", "produced by", "created by"]

def repositoryDependencyContext (body : List Char) (offset : ℕ) : Bool :=
  let line := lowercase ((body.take offset).reverse.takeWhile (· != '\n')).reverse
  let clause := (line.reverse.takeWhile fun c => !".;:!?".toList.contains c).reverse
  if negativePhrases.any fun phrase => containsText clause phrase.toList then false
  else
    dependencyPhrases.any fun phrase =>
      match stripSuffix phrase.toList (clause.reverse.dropWhile isWhitespace).reverse with
      | some before => before.isEmpty || before.getLast?.any isWhitespace
      | none => false

def appendText (text : List Char) (outline : Outline) : Outline :=
  match outline.activeHeading with
  | some (level, heading) => { outline with activeHeading := some (level, appendHeadingText heading text) }
  | none => outline

def endHeading (outline : Outline) : Outline :=
  match outline.activeHeading with
  | none => outline
  | some (level, text) =>
    match sanitizeDisplay (String.ofList text) outline.state with
    | (none, state) => { outline with activeHeading := none, state }
    | (some text, state) =>
      if maxItems ≤ outline.headings.length then
        { outline with activeHeading := none, state := state.warn "markdown_heading_limit_reached" }
      else
        { outline with
          activeHeading := none
          firstH1 := if level = 1 ∧ outline.firstH1 = none then some text else outline.firstH1
          headings := outline.headings ++ [text]
          state }

def addLink (input body : List Char) (bodyOffset : ℕ) (destination : String) (start finish : ℕ)
    (outline : Outline) : Outline :=
  match referenceTarget destination true outline.state with
  | (none, state) => { outline with state }
  | (some (kind, target), state) =>
    let kind :=
      if kind = .repository ∧ (hostedRepositorySlug destination.toList).isSome = true ∧
          repositoryDependencyContext body start = true then .repositoryDependency
      else kind
    let evidence := rangeEvidence input (start + bodyOffset) (finish + bodyOffset)
    let pushed := pushReference outline.references ⟨kind, target, evidence⟩ state
    { outline with references := pushed.1, state := pushed.2 }

def outlineEvent (input body : List Char) (bodyOffset : ℕ) (outline : Outline) :
    Event × ℕ × ℕ → Outline
  | (.startHeading level, _, _) => { outline with activeHeading := some (level, []) }
  | (.endHeading, _, _) => endHeading outline
  | (.text text, _, _) => appendText text.toList outline
  | (.code text, _, _) => appendText text.toList outline
  | (.softBreak, _, _) => appendText [' '] outline
  | (.hardBreak, _, _) => appendText [' '] outline
  | (.startLink destination, start, finish) =>
    addLink input body bodyOffset destination start finish outline
  | (.other, _, _) => outline

variable (parseMarkdown : String → List (Event × ℕ × ℕ))

def parseMarkdownStructure (input body : List Char) (bodyOffset : ℕ) (state : ExtractionState) :
    Outline :=
  (parseMarkdown (String.ofList body)).foldl (outlineEvent input body bodyOffset) { state }

end Structure

section Canonical

def referenceBoundary : Option Char → Bool
  | none => true
  | some c => isWhitespace c || "([\x7b<\"'".toList.contains c

def trimReferencePunctuation (value : List Char) : List Char :=
  trimBoth "([\x7b<\"'".toList ".,;!?)]\x7d>\"'".toList value

/-- The reference that one prefix names at an offset. -/
def canonicalReference (input : List Char) (offset : ℕ) (remainder : List Char)
    (collected : List ExplicitReference × ExtractionState) (entry : String × ExplicitReferenceKind) :
    List ExplicitReference × ExtractionState :=
  match stripPrefix entry.1.toList remainder with
  | none => collected
  | some raw =>
    let target := trimReferencePunctuation (raw.takeWhile fun c => !isWhitespace c)
    if target = [] ∨ (entry.2 = .httpContract ∧ "//".toList.isPrefixOf target = true) then collected
    else
      match sanitizeReference (String.ofList target) false collected.2 with
      | (none, state) => (collected.1, state)
      | (some sanitized, state) =>
        pushReference collected.1
          ⟨entry.2, sanitized, rangeEvidence input offset (offset + entry.1.length + target.length)⟩ state

def canonicalReferences (input : List Char) (offset : ℕ) (previous : Option Char) :
    List Char → List ExplicitReference × ExtractionState → List ExplicitReference × ExtractionState
  | [], collected => collected
  | c :: rest, collected =>
    let here :=
      if referenceBoundary previous then
        referencePrefixes.foldl (canonicalReference input offset (c :: rest)) collected
      else collected
    canonicalReferences input (offset + 1) (some c) rest here

def parseCanonicalReferences (input : List Char) (state : ExtractionState) :
    List ExplicitReference × ExtractionState :=
  canonicalReferences input 0 none input ([], state)

end Canonical

section Classification

def pathHasSegment (path : List Char) (candidates : List String) : Bool :=
  (path.splitOn '/').any fun segment => candidates.contains (String.ofList segment)

def beginsWithAny (text : List Char) (literals : List String) : Bool :=
  literals.any fun literal => literal.toList.isPrefixOf text

def lowerTitle (title : String) : List Char := lowercase (trim title.toList)

def titleIsAdr (title : String) : Bool :=
  beginsWithAny (lowerTitle title) ["adr:", "adr ", "architecture decision record"]

def titleIsRfc (title : String) : Bool :=
  beginsWithAny (lowerTitle title) ["rfc:", "rfc ", "request for comments"]

def titleIsRunbook (title : String) : Bool :=
  ["runbook", "playbook"].any fun word =>
    lowerTitle title = word.toList || beginsWithAny (lowerTitle title) [word ++ ":", word ++ " "] ||
      (" " ++ word).toList.isSuffixOf (lowerTitle title)

def classifyByPath (sourcePath : String) (title : Option String) : DocumentKind :=
  let path := lowercase (sourcePath.toList.map fun c => if c = '\\' then '/' else c)
  let name := (fileName (String.ofList path)).toList
  if name = "readme".toList ∨ beginsWithAny name ["readme."] = true then .readme
  else if pathHasSegment path ["adr", "adrs", "decisions"] || beginsWithAny name ["adr-", "adr_"] ||
      title.any titleIsAdr then .adr
  else if pathHasSegment path ["rfc", "rfcs"] || beginsWithAny name ["rfc-", "rfc_"] ||
      title.any titleIsRfc then .rfc
  else if pathHasSegment path ["runbook", "runbooks", "playbook", "playbooks"] ||
      beginsWithAny name ["runbook-", "playbook-"] || title.any titleIsRunbook then .runbook
  else .markdown

def classifyMarkdown (sourcePath : String) (explicit : Option DocumentKind) (title : Option String) :
    DocumentKind :=
  match explicit with
  | some kind =>
    if kind = .codeowners ∨ kind = .serviceCatalog then classifyByPath sourcePath title else kind
  | none => classifyByPath sourcePath title

end Classification

section Extraction

def referenceKinds : List ExplicitReferenceKind :=
  [.repository, .repositoryDependency, .service, .httpContract, .eventChannel, .graphqlOperation,
    .rpcMethod, .databaseTable, .deployment, .configKey, .document, .owner]

def referenceOrder (reference : ExplicitReference) : ℕ ×ₗ ℕ ×ₗ ℕ ×ₗ String :=
  toLex (reference.evidence.start, toLex (reference.evidence.finish,
    toLex (referenceKinds.idxOf reference.kind, reference.target)))

/-- Owners that references name, after those of the front matter. -/
def referencedOwners (references : List ExplicitReference) (owners : List String)
    (state : ExtractionState) : List String × ExtractionState :=
  references.foldl (fun collected reference =>
    if reference.kind = .owner then pushUniqueBounded collected.1 reference.target collected.2
    else collected) (owners, state)

variable (fromYaml : String → Option Value) (parseMarkdown : String → List (Event × ℕ × ℕ))

def extractMarkdown (sourcePath input : String) :
    Except DocumentationExtractionError DocumentationDocument :=
  match validateBounds sourcePath input with
  | .error error => .error error
  | .ok () =>
    let (frontMatter, state) := parseFrontMatter fromYaml input.toList {}
    let body := input.toList.drop frontMatter.bodyStart
    let outline := parseMarkdownStructure parseMarkdown input.toList body frontMatter.bodyStart state
    let canonical := parseCanonicalReferences input.toList outline.state
    let references := (sortBy referenceOrder (outline.references ++ canonical.1)).eraseDups
    let title := frontMatter.title.or outline.firstH1
    let owners := referencedOwners references frontMatter.owners canonical.2
    .ok {
      records := [{
        sourcePath
        kind := classifyMarkdown sourcePath frontMatter.kind title
        title
        status := frontMatter.status
        headings := outline.headings
        owners := owners.1
        references
        warnings := owners.2.warnings
        incomplete := owners.2.incomplete }]
      ownershipRules := []
      warnings := owners.2.warnings
      incomplete := owners.2.incomplete }

end Extraction

end CodeSystemGraph.Documents
