import CodeSystemGraph.ChangePatch
import Mathlib.Data.Prod.Lex
import Mathlib.Order.WithBot

/-! Mapping one changed file to the evidence of the graph: by the lines of its hunks, or by
its path alone where there are none to compare. -/

namespace CodeSystemGraph.Changes
open Model Ordered

inductive ChangedPathSide
  | old | new
deriving DecidableEq

inductive EvidenceMatchKind
  | hunkIntersection | filePathFallback
deriving DecidableEq

structure HunkLineMatch where
  evidenceId : EvidenceId
  pathSide : ChangedPathSide
  kind : EvidenceMatchKind
  hunkIndex : Option ℕ
  hunkStart : Option ℕ
  hunkEnd : Option ℕ
  evidenceStart : Option ℕ
  evidenceEnd : Option ℕ
deriving DecidableEq

inductive MappingCompleteness
  | complete | partialMapping | unknown
deriving DecidableEq

structure ChangedArtifactMapping where
  oldPath : Option NativePath
  newPath : Option NativePath
  status : ChangedFileStatus
  layer : ChangeSourceLayer
  matchedEvidenceIds : List EvidenceId
  artifactNodeIds : List NodeId
  symbolRefNodeIds : List NodeId
  boundaryNodeIds : List NodeId
  hunkMatches : List HunkLineMatch
  completeness : MappingCompleteness
  gaps : List String
deriving DecidableEq

structure MappingWork where
  mapping : ChangedArtifactMapping
  representablePaths : List String
deriving DecidableEq

section Paths

/-- `char::decode_utf16`, which fails on an unpaired surrogate. -/
def decodeUtf16 : List ℕ → Option (List Char)
  | [] => some []
  | unit :: rest =>
    if unit < 0xD800 ∨ 0xDFFF < unit then (decodeUtf16 rest).map (Char.ofNat unit :: ·)
    else
      match rest with
      | [] => none
      | low :: rest =>
        if unit ≤ 0xDBFF ∧ 0xDC00 ≤ low ∧ low ≤ 0xDFFF then
          (decodeUtf16 rest).map
            (Char.ofNat (0x10000 + (unit - 0xD800) * 0x400 + (low - 0xDC00)) :: ·)
        else none

/-- The units of little-endian byte pairs, unless a byte is left. -/
def utf16Units : Bytes → Option (List ℕ)
  | [] => some []
  | [_] => none
  | low :: high :: rest => (utf16Units rest).map fun units => (low.toNat + 256 * high.toNat) :: units

def nativePathText (path : NativePath) : Option String :=
  match path.encoding with
  | .unixBytes | .utf8 => (fromUtf8 path.bytes).map String.ofList
  | .windowsWide => ((utf16Units path.bytes).bind decodeUtf16).map String.ofList

def sideName : ChangedPathSide → String
  | .old => "old"
  | .new => "new"

def relevantSides (file : ChangedFile) : List (ChangedPathSide × NativePath) :=
  match file.status with
  | .deleted => (file.oldPath.map (ChangedPathSide.old, ·)).toList
  | .renamed => (file.oldPath.map (ChangedPathSide.old, ·)).toList ++
      (file.newPath.map (ChangedPathSide.new, ·)).toList
  | _ => ((file.newPath.or file.oldPath).map (ChangedPathSide.new, ·)).toList

def expectedSideCount (file : ChangedFile) : ℕ :=
  match file.status with
  | .renamed => file.oldPath.isSome.toNat + file.newPath.isSome.toNat
  | _ => (file.oldPath.isSome || file.newPath.isSome).toNat

end Paths

section Ranges

def inclusiveRange (start count : ℕ) : Option (ℕ × ℕ) :=
  if 0 < count then some (start, saturatingAdd start (count - 1)) else none

def sideRange (side : ChangedPathSide) (hunk : ChangeHunk) : Option (ℕ × ℕ) :=
  match side with
  | .old => inclusiveRange hunk.oldStart hunk.oldCount
  | .new => inclusiveRange hunk.newStart hunk.newCount

def hunkRanges (file : ChangedFile) (side : ChangedPathSide) : List (ℕ × ℕ × ℕ) :=
  file.hunks.zipIdx.filterMap fun entry => (sideRange side entry.1).map (entry.2, ·)

def evidenceRange (evidence : Evidence) : Option (ℕ × ℕ) :=
  match evidence.startLine, evidence.endLine with
  | some start, some stop => if start ≤ stop then some (start.toNat, stop.toNat) else none
  | _, _ => none

def rangesIntersect (left right : ℕ × ℕ) : Bool := left.1 ≤ right.2 && right.1 ≤ left.2

end Ranges

section Order

def sideRank : ChangedPathSide → ℕ
  | .old => 0
  | .new => 1

def kindRank : EvidenceMatchKind → ℕ
  | .hunkIntersection => 0
  | .filePathFallback => 1

/-- The order of the explanations; an absent number comes first. -/
def matchKey (item : HunkLineMatch) :
    String ×ₗ ℕ ×ₗ ℕ ×ₗ WithBot ℕ ×ₗ WithBot ℕ ×ₗ WithBot ℕ ×ₗ WithBot ℕ ×ₗ WithBot ℕ :=
  toLex (item.evidenceId, toLex (sideRank item.pathSide, toLex (kindRank item.kind,
    toLex (item.hunkIndex, toLex (item.hunkStart, toLex (item.hunkEnd,
      toLex (item.evidenceStart, item.evidenceEnd)))))))

end Order

section Mapping

/-- What the loops over the sides and the evidence collect. -/
structure MappingState where
  gaps : List String
  matchedEvidence : List EvidenceId
  explanations : List HunkLineMatch
  representablePaths : List String
  unrepresentable : Bool
  matchedSides : List ChangedPathSide
  lineMatch : Bool
  fallbackMatch : Bool

def MappingState.start : MappingState := ⟨[], [], [], [], false, [], false, false⟩

variable (file : ChangedFile) (repoId : RepoId)

def matchExplanation (evidence : Evidence) (side : ChangedPathSide) (kind : EvidenceMatchKind)
    (hunkIndex : Option ℕ) (hunkRange : Option (ℕ × ℕ)) : HunkLineMatch where
  evidenceId := evidence.id
  pathSide := side
  kind := kind
  hunkIndex := hunkIndex
  hunkStart := hunkRange.map (·.1)
  hunkEnd := hunkRange.map (·.2)
  evidenceStart := evidence.startLine.map (·.toNat)
  evidenceEnd := evidence.endLine.map (·.toNat)

def atPath (pathText : String) (item : Evidence) : Bool :=
  item.repoId == some repoId && item.filePath == some pathText

def intersections (side : ChangedPathSide) (item : Evidence) : List (ℕ × ℕ × ℕ) :=
  (evidenceRange item).elim [] fun range =>
    (hunkRanges file side).filter fun entry => rangesIntersect entry.2 range

/-- A file whose lines were not compared. -/
def withoutLines : Bool := file.binary || file.status == .untracked

def visitEvidence (side : ChangedPathSide) (pathText : String) (state : MappingState)
    (item : Evidence) : MappingState :=
  if !atPath repoId pathText item then state
  else if !withoutLines file && !(intersections file side item).isEmpty then
    { state with
      lineMatch := true
      matchedSides := state.matchedSides ++ [side]
      matchedEvidence := state.matchedEvidence ++ [item.id]
      explanations := state.explanations ++ (intersections file side item).map fun entry =>
        matchExplanation item side .hunkIntersection (some entry.1) (some entry.2) }
  else if withoutLines file || (evidenceRange item).isNone || (hunkRanges file side).isEmpty then
    { state with
      fallbackMatch := true
      matchedSides := state.matchedSides ++ [side]
      matchedEvidence := state.matchedEvidence ++ [item.id]
      explanations := state.explanations ++ [matchExplanation item side .filePathFallback none none] }
  else state

def visitSide (evidence : List Evidence) (state : MappingState) (entry : ChangedPathSide × NativePath) :
    MappingState :=
  match nativePathText entry.2 with
  | none =>
    { state with
      unrepresentable := true
      gaps := state.gaps ++
        [sideName entry.1 ++ " path cannot be represented as Unicode for evidence matching"] }
  | some pathText =>
    evidence.foldl (visitEvidence file repoId entry.1 pathText)
      { state with representablePaths := state.representablePaths ++ [pathText] }

def isBoundaryKind (kind : NodeKind) : Bool :=
  kind ∈ [.package, .httpOperation, .graphqlOperation, .rpcMethod, .eventChannel, .eventSchema,
    .database, .databaseTable, .databaseColumn, .configKey]

/-- The nodes of a kind at the ends of the edges with the evidence. -/
def nodesForEvidence (evidenceIds : List EvidenceId) (edges : List Edge)
    (nodes : BTreeMap NodeId Node) (kind : NodeKind → Bool) : List NodeId :=
  sortedUnique (((edges.filter fun edge => edge.evidence.any evidenceIds.contains).flatMap
    fun edge => [edge.source, edge.target]).filter fun id => nodes[id]?.any fun node => kind node.kind)

def gapIf (condition : Bool) (gap : String) : List String := if condition then [gap] else []

variable (edges : List Edge) (nodes : BTreeMap NodeId Node) (evidence : BTreeMap EvidenceId Evidence)

def mappingState : MappingState :=
  (relevantSides file).foldl (visitSide file repoId (values evidence)) MappingState.start

def matchedSideCount (state : MappingState) : ℕ := (sortDedup sideRank state.matchedSides).length

def mappingCompleteness (state : MappingState) (boundaryNodeIds : List NodeId) :
    MappingCompleteness :=
  if state.unrepresentable || state.matchedEvidence.isEmpty then .unknown
  else if !withoutLines file && state.lineMatch && !state.fallbackMatch &&
      matchedSideCount state == expectedSideCount file && !boundaryNodeIds.isEmpty then .complete
  else .partialMapping

def mapChangedFile : MappingWork :=
  let state := mappingState file repoId evidence
  let artifactNodeIds := nodesForEvidence state.matchedEvidence edges nodes (· == .artifact)
  let symbolRefNodeIds := nodesForEvidence state.matchedEvidence edges nodes (· == .symbolRef)
  let boundaryNodeIds := nodesForEvidence state.matchedEvidence edges nodes isBoundaryKind
  let gaps := state.gaps ++
    gapIf file.binary "binary change has no line-level semantic evidence" ++
    gapIf (file.status == .untracked) "untracked file body and line changes were not collected" ++
    gapIf state.matchedEvidence.isEmpty
      "no persisted evidence matched the changed path and hunk ranges" ++
    gapIf state.fallbackMatch "one or more evidence records matched only at file-path level" ++
    gapIf (matchedSideCount state < expectedSideCount file)
      "not every required old/new path neighborhood matched persisted evidence" ++
    gapIf (!state.matchedEvidence.isEmpty && artifactNodeIds.isEmpty && symbolRefNodeIds.isEmpty &&
        boundaryNodeIds.isEmpty)
      "matched evidence is not attached to a supported semantic graph node" ++
    gapIf boundaryNodeIds.isEmpty
      "no exact changed boundary node was established for impact propagation"
  { mapping := {
      oldPath := file.oldPath
      newPath := file.newPath
      status := file.status
      layer := file.source
      matchedEvidenceIds := sortedUnique state.matchedEvidence
      artifactNodeIds
      symbolRefNodeIds
      boundaryNodeIds
      hunkMatches := sortDedup matchKey state.explanations
      completeness := mappingCompleteness file state boundaryNodeIds
      gaps := sortedUnique gaps }
    representablePaths := sortedUnique state.representablePaths }

end Mapping

section Visits

variable {file : ChangedFile} {repoId : RepoId} {side : ChangedPathSide} {pathText : String}

def lineHit (file : ChangedFile) (repoId : RepoId) (side : ChangedPathSide) (pathText : String)
    (item : Evidence) : Bool :=
  atPath repoId pathText item && (!withoutLines file && !(intersections file side item).isEmpty)

def pathHit (file : ChangedFile) (repoId : RepoId) (side : ChangedPathSide) (pathText : String)
    (item : Evidence) : Bool :=
  atPath repoId pathText item && (!(!withoutLines file && !(intersections file side item).isEmpty) &&
    (withoutLines file || (evidenceRange item).isNone || (hunkRanges file side).isEmpty))

/-- What a loop over the evidence has added to the state. -/
structure Visited (hits paths : List Evidence) (side : ChangedPathSide) (s t : MappingState) : Prop where
  matched : ∀ id, id ∈ t.matchedEvidence ↔
    id ∈ s.matchedEvidence ∨ ∃ item, (item ∈ hits ∨ item ∈ paths) ∧ item.id = id
  sides : ∀ other, other ∈ t.matchedSides ↔
    other ∈ s.matchedSides ∨ other = side ∧ (hits ≠ [] ∨ paths ≠ [])
  lines : t.lineMatch = (s.lineMatch || !hits.isEmpty)
  fallback : t.fallbackMatch = (s.fallbackMatch || !paths.isEmpty)
  unrepresentable : t.unrepresentable = s.unrepresentable

theorem Visited.refl (s : MappingState) : Visited [] [] side s s :=
  ⟨by simp, by simp, by simp, by simp, rfl⟩

theorem Visited.trans {hits hits' paths paths' : List Evidence} {s t u : MappingState}
    (first : Visited hits paths side s t) (second : Visited hits' paths' side t u) :
    Visited (hits ++ hits') (paths ++ paths') side s u where
  matched id := by
    simp only [second.matched, first.matched, List.mem_append]
    constructor
    · rintro ((old | ⟨item, mem, same⟩) | ⟨item, mem, same⟩)
      · exact .inl old
      · exact .inr ⟨item, mem.imp .inl .inl, same⟩
      · exact .inr ⟨item, mem.imp .inr .inr, same⟩
    · rintro (old | ⟨item, (hit | hit) | path | path, same⟩)
      · exact .inl (.inl old)
      · exact .inl (.inr ⟨item, .inl hit, same⟩)
      · exact .inr ⟨item, .inl hit, same⟩
      · exact .inl (.inr ⟨item, .inr path, same⟩)
      · exact .inr ⟨item, .inr path, same⟩
  sides other := by
    simp only [second.sides, first.sides, Ne, List.append_eq_nil_iff]
    grind
  lines := by cases hits <;> simp [second.lines, first.lines]
  fallback := by cases paths <;> simp [second.fallback, first.fallback]
  unrepresentable := second.unrepresentable.trans first.unrepresentable

theorem visited_item (item : Evidence) (s : MappingState) :
    Visited ([item].filter (lineHit file repoId side pathText))
      ([item].filter (pathHit file repoId side pathText)) side s
      (visitEvidence file repoId side pathText s item) := by
  unfold visitEvidence
  by_cases here : atPath repoId pathText item = true
  · by_cases lines : (!withoutLines file && !(intersections file side item).isEmpty) = true
    · simp only [lineHit, pathHit, here, lines, List.filter_cons, List.filter_nil]
      exact ⟨by simp [eq_comm], by simp, by simp, by simp, rfl⟩
    · by_cases path : (withoutLines file || (evidenceRange item).isNone ||
          (hunkRanges file side).isEmpty) = true
      · simp only [lineHit, pathHit, here, lines, path, List.filter_cons, List.filter_nil]
        exact ⟨by simp [eq_comm], by simp, by simp, by simp, rfl⟩
      · simp only [lineHit, pathHit, here, lines, path, List.filter_cons, List.filter_nil]
        exact Visited.refl s
  · simp only [lineHit, pathHit, here, List.filter_cons, List.filter_nil]
    exact Visited.refl s

theorem visited_foldl (items : List Evidence) (s : MappingState) :
    Visited (items.filter (lineHit file repoId side pathText))
      (items.filter (pathHit file repoId side pathText)) side s
      (items.foldl (visitEvidence file repoId side pathText) s) := by
  induction items generalizing s with
  | nil => exact Visited.refl s
  | cons item items ih =>
    have step := (visited_item item s).trans (ih (visitEvidence file repoId side pathText s item))
    rwa [← List.filter_append, ← List.filter_append] at step

end Visits

section Deletions

def newPathText (file : ChangedFile) : Option String := (file.newPath.or file.oldPath).bind nativePathText

def ofFile (file : ChangedFile) (repoId : RepoId) (item : Evidence) : Prop :=
  ∃ pathText, newPathText file = some pathText ∧ atPath repoId pathText item = true

def addsIn (hunk : ChangeHunk) (range : ℕ × ℕ) : Prop :=
  0 < hunk.newCount ∧ hunk.newStart ≤ range.2 ∧ range.1 ≤ hunk.newStart + hunk.newCount - 1

/-- The hunk only deletes lines, from inside the range. -/
def deletesIn (hunk : ChangeHunk) (range : ℕ × ℕ) : Prop :=
  hunk.newCount = 0 ∧ range.1 ≤ hunk.newStart ∧ hunk.newStart + 1 ≤ range.2

instance (hunk : ChangeHunk) (range : ℕ × ℕ) : Decidable (addsIn hunk range) :=
  inferInstanceAs (Decidable (_ ∧ _))

instance (hunk : ChangeHunk) (range : ℕ × ℕ) : Decidable (deletesIn hunk range) :=
  inferInstanceAs (Decidable (_ ∧ _))

def touches (hunk : ChangeHunk) (range : ℕ × ℕ) : Prop := addsIn hunk range ∨ deletesIn hunk range

variable (file : ChangedFile) (repoId : RepoId) (edges : List Edge) (nodes : BTreeMap NodeId Node)
  (evidence : BTreeMap EvidenceId Evidence)

def reached (id : EvidenceId) : Prop :=
  ∃ item ∈ values evidence, ofFile file repoId item ∧ item.id = id ∧
    ∃ range, evidenceRange item = some range ∧ ∃ hunk ∈ file.hunks, addsIn hunk range

/-- A complete mapping has all the evidence that a hunk touches. -/
def MissesNothing : Prop :=
  (mapChangedFile file repoId edges nodes evidence).mapping.completeness = .complete →
    ∀ item ∈ values evidence, ofFile file repoId item →
      ∀ range, evidenceRange item = some range → (∃ hunk ∈ file.hunks, touches hunk range) →
        item.id ∈ (mapChangedFile file repoId edges nodes evidence).mapping.matchedEvidenceIds

/-- A deletion is out of sight: the evidence of the file all has line ranges, hunks that add
lines reach evidence of a boundary node, and a hunk that only deletes lines touches evidence
that none of the others reaches. -/
structure HiddenDeletion : Prop where
  ranged : ∀ item ∈ values evidence, ofFile file repoId item → evidenceRange item ≠ none
  boundary : ∃ edge ∈ edges, (∃ id ∈ edge.evidence, reached file repoId evidence id) ∧
    ∃ id ∈ [edge.source, edge.target], ∃ node, nodes[id]? = some node ∧ isBoundaryKind node.kind = true
  missed : ∃ item ∈ values evidence, ofFile file repoId item ∧ ¬reached file repoId evidence item.id ∧
    ∃ range, evidenceRange item = some range ∧ ∃ hunk ∈ file.hunks, deletesIn hunk range

variable {file repoId edges nodes evidence}

theorem evidenceRange_lt {item : Evidence} {range : ℕ × ℕ} (ranged : evidenceRange item = some range) :
    range.1 < u32Values ∧ range.2 < u32Values := by
  unfold evidenceRange at ranged
  split at ranged
  · next start stop _ _ =>
    split_ifs at ranged
    obtain rfl := Option.some.inj ranged
    exact ⟨start.toNat_lt, stop.toNat_lt⟩
  · cases ranged

theorem rangesIntersect_newRange {hunk : ChangeHunk} {item : Evidence} {range : ℕ × ℕ}
    (ranged : evidenceRange item = some range) :
    (∃ lines, sideRange .new hunk = some lines ∧ rangesIntersect lines range = true) ↔
      addsIn hunk range := by
  have small := evidenceRange_lt ranged
  have values : 0 < u32Values := by decide
  simp only [sideRange, inclusiveRange, addsIn]
  split_ifs with some
  · simp only [Option.some.injEq, exists_eq_left', rangesIntersect, saturatingAdd,
      Bool.and_eq_true, decide_eq_true_eq]
    omega
  · simp [some]

theorem mem_hunkRanges {side : ChangedPathSide} {lines : ℕ × ℕ} :
    (∃ index, (index, lines) ∈ hunkRanges file side) ↔
      ∃ hunk ∈ file.hunks, sideRange side hunk = some lines := by
  simp only [hunkRanges, List.mem_filterMap, Option.map_eq_some_iff, Prod.mk.injEq]
  constructor
  · rintro ⟨index, entry, mem, range, ranged, rfl, rfl⟩
    exact ⟨entry.1, List.fst_mem_of_mem_zipIdx mem, ranged⟩
  · rintro ⟨hunk, mem, ranged⟩
    obtain ⟨index, found⟩ := List.mem_iff_getElem?.mp mem
    exact ⟨index, (hunk, index), List.mem_zipIdx_iff_getElem?.mpr found, lines, ranged, rfl, rfl⟩

theorem intersections_new {item : Evidence} :
    intersections file .new item ≠ [] ↔
      ∃ range, evidenceRange item = some range ∧ ∃ hunk ∈ file.hunks, addsIn hunk range := by
  unfold intersections
  cases ranged : evidenceRange item with
  | none => simp
  | some range =>
    simp only [Option.elim_some, Option.some.injEq, exists_eq_left', ne_eq, List.filter_eq_nil_iff,
      not_forall, not_not, ← rangesIntersect_newRange ranged, exists_prop]
    constructor
    · rintro ⟨entry, mem, meets⟩
      obtain ⟨hunk, hunkMem, lines⟩ := mem_hunkRanges.mp ⟨entry.1, mem⟩
      exact ⟨hunk, hunkMem, entry.2, lines, meets⟩
    · rintro ⟨hunk, hunkMem, lines, sideLines, meets⟩
      obtain ⟨index, mem⟩ := mem_hunkRanges.mpr ⟨hunk, hunkMem, sideLines⟩
      exact ⟨(index, lines), mem, meets⟩

theorem hunkRanges_of_intersections {side : ChangedPathSide} {item : Evidence}
    (some : intersections file side item ≠ []) : hunkRanges file side ≠ [] := by
  intro none
  apply some
  unfold intersections
  cases evidenceRange item <;> simp [none]

theorem mem_nodesForEvidence {ids : List EvidenceId} {kind : NodeKind → Bool} {id : NodeId} :
    id ∈ nodesForEvidence ids edges nodes kind ↔
      (∃ edge ∈ edges, (∃ evidenceId ∈ edge.evidence, evidenceId ∈ ids) ∧
        id ∈ [edge.source, edge.target]) ∧
      ∃ node, nodes[id]? = some node ∧ kind node.kind = true := by
  simp only [nodesForEvidence, mem_sortedUnique, List.mem_filter, List.mem_flatMap, List.any_eq_true,
    List.contains_eq_mem, decide_eq_true_eq, Option.any_eq_true]
  grind

section Modified

variable (modified : file.status = .modified) (text : file.binary = false)
include modified text

theorem withoutLines_eq : withoutLines file = false := by
  simp [withoutLines, modified, text]

omit text in
theorem relevantSides_eq :
    relevantSides file = ((file.newPath.or file.oldPath).map (ChangedPathSide.new, ·)).toList := by
  rw [relevantSides, modified]

omit text in
theorem mappingState_eq {pathText : String} (path : newPathText file = some pathText) :
    mappingState file repoId evidence = (values evidence).foldl
      (visitEvidence file repoId .new pathText)
      { MappingState.start with representablePaths := [pathText] } := by
  obtain ⟨path', found, readable⟩ := Option.bind_eq_some_iff.mp path
  rw [mappingState, relevantSides_eq modified, found]
  simp [visitSide, readable, MappingState.start]

omit modified text in
theorem sideRank_injective : Function.Injective sideRank := by
  intro side other same
  cases side <;> cases other <;> first | rfl | cases same

omit modified text in
theorem matchedSideCount_new {state : MappingState}
    (sides : ∀ side, side ∈ state.matchedSides ↔ side = .new) : matchedSideCount state = 1 := by
  have same : sortDedup sideRank state.matchedSides = sortDedup sideRank [.new] :=
    sortDedup_congr sideRank sideRank_injective fun side => by rw [sides, List.mem_singleton]
  rw [matchedSideCount, same]
  simp [sortDedup, sortBy, dedupBy]

omit text in
theorem expectedSideCount_eq {pathText : String} (path : newPathText file = some pathText) :
    expectedSideCount file = 1 := by
  obtain ⟨path', found, -⟩ := Option.bind_eq_some_iff.mp path
  rw [expectedSideCount, modified]
  cases new : file.newPath <;> cases old : file.oldPath <;> simp_all

theorem complete_iff {pathText : String} (path : newPathText file = some pathText) :
    (mapChangedFile file repoId edges nodes evidence).mapping.completeness = .complete ↔
      (∃ item ∈ values evidence, lineHit file repoId .new pathText item = true) ∧
      (∀ item ∈ values evidence, ¬pathHit file repoId .new pathText item = true) ∧
      (mapChangedFile file repoId edges nodes evidence).mapping.boundaryNodeIds ≠ [] := by
  have visited : Visited ((values evidence).filter (lineHit file repoId .new pathText))
      ((values evidence).filter (pathHit file repoId .new pathText)) .new
      { MappingState.start with representablePaths := [pathText] }
      (mappingState file repoId evidence) := by
    rw [mappingState_eq modified path]
    exact visited_foldl _ _
  have unfolded : (mapChangedFile file repoId edges nodes evidence).mapping.completeness =
      mappingCompleteness file (mappingState file repoId evidence)
        (mapChangedFile file repoId edges nodes evidence).mapping.boundaryNodeIds := rfl
  have hits : (∃ item ∈ values evidence, lineHit file repoId .new pathText item = true) ↔
      (values evidence).filter (lineHit file repoId .new pathText) ≠ [] := by
    simp [List.filter_eq_nil_iff]
  have paths : (∀ item ∈ values evidence, ¬pathHit file repoId .new pathText item = true) ↔
      (values evidence).filter (pathHit file repoId .new pathText) = [] := by
    simp [List.filter_eq_nil_iff]
  rw [unfolded, hits, paths]
  generalize (values evidence).filter (lineHit file repoId .new pathText) = hitItems at visited ⊢
  generalize (values evidence).filter (pathHit file repoId .new pathText) = pathItems at visited ⊢
  rw [mappingCompleteness, visited.unrepresentable, visited.lines, visited.fallback,
    withoutLines_eq modified text, expectedSideCount_eq modified path]
  constructor
  · intro complete
    split_ifs at complete with unknown both
    simp only [MappingState.start, Bool.and_eq_true, Bool.false_or, Bool.not_not] at both
    exact ⟨by simpa using both.1.1.1.2, by simpa using both.1.1.2, by simpa using both.2⟩
  · rintro ⟨hit, noPath, boundary⟩
    obtain ⟨item, mem⟩ := List.exists_mem_of_ne_nil _ hit
    have matched : item.id ∈ (mappingState file repoId evidence).matchedEvidence :=
      (visited.matched item.id).mpr (.inr ⟨item, .inl mem, rfl⟩)
    have some : (mappingState file repoId evidence).matchedEvidence ≠ [] := List.ne_nil_of_mem matched
    have count : matchedSideCount (mappingState file repoId evidence) = 1 :=
      matchedSideCount_new fun side => by rw [visited.sides]; simp [MappingState.start, hit]
    rw [if_neg (by simpa [MappingState.start] using some), if_pos]
    simp [MappingState.start, hit, noPath, count, boundary]

omit modified text in
theorem ofFile_iff {pathText : String} (path : newPathText file = some pathText) {item : Evidence} :
    ofFile file repoId item ↔ atPath repoId pathText item = true := by
  simp [ofFile, path]

theorem lineHit_iff {pathText : String} (path : newPathText file = some pathText) {item : Evidence} :
    lineHit file repoId .new pathText item = true ↔ ofFile file repoId item ∧
      ∃ range, evidenceRange item = some range ∧ ∃ hunk ∈ file.hunks, addsIn hunk range := by
  rw [lineHit, Bool.and_eq_true, ofFile_iff path, ← intersections_new, withoutLines_eq modified text]
  simp

theorem reached_iff {pathText : String} (path : newPathText file = some pathText) {id : EvidenceId} :
    reached file repoId evidence id ↔
      ∃ item ∈ values evidence, lineHit file repoId .new pathText item = true ∧ item.id = id := by
  simp only [reached, lineHit_iff modified text path]
  grind

theorem pathHit_iff {pathText : String} (path : newPathText file = some pathText)
    (lines : hunkRanges file .new ≠ []) {item : Evidence} :
    pathHit file repoId .new pathText item = true ↔
      ofFile file repoId item ∧ evidenceRange item = none := by
  have unranged : evidenceRange item = none → intersections file .new item = [] := by
    intro none
    rw [intersections, none]
    rfl
  rw [pathHit, Bool.and_eq_true, ofFile_iff path, withoutLines_eq modified text]
  cases ranged : evidenceRange item with
  | none => simp [unranged ranged]
  | some range => simp [lines]

theorem mem_matched {pathText : String} (path : newPathText file = some pathText)
    (noPath : ∀ item ∈ values evidence, ¬pathHit file repoId .new pathText item = true)
    {id : EvidenceId} :
    id ∈ (mappingState file repoId evidence).matchedEvidence ↔ reached file repoId evidence id := by
  have visited : Visited ((values evidence).filter (lineHit file repoId .new pathText))
      ((values evidence).filter (pathHit file repoId .new pathText)) .new
      { MappingState.start with representablePaths := [pathText] }
      (mappingState file repoId evidence) := by
    rw [mappingState_eq modified path]
    exact visited_foldl _ _
  have none : (values evidence).filter (pathHit file repoId .new pathText) = [] :=
    List.filter_eq_nil_iff.mpr noPath
  rw [visited.matched, none, reached_iff modified text path]
  simp only [MappingState.start, List.not_mem_nil, false_or, or_false, List.mem_filter, and_assoc]

theorem boundary_iff {pathText : String} (path : newPathText file = some pathText)
    (noPath : ∀ item ∈ values evidence, ¬pathHit file repoId .new pathText item = true) :
    (mapChangedFile file repoId edges nodes evidence).mapping.boundaryNodeIds ≠ [] ↔
      ∃ edge ∈ edges, (∃ id ∈ edge.evidence, reached file repoId evidence id) ∧
        ∃ id ∈ [edge.source, edge.target],
          ∃ node, nodes[id]? = some node ∧ isBoundaryKind node.kind = true := by
  have ids : (mapChangedFile file repoId edges nodes evidence).mapping.boundaryNodeIds =
      nodesForEvidence (mappingState file repoId evidence).matchedEvidence edges nodes isBoundaryKind :=
    rfl
  rw [ids, Ne, List.eq_nil_iff_forall_not_mem, not_forall_not]
  simp only [mem_nodesForEvidence, mem_matched modified text path noPath]
  grind

omit modified text in
theorem mem_matchedEvidenceIds {id : EvidenceId} :
    id ∈ (mapChangedFile file repoId edges nodes evidence).mapping.matchedEvidenceIds ↔
      id ∈ (mappingState file repoId evidence).matchedEvidence :=
  mem_sortedUnique

theorem hunkRanges_of_lineHit {pathText : String} (path : newPathText file = some pathText)
    {item : Evidence} (hit : lineHit file repoId .new pathText item = true) :
    hunkRanges file .new ≠ [] :=
  hunkRanges_of_intersections (intersections_new.mpr ((lineHit_iff modified text path).mp hit).2)

theorem misses_of_hidden (hidden : HiddenDeletion file repoId edges nodes evidence) :
    ¬MissesNothing file repoId edges nodes evidence := by
  intro misses
  obtain ⟨item, mem, ofItem, unreached, range, ranged, hunk, hunkMem, deletes⟩ := hidden.missed
  obtain ⟨pathText, path, -⟩ := id ofItem
  obtain ⟨edge, -, ⟨evidenceId, -, isReached⟩, -⟩ := hidden.boundary
  obtain ⟨hit, hitMem, isHit, -⟩ := (reached_iff modified text path).mp isReached
  have noPath : ∀ item ∈ values evidence, ¬pathHit file repoId .new pathText item = true := by
    intro item mem hit
    have lines := hunkRanges_of_lineHit modified text path isHit
    obtain ⟨ofItem, unranged⟩ := (pathHit_iff modified text path lines).mp hit
    exact hidden.ranged item mem ofItem unranged
  have complete : (mapChangedFile file repoId edges nodes evidence).mapping.completeness = .complete :=
    (complete_iff modified text path).mpr ⟨⟨hit, hitMem, isHit⟩, noPath,
      (boundary_iff modified text path noPath).mpr hidden.boundary⟩
  have matched := misses complete item mem ofItem range ranged ⟨hunk, hunkMem, .inr deletes⟩
  rw [mem_matchedEvidenceIds, mem_matched modified text path noPath] at matched
  exact unreached matched

theorem misses_of_visible (visible : ¬HiddenDeletion file repoId edges nodes evidence) :
    MissesNothing file repoId edges nodes evidence := by
  intro complete item mem ofItem range ranged ⟨hunk, hunkMem, touched⟩
  obtain ⟨pathText, path, -⟩ := id ofItem
  obtain ⟨⟨hit, hitMem, isHit⟩, noPath, boundary⟩ := (complete_iff modified text path).mp complete
  have lines := hunkRanges_of_lineHit modified text path isHit
  rw [mem_matchedEvidenceIds, mem_matched modified text path noPath]
  by_contra unreached
  rcases touched with adds | deletes
  · exact unreached ⟨item, mem, ofItem, rfl, range, ranged, hunk, hunkMem, adds⟩
  · refine visible ⟨fun item mem ofItem unranged => ?_, ?_, item, mem, ofItem, unreached, range, ranged,
      hunk, hunkMem, deletes⟩
    · exact noPath item mem ((pathHit_iff modified text path lines).mpr ⟨ofItem, unranged⟩)
    · exact (boundary_iff modified text path noPath).mp boundary

theorem missesNothing_iff :
    MissesNothing file repoId edges nodes evidence ↔
      ¬HiddenDeletion file repoId edges nodes evidence :=
  ⟨fun misses hidden => misses_of_hidden modified text hidden misses, misses_of_visible modified text⟩

end Modified

section Example

def apiPath : NativePath := ⟨.utf8, [97], "a"⟩

def apiFile (deletes : Bool) : ChangedFile where
  status := .modified
  oldPath := some apiPath
  newPath := some apiPath
  binary := false
  hunks := ⟨9, 0, 10, 2, []⟩ :: if deletes then [⟨28, 3, 29, 0, []⟩] else []
  source := .worktree

def apiEvidence (id : EvidenceId) (start stop : UInt32) : Evidence where
  id := id
  repoId := some "api"
  filePath := some "a"
  startLine := some start
  endLine := some stop
  extractor := "rust"
  extractorVersion := "1"
  provenance := .extracted
  confidence := .ofNat 1
  observedAtCommit := none
  contentHash := none
  note := none

def apiEvidenceMap : BTreeMap EvidenceId Evidence :=
  ((∅ : BTreeMap EvidenceId Evidence).insert "first" (apiEvidence "first" 10 11)).insert "second"
    (apiEvidence "second" 25 40)

def apiNodes : BTreeMap NodeId Node :=
  (∅ : BTreeMap NodeId Node).insert "contract"
    ⟨"contract", .httpOperation, some "api", "GET /a", "GET /a"⟩

def apiEdge : Edge := ⟨"edge", "consumer", "contract", .consumes, .ofNat 1, .confirmed, ["first"]⟩

theorem missesNothing_added : MissesNothing (apiFile false) "api" [apiEdge] apiNodes apiEvidenceMap := by
  refine (missesNothing_iff rfl rfl).mpr fun hidden => ?_
  obtain ⟨item, -, -, -, range, -, hunk, mem, deletes, -⟩ := hidden.missed
  obtain rfl := List.mem_singleton.mp mem
  cases deletes

theorem mem_apiEvidenceMap {item : Evidence} : item ∈ values apiEvidenceMap ↔
    item = apiEvidence "first" 10 11 ∨ item = apiEvidence "second" 25 40 := by
  have look : ∀ id : EvidenceId, apiEvidenceMap[id]? =
      if "second" = id then some (apiEvidence "second" 25 40)
      else if "first" = id then some (apiEvidence "first" 10 11) else none := by
    intro id
    simp [apiEvidenceMap, Std.ExtTreeMap.getElem?_insert]
  rw [mem_values]
  constructor
  · rintro ⟨id, found⟩
    rw [look] at found
    split_ifs at found
    · exact .inr (Option.some.inj found).symm
    · exact .inl (Option.some.inj found).symm
  · rintro (rfl | rfl)
    · exact ⟨"first", by rw [look]; decide⟩
    · exact ⟨"second", by rw [look]; decide⟩

theorem ofFile_api {deletes : Bool} {item : Evidence} (repo : item.repoId = some "api")
    (path : item.filePath = some "a") : ofFile (apiFile deletes) "api" item := by
  have pathText : newPathText (apiFile deletes) = nativePathText apiPath := rfl
  refine ⟨"a", pathText.trans (by decide), ?_⟩
  rw [atPath, repo, path]
  decide

theorem reached_first : reached (apiFile true) "api" apiEvidenceMap "first" :=
  ⟨apiEvidence "first" 10 11, mem_apiEvidenceMap.mpr (.inl rfl), ofFile_api rfl rfl, rfl, (10, 11),
    by decide, ⟨9, 0, 10, 2, []⟩, by decide, by decide⟩

theorem not_reached_second : ¬reached (apiFile true) "api" apiEvidenceMap "second" := by
  rintro ⟨item, mem, -, second, range, ranged, hunk, hunkMem, adds⟩
  rcases mem_apiEvidenceMap.mp mem with rfl | rfl
  · exact absurd second (by decide)
  · obtain rfl : (25, 40) = range := Option.some.inj ranged
    revert hunk
    decide

theorem hidden_api : HiddenDeletion (apiFile true) "api" [apiEdge] apiNodes apiEvidenceMap where
  ranged item mem _ := by
    rcases mem_apiEvidenceMap.mp mem with rfl | rfl
    · decide
    · decide
  boundary := ⟨apiEdge, List.mem_singleton_self _, ⟨"first", List.mem_singleton_self _, reached_first⟩,
    "contract", by decide, _, Std.ExtTreeMap.getElem?_insert_self, rfl⟩
  missed := ⟨apiEvidence "second" 25 40, mem_apiEvidenceMap.mpr (.inr rfl), ofFile_api rfl rfl,
    not_reached_second, (25, 40), by decide, ⟨28, 3, 29, 0, []⟩, by decide, by decide⟩

theorem deletion_missed :
    ¬∀ (file : ChangedFile) (repoId : RepoId) (edges : List Edge) (nodes : BTreeMap NodeId Node)
      (evidence : BTreeMap EvidenceId Evidence), file.status = .modified → file.binary = false →
        MissesNothing file repoId edges nodes evidence :=
  fun all => misses_of_hidden rfl rfl hidden_api (all _ _ _ _ _ rfl rfl)

end Example

end Deletions

end CodeSystemGraph.Changes
