import CodeSystemGraph.GraphExportMarkdown

/-!
An accepted export decodes to the selected graph in both of its text formats, its
counts add up, and the order of the input does not matter.
-/

namespace CodeSystemGraph.GraphExport

open Ieee Model Ordered Text

variable {display : F32 → String}
  {renderJson : List Node → List ExportEdge → Except InterfaceError String}
  {nodes nodes' : List Node} {edges edges' : List Edge} {evidence evidence' : List Evidence}
  {request : ExportRequest} {report : ExportReport}

/-- The strings that an export writes are clean. -/
structure CleanGraph (nodes : List Node) (edges : List Edge) (evidence : List Evidence) : Prop where
  nodes : ∀ node ∈ nodes, Clean node.id ∧ Clean node.stableKey ∧ Clean node.label
  edges : ∀ edge ∈ edges, Clean edge.id ∧ Clean edge.source ∧ Clean edge.target
  evidence : ∀ item ∈ evidence, ∀ path, item.filePath = some path → Clean path

section Selection

theorem selectNodes_subset {maximum : ℕ} {node : Node} (mem : node ∈ selectNodes maximum nodes) :
    node ∈ nodes :=
  (mem_sortBy nodeOrder).1 (List.mem_of_mem_take mem)

theorem selectEdges_subset {maximum : ℕ} {selected : List Node} {edge : Edge}
    (mem : edge ∈ selectEdges maximum selected edges) : edge ∈ edges :=
  (List.mem_filter.1 ((mem_sortBy Edge.id).1 (List.mem_of_mem_take mem))).1

theorem nodup_nodeOrder (distinct : (nodes.map Node.id).Nodup) : (nodes.map nodeOrder).Nodup := by
  have ids : nodes.map Node.id = (nodes.map nodeOrder).map fun key => (ofLex key).2 := by
    rw [List.map_map]
    rfl
  rw [ids] at distinct
  exact List.Nodup.of_map _ distinct

theorem selectNodes_congr (perm : nodes.Perm nodes') (distinct : (nodes.map Node.id).Nodup)
    (maximum : ℕ) : selectNodes maximum nodes = selectNodes maximum nodes' := by
  rw [selectNodes, sortBy_congr nodeOrder perm (nodup_nodeOrder distinct)]
  rfl

theorem selectEdges_congr (perm : edges.Perm edges') (distinct : (edges.map Edge.id).Nodup)
    (maximum : ℕ) (selected : List Node) :
    selectEdges maximum selected edges = selectEdges maximum selected edges' := by
  have ids : ((edges.filter (isEligible selected)).map Edge.id).Nodup :=
    distinct.sublist (List.filter_sublist.map Edge.id)
  rw [selectEdges, sortBy_congr Edge.id (perm.filter (isEligible selected)) ids]
  rfl

theorem indexBy_perm {ε α K : Type} [Ord K] [Std.TransOrd K] [Std.LawfulEqOrd K] {key : α → K}
    {duplicate : α → ε} {l l' : List α} (perm : l.Perm l') {index : BTreeMap K α}
    (indexed : indexBy key duplicate l = .ok index) : indexBy key duplicate l' = .ok index := by
  obtain ⟨distinct, lookup⟩ := (indexBy_eq_ok key duplicate).1 indexed
  rw [indexBy_eq_ok]
  refine ⟨(perm.map key).nodup_iff.1 distinct, fun k a => ?_⟩
  rw [lookup, perm.mem_iff]

theorem warningOrder_injective : Function.Injective warningOrder := by
  intro first second same
  have both := congrArg ofLex same
  simp only [warningOrder, ofLex_toLex, Prod.mk.injEq] at both
  cases first
  cases second
  simp_all

end Selection

section Evidence

theorem clean_append {first second : String} (here : Clean first) (there : Clean second) :
    Clean (first ++ second) := by
  intro c mem
  rw [String.toList_append, List.mem_append] at mem
  exact mem.elim (here c) (there c)

theorem clean_repr (n : ℕ) : Clean n.repr := by
  intro c mem
  have digit : c.isDigit = true := by
    cases letter : c.isDigit with
    | true => rfl
    | false => exact absurd mem (notMem_repr letter)
  simp only [Char.isDigit, Bool.and_eq_true, decide_eq_true_eq] at digit
  have low : 48 ≤ c.toNat := digit.1
  have high : c.toNat ≤ 57 := digit.2
  simp only [isControl, Bool.or_eq_false_iff, Bool.and_eq_false_iff, decide_eq_false_iff_not]
  omega

theorem clean_location {item : EvidenceMetadata}
    (path : ∀ path, item.filePath = some path → Clean path) : Clean (evidenceLocation item) := by
  have begins : Clean (item.filePath.getD "<unknown>") := by
    cases found : item.filePath with
    | none => exact clean_of_all (by decide +kernel)
    | some value => exact path value found
  have colon : Clean ":" := clean_of_all (by decide)
  have dash : Clean "-" := clean_of_all (by decide)
  unfold evidenceLocation
  split
  · exact clean_append (clean_append (clean_append (clean_append begins colon) (clean_repr _)) dash)
      (clean_repr _)
  · exact clean_append (clean_append begins colon) (clean_repr _)
  · exact begins

theorem clean_locations {items : List EvidenceMetadata}
    (paths : ∀ item ∈ items, ∀ path, item.filePath = some path → Clean path) :
    Clean (locations items) := by
  have separator : Clean "; " := clean_of_all (by decide)
  unfold locations
  induction items with
  | nil => intro c mem; simp at mem
  | cons item items ih =>
    have here := clean_location (paths item (List.mem_cons_self ..))
    have later := ih fun other mem => paths other (List.mem_cons_of_mem _ mem)
    cases items with
    | nil => rw [List.map_cons, List.map_nil, String.intercalate_singleton]; exact here
    | cons next items =>
      rw [List.map_cons, List.map_cons, String.intercalate_cons_cons]
      exact clean_append (clean_append here separator) later

theorem clean_evidence (clean : CleanGraph nodes edges evidence) {index : BTreeMap EvidenceId Evidence}
    (lookup : ∀ id item, index[id]? = some item ↔ item ∈ evidence ∧ item.id = id) (edge : Edge) :
    Clean (locations (evidenceForEdge index edge)) := by
  apply clean_locations
  intro item mem path found
  rw [evidenceForEdge, mem_sortBy, List.mem_filterMap] at mem
  obtain ⟨id, -, kept⟩ := mem
  rw [Option.map_eq_some_iff] at kept
  obtain ⟨observed, there, rfl⟩ := kept
  exact clean.evidence observed ((lookup id observed).1 there).1 path found

end Evidence

section Accepted

/-- What acceptance says of the input, the content and the report. -/
theorem exportGraph_ok (accepted : exportGraph display renderJson nodes edges evidence request = .ok report) :
    (nodes.map Node.id).Nodup ∧ (edges.map Edge.id).Nodup ∧
      ∃ index : BTreeMap EvidenceId Evidence,
        (∀ id item, index[id]? = some item ↔ item ∈ evidence ∧ item.id = id) ∧
        renderContent display renderJson request.format (selectNodes request.maxNodes nodes)
          ((selectEdges request.maxEdges (selectNodes request.maxNodes nodes) edges).map fun edge =>
            ⟨edge, evidenceForEdge index edge⟩) = .ok report.content ∧
        report.exportedNodes = (selectNodes request.maxNodes nodes).length ∧
        report.exportedEdges =
          (selectEdges request.maxEdges (selectNodes request.maxNodes nodes) edges).length ∧
        report.omittedNodes = nodes.length - report.exportedNodes ∧
        report.omittedEdges = edges.length - report.exportedEdges ∧
        report.truncated = (decide (report.omittedNodes > 0) || decide (report.omittedEdges > 0)) := by
  simp only [exportGraph, bind_eq_ok, pure_eq_ok] at accepted
  obtain ⟨_, -, _, -, nodeIndex, nodesIndexed, edgeIndex, edgesIndexed, index, indexed, content,
    rendered, rfl⟩ := accepted
  have lookup := (indexBy_eq_ok _ _).1 indexed
  refine ⟨((indexBy_eq_ok _ _).1 nodesIndexed).1, ((indexBy_eq_ok _ _).1 edgesIndexed).1, index,
    lookup.2, rendered, rfl, ?_, rfl, rfl, rfl⟩
  rw [List.length_map]

theorem exportGraph_perm
    (accepted : exportGraph display renderJson nodes edges evidence request = .ok report)
    (ofNodes : nodes.Perm nodes') (ofEdges : edges.Perm edges')
    (ofEvidence : evidence.Perm evidence') :
    exportGraph display renderJson nodes' edges' evidence' request = .ok report := by
  obtain ⟨nodeIds, edgeIds, -⟩ := exportGraph_ok accepted
  simp only [exportGraph, bind_eq_ok, pure_eq_ok] at accepted ⊢
  obtain ⟨_, nodeBound, _, edgeBound, nodeIndex, nodesIndexed, edgeIndex, edgesIndexed, index,
    indexed, content, rendered, same⟩ := accepted
  refine ⟨_, nodeBound, _, edgeBound, nodeIndex, indexBy_perm ofNodes nodesIndexed, edgeIndex,
    indexBy_perm ofEdges edgesIndexed, index, indexBy_perm ofEvidence indexed, content, ?_, ?_⟩
  · rw [← selectNodes_congr ofNodes nodeIds, ← selectEdges_congr ofEdges edgeIds]
    exact rendered
  · have warnings : sortDedup warningOrder (edges'.flatMap (edgeWarnings nodeIndex index)) =
        sortDedup warningOrder (edges.flatMap (edgeWarnings nodeIndex index)) :=
      sortDedup_congr warningOrder warningOrder_injective fun _ => (ofEdges.flatMap_right _).symm.mem_iff
    rw [← same, warnings, ← selectNodes_congr ofNodes nodeIds, ← selectEdges_congr ofEdges edgeIds,
      ofNodes.length_eq, ofEdges.length_eq]

theorem renderContent_decodes (plain : Plain display) {selected : List Node} {edges : List ExportEdge}
    (cleanNodes : ∀ node ∈ selected, CleanNode node) (cleanEdges : ∀ item ∈ edges, CleanEdge item)
    {format : ExportFormat} {content : String}
    (rendered : renderContent display renderJson format selected edges = .ok content) :
    (format = .graphMl → readGraph content =
        some (selected.map nodeRow ++ edges.map fun item => edgeRow item.edge)) ∧
      (format = .markdown → readMarkdown content =
        some (selected.map nodeRow ++ edges.map fun item => edgeRow item.edge)) := by
  constructor
  · rintro rfl
    rw [← Except.ok.inj rendered]
    exact readGraph_render plain cleanNodes cleanEdges
  · rintro rfl
    rw [← Except.ok.inj rendered]
    exact readMarkdown_render plain cleanNodes cleanEdges

theorem eligible_eq (selected : List Node) :
    (fun edge : Edge =>
      decide (edge.source ∈ selected.map Node.id ∧ edge.target ∈ selected.map Node.id)) =
        isEligible selected := by
  funext edge
  rw [isEligible, Bool.decide_and]
  simp only [List.contains_eq_mem]

theorem length_selectNodes (maximum : ℕ) (nodes : List Node) :
    (selectNodes maximum nodes).length ≤ nodes.length :=
  (List.length_take_le' _ _).trans (sortBy_perm nodeOrder nodes).length_eq.le

theorem length_selectEdges (maximum : ℕ) (selected : List Node) (edges : List Edge) :
    (selectEdges maximum selected edges).length ≤ edges.length := by
  refine (List.length_take_le' _ _).trans ?_
  rw [(sortBy_perm Edge.id _).length_eq]
  exact List.length_filter_le _ _

theorem selectNodes_perm {maximum : ℕ} (all : (selectNodes maximum nodes).length = nodes.length) :
    (selectNodes maximum nodes).Perm nodes := by
  have whole : selectNodes maximum nodes = sortBy nodeOrder nodes := by
    apply (List.take_sublist _ _).eq_of_length
    rw [(sortBy_perm nodeOrder nodes).length_eq]
    exact all
  rw [whole]
  exact sortBy_perm nodeOrder nodes

theorem selectEdges_perm {maximum : ℕ} {selected : List Node}
    (all : (selectEdges maximum selected edges).length = edges.length) :
    (selectEdges maximum selected edges).Perm edges := by
  have kept : (edges.filter (isEligible selected)) = edges := by
    apply List.filter_sublist.eq_of_length
    have upper := List.length_filter_le (isEligible selected) edges
    have lower : (selectEdges maximum selected edges).length ≤
        (edges.filter (isEligible selected)).length :=
      (List.length_take_le' _ _).trans (sortBy_perm Edge.id _).length_eq.le
    omega
  have whole : selectEdges maximum selected edges = sortBy Edge.id edges := by
    rw [selectEdges, kept] at all ⊢
    apply (List.take_sublist _ _).eq_of_length
    rw [(sortBy_perm Edge.id edges).length_eq]
    exact all
  rw [whole]
  exact sortBy_perm Edge.id edges

theorem exportGraph_total (nodeIds : (nodes.map Node.id).Nodup) (edgeIds : (edges.map Edge.id).Nodup)
    (evidenceIds : (evidence.map Evidence.id).Nodup)
    (nodeBound : validateBound "node export" request.maxNodes maxExportNodes = .ok ())
    (edgeBound : validateBound "edge export" request.maxEdges maxExportEdges = .ok ())
    (text : request.format ≠ .json) :
    ∃ report, exportGraph display renderJson nodes edges evidence request = .ok report := by
  obtain ⟨nodeIndex, nodesIndexed⟩ :=
    indexBy_total Node.id (fun node => InterfaceError.duplicateIdentity "node" node.id) nodeIds
  obtain ⟨edgeIndex, edgesIndexed⟩ :=
    indexBy_total Edge.id (fun edge => InterfaceError.duplicateIdentity "edge" edge.id) edgeIds
  obtain ⟨index, indexed⟩ :=
    indexBy_total Evidence.id (fun item => InterfaceError.duplicateIdentity "evidence" item.id)
      evidenceIds
  rw [exportGraph, nodeBound, ok_bind, edgeBound, ok_bind, nodesIndexed, ok_bind, edgesIndexed, ok_bind,
    indexed, ok_bind]
  cases format : request.format with
  | json => exact absurd format text
  | graphMl => exact ⟨_, rfl⟩
  | markdown => exact ⟨_, rfl⟩

/-- Whatever its text format, an accepted export decodes to the first nodes by stable key and
identifier, then the first edges by identifier of those with both ends selected. -/
theorem exportGraph_decodes (plain : Plain display)
    (accepted : exportGraph display renderJson nodes edges evidence request = .ok report) :
    ∃ (orderedNodes : List Node) (orderedEdges : List Edge),
      orderedNodes.Perm nodes ∧ orderedNodes.Pairwise (fun a b => nodeOrder a < nodeOrder b) ∧
      orderedEdges.Perm (edges.filter fun edge =>
        edge.source ∈ (orderedNodes.take request.maxNodes).map Node.id ∧
          edge.target ∈ (orderedNodes.take request.maxNodes).map Node.id) ∧
      orderedEdges.Pairwise (fun a b => a.id < b.id) ∧
      (CleanGraph nodes edges evidence →
        (request.format = .graphMl → readGraph report.content =
          some ((orderedNodes.take request.maxNodes).map nodeRow ++
            (orderedEdges.take request.maxEdges).map edgeRow)) ∧
        (request.format = .markdown → readMarkdown report.content =
          some ((orderedNodes.take request.maxNodes).map nodeRow ++
            (orderedEdges.take request.maxEdges).map edgeRow))) ∧
      report.exportedNodes = (orderedNodes.take request.maxNodes).length ∧
      report.exportedEdges = (orderedEdges.take request.maxEdges).length ∧
      report.exportedNodes + report.omittedNodes = nodes.length ∧
      report.exportedEdges + report.omittedEdges = edges.length ∧
      (report.truncated = false → (orderedNodes.take request.maxNodes).Perm nodes ∧
        (orderedEdges.take request.maxEdges).Perm edges) ∧
      ∀ nodes' edges' evidence', nodes.Perm nodes' → edges.Perm edges' → evidence.Perm evidence' →
        exportGraph display renderJson nodes' edges' evidence' request = .ok report := by
  obtain ⟨nodeIds, edgeIds, index, lookup, rendered, nodeCount, edgeCount, nodesOmitted, edgesOmitted,
    truncated⟩ := exportGraph_ok accepted
  have fewerNodes := length_selectNodes request.maxNodes nodes
  have fewerEdges := length_selectEdges request.maxEdges (selectNodes request.maxNodes nodes) edges
  refine ⟨sortBy nodeOrder nodes,
    sortBy Edge.id (edges.filter (isEligible (selectNodes request.maxNodes nodes))),
    sortBy_perm nodeOrder nodes, sortBy_strict nodeOrder (nodup_nodeOrder nodeIds), ?_,
    sortBy_strict Edge.id (edgeIds.sublist (List.filter_sublist.map Edge.id)), ?_, nodeCount, edgeCount,
    by omega, by omega, ?_, fun _ _ _ => exportGraph_perm accepted⟩
  · have eligible := eligible_eq (selectNodes request.maxNodes nodes)
    rw [selectNodes] at eligible
    rw [eligible]
    exact sortBy_perm Edge.id _
  · intro clean
    have cleanNodes : ∀ node ∈ selectNodes request.maxNodes nodes, CleanNode node :=
      fun node mem => clean.nodes node (selectNodes_subset mem)
    have decoded := renderContent_decodes plain cleanNodes ?_ rendered
    · rw [List.map_map] at decoded
      exact decoded
    · intro item mem
      obtain ⟨edge, chosen, rfl⟩ := List.mem_map.1 mem
      have strings := clean.edges edge (selectEdges_subset chosen)
      exact ⟨strings.1, strings.2.1, strings.2.2, clean_evidence clean lookup edge⟩
  · intro whole
    rw [truncated, Bool.or_eq_false_iff, decide_eq_false_iff_not, decide_eq_false_iff_not] at whole
    have allNodes : (selectNodes request.maxNodes nodes).length = nodes.length := by omega
    have allEdges : (selectEdges request.maxEdges (selectNodes request.maxNodes nodes) edges).length =
        edges.length := by omega
    exact ⟨selectNodes_perm allNodes, selectEdges_perm allEdges⟩

/-- Names with the delimiters of both formats, and a node past the bound with an edge to it. -/
def sampleNodes : List Node :=
  [⟨"n|2", .document, none, "b&amp;", "<x> \\| 'y'"⟩, ⟨"n3", .service, none, "c", "later"⟩,
    ⟨"n1", .document, none, "a", "plain"⟩]

def sampleEdges : List Edge :=
  [⟨"e2", "n1", "n3", .documents, .ofNat 1, .confirmed, []⟩,
    ⟨"e1", "n1", "n|2", .documents, .ofNat 1, .confirmed, []⟩]

def sampleRows : List GraphRow :=
  [.node "n1" "document" "a" "plain", .node "n|2" "document" "b&amp;" "<x> \\| 'y'",
    .edge "e1" "n1" "n|2" "documents" "confirmed"]

def SampleDecodes (format : ExportFormat) (read : String → Option (List GraphRow)) : Prop :=
  ∃ report, exportGraph (fun _ => "1") (fun _ _ => .ok "") sampleNodes sampleEdges []
      ⟨format, 2, 9⟩ = .ok report ∧
    read report.content = some sampleRows ∧ report.omittedNodes = 1 ∧ report.omittedEdges = 1

theorem exportGraph_decodes_sample :
    SampleDecodes .graphMl readGraph ∧ SampleDecodes .markdown readMarkdown := by
  have plain : Plain fun _ => "1" := by
    intro x c mem
    have same : c = '1' := by simpa using mem
    rw [same]
    exact Or.inl rfl
  have clean : CleanGraph sampleNodes sampleEdges [] := by
    refine ⟨?_, ?_, fun item mem => absurd mem (List.not_mem_nil)⟩
    · simp only [sampleNodes, List.forall_mem_cons]
      refine ⟨⟨?_, ?_, ?_⟩, ⟨?_, ?_, ?_⟩, ⟨?_, ?_, ?_⟩, List.forall_mem_nil _⟩ <;>
        exact clean_of_all (by decide +kernel)
    · simp only [sampleEdges, List.forall_mem_cons]
      refine ⟨⟨?_, ?_, ?_⟩, ⟨?_, ?_, ?_⟩, List.forall_mem_nil _⟩ <;>
        exact clean_of_all (by decide +kernel)
  have decodes : ∀ format read, format ≠ ExportFormat.json →
      (format = .graphMl → read = readGraph) → (format = .markdown → read = readMarkdown) →
      SampleDecodes format read := by
    intro format read text graph markdown
    obtain ⟨report, accepted⟩ := @exportGraph_total (fun _ => "1") (fun _ _ => .ok "") sampleNodes
      sampleEdges [] ⟨format, 2, 9⟩ (by decide) (by decide) (by decide) rfl rfl text
    obtain ⟨orderedNodes, orderedEdges, permNodes, sortedNodes, permEdges, -, decoded, shownNodes,
      shownEdges, allNodes, allEdges, -⟩ := exportGraph_decodes plain accepted
    have nodesAre : orderedNodes =
        [⟨"n1", .document, none, "a", "plain"⟩, ⟨"n|2", .document, none, "b&amp;", "<x> \\| 'y'"⟩,
          ⟨"n3", .service, none, "c", "later"⟩] :=
      (permNodes.trans (by decide)).eq_of_pairwise
        (fun _ _ _ _ less greater => absurd greater (lt_asymm less)) sortedNodes (by decide +kernel)
    subst nodesAre
    obtain rfl : orderedEdges = [⟨"e1", "n1", "n|2", .documents, .ofNat 1, .confirmed, []⟩] :=
      List.perm_singleton.1 (permEdges.trans (.of_eq rfl))
    have rows := decoded clean
    refine ⟨report, accepted, ?_, ?_, ?_⟩
    · cases format with
      | json => exact absurd rfl text
      | graphMl => exact graph rfl ▸ rows.1 rfl
      | markdown => exact markdown rfl ▸ rows.2 rfl
    · rw [shownNodes] at allNodes
      exact Nat.add_left_cancel allNodes
    · rw [shownEdges] at allEdges
      exact Nat.add_left_cancel allEdges
  constructor
  · exact decodes _ _ (by decide) (fun _ => rfl) fun same => by cases same
  · exact decodes _ _ (by decide) (fun same => by cases same) fun _ => rfl

end Accepted

end CodeSystemGraph.GraphExport
