import CodeSystemGraph.BreadthFirst
import CodeSystemGraph.QueryGraph

/-!
The federated graph of `FederatedGraph::new` and its bounded breadth-first trace. The
search itself is the one of `BreadthFirst`, over the sorted outgoing edges.
-/

namespace CodeSystemGraph.Trace

open Model Ordered Iterate BreadthFirst Query

inductive TraceError
  | danglingEdge (edge node : String)
  | unknownAnchor (node : String)
  | invalidDepth
  | inconsistentPath (node : String)
deriving DecidableEq

structure TraceReport where
  segments : List TraceSegment
  truncated : Bool
  coverageGaps : List String
deriving DecidableEq

structure FederatedGraph where
  nodes : BTreeMap NodeId Node
  outgoing : EdgeIndex

def collectNodes (index : BTreeMap NodeId Node) : List Node → BTreeMap NodeId Node
  | [] => index
  | node :: rest => collectNodes (index.insert node.id node) rest

def collectEdges (nodes : BTreeMap NodeId Node) (outgoing : EdgeIndex) :
    List Edge → Except TraceError EdgeIndex
  | [] => .ok outgoing
  | edge :: rest => do
    ensure (edge.source ∈ nodes) (.danglingEdge edge.id edge.source)
    ensure (edge.target ∈ nodes) (.danglingEdge edge.id edge.target)
    collectEdges nodes (pushTo outgoing edge.source edge) rest

def FederatedGraph.new (nodes : List Node) (edges : List Edge) :
    Except TraceError FederatedGraph := do
  let nodes := collectNodes ∅ nodes
  let outgoing ← collectEdges nodes ∅ edges
  pure ⟨nodes, outgoing.map fun _ adjacent => sortBy Edge.id adjacent⟩

def FederatedGraph.digraph (graph : FederatedGraph) : Digraph NodeId Edge :=
  ⟨fun nodeId => graph.outgoing[nodeId]?.getD [], Edge.target⟩

def FederatedGraph.stepBack (graph : FederatedGraph) (source : NodeId)
    (parents : List (NodeId × NodeId × Edge)) (state : NodeId × List TraceSegment) :
    Turn (NodeId × List TraceSegment) (Except TraceError (List TraceSegment)) :=
  if state.1 = source then .leave (.ok state.2)
  else
    match parents.lookup state.1 with
    | none => .leave (.error (.inconsistentPath state.1))
    | some (parent, edge) =>
      match graph.nodes[parent]? with
      | none => .leave (.error (.inconsistentPath parent))
      | some first =>
        match graph.nodes[state.1]? with
        | none => .leave (.error (.inconsistentPath state.1))
        | some last => .again (parent, state.2 ++ [⟨first, edge, last⟩])

def FederatedGraph.reconstruct (graph : FederatedGraph) (fuel : Nat) (source target : NodeId)
    (parents : List (NodeId × NodeId × Edge)) (truncated : Bool) :
    Option (Except TraceError TraceReport) :=
  (run (graph.stepBack source parents) fuel (target, [])).map fun outcome =>
    outcome.map fun segments => ⟨segments.reverse, truncated, []⟩

def noPathGap : String := "No confirmed path was observed within available coverage and bounds."

def FederatedGraph.trace (graph : FederatedGraph) (fuel : Nat) (source target : NodeId)
    (maxDepth : Nat) : Option (Except TraceError TraceReport) :=
  if maxDepth = 0 then some (.error .invalidDepth)
  else if source ∉ graph.nodes then some (.error (.unknownAnchor source))
  else if target ∉ graph.nodes then some (.error (.unknownAnchor target))
  else if source = target then some (.ok ⟨[], false, []⟩)
  else
    (run (turn graph.digraph target maxDepth) fuel (begin source)).bind fun result =>
      if result.2 then graph.reconstruct fuel source target result.1.parents result.1.truncated
      else some (.ok ⟨[], result.1.truncated, [noPathGap]⟩)

section Build

variable {nodes : List Node} {edges : List Edge} {graph : FederatedGraph}

theorem mem_collectNodes {nodeId : NodeId} :
    ∀ {nodes : List Node} {index : BTreeMap NodeId Node},
      nodeId ∈ collectNodes index nodes ↔ nodeId ∈ index ∨ ∃ node ∈ nodes, node.id = nodeId := by
  intro nodes
  induction nodes with
  | nil => intro index; simp [collectNodes]
  | cons node rest ih =>
    intro index
    rw [collectNodes, ih]
    simp only [Std.ExtTreeMap.mem_insert, Std.LawfulEqOrd.compare_eq_iff_eq, List.mem_cons,
      exists_eq_or_imp]
    tauto

theorem getElem?_collectNodes {nodeId : NodeId} {found : Node} :
    ∀ {nodes : List Node} {index : BTreeMap NodeId Node},
      (collectNodes index nodes)[nodeId]? = some found →
        index[nodeId]? = some found ∨ (found ∈ nodes ∧ found.id = nodeId) := by
  intro nodes
  induction nodes with
  | nil => intro index h; exact .inl h
  | cons node rest ih =>
    intro index h
    rw [collectNodes] at h
    cases ih h with
    | inr later => exact .inr ⟨List.mem_cons_of_mem _ later.1, later.2⟩
    | inl here =>
      rw [Std.ExtTreeMap.getElem?_insert] at here
      by_cases same : node.id = nodeId
      · obtain rfl : node = found := by simpa [same] using here
        exact .inr ⟨List.mem_cons_self .., same⟩
      · exact .inl (by simpa [same] using here)

theorem collectEdges_eq_ok {known : BTreeMap NodeId Node} :
    ∀ {edges : List Edge} {outgoing result : EdgeIndex},
      collectEdges known outgoing edges = .ok result →
        (∀ edge ∈ edges, edge.source ∈ known ∧ edge.target ∈ known) ∧
        ∀ nodeId, result[nodeId]?.getD [] =
          outgoing[nodeId]?.getD [] ++ edges.filter (·.source = nodeId) := by
  intro edges
  induction edges with
  | nil =>
    intro outgoing result h
    obtain rfl : outgoing = result := by simpa [collectEdges] using h
    simp
  | cons edge rest ih =>
    intro outgoing result h
    simp only [collectEdges, bind_eq_ok, ensure_eq_ok, decide_eq_true_eq] at h
    obtain ⟨⟨⟩, source, ⟨⟩, target, h⟩ := h
    obtain ⟨ends, outgoing'⟩ := ih h
    refine ⟨List.forall_mem_cons.2 ⟨⟨source, target⟩, ends⟩, fun nodeId => ?_⟩
    rw [outgoing', pushTo_getD, List.filter_cons]
    by_cases same : edge.source = nodeId <;> simp [same]

structure Built (graph : FederatedGraph) (nodes : List Node) (edges : List Edge) : Prop where
  known : ∀ nodeId, nodeId ∈ graph.nodes ↔ ∃ node ∈ nodes, node.id = nodeId
  node : ∀ nodeId node, graph.nodes[nodeId]? = some node → node ∈ nodes ∧ node.id = nodeId
  ends : ∀ edge ∈ edges, edge.source ∈ graph.nodes ∧ edge.target ∈ graph.nodes
  out : ∀ nodeId edge, edge ∈ graph.digraph.out nodeId ↔ edge ∈ edges ∧ edge.source = nodeId

theorem FederatedGraph.new_built (h : FederatedGraph.new nodes edges = .ok graph) :
    Built graph nodes edges := by
  simp only [FederatedGraph.new, bind_eq_ok, pure_eq_ok] at h
  obtain ⟨outgoing, added, rfl⟩ := h
  obtain ⟨ends, filtered⟩ := collectEdges_eq_ok added
  refine ⟨fun nodeId => ?_, fun nodeId node found => ?_, ends, fun nodeId edge => ?_⟩
  · simp only [mem_collectNodes, Std.ExtTreeMap.not_mem_empty, false_or]
  · cases getElem?_collectNodes found with
    | inl none => simp at none
    | inr mem => exact mem
  · simp only [FederatedGraph.digraph, getD_map_sortBy, mem_sortBy, filtered]
    simp

end Build

section Trace

variable {nodes : List Node} {edges : List Edge} {graph : FederatedGraph}
variable {source target : NodeId}

/-- The declared edges, without the graph's indices. -/
def declared (edges : List Edge) : Digraph NodeId Edge :=
  ⟨fun nodeId => edges.filter (·.source = nodeId), Edge.target⟩

theorem Built.walk_iff (built : Built graph nodes edges) {path : List Edge} {nodeId : NodeId} :
    graph.digraph.Walk source path nodeId ↔ (declared edges).Walk source path nodeId := by
  constructor
  · intro walk
    refine walk.mono (fun nodeId edge mem => ?_) rfl
    simpa [declared] using (built.out nodeId edge).1 mem
  · intro walk
    refine walk.mono (fun nodeId edge mem => ?_) rfl
    exact (built.out nodeId edge).2 (by simpa [declared] using mem)

/-- A segment as the graph has it: a declared edge between its two nodes. -/
def Drawn (nodes : List Node) (edges : List Edge) (segment : TraceSegment) : Prop :=
  segment.edge ∈ edges ∧
    (segment.source ∈ nodes ∧ segment.source.id = segment.edge.source) ∧
    segment.target ∈ nodes ∧ segment.target.id = segment.edge.target

theorem Built.run_stepBack (built : Built graph nodes edges)
    {parents : List (NodeId × NodeId × Edge)} {nodeId : NodeId} {path : List Edge}
    (follows : Follows graph.digraph parents source nodeId path) :
    ∃ segments, segments.reverse.map TraceSegment.edge = path ∧
      (∀ segment ∈ segments, Drawn nodes edges segment) ∧
      ∀ fuel, path.length < fuel → ∀ gathered,
        run (graph.stepBack source parents) fuel (nodeId, gathered) =
          some (.ok (gathered ++ segments)) := by
  induction follows with
  | start =>
    refine ⟨[], rfl, by simp, fun fuel enough gathered => ?_⟩
    obtain ⟨fuel, rfl⟩ := Nat.exists_eq_succ_of_ne_zero (Nat.ne_of_gt enough)
    simp [run, FederatedGraph.stepBack]
  | @parent nodeId previous edge path other found mem arrives rest ih =>
    obtain ⟨segments, same, drawn, runs⟩ := ih
    obtain ⟨declared, leaves⟩ := (built.out previous edge).1 mem
    obtain ⟨known, known'⟩ := built.ends edge declared
    obtain ⟨first, first'⟩ : ∃ first, graph.nodes[previous]? = some first :=
      ⟨_, Std.ExtTreeMap.getElem?_eq_some_getElem (leaves ▸ known)⟩
    obtain ⟨last, last'⟩ : ∃ last, graph.nodes[nodeId]? = some last :=
      ⟨_, Std.ExtTreeMap.getElem?_eq_some_getElem (arrives ▸ known')⟩
    refine ⟨⟨first, edge, last⟩ :: segments, by simp [same], ?_, ?_⟩
    · refine List.forall_mem_cons.2 ⟨⟨declared, ?_, ?_⟩, drawn⟩
      · exact leaves ▸ built.node previous first first'
      · have drawn := built.node nodeId last last'
        exact ⟨drawn.1, drawn.2.trans arrives.symm⟩
    · intro fuel enough gathered
      rw [List.length_append, List.length_singleton] at enough
      obtain ⟨fuel, rfl⟩ := Nat.exists_eq_succ_of_ne_zero (Nat.ne_of_gt (Nat.zero_lt_of_lt enough))
      have again : graph.stepBack source parents (nodeId, gathered) =
          .again (previous, gathered ++ [⟨first, edge, last⟩]) := by
        simp [FederatedGraph.stepBack, other, found, first', last']
      rw [run, again]
      simp only
      rw [runs fuel (by omega)]
      simp

theorem Built.search_ends (built : Built graph nodes edges) (apart : source ≠ target)
    (maxDepth : Nat) :
    ∃ result enough, Done graph.digraph target source maxDepth result ∧
      ∀ fuel, enough ≤ fuel →
        run (turn graph.digraph target maxDepth) fuel (begin source) = some result := by
  have known : ∀ v, ∀ e ∈ graph.digraph.out v, graph.digraph.target e ∈ edges.map Edge.target := by
    intro v e mem
    exact List.mem_map_of_mem ((built.out v e).1 mem).1
  have terminates : Terminates (turn graph.digraph target maxDepth) (fun _ => True)
      (remaining (edges.map Edge.target)) := turn_terminates known
  obtain ⟨result, returned⟩ := Option.isSome_iff_exists.1
    (run_isSome terminates _ (begin source) trivial (Nat.lt_succ_self _))
  refine ⟨result, _, ?_, fun fuel enough => run_mono enough returned⟩
  refine run_rule (Progress graph.digraph target source maxDepth)
    (Done graph.digraph target source maxDepth) ?_ ?_ _ _ (progress_begin apart) result returned
  · intro s s' progress again
    have holds := turn_holds progress
    rwa [again] at holds
  · intro s r progress leave
    have holds := turn_holds progress
    rwa [leave] at holds

/-- `trace` ends with a report: a shortest chain of declared edges within the bound, or no
segment, which without truncation means that there is no path of any length. -/
theorem FederatedGraph.trace_finds_shortest (nodes : List Node) (edges : List Edge)
    (graph : FederatedGraph) (built : FederatedGraph.new nodes edges = .ok graph)
    (source target : NodeId) (first : source ∈ graph.nodes) (last : target ∈ graph.nodes)
    (apart : source ≠ target) (maxDepth : Nat) (positive : 0 < maxDepth) :
    ∃ report enough,
      (∀ fuel, enough ≤ fuel → graph.trace fuel source target maxDepth = some (.ok report)) ∧
      (report.segments ≠ [] →
        (declared edges).Walk source (report.segments.map TraceSegment.edge) target ∧
        (∀ segment ∈ report.segments, Drawn nodes edges segment) ∧
        report.segments.length ≤ maxDepth ∧
        ∀ path, (declared edges).Walk source path target → report.segments.length ≤ path.length) ∧
      (report.segments = [] → report.truncated = false →
        ∀ path, ¬(declared edges).Walk source path target) := by
  have built := FederatedGraph.new_built built
  obtain ⟨result, enough, ⟨found, exhausted⟩, search⟩ :=
    built.search_ends apart maxDepth
  have unfold : ∀ fuel, enough ≤ fuel → graph.trace fuel source target maxDepth =
      if result.2 then graph.reconstruct fuel source target result.1.parents result.1.truncated
      else some (.ok ⟨[], result.1.truncated, [noPathGap]⟩) := by
    intro fuel more
    simp [FederatedGraph.trace, Nat.ne_of_gt positive, first, last, apart, search fuel more]
  cases hit : result.2 with
  | false =>
    obtain ⟨progress, empty⟩ := exhausted hit
    refine ⟨⟨[], result.1.truncated, [noPathGap]⟩, enough, ?_, fun some => absurd rfl some, ?_⟩
    · intro fuel more
      simp [unfold fuel more, hit]
    · intro _ whole path walk
      exact unreachable_of_exhausted progress empty whole path (built.walk_iff.2 walk)
  | true =>
    obtain ⟨path, follows, short, minimal⟩ := (found hit).shortest apart
    obtain ⟨segments, same, drawn, runs⟩ := built.run_stepBack follows
    have length : segments.reverse.length = path.length := by rw [← same, List.length_map]
    refine ⟨⟨segments.reverse, result.1.truncated, []⟩, max enough (path.length + 1), ?_, ?_, ?_⟩
    · intro fuel more
      rw [unfold fuel (by omega), hit]
      simp [FederatedGraph.reconstruct, runs fuel (by omega), Except.map]
    · intro _
      refine ⟨same ▸ built.walk_iff.1 follows.walk, ?_, length ▸ short, ?_⟩
      · intro segment mem
        exact drawn segment (List.mem_reverse.1 mem)
      · intro other walk
        exact length ▸ minimal other (built.walk_iff.2 walk)
    · intro none
      have empty : path = [] := by
        rw [← same]
        simpa using none
      cases follows with
      | start => exact absurd rfl apart
      | parent => simp at empty

def sampleNodes : List Node := ["a", "b"].map fun id => ⟨id, .service, some "r", id, id⟩

def sampleEdges : List Edge :=
  [⟨"ab", "a", "b", .callsRemote, .ofNat 1, .confirmed, []⟩,
    ⟨"ab2", "a", "b", .consumes, .ofNat 1, .confirmed, []⟩,
    ⟨"ba", "b", "a", .callsRemote, .ofNat 1, .confirmed, []⟩]

theorem trace_finds_shortest_cycle :
    ∃ graph, FederatedGraph.new sampleNodes sampleEdges = .ok graph ∧
      ∃ report enough,
        (∀ fuel, enough ≤ fuel → graph.trace fuel "a" "b" 3 = some (.ok report)) ∧
        (report.segments ≠ [] → ∀ path, (declared sampleEdges).Walk "a" path "b" →
          report.segments.length ≤ path.length) := by
  have built : isOkAnd (FederatedGraph.new sampleNodes sampleEdges)
      (fun graph => "a" ∈ graph.nodes ∧ "b" ∈ graph.nodes) = true := by
    decide +kernel
  obtain ⟨graph, new, known⟩ := isOkAnd_iff.1 built
  obtain ⟨first, last⟩ := of_decide_eq_true known
  obtain ⟨report, enough, returns, shortest, -⟩ :=
    FederatedGraph.trace_finds_shortest sampleNodes sampleEdges graph new "a" "b" first last
      (by decide) 3 (by decide)
  exact ⟨graph, new, report, enough, returns, fun some => (shortest some).2.2.2⟩

end Trace

end CodeSystemGraph.Trace
