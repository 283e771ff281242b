import CodeSystemGraph.ChangeAnalysis
import CodeSystemGraph.ImpactLimits

/-! Two analyses of one change under tighter and looser bounds. The tighter one maps the
first of the files that the looser one maps, and what it concludes the looser one concludes
as well. -/

namespace CodeSystemGraph.Changes
open Model Ordered Contracts Impact

/-- Only the three bounds differ, and the first options have the smaller ones. -/
structure Tighter (tight loose : ChangeAnalysisOptions) : Prop where
  files : tight.maxChangedFiles ≤ loose.maxChangedFiles
  nodes : tight.maxChangedNodes ≤ loose.maxChangedNodes
  targets : tight.maxImpactTargets ≤ loose.maxImpactTargets
  others : loose = { tight with
    maxChangedFiles := loose.maxChangedFiles
    maxChangedNodes := loose.maxChangedNodes
    maxImpactTargets := loose.maxImpactTargets }

def completenessRank : MappingCompleteness → ℕ
  | .unknown => 0
  | .partialMapping => 1
  | .complete => 2

def truncatesNodes (report : ChangeImpactReport) : Prop :=
  report.coverage.retainedChangedNodes < report.coverage.totalChangedNodes

structure SameFile (mapping mapping' : ChangedArtifactMapping) : Prop where
  oldPath : mapping.oldPath = mapping'.oldPath
  newPath : mapping.newPath = mapping'.newPath
  status : mapping.status = mapping'.status
  layer : mapping.layer = mapping'.layer

/-- A complete analysis stays complete under the looser bounds, with the same conclusion. -/
structure KeepsConclusion (tight loose : ChangeImpactReport) : Prop where
  complete : loose.coverage.complete = true
  conclusion : loose.summary.conclusion = tight.summary.conclusion
  highestRisk : loose.summary.highestRisk = tight.summary.highestRisk

section Files

variable {inputs : AnalysisInputs} {options tight loose : ChangeAnalysisOptions}

theorem mappingWork_eq : mappingWork inputs options =
    ((orderedFiles inputs).take options.maxChangedFiles).map (mapFile inputs) := by
  refine List.Pairwise.insertionSort_eq (List.pairwise_map.mpr ?_)
  exact (sortBy_sorted changedFileOrder inputs.changeSet.files).sublist (List.take_sublist _ _)

theorem length_mappingWork :
    (mappingWork inputs options).length = min options.maxChangedFiles inputs.changeSet.files.length := by
  rw [mappingWork_eq, List.length_map, List.length_take, orderedFiles, (sortBy_perm _ _).length_eq]

theorem getElem?_mappingWork {i : ℕ} {work : MappingWork}
    (found : (mappingWork inputs options)[i]? = some work) :
    ((orderedFiles inputs).map (mapFile inputs))[i]? = some work := by
  rw [mappingWork_eq, List.getElem?_map, List.getElem?_take] at found
  split_ifs at found with within
  · rwa [List.getElem?_map]
  · cases found

theorem mappingWork_agree {i : ℕ} {work work' : MappingWork}
    (found : (mappingWork inputs tight)[i]? = some work)
    (found' : (mappingWork inputs loose)[i]? = some work') : work' = work :=
  Option.some.inj ((getElem?_mappingWork found').symm.trans (getElem?_mappingWork found))

def boundMapping (inputs : AnalysisInputs) (options : ChangeAnalysisOptions)
    (mapping : ChangedArtifactMapping) : ChangedArtifactMapping :=
  if nodesTruncated inputs options then
    degradeMapping "mapped node identities were truncated by the configured node bound"
      (retainNodeIds (retainedNodeIds inputs options) mapping)
  else mapping

theorem mappings_boundedWork : (boundedWork inputs options).map MappingWork.mapping =
    (mappingWork inputs options).map fun work => boundMapping inputs options work.mapping := by
  unfold boundedWork boundMapping
  split_ifs with truncated
  · rw [List.map_map]
    rfl
  · rfl

theorem completeness_boundMapping (mapping : ChangedArtifactMapping) :
    (boundMapping inputs options mapping).completeness =
      if nodesTruncated inputs options then .partialMapping else mapping.completeness := by
  unfold boundMapping
  split_ifs <;> rfl

theorem sameFile_boundMapping (mapping : ChangedArtifactMapping) :
    SameFile (boundMapping inputs tight mapping) (boundMapping inputs loose mapping) := by
  unfold boundMapping
  split_ifs <;> exact ⟨rfl, rfl, rfl, rfl⟩

theorem getElem?_mappings {i : ℕ} {mapping : ChangedArtifactMapping}
    (found : ((boundedWork inputs options).map MappingWork.mapping)[i]? = some mapping) :
    ∃ work, (mappingWork inputs options)[i]? = some work ∧
      boundMapping inputs options work.mapping = mapping := by
  rw [mappings_boundedWork, List.getElem?_map] at found
  exact Option.map_eq_some_iff.mp found

end Files

section Complete

variable {inputs : AnalysisInputs} {tight loose : ChangeAnalysisOptions}

theorem provisionalComplete_bounds (complete : provisionalComplete inputs tight = true) :
    boundsTruncated inputs tight = false := by
  simp only [provisionalComplete, Bool.and_eq_true, Bool.not_eq_true'] at complete
  exact complete.1.1.1

variable (tighter : Tighter tight loose) (whole : boundsTruncated inputs tight = false)
include tighter whole

/-- A file bound that was not hit is not hit when it grows. -/
theorem mappingWork_looser : mappingWork inputs loose = mappingWork inputs tight := by
  simp only [boundsTruncated, Bool.or_eq_false_iff, filesTruncated, decide_eq_false_iff_not,
    length_mappingWork] at whole
  have fits : (orderedFiles inputs).length ≤ tight.maxChangedFiles := by
    rw [orderedFiles, (sortBy_perm _ _).length_eq]
    omega
  rw [mappingWork_eq, mappingWork_eq, List.take_of_length_le fits,
    List.take_of_length_le (fits.trans tighter.files)]

theorem retainedNodeIds_looser : retainedNodeIds inputs loose = retainedNodeIds inputs tight := by
  have same := mappingWork_looser tighter whole
  simp only [boundsTruncated, Bool.or_eq_false_iff, nodesTruncated, decide_eq_false_iff_not,
    retainedNodeIds, List.length_take] at whole
  have fits : (changedNodeIds (mappingWork inputs tight)).length ≤ tight.maxChangedNodes := by omega
  rw [retainedNodeIds, retainedNodeIds, same, List.take_of_length_le fits,
    List.take_of_length_le (fits.trans tighter.nodes)]

theorem nodesTruncated_looser : nodesTruncated inputs loose = nodesTruncated inputs tight := by
  rw [nodesTruncated, nodesTruncated, retainedNodeIds_looser tighter whole,
    mappingWork_looser tighter whole]

theorem boundedWork_looser : boundedWork inputs loose = boundedWork inputs tight := by
  rw [boundedWork, boundedWork, nodesTruncated_looser tighter whole,
    mappingWork_looser tighter whole, retainedNodeIds_looser tighter whole]

theorem changedBoundaryIds_looser :
    changedBoundaryIds inputs loose = changedBoundaryIds inputs tight := by
  rw [changedBoundaryIds, changedBoundaryIds, boundedWork_looser tighter whole]

theorem impactTargetIds_looser : impactTargetIds inputs loose = impactTargetIds inputs tight := by
  have same := changedBoundaryIds_looser tighter whole
  simp only [boundsTruncated, Bool.or_eq_false_iff, targetsTruncated, decide_eq_false_iff_not,
    impactTargetIds, List.length_take] at whole
  have fits : (changedBoundaryIds inputs tight).length ≤ tight.maxImpactTargets := by omega
  rw [impactTargetIds, impactTargetIds, same, List.take_of_length_le fits,
    List.take_of_length_le (fits.trans tighter.targets)]

theorem contractDeltas_looser : contractDeltas inputs loose = contractDeltas inputs tight := by
  rw [contractDeltas, contractDeltas, changedBoundaryIds_looser tighter whole,
    boundedWork_looser tighter whole]

theorem filesTruncated_looser : filesTruncated inputs loose = filesTruncated inputs tight := by
  rw [filesTruncated, filesTruncated, mappingWork_looser tighter whole]

theorem targetsTruncated_looser : targetsTruncated inputs loose = targetsTruncated inputs tight := by
  rw [targetsTruncated, targetsTruncated, impactTargetIds_looser tighter whole,
    changedBoundaryIds_looser tighter whole]

theorem boundsTruncated_looser : boundsTruncated inputs loose = boundsTruncated inputs tight := by
  rw [boundsTruncated, boundsTruncated, filesTruncated_looser tighter whole,
    nodesTruncated_looser tighter whole, targetsTruncated_looser tighter whole]

theorem provisionalComplete_looser :
    provisionalComplete inputs loose = provisionalComplete inputs tight := by
  rw [provisionalComplete, provisionalComplete, boundsTruncated_looser tighter whole,
    completeChangedFiles, completeChangedFiles, boundedWork_looser tighter whole,
    contractDeltas_looser tighter whole]

theorem coverageGaps_looser : coverageGaps inputs loose = coverageGaps inputs tight := by
  have files := filesTruncated_looser tighter whole
  have nodes := nodesTruncated_looser tighter whole
  have targets := targetsTruncated_looser tighter whole
  have deltas := contractDeltas_looser tighter whole
  have work := mappingWork_looser tighter whole
  simp only [boundsTruncated, Bool.or_eq_false_iff] at whole
  simp only [coverageGaps, files, nodes, targets, deltas, work, whole.1.1, whole.1.2, whole.2,
    gapIf, Bool.false_eq_true, if_false]

theorem impactContext_looser : impactContext inputs loose = impactContext inputs tight := by
  simp only [impactContext, contractDeltas_looser tighter whole,
    changedBoundaryIds_looser tighter whole, provisionalComplete_looser tighter whole,
    coverageGaps_looser tighter whole]

end Complete

section Impacts

variable {inputs : AnalysisInputs} {tight loose : ChangeAnalysisOptions}

theorem impactRequest_looser (tighter : Tighter tight loose) (target : NodeId) :
    impactRequest loose target = (impactRequest tight target).withNodeLimit loose.maxChangedNodes := by
  rw [tighter.others]
  rfl

theorem analyzeTarget_eq_ok {options : ChangeAnalysisOptions} {target : NodeId}
    {impact : ImpactReport} : analyzeTarget inputs options target = .ok impact ↔
      analyzeImpact (impactRequest options target) (impactContext inputs options) = .ok impact := by
  unfold analyzeTarget
  cases analyzeImpact (impactRequest options target) (impactContext inputs options) with
  | error e => simp
  | ok report => simp

variable (tighter : Tighter tight loose) (whole : boundsTruncated inputs tight = false)
include tighter whole

theorem analyzeTarget_looser {target : NodeId} {impact impact' : ImpactReport}
    (analyzed : analyzeTarget inputs tight target = .ok impact) (untouched : impact.truncation = none)
    (analyzed' : analyzeTarget inputs loose target = .ok impact') : impact' = impact := by
  rw [analyzeTarget_eq_ok] at analyzed analyzed'
  rw [impactRequest_looser tighter, impactContext_looser tighter whole] at analyzed'
  exact analyzeImpact_looser tighter.nodes analyzed untouched analyzed'

theorem analyzeTargets_looser (targets : List NodeId) {impacts impacts' : List ImpactReport}
    (analyzed : targets.mapM (analyzeTarget inputs tight) = .ok impacts)
    (untouched : ∀ impact ∈ impacts, impact.truncation = none)
    (analyzed' : targets.mapM (analyzeTarget inputs loose) = .ok impacts') : impacts' = impacts := by
  induction targets generalizing impacts impacts' with
  | nil =>
    obtain rfl := Except.ok.inj analyzed
    exact (Except.ok.inj analyzed').symm
  | cons target rest ih =>
    simp only [List.mapM_cons, bind_eq_ok, pure_eq_ok] at analyzed analyzed'
    obtain ⟨impact, first, impacts, others, rfl⟩ := analyzed
    obtain ⟨impact', first', impacts', others', rfl⟩ := analyzed'
    rw [analyzeTarget_looser tighter whole first (untouched impact List.mem_cons_self) first',
      ih others (fun impact member => untouched impact (List.mem_cons_of_mem _ member)) others']

end Impacts

section Reports

variable {fingerprintOf : Material → Except String String} {inputs : AnalysisInputs}
  {options tight loose : ChangeAnalysisOptions}

theorem analyzeChanges_eq_ok {report : ChangeImpactReport}
    (analyzed : analyzeChanges inputs options fingerprintOf = .ok report) :
    ∃ fingerprint impacts, (impactTargetIds inputs options).mapM (analyzeTarget inputs options) =
        .ok impacts ∧
      report = changeReport inputs options fingerprint (sortBy targetKey impacts) := by
  unfold analyzeChanges at analyzed
  split_ifs at analyzed
  cases made : fingerprintOf (material inputs options) with
  | error message =>
    rw [made] at analyzed
    cases analyzed
  | ok fingerprint =>
    rw [made] at analyzed
    obtain ⟨impacts, found, same⟩ := bind_eq_ok.mp analyzed
    exact ⟨fingerprint, impacts, found, (Except.ok.inj same).symm⟩

theorem truncatesNodes_iff {fingerprint : String} {impacts : List ImpactReport} :
    truncatesNodes (changeReport inputs options fingerprint impacts) ↔
      nodesTruncated inputs options = true := by
  simp [truncatesNodes, changeReport, analysisCoverage, nodesTruncated]

theorem completenessRank_le {mapping : ChangedArtifactMapping}
    (looserCuts : ¬(nodesTruncated inputs loose = true ∧ ¬nodesTruncated inputs tight = true ∧
      mapping.completeness = .complete))
    (tighterCuts : ¬(nodesTruncated inputs tight = true ∧ ¬nodesTruncated inputs loose = true ∧
      mapping.completeness = .unknown)) :
    completenessRank (boundMapping inputs tight mapping).completeness ≤
      completenessRank (boundMapping inputs loose mapping).completeness := by
  rw [completeness_boundMapping, completeness_boundMapping]
  split_ifs with cutTight cutLoose cutLoose
  · exact le_rfl
  · cases mapped : mapping.completeness
    · decide
    · decide
    · exact absurd ⟨cutTight, cutLoose, mapped⟩ tighterCuts
  · cases mapped : mapping.completeness
    · exact absurd ⟨cutLoose, cutTight, mapped⟩ looserCuts
    · decide
    · decide
  · exact le_rfl

theorem keepsConclusion (tighter : Tighter tight loose) {tightReport looseReport : ChangeImpactReport}
    (analyzed : analyzeChanges inputs tight fingerprintOf = .ok tightReport)
    (analyzed' : analyzeChanges inputs loose fingerprintOf = .ok looseReport)
    (complete : tightReport.coverage.complete = true) : KeepsConclusion tightReport looseReport := by
  obtain ⟨fingerprint, impacts, found, rfl⟩ := analyzeChanges_eq_ok analyzed
  obtain ⟨fingerprint', impacts', found', rfl⟩ := analyzeChanges_eq_ok analyzed'
  have parts : provisionalComplete inputs tight = true ∧
      (sortBy targetKey impacts).all conclusive = true := Bool.and_eq_true_iff.mp complete
  have whole := provisionalComplete_bounds parts.1
  have untouched : ∀ impact ∈ impacts, impact.truncation = none := by
    intro impact member
    have known := List.all_eq_true.mp parts.2 impact ((sortBy_perm _ _).mem_iff.mpr member)
    rw [conclusive, Bool.and_eq_true] at known
    exact Option.isNone_iff_eq_none.mp known.2
  rw [impactTargetIds_looser tighter whole] at found'
  obtain rfl := analyzeTargets_looser tighter whole _ found untouched found'
  have covered : (analysisCoverage inputs loose (sortBy targetKey impacts')).complete =
      (analysisCoverage inputs tight (sortBy targetKey impacts')).complete := by
    simp only [analysisCoverage, provisionalComplete_looser tighter whole]
  have entities : changedEntities inputs loose = changedEntities inputs tight := by
    rw [changedEntities, changedEntities, boundedWork_looser tighter whole]
  refine ⟨covered.trans complete, ?_, ?_⟩
  · simp only [changeReport, summarize, covered, entities, contractDeltas_looser tighter whole]
  · simp only [changeReport, summarize, covered]

/-- The mappings of the tighter run are of the first files of the looser run and no better
than its mappings, unless the node bound was hit in one of the runs alone; a run that hits it
has no complete mapping; and a complete analysis keeps its conclusion. -/
theorem tighterBounds_degrade (inputs : AnalysisInputs) (tight loose : ChangeAnalysisOptions)
    (tightReport looseReport : ChangeImpactReport)
    (fingerprintOf : Material → Except String String) (tighter : Tighter tight loose)
    (analyzed : analyzeChanges inputs tight fingerprintOf = .ok tightReport)
    (analyzed' : analyzeChanges inputs loose fingerprintOf = .ok looseReport) :
    tightReport.mappings.length ≤ looseReport.mappings.length ∧
      (∀ (i : ℕ) mapping mapping', tightReport.mappings[i]? = some mapping →
        looseReport.mappings[i]? = some mapping' →
        SameFile mapping mapping' ∧
        (¬(truncatesNodes looseReport ∧ ¬truncatesNodes tightReport ∧
            mapping.completeness = .complete) →
          ¬(truncatesNodes tightReport ∧ ¬truncatesNodes looseReport ∧
            mapping'.completeness = .unknown) →
          completenessRank mapping.completeness ≤ completenessRank mapping'.completeness)) ∧
      (∀ report ∈ [tightReport, looseReport], truncatesNodes report →
        ∀ mapping ∈ report.mappings, mapping.completeness ≠ .complete) ∧
      (tightReport.coverage.complete = true → KeepsConclusion tightReport looseReport) := by
  have keeps := keepsConclusion tighter analyzed analyzed'
  obtain ⟨fingerprint, impacts, -, rfl⟩ := analyzeChanges_eq_ok analyzed
  obtain ⟨fingerprint', impacts', -, rfl⟩ := analyzeChanges_eq_ok analyzed'
  have cut : ∀ options fingerprint impacts,
      truncatesNodes (changeReport inputs options fingerprint impacts) →
      ∀ mapping ∈ (changeReport inputs options fingerprint impacts).mappings,
        mapping.completeness ≠ .complete := by
    intro options fingerprint impacts truncated mapping member
    have listed : mapping ∈ (boundedWork inputs options).map MappingWork.mapping := member
    rw [mappings_boundedWork] at listed
    obtain ⟨work, -, rfl⟩ := List.mem_map.mp listed
    rw [completeness_boundMapping, if_pos (truncatesNodes_iff.mp truncated)]
    decide
  refine ⟨?_, ?_, ?_, keeps⟩
  · have fewer := tighter.files
    simp only [changeReport, mappings_boundedWork, List.length_map, length_mappingWork]
    omega
  · intro i mapping mapping' found found'
    obtain ⟨work, here, rfl⟩ := getElem?_mappings found
    obtain ⟨work', here', rfl⟩ := getElem?_mappings found'
    obtain rfl := mappingWork_agree here here'
    refine ⟨sameFile_boundMapping _, fun looserCuts tighterCuts => completenessRank_le ?_ ?_⟩
    · rintro ⟨cutLoose, cutTight, mapped⟩
      refine looserCuts ⟨truncatesNodes_iff.mpr cutLoose, mt truncatesNodes_iff.mp cutTight, ?_⟩
      rwa [completeness_boundMapping, if_neg cutTight]
    · rintro ⟨cutTight, cutLoose, mapped⟩
      refine tighterCuts ⟨truncatesNodes_iff.mpr cutTight, mt truncatesNodes_iff.mp cutLoose, ?_⟩
      rwa [completeness_boundMapping, if_neg cutLoose]
  · intro report member truncated
    simp only [List.mem_cons, List.not_mem_nil, or_false] at member
    rcases member with rfl | rfl
    · exact cut _ _ _ truncated
    · exact cut _ _ _ truncated

end Reports

section TwoFiles

def sourcePath (byte : UInt8) : NativePath := ⟨.utf8, [byte], ""⟩

def sourceFile (byte : UInt8) : ChangedFile where
  status := .modified
  oldPath := some (sourcePath byte)
  newPath := some (sourcePath byte)
  binary := false
  hunks := [⟨9, 0, 10, 2, []⟩]
  source := .worktree

def operation (id : NodeId) : Node := ⟨id, .httpOperation, some "api", id, id⟩

def compatibleInput (id : NodeId) : ContractCompatibilityInput :=
  ⟨none, id, some ⟨.compatible, "before", "after", []⟩⟩

/-- Two changed files, each with evidence of a contract of its own. -/
def twoFiles : AnalysisInputs where
  changeSet := {
    scope := .unstaged
    files := [sourceFile 97, sourceFile 98]
    repoId := "api"
    checkoutId := "checkout"
    checkoutHeadSha := "head"
    workspaceManifestHash := "manifest" }
  nodes := [operation "A", operation "B"]
  edges := [⟨"e", "A", "A", .consumes, .ofNat 1, .confirmed, ["a"]⟩,
    ⟨"f", "B", "B", .consumes, .ofNat 1, .confirmed, ["b"]⟩]
  evidence := [{ apiEvidence "a" 10 11 with filePath := some "a" },
    { apiEvidence "b" 10 11 with filePath := some "b" }]
  community := none
  freshness := [⟨"api", "checkout", some "head", "manifest", .fresh, none⟩]
  compatibility := [compatibleInput "A", compatibleInput "B"]

def boundedOptions (files nodes targets : ℕ) : ChangeAnalysisOptions where
  maxChangedFiles := files
  maxChangedNodes := nodes
  maxImpactTargets := targets
  direction := .both
  maxDepth := 4
  offset := 0
  limit := 10
  summaryOnly := false

theorem tighter_boundedOptions {files nodes targets files' nodes' targets' : ℕ} (less : files ≤ files')
    (fewer : nodes ≤ nodes') (lower : targets ≤ targets') :
    Tighter (boundedOptions files nodes targets) (boundedOptions files' nodes' targets') :=
  ⟨less, fewer, lower, rfl⟩

def constantFingerprint : Material → Except String String := fun _ => .ok "fingerprint"

theorem keepsConclusion_twoFiles : ∃ tightReport looseReport,
    analyzeChanges twoFiles (boundedOptions 2 2 2) constantFingerprint = .ok tightReport ∧
      analyzeChanges twoFiles (boundedOptions 3 4 2) constantFingerprint = .ok looseReport ∧
      tightReport.coverage.complete = true ∧ KeepsConclusion tightReport looseReport := by
  have test : isOkAnd (analyzeChanges twoFiles (boundedOptions 2 2 2) constantFingerprint)
        (fun report => report.coverage.complete) = true ∧
      isOkAnd (analyzeChanges twoFiles (boundedOptions 3 4 2) constantFingerprint)
        (fun _ => true) = true := by
    decide +kernel
  obtain ⟨tightReport, analyzed, complete⟩ := isOkAnd_iff.mp test.1
  obtain ⟨looseReport, analyzed', -⟩ := isOkAnd_iff.mp test.2
  have degrade := tighterBounds_degrade _ _ _ _ _ _
    (tighter_boundedOptions (by decide) (by decide) (by decide)) analyzed analyzed'
  exact ⟨tightReport, looseReport, analyzed, analyzed', complete, degrade.2.2.2 complete⟩

/-- One node is within the bound and two are not, so the file that is mapped alone is mapped
better than beside the other. -/
theorem tighterBounds_mapBetter :
    ¬∀ (inputs : AnalysisInputs) (tight loose : ChangeAnalysisOptions)
      (tightReport looseReport : ChangeImpactReport)
      (fingerprintOf : Material → Except String String), Tighter tight loose →
        analyzeChanges inputs tight fingerprintOf = .ok tightReport →
        analyzeChanges inputs loose fingerprintOf = .ok looseReport →
        (∀ (i : ℕ) mapping mapping', tightReport.mappings[i]? = some mapping →
          looseReport.mappings[i]? = some mapping' →
          completenessRank mapping.completeness ≤ completenessRank mapping'.completeness) ∧
        (tightReport.coverage.complete = true → KeepsConclusion tightReport looseReport) := by
  intro all
  have test : isOkAnd (analyzeChanges twoFiles (boundedOptions 1 1 1) constantFingerprint)
        (fun report => report.mappings[0]?.any fun mapping => mapping.completeness == .complete) =
          true ∧
      isOkAnd (analyzeChanges twoFiles (boundedOptions 2 1 1) constantFingerprint)
        (fun report => report.mappings[0]?.any fun mapping =>
          mapping.completeness == .partialMapping) = true := by
    decide +kernel
  obtain ⟨tightReport, analyzed, first⟩ := isOkAnd_iff.mp test.1
  obtain ⟨looseReport, analyzed', first'⟩ := isOkAnd_iff.mp test.2
  obtain ⟨mapping, found, complete⟩ := (Option.any_eq_true _ _).mp first
  obtain ⟨mapping', found', cut⟩ := (Option.any_eq_true _ _).mp first'
  have better := (all _ _ _ _ _ _ (tighter_boundedOptions (by decide) (by decide) (by decide))
    analyzed analyzed').1 0 mapping mapping' found found'
  rw [eq_of_beq complete, eq_of_beq cut] at better
  exact absurd better (by decide)

end TwoFiles

end CodeSystemGraph.Changes
