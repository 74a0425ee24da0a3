import HarborHF.Relational.Fold
import HarborHF.Results.Composition

/-!
# What a composition selects

The trials of a composition are those its manifest chooses (`composes_of_composeResultTables`). It is an
exact selection of rows when the executions that the chosen trials refer to are executions of them in
their sources (`exactSelection_iff`): rows are copied as they are, and a table of results does not check
that its trials refer to executions of their own, as evidence does before it becomes one.
-/

set_option autoImplicit false

namespace HarborHF.Results

open Relational

variable {manifest : ResultCompositionManifest} {sources : Dict String ResultTables}
  {base tables result : ResultTables} {trial : TrialRow} {selected : List (TrialRow × ResultTables)}

/-- The manifest chooses the trial from the tables of one of its sources. -/
def Chosen (manifest : ResultCompositionManifest) (sources : Dict String ResultTables)
    (trial : TrialRow) (tables : ResultTables) : Prop :=
  ∃ source ∈ manifest.sources, sources.get? source.publicationId = some tables ∧
    trial ∈ tables.trials ∧ trial.key ∈ source.selectedTrials

/-- The tables are those of the base publication. -/
def IsBase (manifest : ResultCompositionManifest) (sources : Dict String ResultTables)
    (base : ResultTables) : Prop :=
  ∃ source ∈ manifest.sources, source.role = .base ∧ sources.get? source.publicationId = some base

/-- A metric of a trial or of one of its executions in the tables. -/
def MetricOf (trial : TrialRow) (tables : ResultTables) (metric : MetricRow) : Prop :=
  metric.ownerType = .trial ∧ metric.ownerId = trial.trialId ∨
    metric.ownerType = .execution ∧ ∃ execution ∈ tables.executions,
      execution.trialId = trial.trialId ∧ metric.ownerId = execution.executionId

/-- The trial refers to an execution of its own, if to any. -/
def Refers (trial : TrialRow) (executions : List ExecutionRow) : Prop :=
  ∀ id, trial.selectedExecutionId = some id →
    ∃ execution ∈ executions, execution.executionId = id ∧ execution.trialId = trial.trialId

/-- The composition is an exact selection of the rows of its sources. -/
structure ExactSelection [ResultDigests] (manifest : ResultCompositionManifest)
    (sources : Dict String ResultTables) (base result : ResultTables) : Prop where
  nodup_keys : (result.trials.map TrialRow.key).Nodup
  mem_keys : ∀ key, key ∈ result.trials.map TrialRow.key ↔
    key ∈ base.trials.map TrialRow.key ∨ key ∈ manifest.unsupportedTasks.map UnsupportedTask.key
  digests : ∀ trial ∈ result.trials, ∀ other ∈ base.trials, other.key = trial.key →
    other.taskDigest = trial.taskDigest
  mem_trials : ∀ row, row ∈ result.trials ↔
    (∃ trial tables, Chosen manifest sources trial tables ∧ row = trial.retraced result.run.trace) ∨
      ∃ task ∈ manifest.unsupportedTasks, row = unsupportedTrial manifest.runId result.run.trace task
  nodup_executions : (result.executions.map ExecutionRow.executionId).Nodup
  mem_executions : ∀ row, row ∈ result.executions ↔
    ∃ trial tables, Chosen manifest sources trial tables ∧ ∃ execution ∈ tables.executions,
      execution.trialId = trial.trialId ∧ row = execution.retraced result.run.trace
  nodup_metrics : (result.metrics.map MetricRow.metricId).Nodup
  mem_metrics : ∀ row, row ∈ result.metrics ↔
    (∃ trial tables, Chosen manifest sources trial tables ∧ ∃ metric ∈ tables.metrics,
      MetricOf trial tables metric ∧ row = metric.retraced result.run.trace) ∨
      ∃ task ∈ manifest.unsupportedTasks, row = unsupportedReward manifest.runId result.run.trace task
  rewards : ∀ task ∈ manifest.unsupportedTasks,
    (result.metrics.filter fun metric ↦
        metric.ownerType = .trial ∧ metric.ownerId = unsupportedTrialId manifest.runId task) =
      [unsupportedReward manifest.runId result.run.trace task]
  refers : ∀ trial ∈ result.trials, Refers trial result.executions
  planned : result.run.plannedTrialCount = result.trials.length
  scored : result.run.scoredTrialCount = outcomeCount .scored result.trials
  agentFailed : result.run.agentFailedCount = outcomeCount .agentFailed result.trials
  benchmarkFailed : result.run.benchmarkFailedCount = outcomeCount .benchmarkFailed result.trials
  infrastructureExhausted :
    result.run.infrastructureExhaustedCount = outcomeCount .infrastructureExhausted result.trials
  unsupported : result.run.unsupportedCount = outcomeCount .unsupported result.trials

/-! ### The selected trials -/

theorem selectTrial_eq_ok {source : SourcePublicationReference} {baseTrials : Dict TrialKey TrialRow}
    {selection : TrialKey} {row : TrialRow × ResultTables}
    (h : selectTrial source tables baseTrials selection = .ok row) :
    (byKey tables.trials).get? selection = some row.1 ∧ row.2 = tables ∧
      (source.role = .correction →
        ∃ other, baseTrials.get? row.1.key = some other ∧ other.taskDigest = row.1.taskDigest) := by
  unfold selectTrial at h
  cases hget : (byKey tables.trials).get? selection with
  | none =>
    rw [hget] at h
    cases h
  | some trial =>
    simp only [hget] at h
    obtain ⟨⟨⟩, hcheck, hrow⟩ := bind_eq_ok.mp h
    cases hrow
    refine ⟨rfl, rfl, fun hrole ↦ ?_⟩
    unfold validateCorrectionTrial at hcheck
    rw [if_neg (not_not.mpr hrole)] at hcheck
    cases hother : baseTrials.get? trial.key with
    | none =>
      rw [hother] at hcheck
      cases hcheck
    | some other =>
      simp only [hother] at hcheck
      split_ifs at hcheck with hdigest
      exact ⟨other, rfl, not_not.mp hdigest⟩

theorem selectSource_eq_ok {source : SourcePublicationReference}
    {baseTrials : Dict TrialKey TrialRow} {rows : List (TrialRow × ResultTables)}
    (h : selectSource sources baseTrials source = .ok rows) :
    ∃ tables, sources.get? source.publicationId = some tables ∧
      (tables.trials.map TrialRow.key).Nodup ∧
      List.Forall₂ (fun selection row ↦ selectTrial source tables baseTrials selection = .ok row)
        source.selectedTrials rows := by
  unfold selectSource at h
  cases hget : sources.get? source.publicationId with
  | none =>
    rw [hget] at h
    cases h
  | some tables =>
    simp only [hget] at h
    split_ifs at h with hlength
    · cases h
    · exact ⟨tables, rfl, nodup_of_length_byName (not_not.mp hlength), mapM_eq_ok.mp h⟩

/-- What a selection of rows is. -/
structure Selects (manifest : ResultCompositionManifest) (sources : Dict String ResultTables)
    (base : ResultTables) (selected : List (TrialRow × ResultTables)) : Prop where
  mem_iff : ∀ row, row ∈ selected ↔ Chosen manifest sources row.1 row.2
  keys : (selected.map fun row ↦ row.1.key) = selectedKeys manifest.sources
  covers : ∀ key, key ∈ base.trials.map TrialRow.key ↔ key ∈ selectedKeys manifest.sources
  nodup_base : (base.trials.map TrialRow.key).Nodup
  digests : ∀ row ∈ selected, ∀ other ∈ base.trials, other.key = row.1.key →
    other.taskDigest = row.1.taskDigest

theorem get?_byKey (h : (tables.trials.map TrialRow.key).Nodup) (htrial : trial ∈ tables.trials) :
    (byKey tables.trials).get? trial.key = some trial :=
  Dict.get?_foldl_set_of_nodup h htrial

theorem eq_of_key (h : (tables.trials.map TrialRow.key).Nodup) {first second : TrialRow}
    (hfirst : first ∈ tables.trials) (hsecond : second ∈ tables.trials)
    (hkey : first.key = second.key) : first = second := by
  have hget := get?_byKey h hfirst
  rw [hkey, get?_byKey h hsecond] at hget
  exact (Option.some.inj hget).symm

theorem mem_keys_byKey (h : (tables.trials.map TrialRow.key).Nodup) {key : TrialKey} :
    key ∈ (byKey tables.trials).keys ↔ key ∈ tables.trials.map TrialRow.key := by
  have hvalues : (byKey tables.trials).values = tables.trials := values_byName h
  have hnamed : (byKey tables.trials).Named TrialRow.key := named_byName
  rw [← hnamed.map_values, hvalues]

/-- The keys of the rows are the selections of the manifest, in their order. -/
theorem keys_of_selectSource {baseTrials : Dict TrialKey TrialRow}
    {references : List SourcePublicationReference} {lists : List (List (TrialRow × ResultTables))}
    (h : List.Forall₂ (fun source rows ↦ selectSource sources baseTrials source = .ok rows)
      references lists) : (lists.flatten.map fun row ↦ row.1.key) = selectedKeys references := by
  induction h with
  | nil => rfl
  | @cons source rows references lists hhead _ ih =>
    obtain ⟨tables, -, -, hrows⟩ := selectSource_eq_ok hhead
    have hkeys : (rows.map fun row ↦ row.1.key) = source.selectedTrials := by
      clear hhead
      generalize source.selectedTrials = selections at hrows ⊢
      induction hrows with
      | nil => rfl
      | cons hrow _ ihrows =>
        have hkey := (get?_byName (selectTrial_eq_ok hrow).1).2
        rw [List.map_cons, ihrows, hkey]
    rw [List.flatten_cons, List.map_append, ih, hkeys]
    rfl

/-- The base is the one source of its role. -/
theorem eq_of_isBase (hbase : IsBase manifest sources base) {source : SourcePublicationReference}
    (hsource : source ∈ manifest.sources) (hrole : source.role = .base)
    (hget : sources.get? source.publicationId = some tables) : tables = base := by
  obtain ⟨reference, hreference, hbaseRole, hbaseGet⟩ := hbase
  obtain ⟨only, honly⟩ := List.length_eq_one_iff.mp manifest.one_base
  have heq (other : SourcePublicationReference) (hother : other ∈ manifest.sources)
      (hotherRole : other.role = .base) : other = only := by
    have hmem : other ∈ manifest.sources.filter fun source ↦ source.role = .base :=
      List.mem_filter.mpr ⟨hother, by simpa using hotherRole⟩
    rw [honly] at hmem
    exact List.mem_singleton.mp hmem
  rw [heq source hsource hrole, ← heq reference hreference hbaseRole, hbaseGet] at hget
  exact (Option.some.inj hget).symm

/-- The selected rows are the chosen trials, which are those of the base. -/
theorem selects_of_selectCompositionRows (hbase : IsBase manifest sources base)
    (h : selectCompositionRows manifest sources base = .ok selected) :
    Selects manifest sources base selected := by
  obtain ⟨lists, hlists, h⟩ := bind_eq_ok.mp h
  have hall := mapM_eq_ok.mp hlists
  have hkeys := keys_of_selectSource hall
  have hnodup (source : SourcePublicationReference) (hsource : source ∈ manifest.sources)
      (tables : ResultTables) (hget : sources.get? source.publicationId = some tables) :
      (tables.trials.map TrialRow.key).Nodup := by
    obtain ⟨rows, -, hrows⟩ := exists_right_of_forall₂ hall hsource
    obtain ⟨other, hother, hdistinct, -⟩ := selectSource_eq_ok hrows
    rw [hget] at hother
    exact Option.some.inj hother ▸ hdistinct
  have hnodupBase : (base.trials.map TrialRow.key).Nodup := by
    obtain ⟨reference, hreference, -, hget⟩ := hbase
    exact hnodup reference hreference base hget
  simp only [hkeys] at h
  split_ifs at h with hcovers
  swap
  · cases h
  cases h
  have hrow (row : TrialRow × ResultTables) (hmem : row ∈ lists.flatten) :
      ∃ source ∈ manifest.sources, sources.get? source.publicationId = some row.2 ∧
        row.1 ∈ row.2.trials ∧ row.1.key ∈ source.selectedTrials ∧
        (source.role = .correction → ∃ other, (byKey base.trials).get? row.1.key = some other ∧
          other.taskDigest = row.1.taskDigest) := by
    obtain ⟨rows, hrows, hmem⟩ := List.mem_flatten.mp hmem
    obtain ⟨source, hsource, hok⟩ := exists_left_of_forall₂ hall hrows
    obtain ⟨tables, hget, -, hselect⟩ := selectSource_eq_ok hok
    obtain ⟨selection, hselection, hrow⟩ := exists_left_of_forall₂ hselect hmem
    obtain ⟨hbyKey, htables, hcorrection⟩ := selectTrial_eq_ok hrow
    obtain ⟨htrial, hkey⟩ := get?_byName hbyKey
    exact ⟨source, hsource, htables ▸ hget, htables ▸ htrial, hkey ▸ hselection, hcorrection⟩
  refine ⟨fun row ↦ ⟨fun hmem ↦ ?_, fun hchosen ↦ ?_⟩, hkeys, fun key ↦ ?_, hnodupBase,
    fun row hmem other hother hkey ↦ ?_⟩
  · obtain ⟨source, hsource, hget, htrial, hkey, -⟩ := hrow row hmem
    exact ⟨source, hsource, hget, htrial, hkey⟩
  · obtain ⟨source, hsource, hget, htrial, hkey⟩ := hchosen
    obtain ⟨rows, hrows, hok⟩ := exists_right_of_forall₂ hall hsource
    obtain ⟨tables, hother, hdistinct, hselect⟩ := selectSource_eq_ok hok
    obtain rfl : row.2 = tables := Option.some.inj (hget.symm.trans hother)
    obtain ⟨found, hfound, hselected⟩ := exists_right_of_forall₂ hselect hkey
    obtain ⟨hbyKey, htables, -⟩ := selectTrial_eq_ok hselected
    rw [get?_byKey hdistinct htrial] at hbyKey
    have heq : row = found := Prod.ext (Option.some.inj hbyKey) htables.symm
    exact List.mem_flatten.mpr ⟨rows, hrows, heq ▸ hfound⟩
  · rw [← mem_keys_byKey hnodupBase]
    exact ⟨hcovers.1 key, hcovers.2 key⟩
  · obtain ⟨source, hsource, hget, htrial, -, hcorrection⟩ := hrow row hmem
    cases hrole : source.role with
    | base =>
      obtain rfl := eq_of_isBase hbase hsource hrole hget
      rw [eq_of_key hnodupBase hother htrial hkey]
    | correction =>
      obtain ⟨found, hfound, hdigest⟩ := hcorrection hrole
      rw [← hkey, get?_byKey hnodupBase hother] at hfound
      rw [← hdigest, Option.some.inj hfound]

/-! ### The composed rows -/

theorem mem_trialExecutions {execution : ExecutionRow} : execution ∈ trialExecutions trial tables ↔
      execution ∈ tables.executions ∧ execution.trialId = trial.trialId := by
  simp [trialExecutions]

theorem mem_selectedMetrics {metric : MetricRow} :
    metric ∈ selectedMetrics trial tables ↔ metric ∈ tables.metrics ∧ MetricOf trial tables metric := by
  rw [selectedMetrics, List.mem_filter, decide_eq_true_eq]
  simp only [MetricOf, List.mem_map, mem_trialExecutions, and_assoc, @eq_comm _ metric.ownerId]

theorem requireUniqueComposedRows_eq_ok {trials : List TrialRow} {executions : List ExecutionRow}
    {metrics : List MetricRow} (h : requireUniqueComposedRows trials executions metrics = .ok ⟨⟩) :
    (trials.map TrialRow.trialId).Nodup ∧ (executions.map ExecutionRow.executionId).Nodup ∧
      (metrics.map MetricRow.metricId).Nodup := by
  unfold requireUniqueComposedRows at h
  split_ifs at h with hmetrics hexecutions htrials
  · exact ⟨htrials, hexecutions, hmetrics⟩
  all_goals cases h

section

variable [ResultDigests] {trace : TraceValues} {controlCommit : String}

/-- What a composition is made of. -/
structure Composes (manifest : ResultCompositionManifest) (sources : Dict String ResultTables)
    (base : ResultTables) (selected : List (TrialRow × ResultTables)) (result : ResultTables) :
    Prop where
  selects : Selects manifest sources base selected
  nodup_trials : ((composedTrials manifest selected result.run.trace).map TrialRow.trialId).Nodup
  nodup_executions :
    ((composedExecutions selected result.run.trace).map ExecutionRow.executionId).Nodup
  nodup_metrics : ((composedMetrics manifest selected result.run.trace).map MetricRow.metricId).Nodup
  run : result.run = buildComposedRun manifest base.run result.run.trace
    (composedTrials manifest selected result.run.trace)
    (composedExecutions selected result.run.trace)
  trials : result.trials = (composedTrials manifest selected result.run.trace).insertionSort
    fun first second ↦ first.trialId ≤ second.trialId
  executions : result.executions = (composedExecutions selected result.run.trace).insertionSort
    fun first second ↦ first.executionId ≤ second.executionId
  metrics : result.metrics = (composedMetrics manifest selected result.run.trace).insertionSort
    fun first second ↦ first.metricId ≤ second.metricId

theorem composes_of_composeResultTables
    (h : composeResultTables manifest sources controlCommit = .ok result) :
    ∃ base selected, IsBase manifest sources base ∧
      Composes manifest sources base selected result := by
  unfold composeResultTables at h
  split_ifs at h with hcommit
  · cases h
  obtain ⟨⟨⟩, -, h⟩ := bind_eq_ok.mp h
  cases hfind : manifest.sources.find? fun source ↦ source.role = .base with
  | none =>
    simp only [hfind] at h
    cases h
  | some reference =>
    simp only [hfind] at h
    cases hget : sources.get? reference.publicationId with
    | none =>
      simp only [hget] at h
      cases h
    | some base =>
      simp only [hget] at h
      obtain ⟨⟨⟩, -, h⟩ := bind_eq_ok.mp h
      obtain ⟨selected, hselected, h⟩ := bind_eq_ok.mp h
      obtain ⟨⟨⟩, hunique, h⟩ := bind_eq_ok.mp h
      obtain ⟨⟨⟩, -, h⟩ := bind_eq_ok.mp h
      cases h
      obtain ⟨htrials, hexecutions, hmetrics⟩ := requireUniqueComposedRows_eq_ok hunique
      have hbase : IsBase manifest sources base :=
        ⟨reference, List.mem_of_find?_eq_some hfind, by simpa using List.find?_some hfind, hget⟩
      exact ⟨base, selected, hbase, selects_of_selectCompositionRows hbase hselected, htrials,
        hexecutions, hmetrics, rfl, rfl, rfl, rfl⟩

/-- The metrics that a trial owns. -/
def trialMetrics (trialId : String) (metrics : List MetricRow) : List MetricRow :=
  metrics.filter fun metric ↦ metric.ownerType = .trial ∧ metric.ownerId = trialId

namespace Composes

variable {row : TrialRow × ResultTables} {task : UnsupportedTask}

theorem mem_trials (h : Composes manifest sources base selected result) (trial : TrialRow) :
    trial ∈ result.trials ↔ (∃ row ∈ selected, trial = row.1.retraced result.run.trace) ∨
      ∃ task ∈ manifest.unsupportedTasks,
        trial = unsupportedTrial manifest.runId result.run.trace task := by
  rw [h.trials, List.mem_insertionSort, composedTrials, List.mem_append, List.mem_map, List.mem_map]
  simp only [@eq_comm _ trial]

theorem mem_executions (h : Composes manifest sources base selected result) (row : ExecutionRow) :
    row ∈ result.executions ↔ ∃ pair ∈ selected, ∃ execution ∈ pair.2.executions,
      execution.trialId = pair.1.trialId ∧ row = execution.retraced result.run.trace := by
  rw [h.executions, List.mem_insertionSort, composedExecutions, List.mem_flatMap]
  simp only [List.mem_map, mem_trialExecutions, and_assoc, @eq_comm _ row]

theorem mem_metrics (h : Composes manifest sources base selected result) (row : MetricRow) :
    row ∈ result.metrics ↔ (∃ pair ∈ selected, ∃ metric ∈ pair.2.metrics,
      MetricOf pair.1 pair.2 metric ∧ row = metric.retraced result.run.trace) ∨
      ∃ task ∈ manifest.unsupportedTasks,
        row = unsupportedReward manifest.runId result.run.trace task := by
  rw [h.metrics, List.mem_insertionSort, composedMetrics, List.mem_append, List.mem_flatMap,
    List.mem_map]
  simp only [List.mem_map, mem_selectedMetrics, and_assoc, @eq_comm _ row]

theorem nodup_selected (h : Composes manifest sources base selected result) :
    (selected.map fun row ↦ row.1.trialId).Nodup ∧
      (manifest.unsupportedTasks.map (unsupportedTrialId manifest.runId)).Nodup ∧
      ∀ row ∈ selected, ∀ task ∈ manifest.unsupportedTasks,
        row.1.trialId ≠ unsupportedTrialId manifest.runId task := by
  have hnodup := h.nodup_trials
  rw [composedTrials, List.map_append, List.map_map, List.map_map, List.nodup_append] at hnodup
  obtain ⟨hselected, hunsupported, hdisjoint⟩ := hnodup
  exact ⟨hselected, hunsupported, fun row hrow task htask ↦
    hdisjoint _ (List.mem_map_of_mem hrow) _ (List.mem_map_of_mem htask)⟩

/-- The metrics that a selected trial owns are those it owns in its source. -/
theorem trialMetrics_of_mem (h : Composes manifest sources base selected result)
    (hrow : row ∈ selected) : trialMetrics row.1.trialId (composedMetrics manifest selected trace) =
      (trialMetrics row.1.trialId row.2.metrics).map (·.retraced trace) := by
  obtain ⟨hselected, -, hdisjoint⟩ := h.nodup_selected
  have hrows (pair : TrialRow × ResultTables) :
      trialMetrics row.1.trialId ((selectedMetrics pair.1 pair.2).map (·.retraced trace)) =
        (trialMetrics row.1.trialId (selectedMetrics pair.1 pair.2)).map (·.retraced trace) :=
    List.filter_map
  have hunsupported : trialMetrics row.1.trialId
      (manifest.unsupportedTasks.map (unsupportedReward manifest.runId trace)) = [] := by
    refine List.filter_eq_nil_iff.mpr fun metric hmetric ↦ ?_
    obtain ⟨task, htask, rfl⟩ := List.mem_map.mp hmetric
    simpa [unsupportedReward] using (hdisjoint row hrow task htask).symm
  have hothers : ∀ pair ∈ selected, pair.1.trialId ≠ row.1.trialId →
      (trialMetrics row.1.trialId (selectedMetrics pair.1 pair.2)).map (·.retraced trace) = [] := by
    intro pair hpair hne
    refine List.map_eq_nil_iff.mpr (List.filter_eq_nil_iff.mpr fun metric hmetric ↦ ?_)
    obtain ⟨-, ⟨-, howner⟩ | ⟨htype, -⟩⟩ := mem_selectedMetrics.mp hmetric
    · simp [howner, hne]
    · simp [htype]
  have hown : trialMetrics row.1.trialId (selectedMetrics row.1 row.2) =
      trialMetrics row.1.trialId row.2.metrics := by
    rw [trialMetrics, selectedMetrics, List.filter_filter]
    refine List.filter_congr fun metric _ ↦ ?_
    by_cases howner : metric.ownerType = .trial ∧ metric.ownerId = row.1.trialId
    · simp [howner]
    · simp [howner]
  have hcollect := Dict.flatMap_of_nodup (υ := MetricRow) hselected hrow hothers
  rw [composedMetrics, trialMetrics, List.filter_append, List.filter_flatMap]
  simp only [← trialMetrics.eq_def]
  rw [hunsupported, List.append_nil]
  simp only [hrows]
  rw [hcollect, hown]

/-- An unsupported task owns its reward only. -/
theorem trialMetrics_unsupported (h : Composes manifest sources base selected result)
    (htask : task ∈ manifest.unsupportedTasks) :
    trialMetrics (unsupportedTrialId manifest.runId task) (composedMetrics manifest selected trace) =
      [unsupportedReward manifest.runId trace task] := by
  obtain ⟨-, hunsupported, hdisjoint⟩ := h.nodup_selected
  have hselected : trialMetrics (unsupportedTrialId manifest.runId task)
      (selected.flatMap fun row ↦ (selectedMetrics row.1 row.2).map (·.retraced trace)) = [] := by
    refine List.filter_eq_nil_iff.mpr fun metric hmetric ↦ ?_
    obtain ⟨row, hrow, hmetric⟩ := List.mem_flatMap.mp hmetric
    obtain ⟨source, hsource, rfl⟩ := List.mem_map.mp hmetric
    obtain ⟨-, ⟨-, howner⟩ | ⟨htype, -⟩⟩ := mem_selectedMetrics.mp hsource
    · simp [MetricRow.retraced, howner, hdisjoint row hrow task htask]
    · simp [MetricRow.retraced, htype]
  have hrewards : trialMetrics (unsupportedTrialId manifest.runId task)
      (manifest.unsupportedTasks.map (unsupportedReward manifest.runId trace)) =
        (manifest.unsupportedTasks.filter fun other ↦
          unsupportedTrialId manifest.runId other = unsupportedTrialId manifest.runId task).map
          (unsupportedReward manifest.runId trace) := by
    rw [trialMetrics, List.filter_map]
    congr 1
    refine List.filter_congr fun other _ ↦ decide_eq_decide.mpr ?_
    simp [unsupportedReward]
  rw [composedMetrics, trialMetrics, List.filter_append]
  simp only [← trialMetrics.eq_def]
  rw [hselected, hrewards, Dict.filter_name_of_nodup hunsupported htask]
  rfl

theorem trialMetrics_metrics (h : Composes manifest sources base selected result) (trialId : String) :
    trialMetrics trialId result.metrics =
      (trialMetrics trialId (composedMetrics manifest selected result.run.trace)).insertionSort
        fun first second ↦ first.metricId ≤ second.metricId := by
  rw [h.metrics]
  exact filter_insertionSort _

theorem perm_keys (h : Composes manifest sources base selected result) :
    (result.trials.map TrialRow.key).Perm
      (selectedKeys manifest.sources ++ manifest.unsupportedTasks.map UnsupportedTask.key) := by
  have hkeys : (composedTrials manifest selected result.run.trace).map TrialRow.key =
      selectedKeys manifest.sources ++ manifest.unsupportedTasks.map UnsupportedTask.key := by
    rw [composedTrials, List.map_append, List.map_map, List.map_map, ← h.selects.keys]
    rfl
  rw [h.trials, ← hkeys]
  exact (List.perm_insertionSort _ _).map _

theorem nodup_keys (h : Composes manifest sources base selected result) :
    (result.trials.map TrialRow.key).Nodup := by
  refine h.perm_keys.nodup_iff.mpr (List.nodup_append.mpr
    ⟨manifest.nodup_selected, manifest.nodup_unsupported, ?_⟩)
  rintro key hkey _ hother rfl
  exact manifest.disjoint key hkey hother

theorem mem_keys (h : Composes manifest sources base selected result) (key : TrialKey) :
    key ∈ result.trials.map TrialRow.key ↔
      key ∈ base.trials.map TrialRow.key ∨ key ∈ manifest.unsupportedTasks.map UnsupportedTask.key := by
  rw [h.perm_keys.mem_iff, List.mem_append, h.selects.covers]

theorem digests (h : Composes manifest sources base selected result) (htrial : trial ∈ result.trials)
    {other : TrialRow} (hother : other ∈ base.trials) (hkey : other.key = trial.key) :
    other.taskDigest = trial.taskDigest := by
  obtain ⟨row, hrow, rfl⟩ | ⟨task, htask, rfl⟩ := (h.mem_trials trial).mp htrial
  · exact h.selects.digests row hrow other hother hkey
  · have hselected := (h.selects.covers _).mp (List.mem_map_of_mem hother)
    rw [hkey] at hselected
    exact absurd (List.mem_map_of_mem htask) (manifest.disjoint _ hselected)

theorem outcomeCount_eq (h : Composes manifest sources base selected result) (outcome : TaskOutcome) :
    outcomeCount outcome (composedTrials manifest selected result.run.trace) =
      outcomeCount outcome result.trials := by
  rw [h.trials]
  exact ((List.perm_insertionSort _ _).countP_eq _).symm

theorem length_trials (h : Composes manifest sources base selected result) :
    (composedTrials manifest selected result.run.trace).length = result.trials.length := by
  rw [h.trials, List.length_insertionSort]

theorem refers_iff (h : Composes manifest sources base selected result) (hrow : row ∈ selected) :
    Refers (row.1.retraced result.run.trace) result.executions ↔ Refers row.1 row.2.executions := by
  refine forall_congr' fun id ↦ imp_congr_right fun _ ↦ ⟨?_, ?_⟩
  · rintro ⟨composed, hcomposed, hid, htrial⟩
    obtain ⟨pair, hpair, execution, hexecution, howner, rfl⟩ := (h.mem_executions composed).mp hcomposed
    have hsame : pair = row :=
      List.inj_on_of_nodup_map h.nodup_selected.1 hpair hrow (howner.symm.trans htrial)
    exact ⟨execution, hsame ▸ hexecution, hid, htrial⟩
  · rintro ⟨execution, hexecution, hid, htrial⟩
    exact ⟨execution.retraced result.run.trace, (h.mem_executions _).mpr
      ⟨row, hrow, execution, hexecution, htrial, rfl⟩, hid, htrial⟩

end Composes

theorem refers_of_exactSelection
    (h : composeResultTables manifest sources controlCommit = .ok result)
    (hexact : ExactSelection manifest sources base result)
    (hchosen : Chosen manifest sources trial tables) : Refers trial tables.executions := by
  obtain ⟨found, selected, -, hcomposes⟩ := composes_of_composeResultTables h
  have hrow : (trial, tables) ∈ selected := (hcomposes.selects.mem_iff _).mpr hchosen
  exact (hcomposes.refers_iff hrow).mp
    (hexact.refers _ ((hcomposes.mem_trials _).mpr (.inl ⟨_, hrow, rfl⟩)))

/-- A composition is an exact selection exactly when every trial its manifest chooses refers to an
execution of its own in its source. -/
theorem exactSelection_iff (h : composeResultTables manifest sources controlCommit = .ok result)
    (hbase : IsBase manifest sources base) : ExactSelection manifest sources base result ↔
      ∀ trial tables, Chosen manifest sources trial tables → Refers trial tables.executions := by
  obtain ⟨found, selected, hfound, hcomposes⟩ := composes_of_composeResultTables h
  obtain ⟨reference, hreference, hrole, hget⟩ := hbase
  obtain rfl := eq_of_isBase hfound hreference hrole hget
  have hchosen (p : TrialRow → ResultTables → Prop) :
      (∃ row ∈ selected, p row.1 row.2) ↔
        ∃ trial tables, Chosen manifest sources trial tables ∧ p trial tables := by
    simp only [Prod.exists, hcomposes.selects.mem_iff]
  constructor
  · intro hexact trial tables htrial
    exact refers_of_exactSelection h hexact htrial
  · intro hrefers
    have hrun := hcomposes.run
    refine ⟨hcomposes.nodup_keys, hcomposes.mem_keys, fun trial htrial other ↦
      hcomposes.digests htrial, fun row ↦ ?_, ?_, fun row ↦ ?_, ?_, fun row ↦ ?_, fun task htask ↦ ?_,
      fun trial htrial ↦ ?_, ?_, ?_, ?_, ?_, ?_, ?_⟩
    · rw [hcomposes.mem_trials, hchosen fun trial _ ↦ row = trial.retraced result.run.trace]
    · rw [hcomposes.executions]
      exact ((List.perm_insertionSort _ _).map _).nodup_iff.mpr hcomposes.nodup_executions
    · rw [hcomposes.mem_executions, hchosen fun trial tables ↦ ∃ execution ∈ tables.executions,
        execution.trialId = trial.trialId ∧ row = execution.retraced result.run.trace]
    · rw [hcomposes.metrics]
      exact ((List.perm_insertionSort _ _).map _).nodup_iff.mpr hcomposes.nodup_metrics
    · rw [hcomposes.mem_metrics, hchosen fun trial tables ↦ ∃ metric ∈ tables.metrics,
        MetricOf trial tables metric ∧ row = metric.retraced result.run.trace]
    · have hreward := hcomposes.trialMetrics_metrics (unsupportedTrialId manifest.runId task)
      rw [hcomposes.trialMetrics_unsupported htask] at hreward
      exact hreward
    · obtain ⟨row, hrow, rfl⟩ | ⟨task, -, rfl⟩ := (hcomposes.mem_trials trial).mp htrial
      · exact (hcomposes.refers_iff hrow).mpr
          (hrefers _ _ ((hcomposes.selects.mem_iff _).mp hrow))
      · exact fun id hid ↦ nomatch hid
    · rw [hrun]
      exact hcomposes.length_trials
    all_goals
      rw [hrun]
      exact hcomposes.outcomeCount_eq _

end

/-! ### A base with one trial -/

def singleTrace : TraceValues :=
  { publicationId := "publication-1", runId := "run-1", sourceBucket := "evaluations",
    sourcePrefix := "runs/run-1", sourceChecksum := "sha256:1", runLockPath := "run.lock.json",
    runLockSha256 := "sha256:2", controlCommit := "0123456789012345678901234567890123456789" }

/-- A publication with one trial, which refers to the execution. -/
def singleTables (executionId : String) (metrics : List MetricRow) : ResultTables :=
  let trace := singleTrace
  let profile : RunProfile :=
    { benchmarkRevision := "1", modelRepo := "org/model", modelRevision := "2", provider := "hf",
      region := "us", hardware := "a100", acceleratorCount := 1, agentName := "agent",
      agentRevision := "3" }
  { publicationId := "publication-1"
    run :=
      { trace, evaluationId := "evaluation-1", publicationRole := .component,
        componentKind := some .base, sourcePublicationIds := [], resultKind := .ordinary,
        quality := .clean, profile, plannedTrialCount := 1, scoredTrialCount := 1,
        agentFailedCount := 0, benchmarkFailedCount := 0, infrastructureExhaustedCount := 0,
        unsupportedCount := 0, executionCount := 1 }
    trials :=
      [{ trace, trialId := "trial-1", taskName := "task", taskDigest := "sha256:3",
         logicalAttempt := 1, selectedExecutionId := some executionId, outcome := .scored }]
    executions :=
      [{ trace, executionId := "execution-1", trialId := "trial-1", runtimeKind := .provider,
         status := .succeeded, rest := "" }]
    metrics
    executionProfileSha256 := "sha256:4" }

/-- A manifest that selects the one trial. -/
def singleManifest : ResultCompositionManifest where
  runId := "run-2"
  evidenceBucket := "evaluations"
  evidencePrefix := "runs/run-2"
  sources :=
    [{ role := .base, publicationId := "publication-1", runId := "run-1",
       sourceChecksum := "sha256:1", selectedTrials := [("task", 1)] }]
  unsupportedTasks := []
  one_base := by decide
  nodup_selected := by decide
  nodup_unsupported := by decide
  disjoint := by decide

/-- Digests that spell out what they are made of. -/
local instance spelledDigests : ResultDigests where
  manifestDigest manifest := "sha256:" ++ manifest.runId
  publicationId profile trace := "publication-" ++ trace.runId ++ profile
  compositionEntityId parts := "trial-" ++ ":".intercalate parts
  metricId runId _ owner name _ unit := "metric-" ++ ":".intercalate [runId, owner, name, unit]

theorem isBase_single (tables : ResultTables) :
    IsBase singleManifest [("publication-1", tables)] tables :=
  ⟨_, List.mem_singleton_self _, rfl, by simp [Dict.get?]⟩

theorem chosen_single {tables : ResultTables} (htrial : trial ∈ tables.trials)
    (hkey : trial.key = ("task", 1)) :
    Chosen singleManifest [("publication-1", tables)] trial tables :=
  ⟨_, List.mem_singleton_self _, by simp [Dict.get?], htrial, by simp [hkey]⟩

theorem exists_composeResultTables_single : ∀ id ∈ ["execution-1", "execution-2"], ∃ result,
      composeResultTables singleManifest [("publication-1", singleTables id [])]
        "0123456789012345678901234567890123456789" = .ok result := by
  have hok : ∀ id ∈ ["execution-1", "execution-2"],
      (composeResultTables singleManifest [("publication-1", singleTables id [])]
        "0123456789012345678901234567890123456789").toOption.isSome = true := by
    decide +kernel
  intro id hid
  have hsome := hok id hid
  cases hcompose : composeResultTables singleManifest [("publication-1", singleTables id [])]
      "0123456789012345678901234567890123456789" with
  | error error =>
    rw [hcompose] at hsome
    cases hsome
  | ok result => exact ⟨result, rfl⟩

/-- The trial of a composition refers to an execution that its source does not have. -/
theorem not_exactSelection_missing_execution :
    ∃ result, composeResultTables singleManifest [("publication-1", singleTables "execution-2" [])]
        "0123456789012345678901234567890123456789" = .ok result ∧
      ¬ ExactSelection singleManifest [("publication-1", singleTables "execution-2" [])]
        (singleTables "execution-2" []) result := by
  obtain ⟨result, hresult⟩ := exists_composeResultTables_single "execution-2" (by simp)
  refine ⟨result, hresult, fun hexact ↦ ?_⟩
  have hchosen : Chosen singleManifest [("publication-1", singleTables "execution-2" [])] _
      (singleTables "execution-2" []) := chosen_single List.mem_cons_self rfl
  obtain ⟨execution, hexecution, hid, -⟩ := refers_of_exactSelection hresult hexact hchosen _ rfl
  obtain rfl := List.mem_singleton.mp hexecution
  simp at hid

theorem exactSelection_iff_single :
    ∃ result, composeResultTables singleManifest [("publication-1", singleTables "execution-1" [])]
        "0123456789012345678901234567890123456789" = .ok result ∧
      ExactSelection singleManifest [("publication-1", singleTables "execution-1" [])]
        (singleTables "execution-1" []) result := by
  obtain ⟨result, hresult⟩ := exists_composeResultTables_single "execution-1" (by simp)
  refine ⟨result, hresult, (exactSelection_iff hresult (isBase_single _)).mpr ?_⟩
  rintro trial tables ⟨source, hsource, hget, htrial, -⟩ id hid
  obtain rfl := List.mem_singleton.mp hsource
  obtain rfl : singleTables "execution-1" [] = tables := by simpa [Dict.get?] using hget
  obtain rfl := List.mem_singleton.mp htrial
  exact ⟨_, List.mem_singleton_self _, by simpa using hid, rfl⟩

end HarborHF.Results
