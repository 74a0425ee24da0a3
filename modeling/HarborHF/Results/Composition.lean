import Mathlib.Data.List.Dedup
import Mathlib.Data.List.Sort
import Mathlib.Data.Rat.Defs
import Mathlib.Data.String.Basic
import HarborHF.Relational.Ranking

/-!
# Composed results

`composeResultTables` makes one final publication from a base publication and its corrections: a
manifest selects a trial for each task, and the trial's row, executions and metrics are copied with the
identity of the new publication. Tasks that no publication resolves are listed as unsupported and get a
reward of zero.

Result tables check the identity of their rows only, so what a trial row says about its execution is
whatever its source says.
-/

set_option autoImplicit false

namespace HarborHF.Results

open Relational

/-! ### Tables -/

inductive TaskOutcome
  | scored | agentFailed | benchmarkFailed | infrastructureExhausted | unsupported
  deriving DecidableEq

inductive OwnerType
  | run | trial | execution
  deriving DecidableEq

inductive RuntimeKind
  | endpoint | provider
  deriving DecidableEq

inductive ExecutionStatus
  | succeeded | failed | cancelled
  deriving DecidableEq

inductive ResultKind
  | ordinary | composed
  deriving DecidableEq

inductive PublicationRole
  | component | final
  deriving DecidableEq

inductive SourceRole
  | base | correction
  deriving DecidableEq

inductive RunQuality
  | clean | degraded
  deriving DecidableEq

/-- The fields that tie a row to its publication. -/
structure TraceValues where
  publicationId : String
  runId : String
  sourceBucket : String
  sourcePrefix : String
  sourceChecksum : String
  runLockPath : String
  runLockSha256 : String
  controlCommit : String
  deriving DecidableEq

/-- What the runs of one composition have in common. -/
structure RunProfile where
  benchmarkRevision : String
  modelRepo : String
  modelRevision : String
  provider : String
  region : String
  hardware : String
  acceleratorCount : ℕ
  agentName : String
  agentRevision : String
  deriving DecidableEq

structure RunRow where
  trace : TraceValues
  evaluationId : String
  publicationRole : PublicationRole
  componentKind : Option SourceRole
  sourcePublicationIds : List String
  resultKind : ResultKind
  quality : RunQuality
  profile : RunProfile
  plannedTrialCount : ℕ
  scoredTrialCount : ℕ
  agentFailedCount : ℕ
  benchmarkFailedCount : ℕ
  infrastructureExhaustedCount : ℕ
  unsupportedCount : ℕ
  executionCount : ℕ
  deriving DecidableEq

structure TrialRow where
  trace : TraceValues
  trialId : String
  taskName : String
  taskDigest : String
  logicalAttempt : ℕ
  selectedExecutionId : Option String
  outcome : TaskOutcome
  deriving DecidableEq

/-- An execution, with the fields that are only copied in `rest`. -/
structure ExecutionRow where
  trace : TraceValues
  executionId : String
  trialId : String
  runtimeKind : RuntimeKind
  status : ExecutionStatus
  rest : String
  deriving DecidableEq

structure MetricRow where
  trace : TraceValues
  metricId : String
  ownerType : OwnerType
  ownerId : String
  name : String
  value : ℚ
  unit : String
  aggregation : Option String
  deriving DecidableEq

/-- The tables of one publication, with its one run row. -/
structure ResultTables where
  publicationId : String
  run : RunRow
  trials : List TrialRow
  executions : List ExecutionRow
  metrics : List MetricRow
  executionProfileSha256 : String
  deriving DecidableEq

/-- What names a trial within a publication. -/
abbrev TrialKey := String × ℕ

def TrialRow.key (trial : TrialRow) : TrialKey := (trial.taskName, trial.logicalAttempt)

/-! ### Manifests -/

structure SourcePublicationReference where
  role : SourceRole
  publicationId : String
  runId : String
  sourceChecksum : String
  selectedTrials : List TrialKey
  deriving DecidableEq

structure UnsupportedTask where
  taskName : String
  taskDigest : String
  logicalAttempt : ℕ
  deriving DecidableEq

def UnsupportedTask.key (task : UnsupportedTask) : TrialKey := (task.taskName, task.logicalAttempt)

/-- The trials that sources select. -/
def selectedKeys (sources : List SourcePublicationReference) : List TrialKey :=
  sources.flatMap SourcePublicationReference.selectedTrials

/-- A manifest with one base, which selects no task twice. -/
structure ResultCompositionManifest where
  runId : String
  evidenceBucket : String
  evidencePrefix : String
  sources : List SourcePublicationReference
  unsupportedTasks : List UnsupportedTask
  one_base : (sources.filter fun source ↦ source.role = .base).length = 1
  nodup_selected : (selectedKeys sources).Nodup
  nodup_unsupported : (unsupportedTasks.map UnsupportedTask.key).Nodup
  disjoint : ∀ key ∈ selectedKeys sources, key ∉ unsupportedTasks.map UnsupportedTask.key

/-- The digests that identities are made from. -/
class ResultDigests where
  manifestDigest : ResultCompositionManifest → String
  publicationId : String → TraceValues → String
  compositionEntityId : List String → String
  /-- The identity of a metric by its run, owner type, owner, name, value and unit. -/
  metricId : String → OwnerType → String → String → ℚ → String → String

inductive CompositionError
  | value (message : String)
  | publication (message : String)
  | index (message : String)
  deriving DecidableEq

/-! ### The checks of the sources -/

section

variable [ResultDigests] (manifest : ResultCompositionManifest) (sources : Dict String ResultTables)

/-- `_is_commit`. -/
def isCommit (value : String) : Bool :=
  (value.length == 40 || value.length == 64) &&
    value.toList.all fun letter ↦ "0123456789abcdef".toList.contains letter

/-- `_validate_composition_sources`. -/
def validateCompositionSources : Except CompositionError Unit := do
  if ¬((∀ key ∈ sources.keys, key ∈ manifest.sources.map SourcePublicationReference.publicationId) ∧
      ∀ source ∈ manifest.sources, source.publicationId ∈ sources.keys) then
    .error (.publication "composition sources do not match its manifest")
  if ∃ source ∈ manifest.sources, ∃ tables ∈ sources.get? source.publicationId,
      tables.publicationId ≠ source.publicationId ∨ tables.run.trace.runId ≠ source.runId ∨
        tables.run.trace.sourceChecksum ≠ source.sourceChecksum then
    .error (.publication "composition source identity conflicts")

/-- `_validate_composition_compatibility`. -/
def validateCompositionCompatibility (base : RunRow) : Except CompositionError Unit := do
  if (sources.values.map ResultTables.executionProfileSha256).dedup.length ≠ 1 then
    .error (.publication "composition sources are incompatible")
  if ∃ source ∈ manifest.sources, ∃ tables ∈ sources.get? source.publicationId,
      tables.run.resultKind ≠ .ordinary ∨ tables.run.evaluationId ≠ base.evaluationId ∨
        tables.run.publicationRole ≠ .component ∨ tables.run.componentKind ≠ some source.role ∨
        tables.run.profile ≠ base.profile then
    .error (.publication "composition sources are incompatible")
  let kinds :=
    (sources.values.flatMap fun tables ↦ tables.executions.map ExecutionRow.runtimeKind).dedup
  if kinds = [] then .error (.publication "composition sources contain no executions")
  if kinds.length ≠ 1 then .error (.publication "composition sources use mixed runtime kinds")

/-! ### The selection -/

/-- The trials of a table by their keys. -/
def byKey (trials : List TrialRow) : Dict TrialKey TrialRow := byName TrialRow.key trials

/-- `_validate_correction_trial`. -/
def validateCorrectionTrial (source : SourcePublicationReference) (trial : TrialRow)
    (baseTrials : Dict TrialKey TrialRow) : Except CompositionError Unit :=
  if source.role ≠ .correction then .ok ()
  else
    match baseTrials.get? trial.key with
    | none => .error (.publication "correction task conflicts with the base publication")
    | some baseTrial =>
      if baseTrial.taskDigest ≠ trial.taskDigest then
        .error (.publication "correction task conflicts with the base publication")
      else .ok ()

/-- The trial a source selects under a key. -/
def selectTrial (source : SourcePublicationReference) (tables : ResultTables)
    (baseTrials : Dict TrialKey TrialRow) (selection : TrialKey) :
    Except CompositionError (TrialRow × ResultTables) :=
  match (byKey tables.trials).get? selection with
  | none => .error (.publication "composition selects an unknown source task")
  | some trial => do
    validateCorrectionTrial source trial baseTrials
    return (trial, tables)

/-- The trials that a source selects. -/
def selectSource (baseTrials : Dict TrialKey TrialRow) (source : SourcePublicationReference) :
    Except CompositionError (List (TrialRow × ResultTables)) :=
  match sources.get? source.publicationId with
  | none => .error (.index source.publicationId)
  | some tables => do
    if (byKey tables.trials).length ≠ tables.trials.length then
      .error (.publication "composition source has duplicate trials")
    source.selectedTrials.mapM (selectTrial source tables baseTrials)

local instance : LawfulBEq TrialKey := inferInstance

/-- `_select_composition_rows`. -/
def selectCompositionRows (base : ResultTables) :
    Except CompositionError (List (TrialRow × ResultTables)) := do
  let selected ← manifest.sources.mapM (selectSource sources (byKey base.trials))
  let keys := selected.flatten.map fun row ↦ row.1.key
  if ¬((∀ key ∈ (byKey base.trials).keys, key ∈ keys) ∧
      ∀ key ∈ keys, key ∈ (byKey base.trials).keys) then
    .error (.publication "composition does not resolve every task in the base publication")
  return selected.flatten

/-! ### The rows -/

/-- `_composition_trace`. -/
def compositionTrace (controlCommit : String) (executionProfileSha256 : String) : TraceValues :=
  let digest := ResultDigests.manifestDigest manifest
  let trace : TraceValues :=
    { publicationId := "", runId := manifest.runId, sourceBucket := manifest.evidenceBucket,
      sourcePrefix := manifest.evidencePrefix, sourceChecksum := digest,
      runLockPath := "composition.json", runLockSha256 := digest, controlCommit }
  { trace with publicationId := ResultDigests.publicationId executionProfileSha256 trace }

def TrialRow.retraced (trial : TrialRow) (trace : TraceValues) : TrialRow := { trial with trace }

def ExecutionRow.retraced (execution : ExecutionRow) (trace : TraceValues) : ExecutionRow :=
  { execution with trace }

def MetricRow.retraced (metric : MetricRow) (trace : TraceValues) : MetricRow := { metric with trace }

/-- The executions of a trial in its source. -/
def trialExecutions (trial : TrialRow) (tables : ResultTables) : List ExecutionRow :=
  tables.executions.filter fun execution ↦ execution.trialId = trial.trialId

/-- The metrics of a trial and of its executions in their source. -/
def selectedMetrics (trial : TrialRow) (tables : ResultTables) : List MetricRow :=
  let executionIds := (trialExecutions trial tables).map ExecutionRow.executionId
  tables.metrics.filter fun metric ↦
    metric.ownerType = .trial ∧ metric.ownerId = trial.trialId ∨
      metric.ownerType = .execution ∧ metric.ownerId ∈ executionIds

def unsupportedTrialId (runId : String) (task : UnsupportedTask) : String :=
  ResultDigests.compositionEntityId
    ["trial", runId, task.taskName, toString task.logicalAttempt, "unsupported"]

/-- The trial row of `_unsupported_rows`. -/
def unsupportedTrial (runId : String) (trace : TraceValues) (task : UnsupportedTask) : TrialRow :=
  { trace, trialId := unsupportedTrialId runId task, taskName := task.taskName,
    taskDigest := task.taskDigest, logicalAttempt := task.logicalAttempt, selectedExecutionId := none,
    outcome := .unsupported }

/-- The metric row of `_unsupported_rows`: a reward of zero. -/
def unsupportedReward (runId : String) (trace : TraceValues) (task : UnsupportedTask) : MetricRow :=
  let owner := unsupportedTrialId runId task
  { trace, metricId := ResultDigests.metricId runId .trial owner "reward" 0 "score",
    ownerType := .trial, ownerId := owner, name := "reward", value := 0, unit := "score",
    aggregation := none }

/-- The rows of `_compose_child_rows`. -/
def composedTrials (selected : List (TrialRow × ResultTables)) (trace : TraceValues) : List TrialRow :=
  selected.map (fun row ↦ row.1.retraced trace) ++
    manifest.unsupportedTasks.map (unsupportedTrial manifest.runId trace)

def composedExecutions (selected : List (TrialRow × ResultTables)) (trace : TraceValues) :
    List ExecutionRow :=
  selected.flatMap fun row ↦ (trialExecutions row.1 row.2).map (·.retraced trace)

def composedMetrics (selected : List (TrialRow × ResultTables)) (trace : TraceValues) :
    List MetricRow :=
  (selected.flatMap fun row ↦ (selectedMetrics row.1 row.2).map (·.retraced trace)) ++
    manifest.unsupportedTasks.map (unsupportedReward manifest.runId trace)

/-- `_require_unique_composed_rows`. -/
def requireUniqueComposedRows (trials : List TrialRow) (executions : List ExecutionRow)
    (metrics : List MetricRow) : Except CompositionError Unit := do
  if ¬(trials.map TrialRow.trialId).Nodup then
    .error (.publication "composition has duplicate trial identities")
  if ¬(executions.map ExecutionRow.executionId).Nodup then
    .error (.publication "composition has duplicate execution identities")
  if ¬(metrics.map MetricRow.metricId).Nodup then
    .error (.publication "composition has duplicate metric identities")

def outcomeCount (outcome : TaskOutcome) (trials : List TrialRow) : ℕ :=
  trials.countP fun trial ↦ trial.outcome = outcome

/-- `_build_composed_run`. -/
def buildComposedRun (base : RunRow) (trace : TraceValues) (trials : List TrialRow)
    (executions : List ExecutionRow) : RunRow :=
  { trace, evaluationId := base.evaluationId, publicationRole := .final, componentKind := none,
    sourcePublicationIds :=
      (manifest.sources.map SourcePublicationReference.publicationId).insertionSort (· ≤ ·),
    resultKind := .composed,
    quality := if outcomeCount .scored trials < trials.length then .degraded else .clean,
    profile := base.profile, plannedTrialCount := trials.length,
    scoredTrialCount := outcomeCount .scored trials,
    agentFailedCount := outcomeCount .agentFailed trials,
    benchmarkFailedCount := outcomeCount .benchmarkFailed trials,
    infrastructureExhaustedCount := outcomeCount .infrastructureExhausted trials,
    unsupportedCount := outcomeCount .unsupported trials, executionCount := executions.length }

/-- The checks of the envelope that `_build_composition_envelope` makes. -/
def validateEnvelope (executions : List ExecutionRow) : Except CompositionError Unit := do
  if executions = [] then .error (.index "list index out of range")
  if ∀ execution ∈ executions, execution.status ≠ .succeeded then
    .error (.value "publication envelope has no successful execution")
  if ¬(manifest.sources.map SourcePublicationReference.publicationId).Nodup then
    .error (.value "publication envelope has duplicate source publications")

/-- `compose_result_tables`, the tables of it. -/
def composeResultTables (controlCommit : String) : Except CompositionError ResultTables := do
  if isCommit controlCommit = false then
    .error (.value "control commit must be a 40- or 64-character hex digest")
  validateCompositionSources manifest sources
  match manifest.sources.find? fun source ↦ source.role = .base with
  | none => .error (.index "StopIteration")
  | some baseReference =>
    match sources.get? baseReference.publicationId with
    | none => .error (.index baseReference.publicationId)
    | some base => do
      validateCompositionCompatibility manifest sources base.run
      let selected ← selectCompositionRows manifest sources base
      let trace := compositionTrace manifest controlCommit base.executionProfileSha256
      let trials := composedTrials manifest selected trace
      let executions := composedExecutions selected trace
      let metrics := composedMetrics manifest selected trace
      requireUniqueComposedRows trials executions metrics
      let run := buildComposedRun manifest base.run trace trials executions
      validateEnvelope manifest executions
      return { publicationId := trace.publicationId, run,
               trials := trials.insertionSort fun first second ↦ first.trialId ≤ second.trialId,
               executions := executions.insertionSort fun first second ↦
                 first.executionId ≤ second.executionId,
               metrics := metrics.insertionSort fun first second ↦ first.metricId ≤ second.metricId,
               executionProfileSha256 := base.executionProfileSha256 }

end

end HarborHF.Results
