import Mathlib.Algebra.Order.Floor.Ring
import Mathlib.Data.List.Sort
import Mathlib.Data.Rat.Floor
import Mathlib.Data.String.Basic
import HarborHF.Relational.Chunks
import HarborHF.Relational.Dict

/-!
# Campaign plans and locks

A campaign is a list of runs, a run a list of shards and a shard a list of trials. `CampaignPlan` is
what the planner resolves from an experiment and `CampaignLock` what a submission freezes: the same
runs with identifiers, and for provider campaigns the initial waves. An inference provider's shards
are grouped into waves of at most `maxShardsPerWave`, deployment by deployment; the lock records one
such grouping with its duration, and a wave of another grouping has no locked duration.

The identifiers are digests of their parts. `LockIds` has them as functions; that different parts
have different identifiers is the assumption under which campaigns are told apart.
-/

set_option autoImplicit false

namespace HarborHF.Campaign

open Relational

/-! ### Errors -/

/-- What the campaign code raises: a `ControlError`, a `ValueError`, a `KeyError` or an
`AttributeError`. -/
inductive CampaignError
  | control (message : String)
  | value (message : String)
  | key (name : String)
  | attribute (name : String)
  deriving DecidableEq

/-! ### Plans -/

structure PlannedTrial where
  trialDigest : String
  taskName : String
  taskDigest : String
  logicalAttempt : ℕ
  deriving DecidableEq

structure PlannedShard where
  shardDigest : String
  trials : List PlannedTrial
  deriving DecidableEq

/-- What admission reads of a run. A run of an inference endpoint has no provider. -/
structure RunAdmission where
  cellDigest : String
  deploymentDigest : String
  model : String
  deployment : String
  agent : String
  provider : Option String
  maxConcurrentRequests : Option ℕ
  spendCapMicrousd : Option ℕ
  estimatedWaveCostMicrousd : Option ℕ
  deriving DecidableEq

structure PlannedRun extends RunAdmission where
  shards : List PlannedShard
  deriving DecidableEq

structure PlannedInitialWave where
  waveIndex : ℕ
  deploymentDigest : String
  shardDigests : List String
  trialCount : ℕ
  effectiveConcurrency : ℕ
  plannedDurationSeconds : ℕ
  deriving DecidableEq

structure CampaignRecoveryPolicy where
  maxActiveWaves : ℕ := 64
  maxPhysicalExecutionsPerTrial : ℕ := 3
  retryBaseSeconds : ℕ := 30
  retryMaxSeconds : ℕ := 1800
  cancellationGraceSeconds : ℕ := 0
  spendCapMicrousd : Option ℕ := none
  deriving DecidableEq

/-- The controller settings of a provider campaign. -/
structure CampaignControllerSpec where
  planningTrialSeconds : ℕ
  headroomFactor : ℚ
  waveReserveSeconds : ℕ
  controllerReserveSeconds : ℕ
  heartbeatSeconds : ℕ
  staleAfterSeconds : ℕ
  maxAttempts : ℕ
  deriving DecidableEq

structure CampaignPlan where
  planDigest : String
  maxShardsPerWave : ℕ
  recoveryPolicy : CampaignRecoveryPolicy
  controllerPolicy : Option CampaignControllerSpec
  plannedCampaignDurationSeconds : Option ℕ
  initialWaves : List PlannedInitialWave
  runs : List PlannedRun
  deriving DecidableEq

/-! ### Locks -/

structure CampaignTrialLock where
  trialId : String
  trialDigest : String
  taskName : String
  taskDigest : String
  logicalAttempt : ℕ
  deriving DecidableEq

structure CampaignShardLock where
  shardId : String
  shardDigest : String
  trials : List CampaignTrialLock
  deriving DecidableEq

structure CampaignRunLock extends RunAdmission where
  runId : String
  shards : List CampaignShardLock
  deriving DecidableEq

structure LockedInitialWave where
  waveIndex : ℕ
  deploymentDigest : String
  shardIds : List String
  trialCount : ℕ
  effectiveConcurrency : ℕ
  plannedDurationSeconds : ℕ
  deriving DecidableEq

structure CampaignLock where
  campaignId : String
  planDigest : String
  artifactPrefix : String
  maxShardsPerWave : ℕ
  recoveryPolicy : CampaignRecoveryPolicy
  controllerPolicy : Option CampaignControllerSpec
  plannedCampaignDurationSeconds : Option ℕ
  initialWaves : List LockedInitialWave
  runs : List CampaignRunLock
  deriving DecidableEq

/-- The shards of a lock with their runs, in the order of the lock. -/
def CampaignLock.shards (lock : CampaignLock) : List CampaignShardLock :=
  lock.runs.flatMap CampaignRunLock.shards

/-- The identifiers of a lock (`_short_id`). -/
class LockIds where
  runId : String → String → String
  shardId : String → String → String
  trialId : String → String → String
  runId_injective : ∀ {campaign campaign' cell cell' : String},
    runId campaign cell = runId campaign' cell' → campaign = campaign' ∧ cell = cell'
  shardId_injective : ∀ {run run' shard shard' : String},
    shardId run shard = shardId run' shard' → run = run' ∧ shard = shard'
  trialId_injective : ∀ {run run' trial trial' : String},
    trialId run trial = trialId run' trial' → run = run' ∧ trial = trial'

section

variable [LockIds]

def lockTrial (runId : String) (trial : PlannedTrial) : CampaignTrialLock :=
  ⟨LockIds.trialId runId trial.trialDigest, trial.trialDigest, trial.taskName, trial.taskDigest,
    trial.logicalAttempt⟩

def lockShard (runId : String) (shard : PlannedShard) : CampaignShardLock :=
  ⟨LockIds.shardId runId shard.shardDigest, shard.shardDigest, shard.trials.map (lockTrial runId)⟩

def lockRun (campaignId : String) (run : PlannedRun) : CampaignRunLock :=
  let runId := LockIds.runId campaignId run.cellDigest
  { run.toRunAdmission with
    runId := runId
    shards := run.shards.map (lockShard runId) }

end

/-! ### Initial waves -/

/-- Runs, shards and trials in the order of their identifiers. -/
def byRunId (runs : List CampaignRunLock) : List CampaignRunLock :=
  runs.insertionSort fun first second ↦ first.runId ≤ second.runId

def byShardId (shards : List CampaignShardLock) : List CampaignShardLock :=
  shards.insertionSort fun first second ↦ first.shardId ≤ second.shardId

/-- The shards of a deployment, run by run. -/
def deploymentShards (runs : List CampaignRunLock) (deployment : String) : List CampaignShardLock :=
  ((byRunId runs).filter fun run ↦ run.deploymentDigest = deployment).flatMap
    fun run ↦ byShardId run.shards

/-- The deployments of a list of runs, sorted. -/
def deployments (runs : List CampaignRunLock) : List String :=
  ((runs.map fun run ↦ run.deploymentDigest).dedup).insertionSort (· ≤ ·)

/-- The last entry of a dictionary comprehension over the planned waves. -/
def plannedFor (waves : List PlannedInitialWave) (deployment : String) : Option PlannedInitialWave :=
  (waves.filter fun wave ↦ wave.deploymentDigest = deployment).getLast?

/-- The waves of one deployment, before they are numbered. -/
def deploymentWaves (plan : CampaignPlan) (runs : List CampaignRunLock) (deployment : String) :
    Except CampaignError (List LockedInitialWave) :=
  (chunks plan.maxShardsPerWave (deploymentShards runs deployment)).mapM fun chunk ↦
    match plannedFor plan.initialWaves deployment with
    | none => .error (.key deployment)
    | some planned =>
      .ok
        { waveIndex := 0
          deploymentDigest := deployment
          shardIds := chunk.map CampaignShardLock.shardId
          trialCount := (chunk.map fun shard ↦ shard.trials.length).sum
          effectiveConcurrency := planned.effectiveConcurrency
          plannedDurationSeconds := planned.plannedDurationSeconds }

/-- The initial waves of a provider campaign (`_locked_initial_waves`). -/
def lockedInitialWaves (plan : CampaignPlan) (runs : List CampaignRunLock) :
    Except CampaignError (List LockedInitialWave) :=
  match plan.controllerPolicy with
  | none => .ok []
  | some _ => do
    let waves ← (deployments runs).mapM (deploymentWaves plan runs)
    return waves.flatten.mapIdx fun index wave ↦ { wave with waveIndex := index + 1 }

/-- Lock a plan (`build_campaign_lock`). A provider campaign has a policy, a duration and waves; any
other campaign has none of them. -/
def buildCampaignLock [LockIds] (plan : CampaignPlan) (campaignId : String) :
    Except CampaignError CampaignLock := do
  let runs := plan.runs.map (lockRun campaignId)
  let initialWaves ← lockedInitialWaves plan runs
  if plan.controllerPolicy.isNone ≠ plan.plannedCampaignDurationSeconds.isNone ∨
      plan.controllerPolicy.isNone ≠ initialWaves.isEmpty then
    .error (.value "campaign controller lock fields are incomplete")
  else
    return {
      campaignId := campaignId
      planDigest := plan.planDigest
      artifactPrefix := "campaigns/" ++ campaignId
      maxShardsPerWave := plan.maxShardsPerWave
      recoveryPolicy := plan.recoveryPolicy
      controllerPolicy := plan.controllerPolicy
      plannedCampaignDurationSeconds := plan.plannedCampaignDurationSeconds
      initialWaves := initialWaves
      runs := runs }

/-! ### Durations and costs -/

/-- The planned duration of a provider wave. -/
def plannedProviderWaveSeconds (policy : CampaignControllerSpec)
    (trialCount effectiveConcurrency : ℕ) : Except CampaignError ℕ :=
  if trialCount < 1 ∨ effectiveConcurrency < 1 then
    .error (.value "planned provider waves require trials and concurrency")
  else
    let batches := (trialCount + effectiveConcurrency - 1) / effectiveConcurrency
    let plannedWork := ⌈((batches * policy.planningTrialSeconds : ℕ) : ℚ) * policy.headroomFactor⌉
    .ok (plannedWork.toNat + policy.waveReserveSeconds)

/-- The two kinds of billable actions. -/
inductive WaveActionKind
  | submitWave | retryShard
  deriving DecidableEq

/-- The locked concurrency of a deployment. -/
def lockedProviderActionConcurrency (lock : CampaignLock) (deployment : String) :
    Except CampaignError ℕ :=
  match ((lock.initialWaves.filter fun wave ↦ wave.deploymentDigest = deployment).map
      LockedInitialWave.effectiveConcurrency).dedup with
  | [concurrency] => .ok concurrency
  | _ => .error (.value "provider action has no locked concurrency")

/-- Two lists of identifiers hold the same ones. -/
def sameIds (first second : List String) : Bool :=
  (first.all fun id ↦ decide (id ∈ second)) && second.all fun id ↦ decide (id ∈ first)

/-- The locked duration of a provider action. -/
def lockedProviderActionSeconds (lock : CampaignLock) (kind : WaveActionKind) (deployment : String)
    (shardIds : List String) (trialCount : ℕ) : Except CampaignError ℕ :=
  match lock.controllerPolicy with
  | none => .error (.value "provider action has no controller policy")
  | some policy =>
    match kind with
    | .submitWave =>
      match lock.initialWaves.filter fun wave ↦
          wave.deploymentDigest = deployment ∧ sameIds wave.shardIds shardIds with
      | [wave] => .ok wave.plannedDurationSeconds
      | _ => .error (.value "provider action does not match one locked initial wave")
    | .retryShard => do
      let concurrency ← lockedProviderActionConcurrency lock deployment
      plannedProviderWaveSeconds policy trialCount concurrency

/-- The share of a wave's estimate that a part of its trials costs. -/
def estimatedPartialWaveCost (lock : CampaignLock) (deployment : String)
    (estimatedWaveCostMicrousd : Option ℕ) (trialCount : ℕ) : Except CampaignError (Option ℕ) :=
  match estimatedWaveCostMicrousd with
  | none => .ok none
  | some estimate =>
    let shards := (lock.runs.filter fun run ↦ run.deploymentDigest = deployment).flatMap
      CampaignRunLock.shards
    let capacities := (chunks lock.maxShardsPerWave (byShardId shards)).map fun chunk ↦
      (chunk.map fun shard ↦ shard.trials.length).sum
    let capacity := capacities.foldl max 0
    if capacity = 0 ∨ trialCount = 0 then
      .error (.value "partial wave cost requires a non-empty deployment wave")
    else .ok (some (max 1 ((estimate * trialCount + capacity - 1) / capacity)))

end HarborHF.Campaign
