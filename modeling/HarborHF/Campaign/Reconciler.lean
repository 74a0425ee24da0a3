import Mathlib.Data.Prod.Lex
import HarborHF.Campaign.Recovery

/-!
# The plan of a reconciliation

`planReconciliation` reads the next actions of a campaign off its projection: what is left to cancel,
drain and clean up, the trials to retry, the waves to submit, and the summary to publish once there
is a terminal decision. The candidates are sorted by the priority of their kinds and then admitted
one by one against the limits and spend caps; a candidate that is not admitted is reported as
blocked, and a retry that the locked spend cap rules out for good becomes an exhaustion of its
trials.

An action is named by the digest of its contents and of the number of earlier actions of its kind on
its targets that are spent. A candidate whose key an action that is not spent already has is left
out.
-/

set_option autoImplicit false

namespace HarborHF.Campaign

open Relational

/-! ### Limits and usage -/

/-- The default of the limits that are not bounded. -/
def unbounded : ℕ := 2 ^ 31 - 1

structure DeploymentAdmission where
  provider : Option String := none
  estimatedWaveCostMicrousd : Option ℕ := none
  deriving DecidableEq

structure AdmissionLimits where
  actionLimit : ℕ := 64
  globalActiveWaves : ℕ := unbounded
  deploymentActiveWaves : ℕ := 1
  providerActiveWaves : ℕ := unbounded
  campaignActiveWaves : ℕ := unbounded
  positive : 1 ≤ actionLimit ∧ 1 ≤ globalActiveWaves ∧ 1 ≤ deploymentActiveWaves ∧
    1 ≤ providerActiveWaves ∧ 1 ≤ campaignActiveWaves := by decide
  deriving DecidableEq

structure AdmissionUsage where
  globalActiveWaves : ℕ := 0
  deploymentActiveWaves : Dict String ℕ := []
  providerActiveWaves : Dict String ℕ := []
  campaignActiveWaves : Dict String ℕ := []
  campaignSpendMicrousd : Dict String ℕ := []
  deriving DecidableEq

structure ReconcileContext where
  limits : AdmissionLimits := {}
  usage : AdmissionUsage := {}
  deployments : Dict String DeploymentAdmission := []
  deriving DecidableEq

/-! ### Actions -/

structure Candidate where
  kind : ActionKind
  deploymentDigest : String := ""
  provider : String := ""
  waveId : Option String := none
  shardIds : List String := []
  trialIds : List String := []
  targetIds : List String := []
  estimatedCostMicrousd : Option ℕ := none
  spendCapMicrousd : Option ℕ := none
  deriving DecidableEq

structure ReconcileAction extends Candidate where
  actionId : String
  actionKey : String
  campaignId : String
  deriving DecidableEq

inductive BlockReason
  | globalBudget | deploymentBudget | providerBudget | campaignBudget | spendCap
  | spendEstimateMissing | backoff
  deriving DecidableEq

structure BlockedAction where
  kind : WaveActionKind
  deploymentDigest : String
  shardIds : List String
  reason : BlockReason
  deriving DecidableEq

structure ReconcilePlan where
  campaignId : String
  status : CampaignStatus
  actionCount : ℕ
  actions : List ReconcileAction
  blocked : List BlockedAction
  terminalDecision : Option TerminalDecision
  deriving DecidableEq

/-- The digest of an action: its contents, its campaign and the number of its retry. -/
class ActionKeys where
  shortDigest : Candidate → String → ℕ → String

def ActionKind.priority : ActionKind → ℕ
  | cancelExecution => 0
  | cancelWave => 1
  | drainWave => 2
  | cleanupWave => 3
  | exhaustTrials => 4
  | manualIntervention => 5
  | publishSummary => 6
  | publishResults => 7
  | retryShard => 8
  | submitWave => 9

/-- What candidates are sorted by (`_candidate_key`). -/
def Candidate.key (candidate : Candidate) : ℕ ×ₗ String ×ₗ String ×ₗ String :=
  toLex (candidate.kind.priority, toLex (candidate.deploymentDigest,
    toLex (candidate.waveId.getD "", ",".intercalate candidate.targetIds)))

def sortedCandidates (candidates : List Candidate) : List Candidate :=
  candidates.insertionSort fun first second ↦ first.key ≤ second.key

/-! ### Deployments -/

/-- The admission fields of a run, the same in every run of a deployment. -/
def RunAdmission.identity (run : RunAdmission) : Option String × Option ℕ × Option ℕ × Option ℕ :=
  (run.provider, run.maxConcurrentRequests, run.spendCapMicrousd, run.estimatedWaveCostMicrousd)

def runAdmission (lock : CampaignLock) (deployment : String) :
    Except CampaignError CampaignRunLock :=
  match lock.runs.filter fun run ↦ run.deploymentDigest = deployment with
  | [] => .error (.value "unknown deployment admission target")
  | first :: rest =>
    if rest.any fun run ↦ run.identity ≠ first.identity then
      .error (.value "deployment admission fields are inconsistent")
    else .ok first

/-- The text, unless it is empty. -/
def truthy (text : Option String) : Option String := text.filter fun value ↦ value ≠ ""

/-- The admission of a deployment, as it is observed and else as it is locked (`_deployment`). -/
def deploymentAdmission (lock : CampaignLock) (context : ReconcileContext) (deployment : String) :
    Except CampaignError DeploymentAdmission := do
  let locked ← runAdmission lock deployment
  match context.deployments.get? deployment with
  | none =>
    return {
      provider := some ((truthy locked.provider).getD "hf-inference-endpoints")
      estimatedWaveCostMicrousd := locked.estimatedWaveCostMicrousd }
  | some observed =>
    return {
      provider := some (((truthy observed.provider).or (truthy locked.provider)).getD
        "hf-inference-endpoints")
      estimatedWaveCostMicrousd :=
        observed.estimatedWaveCostMicrousd.or locked.estimatedWaveCostMicrousd }

def admissionProvider (admission : DeploymentAdmission) : Except CampaignError String :=
  match admission.provider with
  | none => .error (.value "deployment admission has no provider")
  | some provider => .ok provider

def deploymentForShards (lock : CampaignLock) (shardIds : List String) :
    Except CampaignError String :=
  match ((lock.runs.filter fun run ↦ run.shards.any fun shard ↦ shard.shardId ∈ shardIds).map
      fun run ↦ run.deploymentDigest).dedup with
  | [deployment] => .ok deployment
  | _ => .error (.value "action shards must belong to one deployment")

/-- Shards by their deployments, which are sorted. -/
def deploymentGroups (shards : List (String × String)) : List (String × List String) :=
  ((shards.map Prod.fst).dedup.insertionSort (· ≤ ·)).map fun deployment ↦
    (deployment, (shards.filter fun entry ↦ entry.1 = deployment).map Prod.snd)

/-- The shards of a deployment, wave by wave. -/
def waveChunks (lock : CampaignLock) (shardIds : List String) :
    Except CampaignError (List (List String)) :=
  if lock.maxShardsPerWave = 0 then .error (.value "range() arg 3 must not be zero")
  else .ok (chunks lock.maxShardsPerWave shardIds)

/-- One candidate for each wave of each deployment. -/
def waveCandidates (lock : CampaignLock) (shards : List (String × String))
    (candidate : String → List String → Except CampaignError Candidate) :
    Except CampaignError (List Candidate) := do
  let groups ← (deploymentGroups shards).mapM fun group ↦ do
    let waves ← waveChunks lock group.2
    waves.mapM (candidate group.1)
  return groups.flatten

/-! ### Actions that were taken -/

/-- The action failed or its wave is closed. -/
def actionIsSpent (projection : RecoveryProjection) (action : ActionProjection) : Bool :=
  decide (action.status = .failed) ||
    (projection.waves.get? (waveIdOf action.actionKey)).any fun wave ↦ wave.status = .closed

def actionShardIds (lock : CampaignLock) (kind : ActionKind) (targetIds : List String) :
    List String :=
  match kind with
  | .submitWave => targetIds
  | .retryShard =>
    ((lock.shards.filter fun shard ↦ shard.trials.any fun trial ↦ trial.trialId ∈ targetIds).map
      CampaignShardLock.shardId).insertionSort (· ≤ ·)
  | _ => []

/-- Name an action, unless one with its key is not spent. -/
def materialize [ActionKeys] (lock : CampaignLock) (projection : RecoveryProjection)
    (candidate : Candidate) : Option ReconcileAction :=
  let retries := (projection.campaign.actions.values.filter fun action ↦
    action.actionKind = candidate.kind ∧ action.targetIds = candidate.targetIds ∧
      actionIsSpent projection action = true).length
  let actionKey := ActionKeys.shortDigest candidate lock.campaignId retries
  if projection.campaign.actions.values.any fun action ↦
      action.actionKey = actionKey ∧ actionIsSpent projection action = false then none
  else some
    { candidate with
      waveId := (truthy candidate.waveId).or
        (if candidate.kind.billable then some (waveIdOf actionKey) else none)
      actionId := "act-" ++ actionKey
      actionKey := actionKey
      campaignId := lock.campaignId }

/-! ### Cleanup -/

/-- The campaign starts nothing more. -/
def CampaignStatus.cancelling : CampaignStatus → Bool
  | cancelRequested | draining | manualIntervention => true
  | _ => false

def cancellationGraceElapsed (lock : CampaignLock) (projection : RecoveryProjection) (now : ℕ) :
    Bool :=
  projection.cancelRequestedAt.any fun requestedAt ↦
    requestedAt + seconds lock.recoveryPolicy.cancellationGraceSeconds ≤ now

def executionCancellations (projection : RecoveryProjection) : List Candidate :=
  (projection.executions.values.filter fun execution ↦ execution.status = .active).map
    fun execution ↦
      { kind := .cancelExecution
        waveId := execution.waveId
        shardIds := [execution.shardId]
        trialIds := [execution.trialId]
        targetIds := [execution.executionId] }

/-- An action on an observed wave. -/
def waveAction (wave : WaveProjection) (kind : ActionKind) : Candidate :=
  { kind := kind
    deploymentDigest := wave.deploymentDigest
    provider := wave.provider
    waveId := some wave.waveId
    shardIds := wave.shardIds
    targetIds := [wave.waveId] }

def cancellationWaveActions (wave : WaveProjection) (projection : RecoveryProjection)
    (forceCancel : Bool) : List Candidate :=
  if forceCancel then [waveAction wave .cancelWave, waveAction wave .cleanupWave]
  else if projection.executions.values.any fun execution ↦
      execution.waveId = some wave.waveId ∧ execution.status = .active then
    [waveAction wave .drainWave]
  else if wave.status = .draining ∨ wave.status = .cleaning then [waveAction wave .cleanupWave]
  else [waveAction wave .drainWave]

def waveCleanup (projection : RecoveryProjection) (cancelling forceCancel : Bool)
    (wave : WaveProjection) : List Candidate :=
  if wave.status = .closed then []
  else if wave.status = .cleanupFailed then [waveAction wave .manualIntervention]
  else if cancelling then cancellationWaveActions wave projection forceCancel
  else if (wave.shardIds.all fun shardId ↦
        (projection.shards.get? shardId).any fun shard ↦ shard.status.settled.isSome) ∧
      wave.status ≠ .draining ∧ wave.status ≠ .cleaning then
    [waveAction wave .drainWave]
  else if wave.status = .draining ∨ wave.status = .cleaning then [waveAction wave .cleanupWave]
  else []

/-- Waves that may have been started and were not observed. -/
def unobservedWaveCancellations (lock : CampaignLock) (projection : RecoveryProjection)
    (forceCancel : Bool) : Except CampaignError (List Candidate) := do
  let known := projection.waves.values.map WaveProjection.waveId
  let unobserved := projection.campaign.actions.values.filter fun action ↦
    action.actionKind.billable = true ∧ action.status ≠ .failed ∧
      waveIdOf action.actionKey ∉ known
  let candidates ← unobserved.mapM fun action ↦ do
    let shardIds := actionShardIds lock action.actionKind action.targetIds
    let deployment ← deploymentForShards lock shardIds
    let kinds : List ActionKind :=
      if forceCancel then [.cancelWave, .cleanupWave] else [.drainWave]
    return kinds.map fun kind ↦
      ({ kind := kind
         deploymentDigest := deployment
         waveId := some (waveIdOf action.actionKey)
         shardIds := shardIds
         targetIds := [action.actionId] } : Candidate)
  return candidates.flatten

def cleanupCandidates (lock : CampaignLock) (projection : RecoveryProjection) (now : ℕ) :
    Except CampaignError (List Candidate) := do
  let cancelling := projection.campaign.status.cancelling
  let forceCancel := cancellationGraceElapsed lock projection now
  let executions :=
    if cancelling ∧ forceCancel then executionCancellations projection else []
  let waves := projection.waves.values.flatMap (waveCleanup projection cancelling forceCancel)
  let unobserved ←
    if cancelling then unobservedWaveCancellations lock projection forceCancel else .ok []
  return executions ++ waves ++ unobserved

/-! ### Retries -/

/-- Some trial of the shard was executed or ended. -/
def shardHasExecutionEvidence (projection : RecoveryProjection) (shardId : String) : Bool :=
  (projection.shards.get? shardId).any fun shard ↦ shard.trialIds.any fun trialId ↦
    (projection.trials.get? trialId).any fun trial ↦
      trial.executions ≠ [] ∨ trial.status ≠ .planned

def trialWasSkippedInClosedWave (projection : RecoveryProjection) (shardId : String) : Bool :=
  shardHasExecutionEvidence projection shardId &&
    projection.waves.values.any fun wave ↦ wave.status = .closed ∧ shardId ∈ wave.shardIds

inductive RetryQueue
  | ready | waiting
  deriving DecidableEq

def retryIsReady (trial : TrialProjection) (now : ℕ) : Bool :=
  decide (trial.status = .retryWait) && trial.retryNotBefore.any fun time ↦ time ≤ now

def retryQueue (projection : RecoveryProjection) (trial : TrialProjection) (now : ℕ) :
    Option RetryQueue :=
  if trial.status = .planned ∧ trialWasSkippedInClosedWave projection trial.shardId = true then
    some .ready
  else if trial.status ≠ .retryWait then none
  else if retryIsReady trial now then some .ready
  else some .waiting

/-- The trials that a retry which is not spent already has. -/
def reservedTrialIds (projection : RecoveryProjection) : List String :=
  (projection.campaign.actions.values.filter fun action ↦
    action.actionKind = .retryShard ∧ actionIsSpent projection action = false).flatMap
      ActionProjection.targetIds

/-- The trials of a queue that no retry has. -/
def queuedTrials (projection : RecoveryProjection) (now : ℕ) (queue : RetryQueue) :
    List TrialProjection :=
  projection.trials.values.filter fun trial ↦
    trial.trialId ∉ reservedTrialIds projection ∧ retryQueue projection trial now = some queue

/-- The shards of a list of trials, sorted. -/
def sortedShardIds (trials : List TrialProjection) : List String :=
  (trials.map TrialProjection.shardId).dedup.insertionSort (· ≤ ·)

def retryCandidate (lock : CampaignLock) (context : ReconcileContext)
    (ready : List TrialProjection) (deployment : String) (chunk : List String) :
    Except CampaignError Candidate := do
  let admission ← deploymentAdmission lock context deployment
  let provider ← admissionProvider admission
  let trialIds := (chunk.flatMap fun shardId ↦
    (ready.filter fun trial ↦ trial.shardId = shardId).map
      TrialProjection.trialId).insertionSort (· ≤ ·)
  let estimate ← estimatedPartialWaveCost lock deployment admission.estimatedWaveCostMicrousd
    trialIds.length
  let run ← runAdmission lock deployment
  return {
    kind := .retryShard
    deploymentDigest := deployment
    provider := provider
    shardIds := chunk
    trialIds := trialIds
    targetIds := trialIds
    estimatedCostMicrousd := estimate
    spendCapMicrousd := run.spendCapMicrousd }

/-- Shards with their deployments. -/
def withDeployments (lock : CampaignLock) (shardIds : List String) :
    Except CampaignError (List (String × String)) :=
  shardIds.mapM fun shardId ↦ do
    let deployment ← deploymentForShards lock [shardId]
    return (deployment, shardId)

def retryCandidates (lock : CampaignLock) (projection : RecoveryProjection)
    (context : ReconcileContext) (now : ℕ) :
    Except CampaignError (List Candidate × List BlockedAction) := do
  let ready := queuedTrials projection now .ready
  let waiting := queuedTrials projection now .waiting
  let shards ← withDeployments lock (sortedShardIds ready)
  let candidates ← waveCandidates lock shards (retryCandidate lock context ready)
  let blocked ← withDeployments lock (sortedShardIds waiting)
  return (candidates, blocked.map fun entry ↦ ⟨.retryShard, entry.1, [entry.2], .backoff⟩)

/-! ### New waves -/

/-- The shards that a wave or an action has, or that were executed. -/
def assignedShards (lock : CampaignLock) (projection : RecoveryProjection) : List String :=
  (projection.waves.values.flatMap fun wave ↦
    -- a closed wave keeps a shard only while it left evidence; untouched shards return to the pool
    wave.shardIds.filter fun shardId ↦
      wave.status ≠ .closed ∨ shardHasExecutionEvidence projection shardId = true) ++
    projection.executions.values.map ExecutionProjection.shardId ++
    (projection.campaign.actions.values.filter fun action ↦
      action.actionKind.billable = true ∧ actionIsSpent projection action = false).flatMap
        fun action ↦ actionShardIds lock action.actionKind action.targetIds

/-- The shards that nothing has, with their deployments, run by run. -/
def freeShards (lock : CampaignLock) (projection : RecoveryProjection) : List (String × String) :=
  let assigned := assignedShards lock projection
  (byRunId lock.runs).flatMap fun run ↦
    ((byShardId run.shards).filter fun shard ↦ shard.shardId ∉ assigned ∧
      (projection.shards.get? shard.shardId).any fun current ↦
        current.status = .planned ∨ current.status = .queued).map
        fun shard ↦ (run.deploymentDigest, shard.shardId)

def newWaveCandidate (lock : CampaignLock) (context : ReconcileContext) (deployment : String)
    (chunk : List String) : Except CampaignError Candidate := do
  let admission ← deploymentAdmission lock context deployment
  let provider ← admissionProvider admission
  let run ← runAdmission lock deployment
  return {
    kind := .submitWave
    deploymentDigest := deployment
    provider := provider
    shardIds := chunk
    targetIds := chunk
    estimatedCostMicrousd := admission.estimatedWaveCostMicrousd
    spendCapMicrousd := run.spendCapMicrousd }

def newWaveCandidates (lock : CampaignLock) (projection : RecoveryProjection)
    (context : ReconcileContext) : Except CampaignError (List Candidate) :=
  waveCandidates lock (freeShards lock projection) (newWaveCandidate lock context)

/-! ### Candidates -/

def summaryCandidate (decision : TerminalDecision) : Candidate :=
  { kind := .publishSummary, targetIds := [decision.summaryPath] }

/-- The candidates in the order of admission, and the retries that wait (`_candidates`). -/
def candidates (lock : CampaignLock) (projection : RecoveryProjection) (context : ReconcileContext)
    (now : ℕ) : Except CampaignError (List Candidate × List BlockedAction) := do
  let cleanup ← cleanupCandidates lock projection now
  let (retries, blocked) ←
    if projection.campaign.status.cancelling then .ok ([], [])
    else retryCandidates lock projection context now
  let waves ←
    if projection.campaign.status.cancelling then .ok []
    else newWaveCandidates lock projection context
  let summary := projection.terminalDecision.toList.map summaryCandidate
  return (sortedCandidates (cleanup ++ retries ++ waves ++ summary), blocked)

/-! ### Admission -/

/-- Add to the count of a key. -/
def increase (counts : Dict String ℕ) (key : String) (amount : ℕ) : Dict String ℕ :=
  counts.set key ((counts.get? key).getD 0 + amount)

/-- What is in use as the candidates are admitted (`_MutableUsage`). -/
structure MutableUsage where
  globalWaves : ℕ
  deployments : Dict String ℕ
  providers : Dict String ℕ
  campaigns : Dict String ℕ
  spend : Dict String ℕ
  deriving DecidableEq

/-- The estimates of all waves. -/
def waveEstimates (projection : RecoveryProjection) : ℕ :=
  (projection.waves.values.map WaveProjection.estimatedCostMicrousd).sum

def openWaves (projection : RecoveryProjection) : List WaveProjection :=
  projection.waves.values.filter fun wave ↦ wave.status ≠ .closed

def initialUsage (context : ReconcileContext) (projection : RecoveryProjection) : MutableUsage :=
  let usage := context.usage
  let campaignId := projection.campaign.campaignId
  { globalWaves := usage.globalActiveWaves + (openWaves projection).length
    deployments := (openWaves projection).foldl
      (fun counts wave ↦ increase counts wave.deploymentDigest 1) usage.deploymentActiveWaves
    providers := (openWaves projection).foldl
      (fun counts wave ↦ increase counts wave.provider 1) usage.providerActiveWaves
    campaigns := (openWaves projection).foldl
      (fun counts _ ↦ increase counts campaignId 1) usage.campaignActiveWaves
    spend := increase usage.campaignSpendMicrousd campaignId
      (projection.spendMicrousd + waveEstimates projection) }

def MutableUsage.admitted (usage : MutableUsage) (candidate : Candidate) (campaignId : String) :
    MutableUsage :=
  { globalWaves := usage.globalWaves + 1
    deployments := increase usage.deployments candidate.deploymentDigest 1
    providers := increase usage.providers candidate.provider 1
    campaigns := increase usage.campaigns campaignId 1
    spend := increase usage.spend campaignId (candidate.estimatedCostMicrousd.getD 0) }

/-- The smaller of the caps of the campaign and of the deployment. -/
def spendCap (lock : CampaignLock) (candidate : Candidate) : Option ℕ :=
  ([lock.recoveryPolicy.spendCapMicrousd, candidate.spendCapMicrousd].filterMap id).min?

/-- Why a candidate is not admitted. -/
def budgetReason (lock : CampaignLock) (candidate : Candidate) (limits : AdmissionLimits)
    (usage : MutableUsage) : Option BlockReason :=
  let count (counts : Dict String ℕ) (key : String) : ℕ := (counts.get? key).getD 0
  if limits.globalActiveWaves ≤ usage.globalWaves then some .globalBudget
  else if limits.deploymentActiveWaves ≤ count usage.deployments candidate.deploymentDigest then
    some .deploymentBudget
  else if limits.providerActiveWaves ≤ count usage.providers candidate.provider then
    some .providerBudget
  else if min limits.campaignActiveWaves lock.recoveryPolicy.maxActiveWaves ≤
      count usage.campaigns lock.campaignId then
    some .campaignBudget
  else
    match spendCap lock candidate with
    | none => none
    | some cap =>
      match candidate.estimatedCostMicrousd with
      | none => some .spendEstimateMissing
      | some estimate =>
        if cap < count usage.spend lock.campaignId + estimate then some .spendCap else none

/-- The locked estimate does not fit under the cap beside what is spent and estimated. -/
def durableSpendCapBlocksRetry (lock : CampaignLock) (projection : RecoveryProjection)
    (candidate : Candidate) : Except CampaignError Bool := do
  let run ← runAdmission lock candidate.deploymentDigest
  match spendCap lock candidate, run.estimatedWaveCostMicrousd with
  | some cap, some estimate =>
    return decide (cap < projection.spendMicrousd + waveEstimates projection + estimate)
  | _, _ => return false

/-- The exhaustion of the trials of a retry. -/
def exhaustion (candidate : Candidate) : Candidate :=
  { kind := .exhaustTrials
    deploymentDigest := candidate.deploymentDigest
    shardIds := candidate.shardIds
    trialIds := candidate.trialIds
    targetIds := candidate.trialIds }

/-- The billable kinds as a blocked action names them. -/
def ActionKind.wave : ActionKind → WaveActionKind
  | retryShard => .retryShard
  | _ => .submitWave

section Admission

variable [ActionKeys]

def deniedBillableAction (lock : CampaignLock) (projection : RecoveryProjection)
    (candidate : Candidate) (reason : BlockReason) (exhaustRetry : Bool) :
    Option ReconcileAction × List BlockedAction :=
  if candidate.kind = .retryShard ∧ reason = .spendCap ∧ exhaustRetry then
    (materialize lock projection (exhaustion candidate), [])
  else
    (none, [⟨candidate.kind.wave, candidate.deploymentDigest, candidate.shardIds, reason⟩])

/-- The state of the loop of `_admit`. -/
structure Admission where
  usage : MutableUsage
  actions : List ReconcileAction
  blocked : List BlockedAction
  deriving DecidableEq

/-- What the loop makes of a candidate: the action it offers, if any, what is in use then, and what it
reports as blocked. -/
def offer (lock : CampaignLock) (projection : RecoveryProjection) (limits : AdmissionLimits)
    (usage : MutableUsage) (candidate : Candidate) :
    Except CampaignError (Option ReconcileAction × MutableUsage × List BlockedAction) :=
  match materialize lock projection candidate with
  | none => .ok (none, usage, [])
  | some action =>
    if candidate.kind.billable = false then .ok (some action, usage, [])
    else
      match budgetReason lock candidate limits usage with
      | none => .ok (some action, usage.admitted candidate lock.campaignId, [])
      | some reason => do
        let exhaustRetry ← durableSpendCapBlocksRetry lock projection candidate
        let (denied, blocked) :=
          deniedBillableAction lock projection candidate reason exhaustRetry
        return (denied, usage, blocked)

/-- The loop of `_admit`, which ends at the first action beyond the limit. -/
def admitCandidates (lock : CampaignLock) (projection : RecoveryProjection)
    (limits : AdmissionLimits) : List Candidate → Admission → Except CampaignError Admission
  | [], state => .ok state
  | candidate :: rest, state => do
    let (offered, usage, blocked) ← offer lock projection limits state.usage candidate
    match offered with
    | none =>
      admitCandidates lock projection limits rest
        ⟨usage, state.actions, state.blocked ++ blocked⟩
    | some action =>
      if limits.actionLimit ≤ state.actions.length then return state
      else
        admitCandidates lock projection limits rest
          ⟨usage, state.actions ++ [action], state.blocked ++ blocked⟩

/-! ### The plan -/

/-- The projection of a campaign and the plan for it. -/
def planReconciliation [Jitter] (lock : CampaignLock) (events : List CampaignEvent)
    (context : ReconcileContext) (now : ℕ) :
    Except CampaignError (RecoveryProjection × ReconcilePlan) := do
  let projection ← projectRecovery lock events
  let now := max now projection.campaign.lastObservedAt
  let plan (actions : List ReconcileAction) (blocked : List BlockedAction) : ReconcilePlan :=
    { campaignId := lock.campaignId
      status := projection.campaign.status
      actionCount := actions.length
      actions := actions
      blocked := blocked
      terminalDecision := projection.terminalDecision }
  if projection.campaign.status.terminal then return (projection, plan [] [])
  else do
    let (found, waiting) ← candidates lock projection context now
    let admission ← admitCandidates lock projection context.limits found
      ⟨initialUsage context projection, [], waiting⟩
    return (projection, plan admission.actions admission.blocked)

end Admission

end HarborHF.Campaign
