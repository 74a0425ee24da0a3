import HarborHF.Campaign.Events

/-!
# The recovery projection

`projectRecovery` reads the whole state of a campaign off its log: the executions and waves that were
observed, the trials with their outcomes or retry times, the shards and runs above them, and the
terminal decision once there is one. It is a fold over the ordered log (`applyEvent`) followed by
derivations from the leaves up.

A trial's executions are numbered without gaps from 1, and nothing comes after a completed one. A
wave keeps its identity (deployment, provider, shards, estimate), and moves only along the
transitions of `validateWaveTransition`; what the reconciler recorded late is passed over.
-/

set_option autoImplicit false

namespace HarborHF.Campaign

open Relational

/-! ### Projections -/

inductive TaskOutcome
  | scored | agentFailed | benchmarkFailed | infrastructureExhausted
  deriving DecidableEq

structure ExecutionProjection where
  executionId : String
  trialId : String
  shardId : String
  waveId : Option String
  physicalAttempt : ℕ
  status : ExecutionStatus
  category : Option RetryCategory := none
  observedAt : ℕ
  retryAfterSeconds : Option ℕ := none
  estimatedCostMicrousd : ℕ := 0
  spendMicrousd : ℕ := 0
  message : Option String := none
  deriving DecidableEq

structure TrialProjection where
  trialId : String
  shardId : String
  logicalAttempt : ℕ
  status : TrialStatus := .planned
  executions : Dict String ExecutionProjection := []
  retryNotBefore : Option ℕ := none
  outcome : Option TaskOutcome := none
  deriving DecidableEq

structure ShardProjection where
  shardId : String
  runId : String
  status : ShardStatus := .planned
  trialIds : List String
  observedStatus : Option LifecycleStatus := none
  deriving DecidableEq

structure RunProjection where
  runId : String
  deploymentDigest : String
  status : RunStatus := .planned
  shardIds : List String
  observedStatus : Option LifecycleStatus := none
  deriving DecidableEq

structure WaveProjection where
  waveId : String
  deploymentDigest : String
  provider : String
  shardIds : List String
  estimatedCostMicrousd : ℕ
  status : WaveStatus
  deriving DecidableEq

structure ProjectionCounts where
  planned : ℕ
  active : ℕ
  retrying : ℕ
  complete : ℕ
  invalid : ℕ
  failed : ℕ
  cancelled : ℕ
  physicalRetries : ℕ
  deriving DecidableEq

structure TerminalDecision where
  status : TerminalStatus
  marker : String
  summaryPath : String
  markerPath : String
  reason : String
  counts : ProjectionCounts
  deriving DecidableEq

structure RecoveryProjection where
  campaign : CampaignProjection
  runs : Dict String RunProjection
  shards : Dict String ShardProjection
  trials : Dict String TrialProjection
  executions : Dict String ExecutionProjection
  waves : Dict String WaveProjection
  spendMicrousd : ℕ
  counts : ProjectionCounts
  cancelRequestedAt : Option ℕ
  terminalDecision : Option TerminalDecision
  deriving DecidableEq

/-- The state of the fold over the log. -/
structure RecoveryState where
  runs : Dict String RunProjection
  shards : Dict String ShardProjection
  trials : Dict String TrialProjection
  executions : Dict String ExecutionProjection
  waves : Dict String WaveProjection
  spendMicrousd : ℕ
  deriving DecidableEq

/-! ### The initial state -/

/-- The loops of `_initial_projections`: a later run, shard or trial replaces one with its id. -/
def initialState (lock : CampaignLock) : RecoveryState :=
  { runs := lock.runs.foldl (fun runs run ↦ runs.set run.runId
      { runId := run.runId
        deploymentDigest := run.deploymentDigest
        shardIds := run.shards.map CampaignShardLock.shardId }) []
    shards := (lock.runs.flatMap fun run ↦ run.shards.map fun shard ↦ (run, shard)).foldl
      (fun shards entry ↦ shards.set entry.2.shardId
        { shardId := entry.2.shardId
          runId := entry.1.runId
          trialIds := entry.2.trials.map CampaignTrialLock.trialId }) []
    trials := (lock.shards.flatMap fun shard ↦ shard.trials.map fun trial ↦ (shard, trial)).foldl
      (fun trials entry ↦ trials.set entry.2.trialId
        { trialId := entry.2.trialId
          shardId := entry.1.shardId
          logicalAttempt := entry.2.logicalAttempt }) []
    executions := []
    waves := []
    spendMicrousd := 0 }

/-! ### One event -/

namespace RecoveryState

variable (state : RecoveryState)

def recordRunStatus (runId : String) (status : LifecycleStatus) :
    Except CampaignError RecoveryState :=
  match state.runs.get? runId with
  | none => .error (.value ("event references unknown run: " ++ runId))
  | some run =>
    .ok { state with runs := state.runs.set runId { run with observedStatus := some status } }

def recordShardStatus (shardId : String) (status : LifecycleStatus) :
    Except CampaignError RecoveryState :=
  match state.shards.get? shardId with
  | none => .error (.value ("event references unknown shard: " ++ shardId))
  | some shard =>
    .ok { state with
      shards := state.shards.set shardId { shard with observedStatus := some status } }

def recordTrialStatus (trialId : String) (outcome : TrialOutcome) :
    Except CampaignError RecoveryState :=
  match state.trials.get? trialId with
  | none => .error (.value ("event references unknown trial: " ++ trialId))
  | some trial =>
    .ok { state with trials := state.trials.set trialId { trial with status := outcome.trial } }

/-- The trial is one of the shard's. -/
def knowsTrial (trialId shardId : String) : Bool :=
  (state.trials.get? trialId).any fun trial ↦ trial.shardId = shardId

def startExecution (executionId : String) (observedAt : ℕ) (payload : ExecutionStartedPayload) :
    Except CampaignError RecoveryState :=
  if state.knowsTrial payload.trialId payload.shardId = false then
    .error (.value "execution references an unknown trial or shard")
  else if (state.executions.get? executionId).isSome then
    .error (.value ("execution started more than once: " ++ executionId))
  else if state.executions.values.any fun execution ↦
      execution.trialId = payload.trialId ∧ execution.physicalAttempt = payload.physicalAttempt then
    .error (.value "trial has duplicate physical execution numbers")
  else
    .ok { state with
      executions := state.executions.set executionId
        { executionId := executionId
          trialId := payload.trialId
          shardId := payload.shardId
          waveId := payload.waveId
          physicalAttempt := payload.physicalAttempt
          status := .active
          observedAt := observedAt
          estimatedCostMicrousd := payload.estimatedCostMicrousd } }

/-- The sentinel that the reconciler writes for an execution whose Job ended without evidence. -/
def isReconcilerLostSentinel (producer : Producer) (outcome : ExecutionOutcome)
    (payload : ExecutionOutcomePayload) : Bool :=
  decide (producer = .reconciler) && decide (outcome = .failed) &&
    decide (payload.category = some .lost) &&
    payload.message.any fun message ↦
      "HF Job ".toList.isPrefixOf message.toList &&
        " without terminal execution evidence".toList.isSuffixOf message.toList

def finishExecution (executionId : String) (observedAt : ℕ) (producer : Producer)
    (outcome : ExecutionOutcome) (payload : ExecutionOutcomePayload) :
    Except CampaignError RecoveryState :=
  match state.executions.get? executionId with
  | none => .error (.value ("execution outcome has no start: " ++ executionId))
  | some execution =>
    if execution.status ≠ .active then
      if isReconcilerLostSentinel producer outcome payload then .ok state
      else .error (.value ("execution has multiple outcomes: " ++ executionId))
    else if payload.trialId ≠ execution.trialId ∨
        payload.physicalAttempt ≠ execution.physicalAttempt then
      .error (.value "execution outcome identity does not match its start")
    else if outcome = .completed ∧ payload.category.isSome then
      .error (.value "completed execution cannot have a failure category")
    else if outcome = .failed ∧ payload.category.isNone then
      .error (.value "failed execution requires a failure category")
    else
      .ok { state with
        executions := state.executions.set executionId
          { execution with
            status := outcome.status
            category := payload.category
            observedAt := observedAt
            retryAfterSeconds := payload.retryAfterSeconds
            spendMicrousd := payload.spendMicrousd
            message := payload.message }
        spendMicrousd := state.spendMicrousd + payload.spendMicrousd }

end RecoveryState

/-- The statuses a wave may go to from a status. -/
def WaveStatus.next : WaveStatus → List WaveStatus
  | acquiring => [provisioning, draining, cleaning, cleanupFailed]
  | provisioning => [ready, draining, cleaning, cleanupFailed]
  | ready => [active, draining, cleaning, cleanupFailed]
  | active => [draining, cleaning, cleanupFailed]
  | draining => [cleaning, closed, cleanupFailed]
  | cleaning => [closed, cleanupFailed]
  | cleanupFailed => [cleaning, closed]
  | closed => []

def validateWaveTransition (previous current : WaveStatus) : Except CampaignError Unit :=
  if current ≠ previous ∧ current ∉ previous.next then
    .error (.value ("invalid wave transition: " ++ previous.name ++ " -> " ++ current.name))
  else .ok ()

/-- The identity of a wave does not change. -/
def WaveProjection.identity (wave : WaveProjection) : WaveLifecyclePayload :=
  ⟨wave.deploymentDigest, wave.provider, wave.shardIds, wave.estimatedCostMicrousd⟩

/-- The reconciler recorded the transition after the wave had ended. -/
def staleReconcilerTransition (producer : Producer) (previous status : WaveStatus) : Bool :=
  decide (producer = .reconciler) &&
    (decide (previous = .closed) && (decide (status = .draining) || decide (status = .cleaning)) ||
      decide (previous = .cleanupFailed) && decide (status = .draining))

/-- The status of a wave after an event of it, where `previous` is the wave as it was observed. -/
def nextWave (waveId : String) (producer : Producer) (status : WaveStatus)
    (payload : WaveLifecyclePayload) : Option WaveProjection → Except CampaignError WaveProjection
  | none =>
    .ok ⟨waveId, payload.deploymentDigest, payload.provider, payload.shardIds,
      payload.estimatedCostMicrousd, status⟩
  | some previous =>
    if previous.identity ≠ payload then .error (.value "wave lifecycle identity changed")
    else if staleReconcilerTransition producer previous.status status then .ok previous
    else do
      validateWaveTransition previous.status status
      return ⟨waveId, payload.deploymentDigest, payload.provider, payload.shardIds,
        payload.estimatedCostMicrousd, status⟩

/-- Strings joined by a comma and a blank. -/
def commaSeparated (names : List String) : String := ", ".intercalate names

namespace RecoveryState

variable (state : RecoveryState)

def recordWaveStatus (waveId : String) (producer : Producer) (status : WaveStatus)
    (payload : WaveLifecyclePayload) : Except CampaignError RecoveryState :=
  let unknown := payload.shardIds.filter fun shardId ↦ (state.shards.get? shardId).isNone
  if unknown ≠ [] then
    .error (.value ("wave references unknown shards: " ++
      commaSeparated (unknown.dedup.insertionSort (· ≤ ·))))
  else do
    let wave ← nextWave waveId producer status payload (state.waves.get? waveId)
    return { state with waves := state.waves.set waveId wave }

/-- Close a wave that manual recovery names. -/
def closeRecovered (waves : Dict String WaveProjection) (waveId : String) :
    Except CampaignError (Dict String WaveProjection) :=
  match waves.get? waveId with
  | none => .error (.value "manual recovery does not reference a failed cleanup wave")
  | some wave =>
    if wave.status = .cleanupFailed then .ok (waves.set waveId { wave with status := .closed })
    else if wave.status = .closed then .ok waves
    else .error (.value "manual recovery does not reference a failed cleanup wave")

/-- One event of the log (`_apply_campaign_recovery_event` and `_apply_recovery_event`). -/
def applyEvent (event : CampaignEvent) : Except CampaignError RecoveryState :=
  match event.body with
  | .manualInterventionResolved payload => do
    let waves ← payload.waveIds.foldlM closeRecovered state.waves
    return { state with waves := waves }
  | .run status _ => state.recordRunStatus event.subjectId status
  | .shard status _ => state.recordShardStatus event.subjectId status
  | .trial outcome _ => state.recordTrialStatus event.subjectId outcome
  | .executionStarted payload => state.startExecution event.subjectId event.observedAt payload
  | .executionOutcome outcome payload =>
    state.finishExecution event.subjectId event.observedAt event.producer outcome payload
  | .wave status payload => state.recordWaveStatus event.subjectId event.producer status payload
  | .spendRecorded _ amount => .ok { state with spendMicrousd := state.spendMicrousd + amount }
  | _ => .ok state

end RecoveryState

/-! ### Trials -/

/-- The first byte of the digest of a text. -/
class Jitter where
  firstByte : String → ℕ
  firstByte_lt : ∀ text, firstByte text < 256

theorem zero_lt_byte (_ : String) : 0 < 256 := by decide

/-- A failure of this category is retried. -/
def RetryCategory.retryable : RetryCategory → Bool
  | lost | transient | quota | rateLimit | ambiguous | evidence => true
  | _ => false

/-- How a trial ended, if it did. -/
def TrialStatus.settled : TrialStatus → Option TrialOutcome
  | complete => some .complete
  | invalid => some .invalid
  | failedInfrastructure => some .failedInfrastructure
  | cancelled => some .cancelled
  | _ => none

def TrialStatus.terminal (status : TrialStatus) : Bool := status.settled.isSome

/-- The delay before a retry, in seconds. -/
def retryDelaySeconds [Jitter] (lock : CampaignLock) (category : RetryCategory)
    (physicalAttempt : ℕ) (executionId : String) (retryAfterSeconds : Option ℕ) :
    Except CampaignError ℕ :=
  if category.retryable = false then
    .error (.value ("retry category is terminal: " ++ category.name))
  else
    let exponent := min (physicalAttempt - 1) 30
    let multiplier := if category = .quota ∨ category = .rateLimit then 2 else 1
    let raw := lock.recoveryPolicy.retryBaseSeconds * 2 ^ exponent * multiplier
    let byte := Jitter.firstByte
      (executionId ++ ":" ++ category.name ++ ":" ++ toString physicalAttempt)
    let jittered := raw * (75 + byte * 50 / 255) / 100
    .ok (min lock.recoveryPolicy.retryMaxSeconds
      (max (max 1 jittered) (retryAfterSeconds.getD 0)))

/-- The outcome of a trial in a status, by its last execution. -/
def taskOutcome (status : TrialStatus) (executions : List ExecutionProjection) :
    Option TaskOutcome :=
  if status = .complete then some .scored
  else if status ≠ .invalid ∧ status ≠ .failedInfrastructure then none
  else
    match executions.getLast? with
    | none => none
    | some latest =>
      if latest.status ≠ .failed then none
      else if latest.category = some .agent then some .agentFailed
      else if latest.category = some .benchmark then some .benchmarkFailed
      else some .infrastructureExhausted

/-- Seconds as microseconds. -/
def seconds (count : ℕ) : ℕ := count * 1000000

/-- The status of a trial whose last execution failed. -/
def failedTrialState [Jitter] (lock : CampaignLock) (execution : ExecutionProjection)
    (executionCount : ℕ) : Except CampaignError (TrialStatus × Option ℕ) :=
  match execution.category with
  | none => .ok (.failedInfrastructure, none)
  | some category =>
    if category = .agent ∨ category = .benchmark then .ok (.invalid, none)
    else if category.retryable = false then .ok (.failedInfrastructure, none)
    else if lock.recoveryPolicy.maxPhysicalExecutionsPerTrial ≤ executionCount then
      .ok (.failedInfrastructure, none)
    else do
      let delay ← retryDelaySeconds lock category execution.physicalAttempt execution.executionId
        execution.retryAfterSeconds
      return (.retryWait, some (execution.observedAt + seconds delay))

/-- A dictionary of executions by their identifiers. -/
def executionMap (executions : List ExecutionProjection) : Dict String ExecutionProjection :=
  executions.foldl (fun map execution ↦ map.set execution.executionId execution) []

/-- Derive a trial from its executions. -/
def deriveTrial [Jitter] (lock : CampaignLock) (trial : TrialProjection)
    (executions : List ExecutionProjection) : Except CampaignError TrialProjection :=
  let ordered := executions.insertionSort fun first second ↦
    first.physicalAttempt ≤ second.physicalAttempt
  if ordered.map ExecutionProjection.physicalAttempt ≠ List.range' 1 ordered.length then
    .error (.value "physical execution attempts must be contiguous")
  -- a completed execution is the last one
  else if (ordered.dropLast.any fun execution ↦ execution.status = .completed) &&
      !(ordered.getLast?.any fun execution ↦ execution.status = .completed) then
    .error (.value "a completed logical trial was physically re-executed")
  else if trial.status.terminal then
    .ok { trial with
      executions := executionMap ordered
      outcome := taskOutcome trial.status ordered }
  else
    match ordered.getLast? with
    | none => .ok trial
    | some latest =>
      if ordered.any fun execution ↦ execution.status = .completed then
        .ok { trial with
          status := .complete
          executions := executionMap ordered
          outcome := some .scored }
      else do
        let (status, retryAt) ← match latest.status with
          | .active => Except.ok (TrialStatus.active, none)
          | .cancelled => .ok (.cancelled, none)
          | _ => failedTrialState lock latest ordered.length
        return { trial with
          status := status
          executions := executionMap ordered
          retryNotBefore := retryAt
          outcome := taskOutcome status ordered }

/-- A dictionary's value, or the error of a missing key. -/
def getItem {υ : Type} (dict : Dict String υ) (key : String) : Except CampaignError υ :=
  match dict.get? key with
  | none => .error (.key key)
  | some value => .ok value

/-- The executions of a trial in the order of their starts. -/
def executionsOf (executions : Dict String ExecutionProjection) (trialId : String) :
    List ExecutionProjection :=
  executions.values.filter fun execution ↦ execution.trialId = trialId

def deriveTrials [Jitter] (lock : CampaignLock) (trials : Dict String TrialProjection)
    (executions : Dict String ExecutionProjection) :
    Except CampaignError (Dict String TrialProjection) :=
  trials.mapM fun entry ↦ do
    let trial ← deriveTrial lock entry.2 (executionsOf executions entry.1)
    return (entry.1, trial)

/-! ### Retry requests -/

/-- The trials of a locked shard; a later shard replaces one with its id. -/
def lockedTrialIds (lock : CampaignLock) (shardId : String) : Option (List String) :=
  (lock.shards.filter fun shard ↦ shard.shardId = shardId).getLast?.map fun shard ↦
    shard.trials.map CampaignTrialLock.trialId

/-- The generations a retry request names, checked against its shard. -/
def validatedRetryGenerations (lock : CampaignLock) (payload : ShardRetryPayload)
    (trials : Dict String TrialProjection) : Except CampaignError (Dict String ℕ) :=
  match lockedTrialIds lock payload.shardId with
  | none => .error (.value "retry request references an unknown shard")
  | some allowed =>
    if payload.trialGenerations.any fun entry ↦
        entry.1 ∉ allowed ∨ entry.2 < 1 ∨
          ((trials.get? entry.1).map fun trial ↦ trial.executions.length).getD 0 < entry.2 then
      .error (.value "retry request generations do not match the requested shard state")
    else .ok payload.trialGenerations

/-- The generations of a request that names none: those of the trials that wait for a retry. -/
def legacyGenerations [Jitter] (lock : CampaignLock) (state : RecoveryState) (shardId : String) :
    Except CampaignError (Dict String ℕ) :=
  match state.shards.get? shardId with
  | none => .error (.value "retry request references an unknown shard")
  | some shard =>
    shard.trialIds.foldlM (fun generations trialId ↦ do
      let trial ← getItem state.trials trialId
      let current ← deriveTrial lock trial (executionsOf state.executions trialId)
      return if current.status = .retryWait then
          generations.set trialId current.executions.length
        else generations) []

/-- The forward pass of `_legacy_retry_generations`, by event. -/
def legacyStep [Jitter] (lock : CampaignLock)
    (progress : RecoveryState × Dict String (Dict String ℕ)) (event : CampaignEvent) :
    Except CampaignError (RecoveryState × Dict String (Dict String ℕ)) := do
  let generations ← match event.body with
    | .shardRetryRequested payload => do
      let found ← legacyGenerations lock progress.1 payload.shardId
      .ok (progress.2.set event.eventId found)
    | _ => .ok progress.2
  let state ← progress.1.applyEvent event
  return (state, generations)

def legacyRetryGenerations [Jitter] (lock : CampaignLock) (ordered : List CampaignEvent) :
    Except CampaignError (Dict String (Dict String ℕ)) := do
  let progress ← ordered.foldlM (legacyStep lock) (initialState lock, [])
  return progress.2

/-- The request names no generations. -/
def CampaignEvent.legacyRetry (event : CampaignEvent) : Bool :=
  match event.body with
  | .shardRetryRequested payload => payload.trialGenerations.isEmpty
  | _ => false

/-- Take one request into the table of requested generations. -/
def requestStep (lock : CampaignLock) (trials : Dict String TrialProjection)
    (legacy : Dict String (Dict String ℕ)) (requestedAt : Dict (String × ℕ) ℕ)
    (event : CampaignEvent) : Except CampaignError (Dict (String × ℕ) ℕ) :=
  match event.body with
  | .shardRetryRequested payload => do
    let generations ←
      if payload.trialGenerations.isEmpty then getItem legacy event.eventId
      else validatedRetryGenerations lock payload trials
    return generations.foldl (fun requestedAt entry ↦
      requestedAt.set entry
        (max ((requestedAt.get? entry).getD event.observedAt) event.observedAt)) requestedAt
  | _ => .ok requestedAt

/-- Reopen a trial for which a retry was requested. -/
def reopenTrial [Jitter] (lock : CampaignLock) (requestedAt : Dict (String × ℕ) ℕ)
    (trial : TrialProjection) (trialId : String) : Except CampaignError TrialProjection :=
  match ((requestedAt.keys.filter fun key ↦ key.1 = trialId).map Prod.snd).max? with
  | none => .ok trial
  | some generation =>
    if trial.executions.length < generation then
      .error (.value "retry request generation exceeds physical execution state")
    else do
      let derived ← deriveTrial lock
        { trial with status := .planned, retryNotBefore := none, outcome := none }
        trial.executions.values
      return if generation = trial.executions.length ∧ derived.status = .retryWait then
          { derived with retryNotBefore := requestedAt.get? (trialId, generation) }
        else derived

def applyRetryRequests [Jitter] (lock : CampaignLock) (ordered : List CampaignEvent)
    (trials : Dict String TrialProjection) : Except CampaignError (Dict String TrialProjection) := do
  let legacy ←
    if ordered.any CampaignEvent.legacyRetry then legacyRetryGenerations lock ordered else .ok []
  let requestedAt ← ordered.foldlM (requestStep lock trials legacy) []
  trials.mapM fun entry ↦ do
    let trial ← reopenTrial lock requestedAt entry.2 entry.1
    return (entry.1, trial)

/-! ### Shards and runs -/

def ShardStatus.settled : ShardStatus → Option TrialOutcome
  | complete => some .complete
  | invalid => some .invalid
  | failedInfrastructure => some .failedInfrastructure
  | cancelled => some .cancelled
  | _ => none

def LifecycleStatus.settled : LifecycleStatus → Option TrialOutcome
  | complete => some .complete
  | invalid => some .invalid
  | failedInfrastructure => some .failedInfrastructure
  | cancelled => some .cancelled
  | _ => none

def TrialOutcome.shard : TrialOutcome → ShardStatus
  | complete => .complete
  | invalid => .invalid
  | failedInfrastructure => .failedInfrastructure
  | cancelled => .cancelled

def TrialOutcome.run : TrialOutcome → RunStatus
  | complete => .complete
  | invalid => .invalid
  | failedInfrastructure => .failedInfrastructure
  | cancelled => .cancelled

/-- The end counts for the score. -/
def scored (settled : Option TrialOutcome) : Bool := settled.isSome && settled != some .cancelled

/-- The status above children that are all scored. -/
def scoredTerminalStatus (children : List (Option TrialOutcome)) : Option TrialOutcome :=
  if children.all scored = false then none
  else if some .complete ∈ children then some .complete
  else if some .failedInfrastructure ∈ children then some .failedInfrastructure
  else some .invalid

/-- An observed end needs children that ended. -/
def validateObservedTerminal (observed : Option LifecycleStatus)
    (children : List (Option TrialOutcome)) (subject : String) : Except CampaignError Unit :=
  match observed.bind LifecycleStatus.settled with
  | none => .ok ()
  | some outcome =>
    if children.all Option.isSome = false then
      .error (.value (subject ++ " became terminal before its children"))
    else if outcome = .complete ∧ (children.all scored = false ∨ some .complete ∉ children) then
      .error (.value (subject ++ " completed with non-complete children"))
    else .ok ()

def aggregateShard (shard : ShardProjection) (trials : Dict String TrialProjection) :
    Except CampaignError ShardStatus := do
  let statuses ← shard.trialIds.mapM fun trialId ↦ do
    let trial ← getItem trials trialId
    return trial.status
  let children := statuses.map TrialStatus.settled
  validateObservedTerminal shard.observedStatus children "shard"
  match scoredTerminalStatus children with
  | some outcome => return outcome.shard
  | none =>
    return if children.all Option.isSome then .cancelled
      else if TrialStatus.active ∈ statuses then .active
      else if TrialStatus.retryWait ∈ statuses then .retryWait
      else (shard.observedStatus.map LifecycleStatus.shard).getD .planned

def deriveShards (shards : Dict String ShardProjection) (trials : Dict String TrialProjection) :
    Except CampaignError (Dict String ShardProjection) :=
  shards.mapM fun entry ↦ do
    let status ← aggregateShard entry.2 trials
    return (entry.1, { entry.2 with status := status })

def aggregateRun (run : RunProjection) (shards : Dict String ShardProjection) :
    Except CampaignError RunStatus := do
  let statuses ← run.shardIds.mapM fun shardId ↦ do
    let shard ← getItem shards shardId
    return shard.status
  let children := statuses.map ShardStatus.settled
  validateObservedTerminal run.observedStatus children "run"
  match scoredTerminalStatus children with
  | some outcome => return outcome.run
  | none =>
    return if children.all Option.isSome then .cancelled
      else if ShardStatus.active ∈ statuses ∨ ShardStatus.retryWait ∈ statuses then .active
      else (run.observedStatus.map LifecycleStatus.run).getD .planned

def deriveRuns (runs : Dict String RunProjection) (shards : Dict String ShardProjection) :
    Except CampaignError (Dict String RunProjection) :=
  runs.mapM fun entry ↦ do
    let status ← aggregateRun entry.2 shards
    return (entry.1, { entry.2 with status := status })

/-! ### The decision -/

def projectionCounts (trials : Dict String TrialProjection) : ProjectionCounts :=
  let count (status : TrialStatus) : ℕ :=
    (trials.values.filter fun trial ↦ trial.status = status).length
  let executions := (trials.values.map fun trial ↦ trial.executions.length).sum
  let started := (trials.values.filter fun trial ↦ trial.executions ≠ []).length
  { planned := count .planned
    active := count .active
    retrying := count .retryWait
    complete := count .complete
    invalid := count .invalid
    failed := count .failedInfrastructure
    cancelled := count .cancelled
    physicalRetries := executions - started }

/-- What is planned or retried counts as cancelled once the campaign is. -/
def terminalCounts (status : CampaignStatus) (counts : ProjectionCounts) : ProjectionCounts :=
  match status with
  | .cancelRequested | .draining | .cancelled | .partly =>
    { counts with
      planned := 0
      retrying := 0
      cancelled := counts.cancelled + counts.planned + counts.retrying }
  | _ => counts

/-- The wave of an action. -/
def waveIdOf (actionKey : String) : String := "wave-" ++ actionKey

/-- A submission or a retry of a wave. -/
def ActionKind.billable : ActionKind → Bool
  | submitWave | retryShard => true
  | _ => false

/-- Every wave that was or may have been started is closed. -/
def cleanupIsComplete (campaign : CampaignProjection) (waves : Dict String WaveProjection) : Bool :=
  (campaign.actions.values.all fun action ↦
    !action.actionKind.billable || decide (action.status = .failed) ||
      (waves.get? (waveIdOf action.actionKey)).any fun wave ↦ wave.status = .closed) &&
    waves.values.all fun wave ↦ wave.status = .closed

def TerminalStatus.marker : TerminalStatus → String
  | completed => "_SUCCESS"
  | partly => "_PARTIAL"
  | failed => "_FAILED"
  | cancelled => "_CANCELLED"

def decision (lock : CampaignLock) (status : TerminalStatus) (counts : ProjectionCounts)
    (reason : String) : TerminalDecision :=
  { status := status
    marker := status.marker
    summaryPath := lock.artifactPrefix ++ "/campaign-summary.json"
    markerPath := lock.artifactPrefix ++ "/" ++ status.marker
    reason := reason
    counts := counts }

def CampaignStatus.recorded : CampaignStatus → Option TerminalStatus
  | completed => some .completed
  | partly => some .partly
  | failed => some .failed
  | cancelled => some .cancelled
  | _ => none

def terminalDecision (lock : CampaignLock) (campaign : CampaignProjection)
    (runs : Dict String RunProjection) (trials : Dict String TrialProjection)
    (waves : Dict String WaveProjection) (counts : ProjectionCounts) : Option TerminalDecision :=
  match campaign.status.recorded with
  | some status =>
    some (decision lock status (terminalCounts campaign.status counts) "recorded")
  | none =>
    if cleanupIsComplete campaign waves = false then none
    else
      let counts := terminalCounts campaign.status counts
      let cancelling := campaign.status = .cancelRequested ∨ campaign.status = .draining
      let statuses := runs.values.map RunProjection.status
      if trials.values.any fun trial ↦ !trial.status.terminal &&
          !(decide cancelling &&
            (decide (trial.status = .planned) || decide (trial.status = .retryWait))) then none
      else if statuses ≠ [] ∧ ∀ status ∈ statuses, status = .complete then
        some (decision lock .completed counts
          "all logical trials reached a scored terminal outcome")
      else if cancelling ∧ counts.complete ≠ 0 then
        some (decision lock .partly counts "cancellation preserved some scored trial outcomes")
      else if RunStatus.complete ∈ statuses then
        some (decision lock .partly counts "some runs reached a scored outcome")
      else if cancelling ∨ counts.cancelled ≠ 0 then
        some (decision lock .cancelled counts "cancellation drained and cleaned")
      else some (decision lock .failed counts "no valid logical trial completed")

/-! ### The projection -/

/-- The status of the campaign by its waves and executions. -/
def observedStatus (status : CampaignStatus) (state : RecoveryState) : CampaignStatus :=
  let status := if status.terminal = false ∧
      (state.waves.values.any fun wave ↦ wave.status = .cleanupFailed) then .manualIntervention
    else status
  if status = .queued ∧ (state.executions ≠ [] ∨ state.waves ≠ []) then .active else status

def cancelRequestedAt (ordered : List CampaignEvent) : Option ℕ :=
  (ordered.find? fun event ↦ match event.body with
    | .cancelRequested _ => true
    | _ => false).map CampaignEvent.observedAt

/-- The state of a campaign, read off its log. -/
def projectRecovery [Jitter] (lock : CampaignLock) (events : List CampaignEvent) :
    Except CampaignError RecoveryProjection := do
  let campaign ← projectCampaign lock events
  let ordered ← orderedEvents events
  let state ← ordered.foldlM RecoveryState.applyEvent (initialState lock)
  let trials ← deriveTrials lock state.trials state.executions
  let trials ← applyRetryRequests lock ordered trials
  let shards ← deriveShards state.shards trials
  let runs ← deriveRuns state.runs shards
  let campaign := { campaign with status := observedStatus campaign.status state }
  let counts := projectionCounts trials
  return {
    campaign := campaign
    runs := runs
    shards := shards
    trials := trials
    executions := state.executions
    waves := state.waves
    spendMicrousd := state.spendMicrousd
    counts := counts
    cancelRequestedAt := cancelRequestedAt ordered
    terminalDecision := terminalDecision lock campaign runs trials state.waves counts }

end HarborHF.Campaign
