import HarborHF.Control.Submission

/-!
# The reconciler

`tick` drives every action to its end: it finishes the follow-up work of recorded receipts, executes
pending intents and publishes campaigns whose tasks are all terminal. `handle` executes one intent,
`executeJobLaunch` launches a Job behind the dispatch fence, and `advance` is the follow-up work of a
receipt: the next observation, the attempts of a finished Job and their replacements, and
`continueCancellation`, which seals the open tasks of a cancelled campaign once no Job of it is
active.

The methods follow the source; `Date.now` is the clock of the environment.
-/

set_option autoImplicit false

namespace HarborHF.Control

open Async Program

structure ReconcilerOptions where
  observationIntervalMs : ℕ := 5000
  batchSize : ℕ := 16
  dispatchAdoptionDelayMs : Option ℕ := none
  workerReceiptGraceMs : Option ℕ := some 60000
  deriving DecidableEq

/-- The states in which a Job has ended. -/
def terminalJobStates : List String := ["STOPPED", "COMPLETED", "CANCELLED", "CANCELED", "ERROR"]

def jobStateIsTerminal (state : Option String) : Bool :=
  state.any fun text ↦ terminalJobStates.contains (toUpperCase text)

/-! ### Awaited calls and payload fields -/

/-- Call the external port. -/
def callPort (method : PortMethod) (intent : ActionIntent) (adoptionOnly : Bool) :
    Act (Except PortError PortOutput) := .await (.port ⟨method, intent, adoptionOnly⟩) .ret

/-- Execute an action through the port, and throw its error. -/
def executeExternal (intent : ActionIntent) : Act ExternalActionResult := do
  let answer ← callPort .execute intent false
  match answer with
  | .ok output => return output.external
  | .error error => .throw (.port error)

/-- The tasks of an action. -/
def requiredTaskIds (payload : ActionPayload) : Except ServiceError (List String) :=
  match payload.taskIds with
  | some taskIds => .ok taskIds
  | none => .error (.policy "action payload task_ids must be an array of strings")

/-- A field an action must have. -/
def requiredField {α : Type} (value : Option α) (name expected : String) : Except ServiceError α :=
  match value with
  | some found => .ok found
  | none => .error (.policy ("action payload " ++ name ++ " must be " ++ expected))

/-- The specification of a kind of profile in a lock. -/
def lockedProfile (lock : CampaignLock) (kind : ProfileKind) : Except ServiceError ProfileSpec :=
  match lock.profiles.find? fun profile ↦ profile.kind = kind with
  | some profile => .ok profile.spec
  | none => .error (.policy ("campaign lock is missing " ++ kind.name))

def lockedDeployment (lock : CampaignLock) : Except ServiceError (Option HfJobDeployment) :=
  match lockedProfile lock .deployment with
  | .error error => .error error
  | .ok (.hfJob spec) => .ok (some spec)
  | .ok _ => .ok none

def lockedPolicy (lock : CampaignLock) : Except ServiceError LaunchPolicySpec :=
  match lockedProfile lock .launchPolicy with
  | .error error => .error error
  | .ok (.launchPolicy spec) => .ok spec
  | .ok _ => .error (.policy "profile reservation_microusd must be number")

section

variable [Digests]

def requiredLock (campaignId : String) : Act CampaignLock := do
  let lock : Option CampaignLock ← ask (.campaignLock campaignId)
  match lock with
  | none => policyError ("campaign lock is missing: " ++ campaignId)
  | some record => return record

/-! ### Launches -/

/-- Reserve a launch of the campaign's plan. The ceiling was checked when it was submitted. -/
def reserveInitialAction (campaignId category : String) (generation amount createdAt : ℕ) :
    Act Unit :=
  if amount = 0 then .ret ()
  else do
    let _ ← append (.budgetEvent (budgetEvent campaignId
      (deterministicId "budget" [campaignId, category, toString generation]) .reserve amount
      createdAt))
    return ()

/-- The payload of a preparation launch. -/
def preparationPayload (lock : CampaignLock) (deployment : HfJobDeployment)
    (policy : LaunchPolicySpec) (attempt : ℕ) : Except ServiceError ActionPayload :=
  match deployment.preparationJobCommand, deployment.preparationTimeoutSeconds,
    deployment.workerRevision with
  | some command, some timeout, some revision =>
    .ok
      { workerRole := some .preparation
        preparationAttempt := some attempt
        taskIds := some (lock.tasks.map (·.taskId))
        timeoutSeconds := some timeout
        successWithoutWorkerReceipt := some true
        maxInfrastructureAttempts := some (policy.maxPreparationAttempts.getD 1)
        reservationMicrousd := some (policy.preparationReservationMicrousd.getD 0)
        rest := [deployment.jobImage] ++ command ++
          [deployment.hardware, toString deployment.trustedWorker, revision,
            recordDigest (.campaignLock lock)] }
  | none, _, _ =>
    .error (.policy "profile preparation_job_command must be a non-empty array of strings")
  | _, none, _ => .error (.policy "profile preparation_timeout_seconds must be number")
  | _, _, none => .error (.policy "profile worker_revision must be string")

def launchPreparation (lock : CampaignLock) (createdAt attempt : ℕ) : Act Unit := do
  let deployment ← ofExcept (lockedDeployment lock)
  let policy ← ofExcept (lockedPolicy lock)
  match deployment with
  | none => policyError "profile job_image must be string"
  | some spec =>
    reserveInitialAction lock.campaignId "preparation" attempt
      (policy.preparationReservationMicrousd.getD 0) createdAt
    let payload ← ofExcept (preparationPayload lock spec policy attempt)
    let intent ← serviceIntent lock.campaignId .jobLaunch "campaign-preparation" attempt payload
    writeAction intent

/-- The key of a batch of tasks. -/
def batchKey (taskIds : List String) : String :=
  String.ofList (((sha256 (canonicalStrings taskIds)).toList.drop 7).take 16)

/-- Launch one batch of tasks. -/
def launchBatch (lock : CampaignLock) (deployment : HfJobDeployment) (createdAt generation : ℕ)
    (taskIds : List String) : Act Unit := do
  let policy ← ofExcept (lockedPolicy lock)
  reserveInitialAction lock.campaignId ("execution-" ++ batchKey taskIds) generation
    policy.reservationMicrousd createdAt
  let prepared ← requirePrepared deployment lock.campaignId
  let target :=
    if taskIds.length = lock.tasks.length then "campaign-tasks"
    else "campaign-tasks-" ++ batchKey taskIds
  let intent ← serviceIntent lock.campaignId .jobLaunch target generation
    (executionPayload deployment policy lock prepared taskIds)
  writeAction intent

/-- Split tasks into batches of at most `size`. -/
def batches (size : ℕ) : ℕ → List String → List (List String)
  | 0, _ => []
  | _, [] => []
  | fuel + 1, taskIds => taskIds.take size :: batches size fuel (taskIds.drop size)

/-- Launch the Jobs of a campaign's tasks, in batches of the deployment's size. -/
def launchExecution (lock : CampaignLock) (createdAt generation : ℕ) : Act Unit := do
  let deployment ← ofExcept (lockedDeployment lock)
  match deployment with
  | none => policyError "imported deployments cannot launch execution Jobs"
  | some spec =>
    let taskIds := lock.tasks.map (·.taskId)
    let maximum := spec.workerMaxTasksPerJob.getD taskIds.length
    if maximum < taskIds.length then
      (batches maximum taskIds.length taskIds).forM (launchBatch lock spec createdAt generation)
    else launchBatch lock spec createdAt generation taskIds

/-- The first launch of an admitted campaign. -/
def admitCampaign (admission : ActionIntent) (receipt : ActionReceipt) : Act Unit := do
  let lock ← requiredLock admission.campaignId
  let deployment ← ofExcept (lockedDeployment lock)
  if deployment.any (·.preparationRequired) then launchPreparation lock receipt.createdAt 0
  else launchExecution lock receipt.createdAt 0

/-! ### Observations -/

/-- Observe a launched Job. -/
def observeJob (options : ReconcilerOptions) (launch : ActionIntent) (receipt : ActionReceipt) :
    Act Unit :=
  match receipt.resourceId with
  | none => policyError "job launch receipt has no remote identity"
  | some resourceId =>
    if resourceId = "" then policyError "job launch receipt has no remote identity"
    else do
      let intent ← serviceIntent launch.campaignId .jobObserve resourceId 0
        { launch.payload with
          resourceId := some resourceId
          launchActionId := some launch.actionId
          notBefore := some (receipt.createdAt + options.observationIntervalMs) }
      writeAction intent

/-- Observe a Job again, with the payload of the last observation. -/
def observeAgain (intent : ActionIntent) (payload : ActionPayload) : Act Unit := do
  let next ← serviceIntent intent.campaignId .jobObserve intent.target (intent.generation + 1) payload
  writeAction next

/-- Every task of a Job has an attempt of its worker. -/
def allWorkerAttemptsPresent (intent : ActionIntent) : Act Bool := do
  let _ ← syncProjection
  let taskIds ← ofExcept (requiredTaskIds intent.payload)
  let launchActionId ←
    ofExcept (requiredField intent.payload.launchActionId "launch_action_id" "string")
  let attempts : List AttemptReceipt ← ask (.campaignAttempts intent.campaignId)
  return taskIds.all fun taskId ↦
    attempts.any fun record ↦ record.taskId = taskId ∧ record.actionId = launchActionId

/-! ### Attempts of finished Jobs -/

/-- Replace an eligible infrastructure failure by a new Job, or close its task. -/
def replaceAttempt (record : AttemptReceipt) (source : ActionIntent) : Act Unit := do
  let recorded : Option ActionRow ← ask (.retryActionForAttempt record.campaignId record.attemptId)
  if recorded.isSome then return ()
  else
    let known : List AttemptReceipt ← ask (.campaignAttempts record.campaignId)
    let attempts := known.filter fun other ↦ other.taskId = record.taskId
    let maximum ← ofExcept
      (requiredField source.payload.maxInfrastructureAttempts "max_infrastructure_attempts" "number")
    if attempts.length < maximum then
      let reservation ← ofExcept
        (requiredField source.payload.reservationMicrousd "reservation_microusd" "number")
      let reserved ←
        reserveReplacement record.campaignId record.attemptId record.createdAt reservation
      if !reserved then
        let _ ← selectTerminal record "replacement Job would exceed the campaign ceiling"
        return ()
      else
        let retry ← serviceIntent record.campaignId .jobLaunch record.taskId attempts.length
          { source.payload with
            taskIds := some [record.taskId]
            priorAttemptId := some record.attemptId }
        writeAction retry
    else
      let _ ← selectTerminal record "infrastructure retry budget exhausted"
      return ()

/-- What follows from an attempt: its replacement, or the end of its task. -/
def finishAttempt (record : AttemptReceipt) (source : ActionIntent) : Act Unit :=
  if record.outcome = .infrastructure ∧ record.replacementEligible = true then
    withQueue .retryAdmission (replaceAttempt record source)
  else do
    let _ ← selectTerminal record
      (if record.outcome = .infrastructure then "non-retryable infrastructure outcome"
        else "valid terminal worker outcome")
    return ()

/-- The launch whose Job an intent belongs to. -/
def launchActionOf (intent : ActionIntent) : Except ServiceError String :=
  if intent.actionKind = .jobLaunch then .ok intent.actionId
  else requiredField intent.payload.launchActionId "launch_action_id" "string"

/-- Finish one task of a Job: with the attempt its worker recorded, or with a fallback. -/
def completeTask (intent : ActionIntent) (receipt : ActionReceipt) (fallback : AttemptOutcome)
    (replacementEligible : Bool) (known : List AttemptReceipt) (taskId : String) : Act Unit := do
  let task : Option TaskView ← ask (.task intent.campaignId taskId)
  match task with
  | none => return ()
  | some view =>
    if view.task.terminalOutcome.isSome then return ()
    else
      let launchActionId ← ofExcept (launchActionOf intent)
      let workerAttempt := (known.filter fun record ↦
        record.taskId = taskId ∧ record.actionId = launchActionId).getLast?
      match workerAttempt.filter fun record ↦
        decide (some record.attemptId ≠ view.task.selectedAttemptId) with
      | some record => finishAttempt record intent
      | none =>
        let record ← attempt
          { campaignId := intent.campaignId
            taskId := taskId
            attemptId := deterministicId "attempt" [intent.campaignId, taskId, intent.actionId]
            actionId := launchActionId
            outcome := fallback
            replacementEligible := replacementEligible
            evidenceDigest := recordDigest (.actionReceipt receipt)
            evidencePath := (Record.actionReceipt receipt).key.path
            costMicrousd := receipt.costMicrousd.getD 0
            metrics := []
            completedAt := receipt.createdAt }
          serviceActor
        finishAttempt record intent

/-- Finish the tasks of a Job. -/
def completeTasksFromJob (intent : ActionIntent) (receipt : ActionReceipt)
    (fallback : AttemptOutcome) (replacementEligible : Bool) : Act Unit := do
  let taskIds ← ofExcept (requiredTaskIds intent.payload)
  let known : List AttemptReceipt ← ask (.campaignAttempts intent.campaignId)
  taskIds.forM (completeTask intent receipt fallback replacementEligible known)

/-- What follows from a preparation Job that ended: the execution launch, a grace period for its last
submission, another preparation, or the end of the campaign's tasks. -/
def finishPreparation (options : ReconcilerOptions) (intent : ActionIntent) (receipt : ActionReceipt)
    (successful : Bool) : Option PreparedJob → Act Unit
  | some job => do
    let lock ← requiredLock intent.campaignId
    if job.campaignLockDigest ≠ recordDigest (.campaignLock lock) then
      policyError "prepared job does not match the campaign lock"
    else launchExecution lock receipt.createdAt 0
  | none => do
    let cancelling : Bool ← ask (.hasCampaignAction intent.campaignId .campaignCancel)
    let grace := options.workerReceiptGraceMs.getD 0
    if successful = true ∧ cancelling = false ∧ intent.payload.workerReceiptDeadline = none ∧
        0 < grace then
      observeAgain intent
        { intent.payload with
          notBefore := some (receipt.createdAt + grace)
          workerReceiptDeadline := some (receipt.createdAt + grace) }
    else
      let attempt := intent.payload.preparationAttempt.getD 0
      let maximum ← ofExcept
        (requiredField intent.payload.maxInfrastructureAttempts "max_infrastructure_attempts" "number")
      if cancelling = false ∧ attempt + 1 < maximum then
        let lock ← requiredLock intent.campaignId
        launchPreparation lock receipt.createdAt (attempt + 1)
      else completeTasksFromJob intent receipt .infrastructure false

/-- The end of a preparation Job, whose prepared job is looked for when it stopped by itself. -/
def handlePreparationTerminal (options : ReconcilerOptions) (intent : ActionIntent)
    (receipt : ActionReceipt) (state : String) : Act Unit :=
  if state = "STOPPED" ∨ state = "COMPLETED" then do
    let prepared ← preparedJob intent.campaignId
    finishPreparation options intent receipt true prepared
  else finishPreparation options intent receipt false none

/-- The end of an execution Job that stopped by itself: a grace period for the receipts of its
worker, then the end of its tasks. -/
def handleStoppedJob (options : ReconcilerOptions) (intent : ActionIntent)
    (receipt : ActionReceipt) : Act Unit := do
  let successful ← ofExcept (requiredField intent.payload.successWithoutWorkerReceipt
    "success_without_worker_receipt" "boolean")
  let present ← allWorkerAttemptsPresent intent
  let cancelling : Bool ← ask (.hasCampaignAction intent.campaignId .campaignCancel)
  let grace := options.workerReceiptGraceMs.getD 0
  if successful = false ∧ present = false ∧ cancelling = false ∧
      intent.payload.workerReceiptDeadline = none ∧ 0 < grace then
    observeAgain intent
      { intent.payload with
        notBefore := some (receipt.createdAt + grace)
        workerReceiptDeadline := some (receipt.createdAt + grace) }
  else
    completeTasksFromJob intent receipt (if successful then .complete else .infrastructure)
      (!successful)

/-- What follows from the observation of a Job. -/
def handleJobObservation (options : ReconcilerOptions) (intent : ActionIntent)
    (receipt : ActionReceipt) : Act Unit :=
  let state := toUpperCase receipt.observedState
  if receipt.outcome = .failed ∨ jobStateIsTerminal (some state) = false then
    observeAgain intent
      { intent.payload with notBefore := some (receipt.createdAt + options.observationIntervalMs) }
  else if intent.payload.workerRole = some .preparation then
    handlePreparationTerminal options intent receipt state
  else if state = "STOPPED" ∨ state = "COMPLETED" then handleStoppedJob options intent receipt
  else completeTasksFromJob intent receipt .infrastructure true

/-! ### Cleanup and cancellation -/

/-- Receipt for a data action of a Sandbox that is being cleaned up. -/
def suppressDataAction (row : ActionRow) : Act Unit := do
  let dispatched : Option ActionDispatch ← ask (.actionDispatch row.intent.actionId)
  let record ← receipt row.intent
    { outcome := .completed
      observedState :=
        if dispatched.isSome then "suppressed-sandbox-cleanup-ambiguous"
        else "suppressed-sandbox-cleanup-before-dispatch" }
  let _ ← markAdvanced row.intent record
  return ()

/-- A close of a Sandbox whose receipt says that it ended. -/
def closeEnded (row : ActionRow) : Bool :=
  decide (row.outcome = some .completed) && jobStateIsTerminal row.observedState

/-- Close one created Sandbox, unless it is closed; whether it is still open. -/
def closeSandbox (campaignId : String) (actions : List ActionRow) (create : ActionRow) : Act Bool :=
  let closes := actions.filter fun row ↦
    decide (row.intent.actionKind = .sandboxClose ∧
      row.intent.payload.sandboxCreateActionId = some create.intent.actionId)
  if closes.any closeEnded then .ret false
  else if closes.any fun row ↦ row.receipt.isNone then .ret true
  else
    match create.resourceId, create.intent.payload.taskId, create.intent.payload.sandbox with
    | some resourceId, some taskId, some policy =>
      if resourceId = "" then policyError "Sandbox create action is missing cleanup identity"
      else do
        let intent ← serviceIntent campaignId .sandboxClose resourceId closes.length
          { taskId := some taskId
            sandboxCreateActionId := some create.intent.actionId
            resourceId := some resourceId
            sandbox := some policy }
        writeAction intent
        return true
    | _, _, _ => policyError "Sandbox create action is missing cleanup identity"

/-- Close every created Sandbox; whether any is still open. -/
def closeSandboxes (campaignId : String) (actions : List ActionRow) : List ActionRow → Act Bool
  | [] => .ret false
  | create :: rest => do
    let here ← closeSandbox campaignId actions create
    let others ← closeSandboxes campaignId actions rest
    return here || others

/-- An action that reads or writes a Sandbox. -/
def isDataAction (kind : ActionKind) : Bool :=
  decide (kind = .sandboxExec ∨ kind = .sandboxWrite ∨ kind = .sandboxRead)

/-- Bring the Sandboxes of a campaign to their end; whether work is left. -/
def cleanupSandboxes (campaignId : String) (actions : List ActionRow) : Act Bool :=
  if actions.any fun row ↦
      decide (row.intent.actionKind = .sandboxCreate) && row.receipt.isNone then .ret true
  else
    let pendingData := actions.filter fun row ↦
      isDataAction row.intent.actionKind && row.receipt.isNone
    if pendingData.isEmpty then
      closeSandboxes campaignId actions (actions.filter fun row ↦
        decide (row.intent.actionKind = .sandboxCreate) && row.receipt.isSome &&
          row.resourceId.isSome)
    else do
      pendingData.forM suppressDataAction
      return true

/-- Bring the Sandboxes of a campaign to their end, from a fresh list of its actions. -/
def ensureSandboxCleanup (campaignId : String) : Act Bool := do
  let actions : List ActionRow ← ask (.campaignActions campaignId)
  cleanupSandboxes campaignId actions

/-- A Job that may still be running. -/
structure ActiveJob where
  resourceId : String
  launchActionId : String
  observedAt : ℕ
  deriving DecidableEq

/-- The completed observations and cancellations of a Job, the latest first. -/
def jobObservations (actions : List ActionRow) (resourceId : String) : List ActionRow :=
  actions.filter fun row ↦
    decide (row.intent.target = resourceId ∧
      (row.intent.actionKind = .jobObserve ∨ row.intent.actionKind = .jobCancel)) &&
      row.receipt.isSome

/-- The Job of a launch, unless its end was observed. -/
def activeJob (actions : List ActionRow) (launch : ActionRow) (resourceId : String) :
    Option ActiveJob :=
  let observations := jobObservations actions resourceId
  if observations.any fun row ↦ jobStateIsTerminal row.observedState then none
  else
    let latest := observations.head?
    let state := (latest.bind (·.observedState)).or launch.observedState
    if jobStateIsTerminal state then none
    else
      some ⟨resourceId, launch.intent.actionId,
        (latest.map (·.intent.createdAt)).getD launch.intent.createdAt⟩

/-- The Jobs of a campaign that may still be running, one for each resource. -/
def activeJobs (actions : List ActionRow) : List ActionRow → List ActiveJob → List ActiveJob
  | [], active => active
  | launch :: rest, active =>
    match launch.resourceId with
    | none => activeJobs actions rest active
    | some resourceId =>
      if resourceId = "" ∨ active.any fun job ↦ job.resourceId = resourceId then
        activeJobs actions rest active
      else
        match activeJob actions launch resourceId with
        | none => activeJobs actions rest active
        | some job => activeJobs actions rest (active ++ [job])

/-- The launches with a receipt that names a Job. -/
def resolvedLaunches (actions : List ActionRow) : List ActionRow :=
  actions.filter fun row ↦
    decide (row.intent.actionKind = .jobLaunch) && row.receipt.isSome && row.resourceId.isSome

/-- The launches without a receipt. -/
def unresolvedLaunches (actions : List ActionRow) : List ActionRow :=
  actions.filter fun row ↦ decide (row.intent.actionKind = .jobLaunch) && row.receipt.isNone

/-- Whether any of these launches was dispatched. -/
def anyDispatched : List ActionRow → Act Bool
  | [] => .ret false
  | launch :: rest => do
    let dispatch : Option ActionDispatch ← ask (.actionDispatch launch.intent.actionId)
    if dispatch.isSome then return true else anyDispatched rest

/-- The next generation of a family of actions. -/
def nextGeneration (rows : List ActionRow) : ℕ :=
  rows.foldl (fun next row ↦ max next (row.intent.generation + 1)) 0

/-- Cancel an active Job, unless a cancellation is pending. -/
def cancelJob (options : ReconcilerOptions) (campaignId : String) (actions : List ActionRow)
    (job : ActiveJob) : Act Unit :=
  let cancellations := actions.filter fun row ↦
    decide (row.intent.actionKind = .jobCancel ∧ row.intent.target = job.resourceId)
  if cancellations.any fun row ↦ row.receipt.isNone then .ret ()
  else if 1000000 < nextGeneration cancellations then
    policyError "Job cancellation action limit is exhausted"
  else do
    let intent ← serviceIntent campaignId .jobCancel job.resourceId (nextGeneration cancellations)
      { resourceId := some job.resourceId
        launchActionId := some job.launchActionId
        notBefore := some (job.observedAt + options.observationIntervalMs) }
    writeAction intent

/-- Seal one open task of a cancelled campaign. -/
def cancelTask (campaignId : String) (intent : ActionIntent) (receipt : ActionReceipt)
    (task : TaskRow) : Act Unit :=
  if task.terminalOutcome.isSome then .ret ()
  else do
    let record ← attempt
      { campaignId := campaignId
        taskId := task.taskId
        attemptId := deterministicId "attempt" [campaignId, task.taskId, intent.actionId]
        actionId := intent.actionId
        outcome := .cancelled
        replacementEligible := false
        evidenceDigest := recordDigest (.actionReceipt receipt)
        evidencePath := (Record.actionReceipt receipt).key.path
        costMicrousd := 0
        metrics := []
        completedAt := receipt.createdAt }
      serviceActor
    let _ ← selectTerminal record "operator cancellation"
    return ()

/-- Seal the open tasks of a cancelled campaign. -/
def cancelOpenTasks (campaignId : String) (intent : ActionIntent) (receipt : ActionReceipt) :
    Act Unit := do
  let tasks : List TaskRow ← ask (.tasks campaignId)
  tasks.forM (cancelTask campaignId intent receipt)

/-- The completed cancellation of a campaign. -/
def completedCancellation (actions : List ActionRow) : Option (ActionIntent × ActionReceipt) :=
  (actions.find? fun row ↦ decide (row.intent.actionKind = .campaignCancel) && row.receipt.isSome).bind
    fun row ↦ row.receipt.map fun receipt ↦ (row.intent, receipt)

/-- Carry a cancellation on: wait for dispatched launches, clean up Sandboxes, cancel active Jobs, and
at last seal the open tasks. -/
def continueCancellation (options : ReconcilerOptions) (campaignId : String) : Act Unit := do
  let actions : List ActionRow ← ask (.campaignActions campaignId)
  let dispatched ← anyDispatched (unresolvedLaunches actions)
  if dispatched then return ()
  else
    let cleaning ← cleanupSandboxes campaignId actions
    if cleaning then return ()
    else
      match activeJobs actions (resolvedLaunches actions) [] with
      | [] =>
        match completedCancellation actions with
        | none => return ()
        | some (intent, receipt) => cancelOpenTasks campaignId intent receipt
      | active => active.forM (cancelJob options campaignId actions)

/-! ### Endpoints and publication -/

/-- Record the observed state of an endpoint. -/
def recordEndpoint (intent : ActionIntent) (receipt : ActionReceipt) (resourceId : String)
    (readyReplicas : ℕ) : Act Unit := do
  let desired : DesiredState := if intent.actionKind = .endpointPause then .paused else .running
  let _ ← append (.endpointResource
    { recordId := deterministicId "endpoint" [intent.actionId]
      createdAt := receipt.createdAt
      actor := serviceActor
      campaignId := intent.campaignId
      actionId := intent.actionId
      endpointId := resourceId
      desiredState := desired
      observedState := receipt.observedState
      readyReplicas := readyReplicas
      cleanupVerified := decide (desired = .paused ∧ readyReplicas = 0)
      activeHourlyCostMicrousd := receipt.activeHourlyCostMicrousd.getD 0 })
  return ()

/-- What follows from the receipt of an endpoint action. -/
def advanceEndpoint (options : ReconcilerOptions) (intent : ActionIntent) (receipt : ActionReceipt) :
    Act Unit :=
  match receipt.readyReplicas, decide (receipt.outcome = .failed) with
  | some readyReplicas, false =>
    match receipt.resourceId with
    | some resourceId =>
      if resourceId = "" then .ret () else recordEndpoint intent receipt resourceId readyReplicas
    | none => .ret ()
  | _, _ => do
    let retry ← serviceIntent intent.campaignId intent.actionKind intent.target
      (intent.generation + 1)
      { intent.payload with notBefore := some (receipt.createdAt + options.observationIntervalMs) }
    writeAction retry

/-- Pause one endpoint, unless a pause is pending; whether an intent was written. -/
def pauseEndpoint (options : ReconcilerOptions) (campaignId : String) (actions : List ActionRow)
    (endpoint : EndpointRow) : Act Bool :=
  let pauses := actions.filter fun row ↦
    decide (row.intent.campaignId = campaignId ∧ row.intent.actionKind = .endpointPause ∧
      row.intent.target = endpoint.endpointId)
  if pauses.any fun row ↦ row.receipt.isNone then .ret false
  else if 1000000 < nextGeneration pauses then
    policyError "endpoint cleanup action limit is exhausted"
  else do
    let intent ← serviceIntent campaignId .endpointPause endpoint.endpointId (nextGeneration pauses)
      { endpointId := some endpoint.endpointId
        notBefore := some (endpoint.createdAt + options.observationIntervalMs) }
    writeAction intent
    return true

/-- Pause every endpoint that is not verified clean; whether an intent was written. -/
def pauseEndpoints (options : ReconcilerOptions) (campaignId : String) (actions : List ActionRow) :
    List EndpointRow → Act Bool
  | [] => .ret false
  | endpoint :: rest => do
    let here ← pauseEndpoint options campaignId actions endpoint
    let others ← pauseEndpoints options campaignId actions rest
    return here || others

def ensureEndpointCleanup (options : ReconcilerOptions) (campaignId : String) : Act Bool := do
  let rows : List EndpointRow ← ask (.endpoints 10000)
  let endpoints := rows.filter fun row ↦
    decide (row.campaignId = campaignId) && !row.cleanupVerified
  if endpoints.isEmpty then return false
  else
    let actions : List ActionRow ← ask (.actions 10000)
    pauseEndpoints options campaignId actions endpoints

/-- Publish a campaign whose tasks are all terminal, once its Sandboxes and endpoints are clean. -/
def maybePublish (options : ReconcilerOptions) (campaignId : String) : Act Bool := do
  let campaign : Option CampaignView ← ask (.campaign campaignId)
  if !(campaign.any fun view ↦
      decide (view.totalTasks ≠ 0 ∧ view.terminalTasks = view.totalTasks)) then return false
  else
    let sandboxes ← ensureSandboxCleanup campaignId
    if sandboxes then return true
    else
      let endpoints ← ensureEndpointCleanup options campaignId
      if endpoints then return true
      else
        let refreshed : Option CampaignView ← ask (.campaign campaignId)
        if !(refreshed.any fun view ↦
            decide (view.pendingActions = 0) && !view.cleanupPending) then return false
        else
          let published : Option PublicationReceipt ← ask (.campaignPublication campaignId)
          if published.isSome then return false
          else
            let recorded : Bool ← ask (.hasCampaignAction campaignId .publicationPublish)
            if recorded then return false
            else
              let intent ← serviceIntent campaignId .publicationPublish "results" 0 {}
              writeAction intent
              return true

/-- Publish a campaign's results (`ResultPublisher.publish`). The parquet objects and the catalog
entry are built by the environment. -/
def publish (campaignId : String) : Act PublicationReceipt := do
  let existing : Option PublicationReceipt ← ask (.campaignPublication campaignId)
  match existing.filter fun record ↦ decide (record.publicationState = .published) with
  | some record => return record
  | none =>
    let campaign : Option CampaignView ← ask (.campaign campaignId)
    if !(campaign.any fun view ↦
        decide (view.totalTasks ≠ 0 ∧ view.terminalTasks = view.totalTasks)) then
      .throw (.publication "campaign is not ready for publication")
    else
      .await (.buildPublication campaignId)
        fun (answer : Except ServiceError PublicationParts) ↦ do
          let parts ← ofExcept answer
          let publicationId := deterministicId "publication" [campaignId]
          let record : PublicationReceipt :=
            { recordId := deterministicId "publication-receipt" [publicationId]
              createdAt := parts.createdAt
              actor := serviceActor
              campaignId := campaignId
              publicationId := publicationId
              publicationState := .published
              catalogDigest := some parts.catalogDigest
              rest := parts.rest }
          let _ ← append (.publicationReceipt record)
          return record

/-! ### Executing an intent -/

/-- Why a launch must not create its Job any more. -/
inductive Suppression
  | cancelled | terminal
  deriving DecidableEq

def Suppression.name : Suppression → String
  | cancelled => "cancelled"
  | terminal => "terminal"

/-- Every task of a launch is terminal. -/
def tasksTerminal (campaignId : String) : List String → Act Bool
  | [] => .ret true
  | taskId :: rest => do
    let task : Option TaskView ← ask (.task campaignId taskId)
    if (task.bind fun view ↦ view.task.terminalOutcome).isNone then return false
    else tasksTerminal campaignId rest

def allActionTasksTerminal (intent : ActionIntent) : Act Bool := do
  let taskIds ← ofExcept (requiredTaskIds intent.payload)
  if taskIds.isEmpty then return false else tasksTerminal intent.campaignId taskIds

/-- Look for the Job of a launch that was dispatched before. -/
def adoptJob (intent : ActionIntent) (suppression : Option Suppression) (dispatch : ActionDispatch) :
    Act (Option ExternalActionResult) := do
  let time ← now
  if time < dispatch.adoptionNotBefore then return none
  else
    let answer ← callPort .execute intent true
    match answer with
    | .ok output => return some output.external
    | .error .notFound =>
      return suppression.map fun reason ↦
        { outcome := .completed, observedState := "suppressed-" ++ reason.name ++ "-not-found" }
    | .error .ambiguous => return none
    | .error error => .throw (.port error)

/-- Create the Job of a launch behind its dispatch fence. -/
def createJob (options : ReconcilerOptions) (intent : ActionIntent) :
    Act (Option ExternalActionResult) := do
  let time ← now
  let (_, created) ← dispatchAction intent (time + options.dispatchAdoptionDelayMs.getD 60000)
  if !created then return none
  else
    let answer ← callPort .execute intent false
    match answer with
    | .ok output => return some output.external
    | .error .ambiguous => return none
    | .error error => .throw (.port error)

/-- Launch a Job: adopt it when it was dispatched or is found, else create it behind the fence. -/
def executeJobLaunch (options : ReconcilerOptions) (intent : ActionIntent)
    (suppression : Option Suppression) : Act (Option ExternalActionResult) := do
  let dispatch : Option ActionDispatch ← ask (.actionDispatch intent.actionId)
  match dispatch with
  | some record => adoptJob intent suppression record
  | none =>
    let answer ← callPort .execute intent true
    match answer with
    | .ok output => return some output.external
    | .error .ambiguous => return none
    | .error .notFound => createJob options intent
    | .error error => .throw (.port error)

/-- The result of a job.launch intent; `none` when it stays pending. -/
def handleJobLaunch (options : ReconcilerOptions) (intent : ActionIntent) :
    Act (Option ExternalActionResult) := do
  let cancelled : Bool ← ask (.hasCampaignAction intent.campaignId .campaignCancel)
  let terminal ← allActionTasksTerminal intent
  let suppression : Option Suppression :=
    if cancelled then some .cancelled else if terminal then some .terminal else none
  match suppression with
  | none => executeJobLaunch options intent none
  | some reason =>
    let dispatch : Option ActionDispatch ← ask (.actionDispatch intent.actionId)
    if dispatch.isNone then
      return some { outcome := .completed, observedState := "suppressed-" ++ reason.name }
    else executeJobLaunch options intent (some reason)

/-- The reservation of a Sandbox create is durable and matches its policy. -/
def sandboxReserved (intent : ActionIntent) : Act Bool :=
  if intent.actionKind = .sandboxCreate then
    match intent.payload.sandbox with
    | none => policyError "Sandbox create is missing policy"
    | some policy => do
      let reservation : Option BudgetRow ←
        ask (.budget (sandboxReservationId intent.campaignId intent.actionId))
      match reservation with
      | none => return false
      | some row =>
        if row.eventKind ≠ .reserve ∨ row.amountMicrousd ≠ policy.reservationMicrousd then
          policyError "Sandbox reservation does not match policy"
        else return true
  else .ret true

/-- Dispatch a Sandbox action that was not dispatched before. -/
def fenceSandbox (options : ReconcilerOptions) (intent : ActionIntent) :
    Option ActionDispatch → Act Unit
  | some _ => .ret ()
  | none => do
    let time ← now
    let _ ← dispatchAction intent (time + options.observationIntervalMs)
    return ()

/-- A create that a worker's request may still be carrying out, or that may not be adopted yet. -/
def sandboxHeldOff (intent : ActionIntent) (dispatch : Option ActionDispatch) (time : ℕ) : Bool :=
  match dispatch with
  | none =>
    decide (intent.actionKind = .sandboxCreate ∧
      ("worker:".toList.isPrefixOf intent.actor.subject.toList) = true ∧
        time < intent.createdAt + 30000)
  | some _ => false

/-- The result of a create that the port did not find. -/
def sandboxNotFound (intent : ActionIntent) : Act ExternalActionResult := do
  let cancelled : Bool ← ask (.hasCampaignAction intent.campaignId .campaignCancel)
  return if cancelled then
      { outcome := .completed, observedState := "suppressed-cancelled-not-found" }
    else
      { outcome := .failed
        observedState := "sandbox-create-not-found"
        errorCode := some "sandbox_create_not_found" }

/-- Call the port for a Sandbox lifecycle action. -/
def executeSandbox (intent : ActionIntent) (adoptionOnly : Bool) :
    Act (Option ExternalActionResult) := do
  let answer ← callPort .execute intent adoptionOnly
  match answer with
  | .ok output => return some output.external
  | .error .notFound =>
    if intent.actionKind = .sandboxCreate then
      let result ← sandboxNotFound intent
      return some result
    else .throw (.port .notFound)
  | .error .ambiguous => return none
  | .error error => .throw (.port error)

/-- The result of a Sandbox lifecycle intent; `none` when it stays pending. -/
def handleSandbox (options : ReconcilerOptions) (intent : ActionIntent) :
    Act (Option ExternalActionResult) := do
  let reserved ← sandboxReserved intent
  if !reserved then return none
  else
    let dispatch : Option ActionDispatch ← ask (.actionDispatch intent.actionId)
    let time ← now
    if sandboxHeldOff intent dispatch time then return none
    else
      fenceSandbox options intent dispatch
      let later ← now
      if intent.actionKind = .sandboxCreate ∧
          (dispatch.any fun record ↦ decide (later < record.adoptionNotBefore)) = true then
        return none
      else
        executeSandbox intent (decide (intent.actionKind = .sandboxCreate) && dispatch.isSome)

/-- The result of an intent; `none` when it stays pending. -/
def resultOf (options : ReconcilerOptions) (intent : ActionIntent) :
    Act (Option ExternalActionResult) :=
  match intent.actionKind with
  | .publicationPublish => do
    let record ← publish intent.campaignId
    return some
      { outcome := .completed
        observedState := record.publicationState.name
        resourceId := some record.publicationId }
  | .campaignCancel => .ret (some { outcome := .completed, observedState := "cancelled" })
  | .jobLaunch => handleJobLaunch options intent
  | .jobObserve => do
    let observation ← executeExternal intent
    return if observation.outcome = .failed then none else some observation
  | .sandboxExec => .ret none
  | .sandboxWrite => .ret none
  | .sandboxRead => .ret none
  | .sandboxCreate => handleSandbox options intent
  | .sandboxObserve => handleSandbox options intent
  | .sandboxClose => handleSandbox options intent
  | .endpointPause => do
    let observation ← executeExternal intent
    return if observation.outcome = .failed ∨ observation.readyReplicas = none then none
      else some observation
  | .endpointResume => do
    let observation ← executeExternal intent
    return if observation.outcome = .failed ∨ observation.readyReplicas = none then none
      else some observation
  | .campaignAdmit => do
    let result ← executeExternal intent
    return some result
  | .jobCancel => do
    let result ← executeExternal intent
    return some result

/-! ### Follow-up work and the tick -/

/-- A state with which an action was suppressed. -/
def isSuppressed (observedState : String) : Bool :=
  "suppressed-".toList.isPrefixOf observedState.toList

/-- What follows from the receipt of a launch. -/
def advanceLaunch (options : ReconcilerOptions) (intent : ActionIntent) (receipt : ActionReceipt) :
    Act Unit :=
  if isSuppressed receipt.observedState then .ret ()
  else if receipt.outcome = .failed then
    if intent.payload.workerRole = some .preparation then
      handlePreparationTerminal options intent receipt "ERROR"
    else completeTasksFromJob intent receipt .infrastructure true
  else observeJob options intent receipt

/-- The follow-up work of a receipt's own kind. -/
def advanceKind (options : ReconcilerOptions) (intent : ActionIntent) (receipt : ActionReceipt) :
    Act Unit :=
  match intent.actionKind with
  | .campaignAdmit => admitCampaign intent receipt
  | .jobLaunch => advanceLaunch options intent receipt
  | .jobObserve => handleJobObservation options intent receipt
  | .jobCancel => continueCancellation options intent.campaignId
  | .endpointResume => advanceEndpoint options intent receipt
  | .endpointPause => advanceEndpoint options intent receipt
  | .campaignCancel => continueCancellation options intent.campaignId
  | .sandboxCreate => .ret ()
  | .sandboxObserve => .ret ()
  | .sandboxExec => .ret ()
  | .sandboxWrite => .ret ()
  | .sandboxRead => .ret ()
  | .sandboxClose => .ret ()
  | .publicationPublish => .ret ()

/-- Carry on the cancellation of an action's campaign. -/
def advanceCancellation (options : ReconcilerOptions) (intent : ActionIntent) : Act Unit :=
  if intent.actionKind = .campaignCancel ∨ intent.actionKind = .jobCancel then .ret ()
  else do
    let cancelled : Bool ← ask (.hasCampaignAction intent.campaignId .campaignCancel)
    if cancelled then continueCancellation options intent.campaignId else return ()

/-- The follow-up work of a receipt. -/
def advance (options : ReconcilerOptions) (intent : ActionIntent) (receipt : ActionReceipt) :
    Act Unit := do
  advanceKind options intent receipt
  advanceCancellation options intent
  let _ ← maybePublish options intent.campaignId
  return ()

/-- Execute one intent, record its receipt and do its follow-up work. -/
def handle (options : ReconcilerOptions) (intent : ActionIntent) : Act Unit := do
  let result ← resultOf options intent
  match result with
  | none => return ()
  | some external =>
    let record ← receipt intent external
    advance options intent record
    let _ ← markAdvanced intent record
    return ()

/-- Finish the follow-up work of a recorded receipt. -/
def finishAdvance (options : ReconcilerOptions) (entry : ActionIntent × ActionReceipt) : Act Unit := do
  advance options entry.1 entry.2
  let _ ← markAdvanced entry.1 entry.2
  return ()

/-- Execute a pending intent, unless its time has not come. -/
def handlePending (options : ReconcilerOptions) (intent : ActionIntent) : Act Unit := do
  let time ← now
  if intent.payload.notBefore.any fun notBefore ↦ decide (time < notBefore) then return ()
  else handle options intent

/-- One run of the reconciler. -/
def tick (options : ReconcilerOptions) : Act Unit := do
  let _ ← syncProjection
  let unadvanced : List (ActionIntent × ActionReceipt) ← ask (.unadvancedActions options.batchSize)
  unadvanced.forM (finishAdvance options)
  let pending : List ActionIntent ← ask (.pendingActions options.batchSize)
  pending.forM (handlePending options)
  let campaigns : List CampaignView ← ask (.campaigns 10000)
  campaigns.forM fun campaign ↦ do
    let _ ← maybePublish options campaign.campaignId
    return ()

end

end HarborHF.Control
