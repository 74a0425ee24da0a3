import HarborHF.Control.Service

/-!
# Submissions and operator actions

`submit` records a campaign: its lock, its request, its ceiling and the admission intent, in this
order. `campaignAction` records an operator's cancellation, publication, endpoint pause or
infrastructure retry as an intent.

What the profile resolver returns and whether the prepared profiles are valid are answers of the
environment; `initialReservation` is the sum the ceiling is checked against.
-/

set_option autoImplicit false

namespace HarborHF.Control

open Async Program

section

variable [Digests]

/-! ### Prepared records -/

def preparedTrial (campaignId taskId : String) : Act (Option PreparedTrial) := do
  let existing ← readRecord (.preparedTrial campaignId taskId)
  return existing.bind asPreparedTrial

def preparedJob (campaignId : String) : Act (Option PreparedJob) := do
  let existing ← readRecord (.preparedJob campaignId)
  return existing.bind asPreparedJob

/-! ### Resolved profiles -/

/-- The specification of the first profile of a kind. -/
def profileSpec (profiles : List ResolvedProfile) (kind : ProfileKind) :
    Except ServiceError ProfileSpec :=
  match profiles.find? fun profile ↦ profile.kind = kind with
  | none => .error (.profileResolution ("resolved profile is missing " ++ kind.name))
  | some profile => .ok profile.spec

/-- The launch policy among resolved profiles. -/
def launchPolicyOf (profiles : List ResolvedProfile) : Except ServiceError LaunchPolicySpec :=
  match profileSpec profiles .launchPolicy with
  | .error error => .error error
  | .ok (.launchPolicy spec) => .ok spec
  | .ok _ => .error (.policy "profile reservation_microusd must be number")

/-- The deployment among resolved profiles; `none` when it is imported. -/
def deploymentOf (profiles : List ResolvedProfile) : Except ServiceError (Option HfJobDeployment) :=
  match profileSpec profiles .deployment with
  | .error error => .error error
  | .ok (.hfJob spec) => .ok (some spec)
  | .ok _ => .ok none

/-- How many Jobs a campaign's tasks are split into. -/
def executionJobs (deployment : HfJobDeployment) (tasks : ℕ) : ℕ :=
  match deployment.workerMaxTasksPerJob with
  | none => 1
  | some 0 => 1
  | some (size + 1) => (tasks + size) / (size + 1)

/-- What the launches of a submission reserve before any retry. -/
def initialReservation (deployment : HfJobDeployment) (policy : LaunchPolicySpec) (tasks : ℕ) : ℕ :=
  policy.reservationMicrousd * executionJobs deployment tasks +
    if deployment.preparationRequired then
      policy.preparationReservationMicrousd.getD 0 * policy.maxPreparationAttempts.getD 1
    else 0

/-! ### Submission -/

structure CampaignSubmission where
  benchmark : String
  model : String
  harness : String
  deployment : Option String
  launchPolicy : String
  ceilingMicrousd : ℕ
  confirmed : Bool
  deriving DecidableEq

structure SubmissionResult where
  campaignId : String
  actionId : String
  statusUrl : String
  adopted : Bool
  deriving DecidableEq

/-- The name selected for a profile kind. -/
def selectedName (names : List (ProfileKind × String)) (kind : ProfileKind) : Option String :=
  (names.reverse.find? fun entry ↦ entry.1 = kind).map (·.2)

/-- The names and the ceiling of a recorded campaign are those of the submission. -/
def matchesSubmission (names : List (ProfileKind × String)) (ceiling : ℕ)
    (input : CampaignSubmission) : Bool :=
  decide (selectedName names .benchmark = some input.benchmark ∧
    selectedName names .model = some input.model ∧
    selectedName names .harness = some input.harness ∧
    (input.deployment = none ∨ selectedName names .deployment = input.deployment) ∧
    selectedName names .launchPolicy = some input.launchPolicy ∧ ceiling = input.ceilingMicrousd)

def assertMatchingRequest (request : Option CampaignRequest) (input : CampaignSubmission)
    (actor : Actor) : Except ServiceError Unit :=
  match request with
  | none => .ok ()
  | some record =>
    if record.actor.subject = actor.subject ∧
        matchesSubmission (record.profiles.map fun profile ↦ (profile.kind, profile.aliasName))
          record.ceilingMicrousd input = true then .ok ()
    else
      .error (.idempotencyConflict "idempotency key already belongs to a different campaign request")

def assertMatchingSubmission (lock : Option CampaignLock) (input : CampaignSubmission) :
    Except ServiceError Unit :=
  match lock with
  | none => .ok ()
  | some record =>
    if matchesSubmission (record.profiles.map fun profile ↦ (profile.kind, profile.name))
        record.ceilingMicrousd input = true then .ok ()
    else
      .error (.idempotencyConflict "idempotency key already belongs to a different campaign request")

/-- The identity of a submission's campaign. -/
def campaignIdOf (space : String) (actor : Actor) (idempotencyKey : String) : String :=
  deterministicId "campaign" [space, actor.subject, sha256 idempotencyKey]

/-- The records of a submission, in the order they are appended. -/
structure SubmissionRecords where
  lock : CampaignLock
  request : CampaignRequest
  budget : BudgetEvent
  intent : ActionIntent

/-- The profiles, the tasks and the source revision of a submission: those of its lock, or what the
resolver returns. -/
def submissionProfiles (existingLock : Option CampaignLock) : Act Resolution :=
  match existingLock with
  | some lock => .ret ⟨lock.profiles, lock.tasks, lock.sourceRevision⟩
  | none => .await .resolve fun (answer : Except ServiceError Resolution) ↦ ofExcept answer

/-- The time of a submission: that of its recorded lock or request, or the present. -/
def submissionTime (existingLock : Option CampaignLock) (existingRequest : Option CampaignRequest) :
    Act ℕ :=
  match existingLock, existingRequest with
  | some lock, _ => .ret lock.createdAt
  | none, some request => .ret request.createdAt
  | none, none => now

/-- Who submitted a campaign: the actor of its recorded lock or request, or the present one. -/
def submissionActor (existingLock : Option CampaignLock) (existingRequest : Option CampaignRequest)
    (actor : Actor) : Actor :=
  (existingLock.map (·.actor)).getD ((existingRequest.map (·.actor)).getD actor)

/-- The records a submission appends. -/
def submissionRecords (campaignId keyDigest : String) (input : CampaignSubmission)
    (existingLock : Option CampaignLock) (existingRequest : Option CampaignRequest)
    (resolution : Resolution) (actor : Actor) (timestamp : ℕ) : SubmissionRecords :=
  { lock := existingLock.getD
      { recordId := deterministicId "lock" [campaignId]
        createdAt := timestamp
        actor := actor
        campaignId := campaignId
        profiles := resolution.profiles
        tasks := resolution.tasks
        ceilingMicrousd := input.ceilingMicrousd
        sourceRevision := resolution.sourceRevision }
    request := existingRequest.getD
      { recordId := deterministicId "request" [campaignId]
        createdAt := timestamp
        actor := actor
        campaignId := campaignId
        idempotencyKeyDigest := keyDigest
        profiles := resolution.profiles.map fun profile ↦ ⟨profile.kind, profile.name⟩
        ceilingMicrousd := input.ceilingMicrousd }
    budget :=
      { recordId := deterministicId "budget" [campaignId, "ceiling"]
        createdAt := timestamp
        actor := actor
        campaignId := campaignId
        eventKind := .ceiling
        amountMicrousd := input.ceilingMicrousd }
    intent := actionIntent campaignId .campaignAdmit "campaign" 0 {} actor timestamp }

/-- Append the records of a submission: the lock before the request. -/
def appendSubmission (records : SubmissionRecords) : Act Unit := do
  let _ ← append (.campaignLock records.lock)
  let _ ← append (.campaignRequest records.request)
  let _ ← append (.budgetEvent records.budget)
  let _ ← append (.actionIntent records.intent)
  return ()

/-- The checks of a submission against its profiles: a deployment that launches Jobs, an initial
reservation under the ceiling, and valid prepared profiles. -/
def checkSubmission (input : CampaignSubmission) (resolution : Resolution) : Act Unit := do
  let deployment ← ofExcept (deploymentOf resolution.profiles)
  match deployment with
  | none => policyError "imported deployment profiles cannot launch campaigns"
  | some spec =>
    let policy ← ofExcept (launchPolicyOf resolution.profiles)
    if input.ceilingMicrousd < initialReservation spec policy resolution.tasks.length then
      policyError "launch reservation exceeds the campaign ceiling"
    else
      .await (.validatePreparedProfiles resolution.profiles resolution.tasks)
        fun (refused : Option String) ↦
          match refused with
          | some message => policyError message
          | none => .ret ()

def submitSerialized (space : String) (input : CampaignSubmission) (idempotencyKey : String)
    (actor : Actor) : Act SubmissionResult := do
  let ready : Bool ← ask .ready
  if !ready then .throw .notReady
  else if idempotencyKey = "" ∨ 256 < idempotencyKey.length then
    idempotencyConflict "a bounded idempotency key is required"
  else if !input.confirmed then
    .throw (.confirmationRequired "campaign submission requires explicit confirmation")
  else
    let keyDigest := sha256 idempotencyKey
    let campaignId := campaignIdOf space actor idempotencyKey
    let existingRequest : Option CampaignRequest ← ask (.campaignRequest campaignId)
    let existingLock : Option CampaignLock ← ask (.campaignLock campaignId)
    ofExcept (assertMatchingRequest existingRequest input actor)
    ofExcept (assertMatchingSubmission existingLock input)
    let resolution ← submissionProfiles existingLock
    checkSubmission input resolution
    let timestamp ← submissionTime existingLock existingRequest
    appendSubmission (submissionRecords campaignId keyDigest input existingLock existingRequest
      resolution (submissionActor existingLock existingRequest actor) timestamp)
    return {
      campaignId := campaignId
      actionId := actionIdOf campaignId .campaignAdmit "campaign" 0
      statusUrl := "/api/v1/campaigns/" ++ campaignId
      adopted := existingRequest.isSome || existingLock.isSome }

/-- Submit a campaign. -/
def submit (space : String) (input : CampaignSubmission) (idempotencyKey : String) (actor : Actor) :
    Act SubmissionResult :=
  withQueue .submit (submitSerialized space input idempotencyKey actor)

/-! ### Operator actions -/

inductive CampaignActionKind
  | cancel | publish | pauseEndpoint | retryInfrastructure
  deriving DecidableEq

structure CampaignActionInput where
  action : CampaignActionKind
  taskId : Option String
  reason : Option String
  confirmed : Bool
  deriving DecidableEq

/-- The value of a hexadecimal digit. -/
def hexDigit (digit : Char) : ℕ :=
  if digit.isDigit then digit.toNat - '0'.toNat else digit.toNat - 'a'.toNat + 10

/-- The generation of an operator's action: the last eight digits of its key's digest. -/
def generationOf (idempotencyKey : String) : ℕ :=
  ((sha256 idempotencyKey).toList.reverse.take 8).foldr
    (fun digit value ↦ 16 * value + hexDigit digit) 0 % 1000001

/-- The fields of an execution launch that only the worker reads. -/
def executionFields (deployment : HfJobDeployment) (lock : CampaignLock)
    (prepared : Option PreparedJob) : List String :=
  [deployment.jobImage] ++ deployment.jobCommand ++
    [deployment.hardware, toString deployment.trustedWorker, deployment.workerRevision.getD "",
      toString deployment.inferenceRequired, deployment.inferenceLimits,
      recordDigest (.campaignLock lock),
      (prepared.map fun job ↦ recordDigest (.preparedJob job)).getD "",
      toString (deployment.sandbox.isSome || deployment.sandboxTemplate.isSome),
      toString ((deployment.sandboxTemplate.map (·.maxTimeoutSeconds)).getD
        ((deployment.sandbox.map (·.timeoutSeconds)).getD 0))]

/-- The payload of an execution launch. -/
def executionPayload (deployment : HfJobDeployment) (policy : LaunchPolicySpec)
    (lock : CampaignLock) (prepared : Option PreparedJob) (taskIds : List String) : ActionPayload :=
  { workerRole := some .execution
    taskIds := some taskIds
    timeoutSeconds := some deployment.timeoutSeconds
    successWithoutWorkerReceipt := some policy.successWithoutWorkerReceipt
    maxInfrastructureAttempts := some policy.maxInfrastructureAttempts
    reservationMicrousd := some policy.reservationMicrousd
    sandbox := deployment.sandbox
    rest := executionFields deployment lock prepared }

/-- What an operator's action asks for: the action's kind, target and payload, and for a retry the
reservation of the Job that replaces an attempt. -/
structure OperatorAction where
  kind : ActionKind
  target : String
  payload : ActionPayload
  retry : Option (AttemptReceipt × ℕ)

/-- The prepared job of a deployment that needs one. -/
def requirePrepared (deployment : HfJobDeployment) (campaignId : String) : Act (Option PreparedJob) :=
  if deployment.preparationRequired then do
    let prepared ← preparedJob campaignId
    match prepared with
    | none => policyError "campaign preparation is incomplete"
    | some job => return some job
  else .ret none

/-- The attempt an infrastructure retry replaces. -/
def retryableAttempt (view : TaskView) : Option AttemptReceipt :=
  view.attempts.getLast?.filter fun record ↦
    decide (record.outcome = .infrastructure) && record.replacementEligible

/-- The retry of a task whose last attempt was an eligible infrastructure failure. -/
def retryAction (campaignId : String) (lock : CampaignLock) (taskId : String)
    (reason : Option String) : Act OperatorAction := do
  let task : Option TaskView ← ask (.task campaignId taskId)
  match task with
  | none => policyError "retry task does not exist"
  | some view =>
    if view.task.terminalOutcome.isSome then policyError "terminal tasks cannot be retried"
    else
      match retryableAttempt view with
      | none =>
        policyError "infrastructure retry requires an eligible infrastructure failure"
      | some prior =>
        let recorded : Option ActionRow ← ask (.retryActionForAttempt campaignId prior.attemptId)
        if recorded.isSome then policyError "infrastructure retry is already recorded"
        else
          let deployment ← ofExcept (deploymentOf lock.profiles)
          match deployment with
          | none => policyError "imported deployment profiles cannot launch retries"
          | some spec =>
            let policy ← ofExcept (launchPolicyOf lock.profiles)
            if policy.maxInfrastructureAttempts ≤ view.attempts.length then
              policyError "infrastructure retry budget is exhausted"
            else
              let prepared ← requirePrepared spec campaignId
              return {
                kind := .jobLaunch
                target := taskId
                payload :=
                  { executionPayload spec policy lock prepared [taskId] with
                    reason := reason
                    priorAttemptId := some prior.attemptId }
                retry := some (prior, policy.reservationMicrousd) }

/-- The action an operator asks for. -/
def operatorAction (campaign : CampaignView) (lock : CampaignLock) (input : CampaignActionInput) :
    Act OperatorAction :=
  match input.action with
  | .cancel =>
    .ret ⟨.campaignCancel, input.taskId.getD "campaign",
      { taskId := input.taskId, reason := input.reason }, none⟩
  | .publish =>
    if campaign.terminalTasks ≠ campaign.totalTasks then
      policyError "campaign cannot publish before every task is terminal"
    else if 0 < campaign.pendingActions ∨ campaign.cleanupPending = true then
      policyError "campaign cannot publish while actions or endpoint cleanup are pending"
    else do
      let published : Option PublicationReceipt ← ask (.campaignPublication campaign.campaignId)
      if published.isSome then policyError "campaign is already published"
      else return ⟨.publicationPublish, "results", {}, none⟩
  | .pauseEndpoint => do
    let rows : List EndpointRow ← ask (.endpoints 100)
    match rows.filter fun row ↦
      decide (row.campaignId = campaign.campaignId) && !row.cleanupVerified with
    | [endpoint] =>
      return ⟨.endpointPause, endpoint.endpointId, { endpointId := some endpoint.endpointId }, none⟩
    | others =>
      policyError ("expected one active campaign endpoint, found " ++ toString others.length)
  | .retryInfrastructure =>
    match input.taskId with
    | none => policyError "infrastructure retry requires a task ID"
    | some taskId => retryAction campaign.campaignId lock taskId input.reason

/-- Reserve the Job of a retry. -/
def reserveRetry (campaignId : String) : Option (AttemptReceipt × ℕ) → Act Unit
  | none => .ret ()
  | some (prior, amount) => do
    let reserved ← reserveReplacement campaignId prior.attemptId prior.createdAt amount
    if reserved then return ()
    else policyError "replacement Job would exceed the campaign ceiling"

/-- The retry a key has recorded already. -/
def recordedRetry (campaignId : String) (input : CampaignActionInput) (generation : ℕ) :
    Act (Option SubmissionResult) :=
  match input.action, input.taskId with
  | .retryInfrastructure, some taskId => do
    let actionId := actionIdOf campaignId .jobLaunch taskId generation
    let existing : Option ActionRow ← ask (.action actionId)
    match existing with
    | none => return none
    | some row =>
      if row.intent.actionKind ≠ .jobLaunch ∨ row.intent.target ≠ taskId ∨
          row.intent.payload.reason ≠ input.reason then
        idempotencyConflict "idempotency key belongs to a different infrastructure retry"
      else return some ⟨campaignId, actionId, "/api/v1/campaigns/" ++ campaignId, true⟩
  | _, _ => .ret none

/-- Record the intent of an operator's action. -/
def writeOperatorAction (campaignId : String) (generation : ℕ) (actor : Actor)
    (asked : OperatorAction) : Act SubmissionResult := do
  reserveRetry campaignId asked.retry
  let timestamp ← now
  let intent := actionIntent campaignId asked.kind asked.target generation asked.payload actor timestamp
  let adopted : Option ActionRow ← ask (.action intent.actionId)
  writeAction intent
  return ⟨campaignId, intent.actionId, "/api/v1/campaigns/" ++ campaignId, adopted.isSome⟩

def campaignActionValidated (campaignId : String) (input : CampaignActionInput)
    (idempotencyKey : String) (actor : Actor) : Act SubmissionResult := do
  let campaign : Option CampaignView ← ask (.campaign campaignId)
  match campaign with
  | none => policyError "campaign does not exist"
  | some view =>
    let lock : Option CampaignLock ← ask (.campaignLock campaignId)
    match lock with
    | none => policyError "campaign lock does not exist"
    | some record =>
      let generation := generationOf idempotencyKey
      let recorded ← recordedRetry campaignId input generation
      match recorded with
      | some result => return result
      | none =>
        let asked ← operatorAction view record input
        writeOperatorAction campaignId generation actor asked

/-- Record an operator's action; retries are admitted one after the other. -/
def campaignAction (campaignId : String) (input : CampaignActionInput) (idempotencyKey : String)
    (actor : Actor) : Act SubmissionResult := do
  let ready : Bool ← ask .ready
  if !ready then .throw .notReady
  else if !input.confirmed then
    .throw (.confirmationRequired "campaign action requires explicit confirmation")
  else if input.action = .retryInfrastructure then
    withQueue .retryAdmission (campaignActionValidated campaignId input idempotencyKey actor)
  else campaignActionValidated campaignId input idempotencyKey actor

end

end HarborHF.Control
