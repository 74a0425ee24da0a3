import HarborHF.Control.Reconciler

/-!
# Sandbox requests

The Sandbox routes of the control API. `loadSandboxContext` checks the worker's capability and
derives the Sandbox policy of the task, and `executeSandboxAction` carries one action out: it returns
a stored result, refuses to repeat a command that may have run, writes the intent and the dispatch
fence, calls the gateway, and records the result, the receipt and the follow-up.

A create is admitted first, and the request that created its dispatch record is the one that may
create the Sandbox. How the policy of a prepared trial follows from its template is a parameter.

Workers also submit the evidence and the attempts of their tasks.
-/

set_option autoImplicit false

namespace HarborHF.Control

open Async Program

/-- The capability a worker's request carries. -/
structure WorkerCapability where
  actionId : String
  campaignId : String
  taskIds : List String
  campaignLockDigest : String
  operations : List ActionKind
  deriving DecidableEq

/-- A worker's request on a task's Sandboxes. -/
structure SandboxRequest where
  capability : WorkerCapability
  campaignId : String
  taskId : String
  idempotencyKey : String
  deriving DecidableEq

/-- The actor of a worker's request. -/
def SandboxRequest.actor (request : SandboxRequest) : Actor :=
  ⟨"worker:" ++ request.capability.actionId, .service⟩

/-- The body of a command request. -/
structure CommandBody where
  command : List String
  cwd : String
  timeoutSeconds : ℕ
  deriving DecidableEq

/-- The body of a write request, with its decoded content's digest and length. -/
structure WriteBody where
  path : String
  contentDigest : String
  canonicalBase64 : Bool
  bytesDigest : String
  byteLength : ℕ
  mode : Option String
  deriving DecidableEq

/-- What a worker's capability may allow beside the Sandbox actions. -/
inductive SubmissionOperation
  | attemptSubmit | evidenceWrite
  deriving DecidableEq

/-- The body of an attempt submission. -/
structure AttemptSubmission where
  actionId : String
  outcome : AttemptOutcome
  replacementEligible : Bool
  evidenceDigest : String
  evidencePath : String
  costMicrousd : ℕ
  metrics : List (String × String)
  completedAt : ℕ
  deriving DecidableEq

/-- The answer to an attempt submission. -/
structure AcceptedAttempt where
  campaignId : String
  taskId : String
  attemptId : String
  statusUrl : String
  adopted : Bool
  deriving DecidableEq

/-- What a Sandbox action returns: the external result for its receipt, and the caller's output. -/
structure SandboxOutput where
  external : ExternalActionResult
  result : String
  deriving DecidableEq

/-- What a request may do with a task's Sandboxes, and the resource of the Sandbox it names. -/
structure SandboxContext where
  lock : CampaignLock
  policy : SandboxPolicy
  resourceId : Option String
  deriving DecidableEq

/-- How the policy of a prepared trial follows from its deployment; an error carries its message. -/
abbrev PreparedPolicy := HfJobDeployment → PreparedTrial → Except String SandboxPolicy

/-! ### Paths -/

/-- An absolute path without empty, `.` or `..` components; a trailing slash is kept. -/
def isNormalizedPath (path : String) : Bool :=
  match path.toList.splitOn '/' with
  | [] => false
  | first :: rest =>
    first.isEmpty && !rest.isEmpty &&
      rest.dropLast.all (fun part ↦ decide (part ≠ [] ∧ part ≠ ['.'] ∧ part ≠ ['.', '.'])) &&
        rest.getLast?.all fun part ↦ decide (part ≠ ['.'] ∧ part ≠ ['.', '.'])

/-- A root without its trailing slash. -/
def trimRoot (root : List Char) : List Char :=
  if root.getLast? = some '/' then root.dropLast else root

/-- The path is a root or lies under it. -/
def underRoot (path root : String) : Bool :=
  decide (path = root) || (trimRoot root.toList ++ ['/']).isPrefixOf path.toList

def requireAllowedSandboxPath (path : String) (policy : SandboxPolicy) : Except ServiceError Unit :=
  if isNormalizedPath path = false then
    .error (.policy "sandbox path must be normalized and absolute")
  else if policy.allowedRoots.any (underRoot path) = false then
    .error (.policy "sandbox path is outside immutable policy roots")
  else .ok ()

section

variable [Digests]

/-! ### The context of a request -/

/-- The request's idempotency key. -/
def requireIdempotencyKey (request : SandboxRequest) : Except ServiceError String :=
  if request.idempotencyKey.length < 8 ∨ 256 < request.idempotencyKey.length then
    .error (.idempotencyConflict "Idempotency-Key must contain 8 to 256 characters")
  else .ok request.idempotencyKey

/-- The part of a key's digest that ends an action's target. -/
def keySuffix (idempotencyKey : String) : String :=
  String.ofList (((sha256 idempotencyKey).toList.drop 7).take 16)

def requireCapability (request : SandboxRequest) (operation : ActionKind) :
    Except ServiceError Unit :=
  if operation ∉ request.capability.operations then
    .error (.workerScope ("worker capability does not authorize " ++ operation.name))
  else if request.capability.campaignId ≠ request.campaignId ∨
      request.taskId ∉ request.capability.taskIds then
    .error (.workerScope "worker capability does not authorize this task")
  else .ok ()

/-- The policy of a prepared trial, once the campaign's preparation is complete. -/
def preparedTrialPolicy (derive : PreparedPolicy) (deployment : HfJobDeployment)
    (campaignId taskId : String) : Act SandboxPolicy := do
  let prepared ← preparedJob campaignId
  let trial ← preparedTrial campaignId taskId
  match prepared, trial with
  | some job, some record =>
    match job.trials.find? fun reference ↦ reference.taskId = taskId with
    | none => policyError "prepared trial does not match the prepared job"
    | some reference =>
      if reference.recordId ≠ record.recordId ∨
          reference.recordDigest ≠ recordDigest (.preparedTrial record) then
        policyError "prepared trial does not match the prepared job"
      else
        match derive deployment record with
        | .error message => policyError message
        | .ok policy => return policy
  | _, _ => policyError "campaign preparation is incomplete"

/-- The Sandbox policy of a task. -/
def sandboxPolicy (derive : PreparedPolicy) (lock : CampaignLock) (taskId : String) :
    Act SandboxPolicy :=
  match (lock.profiles.find? fun profile ↦ profile.kind = .deployment).map ResolvedProfile.spec with
  | some (.hfJob spec) =>
    if spec.preparationRequired then preparedTrialPolicy derive spec lock.campaignId taskId
    else
      match spec.sandbox with
      | some policy => .ret policy
      | none => policyError "campaign does not authorize Sandboxes"
  | _ => policyError "campaign does not authorize Sandboxes"

/-- The resource of the Sandbox a request names. -/
def sandboxResource (campaignId taskId sandboxId : String) : Act String := do
  let row : Option ActionRow ← ask (.action sandboxId)
  match row.filter fun action ↦
    decide (action.intent.campaignId = campaignId ∧ action.intent.actionKind = .sandboxCreate) with
  | none => policyError "sandbox identifier is invalid"
  | some action =>
    if action.intent.payload.taskId ≠ some taskId then
      policyError "sandbox identifier does not belong to this task"
    else
      match action.resourceId.filter fun resourceId ↦ decide (resourceId ≠ "") with
      | none => policyError "sandbox creation is not complete"
      | some resourceId => return resourceId

/-- The resource of the Sandbox a request names, if it names one. -/
def contextResource (campaignId taskId : String) : Option String → Act (Option String)
  | none => .ret none
  | some sandboxId => do
    let resourceId ← sandboxResource campaignId taskId sandboxId
    return some resourceId

/-- Check a request and load what it may do. -/
def loadSandboxContext (derive : PreparedPolicy) (request : SandboxRequest) (operation : ActionKind)
    (sandboxId : Option String) : Act SandboxContext := do
  ofExcept (requireCapability request operation)
  let locked : Option CampaignLock ← ask (.campaignLock request.campaignId)
  match locked with
  | none => policyError "campaign lock is missing"
  | some lock =>
    if recordDigest (.campaignLock lock) ≠ request.capability.campaignLockDigest then
      .throw (.workerScope "worker capability does not match the campaign lock")
    else
      let policy ← sandboxPolicy derive lock request.taskId
      if (lock.tasks.any fun task ↦ decide (task.taskId = request.taskId)) = false then
        policyError "campaign lock does not contain this task"
      else
        let resourceId ← contextResource request.campaignId request.taskId sandboxId
        return ⟨lock, policy, resourceId⟩

/-! ### Carrying an action out -/

/-- The external result a stored result holds. -/
def storedExternal (stored : SandboxResult) : ExternalActionResult :=
  { outcome := stored.outcome
    observedState := stored.observedState
    resourceId := stored.resourceId
    costMicrousd := stored.costMicrousd }

/-- The result object of an action. -/
def storedResult (intent : ActionIntent) (output : SandboxOutput) : SandboxResult :=
  { campaignId := intent.campaignId
    actionId := intent.actionId
    outcome := output.external.outcome
    observedState := output.external.observedState
    resourceId := output.external.resourceId
    costMicrousd := output.external.costMicrousd
    result := output.result }

/-- Record the receipt of a Sandbox action and its follow-up. -/
def settleAction (intent : ActionIntent) (result : ExternalActionResult) : Act Unit := do
  let record ← receipt intent result
  let _ ← markAdvanced intent record
  return ()

/-- Return a stored result, after making sure that its receipt is recorded. -/
def replayResult (intent : ActionIntent) (existing : Option ActionRow) (stored : SandboxResult) :
    Act String := do
  writeAction intent
  if (existing.bind (·.receipt)).isSome then return stored.result
  else
    settleAction intent (storedExternal stored)
    return stored.result

/-- Store the result of a Sandbox action. -/
def createResult (result : SandboxResult) : Act Unit :=
  .await (.createResult result) fun (answer : Except ServiceError Unit) ↦ ofExcept answer

/-- Dispatch a Sandbox action, call the gateway, and record what it returned. -/
def runSandboxAction (intent : ActionIntent) (adoptionOnly : Bool)
    (execute : ActionIntent → Bool → Act SandboxOutput) : Act String := do
  let time ← now
  let _ ← dispatchAction intent (time + 30000)
  let output ← execute intent adoptionOnly
  createResult (storedResult intent output)
  settleAction intent output.external
  return output.result

/-- Carry out a Sandbox action for a request. -/
def executeSandboxAction (intent : ActionIntent) (replaySafe : Bool)
    (execute : ActionIntent → Bool → Act SandboxOutput) (ownsDispatch : Bool) : Act String := do
  let existing : Option ActionRow ← ask (.action intent.actionId)
  let stored : Option SandboxResult ←
    .await (.readResult intent.campaignId intent.actionId) .ret
  match stored with
  | some result => replayResult intent existing result
  | none =>
    if (existing.bind (·.receipt)).isSome then
      policyError "Sandbox action receipt is missing its durable result"
    else
      let dispatched : Option ActionDispatch ← ask (.actionDispatch intent.actionId)
      writeAction intent
      if dispatched.isSome ∧ replaySafe = false then
        idempotencyConflict
          "ambiguous sandbox command cannot be replayed; inspect state and use a new key"
      else runSandboxAction intent (dispatched.isSome && !ownsDispatch) execute

/-- The intent of a request's action. Every call of `actionIntent` reads the clock. -/
def requestIntent (request : SandboxRequest) (kind : ActionKind) (target : String)
    (payload : ActionPayload) : Act ActionIntent := do
  let idempotencyKey ← ofExcept (requireIdempotencyKey request)
  let timestamp ← now
  return actionIntent request.campaignId kind (target ++ ":" ++ keySuffix idempotencyKey) 0 payload
    request.actor timestamp

/-! ### The gateway -/

/-- Create, observe or close a Sandbox. -/
def gatewayLifecycle (intent : ActionIntent) (adoptionOnly : Bool) : Act SandboxOutput := do
  let answer ← callPort .lifecycle intent adoptionOnly
  match answer with
  | .ok output => return ⟨output.external, output.external.observedState⟩
  | .error error => .throw (.port error)

/-- Run a command, write a file or read one; the receipt names the Sandbox. -/
def gatewayData (method : PortMethod) (observedState : String) (resourceId : Option String)
    (intent : ActionIntent) (_ : Bool) : Act SandboxOutput := do
  let answer ← callPort method intent false
  match answer with
  | .ok output => return ⟨{ outcome := .completed, observedState, resourceId }, output.text⟩
  | .error error => .throw (.port error)

/-! ### The routes -/

/-- The payload of an action on a Sandbox. -/
def sandboxPayload (request : SandboxRequest) (sandboxId : String) (context : SandboxContext) :
    ActionPayload :=
  { taskId := some request.taskId
    sandboxCreateActionId := some sandboxId
    resourceId := context.resourceId
    sandbox := some context.policy }

/-- Create a Sandbox. -/
def createRoute (derive : PreparedPolicy) (request : SandboxRequest) : Act String := do
  let context ← loadSandboxContext derive request .sandboxCreate none
  let target := "sandbox:" ++ request.taskId
  let payload : ActionPayload := { taskId := some request.taskId, sandbox := some context.policy }
  let candidate ← requestIntent request .sandboxCreate target payload
  let created ← admitSandboxCreate candidate context.policy.maxSandboxes
  let intent ← requestIntent request .sandboxCreate target payload
  executeSandboxAction intent true gatewayLifecycle created

/-- Observe a Sandbox. -/
def observeRoute (derive : PreparedPolicy) (request : SandboxRequest) (sandboxId : String) :
    Act String := do
  let context ← loadSandboxContext derive request .sandboxObserve (some sandboxId)
  let intent ← requestIntent request .sandboxObserve ("sandbox-observe:" ++ sandboxId)
    (sandboxPayload request sandboxId context)
  executeSandboxAction intent true (fun intent _ ↦ gatewayLifecycle intent false) false

/-- Run a command in a Sandbox. A command is never replayed. -/
def execRoute (derive : PreparedPolicy) (request : SandboxRequest) (sandboxId : String)
    (body : CommandBody) : Act String := do
  let context ← loadSandboxContext derive request .sandboxExec (some sandboxId)
  ofExcept (requireAllowedSandboxPath body.cwd context.policy)
  if context.policy.maxCommandSeconds < body.timeoutSeconds then
    policyError "Sandbox command timeout exceeds immutable policy"
  else
    let payload : ActionPayload :=
      { sandboxPayload request sandboxId context with
        command := some body.command
        cwd := some body.cwd
        timeoutSeconds := some body.timeoutSeconds }
    let target := "sandbox-exec:" ++ sandboxId
    let candidate ← requestIntent request .sandboxExec target payload
    admitSandboxCommand candidate context.policy.maxCommands
    let intent ← requestIntent request .sandboxExec target payload
    executeSandboxAction intent false
      (gatewayData .command "command-completed" context.resourceId) false

/-- Write a file into a Sandbox. -/
def writeRoute (derive : PreparedPolicy) (request : SandboxRequest) (sandboxId : String)
    (body : WriteBody) : Act String := do
  let context ← loadSandboxContext derive request .sandboxWrite (some sandboxId)
  ofExcept (requireAllowedSandboxPath body.path context.policy)
  if body.canonicalBase64 = false then
    policyError "Sandbox write content must use canonical base64"
  else if context.policy.maxTransferBytes < body.byteLength then
    policyError "Sandbox write exceeds immutable transfer limit"
  else if body.bytesDigest ≠ body.contentDigest then
    policyError "Sandbox write digest does not match content"
  else
    let intent ← requestIntent request .sandboxWrite
      ("sandbox-write:" ++ sandboxId ++ ":" ++ sha256 body.path)
      { sandboxPayload request sandboxId context with
        path := some body.path
        contentDigest := some body.contentDigest
        contentSize := some body.byteLength
        mode := body.mode }
    executeSandboxAction intent true (gatewayData .write "write-completed" context.resourceId) false

/-- Read a file from a Sandbox. -/
def readRoute (derive : PreparedPolicy) (request : SandboxRequest) (sandboxId path : String) :
    Act String := do
  let context ← loadSandboxContext derive request .sandboxRead (some sandboxId)
  ofExcept (requireAllowedSandboxPath path context.policy)
  let intent ← requestIntent request .sandboxRead
    ("sandbox-read:" ++ sandboxId ++ ":" ++ sha256 path)
    { sandboxPayload request sandboxId context with path := some path }
  executeSandboxAction intent true (gatewayData .read "read-completed" context.resourceId) false

/-- Close a Sandbox. -/
def closeRoute (derive : PreparedPolicy) (request : SandboxRequest) (sandboxId : String) :
    Act String := do
  let context ← loadSandboxContext derive request .sandboxClose (some sandboxId)
  let intent ← requestIntent request .sandboxClose ("sandbox-close:" ++ sandboxId)
    (sandboxPayload request sandboxId context)
  executeSandboxAction intent true (fun intent _ ↦ gatewayLifecycle intent false) false

/-! ### Evidence -/

/-- Upload an evidence object of a worker's task. -/
def uploadEvidenceObject (campaignId actionId taskId expectedDigest : String)
    (object : StoredObject) : Act Unit := do
  let action : Option ActionRow ← ask (.action actionId)
  match action.filter fun row ↦
    decide (row.intent.campaignId = campaignId ∧ row.intent.actionKind = .jobLaunch) with
  | none => policyError "evidence upload has no eligible Job launch"
  | some row =>
    if (row.intent.payload.taskIds.any fun taskIds ↦ taskIds.contains taskId) = false then
      policyError "evidence upload task is outside the Job launch"
    else
      let task : Option TaskView ← ask (.task campaignId taskId)
      if task.isNone then policyError "evidence upload task does not exist"
      else if object.digest ≠ expectedDigest then
        policyError "evidence upload digest does not match its content"
      else
        .await (.createEvidence
            { object with path := workerEvidenceObjectPath campaignId actionId taskId object.digest })
          fun (answer : Except ServiceError Unit) ↦ ofExcept answer

/-! ### Attempts -/

/-- Check that a worker's request may submit for its task. -/
def requireSubmission (request : SandboxRequest) (submissions : List SubmissionOperation)
    (operation : SubmissionOperation) (actionId : String) : Except ServiceError Unit :=
  if request.capability.campaignId ≠ request.campaignId ∨ request.capability.actionId ≠ actionId ∨
      request.taskId ∉ request.capability.taskIds ∨ operation ∉ submissions then
    .error (.workerScope "the worker capability does not authorize this submission")
  else .ok ()

/-- Record an attempt of a worker. Its identity is that of the request's key. -/
def attemptRoute (request : SandboxRequest) (submissions : List SubmissionOperation)
    (body : AttemptSubmission) : Act AcceptedAttempt := do
  let idempotencyKey ← ofExcept (requireIdempotencyKey request)
  ofExcept (requireSubmission request submissions .attemptSubmit body.actionId)
  let attemptId := deterministicId "worker-attempt"
    [request.campaignId, request.taskId, sha256 idempotencyKey]
  let (_, adopted) ← attemptWithStatus
    { campaignId := request.campaignId
      taskId := request.taskId
      attemptId := attemptId
      actionId := body.actionId
      outcome := body.outcome
      replacementEligible := body.replacementEligible
      evidenceDigest := body.evidenceDigest
      evidencePath := body.evidencePath
      costMicrousd := body.costMicrousd
      metrics := body.metrics
      completedAt := body.completedAt } request.actor
  return {
    campaignId := request.campaignId
    taskId := request.taskId
    attemptId := attemptId
    statusUrl := "/api/v1/campaigns/" ++ request.campaignId ++ "/tasks/" ++ request.taskId
    adopted := adopted }

end

end HarborHF.Control
