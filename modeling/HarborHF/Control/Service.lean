import HarborHF.Control.World

/-!
# The control service

The methods of `ControlService` as programs over the operations of the control plane, in the order
of the source. Each await of the source is one operation here, so other threads may run between any
two of them; a method that the source runs in a queue is wrapped in `withQueue`.

The budget methods are `attempt`, `reserveReplacement`, `reserveSandbox` and `finalizeSandboxBudget`,
all in the budget queue. `dispatchAction` is the fence in front of an external call: it returns
whether this call created the dispatch record.
-/

set_option autoImplicit false

namespace HarborHF.Control

open Async Program

/-! ### Awaited operations -/

/-- Ask the projection. -/
def ask (question : Query) : Act question.Ans := .await (.query question) .ret

/-- The clock. -/
def now : Act ℕ := .await .now .ret

/-- Append a record, and return whether its object was created. -/
def append (record : Record) : Act Bool :=
  .await (.append record) fun (answer : Except ServiceError Bool) ↦ ofExcept answer

def syncProjection : Act ℕ :=
  .await .syncProjection fun (answer : Except ServiceError ℕ) ↦ ofExcept answer

/-- Read a record's object. -/
def readRecord (key : ObjectKey) : Act (Option Record) := .await (.readRecord key) .ret

/-- Run a method in a queue, and leave the queue whether or not it throws. -/
def withQueue {α : Type} (queue : Queue) (method : Act α) : Act α :=
  .await (.acquire queue) fun _ ↦ do
    let outcome : Except ServiceError α ← method.attempt
    .await (.release queue) fun _ ↦ ofExcept outcome

/-- Refuse a request. -/
def policyError {α : Type} (message : String) : Act α := .throw (.policy message)

def idempotencyConflict {α : Type} (message : String) : Act α := .throw (.idempotencyConflict message)

/-- Append a record, or adopt an equivalent one that is stored under its key. -/
def appendAdopting {τ : Type} (wrap : τ → Record) (unwrap : Record → Option τ) (record : τ)
    (equivalent : τ → Bool) : Act (Bool × τ) := do
  let appended : Except ServiceError Bool ← (append (wrap record)).attempt
  match appended with
  | .ok created => return (created, record)
  | .error (.immutableConflict _) =>
    let existing ← readRecord (wrap record).key
    match existing.bind unwrap with
    | none =>
      idempotencyConflict ("immutable idempotency conflict at " ++ (wrap record).key.path)
    | some recorded =>
      if equivalent recorded then do
        let _ ← syncProjection
        return (false, recorded)
      else idempotencyConflict ("immutable idempotency conflict at " ++ (wrap record).key.path)
  | .error error => .throw error

/-! ### Records by kind -/

def asIntent : Record → Option ActionIntent
  | .actionIntent record => some record
  | _ => none

def asDispatch : Record → Option ActionDispatch
  | .actionDispatch record => some record
  | _ => none

def asReceipt : Record → Option ActionReceipt
  | .actionReceipt record => some record
  | _ => none

def asAdvanced : Record → Option ActionAdvanced
  | .actionAdvanced record => some record
  | _ => none

def asPreparedTrial : Record → Option PreparedTrial
  | .preparedTrial record => some record
  | _ => none

def asPreparedJob : Record → Option PreparedJob
  | .preparedJob record => some record
  | _ => none

section

variable [Digests]

/-! ### Actions -/

/-- The identity of an action. -/
def actionIdOf (campaignId : String) (kind : ActionKind) (target : String) (generation : ℕ) : String :=
  deterministicId "action" [campaignId, kind.name, target, toString generation]

/-- An intent at a given time. -/
def actionIntent (campaignId : String) (kind : ActionKind) (target : String) (generation : ℕ)
    (payload : ActionPayload) (actor : Actor) (timestamp : ℕ) : ActionIntent :=
  let actionId := actionIdOf campaignId kind target generation
  { recordId := actionId
    createdAt := timestamp
    actor := actor
    actionId := actionId
    campaignId := campaignId
    actionKind := kind
    generation := generation
    target := target
    payload := payload }

/-- A service intent at the present time. -/
def serviceIntent (campaignId : String) (kind : ActionKind) (target : String) (generation : ℕ)
    (payload : ActionPayload) : Act ActionIntent := do
  let timestamp ← now
  return actionIntent campaignId kind target generation payload serviceActor timestamp

/-- The recorded intent is the one that is asked for, whenever it was written. -/
def sameAction (intent recorded : ActionIntent) : Bool :=
  decide (recorded.campaignId = intent.campaignId ∧ recorded.actionKind = intent.actionKind ∧
    recorded.generation = intent.generation ∧ recorded.target = intent.target ∧
      recorded.payload = intent.payload)

/-- A terminal task takes no new action but a Sandbox close. -/
def requireOpenTask (intent : ActionIntent) : Act Unit :=
  match intent.payload.taskId with
  | none => .ret ()
  | some taskId => do
    let task : Option TaskView ← ask (.task intent.campaignId taskId)
    if (task.bind fun view ↦ view.task.terminalOutcome).isSome ∧ intent.actionKind ≠ .sandboxClose
    then policyError ("terminal task cannot receive action: " ++ taskId)
    else return ()

/-- Record an intent. An action that is recorded already is accepted when it is the same. -/
def writeAction (intent : ActionIntent) : Act Unit := do
  let existing : Option ActionRow ← ask (.action intent.actionId)
  match existing with
  | some row =>
    if sameAction intent row.intent then return ()
    else idempotencyConflict ("action identity conflict: " ++ intent.actionId)
  | none =>
    requireOpenTask intent
    let _ ← appendAdopting .actionIntent asIntent intent fun recorded ↦
      sameAction intent recorded && decide (recorded.actor = intent.actor)
    return ()

/-- The operation of an action kind's dispatch fence. -/
def dispatchOperation : ActionKind → Option DispatchOperation
  | .jobLaunch => some .create
  | .sandboxCreate => some .create
  | .sandboxObserve => some .observe
  | .sandboxExec => some .execute
  | .sandboxWrite => some .write
  | .sandboxRead => some .read
  | .sandboxClose => some .close
  | _ => none

/-- The dispatch record of an action. -/
def dispatchRecord (intent : ActionIntent) (operation : DispatchOperation)
    (createdAt adoptionNotBefore : ℕ) : ActionDispatch :=
  { recordId := deterministicId "action-dispatch" [intent.actionId]
    createdAt := createdAt
    actor := serviceActor
    actionId := intent.actionId
    campaignId := intent.campaignId
    operation := operation
    adoptionNotBefore := adoptionNotBefore }

/-- The dispatch fence: the durable dispatch record of an action, and whether this call created
it. -/
def dispatchAction (intent : ActionIntent) (adoptionNotBefore : ℕ) : Act (ActionDispatch × Bool) :=
  match dispatchOperation intent.actionKind with
  | none => policyError "action does not support a dispatch fence"
  | some operation => do
    let existing : Option ActionDispatch ← ask (.actionDispatch intent.actionId)
    match existing with
    | some dispatch => return (dispatch, false)
    | none =>
      let createdAt ← now
      let record := dispatchRecord intent operation createdAt adoptionNotBefore
      let (created, dispatch) ← appendAdopting .actionDispatch asDispatch record fun recorded ↦
        decide (recorded.actionId = record.actionId ∧ recorded.campaignId = record.campaignId ∧
          recorded.operation = record.operation ∧ recorded.actor = record.actor)
      return (dispatch, created)

/-- The receipt of an external result. -/
def receiptRecord (intent : ActionIntent) (result : ExternalActionResult) (createdAt : ℕ) :
    ActionReceipt :=
  { recordId := deterministicId "receipt" [intent.actionId]
    createdAt := createdAt
    actor := serviceActor
    actionId := intent.actionId
    campaignId := intent.campaignId
    outcome := result.outcome
    resourceId := result.resourceId
    observedState := result.observedState
    errorCode := result.errorCode
    readyReplicas := result.readyReplicas
    activeHourlyCostMicrousd := result.activeHourlyCostMicrousd
    costMicrousd := result.costMicrousd }

/-- Record the receipt of an action, or adopt one with the same result. -/
def receipt (intent : ActionIntent) (result : ExternalActionResult) : Act ActionReceipt := do
  let createdAt ← now
  let record := receiptRecord intent result createdAt
  let (_, recorded) ← appendAdopting .actionReceipt asReceipt record fun recorded ↦
    decide ({ recorded with createdAt := createdAt } = record)
  return recorded

/-! ### The budget ledger -/

/-- A budget event of the service. -/
def budgetEvent (campaignId recordId : String) (kind : BudgetEventKind) (amount createdAt : ℕ) :
    BudgetEvent := ⟨recordId, createdAt, serviceActor, campaignId, kind, amount⟩

def replacementId (campaignId priorAttemptId : String) : String :=
  deterministicId "budget" [campaignId, "replacement", priorAttemptId]

def replacementOverageId (campaignId priorAttemptId : String) : String :=
  deterministicId "budget" [campaignId, "observed-overage", priorAttemptId]

def sandboxReservationId (campaignId createActionId : String) : String :=
  deterministicId "budget" [campaignId, "sandbox", createActionId]

def sandboxOverageId (campaignId createActionId : String) : String :=
  deterministicId "budget" [campaignId, "sandbox-observed-overage", createActionId]

def sandboxObservedId (campaignId createActionId : String) : String :=
  deterministicId "budget" [campaignId, "sandbox-observed", createActionId]

def sandboxReleaseId (campaignId createActionId : String) : String :=
  deterministicId "budget" [campaignId, "sandbox-release", createActionId]

/-- Reserve what was spent over the reservations, so that both totals agree again. -/
def catchUp (campaignId overageId : String) (createdAt overage : ℕ) : Act Unit :=
  if 0 < overage then do
    let _ ← append (.budgetEvent (budgetEvent campaignId overageId .reserve overage createdAt))
    return ()
  else .ret ()

/-- A reservation under the ceiling: one that is recorded already is accepted when it is the same,
spending over the reservations is first caught up, and the ceiling refuses what does not fit. The
replacement and the Sandbox reservations differ in their identities and in the text of a
conflict. -/
def reserveSerialized (campaignId recordId overageId conflict : String) (createdAt amount : ℕ) :
    Act Bool := do
  let existing : Option BudgetRow ← ask (.budget recordId)
  match existing with
  | some row =>
    if row.campaignId ≠ campaignId ∨ row.eventKind ≠ .reserve ∨ row.amountMicrousd ≠ amount then
      idempotencyConflict conflict
    else return true
  | none =>
    let campaign : Option CampaignView ← ask (.campaign campaignId)
    match campaign with
    | none => policyError "campaign does not exist"
    | some view =>
      if max view.reservedMicrousd view.observedMicrousd + amount > view.ceilingMicrousd then
        return false
      else
        catchUp campaignId overageId createdAt
          (view.observedMicrousd - view.reservedMicrousd).toNat
        let _ ← append (.budgetEvent (budgetEvent campaignId recordId .reserve amount createdAt))
        return true

def reserveReplacementSerialized (campaignId priorAttemptId : String) (completedAt amount : ℕ) :
    Act Bool :=
  if amount = 0 then .ret true
  else
    reserveSerialized campaignId (replacementId campaignId priorAttemptId)
      (replacementOverageId campaignId priorAttemptId)
      "replacement budget reservation conflicts with durable state" completedAt amount

/-- Reserve a replacement Job; `false` when the ceiling refuses it. -/
def reserveReplacement (campaignId priorAttemptId : String) (completedAt amount : ℕ) : Act Bool :=
  withQueue .budget (reserveReplacementSerialized campaignId priorAttemptId completedAt amount)

def reserveSandboxSerialized (campaignId createActionId : String) (createdAt amount : ℕ) : Act Bool :=
  reserveSerialized campaignId (sandboxReservationId campaignId createActionId)
    (sandboxOverageId campaignId createActionId)
    "Sandbox budget reservation conflicts with durable state" createdAt amount

/-- Reserve a Sandbox; `false` when the ceiling refuses it. -/
def reserveSandbox (campaignId createActionId : String) (createdAt amount : ℕ) : Act Bool :=
  withQueue .budget (reserveSandboxSerialized campaignId createActionId createdAt amount)

def finalizeSerialized (campaignId createActionId : String)
    (completedAt reservation observed : ℕ) : Act Unit := do
  let releaseId := sandboxReleaseId campaignId createActionId
  let existing : Option BudgetRow ← ask (.budget releaseId)
  match existing with
  | some row =>
    if row.eventKind ≠ .release ∨ row.amountMicrousd ≠ reservation then
      idempotencyConflict "Sandbox budget release conflicts with durable state"
    else return ()
  | none =>
    let campaign : Option CampaignView ← ask (.campaign campaignId)
    match campaign with
    | none => policyError "campaign does not exist"
    | some view =>
      let _ ← append (.budgetEvent (budgetEvent campaignId
        (sandboxObservedId campaignId createActionId) .reconcile (view.observedMicrousd + observed)
        completedAt))
      let _ ← append (.budgetEvent (budgetEvent campaignId releaseId .release reservation completedAt))
      return ()

/-- Close the books of a Sandbox: reconcile the observed total and release the reservation. -/
def finalizeSandboxBudget (campaignId createActionId : String)
    (completedAt reservation observed : ℕ) : Act Unit :=
  withQueue .budget (finalizeSerialized campaignId createActionId completedAt reservation observed)

/-- The states in which a Sandbox or a Job has ended, in the spelling of the service. -/
def sandboxClosedStates : List String :=
  ["CANCELED", "CANCELLED", "COMPLETED", "DELETED", "ERROR", "STOPPED"]

/-- The characters beyond ASCII whose upper case is made of ASCII letters. -/
def foldedLetters : List (Char × String) :=
  [('ß', "SS"), ('ı', "I"), ('ſ', "S"), ('ﬀ', "FF"), ('ﬁ', "FI"), ('ﬂ', "FL"), ('ﬃ', "FFI"),
    ('ﬄ', "FFL"), ('ﬅ', "ST"), ('ﬆ', "ST")]

/-- The upper case of a character, if it is made of ASCII letters; other characters stay as they
are. -/
def upperCaseOf (character : Char) : List Char :=
  match foldedLetters.find? fun entry ↦ entry.1 = character with
  | some entry => entry.2.toList
  | none => [character.toUpper]

/-- `toUpperCase`. Its results are only compared with ASCII words. -/
def toUpperCase (text : String) : String := String.ofList (text.toList.flatMap upperCaseOf)

/-- The receipt of a close that ended its Sandbox. -/
def closedReceipt (outcome : ActionOutcome) (observedState : String) : Bool :=
  decide (outcome = .completed) && sandboxClosedStates.contains (toUpperCase observedState)

/-- What a completed action owes to the ledger: the create action, the reservation and the cost of
the Sandbox it finalizes. A create without a resource never started one, and a close that ended it
costs the whole reservation unless the receipt says otherwise. -/
def finalization (intent : ActionIntent) (receipt : ActionReceipt) :
    Except ServiceError (Option (String × ℕ × ℕ)) :=
  if intent.actionKind = .sandboxCreate ∧ receipt.resourceId.all (· = "") then
    match intent.payload.sandbox with
    | none => .error (.policy "failed Sandbox create is missing budget identity")
    | some policy =>
      .ok (some (intent.actionId, policy.reservationMicrousd, receipt.costMicrousd.getD 0))
  else if intent.actionKind = .sandboxClose ∧
      closedReceipt receipt.outcome receipt.observedState = true then
    match intent.payload.sandbox, intent.payload.sandboxCreateActionId with
    | some policy, some createActionId =>
      .ok (some (createActionId, policy.reservationMicrousd,
        receipt.costMicrousd.getD policy.reservationMicrousd))
    | _, _ => .error (.policy "Sandbox close action is missing budget identity")
  else .ok none

/-- The record that an action's follow-up work is done. -/
def advancedRecord (intent : ActionIntent) (receipt : ActionReceipt) : ActionAdvanced :=
  { recordId := deterministicId "advanced" [intent.actionId]
    createdAt := receipt.createdAt
    actor := serviceActor
    actionId := intent.actionId
    campaignId := intent.campaignId }

/-- Close the books of the Sandbox that a completed action ended. -/
def settleSandbox (intent : ActionIntent) (receipt : ActionReceipt) : Act Unit :=
  match finalization intent receipt with
  | .error error => .throw error
  | .ok none => .ret ()
  | .ok (some (createActionId, reservation, observed)) =>
    finalizeSandboxBudget intent.campaignId createActionId receipt.createdAt reservation observed

/-- Record that an action's follow-up work is done, after closing the books of the Sandbox it
ended. -/
def markAdvanced (intent : ActionIntent) (receipt : ActionReceipt) : Act ActionAdvanced :=
  if receipt.actionId ≠ intent.actionId ∨ receipt.campaignId ≠ intent.campaignId then
    policyError "advanced action receipt does not match its intent"
  else do
    settleSandbox intent receipt
    let record := advancedRecord intent receipt
    let (_, advanced) ← appendAdopting .actionAdvanced asAdvanced record fun recorded ↦
      decide ({ recorded with createdAt := receipt.createdAt } = record)
    return advanced

/-! ### Attempts and terminal selections -/

structure AttemptInput where
  campaignId : String
  taskId : String
  attemptId : String
  actionId : String
  outcome : AttemptOutcome
  replacementEligible : Bool
  evidenceDigest : String
  evidencePath : String
  costMicrousd : ℕ
  metrics : List (String × String)
  completedAt : ℕ
  deriving DecidableEq

/-- The receipt an attempt asks for. -/
def attemptRecord (input : AttemptInput) (actor : Actor) : AttemptReceipt :=
  { recordId := deterministicId "attempt-receipt" [input.attemptId]
    createdAt := input.completedAt
    actor := actor
    campaignId := input.campaignId
    taskId := input.taskId
    attemptId := input.attemptId
    actionId := input.actionId
    outcome := input.outcome
    replacementEligible := input.replacementEligible
    evidenceDigest := input.evidenceDigest
    evidencePath := input.evidencePath
    costMicrousd := input.costMicrousd
    metrics := input.metrics }

/-- Record an attempt under the ceiling; the flag says that it was recorded before. -/
def attemptSerialized (input : AttemptInput) (actor : Actor) : Act (AttemptReceipt × Bool) := do
  let candidate := attemptRecord input actor
  let existing : Option AttemptReceipt ← ask (.attemptById input.attemptId)
  match existing with
  | some record =>
    if record = candidate then return (record, true)
    else idempotencyConflict ("attempt identity conflict: " ++ input.attemptId)
  | none =>
    let action : Option ActionRow ← ask (.action input.actionId)
    if !(action.any fun row ↦ decide (row.intent.campaignId = input.campaignId ∧
        (row.intent.actionKind = .jobLaunch ∨ row.intent.actionKind = .campaignCancel))) then
      policyError ("attempt does not reference an eligible campaign action: " ++ input.actionId)
    else
      let prior : Option AttemptReceipt ← ask (.attemptForActionTask input.actionId input.taskId)
      match prior with
      | some record =>
        if actor.subject = "harbor-hf-control" then return (record, true)
        else
          idempotencyConflict
            ("action already has an attempt for task: " ++ input.actionId ++ "/" ++ input.taskId)
      | none =>
        let task : Option TaskView ← ask (.task input.campaignId input.taskId)
        match task with
        | none => policyError ("task does not exist: " ++ input.taskId)
        | some view =>
          if view.task.terminalOutcome.isSome then
            policyError ("terminal task cannot receive attempt: " ++ input.taskId)
          else
            let campaign : Option CampaignView ← ask (.campaign input.campaignId)
            match campaign with
            | none => policyError ("campaign does not exist: " ++ input.campaignId)
            | some totals =>
              if max totals.reservedMicrousd (totals.observedMicrousd + input.costMicrousd) >
                  totals.ceilingMicrousd then
                policyError "worker attempt cost exceeds the campaign ceiling"
              else
                let _ ← append (.attemptReceipt candidate)
                return (candidate, false)

/-- Record an attempt (`attemptWithStatus`). -/
def attemptWithStatus (input : AttemptInput) (actor : Actor) : Act (AttemptReceipt × Bool) :=
  withQueue .budget (attemptSerialized input actor)

def attempt (input : AttemptInput) (actor : Actor) : Act AttemptReceipt := do
  let (record, _) ← attemptWithStatus input actor
  return record

/-- The record that an attempt decided its task. -/
def terminalRecord (record : AttemptReceipt) (reason : String) (createdAt : ℕ) : TerminalSelection :=
  { recordId := deterministicId "terminal" [record.campaignId, record.taskId, record.attemptId]
    createdAt := createdAt
    actor := serviceActor
    campaignId := record.campaignId
    taskId := record.taskId
    attemptId := record.attemptId
    outcome := record.outcome
    reason := reason }

def selectTerminal (record : AttemptReceipt) (reason : String) : Act TerminalSelection := do
  let createdAt ← now
  let _ ← append (.terminalSelection (terminalRecord record reason createdAt))
  return terminalRecord record reason createdAt

/-! ### Sandbox admission -/

/-- The create actions whose Sandbox was closed. -/
def closedCreates (actions : List ActionRow) : List String :=
  (actions.filter fun row ↦
    decide (row.intent.actionKind = .sandboxClose) &&
      row.receipt.any fun receipt ↦ closedReceipt receipt.outcome receipt.observedState).filterMap
    (·.intent.payload.sandboxCreateActionId)

/-- The Sandboxes that count against the limit when an action asks for another. -/
def openCreates (actions : List ActionRow) (actionId : String) : List ActionRow :=
  actions.filter fun row ↦
    decide (row.intent.actionKind = .sandboxCreate ∧ row.outcome ≠ some .failed ∧
      row.intent.actionId ≠ actionId ∧ row.intent.actionId ∉ closedCreates actions)

/-- Admit the creation of a Sandbox: count, intent, reservation, dispatch fence. A creation over the
ceiling is recorded as failed. -/
def admitSandboxCreateSerialized (intent : ActionIntent) (maximumSandboxes : ℕ) : Act Bool := do
  if intent.actionKind ≠ .sandboxCreate ∨ maximumSandboxes < 1 then
    policyError "Sandbox create admission is invalid"
  else
    let existing : Option ActionRow ← ask (.action intent.actionId)
    if (existing.bind (·.observedState)) = some "budget-rejected" then
      policyError "Sandbox reservation exceeds the campaign ceiling"
    else
      match intent.payload.taskId with
      | none => policyError "Sandbox create admission has no task ID"
      | some _ =>
        let actions : List ActionRow ← ask (.campaignActions intent.campaignId)
        if existing.isNone ∧ maximumSandboxes ≤ (openCreates actions intent.actionId).length then
          policyError "Sandbox count exceeds immutable policy"
        else
          writeAction intent
          match intent.payload.sandbox with
          | none => policyError "Sandbox create has no immutable policy"
          | some policy =>
            let reserved ← reserveSandbox intent.campaignId intent.actionId intent.createdAt
              policy.reservationMicrousd
            if !reserved then
              let refusal ← receipt intent
                { outcome := .failed
                  observedState := "budget-rejected"
                  errorCode := some "campaign_ceiling_exceeded" }
              let _ ← markAdvanced intent refusal
              policyError "Sandbox reservation exceeds the campaign ceiling"
            else
              let time ← now
              let (_, created) ← dispatchAction intent (time + 30000)
              return created

/-- Admit the creation of a Sandbox, and return whether this request created the dispatch record. -/
def admitSandboxCreate (intent : ActionIntent) (maximumSandboxes : ℕ) : Act Bool :=
  withQueue .sandboxAdmission (admitSandboxCreateSerialized intent maximumSandboxes)

/-- The commands that count against the limit of a Sandbox. -/
def countedCommands (actions : List ActionRow) (actionId sandboxId : String) : List ActionRow :=
  actions.filter fun row ↦
    decide (row.intent.actionKind = .sandboxExec ∧ row.outcome ≠ some .failed ∧
      row.intent.actionId ≠ actionId ∧
        row.intent.payload.sandboxCreateActionId = some sandboxId)

def admitSandboxCommandSerialized (intent : ActionIntent) (maximumCommands : ℕ) : Act Unit :=
  match intent.payload.sandboxCreateActionId with
  | none => policyError "Sandbox command admission is invalid"
  | some sandboxId =>
    if intent.actionKind ≠ .sandboxExec ∨ maximumCommands < 1 then
      policyError "Sandbox command admission is invalid"
    else do
      let existing : Option ActionRow ← ask (.action intent.actionId)
      let actions : List ActionRow ← ask (.campaignActions intent.campaignId)
      if existing.isNone ∧
          maximumCommands ≤ (countedCommands actions intent.actionId sandboxId).length then
        policyError "Sandbox command count exceeds immutable policy"
      else writeAction intent

def admitSandboxCommand (intent : ActionIntent) (maximumCommands : ℕ) : Act Unit :=
  withQueue .sandboxAdmission (admitSandboxCommandSerialized intent maximumCommands)

end

end HarborHF.Control
