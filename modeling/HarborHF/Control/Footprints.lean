import HarborHF.Control.Api

/-!
# Footprints

What the programs of the control plane can append, whatever the answers they get. `Local` is an
operation that neither calls the external port nor writes for another instance, and that appends only
records of a given kind; `FollowUpRecord` are the records the reconciler's follow-up work appends.

The follow-up of a receipt never calls the port (`uses_advance`), and only `continueCancellation`
seals a task as cancelled (`uses_continueCancellation`).
-/

set_option autoImplicit false

namespace HarborHF.Control

open Async Program

/-- An operation that stays within the control plane and appends only allowed records. -/
def Local (allowed : Record → Prop) : Op → Prop
  | .append record => allowed record
  | .remoteAppend _ => False
  | .port _ => False
  | _ => True

section

variable {α β : Type} {allowed : Record → Prop}

/-! ### Awaited operations -/

theorem Local.mono {weaker : Record → Prop} (himplies : ∀ record, allowed record → weaker record)
    (op : Op) (h : Local allowed op) : Local weaker op := by
  cases op with
  | append record => exact himplies record h
  | remoteAppend record => exact h
  | port call => exact h
  | _ => trivial

theorem uses_ask (question : Query) : (ask question).Uses (Local allowed) :=
  ⟨trivial, fun _ ↦ trivial⟩

theorem uses_now : now.Uses (Local allowed) := ⟨trivial, fun _ ↦ trivial⟩

theorem uses_append {record : Record} (h : allowed record) :
    (append record).Uses (Local allowed) := ⟨h, fun answer ↦ uses_ofExcept answer⟩

theorem uses_syncProjection : syncProjection.Uses (Local allowed) :=
  ⟨trivial, fun answer ↦ uses_ofExcept answer⟩

theorem uses_readRecord (key : ObjectKey) : (readRecord key).Uses (Local allowed) :=
  ⟨trivial, fun _ ↦ trivial⟩

theorem uses_withQueue {queue : Queue} {method : Act β} (h : method.Uses (Local allowed)) :
    (withQueue queue method).Uses (Local allowed) :=
  ⟨trivial, fun _ ↦ uses_bind (uses_attempt h) fun outcome ↦
    ⟨trivial, fun _ ↦ uses_ofExcept outcome⟩⟩

/-- Adopting appends its record first, and nothing after. -/
theorem appendAdopting_await (allowed : Record → Prop) {τ : Type} (wrap : τ → Record) (unwrap : Record → Option τ) (record : τ)
    (equivalent : τ → Bool) : ∃ resume : Except ServiceError Bool → Act (Bool × τ),
      appendAdopting wrap unwrap record equivalent = .await (.append (wrap record)) resume ∧
        ∀ answer, (resume answer).Uses (Local allowed) := by
  refine ⟨_, rfl, fun answer ↦ uses_bind (uses_attempt (uses_ofExcept answer)) fun appended ↦ ?_⟩
  split
  · trivial
  · refine uses_bind (uses_readRecord _) fun existing ↦ ?_
    split
    · trivial
    · split_ifs
      · exact uses_bind uses_syncProjection fun _ ↦ trivial
      · trivial
  · trivial

theorem uses_appendAdopting {τ : Type} {wrap : τ → Record} {unwrap : Record → Option τ} {record : τ}
    {equivalent : τ → Bool} (h : allowed (wrap record)) :
    (appendAdopting wrap unwrap record equivalent).Uses (Local allowed) := by
  obtain ⟨resume, heq, hresume⟩ := appendAdopting_await allowed wrap unwrap record equivalent
  rw [heq]
  exact ⟨h, hresume⟩

section

variable [Digests] {intent : ActionIntent}

/-! ### The service -/

omit [Digests] in
theorem uses_writeAction (h : allowed (.actionIntent intent)) :
    (writeAction intent).Uses (Local allowed) := by
  refine uses_bind (uses_ask _) fun existing ↦ ?_
  split
  · split_ifs <;> trivial
  · refine uses_bind ?_ fun _ ↦ uses_bind (uses_appendAdopting h) fun _ ↦ trivial
    unfold requireOpenTask
    split
    · trivial
    · refine uses_bind (uses_ask _) fun task ↦ ?_
      split_ifs <;> trivial

/-- The intents of a kind that the service writes for a campaign. -/
def ServiceWrites (allowed : Record → Prop) (campaignId : String) (kind : ActionKind) : Prop :=
  ∀ target generation payload createdAt, allowed (.actionIntent
    (actionIntent campaignId kind target generation payload serviceActor createdAt))

theorem uses_serviceIntent {campaignId target : String} {kind : ActionKind} {generation : ℕ}
    {payload : ActionPayload} {next : ActionIntent → Act β}
    (h : ∀ createdAt, (next (actionIntent campaignId kind target generation payload serviceActor
      createdAt)).Uses (Local allowed)) :
    (serviceIntent campaignId kind target generation payload >>= next).Uses (Local allowed) :=
  ⟨trivial, h⟩

theorem uses_writeService {campaignId target : String} {kind : ActionKind} {generation : ℕ}
    {payload : ActionPayload} (h : ∀ createdAt, allowed (.actionIntent
      (actionIntent campaignId kind target generation payload serviceActor createdAt))) :
    (serviceIntent campaignId kind target generation payload >>= writeAction).Uses (Local allowed) :=
  uses_serviceIntent fun createdAt ↦ uses_writeAction (h createdAt)

theorem uses_dispatchAction {adoptionNotBefore : ℕ} (h : ∀ operation createdAt,
      allowed (.actionDispatch (dispatchRecord intent operation createdAt adoptionNotBefore))) :
    (dispatchAction intent adoptionNotBefore).Uses (Local allowed) := by
  unfold dispatchAction
  split
  · trivial
  · refine uses_bind (uses_ask _) fun existing ↦ ?_
    split
    · trivial
    · exact uses_bind uses_now fun createdAt ↦
        uses_bind (uses_appendAdopting (h _ createdAt)) fun _ ↦ trivial

theorem uses_receipt {result : ExternalActionResult}
    (h : ∀ createdAt, allowed (.actionReceipt (receiptRecord intent result createdAt))) :
    (receipt intent result).Uses (Local allowed) :=
  uses_bind uses_now fun createdAt ↦ uses_bind (uses_appendAdopting (h createdAt)) fun _ ↦ trivial

omit [Digests] in
omit [Digests] in
/-- A reservation asks and appends, and does nothing else. -/
theorem reserveSerialized_uses {ok : Op → Prop} {campaignId recordId overageId conflict : String}
    {createdAt amount : ℕ} (hquery : ∀ question, ok (.query question)) (h : ∀ amount,
      ok (.append (.budgetEvent (budgetEvent campaignId recordId .reserve amount createdAt))))
    (hoverage : ∀ amount,
      ok (.append (.budgetEvent (budgetEvent campaignId overageId .reserve amount createdAt)))) :
    (reserveSerialized campaignId recordId overageId conflict createdAt amount).Uses ok := by
  refine ⟨hquery _, fun existing ↦ ?_⟩
  dsimp only [Program.bind]
  split
  · split_ifs <;> trivial
  · refine ⟨hquery _, fun campaign ↦ ?_⟩
    dsimp only [Program.bind]
    split
    · trivial
    · split_ifs
      · trivial
      · refine uses_bind ?_ fun _ ↦ ⟨h _, fun answer ↦ uses_bind (uses_ofExcept answer) fun _ ↦ trivial⟩
        unfold catchUp
        split_ifs
        · exact ⟨hoverage _, fun answer ↦ uses_bind (uses_ofExcept answer) fun _ ↦ trivial⟩
        · trivial

omit [Digests] in
theorem uses_reserveSerialized {campaignId recordId overageId conflict : String}
    {createdAt amount : ℕ}
    (h : ∀ amount, allowed (.budgetEvent (budgetEvent campaignId recordId .reserve amount createdAt)))
    (hoverage : ∀ amount,
      allowed (.budgetEvent (budgetEvent campaignId overageId .reserve amount createdAt))) :
    (reserveSerialized campaignId recordId overageId conflict createdAt amount).Uses
      (Local allowed) := reserveSerialized_uses (fun _ ↦ trivial) h hoverage

theorem uses_finalizeSandboxBudget {campaignId createActionId : String}
    {completedAt reservation observed : ℕ}
    (hreconcile : ∀ amount, allowed (.budgetEvent (budgetEvent campaignId
      (sandboxObservedId campaignId createActionId) .reconcile amount completedAt)))
    (hrelease : allowed (.budgetEvent (budgetEvent campaignId
      (sandboxReleaseId campaignId createActionId) .release reservation completedAt))) :
    (finalizeSandboxBudget campaignId createActionId completedAt reservation observed).Uses
      (Local allowed) := by
  refine uses_withQueue (uses_bind (uses_ask _) fun existing ↦ ?_)
  split
  · split_ifs <;> trivial
  · refine uses_bind (uses_ask _) fun campaign ↦ ?_
    split
    · trivial
    · exact uses_bind (uses_append (hreconcile _)) fun _ ↦
        uses_bind (uses_append hrelease) fun _ ↦ trivial

theorem uses_markAdvanced {receipt : ActionReceipt}
    (h : allowed (.actionAdvanced (advancedRecord intent receipt)))
    (hsettle : (settleSandbox intent receipt).Uses (Local allowed)) :
    (markAdvanced intent receipt).Uses (Local allowed) := by
  unfold markAdvanced
  split_ifs
  · trivial
  · exact uses_bind hsettle fun _ ↦ uses_bind (uses_appendAdopting h) fun _ ↦ trivial

theorem uses_attemptWithStatus {input : AttemptInput} {actor : Actor}
    (h : allowed (.attemptReceipt (attemptRecord input actor))) :
    (attemptWithStatus input actor).Uses (Local allowed) := by
  refine uses_withQueue (uses_bind (uses_ask _) fun existing ↦ ?_)
  split
  · split_ifs <;> trivial
  refine uses_bind (uses_ask _) fun action ↦ ?_
  split
  · trivial
  refine uses_bind (uses_ask _) fun prior ↦ ?_
  split
  · split_ifs <;> trivial
  refine uses_bind (uses_ask _) fun task ↦ ?_
  split
  · trivial
  split
  · trivial
  refine uses_bind (uses_ask _) fun campaign ↦ ?_
  split
  · trivial
  split_ifs
  · trivial
  · exact uses_bind (uses_append h) fun _ ↦ trivial

theorem uses_selectTerminal {record : AttemptReceipt} {reason : String}
    (h : ∀ createdAt, allowed (.terminalSelection (terminalRecord record reason createdAt))) :
    (selectTerminal record reason).Uses (Local allowed) :=
  uses_bind uses_now fun createdAt ↦ uses_bind (uses_append (h createdAt)) fun _ ↦ trivial

/-! ### The follow-up of a receipt -/

/-- The kinds of actions the follow-up work starts. -/
def followUpKinds : List ActionKind :=
  [.jobLaunch, .jobObserve, .jobCancel, .endpointPause, .endpointResume, .sandboxClose,
    .publicationPublish]

/-- The records the follow-up work appends: intents of the service, receipts of suppressed data
actions, reservations of Jobs, attempts with their selections, and endpoint states. -/
def FollowUpRecord : Record → Prop
  | .actionIntent intent => intent.actor = serviceActor ∧ intent.actionKind ∈ followUpKinds
  | .actionReceipt receipt => ∃ intent result createdAt,
      isDataAction intent.actionKind = true ∧ receipt = receiptRecord intent result createdAt
  | .actionAdvanced advanced => ∃ intent receipt,
      isDataAction intent.actionKind = true ∧ advanced = advancedRecord intent receipt
  | .budgetEvent event => event.eventKind = .reserve ∧
      ∀ campaignId createActionId, event.recordId ≠ sandboxReservationId campaignId createActionId
  | .attemptReceipt attempt => attempt.actor = serviceActor
  | .terminalSelection selection => selection.reason ≠ "operator cancellation"
  | .endpointResource _ => True
  | _ => False

theorem followUp_writes {kind : ActionKind} (h : kind ∈ followUpKinds) (campaignId : String) :
    ServiceWrites FollowUpRecord campaignId kind := fun _ _ _ _ ↦ ⟨rfl, h⟩

theorem uses_writeServiceAction {campaignId target : String} {kind : ActionKind} {generation : ℕ}
    {payload : ActionPayload} (h : kind ∈ followUpKinds) :
    (serviceIntent campaignId kind target generation payload >>= writeAction).Uses
      (Local FollowUpRecord) := uses_writeService fun _ ↦ followUp_writes h _ _ _ _ _

omit [Digests] in
theorem uses_requiredLock (campaignId : String) :
    (requiredLock campaignId).Uses (Local allowed) := by
  refine uses_bind (uses_ask _) fun lock ↦ ?_
  split <;> trivial

theorem uses_reserveInitialAction {campaignId category : String} {generation amount createdAt : ℕ}
    (h : allowed (.budgetEvent (budgetEvent campaignId
      (deterministicId "budget" [campaignId, category, toString generation]) .reserve amount
      createdAt))) :
    (reserveInitialAction campaignId category generation amount createdAt).Uses (Local allowed) := by
  unfold reserveInitialAction
  split_ifs
  · trivial
  · exact uses_bind (uses_append h) fun _ ↦ trivial

theorem followUp_initial {campaignId category : String} {generation amount createdAt : ℕ}
    (hcategory : category ≠ "sandbox") : FollowUpRecord (.budgetEvent (budgetEvent campaignId
      (deterministicId "budget" [campaignId, category, toString generation]) .reserve amount
      createdAt)) := by
  refine ⟨rfl, fun other createActionId heq ↦ ?_⟩
  simp only [budgetEvent, sandboxReservationId, deterministicId_inj, List.cons.injEq] at heq
  exact hcategory heq.2.2.1

theorem uses_launchPreparation (lock : CampaignLock) (createdAt attempt : ℕ) :
    (launchPreparation lock createdAt attempt).Uses (Local FollowUpRecord) := by
  refine uses_bind (uses_ofExcept _) fun deployment ↦ uses_bind (uses_ofExcept _) fun policy ↦ ?_
  split
  · trivial
  · refine uses_bind (uses_reserveInitialAction (followUp_initial (by decide))) fun _ ↦
      uses_bind (uses_ofExcept _) fun payload ↦ uses_writeServiceAction (by decide)

omit [Digests] in
theorem uses_requirePrepared (deployment : HfJobDeployment) (campaignId : String) :
    (requirePrepared deployment campaignId).Uses (Local allowed) := by
  unfold requirePrepared
  split_ifs
  · refine uses_bind (uses_bind (uses_readRecord _) fun _ ↦ trivial) fun prepared ↦ ?_
    split <;> trivial
  · trivial

omit [Digests] in
theorem execution_ne_sandbox (key : String) : "execution-" ++ key ≠ "sandbox" := by
  intro h
  have hfirst := congrArg (fun text : String ↦ text.toList.head?) h
  simp at hfirst

theorem uses_launchBatch (lock : CampaignLock) (deployment : HfJobDeployment)
    (createdAt generation : ℕ) (taskIds : List String) :
    (launchBatch lock deployment createdAt generation taskIds).Uses (Local FollowUpRecord) :=
  uses_bind (uses_ofExcept _) fun _ ↦
    uses_bind (uses_reserveInitialAction (followUp_initial (execution_ne_sandbox _))) fun _ ↦
      uses_bind (uses_requirePrepared _ _) fun _ ↦ uses_writeServiceAction (by decide)

theorem uses_launchExecution (lock : CampaignLock) (createdAt generation : ℕ) :
    (launchExecution lock createdAt generation).Uses (Local FollowUpRecord) := by
  refine uses_bind (uses_ofExcept _) fun deployment ↦ ?_
  split
  · trivial
  · dsimp only
    split_ifs
    · exact uses_forM fun taskIds _ ↦ uses_launchBatch _ _ _ _ taskIds
    · exact uses_launchBatch _ _ _ _ _

theorem uses_admitCampaign (admission : ActionIntent) (receipt : ActionReceipt) :
    (admitCampaign admission receipt).Uses (Local FollowUpRecord) := by
  refine uses_bind (uses_requiredLock _) fun lock ↦ uses_bind (uses_ofExcept _) fun deployment ↦ ?_
  split_ifs
  · exact uses_launchPreparation _ _ _
  · exact uses_launchExecution _ _ _

theorem uses_observeJob (options : ReconcilerOptions) (launch : ActionIntent)
    (receipt : ActionReceipt) : (observeJob options launch receipt).Uses (Local FollowUpRecord) := by
  unfold observeJob
  split
  · trivial
  · split_ifs
    · trivial
    · exact uses_writeServiceAction (by decide)

theorem uses_observeAgain (intent : ActionIntent) (payload : ActionPayload) :
    (observeAgain intent payload).Uses (Local FollowUpRecord) :=
  uses_writeServiceAction (by decide)

theorem uses_reserveReplacement (campaignId priorAttemptId : String) (completedAt amount : ℕ) :
    (reserveReplacement campaignId priorAttemptId completedAt amount).Uses
      (Local FollowUpRecord) := by
  refine uses_withQueue ?_
  unfold reserveReplacementSerialized
  split_ifs
  · trivial
  · refine uses_reserveSerialized (fun _ ↦ ⟨rfl, fun _ _ heq ↦ ?_⟩) fun _ ↦ ⟨rfl, fun _ _ heq ↦ ?_⟩
    · simp [budgetEvent, replacementId, sandboxReservationId] at heq
    · simp [budgetEvent, replacementOverageId, sandboxReservationId] at heq

theorem uses_selectFollowUp {record : AttemptReceipt} {reason : String}
    (h : reason ≠ "operator cancellation") :
    (selectTerminal record reason).Uses (Local FollowUpRecord) := uses_selectTerminal fun _ ↦ h

theorem uses_replaceAttempt (record : AttemptReceipt) (source : ActionIntent) :
    (replaceAttempt record source).Uses (Local FollowUpRecord) := by
  refine uses_bind (uses_ask _) fun recorded ↦ ?_
  split
  · trivial
  refine uses_bind (uses_ask _) fun known ↦ uses_bind (uses_ofExcept _) fun maximum ↦ ?_
  split
  · refine uses_bind (uses_ofExcept _) fun reservation ↦
      uses_bind (uses_reserveReplacement _ _ _ _) fun reserved ↦ ?_
    split
    · exact uses_bind (uses_selectFollowUp (by decide)) fun _ ↦ trivial
    · exact uses_writeServiceAction (by decide)
  · exact uses_bind (uses_selectFollowUp (by decide)) fun _ ↦ trivial

theorem uses_finishAttempt (record : AttemptReceipt) (source : ActionIntent) :
    (finishAttempt record source).Uses (Local FollowUpRecord) := by
  unfold finishAttempt
  split
  · exact uses_withQueue (uses_replaceAttempt record source)
  · refine uses_bind (uses_selectFollowUp ?_) fun _ ↦ trivial
    split_ifs <;> decide

theorem uses_serviceAttempt (input : AttemptInput) :
    (attempt input serviceActor).Uses (Local FollowUpRecord) :=
  uses_bind (uses_attemptWithStatus rfl) fun _ ↦ trivial

theorem uses_completeTasksFromJob (intent : ActionIntent) (receipt : ActionReceipt)
    (fallback : AttemptOutcome) (replacementEligible : Bool) :
    (completeTasksFromJob intent receipt fallback replacementEligible).Uses
      (Local FollowUpRecord) := by
  refine uses_bind (uses_ofExcept _) fun taskIds ↦ uses_bind (uses_ask _) fun known ↦
    uses_forM fun taskId _ ↦ uses_bind (uses_ask _) fun task ↦ ?_
  split
  · trivial
  split
  · trivial
  refine uses_bind (uses_ofExcept _) fun launchActionId ↦ ?_
  dsimp only
  split
  · exact uses_finishAttempt _ _
  · exact uses_bind (uses_serviceAttempt _) fun record ↦ uses_finishAttempt record intent

theorem uses_finishPreparation (options : ReconcilerOptions) (intent : ActionIntent)
    (receipt : ActionReceipt) (successful : Bool) (prepared : Option PreparedJob) :
    (finishPreparation options intent receipt successful prepared).Uses (Local FollowUpRecord) := by
  unfold finishPreparation
  split
  · refine uses_bind (uses_requiredLock _) fun lock ↦ ?_
    split
    · trivial
    · exact uses_launchExecution _ _ _
  · refine uses_bind (uses_ask _) fun cancelling ↦ ?_
    dsimp only
    split
    · exact uses_observeAgain _ _
    · refine uses_bind (uses_ofExcept _) fun maximum ↦ ?_
      split
      · exact uses_bind (uses_requiredLock _) fun lock ↦ uses_launchPreparation _ _ _
      · exact uses_completeTasksFromJob _ _ _ _

theorem uses_handlePreparationTerminal (options : ReconcilerOptions) (intent : ActionIntent)
    (receipt : ActionReceipt) (state : String) :
    (handlePreparationTerminal options intent receipt state).Uses (Local FollowUpRecord) := by
  unfold handlePreparationTerminal
  split
  · exact uses_bind (uses_bind (uses_readRecord _) fun _ ↦ trivial) fun prepared ↦
      uses_finishPreparation _ _ _ _ prepared
  · exact uses_finishPreparation _ _ _ _ _

theorem uses_handleStoppedJob (options : ReconcilerOptions) (intent : ActionIntent)
    (receipt : ActionReceipt) :
    (handleStoppedJob options intent receipt).Uses (Local FollowUpRecord) := by
  refine uses_bind (uses_ofExcept _) fun successful ↦ uses_bind ?_ fun present ↦
    uses_bind (uses_ask _) fun cancelling ↦ ?_
  · exact uses_bind uses_syncProjection fun _ ↦ uses_bind (uses_ofExcept _) fun _ ↦
      uses_bind (uses_ofExcept _) fun _ ↦ uses_bind (uses_ask _) fun _ ↦ trivial
  · dsimp only
    split
    · exact uses_observeAgain _ _
    · exact uses_completeTasksFromJob _ _ _ _

theorem uses_handleJobObservation (options : ReconcilerOptions) (intent : ActionIntent)
    (receipt : ActionReceipt) :
    (handleJobObservation options intent receipt).Uses (Local FollowUpRecord) := by
  unfold handleJobObservation
  dsimp only
  split
  · exact uses_observeAgain _ _
  split
  · exact uses_handlePreparationTerminal _ _ _ _
  split
  · exact uses_handleStoppedJob _ _ _
  · exact uses_completeTasksFromJob _ _ _ _

theorem uses_advanceLaunch (options : ReconcilerOptions) (intent : ActionIntent)
    (receipt : ActionReceipt) :
    (advanceLaunch options intent receipt).Uses (Local FollowUpRecord) := by
  unfold advanceLaunch
  split
  · trivial
  split
  · split
    · exact uses_handlePreparationTerminal _ _ _ _
    · exact uses_completeTasksFromJob _ _ _ _
  · exact uses_observeJob _ _ _

theorem uses_advanceEndpoint (options : ReconcilerOptions) (intent : ActionIntent)
    (receipt : ActionReceipt) (hintent : ServiceWrites allowed intent.campaignId intent.actionKind)
    (hendpoint : ∀ record, allowed (.endpointResource record)) :
    (advanceEndpoint options intent receipt).Uses (Local allowed) := by
  unfold advanceEndpoint
  split
  · split
    · split
      · trivial
      · exact uses_bind (uses_append (hendpoint _)) fun _ ↦ trivial
    · trivial
  · exact uses_writeService fun _ ↦ hintent _ _ _ _

/-! ### Cleanup, cancellation and publication -/

theorem settleSandbox_data {receipt : ActionReceipt}
    (h : isDataAction intent.actionKind = true) : settleSandbox intent receipt = .ret () := by
  unfold settleSandbox finalization
  have hcreate : intent.actionKind ≠ .sandboxCreate := by
    intro heq
    rw [heq] at h
    cases h
  have hclose : intent.actionKind ≠ .sandboxClose := by
    intro heq
    rw [heq] at h
    cases h
  simp [hcreate, hclose]

/-- The records that end a data action without carrying it out. -/
structure Suppresses (allowed : Record → Prop) (row : ActionRow) : Prop where
  receipt : ∀ result createdAt, allowed (.actionReceipt (receiptRecord row.intent result createdAt))
  advanced : ∀ receipt, allowed (.actionAdvanced (advancedRecord row.intent receipt))

theorem uses_suppressDataAction {row : ActionRow} (hdata : isDataAction row.intent.actionKind = true)
    (h : Suppresses allowed row) : (suppressDataAction row).Uses (Local allowed) := by
  refine uses_bind (uses_ask _) fun dispatched ↦ uses_bind (uses_receipt (h.receipt _)) fun record ↦
    uses_bind (uses_markAdvanced (h.advanced record) ?_) fun _ ↦ trivial
  rw [settleSandbox_data hdata]
  trivial

theorem uses_closeSandboxes {campaignId : String} (actions creates : List ActionRow)
    (h : ServiceWrites allowed campaignId .sandboxClose) :
    (closeSandboxes campaignId actions creates).Uses (Local allowed) := by
  induction creates with
  | nil => trivial
  | cons create rest ih =>
    refine uses_bind ?_ fun _ ↦ uses_bind ih fun _ ↦ trivial
    unfold closeSandbox
    dsimp only
    split
    · trivial
    split
    · trivial
    split
    · split
      · trivial
      · exact uses_serviceIntent fun createdAt ↦ uses_bind (uses_writeAction (h _ _ _ _)) fun _ ↦ trivial
    · trivial

theorem uses_cleanupSandboxes {campaignId : String} {actions : List ActionRow}
    (h : ServiceWrites allowed campaignId .sandboxClose)
    (hdata : ∀ row ∈ actions, isDataAction row.intent.actionKind = true → Suppresses allowed row) :
    (cleanupSandboxes campaignId actions).Uses (Local allowed) := by
  unfold cleanupSandboxes
  dsimp only
  split
  · trivial
  split
  · exact uses_closeSandboxes _ _ h
  · refine uses_bind (uses_forM fun row hrow ↦ ?_) fun _ ↦ trivial
    obtain ⟨hmem, hfilter⟩ := List.mem_filter.mp hrow
    have hkind := (Bool.and_eq_true_iff.mp hfilter).1
    exact uses_suppressDataAction hkind (hdata row hmem hkind)

theorem uses_cleanupFollowUp (campaignId : String) (actions : List ActionRow) :
    (cleanupSandboxes campaignId actions).Uses (Local FollowUpRecord) := by
  refine uses_cleanupSandboxes (followUp_writes (by decide) _) fun row _ hkind ↦ ?_
  exact ⟨fun result createdAt ↦ ⟨_, result, createdAt, hkind, rfl⟩, fun receipt ↦ ⟨_, receipt, hkind, rfl⟩⟩

/-- The records of a cancellation: those of any follow-up, and the seals of open tasks. -/
def CancellationRecord (record : Record) : Prop :=
  FollowUpRecord record ∨ ∃ selection, record = .terminalSelection selection

omit [Digests] in
theorem uses_anyDispatched (launches : List ActionRow) :
    (anyDispatched launches).Uses (Local allowed) := by
  induction launches with
  | nil => trivial
  | cons launch rest ih =>
    refine uses_bind (uses_ask _) fun dispatch ↦ ?_
    split
    · trivial
    · exact ih

theorem uses_cancelJob (options : ReconcilerOptions) {campaignId : String} (actions : List ActionRow)
    (job : ActiveJob) (h : ServiceWrites allowed campaignId .jobCancel) :
    (cancelJob options campaignId actions job).Uses (Local allowed) := by
  unfold cancelJob
  dsimp only
  split
  · trivial
  split
  · trivial
  · exact uses_writeService fun _ ↦ h _ _ _ _

theorem uses_cancelTask (campaignId : String) (intent : ActionIntent) (receipt : ActionReceipt)
    (task : TaskRow) : (cancelTask campaignId intent receipt task).Uses (Local CancellationRecord) := by
  unfold cancelTask
  split
  · trivial
  · refine uses_bind ((uses_serviceAttempt _).mono (Local.mono fun _ ↦ .inl)) fun record ↦
      uses_bind (uses_selectTerminal fun createdAt ↦ .inr ⟨_, rfl⟩) fun _ ↦ trivial

theorem uses_continueCancellation (options : ReconcilerOptions) (campaignId : String) :
    (continueCancellation options campaignId).Uses (Local CancellationRecord) := by
  refine uses_bind (uses_ask _) fun actions ↦ uses_bind (uses_anyDispatched _) fun dispatched ↦ ?_
  split
  · trivial
  refine uses_bind ((uses_cleanupFollowUp _ _).mono (Local.mono fun _ ↦ .inl)) fun cleaning ↦ ?_
  split
  · trivial
  split
  · split
    · trivial
    · exact uses_bind (uses_ask _) fun tasks ↦ uses_forM fun task _ ↦ uses_cancelTask _ _ _ task
  · exact uses_forM fun job _ ↦ (uses_cancelJob _ _ job (followUp_writes (by decide) _)).mono
      (Local.mono fun _ ↦ .inl)

theorem uses_pauseEndpoints (options : ReconcilerOptions) {campaignId : String}
    (actions : List ActionRow) (endpoints : List EndpointRow)
    (h : ServiceWrites allowed campaignId .endpointPause) :
    (pauseEndpoints options campaignId actions endpoints).Uses (Local allowed) := by
  induction endpoints with
  | nil => trivial
  | cons endpoint rest ih =>
    refine uses_bind ?_ fun _ ↦ uses_bind ih fun _ ↦ trivial
    unfold pauseEndpoint
    dsimp only
    split
    · trivial
    split
    · trivial
    · exact uses_serviceIntent fun createdAt ↦ uses_bind (uses_writeAction (h _ _ _ _)) fun _ ↦ trivial

theorem uses_maybePublish (options : ReconcilerOptions) (campaignId : String) :
    (maybePublish options campaignId).Uses (Local FollowUpRecord) := by
  refine uses_bind (uses_ask _) fun campaign ↦ ?_
  split
  · trivial
  refine uses_bind (uses_bind (uses_ask _) fun actions ↦ uses_cleanupFollowUp _ actions)
    fun sandboxes ↦ ?_
  split
  · trivial
  refine uses_bind (uses_bind (uses_ask _) fun rows ↦ ?_) fun endpoints ↦ ?_
  · dsimp only
    split
    · trivial
    · exact uses_bind (uses_ask _) fun actions ↦
        uses_pauseEndpoints _ _ _ (followUp_writes (by decide) _)
  split
  · trivial
  refine uses_bind (uses_ask _) fun refreshed ↦ ?_
  split
  · trivial
  refine uses_bind (uses_ask _) fun published ↦ ?_
  split
  · trivial
  refine uses_bind (uses_ask _) fun recorded ↦ ?_
  split
  · trivial
  · exact uses_serviceIntent fun createdAt ↦
      uses_bind (uses_writeAction ⟨rfl, by simp [actionIntent, followUpKinds]⟩) fun _ ↦ trivial

/-- The follow-up of a receipt stays within the control plane. -/
theorem uses_advance (options : ReconcilerOptions) (intent : ActionIntent)
    (receipt : ActionReceipt) :
    (advance options intent receipt).Uses (Local CancellationRecord) := by
  have hfollowUp : ∀ {γ : Type} {program : Act γ}, program.Uses (Local FollowUpRecord) →
      program.Uses (Local CancellationRecord) := fun h ↦ h.mono (Local.mono fun _ ↦ .inl)
  refine uses_bind ?_ fun _ ↦ uses_bind ?_ fun _ ↦
    uses_bind (hfollowUp (uses_maybePublish _ _)) fun _ ↦ trivial
  · unfold advanceKind
    split
    · exact hfollowUp (uses_admitCampaign _ _)
    · exact hfollowUp (uses_advanceLaunch _ _ _)
    · exact hfollowUp (uses_handleJobObservation _ _ _)
    · exact uses_continueCancellation _ _
    · next hkind =>
      exact hfollowUp (uses_advanceEndpoint _ _ _ (followUp_writes (hkind ▸ by decide) _) fun _ ↦ trivial)
    · next hkind =>
      exact hfollowUp (uses_advanceEndpoint _ _ _ (followUp_writes (hkind ▸ by decide) _) fun _ ↦ trivial)
    · exact uses_continueCancellation _ _
    all_goals trivial
  · unfold advanceCancellation
    split
    · trivial
    · refine uses_bind (uses_ask _) fun cancelled ↦ ?_
      split
      · exact uses_continueCancellation _ _
      · trivial

/-! ### Requests -/

/-- Any record at all. -/
def AnyRecord (_ : Record) : Prop := True

/-- The records with which the books of any action are kept. -/
structure Books (allowed : Record → Prop) : Prop where
  budget : ∀ record, allowed (.budgetEvent record)
  dispatch : ∀ record, allowed (.actionDispatch record)
  advanced : ∀ record, allowed (.actionAdvanced record)

omit [Digests] in
theorem books_any : Books AnyRecord := ⟨fun _ ↦ trivial, fun _ ↦ trivial, fun _ ↦ trivial⟩

theorem uses_settleSandbox (h : Books allowed) (intent : ActionIntent) (receipt : ActionReceipt) :
    (settleSandbox intent receipt).Uses (Local allowed) := by
  unfold settleSandbox
  split
  · trivial
  · trivial
  · exact uses_finalizeSandboxBudget (fun _ ↦ h.budget _) (h.budget _)

theorem uses_markAny (h : Books allowed) (intent : ActionIntent) (receipt : ActionReceipt) :
    (markAdvanced intent receipt).Uses (Local allowed) :=
  uses_markAdvanced (h.advanced _) (uses_settleSandbox h intent receipt)

theorem uses_settleAction {result : ExternalActionResult} (h : Books allowed)
    (hreceipt : ∀ createdAt, allowed (.actionReceipt (receiptRecord intent result createdAt))) :
    (settleAction intent result).Uses (Local allowed) :=
  uses_bind (uses_receipt hreceipt) fun record ↦
    uses_bind (uses_markAny h intent record) fun _ ↦ trivial

theorem uses_admitSandboxCreate (maximumSandboxes : ℕ) (h : Books allowed)
    (hintent : allowed (.actionIntent intent))
    (hreceipt : ∀ result createdAt, allowed (.actionReceipt (receiptRecord intent result createdAt))) :
    (admitSandboxCreate intent maximumSandboxes).Uses (Local allowed) := by
  refine uses_withQueue ?_
  unfold admitSandboxCreateSerialized
  split
  · trivial
  refine uses_bind (uses_ask _) fun existing ↦ ?_
  split
  · trivial
  split
  · trivial
  refine uses_bind (uses_ask _) fun actions ↦ ?_
  split
  · trivial
  refine uses_bind (uses_writeAction hintent) fun _ ↦ ?_
  split
  · trivial
  refine uses_bind (uses_withQueue (uses_reserveSerialized (fun _ ↦ h.budget _) fun _ ↦ h.budget _))
    fun reserved ↦ ?_
  split
  · exact uses_bind (uses_receipt (hreceipt _)) fun refusal ↦
      uses_bind (uses_markAny h intent refusal) fun _ ↦ trivial
  · exact uses_bind uses_now fun _ ↦
      uses_bind (uses_dispatchAction fun _ _ ↦ h.dispatch _) fun _ ↦ trivial

omit [Digests] in
theorem uses_admitSandboxCommand (maximumCommands : ℕ) (hintent : allowed (.actionIntent intent)) :
    (admitSandboxCommand intent maximumCommands).Uses (Local allowed) := by
  refine uses_withQueue ?_
  unfold admitSandboxCommandSerialized
  split
  · trivial
  split
  · trivial
  refine uses_bind (uses_ask _) fun existing ↦ uses_bind (uses_ask _) fun actions ↦ ?_
  split
  · trivial
  · exact uses_writeAction hintent

theorem uses_sandboxPolicy (derive : PreparedPolicy) (lock : CampaignLock) (taskId : String) :
    (sandboxPolicy derive lock taskId).Uses (Local allowed) := by
  unfold sandboxPolicy
  split
  · split
    · refine uses_bind (uses_bind (uses_readRecord _) fun _ ↦ trivial) fun prepared ↦
        uses_bind (uses_bind (uses_readRecord _) fun _ ↦ trivial) fun trial ↦ ?_
      split
      · split
        · trivial
        · split
          · trivial
          · split <;> trivial
      · trivial
    · split <;> trivial
  · trivial

theorem uses_loadSandboxContext (derive : PreparedPolicy) (request : SandboxRequest)
    (operation : ActionKind) (sandboxId : Option String) :
    (loadSandboxContext derive request operation sandboxId).Uses (Local allowed) := by
  refine uses_bind (uses_ofExcept _) fun _ ↦ uses_bind (uses_ask _) fun locked ↦ ?_
  split
  · trivial
  split
  · trivial
  refine uses_bind (uses_sandboxPolicy _ _ _) fun policy ↦ ?_
  split
  · trivial
  refine uses_bind ?_ fun resourceId ↦ trivial
  unfold contextResource
  split
  · trivial
  · refine uses_bind (uses_bind (uses_ask _) fun row ↦ ?_) fun _ ↦ trivial
    split
    · trivial
    split
    · trivial
    · split <;> trivial

theorem uses_campaignAction (campaignId : String) (input : CampaignActionInput)
    (idempotencyKey : String) (actor : Actor) :
    (campaignAction campaignId input idempotencyKey actor).Uses (Local AnyRecord) := by
  have hrecorded : ∀ generation, (recordedRetry campaignId input generation).Uses
      (Local AnyRecord) := by
    intro generation
    unfold recordedRetry
    split
    · refine uses_bind (uses_ask _) fun existing ↦ ?_
      split
      · trivial
      · split <;> trivial
    · trivial
  have hretry : ∀ campaign lock taskId reason,
      (retryAction campaign lock taskId reason).Uses (Local AnyRecord) := by
    intro campaign lock taskId reason
    refine uses_bind (uses_ask _) fun task ↦ ?_
    split
    · trivial
    split
    · trivial
    split
    · trivial
    refine uses_bind (uses_ask _) fun recorded ↦ ?_
    split
    · trivial
    refine uses_bind (uses_ofExcept _) fun deployment ↦ ?_
    split
    · trivial
    refine uses_bind (uses_ofExcept _) fun policy ↦ ?_
    split
    · trivial
    · exact uses_bind (uses_requirePrepared _ _) fun _ ↦ trivial
  have haction : ∀ view lock, (operatorAction view lock input).Uses (Local AnyRecord) := by
    intro view lock
    unfold operatorAction
    split
    · trivial
    · split
      · trivial
      split
      · trivial
      refine uses_bind (uses_ask _) fun published ↦ ?_
      split <;> trivial
    · refine uses_bind (uses_ask _) fun rows ↦ ?_
      split <;> trivial
    · split
      · trivial
      · exact hretry _ _ _ _
  have hwrite : ∀ generation asked, (writeOperatorAction campaignId generation actor asked).Uses
      (Local AnyRecord) := by
    intro generation asked
    refine uses_bind ?_ fun _ ↦ uses_bind uses_now fun timestamp ↦ uses_bind (uses_ask _) fun _ ↦
      uses_bind (uses_writeAction trivial) fun _ ↦ trivial
    unfold reserveRetry
    split
    · trivial
    · refine uses_bind ((uses_reserveReplacement _ _ _ _).mono (Local.mono fun _ _ ↦ trivial))
        fun reserved ↦ ?_
      split <;> trivial
  have hvalidated : (campaignActionValidated campaignId input idempotencyKey actor).Uses
      (Local AnyRecord) := by
    refine uses_bind (uses_ask _) fun campaign ↦ ?_
    split
    · trivial
    refine uses_bind (uses_ask _) fun lock ↦ ?_
    split
    · trivial
    refine uses_bind (hrecorded _) fun recorded ↦ ?_
    split
    · trivial
    · exact uses_bind (haction _ _) fun asked ↦ hwrite _ asked
  refine uses_bind (uses_ask _) fun ready ↦ ?_
  split
  · trivial
  split
  · trivial
  split
  · exact uses_withQueue hvalidated
  · exact hvalidated

end

end

end HarborHF.Control
