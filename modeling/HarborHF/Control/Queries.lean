import HarborHF.Control.Projection
import HarborHF.Relational.Order

/-!
# Queries on the projection

What the service, the reconciler and the API read from the tables. Each query is one read of the
database; the service reads again whenever it needs a fresh answer, so a decision may rest on two
reads with other work in between.

`campaignView` holds the totals of a campaign: `reservedMicrousd` adds the reserve events of its
ledger and subtracts the release events, `observedMicrousd` is the larger of the sum of its attempt
costs and its largest reconcile event.
-/

set_option autoImplicit false

namespace HarborHF.Control

open Relational

/-! ### The order of creation -/

namespace Projection

variable {α : Type} {time : α → ℕ} {identity : α → String}

instance : Std.Total (Chronological time identity) :=
  ⟨fun first second ↦ by
    unfold Chronological
    rcases lt_trichotomy (time first) (time second) with h | h | h
    · exact .inl (.inl h)
    · rcases le_total (identity first) (identity second) with hle | hle
      · exact .inl (.inr ⟨h, hle⟩)
      · exact .inr (.inr ⟨h.symm, hle⟩)
    · exact .inr (.inl h)⟩

instance : IsTrans α (Chronological time identity) :=
  ⟨fun first second third hfirst hsecond ↦ by
    rcases hfirst with hlt | ⟨heq, hle⟩
    · rcases hsecond with hlt' | ⟨heq', -⟩
      · exact .inl (hlt.trans hlt')
      · exact .inl (heq' ▸ hlt)
    · rcases hsecond with hlt' | ⟨heq', hle'⟩
      · exact .inl (heq ▸ hlt')
      · exact .inr ⟨heq.trans heq', hle.trans hle'⟩⟩

theorem ordered_chronological {table : List α} (hkeyed : Keyed identity table) :
    Ordered (Chronological time identity) table := by
  intro first hfirst second hsecond hbefore hafter
  refine hkeyed.eq_of_mem hfirst hsecond ?_
  rcases hbefore with hlt | ⟨heq, hle⟩
  · rcases hafter with hlt' | ⟨heq', -⟩
    · omega
    · omega
  · rcases hafter with hlt' | ⟨-, hle'⟩
    · omega
    · exact hle.antisymm hle'

end Projection

/-! ### Views -/

/-- What the tables say of a campaign. -/
structure CampaignView where
  campaignId : String
  createdAt : ℕ
  status : String
  ceilingMicrousd : ℕ
  reservedMicrousd : ℤ
  observedMicrousd : ℕ
  totalTasks : ℕ
  terminalTasks : ℕ
  pendingActions : ℕ
  publicationStatus : Option PublicationState
  cleanupPending : Bool
  deriving DecidableEq

/-- A task with its attempts in the order of their creation. -/
structure TaskView where
  task : TaskRow
  attempts : List AttemptReceipt
  deriving DecidableEq

/-- What one ledger event adds to the reserved total. -/
def BudgetRow.reservedDelta (row : BudgetRow) : ℤ :=
  match row.eventKind with
  | .reserve => row.amountMicrousd
  | .release => -row.amountMicrousd
  | .reconcile => 0
  | .ceiling => 0

/-- What one ledger event claims to have been observed. -/
def BudgetRow.observedAmount (row : BudgetRow) : ℕ :=
  match row.eventKind with
  | .reconcile => row.amountMicrousd
  | _ => 0

namespace Projection

variable (P : Projection)

/-! ### Single rows -/

def objectAt (key : ObjectKey) : Option Record := lookup Record.key key P.objects

def action (actionId : String) : Option ActionRow := P.actionRow? actionId

def actionDispatch (actionId : String) : Option ActionDispatch :=
  lookup ActionDispatch.actionId actionId P.dispatches

def campaignRequest (campaignId : String) : Option CampaignRequest :=
  (P.campaignRow? campaignId).bind (·.request)

def campaignLock (campaignId : String) : Option CampaignLock :=
  (P.campaignRow? campaignId).bind (·.lock)

def budget (recordId : String) : Option BudgetRow := lookup BudgetRow.recordId recordId P.budgets

def attemptById (attemptId : String) : Option AttemptReceipt :=
  lookup AttemptReceipt.attemptId attemptId P.attempts

def attemptForActionTask (actionId taskId : String) : Option AttemptReceipt :=
  P.attempts.find? fun row ↦ row.actionId = actionId ∧ row.taskId = taskId

/-! ### Lists of rows -/

/-- Rows in the reverse order of their creation. -/
def ReverseChronological {α : Type} (time : α → ℕ) (identity : α → String) (first second : α) :
    Prop := Chronological time identity second first

instance {α : Type} (time : α → ℕ) (identity : α → String) :
    DecidableRel (ReverseChronological time identity) :=
  fun _ _ ↦ inferInstanceAs (Decidable (_ ∨ _))

/-- When an action was recorded. -/
def actionTime (row : ActionRow) : ℕ := row.intent.createdAt

/-- The intents without a receipt, the oldest first. -/
def pendingActions (limit : ℕ) : List ActionIntent :=
  (((P.actions.filter fun row ↦ row.receipt.isNone).insertionSort
    (Chronological actionTime actionKey)).take limit).map (·.intent)

/-- The receipts whose follow-up work is not recorded as done, the oldest action first. Migrated
actions are left alone. -/
def unadvancedActions (limit : ℕ) : List (ActionIntent × ActionReceipt) :=
  ((P.actions.filter fun row ↦
      row.receipt.isSome &&
        P.advancements.all (fun advanced ↦ decide (advanced.actionId ≠ row.intent.actionId)) &&
          decide (row.intent.actor.role ≠ .migration)).insertionSort
    (Chronological actionTime actionKey)).take limit |>.filterMap fun row ↦
      row.receipt.map fun receipt ↦ (row.intent, receipt)

/-- The actions of a campaign, the latest first. -/
def campaignActions (campaignId : String) : List ActionRow :=
  (P.actions.filter fun row ↦ row.intent.campaignId = campaignId).insertionSort
    (ReverseChronological actionTime actionKey)

/-- The latest actions. -/
def actionsList (limit : ℕ) : List ActionRow :=
  (P.actions.insertionSort (ReverseChronological actionTime actionKey)).take limit

def hasCampaignAction (campaignId : String) (kind : ActionKind) : Bool :=
  P.actions.any fun row ↦ decide (row.intent.campaignId = campaignId ∧ row.intent.actionKind = kind)

/-- The launch that replaces an attempt. -/
def retryActionForAttempt (campaignId priorAttemptId : String) : Option ActionRow :=
  ((P.actions.filter fun row ↦
      row.intent.campaignId = campaignId ∧ row.intent.actionKind = .jobLaunch ∧
        row.intent.payload.priorAttemptId = some priorAttemptId).insertionSort
    (Chronological actionTime actionKey)).head?

/-- The attempts of a campaign, the oldest first. -/
def campaignAttempts (campaignId : String) : List AttemptReceipt :=
  (P.attempts.filter fun row ↦ row.campaignId = campaignId).insertionSort
    fun first second ↦ first.createdAt ≤ second.createdAt

def tasksOf (campaignId : String) : List TaskRow :=
  (P.tasks.filter fun row ↦ row.campaignId = campaignId).insertionSort
    fun first second ↦ first.taskId ≤ second.taskId

def task (campaignId taskId : String) : Option TaskView :=
  (P.taskRow? campaignId taskId).map fun row ↦
    ⟨row, (P.attempts.filter fun attempt ↦
        attempt.campaignId = campaignId ∧ attempt.taskId = taskId).insertionSort
      fun first second ↦ first.createdAt ≤ second.createdAt⟩

/-- The latest publication of a campaign. -/
def campaignPublication (campaignId : String) : Option PublicationReceipt :=
  ((P.publications.filter fun row ↦ row.campaignId = campaignId).insertionSort
    fun first second ↦ second.createdAt ≤ first.createdAt).head?

/-- The latest row of each endpoint. -/
def latestEndpoints (rows : List EndpointRow) : List EndpointRow :=
  let ordered := rows.insertionSort (ReverseChronological EndpointRow.createdAt EndpointRow.actionId)
  ordered.foldl (fun latest row ↦
    if latest.any fun other ↦ other.endpointId = row.endpointId then latest else latest ++ [row]) []

/-- The latest row of every endpoint, the latest first. -/
def endpointsList (limit : ℕ) : List EndpointRow := (latestEndpoints P.endpoints).take limit

/-! ### Campaign totals -/

/-- The ledger of one campaign. -/
def budgetsOf (campaignId : String) : List BudgetRow :=
  P.budgets.filter fun row ↦ row.campaignId = campaignId

def reservedMicrousd (campaignId : String) : ℤ :=
  ((P.budgetsOf campaignId).map BudgetRow.reservedDelta).sum

def observedMicrousd (campaignId : String) : ℕ :=
  max (P.attemptCost campaignId)
    (((P.budgetsOf campaignId).map BudgetRow.observedAmount).foldr max 0)

/-- The view of a campaign's row. -/
def campaignView (row : CampaignRow) : CampaignView :=
  let tasks := P.tasks.filter fun task ↦ task.campaignId = row.campaignId
  let total := tasks.length
  let terminal := (tasks.filter fun task ↦ task.terminalOutcome.isSome).length
  let pending := (P.actions.filter fun action ↦
    action.intent.campaignId = row.campaignId && action.receipt.isNone).length
  let publication := (P.campaignPublication row.campaignId).map (·.publicationState)
  let cleanupPending :=
    (latestEndpoints (P.endpoints.filter fun endpoint ↦ endpoint.campaignId = row.campaignId)).any
      fun endpoint ↦ !endpoint.cleanupVerified
  { campaignId := row.campaignId
    createdAt := row.createdAt
    status :=
      if terminal = total ∧ 0 < total then
        if publication = some .published ∧ cleanupPending = false then "completed" else "publishing"
      else if 0 < pending ∨ 0 < terminal then "active"
      else "queued"
    ceilingMicrousd := row.ceilingMicrousd
    reservedMicrousd := P.reservedMicrousd row.campaignId
    observedMicrousd := P.observedMicrousd row.campaignId
    totalTasks := total
    terminalTasks := terminal
    pendingActions := pending
    publicationStatus := publication
    cleanupPending := cleanupPending }

def campaign (campaignId : String) : Option CampaignView :=
  (P.campaignRow? campaignId).map P.campaignView

/-- The campaigns, the latest first. -/
def campaignsList (limit : ℕ) : List CampaignView :=
  ((P.campaigns.insertionSort
    (ReverseChronological CampaignRow.createdAt CampaignRow.campaignId)).take limit).map P.campaignView

end Projection

end HarborHF.Control
