import HarborHF.Control.Store
import HarborHF.Relational.Table
import Mathlib.Data.List.Sort
import Mathlib.Data.List.Dedup
import Mathlib.Data.List.Lex
import Mathlib.Algebra.GroupWithZero.Nat
import Mathlib.Algebra.Order.Group.Int
import Mathlib.Algebra.Ring.Int.Defs

/-!
# The projection

The projection is a database of tables that answers every question the service asks about its
records. `Projection.apply` inserts one record, `Projection.verifyInvariants` checks the tables as a
whole, `ingest` is both for a record just appended, `sync` catches up with the store and `rebuild`
starts over from it. A failed step leaves the rows it had written behind, as the database does, so a
step returns the tables together with its error.

A row whose table keeps the record's body is the record itself. An action's row is its intent with
the receipt that completed it.

Objects are applied in the order of `localeCompare` on their paths. On the characters of object paths
that is the lexicographic order by `collationRank`, the order of the root collation.
-/

set_option autoImplicit false

namespace HarborHF.Control

open Relational

/-! ### Rows -/

structure CampaignRow where
  campaignId : String
  createdAt : ℕ
  request : Option CampaignRequest
  lock : Option CampaignLock
  ceilingMicrousd : ℕ
  deriving DecidableEq

structure TaskRow where
  campaignId : String
  taskId : String
  inputDigest : String
  terminalOutcome : Option AttemptOutcome
  selectedAttemptId : Option String
  deriving DecidableEq

/-- An action: its intent, and the receipt that completed it. -/
structure ActionRow where
  intent : ActionIntent
  receipt : Option ActionReceipt
  deriving DecidableEq

namespace ActionRow

variable (row : ActionRow)

def outcome : Option ActionOutcome := row.receipt.map (·.outcome)

def observedState : Option String := row.receipt.map (·.observedState)

def resourceId : Option String := row.receipt.bind (·.resourceId)

end ActionRow

structure BudgetRow where
  recordId : String
  campaignId : String
  eventKind : BudgetEventKind
  amountMicrousd : ℕ
  createdAt : ℕ
  deriving DecidableEq

structure EndpointRow where
  actionId : String
  campaignId : String
  endpointId : String
  desiredState : DesiredState
  observedState : String
  readyReplicas : ℕ
  cleanupVerified : Bool
  activeHourlyCostMicrousd : ℕ
  createdAt : ℕ
  deriving DecidableEq

structure ProfileRow where
  profileId : String
  profileKind : ProfileKind
  name : String
  spec : ProfileSpec
  createdAt : ℕ
  deriving DecidableEq

/-- The tables, and whether the projection is ready to serve. -/
structure Projection where
  objects : List Record := []
  campaigns : List CampaignRow := []
  tasks : List TaskRow := []
  actions : List ActionRow := []
  dispatches : List ActionDispatch := []
  advancements : List ActionAdvanced := []
  attempts : List AttemptReceipt := []
  budgets : List BudgetRow := []
  endpoints : List EndpointRow := []
  publications : List PublicationReceipt := []
  profiles : List ProfileRow := []
  promotions : List ProfilePromotion := []
  acls : List OperatorAcl := []
  migrations : List MigrationRecord := []
  ready : Bool := false
  deriving DecidableEq

/-- Why the projection refuses a record or its own tables. -/
inductive ProjectionError
  | duplicateRow (table : String)
  | dispatchHasNoIntent (actionId : String)
  | dispatchCampaignMismatch (actionId : String)
  | dispatchAfterCompletion (actionId : String)
  | receiptHasNoIntent (actionId : String)
  | receiptCampaignMismatch (actionId : String)
  | advancedHasNoReceipt (actionId : String)
  | advancedCampaignMismatch (actionId : String)
  | attemptHasNoLockedTask (attemptId : String)
  | terminalDoesNotMatchAttempt (recordId : String)
  | taskAlreadyTerminal (taskId : String)
  | promotionMissingProfile (recordId : String)
  | promotionKindMismatch (recordId : String)
  | budgetEventMissingCampaign (campaignId : String)
  | releaseExceedsReservation (campaignId : String)
  | attemptMissingCampaign (campaignId : String)
  | budgetExceedsCeiling (campaignId : String)
  | cleanupHasReadyReplicas (endpointId : String)
  | duplicateObjectListing (key : ObjectKey)
  | immutableObjectChanged (key : ObjectKey)
  | invalidRecord (key : ObjectKey)
  | evidence (error : EvidenceError)
  deriving DecidableEq

/-- The tables after a step, with the error that ended it. -/
abbrev Applied := Projection × Option ProjectionError

namespace Projection

/-! ### Applying one record -/

/-- Insert a row into one table of the projection. -/
def insertInto {α κ : Type} [DecidableEq κ] (P : Projection) (name : String) (key : α → κ) (row : α)
    (rows : List α) (put : List α → Projection) : Applied :=
  match insertRow key row rows with
  | some rows' => (put rows', none)
  | none => (P, some (.duplicateRow name))

/-- The row of a campaign. -/
def campaignRow? (P : Projection) (campaignId : String) : Option CampaignRow :=
  lookup CampaignRow.campaignId campaignId P.campaigns

/-- The campaign rows after a request: a new row, or the request of an earlier one. -/
def requestCampaign (record : CampaignRequest) (rows : List CampaignRow) : List CampaignRow :=
  match lookup CampaignRow.campaignId record.campaignId rows with
  | none =>
    rows ++ [⟨record.campaignId, record.createdAt, some record, none, record.ceilingMicrousd⟩]
  | some _ =>
    rows.map fun row ↦
      if row.campaignId = record.campaignId then { row with request := some record } else row

def applyCampaignRequest (record : CampaignRequest) (P : Projection) : Applied :=
  ({ P with campaigns := requestCampaign record P.campaigns }, none)

/-- The campaign rows after a lock: a new row, or the lock and the ceiling of an earlier one. -/
def lockCampaign (record : CampaignLock) (rows : List CampaignRow) : List CampaignRow :=
  match lookup CampaignRow.campaignId record.campaignId rows with
  | none =>
    rows ++ [⟨record.campaignId, record.createdAt, none, some record, record.ceilingMicrousd⟩]
  | some _ =>
    rows.map fun row ↦
      if row.campaignId = record.campaignId then
        { row with lock := some record, ceilingMicrousd := record.ceilingMicrousd }
      else row

/-- The primary key of a task. -/
def taskKey (row : TaskRow) : String × String := (row.campaignId, row.taskId)

/-- The row of a task that has just been locked. -/
def lockedTask (campaignId : String) (task : TaskLock) : TaskRow :=
  ⟨campaignId, task.taskId, task.inputDigest, none, none⟩

/-- Insert the tasks of a lock one by one, up to the first that is there already. -/
def insertTasks (campaignId : String) : List TaskLock → Projection → Applied
  | [], P => (P, none)
  | task :: rest, P =>
    match insertRow taskKey (lockedTask campaignId task) P.tasks with
    | some tasks => insertTasks campaignId rest { P with tasks := tasks }
    | none => (P, some (.duplicateRow "tasks"))

def applyCampaignLock (record : CampaignLock) (P : Projection) : Applied :=
  insertTasks record.campaignId record.tasks
    { P with campaigns := lockCampaign record P.campaigns }

/-- The primary key of an action. -/
def actionKey (row : ActionRow) : String := row.intent.actionId

/-- The row of an action. -/
def actionRow? (P : Projection) (actionId : String) : Option ActionRow :=
  lookup actionKey actionId P.actions

def applyActionIntent (record : ActionIntent) (P : Projection) : Applied :=
  P.insertInto "actions" actionKey ⟨record, none⟩ P.actions fun rows ↦ { P with actions := rows }

def applyActionDispatch (record : ActionDispatch) (P : Projection) : Applied :=
  match P.actionRow? record.actionId with
  | none => (P, some (.dispatchHasNoIntent record.actionId))
  | some action =>
    if action.intent.campaignId ≠ record.campaignId then
      (P, some (.dispatchCampaignMismatch record.actionId))
    else if action.receipt.isSome then (P, some (.dispatchAfterCompletion record.actionId))
    else
      P.insertInto "dispatches" ActionDispatch.actionId record P.dispatches fun rows ↦
        { P with dispatches := rows }

def applyActionReceipt (record : ActionReceipt) (P : Projection) : Applied :=
  match P.actionRow? record.actionId with
  | none => (P, some (.receiptHasNoIntent record.actionId))
  | some action =>
    if action.intent.campaignId ≠ record.campaignId then
      (P, some (.receiptCampaignMismatch record.actionId))
    else
      ({ P with
          actions := P.actions.map fun row ↦
            if row.intent.actionId = record.actionId then { row with receipt := some record }
            else row },
        none)

def applyActionAdvanced (record : ActionAdvanced) (P : Projection) : Applied :=
  match P.actionRow? record.actionId with
  | none => (P, some (.advancedHasNoReceipt record.actionId))
  | some action =>
    if action.receipt.isNone then (P, some (.advancedHasNoReceipt record.actionId))
    else if action.intent.campaignId ≠ record.campaignId then
      (P, some (.advancedCampaignMismatch record.actionId))
    else
      P.insertInto "advancements" ActionAdvanced.actionId record P.advancements fun rows ↦
        { P with advancements := rows }

/-- The row of a task. -/
def taskRow? (P : Projection) (campaignId taskId : String) : Option TaskRow :=
  lookup taskKey (campaignId, taskId) P.tasks

/-- Attempts are unique by identity and by action and task. -/
def applyAttempt (record : AttemptReceipt) (P : Projection) : Applied :=
  match P.taskRow? record.campaignId record.taskId with
  | none => (P, some (.attemptHasNoLockedTask record.attemptId))
  | some _ =>
    if P.attempts.any fun row ↦ row.actionId = record.actionId ∧ row.taskId = record.taskId then
      (P, some (.duplicateRow "attempts"))
    else
      P.insertInto "attempts" AttemptReceipt.attemptId record P.attempts fun rows ↦
        { P with attempts := rows }

/-- The task a terminal selection closes is still open. -/
def openTask (record : TerminalSelection) (row : TaskRow) : Bool :=
  decide (row.campaignId = record.campaignId ∧ row.taskId = record.taskId) &&
    row.terminalOutcome.isNone

def applyTerminal (record : TerminalSelection) (P : Projection) : Applied :=
  match lookup AttemptReceipt.attemptId record.attemptId P.attempts with
  | none => (P, some (.terminalDoesNotMatchAttempt record.recordId))
  | some attempt =>
    if attempt.campaignId ≠ record.campaignId ∨ attempt.taskId ≠ record.taskId ∨
        attempt.outcome ≠ record.outcome then
      (P, some (.terminalDoesNotMatchAttempt record.recordId))
    else if P.tasks.any (openTask record) then
      ({ P with
          tasks := P.tasks.map fun row ↦
            if openTask record row then
              { row with
                terminalOutcome := some record.outcome
                selectedAttemptId := some record.attemptId }
            else row },
        none)
    else (P, some (.taskAlreadyTerminal record.taskId))

/-- The ledger row of a budget event. -/
def budgetRow (record : BudgetEvent) : BudgetRow :=
  ⟨record.recordId, record.campaignId, record.eventKind, record.amountMicrousd, record.createdAt⟩

def applyBudget (record : BudgetEvent) (P : Projection) : Applied :=
  P.insertInto "budgets" BudgetRow.recordId (budgetRow record) P.budgets fun rows ↦
    { P with budgets := rows }

def endpointRow (record : EndpointResource) : EndpointRow :=
  ⟨record.actionId, record.campaignId, record.endpointId, record.desiredState, record.observedState,
    record.readyReplicas, record.cleanupVerified, record.activeHourlyCostMicrousd, record.createdAt⟩

def applyEndpoint (record : EndpointResource) (P : Projection) : Applied :=
  P.insertInto "endpoints" EndpointRow.actionId (endpointRow record) P.endpoints fun rows ↦
    { P with endpoints := rows }

def applyPublication (record : PublicationReceipt) (P : Projection) : Applied :=
  P.insertInto "publications" PublicationReceipt.publicationId record P.publications fun rows ↦
    { P with publications := rows }

def applyPromotion (record : ProfilePromotion) (P : Projection) : Applied :=
  P.insertInto "promotions" ProfilePromotion.recordId record P.promotions fun rows ↦
    { P with promotions := rows }

def applyAcl (record : OperatorAcl) (P : Projection) : Applied :=
  P.insertInto "acls" OperatorAcl.recordId record P.acls fun rows ↦ { P with acls := rows }

def applyMigration (record : MigrationRecord) (P : Projection) : Applied :=
  P.insertInto "migrations" MigrationRecord.recordId record P.migrations fun rows ↦
    { P with migrations := rows }

section

variable [Digests]

/-- The row of a profile, identified by the digest of its object. -/
def profileRow (record : ProfileObject) : ProfileRow :=
  ⟨recordDigest (.profileObject record), record.profileKind, record.name, record.spec,
    record.createdAt⟩

def applyProfile (record : ProfileObject) (P : Projection) : Applied :=
  P.insertInto "profiles" ProfileRow.profileId (profileRow record) P.profiles fun rows ↦
    { P with profiles := rows }

/-- The tables a record's kind writes, after its object row. -/
def applyKind : Record → Projection → Applied
  | .campaignRequest record, P => P.applyCampaignRequest record
  | .campaignLock record, P => P.applyCampaignLock record
  | .actionIntent record, P => P.applyActionIntent record
  | .actionDispatch record, P => P.applyActionDispatch record
  | .actionReceipt record, P => P.applyActionReceipt record
  | .actionAdvanced record, P => P.applyActionAdvanced record
  | .attemptReceipt record, P => P.applyAttempt record
  | .terminalSelection record, P => P.applyTerminal record
  | .budgetEvent record, P => P.applyBudget record
  | .endpointResource record, P => P.applyEndpoint record
  | .publicationReceipt record, P => P.applyPublication record
  | .profileObject record, P => P.applyProfile record
  | .profilePromotion record, P => P.applyPromotion record
  | .operatorAcl record, P => P.applyAcl record
  | .migrationRecord record, P => P.applyMigration record
  | .preparedTrial _, P => (P, none)
  | .preparedJob _, P => (P, none)

/-- Apply a record: its object row first, then the tables of its kind. -/
def apply (record : Record) (P : Projection) : Applied :=
  match insertRow Record.key record P.objects with
  | some objects => applyKind record { P with objects := objects }
  | none => (P, some (.duplicateRow "objects"))

end

/-! ### Invariants of the tables -/

/-- A promotion names a profile of its own kind. -/
def verifyPromotion (P : Projection) (promotion : ProfilePromotion) : Except ProjectionError Unit :=
  match lookup ProfileRow.profileId promotion.profileId P.profiles with
  | none => .error (.promotionMissingProfile promotion.recordId)
  | some profile =>
    if profile.profileKind ≠ promotion.profileKind then
      .error (.promotionKindMismatch promotion.recordId)
    else .ok ()

def verifyPromotions (P : Projection) : Except ProjectionError Unit :=
  P.promotions.forM P.verifyPromotion

/-- The totals of one campaign while the ledger is replayed. -/
structure BudgetState where
  campaignId : String
  ceiling : ℕ
  reserved : ℤ
  observed : ℕ
  deriving DecidableEq

/-- Record one ledger event in the totals of its campaign. -/
def BudgetState.record (state : BudgetState) (event : BudgetRow) : BudgetState :=
  match event.eventKind with
  | .reserve => { state with reserved := state.reserved + event.amountMicrousd }
  | .release => { state with reserved := state.reserved - event.amountMicrousd }
  | .reconcile => { state with observed := max state.observed event.amountMicrousd }
  | .ceiling => state

/-- Replace the totals of a campaign. -/
def setState (next : BudgetState) (states : List BudgetState) : List BudgetState :=
  states.map fun state ↦ if state.campaignId = next.campaignId then next else state

/-- Replay one event of the ledger. -/
def replayEvent (states : List BudgetState) (event : BudgetRow) :
    Except ProjectionError (List BudgetState) :=
  match lookup BudgetState.campaignId event.campaignId states with
  | none => .error (.budgetEventMissingCampaign event.campaignId)
  | some state =>
    if (state.record event).reserved < 0 then .error (.releaseExceedsReservation event.campaignId)
    else .ok (setState (state.record event) states)

/-- Rows in the order of their creation, ties broken by identity. -/
def Chronological {α : Type} (time : α → ℕ) (identity : α → String) (first second : α) : Prop :=
  time first < time second ∨ (time first = time second ∧ identity first ≤ identity second)

instance {α : Type} (time : α → ℕ) (identity : α → String) :
    DecidableRel (Chronological time identity) :=
  fun _ _ ↦ inferInstanceAs (Decidable (_ ∨ _))

/-- The ledger in the order in which it is replayed. -/
def ledger (P : Projection) : List BudgetRow :=
  P.budgets.insertionSort (Chronological BudgetRow.createdAt BudgetRow.recordId)

/-- The sum of the costs of a campaign's attempts. -/
def attemptCost (P : Projection) (campaignId : String) : ℕ :=
  ((P.attempts.filter fun row ↦ row.campaignId = campaignId).map (·.costMicrousd)).sum

/-- The campaigns that have attempts, as the database groups them. -/
def attemptCampaigns (P : Projection) : List String :=
  (P.attempts.map (·.campaignId)).dedup.insertionSort (· ≤ ·)

/-- Take the attempts of one campaign into its observed total. -/
def observeAttempts (P : Projection) (states : List BudgetState) (campaignId : String) :
    Except ProjectionError (List BudgetState) :=
  match lookup BudgetState.campaignId campaignId states with
  | none => .error (.attemptMissingCampaign campaignId)
  | some state =>
    .ok (setState { state with observed := max state.observed (P.attemptCost campaignId) } states)

/-- The totals every campaign starts the replay with. -/
def initialStates (P : Projection) : List BudgetState :=
  P.campaigns.map fun row ↦ ⟨row.campaignId, row.ceilingMicrousd, 0, 0⟩

/-- The totals of every campaign. -/
def budgetStates (P : Projection) : Except ProjectionError (List BudgetState) := do
  let states ← P.ledger.foldlM replayEvent P.initialStates
  P.attemptCampaigns.foldlM P.observeAttempts states

/-- A campaign over its ceiling. -/
def BudgetState.overBudget (state : BudgetState) : Bool :=
  decide (max state.reserved state.observed > state.ceiling)

def verifyBudgets (P : Projection) : Except ProjectionError Unit := do
  let states ← P.budgetStates
  match states.find? BudgetState.overBudget with
  | some state => .error (.budgetExceedsCeiling state.campaignId)
  | none => .ok ()

theorem verifyBudgets_of_ok {P : Projection} {states : List BudgetState}
    (h : P.budgetStates = .ok states) :
    P.verifyBudgets = match states.find? BudgetState.overBudget with
      | some state => .error (.budgetExceedsCeiling state.campaignId)
      | none => .ok () := by
  unfold verifyBudgets
  rw [h]
  rfl

theorem verifyBudgets_eq_error {P : Projection} {error : ProjectionError}
    (h : P.verifyBudgets = .error error) :
    P.budgetStates = .error error ∨ ∃ campaignId, error = .budgetExceedsCeiling campaignId := by
  cases hstates : P.budgetStates with
  | error other =>
    unfold verifyBudgets at h
    rw [hstates] at h
    cases h
    exact .inl rfl
  | ok states =>
    rw [verifyBudgets_of_ok hstates] at h
    split at h
    · cases h
      exact .inr ⟨_, rfl⟩
    · cases h

def verifyEndpoints (P : Projection) : Except ProjectionError Unit :=
  match P.endpoints.find? fun row ↦ row.cleanupVerified && decide (0 < row.readyReplicas) with
  | some row => .error (.cleanupHasReadyReplicas row.endpointId)
  | none => .ok ()

/-- The checks of the tables as a whole. -/
def verifyInvariants (P : Projection) : Except ProjectionError Unit := do
  P.verifyPromotions
  P.verifyBudgets
  P.verifyEndpoints

/-- The error of an outcome. -/
def errorOf {α : Type} : Except ProjectionError α → Option ProjectionError
  | .ok _ => none
  | .error error => some error

/-! ### Ingest, sync and rebuild -/

section

variable [Digests]

/-- Take in a record that has just been appended. -/
def ingest (record : Record) (P : Projection) : Applied :=
  match P.apply record with
  | (P', some error) => (P', some error)
  | (P', none) => (P', errorOf P'.verifyInvariants)

/-- The place of a character in the root collation, for the characters of object paths. -/
def collationRank (character : Char) : ℕ :=
  if character = '_' then 0
  else if character = '-' then 1
  else if character = '.' then 2
  else if character = '/' then 3
  else if character = '=' then 4
  else 5 + character.toNat

/-- The order of `localeCompare` on object paths. -/
def PathOrder (first second : Record) : Prop :=
  first.key.path.toList.map collationRank ≤ second.key.path.toList.map collationRank

instance : DecidableRel PathOrder := fun _ _ ↦ inferInstanceAs (Decidable (_ ≤ _))

/-- The checks of an entry before it is applied: the record schema (`parseRecord`) and the evidence
of an attempt. -/
def checkEntry (store : ObjectStore) (record : Record) : Except ProjectionError Unit :=
  if validateControlRecord record = false then .error (.invalidRecord record.key)
  else (verifyAttemptEvidence store record).mapError .evidence

/-- Apply entries in order, each after its checks, up to the first error. -/
def applyEntries (store : ObjectStore) : List Record → Projection → Applied
  | [], P => (P, none)
  | record :: rest, P =>
    match checkEntry store record with
    | .error error => (P, some error)
    | .ok _ =>
      match P.apply record with
      | (P', some error) => (P', some error)
      | (P', none) => applyEntries store rest P'

/-- Start over from the entries of the store. A failure leaves empty tables behind. -/
def rebuildFrom (store : ObjectStore) (entries : List Record) : Applied :=
  match applyEntries store (entries.insertionSort PathOrder) {} with
  | (_, some error) => ({}, some error)
  | (P, none) =>
    match P.verifyInvariants with
    | .error error => ({}, some error)
    | .ok _ => ({ P with ready := true }, none)

def rebuild (store : ObjectStore) : Applied := rebuildFrom store store.records

/-- Apply the entries the tables do not hold yet, and count them. -/
def syncEntries (store : ObjectStore) :
    List Record → List ObjectKey → ℕ → Projection → Projection × Except ProjectionError ℕ
  | [], _, ingested, P => (P, .ok ingested)
  | record :: rest, seen, ingested, P =>
    if record.key ∈ seen then (P, .error (.duplicateObjectListing record.key))
    else
      match lookup Record.key record.key P.objects with
      | some projected =>
        if projected ≠ record then (P, .error (.immutableObjectChanged record.key))
        else syncEntries store rest (record.key :: seen) ingested P
      | none =>
        match checkEntry store record with
        | .error error => (P, .error error)
        | .ok _ =>
          match P.apply record with
          | (P', some error) => (P', .error error)
          | (P', none) => syncEntries store rest (record.key :: seen) (ingested + 1) P'

/-- Catch up with the entries of the store. -/
def syncFrom (store : ObjectStore) (entries : List Record) (P : Projection) :
    Projection × Except ProjectionError ℕ :=
  match syncEntries store (entries.insertionSort PathOrder) [] 0 P with
  | (P', .error error) => ({ P' with ready := false }, .error error)
  | (P', .ok ingested) =>
    if ingested = 0 then ({ P' with ready := true }, .ok ingested)
    else
      match P'.verifyInvariants with
      | .error error => ({ P' with ready := false }, .error error)
      | .ok _ => ({ P' with ready := true }, .ok ingested)

def sync (store : ObjectStore) (P : Projection) : Projection × Except ProjectionError ℕ :=
  syncFrom store store.records P

end

end Projection

end HarborHF.Control
