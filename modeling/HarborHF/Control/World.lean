import HarborHF.Async.Pool
import HarborHF.Control.Queries

/-!
# The control plane as a machine

`World` is the state of the control plane: the durable store, the projection, and the queues of the
service that are held. `Op` lists what its asynchronous code awaits: queries on the projection,
`append` and `syncProjection`, reads and writes of single objects, the clock, calls of the external
port, and the queues. `machine` says what each operation does.

An append is one atomic step. The service runs appends and syncs one after the other in a queue of
their own, nothing else writes the projection's tables, and the two parts of an append (the object,
then its rows) are never read together by anyone: a query between them answers as before the append.
Every other await is an interleaving point. `remoteAppend` is a write of another instance that shares
the store; the projection hears of it at the next sync.

The other queues are mutual exclusion between the operations that take them. The clock, the answers
of the port and what the profile resolver and the publisher compute are choices of the environment.
A restart rebuilds the projection from the store, and there is no restart when the rebuild fails.
-/

set_option autoImplicit false

namespace HarborHF.Control

open Async

/-! ### Errors and the external port -/

/-- How a call of the external port fails. -/
inductive PortError
  | notFound | ambiguous
  | other (message : String)
  deriving DecidableEq

/-- What the service's methods throw. -/
inductive ServiceError
  | contractValidation
  | policy (message : String)
  | idempotencyConflict (message : String)
  | immutableConflict (key : ObjectKey)
  | immutableObject (path : String)
  | projection (error : ProjectionError)
  | notReady
  | confirmationRequired (message : String)
  | workerScope (message : String)
  | profileResolution (message : String)
  | port (error : PortError)
  | publication (message : String)
  deriving DecidableEq

/-- What an external action reports. -/
structure ExternalActionResult where
  outcome : ActionOutcome
  observedState : String
  resourceId : Option String := none
  errorCode : Option String := none
  readyReplicas : Option ℕ := none
  activeHourlyCostMicrousd : Option ℕ := none
  costMicrousd : Option ℕ := none
  deriving DecidableEq

/-- The methods of the external port: `execute` of the action port, and the Sandbox gateway's
`lifecycle`, `execute`, `write` and `read`. -/
inductive PortMethod
  | execute | lifecycle | command | write | read
  deriving DecidableEq

/-- A call of the external port for an action. -/
structure PortCall where
  method : PortMethod
  intent : ActionIntent
  adoptionOnly : Bool
  deriving DecidableEq

/-- What a port call returns: the external result, and the text of its own output. -/
structure PortOutput where
  external : ExternalActionResult
  text : String
  deriving DecidableEq

/-- What the profile resolver returns for a submission. -/
structure Resolution where
  profiles : List ResolvedProfile
  tasks : List TaskLock
  sourceRevision : String
  deriving DecidableEq

/-- What the publisher computes for a campaign's publication receipt. -/
structure PublicationParts where
  createdAt : ℕ
  catalogDigest : String
  rest : String
  deriving DecidableEq

/-! ### Operations -/

/-- The queues of the service, apart from the append queue. -/
inductive Queue
  | budget | retryAdmission | submit | preparation | sandboxAdmission
  deriving DecidableEq

/-- The queries on the projection. -/
inductive Query
  | ready
  | action (actionId : String)
  | actionDispatch (actionId : String)
  | campaignRequest (campaignId : String)
  | campaignLock (campaignId : String)
  | budget (recordId : String)
  | attemptById (attemptId : String)
  | attemptForActionTask (actionId taskId : String)
  | campaignAttempts (campaignId : String)
  | campaignPublication (campaignId : String)
  | campaign (campaignId : String)
  | campaigns (limit : ℕ)
  | tasks (campaignId : String)
  | task (campaignId taskId : String)
  | actions (limit : ℕ)
  | campaignActions (campaignId : String)
  | retryActionForAttempt (campaignId priorAttemptId : String)
  | hasCampaignAction (campaignId : String) (kind : ActionKind)
  | endpoints (limit : ℕ)
  | pendingActions (limit : ℕ)
  | unadvancedActions (limit : ℕ)
  deriving DecidableEq

/-- The answers of a query. -/
def Query.Ans : Query → Type
  | ready => Bool
  | action _ => Option ActionRow
  | actionDispatch _ => Option ActionDispatch
  | campaignRequest _ => Option CampaignRequest
  | campaignLock _ => Option CampaignLock
  | budget _ => Option BudgetRow
  | attemptById _ => Option AttemptReceipt
  | attemptForActionTask _ _ => Option AttemptReceipt
  | campaignAttempts _ => List AttemptReceipt
  | campaignPublication _ => Option PublicationReceipt
  | campaign _ => Option CampaignView
  | campaigns _ => List CampaignView
  | tasks _ => List TaskRow
  | task _ _ => Option TaskView
  | actions _ => List ActionRow
  | campaignActions _ => List ActionRow
  | retryActionForAttempt _ _ => Option ActionRow
  | hasCampaignAction _ _ => Bool
  | endpoints _ => List EndpointRow
  | pendingActions _ => List ActionIntent
  | unadvancedActions _ => List (ActionIntent × ActionReceipt)

/-- What a query answers. -/
def Query.answer (P : Projection) : (query : Query) → query.Ans
  | ready => P.ready
  | action actionId => P.action actionId
  | actionDispatch actionId => P.actionDispatch actionId
  | campaignRequest campaignId => P.campaignRequest campaignId
  | campaignLock campaignId => P.campaignLock campaignId
  | budget recordId => P.budget recordId
  | attemptById attemptId => P.attemptById attemptId
  | attemptForActionTask actionId taskId => P.attemptForActionTask actionId taskId
  | campaignAttempts campaignId => P.campaignAttempts campaignId
  | campaignPublication campaignId => P.campaignPublication campaignId
  | campaign campaignId => P.campaign campaignId
  | campaigns limit => P.campaignsList limit
  | tasks campaignId => P.tasksOf campaignId
  | task campaignId taskId => P.task campaignId taskId
  | actions limit => P.actionsList limit
  | campaignActions campaignId => P.campaignActions campaignId
  | retryActionForAttempt campaignId priorAttemptId =>
    P.retryActionForAttempt campaignId priorAttemptId
  | hasCampaignAction campaignId kind => P.hasCampaignAction campaignId kind
  | endpoints limit => P.endpointsList limit
  | pendingActions limit => P.pendingActions limit
  | unadvancedActions limit => P.unadvancedActions limit

/-- What the control plane's code awaits. -/
inductive Op
  | query (question : Query)
  | append (record : Record)
  | remoteAppend (record : Record)
  | syncProjection
  | readRecord (key : ObjectKey)
  | readResult (campaignId actionId : String)
  | createResult (result : SandboxResult)
  | createEvidence (object : StoredObject)
  | now
  | port (call : PortCall)
  | resolve
  | validatePreparedProfiles (profiles : List ResolvedProfile) (tasks : List TaskLock)
  | buildPublication (campaignId : String)
  | acquire (queue : Queue)
  | release (queue : Queue)
  deriving DecidableEq

/-- The answers of an operation. An append answers whether the object was created. -/
def Op.Ans : Op → Type
  | query question => question.Ans
  | append _ => Except ServiceError Bool
  | remoteAppend _ => Unit
  | syncProjection => Except ServiceError ℕ
  | readRecord _ => Option Record
  | readResult _ _ => Option SandboxResult
  | createResult _ => Except ServiceError Unit
  | createEvidence _ => Except ServiceError Unit
  | now => ℕ
  | port _ => Except PortError PortOutput
  | resolve => Except ServiceError Resolution
  | validatePreparedProfiles _ _ => Option String
  | buildPublication _ => Except ServiceError PublicationParts
  | acquire _ => Unit
  | release _ => Unit

/-- The operations of the control plane. -/
def interface : Interface := ⟨Op, Op.Ans⟩

/-- A program of the control plane. -/
abbrev Act (α : Type) := Program interface ServiceError α

/-- A choice of the environment. -/
structure Choice where
  now : ℕ := 0
  port : Except PortError PortOutput := .error .ambiguous
  resolution : Except ServiceError Resolution := .error (.profileResolution "")
  profilesError : Option String := none
  publication : Except ServiceError PublicationParts := .error (.publication "")

/-! ### The state and its steps -/

/-- The state of the control plane: the durable store, the projection, and which thread holds which
queue. -/
structure World where
  store : ObjectStore
  projection : Projection
  held : List (Queue × ℕ)
  deriving DecidableEq

namespace World

variable [Digests] (world : World)

/-- Append a record: validate it, check its evidence, create its object, and take it into the
projection unless it is there (`appendSerialized`). The object stays when the projection refuses
it. -/
def append (record : Record) : Except ServiceError Bool × World :=
  if validateControlRecord record = false then (.error .contractValidation, world)
  else
    match verifyAttemptEvidence world.store record with
    | .error _ => (.error (.policy "attempt evidence verification failed"), world)
    | .ok _ =>
      match world.store.createRecord record with
      | none => (.error (.immutableConflict record.key), world)
      | some (created, store) =>
        match world.projection.objectAt record.key with
        | some projected =>
          if projected ≠ record then
            (.error (.idempotencyConflict ("projection digest conflict at " ++ record.key.path)),
              { world with store := store })
          else (.ok created, { world with store := store })
        | none =>
          match world.projection.ingest record with
          | (projection, some error) =>
            (.error (.projection error), { world with store := store, projection := projection })
          | (projection, none) =>
            (.ok created, { world with store := store, projection := projection })

/-- Another instance of the service, with a projection of its own, writes a record's object. -/
def remoteAppend (record : Record) : World :=
  if validateControlRecord record = false then world
  else
    match verifyAttemptEvidence world.store record with
    | .error _ => world
    | .ok _ =>
      match world.store.createRecord record with
      | none => world
      | some (_, store) => { world with store := store }

/-- Catch the projection up with the store. -/
def syncProjection : Except ServiceError ℕ × World :=
  match world.projection.sync world.store with
  | (projection, .ok ingested) => (.ok ingested, { world with projection := projection })
  | (projection, .error error) =>
    (.error (.projection error), { world with projection := projection })

/-- Where the result of a Sandbox action is stored. -/
def sandboxResultPath (campaignId actionId : String) : String :=
  "sandbox-results/schema=v1/" ++ campaignId ++ "/" ++ actionId ++ "/result.json"

/-- Store the result of a Sandbox action. -/
def createResult (result : SandboxResult) : Except ServiceError Unit × World :=
  match world.store.createResult result with
  | some store => (.ok (), { world with store := store })
  | none =>
    (.error (.immutableObject (sandboxResultPath result.campaignId result.actionId)), world)

/-- Store an evidence object. -/
def createEvidence (object : StoredObject) : Except ServiceError Unit × World :=
  match world.store.createEvidence object with
  | some store => (.ok (), { world with store := store })
  | none => (.error (.immutableObject object.path), world)

/-- One operation of a thread; an acquire waits while any thread holds the queue. -/
def perform (thread : ℕ) : (op : Op) → Choice → World → Option (op.Ans × World)
  | .query question, _, world => some (question.answer world.projection, world)
  | .append record, _, world => some (world.append record)
  | .remoteAppend record, _, world => some ((), world.remoteAppend record)
  | .syncProjection, _, world => some world.syncProjection
  | .readRecord key, _, world => some (world.store.readRecord key, world)
  | .readResult campaignId actionId, _, world =>
    some (world.store.readResult campaignId actionId, world)
  | .createResult result, _, world => some (world.createResult result)
  | .createEvidence object, _, world => some (world.createEvidence object)
  | .now, choice, world => some (choice.now, world)
  | .port _, choice, world => some (choice.port, world)
  | .resolve, choice, world => some (choice.resolution, world)
  | .validatePreparedProfiles _ _, choice, world => some (choice.profilesError, world)
  | .buildPublication _, choice, world => some (choice.publication, world)
  | .acquire queue, _, world =>
    if world.held.any fun entry ↦ entry.1 = queue then none
    else some ((), { world with held := (queue, thread) :: world.held })
  | .release queue, _, world =>
    some ((), { world with held := world.held.filter fun entry ↦ entry ≠ (queue, thread) })

/-- Restart after a crash: rebuild the projection, with every queue free. -/
def restart : Option World :=
  match Projection.rebuild world.store with
  | (projection, none) => some { world with projection := projection, held := [] }
  | (_, some _) => none

end World

section

variable [Digests]

/-- The control plane as a machine. -/
def machine : Machine interface World Choice := ⟨World.perform, World.restart⟩

end

/-- The threads of the control plane: the reconciler, of which one runs at a time, and the requests
of the API. -/
inductive ThreadRole
  | reconciler | api
  deriving DecidableEq

/-- Two reconciler runs exclude each other. -/
def ThreadRole.conflict : ThreadRole → ThreadRole → Bool
  | reconciler, reconciler => true
  | _, _ => false

end HarborHF.Control
