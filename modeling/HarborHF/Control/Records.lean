import Mathlib.Data.String.Basic
import Mathlib.Tactic.Common

/-!
# Control records

Everything the control plane knows is a set of immutable records under `control/schema=v1`. A
`Record` is one of the seventeen kinds of the record schema; `Record.key` is the object it is stored
under (`controlRecordPath`) and `ObjectKey.path` that object's path. `validateControlRecord` is the
part of the schema that bounds numbers.

Timestamps are milliseconds since the epoch and amounts are micro-dollars. Fields that no function
of the control core reads are kept as one opaque `rest`, so that two records that differ only there
are still different objects.

Identities are digests. `Digests` stands for the hash: `deterministicId` is taken to be injective in
its prefix and parts, and nothing is assumed of the other digests.
-/

set_option autoImplicit false

namespace HarborHF.Control

/-! ### Enumerations of the schema -/

/-- The role of an actor. -/
inductive Role
  | operator | reader | service | migration
  deriving DecidableEq

/-- Who wrote a record. -/
structure Actor where
  subject : String
  role : Role
  deriving DecidableEq

/-- The actor of the service's own records. -/
def serviceActor : Actor := ⟨"harbor-hf-control", .service⟩

inductive ActionKind
  | campaignAdmit | jobLaunch | jobObserve | jobCancel | endpointResume | endpointPause
  | sandboxCreate | sandboxObserve | sandboxExec | sandboxWrite | sandboxRead | sandboxClose
  | publicationPublish | campaignCancel
  deriving DecidableEq

/-- The name of an action kind in the schema. -/
def ActionKind.name : ActionKind → String
  | .campaignAdmit => "campaign.admit"
  | .jobLaunch => "job.launch"
  | .jobObserve => "job.observe"
  | .jobCancel => "job.cancel"
  | .endpointResume => "endpoint.resume"
  | .endpointPause => "endpoint.pause"
  | .sandboxCreate => "sandbox.create"
  | .sandboxObserve => "sandbox.observe"
  | .sandboxExec => "sandbox.exec"
  | .sandboxWrite => "sandbox.write"
  | .sandboxRead => "sandbox.read"
  | .sandboxClose => "sandbox.close"
  | .publicationPublish => "publication.publish"
  | .campaignCancel => "campaign.cancel"

/-- The operation a dispatch record fences. -/
inductive DispatchOperation
  | create | observe | execute | write | read | close
  deriving DecidableEq

/-- The outcome of an external action. -/
inductive ActionOutcome
  | adopted | created | completed | failed
  deriving DecidableEq

/-- The outcome of an attempt at a task. -/
inductive AttemptOutcome
  | complete | invalid | infrastructure | semantic | refusal | verifier | agent
  | benchmarkTimeout | cancelled | policy
  deriving DecidableEq

inductive BudgetEventKind
  | ceiling | reserve | reconcile | release
  deriving DecidableEq

inductive DesiredState
  | running | paused | deleted
  deriving DecidableEq

inductive PublicationState
  | published | failed
  deriving DecidableEq

def PublicationState.name : PublicationState → String
  | .published => "published"
  | .failed => "failed"

inductive ProfileKind
  | benchmark | model | harness | deployment | launchPolicy
  deriving DecidableEq

def ProfileKind.name : ProfileKind → String
  | .benchmark => "benchmark"
  | .model => "model"
  | .harness => "harness"
  | .deployment => "deployment"
  | .launchPolicy => "launch_policy"

inductive PromotionState
  | candidate | recommended | approved
  deriving DecidableEq

inductive WorkerRole
  | preparation | execution
  deriving DecidableEq

/-! ### Profiles and policies -/

/-- The immutable policy of a Sandbox. -/
structure SandboxPolicy where
  reservationMicrousd : ℕ
  maxSandboxes : ℕ
  maxCommands : ℕ
  maxCommandSeconds : ℕ
  maxTransferBytes : ℕ
  timeoutSeconds : ℕ
  allowedRoots : List String
  rest : String
  deriving DecidableEq

/-- The template a prepared trial's Sandbox policy is derived from. -/
structure SandboxTemplate where
  maxTimeoutSeconds : ℕ
  rest : String
  deriving DecidableEq

/-- A deployment that launches Jobs. -/
structure HfJobDeployment where
  jobImage : String
  jobCommand : List String
  hardware : String
  timeoutSeconds : ℕ
  trustedWorker : Bool
  workerRevision : Option String
  inferenceRequired : Bool
  inferenceLimits : String
  sandbox : Option SandboxPolicy
  sandboxTemplate : Option SandboxTemplate
  workerMaxTasksPerJob : Option ℕ
  preparationRequired : Bool
  preparationJobCommand : Option (List String)
  preparationTimeoutSeconds : Option ℕ
  rest : String
  deriving DecidableEq

structure LaunchPolicySpec where
  maxInfrastructureAttempts : ℕ
  reservationMicrousd : ℕ
  successWithoutWorkerReceipt : Bool
  preparationReservationMicrousd : Option ℕ
  maxPreparationAttempts : Option ℕ
  rest : String
  deriving DecidableEq

/-- The specification of a profile. An imported deployment cannot launch Jobs. -/
inductive ProfileSpec
  | hfJob (spec : HfJobDeployment)
  | imported (rest : String)
  | launchPolicy (spec : LaunchPolicySpec)
  | other (rest : String)
  deriving DecidableEq

/-- A profile as a campaign lock carries it. -/
structure ResolvedProfile where
  kind : ProfileKind
  profileId : String
  name : String
  spec : ProfileSpec
  deriving DecidableEq

structure ProfileRef where
  kind : ProfileKind
  aliasName : String
  deriving DecidableEq

structure TaskLock where
  taskId : String
  inputDigest : String
  sourceTaskId : Option String
  trialIndex : Option ℕ
  deriving DecidableEq

/-- The payload of an action. Absent fields are `none`. -/
structure ActionPayload where
  taskIds : Option (List String) := none
  taskId : Option String := none
  reason : Option String := none
  workerRole : Option WorkerRole := none
  preparationAttempt : Option ℕ := none
  successWithoutWorkerReceipt : Option Bool := none
  maxInfrastructureAttempts : Option ℕ := none
  reservationMicrousd : Option ℕ := none
  resourceId : Option String := none
  launchActionId : Option String := none
  notBefore : Option ℕ := none
  workerReceiptDeadline : Option ℕ := none
  priorAttemptId : Option String := none
  endpointId : Option String := none
  sandbox : Option SandboxPolicy := none
  sandboxCreateActionId : Option String := none
  command : Option (List String) := none
  cwd : Option String := none
  path : Option String := none
  contentDigest : Option String := none
  contentSize : Option ℕ := none
  mode : Option String := none
  timeoutSeconds : Option ℕ := none
  rest : List String := []
  deriving DecidableEq

/-! ### The record kinds -/

structure ProfileObject where
  recordId : String
  createdAt : ℕ
  actor : Actor
  profileKind : ProfileKind
  name : String
  spec : ProfileSpec
  deriving DecidableEq

structure ProfilePromotion where
  recordId : String
  createdAt : ℕ
  actor : Actor
  profileKind : ProfileKind
  aliasName : String
  profileId : String
  promotionState : PromotionState
  rest : String
  deriving DecidableEq

structure OperatorAcl where
  recordId : String
  createdAt : ℕ
  actor : Actor
  operators : List String
  readers : List String
  deriving DecidableEq

structure CampaignRequest where
  recordId : String
  createdAt : ℕ
  actor : Actor
  campaignId : String
  idempotencyKeyDigest : String
  profiles : List ProfileRef
  ceilingMicrousd : ℕ
  deriving DecidableEq

structure CampaignLock where
  recordId : String
  createdAt : ℕ
  actor : Actor
  campaignId : String
  profiles : List ResolvedProfile
  tasks : List TaskLock
  ceilingMicrousd : ℕ
  sourceRevision : String
  deriving DecidableEq

structure PreparedTrial where
  recordId : String
  createdAt : ℕ
  actor : Actor
  campaignId : String
  preparationId : String
  campaignLockDigest : String
  taskId : String
  rest : String
  deriving DecidableEq

structure PreparedTrialRef where
  taskId : String
  recordId : String
  recordDigest : String
  deriving DecidableEq

structure PreparedJob where
  recordId : String
  createdAt : ℕ
  actor : Actor
  campaignId : String
  preparationId : String
  campaignLockDigest : String
  trials : List PreparedTrialRef
  rest : String
  deriving DecidableEq

structure ActionIntent where
  recordId : String
  createdAt : ℕ
  actor : Actor
  actionId : String
  campaignId : String
  actionKind : ActionKind
  generation : ℕ
  target : String
  payload : ActionPayload
  deriving DecidableEq

structure ActionDispatch where
  recordId : String
  createdAt : ℕ
  actor : Actor
  actionId : String
  campaignId : String
  operation : DispatchOperation
  adoptionNotBefore : ℕ
  deriving DecidableEq

structure ActionReceipt where
  recordId : String
  createdAt : ℕ
  actor : Actor
  actionId : String
  campaignId : String
  outcome : ActionOutcome
  resourceId : Option String
  observedState : String
  errorCode : Option String
  readyReplicas : Option ℕ
  activeHourlyCostMicrousd : Option ℕ
  costMicrousd : Option ℕ
  deriving DecidableEq

structure ActionAdvanced where
  recordId : String
  createdAt : ℕ
  actor : Actor
  actionId : String
  campaignId : String
  deriving DecidableEq

structure AttemptReceipt where
  recordId : String
  createdAt : ℕ
  actor : Actor
  campaignId : String
  taskId : String
  attemptId : String
  actionId : String
  outcome : AttemptOutcome
  replacementEligible : Bool
  evidenceDigest : String
  evidencePath : String
  costMicrousd : ℕ
  metrics : List (String × String)
  deriving DecidableEq

structure TerminalSelection where
  recordId : String
  createdAt : ℕ
  actor : Actor
  campaignId : String
  taskId : String
  attemptId : String
  outcome : AttemptOutcome
  reason : String
  deriving DecidableEq

structure BudgetEvent where
  recordId : String
  createdAt : ℕ
  actor : Actor
  campaignId : String
  eventKind : BudgetEventKind
  amountMicrousd : ℕ
  deriving DecidableEq

structure EndpointResource where
  recordId : String
  createdAt : ℕ
  actor : Actor
  campaignId : String
  actionId : String
  endpointId : String
  desiredState : DesiredState
  observedState : String
  readyReplicas : ℕ
  cleanupVerified : Bool
  activeHourlyCostMicrousd : ℕ
  deriving DecidableEq

structure PublicationReceipt where
  recordId : String
  createdAt : ℕ
  actor : Actor
  campaignId : String
  publicationId : String
  publicationState : PublicationState
  catalogDigest : Option String
  rest : String
  deriving DecidableEq

structure MigrationRecord where
  recordId : String
  createdAt : ℕ
  actor : Actor
  rest : String
  deriving DecidableEq

/-- A control record. -/
inductive Record
  | profileObject (record : ProfileObject)
  | profilePromotion (record : ProfilePromotion)
  | operatorAcl (record : OperatorAcl)
  | campaignRequest (record : CampaignRequest)
  | campaignLock (record : CampaignLock)
  | preparedTrial (record : PreparedTrial)
  | preparedJob (record : PreparedJob)
  | actionIntent (record : ActionIntent)
  | actionDispatch (record : ActionDispatch)
  | actionReceipt (record : ActionReceipt)
  | actionAdvanced (record : ActionAdvanced)
  | attemptReceipt (record : AttemptReceipt)
  | terminalSelection (record : TerminalSelection)
  | budgetEvent (record : BudgetEvent)
  | endpointResource (record : EndpointResource)
  | publicationReceipt (record : PublicationReceipt)
  | migrationRecord (record : MigrationRecord)
  deriving DecidableEq

/-! ### Object keys -/

/-- The object a record is stored under: its kind with the identifiers in its path. Identifiers hold
no slash, so two keys are equal exactly when their paths are. -/
inductive ObjectKey
  | profileObject (kind : ProfileKind) (recordId : String)
  | profilePromotion (kind : ProfileKind) (aliasName recordId : String)
  | operatorAcl (recordId : String)
  | campaignRequest (campaignId : String)
  | campaignLock (campaignId : String)
  | preparedTrial (campaignId taskId : String)
  | preparedJob (campaignId : String)
  | actionIntent (campaignId actionId : String)
  | actionDispatch (campaignId actionId : String)
  | actionReceipt (campaignId actionId : String)
  | actionAdvanced (campaignId actionId : String)
  | attemptReceipt (campaignId taskId attemptId : String)
  | terminalSelection (campaignId taskId recordId : String)
  | budgetEvent (campaignId recordId : String)
  | endpointResource (campaignId actionId : String)
  | publicationReceipt (campaignId publicationId : String)
  | migrationRecord (recordId : String)
  deriving DecidableEq

/-- The directory of a campaign. -/
def campaignRoot (campaignId : String) : String := "control/schema=v1/campaigns/" ++ campaignId ++ "/"

/-- The path of an object, as `controlRecordPath` spells it. -/
def ObjectKey.path : ObjectKey → String
  | profileObject kind recordId =>
    "control/schema=v1/profiles/objects/" ++ kind.name ++ "/" ++ recordId ++ ".json"
  | profilePromotion kind aliasName recordId =>
    "control/schema=v1/profiles/promotions/" ++ kind.name ++ "/" ++ aliasName ++ "/" ++ recordId ++
      ".json"
  | operatorAcl recordId => "control/schema=v1/operators/" ++ recordId ++ ".json"
  | campaignRequest campaignId => campaignRoot campaignId ++ "request.json"
  | campaignLock campaignId => campaignRoot campaignId ++ "campaign.lock.json"
  | preparedTrial campaignId taskId =>
    campaignRoot campaignId ++ "prepared/trials/" ++ taskId ++ ".json"
  | preparedJob campaignId => campaignRoot campaignId ++ "prepared/zz-manifest.json"
  | actionIntent campaignId actionId =>
    campaignRoot campaignId ++ "actions/" ++ actionId ++ "/intent.json"
  | actionDispatch campaignId actionId =>
    campaignRoot campaignId ++ "actions/" ++ actionId ++ "/q-dispatch.json"
  | actionReceipt campaignId actionId =>
    campaignRoot campaignId ++ "actions/" ++ actionId ++ "/receipt.json"
  | actionAdvanced campaignId actionId =>
    campaignRoot campaignId ++ "actions/" ++ actionId ++ "/zz-advanced.json"
  | attemptReceipt campaignId taskId attemptId =>
    campaignRoot campaignId ++ "tasks/" ++ taskId ++ "/attempts/" ++ attemptId ++ "/receipt.json"
  | terminalSelection campaignId taskId recordId =>
    campaignRoot campaignId ++ "tasks/" ++ taskId ++ "/terminal/" ++ recordId ++ ".json"
  | budgetEvent campaignId recordId =>
    campaignRoot campaignId ++ "budgets/" ++ recordId ++ ".json"
  | endpointResource campaignId actionId =>
    campaignRoot campaignId ++ "resources/endpoints/" ++ actionId ++ ".json"
  | publicationReceipt campaignId publicationId =>
    campaignRoot campaignId ++ "publications/" ++ publicationId ++ ".json"
  | migrationRecord recordId => "control/schema=v1/migrations/" ++ recordId ++ ".json"

namespace Record

/-- The object a record is stored under (`controlRecordPath`). -/
def key : Record → ObjectKey
  | profileObject record => .profileObject record.profileKind record.recordId
  | profilePromotion record => .profilePromotion record.profileKind record.aliasName record.recordId
  | operatorAcl record => .operatorAcl record.recordId
  | campaignRequest record => .campaignRequest record.campaignId
  | campaignLock record => .campaignLock record.campaignId
  | preparedTrial record => .preparedTrial record.campaignId record.taskId
  | preparedJob record => .preparedJob record.campaignId
  | actionIntent record => .actionIntent record.campaignId record.actionId
  | actionDispatch record => .actionDispatch record.campaignId record.actionId
  | actionReceipt record => .actionReceipt record.campaignId record.actionId
  | actionAdvanced record => .actionAdvanced record.campaignId record.actionId
  | attemptReceipt record => .attemptReceipt record.campaignId record.taskId record.attemptId
  | terminalSelection record => .terminalSelection record.campaignId record.taskId record.recordId
  | budgetEvent record => .budgetEvent record.campaignId record.recordId
  | endpointResource record => .endpointResource record.campaignId record.actionId
  | publicationReceipt record => .publicationReceipt record.campaignId record.publicationId
  | migrationRecord record => .migrationRecord record.recordId

def createdAt : Record → ℕ
  | profileObject record => record.createdAt
  | profilePromotion record => record.createdAt
  | operatorAcl record => record.createdAt
  | campaignRequest record => record.createdAt
  | campaignLock record => record.createdAt
  | preparedTrial record => record.createdAt
  | preparedJob record => record.createdAt
  | actionIntent record => record.createdAt
  | actionDispatch record => record.createdAt
  | actionReceipt record => record.createdAt
  | actionAdvanced record => record.createdAt
  | attemptReceipt record => record.createdAt
  | terminalSelection record => record.createdAt
  | budgetEvent record => record.createdAt
  | endpointResource record => record.createdAt
  | publicationReceipt record => record.createdAt
  | migrationRecord record => record.createdAt

end Record

/-- The largest amount of money the schema admits. -/
def maxMicrousd : ℕ := 1000000000000

/-- The numeric bounds of the record schema. -/
def validateControlRecord : Record → Bool
  | .campaignRequest record => decide (record.ceilingMicrousd ≤ maxMicrousd)
  | .campaignLock record => decide (record.ceilingMicrousd ≤ maxMicrousd)
  | .actionIntent record =>
    decide (record.generation ≤ 1000000) &&
      decide (record.payload.reservationMicrousd.getD 0 ≤ maxMicrousd) &&
        record.payload.sandbox.all fun policy ↦ decide (policy.reservationMicrousd ≤ maxMicrousd)
  | .actionReceipt record =>
    decide (record.costMicrousd.getD 0 ≤ maxMicrousd) &&
      decide (record.activeHourlyCostMicrousd.getD 0 ≤ maxMicrousd) &&
        decide (record.readyReplicas.getD 0 ≤ 100000)
  | .attemptReceipt record => decide (record.costMicrousd ≤ maxMicrousd)
  | .budgetEvent record => decide (record.amountMicrousd ≤ maxMicrousd)
  | .endpointResource record =>
    decide (record.readyReplicas ≤ 100000) && decide (record.activeHourlyCostMicrousd ≤ maxMicrousd)
  | _ => true

/-! ### Digests -/

/-- The digests of the control plane. `deterministicId prefix parts` is the prefix with the first 24
hexadecimal digits of the hash of the parts; that different parts have different identities is the
assumption under which the control plane works. -/
class Digests where
  deterministicId : String → List String → String
  deterministicId_injective : ∀ {label label' : String} {parts parts' : List String},
    deterministicId label parts = deterministicId label' parts' → label = label' ∧ parts = parts'
  sha256 : String → String
  canonicalJson : Record → String
  canonicalStrings : List String → String

export Digests (deterministicId sha256 canonicalJson canonicalStrings)

section

variable [Digests]

/-- The digest of a record's canonical text. -/
def recordDigest (record : Record) : String := sha256 (canonicalJson record)

@[simp] theorem deterministicId_inj {label label' : String} {parts parts' : List String} :
    deterministicId label parts = deterministicId label' parts' ↔
      label = label' ∧ parts = parts' :=
  ⟨Digests.deterministicId_injective, fun ⟨hlabel, hparts⟩ ↦ by rw [hlabel, hparts]⟩

end

end HarborHF.Control
