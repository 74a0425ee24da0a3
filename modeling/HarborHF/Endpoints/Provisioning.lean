import Mathlib.Data.Rat.Defs
import Mathlib.Data.List.Basic
import HarborHF.Async.Settling
import HarborHF.Relational.Dict

/-!
# Provisioning of managed endpoints

`EndpointProvisioner` creates the endpoint of a deployment, or adopts one that exists, and leaves it
paused. The port of the provider answers each call as it will, and the readings of the clock pass every
deadline.
-/

set_option autoImplicit false

namespace HarborHF.Endpoints

open Async Relational

/-! ### Endpoints -/

structure EndpointScaling where
  minReplicas : ℕ
  maxReplicas : ℕ
  scaleToZeroTimeout : Option ℕ
  metric : Option String
  threshold : Option ℚ
  deriving DecidableEq

structure EndpointCompute where
  accelerator : String
  instanceSize : String
  instanceType : String
  scaling : EndpointScaling
  deriving DecidableEq

structure EndpointProvider where
  vendor : String
  region : String
  accountId : Option String
  deriving DecidableEq

structure EndpointImage where
  url : String
  healthRoute : String
  port : Option ℕ
  deriving DecidableEq

structure EndpointModel where
  repository : String
  revision : String
  framework : String
  task : String
  image : EndpointImage
  command : List String
  arguments : List String
  environment : Dict String String
  secretNames : List String
  deriving DecidableEq

structure EndpointRoute where
  domain : Option String
  path : Option String
  deriving DecidableEq

structure EndpointConfiguration where
  model : EndpointModel
  compute : EndpointCompute
  provider : EndpointProvider
  accessType : String
  route : EndpointRoute
  cacheHttpResponses : Bool
  tags : List String
  deriving DecidableEq

/-- `ManagedEndpointIdentity`. -/
structure ManagedEndpointIdentity where
  namespaceName : String
  name : String
  tags : List String
  deriving DecidableEq

structure DesiredEndpoint where
  identity : ManagedEndpointIdentity
  configuration : EndpointConfiguration
  deriving DecidableEq

structure EndpointStatus where
  state : String
  readyReplicas : ℕ
  targetReplicas : ℕ
  deriving DecidableEq

structure EndpointSnapshot where
  namespaceName : String
  name : String
  configuration : EndpointConfiguration
  status : EndpointStatus
  deriving DecidableEq

/-- `EndpointProvisioningError` and its subclasses, and `ValueError`. -/
inductive EndpointError
  | notFound (message : String)
  | provider (message : String)
  | ambiguousCreate (message : String)
  | ambiguousPause (message : String)
  | verificationTimeout (message : String)
  | configurationMismatch (paths : List String)
  | identityMismatch (message : String)
  | notPaused (message : String)
  | value (message : String)
  deriving DecidableEq

def EndpointError.isProvisioningError : EndpointError → Bool
  | .value _ => false
  | _ => true

/-- The errors of `verify_exact_endpoint`. -/
def EndpointError.isMismatch : EndpointError → Bool
  | .configurationMismatch _ => true
  | .identityMismatch _ => true
  | _ => false

/-- What the reconciler records of an action that raised the error (`_apply_action`). -/
inductive ActionOutcome
  | ambiguous
  | failed
  deriving DecidableEq

def recordedOutcome : EndpointError → ActionOutcome
  | .ambiguousCreate _ => .ambiguous
  | .ambiguousPause _ => .ambiguous
  | .verificationTimeout _ => .ambiguous
  | _ => .failed

/-! ### Verification -/

/-- The path of a value, unless both are equal. -/
def compareValue {α : Type} [DecidableEq α] (path : String) (expected observed : α) : List String :=
  if expected = observed then [] else [path]

def compareScaling (expected observed : EndpointScaling) : List String :=
  compareValue "configuration.compute.scaling.max_replicas" expected.maxReplicas observed.maxReplicas ++
  compareValue "configuration.compute.scaling.metric" expected.metric observed.metric ++
  compareValue "configuration.compute.scaling.min_replicas" expected.minReplicas observed.minReplicas ++
  compareValue "configuration.compute.scaling.scale_to_zero_timeout" expected.scaleToZeroTimeout
    observed.scaleToZeroTimeout ++
  compareValue "configuration.compute.scaling.threshold" expected.threshold observed.threshold

def compareEnvironment (expected observed : Dict String String) : List String :=
  (((expected.keys ++ observed.keys).eraseDups.mergeSort fun first second ↦
    decide (first ≤ second)).filter fun key ↦ expected.get? key ≠ observed.get? key).map
      ("configuration.model.environment." ++ ·)

def compareModel (expected observed : EndpointModel) : List String :=
  compareValue "configuration.model.arguments" expected.arguments observed.arguments ++
  compareValue "configuration.model.command" expected.command observed.command ++
  compareEnvironment expected.environment observed.environment ++
  compareValue "configuration.model.framework" expected.framework observed.framework ++
  compareValue "configuration.model.image.health_route" expected.image.healthRoute
    observed.image.healthRoute ++
  compareValue "configuration.model.image.port" expected.image.port observed.image.port ++
  compareValue "configuration.model.image.url" expected.image.url observed.image.url ++
  compareValue "configuration.model.repository" expected.repository observed.repository ++
  compareValue "configuration.model.revision" expected.revision observed.revision ++
  compareValue "configuration.model.secret_names" expected.secretNames observed.secretNames ++
  compareValue "configuration.model.task" expected.task observed.task

/-- The paths of the values that differ (`effective_configuration_mismatches`). -/
def effectiveConfigurationMismatches (expected observed : EndpointConfiguration) : List String :=
  compareValue "configuration.access_type" expected.accessType observed.accessType ++
  compareValue "configuration.cache_http_responses" expected.cacheHttpResponses
    observed.cacheHttpResponses ++
  compareValue "configuration.compute.accelerator" expected.compute.accelerator
    observed.compute.accelerator ++
  compareValue "configuration.compute.instance_size" expected.compute.instanceSize
    observed.compute.instanceSize ++
  compareValue "configuration.compute.instance_type" expected.compute.instanceType
    observed.compute.instanceType ++
  compareScaling expected.compute.scaling observed.compute.scaling ++
  compareModel expected.model observed.model ++
  compareValue "configuration.provider.account_id" expected.provider.accountId
    observed.provider.accountId ++
  compareValue "configuration.provider.region" expected.provider.region observed.provider.region ++
  compareValue "configuration.provider.vendor" expected.provider.vendor observed.provider.vendor ++
  compareValue "configuration.route.domain" expected.route.domain observed.route.domain ++
  compareValue "configuration.route.path" expected.route.path observed.route.path ++
  compareValue "configuration.tags" expected.tags observed.tags

/-- `verify_exact_endpoint`. -/
def verifyExactEndpoint (desired : DesiredEndpoint) (snapshot : EndpointSnapshot) :
    Except EndpointError Unit :=
  if snapshot.namespaceName ≠ desired.identity.namespaceName ∨
      snapshot.name ≠ desired.identity.name ∨
      ¬desired.identity.tags ⊆ snapshot.configuration.tags then
    .error (.identityMismatch
      "endpoint does not have the expected deterministic managed identity")
  else
    match effectiveConfigurationMismatches desired.configuration snapshot.configuration with
    | [] => .ok ()
    | mismatches => .error (.configurationMismatch mismatches)

/-- `_is_paused_zero_ready`. -/
def isPausedZeroReady (snapshot : EndpointSnapshot) : Bool :=
  snapshot.status.state = "paused" && snapshot.status.readyReplicas = 0

def requirePausedZeroReady (snapshot : EndpointSnapshot) : Except EndpointError Unit :=
  if snapshot.status.state ≠ "paused" ∨ snapshot.status.readyReplicas ≠ 0 then
    .error (.notPaused "endpoint must report state=paused and readyReplica=0")
  else .ok ()

/-! ### The port -/

inductive CreateAnswer
  | returns (snapshot : EndpointSnapshot)
  | fails
  | ambiguous
  deriving DecidableEq

inductive InspectAnswer
  | shows (snapshot : Option EndpointSnapshot)
  | fails
  deriving DecidableEq

inductive PauseAnswer
  | returns (snapshot : EndpointSnapshot)
  | fails
  | ambiguous
  deriving DecidableEq

/-- How the port answers the calls of a run, each kind in its order, and what the clock reads. Whether
an ambiguous call had its effect shows in the answers after it. -/
structure Behaviour where
  create : CreateAnswer
  inspect : ℕ → InspectAnswer
  pause : ℕ → PauseAnswer
  clock : ℕ → ℚ
  passes : ∀ bound start, ∃ index ≥ start, bound ≤ clock index

/-- A call of the port with its answer. -/
inductive Call
  | create (answer : CreateAnswer)
  | inspect (answer : InspectAnswer)
  | pause (answer : PauseAnswer)
  deriving DecidableEq

/-- The calls so far, and how many there were of each kind. -/
structure Calls where
  inspections : ℕ
  pauses : ℕ
  readings : ℕ
  log : List Call

def Calls.none : Calls := ⟨0, 0, 0, []⟩

abbrev Provisioning (α : Type) := Polling Calls EndpointError α

namespace Behaviour

variable (behaviour : Behaviour)

def createCall : Provisioning EndpointSnapshot :=
  Polling.act fun calls ↦
    (match behaviour.create with
      | .returns snapshot => .ok snapshot
      | .fails => .error (.provider "Hugging Face endpoint create failed")
      | .ambiguous => .error (.ambiguousCreate "Hugging Face endpoint create outcome is ambiguous"),
    { calls with log := calls.log ++ [.create behaviour.create] })

def inspectCall : Provisioning (Option EndpointSnapshot) :=
  Polling.act fun calls ↦
    (match behaviour.inspect calls.inspections with
      | .shows snapshot => .ok snapshot
      | .fails => .error (.provider "Hugging Face endpoint inspect failed"),
    { calls with
      inspections := calls.inspections + 1
      log := calls.log ++ [.inspect (behaviour.inspect calls.inspections)] })

def pauseCall : Provisioning Unit :=
  Polling.act fun calls ↦
    (match behaviour.pause calls.pauses with
      | .returns _ => .ok ()
      | .fails => .error (.provider "Hugging Face endpoint pause failed")
      | .ambiguous => .error (.ambiguousPause "Hugging Face endpoint pause outcome is ambiguous"),
    { calls with
      pauses := calls.pauses + 1
      log := calls.log ++ [.pause (behaviour.pause calls.pauses)] })

def monotonic : Provisioning ℚ :=
  Polling.act fun calls ↦
    (.ok (behaviour.clock calls.readings), { calls with readings := calls.readings + 1 })

/-! ### `EndpointProvisioner` -/

inductive ProvisioningAction
  | created
  | adopted
  deriving DecidableEq

structure ProvisioningResult where
  action : ProvisioningAction
  snapshot : EndpointSnapshot
  deriving DecidableEq

/-- `_validated_deadline`. -/
def validatedDeadline (timeoutSeconds pollSeconds : ℚ) : Provisioning ℚ := do
  if timeoutSeconds ≤ 0 ∨ pollSeconds ≤ 0 then
    throw (.value "endpoint timeouts and poll intervals must be positive")
  else
    let now ← behaviour.monotonic
    return now + timeoutSeconds

/-- `_sleep_before_deadline`; how long the sleep takes shows in the next reading. -/
def sleepBeforeDeadline (deadline : ℚ) : Provisioning Bool := do
  let now ← behaviour.monotonic
  return decide (0 < deadline - now)

/-- `inspect`. -/
def inspectExact (desired : DesiredEndpoint) : Provisioning (Option EndpointSnapshot) := do
  match ← behaviour.inspectCall with
  | none => return none
  | some snapshot => do
    Polling.ofExcept (verifyExactEndpoint desired snapshot)
    return some snapshot

/-- A round of a loop: what it looks for, or another round unless the deadline has passed. -/
def pollUntil (deadline : ℚ) (look : Provisioning (Option EndpointSnapshot)) (message : String) :
    Provisioning EndpointSnapshot :=
  Polling.repeatUntil do
    match ← look with
    | some snapshot => return some snapshot
    | none =>
      if ← behaviour.sleepBeforeDeadline deadline then return none
      else throw (.verificationTimeout message)

/-- `_wait_until_present`. -/
def waitUntilPresent (desired : DesiredEndpoint) (timeoutSeconds pollSeconds : ℚ) :
    Provisioning EndpointSnapshot := do
  let deadline ← behaviour.validatedDeadline timeoutSeconds pollSeconds
  behaviour.pollUntil deadline (behaviour.inspectExact desired)
    "ambiguous endpoint create could not be adopted before timeout"

/-- What a round that waits for a pause makes of an inspection. -/
def pausedIn (disappeared : String) (snapshot : Option EndpointSnapshot) :
    Except EndpointError (Option EndpointSnapshot) :=
  match snapshot with
  | none => .error (.notFound disappeared)
  | some snapshot => if isPausedZeroReady snapshot then .ok (some snapshot) else .ok none

/-- `_wait_until_paused`. -/
def waitUntilPaused (desired : DesiredEndpoint) (timeoutSeconds pollSeconds : ℚ) :
    Provisioning EndpointSnapshot := do
  let deadline ← behaviour.validatedDeadline timeoutSeconds pollSeconds
  behaviour.pollUntil deadline
    (do
      let snapshot ← behaviour.inspectExact desired
      Polling.ofExcept (pausedIn "managed endpoint disappeared while pausing" snapshot))
    "endpoint pause did not reach state=paused and readyReplica=0"

/-- `port.pause` with an ambiguous outcome suppressed. -/
def suppressedPause : Provisioning Unit :=
  tryCatch behaviour.pauseCall fun error ↦
    match error with
    | .ambiguousPause _ => pure ()
    | error => throw error

/-- `_pause_created_identity`. -/
def pauseCreatedIdentity (timeoutSeconds pollSeconds : ℚ) : Provisioning EndpointSnapshot := do
  behaviour.suppressedPause
  let deadline ← behaviour.validatedDeadline timeoutSeconds pollSeconds
  behaviour.pollUntil deadline
    (do
      let snapshot ← behaviour.inspectCall
      Polling.ofExcept (pausedIn "created endpoint disappeared during cleanup" snapshot))
    "created endpoint configuration was invalid and cleanup was not verified"

/-- `pause_and_verify`. -/
def pauseAndVerify (desired : DesiredEndpoint) (timeoutSeconds pollSeconds : ℚ) :
    Provisioning EndpointSnapshot := do
  match ← behaviour.inspectExact desired with
  | none => throw (.notFound "managed endpoint does not exist")
  | some current =>
    if isPausedZeroReady current then return current
    else do
      behaviour.suppressedPause
      behaviour.waitUntilPaused desired timeoutSeconds pollSeconds

/-- The create, or the adoption of what an ambiguous create has left. -/
def createOrFind (desired : DesiredEndpoint) (timeoutSeconds pollSeconds : ℚ) :
    Provisioning (ProvisioningAction × EndpointSnapshot) :=
  tryCatch (do
    let snapshot ← behaviour.createCall
    return (.created, snapshot)) fun error ↦
    match error with
    | .ambiguousCreate _ => do
      let snapshot ← behaviour.waitUntilPresent desired timeoutSeconds pollSeconds
      return (.adopted, snapshot)
    | error => throw error

/-- The verification of the created endpoint, which is paused when it is not the desired one. -/
def verifyCreated (desired : DesiredEndpoint) (snapshot : EndpointSnapshot)
    (timeoutSeconds pollSeconds : ℚ) : Provisioning Unit :=
  tryCatch (Polling.ofExcept (verifyExactEndpoint desired snapshot)) fun error ↦
    if error.isMismatch then do
      let _ ← behaviour.pauseCreatedIdentity timeoutSeconds pollSeconds
      throw error
    else throw error

/-- The cleanup of a created endpoint whose errors make its outcome ambiguous. -/
def ambiguousCleanup (cleanup : Provisioning EndpointSnapshot) : Provisioning EndpointSnapshot :=
  tryCatch cleanup fun error ↦
    if error.isProvisioningError then
      throw (.ambiguousPause "created endpoint cleanup is not verified and must be retried")
    else throw error

/-- The pause of the created endpoint, and its cleanup when that fails. -/
def pauseCreated (desired : DesiredEndpoint) (timeoutSeconds pollSeconds : ℚ) :
    Provisioning EndpointSnapshot :=
  tryCatch (behaviour.pauseAndVerify desired timeoutSeconds pollSeconds) fun error ↦
    if error.isMismatch then do
      let _ ← ambiguousCleanup (behaviour.pauseCreatedIdentity timeoutSeconds pollSeconds)
      throw error
    else if error.isProvisioningError then
      ambiguousCleanup do
        let paused ← behaviour.pauseCreatedIdentity timeoutSeconds pollSeconds
        Polling.ofExcept (verifyExactEndpoint desired paused)
        return paused
    else throw error

/-- `create_or_adopt`. -/
def createOrAdopt (desired : DesiredEndpoint) (timeoutSeconds pollSeconds : ℚ) :
    Provisioning ProvisioningResult := do
  match ← behaviour.inspectExact desired with
  | some existing => do
    Polling.ofExcept (requirePausedZeroReady existing)
    return ⟨.adopted, existing⟩
  | none => do
    let (action, snapshot) ← behaviour.createOrFind desired timeoutSeconds pollSeconds
    behaviour.verifyCreated desired snapshot timeoutSeconds pollSeconds
    let paused ← behaviour.pauseCreated desired timeoutSeconds pollSeconds
    return ⟨action, paused⟩

end Behaviour

end HarborHF.Endpoints
