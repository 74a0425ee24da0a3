import HarborHF.Async.Pool
import HarborHF.Controllers.Launch
import HarborHF.Hub.Leases

/-!
# Controllers, watchdogs and what they share

The coordination repository keeps the records of each campaign's controllers and the capacity claim of
each provider, and the Job service keeps the controller Jobs. A call of the state store commits against
the head it has read, so it decides about the records it changes and is one step here; it may fail
before or after it is carried out. A Job runs its process once, until its stage is a terminal one, and a
listing shows the Jobs at the moment it is taken.
-/

set_option autoImplicit false

namespace HarborHF.Controllers

open Async Relational Hub

/-! ### Jobs and records -/

/-- A Job with the labels of a campaign's controller (`ControllerJob`). -/
structure ControllerJob where
  jobId : String
  campaignId : String
  attempt : ℕ
  stage : String
  deriving DecidableEq

/-- `_TERMINAL_JOB_STAGES`. -/
def terminalJobStages : List (List Char) :=
  ["COMPLETED".toList, "CANCELED".toList, "CANCELLED".toList, "ERROR".toList, "DELETED".toList]

def ControllerJob.terminal (job : ControllerJob) : Bool :=
  decide (job.stage.toList.map Char.toUpper ∈ terminalJobStages)

inductive ControllerState
  | starting
  | running
  | waitingRetry
  | finalizing
  | completed
  | pausedCapacity
  | pausedPolicy
  | failedInfrastructure
  | failedDeterministic
  deriving DecidableEq

/-- `ControllerStatus`, as far as the watchdog and later writes read it. -/
structure ControllerStatus where
  campaignId : String
  planDigest : String
  jobId : String
  attempt : ℕ
  state : ControllerState
  heartbeatAt : ℕ
  deriving DecidableEq

/-- `ProviderCapacityClaim`. -/
structure CapacityClaim where
  provider : String
  campaignId : String
  planDigest : String
  jobId : String
  attempt : ℕ
  actionId : String
  acquiredAt : ℕ
  deriving DecidableEq

/-- `ControllerAttemptReservation`. -/
structure Reservation extends AttemptReservation where
  inputUri : String
  outputUri : String
  workerRevision : String
  reservedAt : ℕ
  deriving DecidableEq

/-- `ControllerRecoveryDecision` of a lost controller. -/
structure RecoveryDecision where
  campaignId : String
  planDigest : String
  priorJobId : String
  priorAttempt : ℕ
  replacementAttempt : ℕ
  checkpointRevision : String
  decidedAt : ℕ
  deriving DecidableEq

/-- The limits of a campaign's controllers. -/
structure ControllerPolicy where
  maxAttempts : ℕ
  staleAfter : ℕ
  staleAfter_pos : 0 < staleAfter

/-- What the controllers of a campaign read of its lock and its input. -/
structure CampaignLock where
  planDigest : String
  inputDigest : String
  workerRevision : String
  providers : List String
  policy : Option ControllerPolicy

/-- A recovery that a watchdog pass has reported, with the status and the Job listing it is based on. -/
structure Recovered where
  status : ControllerStatus
  listing : List ControllerJob
  jobId : String
  deriving DecidableEq

/-- The errors of controllers and watchdogs. -/
inductive SupervisionError
  | claim (error : ControllerError)
  | status (message : String)
  | unavailable (message : String)
  | controller (message : String)
  | watchdog (message : String)
  | value (message : String)
  | process
  | http
  deriving DecidableEq

/-- The records of the coordination repository, the Jobs, the time, the processes of Jobs with the
threads that run them and the claims they have renewed, the Jobs that execute waves under the capacity
claim of a provider, the capacity claims that were taken from a running Job, and the recoveries. -/
structure World where
  statuses : Dict String ControllerStatus
  claims : Dict String ControllerClaim
  attempts : Dict (String × ℕ) Reservation
  recoveries : Dict (String × ℕ) RecoveryDecision
  receipts : Dict (String × ℕ) LaunchReceipt
  capacity : Dict String CapacityClaim
  jobs : List ControllerJob
  now : ℕ
  processes : Dict String ℕ
  renewed : Dict String ControllerClaim
  executing : List (String × String)
  lost : List CapacityClaim
  recovered : List Recovered
  deriving DecidableEq

abbrev Outcome (α : Type) := Except SupervisionError α

namespace World

variable (world : World)

def job (jobId : String) : Option ControllerJob :=
  world.jobs.find? fun job ↦ job.jobId = jobId

/-- The Job has not ended. -/
def isRunning (jobId : String) : Bool :=
  (world.job jobId).any fun job ↦ !job.terminal

/-- The Jobs with the labels of a campaign (`list_jobs`). -/
def listJobs (campaignId : String) : List ControllerJob :=
  world.jobs.filter fun job ↦ job.campaignId = campaignId

/-! ### The state store -/

/-- `write_status`. -/
def writeStatus (status : ControllerStatus) : Outcome Unit × World :=
  let written := { world with statuses := world.statuses.set status.campaignId status }
  match world.statuses.get? status.campaignId with
  | none => (.ok (), written)
  | some observed =>
    if observed = status then (.ok (), world)
    else if observed.campaignId ≠ status.campaignId ∨ observed.planDigest ≠ status.planDigest ∨
        status.attempt < observed.attempt ∨
        status.attempt = observed.attempt ∧ observed.jobId ≠ status.jobId ∨
        status.heartbeatAt < observed.heartbeatAt then
      (.error (.status "controller status moved backwards"), world)
    else (.ok (), written)

/-- The controller claim of a campaign after a call of the store has decided about it. -/
def settleClaim (campaignId : String)
    (verdict : Verdict (Option ControllerClaim) ControllerError Unit) : Outcome Unit × World :=
  match verdict with
  | .done () => (.ok (), world)
  | .fail error => (.error (.claim error), world)
  | .put (some claim) () => (.ok (), { world with claims := world.claims.set campaignId claim })
  | .put none () => (.ok (), { world with claims := world.claims.erase campaignId })

/-- `acquire`. A Job goes on with the claim it has acquired. -/
def acquire (claim : ControllerClaim) (priorJobTerminal : Bool) : Outcome Unit × World :=
  let acquired := world.settleClaim claim.campaignId
    (HubControllerStateStore.acquire claim priorJobTerminal (world.claims.get? claim.campaignId))
  match acquired.1 with
  | .ok () => (.ok (), { acquired.2 with renewed := acquired.2.renewed.set claim.jobId claim })
  | .error error => (.error error, acquired.2)

/-- One round of the heartbeat of a Job. -/
def heartbeat (staleAfter : ℕ) (jobId : String) : Outcome Unit × World :=
  match world.renewed.get? jobId with
  | none => (.error (.status "controller heartbeat has no claim"), world)
  | some previous =>
    if hstale : previous.acquiredAt ≤ world.now ∧ 0 < staleAfter then
      let renewed : ControllerClaim :=
        { previous with
          heartbeatAt := world.now
          expiresAt := world.now + staleAfter
          ordered := ⟨hstale.1, Nat.lt_add_of_pos_right hstale.2⟩ }
      let settled := world.settleClaim previous.campaignId
        (HubControllerStateStore.heartbeat previous renewed (world.claims.get? previous.campaignId))
      match settled.1 with
      | .ok () => (.ok (), { settled.2 with renewed := settled.2.renewed.set jobId renewed })
      | .error error => (.error error, settled.2)
    else (.error (.value "controller claim timestamps are not ordered"), world)

/-- `release`, of the claim that the Job has renewed last. -/
def release (jobId : String) : Outcome Unit × World :=
  match world.renewed.get? jobId with
  | none => (.ok (), world)
  | some claim =>
    world.settleClaim claim.campaignId
      (HubControllerStateStore.release claim (world.claims.get? claim.campaignId))

/-- `acquire_provider_capacity`. -/
def acquireCapacity (claim : CapacityClaim) : Outcome Unit × World :=
  match world.capacity.get? claim.provider with
  | some observed =>
    if observed = claim then (.ok (), world)
    else (.error (.unavailable ("shared provider capacity is occupied: " ++ claim.provider)), world)
  | none => (.ok (), { world with capacity := world.capacity.set claim.provider claim })

/-- A capacity claim is deleted, by a Job or by none. -/
def dropCapacity (actor : Option String) (claim : CapacityClaim) : World :=
  { world with
    capacity := world.capacity.erase claim.provider
    lost :=
      if actor ≠ some claim.jobId ∧ world.isRunning claim.jobId = true then world.lost ++ [claim]
      else world.lost }

/-- `release_provider_capacity`. -/
def releaseCapacity (actor : Option String) (claim : CapacityClaim) : Outcome Unit × World :=
  match world.capacity.get? claim.provider with
  | none => (.ok (), world)
  | some observed =>
    if observed ≠ claim then
      (.error (.status "provider capacity claim ownership cannot be verified"), world)
    else (.ok (), world.dropCapacity actor claim)

/-- `recover_provider_capacity`. -/
def recoverCapacity (provider : String) (replacement : ControllerClaim) (priorJobTerminal : Bool) :
    Outcome Unit × World :=
  match world.capacity.get? provider with
  | none => (.ok (), world)
  | some observed =>
    if observed.jobId = replacement.jobId then (.ok (), world)
    else if observed.campaignId ≠ replacement.campaignId then (.ok (), world)
    else if priorJobTerminal = false ∨ replacement.attempt ≤ observed.attempt then
      (.error (.status "abandoned provider capacity cannot be recovered safely"), world)
    else (.ok (), world.dropCapacity (some replacement.jobId) observed)

/-- `reserve_attempt`. -/
def reserveAttempt (reservation : Reservation) : Outcome Unit × World :=
  let key := (reservation.campaignId, reservation.attempt)
  if 1 < reservation.attempt ∧
      world.attempts.get? (reservation.campaignId, reservation.attempt - 1) = none then
    (.error (.status "controller attempt reservation has no predecessor"), world)
  else
    match world.attempts.get? key with
    | some observed =>
      if observed ≠ reservation then
        (.error (.status "immutable controller record conflicts"), world)
      else (.ok (), world)
    | none => (.ok (), { world with attempts := world.attempts.set key reservation })

/-- `write_recovery`. -/
def writeRecovery (decision : RecoveryDecision) : Outcome Unit × World :=
  let key := (decision.campaignId, decision.replacementAttempt)
  match world.recoveries.get? key with
  | some observed =>
    if observed ≠ decision then (.error (.status "immutable controller record conflicts"), world)
    else (.ok (), world)
  | none => (.ok (), { world with recoveries := world.recoveries.set key decision })

/-! ### The Job service -/

/-- The receipt of a launch (`_record_controller_launch`). -/
def recordLaunch (reservation : AttemptReservation) (jobId : String) : World :=
  { world with
    receipts := world.receipts.set (reservation.campaignId, reservation.attempt)
      { campaignId := reservation.campaignId
        planDigest := reservation.planDigest
        inputDigest := reservation.inputDigest
        attempt := reservation.attempt
        jobId := jobId } }

/-- What becomes of a launch: the claim of the launch is taken or not, the command creates a Job in some
stage or none, and a receipt is written or not. -/
structure LaunchFate where
  claimed : Bool
  created : Option (String × String)
  recorded : Bool

/-- `_launch_or_adopt_controller` of one launcher after the others: it returns the Job of the receipt,
adopts the Job of the listing, or launches one. -/
def launch (reservation : AttemptReservation) (fate : LaunchFate) : Outcome String × World :=
  let record (jobId : String) (world : World) : Outcome String × World :=
    if fate.recorded then (.ok jobId, world.recordLaunch reservation jobId) else (.error .http, world)
  match world.receipts.get? (reservation.campaignId, reservation.attempt) with
  | some receipt =>
    match validatedLaunchReceipt receipt reservation with
    | .ok jobId => (.ok jobId, world)
    | .error _ => (.error (.value "controller launch receipt changed the launch contract"), world)
  | none =>
    match (world.listJobs reservation.campaignId).filter fun job ↦
        job.attempt = reservation.attempt with
    | _ :: _ :: _ =>
      (.error (.value "multiple HF Jobs have one controller attempt identity"), world)
    | [job] => record job.jobId world
    | [] =>
      if fate.claimed = false then
        (.error (.unavailable "controller attempt launch is already in progress"), world)
      else
        match fate.created with
        | none => (.error .process, world)
        | some (jobId, stage) =>
          record jobId { world with
            jobs := world.jobs ++ [⟨jobId, reservation.campaignId, reservation.attempt, stage⟩] }

/-- The process of a Job starts, once and while the Job has not ended. -/
def boot (thread : ℕ) (jobId : String) : Option (ControllerJob × World) :=
  match world.job jobId with
  | none => none
  | some job =>
    if job.terminal ∨ jobId ∈ world.processes.keys then none
    else some (job, { world with processes := world.processes.set jobId thread })

/-- A Job ends. A Job that has ended stays so. -/
def endJob (jobId stage : String) : World :=
  { world with
    jobs := world.jobs.map fun job ↦
      if job.jobId = jobId ∧ job.terminal = false then { job with stage := stage } else job }

/-- A Job executes waves under a capacity claim until it has ended them. -/
def beginWaves (claim : CapacityClaim) : World :=
  { world with executing := world.executing ++ [(claim.provider, claim.jobId)] }

def endWaves (claim : CapacityClaim) : World :=
  { world with executing := world.executing.filter (· ≠ (claim.provider, claim.jobId)) }

def elapse (elapsed : ℕ) : World := { world with now := world.now + elapsed }

end World

end HarborHF.Controllers
