import HarborHF.Controllers.World

/-!
# The programs of controllers and watchdogs

`runCampaignWatchdog` reads the records of a campaign, lists its Jobs, releases the capacity claims that
no active Job has, decides, and launches or adopts a replacement controller. `runController` is the
process of a controller Job: it takes the claim of its campaign, deletes the capacity claims of the Jobs
it replaces, and applies actions, those on a provider under a capacity claim, until it finishes.
-/

set_option autoImplicit false

namespace HarborHF.Controllers

open Async Relational Hub

/-! ### Operations -/

/-- What a round of a controller finds to do: it is finished, it applies an action without a provider or
none, or it applies waves of a provider. -/
inductive NextAction
  | finished (state : ControllerState)
  | apply (state : ControllerState)
  | waves (provider actionId : String)
  deriving DecidableEq

/-- The calls of controllers, watchdogs and their environment. The capacity claim that a watchdog reads
is read after a listing, and `report` ends a recovery. -/
inductive Call
  | boot (jobId : String)
  | clock
  | loadSnapshot (campaignId : String)
  | nextAction (campaignId : String)
  | readStatus (campaignId : String)
  | writeStatus (status : ControllerStatus)
  | readClaim (campaignId : String)
  | acquire (claim : ControllerClaim) (priorJobTerminal : Bool)
  | heartbeat (staleAfter : ℕ) (jobId : String)
  | release (jobId : String)
  | readCapacity (provider campaignId : String) (listing : List ControllerJob)
  | acquireCapacity (claim : CapacityClaim)
  | releaseCapacity (claim : CapacityClaim)
  | recoverCapacity (provider : String) (replacement : ControllerClaim) (priorJobTerminal : Bool)
  | reserveAttempt (reservation : Reservation)
  | readAttempt (campaignId : String) (attempt : ℕ)
  | writeRecovery (decision : RecoveryDecision)
  | readRecovery (campaignId : String) (replacementAttempt : ℕ)
  | writeReceipt (jobId : String)
  | listJobs (campaignId : String)
  | launch (reservation : AttemptReservation)
  | beginWaves (claim : CapacityClaim)
  | endWaves (claim : CapacityClaim)
  | report (recovered : Recovered)
  | endJob (jobId stage : String)

/-- A call of the process of a Job, or of none. -/
structure SupervisionOp where
  actor : Option String
  call : Call

/-- The answers of the calls, unless they fail. -/
abbrev Call.Answer : Call → Type
  | .boot _ => ControllerJob
  | .clock => ℕ
  | .loadSnapshot _ => Bool × String
  | .nextAction _ => NextAction
  | .readStatus _ => Option ControllerStatus
  | .readClaim _ => Option ControllerClaim
  | .readCapacity _ _ _ => Option CapacityClaim
  | .readAttempt _ _ => Option Reservation
  | .readRecovery _ _ => Option RecoveryDecision
  | .listJobs _ => List ControllerJob
  | .launch _ => String
  | _ => Unit

def supervisionInterface : Interface where
  Op := SupervisionOp
  Ans op := Outcome op.call.Answer

abbrev Act (α : Type) := Program supervisionInterface SupervisionError α

/-- Await a call, and throw its error. -/
def perform (actor : Option String) (call : Call) : Act call.Answer :=
  .await (⟨actor, call⟩ : SupervisionOp) fun answer ↦ Program.ofExcept (α := call.Answer) answer

/-! ### The watchdog -/

inductive WatchdogAction
  | none
  | recover
  | operator
  deriving DecidableEq

structure WatchdogDecision where
  action : WatchdogAction
  reason : String
  replacementAttempt : Option ℕ
  deriving DecidableEq

/-- `WatchdogResult`, with the status and the listing that the pass is based on. -/
structure WatchdogResult where
  decision : WatchdogDecision
  submission : Option String
  status : Option ControllerStatus
  listing : List ControllerJob

/-- The states in which a controller that is gone is replaced. -/
def retryableStates : List ControllerState :=
  [.starting, .running, .waitingRetry, .finalizing, .failedInfrastructure]

/-- `_status_recovery_decision`. -/
def statusRecoveryDecision (policy : ControllerPolicy) (status : Option ControllerStatus) :
    WatchdogDecision :=
  match status with
  | none => ⟨.operator, "controller has no durable status", none⟩
  | some status =>
    if status.state ∈ [.pausedCapacity, .pausedPolicy, .failedDeterministic] then
      ⟨.operator, "controller state requires approval", none⟩
    else if policy.maxAttempts ≤ status.attempt then
      ⟨.operator, "controller attempt limit is exhausted", none⟩
    else if status.state ∉ retryableStates then
      ⟨.operator, "controller outcome is not retryable infrastructure", none⟩
    else
      ⟨.recover, "prior controller is terminal or absent and its claim is stale",
        some (status.attempt + 1)⟩

/-- `plan_controller_watchdog`. -/
def planControllerWatchdog (lock : CampaignLock) (status : Option ControllerStatus)
    (claim : Option ControllerClaim) (jobs : List ControllerJob) (campaignTerminal : Bool)
    (now : ℕ) : WatchdogDecision :=
  match lock.policy with
  | none => ⟨.none, "campaign uses no controller", none⟩
  | some policy =>
    if campaignTerminal = true ∨ (status.any fun status ↦ status.state = .completed) = true then
      ⟨.none, "campaign is terminal", none⟩
    else if (jobs.any fun job ↦ !job.terminal) = true then
      ⟨.none, "controller Job is active", none⟩
    else if (claim.any fun claim ↦ now < claim.expiresAt) = true then
      ⟨.none, "controller claim is still valid", none⟩
    else statusRecoveryDecision policy status

/-- `_controller_jobs`. -/
def controllerJobs (campaignId : String) : Act (List ControllerJob) := do
  let jobs ← perform none (.listJobs campaignId)
  if (jobs.map ControllerJob.attempt).Nodup then pure jobs
  else .throw (.watchdog "multiple controller Jobs have one physical attempt identity")

/-- `_capacity_is_abandoned`. -/
def capacityIsAbandoned (claim : Option CapacityClaim) (campaignId : String)
    (jobs : List ControllerJob) : Bool :=
  claim.any fun claim ↦ decide (claim.campaignId = campaignId) &&
    decide (claim.jobId ∉ (jobs.filter fun job ↦ !job.terminal).map ControllerJob.jobId)

/-- `_release_abandoned_provider_capacity`, of one provider. -/
def releaseAbandonedCapacity (campaignId : String) (jobs : List ControllerJob) (provider : String) :
    Act PUnit := do
  match ← perform none (.readCapacity provider campaignId jobs) with
  | none => pure ()
  | some claim =>
    if capacityIsAbandoned (some claim) campaignId jobs = true then
      perform none (.releaseCapacity claim)
    else pure ()

/-- `_release_abandoned_provider_capacity`, unless the pass is a dry run. -/
def releaseAbandonedProviderCapacity (lock : CampaignLock) (campaignId : String)
    (jobs : List ControllerJob) (dryRun : Bool) : Act PUnit :=
  if dryRun = true then pure () else lock.providers.forM (releaseAbandonedCapacity campaignId jobs)

/-- `launch_reserved_campaign_controller`, to the identifier of the Job. -/
def launchReservedController (lock : CampaignLock) (campaignId : String) (reservation : Reservation) :
    Act String :=
  if reservation.campaignId ≠ campaignId ∨ reservation.planDigest ≠ lock.planDigest ∨
      reservation.workerRevision ≠ lock.workerRevision then
    .throw (.value "controller attempt reservation changed the launch contract")
  else if reservation.attempt < 1 ∨
      (lock.policy.any fun policy ↦ decide (policy.maxAttempts < reservation.attempt)) = true then
    .throw (.value "campaign controller attempt is outside its locked limit")
  else perform none (.launch reservation.toAttemptReservation)

/-- `run_campaign_watchdog` once it has decided to recover. -/
def recoverController (lock : CampaignLock) (campaignId controlCommit : String)
    (status : ControllerStatus) (replacementAttempt : ℕ) (decision : WatchdogDecision)
    (jobs : List ControllerJob) : Act WatchdogResult := do
  match ← perform none (.readAttempt campaignId status.attempt) with
  | none => .throw (.watchdog "watchdog recovery has no immutable launch contract")
  | some prior => do
    let existingRecovery ← perform none (.readRecovery campaignId replacementAttempt)
    let existingReplacement ← perform none (.readAttempt campaignId replacementAttempt)
    let now ← perform none .clock
    let recordedAt := match existingRecovery, existingReplacement with
      | some recovery, _ => recovery.decidedAt
      | none, some replacement => replacement.reservedAt
      | none, none => now
    let replacement : Reservation :=
      { prior with
        attempt := replacementAttempt
        reservedAt := recordedAt }
    let recovery : RecoveryDecision :=
      { campaignId := campaignId
        planDigest := lock.planDigest
        priorJobId := status.jobId
        priorAttempt := status.attempt
        replacementAttempt := replacementAttempt
        checkpointRevision := existingRecovery.elim controlCommit RecoveryDecision.checkpointRevision
        decidedAt := recordedAt }
    if existingRecovery.any (· ≠ recovery) = true then
      .throw (.watchdog "watchdog recovery decision conflicts with the campaign state")
    else if existingReplacement.any (· ≠ replacement) = true then
      .throw (.watchdog "watchdog replacement attempt conflicts with the launch contract")
    else do
      perform none (.writeRecovery recovery)
      perform none (.reserveAttempt replacement)
      let jobId ← launchReservedController lock campaignId replacement
      pure ⟨decision, some jobId, some status, jobs⟩

/-- `run_campaign_watchdog`. -/
def runCampaignWatchdog (lock : CampaignLock) (campaignId : String) (dryRun : Bool) :
    Act WatchdogResult := do
  let (campaignTerminal, controlCommit) ← perform none (.loadSnapshot campaignId)
  let status ← perform none (.readStatus campaignId)
  let claim ← perform none (.readClaim campaignId)
  let jobs ← controllerJobs campaignId
  releaseAbandonedProviderCapacity lock campaignId jobs dryRun
  let now ← perform none .clock
  let decision := planControllerWatchdog lock status claim jobs campaignTerminal now
  if decision.action ≠ .recover ∨ dryRun = true then pure ⟨decision, none, status, jobs⟩
  else
    match status, decision.replacementAttempt with
    | some status, some replacementAttempt =>
      recoverController lock campaignId controlCommit status replacementAttempt decision jobs
    | _, _ => .throw (.watchdog "watchdog recovery has no prior controller status")

/-- A pass, to its end. -/
def watchdogPass (lock : CampaignLock) (campaignId : String) (dryRun : Bool) : Act Unit := do
  let result ← runCampaignWatchdog lock campaignId dryRun
  match result.status, result.submission with
  | some status, some jobId => perform none (.report ⟨status, result.listing, jobId⟩)
  | _, _ => pure ()

/-! ### The submission of a campaign -/

/-- `submit_campaign_controller`, from the reservation of the first attempt on. -/
def submitController (reservation : Reservation) : Act Unit := do
  let existing ← perform none (.readAttempt reservation.campaignId 1)
  let reservation : Reservation :=
    { reservation with
      attempt := 1
      reservedAt := existing.elim reservation.reservedAt Reservation.reservedAt }
  if existing.any (· ≠ reservation) = true then
    .throw (.value "existing controller attempt changed the launch contract")
  else do
    perform none (.reserveAttempt reservation)
    let _ ← perform none (.launch reservation.toAttemptReservation)
    pure ()

/-! ### The controller -/

/-- The process of a Job of an attempt. -/
structure Owner where
  jobId : String
  campaignId : String
  attempt : ℕ
  planDigest : String
  staleAfter : ℕ

def Owner.perform (owner : Owner) (call : Call) : Act call.Answer :=
  Controllers.perform (some owner.jobId) call

/-- `_write_status`. -/
def Owner.writeStatus (owner : Owner) (state : ControllerState) : Act PUnit := do
  let now ← owner.perform .clock
  owner.perform (.writeStatus
    { campaignId := owner.campaignId
      planDigest := owner.planDigest
      jobId := owner.jobId
      attempt := owner.attempt
      state := state
      heartbeatAt := now })

/-- `_apply_admitted_action` of waves on a provider: whatever comes of them, the claim is released. -/
def Owner.applyWaves (owner : Owner) (provider actionId : String) : Act PUnit := do
  let acquiredAt ← owner.perform .clock
  let claim : CapacityClaim :=
    { provider := provider
      campaignId := owner.campaignId
      planDigest := owner.planDigest
      jobId := owner.jobId
      attempt := owner.attempt
      actionId := actionId
      acquiredAt := acquiredAt }
  match ← (owner.perform (.acquireCapacity claim)).attempt with
  | .error (.unavailable _) => owner.writeStatus .waitingRetry
  | .error error => .throw error
  | .ok _ => do
    let applied ← (do
      owner.writeStatus .running
      owner.perform (.beginWaves claim)
      owner.perform (.endWaves claim) : Act PUnit).attempt
    owner.perform (.releaseCapacity claim)
    Program.ofExcept applied

/-- `_drive`, for some rounds. -/
def Owner.drive (owner : Owner) : ℕ → Act ControllerState
  | 0 => .throw (.controller "controller iteration limit reached")
  | rounds + 1 => do
    match ← owner.perform (.nextAction owner.campaignId) with
    | .finished state => pure state
    | .apply state => do
      owner.writeStatus state
      owner.drive rounds
    | .waves provider actionId => do
      owner.applyWaves provider actionId
      owner.drive rounds

/-- `_finish_attempt`: whatever comes of the writes, the claim is released. -/
def Owner.finish (owner : Owner) (state : ControllerState) : Act PUnit := do
  let written ← (do
    owner.writeStatus state
    owner.perform (.writeReceipt owner.jobId) : Act PUnit).attempt
  owner.perform (.release owner.jobId)
  Program.ofExcept written

/-- What a controller does under the claim of its campaign. -/
def Owner.work (owner : Owner) (lock : CampaignLock) (claim : ControllerClaim) (rounds : ℕ) :
    Act ControllerState := do
  lock.providers.forM fun provider ↦
    owner.perform (.recoverCapacity provider claim (decide (1 < owner.attempt)))
  owner.perform (.writeReceipt owner.jobId)
  owner.writeStatus .starting
  owner.drive rounds

/-- `_validate_attempt_reservation`. -/
def validateAttemptReservation (lock : CampaignLock) (reservation : Option Reservation) :
    Except SupervisionError Unit :=
  match reservation with
  | none => .error (.controller "controller attempt was not reserved")
  | some reservation =>
    if reservation.planDigest ≠ lock.planDigest ∨ reservation.inputDigest ≠ lock.inputDigest ∨
        reservation.workerRevision ≠ lock.workerRevision then
      .error (.controller "controller attempt reservation does not match its immutable input")
    else .ok ()

/-- `run` of the process of a Job, with the lock in its input. The command line of every attempt but the
first says that the Job before it is terminal. -/
def runController (lockOf : String → CampaignLock) (jobId : String) (rounds : ℕ) : Act Unit := do
  let job ← perform none (.boot jobId)
  let lock := lockOf job.campaignId
  match lock.policy with
  | none =>
    .throw (.controller "campaign controller requires a provider controller lock")
  | some policy => do
    let owner : Owner := ⟨jobId, job.campaignId, job.attempt, lock.planDigest, policy.staleAfter⟩
    if policy.maxAttempts < job.attempt then
      .throw (.controller "controller attempt limit is exhausted")
    else do
      let reservation ← owner.perform (.readAttempt job.campaignId job.attempt)
      Program.ofExcept (validateAttemptReservation lock reservation)
      let startedAt : ℕ ← owner.perform .clock
      if hattempt : 1 ≤ job.attempt then
        let claim : ControllerClaim :=
          { campaignId := job.campaignId
            jobId := jobId
            planDigest := lock.planDigest
            attempt := job.attempt
            acquiredAt := startedAt
            heartbeatAt := startedAt
            expiresAt := startedAt + policy.staleAfter
            attempt_pos := hattempt
            ordered := ⟨Nat.le_refl _, Nat.lt_add_of_pos_right policy.staleAfter_pos⟩ }
        owner.perform (.acquire claim (decide (1 < job.attempt)))
        let worked ← (owner.work lock claim rounds).attempt
        owner.finish (match worked with
          | .ok state => state
          | .error (.value _) => .failedDeterministic
          | .error _ => .failedInfrastructure)
      else .throw (.value "controller attempts are positive")

/-! ### The environment -/

/-- What the environment decides of a call: the time that passes after it, whether it fails and whether
it is carried out although it does, and what it is answered. -/
structure WorldChoice where
  elapsed : ℕ
  fails : Bool
  carried : Bool
  fate : World.LaunchFate
  snapshot : Bool × String
  action : NextAction
  succeeded : Bool

/-- A call that may fail, before or after it is carried out. -/
def WorldChoice.settle {α : Type} (choice : WorldChoice) (world : World)
    (settled : Outcome α × World) : Outcome α × World :=
  if choice.fails = true then (.error .http, if choice.carried = true then settled.2 else world)
  else settled

/-- A command creates a Job with an identifier of its own. -/
def World.isNewJob (world : World) (fate : World.LaunchFate) : Bool :=
  fate.created.all fun created ↦ decide (created.1 ∉ world.jobs.map ControllerJob.jobId)

/-- A call, and the world after it. -/
def performCall (thread : ℕ) (actor : Option String) (choice : WorldChoice) (world : World) :
    (call : Call) → Option (Outcome call.Answer × World)
  | .boot jobId => (world.boot thread jobId).map fun booted ↦ (.ok booted.1, booted.2)
  | .clock => some (.ok world.now, world)
  | .loadSnapshot _ => some (choice.settle world (.ok choice.snapshot, world))
  | .nextAction _ => some (choice.settle world (.ok choice.action, world))
  | .readStatus campaignId =>
    some (choice.settle world (.ok (world.statuses.get? campaignId), world))
  | .writeStatus status => some (choice.settle world (world.writeStatus status))
  | .readClaim campaignId => some (choice.settle world (.ok (world.claims.get? campaignId), world))
  | .acquire claim priorJobTerminal =>
    some (choice.settle world (world.acquire claim priorJobTerminal))
  | .heartbeat staleAfter jobId =>
    if world.isRunning jobId = true then
      some (choice.settle world (world.heartbeat staleAfter jobId))
    else none
  | .release jobId => some (choice.settle world (world.release jobId))
  | .readCapacity provider _ _ =>
    some (choice.settle world (.ok (world.capacity.get? provider), world))
  | .acquireCapacity claim => some (choice.settle world (world.acquireCapacity claim))
  | .releaseCapacity claim => some (choice.settle world (world.releaseCapacity actor claim))
  | .recoverCapacity provider replacement priorJobTerminal =>
    some (choice.settle world (world.recoverCapacity provider replacement priorJobTerminal))
  | .reserveAttempt reservation => some (choice.settle world (world.reserveAttempt reservation))
  | .readAttempt campaignId attempt =>
    some (choice.settle world (.ok (world.attempts.get? (campaignId, attempt)), world))
  | .writeRecovery decision => some (choice.settle world (world.writeRecovery decision))
  | .readRecovery campaignId attempt =>
    some (choice.settle world (.ok (world.recoveries.get? (campaignId, attempt)), world))
  | .writeReceipt _ => some (choice.settle world (.ok (), world))
  | .listJobs campaignId => some (choice.settle world (.ok (world.listJobs campaignId), world))
  | .launch reservation =>
    if world.isNewJob choice.fate = true then
      some (choice.settle world (world.launch reservation choice.fate))
    else none
  | .beginWaves claim => some (.ok (), world.beginWaves claim)
  | .endWaves claim =>
    some (if choice.succeeded = true then .ok () else .error (.controller "wave failed"),
      world.endWaves claim)
  | .report recovered => some (.ok (), { world with recovered := world.recovered ++ [recovered] })
  | .endJob jobId stage => some (.ok (), world.endJob jobId stage)

/-- The process of a Job makes its calls until the Job has ended. -/
def World.mayCall (world : World) (thread : ℕ) (actor : Option String) : Bool :=
  actor.all fun jobId ↦ world.isRunning jobId && decide (world.processes.get? jobId = some thread)

/-- One coordination repository, one Job service and one clock. -/
def supervisionMachine : Machine supervisionInterface World WorldChoice where
  perform thread op choice world :=
    if world.mayCall thread op.actor = true then
      (performCall thread op.actor choice world op.call).map fun result ↦
        (result.1, result.2.elapse choice.elapsed)
    else none
  restart := some

/-- The programs of any number of campaigns: submissions, watchdog passes, controllers and their
heartbeats, and the ends of Jobs. -/
inductive Supervises (lockOf : String → CampaignLock) : Act Unit → Prop
  | submit (reservation : Reservation) : Supervises lockOf (submitController reservation)
  | watchdog (campaignId : String) (dryRun : Bool) :
      Supervises lockOf (watchdogPass (lockOf campaignId) campaignId dryRun)
  | controller (jobId : String) (rounds : ℕ) : Supervises lockOf (runController lockOf jobId rounds)
  | heartbeat (staleAfter : ℕ) (jobId : String) :
      Supervises lockOf (perform none (.heartbeat staleAfter jobId))
  | endJob (jobId stage : String) : Supervises lockOf (perform none (.endJob jobId stage))

/-- Nothing has been submitted. -/
def World.Empty (world : World) : Prop :=
  world.statuses = [] ∧ world.receipts = [] ∧ world.capacity = [] ∧ world.jobs = [] ∧
    world.processes = [] ∧ world.executing = [] ∧ world.lost = [] ∧ world.recovered = []

end HarborHF.Controllers
