import HarborHF.Async.Pool
import HarborHF.Async.Revisions

/-!
# Launching a controller Job

A launcher of a controller attempt, the command line or the watchdog, adopts the Job that a receipt or
the Job listing names. Otherwise it takes a launch claim that expires, looks again, runs the launch
command, records what it launched and releases the claim. The calls of the state store read the head of
the coordination repository and commit against it. Any number of launchers run at once on one
repository, one Job service and one clock.
-/

set_option autoImplicit false

namespace HarborHF.Controllers

open Async

/-! ### Job identifiers -/

def isHexDigit (letter : Char) : Bool :=
  letter.isDigit || ('a' ≤ letter && letter ≤ 'f')

/-- `_JOB_ID.fullmatch`. -/
def isJobId (text : String) : Bool :=
  text.length == 24 && text.toList.all isHexDigit

/-- The first run of exactly twenty-four digits, after a run that has been read, latest digit first. -/
def searchJobId : List Char → List Char → Option String
  | run, [] => if run.length = 24 then some (String.ofList run.reverse) else none
  | run, letter :: rest =>
    if isHexDigit letter then searchJobId (letter :: run) rest
    else if run.length = 24 then some (String.ofList run.reverse)
    else searchJobId [] rest

/-- `_JOB_ID.search`. -/
def findJobId (output : String) : Option String := searchJobId [] output.toList

/-! ### Records -/

/-- The immutable launch contract of an attempt (`ControllerAttemptReservation`), as far as a launch
reads it. -/
structure AttemptReservation where
  campaignId : String
  planDigest : String
  inputDigest : String
  attempt : ℕ
  deriving DecidableEq

/-- `ControllerLaunchClaim`. -/
structure LaunchClaim where
  campaignId : String
  planDigest : String
  attempt : ℕ
  launcherId : String
  acquiredAt : ℕ
  expiresAt : ℕ
  ordered : acquiredAt < expiresAt
  deriving DecidableEq

/-- `ControllerLaunchReceipt`. -/
structure LaunchReceipt where
  campaignId : String
  planDigest : String
  inputDigest : String
  attempt : ℕ
  jobId : String
  deriving DecidableEq

/-- The launch records of one attempt in the coordination repository. -/
structure LaunchRecords where
  receipt : Option LaunchReceipt
  claim : Option LaunchClaim
  deriving DecidableEq

/-- `ControllerLaunchUnavailable`, `ControllerStatusError`, `ValueError`, `ProcessError` and the errors
of the repository. -/
inductive LaunchError
  | unavailable (message : String)
  | status (message : String)
  | value (message : String)
  | process
  | http
  deriving DecidableEq

/-! ### Operations -/

/-- How a parent-checked commit ended. -/
inductive CommitOutcome
  | committed
  | conflict
  | failed
  deriving DecidableEq

/-- What a launcher awaits. A command runs under the claim of its launcher, and `returned` ends a
launch. -/
inductive LaunchOp
  | read
  | commit (head : ℕ) (records : LaunchRecords)
  | listJobs
  | run (claim : LaunchClaim)
  | clock
  | identifier
  | returned (jobId : String)

/-- The answers: the head with its records, the end of a commit, the Jobs with the labels of the
attempt, the output of the command unless its process failed, the time, and a new identifier. -/
def launchInterface : Interface where
  Op := LaunchOp
  Ans
    | .read => ℕ × LaunchRecords
    | .commit _ _ => CommitOutcome
    | .listJobs => List String
    | .run _ => Option String
    | .clock => ℕ
    | .identifier => String
    | .returned _ => Unit

abbrev LaunchProgram (α : Type) := Program launchInterface LaunchError α

def readRecords : LaunchProgram (ℕ × LaunchRecords) := .await .read .ret

def commitRecords (head : ℕ) (records : LaunchRecords) : LaunchProgram CommitOutcome :=
  .await (.commit head records) .ret

def listJobs : LaunchProgram (List String) := .await .listJobs .ret

def runCommand (claim : LaunchClaim) : LaunchProgram (Option String) :=
  .await (.run claim) .ret

def readClock : LaunchProgram ℕ := .await .clock .ret

def newIdentifier : LaunchProgram String := .await .identifier .ret

def reportReturned (jobId : String) : LaunchProgram Unit :=
  .await (.returned jobId) .ret

/-! ### `HubControllerStateStore` -/

namespace StateStore

/-- One attempt of `acquire_launch`. -/
def acquireLaunch (claim : LaunchClaim) (records : LaunchRecords) :
    Verdict LaunchRecords LaunchError Unit :=
  match records.claim with
  | none => .put { records with claim := some claim } ()
  | some observed =>
    if observed = claim then .done ()
    else if observed.expiresAt > claim.acquiredAt then
      .fail (.unavailable "controller attempt launch is already in progress")
    else .put { records with claim := some claim } ()

/-- One attempt of `release_launch`. -/
def releaseLaunch (claim : LaunchClaim) (records : LaunchRecords) :
    Verdict LaunchRecords LaunchError Unit :=
  match records.claim with
  | none => .done ()
  | some observed =>
    if observed ≠ claim then
      .fail (.status "controller launch claim ownership cannot be verified")
    else .put { records with claim := none } ()

/-- One attempt of `write_launch`. -/
def writeLaunch (receipt : LaunchReceipt) (records : LaunchRecords) :
    Verdict LaunchRecords LaunchError Unit :=
  match records.receipt with
  | some observed =>
    if observed ≠ receipt then .fail (.status "immutable controller record conflicts")
    else .done ()
  | none => .put { records with receipt := some receipt } ()

/-- The attempts of a call: each reads the head, decides, and commits against what it has read. -/
def retried (verdict : LaunchRecords → Verdict LaunchRecords LaunchError Unit) (contended : String) :
    ℕ → LaunchProgram Unit
  | 0 => .throw (.status contended)
  | attempts + 1 => do
    let (head, records) ← readRecords
    match verdict records with
    | .done () => pure ()
    | .fail error => .throw error
    | .put next () => do
      match ← commitRecords head next with
      | .committed => pure ()
      | .conflict => retried verdict contended attempts
      | .failed => .throw .http

/-- `_MAX_COMMIT_ATTEMPTS`. -/
def maxCommitAttempts : ℕ := 8

end StateStore

def acquireLaunch (claim : LaunchClaim) : LaunchProgram Unit :=
  StateStore.retried (StateStore.acquireLaunch claim) "controller launch claim remained contended"
    StateStore.maxCommitAttempts

def releaseLaunch (claim : LaunchClaim) : LaunchProgram Unit :=
  StateStore.retried (StateStore.releaseLaunch claim) "controller launch release remained contended"
    StateStore.maxCommitAttempts

def writeLaunch (receipt : LaunchReceipt) : LaunchProgram Unit :=
  StateStore.retried (StateStore.writeLaunch receipt) "controller repository remained contended"
    StateStore.maxCommitAttempts

def readLaunch : LaunchProgram (Option LaunchReceipt) := do
  let (_, records) ← readRecords
  pure records.receipt

/-! ### The launch -/

/-- `_find_controller_jobs`, for a listing of Jobs that have the labels. -/
def findControllerJobs : LaunchProgram (List String) := do
  let identifiers ← listJobs
  if identifiers.all isJobId = false then
    .throw (.value "HF Job response has no valid controller ID")
  else if identifiers.length > 1 then
    .throw (.value "multiple HF Jobs have one controller attempt identity")
  else pure identifiers

/-- `_validated_launch_receipt`. -/
def validatedLaunchReceipt (receipt : LaunchReceipt) (reservation : AttemptReservation) :
    Except LaunchError String :=
  let expected :=
    (reservation.campaignId, reservation.planDigest, reservation.inputDigest, reservation.attempt)
  let observed := (receipt.campaignId, receipt.planDigest, receipt.inputDigest, receipt.attempt)
  if observed ≠ expected then
    .error (.value "controller launch receipt changed the launch contract")
  else .ok receipt.jobId

/-- `_record_controller_launch`. -/
def recordControllerLaunch (reservation : AttemptReservation) (jobId : String) :
    LaunchProgram String := do
  writeLaunch
    { campaignId := reservation.campaignId
      planDigest := reservation.planDigest
      inputDigest := reservation.inputDigest
      attempt := reservation.attempt
      jobId := jobId }
  pure jobId

/-- `_existing_controller_launch`. -/
def existingControllerLaunch (reservation : AttemptReservation) : LaunchProgram (Option String) := do
  match ← readLaunch with
  | some recorded =>
    let jobId ← Program.ofExcept (validatedLaunchReceipt recorded reservation)
    pure (some jobId)
  | none =>
    match ← findControllerJobs with
    | [] => pure none
    | jobId :: _ =>
      let recorded ← recordControllerLaunch reservation jobId
      pure (some recorded)

/-- What `_run_controller_launch` does when the command does not name its Job. -/
def adoptControllerJob (reservation : AttemptReservation) (error : LaunchError) :
    LaunchProgram String := do
  match ← findControllerJobs with
  | [] => .throw error
  | jobId :: _ => recordControllerLaunch reservation jobId

/-- `_run_controller_launch`. -/
def runControllerLaunch (reservation : AttemptReservation) (claim : LaunchClaim) :
    LaunchProgram String := do
  match ← runCommand claim with
  | none => adoptControllerJob reservation .process
  | some output =>
    match findJobId output with
    | some jobId => recordControllerLaunch reservation jobId
    | none =>
      adoptControllerJob reservation (.value "HF Jobs controller submission did not return a job ID")

/-- `_CONTROLLER_LAUNCH_LEASE`, thirty minutes. -/
def controllerLaunchLease : ℕ := 30 * 60 * 1000000

def launchClaim (reservation : AttemptReservation) (launcherId : String) (acquiredAt : ℕ) :
    LaunchClaim where
  campaignId := reservation.campaignId
  planDigest := reservation.planDigest
  attempt := reservation.attempt
  launcherId := launcherId
  acquiredAt := acquiredAt
  expiresAt := acquiredAt + controllerLaunchLease
  ordered := Nat.lt_add_of_pos_right (by decide)

/-- `_launch_or_adopt_controller` once the claim is acquired. -/
def launchUnderClaim (reservation : AttemptReservation) (claim : LaunchClaim) :
    LaunchProgram String := do
  let adopted ← existingControllerLaunch reservation
  let jobId ←
    match adopted with
    | some jobId => pure jobId
    | none => runControllerLaunch reservation claim
  releaseLaunch claim
  pure jobId

/-- `_launch_or_adopt_controller`. -/
def launchOrAdoptController (reservation : AttemptReservation) : LaunchProgram String := do
  match ← existingControllerLaunch reservation with
  | some adopted => pure adopted
  | none =>
    let acquiredAt ← readClock
    let launcherId ← newIdentifier
    let claim := launchClaim reservation launcherId acquiredAt
    match ← (acquireLaunch claim).attempt with
    | .ok () => launchUnderClaim reservation claim
    | .error (.unavailable message) =>
      match ← existingControllerLaunch reservation with
      | some adopted => pure adopted
      | none => .throw (.unavailable message)
    | .error error => .throw error

/-- A launcher, to its end. -/
def launcher (reservation : AttemptReservation) : LaunchProgram Unit := do
  let jobId ← launchOrAdoptController reservation
  reportReturned jobId

/-! ### The repository, the Job service and the clock -/

/-- The launch records at the head of the repository, the Jobs with the labels of the attempt, the time,
the identifiers given to each thread, and what the launchers have returned. -/
structure LaunchWorld where
  head : ℕ
  records : LaunchRecords
  jobs : List String
  now : ℕ
  identifiers : List (String × ℕ)
  returned : List String
  deriving DecidableEq

/-- What the environment decides of an operation: the time that passes after it, whether a commit is
carried out and whether its end is reported, the Job that a command creates and its output, and the next
identifier. -/
structure LaunchChoice where
  elapsed : ℕ
  carried : Bool
  reported : Bool
  created : Option String
  output : Option String
  identifier : String

def LaunchWorld.elapse (world : LaunchWorld) (elapsed : ℕ) : LaunchWorld :=
  { world with now := world.now + elapsed }

/-- A commit is carried out only at the head it was made for. -/
def LaunchWorld.commit (world : LaunchWorld) (head : ℕ) (records : LaunchRecords)
    (choice : LaunchChoice) : CommitOutcome × LaunchWorld :=
  if choice.carried ∧ world.head = head then
    (if choice.reported then .committed else .failed,
      { world with
        head := world.head + 1
        records := records })
  else (if choice.reported then .conflict else .failed, world)

/-- A command creates a new Job or none, and an output that names a Job names that one. -/
def LaunchWorld.run (world : LaunchWorld) (choice : LaunchChoice) :
    Option (Option String × LaunchWorld) :=
  if (choice.created.all fun jobId ↦ isJobId jobId && decide (jobId ∉ world.jobs)) = true ∧
      ((choice.output.bind findJobId).all fun jobId ↦ decide (choice.created = some jobId)) = true then
    some (choice.output, { world with jobs := world.jobs ++ choice.created.toList })
  else none

/-- The operations on one coordination repository and one Job service. A listing shows every Job that
was created, and an identifier is given once. -/
def launchMachine : Machine launchInterface LaunchWorld LaunchChoice where
  perform thread op choice world :=
    match op with
    | .read => some ((world.head, world.records), world.elapse choice.elapsed)
    | .commit head records =>
      some ((world.commit head records choice).1,
        (world.commit head records choice).2.elapse choice.elapsed)
    | .listJobs => some (world.jobs, world.elapse choice.elapsed)
    | .run _ =>
      (world.run choice).map fun result ↦ (result.1, result.2.elapse choice.elapsed)
    | .clock => some (world.now, world.elapse choice.elapsed)
    | .identifier =>
      if choice.identifier ∈ world.identifiers.map Prod.fst then none
      else
        some (choice.identifier,
          { world with identifiers := world.identifiers ++ [(choice.identifier, thread)] }.elapse
            choice.elapsed)
    | .returned jobId =>
      some ((), { world with returned := world.returned ++ [jobId] }.elapse choice.elapsed)
  restart := some

/-- Nothing has been launched. -/
def LaunchWorld.Fresh (world : LaunchWorld) : Prop :=
  world.records = ⟨none, none⟩ ∧ world.jobs = [] ∧ world.identifiers = [] ∧ world.returned = []

/-- Launchers of the attempt, each with the reservation it has read. -/
def IsLauncher (reservation : AttemptReservation) (program : LaunchProgram Unit) : Prop :=
  program = launcher reservation

/-- A launch command is issued before the claim of its launcher expires. -/
def InTime (world : LaunchWorld) : launchInterface.Op → Prop
  | .run claim => world.now < claim.expiresAt
  | _ => True

end HarborHF.Controllers
