import HarborHF.Campaign.Apply

/-!
# The events of an operator

An operator cancels a campaign, asks for a shard to be retried at once, or resumes a campaign after
verifying that a failed cleanup was finished by hand. Each command is an event that the log may
already hold: a campaign is cancelled once, and a retry or a resumption has an identifier derived from
the state it was asked for in. The functions return the event with a flag that says whether it is new.
-/

set_option autoImplicit false

namespace HarborHF.Campaign

open Relational

/-- A text of a payload is not empty. -/
def requireText (text : String) : Except CampaignError Unit :=
  if text = "" then .error (.value "String should have at least 1 character") else .ok ()

/-- An event of the campaign, written by the command line (`new_event`). -/
def newEvent (lock : CampaignLock) (body : EventBody) (observedAt : ℕ) (identifier : String) :
    CampaignEvent :=
  { eventId := "evt-" ++ identifier
    subjectId := lock.campaignId
    observedAt := observedAt
    producer := .cli
    body := body }

namespace CampaignEvent

/-- The event requests a cancellation. -/
def isCancellation (event : CampaignEvent) : Bool :=
  match event.body with
  | .cancelRequested _ => true
  | _ => false

/-- The event requests a retry. -/
def isRetryRequest (event : CampaignEvent) : Bool :=
  match event.body with
  | .shardRetryRequested _ => true
  | _ => false

/-- The event resolves a manual intervention. -/
def isResolution (event : CampaignEvent) : Bool :=
  match event.body with
  | .manualInterventionResolved _ => true
  | _ => false

/-- The waves whose cleanup the event verifies. -/
def resolvedWaveIds (event : CampaignEvent) : List String :=
  match event.body with
  | .manualInterventionResolved payload => payload.waveIds
  | _ => []

/-- The payload of a requirement of manual intervention. -/
def requirement? (event : CampaignEvent) : Option LifecyclePayload :=
  match event.body with
  | .manualInterventionRequired payload => some payload
  | _ => none

end CampaignEvent

section

variable [EventDigests]

/-! ### Cancellation -/

def cancellationIdentifier (lock : CampaignLock) : String :=
  EventDigests.digest (lock.campaignId ++ ":cancel")

/-- The request that cancels the campaign, where `identifier` may replace its identifier. -/
def durableCancellationEvent (lock : CampaignLock) (events : List CampaignEvent) (reason : String)
    (clock : ℕ) (identifier : Option String) : Except CampaignError (CampaignEvent × Bool) := do
  let ordered ← orderedEvents events
  match ordered.find? CampaignEvent.isCancellation with
  | some event => return (event, false)
  | none => do
    requireText reason
    return (newEvent lock (.cancelRequested reason) clock
      (identifier.getD (cancellationIdentifier lock)), true)

/-! ### Retries -/

/-- A retry of the trial can be requested. -/
def TrialStatus.requestable : TrialStatus → Bool
  | retryWait | failedInfrastructure => true
  | _ => false

def eligibleTrials (projection : RecoveryProjection) (shard : ShardProjection) :
    Except CampaignError (List TrialProjection) := do
  let trials ← shard.trialIds.mapM (getItem projection.trials)
  return trials.filter fun trial ↦ trial.status.requestable

/-- The executions of the trials by number. -/
def trialGenerations (eligible : List TrialProjection) : Dict String ℕ :=
  eligible.foldl (fun generations trial ↦
    generations.set trial.trialId trial.executions.length) []

def retryIdentifier (lock : CampaignLock) (shardId : String) (eligible : List TrialProjection) :
    String :=
  EventDigests.digest (lock.campaignId ++ ":" ++ shardId ++ ":" ++
    ",".intercalate (eligible.map fun trial ↦
      trial.trialId ++ ":" ++ toString trial.executions.length))

/-- A request to retry a shard at once, for the executions it has. -/
def durableShardRetryEvent [Jitter] (lock : CampaignLock) (events : List CampaignEvent)
    (shardId reason : String) (clock : ℕ) : Except CampaignError (CampaignEvent × Bool) := do
  let projection ← projectRecovery lock events
  if projection.campaign.status.terminal then
    .error (.value "a terminal campaign cannot be retried")
  else if projection.campaign.status = .cancelRequested ∨ projection.campaign.status = .draining then
    .error (.value "a cancelling campaign cannot be retried")
  else
    match projection.shards.get? shardId with
    | none => .error (.value ("unknown campaign shard: " ++ shardId))
    | some shard => do
      let eligible ← eligibleTrials projection shard
      if eligible = [] then .error (.value "shard has no retryable logical trials")
      else do
        let identifier := retryIdentifier lock shardId eligible
        let ordered ← orderedEvents events
        match ordered.find? fun event ↦ event.eventId = "evt-" ++ identifier with
        | some event =>
          if event.isRetryRequest = false then .error (.value "retry event identity conflicts")
          else return (event, false)
        | none => do
          requireText shardId
          requireText reason
          return (newEvent lock
            (.shardRetryRequested ⟨shardId, reason, trialGenerations eligible⟩) clock identifier,
            true)

/-! ### Manual recovery -/

/-- Texts without repetitions in their order (`sorted` of a set). -/
def sortedSet (texts : List String) : List String := texts.dedup.insertionSort (· ≤ ·)

/-- The event is a requirement of a wave that is not resolved. -/
def CampaignEvent.stillRequired (resolved : List String) (event : CampaignEvent) : Bool :=
  event.requirement?.any fun payload ↦ !payload.parentId.any fun parentId ↦ parentId ∈ resolved

/-- The waves of some requirements. -/
def requiredWaveIds (required : List CampaignEvent) : List String :=
  sortedSet (required.filterMap fun event ↦ event.requirement?.bind LifecyclePayload.parentId)

/-- The requirements that no resolution names, with their waves. -/
def manualRecoveryRequirements (ordered : List CampaignEvent) :
    Except CampaignError (List CampaignEvent × List String) :=
  let resolved := ordered.flatMap CampaignEvent.resolvedWaveIds
  let required := ordered.filter (CampaignEvent.stillRequired resolved)
  let waveIds := requiredWaveIds required
  if required = [] then .error (.value "manual intervention requirement has not been recorded")
  else if waveIds = [] then
    .error (.value "manual intervention does not reference recoverable cleanup")
  else .ok (required, waveIds)

def validateManualRecoveryWaves (projection : RecoveryProjection) (waveIds : List String) :
    Except CampaignError Unit :=
  if waveIds.any fun waveId ↦ !(projection.waves.get? waveId).any fun wave ↦
      wave.status = .cleanupFailed ∨ wave.status = .closed then
    .error (.value "manual intervention does not reference recoverable cleanup")
  else .ok ()

def resolutionIdentifier (lock : CampaignLock) (required : List CampaignEvent)
    (waveIds : List String) : String :=
  EventDigests.digest (lock.campaignId ++ ":" ++
    ",".intercalate (required.map CampaignEvent.eventId) ++ ":" ++ ",".intercalate waveIds ++
    ":resolved")

/-- Resume a campaign after an operator has verified failed cleanup. -/
def durableManualInterventionResolutionEvent [Jitter] (lock : CampaignLock)
    (events : List CampaignEvent) (reason : String) (cleanupVerified : Bool) (clock : ℕ) :
    Except CampaignError (CampaignEvent × Bool) := do
  if cleanupVerified = false then
    .error (.value "manual recovery requires verified endpoint cleanup")
  else do
    let ordered ← orderedEvents events
    let projection ← projectRecovery lock events
    if projection.campaign.status ≠ .manualIntervention then
      match ordered.reverse.find? CampaignEvent.isResolution with
      | some event => return (event, false)
      | none => .error (.value "campaign does not require manual intervention")
    else do
      let (required, requiredWaveIds) ← manualRecoveryRequirements ordered
      let waveIds := sortedSet (requiredWaveIds ++
        (projection.waves.values.filter fun wave ↦ wave.status = .cleanupFailed).map
          WaveProjection.waveId)
      let identifier := resolutionIdentifier lock required waveIds
      match ordered.find? fun event ↦ event.eventId = "evt-" ++ identifier with
      | some event =>
        if event.isResolution = false then
          .error (.value "manual recovery event identity conflicts")
        else return (event, false)
      | none => do
        validateManualRecoveryWaves projection waveIds
        let last := (ordered.map CampaignEvent.observedAt).max?.getD 0
        return (newEvent lock (.manualInterventionResolved ⟨waveIds, some reason⟩)
          (max clock (last + 1)) identifier, true)

end

end HarborHF.Campaign
