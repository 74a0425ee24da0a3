import Mathlib.Data.List.MinMax
import HarborHF.Campaign.Reconciler

/-!
# Applying an action

How the reconciler carries out an action that needs no Job. A manual intervention is required for
the wave of the action. An exhaustion is checked against the projection it was planned from, and
records for each of its trials an event that ends it.
-/

set_option autoImplicit false

namespace HarborHF.Campaign

open Relational

/-- What applying an action raises: an `ActionExecutionError`, a `CampaignApplyError`, or an error of
the campaign code. -/
inductive ApplyError
  | execution (message : String)
  | apply (message : String)
  | campaign (error : CampaignError)
  deriving DecidableEq

/-- The digest in the identifier of a durable event. -/
class EventDigests where
  digest : String → String

/-- The time of the next event, after the last one (`_next_observed`). -/
def nextObserved (clock last : ℕ) : ℕ := if clock ≤ last then last + 1 else clock

/-! ### Exhaustion -/

/-- The shards of an action in its deployment. -/
def matchedShards (lock : CampaignLock) (action : ReconcileAction) : List CampaignShardLock :=
  ((lock.runs.filter fun run ↦ run.deploymentDigest = action.deploymentDigest).flatMap
    CampaignRunLock.shards).filter fun shard ↦ shard.shardId ∈ action.shardIds

def validateSpendExhaustionTargets (lock : CampaignLock) (action : ReconcileAction) :
    Except ApplyError Unit :=
  let shards := matchedShards lock action
  let allowed := (shards.flatMap CampaignShardLock.trials).map CampaignTrialLock.trialId
  if action.trialIds = [] then .error (.execution "spend exhaustion action has no trials")
  else if action.trialIds ≠ action.targetIds ∨ ¬ action.trialIds.Nodup then
    .error (.execution "spend exhaustion trial identity is malformed")
  else if sameIds (shards.map CampaignShardLock.shardId) action.shardIds = false ∨
      ¬ action.trialIds ⊆ allowed then
    .error (.execution "spend exhaustion targets the wrong deployment")
  else .ok ()

/-- The trial waits for a retry or ended without a score. -/
def TrialStatus.exhaustible : TrialStatus → Bool
  | retryWait | invalid | failedInfrastructure => true
  | _ => false

/-- The event that ends an exhausted trial. -/
def exhaustionEvent [EventDigests] (lock : CampaignLock) (trialId : String)
    (trial : TrialProjection) (latest : ExecutionProjection) (observedAt : ℕ) : CampaignEvent :=
  { eventId := "evt-" ++ EventDigests.digest
      (lock.campaignId ++ ":" ++ trialId ++ ":spend-cap-exhausted")
    subjectId := trialId
    observedAt := observedAt
    producer := .reconciler
    body := .trial
      (if latest.category = some .agent ∨ latest.category = some .benchmark then .invalid
        else .failedInfrastructure)
      ⟨some trial.shardId, some "retry spend cap exhausted"⟩ }

/-- The events of the trials in turn, where `clock` is read once for each of them. -/
def exhaustionEvents [EventDigests] (lock : CampaignLock) (projection : RecoveryProjection)
    (clock : String → ℕ) : ℕ → List String → Except ApplyError (List CampaignEvent)
  | _, [] => .ok []
  | last, trialId :: rest =>
    match projection.trials.get? trialId with
    | none => .error (.campaign (.key trialId))
    | some trial =>
      match trial.executions.values.argmax ExecutionProjection.physicalAttempt with
      | none => .error (.campaign (.value "max() iterable argument is empty"))
      | some latest => do
        let observedAt := nextObserved (clock trialId) last
        let events ← exhaustionEvents lock projection clock observedAt rest
        return exhaustionEvent lock trialId trial latest observedAt :: events

/-- The events that an exhaustion records (`_exhaust_trials`). -/
def exhaustTrials [EventDigests] (lock : CampaignLock) (action : ReconcileAction)
    (projection : RecoveryProjection) (clock : String → ℕ) (last : ℕ) :
    Except ApplyError (List CampaignEvent) := do
  if projection.cancelRequestedAt.isSome then
    .error (.execution "campaign cancellation superseded retry exhaustion")
  validateSpendExhaustionTargets lock action
  match action.trialIds.find? fun trialId ↦
      !(projection.trials.get? trialId).any fun trial ↦ trial.status.exhaustible with
  | some trialId =>
    .error (.execution ("spend exhaustion target is not retryable: " ++ trialId))
  | none => exhaustionEvents lock projection clock last action.trialIds

end HarborHF.Campaign
