import Mathlib.Data.List.Induction
import HarborHF.Campaign.Lock
import HarborHF.Relational.Fold

/-!
# The campaign event log

What happened to a campaign is a log of immutable events, written by the command line, the
reconciler, the workers and the publisher. `EventBody` has one constructor for each family of event
kinds with its payload, so that an event whose payload does not match its kind cannot be built, and
the subject type of an event is read off its kind; only a spend event names its subject type itself.

The log has no order of its own: `orderedEvents` drops repeated events, refuses two different events
with one identifier, and sorts by the time of observation, ties broken by identifier. Times are
instants in microseconds. `projectCampaign` folds the ordered log into the status of the campaign and
its actions; after a terminal transition any further event is an error.
-/

set_option autoImplicit false

namespace HarborHF.Campaign

open Relational

/-! ### Event kinds and payloads -/

inductive SubjectType
  | campaign | run | shard | trial | execution | wave
  deriving DecidableEq

inductive Producer
  | cli | reconciler | waveController | watchdog | publisher
  deriving DecidableEq

inductive RetryCategory
  | lost | transient | quota | rateLimit | ambiguous | agent | benchmark | configuration
  | authentication | cleanup | evidence
  deriving DecidableEq

def RetryCategory.name : RetryCategory → String
  | lost => "lost"
  | transient => "transient"
  | quota => "quota"
  | rateLimit => "rate-limit"
  | ambiguous => "ambiguous"
  | agent => "agent"
  | benchmark => "benchmark"
  | configuration => "configuration"
  | authentication => "authentication"
  | cleanup => "cleanup"
  | evidence => "evidence"

inductive ActionKind
  | submitWave | retryShard | cancelExecution | cancelWave | drainWave | cleanupWave | exhaustTrials
  | publishResults | publishSummary | manualIntervention
  deriving DecidableEq

/-- The statuses in which a campaign ends. -/
inductive TerminalStatus
  | completed | partly | failed | cancelled
  deriving DecidableEq

/-- The statuses that run and shard events record. -/
inductive LifecycleStatus
  | queued | active | verifying | publishing | complete | invalid | failedInfrastructure | cancelled
  deriving DecidableEq

/-- The statuses that trial events record. -/
inductive TrialOutcome
  | complete | invalid | failedInfrastructure | cancelled
  deriving DecidableEq

inductive RunStatus
  | planned | queued | active | verifying | publishing | complete | invalid | failedInfrastructure
  | cancelled
  deriving DecidableEq

inductive ShardStatus
  | planned | queued | active | verifying | publishing | retryWait | complete | invalid
  | failedInfrastructure | cancelled
  deriving DecidableEq

inductive TrialStatus
  | planned | active | retryWait | complete | invalid | failedInfrastructure | cancelled
  deriving DecidableEq

inductive ExecutionStatus
  | active | completed | failed | cancelled
  deriving DecidableEq

inductive WaveStatus
  | acquiring | provisioning | ready | active | draining | cleaning | closed | cleanupFailed
  deriving DecidableEq

def WaveStatus.name : WaveStatus → String
  | acquiring => "acquiring"
  | provisioning => "provisioning"
  | ready => "ready"
  | active => "active"
  | draining => "draining"
  | cleaning => "cleaning"
  | closed => "closed"
  | cleanupFailed => "cleanup_failed"

def LifecycleStatus.run : LifecycleStatus → RunStatus
  | queued => .queued
  | active => .active
  | verifying => .verifying
  | publishing => .publishing
  | complete => .complete
  | invalid => .invalid
  | failedInfrastructure => .failedInfrastructure
  | cancelled => .cancelled

def LifecycleStatus.shard : LifecycleStatus → ShardStatus
  | queued => .queued
  | active => .active
  | verifying => .verifying
  | publishing => .publishing
  | complete => .complete
  | invalid => .invalid
  | failedInfrastructure => .failedInfrastructure
  | cancelled => .cancelled

def TrialOutcome.trial : TrialOutcome → TrialStatus
  | complete => .complete
  | invalid => .invalid
  | failedInfrastructure => .failedInfrastructure
  | cancelled => .cancelled

inductive ActionStatus
  | reserved | succeeded | failed | ambiguous
  deriving DecidableEq

structure ShardRetryPayload where
  shardId : String
  reason : String
  trialGenerations : Dict String ℕ
  deriving DecidableEq

structure TerminalPayload where
  summaryPath : Option String
  summarySha256 : Option String
  message : Option String
  deriving DecidableEq

structure LifecyclePayload where
  parentId : Option String
  message : Option String
  deriving DecidableEq

structure ManualInterventionResolutionPayload where
  waveIds : List String
  message : Option String
  deriving DecidableEq

structure WaveLifecyclePayload where
  deploymentDigest : String
  provider : String
  shardIds : List String
  estimatedCostMicrousd : ℕ
  deriving DecidableEq

structure ExecutionStartedPayload where
  trialId : String
  shardId : String
  physicalAttempt : ℕ
  waveId : Option String
  estimatedCostMicrousd : ℕ
  deriving DecidableEq

structure ExecutionOutcomePayload where
  trialId : String
  physicalAttempt : ℕ
  category : Option RetryCategory
  spendMicrousd : ℕ
  retryAfterSeconds : Option ℕ
  message : Option String
  deriving DecidableEq

structure ActionReservedPayload where
  actionId : String
  actionKey : String
  actionKind : ActionKind
  targetIds : List String
  deriving DecidableEq

structure ActionOutcomePayload where
  actionId : String
  message : Option String
  remoteId : Option String
  deriving DecidableEq

/-- The outcome that an action event records. -/
inductive ActionOutcome
  | succeeded | failed | ambiguous
  deriving DecidableEq

/-- The outcome that an execution event records. -/
inductive ExecutionOutcome
  | completed | failed | cancelled
  deriving DecidableEq

def ActionOutcome.status : ActionOutcome → ActionStatus
  | succeeded => .succeeded
  | failed => .failed
  | ambiguous => .ambiguous

def ExecutionOutcome.status : ExecutionOutcome → ExecutionStatus
  | completed => .completed
  | failed => .failed
  | cancelled => .cancelled

/-- The kind of an event with its payload. -/
inductive EventBody
  | campaignSubmitted (planDigest : String)
  | cancelRequested (reason : String)
  | shardRetryRequested (payload : ShardRetryPayload)
  | campaignDraining (payload : LifecyclePayload)
  | manualInterventionRequired (payload : LifecyclePayload)
  | manualInterventionResolved (payload : ManualInterventionResolutionPayload)
  | campaignTerminal (status : TerminalStatus) (payload : TerminalPayload)
  | run (status : LifecycleStatus) (payload : LifecyclePayload)
  | shard (status : LifecycleStatus) (payload : LifecyclePayload)
  | trial (status : TrialOutcome) (payload : LifecyclePayload)
  | executionStarted (payload : ExecutionStartedPayload)
  | executionOutcome (outcome : ExecutionOutcome) (payload : ExecutionOutcomePayload)
  | wave (status : WaveStatus) (payload : WaveLifecyclePayload)
  | spendRecorded (subjectType : SubjectType) (amountMicrousd : ℕ)
  | actionReserved (payload : ActionReservedPayload)
  | actionOutcome (outcome : ActionOutcome) (payload : ActionOutcomePayload)
  deriving DecidableEq

/-- An event of a campaign. -/
structure CampaignEvent where
  eventId : String
  subjectId : String
  observedAt : ℕ
  producer : Producer
  body : EventBody
  deriving DecidableEq

/-- The subject type of an event. -/
def CampaignEvent.subjectType (event : CampaignEvent) : SubjectType :=
  match event.body with
  | .run _ _ => .run
  | .shard _ _ => .shard
  | .trial _ _ => .trial
  | .executionStarted _ => .execution
  | .executionOutcome _ _ => .execution
  | .wave _ _ => .wave
  | .spendRecorded subjectType _ => subjectType
  | _ => .campaign

/-! ### The order of the log -/

/-- The order of the log: by time, then by identifier. -/
def Earlier (first second : CampaignEvent) : Prop :=
  first.observedAt < second.observedAt ∨
    (first.observedAt = second.observedAt ∧ first.eventId ≤ second.eventId)

instance : DecidableRel Earlier := fun _ _ ↦ inferInstanceAs (Decidable (_ ∨ _))

/-- Take an event into those read so far; an identifier has one record. -/
def uniqueStep (unique : Dict String CampaignEvent) (event : CampaignEvent) :
    Except CampaignError (Dict String CampaignEvent) :=
  match unique.get? event.eventId with
  | none => .ok (unique.set event.eventId event)
  | some previous =>
    if previous ≠ event then .error (.control "event ID has conflicting records")
    else .ok (unique.set event.eventId event)

/-- The events without repetitions, by identifier. -/
def uniqueEvents (events : List CampaignEvent) : Except CampaignError (Dict String CampaignEvent) :=
  events.foldlM uniqueStep []

/-- The events in the order of the log. -/
def orderedEvents (events : List CampaignEvent) : Except CampaignError (List CampaignEvent) := do
  let unique ← uniqueEvents events
  return unique.values.insertionSort Earlier

namespace Earlier

variable {first second third : CampaignEvent}

instance : Std.Total Earlier where
  total first second := by
    rcases Nat.lt_trichotomy first.observedAt second.observedAt with hlt | heq | hlt
    · exact .inl (.inl hlt)
    · rcases Std.Total.total (r := (· ≤ ·)) first.eventId second.eventId with hle | hle
      · exact .inl (.inr ⟨heq, hle⟩)
      · exact .inr (.inr ⟨heq.symm, hle⟩)
    · exact .inr (.inl hlt)

instance : IsTrans CampaignEvent Earlier where
  trans first second third := by
    rintro (hfirst | ⟨hfirst, hle⟩) (hsecond | ⟨hsecond, hle'⟩)
    · exact .inl (hfirst.trans hsecond)
    · exact .inl (hsecond ▸ hfirst)
    · exact .inl (hfirst ▸ hsecond)
    · exact .inr ⟨hfirst.trans hsecond, hle.trans hle'⟩

theorem eventId_eq (h : Earlier first second) (h' : Earlier second first) :
    first.eventId = second.eventId := by
  rcases h with hlt | ⟨heq, hle⟩
  · rcases h' with hlt' | ⟨heq', -⟩
    · omega
    · omega
  · rcases h' with hlt' | ⟨-, hle'⟩
    · omega
    · exact le_antisymm hle hle'

end Earlier

theorem uniqueStep_eq_ok {unique next : Dict String CampaignEvent} {event : CampaignEvent} :
    uniqueStep unique event = .ok next ↔
      (unique.get? event.eventId = none ∧ next = unique ++ [(event.eventId, event)]) ∨
        (unique.get? event.eventId = some event ∧ next = unique) := by
  unfold uniqueStep
  cases hget : unique.get? event.eventId with
  | none => simp [Dict.set_of_get?_eq_none hget, eq_comm]
  | some previous =>
    by_cases hsame : previous = event
    · subst hsame
      simp [Dict.set_of_get?_eq_some hget, eq_comm]
    · simp [hsame]

/-- What `uniqueEvents` has collected from the events read so far. -/
structure Collected (events : List CampaignEvent) (unique : Dict String CampaignEvent) : Prop where
  keys : ∀ entry ∈ unique, entry.1 = entry.2.eventId
  nodup : unique.keys.Nodup
  mem : ∀ event, event ∈ unique.values ↔ event ∈ events

theorem Collected.step {events : List CampaignEvent} {unique next : Dict String CampaignEvent}
    {event : CampaignEvent} (h : Collected events unique)
    (hstep : uniqueStep unique event = .ok next) : Collected (events ++ [event]) next := by
  rcases uniqueStep_eq_ok.mp hstep with ⟨hget, rfl⟩ | ⟨hget, rfl⟩
  · refine ⟨?_, ?_, ?_⟩
    · intro entry hentry
      rcases List.mem_append.mp hentry with hmem | hmem
      · exact h.keys entry hmem
      · rw [List.mem_singleton.mp hmem]
    · rw [← Dict.set_of_get?_eq_none hget]
      exact Dict.nodup_keys_set h.nodup
    · intro other
      have hmem := h.mem other
      simp only [Dict.values] at hmem
      simp [Dict.values, hmem]
  · refine ⟨h.keys, h.nodup, fun other ↦ ?_⟩
    have hevent : event ∈ events :=
      (h.mem event).mp (List.mem_map.mpr ⟨_, Dict.mem_of_get?_eq_some hget, rfl⟩)
    rw [h.mem, List.mem_append, List.mem_singleton]
    constructor
    · exact .inl
    · rintro (hmem | rfl)
      · exact hmem
      · exact hevent

theorem collected {events : List CampaignEvent} {unique : Dict String CampaignEvent}
    (h : uniqueEvents events = .ok unique) : Collected events unique := by
  induction events using List.reverseRecOn generalizing unique with
  | nil =>
    cases h
    exact ⟨fun _ hentry ↦ absurd hentry List.not_mem_nil, List.nodup_nil, fun _ ↦ Iff.rfl⟩
  | append_singleton events event ih =>
    obtain ⟨middle, hmiddle, hlast⟩ := foldlM_append_ok.mp h
    obtain ⟨next, hnext, hend⟩ := foldlM_cons_ok.mp hlast
    cases hend
    exact (ih hmiddle).step hnext

/-- Some of the events of a log that was read can be read. -/
theorem uniqueEvents_filter {events : List CampaignEvent} {unique : Dict String CampaignEvent}
    (keep : CampaignEvent → Bool) (h : uniqueEvents events = .ok unique) :
    uniqueEvents (events.filter keep) = .ok (unique.filter fun entry ↦ keep entry.2) := by
  induction events using List.reverseRecOn generalizing unique with
  | nil =>
    cases h
    rfl
  | append_singleton events event ih =>
    obtain ⟨middle, hmiddle, hlast⟩ := foldlM_append_ok.mp h
    obtain ⟨next, hnext, hend⟩ := foldlM_cons_ok.mp hlast
    cases hend
    have hfiltered := ih hmiddle
    rw [List.filter_append]
    by_cases hkeep : keep event = true
    · rw [List.filter_cons_of_pos hkeep]
      refine foldlM_append_ok.mpr ⟨_, hfiltered, foldlM_cons_ok.mpr ⟨_, ?_, rfl⟩⟩
      rw [uniqueStep_eq_ok]
      have hnodup : Dict.keys (middle.filter fun entry ↦ keep entry.2) |>.Nodup :=
        (collected hmiddle).nodup.sublist (List.filter_sublist.map Prod.fst)
      rcases uniqueStep_eq_ok.mp hnext with ⟨hget, rfl⟩ | ⟨hget, rfl⟩
      · refine .inl ⟨?_, by simp [hkeep]⟩
        rw [Dict.get?_eq_none_iff] at hget ⊢
        exact fun hmem ↦ hget ((List.filter_sublist.map Prod.fst).subset hmem)
      · refine .inr ⟨?_, rfl⟩
        rw [Dict.get?_eq_some_iff hnodup]
        exact List.mem_filter.mpr ⟨Dict.mem_of_get?_eq_some hget, hkeep⟩
    · rw [List.filter_cons_of_neg hkeep, List.filter_nil, List.append_nil, hfiltered]
      rcases uniqueStep_eq_ok.mp hnext with ⟨-, rfl⟩ | ⟨-, rfl⟩
      · simp [hkeep]
      · rfl

section Ordered

variable {events ordered : List CampaignEvent} {first second : CampaignEvent}

theorem orderedEvents_eq_ok : orderedEvents events = .ok ordered ↔
    ∃ unique, uniqueEvents events = .ok unique ∧
      unique.values.insertionSort Earlier = ordered := by
  unfold orderedEvents
  cases hunique : uniqueEvents events with
  | error error => simp [bind, Except.bind]
  | ok unique => simp [bind, Except.bind, pure, Except.pure]

theorem mem_orderedEvents (h : orderedEvents events = .ok ordered) (event : CampaignEvent) :
    event ∈ ordered ↔ event ∈ events := by
  obtain ⟨unique, hunique, rfl⟩ := orderedEvents_eq_ok.mp h
  rw [List.mem_insertionSort, (collected hunique).mem]

theorem pairwise_orderedEvents (h : orderedEvents events = .ok ordered) :
    ordered.Pairwise Earlier := by
  obtain ⟨unique, -, rfl⟩ := orderedEvents_eq_ok.mp h
  exact List.pairwise_insertionSort Earlier _

theorem nodup_orderedEvents (h : orderedEvents events = .ok ordered) : ordered.Nodup := by
  obtain ⟨unique, hunique, rfl⟩ := orderedEvents_eq_ok.mp h
  have hcollected := collected hunique
  have hkeys : unique.keys = unique.values.map CampaignEvent.eventId := by
    simp only [Dict.keys, Dict.values, List.map_map]
    exact List.map_congr_left hcollected.keys
  have hnodup := hcollected.nodup
  rw [hkeys] at hnodup
  exact (List.perm_insertionSort Earlier _).nodup_iff.mpr hnodup.of_map

/-- An identifier has one event. -/
theorem eq_of_eventId_eq (h : orderedEvents events = .ok ordered) (hfirst : first ∈ ordered)
    (hsecond : second ∈ ordered) (hid : first.eventId = second.eventId) : first = second := by
  obtain ⟨unique, hunique, rfl⟩ := orderedEvents_eq_ok.mp h
  have hcollected := collected hunique
  have hentry {event : CampaignEvent} (hmem : event ∈ unique.values) :
      (event.eventId, event) ∈ unique := by
    obtain ⟨entry, hentry, rfl⟩ := List.mem_map.mp hmem
    rw [← hcollected.keys entry hentry]
    exact hentry
  rw [List.mem_insertionSort] at hfirst hsecond
  have hleft := (Dict.get?_eq_some_iff hcollected.nodup).mpr (hentry hfirst)
  have hright := (Dict.get?_eq_some_iff hcollected.nodup).mpr (hentry hsecond)
  rw [hid, hright] at hleft
  exact (Option.some.inj hleft).symm

/-- The order of some of the events is their order in the log. -/
theorem orderedEvents_filter (keep : CampaignEvent → Bool)
    (h : orderedEvents events = .ok ordered) :
    orderedEvents (events.filter keep) = .ok (ordered.filter keep) := by
  obtain ⟨unique, hunique, rfl⟩ := orderedEvents_eq_ok.mp h
  rw [orderedEvents_eq_ok]
  refine ⟨_, uniqueEvents_filter keep hunique, ?_⟩
  have hvalues : Dict.values (unique.filter fun entry ↦ keep entry.2) =
      unique.values.filter keep := by
    unfold Dict.values
    rw [List.filter_map]
    rfl
  rw [filter_insertionSort, hvalues]

end Ordered

/-! ### The status of the campaign -/

inductive CampaignStatus
  | queued | active | cancelRequested | draining | manualIntervention | completed | partly | failed
  | cancelled
  deriving DecidableEq

/-- The campaign has ended. -/
def CampaignStatus.terminal : CampaignStatus → Bool
  | completed | partly | failed | cancelled => true
  | _ => false

def TerminalStatus.campaign : TerminalStatus → CampaignStatus
  | completed => .completed
  | partly => .partly
  | failed => .failed
  | cancelled => .cancelled

structure ActionProjection where
  actionId : String
  actionKey : String
  actionKind : ActionKind
  targetIds : List String
  status : ActionStatus
  remoteId : Option String := none
  message : Option String := none
  deriving DecidableEq

structure CampaignProjection where
  campaignId : String
  planDigest : String
  status : CampaignStatus
  eventCount : ℕ
  lastObservedAt : ℕ
  actions : Dict String ActionProjection
  deriving DecidableEq

/-- Reserve an action (`_apply_action_event`). -/
def applyReserved (payload : ActionReservedPayload) (actions : Dict String ActionProjection) :
    Except CampaignError (Dict String ActionProjection) :=
  match actions.get? payload.actionId with
  | some _ => .error (.control "action was reserved more than once")
  | none =>
    .ok (actions.set payload.actionId
      { actionId := payload.actionId
        actionKey := payload.actionKey
        actionKind := payload.actionKind
        targetIds := payload.targetIds
        status := .reserved })

/-- Record the outcome of an action (`_apply_action_event`). An ambiguous action may become ambiguous
again, with the same remote resource. -/
def applyOutcome (outcome : ActionOutcome) (payload : ActionOutcomePayload)
    (actions : Dict String ActionProjection) : Except CampaignError (Dict String ActionProjection) :=
  match actions.get? payload.actionId with
  | none => .error (.control "action outcome has no reservation")
  | some action =>
    if action.status ≠ .reserved ∧ action.status ≠ .ambiguous then
      .error (.control "action has multiple outcomes")
    else if action.status = .ambiguous ∧ outcome = .ambiguous then
      if action.remoteId.isSome ∧ payload.remoteId.isSome ∧ action.remoteId ≠ payload.remoteId then
        .error (.control "ambiguous action changed remote identity")
      else
        .ok (actions.set payload.actionId
          { action with
            message := payload.message
            remoteId := payload.remoteId.or action.remoteId })
    else
      .ok (actions.set payload.actionId
        { action with
          status := outcome.status
          message := payload.message
          remoteId := payload.remoteId })

/-- The state of the fold: the status, the status to which a resolved manual intervention returns,
what intervention is required for, and the actions. -/
structure CampaignState where
  status : CampaignStatus
  previous : Option CampaignStatus
  requirements : List String
  actions : Dict String ActionProjection
  deriving DecidableEq

/-- The status to return to after a manual intervention. -/
def manualReturnStatus (event : CampaignEvent) (status : CampaignStatus)
    (previous : Option CampaignStatus) : Option CampaignStatus :=
  match event.body with
  | .manualInterventionRequired _ => if status ≠ .manualIntervention then some status else previous
  | .cancelRequested _ =>
    if status = .manualIntervention ∧ previous ≠ some .draining then some .cancelRequested
    else previous
  | .campaignDraining _ => if status = .manualIntervention then some .draining else previous
  | _ => previous

def updateManualRequirements (event : CampaignEvent) (requirements : List String) : List String :=
  match event.body with
  | .manualInterventionRequired payload =>
    let requirement := match payload.parentId with
      | some parentId => if parentId = "" then event.eventId else parentId
      | none => event.eventId
    if requirement ∈ requirements then requirements else requirements ++ [requirement]
  | .manualInterventionResolved payload => requirements.filter fun id ↦ id ∉ payload.waveIds
  | _ => requirements

/-- Leave a manual intervention. -/
def resolveManualIntervention (status : CampaignStatus) (previous : Option CampaignStatus) :
    Except CampaignError CampaignStatus :=
  if status ≠ .manualIntervention then
    .error (.control "manual intervention can only be resolved while required")
  else
    match previous with
    | some .cancelRequested => .ok .cancelRequested
    | some .draining => .ok .draining
    | _ => .ok .active

/-- Apply a campaign event to the status and the actions (`_apply_event`). -/
def applyCampaignEvent (lock : CampaignLock) (event : CampaignEvent) (status : CampaignStatus)
    (actions : Dict String ActionProjection) (previous : Option CampaignStatus) (remaining : Bool) :
    Except CampaignError (CampaignStatus × Dict String ActionProjection) :=
  if event.subjectType ≠ .campaign ∨ event.subjectId ≠ lock.campaignId then
    .error (.control "campaign event has the wrong subject")
  else
    match event.body with
    | .campaignSubmitted _ => .error (.control "campaign has multiple submission events")
    | .shardRetryRequested _ => .ok (if status = .queued then .active else status, actions)
    | .cancelRequested _ =>
      .ok (if status = .draining ∨ status = .manualIntervention then status else .cancelRequested,
        actions)
    | .campaignDraining _ =>
      .ok (if status = .manualIntervention then .manualIntervention else .draining, actions)
    | .manualInterventionRequired _ => .ok (.manualIntervention, actions)
    | .manualInterventionResolved _ =>
      if remaining then .ok (.manualIntervention, actions)
      else do
        let resolved ← resolveManualIntervention status previous
        return (resolved, actions)
    | .campaignTerminal terminal _ => .ok (terminal.campaign, actions)
    | .actionReserved payload => do
      let actions ← applyReserved payload actions
      return (if status = .queued then .active else status, actions)
    | .actionOutcome outcome payload => do
      let actions ← applyOutcome outcome payload actions
      return (if status = .queued then .active else status, actions)
    -- a spend event of the campaign is read as the outcome of an action
    | _ => .error (.attribute "action_id")

/-- One event of the log (the loop of `project_campaign`). -/
def campaignStep (lock : CampaignLock) (state : CampaignState) (event : CampaignEvent) :
    Except CampaignError CampaignState :=
  if state.status.terminal then
    .error (.control "campaign has events after a terminal transition")
  else if event.subjectType ≠ .campaign then .ok state
  else
    let previous := manualReturnStatus event state.status state.previous
    let requirements := updateManualRequirements event state.requirements
    do
      let (status, actions) ← applyCampaignEvent lock event state.status state.actions previous
        (!requirements.isEmpty)
      let resolved := match event.body with
        | .manualInterventionResolved _ => requirements.isEmpty
        | _ => false
      return ⟨status, if resolved then none else previous, requirements, actions⟩

/-- The event that submits the campaign of a lock. -/
def Submits (lock : CampaignLock) (event : CampaignEvent) : Prop :=
  event.body = .campaignSubmitted lock.planDigest ∧ event.subjectId = lock.campaignId

instance (lock : CampaignLock) (event : CampaignEvent) : Decidable (Submits lock event) :=
  inferInstanceAs (Decidable (_ ∧ _))

/-- The status and the actions of a campaign. -/
def projectCampaign (lock : CampaignLock) (events : List CampaignEvent) :
    Except CampaignError CampaignProjection := do
  let ordered ← orderedEvents events
  match ordered with
  | [] => .error (.control "campaign has no submission event")
  | first :: rest =>
    if ¬ Submits lock first then
      .error (.control "campaign submission event does not match its lock")
    else do
      let state ← rest.foldlM (campaignStep lock) ⟨.queued, none, [], []⟩
      return {
        campaignId := lock.campaignId
        planDigest := lock.planDigest
        status := state.status
        eventCount := ordered.length
        lastObservedAt := (rest.getLastD first).observedAt
        actions := state.actions }

end HarborHF.Campaign
