import HarborHF.Campaign.Recovery

/-!
# The projections step by step

What a log must be like for `projectCampaign` and `projectRecovery` to accept it. The status of the
campaign depends on the events of the campaign alone, as long as the others are within it: nothing
comes before the submission or after a terminal event (`exists_projectCampaign_iff`). The recovery
projection is the fold over the log and the derivations from its result (`projectRecovery_eq_ok`).
-/

set_option autoImplicit false

namespace HarborHF.Campaign

open Relational

/-! ### One event -/

namespace RecoveryState

/-- What an event that is accepted does to the state. -/
inductive Applied (state : RecoveryState) (event : CampaignEvent) : RecoveryState → Prop
  | resolved (payload : ManualInterventionResolutionPayload) (waves : Dict String WaveProjection)
      (hbody : event.body = .manualInterventionResolved payload)
      (hwaves : payload.waveIds.foldlM closeRecovered state.waves = .ok waves) :
      Applied state event { state with waves := waves }
  | run (status : LifecycleStatus) (payload : LifecyclePayload) (run : RunProjection)
      (hbody : event.body = .run status payload)
      (hget : state.runs.get? event.subjectId = some run) :
      Applied state event { state with
        runs := state.runs.set event.subjectId { run with observedStatus := some status } }
  | shard (status : LifecycleStatus) (payload : LifecyclePayload) (shard : ShardProjection)
      (hbody : event.body = .shard status payload)
      (hget : state.shards.get? event.subjectId = some shard) :
      Applied state event { state with
        shards := state.shards.set event.subjectId { shard with observedStatus := some status } }
  | trial (outcome : TrialOutcome) (payload : LifecyclePayload) (trial : TrialProjection)
      (hbody : event.body = .trial outcome payload)
      (hget : state.trials.get? event.subjectId = some trial) :
      Applied state event { state with
        trials := state.trials.set event.subjectId { trial with status := outcome.trial } }
  | started (payload : ExecutionStartedPayload) (hbody : event.body = .executionStarted payload)
      (hknown : state.knowsTrial payload.trialId payload.shardId = true)
      (hnew : state.executions.get? event.subjectId = none)
      (hnumber : ∀ execution ∈ state.executions.values, ¬ (execution.trialId = payload.trialId ∧
        execution.physicalAttempt = payload.physicalAttempt)) :
      Applied state event { state with
        executions := state.executions.set event.subjectId
          { executionId := event.subjectId
            trialId := payload.trialId
            shardId := payload.shardId
            waveId := payload.waveId
            physicalAttempt := payload.physicalAttempt
            status := .active
            observedAt := event.observedAt
            estimatedCostMicrousd := payload.estimatedCostMicrousd } }
  | passed (outcome : ExecutionOutcome) (payload : ExecutionOutcomePayload)
      (execution : ExecutionProjection) (hbody : event.body = .executionOutcome outcome payload)
      (hget : state.executions.get? event.subjectId = some execution)
      (hended : execution.status ≠ .active)
      (hsentinel : isReconcilerLostSentinel event.producer outcome payload = true) :
      Applied state event state
  | finished (outcome : ExecutionOutcome) (payload : ExecutionOutcomePayload)
      (execution : ExecutionProjection) (hbody : event.body = .executionOutcome outcome payload)
      (hget : state.executions.get? event.subjectId = some execution)
      (hactive : execution.status = .active)
      (hidentity : payload.trialId = execution.trialId ∧
        payload.physicalAttempt = execution.physicalAttempt)
      (hcompleted : outcome = .completed → payload.category = none)
      (hfailed : outcome = .failed → payload.category.isSome = true) :
      Applied state event { state with
        executions := state.executions.set event.subjectId
          { execution with
            status := outcome.status
            category := payload.category
            observedAt := event.observedAt
            retryAfterSeconds := payload.retryAfterSeconds
            spendMicrousd := payload.spendMicrousd
            message := payload.message }
        spendMicrousd := state.spendMicrousd + payload.spendMicrousd }
  | wave (status : WaveStatus) (payload : WaveLifecyclePayload) (wave : WaveProjection)
      (hbody : event.body = .wave status payload)
      (hknown : ∀ shardId ∈ payload.shardIds, (state.shards.get? shardId).isSome = true)
      (hnext : nextWave event.subjectId event.producer status payload
        (state.waves.get? event.subjectId) = .ok wave) :
      Applied state event { state with waves := state.waves.set event.subjectId wave }
  | spend (subjectType : SubjectType) (amount : ℕ) (hbody : event.body = .spendRecorded subjectType amount) :
      Applied state event { state with spendMicrousd := state.spendMicrousd + amount }
  | unread (hsubject : event.subjectType = .campaign)
      (hresolution : ∀ payload, event.body ≠ .manualInterventionResolved payload) :
      Applied state event state

/-- Every accepted event is of one of these kinds. -/
theorem applied_of_applyEvent {state next : RecoveryState} {event : CampaignEvent}
    (h : state.applyEvent event = .ok next) : Applied state event next := by
  cases hbody : event.body with
  | manualInterventionResolved payload =>
    simp only [applyEvent, hbody] at h
    obtain ⟨waves, hwaves, hnext⟩ := bind_eq_ok.mp h
    cases hnext
    exact .resolved payload waves hbody hwaves
  | run status payload =>
    simp only [applyEvent, hbody, recordRunStatus] at h
    split at h
    · cases h
    · rename_i run hget
      cases h
      exact .run status payload run hbody hget
  | shard status payload =>
    simp only [applyEvent, hbody, recordShardStatus] at h
    split at h
    · cases h
    · rename_i shard hget
      cases h
      exact .shard status payload shard hbody hget
  | trial outcome payload =>
    simp only [applyEvent, hbody, recordTrialStatus] at h
    split at h
    · cases h
    · rename_i trial hget
      cases h
      exact .trial outcome payload trial hbody hget
  | executionStarted payload =>
    simp only [applyEvent, hbody, startExecution] at h
    split_ifs at h with hknown hnew hnumber
    cases h
    exact .started payload hbody (by simpa using hknown) (by simpa using hnew)
      (by simpa using hnumber)
  | executionOutcome outcome payload =>
    simp only [applyEvent, hbody, finishExecution] at h
    split at h
    · cases h
    · rename_i execution hget
      split_ifs at h with hstatus hsentinel hidentity hcompleted hfailed
      · cases h
        exact .passed outcome payload execution hbody hget hstatus hsentinel
      · cases h
        rw [ne_eq, not_not] at hstatus
        rw [not_or, ne_eq, not_not, ne_eq, not_not] at hidentity
        exact .finished outcome payload execution hbody hget hstatus hidentity
          (by simpa using hcompleted) (by simpa [Option.isSome_iff_ne_none] using hfailed)
  | wave status payload =>
    simp only [applyEvent, hbody, recordWaveStatus] at h
    split_ifs at h with hunknown
    obtain ⟨wave, hwave, hnext⟩ := bind_eq_ok.mp h
    cases hnext
    rw [ne_eq, not_not, List.filter_eq_nil_iff] at hunknown
    refine .wave status payload wave hbody (fun shardId hshardId ↦ ?_) hwave
    simpa [Option.isSome_iff_ne_none] using hunknown shardId hshardId
  | spendRecorded subjectType amount =>
    simp only [applyEvent, hbody] at h
    cases h
    exact .spend subjectType amount hbody
  | _ =>
    simp only [applyEvent, hbody] at h
    cases h
    exact .unread (by simp [CampaignEvent.subjectType, hbody]) (by simp [hbody])

end RecoveryState

/-! ### Submission and end -/

namespace CampaignEvent

/-- The event submits the campaign. -/
def isSubmission (event : CampaignEvent) : Bool :=
  match event.body with
  | .campaignSubmitted _ => true
  | _ => false

/-- The event ends the campaign. -/
def isTerminal (event : CampaignEvent) : Bool :=
  match event.body with
  | .campaignTerminal _ _ => true
  | _ => false

/-- The event is about the work of the campaign: an action, or a request to retry shards. -/
def isWork (event : CampaignEvent) : Bool :=
  match event.body with
  | .shardRetryRequested _ | .actionReserved _ | .actionOutcome _ _ => true
  | _ => false

theorem isTerminal_of_isWork (event : CampaignEvent) (h : event.isWork = true) :
    event.isTerminal = false := by
  unfold isWork at h
  unfold isTerminal
  split at h <;> simp_all

variable {event : CampaignEvent}

theorem subjectType_of_isSubmission (h : event.isSubmission = true) :
    event.subjectType = .campaign := by
  unfold isSubmission at h
  split at h
  · simp [subjectType, *]
  · cases h

theorem subjectType_of_isTerminal (h : event.isTerminal = true) :
    event.subjectType = .campaign := by
  unfold isTerminal at h
  split at h
  · simp [subjectType, *]
  · cases h

end CampaignEvent

/-- The events of a kind come after the submission of the campaign and before its end. -/
def WithinCampaign (kind : CampaignEvent → Bool) (log : List CampaignEvent) : Prop :=
  ∀ event ∈ log, kind event = true → ∀ other ∈ log,
    (other.isSubmission = true → Earlier other event) ∧
      (other.isTerminal = true → Earlier event other)

instance (kind : CampaignEvent → Bool) (log : List CampaignEvent) :
    Decidable (WithinCampaign kind log) :=
  inferInstanceAs (Decidable (∀ event ∈ log, _))

/-! ### The status of the campaign -/

section Status

variable {lock : CampaignLock} {skip : CampaignEvent → Bool} {event : CampaignEvent}

theorem requirements_of_isWork (h : event.isWork = true)
    (requirements : List String) : updateManualRequirements event requirements = requirements := by
  unfold CampaignEvent.isWork at h
  unfold updateManualRequirements
  split at h <;> simp_all

/-- What an accepted event makes of the status. -/
inductive Moves (event : CampaignEvent) (status : CampaignStatus) (previous : Option CampaignStatus)
    (remaining : Bool) : CampaignStatus → Prop
  | works (hwork : event.isWork = true) :
    Moves event status previous remaining (if status = .queued then .active else status)
  | cancels (reason : String) (hbody : event.body = .cancelRequested reason) :
    Moves event status previous remaining
      (if status = .draining ∨ status = .manualIntervention then status else .cancelRequested)
  | drains (payload : LifecyclePayload) (hbody : event.body = .campaignDraining payload) :
    Moves event status previous remaining
      (if status = .manualIntervention then .manualIntervention else .draining)
  | requires (payload : LifecyclePayload)
      (hbody : event.body = .manualInterventionRequired payload) :
    Moves event status previous remaining .manualIntervention
  | remains (payload : ManualInterventionResolutionPayload)
      (hbody : event.body = .manualInterventionResolved payload) (hremaining : remaining = true) :
    Moves event status previous remaining .manualIntervention
  | resolves (payload : ManualInterventionResolutionPayload) (next : CampaignStatus)
      (hbody : event.body = .manualInterventionResolved payload) (hremaining : remaining = false)
      (hnext : resolveManualIntervention status previous = .ok next) :
    Moves event status previous remaining next
  | ends (terminal : TerminalStatus) (payload : TerminalPayload)
      (hbody : event.body = .campaignTerminal terminal payload) :
    Moves event status previous remaining terminal.campaign

theorem moves_of_applyCampaignEvent {status next : CampaignStatus}
    {previous : Option CampaignStatus} {remaining : Bool}
    {actions actions' : Dict String ActionProjection}
    (h : applyCampaignEvent lock event status actions previous remaining = .ok (next, actions')) :
    Moves event status previous remaining next := by
  unfold applyCampaignEvent at h
  split at h
  · cases h
  cases hbody : event.body with
  | shardRetryRequested payload =>
    simp only [hbody] at h
    cases h
    exact .works (by simp [CampaignEvent.isWork, hbody])
  | cancelRequested reason =>
    simp only [hbody] at h
    cases h
    exact .cancels reason hbody
  | campaignDraining payload =>
    simp only [hbody] at h
    cases h
    exact .drains payload hbody
  | manualInterventionRequired payload =>
    simp only [hbody] at h
    cases h
    exact .requires payload hbody
  | manualInterventionResolved payload =>
    simp only [hbody] at h
    split at h
    next hremaining =>
      cases h
      exact .remains payload hbody hremaining
    next hremaining =>
      obtain ⟨resolved, hresolved, hsame⟩ := bind_eq_ok.mp h
      cases hsame
      exact .resolves payload _ hbody (by simpa using hremaining) hresolved
  | campaignTerminal terminal payload =>
    simp only [hbody] at h
    cases h
    exact .ends terminal payload hbody
  | actionReserved payload =>
    simp only [hbody] at h
    obtain ⟨reserved, -, hsame⟩ := bind_eq_ok.mp h
    cases hsame
    exact .works (by simp [CampaignEvent.isWork, hbody])
  | actionOutcome outcome payload =>
    simp only [hbody] at h
    obtain ⟨recorded, -, hsame⟩ := bind_eq_ok.mp h
    cases hsame
    exact .works (by simp [CampaignEvent.isWork, hbody])
  | _ => simp [hbody] at h

/-- The campaign ends with a terminal event. -/
theorem campaignStep_terminal {state next : CampaignState}
    (h : campaignStep lock state event = .ok next) :
    state.status.terminal = false ∧ (next.status.terminal = true ↔ event.isTerminal = true) := by
  unfold campaignStep at h
  by_cases hterminal : state.status.terminal = true
  · rw [if_pos hterminal] at h
    cases h
  rw [if_neg hterminal] at h
  have hfalse : state.status.terminal = false := by simpa using hterminal
  refine ⟨hfalse, ?_⟩
  by_cases hsubject : event.subjectType ≠ .campaign
  · rw [if_pos hsubject] at h
    cases h
    have hnot : event.isTerminal = false := by
      unfold CampaignEvent.subjectType at hsubject
      unfold CampaignEvent.isTerminal
      cases hbody : event.body <;> simp_all
    simp [hfalse, hnot]
  rw [if_neg hsubject] at h
  obtain ⟨⟨status, actions⟩, happly, hnext⟩ := bind_eq_ok.mp h
  cases hnext
  cases moves_of_applyCampaignEvent happly with
  | works hwork =>
    rw [event.isTerminal_of_isWork hwork]
    split
    · simp [CampaignStatus.terminal]
    · simp [hfalse]
  | cancels reason hbody =>
    simp only [CampaignEvent.isTerminal, hbody]
    split
    · simp [hfalse]
    · simp [CampaignStatus.terminal]
  | drains payload hbody =>
    split <;> simp [CampaignEvent.isTerminal, hbody, CampaignStatus.terminal]
  | requires payload hbody => simp [CampaignEvent.isTerminal, hbody, CampaignStatus.terminal]
  | remains payload hbody => simp [CampaignEvent.isTerminal, hbody, CampaignStatus.terminal]
  | resolves payload next hbody hremaining hnext =>
    unfold resolveManualIntervention at hnext
    split at hnext
    · cases hnext
    · split at hnext <;> cases hnext <;>
        simp [CampaignEvent.isTerminal, hbody, CampaignStatus.terminal]
  | ends terminal payload hbody =>
    cases terminal <;>
      simp [CampaignEvent.isTerminal, hbody, TerminalStatus.campaign, CampaignStatus.terminal]

/-- A campaign that has not ended has read no terminal event. -/
theorem isTerminal_eq_false {state last : CampaignState} {events : List CampaignEvent}
    (h : events.foldlM (campaignStep lock) state = .ok last) (hlast : last.status.terminal = false) :
    ∀ event ∈ events, event.isTerminal = false := by
  induction events using List.reverseRecOn generalizing last with
  | nil => simp
  | append_singleton events event ih =>
    obtain ⟨middle, hmiddle, hrest⟩ := foldlM_append_ok.mp h
    obtain ⟨next, hnext, hend⟩ := foldlM_cons_ok.mp hrest
    cases hend
    obtain ⟨hbefore, hiff⟩ := campaignStep_terminal hnext
    intro other hother
    rcases List.mem_append.mp hother with hmem | hmem
    · exact ih hmiddle hbefore other hmem
    · obtain rfl := List.mem_singleton.mp hmem
      rw [hlast] at hiff
      simpa using hiff

theorem isTerminal_eq_false_of_split {state last : CampaignState}
    {before after : List CampaignEvent}
    (h : (before ++ event :: after).foldlM (campaignStep lock) state = .ok last) :
    ∀ other ∈ before, other.isTerminal = false := by
  obtain ⟨middle, hmiddle, hrest⟩ := foldlM_append_ok.mp h
  obtain ⟨next, hnext, -⟩ := foldlM_cons_ok.mp hrest
  exact isTerminal_eq_false hmiddle (campaignStep_terminal hnext).1

/-- Events of other subjects do not matter to the status of a campaign that has not ended. -/
theorem foldlM_campaignStep_filter {events : List CampaignEvent} {state : CampaignState}
    (hskip : ∀ event, skip event = true → event.subjectType ≠ .campaign)
    (hstate : state.status.terminal = false)
    (hplace : ∀ before event after, events = before ++ event :: after →
      skip event = true → ∀ other ∈ before, other.isTerminal = false) :
    events.foldlM (campaignStep lock) state =
      (events.filter fun event ↦ !skip event).foldlM (campaignStep lock) state := by
  induction events generalizing state with
  | nil => rfl
  | cons event rest ih =>
    have hrest : ∀ before other after, rest = before ++ other :: after →
        skip other = true → ∀ earlier ∈ before, earlier.isTerminal = false := by
      intro before other after heq hskipped earlier hearlier
      exact hplace (event :: before) other after (by simp [heq]) hskipped earlier
        (List.mem_cons_of_mem event hearlier)
    by_cases hskipped : skip event = true
    · have hskip : campaignStep lock state event = .ok state := by
        unfold campaignStep
        rw [if_neg (by simp [hstate]), if_pos (hskip event hskipped)]
      rw [List.filter_cons_of_neg (by simp [hskipped]), List.foldlM_cons, hskip]
      exact ih hstate hrest
    · rw [List.filter_cons_of_pos (by simpa using hskipped), List.foldlM_cons, List.foldlM_cons]
      cases hnext : campaignStep lock state event with
      | error error => rfl
      | ok next =>
        by_cases hterminal : event.isTerminal = true
        · -- the rest of the log holds no event that is skipped
          have hnone : rest.filter (fun other ↦ !skip other) = rest := by
            rw [List.filter_eq_self]
            intro other hother
            obtain ⟨before, after, heq⟩ := List.append_of_mem hother
            by_contra hother
            have hfalse := hplace (event :: before) other after (by simp [heq])
              (by simpa using hother) event List.mem_cons_self
            rw [hterminal] at hfalse
            cases hfalse
          rw [hnone]
        · refine ih ?_ hrest
          have hiff := (campaignStep_terminal hnext).2
          simpa [hterminal] using hiff

/-- The events behind the submission submit nothing. -/
theorem isSubmission_eq_false {state last : CampaignState} {events : List CampaignEvent}
    (h : events.foldlM (campaignStep lock) state = .ok last) :
    ∀ event ∈ events, event.isSubmission = false := by
  intro event hevent
  obtain ⟨before, next, -, hstep⟩ := exists_step_of_mem (I := fun _ ↦ True) trivial
    (fun _ _ _ _ _ _ ↦ trivial) h hevent
  unfold CampaignEvent.isSubmission
  split
  · rename_i digest hbody
    unfold campaignStep at hstep
    split at hstep
    · cases hstep
    · rw [if_neg (by simp [CampaignEvent.subjectType, hbody])] at hstep
      obtain ⟨applied, happly, -⟩ := bind_eq_ok.mp hstep
      simp only [applyCampaignEvent, hbody] at happly
      split at happly <;> cases happly
  · rfl

theorem projectCampaign_eq_ok {events ordered : List CampaignEvent} {campaign : CampaignProjection}
    (hordered : orderedEvents events = .ok ordered) :
    projectCampaign lock events = .ok campaign ↔ ∃ first rest state,
      ordered = first :: rest ∧ Submits lock first ∧
        rest.foldlM (campaignStep lock) ⟨.queued, none, [], []⟩ = .ok state ∧
        campaign =
          { campaignId := lock.campaignId
            planDigest := lock.planDigest
            status := state.status
            eventCount := ordered.length
            lastObservedAt := (rest.getLastD first).observedAt
            actions := state.actions } := by
  unfold projectCampaign
  rw [hordered]
  cases ordered with
  | nil => simp [bind, Except.bind]
  | cons first rest =>
    by_cases hsubmits : Submits lock first
    · simp only [bind, Except.bind, hsubmits, not_true_eq_false, if_false]
      cases hfold : rest.foldlM (campaignStep lock) ⟨.queued, none, [], []⟩ with
      | error error => simp [hfold]
      | ok state =>
        simp only [pure, Except.pure, Except.ok.injEq]
        constructor
        · intro heq
          exact ⟨first, rest, state, rfl, hsubmits, hfold, heq.symm⟩
        · rintro ⟨other, others, last, heq, -, hlast, rfl⟩
          obtain ⟨rfl, rfl⟩ := List.cons.inj heq
          rw [hfold] at hlast
          obtain rfl := Except.ok.inj hlast
          rfl
    · simp only [bind, Except.bind, hsubmits, not_false_eq_true, if_true, reduceCtorEq, false_iff]
      rintro ⟨other, others, state, heq, hother, -⟩
      obtain ⟨rfl, -⟩ := List.cons.inj heq
      exact hsubmits hother

theorem Submits.isSubmission (h : Submits lock event) : event.isSubmission = true := by
  simp [CampaignEvent.isSubmission, h.1]

/-- A log with events of other subjects has a status if these are within the campaign. -/
theorem exists_projectCampaign_iff {log ordered : List CampaignEvent} {others : CampaignProjection}
    (hskip : ∀ event, skip event = true → event.subjectType ≠ .campaign) (hordered : orderedEvents log = .ok ordered)
    (hothers : projectCampaign lock (log.filter fun event ↦ !skip event) = .ok others) :
    (∃ campaign, projectCampaign lock log = .ok campaign) ↔ WithinCampaign skip log := by
  have hsorted := pairwise_orderedEvents hordered
  have hmem := mem_orderedEvents hordered
  obtain ⟨submission, rest, state, hrest, hsubmits, hstate, -⟩ :=
    (projectCampaign_eq_ok (orderedEvents_filter _ hordered)).mp hothers
  have hsubmission : submission ∈ ordered ∧ skip submission = false := by
    have hfirst : submission ∈ ordered.filter fun event ↦ !skip event := by
      rw [hrest]
      exact List.mem_cons_self
    simpa using List.mem_filter.mp hfirst
  constructor
  · rintro ⟨campaign, hcampaign⟩ event hevent hskipped other hother
    obtain ⟨first, behind, last, rfl, hfirst, hlast, -⟩ :=
      (projectCampaign_eq_ok hordered).mp hcampaign
    rw [← hmem] at hevent hother
    have hevent' : event ∈ behind := by
      rcases List.mem_cons.mp hevent with rfl | hbehind
      · exact absurd (CampaignEvent.subjectType_of_isSubmission hfirst.isSubmission)
          (hskip event hskipped)
      · exact hbehind
    constructor
    · intro hsubmit
      rcases List.mem_cons.mp hother with rfl | hbehind
      · exact (List.pairwise_cons.mp hsorted).1 event hevent'
      · rw [isSubmission_eq_false hlast other hbehind] at hsubmit
        cases hsubmit
    · intro hterminal
      obtain ⟨before, after, rfl⟩ := List.append_of_mem hevent'
      have hearlier := isTerminal_eq_false_of_split hlast
      rw [← List.cons_append] at hother hsorted
      rcases List.mem_append.mp hother with hbefore | hafter
      · rcases List.mem_cons.mp hbefore with rfl | hbefore
        · simp [CampaignEvent.isTerminal, hfirst.1] at hterminal
        · rw [hearlier other hbefore] at hterminal
          cases hterminal
      · rcases List.mem_cons.mp hafter with rfl | hafter
        · exact absurd (CampaignEvent.subjectType_of_isTerminal hterminal) (hskip other hskipped)
        · exact (List.pairwise_cons.mp (List.pairwise_append.mp hsorted).2.1).1 other hafter
  · intro hwithin
    -- events on both sides of each other have one identifier
    have hplace {first second : CampaignEvent} (hfirst : first ∈ ordered)
        (hsecond : second ∈ ordered) (hfirst' : skip first = true)
        (hsecond' : skip second = false) (hbefore : Earlier first second) :
        ¬ Earlier second first := by
      intro hafter
      have heq := eq_of_eventId_eq hordered hfirst hsecond (hbefore.eventId_eq hafter)
      rw [heq, hsecond'] at hfirst'
      cases hfirst'
    obtain ⟨behind, rfl⟩ : ∃ behind, ordered = submission :: behind := by
      cases ordered with
      | nil => cases hsubmission.1
      | cons first behind =>
        by_cases hskipped : skip first = true
        · have hlate := (hwithin first ((hmem first).mp List.mem_cons_self) hskipped submission
            ((hmem submission).mp hsubmission.1)).1 hsubmits.isSubmission
          rcases List.mem_cons.mp hsubmission.1 with rfl | hbehind
          · rw [hsubmission.2] at hskipped
            cases hskipped
          · exact absurd hlate (hplace List.mem_cons_self hsubmission.1 hskipped hsubmission.2
              ((List.pairwise_cons.mp hsorted).1 submission hbehind))
        · rw [List.filter_cons_of_pos (by simpa using hskipped)] at hrest
          obtain ⟨rfl, -⟩ := List.cons.inj hrest
          exact ⟨behind, rfl⟩
    rw [List.filter_cons_of_pos (by simp [hsubmission.2])] at hrest
    obtain ⟨-, rfl⟩ := List.cons.inj hrest
    refine ⟨_, (projectCampaign_eq_ok hordered).mpr ⟨submission, behind, state, rfl, hsubmits, ?_,
      rfl⟩⟩
    rw [foldlM_campaignStep_filter hskip rfl, hstate]
    intro before event after heq hskipped other hother
    by_contra hterminal
    have hmem' {other : CampaignEvent} (h : other ∈ behind) : other ∈ submission :: behind :=
      List.mem_cons_of_mem submission h
    have hevent : event ∈ behind := by
      rw [heq]
      simp
    have hbefore : other ∈ behind := by
      rw [heq]
      exact List.mem_append_left _ hother
    have hother' : skip other = false := by
      by_contra hskipped'
      exact hskip other (by simpa using hskipped')
        (CampaignEvent.subjectType_of_isTerminal (by simpa using hterminal))
    have hearly := (hwithin event ((hmem event).mp (hmem' hevent)) hskipped other
      ((hmem other).mp (hmem' hbefore))).2 (by simpa using hterminal)
    refine hplace (hmem' hevent) (hmem' hbefore) hskipped hother' hearly ?_
    rw [heq] at hsorted
    exact (List.pairwise_append.mp (List.pairwise_cons.mp hsorted).2).2.2 other hother event
      List.mem_cons_self

end Status

/-! ### The recovery projection -/

section Recovery

variable [Jitter] {lock : CampaignLock} {events ordered : List CampaignEvent}

theorem applyRetryRequests_eq (trials : Dict String TrialProjection) :
    applyRetryRequests lock ordered trials =
      (if ordered.any CampaignEvent.legacyRetry then legacyRetryGenerations lock ordered
        else .ok []) >>= fun legacy ↦
      ordered.foldlM (requestStep lock trials legacy) [] >>= fun requestedAt ↦
      trials.mapM fun entry ↦ do
        let trial ← reopenTrial lock requestedAt entry.2 entry.1
        return (entry.1, trial) := by
  unfold applyRetryRequests
  split <;> rfl

/-- The forward pass over the requests applies the events. -/
theorem applyEvent_of_legacyStep {progress next : RecoveryState × Dict String (Dict String ℕ)}
    {event : CampaignEvent} (h : legacyStep lock progress event = .ok next) :
    progress.1.applyEvent event = .ok next.1 := by
  have hend {generations : Dict String (Dict String ℕ)}
      (h : (progress.1.applyEvent event >>= fun state ↦ pure (state, generations)) =
        Except.ok next) : progress.1.applyEvent event = .ok next.1 := by
    obtain ⟨state, hstate, hnext⟩ := bind_eq_ok.mp h
    cases hnext
    exact hstate
  unfold legacyStep at h
  cases hbody : event.body with
  | shardRetryRequested payload =>
    simp only [hbody] at h
    obtain ⟨found, -, h⟩ := bind_eq_ok.mp h
    exact hend h
  | _ =>
    simp only [hbody] at h
    exact hend h

/-- The steps of the projection. -/
theorem projectRecovery_eq_ok {projection : RecoveryProjection}
    (hordered : orderedEvents events = .ok ordered) : projectRecovery lock events = .ok projection ↔
      ∃ campaign state trials retried shards runs, projectCampaign lock events = .ok campaign ∧
        ordered.foldlM RecoveryState.applyEvent (initialState lock) = .ok state ∧
        deriveTrials lock state.trials state.executions = .ok trials ∧
        applyRetryRequests lock ordered trials = .ok retried ∧
        deriveShards state.shards retried = .ok shards ∧ deriveRuns state.runs shards = .ok runs ∧
        projection =
          { campaign := { campaign with status := observedStatus campaign.status state }
            runs := runs
            shards := shards
            trials := retried
            executions := state.executions
            waves := state.waves
            spendMicrousd := state.spendMicrousd
            counts := projectionCounts retried
            cancelRequestedAt := cancelRequestedAt ordered
            terminalDecision := terminalDecision lock
              { campaign with status := observedStatus campaign.status state } runs retried
              state.waves (projectionCounts retried) } := by
  constructor
  · intro h
    unfold projectRecovery at h
    obtain ⟨campaign, hcampaign, h⟩ := bind_eq_ok.mp h
    obtain ⟨events', hevents, h⟩ := bind_eq_ok.mp h
    rw [hordered] at hevents
    obtain rfl := Except.ok.inj hevents
    obtain ⟨state, hstate, h⟩ := bind_eq_ok.mp h
    obtain ⟨trials, htrials, h⟩ := bind_eq_ok.mp h
    obtain ⟨retried, hretried, h⟩ := bind_eq_ok.mp h
    obtain ⟨shards, hshards, h⟩ := bind_eq_ok.mp h
    obtain ⟨runs, hruns, h⟩ := bind_eq_ok.mp h
    exact ⟨campaign, state, trials, retried, shards, runs, hcampaign, hstate, htrials, hretried,
      hshards, hruns, (Except.ok.inj h).symm⟩
  · rintro ⟨campaign, state, trials, retried, shards, runs, hcampaign, hstate, htrials, hretried,
      hshards, hruns, rfl⟩
    exact bind_eq_ok.mpr ⟨campaign, hcampaign, bind_eq_ok.mpr ⟨ordered, hordered,
      bind_eq_ok.mpr ⟨state, hstate, bind_eq_ok.mpr ⟨trials, htrials, bind_eq_ok.mpr ⟨retried,
        hretried, bind_eq_ok.mpr ⟨shards, hshards, bind_eq_ok.mpr ⟨runs, hruns, rfl⟩⟩⟩⟩⟩⟩⟩

theorem exists_orderedEvents {projection : RecoveryProjection}
    (h : projectRecovery lock events = .ok projection) :
    ∃ ordered, orderedEvents events = .ok ordered := by
  obtain ⟨campaign, -, h⟩ := bind_eq_ok.mp h
  obtain ⟨ordered, hordered, -⟩ := bind_eq_ok.mp h
  exact ⟨ordered, hordered⟩

end Recovery

/-! ### A campaign of one trial -/

/-- A campaign of one trial on an inference endpoint. -/
def endpointLock : CampaignLock :=
  { campaignId := "campaign"
    planDigest := "plan"
    artifactPrefix := "campaigns/campaign"
    maxShardsPerWave := 1
    recoveryPolicy := {}
    controllerPolicy := none
    plannedCampaignDurationSeconds := none
    initialWaves := []
    runs := [
      { cellDigest := "cell"
        deploymentDigest := "deployment"
        model := "model"
        deployment := "endpoint"
        agent := "agent"
        provider := none
        maxConcurrentRequests := none
        spendCapMicrousd := none
        estimatedWaveCostMicrousd := some 100
        runId := "run"
        shards := [⟨"shard", "shard-digest", [⟨"trial", "trial-digest", "task", "task-digest", 1⟩]⟩] }] }

/-- The campaign with a second trial in its shard. -/
def pairLock : CampaignLock :=
  { endpointLock with
    runs := endpointLock.runs.map fun run ↦
      { run with
        shards := [⟨"shard", "shard-digest", [⟨"trial", "trial-digest", "task", "task-digest", 1⟩,
          ⟨"skipped", "skipped-digest", "other-task", "other-digest", 1⟩]⟩] } }

/-- A log of events after the submission. -/
def sampleLog (events : List CampaignEvent) : List CampaignEvent :=
  ⟨"submission", "campaign", 0, .cli, .campaignSubmitted "plan"⟩ :: events

theorem exists_ok_of_toBool {α ε : Type} {result : Except ε α} (h : result.toBool = true) :
    ∃ value, result = .ok value := by
  cases result with
  | error error => cases h
  | ok value => exact ⟨value, rfl⟩

end HarborHF.Campaign
