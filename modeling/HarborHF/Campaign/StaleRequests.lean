import HarborHF.Campaign.LateEvidence
import HarborHF.Campaign.OperatorRequests

/-!
# Requests for executions that are behind

A request for a retry names the number of executions that a trial had. When the trial has more of
them by now and nothing was requested for the newest one, the request is behind. It is still applied:
what was recorded of the trial is forgotten, and the trial is read off its executions again. So a
request that is behind changes nothing if another request has the trial read again anyway, or if the
end that was recorded of the trial is the one its newest execution gives it (`staleRequest_iff`).
-/

set_option autoImplicit false

namespace HarborHF.Campaign

open Relational

/-! ### What a log says of an execution and of a trial -/

namespace CampaignEvent

/-- The event starts the execution. -/
def start? (executionId : String) (event : CampaignEvent) : Option ExecutionStartedPayload :=
  match event.body with
  | .executionStarted payload => if event.subjectId = executionId then some payload else none
  | _ => none

/-- The event reports the outcome of the execution. -/
def outcome? (executionId : String) (event : CampaignEvent) :
    Option (ExecutionOutcome × ExecutionOutcomePayload) :=
  match event.body with
  | .executionOutcome outcome payload =>
    if event.subjectId = executionId then some (outcome, payload) else none
  | _ => none

/-- The event records the end of the trial. -/
def recorded? (trialId : String) (event : CampaignEvent) : Option TrialOutcome :=
  match event.body with
  | .trial outcome _ => if event.subjectId = trialId then some outcome else none
  | _ => none

end CampaignEvent

/-- The end that was recorded last of a trial. -/
def recordedEnd (ordered : List CampaignEvent) (trialId : String) : Option TrialOutcome :=
  (ordered.filterMap (CampaignEvent.recorded? trialId)).getLast?

/-- The end of a trial whose last execution failed; without one the trial is retried. -/
def failureEnd (lock : CampaignLock) (attempt : ℕ) : Option RetryCategory → Option TrialOutcome
  | none => some .failedInfrastructure
  | some category =>
    if category = .agent ∨ category = .benchmark then some .invalid
    else if category.retryable = true ∧
        attempt < lock.recoveryPolicy.maxPhysicalExecutionsPerTrial then none
    else some .failedInfrastructure

/-- The end that its last execution gives a trial, by the outcome that was reported. -/
def reportedEnd (lock : CampaignLock) (attempt : ℕ) :
    Option (ExecutionOutcome × ExecutionOutcomePayload) → Option TrialOutcome
  | none => none
  | some (.completed, _) => some .complete
  | some (.cancelled, _) => some .cancelled
  | some (.failed, payload) => failureEnd lock attempt payload.category

/-- The newest execution that the log has of a trial gives the trial this end. -/
def NewestEnds (lock : CampaignLock) (ordered : List CampaignEvent) (trialId : String)
    (outcome : TrialOutcome) : Prop :=
  ∃ executionId payload, ordered.findSome? (CampaignEvent.start? executionId) = some payload ∧
    payload.trialId = trialId ∧
    (∀ other payload', ordered.findSome? (CampaignEvent.start? other) = some payload' →
      payload'.trialId = trialId → payload'.physicalAttempt ≤ payload.physicalAttempt) ∧
    reportedEnd lock payload.physicalAttempt
      (ordered.findSome? (CampaignEvent.outcome? executionId)) = some outcome

/-- The state of the fold, as the log has it. -/
structure RecoveryState.Logged (ordered : List CampaignEvent) (state : RecoveryState) : Prop where
  absent : ∀ id, state.executions.get? id = none →
    ordered.findSome? (CampaignEvent.start? id) = none ∧
      ordered.findSome? (CampaignEvent.outcome? id) = none
  present : ∀ id execution, state.executions.get? id = some execution →
    (∃ payload, ordered.findSome? (CampaignEvent.start? id) = some payload ∧
      execution.trialId = payload.trialId ∧
      execution.physicalAttempt = payload.physicalAttempt) ∧
    ((ordered.findSome? (CampaignEvent.outcome? id) = none ∧ execution.status = .active) ∨
      ∃ outcome payload,
        ordered.findSome? (CampaignEvent.outcome? id) = some (outcome, payload) ∧
        execution.status = outcome.status ∧ execution.category = payload.category)
  trials : ∀ id trial, state.trials.get? id = some trial →
    trial.status = ((recordedEnd ordered id).map TrialOutcome.trial).getD .planned

section Log

variable {lock : CampaignLock} {ordered : List CampaignEvent} {state next : RecoveryState}
  {event : CampaignEvent}

theorem findSome?_concat {α : Type} (f : CampaignEvent → Option α) :
    (ordered ++ [event]).findSome? f = (ordered.findSome? f).or (f event) := by
  rw [List.findSome?_append]
  cases hfind : f event with
  | none => simp [hfind]
  | some found => simp [hfind]

theorem recordedEnd_concat (trialId : String) : recordedEnd (ordered ++ [event]) trialId =
    (event.recorded? trialId).or (recordedEnd ordered trialId) := by
  unfold recordedEnd
  rw [List.filterMap_append]
  cases hrecorded : event.recorded? trialId with
  | none => simp [hrecorded]
  | some outcome => simp [hrecorded]

/-- An event that says nothing about executions. -/
theorem RecoveryState.Logged.other (h : state.Logged ordered)
    (hexecutions : next.executions = state.executions)
    (hstart : ∀ id, event.start? id = none) (houtcome : ∀ id, event.outcome? id = none)
    (htrials : ∀ id trial, next.trials.get? id = some trial →
      trial.status = ((recordedEnd (ordered ++ [event]) id).map TrialOutcome.trial).getD .planned) :
    next.Logged (ordered ++ [event]) where
  absent id hget := by
    rw [hexecutions] at hget
    simpa only [findSome?_concat, hstart, houtcome, Option.or_none] using h.absent id hget
  present id execution hget := by
    rw [hexecutions] at hget
    simpa only [findSome?_concat, hstart, houtcome, Option.or_none] using h.present id execution hget
  trials := htrials

theorem RecoveryState.Logged.trials_of_eq (h : state.Logged ordered)
    (htrials : next.trials = state.trials) (hrecorded : ∀ id, event.recorded? id = none) :
    ∀ id trial, next.trials.get? id = some trial →
      trial.status =
        ((recordedEnd (ordered ++ [event]) id).map TrialOutcome.trial).getD .planned := by
  intro id trial hget
  rw [recordedEnd_concat, hrecorded, Option.none_or]
  rw [htrials] at hget
  exact h.trials id trial hget

theorem RecoveryState.Logged.step (h : state.Logged ordered)
    (hnext : state.applyEvent event = .ok next) : next.Logged (ordered ++ [event]) := by
  -- what an event says is read off its body
  have hother (hstart : ∀ payload, event.body ≠ .executionStarted payload)
      (houtcome : ∀ outcome payload, event.body ≠ .executionOutcome outcome payload) :
      (∀ id, event.start? id = none) ∧ ∀ id, event.outcome? id = none := by
    refine ⟨fun id ↦ ?_, fun id ↦ ?_⟩
    · unfold CampaignEvent.start?
      split
      · exact absurd ‹_› (hstart _)
      · rfl
    · unfold CampaignEvent.outcome?
      split
      · exact absurd ‹_› (houtcome _ _)
      · rfl
  have hunrecorded (htrial : ∀ outcome payload, event.body ≠ .trial outcome payload) (id : String) :
      event.recorded? id = none := by
    unfold CampaignEvent.recorded?
    split
    · exact absurd ‹_› (htrial _ _)
    · rfl
  have hquiet (hexecutions : next.executions = state.executions)
      (htrials : next.trials = state.trials)
      (hstart : ∀ payload, event.body ≠ .executionStarted payload)
      (houtcome : ∀ outcome payload, event.body ≠ .executionOutcome outcome payload)
      (htrial : ∀ outcome payload, event.body ≠ .trial outcome payload) :
      next.Logged (ordered ++ [event]) :=
    h.other hexecutions (hother hstart houtcome).1 (hother hstart houtcome).2
      (h.trials_of_eq htrials (hunrecorded htrial))
  cases applied_of_applyEvent hnext with
  | resolved payload waves hbody hwaves =>
    exact hquiet rfl rfl (by simp [hbody]) (by simp [hbody]) (by simp [hbody])
  | run status payload run hbody hget =>
    exact hquiet rfl rfl (by simp [hbody]) (by simp [hbody]) (by simp [hbody])
  | shard status payload shard hbody hget =>
    exact hquiet rfl rfl (by simp [hbody]) (by simp [hbody]) (by simp [hbody])
  | wave status payload wave hbody hknown hwave =>
    exact hquiet rfl rfl (by simp [hbody]) (by simp [hbody]) (by simp [hbody])
  | spend subjectType amount hbody =>
    exact hquiet rfl rfl (by simp [hbody]) (by simp [hbody]) (by simp [hbody])
  | unread hsubject hresolution =>
    refine hquiet rfl rfl ?_ ?_ ?_
    · intro payload hbody
      simp [CampaignEvent.subjectType, hbody] at hsubject
    · intro outcome payload hbody
      simp [CampaignEvent.subjectType, hbody] at hsubject
    · intro outcome payload hbody
      simp [CampaignEvent.subjectType, hbody] at hsubject
  | trial outcome payload trial hbody hget =>
    obtain ⟨hstart, houtcome⟩ := hother (by simp [hbody]) (by simp [hbody])
    refine h.other rfl hstart houtcome fun id other hother ↦ ?_
    rw [recordedEnd_concat]
    by_cases hid : id = event.subjectId
    · rw [hid, Dict.get?_set_self] at hother
      cases hother
      simp [CampaignEvent.recorded?, hbody, hid]
    · rw [Dict.get?_set_of_ne hid] at hother
      have hnone : event.recorded? id = none := by
        simp [CampaignEvent.recorded?, hbody, Ne.symm hid]
      rw [hnone, Option.none_or]
      exact h.trials id other hother
  | started payload hbody hknown hnew hnumber =>
    have hstart (id : String) :
        event.start? id = if event.subjectId = id then some payload else none := by
      simp [CampaignEvent.start?, hbody]
    have houtcome (id : String) : event.outcome? id = none := by
      simp [CampaignEvent.outcome?, hbody]
    refine ⟨fun id hget ↦ ?_, fun id execution hget ↦ ?_,
      h.trials_of_eq rfl (hunrecorded (by simp [hbody]))⟩
    · rw [findSome?_concat, findSome?_concat, hstart, houtcome, Option.or_none]
      by_cases hid : id = event.subjectId
      · rw [hid, Dict.get?_set_self] at hget
        cases hget
      · rw [Dict.get?_set_of_ne hid] at hget
        rw [if_neg (Ne.symm hid), Option.or_none]
        exact h.absent id hget
    · rw [findSome?_concat, findSome?_concat, hstart, houtcome, Option.or_none]
      by_cases hid : id = event.subjectId
      · rw [hid, Dict.get?_set_self] at hget
        cases hget
        obtain ⟨hunstarted, hunended⟩ := h.absent _ hnew
        rw [hid, hunstarted, hunended, if_pos rfl, Option.none_or]
        exact ⟨⟨payload, rfl, rfl, rfl⟩, .inl ⟨rfl, rfl⟩⟩
      · rw [Dict.get?_set_of_ne hid] at hget
        rw [if_neg (Ne.symm hid), Option.or_none]
        exact h.present id execution hget
  | passed outcome payload execution hbody hget hended hsentinel =>
    have hstart (id : String) : event.start? id = none := by simp [CampaignEvent.start?, hbody]
    have houtcome (id : String) : event.outcome? id =
        if event.subjectId = id then some (outcome, payload) else none := by
      simp [CampaignEvent.outcome?, hbody]
    -- the execution had ended, so another outcome comes before this one
    obtain ⟨-, ⟨-, hactive⟩ | ⟨earlier, found, hearlier, -⟩⟩ := h.present _ execution hget
    · exact absurd hactive hended
    refine ⟨fun id hnone ↦ ?_, fun id other hother ↦ ?_,
      h.trials_of_eq rfl (hunrecorded (by simp [hbody]))⟩
    · rw [findSome?_concat, findSome?_concat, hstart, houtcome, Option.or_none]
      by_cases hid : event.subjectId = id
      · rw [← hid, hget] at hnone
        cases hnone
      · rw [if_neg hid, Option.or_none]
        exact h.absent id hnone
    · rw [findSome?_concat, findSome?_concat, hstart, houtcome, Option.or_none]
      by_cases hid : event.subjectId = id
      · have hfound := h.present id other hother
        rw [← hid, hearlier] at hfound ⊢
        rwa [Option.some_or]
      · rw [if_neg hid, Option.or_none]
        exact h.present id other hother
  | finished outcome payload execution hbody hget hactive hidentity hcompleted hfailed =>
    have hstart (id : String) : event.start? id = none := by simp [CampaignEvent.start?, hbody]
    have houtcome (id : String) : event.outcome? id =
        if event.subjectId = id then some (outcome, payload) else none := by
      simp [CampaignEvent.outcome?, hbody]
    have hunended : ordered.findSome? (CampaignEvent.outcome? event.subjectId) = none := by
      obtain ⟨-, ⟨hnone, -⟩ | ⟨earlier, found, -, hstatus, -⟩⟩ := h.present _ execution hget
      · exact hnone
      · rw [hactive] at hstatus
        cases earlier <;> cases hstatus
    refine ⟨fun id hnone ↦ ?_, fun id other hother ↦ ?_,
      h.trials_of_eq rfl (hunrecorded (by simp [hbody]))⟩
    · rw [findSome?_concat, findSome?_concat, hstart, houtcome, Option.or_none]
      by_cases hid : id = event.subjectId
      · rw [hid, Dict.get?_set_self] at hnone
        cases hnone
      · rw [Dict.get?_set_of_ne hid] at hnone
        rw [if_neg (Ne.symm hid), Option.or_none]
        exact h.absent id hnone
    · rw [findSome?_concat, findSome?_concat, hstart, houtcome, Option.or_none]
      by_cases hid : id = event.subjectId
      · rw [hid, Dict.get?_set_self] at hother
        cases hother
        rw [hid, hunended, if_pos rfl, Option.none_or]
        exact ⟨(h.present _ execution hget).1, .inr ⟨outcome, payload, rfl, rfl, rfl⟩⟩
      · rw [Dict.get?_set_of_ne hid] at hother
        rw [if_neg (Ne.symm hid), Option.or_none]
        exact h.present id other hother

/-- The fold keeps of a log what it says of its executions and trials. -/
theorem RecoveryState.Logged.run
    (h : ordered.foldlM RecoveryState.applyEvent (initialState lock) = .ok state) :
    state.Logged ordered := by
  induction ordered using List.reverseRecOn generalizing state with
  | nil =>
    cases h
    refine ⟨fun id _ ↦ ⟨rfl, rfl⟩, fun id execution hget ↦ ?_, fun id trial hget ↦ ?_⟩
    · simp [initialState] at hget
    · obtain ⟨shard, -, locked, -, -, rfl⟩ := exists_of_initial_trial hget
      rfl
  | append_singleton rest event ih =>
    obtain ⟨middle, hmiddle, hlast⟩ := foldlM_append_ok.mp h
    obtain ⟨next, hnext, hdone⟩ := foldlM_cons_ok.mp hlast
    cases hdone
    exact (ih hmiddle).step hnext

end Log

/-! ### A trial that is read again -/

/-- The end that its last execution gives a trial. -/
def ExecutionProjection.ending (lock : CampaignLock) (count : ℕ) (execution : ExecutionProjection) :
    Option TrialOutcome :=
  match execution.status with
  | .active => none
  | .completed => some .complete
  | .cancelled => some .cancelled
  | .failed => failureEnd lock count execution.category

/-- The status, the outcome and the retry time of two trials are the same. -/
structure TrialProjection.Agrees (first second : TrialProjection) : Prop where
  status : first.status = second.status
  outcome : first.outcome = second.outcome
  retryNotBefore : first.retryNotBefore = second.retryNotBefore

section Reread

variable [Jitter] {lock : CampaignLock} {trial derived : TrialProjection}
  {latest : ExecutionProjection}

omit [Jitter] in
theorem TrialOutcome.settled_trial (outcome : TrialOutcome) :
    outcome.trial.settled = some outcome := by
  cases outcome <;> rfl

omit [Jitter] in
theorem TrialStatus.eq_of_settled {status : TrialStatus} {outcome : TrialOutcome}
    (h : status.settled = some outcome) : status = outcome.trial := by
  cases status <;> cases h <;> rfl

omit [Jitter] in
theorem TrialProjection.Numbered.any_completed_iff (h : trial.Numbered)
    (hlast : trial.executions.values.getLast? = some latest) :
    (trial.executions.values.any fun execution ↦ execution.status = .completed) = true ↔
      latest.status = .completed := by
  have hcompleted := h.completed
  obtain ⟨front, hsplit⟩ := List.getLast?_eq_some_iff.mp hlast
  rw [hsplit, List.dropLast_concat, List.getLast?_concat] at hcompleted
  rw [hsplit, List.any_append]
  by_cases hstatus : latest.status = .completed
  · simp [hstatus]
  · simpa [hstatus] using hcompleted

theorem settled_failedTrialState {count : ℕ} {status : TrialStatus} {retryAt : Option ℕ}
    (h : failedTrialState lock latest count = .ok (status, retryAt)) :
    status.settled = failureEnd lock count latest.category ∧
      (status.settled.isSome = true → retryAt = none) := by
  unfold failedTrialState at h
  split at h
  · rename_i hcategory
    cases h
    simp [hcategory, failureEnd, TrialStatus.settled]
  · rename_i category hcategory
    rw [hcategory]
    unfold failureEnd
    split_ifs at h with hagent hretryable hexhausted
    · cases h
      simp [hagent, TrialStatus.settled]
    · cases h
      simp [hagent, hretryable, TrialStatus.settled]
    · cases h
      simp [hagent, Nat.not_lt.mpr hexhausted, TrialStatus.settled]
    · obtain ⟨delay, -, hdelay⟩ := bind_eq_ok.mp h
      cases hdelay
      simp [hagent, Nat.not_le.mp hexhausted, Bool.eq_true_of_not_eq_false hretryable,
        TrialStatus.settled]

/-- What a trial with executions is read as. -/
theorem settled_reread (h : trial.Numbered) (hlast : trial.executions.values.getLast? = some latest)
    (hderived : reread lock trial = .ok derived) :
    derived.status.settled = latest.ending lock trial.executions.length ∧
      ∀ outcome, derived.status.settled = some outcome →
        derived.outcome = taskOutcome outcome.trial trial.executions.values ∧
          derived.retryNotBefore = none := by
  have hsorted := byAttempt_of_attempts h.attempts
  unfold byAttempt at hsorted
  have hany := h.any_completed_iff hlast
  have hlength : trial.executions.values.length = trial.executions.length := by
    simp [Dict.values]
  unfold reread deriveTrial at hderived
  dsimp only at hderived
  rw [hsorted, if_neg (by simpa using h.attempts), if_neg (by simpa using h.completed),
    if_neg (by simp [TrialStatus.terminal, TrialStatus.settled]), hlast] at hderived
  dsimp only at hderived
  cases hstatus : latest.status with
  | completed =>
    rw [if_pos (hany.mpr hstatus)] at hderived
    cases hderived
    refine ⟨by simp [ExecutionProjection.ending, hstatus, TrialStatus.settled], ?_⟩
    rintro outcome ⟨⟩
    exact ⟨by simp [taskOutcome, TrialOutcome.trial], rfl⟩
  | active =>
    rw [if_neg (by simp [hany, hstatus]), hstatus] at hderived
    cases hderived
    exact ⟨by simp [ExecutionProjection.ending, hstatus, TrialStatus.settled],
      by simp [TrialStatus.settled]⟩
  | cancelled =>
    rw [if_neg (by simp [hany, hstatus]), hstatus] at hderived
    cases hderived
    refine ⟨by simp [ExecutionProjection.ending, hstatus, TrialStatus.settled], ?_⟩
    rintro outcome ⟨⟩
    exact ⟨rfl, rfl⟩
  | failed =>
    rw [if_neg (by simp [hany, hstatus]), hstatus, hlength] at hderived
    obtain ⟨⟨status, retryAt⟩, hstate, hsame⟩ := bind_eq_ok.mp hderived
    cases hsame
    obtain ⟨hsettled, hretryAt⟩ := settled_failedTrialState hstate
    refine ⟨by simp [ExecutionProjection.ending, hstatus, hsettled], fun outcome houtcome ↦ ?_⟩
    dsimp only at houtcome ⊢
    rw [TrialStatus.eq_of_settled houtcome]
    exact ⟨rfl, hretryAt (by rw [houtcome]; rfl)⟩

/-- A trial of which no end was recorded is read again as it was. -/
theorem reread_of_unrecorded {before : TrialProjection} {executions : List ExecutionProjection}
    (hfirst : before.status = .planned ∧ before.executions = [] ∧ before.retryNotBefore = none ∧
      before.outcome = none) (hnodup : (executions.map ExecutionProjection.executionId).Nodup)
    (h : deriveTrial lock before executions = .ok trial)
    (hlast : trial.executions.values.getLast? = some latest) : reread lock trial = .ok trial := by
  obtain ⟨hnumbered, hvalues⟩ := TrialProjection.Numbered.of_deriveTrial hnodup hfirst.2.1 h
  have hopen : before.status.terminal = false := by
    rw [hfirst.1]
    rfl
  have hsorted := byAttempt_of_attempts hnumbered.attempts
  have hread : trial.executions = executionMap (byAttempt executions) := by
    rw [← hvalues]
    exact hnumbered.map
  obtain ⟨⟨hid, hshard, hattempt⟩, -⟩ :=
    supported_deriveTrial (.inl hfirst.1) (by simp [hfirst.2.1, Dict.values]) h
  have hattempts := hnumbered.attempts
  have hcompleted := hnumbered.completed
  rw [hvalues] at hsorted hattempts hcompleted hlast
  unfold reread
  rw [hvalues, hid, hshard, hattempt, hread]
  unfold deriveTrial at h ⊢
  unfold byAttempt at hsorted hattempts hcompleted hlast ⊢
  dsimp only at h ⊢
  rw [hsorted, if_neg (by simpa using hattempts), if_neg (by simpa using hcompleted),
    if_neg (by simp [TrialStatus.terminal, TrialStatus.settled]), hlast]
  rw [if_neg (by simpa using hattempts), if_neg (by simpa using hcompleted),
    if_neg (by simp [hopen]), hlast] at h
  rw [← h]
  dsimp only
  split
  · rw [hfirst.2.2.1]
  · congr 1

end Reread

/-! ### The newest execution -/

section Newest

variable {lock : CampaignLock} {ordered : List CampaignEvent} {state : RecoveryState}
  {trial : TrialProjection} {latest : ExecutionProjection} {trialId : String}

theorem TrialProjection.Numbered.attempt_le (h : trial.Numbered) {execution : ExecutionProjection}
    (hmem : execution ∈ trial.executions.values) :
    execution.physicalAttempt ≤ trial.executions.values.length := by
  have hattempt := List.mem_map_of_mem (f := ExecutionProjection.physicalAttempt) hmem
  rw [h.attempts, List.mem_range'_1] at hattempt
  omega

theorem TrialProjection.Numbered.attempt_getLast? (h : trial.Numbered)
    (hlast : trial.executions.values.getLast? = some latest) :
    latest.physicalAttempt = trial.executions.values.length := by
  have hattempts := congrArg List.getLast? h.attempts
  rw [List.getLast?_map, hlast, List.getLast?_range'] at hattempts
  have hne : trial.executions.values.length ≠ 0 := by
    intro hzero
    rw [List.length_eq_zero_iff.mp hzero] at hlast
    cases hlast
  rw [if_neg hne] at hattempts
  simp only [Option.map_some, Option.some.injEq] at hattempts
  omega

theorem RecoveryState.Logged.ending_eq (h : state.Logged ordered) {executionId : String}
    (hget : state.executions.get? executionId = some latest) (count : ℕ) :
    latest.ending lock count =
      reportedEnd lock count (ordered.findSome? (CampaignEvent.outcome? executionId)) := by
  unfold ExecutionProjection.ending
  obtain ⟨-, ⟨hnone, hactive⟩ | ⟨outcome, payload, hsome, hstatus, hcategory⟩⟩ :=
    h.present executionId latest hget
  · rw [hnone, hactive]
    rfl
  · rw [hsome, hstatus, hcategory]
    cases outcome <;> rfl

/-- The newest execution in the log is the last one of the trial. -/
theorem newestEnds_iff (lock : CampaignLock) (hlogged : state.Logged ordered) (hnamed : state.Named)
    (hnumbered : trial.Numbered)
    (hvalues : trial.executions.values = byAttempt (executionsOf state.executions trialId))
    (hlast : trial.executions.values.getLast? = some latest) (outcome : TrialOutcome) :
    NewestEnds lock ordered trialId outcome ↔
      latest.ending lock trial.executions.length = some outcome := by
  have hmem (execution : ExecutionProjection) : execution ∈ trial.executions.values ↔
      execution ∈ state.executions.values ∧ execution.trialId = trialId := by
    rw [hvalues, byAttempt, List.mem_insertionSort]
    simp [executionsOf]
  have hlength : trial.executions.values.length = trial.executions.length := by
    simp [Dict.values]
  -- the start of an execution of the trial
  have hstarted {other : String} {payload : ExecutionStartedPayload}
      (hstart : ordered.findSome? (CampaignEvent.start? other) = some payload)
      (hown : payload.trialId = trialId) :
      ∃ execution, state.executions.get? other = some execution ∧
        execution ∈ trial.executions.values ∧
        execution.physicalAttempt = payload.physicalAttempt := by
    cases hget : state.executions.get? other with
    | none =>
      rw [(hlogged.absent other hget).1] at hstart
      cases hstart
    | some execution =>
      obtain ⟨⟨payload', hstart', hid, hattempt⟩, -⟩ := hlogged.present other execution hget
      rw [hstart] at hstart'
      obtain rfl := Option.some.inj hstart'
      exact ⟨execution, rfl, (hmem execution).mpr
        ⟨Dict.mem_values_of_get?_eq_some hget, hid.trans hown⟩, hattempt⟩
  have hlatest := List.mem_of_getLast? hlast
  have hattempt := hnumbered.attempt_getLast? hlast
  obtain ⟨id, hget⟩ := Dict.exists_get?_of_mem_values hnamed.keys ((hmem latest).mp hlatest).1
  obtain ⟨⟨payload, hstart, hid, hnumber⟩, -⟩ := hlogged.present id latest hget
  have hown : payload.trialId = trialId := hid.symm.trans ((hmem latest).mp hlatest).2
  constructor
  · rintro ⟨executionId, newest, hnewest, hnewestId, hmax, hend⟩
    obtain ⟨execution, hexecution, hexecutionMem, hexecutionNumber⟩ := hstarted hnewest hnewestId
    have hle := hmax id payload hstart hown
    have hbound := hnumbered.attempt_le hexecutionMem
    have hnodup :
        (trial.executions.values.map ExecutionProjection.physicalAttempt).Nodup := by
      rw [hnumbered.attempts]
      exact List.nodup_range'
    have hsame : execution = latest :=
      List.inj_on_of_nodup_map hnodup hexecutionMem hlatest (by omega)
    rw [hlogged.ending_eq (hsame ▸ hexecution), ← hend]
    congr 1
    omega
  · intro hend
    refine ⟨id, payload, hstart, hown, fun other payload' hother hotherId ↦ ?_, ?_⟩
    · obtain ⟨execution, -, hexecutionMem, hexecutionNumber⟩ := hstarted hother hotherId
      have hbound := hnumbered.attempt_le hexecutionMem
      omega
    · rw [← hend, hlogged.ending_eq hget]
      congr 1
      omega

end Newest

/-! ### What a request is for -/

section Bound

variable [Jitter] (lock : CampaignLock)

/-- The generations that a request of a log is for. -/
def retryGenerations (ordered : List CampaignEvent) (request : CampaignEvent) :
    Except CampaignError (Dict String ℕ) :=
  match request.body with
  | .shardRetryRequested payload =>
    if payload.trialGenerations.isEmpty then
      legacyRetryGenerations lock ordered >>= fun legacy ↦ getItem legacy request.eventId
    else .ok payload.trialGenerations
  | _ => .ok []

/-- The request is for this generation of the trial. -/
def BoundTo (ordered : List CampaignEvent) (request : CampaignEvent) (trialId : String)
    (generation : ℕ) : Prop :=
  ∃ generations, retryGenerations lock ordered request = .ok generations ∧
    (trialId, generation) ∈ generations

variable {lock} {ordered before after : List CampaignEvent} {request event : CampaignEvent}
  {trials retried : Dict String TrialProjection} {legacy : Dict String (Dict String ℕ)}
  {requestedAt last : Dict (String × ℕ) ℕ}

omit [Jitter] in
/-- The generations in the table are those that its requests are for. -/
theorem isSome_foldlM_requestStep {key : String × ℕ}
    (h : ordered.foldlM (requestStep lock trials legacy) requestedAt = .ok last) :
    (last.get? key).isSome = true ↔ (requestedAt.get? key).isSome = true ∨
      ∃ event ∈ ordered, ∃ payload generations, event.body = .shardRetryRequested payload ∧
        requestGenerations lock trials legacy event payload = .ok generations ∧
        key ∈ generations := by
  induction ordered generalizing requestedAt with
  | nil =>
    cases h
    simp
  | cons event rest ih =>
    obtain ⟨next, hnext, hrest⟩ := foldlM_cons_ok.mp h
    rw [ih hrest]
    rcases requestStep_eq_ok.mp hnext with ⟨hnot, rfl⟩ | ⟨payload, found, hbody, hfound, rfl⟩
    · have hnone (payload : ShardRetryPayload) : event.body ≠ .shardRetryRequested payload := by
        intro hbody
        simp [CampaignEvent.isRetryRequest, hbody] at hnot
      simp [hnone]
    · rw [get?_addRequest]
      by_cases hkey : key ∈ found
      · simp [hkey, hbody, hfound]
      · simp [hkey, hbody, hfound]

/-- Requests are applied by way of the generations they are for. -/
theorem exists_requestedAt (h : applyRetryRequests lock ordered trials = .ok retried) :
    ∃ requestedAt : Dict (String × ℕ) ℕ,
      (trials.mapM fun entry ↦ do
        let trial ← reopenTrial lock requestedAt entry.2 entry.1
        return (entry.1, trial)) = .ok retried ∧
      ∀ trialId generation, (requestedAt.get? (trialId, generation)).isSome = true ↔
        ∃ event ∈ ordered, BoundTo lock ordered event trialId generation := by
  rw [applyRetryRequests_eq] at h
  obtain ⟨legacy, hlegacy, hrest⟩ := bind_eq_ok.mp h
  obtain ⟨requestedAt, hrequested, hreopened⟩ := bind_eq_ok.mp hrest
  -- a request that was taken is for the generations that its payload or the pass gives
  have hgenerations {event : CampaignEvent} {payload : ShardRetryPayload}
      {generations : Dict String ℕ} (hmem : event ∈ ordered)
      (hbody : event.body = .shardRetryRequested payload)
      (hfound : requestGenerations lock trials legacy event payload = .ok generations) :
      retryGenerations lock ordered event = .ok generations := by
    unfold requestGenerations at hfound
    unfold retryGenerations
    simp only [hbody]
    by_cases hempty : payload.trialGenerations.isEmpty = true
    · rw [if_pos hempty] at hfound ⊢
      have hany : ordered.any CampaignEvent.legacyRetry = true := by
        rw [List.any_eq_true]
        exact ⟨event, hmem, by simp only [CampaignEvent.legacyRetry, hbody, hempty]⟩
      rw [if_pos hany] at hlegacy
      rw [hlegacy]
      exact hfound
    · rw [if_neg hempty] at hfound ⊢
      unfold validatedRetryGenerations at hfound
      split at hfound
      · cases hfound
      · split at hfound
        · cases hfound
        · exact hfound
  refine ⟨requestedAt, hreopened, fun trialId generation ↦ ?_⟩
  rw [isSome_foldlM_requestStep hrequested]
  constructor
  · rintro (hnone | ⟨event, hmem, payload, generations, hbody, hfound, hkey⟩)
    · simp at hnone
    · exact ⟨event, hmem, generations, hgenerations hmem hbody hfound, hkey⟩
  · rintro ⟨event, hmem, generations, hbound, hkey⟩
    obtain ⟨earlier, next, -, hstep⟩ := exists_step_of_mem (I := fun _ ↦ True) trivial
      (fun _ _ _ _ _ _ ↦ trivial) hrequested hmem
    rcases requestStep_eq_ok.mp hstep with ⟨hnot, -⟩ | ⟨payload, found, hbody, hfound, -⟩
    · unfold retryGenerations at hbound
      split at hbound
      · rename_i payload hbody
        simp [CampaignEvent.isRetryRequest, hbody] at hnot
      · cases hbound
        cases hkey
    · rw [hgenerations hmem hbody hfound] at hbound
      obtain rfl := Except.ok.inj hbound
      exact .inr ⟨event, hmem, payload, found, hbody, hfound, hkey⟩

/-- The other requests of a log without a request are for what they were for. -/
theorem retryGenerations_remove {payload : ShardRetryPayload}
    (h : applyRetryRequests lock (before ++ request :: after) trials = .ok retried)
    (hbody : request.body = .shardRetryRequested payload) (hmem : event ∈ before ++ after)
    (hid : event.eventId ≠ request.eventId) : retryGenerations lock (before ++ after) event =
      retryGenerations lock (before ++ request :: after) event := by
  unfold retryGenerations
  cases hevent : event.body with
  | shardRetryRequested requested =>
    dsimp only
    by_cases hempty : requested.trialGenerations.isEmpty = true
    · rw [if_pos hempty, if_pos hempty]
      have hany : (before ++ request :: after).any CampaignEvent.legacyRetry = true := by
        rw [List.any_eq_true]
        refine ⟨event, ?_, by simp only [CampaignEvent.legacyRetry, hevent, hempty]⟩
        rcases List.mem_append.mp hmem with hbefore | hafter
        · exact List.mem_append_left _ hbefore
        · exact List.mem_append_right _ (List.mem_cons_of_mem _ hafter)
      rw [applyRetryRequests_eq, if_pos hany] at h
      obtain ⟨legacy, hlegacy, -⟩ := bind_eq_ok.mp h
      obtain ⟨last, hlast, hend⟩ := bind_eq_ok.mp hlegacy
      obtain ⟨middle, hmiddle, hrest⟩ := foldlM_append_ok.mp hlast
      obtain ⟨next, hnext, hafter⟩ := foldlM_cons_ok.mp hrest
      have hsame : SamePass request.eventId next middle := by
        obtain ⟨state, hstate, ⟨hnot, -⟩ | ⟨other, found, -, -, rfl⟩⟩ := legacyStep_eq_ok.mp hnext
        · simp [CampaignEvent.isRetryRequest, hbody] at hnot
        · have hkept : middle.1 = state := by
            simpa [RecoveryState.applyEvent, hbody] using hstate
          exact ⟨hkept.symm, fun other hother ↦ (Dict.get?_set_of_ne hother).symm⟩
      obtain ⟨last', hlast', hsame'⟩ : ∃ last',
          after.foldlM (legacyStep lock) middle = .ok last' ∧
            SamePass request.eventId last last' :=
        foldlM_sim hsame (fun _ _ _ _ _ hpass hstep ↦ hpass.step hstep) hafter
      have hshort : legacyRetryGenerations lock (before ++ after) = .ok last'.2 :=
        bind_eq_ok.mpr ⟨last', foldlM_append_ok.mpr ⟨middle, hmiddle, hlast'⟩, rfl⟩
      cases hend
      have hlong : legacyRetryGenerations lock (before ++ request :: after) = .ok last.2 := hlegacy
      rw [hshort, hlong]
      change getItem last'.2 event.eventId = getItem last.2 event.eventId
      unfold getItem
      rw [hsame'.2 _ hid]
    · rw [if_neg hempty, if_neg hempty]
  | _ => rfl

end Bound

/-! ### A request that is behind -/

section Behind

variable [Jitter] {lock : CampaignLock} {events ordered : List CampaignEvent} {state : RecoveryState}
  {trials : Dict String TrialProjection} {trial again : TrialProjection} {trialId : String}

/-- Reading a trial with executions again leaves it as it was, if its newest execution gives it the
end that was recorded of it. -/
theorem agrees_reread_iff
    (hstate : ordered.foldlM RecoveryState.applyEvent (initialState lock) = .ok state)
    (htrials : deriveTrials lock state.trials state.executions = .ok trials)
    (htrial : trials.get? trialId = some trial) (hne : trial.executions ≠ [])
    (hagain : reread lock trial = .ok again) :
    trial.Agrees again ↔ ∀ outcome, recordedEnd ordered trialId = some outcome →
      NewestEnds lock ordered trialId outcome := by
  have hlogged := RecoveryState.Logged.run hstate
  have hnamed := RecoveryState.Named.run hstate
  have hkept := RecoveryState.Kept.run hstate
  obtain ⟨before, hbefore, hderive⟩ := (Dict.get?_of_mapM htrials).mp htrial
  dsimp only at hderive
  obtain ⟨-, first, hfirst, hsame⟩ := hkept.trials trialId before hbefore
  obtain ⟨shard, -, locked, -, -, rfl⟩ := exists_of_initial_trial hfirst
  have hstatus := hlogged.trials trialId before hbefore
  have hnone : before.executions = [] ∧ before.retryNotBefore = none ∧ before.outcome = none := by
    rw [hsame]
    exact ⟨rfl, rfl, rfl⟩
  obtain ⟨hnumbered, hvalues⟩ :=
    TrialProjection.Numbered.of_deriveTrial (hnamed.nodup trialId) hnone.1 hderive
  obtain ⟨latest, hlast⟩ : ∃ latest, trial.executions.values.getLast? = some latest := by
    rw [← Option.isSome_iff_exists, List.getLast?_isSome]
    simpa [Dict.values] using hne
  have hnewest := newestEnds_iff lock hlogged hnamed hnumbered hvalues hlast
  obtain ⟨hsettled, hfields⟩ := settled_reread hnumbered hlast hagain
  cases hrecorded : recordedEnd ordered trialId with
  | none =>
    rw [hrecorded] at hstatus
    have hread := reread_of_unrecorded ⟨hstatus, hnone⟩ (hnamed.nodup trialId) hderive hlast
    rw [hread] at hagain
    cases hagain
    exact ⟨by simp, fun _ ↦ ⟨rfl, rfl, rfl⟩⟩
  | some outcome =>
    rw [hrecorded] at hstatus
    have hterminal : before.status = outcome.trial := hstatus
    -- the recorded end stands until the trial is read again
    have hrecordedTrial : trial.status = outcome.trial ∧
        trial.outcome = taskOutcome outcome.trial trial.executions.values ∧
        trial.retryNotBefore = none := by
      rw [hvalues]
      unfold deriveTrial at hderive
      unfold byAttempt
      dsimp only at hderive
      split at hderive
      · cases hderive
      split at hderive
      · cases hderive
      rw [if_pos (by rw [hterminal]; exact outcome.terminal_trial)] at hderive
      cases hderive
      exact ⟨hterminal, by rw [hterminal], hnone.2.1⟩
    have hends : NewestEnds lock ordered trialId outcome ↔
        again.status.settled = some outcome := by
      rw [hnewest, hsettled]
    constructor
    · rintro ⟨hsame, -, -⟩ other hother
      cases hother
      rw [hends, ← hsame, hrecordedTrial.1]
      exact outcome.settled_trial
    · intro hall
      have hend := hends.mp (hall outcome rfl)
      obtain ⟨houtcome, hretry⟩ := hfields outcome hend
      refine ⟨?_, ?_, ?_⟩
      · rw [hrecordedTrial.1, TrialStatus.eq_of_settled hend]
      · rw [hrecordedTrial.2.1, houtcome]
      · rw [hrecordedTrial.2.2, hretry]

/-- How a trial is read again: a request that is behind does not set its retry time. -/
theorem reopenTrial_of_lt {requestedAt : Dict (String × ℕ) ℕ}
    (h : reopenTrial lock requestedAt trial trialId = .ok again)
    (hcurrent : requestedAt.get? (trialId, trial.executions.length) = none) :
    (latestRequest requestedAt trialId = none ∧ again = trial) ∨
      ((latestRequest requestedAt trialId).isSome = true ∧ reread lock trial = .ok again) := by
  rcases reopenTrial_eq_ok.mp h with hnone | ⟨generation, derived, hlatest, -, hderived, rfl⟩
  · exact .inl hnone
  · have hne : generation ≠ trial.executions.length := by
      rintro rfl
      rw [latestRequest_eq_some, hcurrent] at hlatest
      cases hlatest.1
    rw [if_neg (fun hboth ↦ hne hboth.1), hlatest]
    exact .inr ⟨rfl, hderived⟩

theorem exists_payload_of_boundTo {request : CampaignEvent} {generation : ℕ}
    (h : BoundTo lock ordered request trialId generation) :
    ∃ payload, request.body = .shardRetryRequested payload := by
  obtain ⟨generations, hgenerations, hmem⟩ := h
  unfold retryGenerations at hgenerations
  split at hgenerations
  · exact ⟨_, ‹_›⟩
  · cases hgenerations
    cases hmem

/-- A request for an execution that is behind has no effect on the trial if and only if another
request is for the trial too, or the end that was recorded of the trial, if any, is the one that its
newest execution gives it. -/
theorem staleRequest_iff {projection without : RecoveryProjection} {request : CampaignEvent}
    {generation : ℕ} (hordered : orderedEvents events = .ok ordered)
    (h : projectRecovery lock events = .ok projection) (hmem : request ∈ events)
    (hbound : BoundTo lock ordered request trialId generation)
    (htrial : projection.trials.get? trialId = some trial)
    (hstale : generation < trial.executions.length)
    (hcurrent : ∀ other ∈ events, ¬ BoundTo lock ordered other trialId trial.executions.length)
    (hwithout : projectRecovery lock (events.filter fun event ↦ event ≠ request) = .ok without) :
    (∃ trial', without.trials.get? trialId = some trial' ∧ trial'.Agrees trial) ↔
      (∃ other ∈ events, other ≠ request ∧
        ∃ generation', BoundTo lock ordered other trialId generation') ∨
      ∀ outcome, recordedEnd ordered trialId = some outcome →
        NewestEnds lock ordered trialId outcome := by
  obtain ⟨payload, hbody⟩ := exists_payload_of_boundTo hbound
  have hevents := mem_orderedEvents hordered
  obtain ⟨before, after, rfl⟩ := List.append_of_mem ((hevents request).mpr hmem)
  have hfiltered : orderedEvents (events.filter fun event ↦ event ≠ request) =
      .ok (before ++ after) := by
    rw [← filter_ne_of_nodup (nodup_orderedEvents hordered)]
    exact orderedEvents_filter _ hordered
  have hskip (state : RecoveryState) : state.applyEvent request = .ok state := by
    simp [RecoveryState.applyEvent, hbody]
  obtain ⟨campaign, state, trials, retried, shards, runs, -, hstate, htrials, hretried, -, -, rfl⟩ :=
    (projectRecovery_eq_ok hordered).mp h
  obtain ⟨campaign', state', trials', retried', shards', runs', -, hstate', htrials', hretried', -, -,
    rfl⟩ := (projectRecovery_eq_ok hfiltered).mp hwithout
  rw [← foldlM_insert_of_skip hskip, hstate] at hstate'
  obtain rfl := Except.ok.inj hstate'
  rw [htrials] at htrials'
  obtain rfl := Except.ok.inj htrials'
  dsimp only at htrial ⊢
  obtain ⟨requestedAt, hreopened, htable⟩ := exists_requestedAt hretried
  obtain ⟨requestedAt', hreopened', htable'⟩ := exists_requestedAt hretried'
  obtain ⟨first, hfirst, hreopen⟩ := (Dict.get?_of_mapM hreopened).mp htrial
  dsimp only at hreopen
  have hnumbered := numbered_deriveTrials hstate htrials (trialId, first)
    (Dict.mem_of_get?_eq_some hfirst)
  have hexecutions := (hnumbered.of_reopenTrial hreopen).2
  rw [hexecutions] at hstale hcurrent
  -- the requests of the log without the request are its other requests
  have hothers (generation' : ℕ) :
      (requestedAt'.get? (trialId, generation')).isSome = true ↔
        ∃ other ∈ events, other ≠ request ∧
          BoundTo lock (before ++ request :: after) other trialId generation' := by
    rw [htable']
    refine exists_congr fun other ↦ ?_
    have hsplit : other ∈ before ++ after ↔ other ∈ events ∧ other ≠ request := by
      rw [mem_orderedEvents hfiltered, List.mem_filter]
      simp
    rw [hsplit, and_assoc]
    refine and_congr_right fun hother ↦ and_congr_right fun hne ↦ ?_
    unfold BoundTo
    rw [retryGenerations_remove hretried hbody (hsplit.mpr ⟨hother, hne⟩) fun hid ↦ hne
      (eq_of_eventId_eq hordered ((hevents other).mpr hother) (by simp) hid)]
  have hnone : requestedAt.get? (trialId, first.executions.length) = none := by
    rw [← Option.not_isSome_iff_eq_none, htable]
    rintro ⟨other, hother, hfor⟩
    exact hcurrent other ((hevents other).mp hother) hfor
  have hnone' : requestedAt'.get? (trialId, first.executions.length) = none := by
    rw [← Option.not_isSome_iff_eq_none, hothers]
    rintro ⟨other, hother, -, hfor⟩
    exact hcurrent other hother hfor
  -- the trial is read again by way of the request
  have hread : reread lock first = .ok trial := by
    rcases reopenTrial_of_lt hreopen hnone with ⟨hlatest, -⟩ | ⟨-, hread⟩
    · have hsome := (htable trialId generation).mpr ⟨request, by simp, hbound⟩
      rw [latestRequest_eq_none.mp hlatest generation] at hsome
      cases hsome
    · exact hread
  obtain ⟨trial', htrial', hreopen'⟩ : ∃ trial', retried'.get? trialId = some trial' ∧
      reopenTrial lock requestedAt' first trialId = .ok trial' := by
    have hkeys : trialId ∈ retried'.keys := by
      rw [Dict.keys_of_mapM hreopened', ← Dict.get?_isSome_iff, hfirst]
      rfl
    obtain ⟨trial', htrial'⟩ := Option.isSome_iff_exists.mp (Dict.get?_isSome_iff.mpr hkeys)
    obtain ⟨first', hfirst', hreopen'⟩ := (Dict.get?_of_mapM hreopened').mp htrial'
    rw [hfirst] at hfirst'
    cases hfirst'
    exact ⟨trial', htrial', hreopen'⟩
  have hagrees : (∃ found, retried'.get? trialId = some found ∧ found.Agrees trial) ↔
      trial'.Agrees trial := by
    rw [htrial']
    simp
  rw [hagrees]
  rcases reopenTrial_of_lt hreopen' hnone' with ⟨hlatest, rfl⟩ | ⟨hlatest, hread'⟩
  · -- no other request is for the trial
    have hno : ¬ ∃ other ∈ events, other ≠ request ∧ ∃ generation',
        BoundTo lock (before ++ request :: after) other trialId generation' := by
      rintro ⟨other, hother, hne, generation', hfor⟩
      have hsome := (hothers generation').mpr ⟨other, hother, hne, hfor⟩
      rw [latestRequest_eq_none.mp hlatest generation'] at hsome
      cases hsome
    rw [or_iff_right hno]
    refine agrees_reread_iff hstate htrials hfirst ?_ hread
    intro hempty
    rw [hempty] at hstale
    simp at hstale
  · -- the trial is read again either way
    rw [hread] at hread'
    cases hread'
    obtain ⟨generation', hgeneration'⟩ := Option.isSome_iff_exists.mp hlatest
    obtain ⟨other, hother, hne, hfor⟩ :=
      (hothers generation').mp (latestRequest_eq_some.mp hgeneration').1
    exact iff_of_true ⟨rfl, rfl, rfl⟩ (.inl ⟨other, hother, hne, generation', hfor⟩)

end Behind

/-! ### A trial that failed twice -/

section Sample

local instance staleJitter : Jitter := ⟨fun _ ↦ 0, zero_lt_byte⟩

/-- An execution that fails in a way that is retried. -/
def failedExecution (attempt observedAt : ℕ) : List CampaignEvent :=
  [⟨"start-" ++ toString attempt, "execution-" ++ toString attempt, observedAt, .waveController,
      .executionStarted ⟨"trial", "shard", attempt, some "wave", 0⟩⟩,
    ⟨"outcome-" ++ toString attempt, "execution-" ++ toString attempt, observedAt + 1,
      .waveController,
      .executionOutcome .failed ⟨"trial", attempt, some .transient, 0, none, none⟩⟩]

/-- The request for a retry of the first execution. -/
def staleRequest : CampaignEvent :=
  ⟨"request", "campaign", 3, .cli, .shardRetryRequested ⟨"shard", "again", [("trial", 1)]⟩⟩

/-- The log of two executions with the request between them. -/
def supersededLog (recorded : List CampaignEvent) : List CampaignEvent :=
  sampleLog (failedExecution 1 1 ++ staleRequest :: failedExecution 2 4 ++ recorded)

/-- The failure of the trial, recorded after its second execution. -/
def recordedFailure : CampaignEvent :=
  ⟨"failure", "trial", 6, .publisher, .trial .failedInfrastructure ⟨some "shard", none⟩⟩

theorem supersededLog_bound (recorded : List CampaignEvent) :
    BoundTo endpointLock (supersededLog recorded) staleRequest "trial" 1 :=
  ⟨[("trial", 1)], rfl, List.mem_singleton.mpr rfl⟩

theorem not_boundTo_of_generations {ordered : List CampaignEvent}
    (h : ∀ other ∈ ordered, retryGenerations endpointLock ordered other = .ok [] ∨
      retryGenerations endpointLock ordered other = .ok [("trial", 1)]) :
    ∀ other ∈ ordered, ¬ BoundTo endpointLock ordered other "trial" 2 := by
  rintro other hother ⟨generations, hgenerations, hmem⟩
  rcases h other hother with hnone | hone
  · rw [hnone] at hgenerations
    cases hgenerations
    cases hmem
  · rw [hone] at hgenerations
    cases hgenerations
    simp at hmem

/-- The request changes nothing where no end was recorded of the trial. -/
theorem staleRequest_iff_unrecorded : ∃ projection without trial,
    projectRecovery endpointLock (supersededLog []) = .ok projection ∧
      projectRecovery endpointLock
        ((supersededLog []).filter fun event ↦ event ≠ staleRequest) = .ok without ∧
      projection.trials.get? "trial" = some trial ∧
      ∃ trial', without.trials.get? "trial" = some trial' ∧ trial'.Agrees trial := by
  obtain ⟨projection, hprojection⟩ := exists_ok_of_toBool
    (show (projectRecovery endpointLock (supersededLog [])).toBool = true by decide +kernel)
  obtain ⟨without, hwithout⟩ := exists_ok_of_toBool (show (projectRecovery endpointLock
    ((supersededLog []).filter fun event ↦ event ≠ staleRequest)).toBool = true by decide +kernel)
  have htrial : ∃ trial, projection.trials.get? "trial" = some trial ∧
      trial.executions.length = 2 := by
    have hlength : ((projectRecovery endpointLock (supersededLog [])).toOption.bind
        fun projection ↦ (projection.trials.get? "trial").map fun trial ↦
          trial.executions.length) = some 2 := by
      decide +kernel
    rw [hprojection] at hlength
    simpa [Except.toOption, Option.map_eq_some_iff] using hlength
  obtain ⟨trial, htrial, hlength⟩ := htrial
  refine ⟨projection, without, trial, hprojection, hwithout, htrial, ?_⟩
  have hordered : orderedEvents (supersededLog []) = .ok (supersededLog []) := by decide +kernel
  refine (staleRequest_iff hordered hprojection (by decide +kernel) (supersededLog_bound []) htrial
    (by omega) ?_ hwithout).mpr (.inr ?_)
  · rw [hlength]
    exact not_boundTo_of_generations (by decide +kernel)
  · rw [show recordedEnd (supersededLog []) "trial" = none by decide +kernel]
    simp

/-- The request undoes the failure that was recorded after the second execution: with it the trial
waits for a retry, and without it the trial has failed. -/
theorem staleRequest_reopens : ∃ projection without trial trial',
    projectRecovery endpointLock (supersededLog [recordedFailure]) = .ok projection ∧
      staleRequest ∈ supersededLog [recordedFailure] ∧
      BoundTo endpointLock (supersededLog [recordedFailure]) staleRequest "trial" 1 ∧
      projection.trials.get? "trial" = some trial ∧ 1 < trial.executions.length ∧
      (∀ other ∈ supersededLog [recordedFailure],
        ¬ BoundTo endpointLock (supersededLog [recordedFailure]) other "trial"
          trial.executions.length) ∧
      projectRecovery endpointLock
        ((supersededLog [recordedFailure]).filter fun event ↦ event ≠ staleRequest) =
          .ok without ∧
      without.trials.get? "trial" = some trial' ∧
      trial.status = .retryWait ∧ trial'.status = .failedInfrastructure := by
  obtain ⟨projection, hprojection⟩ := exists_ok_of_toBool
    (show (projectRecovery endpointLock (supersededLog [recordedFailure])).toBool = true by
      decide +kernel)
  obtain ⟨without, hwithout⟩ := exists_ok_of_toBool (show (projectRecovery endpointLock
    ((supersededLog [recordedFailure]).filter fun event ↦ event ≠ staleRequest)).toBool = true by
      decide +kernel)
  have htrial : ∃ trial, projection.trials.get? "trial" = some trial ∧
      trial.executions.length = 2 ∧ trial.status = .retryWait := by
    have hread : ((projectRecovery endpointLock (supersededLog [recordedFailure])).toOption.bind
        fun projection ↦ (projection.trials.get? "trial").map fun trial ↦
          (trial.executions.length, trial.status)) = some (2, .retryWait) := by
      decide +kernel
    rw [hprojection] at hread
    simpa [Except.toOption, Option.map_eq_some_iff] using hread
  have htrial' : ∃ trial, without.trials.get? "trial" = some trial ∧
      trial.status = .failedInfrastructure := by
    have hread : ((projectRecovery endpointLock ((supersededLog [recordedFailure]).filter
        fun event ↦ event ≠ staleRequest)).toOption.bind fun projection ↦
          (projection.trials.get? "trial").map TrialProjection.status) =
        some .failedInfrastructure := by
      decide +kernel
    rw [hwithout] at hread
    simpa [Except.toOption, Option.map_eq_some_iff] using hread
  obtain ⟨trial, htrial, hlength, hstatus⟩ := htrial
  obtain ⟨trial', htrial', hstatus'⟩ := htrial'
  refine ⟨projection, without, trial, trial', hprojection, by decide +kernel,
    supersededLog_bound _, htrial, by omega, ?_, hwithout, htrial', hstatus, hstatus'⟩
  rw [hlength]
  exact not_boundTo_of_generations (by decide +kernel)

end Sample

end HarborHF.Campaign
