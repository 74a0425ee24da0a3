import HarborHF.Campaign.Projection

/-!
# Late evidence of an execution

When the Job of a wave ends without evidence of an execution, the reconciler records the execution as
lost. The evidence may still arrive, with the worker's time of the outcome. The fold over the log
passes over the reconciler's record when the execution has ended before, so that the worker's outcome
stands.

It does so in one order only. A record of the loss that sorts before the worker's outcome ends the
execution, and the outcome is then refused as a second one (`lateEvidence_iff`).
-/

set_option autoImplicit false

namespace HarborHF.Campaign

open Relational

/-! ### The events of an execution -/

namespace CampaignEvent

/-- The event is the reconciler's record that an execution was lost. -/
def recordsLoss (executionId : String) (event : CampaignEvent) : Prop :=
  event.subjectId = executionId ∧ ∃ payload, event.body = .executionOutcome .failed payload ∧
    RecoveryState.isReconcilerLostSentinel event.producer .failed payload = true

/-- The event is the worker's outcome of an execution. -/
def reports (executionId : String) (outcome : ExecutionOutcome) (payload : ExecutionOutcomePayload)
    (event : CampaignEvent) : Prop :=
  event.subjectId = executionId ∧ event.producer = .waveController ∧
    event.body = .executionOutcome outcome payload

variable {executionId : String} {event : CampaignEvent} {outcome : ExecutionOutcome}
  {payload : ExecutionOutcomePayload}

theorem recordsLoss.producer_eq (h : event.recordsLoss executionId) :
    event.producer = .reconciler := by
  obtain ⟨-, payload, -, hsentinel⟩ := h
  simp only [RecoveryState.isReconcilerLostSentinel, Bool.and_eq_true, decide_eq_true_eq] at hsentinel
  exact hsentinel.1.1.1

theorem recordsLoss.subjectType_ne (h : event.recordsLoss executionId) :
    event.subjectType ≠ .campaign := by
  obtain ⟨-, payload, hbody, -⟩ := h
  simp [subjectType, hbody]

end CampaignEvent

namespace RecoveryState

/-- The execution has ended. -/
def Ended (executionId : String) (state : RecoveryState) : Prop :=
  ∃ execution, state.executions.get? executionId = some execution ∧ execution.status ≠ .active

/-- The execution has ended with an outcome of the worker. -/
def EndedWith (executionId : String) (outcome : ExecutionOutcome)
    (payload : ExecutionOutcomePayload) (state : RecoveryState) : Prop :=
  ∃ execution, state.executions.get? executionId = some execution ∧
    execution.status = outcome.status ∧ execution.category = payload.category ∧
    execution.message = payload.message ∧ execution.spendMicrousd = payload.spendMicrousd

variable {executionId : String} {state next : RecoveryState} {event : CampaignEvent}
  {outcome : ExecutionOutcome} {payload : ExecutionOutcomePayload}

theorem EndedWith.ended (h : state.EndedWith executionId outcome payload) :
    state.Ended executionId := by
  obtain ⟨execution, hget, hstatus, -⟩ := h
  refine ⟨execution, hget, ?_⟩
  rw [hstatus]
  cases outcome <;> simp [ExecutionOutcome.status]

/-- An execution that has ended stays as it is. -/
theorem Ended.executions_eq (hended : state.Ended executionId)
    (h : state.applyEvent event = .ok next) :
    next.executions.get? executionId = state.executions.get? executionId := by
  obtain ⟨execution, hexecution, hstatus⟩ := hended
  cases applied_of_applyEvent h with
  | started payload hbody hknown hnew hnumber =>
    refine Dict.get?_set_of_ne ?_
    rintro rfl
    rw [hnew] at hexecution
    cases hexecution
  | finished outcome payload found hbody hget hactive =>
    refine Dict.get?_set_of_ne ?_
    rintro rfl
    obtain rfl := Option.some.inj (hexecution.symm.trans hget)
    exact hstatus hactive
  | _ => rfl

theorem Ended.step (hended : state.Ended executionId) (h : state.applyEvent event = .ok next) :
    next.Ended executionId := by
  obtain ⟨execution, hget, hstatus⟩ := hended
  exact ⟨execution, (Ended.executions_eq ⟨execution, hget, hstatus⟩ h).trans hget, hstatus⟩

theorem EndedWith.step (hended : state.EndedWith executionId outcome payload)
    (h : state.applyEvent event = .ok next) : next.EndedWith executionId outcome payload := by
  have hsame := hended.ended.executions_eq h
  obtain ⟨execution, hget, hfields⟩ := hended
  exact ⟨execution, hsame.trans hget, hfields⟩

theorem Ended.applyEvent_recordsLoss (hended : state.Ended executionId)
    (hloss : event.recordsLoss executionId) : state.applyEvent event = .ok state := by
  obtain ⟨execution, hget, hstatus⟩ := hended
  obtain ⟨rfl, lost, hbody, hsentinel⟩ := hloss
  simp only [applyEvent, hbody, finishExecution, hget]
  rw [if_pos hstatus, if_pos hsentinel]

/-- The worker's outcome is accepted while the execution is active, and ends it. -/
theorem applyEvent_reports (hreports : event.reports executionId outcome payload)
    (h : state.applyEvent event = .ok next) :
    ¬ state.Ended executionId ∧ next.EndedWith executionId outcome payload := by
  obtain ⟨rfl, hproducer, hbody⟩ := hreports
  simp only [applyEvent, hbody, finishExecution] at h
  split at h
  · cases h
  · rename_i execution hget
    split_ifs at h with hstatus hsentinel
    · simp [isReconcilerLostSentinel, hproducer] at hsentinel
    · cases h
      rw [ne_eq, not_not] at hstatus
      constructor
      · rintro ⟨other, hother, hended⟩
        obtain rfl := Option.some.inj (hget.symm.trans hother)
        exact hended hstatus
      · exact ⟨_, Dict.get?_set_self, rfl, rfl, rfl, rfl⟩

/-- The record of a loss is accepted when the execution was started, and it has ended then. -/
theorem applyEvent_recordsLoss (hloss : event.recordsLoss executionId)
    (h : state.applyEvent event = .ok next) : next.Ended executionId := by
  obtain ⟨rfl, lost, hbody, hsentinel⟩ := hloss
  simp only [applyEvent, hbody, finishExecution] at h
  split at h
  · cases h
  · rename_i execution hget
    split_ifs at h with hstatus
    · cases h
      exact ⟨execution, hget, hstatus⟩
    · cases h
      exact ⟨_, Dict.get?_set_self, by simp [ExecutionOutcome.status]⟩

theorem endedWith_of_mem {events : List CampaignEvent}
    (hreports : event.reports executionId outcome payload) (hmem : event ∈ events)
    (h : events.foldlM applyEvent state = .ok next) :
    next.EndedWith executionId outcome payload := by
  obtain ⟨before, after, rfl⟩ := List.append_of_mem hmem
  obtain ⟨middle, -, hrest⟩ := foldlM_append_ok.mp h
  obtain ⟨ended, hended, hafter⟩ := foldlM_cons_ok.mp hrest
  exact foldlM_invariant (I := EndedWith executionId outcome payload)
    (applyEvent_reports hreports hended).2
    (fun state other next _ hstate hstep ↦ EndedWith.step hstate hstep) hafter

end RecoveryState

/-! ### The record of a loss in a log -/

/-- A log with the record that an execution was lost and with the worker's outcome of it. It is
accepted without the record. -/
structure LostLog [Jitter] (lock : CampaignLock) (executionId : String) (outcome : ExecutionOutcome)
    (payload : ExecutionOutcomePayload) (log : List CampaignEvent) (loss evidence : CampaignEvent)
    (others : RecoveryProjection) : Prop where
  ordered : ∃ ordered, orderedEvents log = .ok ordered
  others : projectRecovery lock (log.filter fun event ↦ event ≠ loss) = .ok others
  loss_mem : loss ∈ log
  loss_eq : loss.recordsLoss executionId
  evidence_mem : evidence ∈ log
  evidence_eq : evidence.reports executionId outcome payload

theorem filter_ne_of_nodup {loss : CampaignEvent} {before after : List CampaignEvent}
    (h : (before ++ loss :: after).Nodup) :
    (before ++ loss :: after).filter (fun event ↦ event ≠ loss) = before ++ after := by
  have hnodup := List.nodup_middle.mp h
  obtain ⟨hnotMem, -⟩ := List.nodup_cons.mp hnodup
  rw [List.filter_append, List.filter_cons_of_neg (by simp), ← List.filter_append,
    List.filter_eq_self]
  intro event hevent
  have hne : event ≠ loss := fun heq ↦ hnotMem (heq ▸ hevent)
  simpa using hne

section Late

variable [Jitter] {lock : CampaignLock} {executionId : String} {outcome : ExecutionOutcome}
  {payload : ExecutionOutcomePayload} {loss evidence : CampaignEvent}
  {before after : List CampaignEvent}

omit [Jitter] in
theorem foldlM_applyEvent_loss {state last : RecoveryState} (hloss : loss.recordsLoss executionId)
    (hreports : evidence.reports executionId outcome payload) (hmem : evidence ∈ before)
    (h : (before ++ after).foldlM RecoveryState.applyEvent state = .ok last) :
    (before ++ loss :: after).foldlM RecoveryState.applyEvent state = .ok last := by
  obtain ⟨middle, hbefore, hafter⟩ := foldlM_append_ok.mp h
  have hended := (RecoveryState.endedWith_of_mem hreports hmem hbefore).ended
  exact foldlM_append_ok.mpr ⟨middle, hbefore,
    foldlM_cons_ok.mpr ⟨middle, hended.applyEvent_recordsLoss hloss, hafter⟩⟩

theorem foldlM_legacyStep_loss {progress last : RecoveryState × Dict String (Dict String ℕ)}
    (hloss : loss.recordsLoss executionId)
    (hreports : evidence.reports executionId outcome payload) (hmem : evidence ∈ before)
    (h : (before ++ after).foldlM (legacyStep lock) progress = .ok last) :
    (before ++ loss :: after).foldlM (legacyStep lock) progress = .ok last := by
  obtain ⟨middle, hbefore, hafter⟩ := foldlM_append_ok.mp h
  have hended : middle.1.Ended executionId := by
    obtain ⟨first, second, rfl⟩ := List.append_of_mem hmem
    obtain ⟨start, -, hrest⟩ := foldlM_append_ok.mp hbefore
    obtain ⟨ended, hended, hsecond⟩ := foldlM_cons_ok.mp hrest
    have hwith := (RecoveryState.applyEvent_reports hreports (applyEvent_of_legacyStep hended)).2
    exact foldlM_invariant (I := fun progress ↦ progress.1.Ended executionId) hwith.ended
      (fun _ _ _ _ hstate hstep ↦ hstate.step (applyEvent_of_legacyStep hstep)) hsecond
  have hpass := hended.applyEvent_recordsLoss hloss
  have hskip : legacyStep lock middle loss = .ok middle := by
    obtain ⟨-, lost, hbody, -⟩ := hloss
    simp only [legacyStep, hbody, hpass]
    rfl
  exact foldlM_append_ok.mpr ⟨middle, hbefore, foldlM_cons_ok.mpr ⟨middle, hskip, hafter⟩⟩

theorem applyRetryRequests_loss {trials retried : Dict String TrialProjection}
    (hloss : loss.recordsLoss executionId)
    (hreports : evidence.reports executionId outcome payload) (hmem : evidence ∈ before)
    (h : applyRetryRequests lock (before ++ after) trials = .ok retried) :
    applyRetryRequests lock (before ++ loss :: after) trials = .ok retried := by
  have hbody : ∃ lost, loss.body = .executionOutcome .failed lost := by
    obtain ⟨-, lost, hbody, -⟩ := hloss
    exact ⟨lost, hbody⟩
  obtain ⟨lost, hbody⟩ := hbody
  have hlegacy : loss.legacyRetry = false := by
    simp [CampaignEvent.legacyRetry, hbody]
  have hrequest (legacy : Dict String (Dict String ℕ)) (requestedAt : Dict (String × ℕ) ℕ) :
      requestStep lock trials legacy requestedAt loss = .ok requestedAt := by
    simp [requestStep, hbody]
  rw [applyRetryRequests_eq] at h ⊢
  obtain ⟨legacy, hgenerations, h⟩ := bind_eq_ok.mp h
  obtain ⟨requestedAt, hrequested, h⟩ := bind_eq_ok.mp h
  refine bind_eq_ok.mpr ⟨legacy, ?_, bind_eq_ok.mpr ⟨requestedAt, ?_, h⟩⟩
  · have hany : (before ++ loss :: after).any CampaignEvent.legacyRetry =
        (before ++ after).any CampaignEvent.legacyRetry := by
      simp [hlegacy]
    rw [hany]
    split at hgenerations
    · rename_i hlegacies
      rw [if_pos hlegacies]
      obtain ⟨progress, hprogress, hsecond⟩ := bind_eq_ok.mp hgenerations
      exact bind_eq_ok.mpr ⟨progress, foldlM_legacyStep_loss hloss hreports hmem hprogress, hsecond⟩
    · rename_i hlegacies
      rw [if_neg hlegacies]
      exact hgenerations
  · obtain ⟨middle, hbefore, hafter⟩ := foldlM_append_ok.mp hrequested
    exact foldlM_append_ok.mpr ⟨middle, hbefore,
      foldlM_cons_ok.mpr ⟨middle, hrequest legacy middle, hafter⟩⟩

omit [Jitter] in
/-- The worker's outcome is refused behind a record of the loss. -/
theorem not_foldlM_applyEvent_loss {state last : RecoveryState}
    (hloss : loss.recordsLoss executionId)
    (hreports : evidence.reports executionId outcome payload) (hmem : evidence ∈ after) :
    (before ++ loss :: after).foldlM RecoveryState.applyEvent state ≠ .ok last := by
  intro h
  obtain ⟨middle, -, hrest⟩ := foldlM_append_ok.mp h
  obtain ⟨ended, hended, hafter⟩ := foldlM_cons_ok.mp hrest
  obtain ⟨earlier, next, hearlier, hnext⟩ :=
    exists_step_of_mem (I := RecoveryState.Ended executionId)
      (RecoveryState.applyEvent_recordsLoss hloss hended)
      (fun _ _ _ _ hstate hstep ↦ hstate.step hstep) hafter hmem
  exact (RecoveryState.applyEvent_reports hreports hnext).1 hearlier

end Late

/-- The worker's outcome replaces the record of the loss if and only if it sorts before the record,
and the record before the end of the campaign. -/
theorem lateEvidence_iff [Jitter] {lock : CampaignLock} {executionId : String}
    {outcome : ExecutionOutcome} {payload : ExecutionOutcomePayload} {log : List CampaignEvent}
    {loss evidence : CampaignEvent} {others : RecoveryProjection}
    (h : LostLog lock executionId outcome payload log loss evidence others) :
    (∃ projection execution, projectRecovery lock log = .ok projection ∧
        projection.executions.get? executionId = some execution ∧
        others.executions.get? executionId = some execution ∧
        execution.status = outcome.status ∧ execution.category = payload.category ∧
        execution.message = payload.message ∧ execution.spendMicrousd = payload.spendMicrousd ∧
        projection.spendMicrousd = others.spendMicrousd) ↔
      Earlier evidence loss ∧ ∀ other ∈ log, other.isTerminal = true → Earlier loss other := by
  obtain ⟨ordered, hordered⟩ := h.ordered
  have hmem := mem_orderedEvents hordered
  have hsorted := pairwise_orderedEvents hordered
  have hne : evidence ≠ loss := by
    intro heq
    have hproducer := h.loss_eq.producer_eq
    rw [← heq, h.evidence_eq.2.1] at hproducer
    cases hproducer
  obtain ⟨before, after, rfl⟩ := List.append_of_mem ((hmem loss).mpr h.loss_mem)
  have hfiltered : orderedEvents (log.filter fun event ↦ event ≠ loss) = .ok (before ++ after) := by
    rw [← filter_ne_of_nodup (nodup_orderedEvents hordered)]
    exact orderedEvents_filter _ hordered
  obtain ⟨othersCampaign, state, trials, retried, shards, runs, hothers, hstate, htrials, hretried,
    hshards, hruns, hprojection⟩ := (projectRecovery_eq_ok hfiltered).mp h.others
  have hskip : ∀ event : CampaignEvent, decide (event = loss) = true →
      event.subjectType ≠ .campaign := by
    intro event hevent
    rw [of_decide_eq_true hevent]
    exact h.loss_eq.subjectType_ne
  have hcampaign : (∃ campaign, projectCampaign lock log = .ok campaign) ↔
      WithinCampaign (fun event ↦ decide (event = loss)) log := by
    have hothers' : projectCampaign lock (log.filter fun event ↦ !decide (event = loss)) =
        .ok othersCampaign := by
      simpa using hothers
    exact exists_projectCampaign_iff hskip hordered hothers'
  have hplace : evidence ∈ before ∨ evidence ∈ after := by
    have hevidence := (hmem evidence).mpr h.evidence_mem
    simpa [hne] using hevidence
  constructor
  · rintro ⟨projection, execution, hlog, -⟩
    obtain ⟨campaign, last, _, _, _, _, hlogCampaign, hlast, -, -, -, -, -⟩ :=
      (projectRecovery_eq_ok hordered).mp hlog
    have hwithin := hcampaign.mp ⟨campaign, hlogCampaign⟩
    refine ⟨?_, fun other hother hterminal ↦ ?_⟩
    · rcases hplace with hbefore | hafter
      · exact (List.pairwise_append.mp hsorted).2.2 evidence hbefore loss List.mem_cons_self
      · exact absurd hlast (not_foldlM_applyEvent_loss h.loss_eq h.evidence_eq hafter)
    · exact (hwithin loss h.loss_mem (by simp) other hother).2 hterminal
  · rintro ⟨hearlier, hend⟩
    have hbefore : evidence ∈ before := by
      rcases hplace with hbefore | hafter
      · exact hbefore
      · have hlater := (List.pairwise_cons.mp (List.pairwise_append.mp hsorted).2.1).1 evidence hafter
        exact absurd (eq_of_eventId_eq hordered (by simp [hafter]) (by simp)
          (hearlier.eventId_eq hlater)) hne
    -- the submission is before the worker's outcome, which is before the record
    have hwithin : WithinCampaign (fun event ↦ decide (event = loss)) log := by
      intro event hevent hloss other hother
      obtain rfl := of_decide_eq_true hloss
      refine ⟨fun hsubmission ↦ ?_, hend other hother⟩
      obtain ⟨first, rest, _, hfirst, hsubmits, hrest, -⟩ :=
        (projectCampaign_eq_ok hfiltered).mp hothers
      have hother' : other ∈ before ++ after := by
        have hne' : other ≠ event := by
          rintro rfl
          exact h.loss_eq.subjectType_ne (CampaignEvent.subjectType_of_isSubmission hsubmission)
        have hmem' := (hmem other).mpr hother
        simpa [hne'] using hmem'
      have hother'' : other = first := by
        rw [hfirst] at hother'
        rcases List.mem_cons.mp hother' with heq | hbehind
        · exact heq
        · rw [isSubmission_eq_false hrest other hbehind] at hsubmission
          cases hsubmission
      have hhead : other ∈ before := by
        cases before with
        | nil => cases hbefore
        | cons head rest =>
          obtain ⟨rfl, -⟩ := List.cons.inj hfirst
          rw [hother'']
          exact List.mem_cons_self
      exact (List.pairwise_append.mp hsorted).2.2 other hhead event List.mem_cons_self
    obtain ⟨campaign, hlogCampaign⟩ := hcampaign.mpr hwithin
    have hlog := (projectRecovery_eq_ok hordered).mpr ⟨campaign, state, trials, retried, shards, runs,
      hlogCampaign, foldlM_applyEvent_loss h.loss_eq h.evidence_eq hbefore hstate, htrials,
      applyRetryRequests_loss h.loss_eq h.evidence_eq hbefore hretried, hshards, hruns, rfl⟩
    obtain ⟨execution, hget, hfields⟩ :=
      RecoveryState.endedWith_of_mem h.evidence_eq (List.mem_append_left after hbefore) hstate
    refine ⟨_, execution, hlog, hget, ?_, hfields.1, hfields.2.1, hfields.2.2.1, hfields.2.2.2, ?_⟩
    · rw [hprojection]
      exact hget
    · rw [hprojection]

/-! ### An execution that was taken for lost -/

section Sample

local instance evidenceJitter : Jitter := ⟨fun _ ↦ 0, zero_lt_byte⟩

/-- The start of the execution. -/
def executionStart : CampaignEvent :=
  ⟨"start", "execution", 2, .waveController, .executionStarted ⟨"trial", "shard", 1, some "wave", 0⟩⟩

/-- The outcome that the worker reports. -/
def reportedOutcome : ExecutionOutcomePayload :=
  ⟨"trial", 1, some .transient, 17, none, some "command timed out"⟩

def workerOutcome : CampaignEvent :=
  ⟨"outcome", "execution", 5, .waveController, .executionOutcome .failed reportedOutcome⟩

/-- The reconciler's record of the loss, by its own clock. -/
def lossAt (observedAt : ℕ) : CampaignEvent :=
  ⟨"loss", "execution", observedAt, .reconciler, .executionOutcome .failed
    ⟨"trial", 1, some .lost, 0, none,
      some "HF Job job reached ERROR without terminal execution evidence"⟩⟩

def lossLog (observedAt : ℕ) : List CampaignEvent :=
  sampleLog [executionStart, workerOutcome, lossAt observedAt]

theorem lossAt_recordsLoss (observedAt : ℕ) : (lossAt observedAt).recordsLoss "execution" := by
  refine ⟨rfl, _, rfl, ?_⟩
  show RecoveryState.isReconcilerLostSentinel .reconciler .failed _ = true
  decide +kernel

theorem workerOutcome_reports : workerOutcome.reports "execution" .failed reportedOutcome :=
  ⟨rfl, rfl, rfl⟩

/-- The worker's outcome stands when the loss was recorded after it. -/
theorem lossLog_replaced : ∃ projection execution,
    projectRecovery endpointLock (lossLog 6) = .ok projection ∧
      projection.executions.get? "execution" = some execution ∧
      execution.category = some .transient ∧ execution.spendMicrousd = 17 := by
  obtain ⟨others, hothers⟩ : ∃ others, projectRecovery endpointLock
      ((lossLog 6).filter fun event ↦ event ≠ lossAt 6) = .ok others :=
    exists_ok_of_toBool (by decide +kernel)
  have hlog : LostLog endpointLock "execution" .failed reportedOutcome (lossLog 6) (lossAt 6)
      workerOutcome others :=
    ⟨exists_ok_of_toBool (by decide +kernel), hothers, by decide +kernel, lossAt_recordsLoss 6,
      by decide +kernel, workerOutcome_reports⟩
  obtain ⟨projection, execution, hprojection, hget, -, -, hcategory, -, hspend, -⟩ :=
    (lateEvidence_iff hlog).mpr ⟨by decide +kernel, by decide +kernel⟩
  exact ⟨projection, execution, hprojection, hget, hcategory, hspend⟩

/-- The campaign is blocked when the reconciler's clock is behind the worker's. -/
theorem lossLog_refused :
    (∃ others, LostLog endpointLock "execution" .failed reportedOutcome (lossLog 4) (lossAt 4)
      workerOutcome others) ∧
    projectRecovery endpointLock (lossLog 4) =
      .error (.value "execution has multiple outcomes: execution") := by
  obtain ⟨others, hothers⟩ : ∃ others, projectRecovery endpointLock
      ((lossLog 4).filter fun event ↦ event ≠ lossAt 4) = .ok others :=
    exists_ok_of_toBool (by decide +kernel)
  refine ⟨⟨others, exists_ok_of_toBool (by decide +kernel), hothers, by decide +kernel,
    lossAt_recordsLoss 4, by decide +kernel, workerOutcome_reports⟩, by decide +kernel⟩

end Sample

end HarborHF.Campaign
