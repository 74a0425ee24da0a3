import HarborHF.Campaign.Merging

/-!
# Failed cleanups

Two places ask which waves have a failed cleanup. `projectRecovery` follows the waves through the
log, and passes over what the reconciler recorded late. `cleanupFailedWaveIds`, which guards the write
of a manual resolution, takes the last event of each wave. Both close the waves that a resolution
names.

The two agree as long as the reconciler drains no wave whose cleanup has failed: the projection passes
over such a drain, the guard takes it for the status of the wave.
-/

set_option autoImplicit false

namespace HarborHF.Campaign

open Relational

/-! ### The guard of manual resolutions -/

/-- Close a wave whose last event is a failed cleanup. -/
def closeFailed (states : Dict String WaveStatus) (waveId : String) : Dict String WaveStatus :=
  if states.get? waveId = some .cleanupFailed then states.set waveId .closed else states

/-- One event of the log (the loop of `_cleanup_failed_wave_ids`). -/
def cleanupFailedStep (states : Dict String WaveStatus) (event : CampaignEvent) :
    Dict String WaveStatus :=
  match event.body with
  | .wave status _ => states.set event.subjectId status
  | .manualInterventionResolved payload => payload.waveIds.foldl closeFailed states
  | _ => states

/-- The waves whose cleanup failed, by their last events. -/
def cleanupFailedWaveIds (events : List CampaignEvent) : Except CampaignError (List String) := do
  let ordered ← orderedEvents events
  let states := ordered.foldl cleanupFailedStep []
  return (states.filter fun entry ↦ entry.2 = .cleanupFailed).map Prod.fst

/-! ### Events of a wave with a failed cleanup -/

/-- The event records that the cleanup of the wave failed. -/
def CampaignEvent.fails (waveId : String) (event : CampaignEvent) : Prop :=
  event.subjectId = waveId ∧ ∃ payload, event.body = .wave .cleanupFailed payload

/-- The event is a drain of the wave by the reconciler. -/
def CampaignEvent.drains (waveId : String) (event : CampaignEvent) : Prop :=
  event.subjectId = waveId ∧ event.producer = .reconciler ∧
    ∃ payload, event.body = .wave .draining payload

/-- The cleanup of the wave failed, and what came later of the wave is as allowed and resolves
nothing. -/
def FailedSince (waveId : String) (allowed : CampaignEvent → Prop) (ordered : List CampaignEvent) :
    Prop :=
  ∃ before failed after, ordered = before ++ failed :: after ∧ failed.fails waveId ∧
    ∀ event ∈ after, (event.ofWave waveId = true → allowed event) ∧
      ¬ RecoveryState.Resolves waveId event

/-- The reconciler drained the wave after its cleanup had failed, and nothing was recorded of it
since. -/
def DrainedAfterFailure (waveId : String) (ordered : List CampaignEvent) : Prop :=
  ∃ before failed after, ordered = before ++ failed :: after ∧ failed.fails waveId ∧
    (∀ event ∈ after, (event.ofWave waveId = true → event.drains waveId) ∧
      ¬ RecoveryState.Resolves waveId event) ∧ ∃ event ∈ after, event.drains waveId

section Since

variable {waveId : String} {allowed : CampaignEvent → Prop} {ordered : List CampaignEvent}
  {event : CampaignEvent}

theorem CampaignEvent.fails.ofWave (h : event.fails waveId) : event.ofWave waveId = true := by
  obtain ⟨hid, payload, hbody⟩ := h
  simp [CampaignEvent.ofWave, hbody, hid]

theorem CampaignEvent.drains.ofWave (h : event.drains waveId) : event.ofWave waveId = true := by
  obtain ⟨hid, -, payload, hbody⟩ := h
  simp [CampaignEvent.ofWave, hbody, hid]

theorem CampaignEvent.drains.not_fails (h : event.drains waveId) : ¬ event.fails waveId := by
  rintro ⟨-, payload, hbody⟩
  obtain ⟨-, -, other, hother⟩ := h
  rw [hbody] at hother
  cases hother

theorem failedSince_nil : ¬ FailedSince waveId allowed [] := by
  rintro ⟨before, failed, after, heq, -⟩
  simp at heq

/-- The last event decides: it is the failure, or it is allowed after one. -/
theorem failedSince_append : FailedSince waveId allowed (ordered ++ [event]) ↔
    event.fails waveId ∨ (FailedSince waveId allowed ordered ∧
      (event.ofWave waveId = true → allowed event) ∧ ¬ RecoveryState.Resolves waveId event) := by
  constructor
  · rintro ⟨before, failed, after, heq, hfails, hafter⟩
    rcases List.eq_nil_or_concat after with rfl | ⟨rest, last, rfl⟩
    · obtain ⟨rfl, hsame⟩ := List.append_inj' heq rfl
      cases hsame
      exact .inl hfails
    · rw [List.concat_eq_append, ← List.cons_append, ← List.append_assoc] at heq
      obtain ⟨rfl, hsame⟩ := List.append_inj' heq rfl
      cases hsame
      refine .inr ⟨⟨before, failed, rest, rfl, hfails, ?_⟩, hafter event (by simp)⟩
      intro other hother
      exact hafter other (by simp [hother])
  · rintro (hfails | ⟨⟨before, failed, after, rfl, hfails, hafter⟩, hevent⟩)
    · exact ⟨ordered, event, [], rfl, hfails, by simp⟩
    · refine ⟨before, failed, after ++ [event], by simp, hfails, ?_⟩
      intro other hother
      rcases List.mem_append.mp hother with hmem | hmem
      · exact hafter other hmem
      · rw [List.mem_singleton.mp hmem]
        exact hevent

/-- A wave that was not drained after its failure has the failure as its last event. -/
theorem failedSince_drains_iff : FailedSince waveId (CampaignEvent.drains waveId) ordered ↔
    FailedSince waveId (fun _ ↦ False) ordered ∨ DrainedAfterFailure waveId ordered := by
  constructor
  · rintro ⟨before, failed, after, heq, hfails, hafter⟩
    by_cases hdrain : ∃ event ∈ after, event.drains waveId
    · exact .inr ⟨before, failed, after, heq, hfails, hafter, hdrain⟩
    · refine .inl ⟨before, failed, after, heq, hfails, fun event hevent ↦ ⟨fun hwave ↦ ?_, ?_⟩⟩
      · exact hdrain ⟨event, hevent, (hafter event hevent).1 hwave⟩
      · exact (hafter event hevent).2
  · rintro (⟨before, failed, after, heq, hfails, hafter⟩ | ⟨before, failed, after, heq, hfails,
      hafter, -⟩)
    · refine ⟨before, failed, after, heq, hfails, fun event hevent ↦ ⟨fun hwave ↦ ?_, ?_⟩⟩
      · exact ((hafter event hevent).1 hwave).elim
      · exact (hafter event hevent).2
    · exact ⟨before, failed, after, heq, hfails, hafter⟩

/-- The last event of a wave is not both a failure and a drain. -/
theorem DrainedAfterFailure.not_failedSince (h : DrainedAfterFailure waveId ordered) :
    ¬ FailedSince waveId (fun _ ↦ False) ordered := by
  induction ordered using List.reverseRecOn with
  | nil =>
    obtain ⟨before, failed, after, heq, -⟩ := h
    simp at heq
  | append_singleton ordered event ih =>
    rw [failedSince_append]
    obtain ⟨before, failed, after, heq, hfails, hafter, drain, hdrain, hdrains⟩ := h
    rcases List.eq_nil_or_concat after with rfl | ⟨rest, last, rfl⟩
    · cases hdrain
    · rw [List.concat_eq_append] at hafter hdrain heq
      rw [← List.cons_append, ← List.append_assoc] at heq
      obtain ⟨rfl, hsame⟩ := List.append_inj' heq rfl
      cases hsame
      rintro (hevent | ⟨hsince, hallowed, -⟩)
      · exact ((hafter event (by simp)).1 hevent.ofWave).not_fails hevent
      · rcases List.mem_append.mp hdrain with hmem | hmem
        · refine ih ⟨before, failed, rest, rfl, hfails, ?_, drain, hmem, hdrains⟩ hsince
          intro other hother
          exact hafter other (by simp [hother])
        · rw [List.mem_singleton.mp hmem] at hdrains
          exact hallowed hdrains.ofWave

end Since

/-! ### The guard takes the last event -/

section Guard

variable {waveId : String} {states : Dict String WaveStatus} {waveIds : List String}

theorem get?_closeFailed {other : String} : (closeFailed states other).get? waveId =
    if waveId = other ∧ states.get? waveId = some .cleanupFailed then some .closed
      else states.get? waveId := by
  unfold closeFailed
  by_cases hfailed : states.get? other = some .cleanupFailed
  · rw [if_pos hfailed]
    by_cases heq : waveId = other
    · subst heq
      simp [hfailed]
    · rw [Dict.get?_set_of_ne heq, if_neg (fun h ↦ heq h.1)]
  · rw [if_neg hfailed]
    by_cases heq : waveId = other
    · subst heq
      simp [hfailed]
    · rw [if_neg (fun h ↦ heq h.1)]

theorem get?_foldl_closeFailed : (waveIds.foldl closeFailed states).get? waveId =
    if waveId ∈ waveIds ∧ states.get? waveId = some .cleanupFailed then some .closed
      else states.get? waveId := by
  induction waveIds generalizing states with
  | nil => simp
  | cons other rest ih =>
    rw [List.foldl_cons, ih, get?_closeFailed]
    by_cases hfailed : states.get? waveId = some .cleanupFailed
    · by_cases heq : waveId = other
      · subst heq
        simp [hfailed]
      · simp [heq, hfailed]
    · simp [hfailed]

/-- The guard sees a failed cleanup when it is the last event of the wave. -/
theorem get?_foldl_cleanupFailedStep {ordered : List CampaignEvent} :
    (ordered.foldl cleanupFailedStep []).get? waveId = some .cleanupFailed ↔
      FailedSince waveId (fun _ ↦ False) ordered := by
  induction ordered using List.reverseRecOn with
  | nil => simpa using failedSince_nil
  | append_singleton ordered event ih =>
    rw [List.foldl_append, List.foldl_cons, List.foldl_nil, failedSince_append, ← ih]
    generalize ordered.foldl cleanupFailedStep [] = states
    cases hbody : event.body with
    | wave status payload =>
      have hresolves : ¬ RecoveryState.Resolves waveId event := by
        rintro ⟨resolution, hother, -⟩
        rw [hbody] at hother
        cases hother
      simp only [cleanupFailedStep, hbody]
      by_cases heq : event.subjectId = waveId
      · simp [heq, CampaignEvent.fails, CampaignEvent.ofWave, hbody]
      · rw [Dict.get?_set_of_ne (Ne.symm heq)]
        simp [heq, CampaignEvent.fails, CampaignEvent.ofWave, hbody, hresolves]
    | manualInterventionResolved payload =>
      have hresolves : RecoveryState.Resolves waveId event ↔ waveId ∈ payload.waveIds := by
        simp [RecoveryState.Resolves, hbody]
      simp only [cleanupFailedStep, hbody, get?_foldl_closeFailed, hresolves]
      by_cases hmem : waveId ∈ payload.waveIds
      · by_cases hfailed : states.get? waveId = some .cleanupFailed
        · simp [hmem, hfailed, CampaignEvent.fails, hbody]
        · simp [hmem, hfailed, CampaignEvent.fails, hbody]
      · simp [hmem, CampaignEvent.fails, CampaignEvent.ofWave, hbody]
    | _ =>
      have hresolves : ¬ RecoveryState.Resolves waveId event := by
        rintro ⟨resolution, hother, -⟩
        rw [hbody] at hother
        cases hother
      simp [cleanupFailedStep, CampaignEvent.fails, CampaignEvent.ofWave, hbody, hresolves]

theorem nodup_keys_foldl_closeFailed (h : states.keys.Nodup) :
    (waveIds.foldl closeFailed states).keys.Nodup := by
  induction waveIds generalizing states with
  | nil => exact h
  | cons waveId rest ih =>
    refine ih ?_
    unfold closeFailed
    split
    · exact Dict.nodup_keys_set h
    · exact h

theorem nodup_keys_foldl_cleanupFailedStep {ordered : List CampaignEvent}
    (h : states.keys.Nodup) : (ordered.foldl cleanupFailedStep states).keys.Nodup := by
  induction ordered generalizing states with
  | nil => exact h
  | cons event rest ih =>
    refine ih ?_
    unfold cleanupFailedStep
    split
    · exact Dict.nodup_keys_set h
    · exact nodup_keys_foldl_closeFailed h
    · exact h

theorem mem_cleanupFailedWaveIds {events ordered : List CampaignEvent}
    (hordered : orderedEvents events = .ok ordered) : ∃ ids, cleanupFailedWaveIds events = .ok ids ∧
      ∀ waveId, waveId ∈ ids ↔ FailedSince waveId (fun _ ↦ False) ordered := by
  refine ⟨_, bind_eq_ok.mpr ⟨ordered, hordered, rfl⟩, fun waveId ↦ ?_⟩
  have hnodup : (ordered.foldl cleanupFailedStep []).keys.Nodup :=
    nodup_keys_foldl_cleanupFailedStep (by exact List.nodup_nil)
  rw [← get?_foldl_cleanupFailedStep, Dict.get?_eq_some_iff hnodup]
  simp

end Guard

/-! ### The projection passes over late drains -/

section Projection

variable {waveId : String}

/-- The wave has a failed cleanup. -/
def Failed (waves : Dict String WaveProjection) (waveId : String) : Prop :=
  ∃ wave, waves.get? waveId = some wave ∧ wave.status = .cleanupFailed

theorem nextWave_cleanupFailed {producer : Producer} {status : WaveStatus}
    {payload : WaveLifecyclePayload} {previous : Option WaveProjection} {next : WaveProjection}
    (h : nextWave waveId producer status payload previous = .ok next) :
    next.status = .cleanupFailed ↔ status = .cleanupFailed ∨
      ((∃ wave, previous = some wave ∧ wave.status = .cleanupFailed) ∧
        producer = .reconciler ∧ status = .draining) := by
  cases previous with
  | none =>
    cases h
    simp
  | some wave =>
    simp only [nextWave] at h
    split at h
    · cases h
    · split at h
      · rename_i hstale
        cases h
        unfold staleReconcilerTransition at hstale
        cases hstatus : next.status <;> cases status <;> simp_all
      · rename_i hstale
        obtain ⟨-, -, hnext⟩ := bind_eq_ok.mp h
        cases hnext
        constructor
        · exact .inl
        · rintro (hfailed | ⟨⟨other, hother, hfailed⟩, rfl, rfl⟩)
          · exact hfailed
          · obtain rfl := Option.some.inj hother
            simp [staleReconcilerTransition, hfailed] at hstale

theorem closeRecovered_failed {waves next : Dict String WaveProjection} {other : String}
    (h : RecoveryState.closeRecovered waves other = .ok next) :
    Failed next waveId ↔ Failed waves waveId ∧ waveId ≠ other := by
  by_cases heq : waveId = other
  · subst heq
    unfold RecoveryState.closeRecovered at h
    split at h
    · cases h
    · rename_i wave hget
      split at h
      · cases h
        simp [Failed]
      · rename_i hnot
        split at h
        · cases h
          simp [Failed, hget, hnot]
        · cases h
  · unfold Failed
    rw [RecoveryState.closeRecovered_get? heq h]
    simp [heq]

theorem foldlM_closeRecovered_failed {waves next : Dict String WaveProjection}
    {waveIds : List String} (h : waveIds.foldlM RecoveryState.closeRecovered waves = .ok next) :
    Failed next waveId ↔ Failed waves waveId ∧ waveId ∉ waveIds := by
  induction waveIds generalizing waves with
  | nil =>
    cases h
    simp
  | cons other rest ih =>
    obtain ⟨middle, hmiddle, hrest⟩ := foldlM_cons_ok.mp h
    rw [ih hrest, closeRecovered_failed hmiddle, List.mem_cons, not_or, and_assoc]

/-- One event fails the cleanup of a wave, or keeps the failure. -/
theorem applyEvent_failed {state next : RecoveryState} {event : CampaignEvent}
    (h : state.applyEvent event = .ok next) :
    Failed next.waves waveId ↔ event.fails waveId ∨ (Failed state.waves waveId ∧
      (event.ofWave waveId = true → event.drains waveId) ∧
        ¬ RecoveryState.Resolves waveId event) := by
  by_cases hresolves : RecoveryState.Resolves waveId event
  · obtain ⟨payload, hbody, hmem⟩ := hresolves
    have hfails : ¬ event.fails waveId := by
      simp [CampaignEvent.fails, hbody]
    have hnext := h
    simp only [RecoveryState.applyEvent, hbody] at hnext
    obtain ⟨waves, hwaves, hsame⟩ := bind_eq_ok.mp hnext
    cases hsame
    simp only [hfails, false_or, foldlM_closeRecovered_failed hwaves]
    constructor
    · rintro ⟨-, hnot⟩
      exact absurd hmem hnot
    · rintro ⟨-, -, hnot⟩
      exact absurd ⟨payload, hbody, hmem⟩ hnot
  · by_cases hwave : event.ofWave waveId = true
    · obtain ⟨rfl, status, payload, hbody⟩ := CampaignEvent.exists_of_ofWave hwave
      simp only [RecoveryState.applyEvent, hbody, RecoveryState.recordWaveStatus] at h
      split_ifs at h
      obtain ⟨wave, hnext, hsame⟩ := bind_eq_ok.mp h
      cases hsame
      have hiff := nextWave_cleanupFailed hnext
      simp only [Failed, Dict.get?_set_self, Option.some.injEq, exists_eq_left', hiff, hwave,
        CampaignEvent.fails, CampaignEvent.drains, hbody, EventBody.wave.injEq, hresolves,
        true_and, exists_and_left, exists_eq', and_true, not_false_eq_true, forall_const]
    · have hfails : ¬ event.fails waveId := fun h ↦ hwave h.ofWave
      unfold Failed
      rw [RecoveryState.applyEvent_waves (by simpa using hwave) hresolves h]
      simp [hfails, hwave, hresolves]

/-- The projection sees a failed cleanup unless it was resolved or something other than a late drain
came after it. -/
theorem failed_iff {lock : CampaignLock} {ordered : List CampaignEvent} {state : RecoveryState}
    (h : ordered.foldlM RecoveryState.applyEvent (initialState lock) = .ok state) :
    Failed state.waves waveId ↔ FailedSince waveId (CampaignEvent.drains waveId) ordered := by
  induction ordered using List.reverseRecOn generalizing state with
  | nil =>
    cases h
    simpa [Failed, initialState] using failedSince_nil
  | append_singleton ordered event ih =>
    obtain ⟨middle, hmiddle, hlast⟩ := foldlM_append_ok.mp h
    obtain ⟨next, hnext, hend⟩ := foldlM_cons_ok.mp hlast
    cases hend
    rw [failedSince_append, ← ih hmiddle]
    exact applyEvent_failed hnext

end Projection

/-- The guard of manual resolutions sees the failed cleanups of the projection if and only if the
reconciler drained no wave after its cleanup had failed. -/
theorem cleanupFailedWaveIds_agree_iff [Jitter] {lock : CampaignLock}
    {events ordered : List CampaignEvent} {projection : RecoveryProjection}
    (h : projectRecovery lock events = .ok projection)
    (hordered : orderedEvents events = .ok ordered) :
    (∃ ids, cleanupFailedWaveIds events = .ok ids ∧
      ∀ waveId, waveId ∈ ids ↔ Failed projection.waves waveId) ↔
      ∀ waveId, ¬ DrainedAfterFailure waveId ordered := by
  obtain ⟨ids, hids, hmem⟩ := mem_cleanupFailedWaveIds hordered
  obtain ⟨campaign, state, _, _, _, _, -, hstate, -, -, -, -, rfl⟩ :=
    (projectRecovery_eq_ok hordered).mp h
  have hfailed (waveId : String) : Failed state.waves waveId ↔
      FailedSince waveId (fun _ ↦ False) ordered ∨ DrainedAfterFailure waveId ordered := by
    rw [failed_iff hstate, failedSince_drains_iff]
  constructor
  · rintro ⟨others, hothers, hagree⟩ waveId hdrained
    rw [hids] at hothers
    obtain rfl := Except.ok.inj hothers
    have hguard := (hagree waveId).mpr ((hfailed waveId).mpr (.inr hdrained))
    exact hdrained.not_failedSince ((hmem waveId).mp hguard)
  · intro hnone
    refine ⟨ids, hids, fun waveId ↦ ?_⟩
    rw [hmem, hfailed]
    simp [hnone waveId]

/-! ### A wave that is drained late -/

section Sample

local instance guardJitter : Jitter := ⟨fun _ ↦ 0, zero_lt_byte⟩

/-- The worker's cleanup fails. -/
def failedCleanup : List CampaignEvent :=
  [sampleEvent 5 "a" ⟨.waveController, .active⟩,
    sampleEvent 7 "b" ⟨.waveController, .cleanupFailed⟩]

/-- The reconciler drains the wave after its cleanup has failed. -/
def failedThenDrained : List CampaignEvent :=
  failedCleanup ++ [sampleEvent 9 "c" ⟨.reconciler, .draining⟩]

theorem not_drainedAfterFailure {waveId : String} {ordered : List CampaignEvent}
    (h : ∀ event ∈ ordered, event.producer ≠ .reconciler) :
    ¬ DrainedAfterFailure waveId ordered := by
  rintro ⟨before, failed, after, rfl, -, -, drain, hdrain, -, hproducer, -⟩
  exact h drain (by simp [hdrain]) hproducer

/-- Without a drain both see the failed cleanup. -/
theorem failedCleanup_agree : ∃ projection ids,
    projectRecovery endpointLock (sampleLog failedCleanup) = .ok projection ∧
      cleanupFailedWaveIds (sampleLog failedCleanup) = .ok ids ∧
        ∀ waveId, waveId ∈ ids ↔ Failed projection.waves waveId := by
  obtain ⟨projection, hprojection⟩ : ∃ projection,
      projectRecovery endpointLock (sampleLog failedCleanup) = .ok projection :=
    exists_ok_of_toBool (by decide +kernel)
  have hordered : orderedEvents (sampleLog failedCleanup) = .ok (sampleLog failedCleanup) := by
    decide +kernel
  obtain ⟨ids, hids, hagree⟩ := (cleanupFailedWaveIds_agree_iff hprojection hordered).mpr
    fun waveId ↦ not_drainedAfterFailure (by decide +kernel)
  exact ⟨projection, ids, hprojection, hids, hagree⟩

/-- The guard does not see the failed cleanup of a wave that was drained late. -/
theorem failedThenDrained_missed : cleanupFailedWaveIds (sampleLog failedThenDrained) = .ok [] ∧
    ∃ projection, projectRecovery endpointLock (sampleLog failedThenDrained) = .ok projection ∧
      Failed projection.waves "wave" := by
  refine ⟨by decide +kernel, ?_⟩
  obtain ⟨projection, hprojection⟩ : ∃ projection,
      projectRecovery endpointLock (sampleLog failedThenDrained) = .ok projection :=
    exists_ok_of_toBool (by decide +kernel)
  have hstatus : (projectRecovery endpointLock (sampleLog failedThenDrained)).map
      (fun projection ↦ (projection.waves.get? "wave").map WaveProjection.status) =
        .ok (some .cleanupFailed) := by decide +kernel
  rw [hprojection] at hstatus
  obtain ⟨wave, hwave, hfailed⟩ := Option.map_eq_some_iff.mp (Except.ok.inj hstatus)
  exact ⟨projection, hprojection, wave, hwave, hfailed⟩

end Sample

end HarborHF.Campaign
