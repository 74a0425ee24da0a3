import HarborHF.Campaign.Projection
import HarborHF.Campaign.WaveHistories

/-!
# Waves in the log of a campaign

The events of a wave act on that wave alone: `separate_applyEvent` says that the fold over a log is
the fold over the other events next to the fold over the wave's own, however they are interleaved. So
whether the log of a campaign is accepted depends on the order of the wave's events among themselves
and on nothing else of the log but its ends: nothing may come before the submission of the campaign
or after its terminal event.
-/

set_option autoImplicit false

namespace HarborHF.Campaign

open Relational

/-! ### The events of a wave -/

namespace CampaignEvent

/-- The event is one of the wave. -/
def ofWave (waveId : String) (event : CampaignEvent) : Bool :=
  match event.body with
  | .wave _ _ => event.subjectId = waveId
  | _ => false

/-- What an event records of a wave. -/
def mark? (event : CampaignEvent) : Option WaveMark :=
  match event.body with
  | .wave status _ => some ⟨event.producer, status⟩
  | _ => none

variable {waveId : String} {event : CampaignEvent}

theorem exists_of_ofWave (h : event.ofWave waveId = true) :
    event.subjectId = waveId ∧ ∃ status payload, event.body = .wave status payload := by
  unfold ofWave at h
  split at h
  · rename_i status payload hbody
    exact ⟨of_decide_eq_true h, status, payload, hbody⟩
  · cases h

theorem subjectType_of_ofWave (h : event.ofWave waveId = true) : event.subjectType ≠ .campaign := by
  obtain ⟨-, status, payload, hbody⟩ := exists_of_ofWave h
  simp [subjectType, hbody]

end CampaignEvent

/-- The history of a wave in a log. -/
def waveHistory (waveId : String) (ordered : List CampaignEvent) : List WaveMark :=
  (ordered.filter fun event ↦ event.ofWave waveId).filterMap CampaignEvent.mark?

/-! ### The state without a wave -/

namespace RecoveryState

/-- The state as if nothing was observed of the wave. -/
def withoutWave (waveId : String) (state : RecoveryState) : RecoveryState :=
  { state with waves := state.waves.erase waveId }

/-- The shards of a wave are known. -/
def Knows (shardIds : List String) (state : RecoveryState) : Prop :=
  ∀ shardId ∈ shardIds, (state.shards.get? shardId).isSome = true

/-- One event of a wave, as it was observed before. -/
def waveStep (waveId : String) (wave : Option WaveProjection) (event : CampaignEvent) :
    Except CampaignError (Option WaveProjection) :=
  match event.body with
  | .wave status payload => (nextWave waveId event.producer status payload wave).map some
  | _ => .ok wave

/-- The event names the wave without being one of it. -/
def Resolves (waveId : String) (event : CampaignEvent) : Prop :=
  ∃ payload, event.body = .manualInterventionResolved payload ∧ waveId ∈ payload.waveIds

section Resolution

variable {waveId : String} {waves next : Dict String WaveProjection} {waveIds : List String}

theorem closeRecovered_get? {other : String} (hne : waveId ≠ other)
    (h : closeRecovered waves other = .ok next) : next.get? waveId = waves.get? waveId := by
  unfold closeRecovered at h
  split at h
  · cases h
  · split at h
    · cases h
      exact Dict.get?_set_of_ne hne
    · split at h
      · cases h
        rfl
      · cases h

theorem closeRecovered_erase {other : String} (hne : waveId ≠ other) :
    (closeRecovered waves other).map (fun waves ↦ waves.erase waveId) =
      closeRecovered (waves.erase waveId) other := by
  unfold closeRecovered
  rw [Dict.get?_erase_of_ne hne.symm]
  cases waves.get? other with
  | none => rfl
  | some wave =>
    by_cases hfailed : wave.status = .cleanupFailed
    · simp [hfailed, Except.map, Dict.erase_set_of_ne hne.symm]
    · by_cases hclosed : wave.status = .closed
      · simp [hclosed, Except.map]
      · simp [hfailed, hclosed, Except.map]

theorem foldlM_closeRecovered_get? (hne : waveId ∉ waveIds)
    (h : waveIds.foldlM closeRecovered waves = .ok next) :
    next.get? waveId = waves.get? waveId := by
  refine foldlM_invariant (I := fun state ↦ state.get? waveId = waves.get? waveId) rfl ?_ h
  intro state other after hother hstate hstep
  have hother' : waveId ≠ other := by
    rintro rfl
    exact hne hother
  rw [closeRecovered_get? hother' hstep, hstate]

theorem foldlM_closeRecovered_erase (hne : waveId ∉ waveIds) :
    (waveIds.foldlM closeRecovered waves).map (fun waves ↦ waves.erase waveId) =
      waveIds.foldlM closeRecovered (waves.erase waveId) := by
  induction waveIds generalizing waves with
  | nil => rfl
  | cons other rest ih =>
    rw [List.mem_cons, not_or] at hne
    rw [List.foldlM_cons, List.foldlM_cons, ← closeRecovered_erase hne.1]
    cases closeRecovered waves other with
    | error error => rfl
    | ok next => exact ih hne.2

/-- A wave of which nothing was observed cannot be recovered by hand. -/
theorem foldlM_closeRecovered_unobserved (hnone : waves.get? waveId = none)
    (h : waveIds.foldlM closeRecovered waves = .ok next) : waveId ∉ waveIds := by
  intro hmem
  have hkeeps (state : Dict String WaveProjection) (other : String)
      (after : Dict String WaveProjection) (_ : other ∈ waveIds) (hstate : state.get? waveId = none)
      (hstep : closeRecovered state other = .ok after) : after.get? waveId = none := by
    by_cases heq : waveId = other
    · subst heq
      simp [closeRecovered, hstate] at hstep
    · rw [closeRecovered_get? heq hstep, hstate]
  obtain ⟨before, after, hbefore, hstep⟩ :=
    exists_step_of_mem (I := fun state ↦ state.get? waveId = none) hnone hkeeps h hmem
  simp [closeRecovered, hbefore] at hstep

end Resolution

variable {waveId : String} {shardIds : List String} {state next : RecoveryState}
  {event : CampaignEvent}

theorem startExecution_withoutWave {executionId : String} {observedAt : ℕ}
    {payload : ExecutionStartedPayload} :
    (state.startExecution executionId observedAt payload).map (withoutWave waveId) =
      (state.withoutWave waveId).startExecution executionId observedAt payload := by
  unfold startExecution
  by_cases hknown : state.knowsTrial payload.trialId payload.shardId = false
  · rw [if_pos hknown]
    exact (if_pos hknown).symm
  by_cases hstarted : (state.executions.get? executionId).isSome = true
  · rw [if_neg hknown, if_pos hstarted]
    exact ((if_neg hknown).trans (if_pos hstarted)).symm
  by_cases hnumber : (state.executions.values.any fun execution ↦
      execution.trialId = payload.trialId ∧ execution.physicalAttempt = payload.physicalAttempt) = true
  · rw [if_neg hknown, if_neg hstarted, if_pos hnumber]
    exact ((if_neg hknown).trans ((if_neg hstarted).trans (if_pos hnumber))).symm
  · rw [if_neg hknown, if_neg hstarted, if_neg hnumber]
    exact ((if_neg hknown).trans ((if_neg hstarted).trans (if_neg hnumber))).symm

theorem recordWaveStatus_withoutWave {other : String} {producer : Producer} {status : WaveStatus}
    {payload : WaveLifecyclePayload} (hne : other ≠ waveId) :
    (state.recordWaveStatus other producer status payload).map (withoutWave waveId) =
      (state.withoutWave waveId).recordWaveStatus other producer status payload := by
  unfold recordWaveStatus
  by_cases hunknown : payload.shardIds.filter
      (fun shardId ↦ (state.shards.get? shardId).isNone) ≠ []
  · rw [if_pos hunknown]
    exact (if_pos hunknown).symm
  · rw [if_neg hunknown]
    refine Eq.trans ?_ (if_neg hunknown).symm
    have hget : (state.withoutWave waveId).waves.get? other = state.waves.get? other :=
      Dict.get?_erase_of_ne hne
    rw [hget]
    cases nextWave other producer status payload (state.waves.get? other) with
    | error error => rfl
    | ok wave =>
      simp [bind, Except.bind, pure, Except.pure, Except.map, withoutWave, Dict.erase_set_of_ne hne]

/-- An event that is not one of the wave acts on the state without it. -/
theorem applyEvent_withoutWave (hwave : event.ofWave waveId = false)
    (hresolves : ¬ Resolves waveId event) :
    (state.applyEvent event).map (withoutWave waveId) = (state.withoutWave waveId).applyEvent event := by
  cases hbody : event.body with
  | manualInterventionResolved payload =>
    have hne : waveId ∉ payload.waveIds := fun hmem ↦ hresolves ⟨payload, hbody, hmem⟩
    simp only [applyEvent, hbody, withoutWave]
    rw [← foldlM_closeRecovered_erase hne]
    cases payload.waveIds.foldlM closeRecovered state.waves with
    | error error => rfl
    | ok waves => rfl
  | run status payload =>
    simp only [applyEvent, hbody, recordRunStatus, withoutWave]
    cases state.runs.get? event.subjectId <;> rfl
  | shard status payload =>
    simp only [applyEvent, hbody, recordShardStatus, withoutWave]
    cases state.shards.get? event.subjectId <;> rfl
  | trial outcome payload =>
    simp only [applyEvent, hbody, recordTrialStatus, withoutWave]
    cases state.trials.get? event.subjectId <;> rfl
  | executionStarted payload =>
    simp only [applyEvent, hbody]
    exact startExecution_withoutWave
  | executionOutcome outcome payload =>
    simp only [applyEvent, hbody, finishExecution, withoutWave]
    cases state.executions.get? event.subjectId with
    | none => rfl
    | some execution =>
      simp only []
      split_ifs <;> rfl
  | wave status payload =>
    have hne : event.subjectId ≠ waveId := by simpa [CampaignEvent.ofWave, hbody] using hwave
    simp only [applyEvent, hbody]
    exact recordWaveStatus_withoutWave hne
  | _ =>
    simp only [applyEvent, hbody]
    rfl

theorem applyEvent_waves (hwave : event.ofWave waveId = false) (hresolves : ¬ Resolves waveId event)
    (h : state.applyEvent event = .ok next) : next.waves.get? waveId = state.waves.get? waveId := by
  cases applied_of_applyEvent h with
  | resolved payload waves hbody hwaves =>
    exact foldlM_closeRecovered_get? (fun hmem ↦ hresolves ⟨payload, hbody, hmem⟩) hwaves
  | wave status payload wave hbody hknown hnext =>
    have hne : event.subjectId ≠ waveId := by simpa [CampaignEvent.ofWave, hbody] using hwave
    exact Dict.get?_set_of_ne hne.symm
  | _ => rfl

theorem applyEvent_knows (hknows : state.Knows shardIds) (h : state.applyEvent event = .ok next) :
    next.Knows shardIds := by
  cases applied_of_applyEvent h with
  | shard status payload shard hbody hget =>
    intro shardId hshardId
    by_cases heq : shardId = event.subjectId
    · rw [heq, Dict.get?_set_self]
      rfl
    · rw [Dict.get?_set_of_ne heq]
      exact hknows shardId hshardId
  | _ => exact hknows

/-- An event of the wave acts on the wave alone. -/
theorem applyEvent_ofWave {status : WaveStatus} {payload : WaveLifecyclePayload}
    (hwave : event.ofWave waveId = true) (hbody : event.body = .wave status payload)
    (hknows : state.Knows payload.shardIds) :
    state.applyEvent event = (nextWave waveId event.producer status payload
      (state.waves.get? waveId)).map fun wave ↦
        { state with waves := state.waves.set waveId wave } := by
  obtain ⟨rfl, -⟩ := CampaignEvent.exists_of_ofWave hwave
  have hknown : ¬ payload.shardIds.filter
      (fun shardId ↦ (state.shards.get? shardId).isNone) ≠ [] := by
    rw [ne_eq, not_not, List.filter_eq_nil_iff]
    intro shardId hshardId
    simpa [Option.isSome_iff_ne_none] using hknows shardId hshardId
  simp only [applyEvent, hbody, recordWaveStatus, if_neg hknown]
  cases nextWave event.subjectId event.producer status payload
      (state.waves.get? event.subjectId) with
  | error error => rfl
  | ok wave => rfl

section Separation

variable {payload : WaveLifecyclePayload} {ordered : List CampaignEvent}

/-- The events of a wave and the others are separate. -/
theorem separate_applyEvent (hwave : ∀ event ∈ ordered, event.ofWave waveId = true →
      ∃ status, event.body = .wave status payload)
    (hresolves : ∀ event ∈ ordered, ¬ Resolves waveId event) :
    Separate applyEvent (fun event ↦ !event.ofWave waveId) (Knows payload.shardIds) ordered
      (withoutWave waveId) applyEvent (fun state ↦ state.waves.get? waveId) (waveStep waveId) where
  invariant state event next _ hknows h := applyEvent_knows hknows h
  kept state event hevent _ hkeep :=
    applyEvent_withoutWave (by simpa using hkeep) (hresolves event hevent)
  kept_frame state event next hevent _ hkeep h :=
    applyEvent_waves (by simpa using hkeep) (hresolves event hevent) h
  dropped state event hevent hknows hkeep := by
    have hof : event.ofWave waveId = true := by simpa using hkeep
    obtain ⟨status, hbody⟩ := hwave event hevent hof
    rw [applyEvent_ofWave hof hbody hknows]
    simp only [waveStep, hbody]
    cases nextWave waveId event.producer status payload (state.waves.get? waveId) with
    | error error => rfl
    | ok wave => simp [Except.map]
  dropped_frame state event next hevent hknows hkeep h := by
    have hof : event.ofWave waveId = true := by simpa using hkeep
    obtain ⟨status, hbody⟩ := hwave event hevent hof
    rw [applyEvent_ofWave hof hbody hknows] at h
    cases hnext : nextWave waveId event.producer status payload (state.waves.get? waveId) with
    | error error =>
      rw [hnext] at h
      cases h
    | ok wave =>
      rw [hnext] at h
      cases h
      simp [withoutWave, Dict.erase_set_self]

end Separation

/-- A log that was accepted without events of a wave recovers it nowhere by hand. -/
theorem not_resolves {lock : CampaignLock} {events : List CampaignEvent} {last : RecoveryState}
    (hwave : ∀ event ∈ events, event.ofWave waveId = false)
    (h : events.foldlM applyEvent (initialState lock) = .ok last) :
    ∀ event ∈ events, ¬ Resolves waveId event := by
  have hunobserved {state next : RecoveryState} {event : CampaignEvent}
      (hstate : state.waves.get? waveId = none) (hstep : state.applyEvent event = .ok next) :
      ¬ Resolves waveId event := by
    rintro ⟨payload, hbody, hmem⟩
    simp only [applyEvent, hbody] at hstep
    obtain ⟨waves, hwaves, -⟩ := bind_eq_ok.mp hstep
    exact foldlM_closeRecovered_unobserved hstate hwaves hmem
  intro event hevent
  obtain ⟨before, next, hbefore, hstep⟩ :=
    exists_step_of_mem (I := fun state ↦ state.waves.get? waveId = none) rfl
      (fun state other next hother hstate hstep ↦
        (applyEvent_waves (hwave other hother) (hunobserved hstate hstep) hstep).trans hstate)
      h hevent
  exact hunobserved hbefore hstep

end RecoveryState

/-! ### The fold over the events of a wave -/

section Follow

variable {waveId : String} {payload : WaveLifecyclePayload}

/-- The wave of a payload in a status. -/
def waveOf (waveId : String) (payload : WaveLifecyclePayload) (status : WaveStatus) :
    WaveProjection :=
  ⟨waveId, payload.deploymentDigest, payload.provider, payload.shardIds,
    payload.estimatedCostMicrousd, status⟩

theorem nextWave_waveOf {producer : Producer} {previous status : WaveStatus}
    {next : WaveProjection} :
    nextWave waveId producer status payload (some (waveOf waveId payload previous)) = .ok next ↔
      ∃ following, WaveMark.advance previous ⟨producer, status⟩ = some following ∧
        next = waveOf waveId payload following := by
  have hidentity : ¬ (waveOf waveId payload previous).identity ≠ payload := by
    simp [waveOf, WaveProjection.identity]
  unfold nextWave
  simp only [if_neg hidentity, WaveMark.advance]
  have hstatus : (waveOf waveId payload previous).status = previous := rfl
  rw [hstatus]
  by_cases hstale : staleReconcilerTransition producer previous status = true
  · simp [hstale, eq_comm]
  · by_cases hinvalid : status ≠ previous ∧ status ∉ previous.next
    · simp [hstale, validateWaveTransition, hinvalid, bind, Except.bind]
    · simp only [hstale, validateWaveTransition, if_neg hinvalid, bind, Except.bind, pure,
        Except.pure, Bool.false_eq_true, if_false, Except.ok.injEq, Option.some.injEq]
      constructor
      · rintro rfl
        exact ⟨status, rfl, rfl⟩
      · rintro ⟨following, rfl, rfl⟩
        rfl

theorem foldlM_waveStep_some {events : List CampaignEvent} {previous : WaveStatus}
    {last : Option WaveProjection}
    (hevents : ∀ event ∈ events, ∃ status, event.body = .wave status payload) :
    events.foldlM (RecoveryState.waveStep waveId) (some (waveOf waveId payload previous)) =
        .ok last ↔
      ∃ status, (events.filterMap CampaignEvent.mark?).foldlM WaveMark.advance previous =
        some status ∧ last = some (waveOf waveId payload status) := by
  induction events generalizing previous with
  | nil => simp [pure, Except.pure, eq_comm]
  | cons event rest ih =>
    obtain ⟨status, hbody⟩ := hevents event List.mem_cons_self
    have hrest := fun previous ↦
      @ih previous fun other hother ↦ hevents other (List.mem_cons_of_mem event hother)
    have hmark : event.mark? = some ⟨event.producer, status⟩ := by
      simp [CampaignEvent.mark?, hbody]
    rw [foldlM_cons_ok, List.filterMap_cons_some hmark, List.foldlM_cons, Option.bind_eq_bind]
    constructor
    · rintro ⟨next, hnext, hlast⟩
      simp only [RecoveryState.waveStep, hbody] at hnext
      cases hwave : nextWave waveId event.producer status payload
          (some (waveOf waveId payload previous)) with
      | error error =>
        rw [hwave] at hnext
        cases hnext
      | ok wave =>
        rw [hwave] at hnext
        cases hnext
        obtain ⟨following, hadvance, rfl⟩ := nextWave_waveOf.mp hwave
        obtain ⟨final, hfinal, rfl⟩ := (hrest following).mp hlast
        exact ⟨final, by rw [hadvance]; exact hfinal, rfl⟩
    · rintro ⟨final, hfinal, rfl⟩
      obtain ⟨following, hadvance, hfinal⟩ := Option.bind_eq_some_iff.mp hfinal
      have hwave : nextWave waveId event.producer status payload
          (some (waveOf waveId payload previous)) = .ok (waveOf waveId payload following) :=
        nextWave_waveOf.mpr ⟨following, hadvance, rfl⟩
      refine ⟨some (waveOf waveId payload following), ?_, (hrest following).mpr ⟨final, hfinal, rfl⟩⟩
      simp only [RecoveryState.waveStep, hbody, hwave]
      rfl

/-- The events of a wave are folded to the status that its history is followed to. -/
theorem foldlM_waveStep {events : List CampaignEvent} {wave : WaveProjection}
    (hevents : ∀ event ∈ events, ∃ status, event.body = .wave status payload) :
    events.foldlM (RecoveryState.waveStep waveId) none = .ok (some wave) ↔
      ∃ status, WaveMark.follow (events.filterMap CampaignEvent.mark?) = some status ∧
        wave = waveOf waveId payload status := by
  cases events with
  | nil => simp [pure, Except.pure, WaveMark.follow]
  | cons event rest =>
    obtain ⟨status, hbody⟩ := hevents event List.mem_cons_self
    have hmark : event.mark? = some ⟨event.producer, status⟩ := by
      simp [CampaignEvent.mark?, hbody]
    have hfirst : RecoveryState.waveStep waveId none event =
        .ok (some (waveOf waveId payload status)) := by
      simp only [RecoveryState.waveStep, hbody]
      rfl
    rw [List.foldlM_cons, hfirst, List.filterMap_cons_some hmark, WaveMark.follow]
    refine (foldlM_waveStep_some fun other hother ↦
      hevents other (List.mem_cons_of_mem event hother)).trans ?_
    simp

end Follow

/-! ### The derivations from the state -/

section Derived

variable [Jitter] {lock : CampaignLock} {waveId : String} {payload : WaveLifecyclePayload}
  {ordered : List CampaignEvent}

/-- The requests for retries are read next to the state without the wave. -/
theorem separate_legacyStep (hwave : ∀ event ∈ ordered, event.ofWave waveId = true →
      ∃ status, event.body = .wave status payload)
    (hresolves : ∀ event ∈ ordered, ¬ RecoveryState.Resolves waveId event) :
    Separate (legacyStep lock) (fun event ↦ !event.ofWave waveId)
      (fun progress ↦ progress.1.Knows payload.shardIds) ordered
      (fun progress ↦ (progress.1.withoutWave waveId, progress.2)) (legacyStep lock)
      (fun progress ↦ progress.1.waves.get? waveId) (RecoveryState.waveStep waveId) := by
  have hseparate := RecoveryState.separate_applyEvent hwave hresolves
  have hfound (state : RecoveryState) (shardId : String) :
      legacyGenerations lock (state.withoutWave waveId) shardId =
        legacyGenerations lock state shardId := rfl
  -- a step is what the event adds to the generations, then the event itself
  have hstep (progress : RecoveryState × Dict String (Dict String ℕ)) (event : CampaignEvent) :
      ∃ added, (∀ state : RecoveryState, (state = progress.1 ∨
          state = progress.1.withoutWave waveId) →
        legacyStep lock (state, progress.2) event = (added >>= fun generations ↦
          (state.applyEvent event).map fun next ↦ (next, generations))) ∧
        (event.ofWave waveId = true → added = .ok progress.2) := by
    cases hbody : event.body with
    | shardRetryRequested request =>
      refine ⟨(legacyGenerations lock progress.1 request.shardId).map
        (fun found ↦ progress.2.set event.eventId found), ?_, ?_⟩
      · rintro state (rfl | rfl)
        · simp only [legacyStep, hbody]
          cases legacyGenerations lock progress.1 request.shardId with
          | error error => rfl
          | ok found =>
            simp only [Except.map, bind, Except.bind]
            cases progress.1.applyEvent event <;> rfl
        · simp only [legacyStep, hbody, hfound]
          cases legacyGenerations lock progress.1 request.shardId with
          | error error => rfl
          | ok found =>
            simp only [Except.map, bind, Except.bind]
            cases (progress.1.withoutWave waveId).applyEvent event <;> rfl
      · simp [CampaignEvent.ofWave, hbody]
    | _ =>
      refine ⟨.ok progress.2, fun state _ ↦ ?_, fun _ ↦ rfl⟩
      simp only [legacyStep, hbody, bind, Except.bind]
      cases state.applyEvent event <;> rfl
  have hok {progress next : RecoveryState × Dict String (Dict String ℕ)} {event : CampaignEvent}
      (h : legacyStep lock progress event = .ok next) :
      progress.1.applyEvent event = .ok next.1 := by
    obtain ⟨added, hadded, -⟩ := hstep progress event
    rw [show progress = (progress.1, progress.2) from rfl, hadded progress.1 (.inl rfl)] at h
    obtain ⟨generations, -, hnext⟩ := bind_eq_ok.mp h
    cases happly : progress.1.applyEvent event with
    | error error =>
      rw [happly] at hnext
      cases hnext
    | ok state =>
      rw [happly] at hnext
      cases hnext
      rfl
  refine ⟨?_, ?_, ?_, ?_, ?_⟩
  · intro progress event next hevent hknows h
    exact hseparate.invariant progress.1 event next.1 hevent hknows (hok h)
  · intro progress event hevent hknows hkeep
    obtain ⟨added, hadded, -⟩ := hstep progress event
    have hview := hseparate.kept progress.1 event hevent hknows hkeep
    rw [hadded _ (.inr rfl), show progress = (progress.1, progress.2) from rfl,
      hadded progress.1 (.inl rfl), ← hview]
    cases added with
    | error error => rfl
    | ok generations => cases progress.1.applyEvent event <;> rfl
  · intro progress event next hevent hknows hkeep h
    exact hseparate.kept_frame progress.1 event next.1 hevent hknows hkeep (hok h)
  · intro progress event hevent hknows hkeep
    obtain ⟨added, hadded, hsame⟩ := hstep progress event
    have hview := hseparate.dropped progress.1 event hevent hknows hkeep
    rw [← hview, show progress = (progress.1, progress.2) from rfl, hadded progress.1 (.inl rfl),
      hsame (by simpa using hkeep)]
    cases progress.1.applyEvent event <;> rfl
  · intro progress event next hevent hknows hkeep h
    have happly := hok h
    have hframe := hseparate.dropped_frame progress.1 event next.1 hevent hknows hkeep happly
    obtain ⟨added, hadded, hsame⟩ := hstep progress event
    rw [show progress = (progress.1, progress.2) from rfl, hadded progress.1 (.inl rfl),
      hsame (by simpa using hkeep), happly] at h
    have hnext : (next.1, progress.2) = next := Except.ok.inj h
    have hsecond : progress.2 = next.2 := by
      rw [← hnext]
    rw [hframe, hsecond]

omit [Jitter] in
theorem requestStep_ofWave {trials : Dict String TrialProjection}
    {legacy : Dict String (Dict String ℕ)} {requestedAt : Dict (String × ℕ) ℕ}
    {event : CampaignEvent} (h : event.ofWave waveId = true) :
    requestStep lock trials legacy requestedAt event = .ok requestedAt := by
  obtain ⟨-, status, payload, hbody⟩ := CampaignEvent.exists_of_ofWave h
  simp [requestStep, hbody]

omit [Jitter] in
theorem any_legacyRetry_filter :
    (ordered.filter fun event ↦ !event.ofWave waveId).any CampaignEvent.legacyRetry =
      ordered.any CampaignEvent.legacyRetry := by
  rw [Bool.eq_iff_iff, List.any_eq_true, List.any_eq_true]
  constructor
  · rintro ⟨event, hevent, hlegacy⟩
    exact ⟨event, List.mem_of_mem_filter hevent, hlegacy⟩
  · rintro ⟨event, hevent, hlegacy⟩
    refine ⟨event, List.mem_filter.mpr ⟨hevent, ?_⟩, hlegacy⟩
    by_contra hwave
    obtain ⟨-, status, payload, hbody⟩ :=
      CampaignEvent.exists_of_ofWave (by simpa using hwave : event.ofWave waveId = true)
    simp [CampaignEvent.legacyRetry, hbody] at hlegacy

/-- The trials are reopened as without the wave. -/
theorem applyRetryRequests_filter {last : Option WaveProjection}
    {trials : Dict String TrialProjection} {retried : Dict String TrialProjection}
    (hknows : (initialState lock).Knows payload.shardIds)
    (hwave : ∀ event ∈ ordered, event.ofWave waveId = true →
      ∃ status, event.body = .wave status payload)
    (hresolves : ∀ event ∈ ordered, ¬ RecoveryState.Resolves waveId event)
    (hlast : (ordered.filter fun event ↦ event.ofWave waveId).foldlM
      (RecoveryState.waveStep waveId) none = .ok last)
    (h : applyRetryRequests lock (ordered.filter fun event ↦ !event.ofWave waveId) trials =
      .ok retried) : applyRetryRequests lock ordered trials = .ok retried := by
  rw [applyRetryRequests_eq, any_legacyRetry_filter] at h
  rw [applyRetryRequests_eq]
  obtain ⟨legacy, hlegacy, h⟩ := bind_eq_ok.mp h
  obtain ⟨requestedAt, hrequested, h⟩ := bind_eq_ok.mp h
  refine bind_eq_ok.mpr ⟨legacy, ?_, bind_eq_ok.mpr ⟨requestedAt, ?_, h⟩⟩
  · by_cases hany : ordered.any CampaignEvent.legacyRetry = true
    · rw [if_pos hany] at hlegacy ⊢
      obtain ⟨progress, hprogress, hsecond⟩ := bind_eq_ok.mp hlegacy
      have hwaves : (ordered.filter fun event ↦ !!event.ofWave waveId).foldlM
          (RecoveryState.waveStep waveId) none = .ok last := by
        simpa only [Bool.not_not] using hlast
      have hknows' :
          (initialState lock, ([] : Dict String (Dict String ℕ))).1.Knows payload.shardIds := hknows
      obtain ⟨merged, hmerged, hfirst, -⟩ :=
        (separate_legacyStep hwave hresolves).merge hknows' hprogress hwaves
      refine bind_eq_ok.mpr ⟨merged, hmerged, ?_⟩
      rw [← hsecond, ← hfirst]
    · rw [if_neg hany] at hlegacy ⊢
      exact hlegacy
  · rw [foldlM_filter (I := fun _ ↦ True) trivial (fun _ _ _ _ _ _ ↦ trivial) ?_]
    · exact hrequested
    · intro requestedAt event _ _ hkeep
      exact requestStep_ofWave (by simpa using hkeep)

end Derived

/-! ### Shards of the lock -/

theorem mem_keys_foldl_set {α υ : Type} {key : α → String} {value : α → υ} {id : String}
    {list : List α} {dict : Dict String υ} (h : id ∈ dict.keys ∨ ∃ entry ∈ list, key entry = id) :
    id ∈ Dict.keys (list.foldl (fun dict entry ↦ dict.set (key entry) (value entry)) dict) := by
  induction list generalizing dict with
  | nil => simpa using h
  | cons entry rest ih =>
    refine ih ?_
    rw [Dict.keys_set]
    rcases h with hmem | ⟨other, hother, rfl⟩
    · left
      split
      · exact hmem
      · exact List.mem_append_left _ hmem
    · rcases List.mem_cons.mp hother with rfl | hrest
      · left
        split
        · assumption
        · simp
      · exact .inr ⟨other, hrest, rfl⟩

theorem knows_initialState {lock : CampaignLock} {shardIds : List String}
    (h : ∀ shardId ∈ shardIds, ∃ shard ∈ lock.shards, shard.shardId = shardId) :
    (initialState lock).Knows shardIds := by
  intro shardId hshardId
  obtain ⟨shard, hshard, rfl⟩ := h shardId hshardId
  obtain ⟨run, hrun, hshard⟩ := List.mem_flatMap.mp hshard
  rw [Dict.get?_isSome_iff]
  refine mem_keys_foldl_set (.inr ⟨(run, shard), ?_, rfl⟩)
  exact List.mem_flatMap.mpr ⟨run, hrun, List.mem_map.mpr ⟨shard, hshard, rfl⟩⟩

/-! ### The histories of a wave merge -/

/-- A log with the events of a wave that a worker and the reconciler recorded. Its other events are
accepted without them. -/
structure WaveLog [Jitter] (lock : CampaignLock) (waveId : String)
    (log ordered : List CampaignEvent) : Prop where
  ordered_eq : orderedEvents log = .ok ordered
  others : ∃ projection,
    projectRecovery lock (log.filter fun event ↦ !event.ofWave waveId) = .ok projection
  payload : ∃ payload : WaveLifecyclePayload,
    (∀ shardId ∈ payload.shardIds, ∃ shard ∈ lock.shards, shard.shardId = shardId) ∧
      ∀ event ∈ log, event.ofWave waveId = true → ∃ status, event.body = .wave status payload
  marks : ∃ worker synthetic, WaveMark.WorkerMarks worker ∧
    (∀ mark ∈ synthetic, WaveMark.Synthetic mark) ∧
      (waveHistory waveId ordered).Perm (worker ++ synthetic)

/-- The log of a campaign with a wave is accepted, and the wave ends as its worker and the reconciler
left it, if and only if the events of the wave are within the campaign and in order. -/
theorem merges_iff [Jitter] {lock : CampaignLock} {waveId : String}
    {log ordered : List CampaignEvent} (h : WaveLog lock waveId log ordered) :
    (∃ projection wave, projectRecovery lock log = .ok projection ∧
        projection.waves.get? waveId = some wave ∧
        wave.status = WaveMark.expectedStatus (waveHistory waveId ordered)) ↔
      WithinCampaign (CampaignEvent.ofWave waveId) log ∧ WaveMark.InOrder (waveHistory waveId ordered) := by
  obtain ⟨projection, hprojection⟩ := h.others
  obtain ⟨payload, hshards, hpayload⟩ := h.payload
  obtain ⟨worker, synthetic, hworker, hsynthetic, hperm⟩ := h.marks
  have hmerged := WaveMark.merged_of_perm hworker hsynthetic hperm
  have hknows := knows_initialState hshards
  have hmem := mem_orderedEvents h.ordered_eq
  have hwave (event : CampaignEvent) (hevent : event ∈ ordered)
      (hof : event.ofWave waveId = true) : ∃ status, event.body = .wave status payload :=
    hpayload event ((hmem event).mp hevent) hof
  have hbodies (event : CampaignEvent)
      (hevent : event ∈ ordered.filter fun event ↦ event.ofWave waveId) :
      ∃ status, event.body = .wave status payload := by
    obtain ⟨hevent, hof⟩ := List.mem_filter.mp hevent
    exact hwave event hevent hof
  obtain ⟨others, state, trials, retried, shards, runs, hothers, hstate, htrials, hretried, hshard,
    hruns, -⟩ := (projectRecovery_eq_ok (orderedEvents_filter _ h.ordered_eq)).mp hprojection
  have hresolves : ∀ event ∈ ordered, ¬ RecoveryState.Resolves waveId event := by
    intro event hevent
    by_cases hof : event.ofWave waveId = true
    · rintro ⟨resolution, hbody, -⟩
      obtain ⟨status, hwavebody⟩ := hwave event hevent hof
      rw [hbody] at hwavebody
      cases hwavebody
    · refine RecoveryState.not_resolves ?_ hstate event
        (List.mem_filter.mpr ⟨hevent, by simpa using hof⟩)
      intro other hother
      simpa using (List.mem_filter.mp hother).2
  have hseparate := RecoveryState.separate_applyEvent hwave hresolves
  have hnot : (ordered.filter fun event ↦ !!event.ofWave waveId) =
      ordered.filter fun event ↦ event.ofWave waveId := by
    simp only [Bool.not_not]
  rw [← exists_projectCampaign_iff (fun _ ↦ CampaignEvent.subjectType_of_ofWave) h.ordered_eq hothers]
  constructor
  · rintro ⟨merged, wave, hmergedlog, hget, hstatus⟩
    obtain ⟨campaign, last, _, _, _, _, hcampaign, hlast, -, -, -, -, rfl⟩ :=
      (projectRecovery_eq_ok h.ordered_eq).mp hmergedlog
    refine ⟨⟨campaign, hcampaign⟩, hmerged.inOrder_of_follow ?_⟩
    obtain ⟨-, hfold⟩ := hseparate.parts hknows hlast
    rw [hnot, hget] at hfold
    obtain ⟨status, hfollow, rfl⟩ := (foldlM_waveStep hbodies).mp hfold
    rw [← hstatus]
    exact hfollow
  · rintro ⟨⟨campaign, hcampaign⟩, horder⟩
    have hfold : (ordered.filter fun event ↦ event.ofWave waveId).foldlM
        (RecoveryState.waveStep waveId) none = .ok (some (waveOf waveId payload
          (WaveMark.expectedStatus (waveHistory waveId ordered)))) :=
      (foldlM_waveStep hbodies).mpr ⟨_, hmerged.follow_of_inOrder horder, rfl⟩
    obtain ⟨last, hlast, hfirst, hsecond⟩ :=
      hseparate.merge hknows hstate (by rw [hnot]; exact hfold)
    subst hfirst
    have hmergedlog := (projectRecovery_eq_ok h.ordered_eq).mpr
      ⟨campaign, last, trials, retried, shards, runs, hcampaign, hlast, htrials,
        applyRetryRequests_filter hknows hwave hresolves hfold hretried, hshard, hruns, rfl⟩
    exact ⟨_, _, hmergedlog, hsecond, rfl⟩

/-- Histories in order merge: the log is accepted and the wave ends closed, or in the cleanup that
failed when it was not closed afterwards. -/
theorem merges_of_inOrder [Jitter] {lock : CampaignLock} {waveId : String}
    {log ordered : List CampaignEvent} (h : WaveLog lock waveId log ordered)
    (hwithin : WithinCampaign (CampaignEvent.ofWave waveId) log)
    (horder : WaveMark.InOrder (waveHistory waveId ordered)) :
    ∃ projection wave, projectRecovery lock log = .ok projection ∧
      projection.waves.get? waveId = some wave ∧
      wave.status = WaveMark.expectedStatus (waveHistory waveId ordered) :=
  (merges_iff h).mpr ⟨hwithin, horder⟩

/-! ### A wave of one shard -/

section Sample

local instance noJitter : Jitter := ⟨fun _ ↦ 0, zero_lt_byte⟩

/-- An event of the wave at a time. -/
def sampleEvent (observedAt : ℕ) (eventId : String) (mark : WaveMark) : CampaignEvent :=
  ⟨eventId, "wave", observedAt, mark.producer,
    .wave mark.status ⟨"deployment", "hf-inference-endpoints", ["shard"], 100⟩⟩

/-- Logs of events of the wave, which a worker and the reconciler recorded in this order. -/
theorem waveLog_sampleLog {events : List CampaignEvent} {worker synthetic : List WaveMark}
    (hsame : ∀ event ∈ events, ∃ observedAt eventId mark,
      event = sampleEvent observedAt eventId mark)
    (hordered : orderedEvents (sampleLog events) = .ok (sampleLog events))
    (hworker : WaveMark.WorkerMarks worker)
    (hsynthetic : ∀ mark ∈ synthetic, WaveMark.Synthetic mark)
    (hperm : (waveHistory "wave" (sampleLog events)).Perm (worker ++ synthetic)) :
    WaveLog endpointLock "wave" (sampleLog events) (sampleLog events) := by
  refine ⟨hordered, ?_, ⟨⟨"deployment", "hf-inference-endpoints", ["shard"], 100⟩, ?_, ?_⟩,
    worker, synthetic, hworker, hsynthetic, hperm⟩
  · have hothers : (sampleLog events).filter (fun event ↦ !event.ofWave "wave") = sampleLog [] := by
      unfold sampleLog
      rw [List.filter_cons_of_pos (by rfl), List.filter_eq_nil_iff.mpr]
      intro event hevent
      obtain ⟨observedAt, eventId, mark, rfl⟩ := hsame event hevent
      simp [sampleEvent, CampaignEvent.ofWave]
    rw [hothers]
    exact exists_ok_of_toBool (by decide +kernel)
  · decide +kernel
  · intro event hevent hwave
    rcases List.mem_cons.mp hevent with rfl | hevent
    · cases hwave
    · obtain ⟨observedAt, eventId, mark, rfl⟩ := hsame event hevent
      exact ⟨mark.status, rfl⟩

/-- The reconciler drains the wave while its worker runs. -/
def drainedInTime : List CampaignEvent :=
  [sampleEvent 5 "a" ⟨.waveController, .active⟩, sampleEvent 6 "b" ⟨.reconciler, .draining⟩,
    sampleEvent 7 "c" ⟨.waveController, .cleaning⟩, sampleEvent 8 "d" ⟨.waveController, .closed⟩,
    sampleEvent 9 "e" ⟨.reconciler, .closed⟩]

/-- The reconciler drains the wave before its worker starts. -/
def drainedEarly : List CampaignEvent :=
  [sampleEvent 3 "a" ⟨.reconciler, .draining⟩, sampleEvent 5 "b" ⟨.waveController, .active⟩,
    sampleEvent 7 "c" ⟨.waveController, .cleaning⟩, sampleEvent 8 "d" ⟨.waveController, .closed⟩]

/-- The reconciler begins to clean up after the worker's cleanup failed. -/
def cleanedAgain : List CampaignEvent :=
  [sampleEvent 5 "a" ⟨.waveController, .active⟩,
    sampleEvent 7 "b" ⟨.waveController, .cleanupFailed⟩,
    sampleEvent 9 "c" ⟨.reconciler, .cleaning⟩]

/-- A wave that is drained while its worker runs ends closed. -/
theorem drainedInTime_merges : ∃ projection wave,
    projectRecovery endpointLock (sampleLog drainedInTime) = .ok projection ∧
      projection.waves.get? "wave" = some wave ∧ wave.status = .closed := by
  have hperm : (waveHistory "wave" (sampleLog drainedInTime)).Perm
      ([⟨.waveController, .active⟩, ⟨.waveController, .cleaning⟩, ⟨.waveController, .closed⟩] ++
        [⟨.reconciler, .draining⟩, ⟨.reconciler, .closed⟩]) := by decide +kernel
  have hsynthetic : ∀ mark ∈ ([⟨.reconciler, .draining⟩, ⟨.reconciler, .closed⟩] : List WaveMark),
      WaveMark.Synthetic mark := by
    simp [WaveMark.Synthetic]
  have hmerged := WaveMark.merged_of_perm .cleaned hsynthetic hperm
  refine merges_of_inOrder (waveLog_sampleLog ?_ (by decide +kernel) .cleaned hsynthetic hperm)
    (by decide +kernel) (hmerged.inOrder_of_follow (by decide +kernel))
  simp only [drainedInTime, List.mem_cons, List.not_mem_nil, or_false]
  rintro event (rfl | rfl | rfl | rfl | rfl) <;> exact ⟨_, _, _, rfl⟩

/-- A wave that is drained before its worker starts blocks the campaign, and a failed cleanup that is
tried again is not what the wave ends in. -/
theorem drainedEarly_refused :
    (WaveLog endpointLock "wave" (sampleLog drainedEarly) (sampleLog drainedEarly) ∧
      projectRecovery endpointLock (sampleLog drainedEarly) =
        .error (.value "invalid wave transition: draining -> active")) ∧
    (WaveLog endpointLock "wave" (sampleLog cleanedAgain) (sampleLog cleanedAgain) ∧
      WaveMark.expectedStatus (waveHistory "wave" (sampleLog cleanedAgain)) = .cleanupFailed ∧
      ∃ projection wave, projectRecovery endpointLock (sampleLog cleanedAgain) = .ok projection ∧
        projection.waves.get? "wave" = some wave ∧ wave.status = .cleaning) := by
  have hdrain : ∀ mark ∈ ([⟨.reconciler, .draining⟩] : List WaveMark), WaveMark.Synthetic mark := by
    simp [WaveMark.Synthetic]
  have hclean : ∀ mark ∈ ([⟨.reconciler, .cleaning⟩] : List WaveMark), WaveMark.Synthetic mark := by
    simp [WaveMark.Synthetic]
  refine ⟨⟨waveLog_sampleLog ?_ (by decide +kernel) .cleaned hdrain (by decide +kernel),
    by decide +kernel⟩, waveLog_sampleLog ?_ (by decide +kernel) .failed hclean (by decide +kernel),
    by decide +kernel, ?_⟩
  · simp only [drainedEarly, List.mem_cons, List.not_mem_nil, or_false]
    rintro event (rfl | rfl | rfl | rfl) <;> exact ⟨_, _, _, rfl⟩
  · simp only [cleanedAgain, List.mem_cons, List.not_mem_nil, or_false]
    rintro event (rfl | rfl | rfl) <;> exact ⟨_, _, _, rfl⟩
  · obtain ⟨projection, hprojection⟩ : ∃ projection,
        projectRecovery endpointLock (sampleLog cleanedAgain) = .ok projection :=
      exists_ok_of_toBool (by decide +kernel)
    have hstatus : (projectRecovery endpointLock (sampleLog cleanedAgain)).map
        (fun projection ↦ (projection.waves.get? "wave").map WaveProjection.status) =
          .ok (some .cleaning) := by decide +kernel
    rw [hprojection] at hstatus
    obtain ⟨wave, hwave, hcleaning⟩ := Option.map_eq_some_iff.mp (Except.ok.inj hstatus)
    exact ⟨projection, wave, hprojection, hwave, hcleaning⟩

end Sample

end HarborHF.Campaign
