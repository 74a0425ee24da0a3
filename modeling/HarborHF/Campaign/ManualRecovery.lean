import HarborHF.Campaign.Admission
import HarborHF.Campaign.FailedCleanup
import HarborHF.Campaign.RetryRequests

/-!
# Manual recovery

An operator who has verified the cleanup of the failed waves resumes the campaign. The resolution
names the waves of every requirement that no resolution names yet, and every wave whose cleanup has
failed, while the status of the campaign follows the order of requirements and resolutions. The two
agree as long as no requirement is recorded behind a resolution that already names its wave: then the
resolution closes all waves and ends the manual intervention (`manualRecovery_effective`).
-/

set_option autoImplicit false

namespace HarborHF.Campaign

open Relational

/-! ### Requirements -/

namespace CampaignEvent

/-- The event requires a manual intervention for a wave. -/
def Requires (event : CampaignEvent) (waveId : String) : Prop :=
  ∃ payload, event.body = .manualInterventionRequired payload ∧ payload.parentId = some waveId ∧
    waveId ≠ ""

end CampaignEvent

section Requirements

variable {lock : CampaignLock} {state next : CampaignState} {event : CampaignEvent}
  {waveId : String}

theorem requirements_campaignStep (h : campaignStep lock state event = .ok next) :
    next.requirements = updateManualRequirements event state.requirements := by
  unfold campaignStep at h
  split at h
  · cases h
  split at h
  · rename_i hsubject
    cases h
    unfold updateManualRequirements
    unfold CampaignEvent.subjectType at hsubject
    cases hbody : event.body <;> simp_all
  · obtain ⟨applied, -, hsame⟩ := bind_eq_ok.mp h
    cases hsame
    rfl

/-- What an event requires is what it adds. -/
theorem mem_updateManualRequirements {requirements : List String}
    (hparent : ∀ payload, event.body = .manualInterventionRequired payload →
      ∃ waveId, event.Requires waveId) : waveId ∈ updateManualRequirements event requirements ↔
      event.Requires waveId ∨ (waveId ∈ requirements ∧ waveId ∉ event.resolvedWaveIds) := by
  unfold updateManualRequirements CampaignEvent.resolvedWaveIds
  cases hbody : event.body with
  | manualInterventionRequired payload =>
    obtain ⟨required, other, hother, hsome, hne⟩ := hparent payload hbody
    rw [hbody] at hother
    cases hother
    have hrequires : event.Requires waveId ↔ waveId = required := by
      constructor
      · rintro ⟨again, hagain, hid, -⟩
        rw [hbody] at hagain
        cases hagain
        rw [hsome] at hid
        exact (Option.some.inj hid).symm
      · rintro rfl
        exact ⟨payload, hbody, hsome, hne⟩
    simp only [hsome, if_neg hne, hrequires, List.not_mem_nil, not_false_eq_true, and_true]
    by_cases hmem : required ∈ requirements
    · rw [if_pos hmem]
      constructor
      · exact .inr
      · rintro (rfl | hold)
        · exact hmem
        · exact hold
    · rw [if_neg hmem, List.mem_append, List.mem_singleton, or_comm]
  | manualInterventionResolved payload => simp [CampaignEvent.Requires, hbody]
  | _ => simp [CampaignEvent.Requires, hbody]

/-- What is required at the end of a log was required by an event that nothing behind it resolves. -/
theorem mem_requirements_iff {events : List CampaignEvent}
    (hparent : ∀ event ∈ events, ∀ payload, event.body = .manualInterventionRequired payload →
      ∃ waveId, event.Requires waveId) (hstate : state.requirements = []) {last : CampaignState}
    (h : events.foldlM (campaignStep lock) state = .ok last) :
    waveId ∈ last.requirements ↔ ∃ before event after, events = before ++ event :: after ∧
      event.Requires waveId ∧ ∀ other ∈ after, waveId ∉ other.resolvedWaveIds := by
  induction events using List.reverseRecOn generalizing last with
  | nil =>
    cases h
    simp [hstate]
  | append_singleton rest latest ih =>
    obtain ⟨middle, hmiddle, hlast⟩ := foldlM_append_ok.mp h
    obtain ⟨next, hnext, hend⟩ := foldlM_cons_ok.mp hlast
    cases hend
    rw [requirements_campaignStep hnext,
      mem_updateManualRequirements (hparent latest (by simp)),
      ih (fun event hevent ↦ hparent event (by simp [hevent])) hmiddle]
    constructor
    · rintro (hrequires | ⟨⟨before, event, after, rfl, hrequires, hafter⟩, hlatest⟩)
      · exact ⟨rest, latest, [], rfl, hrequires, by simp⟩
      · refine ⟨before, event, after ++ [latest], by simp, hrequires, fun other hother ↦ ?_⟩
        rcases List.mem_append.mp hother with hmem | hmem
        · exact hafter other hmem
        · rw [List.mem_singleton.mp hmem]
          exact hlatest
    · rintro ⟨before, event, after, hsplit, hrequires, hafter⟩
      rcases List.eq_nil_or_concat after with rfl | ⟨front, final, rfl⟩
      · obtain ⟨-, hsame⟩ := List.append_inj' hsplit rfl
        rw [List.singleton_inj.mp hsame]
        exact .inl hrequires
      · have hsplit' : rest ++ [latest] = (before ++ event :: front) ++ [final] := by
          rw [hsplit]
          simp
        obtain ⟨rfl, hsame⟩ := List.append_inj' hsplit' rfl
        obtain rfl := List.singleton_inj.mp hsame
        exact .inr ⟨⟨before, event, front, rfl, hrequires, fun other hother ↦
          hafter other (by simp [hother])⟩, hafter latest (by simp)⟩

end Requirements

/-! ### The resolution -/

section Resolution

variable {lock : CampaignLock} {events ordered : List CampaignEvent} {event : CampaignEvent}
  {waves : Dict String WaveProjection}

/-- Waves that are closed or whose cleanup has failed can all be closed. -/
theorem exists_foldlM_closeRecovered {waveIds : List String}
    (h : ∀ waveId ∈ waveIds, ∃ wave, waves.get? waveId = some wave ∧
      (wave.status = .closed ∨ wave.status = .cleanupFailed)) :
    ∃ closed, waveIds.foldlM RecoveryState.closeRecovered waves = .ok closed ∧
      ∀ id, closed.get? id = (waves.get? id).map fun wave ↦
        if id ∈ waveIds then { wave with status := .closed } else wave := by
  induction waveIds generalizing waves with
  | nil => exact ⟨waves, rfl, by simp⟩
  | cons waveId rest ih =>
    obtain ⟨wave, hwave, hstatus⟩ := h waveId List.mem_cons_self
    -- closing one wave leaves the others as they are
    obtain ⟨next, hnext, hget⟩ : ∃ next, RecoveryState.closeRecovered waves waveId = .ok next ∧
        ∀ id, next.get? id = if id = waveId then some { wave with status := .closed }
          else waves.get? id := by
      unfold RecoveryState.closeRecovered
      rw [hwave]
      dsimp only
      by_cases hfailed : wave.status = .cleanupFailed
      · exact ⟨_, by rw [if_pos hfailed], fun id ↦ Dict.get?_set⟩
      · have hclosed := hstatus.resolve_right hfailed
        refine ⟨waves, by rw [if_neg hfailed, if_pos hclosed], fun id ↦ ?_⟩
        by_cases hid : id = waveId
        · rw [if_pos hid, hid, hwave, ← hclosed]
        · rw [if_neg hid]
    have hrest : ∀ id ∈ rest, ∃ wave, next.get? id = some wave ∧
        (wave.status = .closed ∨ wave.status = .cleanupFailed) := by
      intro id hid
      rw [hget]
      by_cases heq : id = waveId
      · rw [if_pos heq]
        exact ⟨_, rfl, .inl rfl⟩
      · rw [if_neg heq]
        exact h id (List.mem_cons_of_mem waveId hid)
    obtain ⟨closed, hclosed, hclosed'⟩ := ih hrest
    refine ⟨closed, foldlM_cons_ok.mpr ⟨next, hnext, hclosed⟩, fun id ↦ ?_⟩
    rw [hclosed', hget]
    by_cases heq : id = waveId
    · subst heq
      simp [hwave]
    · simp [heq]

/-- A campaign that leaves a manual intervention returns to the status it had before. -/
def returnStatus (previous : Option CampaignStatus) : CampaignStatus :=
  match previous with
  | some .cancelRequested => .cancelRequested
  | some .draining => .draining
  | _ => .active

theorem returnStatus_ne_queued {previous : Option CampaignStatus} :
    returnStatus previous ≠ .queued := by
  unfold returnStatus
  split <;> simp

theorem returnStatus_ne_manualIntervention {previous : Option CampaignStatus} :
    returnStatus previous ≠ .manualIntervention := by
  unfold returnStatus
  split <;> simp

theorem resolveManualIntervention_eq (previous : Option CampaignStatus) :
    resolveManualIntervention .manualIntervention previous = .ok (returnStatus previous) := by
  rcases previous with - | status
  · rfl
  · cases status <;> rfl

/-- A resolution that names everything that is required ends the manual intervention. -/
theorem campaignStep_resolved {state : CampaignState}
    {payload : ManualInterventionResolutionPayload}
    (hbody : event.body = .manualInterventionResolved payload)
    (hsubject : event.subjectId = lock.campaignId) (hstatus : state.status = .manualIntervention)
    (hall : ∀ waveId ∈ state.requirements, waveId ∈ payload.waveIds) :
    ∃ next, campaignStep lock state event = .ok next ∧
      next.status = returnStatus state.previous := by
  have hcampaign : event.subjectType = .campaign := by simp [CampaignEvent.subjectType, hbody]
  have hnone : updateManualRequirements event state.requirements = [] := by
    simp only [updateManualRequirements, hbody, List.filter_eq_nil_iff]
    simpa using hall
  have hprevious : manualReturnStatus event state.status state.previous = state.previous := by
    simp [manualReturnStatus, hbody]
  have happly : applyCampaignEvent lock event state.status state.actions state.previous false =
      .ok (returnStatus state.previous, state.actions) := by
    unfold applyCampaignEvent
    rw [if_neg (by simp [hcampaign, hsubject])]
    simp only [hbody, Bool.false_eq_true, if_false, hstatus, resolveManualIntervention_eq]
    rfl
  unfold campaignStep
  rw [if_neg (by simp [hstatus, CampaignStatus.terminal]), if_neg (by simp [hcampaign]), hnone,
    hprevious]
  exact ⟨_, bind_eq_ok.mpr ⟨_, happly, rfl⟩, rfl⟩

theorem mem_sortedSet {texts : List String} {text : String} :
    text ∈ sortedSet texts ↔ text ∈ texts := by
  unfold sortedSet
  rw [List.mem_insertionSort, List.mem_dedup]

/-- A log as it is written: the reconciler requires a manual intervention for a wave that it has
observed, and the identifier of a resolution stands for the waves that it names. -/
structure Operated [EventDigests] (lock : CampaignLock) (events : List CampaignEvent)
    (waves : Dict String WaveProjection) : Prop where
  requirements : ∀ event ∈ events, ∀ payload, event.body = .manualInterventionRequired payload →
    ∃ waveId, event.Requires waveId ∧ (waves.get? waveId).isSome = true
  identifiers : ∀ event ∈ events, ∀ required waveIds,
    event.eventId = "evt-" ++ resolutionIdentifier lock required waveIds →
      event.isResolution = true ∧ event.resolvedWaveIds = waveIds

/-- The event requires an intervention for a wave that no resolution names. -/
def Unresolved (events : List CampaignEvent) (event : CampaignEvent) (waveId : String) : Prop :=
  event.Requires waveId ∧ ∀ other ∈ events, waveId ∉ other.resolvedWaveIds

/-- What the resolver finds. -/
theorem exists_manualRecoveryRequirements
    (hparent : ∀ event ∈ ordered, ∀ payload, event.body = .manualInterventionRequired payload →
      ∃ waveId, event.Requires waveId)
    (hsome : ∃ event ∈ ordered, ∃ waveId, Unresolved ordered event waveId) :
    ∃ required waveIds, manualRecoveryRequirements ordered = .ok (required, waveIds) ∧
      ∀ waveId, waveId ∈ waveIds ↔ ∃ event ∈ ordered, Unresolved ordered event waveId := by
  -- the events that are still required, and their waves
  have hkept (event : CampaignEvent) (waveId : String) (hrequires : event.Requires waveId) :
      event.stillRequired (ordered.flatMap CampaignEvent.resolvedWaveIds) = true ↔
        ∀ other ∈ ordered, waveId ∉ other.resolvedWaveIds := by
    obtain ⟨payload, hbody, hid, -⟩ := hrequires
    simp [CampaignEvent.stillRequired, CampaignEvent.requirement?, hbody, hid]
  have hmem (waveId : String) : waveId ∈ requiredWaveIds
      (ordered.filter (CampaignEvent.stillRequired
        (ordered.flatMap CampaignEvent.resolvedWaveIds))) ↔
      ∃ event ∈ ordered, Unresolved ordered event waveId := by
    rw [requiredWaveIds, mem_sortedSet, List.mem_filterMap]
    constructor
    · rintro ⟨event, hevent, hid⟩
      obtain ⟨hevent, hkeep⟩ := List.mem_filter.mp hevent
      obtain ⟨payload, hpayload, hid⟩ := Option.bind_eq_some_iff.mp hid
      have hbody : event.body = .manualInterventionRequired payload := by
        unfold CampaignEvent.requirement? at hpayload
        split at hpayload
        · rename_i hbody
          cases hpayload
          exact hbody
        · cases hpayload
      obtain ⟨required, hrequires⟩ := hparent event hevent payload hbody
      obtain rfl : required = waveId := by
        obtain ⟨other, hother, hsame, -⟩ := hrequires
        rw [hbody] at hother
        cases hother
        rw [hid] at hsame
        exact (Option.some.inj hsame).symm
      exact ⟨event, hevent, hrequires, (hkept event required hrequires).mp hkeep⟩
    · rintro ⟨event, hevent, hrequires, hnone⟩
      refine ⟨event, List.mem_filter.mpr ⟨hevent, ?_⟩, ?_⟩
      · exact (hkept event waveId hrequires).mpr hnone
      · obtain ⟨payload, hbody, hid, -⟩ := hrequires
        simp [CampaignEvent.requirement?, hbody, hid]
  obtain ⟨event, hevent, waveId, hunresolved⟩ := hsome
  have hwaves := (hmem waveId).mpr ⟨event, hevent, hunresolved⟩
  have hrequired : event ∈ ordered.filter (CampaignEvent.stillRequired
      (ordered.flatMap CampaignEvent.resolvedWaveIds)) :=
    List.mem_filter.mpr ⟨hevent, (hkept event waveId hunresolved.1).mpr hunresolved.2⟩
  refine ⟨ordered.filter (CampaignEvent.stillRequired
    (ordered.flatMap CampaignEvent.resolvedWaveIds)), _, ?_, hmem⟩
  unfold manualRecoveryRequirements
  dsimp only
  rw [if_neg (List.ne_nil_of_mem hrequired), if_neg (List.ne_nil_of_mem hwaves)]

/-- A resolution is new, comes behind all events, and names what is required and what has failed. -/
theorem exists_resolutionEvent [Jitter] [EventDigests] {projection : RecoveryProjection}
    {reason : String} {clock : ℕ} (h : projectRecovery lock events = .ok projection)
    (hordered : orderedEvents events = .ok ordered)
    (hstatus : projection.campaign.status = .manualIntervention)
    (hwaves : ∀ wave ∈ projection.waves.values,
      wave.status = .closed ∨ wave.status = .cleanupFailed)
    (hoperated : Operated lock events projection.waves)
    (hrecorded : ∃ event ∈ events, ∃ waveId, Unresolved events event waveId) :
    ∃ waveIds observedAt identifier,
      durableManualInterventionResolutionEvent lock events reason true clock =
        .ok (newEvent lock (.manualInterventionResolved ⟨waveIds, some reason⟩) observedAt
          identifier, true) ∧
      (∀ other ∈ events, other.eventId ≠ "evt-" ++ identifier) ∧
      (∀ other ∈ events, other.observedAt < observedAt) ∧
      ∀ waveId, waveId ∈ waveIds ↔
        (∃ event ∈ events, Unresolved events event waveId) ∨ Failed projection.waves waveId := by
  have hconsistent := Consistent.of_projectRecovery h
  have hmem := mem_orderedEvents hordered
  have hunresolved (event : CampaignEvent) (waveId : String) :
      Unresolved ordered event waveId ↔ Unresolved events event waveId := by
    unfold Unresolved
    simp only [hmem]
  obtain ⟨required, requiredIds, hrequired, hids⟩ := exists_manualRecoveryRequirements
    (fun event hevent payload hbody ↦ by
      obtain ⟨waveId, hrequires, -⟩ :=
        hoperated.requirements event ((hmem event).mp hevent) payload hbody
      exact ⟨waveId, hrequires⟩)
    (by simpa only [hmem, hunresolved] using hrecorded)
  simp only [hmem, hunresolved] at hids
  have hfailed (waveId : String) :
      waveId ∈ (projection.waves.values.filter fun wave ↦ wave.status = .cleanupFailed).map
        WaveProjection.waveId ↔ Failed projection.waves waveId := by
    rw [List.mem_map]
    constructor
    · rintro ⟨wave, hwave, rfl⟩
      obtain ⟨hwave, hstatus⟩ := List.mem_filter.mp hwave
      obtain ⟨id, hid⟩ := Dict.exists_get?_of_mem_values hconsistent.waveKeys hwave
      rw [(hconsistent.waves id wave hid).1]
      exact ⟨wave, hid, by simpa using hstatus⟩
    · rintro ⟨wave, hwave, hstatus⟩
      refine ⟨wave, List.mem_filter.mpr ⟨Dict.mem_values_of_get?_eq_some hwave, ?_⟩, ?_⟩
      · simpa using hstatus
      · exact (hconsistent.waves waveId wave hwave).1
  obtain ⟨waveIds, hwaveIds⟩ : ∃ waveIds, waveIds = sortedSet (requiredIds ++
      (projection.waves.values.filter fun wave ↦ wave.status = .cleanupFailed).map
        WaveProjection.waveId) := ⟨_, rfl⟩
  have hnames (waveId : String) : waveId ∈ waveIds ↔
      (∃ event ∈ events, Unresolved events event waveId) ∨ Failed projection.waves waveId := by
    rw [hwaveIds, mem_sortedSet, List.mem_append, hids, hfailed]
  -- a resolution with the identifier would have resolved what is required
  have hfresh : ∀ other ∈ events,
      other.eventId ≠ "evt-" ++ resolutionIdentifier lock required waveIds := by
    intro other hother hid
    obtain ⟨-, hresolved⟩ := hoperated.identifiers other hother required waveIds hid
    obtain ⟨event, hevent, waveId, hopen⟩ := hrecorded
    refine hopen.2 other hother ?_
    rw [hresolved, hnames]
    exact .inl ⟨event, hevent, hopen⟩
  have hfind : (ordered.find? fun event ↦
      event.eventId = "evt-" ++ resolutionIdentifier lock required waveIds) = none := by
    rw [List.find?_eq_none]
    intro other hother
    simpa using hfresh other ((hmem other).mp hother)
  have hvalid : validateManualRecoveryWaves projection waveIds = .ok () := by
    unfold validateManualRecoveryWaves
    rw [if_neg]
    rw [Bool.not_eq_true, List.any_eq_false]
    intro waveId hwaveId
    have hsome : (projection.waves.get? waveId).isSome = true := by
      rcases (hnames waveId).mp hwaveId with ⟨event, hevent, hrequires, -⟩ | ⟨wave, hwave, -⟩
      · obtain ⟨payload, hbody, hparent, -⟩ := hrequires
        obtain ⟨other, ⟨again, hagain, hsame, -⟩, hknown⟩ :=
          hoperated.requirements event hevent payload hbody
        rw [hbody] at hagain
        cases hagain
        rw [hparent] at hsame
        rw [Option.some.inj hsame]
        exact hknown
      · rw [hwave]
        rfl
    obtain ⟨wave, hwave⟩ := Option.isSome_iff_exists.mp hsome
    rcases hwaves wave (Dict.mem_values_of_get?_eq_some hwave) with hclosed | hfailed
    · simp [hwave, hclosed]
    · simp [hwave, hfailed]
  refine ⟨waveIds, max clock ((ordered.map CampaignEvent.observedAt).max?.getD 0 + 1),
    resolutionIdentifier lock required waveIds, ?_, hfresh, fun other hother ↦ ?_, hnames⟩
  · unfold durableManualInterventionResolutionEvent
    rw [if_neg (by simp), hordered, h]
    simp only [bind, Except.bind, hstatus, ne_eq, not_true_eq_false, if_false, hrequired]
    rw [← hwaveIds, hfind]
    simp only [hvalid]
    rfl
  · have hle : other.observedAt ≤ (ordered.map CampaignEvent.observedAt).max?.getD 0 :=
      List.le_max?_getD_of_mem (List.mem_map_of_mem ((hmem other).mpr hother))
    exact (Nat.lt_succ_of_le hle).trans_le (le_max_right clock _)

/-- A resolution at the end of a log requests no retry. -/
theorem applyRetryRequests_concat [Jitter] {payload : ManualInterventionResolutionPayload}
    {trials retried : Dict String TrialProjection} {state next : RecoveryState}
    (hbody : event.body = .manualInterventionResolved payload)
    (hstate : ordered.foldlM RecoveryState.applyEvent (initialState lock) = .ok state)
    (hnext : state.applyEvent event = .ok next)
    (h : applyRetryRequests lock ordered trials = .ok retried) :
    applyRetryRequests lock (ordered ++ [event]) trials = .ok retried := by
  have hnot : event.isRetryRequest = false := by simp [CampaignEvent.isRetryRequest, hbody]
  have hany : (ordered ++ [event]).any CampaignEvent.legacyRetry =
      ordered.any CampaignEvent.legacyRetry := by
    simp [List.any_append, CampaignEvent.legacyRetry, hbody]
  have hstep (legacy : Dict String (Dict String ℕ)) :
      (ordered ++ [event]).foldlM (requestStep lock trials legacy) [] =
        ordered.foldlM (requestStep lock trials legacy) [] := by
    rw [foldlM_insert_of_skip fun requestedAt ↦ requestStep_eq_ok.mpr (.inl ⟨hnot, rfl⟩),
      List.append_nil]
  rw [applyRetryRequests_eq] at h ⊢
  rw [hany]
  obtain ⟨legacy, hlegacy, hrest⟩ := bind_eq_ok.mp h
  refine bind_eq_ok.mpr ⟨legacy, ?_, by rw [hstep, hrest]⟩
  split_ifs at hlegacy ⊢
  · -- the pass over the old requests ends with the resolution
    obtain ⟨progress, hprogress, hsame⟩ := bind_eq_ok.mp hlegacy
    cases hsame
    have hcurrent := foldlM_legacyStep_state hprogress
    rw [hstate] at hcurrent
    refine bind_eq_ok.mpr ⟨(next, progress.2), foldlM_append_ok.mpr ⟨progress, hprogress,
      foldlM_cons_ok.mpr ⟨_, legacyStep_eq_ok.mpr ⟨next, ?_, .inl ⟨hnot, rfl⟩⟩, rfl⟩⟩, rfl⟩
    rw [← Except.ok.inj hcurrent, hnext]
  · exact hlegacy

/-- The status to which the campaign returns. -/
def previousStatus (lock : CampaignLock) (events : List CampaignEvent) :
    Except CampaignError (Option CampaignStatus) := do
  let ordered ← orderedEvents events
  let state ← ordered.tail.foldlM (campaignStep lock) ⟨.queued, none, [], []⟩
  return state.previous

/-- A campaign is in a manual intervention while a requirement of it is unresolved. -/
theorem manualIntervention_of_unresolved [EventDigests]
    {first : CampaignEvent} {rest : List CampaignEvent} {last : CampaignState}
    (hmem : ∀ other, other ∈ first :: rest ↔ other ∈ events) (hsubmits : Submits lock first)
    (hlast : rest.foldlM (campaignStep lock) ⟨.queued, none, [], []⟩ = .ok last)
    (hopen : last.status.terminal = false) (hoperated : Operated lock events waves)
    (hrecorded : ∃ event ∈ events, ∃ waveId, Unresolved events event waveId) :
    last.status = .manualIntervention := by
  have htracked : last.Tracked := tracked_foldlM hlast (by simp [CampaignState.Tracked])
  obtain ⟨required, hrequired, waveId, hrequires, hnone⟩ := hrecorded
  have hbehind : required ∈ rest := by
    rcases List.mem_cons.mp ((hmem required).mpr hrequired) with rfl | hbehind
    · obtain ⟨payload, hbody, -⟩ := hrequires
      rw [hsubmits.1] at hbody
      cases hbody
    · exact hbehind
  obtain ⟨before, after, hsplit⟩ := List.append_of_mem hbehind
  have hwaveId : waveId ∈ last.requirements := by
    rw [mem_requirements_iff (fun event hevent payload hbody ↦ ?_) rfl hlast]
    · refine ⟨before, required, after, hsplit, hrequires, fun other hother ↦ ?_⟩
      refine hnone other ((hmem other).mp (List.mem_cons_of_mem first ?_))
      simp [hsplit, hother]
    · obtain ⟨waveId, hrequires, -⟩ := hoperated.requirements event
        ((hmem event).mp (List.mem_cons_of_mem first hevent)) payload hbody
      exact ⟨waveId, hrequires⟩
  exact (htracked hopen).mpr (List.ne_nil_of_mem hwaveId)

/-- What is still required is unresolved, or was resolved before and has failed. -/
theorem unresolved_or_failed [EventDigests]
    {first : CampaignEvent} {rest : List CampaignEvent} {last : CampaignState}
    (hordered : orderedEvents events = .ok (first :: rest))
    (hlast : rest.foldlM (campaignStep lock) ⟨.queued, none, [], []⟩ = .ok last)
    (hoperated : Operated lock events waves)
    (hinOrder : ∀ resolution ∈ events, ∀ required ∈ events, ∀ waveId,
      waveId ∈ resolution.resolvedWaveIds → required.Requires waveId →
        Earlier resolution required → Failed waves waveId) {waveId : String}
    (hwaveId : waveId ∈ last.requirements) :
    (∃ event ∈ events, Unresolved events event waveId) ∨ Failed waves waveId := by
  have hmem := mem_orderedEvents hordered
  rw [mem_requirements_iff (fun event hevent payload hbody ↦ ?_) rfl hlast] at hwaveId
  · obtain ⟨before, required, after, rfl, hrequires, hafter⟩ := hwaveId
    have hrequired : required ∈ events := (hmem required).mp (by simp)
    by_cases hresolved : ∃ resolution ∈ events, waveId ∈ resolution.resolvedWaveIds
    · obtain ⟨resolution, hresolution, hnamed⟩ := hresolved
      refine .inr (hinOrder resolution hresolution required hrequired waveId hnamed hrequires ?_)
      have hsorted := pairwise_orderedEvents hordered
      have hplace := (hmem resolution).mpr hresolution
      rw [← List.cons_append] at hsorted hplace
      rcases List.mem_append.mp hplace with hbefore | hbehind
      · exact (List.pairwise_append.mp hsorted).2.2 resolution hbefore required List.mem_cons_self
      · rcases List.mem_cons.mp hbehind with rfl | hlater
        · obtain ⟨payload, hbody, -⟩ := hrequires
          simp [CampaignEvent.resolvedWaveIds, hbody] at hnamed
        · exact absurd hnamed (hafter resolution hlater)
    · refine .inl ⟨required, hrequired, hrequires, fun other hother hnamed ↦ ?_⟩
      exact hresolved ⟨other, hother, hnamed⟩
  · obtain ⟨waveId, hrequires, -⟩ := hoperated.requirements event
      ((hmem event).mp (List.mem_cons_of_mem first hevent)) payload hbody
    exact ⟨waveId, hrequires⟩

/-- A wave for which an intervention is required was observed. -/
theorem Operated.isSome [EventDigests] (h : Operated lock events waves) {waveId : String}
    (hnamed : (∃ event ∈ events, Unresolved events event waveId) ∨ Failed waves waveId) :
    (waves.get? waveId).isSome = true := by
  rcases hnamed with ⟨event, hevent, hrequires, -⟩ | ⟨wave, hwave, -⟩
  · obtain ⟨payload, hbody, hparent, -⟩ := hrequires
    obtain ⟨other, ⟨again, hagain, hsame, -⟩, hknown⟩ :=
      h.requirements event hevent payload hbody
    rw [hbody] at hagain
    cases hagain
    rw [hparent] at hsame
    rw [Option.some.inj hsame]
    exact hknown
  · rw [hwave]
    rfl

/-- Manual recovery is possible and ends the manual intervention, as long as some requirement is
unresolved and none was recorded behind a resolution of its wave. -/
theorem manualRecovery_effective [Jitter] [EventDigests] {projection : RecoveryProjection}
    {reason : String} {clock : ℕ} (h : projectRecovery lock events = .ok projection)
    (hstatus : projection.campaign.status = .manualIntervention)
    (hwaves : ∀ wave ∈ projection.waves.values,
      wave.status = .closed ∨ wave.status = .cleanupFailed)
    (hoperated : Operated lock events projection.waves)
    (hrecorded : ∃ event ∈ events, ∃ waveId, Unresolved events event waveId)
    (hinOrder : ∀ resolution ∈ events, ∀ required ∈ events, ∀ waveId,
      waveId ∈ resolution.resolvedWaveIds → required.Requires waveId →
        Earlier resolution required → Failed projection.waves waveId) : ∃ event next,
      durableManualInterventionResolutionEvent lock events reason true clock = .ok (event, true) ∧
      event ∉ events ∧ projectRecovery lock (events ++ [event]) = .ok next ∧
      (∀ wave ∈ next.waves.values, wave.status ≠ .cleanupFailed) ∧
      next.campaign.status ≠ .manualIntervention ∧
      (previousStatus lock events = .ok (some .cancelRequested) →
        next.campaign.status = .cancelRequested) ∧
      (previousStatus lock events = .ok (some .draining) → next.campaign.status = .draining) ∧
      ((∃ other ∈ events, other.isCancellation = true) →
        next.campaign.status = .cancelRequested ∨ next.campaign.status = .draining) := by
  obtain ⟨ordered, hordered⟩ := exists_orderedEvents h
  obtain ⟨waveIds, observedAt, identifier, hnew, hfresh, hlate, hnames⟩ :=
    exists_resolutionEvent h hordered hstatus hwaves hoperated hrecorded
  obtain ⟨event, hevent⟩ : ∃ event, event = newEvent lock
      (.manualInterventionResolved ⟨waveIds, some reason⟩) observedAt identifier := ⟨_, rfl⟩
  rw [← hevent] at hnew
  have hbody : event.body = .manualInterventionResolved ⟨waveIds, some reason⟩ := by rw [hevent]; rfl
  have hsubject : event.subjectId = lock.campaignId := by rw [hevent]; rfl
  have hid : ∀ other ∈ events, other.eventId ≠ event.eventId := by rw [hevent]; exact hfresh
  have hextended := orderedEvents_concat_last hordered hid (by rw [hevent]; exact hlate)
  obtain ⟨campaign, state, trials, retried, shards, runs, hcampaign, hstate, htrials, hretried,
    hshards, hruns, rfl⟩ := (projectRecovery_eq_ok hordered).mp h
  dsimp only at hstatus hwaves hoperated hinOrder hnames
  obtain ⟨first, rest, last, rfl, hsubmits, hlast, rfl⟩ :=
    (projectCampaign_eq_ok hordered).mp hcampaign
  have hopen : last.status.terminal = false := by
    rcases observedStatus_eq_or last.status state with heq | ⟨hfalse, -⟩ | ⟨hqueued, -⟩
    · rw [heq] at hstatus
      rw [hstatus]
      rfl
    · exact hfalse
    · rw [hqueued]
      rfl
  have hmanual := manualIntervention_of_unresolved (mem_orderedEvents hordered) hsubmits hlast hopen
    hoperated hrecorded
  have hall : ∀ waveId ∈ last.requirements, waveId ∈ waveIds := fun waveId hwaveId ↦
    (hnames waveId).mpr (unresolved_or_failed hordered hlast hoperated hinOrder hwaveId)
  obtain ⟨next, hnext, hreturn⟩ := campaignStep_resolved hbody hsubject hmanual hall
  -- the resolution closes the waves
  obtain ⟨closed, hclosed, hget⟩ : ∃ closed,
      waveIds.foldlM RecoveryState.closeRecovered state.waves = .ok closed ∧
        ∀ id, closed.get? id = (state.waves.get? id).map fun wave ↦
          if id ∈ waveIds then { wave with status := .closed } else wave := by
    refine exists_foldlM_closeRecovered fun waveId hwaveId ↦ ?_
    obtain ⟨wave, hwave⟩ :=
      Option.isSome_iff_exists.mp (hoperated.isSome ((hnames waveId).mp hwaveId))
    exact ⟨wave, hwave, hwaves wave (Dict.mem_values_of_get?_eq_some hwave)⟩
  have happly : state.applyEvent event = .ok { state with waves := closed } := by
    simp only [RecoveryState.applyEvent, hbody, hclosed]
    rfl
  have hnone : ∀ wave ∈ closed.values, wave.status ≠ .cleanupFailed := by
    intro wave hwave hfailed
    have hnodup : closed.keys.Nodup := by
      rw [keys_of_closeRecovered hclosed]
      exact (RecoveryState.Kept.run hstate).waveKeys
    obtain ⟨id, hclosed'⟩ := Dict.exists_get?_of_mem_values hnodup hwave
    rw [hget] at hclosed'
    obtain ⟨before, hbefore, rfl⟩ := Option.map_eq_some_iff.mp hclosed'
    by_cases hnamed : id ∈ waveIds
    · simp [hnamed] at hfailed
    · rw [if_neg hnamed] at hfailed
      exact hnamed ((hnames id).mpr (.inr ⟨before, hbefore, hfailed⟩))
  have hfold : (rest ++ [event]).foldlM (campaignStep lock) ⟨.queued, none, [], []⟩ = .ok next :=
    foldlM_append_ok.mpr ⟨last, hlast, foldlM_cons_ok.mpr ⟨next, hnext, rfl⟩⟩
  have hproject := (projectCampaign_eq_ok hextended).mpr
    ⟨first, rest ++ [event], next, rfl, hsubmits, hfold, rfl⟩
  have hstate' : (first :: rest ++ [event]).foldlM RecoveryState.applyEvent (initialState lock) =
      .ok { state with waves := closed } :=
    foldlM_append_ok.mpr ⟨state, hstate, foldlM_cons_ok.mpr ⟨_, happly, rfl⟩⟩
  refine ⟨event, _, hnew, fun hmem ↦ hid event hmem rfl,
    (projectRecovery_eq_ok hextended).mpr ⟨_, _, trials, retried, shards, runs, hproject, hstate',
      htrials, applyRetryRequests_concat hbody hstate happly hretried, hshards, hruns, rfl⟩,
    hnone, ?_⟩
  have hfinal : observedStatus next.status { state with waves := closed } =
      returnStatus last.previous := by
    have hany : (closed.values.any fun wave ↦ wave.status = .cleanupFailed) = false := by
      simpa using hnone
    unfold observedStatus
    simp only [hany, Bool.false_eq_true, and_false, if_false, hreturn]
    rw [if_neg fun hqueued ↦ returnStatus_ne_queued hqueued.1]
  have hprevious : previousStatus lock events = .ok last.previous := by
    unfold previousStatus
    exact bind_eq_ok.mpr ⟨first :: rest, hordered, bind_eq_ok.mpr ⟨last, hlast, rfl⟩⟩
  dsimp only
  rw [hfinal, hprevious]
  refine ⟨returnStatus_ne_manualIntervention, ?_, ?_, ?_⟩
  · intro heq
    rw [Except.ok.inj heq]
    rfl
  · intro heq
    rw [Except.ok.inj heq]
    rfl
  · rintro ⟨other, hother, hcancellation⟩
    obtain ⟨reason, hreason⟩ : ∃ reason, other.body = .cancelRequested reason := by
      unfold CampaignEvent.isCancellation at hcancellation
      split at hcancellation
      · exact ⟨_, ‹_›⟩
      · cases hcancellation
    have hbehind : other ∈ rest := by
      rcases List.mem_cons.mp ((mem_orderedEvents hordered other).mpr hother) with rfl | hbehind
      · rw [hsubmits.1] at hreason
        cases hreason
      · exact hbehind
    have hdown := windsDown_foldlM hlast (by simp [CampaignState.Tracked]) hbehind hreason
    unfold CampaignState.WindsDown at hdown
    simp only [hmanual, reduceCtorEq, CampaignStatus.terminal, Bool.false_eq_true, true_and,
      false_or] at hdown
    rcases hdown with heq | heq
    · rw [heq]
      exact .inl rfl
    · rw [heq]
      exact .inr rfl

end Resolution

/-! ### What the reconciler requires -/

section Plans

variable [Jitter] [ActionKeys] {lock : CampaignLock} {events : List CampaignEvent}
  {context : ReconcileContext} {now : ℕ} {projection : RecoveryProjection} {plan : ReconcilePlan}

end Plans

/-! ### Unrecorded and late requirements -/

section Refused

local instance recoveryJitter : Jitter := ⟨fun _ ↦ 0, zero_lt_byte⟩

local instance recoveryDigests : EventDigests := ⟨fun text ↦ text⟩

/-- A wave whose cleanup has failed. -/
def failedWave (eventId waveId : String) (observedAt : ℕ) : CampaignEvent :=
  ⟨eventId, waveId, observedAt, .waveController,
    .wave .cleanupFailed ⟨"deployment", "hf-inference-endpoints", ["shard"], 100⟩⟩

/-- The reconciler requires a manual intervention for a wave. -/
def requiredFor (eventId waveId : String) (observedAt : ℕ) : CampaignEvent :=
  ⟨eventId, "campaign", observedAt, .reconciler,
    .manualInterventionRequired ⟨some waveId, none⟩⟩

/-- The cleanup of a wave has failed, and the requirement is recorded. -/
def requiredLog : List CampaignEvent :=
  sampleLog [failedWave "failed" "wave" 1, requiredFor "required" "wave" 2]

/-- The cleanup of a wave has failed, and the requirement is not recorded yet. -/
def unrecordedLog : List CampaignEvent := sampleLog [failedWave "failed" "wave" 1]

/-- Two waves are resolved for the requirement of the first, and that of the second comes late. -/
def lateLog : List CampaignEvent :=
  sampleLog [failedWave "failed" "wave" 1, failedWave "other" "wave-2" 2,
    requiredFor "required" "wave" 3,
    ⟨"evt-campaign:required:wave,wave-2:resolved", "campaign", 4, .cli,
      .manualInterventionResolved ⟨["wave", "wave-2"], some "verified"⟩⟩,
    requiredFor "required-2" "wave-2" 5]

/-- The recovery is possible once the requirement is recorded. -/
theorem manualRecovery_effective_required : ∃ event next,
    durableManualInterventionResolutionEvent endpointLock requiredLog "verified" true 9 =
        .ok (event, true) ∧
      event ∉ requiredLog ∧ projectRecovery endpointLock (requiredLog ++ [event]) = .ok next ∧
      (∀ wave ∈ next.waves.values, wave.status ≠ .cleanupFailed) ∧
      next.campaign.status ≠ .manualIntervention := by
  obtain ⟨projection, h⟩ := exists_ok_of_toBool
    (show (projectRecovery endpointLock requiredLog).toBool = true by decide +kernel)
  have hview : (projectRecovery endpointLock requiredLog).map (fun projection ↦
      (projection.campaign.status, projection.waves)) = .ok (.manualIntervention,
        [("wave", ⟨"wave", "deployment", "hf-inference-endpoints", ["shard"], 100,
          .cleanupFailed⟩)]) := by decide +kernel
  rw [h] at hview
  obtain ⟨hstatus, hwaves⟩ := Prod.mk.inj (Except.ok.inj hview)
  have hnone : ∀ other ∈ requiredLog, other.resolvedWaveIds = [] := by decide
  have hrequires : (requiredFor "required" "wave" 2).Requires "wave" :=
    ⟨⟨some "wave", none⟩, rfl, rfl, by decide⟩
  have hmem : requiredFor "required" "wave" 2 ∈ requiredLog := by decide
  have hoperated : Operated endpointLock requiredLog projection.waves := by
    refine ⟨fun event hevent payload hbody ↦ ⟨"wave", ?_, by rw [hwaves]; decide⟩,
      fun event hevent required waveIds hid ↦ ?_⟩
    · have hone : ∀ event ∈ requiredLog, event = requiredFor "required" "wave" 2 ∨
          event.requirement? = none := by decide
      rcases hone event hevent with rfl | hnot
      · exact hrequires
      · simp [CampaignEvent.requirement?, hbody] at hnot
    · have hids : ∀ event ∈ requiredLog, event.eventId.toList.head? ≠ some 'e' := by decide
      refine absurd ?_ (hids event hevent)
      rw [hid, String.toList_append]
      rfl
  have hunresolved : ∃ event ∈ requiredLog, ∃ waveId, Unresolved requiredLog event waveId := by
    refine ⟨_, hmem, "wave", hrequires, fun other hother ↦ ?_⟩
    rw [hnone other hother]
    exact List.not_mem_nil
  obtain ⟨event, next, hnew, hfresh, hnext, hclosed, hleft, -⟩ :=
    @manualRecovery_effective endpointLock requiredLog _ _ projection "verified" 9 h hstatus
      (by rw [hwaves]; decide) hoperated hunresolved (fun resolution hresolution _ _ waveId hnamed ↦
        by
          rw [hnone resolution hresolution] at hnamed
          cases hnamed)
  exact ⟨event, next, hnew, hfresh, hnext, hclosed, hleft⟩

/-- A recovery is refused while the requirement is not recorded, and for good once it is recorded
behind a resolution of its wave. -/
theorem manualRecovery_refused : (((projectRecovery endpointLock unrecordedLog).map fun projection ↦
        (projection.campaign.status, projection.waves.values.map WaveProjection.status)) =
          .ok (.manualIntervention, [.cleanupFailed]) ∧
      durableManualInterventionResolutionEvent endpointLock unrecordedLog "verified" true 9 =
        .error (.value "manual intervention requirement has not been recorded")) ∧
    ((projectRecovery endpointLock lateLog).map fun projection ↦
        (projection.campaign.status, projection.waves.values.map WaveProjection.status)) =
          .ok (.manualIntervention, [.closed, .closed]) ∧
      durableManualInterventionResolutionEvent endpointLock lateLog "verified" true 9 =
        .error (.value "manual intervention requirement has not been recorded") := by
  decide +kernel

end Refused

end HarborHF.Campaign
