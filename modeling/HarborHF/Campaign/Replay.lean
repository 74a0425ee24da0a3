import HarborHF.Campaign.Extension
import HarborHF.Campaign.Reconciler

/-!
# Replaying a log

A log is read through its order: an identifier has one event, and the events are sorted by time and
identifier. Whether the log is refused for an identifier with two events depends on which events it
has (`exists_uniqueEvents_iff`), and so does the order (`orderedEvents_congr`). The projection of the
campaign, the legacy generations of retry requests, and the plan read only the ordered log, so a log
that was delivered out of order or more than once projects and plans as the one it repeats
(`replay_converges`).
-/

set_option autoImplicit false

namespace HarborHF.Campaign

open Relational

section Replay

variable {events events' ordered ordered' : List CampaignEvent} {lock : CampaignLock}

/-- The identifiers of the log have one event each. -/
def SingleRecords (events : List CampaignEvent) : Prop :=
  ∀ first ∈ events, ∀ second ∈ events, first.eventId = second.eventId → first = second

theorem SingleRecords.congr (h : SingleRecords events) (hmem : ∀ event ∈ events', event ∈ events) :
    SingleRecords events' :=
  fun first hfirst second hsecond ↦ h first (hmem first hfirst) second (hmem second hsecond)

theorem uniqueStep_eq_error {unique : Dict String CampaignEvent} {event : CampaignEvent}
    {error : CampaignError} (h : uniqueStep unique event = .error error) :
    error = .control "event ID has conflicting records" := by
  unfold uniqueStep at h
  cases hget : unique.get? event.eventId with
  | none => simp [hget] at h
  | some previous =>
    by_cases hsame : previous = event
    · simp [hget, hsame] at h
    · simpa [hget, hsame, eq_comm] using h

/-- There is one way to refuse a log for its identifiers. -/
theorem uniqueEvents_eq_error {error : CampaignError} (h : uniqueEvents events = .error error) :
    error = .control "event ID has conflicting records" := by
  unfold uniqueEvents at h
  generalize ([] : Dict String CampaignEvent) = unique at h
  induction events generalizing unique with
  | nil => cases h
  | cons event rest ih =>
    rw [List.foldlM_cons] at h
    cases hstep : uniqueStep unique event with
    | error refused =>
      rw [hstep] at h
      obtain rfl : refused = error := by simpa [bind, Except.bind] using h
      exact uniqueStep_eq_error hstep
    | ok next =>
      rw [hstep] at h
      exact ih next h

/-- The log is read exactly when its identifiers have one event each. -/
theorem exists_uniqueEvents_iff :
    (∃ unique, uniqueEvents events = .ok unique) ↔ SingleRecords events := by
  constructor
  · rintro ⟨unique, hunique⟩ first hfirst second hsecond hid
    have hordered := orderedEvents_eq_ok.mpr ⟨unique, hunique, rfl⟩
    have hmem := mem_orderedEvents hordered
    exact eq_of_eventId_eq hordered ((hmem first).mpr hfirst) ((hmem second).mpr hsecond) hid
  · intro hsingle
    induction events using List.reverseRecOn with
    | nil => exact ⟨[], rfl⟩
    | append_singleton events event ih =>
      obtain ⟨unique, hunique⟩ := ih (hsingle.congr fun _ ↦ List.mem_append_left _)
      have hcollected := collected hunique
      by_cases hget : unique.get? event.eventId = none
      · exact ⟨_, foldlM_append_ok.mpr ⟨unique, hunique,
          foldlM_cons_ok.mpr ⟨_, uniqueStep_eq_ok.mpr (.inl ⟨hget, rfl⟩), rfl⟩⟩⟩
      · obtain ⟨previous, hprevious⟩ := Option.ne_none_iff_exists'.mp hget
        have hentry := Dict.mem_of_get?_eq_some hprevious
        have hmem : previous ∈ events :=
          (hcollected.mem previous).mp (List.mem_map.mpr ⟨_, hentry, rfl⟩)
        have hsame : previous = event :=
          hsingle previous (List.mem_append_left _ hmem) event (by simp)
            (hcollected.keys _ hentry).symm
        exact ⟨_, foldlM_append_ok.mpr ⟨unique, hunique, foldlM_cons_ok.mpr
          ⟨_, uniqueStep_eq_ok.mpr (.inr ⟨hsame ▸ hprevious, rfl⟩), rfl⟩⟩⟩

theorem ordered_unique (h : orderedEvents events = .ok ordered)
    (h' : orderedEvents events' = .ok ordered')
    (hmem : ∀ event, event ∈ events ↔ event ∈ events') : ordered = ordered' := by
  have hsame (event : CampaignEvent) : event ∈ ordered ↔ event ∈ ordered' := by
    rw [mem_orderedEvents h, mem_orderedEvents h', hmem]
  have hperm : ordered.Perm ordered' :=
    (List.perm_ext_iff_of_nodup (nodup_orderedEvents h) (nodup_orderedEvents h')).mpr hsame
  refine hperm.eq_of_pairwise ?_ (pairwise_orderedEvents h) (pairwise_orderedEvents h')
  intro first second hfirst hsecond hle hle'
  exact eq_of_eventId_eq h hfirst ((hsame second).mpr hsecond) (Earlier.eventId_eq hle hle')

/-- Logs with the same events are refused together, and have the same order. -/
theorem orderedEvents_congr (hmem : ∀ event, event ∈ events ↔ event ∈ events') :
    orderedEvents events = orderedEvents events' := by
  have hrefused {log : List CampaignEvent} (h : ¬ SingleRecords log) :
      orderedEvents log = .error (.control "event ID has conflicting records") := by
    cases hunique : uniqueEvents log with
    | error error =>
      simp [orderedEvents, hunique, uniqueEvents_eq_error hunique, bind, Except.bind]
    | ok unique => exact absurd (exists_uniqueEvents_iff.mp ⟨unique, hunique⟩) h
  by_cases hsingle : SingleRecords events
  · obtain ⟨unique, hunique⟩ := exists_uniqueEvents_iff.mpr hsingle
    obtain ⟨unique', hunique'⟩ := exists_uniqueEvents_iff.mpr
      (hsingle.congr fun event ↦ (hmem event).mpr)
    have h := orderedEvents_eq_ok.mpr ⟨unique, hunique, rfl⟩
    have h' := orderedEvents_eq_ok.mpr ⟨unique', hunique', rfl⟩
    rw [h, h', ordered_unique h h' hmem]
  · have hsingle' : ¬ SingleRecords events' :=
      fun h ↦ hsingle (h.congr fun event ↦ (hmem event).mp)
    rw [hrefused hsingle, hrefused hsingle']

theorem projectCampaign_congr (hmem : ∀ event, event ∈ events ↔ event ∈ events') :
    projectCampaign lock events = projectCampaign lock events' := by
  unfold projectCampaign
  rw [orderedEvents_congr hmem]

theorem projectRecovery_congr [Jitter] (hmem : ∀ event, event ∈ events ↔ event ∈ events') :
    projectRecovery lock events = projectRecovery lock events' := by
  unfold projectRecovery
  rw [projectCampaign_congr hmem, orderedEvents_congr hmem]

/-- Logs with the same events, in whatever order and however often they repeat them, have the same
projection and the same plan, or are refused with the same error. -/
theorem replay_converges [Jitter] [ActionKeys] (lock : CampaignLock) (events events' : List CampaignEvent)
    (hmem : ∀ event, event ∈ events ↔ event ∈ events') :
    projectRecovery lock events = projectRecovery lock events' ∧
      ∀ context now, planReconciliation lock events context now =
        planReconciliation lock events' context now := by
  refine ⟨projectRecovery_congr hmem, fun context now ↦ ?_⟩
  unfold planReconciliation
  rw [projectRecovery_congr hmem]

end Replay

/-! ### A log that was delivered twice -/

section Delivered

local instance replayedJitter : Jitter := ⟨fun _ ↦ 0, zero_lt_byte⟩

local instance replayedKeys : ActionKeys :=
  ⟨fun candidate _ retries ↦ toString candidate.kind.priority ++ ":" ++
    ",".intercalate candidate.targetIds ++ ":" ++ toString retries⟩

/-- A trial fails, and its operator asks for a retry without generations at the same time. -/
def retriedLog : List CampaignEvent :=
  sampleLog [
    ⟨"started", "execution", 1, .waveController, .executionStarted ⟨"trial", "shard", 1, none, 0⟩⟩,
    ⟨"failed", "execution", 2, .waveController,
      .executionOutcome .failed ⟨"trial", 1, some .transient, 0, none, none⟩⟩,
    ⟨"retry", "campaign", 2, .cli, .shardRetryRequested ⟨"shard", "again", []⟩⟩]

/-- Logs to which `replay_converges` applies: the log is read, and so is the one that repeats it
backwards. -/
theorem replay_converges_retried : (projectRecovery endpointLock retriedLog).toBool = true ∧
      projectRecovery endpointLock retriedLog =
        projectRecovery endpointLock (retriedLog.reverse ++ retriedLog) ∧
      ∀ context now, planReconciliation endpointLock retriedLog context now =
        planReconciliation endpointLock (retriedLog.reverse ++ retriedLog) context now :=
  ⟨by decide +kernel, replay_converges endpointLock retriedLog (retriedLog.reverse ++ retriedLog)
    fun event ↦ by simp⟩

end Delivered

end HarborHF.Campaign
