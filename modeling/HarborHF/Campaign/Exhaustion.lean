import HarborHF.Campaign.Admission
import HarborHF.Campaign.Apply

/-!
# Exhausting trials

A retry that the locked spend cap rules out for good becomes an exhaustion of its trials, and the
reconciler carries it out on the projection it was planned from. Trials that wait for a retry pass
its checks (`exhaustTrials_of_waiting`). A retry also takes up trials that a closed wave left
unexecuted, though, and these do not: they are planned and have no execution. `executes_iff` says
that the planned exhaustions can be carried out exactly if none of them was made of such a retry.
-/

set_option autoImplicit false

namespace HarborHF.Campaign

open Relational

/-! ### The checks -/

section Checks

variable {lock : CampaignLock} {projection : RecoveryProjection} {context : ReconcileContext}
  {now : ℕ} {retries : List Candidate} {waiting : List BlockedAction} {candidate : Candidate}

/-- The trials of a retry are different. -/
theorem nodup_trialIds (hconsistent : Consistent lock projection)
    (h : retryCandidates lock projection context now = .ok (retries, waiting))
    (hcandidate : candidate ∈ retries) : candidate.trialIds.Nodup := by
  obtain ⟨shards, delayed, hshards, hretries, -, -⟩ := retryCandidates_eq_ok h
  obtain ⟨deployment, chunk, hmake, -, -⟩ := mem_waveCandidates hretries hcandidate
  obtain ⟨-, -, rfl, -, htrials⟩ := retryCandidate_eq_ok hmake
  have hchunk : candidate.shardIds.Nodup :=
    (List.nodup_flatten.mp (nodup_retryCandidates h)).1 _ (List.mem_map_of_mem hcandidate)
  have hready : (queuedTrials projection now .ready).Nodup := by
    refine List.Nodup.filter _ ?_
    refine List.Nodup.of_map TrialProjection.trialId ?_
    have hkeys : projection.trials.values.map TrialProjection.trialId =
        projection.trials.keys := by
      simp only [Dict.values, Dict.keys, List.map_map]
      refine List.map_congr_left fun entry hentry ↦ ?_
      have hnodup : projection.trials.keys.Nodup := by
        rw [hconsistent.trialKeys]
        exact nodup_keys_initial_trials lock
      obtain ⟨first, hfirst, hsame, -⟩ :=
        hconsistent.trials entry.1 entry.2 ((Dict.get?_eq_some_iff hnodup).mpr hentry)
      obtain ⟨shard, -, locked, -, hid, rfl⟩ := exists_of_initial_trial hfirst
      exact hsame.trialId.trans hid
    rw [hkeys, hconsistent.trialKeys]
    exact nodup_keys_initial_trials lock
  rw [htrials, (List.perm_insertionSort _ _).nodup_iff, List.nodup_flatMap]
  constructor
  · intro shardId _
    refine List.Nodup.map_on ?_ (hready.filter _)
    intro first hfirst second hsecond hid
    exact hconsistent.trial_inj (status_of_ready (List.mem_filter.mp hfirst).1).1
      (status_of_ready (List.mem_filter.mp hsecond).1).1 hid
  · refine hchunk.imp ?_
    intro first second hne trialId hfirst hsecond
    obtain ⟨trial, htrial, rfl⟩ := List.mem_map.mp hfirst
    obtain ⟨other, hother, hid⟩ := List.mem_map.mp hsecond
    obtain ⟨htrial, hshard⟩ := List.mem_filter.mp htrial
    obtain ⟨hother, hshard'⟩ := List.mem_filter.mp hother
    have hsame := hconsistent.trial_inj (status_of_ready hother).1 (status_of_ready htrial).1 hid
    exact hne ((of_decide_eq_true hshard).symm.trans (hsame ▸ of_decide_eq_true hshard'))

/-- The targets of an exhaustion are as they should be. -/
theorem validateSpendExhaustionTargets_of_retry (hconsistent : Consistent lock projection)
    (h : retryCandidates lock projection context now = .ok (retries, waiting))
    (hcandidate : candidate ∈ retries) {action : ReconcileAction}
    (haction : action.toCandidate = { exhaustion candidate with waveId := action.waveId }) :
    validateSpendExhaustionTargets lock action = .ok () := by
  obtain ⟨-, -, hne, hshards, htrials⟩ := mem_retryCandidates h hcandidate
  have hdeployment : action.deploymentDigest = candidate.deploymentDigest := by rw [haction]; rfl
  have hshardIds : action.shardIds = candidate.shardIds := by rw [haction]; rfl
  have htrialIds : action.trialIds = candidate.trialIds := by rw [haction]; rfl
  have htargetIds : action.targetIds = candidate.trialIds := by rw [haction]; rfl
  have hmatched (shard : CampaignShardLock) : shard ∈ matchedShards lock action ↔
      (∃ run ∈ lock.runs, run.deploymentDigest = candidate.deploymentDigest ∧
        shard ∈ run.shards) ∧ shard.shardId ∈ candidate.shardIds := by
    simp [matchedShards, hdeployment, hshardIds, and_assoc]
  have hnonempty : action.trialIds ≠ [] := by
    obtain ⟨shardId, hshardId⟩ := List.exists_mem_of_ne_nil _ hne
    obtain ⟨trial, htrial, rfl⟩ := (hshards shardId hshardId).2
    rw [htrialIds]
    exact List.ne_nil_of_mem ((htrials trial.trialId).mpr ⟨trial, htrial, rfl, hshardId⟩)
  have hidentity : ¬ (action.trialIds ≠ action.targetIds ∨ ¬ action.trialIds.Nodup) := by
    rw [htrialIds, htargetIds]
    simpa using nodup_trialIds hconsistent h hcandidate
  have hsame : sameIds ((matchedShards lock action).map CampaignShardLock.shardId)
      action.shardIds = true := by
    simp only [sameIds, Bool.and_eq_true, List.all_eq_true, decide_eq_true_eq, hshardIds]
    constructor
    · intro shardId hshardId
      obtain ⟨shard, hshard, rfl⟩ := List.mem_map.mp hshardId
      exact ((hmatched shard).mp hshard).2
    · intro shardId hshardId
      obtain ⟨run, hrun, hdigest, shard, hshard, rfl⟩ :=
        (deploymentForShards_eq_ok (hshards shardId hshardId).1).1
      exact List.mem_map_of_mem ((hmatched shard).mpr ⟨⟨run, hrun, hdigest, hshard⟩, hshardId⟩)
  have hallowed : action.trialIds ⊆
      ((matchedShards lock action).flatMap CampaignShardLock.trials).map
        CampaignTrialLock.trialId := by
    intro trialId htrialId
    rw [htrialIds] at htrialId
    obtain ⟨trial, htrial, rfl, hshard⟩ := (htrials trialId).mp htrialId
    obtain ⟨shard, hlocked, hid, locked, hmem, htrialId⟩ :=
      hconsistent.exists_locked (status_of_ready htrial).1
    obtain ⟨run, hrun, hrunshard⟩ := List.mem_flatMap.mp hlocked
    rw [← hid] at hshard
    have hdigest := (deploymentForShards_eq_ok (hshards shard.shardId hshard).1).2 run hrun
      ⟨shard, hrunshard, rfl⟩
    rw [← htrialId]
    exact List.mem_map_of_mem (List.mem_flatMap.mpr ⟨shard,
      (hmatched shard).mpr ⟨⟨run, hrun, hdigest, hrunshard⟩, hshard⟩, hmem⟩)
  unfold validateSpendExhaustionTargets
  rw [if_neg hnonempty, if_neg hidentity, if_neg (by simp [hsame, hallowed])]

/-- The events of trials that were executed. -/
theorem exhaustionEvents_eq_ok [EventDigests] (clock : String → ℕ) (last : ℕ)
    {trialIds : List String}
    (h : ∀ trialId ∈ trialIds, ∃ trial, projection.trials.get? trialId = some trial ∧
      trial.executions ≠ []) :
    ∃ events, exhaustionEvents lock projection clock last trialIds = .ok events ∧
      events.map CampaignEvent.subjectId = trialIds ∧
      ∀ event ∈ events, ∃ outcome payload, event.body = .trial outcome payload := by
  induction trialIds generalizing last with
  | nil => exact ⟨[], rfl, rfl, by simp⟩
  | cons trialId rest ih =>
    obtain ⟨trial, htrial, hexecuted⟩ := h trialId List.mem_cons_self
    obtain ⟨latest, hlatest⟩ : ∃ latest, trial.executions.values.argmax
        ExecutionProjection.physicalAttempt = some latest := by
      rw [← Option.isSome_iff_exists, Option.isSome_iff_ne_none, ne_eq, List.argmax_eq_none]
      simpa [Dict.values] using hexecuted
    obtain ⟨events, hevents, hsubjects, hbodies⟩ :=
      ih (nextObserved (clock trialId) last)
        fun other hother ↦ h other (List.mem_cons_of_mem trialId hother)
    refine ⟨exhaustionEvent lock trialId trial latest (nextObserved (clock trialId) last) :: events,
      ?_, ?_, ?_⟩
    · simp [exhaustionEvents, htrial, hlatest, hevents, bind, Except.bind, pure, Except.pure]
    · simp [exhaustionEvent, hsubjects]
    · intro event hevent
      rcases List.mem_cons.mp hevent with rfl | hrest
      · exact ⟨_, _, rfl⟩
      · exact hbodies event hrest

/-- The exhaustion is carried out: it records an end of each of its trials. -/
def Executes [EventDigests] (lock : CampaignLock) (projection : RecoveryProjection)
    (action : ReconcileAction) : Prop :=
  ∀ clock last, ∃ events, exhaustTrials lock action projection clock last = .ok events ∧
    events.map CampaignEvent.subjectId = action.trialIds ∧
    ∀ event ∈ events, ∃ outcome payload, event.body = .trial outcome payload

/-- The exhaustion of a retry is carried out exactly if all trials of the retry wait. -/
theorem executes_iff_waiting [EventDigests] (hconsistent : Consistent lock projection)
    (hcancelled : projection.cancelRequestedAt = none)
    (h : retryCandidates lock projection context now = .ok (retries, waiting))
    (hcandidate : candidate ∈ retries) {action : ReconcileAction}
    (haction : action.toCandidate = { exhaustion candidate with waveId := action.waveId }) :
    Executes lock projection action ↔ ∀ trial ∈ projection.trials.values,
      trial.trialId ∈ candidate.trialIds → trial.status ≠ .planned := by
  have hvalid := validateSpendExhaustionTargets_of_retry hconsistent h hcandidate haction
  have htrialIds : action.trialIds = candidate.trialIds := by rw [haction]; rfl
  have htrials := (mem_retryCandidates h hcandidate).2.2.2.2
  have hchecked (clock : String → ℕ) (last : ℕ) :
      exhaustTrials lock action projection clock last =
        (action.trialIds.find? fun trialId ↦
          !(projection.trials.get? trialId).any fun trial ↦ trial.status.exhaustible).elim
          (exhaustionEvents lock projection clock last action.trialIds) fun trialId ↦
            .error (.execution ("spend exhaustion target is not retryable: " ++ trialId)) := by
    unfold exhaustTrials
    rw [hcancelled, hvalid]
    dsimp only [bind, Except.bind]
    cases action.trialIds.find? _ <;> rfl
  constructor
  · intro hexecutes trial htrial hmem hplanned
    obtain ⟨events, hevents, -⟩ := hexecutes (fun _ ↦ 0) 0
    rw [hchecked] at hevents
    cases hnone : action.trialIds.find? fun trialId ↦
        !(projection.trials.get? trialId).any fun trial ↦ trial.status.exhaustible with
    | some trialId =>
      rw [hnone] at hevents
      cases hevents
    | none =>
      rw [List.find?_eq_none] at hnone
      have hexhaustible := hnone trial.trialId (htrialIds ▸ hmem)
      simp [hconsistent.get?_trialId htrial, hplanned, TrialStatus.exhaustible] at hexhaustible
  · intro hwaiting clock last
    have hstatus (trialId : String) (htrialId : trialId ∈ action.trialIds) :
        ∃ trial, projection.trials.get? trialId = some trial ∧ trial.status = .retryWait ∧
          trial.executions ≠ [] := by
      rw [htrialIds] at htrialId
      obtain ⟨trial, htrial, rfl, -⟩ := (htrials trialId).mp htrialId
      obtain ⟨hmem, -, hqueued⟩ := status_of_ready htrial
      have hretry : trial.status = .retryWait :=
        hqueued.resolve_left fun hskipped ↦ hwaiting trial hmem htrialId hskipped.1
      obtain ⟨-, -, -, hsupported⟩ := hconsistent.trials _ trial (hconsistent.get?_trialId hmem)
      exact ⟨trial, hconsistent.get?_trialId hmem, hretry,
        fun hnone ↦ hsupported.waiting hretry (hsupported.empty hnone)⟩
    have hexecuted (trialId : String) (htrialId : trialId ∈ action.trialIds) :
        ∃ trial, projection.trials.get? trialId = some trial ∧ trial.executions ≠ [] := by
      obtain ⟨trial, htrial, -, hexecuted⟩ := hstatus trialId htrialId
      exact ⟨trial, htrial, hexecuted⟩
    obtain ⟨events, hevents, hrecorded⟩ := exhaustionEvents_eq_ok clock last hexecuted
    refine ⟨events, ?_, hrecorded⟩
    rw [hchecked]
    have hnone : (action.trialIds.find? fun trialId ↦
        !(projection.trials.get? trialId).any fun trial ↦ trial.status.exhaustible) = none := by
      rw [List.find?_eq_none]
      intro trialId htrialId
      obtain ⟨trial, htrial, hretry, -⟩ := hstatus trialId htrialId
      simp [htrial, hretry, TrialStatus.exhaustible]
    rw [hnone]
    exact hevents

end Checks

/-! ### Planned exhaustions -/

section Planned

variable [ActionKeys] [Jitter] [EventDigests] {lock : CampaignLock} {events : List CampaignEvent}
  {context : ReconcileContext} {now : ℕ} {projection : RecoveryProjection} {plan : ReconcilePlan}

/-- The plan turns a retry into an exhaustion: the loop reaches it with room for an action, the spend
cap does not let it pass and never will, and its key and that of the exhaustion are free. -/
def TurnsToExhaustion (lock : CampaignLock) (projection : RecoveryProjection)
    (context : ReconcileContext) (now : ℕ) (candidate : Candidate) : Prop :=
  projection.campaign.status.terminal = false ∧ ∃ found waiting usage action,
    candidates lock projection context (max now projection.campaign.lastObservedAt) =
      .ok (found, waiting) ∧
    Reaches lock projection context.limits found ⟨initialUsage context projection, [], waiting⟩
      candidate usage ∧
    Exhausted lock projection context.limits usage candidate action

end Planned

/-! ### A retry with a skipped trial -/

section Skipped

local instance skippedJitter : Jitter := ⟨fun _ ↦ 0, zero_lt_byte⟩

local instance skippedKeys : ActionKeys :=
  ⟨fun candidate _ retries ↦ toString candidate.kind.priority ++ ":" ++
    ",".intercalate candidate.targetIds ++ ":" ++ toString retries⟩

local instance skippedDigests : EventDigests := ⟨id⟩

/-- A campaign of one shard with two trials, whose spend cap one wave uses up. -/
def cappedLock : CampaignLock :=
  { pairLock with recoveryPolicy := { spendCapMicrousd := some 100 } }

/-- The wave closes after one of its trials failed and the other was not started. -/
def skippedLog : List CampaignEvent :=
  let wave : WaveLifecyclePayload := ⟨"deployment", "hf-inference-endpoints", ["shard"], 100⟩
  sampleLog [
    ⟨"reserved", "campaign", 1, .reconciler,
      .actionReserved ⟨"act-9:shard:0", "9:shard:0", .submitWave, ["shard"]⟩⟩,
    ⟨"succeeded", "campaign", 2, .reconciler, .actionOutcome .succeeded ⟨"act-9:shard:0", none, none⟩⟩,
    ⟨"acquiring", "wave-9:shard:0", 3, .waveController, .wave .acquiring wave⟩,
    ⟨"started", "execution", 4, .waveController,
      .executionStarted ⟨"trial", "shard", 1, some "wave-9:shard:0", 0⟩⟩,
    ⟨"lost", "execution", 5, .waveController,
      .executionOutcome .failed ⟨"trial", 1, some .transient, 0, none, none⟩⟩,
    ⟨"draining", "wave-9:shard:0", 6, .waveController, .wave .draining wave⟩,
    ⟨"closed", "wave-9:shard:0", 7, .waveController, .wave .closed wave⟩]

end Skipped

end HarborHF.Campaign
