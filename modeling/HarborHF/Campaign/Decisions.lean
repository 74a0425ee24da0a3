import HarborHF.Campaign.RetryRequests

/-!
# The decision that ends a campaign

A campaign that has not ended is decided once its waves are closed and its trials have ended, or
wait while it is cancelled (`decided_of_terminalDecision`). What waits then counts as cancelled, in
the decision as in the projection behind the terminal event; a campaign whose runs are all complete
has no such trials (`scored_of_complete`), so the event records the status and the counts of the
decision (`terminalDecision_stable`).
-/

set_option autoImplicit false

namespace HarborHF.Campaign

open Relational

/-! ### Counts -/

/-- How many trials were counted. -/
def ProjectionCounts.trials (counts : ProjectionCounts) : ℕ :=
  counts.planned + counts.active + counts.retrying + counts.complete + counts.invalid +
    counts.failed + counts.cancelled

/-- Every trial is counted once. -/
theorem trials_projectionCounts (trials : Dict String TrialProjection) :
    (projectionCounts trials).trials = trials.length := by
  induction trials with
  | nil => rfl
  | cons entry rest ih =>
    obtain ⟨id, trial⟩ := entry
    simp only [projectionCounts, ProjectionCounts.trials, Dict.values] at ih ⊢
    cases hstatus : trial.status <;> simp [hstatus] <;> omega

@[simp] theorem trials_terminalCounts (status : CampaignStatus) (counts : ProjectionCounts) :
    (terminalCounts status counts).trials = counts.trials := by
  cases status <;> simp only [terminalCounts, ProjectionCounts.trials] <;> omega

@[simp] theorem active_terminalCounts (status : CampaignStatus) (counts : ProjectionCounts) :
    (terminalCounts status counts).active = counts.active := by
  cases status <;> rfl

/-- Where nothing waits the status does not matter. -/
theorem terminalCounts_of_idle {counts : ProjectionCounts} (hplanned : counts.planned = 0)
    (hretrying : counts.retrying = 0) (status : CampaignStatus) :
    terminalCounts status counts = counts := by
  obtain ⟨planned, active, retrying, complete, invalid, failed, cancelled, physicalRetries⟩ := counts
  obtain rfl : planned = 0 := hplanned
  obtain rfl : retrying = 0 := hretrying
  cases status <;> rfl

/-- A status that no trial has is not counted. -/
theorem count_eq_zero {trials : Dict String TrialProjection} {status : TrialStatus}
    (h : ∀ trial ∈ trials.values, trial.status ≠ status) :
    (trials.values.filter fun trial ↦ trial.status = status).length = 0 := by
  rw [List.length_eq_zero_iff, List.filter_eq_nil_iff]
  intro trial htrial
  simpa using h trial htrial

/-- Trials that have ended do not wait. -/
theorem idle_of_terminal {trials : Dict String TrialProjection}
    (h : ∀ trial ∈ trials.values, trial.status.terminal = true) :
    (projectionCounts trials).planned = 0 ∧ (projectionCounts trials).retrying = 0 := by
  have hnot (status : TrialStatus) (hopen : status.terminal = false) (trial : TrialProjection)
      (htrial : trial ∈ trials.values) : trial.status ≠ status := by
    rintro rfl
    simp [h trial htrial] at hopen
  exact ⟨count_eq_zero (hnot .planned rfl), count_eq_zero (hnot .retryWait rfl)⟩

/-! ### What a decision rests on -/

/-- The campaign is being cancelled. -/
def CampaignStatus.Cancelling (status : CampaignStatus) : Prop :=
  status = .cancelRequested ∨ status = .draining

/-- The trial has ended, or waits in a campaign that is being cancelled. -/
def TrialProjection.DoneUnder (status : CampaignStatus) (trial : TrialProjection) : Prop :=
  trial.status.terminal = true ∨
    (status.Cancelling ∧ (trial.status = .planned ∨ trial.status = .retryWait))

/-- What the decision about a campaign that has not ended rests on. -/
structure Decided (campaign : CampaignProjection) (runs : Dict String RunProjection)
    (trials : Dict String TrialProjection) (waves : Dict String WaveProjection)
    (counts : ProjectionCounts) (decision : TerminalDecision) : Prop where
  cleanup : cleanupIsComplete campaign waves = true
  trials : ∀ trial ∈ trials.values, trial.DoneUnder campaign.status
  counts : decision.counts = terminalCounts campaign.status counts
  completed : decision.status = .completed → ∀ run ∈ runs.values, run.status = .complete
  failed : decision.status = .failed → ¬ campaign.status.Cancelling

section Decisions

variable {lock : CampaignLock} {campaign : CampaignProjection} {runs : Dict String RunProjection}
  {trials : Dict String TrialProjection} {waves : Dict String WaveProjection}
  {counts : ProjectionCounts} {decision : TerminalDecision}

theorem decided_of_terminalDecision (hopen : campaign.status.recorded = none)
    (h : terminalDecision lock campaign runs trials waves counts = some decision) :
    Decided campaign runs trials waves counts decision := by
  unfold terminalDecision at h
  simp only [hopen] at h
  by_cases hcleanup : cleanupIsComplete campaign waves = false
  · simp [hcleanup] at h
  rw [if_neg hcleanup] at h
  split at h
  · cases h
  rename_i hwaiting
  have hdone : ∀ trial ∈ trials.values, trial.DoneUnder campaign.status := by
    intro trial htrial
    have hnot := fun hany ↦ hwaiting (List.any_eq_true.mpr ⟨trial, htrial, hany⟩)
    by_cases hterminal : trial.status.terminal = true
    · exact .inl hterminal
    · refine .inr ?_
      simpa [hterminal, CampaignStatus.Cancelling, or_iff_not_imp_left] using hnot
  have hcleaned : cleanupIsComplete campaign waves = true := by simpa using hcleanup
  split at h
  · -- every run is complete
    rename_i hcomplete
    obtain rfl := Option.some.inj h
    refine ⟨hcleaned, hdone, rfl, fun _ run hrun ↦ ?_, nofun⟩
    exact hcomplete.2 run.status (List.mem_map_of_mem hrun)
  · split at h
    · obtain rfl := Option.some.inj h
      exact ⟨hcleaned, hdone, rfl, nofun, nofun⟩
    · split at h
      · obtain rfl := Option.some.inj h
        exact ⟨hcleaned, hdone, rfl, nofun, nofun⟩
      · split at h
        · obtain rfl := Option.some.inj h
          exact ⟨hcleaned, hdone, rfl, nofun, nofun⟩
        · rename_i hcancelling
          obtain rfl := Option.some.inj h
          exact ⟨hcleaned, hdone, rfl, nofun, fun _ hnot ↦ hcancelling (.inl hnot)⟩

namespace Decided

variable (h : Decided campaign runs trials waves counts decision)

include h

theorem wave_closed {wave : WaveProjection} (hwave : wave ∈ waves.values) :
    wave.status = .closed := by
  have hcleanup := h.cleanup
  unfold cleanupIsComplete at hcleanup
  simp only [Bool.and_eq_true, List.all_eq_true, decide_eq_true_eq] at hcleanup
  exact hcleanup.2 wave hwave

theorem action_closed {action : ActionProjection} (haction : action ∈ campaign.actions.values)
    (hkind : action.actionKind.billable = true) (hstatus : action.status ≠ .failed) :
    ∃ wave, waves.get? (waveIdOf action.actionKey) = some wave ∧ wave.status = .closed := by
  have hcleanup := h.cleanup
  unfold cleanupIsComplete at hcleanup
  simp only [Bool.and_eq_true, List.all_eq_true] at hcleanup
  have hclosed := hcleanup.1 action haction
  simpa [hkind, hstatus, Option.any_eq_true] using hclosed

theorem not_active {trial : TrialProjection} (htrial : trial ∈ trials.values) :
    trial.status ≠ .active := by
  intro hactive
  rcases h.trials trial htrial with hterminal | ⟨-, hplanned | hretry⟩
  · simp [hactive, TrialStatus.terminal, TrialStatus.settled] at hterminal
  · simp [hactive] at hplanned
  · simp [hactive] at hretry

end Decided

/-- The counts of a decision have nothing that goes on, and they count every trial. -/
theorem Decided.settled (h : Decided campaign runs trials waves (projectionCounts trials) decision) :
    decision.counts.planned = 0 ∧ decision.counts.active = 0 ∧ decision.counts.retrying = 0 ∧
      decision.counts.trials = trials.length := by
  have hactive : (projectionCounts trials).active = 0 := count_eq_zero fun _ ↦ h.not_active
  rw [h.counts, trials_terminalCounts, active_terminalCounts, trials_projectionCounts]
  by_cases hcancelling : campaign.status.Cancelling
  · rcases hcancelling with hstatus | hstatus
    · exact ⟨by rw [hstatus]; rfl, hactive, by rw [hstatus]; rfl, rfl⟩
    · exact ⟨by rw [hstatus]; rfl, hactive, by rw [hstatus]; rfl, rfl⟩
  · have hterminal (trial : TrialProjection) (htrial : trial ∈ trials.values) :
        trial.status.terminal = true :=
      (h.trials trial htrial).resolve_right fun hwaits ↦ hcancelling hwaits.1
    obtain ⟨hplanned, hretrying⟩ := idle_of_terminal hterminal
    rw [terminalCounts_of_idle hplanned hretrying]
    exact ⟨hplanned, hactive, hretrying, rfl⟩

/-- Recording the decision does not change its counts, when complete runs have no trial that
waits. -/
theorem Decided.terminalCounts_eq
    (h : Decided campaign runs trials waves (projectionCounts trials) decision)
    (hscored : (∀ run ∈ runs.values, run.status = .complete) →
      ∀ trial ∈ trials.values, trial.status.terminal = true) :
    terminalCounts decision.status.campaign (projectionCounts trials) = decision.counts := by
  rw [h.counts]
  by_cases hterminal : ∀ trial ∈ trials.values, trial.status.terminal = true
  · obtain ⟨hplanned, hretrying⟩ := idle_of_terminal hterminal
    rw [terminalCounts_of_idle hplanned hretrying, terminalCounts_of_idle hplanned hretrying]
  · -- a trial waits, so the campaign is being cancelled and has neither completed nor failed
    obtain ⟨trial, hwaits⟩ := not_forall.mp hterminal
    obtain ⟨htrial, hnot⟩ := Classical.not_imp.mp hwaits
    have hcancelling : campaign.status.Cancelling := ((h.trials trial htrial).resolve_left hnot).1
    have hcancelled : terminalCounts campaign.status (projectionCounts trials) =
        terminalCounts .cancelled (projectionCounts trials) := by
      rcases hcancelling with hstatus | hstatus
      · rw [hstatus]; rfl
      · rw [hstatus]; rfl
    rw [hcancelled]
    cases hstatus : decision.status with
    | completed => exact absurd (hscored (h.completed hstatus) trial htrial) hnot
    | failed => exact absurd hcancelling (h.failed hstatus)
    | partly => rfl
    | cancelled => rfl

end Decisions

/-! ### Complete runs -/

/-- Without an end of the children none was observed. -/
theorem ended_of_validate {observed : Option LifecycleStatus} {children : List (Option TrialOutcome)}
    {subject : String} (hvalid : validateObservedTerminal observed children subject = .ok ()) :
    children.all Option.isSome = true ∨ observed.bind LifecycleStatus.settled = none := by
  unfold validateObservedTerminal at hvalid
  cases hobserved : observed.bind LifecycleStatus.settled with
  | none => exact .inr rfl
  | some outcome =>
    simp only [hobserved] at hvalid
    split at hvalid
    · cases hvalid
    · rename_i hended
      exact .inl ((Bool.not_eq_false _).mp hended)

theorem all_scored_of_scoredTerminalStatus {children : List (Option TrialOutcome)}
    {outcome : TrialOutcome} (h : scoredTerminalStatus children = some outcome) :
    children.all scored = true := by
  unfold scoredTerminalStatus at h
  split at h
  · cases h
  · rename_i hscored
    simpa using hscored

section Aggregates

variable {trials : Dict String TrialProjection} {shards : Dict String ShardProjection}

theorem getItem_eq_ok {υ : Type} {dict : Dict String υ} {key : String} {value : υ} :
    getItem dict key = .ok value ↔ dict.get? key = some value := by
  unfold getItem
  cases hget : dict.get? key with
  | none => simp
  | some found => simp

/-- The statuses of the children are read off their projections. -/
theorem exists_item_of_mapM {υ σ : Type} {items : Dict String υ} {read : υ → σ}
    {ids : List String} {statuses : List σ}
    (h : (ids.mapM fun id ↦ do let item ← getItem items id; return read item) = .ok statuses)
    {id : String} (hid : id ∈ ids) : ∃ item, items.get? id = some item ∧ read item ∈ statuses := by
  have hall := mapM_eq_ok.mp h
  clear h
  induction hall with
  | nil => cases hid
  | @cons first status rest statuses hfirst _ ih =>
    rcases List.mem_cons.mp hid with rfl | hrest
    · obtain ⟨item, hitem, hstatus⟩ := bind_eq_ok.mp hfirst
      cases hstatus
      exact ⟨item, getItem_eq_ok.mp hitem, List.mem_cons_self⟩
    · obtain ⟨item, hitem, hmem⟩ := ih hrest
      exact ⟨item, hitem, List.mem_cons_of_mem _ hmem⟩

/-- The trials of a shard with a scored end are scored. -/
theorem scored_of_aggregateShard {shard : ShardProjection} {status : ShardStatus}
    (h : aggregateShard shard trials = .ok status) (hscored : scored status.settled = true)
    {trialId : String} (htrial : trialId ∈ shard.trialIds) :
    ∃ trial, trials.get? trialId = some trial ∧ scored trial.status.settled = true := by
  obtain ⟨statuses, hstatuses, h⟩ := bind_eq_ok.mp h
  obtain ⟨⟨⟩, hvalid, h⟩ := bind_eq_ok.mp h
  obtain ⟨trial, hget, hmem⟩ := exists_item_of_mapM hstatuses htrial
  refine ⟨trial, hget, ?_⟩
  have hall : (statuses.map TrialStatus.settled).all scored = true := by
    cases houtcome : scoredTerminalStatus (statuses.map TrialStatus.settled) with
    | some outcome => exact all_scored_of_scoredTerminalStatus houtcome
    | none =>
      simp only [houtcome] at h
      obtain rfl := Except.ok.inj h
      rcases ended_of_validate hvalid with hended | hobserved
      · simp [hended, ShardStatus.settled, scored] at hscored
      · split_ifs at hscored
        · simp [ShardStatus.settled, scored] at hscored
        · simp [ShardStatus.settled, scored] at hscored
        · simp [ShardStatus.settled, scored] at hscored
        · cases hstatus : shard.observedStatus with
          | none => simp [hstatus, ShardStatus.settled, scored] at hscored
          | some observed =>
            rw [hstatus] at hobserved hscored
            cases observed <;>
              simp_all [LifecycleStatus.settled, LifecycleStatus.shard, ShardStatus.settled, scored]
  exact List.all_eq_true.mp hall _ (List.mem_map_of_mem hmem)

/-- The shards of a complete run are scored. -/
theorem scored_of_aggregateRun {run : RunProjection}
    (h : aggregateRun run shards = .ok .complete) {shardId : String}
    (hshard : shardId ∈ run.shardIds) :
    ∃ shard, shards.get? shardId = some shard ∧ scored shard.status.settled = true := by
  obtain ⟨statuses, hstatuses, h⟩ := bind_eq_ok.mp h
  obtain ⟨⟨⟩, hvalid, h⟩ := bind_eq_ok.mp h
  obtain ⟨shard, hget, hmem⟩ := exists_item_of_mapM hstatuses hshard
  refine ⟨shard, hget, ?_⟩
  have hall : (statuses.map ShardStatus.settled).all scored = true := by
    cases houtcome : scoredTerminalStatus (statuses.map ShardStatus.settled) with
    | some outcome => exact all_scored_of_scoredTerminalStatus houtcome
    | none =>
      simp only [houtcome] at h
      have hcomplete := Except.ok.inj h
      rcases ended_of_validate hvalid with hended | hobserved
      · simp [hended] at hcomplete
      · split_ifs at hcomplete
        cases hstatus : run.observedStatus with
        | none => simp [hstatus] at hcomplete
        | some observed =>
          rw [hstatus] at hobserved hcomplete
          cases observed <;> simp_all [LifecycleStatus.settled, LifecycleStatus.run]
  exact List.all_eq_true.mp hall _ (List.mem_map_of_mem hmem)

end Aggregates

/-- The runs of the state are those of the lock, with their shards. -/
structure RecoveryState.RunsKept (lock : CampaignLock) (state : RecoveryState) : Prop where
  keys : state.runs.keys = (initialState lock).runs.keys
  shards : ∀ id run, state.runs.get? id = some run →
    ∃ first, (initialState lock).runs.get? id = some first ∧ run.shardIds = first.shardIds

namespace RecoveryState.RunsKept

variable {lock : CampaignLock} {state next : RecoveryState} {event : CampaignEvent}

theorem initial (lock : CampaignLock) : (initialState lock).RunsKept lock where
  keys := rfl
  shards _ run h := ⟨run, h, rfl⟩

theorem step (h : state.RunsKept lock) (hnext : state.applyEvent event = .ok next) :
    next.RunsKept lock := by
  have hsame (hruns : next.runs = state.runs) : next.RunsKept lock := by
    refine ⟨?_, ?_⟩
    · rw [hruns]
      exact h.keys
    · rw [hruns]
      exact h.shards
  cases applied_of_applyEvent hnext with
  | run status payload run hbody hget =>
    refine ⟨?_, fun id other hother ↦ ?_⟩
    · rw [Dict.keys_set_of_get?_eq_some hget, h.keys]
    · rw [Dict.get?_set] at hother
      by_cases hid : id = event.subjectId
      · rw [if_pos hid] at hother
        cases hother
        obtain ⟨first, hfirst, hshards⟩ := h.shards _ run hget
        exact ⟨first, hid ▸ hfirst, hshards⟩
      · rw [if_neg hid] at hother
        exact h.shards id other hother
  | resolved | shard | trial | started | passed | finished | wave | spend | unread =>
    exact hsame rfl

theorem run {events : List CampaignEvent}
    (h : events.foldlM RecoveryState.applyEvent (initialState lock) = .ok state) :
    state.RunsKept lock :=
  foldlM_invariant (initial lock) (fun _ _ _ _ hkept hnext ↦ hkept.step hnext) h

end RecoveryState.RunsKept

section Complete

variable {lock : CampaignLock} {state : RecoveryState} {trials : Dict String TrialProjection}
  {shards : Dict String ShardProjection} {runs : Dict String RunProjection}

/-- With different runs the run at the start has the shards of the lock's. -/
theorem exists_initial_run (hruns : (lock.runs.map CampaignRunLock.runId).Nodup)
    {run : CampaignRunLock} (hrun : run ∈ lock.runs) :
    ∃ first, (initialState lock).runs.get? run.runId = some first ∧
      first.shardIds = run.shards.map CampaignShardLock.shardId :=
  ⟨_, Dict.get?_foldl_set_of_nodup hruns hrun, rfl⟩

theorem deriveRuns_eq (runs : Dict String RunProjection) (shards : Dict String ShardProjection) :
    deriveRuns runs shards = runs.mapM fun entry ↦ do
      let run ← (fun status ↦ { entry.2 with status := status }) <$> aggregateRun entry.2 shards
      return (entry.1, run) := by
  simp [deriveRuns]

/-- The trials of complete runs have ended. -/
theorem scored_of_complete (hdistinct : lock.Distinct)
    (hruns : (lock.runs.map CampaignRunLock.runId).Nodup) (hkept : state.Kept lock)
    (hrunskept : state.RunsKept lock) (hkeys : trials.keys = (initialState lock).trials.keys)
    (hshards : deriveShards state.shards trials = .ok shards)
    (hderived : deriveRuns state.runs shards = .ok runs)
    (hcomplete : ∀ run ∈ runs.values, run.status = .complete) :
    ∀ trial ∈ trials.values, trial.status.terminal = true := by
  intro trial htrial
  rw [deriveShards_eq] at hshards
  rw [deriveRuns_eq] at hderived
  have hnodup : trials.keys.Nodup := hkeys ▸ nodup_keys_initial_trials lock
  obtain ⟨id, hget⟩ := Dict.exists_get?_of_mem_values hnodup htrial
  -- the trial is one of a shard of a run of the lock
  have hsome : ((initialState lock).trials.get? id).isSome = true := by
    rw [Dict.get?_isSome_iff, ← hkeys, ← Dict.get?_isSome_iff, hget]
    rfl
  obtain ⟨first, hfirst⟩ := Option.isSome_iff_exists.mp hsome
  obtain ⟨shard, hshard, locked, hlocked, rfl, -⟩ := exists_of_initial_trial hfirst
  obtain ⟨run, hrun, hmem⟩ := List.mem_flatMap.mp hshard
  -- the run is projected, so its shards are scored
  obtain ⟨initialRun, hinitialRun, hids⟩ := exists_initial_run hruns hrun
  have hrunSome : (runs.get? run.runId).isSome = true := by
    rw [Dict.get?_isSome_iff, Dict.keys_of_mapM hderived, hrunskept.keys, ← Dict.get?_isSome_iff,
      hinitialRun]
    rfl
  obtain ⟨projected, hprojected⟩ := Option.isSome_iff_exists.mp hrunSome
  obtain ⟨before, hbefore, hread⟩ := (Dict.get?_of_mapM hderived).mp hprojected
  obtain ⟨other, hother, hbeforeIds⟩ := hrunskept.shards _ before hbefore
  rw [hinitialRun] at hother
  obtain rfl := Option.some.inj hother
  rw [← bind_pure_comp] at hread
  obtain ⟨status, hstatus, hend⟩ := bind_eq_ok.mp hread
  cases hend
  have hdone : status = .complete := hcomplete _ (Dict.mem_values_of_get?_eq_some hprojected)
  rw [hdone] at hstatus
  have hshardId : shard.shardId ∈ before.shardIds := by
    rw [hbeforeIds, hids]
    exact List.mem_map_of_mem hmem
  obtain ⟨projectedShard, hgetShard, hscored⟩ := scored_of_aggregateRun hstatus hshardId
  -- the shard is scored, so its trials are
  obtain ⟨beforeShard, hbeforeShard, hreadShard⟩ := (Dict.get?_of_mapM hshards).mp hgetShard
  obtain ⟨initialShard, hinitialShard, -, htrialIds⟩ := exists_initial_shard hdistinct hshard
  obtain ⟨otherShard, hotherShard, hsameShard⟩ := hkept.shards _ beforeShard hbeforeShard
  rw [hinitialShard] at hotherShard
  obtain rfl := Option.some.inj hotherShard
  rw [← bind_pure_comp] at hreadShard
  obtain ⟨shardStatus, hshardStatus, hend⟩ := bind_eq_ok.mp hreadShard
  cases hend
  have htrialId : locked.trialId ∈ beforeShard.trialIds := by
    rw [hsameShard, htrialIds]
    exact List.mem_map_of_mem hlocked
  obtain ⟨same, hsame, hscoredTrial⟩ := scored_of_aggregateShard hshardStatus hscored htrialId
  rw [hget] at hsame
  obtain rfl := Option.some.inj hsame
  simp only [scored, Bool.and_eq_true] at hscoredTrial
  exact hscoredTrial.1

end Complete

/-! ### The event that ends the campaign -/

section Stable

variable {lock : CampaignLock} {event : CampaignEvent} {terminal : TerminalStatus}
  {payload : TerminalPayload}

/-- The terminal event ends a campaign that has not ended. -/
theorem campaignStep_campaignTerminal (hbody : event.body = .campaignTerminal terminal payload)
    (hsubject : event.subjectId = lock.campaignId) {state : CampaignState}
    (hopen : state.status.terminal = false) : campaignStep lock state event =
      .ok ⟨terminal.campaign, state.previous, state.requirements, state.actions⟩ := by
  simp [campaignStep, applyCampaignEvent, manualReturnStatus, updateManualRequirements,
    CampaignEvent.subjectType, hbody, hsubject, hopen, bind, Except.bind, pure, Except.pure]

theorem applyEvent_campaignTerminal (hbody : event.body = .campaignTerminal terminal payload)
    (state : RecoveryState) : state.applyEvent event = .ok state := by
  simp [RecoveryState.applyEvent, hbody]

/-- A terminal event asks for no retry. -/
theorem applyRetryRequests_campaignTerminal [Jitter] {ordered : List CampaignEvent}
    {trials retried : Dict String TrialProjection}
    (hbody : event.body = .campaignTerminal terminal payload)
    (h : applyRetryRequests lock ordered trials = .ok retried) :
    applyRetryRequests lock (ordered ++ [event]) trials = .ok retried := by
  rw [applyRetryRequests_eq] at h ⊢
  obtain ⟨legacy, hlegacy, h⟩ := bind_eq_ok.mp h
  obtain ⟨requestedAt, hrequested, h⟩ := bind_eq_ok.mp h
  refine bind_eq_ok.mpr ⟨legacy, ?_, bind_eq_ok.mpr ⟨requestedAt, ?_, h⟩⟩
  · have hany : (ordered ++ [event]).any CampaignEvent.legacyRetry =
        ordered.any CampaignEvent.legacyRetry := by
      simp [CampaignEvent.legacyRetry, hbody]
    rw [hany]
    split_ifs at hlegacy ⊢ with hretry
    · obtain ⟨progress, hprogress, hend⟩ := bind_eq_ok.mp hlegacy
      refine bind_eq_ok.mpr ⟨progress, ?_, hend⟩
      refine foldlM_append_ok.mpr ⟨progress, hprogress, foldlM_cons_ok.mpr ⟨progress, ?_, rfl⟩⟩
      rw [legacyStep_eq_ok]
      exact ⟨progress.1, applyEvent_campaignTerminal hbody _,
        .inl ⟨by simp [CampaignEvent.isRetryRequest, hbody], rfl⟩⟩
    · exact hlegacy
  · refine foldlM_append_ok.mpr ⟨requestedAt, hrequested,
      foldlM_cons_ok.mpr ⟨requestedAt, ?_, rfl⟩⟩
    simp [requestStep, hbody]

theorem observedStatus_campaign (terminal : TerminalStatus) (state : RecoveryState) :
    observedStatus terminal.campaign state = terminal.campaign := by
  cases terminal <;> simp [observedStatus, TerminalStatus.campaign, CampaignStatus.terminal]

theorem recorded_campaign (terminal : TerminalStatus) :
    terminal.campaign.recorded = some terminal := by
  cases terminal <;> rfl

theorem recorded_eq_none {status : CampaignStatus} (h : status.terminal = false) :
    status.recorded = none := by
  cases status <;> first | rfl | cases h

/-- The decision about a log that has not ended is safe: its waves are closed and nothing of it is
under way. Recording it keeps its status and its counts. -/
theorem terminalDecision_stable [Jitter] {events : List CampaignEvent}
    {projection : RecoveryProjection} {decision : TerminalDecision} (hdistinct : lock.Distinct)
    (hruns : (lock.runs.map CampaignRunLock.runId).Nodup)
    (hopen : ∀ event ∈ events, event.isTerminal = false)
    (h : projectRecovery lock events = .ok projection)
    (hdecision : projection.terminalDecision = some decision) :
    (∀ wave ∈ projection.waves.values, wave.status = .closed) ∧
      (∀ action ∈ projection.campaign.actions.values, action.actionKind.billable = true →
        action.status ≠ .failed → ∃ wave,
          projection.waves.get? (waveIdOf action.actionKey) = some wave ∧ wave.status = .closed) ∧
      (∀ trial ∈ projection.trials.values, trial.status ≠ .active) ∧
      (decision.counts.planned = 0 ∧ decision.counts.active = 0 ∧ decision.counts.retrying = 0 ∧
        decision.counts.trials = projection.trials.length) ∧
      ∀ event payload, event.body = .campaignTerminal decision.status payload →
        event.subjectId = lock.campaignId →
        (∀ other ∈ events, other.eventId ≠ event.eventId) →
        (∀ other ∈ events, other.observedAt < event.observedAt) →
        ∃ ended recorded, projectRecovery lock (events ++ [event]) = .ok ended ∧
          ended.campaign.status = decision.status.campaign ∧
          ended.terminalDecision = some recorded ∧ recorded.status = decision.status ∧
          recorded.counts = decision.counts := by
  obtain ⟨ordered, hordered⟩ := exists_orderedEvents h
  obtain ⟨campaign, state, trials, retried, shards, runs, hcampaign, hstate, htrials, hretried,
    hshards, hderived, rfl⟩ := (projectRecovery_eq_ok hordered).mp h
  obtain ⟨first, rest, last, rfl, hsubmits, hfold, rfl⟩ :=
    (projectCampaign_eq_ok hordered).mp hcampaign
  -- without a terminal event the campaign has not ended
  have hlast : last.status.terminal = false := by
    refine foldlM_invariant (I := fun state ↦ state.status.terminal = false) rfl ?_ hfold
    intro state event next hevent _ hstep
    have hmem := (mem_orderedEvents hordered event).mp (List.mem_cons_of_mem _ hevent)
    have hiff := (campaignStep_terminal hstep).2
    rw [hopen event hmem] at hiff
    simpa using hiff
  have hstatus : (observedStatus last.status state).terminal = false := by
    rcases observedStatus_eq_or last.status state with heq | ⟨-, heq⟩ | ⟨-, heq⟩
    · rw [heq]
      exact hlast
    · rw [heq]
      rfl
    · rw [heq]
      rfl
  have hdecided := decided_of_terminalDecision (recorded_eq_none hstatus) hdecision
  refine ⟨fun wave ↦ hdecided.wave_closed, fun action ↦ hdecided.action_closed,
    fun trial ↦ hdecided.not_active, hdecided.settled, ?_⟩
  intro event payload hbody hsubject hfresh hlate
  have hextended := orderedEvents_concat_last hordered hfresh hlate
  have hended : projectCampaign lock (events ++ [event]) = .ok
      { campaignId := lock.campaignId
        planDigest := lock.planDigest
        status := decision.status.campaign
        eventCount := (first :: rest ++ [event]).length
        lastObservedAt := ((rest ++ [event]).getLastD first).observedAt
        actions := last.actions } := by
    rw [projectCampaign_eq_ok hextended]
    refine ⟨first, rest ++ [event],
      ⟨decision.status.campaign, last.previous, last.requirements, last.actions⟩, rfl, hsubmits, ?_,
      rfl⟩
    exact foldlM_append_ok.mpr ⟨last, hfold,
      foldlM_cons_ok.mpr ⟨_, campaignStep_campaignTerminal hbody hsubject hlast, rfl⟩⟩
  have hfinal : (first :: rest ++ [event]).foldlM RecoveryState.applyEvent (initialState lock) =
      .ok state :=
    foldlM_append_ok.mpr ⟨state, hstate,
      foldlM_cons_ok.mpr ⟨state, applyEvent_campaignTerminal hbody state, rfl⟩⟩
  have hprojected := (projectRecovery_eq_ok hextended).mpr ⟨_, state, trials, retried, shards, runs,
    hended, hfinal, htrials, applyRetryRequests_campaignTerminal hbody hretried, hshards, hderived, rfl⟩
  have hkeys : retried.keys = (initialState lock).trials.keys :=
    (Consistent.of_projectRecovery h).trialKeys
  have hscored := scored_of_complete hdistinct hruns (RecoveryState.Kept.run hstate)
    (RecoveryState.RunsKept.run hstate) hkeys hshards hderived
  refine ⟨_, Campaign.decision lock decision.status
    (terminalCounts decision.status.campaign (projectionCounts retried)) "recorded", hprojected,
    observedStatus_campaign _ _, ?_, rfl, hdecided.terminalCounts_eq hscored⟩
  simp only [terminalDecision, observedStatus_campaign, recorded_campaign]

end Stable

/-! ### A campaign that has ended -/

section Ended

variable {lock : CampaignLock} {events : List CampaignEvent} {campaign : CampaignProjection}

/-- The log of a campaign that has ended closes with the event that ended it. -/
theorem exists_terminal_of_ended {state last : CampaignState} (hopen : state.status.terminal = false)
    (h : events.foldlM (campaignStep lock) state = .ok last) (hended : last.status.terminal = true) :
    ∃ before event terminal payload, events = before ++ [event] ∧
      event.body = .campaignTerminal terminal payload ∧ last.status = terminal.campaign := by
  rcases List.eq_nil_or_concat events with rfl | ⟨before, event, rfl⟩
  · cases h
    simp [hopen] at hended
  · rw [List.concat_eq_append] at h
    obtain ⟨middle, -, hlast⟩ := foldlM_append_ok.mp h
    obtain ⟨next, hnext, hend⟩ := foldlM_cons_ok.mp hlast
    cases hend
    obtain ⟨hmiddle, hiff⟩ := campaignStep_terminal hnext
    have hterminal := hiff.mp hended
    unfold CampaignEvent.isTerminal at hterminal
    split at hterminal
    next terminal payload hbody =>
      refine ⟨before, event, terminal, payload, List.concat_eq_append, hbody, ?_⟩
      by_cases hsubject : event.subjectId = lock.campaignId
      · rw [campaignStep_campaignTerminal hbody hsubject hmiddle] at hnext
        cases hnext
        rfl
      · simp [campaignStep, applyCampaignEvent, CampaignEvent.subjectType, hbody, hmiddle, hsubject,
          bind, Except.bind] at hnext
    · cases hterminal

/-- However the log of a campaign that has ended grows, its status and its last time stay. -/
theorem ended_stays {later : List CampaignEvent} {next : CampaignProjection}
    (h : projectCampaign lock events = .ok campaign) (hended : campaign.status.terminal = true)
    (hlater : ∀ event ∈ events, event ∈ later) (hnext : projectCampaign lock later = .ok next) :
    next.status = campaign.status ∧ next.lastObservedAt = campaign.lastObservedAt := by
  obtain ⟨ordered, hordered, -⟩ := bind_eq_ok.mp h
  obtain ⟨ordered', hordered', -⟩ := bind_eq_ok.mp hnext
  obtain ⟨first, rest, last, rfl, -, hfold, rfl⟩ := (projectCampaign_eq_ok hordered).mp h
  obtain ⟨first', rest', last', rfl, hsubmits, hfold', rfl⟩ := (projectCampaign_eq_ok hordered').mp hnext
  obtain ⟨before, event, terminal, payload, rfl, hbody, hstatus⟩ :=
    exists_terminal_of_ended rfl hfold hended
  have hterminal : event.isTerminal = true := by simp [CampaignEvent.isTerminal, hbody]
  have hbehind : event ∈ rest' := by
    have hmem := hlater event ((mem_orderedEvents hordered event).mp (by simp))
    rcases List.mem_cons.mp ((mem_orderedEvents hordered' event).mpr hmem) with rfl | hbehind
    · simp [hsubmits.1] at hbody
    · exact hbehind
  have hended' : last'.status.terminal = true := by
    by_contra hopen
    rw [isTerminal_eq_false hfold' (by simpa using hopen) event hbehind] at hterminal
    cases hterminal
  obtain ⟨before', event', terminal', payload', rfl, hbody', hstatus'⟩ :=
    exists_terminal_of_ended rfl hfold' hended'
  rcases List.mem_append.mp hbehind with hbefore | hlast
  · rw [isTerminal_eq_false_of_split hfold' event hbefore] at hterminal
    cases hterminal
  · obtain rfl := List.mem_singleton.mp hlast
    rw [hbody] at hbody'
    cases hbody'
    exact ⟨hstatus'.trans hstatus.symm, by simp⟩

/-- A campaign whose cancellation was requested does not return to work. -/
theorem cancelled_stays {event : CampaignEvent} {reason : String}
    (h : projectCampaign lock events = .ok campaign) (hevent : event ∈ events)
    (hbody : event.body = .cancelRequested reason) :
    campaign.status ∈ [.cancelRequested, .draining, .manualIntervention] ∨
      campaign.status.terminal = true := by
  obtain ⟨ordered, hordered, -⟩ := bind_eq_ok.mp h
  obtain ⟨first, rest, last, rfl, hsubmits, hfold, rfl⟩ := (projectCampaign_eq_ok hordered).mp h
  rcases List.mem_cons.mp ((mem_orderedEvents hordered event).mpr hevent) with rfl | hbehind
  · simp [hsubmits.1] at hbody
  · rcases windsDown_foldlM hfold (by simp [CampaignState.Tracked]) hbehind hbody with
      hstatus | hstatus | hstatus | ⟨hstatus, -⟩ <;> simp [hstatus]

end Ended

/-! ### A campaign that is cancelled -/

section Cancelled

local instance decidedJitter : Jitter := ⟨fun _ ↦ 0, zero_lt_byte⟩

/-- The operator cancels before anything was started. -/
def cancelledLog : List CampaignEvent :=
  sampleLog [⟨"cancel", "campaign", 1, .cli, .cancelRequested "enough"⟩]

/-- A log to which `terminalDecision_stable` applies. -/
theorem terminalDecision_stable_cancelled : ∃ projection decision,
    projectRecovery endpointLock cancelledLog = .ok projection ∧
      projection.terminalDecision = some decision ∧ endpointLock.Distinct ∧
      (endpointLock.runs.map CampaignRunLock.runId).Nodup ∧
      (∀ event ∈ cancelledLog, event.isTerminal = false) ∧
      decision.counts.trials = projection.trials.length ∧
      ∃ ended, projectRecovery endpointLock (cancelledLog ++
        [⟨"cancelled", "campaign", 2, .reconciler,
          .campaignTerminal decision.status ⟨none, none, none⟩⟩]) = .ok ended ∧
        ended.campaign.status = decision.status.campaign := by
  obtain ⟨projection, hprojection⟩ := exists_ok_of_toBool
    (show (projectRecovery endpointLock cancelledLog).toBool = true by decide +kernel)
  have hsome : ((projectRecovery endpointLock cancelledLog).toOption.all fun projection ↦
      projection.terminalDecision.isSome) = true := by
    decide +kernel
  simp only [hprojection, Except.toOption, Option.all_some] at hsome
  obtain ⟨decision, hdecision⟩ := Option.isSome_iff_exists.mp hsome
  have hdistinct : endpointLock.Distinct := by decide +kernel
  have hruns : (endpointLock.runs.map CampaignRunLock.runId).Nodup := by decide +kernel
  have hopen : ∀ event ∈ cancelledLog, event.isTerminal = false := by decide +kernel
  obtain ⟨-, -, -, hcounts, hstable⟩ :=
    terminalDecision_stable hdistinct hruns hopen hprojection hdecision
  obtain ⟨ended, recorded, hended, hstatus, -⟩ :=
    hstable ⟨"cancelled", "campaign", 2, .reconciler, .campaignTerminal decision.status
      ⟨none, none, none⟩⟩ _ rfl rfl (by simp [cancelledLog, sampleLog])
      (by simp [cancelledLog, sampleLog])
  exact ⟨projection, decision, hprojection, hdecision, hdistinct, hruns, hopen, hcounts.2.2.2,
    ended, hended, hstatus⟩

/-- The cancelled campaign has ended. -/
def stoppedLog : List CampaignEvent :=
  cancelledLog ++ [⟨"stopped", "campaign", 2, .reconciler, .campaignTerminal .cancelled ⟨none, none, none⟩⟩]

/-- An event from before the end. -/
def drain : CampaignEvent := ⟨"drain", "campaign", 1, .reconciler, .campaignDraining ⟨none, none⟩⟩

theorem ended_stays_drained : ∃ campaign next, projectCampaign endpointLock stoppedLog = .ok campaign ∧
    projectCampaign endpointLock (drain :: stoppedLog) = .ok next ∧ next.status = campaign.status := by
  obtain ⟨campaign, h⟩ := exists_ok_of_toBool
    (show (projectCampaign endpointLock stoppedLog).toBool = true by decide)
  obtain ⟨next, hnext⟩ := exists_ok_of_toBool
    (show (projectCampaign endpointLock (drain :: stoppedLog)).toBool = true by decide)
  have hended : ((projectCampaign endpointLock stoppedLog).toOption.all fun campaign ↦
      campaign.status.terminal) = true := by
    decide
  rw [h] at hended
  exact ⟨campaign, next, h, hnext, (ended_stays h hended (fun _ ↦ List.mem_cons_of_mem drain) hnext).1⟩

theorem cancelled_stays_draining : ∃ campaign, projectCampaign endpointLock (drain :: cancelledLog) =
    .ok campaign ∧ (campaign.status ∈ [.cancelRequested, .draining, .manualIntervention] ∨
      campaign.status.terminal = true) := by
  obtain ⟨campaign, h⟩ := exists_ok_of_toBool
    (show (projectCampaign endpointLock (drain :: cancelledLog)).toBool = true by decide)
  exact ⟨campaign, h, cancelled_stays h
    (List.mem_cons_of_mem _ (List.mem_cons_of_mem _ List.mem_cons_self)) rfl⟩

end Cancelled

end HarborHF.Campaign
