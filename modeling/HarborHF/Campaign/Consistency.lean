import HarborHF.Campaign.Projection
import HarborHF.Encodings.Pairs

/-!
# What a projection is like

The log of a campaign cannot change its plan: the projected shards and trials are those of the lock,
every execution is of a trial of its shard, and every wave has shards of the lock
(`RecoveryState.Kept`). The status of a projected trial is supported by its executions: a planned
trial has none, an active one has one that is running, and one that waits for a retry has been
executed (`TrialProjection.Supported`). `Consistent` collects what the planner relies on.
-/

set_option autoImplicit false

namespace HarborHF.Campaign

open Relational

/-! ### The lock -/

/-- The shards of a lock have different identifiers, and so have its trials. -/
structure CampaignLock.Distinct (lock : CampaignLock) : Prop where
  shards : (lock.shards.map CampaignShardLock.shardId).Nodup
  trials : ((lock.shards.flatMap CampaignShardLock.trials).map CampaignTrialLock.trialId).Nodup

instance (lock : CampaignLock) : Decidable lock.Distinct :=
  decidable_of_iff ((lock.shards.map CampaignShardLock.shardId).Nodup ∧
    ((lock.shards.flatMap CampaignShardLock.trials).map CampaignTrialLock.trialId).Nodup)
    ⟨fun h ↦ ⟨h.1, h.2⟩, fun h ↦ ⟨h.1, h.2⟩⟩

variable {lock : CampaignLock}

theorem runs_of_buildCampaignLock [LockIds] {plan : CampaignPlan} {campaignId : String}
    (h : buildCampaignLock plan campaignId = .ok lock) :
    lock.runs = plan.runs.map (lockRun campaignId) := by
  unfold buildCampaignLock at h
  obtain ⟨waves, -, h⟩ := bind_eq_ok.mp h
  split at h
  · cases h
  · cases h
    rfl

theorem nodup_runs_of_buildCampaignLock [LockIds] {plan : CampaignPlan} {campaignId : String}
    (h : buildCampaignLock plan campaignId = .ok lock)
    (hcells : (plan.runs.map fun run ↦ run.cellDigest).Nodup) :
    (lock.runs.map CampaignRunLock.runId).Nodup := by
  have hids : lock.runs.map CampaignRunLock.runId =
      (plan.runs.map fun run ↦ run.cellDigest).map (LockIds.runId campaignId) := by
    simp [runs_of_buildCampaignLock h, lockRun, Function.comp_def]
  rw [hids]
  exact hcells.map fun _ _ heq ↦ (LockIds.runId_injective heq).2

/-- A lock that was built of different cells, shards and trials has different identifiers. -/
theorem distinct_of_buildCampaignLock [LockIds] {plan : CampaignPlan} {campaignId : String}
    (h : buildCampaignLock plan campaignId = .ok lock)
    (hcells : (plan.runs.map fun run ↦ run.cellDigest).Nodup)
    (hshards : ∀ run ∈ plan.runs, (run.shards.map PlannedShard.shardDigest).Nodup)
    (htrials : ∀ run ∈ plan.runs,
      ((run.shards.flatMap PlannedShard.trials).map PlannedTrial.trialDigest).Nodup) :
    (lock.runs.map CampaignRunLock.runId).Nodup ∧ lock.Distinct := by
  have hruns := runs_of_buildCampaignLock h
  have hcell : plan.runs.Pairwise fun first second ↦ first.cellDigest ≠ second.cellDigest :=
    List.pairwise_map.mp hcells
  refine ⟨nodup_runs_of_buildCampaignLock h hcells, ?_, ?_⟩
  · have hids : lock.shards.map CampaignShardLock.shardId = plan.runs.flatMap fun run ↦
        (run.shards.map PlannedShard.shardDigest).map
          (LockIds.shardId (LockIds.runId campaignId run.cellDigest)) := by
      simp [CampaignLock.shards, hruns, List.flatMap_map, List.map_flatMap, lockRun, lockShard,
        Function.comp_def]
    rw [hids, List.nodup_flatMap]
    constructor
    · intro run hrun
      exact (hshards run hrun).map fun _ _ heq ↦ (LockIds.shardId_injective heq).2
    · refine hcell.imp ?_
      intro first second hne id hfirst hsecond
      obtain ⟨digest, -, rfl⟩ := List.mem_map.mp hfirst
      obtain ⟨digest', -, heq⟩ := List.mem_map.mp hsecond
      exact hne (LockIds.runId_injective (LockIds.shardId_injective heq).1).2.symm
  · have hids : (lock.shards.flatMap CampaignShardLock.trials).map CampaignTrialLock.trialId =
        plan.runs.flatMap fun run ↦
          ((run.shards.flatMap PlannedShard.trials).map PlannedTrial.trialDigest).map
            (LockIds.trialId (LockIds.runId campaignId run.cellDigest)) := by
      simp [CampaignLock.shards, hruns, List.flatMap_map, List.map_flatMap, lockRun, lockShard,
        lockTrial, Function.comp_def, List.flatMap_assoc]
    rw [hids, List.nodup_flatMap]
    constructor
    · intro run hrun
      exact (htrials run hrun).map fun _ _ heq ↦ (LockIds.trialId_injective heq).2
    · refine hcell.imp ?_
      intro first second hne id hfirst hsecond
      obtain ⟨digest, -, rfl⟩ := List.mem_map.mp hfirst
      obtain ⟨digest', -, heq⟩ := List.mem_map.mp hsecond
      exact hne (LockIds.runId_injective (LockIds.trialId_injective heq).1).2.symm

section Pairs

open Encodings in
local instance pairIds : LockIds :=
  ⟨pairText, pairText, pairText, pairText_injective, pairText_injective, pairText_injective⟩

/-- One task, tried twice. -/
def twicePlan : CampaignPlan :=
  ⟨"plan", 1, {}, none, none, [], [⟨⟨"cell", "d", "m", "endpoint", "agent", none, none, none, none⟩,
    [⟨"one", [⟨"first", "t", "d", 1⟩]⟩, ⟨"two", [⟨"second", "t", "d", 2⟩]⟩]⟩]⟩

theorem distinct_twicePlan : ∃ lock, buildCampaignLock twicePlan "c" = .ok lock ∧
    (lock.runs.map CampaignRunLock.runId).Nodup ∧ lock.Distinct := by
  have h : buildCampaignLock twicePlan "c" = .ok _ := rfl
  exact ⟨_, h, distinct_of_buildCampaignLock h (by decide) (by decide) (by decide)⟩

end Pairs

section Initial

variable {lock : CampaignLock}

theorem nodup_keys_initial_trials (lock : CampaignLock) : (initialState lock).trials.keys.Nodup :=
  Dict.nodup_keys_foldl_set List.nodup_nil

/-- A trial at the start is one of the lock's, in its shard. -/
theorem exists_of_initial_trial {id : String} {trial : TrialProjection}
    (h : (initialState lock).trials.get? id = some trial) :
    ∃ shard ∈ lock.shards, ∃ locked ∈ shard.trials, locked.trialId = id ∧
      trial =
        { trialId := locked.trialId
          shardId := shard.shardId
          logicalAttempt := locked.logicalAttempt } := by
  unfold initialState at h
  rw [Dict.get?_foldl_set] at h
  simp only [Dict.get?_nil, Option.or_none, Option.map_eq_some_iff] at h
  obtain ⟨⟨shard, locked⟩, hlast, rfl⟩ := h
  obtain ⟨hmem, hname⟩ := List.mem_filter.mp (List.mem_of_getLast? hlast)
  obtain ⟨other, hshard, hmap⟩ := List.mem_flatMap.mp hmem
  obtain ⟨trial, htrial, heq⟩ := List.mem_map.mp hmap
  cases heq
  exact ⟨shard, hshard, locked, htrial, by simpa using hname, rfl⟩

/-- With different shards the shard at the start has the trials of the lock's. -/
theorem exists_initial_shard (hdistinct : lock.Distinct) {shard : CampaignShardLock}
    (hshard : shard ∈ lock.shards) :
    ∃ first, (initialState lock).shards.get? shard.shardId = some first ∧
      first.shardId = shard.shardId ∧
      first.trialIds = shard.trials.map CampaignTrialLock.trialId := by
  obtain ⟨run, hrun, hmem⟩ := List.mem_flatMap.mp hshard
  have hentry : (run, shard) ∈
      lock.runs.flatMap fun run ↦ run.shards.map fun shard ↦ (run, shard) :=
    List.mem_flatMap.mpr ⟨run, hrun, List.mem_map.mpr ⟨shard, hmem, rfl⟩⟩
  refine ⟨_, Dict.get?_foldl_set_of_nodup ?_ hentry, rfl, rfl⟩
  have hmap : (lock.runs.flatMap fun run ↦ run.shards.map fun shard ↦ (run, shard)).map
      (fun entry ↦ entry.2.shardId) = lock.shards.map CampaignShardLock.shardId := by
    simp [CampaignLock.shards, List.map_flatMap, Function.comp_def]
  rw [hmap]
  exact hdistinct.shards

end Initial

/-! ### The fold over the log -/

/-- What the events of a log do not change, and what they may name. -/
structure RecoveryState.Kept (lock : CampaignLock) (state : RecoveryState) : Prop where
  trialKeys : state.trials.keys = (initialState lock).trials.keys
  trials : ∀ id trial, state.trials.get? id = some trial →
    (trial.status = .planned ∨ trial.status.terminal = true) ∧
      ∃ first, (initialState lock).trials.get? id = some first ∧
        trial = { first with status := trial.status }
  shardKeys : state.shards.keys = (initialState lock).shards.keys
  shards : ∀ id shard, state.shards.get? id = some shard →
    ∃ first, (initialState lock).shards.get? id = some first ∧
      shard = { first with observedStatus := shard.observedStatus }
  executions : ∀ execution ∈ state.executions.values,
    ∃ first, (initialState lock).trials.get? execution.trialId = some first ∧
      first.shardId = execution.shardId
  waveKeys : state.waves.keys.Nodup
  waves : ∀ id wave, state.waves.get? id = some wave →
    wave.waveId = id ∧
      ∀ shardId ∈ wave.shardIds, ((initialState lock).shards.get? shardId).isSome = true

theorem TrialOutcome.terminal_trial (outcome : TrialOutcome) : outcome.trial.terminal = true := by
  cases outcome <;> rfl

/-- Closing waves keeps them. -/
theorem get?_of_closeRecovered {waveIds : List String} {waves closed : Dict String WaveProjection}
    (h : waveIds.foldlM RecoveryState.closeRecovered waves = .ok closed) {id : String}
    {wave : WaveProjection} (hwave : closed.get? id = some wave) :
    ∃ first, waves.get? id = some first ∧ wave = { first with status := wave.status } := by
  induction waveIds generalizing waves with
  | nil =>
    cases h
    exact ⟨wave, hwave, rfl⟩
  | cons waveId rest ih =>
    obtain ⟨next, hnext, hrest⟩ := foldlM_cons_ok.mp h
    obtain ⟨middle, hmiddle, hsame⟩ := ih hrest
    unfold RecoveryState.closeRecovered at hnext
    split at hnext
    · cases hnext
    · rename_i first hfirst
      split_ifs at hnext
      · cases hnext
        rw [Dict.get?_set] at hmiddle
        by_cases hid : id = waveId
        · rw [if_pos hid] at hmiddle
          cases hmiddle
          exact ⟨first, hid ▸ hfirst, hsame⟩
        · rw [if_neg hid] at hmiddle
          exact ⟨middle, hmiddle, hsame⟩
      · cases hnext
        exact ⟨middle, hmiddle, hsame⟩

theorem keys_of_closeRecovered {waveIds : List String} {waves closed : Dict String WaveProjection}
    (h : waveIds.foldlM RecoveryState.closeRecovered waves = .ok closed) :
    closed.keys = waves.keys := by
  refine foldlM_invariant (I := fun current : Dict String WaveProjection ↦
    current.keys = waves.keys) rfl ?_ h
  intro current waveId next _ hcurrent hnext
  unfold RecoveryState.closeRecovered at hnext
  split at hnext
  · cases hnext
  · rename_i first hfirst
    split_ifs at hnext
    · cases hnext
      rw [Dict.keys_set_of_get?_eq_some hfirst, hcurrent]
    · cases hnext
      exact hcurrent

/-- The wave after an event keeps the name of the event, and has the shards of its payload. -/
theorem nextWave_eq_ok {waveId : String} {producer : Producer} {status : WaveStatus}
    {payload : WaveLifecyclePayload} {previous : Option WaveProjection} {wave : WaveProjection}
    (h : nextWave waveId producer status payload previous = .ok wave) :
    (wave.waveId = waveId ∨ previous = some wave) ∧ wave.shardIds = payload.shardIds := by
  cases previous with
  | none =>
    cases h
    exact ⟨.inl rfl, rfl⟩
  | some previous =>
    simp only [nextWave] at h
    split_ifs at h with hidentity
    · cases h
      rw [ne_eq, not_not] at hidentity
      exact ⟨.inr rfl, congrArg WaveLifecyclePayload.shardIds hidentity⟩
    · obtain ⟨-, -, hwave⟩ := bind_eq_ok.mp h
      cases hwave
      exact ⟨.inl rfl, rfl⟩

namespace RecoveryState.Kept

variable {lock : CampaignLock} {state next : RecoveryState} {event : CampaignEvent}

theorem initial (lock : CampaignLock) : (initialState lock).Kept lock where
  trialKeys := rfl
  trials id trial h := by
    obtain ⟨shard, -, locked, -, -, rfl⟩ := exists_of_initial_trial h
    exact ⟨.inl rfl, _, h, rfl⟩
  shardKeys := rfl
  shards id shard h := ⟨shard, h, rfl⟩
  executions := by simp [initialState, Dict.values]
  waveKeys := List.nodup_nil
  waves := by simp [initialState]

theorem step (h : state.Kept lock) (hnext : state.applyEvent event = .ok next) :
    next.Kept lock := by
  cases applied_of_applyEvent hnext with
  | resolved payload waves hbody hwaves =>
    refine { h with waveKeys := ?_, waves := ?_ }
    · rw [keys_of_closeRecovered hwaves]
      exact h.waveKeys
    · intro id wave hwave
      obtain ⟨first, hfirst, hsame⟩ := get?_of_closeRecovered hwaves hwave
      rw [hsame]
      exact h.waves id first hfirst
  | run status payload run hbody hget => exact { h with }
  | shard status payload shard hbody hget =>
    refine { h with shardKeys := ?_, shards := ?_ }
    · rw [Dict.keys_set_of_get?_eq_some hget, h.shardKeys]
    · intro id other hother
      rw [Dict.get?_set] at hother
      by_cases hid : id = event.subjectId
      · rw [if_pos hid] at hother
        cases hother
        obtain ⟨first, hfirst, hsame⟩ := h.shards _ shard hget
        rw [hid]
        exact ⟨first, hfirst, by rw [hsame]⟩
      · rw [if_neg hid] at hother
        exact h.shards id other hother
  | trial outcome payload trial hbody hget =>
    refine { h with trialKeys := ?_, trials := ?_ }
    · rw [Dict.keys_set_of_get?_eq_some hget, h.trialKeys]
    · intro id other hother
      rw [Dict.get?_set] at hother
      by_cases hid : id = event.subjectId
      · rw [if_pos hid] at hother
        cases hother
        obtain ⟨-, first, hfirst, hsame⟩ := h.trials _ trial hget
        rw [hid]
        exact ⟨.inr outcome.terminal_trial, first, hfirst, by rw [hsame]⟩
      · rw [if_neg hid] at hother
        exact h.trials id other hother
  | started payload hbody hknown hnew hnumber =>
    refine { h with executions := ?_ }
    intro execution hexecution
    rcases Dict.mem_values_set hexecution with rfl | hmem
    · obtain ⟨trial, htrial, hshard⟩ := Option.any_eq_true _ _ |>.mp hknown
      obtain ⟨-, first, hfirst, hsame⟩ := h.trials _ trial htrial
      refine ⟨first, hfirst, ?_⟩
      rw [hsame] at hshard
      simpa using hshard
    · exact h.executions execution hmem
  | passed outcome payload execution hbody hget hended hsentinel => exact h
  | finished outcome payload execution hbody hget hactive hidentity hcompleted hfailed =>
    refine { h with executions := ?_ }
    intro other hother
    rcases Dict.mem_values_set hother with rfl | hmem
    · exact h.executions execution (Dict.mem_values_of_get?_eq_some hget)
    · exact h.executions other hmem
  | wave status payload wave hbody hknown hwave =>
    refine { h with waveKeys := Dict.nodup_keys_set h.waveKeys, waves := ?_ }
    intro id other hother
    rw [Dict.get?_set] at hother
    by_cases hid : id = event.subjectId
    · rw [if_pos hid] at hother
      cases hother
      obtain ⟨hname, hshards⟩ := nextWave_eq_ok hwave
      refine ⟨?_, ?_⟩
      · rw [hid]
        rcases hname with hname | hprevious
        · exact hname
        · exact (h.waves _ _ hprevious).1
      · intro shardId hshardId
        rw [hshards] at hshardId
        rw [Dict.get?_isSome_iff, ← h.shardKeys, ← Dict.get?_isSome_iff]
        exact hknown shardId hshardId
    · rw [if_neg hid] at hother
      exact h.waves id other hother
  | spend subjectType amount hbody => exact { h with }
  | unread hsubject hresolution => exact h

theorem run {events : List CampaignEvent}
    (h : events.foldlM RecoveryState.applyEvent (initialState lock) = .ok state) :
    state.Kept lock :=
  foldlM_invariant (initial lock) (fun _ _ _ _ hkept hnext ↦ hkept.step hnext) h

end RecoveryState.Kept

/-! ### Trials -/

/-- The status of a trial is supported by the executions that were observed of it. -/
structure TrialProjection.Supported (trial : TrialProjection)
    (executions : List ExecutionProjection) : Prop where
  observed : ∀ execution ∈ trial.executions.values, execution ∈ executions
  empty : trial.executions = [] → executions = []
  planned : trial.status = .planned → executions = []
  active : trial.status = .active → ∃ execution ∈ executions, execution.status = .active
  waiting : trial.status = .retryWait → executions ≠ []

theorem mem_of_mem_executionMap {executions : List ExecutionProjection}
    {execution : ExecutionProjection} (h : execution ∈ (executionMap executions).values) :
    execution ∈ executions := by
  have hnodup : (executionMap executions).keys.Nodup := by
    unfold executionMap
    exact Dict.nodup_keys_foldl_set List.nodup_nil
  obtain ⟨id, hid⟩ := Dict.exists_get?_of_mem_values hnodup h
  unfold executionMap at hid
  rw [Dict.get?_foldl_set] at hid
  simp only [Dict.get?_nil, Option.or_none, Option.map_eq_some_iff] at hid
  obtain ⟨other, hlast, rfl⟩ := hid
  exact (List.mem_filter.mp (List.mem_of_getLast? hlast)).1

theorem eq_nil_of_executionMap {executions : List ExecutionProjection}
    (h : executionMap executions = []) : executions = [] := by
  cases hlast : executions.getLast? with
  | none => exact List.getLast?_eq_none_iff.mp hlast
  | some latest =>
    have hget : ((executionMap executions).get? latest.executionId).isSome = true := by
      unfold executionMap
      rw [Dict.get?_foldl_set]
      simp only [Dict.get?_nil, Option.or_none, Option.isSome_map, List.getLast?_isSome]
      refine List.ne_nil_of_mem (List.mem_filter.mpr ⟨List.mem_of_getLast? hlast, ?_⟩)
      simp
    rw [h] at hget
    cases hget

/-- A failed execution settles its trial or has it wait. -/
theorem failedTrialState_eq_ok [Jitter] {execution : ExecutionProjection}
    {count : ℕ} {status : TrialStatus} {retryAt : Option ℕ}
    (h : failedTrialState lock execution count = .ok (status, retryAt)) :
    status = .invalid ∨ status = .failedInfrastructure ∨ status = .retryWait := by
  unfold failedTrialState at h
  split at h
  · cases h
    exact .inr (.inl rfl)
  · split_ifs at h
    · cases h
      exact .inl rfl
    · cases h
      exact .inr (.inl rfl)
    · cases h
      exact .inr (.inl rfl)
    · obtain ⟨delay, -, hdelay⟩ := bind_eq_ok.mp h
      cases hdelay
      exact .inr (.inr rfl)

section Derived

variable [Jitter] {lock : CampaignLock} {trial derived : TrialProjection}
  {executions : List ExecutionProjection}

/-- A derived trial is the trial it was derived from. -/
structure TrialProjection.Same (first second : TrialProjection) : Prop where
  trialId : first.trialId = second.trialId
  shardId : first.shardId = second.shardId
  logicalAttempt : first.logicalAttempt = second.logicalAttempt

theorem supported_deriveTrial (hstatus : trial.status = .planned ∨ trial.status.terminal = true)
    (hown : ∀ execution ∈ trial.executions.values, execution ∈ executions)
    (h : deriveTrial lock trial executions = .ok derived) :
    derived.Same trial ∧ derived.Supported executions := by
  -- sorting keeps the executions
  have hperm (execution : ExecutionProjection) {order : ExecutionProjection →
      ExecutionProjection → Prop} [DecidableRel order] :
      execution ∈ executions.insertionSort order ↔ execution ∈ executions :=
    List.mem_insertionSort order
  have hempty {order : ExecutionProjection → ExecutionProjection → Prop} [DecidableRel order]
      (h : executions.insertionSort order = []) : executions = [] := by
    rw [← List.length_eq_zero_iff, ← List.length_insertionSort order, h]
    rfl
  unfold deriveTrial at h
  dsimp only at h
  split at h
  · cases h
  split at h
  · cases h
  split at h
  · rename_i hterminal
    cases h
    refine ⟨⟨rfl, rfl, rfl⟩, ?_, ?_, ?_, ?_, ?_⟩
    · intro execution hexecution
      exact (hperm execution).mp (mem_of_mem_executionMap hexecution)
    · intro hnone
      exact hempty (eq_nil_of_executionMap hnone)
    all_goals
      intro hother
      rw [show trial.status = _ from hother] at hterminal
      cases hterminal
  rename_i hterminal
  have hplanned : trial.status = .planned := hstatus.resolve_right hterminal
  split at h
  · rename_i hnone
    cases h
    have hnil := hempty (List.getLast?_eq_none_iff.mp hnone)
    refine ⟨⟨rfl, rfl, rfl⟩, hown, fun _ ↦ hnil, fun _ ↦ hnil, ?_, ?_⟩
    · intro hactive
      rw [hplanned] at hactive
      cases hactive
    · intro hwaiting
      rw [hplanned] at hwaiting
      cases hwaiting
  · rename_i latest hlatest
    have hmem := (hperm latest).mp (List.mem_of_getLast? hlatest)
    have hne : executions ≠ [] := List.ne_nil_of_mem hmem
    split at h
    · cases h
      refine ⟨⟨rfl, rfl, rfl⟩, ?_, ?_, nofun, nofun, nofun⟩
      · intro execution hexecution
        exact (hperm execution).mp (mem_of_mem_executionMap hexecution)
      · intro hnone
        exact hempty (eq_nil_of_executionMap hnone)
    · have hlast (next : TrialProjection) (hsame : next.Same trial)
          (hmap : next.executions = executionMap (executions.insertionSort fun first second ↦
            first.physicalAttempt ≤ second.physicalAttempt))
          (hplanned : next.status ≠ .planned)
          (hactive : next.status = .active → latest.status = .active) :
          next.Same trial ∧ next.Supported executions := by
        refine ⟨hsame, ?_, ?_, fun h ↦ absurd h hplanned, ?_, fun _ ↦ hne⟩
        · intro execution hexecution
          rw [hmap] at hexecution
          exact (hperm execution).mp (mem_of_mem_executionMap hexecution)
        · intro hnone
          rw [hmap] at hnone
          exact hempty (eq_nil_of_executionMap hnone)
        · intro h
          exact ⟨latest, hmem, hactive h⟩
      split at h
      · rename_i hrunning
        cases h
        exact hlast _ ⟨rfl, rfl, rfl⟩ rfl nofun fun _ ↦ hrunning
      · cases h
        exact hlast _ ⟨rfl, rfl, rfl⟩ rfl nofun nofun
      · obtain ⟨⟨status, retryAt⟩, hstate, hderived⟩ := bind_eq_ok.mp h
        cases hderived
        rcases failedTrialState_eq_ok hstate with rfl | rfl | rfl
        · exact hlast _ ⟨rfl, rfl, rfl⟩ rfl nofun nofun
        · exact hlast _ ⟨rfl, rfl, rfl⟩ rfl nofun nofun
        · exact hlast _ ⟨rfl, rfl, rfl⟩ rfl nofun nofun

/-- Reopening a trial keeps it supported. -/
theorem supported_reopenTrial {requestedAt : Dict (String × ℕ) ℕ} {trialId : String}
    (hsupported : trial.Supported executions)
    (h : reopenTrial lock requestedAt trial trialId = .ok derived) :
    derived.Same trial ∧ derived.Supported executions := by
  unfold reopenTrial at h
  split at h
  · cases h
    exact ⟨⟨rfl, rfl, rfl⟩, hsupported⟩
  · split_ifs at h
    obtain ⟨reopened, hreopened, h⟩ := bind_eq_ok.mp h
    have hderived := supported_deriveTrial (.inl rfl) (fun _ hmem ↦ hmem) hreopened
    have hnil (hvalues : trial.executions.values = []) : executions = [] :=
      hsupported.empty (List.map_eq_nil_iff.mp hvalues)
    have hsame : derived.Same reopened ∧ derived.executions = reopened.executions ∧
        derived.status = reopened.status := by
      cases h
      split_ifs <;> exact ⟨⟨rfl, rfl, rfl⟩, rfl, rfl⟩
    obtain ⟨hids, hexecutions, hstatus⟩ := hsame
    refine ⟨⟨hids.trialId.trans hderived.1.trialId, hids.shardId.trans hderived.1.shardId,
      hids.logicalAttempt.trans hderived.1.logicalAttempt⟩, ?_, ?_, ?_, ?_, ?_⟩
    · intro execution hexecution
      rw [hexecutions] at hexecution
      exact hsupported.observed execution (hderived.2.observed execution hexecution)
    · intro hnone
      rw [hexecutions] at hnone
      exact hnil (hderived.2.empty hnone)
    · intro hplanned
      rw [hstatus] at hplanned
      exact hnil (hderived.2.planned hplanned)
    · intro hactive
      rw [hstatus] at hactive
      obtain ⟨execution, hmem, hrunning⟩ := hderived.2.active hactive
      exact ⟨execution, hsupported.observed execution hmem, hrunning⟩
    · intro hwaiting
      rw [hstatus] at hwaiting
      obtain ⟨execution, hmem⟩ := List.exists_mem_of_ne_nil _ (hderived.2.waiting hwaiting)
      exact List.ne_nil_of_mem (hsupported.observed execution hmem)

end Derived

/-! ### Manual intervention and cancellation -/

/-- Until the campaign ends it is in manual intervention as long as something requires one. -/
def CampaignState.Tracked (state : CampaignState) : Prop :=
  state.status.terminal = false →
    (state.status = .manualIntervention ↔ state.requirements ≠ [])

theorem tracked_campaignStep {state next : CampaignState}
    {event : CampaignEvent} (h : campaignStep lock state event = .ok next)
    (hstate : state.Tracked) : next.Tracked := by
  obtain ⟨status, previous, requirements, actions⟩ := state
  unfold campaignStep at h
  split at h
  · cases h
  rename_i hterminal
  have hiff : status = .manualIntervention ↔ requirements ≠ [] := hstate (by simpa using hterminal)
  split at h
  · cases h
    exact hstate
  · obtain ⟨⟨after, actions'⟩, happly, hnext⟩ := bind_eq_ok.mp h
    cases hnext
    clear h hstate
    unfold CampaignState.Tracked
    cases moves_of_applyCampaignEvent happly with
    | works hwork =>
      simp only [requirements_of_isWork hwork requirements]
      cases status <;> simp_all
    | cancels reason hbody => cases status <;> simp_all [updateManualRequirements]
    | drains payload hbody => cases status <;> simp_all [updateManualRequirements]
    | requires payload hbody =>
      simp only [updateManualRequirements, hbody, true_iff, ne_eq]
      intro _
      split_ifs with hmem
      · exact List.ne_nil_of_mem hmem
      · simp
    | remains payload hbody hremaining => simp_all
    | resolves payload next hbody hremaining hnext =>
      unfold resolveManualIntervention at hnext
      split at hnext
      · cases hnext
      · split at hnext <;> cases hnext <;> simp_all
    | ends terminal payload hbody =>
      cases terminal <;> simp [TerminalStatus.campaign, CampaignStatus.terminal]

/-- A cancellation was requested: the campaign does not return to work. -/
def CampaignState.WindsDown (state : CampaignState) : Prop :=
  state.status = .cancelRequested ∨ state.status = .draining ∨ state.status.terminal = true ∨
    (state.status = .manualIntervention ∧
      (state.previous = some .cancelRequested ∨ state.previous = some .draining))

theorem windsDown_campaignStep {state next : CampaignState}
    {event : CampaignEvent} (h : campaignStep lock state event = .ok next)
    (htracked : state.Tracked)
    (hstate : state.WindsDown ∨ ∃ reason, event.body = .cancelRequested reason) :
    next.WindsDown := by
  obtain ⟨status, previous, requirements, actions⟩ := state
  unfold campaignStep at h
  split at h
  · cases h
  rename_i hterminal
  have hiff : status = .manualIntervention ↔ requirements ≠ [] :=
    htracked (by simpa using hterminal)
  split at h
  · rename_i hsubject
    cases h
    refine hstate.resolve_right ?_
    rintro ⟨reason, hbody⟩
    exact hsubject (by simp [CampaignEvent.subjectType, hbody])
  · obtain ⟨⟨after, actions'⟩, happly, hnext⟩ := bind_eq_ok.mp h
    cases hnext
    clear h htracked
    unfold CampaignState.WindsDown at hstate ⊢
    cases moves_of_applyCampaignEvent happly with
    | works hwork =>
      unfold CampaignEvent.isWork at hwork
      split at hwork <;> cases status <;> simp_all [manualReturnStatus]
    | cancels reason hbody =>
      simp only [manualReturnStatus, hbody]
      cases status <;> simp_all [CampaignStatus.terminal]
      by_cases hdraining : previous = some .draining <;> simp [hdraining]
    | drains payload hbody => cases status <;> simp_all [manualReturnStatus]
    | requires payload hbody =>
      cases status <;> simp_all [manualReturnStatus, CampaignStatus.terminal]
    | remains payload hbody hremaining =>
      simp only [hbody, reduceCtorEq, exists_false, or_false] at hstate
      -- something still requires an intervention, so the campaign was in one
      have hmanual : status = .manualIntervention := by
        rw [hiff]
        rintro rfl
        simp [updateManualRequirements, hbody] at hremaining
      subst hmanual
      simp_all [manualReturnStatus]
    | resolves payload next hbody hremaining hnext =>
      simp only [hbody, reduceCtorEq, exists_false, or_false] at hstate
      unfold resolveManualIntervention at hnext
      split at hnext
      · cases hnext
      · simp only [manualReturnStatus, hbody] at hnext
        split at hnext <;> cases hnext <;> simp_all
    | ends terminal payload hbody =>
      cases terminal <;> simp [TerminalStatus.campaign, CampaignStatus.terminal]

theorem tracked_foldlM {state last : CampaignState}
    {events : List CampaignEvent} (h : events.foldlM (campaignStep lock) state = .ok last)
    (hstate : state.Tracked) : last.Tracked :=
  foldlM_invariant hstate (fun _ _ _ _ htracked hstep ↦ tracked_campaignStep hstep htracked) h

theorem windsDown_foldlM {state last : CampaignState}
    {events : List CampaignEvent} {event : CampaignEvent} {reason : String}
    (h : events.foldlM (campaignStep lock) state = .ok last) (hstate : state.Tracked)
    (hevent : event ∈ events) (hbody : event.body = .cancelRequested reason) : last.WindsDown := by
  obtain ⟨before, after, rfl⟩ := List.append_of_mem hevent
  obtain ⟨middle, hmiddle, hrest⟩ := foldlM_append_ok.mp h
  obtain ⟨next, hnext, hlast⟩ := foldlM_cons_ok.mp hrest
  have htracked := tracked_foldlM hmiddle hstate
  refine (foldlM_invariant (I := fun state ↦ state.Tracked ∧ state.WindsDown)
    ⟨tracked_campaignStep hnext htracked,
      windsDown_campaignStep hnext htracked (.inr ⟨reason, hbody⟩)⟩ ?_ hlast).2
  intro state entry next _ hdown hstep
  exact ⟨tracked_campaignStep hstep hdown.1, windsDown_campaignStep hstep hdown.1 (.inl hdown.2)⟩

/-! ### The projection -/

/-- What a projection of a log is like. -/
structure Consistent (lock : CampaignLock) (projection : RecoveryProjection) : Prop where
  campaignId : projection.campaign.campaignId = lock.campaignId
  trialKeys : projection.trials.keys = (initialState lock).trials.keys
  trials : ∀ id trial, projection.trials.get? id = some trial →
    ∃ first, (initialState lock).trials.get? id = some first ∧ trial.Same first ∧
      trial.Supported (executionsOf projection.executions id)
  shardKeys : projection.shards.keys = (initialState lock).shards.keys
  shards : ∀ id shard, projection.shards.get? id = some shard →
    ∃ first, (initialState lock).shards.get? id = some first ∧ shard.trialIds = first.trialIds
  executions : ∀ execution ∈ projection.executions.values,
    ∃ first, (initialState lock).trials.get? execution.trialId = some first ∧
      first.shardId = execution.shardId
  waveKeys : projection.waves.keys.Nodup
  waves : ∀ id wave, projection.waves.get? id = some wave →
    wave.waveId = id ∧
      ∀ shardId ∈ wave.shardIds, ((initialState lock).shards.get? shardId).isSome = true
  cancelled : projection.cancelRequestedAt.isSome = true →
    projection.campaign.status.terminal = true ∨
      projection.campaign.status = .cancelRequested ∨ projection.campaign.status = .draining ∨
      projection.campaign.status = .manualIntervention
  decision : projection.terminalDecision = terminalDecision lock projection.campaign
    projection.runs projection.trials projection.waves projection.counts

theorem observedStatus_eq_or (status : CampaignStatus) (state : RecoveryState) :
    observedStatus status state = status ∨
      (status.terminal = false ∧ observedStatus status state = .manualIntervention) ∨
      (status = .queued ∧ observedStatus status state = .active) := by
  unfold observedStatus
  dsimp only
  by_cases hfailed : status.terminal = false ∧
      (state.waves.values.any fun wave ↦ wave.status = .cleanupFailed)
  · simp [hfailed]
  · rw [if_neg hfailed]
    split_ifs with hqueued
    · exact .inr (.inr ⟨hqueued.1, rfl⟩)
    · exact .inl rfl

theorem deriveShards_eq (shards : Dict String ShardProjection)
    (trials : Dict String TrialProjection) : deriveShards shards trials = shards.mapM fun entry ↦ do
      let shard ← (fun status ↦ { entry.2 with status := status }) <$>
        aggregateShard entry.2 trials
      return (entry.1, shard) := by
  simp [deriveShards]

theorem Consistent.of_projectRecovery [Jitter] {events : List CampaignEvent}
    {projection : RecoveryProjection} (h : projectRecovery lock events = .ok projection) :
    Consistent lock projection := by
  obtain ⟨ordered, hordered⟩ := exists_orderedEvents h
  obtain ⟨campaign, state, trials, retried, shards, runs, hcampaign, hstate, htrials, hretried,
    hshards, hruns, rfl⟩ := (projectRecovery_eq_ok hordered).mp h
  have hkept := RecoveryState.Kept.run hstate
  rw [applyRetryRequests_eq] at hretried
  obtain ⟨legacy, -, hretried⟩ := bind_eq_ok.mp hretried
  obtain ⟨requestedAt, -, hreopened⟩ := bind_eq_ok.mp hretried
  rw [deriveShards_eq] at hshards
  obtain ⟨submission, rest, last, rfl, hsubmits, hfold, rfl⟩ :=
    (projectCampaign_eq_ok hordered).mp hcampaign
  refine
    { campaignId := rfl
      trialKeys := ?_
      trials := ?_
      shardKeys := ?_
      shards := ?_
      executions := hkept.executions
      waveKeys := hkept.waveKeys
      waves := hkept.waves
      cancelled := ?_
      decision := rfl }
  · exact (Dict.keys_of_mapM hreopened).trans ((Dict.keys_of_mapM htrials).trans hkept.trialKeys)
  · intro id trial htrial
    obtain ⟨derived, hderived, hreopen⟩ := (Dict.get?_of_mapM hreopened).mp htrial
    obtain ⟨before, hbefore, hderive⟩ := (Dict.get?_of_mapM htrials).mp hderived
    obtain ⟨hstatus, first, hfirst, hsame⟩ := hkept.trials id before hbefore
    obtain ⟨shard, -, locked, -, -, hlocked⟩ := exists_of_initial_trial hfirst
    have hown : ∀ execution ∈ before.executions.values,
        execution ∈ executionsOf state.executions id := by
      rw [hsame, hlocked]
      simp [Dict.values]
    obtain ⟨hids, hsupported⟩ := supported_deriveTrial hstatus hown hderive
    obtain ⟨hids', hsupported'⟩ := supported_reopenTrial hsupported hreopen
    have hbase : before.Same first := by
      rw [hsame]
      exact ⟨rfl, rfl, rfl⟩
    exact ⟨first, hfirst, ⟨hids'.trialId.trans (hids.trialId.trans hbase.trialId),
      hids'.shardId.trans (hids.shardId.trans hbase.shardId),
      hids'.logicalAttempt.trans (hids.logicalAttempt.trans hbase.logicalAttempt)⟩, hsupported'⟩
  · exact (Dict.keys_of_mapM hshards).trans hkept.shardKeys
  · intro id shard hshard
    obtain ⟨before, hbefore, hderive⟩ := (Dict.get?_of_mapM hshards).mp hshard
    obtain ⟨first, hfirst, hsame⟩ := hkept.shards id before hbefore
    rw [← bind_pure_comp] at hderive
    obtain ⟨status, -, hshard⟩ := bind_eq_ok.mp hderive
    cases hshard
    exact ⟨first, hfirst, by rw [hsame]⟩
  · intro hcancelled
    simp only [cancelRequestedAt, Option.isSome_map, List.find?_isSome] at hcancelled
    obtain ⟨event, hevent, hcancel⟩ := hcancelled
    split at hcancel
    · rename_i reason hbody
      have hrest : event ∈ rest := by
        rcases List.mem_cons.mp hevent with rfl | hrest
        · rw [hsubmits.1] at hbody
          cases hbody
        · exact hrest
      have hdown := windsDown_foldlM hfold (by simp [CampaignState.Tracked]) hrest hbody
      rcases observedStatus_eq_or last.status state with heq | ⟨-, heq⟩ | ⟨hqueued, -⟩
      · simp only [heq]
        rcases hdown with hstatus | hstatus | hstatus | hstatus
        · exact .inr (.inl hstatus)
        · exact .inr (.inr (.inl hstatus))
        · exact .inl hstatus
        · exact .inr (.inr (.inr hstatus.1))
      · exact .inr (.inr (.inr heq))
      · unfold CampaignState.WindsDown at hdown
        simp [hqueued, CampaignStatus.terminal] at hdown
    · cases hcancel

section Lookups

variable {lock : CampaignLock} {projection : RecoveryProjection}

theorem Consistent.get?_trialId (hconsistent : Consistent lock projection)
    {trial : TrialProjection} (h : trial ∈ projection.trials.values) :
    projection.trials.get? trial.trialId = some trial := by
  have hnodup : projection.trials.keys.Nodup := by
    rw [hconsistent.trialKeys]
    exact nodup_keys_initial_trials lock
  obtain ⟨id, hid⟩ := Dict.exists_get?_of_mem_values hnodup h
  obtain ⟨first, hfirst, hsame, -⟩ := hconsistent.trials id trial hid
  obtain ⟨shard, -, locked, -, rfl, rfl⟩ := exists_of_initial_trial hfirst
  rw [hsame.trialId]
  exact hid

theorem Consistent.trial_inj (hconsistent : Consistent lock projection)
    {first second : TrialProjection} (hfirst : first ∈ projection.trials.values)
    (hsecond : second ∈ projection.trials.values) (hid : first.trialId = second.trialId) :
    first = second := by
  have hget := hconsistent.get?_trialId hfirst
  rw [hid, hconsistent.get?_trialId hsecond] at hget
  exact (Option.some.inj hget).symm

theorem Consistent.exists_locked (hconsistent : Consistent lock projection)
    {trial : TrialProjection} (h : trial ∈ projection.trials.values) :
    ∃ shard ∈ lock.shards, shard.shardId = trial.shardId ∧
      ∃ locked ∈ shard.trials, locked.trialId = trial.trialId := by
  obtain ⟨first, hfirst, hsame, -⟩ :=
    hconsistent.trials trial.trialId trial (hconsistent.get?_trialId h)
  obtain ⟨shard, hshard, locked, hlocked, hid, rfl⟩ := exists_of_initial_trial hfirst
  exact ⟨shard, hshard, hsame.shardId.symm, locked, hlocked, hid⟩

/-- A projected shard has the trials of the lock's. -/
theorem Consistent.exists_shard (hconsistent : Consistent lock projection)
    (hdistinct : lock.Distinct) {shard : CampaignShardLock} (h : shard ∈ lock.shards) :
    ∃ current, projection.shards.get? shard.shardId = some current ∧
      current.trialIds = shard.trials.map CampaignTrialLock.trialId := by
  obtain ⟨first, hfirst, -, htrials⟩ := exists_initial_shard hdistinct h
  have hsome : (projection.shards.get? shard.shardId).isSome = true := by
    rw [Dict.get?_isSome_iff, hconsistent.shardKeys, ← Dict.get?_isSome_iff, hfirst]
    rfl
  obtain ⟨current, hcurrent⟩ := Option.isSome_iff_exists.mp hsome
  obtain ⟨other, hother, hsame⟩ := hconsistent.shards _ current hcurrent
  rw [hfirst] at hother
  cases hother
  exact ⟨current, hcurrent, hsame.trans htrials⟩

end Lookups

end HarborHF.Campaign
