import HarborHF.Campaign.RetryRequests

/-!
# When the requests of an operator are accepted

The producers of a request decide from the projection, and the projection checks the request again by
its own rules. A cancellation is not checked against the status of the campaign, so a campaign that
has ended can be cancelled, and its log is refused from then on; a retry names every trial that was
recorded as failed, also one without executions, and is refused for it. The results say exactly which
requests keep the log valid.
-/

set_option autoImplicit false

namespace HarborHF.Campaign

open Relational

/-! ### Cancellation -/

section Cancellation

variable {lock : CampaignLock} {events : List CampaignEvent} {event : CampaignEvent}
  {reason : String} {clock : ℕ} {identifier : Option String}

/-- A request to cancel is new in a log without one. -/
theorem durableCancellationEvent_new [EventDigests]
    (h : durableCancellationEvent lock events reason clock identifier = .ok (event, true)) :
    event = newEvent lock (.cancelRequested reason) clock
        (identifier.getD (cancellationIdentifier lock)) ∧
      ∀ other ∈ events, other.isCancellation = false := by
  unfold durableCancellationEvent at h
  obtain ⟨ordered, hordered, hrest⟩ := bind_eq_ok.mp h
  split at hrest
  · cases hrest
  · rename_i hnone
    obtain ⟨-, -, hevent⟩ := bind_eq_ok.mp hrest
    cases hevent
    refine ⟨rfl, fun other hother ↦ ?_⟩
    have hfind := List.find?_eq_none.mp hnone other ((mem_orderedEvents hordered other).mpr hother)
    simpa using hfind

/-- A request to cancel is accepted if its identifier is new and the campaign has not ended. -/
theorem exists_projectRecovery_cancellation_iff [Jitter] {projection : RecoveryProjection}
    (h : projectRecovery lock events = .ok projection)
    (hbody : event.body = .cancelRequested reason) (hsubject : event.subjectId = lock.campaignId)
    (hnone : ∀ other ∈ events, other.isCancellation = false) :
    (∃ next, projectRecovery lock (events ++ [event]) = .ok next) ↔
      (∀ other ∈ events, other.eventId ≠ event.eventId) ∧ Insertable events event := by
  obtain ⟨ordered, hordered⟩ := exists_orderedEvents h
  obtain ⟨campaign, state, trials, retried, shards, runs, hcampaign, hstate, htrials, hretried,
    hshards, hruns, -⟩ := (projectRecovery_eq_ok hordered).mp h
  have hrequest : event.Requests lock := ⟨hsubject, .inl ⟨reason, hbody⟩⟩
  by_cases hfresh : ∀ other ∈ events, other.eventId ≠ event.eventId
  · obtain ⟨before, after, rfl, hextended, -, -⟩ := orderedEvents_concat hordered hfresh
    rw [← exists_projectCampaign_concat_iff hcampaign hrequest hfresh, and_iff_right hfresh]
    constructor
    · rintro ⟨next, hnext⟩
      obtain ⟨extended, -, -, -, -, -, hproject, -⟩ := (projectRecovery_eq_ok hextended).mp hnext
      exact ⟨extended, hproject⟩
    · rintro ⟨extended, hproject⟩
      -- the rest of the projection passes over the request
      have hskip (state : RecoveryState) : state.applyEvent event = .ok state := by
        simp [RecoveryState.applyEvent, hbody]
      have hlegacy (progress : RecoveryState × Dict String (Dict String ℕ)) :
          legacyStep lock progress event = .ok progress := by
        refine legacyStep_eq_ok.mpr ⟨progress.1, hskip _, .inl ⟨?_, rfl⟩⟩
        simp [CampaignEvent.isRetryRequest, hbody]
      have hretried' : applyRetryRequests lock (before ++ event :: after) trials =
          .ok retried := by
        rw [applyRetryRequests_eq] at hretried ⊢
        have hany : (before ++ event :: after).any CampaignEvent.legacyRetry =
            (before ++ after).any CampaignEvent.legacyRetry := by
          simp [List.any_append, CampaignEvent.legacyRetry, hbody]
        have hstep (legacy : Dict String (Dict String ℕ)) :
            (before ++ event :: after).foldlM (requestStep lock trials legacy) [] =
              (before ++ after).foldlM (requestStep lock trials legacy) [] := by
          refine foldlM_insert_of_skip fun requestedAt ↦ requestStep_eq_ok.mpr (.inl ⟨?_, rfl⟩)
          simp [CampaignEvent.isRetryRequest, hbody]
        simp only [hany, hstep, legacyRetryGenerations, foldlM_insert_of_skip hlegacy]
        exact hretried
      refine ⟨_, (projectRecovery_eq_ok hextended).mpr ⟨extended, state, trials, retried, shards,
        runs, hproject, ?_, htrials, hretried', hshards, hruns, rfl⟩⟩
      rw [foldlM_insert_of_skip hskip, hstate]
  · rw [iff_false_right (fun hboth ↦ hfresh hboth.1)]
    rintro ⟨next, hnext⟩
    simp only [not_forall, not_not] at hfresh
    obtain ⟨other, hother, hid⟩ := hfresh
    obtain ⟨extended, hextended⟩ := exists_orderedEvents hnext
    refine orderedEvents_concat_conflict hother hid ?_ hextended
    rintro rfl
    have hnot := hnone other hother
    simp [CampaignEvent.isCancellation, hbody] at hnot

end Cancellation

/-! ### Retries -/

section Retry

variable {lock : CampaignLock} {events : List CampaignEvent} {event : CampaignEvent}
  {shardId reason : String} {clock : ℕ} {eligible : List TrialProjection}
  {projection : RecoveryProjection} {shard : ShardProjection}

/-- What a new request for a retry is made of. -/
theorem durableShardRetryEvent_new [EventDigests] [Jitter]
    (h : durableShardRetryEvent lock events shardId reason clock = .ok (event, true)) :
    ∃ projection shard eligible, projectRecovery lock events = .ok projection ∧
      projection.campaign.status.terminal = false ∧
      projection.shards.get? shardId = some shard ∧
      eligibleTrials projection shard = .ok eligible ∧ eligible ≠ [] ∧
      (∀ other ∈ events, other.eventId ≠ event.eventId) ∧
      event = newEvent lock (.shardRetryRequested ⟨shardId, reason, trialGenerations eligible⟩)
        clock (retryIdentifier lock shardId eligible) := by
  unfold durableShardRetryEvent at h
  obtain ⟨projection, hprojection, hrest⟩ := bind_eq_ok.mp h
  split at hrest
  · cases hrest
  rename_i hterminal
  split at hrest
  · cases hrest
  split at hrest
  · cases hrest
  rename_i shard hshard
  obtain ⟨eligible, heligible, hsome⟩ := bind_eq_ok.mp hrest
  split at hsome
  · cases hsome
  rename_i hne
  obtain ⟨ordered, hordered, hfind⟩ := bind_eq_ok.mp hsome
  split at hfind
  · split at hfind
    · cases hfind
    · cases hfind
  rename_i hnone
  obtain ⟨-, -, hreason⟩ := bind_eq_ok.mp hfind
  obtain ⟨-, -, hevent⟩ := bind_eq_ok.mp hreason
  cases hevent
  refine ⟨projection, shard, eligible, hprojection, by simpa using hterminal, hshard, heligible,
    hne, fun other hother ↦ ?_, rfl⟩
  have hnot := List.find?_eq_none.mp hnone other ((mem_orderedEvents hordered other).mpr hother)
  simpa [newEvent] using hnot

theorem mem_eligibleTrials (h : eligibleTrials projection shard = .ok eligible)
    {trial : TrialProjection} : trial ∈ eligible ↔
      trial.status.requestable = true ∧
        ∃ id ∈ shard.trialIds, projection.trials.get? id = some trial := by
  have hitem {id : String} {trial : TrialProjection} :
      getItem projection.trials id = .ok trial ↔ projection.trials.get? id = some trial := by
    unfold getItem
    cases projection.trials.get? id with
    | none => simp
    | some found => simp
  obtain ⟨trials, htrials, hfilter⟩ := bind_eq_ok.mp h
  cases hfilter
  have hrelated := mapM_eq_ok.mp htrials
  rw [List.mem_filter, and_comm]
  refine and_congr_right fun _ ↦ ⟨fun hmem ↦ ?_, ?_⟩
  · obtain ⟨id, hid, hget⟩ := exists_left_of_forall₂ hrelated hmem
    exact ⟨id, hid, hitem.mp hget⟩
  · rintro ⟨id, hid, hget⟩
    obtain ⟨other, hother, hsame⟩ := exists_right_of_forall₂ hrelated hid
    rw [hitem, hget] at hsame
    cases hsame
    exact hother

theorem lockedTrialIds_eq (lock : CampaignLock) (shardId : String) : lockedTrialIds lock shardId =
      ((initialState lock).shards.get? shardId).map ShardProjection.trialIds := by
  have hshards : lock.shards =
      (lock.runs.flatMap fun run ↦ run.shards.map fun shard ↦ (run, shard)).map Prod.snd := by
    simp [CampaignLock.shards, List.map_flatMap, Function.comp_def]
  unfold lockedTrialIds initialState
  rw [Dict.get?_foldl_set, hshards, List.filter_map, List.getLast?_map]
  simp only [Dict.get?_nil, Option.or_none, Option.map_map, Function.comp_def]

/-- The generations of a request are the numbers of executions. -/
theorem mem_trialGenerations
    (hinj : ∀ first ∈ eligible, ∀ second ∈ eligible, first.trialId = second.trialId →
      first = second) {id : String} {generation : ℕ} :
    (id, generation) ∈ trialGenerations eligible ↔
      ∃ trial ∈ eligible, trial.trialId = id ∧ trial.executions.length = generation := by
  have hnodup : (trialGenerations eligible).keys.Nodup := by
    unfold trialGenerations
    exact Dict.nodup_keys_foldl_set List.nodup_nil
  rw [← Dict.get?_eq_some_iff hnodup]
  unfold trialGenerations
  rw [Dict.get?_foldl_set]
  simp only [Dict.get?_nil, Option.or_none, Option.map_eq_some_iff]
  constructor
  · rintro ⟨trial, hlast, hlength⟩
    obtain ⟨hmem, hid⟩ := List.mem_filter.mp (List.mem_of_getLast? hlast)
    exact ⟨trial, hmem, by simpa using hid, hlength⟩
  · rintro ⟨trial, hmem, hid, hlength⟩
    cases hlast : (eligible.filter fun other ↦ other.trialId = id).getLast? with
    | none =>
      have hempty := List.getLast?_eq_none_iff.mp hlast
      have hfiltered : trial ∈ eligible.filter fun other ↦ other.trialId = id :=
        List.mem_filter.mpr ⟨hmem, by simpa using hid⟩
      rw [hempty] at hfiltered
      cases hfiltered
    | some other =>
      obtain ⟨hother, hsame⟩ := List.mem_filter.mp (List.mem_of_getLast? hlast)
      obtain rfl := hinj trial hmem other hother (hid.trans (of_decide_eq_true hsame).symm)
      exact ⟨trial, rfl, hlength⟩

theorem deriveShards_deriveShards {shards derived : Dict String ShardProjection}
    {trials : Dict String TrialProjection} (h : deriveShards shards trials = .ok derived)
    (others : Dict String TrialProjection) :
    deriveShards derived others = deriveShards shards others := by
  refine (mapM_of_mapM h ?_).symm
  intro entry _ value hvalue
  obtain ⟨status, -, hsame⟩ := bind_eq_ok.mp hvalue
  cases hsame
  rfl

theorem deriveRuns_deriveRuns {runs derived : Dict String RunProjection}
    {shards : Dict String ShardProjection} (h : deriveRuns runs shards = .ok derived)
    (others : Dict String ShardProjection) : deriveRuns derived others = deriveRuns runs others := by
  refine (mapM_of_mapM h ?_).symm
  intro entry _ value hvalue
  obtain ⟨status, -, hsame⟩ := bind_eq_ok.mp hvalue
  cases hsame
  rfl

/-- The last execution of a trial. -/
def TrialProjection.Latest (trial : TrialProjection) (latest : ExecutionProjection) : Prop :=
  latest ∈ trial.executions.values ∧
    ∀ other ∈ trial.executions.values, other.physicalAttempt ≤ latest.physicalAttempt

/-- The trial has a retryable category and executions left. -/
def TrialProjection.RetriesLeft (lock : CampaignLock) (trial : TrialProjection) : Prop :=
  trial.executions.length < lock.recoveryPolicy.maxPhysicalExecutionsPerTrial ∧
    ∃ latest category, trial.Latest latest ∧ latest.category = some category ∧
      category.retryable = true

theorem TrialProjection.Numbered.getLast?_eq {trial : TrialProjection} (h : trial.Numbered)
    {latest : ExecutionProjection} (hlatest : trial.Latest latest) :
    trial.executions.values.getLast? = some latest := by
  obtain ⟨hmem, hmax⟩ := hlatest
  obtain ⟨front, last, hsplit⟩ : ∃ front last, trial.executions.values = front ++ [last] :=
    ⟨_, _, (List.dropLast_append_getLast (List.ne_nil_of_mem hmem)).symm⟩
  have hattempts := h.attempts
  have hsorted : (trial.executions.values.map ExecutionProjection.physicalAttempt).Pairwise
      (· < ·) := by
    rw [hattempts]
    exact List.pairwise_lt_range' 1
  rw [hsplit] at hmem hmax hsorted ⊢
  rw [List.getLast?_concat, Option.some.injEq]
  rcases List.mem_append.mp hmem with hfront | hlast
  · rw [List.map_append, List.pairwise_append] at hsorted
    have hlt := hsorted.2.2 _ (List.mem_map_of_mem hfront) last.physicalAttempt (by simp)
    have hle := hmax last (by simp)
    omega
  · exact (List.mem_singleton.mp hlast).symm

/-- A trial with executions left waits for a retry, unless its last execution was cancelled. -/
theorem status_reread [Jitter] {trial derived : TrialProjection} (h : trial.Numbered)
    (hderived : reread lock trial = .ok derived)
    (hleft : trial.executions.length < lock.recoveryPolicy.maxPhysicalExecutionsPerTrial)
    {latest : ExecutionProjection} {category : RetryCategory} (hlatest : trial.Latest latest)
    (hcategory : latest.category = some category) (hretryable : category.retryable = true)
    (hstatus : latest.status = .failed ∨ latest.status = .cancelled) :
    derived.status = .retryWait ↔ latest.status ≠ .cancelled := by
  have hlast := h.getLast?_eq hlatest
  have hsorted := byAttempt_of_attempts h.attempts
  unfold byAttempt at hsorted
  have hopen : (trial.executions.values.any fun execution ↦ execution.status = .completed) =
      false := by
    have hcompleted := h.completed
    obtain ⟨front, hsplit⟩ := List.getLast?_eq_some_iff.mp hlast
    rw [hsplit, List.dropLast_concat, List.getLast?_concat] at hcompleted
    rw [hsplit, List.any_append]
    rcases hstatus with hfailed | hcancelled
    · simpa [hfailed] using hcompleted
    · simpa [hcancelled] using hcompleted
  have hlength : trial.executions.values.length = trial.executions.length := by
    simp [Dict.values]
  unfold reread deriveTrial at hderived
  dsimp only at hderived
  rw [hsorted, if_neg (by simpa using h.attempts), if_neg (by simpa using h.completed),
    if_neg (by simp [TrialStatus.terminal, TrialStatus.settled]), hlast] at hderived
  simp only [hopen, Bool.false_eq_true, if_false] at hderived
  rcases hstatus with hfailed | hcancelled
  · have hstate : ∃ time, failedTrialState lock latest trial.executions.values.length =
        .ok (.retryWait, time) := by
      unfold failedTrialState
      rw [hcategory]
      dsimp only
      rw [if_neg (by rintro (rfl | rfl) <;> simp [RetryCategory.retryable] at hretryable),
        if_neg (by simp [hretryable]), if_neg (by omega)]
      unfold retryDelaySeconds
      rw [if_neg (by simp [hretryable])]
      exact ⟨_, rfl⟩
    obtain ⟨time, hstate⟩ := hstate
    simp only [hfailed, hstate] at hderived
    cases hderived
    simp [hfailed]
  · simp only [hcancelled] at hderived
    cases hderived
    simp [hcancelled]

theorem get?_of_mem_eligibleTrials (hconsistent : Consistent lock projection)
    (h : eligibleTrials projection shard = .ok eligible) {trial : TrialProjection}
    (htrial : trial ∈ eligible) :
    trial.trialId ∈ shard.trialIds ∧ projection.trials.get? trial.trialId = some trial := by
  obtain ⟨-, id, hid, hget⟩ := (mem_eligibleTrials h).mp htrial
  obtain rfl : id = trial.trialId := by
    obtain ⟨initial, hinitial, hsame, -⟩ := hconsistent.trials id trial hget
    obtain ⟨locked, -, other, -, hid', rfl⟩ := exists_of_initial_trial hinitial
    rw [hsame.trialId, ← hid']
  exact ⟨hid, hget⟩

theorem eligibleTrials_inj (hconsistent : Consistent lock projection)
    (h : eligibleTrials projection shard = .ok eligible) :
    ∀ first ∈ eligible, ∀ second ∈ eligible, first.trialId = second.trialId → first = second := by
  intro first hfirst second hsecond heq
  have hget := (get?_of_mem_eligibleTrials hconsistent h hfirst).2
  rw [heq, (get?_of_mem_eligibleTrials hconsistent h hsecond).2] at hget
  exact (Option.some.inj hget).symm

/-- A request is validated if every trial it names has been executed. -/
theorem validatedRetryGenerations_iff (hconsistent : Consistent lock projection)
    {trials : Dict String TrialProjection} (hshard : projection.shards.get? shardId = some shard)
    (heligible : eligibleTrials projection shard = .ok eligible)
    (hsame : ∀ id next, projection.trials.get? id = some next →
      ∃ trial, trials.get? id = some trial ∧ next.executions = trial.executions) :
    (∃ generations, validatedRetryGenerations lock
      ⟨shardId, reason, trialGenerations eligible⟩ trials = .ok generations) ↔
      ∀ trial ∈ eligible, trial.executions ≠ [] := by
  obtain ⟨first, hfirst, htrialIds⟩ := hconsistent.shards shardId shard hshard
  have hinj := eligibleTrials_inj hconsistent heligible
  have hallowed : lockedTrialIds lock shardId = some shard.trialIds := by
    rw [lockedTrialIds_eq, hfirst, Option.map_some, htrialIds]
  unfold validatedRetryGenerations
  rw [hallowed]
  dsimp only
  constructor
  · rintro ⟨generations, hok⟩ trial htrial hempty
    split at hok
    · cases hok
    · rename_i hnone
      have hentry := (mem_trialGenerations hinj).mpr ⟨trial, htrial, rfl, rfl⟩
      refine hnone (List.any_eq_true.mpr ⟨_, hentry, ?_⟩)
      simp [hempty]
  · intro hexecuted
    refine ⟨trialGenerations eligible, if_neg ?_⟩
    rw [Bool.not_eq_true, List.any_eq_false]
    rintro ⟨id, generation⟩ hentry
    obtain ⟨trial, htrial, rfl, rfl⟩ := (mem_trialGenerations hinj).mp hentry
    obtain ⟨hid, hget⟩ := get?_of_mem_eligibleTrials hconsistent heligible htrial
    obtain ⟨derived, hderived, hexecutions⟩ := hsame _ trial hget
    have hpositive : 0 < derived.executions.length := by
      rw [← hexecutions]
      exact List.length_pos_iff.mpr (hexecuted trial htrial)
    have hlength : trial.executions.length = derived.executions.length := by rw [hexecutions]
    simp only [hid, hderived, not_true_eq_false, false_or, Option.map_some, Option.getD_some,
      decide_eq_true_eq]
    omega

/-! ### The trials of a projection -/

section Projected

variable [Jitter] {ordered : List CampaignEvent} {state : RecoveryState}
  {trials retried : Dict String TrialProjection}

theorem numbered_deriveTrials
    (hstate : ordered.foldlM RecoveryState.applyEvent (initialState lock) = .ok state)
    (h : deriveTrials lock state.trials state.executions = .ok trials) :
    ∀ entry ∈ trials, entry.2.Numbered := by
  have hkept := RecoveryState.Kept.run hstate
  have hnamed := RecoveryState.Named.run hstate
  have hnodup : trials.keys.Nodup := by
    rw [Dict.keys_of_mapM h, hkept.trialKeys]
    exact nodup_keys_initial_trials lock
  rintro ⟨id, trial⟩ hentry
  obtain ⟨before, hbefore, hderive⟩ :=
    (Dict.get?_of_mapM h).mp ((Dict.get?_eq_some_iff hnodup).mpr hentry)
  obtain ⟨-, first, hfirst, hsame⟩ := hkept.trials id before hbefore
  obtain ⟨shard, -, locked, -, -, rfl⟩ := exists_of_initial_trial hfirst
  refine (TrialProjection.Numbered.of_deriveTrial (hnamed.nodup id) ?_ hderive).1
  rw [hsame]

theorem exists_of_retried (hnumbered : ∀ entry ∈ trials, entry.2.Numbered)
    (h : applyRetryRequests lock ordered trials = .ok retried) {id : String}
    {next : TrialProjection} (hnext : retried.get? id = some next) :
    ∃ trial, trials.get? id = some trial ∧ trial.Numbered ∧
      next.executions = trial.executions := by
  rw [applyRetryRequests_eq] at h
  obtain ⟨legacy, -, hrest⟩ := bind_eq_ok.mp h
  obtain ⟨requestedAt, -, hreopened⟩ := bind_eq_ok.mp hrest
  obtain ⟨trial, htrial, hreopen⟩ := (Dict.get?_of_mapM hreopened).mp hnext
  have htrial' := hnumbered (id, trial) (Dict.mem_of_get?_eq_some htrial)
  exact ⟨trial, htrial, htrial', (htrial'.of_reopenTrial hreopen).2⟩

end Projected

/-! ### When a request is accepted -/

/-- A cancellation fits a log that has neither its identifier nor, before it, the end of the
campaign. -/
def CancellationFits (events : List CampaignEvent) (clock : ℕ) (eventId : String) : Prop :=
  ∀ other ∈ events, other.eventId ≠ eventId ∧
    (other.isSubmission = true → other.observedAt < clock ∨ other.eventId ≤ eventId) ∧
    (other.isTerminal = true → other.observedAt = clock ∧ eventId ≤ other.eventId)

/-- A retry fits a log if it comes after the submission, every trial it names has been executed and
none was cancelled for a retryable reason, older requests without generations can still be read, and
the recorded ends of shards and runs fit the reopened trials. -/
structure RetryFits [Jitter] (lock : CampaignLock) (events : List CampaignEvent)
    (projection : RecoveryProjection) (shardId : String) (eligible : List TrialProjection)
    (clock : ℕ) (eventId : String) : Prop where
  submitted : ∀ other ∈ events, other.isSubmission = true →
    other.observedAt < clock ∨ other.eventId ≤ eventId
  executed : ∀ trial ∈ eligible, trial.executions ≠ []
  uncancelled : ∀ trial ∈ eligible, trial.RetriesLeft lock →
    ∀ latest, trial.Latest latest → latest.status ≠ .cancelled
  legacy : events.any CampaignEvent.legacyRetry = true → ∃ before state found,
    orderedEvents (events.filter fun other ↦
      decide (other.observedAt < clock ∨ other.eventId ≤ eventId)) = .ok before ∧
    before.foldlM RecoveryState.applyEvent (initialState lock) = .ok state ∧
    legacyGenerations lock state shardId = .ok found
  ends : ∃ trials shards runs,
    reopenedTrials lock (trialGenerations eligible) clock projection.trials = .ok trials ∧
    deriveShards projection.shards trials = .ok shards ∧
    deriveRuns projection.runs shards = .ok runs

/-- The trials that a request names are ready, if they can be retried. -/
def NamedReady (lock : CampaignLock) (event : CampaignEvent) (next : RecoveryProjection) : Prop :=
  ∀ payload, event.body = .shardRetryRequested payload →
    ∀ id ∈ payload.trialGenerations.keys, ∃ trial, next.trials.get? id = some trial ∧
      (trial.RetriesLeft lock → retryIsReady trial event.observedAt = true)

theorem earlier_iff {other : CampaignEvent} (hclock : other.observedAt ≤ event.observedAt) :
    Earlier other event ↔
      other.observedAt < event.observedAt ∨ other.eventId ≤ event.eventId := by
  unfold Earlier
  constructor
  · rintro (hlt | ⟨-, hle⟩)
    · exact .inl hlt
    · exact .inr hle
  · rintro (hlt | hle)
    · exact .inl hlt
    · rcases Nat.lt_or_eq_of_le hclock with hlt | heq
      · exact .inl hlt
      · exact .inr ⟨heq, hle⟩

theorem earlier_iff_of_le {other : CampaignEvent} (hclock : other.observedAt ≤ event.observedAt) :
    Earlier event other ↔
      other.observedAt = event.observedAt ∧ event.eventId ≤ other.eventId := by
  unfold Earlier
  constructor
  · rintro (hlt | ⟨heq, hle⟩)
    · omega
    · exact ⟨heq.symm, hle⟩
  · rintro ⟨heq, hle⟩
    exact .inr ⟨heq.symm, hle⟩

theorem cancellationFits_iff (hclock : ∀ other ∈ events, other.observedAt ≤ event.observedAt) :
    CancellationFits events event.observedAt event.eventId ↔
      (∀ other ∈ events, other.eventId ≠ event.eventId) ∧ Insertable events event := by
  unfold CancellationFits Insertable
  rw [← forall₂_and]
  refine forall₂_congr fun other hother ↦ ?_
  rw [earlier_iff (hclock other hother), earlier_iff_of_le (hclock other hother)]

section Fits

variable [Jitter] {trial next : TrialProjection} {time : ℕ}

/-- A reopened trial is ready, unless it was cancelled for a retryable reason. -/
theorem ready_reopenedAt_iff (h : trial.Numbered)
    (hcategory : ∀ execution ∈ trial.executions.values,
      execution.status = .active ∨ execution.status = .completed → execution.category = none)
    (hnext : reopenedAt lock time trial = .ok next) :
    (next.RetriesLeft lock → retryIsReady next time = true) ↔
      (trial.RetriesLeft lock → ∀ latest, trial.Latest latest → latest.status ≠ .cancelled) := by
  obtain ⟨derived, hderived, hsame⟩ := bind_eq_ok.mp hnext
  have hexecutions : next.executions = trial.executions := by
    rw [← (h.of_reread hderived).2]
    cases hsame
    split_ifs
    · rfl
    · rfl
  have hleft : next.RetriesLeft lock ↔ trial.RetriesLeft lock := by
    unfold TrialProjection.RetriesLeft TrialProjection.Latest
    rw [hexecutions]
  have hready : retryIsReady next time = true ↔ derived.status = .retryWait := by
    cases hsame
    by_cases hwaiting : derived.status = .retryWait
    · rw [if_pos hwaiting]
      simp [retryIsReady, hwaiting]
    · rw [if_neg hwaiting]
      simp [retryIsReady, hwaiting]
  rw [hleft, hready]
  refine forall_congr' fun hretries ↦ ?_
  obtain ⟨hcount, latest, category, hlatest, hsome, hretryable⟩ := hretries
  have hstatus : latest.status = .failed ∨ latest.status = .cancelled := by
    have hnone := hcategory latest hlatest.1
    rw [hsome] at hnone
    cases hcurrent : latest.status with
    | active => exact absurd (hnone (.inl hcurrent)) (by simp)
    | completed => exact absurd (hnone (.inr hcurrent)) (by simp)
    | failed => exact .inl rfl
    | cancelled => exact .inr rfl
  rw [status_reread h hderived hcount hlatest hsome hretryable hstatus]
  constructor
  · intro hnot other hother
    have heq := (h.getLast?_eq hlatest).symm.trans (h.getLast?_eq hother)
    rwa [← Option.some.inj heq]
  · intro hall
    exact hall latest hlatest

/-- The named trials are ready if none of them was cancelled for a retryable reason. -/
theorem namedReady_iff {trials retried : Dict String TrialProjection}
    {eligible : List TrialProjection} {after : RecoveryProjection}
    (hinj : ∀ first ∈ eligible, ∀ second ∈ eligible, first.trialId = second.trialId →
      first = second)
    (hget : ∀ trial ∈ eligible, trials.get? trial.trialId = some trial ∧ trial.Numbered ∧
      ∀ execution ∈ trial.executions.values,
        execution.status = .active ∨ execution.status = .completed → execution.category = none)
    (hreopened : reopenedTrials lock (trialGenerations eligible) event.observedAt trials =
      .ok retried)
    (hbody : event.body = .shardRetryRequested ⟨shardId, reason, trialGenerations eligible⟩)
    (hafter : after.trials = retried) :
    NamedReady lock event after ↔ ∀ trial ∈ eligible, trial.RetriesLeft lock →
      ∀ latest, trial.Latest latest → latest.status ≠ .cancelled := by
  have hnamed {trial : TrialProjection} (htrial : trial ∈ eligible) :
      trial.trialId ∈ (trialGenerations eligible).keys :=
    List.mem_map.mpr ⟨_, (mem_trialGenerations hinj).mpr ⟨trial, htrial, rfl, rfl⟩, rfl⟩
  -- what an eligible trial was reopened as
  have hnext {trial : TrialProjection} (htrial : trial ∈ eligible) :
      ∃ next, retried.get? trial.trialId = some next ∧
        reopenedAt lock event.observedAt trial = .ok next := by
    have hsome : (retried.get? trial.trialId).isSome = true := by
      rw [Dict.get?_isSome_iff, Dict.keys_of_mapM hreopened, ← Dict.get?_isSome_iff,
        (hget trial htrial).1]
      rfl
    obtain ⟨next, hnext⟩ := Option.isSome_iff_exists.mp hsome
    obtain ⟨value, hvalue, hreopen⟩ := (Dict.get?_of_mapM hreopened).mp hnext
    rw [(hget trial htrial).1] at hvalue
    cases hvalue
    rw [reopenNamed, if_pos (hnamed htrial)] at hreopen
    exact ⟨next, hnext, hreopen⟩
  constructor
  · intro hready trial htrial
    obtain ⟨-, hnumbered, hcategory⟩ := hget trial htrial
    obtain ⟨next, hretried, hreopen⟩ := hnext htrial
    rw [← ready_reopenedAt_iff hnumbered hcategory hreopen]
    obtain ⟨found, hfound, hfound'⟩ := hready _ hbody trial.trialId (hnamed htrial)
    rw [hafter, hretried] at hfound
    obtain rfl := Option.some.inj hfound
    exact hfound'
  · intro hkept payload hpayload id hid
    rw [hbody] at hpayload
    cases hpayload
    obtain ⟨⟨key, generation⟩, hentry, rfl⟩ := List.mem_map.mp hid
    obtain ⟨trial, htrial, rfl, -⟩ := (mem_trialGenerations hinj).mp hentry
    obtain ⟨-, hnumbered, hcategory⟩ := hget trial htrial
    obtain ⟨next, hretried, hreopen⟩ := hnext htrial
    refine ⟨next, by rw [hafter, hretried], ?_⟩
    exact (ready_reopenedAt_iff hnumbered hcategory hreopen).mpr (hkept trial htrial)

/-- When a request for a retry is accepted and makes its trials ready. -/
theorem exists_projectRecovery_retry_iff {projection : RecoveryProjection} {shard : ShardProjection}
    {eligible : List TrialProjection} (h : projectRecovery lock events = .ok projection)
    (hclock : ∀ other ∈ events, other.observedAt ≤ event.observedAt)
    (hopen : projection.campaign.status.terminal = false)
    (hshard : projection.shards.get? shardId = some shard)
    (heligible : eligibleTrials projection shard = .ok eligible) (hne : eligible ≠ [])
    (hfresh : ∀ other ∈ events, other.eventId ≠ event.eventId)
    (hsubject : event.subjectId = lock.campaignId)
    (hbody : event.body = .shardRetryRequested ⟨shardId, reason, trialGenerations eligible⟩) :
    (∃ next, projectRecovery lock (events ++ [event]) = .ok next ∧ NamedReady lock event next) ↔
      RetryFits lock events projection shardId eligible event.observedAt event.eventId := by
  have hconsistent := Consistent.of_projectRecovery h
  obtain ⟨ordered, hordered⟩ := exists_orderedEvents h
  obtain ⟨campaign, state, trials, retried, shards, runs, hcampaign, hstate, htrials, hretried,
    hshards, hruns, rfl⟩ := (projectRecovery_eq_ok hordered).mp h
  dsimp only at hopen hshard
  have hrequest : event.Requests lock := ⟨hsubject, .inr ⟨_, hbody⟩⟩
  have hinj := eligibleTrials_inj hconsistent heligible
  have hnumbered := numbered_deriveTrials hstate htrials
  have hterminal : ∀ other ∈ events, other.isTerminal = false := by
    obtain ⟨first, rest, last, hcons, hsubmits, hlast, rfl⟩ :=
      (projectCampaign_eq_ok hordered).mp hcampaign
    have hlast' : last.status.terminal = false := by
      rcases observedStatus_eq_or last.status state with heq | ⟨hfalse, -⟩ | ⟨hqueued, -⟩
      · rwa [← heq]
      · exact hfalse
      · rw [hqueued]
        rfl
    intro other hother
    rw [← mem_orderedEvents hordered, hcons] at hother
    rcases List.mem_cons.mp hother with rfl | hrest
    · simp [CampaignEvent.isTerminal, hsubmits.1]
    · exact isTerminal_eq_false hlast hlast' other hrest
  obtain ⟨before, after, rfl, hextended, hearlier, hlater⟩ := orderedEvents_concat hordered hfresh
  have hmem := mem_orderedEvents hordered
  -- the events before the request
  have hbefore : orderedEvents (events.filter fun other ↦
      decide (other.observedAt < event.observedAt ∨ other.eventId ≤ event.eventId)) =
        .ok before := by
    rw [orderedEvents_filter _ hordered, List.filter_append, List.filter_eq_self.mpr,
      List.filter_eq_nil_iff.mpr, List.append_nil]
    · intro other hother
      have hother' := (hmem other).mp (List.mem_append_right before hother)
      rw [decide_eq_true_eq, ← earlier_iff (hclock other hother')]
      exact fun hfirst ↦ hfresh other hother' (hfirst.eventId_eq (hlater other hother))
    · intro other hother
      have hother' := (hmem other).mp (List.mem_append_left after hother)
      rw [decide_eq_true_eq, ← earlier_iff (hclock other hother')]
      exact hearlier other hother
  obtain ⟨middle, hmiddle, -⟩ := foldlM_append_ok.mp hstate
  have hany : events.any CampaignEvent.legacyRetry =
      (before ++ after).any CampaignEvent.legacyRetry := by
    rw [Bool.eq_iff_iff, List.any_eq_true, List.any_eq_true]
    exact exists_congr fun other ↦ and_congr_left fun _ ↦ (hmem other).symm
  have hsame (id : String) (next : TrialProjection) (hnext : retried.get? id = some next) :
      ∃ trial, trials.get? id = some trial ∧ next.executions = trial.executions := by
    obtain ⟨trial, htrial, -, heq⟩ := exists_of_retried hnumbered hretried hnext
    exact ⟨trial, htrial, heq⟩
  have hexact : ∀ entry ∈ trials, ∀ generation, (entry.1, generation) ∈ trialGenerations eligible →
      generation = entry.2.executions.length := by
    intro entry hentry generation hgeneration
    obtain ⟨trial, htrial, hid, rfl⟩ := (mem_trialGenerations hinj).mp hgeneration
    obtain ⟨-, hget⟩ := get?_of_mem_eligibleTrials hconsistent heligible htrial
    obtain ⟨derived, hderived, heq⟩ := hsame _ trial hget
    have hnodup : trials.keys.Nodup := by
      rw [Dict.keys_of_mapM htrials, (RecoveryState.Kept.run hstate).trialKeys]
      exact nodup_keys_initial_trials lock
    rw [hid, (Dict.get?_eq_some_iff hnodup).mpr hentry] at hderived
    obtain rfl := Option.some.inj hderived
    rw [heq]
  have hsome : trialGenerations eligible ≠ [] := by
    obtain ⟨trial, htrial⟩ := List.exists_mem_of_ne_nil eligible hne
    exact List.ne_nil_of_mem ((mem_trialGenerations hinj).mpr ⟨trial, htrial, rfl, rfl⟩)
  have hinsert (retried' : Dict String TrialProjection) :
      applyRetryRequests lock (before ++ event :: after) trials = .ok retried' ↔ _ :=
    applyRetryRequests_insert hretried hmiddle hbody hsome
      (fun other hother ↦ hfresh other ((hmem other).mp hother))
      (fun other hother ↦ hclock other ((hmem other).mp hother)) hnumbered hexact
  rw [validatedRetryGenerations_iff hconsistent hshard heligible hsame, ← hany] at hinsert
  have hskip (state : RecoveryState) : state.applyEvent event = .ok state := by
    simp [RecoveryState.applyEvent, hbody]
  have hready {retried' : Dict String TrialProjection} {next : RecoveryProjection}
      (hreopened : reopenedTrials lock (trialGenerations eligible) event.observedAt retried =
        .ok retried') (hnext : next.trials = retried') :=
    namedReady_iff hinj (fun trial htrial ↦ by
      obtain ⟨-, hget⟩ := get?_of_mem_eligibleTrials hconsistent heligible htrial
      obtain ⟨derived, hderived, hnumbered', heq⟩ := exists_of_retried hnumbered hretried hget
      obtain ⟨first, -, -, hsupported⟩ := hconsistent.trials _ trial hget
      refine ⟨hget, hnumbered'.congr heq, fun execution hexecution ↦ ?_⟩
      exact (RecoveryState.Named.run hstate).category execution
        (List.mem_filter.mp (hsupported.observed execution hexecution)).1) hreopened hbody hnext
  constructor
  · rintro ⟨next, hnext, hnamed⟩
    obtain ⟨extended, state', trials', retried', shards', runs', hproject, hstate', htrials',
      hretried', hshards', hruns', rfl⟩ := (projectRecovery_eq_ok hextended).mp hnext
    rw [foldlM_insert_of_skip hskip, hstate] at hstate'
    obtain rfl := Except.ok.inj hstate'
    rw [htrials] at htrials'
    obtain rfl := Except.ok.inj htrials'
    obtain ⟨hexecuted, hlegacy, hreopened⟩ := (hinsert retried').mp hretried'
    have hinsertable :=
      (exists_projectCampaign_concat_iff hcampaign hrequest hfresh).mp ⟨extended, hproject⟩
    refine ⟨fun other hother hsubmission ↦ ?_, hexecuted, (hready hreopened rfl).mp hnamed,
      fun hold ↦ ?_, retried', shards', runs', hreopened, ?_, ?_⟩
    · rw [← earlier_iff (hclock other hother)]
      exact (hinsertable other hother).1 hsubmission
    · obtain ⟨found, hfound⟩ := hlegacy hold
      exact ⟨before, middle, found, hbefore, hmiddle, hfound⟩
    · rw [deriveShards_deriveShards hshards, hshards']
    · rw [deriveRuns_deriveRuns hruns, hruns']
  · rintro ⟨hsubmitted, hexecuted, huncancelled, hlegacy, retried', shards', runs', hreopened,
      hshards', hruns'⟩
    obtain ⟨extended, hproject⟩ :=
      (exists_projectCampaign_concat_iff hcampaign hrequest hfresh).mpr fun other hother ↦ by
        refine ⟨fun hsubmission ↦ ?_, fun hend ↦ ?_⟩
        · rw [earlier_iff (hclock other hother)]
          exact hsubmitted other hother hsubmission
        · rw [hterminal other hother] at hend
          cases hend
    rw [deriveShards_deriveShards hshards] at hshards'
    rw [deriveRuns_deriveRuns hruns] at hruns'
    have hretried' : applyRetryRequests lock (before ++ event :: after) trials = .ok retried' := by
      refine (hinsert retried').mpr ⟨hexecuted, fun hold ↦ ?_, hreopened⟩
      obtain ⟨prior, last, found, hprior, hlast, hfound⟩ := hlegacy hold
      rw [hbefore] at hprior
      obtain rfl := Except.ok.inj hprior
      rw [hmiddle] at hlast
      obtain rfl := Except.ok.inj hlast
      exact ⟨found, hfound⟩
    refine ⟨_, (projectRecovery_eq_ok hextended).mpr ⟨extended, state, trials, retried', shards',
      runs', hproject, ?_, htrials, hretried', hshards', hruns', rfl⟩, ?_⟩
    · rw [foldlM_insert_of_skip hskip, hstate]
    · exact (hready hreopened rfl).mpr huncancelled

end Fits

end Retry

/-! ### The requests of an operator -/

/-- The new events of an operator keep the log valid exactly where they fit it. -/
theorem operatorEvents_accepted_iff [Jitter] [EventDigests] {lock : CampaignLock}
    {events : List CampaignEvent} {projection : RecoveryProjection} {clock : ℕ}
    (h : projectRecovery lock events = .ok projection)
    (hclock : ∀ other ∈ events, other.observedAt ≤ clock) : (∀ reason identifier event,
      durableCancellationEvent lock events reason clock identifier = .ok (event, true) →
      ((∃ next, projectRecovery lock (events ++ [event]) = .ok next) ↔
        CancellationFits events clock
          ("evt-" ++ identifier.getD (cancellationIdentifier lock)))) ∧
    ∀ shardId reason event,
      durableShardRetryEvent lock events shardId reason clock = .ok (event, true) →
      ((∃ next, projectRecovery lock (events ++ [event]) = .ok next ∧ NamedReady lock event next) ↔
        ∃ shard eligible, projection.shards.get? shardId = some shard ∧
          eligibleTrials projection shard = .ok eligible ∧
          RetryFits lock events projection shardId eligible clock
            ("evt-" ++ retryIdentifier lock shardId eligible)) := by
  constructor
  · intro reason identifier event hnew
    obtain ⟨rfl, hnone⟩ := durableCancellationEvent_new hnew
    rw [exists_projectRecovery_cancellation_iff h rfl rfl hnone, ← cancellationFits_iff hclock]
    rfl
  · intro shardId reason event hnew
    obtain ⟨found, shard, eligible, hfound, hopen, hshard, heligible, hne, hfresh, rfl⟩ :=
      durableShardRetryEvent_new hnew
    rw [h] at hfound
    obtain rfl := Except.ok.inj hfound
    rw [exists_projectRecovery_retry_iff h hclock hopen hshard heligible hne hfresh rfl rfl]
    constructor
    · intro hfits
      exact ⟨shard, eligible, hshard, heligible, hfits⟩
    · rintro ⟨other, others, hother, hothers, hfits⟩
      rw [hshard] at hother
      obtain rfl := Option.some.inj hother
      rw [heligible] at hothers
      obtain rfl := Except.ok.inj hothers
      exact hfits

/-! ### Refused requests -/

section Refused

local instance requestJitter : Jitter := ⟨fun _ ↦ 0, zero_lt_byte⟩

local instance requestDigests : EventDigests := ⟨fun text ↦ text⟩

/-- The log of a campaign that was submitted. -/
theorem operatorEvents_accepted_submitted :
    ∃ projection, projectRecovery endpointLock (sampleLog []) = .ok projection ∧
      ∀ reason identifier event,
        durableCancellationEvent endpointLock (sampleLog []) reason 1 identifier =
          .ok (event, true) →
        ((∃ next, projectRecovery endpointLock (sampleLog [] ++ [event]) = .ok next) ↔
          CancellationFits (sampleLog []) 1
            ("evt-" ++ identifier.getD (cancellationIdentifier endpointLock))) := by
  obtain ⟨projection, h⟩ := exists_ok_of_toBool
    (show (projectRecovery endpointLock (sampleLog [])).toBool = true by decide +kernel)
  exact ⟨projection, h, (operatorEvents_accepted_iff h (by decide)).1⟩

/-- A campaign that has completed. -/
def endedLog : List CampaignEvent :=
  sampleLog [⟨"completion", "campaign", 1, .publisher, .campaignTerminal .completed ⟨none, none, none⟩⟩]

/-- A trial that was recorded as failed without an execution. -/
def unexecutedLog : List CampaignEvent :=
  sampleLog [⟨"failure", "trial", 1, .publisher, .trial .failedInfrastructure ⟨some "shard", none⟩⟩]

/-- A cancellation of a campaign that has ended, and a retry of a trial without executions, are new
events and are refused. -/
theorem operatorEvents_refused : ((projectRecovery endpointLock endedLog).toBool = true ∧
      (∀ other ∈ endedLog, other.observedAt ≤ 2) ∧
      ∃ event, durableCancellationEvent endpointLock endedLog "stop" 2 none = .ok (event, true) ∧
        (projectRecovery endpointLock (endedLog ++ [event])).toBool = false) ∧
    (projectRecovery endpointLock unexecutedLog).toBool = true ∧
      (∀ other ∈ unexecutedLog, other.observedAt ≤ 2) ∧
      ∃ event, durableShardRetryEvent endpointLock unexecutedLog "shard" "again" 2 =
          .ok (event, true) ∧
        (projectRecovery endpointLock (unexecutedLog ++ [event])).toBool = false := by
  refine ⟨⟨by decide +kernel, by decide, ?_⟩, by decide +kernel, by decide, ?_⟩
  · exact ⟨newEvent endpointLock (.cancelRequested "stop") 2 "campaign:cancel", by decide +kernel,
      by decide +kernel⟩
  · exact ⟨newEvent endpointLock (.shardRetryRequested ⟨"shard", "again", [("trial", 0)]⟩) 2
      "campaign:shard:trial:0", by decide +kernel, by decide +kernel⟩

end Refused

end HarborHF.Campaign
