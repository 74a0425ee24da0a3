import HarborHF.Campaign.Admission

/-!
# Plans without actions

When nothing of a campaign is under way (`InFlight`), every action that started a wave is spent, so
the planner takes up every trial that has not ended: one that waits for a retry is retried, exhausted
or reported as blocked (`served_of_waiting`), a shard that nothing touched is submitted, and a
campaign whose trials have all ended publishes its summary. A plan is empty all the same while the
campaign waits for a manual intervention, when its summary was published and only the event that ends
it is missing, or if a shard was touched outside of the closed waves (`stalled`).
-/

set_option autoImplicit false

namespace HarborHF.Campaign

open Relational

/-! ### What is under way -/

/-- Something of the campaign is under way. -/
def InFlight (projection : RecoveryProjection) : Prop :=
  (∃ wave ∈ projection.waves.values, wave.status ≠ .closed) ∨
    (∃ execution ∈ projection.executions.values, execution.status = .active) ∨
    (∃ action ∈ projection.campaign.actions.values,
      action.status = .reserved ∨ action.status = .ambiguous) ∨
    ∃ action ∈ projection.campaign.actions.values, action.actionKind.billable = true ∧
      action.status = .succeeded ∧ projection.waves.get? (waveIdOf action.actionKey) = none

instance (projection : RecoveryProjection) : Decidable (InFlight projection) :=
  inferInstanceAs (Decidable (_ ∨ _ ∨ _ ∨ _))

/-- The key of an action names its kind and its targets. -/
def Keyed [ActionKeys] (lock : CampaignLock) (projection : RecoveryProjection) : Prop :=
  ∀ action ∈ projection.campaign.actions.values, ∀ candidate retries,
    action.actionKey = ActionKeys.shortDigest candidate lock.campaignId retries →
      candidate.kind = action.actionKind ∧ candidate.targetIds = action.targetIds

/-- The summary was published. -/
def SummaryPublished (projection : RecoveryProjection) : Prop :=
  ∃ action ∈ projection.campaign.actions.values,
    action.actionKind = .publishSummary ∧ action.status = .succeeded

/-- The trial was exhausted before. -/
def ExhaustedBefore (projection : RecoveryProjection) (trialId : String) : Prop :=
  ∃ action ∈ projection.campaign.actions.values,
    action.actionKind = .exhaustTrials ∧ action.status = .succeeded ∧ trialId ∈ action.targetIds

/-- The trial is planned, and its shard was touched but was in no closed wave. -/
def Stranded (projection : RecoveryProjection) (trial : TrialProjection) : Prop :=
  trial.status = .planned ∧ trialWasSkippedInClosedWave projection trial.shardId = false ∧
    (shardHasExecutionEvidence projection trial.shardId = true ∨
      ∀ shard, projection.shards.get? trial.shardId = some shard →
        shard.status ≠ .planned ∧ shard.status ≠ .queued)

/-- The plan retries or exhausts the trial, or reports its shard as blocked. -/
def Served (plan : ReconcilePlan) (trial : TrialProjection) : Prop :=
  (∃ action ∈ plan.actions, (action.kind = .retryShard ∨ action.kind = .exhaustTrials) ∧
    trial.trialId ∈ action.trialIds) ∨
  ∃ entry ∈ plan.blocked, entry.kind = .retryShard ∧ trial.shardId ∈ entry.shardIds

instance (plan : ReconcilePlan) (trial : TrialProjection) : Decidable (Served plan trial) :=
  inferInstanceAs (Decidable (_ ∨ _))

section Idle

variable {lock : CampaignLock} {projection : RecoveryProjection}

/-- While nothing is under way an action that is not spent started no wave, and succeeded. -/
theorem of_not_spent (h : ¬ InFlight projection) {action : ActionProjection}
    (haction : action ∈ projection.campaign.actions.values)
    (hspent : actionIsSpent projection action = false) :
    action.actionKind.billable = false ∧ action.status = .succeeded := by
  unfold InFlight at h
  push Not at h
  obtain ⟨hwaves, -, hopen, hobserved⟩ := h
  unfold actionIsSpent at hspent
  rw [Bool.or_eq_false_iff, decide_eq_false_iff_not] at hspent
  have hsucceeded : action.status = .succeeded := by
    have hstatus := hopen action haction
    cases hcase : action.status <;> simp_all
  refine ⟨?_, hsucceeded⟩
  by_contra hbillable
  have hsome := hobserved action haction (by simpa using hbillable) hsucceeded
  obtain ⟨wave, hwave⟩ := Option.ne_none_iff_exists'.mp hsome
  rw [hwave] at hspent
  have hclosed := hwaves wave (Dict.mem_values_of_get?_eq_some hwave)
  simp [hclosed] at hspent

variable [ActionKeys]

/-- A candidate whose key is taken repeats an action that started no wave and succeeded. -/
theorem of_materialize_eq_none (hkeyed : Keyed lock projection) (hidle : ¬ InFlight projection)
    {candidate : Candidate} (h : materialize lock projection candidate = none) :
    candidate.kind.billable = false ∧ ∃ action ∈ projection.campaign.actions.values,
      action.actionKind = candidate.kind ∧ action.status = .succeeded ∧
        action.targetIds = candidate.targetIds := by
  unfold materialize at h
  dsimp only at h
  split at h
  · rename_i hany
    obtain ⟨action, haction, htaken⟩ := List.any_eq_true.mp hany
    obtain ⟨hkey, hspent⟩ := of_decide_eq_true htaken
    obtain ⟨hkind, htargets⟩ := hkeyed action haction _ _ hkey
    obtain ⟨hbillable, hsucceeded⟩ := of_not_spent hidle haction hspent
    exact ⟨hkind ▸ hbillable, action, haction, hkind.symm, hsucceeded, htargets.symm⟩
  · cases h

omit [ActionKeys] in
theorem reservedTrialIds_eq_nil (h : ¬ InFlight projection) : reservedTrialIds projection = [] := by
  unfold reservedTrialIds
  rw [List.flatMap_eq_nil_iff]
  intro action haction
  obtain ⟨hmem, hkind⟩ := List.mem_filter.mp haction
  obtain ⟨hretry, hspent⟩ := of_decide_eq_true hkind
  have hbillable := (of_not_spent h hmem hspent).1
  rw [hretry] at hbillable
  cases hbillable

omit [ActionKeys] in
/-- While nothing is under way a trial that waits is in a queue. -/
theorem queued_of_waiting (h : ¬ InFlight projection) {trial : TrialProjection}
    (htrial : trial ∈ projection.trials.values) (hwaiting : trial.status = .retryWait) (now : ℕ) :
    trial ∈ queuedTrials projection now .ready ∨ trial ∈ queuedTrials projection now .waiting := by
  have hqueue : retryQueue projection trial now = some .ready ∨
      retryQueue projection trial now = some .waiting := by
    unfold retryQueue
    rw [if_neg (by simp [hwaiting]), if_neg (by simp [hwaiting])]
    split_ifs
    · exact .inl rfl
    · exact .inr rfl
  refine hqueue.imp (fun hready ↦ ?_) fun hlater ↦ ?_
  · exact List.mem_filter.mpr ⟨htrial, by simp [reservedTrialIds_eq_nil h, hready]⟩
  · exact List.mem_filter.mpr ⟨htrial, by simp [reservedTrialIds_eq_nil h, hlater]⟩

omit [ActionKeys] in
/-- A shard with an execution has evidence. -/
theorem evidence_of_execution (hconsistent : Consistent lock projection)
    (hdistinct : lock.Distinct) {execution : ExecutionProjection}
    (h : execution ∈ projection.executions.values) :
    shardHasExecutionEvidence projection execution.shardId = true := by
  obtain ⟨first, hfirst, hshardId⟩ := hconsistent.executions execution h
  obtain ⟨shard, hshard, locked, hlocked, hid, rfl⟩ := exists_of_initial_trial hfirst
  have hsome : (projection.trials.get? execution.trialId).isSome = true := by
    rw [Dict.get?_isSome_iff, hconsistent.trialKeys, ← Dict.get?_isSome_iff, hfirst]
    rfl
  obtain ⟨trial, htrial⟩ := Option.isSome_iff_exists.mp hsome
  obtain ⟨-, -, -, hsupported⟩ := hconsistent.trials _ trial htrial
  have hexecuted : trial.status ≠ .planned := by
    intro hplanned
    have hmem : execution ∈ executionsOf projection.executions execution.trialId :=
      List.mem_filter.mpr ⟨h, by simp⟩
    rw [hsupported.planned hplanned] at hmem
    cases hmem
  obtain ⟨current, hcurrent, htrials⟩ := hconsistent.exists_shard hdistinct hshard
  rw [← hshardId]
  unfold shardHasExecutionEvidence
  rw [hcurrent, Option.any_some, htrials, List.any_eq_true]
  refine ⟨locked.trialId, List.mem_map_of_mem hlocked, ?_⟩
  rw [hid, htrial]
  simp [hexecuted]

omit [ActionKeys] in
/-- While nothing is under way a shard without evidence is not assigned. -/
theorem not_mem_assignedShards (hconsistent : Consistent lock projection)
    (hdistinct : lock.Distinct) (hidle : ¬ InFlight projection) {shardId : String}
    (h : shardHasExecutionEvidence projection shardId = false) :
    shardId ∉ assignedShards lock projection := by
  unfold assignedShards
  rw [List.mem_append, List.mem_append, not_or, not_or]
  refine ⟨⟨?_, ?_⟩, ?_⟩
  · intro hmem
    obtain ⟨wave, hwave, hfilter⟩ := List.mem_flatMap.mp hmem
    have hassigned := of_decide_eq_true (List.mem_filter.mp hfilter).2
    rcases hassigned with hopen | hevidence
    · exact hidle (.inl ⟨wave, hwave, hopen⟩)
    · rw [h] at hevidence
      cases hevidence
  · intro hmem
    obtain ⟨execution, hexecution, rfl⟩ := List.mem_map.mp hmem
    rw [evidence_of_execution hconsistent hdistinct hexecution] at h
    cases h
  · intro hmem
    obtain ⟨action, haction, -⟩ := List.mem_flatMap.mp hmem
    obtain ⟨hmem, hkind⟩ := List.mem_filter.mp haction
    obtain ⟨hbillable, hspent⟩ := of_decide_eq_true hkind
    rw [(of_not_spent hidle hmem hspent).1] at hbillable
    cases hbillable

omit [ActionKeys] in
/-- While nothing is under way cleanup is complete. -/
theorem cleanupIsComplete_of_idle (hidle : ¬ InFlight projection) :
    cleanupIsComplete projection.campaign projection.waves = true := by
  have hwaves (wave : WaveProjection) (hwave : wave ∈ projection.waves.values) :
      wave.status = .closed := by
    by_contra hopen
    exact hidle (.inl ⟨wave, hwave, hopen⟩)
  unfold cleanupIsComplete
  rw [Bool.and_eq_true, List.all_eq_true, List.all_eq_true]
  refine ⟨fun action haction ↦ ?_, fun wave hwave ↦ by simp [hwaves wave hwave]⟩
  by_cases hspent : actionIsSpent projection action = true
  · unfold actionIsSpent at hspent
    rw [Bool.or_eq_true] at hspent
    rcases hspent with hfailed | hclosed
    · simp [of_decide_eq_true hfailed]
    · simp [hclosed]
  · simp [(of_not_spent hidle haction (by simpa using hspent)).1]

omit [ActionKeys] in
/-- A campaign of which nothing is under way and no trial is left has a terminal decision. -/
theorem exists_terminalDecision (hconsistent : Consistent lock projection)
    (hidle : ¬ InFlight projection) (hterminal : projection.campaign.status.terminal = false)
    (h : ∀ trial ∈ projection.trials.values, trial.status.terminal = false →
      (projection.campaign.status = .cancelRequested ∨ projection.campaign.status = .draining) ∧
        (trial.status = .planned ∨ trial.status = .retryWait)) :
    ∃ decision, projection.terminalDecision = some decision := by
  have hrecorded : projection.campaign.status.recorded = none := by
    cases hstatus : projection.campaign.status <;> simp_all [CampaignStatus.terminal,
      CampaignStatus.recorded]
  have hleft : (projection.trials.values.any fun trial ↦ !trial.status.terminal &&
      !(decide (projection.campaign.status = .cancelRequested ∨
          projection.campaign.status = .draining) &&
        (decide (trial.status = .planned) || decide (trial.status = .retryWait)))) = false := by
    rw [List.any_eq_false]
    intro trial htrial
    by_cases hended : trial.status.terminal = true
    · simp [hended]
    · obtain ⟨hcancelling, hopen⟩ := h trial htrial (by simpa using hended)
      rcases hopen with hplanned | hwaiting
      · simp [hcancelling, hplanned]
      · simp [hcancelling, hwaiting]
  rw [hconsistent.decision]
  unfold terminalDecision
  rw [hrecorded]
  dsimp only
  rw [if_neg (by simp [cleanupIsComplete_of_idle hidle]), if_neg (by simpa using hleft)]
  split_ifs <;> exact ⟨_, rfl⟩

end Idle

/-! ### Plans -/

section Plans

variable [ActionKeys] [Jitter] {lock : CampaignLock} {events : List CampaignEvent}
  {context : ReconcileContext} {now : ℕ} {projection : RecoveryProjection} {plan : ReconcilePlan}

omit [Jitter] in
/-- A trial of the ready queue is served while the plan has room, unless it was exhausted before. -/
theorem served_of_ready (hkeyed : Keyed lock projection) (hidle : ¬ InFlight projection)
    {found : List Candidate} {waiting : List BlockedAction} {start last : Admission}
    (hfound : candidates lock projection context now = .ok (found, waiting))
    (hlast : admitCandidates lock projection context.limits found start = .ok last)
    (hactions : plan.actions = last.actions) (hblocked : plan.blocked = last.blocked)
    (hworking : projection.campaign.status.cancelling = false)
    (hroom : plan.actions.length < context.limits.actionLimit) {trial : TrialProjection}
    (htrial : trial ∈ queuedTrials projection now .ready) :
    Served plan trial ∨ ExhaustedBefore projection trial.trialId := by
  obtain ⟨cleanup, retries, waves, -, hmem, -, hparts⟩ := candidates_eq_ok hfound
  rcases hparts with ⟨hcancelling, -⟩ | ⟨-, hretries, -⟩
  · rw [hworking] at hcancelling
    cases hcancelling
  obtain ⟨candidate, hcandidate, hnamed, hshard⟩ := exists_retryCandidate hretries htrial
  obtain ⟨hkind, htargets, -⟩ := mem_retryCandidates hretries hcandidate
  obtain ⟨usage, usage', offered, blocked, hoffer, hoffered, hreported⟩ :=
    exists_offer hlast (hactions ▸ hroom) ((hmem candidate).mpr (.inr (.inl hcandidate)))
  cases offered with
  | some action =>
    have haction : action ∈ plan.actions := hactions ▸ hoffered action rfl
    refine .inl (.inl ⟨action, haction, ?_⟩)
    rcases (offer_some hoffer).2 with hadmitted | hexhausted
    · rw [toCandidate_materialize hadmitted.1]
      exact ⟨.inl hkind, hnamed⟩
    · rw [toCandidate_materialize hexhausted.2.2.2.2]
      exact ⟨.inr rfl, hnamed⟩
  | none =>
    rcases (offer_none hoffer).2 with ⟨hnone, -⟩ | ⟨reason, rfl⟩ | ⟨-, hnone, -⟩
    · have hbillable := (of_materialize_eq_none hkeyed hidle hnone).1
      rw [hkind] at hbillable
      cases hbillable
    · refine .inl (.inr ⟨_, hblocked ▸ hreported List.mem_cons_self, ?_, hshard⟩)
      rw [hkind]
      rfl
    · obtain ⟨-, action, haction, hexhaust, hsucceeded, hsame⟩ :=
        of_materialize_eq_none hkeyed hidle hnone
      refine .inr ⟨action, haction, hexhaust, hsucceeded, ?_⟩
      rw [hsame]
      exact hnamed

/-- A trial that waits for a retry is served while the plan has room, unless it was exhausted
before. -/
theorem served_of_waiting (hkeyed : Keyed lock projection) (hidle : ¬ InFlight projection)
    (h : planReconciliation lock events context now = .ok (projection, plan))
    (hterminal : projection.campaign.status.terminal = false)
    (hworking : projection.campaign.status.cancelling = false)
    (hroom : plan.actions.length < context.limits.actionLimit) {trial : TrialProjection}
    (htrial : trial ∈ projection.trials.values) (hwaiting : trial.status = .retryWait) :
    Served plan trial ∨ ExhaustedBefore projection trial.trialId := by
  obtain ⟨-, hplan⟩ := planReconciliation_eq_ok h
  rcases hplan with ⟨hended, -⟩ | ⟨-, found, waiting, last, hfound, hlast, hactions, hblocked⟩
  · rw [hterminal] at hended
    cases hended
  rcases queued_of_waiting hidle htrial hwaiting (max now projection.campaign.lastObservedAt) with
    hready | hlater
  · exact served_of_ready hkeyed hidle hfound hlast hactions hblocked hworking hroom hready
  · obtain ⟨cleanup, retries, waves, -, -, -, hparts⟩ := candidates_eq_ok hfound
    rcases hparts with ⟨hcancelling, -⟩ | ⟨-, hretries, -⟩
    · rw [hworking] at hcancelling
      cases hcancelling
    · obtain ⟨entry, hentry, hkind, hshard⟩ := exists_waiting hretries hlater
      refine .inl (.inr ⟨entry, ?_, hkind, hshard⟩)
      rw [hblocked]
      exact (subset_of_admitCandidates hlast).2 hentry

/-- An empty plan of a campaign of which nothing is under way. -/
theorem stalled (hdistinct : lock.Distinct) (hkeyed : Keyed lock projection)
    (hidle : ¬ InFlight projection)
    (h : planReconciliation lock events context now = .ok (projection, plan))
    (hterminal : projection.campaign.status.terminal = false) (hactions : plan.actions = [])
    (hblocked : plan.blocked = []) :
    projection.campaign.status = .manualIntervention ∨ SummaryPublished projection ∨
      ∃ trial ∈ projection.trials.values, trial.status.terminal = false ∧
        (ExhaustedBefore projection trial.trialId ∨ Stranded projection trial) := by
  obtain ⟨hprojection, hplan⟩ := planReconciliation_eq_ok h
  have hconsistent := Consistent.of_projectRecovery hprojection
  rcases hplan with ⟨hended, -⟩ | ⟨-, found, waiting, last, hfound, hlast, hactions', hblocked'⟩
  · rw [hterminal] at hended
    cases hended
  by_contra hnot
  push Not at hnot
  obtain ⟨hmanual, hunpublished, hleft⟩ := hnot
  have hroom : plan.actions.length < context.limits.actionLimit := by
    rw [hactions]
    exact context.limits.positive.1
  -- nothing is served by an empty plan
  have hunserved (trial : TrialProjection) : ¬ Served plan trial := by
    rintro (⟨action, haction, -⟩ | ⟨entry, hentry, -⟩)
    · rw [hactions] at haction
      cases haction
    · rw [hblocked] at hentry
      cases hentry
  have hpassed {candidate : Candidate} (hcandidate : candidate ∈ found)
      (hkind : candidate.kind ≠ .retryShard) : materialize lock projection candidate = none := by
    obtain ⟨usage, usage', offered, blocked, hoffer, hoffered, hreported⟩ :=
      exists_offer hlast (hactions' ▸ hroom) hcandidate
    rw [← hactions', hactions] at hoffered
    rw [← hblocked', hblocked] at hreported
    cases offered with
    | some action => cases hoffered action rfl
    | none =>
      rcases (offer_none hoffer).2 with ⟨hnone, -⟩ | ⟨reason, rfl⟩ | ⟨hretry, -⟩
      · exact hnone
      · cases hreported List.mem_cons_self
      · exact absurd hretry hkind
  obtain ⟨cleanup, retries, waves, -, hmem, -, hparts⟩ := candidates_eq_ok hfound
  -- while trials are left there is no terminal decision
  have hundecided : projection.terminalDecision = none := by
    by_contra hsome
    obtain ⟨decision, hdecision⟩ := Option.ne_none_iff_exists'.mp hsome
    have hnone := hpassed ((hmem (summaryCandidate decision)).mpr
      (.inr (.inr (.inr ⟨decision, hdecision, rfl⟩)))) (by simp [summaryCandidate])
    obtain ⟨-, action, haction, hkind, hsucceeded, -⟩ :=
      of_materialize_eq_none hkeyed hidle hnone
    exact hunpublished ⟨action, haction, hkind, hsucceeded⟩
  have hactive (trial : TrialProjection) (htrial : trial ∈ projection.trials.values) :
      trial.status ≠ .active := by
    intro hactive
    obtain ⟨-, -, -, hsupported⟩ := hconsistent.trials _ trial (hconsistent.get?_trialId htrial)
    obtain ⟨execution, hexecution, hrunning⟩ := hsupported.active hactive
    exact hidle (.inr (.inl ⟨execution, (List.mem_filter.mp hexecution).1, hrunning⟩))
  have hopen (trial : TrialProjection) (htrial : trial ∈ projection.trials.values)
      (hnot : trial.status.terminal = false) :
      trial.status = .planned ∨ trial.status = .retryWait := by
    have hne := hactive trial htrial
    cases hstatus : trial.status <;> simp_all [TrialStatus.terminal, TrialStatus.settled]
  have htrials : ∃ trial ∈ projection.trials.values, trial.status.terminal = false ∧
      projection.campaign.status ≠ .cancelRequested ∧
      projection.campaign.status ≠ .draining := by
    by_contra hnone
    push Not at hnone
    obtain ⟨decision, hdecision⟩ := exists_terminalDecision hconsistent hidle hterminal
      fun trial htrial hnot ↦ by
        refine ⟨?_, hopen trial htrial hnot⟩
        by_cases hrequested : projection.campaign.status = .cancelRequested
        · exact .inl hrequested
        · exact .inr (hnone trial htrial hnot hrequested)
    rw [hundecided] at hdecision
    cases hdecision
  obtain ⟨trial, htrial, hnot, hrequested, hdraining⟩ := htrials
  have hworking : projection.campaign.status.cancelling = false := by
    cases hstatus : projection.campaign.status <;> simp_all [CampaignStatus.cancelling]
  have hserved (hready : trial ∈ queuedTrials projection
      (max now projection.campaign.lastObservedAt) .ready) : False := by
    rcases served_of_ready hkeyed hidle hfound hlast hactions' hblocked' hworking hroom hready with
      hserved | hexhausted
    · exact hunserved trial hserved
    · exact (hleft trial htrial hnot).1 hexhausted
  rcases hopen trial htrial hnot with hplanned | hwaiting
  · have hstranded := (hleft trial htrial hnot).2
    by_cases hskipped : trialWasSkippedInClosedWave projection trial.shardId = true
    · refine hserved (List.mem_filter.mpr ⟨htrial, ?_⟩)
      simp [reservedTrialIds_eq_nil hidle, retryQueue, hplanned, hskipped]
    · -- the shard is free, so a new wave has it
      unfold Stranded at hstranded
      push Not at hstranded
      obtain ⟨hevidence, current, hcurrent, hfree⟩ := hstranded hplanned (by simpa using hskipped)
      obtain ⟨shard, hshard, hid, -⟩ := hconsistent.exists_locked htrial
      obtain ⟨run, hrun, hrunshard⟩ := List.mem_flatMap.mp hshard
      have hentry : (run.deploymentDigest, shard.shardId) ∈ freeShards lock projection := by
        refine mem_freeShards.mpr ⟨run, hrun, shard, hrunshard, rfl, ?_, current, ?_, ?_⟩
        · rw [hid]
          exact not_mem_assignedShards hconsistent hdistinct hidle (by simpa using hevidence)
        · rw [hid]
          exact hcurrent
        · by_cases hstatus : current.status = .planned
          · exact .inl hstatus
          · exact .inr (hfree hstatus)
      rcases hparts with ⟨hcancelling, -⟩ | ⟨-, -, hwaves⟩
      · rw [hworking] at hcancelling
        cases hcancelling
      obtain ⟨candidate, hcandidate, chunk, hmake, -⟩ := exists_waveCandidate hwaves hentry
      have hkind := (newWaveCandidate_eq_ok hmake).1
      have hnone := hpassed ((hmem candidate).mpr (.inr (.inr (.inl hcandidate))))
        (by rw [hkind]; decide)
      have hbillable := (of_materialize_eq_none hkeyed hidle hnone).1
      rw [hkind] at hbillable
      cases hbillable
  · rcases served_of_waiting hkeyed hidle h hterminal hworking hroom htrial hwaiting with
      hserved | hexhausted
    · exact hunserved trial hserved
    · exact (hleft trial htrial hnot).1 hexhausted

end Plans

/-! ### A campaign that waits for its operator -/

section Waiting

local instance stalledJitter : Jitter := ⟨fun _ ↦ 0, zero_lt_byte⟩

local instance stalledKeys : ActionKeys :=
  ⟨fun candidate _ retries ↦ toString candidate.kind.priority ++ ":" ++
    ",".intercalate candidate.targetIds ++ ":" ++ toString retries⟩

/-- The wave of the only trial failed to clean up and closed later, and nobody has resolved the
intervention that it required. -/
def unresolvedLog : List CampaignEvent :=
  let wave : WaveLifecyclePayload := ⟨"deployment", "hf-inference-endpoints", ["shard"], 100⟩
  sampleLog [
    ⟨"reserved-1", "campaign", 1, .reconciler,
      .actionReserved ⟨"act-9:shard:0", "9:shard:0", .submitWave, ["shard"]⟩⟩,
    ⟨"succeeded-1", "campaign", 2, .reconciler,
      .actionOutcome .succeeded ⟨"act-9:shard:0", none, none⟩⟩,
    ⟨"active", "wave-9:shard:0", 3, .waveController, .wave .active wave⟩,
    ⟨"started", "execution", 4, .waveController,
      .executionStarted ⟨"trial", "shard", 1, some "wave-9:shard:0", 0⟩⟩,
    ⟨"failed", "execution", 5, .waveController,
      .executionOutcome .failed ⟨"trial", 1, some .transient, 0, none, none⟩⟩,
    ⟨"cleanup-failed", "wave-9:shard:0", 6, .waveController, .wave .cleanupFailed wave⟩,
    ⟨"required", "campaign", 7, .reconciler,
      .manualInterventionRequired ⟨some "wave-9:shard:0", none⟩⟩,
    ⟨"closed", "wave-9:shard:0", 8, .waveController, .wave .closed wave⟩]

end Waiting

end HarborHF.Campaign
