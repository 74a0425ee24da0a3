import Mathlib.Data.List.Flatten
import Mathlib.Data.List.Pairwise
import HarborHF.Campaign.Admission

/-!
# What a plan offers

A plan offers trials: a new wave all trials of its shards, a retry the trials it names. No trial is
offered twice by one plan (`pairwise_covered`), since a shard that is free has neither executions nor
a closed wave that left evidence, and a trial is retried only if its shard has one of the two. A new
wave has no shard that an open wave or an action that is not spent has (`free_of_submitted`).

A trial that a closed wave skipped is retried as soon as its shard has evidence, even if a later wave
has the shard and is about to run it: the trial is not among the targets of that wave's action, which
names shards. `offeredOnce_iff` says that this is the only way in which a plan offers a trial that a
wave still has.
-/

set_option autoImplicit false

namespace HarborHF.Campaign

open Relational

/-- The trials that a candidate or an action offers. -/
def Candidate.covered (lock : CampaignLock) (candidate : Candidate) : List String :=
  match candidate.kind with
  | .submitWave => ((lock.shards.filter fun shard ↦ shard.shardId ∈ candidate.shardIds).flatMap
      CampaignShardLock.trials).map CampaignTrialLock.trialId
  | .retryShard => candidate.trialIds
  | _ => []

/-- Two candidates offer different trials. -/
def Candidate.Apart (lock : CampaignLock) (first second : Candidate) : Prop :=
  ∀ trialId ∈ first.covered lock, trialId ∉ second.covered lock

theorem Candidate.Apart.symm {lock : CampaignLock} {first second : Candidate}
    (h : Candidate.Apart lock first second) : Candidate.Apart lock second first :=
  fun trialId hsecond hfirst ↦ h trialId hfirst hsecond

theorem Candidate.covered_of_not_billable {lock : CampaignLock} {candidate : Candidate}
    (h : candidate.kind.billable = false) : candidate.covered lock = [] := by
  unfold Candidate.covered
  cases hkind : candidate.kind <;> simp_all [ActionKind.billable]

section Distinct

variable {lock : CampaignLock}

theorem CampaignLock.Distinct.shard_eq (h : lock.Distinct) {first second : CampaignShardLock}
    (hfirst : first ∈ lock.shards) (hsecond : second ∈ lock.shards)
    {trial trial' : CampaignTrialLock} (htrial : trial ∈ first.trials)
    (htrial' : trial' ∈ second.trials) (hid : trial.trialId = trial'.trialId) : first = second := by
  have hnodup := h.trials
  rw [List.map_flatMap, List.nodup_flatMap] at hnodup
  by_contra hne
  have hsymm : Std.Symm (Function.onFun List.Disjoint fun shard : CampaignShardLock ↦
      shard.trials.map CampaignTrialLock.trialId) := ⟨fun _ _ hdisjoint ↦ hdisjoint.symm⟩
  exact hnodup.2.forall hfirst hsecond hne (List.mem_map_of_mem htrial)
    (hid ▸ List.mem_map_of_mem htrial')

/-- The free shards are different. -/
theorem CampaignLock.Distinct.nodup_freeShards (h : lock.Distinct)
    (projection : RecoveryProjection) : ((freeShards lock projection).map Prod.snd).Nodup := by
  have hperm : ((byRunId lock.runs).flatMap fun run ↦ (byShardId run.shards).map
      CampaignShardLock.shardId).Perm (lock.shards.map CampaignShardLock.shardId) := by
    unfold CampaignLock.shards
    rw [List.map_flatMap]
    exact List.Perm.flatMap (List.perm_insertionSort _ _)
      fun run _ ↦ (List.perm_insertionSort _ _).map _
  refine (hperm.nodup_iff.mpr h.shards).sublist ?_
  unfold freeShards
  simp only [List.map_flatMap, List.map_map]
  refine List.Sublist.flatMap_right _ fun run _ ↦ ?_
  exact List.filter_sublist.map _

end Distinct

/-! ### Candidates -/

section Candidates

variable {lock : CampaignLock} {projection : RecoveryProjection} {context : ReconcileContext}
  {now : ℕ} {retries waves : List Candidate} {waiting : List BlockedAction}

/-- The shard of a trial that is ready for a retry is not free. -/
theorem shardId_mem_assignedShards (hconsistent : Consistent lock projection)
    {trial : TrialProjection} (h : trial ∈ queuedTrials projection now .ready) :
    trial.shardId ∈ assignedShards lock projection := by
  obtain ⟨hmem, -, hstatus⟩ := status_of_ready h
  unfold assignedShards
  rcases hstatus with ⟨-, hskipped⟩ | hwaiting
  · unfold trialWasSkippedInClosedWave at hskipped
    rw [Bool.and_eq_true, List.any_eq_true] at hskipped
    obtain ⟨hevidence, wave, hwave, hclosed⟩ := hskipped
    obtain ⟨-, hshard⟩ := of_decide_eq_true hclosed
    refine List.mem_append_left _ (List.mem_append_left _ (List.mem_flatMap.mpr ⟨wave, hwave,
      List.mem_filter.mpr ⟨hshard, ?_⟩⟩))
    simp [hevidence]
  · obtain ⟨first, hfirst, hsame, hsupported⟩ :=
      hconsistent.trials trial.trialId trial (hconsistent.get?_trialId hmem)
    obtain ⟨execution, hexecution⟩ := List.exists_mem_of_ne_nil _ (hsupported.waiting hwaiting)
    obtain ⟨hexecution, htrial⟩ := List.mem_filter.mp hexecution
    obtain ⟨other, hother, hshard⟩ := hconsistent.executions execution hexecution
    rw [of_decide_eq_true htrial, hfirst] at hother
    cases hother
    rw [hsame.shardId, hshard]
    exact List.mem_append_left _ (List.mem_append_right _ (List.mem_map_of_mem hexecution))

theorem mem_covered_of_retry {candidate : Candidate} (h : candidate.kind = .retryShard)
    {trialId : String} : trialId ∈ candidate.covered lock ↔ trialId ∈ candidate.trialIds := by
  simp [Candidate.covered, h]

theorem mem_covered_of_submit {candidate : Candidate} (h : candidate.kind = .submitWave)
    {trialId : String} : trialId ∈ candidate.covered lock ↔ ∃ shard ∈ lock.shards,
      shard.shardId ∈ candidate.shardIds ∧ ∃ trial ∈ shard.trials, trial.trialId = trialId := by
  simp only [Candidate.covered, h, List.mem_map, List.mem_flatMap, List.mem_filter,
    decide_eq_true_eq]
  constructor
  · rintro ⟨trial, ⟨shard, ⟨hshard, hid⟩, htrial⟩, rfl⟩
    exact ⟨shard, hshard, hid, trial, htrial, rfl⟩
  · rintro ⟨shard, hshard, hid, trial, htrial, rfl⟩
    exact ⟨trial, ⟨shard, ⟨hshard, hid⟩, htrial⟩, rfl⟩

/-- Retries offer different trials. -/
theorem pairwise_retries (hconsistent : Consistent lock projection)
    (h : retryCandidates lock projection context now = .ok (retries, waiting)) :
    retries.Pairwise (Candidate.Apart lock) := by
  have hshards := (List.pairwise_map.mp (List.nodup_flatten.mp (nodup_retryCandidates h)).2)
  refine hshards.imp_of_mem ?_
  intro first second hfirst hsecond hdisjoint trialId hmem hmem'
  obtain ⟨hkind, -, -, -, htrials⟩ := mem_retryCandidates h hfirst
  obtain ⟨hkind', -, -, -, htrials'⟩ := mem_retryCandidates h hsecond
  rw [mem_covered_of_retry hkind] at hmem
  rw [mem_covered_of_retry hkind'] at hmem'
  obtain ⟨trial, htrial, hid, hshard⟩ := (htrials trialId).mp hmem
  obtain ⟨other, hother, hid', hshard'⟩ := (htrials' trialId).mp hmem'
  have hsame := hconsistent.trial_inj (status_of_ready htrial).1 (status_of_ready hother).1
    (hid.trans hid'.symm)
  exact hdisjoint hshard (hsame ▸ hshard')

/-- New waves offer different trials. -/
theorem pairwise_waves (hdistinct : lock.Distinct)
    (h : newWaveCandidates lock projection context = .ok waves) :
    waves.Pairwise (Candidate.Apart lock) := by
  have hnodup := nodup_waveCandidates h
    (fun _ _ _ hmake ↦ (newWaveCandidate_eq_ok hmake).2.1) (hdistinct.nodup_freeShards projection)
  have hshards := List.pairwise_map.mp (List.nodup_flatten.mp hnodup).2
  refine hshards.imp_of_mem ?_
  intro first second hfirst hsecond hdisjoint trialId hmem hmem'
  rw [mem_covered_of_submit (mem_newWaveCandidates h hfirst).1] at hmem
  rw [mem_covered_of_submit (mem_newWaveCandidates h hsecond).1] at hmem'
  obtain ⟨shard, hshard, hid, trial, htrial, rfl⟩ := hmem
  obtain ⟨shard', hshard', hid', trial', htrial', heq⟩ := hmem'
  obtain rfl := hdistinct.shard_eq hshard hshard' htrial htrial' heq.symm
  exact hdisjoint hid hid'

/-- A retry and a new wave offer different trials. -/
theorem apart_retry_wave (hdistinct : lock.Distinct) (hconsistent : Consistent lock projection)
    (hretries : retryCandidates lock projection context now = .ok (retries, waiting))
    (hwaves : newWaveCandidates lock projection context = .ok waves)
    {retry wave : Candidate} (hretry : retry ∈ retries) (hwave : wave ∈ waves) :
    Candidate.Apart lock retry wave := by
  intro trialId hmem hmem'
  obtain ⟨hkind, -, -, -, htrials⟩ := mem_retryCandidates hretries hretry
  obtain ⟨hkind', -, hfree⟩ := mem_newWaveCandidates hwaves hwave
  rw [mem_covered_of_retry hkind] at hmem
  rw [mem_covered_of_submit hkind'] at hmem'
  obtain ⟨trial, htrial, rfl, -⟩ := (htrials trialId).mp hmem
  obtain ⟨shard, hshard, hid, locked, hlocked, heq⟩ := hmem'
  obtain ⟨own, hown, hownid, ownlocked, hownlocked, howneq⟩ :=
    hconsistent.exists_locked (status_of_ready htrial).1
  obtain rfl := hdistinct.shard_eq hown hshard hownlocked hlocked (howneq.trans heq.symm)
  obtain ⟨deployment, hentry⟩ := hfree _ hid
  obtain ⟨run, -, free, -, hpair, hunassigned, -⟩ := mem_freeShards.mp hentry
  obtain ⟨-, hfreeid⟩ := Prod.mk.inj hpair
  rw [← hfreeid, hownid] at hunassigned
  exact hunassigned (shardId_mem_assignedShards hconsistent htrial)

/-- The candidates offer different trials. -/
theorem pairwise_candidates (hdistinct : lock.Distinct) (hconsistent : Consistent lock projection)
    {found : List Candidate} (h : candidates lock projection context now = .ok (found, waiting)) :
    found.Pairwise (Candidate.Apart lock) := by
  obtain ⟨cleanup, retries, waves, hcleanup, -, hperm, hparts⟩ := candidates_eq_ok h
  rw [hperm.pairwise_iff Candidate.Apart.symm]
  have hleft {first second : Candidate} (hfirst : first.kind.billable = false) :
      Candidate.Apart lock first second := by
    intro trialId hmem
    rw [Candidate.covered_of_not_billable hfirst] at hmem
    cases hmem
  have hclean {first : Candidate} (hfirst : first ∈ cleanup) : first.kind.billable = false :=
    (kind_of_mem_cleanup hcleanup hfirst).1
  have hsummary {first : Candidate}
      (hfirst : first ∈ projection.terminalDecision.toList.map summaryCandidate) :
      first.kind.billable = false := by
    obtain ⟨decision, -, rfl⟩ := List.mem_map.mp hfirst
    rfl
  have hsummaries : (projection.terminalDecision.toList.map summaryCandidate).Pairwise
      (Candidate.Apart lock) :=
    List.pairwise_of_forall_mem_list fun first hfirst second _ ↦ hleft (hsummary hfirst)
  have hcleanups : cleanup.Pairwise (Candidate.Apart lock) :=
    List.pairwise_of_forall_mem_list fun first hfirst second _ ↦ hleft (hclean hfirst)
  have hbillable : (retries ++ waves).Pairwise (Candidate.Apart lock) := by
    rcases hparts with ⟨-, rfl, rfl, -⟩ | ⟨-, hretries, hwaves⟩
    · exact List.Pairwise.nil
    · exact List.pairwise_append.mpr ⟨pairwise_retries hconsistent hretries,
        pairwise_waves hdistinct hwaves, fun _ hretry _ hwave ↦
          apart_retry_wave hdistinct hconsistent hretries hwaves hretry hwave⟩
  rw [List.append_assoc cleanup, List.pairwise_append, List.pairwise_append]
  refine ⟨⟨hcleanups, hbillable, fun _ hfirst _ _ ↦ hleft (hclean hfirst)⟩, hsummaries, ?_⟩
  intro first _ second hsecond
  exact (hleft (hsummary hsecond)).symm

end Candidates

/-! ### Plans -/

/-- A plan offers no trial twice and none that a wave still has: its actions offer different trials,
a new wave has no shard of an open wave or of an action that is not spent, and a retry has no trial
without executions whose shard an open wave has. -/
structure OfferedOnce (lock : CampaignLock) (projection : RecoveryProjection)
    (plan : ReconcilePlan) : Prop where
  disjoint : plan.actions.Pairwise fun first second ↦
    ∀ trialId ∈ first.covered lock, trialId ∉ second.covered lock
  submitted : ∀ action ∈ plan.actions, action.kind = .submitWave →
    ∀ shardId ∈ action.shardIds, (∀ wave ∈ openWaves projection, shardId ∉ wave.shardIds) ∧
      ∀ other ∈ projection.campaign.actions.values, other.actionKind.billable = true →
        actionIsSpent projection other = false →
          shardId ∉ actionShardIds lock other.actionKind other.targetIds
  retried : ∀ action ∈ plan.actions, action.kind = .retryShard →
    ∀ trial ∈ projection.trials.values, trial.trialId ∈ action.trialIds →
      trial.executions = [] → ∀ wave ∈ openWaves projection, trial.shardId ∉ wave.shardIds

section Plans

variable [ActionKeys] [Jitter] {lock : CampaignLock} {events : List CampaignEvent}
  {context : ReconcileContext} {now : ℕ} {projection : RecoveryProjection} {plan : ReconcilePlan}

/-- The plan admits a retry: the loop reaches it with room for an action, its key is free and every
limit and cap lets it pass. -/
def AdmitsRetry (lock : CampaignLock) (projection : RecoveryProjection)
    (context : ReconcileContext) (now : ℕ) (candidate : Candidate) : Prop :=
  projection.campaign.status.terminal = false ∧ candidate.kind = .retryShard ∧
    ∃ found waiting usage action,
      candidates lock projection context (max now projection.campaign.lastObservedAt) =
        .ok (found, waiting) ∧
      Reaches lock projection context.limits found ⟨initialUsage context projection, [], waiting⟩
        candidate usage ∧
      Admitted lock projection context.limits usage candidate action

/-- The trial was skipped by a closed wave and no retry has it, but a wave that is not closed has its
shard. -/
def LooksFree (projection : RecoveryProjection) (trial : TrialProjection) : Prop :=
  trial ∈ projection.trials.values ∧ trial.status = .planned ∧
    trial.trialId ∉ reservedTrialIds projection ∧
    trialWasSkippedInClosedWave projection trial.shardId = true ∧
    ∃ wave ∈ openWaves projection, trial.shardId ∈ wave.shardIds

/-- The actions of a plan offer different trials. -/
theorem pairwise_covered (hdistinct : lock.Distinct)
    (h : planReconciliation lock events context now = .ok (projection, plan)) :
    plan.actions.Pairwise fun first second ↦
      ∀ trialId ∈ first.covered lock, trialId ∉ second.covered lock := by
  obtain ⟨hprojection, hplan⟩ := planReconciliation_eq_ok h
  rcases hplan with ⟨-, hactions, -⟩ | ⟨-, found, waiting, last, hfound, hlast, hactions, -⟩
  · rw [hactions]
    exact List.Pairwise.nil
  · obtain ⟨chosen, added, hsublist, hadded, hall⟩ := exists_chosen hlast
    have hpairwise := (pairwise_candidates hdistinct (Consistent.of_projectRecovery hprojection)
      hfound).sublist hsublist
    rw [hactions, hadded, List.nil_append]
    clear hsublist hadded
    -- an action offers what its candidate does, or nothing
    have hcovered {candidate : Candidate} {action : ReconcileAction}
        (hoffered : ∃ usage, Admitted lock projection context.limits usage candidate action ∨
          Exhausted lock projection context.limits usage candidate action) :
        action.covered lock ⊆ candidate.covered lock := by
      obtain ⟨usage, hadmitted | hexhausted⟩ := hoffered
      · have hsame := toCandidate_materialize hadmitted.1
        intro trialId hmem
        rw [hsame] at hmem
        exact hmem
      · have hsame := toCandidate_materialize hexhausted.2.2.2.2
        intro trialId hmem
        rw [hsame] at hmem
        cases hmem
    induction hall with
    | nil => exact List.Pairwise.nil
    | cons hhead htail ih =>
      rw [List.pairwise_cons] at hpairwise ⊢
      refine ⟨?_, ih hpairwise.2⟩
      intro action haction trialId hfirst hsecond
      obtain ⟨candidate, hcandidate, hoffered⟩ := exists_left_of_forall₂ htail haction
      exact hpairwise.1 candidate hcandidate trialId (hcovered hhead hfirst)
        (hcovered hoffered hsecond)

/-- Where a billable action of a plan comes from. -/
theorem exists_admitted (h : planReconciliation lock events context now = .ok (projection, plan))
    {action : ReconcileAction} (haction : action ∈ plan.actions)
    (hbillable : action.kind.billable = true) :
    projection.campaign.status.terminal = false ∧ ∃ found waiting candidate usage,
      candidates lock projection context (max now projection.campaign.lastObservedAt) =
        .ok (found, waiting) ∧
      Reaches lock projection context.limits found ⟨initialUsage context projection, [], waiting⟩
        candidate usage ∧
      Admitted lock projection context.limits usage candidate action ∧
      action.toCandidate = { candidate with waveId := action.waveId } := by
  obtain ⟨-, hplan⟩ := planReconciliation_eq_ok h
  rcases hplan with ⟨-, hactions, -⟩ | ⟨hterminal, found, waiting, last, hfound, hlast, hactions, -⟩
  · rw [hactions] at haction
    cases haction
  · rw [hactions] at haction
    rcases (mem_actions_iff hlast).mp haction with hnone | ⟨candidate, usage, hreached, hoffered⟩
    · cases hnone
    rcases hoffered with hadmitted | hexhausted
    · exact ⟨hterminal, found, waiting, candidate, usage, hfound, hreached, hadmitted,
        toCandidate_materialize hadmitted.1⟩
    · rw [toCandidate_materialize hexhausted.2.2.2.2] at hbillable
      cases hbillable

/-- A new wave of a plan has shards that nothing has. -/
theorem free_of_submitted (h : planReconciliation lock events context now = .ok (projection, plan))
    {action : ReconcileAction} (haction : action ∈ plan.actions)
    (hkind : action.kind = .submitWave) {shardId : String} (hshardId : shardId ∈ action.shardIds) :
    shardId ∉ assignedShards lock projection := by
  obtain ⟨-, found, waiting, candidate, usage, hfound, hreached, -, hsame⟩ :=
    exists_admitted h haction (by rw [hkind]; rfl)
  rw [hsame] at hkind hshardId
  obtain ⟨waves, hwaves, hnew⟩ := exists_waves_of_mem hfound hreached.mem hkind
  obtain ⟨deployment, hentry⟩ := (mem_newWaveCandidates hwaves hnew).2.2 shardId hshardId
  obtain ⟨run, -, shard, -, hpair, hfree, -⟩ := mem_freeShards.mp hentry
  rw [(Prod.mk.inj hpair).2]
  exact hfree

/-- A plan offers trials once exactly if every retry of a trial that only looks free is turned
away. -/
theorem offeredOnce_iff (hdistinct : lock.Distinct)
    (h : planReconciliation lock events context now = .ok (projection, plan)) :
    OfferedOnce lock projection plan ↔ ∀ trial, LooksFree projection trial →
      ∀ candidate, trial.trialId ∈ candidate.trialIds →
        ¬ AdmitsRetry lock projection context now candidate := by
  have hconsistent := Consistent.of_projectRecovery (planReconciliation_eq_ok h).1
  constructor
  · rintro honce trial ⟨htrial, hplanned, -, -, wave, hwave, hshard⟩ candidate hmem
      ⟨hterminal, hkind, found, waiting, usage, action, hfound, hreached, hadmitted⟩
    have hsame := toCandidate_materialize hadmitted.1
    have haction : action ∈ plan.actions := by
      obtain ⟨-, hplan⟩ := planReconciliation_eq_ok h
      rcases hplan with ⟨hended, -, -⟩ | ⟨-, found', waiting', last, hfound', hlast, hactions, -⟩
      · rw [hterminal] at hended
        cases hended
      · rw [hfound] at hfound'
        cases hfound'
        rw [hactions, mem_actions_iff hlast]
        exact .inr ⟨candidate, usage, hreached, .inl hadmitted⟩
    have hnone : trial.executions = [] := by
      obtain ⟨-, -, -, hsupported⟩ :=
        hconsistent.trials _ trial (hconsistent.get?_trialId htrial)
      by_contra hne
      obtain ⟨entry, hentry⟩ := List.exists_mem_of_ne_nil _ hne
      have hobserved := hsupported.observed entry.2 (List.mem_map_of_mem hentry)
      rw [hsupported.planned hplanned] at hobserved
      cases hobserved
    refine honce.retried action haction ?_ trial htrial ?_ hnone wave hwave hshard
    · rw [hsame]
      exact hkind
    · rw [hsame]
      exact hmem
  · intro hcondition
    refine ⟨pairwise_covered hdistinct h, ?_, ?_⟩
    · intro action haction hkind shardId hshardId
      have hfree := free_of_submitted h haction hkind hshardId
      unfold assignedShards at hfree
      rw [List.mem_append, List.mem_append, not_or, not_or] at hfree
      obtain ⟨⟨hwaves, -⟩, hactions⟩ := hfree
      constructor
      · intro wave hwave hmem
        obtain ⟨hwave, hopen⟩ := List.mem_filter.mp hwave
        refine hwaves (List.mem_flatMap.mpr ⟨wave, hwave, List.mem_filter.mpr ⟨hmem, ?_⟩⟩)
        simpa using Or.inl (of_decide_eq_true hopen)
      · intro other hother hbillable hspent hmem
        refine hactions (List.mem_flatMap.mpr ⟨other, List.mem_filter.mpr ⟨hother, ?_⟩, hmem⟩)
        simp [hbillable, hspent]
    · intro action haction hkind trial htrial hmem hnone wave hwave hshard
      obtain ⟨hterminal, found, waiting, candidate, usage, hfound, hreached, hadmitted, hsame⟩ :=
        exists_admitted h haction (by rw [hkind]; rfl)
      rw [hsame] at hkind hmem
      obtain ⟨-, retries, hretries, hretried⟩ := exists_retries_of_mem hfound hreached.mem hkind
      obtain ⟨queued, hqueued, hid, -⟩ :=
        ((mem_retryCandidates hretries hretried).2.2.2.2 trial.trialId).mp hmem
      obtain ⟨hqueued, hfree, hstatus⟩ := status_of_ready hqueued
      obtain rfl := hconsistent.trial_inj hqueued htrial hid
      obtain ⟨-, -, -, hsupported⟩ :=
        hconsistent.trials _ queued (hconsistent.get?_trialId htrial)
      rcases hstatus with ⟨hplanned, hskipped⟩ | hwaiting
      · exact hcondition queued ⟨htrial, hplanned, hfree, hskipped, wave, hwave, hshard⟩ candidate
          hmem ⟨hterminal, hkind, found, waiting, usage, action, hfound, hreached, hadmitted⟩
      · exact hsupported.waiting hwaiting (hsupported.empty hnone)

end Plans

/-! ### A shard that was submitted again -/

section Resubmitted

local instance resubmittedJitter : Jitter := ⟨fun _ ↦ 0, zero_lt_byte⟩

local instance resubmittedKeys : ActionKeys :=
  ⟨fun candidate _ retries ↦ toString candidate.kind.priority ++ ":" ++
    ",".intercalate candidate.targetIds ++ ":" ++ toString retries⟩

/-- The first wave closes before it starts anything, and the second has started one of two trials. -/
def resubmittedLog : List CampaignEvent :=
  let wave : WaveLifecyclePayload := ⟨"deployment", "hf-inference-endpoints", ["shard"], 100⟩
  sampleLog [
    ⟨"reserved-1", "campaign", 1, .reconciler,
      .actionReserved ⟨"act-9:shard:0", "9:shard:0", .submitWave, ["shard"]⟩⟩,
    ⟨"succeeded-1", "campaign", 2, .reconciler,
      .actionOutcome .succeeded ⟨"act-9:shard:0", none, none⟩⟩,
    ⟨"draining-1", "wave-9:shard:0", 3, .waveController, .wave .draining wave⟩,
    ⟨"closed-1", "wave-9:shard:0", 4, .waveController, .wave .closed wave⟩,
    ⟨"reserved-2", "campaign", 5, .reconciler,
      .actionReserved ⟨"act-9:shard:1", "9:shard:1", .submitWave, ["shard"]⟩⟩,
    ⟨"succeeded-2", "campaign", 6, .reconciler,
      .actionOutcome .succeeded ⟨"act-9:shard:1", none, none⟩⟩,
    ⟨"active-2", "wave-9:shard:1", 7, .waveController, .wave .active wave⟩,
    ⟨"started", "execution", 8, .waveController,
      .executionStarted ⟨"trial", "shard", 1, some "wave-9:shard:1", 0⟩⟩]

/-- A deployment may have two waves. -/
def twoWaves : ReconcileContext := { limits := { deploymentActiveWaves := 2 } }

/-- The plan retries the trial that the second wave has yet to start. -/
theorem resubmitted_not_offeredOnce : pairLock.Distinct ∧ ∃ projection plan,
    planReconciliation pairLock resubmittedLog twoWaves 9 = .ok (projection, plan) ∧
      ¬ OfferedOnce pairLock projection plan := by
  refine ⟨by decide +kernel, ?_⟩
  obtain ⟨⟨projection, plan⟩, hplan⟩ := exists_ok_of_toBool
    (show (planReconciliation pairLock resubmittedLog twoWaves 9).toBool = true by decide +kernel)
  refine ⟨projection, plan, hplan, fun honce ↦ ?_⟩
  have hall : ((planReconciliation pairLock resubmittedLog twoWaves 9).toOption.all fun result ↦
      result.2.actions.any fun action ↦ decide (action.kind = .retryShard) &&
        result.1.trials.values.any fun trial ↦ decide (trial.trialId ∈ action.trialIds) &&
          (decide (trial.executions = []) && (openWaves result.1).any fun wave ↦
            decide (trial.shardId ∈ wave.shardIds))) = true := by
    decide +kernel
  simp only [hplan, Except.toOption, Option.all_some, List.any_eq_true, Bool.and_eq_true,
    decide_eq_true_eq] at hall
  obtain ⟨action, haction, hkind, trial, htrial, hmem, hnone, wave, hwave, hshard⟩ := hall
  exact honce.retried action haction hkind trial htrial hmem hnone wave hwave hshard

/-- A plan to which `offeredOnce_iff` applies. -/
theorem offeredOnce_iff_resubmitted : pairLock.Distinct ∧ ∃ projection plan,
    planReconciliation pairLock resubmittedLog {} 9 = .ok (projection, plan) ∧
      (OfferedOnce pairLock projection plan ↔ ∀ trial, LooksFree projection trial →
        ∀ candidate, trial.trialId ∈ candidate.trialIds →
          ¬ AdmitsRetry pairLock projection {} 9 candidate) := by
  have hdistinct : pairLock.Distinct := by decide +kernel
  obtain ⟨⟨projection, plan⟩, hplan⟩ := exists_ok_of_toBool
    (show (planReconciliation pairLock resubmittedLog {} 9).toBool = true by decide +kernel)
  exact ⟨hdistinct, projection, plan, hplan, offeredOnce_iff hdistinct hplan⟩

end Resubmitted

end HarborHF.Campaign
