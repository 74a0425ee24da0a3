import Mathlib.Data.List.Dedup
import HarborHF.Campaign.Consistency
import HarborHF.Campaign.Reconciler

/-!
# What a plan holds

The lemmas say where the actions and the blocked entries of a plan come from. A plan is the loop of
`admitCandidates` over the sorted candidates (`planReconciliation_eq_ok`); every action of it is
offered for a candidate, in the state that the loop is in when it reaches the candidate
(`mem_actions_iff`), and the candidates that are offered actions are some of the candidates, in their
order (`exists_chosen`). A candidate that the loop passes over is either reported as blocked or has
a key that is taken (`offer_none`).

The candidates of waves are the chunks of the shards of each deployment, so that no two of them share
a shard (`nodup_waveCandidates`).
-/

set_option autoImplicit false

namespace HarborHF.Campaign

open Relational

/-! ### One candidate -/

section Offer

variable [ActionKeys] {lock : CampaignLock} {projection : RecoveryProjection}
  {limits : AdmissionLimits} {usage usage' : MutableUsage} {candidate : Candidate}
  {action : ReconcileAction} {blocked : List BlockedAction}

/-- The candidate is admitted as it is. -/
def Admitted (lock : CampaignLock) (projection : RecoveryProjection) (limits : AdmissionLimits)
    (usage : MutableUsage) (candidate : Candidate) (action : ReconcileAction) : Prop :=
  materialize lock projection candidate = some action ∧
    (candidate.kind.billable = true → budgetReason lock candidate limits usage = none)

/-- The candidate is a retry that the spend cap rules out for good, and becomes an exhaustion. -/
def Exhausted (lock : CampaignLock) (projection : RecoveryProjection) (limits : AdmissionLimits)
    (usage : MutableUsage) (candidate : Candidate) (action : ReconcileAction) : Prop :=
  (materialize lock projection candidate).isSome = true ∧ candidate.kind = .retryShard ∧
    budgetReason lock candidate limits usage = some .spendCap ∧
    durableSpendCapBlocksRetry lock projection candidate = .ok true ∧
    materialize lock projection (exhaustion candidate) = some action

theorem toCandidate_materialize {candidate : Candidate} {action : ReconcileAction}
    (h : materialize lock projection candidate = some action) :
    action.toCandidate = { candidate with waveId := action.waveId } := by
  unfold materialize at h
  dsimp only at h
  split at h
  · cases h
  · cases h
    rfl

/-- An action is offered for an admitted candidate or as an exhaustion. -/
theorem offer_some
    (h : offer lock projection limits usage candidate = .ok (some action, usage', blocked)) :
    blocked = [] ∧ (Admitted lock projection limits usage candidate action ∨
      Exhausted lock projection limits usage candidate action) := by
  unfold offer at h
  split at h
  · cases h
  · rename_i first hfirst
    split at h
    · rename_i hbillable
      cases h
      exact ⟨rfl, .inl ⟨hfirst, by simp [hbillable]⟩⟩
    · split at h
      · rename_i hreason
        cases h
        exact ⟨rfl, .inl ⟨hfirst, fun _ ↦ hreason⟩⟩
      · rename_i reason hreason
        obtain ⟨exhaustRetry, hdurable, hdenied⟩ := bind_eq_ok.mp h
        by_cases hexhaust : candidate.kind = .retryShard ∧ reason = .spendCap ∧ exhaustRetry = true
        · simp only [deniedBillableAction, if_pos hexhaust, pure, Except.pure, Except.ok.injEq,
            Prod.mk.injEq] at hdenied
          obtain ⟨hkind, rfl, rfl⟩ := hexhaust
          obtain ⟨haction, -, rfl⟩ := hdenied
          exact ⟨rfl, .inr ⟨by rw [hfirst]; rfl, hkind, hreason, hdurable, haction⟩⟩
        · simp only [deniedBillableAction, if_neg hexhaust] at hdenied
          cases hdenied

theorem offer_of_exhausted (h : Exhausted lock projection limits usage candidate action) :
    offer lock projection limits usage candidate = .ok (some action, usage, []) := by
  obtain ⟨hsome, hkind, hreason, hdurable, haction⟩ := h
  obtain ⟨first, hfirst⟩ := Option.isSome_iff_exists.mp hsome
  simp [offer, hfirst, hkind, ActionKind.billable, hreason, hdurable, deniedBillableAction, haction,
    bind, Except.bind, pure, Except.pure]

theorem offer_of_admitted (h : Admitted lock projection limits usage candidate action) :
    ∃ usage', offer lock projection limits usage candidate = .ok (some action, usage', []) := by
  obtain ⟨haction, hreason⟩ := h
  by_cases hbillable : candidate.kind.billable = true
  · simp [offer, haction, hbillable, hreason hbillable]
  · simp [offer, haction, hbillable]

/-- A candidate for which nothing is offered has a key that is taken, is reported as blocked, or is a
retry whose exhaustion has a key that is taken. -/
theorem offer_none
    (h : offer lock projection limits usage candidate = .ok (none, usage', blocked)) :
    usage' = usage ∧
      ((materialize lock projection candidate = none ∧ blocked = []) ∨
        (∃ reason, blocked = [⟨candidate.kind.wave, candidate.deploymentDigest,
          candidate.shardIds, reason⟩]) ∨
        (candidate.kind = .retryShard ∧
          materialize lock projection (exhaustion candidate) = none ∧ blocked = [])) := by
  unfold offer at h
  split at h
  · rename_i hnone
    cases h
    exact ⟨rfl, .inl ⟨hnone, rfl⟩⟩
  · split at h
    · cases h
    · split at h
      · cases h
      · rename_i reason hreason
        obtain ⟨exhaustRetry, -, h⟩ := bind_eq_ok.mp h
        by_cases hexhaust : candidate.kind = .retryShard ∧ reason = .spendCap ∧ exhaustRetry = true
        · simp only [deniedBillableAction, if_pos hexhaust, pure, Except.pure, Except.ok.injEq,
            Prod.mk.injEq] at h
          obtain ⟨hnone, rfl, rfl⟩ := h
          exact ⟨rfl, .inr (.inr ⟨hexhaust.1, hnone, rfl⟩)⟩
        · simp only [deniedBillableAction, if_neg hexhaust] at h
          cases h
          exact ⟨rfl, .inr (.inl ⟨reason, rfl⟩)⟩

end Offer

/-! ### The loop -/

section Loop

variable [ActionKeys] {lock : CampaignLock} {projection : RecoveryProjection}
  {limits : AdmissionLimits} {found : List Candidate} {start last : Admission}

/-- The loop reaches a candidate in a state in which it may still add actions. -/
def Reaches (lock : CampaignLock) (projection : RecoveryProjection) (limits : AdmissionLimits)
    (found : List Candidate) (start : Admission) (candidate : Candidate) (usage : MutableUsage) :
    Prop :=
  ∃ before after state, found = before ++ candidate :: after ∧
    admitCandidates lock projection limits before start = .ok state ∧
    state.actions.length < limits.actionLimit ∧ state.usage = usage

theorem Reaches.mem {candidate : Candidate} {usage : MutableUsage}
    (h : Reaches lock projection limits found start candidate usage) : candidate ∈ found := by
  obtain ⟨before, after, state, rfl, -⟩ := h
  simp

/-- One turn of the loop. -/
theorem admitCandidates_cons {candidate : Candidate} {rest : List Candidate}
    (h : admitCandidates lock projection limits (candidate :: rest) start = .ok last) :
    ∃ offered usage blocked,
      offer lock projection limits start.usage candidate = .ok (offered, usage, blocked) ∧
      ((∃ action, offered = some action ∧ limits.actionLimit ≤ start.actions.length ∧
          last = start) ∨
        ((offered.isSome = true → start.actions.length < limits.actionLimit) ∧
          admitCandidates lock projection limits rest
            ⟨usage, start.actions ++ offered.toList, start.blocked ++ blocked⟩ = .ok last)) := by
  unfold admitCandidates at h
  obtain ⟨⟨offered, usage, blocked⟩, hoffer, h⟩ := bind_eq_ok.mp h
  refine ⟨offered, usage, blocked, hoffer, ?_⟩
  cases offered with
  | none =>
    refine .inr ⟨nofun, ?_⟩
    simpa using h
  | some action =>
    dsimp only at h
    split at h
    · rename_i hfull
      cases h
      exact .inl ⟨action, rfl, hfull, rfl⟩
    · rename_i hroom
      exact .inr ⟨fun _ ↦ Nat.lt_of_not_le hroom, h⟩

/-- The candidates that are offered actions, with their actions. -/
theorem exists_chosen (h : admitCandidates lock projection limits found start = .ok last) :
    ∃ chosen added, chosen.Sublist found ∧ last.actions = start.actions ++ added ∧
      List.Forall₂ (fun candidate action ↦ ∃ usage,
        Admitted lock projection limits usage candidate action ∨
          Exhausted lock projection limits usage candidate action) chosen added := by
  induction found generalizing start with
  | nil =>
    cases h
    exact ⟨[], [], List.Sublist.refl _, by simp, .nil⟩
  | cons candidate rest ih =>
    obtain ⟨offered, usage, blocked, hoffer, hturn⟩ := admitCandidates_cons h
    rcases hturn with ⟨action, -, -, rfl⟩ | ⟨-, hrest⟩
    · exact ⟨[], [], List.nil_sublist _, by simp, .nil⟩
    · obtain ⟨chosen, added, hsublist, hactions, hall⟩ := ih hrest
      cases offered with
      | none => exact ⟨chosen, added, hsublist.cons candidate, by simpa using hactions, hall⟩
      | some action =>
        exact ⟨candidate :: chosen, action :: added, hsublist.cons_cons candidate,
          by simpa using hactions, .cons ⟨_, (offer_some hoffer).2⟩ hall⟩

/-- The actions of the loop are those that it offers while it has room. -/
theorem mem_actions_iff (h : admitCandidates lock projection limits found start = .ok last)
    {action : ReconcileAction} : action ∈ last.actions ↔ action ∈ start.actions ∨
      ∃ candidate usage, Reaches lock projection limits found start candidate usage ∧
        (Admitted lock projection limits usage candidate action ∨
          Exhausted lock projection limits usage candidate action) := by
  induction found generalizing start with
  | nil =>
    cases h
    simp [Reaches]
  | cons candidate rest ih =>
    obtain ⟨offered, usage, blocked, hoffer, hturn⟩ := admitCandidates_cons h
    rcases hturn with ⟨other, rfl, hfull, rfl⟩ | ⟨hroom, hrest⟩
    · -- the loop ends here, and reaches nothing more with room
      constructor
      · exact .inl
      · rintro (hmem | ⟨reached, usage', ⟨before, after, state, heq, hstate, hlt, -⟩, -⟩)
        · exact hmem
        · cases before with
          | nil =>
            cases hstate
            exact absurd hlt (Nat.not_lt.mpr hfull)
          | cons first before =>
            obtain ⟨rfl, -⟩ := List.cons.inj heq
            obtain ⟨offered', _, _, hoffer', hturn'⟩ := admitCandidates_cons hstate
            rw [hoffer] at hoffer'
            cases hoffer'
            rcases hturn' with ⟨_, -, -, rfl⟩ | ⟨hroom, -⟩
            · exact absurd hlt (Nat.not_lt.mpr hfull)
            · exact absurd (hroom rfl) (Nat.not_lt.mpr hfull)
    · rw [ih hrest, List.mem_append, or_assoc]
      refine or_congr_right ?_
      constructor
      · rintro (hmem | ⟨reached, usage', ⟨before, after, state, rfl, hstate, hlt, husage⟩, hoffered⟩)
        · rw [Option.mem_toList] at hmem
          subst hmem
          exact ⟨candidate, start.usage, ⟨[], rest, start, rfl, rfl, hroom rfl, rfl⟩,
            (offer_some hoffer).2⟩
        · refine ⟨reached, usage', ⟨candidate :: before, after, state, rfl, ?_, hlt, husage⟩,
            hoffered⟩
          unfold admitCandidates
          rw [bind_eq_ok]
          refine ⟨_, hoffer, ?_⟩
          cases offered with
          | none => simpa using hstate
          | some action =>
            dsimp only
            rw [if_neg (Nat.not_le.mpr (hroom rfl))]
            exact hstate
      · rintro ⟨reached, usage', ⟨before, after, state, heq, hstate, hlt, husage⟩, hoffered⟩
        cases before with
        | nil =>
          obtain ⟨rfl, rfl⟩ := List.cons.inj heq
          cases hstate
          subst husage
          refine .inl ?_
          rcases hoffered with hadmitted | hexhausted
          · obtain ⟨_, hsome⟩ := offer_of_admitted hadmitted
            rw [hoffer] at hsome
            cases hsome
            simp
          · have hsome := offer_of_exhausted hexhausted
            rw [hoffer] at hsome
            cases hsome
            simp
        | cons first before =>
          obtain ⟨rfl, rfl⟩ := List.cons.inj heq
          refine .inr ⟨reached, usage', ⟨before, after, state, rfl, ?_, hlt, husage⟩, hoffered⟩
          obtain ⟨_, _, _, hoffer', hturn'⟩ := admitCandidates_cons hstate
          rw [hoffer] at hoffer'
          cases hoffer'
          rcases hturn' with ⟨_, rfl, hfull, -⟩ | ⟨-, hrest'⟩
          · exact absurd (hroom rfl) (Nat.not_lt.mpr hfull)
          · exact hrest'

/-- What was there before the loop is there after it. -/
theorem subset_of_admitCandidates
    (h : admitCandidates lock projection limits found start = .ok last) :
    start.actions ⊆ last.actions ∧ start.blocked ⊆ last.blocked := by
  induction found generalizing start with
  | nil =>
    cases h
    exact ⟨List.Subset.refl _, List.Subset.refl _⟩
  | cons candidate rest ih =>
    obtain ⟨offered, usage, blocked, -, hturn⟩ := admitCandidates_cons h
    rcases hturn with ⟨_, -, -, rfl⟩ | ⟨-, hrest⟩
    · exact ⟨List.Subset.refl _, List.Subset.refl _⟩
    · obtain ⟨hactions, hblocked⟩ := ih hrest
      exact ⟨fun _ hmem ↦ hactions (List.mem_append_left _ hmem),
        fun _ hmem ↦ hblocked (List.mem_append_left _ hmem)⟩

/-- A loop that did not fill up has dealt with every candidate. -/
theorem exists_offer (h : admitCandidates lock projection limits found start = .ok last)
    (hroom : last.actions.length < limits.actionLimit) {candidate : Candidate}
    (hcandidate : candidate ∈ found) : ∃ usage usage' offered blocked,
      offer lock projection limits usage candidate = .ok (offered, usage', blocked) ∧
      (∀ action, offered = some action → action ∈ last.actions) ∧ blocked ⊆ last.blocked := by
  induction found generalizing start with
  | nil => cases hcandidate
  | cons first rest ih =>
    obtain ⟨offered, usage, blocked, hoffer, hturn⟩ := admitCandidates_cons h
    rcases hturn with ⟨_, -, hfull, rfl⟩ | ⟨-, hrest⟩
    · exact absurd hroom (Nat.not_lt.mpr hfull)
    · rcases List.mem_cons.mp hcandidate with rfl | hmem
      · obtain ⟨hactions, hblocked⟩ := subset_of_admitCandidates hrest
        refine ⟨_, usage, offered, blocked, hoffer, ?_, ?_⟩
        · rintro action rfl
          exact hactions (List.mem_append_right _ (by simp))
        · exact fun _ hmem ↦ hblocked (List.mem_append_right _ hmem)
      · exact ih hrest hmem

end Loop

/-! ### Waves -/

section Waves

variable {lock : CampaignLock} {shards : List (String × String)} {shardIds : List String}
  {make : String → List String → Except CampaignError Candidate} {found : List Candidate}

theorem mem_deploymentGroups {group : String × List String} :
    group ∈ deploymentGroups shards ↔ group.1 ∈ shards.map Prod.fst ∧
      group.2 = (shards.filter fun entry ↦ entry.1 = group.1).map Prod.snd := by
  obtain ⟨deployment, members⟩ := group
  simp only [deploymentGroups, List.mem_map, List.mem_insertionSort, List.mem_dedup, Prod.mk.injEq]
  constructor
  · rintro ⟨other, hother, rfl, rfl⟩
    exact ⟨hother, rfl⟩
  · rintro ⟨hmem, hmembers⟩
    exact ⟨deployment, hmem, rfl, hmembers.symm⟩

theorem waveCandidates_eq_ok (h : waveCandidates lock shards make = .ok found) :
    ∃ groups, found = groups.flatten ∧
      List.Forall₂ (fun group wave ↦ 0 < lock.maxShardsPerWave ∧
        List.Forall₂ (fun chunk candidate ↦ make group.1 chunk = .ok candidate)
          (chunks lock.maxShardsPerWave group.2) wave) (deploymentGroups shards) groups := by
  obtain ⟨groups, hgroups, hfound⟩ := bind_eq_ok.mp h
  cases hfound
  refine ⟨groups, rfl, (mapM_eq_ok.mp hgroups).imp ?_⟩
  intro group wave hwave
  obtain ⟨waves, hwaves, hmake⟩ := bind_eq_ok.mp hwave
  unfold waveChunks at hwaves
  split_ifs at hwaves with hzero
  cases hwaves
  exact ⟨Nat.pos_of_ne_zero hzero, mapM_eq_ok.mp hmake⟩

/-- A candidate is made of some shards of one deployment. -/
theorem mem_waveCandidates (h : waveCandidates lock shards make = .ok found)
    {candidate : Candidate} (hcandidate : candidate ∈ found) :
    ∃ deployment chunk, make deployment chunk = .ok candidate ∧ chunk ≠ [] ∧
      ∀ shardId ∈ chunk, (deployment, shardId) ∈ shards := by
  obtain ⟨groups, rfl, hall⟩ := waveCandidates_eq_ok h
  obtain ⟨wave, hwave, hmem⟩ := List.mem_flatten.mp hcandidate
  obtain ⟨group, hgroup, hsize, hchunks⟩ := exists_left_of_forall₂ hall hwave
  obtain ⟨chunk, hchunk, hmake⟩ := exists_left_of_forall₂ hchunks hmem
  refine ⟨group.1, chunk, hmake, ne_nil_of_mem_chunks hchunk, ?_⟩
  intro shardId hshardId
  have hflat : shardId ∈ group.2 := by
    rw [← flatten_chunks hsize group.2]
    exact List.mem_flatten.mpr ⟨chunk, hchunk, hshardId⟩
  rw [(mem_deploymentGroups.mp hgroup).2] at hflat
  obtain ⟨entry, hentry, rfl⟩ := List.mem_map.mp hflat
  obtain ⟨hentry, hdeployment⟩ := List.mem_filter.mp hentry
  rw [← of_decide_eq_true hdeployment]
  exact hentry

/-- Every shard is in a candidate. -/
theorem exists_waveCandidate (h : waveCandidates lock shards make = .ok found)
    {entry : String × String} (hentry : entry ∈ shards) :
    ∃ candidate ∈ found, ∃ chunk, make entry.1 chunk = .ok candidate ∧ entry.2 ∈ chunk := by
  obtain ⟨groups, rfl, hall⟩ := waveCandidates_eq_ok h
  have hgroup : (entry.1, (shards.filter fun other ↦ other.1 = entry.1).map Prod.snd) ∈
      deploymentGroups shards :=
    mem_deploymentGroups.mpr ⟨List.mem_map_of_mem hentry, rfl⟩
  obtain ⟨wave, hwave, hsize, hchunks⟩ := exists_right_of_forall₂ hall hgroup
  have hmem : entry.2 ∈ (chunks lock.maxShardsPerWave
      ((shards.filter fun other ↦ other.1 = entry.1).map Prod.snd)).flatten := by
    rw [flatten_chunks hsize]
    exact List.mem_map_of_mem (List.mem_filter.mpr ⟨hentry, by simp⟩)
  obtain ⟨chunk, hchunk, hshard⟩ := List.mem_flatten.mp hmem
  obtain ⟨candidate, hcandidate, hmake⟩ := exists_right_of_forall₂ hchunks hchunk
  exact ⟨candidate, List.mem_flatten.mpr ⟨wave, hwave, hcandidate⟩, chunk, hmake, hshard⟩

/-- The groups of different shards are disjoint. -/
theorem nodup_deploymentGroups (hshards : (shards.map Prod.snd).Nodup) :
    ((deploymentGroups shards).map Prod.snd).flatten.Nodup := by
  rw [List.nodup_flatten]
  constructor
  · intro members hmembers
    obtain ⟨group, hgroup, rfl⟩ := List.mem_map.mp hmembers
    rw [(mem_deploymentGroups.mp hgroup).2]
    exact hshards.sublist (List.filter_sublist.map Prod.snd)
  · unfold deploymentGroups
    rw [List.map_map, List.pairwise_map]
    have hdistinct : ((shards.map Prod.fst).dedup.insertionSort (· ≤ ·)).Nodup :=
      (List.perm_insertionSort _ _).nodup_iff.mpr (List.nodup_dedup _)
    refine hdistinct.imp ?_
    intro first second hne shardId hfirst hsecond
    obtain ⟨entry, hentry, rfl⟩ := List.mem_map.mp hfirst
    obtain ⟨other, hother, heq⟩ := List.mem_map.mp hsecond
    obtain ⟨hentry, hdeployment⟩ := List.mem_filter.mp hentry
    obtain ⟨hother, hdeployment'⟩ := List.mem_filter.mp hother
    have hsame := List.inj_on_of_nodup_map hshards hother hentry heq
    exact hne ((of_decide_eq_true hdeployment).symm.trans
      (hsame ▸ of_decide_eq_true hdeployment'))

/-- Candidates of waves share no shard. -/
theorem nodup_waveCandidates (h : waveCandidates lock shards make = .ok found)
    (hmake : ∀ deployment chunk candidate, make deployment chunk = .ok candidate →
      candidate.shardIds = chunk) (hshards : (shards.map Prod.snd).Nodup) :
    (found.map Candidate.shardIds).flatten.Nodup := by
  obtain ⟨groups, rfl, hall⟩ := waveCandidates_eq_ok h
  have hgroups : (deploymentGroups shards).map Prod.snd =
      groups.map fun wave ↦ (wave.map Candidate.shardIds).flatten := by
    rw [← List.forall₂_eq_eq_eq, List.forall₂_map_left_iff, List.forall₂_map_right_iff]
    refine hall.imp ?_
    rintro group wave ⟨hsize, hchunks⟩
    have hwave : List.Forall₂ (· = ·) (chunks lock.maxShardsPerWave group.2)
        (wave.map Candidate.shardIds) :=
      List.forall₂_map_right_iff.mpr (hchunks.imp fun _ _ hmade ↦ (hmake _ _ _ hmade).symm)
    rw [List.forall₂_eq_eq_eq] at hwave
    rw [← hwave, flatten_chunks hsize]
  have hflatten : (groups.flatten.map Candidate.shardIds).flatten =
      (groups.map fun wave ↦ (wave.map Candidate.shardIds).flatten).flatten := by
    rw [List.map_flatten, List.flatten_flatten, List.map_map]
    rfl
  rw [hflatten, ← hgroups]
  exact nodup_deploymentGroups hshards

end Waves

/-! ### Candidates -/

section Candidates

variable {lock : CampaignLock} {projection : RecoveryProjection} {context : ReconcileContext}
  {now : ℕ} {found retries waves cleanup : List Candidate} {waiting : List BlockedAction}
  {candidate : Candidate}

/-- The parts of the candidates. -/
theorem candidates_eq_ok (h : candidates lock projection context now = .ok (found, waiting)) :
    ∃ cleanup retries waves, cleanupCandidates lock projection now = .ok cleanup ∧
      (∀ candidate, candidate ∈ found ↔ candidate ∈ cleanup ∨ candidate ∈ retries ∨
        candidate ∈ waves ∨ ∃ decision ∈ projection.terminalDecision,
          candidate = summaryCandidate decision) ∧
      found.Perm (cleanup ++ retries ++ waves ++
        projection.terminalDecision.toList.map summaryCandidate) ∧
      ((projection.campaign.status.cancelling = true ∧ retries = [] ∧ waves = [] ∧ waiting = []) ∨
        (projection.campaign.status.cancelling = false ∧
          retryCandidates lock projection context now = .ok (retries, waiting) ∧
          newWaveCandidates lock projection context = .ok waves)) := by
  unfold candidates at h
  obtain ⟨cleanup, hcleanup, h⟩ := bind_eq_ok.mp h
  have hmem (retries waves : List Candidate) (candidate : Candidate) :
      candidate ∈ sortedCandidates (cleanup ++ retries ++ waves ++
        projection.terminalDecision.toList.map summaryCandidate) ↔
      candidate ∈ cleanup ∨ candidate ∈ retries ∨ candidate ∈ waves ∨
        ∃ decision ∈ projection.terminalDecision, candidate = summaryCandidate decision := by
    simp [sortedCandidates, eq_comm]
  by_cases hcancelling : projection.campaign.status.cancelling = true
  · simp only [hcancelling, if_true] at h
    cases h
    exact ⟨cleanup, [], [], hcleanup, hmem [] [], List.perm_insertionSort _ _,
      .inl ⟨hcancelling, rfl, rfl, rfl⟩⟩
  · simp only [hcancelling] at h
    obtain ⟨⟨retries, blocked⟩, hretries, h⟩ := bind_eq_ok.mp h
    obtain ⟨waves, hwaves, h⟩ := bind_eq_ok.mp h
    cases h
    exact ⟨cleanup, retries, waves, hcleanup, hmem retries waves, List.perm_insertionSort _ _,
      .inr ⟨by simpa using hcancelling, hretries, hwaves⟩⟩

/-- The parts of the cleanup. -/
theorem cleanupCandidates_eq_ok (h : cleanupCandidates lock projection now = .ok cleanup) :
    ∃ unobserved,
      (if projection.campaign.status.cancelling then
        unobservedWaveCancellations lock projection (cancellationGraceElapsed lock projection now)
        else .ok []) = .ok unobserved ∧
      cleanup = (if projection.campaign.status.cancelling = true ∧
          cancellationGraceElapsed lock projection now = true then
            executionCancellations projection else []) ++
        projection.waves.values.flatMap (waveCleanup projection
          projection.campaign.status.cancelling
          (cancellationGraceElapsed lock projection now)) ++ unobserved := by
  unfold cleanupCandidates at h
  dsimp only at h
  split at h
  · rename_i hcancelling
    obtain ⟨unobserved, hunobserved, h⟩ := bind_eq_ok.mp h
    cases h
    exact ⟨unobserved, by rw [if_pos hcancelling, hunobserved], rfl⟩
  · rename_i hcancelling
    cases h
    exact ⟨[], by rw [if_neg hcancelling], rfl⟩

/-- Cleanup starts no wave and exhausts no trial. -/
theorem kind_of_mem_cleanup (h : cleanupCandidates lock projection now = .ok cleanup)
    (hcandidate : candidate ∈ cleanup) :
    candidate.kind.billable = false ∧ candidate.kind ≠ .exhaustTrials := by
  have hwave (wave : WaveProjection) (cancelling forceCancel : Bool)
      (hmem : candidate ∈ waveCleanup projection cancelling forceCancel wave) :
      candidate.kind.billable = false ∧ candidate.kind ≠ .exhaustTrials := by
    unfold waveCleanup cancellationWaveActions at hmem
    split_ifs at hmem <;>
      simp only [List.mem_cons, List.not_mem_nil, or_false] at hmem
    all_goals rcases hmem with rfl | rfl <;> simp [waveAction, ActionKind.billable]
  obtain ⟨unobserved, hunobserved, rfl⟩ := cleanupCandidates_eq_ok h
  rcases List.mem_append.mp hcandidate with hcandidate | hcandidate
  · rcases List.mem_append.mp hcandidate with hcandidate | hcandidate
    · split_ifs at hcandidate
      · obtain ⟨execution, -, rfl⟩ := List.mem_map.mp hcandidate
        simp [ActionKind.billable]
      · cases hcandidate
    · obtain ⟨wave, -, hmem⟩ := List.mem_flatMap.mp hcandidate
      exact hwave wave _ _ hmem
  · split_ifs at hunobserved
    · obtain ⟨lists, hlists, hunobserved⟩ := bind_eq_ok.mp hunobserved
      cases hunobserved
      obtain ⟨list, hlist, hmem⟩ := List.mem_flatten.mp hcandidate
      obtain ⟨action, -, haction⟩ := exists_left_of_forall₂ (mapM_eq_ok.mp hlists) hlist
      obtain ⟨deployment, -, haction⟩ := bind_eq_ok.mp haction
      cases haction
      obtain ⟨kind, hkind, rfl⟩ := List.mem_map.mp hmem
      split_ifs at hkind <;> simp only [List.mem_cons, List.not_mem_nil, or_false] at hkind
      · rcases hkind with rfl | rfl <;> simp [ActionKind.billable]
      · subst hkind
        simp [ActionKind.billable]
    · cases hunobserved
      cases hcandidate

/-- What a retry names. -/
theorem retryCandidate_eq_ok {ready : List TrialProjection} {deployment : String}
    {chunk : List String} (h : retryCandidate lock context ready deployment chunk = .ok candidate) :
    candidate.kind = .retryShard ∧ candidate.deploymentDigest = deployment ∧
      candidate.shardIds = chunk ∧ candidate.targetIds = candidate.trialIds ∧
      candidate.trialIds = (chunk.flatMap fun shardId ↦
        (ready.filter fun trial ↦ trial.shardId = shardId).map
          TrialProjection.trialId).insertionSort (· ≤ ·) := by
  unfold retryCandidate at h
  obtain ⟨admission, -, h⟩ := bind_eq_ok.mp h
  obtain ⟨provider, -, h⟩ := bind_eq_ok.mp h
  obtain ⟨estimate, -, h⟩ := bind_eq_ok.mp h
  obtain ⟨run, -, h⟩ := bind_eq_ok.mp h
  cases h
  exact ⟨rfl, rfl, rfl, rfl, rfl⟩

theorem newWaveCandidate_eq_ok {deployment : String} {chunk : List String}
    (h : newWaveCandidate lock context deployment chunk = .ok candidate) :
    candidate.kind = .submitWave ∧ candidate.shardIds = chunk ∧ candidate.trialIds = [] := by
  unfold newWaveCandidate at h
  obtain ⟨admission, -, h⟩ := bind_eq_ok.mp h
  obtain ⟨provider, -, h⟩ := bind_eq_ok.mp h
  obtain ⟨run, -, h⟩ := bind_eq_ok.mp h
  cases h
  exact ⟨rfl, rfl, rfl⟩

theorem deploymentForShards_eq_ok {shardId deployment : String}
    (h : deploymentForShards lock [shardId] = .ok deployment) :
    (∃ run ∈ lock.runs, run.deploymentDigest = deployment ∧
      ∃ shard ∈ run.shards, shard.shardId = shardId) ∧
    ∀ run ∈ lock.runs, (∃ shard ∈ run.shards, shard.shardId = shardId) →
      run.deploymentDigest = deployment := by
  unfold deploymentForShards at h
  split at h
  · rename_i found hfound
    cases h
    have hmem (name : String) : name = deployment ↔ ∃ run ∈ lock.runs,
        (∃ shard ∈ run.shards, shard.shardId = shardId) ∧ run.deploymentDigest = name := by
      rw [← List.mem_singleton, ← hfound, List.mem_dedup]
      simp [and_assoc]
    constructor
    · obtain ⟨run, hrun, hshard, hdeployment⟩ := (hmem deployment).mp rfl
      exact ⟨run, hrun, hdeployment, hshard⟩
    · intro run hrun hshard
      exact (hmem run.deploymentDigest).mpr ⟨run, hrun, hshard, rfl⟩
  · cases h

/-- A trial of the ready queue was skipped by a closed wave or waits for a retry. -/
theorem status_of_ready {trial : TrialProjection} (h : trial ∈ queuedTrials projection now .ready) :
    trial ∈ projection.trials.values ∧ trial.trialId ∉ reservedTrialIds projection ∧
      ((trial.status = .planned ∧ trialWasSkippedInClosedWave projection trial.shardId = true) ∨
        trial.status = .retryWait) := by
  obtain ⟨hmem, hqueued⟩ := List.mem_filter.mp h
  obtain ⟨hfree, hqueue⟩ := of_decide_eq_true hqueued
  refine ⟨hmem, hfree, ?_⟩
  unfold retryQueue at hqueue
  split_ifs at hqueue with hskipped hwaiting hready
  · exact .inl hskipped
  · exact .inr (not_not.mp hwaiting)
  · cases hqueue

theorem mem_sortedShardIds {trials : List TrialProjection} {shardId : String} :
    shardId ∈ sortedShardIds trials ↔ ∃ trial ∈ trials, trial.shardId = shardId := by
  simp [sortedShardIds]

theorem nodup_sortedShardIds (trials : List TrialProjection) : (sortedShardIds trials).Nodup :=
  (List.perm_insertionSort _ _).nodup_iff.mpr (List.nodup_dedup _)

theorem withDeployments_eq_ok {shardIds : List String} {shards : List (String × String)}
    (h : withDeployments lock shardIds = .ok shards) : shards.map Prod.snd = shardIds ∧
      ∀ entry ∈ shards, deploymentForShards lock [entry.2] = .ok entry.1 := by
  have hall := mapM_eq_ok.mp h
  have hentry {shardId : String} {entry : String × String}
      (hentry : (do
        let deployment ← deploymentForShards lock [shardId]
        return (deployment, shardId) : Except CampaignError (String × String)) = .ok entry) :
      entry.2 = shardId ∧ deploymentForShards lock [entry.2] = .ok entry.1 := by
    obtain ⟨deployment, hdeployment, hresult⟩ := bind_eq_ok.mp hentry
    cases hresult
    exact ⟨rfl, hdeployment⟩
  constructor
  · have hmap : List.Forall₂ (· = ·) shardIds (shards.map Prod.snd) :=
      List.forall₂_map_right_iff.mpr (hall.imp fun _ _ hmade ↦ (hentry hmade).1.symm)
    rw [List.forall₂_eq_eq_eq] at hmap
    exact hmap.symm
  · intro entry hmem
    obtain ⟨shardId, -, hmade⟩ := exists_left_of_forall₂ hall hmem
    exact (hentry hmade).2

/-- The parts of the retries. -/
theorem retryCandidates_eq_ok
    (h : retryCandidates lock projection context now = .ok (retries, waiting)) : ∃ shards delayed,
      withDeployments lock (sortedShardIds (queuedTrials projection now .ready)) = .ok shards ∧
      waveCandidates lock shards
        (retryCandidate lock context (queuedTrials projection now .ready)) = .ok retries ∧
      withDeployments lock (sortedShardIds (queuedTrials projection now .waiting)) = .ok delayed ∧
      waiting = delayed.map fun entry ↦ ⟨.retryShard, entry.1, [entry.2], .backoff⟩ := by
  unfold retryCandidates at h
  obtain ⟨shards, hshards, h⟩ := bind_eq_ok.mp h
  obtain ⟨found, hfound, h⟩ := bind_eq_ok.mp h
  obtain ⟨delayed, hdelayed, h⟩ := bind_eq_ok.mp h
  cases h
  exact ⟨shards, delayed, hshards, hfound, hdelayed, rfl⟩

/-- A retry has trials of the ready queue, those of its shards. -/
theorem mem_retryCandidates
    (h : retryCandidates lock projection context now = .ok (retries, waiting))
    (hcandidate : candidate ∈ retries) :
    candidate.kind = .retryShard ∧ candidate.targetIds = candidate.trialIds ∧
      candidate.shardIds ≠ [] ∧
      (∀ shardId ∈ candidate.shardIds,
        deploymentForShards lock [shardId] = .ok candidate.deploymentDigest ∧
          ∃ trial ∈ queuedTrials projection now .ready, trial.shardId = shardId) ∧
      ∀ trialId, trialId ∈ candidate.trialIds ↔
        ∃ trial ∈ queuedTrials projection now .ready,
          trial.trialId = trialId ∧ trial.shardId ∈ candidate.shardIds := by
  obtain ⟨shards, delayed, hshards, hretries, -, -⟩ := retryCandidates_eq_ok h
  obtain ⟨deployment, chunk, hmake, hne, hchunk⟩ := mem_waveCandidates hretries hcandidate
  obtain ⟨hkind, rfl, rfl, htargets, htrials⟩ := retryCandidate_eq_ok hmake
  obtain ⟨hids, hdeployments⟩ := withDeployments_eq_ok hshards
  refine ⟨hkind, htargets, hne, ?_, ?_⟩
  · intro shardId hshardId
    have hentry := hchunk shardId hshardId
    refine ⟨hdeployments _ hentry, mem_sortedShardIds.mp ?_⟩
    rw [← hids]
    exact List.mem_map.mpr ⟨_, hentry, rfl⟩
  · intro trialId
    rw [htrials, List.mem_insertionSort, List.mem_flatMap]
    constructor
    · rintro ⟨shardId, hshardId, hmem⟩
      obtain ⟨trial, htrial, rfl⟩ := List.mem_map.mp hmem
      obtain ⟨htrial, hshard⟩ := List.mem_filter.mp htrial
      exact ⟨trial, htrial, rfl, of_decide_eq_true hshard ▸ hshardId⟩
    · rintro ⟨trial, htrial, rfl, hshard⟩
      exact ⟨trial.shardId, hshard, List.mem_map_of_mem (List.mem_filter.mpr ⟨htrial, by simp⟩)⟩

/-- Every trial of the ready queue is in a retry. -/
theorem exists_retryCandidate
    (h : retryCandidates lock projection context now = .ok (retries, waiting))
    {trial : TrialProjection} (htrial : trial ∈ queuedTrials projection now .ready) :
    ∃ candidate ∈ retries, trial.trialId ∈ candidate.trialIds ∧
      trial.shardId ∈ candidate.shardIds := by
  obtain ⟨shards, delayed, hshards, hretries, -, -⟩ := retryCandidates_eq_ok h
  obtain ⟨hids, -⟩ := withDeployments_eq_ok hshards
  have hshard : trial.shardId ∈ shards.map Prod.snd := by
    rw [hids]
    exact mem_sortedShardIds.mpr ⟨trial, htrial, rfl⟩
  obtain ⟨entry, hentry, heq⟩ := List.mem_map.mp hshard
  obtain ⟨candidate, hcandidate, chunk, hmake, hmem⟩ := exists_waveCandidate hretries hentry
  have hshardIds := (retryCandidate_eq_ok hmake).2.2.1
  refine ⟨candidate, hcandidate, ?_, ?_⟩
  · refine ((mem_retryCandidates h hcandidate).2.2.2.2 trial.trialId).mpr ⟨trial, htrial, rfl, ?_⟩
    rw [hshardIds, ← heq]
    exact hmem
  · rw [hshardIds, ← heq]
    exact hmem

theorem nodup_retryCandidates
    (h : retryCandidates lock projection context now = .ok (retries, waiting)) :
    (retries.map Candidate.shardIds).flatten.Nodup := by
  obtain ⟨shards, delayed, hshards, hretries, -, -⟩ := retryCandidates_eq_ok h
  refine nodup_waveCandidates hretries (fun _ _ _ hmake ↦ (retryCandidate_eq_ok hmake).2.2.1) ?_
  rw [(withDeployments_eq_ok hshards).1]
  exact nodup_sortedShardIds _

theorem exists_waiting (h : retryCandidates lock projection context now = .ok (retries, waiting))
    {trial : TrialProjection} (htrial : trial ∈ queuedTrials projection now .waiting) :
    ∃ entry ∈ waiting, entry.kind = .retryShard ∧ trial.shardId ∈ entry.shardIds := by
  obtain ⟨shards, delayed, -, -, hdelayed, rfl⟩ := retryCandidates_eq_ok h
  have hshard : trial.shardId ∈ delayed.map Prod.snd := by
    rw [(withDeployments_eq_ok hdelayed).1]
    exact mem_sortedShardIds.mpr ⟨trial, htrial, rfl⟩
  obtain ⟨entry, hentry, heq⟩ := List.mem_map.mp hshard
  exact ⟨_, List.mem_map_of_mem hentry, rfl, by simp [heq]⟩

/-- A shard that is free is one of the lock's that nothing has. -/
theorem mem_freeShards {entry : String × String} :
    entry ∈ freeShards lock projection ↔ ∃ run ∈ lock.runs, ∃ shard ∈ run.shards,
      entry = (run.deploymentDigest, shard.shardId) ∧
      shard.shardId ∉ assignedShards lock projection ∧
      ∃ current, projection.shards.get? shard.shardId = some current ∧
        (current.status = .planned ∨ current.status = .queued) := by
  simp only [freeShards, List.mem_flatMap, byRunId, byShardId, List.mem_insertionSort,
    List.mem_map, List.mem_filter, decide_eq_true_eq, Option.any_eq_true_iff_get]
  constructor
  · rintro ⟨run, hrun, shard, ⟨hshard, hfree, hstatus⟩, rfl⟩
    refine ⟨run, hrun, shard, hshard, rfl, hfree, ?_⟩
    obtain ⟨hsome, hstatus⟩ := hstatus
    exact ⟨_, (Option.some_get hsome).symm, by simpa using hstatus⟩
  · rintro ⟨run, hrun, shard, hshard, rfl, hfree, current, hcurrent, hstatus⟩
    refine ⟨run, hrun, shard, ⟨hshard, hfree, ?_⟩, rfl⟩
    simp [hcurrent, hstatus]

theorem mem_newWaveCandidates (h : newWaveCandidates lock projection context = .ok waves)
    (hcandidate : candidate ∈ waves) : candidate.kind = .submitWave ∧ candidate.trialIds = [] ∧
      ∀ shardId ∈ candidate.shardIds, ∃ deployment,
        (deployment, shardId) ∈ freeShards lock projection := by
  obtain ⟨deployment, chunk, hmake, -, hchunk⟩ := mem_waveCandidates h hcandidate
  obtain ⟨hkind, rfl, htrials⟩ := newWaveCandidate_eq_ok hmake
  exact ⟨hkind, htrials, fun shardId hshardId ↦ ⟨deployment, hchunk shardId hshardId⟩⟩

/-- Where a candidate comes from. -/
theorem exists_origin (h : candidates lock projection context now = .ok (found, waiting))
    (hcandidate : candidate ∈ found) :
    (∃ cleanup, cleanupCandidates lock projection now = .ok cleanup ∧ candidate ∈ cleanup) ∨
      (projection.campaign.status.cancelling = false ∧ ∃ retries,
        retryCandidates lock projection context now = .ok (retries, waiting) ∧
          candidate ∈ retries) ∨
      (∃ waves, newWaveCandidates lock projection context = .ok waves ∧ candidate ∈ waves) ∨
      ∃ decision, candidate = summaryCandidate decision := by
  obtain ⟨cleanup, retries, waves, hcleanup, hmem, -, hparts⟩ := candidates_eq_ok h
  rcases (hmem candidate).mp hcandidate with hcleaned | hretried | hnew | ⟨decision, -, rfl⟩
  · exact .inl ⟨cleanup, hcleanup, hcleaned⟩
  · rcases hparts with ⟨-, rfl, -, -⟩ | ⟨hworking, hretries, -⟩
    · cases hretried
    · exact .inr (.inl ⟨hworking, retries, hretries, hretried⟩)
  · rcases hparts with ⟨-, -, rfl, -⟩ | ⟨-, -, hwaves⟩
    · cases hnew
    · exact .inr (.inr (.inl ⟨waves, hwaves, hnew⟩))
  · exact .inr (.inr (.inr ⟨decision, rfl⟩))

/-- A candidate for a retry is one of the retries. -/
theorem exists_retries_of_mem (h : candidates lock projection context now = .ok (found, waiting))
    (hcandidate : candidate ∈ found) (hkind : candidate.kind = .retryShard) :
    projection.campaign.status.cancelling = false ∧ ∃ retries,
      retryCandidates lock projection context now = .ok (retries, waiting) ∧
        candidate ∈ retries := by
  rcases exists_origin h hcandidate with
    ⟨cleanup, hcleanup, hmem⟩ | hretry | ⟨waves, hwaves, hmem⟩ | ⟨decision, rfl⟩
  · have hbillable := (kind_of_mem_cleanup hcleanup hmem).1
    rw [hkind] at hbillable
    cases hbillable
  · exact hretry
  · rw [(mem_newWaveCandidates hwaves hmem).1] at hkind
    cases hkind
  · cases hkind

/-- A candidate for a new wave is one of the new waves. -/
theorem exists_waves_of_mem (h : candidates lock projection context now = .ok (found, waiting))
    (hcandidate : candidate ∈ found) (hkind : candidate.kind = .submitWave) :
    ∃ waves, newWaveCandidates lock projection context = .ok waves ∧ candidate ∈ waves := by
  rcases exists_origin h hcandidate with
    ⟨cleanup, hcleanup, hmem⟩ | ⟨-, retries, hretries, hmem⟩ | hwave | ⟨decision, rfl⟩
  · have hbillable := (kind_of_mem_cleanup hcleanup hmem).1
    rw [hkind] at hbillable
    cases hbillable
  · rw [(mem_retryCandidates hretries hmem).1] at hkind
    cases hkind
  · exact hwave
  · cases hkind

theorem kind_ne_exhaustTrials (h : candidates lock projection context now = .ok (found, waiting))
    (hcandidate : candidate ∈ found) : candidate.kind ≠ .exhaustTrials := by
  rcases exists_origin h hcandidate with
    ⟨cleanup, hcleanup, hmem⟩ | ⟨-, retries, hretries, hmem⟩ | ⟨waves, hwaves, hmem⟩ | ⟨decision, rfl⟩
  · exact (kind_of_mem_cleanup hcleanup hmem).2
  · rw [(mem_retryCandidates hretries hmem).1]
    decide
  · rw [(mem_newWaveCandidates hwaves hmem).1]
    decide
  · simp [summaryCandidate]

end Candidates

/-! ### Plans -/

section Plans

variable [ActionKeys] [Jitter] {lock : CampaignLock} {events : List CampaignEvent}
  {context : ReconcileContext} {now : ℕ} {projection : RecoveryProjection} {plan : ReconcilePlan}

/-- A plan of a campaign that has not ended is the loop over its candidates. -/
theorem planReconciliation_eq_ok
    (h : planReconciliation lock events context now = .ok (projection, plan)) :
    projectRecovery lock events = .ok projection ∧
      ((projection.campaign.status.terminal = true ∧ plan.actions = [] ∧ plan.blocked = []) ∨
        (projection.campaign.status.terminal = false ∧ ∃ found waiting last,
          candidates lock projection context (max now projection.campaign.lastObservedAt) =
            .ok (found, waiting) ∧
          admitCandidates lock projection context.limits found
            ⟨initialUsage context projection, [], waiting⟩ = .ok last ∧
          plan.actions = last.actions ∧ plan.blocked = last.blocked)) := by
  unfold planReconciliation at h
  obtain ⟨projected, hprojected, h⟩ := bind_eq_ok.mp h
  dsimp only at h
  split at h
  · rename_i hterminal
    cases h
    exact ⟨hprojected, .inl ⟨hterminal, rfl, rfl⟩⟩
  · rename_i hterminal
    obtain ⟨⟨found, waiting⟩, hfound, h⟩ := bind_eq_ok.mp h
    obtain ⟨last, hlast, h⟩ := bind_eq_ok.mp h
    cases h
    exact ⟨hprojected, .inr ⟨by simpa using hterminal, found, waiting, last, hfound, hlast, rfl,
      rfl⟩⟩

/-- Once its cancellation was requested, a campaign is planned neither work nor an exhaustion of its
trials. -/
theorem no_work_after_cancel {event : CampaignEvent} {reason : String}
    (h : planReconciliation lock events context now = .ok (projection, plan))
    (hevent : event ∈ events) (hbody : event.body = .cancelRequested reason) :
    ∀ action ∈ plan.actions, action.kind.billable = false ∧ action.kind ≠ .exhaustTrials := by
  intro action haction
  obtain ⟨hprojection, hplan⟩ := planReconciliation_eq_ok h
  rcases hplan with ⟨-, hempty, -⟩ | ⟨hopen, found, waiting, last, hfound, hlast, hactions, -⟩
  · rw [hempty] at haction
    cases haction
  have hcancelled : projection.cancelRequestedAt.isSome = true := by
    obtain ⟨ordered, hordered⟩ := exists_orderedEvents hprojection
    obtain ⟨_, _, _, _, _, _, -, -, -, -, -, -, rfl⟩ := (projectRecovery_eq_ok hordered).mp hprojection
    rw [cancelRequestedAt, Option.isSome_map, List.find?_isSome]
    exact ⟨event, (mem_orderedEvents hordered event).mpr hevent, by rw [hbody]⟩
  have hcancelling : projection.campaign.status.cancelling = true := by
    rcases (Consistent.of_projectRecovery hprojection).cancelled hcancelled with
      hstatus | hstatus | hstatus | hstatus
    · rw [hopen] at hstatus
      cases hstatus
    all_goals rw [hstatus]; rfl
  obtain ⟨cleanup, retries, waves, hcleanup, hmem, -, hparts⟩ := candidates_eq_ok hfound
  obtain ⟨-, rfl, rfl, -⟩ := hparts.resolve_right fun hworking ↦ by simp [hcancelling] at hworking
  have hidle : ∀ candidate ∈ found, candidate.kind.billable = false ∧ candidate.kind ≠ .exhaustTrials := by
    intro candidate hcandidate
    rcases (hmem candidate).mp hcandidate with hcleaned | hnone | hnone | ⟨decision, -, rfl⟩
    · exact kind_of_mem_cleanup hcleanup hcleaned
    · cases hnone
    · cases hnone
    · exact ⟨rfl, by simp [summaryCandidate]⟩
  rw [hactions, mem_actions_iff hlast] at haction
  obtain ⟨candidate, usage, hreaches, hadmitted | hexhausted⟩ := haction.resolve_left (by simp)
  · have hkind : action.kind = candidate.kind := by rw [toCandidate_materialize hadmitted.1]
    rw [hkind]
    exact hidle candidate hreaches.mem
  · have hbillable := (hidle candidate hreaches.mem).1
    rw [hexhausted.2.1] at hbillable
    cases hbillable

end Plans

section Cancelled

local instance plannedJitter : Jitter := ⟨fun _ ↦ 0, zero_lt_byte⟩

local instance plannedKeys : ActionKeys := ⟨fun _ _ _ ↦ "key"⟩

/-- A campaign that is cancelled while a wave runs. -/
def stoppingLog : List CampaignEvent :=
  sampleLog [⟨"active", "wave", 1, .waveController,
      .wave .active ⟨"deployment", "hf-inference-endpoints", ["shard"], 100⟩⟩,
    ⟨"cancel", "campaign", 2, .cli, .cancelRequested "enough"⟩]

theorem no_work_after_cancel_stopping : ∃ projection plan,
    planReconciliation endpointLock stoppingLog {} 9 = .ok (projection, plan) ∧
      ∀ action ∈ plan.actions, action.kind.billable = false ∧ action.kind ≠ .exhaustTrials := by
  obtain ⟨⟨projection, plan⟩, h⟩ := exists_ok_of_toBool
    (show (planReconciliation endpointLock stoppingLog {} 9).toBool = true by decide)
  exact ⟨projection, plan, h, no_work_after_cancel h
    (List.mem_cons_of_mem _ (List.mem_cons_of_mem _ List.mem_cons_self)) rfl⟩

end Cancelled

end HarborHF.Campaign
