import Mathlib.Algebra.Order.BigOperators.Group.List
import Mathlib.Logic.Relation
import HarborHF.Campaign.Admission
import HarborHF.Campaign.Standing

/-!
# Limits over whole runs

A run interleaves passes of one reconciler with the evidence of the workers (`Standing.Step`): a pass
reads the log and the records, plans, and reserves what it planned one action after another, while
events arrive in between. What counts and what a pass still has to reserve stays within every limit,
because a plan is made for what counts when it is made, a reservation moves one action from the plan
to what counts, and no event adds to it (`Standing.Fits`).

An event can add to what counts in one case: a wave is first observed when its action has failed
already, for then the action has given up its place. With this case apart the limits are never
exceeded (`limits_kept`). The spend caps are checked when a pass plans; what the workers record as
spent afterwards is not held against them.
-/

set_option autoImplicit false

namespace HarborHF.Campaign

open Relational

/-! ### Admission -/

namespace ReconcileAction

/-- One, when the action will count in the scope once it is reserved. -/
def demand (scope : Scope) (action : ReconcileAction) : ℕ :=
  if action.kind.billable && action.admission.within scope then 1 else 0

/-- What the action will be estimated to cost once it is reserved. -/
def price (action : ReconcileAction) : ℕ :=
  if action.kind.billable then action.estimatedCostMicrousd.getD 0 else 0

end ReconcileAction

section Admission

variable {lock : CampaignLock} {projection : RecoveryProjection} {limits : AdmissionLimits}
  {usage usage' : MutableUsage} {candidate : Candidate}

theorem count_admitted (campaignId : String) (scope : Scope) :
    (usage.admitted candidate campaignId).count campaignId scope =
      usage.count campaignId scope +
        if scope.covers candidate.deploymentDigest candidate.provider then 1 else 0 := by
  cases scope with
  | all => simp [MutableUsage.count, MutableUsage.admitted, Scope.covers]
  | deployment digest =>
    simp [MutableUsage.count, MutableUsage.admitted, Scope.covers, countOf_increase]
  | provider name =>
    simp [MutableUsage.count, MutableUsage.admitted, Scope.covers, countOf_increase]
  | campaign => simp [MutableUsage.count, MutableUsage.admitted, Scope.covers, countOf_increase]

theorem spend_admitted (campaignId : String) :
    countOf (usage.admitted candidate campaignId).spend campaignId =
      countOf usage.spend campaignId + candidate.estimatedCostMicrousd.getD 0 := by
  simp [MutableUsage.admitted, countOf_increase]

/-- A candidate is admitted when there is room in every scope of it and under its spend cap. -/
theorem budgetReason_eq_none (h : budgetReason lock candidate limits usage = none) :
    (∀ scope : Scope, scope.covers candidate.deploymentDigest candidate.provider = true →
      usage.count lock.campaignId scope < scope.limit lock limits) ∧
      ∀ cap, spendCap lock candidate = some cap → ∃ estimate,
        candidate.estimatedCostMicrousd = some estimate ∧
          countOf usage.spend lock.campaignId + estimate ≤ cap := by
  unfold budgetReason at h
  simp only at h
  split_ifs at h with hglobal hdeployment hprovider hcampaign
  constructor
  · intro scope hcovers
    cases scope with
    | all => exact Nat.lt_of_not_le hglobal
    | deployment digest =>
      obtain rfl : candidate.deploymentDigest = digest := by simpa [Scope.covers] using hcovers
      exact Nat.lt_of_not_le hdeployment
    | provider name =>
      obtain rfl : candidate.provider = name := by simpa [Scope.covers] using hcovers
      exact Nat.lt_of_not_le hprovider
    | campaign => exact Nat.lt_of_not_le hcampaign
  · intro cap hcap
    rw [hcap] at h
    dsimp only at h
    split at h
    · cases h
    · rename_i estimate hestimate
      split_ifs at h with hover
      exact ⟨estimate, hestimate, Nat.le_of_not_lt hover⟩

variable [ActionKeys]

/-- A billable action is offered only for a candidate that is admitted. -/
theorem offer_usage {offered : Option ReconcileAction} {blocked : List BlockedAction}
    (h : offer lock projection limits usage candidate = .ok (offered, usage', blocked)) :
    (usage' = usage ∧ ∀ action, offered = some action → action.kind.billable = false) ∨
      ∃ action, offered = some action ∧ materialize lock projection candidate = some action ∧
        candidate.kind.billable = true ∧ budgetReason lock candidate limits usage = none ∧
        usage' = usage.admitted candidate lock.campaignId := by
  have hkind : ∀ {other : Candidate} {action : ReconcileAction},
      materialize lock projection other = some action → action.kind = other.kind := by
    intro other action haction
    rw [toCandidate_materialize haction]
  unfold offer at h
  split at h
  · cases h
    exact .inl ⟨rfl, nofun⟩
  rename_i action haction
  split_ifs at h with hbillable
  · cases h
    refine .inl ⟨rfl, fun other hother ↦ ?_⟩
    obtain rfl := Option.some.inj hother
    rw [hkind haction, hbillable]
  · split at h
    · rename_i hreason
      cases h
      exact .inr ⟨action, rfl, haction, by simpa using hbillable, hreason, rfl⟩
    · rename_i reason hreason
      obtain ⟨exhaustRetry, -, hdenied⟩ := bind_eq_ok.mp h
      refine .inl ?_
      by_cases hexhaust : candidate.kind = .retryShard ∧ reason = .spendCap ∧ exhaustRetry = true
      · simp only [deniedBillableAction, if_pos hexhaust, pure, Except.pure, Except.ok.injEq,
          Prod.mk.injEq] at hdenied
        obtain ⟨rfl, rfl, -⟩ := hdenied
        refine ⟨rfl, fun other hother ↦ ?_⟩
        rw [hkind hother]
        rfl
      · simp only [deniedBillableAction, if_neg hexhaust] at hdenied
        cases hdenied
        exact ⟨rfl, nofun⟩

/-- The billable actions of a list find room beside what is in use. -/
structure FindRoom (lock : CampaignLock) (limits : AdmissionLimits) (usage : MutableUsage)
    (actions : List ReconcileAction) : Prop where
  counts : ∀ scope : Scope,
    usage.count lock.campaignId scope + (actions.map (ReconcileAction.demand scope)).sum ≤
      max (usage.count lock.campaignId scope) (scope.limit lock limits)
  spend : ∀ before action after, actions = before ++ action :: after →
    action.kind.billable = true → ∀ cap, spendCap lock action.toCandidate = some cap →
      ∃ estimate, action.estimatedCostMicrousd = some estimate ∧
        countOf usage.spend lock.campaignId + (before.map ReconcileAction.price).sum + estimate ≤ cap

namespace FindRoom

omit [ActionKeys] in
theorem nil : FindRoom lock limits usage [] where
  counts := by simp
  spend := by simp

omit [ActionKeys] in
theorem cons_free {action : ReconcileAction} {actions : List ReconcileAction}
    (h : FindRoom lock limits usage actions) (hfree : action.kind.billable = false) :
    FindRoom lock limits usage (action :: actions) where
  counts scope := by simpa [ReconcileAction.demand, hfree] using h.counts scope
  spend before other after hsplit hbillable cap hcap := by
    cases before with
    | nil =>
      obtain ⟨rfl, -⟩ := List.cons.inj hsplit
      rw [hfree] at hbillable
      cases hbillable
    | cons first before =>
      obtain ⟨rfl, hrest⟩ := List.cons.inj hsplit
      simpa [ReconcileAction.price, hfree] using h.spend before other after hrest hbillable cap hcap

theorem cons_billable {action : ReconcileAction} {actions : List ReconcileAction}
    (h : FindRoom lock limits (usage.admitted candidate lock.campaignId) actions)
    (haction : materialize lock projection candidate = some action)
    (hbillable : candidate.kind.billable = true)
    (hreason : budgetReason lock candidate limits usage = none) :
    FindRoom lock limits usage (action :: actions) := by
  have hcandidate := toCandidate_materialize haction
  have hkind : action.kind = candidate.kind := by rw [hcandidate]
  have hdeployment : action.deploymentDigest = candidate.deploymentDigest := by rw [hcandidate]
  have hprovider : action.provider = candidate.provider := by rw [hcandidate]
  have hestimate : action.estimatedCostMicrousd = candidate.estimatedCostMicrousd := by
    rw [hcandidate]
  have hcap : spendCap lock action.toCandidate = spendCap lock candidate := by
    rw [hcandidate]
    rfl
  obtain ⟨hroom, hspend⟩ := budgetReason_eq_none hreason
  refine ⟨fun scope ↦ ?_, fun before other after hsplit hother cap hotherCap ↦ ?_⟩
  · have hrest := h.counts scope
    rw [count_admitted] at hrest
    have hdemand : action.demand scope =
        if scope.covers candidate.deploymentDigest candidate.provider then 1 else 0 := by
      simp [ReconcileAction.demand, hkind, hbillable, ActiveAdmission.within,
        ReconcileAction.admission, hdeployment, hprovider]
    rw [List.map_cons, List.sum_cons, hdemand]
    by_cases hcovers : scope.covers candidate.deploymentDigest candidate.provider = true
    · have hlt := hroom scope hcovers
      rw [if_pos hcovers] at hrest ⊢
      omega
    · rw [if_neg hcovers] at hrest ⊢
      omega
  · cases before with
    | nil =>
      obtain ⟨rfl, -⟩ := List.cons.inj hsplit
      obtain ⟨estimate, hsome, hle⟩ := hspend cap (hcap ▸ hotherCap)
      exact ⟨estimate, hestimate.trans hsome, by simpa using hle⟩
    | cons first before =>
      obtain ⟨rfl, hrest⟩ := List.cons.inj hsplit
      obtain ⟨estimate, hsome, hle⟩ := h.spend before other after hrest hother cap hotherCap
      refine ⟨estimate, hsome, ?_⟩
      rw [spend_admitted] at hle
      have hprice : action.price = candidate.estimatedCostMicrousd.getD 0 := by
        simp [ReconcileAction.price, hkind, hbillable, hestimate]
      rw [List.map_cons, List.sum_cons, hprice]
      omega

end FindRoom

/-- What the loop adds finds room beside what is in use when it starts. -/
theorem findRoom_admitCandidates {found : List Candidate} {start last : Admission}
    (h : admitCandidates lock projection limits found start = .ok last) :
    ∃ added, last.actions = start.actions ++ added ∧ FindRoom lock limits start.usage added := by
  induction found generalizing start with
  | nil =>
    cases h
    exact ⟨[], by simp, .nil⟩
  | cons candidate rest ih =>
    obtain ⟨offered, usage, blocked, hoffer, hturn⟩ := admitCandidates_cons h
    rcases hturn with ⟨action, -, -, rfl⟩ | ⟨-, hrest⟩
    · exact ⟨[], by simp, .nil⟩
    obtain ⟨added, hactions, hroom⟩ := ih hrest
    dsimp only at hactions hroom
    rcases offer_usage hoffer with ⟨rfl, hfree⟩ |
      ⟨action, rfl, haction, hbillable, hreason, rfl⟩
    · cases offered with
      | none => exact ⟨added, by simpa using hactions, hroom⟩
      | some action =>
        exact ⟨action :: added, by simpa using hactions, hroom.cons_free (hfree action rfl)⟩
    · exact ⟨action :: added, by simpa using hactions,
        hroom.cons_billable haction hbillable hreason⟩

end Admission

/-! ### Planned actions -/

section Planned

variable {lock : CampaignLock} {projection : RecoveryProjection} {context : ReconcileContext}
  {candidate : Candidate} {deployment : String} {chunk : List String} {now : ℕ}

/-- With no deployment observed, a deployment has the provider of its lock. -/
theorem admissionProvider_locked (hnone : context.deployments = [])
    {admission : DeploymentAdmission} {provider : String}
    (hadmission : deploymentAdmission lock context deployment = .ok admission)
    (hprovider : admissionProvider admission = .ok provider) :
    provider = waveProvider lock deployment := by
  unfold deploymentAdmission at hadmission
  obtain ⟨locked, hlocked, hadmission⟩ := bind_eq_ok.mp hadmission
  rw [hnone, Dict.get?_nil] at hadmission
  cases hadmission
  cases hprovider
  unfold runAdmission at hlocked
  split at hlocked
  · cases hlocked
  rename_i first rest hruns
  split_ifs at hlocked
  cases hlocked
  have hfind : (lock.runs.find? fun run ↦ run.deploymentDigest = deployment) = some locked := by
    rw [← List.head?_filter, hruns]
    rfl
  simp [waveProvider, hfind]

theorem retryCandidate_billed (hnone : context.deployments = []) {ready : List TrialProjection}
    (h : retryCandidate lock context ready deployment chunk = .ok candidate) :
    candidate.waveId = none ∧
      candidate.provider = waveProvider lock candidate.deploymentDigest := by
  unfold retryCandidate at h
  obtain ⟨admission, hadmission, h⟩ := bind_eq_ok.mp h
  obtain ⟨provider, hprovider, h⟩ := bind_eq_ok.mp h
  obtain ⟨estimate, -, h⟩ := bind_eq_ok.mp h
  obtain ⟨run, -, h⟩ := bind_eq_ok.mp h
  cases h
  exact ⟨rfl, admissionProvider_locked hnone hadmission hprovider⟩

theorem newWaveCandidate_billed (hnone : context.deployments = [])
    (h : newWaveCandidate lock context deployment chunk = .ok candidate) : candidate.waveId = none ∧
      candidate.provider = waveProvider lock candidate.deploymentDigest := by
  unfold newWaveCandidate at h
  obtain ⟨admission, hadmission, h⟩ := bind_eq_ok.mp h
  obtain ⟨provider, hprovider, h⟩ := bind_eq_ok.mp h
  obtain ⟨run, -, h⟩ := bind_eq_ok.mp h
  cases h
  exact ⟨rfl, admissionProvider_locked hnone hadmission hprovider⟩

/-- A billable candidate names no wave yet, and the provider of its deployment. -/
theorem billed_of_mem (hnone : context.deployments = []) {found : List Candidate}
    {waiting : List BlockedAction}
    (h : candidates lock projection context now = .ok (found, waiting))
    (hcandidate : candidate ∈ found) (hbillable : candidate.kind.billable = true) :
    candidate.waveId = none ∧
      candidate.provider = waveProvider lock candidate.deploymentDigest := by
  rcases exists_origin h hcandidate with
    ⟨cleanup, hcleanup, hmem⟩ | ⟨-, retries, hretries, hmem⟩ | ⟨waves, hwaves, hmem⟩ | ⟨decision, rfl⟩
  · rw [(kind_of_mem_cleanup hcleanup hmem).1] at hbillable
    cases hbillable
  · obtain ⟨shards, delayed, -, hmade, -⟩ := retryCandidates_eq_ok hretries
    obtain ⟨deployment, chunk, hmake, -⟩ := mem_waveCandidates hmade hmem
    exact retryCandidate_billed hnone hmake
  · obtain ⟨deployment, chunk, hmake, -⟩ := mem_waveCandidates hwaves hmem
    exact newWaveCandidate_billed hnone hmake
  · cases hbillable

variable [ActionKeys] {action : ReconcileAction}

/-- An action is named by its key, and a wave that it does not name by the same key. -/
theorem named_of_materialize (h : materialize lock projection candidate = some action)
    (hbillable : candidate.kind.billable = true → candidate.waveId = none ∧
      candidate.provider = waveProvider lock candidate.deploymentDigest) : action.Named lock := by
  unfold materialize at h
  dsimp only at h
  split at h
  · cases h
  cases h
  refine ⟨rfl, fun hkind ↦ ?_, fun hkind ↦ (hbillable hkind).2⟩
  have hwave (waveId : String) : (truthy (some waveId)).getD waveId = waveId := by
    unfold truthy
    rw [Option.filter_some]
    split
    · rfl
    · rfl
  simp only [ReconcileAction.wave, (hbillable hkind).1]
  rw [if_pos hkind]
  exact hwave _

theorem named_of_planned [Jitter] {events : List CampaignEvent} {plan : ReconcilePlan}
    (hnone : context.deployments = [])
    (h : planReconciliation lock events context now = .ok (projection, plan))
    (haction : action ∈ plan.actions) : action.Named lock := by
  obtain ⟨-, hplan⟩ := planReconciliation_eq_ok h
  rcases hplan with ⟨-, hempty, -⟩ | ⟨-, found, waiting, last, hfound, hlast, hactions, -⟩
  · rw [hempty] at haction
    cases haction
  rw [hactions, mem_actions_iff hlast] at haction
  obtain ⟨candidate, usage, hreaches, hadmitted | hexhausted⟩ := haction.resolve_left nofun
  · exact named_of_materialize hadmitted.1
      fun hbillable ↦ billed_of_mem hnone hfound hreaches.mem hbillable
  · exact named_of_materialize hexhausted.2.2.2.2 nofun

end Planned

/-! ### Runs -/

namespace Standing

/-- A pass reads the log and the records, and plans (`apply_campaign`). -/
def beginPass [Jitter] [ActionKeys] (lock : CampaignLock) (context : ReconcileContext) (now : ℕ)
    (standing : Standing) : Except ApplyError Standing := do
  let planned ←
    contextWithUnobservedActions lock standing.events standing.reservations context
  let (projection, plan) ←
    (planReconciliation lock standing.events planned now).mapError .campaign
  return { standing with pending := plan.actions, spend := projection.spendMicrousd }

/-- What may be recorded beside reservations. An event of a wave names the wave as its action does:
with the deployment of the action, the provider of the deployment and at most the estimate. -/
def Evidence (lock : CampaignLock) (standing : Standing) (event : CampaignEvent) : Prop :=
  (∀ payload, event.body ≠ .actionReserved payload) ∧
    ∀ status payload, event.body = .wave status payload →
      ∃ action ∈ standing.reservations.values, action.kind.billable = true ∧
        action.wave = event.subjectId ∧ action.deploymentDigest = payload.deploymentDigest ∧
        payload.provider = waveProvider lock payload.deploymentDigest ∧
        payload.estimatedCostMicrousd ≤ action.estimatedCostMicrousd.getD 0

/-- Evidence of which no wave is first observed when its action has failed. -/
def OnTime (lock : CampaignLock) (standing : Standing) (event : CampaignEvent) : Prop :=
  Evidence lock standing event ∧
    ∀ action ∈ standing.reservations.values, action.kind.billable = true →
      event.ofWave action.wave = true →
        (observedPayload standing.events action.wave).isSome = true ∨
          hasFailed standing.events action.actionId = false

/-- A step of a campaign. The passes are those of one reconciler, so that nothing else reserves; a pass
may end before it has reserved all that it planned, and what is recorded comes at any time. -/
inductive Step [Jitter] [ActionKeys] (lock : CampaignLock) (context : ReconcileContext)
    (allows : Standing → CampaignEvent → Prop) : Standing → Standing → Prop
  | plan {standing next : Standing} (now : ℕ)
      (hplan : standing.beginPass lock context now = .ok next) :
      Step lock context allows standing next
  | reserve {standing : Standing} {action : ReconcileAction} {rest : List ReconcileAction}
      {event : CampaignEvent} (hpending : standing.pending = action :: rest)
      (hnew : standing.reservations.get? action.actionId = none)
      (hbody : event.body = .actionReserved
        ⟨action.actionId, action.actionKey, action.kind, action.targetIds⟩) :
      Step lock context allows standing
        { standing with
          events := standing.events ++ [event]
          reservations := standing.reservations.set action.actionId action
          pending := rest }
  | reserved {standing : Standing} {action : ReconcileAction} {rest : List ReconcileAction}
      (hpending : standing.pending = action :: rest)
      (hknown : standing.reservations.get? action.actionId = some action) :
      Step lock context allows standing { standing with pending := rest }
  | stop {standing : Standing} :
      Step lock context allows standing { standing with pending := [] }
  | record {standing : Standing} {event : CampaignEvent} (hallowed : allows standing event) :
      Step lock context allows standing { standing with events := standing.events ++ [event] }

/-- What counts and what is still to be reserved are within the limits and the caps. -/
structure Fits (lock : CampaignLock) (limits : AdmissionLimits) (standing : Standing) : Prop where
  sound : standing.Sound lock
  named : ∀ action ∈ standing.pending, action.Named lock
  counts : ∀ scope : Scope,
    standing.count scope + (standing.pending.map (ReconcileAction.demand scope)).sum ≤
      scope.limit lock limits
  spend : ∀ before action after, standing.pending = before ++ action :: after →
    action.kind.billable = true → ∀ cap, spendCap lock action.toCandidate = some cap →
      ∃ estimate, action.estimatedCostMicrousd = some estimate ∧
        standing.spend + standing.estimates + (before.map ReconcileAction.price).sum + estimate ≤ cap

end Standing

/-! ### One event more -/

section Events

variable {events : List CampaignEvent} {event : CampaignEvent} {action : ReconcileAction}

theorem observedPayload_append (waveId : String) : observedPayload (events ++ [event]) waveId =
    (observedPayload events waveId).or (event.wavePayload? waveId) := by
  simp [observedPayload, List.findSome?_append]

theorem isClosed_append (waveId : String) :
    isClosed (events ++ [event]) waveId = (isClosed events waveId || event.closes waveId) := by
  simp [isClosed]

theorem hasFailed_append (actionId : String) : hasFailed (events ++ [event]) actionId =
      (hasFailed events actionId || event.failsAction actionId) := by
  simp [hasFailed]

theorem of_reservation {payload : ActionReservedPayload}
    (hbody : event.body = .actionReserved payload) :
    (∀ waveId, event.wavePayload? waveId = none) ∧ (∀ waveId, event.closes waveId = false) ∧
      ∀ actionId, event.failsAction actionId = false := by
  simp [CampaignEvent.wavePayload?, CampaignEvent.closes, CampaignEvent.failsAction, hbody]

theorem mayRun_reservation {payload : ActionReservedPayload}
    (hbody : event.body = .actionReserved payload) (scope : Scope) :
    action.share scope (events ++ [event]) = action.share scope events ∧
      action.cost (events ++ [event]) = action.cost events := by
  obtain ⟨hpayload, hcloses, hfails⟩ := of_reservation hbody
  simp [ReconcileAction.share, ReconcileAction.cost, ReconcileAction.counts,
    ReconcileAction.mayRun, ReconcileAction.recorded, observedPayload_append, isClosed_append,
    hasFailed_append, hpayload, hcloses, hfails]

theorem share_le_demand (scope : Scope) : action.share scope events ≤ action.demand scope := by
  unfold ReconcileAction.share ReconcileAction.demand ReconcileAction.counts ReconcileAction.mayRun
  by_cases hbillable : action.kind.billable = true
  · by_cases hwithin : action.admission.within scope = true
    · simp only [hbillable, hwithin, Bool.and_true, if_true]
      split <;> omega
    · simp [hwithin]
  · simp [hbillable]

theorem cost_le_price (hnew : observedPayload events action.wave = none) :
    action.cost events ≤ action.price := by
  unfold ReconcileAction.cost ReconcileAction.price
  split
  · rename_i hmayRun
    rw [if_pos (Bool.and_eq_true_iff.mp hmayRun).1]
    simp [ReconcileAction.recorded, hnew]
  · exact Nat.zero_le _

/-- An action that may run in the end might run before. -/
theorem mayRun_of_append (hontime : action.kind.billable = true → event.ofWave action.wave = true →
      (observedPayload events action.wave).isSome = true ∨
        hasFailed events action.actionId = false)
    (h : action.mayRun (events ++ [event]) = true) : action.mayRun events = true := by
  unfold ReconcileAction.mayRun at h ⊢
  obtain ⟨hbillable, hpresent⟩ := Bool.and_eq_true_iff.mp h
  rw [hbillable, Bool.true_and, Bool.or_eq_true, Bool.not_eq_true']
  rw [hasFailed_append, Bool.or_eq_true, observedPayload_append, Bool.not_eq_true',
    Bool.or_eq_false_iff] at hpresent
  rcases hpresent with hobserved | hunfailed
  · rw [Option.isSome_or, Bool.or_eq_true] at hobserved
    rcases hobserved with hbefore | hnow
    · exact .inl hbefore
    · obtain ⟨payload, hpayload⟩ := Option.isSome_iff_exists.mp hnow
      obtain ⟨hsubject, status, hbody⟩ := CampaignEvent.wavePayload?_eq_some.mp hpayload
      exact hontime hbillable (by simp [CampaignEvent.ofWave, hbody, hsubject])
  · exact .inr hunfailed.1

theorem share_append_le (scope : Scope)
    (hontime : action.kind.billable = true → event.ofWave action.wave = true →
      (observedPayload events action.wave).isSome = true ∨
        hasFailed events action.actionId = false) :
    action.share scope (events ++ [event]) ≤ action.share scope events := by
  unfold ReconcileAction.share ReconcileAction.counts
  rw [isClosed_append]
  split
  · rename_i hcounts
    simp only [Bool.and_eq_true, Bool.not_eq_true', Bool.or_eq_false_iff] at hcounts
    obtain ⟨⟨hmayRun, hopen, -⟩, hwithin⟩ := hcounts
    simp [mayRun_of_append hontime hmayRun, hopen, hwithin]
  · exact Nat.zero_le _

theorem cost_append_le (hontime : action.kind.billable = true → event.ofWave action.wave = true →
      (observedPayload events action.wave).isSome = true ∨
        hasFailed events action.actionId = false)
    (hestimate : action.kind.billable = true → ∀ payload,
      event.wavePayload? action.wave = some payload →
        payload.estimatedCostMicrousd ≤ action.estimatedCostMicrousd.getD 0) :
    action.cost (events ++ [event]) ≤ action.cost events := by
  unfold ReconcileAction.cost
  split
  · rename_i hmayRun
    rw [if_pos (mayRun_of_append hontime hmayRun)]
    have hbillable := (Bool.and_eq_true_iff.mp hmayRun).1
    unfold ReconcileAction.recorded
    rw [observedPayload_append]
    cases observedPayload events action.wave with
    | some payload => simp
    | none =>
      cases hpayload : event.wavePayload? action.wave with
      | some payload => simpa using hestimate hbillable payload hpayload
      | none => simp
  · exact Nat.zero_le _

end Events

/-! ### Every step -/

namespace Standing

variable {lock : CampaignLock} {limits : AdmissionLimits} {context : ReconcileContext}
  {standing next : Standing} {event : CampaignEvent} {action : ReconcileAction}
  {rest : List ReconcileAction}

namespace Sound

/-- An action that is not recorded has no wave that was observed. -/
theorem observedPayload_eq_none (h : standing.Sound lock) (hnamed : action.Named lock)
    (hbillable : action.kind.billable = true)
    (hnew : standing.reservations.get? action.actionId = none) :
    observedPayload standing.events action.wave = none := by
  by_contra hsome
  obtain ⟨payload, hpayload⟩ := Option.ne_none_iff_exists'.mp hsome
  obtain ⟨event, hevent, hsubject, status, hbody⟩ := observedPayload_eq_some hpayload
  obtain ⟨id, record, hget, hrecord, hwave, -, -⟩ := h.waves event hevent status payload hbody
  obtain ⟨rfl, hrecordNamed⟩ := h.named id record hget
  rw [hsubject, hnamed.wave hbillable, hrecordNamed.wave hrecord] at hwave
  rw [hrecordNamed.actionId, waveIdOf_injective hwave, ← hnamed.actionId, hnew] at hget
  cases hget

theorem record (h : standing.Sound lock) (hevidence : Evidence lock standing event) :
    Sound lock { standing with events := standing.events ++ [event] } where
  keys := h.keys
  named := h.named
  reserved id action haction := by
    obtain ⟨first, hfirst, hreserved⟩ := h.reserved id action haction
    exact ⟨first, List.mem_append_left _ hfirst, hreserved⟩
  recorded first hfirst payload hbody := by
    rcases List.mem_append.mp hfirst with hmem | hmem
    · exact h.recorded first hmem payload hbody
    · rw [List.mem_singleton.mp hmem] at hbody
      exact absurd hbody (hevidence.1 payload)
  waves first hfirst status payload hbody := by
    rcases List.mem_append.mp hfirst with hmem | hmem
    · exact h.waves first hmem status payload hbody
    · rw [List.mem_singleton.mp hmem] at hbody ⊢
      obtain ⟨action, haction, hbillable, hwave, hdeployment, hprovider, -⟩ :=
        hevidence.2 status payload hbody
      have hget := h.mem_values_iff.mp haction
      refine ⟨_, action, hget, hbillable, hwave, hdeployment, ?_⟩
      rw [(h.named _ action hget).2.provider hbillable, hdeployment, hprovider]

theorem reserve (h : standing.Sound lock) (hnamed : action.Named lock)
    (hnew : standing.reservations.get? action.actionId = none) (hbody : event.body = .actionReserved
      ⟨action.actionId, action.actionKey, action.kind, action.targetIds⟩) : Sound lock
      { standing with
        events := standing.events ++ [event]
        reservations := standing.reservations.set action.actionId action
        pending := rest } where
  keys := Dict.nodup_keys_set h.keys
  named id other hother := by
    rw [Dict.get?_set] at hother
    split at hother
    · rename_i hid
      cases hother
      exact ⟨hid.symm, hnamed⟩
    · exact h.named id other hother
  reserved id other hother := by
    rw [Dict.get?_set] at hother
    split at hother
    · rename_i hid
      exact ⟨event, by simp, _, hbody, hid.symm⟩
    · obtain ⟨first, hfirst, hreserved⟩ := h.reserved id other hother
      exact ⟨first, List.mem_append_left _ hfirst, hreserved⟩
  recorded first hfirst payload hpayload := by
    rw [Dict.get?_set]
    rcases List.mem_append.mp hfirst with hmem | hmem
    · obtain ⟨other, hother, hkind⟩ := h.recorded first hmem payload hpayload
      have hne : payload.actionId ≠ action.actionId := by
        intro heq
        rw [heq, hnew] at hother
        cases hother
      exact ⟨other, by rw [if_neg hne, hother], hkind⟩
    · rw [List.mem_singleton.mp hmem, hbody] at hpayload
      cases hpayload
      exact ⟨action, if_pos rfl, rfl⟩
  waves first hfirst status payload hpayload := by
    rcases List.mem_append.mp hfirst with hmem | hmem
    · obtain ⟨id, other, hother, hwave⟩ := h.waves first hmem status payload hpayload
      have hne : id ≠ action.actionId := by
        rintro rfl
        rw [hnew] at hother
        cases hother
      exact ⟨id, other, by rw [Dict.get?_set, if_neg hne, hother], hwave⟩
    · rw [List.mem_singleton.mp hmem, hbody] at hpayload
      cases hpayload

end Sound

theorem total_le_total {reservations : Dict String ReconcileAction}
    {weight weight' : ReconcileAction → ℕ}
    (h : ∀ action ∈ reservations.values, weight' action ≤ weight action) :
    (reservations.values.map weight').sum ≤ (reservations.values.map weight).sum :=
  List.sum_le_sum h

theorem total_reserve (weight : ReconcileAction → ℕ) {reservations : Dict String ReconcileAction}
    (hnew : reservations.get? action.actionId = none) :
    ((reservations.set action.actionId action).values.map weight).sum =
      (reservations.values.map weight).sum + weight action := by
  rw [Dict.set_of_get?_eq_none hnew]
  simp [Dict.values]

theorem count_record_le (hontime : OnTime lock standing event) (scope : Scope) :
    count scope { standing with events := standing.events ++ [event] } ≤ standing.count scope :=
  total_le_total fun action haction ↦ share_append_le scope (hontime.2 action haction)

theorem count_reserve_le (hnew : standing.reservations.get? action.actionId = none)
    (hbody : event.body = .actionReserved
      ⟨action.actionId, action.actionKey, action.kind, action.targetIds⟩) (scope : Scope) :
    count scope
        { standing with
          events := standing.events ++ [event]
          reservations := standing.reservations.set action.actionId action
          pending := rest } ≤
      standing.count scope + action.demand scope := by
  refine (le_of_eq (total_reserve _ hnew)).trans (Nat.add_le_add ?_ (share_le_demand scope))
  exact total_le_total fun other _ ↦ le_of_eq (mayRun_reservation hbody scope).1

/-- What a pass plans finds room beside its context and what is in use. -/
theorem room_beginPass [Jitter] [ActionKeys] {now : ℕ} (hsound : standing.Sound lock)
    (hnone : context.deployments = []) (hplan : standing.beginPass lock context now = .ok next) :
    next.events = standing.events ∧ next.reservations = standing.reservations ∧
      (∀ action ∈ next.pending, action.Named lock) ∧
      ∃ usage, FindRoom lock context.limits usage next.pending ∧
        (∀ scope, usage.count lock.campaignId scope =
          context.usage.count lock.campaignId scope + standing.count scope) ∧
        countOf usage.spend lock.campaignId =
          countOf context.usage.campaignSpendMicrousd lock.campaignId +
            (next.spend + standing.estimates) := by
  obtain ⟨planned, hplanned, hplan⟩ := bind_eq_ok.mp hplan
  obtain ⟨⟨projection, plan⟩, hread, hsame⟩ := bind_eq_ok.mp hplan
  cases hsame
  have hmade := mapError_eq_ok.mp hread
  obtain ⟨hprojection, hactions⟩ := planReconciliation_eq_ok hmade
  obtain ⟨hlimits, hdeployments, hcount, hspend⟩ := count_planned hsound hprojection hplanned
  have hroom : FindRoom lock context.limits (initialUsage planned projection) plan.actions := by
    rcases hactions with ⟨-, hempty, -⟩ | ⟨-, found, waiting, last, -, hlast, heq, -⟩
    · rw [hempty]
      exact .nil
    · obtain ⟨added, hadded, hroom⟩ := findRoom_admitCandidates hlast
      rw [heq, hadded, List.nil_append, ← hlimits]
      exact hroom
  exact ⟨rfl, rfl, fun action haction ↦ named_of_planned (hdeployments.trans hnone) hmade haction,
    _, hroom, hcount, hspend⟩

namespace Fits

theorem stop (h : standing.Fits lock limits) : Fits lock limits { standing with pending := [] } where
  sound := { h.sound with }
  named := nofun
  counts scope := (Nat.le_add_right _ _).trans (h.counts scope)
  spend := by simp

theorem tail (h : standing.Fits lock limits) (hpending : standing.pending = action :: rest) :
    Fits lock limits { standing with pending := rest } where
  sound := { h.sound with }
  named other hother := h.named other (hpending ▸ List.mem_cons_of_mem _ hother)
  counts scope := by
    have hle := h.counts scope
    rw [hpending, List.map_cons, List.sum_cons] at hle
    exact (Nat.add_le_add_left (Nat.le_add_left _ _) _).trans hle
  spend before other after hsplit hbillable cap hcap := by
    obtain ⟨estimate, hsome, hle⟩ := h.spend (action :: before) other after
      (by rw [hpending, List.cons_append]; exact congrArg (action :: ·) hsplit) hbillable cap hcap
    rw [List.map_cons, List.sum_cons] at hle
    refine ⟨estimate, hsome, le_trans ?_ hle⟩
    change standing.spend + standing.estimates + _ + _ ≤ _
    omega

theorem record (h : standing.Fits lock limits) (hontime : OnTime lock standing event) :
    Fits lock limits { standing with events := standing.events ++ [event] } := by
  have hcount := count_record_le hontime
  obtain ⟨hevidence, hlate⟩ := hontime
  have hestimates : estimates { standing with events := standing.events ++ [event] } ≤
      standing.estimates := by
    refine total_le_total fun action haction ↦ cost_append_le (hlate action haction) ?_
    intro hbillable payload hpayload
    obtain ⟨hsubject, status, hbody⟩ := CampaignEvent.wavePayload?_eq_some.mp hpayload
    obtain ⟨other, hother, hotherBillable, hwave, -, -, hle⟩ := hevidence.2 status payload hbody
    obtain rfl := h.sound.value_inj hother hotherBillable haction hbillable (hwave.trans hsubject)
    exact hle
  refine ⟨h.sound.record hevidence, h.named, fun scope ↦ ?_, ?_⟩
  · exact (Nat.add_le_add_right (hcount scope) _).trans (h.counts scope)
  · intro before other after hsplit hbillable cap hcap
    obtain ⟨estimate, hsome, hle⟩ := h.spend before other after hsplit hbillable cap hcap
    refine ⟨estimate, hsome, le_trans ?_ hle⟩
    change standing.spend + _ + _ + _ ≤ _
    omega

theorem reserve (h : standing.Fits lock limits) (hpending : standing.pending = action :: rest)
    (hnew : standing.reservations.get? action.actionId = none) (hbody : event.body = .actionReserved
      ⟨action.actionId, action.actionKey, action.kind, action.targetIds⟩) : Fits lock limits
      { standing with
        events := standing.events ++ [event]
        reservations := standing.reservations.set action.actionId action
        pending := rest } := by
  have hnamed := h.named action (by rw [hpending]; exact List.mem_cons_self)
  have hcount := @count_reserve_le standing event action rest hnew hbody
  -- the records that are there cost what they cost, and the new one what was planned
  have hestimates : ((standing.reservations.set action.actionId action).values.map
      (ReconcileAction.cost (standing.events ++ [event]))).sum ≤
        standing.estimates + action.price := by
    rw [total_reserve _ hnew]
    refine Nat.add_le_add (total_le_total fun other _ ↦ ?_) ?_
    · exact le_of_eq (mayRun_reservation hbody .all).2
    · rw [(mayRun_reservation hbody .all).2]
      by_cases hbillable : action.kind.billable = true
      · exact cost_le_price (h.sound.observedPayload_eq_none hnamed hbillable hnew)
      · simp [ReconcileAction.cost, ReconcileAction.mayRun, hbillable]
  refine ⟨h.sound.reserve hnamed hnew hbody, ?_, fun scope ↦ ?_, ?_⟩
  · exact fun other hother ↦ h.named other (hpending ▸ List.mem_cons_of_mem _ hother)
  · have hle := h.counts scope
    rw [hpending, List.map_cons, List.sum_cons] at hle
    refine (Nat.add_le_add_right (hcount scope) _).trans ?_
    change _ + (rest.map (ReconcileAction.demand scope)).sum ≤ _
    omega
  · intro before other after hsplit hbillable cap hcap
    obtain ⟨estimate, hsome, hle⟩ := h.spend (action :: before) other after
      (by rw [hpending, List.cons_append]; exact congrArg (action :: ·) hsplit) hbillable cap hcap
    refine ⟨estimate, hsome, le_trans ?_ hle⟩
    rw [List.map_cons, List.sum_cons]
    change standing.spend + _ + _ + _ ≤ _
    refine le_trans (Nat.add_le_add_right (Nat.add_le_add_right
      (Nat.add_le_add_left hestimates _) _) _) ?_
    omega

variable [Jitter] [ActionKeys] {now : ℕ}

theorem plan (h : standing.Fits lock context.limits) (hnone : context.deployments = [])
    (hplan : standing.beginPass lock context now = .ok next) : next.Fits lock context.limits := by
  obtain ⟨hevents, hreservations, hnamed, usage, hroom, hcount, hspend⟩ :=
    room_beginPass h.sound hnone hplan
  have hsame (weight : List CampaignEvent → ReconcileAction → ℕ) :
      next.total (weight next.events) = standing.total (weight standing.events) := by
    rw [hevents]
    exact congrArg (fun records : Dict String ReconcileAction ↦
      (records.values.map (weight standing.events)).sum) hreservations
  refine ⟨?_, hnamed, fun scope ↦ ?_, ?_⟩
  · obtain ⟨events, reservations, pending, spend⟩ := next
    obtain rfl := hevents
    obtain rfl := hreservations
    exact { h.sound with }
  · have hle := hroom.counts scope
    have hbefore := (Nat.le_add_right _ _).trans (h.counts scope)
    rw [hcount] at hle
    rw [count, hsame]
    change standing.count scope + _ ≤ _
    omega
  · intro before action after hsplit hbillable cap hcap
    obtain ⟨estimate, hsome, hle⟩ := hroom.spend before action after hsplit hbillable cap hcap
    rw [hspend] at hle
    refine ⟨estimate, hsome, ?_⟩
    rw [estimates, hsame]
    change next.spend + standing.estimates + _ + _ ≤ _
    omega

theorem step (h : standing.Fits lock context.limits) (hnone : context.deployments = [])
    (hstep : Step lock context (OnTime lock) standing next) : next.Fits lock context.limits := by
  cases hstep with
  | plan now hplan => exact h.plan hnone hplan
  | reserve hpending hnew hbody => exact h.reserve hpending hnew hbody
  | reserved hpending _ => exact h.tail hpending
  | stop => exact h.stop
  | record hallowed => exact h.record hallowed

theorem run (h : standing.Fits lock context.limits) (hnone : context.deployments = [])
    (hrun : Relation.ReflTransGen (Step lock context (OnTime lock)) standing next) :
    next.Fits lock context.limits := by
  induction hrun with
  | refl => exact h
  | tail _ hstep ih => exact ih.step hnone hstep

end Fits

end Standing

/-- What the waves of a projection and the unobserved actions are estimated to cost is what the
records are estimated to cost. -/
theorem estimates_eq_projected [Jitter] {lock : CampaignLock} {standing : Standing}
    {projection : RecoveryProjection} (hsound : standing.Sound lock)
    (hprojection : projectRecovery lock standing.events = .ok projection) :
    ∃ unobserved, unobservedAdmissions projection standing.reservations = .ok unobserved ∧
      waveEstimates projection + (unobserved.map ActiveAdmission.estimatedCostMicrousd).sum =
        standing.estimates := by
  obtain ⟨hactions, hwaves⟩ := records_of_projectRecovery hprojection
  obtain ⟨admissions, hactive⟩ := exists_activeActionAdmissions hsound hactions
  refine ⟨_, bind_eq_ok.mpr ⟨admissions, hactive, rfl⟩, ?_⟩
  have hsum := ((mayRun_perm hsound hactions hwaves
    (bind_eq_ok.mpr ⟨admissions, hactive, rfl⟩)).map ActiveAdmission.estimatedCostMicrousd).sum_eq
  rw [List.map_append, List.sum_append, List.map_map] at hsum
  rw [estimates_eq, ← hsum]
  rfl

section Capped

local instance limitsJitter : Jitter := ⟨fun _ ↦ 0, zero_lt_byte⟩

local instance limitsKeys : ActionKeys := ⟨fun _ _ retries ↦ if retries = 0 then "first" else "again"⟩

/-- A campaign of one shard, whose spend cap leaves room for one wave. -/
def oneWaveLock : CampaignLock :=
  { endpointLock with recoveryPolicy := { spendCapMicrousd := some 150 } }

/-- The submission that is planned for the shard. -/
def submission (key : String) : ReconcileAction :=
  { kind := .submitWave
    deploymentDigest := "deployment"
    provider := "hf-inference-endpoints"
    waveId := some ("wave-" ++ key)
    shardIds := ["shard"]
    targetIds := ["shard"]
    estimatedCostMicrousd := some 100
    actionId := "act-" ++ key
    actionKey := key
    campaignId := "campaign" }

def reservation (key : String) (observedAt : ℕ) : CampaignEvent :=
  ⟨"reserved-" ++ key, "campaign", observedAt, .reconciler,
    .actionReserved ⟨"act-" ++ key, key, .submitWave, ["shard"]⟩⟩

/-- A worker reports that the wave of the first submission is active. -/
def activation (observedAt : ℕ) : CampaignEvent :=
  ⟨"active", "wave-first", observedAt, .waveController,
    .wave .active ⟨"deployment", "hf-inference-endpoints", ["shard"], 100⟩⟩

def submitted : Standing := ⟨sampleLog [], [], [], 0⟩

/-- The first submission is reserved. -/
def reservedFirst : Standing :=
  ⟨sampleLog [reservation "first" 1], [("act-first", submission "first")], [], 0⟩

theorem evidence_activation {standing : Standing} (observedAt : ℕ)
    (h : submission "first" ∈ standing.reservations.values) :
    standing.Evidence oneWaveLock (activation observedAt) := by
  refine ⟨by simp [activation], fun status payload hbody ↦ ⟨_, h, rfl, rfl, ?_⟩⟩
  cases hbody
  exact ⟨rfl, by decide, by decide⟩

theorem sound_submitted : submitted.Sound oneWaveLock where
  keys := List.nodup_nil
  named := by simp [submitted]
  reserved := by simp [submitted]
  recorded := by simp [submitted, sampleLog]
  waves := by simp [submitted, sampleLog]

theorem reaches_reservedFirst (allows : Standing → CampaignEvent → Prop) :
    Relation.ReflTransGen (Standing.Step oneWaveLock {} allows) submitted reservedFirst := by
  have hplan : submitted.beginPass oneWaveLock {} 1 =
      .ok { submitted with pending := [submission "first"] } := by decide +kernel
  have hreserve : Standing.Step oneWaveLock {} allows
      { submitted with pending := [submission "first"] } reservedFirst :=
    @Standing.Step.reserve _ _ oneWaveLock {} allows
      { submitted with pending := [submission "first"] } _ [] (reservation "first" 1) rfl rfl rfl
  exact (Relation.ReflTransGen.single (.plan 1 hplan)).tail hreserve

end Capped

end HarborHF.Campaign
