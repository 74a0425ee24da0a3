import HarborHF.Control.Queries
import Mathlib.Algebra.BigOperators.Group.List.Basic

/-!
# The ledger check

`verifyBudgets` replays the ledger of every campaign in the order of creation. `verifyBudgets_eq_ok`
says when it passes, in terms of the totals of `campaignView`: every event and every attempt has its
campaign, no prefix of the replayed ledger releases more than it reserved, and no total is over its
ceiling. `verifyInvariants_exceeds` is the converse for the ceiling error.

The second half is the arithmetic of the totals: what one more ledger event or attempt does to them,
and that they do not depend on the order of the rows.
-/

set_option autoImplicit false

namespace HarborHF.Control

open Relational

namespace Projection

/-! ### Totals of a list of events -/

/-- What a list of events adds to the reserved total of a campaign. -/
def reservedIn (rows : List BudgetRow) (campaignId : String) : ℤ :=
  ((rows.filter fun row ↦ row.campaignId = campaignId).map BudgetRow.reservedDelta).sum

/-- The largest total a list of events claims to have been observed for a campaign. -/
def reconciledIn (rows : List BudgetRow) (campaignId : String) : ℕ :=
  ((rows.filter fun row ↦ row.campaignId = campaignId).map BudgetRow.observedAmount).foldr max 0

/-- The sum of the costs of a campaign's attempts in a list. -/
def costIn (attempts : List AttemptReceipt) (campaignId : String) : ℕ :=
  ((attempts.filter fun row ↦ row.campaignId = campaignId).map (·.costMicrousd)).sum

theorem reservedMicrousd_eq (P : Projection) (campaignId : String) :
    P.reservedMicrousd campaignId = reservedIn P.budgets campaignId := rfl

theorem observedMicrousd_eq (P : Projection) (campaignId : String) : P.observedMicrousd campaignId =
      max (costIn P.attempts campaignId) (reconciledIn P.budgets campaignId) := rfl

@[simp] theorem reservedIn_nil (campaignId : String) : reservedIn [] campaignId = 0 := rfl

@[simp] theorem reconciledIn_nil (campaignId : String) : reconciledIn [] campaignId = 0 := rfl

theorem reservedIn_append (first second : List BudgetRow) (campaignId : String) :
    reservedIn (first ++ second) campaignId =
      reservedIn first campaignId + reservedIn second campaignId := by
  simp [reservedIn, List.filter_append, List.sum_append]

theorem reservedIn_cons (row : BudgetRow) (rows : List BudgetRow) (campaignId : String) :
    reservedIn (row :: rows) campaignId =
      (if row.campaignId = campaignId then row.reservedDelta else 0) +
        reservedIn rows campaignId := by
  by_cases h : row.campaignId = campaignId
  · simp [reservedIn, h]
  · simp [reservedIn, h]

theorem reconciledIn_cons (row : BudgetRow) (rows : List BudgetRow) (campaignId : String) :
    reconciledIn (row :: rows) campaignId =
      max (if row.campaignId = campaignId then row.observedAmount else 0)
        (reconciledIn rows campaignId) := by
  by_cases h : row.campaignId = campaignId
  · simp [reconciledIn, h]
  · simp [reconciledIn, h]

theorem reconciledIn_append (first second : List BudgetRow) (campaignId : String) :
    reconciledIn (first ++ second) campaignId =
      max (reconciledIn first campaignId) (reconciledIn second campaignId) := by
  induction first with
  | nil => simp
  | cons row rest ih => rw [List.cons_append, reconciledIn_cons, reconciledIn_cons, ih, max_assoc]

theorem observedAmount_le_reconciledIn {rows : List BudgetRow} {row : BudgetRow}
    (hrow : row ∈ rows) : row.observedAmount ≤ reconciledIn rows row.campaignId := by
  induction rows with
  | nil => cases hrow
  | cons first rest ih =>
    rw [reconciledIn_cons]
    rcases List.mem_cons.mp hrow with rfl | hrest
    · simp
    · exact le_max_of_le_right (ih hrest)

theorem costIn_append (first second : List AttemptReceipt) (campaignId : String) :
    costIn (first ++ second) campaignId = costIn first campaignId + costIn second campaignId := by
  simp [costIn, List.filter_append, List.sum_append]

theorem reservedIn_perm {first second : List BudgetRow} (h : first.Perm second)
    (campaignId : String) : reservedIn first campaignId = reservedIn second campaignId :=
  ((h.filter _).map _).sum_eq

theorem costIn_perm {first second : List AttemptReceipt} (h : first.Perm second)
    (campaignId : String) : costIn first campaignId = costIn second campaignId :=
  ((h.filter _).map _).sum_eq

theorem reconciledIn_perm {first second : List BudgetRow} (h : first.Perm second)
    (campaignId : String) : reconciledIn first campaignId = reconciledIn second campaignId := by
  induction h with
  | nil => rfl
  | cons row _ ih => rw [reconciledIn_cons, reconciledIn_cons, ih]
  | swap first second rest =>
    simp only [reconciledIn_cons]
    rw [max_left_comm]
  | trans _ _ ihFirst ihSecond => exact ihFirst.trans ihSecond

/-! ### Replaying events -/

/-- The totals of a campaign after a list of events. -/
def BudgetState.after (state : BudgetState) (events : List BudgetRow) : BudgetState :=
  { state with
    reserved := state.reserved + reservedIn events state.campaignId
    observed := max state.observed (reconciledIn events state.campaignId) }

@[simp] theorem BudgetState.after_nil (state : BudgetState) : state.after [] = state := by
  simp [BudgetState.after]

theorem BudgetState.record_eq (state : BudgetState) (event : BudgetRow) : state.record event =
      { state with
        reserved := state.reserved + event.reservedDelta
        observed := max state.observed event.observedAmount } := by
  cases h : event.eventKind <;>
    simp [BudgetState.record, BudgetRow.reservedDelta, BudgetRow.observedAmount, h, sub_eq_add_neg]

theorem BudgetState.after_cons (state : BudgetState) (event : BudgetRow) (events : List BudgetRow) :
    (if state.campaignId = event.campaignId then state.record event else state).after events =
      state.after (event :: events) := by
  by_cases h : state.campaignId = event.campaignId
  · rw [if_pos h, BudgetState.record_eq]
    simp [BudgetState.after, reservedIn_cons, reconciledIn_cons, h, add_assoc, max_assoc]
  · have hne : ¬ event.campaignId = state.campaignId := fun heq ↦ h heq.symm
    rw [if_neg h]
    simp [BudgetState.after, reservedIn_cons, reconciledIn_cons, hne]

theorem setState_record {states : List BudgetState} {state : BudgetState} {event : BudgetRow}
    (hkeyed : Keyed BudgetState.campaignId states) (hstate : state ∈ states)
    (hcampaign : state.campaignId = event.campaignId) : setState (state.record event) states =
      states.map fun other ↦
        if other.campaignId = event.campaignId then other.record event else other := by
  unfold setState
  apply List.map_congr_left
  intro other hother
  have hname : (state.record event).campaignId = event.campaignId := by
    rw [BudgetState.record_eq]
    exact hcampaign
  rw [hname]
  by_cases h : other.campaignId = event.campaignId
  · rw [if_pos h, if_pos h, hkeyed.eq_of_mem hother hstate (h.trans hcampaign.symm)]
  · rw [if_neg h, if_neg h]

theorem map_record_campaignId (states : List BudgetState) (event : BudgetRow) :
    (states.map fun other ↦
      if other.campaignId = event.campaignId then other.record event else other).map
        BudgetState.campaignId = states.map BudgetState.campaignId := by
  rw [List.map_map]
  apply List.map_congr_left
  intro other _
  by_cases h : other.campaignId = event.campaignId
  · simp [h, BudgetState.record_eq]
  · simp [h]

/-- The replay passes exactly when every event has its campaign and no prefix releases more than was
reserved, and then leaves the totals of all events. -/
theorem replay_eq_ok {events : List BudgetRow} {states states' : List BudgetState}
    (hkeyed : Keyed BudgetState.campaignId states) (hsolvent : ∀ state ∈ states, 0 ≤ state.reserved) :
    events.foldlM replayEvent states = .ok states' ↔
      (∀ event ∈ events, ∃ state ∈ states, state.campaignId = event.campaignId) ∧
      (∀ first, first <+: events → ∀ state ∈ states, 0 ≤ (state.after first).reserved) ∧
      states' = states.map fun state ↦ state.after events := by
  induction events generalizing states with
  | nil =>
    simp only [List.foldlM_nil, List.not_mem_nil, false_imp_iff, implies_true, true_and,
      List.prefix_nil, forall_eq, BudgetState.after_nil, List.map_id']
    constructor
    · intro h
      cases h
      exact ⟨hsolvent, rfl⟩
    · rintro ⟨-, rfl⟩
      rfl
  | cons event events ih =>
    rw [List.foldlM_cons]
    cases hlookup : lookup BudgetState.campaignId event.campaignId states with
    | none =>
      have hmissing := lookup_eq_none.mp hlookup
      simp only [replayEvent, hlookup]
      constructor
      · intro h
        cases h
      · rintro ⟨hknown, -, -⟩
        obtain ⟨state, hstate, hname⟩ := hknown event List.mem_cons_self
        exact absurd hname (hmissing state hstate)
    | some state =>
      obtain ⟨hstate, hname⟩ := lookup_mem hlookup
      simp only [replayEvent, hlookup]
      have hafter : (state.record event).reserved = (state.after [event]).reserved := by
        rw [BudgetState.record_eq]
        simp [BudgetState.after, reservedIn_cons, hname]
      by_cases hnegative : (state.record event).reserved < 0
      · rw [if_pos hnegative]
        constructor
        · intro h
          cases h
        · rintro ⟨-, hbegins, -⟩
          have hfirst : [event] <+: event :: events := by simp
          have := hbegins [event] hfirst state hstate
          omega
      · rw [if_neg hnegative]
        have hset := setState_record hkeyed hstate hname
        have hkeyed' : Keyed BudgetState.campaignId (setState (state.record event) states) := by
          rw [hset]
          unfold Keyed
          rw [map_record_campaignId]
          exact hkeyed
        have hsolvent' : ∀ other ∈ setState (state.record event) states, 0 ≤ other.reserved := by
          rw [hset]
          intro other hother
          obtain ⟨old, hold, rfl⟩ := List.mem_map.mp hother
          by_cases h : old.campaignId = event.campaignId
          · rw [if_pos h, hkeyed.eq_of_mem hold hstate (h.trans hname.symm)]
            omega
          · rw [if_neg h]
            exact hsolvent old hold
        change (setState (state.record event) states |> fun states ↦
          events.foldlM replayEvent states) = .ok states' ↔ _
        rw [ih hkeyed' hsolvent', hset]
        constructor
        · rintro ⟨hknown, hbegins, rfl⟩
          refine ⟨?_, ?_, ?_⟩
          · intro other hother
            rcases List.mem_cons.mp hother with rfl | hother
            · exact ⟨state, hstate, hname⟩
            · obtain ⟨found, hfound, heq⟩ := hknown other hother
              obtain ⟨old, hold, rfl⟩ := List.mem_map.mp hfound
              refine ⟨old, hold, ?_⟩
              rw [← heq]
              by_cases h : old.campaignId = event.campaignId
              · rw [if_pos h, BudgetState.record_eq]
              · rw [if_neg h]
          · intro first hfirst old hold
            cases first with
            | nil => simpa using hsolvent old hold
            | cons head rest =>
              obtain ⟨rfl, hrest⟩ := List.cons_prefix_cons.mp hfirst
              rw [← BudgetState.after_cons]
              exact hbegins rest hrest _ (List.mem_map.mpr ⟨old, hold, rfl⟩)
          · rw [List.map_map]
            apply List.map_congr_left
            intro old _
            exact BudgetState.after_cons old event events
        · rintro ⟨hknown, hbegins, rfl⟩
          refine ⟨?_, ?_, ?_⟩
          · intro other hother
            obtain ⟨found, hfound, heq⟩ := hknown other (List.mem_cons_of_mem event hother)
            refine ⟨_, List.mem_map.mpr ⟨found, hfound, rfl⟩, ?_⟩
            rw [← heq]
            by_cases h : found.campaignId = event.campaignId
            · rw [if_pos h, BudgetState.record_eq]
            · rw [if_neg h]
          · intro first hfirst other hother
            obtain ⟨old, hold, rfl⟩ := List.mem_map.mp hother
            rw [BudgetState.after_cons]
            exact hbegins (event :: first) (List.cons_prefix_cons.mpr ⟨rfl, hfirst⟩) old hold
          · rw [List.map_map]
            apply List.map_congr_left
            intro old _
            exact (BudgetState.after_cons old event events).symm

/-! ### The check as a whole -/

variable {P : Projection} {error : ProjectionError}

theorem keyed_initialStates (hkeyed : Keyed CampaignRow.campaignId P.campaigns) :
    Keyed BudgetState.campaignId P.initialStates := by
  unfold Keyed initialStates
  rw [List.map_map]
  exact hkeyed

/-- Taking in the attempts of some campaigns. -/
def BudgetState.observe (P : Projection) (campaigns : List String) (state : BudgetState) :
    BudgetState :=
  if state.campaignId ∈ campaigns then
    { state with observed := max state.observed (P.attemptCost state.campaignId) }
  else state

theorem observe_campaignId (P : Projection) (campaigns : List String) (state : BudgetState) :
    (state.observe P campaigns).campaignId = state.campaignId := by
  unfold BudgetState.observe
  split_ifs <;> rfl

theorem observe_cons (P : Projection) (campaignId : String) (campaigns : List String)
    (state : BudgetState) : (state.observe P [campaignId]).observe P campaigns =
      state.observe P (campaignId :: campaigns) := by
  unfold BudgetState.observe
  by_cases hhead : state.campaignId = campaignId
  · by_cases hrest : state.campaignId ∈ campaigns
    · simp [hhead, hhead ▸ hrest]
    · simp [hhead, hhead ▸ hrest]
  · by_cases hrest : state.campaignId ∈ campaigns
    · simp [hhead, hrest]
    · simp [hhead, hrest]

theorem setState_observe {states : List BudgetState} {state : BudgetState}
    (hkeyed : Keyed BudgetState.campaignId states) (hstate : state ∈ states) :
    setState { state with observed := max state.observed (P.attemptCost state.campaignId) } states =
      states.map fun other ↦ other.observe P [state.campaignId] := by
  unfold setState
  apply List.map_congr_left
  intro other hother
  unfold BudgetState.observe
  by_cases h : other.campaignId = state.campaignId
  · obtain rfl := hkeyed.eq_of_mem hother hstate h
    simp
  · simp [h]

/-- Taking in the attempts passes exactly when each of the campaigns is there. -/
theorem observeAttempts_eq_ok {campaigns : List String}
    {states states' : List BudgetState} (hkeyed : Keyed BudgetState.campaignId states) :
    campaigns.foldlM P.observeAttempts states = .ok states' ↔
      (∀ campaignId ∈ campaigns, ∃ state ∈ states, state.campaignId = campaignId) ∧
      states' = states.map fun state ↦ state.observe P campaigns := by
  induction campaigns generalizing states with
  | nil =>
    simp only [List.foldlM_nil, List.not_mem_nil, false_imp_iff, implies_true, true_and,
      BudgetState.observe, if_false, List.map_id']
    exact ⟨fun h ↦ by cases h; rfl, fun h ↦ by rw [h]; rfl⟩
  | cons campaignId campaigns ih =>
    rw [List.foldlM_cons]
    cases hlookup : lookup BudgetState.campaignId campaignId states with
    | none =>
      simp only [observeAttempts, hlookup]
      constructor
      · intro h
        cases h
      · rintro ⟨hknown, -⟩
        obtain ⟨state, hstate, hname⟩ := hknown campaignId List.mem_cons_self
        exact absurd hname (lookup_eq_none.mp hlookup state hstate)
    | some state =>
      obtain ⟨hstate, rfl⟩ := lookup_mem hlookup
      simp only [observeAttempts, hlookup]
      change (campaigns.foldlM P.observeAttempts (setState _ states)) = .ok states' ↔ _
      rw [setState_observe hkeyed hstate]
      have hkeyed' : Keyed BudgetState.campaignId
          (states.map fun other ↦ other.observe P [state.campaignId]) := by
        unfold Keyed
        rw [List.map_map]
        have hnames : (BudgetState.campaignId ∘ fun other ↦ other.observe P [state.campaignId]) =
            BudgetState.campaignId := funext fun other ↦ observe_campaignId P _ other
        rw [hnames]
        exact hkeyed
      rw [ih hkeyed', List.map_map]
      have hmap : ((fun state ↦ BudgetState.observe P campaigns state) ∘
          fun other : BudgetState ↦ other.observe P [state.campaignId]) =
            fun other : BudgetState ↦ other.observe P (state.campaignId :: campaigns) :=
        funext fun other ↦ observe_cons P state.campaignId campaigns other
      rw [hmap]
      refine and_congr_left fun _ ↦ ?_
      simp only [List.mem_cons, forall_eq_or_imp, List.mem_map, exists_exists_and_eq_and,
        observe_campaignId]
      exact ⟨fun h ↦ ⟨⟨state, hstate, rfl⟩, h⟩, fun h ↦ h.2⟩

theorem mem_attemptCampaigns {campaignId : String} :
    campaignId ∈ P.attemptCampaigns ↔ ∃ row ∈ P.attempts, row.campaignId = campaignId := by
  unfold attemptCampaigns
  rw [List.mem_insertionSort, List.mem_dedup, List.mem_map]

theorem attemptCost_eq_zero {campaignId : String}
    (h : campaignId ∉ P.attemptCampaigns) : P.attemptCost campaignId = 0 := by
  have hnone : (P.attempts.filter fun row ↦ row.campaignId = campaignId) = [] := by
    rw [List.filter_eq_nil_iff]
    intro row hrow hname
    exact h (mem_attemptCampaigns.mpr ⟨row, hrow, by simpa using hname⟩)
  simp [attemptCost, hnone]

/-- The totals of a campaign's row. -/
def finalState (P : Projection) (row : CampaignRow) : BudgetState :=
  ⟨row.campaignId, row.ceilingMicrousd, P.reservedMicrousd row.campaignId,
    P.observedMicrousd row.campaignId⟩

theorem ledger_perm (P : Projection) : P.ledger.Perm P.budgets := List.perm_insertionSort _ _

/-- Every event and attempt has its campaign, and no prefix of the replayed ledger releases more than
it reserved. -/
structure Replayable (P : Projection) : Prop where
  events : ∀ event ∈ P.budgets, ∃ row ∈ P.campaigns, row.campaignId = event.campaignId
  solvent : ∀ first, first <+: P.ledger → ∀ row ∈ P.campaigns,
    0 ≤ reservedIn first row.campaignId
  attempts : ∀ attempt ∈ P.attempts, ∃ row ∈ P.campaigns, row.campaignId = attempt.campaignId

theorem finalState_eq (P : Projection) (row : CampaignRow) :
    ((BudgetState.mk row.campaignId row.ceilingMicrousd 0 0).after P.ledger).observe P
      P.attemptCampaigns = P.finalState row := by
  have hreserved : reservedIn P.ledger row.campaignId = P.reservedMicrousd row.campaignId :=
    reservedIn_perm P.ledger_perm row.campaignId
  have hobserved : reconciledIn P.ledger row.campaignId = reconciledIn P.budgets row.campaignId :=
    reconciledIn_perm P.ledger_perm row.campaignId
  unfold BudgetState.observe BudgetState.after finalState
  split_ifs with h
  · simp only [zero_add, hreserved, hobserved, Nat.zero_max]
    rw [observedMicrousd_eq, max_comm]
    rfl
  · have hzero : costIn P.attempts row.campaignId = 0 := attemptCost_eq_zero h
    simp only [zero_add, hreserved, hobserved, Nat.zero_max]
    rw [observedMicrousd_eq, hzero, Nat.zero_max]

theorem budgetStates_eq_ok {states : List BudgetState}
    (hkeyed : Keyed CampaignRow.campaignId P.campaigns) :
    P.budgetStates = .ok states ↔ P.Replayable ∧ states = P.campaigns.map P.finalState := by
  have hinitial := keyed_initialStates hkeyed
  have hsolvent : ∀ state ∈ P.initialStates, 0 ≤ state.reserved := by
    intro state hstate
    obtain ⟨row, -, rfl⟩ := List.mem_map.mp hstate
    exact le_refl 0
  have hafter : Keyed BudgetState.campaignId
      (P.initialStates.map fun state ↦ state.after P.ledger) := by
    unfold Keyed
    rw [List.map_map]
    exact hinitial
  have hfinal : (P.initialStates.map fun state ↦ state.after P.ledger).map
      (fun state ↦ state.observe P P.attemptCampaigns) = P.campaigns.map P.finalState := by
    unfold initialStates
    rw [List.map_map, List.map_map]
    exact List.map_congr_left fun row _ ↦ finalState_eq P row
  unfold budgetStates
  constructor
  · intro h
    cases hreplay : P.ledger.foldlM replayEvent P.initialStates with
    | error error =>
      rw [hreplay] at h
      cases h
    | ok replayed =>
      rw [hreplay] at h
      obtain ⟨hknown, hbegins, rfl⟩ := (replay_eq_ok hinitial hsolvent).mp hreplay
      obtain ⟨hattempts, rfl⟩ := (observeAttempts_eq_ok hafter).mp h
      refine ⟨⟨?_, ?_, ?_⟩, hfinal⟩
      · intro event hevent
        obtain ⟨state, hstate, hname⟩ := hknown event (P.ledger_perm.mem_iff.mpr hevent)
        obtain ⟨row, hrow, rfl⟩ := List.mem_map.mp hstate
        exact ⟨row, hrow, hname⟩
      · intro first hfirst row hrow
        have := hbegins first hfirst _ (List.mem_map.mpr ⟨row, hrow, rfl⟩)
        simpa [BudgetState.after] using this
      · intro attempt hattempt
        obtain ⟨state, hstate, hname⟩ :=
          hattempts attempt.campaignId (mem_attemptCampaigns.mpr ⟨attempt, hattempt, rfl⟩)
        obtain ⟨old, hold, rfl⟩ := List.mem_map.mp hstate
        obtain ⟨row, hrow, rfl⟩ := List.mem_map.mp hold
        exact ⟨row, hrow, hname⟩
  · rintro ⟨hreplayable, rfl⟩
    have hreplay : P.ledger.foldlM replayEvent P.initialStates =
        .ok (P.initialStates.map fun state ↦ state.after P.ledger) := by
      refine (replay_eq_ok hinitial hsolvent).mpr ⟨?_, ?_, rfl⟩
      · intro event hevent
        obtain ⟨row, hrow, hname⟩ := hreplayable.events event (P.ledger_perm.mem_iff.mp hevent)
        exact ⟨_, List.mem_map.mpr ⟨row, hrow, rfl⟩, hname⟩
      · intro first hfirst state hstate
        obtain ⟨row, hrow, rfl⟩ := List.mem_map.mp hstate
        simpa [BudgetState.after] using hreplayable.solvent first hfirst row hrow
    rw [hreplay]
    refine (observeAttempts_eq_ok hafter).mpr ⟨?_, hfinal.symm⟩
    intro campaignId hcampaign
    obtain ⟨attempt, hattempt, rfl⟩ := mem_attemptCampaigns.mp hcampaign
    obtain ⟨row, hrow, hname⟩ := hreplayable.attempts attempt hattempt
    refine ⟨_, List.mem_map.mpr ⟨_, List.mem_map.mpr ⟨row, hrow, rfl⟩, rfl⟩, hname⟩

/-- No total of a campaign is over its ceiling. -/
def WithinCeilings (P : Projection) : Prop :=
  ∀ row ∈ P.campaigns,
    max (P.reservedMicrousd row.campaignId) (P.observedMicrousd row.campaignId) ≤ row.ceilingMicrousd

/-- The ledger check passes exactly when the ledger can be replayed and no total is over its
ceiling. -/
theorem verifyBudgets_eq_ok (hkeyed : Keyed CampaignRow.campaignId P.campaigns) :
    P.verifyBudgets = .ok () ↔ P.Replayable ∧ P.WithinCeilings := by
  have hover : (P.campaigns.map P.finalState).find? BudgetState.overBudget = none ↔
      P.WithinCeilings := by
    simp [WithinCeilings, finalState, BudgetState.overBudget]
  cases hstates : P.budgetStates with
  | error error =>
    constructor
    · intro h
      unfold verifyBudgets at h
      rw [hstates] at h
      cases h
    · rintro ⟨hreplayable, -⟩
      rw [(budgetStates_eq_ok hkeyed).mpr ⟨hreplayable, rfl⟩] at hstates
      cases hstates
  | ok states =>
    obtain ⟨hreplayable, rfl⟩ := (budgetStates_eq_ok hkeyed).mp hstates
    rw [verifyBudgets_of_ok hstates]
    cases hfind : (P.campaigns.map P.finalState).find? BudgetState.overBudget with
    | some state =>
      constructor
      · intro h
        cases h
      · rintro ⟨-, hwithin⟩
        rw [hover.mpr hwithin] at hfind
        cases hfind
    | none => exact ⟨fun _ ↦ ⟨hreplayable, hover.mp hfind⟩, fun _ ↦ rfl⟩

/-- An error of a fold is an error of one of its steps. -/
theorem foldlM_error {α β : Type} {step : β → α → Except ProjectionError β}
    (allowed : ProjectionError → Prop)
    (hstep : ∀ state item error, step state item = .error error → allowed error) {items : List α}
    {state : β} (h : items.foldlM step state = .error error) : allowed error := by
  induction items generalizing state with
  | nil => cases h
  | cons item rest ih =>
    rw [List.foldlM_cons] at h
    cases hitem : step state item with
    | error first =>
      rw [hitem] at h
      cases h
      exact hstep state item _ hitem
    | ok next =>
      rw [hitem] at h
      exact ih h

theorem budgetStates_error (h : P.budgetStates = .error error) (campaignId : String) :
    error ≠ .budgetExceedsCeiling campaignId := by
  unfold budgetStates at h
  cases hreplay : P.ledger.foldlM replayEvent P.initialStates with
  | error first =>
    rw [hreplay] at h
    cases h
    refine foldlM_error (fun error ↦ error ≠ .budgetExceedsCeiling campaignId) ?_ hreplay
    intro states event error hevent
    unfold replayEvent at hevent
    split at hevent
    · cases hevent
      simp
    · split_ifs at hevent
      cases hevent
      simp
  | ok replayed =>
    rw [hreplay] at h
    refine foldlM_error (fun error ↦ error ≠ .budgetExceedsCeiling campaignId) ?_ h
    intro states name error hname
    unfold observeAttempts at hname
    split at hname
    · cases hname
      simp
    · cases hname

theorem forM_error {α : Type} {check : α → Except ProjectionError Unit} {items : List α}
    (h : items.forM check = .error error) : ∃ item ∈ items, check item = .error error := by
  induction items with
  | nil => cases h
  | cons item rest ih =>
    change (check item >>= fun _ ↦ rest.forM check) = .error error at h
    cases hitem : check item with
    | error first =>
      rw [hitem] at h
      cases h
      exact ⟨item, List.mem_cons_self, hitem⟩
    | ok _ =>
      rw [hitem] at h
      obtain ⟨other, hother, herror⟩ := ih h
      exact ⟨other, List.mem_cons_of_mem item hother, herror⟩

theorem verifyPromotions_error (h : P.verifyPromotions = .error error) (campaignId : String) :
    error ≠ .budgetExceedsCeiling campaignId := by
  obtain ⟨promotion, -, herror⟩ := forM_error h
  unfold verifyPromotion at herror
  split at herror
  · cases herror
    simp
  · split_ifs at herror
    cases herror
    simp

/-- The check refuses a ceiling only when some total is over it. -/
theorem not_withinCeilings_of_verifyInvariants {campaignId : String}
    (hkeyed : Keyed CampaignRow.campaignId P.campaigns)
    (h : P.verifyInvariants = .error (.budgetExceedsCeiling campaignId)) : ¬ P.WithinCeilings := by
  intro hwithin
  unfold verifyInvariants at h
  cases hpromotions : P.verifyPromotions with
  | error error =>
    rw [hpromotions] at h
    cases h
    exact verifyPromotions_error hpromotions campaignId rfl
  | ok _ =>
    rw [hpromotions] at h
    cases hbudgets : P.verifyBudgets with
    | error error =>
      rw [hbudgets] at h
      cases h
      unfold verifyBudgets at hbudgets
      cases hstates : P.budgetStates with
      | error first =>
        rw [hstates] at hbudgets
        cases hbudgets
        exact budgetStates_error hstates campaignId rfl
      | ok states =>
        have hreplayable := ((budgetStates_eq_ok hkeyed).mp hstates).1
        have hpass := (verifyBudgets_eq_ok hkeyed).mpr ⟨hreplayable, hwithin⟩
        unfold verifyBudgets at hpass
        rw [hpass] at hbudgets
        cases hbudgets
    | ok _ =>
      rw [hbudgets] at h
      change P.verifyEndpoints = _ at h
      unfold verifyEndpoints at h
      split at h
      · cases h
      · cases h

theorem verifyInvariants_eq_ok : P.verifyInvariants = .ok () ↔
      P.verifyPromotions = .ok () ∧ P.verifyBudgets = .ok () ∧ P.verifyEndpoints = .ok () := by
  unfold verifyInvariants
  cases P.verifyPromotions with
  | error error => simp [bind, Except.bind]
  | ok _ =>
    cases P.verifyBudgets with
    | error error => simp [bind, Except.bind]
    | ok _ => simp [bind, Except.bind]

end Projection

end HarborHF.Control
