import HarborHF.Control.Encoding
import HarborHF.Control.Ledger
import HarborHF.Control.Service
import Mathlib.Data.List.Induction

/-!
# Replaying a history

The projection checks that no release exceeds what was reserved by replaying the ledger in the order
of `created_at`, ties broken by identity, which need not be the order of the appends.
`replay_accepts_iff` says for which ledgers the check raises no such error: at every release, the
reservations that are up to it in the order of the replay cover the releases that are.
-/

set_option autoImplicit false

namespace HarborHF.Control

open Async Program Relational

namespace Projection

/-! ### Amounts by kind -/

/-- The sum of the amounts of a campaign's events of one kind. -/
def amountIn (kind : BudgetEventKind) (rows : List BudgetRow) (campaignId : String) : ℕ :=
  ((rows.filter fun row ↦ decide (row.campaignId = campaignId ∧ row.eventKind = kind)).map
    BudgetRow.amountMicrousd).sum

theorem amountIn_cons (kind : BudgetEventKind) (row : BudgetRow) (rows : List BudgetRow)
    (campaignId : String) : amountIn kind (row :: rows) campaignId =
      (if row.campaignId = campaignId ∧ row.eventKind = kind then row.amountMicrousd else 0) +
        amountIn kind rows campaignId := by
  by_cases h : row.campaignId = campaignId ∧ row.eventKind = kind
  · simp [amountIn, h]
  · simp [amountIn, h]

theorem reservedIn_eq_sub (rows : List BudgetRow) (campaignId : String) :
    reservedIn rows campaignId =
      amountIn .reserve rows campaignId - amountIn .release rows campaignId := by
  induction rows with
  | nil => rfl
  | cons row rest ih =>
    rw [reservedIn_cons, amountIn_cons, amountIn_cons, ih]
    by_cases hcampaign : row.campaignId = campaignId
    · cases hkind : row.eventKind with
      | reserve =>
        simp only [BudgetRow.reservedDelta, hcampaign, hkind]
        simp
        omega
      | release =>
        simp only [BudgetRow.reservedDelta, hcampaign, hkind]
        simp
        omega
      | reconcile => simp [BudgetRow.reservedDelta, hcampaign, hkind]
      | ceiling => simp [BudgetRow.reservedDelta, hcampaign, hkind]
    · simp [hcampaign]

theorem reservedDelta_nonneg {row : BudgetRow} (h : row.eventKind ≠ .release) :
    0 ≤ row.reservedDelta := by
  unfold BudgetRow.reservedDelta
  cases hkind : row.eventKind with
  | reserve => simp
  | release => exact absurd hkind h
  | reconcile => simp
  | ceiling => simp

/-- No prefix of a list of events releases more than was reserved, if none that ends with a release
does. -/
theorem solvent_of_releases {events : List BudgetRow} {campaignId : String}
    (h : ∀ first release, first ++ [release] <+: events → release.eventKind = .release →
      release.campaignId = campaignId → 0 ≤ reservedIn (first ++ [release]) campaignId) :
    ∀ first, first <+: events → 0 ≤ reservedIn first campaignId := by
  intro first
  -- Induction from the end of the prefix, down to its last release.
  induction first using List.reverseRecOn with
  | nil => simp
  | append_singleton first event ih =>
    intro hbegins
    by_cases hrelease : event.eventKind = .release ∧ event.campaignId = campaignId
    · exact h first event hbegins hrelease.1 hrelease.2
    · have hfirst := ih ((List.prefix_append first [event]).trans hbegins)
      rw [reservedIn_append, reservedIn_cons, reservedIn_nil, add_zero]
      by_cases hcampaign : event.campaignId = campaignId
      · rw [if_pos hcampaign]
        have := reservedDelta_nonneg fun hkind ↦ hrelease ⟨hkind, hcampaign⟩
        omega
      · rw [if_neg hcampaign]
        omega

/-! ### The check -/

/-- The reservations up to an event in the order of the replay cover the releases up to it. -/
def Covered (P : Projection) (event : BudgetRow) : Prop :=
  let rows := upTo (Chronological BudgetRow.createdAt BudgetRow.recordId) P.budgets event
  amountIn .release rows event.campaignId ≤ amountIn .reserve rows event.campaignId

instance (P : Projection) (event : BudgetRow) : Decidable (P.Covered event) :=
  inferInstanceAs (Decidable (_ ≤ _))

variable {P : Projection} {states : List BudgetState}

theorem covered_iff {event : BudgetRow} : P.Covered event ↔
      0 ≤ reservedIn (upTo (Chronological BudgetRow.createdAt BudgetRow.recordId) P.budgets event)
        event.campaignId := by
  rw [reservedIn_eq_sub]
  unfold Covered
  omega

/-- The replayed ledger is solvent exactly when every release is covered. -/
theorem solvent_iff_covered (hbudgets : Keyed BudgetRow.recordId P.budgets)
    (hknown : ∀ event ∈ P.budgets, ∃ row ∈ P.campaigns, row.campaignId = event.campaignId) :
    (∀ first, first <+: P.ledger → ∀ row ∈ P.campaigns, 0 ≤ reservedIn first row.campaignId) ↔
      ∀ event ∈ P.budgets, event.eventKind = .release → P.Covered event := by
  have hperm {first : List BudgetRow} {event : BudgetRow} (h : first ++ [event] <+: P.ledger) :
      (first ++ [event]).Perm
        (upTo (Chronological BudgetRow.createdAt BudgetRow.recordId) P.budgets event) :=
    perm_upTo_of_prefix hbudgets.nodup (ordered_chronological hbudgets) h
  constructor
  · intro hsolvent event hevent _
    obtain ⟨first, hfirst⟩ : ∃ first, first ++ [event] <+: P.ledger := exists_prefix_of_mem hevent
    obtain ⟨row, hrow, hname⟩ := hknown event hevent
    rw [covered_iff, ← reservedIn_perm (hperm hfirst), ← hname]
    exact hsolvent _ hfirst row hrow
  · intro hcovered first hfirst row _
    refine solvent_of_releases (fun before release hbegins hkind hcampaign ↦ ?_) first hfirst
    have hmem : release ∈ P.budgets := P.ledger_perm.mem_iff.mp (hbegins.subset (by simp))
    rw [reservedIn_perm (hperm hbegins), ← hcampaign]
    exact covered_iff.mp (hcovered release hmem hkind)

/-- The replay passes exactly when every release is covered. -/
theorem replay_ok_iff (hcampaigns : Keyed CampaignRow.campaignId P.campaigns)
    (hbudgets : Keyed BudgetRow.recordId P.budgets)
    (hknown : ∀ event ∈ P.budgets, ∃ row ∈ P.campaigns, row.campaignId = event.campaignId) :
    (∃ states, P.ledger.foldlM replayEvent P.initialStates = .ok states) ↔
      ∀ event ∈ P.budgets, event.eventKind = .release → P.Covered event := by
  have hsolvent : ∀ state ∈ P.initialStates, 0 ≤ state.reserved := by
    intro state hstate
    obtain ⟨row, -, rfl⟩ := List.mem_map.mp hstate
    exact le_refl 0
  rw [← solvent_iff_covered hbudgets hknown]
  constructor
  · rintro ⟨states, hstates⟩ first hfirst row hrow
    obtain ⟨-, hbegins, -⟩ := (replay_eq_ok (keyed_initialStates hcampaigns) hsolvent).mp hstates
    have := hbegins first hfirst _ (List.mem_map.mpr ⟨row, hrow, rfl⟩)
    simpa [BudgetState.after] using this
  · intro h
    refine ⟨_, (replay_eq_ok (keyed_initialStates hcampaigns) hsolvent).mpr ⟨?_, ?_, rfl⟩⟩
    · intro event hevent
      obtain ⟨row, hrow, hname⟩ := hknown event (P.ledger_perm.mem_iff.mp hevent)
      exact ⟨_, List.mem_map.mpr ⟨row, hrow, rfl⟩, hname⟩
    · intro first hfirst state hstate
      obtain ⟨row, hrow, rfl⟩ := List.mem_map.mp hstate
      simpa [BudgetState.after] using h first hfirst row hrow

theorem replayEvent_error {event : BudgetRow} {error : ProjectionError}
    (h : replayEvent states event = .error error) :
    (∀ state ∈ states, state.campaignId ≠ event.campaignId) ∨
      error = .releaseExceedsReservation event.campaignId := by
  unfold replayEvent at h
  split at h
  next hmissing => exact .inl (lookup_eq_none.mp hmissing)
  next =>
    split_ifs at h
    cases h
    exact .inr rfl

theorem replayEvent_campaigns {states states' : List BudgetState} {event : BudgetRow}
    (h : replayEvent states event = .ok states') :
    states'.map BudgetState.campaignId = states.map BudgetState.campaignId := by
  unfold replayEvent at h
  split at h
  · cases h
  next state _ =>
    split_ifs at h
    cases h
    unfold setState
    rw [List.map_map]
    apply List.map_congr_left
    intro other _
    by_cases hsame : other.campaignId = (state.record event).campaignId
    · simp [hsame]
    · simp [hsame]

/-- The replay of events whose campaigns are there can only fail with a release. -/
theorem replay_error {events : List BudgetRow} {error : ProjectionError}
    (hknown : ∀ event ∈ events, event.campaignId ∈ states.map BudgetState.campaignId)
    (h : events.foldlM replayEvent states = .error error) :
    ∃ campaignId, error = .releaseExceedsReservation campaignId := by
  induction events generalizing states with
  | nil => cases h
  | cons event rest ih =>
    rw [List.foldlM_cons] at h
    cases hevent : replayEvent states event with
    | error first =>
      rw [hevent] at h
      cases h
      rcases replayEvent_error hevent with hmissing | hrelease
      · obtain ⟨state, hstate, hname⟩ := List.mem_map.mp (hknown event List.mem_cons_self)
        exact absurd hname (hmissing state hstate)
      · exact ⟨_, hrelease⟩
    | ok next =>
      rw [hevent] at h
      refine ih (fun other hother ↦ ?_) h
      rw [replayEvent_campaigns hevent]
      exact hknown other (List.mem_cons_of_mem event hother)

theorem verifyPromotions_ne_release (P : Projection) (campaignId : String) :
    P.verifyPromotions ≠ .error (.releaseExceedsReservation campaignId) := by
  intro h
  obtain ⟨promotion, -, herror⟩ := forM_error h
  unfold verifyPromotion at herror
  split at herror
  · cases herror
  · split_ifs at herror
    cases herror

/-- When the replay passes, the ledger check refuses no release. -/
theorem verifyBudgets_ne_release
    (hreplay : P.ledger.foldlM replayEvent P.initialStates = .ok states) (campaignId : String) :
    P.verifyBudgets ≠ .error (.releaseExceedsReservation campaignId) := by
  intro h
  obtain hstates | ⟨_, hother⟩ := verifyBudgets_eq_error h
  · unfold budgetStates at hstates
    rw [hreplay] at hstates
    change P.attemptCampaigns.foldlM P.observeAttempts states = _ at hstates
    refine foldlM_error (fun error ↦ error ≠ .releaseExceedsReservation campaignId) ?_ hstates rfl
    intro states name error hname
    unfold observeAttempts at hname
    split at hname
    · cases hname
      simp
    · cases hname
  · cases hother

/-- When the replay passes, no check refuses a release. -/
theorem verifyInvariants_ne_release
    (hreplay : P.ledger.foldlM replayEvent P.initialStates = .ok states) (campaignId : String) :
    P.verifyInvariants ≠ .error (.releaseExceedsReservation campaignId) := by
  intro h
  unfold verifyInvariants at h
  cases hpromotions : P.verifyPromotions with
  | error error =>
    rw [hpromotions] at h
    cases h
    exact verifyPromotions_ne_release P campaignId hpromotions
  | ok _ =>
    rw [hpromotions] at h
    cases hbudgets : P.verifyBudgets with
    | error error =>
      rw [hbudgets] at h
      cases h
      exact verifyBudgets_ne_release hreplay campaignId hbudgets
    | ok _ =>
      rw [hbudgets] at h
      change P.verifyEndpoints = _ at h
      unfold verifyEndpoints at h
      split at h
      · cases h
      · cases h

/-- The checks of a ledger of known campaigns refuse no release, exactly when at every release the
reservations before it in the order of the replay cover the releases up to it. -/
theorem replay_accepts_iff (P : Projection) (hcampaigns : Keyed CampaignRow.campaignId P.campaigns)
    (hbudgets : Keyed BudgetRow.recordId P.budgets)
    (hknown : ∀ event ∈ P.budgets, ∃ row ∈ P.campaigns, row.campaignId = event.campaignId)
    (hpromotions : P.verifyPromotions = .ok ()) :
    (∀ campaignId, P.verifyInvariants ≠ .error (.releaseExceedsReservation campaignId)) ↔
      ∀ event ∈ P.budgets, event.eventKind = .release → P.Covered event := by
  rw [← replay_ok_iff hcampaigns hbudgets hknown]
  constructor
  · intro hpass
    cases hreplay : P.ledger.foldlM replayEvent P.initialStates with
    | ok states => exact ⟨states, rfl⟩
    | error error =>
      have hcampaign : ∀ event ∈ P.ledger,
          event.campaignId ∈ P.initialStates.map BudgetState.campaignId := by
        intro event hevent
        obtain ⟨row, hrow, hname⟩ := hknown event (P.ledger_perm.mem_iff.mp hevent)
        exact List.mem_map.mpr ⟨_, List.mem_map.mpr ⟨row, hrow, rfl⟩, hname⟩
      obtain ⟨campaignId, rfl⟩ := replay_error hcampaign hreplay
      refine absurd ?_ (hpass campaignId)
      unfold verifyInvariants verifyBudgets budgetStates
      rw [hpromotions, hreplay]
      rfl
  · rintro ⟨states, hreplay⟩
    exact verifyInvariants_ne_release hreplay

/-! ### A Sandbox that ends in the millisecond of its creation -/

section

local instance replayDigests : Digests := plainDigests

/-- A campaign with a ceiling and no ledger events. -/
def openCampaign : World :=
  ⟨⟨[], [], []⟩, { campaigns := [⟨"c", 0, none, none, 100⟩], ready := true }, []⟩

/-- A Sandbox is reserved at one time and its reservation is released at another. -/
def reserveThenRelease (createdAt completedAt : ℕ) : Act Unit := do
  let _ ← reserveSandbox "c" "x" createdAt 50
  finalizeSandboxBudget "c" "x" completedAt 50 0

/-- The state after both. -/
def releasedWorld (createdAt completedAt : ℕ) : World :=
  (machine.eval 0 {} (reserveThenRelease createdAt completedAt) openCampaign).2

/-- With the same time for both, the running total of the appends is never negative, and the check
refuses the release: its identity comes first. -/
theorem release_before_reserve :
    (∀ count ≤ 3, 0 ≤ reservedIn ((releasedWorld 5 5).projection.budgets.take count) "c") ∧
      (releasedWorld 5 5).projection.budgets.map (fun row ↦ (row.eventKind, row.createdAt)) =
        [(.reserve, 5), (.reconcile, 5), (.release, 5)] ∧
      (releasedWorld 5 5).projection.verifyInvariants = .error (.releaseExceedsReservation "c") := by
  decide +kernel

/-- A millisecond later the release is covered. -/
theorem release_after_reserve :
    (∃ event ∈ (releasedWorld 5 6).projection.budgets, event.eventKind = .release) ∧
      ∀ campaignId, (releasedWorld 5 6).projection.verifyInvariants ≠
        .error (.releaseExceedsReservation campaignId) := by
  refine ⟨by decide +kernel, ?_⟩
  refine (replay_accepts_iff (releasedWorld 5 6).projection ?_ ?_ (by decide +kernel) (by rfl)).mpr
    (by decide +kernel)
  · unfold Keyed
    decide +kernel
  · unfold Keyed
    decide +kernel

end

end Projection

end HarborHF.Control
