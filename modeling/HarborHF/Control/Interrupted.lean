import HarborHF.Async.Call
import HarborHF.Control.Footprints
import HarborHF.Control.Spending

/-!
# Ledger methods that are run again

A reservation first catches up what was spent over the reservations, and a finalization first
reconciles the observed total. Both of these events have identities of their own, but their amounts
are read off the totals. So when the process stops before the next event and the method is run again,
whatever else was done in between (`Others`), the event is asked for again, and it is a conflict
unless its amount has not changed (`retried_iff`, `rerun_iff`).
-/

set_option autoImplicit false

namespace HarborHF.Control

open Async Program Relational Projection

/-! ### Other work -/

/-- The rows of campaigns and of the ledger are those of the stored records. -/
structure Ledgered (world : World) : Prop where
  synced : world.Synced
  campaigns : CampaignsOf world.store.records world.projection.campaigns
  keyed : Keyed BudgetRow.recordId world.projection.budgets
  stored : ∀ row ∈ world.projection.budgets,
    ∃ event, .budgetEvent event ∈ world.store.records ∧ budgetRow event = row

/-- What work leaves of a state: its records and its ledger stay, and none of the own records is
added. -/
structure Spared (own : Record → Bool) (before after : World) : Prop where
  records : ∀ record ∈ before.store.records, record ∈ after.store.records
  rows : ∀ row ∈ before.projection.budgets, row ∈ after.projection.budgets
  own : after.store.records.filter own = before.store.records.filter own

/-- An operation of other work: it writes nothing for another instance, and none of the own records. -/
def Others (own : Record → Bool) : Op → Prop
  | .append record => own record = false
  | .remoteAppend _ => False
  | _ => True

theorem Spared.refl (own : Record → Bool) (world : World) : Spared own world world :=
  ⟨fun _ h ↦ h, fun _ h ↦ h, rfl⟩

theorem Spared.trans {own : Record → Bool} {first middle last : World}
    (h : Spared own first middle) (h' : Spared own middle last) : Spared own first last :=
  ⟨fun record hrecord ↦ h'.records record (h.records record hrecord),
    fun row hrow ↦ h'.rows row (h.rows row hrow), h'.own.trans h.own⟩

section

variable [Digests] {own : Record → Bool} {world world' : World} {record : Record}

theorem Ledgered.append (h : Ledgered world)
    (hfresh : Free Record.key record.key world.store.records) : Ledgered (world.afterAppend record) := by
  refine ⟨h.synced.afterAppend hfresh, ?_, keyedBudgets_afterAppend h.synced hfresh h.keyed,
    storedBudgets_afterAppend h.synced hfresh h.stored⟩
  rw [campaigns_afterAppend h.synced hfresh]
  exact h.campaigns.append hfresh

omit [Digests] in
theorem Ledgered.of_unchanged (h : Ledgered world) (hsame : World.Unchanged world world') :
    Ledgered world' := by
  obtain ⟨⟨records, evidence, results⟩, tables, held⟩ := world'
  obtain ⟨hrecords, ⟨ready, hprojection⟩, -⟩ := hsame
  simp only at hrecords hprojection
  subst hrecords hprojection
  exact ⟨⟨h.synced.keyed, h.synced.objects⟩, h.campaigns, h.keyed, h.stored⟩

omit [Digests] in
theorem Ledgered.of_held (h : Ledgered world) (held : List (Queue × ℕ)) :
    Ledgered { world with held := held } :=
  ⟨⟨h.synced.keyed, h.synced.objects⟩, h.campaigns, h.keyed, h.stored⟩

theorem Ledgered.step (h : Ledgered world) (hstep : machine.Step (Others own) world world') :
    Ledgered world' ∧ Spared own world world' := by
  obtain ⟨thread, op, choice, answer, hop, hperform⟩ := hstep
  rcases World.perform_cases h.synced hperform with
    ⟨record, rfl, hfresh, rfl⟩ | ⟨record, rfl⟩ | ⟨queue, -, -, rfl⟩ | ⟨queue, -, rfl⟩ | hsame
  · refine ⟨h.append hfresh, fun other hother ↦ List.mem_append_left _ hother, fun row hrow ↦ ?_, ?_⟩
    · rcases budgets_afterAppend h.synced hfresh with hbudgets | ⟨hbudgets, -⟩
      · rw [hbudgets]
        exact List.mem_append_left _ hrow
      · rw [hbudgets]
        exact hrow
    · have hother : own record = false := hop
      simp [World.afterAppend, List.filter_append, hother]
  · cases hop
  · exact ⟨h.of_held _, fun _ h ↦ h, fun _ h ↦ h, rfl⟩
  · exact ⟨h.of_held _, fun _ h ↦ h, fun _ h ↦ h, rfl⟩
  · refine ⟨h.of_unchanged hsame, ?_, ?_, ?_⟩
    · exact fun other hother ↦ hsame.records ▸ hother
    · obtain ⟨ready, hprojection⟩ := hsame.projection
      exact fun row hrow ↦ by rw [hprojection]; exact hrow
    · rw [hsame.records]

theorem ledgered_of_restart (h : world.restart = some world') : Ledgered world' := by
  have haccounts := accounts_of_restart h
  exact ⟨haccounts.synced, haccounts.campaigns, haccounts.keyedBudgets, haccounts.budgets_stored⟩

theorem valid_of_restart (h : world.restart = some world') (hrecord : record ∈ world.store.records) :
    validateControlRecord record = true := by
  have hcheck := (World.restart_eq_some.mp h).1 record hrecord
  unfold checkEntry at hcheck
  split_ifs at hcheck with hvalid
  simpa using hvalid

theorem restart_store (h : world.restart = some world') : world'.store = world.store := by
  obtain ⟨-, -, -, rfl⟩ := World.restart_eq_some.mp h
  rfl

theorem Ledgered.restart (h : Ledgered world) (hrestart : world.restart = some world') :
    Ledgered world' ∧ Spared own world world' := by
  have hstore := restart_store hrestart
  refine ⟨ledgered_of_restart hrestart, fun record hrecord ↦ hstore ▸ hrecord, ?_, by rw [hstore]⟩
  intro row hrow
  obtain ⟨event, hevent, rfl⟩ := h.stored row hrow
  exact (booked_of_restart hrestart).budgets_all event (hstore ▸ hevent)

theorem Ledgered.later (h : Ledgered world) (hlater : machine.Later (Others own) world world') :
    Ledgered world' ∧ Spared own world world' :=
  hlater.keeps (Spared.refl own) Spared.trans (fun hfirst hstep ↦ hfirst.step hstep)
    (fun hfirst hrestart ↦ hfirst.restart hrestart) h

omit [Digests] in
theorem Local.others {allowed : Record → Prop} (h : ∀ record, allowed record → own record = false)
    (op : Op) (hop : Local allowed op) : Others own op := by
  cases op with
  | append record => exact h record hop
  | remoteAppend record => exact hop
  | _ => trivial

/-- A method that appends none of the own records is other work, as far as it comes. -/
theorem later_eval {α : Type} {program : Act α} {thread : ℕ} {choice : Choice}
    (huses : program.Uses (Others own)) :
    machine.Later (Others own) world (machine.eval thread choice program world).2 := by
  induction program generalizing world with
  | ret value => exact .refl
  | throw error => exact .refl
  | await op resume ih =>
    obtain ⟨hop, hresume⟩ := huses
    cases hperform : machine.perform thread op choice world with
    | none =>
      rw [Machine.eval_blocked machine hperform]
      exact .refl
    | some result =>
      obtain ⟨answer, after⟩ := result
      rw [machine.eval_await hperform]
      exact .head (.inl ⟨thread, op, choice, answer, hop, hperform⟩) (ih answer (hresume answer))

/-! ### What a method reads -/

omit [Digests] in
theorem Ledgered.budget_eq_none (h : Ledgered world) {recordId : String}
    (hnone : ∀ event, .budgetEvent event ∈ world.store.records → event.recordId ≠ recordId) :
    world.projection.budget recordId = none := by
  refine lookup_eq_none.mpr fun row hrow hid ↦ ?_
  obtain ⟨event, hevent, rfl⟩ := h.stored row hrow
  exact hnone event hevent hid

omit [Digests] in
theorem Ledgered.budget_eq_some (h : Ledgered world) {event : BudgetEvent}
    (hrow : budgetRow event ∈ world.projection.budgets) :
    world.projection.budget event.recordId = some (budgetRow event) :=
  h.keyed.lookup_eq_some.mpr ⟨hrow, rfl⟩

omit [Digests] in
theorem exists_ceilingIn_mono {records records' : List Record} {campaignId : String} {ceiling : ℕ}
    (h : CeilingIn records campaignId ceiling) (hmem : ∀ record ∈ records, record ∈ records') :
    ∃ ceiling', CeilingIn records' campaignId ceiling' := by
  by_cases hlock : ∃ lock, .campaignLock lock ∈ records' ∧ lock.campaignId = campaignId
  · obtain ⟨lock, hlock, hname⟩ := hlock
    exact ⟨lock.ceilingMicrousd, .inl ⟨lock, hlock, hname, rfl⟩⟩
  · rcases h with ⟨lock, hstored, hname, -⟩ | ⟨-, request, hstored, hname, -⟩
    · exact absurd ⟨lock, hmem _ hstored, hname⟩ hlock
    · exact ⟨request.ceilingMicrousd, .inr ⟨fun lock hstored hname ↦ hlock ⟨lock, hstored, hname⟩,
        request, hmem _ hstored, hname, rfl⟩⟩

/-- An event that a restart has read has its campaign, then and later. -/
theorem exists_campaign (event : BudgetEvent) {stored crashed : World}
    (hrestart : stored.restart = some crashed) (hevent : .budgetEvent event ∈ crashed.store.records)
    (h : Ledgered world) (hrecords : ∀ record ∈ crashed.store.records, record ∈ world.store.records) :
    ∃ view, world.projection.campaign event.campaignId = some view := by
  have hbooked := booked_of_restart hrestart
  obtain ⟨-, -, hverify, hcrashed⟩ := World.restart_eq_some.mp hrestart
  have hverify : crashed.projection.verifyInvariants = .ok () := by
    rw [hcrashed]
    exact hverify
  have hreplayable := ((verifyBudgets_eq_ok hbooked.campaigns.keyed).mp
    (verifyInvariants_eq_ok.mp hverify).2.1).1
  obtain ⟨row, hrow, hname⟩ := hreplayable.events _ (hbooked.budgets_all event hevent)
  obtain ⟨ceiling, hceiling⟩ := exists_ceilingIn_mono (hbooked.campaigns.ceiling row hrow) hrecords
  obtain ⟨row', hrow', hname'⟩ := h.campaigns.complete _ _ hceiling
  refine ⟨world.projection.campaignView row', Option.map_eq_some_iff.mpr ⟨row', ?_, rfl⟩⟩
  exact h.campaigns.keyed.lookup_eq_some.mpr ⟨hrow', hname'.trans hname⟩

/-! ### Appends -/

/-- A fresh record that the tables take in: it is valid, and the tables with it pass their check. -/
def Recordable (world : World) (record : Record) : Prop :=
  validateControlRecord record = true ∧ (world.projection.extend record).verifyInvariants = .ok ()

instance (world : World) (record : Record) : Decidable (Recordable world record) :=
  inferInstanceAs (Decidable (_ ∧ _))

theorem append_present (h : world.Synced) (hvalid : validateControlRecord record = true)
    (hevidence : verifyAttemptEvidence world.store record = .ok ())
    (hmem : record ∈ world.store.records) : world.append record = (.ok false, world) := by
  cases happend : world.append record with
  | mk answer state =>
    cases World.append_spec h happend with
    | invalid hinvalid => exact absurd (hvalid.symm.trans hinvalid) (by decide)
    | unverified _ hfailed => cases hevidence.symm.trans hfailed
    | conflict _ hexisting hkey hne => exact absurd (h.keyed.eq_of_mem hexisting hmem hkey) hne
    | present => rfl
    | refused _ _ hfresh | poisoned _ _ hfresh | accepted _ _ hfresh => exact absurd rfl (hfresh _ hmem)

/-- An object has one content. -/
theorem append_differs (existing record : Record) (h : world.Synced)
    (hevidence : verifyAttemptEvidence world.store record = .ok ())
    (hmem : existing ∈ world.store.records) (hkey : existing.key = record.key)
    (hne : existing ≠ record) : ∃ error, world.append record = (.error error, world) := by
  cases happend : world.append record with
  | mk answer state =>
    cases World.append_spec h happend with
    | invalid => exact ⟨_, rfl⟩
    | unverified _ hfailed => cases hevidence.symm.trans hfailed
    | conflict => exact ⟨_, rfl⟩
    | present _ hrecord => exact absurd (h.keyed.eq_of_mem hmem hrecord hkey) hne
    | refused _ _ hfresh | poisoned _ _ hfresh | accepted _ _ hfresh =>
      exact absurd hkey (hfresh _ hmem)

/-- A fresh record that its table accepts is recorded or leaves the tables with an error. -/
theorem append_fresh (record : Record) (h : world.Synced)
    (hevidence : verifyAttemptEvidence world.store record = .ok ())
    (hfresh : Free Record.key record.key world.store.records)
    (haccepts : world.projection.AcceptsKind record) :
    if Recordable world record then world.append record = (.ok true, world.afterAppend record)
    else ∃ error state, (∀ key, error ≠ .immutableConflict key) ∧
      world.append record = (.error error, state) := by
  have haccepts : world.projection.Accepts record := ⟨h.free_objects hfresh, haccepts⟩
  cases happend : world.append record with
  | mk answer state =>
    cases World.append_spec h happend with
    | invalid hinvalid =>
      rw [if_neg fun hrecordable ↦ absurd (hrecordable.1.symm.trans hinvalid) (by decide)]
      exact ⟨_, _, by simp, rfl⟩
    | unverified _ hfailed => cases hevidence.symm.trans hfailed
    | conflict _ hexisting hkey => exact absurd hkey (hfresh _ hexisting)
    | present _ hmem => exact absurd rfl (hfresh _ hmem)
    | refused _ _ _ hrefused =>
      rw [World.apply_of_accepts haccepts] at hrefused
      cases hrefused
    | poisoned _ _ _ _ hverify =>
      rw [if_neg fun hrecordable ↦ by cases hrecordable.2.symm.trans hverify]
      exact ⟨_, _, by simp, rfl⟩
    | accepted hvalid _ _ _ hverify =>
      rw [if_pos ⟨hvalid, hverify⟩]

/-- A method whose queue is free runs as it does without the queue. -/
theorem eval_withFreeQueue {β : Type} {queue : Queue} (method : Act β) (thread : ℕ) (choice : Choice)
    (hfree : ∀ other, (queue, other) ∉ world.held) :
    let result := machine.eval thread choice method (world.hold queue thread)
    ∃ held, machine.eval thread choice (withQueue queue method) world =
      (result.1, { result.2 with held := held }) := by
  have hnone : ¬ (world.held.any fun entry ↦ entry.1 = queue) = true := by
    intro hany
    obtain ⟨⟨name, other⟩, hentry, hname⟩ := List.any_eq_true.mp hany
    cases of_decide_eq_true hname
    exact hfree other hentry
  rw [eval_withQueue, if_neg hnone]
  cases machine.eval thread choice method (world.hold queue thread) with
  | mk outcome state => cases outcome <;> exact ⟨_, rfl⟩

theorem eval_appendAdopting_ok {τ : Type} {wrap : τ → Record} {unwrap : Record → Option τ} {value : τ}
    {equivalent : τ → Bool} {thread : ℕ} {choice : Choice} {created : Bool}
    (happend : world.append (wrap value) = (.ok created, world')) :
    machine.eval thread choice (appendAdopting wrap unwrap value equivalent) world =
      (some (.ok (created, value)), world') := by
  unfold appendAdopting
  rw [Machine.eval_bind, Machine.eval_attempt, eval_append, happend]
  rfl

theorem eval_appendAdopting_error {τ : Type} {wrap : τ → Record} {unwrap : Record → Option τ}
    {value : τ} {equivalent : τ → Bool} {thread : ℕ} {choice : Choice} {error : ServiceError}
    (hne : ∀ key, error ≠ .immutableConflict key)
    (happend : world.append (wrap value) = (.error error, world')) :
    machine.eval thread choice (appendAdopting wrap unwrap value equivalent) world =
      (some (.error error), world') := by
  unfold appendAdopting
  rw [Machine.eval_bind, Machine.eval_attempt, eval_append, happend]
  cases error with
  | immutableConflict key => exact absurd rfl (hne key)
  | _ => rfl

theorem eval_append_return {β : Type} {thread : ℕ} {choice : Choice} (value : β) :
    machine.eval thread choice (append record >>= fun _ ↦ (return value : Act β)) world =
      (some ((world.append record).1.map fun _ ↦ value), (world.append record).2) := by
  rw [Machine.eval_bind, eval_append]
  cases (world.append record).1 <;> rfl

end

/-! ### Reservations -/

/-- What is reserved for: the replacement of an attempt's Job, or a Sandbox. -/
inductive Purpose
  | replacement (priorAttemptId : String)
  | sandbox (createActionId : String)
  deriving DecidableEq

/-- A reservation that is asked for. -/
structure Reservation where
  campaignId : String
  purpose : Purpose
  createdAt : ℕ
  amount : ℕ
  deriving DecidableEq

namespace Reservation

section

variable [Digests] (reservation : Reservation)

def method : Act Bool :=
  match reservation.purpose with
  | .replacement priorAttemptId =>
    reserveReplacement reservation.campaignId priorAttemptId reservation.createdAt reservation.amount
  | .sandbox createActionId =>
    reserveSandbox reservation.campaignId createActionId reservation.createdAt reservation.amount

def recordId : String :=
  match reservation.purpose with
  | .replacement priorAttemptId => replacementId reservation.campaignId priorAttemptId
  | .sandbox createActionId => sandboxReservationId reservation.campaignId createActionId

def overageId : String :=
  match reservation.purpose with
  | .replacement priorAttemptId => replacementOverageId reservation.campaignId priorAttemptId
  | .sandbox createActionId => sandboxOverageId reservation.campaignId createActionId

/-- The event that reserves. -/
def event : BudgetEvent :=
  budgetEvent reservation.campaignId reservation.recordId .reserve reservation.amount
    reservation.createdAt

/-- The event that catches up. -/
def catchUpEvent (overage : ℕ) : BudgetEvent :=
  budgetEvent reservation.campaignId reservation.overageId .reserve overage reservation.createdAt

/-- A record of the reservation itself. -/
def owns : Record → Bool
  | .budgetEvent event => event.recordId = reservation.recordId
  | _ => false

/-- The process has stopped between the two events: what was spent over the reservations has been
caught up, and nothing has been reserved. A replacement that reserves nothing does not come here. -/
structure Stopped (caught : ℕ) (stored : World) : Prop where
  caughtUp : .budgetEvent (reservation.catchUpEvent caught) ∈ stored.store.records
  unreserved : stored.store.records.filter reservation.owns = []
  asked : ∀ priorAttemptId, reservation.purpose = .replacement priorAttemptId → reservation.amount ≠ 0

/-- Run again, the method is refused by the ceiling, or it reserves once. -/
def Retried (thread : ℕ) (choice : Choice) (world : World) : Prop :=
  let result := machine.eval thread choice reservation.method world
  result.1 = some (.ok false) ∨
    (result.1 = some (.ok true) ∧
      result.2.store.records.filter reservation.owns = [.budgetEvent reservation.event])

/-- There is no room for the reservation under the ceiling; or nothing is spent over the reservations,
or again as much as was caught up, and the tables take the reservation in. -/
def CanRetry (caught : ℕ) (world : World) : Prop :=
  ∀ view, world.projection.campaign reservation.campaignId = some view →
    max view.reservedMicrousd view.observedMicrousd + reservation.amount ≤ view.ceilingMicrousd →
      (view.observedMicrousd ≤ view.reservedMicrousd ∨
        view.observedMicrousd - view.reservedMicrousd = caught) ∧
        Recordable world (.budgetEvent reservation.event)

/-- The text of the error for a reservation that differs from what is stored. -/
def conflict : String :=
  match reservation.purpose with
  | .replacement _ => "replacement budget reservation conflicts with durable state"
  | .sandbox _ => "Sandbox budget reservation conflicts with durable state"

/-- The method without its queue. -/
def serialized : Act Bool :=
  reserveSerialized reservation.campaignId reservation.recordId reservation.overageId
    reservation.conflict reservation.createdAt reservation.amount

end

section

variable [Digests] {reservation : Reservation} {stored crashed world : World} {caught : ℕ}
  {thread : ℕ} {choice : Choice}

theorem Stopped.method_eq (h : reservation.Stopped caught stored) :
    reservation.method = withQueue .budget reservation.serialized := by
  obtain ⟨campaignId, purpose, createdAt, amount⟩ := reservation
  cases purpose with
  | replacement priorAttemptId =>
    have hamount : amount ≠ 0 := h.asked priorAttemptId rfl
    change withQueue .budget (reserveReplacementSerialized _ _ _ _) = _
    rw [reserveReplacementSerialized, if_neg hamount]
    rfl
  | sandbox createActionId => rfl

theorem unreserved_of_filter (h : world.store.records.filter reservation.owns = []) :
    ∀ event, .budgetEvent event ∈ world.store.records → event.recordId ≠ reservation.recordId :=
  fun _ hevent hid ↦ List.filter_eq_nil_iff.mp h _ hevent (decide_eq_true hid)

/-- A reservation that is not recorded yet is refused by the ceiling, or catches up and reserves. -/
theorem eval_serialized {view : CampaignView}
    (hnone : world.projection.budget reservation.recordId = none)
    (hview : world.projection.campaign reservation.campaignId = some view) :
    machine.eval thread choice reservation.serialized world =
      if max view.reservedMicrousd view.observedMicrousd + reservation.amount > view.ceilingMicrousd
      then (some (.ok false), world)
      else machine.eval thread choice (do
        catchUp reservation.campaignId reservation.overageId reservation.createdAt
          (view.observedMicrousd - view.reservedMicrousd).toNat
        let _ ← append (.budgetEvent reservation.event)
        return true) world := by
  have hbudget : (Query.budget reservation.recordId).answer world.projection = none := hnone
  have hcampaign : (Query.campaign reservation.campaignId).answer world.projection = some view := hview
  refine (eval_ask_then hbudget).trans ((eval_ask_then hcampaign).trans ?_)
  dsimp only
  split_ifs
  · rfl
  · rfl

omit [Digests] in
theorem budgetEvent_of_key {record : Record} {event : BudgetEvent}
    (h : record.key = (Record.budgetEvent event).key) :
    ∃ other, record = .budgetEvent other ∧ other.recordId = event.recordId := by
  cases record with
  | budgetEvent other => exact ⟨other, rfl, (ObjectKey.budgetEvent.inj h).2⟩
  | _ => cases h

/-- The last append of a reservation that is not recorded yet. -/
theorem eval_reserve (h : Ledgered world)
    (hown : world.store.records.filter reservation.owns = []) :
    let result := machine.eval thread choice (do
      let _ ← append (.budgetEvent reservation.event)
      return true) world
    (result.1 = some (.ok false) ∨ (result.1 = some (.ok true) ∧
      result.2.store.records.filter reservation.owns = [.budgetEvent reservation.event])) ↔
        Recordable world (.budgetEvent reservation.event) := by
  have hnone := unreserved_of_filter hown
  have happend := append_fresh (.budgetEvent reservation.event) h.synced rfl
    (fun existing hexisting hkey ↦ by
      obtain ⟨other, rfl, hid⟩ := budgetEvent_of_key hkey
      exact hnone other hexisting hid)
    (fun row hrow hid ↦ by
      obtain ⟨event, hevent, rfl⟩ := h.stored row hrow
      exact hnone event hevent hid)
  dsimp only
  rw [eval_append_return]
  by_cases hrecordable : Recordable world (.budgetEvent reservation.event)
  · rw [if_pos hrecordable] at happend
    have howns : reservation.owns (.budgetEvent reservation.event) = true := decide_eq_true rfl
    rw [happend]
    simp [World.afterAppend, List.filter_append, hown, howns, hrecordable, Except.map]
  · rw [if_neg hrecordable] at happend
    obtain ⟨error, state, -, happend⟩ := happend
    rw [happend]
    simp [hrecordable, Except.map]

/-- The retry without its queue. -/
theorem retried_serialized {view : CampaignView} (h : Ledgered world)
    (hown : world.store.records.filter reservation.owns = [])
    (hcaught : .budgetEvent (reservation.catchUpEvent caught) ∈ world.store.records)
    (hvalid : validateControlRecord (.budgetEvent (reservation.catchUpEvent caught)) = true)
    (hview : world.projection.campaign reservation.campaignId = some view) :
    let result := machine.eval thread choice reservation.serialized world
    (result.1 = some (.ok false) ∨ (result.1 = some (.ok true) ∧
      result.2.store.records.filter reservation.owns = [.budgetEvent reservation.event])) ↔
        reservation.CanRetry caught world := by
  dsimp only
  rw [eval_serialized (h.budget_eq_none (unreserved_of_filter hown)) hview]
  have hcan : max view.reservedMicrousd view.observedMicrousd + reservation.amount ≤
      view.ceilingMicrousd → (reservation.CanRetry caught world ↔
        (view.observedMicrousd ≤ view.reservedMicrousd ∨
          view.observedMicrousd - view.reservedMicrousd = caught) ∧
            Recordable world (.budgetEvent reservation.event)) := by
    intro hroom
    refine ⟨fun hcan ↦ hcan view hview hroom, fun hcan other hother _ ↦ ?_⟩
    cases hview.symm.trans hother
    exact hcan
  split_ifs with hroom
  · refine iff_of_true (.inl rfl) fun other hother hfits ↦ ?_
    cases hview.symm.trans hother
    omega
  rw [hcan (by omega), Machine.eval_bind]
  by_cases hnothing : view.observedMicrousd ≤ view.reservedMicrousd
  · have hzero : (view.observedMicrousd - view.reservedMicrousd).toNat = 0 := by omega
    rw [hzero]
    exact (eval_reserve h hown).trans (by simp only [hnothing, true_or, true_and])
  · have hpositive : 0 < (view.observedMicrousd - view.reservedMicrousd).toNat := by omega
    rw [catchUp, if_pos hpositive, eval_append_return]
    by_cases hsame : view.observedMicrousd - view.reservedMicrousd = caught
    · have hamount : (view.observedMicrousd - view.reservedMicrousd).toNat = caught := by omega
      rw [hamount]
      rw [show world.append (.budgetEvent (budgetEvent reservation.campaignId reservation.overageId
        .reserve caught reservation.createdAt)) = (.ok false, world) from
          append_present h.synced hvalid rfl hcaught]
      exact (eval_reserve h hown).trans (by simp only [hsame, or_true, true_and])
    · obtain ⟨error, happend⟩ := append_differs (.budgetEvent (reservation.catchUpEvent caught))
        (.budgetEvent (reservation.catchUpEvent (view.observedMicrousd - view.reservedMicrousd).toNat))
        h.synced rfl hcaught rfl (fun heq ↦ hsame (by
          have := congrArg BudgetEvent.amountMicrousd (Record.budgetEvent.inj heq)
          simp only [catchUpEvent, budgetEvent] at this
          omega))
      rw [show world.append (.budgetEvent (budgetEvent reservation.campaignId reservation.overageId
        .reserve (view.observedMicrousd - view.reservedMicrousd).toNat reservation.createdAt)) =
          (.error error, world) from happend]
      simp [Except.map, hnothing, hsame]

/-- A reservation that stopped after it had caught up, run again after any other work, is refused by
the ceiling or reserves once exactly if there is no room for it, or nothing is spent over the
reservations or again as much as was caught up, and the tables take the reservation in. -/
theorem retried_iff (hstopped : reservation.Stopped caught stored)
    (hrestart : stored.restart = some crashed)
    (hlater : machine.Later (Others reservation.owns) crashed world)
    (hfree : ∀ other, (.budget, other) ∉ world.held) :
    reservation.Retried thread choice world ↔ reservation.CanRetry caught world := by
  obtain ⟨hworld, hspared⟩ := (ledgered_of_restart hrestart).later hlater
  have hstore := restart_store hrestart
  have hcrashed : .budgetEvent (reservation.catchUpEvent caught) ∈ crashed.store.records :=
    hstore ▸ hstopped.caughtUp
  have hown : world.store.records.filter reservation.owns = [] :=
    hspared.own.trans (hstore ▸ hstopped.unreserved)
  have hvalid : validateControlRecord (.budgetEvent (reservation.catchUpEvent caught)) = true :=
    valid_of_restart hrestart hstopped.caughtUp
  obtain ⟨view, hview⟩ := exists_campaign (reservation.catchUpEvent caught) hrestart hcrashed hworld hspared.records
  have hretried := @retried_serialized _ reservation _ caught thread choice view
    (hworld.of_held ((.budget, thread) :: world.held)) hown (hspared.records _ hcrashed) hvalid hview
  obtain ⟨held, heval⟩ := eval_withFreeQueue reservation.serialized thread choice hfree
  unfold Retried
  rw [hstopped.method_eq, heval]
  exact hretried

end

end Reservation

/-! ### Finalizations -/

/-- An action whose receipt closes the books of a Sandbox. -/
structure Closing where
  intent : ActionIntent
  receipt : ActionReceipt
  createActionId : String
  reservation : ℕ
  cost : ℕ
  action : receipt.actionId = intent.actionId
  campaign : receipt.campaignId = intent.campaignId
  finalizes : finalization intent receipt = .ok (some (createActionId, reservation, cost))

namespace Closing

section

variable [Digests] (closing : Closing)

def observedId : String := sandboxObservedId closing.intent.campaignId closing.createActionId

def releaseId : String := sandboxReleaseId closing.intent.campaignId closing.createActionId

/-- The event that reconciles the observed total. -/
def reconcile (total : ℕ) : BudgetEvent :=
  budgetEvent closing.intent.campaignId closing.observedId .reconcile total closing.receipt.createdAt

def release : BudgetEvent :=
  budgetEvent closing.intent.campaignId closing.releaseId .release closing.reservation
    closing.receipt.createdAt

def advanced : ActionAdvanced := advancedRecord closing.intent closing.receipt

/-- A record of the Sandbox's finalization or of the action's end. -/
def owns : Record → Bool
  | .budgetEvent event => event.recordId = closing.observedId ∨ event.recordId = closing.releaseId
  | .actionAdvanced advanced => advanced.actionId = closing.intent.actionId
  | _ => false

/-- The process has stopped after the first or the second of the three appends. -/
def Stopped (total : ℕ) (stored : World) : Prop :=
  stored.store.records.filter closing.owns = [.budgetEvent (closing.reconcile total)] ∨
    stored.store.records.filter closing.owns =
      [.budgetEvent (closing.reconcile total), .budgetEvent closing.release]

/-- The action has its receipt and has not been advanced, so a tick takes it up. -/
def Unadvanced (world : World) : Prop :=
  world.projection.actionRow? closing.intent.actionId = some ⟨closing.intent, some closing.receipt⟩ ∧
    Free ActionAdvanced.actionId closing.intent.actionId world.projection.advancements

/-- Run again, the method completes, and each of its records is there once. -/
def Rerun (thread : ℕ) (choice : Choice) (total : ℕ) (world : World) : Prop :=
  let result := machine.eval thread choice (markAdvanced closing.intent closing.receipt) world
  result.1 = some (.ok closing.advanced) ∧
    result.2.store.records.filter closing.owns = [.budgetEvent (closing.reconcile total),
      .budgetEvent closing.release, .actionAdvanced closing.advanced]

/-- The release is recorded and the tables pass their check; or the Sandbox has cost nothing, the
observed total is still what was reconciled, and the tables take the release in. -/
def CanRerun (total : ℕ) (world : World) : Prop :=
  if .budgetEvent closing.release ∈ world.store.records then
    world.projection.verifyInvariants = .ok ()
  else
    closing.cost = 0 ∧ world.projection.observedMicrousd closing.intent.campaignId = total ∧
      Recordable world (.budgetEvent closing.release)

end

section

variable [Digests] {closing : Closing} {stored crashed world world' : World} {total : ℕ} {thread : ℕ}
  {choice : Choice}

theorem observedId_ne_releaseId : closing.observedId ≠ closing.releaseId := by
  simp [observedId, releaseId, sandboxObservedId, sandboxReleaseId]

/-- That an action is done changes nothing that the tables are checked for. -/
theorem verifyInvariants_extend_advanced (P : Projection) (advanced : ActionAdvanced) :
    (P.extend (.actionAdvanced advanced)).verifyInvariants = P.verifyInvariants := by
  have hbudgets : (P.extend (.actionAdvanced advanced)).budgets = P.budgets := List.append_nil _
  have hattempts : (P.extend (.actionAdvanced advanced)).attempts = P.attempts := List.append_nil _
  have hendpoints : (P.extend (.actionAdvanced advanced)).endpoints = P.endpoints :=
    List.append_nil _
  have hpromotions : (P.extend (.actionAdvanced advanced)).promotions = P.promotions :=
    List.append_nil _
  have hprofiles : (P.extend (.actionAdvanced advanced)).profiles = P.profiles := List.append_nil _
  have hcampaigns : (P.extend (.actionAdvanced advanced)).campaigns = P.campaigns := rfl
  unfold verifyInvariants verifyPromotions verifyPromotion verifyBudgets budgetStates ledger
    initialStates attemptCampaigns observeAttempts attemptCost verifyEndpoints
  rw [hbudgets, hattempts, hendpoints, hpromotions, hprofiles, hcampaigns]

theorem Unadvanced.extend {event : BudgetEvent} (h : closing.Unadvanced world)
    (hprojection : world'.projection = world.projection.extend (.budgetEvent event)) :
    closing.Unadvanced world' := by
  unfold Unadvanced
  rw [hprojection]
  refine ⟨h.1, ?_⟩
  have hadvancements : (world.projection.extend (.budgetEvent event)).advancements =
      world.projection.advancements := List.append_nil _
  rw [hadvancements]
  exact h.2

omit [Digests] in
theorem actionAdvanced_of_key {record : Record} {advanced : ActionAdvanced}
    (h : record.key = (Record.actionAdvanced advanced).key) :
    ∃ other, record = .actionAdvanced other ∧ other.actionId = advanced.actionId := by
  cases record with
  | actionAdvanced other => exact ⟨other, rfl, (ObjectKey.actionAdvanced.inj h).2⟩
  | _ => cases h

/-- The last append of the method: it succeeds exactly if the tables pass their check. -/
theorem eval_advance {own : List Record} (h : world.Synced) (hunadvanced : closing.Unadvanced world)
    (hown : world.store.records.filter closing.owns = own)
    (hnone : ∀ advanced, .actionAdvanced advanced ∉ own) :
    let result := machine.eval thread choice (do
      let adopted ← appendAdopting .actionAdvanced asAdvanced closing.advanced fun recorded ↦
        decide ({ recorded with createdAt := closing.receipt.createdAt } = closing.advanced)
      return adopted.2) world
    (result.1 = some (.ok closing.advanced) ∧ result.2.store.records.filter closing.owns =
      own ++ [.actionAdvanced closing.advanced]) ↔ world.projection.verifyInvariants = .ok () := by
  have hrecordable : Recordable world (.actionAdvanced closing.advanced) ↔
      world.projection.verifyInvariants = .ok () := by
    rw [Recordable, verifyInvariants_extend_advanced]
    exact and_iff_right rfl
  have happend := append_fresh (.actionAdvanced closing.advanced) h rfl
    (fun existing hexisting hkey ↦ by
      obtain ⟨other, rfl, hid⟩ := actionAdvanced_of_key hkey
      exact hnone other (hown ▸ List.mem_filter.mpr ⟨hexisting, decide_eq_true hid⟩))
    ⟨⟨_, hunadvanced.1, rfl, rfl⟩, hunadvanced.2⟩
  dsimp only
  rw [← hrecordable, Machine.eval_bind]
  by_cases hadvances : Recordable world (.actionAdvanced closing.advanced)
  · rw [if_pos hadvances] at happend
    have howns : closing.owns (.actionAdvanced closing.advanced) = true := decide_eq_true rfl
    rw [eval_appendAdopting_ok happend]
    simp [World.afterAppend, List.filter_append, hown, howns, hadvances]
  · rw [if_neg hadvances] at happend
    obtain ⟨error, state, hne, happend⟩ := happend
    rw [eval_appendAdopting_error hne happend]
    simp [hadvances]

theorem markAdvanced_eq : markAdvanced closing.intent closing.receipt = (do
    withQueue .budget (finalizeSerialized closing.intent.campaignId closing.createActionId
      closing.receipt.createdAt closing.reservation closing.cost)
    let adopted ← appendAdopting .actionAdvanced asAdvanced closing.advanced fun recorded ↦
      decide ({ recorded with createdAt := closing.receipt.createdAt } = closing.advanced)
    return adopted.2) := by
  unfold markAdvanced settleSandbox
  rw [if_neg (by simp [closing.action, closing.campaign]), closing.finalizes]
  rfl

theorem eval_finalized (h : Ledgered world)
    (hrelease : budgetRow closing.release ∈ world.projection.budgets) :
    machine.eval thread choice (finalizeSerialized closing.intent.campaignId closing.createActionId
      closing.receipt.createdAt closing.reservation closing.cost) world = (some (.ok ()), world) := by
  have hbudget : (Query.budget closing.releaseId).answer world.projection =
      some (budgetRow closing.release) := h.budget_eq_some hrelease
  refine (eval_ask_then hbudget).trans ?_
  dsimp only
  rw [if_neg (by simp [budgetRow, release, budgetEvent])]
  rfl

/-- A finalization that has reconciled asks for the same event again only if the total it would
reconcile to has not changed. -/
theorem eval_unreleased {view : CampaignView} (h : Ledgered world)
    (hown : world.store.records.filter closing.owns = [.budgetEvent (closing.reconcile total)])
    (hvalid : validateControlRecord (.budgetEvent (closing.reconcile total)) = true)
    (hrow : budgetRow (closing.reconcile total) ∈ world.projection.budgets)
    (hview : world.projection.campaign closing.intent.campaignId = some view) :
    let program := finalizeSerialized closing.intent.campaignId closing.createActionId
      closing.receipt.createdAt closing.reservation closing.cost
    if closing.cost = 0 ∧ world.projection.observedMicrousd closing.intent.campaignId = total ∧
        Recordable world (.budgetEvent closing.release) then
      Free Record.key (Record.budgetEvent closing.release).key world.store.records ∧
        world.projection.Accepts (.budgetEvent closing.release) ∧
          machine.eval thread choice program world =
            (some (.ok ()), world.afterAppend (.budgetEvent closing.release))
    else ∃ error state, machine.eval thread choice program world = (some (.error error), state) := by
  have hmem : .budgetEvent (closing.reconcile total) ∈ world.store.records :=
    List.mem_of_mem_filter (hown ▸ List.mem_singleton_self _)
  have hnone : ∀ event, .budgetEvent event ∈ world.store.records →
      event.recordId ≠ closing.releaseId := by
    intro event hevent hid
    have howned : .budgetEvent event ∈ world.store.records.filter closing.owns :=
      List.mem_filter.mpr ⟨hevent, decide_eq_true (.inr hid)⟩
    rw [hown, List.mem_singleton] at howned
    cases howned
    exact observedId_ne_releaseId hid
  have hfresh : Free Record.key (Record.budgetEvent closing.release).key world.store.records := by
    intro existing hexisting hkey
    obtain ⟨other, rfl, hid⟩ := Reservation.budgetEvent_of_key hkey
    exact hnone other hexisting hid
  have hfree : world.projection.AcceptsKind (.budgetEvent closing.release) := by
    intro row hrow hid
    obtain ⟨event, hevent, rfl⟩ := h.stored row hrow
    exact hnone event hevent hid
  have hobserved : view.observedMicrousd =
      world.projection.observedMicrousd closing.intent.campaignId := by
    obtain ⟨row, -, hname, rfl⟩ := campaign_eq_some hview
    rw [← hname]
    rfl
  -- the reconciled total is part of the observed one
  have hbound : total ≤ world.projection.observedMicrousd closing.intent.campaignId :=
    (observedAmount_le_reconciledIn hrow).trans (le_max_right _ _)
  have heval : machine.eval thread choice (finalizeSerialized closing.intent.campaignId
      closing.createActionId closing.receipt.createdAt closing.reservation closing.cost) world =
    machine.eval thread choice (do
      let _ ← append (.budgetEvent (closing.reconcile (view.observedMicrousd + closing.cost)))
      let _ ← append (.budgetEvent closing.release)
      return ()) world := by
    have hbudget : (Query.budget closing.releaseId).answer world.projection = none :=
      h.budget_eq_none hnone
    have hcampaign : (Query.campaign closing.intent.campaignId).answer world.projection = some view :=
      hview
    exact (eval_ask_then hbudget).trans (eval_ask_then hcampaign)
  dsimp only
  rw [heval, Machine.eval_bind, eval_append]
  by_cases hsame : closing.cost = 0 ∧
      world.projection.observedMicrousd closing.intent.campaignId = total
  · have hamount : view.observedMicrousd + closing.cost = total := by omega
    rw [hamount, append_present h.synced hvalid rfl hmem]
    dsimp only
    rw [eval_append_return]
    have happend := append_fresh (.budgetEvent closing.release) h.synced rfl hfresh hfree
    by_cases hrecordable : Recordable world (.budgetEvent closing.release)
    · rw [if_pos hrecordable] at happend
      rw [if_pos ⟨hsame.1, hsame.2, hrecordable⟩, happend]
      exact ⟨hfresh, ⟨h.synced.free_objects hfresh, hfree⟩, rfl⟩
    · rw [if_neg hrecordable] at happend
      obtain ⟨error, state, -, happend⟩ := happend
      rw [if_neg fun hall ↦ hrecordable hall.2.2, happend]
      exact ⟨error, state, rfl⟩
  · rw [if_neg fun hall ↦ hsame ⟨hall.1, hall.2.1⟩]
    obtain ⟨error, happend⟩ := append_differs (.budgetEvent (closing.reconcile total))
      (.budgetEvent (closing.reconcile (view.observedMicrousd + closing.cost))) h.synced rfl hmem rfl (fun heq ↦ hsame (by
          have := congrArg BudgetEvent.amountMicrousd (Record.budgetEvent.inj heq)
          simp only [reconcile, budgetEvent] at this
          omega))
    rw [happend]
    exact ⟨error, world, rfl⟩

/-- A finalization that stopped after it had reconciled or released, run again after any other work,
completes with each record there once exactly if the release is recorded and the tables pass their
check, or the Sandbox has cost nothing, the observed total is still what was reconciled and the tables
take the release in. -/
theorem rerun_iff (hstopped : closing.Stopped total stored) (hrestart : stored.restart = some crashed)
    (hlater : machine.Later (Others closing.owns) crashed world)
    (hfree : ∀ other, (.budget, other) ∉ world.held) (hunadvanced : closing.Unadvanced world) :
    closing.Rerun thread choice total world ↔ closing.CanRerun total world := by
  obtain ⟨hworld, hspared⟩ := (ledgered_of_restart hrestart).later hlater
  have hstore := restart_store hrestart
  have hheld : Ledgered (world.hold .budget thread) := hworld.of_held _
  have hrow : ∀ event, .budgetEvent event ∈ stored.store.records →
      budgetRow event ∈ world.projection.budgets := fun event hevent ↦
    hspared.rows _ ((booked_of_restart hrestart).budgets_all event (hstore ▸ hevent))
  have hown : world.store.records.filter closing.owns = stored.store.records.filter closing.owns :=
    hspared.own.trans (by rw [hstore])
  obtain ⟨held, heval⟩ := eval_withFreeQueue (finalizeSerialized closing.intent.campaignId
    closing.createActionId closing.receipt.createdAt closing.reservation closing.cost) thread choice
    hfree
  unfold Rerun CanRerun
  rw [markAdvanced_eq, Machine.eval_bind, heval]
  rcases hstopped with hfirst | hboth
  · -- the release is not recorded yet
    rw [hfirst] at hown
    have hmem : .budgetEvent (closing.reconcile total) ∈ stored.store.records :=
      List.mem_of_mem_filter (hfirst ▸ List.mem_singleton_self _)
    have habsent : .budgetEvent closing.release ∉ world.store.records := by
      intro hrelease
      have howned : .budgetEvent closing.release ∈ world.store.records.filter closing.owns :=
        List.mem_filter.mpr ⟨hrelease, decide_eq_true (.inr rfl)⟩
      rw [hown, List.mem_singleton] at howned
      cases congrArg BudgetEvent.eventKind (Record.budgetEvent.inj howned)
    obtain ⟨view, hview⟩ := exists_campaign (closing.reconcile total) hrestart (hstore ▸ hmem)
      hworld hspared.records
    have hsettle := @eval_unreleased _ closing _ total thread choice view hheld hown
      (valid_of_restart hrestart hmem) (hrow _ hmem) hview
    rw [if_neg habsent]
    dsimp only at hsettle ⊢
    change if closing.cost = 0 ∧ world.projection.observedMicrousd closing.intent.campaignId = total ∧
      Recordable world (.budgetEvent closing.release) then _ else _ at hsettle
    by_cases hcan : closing.cost = 0 ∧
        world.projection.observedMicrousd closing.intent.campaignId = total ∧
          Recordable world (.budgetEvent closing.release)
    · rw [if_pos hcan] at hsettle
      obtain ⟨hfresh, haccepts, hsettle⟩ := hsettle
      rw [hsettle]
      have hprojection := World.afterAppend_projection haccepts
      have hsynced := hheld.synced.afterAppend hfresh
      have howns : closing.owns (.budgetEvent closing.release) = true := decide_eq_true (.inr rfl)
      have hadvance := @eval_advance _ closing { (world.hold .budget thread).afterAppend
          (.budgetEvent closing.release) with held := held } thread choice
        [.budgetEvent (closing.reconcile total), .budgetEvent closing.release]
        ⟨hsynced.keyed, hsynced.objects⟩ (hunadvanced.extend hprojection)
        (by simp [World.afterAppend, World.hold, List.filter_append, hown, howns]) (by simp)
      exact iff_of_true (hadvance.mpr ((congrArg verifyInvariants hprojection).trans hcan.2.2.2)) hcan
    · rw [if_neg hcan] at hsettle
      obtain ⟨error, state, hsettle⟩ := hsettle
      rw [hsettle]
      exact iff_of_false (fun hresult ↦ by cases hresult.1) hcan
  · rw [hboth] at hown
    have hmem : .budgetEvent closing.release ∈ stored.store.records :=
      List.mem_of_mem_filter (hboth ▸ List.mem_cons_of_mem _ (List.mem_singleton_self _))
    rw [if_pos (hspared.records _ (hstore ▸ hmem)), eval_finalized hheld (hrow _ hmem)]
    exact @eval_advance _ closing { world with held := held } thread choice _
      ⟨hheld.synced.keyed, hheld.synced.objects⟩ hunadvanced hown (by simp)

end

end Closing

/-! ### An attempt and a Sandbox between two tries

In a campaign with a ceiling of 100 an attempt has cost 10, nothing is reserved, and a Sandbox asks for
20. It catches up 10 and the process stops. If another attempt costs 5 before the Sandbox asks again,
5 are to be caught up under the identity of the 10. -/

section

local instance interruptedDigests : Digests := plainDigests

def secondLaunch : ActionIntent := sampleIntent .jobLaunch "m" { taskIds := some ["t"] }

def secondAttempt : AttemptInput := { sampleAttempt "b" 5 with actionId := "m" }

/-- The world of some stored records. -/
def bootedWorld (records : List Record) : World :=
  ⟨⟨records, [⟨"e", "d", 1, .notJson⟩], []⟩, { extendAll records {} with ready := true }, []⟩

/-- The state after the first operations of a method that runs alone. -/
def stoppedAfter (count : ℕ) (method : Act Unit) (world : World) : World :=
  (((Config.initial world).run machine ThreadRole.conflict
    (.spawn ThreadRole.api method :: List.replicate count (.run 0 {}))).map Config.state).getD world

def restarted (world : World) : World := world.restart.getD world

def overspentWorld : World :=
  (recordAttempt (bootedWorld [.actionIntent sampleLaunch, .actionIntent secondLaunch,
    .campaignLock sampleLock])).2

def secondTry : Reservation := ⟨"c", .sandbox "s", 2, 20⟩

def stoppedReservation : World :=
  stoppedAfter 4 (secondTry.method >>= fun _ ↦ pure ()) overspentWorld

def reservationAfterAttempt : World :=
  (machine.eval 0 {} (attemptWithStatus secondAttempt serviceActor)
    (restarted stoppedReservation)).2

theorem free_of_held {world : World} (h : world.held = []) :
    ∀ other, (Queue.budget, other) ∉ world.held := by
  simp [h]

theorem reservation_runs :
    (.budgetEvent (secondTry.catchUpEvent 10) ∈ stoppedReservation.store.records ∧
      stoppedReservation.store.records.filter secondTry.owns = []) ∧
    stoppedReservation.restart = some (restarted stoppedReservation) ∧
    ((restarted stoppedReservation).held = [] ∧
      ((restarted stoppedReservation).projection.campaign "c").map
        (fun view : CampaignView ↦ decide ((view.observedMicrousd : ℤ) ≤ view.reservedMicrousd)) =
          some true ∧
      Recordable (restarted stoppedReservation) (.budgetEvent secondTry.event)) ∧
    reservationAfterAttempt.held = [] ∧
      (machine.eval 0 {} secondTry.method reservationAfterAttempt).1 =
        some (.error (.immutableConflict (.budgetEvent "c" secondTry.overageId))) := by
  decide +kernel

theorem stopped_reservation : secondTry.Stopped 10 stoppedReservation :=
  ⟨reservation_runs.1.1, reservation_runs.1.2, nofun⟩

/-- Asked for again at once, the Sandbox is reserved. -/
theorem retried_sample : secondTry.Retried 0 {} (restarted stoppedReservation) := by
  obtain ⟨-, hrestart, ⟨hheld, hknown, hrecordable⟩, -⟩ := reservation_runs
  refine (Reservation.retried_iff stopped_reservation hrestart .refl (free_of_held hheld)).mpr
    fun view hview _ ↦ ?_
  rw [show (restarted stoppedReservation).projection.campaign "c" = some view from hview] at hknown
  exact ⟨.inl (of_decide_eq_true (Option.some.inj hknown)), hrecordable⟩

/-- After another attempt the Sandbox is refused with an immutable conflict. -/
theorem retried_conflict : secondTry.Stopped 10 stoppedReservation ∧
      stoppedReservation.restart = some (restarted stoppedReservation) ∧
        machine.Later (Others secondTry.owns) (restarted stoppedReservation)
          reservationAfterAttempt ∧ (∀ other, (.budget, other) ∉ reservationAfterAttempt.held) ∧
            (machine.eval 0 {} secondTry.method reservationAfterAttempt).1 =
              some (.error (.immutableConflict (.budgetEvent "c" secondTry.overageId))) := by
  obtain ⟨-, hrestart, -, hheld, hresult⟩ := reservation_runs
  refine ⟨stopped_reservation, hrestart, ?_, free_of_held hheld, hresult⟩
  have huses : (attemptWithStatus secondAttempt serviceActor).Uses
      (Local fun record ↦ secondTry.owns record = false) :=
    uses_attemptWithStatus (by simp [Reservation.owns])
  exact later_eval (huses.mono (Local.others fun _ h ↦ h))

/-! A Sandbox is closed at some cost, and the process stops before the release. -/

def closeReceipt (cost : ℕ) : ActionReceipt :=
  receiptRecord sampleClose
    { outcome := .completed, observedState := "DELETED", costMicrousd := some cost } 9

theorem finalization_closeReceipt (cost : ℕ) :
    finalization sampleClose (closeReceipt cost) = .ok (some ("s", 50, cost)) := by
  have hclosed : closedReceipt .completed "DELETED" = true := by decide
  unfold finalization
  rw [if_neg fun h ↦ absurd h.1 (by decide), if_pos ⟨rfl, hclosed⟩]
  rfl

def sampleClosing (cost : ℕ) : Closing :=
  ⟨sampleClose, closeReceipt cost, "s", 50, cost, rfl, rfl, finalization_closeReceipt cost⟩

def stoppedClosing (cost : ℕ) : World :=
  stoppedAfter 4 (markAdvanced sampleClose (closeReceipt cost) >>= fun _ ↦ pure ())
    (bootedWorld [.actionIntent sampleCreate, .actionIntent sampleClose,
      .actionReceipt (closeReceipt cost),
      .budgetEvent (budgetEvent "c" (sandboxReservationId "c" "s") .reserve 50 2),
      .campaignLock sampleLock])

theorem closing_runs : (∀ cost ∈ [0, 10], (sampleClosing cost).Stopped cost (stoppedClosing cost) ∧
      (stoppedClosing cost).restart = some (restarted (stoppedClosing cost)) ∧
        (restarted (stoppedClosing cost)).held = [] ∧
          (sampleClosing cost).Unadvanced (restarted (stoppedClosing cost))) ∧
    (machine.eval 0 {} (markAdvanced sampleClose (closeReceipt 10))
      (restarted (stoppedClosing 10))).1 =
        some (.error (.immutableConflict (.budgetEvent "c" (sampleClosing 10).observedId))) := by
  unfold Closing.Stopped Closing.Unadvanced Free
  decide +kernel

/-- The close of a Sandbox that cost nothing completes when it is run again. -/
theorem rerun_sample : (sampleClosing 0).Rerun 0 {} 0 (restarted (stoppedClosing 0)) := by
  obtain ⟨hstopped, hrestart, hheld, hunadvanced⟩ := closing_runs.1 0 (by simp)
  refine (Closing.rerun_iff hstopped hrestart .refl (free_of_held hheld) hunadvanced).mpr ?_
  unfold Closing.CanRerun
  decide +kernel

/-- The close of a Sandbox that cost something is refused, with no other work in between. -/
theorem rerun_conflict : (sampleClosing 10).Stopped 10 (stoppedClosing 10) ∧
      (stoppedClosing 10).restart = some (restarted (stoppedClosing 10)) ∧
        (sampleClosing 10).Unadvanced (restarted (stoppedClosing 10)) ∧
          (machine.eval 0 {} (markAdvanced sampleClose (closeReceipt 10))
            (restarted (stoppedClosing 10))).1 =
              some (.error (.immutableConflict (.budgetEvent "c" (sampleClosing 10).observedId))) := by
  obtain ⟨hruns, hresult⟩ := closing_runs
  obtain ⟨hstopped, hrestart, -, hunadvanced⟩ := hruns 10 (by simp)
  exact ⟨hstopped, hrestart, hunadvanced, hresult⟩

end

end HarborHF.Control
