import HarborHF.Control.Rules

/-!
# The accounts of the ledger

What the tables hold of the ledger, said in terms of the stored records. `CeilingIn` is the ceiling
the records give a campaign, whatever the order they are read in. `Accounts` says that the campaign
rows carry these ceilings and that the budget and attempt rows are the stored ones: an attempt is in
its table, and a budget event is, unless two stored events share an identity. It holds after every
restart (`accounts_of_restart`) and is kept by every append of the budget methods
(`Accounts.append_budget`, `Accounts.append_attempt`, `Accounts.append_other`).
-/

set_option autoImplicit false

namespace HarborHF.Control

open Relational Projection

/-! ### Ceilings -/

/-- The ceiling that records give a campaign: that of its lock, or else that of its request. -/
def CeilingIn (records : List Record) (campaignId : String) (ceiling : ℕ) : Prop :=
  (∃ lock, .campaignLock lock ∈ records ∧ lock.campaignId = campaignId ∧
    lock.ceilingMicrousd = ceiling) ∨
  ((∀ lock, .campaignLock lock ∈ records → lock.campaignId ≠ campaignId) ∧
    ∃ request, .campaignRequest request ∈ records ∧ request.campaignId = campaignId ∧
      request.ceilingMicrousd = ceiling)

theorem CeilingIn.congr {records records' : List Record} {campaignId : String} {ceiling : ℕ}
    (h : CeilingIn records campaignId ceiling) (hmem : ∀ record, record ∈ records ↔ record ∈ records') :
    CeilingIn records' campaignId ceiling := by
  simpa only [CeilingIn, hmem] using h

theorem CeilingIn.unique {records : List Record} {campaignId : String} {first second : ℕ}
    (hkeyed : Keyed Record.key records) (hfirst : CeilingIn records campaignId first)
    (hsecond : CeilingIn records campaignId second) : first = second := by
  rcases hfirst with ⟨lock, hlock, rfl, rfl⟩ | ⟨hnone, request, hrequest, rfl, rfl⟩
  · rcases hsecond with ⟨lock', hlock', hname, rfl⟩ | ⟨hnone', -⟩
    · have heq := hkeyed.eq_of_mem hlock hlock' (by rw [Record.key, Record.key, hname])
      cases heq
      rfl
    · exact absurd rfl (hnone' lock hlock)
  · rcases hsecond with ⟨lock', hlock', hname, rfl⟩ | ⟨-, request', hrequest', hname, rfl⟩
    · exact absurd hname (hnone lock' hlock')
    · have heq := hkeyed.eq_of_mem hrequest hrequest' (by rw [Record.key, Record.key, hname])
      cases heq
      rfl

/-- The campaign rows are those of the records, with their ceilings. -/
structure CampaignsOf (records : List Record) (rows : List CampaignRow) : Prop where
  keyed : Keyed CampaignRow.campaignId rows
  ceiling : ∀ row ∈ rows, CeilingIn records row.campaignId row.ceilingMicrousd
  complete : ∀ campaignId ceiling, CeilingIn records campaignId ceiling →
    ∃ row ∈ rows, row.campaignId = campaignId

theorem campaignsOf_nil : CampaignsOf [] [] := by
  refine ⟨List.nodup_nil, fun row hrow ↦ absurd hrow List.not_mem_nil, ?_⟩
  rintro campaignId ceiling (⟨lock, hlock, -⟩ | ⟨-, request, hrequest, -⟩)
  · exact absurd hlock List.not_mem_nil
  · exact absurd hrequest List.not_mem_nil

section

variable {records : List Record} {rows : List CampaignRow}

theorem ceilingIn_append_other {record : Record} (hlock : ∀ lock, record ≠ .campaignLock lock)
    (hrequest : ∀ request, record ≠ .campaignRequest request) (campaignId : String) (ceiling : ℕ) :
    CeilingIn (records ++ [record]) campaignId ceiling ↔ CeilingIn records campaignId ceiling := by
  have hlocks : ∀ lock, .campaignLock lock ∈ records ++ [record] ↔ .campaignLock lock ∈ records := by
    intro lock
    simp [Ne.symm (hlock lock)]
  have hrequests : ∀ request,
      .campaignRequest request ∈ records ++ [record] ↔ .campaignRequest request ∈ records := by
    intro request
    simp [Ne.symm (hrequest request)]
  simp only [CeilingIn, hlocks, hrequests]

/-- A fresh lock gives its campaign its ceiling and no other campaign another. -/
theorem ceilingIn_append_lock {lock : CampaignLock} {campaignId : String} {ceiling : ℕ}
    (hfresh : Free Record.key (.campaignLock lock.campaignId) records) :
    CeilingIn (records ++ [.campaignLock lock]) campaignId ceiling ↔
      if campaignId = lock.campaignId then ceiling = lock.ceilingMicrousd
      else CeilingIn records campaignId ceiling := by
  have hnone : ∀ other, .campaignLock other ∈ records → other.campaignId ≠ lock.campaignId := by
    intro other hother hname
    exact hfresh _ hother (by rw [Record.key, hname])
  split_ifs with hname
  · subst hname
    constructor
    · rintro (⟨other, hother, hcampaign, rfl⟩ | ⟨hnever, -⟩)
      · rcases List.mem_append.mp hother with hold | hnew
        · exact absurd hcampaign (hnone other hold)
        · cases List.mem_singleton.mp hnew
          rfl
      · exact absurd rfl (hnever lock (by simp))
    · rintro rfl
      exact .inl ⟨lock, by simp, rfl, rfl⟩
  · have hlocks : ∀ other, (.campaignLock other ∈ records ++ [.campaignLock lock] ∧
        other.campaignId = campaignId) ↔ .campaignLock other ∈ records ∧
          other.campaignId = campaignId := by
      intro other
      simp only [List.mem_append, List.mem_singleton, Record.campaignLock.injEq]
      constructor
      · rintro ⟨hold | rfl, hcampaign⟩
        · exact ⟨hold, hcampaign⟩
        · exact absurd hcampaign.symm hname
      · exact fun h ↦ ⟨.inl h.1, h.2⟩
    have hrequests : ∀ request, .campaignRequest request ∈ records ++ [.campaignLock lock] ↔
        .campaignRequest request ∈ records := by
      intro request
      simp
    unfold CeilingIn
    refine or_congr ?_ (and_congr ?_ ?_)
    · exact exists_congr fun other ↦ by rw [← and_assoc, hlocks, and_assoc]
    · constructor
      · exact fun h other hother hcampaign ↦ h other (by simp [hother]) hcampaign
      · exact fun h other hother hcampaign ↦
          h other ((hlocks other).mp ⟨hother, hcampaign⟩).1 hcampaign
    · simp only [hrequests]

/-- A fresh request gives its campaign a ceiling when it has no lock. -/
theorem ceilingIn_append_request {request : CampaignRequest} {campaignId : String} {ceiling : ℕ}
    (hfresh : Free Record.key (.campaignRequest request.campaignId) records) :
    CeilingIn (records ++ [.campaignRequest request]) campaignId ceiling ↔
      CeilingIn records campaignId ceiling ∨
        (campaignId = request.campaignId ∧ ceiling = request.ceilingMicrousd ∧
          ∀ lock, .campaignLock lock ∈ records → lock.campaignId ≠ campaignId) := by
  have hlocks : ∀ lock, .campaignLock lock ∈ records ++ [.campaignRequest request] ↔
      .campaignLock lock ∈ records := by
    intro lock
    simp
  simp only [CeilingIn, hlocks, List.mem_append, List.mem_singleton, Record.campaignRequest.injEq]
  constructor
  · rintro (h | ⟨hnone, other, hold | rfl, hname, hceiling⟩)
    · exact .inl (.inl h)
    · exact .inl (.inr ⟨hnone, other, hold, hname, hceiling⟩)
    · exact .inr ⟨hname.symm, hceiling.symm, hnone⟩
  · rintro ((h | ⟨hnone, other, hold, hname, hceiling⟩) | ⟨rfl, rfl, hnone⟩)
    · exact .inl h
    · exact .inr ⟨hnone, other, .inl hold, hname, hceiling⟩
    · exact .inr ⟨hnone, request, .inr rfl, rfl, rfl⟩

theorem keyed_map {change : CampaignRow → CampaignRow}
    (hname : ∀ row, (change row).campaignId = row.campaignId)
    (hkeyed : Keyed CampaignRow.campaignId rows) :
    Keyed CampaignRow.campaignId (rows.map change) := by
  have hcomp : CampaignRow.campaignId ∘ change = CampaignRow.campaignId := funext hname
  unfold Keyed at hkeyed ⊢
  rwa [List.map_map, hcomp]

theorem CampaignsOf.append_lock {lock : CampaignLock} (h : CampaignsOf records rows)
    (hfresh : Free Record.key (.campaignLock lock.campaignId) records) :
    CampaignsOf (records ++ [.campaignLock lock]) (lockCampaign lock rows) := by
  unfold lockCampaign
  cases hlookup : lookup CampaignRow.campaignId lock.campaignId rows with
  | none =>
    have hfree := lookup_eq_none.mp hlookup
    refine ⟨h.keyed.insertRow (insertRow_eq_some.mpr ⟨hfree, rfl⟩), ?_, ?_⟩
    · intro row hrow
      rw [ceilingIn_append_lock hfresh]
      rcases List.mem_append.mp hrow with hold | hnew
      · rw [if_neg (hfree row hold)]
        exact h.ceiling row hold
      · rw [List.mem_singleton.mp hnew]
        exact (if_pos rfl).mpr rfl
    · intro campaignId ceiling hceiling
      rw [ceilingIn_append_lock hfresh] at hceiling
      split_ifs at hceiling with hname
      · exact ⟨_, List.mem_append_right rows List.mem_cons_self, hname.symm⟩
      · obtain ⟨row, hrow, hcampaign⟩ := h.complete campaignId ceiling hceiling
        exact ⟨row, List.mem_append_left _ hrow, hcampaign⟩
  | some found =>
    obtain ⟨hfound, hname⟩ := lookup_mem hlookup
    refine ⟨keyed_map (fun row ↦ by split_ifs <;> rfl) h.keyed, ?_, ?_⟩
    · intro row hrow
      obtain ⟨old, hold, rfl⟩ := List.mem_map.mp hrow
      rw [ceilingIn_append_lock hfresh]
      by_cases hcampaign : old.campaignId = lock.campaignId
      · simp only [if_pos hcampaign]
      · simp only [if_neg hcampaign]
        exact h.ceiling old hold
    · intro campaignId ceiling hceiling
      rw [ceilingIn_append_lock hfresh] at hceiling
      have hrow : ∃ row ∈ rows, row.campaignId = campaignId := by
        split_ifs at hceiling with hcampaign
        · exact ⟨found, hfound, hname.trans hcampaign.symm⟩
        · exact h.complete campaignId ceiling hceiling
      obtain ⟨row, hrow, hcampaign⟩ := hrow
      refine ⟨_, List.mem_map_of_mem hrow, ?_⟩
      split_ifs <;> exact hcampaign

theorem CampaignsOf.append_request {request : CampaignRequest} (h : CampaignsOf records rows)
    (hfresh : Free Record.key (.campaignRequest request.campaignId) records) :
    CampaignsOf (records ++ [.campaignRequest request]) (requestCampaign request rows) := by
  unfold requestCampaign
  cases hlookup : lookup CampaignRow.campaignId request.campaignId rows with
  | none =>
    have hfree := lookup_eq_none.mp hlookup
    -- a lock of the campaign would have a row
    have hnone : ∀ lock, .campaignLock lock ∈ records → lock.campaignId ≠ request.campaignId := by
      intro lock hlock hname
      obtain ⟨row, hrow, hcampaign⟩ :=
        h.complete request.campaignId lock.ceilingMicrousd (.inl ⟨lock, hlock, hname, rfl⟩)
      exact hfree row hrow hcampaign
    refine ⟨h.keyed.insertRow (insertRow_eq_some.mpr ⟨hfree, rfl⟩), ?_, ?_⟩
    · intro row hrow
      rw [ceilingIn_append_request hfresh]
      rcases List.mem_append.mp hrow with hold | hnew
      · exact .inl (h.ceiling row hold)
      · rw [List.mem_singleton.mp hnew]
        exact .inr ⟨rfl, rfl, hnone⟩
    · intro campaignId ceiling hceiling
      rcases (ceilingIn_append_request hfresh).mp hceiling with hold | ⟨hname, -⟩
      · obtain ⟨row, hrow, hcampaign⟩ := h.complete campaignId ceiling hold
        exact ⟨row, List.mem_append_left _ hrow, hcampaign⟩
      · exact ⟨_, List.mem_append_right rows List.mem_cons_self, hname.symm⟩
  | some found =>
    obtain ⟨hfound, hname⟩ := lookup_mem hlookup
    refine ⟨keyed_map (fun row ↦ by split_ifs <;> rfl) h.keyed, ?_, ?_⟩
    · intro row hrow
      obtain ⟨old, hold, rfl⟩ := List.mem_map.mp hrow
      rw [ceilingIn_append_request hfresh]
      refine .inl ?_
      split_ifs <;> exact h.ceiling old hold
    · intro campaignId ceiling hceiling
      have hrow : ∃ row ∈ rows, row.campaignId = campaignId := by
        rcases (ceilingIn_append_request hfresh).mp hceiling with hold | ⟨hcampaign, -⟩
        · exact h.complete campaignId ceiling hold
        · exact ⟨found, hfound, hname.trans hcampaign.symm⟩
      obtain ⟨row, hrow, hcampaign⟩ := hrow
      refine ⟨_, List.mem_map_of_mem hrow, ?_⟩
      split_ifs <;> exact hcampaign

/-- A fresh record keeps the campaign rows those of the records. -/
theorem CampaignsOf.append {P : Projection} {record : Record} (h : CampaignsOf records P.campaigns)
    (hfresh : Free Record.key record.key records) :
    CampaignsOf (records ++ [record]) (P.extendCampaigns record) := by
  have hother : (∀ lock, record ≠ .campaignLock lock) →
      (∀ request, record ≠ .campaignRequest request) →
        P.extendCampaigns record = P.campaigns →
          CampaignsOf (records ++ [record]) (P.extendCampaigns record) := by
    intro hlock hrequest hsame
    rw [hsame]
    refine ⟨h.keyed, fun row hrow ↦ ?_, fun campaignId ceiling hceiling ↦ ?_⟩
    · exact (ceilingIn_append_other hlock hrequest _ _).mpr (h.ceiling row hrow)
    · exact h.complete campaignId ceiling
        ((ceilingIn_append_other hlock hrequest _ _).mp hceiling)
  cases record with
  | campaignLock lock => exact h.append_lock hfresh
  | campaignRequest request => exact h.append_request hfresh
  | _ => exact hother (fun _ heq ↦ by cases heq) (fun _ heq ↦ by cases heq) rfl

theorem campaignsOf_extendAll [Digests] {P : Projection} {added : List Record}
    (h : CampaignsOf P.objects P.campaigns) (haccepts : AcceptsAll added P) :
    CampaignsOf (P.objects ++ added) (P.extendAll added).campaigns := by
  induction added generalizing P with
  | nil => simpa using h
  | cons record rest ih =>
    have hstep := h.append haccepts.1.1
    have hrest := ih (P := P.extend record) hstep haccepts.2
    simpa [extend] using hrest

end

/-! ### Accounts -/

/-- The ledger rows are those of the stored records. -/
structure Accounts (world : World) : Prop where
  synced : world.Synced
  campaigns : CampaignsOf world.store.records world.projection.campaigns
  keyedBudgets : Keyed BudgetRow.recordId world.projection.budgets
  budgets_stored : ∀ row ∈ world.projection.budgets,
    ∃ event, .budgetEvent event ∈ world.store.records ∧ budgetRow event = row
  budgets_complete : ∀ event, .budgetEvent event ∈ world.store.records →
    budgetRow event ∈ world.projection.budgets ∨
      ∃ other, .budgetEvent other ∈ world.store.records ∧ other ≠ event ∧
        other.recordId = event.recordId
  keyedAttempts : Keyed AttemptReceipt.attemptId world.projection.attempts
  attempts_stored : ∀ attempt ∈ world.projection.attempts,
    .attemptReceipt attempt ∈ world.store.records
  attempts_complete : ∀ attempt, .attemptReceipt attempt ∈ world.store.records →
    attempt ∈ world.projection.attempts

theorem Accounts.of_unchanged {world world' : World} (h : Accounts world)
    (hsame : World.Unchanged world world') : Accounts world' := by
  obtain ⟨⟨records, evidence, results⟩, tables, held⟩ := world'
  obtain ⟨hrecords, ⟨ready, hprojection⟩, -⟩ := hsame
  simp only at hrecords hprojection
  subst hrecords hprojection
  exact ⟨⟨h.synced.keyed, h.synced.objects⟩, h.campaigns, h.keyedBudgets, h.budgets_stored,
    h.budgets_complete, h.keyedAttempts, h.attempts_stored, h.attempts_complete⟩

theorem Accounts.of_held {world : World} (h : Accounts world) (held : List (Queue × ℕ)) :
    Accounts { world with held := held } :=
  ⟨⟨h.synced.keyed, h.synced.objects⟩, h.campaigns, h.keyedBudgets, h.budgets_stored,
    h.budgets_complete, h.keyedAttempts, h.attempts_stored, h.attempts_complete⟩

section

variable [Digests] {world world' : World} {record : Record}

/-- The tables that were read back from the store hold the accounts of its records. -/
theorem accounts_of_restart (h : world.restart = some world') : Accounts world' := by
  have hsynced := World.synced_of_restart h
  obtain ⟨-, haccepts, -, rfl⟩ := World.restart_eq_some.mp h
  have hmem : ∀ record, record ∈ world.store.records.insertionSort PathOrder ↔
      record ∈ world.store.records := fun record ↦ List.mem_insertionSort _
  have hcampaigns := campaignsOf_extendAll campaignsOf_nil haccepts
  have hbudgets : world.rebuilt.budgets =
      (world.store.records.insertionSort PathOrder).filterMap budgetRowOf := extendAll_budgets _ _
  have hattempts : world.rebuilt.attempts =
      (world.store.records.insertionSort PathOrder).filterMap attemptOf := extendAll_attempts _ _
  refine ⟨hsynced, ⟨hcampaigns.keyed, ?_, ?_⟩, keyed_budgets haccepts, ?_, ?_,
    keyed_attempts haccepts, ?_, ?_⟩
  · exact fun row hrow ↦ (hcampaigns.ceiling row hrow).congr hmem
  · intro campaignId ceiling hceiling
    exact hcampaigns.complete campaignId ceiling (hceiling.congr fun record ↦ (hmem record).symm)
  · intro row hrow
    change row ∈ world.rebuilt.budgets at hrow
    rw [hbudgets, mem_filterMap_budgetRowOf] at hrow
    obtain ⟨event, hevent, hrow⟩ := hrow
    exact ⟨event, (hmem _).mp hevent, hrow⟩
  · intro event hevent
    refine .inl ?_
    change _ ∈ world.rebuilt.budgets
    rw [hbudgets, mem_filterMap_budgetRowOf]
    exact ⟨event, (hmem _).mpr hevent, rfl⟩
  · intro attempt hattempt
    change attempt ∈ world.rebuilt.attempts at hattempt
    rw [hattempts, mem_filterMap_attemptOf] at hattempt
    exact (hmem _).mp hattempt
  · intro attempt hattempt
    change attempt ∈ world.rebuilt.attempts
    rw [hattempts, mem_filterMap_attemptOf]
    exact (hmem _).mpr hattempt

/-- The ledger after a fresh record: its own event is added, unless it is refused because another
event has its identity. -/
theorem budgets_afterAppend (hsynced : world.Synced)
    (hfresh : Free Record.key record.key world.store.records) :
    (world.afterAppend record).projection.budgets =
        world.projection.budgets ++ (budgetRowOf record).toList ∨
      ((world.afterAppend record).projection.budgets = world.projection.budgets ∧
        ∃ event, record = .budgetEvent event ∧
          ∃ row ∈ world.projection.budgets, row.recordId = event.recordId) := by
  have hfree := hsynced.free_objects hfresh
  rcases World.apply_cases hfree with ⟨-, happly⟩ | ⟨hrefused, added, -, happly⟩
  · exact .inl (congrArg Projection.budgets happly)
  · have hsame : (world.afterAppend record).projection.budgets = world.projection.budgets := by
      simp only [World.afterAppend, happly]
    cases record with
    | budgetEvent event =>
      have hnot : ¬ Free BudgetRow.recordId event.recordId world.projection.budgets :=
        fun h ↦ hrefused ⟨hfree, h⟩
      simp only [Free, not_forall, not_not] at hnot
      obtain ⟨row, hrow, hid⟩ := hnot
      exact .inr ⟨hsame, event, rfl, row, hrow, hid⟩
    | _ => exact .inl (by rw [hsame]; simp)

/-- The identities of the ledger stay different. -/
theorem keyedBudgets_afterAppend (hsynced : world.Synced)
    (hfresh : Free Record.key record.key world.store.records)
    (h : Keyed BudgetRow.recordId world.projection.budgets) :
    Keyed BudgetRow.recordId (world.afterAppend record).projection.budgets := by
  rcases World.apply_cases (hsynced.free_objects hfresh) with
    ⟨haccepted, happly⟩ | ⟨-, added, -, happly⟩
  · have hbudgets : (world.afterAppend record).projection.budgets =
        world.projection.budgets ++ (budgetRowOf record).toList :=
      congrArg Projection.budgets happly
    rw [hbudgets]
    cases record with
    | budgetEvent event =>
      have hfree : Free BudgetRow.recordId event.recordId world.projection.budgets := haccepted.2
      exact h.insertRow (insertRow_eq_some.mpr ⟨fun other hother ↦ hfree other hother, rfl⟩)
    | _ => simpa using h
  · have hbudgets : (world.afterAppend record).projection.budgets = world.projection.budgets := by
      simp only [World.afterAppend, happly]
    rw [hbudgets]
    exact h

/-- The ledger has events of stored records only. -/
theorem storedBudgets_afterAppend (hsynced : world.Synced)
    (hfresh : Free Record.key record.key world.store.records) (h : ∀ row ∈ world.projection.budgets,
      ∃ event, .budgetEvent event ∈ world.store.records ∧ budgetRow event = row) :
    ∀ row ∈ (world.afterAppend record).projection.budgets,
      ∃ event, .budgetEvent event ∈ (world.afterAppend record).store.records ∧
        budgetRow event = row := by
  intro row hrow
  have hold : row ∈ world.projection.budgets →
      ∃ event, .budgetEvent event ∈ (world.afterAppend record).store.records ∧
        budgetRow event = row := by
    intro hrow
    obtain ⟨event, hevent, hrow⟩ := h row hrow
    exact ⟨event, List.mem_append_left _ hevent, hrow⟩
  rcases budgets_afterAppend hsynced hfresh with hbudgets | ⟨hbudgets, -⟩ <;>
    rw [hbudgets] at hrow
  · rcases List.mem_append.mp hrow with hrow | hrow
    · exact hold hrow
    · cases record with
      | budgetEvent event =>
        exact ⟨event, List.mem_append_right _ (List.mem_singleton_self _), by simpa [eq_comm] using hrow⟩
      | _ => simp at hrow
  · exact hold hrow

/-- The attempts after a fresh record that is accepted if it is an attempt. -/
theorem attempts_afterAppend (hsynced : world.Synced)
    (hfresh : Free Record.key record.key world.store.records)
    (haccepts : ∀ attempt, record = .attemptReceipt attempt → world.projection.Accepts record) :
    (world.afterAppend record).projection.attempts =
      world.projection.attempts ++ (attemptOf record).toList := by
  have hfree := hsynced.free_objects hfresh
  rcases World.apply_cases hfree with ⟨-, happly⟩ | ⟨hrefused, added, -, happly⟩
  · exact congrArg Projection.attempts happly
  · have hsame : (world.afterAppend record).projection.attempts = world.projection.attempts := by
      simp only [World.afterAppend, happly]
    cases record with
    | attemptReceipt attempt => exact absurd (haccepts attempt rfl) hrefused
    | _ => rw [hsame]; simp

theorem campaigns_afterAppend (hsynced : world.Synced)
    (hfresh : Free Record.key record.key world.store.records) :
    (world.afterAppend record).projection.campaigns =
      world.projection.extendCampaigns record := by
  rcases World.apply_cases (hsynced.free_objects hfresh) with ⟨-, happly⟩ | ⟨-, added, -, happly⟩
  · exact congrArg Projection.campaigns happly
  · exact congrArg Projection.campaigns happly

/-- A fresh record keeps the accounts, if an attempt is accepted. -/
theorem Accounts.append (h : Accounts world)
    (hfresh : Free Record.key record.key world.store.records)
    (haccepts : ∀ attempt, record = .attemptReceipt attempt → world.projection.Accepts record) :
    Accounts (world.afterAppend record) := by
  have hattempts := attempts_afterAppend h.synced hfresh haccepts
  have hstored : ∀ other, other ∈ (world.afterAppend record).store.records ↔
      other ∈ world.store.records ∨ other = record := by
    intro other
    simp [World.afterAppend]
  refine ⟨h.synced.afterAppend hfresh, ?_, ?_, ?_, ?_, ?_, ?_, ?_⟩
  · rw [campaigns_afterAppend h.synced hfresh]
    exact h.campaigns.append hfresh
  · exact keyedBudgets_afterAppend h.synced hfresh h.keyedBudgets
  · exact storedBudgets_afterAppend h.synced hfresh h.budgets_stored
  · intro event hevent
    rcases (hstored _).mp hevent with hevent | hevent
    · rcases h.budgets_complete event hevent with hrow | ⟨other, hother, hne, hid⟩
      · refine .inl ?_
        rcases budgets_afterAppend h.synced hfresh with hbudgets | ⟨hbudgets, -⟩ <;> rw [hbudgets]
        · exact List.mem_append_left _ hrow
        · exact hrow
      · exact .inr ⟨other, (hstored _).mpr (.inl hother), hne, hid⟩
    · rcases budgets_afterAppend h.synced hfresh with hbudgets | ⟨hbudgets, event', hevent', row, hrow, hid⟩
      · refine .inl ?_
        rw [hbudgets, ← hevent]
        simp
      · obtain ⟨other, hother, rfl⟩ := h.budgets_stored row hrow
        rw [hevent'] at hevent
        cases hevent
        refine .inr ⟨other, (hstored _).mpr (.inl hother), ?_, hid⟩
        rintro rfl
        exact hfresh _ hother (by rw [hevent'])
  · rw [hattempts]
    cases record with
    | attemptReceipt attempt =>
      exact h.keyedAttempts.insertRow
        (insertRow_eq_some.mpr ⟨(haccepts attempt rfl).2.2.2, rfl⟩)
    | _ => simpa using h.keyedAttempts
  · intro attempt hattempt
    rw [hattempts] at hattempt
    rcases List.mem_append.mp hattempt with hold | hnew
    · exact (hstored _).mpr (.inl (h.attempts_stored attempt hold))
    · cases record with
      | attemptReceipt record =>
        refine (hstored _).mpr (.inr ?_)
        simpa using hnew
      | _ => simp at hnew
  · intro attempt hattempt
    rw [hattempts]
    rcases (hstored _).mp hattempt with hold | rfl
    · exact List.mem_append_left _ (h.attempts_complete attempt hold)
    · simp

/-! ### Complete books -/

/-- The accounts of the records, with every stored event in the ledger: so it is after a restart, and
as long as no append fails. -/
structure Booked (world : World) : Prop extends Accounts world where
  budgets_all : ∀ event, .budgetEvent event ∈ world.store.records →
    budgetRow event ∈ world.projection.budgets

theorem booked_of_restart (h : world.restart = some world') : Booked world' := by
  have haccounts := accounts_of_restart h
  obtain ⟨-, -, -, rfl⟩ := World.restart_eq_some.mp h
  refine ⟨haccounts, fun event hevent ↦ ?_⟩
  change _ ∈ (extendAll (world.store.records.insertionSort PathOrder) {}).budgets
  rw [extendAll_budgets]
  exact mem_filterMap_budgetRowOf.mpr ⟨event, (List.mem_insertionSort _).mpr hevent, rfl⟩

omit [Digests] in
theorem Booked.of_held (h : Booked world) (held : List (Queue × ℕ)) :
    Booked { world with held := held } := ⟨h.toAccounts.of_held held, h.budgets_all⟩

theorem Booked.append_ok (h : Booked world) {created : Bool}
    (happend : world.append record = (.ok created, world')) : Booked world' := by
  rcases World.append_ok h.synced happend with ⟨-, rfl⟩ | ⟨hfresh, haccepts, -, rfl⟩
  · exact h
  refine ⟨h.toAccounts.append hfresh fun _ _ ↦ haccepts, fun event hevent ↦ ?_⟩
  rw [World.afterAppend_projection haccepts]
  rcases List.mem_append.mp hevent with hold | hnew
  · exact List.mem_append_left _ (h.budgets_all event hold)
  · rw [← List.mem_singleton.mp hnew]
    exact List.mem_append_right _ List.mem_cons_self

end

end HarborHF.Control
