import HarborHF.Control.Accounts
import HarborHF.Control.Encoding
import HarborHF.Control.Reconciler

/-!
# Campaigns under their ceilings

The programs of this module touch the ledger only through the budget methods of the service
(`LedgerClient`): attempts, replacement and Sandbox reservations, the finalization of Sandboxes, and
the initial reservations of the reconciler. Whatever they do in between and however many of them
interleave, the totals of every campaign stay under its ceiling, provided that two kinds of appends
which the code does not check are within it (`Disciplined`): the total a finalization reconciles to,
and an initial reservation, which also has to wait for the budget queue.

The proof is by rely and guarantee. The thread that holds the budget queue relies on the ledger not
changing under it (`LedgerSteady`), so what it checked is still so when it appends.
-/

set_option autoImplicit false

namespace HarborHF.Control

open Async Program Relational Projection

/-! ### Clients of the ledger -/

/-- A record that is no part of the ledger and gives no ceiling. -/
def QuietRecord : Record → Prop
  | .budgetEvent _ => False
  | .attemptReceipt _ => False
  | .campaignLock _ => False
  | .campaignRequest _ => False
  | _ => True

/-- An operation that touches neither the ledger, nor the campaigns, nor the budget queue. -/
def Quiet : Op → Prop
  | .append record => QuietRecord record
  | .remoteAppend _ => False
  | .acquire queue => queue ≠ .budget
  | .release queue => queue ≠ .budget
  | _ => True

section

variable [Digests]

/-- A program that touches the ledger only through the budget methods. -/
inductive LedgerClient : {α : Type} → Act α → Prop
  | ret {α : Type} (value : α) : LedgerClient (.ret value)
  | throw {α : Type} (error : ServiceError) : LedgerClient (.throw error : Act α)
  | await {α : Type} (op : Op) {resume : op.Ans → Act α} (hquiet : Quiet op)
      (hresume : ∀ answer, LedgerClient (resume answer)) :
      LedgerClient (.await op resume : Act α)
  | bind {α β : Type} {program : Act α} {next : α → Act β} (hprogram : LedgerClient program)
      (hnext : ∀ value, LedgerClient (next value)) : LedgerClient (program >>= next)
  | catch {α : Type} {program : Act α} (hprogram : LedgerClient program) :
      LedgerClient (program.attempt : Act (Except ServiceError α))
  | attempt (input : AttemptInput) (actor : Actor) : LedgerClient (attemptWithStatus input actor)
  | reserveReplacement (campaignId priorAttemptId : String) (completedAt amount : ℕ) :
      LedgerClient (reserveReplacement campaignId priorAttemptId completedAt amount)
  | reserveSandbox (campaignId createActionId : String) (createdAt amount : ℕ) :
      LedgerClient (reserveSandbox campaignId createActionId createdAt amount)
  | finalizeSandbox (campaignId createActionId : String) (completedAt reservation observed : ℕ) :
      LedgerClient
        (finalizeSandboxBudget campaignId createActionId completedAt reservation observed)
  | reserveInitial (campaignId category : String) (generation amount createdAt : ℕ) :
      LedgerClient (reserveInitialAction campaignId category generation amount createdAt)

namespace LedgerClient

theorem ask {question : Query} : LedgerClient (ask question) :=
  .await (.query question) trivial fun _ ↦ .ret _

theorem now : LedgerClient now := .await .now trivial fun _ ↦ .ret _

theorem ofExcept {α : Type} (outcome : Except ServiceError α) :
    LedgerClient (ofExcept outcome : Act α) := by
  cases outcome with
  | ok value => exact .ret value
  | error error => exact .throw error

theorem append {record : Record} (hquiet : QuietRecord record) : LedgerClient (append record) :=
  .await (.append record) hquiet fun answer ↦ ofExcept answer

theorem syncProjection : LedgerClient syncProjection :=
  .await .syncProjection trivial fun answer ↦ ofExcept answer

theorem withQueue {α : Type} {queue : Queue} {method : Act α} (hqueue : queue ≠ .budget)
    (hmethod : LedgerClient method) : LedgerClient (withQueue queue method) :=
  .await (.acquire queue) hqueue fun _ ↦
    .bind (.catch hmethod) fun outcome ↦
      .await (.release queue) hqueue fun _ ↦ ofExcept outcome

theorem appendAdopting {τ : Type} {wrap : τ → Record} {unwrap : Record → Option τ} {record : τ}
    {equivalent : τ → Bool} (hquiet : QuietRecord (wrap record)) :
    LedgerClient (appendAdopting wrap unwrap record equivalent) := by
  refine .bind (.catch (append hquiet)) fun appended ↦ ?_
  split
  · exact .ret _
  · refine .bind (.await (.readRecord _) trivial fun _ ↦ .ret _) fun existing ↦ ?_
    split
    · exact .throw _
    · split_ifs
      · exact .bind syncProjection fun _ ↦ .ret _
      · exact .throw _
  · exact .throw _

theorem writeAction (intent : ActionIntent) : LedgerClient (writeAction intent) := by
  refine .bind ask fun existing ↦ ?_
  split
  · split_ifs
    · exact .ret _
    · exact .throw _
  · refine .bind ?_ fun _ ↦ .bind (appendAdopting trivial) fun _ ↦ .ret _
    unfold requireOpenTask
    split
    · exact .ret _
    · refine .bind ask fun task ↦ ?_
      split_ifs
      · exact .throw _
      · exact .ret _

theorem dispatchAction (intent : ActionIntent) (adoptionNotBefore : ℕ) :
    LedgerClient (dispatchAction intent adoptionNotBefore) := by
  unfold HarborHF.Control.dispatchAction
  split
  · exact .throw _
  · refine .bind ask fun existing ↦ ?_
    split
    · exact .ret _
    · exact .bind now fun _ ↦ .bind (appendAdopting trivial) fun _ ↦ .ret _

theorem receipt (intent : ActionIntent) (result : ExternalActionResult) :
    LedgerClient (receipt intent result) :=
  .bind now fun _ ↦ .bind (appendAdopting trivial) fun _ ↦ .ret _

theorem markAdvanced (intent : ActionIntent) (receipt : ActionReceipt) :
    LedgerClient (markAdvanced intent receipt) := by
  unfold HarborHF.Control.markAdvanced
  split_ifs
  · exact .throw _
  · refine .bind ?_ fun _ ↦ .bind (appendAdopting trivial) fun _ ↦ .ret _
    unfold settleSandbox
    split
    · exact .throw _
    · exact .ret _
    · exact .finalizeSandbox _ _ _ _ _

/-- `admitSandboxCreate` touches the ledger only to reserve and to finalize a Sandbox. -/
theorem admitSandboxCreate (intent : ActionIntent) (maximumSandboxes : ℕ) :
    LedgerClient (admitSandboxCreate intent maximumSandboxes) := by
  refine withQueue (by decide) ?_
  unfold admitSandboxCreateSerialized
  split_ifs
  · exact .throw _
  · refine .bind ask fun existing ↦ ?_
    split_ifs
    · exact .throw _
    · split
      · exact .throw _
      · refine .bind ask fun actions ↦ ?_
        split_ifs
        · exact .throw _
        · refine .bind (writeAction intent) fun _ ↦ ?_
          split
          · exact .throw _
          · refine .bind (.reserveSandbox _ _ _ _) fun reserved ↦ ?_
            split_ifs
            · exact .bind (receipt _ _) fun _ ↦ .bind (markAdvanced _ _) fun _ ↦ .throw _
            · exact .bind now fun _ ↦ .bind (dispatchAction _ _) fun _ ↦ .ret _

end LedgerClient

/-! ### The contract -/

/-- A reservation of this amount fits under the campaign's ceiling. -/
def Room (world : World) (campaignId : String) (amount : ℕ) : Prop :=
  ∀ row ∈ world.projection.campaigns, row.campaignId = campaignId →
    world.projection.reservedMicrousd campaignId + amount ≤ row.ceilingMicrousd

/-- The appends that the code does not check are within the ceilings: the total a finalization
reconciles to, and a reservation outside the budget queue, which also finds the queue free. -/
def Disciplined (thread : ℕ) (world : World) : Op → Prop
  | .append (.budgetEvent event) =>
    (event.eventKind = .reconcile → ∀ row ∈ world.projection.campaigns,
      row.campaignId = event.campaignId → event.amountMicrousd ≤ row.ceilingMicrousd) ∧
    (event.eventKind = .reserve → (.budget, thread) ∉ world.held →
      (∀ other, (.budget, other) ∉ world.held) ∧ Room world event.campaignId event.amountMicrousd)
  | _ => True

/-- What a thread sees of the others: the campaigns stay, tasks are not lost, and while it holds the
budget queue the ledger does not change. -/
structure LedgerSteady (thread : ℕ) (before after : World) : Prop where
  campaigns : after.projection.campaigns = before.projection.campaigns
  tasks : ∀ key, (lookup taskKey key before.projection.tasks).isSome = true →
    (lookup taskKey key after.projection.tasks).isSome = true
  held : (.budget, thread) ∈ after.held ↔ (.budget, thread) ∈ before.held
  ledger : (.budget, thread) ∈ before.held →
    after.projection.budgets = before.projection.budgets ∧
      after.projection.attempts = before.projection.attempts

/-- The contract of a client of the ledger. -/
def ledgerContract (thread : ℕ) : Contract interface World where
  rely := LedgerSteady thread
  guar before after := ∀ other, other ≠ thread → LedgerSteady other before after
  ok op world := Disciplined thread world op
  rely_refl _ := ⟨rfl, fun _ h ↦ h, Iff.rfl, fun _ ↦ ⟨rfl, rfl⟩⟩
  rely_trans := by
    intro first middle last h h'
    refine ⟨h'.campaigns.trans h.campaigns, fun key hkey ↦ h'.tasks key (h.tasks key hkey),
      h'.held.trans h.held, fun hheld ↦ ?_⟩
    obtain ⟨hbudgets, hattempts⟩ := h.ledger hheld
    obtain ⟨hbudgets', hattempts'⟩ := h'.ledger (h.held.mpr hheld)
    exact ⟨hbudgets'.trans hbudgets, hattempts'.trans hattempts⟩

/-- The invariant: the accounts of the records, one holder of the budget queue, and every campaign
within its ceiling. -/
structure Solvent (world : World) : Prop where
  accounts : Accounts world
  exclusive : ∀ first second, (.budget, first) ∈ world.held → (.budget, second) ∈ world.held →
    first = second
  within : world.projection.WithinCeilings

/-! ### Steps -/

/-- Tasks survive every append. -/
theorem tasks_afterAppend {world : World} {record : Record} (hsynced : world.Synced)
    (hfresh : Free Record.key record.key world.store.records) {key : String × String}
    (h : (lookup taskKey key world.projection.tasks).isSome = true) :
    (lookup taskKey key (world.afterAppend record).projection.tasks).isSome = true := by
  obtain ⟨row, hlookup⟩ := Option.isSome_iff_exists.mp h
  obtain ⟨hrow, rfl⟩ := lookup_mem hlookup
  have hkept : ∃ kept ∈ (world.afterAppend record).projection.tasks, taskKey kept = taskKey row := by
    rcases World.apply_cases (hsynced.free_objects hfresh) with ⟨-, happly⟩ | ⟨-, added, -, happly⟩
    · simp only [World.afterAppend, happly]
      cases record with
      | campaignLock lock => exact ⟨row, List.mem_append_left _ hrow, rfl⟩
      | terminalSelection selection =>
        refine ⟨closeTask selection row, List.mem_map_of_mem hrow, ?_⟩
        unfold closeTask
        split_ifs <;> rfl
      | _ => exact ⟨row, hrow, rfl⟩
    · simp only [World.afterAppend, happly]
      exact ⟨row, List.mem_append_left _ hrow, rfl⟩
  obtain ⟨kept, hkept, hkey⟩ := hkept
  cases hfind : lookup taskKey (taskKey row) (world.afterAppend record).projection.tasks with
  | some _ => rfl
  | none => exact absurd hkey (lookup_eq_none.mp hfind kept hkept)

theorem campaigns_kept {world : World} {record : Record} (hsynced : world.Synced)
    (hfresh : Free Record.key record.key world.store.records)
    (hlock : ∀ lock, record ≠ .campaignLock lock)
    (hrequest : ∀ request, record ≠ .campaignRequest request) :
    (world.afterAppend record).projection.campaigns = world.projection.campaigns := by
  rw [campaigns_afterAppend hsynced hfresh]
  cases record with
  | campaignLock lock => exact absurd rfl (hlock lock)
  | campaignRequest request => exact absurd rfl (hrequest request)
  | _ => rfl

/-- A record outside the ledger keeps the invariant and is noticed by nobody. -/
theorem Solvent.append_quiet {world : World} {record : Record} (h : Solvent world)
    (hfresh : Free Record.key record.key world.store.records) (hquiet : QuietRecord record) :
    Solvent (world.afterAppend record) ∧
      ∀ thread, LedgerSteady thread world (world.afterAppend record) := by
  have hcampaigns := campaigns_kept h.accounts.synced hfresh
    (fun lock heq ↦ by rw [heq] at hquiet; exact hquiet)
    (fun request heq ↦ by rw [heq] at hquiet; exact hquiet)
  have hattempts : (world.afterAppend record).projection.attempts = world.projection.attempts := by
    rw [attempts_afterAppend h.accounts.synced hfresh
      (fun attempt heq ↦ by rw [heq] at hquiet; exact absurd hquiet id)]
    cases record with
    | attemptReceipt attempt => exact absurd hquiet id
    | _ => simp
  have hbudgets : (world.afterAppend record).projection.budgets = world.projection.budgets := by
    rcases budgets_afterAppend h.accounts.synced hfresh with hadded | ⟨hsame, -⟩
    · rw [hadded]
      cases record with
      | budgetEvent event => exact absurd hquiet id
      | _ => simp
    · exact hsame
  refine ⟨⟨?_, h.exclusive, ?_⟩, fun thread ↦ ⟨hcampaigns, ?_, Iff.rfl,
    fun _ ↦ ⟨hbudgets, hattempts⟩⟩⟩
  · exact h.accounts.append hfresh fun attempt heq ↦ by rw [heq] at hquiet; exact absurd hquiet id
  · intro row hrow
    rw [hcampaigns] at hrow
    simp only [reservedMicrousd_eq, observedMicrousd_eq, hbudgets, hattempts]
    exact h.within row hrow
  · exact fun key hkey ↦ tasks_afterAppend h.accounts.synced hfresh hkey

/-- The totals after a ledger event. -/
theorem Solvent.append_budget {world : World} {event : BudgetEvent} (h : Solvent world)
    (hfresh : Free Record.key (Record.budgetEvent event).key world.store.records)
    (hreserved : ∀ row ∈ world.projection.campaigns, row.campaignId = event.campaignId →
      world.projection.reservedMicrousd event.campaignId + (budgetRow event).reservedDelta ≤
        row.ceilingMicrousd)
    (hobserved : ∀ row ∈ world.projection.campaigns, row.campaignId = event.campaignId →
      (budgetRow event).observedAmount ≤ row.ceilingMicrousd) :
    Solvent (world.afterAppend (.budgetEvent event)) := by
  have hcampaigns := campaigns_kept h.accounts.synced hfresh (fun _ heq ↦ by cases heq)
    (fun _ heq ↦ by cases heq)
  have hattempts : (world.afterAppend (.budgetEvent event)).projection.attempts =
      world.projection.attempts := by
    rw [attempts_afterAppend h.accounts.synced hfresh (fun _ heq ↦ by cases heq)]
    simp
  refine ⟨h.accounts.append hfresh (fun _ heq ↦ by cases heq), h.exclusive, ?_⟩
  intro row hrow
  rw [hcampaigns] at hrow
  have hwithin := h.within row hrow
  simp only [reservedMicrousd_eq, observedMicrousd_eq, hattempts] at hwithin hreserved ⊢
  rcases budgets_afterAppend h.accounts.synced hfresh with hadded | ⟨hsame, -⟩
  · rw [hadded]
    simp only [budgetRowOf, Option.toList_some, reservedIn_append, reconciledIn_append,
      reservedIn_cons, reconciledIn_cons, reservedIn_nil, reconciledIn_nil]
    by_cases hname : row.campaignId = event.campaignId
    · have hname' : (budgetRow event).campaignId = row.campaignId := hname.symm
      have hfits := hreserved row hrow hname
      have hseen := hobserved row hrow hname
      rw [← hname] at hfits
      simp only [if_pos hname']
      omega
    · have hname' : (budgetRow event).campaignId ≠ row.campaignId := fun heq ↦ hname heq.symm
      simp only [if_neg hname']
      omega
  · rw [hsame]
    exact hwithin

/-- The totals after an accepted attempt. -/
theorem Solvent.append_attempt {world : World} {attempt : AttemptReceipt} (h : Solvent world)
    (hfresh : Free Record.key (Record.attemptReceipt attempt).key world.store.records)
    (haccepts : world.projection.Accepts (.attemptReceipt attempt))
    (hfits : ∀ row ∈ world.projection.campaigns, row.campaignId = attempt.campaignId →
      world.projection.observedMicrousd attempt.campaignId + attempt.costMicrousd ≤
        row.ceilingMicrousd) : Solvent (world.afterAppend (.attemptReceipt attempt)) := by
  have hcampaigns := campaigns_kept h.accounts.synced hfresh (fun _ heq ↦ by cases heq)
    (fun _ heq ↦ by cases heq)
  have hattempts := attempts_afterAppend h.accounts.synced hfresh (fun _ _ ↦ haccepts)
  have hbudgets : (world.afterAppend (.attemptReceipt attempt)).projection.budgets =
      world.projection.budgets := by
    rcases budgets_afterAppend h.accounts.synced hfresh with hadded | ⟨hsame, -⟩
    · rw [hadded]
      simp
    · exact hsame
  refine ⟨h.accounts.append hfresh (fun _ _ ↦ haccepts), h.exclusive, ?_⟩
  intro row hrow
  rw [hcampaigns] at hrow
  have hwithin := h.within row hrow
  simp only [reservedMicrousd_eq, observedMicrousd_eq, hbudgets, hattempts, attemptOf,
    Option.toList_some, costIn_append] at hwithin hfits ⊢
  by_cases hname : row.campaignId = attempt.campaignId
  · have hcost : costIn [attempt] row.campaignId = attempt.costMicrousd := by
      simp [costIn, hname.symm]
    have hroom := hfits row hrow hname
    rw [← hname] at hroom
    omega
  · have hcost : costIn [attempt] row.campaignId = 0 := by
      have hne : attempt.campaignId ≠ row.campaignId := fun heq ↦ hname heq.symm
      simp [costIn, hne]
    omega

theorem steady_append {world : World} {record : Record} (hsynced : world.Synced)
    (hfresh : Free Record.key record.key world.store.records)
    (hlock : ∀ lock, record ≠ .campaignLock lock)
    (hrequest : ∀ request, record ≠ .campaignRequest request) {thread : ℕ}
    (hheld : (.budget, thread) ∉ world.held) :
    LedgerSteady thread world (world.afterAppend record) :=
  ⟨campaigns_kept hsynced hfresh hlock hrequest,
    fun _ hkey ↦ tasks_afterAppend hsynced hfresh hkey, Iff.rfl, fun h ↦ absurd h hheld⟩

omit [Digests] in
theorem Solvent.of_unchanged {world world' : World} (h : Solvent world)
    (hsame : World.Unchanged world world') :
    Solvent world' ∧ ∀ thread, LedgerSteady thread world world' := by
  have haccounts := h.accounts.of_unchanged hsame
  obtain ⟨⟨records, evidence, results⟩, tables, held⟩ := world'
  obtain ⟨-, ⟨ready, hprojection⟩, hheld⟩ := hsame
  simp only at hprojection hheld
  subst hprojection hheld
  exact ⟨⟨haccounts, h.exclusive, h.within⟩, fun thread ↦ ⟨rfl, fun _ hkey ↦ hkey, Iff.rfl,
    fun _ ↦ ⟨rfl, rfl⟩⟩⟩

/-- A quiet operation keeps the invariant, and the others notice nothing. -/
theorem Solvent.perform_quiet {world world' : World} {thread : ℕ} {op : Op} {choice : Choice}
    {answer : op.Ans} (h : Solvent world) (hquiet : Quiet op)
    (hperform : World.perform thread op choice world = some (answer, world')) :
    Solvent world' ∧ ∀ other, LedgerSteady other world world' := by
  rcases World.perform_cases h.accounts.synced hperform with
    ⟨record, rfl, hfresh, rfl⟩ | ⟨record, rfl⟩ | ⟨queue, rfl, hfree, rfl⟩ | ⟨queue, rfl, rfl⟩ | hsame
  · exact h.append_quiet hfresh hquiet
  · exact absurd hquiet id
  · have hqueue : queue ≠ .budget := hquiet
    have hmem : ∀ other, (Queue.budget, other) ∈ (queue, thread) :: world.held ↔
        (.budget, other) ∈ world.held := by
      intro other
      simp [Ne.symm hqueue]
    refine ⟨⟨h.accounts.of_held _, ?_, h.within⟩, fun other ↦ ⟨rfl, fun _ hkey ↦ hkey, hmem other,
      fun _ ↦ ⟨rfl, rfl⟩⟩⟩
    exact fun first second hfirst hsecond ↦
      h.exclusive first second ((hmem first).mp hfirst) ((hmem second).mp hsecond)
  · have hqueue : queue ≠ .budget := hquiet
    have hmem : ∀ other, (Queue.budget, other) ∈
        (world.held.filter fun entry ↦ entry ≠ (queue, thread)) ↔ (.budget, other) ∈ world.held := by
      intro other
      simp [List.mem_filter, Ne.symm hqueue]
    refine ⟨⟨h.accounts.of_held _, ?_, h.within⟩, fun other ↦ ⟨rfl, fun _ hkey ↦ hkey, hmem other,
      fun _ ↦ ⟨rfl, rfl⟩⟩⟩
    exact fun first second hfirst hsecond ↦
      h.exclusive first second ((hmem first).mp hfirst) ((hmem second).mp hsecond)
  · exact h.of_unchanged hsame

/-! ### The budget methods -/

variable {α : Type} {thread : ℕ} {world : World}

/-- A part of a method in the budget queue: the thread holds the queue to its end. -/
def Inside (thread : ℕ) (program : Act α) (world : World) : Prop :=
  Safe machine Solvent thread (ledgerContract thread) program
    (fun _ state ↦ (.budget, thread) ∈ state.held) (fun _ state ↦ (.budget, thread) ∈ state.held) world

/-- A program outside the budget queue, which it leaves as often as it takes it. -/
def Outside (thread : ℕ) (program : Act α) (world : World) : Prop :=
  Safe machine Solvent thread (ledgerContract thread) program
    (fun _ state ↦ (.budget, thread) ∉ state.held) (fun _ state ↦ (.budget, thread) ∉ state.held) world

omit [Digests] in
theorem guar_refl (state : World) (_ : Solvent state) : (ledgerContract thread).guar state state :=
  fun other _ ↦ (ledgerContract other).rely_refl state

/-- A method in the budget queue runs with the ledger to itself. -/
theorem outside_budgetQueue {method : Act α}
    (hmethod : ∀ state, Solvent state → (.budget, thread) ∈ state.held →
      Inside thread method state) : Outside thread (withQueue .budget method) world := by
  refine safe_withQueue (fun state ↦ (.budget, thread) ∈ state.held) ?_ hmethod ?_
    (fun _ _ hrely _ ↦ ⟨fun _ hheld ↦ hrely.held.mpr hheld, fun _ hheld ↦ hrely.held.mpr hheld⟩)
  · intro before _ hinv hfree
    have honly : ∀ holder, (Queue.budget, holder) ∈ (.budget, thread) :: before.held →
        holder = thread := by
      intro holder hholder
      rcases List.mem_cons.mp hholder with heq | hold
      · exact (Prod.mk.inj heq).2
      · exact absurd hold (hfree holder)
    refine ⟨fun other hother ↦ ⟨rfl, fun _ hkey ↦ hkey, ?_, fun hheld ↦ absurd hheld (hfree other)⟩,
      ⟨hinv.accounts.of_held _, ?_, hinv.within⟩, List.mem_cons_self⟩
    · exact ⟨fun h ↦ absurd (honly other h) hother, fun h ↦ absurd h (hfree other)⟩
    · exact fun first second hfirst hsecond ↦ by rw [honly first hfirst, honly second hsecond]
  · intro before hinv
    have hleft : (Queue.budget, thread) ∉
        before.held.filter fun entry ↦ entry ≠ (.budget, thread) := by
      simp [List.mem_filter]
    refine ⟨fun other hother ↦ ⟨rfl, fun _ hkey ↦ hkey, ?_, fun _ ↦ ⟨rfl, rfl⟩⟩,
      ⟨hinv.accounts.of_held _, ?_, hinv.within⟩, fun _ _ last hrely _ hheld ↦ ?_,
      fun _ _ last hrely _ hheld ↦ ?_⟩
    · simp [List.mem_filter, hother]
    · intro first second hfirst hsecond
      exact hinv.exclusive first second (List.mem_of_mem_filter hfirst)
        (List.mem_of_mem_filter hsecond)
    · exact hleft (hrely.held.mp hheld)
    · exact hleft (hrely.held.mp hheld)

omit [Digests] in
theorem LedgerSteady.totals {before after : World} (h : LedgerSteady thread before after)
    (hheld : (.budget, thread) ∈ before.held) (campaignId : String) :
    after.projection.reservedMicrousd campaignId = before.projection.reservedMicrousd campaignId ∧
      after.projection.observedMicrousd campaignId =
        before.projection.observedMicrousd campaignId := by
  obtain ⟨hbudgets, hattempts⟩ := h.ledger hheld
  simp only [reservedMicrousd_eq, observedMicrousd_eq, hbudgets, hattempts, and_self]

omit [Digests] in
theorem campaign_eq_some {P : Projection} {campaignId : String} {view : CampaignView}
    (h : P.campaign campaignId = some view) :
    ∃ row ∈ P.campaigns, row.campaignId = campaignId ∧ view = P.campaignView row := by
  obtain ⟨row, hlookup, rfl⟩ := Option.map_eq_some_iff.mp h
  obtain ⟨hrow, hname⟩ := lookup_mem hlookup
  exact ⟨row, hrow, hname, rfl⟩

omit [Digests] in
theorem Solvent.view {campaignId : String} {view : CampaignView} (h : Solvent world)
    (hview : world.projection.campaign campaignId = some view) :
    view.reservedMicrousd = world.projection.reservedMicrousd campaignId ∧
      view.observedMicrousd = world.projection.observedMicrousd campaignId ∧
        ∀ row ∈ world.projection.campaigns, row.campaignId = campaignId →
          row.ceilingMicrousd = view.ceilingMicrousd := by
  obtain ⟨found, hfound, rfl, rfl⟩ := campaign_eq_some hview
  refine ⟨rfl, rfl, fun row hrow hname ↦ ?_⟩
  rw [h.accounts.campaigns.keyed.eq_of_mem hrow hfound hname]
  rfl

/-- The holder of the queue appends a ledger event that fits, and goes on if it was recorded. -/
theorem inside_append_budget {event : BudgetEvent} {next : Bool → Act α} (hold : World → Prop)
    (hheld : (.budget, thread) ∈ world.held)
    (hfits : ∀ before, LedgerSteady thread world before → Solvent before →
      Disciplined thread before (.append (.budgetEvent event)) →
        (∀ row ∈ before.projection.campaigns, row.campaignId = event.campaignId →
          before.projection.reservedMicrousd event.campaignId + (budgetRow event).reservedDelta ≤
            row.ceilingMicrousd) ∧
        (∀ row ∈ before.projection.campaigns, row.campaignId = event.campaignId →
          (budgetRow event).observedAmount ≤ row.ceilingMicrousd) ∧
        hold before ∧ (Free Record.key (Record.budgetEvent event).key before.store.records →
          hold (before.afterAppend (.budgetEvent event))))
    (hnext : ∀ created state, Solvent state → (.budget, thread) ∈ state.held → hold state →
      Inside thread (next created) state) :
    Inside thread (append (.budgetEvent event) >>= next) world := by
  refine safe_append fun before hrely hinv hok answer after happend ↦ ?_
  obtain ⟨hreserved, hobserved, hbefore, hafter⟩ := hfits before hrely hinv hok
  have hheld' : (.budget, thread) ∈ before.held := hrely.held.mpr hheld
  rcases World.append_world hinv.accounts.synced happend with rfl | ⟨hfresh, rfl⟩
  · exact ⟨guar_refl after hinv, hinv, fun created _ ↦ hnext created after hinv hheld' hbefore,
      fun _ _ _ hlast _ ↦ hlast.held.mpr hheld'⟩
  · have hsolvent := hinv.append_budget hfresh hreserved hobserved
    refine ⟨fun other hother ↦ ?_, hsolvent,
      fun created _ ↦ hnext created _ hsolvent hheld' (hafter hfresh),
      fun _ _ _ hlast _ ↦ hlast.held.mpr hheld'⟩
    refine steady_append hinv.accounts.synced hfresh (fun _ heq ↦ by cases heq)
      (fun _ heq ↦ by cases heq) fun hholds ↦ hother ?_
    exact hinv.exclusive other thread hholds hheld'

theorem inside_ret {value : α} (hheld : (.budget, thread) ∈ world.held) :
    Inside thread (.ret value) world := fun _ hrely _ ↦ hrely.held.mpr hheld

theorem inside_throw {error : ServiceError} (hheld : (.budget, thread) ∈ world.held) :
    Inside thread (.throw error : Act α) world := fun _ hrely _ ↦ hrely.held.mpr hheld

/-- A reservation that fits. -/
theorem inside_reserve {campaignId recordId : String} {amount createdAt : ℕ}
    (hheld : (.budget, thread) ∈ world.held) (hroom : Room world campaignId amount) :
    Inside thread (do
      let _ ← append (.budgetEvent (budgetEvent campaignId recordId .reserve amount createdAt))
      return true) world := by
  refine inside_append_budget (fun _ ↦ True) hheld ?_ fun _ _ _ hheld' _ ↦ inside_ret hheld'
  intro before hrely _ _
  refine ⟨fun row hrow hname ↦ ?_, fun row _ _ ↦ Nat.zero_le _, trivial, fun _ ↦ trivial⟩
  rw [hrely.campaigns] at hrow
  change before.projection.reservedMicrousd campaignId + amount ≤ row.ceilingMicrousd
  rw [(hrely.totals hheld campaignId).1]
  exact hroom row hrow hname

theorem inside_reserveSerialized {campaignId recordId overageId conflict : String}
    {createdAt amount : ℕ} (hheld : (.budget, thread) ∈ world.held) :
    Inside thread (reserveSerialized campaignId recordId overageId conflict createdAt amount)
      world := by
  refine safe_ask guar_refl fun first hfirst _ ↦ ?_
  have hheldFirst := hfirst.held.mpr hheld
  split
  · split_ifs
    · exact inside_throw hheldFirst
    · exact inside_ret hheldFirst
  refine safe_ask guar_refl fun second hsecond hinvSecond ↦ ?_
  have hheldSecond := hsecond.held.mpr hheldFirst
  split
  · exact inside_throw hheldSecond
  next view hview =>
  obtain ⟨hreserved, hobserved, hceiling⟩ := hinvSecond.view hview
  split_ifs with hover
  · exact inside_ret hheldSecond
  have hfits : ∀ row ∈ second.projection.campaigns, row.campaignId = campaignId →
      max view.reservedMicrousd view.observedMicrousd + amount ≤ row.ceilingMicrousd := by
    intro row hrow hname
    rw [hceiling row hrow hname]
    omega
  unfold catchUp
  split_ifs with hoverage
  · rw [bind_assoc]
    refine inside_append_budget (fun state ↦ Room state campaignId amount) hheldSecond ?_
      fun _ state _ hheld' hroom ↦ inside_reserve hheld' hroom
    intro before hrely hbefore _
    have htotals := hrely.totals hheldSecond campaignId
    have hdelta : (budgetRow (budgetEvent campaignId overageId .reserve
        (view.observedMicrousd - view.reservedMicrousd).toNat createdAt)).reservedDelta =
          view.observedMicrousd - view.reservedMicrousd := by
      simp only [budgetRow, budgetEvent, BudgetRow.reservedDelta]
      omega
    have hcampaigns : ∀ row ∈ before.projection.campaigns, row.campaignId = campaignId →
        max view.reservedMicrousd view.observedMicrousd + amount ≤ row.ceilingMicrousd := by
      intro row hrow hname
      rw [hrely.campaigns] at hrow
      exact hfits row hrow hname
    refine ⟨fun row hrow hname ↦ ?_, fun row _ _ ↦ Nat.zero_le _, fun row hrow hname ↦ ?_, ?_⟩
    · have := hcampaigns row hrow hname
      rw [hdelta]
      change before.projection.reservedMicrousd campaignId + _ ≤ _
      rw [htotals.1, ← hreserved]
      omega
    · have := hcampaigns row hrow hname
      rw [htotals.1, ← hreserved]
      omega
    · intro hfresh row hrow hname
      rw [campaigns_kept hbefore.accounts.synced hfresh (fun _ heq ↦ by cases heq)
        (fun _ heq ↦ by cases heq)] at hrow
      have hroom := hcampaigns row hrow hname
      rw [reservedMicrousd_eq]
      rcases budgets_afterAppend hbefore.accounts.synced hfresh with hadded | ⟨hsame, -⟩
      · rw [hadded]
        simp only [budgetRowOf, Option.toList_some, reservedIn_append, reservedIn_cons,
          reservedIn_nil, hdelta]
        rw [← reservedMicrousd_eq, htotals.1, ← hreserved]
        split_ifs <;> omega
      · rw [hsame, ← reservedMicrousd_eq, htotals.1, ← hreserved]
        omega
  · refine inside_reserve hheldSecond fun row hrow hname ↦ ?_
    have := hfits row hrow hname
    rw [← hreserved]
    omega

/-- A finalization reconciles to a total within the ceiling, and its release only lowers one. -/
theorem inside_finalizeSerialized {campaignId createActionId : String}
    {completedAt reservation observed : ℕ} (hheld : (.budget, thread) ∈ world.held) : Inside thread
      (finalizeSerialized campaignId createActionId completedAt reservation observed) world := by
  refine safe_ask guar_refl fun first hfirst _ ↦ ?_
  have hheldFirst := hfirst.held.mpr hheld
  split
  · split_ifs
    · exact inside_throw hheldFirst
    · exact inside_ret hheldFirst
  refine safe_ask guar_refl fun second hsecond _ ↦ ?_
  have hheldSecond := hsecond.held.mpr hheldFirst
  split
  · exact inside_throw hheldSecond
  refine inside_append_budget (fun _ ↦ True) hheldSecond ?_ fun _ state _ hheld' _ ↦
    inside_append_budget (fun _ ↦ True) hheld' ?_ fun _ _ _ hheld' _ ↦
      inside_ret hheld'
  · intro before _ hbefore hok
    refine ⟨fun row hrow hname ↦ ?_, fun row hrow hname ↦ hok.1 rfl row hrow hname, trivial,
      fun _ ↦ trivial⟩
    have := hbefore.within row hrow
    rw [hname] at this
    simp only [budgetRow, budgetEvent, BudgetRow.reservedDelta] at this ⊢
    omega
  · intro before _ hbefore _
    refine ⟨fun row hrow hname ↦ ?_, fun row _ _ ↦ Nat.zero_le _, trivial, fun _ ↦ trivial⟩
    have := hbefore.within row hrow
    rw [hname] at this
    simp only [budgetRow, budgetEvent, BudgetRow.reservedDelta] at this ⊢
    omega

/-- An attempt is recorded when its cost fits, and then its table accepts it. -/
theorem inside_attemptSerialized {input : AttemptInput} {actor : Actor}
    (hheld : (.budget, thread) ∈ world.held) :
    Inside thread (attemptSerialized input actor) world := by
  refine safe_ask guar_refl fun first hfirst _ ↦ ?_
  have hheldFirst := hfirst.held.mpr hheld
  split
  · split_ifs
    · exact inside_ret hheldFirst
    · exact inside_throw hheldFirst
  next hnew =>
  refine safe_ask guar_refl fun second hsecond _ ↦ ?_
  have hheldSecond := hsecond.held.mpr hheldFirst
  split
  · exact inside_throw hheldSecond
  refine safe_ask guar_refl fun third hthird _ ↦ ?_
  have hheldThird := hthird.held.mpr hheldSecond
  split
  · split_ifs
    · exact inside_ret hheldThird
    · exact inside_throw hheldThird
  next hunique =>
  refine safe_ask guar_refl fun fourth hfourth _ ↦ ?_
  have hheldFourth := hfourth.held.mpr hheldThird
  split
  · exact inside_throw hheldFourth
  next view hview =>
  split_ifs
  · exact inside_throw hheldFourth
  refine safe_ask guar_refl fun fifth hfifth hinvFifth ↦ ?_
  have hheldFifth := hfifth.held.mpr hheldFourth
  split
  · exact inside_throw hheldFifth
  next totals htotals =>
  obtain ⟨hreserved, hobserved, hceiling⟩ := hinvFifth.view htotals
  split_ifs with hover
  · exact inside_throw hheldFifth
  refine safe_append fun before hrely hinv _ answer after happend ↦ ?_
  have hheld' := hrely.held.mpr hheldFifth
  rcases World.append_world hinv.accounts.synced happend with rfl | ⟨hfresh, rfl⟩
  · exact ⟨guar_refl after hinv, hinv, fun _ _ ↦ inside_ret hheld',
      fun _ _ _ hlast _ ↦ hlast.held.mpr hheld'⟩
  have hattempts : before.projection.attempts = first.projection.attempts := by
    rw [(hrely.ledger hheldFifth).2, (hfifth.ledger hheldFourth).2, (hfourth.ledger hheldThird).2,
      (hthird.ledger hheldSecond).2, (hsecond.ledger hheldFirst).2]
  have hattempts' : before.projection.attempts = third.projection.attempts := by
    rw [(hrely.ledger hheldFifth).2, (hfifth.ledger hheldFourth).2, (hfourth.ledger hheldThird).2]
  have htask : (before.projection.taskRow? input.campaignId input.taskId).isSome = true := by
    obtain ⟨row, hrow, -⟩ := Option.map_eq_some_iff.mp hview
    exact hrely.tasks _ (hfifth.tasks _ (Option.isSome_iff_exists.mpr ⟨row, hrow⟩))
  have haccepts : before.projection.Accepts (.attemptReceipt (attemptRecord input actor)) := by
    refine ⟨hinv.accounts.synced.free_objects hfresh, htask, fun row hrow hsame ↦ ?_, ?_⟩
    · rw [hattempts'] at hrow
      have hnone := List.find?_eq_none.mp hunique row hrow
      exact hnone (by simpa [attemptRecord] using hsame)
    · rw [hattempts]
      exact lookup_eq_none.mp hnew
  have hsolvent := hinv.append_attempt hfresh haccepts fun row hrow hname ↦ by
    rw [hrely.campaigns] at hrow
    have hrow := hceiling row hrow hname
    change before.projection.observedMicrousd input.campaignId + input.costMicrousd ≤ _
    rw [(hrely.totals hheldFifth input.campaignId).2, ← hobserved, hrow]
    omega
  refine ⟨fun other hother ↦ ?_, hsolvent, fun _ _ ↦ inside_ret hheld',
    fun _ _ _ hlast _ ↦ hlast.held.mpr hheld'⟩
  refine steady_append hinv.accounts.synced hfresh (fun _ heq ↦ by cases heq)
    (fun _ heq ↦ by cases heq) fun hholds ↦ hother ?_
  exact hinv.exclusive other thread hholds hheld'

theorem outside_ret {value : α} (hheld : (.budget, thread) ∉ world.held) :
    Outside thread (.ret value) world := fun _ hrely _ hlast ↦ hheld (hrely.held.mp hlast)

theorem outside_throw {error : ServiceError} (hheld : (.budget, thread) ∉ world.held) :
    Outside thread (.throw error : Act α) world :=
  fun _ hrely _ hlast ↦ hheld (hrely.held.mp hlast)

/-- An initial reservation is within the ceiling, and finds the queue free. -/
theorem outside_reserveInitialAction {campaignId category : String}
    {generation amount createdAt : ℕ} (hheld : (.budget, thread) ∉ world.held) :
    Outside thread (reserveInitialAction campaignId category generation amount createdAt) world := by
  unfold reserveInitialAction
  split_ifs
  · exact outside_ret hheld
  refine safe_append fun before hrely hinv hok answer after happend ↦ ?_
  have hheld' : (.budget, thread) ∉ before.held := fun h ↦ hheld (hrely.held.mp h)
  rcases World.append_world hinv.accounts.synced happend with rfl | ⟨hfresh, rfl⟩
  · exact ⟨guar_refl after hinv, hinv, fun _ _ ↦ outside_ret hheld',
      fun _ _ _ hlast _ h ↦ hheld' (hlast.held.mp h)⟩
  obtain ⟨hfree, hroom⟩ := hok.2 rfl hheld'
  have hsolvent := hinv.append_budget hfresh hroom fun row _ _ ↦ Nat.zero_le _
  refine ⟨fun other _ ↦ ?_, hsolvent, fun _ _ ↦ outside_ret hheld',
    fun _ _ _ hlast _ h ↦ hheld' (hlast.held.mp h)⟩
  exact steady_append hinv.accounts.synced hfresh (fun _ heq ↦ by cases heq)
    (fun _ heq ↦ by cases heq) (hfree other)

/-- Every client of the ledger keeps the contract. -/
theorem LedgerClient.outside {program : Act α} (h : LedgerClient program) (hinv : Solvent world)
    (hheld : (.budget, thread) ∉ world.held) : Outside thread program world := by
  induction h generalizing world with
  | ret value => exact outside_ret hheld
  | throw error => exact outside_throw hheld
  | await op hquiet _ ih =>
    refine safe_await fun before hrely hbefore _ choice answer after hperform ↦ ?_
    obtain ⟨hafter, hsteady⟩ := hbefore.perform_quiet hquiet hperform
    refine ⟨fun other _ ↦ hsteady other, hafter, ih answer hafter fun h ↦ hheld ?_⟩
    exact hrely.held.mp ((hsteady thread).held.mp h)
  | bind _ _ ihProgram ihNext =>
    refine safe_bind ((ihProgram hinv hheld).mono ?_ fun _ _ _ h ↦ h) hinv
    exact fun value last hlast hleft ↦ ihNext value hlast hleft
  | «catch» _ ih => exact safe_attempt (ih hinv hheld)
  | attempt input actor =>
    exact outside_budgetQueue fun _ _ hheld ↦ inside_attemptSerialized hheld
  | reserveReplacement campaignId priorAttemptId completedAt amount =>
    refine outside_budgetQueue fun _ _ hheld ↦ ?_
    unfold reserveReplacementSerialized
    split_ifs
    · exact inside_ret hheld
    · exact inside_reserveSerialized hheld
  | reserveSandbox campaignId createActionId createdAt amount =>
    exact outside_budgetQueue fun _ _ hheld ↦ inside_reserveSerialized hheld
  | finalizeSandbox campaignId createActionId completedAt reservation observed =>
    exact outside_budgetQueue fun _ _ hheld ↦ inside_finalizeSerialized hheld
  | reserveInitial campaignId category generation amount createdAt =>
    exact outside_reserveInitialAction hheld

/-! ### Runs -/

/-- A state in which the control plane has just come up. -/
def Booted (world : World) : Prop := ∃ stored : World, stored.restart = some world

theorem Booted.solvent (h : Booted world) : Solvent world ∧ ∀ index, (.budget, index) ∉ world.held := by
  obtain ⟨stored, hrestart⟩ := h
  have haccounts := accounts_of_restart hrestart
  obtain ⟨-, -, hverify, rfl⟩ := World.restart_eq_some.mp hrestart
  have hbudgets := (verifyInvariants_eq_ok.mp hverify).2.1
  refine ⟨⟨haccounts, fun _ _ h ↦ absurd h List.not_mem_nil, ?_⟩, fun _ ↦ List.not_mem_nil⟩
  exact ((verifyBudgets_eq_ok haccounts.campaigns.keyed).mp hbudgets).2

theorem ledger_compatible :
    Compatible machine ThreadRole.conflict Solvent (fun index world ↦ (.budget, index) ∉ world.held)
      (fun _ index ↦ ledgerContract index) where
  symm role role' := by cases role <;> cases role' <;> rfl
  rely_of_guar hne _ _ _ hguar := hguar _ (Ne.symm hne)
  idle_of_guar hne hguar hidle := fun h ↦ hidle ((hguar _ (Ne.symm hne)).held.mp h)
  restart _ hrestart := by
    obtain ⟨hsolvent, hfree⟩ := Booted.solvent ⟨_, hrestart⟩
    exact ⟨hsolvent, fun index _ ↦ hfree index⟩

/-- The tables that are read back from any listing of the store have the totals of the present
ones, so they are under the ceilings too. -/
theorem Solvent.rebuild (h : Solvent world) {entries : List Record}
    (hperm : entries.Perm world.store.records) (campaignId : String) :
    (rebuildFrom world.store entries).2 ≠ some (.budgetExceedsCeiling campaignId) := by
  have hmem : ∀ record, record ∈ entries.insertionSort PathOrder ↔ record ∈ world.store.records :=
    fun record ↦ (List.mem_insertionSort _).trans hperm.mem_iff
  unfold rebuildFrom
  cases happly : applyEntries world.store (entries.insertionSort PathOrder) {} with
  | mk applied outcome =>
    cases outcome with
    | some error =>
      intro heq
      exact applyEntries_error happly campaignId (Option.some.inj heq)
    | none =>
      obtain ⟨-, haccepts, rfl⟩ := applyEntries_eq_ok.mp happly
      have hcampaigns := campaignsOf_extendAll campaignsOf_nil haccepts
      have hkeyedBudgets := keyed_budgets haccepts
      have hbudgetRows : (extendAll (entries.insertionSort PathOrder) {}).budgets =
          (entries.insertionSort PathOrder).filterMap budgetRowOf := extendAll_budgets _ _
      have hattemptRows : (extendAll (entries.insertionSort PathOrder) {}).attempts =
          (entries.insertionSort PathOrder).filterMap attemptOf := extendAll_attempts _ _
      have hbudgets : (extendAll (entries.insertionSort PathOrder) {}).budgets.Perm
          world.projection.budgets := by
        refine hkeyedBudgets.perm h.accounts.keyedBudgets fun row ↦ ?_
        constructor
        · intro hrow
          have hstored := hrow
          rw [hbudgetRows, mem_filterMap_budgetRowOf] at hstored
          obtain ⟨event, hevent, rfl⟩ := hstored
          rcases h.accounts.budgets_complete event ((hmem _).mp hevent) with
            hlive | ⟨other, hother, hne, hid⟩
          · exact hlive
          · -- two stored events of one identity would not have been accepted
            have hrow' : budgetRow other ∈ (extendAll (entries.insertionSort PathOrder) {}).budgets := by
              rw [hbudgetRows, mem_filterMap_budgetRowOf]
              exact ⟨other, (hmem _).mpr hother, rfl⟩
            have hsame := hkeyedBudgets.eq_of_mem hrow' hrow hid
            refine absurd (h.accounts.synced.keyed.eq_of_mem hother ((hmem _).mp hevent) ?_)
              (fun heq ↦ hne (Record.budgetEvent.inj heq))
            have hcampaign : other.campaignId = event.campaignId :=
              congrArg BudgetRow.campaignId hsame
            rw [Record.key, Record.key, hcampaign, hid]
        · intro hrow
          obtain ⟨event, hevent, rfl⟩ := h.accounts.budgets_stored row hrow
          rw [hbudgetRows, mem_filterMap_budgetRowOf]
          exact ⟨event, (hmem _).mpr hevent, rfl⟩
      have hattempts : (extendAll (entries.insertionSort PathOrder) {}).attempts.Perm
          world.projection.attempts := by
        refine (keyed_attempts haccepts).perm h.accounts.keyedAttempts fun attempt ↦ ?_
        rw [hattemptRows, mem_filterMap_attemptOf, hmem]
        exact ⟨h.accounts.attempts_complete attempt, h.accounts.attempts_stored attempt⟩
      have hwithin : (extendAll (entries.insertionSort PathOrder) {}).WithinCeilings := by
        intro row hrow
        have hceiling := (hcampaigns.ceiling row hrow).congr hmem
        obtain ⟨live, hlive, hname⟩ := h.accounts.campaigns.complete _ _ hceiling
        have hlimit := h.accounts.campaigns.ceiling live hlive
        rw [hname] at hlimit
        have hsame := hlimit.unique h.accounts.synced.keyed hceiling
        have hlimits := h.within live hlive
        rw [hname, hsame] at hlimits
        rw [reservedMicrousd_eq, observedMicrousd_eq, reservedIn_perm hbudgets,
          reconciledIn_perm hbudgets, costIn_perm hattempts]
        exact hlimits
      cases hverify : (extendAll (entries.insertionSort PathOrder) {}).verifyInvariants with
      | ok value => simp [hverify]
      | error error =>
        simp only [hverify, ne_eq, Option.some.injEq]
        rintro rfl
        exact not_withinCeilings_of_verifyInvariants hcampaigns.keyed hverify hwithin

/-- An append that leaves the campaigns under their ceilings is not refused for one. -/
theorem Solvent.append_answer {record : Record} {answer : Except ServiceError Bool} {world' : World}
    (h : Solvent world) (h' : Solvent world') (happend : world.append record = (answer, world'))
    (campaignId : String) : answer ≠ .error (.projection (.budgetExceedsCeiling campaignId)) := by
  cases World.append_spec h.accounts.synced happend with
  | invalid | unverified | conflict | present | accepted => simp
  | @refused error _ _ _ happly =>
    have happly : world.projection.apply record =
        ((world.projection.apply record).1, some error) := Prod.ext rfl happly
    have hne := apply_error happly campaignId
    simpa using hne
  | @poisoned error _ _ _ haccepts hverify =>
    simp only [ne_eq, Except.error.injEq, ServiceError.projection.injEq]
    rintro rfl
    have htables : (world.afterAppend record).projection = world.projection.extend record := by
      simp only [World.afterAppend, World.apply_of_accepts haccepts]
    rw [← htables] at hverify
    exact not_withinCeilings_of_verifyInvariants h'.accounts.campaigns.keyed hverify h'.within

/-- The configurations of runs of ledger clients whose unchecked appends are within the ceilings. -/
def LedgerRun : Config interface ServiceError ThreadRole World → Prop :=
  Reachable machine ThreadRole.conflict Booted (fun _ program ↦ LedgerClient program)
    (fun config thread op ↦ Disciplined thread config.state op)

/-- In every run of ledger clients whose unchecked appends are within the ceilings, the totals of
every campaign are under its ceiling in every state, and no append, sync or rebuild ever fails with
a ceiling. -/
theorem totals_under_ceilings
    {config : Config interface ServiceError ThreadRole World} (h : LedgerRun config) :
    (∀ row ∈ config.state.projection.campaigns,
      max (config.state.projection.reservedMicrousd row.campaignId)
        (config.state.projection.observedMicrousd row.campaignId) ≤ row.ceilingMicrousd) ∧
    (∀ (thread : ℕ) (record : Record) (campaignId : String),
      (⟨thread, .append record, .error (.projection (.budgetExceedsCeiling campaignId))⟩ :
        Performed interface) ∉ config.trace) ∧
    (∀ campaignId : String, config.state.syncProjection.1 ≠
      .error (.projection (.budgetExceedsCeiling campaignId))) ∧
    ∀ (entries : List Record) (campaignId : String), entries.Perm config.state.store.records →
      (rebuildFrom config.state.store entries).2 ≠ some (.budgetExceedsCeiling campaignId) := by
  have hinv : ∀ config, LedgerRun config → Solvent config.state := by
    intro config h
    refine (reachable_sound ledger_compatible (fun _ hboot ↦ hboot.solvent) ?_ ?_ h).holds
    · intro role program hclient index state hstate hidle
      exact (hclient.outside hstate hidle).mono (fun _ _ _ _ ↦ trivial) (fun _ _ _ _ ↦ trivial)
    · exact fun _ _ _ _ _ _ hok ↦ hok
  have hsolvent := hinv config h
  refine ⟨hsolvent.within, ?_, ?_, ?_⟩
  · intro thread record campaignId hmem
    have hnever : ∀ performed ∈ config.trace, performed ≠ (⟨thread, .append record,
        .error (.projection (.budgetExceedsCeiling campaignId))⟩ : Performed interface) := by
      refine reachable_trace hinv ?_ h
      intro config index op choice answer state' hstate hstate' hperform heq
      cases heq
      exact hstate.append_answer hstate' (Option.some.inj hperform) campaignId rfl
    exact hnever _ hmem rfl
  · intro campaignId
    rw [hsolvent.accounts.synced.syncProjection]
    simp
  · exact fun entries campaignId hperm ↦ hsolvent.rebuild hperm campaignId

end

/-! ### A campaign with a Sandbox

A campaign with a ceiling of 100 and one task. Its Sandbox reserves 50, an attempt costs 100, and
closing the Sandbox costs 50 of its 50: each passes the checks of the code, and the reconciled total
is 150. -/

section

local instance sampleDigests : Digests := plainDigests

def sampleLock : CampaignLock :=
  { recordId := "k"
    createdAt := 1
    actor := serviceActor
    campaignId := "c"
    profiles := []
    tasks := [⟨"t", "", none, none⟩]
    ceilingMicrousd := 100
    sourceRevision := "" }

def samplePolicy : SandboxPolicy := ⟨50, 1, 1, 1, 1, 1, [], ""⟩

def sampleIntent (kind : ActionKind) (actionId : String) (payload : ActionPayload) : ActionIntent :=
  ⟨actionId, 2, serviceActor, actionId, "c", kind, 0, "", payload⟩

def sampleLaunch : ActionIntent := sampleIntent .jobLaunch "l" { taskIds := some ["t"] }

def sampleCreate : ActionIntent :=
  sampleIntent .sandboxCreate "s" { taskId := some "t", sandbox := some samplePolicy }

def sampleClose : ActionIntent :=
  sampleIntent .sandboxClose "d" { sandbox := some samplePolicy, sandboxCreateActionId := some "s" }

def sampleAttempt (attemptId : String) (cost : ℕ) : AttemptInput :=
  { campaignId := "c"
    taskId := "t"
    attemptId := attemptId
    actionId := "l"
    outcome := .complete
    replacementEligible := false
    evidenceDigest := "d"
    evidencePath := "e"
    costMicrousd := cost
    metrics := []
    completedAt := 5 }

/-- The store of the campaign's lock and of one evidence object. -/
def sampleStored : World :=
  ⟨⟨[.campaignLock sampleLock], [⟨"e", "d", 1, .notJson⟩], []⟩, {}, []⟩

def sampleWorld : World :=
  { sampleStored with projection := { sampleStored.rebuilt with ready := true } }

theorem sampleWorld_booted : Booted sampleWorld := ⟨sampleStored, by decide +kernel⟩

def sampleReservation : Record :=
  .budgetEvent (budgetEvent "c" (deterministicId "budget" ["c", "execution", toString 0]) .reserve 60 5)

/-- A reservation that fits is within the ceiling after its append. -/
theorem reservation_under_ceiling :
    (sampleWorld.append sampleReservation).2.projection.WithinCeilings ∧
      (sampleWorld.append sampleReservation).2.projection.reservedMicrousd "c" = 60 := by
  have hroom : Room sampleWorld "c" 60 := by
    unfold Room
    decide +kernel
  have hspawn : LedgerRun ⟨sampleWorld, [⟨.api, reserveInitialAction "c" "execution" 0 60 5⟩], []⟩ :=
    .spawn (.start sampleWorld_booted) (.reserveInitial "c" "execution" 0 60 5) rfl
  have hok : Disciplined 0 sampleWorld (.append sampleReservation) :=
    ⟨nofun, fun _ _ ↦ ⟨fun _ ↦ List.not_mem_nil, hroom⟩⟩
  have hrun : machine.perform 0 (Op.append sampleReservation) {} sampleWorld =
      some ((sampleWorld.append sampleReservation).1, (sampleWorld.append sampleReservation).2) := rfl
  exact ⟨(totals_under_ceilings (.run hspawn rfl hok hrun)).1, by decide +kernel⟩

def createSampleSandbox : Act Unit := do
  let _ ← admitSandboxCreate sampleCreate 1
  return ()

def recordSampleAttempt : Act Unit := do
  writeAction sampleLaunch
  let _ ← attemptWithStatus (sampleAttempt "a" 100) serviceActor
  return ()

def closeSampleSandbox : Act Unit := do
  writeAction sampleClose
  let record ← receipt sampleClose
    { outcome := .completed, observedState := "DELETED", costMicrousd := some 50 }
  let _ ← markAdvanced sampleClose record
  return ()

/-- The Sandbox is admitted, the attempt is recorded, and the Sandbox is closed. -/
def sampleRun : List (Event interface ServiceError ThreadRole Choice) :=
  [.spawn .api createSampleSandbox] ++ List.replicate 16 (.run 0 {}) ++
    [.spawn .api recordSampleAttempt] ++ List.replicate 10 (.run 1 {}) ++
      [.spawn .api closeSampleSandbox] ++ List.replicate 9 (.run 2 {})

/-- Closing a Sandbox at a cost within its reservation takes the observed total over the ceiling, and
the stored event fails every later check of the tables. -/
theorem close_over_ceiling : ∃ config : Config interface ServiceError ThreadRole World,
      Reachable machine ThreadRole.conflict Booted (fun _ program ↦ LedgerClient program ∧
        program ∈ [createSampleSandbox, recordSampleAttempt, closeSampleSandbox])
          (fun _ _ _ ↦ True) config ∧
      (∃ row ∈ config.state.projection.campaigns, row.campaignId = "c" ∧
        (row.ceilingMicrousd : ℤ) < max (config.state.projection.reservedMicrousd "c")
          (config.state.projection.observedMicrousd "c")) ∧
      config.state.projection.verifyInvariants = .error (.budgetExceedsCeiling "c") := by
  have hsummary : ((Config.initial sampleWorld).run machine ThreadRole.conflict sampleRun).map
      (fun config ↦ (decide (∃ row ∈ config.state.projection.campaigns, row.campaignId = "c" ∧
        (row.ceilingMicrousd : ℤ) < max (config.state.projection.reservedMicrousd "c")
          (config.state.projection.observedMicrousd "c")),
        errorOf config.state.projection.verifyInvariants)) =
      some (true, some (.budgetExceedsCeiling "c")) := by decide +kernel
  obtain ⟨config, hrun, hvalues⟩ := Option.map_eq_some_iff.mp hsummary
  have hover := of_decide_eq_true (Prod.mk.inj hvalues).1
  have hclients : ∀ program ∈ [createSampleSandbox, recordSampleAttempt, closeSampleSandbox],
      LedgerClient program := by
    simp only [List.forall_mem_cons, List.not_mem_nil, false_imp_iff, implies_true, and_true]
    exact ⟨.bind (.admitSandboxCreate _ _) fun _ ↦ .ret _,
      .bind (.writeAction _) fun _ ↦ .bind (.attempt _ _) fun _ ↦ .ret _,
      .bind (.writeAction _) fun _ ↦ .bind (.receipt _ _) fun _ ↦
        .bind (.markAdvanced _ _) fun _ ↦ .ret _⟩
  refine ⟨config, reachable_of_run sampleRun (.start sampleWorld_booted) ?_ hrun, hover, ?_⟩
  · intro event hevent
    simp only [sampleRun, List.mem_append, List.mem_singleton, List.mem_replicate] at hevent
    rcases hevent with (((((rfl | ⟨-, rfl⟩) | rfl) | ⟨-, rfl⟩) | rfl) | ⟨-, rfl⟩)
    · exact ⟨hclients _ (by simp), by simp⟩
    · trivial
    · exact ⟨hclients _ (by simp), by simp⟩
    · trivial
    · exact ⟨hclients _ (by simp), by simp⟩
    · trivial
  · have herror := (Prod.mk.inj hvalues).2
    cases hverify : config.state.projection.verifyInvariants with
    | ok value => rw [hverify] at herror; cases herror
    | error error =>
      rw [hverify] at herror
      rw [Option.some.inj herror]

end

end HarborHF.Control
