import HarborHF.Control.Ceilings

/-!
# Observed spending

The observed total of a campaign is the larger of the sum of its attempt costs and its largest
reconcile event, and a finalization reconciles to the observed total it finds plus its cost. So it
depends on the order of recording: an attempt adds to a sum that a reconciled total has overtaken.

`Recording.apply` is what one recording does to the two parts of the total, `observed_eq_total_iff`
says for which orders the total is the sum of all costs, and `Recorded` is a sequence of recordings
made by the service's own methods, with other work in between.
-/

set_option autoImplicit false

namespace HarborHF.Control

open Async Program Relational Projection

/-! ### Sequences of recordings -/

/-- A cost that was recorded: of an attempt, or of a Sandbox that was finalized. -/
inductive Recording
  | attempt (cost : ℕ)
  | sandbox (cost : ℕ)
  deriving DecidableEq

namespace Recording

def cost : Recording → ℕ
  | attempt cost => cost
  | sandbox cost => cost

def attemptCost : Recording → ℕ
  | attempt cost => cost
  | sandbox _ => 0

def sandboxCost : Recording → ℕ
  | attempt _ => 0
  | sandbox cost => cost

/-- The sum of the attempt costs and the largest reconciled total after a recording. -/
def apply : Recording → ℕ × ℕ → ℕ × ℕ
  | attempt cost, (spent, reconciled) => (spent + cost, reconciled)
  | sandbox cost, (spent, reconciled) => (spent, max spent reconciled + cost)

@[simp] theorem attemptCost_attempt (cost : ℕ) : (attempt cost).attemptCost = cost := rfl

@[simp] theorem attemptCost_sandbox (cost : ℕ) : (sandbox cost).attemptCost = 0 := rfl

@[simp] theorem sandboxCost_attempt (cost : ℕ) : (attempt cost).sandboxCost = 0 := rfl

@[simp] theorem sandboxCost_sandbox (cost : ℕ) : (sandbox cost).sandboxCost = cost := rfl

end Recording

/-- The sum of all recorded costs. -/
def totalCost (recordings : List Recording) : ℕ := (recordings.map Recording.cost).sum

/-- The two parts of the observed total after a sequence of recordings. -/
def afterRecordings (parts : ℕ × ℕ) (recordings : List Recording) : ℕ × ℕ :=
  recordings.foldl (fun parts recording ↦ recording.apply parts) parts

/-- No attempt that cost something is recorded after a Sandbox that did. -/
def AttemptsFirst (recordings : List Recording) : Prop :=
  recordings.Pairwise fun first second ↦ ¬ (0 < first.sandboxCost ∧ 0 < second.attemptCost)

instance : DecidablePred AttemptsFirst := fun _ ↦ inferInstanceAs (Decidable (List.Pairwise _ _))

/-- The observed total never grows by more than the recorded costs. -/
theorem observed_le_total (recordings : List Recording) (spent reconciled : ℕ) :
    max (afterRecordings (spent, reconciled) recordings).1
      (afterRecordings (spent, reconciled) recordings).2 ≤
        max spent reconciled + totalCost recordings := by
  induction recordings generalizing spent reconciled with
  | nil => simp [afterRecordings, totalCost]
  | cons recording rest ih =>
    cases recording with
    | attempt cost =>
      have hrest := ih (spent + cost) reconciled
      simp only [afterRecordings, totalCost, List.foldl_cons, List.map_cons, List.sum_cons,
        Recording.apply, Recording.cost] at hrest ⊢
      omega
    | sandbox cost =>
      have hrest := ih spent (max spent reconciled + cost)
      simp only [afterRecordings, totalCost, List.foldl_cons, List.map_cons, List.sum_cons,
        Recording.apply, Recording.cost] at hrest ⊢
      omega

/-- The observed total grows by all recorded costs exactly when attempts that cost something come
before Sandboxes that do, and none comes after a reconciled total that is already ahead. -/
theorem observed_eq_iff (recordings : List Recording) (spent reconciled : ℕ) :
    max (afterRecordings (spent, reconciled) recordings).1
      (afterRecordings (spent, reconciled) recordings).2 =
        max spent reconciled + totalCost recordings ↔
    AttemptsFirst recordings ∧
      (spent < reconciled → ∀ recording ∈ recordings, recording.attemptCost = 0) := by
  induction recordings generalizing spent reconciled with
  | nil => simp [afterRecordings, totalCost, AttemptsFirst]
  | cons recording rest ih =>
    have hbound := observed_le_total rest
    unfold AttemptsFirst at ih ⊢
    rw [List.pairwise_cons]
    cases recording with
    | attempt cost =>
      have hrest := ih (spent + cost) reconciled
      have hmost := hbound (spent + cost) reconciled
      simp only [afterRecordings, totalCost, List.foldl_cons, List.map_cons, List.sum_cons,
        List.forall_mem_cons, Recording.apply, Recording.cost, Recording.sandboxCost_attempt,
        Recording.attemptCost_attempt, Nat.lt_irrefl, false_and, not_false_eq_true, implies_true,
        true_and] at hrest hmost ⊢
      by_cases hahead : spent < reconciled
      · by_cases hcost : cost = 0
        · subst hcost
          simpa [hahead] using hrest
        · constructor
          · intro htotal
            omega
          · rintro ⟨-, hzero⟩
            exact absurd (hzero hahead).1 hcost
      · have hbehind : ¬ spent + cost < reconciled := by omega
        simp only [hahead, hbehind, false_imp_iff, and_true] at hrest ⊢
        rw [← hrest]
        constructor
        · intro htotal
          omega
        · intro htotal
          omega
    | sandbox cost =>
      have hrest := ih spent (max spent reconciled + cost)
      simp only [afterRecordings, totalCost, List.foldl_cons, List.map_cons, List.sum_cons,
        List.forall_mem_cons, Recording.apply, Recording.cost, Recording.sandboxCost_sandbox,
        Recording.attemptCost_sandbox, true_and] at hrest ⊢
      have hahead : spent < max spent reconciled + cost ↔ 0 < cost ∨ spent < reconciled := by omega
      have htotal : max spent (max spent reconciled + cost) = max spent reconciled + cost := by omega
      rw [htotal, hahead, Nat.add_assoc] at hrest
      rw [hrest]
      have hnone : (∀ recording ∈ rest, ¬ (0 < cost ∧ 0 < recording.attemptCost)) ↔
          (0 < cost → ∀ recording ∈ rest, recording.attemptCost = 0) := by
        constructor
        · intro h hcost recording hrecording
          have := h recording hrecording
          omega
        · intro h recording hrecording hboth
          have := h hboth.1 recording hrecording
          omega
      rw [hnone]
      constructor
      · rintro ⟨hfirst, hzero⟩
        exact ⟨⟨fun hcost ↦ hzero (.inl hcost), hfirst⟩, fun hspent ↦ hzero (.inr hspent)⟩
      · rintro ⟨⟨hcost, hfirst⟩, hspent⟩
        exact ⟨hfirst, fun hpositive ↦ hpositive.elim hcost hspent⟩

theorem observed_eq_total_iff (recordings : List Recording) :
    max (afterRecordings (0, 0) recordings).1 (afterRecordings (0, 0) recordings).2 =
      totalCost recordings ↔ AttemptsFirst recordings := by
  have h := observed_eq_iff recordings 0 0
  simpa using h

/-! ### The service's recordings -/

/-- The two parts of a campaign's observed total. -/
def spendingParts (world : World) (campaignId : String) : ℕ × ℕ :=
  (costIn world.projection.attempts campaignId, reconciledIn world.projection.budgets campaignId)

section

variable [Digests] {world world' : World} {thread : ℕ} {choice : Choice}

theorem eval_ask_bind {β : Type} {question : Query} {next : question.Ans → Act β}
    {result : Option (Except ServiceError β) × World}
    (h : machine.eval thread choice (ask question >>= next) world = result) :
    machine.eval thread choice (next (question.answer world.projection)) world = result := h

theorem eval_append_bind {β : Type} {record : Record} {next : Bool → Act β} {value : β}
    (h : machine.eval thread choice (append record >>= next) world = (some (.ok value), world')) :
    ∃ created state, world.append record = (.ok created, state) ∧
      machine.eval thread choice (next created) state = (some (.ok value), world') := by
  rw [Machine.eval_bind, eval_append] at h
  cases happend : world.append record with
  | mk answer state =>
    rw [happend] at h
    cases answer with
    | ok created => exact ⟨created, state, rfl, h⟩
    | error error => cases h

/-- An attempt that was recorded now adds its cost. -/
theorem attemptSerialized_recorded {input : AttemptInput} {actor : Actor} {record : AttemptReceipt}
    (h : Booked world) (heval : machine.eval thread choice (attemptSerialized input actor) world =
      (some (.ok (record, false)), world')) : Booked world' ∧ world'.projection.attempts =
      world.projection.attempts ++ [attemptRecord input actor] ∧
        world'.projection.budgets = world.projection.budgets := by
  replace heval := eval_ask_bind heval
  split at heval
  · split_ifs at heval
    · cases heval
    · cases heval
  next hnew =>
  replace heval := eval_ask_bind heval
  split at heval
  · cases heval
  replace heval := eval_ask_bind heval
  split at heval
  · split_ifs at heval
    · cases heval
    · cases heval
  replace heval := eval_ask_bind heval
  split at heval
  · cases heval
  split_ifs at heval
  · cases heval
  replace heval := eval_ask_bind heval
  split at heval
  · cases heval
  split_ifs at heval
  · cases heval
  obtain ⟨created, state, happend, heval⟩ := eval_append_bind heval
  cases heval
  refine ⟨h.append_ok happend, ?_⟩
  rcases World.append_ok h.synced happend with ⟨hmem, -⟩ | ⟨-, haccepts, -, rfl⟩
  · -- a stored attempt is in the table, and would have been found
    exact absurd rfl (lookup_eq_none.mp hnew _ (h.attempts_complete _ hmem))
  · rw [World.afterAppend_projection haccepts]
    simp [extend]

/-- A finalization that closed the books now reconciles to the observed total plus its cost. -/
theorem finalizeSerialized_recorded {campaignId createActionId : String}
    {completedAt reservation cost : ℕ} (h : Booked world)
    (hopen : world.projection.budget (sandboxReleaseId campaignId createActionId) = none)
    (heval : machine.eval thread choice
      (finalizeSerialized campaignId createActionId completedAt reservation cost) world =
        (some (.ok ()), world')) : Booked world' ∧ spendingParts world' campaignId =
      (Recording.sandbox cost).apply (spendingParts world campaignId) := by
  replace heval := eval_ask_bind heval
  dsimp only [Query.answer] at heval
  rw [hopen] at heval
  replace heval := eval_ask_bind heval
  split at heval
  · cases heval
  next view hview =>
  have hobserved : view.observedMicrousd = max (spendingParts world campaignId).1
      (spendingParts world campaignId).2 := by
    obtain ⟨row, -, rfl, rfl⟩ := campaign_eq_some hview
    rfl
  obtain ⟨created, state, hreconcile, heval⟩ := eval_append_bind heval
  obtain ⟨released, last, hrelease, heval⟩ := eval_append_bind heval
  cases heval
  have hstate := h.append_ok hreconcile
  have hlast := hstate.append_ok hrelease
  refine ⟨hlast, ?_⟩
  -- the reconcile event is in the ledger, whether it was written now or before
  have hmiddle : spendingParts state campaignId =
      (Recording.sandbox cost).apply (spendingParts world campaignId) := by
    rcases World.append_ok h.synced hreconcile with ⟨hmem, rfl⟩ | ⟨-, haccepts, -, rfl⟩
    · have hbound := observedAmount_le_reconciledIn (h.budgets_all _ hmem)
      simp only [budgetRow, budgetEvent, BudgetRow.observedAmount] at hbound
      rw [hobserved] at hbound
      simp only [spendingParts, Recording.apply, Prod.mk.injEq, true_and] at hbound ⊢
      omega
    · unfold spendingParts
      rw [World.afterAppend_projection haccepts]
      simp only [spendingParts] at hobserved
      simp only [extend, attemptOf, budgetRowOf, Option.toList_none, Option.toList_some,
        List.append_nil, reconciledIn_append, reconciledIn_cons, reconciledIn_nil, budgetRow,
        budgetEvent, BudgetRow.observedAmount, if_true, hobserved, Recording.apply, Prod.mk.injEq,
        true_and]
      omega
  rw [← hmiddle]
  rcases World.append_ok hstate.synced hrelease with ⟨hmem, rfl⟩ | ⟨-, haccepts, -, rfl⟩
  · rfl
  · unfold spendingParts
    rw [World.afterAppend_projection haccepts]
    simp [extend, reconciledIn_append, reconciledIn_cons, budgetRow, budgetEvent,
      BudgetRow.observedAmount]

/-- A method in the budget queue, run alone, is its body with the queue held. -/
theorem eval_budgetQueue {β : Type} {method : Act β} {value : β}
    (h : machine.eval thread choice (withQueue .budget method) world = (some (.ok value), world')) :
    ∃ state, machine.eval thread choice method (world.hold .budget thread) =
      (some (.ok value), state) ∧ world' = state.leave .budget thread := by
  rw [eval_withQueue] at h
  split_ifs at h
  · cases h
  · cases hmethod : machine.eval thread choice method (world.hold .budget thread) with
    | mk outcome state =>
      rw [hmethod] at h
      cases outcome with
      | none => cases h
      | some outcome =>
        cases h
        exact ⟨state, rfl, rfl⟩

/-- A sequence of recordings of a campaign's costs, made by the service's methods from complete books;
between them other work may go on that leaves the campaign's costs alone. -/
inductive Recorded (campaignId : String) : List Recording → World → World → Prop
  | nil {world : World} : Recorded campaignId [] world world
  | attempt {world middle last : World} {recordings : List Recording} {thread : ℕ}
      {choice : Choice} {input : AttemptInput} {actor : Actor} {record : AttemptReceipt}
      (hcampaign : input.campaignId = campaignId)
      (heval : machine.eval thread choice (attemptWithStatus input actor) world =
        (some (.ok (record, false)), middle))
      (hrest : Recorded campaignId recordings middle last) :
      Recorded campaignId (.attempt input.costMicrousd :: recordings) world last
  | sandbox {world middle last : World} {recordings : List Recording} {thread : ℕ}
      {choice : Choice} {createActionId : String} {completedAt reservation cost : ℕ}
      (hopen : world.projection.budget (sandboxReleaseId campaignId createActionId) = none)
      (heval : machine.eval thread choice
        (finalizeSandboxBudget campaignId createActionId completedAt reservation cost) world =
          (some (.ok ()), middle))
      (hrest : Recorded campaignId recordings middle last) :
      Recorded campaignId (.sandbox cost :: recordings) world last
  | other {world middle last : World} {recordings : List Recording} (hbooked : Booked middle)
      (hparts : spendingParts middle campaignId = spendingParts world campaignId)
      (hrest : Recorded campaignId recordings middle last) :
      Recorded campaignId recordings world last

/-- The service's recordings do to the parts of the total what `Recording.apply` says. -/
theorem Recorded.parts {campaignId : String} {recordings : List Recording}
    (h : Recorded campaignId recordings world world') (hbooked : Booked world) :
    spendingParts world' campaignId =
      afterRecordings (spendingParts world campaignId) recordings := by
  induction h with
  | nil => rfl
  | @attempt world middle last recordings thread choice input actor record hcampaign heval _ ih =>
    obtain ⟨state, hstate, rfl⟩ := eval_budgetQueue heval
    obtain ⟨hbooked', hattempts, hbudgets⟩ :=
      attemptSerialized_recorded (hbooked.of_held _) hstate
    rw [ih (hbooked'.of_held _)]
    have hparts : spendingParts (state.leave .budget thread) campaignId =
        (Recording.attempt input.costMicrousd).apply (spendingParts world campaignId) := by
      unfold spendingParts World.leave
      rw [hattempts, hbudgets, costIn_append]
      simp [costIn, attemptRecord, hcampaign, Recording.apply]
    rw [hparts]
    rfl
  | @sandbox world middle last recordings thread choice createActionId completedAt reservation cost
      hopen heval _ ih =>
    obtain ⟨state, hstate, rfl⟩ := eval_budgetQueue heval
    have hheld : Booked (world.hold .budget thread) := hbooked.of_held _
    obtain ⟨hbooked', hparts⟩ := finalizeSerialized_recorded hheld hopen hstate
    rw [ih (hbooked'.of_held _)]
    change afterRecordings (spendingParts state campaignId) _ = _
    rw [hparts]
    rfl
  | other hbooked' hparts _ ih => rw [ih hbooked', hparts]

/-- The observed total after a sequence of recordings is the sum of their costs exactly when no
attempt that cost something was recorded after a Sandbox that did. -/
theorem observed_additive_iff {campaignId : String} {recordings : List Recording}
    (hbooked : Booked world) (hzero : world.projection.observedMicrousd campaignId = 0)
    (h : Recorded campaignId recordings world world') :
    world'.projection.observedMicrousd campaignId = totalCost recordings ↔
      AttemptsFirst recordings := by
  have hparts := h.parts hbooked
  have hstart : spendingParts world campaignId = (0, 0) := by
    rw [observedMicrousd_eq] at hzero
    simp only [spendingParts, Prod.mk.injEq]
    omega
  rw [hstart] at hparts
  rw [← observed_eq_total_iff recordings, ← hparts]
  rfl

end

/-! ### One attempt and one Sandbox

A campaign whose Sandbox has reserved 50, with an attempt of cost 10 and a Sandbox that costs 10 to
record: in one order they make 20, in the other 10. -/

section

local instance spendingDigests : Digests := plainDigests

/-- The records of the campaign with its launch, its Sandbox and the Sandbox's reservation. -/
def spendingRecords : List Record :=
  [.actionIntent sampleLaunch, .actionIntent sampleCreate,
    .budgetEvent (budgetEvent "c" (sandboxReservationId "c" "s") .reserve 50 2),
    .campaignLock sampleLock]

def spendingWorld : World :=
  ⟨⟨spendingRecords, [⟨"e", "d", 1, .notJson⟩], []⟩,
    { extendAll spendingRecords {} with ready := true }, []⟩

def recordAttempt (world : World) : Option (Except ServiceError (AttemptReceipt × Bool)) × World :=
  machine.eval 0 {} (attemptWithStatus (sampleAttempt "a" 10) serviceActor) world

def finalizeSandbox (world : World) : Option (Except ServiceError Unit) × World :=
  machine.eval 0 {} (finalizeSandboxBudget "c" "s" 9 50 10) world

theorem recorded_attempt {recordings : List Recording} {world last : World}
    (hfirst : (recordAttempt world).1 =
      some (.ok (attemptRecord (sampleAttempt "a" 10) serviceActor, false)))
    (hrest : Recorded "c" recordings (recordAttempt world).2 last) :
    Recorded "c" (.attempt 10 :: recordings) world last :=
  .attempt rfl (Prod.ext hfirst rfl) hrest

theorem recorded_sandbox {recordings : List Recording} {world last : World}
    (hopen : world.projection.budget (sandboxReleaseId "c" "s") = none)
    (hfirst : (finalizeSandbox world).1 = some (.ok ()))
    (hrest : Recorded "c" recordings (finalizeSandbox world).2 last) :
    Recorded "c" (.sandbox 10 :: recordings) world last :=
  .sandbox hopen (Prod.ext hfirst rfl) hrest

def attemptThenSandbox : World := (finalizeSandbox (recordAttempt spendingWorld).2).2

def sandboxThenAttempt : World := (recordAttempt (finalizeSandbox spendingWorld).2).2

theorem spending_runs : (spendingWorld.restart = some spendingWorld ∧
      spendingWorld.projection.observedMicrousd "c" = 0) ∧
    ((recordAttempt spendingWorld).1 =
        some (.ok (attemptRecord (sampleAttempt "a" 10) serviceActor, false)) ∧
      (recordAttempt spendingWorld).2.projection.budget (sandboxReleaseId "c" "s") = none ∧
        (finalizeSandbox (recordAttempt spendingWorld).2).1 = some (.ok ())) ∧
    (spendingWorld.projection.budget (sandboxReleaseId "c" "s") = none ∧
      (finalizeSandbox spendingWorld).1 = some (.ok ()) ∧
        (recordAttempt (finalizeSandbox spendingWorld).2).1 =
          some (.ok (attemptRecord (sampleAttempt "a" 10) serviceActor, false))) ∧
    attemptThenSandbox.projection.observedMicrousd "c" = 20 ∧
      sandboxThenAttempt.projection.observedMicrousd "c" = 10 := by
  decide +kernel

theorem spendingWorld_booked : Booked spendingWorld := booked_of_restart spending_runs.1.1

theorem recorded_attemptThenSandbox :
    Recorded "c" [.attempt 10, .sandbox 10] spendingWorld attemptThenSandbox := by
  obtain ⟨-, ⟨hattempt, hopen, hsandbox⟩, -⟩ := spending_runs
  exact recorded_attempt hattempt (recorded_sandbox hopen hsandbox .nil)

theorem recorded_sandboxThenAttempt :
    Recorded "c" [.sandbox 10, .attempt 10] spendingWorld sandboxThenAttempt := by
  obtain ⟨-, -, ⟨hopen, hsandbox, hattempt⟩, -⟩ := spending_runs
  exact recorded_sandbox hopen hsandbox (recorded_attempt hattempt .nil)

/-- With the attempt recorded first, the observed total is the sum of the two costs. -/
theorem attemptThenSandbox_observed : attemptThenSandbox.projection.observedMicrousd "c" = 20 :=
  (observed_additive_iff spendingWorld_booked spending_runs.1.2
    recorded_attemptThenSandbox).mpr (by decide)

/-- The two orders of the same recordings give different totals, and one of them misses a cost. -/
theorem observed_depends_on_order :
    ∃ first second : World, ∃ recordings recordings' : List Recording,
      recordings.Perm recordings' ∧ Recorded "c" recordings spendingWorld first ∧
        Recorded "c" recordings' spendingWorld second ∧
          first.projection.observedMicrousd "c" = totalCost recordings ∧
            second.projection.observedMicrousd "c" ≠ totalCost recordings' ∧
              first.projection.observedMicrousd "c" ≠ second.projection.observedMicrousd "c" := by
  obtain ⟨-, -, -, hfirst, hsecond⟩ := spending_runs
  refine ⟨attemptThenSandbox, sandboxThenAttempt, _, _, List.Perm.swap _ _ _,
    recorded_attemptThenSandbox, recorded_sandboxThenAttempt, hfirst, ?_, ?_⟩
  · rw [hsecond]
    decide
  · rw [hfirst, hsecond]
    decide

end

end HarborHF.Control
