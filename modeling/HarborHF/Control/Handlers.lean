import HarborHF.Control.Lifecycle

/-!
# The handlers of Jobs

What the reconciler and the API do with Jobs, attempts and terminal selections, each method with the
facts it starts from. A handler gets its facts from queries (`Tracked.mem_campaignAttempts` and the
like), and what it appends is licensed by them: `attempt` by the queue of the budget, the replacement
of an attempt by the queue of retries, a terminal selection by the reconciler's look at an open task.
-/

set_option autoImplicit false

namespace HarborHF.Control

open Async Program Relational Projection

section

variable [Digests] {allowed : ReconcilerOptions → Prop} {strict : Prop} {role : ThreadRole}
  {thread : ℕ} {state : World × Log} {intent : ActionIntent}

/-! ### What queries say -/

/-- Rows of the action table are stored intents with their stored receipts. -/
structure RowOf (records : List Record) (row : ActionRow) : Prop where
  intent : .actionIntent row.intent ∈ records
  receipt : ∀ receipt, row.receipt = some receipt → .actionReceipt receipt ∈ records ∧
    receipt.actionId = row.intent.actionId ∧ receipt.campaignId = row.intent.campaignId

omit [Digests] in
theorem RowOf.mono {records records' : List Record} {row : ActionRow} (h : RowOf records row)
    (hsubset : ∀ record ∈ records, record ∈ records') : RowOf records' row := by
  refine ⟨hsubset _ h.intent, fun receipt hreceipt ↦ ?_⟩
  obtain ⟨hstored, hrest⟩ := h.receipt receipt hreceipt
  exact ⟨hsubset _ hstored, hrest⟩

theorem Tracked.rowOf (h : Tracked allowed state) {row : ActionRow}
    (hrow : row ∈ state.1.projection.actions) : RowOf state.1.store.records row :=
  ⟨h.history.actions.stored row hrow, h.history.actions.receipt row hrow⟩

theorem Tracked.mem_campaignActions (h : Tracked allowed state) {campaignId : String}
    {row : ActionRow} (hrow : row ∈ state.1.projection.campaignActions campaignId) :
    RowOf state.1.store.records row ∧ row.intent.campaignId = campaignId := by
  unfold campaignActions at hrow
  rw [List.mem_insertionSort, List.mem_filter, decide_eq_true_eq] at hrow
  exact ⟨h.rowOf hrow.1, hrow.2⟩

theorem Tracked.mem_pendingActions (h : Tracked allowed state) {limit : ℕ}
    (hintent : intent ∈ state.1.projection.pendingActions limit) :
    .actionIntent intent ∈ state.1.store.records := by
  unfold pendingActions at hintent
  obtain ⟨row, hrow, rfl⟩ := List.mem_map.mp hintent
  have hsorted := List.mem_of_mem_take hrow
  rw [List.mem_insertionSort, List.mem_filter] at hsorted
  exact (h.rowOf hsorted.1).intent

theorem Tracked.mem_unadvancedActions (h : Tracked allowed state) {limit : ℕ}
    {entry : ActionIntent × ActionReceipt}
    (hentry : entry ∈ state.1.projection.unadvancedActions limit) :
    RowOf state.1.store.records ⟨entry.1, some entry.2⟩ := by
  unfold unadvancedActions at hentry
  obtain ⟨row, hrow, hpair⟩ := List.mem_filterMap.mp hentry
  obtain ⟨receipt, hreceipt, rfl⟩ := Option.map_eq_some_iff.mp hpair
  have hsorted := List.mem_of_mem_take hrow
  rw [List.mem_insertionSort, List.mem_filter] at hsorted
  have hstored := h.rowOf hsorted.1
  refine ⟨hstored.intent, fun other hother ↦ ?_⟩
  cases hother
  exact hstored.receipt receipt hreceipt

theorem Tracked.mem_campaignAttempts (h : Tracked allowed state) {campaignId : String}
    {attempt : AttemptReceipt} : attempt ∈ state.1.projection.campaignAttempts campaignId ↔
      .attemptReceipt attempt ∈ state.1.store.records ∧ attempt.campaignId = campaignId := by
  unfold campaignAttempts
  rw [List.mem_insertionSort, List.mem_filter, decide_eq_true_eq, h.roster.mem_attempts]

theorem Tracked.attemptById_eq_some (h : Tracked allowed state) {attemptId : String}
    {attempt : AttemptReceipt} (hattempt : state.1.projection.attemptById attemptId = some attempt) :
    .attemptReceipt attempt ∈ state.1.store.records ∧ attempt.attemptId = attemptId := by
  obtain ⟨hmem, hid⟩ := lookup_mem hattempt
  exact ⟨(h.roster.mem_attempts attempt).mp hmem, hid⟩

theorem Tracked.attemptById_eq_none (h : Tracked allowed state) {attemptId : String}
    (hnone : state.1.projection.attemptById attemptId = none) {attempt : AttemptReceipt}
    (hattempt : .attemptReceipt attempt ∈ state.1.store.records) : attempt.attemptId ≠ attemptId :=
  lookup_eq_none.mp hnone attempt ((h.roster.mem_attempts attempt).mpr hattempt)

theorem Tracked.attemptForActionTask_eq_some (h : Tracked allowed state) {actionId taskId : String}
    {attempt : AttemptReceipt}
    (hattempt : state.1.projection.attemptForActionTask actionId taskId = some attempt) :
    .attemptReceipt attempt ∈ state.1.store.records ∧ attempt.actionId = actionId ∧
      attempt.taskId = taskId := by
  have hmem := List.mem_of_find?_eq_some hattempt
  have hfields := List.find?_some hattempt
  exact ⟨(h.roster.mem_attempts attempt).mp hmem, of_decide_eq_true hfields⟩

theorem Tracked.attemptForActionTask_eq_none (h : Tracked allowed state) {actionId taskId : String}
    (hnone : state.1.projection.attemptForActionTask actionId taskId = none)
    {attempt : AttemptReceipt} (hattempt : .attemptReceipt attempt ∈ state.1.store.records) :
    ¬ (attempt.actionId = actionId ∧ attempt.taskId = taskId) := by
  intro hfields
  have hrow := List.find?_eq_none.mp hnone attempt ((h.roster.mem_attempts attempt).mpr hattempt)
  exact hrow (decide_eq_true hfields)

theorem Tracked.unselected_of_row (h : Tracked allowed state) {row : TaskRow}
    (hrow : row ∈ state.1.projection.tasks) (hopen : row.terminalOutcome.isSome = false) :
    Unselected state.1 row.campaignId row.taskId ∧ row.selectedAttemptId = none := by
  have hunselected : Unselected state.1 row.campaignId row.taskId := by
    intro selection hselection hcloses
    rw [(h.roster.closed row hrow selection hselection hcloses).1] at hopen
    cases hopen
  refine ⟨hunselected, (h.roster.untouched row hrow fun selection hselection hcloses ↦ ?_).2⟩
  exact hunselected selection hselection hcloses

omit [Digests] in
theorem task_eq_some {P : Projection} {campaignId taskId : String} {view : TaskView}
    (h : P.task campaignId taskId = some view) :
    view.task ∈ P.tasks ∧ view.task.campaignId = campaignId ∧ view.task.taskId = taskId ∧
      (P.taskRow? campaignId taskId).isSome = true ∧
        ∀ attempt, attempt ∈ view.attempts ↔
          attempt ∈ P.attempts ∧ attempt.campaignId = campaignId ∧ attempt.taskId = taskId := by
  obtain ⟨row, hrow, rfl⟩ := Option.map_eq_some_iff.mp h
  obtain ⟨hmem, hkey⟩ := lookup_mem hrow
  obtain ⟨hcampaign, htask⟩ := Prod.mk.inj hkey
  refine ⟨hmem, hcampaign, htask, by rw [hrow]; rfl, fun attempt ↦ ?_⟩
  rw [List.mem_insertionSort, List.mem_filter, decide_eq_true_eq]

/-- Without a recorded retry of an attempt no launch of its campaign replaces it. -/
theorem Tracked.retryActionForAttempt_eq_none (h : Tracked allowed state)
    {campaignId attemptId : String}
    (hnone : (state.1.projection.retryActionForAttempt campaignId attemptId).isSome = false)
    (hintent : .actionIntent intent ∈ state.1.store.records)
    (hkind : intent.actionKind = .jobLaunch) (hcampaign : intent.campaignId = campaignId) :
    intent.payload.priorAttemptId ≠ some attemptId := by
  intro hprior
  obtain ⟨row, hrow, rfl⟩ := h.history.actions.complete intent hintent
  unfold retryActionForAttempt at hnone
  rw [Option.isSome_eq_false_iff, Option.isNone_iff_eq_none, List.head?_eq_none_iff] at hnone
  have hmem : row ∈ (state.1.projection.actions.filter fun row ↦
      row.intent.campaignId = campaignId ∧ row.intent.actionKind = .jobLaunch ∧
        row.intent.payload.priorAttemptId = some attemptId).insertionSort
          (Chronological actionTime actionKey) := by
    rw [List.mem_insertionSort, List.mem_filter, decide_eq_true_eq]
    exact ⟨hrow, hcampaign, hkind, hprior⟩
  rw [hnone] at hmem
  cases hmem

theorem Tracked.hasCampaignAction_eq_true (h : Tracked allowed state) {campaignId : String}
    {kind : ActionKind} (htrue : state.1.projection.hasCampaignAction campaignId kind = true) :
    ∃ intent, .actionIntent intent ∈ state.1.store.records ∧ intent.campaignId = campaignId ∧
      intent.actionKind = kind := by
  obtain ⟨row, hrow, hfields⟩ := List.any_eq_true.mp htrue
  exact ⟨row.intent, (h.rowOf hrow).intent, of_decide_eq_true hfields⟩

theorem Tracked.intent_unique (h : Tracked allowed state) {first second : ActionIntent}
    (hfirst : .actionIntent first ∈ state.1.store.records)
    (hsecond : .actionIntent second ∈ state.1.store.records)
    (hid : first.actionId = second.actionId) : first = second := by
  have hkey := CanonicalIntent.key_eq (h.history.canonical _ hfirst) (h.history.canonical _ hsecond) hid
  exact Record.actionIntent.inj (h.history.synced.keyed.eq_of_mem hfirst hsecond hkey)

theorem Tracked.attempt_unique (h : Tracked allowed state) {first second : AttemptReceipt}
    (hfirst : .attemptReceipt first ∈ state.1.store.records)
    (hsecond : .attemptReceipt second ∈ state.1.store.records)
    (hid : first.attemptId = second.attemptId) : first = second :=
  h.roster.keyedAttempts.eq_of_mem ((h.roster.mem_attempts first).mpr hfirst)
    ((h.roster.mem_attempts second).mpr hsecond) hid

/-! ### Attempts -/

/-- An attempt of an input's task is stored. -/
def Submitted (input : AttemptInput) (attempt : AttemptReceipt) (state : World × Log) : Prop :=
  .attemptReceipt attempt ∈ state.1.store.records ∧ attempt.campaignId = input.campaignId ∧
    attempt.taskId = input.taskId

/-- The thread read a task, not since then again, and every terminal selection of the task was
appended after that. -/
def Watched (thread : ℕ) (campaignId taskId : String) (state : World × Log) : Prop :=
  ∃ later read earlier, state.2 = later ++ read :: earlier ∧
    ReadsTask thread campaignId taskId read ∧
      (∀ performed ∈ later, ¬ ReadsTask thread campaignId taskId performed) ∧
        ∀ selection, .terminalSelection selection ∈ state.1.store.records →
          selection.campaignId = campaignId → selection.taskId = taskId →
            ∃ performed ∈ later, performed.op = .append (.terminalSelection selection)

omit [Digests] in
theorem enduring_submitted (input : AttemptInput) (attempt : AttemptReceipt) :
    Enduring (Submitted input attempt) :=
  fun _ _ hstored _ h ↦ ⟨hstored _ h.1, h.2⟩

omit [Digests] in
theorem enduring_eligible (attempt : AttemptReceipt) :
    Enduring fun state ↦ Eligible state.1.store.records attempt :=
  fun _ _ hstored _ h ↦ h.mono hstored

omit [Digests] in
theorem stable_watched (campaignId taskId : String) :
    Stable role thread (Watched thread campaignId taskId) := by
  rintro before after hsteady ⟨later, read, earlier, hlog, hread, hquiet, hselections⟩
  obtain ⟨added, hadded, hothers, hwitnessed⟩ := hsteady.log
  refine ⟨added ++ later, read, earlier, ?_, hread, ?_, ?_⟩
  · rw [hadded, hlog, List.append_assoc]
  · intro performed hmem hreads
    rcases List.mem_append.mp hmem with hnew | hold
    · exact hothers performed hnew hreads.1
    · exact hquiet performed hold hreads
  · intro selection hselection hcampaign htask
    rcases hwitnessed selection hselection with hold | ⟨performed, hmem, hop⟩
    · obtain ⟨performed, hmem, hop⟩ := hselections selection hold hcampaign htask
      exact ⟨performed, List.mem_append_right _ hmem, hop⟩
    · exact ⟨performed, List.mem_append_left _ hmem, hop⟩

omit [Digests] in
theorem watched_of_unselected {campaignId taskId : String} (h : Unselected state.1 campaignId taskId) :
    Watched thread campaignId taskId (asked thread (.task campaignId taskId) state) := by
  refine ⟨[], _, state.2, rfl, ⟨rfl, rfl⟩, fun _ hmem ↦ absurd hmem List.not_mem_nil, ?_⟩
  exact fun selection hselection hcampaign htask ↦ absurd ⟨hcampaign, htask⟩ (h selection hselection)

omit [Digests] in
theorem Watched.asked {campaignId taskId : String} (question : Query)
    (hquestion : question ≠ .task campaignId taskId) (h : Watched thread campaignId taskId state) :
    Watched thread campaignId taskId (asked thread question state) := by
  obtain ⟨later, read, earlier, hlog, hread, hquiet, hselections⟩ := h
  refine ⟨_ :: later, read, earlier, congrArg (List.cons _) hlog, hread, ?_, ?_⟩
  · intro performed hmem hreads
    rcases List.mem_cons.mp hmem with rfl | hold
    · exact hquestion (Op.query.inj hreads.2)
    · exact hquiet performed hold hreads
  · intro selection hselection hcampaign htask
    obtain ⟨performed, hmem, hop⟩ := hselections selection hselection hcampaign htask
    exact ⟨performed, List.mem_cons_of_mem _ hmem, hop⟩

omit [Digests] in
theorem Watched.unselected {attempt : AttemptReceipt}
    (h : Watched thread attempt.campaignId attempt.taskId state)
    (hundisturbed : Undisturbed thread state.2 (.append (.attemptReceipt attempt))) :
    Unselected state.1 attempt.campaignId attempt.taskId := by
  obtain ⟨later, read, earlier, hlog, hread, hquiet, hselections⟩ := h
  rintro selection hselection ⟨hcampaign, htask⟩
  obtain ⟨performed, hmem, hop⟩ := hselections selection hselection hcampaign htask
  exact hundisturbed later read earlier hlog hread hquiet performed hmem
    ⟨selection, hop, hcampaign, htask⟩

/-- What the checks of an attempt found in the queue of the budget. -/
def AttemptChecked (thread : ℕ) (input : AttemptInput) (state : World × Log) : Prop :=
  Sealed thread .budget (fun record ↦ ∀ attempt, record = .attemptReceipt attempt →
    attempt.attemptId ≠ input.attemptId ∧
      ¬ (attempt.actionId = input.actionId ∧ attempt.taskId = input.taskId)) state

variable {hold : World × Log → Prop} {input : AttemptInput} {actor : Actor}

/-- The last step of an attempt: it has passed its checks, its task is watched, and its action is
eligible. -/
theorem appendAttempt_job {next : Bool → Act (AttemptReceipt × Bool)}
    (hnext : ∀ created, next created = .ret (attemptRecord input actor, false))
    (hguarded : Guarded role thread [] hold)
    (hattempted : ∀ before, Tracked allowed before → hold before →
      Attempted allowed before.1.store.records (attemptRecord input actor))
    (hstate : hold state) (hchecked : AttemptChecked thread input state)
    (heligible : Eligible state.1.store.records (attemptRecord input actor))
    (hwatched : Watched thread input.campaignId input.taskId state)
    (htask : (state.1.projection.taskRow? input.campaignId input.taskId).isSome = true) :
    JobSafe allowed strict role thread (append (.attemptReceipt (attemptRecord input actor)) >>= next)
      (fun result last ↦ Submitted input result.1 last ∧ hold last) state := by
  have hsteadyTask : Stable role thread fun state ↦
      (state.1.projection.taskRow? input.campaignId input.taskId).isSome = true :=
    fun before after hsteady hrow ↦ hsteady.tasks (input.campaignId, input.taskId) hrow
  have hsteadyChecked : Guarded role thread [.budget] (AttemptChecked thread input) :=
    guarded_sealed List.mem_cons_self
  refine job_append (hsteadyChecked.stable.and (hguarded.stable.and
    ((enduring_eligible _).stable.and ((stable_watched _ _).and hsteadyTask))))
    ⟨hchecked, hstate, heligible, hwatched, htask⟩ ?_ ?_ ?_
  · rintro before hbefore ⟨hchecked, hhold, heligible, -, hrow⟩
    refine ⟨⟨hattempted before hbefore hhold, heligible, fun other hother ↦ ?_⟩, trivial, ?_, ?_, ?_⟩
    · exact (hchecked.2 _ hother trivial other rfl).2
    · rintro (_ | _ | _ | _ | _) hguards
      · exact hchecked.1
      all_goals cases hguards
    · rintro attempt hattempt
      cases hattempt
      exact ⟨hrow, fun other hother ↦ (hchecked.2 _ hother trivial other rfl).1⟩
    · rintro selection hselection
      cases hselection
  · rintro before hbefore ⟨-, -, -, hwatched, -⟩ hundisturbed attempt hattempt
    cases hattempt
    exact Watched.unselected hwatched hundisturbed
  · rintro created before after ⟨-, hhold, -⟩ hadds hafter
    rw [hnext]
    refine job_ret ((enduring_submitted input (attemptRecord input actor)).stable.and hguarded.stable)
      ⟨⟨hadds.mem, rfl, rfl⟩, hguarded.step before after ?_ hhold⟩ fun _ _ hlast ↦ hlast
    refine ⟨hadds.stored, hadds.log, fun selection hselection ↦ ?_,
      fun _ hqueue ↦ absurd hqueue List.not_mem_nil, fun _ hqueue ↦ absurd hqueue List.not_mem_nil⟩
    rcases hadds.only _ hselection with hold | heq
    · exact hold
    · cases heq

/-- Recording an attempt that has its reason stores it, or finds one of the same action and task. -/
theorem attemptSerialized_job (hguarded : Guarded role thread [] hold)
    (hattempted : ∀ before, Tracked allowed before → hold before →
      Attempted allowed before.1.store.records (attemptRecord input actor))
    (hstate : hold state) (hheld : (.budget, thread) ∈ state.1.held) :
    JobSafe allowed strict role thread (attemptSerialized input actor)
      (fun result last ↦ Submitted input result.1 last ∧ hold last) state := by
  have hsealed : ∀ holds, Guarded role thread [.budget] (Sealed thread .budget holds) :=
    fun holds ↦ guarded_sealed List.mem_cons_self
  have hkept : Guarded role thread [.budget] hold := hguarded.within
  have hfound : ∀ attempt, Stable role thread fun state ↦ Submitted input attempt state ∧ hold state :=
    fun attempt ↦ (enduring_submitted input attempt).stable.and hguarded.stable
  refine job_ask ((hsealed fun _ ↦ True).and hkept) ⟨⟨hheld, fun _ _ _ ↦ trivial⟩, hstate⟩ ?_
  rintro first hfirst ⟨⟨hheld, -⟩, hhold⟩
  split
  next record hrecord =>
    obtain ⟨hstored, -⟩ := hfirst.attemptById_eq_some hrecord
    split
    next hsame =>
      exact job_ret (hfound record) ⟨⟨hstored, by rw [hsame]; rfl, by rw [hsame]; rfl⟩, hhold⟩
        fun _ _ hlast ↦ hlast
    next => exact job_throw
  next hnone =>
  have hfresh : Sealed thread .budget (fun record ↦ ∀ attempt, record = .attemptReceipt attempt →
      attempt.attemptId ≠ input.attemptId) first := by
    refine ⟨hheld, ?_⟩
    rintro record hrecord - attempt rfl
    exact hfirst.attemptById_eq_none hnone hrecord
  refine job_ask ((hsealed _).and hkept) ⟨hfresh, hhold⟩ ?_
  rintro second hsecond ⟨hfresh, hhold⟩
  split
  · exact job_throw
  next hany =>
  have heligible : Eligible second.1.store.records (attemptRecord input actor) := by
    rw [Bool.not_eq_true, Bool.not_eq_false'] at hany
    obtain ⟨row, hrow, hfields⟩ := (Option.any_eq_true _ _).mp hany
    obtain ⟨hcampaign, -⟩ := of_decide_eq_true hfields
    obtain ⟨hstored, hid⟩ := hsecond.history.action_eq_some hrow
    exact ⟨row.intent, hstored, hid, hcampaign⟩
  refine job_ask ((hsealed _).and (hkept.and (enduring_eligible _).guarded.within))
    ⟨hfresh, hhold, heligible⟩ ?_
  rintro third hthird ⟨hfresh, hhold, heligible⟩
  split
  next record hrecord =>
    obtain ⟨hstored, haction, htask⟩ := hthird.attemptForActionTask_eq_some hrecord
    split
    next =>
      have hcampaign : record.campaignId = input.campaignId := by
        obtain ⟨intent, hintent, hid, hname⟩ := heligible
        obtain ⟨other, hother, hid', hname'⟩ := hthird.jobs.eligible record hstored
        have hsame := hthird.intent_unique hintent hother (hid.trans (hid'.trans haction).symm)
        rw [← hname', ← hsame, hname]
        rfl
      exact job_ret (hfound record) ⟨⟨hstored, hcampaign, htask⟩, hhold⟩ fun _ _ hlast ↦ hlast
    next => exact job_throw
  next hnone' =>
  have hchecked : AttemptChecked thread input third := by
    refine ⟨hfresh.1, ?_⟩
    rintro record hrecord - attempt rfl
    exact ⟨hfresh.2 _ hrecord trivial attempt rfl, hthird.attemptForActionTask_eq_none hnone' hrecord⟩
  have hguardedAll : Guarded role thread [.budget] fun state ↦ AttemptChecked thread input state ∧
      hold state ∧ Eligible state.1.store.records (attemptRecord input actor) :=
    (hsealed _).and (hkept.and (enduring_eligible _).guarded.within)
  -- the read of the task is what the append is measured against
  refine job_query fun fourth hrely hfourth hasked ↦ ?_
  have hall := hguardedAll.step _ _ (ownStep_asked (.task input.campaignId input.taskId) fourth)
    (hguardedAll.stable _ _ hrely ⟨hchecked, hhold, heligible⟩)
  split
  · exact job_throw
  next view hview =>
  obtain ⟨hrow, hcampaign, htask, hexists, -⟩ := task_eq_some hview
  split
  · exact job_throw
  next hopen =>
  have hwatched : Watched thread input.campaignId input.taskId
      (asked thread (.task input.campaignId input.taskId) fourth) := by
    refine watched_of_unselected ?_
    rw [← hcampaign, ← htask]
    exact (hfourth.unselected_of_row hrow (Bool.eq_false_iff.mpr hopen)).1
  refine job_query fun fifth hrely' hfifth hasked' ↦ ?_
  have hall' := hguardedAll.step _ _ (ownStep_asked (.campaign input.campaignId) fifth)
    (hguardedAll.stable _ _ hrely' hall)
  have hwatched' := Watched.asked (.campaign input.campaignId) (by simp)
    (stable_watched _ _ _ _ hrely' hwatched)
  split
  · exact job_throw
  next totals htotals =>
  split
  · exact job_throw
  next hceiling =>
  exact appendAttempt_job (fun _ ↦ rfl) hguarded hattempted hall'.2.1 hall'.1 hall'.2.2 hwatched'
    (hrely'.tasks (input.campaignId, input.taskId) hexists)

theorem attemptWithStatus_job (hguarded : Guarded role thread [] hold)
    (hattempted : ∀ before, Tracked allowed before → hold before →
      Attempted allowed before.1.store.records (attemptRecord input actor)) (hstate : hold state) :
    JobSafe allowed strict role thread (attemptWithStatus input actor)
      (fun result last ↦ Submitted input result.1 last ∧ hold last) state := by
  refine job_withQueue hguarded.stable hstate
    (fun result ↦ (enduring_submitted input result.1).guarded.and hguarded) ?_
  intro before after hhold _ hstep hheld
  exact attemptSerialized_job hguarded hattempted (hguarded.step before after hstep hhold) hheld

theorem attempt_job (hguarded : Guarded role thread [] hold)
    (hattempted : ∀ before, Tracked allowed before → hold before →
      Attempted allowed before.1.store.records (attemptRecord input actor))
    (hinv : Tracked allowed state) (hstate : hold state) :
    JobSafe allowed strict role thread (attempt input actor)
      (fun record last ↦ Submitted input record last ∧ hold last) state := by
  refine job_bind hinv (attemptWithStatus_job hguarded hattempted hstate) ?_
  rintro ⟨record, known⟩ after - hrecorded
  exact job_ret ((enduring_submitted input record).stable.and hguarded.stable) hrecorded
    fun _ _ hlast ↦ hlast

/-! ### Terminal selections -/

omit [Digests] in
theorem guarded_opens (campaignId : String) (opens : List String) :
    Guarded .reconciler thread [] fun state ↦
      ∀ taskId ∈ opens, Unselected state.1 campaignId taskId where
  stable before after hsteady h taskId htask :=
    (guarded_unselected _ _).stable before after hsteady (h taskId htask)
  step before after hstep h taskId htask :=
    (guarded_unselected _ _).step before after hstep (h taskId htask)

/-- The reconciler may select a stored attempt of an open task, and other open tasks stay open. -/
theorem selectTerminal_job {record : AttemptReceipt} {reason : String} {others : List String}
    (hrecord : .attemptReceipt record ∈ state.1.store.records)
    (hopen : Unselected state.1 record.campaignId record.taskId)
    (hothers : ∀ taskId ∈ others, taskId ≠ record.taskId ∧
      Unselected state.1 record.campaignId taskId) :
    JobSafe allowed strict .reconciler thread (selectTerminal record reason)
      (fun _ last ↦ ∀ taskId ∈ others, Unselected last.1 record.campaignId taskId) state := by
  have hguarded : Guarded .reconciler thread [] fun state ↦
      ∀ taskId ∈ others, Unselected state.1 record.campaignId taskId := guarded_opens _ others
  refine job_now ((enduring_mem _).guarded.and ((guarded_unselected _ _).and hguarded))
    ⟨hrecord, hopen, fun taskId htask ↦ (hothers taskId htask).2⟩ ?_
  rintro createdAt - after - - ⟨hrecord, hopen, hopens⟩ -
  refine job_append ((enduring_mem _).stable.and
    ((guarded_unselected _ _).stable.and hguarded.stable)) ⟨hrecord, hopen, hopens⟩ ?_ ?_ ?_
  · rintro before - ⟨hrecord, hopen, -⟩
    refine ⟨trivial, trivial, ?_, ?_, ?_⟩
    · rintro (_ | _ | _ | _ | _) hguards
      all_goals cases hguards
    · rintro attempt hattempt
      cases hattempt
    · rintro selection hselection
      cases hselection
      exact ⟨rfl, hopen, record, hrecord, rfl, rfl, rfl, rfl⟩
  · rintro before - - - attempt hattempt
    cases hattempt
  · rintro created before last ⟨-, -, hopens⟩ hadds -
    refine job_ret hguarded.stable (fun taskId htask selection hselection ↦ ?_)
      fun _ _ hlast ↦ hlast
    rcases hadds.only _ hselection with hold | heq
    · exact hopens taskId htask selection hold
    · cases heq
      exact fun hcloses ↦ (hothers taskId htask).1 hcloses.2.symm

/-! ### Launches -/

variable {campaignId : String}

/-- A launch that replaces nothing. -/
theorem Fits.launch (hcanonical : CanonicalIntent intent)
    (hkind : intent.actionKind = .jobLaunch) (hprior : intent.payload.priorAttemptId = none)
    (hlaunched : ∀ state : World × Log, hold state → Launched state.1.store.records intent)
    (hplanned : ∀ state : World × Log, hold state →
      Planned state.1.store.records intent.campaignId intent.payload) :
    Fits allowed hold (.actionIntent intent) where
  plain hreplaces := hreplaces.2 hprior
  canonical := hcanonical
  founded state _ hstate := by
    refine ⟨fun _ ↦ ⟨hlaunched state hstate, fun _ _ _ hreplaces ↦ absurd hprior hreplaces.2, ?_⟩,
      fun hobserve ↦ ?_, fun _ ↦ hplanned state hstate⟩
    · intro taskId policy hsome
      obtain ⟨other, hother⟩ := Option.isSome_iff_exists.mp hsome
      obtain ⟨heq, hreplaces, -⟩ := replacementOf_eq_some.mp hother
      cases heq
      exact absurd hprior hreplaces.2
    · rw [hkind] at hobserve
      cases hobserve

theorem calm_budgetEvent (event : BudgetEvent) : Fits allowed hold (.budgetEvent event) :=
  CalmRecord.fits trivial

theorem preparationPayload_eq_ok {lock : CampaignLock} {deployment : HfJobDeployment}
    {policy : LaunchPolicySpec} {attempt : ℕ} {payload : ActionPayload}
    (h : preparationPayload lock deployment policy attempt = .ok payload) :
    payload.workerRole = some .preparation ∧ payload.priorAttemptId = none := by
  unfold preparationPayload at h
  split at h
  · cases h
    exact ⟨rfl, rfl⟩
  all_goals cases h

theorem launchPreparation_writes (lock : CampaignLock) (createdAt attempt : ℕ) :
    (launchPreparation lock createdAt attempt).Uses (Local (Fits allowed hold)) := by
  refine uses_bind (uses_ofExcept _) fun deployment ↦ uses_bind (uses_ofExcept _) fun policy ↦ ?_
  split
  · trivial
  · refine uses_bind (uses_reserveInitialAction (calm_budgetEvent _)) fun _ ↦
      uses_ofExcept_bind fun payload hpayload ↦ uses_writeService fun createdAt ↦ ?_
    obtain ⟨hrole, hprior⟩ := preparationPayload_eq_ok hpayload
    exact Fits.launch (canonical_actionIntent _ _ _ _ _ _ _) rfl hprior
      (fun _ _ ↦ .preparation hrole hprior) fun _ _ ↦ .inl hrole

omit [Digests] in
theorem launchPolicyOf_of_locked {lock : CampaignLock} {policy : LaunchPolicySpec}
    (h : lockedPolicy lock = .ok policy) : launchPolicyOf lock.profiles = .ok policy := by
  unfold lockedPolicy lockedProfile at h
  unfold launchPolicyOf profileSpec
  cases hfind : lock.profiles.find? fun profile ↦ profile.kind = .launchPolicy with
  | none =>
    rw [hfind] at h
    cases h
  | some profile =>
    rw [hfind] at h
    simp only at h ⊢
    cases hspec : profile.spec <;> rw [hspec] at h <;> exact h

/-- The lock of a campaign is stored. -/
abbrev Locked (lock : CampaignLock) (state : World × Log) : Prop :=
  .campaignLock lock ∈ state.1.store.records

theorem launchBatch_writes {lock : CampaignLock} {deployment : HfJobDeployment} {createdAt : ℕ}
    {taskIds : List String} (hdeployment : lockedDeployment lock = .ok (some deployment))
    (hbatch : taskIds ∈ launchBatches lock deployment) :
    (launchBatch lock deployment createdAt 0 taskIds).Uses (Local (Fits allowed (Locked lock))) := by
  refine uses_ofExcept_bind fun policy hpolicy ↦
    uses_bind (uses_reserveInitialAction (calm_budgetEvent _)) fun _ ↦
      uses_bind (uses_requirePrepared _ _) fun prepared ↦ uses_writeService fun time ↦ ?_
  refine Fits.launch (canonical_actionIntent _ _ _ _ _ _ _) rfl rfl (fun state hlock ↦ ?_)
    fun state hlock ↦ ?_
  · exact .initial hlock rfl hdeployment hbatch rfl rfl rfl
  · exact .inr ⟨policy, ⟨lock, hlock, rfl, launchPolicyOf_of_locked hpolicy⟩, rfl⟩

theorem launchExecution_writes (lock : CampaignLock) (createdAt : ℕ) :
    (launchExecution lock createdAt 0).Uses (Local (Fits allowed (Locked lock))) := by
  refine uses_ofExcept_bind fun deployment hdeployment ↦ ?_
  split
  · trivial
  next spec =>
  dsimp only
  split_ifs with hsplit
  · refine uses_forM fun taskIds htasks ↦ launchBatch_writes hdeployment ?_
    simp only [launchBatches, hsplit, ↓reduceIte]
    exact htasks
  · refine launchBatch_writes hdeployment ?_
    simp only [launchBatches, hsplit, ↓reduceIte]
    exact List.mem_singleton_self _

/-- The lock that a query finds is stored. -/
theorem job_requiredLock {β : Type} {next : CampaignLock → Act β} {post : β → World × Log → Prop}
    (hguarded : Guarded role thread [] hold) (hstate : hold state)
    (h : ∀ lock after, Tracked allowed after → hold after → Locked lock after →
      lock.campaignId = campaignId → JobSafe allowed strict role thread (next lock) post after) :
    JobSafe allowed strict role thread (requiredLock campaignId >>= next) post state := by
  refine job_ask hguarded hstate fun after hafter hhold ↦ ?_
  dsimp only [Program.bind]
  split
  · exact job_throw
  next lock hlock =>
  obtain ⟨hstored, hcampaign⟩ := hafter.history.campaignLock_eq_some.mp hlock
  exact h lock after hafter hhold hstored hcampaign

theorem admitCampaign_job (admission : ActionIntent) (receipt : ActionReceipt) :
    JobSafe allowed strict role thread (admitCampaign admission receipt) (fun _ _ ↦ True) state := by
  refine job_requiredLock enduring_true.guarded trivial fun lock after hafter _ hlock _ ↦ ?_
  refine job_ofExcept fun deployment _ ↦ ?_
  split_ifs
  · exact job_local (launchPreparation_writes _ _ _) enduring_true trivial
  · exact job_local (launchExecution_writes _ _) (enduring_mem _) hlock

/-! ### Observations -/

/-- An action and its receipt are stored. -/
structure Reported (intent : ActionIntent) (receipt : ActionReceipt) (state : World × Log) : Prop where
  asked : .actionIntent intent ∈ state.1.store.records
  answered : .actionReceipt receipt ∈ state.1.store.records
  action : receipt.actionId = intent.actionId

omit [Digests] in
theorem enduring_reported (intent : ActionIntent) (receipt : ActionReceipt) :
    Enduring (Reported intent receipt) :=
  fun _ _ hstored _ h ↦ ⟨hstored _ h.asked, hstored _ h.answered, h.action⟩

theorem Fits.observe (hcanonical : CanonicalIntent intent) (hkind : intent.actionKind = .jobObserve)
    (hobserved : ∀ state : World × Log, hold state → Observed allowed state.1.store.records intent)
    (hplanned : ∀ state, Tracked allowed state → hold state →
      Planned state.1.store.records intent.campaignId intent.payload) :
    Fits allowed hold (.actionIntent intent) where
  plain hreplaces := by
    have hlaunch := hreplaces.1
    rw [hkind] at hlaunch
    cases hlaunch
  canonical := hcanonical
  founded state hinv hstate := by
    refine ⟨fun hlaunch ↦ ?_, fun _ ↦ hobserved state hstate, fun _ ↦ hplanned state hinv hstate⟩
    rw [hkind] at hlaunch
    cases hlaunch

theorem observeJob_writes (options : ReconcilerOptions) {launch : ActionIntent}
    (receipt : ActionReceipt) (hkind : launch.actionKind = .jobLaunch) :
    (observeJob options launch receipt).Uses (Local (Fits allowed (Reported launch receipt))) := by
  unfold observeJob
  split
  · trivial
  next resourceId hresource =>
  split_ifs
  · trivial
  refine uses_writeService fun createdAt ↦ ?_
  refine Fits.observe (canonical_actionIntent _ _ _ _ _ _ _) rfl (fun state h ↦ ?_)
    fun state hinv h ↦ ?_
  · exact .first h.asked hkind h.answered h.action hresource
  · exact hinv.jobs.planned launch h.asked (.inl hkind)

omit [Digests] in
theorem Again.planned {options : ReconcilerOptions} {previous : ActionIntent}
    {receipt : ActionReceipt} {payload : ActionPayload} {records : List Record}
    (h : Again options previous receipt payload)
    (hplanned : Planned records campaignId previous.payload) :
    Planned records campaignId payload := by
  cases h with
  | later hrunning => exact hplanned
  | grace hstopped hfirst => exact hplanned

theorem observeAgain_writes {options : ReconcilerOptions}
    {receipt : ActionReceipt} {payload : ActionPayload} (hallowed : allowed options)
    (hkind : intent.actionKind = .jobObserve) (hagain : Again options intent receipt payload) :
    (observeAgain intent payload).Uses (Local (Fits allowed (Reported intent receipt))) := by
  refine uses_writeService fun createdAt ↦ ?_
  refine Fits.observe (canonical_actionIntent _ _ _ _ _ _ _) rfl (fun state h ↦ ?_)
    fun state hinv h ↦ ?_
  · exact .again hallowed h.asked hkind h.answered h.action hagain
  · exact hagain.planned (hinv.jobs.planned intent h.asked (.inr hkind))

/-! ### Replacements -/

/-- A record is no replacement of an attempt. -/
def Spares (attemptId : String) (record : Record) : Prop :=
  ∀ intent, record = .actionIntent intent → intent.payload.priorAttemptId ≠ some attemptId

/-- A replacement of a task's attempt replaces one of a list. -/
def Among (campaignId taskId : String) (attemptIds : List String) (record : Record) : Prop :=
  ∀ intent, record = .actionIntent intent → intent.campaignId = campaignId →
    intent.payload.taskIds = some [taskId] →
      ∃ attemptId ∈ attemptIds, intent.payload.priorAttemptId = some attemptId

theorem Tracked.replaced (h : Tracked allowed state)
    (hintent : .actionIntent intent ∈ state.1.store.records) (hreplaces : Replaces intent) :
    ∃ attempt, .attemptReceipt attempt ∈ state.1.store.records ∧
      attempt.campaignId = intent.campaignId ∧ intent.payload.taskIds = some [attempt.taskId] ∧
        intent.payload.priorAttemptId = some attempt.attemptId := by
  cases h.jobs.launched intent hintent hreplaces.1 with
  | preparation _ hprior => exact absurd hprior hreplaces.2
  | initial _ _ _ _ _ _ hpayload =>
    exact absurd (by rw [hpayload]; rfl) hreplaces.2
  | replacement hattempt hcampaign htask hprior => exact ⟨_, hattempt, hcampaign, htask, hprior⟩

theorem Tracked.spares (h : Tracked allowed state) {attempt : AttemptReceipt}
    (hattempt : .attemptReceipt attempt ∈ state.1.store.records)
    (hnone : (state.1.projection.retryActionForAttempt attempt.campaignId
      attempt.attemptId).isSome = false) :
    ∀ record ∈ state.1.store.records, Guards .retryAdmission record →
      Spares attempt.attemptId record := by
  rintro record hrecord hguards intent rfl hprior
  obtain ⟨other, hother, hcampaign, -, hid⟩ := h.replaced hrecord hguards
  have hsame := h.attempt_unique hother hattempt (Option.some.inj (hid.symm.trans hprior))
  rw [hsame] at hcampaign
  exact h.retryActionForAttempt_eq_none hnone hrecord hguards.1 hcampaign.symm hprior

theorem Tracked.among (h : Tracked allowed state) {taskId : String} {attempts : List AttemptReceipt}
    (hattempts : ∀ attempt, .attemptReceipt attempt ∈ state.1.store.records →
      attempt.campaignId = campaignId → attempt.taskId = taskId → attempt ∈ attempts) :
    ∀ record ∈ state.1.store.records, Guards .retryAdmission record →
      Among campaignId taskId (attempts.map AttemptReceipt.attemptId) record := by
  rintro record hrecord hguards intent rfl rfl htask
  obtain ⟨other, hother, hcampaign, htask', hid⟩ := h.replaced hrecord hguards
  rw [htask] at htask'
  have hname : taskId = other.taskId := List.head_eq_of_cons_eq (Option.some.inj htask')
  exact ⟨_, List.mem_map_of_mem (hattempts other hother hcampaign hname.symm), hid⟩

theorem Tracked.nodup_replacements (h : Tracked allowed state) (taskId : String) :
    (replacementsOf state.1.store.records campaignId taskId).Nodup := by
  refine List.Nodup.filterMap ?_ h.history.synced.keyed.of_map
  intro first second intent hfirst hsecond
  rw [(replacementOf_eq_some.mp hfirst).1, (replacementOf_eq_some.mp hsecond).1]

/-- The attempts of a task leave room for one more replacement: those it has replace different
attempts, none of them the one at hand. -/
theorem Tracked.room (h : Tracked allowed state) {taskId attemptId : String}
    {attemptIds : List String}
    (hspares : ∀ record ∈ state.1.store.records, Guards .retryAdmission record →
      Spares attemptId record)
    (hamong : ∀ record ∈ state.1.store.records, Guards .retryAdmission record →
      Among campaignId taskId attemptIds record) (hmem : attemptId ∈ attemptIds) :
    (replacementsOf state.1.store.records campaignId taskId).length + 1 ≤ attemptIds.length := by
  have hnodup : ((replacementsOf state.1.store.records campaignId taskId).map
      (·.payload.priorAttemptId)).Nodup := by
    refine (h.nodup_replacements taskId).map_on fun first hfirst second hsecond hprior ↦ ?_
    obtain ⟨hstored, hreplaces, -⟩ := mem_replacementsOf.mp hfirst
    obtain ⟨hstored', hreplaces', -⟩ := mem_replacementsOf.mp hsecond
    exact h.jobs.replacedOnce first second hstored hstored' hreplaces hreplaces' hprior
  have hsubset : (replacementsOf state.1.store.records campaignId taskId).map
      (·.payload.priorAttemptId) ⊆ (attemptIds.erase attemptId).map some := by
    intro prior hprior
    obtain ⟨intent, hintent, rfl⟩ := List.mem_map.mp hprior
    obtain ⟨hstored, hreplaces, hcampaign, -, htask⟩ := mem_replacementsOf.mp hintent
    obtain ⟨other, hother, hid⟩ := hamong _ hstored hreplaces intent rfl hcampaign htask
    have hne := hspares _ hstored hreplaces intent rfl
    rw [hid] at hne ⊢
    refine List.mem_map_of_mem ((List.mem_erase_of_ne ?_).mpr hother)
    exact fun heq ↦ hne (congrArg some heq)
  have hlength := (List.subperm_of_subset hnodup hsubset).length_le
  have hpositive := List.length_pos_of_mem hmem
  rw [List.length_map, List.length_map, List.length_erase_of_mem hmem] at hlength
  omega

theorem Tracked.policy_unique (h : Tracked allowed state) {first second : LaunchPolicySpec}
    (hfirst : PolicyOf state.1.store.records campaignId first)
    (hsecond : PolicyOf state.1.store.records campaignId second) : first = second := by
  obtain ⟨lock, hlock, hname, hpolicy⟩ := hfirst
  obtain ⟨lock', hlock', hname', hpolicy'⟩ := hsecond
  have hsame := h.history.synced.keyed.eq_of_mem hlock hlock' (by
    rw [Record.key, Record.key, hname, hname'])
  cases hsame
  exact Except.ok.inj (hpolicy.symm.trans hpolicy')

/-- What the checks of a replacement found in the queue of retries: no launch replaces the attempt,
and the replacements of its task are among those of the known attempts. -/
def RetryChecked (thread : ℕ) (attempt : AttemptReceipt) (attemptIds : List String)
    (state : World × Log) : Prop :=
  Sealed thread .retryAdmission (Spares attempt.attemptId) state ∧
    Sealed thread .retryAdmission (Among attempt.campaignId attempt.taskId attemptIds) state ∧
      .attemptReceipt attempt ∈ state.1.store.records

/-- A launch is the replacement of an attempt, and has its campaign's limit on attempts. -/
structure ReplacementOf (records : List Record) (attempt : AttemptReceipt) (intent : ActionIntent)
    (maximum : ℕ) : Prop where
  canonical : CanonicalIntent intent
  kind : intent.actionKind = .jobLaunch
  campaign : attempt.campaignId = intent.campaignId
  task : intent.payload.taskIds = some [attempt.taskId]
  prior : intent.payload.priorAttemptId = some attempt.attemptId
  limit : intent.payload.maxInfrastructureAttempts = some maximum
  planned : Planned records intent.campaignId intent.payload

theorem Tracked.licensed_replacement (h : Tracked allowed state) {attempt : AttemptReceipt}
    {attemptIds : List String} {maximum : ℕ}
    (hchecked : RetryChecked thread attempt attemptIds state)
    (hintent : ReplacementOf state.1.store.records attempt intent maximum)
    (hmem : attempt.attemptId ∈ attemptIds) (hlimit : attemptIds.length < maximum) :
    Licensed allowed role thread state (.actionIntent intent) := by
  obtain ⟨hspares, hamong, hattempt⟩ := hchecked
  have hlaunch : LaunchReady state.1.store.records intent := by
    refine ⟨.replacement hattempt hintent.campaign hintent.task hintent.prior, ?_, ?_⟩
    · intro other hother hreplaces _
      rw [hintent.prior]
      exact hspares.2 _ hother hreplaces other rfl
    · intro taskId policy hsome hpolicy
      obtain ⟨other, hother⟩ := Option.isSome_iff_exists.mp hsome
      obtain ⟨heq, -, -, hrole, htask⟩ := replacementOf_eq_some.mp hother
      cases heq
      have hname : attempt.taskId = taskId :=
        List.head_eq_of_cons_eq (Option.some.inj (hintent.task.symm.trans htask))
      have hmaximum : policy.maxInfrastructureAttempts = maximum := by
        rcases hintent.planned with hpreparation | ⟨other, hother, hmax⟩
        · exact absurd hpreparation hrole
        · rw [h.policy_unique hpolicy hother]
          exact Option.some.inj (hmax.symm.trans hintent.limit)
      have hroom := h.room hspares.2 hamong.2 hmem
      rw [hintent.campaign, hname] at hroom
      omega
  refine ⟨⟨fun _ ↦ hlaunch, fun hkind ↦ ?_, fun _ ↦ hintent.planned⟩, hintent.canonical, ?_, ?_, ?_⟩
  · rw [hintent.kind] at hkind
    cases hkind
  · rintro (_ | _ | _ | _ | _) hguards
    case retryAdmission => exact hspares.1
    all_goals cases hguards
  · rintro other hother
    cases hother
  · rintro other hother
    cases hother

/-- Recording an intent that is licensed wherever an assertion holds. -/
theorem writeAction_job {queues : List Queue}
    (hguarded : Guarded role thread queues hold) (hstate : hold state)
    (hlicensed : ∀ before, Tracked allowed before → hold before →
      Licensed allowed role thread before (.actionIntent intent)) :
    JobSafe allowed strict role thread (writeAction intent) (fun _ _ ↦ True) state := by
  refine job_ask hguarded hstate fun after hafter hhold ↦ ?_
  split
  · split_ifs
    · exact job_done
    · exact job_throw
  have hopen : (requireOpenTask intent).Uses (Writes queues CalmRecord) := by
    unfold requireOpenTask
    split
    · trivial
    · refine ⟨trivial, fun task ↦ ?_⟩
      dsimp only [Program.bind]
      split <;> trivial
  refine job_bind hafter (job_calm hopen hguarded hhold) fun _ middle hmiddle hhold' ↦ ?_
  refine job_bind hmiddle (job_appendAdopting (fun _ _ ↦ asIntent_eq_some) hguarded.stable hhold'
    hlicensed fun _ hattempt ↦ by cases hattempt) fun _ _ _ _ ↦ ?_
  exact job_done

omit [Digests] in
theorem writes_withQueue {β : Type} {queue : Queue} {queues : List Queue} {fits : Record → Prop}
    {method : Act β} (hqueue : queue ∉ queues) (h : method.Uses (Writes queues fits)) :
    (withQueue queue method).Uses (Writes queues fits) :=
  ⟨trivial, fun _ ↦ uses_bind (uses_attempt h) fun outcome ↦
    ⟨hqueue, fun _ ↦ uses_ofExcept outcome⟩⟩

theorem reserveReplacement_writes {campaignId priorAttemptId : String} {completedAt amount : ℕ} :
    (reserveReplacement campaignId priorAttemptId completedAt amount).Uses
      (Writes [.retryAdmission] CalmRecord) := by
  refine writes_withQueue (by decide) ?_
  unfold reserveReplacementSerialized
  split_ifs
  · trivial
  · exact reserveSerialized_uses (fun _ ↦ trivial) (fun _ ↦ trivial) fun _ ↦ trivial

theorem Tracked.retryChecked (h : Tracked allowed state) {attempt : AttemptReceipt}
    {attempts : List AttemptReceipt}
    (hspares : Sealed thread .retryAdmission (Spares attempt.attemptId) state)
    (hstored : .attemptReceipt attempt ∈ state.1.store.records)
    (hattempts : ∀ other, .attemptReceipt other ∈ state.1.store.records →
      other.campaignId = attempt.campaignId → other.taskId = attempt.taskId → other ∈ attempts) :
    RetryChecked thread attempt (attempts.map AttemptReceipt.attemptId) state ∧
      attempt.attemptId ∈ attempts.map AttemptReceipt.attemptId :=
  ⟨⟨hspares, ⟨hspares.1, h.among hattempts⟩, hstored⟩,
    List.mem_map_of_mem (hattempts attempt hstored rfl rfl)⟩

omit [Digests] in
theorem guarded_retryChecked (attempt : AttemptReceipt) (attemptIds : List String) :
    Guarded role thread [.retryAdmission] (RetryChecked thread attempt attemptIds) :=
  (guarded_sealed List.mem_cons_self).and
    ((guarded_sealed List.mem_cons_self).and (enduring_mem _).guarded.within)

/-- What a replacement starts from: a stored attempt of an open task, and the plan of its Job. -/
structure Replaceable (attempt : AttemptReceipt) (source : ActionIntent) (state : World × Log) :
    Prop where
  stored : .attemptReceipt attempt ∈ state.1.store.records
  campaign : attempt.campaignId = source.campaignId
  planned : Planned state.1.store.records source.campaignId source.payload
  opened : Unselected state.1 attempt.campaignId attempt.taskId

omit [Digests] in
theorem guarded_replaceable (attempt : AttemptReceipt) (source : ActionIntent) :
    Guarded .reconciler thread [] (Replaceable attempt source) where
  stable before after hsteady h := ⟨hsteady.stored _ h.stored, h.campaign,
    h.planned.mono hsteady.stored, (guarded_unselected _ _).stable before after hsteady h.opened⟩
  step before after hstep h := ⟨hstep.stored _ h.stored, h.campaign, h.planned.mono hstep.stored,
    (guarded_unselected _ _).step before after hstep h.opened⟩

theorem closeTask_job {attempt : AttemptReceipt} {source : ActionIntent} {reason : String}
    (hinv : Tracked allowed state) (h : Replaceable attempt source state) :
    JobSafe allowed strict .reconciler thread
      (do
        let _ ← selectTerminal attempt reason
        return () : Act Unit) (fun _ _ ↦ True) state := by
  have hnone : ∀ taskId ∈ ([] : List String), taskId ≠ attempt.taskId ∧
      Unselected state.1 attempt.campaignId taskId := fun _ hmem ↦ absurd hmem List.not_mem_nil
  exact job_bind hinv (selectTerminal_job h.stored h.opened hnone) fun _ _ _ _ ↦ job_done

omit [Digests] in
theorem requiredField_eq_ok {α : Type} {field : Option α} {name expected : String} {value : α}
    (h : requiredField field name expected = .ok value) : field = some value := by
  unfold requiredField at h
  split at h
  · exact congrArg some (Except.ok.inj h)
  · cases h

theorem replaceAttempt_job {attempt : AttemptReceipt} {source : ActionIntent}
    (h : Replaceable attempt source state) (hheld : (.retryAdmission, thread) ∈ state.1.held) :
    JobSafe allowed strict .reconciler thread (replaceAttempt attempt source) (fun _ _ ↦ True)
      state := by
  have hsealed : ∀ holds, Guarded .reconciler thread [.retryAdmission]
      (Sealed thread .retryAdmission holds) := fun holds ↦ guarded_sealed List.mem_cons_self
  have hkept : Guarded .reconciler thread [.retryAdmission] (Replaceable attempt source) :=
    (guarded_replaceable attempt source).within
  refine job_ask ((hsealed fun _ ↦ True).and hkept) ⟨⟨hheld, fun _ _ _ ↦ trivial⟩, h⟩ ?_
  rintro first hfirst ⟨⟨hheld, -⟩, h⟩
  split
  · exact job_done
  next hnone =>
  have hspares : Sealed thread .retryAdmission (Spares attempt.attemptId) first :=
    ⟨hheld, hfirst.spares h.stored (Bool.eq_false_iff.mpr hnone)⟩
  refine job_ask ((hsealed _).and hkept) ⟨hspares, h⟩ ?_
  rintro second hsecond ⟨hspares, h⟩
  refine job_ofExcept fun maximum hmaximum ↦ ?_
  have hmax := requiredField_eq_ok hmaximum
  split
  next hlimit =>
    -- the replacements so far replace other attempts of the list
    obtain ⟨hchecked, hmem⟩ := hsecond.retryChecked hspares h.stored fun other hother hcampaign htask ↦
      List.mem_filter.mpr ⟨hsecond.mem_campaignAttempts.mpr ⟨hother, hcampaign⟩, decide_eq_true htask⟩
    refine job_ofExcept fun reservation _ ↦ ?_
    refine job_bind hsecond (job_calm reserveReplacement_writes
      ((guarded_retryChecked attempt _).and hkept) ⟨hchecked, h⟩) ?_
    rintro reserved third hthird ⟨hchecked, h⟩
    split
    · exact closeTask_job hthird h
    · refine job_now ((guarded_retryChecked attempt _).and hkept) ⟨hchecked, h⟩ ?_
      rintro createdAt - fourth - - hready -
      refine writeAction_job ((guarded_retryChecked attempt _).and hkept) hready ?_
      rintro before hbefore ⟨hchecked, h⟩
      refine hbefore.licensed_replacement hchecked
        ⟨canonical_actionIntent _ _ _ _ _ _ _, rfl, rfl, rfl, rfl, hmax, ?_⟩ hmem ?_
      · have hplanned := h.planned
        rw [← h.campaign] at hplanned
        exact hplanned
      · rw [List.length_map]
        exact hlimit
  next => exact closeTask_job hsecond h

theorem finishAttempt_job {attempt : AttemptReceipt} {source : ActionIntent}
    (hinv : Tracked allowed state) (h : Replaceable attempt source state) :
    JobSafe allowed strict .reconciler thread (finishAttempt attempt source) (fun _ _ ↦ True)
      state := by
  unfold finishAttempt
  split_ifs
  · refine job_withQueue (guarded_replaceable attempt source).stable h
      (fun _ ↦ enduring_true.guarded) fun before after hbefore _ hstep hheld ↦ ?_
    exact replaceAttempt_job ((guarded_replaceable attempt source).step before after hstep hbefore)
      hheld
  all_goals exact closeTask_job hinv h

/-! ### The end of a Job -/

/-- A Job's end was taken as the end of a task, or its worker recorded an attempt of the task. -/
def Ending (allowed : ReconcilerOptions → Prop) (intent : ActionIntent) (receipt : ActionReceipt)
    (taskId : String) (state : World × Log) : Prop :=
  Concluded allowed state.1.store.records intent receipt ∨
    ∃ attempt, .attemptReceipt attempt ∈ state.1.store.records ∧
      attempt.campaignId = intent.campaignId ∧ attempt.taskId = taskId ∧
        launchActionOf intent = .ok attempt.actionId

omit [Digests] in
theorem enduring_ending (intent : ActionIntent) (receipt : ActionReceipt) (taskId : String) :
    Enduring (Ending allowed intent receipt taskId) := by
  rintro before after hstored - (hconcluded | ⟨attempt, hattempt, hrest⟩)
  · exact .inl (hconcluded.mono hstored)
  · exact .inr ⟨attempt, hstored _ hattempt, hrest⟩

/-- The attempts of a campaign that a query found. -/
def Known (campaignId : String) (known : List AttemptReceipt) (state : World × Log) : Prop :=
  ∀ attempt ∈ known, .attemptReceipt attempt ∈ state.1.store.records ∧
    attempt.campaignId = campaignId

omit [Digests] in
theorem enduring_known (known : List AttemptReceipt) : Enduring (Known campaignId known) :=
  fun _ _ hstored _ h attempt hattempt ↦ ⟨hstored _ (h attempt hattempt).1, (h attempt hattempt).2⟩

omit [Digests] in
theorem workerAttempt_spec {known : List AttemptReceipt} {taskId launchActionId : String}
    {selected : Option String} {attempt : AttemptReceipt} (h : ((known.filter fun record ↦
      record.taskId = taskId ∧ record.actionId = launchActionId).getLast?.filter fun record ↦
        decide (some record.attemptId ≠ selected)) = some attempt) :
    attempt ∈ known ∧ attempt.taskId = taskId := by
  obtain ⟨hlast, -⟩ := Option.filter_eq_some_iff.mp h
  obtain ⟨hmem, hfields⟩ := List.mem_filter.mp (List.mem_of_getLast? hlast)
  exact ⟨hmem, (of_decide_eq_true hfields).1⟩

omit [Digests] in
theorem workerAttempt_isSome {known : List AttemptReceipt} {taskId launchActionId : String}
    {attempt : AttemptReceipt} (hmem : attempt ∈ known) (htask : attempt.taskId = taskId)
    (haction : attempt.actionId = launchActionId) : ((known.filter fun record ↦
      record.taskId = taskId ∧ record.actionId = launchActionId).getLast?.filter fun record ↦
        decide (some record.attemptId ≠ none)) ≠ none := by
  have hfilter : attempt ∈ known.filter fun record ↦
      record.taskId = taskId ∧ record.actionId = launchActionId :=
    List.mem_filter.mpr ⟨hmem, decide_eq_true ⟨htask, haction⟩⟩
  have hlast := List.getLast?_eq_some_getLast (List.ne_nil_of_mem hfilter)
  rw [hlast]
  simp only [Option.filter_some, ne_eq, reduceCtorEq, not_false_eq_true, decide_true, ↓reduceIte]

/-- A Job's end was taken as the end of a task, or the attempt of its worker is known. -/
def Accounted (allowed : ReconcilerOptions → Prop) (intent : ActionIntent) (receipt : ActionReceipt)
    (known : List AttemptReceipt) (taskId : String) (state : World × Log) : Prop :=
  Concluded allowed state.1.store.records intent receipt ∨
    ∃ attempt ∈ known, attempt.taskId = taskId ∧ launchActionOf intent = .ok attempt.actionId

omit [Digests] in
theorem enduring_accounted (intent : ActionIntent) (receipt : ActionReceipt)
    (known : List AttemptReceipt) (taskId : String) :
    Enduring (Accounted allowed intent receipt known taskId) := by
  rintro before after hstored - (hconcluded | hworker)
  · exact .inl (hconcluded.mono hstored)
  · exact .inr hworker

section

variable {intent : ActionIntent} {receipt : ActionReceipt} {fallback : AttemptOutcome}
  {replacementEligible : Bool} {known : List AttemptReceipt}

/-- A task of a Job that ended is finished with its worker's attempt, or with one that the Job's end
accounts for. -/
theorem completeTask_job {taskId : String}
    (hkind : intent.actionKind = .jobLaunch ∨ intent.actionKind = .jobObserve)
    (hreported : Reported intent receipt state) (hknown : Known intent.campaignId known state)
    (haccounted : Accounted allowed intent receipt known taskId state) :
    JobSafe allowed strict .reconciler thread
      (completeTask intent receipt fallback replacementEligible known taskId) (fun _ _ ↦ True)
      state := by
  refine job_ask ((enduring_reported _ _).and ((enduring_known known).and
    (enduring_accounted _ _ _ taskId))).guarded ⟨hreported, hknown, haccounted⟩ ?_
  rintro after hafter ⟨hreported, hknown, haccounted⟩
  split
  · exact job_done
  next view hview =>
  split
  · exact job_done
  next hopen =>
  obtain ⟨hrow, hcampaign, htask, -, -⟩ := task_eq_some hview
  obtain ⟨hunselected, hselected⟩ := hafter.unselected_of_row hrow (Bool.eq_false_iff.mpr hopen)
  rw [hcampaign, htask] at hunselected
  have hplanned := hafter.jobs.planned intent hreported.asked hkind
  refine job_ofExcept fun launchActionId hlaunch ↦ ?_
  dsimp only
  split
  next record hworker =>
    obtain ⟨hmem, hname⟩ := workerAttempt_spec hworker
    obtain ⟨hstored, hcampaign'⟩ := hknown record hmem
    refine finishAttempt_job hafter ⟨hstored, hcampaign', hplanned, ?_⟩
    rw [hcampaign', hname]
    exact hunselected
  next hnone =>
  have hconcluded : Concluded allowed after.1.store.records intent receipt := by
    rcases haccounted with hconcluded | ⟨attempt, hmem, hname, haction⟩
    · exact hconcluded
    · rw [hselected] at hnone
      exact absurd hnone (workerAttempt_isSome hmem hname
        (Except.ok.inj (haction.symm.trans hlaunch)))
  have henduring : Enduring fun state ↦ Reported intent receipt state ∧
      Concluded allowed state.1.store.records intent receipt ∧
        Planned state.1.store.records intent.campaignId intent.payload :=
    (enduring_reported _ _).and (Enduring.and (fun _ _ hstored _ h ↦ h.mono hstored)
      fun _ _ hstored _ h ↦ h.mono hstored)
  refine job_bind hafter (attempt_job (henduring.guarded.and
    (guarded_unselected intent.campaignId taskId)) ?_ hafter
      ⟨⟨hreported, hconcluded, hplanned⟩, hunselected⟩) ?_
  · rintro before - ⟨⟨hreported, hconcluded, -⟩, -⟩
    exact .job hreported.asked hreported.answered hreported.action rfl rfl hlaunch hconcluded
  · rintro record last hlast ⟨⟨hstored, hcampaign', hname⟩, ⟨-, -, hplanned⟩, hunselected⟩
    refine finishAttempt_job hlast ⟨hstored, hcampaign', hplanned, ?_⟩
    rw [hcampaign', hname]
    exact hunselected

theorem completeTasks_job {taskIds : List String}
    (hkind : intent.actionKind = .jobLaunch ∨ intent.actionKind = .jobObserve)
    (hinv : Tracked allowed state) (hreported : Reported intent receipt state)
    (hknown : Known intent.campaignId known state)
    (haccounted : ∀ taskId ∈ taskIds, Accounted allowed intent receipt known taskId state) :
    JobSafe allowed strict .reconciler thread
      (taskIds.forM (completeTask intent receipt fallback replacementEligible known))
      (fun _ _ ↦ True) state := by
  have henduring : Enduring fun state ↦ Reported intent receipt state ∧
      Known intent.campaignId known state ∧
        ∀ taskId ∈ taskIds, Accounted allowed intent receipt known taskId state :=
    (enduring_reported _ _).and ((enduring_known known).and
      fun before after hstored hlog h taskId htask ↦
        enduring_accounted _ _ _ _ before after hstored hlog (h taskId htask))
  refine job_forM hinv henduring ⟨hreported, hknown, haccounted⟩ ?_
  rintro taskId htask before - ⟨hreported, hknown, haccounted⟩
  exact completeTask_job hkind hreported hknown (haccounted taskId htask)

theorem completeTasksFromJob_job
    (hkind : intent.actionKind = .jobLaunch ∨ intent.actionKind = .jobObserve)
    (hreported : Reported intent receipt state)
    (hending : ∀ taskIds, intent.payload.taskIds = some taskIds → ∀ taskId ∈ taskIds,
      Ending allowed intent receipt taskId state) : JobSafe allowed strict .reconciler thread
      (completeTasksFromJob intent receipt fallback replacementEligible) (fun _ _ ↦ True) state := by
  refine job_ofExcept fun taskIds htasks ↦ ?_
  have hpayload : intent.payload.taskIds = some taskIds := by
    unfold requiredTaskIds at htasks
    split at htasks
    next found hfound =>
      rw [hfound]
      exact congrArg some (Except.ok.inj htasks)
    next => cases htasks
  have henduring : Enduring fun state ↦ Reported intent receipt state ∧
      ∀ taskId ∈ taskIds, Ending allowed intent receipt taskId state :=
    (enduring_reported _ _).and fun before after hstored hlog h taskId htask ↦
      enduring_ending _ _ _ before after hstored hlog (h taskId htask)
  refine job_ask henduring.guarded ⟨hreported, hending taskIds hpayload⟩ ?_
  rintro after hafter ⟨hreported, hending⟩
  refine completeTasks_job hkind hafter hreported
    (fun attempt hattempt ↦ hafter.mem_campaignAttempts.mp hattempt) fun taskId htask ↦ ?_
  rcases hending taskId htask with hconcluded | ⟨attempt, hattempt, hcampaign, hrest⟩
  · exact .inl hconcluded
  · exact .inr ⟨attempt, hafter.mem_campaignAttempts.mpr ⟨hattempt, hcampaign⟩, hrest⟩

end

section

variable {options : ReconcilerOptions} {intent : ActionIntent} {receipt : ActionReceipt}

theorem finishPreparation_job {successful : Bool} (hallowed : allowed options)
    (hkind : intent.actionKind = .jobLaunch ∨ intent.actionKind = .jobObserve)
    (hrole : intent.payload.workerRole = some .preparation)
    (hended : intent.actionKind = .jobObserve → Ended receipt)
    (hsuccessful : successful = true → intent.actionKind = .jobObserve ∧ Stopped receipt)
    (hreported : Reported intent receipt state) (prepared : Option PreparedJob) :
    JobSafe allowed strict .reconciler thread
      (finishPreparation options intent receipt successful prepared) (fun _ _ ↦ True) state := by
  cases prepared with
  | some job =>
    refine job_requiredLock enduring_true.guarded trivial fun lock after hafter _ hlock _ ↦ ?_
    split_ifs
    · exact job_throw
    · exact job_local (launchExecution_writes _ _) (enduring_mem _) hlock
  | none =>
    refine job_ask (enduring_reported intent receipt).guarded hreported fun after hafter hreported ↦ ?_
    dsimp only
    split
    next hgrace =>
      obtain ⟨hstop, -, hfirst, -⟩ := hgrace
      obtain ⟨hobserve, hstopped⟩ := hsuccessful hstop
      exact job_local (observeAgain_writes hallowed hobserve (.grace hstopped hfirst))
        (enduring_reported _ _) hreported
    next =>
    refine job_ofExcept fun maximum _ ↦ ?_
    split
    · refine job_requiredLock enduring_true.guarded trivial fun lock last _ _ _ _ ↦ ?_
      exact job_local (launchPreparation_writes _ _ _) enduring_true trivial
    · refine completeTasksFromJob_job hkind hreported fun _ _ _ _ ↦ .inl fun hobserve ↦ ?_
      exact ⟨hended hobserve, fun _ ↦ .inl hrole⟩

theorem handlePreparationTerminal_job {ending : String} (hallowed : allowed options)
    (hkind : intent.actionKind = .jobLaunch ∨ intent.actionKind = .jobObserve)
    (hrole : intent.payload.workerRole = some .preparation)
    (hended : intent.actionKind = .jobObserve → Ended receipt)
    (hstopped : ending = "STOPPED" ∨ ending = "COMPLETED" →
      intent.actionKind = .jobObserve ∧ Stopped receipt)
    (hinv : Tracked allowed state) (hreported : Reported intent receipt state) :
    JobSafe allowed strict .reconciler thread
      (handlePreparationTerminal options intent receipt ending) (fun _ _ ↦ True) state := by
  unfold handlePreparationTerminal
  split_ifs with hstop
  · have hread : (preparedJob intent.campaignId).Uses (Writes [] CalmRecord) :=
      ⟨trivial, fun _ ↦ trivial⟩
    refine job_bind hinv (job_calm hread (enduring_reported _ _).guarded hreported)
      fun prepared after _ hreported ↦ ?_
    exact finishPreparation_job hallowed hkind hrole hended (fun _ ↦ hstopped hstop) hreported prepared
  · exact finishPreparation_job hallowed hkind hrole hended (fun hfalse ↦ by cases hfalse) hreported _

/-- The worker of a Job recorded an attempt of each of its tasks. -/
def Present (intent : ActionIntent) (state : World × Log) : Prop :=
  ∀ taskIds, intent.payload.taskIds = some taskIds → ∀ taskId ∈ taskIds,
    ∃ attempt, .attemptReceipt attempt ∈ state.1.store.records ∧
      attempt.campaignId = intent.campaignId ∧ attempt.taskId = taskId ∧
        launchActionOf intent = .ok attempt.actionId

omit [Digests] in
theorem enduring_present (present : Bool) :
    Enduring fun state ↦ present = true → Present intent state := by
  intro before after hstored _ h htrue taskIds htasks taskId htask
  obtain ⟨attempt, hattempt, hrest⟩ := h htrue taskIds htasks taskId htask
  exact ⟨attempt, hstored _ hattempt, hrest⟩

theorem allWorkerAttemptsPresent_job (hkind : intent.actionKind = .jobObserve)
    (hinv : Tracked allowed state) :
    JobSafe allowed strict role thread (allWorkerAttemptsPresent intent)
      (fun present last ↦ present = true → Present intent last) state := by
  refine job_bind hinv (job_calm (uses_syncProjection.mono Local.writes) enduring_true.guarded trivial)
    fun _ first _ _ ↦ ?_
  refine job_ofExcept fun taskIds htasks ↦ job_ofExcept fun launchActionId hlaunch ↦ ?_
  refine job_ask enduring_true.guarded trivial fun after hafter _ ↦ ?_
  refine job_ret (enduring_present _).stable ?_ fun _ _ hlast ↦ hlast
  intro hpresent taskIds' htasks' taskId htask
  have hsame : taskIds = taskIds' := by
    simp only [requiredTaskIds, htasks'] at htasks
    exact (Except.ok.inj htasks).symm
  subst hsame
  obtain ⟨attempt, hmem, hfields⟩ := List.any_eq_true.mp (List.all_eq_true.mp hpresent taskId htask)
  obtain ⟨hname, haction⟩ := of_decide_eq_true hfields
  obtain ⟨hstored, hcampaign⟩ := hafter.mem_campaignAttempts.mp hmem
  refine ⟨attempt, hstored, hcampaign, hname, ?_⟩
  simp only [launchActionOf, hkind, reduceCtorEq, ↓reduceIte, haction]
  exact hlaunch

theorem handleStoppedJob_job (hallowed : allowed options) (hkind : intent.actionKind = .jobObserve)
    (hstopped : Stopped receipt) (hinv : Tracked allowed state)
    (hreported : Reported intent receipt state) :
    JobSafe allowed strict .reconciler thread (handleStoppedJob options intent receipt)
      (fun _ _ ↦ True) state := by
  refine job_ofExcept fun successful hsuccessful ↦ ?_
  refine job_seq hinv (enduring_reported intent receipt) hreported
    (allWorkerAttemptsPresent_job hkind hinv) fun present after hafter hpresent hreported ↦ ?_
  refine job_ask ((enduring_reported intent receipt).and (enduring_present present)).guarded
    ⟨hreported, hpresent⟩ ?_
  rintro last hlast ⟨hreported, hpresent⟩
  dsimp only
  split
  next hgrace =>
    obtain ⟨-, -, -, hfirst, -⟩ := hgrace
    exact job_local (observeAgain_writes hallowed hkind (.grace hstopped hfirst))
      (enduring_reported _ _) hreported
  next hgrace =>
  refine completeTasksFromJob_job (.inr hkind) hreported fun taskIds htasks taskId htask ↦ ?_
  cases hworkers : present with
  | true =>
    obtain ⟨attempt, hattempt, hrest⟩ := hpresent hworkers taskIds htasks taskId htask
    exact .inr ⟨attempt, hattempt, hrest⟩
  | false =>
    refine .inl fun _ ↦ ⟨hstopped.1, fun _ ↦ .inr ?_⟩
    by_cases hsuccess : successful = true
    · subst hsuccess
      exact .inl (requiredField_eq_ok hsuccessful)
    · refine .inr ?_
      by_cases hdeadline : intent.payload.workerReceiptDeadline = none
      · refine .inr ?_
        by_cases hpositive : 0 < options.workerReceiptGraceMs.getD 0
        · refine .inr ?_
          have hcancelling : last.1.projection.hasCampaignAction intent.campaignId
              .campaignCancel = true := by
            by_contra hfalse
            exact hgrace ⟨Bool.eq_false_iff.mpr hsuccess, hworkers, Bool.eq_false_iff.mpr hfalse,
              hdeadline, hpositive⟩
          exact hlast.hasCampaignAction_eq_true hcancelling
        · exact .inl ⟨options, hallowed, by omega⟩
      · exact .inl hdeadline

theorem handleJobObservation_job (hallowed : allowed options)
    (hkind : intent.actionKind = .jobObserve) (hinv : Tracked allowed state)
    (hreported : Reported intent receipt state) :
    JobSafe allowed strict .reconciler thread (handleJobObservation options intent receipt)
      (fun _ _ ↦ True) state := by
  unfold handleJobObservation
  dsimp only
  split_ifs with hrunning hrole hstop
  · refine job_local (observeAgain_writes hallowed hkind (.later fun hended ↦ ?_))
      (enduring_reported _ _) hreported
    rcases hrunning with hfailed | hstate
    · exact hended.1 hfailed
    · rw [hended.2] at hstate
      cases hstate
  all_goals
    obtain ⟨hfailed, hterminal⟩ := not_or.mp hrunning
    have hended : Ended receipt := ⟨hfailed, by simpa using hterminal⟩
  · exact handlePreparationTerminal_job hallowed (.inr hkind) hrole (fun _ ↦ hended)
      (fun hstop ↦ ⟨hkind, hended, hstop⟩) hinv hreported
  · exact handleStoppedJob_job hallowed hkind ⟨hended, hstop⟩ hinv hreported
  · refine completeTasksFromJob_job (.inr hkind) hreported fun _ _ _ _ ↦ .inl fun _ ↦ ?_
    exact ⟨hended, fun hstopped ↦ absurd hstopped.2 hstop⟩

theorem advanceLaunch_job (hallowed : allowed options) (hkind : intent.actionKind = .jobLaunch)
    (hinv : Tracked allowed state) (hreported : Reported intent receipt state) :
    JobSafe allowed strict .reconciler thread (advanceLaunch options intent receipt)
      (fun _ _ ↦ True) state := by
  have hlaunch : intent.actionKind = .jobObserve → Ended receipt := by
    intro hobserve
    rw [hkind] at hobserve
    cases hobserve
  unfold advanceLaunch
  split_ifs with hsuppressed hfailed hrole
  · exact job_done
  · refine handlePreparationTerminal_job hallowed (.inl hkind) hrole hlaunch (fun hstop ↦ ?_) hinv
      hreported
    exact absurd hstop (by decide)
  · refine completeTasksFromJob_job (.inl hkind) hreported fun _ _ _ _ ↦ .inl fun hobserve ↦ ?_
    rw [hkind] at hobserve
    cases hobserve
  · exact job_local (observeJob_writes options receipt hkind) (enduring_reported _ _) hreported

end

end

end HarborHF.Control
