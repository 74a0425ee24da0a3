import HarborHF.Control.Handlers

/-!
# The reconciler and the life of Jobs

The rest of what the reconciler does, up to a whole `tick`: cleanup and publication have nothing to do
with Jobs, a cancellation seals the tasks that are open, and the receipt of an observation is written
after a time at which the observation was due.
-/

set_option autoImplicit false

namespace HarborHF.Control

open Async Program Relational Projection

section

variable [Digests] {allowed : ReconcilerOptions → Prop} {strict : Prop} {role : ThreadRole}
  {thread : ℕ} {state : World × Log} {campaignId : String} {intent : ActionIntent}

/-! ### Records that have nothing to do with Jobs -/

theorem books_calm : Books CalmRecord := ⟨fun _ ↦ trivial, fun _ ↦ trivial, fun _ ↦ trivial⟩

theorem calm_writes {kind : ActionKind} (hlaunch : kind ≠ .jobLaunch) (hobserve : kind ≠ .jobObserve) :
    ServiceWrites CalmRecord campaignId kind :=
  fun _ _ _ _ ↦ ⟨canonical_actionIntent _ _ _ _ _ _ _, hlaunch, hobserve⟩

theorem calm_receipt (hcanonical : CanonicalIntent intent)
    (hkind : intent.actionKind ≠ .jobObserve) (result : ExternalActionResult) (createdAt : ℕ) :
    CalmRecord (.actionReceipt (receiptRecord intent result createdAt)) :=
  ⟨_, _, _, hkind, hcanonical⟩

theorem cleanupSandboxes_calm {actions : List ActionRow}
    (h : ∀ row ∈ actions, CanonicalIntent row.intent) :
    (cleanupSandboxes campaignId actions).Uses (Local CalmRecord) := by
  refine uses_cleanupSandboxes (calm_writes (by decide) (by decide)) fun row hrow hdata ↦
    ⟨calm_receipt (h row hrow) fun hkind ↦ ?_, fun _ ↦ trivial⟩
  rw [hkind] at hdata
  cases hdata

theorem job_aside {β : Type} {program : Act β} (huses : program.Uses (Local CalmRecord)) :
    JobSafe allowed strict role thread program (fun _ _ ↦ True) state :=
  job_local (huses.mono (Local.mono fun _ hcalm ↦ hcalm.fits)) enduring_true trivial

theorem Tracked.canonical_row (h : Tracked allowed state) {row : ActionRow}
    (hrow : row ∈ state.1.projection.campaignActions campaignId) : CanonicalIntent row.intent :=
  h.history.canonical _ (h.mem_campaignActions hrow).1.intent

theorem ensureSandboxCleanup_job :
    JobSafe allowed strict role thread (ensureSandboxCleanup campaignId) (fun _ _ ↦ True) state :=
  job_ask enduring_true.guarded trivial fun _ hafter _ ↦
    job_aside (cleanupSandboxes_calm fun _ hrow ↦ hafter.canonical_row hrow)

theorem ensureEndpointCleanup_calm (options : ReconcilerOptions) :
    (ensureEndpointCleanup options campaignId).Uses (Local CalmRecord) := by
  refine uses_bind (uses_ask _) fun rows ↦ ?_
  dsimp only
  split
  · trivial
  · exact uses_bind (uses_ask _) fun actions ↦
      uses_pauseEndpoints _ _ _ (calm_writes (by decide) (by decide))

theorem maybePublish_job (options : ReconcilerOptions) :
    JobSafe allowed strict role thread (maybePublish options campaignId) (fun _ _ ↦ True) state := by
  refine job_ask enduring_true.guarded trivial fun first hfirst _ ↦ ?_
  split
  · exact job_done
  refine job_bind hfirst ensureSandboxCleanup_job fun sandboxes second hsecond _ ↦ ?_
  split
  · exact job_done
  refine job_bind hsecond (job_aside (ensureEndpointCleanup_calm options)) fun endpoints third _ _ ↦ ?_
  split
  · exact job_done
  refine job_aside (uses_bind (uses_ask _) fun refreshed ↦ ?_)
  split
  · trivial
  refine uses_bind (uses_ask _) fun published ↦ ?_
  split
  · trivial
  refine uses_bind (uses_ask _) fun recorded ↦ ?_
  split
  · trivial
  · exact uses_serviceIntent fun createdAt ↦
      uses_bind (uses_writeAction (calm_writes (by decide) (by decide) _ _ _ _)) fun _ ↦ trivial

/-! ### Cancellation -/

/-- Sealing one open task leaves the others open. -/
theorem cancelTask_job {receipt : ActionReceipt} {task : TaskRow}
    {others : List String} (hkind : intent.actionKind = .campaignCancel)
    (hinv : Tracked allowed state) (hintent : .actionIntent intent ∈ state.1.store.records)
    (hopen : task.terminalOutcome.isSome = false → Unselected state.1 campaignId task.taskId)
    (hne : ∀ taskId ∈ others, taskId ≠ task.taskId)
    (hothers : ∀ taskId ∈ others, Unselected state.1 campaignId taskId) :
    JobSafe allowed strict .reconciler thread (cancelTask campaignId intent receipt task)
      (fun _ last ↦ ∀ taskId ∈ others, Unselected last.1 campaignId taskId) state := by
  unfold cancelTask
  split_ifs with hterminal
  · exact job_ret (guarded_opens _ others).stable hothers fun _ _ hlast ↦ hlast
  have hguarded : Guarded .reconciler thread [] fun state ↦
      .actionIntent intent ∈ state.1.store.records ∧ Unselected state.1 campaignId task.taskId ∧
        ∀ taskId ∈ others, Unselected state.1 campaignId taskId :=
    (enduring_mem _).guarded.and ((guarded_unselected _ _).and (guarded_opens _ others))
  refine job_bind hinv (attempt_job hguarded (fun before _ hheld ↦ ?_) hinv
    ⟨hintent, hopen (Bool.eq_false_iff.mpr hterminal), hothers⟩) ?_
  · exact .cancelled hheld.1 hkind rfl
  · rintro record after hafter ⟨⟨hstored, hcampaign, htask⟩, -, hopened, hothers⟩
    simp only at hcampaign htask
    subst hcampaign
    refine job_bind hafter (selectTerminal_job hstored (htask ▸ hopened) fun taskId hmem ↦
      ⟨htask ▸ hne taskId hmem, hothers taskId hmem⟩) fun _ last _ hlast ↦ ?_
    exact job_ret (guarded_opens _ others).stable hlast fun _ _ hfinal ↦ hfinal

/-- Sealing the open tasks that a query listed. -/
theorem cancelTasks_job {receipt : ActionReceipt} {tasks : List TaskRow}
    (hkind : intent.actionKind = .campaignCancel)
    (hdistinct : (tasks.map TaskRow.taskId).Nodup) (hinv : Tracked allowed state)
    (hintent : .actionIntent intent ∈ state.1.store.records)
    (hopen : ∀ task ∈ tasks, task.terminalOutcome.isSome = false →
      Unselected state.1 campaignId task.taskId) : JobSafe allowed strict .reconciler thread
      (tasks.forM (cancelTask campaignId intent receipt)) (fun _ _ ↦ True) state := by
  induction tasks generalizing state with
  | nil => exact job_done
  | cons task rest ih =>
    obtain ⟨hfresh, hdistinct⟩ := List.nodup_cons.mp hdistinct
    have hne : ∀ taskId ∈ (rest.filter fun other ↦ !other.terminalOutcome.isSome).map TaskRow.taskId,
        taskId ≠ task.taskId := by
      rintro taskId hmem rfl
      obtain ⟨other, hother, hname⟩ := List.mem_map.mp hmem
      exact hfresh (hname ▸ List.mem_map_of_mem (List.mem_filter.mp hother).1)
    have hothers : ∀ taskId ∈
        (rest.filter fun other ↦ !other.terminalOutcome.isSome).map TaskRow.taskId,
          Unselected state.1 campaignId taskId := by
      intro taskId hmem
      obtain ⟨other, hother, rfl⟩ := List.mem_map.mp hmem
      obtain ⟨hrest, hnone⟩ := List.mem_filter.mp hother
      exact hopen other (List.mem_cons_of_mem _ hrest) (by simpa using hnone)
    refine job_seq hinv (enduring_mem (.actionIntent intent)) hintent
      (cancelTask_job hkind hinv hintent (hopen task List.mem_cons_self) hne hothers) ?_
    intro _ after hafter hopens hintent
    refine ih hdistinct hafter hintent fun other hother hnone ↦ hopens _ ?_
    exact List.mem_map_of_mem (List.mem_filter.mpr ⟨hother, by simpa using hnone⟩)

theorem Tracked.nodup_tasksOf (h : Tracked allowed state) :
    ((state.1.projection.tasksOf campaignId).map TaskRow.taskId).Nodup := by
  unfold tasksOf
  refine ((List.perm_insertionSort _ _).map TaskRow.taskId).nodup_iff.mpr ?_
  refine (h.roster.keyedTasks.of_map.filter _).map_on fun first hfirst second hsecond hname ↦ ?_
  obtain ⟨hmem, hcampaign⟩ := List.mem_filter.mp hfirst
  obtain ⟨hmem', hcampaign'⟩ := List.mem_filter.mp hsecond
  refine h.roster.keyedTasks.eq_of_mem hmem hmem' (Prod.ext ?_ hname)
  exact (of_decide_eq_true hcampaign).trans (of_decide_eq_true hcampaign').symm

theorem cancelOpenTasks_job {receipt : ActionReceipt} (hkind : intent.actionKind = .campaignCancel)
    (hintent : .actionIntent intent ∈ state.1.store.records) :
    JobSafe allowed strict .reconciler thread (cancelOpenTasks campaignId intent receipt)
      (fun _ _ ↦ True) state := by
  refine job_ask (enduring_mem (.actionIntent intent)).guarded hintent fun after hafter hintent ↦ ?_
  refine cancelTasks_job hkind hafter.nodup_tasksOf hafter hintent fun task htask hopen ↦ ?_
  have hsorted : task ∈ after.1.projection.tasksOf campaignId := htask
  rw [tasksOf, List.mem_insertionSort, List.mem_filter, decide_eq_true_eq] at hsorted
  obtain ⟨hrow, rfl⟩ := hsorted
  exact (hafter.unselected_of_row hrow hopen).1

omit [Digests] in
theorem completedCancellation_spec {actions : List ActionRow}
    {receipt : ActionReceipt} (h : completedCancellation actions = some (intent, receipt)) :
    ∃ row ∈ actions, row.intent = intent ∧ intent.actionKind = .campaignCancel := by
  obtain ⟨row, hfind, hpair⟩ := Option.bind_eq_some_iff.mp h
  obtain ⟨found, -, hentry⟩ := Option.map_eq_some_iff.mp hpair
  cases hentry
  have hfields := List.find?_some hfind
  exact ⟨row, List.mem_of_find?_eq_some hfind, rfl,
    of_decide_eq_true (Bool.and_eq_true_iff.mp hfields).1⟩

theorem continueCancellation_job (options : ReconcilerOptions) :
    JobSafe allowed strict .reconciler thread (continueCancellation options campaignId)
      (fun _ _ ↦ True) state := by
  refine job_query fun before _ hbefore hafter ↦ ?_
  have hrows : ∀ row ∈ before.1.projection.campaignActions campaignId,
      RowOf before.1.store.records row := fun row hrow ↦ (hbefore.mem_campaignActions hrow).1
  have hcanonical : ∀ row ∈ before.1.projection.campaignActions campaignId,
      CanonicalIntent row.intent := fun row hrow ↦ hbefore.canonical_row hrow
  simp only [Query.answer]
  generalize before.1.projection.campaignActions campaignId = actions at hrows hcanonical ⊢
  have henduring : Enduring fun state ↦ ∀ row ∈ actions, RowOf state.1.store.records row :=
    fun _ _ hstored _ h row hrow ↦ (h row hrow).mono hstored
  refine job_seq hafter henduring hrows (job_aside (uses_anyDispatched _))
    fun dispatched second hsecond _ hrows ↦ ?_
  split
  · exact job_done
  refine job_seq hsecond henduring hrows (job_aside (cleanupSandboxes_calm hcanonical))
    fun cleaning third hthird _ hrows ↦ ?_
  split
  · exact job_done
  split
  · split
    · exact job_done
    next intent receipt hcompleted =>
    obtain ⟨row, hrow, rfl, hkind⟩ := completedCancellation_spec hcompleted
    exact cancelOpenTasks_job hkind (hrows row hrow).intent
  · exact job_aside (uses_forM fun job _ ↦
      uses_cancelJob _ _ job (calm_writes (by decide) (by decide)))

/-! ### Results and receipts -/

theorem writes_ask (question : Query) : (ask question).Uses (Writes [] CalmRecord) :=
  ⟨trivial, fun _ ↦ trivial⟩

theorem writes_now : now.Uses (Writes [] CalmRecord) := ⟨trivial, fun _ ↦ trivial⟩

theorem callPort_writes {β : Type} {method : PortMethod} {adoptionOnly : Bool}
    {next : Except PortError PortOutput → Act β}
    (h : ∀ answer, (next answer).Uses (Writes [] CalmRecord)) :
    (callPort method intent adoptionOnly >>= next).Uses (Writes [] CalmRecord) :=
  ⟨trivial, h⟩

theorem executeExternal_writes {β : Type} {next : ExternalActionResult → Act β}
    (h : ∀ result, (next result).Uses (Writes [] CalmRecord)) :
    (executeExternal intent >>= next).Uses (Writes [] CalmRecord) := by
  refine uses_bind (callPort_writes fun answer ↦ ?_) h
  split <;> trivial

theorem dispatchAction_writes (intent : ActionIntent) (adoptionNotBefore : ℕ) :
    (dispatchAction intent adoptionNotBefore).Uses (Writes [] CalmRecord) :=
  (uses_dispatchAction fun _ _ ↦ trivial).mono Local.writes

theorem executeJobLaunch_writes (options : ReconcilerOptions) (intent : ActionIntent)
    (suppression : Option Suppression) :
    (executeJobLaunch options intent suppression).Uses (Writes [] CalmRecord) := by
  refine uses_bind (writes_ask _) fun dispatch ↦ ?_
  split
  · refine uses_bind writes_now fun time ↦ ?_
    split
    · trivial
    · refine callPort_writes fun answer ↦ ?_
      split <;> trivial
  · refine callPort_writes fun answer ↦ ?_
    split
    · trivial
    · trivial
    · refine uses_bind writes_now fun time ↦ uses_bind (dispatchAction_writes _ _) ?_
      rintro ⟨record, created⟩
      dsimp only
      split
      · trivial
      · refine callPort_writes fun answer ↦ ?_
        split <;> trivial
    · trivial

theorem tasksTerminal_writes (taskIds : List String) :
    (tasksTerminal campaignId taskIds).Uses (Writes [] CalmRecord) := by
  induction taskIds with
  | nil => trivial
  | cons taskId rest ih =>
    refine uses_bind (writes_ask _) fun task ↦ ?_
    split
    · trivial
    · exact ih

theorem handleJobLaunch_writes (options : ReconcilerOptions) (intent : ActionIntent) :
    (handleJobLaunch options intent).Uses (Writes [] CalmRecord) := by
  have hterminal : (allActionTasksTerminal intent).Uses (Writes [] CalmRecord) := by
    refine uses_bind (uses_ofExcept _) fun taskIds ↦ ?_
    split
    · trivial
    · exact tasksTerminal_writes taskIds
  refine uses_bind (writes_ask _) fun cancelled ↦ uses_bind hterminal fun terminal ↦ ?_
  dsimp only
  split
  · exact executeJobLaunch_writes _ _ _
  · refine uses_bind (writes_ask _) fun dispatch ↦ ?_
    split
    · trivial
    · exact executeJobLaunch_writes _ _ _

theorem executeSandbox_writes (intent : ActionIntent) (adoptionOnly : Bool) :
    (executeSandbox intent adoptionOnly).Uses (Writes [] CalmRecord) := by
  refine callPort_writes fun answer ↦ ?_
  split
  · trivial
  · split
    · exact uses_bind (uses_bind (writes_ask _) fun _ ↦ trivial) fun _ ↦ trivial
    · trivial
  · trivial
  · trivial

theorem handleSandbox_writes (options : ReconcilerOptions) (intent : ActionIntent) :
    (handleSandbox options intent).Uses (Writes [] CalmRecord) := by
  have hreserved : (sandboxReserved intent).Uses (Writes [] CalmRecord) := by
    unfold sandboxReserved
    split
    · split
      · trivial
      · refine uses_bind (writes_ask _) fun reservation ↦ ?_
        split
        · trivial
        · split <;> trivial
    · trivial
  refine uses_bind hreserved fun reserved ↦ ?_
  split
  · trivial
  refine uses_bind (writes_ask _) fun dispatch ↦ uses_bind writes_now fun time ↦ ?_
  split
  · trivial
  refine uses_bind ((uses_fenceSandbox books_calm _ _ _).mono Local.writes) fun _ ↦
    uses_bind writes_now fun later ↦ ?_
  split
  · trivial
  · exact executeSandbox_writes _ _

theorem resultOf_writes (options : ReconcilerOptions) (intent : ActionIntent) :
    (resultOf options intent).Uses (Writes [] CalmRecord) := by
  unfold resultOf
  split
  case h_1 =>
    exact uses_bind ((uses_publish (fun _ ↦ trivial) _).mono Local.writes) fun _ ↦ trivial
  case h_2 => trivial
  case h_3 => exact handleJobLaunch_writes options intent
  case h_4 => exact executeExternal_writes fun _ ↦ trivial
  case h_5 => trivial
  case h_6 => trivial
  case h_7 => trivial
  case h_8 => exact handleSandbox_writes options intent
  case h_9 => exact handleSandbox_writes options intent
  case h_10 => exact handleSandbox_writes options intent
  all_goals exact executeExternal_writes fun _ ↦ trivial

/-- A receipt may be written for a stored intent; for an observation only after a time at which it was
due. -/
def Receivable (thread : ℕ) (intent : ActionIntent) (state : World × Log) : Prop :=
  .actionIntent intent ∈ state.1.store.records ∧ (intent.actionKind = .jobObserve →
    ∃ (time : ℕ) (later earlier : Log), state.2 = later ++ ⟨thread, .now, (time : ℕ)⟩ :: earlier ∧
      ∀ notBefore, intent.payload.notBefore = some notBefore → notBefore ≤ time)

omit [Digests] in
theorem enduring_receivable (intent : ActionIntent) : Enduring (Receivable thread intent) := by
  rintro before after hstored ⟨added, hadded⟩ ⟨hintent, hdue⟩
  refine ⟨hstored _ hintent, fun hkind ↦ ?_⟩
  obtain ⟨time, later, earlier, hlog, hbefore⟩ := hdue hkind
  exact ⟨time, added ++ later, earlier, by rw [hadded, hlog, List.append_assoc], hbefore⟩

/-- The receipt that is about to be written is due. -/
def Timely (intent : ActionIntent) (receipt : ActionReceipt) (state : World × Log) : Prop :=
  .actionIntent intent ∈ state.1.store.records ∧
    (intent.actionKind = .jobObserve → Due state.2 intent receipt)

omit [Digests] in
theorem enduring_timely (intent : ActionIntent) (receipt : ActionReceipt) :
    Enduring (Timely intent receipt) := by
  rintro before after hstored ⟨added, hadded⟩ ⟨hintent, hdue⟩
  refine ⟨hstored _ hintent, fun hkind ↦ ?_⟩
  obtain ⟨thread, time, later, earlier, hlog, hbefore, hread⟩ := hdue hkind
  exact ⟨thread, time, added ++ later, earlier, by rw [hadded, hlog, List.append_assoc], hbefore,
    List.mem_append_right _ hread⟩

omit [Digests] in
theorem asReceipt_eq_some {record : Record} {receipt : ActionReceipt}
    (h : asReceipt record = some receipt) : record = .actionReceipt receipt := by
  unfold asReceipt at h
  split at h
  · cases h
    rfl
  · cases h

theorem Timely.fits {result : ExternalActionResult} {createdAt : ℕ} :
    Fits allowed (Timely intent (receiptRecord intent result createdAt))
      (.actionReceipt (receiptRecord intent result createdAt)) where
  plain := trivial
  canonical := trivial
  founded state hinv htimely := by
    by_cases hkind : intent.actionKind = .jobObserve
    · exact .inr ⟨intent, htimely.1, rfl, rfl, htimely.2 hkind⟩
    · exact .inl ⟨_, _, _, hkind, hinv.history.canonical _ htimely.1⟩

theorem receipt_job {result : ExternalActionResult} (h : Receivable thread intent state) :
    JobSafe allowed strict role thread (receipt intent result)
      (fun record last ↦ Reported intent record last) state := by
  refine job_now (enduring_receivable intent).guarded h ?_
  rintro createdAt before after ⟨hintent, hdue⟩ hafter - rfl
  have htimely : Timely intent (receiptRecord intent result createdAt)
      (before.1, ⟨thread, .now, (createdAt : ℕ)⟩ :: before.2) := by
    refine ⟨hintent, fun hkind ↦ ?_⟩
    obtain ⟨time, later, earlier, hlog, hbefore⟩ := hdue hkind
    exact ⟨thread, time, _ :: later, earlier, by rw [hlog]; rfl, hbefore, List.mem_cons_self⟩
  refine job_bind hafter (job_frame (enduring_timely _ _) htimely (job_appendAdopting
    (fun _ _ ↦ asReceipt_eq_some) (enduring_timely _ _).stable htimely
      (fun _ hinv hheld ↦ Timely.fits.licensed hinv hheld) fun _ hattempt ↦ by cases hattempt)) ?_
  rintro ⟨created, recorded⟩ last - ⟨⟨hstored, hsame⟩, hintent, -⟩
  refine job_ret (enduring_reported intent recorded).stable ⟨hintent, hstored, ?_⟩ fun _ _ hlast ↦ hlast
  rcases hsame with rfl | hequivalent
  · rfl
  · exact congrArg ActionReceipt.actionId (of_decide_eq_true hequivalent)

/-! ### The tick -/

variable {options : ReconcilerOptions}

theorem advanceKind_job {receipt : ActionReceipt} (hallowed : allowed options)
    (hinv : Tracked allowed state) (hreported : Reported intent receipt state) :
    JobSafe allowed strict .reconciler thread (advanceKind options intent receipt) (fun _ _ ↦ True)
      state := by
  have hendpoint : intent.actionKind = .endpointResume ∨ intent.actionKind = .endpointPause →
      (advanceEndpoint options intent receipt).Uses (Local CalmRecord) := by
    intro hkind
    refine uses_advanceEndpoint _ _ _ (calm_writes ?_ ?_) fun _ ↦ trivial
    all_goals rcases hkind with hkind | hkind <;> simp [hkind]
  unfold advanceKind
  split
  next => exact admitCampaign_job intent receipt
  next hkind => exact advanceLaunch_job hallowed hkind hinv hreported
  next hkind => exact handleJobObservation_job hallowed hkind hinv hreported
  next => exact continueCancellation_job options
  next hkind => exact job_aside (hendpoint (.inl hkind))
  next hkind => exact job_aside (hendpoint (.inr hkind))
  next => exact continueCancellation_job options
  all_goals exact job_done

theorem advance_job {receipt : ActionReceipt} (hallowed : allowed options)
    (hinv : Tracked allowed state) (hreported : Reported intent receipt state) :
    JobSafe allowed strict .reconciler thread (advance options intent receipt) (fun _ _ ↦ True)
      state := by
  refine job_bind hinv (advanceKind_job hallowed hinv hreported) fun _ second hsecond _ ↦ ?_
  have hcancellation : JobSafe allowed strict .reconciler thread
      (advanceCancellation options intent) (fun _ _ ↦ True) second := by
    unfold advanceCancellation
    split
    · exact job_done
    · refine job_ask enduring_true.guarded trivial fun _ _ _ ↦ ?_
      split
      · exact continueCancellation_job options
      · exact job_done
  refine job_bind hsecond hcancellation fun _ third hthird _ ↦ ?_
  exact job_bind hthird (maybePublish_job options) fun _ _ _ _ ↦ job_done

theorem finishAdvance_job (entry : ActionIntent × ActionReceipt) (hallowed : allowed options)
    (hinv : Tracked allowed state) (hreported : Reported entry.1 entry.2 state) :
    JobSafe allowed strict .reconciler thread (finishAdvance options entry) (fun _ _ ↦ True)
      state := by
  refine job_bind hinv (advance_job hallowed hinv hreported) fun _ after hafter _ ↦ ?_
  exact job_bind hafter (job_aside (uses_markAny books_calm _ _)) fun _ _ _ _ ↦ job_done

theorem handle_job (hallowed : allowed options) (hinv : Tracked allowed state)
    (h : Receivable thread intent state) :
    JobSafe allowed strict .reconciler thread (handle options intent) (fun _ _ ↦ True) state := by
  refine job_bind hinv (job_calm (resultOf_writes options intent) (enduring_receivable _).guarded h)
    fun result after hafter h ↦ ?_
  split
  · exact job_done
  · refine job_bind hafter (receipt_job h) fun record last hlast hreported ↦ ?_
    exact finishAdvance_job (intent, record) hallowed hlast hreported

theorem handlePending_job (hallowed : allowed options)
    (hintent : .actionIntent intent ∈ state.1.store.records) :
    JobSafe allowed strict .reconciler thread (handlePending options intent) (fun _ _ ↦ True)
      state := by
  refine job_now (enduring_mem (.actionIntent intent)).guarded hintent ?_
  rintro time before after - hafter hintent rfl
  split
  · exact job_done
  next hdue =>
  refine handle_job hallowed hafter ⟨hintent, fun _ ↦ ⟨time, [], before.2, rfl, ?_⟩⟩
  intro notBefore hnotBefore
  rw [hnotBefore] at hdue
  simpa using hdue

theorem tick_job (hallowed : allowed options) (hinv : Tracked allowed state) :
    JobSafe allowed strict .reconciler thread (tick options) (fun _ _ ↦ True) state := by
  refine job_bind hinv (job_aside uses_syncProjection) fun _ first hfirst _ ↦ ?_
  refine job_ask enduring_true.guarded trivial fun second hsecond _ ↦ ?_
  have hentries : ∀ entry ∈ second.1.projection.unadvancedActions options.batchSize,
      Reported entry.1 entry.2 second := by
    intro entry hentry
    have hrow := hsecond.mem_unadvancedActions hentry
    obtain ⟨hstored, haction, -⟩ := hrow.receipt entry.2 rfl
    exact ⟨hrow.intent, hstored, haction⟩
  have henduring : ∀ entries : List (ActionIntent × ActionReceipt),
      Enduring fun state ↦ ∀ entry ∈ entries, Reported entry.1 entry.2 state :=
    fun _ before after hstored hlog h entry hentry ↦
      enduring_reported _ _ before after hstored hlog (h entry hentry)
  refine job_bind hsecond (job_forM hsecond (henduring _) hentries
    fun entry hentry before hbefore h ↦ finishAdvance_job entry hallowed hbefore (h entry hentry)) ?_
  intro _ third hthird _
  refine job_ask enduring_true.guarded trivial fun fourth hfourth _ ↦ ?_
  have hpending : Enduring fun state ↦ ∀ intent ∈ fourth.1.projection.pendingActions options.batchSize,
      .actionIntent intent ∈ state.1.store.records :=
    fun _ _ hstored _ h intent hintent ↦ hstored _ (h intent hintent)
  refine job_bind hfourth (job_forM hfourth hpending
    (fun intent hintent ↦ hfourth.mem_pendingActions hintent)
      fun intent hintent before _ h ↦ handlePending_job hallowed (h intent hintent)) ?_
  intro _ fifth hfifth _
  refine job_ask enduring_true.guarded trivial fun sixth hsixth _ ↦ ?_
  refine job_forM hsixth enduring_true trivial fun campaign _ before hbefore _ ↦ ?_
  exact job_bind hbefore (maybePublish_job options) fun _ _ _ _ ↦ job_done

end

end HarborHF.Control
