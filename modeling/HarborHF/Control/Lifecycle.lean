import HarborHF.Control.Jobs

/-!
# The life of Jobs among other work

`Tracked` is the invariant of every run of the service: the tables are those of the stored records,
and the records of Jobs have their reasons. Between two operations of a thread the others may store
anything that has its reason, but no replacement while the thread holds the queue of retries, no
attempt while it holds the queue of the budget, and no terminal selection while it is the reconciler
(`JobSteady`). `Tracked.perform` is what one operation keeps.

An attempt is checked against its task and appended later, and the reconciler may close the task in
between. `Undisturbed` says that it did not, and `Final` that no attempt was added to a terminal task.
-/

set_option autoImplicit false

namespace HarborHF.Control

open Async Program Relational Projection

/-! ### Reads of a task and its terminal selection -/

/-- The thread read a task. -/
def ReadsTask (thread : ℕ) (campaignId taskId : String) (performed : Performed interface) : Prop :=
  performed.thread = thread ∧ performed.op = .query (.task campaignId taskId)

/-- A terminal selection of a task was appended. -/
def ClosesTask (campaignId taskId : String) (performed : Performed interface) : Prop :=
  ∃ selection, performed.op = .append (.terminalSelection selection) ∧
    selection.campaignId = campaignId ∧ selection.taskId = taskId

/-- No terminal selection of an attempt's task was appended since the thread that appends the attempt
last read the task. -/
def Undisturbed (thread : ℕ) (log : Log) : Op → Prop
  | .append (.attemptReceipt attempt) => ∀ later read earlier, log = later ++ read :: earlier →
      ReadsTask thread attempt.campaignId attempt.taskId read →
        (∀ performed ∈ later, ¬ ReadsTask thread attempt.campaignId attempt.taskId performed) →
          ∀ performed ∈ later, ¬ ClosesTask attempt.campaignId attempt.taskId performed
  | _ => True

/-- No terminal selection is stored for a task. -/
def Unselected (world : World) (campaignId taskId : String) : Prop :=
  ∀ selection, .terminalSelection selection ∈ world.store.records →
    ¬ (selection.campaignId = campaignId ∧ selection.taskId = taskId)

/-- Every new attempt is one of an open task. -/
def Final (before after : World) : Prop :=
  ∀ attempt, .attemptReceipt attempt ∈ after.store.records →
    .attemptReceipt attempt ∉ before.store.records →
      Unselected before attempt.campaignId attempt.taskId

/-! ### What threads see of each other -/

/-- The records that are only stored in a queue. -/
def Guards : Queue → Record → Prop
  | .retryAdmission, .actionIntent intent => Replaces intent
  | .budget, .attemptReceipt _ => True
  | _, _ => False

/-- What a thread sees of the others. -/
structure JobSteady (role : ThreadRole) (thread : ℕ) (before after : World × Log) : Prop where
  stored : Stored before.1 after.1
  log : ∃ added, after.2 = added ++ before.2 ∧ (∀ performed ∈ added, performed.thread ≠ thread) ∧
    ∀ selection, .terminalSelection selection ∈ after.1.store.records →
      .terminalSelection selection ∈ before.1.store.records ∨
        ∃ performed ∈ added, performed.op = .append (.terminalSelection selection)
  tasks : ∀ key, (lookup taskKey key before.1.projection.tasks).isSome = true →
    (lookup taskKey key after.1.projection.tasks).isSome = true
  held : ∀ queue, (queue, thread) ∈ after.1.held ↔ (queue, thread) ∈ before.1.held
  queued : ∀ queue record, (queue, thread) ∈ before.1.held → Guards queue record →
    record ∈ after.1.store.records → record ∈ before.1.store.records
  selections : role = .reconciler → ∀ selection,
    .terminalSelection selection ∈ after.1.store.records →
      .terminalSelection selection ∈ before.1.store.records

theorem JobSteady.refl (role : ThreadRole) (thread : ℕ) (state : World × Log) :
    JobSteady role thread state state where
  stored := Stored.refl _
  log := ⟨[], rfl, by simp, fun _ h ↦ .inl h⟩
  tasks _ h := h
  held _ := Iff.rfl
  queued _ _ _ _ h := h
  selections _ _ h := h

theorem JobSteady.trans {role : ThreadRole} {thread : ℕ} {first middle last : World × Log}
    (h : JobSteady role thread first middle) (h' : JobSteady role thread middle last) :
    JobSteady role thread first last where
  stored := h.stored.trans h'.stored
  log := by
    obtain ⟨added, hadded, hothers, hselections⟩ := h.log
    obtain ⟨added', hadded', hothers', hselections'⟩ := h'.log
    refine ⟨added' ++ added, by rw [hadded', hadded, List.append_assoc], ?_, ?_⟩
    · intro performed hmem
      rcases List.mem_append.mp hmem with hnew | hold
      · exact hothers' performed hnew
      · exact hothers performed hold
    · intro selection hselection
      rcases hselections' selection hselection with hmiddle | ⟨performed, hmem, hop⟩
      · rcases hselections selection hmiddle with hfirst | ⟨performed, hmem, hop⟩
        · exact .inl hfirst
        · exact .inr ⟨performed, List.mem_append_right _ hmem, hop⟩
      · exact .inr ⟨performed, List.mem_append_left _ hmem, hop⟩
  tasks key hkey := h'.tasks key (h.tasks key hkey)
  held queue := (h'.held queue).trans (h.held queue)
  queued queue record hheld hguards hrecord :=
    h.queued queue record hheld hguards
      (h'.queued queue record ((h.held _).mpr hheld) hguards hrecord)
  selections hrole selection hselection :=
    h.selections hrole selection (h'.selections hrole selection hselection)

section

variable {role : ThreadRole} {thread : ℕ} {state : World × Log}

theorem JobSteady.of_records {world : World} {performed : Performed interface} {role' : ThreadRole}
    {other : ℕ} (hother : performed.thread ≠ other)
    (hrecords : world.store.records = state.1.store.records)
    (htasks : world.projection.tasks = state.1.projection.tasks)
    (hheld : ∀ queue, (queue, other) ∈ world.held ↔ (queue, other) ∈ state.1.held) :
    JobSteady role' other state (world, performed :: state.2) where
  stored record hrecord := by
    rw [hrecords]
    exact hrecord
  log := by
    refine ⟨[performed], rfl, ?_, fun selection hselection ↦ .inl ?_⟩
    · intro entry hentry
      rw [List.mem_singleton.mp hentry]
      exact hother
    · rw [← hrecords]
      exact hselection
  tasks key hkey := by
    simp only [htasks]
    exact hkey
  held := hheld
  queued _ _ _ _ hrecord := by
    rw [← hrecords]
    exact hrecord
  selections _ _ hselection := by
    rw [← hrecords]
    exact hselection

theorem final_of_records {world world' : World} (h : world'.store.records = world.store.records) :
    Final world world' := by
  intro attempt hnew hold
  rw [h] at hnew
  exact absurd hnew hold

/-! ### Assertions -/

/-- A fact about what is stored and what was done, which never goes away. -/
def Enduring (hold : World × Log → Prop) : Prop :=
  ∀ before after, Stored before.1 after.1 → (∃ added, after.2 = added ++ before.2) →
    hold before → hold after

/-- An assertion that survives the other threads. -/
def Stable (role : ThreadRole) (thread : ℕ) (hold : World × Log → Prop) : Prop :=
  ∀ before after, JobSteady role thread before after → hold before → hold after

/-- What an operation of the thread itself does: it stores no terminal selection, and leaves some
queues as they are. -/
structure OwnStep (thread : ℕ) (queues : List Queue) (before after : World × Log) : Prop where
  stored : Stored before.1 after.1
  log : ∃ performed, after.2 = performed :: before.2
  selections : ∀ selection, .terminalSelection selection ∈ after.1.store.records →
    .terminalSelection selection ∈ before.1.store.records
  held : ∀ queue ∈ queues, (queue, thread) ∈ before.1.held → (queue, thread) ∈ after.1.held
  queued : ∀ queue ∈ queues, ∀ record, Guards queue record → record ∈ after.1.store.records →
    record ∈ before.1.store.records

/-- An assertion that survives the other threads, and the operations of this one that select nothing
and leave some queues as they are. -/
structure Guarded (role : ThreadRole) (thread : ℕ) (queues : List Queue)
    (hold : World × Log → Prop) : Prop where
  stable : Stable role thread hold
  step : ∀ before after, OwnStep thread queues before after → hold before → hold after

/-- Every stored record that the thread's queue guards is such a record. -/
def Sealed (thread : ℕ) (queue : Queue) (holds : Record → Prop) (state : World × Log) : Prop :=
  (queue, thread) ∈ state.1.held ∧
    ∀ record ∈ state.1.store.records, Guards queue record → holds record

variable {queues : List Queue}

theorem JobSteady.log_extends {before after : World × Log} (h : JobSteady role thread before after) :
    ∃ added, after.2 = added ++ before.2 := by
  obtain ⟨added, hadded, -⟩ := h.log
  exact ⟨added, hadded⟩

theorem OwnStep.log_extends {before after : World × Log} (h : OwnStep thread queues before after) :
    ∃ added, after.2 = added ++ before.2 := by
  obtain ⟨performed, hperformed⟩ := h.log
  exact ⟨[performed], hperformed⟩

theorem Enduring.stable {hold : World × Log → Prop} (h : Enduring hold) : Stable role thread hold :=
  fun before after hsteady ↦ h before after hsteady.stored hsteady.log_extends

theorem Enduring.guarded {hold : World × Log → Prop} (h : Enduring hold) :
    Guarded role thread [] hold where
  stable := h.stable
  step before after hstep := h before after hstep.stored hstep.log_extends

theorem Guarded.within {hold : World × Log → Prop} (h : Guarded role thread [] hold) :
    Guarded role thread queues hold where
  stable := h.stable
  step before after hstep := h.step before after ⟨hstep.stored, hstep.log, hstep.selections,
    fun _ hqueue ↦ absurd hqueue List.not_mem_nil, fun _ hqueue ↦ absurd hqueue List.not_mem_nil⟩

theorem enduring_stored {hold : List Record → Prop}
    (h : ∀ records records', (∀ record ∈ records, record ∈ records') → hold records → hold records') :
    Enduring fun state ↦ hold state.1.store.records :=
  fun _ _ hstored _ ↦ h _ _ hstored

theorem enduring_true : Enduring fun _ ↦ True := fun _ _ _ _ _ ↦ trivial

theorem enduring_mem (record : Record) : Enduring fun state ↦ record ∈ state.1.store.records :=
  enduring_stored fun _ _ hsubset ↦ hsubset record

theorem Enduring.and {first second : World × Log → Prop} (hfirst : Enduring first)
    (hsecond : Enduring second) : Enduring fun state ↦ first state ∧ second state :=
  fun before after hstored hlog h ↦
    ⟨hfirst before after hstored hlog h.1, hsecond before after hstored hlog h.2⟩

theorem Stable.and {first second : World × Log → Prop} (hfirst : Stable role thread first)
    (hsecond : Stable role thread second) :
    Stable role thread fun state ↦ first state ∧ second state :=
  fun before after hsteady h ↦ ⟨hfirst before after hsteady h.1, hsecond before after hsteady h.2⟩

theorem Guarded.and {first second : World × Log → Prop} (hfirst : Guarded role thread queues first)
    (hsecond : Guarded role thread queues second) :
    Guarded role thread queues fun state ↦ first state ∧ second state where
  stable := hfirst.stable.and hsecond.stable
  step before after hstep h :=
    ⟨hfirst.step before after hstep h.1, hsecond.step before after hstep h.2⟩

theorem guarded_unselected (campaignId taskId : String) :
    Guarded .reconciler thread [] fun state ↦ Unselected state.1 campaignId taskId where
  stable _ _ hsteady h selection hselection :=
    h selection (hsteady.selections rfl selection hselection)
  step _ _ hstep h selection hselection := h selection (hstep.selections selection hselection)

theorem guarded_sealed {queue : Queue} {holds : Record → Prop} (hqueue : queue ∈ queues) :
    Guarded role thread queues (Sealed thread queue holds) where
  stable _ _ hsteady h := ⟨(hsteady.held queue).mpr h.1, fun record hrecord hguards ↦
    h.2 record (hsteady.queued queue record h.1 hguards hrecord) hguards⟩
  step _ _ hstep h := ⟨hstep.held queue hqueue h.1, fun record hrecord hguards ↦
    h.2 record (hstep.queued queue hqueue record hguards hrecord) hguards⟩

/-- The state after a query. -/
def asked (thread : ℕ) (question : Query) (state : World × Log) : World × Log :=
  (state.1, ⟨thread, .query question, question.answer state.1.projection⟩ :: state.2)

theorem ownStep_asked (question : Query) (state : World × Log) :
    OwnStep thread queues state (asked thread question state) :=
  ⟨Stored.refl _, ⟨_, rfl⟩, fun _ h ↦ h, fun _ _ h ↦ h, fun _ _ _ _ h ↦ h⟩

end

section

variable [Digests]

/-! ### The invariant -/

/-- The tables are those of the stored records, whose Jobs have their reasons, and each queue has at
most one holder. -/
structure Tracked (allowed : ReconcilerOptions → Prop) (state : World × Log) : Prop where
  history : History state.1
  exclusive : ∀ queue first second, (queue, first) ∈ state.1.held → (queue, second) ∈ state.1.held →
    first = second
  roster : RosterOf state.1.store.records state.1.projection
  jobs : JobsOf allowed state.1.store.records state.2

/-- The contract of a thread. Under `strict` attempts are appended undisturbed. -/
def jobContract (strict : Prop) (role : ThreadRole) (thread : ℕ) :
    Contract interface (World × Log) where
  rely := JobSteady role thread
  guar before after := (∀ role' other, other ≠ thread → ThreadRole.conflict role role' = false →
    JobSteady role' other before after) ∧ (strict → Final before.1 after.1)
  ok op state := strict → Undisturbed thread state.2 op
  rely_refl := JobSteady.refl role thread
  rely_trans := JobSteady.trans

/-- What a thread may append: a record with its reason, a replacement in the queue of retries, an
attempt of a locked task in the queue of the budget, and as the reconciler a selection that closes an
open task. -/
structure Licensed (allowed : ReconcilerOptions → Prop) (role : ThreadRole) (thread : ℕ)
    (state : World × Log) (record : Record) : Prop where
  founded : Founded allowed state.1.store.records state.2 record
  canonical : Canonical record
  queued : ∀ queue, Guards queue record → (queue, thread) ∈ state.1.held
  attempt : ∀ attempt, record = .attemptReceipt attempt →
    (state.1.projection.taskRow? attempt.campaignId attempt.taskId).isSome = true ∧
      ∀ other, .attemptReceipt other ∈ state.1.store.records → other.attemptId ≠ attempt.attemptId
  selection : ∀ selection, record = .terminalSelection selection → role = .reconciler ∧
    Unselected state.1 selection.campaignId selection.taskId ∧
      ∃ attempt, .attemptReceipt attempt ∈ state.1.store.records ∧ Selects selection attempt

variable {allowed : ReconcilerOptions → Prop} {strict : Prop} {role : ThreadRole} {thread : ℕ}
  {state before after : World × Log} {record : Record}

/-- An attempt and a selection that a thread may append are accepted. -/
theorem Tracked.accepts (h : Tracked allowed state)
    (hlicensed : Licensed allowed role thread state record)
    (hfresh : Free Record.key record.key state.1.store.records)
    (hkind : (∃ attempt, record = .attemptReceipt attempt) ∨
      ∃ selection, record = .terminalSelection selection) : state.1.projection.Accepts record := by
  refine ⟨h.history.synced.free_objects hfresh, ?_⟩
  rcases hkind with ⟨attempt, rfl⟩ | ⟨selection, rfl⟩
  · obtain ⟨htask, hfree⟩ := hlicensed.attempt attempt rfl
    refine ⟨htask, fun row hrow ↦ ?_, fun row hrow ↦ ?_⟩
    · exact hlicensed.founded.2.2 row ((h.roster.mem_attempts row).mp hrow)
    · exact hfree row ((h.roster.mem_attempts row).mp hrow)
  · obtain ⟨-, hopen, attempt, hattempt, hselects⟩ := hlicensed.selection selection rfl
    have hmem := (h.roster.mem_attempts attempt).mpr hattempt
    obtain ⟨row, hrow, hkey⟩ := h.roster.attempted attempt hattempt
    simp only [taskKey, Prod.mk.injEq, hselects.campaign, hselects.task] at hkey
    have hrowOpen : row.terminalOutcome = none := by
      refine (h.roster.untouched row hrow fun other hother hcloses ↦ ?_).1
      exact hopen other hother ⟨hcloses.1.trans hkey.1, hcloses.2.trans hkey.2⟩
    refine ⟨⟨attempt, ?_, hselects.campaign, hselects.task, hselects.outcome⟩, row, hrow, ?_⟩
    · exact h.roster.keyedAttempts.lookup_eq_some.mpr ⟨hmem, hselects.identity⟩
    · simp [openTask, hrowOpen, hkey]

theorem Tracked.append (h : Tracked allowed state)
    (hlicensed : Licensed allowed role thread state record)
    (hfresh : Free Record.key record.key state.1.store.records) (performed : Performed interface) :
    Tracked allowed (state.1.afterAppend record, performed :: state.2) where
  history := h.history.append hlicensed.canonical hfresh
  exclusive := h.exclusive
  roster := h.roster.afterAppend h.history.synced hfresh (h.accepts hlicensed hfresh)
  jobs := (h.jobs.append hfresh hlicensed.founded).log_mono ⟨[performed], rfl⟩

/-- The other threads see a licensed record as they may. -/
theorem Tracked.steady_append (h : Tracked allowed state)
    (hlicensed : Licensed allowed role thread state record)
    (hfresh : Free Record.key record.key state.1.store.records)
    {answer : Except ServiceError Bool} {role' : ThreadRole} {other : ℕ} (hother : other ≠ thread)
    (hroles : ThreadRole.conflict role role' = false) : JobSteady role' other state
      (state.1.afterAppend record, ⟨thread, .append record, answer⟩ :: state.2) where
  stored stored hstored := List.mem_append_left _ hstored
  log := by
    refine ⟨[⟨thread, .append record, answer⟩], rfl, ?_, fun selection hselection ↦ ?_⟩
    · intro performed hmem
      rw [List.mem_singleton.mp hmem]
      exact Ne.symm hother
    · rcases mem_append_record.mp hselection with hold | rfl
      · exact .inl hold
      · exact .inr ⟨_, List.mem_cons_self, rfl⟩
  tasks key hkey := tasks_afterAppend h.history.synced hfresh hkey
  held _ := Iff.rfl
  queued queue stored hheld hguards hstored := by
    rcases mem_append_record.mp hstored with hold | rfl
    · exact hold
    · exact absurd (h.exclusive _ _ _ hheld (hlicensed.queued queue hguards)) hother
  selections hrole selection hselection := by
    rcases mem_append_record.mp hselection with hold | rfl
    · exact hold
    · rw [(hlicensed.selection selection rfl).1, hrole] at hroles
      cases hroles

/-- An operation that stores nothing keeps the invariant. -/
theorem Tracked.of_records {world : World} (h : Tracked allowed state) (hhistory : History world)
    (hrecords : world.store.records = state.1.store.records)
    (htasks : world.projection.tasks = state.1.projection.tasks)
    (hattempts : world.projection.attempts = state.1.projection.attempts)
    (hexclusive : ∀ queue first second, (queue, first) ∈ world.held → (queue, second) ∈ world.held →
      first = second) (performed : Performed interface) :
    Tracked allowed (world, performed :: state.2) where
  history := hhistory
  exclusive := hexclusive
  roster := by
    unfold RosterOf
    rw [hrecords, htasks, hattempts]
    exact h.roster
  jobs := by
    rw [hrecords]
    exact h.jobs.log_mono ⟨[performed], rfl⟩

/-- The operations that a thread may perform. -/
def LicensedOp (allowed : ReconcilerOptions → Prop) (role : ThreadRole) (thread : ℕ)
    (state : World × Log) : Op → Prop
  | .append record => Licensed allowed role thread state record
  | .remoteAppend _ => False
  | _ => True

/-- One operation keeps the invariant and the guarantee. -/
theorem Tracked.perform {op : Op} {choice : Choice} {answer : op.Ans} (h : Tracked allowed before)
    (hlicensed : LicensedOp allowed role thread before op)
    (hfinal : strict → ∀ attempt, op = .append (.attemptReceipt attempt) →
      Unselected before.1 attempt.campaignId attempt.taskId)
    (hperform : machine.traced.perform thread op choice before = some (answer, after)) :
    (jobContract strict role thread).guar before after ∧ Tracked allowed after := by
  obtain ⟨world, log⟩ := after
  obtain ⟨hworld, hlog⟩ := Machine.traced_perform.mp hperform
  simp only at hworld hlog
  subst hlog
  have hready := World.perform_ready h.history.synced h.history.ready hworld
  rcases World.perform_cases h.history.synced hworld with
    ⟨record, rfl, hfresh, rfl⟩ | ⟨record, rfl⟩ | ⟨queue, rfl, hfree, rfl⟩ | ⟨queue, rfl, rfl⟩ | hsame
  · refine ⟨⟨fun role' other hother hroles ↦ h.steady_append hlicensed hfresh hother hroles, ?_⟩,
      h.append hlicensed hfresh _⟩
    intro hstrict attempt hnew hold
    rcases mem_append_record.mp hnew with hstored | rfl
    · exact absurd hstored hold
    · exact hfinal hstrict attempt rfl
  · cases hlicensed
  · have hhistory := h.history.of_held ((queue, thread) :: before.1.held)
    refine ⟨⟨fun role' other hother _ ↦ .of_records (Ne.symm hother) rfl rfl fun name ↦ ?_,
      fun _ ↦ final_of_records rfl⟩, h.of_records hhistory rfl rfl rfl ?_ _⟩
    · simp [hother]
    · intro name first second hfirst hsecond
      rcases List.mem_cons.mp hfirst with hnew | hold
      · rcases List.mem_cons.mp hsecond with hnew' | hold'
        · exact (Prod.mk.inj hnew).2.trans (Prod.mk.inj hnew').2.symm
        · exact absurd ((Prod.mk.inj hnew).1 ▸ hold') (hfree second)
      · rcases List.mem_cons.mp hsecond with hnew' | hold'
        · exact absurd ((Prod.mk.inj hnew').1 ▸ hold) (hfree first)
        · exact h.exclusive name first second hold hold'
  · have hhistory := h.history.of_held
      (before.1.held.filter fun entry ↦ entry ≠ (queue, thread))
    refine ⟨⟨fun role' other hother _ ↦ .of_records (Ne.symm hother) rfl rfl fun name ↦ ?_,
      fun _ ↦ final_of_records rfl⟩, h.of_records hhistory rfl rfl rfl ?_ _⟩
    · simp [hother]
    · intro name first second hfirst hsecond
      exact h.exclusive name first second (List.mem_filter.mp hfirst).1 (List.mem_filter.mp hsecond).1
  · obtain ⟨ready, hprojection⟩ := hsame.projection
    have htasks : world.projection.tasks = before.1.projection.tasks := by rw [hprojection]
    have hattempts : world.projection.attempts = before.1.projection.attempts := by rw [hprojection]
    refine ⟨⟨fun role' other hother _ ↦ .of_records (Ne.symm hother) hsame.records htasks fun name ↦ ?_,
      fun _ ↦ final_of_records hsame.records⟩,
      h.of_records (h.history.of_unchanged hsame hready) hsame.records htasks hattempts ?_ _⟩
    · rw [hsame.held]
    · rw [hsame.held]
      exact h.exclusive

/-! ### Rules -/

variable {α β : Type} {post : β → World × Log → Prop} {hold : World × Log → Prop}
  {queues : List Queue}

/-- A program that is safe with the Jobs. -/
abbrev JobSafe (allowed : ReconcilerOptions → Prop) (strict : Prop) (role : ThreadRole) (thread : ℕ)
    (program : Act α) (post : α → World × Log → Prop) (state : World × Log) : Prop :=
  Safe machine.traced (Tracked allowed) thread (jobContract strict role thread) program post
    (fun _ _ ↦ True) state

/-- A licensed operation, then the rest of the program. -/
theorem job_await {op : Op} {resume : op.Ans → Act β}
    (hlicensed : ∀ before, JobSteady role thread state before → Tracked allowed before →
      LicensedOp allowed role thread before op)
    (hfinal : ∀ before, JobSteady role thread state before → Tracked allowed before →
      Undisturbed thread before.2 op → ∀ attempt, op = .append (.attemptReceipt attempt) →
        Unselected before.1 attempt.campaignId attempt.taskId)
    (hnext : ∀ before, JobSteady role thread state before → Tracked allowed before →
      ∀ choice answer after, machine.traced.perform thread op choice before = some (answer, after) →
        Tracked allowed after → JobSafe allowed strict role thread (resume answer) post after) :
    JobSafe allowed strict role thread (.await op resume) post state := by
  refine safe_await fun before hrely hinv hok choice answer after hperform ↦ ?_
  obtain ⟨hguar, hafter⟩ := hinv.perform (hlicensed before hrely hinv)
    (fun hstrict ↦ hfinal before hrely hinv (hok hstrict)) hperform
  exact ⟨hguar, hafter, hnext before hrely hinv choice answer after hperform hafter⟩

theorem job_query {question : Query} {next : question.Ans → Act β}
    (h : ∀ before, JobSteady role thread state before → Tracked allowed before →
      Tracked allowed (asked thread question before) →
        JobSafe allowed strict role thread (next (question.answer before.1.projection)) post
          (asked thread question before)) :
    JobSafe allowed strict role thread (ask question >>= next) post state := by
  refine job_await (fun _ _ _ ↦ trivial) (fun _ _ _ _ _ hop ↦ by cases hop) ?_
  rintro before hrely hbefore choice answer ⟨world, log⟩ hperform hafter
  obtain ⟨hworld, rfl⟩ := Machine.traced_perform.mp hperform
  cases hworld
  exact h before hrely hbefore hafter

theorem job_ask {question : Query} {next : question.Ans → Act β}
    (hguarded : Guarded role thread queues hold) (hstate : hold state)
    (h : ∀ after, Tracked allowed after → hold after →
      JobSafe allowed strict role thread (next (question.answer after.1.projection)) post after) :
    JobSafe allowed strict role thread (ask question >>= next) post state :=
  job_query fun before hrely _ hafter ↦ h (asked thread question before) hafter
    (hguarded.step before _ (ownStep_asked question before)
      (hguarded.stable state before hrely hstate))

/-- Reading the clock, then the rest of the program. -/
theorem job_now {next : ℕ → Act β} (hguarded : Guarded role thread queues hold)
    (hstate : hold state)
    (h : ∀ time before after, hold before → Tracked allowed after → hold after →
      after = (before.1, ⟨thread, .now, (time : ℕ)⟩ :: before.2) →
        JobSafe allowed strict role thread (next time) post after) :
    JobSafe allowed strict role thread (now >>= next) post state := by
  refine job_await (fun _ _ _ ↦ trivial) (fun _ _ _ _ _ hop ↦ by cases hop) ?_
  rintro before hrely hbefore choice answer ⟨world, log⟩ hperform hafter
  obtain ⟨hworld, rfl⟩ := Machine.traced_perform.mp hperform
  cases hworld
  have hheld := hguarded.stable state before hrely hstate
  refine h choice.now before _ hheld hafter (hguarded.step before _ ?_ hheld) rfl
  exact ⟨Stored.refl _, ⟨_, rfl⟩, fun _ h ↦ h, fun _ _ h ↦ h, fun _ _ _ _ h ↦ h⟩

theorem job_ret {value : β} (hstable : Stable role thread hold) (hstate : hold state)
    (h : ∀ after, Tracked allowed after → hold after → post value after) :
    JobSafe allowed strict role thread (.ret value) post state :=
  safe_ret fun after hrely hafter ↦ h after hafter (hstable state after hrely hstate)

theorem job_done {value : β} :
    JobSafe allowed strict role thread (.ret value) (fun _ _ ↦ True) state :=
  safe_ret fun _ _ _ ↦ trivial

theorem job_throw {error : ServiceError} :
    JobSafe allowed strict role thread (.throw error : Act β) post state :=
  safe_throw fun _ _ _ ↦ trivial

theorem job_bind {program : Act α} {next : α → Act β} {post' : α → World × Log → Prop}
    (hinv : Tracked allowed state)
    (hprogram : JobSafe allowed strict role thread program post' state)
    (h : ∀ value after, Tracked allowed after → post' value after →
      JobSafe allowed strict role thread (next value) post after) :
    JobSafe allowed strict role thread (program >>= next) post state :=
  safe_bind (hprogram.mono h fun _ _ _ _ ↦ trivial) hinv

theorem job_ofExcept {outcome : Except ServiceError α} {next : α → Act β}
    (h : ∀ value, outcome = .ok value → JobSafe allowed strict role thread (next value) post state) :
    JobSafe allowed strict role thread (ofExcept outcome >>= next) post state := by
  cases outcome with
  | ok value => exact h value rfl
  | error error => exact job_throw

/-- What endures is still there at the end of a program. -/
theorem job_frame {program : Act β} (henduring : Enduring hold) (hstate : hold state)
    (h : JobSafe allowed strict role thread program post state) :
    JobSafe allowed strict role thread program (fun value last ↦ post value last ∧ hold last)
      state := by
  have hguar : ∀ before after, (jobContract strict role thread).guar before after →
      JobSteady .api (thread + 1) before after := by
    intro before after hguar
    refine hguar.1 .api (thread + 1) (by omega) ?_
    cases role <;> rfl
  refine (Safe.frame h ?_ ?_ hstate).mono (fun _ _ _ hlast ↦ hlast) fun _ _ _ _ ↦ trivial
  · exact fun before after hrely ↦ henduring before after hrely.stored hrely.log_extends
  · exact fun before after hdone ↦
      henduring before after (hguar before after hdone).stored (hguar before after hdone).log_extends

theorem job_seq {program : Act α} {next : α → Act β} {post' : α → World × Log → Prop}
    (hinv : Tracked allowed state) (henduring : Enduring hold) (hstate : hold state)
    (hprogram : JobSafe allowed strict role thread program post' state)
    (h : ∀ value after, Tracked allowed after → post' value after → hold after →
      JobSafe allowed strict role thread (next value) post after) :
    JobSafe allowed strict role thread (program >>= next) post state :=
  job_bind hinv (job_frame henduring hstate hprogram) fun value after hafter hboth ↦
    h value after hafter hboth.1 hboth.2

/-- The rounds of a loop, with what endures. -/
theorem job_forM {items : List α} {body : α → Act PUnit} (hinv : Tracked allowed state)
    (henduring : Enduring hold) (hstate : hold state)
    (h : ∀ item ∈ items, ∀ before, Tracked allowed before → hold before →
      JobSafe allowed strict role thread (body item) (fun _ _ ↦ True) before) :
    JobSafe allowed strict role thread (items.forM body) (fun _ _ ↦ True) state := by
  have hloop : JobSafe allowed strict role thread (items.forM body) (fun _ last ↦ hold last) state := by
    refine safe_forM ?_ ?_ hinv hstate
    · exact fun before after hrely _ ↦ henduring before after hrely.stored hrely.log_extends
    · intro item hitem before hbefore hhold
      refine (job_frame henduring hhold (h item hitem before hbefore hhold)).mono ?_
        fun _ _ _ _ ↦ trivial
      exact fun _ _ _ hlast ↦ hlast.2
  exact hloop.mono (fun _ _ _ _ ↦ trivial) fun _ _ _ _ ↦ trivial

/-! ### Records that need no queue -/

/-- A record that needs no queue: no attempt, no terminal selection, no replacement. -/
def Plain : Record → Prop
  | .actionIntent intent => ¬ Replaces intent
  | .attemptReceipt _ => False
  | .terminalSelection _ => False
  | _ => True

/-- A plain record that has its reason wherever an assertion holds. -/
structure Fits (allowed : ReconcilerOptions → Prop) (hold : World × Log → Prop) (record : Record) :
    Prop where
  plain : Plain record
  canonical : Canonical record
  founded : ∀ state, Tracked allowed state → hold state →
    Founded allowed state.1.store.records state.2 record

/-- A record that has nothing to do with Jobs. -/
def CalmRecord : Record → Prop
  | .actionIntent intent => CanonicalIntent intent ∧ intent.actionKind ≠ .jobLaunch ∧
      intent.actionKind ≠ .jobObserve
  | .actionReceipt receipt => ∃ kind target generation, kind ≠ .jobObserve ∧
      receipt.actionId = actionIdOf receipt.campaignId kind target generation
  | .attemptReceipt _ => False
  | .terminalSelection _ => False
  | _ => True

/-- Operations that append certain records and leave some queues as they are. -/
def Writes (queues : List Queue) (fits : Record → Prop) : Op → Prop
  | .append record => fits record
  | .remoteAppend _ => False
  | .release queue => queue ∉ queues
  | _ => True

omit [Digests] in
theorem Plain.not_guards (h : Plain record) (queue : Queue) : ¬ Guards queue record := by
  intro hguards
  unfold Guards at hguards
  split at hguards
  · exact h hguards
  · exact h
  · exact hguards

theorem CalmRecord.fits (h : CalmRecord record) : Fits allowed hold record := by
  cases record with
  | actionIntent intent =>
    obtain ⟨hcanonical, hlaunch, hobserve⟩ := h
    refine ⟨fun hreplaces ↦ hlaunch hreplaces.1, hcanonical, fun _ _ _ ↦ ?_⟩
    exact ⟨fun hkind ↦ absurd hkind hlaunch, fun hkind ↦ absurd hkind hobserve,
      fun hkind ↦ absurd hkind (not_or.mpr ⟨hlaunch, hobserve⟩)⟩
  | actionReceipt receipt => exact ⟨trivial, trivial, fun _ _ _ ↦ .inl h⟩
  | attemptReceipt attempt => cases h
  | terminalSelection selection => cases h
  | _ => exact ⟨trivial, trivial, fun _ _ _ ↦ trivial⟩

theorem Fits.licensed (h : Fits allowed hold record) (hinv : Tracked allowed state)
    (hstate : hold state) : Licensed allowed role thread state record where
  founded := h.founded state hinv hstate
  canonical := h.canonical
  queued queue hguards := absurd hguards (h.plain.not_guards queue)
  attempt attempt hattempt := by
    have hplain := h.plain
    rw [hattempt] at hplain
    cases hplain
  selection selection hselection := by
    have hplain := h.plain
    rw [hselection] at hplain
    cases hplain

omit [Digests] in
theorem Writes.mono {fits weaker : Record → Prop} (himplies : ∀ record, fits record → weaker record)
    (op : Op) (h : Writes queues fits op) : Writes queues weaker op := by
  cases op with
  | append record => exact himplies record h
  | _ => exact h

omit [Digests] in
theorem Local.writes {fits : Record → Prop} (op : Op) (h : Local fits op) : Writes [] fits op := by
  cases op with
  | append record => exact h
  | remoteAppend record => exact h
  | release queue => exact List.not_mem_nil
  | _ => trivial

/-- A quiet operation stores plain records only, and keeps the queues. -/
theorem OwnStep.of_writes (op : Op) {choice : Choice} {answer : op.Ans} (hsynced : before.1.Synced)
    (hop : Writes queues Plain op)
    (hperform : machine.traced.perform thread op choice before = some (answer, after)) :
    OwnStep thread queues before after := by
  obtain ⟨world, log⟩ := after
  obtain ⟨hworld, hlog⟩ := Machine.traced_perform.mp hperform
  simp only at hworld hlog
  subst hlog
  rcases World.perform_cases hsynced hworld with
    ⟨record, rfl, hfresh, rfl⟩ | ⟨record, rfl⟩ | ⟨queue, rfl, hfree, rfl⟩ | ⟨queue, rfl, rfl⟩ | hsame
  · refine ⟨fun _ hold ↦ List.mem_append_left _ hold, ⟨_, rfl⟩, fun selection hselection ↦ ?_,
      fun _ _ hheld ↦ hheld, fun queue _ stored hguards hstored ↦ ?_⟩
    · rcases mem_append_record.mp hselection with hold | rfl
      · exact hold
      · cases hop
    · rcases mem_append_record.mp hstored with hold | rfl
      · exact hold
      · exact absurd hguards (Plain.not_guards hop queue)
  · cases hop
  · exact ⟨Stored.refl _, ⟨_, rfl⟩, fun _ h ↦ h, fun _ _ hheld ↦ List.mem_cons_of_mem _ hheld,
      fun _ _ _ _ h ↦ h⟩
  · refine ⟨Stored.refl _, ⟨_, rfl⟩, fun _ h ↦ h, fun name hname hheld ↦ ?_, fun _ _ _ _ h ↦ h⟩
    refine List.mem_filter.mpr ⟨hheld, decide_eq_true fun hentry ↦ hop ?_⟩
    rw [← (Prod.mk.inj hentry).1]
    exact hname
  · refine ⟨fun record hrecord ↦ ?_, ⟨_, rfl⟩, fun selection hselection ↦ ?_,
      fun queue _ hheld ↦ ?_, fun _ _ record _ hrecord ↦ ?_⟩
    · rw [hsame.records]
      exact hrecord
    · rw [← hsame.records]
      exact hselection
    · rw [hsame.held]
      exact hheld
    · rw [← hsame.records]
      exact hrecord

/-- A quiet program keeps an assertion under which its records have their reasons. -/
theorem job_uses {program : Act β} (huses : program.Uses (Writes queues (Fits allowed hold)))
    (hguarded : Guarded role thread queues hold) (hstate : hold state) :
    JobSafe allowed strict role thread program (fun _ last ↦ hold last) state := by
  have hsafe : Safe machine.traced (Tracked allowed) thread (jobContract strict role thread) program
      (fun _ last ↦ hold last) (fun _ last ↦ hold last) state := by
    refine safe_of_uses huses (fun before after hrely _ ↦ hguarded.stable before after hrely) ?_ hstate
    intro op hop before hbefore hok hhold choice answer after hperform
    have hplain : Writes queues Plain op := Writes.mono (fun _ hfits ↦ hfits.plain) op hop
    have hlicensed : LicensedOp allowed role thread before op := by
      cases op with
      | append record => exact Fits.licensed hop hbefore hhold
      | remoteAppend record => exact hop
      | _ => trivial
    obtain ⟨hguar, hafter⟩ := hbefore.perform hlicensed
      (fun _ attempt hattempt ↦ by subst hattempt; cases hplain) hperform
    exact ⟨hguar, hafter, hguarded.step before after
      (OwnStep.of_writes op hbefore.history.synced hplain hperform) hhold⟩
  exact hsafe.mono (fun _ _ _ hlast ↦ hlast) fun _ _ _ _ ↦ trivial

theorem job_calm {program : Act β} (huses : program.Uses (Writes queues CalmRecord))
    (hguarded : Guarded role thread queues hold) (hstate : hold state) :
    JobSafe allowed strict role thread program (fun _ last ↦ hold last) state :=
  job_uses (huses.mono (Writes.mono fun _ hcalm ↦ hcalm.fits)) hguarded hstate

theorem job_local {program : Act β} (huses : program.Uses (Local (Fits allowed hold)))
    (henduring : Enduring hold) (hstate : hold state) :
    JobSafe allowed strict role thread program (fun _ _ ↦ True) state :=
  (job_uses (huses.mono Local.writes) henduring.guarded hstate).mono (fun _ _ _ _ ↦ trivial)
    fun _ _ _ _ ↦ trivial

/-! ### Appends and queues -/

/-- A record was appended, and nothing else. -/
structure Adds (record : Record) (before after : World × Log) : Prop where
  stored : Stored before.1 after.1
  log : ∃ performed, after.2 = performed :: before.2
  mem : record ∈ after.1.store.records
  only : ∀ other ∈ after.1.store.records, other ∈ before.1.store.records ∨ record = other

theorem adds_of_append {created : Bool} {performed : Performed interface} {world : World}
    (hsynced : before.1.Synced) (happend : before.1.append record = (.ok created, world)) :
    Adds record before (world, performed :: before.2) := by
  rcases World.append_ok hsynced happend with ⟨hmem, rfl⟩ | ⟨-, -, -, rfl⟩
  · exact ⟨Stored.refl _, ⟨_, rfl⟩, hmem, fun _ hother ↦ .inl hother⟩
  · exact ⟨fun _ hold ↦ List.mem_append_left _ hold, ⟨_, rfl⟩,
      List.mem_append_right _ List.mem_cons_self, fun _ hother ↦ mem_append_record.mp hother⟩

/-- The append of a licensed record, then the rest of the program. -/
theorem job_append {next : Bool → Act β} (hstable : Stable role thread hold) (hstate : hold state)
    (hlicensed : ∀ before, Tracked allowed before → hold before →
      Licensed allowed role thread before record)
    (hfinal : ∀ before, Tracked allowed before → hold before →
      Undisturbed thread before.2 (.append record) → ∀ attempt, record = .attemptReceipt attempt →
        Unselected before.1 attempt.campaignId attempt.taskId)
    (h : ∀ created before after, hold before → Adds record before after → Tracked allowed after →
      JobSafe allowed strict role thread (next created) post after) :
    JobSafe allowed strict role thread (append record >>= next) post state := by
  refine job_await ?_ ?_ ?_
  · exact fun before hrely hbefore ↦
      hlicensed before hbefore (hstable state before hrely hstate)
  · intro before hrely hbefore hundisturbed attempt hattempt
    exact hfinal before hbefore (hstable state before hrely hstate) hundisturbed attempt
      (Op.append.inj hattempt)
  · rintro before hrely hbefore choice answer ⟨world, log⟩ hperform hafter
    obtain ⟨hworld, rfl⟩ := Machine.traced_perform.mp hperform
    have happend : before.1.append record = (answer, world) := Option.some.inj hworld
    cases answer with
    | ok created =>
      exact h created before _ (hstable state before hrely hstate)
        (adds_of_append hbefore.history.synced happend) hafter
    | error error => exact job_throw

/-- A record that was appended or adopted is stored. -/
theorem job_appendAdopting {τ : Type} {wrap : τ → Record} {unwrap : Record → Option τ} {value : τ}
    {equivalent : τ → Bool}
    (hunwrap : ∀ stored found, unwrap stored = some found → stored = wrap found)
    (hstable : Stable role thread hold) (hstate : hold state)
    (hlicensed : ∀ before, Tracked allowed before → hold before →
      Licensed allowed role thread before (wrap value))
    (hattempt : ∀ attempt, wrap value ≠ .attemptReceipt attempt) :
    JobSafe allowed strict role thread (appendAdopting wrap unwrap value equivalent)
      (fun result after ↦ wrap result.2 ∈ after.1.store.records ∧
        (result.2 = value ∨ equivalent result.2 = true)) state := by
  refine job_await ?_ ?_ ?_
  · exact fun before hrely hbefore ↦
      hlicensed before hbefore (hstable state before hrely hstate)
  · exact fun _ _ _ _ attempt hop ↦ absurd (Op.append.inj hop) (hattempt attempt)
  rintro before hrely hbefore choice answer ⟨world, log⟩ hperform hafter
  obtain ⟨hworld, rfl⟩ := Machine.traced_perform.mp hperform
  have happend : before.1.append (wrap value) = (answer, world) := Option.some.inj hworld
  cases answer with
  | ok created =>
    have hadds : Adds (wrap value) before
        (world, ⟨thread, .append (wrap value), .ok created⟩ :: before.2) :=
      adds_of_append hbefore.history.synced happend
    exact job_ret (enduring_mem _).stable hadds.mem fun _ _ hmem ↦ ⟨hmem, .inl rfl⟩
  | error error =>
    cases error with
    | immutableConflict key =>
      refine job_await (fun _ _ _ ↦ trivial) (fun _ _ _ _ _ hop ↦ by cases hop) ?_
      rintro middle - hmiddle choice' existing ⟨world', log'⟩ hread hlast
      obtain ⟨hworld', rfl⟩ := Machine.traced_perform.mp hread
      cases hworld'
      dsimp only [Program.bind]
      split
      · exact job_throw
      next recorded hrecorded =>
      obtain ⟨stored, hstored, hvalue⟩ := Option.bind_eq_some_iff.mp hrecorded
      obtain ⟨hmem, -⟩ := lookup_mem hstored
      rw [hunwrap stored recorded hvalue] at hmem
      split
      next hequivalent =>
        refine job_bind hlast (job_calm (uses_syncProjection.mono Local.writes)
          (enduring_mem (wrap recorded)).guarded hmem) fun _ final _ hfinal ↦ ?_
        exact job_ret (enduring_mem _).stable hfinal fun _ _ hmem ↦ ⟨hmem, .inr hequivalent⟩
      next => exact job_throw
    | _ => exact job_throw

/-- A method in a queue. -/
theorem job_withQueue {queue : Queue} {method : Act β} (hstable : Stable role thread hold)
    (hstate : hold state) (hpost : ∀ value, Guarded role thread [] (post value))
    (h : ∀ before after, hold before → Tracked allowed after → OwnStep thread [] before after →
      (queue, thread) ∈ after.1.held → JobSafe allowed strict role thread method post after) :
    JobSafe allowed strict role thread (withQueue queue method) post state := by
  refine job_await (fun _ _ _ ↦ trivial) (fun _ _ _ _ _ hop ↦ by cases hop) ?_
  intro before hrely hbefore choice answer after hperform hafter
  have hstep : OwnStep thread [] before after :=
    OwnStep.of_writes (.acquire queue) hbefore.history.synced trivial hperform
  have hheld : (queue, thread) ∈ after.1.held := by
    obtain ⟨hworld, -⟩ := Machine.traced_perform.mp hperform
    have hworld : World.perform thread (.acquire queue) choice before.1 = some (answer, after.1) :=
      hworld
    simp only [World.perform] at hworld
    split at hworld
    · cases hworld
    · obtain ⟨-, hsame⟩ := Prod.mk.inj (Option.some.inj hworld)
      rw [← hsame]
      exact List.mem_cons_self
  have hmethod := h before after (hstable state before hrely hstate) hafter hstep hheld
  refine safe_bind (safe_attempt (hmethod.mono ?_ ?_)) hafter
  · intro value last hlast hvalue
    refine job_await (fun _ _ _ ↦ trivial) (fun _ _ _ _ _ hop ↦ by cases hop) ?_
    intro middle hmiddle hinv choice' answer' final hrelease hfinal
    have hstep' : OwnStep thread [] middle final :=
      OwnStep.of_writes (.release queue) hinv.history.synced List.not_mem_nil hrelease
    refine job_ret (hpost value).stable ?_ fun _ _ hlast ↦ hlast
    exact (hpost value).step middle final hstep' ((hpost value).stable last middle hmiddle hvalue)
  · intro error last _ _
    exact job_await (fun _ _ _ ↦ trivial) (fun _ _ _ _ _ hop ↦ by cases hop)
      fun _ _ _ _ _ _ _ _ ↦ job_throw

end

end HarborHF.Control
