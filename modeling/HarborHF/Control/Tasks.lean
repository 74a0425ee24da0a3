import HarborHF.Control.History

/-!
# Tasks, attempts and terminal selections

The rows of tasks and attempts are those of the stored records (`Roster`): every stored attempt has
its row and belongs to a locked task, every stored terminal selection is that of a stored attempt of
its task, and a task row shows the selection of its task and is open as long as there is none.

The roster is kept by every append whose attempts and selections are accepted
(`Roster.afterAppend`) and read back by every restart (`roster_of_restart`). Records of which no two
select for the same task are never refused for a task that is terminal, in whatever order they are
read back (`Roster.rebuild_ne_terminal`).
-/

set_option autoImplicit false

namespace HarborHF.Control

open Async Program Relational Projection

/-- A selection is that of an attempt. -/
structure Selects (selection : TerminalSelection) (attempt : AttemptReceipt) : Prop where
  campaign : attempt.campaignId = selection.campaignId
  task : attempt.taskId = selection.taskId
  identity : attempt.attemptId = selection.attemptId
  outcome : attempt.outcome = selection.outcome

/-- Two selections are for the same task. -/
def SameTask (first second : TerminalSelection) : Prop :=
  first.campaignId = second.campaignId ∧ first.taskId = second.taskId

/-- A selection closes the task of a row. -/
def Closes (selection : TerminalSelection) (row : TaskRow) : Prop :=
  selection.campaignId = row.campaignId ∧ selection.taskId = row.taskId

/-- The rows of tasks and attempts are those of the records. -/
structure Roster (records : List Record) (tasks : List TaskRow) (attempts : List AttemptReceipt) :
    Prop where
  keyedTasks : Keyed taskKey tasks
  keyedAttempts : Keyed AttemptReceipt.attemptId attempts
  mem_attempts : ∀ attempt, attempt ∈ attempts ↔ .attemptReceipt attempt ∈ records
  attempted : ∀ attempt, .attemptReceipt attempt ∈ records →
    ∃ row ∈ tasks, taskKey row = (attempt.campaignId, attempt.taskId)
  selected : ∀ selection, .terminalSelection selection ∈ records →
    ∃ attempt, .attemptReceipt attempt ∈ records ∧ Selects selection attempt
  once : ∀ first second, .terminalSelection first ∈ records → .terminalSelection second ∈ records →
    SameTask first second → first = second
  closed : ∀ row ∈ tasks, ∀ selection, .terminalSelection selection ∈ records →
    Closes selection row → row.terminalOutcome = some selection.outcome ∧
      row.selectedAttemptId = some selection.attemptId
  untouched : ∀ row ∈ tasks, (∀ selection, .terminalSelection selection ∈ records →
    ¬ Closes selection row) → row.terminalOutcome = none ∧ row.selectedAttemptId = none

theorem roster_nil : Roster [] [] [] where
  keyedTasks := List.nodup_nil
  keyedAttempts := List.nodup_nil
  mem_attempts := by simp
  attempted := by simp
  selected := by simp
  once := by simp
  closed := by simp
  untouched := by simp

section

variable {records : List Record} {tasks : List TaskRow} {attempts : List AttemptReceipt}

theorem Roster.congr {records' : List Record} (h : Roster records tasks attempts)
    (hmem : ∀ record, record ∈ records ↔ record ∈ records') : Roster records' tasks attempts := by
  obtain ⟨hkeyed, hkeyed', hattempts, hattempted, hselected, honce, hclosed, huntouched⟩ := h
  simp only [hmem] at hattempts hattempted hselected honce hclosed huntouched
  exact ⟨hkeyed, hkeyed', hattempts, hattempted, hselected, honce, hclosed, huntouched⟩

/-- A record that is neither an attempt nor a selection leaves the roster. -/
theorem Roster.other {record : Record} (h : Roster records tasks attempts)
    (hattempt : ∀ attempt, record ≠ .attemptReceipt attempt)
    (hselection : ∀ selection, record ≠ .terminalSelection selection) :
    Roster (records ++ [record]) tasks attempts := by
  have hattempts : ∀ attempt, .attemptReceipt attempt ∈ records ++ [record] ↔
      .attemptReceipt attempt ∈ records := by
    intro attempt
    simp [Ne.symm (hattempt attempt)]
  have hselections : ∀ selection, .terminalSelection selection ∈ records ++ [record] ↔
      .terminalSelection selection ∈ records := by
    intro selection
    simp [Ne.symm (hselection selection)]
  constructor
  · exact h.keyedTasks
  · exact h.keyedAttempts
  · exact fun attempt ↦ (h.mem_attempts attempt).trans (hattempts attempt).symm
  · exact fun attempt hattempt ↦ h.attempted attempt ((hattempts attempt).mp hattempt)
  · intro selection hselection
    obtain ⟨attempt, hattempt, hselects⟩ := h.selected selection ((hselections selection).mp hselection)
    exact ⟨attempt, (hattempts attempt).mpr hattempt, hselects⟩
  · exact fun first second hfirst hsecond ↦
      h.once first second ((hselections first).mp hfirst) ((hselections second).mp hsecond)
  · exact fun row hrow selection hselection ↦
      h.closed row hrow selection ((hselections selection).mp hselection)
  · exact fun row hrow hnone ↦ h.untouched row hrow fun selection hselection ↦
      hnone selection ((hselections selection).mpr hselection)

/-- New tasks are open: no selection is stored for a task without a row. -/
theorem Roster.insert {added : List TaskRow} (h : Roster records tasks attempts)
    (hkeyed : Keyed taskKey (tasks ++ added))
    (hopen : ∀ row ∈ added, row.terminalOutcome = none ∧ row.selectedAttemptId = none) :
    Roster records (tasks ++ added) attempts := by
  have hnew : ∀ row ∈ added, ∀ selection, .terminalSelection selection ∈ records →
      ¬ Closes selection row := by
    intro row hrow selection hselection hcloses
    obtain ⟨attempt, hattempt, hselects⟩ := h.selected selection hselection
    obtain ⟨old, hold, hkey⟩ := h.attempted attempt hattempt
    have hsame : taskKey old = taskKey row := by
      rw [hkey, hselects.campaign, hselects.task, hcloses.1, hcloses.2, taskKey]
    unfold Keyed at hkeyed
    rw [List.map_append, List.nodup_append] at hkeyed
    exact hkeyed.2.2 _ (List.mem_map_of_mem hold) _ (List.mem_map_of_mem hrow) hsame
  refine ⟨hkeyed, h.keyedAttempts, h.mem_attempts, ?_, h.selected, h.once, ?_, ?_⟩
  · intro attempt hattempt
    obtain ⟨row, hrow, hkey⟩ := h.attempted attempt hattempt
    exact ⟨row, List.mem_append_left _ hrow, hkey⟩
  · intro row hrow selection hselection hcloses
    rcases List.mem_append.mp hrow with hold | hadded
    · exact h.closed row hold selection hselection hcloses
    · exact absurd hcloses (hnew row hadded selection hselection)
  · intro row hrow hnone
    rcases List.mem_append.mp hrow with hold | hadded
    · exact h.untouched row hold hnone
    · exact hopen row hadded

theorem Roster.append_attempt {attempt : AttemptReceipt} (h : Roster records tasks attempts)
    (htask : ∃ row ∈ tasks, taskKey row = (attempt.campaignId, attempt.taskId))
    (hfree : Free AttemptReceipt.attemptId attempt.attemptId attempts) :
    Roster (records ++ [.attemptReceipt attempt]) tasks (attempts ++ [attempt]) := by
  have hmem : ∀ other, .attemptReceipt other ∈ records ++ [.attemptReceipt attempt] ↔
      .attemptReceipt other ∈ records ∨ other = attempt := by
    intro other
    simp
  have hselections : ∀ selection, .terminalSelection selection ∈
      records ++ [.attemptReceipt attempt] ↔ .terminalSelection selection ∈ records := by
    intro selection
    simp
  constructor
  · exact h.keyedTasks
  · exact h.keyedAttempts.insertRow (insertRow_eq_some.mpr ⟨hfree, rfl⟩)
  · intro other
    rw [hmem, ← h.mem_attempts, List.mem_append, List.mem_singleton]
  · intro other hother
    rcases (hmem other).mp hother with hold | rfl
    · exact h.attempted other hold
    · exact htask
  · intro selection hselection
    obtain ⟨other, hother, hselects⟩ := h.selected selection ((hselections selection).mp hselection)
    exact ⟨other, (hmem other).mpr (.inl hother), hselects⟩
  · exact fun first second hfirst hsecond ↦
      h.once first second ((hselections first).mp hfirst) ((hselections second).mp hsecond)
  · exact fun row hrow selection hselection ↦
      h.closed row hrow selection ((hselections selection).mp hselection)
  · exact fun row hrow hnone ↦ h.untouched row hrow fun selection hselection ↦
      hnone selection ((hselections selection).mpr hselection)

@[simp] theorem closeTask_key (selection : TerminalSelection) (row : TaskRow) :
    taskKey (closeTask selection row) = taskKey row := by
  unfold closeTask
  split_ifs <;> rfl

theorem closeTask_of_closes {selection : TerminalSelection} {row : TaskRow}
    (hcloses : Closes selection row) (hopen : row.terminalOutcome = none) :
    (closeTask selection row).terminalOutcome = some selection.outcome ∧
      (closeTask selection row).selectedAttemptId = some selection.attemptId := by
  have hrow : openTask selection row = true := by
    simp [openTask, hopen, hcloses.1, hcloses.2]
  unfold closeTask
  rw [if_pos hrow]
  exact ⟨rfl, rfl⟩

theorem closeTask_of_not_closes {selection : TerminalSelection} {row : TaskRow}
    (hcloses : ¬ Closes selection row) : closeTask selection row = row := by
  unfold closeTask
  refine if_neg fun hopen ↦ hcloses ?_
  simp only [openTask, Bool.and_eq_true, decide_eq_true_eq] at hopen
  exact ⟨hopen.1.1.symm, hopen.1.2.symm⟩

theorem Roster.append_selection {selection : TerminalSelection} {attempt : AttemptReceipt}
    (h : Roster records tasks attempts)
    (hfree : ∀ other, .terminalSelection other ∈ records → ¬ SameTask other selection)
    (hattempt : .attemptReceipt attempt ∈ records) (hselects : Selects selection attempt) :
    Roster (records ++ [.terminalSelection selection]) (tasks.map (closeTask selection))
      attempts := by
  have hmem : ∀ other, .terminalSelection other ∈ records ++ [.terminalSelection selection] ↔
      .terminalSelection other ∈ records ∨ other = selection := by
    intro other
    simp
  have hattempts : ∀ other, .attemptReceipt other ∈ records ++ [.terminalSelection selection] ↔
      .attemptReceipt other ∈ records := by
    intro other
    simp
  have hnone : ∀ row, Closes selection row → ∀ other, .terminalSelection other ∈ records →
      ¬ Closes other row := by
    intro row hcloses other hother hother'
    exact hfree other hother
      ⟨hother'.1.trans hcloses.1.symm, hother'.2.trans hcloses.2.symm⟩
  have hkeys : taskKey ∘ closeTask selection = taskKey := funext fun row ↦ by simp
  constructor
  · have hkeyed := h.keyedTasks
    unfold Keyed at hkeyed ⊢
    rwa [List.map_map, hkeys]
  · exact h.keyedAttempts
  · exact fun other ↦ (h.mem_attempts other).trans (hattempts other).symm
  · intro other hother
    obtain ⟨row, hrow, hkey⟩ := h.attempted other ((hattempts other).mp hother)
    exact ⟨_, List.mem_map_of_mem hrow, by rw [closeTask_key, hkey]⟩
  · intro other hother
    rcases (hmem other).mp hother with hold | rfl
    · obtain ⟨found, hfound, hselects'⟩ := h.selected other hold
      exact ⟨found, (hattempts found).mpr hfound, hselects'⟩
    · exact ⟨attempt, (hattempts attempt).mpr hattempt, hselects⟩
  · intro first second hfirst hsecond hsame
    rcases (hmem first).mp hfirst with hold | rfl
    · rcases (hmem second).mp hsecond with hold' | rfl
      · exact h.once first second hold hold' hsame
      · exact absurd hsame (hfree first hold)
    · rcases (hmem second).mp hsecond with hold' | rfl
      · exact absurd ⟨hsame.1.symm, hsame.2.symm⟩ (hfree second hold')
      · rfl
  · intro row hrow other hother hcloses
    obtain ⟨old, hold, rfl⟩ := List.mem_map.mp hrow
    have hkey := closeTask_key selection old
    simp only [taskKey, Prod.mk.injEq] at hkey
    unfold Closes at hcloses
    rw [hkey.1, hkey.2] at hcloses
    rcases (hmem other).mp hother with hstored | rfl
    · have hfree : ¬ Closes selection old := fun hown ↦ hnone old hown other hstored hcloses
      rw [closeTask_of_not_closes hfree]
      exact h.closed old hold other hstored hcloses
    · exact closeTask_of_closes hcloses (h.untouched old hold (hnone old hcloses)).1
  · intro row hrow hopen
    obtain ⟨old, hold, rfl⟩ := List.mem_map.mp hrow
    have hkey := closeTask_key selection old
    simp only [taskKey, Prod.mk.injEq] at hkey
    unfold Closes at hopen
    rw [hkey.1, hkey.2] at hopen
    have hfree : ¬ Closes selection old := hopen selection ((hmem selection).mpr (.inr rfl))
    rw [closeTask_of_not_closes hfree]
    exact h.untouched old hold fun other hother ↦ hopen other ((hmem other).mpr (.inl hother))

end

/-! ### The tables -/

/-- The roster of a projection's tables. -/
abbrev RosterOf (records : List Record) (P : Projection) : Prop := Roster records P.tasks P.attempts

section

variable {records : List Record} {P : Projection} {record : Record}

/-- The rows that a lock adds, up to the first task that is there already. -/
theorem insertTasks_rows (campaignId : String) (tasks : List TaskLock) (P : Projection)
    (hkeyed : Keyed taskKey P.tasks) :
    ∃ added, (insertTasks campaignId tasks P).1 = { P with tasks := P.tasks ++ added } ∧
      Keyed taskKey (P.tasks ++ added) ∧
        ∀ row ∈ added, row.terminalOutcome = none ∧ row.selectedAttemptId = none := by
  induction tasks generalizing P with
  | nil => exact ⟨[], by simp [insertTasks], by simpa using hkeyed, by simp⟩
  | cons task rest ih =>
    simp only [insertTasks]
    cases hinsert : insertRow taskKey (lockedTask campaignId task) P.tasks with
    | none => exact ⟨[], by simp, by simpa using hkeyed, by simp⟩
    | some rows =>
      have hrows := hkeyed.insertRow hinsert
      obtain ⟨-, rfl⟩ := insertRow_eq_some.mp hinsert
      obtain ⟨added, hadded, hkeyed', hopen⟩ :=
        ih { P with tasks := P.tasks ++ [lockedTask campaignId task] } hrows
      refine ⟨lockedTask campaignId task :: added, by simpa using hadded, by simpa using hkeyed', ?_⟩
      intro row hrow
      rcases List.mem_cons.mp hrow with rfl | hrest
      · exact ⟨rfl, rfl⟩
      · exact hopen row hrest

variable [Digests]

theorem Roster.apply_lock {lock : CampaignLock} (h : RosterOf records P)
    (hfree : Free Record.key (Record.campaignLock lock).key P.objects) :
    RosterOf (records ++ [.campaignLock lock]) (P.apply (.campaignLock lock)).1 := by
  obtain ⟨added, hadded, hkeyed, hopen⟩ := insertTasks_rows lock.campaignId lock.tasks
    { P with objects := P.objects ++ [.campaignLock lock], campaigns := lockCampaign lock P.campaigns }
      h.keyedTasks
  have happly : (P.apply (.campaignLock lock)).1 =
      (insertTasks lock.campaignId lock.tasks { P with
        objects := P.objects ++ [.campaignLock lock]
        campaigns := lockCampaign lock P.campaigns }).1 := by
    unfold apply
    rw [insertRow_eq_some.mpr ⟨hfree, rfl⟩]
    rfl
  unfold RosterOf
  rw [happly, hadded]
  exact (h.other (fun _ ↦ by simp) fun _ ↦ by simp).insert hkeyed hopen

/-- An accepted record keeps the roster. -/
theorem Roster.extend (h : RosterOf records P) (haccepts : P.Accepts record) :
    RosterOf (records ++ [record]) (P.extend record) := by
  have hother : (∀ attempt, record ≠ .attemptReceipt attempt) →
      (∀ selection, record ≠ .terminalSelection selection) →
        (P.extend record).tasks = P.tasks → (P.extend record).attempts = P.attempts →
          RosterOf (records ++ [record]) (P.extend record) := by
    intro hattempt hselection htasks hattempts
    unfold RosterOf
    rw [htasks, hattempts]
    exact h.other hattempt hselection
  cases record with
  | campaignLock lock =>
    have hlock := h.apply_lock haccepts.1
    rw [World.apply_of_accepts haccepts] at hlock
    exact hlock
  | attemptReceipt attempt =>
    obtain ⟨-, htask, -, hfree⟩ := haccepts
    obtain ⟨row, hrow⟩ := Option.isSome_iff_exists.mp htask
    exact h.append_attempt ⟨row, lookup_mem hrow⟩ hfree
  | terminalSelection selection =>
    obtain ⟨-, ⟨attempt, hlookup, hcampaign, htask, houtcome⟩, row, hrow, hopen⟩ := haccepts
    obtain ⟨hmem, hid⟩ := lookup_mem hlookup
    have hcloses : Closes selection row ∧ row.terminalOutcome = none := by
      simp only [openTask, Bool.and_eq_true, decide_eq_true_eq, Option.isNone_iff_eq_none] at hopen
      exact ⟨⟨hopen.1.1.symm, hopen.1.2.symm⟩, hopen.2⟩
    have hfree : ∀ other, .terminalSelection other ∈ records → ¬ SameTask other selection := by
      intro other hother hsame
      have hclosed := h.closed row hrow other hother
        ⟨hsame.1.trans hcloses.1.1, hsame.2.trans hcloses.1.2⟩
      rw [hcloses.2] at hclosed
      cases hclosed.1
    have hroster := h.append_selection hfree ((h.mem_attempts attempt).mp hmem)
      ⟨hcampaign, htask, hid, houtcome⟩
    unfold RosterOf Projection.extend
    simpa using hroster
  | _ =>
    exact hother (fun _ heq ↦ by cases heq) (fun _ heq ↦ by cases heq) rfl (List.append_nil _)

/-- A fresh record keeps the roster, unless it is an attempt or a selection that is refused. -/
theorem Roster.afterAppend {world : World} (h : RosterOf world.store.records world.projection)
    (hsynced : world.Synced) (hfresh : Free Record.key record.key world.store.records)
    (haccepts : (∃ attempt, record = .attemptReceipt attempt) ∨
      (∃ selection, record = .terminalSelection selection) → world.projection.Accepts record) :
    RosterOf (world.afterAppend record).store.records (world.afterAppend record).projection := by
  have hfree := hsynced.free_objects hfresh
  rcases World.apply_cases hfree with ⟨haccepted, happly⟩ | ⟨hrefused, added, hadded, happly⟩
  · rw [World.afterAppend_projection haccepted]
    exact h.extend haccepted
  · by_cases hlock : isLock record = true
    · cases record with
      | campaignLock lock => exact h.apply_lock hfree
      | _ => cases hlock
    · have htables : (world.afterAppend record).projection.tasks = world.projection.tasks ∧
          (world.afterAppend record).projection.attempts = world.projection.attempts := by
        rw [hadded (by simpa using hlock)] at happly
        simp only [World.afterAppend, happly, List.append_nil, and_self]
      unfold RosterOf
      rw [htables.1, htables.2]
      refine h.other ?_ ?_
      · rintro attempt rfl
        exact hrefused (haccepts (.inl ⟨attempt, rfl⟩))
      · rintro selection rfl
        exact hrefused (haccepts (.inr ⟨selection, rfl⟩))

theorem roster_extendAll {added : List Record} (h : RosterOf P.objects P)
    (haccepts : AcceptsAll added P) : RosterOf (P.objects ++ added) (P.extendAll added) := by
  induction added generalizing P with
  | nil => simpa using h
  | cons record rest ih =>
    have hstep : RosterOf (P.extend record).objects (P.extend record) := h.extend haccepts.1
    have hrest := ih hstep haccepts.2
    have hobjects : (P.extend record).objects ++ rest = P.objects ++ record :: rest := by
      simp [Projection.extend]
    rwa [hobjects] at hrest

theorem roster_of_restart {world world' : World} (h : world.restart = some world') :
    RosterOf world'.store.records world'.projection := by
  obtain ⟨-, haccepts, -, rfl⟩ := World.restart_eq_some.mp h
  have hroster := roster_extendAll roster_nil haccepts
  exact hroster.congr fun record ↦ List.mem_insertionSort _

/-! ### Terminal tasks -/

/-- Only a selection is refused for a terminal task, and only when its attempt is there. -/
theorem applyKind_terminal {taskId : String}
    (h : (P.applyKind record).2 = some (.taskAlreadyTerminal taskId)) :
    ∃ selection, record = .terminalSelection selection ∧
      (∃ attempt ∈ P.attempts, Selects selection attempt) ∧
        ∀ row ∈ P.tasks, openTask selection row = false := by
  have hinto : ∀ {α κ : Type} [DecidableEq κ] {Q : Projection} {name : String} {key : α → κ} {row : α}
      {rows : List α} {put : List α → Projection},
      (Q.insertInto name key row rows put).2 ≠ some (.taskAlreadyTerminal taskId) := by
    intro α κ _ Q name key row rows put heq
    unfold insertInto at heq
    split at heq <;> cases heq
  cases record with
  | campaignRequest request => cases h
  | campaignLock lock =>
    have htasks : ∀ tasks Q, (insertTasks lock.campaignId tasks Q).2 ≠
        some (.taskAlreadyTerminal taskId) := by
      intro tasks
      induction tasks with
      | nil => exact fun Q heq ↦ by cases heq
      | cons task rest ih =>
        intro Q heq
        simp only [insertTasks] at heq
        split at heq
        · exact ih _ heq
        · cases heq
    exact absurd h (htasks _ _)
  | actionDispatch dispatch =>
    simp only [applyKind, applyActionDispatch] at h
    split at h
    · cases h
    · split_ifs at h
      · cases h
      · cases h
      · exact absurd h hinto
  | actionReceipt receipt =>
    simp only [applyKind, applyActionReceipt] at h
    split at h
    · cases h
    · split_ifs at h
      cases h
  | actionAdvanced advanced =>
    simp only [applyKind, applyActionAdvanced] at h
    split at h
    · cases h
    · split_ifs at h
      · cases h
      · cases h
      · exact absurd h hinto
  | attemptReceipt attempt =>
    simp only [applyKind, applyAttempt] at h
    split at h
    · cases h
    · split_ifs at h
      · cases h
      · exact absurd h hinto
  | terminalSelection selection =>
    simp only [applyKind, applyTerminal] at h
    split at h
    · cases h
    next attempt hlookup =>
    obtain ⟨hmem, hid⟩ := lookup_mem hlookup
    split_ifs at h with hmatch hopen
    · cases h
    · simp only [not_or, not_not] at hmatch
      refine ⟨selection, rfl, ⟨attempt, hmem, hmatch.1, hmatch.2.1, hid, hmatch.2.2⟩, ?_⟩
      exact fun row hrow ↦ by simpa using List.any_eq_false.mp (by simpa using hopen) row hrow
  | preparedTrial | preparedJob => cases h
  | _ => exact absurd h hinto

/-- A record of a roster's own records, or a further one, is never refused for a terminal task when
no two of them select for the same one. -/
theorem Roster.apply_ne_terminal {entries : List Record} (h : RosterOf P.objects P)
    (honce : ∀ first second, .terminalSelection first ∈ P.objects ++ entries →
      .terminalSelection second ∈ P.objects ++ entries → SameTask first second → first = second)
    (hentry : record ∈ entries) (taskId : String) :
    (P.apply record).2 ≠ some (.taskAlreadyTerminal taskId) := by
  intro happly
  unfold apply at happly
  cases hinsert : insertRow Record.key record P.objects with
  | none =>
    rw [hinsert] at happly
    cases happly
  | some objects =>
    obtain ⟨hfree, rfl⟩ := insertRow_eq_some.mp hinsert
    rw [hinsert] at happly
    obtain ⟨selection, rfl, ⟨attempt, hattempt, hselects⟩, hclosed⟩ := applyKind_terminal happly
    obtain ⟨row, hrow, hkey⟩ := h.attempted attempt ((h.mem_attempts attempt).mp hattempt)
    simp only [taskKey, Prod.mk.injEq] at hkey
    -- the task has its row, and a selection that closed it would be this one
    have hopen : row.terminalOutcome = none := by
      refine (h.untouched row hrow fun other hother hcloses ↦ ?_).1
      have hsame : SameTask other selection :=
        ⟨hcloses.1.trans (hkey.1.trans hselects.campaign), hcloses.2.trans (hkey.2.trans hselects.task)⟩
      have heq := honce other selection (List.mem_append_left _ hother)
        (List.mem_append_right _ hentry) hsame
      exact hfree _ hother (by rw [heq])
    have hfalse := hclosed row hrow
    simp [openTask, hopen, hkey, hselects.campaign, hselects.task] at hfalse

theorem applyEntries_ne_terminal {store : ObjectStore} {entries : List Record}
    (h : RosterOf P.objects P)
    (honce : ∀ first second, .terminalSelection first ∈ P.objects ++ entries →
      .terminalSelection second ∈ P.objects ++ entries → SameTask first second → first = second)
    (taskId : String) : (applyEntries store entries P).2 ≠ some (.taskAlreadyTerminal taskId) := by
  induction entries generalizing P with
  | nil => exact fun heq ↦ by cases heq
  | cons record rest ih =>
    intro herror
    simp only [applyEntries] at herror
    split at herror
    next error hcheck =>
      cases herror
      unfold checkEntry at hcheck
      split_ifs at hcheck
      · cases hcheck
      · cases hevidence : verifyAttemptEvidence store record with
        | ok value =>
          rw [hevidence] at hcheck
          cases hcheck
        | error evidence =>
          rw [hevidence] at hcheck
          cases hcheck
    next hcheck =>
    split at herror
    next applied error happly =>
      refine h.apply_ne_terminal honce (List.mem_cons_self) taskId ?_
      rw [happly]
      exact herror
    next applied happly =>
      obtain ⟨haccepts, rfl⟩ := apply_eq_ok.mp happly
      have hobjects : (P.extend record).objects ++ rest = P.objects ++ record :: rest := by
        simp [Projection.extend]
      exact ih (h.extend haccepts) (by rw [hobjects]; exact honce) herror

omit [Digests] in
theorem verifyBudgets_ne_terminal (P : Projection) (taskId : String) :
    P.verifyBudgets ≠ .error (.taskAlreadyTerminal taskId) := by
  intro h
  have hreplay : ∀ states event error, replayEvent states event = .error error →
      error ≠ .taskAlreadyTerminal taskId := by
    rintro states event error herror rfl
    unfold replayEvent at herror
    split at herror
    · cases herror
    · split_ifs at herror
      cases herror
  have hobserve : ∀ states campaignId error, P.observeAttempts states campaignId = .error error →
      error ≠ .taskAlreadyTerminal taskId := by
    rintro states campaignId error herror rfl
    unfold observeAttempts at herror
    split at herror <;> cases herror
  obtain hstates | ⟨_, hother⟩ := verifyBudgets_eq_error h
  · unfold budgetStates at hstates
    cases hledger : P.ledger.foldlM replayEvent P.initialStates with
    | error error =>
      rw [hledger] at hstates
      cases hstates
      exact foldlM_error (fun error ↦ error ≠ .taskAlreadyTerminal taskId) hreplay hledger rfl
    | ok states =>
      rw [hledger] at hstates
      change P.attemptCampaigns.foldlM P.observeAttempts states = _ at hstates
      exact foldlM_error (fun error ↦ error ≠ .taskAlreadyTerminal taskId) hobserve hstates rfl
  · cases hother

omit [Digests] in
/-- The checks of the tables as a whole say nothing of terminal tasks. -/
theorem verifyInvariants_ne_terminal (P : Projection) (taskId : String) :
    P.verifyInvariants ≠ .error (.taskAlreadyTerminal taskId) := by
  intro h
  unfold verifyInvariants at h
  cases hpromotions : P.verifyPromotions with
  | error error =>
    rw [hpromotions] at h
    cases h
    obtain ⟨promotion, -, herror⟩ := forM_error hpromotions
    unfold verifyPromotion at herror
    split at herror
    · cases herror
    · split_ifs at herror
      cases herror
  | ok value =>
    rw [hpromotions] at h
    cases hbudgets : P.verifyBudgets with
    | error error =>
      rw [hbudgets] at h
      cases h
      exact verifyBudgets_ne_terminal P taskId hbudgets
    | ok value =>
      rw [hbudgets] at h
      have hendpoints : P.verifyEndpoints = .error (.taskAlreadyTerminal taskId) := h
      unfold verifyEndpoints at hendpoints
      split at hendpoints <;> cases hendpoints

/-- Stored records are never refused for a terminal task when they are read back. -/
theorem Roster.rebuild_ne_terminal {tasks : List TaskRow} {attempts : List AttemptReceipt}
    {store : ObjectStore} {entries : List Record} (h : Roster records tasks attempts)
    (hentries : ∀ record, record ∈ entries ↔ record ∈ records) (taskId : String) :
    (rebuildFrom store entries).2 ≠ some (.taskAlreadyTerminal taskId) := by
  have hmem : ∀ record, record ∈ entries.insertionSort PathOrder ↔ record ∈ records :=
    fun record ↦ (List.mem_insertionSort _).trans (hentries record)
  have happly : (applyEntries store (entries.insertionSort PathOrder) {}).2 ≠
      some (.taskAlreadyTerminal taskId) := by
    refine applyEntries_ne_terminal roster_nil (fun first second hfirst hsecond ↦ ?_) taskId
    exact h.once first second ((hmem _).mp (by simpa using hfirst)) ((hmem _).mp (by simpa using hsecond))
  intro herror
  unfold rebuildFrom at herror
  split at herror
  next applied error hentry =>
    rw [hentry] at happly
    exact happly herror
  next applied hentry =>
    split at herror
    next error hverify =>
      cases herror
      exact verifyInvariants_ne_terminal applied taskId hverify
    next => cases herror

end

end HarborHF.Control
