import HarborHF.Control.Ledger

/-!
# What applying a record does

`extend` is the effect of a record on the tables when it is accepted, without its checks, and
`Accepts` is when the checks pass; `apply_eq_ok` says that `apply` is the two together. A record that
is refused leaves the ledger, the attempts and every row of other kinds as they were
(`apply_refused`). Later proofs read the tables through `extend` and do not unfold `apply`.

Most kinds insert one row, so after a list of records their tables are the rows of those records in
order (`extendAll_budgets`, `extendAll_attempts`, …).
-/

set_option autoImplicit false

namespace HarborHF.Control

open Relational

namespace Projection

/-! ### The rows of a record -/

@[simp] def budgetRowOf : Record → Option BudgetRow
  | .budgetEvent record => some (budgetRow record)
  | _ => none

@[simp] def attemptOf : Record → Option AttemptReceipt
  | .attemptReceipt record => some record
  | _ => none

@[simp] def dispatchOf : Record → Option ActionDispatch
  | .actionDispatch record => some record
  | _ => none

@[simp] def advancedOf : Record → Option ActionAdvanced
  | .actionAdvanced record => some record
  | _ => none

@[simp] def endpointOf : Record → Option EndpointRow
  | .endpointResource record => some (endpointRow record)
  | _ => none

@[simp] def publicationOf : Record → Option PublicationReceipt
  | .publicationReceipt record => some record
  | _ => none

@[simp] def promotionOf : Record → Option ProfilePromotion
  | .profilePromotion record => some record
  | _ => none

@[simp] def aclOf : Record → Option OperatorAcl
  | .operatorAcl record => some record
  | _ => none

@[simp] def migrationOf : Record → Option MigrationRecord
  | .migrationRecord record => some record
  | _ => none

theorem mem_filterMap_budgetRowOf {records : List Record} {row : BudgetRow} :
    row ∈ records.filterMap budgetRowOf ↔
      ∃ event, .budgetEvent event ∈ records ∧ budgetRow event = row := by
  rw [List.mem_filterMap]
  constructor
  · rintro ⟨record, hrecord, hrow⟩
    cases record <;> cases hrow
    exact ⟨_, hrecord, rfl⟩
  · rintro ⟨event, hevent, rfl⟩
    exact ⟨_, hevent, rfl⟩

theorem mem_filterMap_kind {α : Type} {kind : α → Record} {row : Record → Option α}
    (hkind : ∀ record value, row record = some value ↔ kind value = record) {records : List Record}
    {value : α} : value ∈ records.filterMap row ↔ kind value ∈ records := by
  rw [List.mem_filterMap]
  constructor
  · rintro ⟨record, hrecord, hrow⟩
    rw [(hkind record value).mp hrow]
    exact hrecord
  · exact fun h ↦ ⟨_, h, (hkind _ value).mpr rfl⟩

theorem attemptOf_eq_some (record : Record) (attempt : AttemptReceipt) :
    attemptOf record = some attempt ↔ .attemptReceipt attempt = record := by
  cases record <;> simp [eq_comm]

theorem mem_filterMap_attemptOf {records : List Record} {attempt : AttemptReceipt} :
    attempt ∈ records.filterMap attemptOf ↔ .attemptReceipt attempt ∈ records :=
  mem_filterMap_kind attemptOf_eq_some

/-- The campaign rows after a record. -/
@[simp] def extendCampaigns : Record → Projection → List CampaignRow
  | .campaignRequest request, P => requestCampaign request P.campaigns
  | .campaignLock lock, P => lockCampaign lock P.campaigns
  | _, P => P.campaigns

/-- A task after a terminal selection. -/
def closeTask (record : TerminalSelection) (row : TaskRow) : TaskRow :=
  if openTask record row then
    { row with
      terminalOutcome := some record.outcome
      selectedAttemptId := some record.attemptId }
  else row

/-- The task rows after a record. -/
@[simp] def extendTasks : Record → Projection → List TaskRow
  | .campaignLock lock, P => P.tasks ++ lock.tasks.map (lockedTask lock.campaignId)
  | .terminalSelection selection, P => P.tasks.map (closeTask selection)
  | _, P => P.tasks

/-- An action after a receipt. -/
def completeAction (record : ActionReceipt) (row : ActionRow) : ActionRow :=
  if row.intent.actionId = record.actionId then { row with receipt := some record } else row

/-- The action rows after a record. -/
@[simp] def extendActions : Record → Projection → List ActionRow
  | .actionIntent intent, P => P.actions ++ [⟨intent, none⟩]
  | .actionReceipt receipt, P => P.actions.map (completeAction receipt)
  | _, P => P.actions

section

variable [Digests]

@[simp] def profileOf : Record → Option ProfileRow
  | .profileObject record => some (profileRow record)
  | _ => none

/-- The tables after an accepted record. -/
def extend (record : Record) (P : Projection) : Projection :=
  { objects := P.objects ++ [record]
    campaigns := extendCampaigns record P
    tasks := extendTasks record P
    actions := extendActions record P
    dispatches := P.dispatches ++ (dispatchOf record).toList
    advancements := P.advancements ++ (advancedOf record).toList
    attempts := P.attempts ++ (attemptOf record).toList
    budgets := P.budgets ++ (budgetRowOf record).toList
    endpoints := P.endpoints ++ (endpointOf record).toList
    publications := P.publications ++ (publicationOf record).toList
    profiles := P.profiles ++ (profileOf record).toList
    promotions := P.promotions ++ (promotionOf record).toList
    acls := P.acls ++ (aclOf record).toList
    migrations := P.migrations ++ (migrationOf record).toList
    ready := P.ready }

/-- No row of the table has this key. -/
def Free {α κ : Type} (key : α → κ) (k : κ) (table : List α) : Prop := ∀ row ∈ table, key row ≠ k

/-- The checks of a record's kind pass. -/
def AcceptsKind (P : Projection) : Record → Prop
  | .campaignLock lock =>
    Keyed TaskLock.taskId lock.tasks ∧
      ∀ task ∈ lock.tasks, Free taskKey (lock.campaignId, task.taskId) P.tasks
  | .actionIntent intent => Free actionKey intent.actionId P.actions
  | .actionDispatch dispatch =>
    (∃ row, P.actionRow? dispatch.actionId = some row ∧
      row.intent.campaignId = dispatch.campaignId ∧ row.receipt = none) ∧
      Free ActionDispatch.actionId dispatch.actionId P.dispatches
  | .actionReceipt receipt =>
    ∃ row, P.actionRow? receipt.actionId = some row ∧ row.intent.campaignId = receipt.campaignId
  | .actionAdvanced advanced =>
    (∃ row, P.actionRow? advanced.actionId = some row ∧ row.receipt.isSome = true ∧
      row.intent.campaignId = advanced.campaignId) ∧
      Free ActionAdvanced.actionId advanced.actionId P.advancements
  | .attemptReceipt attempt =>
    (P.taskRow? attempt.campaignId attempt.taskId).isSome = true ∧
      (∀ row ∈ P.attempts, ¬ (row.actionId = attempt.actionId ∧ row.taskId = attempt.taskId)) ∧
        Free AttemptReceipt.attemptId attempt.attemptId P.attempts
  | .terminalSelection selection =>
    (∃ attempt, lookup AttemptReceipt.attemptId selection.attemptId P.attempts = some attempt ∧
      attempt.campaignId = selection.campaignId ∧ attempt.taskId = selection.taskId ∧
        attempt.outcome = selection.outcome) ∧ ∃ row ∈ P.tasks, openTask selection row = true
  | .budgetEvent event => Free BudgetRow.recordId event.recordId P.budgets
  | .endpointResource endpoint => Free EndpointRow.actionId endpoint.actionId P.endpoints
  | .publicationReceipt receipt =>
    Free PublicationReceipt.publicationId receipt.publicationId P.publications
  | .profileObject profile => Free ProfileRow.profileId (profileRow profile).profileId P.profiles
  | .profilePromotion promotion => Free ProfilePromotion.recordId promotion.recordId P.promotions
  | .operatorAcl acl => Free OperatorAcl.recordId acl.recordId P.acls
  | .migrationRecord migration => Free MigrationRecord.recordId migration.recordId P.migrations
  | .campaignRequest _ => True
  | .preparedTrial _ => True
  | .preparedJob _ => True

/-- A record is accepted: its object is new and the checks of its kind pass. -/
def Accepts (P : Projection) (record : Record) : Prop :=
  Free Record.key record.key P.objects ∧ P.AcceptsKind record

end

/-! ### The spec of `apply` -/

variable {P P' : Projection}

theorem insertInto_eq_ok {α κ : Type} [DecidableEq κ] {name : String}
    {key : α → κ} {row : α} {rows : List α} {put : List α → Projection} :
    P.insertInto name key row rows put = (P', none) ↔
      Free key (key row) rows ∧ P' = put (rows ++ [row]) := by
  unfold insertInto
  cases hinsert : insertRow key row rows with
  | none =>
    obtain ⟨other, hother, hkey⟩ := insertRow_eq_none.mp hinsert
    constructor
    · intro h
      cases h
    · rintro ⟨hfree, -⟩
      exact absurd hkey (hfree other hother)
  | some rows' =>
    obtain ⟨hfree, rfl⟩ := insertRow_eq_some.mp hinsert
    constructor
    · intro h
      cases h
      exact ⟨hfree, rfl⟩
    · rintro ⟨-, rfl⟩
      rfl

/-- The tasks of a lock are inserted exactly when they are new and different. -/
theorem insertTasks_eq_ok {campaignId : String} {tasks : List TaskLock} :
    insertTasks campaignId tasks P = (P', none) ↔
      (Keyed TaskLock.taskId tasks ∧
        ∀ task ∈ tasks, Free taskKey (campaignId, task.taskId) P.tasks) ∧
      P' = { P with tasks := P.tasks ++ tasks.map (lockedTask campaignId) } := by
  induction tasks generalizing P with
  | nil =>
    simp only [insertTasks, Prod.mk.injEq, and_true, Keyed, List.map_nil, List.nodup_nil,
      List.not_mem_nil, false_imp_iff, implies_true, List.append_nil, true_and]
    exact eq_comm
  | cons task rest ih =>
    simp only [insertTasks]
    cases hinsert : insertRow taskKey (lockedTask campaignId task) P.tasks with
    | none =>
      obtain ⟨row, hrow, hkey⟩ := insertRow_eq_none.mp hinsert
      constructor
      · intro h
        cases h
      · rintro ⟨⟨-, hfree⟩, -⟩
        exact absurd hkey (hfree task List.mem_cons_self row hrow)
    | some rows =>
      obtain ⟨hfree, rfl⟩ := insertRow_eq_some.mp hinsert
      simp only [ih]
      have hkeyed : Keyed TaskLock.taskId (task :: rest) ↔
          (∀ other ∈ rest, other.taskId ≠ task.taskId) ∧ Keyed TaskLock.taskId rest := by
        unfold Keyed
        rw [List.map_cons, List.nodup_cons]
        simp only [List.mem_map, not_exists, not_and]
      rw [hkeyed]
      have hrows : ∀ other : TaskLock, Free taskKey (campaignId, other.taskId)
          (P.tasks ++ [lockedTask campaignId task]) ↔
            Free taskKey (campaignId, other.taskId) P.tasks ∧ other.taskId ≠ task.taskId := by
        intro other
        unfold Free
        simp only [List.mem_append, List.mem_singleton, or_imp, forall_and, forall_eq]
        refine and_congr_right fun _ ↦ ?_
        simp [taskKey, lockedTask, eq_comm]
      constructor
      · rintro ⟨⟨hrest, hnew⟩, rfl⟩
        refine ⟨⟨⟨?_, hrest⟩, ?_⟩, ?_⟩
        · exact fun other hother ↦ ((hrows other).mp (hnew other hother)).2
        · intro other hother
          rcases List.mem_cons.mp hother with rfl | hother
          · exact hfree
          · exact ((hrows other).mp (hnew other hother)).1
        · simp
      · rintro ⟨⟨⟨hdifferent, hrest⟩, hnew⟩, rfl⟩
        refine ⟨⟨hrest, ?_⟩, by simp⟩
        intro other hother
        exact (hrows other).mpr ⟨hnew other (List.mem_cons_of_mem task hother),
          hdifferent other hother⟩

theorem insertInto_refused {α κ : Type} [DecidableEq κ] {name : String}
    {key : α → κ} {row : α} {rows : List α} {put : List α → Projection} {error : ProjectionError}
    (h : P.insertInto name key row rows put = (P', some error)) : P' = P := by
  unfold insertInto at h
  split at h
  · cases h
  · exact (Prod.mk.inj h).1.symm

/-- A lock whose tasks are not all inserted leaves some of them behind. -/
theorem insertTasks_refused {campaignId : String} {tasks : List TaskLock}
    {error : ProjectionError} (h : insertTasks campaignId tasks P = (P', some error)) :
    ∃ added, P' = { P with tasks := P.tasks ++ added } := by
  induction tasks generalizing P with
  | nil => cases h
  | cons task rest ih =>
    simp only [insertTasks] at h
    cases hinsert : insertRow taskKey (lockedTask campaignId task) P.tasks with
    | none =>
      rw [hinsert] at h
      cases h
      exact ⟨[], by simp⟩
    | some rows =>
      rw [hinsert] at h
      obtain ⟨-, rfl⟩ := insertRow_eq_some.mp hinsert
      obtain ⟨added, rfl⟩ := ih h
      exact ⟨lockedTask campaignId task :: added, by simp⟩

theorem insertTasks_error {campaignId : String} {tasks : List TaskLock}
    {error : ProjectionError} (h : insertTasks campaignId tasks P = (P', some error))
    (name : String) : error ≠ .budgetExceedsCeiling name := by
  induction tasks generalizing P with
  | nil => cases h
  | cons task rest ih =>
    simp only [insertTasks] at h
    split at h
    · exact ih h
    · cases h
      simp

section

variable [Digests] {P P' : Projection} {error : ProjectionError} {record : Record}

theorem applyActionDispatch_eq_ok {record : ActionDispatch} :
    P.applyActionDispatch record = (P', none) ↔
      P.AcceptsKind (.actionDispatch record) ∧
        P' = { P with dispatches := P.dispatches ++ [record] } := by
  simp only [applyActionDispatch, AcceptsKind]
  cases hrow : P.actionRow? record.actionId with
  | none => simp
  | some row =>
    simp only [Option.some.injEq, exists_eq_left']
    split_ifs with hcampaign hreceipt
    · simp [hcampaign]
    · simp [Option.isSome_iff_ne_none.mp hreceipt]
    · have hnone : row.receipt = none := by simpa using hreceipt
      simp [insertInto_eq_ok, not_not.mp hcampaign, hnone]

theorem applyActionReceipt_eq_ok {record : ActionReceipt} :
    P.applyActionReceipt record = (P', none) ↔
      P.AcceptsKind (.actionReceipt record) ∧
        P' = { P with actions := P.actions.map (completeAction record) } := by
  simp only [applyActionReceipt, AcceptsKind]
  cases hrow : P.actionRow? record.actionId with
  | none => simp
  | some row =>
    simp only [Option.some.injEq, exists_eq_left']
    split_ifs with hcampaign
    · simp [hcampaign]
    · simp only [not_not.mp hcampaign, true_and, Prod.mk.injEq, and_true]
      exact eq_comm

theorem applyActionAdvanced_eq_ok {record : ActionAdvanced} :
    P.applyActionAdvanced record = (P', none) ↔
      P.AcceptsKind (.actionAdvanced record) ∧
        P' = { P with advancements := P.advancements ++ [record] } := by
  simp only [applyActionAdvanced, AcceptsKind]
  cases hrow : P.actionRow? record.actionId with
  | none => simp
  | some row =>
    simp only [Option.some.injEq, exists_eq_left']
    split_ifs with hreceipt hcampaign
    · simp [Option.isNone_iff_eq_none.mp hreceipt]
    · simp [hcampaign]
    · have hsome : row.receipt.isSome = true := by
        cases hvalue : row.receipt with
        | none => simp [hvalue] at hreceipt
        | some value => rfl
      simp [insertInto_eq_ok, not_not.mp hcampaign, hsome]

theorem applyAttempt_eq_ok {record : AttemptReceipt} : P.applyAttempt record = (P', none) ↔
      P.AcceptsKind (.attemptReceipt record) ∧
        P' = { P with attempts := P.attempts ++ [record] } := by
  simp only [applyAttempt, AcceptsKind]
  cases hrow : P.taskRow? record.campaignId record.taskId with
  | none => simp
  | some row =>
    simp only [Option.isSome_some, true_and]
    split_ifs with hduplicate
    · simp only [List.any_eq_true, decide_eq_true_eq] at hduplicate
      obtain ⟨other, hother, hsame⟩ := hduplicate
      constructor
      · intro h
        cases h
      · rintro ⟨⟨hfree, -⟩, -⟩
        exact absurd hsame (hfree other hother)
    · simp only [List.any_eq_true, decide_eq_true_eq, not_exists, not_and] at hduplicate
      rw [insertInto_eq_ok]
      refine and_congr_left fun _ ↦ ?_
      refine ⟨fun hfree ↦ ⟨?_, hfree⟩, fun h ↦ h.2⟩
      exact fun other hother hsame ↦ hduplicate other hother hsame.1 hsame.2

theorem applyTerminal_eq_ok {record : TerminalSelection} : P.applyTerminal record = (P', none) ↔
      P.AcceptsKind (.terminalSelection record) ∧
        P' = { P with tasks := P.tasks.map (closeTask record) } := by
  simp only [applyTerminal, AcceptsKind]
  cases hattempt : lookup AttemptReceipt.attemptId record.attemptId P.attempts with
  | none => simp
  | some attempt =>
    simp only [Option.some.injEq, exists_eq_left']
    split_ifs with hmismatch hopen
    · constructor
      · intro h
        cases h
      · rintro ⟨⟨hmatch, -⟩, -⟩
        rcases hmismatch with h | h | h
        · exact absurd hmatch.1 h
        · exact absurd hmatch.2.1 h
        · exact absurd hmatch.2.2 h
    · have hmatch : attempt.campaignId = record.campaignId ∧ attempt.taskId = record.taskId ∧
          attempt.outcome = record.outcome := by
        simpa only [not_or, not_not] using hmismatch
      have hrow : ∃ row ∈ P.tasks, openTask record row = true := List.any_eq_true.mp hopen
      simp only [hmatch, hrow, and_self, true_and, Prod.mk.injEq, and_true]
      exact eq_comm
    · constructor
      · intro h
        cases h
      · rintro ⟨⟨-, hrow⟩, -⟩
        exact absurd (List.any_eq_true.mpr hrow) hopen

theorem applyCampaignLock_eq_ok {record : CampaignLock} : P.applyCampaignLock record = (P', none) ↔
      P.AcceptsKind (.campaignLock record) ∧
        P' = { P with
          campaigns := lockCampaign record P.campaigns
          tasks := P.tasks ++ record.tasks.map (lockedTask record.campaignId) } := by
  unfold applyCampaignLock
  rw [insertTasks_eq_ok]
  exact Iff.rfl

/-- The kind of a record is applied exactly when its checks pass, with the effect of `extend`. -/
theorem applyKind_eq_ok :
    applyKind record { P with objects := P.objects ++ [record] } = (P', none) ↔
      P.AcceptsKind record ∧ P' = P.extend record := by
  cases record with
  | campaignLock record =>
    change applyCampaignLock record _ = _ ↔ _
    rw [applyCampaignLock_eq_ok]
    simp [AcceptsKind, extend]
  | actionDispatch record =>
    change applyActionDispatch record _ = _ ↔ _
    rw [applyActionDispatch_eq_ok]
    simp [AcceptsKind, extend, actionRow?]
  | actionReceipt record =>
    change applyActionReceipt record _ = _ ↔ _
    rw [applyActionReceipt_eq_ok]
    simp [AcceptsKind, extend, actionRow?]
  | actionAdvanced record =>
    change applyActionAdvanced record _ = _ ↔ _
    rw [applyActionAdvanced_eq_ok]
    simp [AcceptsKind, extend, actionRow?]
  | attemptReceipt record =>
    change applyAttempt record _ = _ ↔ _
    rw [applyAttempt_eq_ok]
    simp [AcceptsKind, extend, taskRow?]
  | terminalSelection record =>
    change applyTerminal record _ = _ ↔ _
    rw [applyTerminal_eq_ok]
    simp [AcceptsKind, extend]
  | campaignRequest record =>
    simp [applyKind, applyCampaignRequest, AcceptsKind, extend, eq_comm (a := P')]
  | preparedTrial record => simp [applyKind, AcceptsKind, extend, eq_comm (a := P')]
  | preparedJob record => simp [applyKind, AcceptsKind, extend, eq_comm (a := P')]
  | _ =>
    simp [applyKind, applyActionIntent, applyBudget, applyEndpoint, applyPublication, applyProfile,
      applyPromotion, applyAcl, applyMigration, insertInto_eq_ok, AcceptsKind, extend,
      budgetRow, endpointRow, actionKey]

/-- A record is applied exactly when it is accepted, with the effect of `extend`. -/
theorem apply_eq_ok : P.apply record = (P', none) ↔ P.Accepts record ∧ P' = P.extend record := by
  unfold apply Accepts
  cases hinsert : insertRow Record.key record P.objects with
  | none =>
    obtain ⟨other, hother, hkey⟩ := insertRow_eq_none.mp hinsert
    constructor
    · intro h
      cases h
    · rintro ⟨⟨hfree, -⟩, -⟩
      exact absurd hkey (hfree other hother)
  | some objects =>
    obtain ⟨hfree, rfl⟩ := insertRow_eq_some.mp hinsert
    simp only [applyKind_eq_ok, and_assoc]
    exact ⟨fun h ↦ ⟨hfree, h⟩, fun h ↦ h.2⟩

/-! ### Refused records -/

/-- A record is a campaign lock. -/
def isLock : Record → Bool
  | .campaignLock _ => true
  | _ => false

/-- What a refused record leaves behind: its object, and of a lock the campaign and the tasks before
the first that is refused. -/
theorem applyKind_refused (h : applyKind record P = (P', some error)) :
    ∃ added, (isLock record = false → added = []) ∧
      P' = { P with
        campaigns := P.extendCampaigns record
        tasks := P.tasks ++ added } := by
  have hsame : P' = P → isLock record = false → P.extendCampaigns record = P.campaigns →
      ∃ added, (isLock record = false → added = []) ∧
        P' = { P with
          campaigns := P.extendCampaigns record
          tasks := P.tasks ++ added } := by
    rintro rfl - hcampaigns
    exact ⟨[], fun _ ↦ rfl, by rw [hcampaigns, List.append_nil]⟩
  cases record with
  | campaignRequest record => cases h
  | campaignLock record =>
    obtain ⟨added, rfl⟩ := insertTasks_refused h
    refine ⟨added, fun hlock ↦ ?_, rfl⟩
    cases hlock
  | preparedTrial record => cases h
  | preparedJob record => cases h
  | actionDispatch record =>
    refine hsame ?_ rfl rfl
    simp only [applyKind, applyActionDispatch] at h
    split at h
    · exact (Prod.mk.inj h).1.symm
    · split_ifs at h
      · exact (Prod.mk.inj h).1.symm
      · exact (Prod.mk.inj h).1.symm
      · exact insertInto_refused h
  | actionReceipt record =>
    refine hsame ?_ rfl rfl
    simp only [applyKind, applyActionReceipt] at h
    split at h
    · exact (Prod.mk.inj h).1.symm
    · split_ifs at h
      · exact (Prod.mk.inj h).1.symm
      · cases h
  | actionAdvanced record =>
    refine hsame ?_ rfl rfl
    simp only [applyKind, applyActionAdvanced] at h
    split at h
    · exact (Prod.mk.inj h).1.symm
    · split_ifs at h
      · exact (Prod.mk.inj h).1.symm
      · exact (Prod.mk.inj h).1.symm
      · exact insertInto_refused h
  | attemptReceipt record =>
    refine hsame ?_ rfl rfl
    simp only [applyKind, applyAttempt] at h
    split at h
    · exact (Prod.mk.inj h).1.symm
    · split_ifs at h
      · exact (Prod.mk.inj h).1.symm
      · exact insertInto_refused h
  | terminalSelection record =>
    refine hsame ?_ rfl rfl
    simp only [applyKind, applyTerminal] at h
    split at h
    · exact (Prod.mk.inj h).1.symm
    · split_ifs at h
      · exact (Prod.mk.inj h).1.symm
      · cases h
      · exact (Prod.mk.inj h).1.symm
  | _ => exact hsame (insertInto_refused h) rfl rfl

/-- A refused record is refused for its own sake, never for a ceiling. -/
theorem applyKind_error (h : applyKind record P = (P', some error)) (campaignId : String) :
    error ≠ .budgetExceedsCeiling campaignId := by
  have hinsert : ∀ {α κ : Type} [DecidableEq κ] {name : String} {key : α → κ} {row : α}
      {rows : List α} {put : List α → Projection},
        P.insertInto name key row rows put = (P', some error) →
          error ≠ .budgetExceedsCeiling campaignId := by
    intro α κ _ name key row rows put h
    unfold insertInto at h
    split at h
    · cases h
    · cases h
      simp
  cases record with
  | campaignRequest record => cases h
  | campaignLock record => exact insertTasks_error h campaignId
  | preparedTrial record => cases h
  | preparedJob record => cases h
  | actionDispatch record =>
    simp only [applyKind, applyActionDispatch] at h
    split at h
    · cases h
      simp
    · split_ifs at h
      · cases h
        simp
      · cases h
        simp
      · exact hinsert h
  | actionReceipt record =>
    simp only [applyKind, applyActionReceipt] at h
    split at h
    · cases h
      simp
    · split_ifs at h
      · cases h
        simp
      · cases h
  | actionAdvanced record =>
    simp only [applyKind, applyActionAdvanced] at h
    split at h
    · cases h
      simp
    · split_ifs at h
      · cases h
        simp
      · cases h
        simp
      · exact hinsert h
  | attemptReceipt record =>
    simp only [applyKind, applyAttempt] at h
    split at h
    · cases h
      simp
    · split_ifs at h
      · cases h
        simp
      · exact hinsert h
  | terminalSelection record =>
    simp only [applyKind, applyTerminal] at h
    split at h
    · cases h
      simp
    · split_ifs at h
      · cases h
        simp
      · cases h
      · cases h
        simp
  | _ => exact hinsert h

theorem apply_refused
    (hfree : Free Record.key record.key P.objects) (h : P.apply record = (P', some error)) :
    ∃ added, (isLock record = false → added = []) ∧
      P' = { P with
        objects := P.objects ++ [record]
        campaigns := P.extendCampaigns record
        tasks := P.tasks ++ added } := by
  unfold apply at h
  rw [insertRow_eq_some.mpr ⟨hfree, rfl⟩] at h
  obtain ⟨added, hadded, rfl⟩ := applyKind_refused h
  refine ⟨added, hadded, ?_⟩
  cases record <;> rfl

/-! ### Lists of records -/

/-- The tables after a list of accepted records. -/
def extendAll (records : List Record) (P : Projection) : Projection :=
  records.foldl (fun tables record ↦ tables.extend record) P

/-- Each record of a list is accepted after those before it. -/
def AcceptsAll : List Record → Projection → Prop
  | [], _ => True
  | record :: rest, P => P.Accepts record ∧ AcceptsAll rest (P.extend record)

@[simp] theorem extendAll_nil (P : Projection) : P.extendAll [] = P := rfl

@[simp] theorem extendAll_cons (record : Record) (records : List Record) (P : Projection) :
    P.extendAll (record :: records) = (P.extend record).extendAll records := rfl

theorem table_extendAll {α : Type} (table : Projection → List α) (row : Record → Option α)
    (h : ∀ record P, table (extend record P) = table P ++ (row record).toList)
    (records : List Record) (P : Projection) :
    table (P.extendAll records) = table P ++ records.filterMap row := by
  induction records generalizing P with
  | nil => simp
  | cons record rest ih =>
    rw [extendAll_cons, ih, h, List.filterMap_cons]
    cases row record <;> simp

theorem extendAll_objects (records : List Record) (P : Projection) :
    (P.extendAll records).objects = P.objects ++ records := by
  have h := table_extendAll Projection.objects some (fun _ _ ↦ rfl) records P
  rwa [List.filterMap_some] at h

theorem extendAll_budgets (records : List Record) (P : Projection) :
    (P.extendAll records).budgets = P.budgets ++ records.filterMap budgetRowOf :=
  table_extendAll _ _ (fun _ _ ↦ rfl) records P

theorem extendAll_attempts (records : List Record) (P : Projection) :
    (P.extendAll records).attempts = P.attempts ++ records.filterMap attemptOf :=
  table_extendAll _ _ (fun _ _ ↦ rfl) records P

/-- The rows of accepted records have different keys when each is checked against those before. -/
theorem keyed_extendAll {α κ : Type} (table : Projection → List α) (row : Record → Option α)
    {key : α → κ} (h : ∀ record P, table (extend record P) = table P ++ (row record).toList)
    (hfree : ∀ record P added, P.Accepts record → row record = some added →
      Free key (key added) (table P))
    {records : List Record} {P : Projection} (haccepts : AcceptsAll records P)
    (hkeyed : Keyed key (table P)) : Keyed key (table (P.extendAll records)) := by
  classical
  induction records generalizing P with
  | nil => exact hkeyed
  | cons record rest ih =>
    refine ih haccepts.2 ?_
    rw [h]
    cases hrow : row record with
    | none => simpa using hkeyed
    | some added =>
      exact hkeyed.insertRow
        (insertRow_eq_some.mpr ⟨hfree record P added haccepts.1 hrow, rfl⟩)

theorem keyed_budgets {records : List Record} (h : AcceptsAll records {}) :
    Keyed BudgetRow.recordId (extendAll records {}).budgets := by
  refine keyed_extendAll Projection.budgets budgetRowOf (fun _ _ ↦ rfl) ?_ h List.nodup_nil
  rintro (_ | _) P added haccepts hrow <;> cases hrow
  exact haccepts.2

theorem keyed_attempts {records : List Record} (h : AcceptsAll records {}) :
    Keyed AttemptReceipt.attemptId (extendAll records {}).attempts := by
  refine keyed_extendAll Projection.attempts attemptOf (fun _ _ ↦ rfl) ?_ h List.nodup_nil
  rintro (_ | _) P added haccepts hrow <;> cases hrow
  exact haccepts.2.2.2

/-- The entries of a listing are applied exactly when each passes its checks and is accepted. -/
theorem applyEntries_eq_ok {store : ObjectStore} {entries : List Record} :
    applyEntries store entries P = (P', none) ↔
      (∀ record ∈ entries, checkEntry store record = .ok ()) ∧ AcceptsAll entries P ∧
        P' = P.extendAll entries := by
  induction entries generalizing P with
  | nil =>
    simp only [applyEntries, Prod.mk.injEq, and_true, List.not_mem_nil, false_imp_iff, implies_true,
      AcceptsAll, extendAll_nil, true_and]
    exact eq_comm
  | cons record rest ih =>
    simp only [applyEntries, List.forall_mem_cons, AcceptsAll, extendAll_cons]
    cases hcheck : checkEntry store record with
    | error error => simp
    | ok value =>
      cases happly : P.apply record with
      | mk applied outcome =>
        cases outcome with
        | none =>
          obtain ⟨haccepts, rfl⟩ := apply_eq_ok.mp happly
          simp only [ih, true_and, haccepts]
        | some error =>
          have hnot : ¬ P.Accepts record := by
            intro haccepts
            rw [apply_eq_ok.mpr ⟨haccepts, rfl⟩] at happly
            cases happly
          simp [hnot]

theorem apply_error (h : P.apply record = (P', some error)) (campaignId : String) :
    error ≠ .budgetExceedsCeiling campaignId := by
  unfold apply at h
  split at h
  · exact applyKind_error h campaignId
  · cases h
    simp

theorem applyEntries_error {store : ObjectStore} {entries : List Record}
    (h : applyEntries store entries P = (P', some error))
    (campaignId : String) : error ≠ .budgetExceedsCeiling campaignId := by
  induction entries generalizing P with
  | nil => cases h
  | cons record rest ih =>
    simp only [applyEntries] at h
    split at h
    · next checkError hcheck =>
      cases h
      unfold checkEntry at hcheck
      split_ifs at hcheck
      · cases hcheck
        simp
      · cases hevidence : verifyAttemptEvidence store record with
        | ok value =>
          rw [hevidence] at hcheck
          cases hcheck
        | error evidence =>
          rw [hevidence] at hcheck
          cases hcheck
          simp
    · split at h
      · next applied applyFailure happly =>
        cases h
        exact apply_error happly campaignId
      · exact ih h

/-- The listing is rebuilt exactly when each entry passes its checks and is accepted, and the tables
as a whole pass theirs. -/
theorem rebuildFrom_eq_ok {store : ObjectStore} {entries : List Record} {P : Projection} :
    rebuildFrom store entries = (P, none) ↔
      (∀ record ∈ entries, checkEntry store record = .ok ()) ∧
        AcceptsAll (entries.insertionSort PathOrder) {} ∧
          (extendAll (entries.insertionSort PathOrder) {}).verifyInvariants = .ok () ∧
            P = { extendAll (entries.insertionSort PathOrder) {} with ready := true } := by
  have hmem : (∀ record ∈ entries, checkEntry store record = .ok ()) ↔
      ∀ record ∈ entries.insertionSort PathOrder, checkEntry store record = .ok () := by
    simp only [List.mem_insertionSort]
  unfold rebuildFrom
  rw [hmem]
  cases happly : applyEntries store (entries.insertionSort PathOrder) {} with
  | mk applied outcome =>
    cases outcome with
    | some error =>
      constructor
      · intro h
        cases h
      · rintro ⟨hchecks, haccepts, -⟩
        rw [applyEntries_eq_ok.mpr ⟨hchecks, haccepts, rfl⟩] at happly
        cases happly
    | none =>
      obtain ⟨hchecks, haccepts, rfl⟩ := applyEntries_eq_ok.mp happly
      cases hverify : (extendAll (entries.insertionSort PathOrder) {}).verifyInvariants with
      | error error => simp [hverify]
      | ok value =>
        simp only [Prod.mk.injEq, and_true, hverify, true_and, haccepts]
        rw [and_iff_right hchecks]
        exact eq_comm

end

end Projection

end HarborHF.Control
