import HarborHF.Async.Errors
import HarborHF.Control.Cleanup
import HarborHF.Control.History

/-!
# The limits on Sandboxes and their commands

A campaign's policy allows so many Sandboxes at once, and so many commands for each. The service
counts the recorded actions when one asks to be admitted, and records the action only some awaits
later. Counting and recording share the admission queue, so nobody else records such an action in
between; and what receipts and closes do to the actions meanwhile only takes some out of the count.

`Keeps` is what every operation of the service keeps: stored records, and action rows that have their
receipt. The clients of this module record a `sandbox.create` or a `sandbox.exec` only through an
admission (`SandboxClient`).
-/

set_option autoImplicit false

namespace HarborHF.Control

open Async Program Relational Projection

/-! ### Completed rows stay -/

/-- Stored records stay, and so do the rows of completed actions. -/
structure Keeps (before after : World) : Prop where
  stored : Stored before after
  completed : ∀ row ∈ before.projection.actions, row.receipt.isSome = true →
    row ∈ after.projection.actions

theorem Keeps.refl (world : World) : Keeps world world := ⟨Stored.refl world, fun _ h _ ↦ h⟩

theorem Keeps.trans {first middle last : World} (h : Keeps first middle) (h' : Keeps middle last) :
    Keeps first last :=
  ⟨h.stored.trans h'.stored, fun row hrow hreceipt ↦
    h'.completed row (h.completed row hrow hreceipt) hreceipt⟩

section

variable [Digests] {world world' : World} {record : Record}

/-- A receipt completes no row that has its receipt: both would be stored under one key. -/
theorem completeAction_eq {records : List Record} {P : Projection} {receipt : ActionReceipt}
    {row : ActionRow} (h : ActionsOf records P.actions)
    (hfresh : Free Record.key (Record.actionReceipt receipt).key records)
    (haccepts : P.Accepts (.actionReceipt receipt)) (hrow : row ∈ P.actions)
    (hreceipt : row.receipt.isSome = true) : completeAction receipt row = row := by
  unfold completeAction
  split_ifs with hid
  · exfalso
    obtain ⟨recorded, hrecorded⟩ := Option.isSome_iff_exists.mp hreceipt
    obtain ⟨hstored, haction, hcampaign⟩ := h.receipt row hrow recorded hrecorded
    obtain ⟨found, hfound, hname⟩ := haccepts.2
    obtain ⟨hmem, hkey⟩ := lookup_mem hfound
    have hsame : row = found := h.keyed.eq_of_mem hrow hmem (hid.trans hkey.symm)
    refine hfresh _ hstored ?_
    rw [Record.key, Record.key, hcampaign, haction, hid, hsame, hname]
  · rfl

theorem completed_extend {records : List Record} {P : Projection} {row : ActionRow}
    (h : ActionsOf records P.actions) (hfresh : Free Record.key record.key records)
    (haccepts : P.Accepts record) (hrow : row ∈ P.actions) (hreceipt : row.receipt.isSome = true) :
    row ∈ (P.extend record).actions := by
  cases record with
  | actionIntent intent => exact List.mem_append_left _ hrow
  | actionReceipt receipt =>
    exact List.mem_map.mpr ⟨row, hrow, completeAction_eq h hfresh haccepts hrow hreceipt⟩
  | _ => exact hrow

theorem History.keeps_append (h : History world)
    (hfresh : Free Record.key record.key world.store.records) :
    Keeps world (world.afterAppend record) := by
  refine ⟨fun other hother ↦ List.mem_append_left _ hother, fun row hrow hreceipt ↦ ?_⟩
  rcases World.apply_cases (h.synced.free_objects hfresh) with
    ⟨haccepts, happly⟩ | ⟨-, added, -, happly⟩
  · simp only [World.afterAppend, happly]
    exact completed_extend h.actions hfresh haccepts hrow hreceipt
  · simp only [World.afterAppend, happly]
    exact hrow

/-- Every stored receipt is on its row. -/
def ReceiptsOf (records : List Record) (rows : List ActionRow) : Prop :=
  ∀ receipt, .actionReceipt receipt ∈ records → ∃ row ∈ rows, row.receipt = some receipt

theorem ReceiptsOf.append {P : Projection} (h : ReceiptsOf P.objects P.actions)
    (hactions : ActionsOf P.objects P.actions) (haccepts : P.Accepts record) :
    ReceiptsOf (P.objects ++ [record]) (P.extend record).actions := by
  intro receipt hstored
  rcases List.mem_append.mp hstored with hold | hnew
  · obtain ⟨row, hrow, hreceipt⟩ := h receipt hold
    have hcompleted : row.receipt.isSome = true := by
      rw [hreceipt]
      rfl
    exact ⟨row, completed_extend hactions haccepts.1 haccepts hrow hcompleted, hreceipt⟩
  · cases List.mem_singleton.mp hnew
    obtain ⟨found, hfound, -⟩ := haccepts.2
    obtain ⟨hmem, hkey⟩ := lookup_mem hfound
    refine ⟨completeAction receipt found, List.mem_map_of_mem hmem, ?_⟩
    unfold completeAction
    rw [if_pos (show found.intent.actionId = receipt.actionId from hkey)]

theorem receiptsOf_extendAll {P : Projection} {added : List Record}
    (h : ReceiptsOf P.objects P.actions) (hactions : ActionsOf P.objects P.actions)
    (haccepts : AcceptsAll added P) :
    ReceiptsOf (P.objects ++ added) (P.extendAll added).actions := by
  induction added generalizing P with
  | nil => simpa using h
  | cons record rest ih =>
    have hstep : ReceiptsOf (P.extend record).objects (P.extend record).actions :=
      h.append hactions haccepts.1
    have hnext : ActionsOf (P.extend record).objects (P.extend record).actions :=
      hactions.append haccepts.1
    simpa [extend] using ih hstep hnext haccepts.2

/-- A restart reads the completed actions back. -/
theorem History.keeps_restart (h : History world) (hrestart : world.restart = some world') :
    Keeps world world' := by
  obtain ⟨hhistory, hstored⟩ := history_of_restart h.canonical hrestart
  refine ⟨hstored, fun row hrow hreceipt ↦ ?_⟩
  obtain ⟨receipt, hrecorded⟩ := Option.isSome_iff_exists.mp hreceipt
  obtain ⟨hrecord, haction, -⟩ := h.actions.receipt row hrow receipt hrecorded
  obtain ⟨-, haccepts, -, rfl⟩ := World.restart_eq_some.mp hrestart
  have hreceipts := receiptsOf_extendAll (P := {}) (fun _ hnone ↦ absurd hnone List.not_mem_nil)
    actionsOf_nil haccepts
  obtain ⟨last, hlast, hlastReceipt⟩ := hreceipts receipt
    (List.mem_append_right _ ((List.mem_insertionSort _).mpr hrecord))
  obtain ⟨same, hsame, hintent⟩ := hhistory.actions.complete row.intent (h.actions.stored row hrow)
  have hid := (hhistory.actions.receipt last hlast receipt hlastReceipt).2.1
  have heq : last = same := hhistory.actions.keyed.eq_of_mem hlast hsame (by
    rw [actionKey, actionKey, hintent, ← haction, hid])
  have hwhole : row = last := by
    obtain ⟨intent, recorded⟩ := row
    obtain ⟨intent', recorded'⟩ := last
    subst heq
    simp only at hintent hrecorded hlastReceipt
    rw [hintent, hrecorded, hlastReceipt]
  rw [hwhole]
  exact hlast

theorem History.keeps_perform {thread : ℕ} {op : Op} {choice : Choice} {answer : op.Ans}
    (h : History world) (hop : Own op)
    (hperform : World.perform thread op choice world = some (answer, world')) :
    Keeps world world' := by
  rcases World.perform_cases h.synced hperform with
    ⟨record, rfl, hfresh, rfl⟩ | ⟨record, rfl⟩ | ⟨queue, -, -, rfl⟩ | ⟨queue, -, rfl⟩ | hsame
  · exact h.keeps_append hfresh
  · cases hop
  · exact ⟨Stored.refl _, fun _ hrow _ ↦ hrow⟩
  · exact ⟨Stored.refl _, fun _ hrow _ ↦ hrow⟩
  · obtain ⟨ready, hprojection⟩ := hsame.projection
    refine ⟨(h.perform hop hperform).2, fun row hrow _ ↦ ?_⟩
    rw [hprojection]
    exact hrow

end

/-! ### Counts -/

/-- The Sandboxes among the actions of a campaign that are neither failed nor closed. -/
def liveCreates (actions : List ActionRow) : List ActionRow :=
  actions.filter fun row ↦
    decide (row.intent.actionKind = .sandboxCreate ∧ row.outcome ≠ some .failed ∧
      row.intent.actionId ∉ closedCreates actions)

/-- The commands of a Sandbox that have not failed. -/
def liveCommands (actions : List ActionRow) (sandboxId : String) : List ActionRow :=
  actions.filter fun row ↦
    decide (row.intent.actionKind = .sandboxExec ∧ row.outcome ≠ some .failed ∧
      row.intent.payload.sandboxCreateActionId = some sandboxId)

variable {actions : List ActionRow}

theorem mem_liveCreates {row : ActionRow} :
    row ∈ liveCreates actions ↔ row ∈ actions ∧ row.intent.actionKind = .sandboxCreate ∧
      row.outcome ≠ some .failed ∧ row.intent.actionId ∉ closedCreates actions := by
  unfold liveCreates
  rw [List.mem_filter, decide_eq_true_eq]

theorem mem_liveCommands {sandboxId : String} {row : ActionRow} :
    row ∈ liveCommands actions sandboxId ↔ row ∈ actions ∧ row.intent.actionKind = .sandboxExec ∧
      row.outcome ≠ some .failed ∧ row.intent.payload.sandboxCreateActionId = some sandboxId := by
  unfold liveCommands
  rw [List.mem_filter, decide_eq_true_eq]

theorem openCreates_eq {actionId : String} (h : ∀ row ∈ actions, row.intent.actionId ≠ actionId) :
    openCreates actions actionId = liveCreates actions := by
  unfold openCreates liveCreates
  refine List.filter_congr fun row hrow ↦ ?_
  simp [h row hrow]

theorem countedCommands_eq {actionId sandboxId : String}
    (h : ∀ row ∈ actions, row.intent.actionId ≠ actionId) :
    countedCommands actions actionId sandboxId = liveCommands actions sandboxId := by
  unfold countedCommands liveCommands
  refine List.filter_congr fun row hrow ↦ ?_
  simp [h row hrow]

theorem mem_campaignActions {P : Projection} {campaignId : String} {row : ActionRow} :
    row ∈ P.campaignActions campaignId ↔ row ∈ P.actions ∧ row.intent.campaignId = campaignId := by
  unfold Projection.campaignActions
  rw [List.mem_insertionSort, List.mem_filter, decide_eq_true_eq]

theorem keyed_campaignActions {P : Projection} (h : Keyed actionKey P.actions)
    (campaignId : String) : Keyed actionKey (P.campaignActions campaignId) := by
  unfold Projection.campaignActions
  exact (h.sublist List.filter_sublist).of_perm (List.perm_insertionSort _ _).symm

section

variable [Digests] {before after : World}

theorem History.earlier_row (hbefore : History before) (hafter : History after)
    (hkeeps : Keeps before after) {row : ActionRow} (hrow : row ∈ after.projection.actions)
    (hstored : .actionIntent row.intent ∈ before.store.records) :
    ∃ earlier ∈ before.projection.actions, earlier.intent = row.intent ∧
      (earlier.receipt.isSome = true → earlier = row) := by
  obtain ⟨earlier, hearlier, hintent⟩ := hbefore.actions.complete row.intent hstored
  refine ⟨earlier, hearlier, hintent, fun hreceipt ↦ ?_⟩
  exact hafter.actions.keyed.eq_of_mem (hkeeps.completed earlier hearlier hreceipt) hrow (by
    rw [actionKey, actionKey, hintent])

omit [Digests] in
theorem not_failed_before {earlier row : ActionRow} (hrow : row.outcome ≠ some .failed)
    (hsame : earlier.receipt.isSome = true → earlier = row) : earlier.outcome ≠ some .failed := by
  intro hfailed
  have hreceipt : earlier.receipt.isSome = true := by
    unfold ActionRow.outcome at hfailed
    obtain ⟨receipt, hreceipt, -⟩ := Option.map_eq_some_iff.mp hfailed
    rw [hreceipt]
    rfl
  rw [hsame hreceipt] at hfailed
  exact hrow hfailed

omit [Digests] in
/-- A Sandbox that was closed stays closed. -/
theorem closedCreates_keeps (hkeeps : Keeps before after) {campaignId createActionId : String}
    (h : createActionId ∈ closedCreates (before.projection.campaignActions campaignId)) :
    createActionId ∈ closedCreates (after.projection.campaignActions campaignId) := by
  obtain ⟨row, hrow, hended⟩ := mem_closedCreates.mp h
  obtain ⟨hmem, hclose⟩ := mem_closesOf.mp hrow
  obtain ⟨hactions, hcampaign⟩ := mem_campaignActions.mp hmem
  have hreceipt : row.receipt.isSome = true := by
    cases hvalue : row.receipt with
    | none => simp [endedIn, hvalue] at hended
    | some receipt => rfl
  exact mem_closedCreates.mpr ⟨row, mem_closesOf.mpr ⟨mem_campaignActions.mpr
    ⟨hkeeps.completed row hactions hreceipt, hcampaign⟩, hclose⟩, hended⟩

/-- A live Sandbox whose intent was stored was live. -/
theorem History.liveCreates_before (hbefore : History before) (hafter : History after)
    (hkeeps : Keeps before after) {campaignId : String} {row : ActionRow}
    (hrow : row ∈ liveCreates (after.projection.campaignActions campaignId))
    (hstored : .actionIntent row.intent ∈ before.store.records) :
    ∃ earlier ∈ liveCreates (before.projection.campaignActions campaignId),
      actionKey earlier = actionKey row := by
  obtain ⟨hmem, hkind, hfailed, hclosed⟩ := mem_liveCreates.mp hrow
  obtain ⟨hactions, hcampaign⟩ := mem_campaignActions.mp hmem
  obtain ⟨earlier, hearlier, hintent, hsame⟩ := hbefore.earlier_row hafter hkeeps hactions hstored
  refine ⟨earlier, mem_liveCreates.mpr ⟨mem_campaignActions.mpr ⟨hearlier, ?_⟩, ?_, ?_, ?_⟩, ?_⟩
  · rwa [hintent]
  · rwa [hintent]
  · exact not_failed_before hfailed hsame
  · rw [hintent]
    exact fun h ↦ hclosed (closedCreates_keeps hkeeps h)
  · rw [actionKey, actionKey, hintent]

/-- So was a live command. -/
theorem History.liveCommands_before (hbefore : History before) (hafter : History after)
    (hkeeps : Keeps before after) {sandboxId : String} {row : ActionRow}
    (hrow : row ∈ liveCommands after.projection.actions sandboxId)
    (hstored : .actionIntent row.intent ∈ before.store.records) :
    ∃ earlier ∈ liveCommands before.projection.actions sandboxId,
      actionKey earlier = actionKey row := by
  obtain ⟨hactions, hkind, hfailed, hsandbox⟩ := mem_liveCommands.mp hrow
  obtain ⟨earlier, hearlier, hintent, hsame⟩ := hbefore.earlier_row hafter hkeeps hactions hstored
  refine ⟨earlier, mem_liveCommands.mpr ⟨hearlier, ?_, not_failed_before hfailed hsame, ?_⟩, ?_⟩
  · rwa [hintent]
  · rwa [hintent]
  · rw [actionKey, actionKey, hintent]

end

/-! ### Limits -/

/-- The limits of the policies: Sandboxes by campaign, commands by Sandbox; and the campaign of each
Sandbox. -/
structure SandboxLimits where
  sandboxes : String → ℕ
  commands : String → ℕ
  campaignOf : String → String

/-- An action that counts against a limit. -/
def Counts (intent : ActionIntent) : Prop :=
  intent.actionKind = .sandboxCreate ∨ intent.actionKind = .sandboxExec

/-- A command runs in a Sandbox of its own campaign. -/
def SandboxLimits.Owns (limits : SandboxLimits) (intent : ActionIntent) : Prop :=
  intent.actionKind = .sandboxExec → ∀ sandboxId ∈ intent.payload.sandboxCreateActionId,
    limits.campaignOf sandboxId = intent.campaignId

/-- The counts are within the limits. -/
structure SandboxLimits.Holds (limits : SandboxLimits) (P : Projection) : Prop where
  sandboxes : ∀ campaignId, (liveCreates (P.campaignActions campaignId)).length ≤
    limits.sandboxes campaignId
  commands : ∀ sandboxId, (liveCommands P.actions sandboxId).length ≤ limits.commands sandboxId

/-- The limits leave room for one more action. -/
def SandboxLimits.Room (limits : SandboxLimits) (P : Projection) (intent : ActionIntent) : Prop :=
  (intent.actionKind = .sandboxCreate →
    (liveCreates (P.campaignActions intent.campaignId)).length <
      limits.sandboxes intent.campaignId) ∧
  (intent.actionKind = .sandboxExec → ∀ sandboxId ∈ intent.payload.sandboxCreateActionId,
    (liveCommands P.actions sandboxId).length < limits.commands sandboxId)

section

variable [Digests] {before after : World} {limits : SandboxLimits}

/-- Without a new action that counts, the counts only fall. -/
theorem History.counts_le (hbefore : History before) (hafter : History after)
    (hkeeps : Keeps before after)
    (hnone : ∀ intent, .actionIntent intent ∈ after.store.records → Counts intent →
      .actionIntent intent ∈ before.store.records) :
    (∀ campaignId, (liveCreates (after.projection.campaignActions campaignId)).length ≤
      (liveCreates (before.projection.campaignActions campaignId)).length) ∧
    ∀ sandboxId, (liveCommands after.projection.actions sandboxId).length ≤
      (liveCommands before.projection.actions sandboxId).length := by
  constructor
  · intro campaignId
    have hkeyed : Keyed actionKey (liveCreates (after.projection.campaignActions campaignId)) :=
      (keyed_campaignActions hafter.actions.keyed campaignId).sublist List.filter_sublist
    refine hkeyed.length_le fun row hrow ↦ ?_
    obtain ⟨hmem, hkind, -⟩ := mem_liveCreates.mp hrow
    have hstored := hafter.actions.stored row (mem_campaignActions.mp hmem).1
    exact hbefore.liveCreates_before hafter hkeeps hrow (hnone _ hstored (.inl hkind))
  · intro sandboxId
    have hkeyed : Keyed actionKey (liveCommands after.projection.actions sandboxId) :=
      hafter.actions.keyed.sublist List.filter_sublist
    refine hkeyed.length_le fun row hrow ↦ ?_
    obtain ⟨hmem, hkind, -⟩ := mem_liveCommands.mp hrow
    exact hbefore.liveCommands_before hafter hkeeps hrow
      (hnone _ (hafter.actions.stored row hmem) (.inr hkind))

theorem SandboxLimits.Holds.fall (h : limits.Holds before.projection) (hbefore : History before)
    (hafter : History after) (hkeeps : Keeps before after)
    (hnone : ∀ intent, .actionIntent intent ∈ after.store.records → Counts intent →
      .actionIntent intent ∈ before.store.records) : limits.Holds after.projection := by
  obtain ⟨hcreates, hcommands⟩ := hbefore.counts_le hafter hkeeps hnone
  exact ⟨fun campaignId ↦ (hcreates campaignId).trans (h.sandboxes campaignId),
    fun sandboxId ↦ (hcommands sandboxId).trans (h.commands sandboxId)⟩

theorem SandboxLimits.Room.fall {intent : ActionIntent} (h : limits.Room before.projection intent)
    (hbefore : History before) (hafter : History after) (hkeeps : Keeps before after)
    (hnone : ∀ intent, .actionIntent intent ∈ after.store.records → Counts intent →
      .actionIntent intent ∈ before.store.records) : limits.Room after.projection intent := by
  obtain ⟨hcreates, hcommands⟩ := hbefore.counts_le hafter hkeeps hnone
  exact ⟨fun hkind ↦ (hcreates _).trans_lt (h.1 hkind),
    fun hkind sandboxId hsandbox ↦ (hcommands sandboxId).trans_lt (h.2 hkind sandboxId hsandbox)⟩

/-- An action for which there is room leaves the counts within the limits. -/
theorem SandboxLimits.Holds.add {intent : ActionIntent} (h : limits.Holds before.projection)
    (hbefore : History before) (hafter : History after) (hkeeps : Keeps before after)
    (hroom : limits.Room before.projection intent)
    (honly : ∀ other, .actionIntent other ∈ after.store.records →
      .actionIntent other ∈ before.store.records ∨ other = intent) : limits.Holds after.projection := by
  constructor
  · intro campaignId
    have hkeyed : Keyed actionKey (liveCreates (after.projection.campaignActions campaignId)) :=
      (keyed_campaignActions hafter.actions.keyed campaignId).sublist List.filter_sublist
    by_cases hnew : intent.actionKind = .sandboxCreate ∧ intent.campaignId = campaignId
    · have hlength : (liveCreates (after.projection.campaignActions campaignId)).length ≤
          (⟨intent, none⟩ :: liveCreates (before.projection.campaignActions campaignId)).length := by
        refine hkeyed.length_le fun row hrow ↦ ?_
        obtain ⟨hmem, -⟩ := mem_liveCreates.mp hrow
        rcases honly _ (hafter.actions.stored row (mem_campaignActions.mp hmem).1) with hold | heq
        · obtain ⟨earlier, hearlier, hkey⟩ :=
            hbefore.liveCreates_before hafter hkeeps hrow hold
          exact ⟨earlier, List.mem_cons_of_mem _ hearlier, hkey⟩
        · exact ⟨_, List.mem_cons_self, by rw [actionKey, actionKey, heq]⟩
      have hlt := hroom.1 hnew.1
      rw [hnew.2] at hlt
      rw [List.length_cons] at hlength
      omega
    · refine (hkeyed.length_le fun row hrow ↦ ?_).trans (h.sandboxes campaignId)
      obtain ⟨hmem, hkind, -⟩ := mem_liveCreates.mp hrow
      obtain ⟨hactions, hcampaign⟩ := mem_campaignActions.mp hmem
      rcases honly _ (hafter.actions.stored row hactions) with hold | heq
      · exact hbefore.liveCreates_before hafter hkeeps hrow hold
      · exact absurd ⟨heq ▸ hkind, heq ▸ hcampaign⟩ hnew
  · intro sandboxId
    have hkeyed : Keyed actionKey (liveCommands after.projection.actions sandboxId) :=
      hafter.actions.keyed.sublist List.filter_sublist
    by_cases hnew : intent.actionKind = .sandboxExec ∧
        intent.payload.sandboxCreateActionId = some sandboxId
    · have hlength : (liveCommands after.projection.actions sandboxId).length ≤
          (⟨intent, none⟩ :: liveCommands before.projection.actions sandboxId).length := by
        refine hkeyed.length_le fun row hrow ↦ ?_
        obtain ⟨hmem, -⟩ := mem_liveCommands.mp hrow
        rcases honly _ (hafter.actions.stored row hmem) with hold | heq
        · obtain ⟨earlier, hearlier, hkey⟩ :=
            hbefore.liveCommands_before hafter hkeeps hrow hold
          exact ⟨earlier, List.mem_cons_of_mem _ hearlier, hkey⟩
        · exact ⟨_, List.mem_cons_self, by rw [actionKey, actionKey, heq]⟩
      have hlt := hroom.2 hnew.1 sandboxId hnew.2
      rw [List.length_cons] at hlength
      omega
    · refine (hkeyed.length_le fun row hrow ↦ ?_).trans (h.commands sandboxId)
      obtain ⟨hmem, hkind, -, hsandbox⟩ := mem_liveCommands.mp hrow
      rcases honly _ (hafter.actions.stored row hmem) with hold | heq
      · exact hbefore.liveCommands_before hafter hkeeps hrow hold
      · exact absurd ⟨heq ▸ hkind, heq ▸ hsandbox⟩ hnew

end

/-! ### Clients -/

section

variable [Digests]

/-- A canonical record that is no action that counts. -/
def Uncounted (record : Record) : Prop :=
  Canonical record ∧ ∀ intent, record = .actionIntent intent → ¬ Counts intent

/-- An operation that records no action that counts. -/
def Unlimited : Op → Prop
  | .append record => Uncounted record
  | .remoteAppend _ => False
  | _ => True

/-- A program that records Sandboxes and commands only through their admissions. -/
inductive SandboxClient (limits : SandboxLimits) : {α : Type} → Act α → Prop
  | ret {α : Type} (value : α) : SandboxClient limits (.ret value)
  | throw {α : Type} (error : ServiceError) : SandboxClient limits (.throw error : Act α)
  | await {α : Type} (op : Op) {resume : op.Ans → Act α} (hop : Unlimited op)
      (hresume : ∀ answer, SandboxClient limits (resume answer)) :
      SandboxClient limits (.await op resume : Act α)
  | bind {α β : Type} {program : Act α} {next : α → Act β} (hprogram : SandboxClient limits program)
      (hnext : ∀ value, SandboxClient limits (next value)) : SandboxClient limits (program >>= next)
  | catch {α : Type} {program : Act α} (hprogram : SandboxClient limits program) :
      SandboxClient limits (program.attempt : Act (Except ServiceError α))
  | admitCreate {intent : ActionIntent} {maximum : ℕ} (hcanonical : CanonicalIntent intent)
      (hmaximum : maximum ≤ limits.sandboxes intent.campaignId) :
      SandboxClient limits (admitSandboxCreate intent maximum)
  | admitCommand {intent : ActionIntent} {sandboxId : String} {maximum : ℕ}
      (hcanonical : CanonicalIntent intent)
      (hsandbox : intent.payload.sandboxCreateActionId = some sandboxId)
      (howner : limits.campaignOf sandboxId = intent.campaignId)
      (hmaximum : maximum ≤ limits.commands sandboxId) :
      SandboxClient limits (admitSandboxCommand intent maximum)

variable {limits : SandboxLimits} {α : Type}

theorem Local.unlimited {allowed : Record → Prop} (h : ∀ record, allowed record → Uncounted record)
    (op : Op) (hlocal : Local allowed op) : Unlimited op := by
  cases op with
  | append record => exact h record hlocal
  | remoteAppend record => exact hlocal
  | _ => trivial

theorem Unlimited.own {op : Op} (h : Unlimited op) : Own op := by
  cases op with
  | append record => exact h.1
  | remoteAppend record => exact h
  | _ => trivial

theorem uncounted_other {record : Record} (h : ∀ intent, record ≠ .actionIntent intent) :
    Uncounted record := by
  refine ⟨?_, fun intent heq ↦ absurd heq (h intent)⟩
  cases record with
  | actionIntent intent => exact absurd rfl (h intent)
  | _ => trivial

theorem books_uncounted : Books Uncounted where
  budget _ := uncounted_other fun _ heq ↦ by cases heq
  dispatch _ := uncounted_other fun _ heq ↦ by cases heq
  advanced _ := uncounted_other fun _ heq ↦ by cases heq

/-! ### The contract -/

/-- What a thread sees of the others: completed rows stay, and while it holds the admission queue no
action that counts is recorded. -/
structure AdmissionSteady (thread : ℕ) (before after : World) : Prop where
  keeps : Keeps before after
  held : (.sandboxAdmission, thread) ∈ before.held → (.sandboxAdmission, thread) ∈ after.held
  counted : (.sandboxAdmission, thread) ∈ before.held → ∀ intent,
    .actionIntent intent ∈ after.store.records → Counts intent →
      .actionIntent intent ∈ before.store.records

/-- The contract of a client of the admissions. -/
def admissionContract (thread : ℕ) : Contract interface World where
  rely := AdmissionSteady thread
  guar before after := ∀ other, other ≠ thread → AdmissionSteady other before after
  ok _ _ := True
  rely_refl _ := ⟨Keeps.refl _, fun h ↦ h, fun _ _ h _ ↦ h⟩
  rely_trans h h' := ⟨h.keeps.trans h'.keeps, fun hheld ↦ h'.held (h.held hheld),
    fun hheld intent hstored hcounts ↦
      h.counted hheld intent (h'.counted (h.held hheld) intent hstored hcounts) hcounts⟩

/-- The invariant: a history of canonical records, one holder of the admission queue, commands in
their Sandboxes' campaigns, and the counts within the limits. -/
structure Limited (limits : SandboxLimits) (world : World) : Prop where
  history : History world
  exclusive : ∀ first second, (.sandboxAdmission, first) ∈ world.held →
    (.sandboxAdmission, second) ∈ world.held → first = second
  owns : ∀ intent, .actionIntent intent ∈ world.store.records → limits.Owns intent
  holds : limits.Holds world.projection

variable {world world' : World} {thread : ℕ} {intent : ActionIntent}

/-- An operation that records no action that counts keeps the invariant, and the others notice
nothing. -/
theorem Limited.perform {op : Op} {choice : Choice} {answer : op.Ans} (h : Limited limits world)
    (hop : Unlimited op) (hperform : World.perform thread op choice world = some (answer, world')) :
    Limited limits world' ∧ (∀ other, other ≠ thread → AdmissionSteady other world world') ∧
      Keeps world world' ∧ ∀ intent, .actionIntent intent ∈ world'.store.records → Counts intent →
        .actionIntent intent ∈ world.store.records := by
  have hhistory := (h.history.perform hop.own hperform).1
  have hkeeps := h.history.keeps_perform hop.own hperform
  have hfacts : (∀ intent, .actionIntent intent ∈ world'.store.records →
        .actionIntent intent ∈ world.store.records ∨ ¬ Counts intent) ∧
      (∀ other, other ≠ thread → (.sandboxAdmission, other) ∈ world.held →
        (.sandboxAdmission, other) ∈ world'.held) ∧
      ∀ first second, (.sandboxAdmission, first) ∈ world'.held →
        (.sandboxAdmission, second) ∈ world'.held → first = second := by
    rcases World.perform_cases h.history.synced hperform with
      ⟨record, rfl, hfresh, rfl⟩ | ⟨record, rfl⟩ | ⟨queue, -, hfree, rfl⟩ | ⟨queue, -, rfl⟩ | hsame
    · refine ⟨fun intent hstored ↦ ?_, fun _ _ hheld ↦ hheld, h.exclusive⟩
      rcases List.mem_append.mp hstored with hold | hnew
      · exact .inl hold
      · exact .inr (hop.2 intent (List.mem_singleton.mp hnew).symm)
    · cases hop
    · refine ⟨fun _ hstored ↦ .inl hstored, fun _ _ hheld ↦ List.mem_cons_of_mem _ hheld, ?_⟩
      intro first second hfirst hsecond
      rcases List.mem_cons.mp hfirst with heq | hold
      · rcases List.mem_cons.mp hsecond with heq' | hold'
        · rw [(Prod.mk.inj heq).2, (Prod.mk.inj heq').2]
        · exact absurd ((Prod.mk.inj heq).1 ▸ hold') (hfree second)
      · rcases List.mem_cons.mp hsecond with heq' | hold'
        · exact absurd ((Prod.mk.inj heq').1 ▸ hold) (hfree first)
        · exact h.exclusive first second hold hold'
    · refine ⟨fun _ hstored ↦ .inl hstored, fun other hne hheld ↦ ?_, fun first second hfirst hsecond ↦
        h.exclusive first second (List.mem_of_mem_filter hfirst) (List.mem_of_mem_filter hsecond)⟩
      refine List.mem_filter.mpr ⟨hheld, decide_eq_true fun heq ↦ hne (Prod.mk.inj heq).2⟩
    · rw [hsame.records, hsame.held]
      exact ⟨fun _ hstored ↦ .inl hstored, fun _ _ hheld ↦ hheld, h.exclusive⟩
  obtain ⟨hcounted, hheld, hexclusive⟩ := hfacts
  have hnone : ∀ intent, .actionIntent intent ∈ world'.store.records → Counts intent →
      .actionIntent intent ∈ world.store.records :=
    fun intent hstored hcounts ↦ (hcounted intent hstored).resolve_right fun h ↦ h hcounts
  refine ⟨⟨hhistory, hexclusive, fun intent hstored ↦ ?_,
    h.holds.fall h.history hhistory hkeeps hnone⟩,
    fun other hne ↦ ⟨hkeeps, hheld other hne, fun _ ↦ hnone⟩, hkeeps, hnone⟩
  rcases hcounted intent hstored with hold | hnot
  · exact h.owns intent hold
  · exact fun hkind ↦ absurd (.inr hkind) hnot

/-! ### The admissions -/

/-- A program of the service among the clients of the admissions. -/
abbrev LimitSafe (limits : SandboxLimits) (thread : ℕ) (program : Act α) (world : World) : Prop :=
  Safe machine (Limited limits) thread (admissionContract thread) program (fun _ _ ↦ True)
    (fun _ _ ↦ True) world

omit [Digests] in
theorem admissionSteady_refl (thread : ℕ) (world : World) : AdmissionSteady thread world world :=
  ⟨Keeps.refl _, fun h ↦ h, fun _ _ h _ ↦ h⟩

theorem limited_uses {program : Act α} (huses : program.Uses Unlimited) :
    LimitSafe limits thread program world := by
  refine safe_of_uses huses (fun _ _ _ _ (h : True) ↦ h) ?_ trivial
  intro op hop before hbefore _ _ choice answer after hperform
  obtain ⟨hafter, hguar, -⟩ := hbefore.perform hop hperform
  exact ⟨hguar, hafter, trivial⟩

/-- The thread holds the admission queue, and its action is recorded or there is room for it. -/
structure Grounded (limits : SandboxLimits) (thread : ℕ) (intent : ActionIntent) (world : World) :
    Prop where
  history : History world
  held : (.sandboxAdmission, thread) ∈ world.held
  grounds : (∃ row, world.projection.action intent.actionId = some row) ∨
    limits.Room world.projection intent

theorem Grounded.steady (h : Grounded limits thread intent world)
    (hsteady : AdmissionSteady thread world world') (hafter : Limited limits world') :
    Grounded limits thread intent world' := by
  refine ⟨hafter.history, hsteady.held h.held, ?_⟩
  rcases h.grounds with ⟨row, hrow⟩ | hroom
  · obtain ⟨hstored, hid⟩ := h.history.action_eq_some hrow
    obtain ⟨last, hlast, -⟩ := hafter.history.action_of_stored (hsteady.keeps.stored _ hstored)
    rw [hid] at hlast
    exact .inl ⟨last, hlast⟩
  · exact .inr (hroom.fall h.history hafter.history hsteady.keeps (hsteady.counted h.held))

/-- Recording an action that is recorded already, or for which there is room. -/
theorem Limited.append {answer : Except ServiceError Bool}
    (h : Limited limits world) (hcanonical : CanonicalIntent intent) (howns : limits.Owns intent)
    (hgrounded : Grounded limits thread intent world)
    (happend : world.append (.actionIntent intent) = (answer, world')) :
    (∀ other, other ≠ thread → AdmissionSteady other world world') ∧ Limited limits world' := by
  rcases World.append_world h.history.synced happend with rfl | ⟨hfresh, rfl⟩
  · exact ⟨fun other _ ↦ admissionSteady_refl other _, h⟩
  · have hroom : limits.Room world.projection intent := by
      rcases hgrounded.grounds with ⟨row, hrow⟩ | hroom
      · obtain ⟨hmem, hid⟩ := lookup_mem hrow
        exact absurd hid (h.history.free_action hcanonical hfresh row hmem)
      · exact hroom
    have hrecord : Canonical (.actionIntent intent) := hcanonical
    have hhistory := h.history.append hrecord hfresh
    have hkeeps := h.history.keeps_append hfresh
    have honly : ∀ other,
        .actionIntent other ∈ (world.afterAppend (.actionIntent intent)).store.records →
        .actionIntent other ∈ world.store.records ∨ other = intent := by
      intro other hother
      rcases List.mem_append.mp hother with hold | hnew
      · exact .inl hold
      · exact .inr (Record.actionIntent.inj (List.mem_singleton.mp hnew))
    refine ⟨fun other hne ↦ ⟨hkeeps, fun hother ↦ hother, fun hother ↦ ?_⟩, hhistory, h.exclusive,
      fun other hother ↦ ?_, h.holds.add h.history hhistory hkeeps hroom honly⟩
    · exact absurd (h.exclusive other thread hother hgrounded.held) hne
    · rcases honly other hother with hold | rfl
      · exact h.owns other hold
      · exact howns

/-- Recording the action, once the count is taken, adds no more than there is room for. -/
theorem writeAction_limited (hcanonical : CanonicalIntent intent)
    (howns : limits.Owns intent) (hgrounded : Grounded limits thread intent world) :
    LimitSafe limits thread (writeAction intent) world := by
  have hrefl : ∀ state, Limited limits state →
      ∀ other, other ≠ thread → AdmissionSteady other state state :=
    fun state _ other _ ↦ admissionSteady_refl other state
  refine safe_ask hrefl fun state hrely hstate ↦ ?_
  have hgrounds := hgrounded.steady hrely hstate
  split
  · split_ifs
    · exact safe_ret fun _ _ _ ↦ trivial
    · exact safe_throw fun _ _ _ ↦ trivial
  have htask : Safe machine (Limited limits) thread (admissionContract thread)
      (requireOpenTask intent) (fun _ last ↦ Grounded limits thread intent last)
      (fun _ _ ↦ True) state := by
    unfold requireOpenTask
    split
    · exact safe_ret fun last hlast hafter ↦ hgrounds.steady hlast hafter
    · refine safe_ask hrefl fun middle hmiddle hafter ↦ ?_
      split_ifs
      · exact safe_throw fun _ _ _ ↦ trivial
      · exact safe_ret fun last hlast hfinal ↦ (hgrounds.steady hmiddle hafter).steady hlast hfinal
  refine safe_bind (htask.mono (fun _ ready _ hgrounds ↦ ?_) fun _ _ _ _ ↦ trivial) hstate
  obtain ⟨resume, heq, hresume⟩ := appendAdopting_await (fun _ ↦ False) .actionIntent asIntent intent
    fun recorded ↦ sameAction intent recorded && decide (recorded.actor = intent.actor)
  rw [heq]
  refine safe_await fun before hbefore hinv _ choice answer after hperform ↦ ?_
  have happend : before.append (.actionIntent intent) = (answer, after) := Option.some.inj hperform
  obtain ⟨hguar, hafter⟩ := hinv.append hcanonical howns (hgrounds.steady hbefore hinv) happend
  refine ⟨hguar, hafter, limited_uses (uses_bind ?_ fun _ ↦ trivial)⟩
  exact (hresume answer).mono (Local.unlimited fun _ h ↦ h.elim)

/-- An admission that finds its action missing has counted all that is live. -/
theorem Grounded.of_count {second : World}
    (hheld : (.sandboxAdmission, thread) ∈ world.held) (hinv : Limited limits world)
    (hsteady : AdmissionSteady thread world second) (hsecond : Limited limits second)
    (hcount : (world.projection.action intent.actionId).isNone = true →
      (∀ row ∈ second.projection.actions, row.intent.actionId ≠ intent.actionId) →
        limits.Room second.projection intent) : Grounded limits thread intent second := by
  refine ⟨hsecond.history, hsteady.held hheld, ?_⟩
  by_cases hrow : ∃ row, second.projection.action intent.actionId = some row
  · exact .inl hrow
  · refine .inr (hcount ?_ ?_)
    · rw [Option.isNone_iff_eq_none, Option.eq_none_iff_forall_ne_some]
      intro row hfirst
      obtain ⟨hstored, hid⟩ := hinv.history.action_eq_some hfirst
      obtain ⟨last, hlast, -⟩ := hsecond.history.action_of_stored (hsteady.keeps.stored _ hstored)
      exact hrow ⟨last, hid ▸ hlast⟩
    · exact lookup_eq_none.mp (Option.eq_none_iff_forall_ne_some.mpr fun row h ↦ hrow ⟨row, h⟩)

/-- What an admission does for a Sandbox whose action is recorded: the reservation, then the receipt
of a refusal or the dispatch fence. -/
def bookSandbox (intent : ActionIntent) : Act Bool :=
  match intent.payload.sandbox with
  | none => policyError "Sandbox create has no immutable policy"
  | some policy => do
    let reserved ← reserveSandbox intent.campaignId intent.actionId intent.createdAt
      policy.reservationMicrousd
    if !reserved then
      let refusal ← receipt intent
        { outcome := .failed
          observedState := "budget-rejected"
          errorCode := some "campaign_ceiling_exceeded" }
      let _ ← markAdvanced intent refusal
      policyError "Sandbox reservation exceeds the campaign ceiling"
    else
      let time ← now
      let (_, created) ← dispatchAction intent (time + 30000)
      return created

theorem uses_bookSandbox (intent : ActionIntent) : (bookSandbox intent).Uses Unlimited := by
  refine Uses.mono ?_ (Local.unlimited fun record (h : Uncounted record) ↦ h)
  unfold bookSandbox
  split
  · trivial
  refine uses_bind (uses_withQueue (uses_reserveSerialized
    (fun _ ↦ books_uncounted.budget _) fun _ ↦ books_uncounted.budget _)) fun reserved ↦ ?_
  split
  · exact uses_bind (uses_receipt fun _ ↦ uncounted_other fun _ heq ↦ by cases heq)
      fun refusal ↦ uses_bind (uses_markAny books_uncounted intent refusal) fun _ ↦ trivial
  · exact uses_bind uses_now fun _ ↦
      uses_bind (uses_dispatchAction fun _ _ ↦ books_uncounted.dispatch _) fun _ ↦ trivial

theorem admitSandboxCreateSerialized_limited {maximum : ℕ}
    (hcanonical : CanonicalIntent intent) (hmaximum : maximum ≤ limits.sandboxes intent.campaignId)
    (hheld : (.sandboxAdmission, thread) ∈ world.held) :
    LimitSafe limits thread (admitSandboxCreateSerialized intent maximum) world := by
  have hrefl : ∀ state, Limited limits state →
      ∀ other, other ≠ thread → AdmissionSteady other state state :=
    fun state _ other _ ↦ admissionSteady_refl other state
  unfold admitSandboxCreateSerialized
  split
  · exact safe_throw fun _ _ _ ↦ trivial
  next hvalid =>
  have hkind : intent.actionKind = .sandboxCreate := by
    by_contra hkind
    exact hvalid (.inl hkind)
  refine safe_ask hrefl fun first hfirst hinvFirst ↦ ?_
  split
  · exact safe_throw fun _ _ _ ↦ trivial
  split
  · exact safe_throw fun _ _ _ ↦ trivial
  refine safe_ask hrefl fun second hsecond hinvSecond ↦ ?_
  split
  · exact safe_throw fun _ _ _ ↦ trivial
  next hroom =>
  have hgrounded : Grounded limits thread intent second := by
    refine .of_count (hfirst.held hheld) hinvFirst hsecond hinvSecond fun hnone hmissing ↦ ?_
    refine ⟨fun _ ↦ ?_, fun hexec ↦ absurd (hkind.symm.trans hexec) (by decide)⟩
    have hcount : openCreates (second.projection.campaignActions intent.campaignId) intent.actionId =
        liveCreates (second.projection.campaignActions intent.campaignId) :=
      openCreates_eq fun row hrow ↦ hmissing row (mem_campaignActions.mp hrow).1
    rw [← hcount]
    by_contra hfull
    exact hroom ⟨hnone, hmaximum.trans (Nat.le_of_not_lt hfull)⟩
  exact safe_bind ((writeAction_limited hcanonical
    (fun hexec ↦ absurd (hkind.symm.trans hexec) (by decide)) hgrounded).mono
    (fun _ after _ _ ↦ limited_uses (uses_bookSandbox intent)) fun _ _ _ _ ↦ trivial) hinvSecond

theorem Limited.liveCommands_le (h : Limited limits world) (sandboxId : String) :
    (liveCommands world.projection.actions sandboxId).length ≤
      (liveCommands (world.projection.campaignActions (limits.campaignOf sandboxId))
        sandboxId).length := by
  have hkeyed : Keyed actionKey (liveCommands world.projection.actions sandboxId) :=
    h.history.actions.keyed.sublist List.filter_sublist
  refine hkeyed.length_le fun row hrow ↦ ⟨row, ?_, rfl⟩
  obtain ⟨hmem, hkind, hfailed, hsandbox⟩ := mem_liveCommands.mp hrow
  have howner := h.owns _ (h.history.actions.stored row hmem) hkind sandboxId hsandbox
  exact mem_liveCommands.mpr
    ⟨mem_campaignActions.mpr ⟨hmem, howner.symm⟩, hkind, hfailed, hsandbox⟩

theorem admitSandboxCommandSerialized_limited {sandboxId : String}
    {maximum : ℕ} (hcanonical : CanonicalIntent intent)
    (hsandbox : intent.payload.sandboxCreateActionId = some sandboxId)
    (howner : limits.campaignOf sandboxId = intent.campaignId)
    (hmaximum : maximum ≤ limits.commands sandboxId)
    (hheld : (.sandboxAdmission, thread) ∈ world.held) :
    LimitSafe limits thread (admitSandboxCommandSerialized intent maximum) world := by
  have hrefl : ∀ state, Limited limits state →
      ∀ other, other ≠ thread → AdmissionSteady other state state :=
    fun state _ other _ ↦ admissionSteady_refl other state
  unfold admitSandboxCommandSerialized
  rw [hsandbox]
  dsimp only
  split
  · exact safe_throw fun _ _ _ ↦ trivial
  next hvalid =>
  have hkind : intent.actionKind = .sandboxExec := by
    by_contra hkind
    exact hvalid (.inl hkind)
  refine safe_ask hrefl fun first hfirst hinvFirst ↦ ?_
  refine safe_ask hrefl fun second hsecond hinvSecond ↦ ?_
  split
  · exact safe_throw fun _ _ _ ↦ trivial
  next hroom =>
  refine writeAction_limited hcanonical ?_ ?_
  · intro _ other hother
    rw [hsandbox] at hother
    exact Option.some.inj hother ▸ howner
  refine .of_count (hfirst.held hheld) hinvFirst hsecond hinvSecond fun hnone hmissing ↦ ?_
  refine ⟨fun hcreate ↦ absurd (hkind.symm.trans hcreate) (by decide), fun _ other hother ↦ ?_⟩
  have hsame : sandboxId = other := by
    rw [hsandbox] at hother
    exact Option.some.inj hother
  have hcount : countedCommands (second.projection.campaignActions intent.campaignId)
      intent.actionId sandboxId =
        liveCommands (second.projection.campaignActions intent.campaignId) sandboxId :=
    countedCommands_eq fun row hrow ↦ hmissing row (mem_campaignActions.mp hrow).1
  have hle := hinvSecond.liveCommands_le sandboxId
  rw [howner, ← hcount] at hle
  rw [← hsame]
  by_contra hfull
  exact hroom ⟨hnone, hmaximum.trans ((Nat.le_of_not_lt hfull).trans hle)⟩

/-- An admission holds the queue while it counts and records. -/
theorem withQueue_limited {method : Act α}
    (hmethod : ∀ state, Limited limits state → (.sandboxAdmission, thread) ∈ state.held →
      LimitSafe limits thread method state) :
    LimitSafe limits thread (withQueue .sandboxAdmission method) world := by
  refine safe_withQueue (fun state ↦ (.sandboxAdmission, thread) ∈ state.held) ?_ hmethod ?_ ?_
  · intro before _ hbefore hfree
    have honly : ∀ holder,
        (Queue.sandboxAdmission, holder) ∈ (.sandboxAdmission, thread) :: before.held →
        holder = thread := by
      intro holder hholder
      rcases List.mem_cons.mp hholder with heq | hold
      · exact (Prod.mk.inj heq).2
      · exact absurd hold (hfree holder)
    refine ⟨fun other _ ↦ ⟨⟨Stored.refl _, fun _ hrow _ ↦ hrow⟩,
        fun hheld ↦ List.mem_cons_of_mem _ hheld, fun _ _ hstored _ ↦ hstored⟩,
      ⟨hbefore.history.of_held _, ?_, hbefore.owns, hbefore.holds⟩, List.mem_cons_self⟩
    exact fun first second hfirst hsecond ↦ by rw [honly first hfirst, honly second hsecond]
  · intro before hbefore
    refine ⟨fun other hne ↦ ⟨⟨Stored.refl _, fun _ hrow _ ↦ hrow⟩, fun hheld ↦ ?_,
        fun _ _ hstored _ ↦ hstored⟩,
      ⟨hbefore.history.of_held _, ?_, hbefore.owns, hbefore.holds⟩, fun _ _ _ _ _ ↦ trivial,
      fun _ _ _ _ _ ↦ trivial⟩
    · exact List.mem_filter.mpr ⟨hheld, decide_eq_true fun heq ↦ hne (Prod.mk.inj heq).2⟩
    · exact fun first second hfirst hsecond ↦ hbefore.exclusive first second
        (List.mem_of_mem_filter hfirst) (List.mem_of_mem_filter hsecond)
  · exact fun _ _ _ _ ↦ ⟨fun _ _ ↦ trivial, fun _ _ ↦ trivial⟩

/-- Every client of the admissions keeps the limits. -/
theorem SandboxClient.safe {program : Act α} (h : SandboxClient limits program)
    (hinv : Limited limits world) : LimitSafe limits thread program world := by
  induction h generalizing world with
  | ret value => exact safe_ret fun _ _ _ ↦ trivial
  | throw error => exact safe_throw fun _ _ _ ↦ trivial
  | await op hop hresume ih =>
    refine safe_await fun before _ hbefore _ choice answer after hperform ↦ ?_
    obtain ⟨hafter, hguar, -⟩ := hbefore.perform hop hperform
    exact ⟨hguar, hafter, ih answer hafter⟩
  | bind hprogram hnext ih ihnext =>
    exact safe_bind ((ih hinv).mono (fun value after hafter _ ↦ ihnext value hafter)
      fun _ _ _ _ ↦ trivial) hinv
  | «catch» hprogram ih =>
    exact safe_attempt ((ih hinv).mono (fun _ _ _ _ ↦ trivial) fun _ _ _ _ ↦ trivial)
  | admitCreate hcanonical hmaximum =>
    exact withQueue_limited fun state hstate hheld ↦
      admitSandboxCreateSerialized_limited hcanonical hmaximum hheld
  | admitCommand hcanonical hsandbox howner hmaximum =>
    exact withQueue_limited fun state hstate hheld ↦
      admitSandboxCommandSerialized_limited hcanonical hsandbox howner hmaximum hheld

theorem admission_compatible :
    Compatible machine ThreadRole.conflict (Limited limits) (fun _ _ ↦ True)
      (fun _ index ↦ admissionContract index) where
  symm role role' := by cases role <;> cases role' <;> rfl
  rely_of_guar hne _ _ _ hguar := hguar _ (Ne.symm hne)
  idle_of_guar _ _ _ := trivial
  restart := by
    intro before after hinv hrestart
    have hhistory := (history_of_restart hinv.history.canonical hrestart).1
    have hkeeps := hinv.history.keeps_restart hrestart
    obtain ⟨-, -, -, rfl⟩ := World.restart_eq_some.mp hrestart
    refine ⟨⟨hhistory, fun _ _ h ↦ absurd h List.not_mem_nil, hinv.owns, ?_⟩, fun _ _ ↦ trivial⟩
    exact hinv.holds.fall hinv.history hhistory hkeeps fun _ hstored _ ↦ hstored

/-! ### Refusals for the count -/

/-- The errors of an admission over a limit. -/
def CountRefusal (error : ServiceError) : Prop :=
  error = .policy "Sandbox count exceeds immutable policy" ∨
    error = .policy "Sandbox command count exceeds immutable policy"

omit [Digests] in
theorem not_countRefusal_policy {message : String}
    (hsandbox : message ≠ "Sandbox count exceeds immutable policy")
    (hcommand : message ≠ "Sandbox command count exceeds immutable policy") :
    ¬ CountRefusal (.policy message) := by
  rintro (h | h)
  · exact hsandbox (ServiceError.policy.inj h)
  · exact hcommand (ServiceError.policy.inj h)

omit [Digests] in
theorem not_countRefusal_conflict (message : String) :
    ¬ CountRefusal (.idempotencyConflict message) := by
  rintro (h | h) <;> cases h

/-- The operations answer no such error. -/
def Replies : (op : Op) → op.Ans → Prop
  | .append _, answer => ∀ error, answer = .error error → ¬ CountRefusal error
  | .syncProjection, answer => ∀ error, answer = .error error → ¬ CountRefusal error
  | _, _ => True

/-- A program that does not refuse for the count. -/
abbrev Unrefused (program : Act α) : Prop := program.Throws Replies (fun error ↦ ¬ CountRefusal error)

omit [Digests] in
theorem unrefused_append (record : Record) : Unrefused (append record) :=
  fun _ hanswer ↦ throws_ofExcept hanswer

omit [Digests] in
theorem unrefused_withQueue {queue : Queue} {method : Act α} (h : Unrefused method) :
    Unrefused (withQueue queue method) := by
  refine fun _ _ ↦ throws_attempt_bind h (fun value _ _ ↦ trivial) fun error hallowed _ _ ↦ hallowed

omit [Digests] in
theorem unrefused_appendAdopting {τ : Type} {wrap : τ → Record} {unwrap : Record → Option τ} {record : τ}
    {equivalent : τ → Bool} : Unrefused (appendAdopting wrap unwrap record equivalent) := by
  refine throws_attempt_bind (unrefused_append _) (fun _ ↦ trivial) fun error hallowed ↦ ?_
  cases error with
  | immutableConflict key =>
    intro existing _
    dsimp only [Program.bind]
    split
    · exact not_countRefusal_conflict _
    · split_ifs
      · exact throws_bind (fun _ hanswer ↦ throws_ofExcept hanswer) fun _ ↦ trivial
      · exact not_countRefusal_conflict _
  | _ => exact hallowed

omit [Digests] in
theorem unrefused_reserveSerialized {campaignId recordId overageId conflict : String}
    {createdAt amount : ℕ} :
    Unrefused (reserveSerialized campaignId recordId overageId conflict createdAt amount) := by
  intro existing _
  dsimp only [Program.bind]
  split
  · split_ifs
    · exact not_countRefusal_conflict _
    · trivial
  · intro campaign _
    dsimp only [Program.bind]
    split
    · exact not_countRefusal_policy (by decide) (by decide)
    · split_ifs
      · trivial
      · refine throws_bind ?_ fun _ ↦ throws_bind (unrefused_append _) fun _ ↦ trivial
        unfold catchUp
        split_ifs
        · exact throws_bind (unrefused_append _) fun _ ↦ trivial
        · trivial

theorem unrefused_settleSandbox (intent : ActionIntent) (receipt : ActionReceipt) :
    Unrefused (settleSandbox intent receipt) := by
  unfold settleSandbox
  split
  next error herror =>
    unfold finalization at herror
    split_ifs at herror
    · split at herror <;> cases herror
      exact not_countRefusal_policy (by decide) (by decide)
    · split at herror <;> cases herror
      exact not_countRefusal_policy (by decide) (by decide)
  · trivial
  · refine unrefused_withQueue fun existing _ ↦ ?_
    dsimp only [Program.bind]
    split
    · split_ifs
      · exact not_countRefusal_conflict _
      · trivial
    · intro campaign _
      dsimp only [Program.bind]
      split
      · exact not_countRefusal_policy (by decide) (by decide)
      · exact throws_bind (unrefused_append _) fun _ ↦ throws_bind (unrefused_append _) fun _ ↦ trivial

theorem unrefused_markAdvanced (intent : ActionIntent) (receipt : ActionReceipt) :
    Unrefused (markAdvanced intent receipt) := by
  unfold markAdvanced
  split_ifs
  · exact not_countRefusal_policy (by decide) (by decide)
  · exact throws_bind (unrefused_settleSandbox _ _) fun _ ↦
      throws_bind unrefused_appendAdopting fun _ ↦ trivial

theorem unrefused_dispatchAction (intent : ActionIntent) (adoptionNotBefore : ℕ) :
    Unrefused (dispatchAction intent adoptionNotBefore) := by
  unfold dispatchAction
  split
  · exact not_countRefusal_policy (by decide) (by decide)
  · intro existing _
    dsimp only [Program.bind]
    split
    · trivial
    · intro createdAt _
      dsimp only [Program.bind]
      exact throws_bind unrefused_appendAdopting fun _ ↦ trivial

theorem unrefused_bookSandbox (intent : ActionIntent) : Unrefused (bookSandbox intent) := by
  unfold bookSandbox
  split
  · exact not_countRefusal_policy (by decide) (by decide)
  refine throws_bind (unrefused_withQueue unrefused_reserveSerialized) fun reserved ↦ ?_
  split
  · refine throws_bind ?_ fun refusal ↦ throws_bind (unrefused_markAdvanced intent refusal) fun _ ↦ ?_
    · intro createdAt _
      dsimp only [Program.bind]
      exact throws_bind unrefused_appendAdopting fun _ ↦ trivial
    · exact not_countRefusal_policy (by decide) (by decide)
  · intro time _
    dsimp only [Program.bind]
    exact throws_bind (unrefused_dispatchAction _ _) fun _ ↦ trivial

/-- The service's own operations answer no refusal for the count. -/
theorem History.replies (h : History world) {op : Op} {choice : Choice} {answer : op.Ans}
    (hperform : World.perform thread op choice world = some (answer, world')) :
    Replies op answer := by
  cases op with
  | append record =>
    have happend : world.append record = (answer, world') := Option.some.inj hperform
    intro error herror
    subst herror
    cases World.append_spec h.synced happend with
    | unverified => exact not_countRefusal_policy (by decide) (by decide)
    | _ => rintro (h | h) <;> cases h
  | syncProjection =>
    have hsync : world.syncProjection = (answer, world') := Option.some.inj hperform
    rw [h.synced.syncProjection] at hsync
    intro error herror
    rw [herror] at hsync
    cases (Prod.mk.inj hsync).1
  | _ => trivial

/-- A part of the service's work that refuses no count, among the other work. -/
abbrev UnrefusedSafe (thread : ℕ) (program : Act α) (world : World) : Prop :=
  Safe machine History thread historyContract program (fun _ _ ↦ True)
    (fun error _ ↦ ¬ CountRefusal error) world

theorem unrefusedSafe_of_unrefused {program : Act α} (huses : program.Uses Unlimited)
    (hunrefused : Unrefused program) : UnrefusedSafe thread program world := by
  have hsafe : Safe machine History thread historyContract program (fun _ _ ↦ True)
      (fun _ _ ↦ True) world := by
    refine safe_of_uses huses (fun _ _ _ _ (h : True) ↦ h) ?_ trivial
    intro op hop before hbefore _ _ choice answer after hperform
    obtain ⟨hafter, hstored⟩ := hbefore.perform hop.own hperform
    exact ⟨hstored, hafter, trivial⟩
  refine (hsafe.throws hunrefused ?_).mono (fun _ _ _ _ ↦ trivial) fun _ _ _ h ↦ h.2
  exact fun op before choice answer after hbefore hperform ↦ hbefore.replies hperform

/-- The action is recorded. -/
def HasAction (actionId : String) (world : World) : Prop :=
  ∃ row, world.projection.action actionId = some row

omit [Digests] in
theorem HasAction.not_isNone {actionId : String} (h : HasAction actionId world) :
    ¬ (((Query.action actionId).answer world.projection : Option ActionRow).isNone = true) := by
  obtain ⟨row, hfound⟩ := h
  rw [show (Query.action actionId).answer world.projection = some row from hfound]
  exact nofun

theorem HasAction.later {actionId : String} (h : HasAction actionId world) (hbefore : History world)
    (hafter : History world') (hstored : Stored world world') : HasAction actionId world' := by
  obtain ⟨row, hrow⟩ := h
  obtain ⟨hrecord, hid⟩ := hbefore.action_eq_some hrow
  obtain ⟨last, hlast, -⟩ := hafter.action_of_stored (hstored _ hrecord)
  exact ⟨last, hid ▸ hlast⟩

theorem writeAction_unrefused (hinv : History world)
    (hrecorded : HasAction intent.actionId world) : UnrefusedSafe thread (writeAction intent) world := by
  refine safe_ask (fun state _ ↦ Stored.refl state) fun state hrely hstate ↦ ?_
  obtain ⟨row, hrow⟩ := hrecorded.later hinv hstate hrely
  rw [show (Query.action intent.actionId).answer state.projection = some row from hrow]
  dsimp only
  split_ifs
  · exact safe_ret fun _ _ _ ↦ trivial
  · exact safe_throw fun _ _ _ ↦ not_countRefusal_conflict _

theorem withQueue_unrefused {actionId : String} {method : Act α} (hinv : History world)
    (hrecorded : HasAction actionId world)
    (hmethod : ∀ state, History state → HasAction actionId state → UnrefusedSafe thread method state) :
    UnrefusedSafe thread (withQueue .sandboxAdmission method) world := by
  refine safe_withQueue (HasAction actionId) ?_ hmethod ?_ ?_
  · exact fun before hrely hbefore _ ↦
      ⟨Stored.refl _, hbefore.of_held _, show HasAction actionId before from
        hrecorded.later hinv hbefore hrely⟩
  · exact fun before hbefore ↦ ⟨Stored.refl _, hbefore.of_held _, fun _ _ _ _ _ ↦ trivial,
      fun error hunrefused _ _ _ ↦ hunrefused⟩
  · exact fun _ _ _ _ ↦ ⟨fun _ _ ↦ trivial, fun _ hunrefused ↦ hunrefused⟩

/-- A repeated admission of a Sandbox is not refused for the count. -/
theorem admitSandboxCreate_unrefused {maximum : ℕ} (hinv : History world)
    (hrecorded : HasAction intent.actionId world) :
    UnrefusedSafe thread (admitSandboxCreate intent maximum) world := by
  refine withQueue_unrefused hinv hrecorded fun state hstate hrow ↦ ?_
  unfold admitSandboxCreateSerialized
  split
  · exact safe_throw fun _ _ _ ↦ not_countRefusal_policy (by decide) (by decide)
  refine safe_ask (fun state _ ↦ Stored.refl state) fun first hfirst hinvFirst ↦ ?_
  have hrowFirst := hrow.later hstate hinvFirst hfirst
  split
  · exact safe_throw fun _ _ _ ↦ not_countRefusal_policy (by decide) (by decide)
  split
  · exact safe_throw fun _ _ _ ↦ not_countRefusal_policy (by decide) (by decide)
  refine safe_ask (fun state _ ↦ Stored.refl state) fun second hsecond hinvSecond ↦ ?_
  split
  next hrefused => exact absurd hrefused.1 hrowFirst.not_isNone
  exact safe_bind ((writeAction_unrefused hinvSecond (hrowFirst.later hinvFirst hinvSecond hsecond)).mono
    (fun _ after _ _ ↦
      unrefusedSafe_of_unrefused (uses_bookSandbox intent) (unrefused_bookSandbox intent))
    fun _ _ _ hunrefused ↦ hunrefused) hinvSecond

/-- Nor is a repeated admission of a command. -/
theorem admitSandboxCommand_unrefused {maximum : ℕ} (hinv : History world)
    (hrecorded : HasAction intent.actionId world) :
    UnrefusedSafe thread (admitSandboxCommand intent maximum) world := by
  refine withQueue_unrefused hinv hrecorded fun state hstate hrow ↦ ?_
  unfold admitSandboxCommandSerialized
  split
  · exact safe_throw fun _ _ _ ↦ not_countRefusal_policy (by decide) (by decide)
  split
  · exact safe_throw fun _ _ _ ↦ not_countRefusal_policy (by decide) (by decide)
  refine safe_ask (fun state _ ↦ Stored.refl state) fun first hfirst hinvFirst ↦ ?_
  have hrowFirst := hrow.later hstate hinvFirst hfirst
  refine safe_ask (fun state _ ↦ Stored.refl state) fun second hsecond hinvSecond ↦ ?_
  split
  next hrefused => exact absurd hrefused.1 hrowFirst.not_isNone
  exact writeAction_unrefused hinvSecond (hrowFirst.later hinvFirst hinvSecond hsecond)

/-- The configurations of runs of clients of the admissions, from a history within the limits. -/
def AdmissionRun (limits : SandboxLimits) : Config interface ServiceError ThreadRole World → Prop :=
  Reachable machine ThreadRole.conflict (Limited limits)
    (fun _ program ↦ SandboxClient limits program) (fun _ _ _ ↦ True)

/-- In every run of clients of the admissions the counts of Sandboxes and of commands are within the
limits, an action has one row, and an admission of a recorded action is not refused for the count. -/
theorem sandbox_limits {limits : SandboxLimits}
    {config : Config interface ServiceError ThreadRole World} (h : AdmissionRun limits config) :
    (∀ campaignId, (liveCreates (config.state.projection.campaignActions campaignId)).length ≤
      limits.sandboxes campaignId) ∧
    (∀ sandboxId, (liveCommands config.state.projection.actions sandboxId).length ≤
      limits.commands sandboxId) ∧
    Keyed actionKey config.state.projection.actions ∧
    ∀ (thread : ℕ) (intent : ActionIntent) (maximum : ℕ) (last : World),
      (∃ row ∈ config.state.projection.actions, row.intent.actionId = intent.actionId) →
        (∀ outcome, machine.Call (machine.Steps Own) thread (admitSandboxCreate intent maximum)
          config.state outcome last →
            outcome ≠ .error (.policy "Sandbox count exceeds immutable policy")) ∧
        ∀ outcome, machine.Call (machine.Steps Own) thread (admitSandboxCommand intent maximum)
          config.state outcome last →
            outcome ≠ .error (.policy "Sandbox command count exceeds immutable policy") := by
  have hlimited : Limited limits config.state := by
    refine (reachable_sound admission_compatible (fun _ hstart ↦ ⟨hstart, fun _ ↦ trivial⟩) ?_ ?_
      h).holds
    · exact fun _ _ hclient _ _ hstate _ ↦ hclient.safe hstate
    · exact fun _ _ _ _ _ _ _ ↦ trivial
  have hhistory := hlimited.history
  refine ⟨hlimited.holds.sandboxes, hlimited.holds.commands, hhistory.actions.keyed, ?_⟩
  rintro thread intent maximum last ⟨row, hrow, hid⟩
  have hrecorded : HasAction intent.actionId config.state :=
    ⟨row, hhistory.actions.keyed.lookup_eq_some.mpr ⟨hrow, hid⟩⟩
  constructor
  · intro outcome hcall herror
    have hends := (hhistory.call (admitSandboxCreate_unrefused hhistory hrecorded) hcall).2
    rw [herror] at hends
    exact hends (.inl rfl)
  · intro outcome hcall herror
    have hends := (hhistory.call (admitSandboxCommand_unrefused hhistory hrecorded) hcall).2
    rw [herror] at hends
    exact hends (.inr rfl)

end

/-! ### A campaign with room for one Sandbox -/

section

local instance admissionDigests : Digests := plainDigests

/-- One Sandbox at a time, and two commands in it. -/
def admissionLimits : SandboxLimits := ⟨fun _ ↦ 1, fun _ ↦ 2, fun _ ↦ "c"⟩

/-- The store of a campaign's lock. -/
def admissionStored : World :=
  ⟨⟨[.campaignLock
    { recordId := "k"
      createdAt := 1
      actor := serviceActor
      campaignId := "c"
      profiles := []
      tasks := [⟨"t", "", none, none⟩]
      ceilingMicrousd := 100
      sourceRevision := "" }], [], []⟩, {}, []⟩

def admissionWorld : World :=
  { admissionStored with projection := { admissionStored.rebuilt with ready := true } }

theorem admissionWorld_limited : Limited admissionLimits admissionWorld where
  history := by
    have hcanonical : ∀ record ∈ admissionStored.store.records, Canonical record := by
      intro record hrecord
      cases List.mem_singleton.mp hrecord
      trivial
    exact (history_of_restart hcanonical (by decide +kernel)).1
  exclusive := fun _ _ h ↦ absurd h List.not_mem_nil
  owns := fun intent hstored ↦ by cases List.mem_singleton.mp hstored
  holds := by
    have hnone : admissionWorld.projection.actions = [] := by decide +kernel
    constructor
    · intro campaignId
      simp [liveCreates, Projection.campaignActions, hnone]
    · intro sandboxId
      simp [liveCommands, hnone]

/-- The creation of a Sandbox that costs at most 50. -/
def admittedCreate : ActionIntent :=
  actionIntent "c" .sandboxCreate "sandbox:t" 0
    { taskId := some "t", sandbox := some deletedPolicy } serviceActor 2

def admissionEvents : List (Event interface ServiceError ThreadRole Choice) :=
  .spawn .api (do
    let _ ← admitSandboxCreate admittedCreate 1
    return ()) :: List.replicate 16 (.run 0 {})

/-- After the only Sandbox is admitted, the same admission is accepted again. -/
theorem sandbox_limits_sample : ∃ (config : Config interface ServiceError ThreadRole World)
      (outcome : Except ServiceError Bool) (last : World),
      AdmissionRun admissionLimits config ∧
      (liveCreates (config.state.projection.campaignActions "c")).length = 1 ∧
      (liveCreates (config.state.projection.campaignActions "c")).length ≤
        admissionLimits.sandboxes "c" ∧
      machine.Call (machine.Steps Own) 1 (admitSandboxCreate admittedCreate 1) config.state outcome
        last ∧
      outcome ≠ .error (.policy "Sandbox count exceeds immutable policy") := by
  have hsummary : ((Config.initial admissionWorld).run machine ThreadRole.conflict
      admissionEvents).map (fun config ↦
        (decide (∃ row ∈ config.state.projection.actions,
          row.intent.actionId = admittedCreate.actionId),
        (liveCreates (config.state.projection.campaignActions "c")).length,
        (machine.eval 1 {} (admitSandboxCreate admittedCreate 1) config.state).1)) =
      some (true, 1, some (.ok false)) := by decide +kernel
  obtain ⟨config, hrun, hvalues⟩ := Option.map_eq_some_iff.mp hsummary
  obtain ⟨hrow, hcount, hanswer⟩ : _ ∧ _ ∧ _ :=
    ⟨(Prod.mk.inj hvalues).1, (Prod.mk.inj (Prod.mk.inj hvalues).2).1,
      (Prod.mk.inj (Prod.mk.inj hvalues).2).2⟩
  have hadmitted : AdmissionRun admissionLimits config := by
    refine reachable_of_run admissionEvents (.start admissionWorld_limited) ?_ hrun
    intro event hevent
    rcases List.mem_cons.mp hevent with rfl | hrest
    · exact .bind (.admitCreate rfl (Nat.le_refl 1)) fun _ ↦ .ret _
    · rw [List.eq_of_mem_replicate hrest]
      trivial
  have hcall : machine.Call (machine.Steps Own) 1 (admitSandboxCreate admittedCreate 1)
      config.state (.ok false) (machine.eval 1 {} (admitSandboxCreate admittedCreate 1)
        config.state).2 := Machine.call_of_eval (fun _ ↦ .refl) (Prod.ext hanswer rfl)
  obtain ⟨hsandboxes, -, -, hrepeat⟩ := sandbox_limits hadmitted
  exact ⟨config, _, _, hadmitted, hcount, hsandboxes "c", hcall,
    (hrepeat 1 admittedCreate 1 _ (of_decide_eq_true hrow)).1 _ hcall⟩

end

end HarborHF.Control
