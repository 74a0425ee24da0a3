import HarborHF.Async.Call
import HarborHF.Control.Accounts
import HarborHF.Control.Footprints
import HarborHF.Control.Rules

/-!
# The tables as a history

The rows of campaigns and actions are those of the stored records: a campaign shows exactly the lock
and the request that are stored for it, and every stored intent has its own row (`History`). The
service builds the identity of an action from its campaign, kind, target and generation
(`CanonicalIntent`), so that two stored intents never compete for a row.

In such a state a query of these tables answers from the store (`campaignLock_eq_some`,
`campaignRequest_eq_some`, `action_eq_some`, `action_eq_none`). The store only grows
(`Stored`), so an answer that names a record stays true in every later state
(`History.later`).
-/

set_option autoImplicit false

namespace HarborHF.Control

open Async Program Relational Projection

/-! ### Campaign rows -/

/-- Change the row of a campaign, or insert its first row. -/
def upsert (campaignId : String) (fresh : CampaignRow) (change : CampaignRow → CampaignRow)
    (rows : List CampaignRow) : List CampaignRow :=
  match lookup CampaignRow.campaignId campaignId rows with
  | none => rows ++ [fresh]
  | some _ => rows.map fun row ↦ if row.campaignId = campaignId then change row else row

/-- A field of the campaign rows shows the stored record of its kind. -/
structure Shows {τ : Type} (field : CampaignRow → Option τ) (wrap : τ → Record)
    (campaign : τ → String) (records : List Record) (rows : List CampaignRow) : Prop where
  field_iff : ∀ row ∈ rows, ∀ value, field row = some value ↔
    wrap value ∈ records ∧ campaign value = row.campaignId
  present : ∀ value, wrap value ∈ records → ∃ row ∈ rows, row.campaignId = campaign value

section

variable {campaignId : String} {fresh : CampaignRow} {change : CampaignRow → CampaignRow}
  {rows : List CampaignRow} {records : List Record}

theorem keyed_upsert (hfresh : fresh.campaignId = campaignId)
    (hchange : ∀ row, (change row).campaignId = row.campaignId)
    (hkeyed : Keyed CampaignRow.campaignId rows) :
    Keyed CampaignRow.campaignId (upsert campaignId fresh change rows) := by
  unfold upsert
  cases hlookup : lookup CampaignRow.campaignId campaignId rows with
  | none =>
    refine hkeyed.insertRow (insertRow_eq_some.mpr ⟨fun row hrow ↦ ?_, rfl⟩)
    rw [hfresh]
    exact lookup_eq_none.mp hlookup row hrow
  | some found =>
    refine keyed_map (fun row ↦ ?_) hkeyed
    split_ifs
    · exact hchange row
    · rfl

/-- Where a row comes from: another campaign's, the changed row of this one, or the fresh row. -/
theorem mem_upsert {row : CampaignRow} (h : row ∈ upsert campaignId fresh change rows) :
    (row ∈ rows ∧ row.campaignId ≠ campaignId) ∨
      (∃ old ∈ rows, old.campaignId = campaignId ∧ row = change old) ∨
        (row = fresh ∧ ∀ other ∈ rows, other.campaignId ≠ campaignId) := by
  unfold upsert at h
  cases hlookup : lookup CampaignRow.campaignId campaignId rows with
  | none =>
    have hfree := lookup_eq_none.mp hlookup
    rw [hlookup] at h
    rcases List.mem_append.mp h with hold | hnew
    · exact .inl ⟨hold, hfree row hold⟩
    · exact .inr (.inr ⟨List.mem_singleton.mp hnew, hfree⟩)
  | some found =>
    rw [hlookup] at h
    obtain ⟨old, hold, rfl⟩ := List.mem_map.mp h
    by_cases hname : old.campaignId = campaignId
    · rw [if_pos hname]
      exact .inr (.inl ⟨old, hold, hname, rfl⟩)
    · rw [if_neg hname]
      exact .inl ⟨hold, hname⟩

theorem exists_upsert (hfresh : fresh.campaignId = campaignId)
    (hchange : ∀ row, (change row).campaignId = row.campaignId) {name : String}
    (h : name = campaignId ∨ ∃ row ∈ rows, row.campaignId = name) :
    ∃ row ∈ upsert campaignId fresh change rows, row.campaignId = name := by
  unfold upsert
  cases hlookup : lookup CampaignRow.campaignId campaignId rows with
  | none =>
    rcases h with rfl | ⟨row, hrow, hname⟩
    · exact ⟨fresh, List.mem_append_right rows List.mem_cons_self, hfresh⟩
    · exact ⟨row, List.mem_append_left _ hrow, hname⟩
  | some found =>
    obtain ⟨row, hrow, hname⟩ : ∃ row ∈ rows, row.campaignId = name := by
      rcases h with rfl | hrow
      · exact ⟨found, lookup_mem hlookup⟩
      · exact hrow
    refine ⟨_, List.mem_map_of_mem hrow, ?_⟩
    split_ifs
    · exact (hchange row).trans hname
    · exact hname

variable {τ : Type} {field : CampaignRow → Option τ} {wrap : τ → Record} {campaign : τ → String}

/-- A fresh record of the field's kind is what the row of its campaign shows. -/
theorem Shows.set {value : τ} (h : Shows field wrap campaign records rows)
    (hinj : ∀ first second, wrap first = wrap second → first = second)
    (hname : campaign value = campaignId) (hrow : fresh.campaignId = campaignId)
    (hfree : ∀ other, wrap other ∈ records → campaign other ≠ campaignId)
    (hchange : ∀ row, (change row).campaignId = row.campaignId)
    (hfresh : field fresh = some value) (hset : ∀ row, field (change row) = some value) :
    Shows field wrap campaign (records ++ [wrap value]) (upsert campaignId fresh change rows) := by
  have hmem : ∀ other, wrap other ∈ records ++ [wrap value] ↔
      wrap other ∈ records ∨ other = value := by
    intro other
    rw [List.mem_append, List.mem_singleton]
    exact or_congr_right ⟨hinj other value, congrArg wrap⟩
  have hown : ∀ other, some value = some other ↔
      wrap other ∈ records ++ [wrap value] ∧ campaign other = campaignId := by
    intro other
    rw [hmem, Option.some.injEq]
    constructor
    · rintro rfl
      exact ⟨.inr rfl, hname⟩
    · rintro ⟨hold | rfl, hcampaign⟩
      · exact absurd hcampaign (hfree other hold)
      · rfl
  constructor
  · intro row hmemRow other
    rcases mem_upsert hmemRow with ⟨hold, hne⟩ | ⟨old, -, hsame, rfl⟩ | ⟨rfl, -⟩
    · rw [h.field_iff row hold, hmem]
      constructor
      · exact fun hother ↦ ⟨.inl hother.1, hother.2⟩
      · rintro ⟨hother | rfl, hcampaign⟩
        · exact ⟨hother, hcampaign⟩
        · exact absurd (hcampaign.symm.trans hname) hne
    · rw [hset, hown, hchange, hsame]
    · rw [hfresh, hown, hrow]
  · intro other hother
    refine exists_upsert hrow hchange ?_
    rcases (hmem other).mp hother with hold | rfl
    · exact .inr (h.present other hold)
    · exact .inl hname

/-- A record of another kind leaves what the field shows. -/
theorem Shows.keep {record : Record} (h : Shows field wrap campaign records rows)
    (hother : ∀ value, record ≠ wrap value) (hrow : fresh.campaignId = campaignId)
    (hchange : ∀ row, (change row).campaignId = row.campaignId) (hfresh : field fresh = none)
    (hkeep : ∀ row, field (change row) = field row) :
    Shows field wrap campaign (records ++ [record]) (upsert campaignId fresh change rows) := by
  have hmem : ∀ value, wrap value ∈ records ++ [record] ↔ wrap value ∈ records := by
    intro value
    simp [Ne.symm (hother value)]
  constructor
  · intro row hmemRow value
    rw [hmem]
    rcases mem_upsert hmemRow with ⟨hold, -⟩ | ⟨old, hold, -, rfl⟩ | ⟨rfl, hnone⟩
    · exact h.field_iff row hold value
    · rw [hkeep, hchange]
      exact h.field_iff old hold value
    · rw [hfresh]
      simp only [reduceCtorEq, false_iff]
      rintro ⟨hstored, hcampaign⟩
      obtain ⟨row, hrow', hname⟩ := h.present value hstored
      exact hnone row hrow' ((hname.trans hcampaign).trans hrow)
  · intro value hvalue
    exact exists_upsert hrow hchange (.inr (h.present value ((hmem value).mp hvalue)))

theorem Shows.congr {records' : List Record} (h : Shows field wrap campaign records rows)
    (hmem : ∀ value, wrap value ∈ records ↔ wrap value ∈ records') :
    Shows field wrap campaign records' rows where
  field_iff row hrow value := by rw [h.field_iff row hrow, hmem]
  present value hvalue := h.present value ((hmem value).mpr hvalue)

end

/-- The campaign rows show the stored locks and requests. -/
structure RegisterOf (records : List Record) (rows : List CampaignRow) : Prop where
  keyed : Keyed CampaignRow.campaignId rows
  locks : Shows CampaignRow.lock .campaignLock CampaignLock.campaignId records rows
  requests : Shows CampaignRow.request .campaignRequest CampaignRequest.campaignId records rows

section

variable {records : List Record} {rows : List CampaignRow}

theorem registerOf_nil : RegisterOf [] [] :=
  ⟨List.nodup_nil, ⟨by simp, by simp⟩, ⟨by simp, by simp⟩⟩

/-- A fresh record keeps the campaign rows those of the stored records. -/
theorem RegisterOf.append {P : Projection} {record : Record} (h : RegisterOf records P.campaigns)
    (hfresh : Free Record.key record.key records) :
    RegisterOf (records ++ [record]) (P.extendCampaigns record) := by
  cases record with
  | campaignLock lock =>
    have hfree : ∀ other, .campaignLock other ∈ records → other.campaignId ≠ lock.campaignId :=
      fun other hother hname ↦ hfresh _ hother (by rw [Record.key, Record.key, hname])
    have hchange : ∀ row : CampaignRow, ({ row with
        lock := some lock, ceilingMicrousd := lock.ceilingMicrousd } : CampaignRow).campaignId =
          row.campaignId := fun _ ↦ rfl
    exact ⟨keyed_upsert rfl hchange h.keyed,
      h.locks.set (fun _ _ ↦ Record.campaignLock.inj) rfl rfl hfree hchange rfl fun _ ↦ rfl,
      h.requests.keep (fun _ ↦ by simp) rfl hchange rfl fun _ ↦ rfl⟩
  | campaignRequest request =>
    have hfree : ∀ other, .campaignRequest other ∈ records →
        other.campaignId ≠ request.campaignId :=
      fun other hother hname ↦ hfresh _ hother (by rw [Record.key, Record.key, hname])
    have hchange : ∀ row : CampaignRow,
        ({ row with request := some request } : CampaignRow).campaignId = row.campaignId :=
      fun _ ↦ rfl
    exact ⟨keyed_upsert rfl hchange h.keyed,
      h.locks.keep (fun _ ↦ by simp) rfl hchange rfl fun _ ↦ rfl,
      h.requests.set (fun _ _ ↦ Record.campaignRequest.inj) rfl rfl hfree hchange rfl fun _ ↦ rfl⟩
  | _ => exact ⟨h.keyed, h.locks.congr fun _ ↦ by simp, h.requests.congr fun _ ↦ by simp⟩

theorem registerOf_extendAll [Digests] {P : Projection} {added : List Record}
    (h : RegisterOf P.objects P.campaigns) (haccepts : AcceptsAll added P) :
    RegisterOf (P.objects ++ added) (P.extendAll added).campaigns := by
  induction added generalizing P with
  | nil => simpa using h
  | cons record rest ih =>
    have hstep : RegisterOf (P.extend record).objects (P.extend record).campaigns :=
      h.append haccepts.1.1
    simpa [extend] using ih hstep haccepts.2

end

/-! ### Action rows -/

/-- The action rows are those of the stored intents, with receipts that are stored. -/
structure ActionsOf (records : List Record) (rows : List ActionRow) : Prop where
  keyed : Keyed actionKey rows
  stored : ∀ row ∈ rows, .actionIntent row.intent ∈ records
  complete : ∀ intent, .actionIntent intent ∈ records → ∃ row ∈ rows, row.intent = intent
  receipt : ∀ row ∈ rows, ∀ receipt, row.receipt = some receipt →
    .actionReceipt receipt ∈ records ∧ receipt.actionId = row.intent.actionId ∧
      receipt.campaignId = row.intent.campaignId

section

variable {records : List Record} {P : Projection} {record : Record}

theorem actionsOf_nil : ActionsOf [] [] := ⟨List.nodup_nil, by simp, by simp, by simp⟩

@[simp] theorem completeAction_intent (receipt : ActionReceipt) (row : ActionRow) :
    (completeAction receipt row).intent = row.intent := by
  unfold completeAction
  split_ifs <;> rfl

/-- A record that is neither an intent nor a receipt leaves the action rows. -/
theorem ActionsOf.other {rows : List ActionRow} (h : ActionsOf records rows)
    (hintent : ∀ intent, record ≠ .actionIntent intent) : ActionsOf (records ++ [record]) rows where
  keyed := h.keyed
  stored row hrow := List.mem_append_left _ (h.stored row hrow)
  complete intent hmem := by
    rcases List.mem_append.mp hmem with hold | hnew
    · exact h.complete intent hold
    · exact absurd (List.mem_singleton.mp hnew).symm (hintent intent)
  receipt row hrow receipt hreceipt :=
    ⟨List.mem_append_left _ (h.receipt row hrow receipt hreceipt).1,
      (h.receipt row hrow receipt hreceipt).2⟩

theorem ActionsOf.append_intent {rows : List ActionRow} {intent : ActionIntent}
    (h : ActionsOf records rows) (hfree : Free actionKey intent.actionId rows) :
    ActionsOf (records ++ [.actionIntent intent]) (rows ++ [⟨intent, none⟩]) where
  keyed := by
    have hinsert : insertRow actionKey ⟨intent, none⟩ rows = some (rows ++ [⟨intent, none⟩]) :=
      insertRow_eq_some.mpr ⟨fun row hrow ↦ hfree row hrow, rfl⟩
    exact h.keyed.insertRow hinsert
  stored row hrow := by
    rcases List.mem_append.mp hrow with hold | hnew
    · exact List.mem_append_left _ (h.stored row hold)
    · rw [List.mem_singleton.mp hnew]
      simp
  complete other hmem := by
    rcases List.mem_append.mp hmem with hold | hnew
    · obtain ⟨row, hrow, hintent⟩ := h.complete other hold
      exact ⟨row, List.mem_append_left _ hrow, hintent⟩
    · cases List.mem_singleton.mp hnew
      exact ⟨_, List.mem_append_right rows List.mem_cons_self, rfl⟩
  receipt row hrow receipt hreceipt := by
    rcases List.mem_append.mp hrow with hold | hnew
    · obtain ⟨hstored, hrest⟩ := h.receipt row hold receipt hreceipt
      exact ⟨List.mem_append_left _ hstored, hrest⟩
    · rw [List.mem_singleton.mp hnew] at hreceipt
      cases hreceipt

theorem ActionsOf.append_receipt {rows : List ActionRow} {receipt : ActionReceipt}
    (h : ActionsOf records rows)
    (haccepts : ∃ row, lookup actionKey receipt.actionId rows = some row ∧
      row.intent.campaignId = receipt.campaignId) :
    ActionsOf (records ++ [.actionReceipt receipt]) (rows.map (completeAction receipt)) where
  keyed := by
    have hkeys : actionKey ∘ completeAction receipt = actionKey := funext fun row ↦ by
      simp [actionKey]
    have hkeyed := h.keyed
    unfold Keyed at hkeyed ⊢
    rwa [List.map_map, hkeys]
  stored row hrow := by
    obtain ⟨old, hold, rfl⟩ := List.mem_map.mp hrow
    rw [completeAction_intent]
    exact List.mem_append_left _ (h.stored old hold)
  complete intent hmem := by
    rcases List.mem_append.mp hmem with hold | hnew
    · obtain ⟨row, hrow, hintent⟩ := h.complete intent hold
      exact ⟨_, List.mem_map_of_mem hrow, by rw [completeAction_intent, hintent]⟩
    · cases List.mem_singleton.mp hnew
  receipt row hrow other hother := by
    obtain ⟨old, hold, rfl⟩ := List.mem_map.mp hrow
    rw [completeAction_intent]
    unfold completeAction at hother
    split_ifs at hother with hid
    · cases hother
      obtain ⟨found, hfound, hcampaign⟩ := haccepts
      obtain ⟨hmem, hkey⟩ := lookup_mem hfound
      have hsame : old = found := h.keyed.eq_of_mem hold hmem (hid.trans hkey.symm)
      exact ⟨by simp, hid.symm, hsame ▸ hcampaign.symm⟩
    · obtain ⟨hstored, hrest⟩ := h.receipt old hold other hother
      exact ⟨List.mem_append_left _ hstored, hrest⟩

variable [Digests]

/-- An accepted record keeps the action rows those of the stored records. -/
theorem ActionsOf.append (h : ActionsOf records P.actions) (haccepts : P.Accepts record) :
    ActionsOf (records ++ [record]) (P.extend record).actions := by
  cases record with
  | actionIntent intent => exact h.append_intent haccepts.2
  | actionReceipt receipt => exact h.append_receipt haccepts.2
  | _ => exact h.other fun _ heq ↦ by cases heq

theorem actionsOf_extendAll {added : List Record} (h : ActionsOf P.objects P.actions)
    (haccepts : AcceptsAll added P) :
    ActionsOf (P.objects ++ added) (P.extendAll added).actions := by
  induction added generalizing P with
  | nil => simpa using h
  | cons record rest ih =>
    have hstep : ActionsOf (P.extend record).objects (P.extend record).actions :=
      h.append haccepts.1
    simpa [extend] using ih hstep haccepts.2

end

/-! ### Histories -/

section

variable [Digests]

/-- An intent whose identity is built from its campaign, kind, target and generation. -/
def CanonicalIntent (intent : ActionIntent) : Prop :=
  intent.actionId =
    actionIdOf intent.campaignId intent.actionKind intent.target intent.generation

/-- A record that is canonical if it is an intent. -/
def Canonical : Record → Prop
  | .actionIntent intent => CanonicalIntent intent
  | _ => True

/-- The rows of campaigns and actions are those of the stored records. -/
structure History (world : World) : Prop where
  synced : world.Synced
  ready : world.projection.ready = true
  canonical : ∀ record ∈ world.store.records, Canonical record
  register : RegisterOf world.store.records world.projection.campaigns
  actions : ActionsOf world.store.records world.projection.actions

/-- The records of one state are stored in another. -/
def Stored (before after : World) : Prop :=
  ∀ record ∈ before.store.records, record ∈ after.store.records

/-- An operation of the service: it writes nothing for another instance, and its intents are
canonical. -/
def Own : Op → Prop
  | .append record => Canonical record
  | .remoteAppend _ => False
  | _ => True

variable {world world' : World} {record : Record}

omit [Digests] in
theorem Stored.refl (world : World) : Stored world world := fun _ h ↦ h

omit [Digests] in
theorem Stored.trans {first middle last : World} (hfirst : Stored first middle)
    (hlast : Stored middle last) : Stored first last := fun record h ↦ hlast record (hfirst record h)

/-- Two canonical intents with the same identity are stored under the same key. -/
theorem CanonicalIntent.key_eq {first second : ActionIntent} (hfirst : CanonicalIntent first)
    (hsecond : CanonicalIntent second) (h : first.actionId = second.actionId) :
    (Record.actionIntent first).key = (Record.actionIntent second).key := by
  unfold CanonicalIntent actionIdOf at hfirst hsecond
  rw [hfirst, hsecond, deterministicId_inj] at h
  simp only [Record.key, ObjectKey.actionIntent.injEq]
  refine ⟨(List.cons.inj h.2).1, ?_⟩
  rw [hfirst, hsecond, h.2]

theorem canonical_actionIntent (campaignId : String) (kind : ActionKind) (target : String)
    (generation : ℕ) (payload : ActionPayload) (actor : Actor) (timestamp : ℕ) :
    CanonicalIntent (actionIntent campaignId kind target generation payload actor timestamp) := rfl

/-- A fresh canonical intent finds its row free. -/
theorem History.free_action (h : History world) {intent : ActionIntent}
    (hcanonical : CanonicalIntent intent)
    (hfresh : Free Record.key (Record.actionIntent intent).key world.store.records) :
    Free actionKey intent.actionId world.projection.actions := by
  intro row hrow hid
  have hstored := h.actions.stored row hrow
  have hrowCanonical : CanonicalIntent row.intent := h.canonical _ hstored
  exact hfresh _ hstored (hrowCanonical.key_eq hcanonical hid)

theorem History.append (h : History world) (hcanonical : Canonical record)
    (hfresh : Free Record.key record.key world.store.records) :
    History (world.afterAppend record) := by
  have hready := World.afterAppend_ready h.synced hfresh
  refine ⟨h.synced.afterAppend hfresh, hready.trans h.ready, ?_, ?_, ?_⟩
  · intro other hother
    rcases List.mem_append.mp hother with hold | hnew
    · exact h.canonical other hold
    · rw [List.mem_singleton.mp hnew]
      exact hcanonical
  · rw [campaigns_afterAppend h.synced hfresh]
    exact h.register.append hfresh
  · rcases World.apply_cases (h.synced.free_objects hfresh) with
      ⟨haccepts, happly⟩ | ⟨hrefused, added, -, happly⟩
    · rw [World.afterAppend_projection haccepts]
      exact h.actions.append haccepts
    · have hsame : (world.afterAppend record).projection.actions = world.projection.actions := by
        simp only [World.afterAppend, happly]
      rw [hsame]
      refine h.actions.other fun intent hintent ↦ hrefused ?_
      subst hintent
      exact ⟨h.synced.free_objects hfresh, h.free_action hcanonical hfresh⟩

theorem History.of_unchanged (h : History world) (hsame : World.Unchanged world world')
    (hready : world'.projection.ready = true) : History world' := by
  obtain ⟨⟨records, evidence, results⟩, tables, held⟩ := world'
  obtain ⟨hrecords, ⟨ready, hprojection⟩, -⟩ := hsame
  simp only at hrecords hprojection
  subst hrecords hprojection
  exact ⟨⟨h.synced.keyed, h.synced.objects⟩, hready, h.canonical, h.register, h.actions⟩

theorem History.of_held (h : History world) (held : List (Queue × ℕ)) :
    History { world with held := held } :=
  ⟨⟨h.synced.keyed, h.synced.objects⟩, h.ready, h.canonical, h.register, h.actions⟩

/-- Tables that were read back from canonical records are a history. -/
theorem history_of_restart (hcanonical : ∀ record ∈ world.store.records, Canonical record)
    (h : world.restart = some world') : History world' ∧ Stored world world' := by
  have hsynced := World.synced_of_restart h
  obtain ⟨-, haccepts, -, rfl⟩ := World.restart_eq_some.mp h
  have hmem : ∀ record, record ∈ world.store.records.insertionSort PathOrder ↔
      record ∈ world.store.records := fun record ↦ List.mem_insertionSort _
  have hregister := registerOf_extendAll registerOf_nil haccepts
  have hactions := actionsOf_extendAll actionsOf_nil haccepts
  refine ⟨⟨hsynced, rfl, hcanonical, ?_, ?_⟩, Stored.refl _⟩
  · exact ⟨hregister.keyed, hregister.locks.congr fun _ ↦ hmem _,
      hregister.requests.congr fun _ ↦ hmem _⟩
  · refine ⟨hactions.keyed, fun row hrow ↦ (hmem _).mp (hactions.stored row hrow),
      fun intent hintent ↦ hactions.complete intent ((hmem _).mpr hintent), ?_⟩
    intro row hrow receipt hreceipt
    obtain ⟨hstored, hrest⟩ := hactions.receipt row hrow receipt hreceipt
    exact ⟨(hmem _).mp hstored, hrest⟩

/-- One operation of the service keeps the history and what is stored. -/
theorem History.perform {thread : ℕ} {op : Op} {choice : Choice} {answer : op.Ans}
    (h : History world) (hop : Own op)
    (hperform : World.perform thread op choice world = some (answer, world')) :
    History world' ∧ Stored world world' := by
  have hready := World.perform_ready h.synced h.ready hperform
  rcases World.perform_cases h.synced hperform with
    ⟨record, rfl, hfresh, rfl⟩ | ⟨record, rfl⟩ | ⟨queue, -, -, rfl⟩ | ⟨queue, -, rfl⟩ | hsame
  · exact ⟨h.append hop hfresh, fun other hother ↦ List.mem_append_left _ hother⟩
  · cases hop
  · exact ⟨h.of_held _, Stored.refl _⟩
  · exact ⟨h.of_held _, Stored.refl _⟩
  · refine ⟨h.of_unchanged hsame hready, fun other hother ↦ ?_⟩
    rw [hsame.records]
    exact hother

theorem History.step (h : History world) (hstep : machine.Step Own world world') :
    History world' ∧ Stored world world' := by
  obtain ⟨thread, op, choice, answer, hop, hperform⟩ := hstep
  exact h.perform hop hperform

theorem History.steps (h : History world) (hsteps : machine.Steps Own world world') :
    History world' ∧ Stored world world' :=
  hsteps.keeps Stored.refl Stored.trans (fun hfirst hstep ↦ hfirst.step hstep) h

theorem History.later (h : History world) (hlater : machine.Later Own world world') :
    History world' ∧ Stored world world' :=
  hlater.keeps Stored.refl Stored.trans (fun hfirst hstep ↦ hfirst.step hstep)
    (fun hfirst hrestart ↦ history_of_restart hfirst.canonical hrestart) h

/-! ### Queries -/

theorem History.campaignLock_eq_some (h : History world) {campaignId : String}
    {lock : CampaignLock} : world.projection.campaignLock campaignId = some lock ↔
      .campaignLock lock ∈ world.store.records ∧ lock.campaignId = campaignId := by
  unfold Projection.campaignLock campaignRow?
  rw [Option.bind_eq_some_iff]
  constructor
  · rintro ⟨row, hrow, hlock⟩
    obtain ⟨hmem, rfl⟩ := lookup_mem hrow
    exact (h.register.locks.field_iff row hmem lock).mp hlock
  · rintro ⟨hstored, rfl⟩
    obtain ⟨row, hrow, hname⟩ := h.register.locks.present lock hstored
    exact ⟨row, h.register.keyed.lookup_eq_some.mpr ⟨hrow, hname⟩,
      (h.register.locks.field_iff row hrow lock).mpr ⟨hstored, hname.symm⟩⟩

theorem History.action_eq_some (h : History world) {actionId : String} {row : ActionRow}
    (hrow : world.projection.action actionId = some row) :
    .actionIntent row.intent ∈ world.store.records ∧ row.intent.actionId = actionId := by
  obtain ⟨hmem, hkey⟩ := lookup_mem hrow
  exact ⟨h.actions.stored row hmem, hkey⟩

/-- A stored intent has its row. -/
theorem History.action_of_stored (h : History world) {intent : ActionIntent}
    (hstored : .actionIntent intent ∈ world.store.records) :
    ∃ row, world.projection.action intent.actionId = some row ∧ row.intent = intent := by
  obtain ⟨row, hrow, hintent⟩ := h.actions.complete intent hstored
  refine ⟨row, h.actions.keyed.lookup_eq_some.mpr ⟨hrow, ?_⟩, hintent⟩
  rw [actionKey, hintent]

/-- A campaign with a stored lock has a view. -/
theorem History.campaign_of_lock (h : History world) {lock : CampaignLock}
    (hstored : .campaignLock lock ∈ world.store.records) :
    ∃ view, world.projection.campaign lock.campaignId = some view ∧
      view.campaignId = lock.campaignId := by
  obtain ⟨row, hrow, hname⟩ := h.register.locks.present lock hstored
  have hlookup : world.projection.campaignRow? lock.campaignId = some row :=
    h.register.keyed.lookup_eq_some.mpr ⟨hrow, hname⟩
  refine ⟨world.projection.campaignView row, ?_, hname⟩
  unfold Projection.campaign
  rw [hlookup]
  rfl

/-- An action is shown with its stored intent. -/
theorem History.intent_eq_some (h : History world) {actionId : String} {intent : ActionIntent} :
    (world.projection.action actionId).map ActionRow.intent = some intent ↔
      .actionIntent intent ∈ world.store.records ∧ intent.actionId = actionId := by
  rw [Option.map_eq_some_iff]
  constructor
  · rintro ⟨row, hrow, rfl⟩
    exact h.action_eq_some hrow
  · rintro ⟨hstored, rfl⟩
    exact h.action_of_stored hstored

/-- What the calls of the service rely on: the store only grows. -/
def historyContract : Contract interface World where
  rely := Stored
  guar := Stored
  ok _ _ := True
  rely_refl := Stored.refl
  rely_trans := Stored.trans

/-- A call of a program that is safe among the other work of the service. -/
theorem History.call {α : Type} {program : Act α} {post : α → World → Prop}
    {fail : ServiceError → World → Prop} {thread : ℕ} {outcome : Except ServiceError α}
    (h : History world) (hsafe : Safe machine History thread historyContract program post fail world)
    (hcall : machine.Call (machine.Steps Own) thread program world outcome world') :
    History world' ∧ Ends post fail outcome world' :=
  hsafe.call (fun hfirst hsteps ↦ hfirst.steps hsteps) (fun _ _ ↦ trivial) h hcall

/-- A program of the service among its other work. -/
abbrev HistorySafe {α : Type} (thread : ℕ) (program : Act α) (post : α → World → Prop)
    (world : World) : Prop :=
  Safe machine History thread historyContract program post (fun _ _ ↦ True) world

variable {α β : Type} {thread : ℕ} {post : β → World → Prop}

/-- A fact about what is stored, which the other work does not take away. -/
def Lasting (hold : World → Prop) : Prop := ∀ before after, Stored before after → hold before → hold after

theorem Local.own {allowed : Record → Prop} (h : ∀ record, allowed record → Canonical record)
    (op : Op) (hlocal : Local allowed op) : Own op := by
  cases op with
  | append record => exact h record hlocal
  | remoteAppend record => exact hlocal
  | _ => trivial

theorem history_ask {question : Query} {next : question.Ans → Act β} (hold : World → Prop)
    (hlasting : Lasting hold) (hworld : hold world) (h : ∀ after, History after → hold after →
      HistorySafe thread (next (question.answer after.projection)) post after) :
    HistorySafe thread (ask question >>= next) post world :=
  safe_ask (fun state _ ↦ Stored.refl state) fun after hrely hafter ↦
    h after hafter (hlasting world after hrely hworld)

/-- A part of a program that only does the service's own operations. -/
theorem history_then {program : Act α} {next : α → Act β} (hold : World → Prop)
    (huses : program.Uses Own) (hlasting : Lasting hold) (hinv : History world) (hworld : hold world)
    (h : ∀ value after, History after → hold after →
      HistorySafe thread (next value) post after) :
    HistorySafe thread (program >>= next) post world := by
  refine safe_bind ((safe_of_uses huses (fun before after hrely _ ↦ hlasting before after hrely) ?_
    hworld).mono (fun value after hafter hheld ↦ h value after hafter hheld) fun _ _ _ _ ↦ trivial) hinv
  intro op hop before hbefore _ hheld choice answer after hperform
  obtain ⟨hafter, hstored⟩ := hbefore.perform hop hperform
  exact ⟨hstored, hafter, hlasting before after hstored hheld⟩

/-- A part of a program with its own postcondition, and a fact that lasts through it. -/
theorem history_bind {program : Act α} {next : α → Act β} {post' : α → World → Prop}
    (hold : World → Prop) (hlasting : Lasting hold) (hinv : History world) (hworld : hold world)
    (hprogram : HistorySafe thread program post' world)
    (h : ∀ value after, History after → post' value after → hold after →
      HistorySafe thread (next value) post after) :
    HistorySafe thread (program >>= next) post world := by
  refine safe_bind ((hprogram.frame (fun before after ↦ hlasting before after)
    (fun before after ↦ hlasting before after) hworld).mono ?_ fun _ _ _ _ ↦ trivial) hinv
  exact fun value after hafter hboth ↦ h value after hafter hboth.1 hboth.2

theorem history_ret {value : β} (h : ∀ after, History after → Stored world after → post value after) :
    HistorySafe thread (.ret value) post world :=
  safe_ret fun after hrely hafter ↦ h after hafter hrely

theorem history_throw {error : ServiceError} : HistorySafe thread (.throw error : Act β) post world :=
  safe_throw fun _ _ _ ↦ trivial

/-- A method in a queue. -/
theorem history_withQueue {queue : Queue} {method : Act β} (hlasting : ∀ value, Lasting (post value))
    (h : ∀ after, History after → HistorySafe thread method post after) :
    HistorySafe thread (withQueue queue method) post world := by
  refine safe_withQueue (fun _ ↦ True) ?_ (fun state hstate _ ↦ h state hstate) ?_ ?_
  · exact fun before _ hbefore _ ↦ ⟨Stored.refl _, hbefore.of_held _, trivial⟩
  · refine fun before hbefore ↦ ⟨Stored.refl _, hbefore.of_held _, ?_, fun _ _ _ _ _ ↦ trivial⟩
    exact fun value hpost last hlast _ ↦ hlasting value before last hlast hpost
  · exact fun before after hrely _ ↦
      ⟨fun value ↦ hlasting value before after hrely, fun _ _ ↦ trivial⟩

/-- A record that was appended or adopted is stored. -/
theorem appendAdopting_history {τ : Type} {wrap : τ → Record} {unwrap : Record → Option τ}
    {record : τ} {equivalent : τ → Bool}
    (hunwrap : ∀ stored value, unwrap stored = some value → stored = wrap value)
    (hcanonical : Canonical (wrap record)) :
    HistorySafe thread (appendAdopting wrap unwrap record equivalent)
      (fun result after ↦ wrap result.2 ∈ after.store.records ∧
        (wrap result.2).key = (wrap record).key ∧
          (result.2 = record ∨ equivalent result.2 = true)) world := by
  refine safe_await fun before _ hbefore _ choice answer after hperform ↦ ?_
  have happend : before.append (wrap record) = (answer, after) := Option.some.inj hperform
  have hown : Own (.append (wrap record)) := hcanonical
  obtain ⟨hafter, hgrows⟩ := hbefore.step ⟨thread, _, choice, answer, hown, hperform⟩
  refine ⟨hgrows, hafter, ?_⟩
  cases answer with
  | ok created =>
    have hstored : wrap record ∈ after.store.records := by
      rcases World.append_ok hbefore.synced happend with ⟨hmem, rfl⟩ | ⟨-, -, -, rfl⟩
      · exact hmem
      · exact List.mem_append_right _ List.mem_cons_self
    exact history_ret fun last _ hlast ↦ ⟨hlast _ hstored, rfl, .inl rfl⟩
  | error error =>
    cases error with
    | immutableConflict key =>
      refine safe_await fun middle _ hmiddle _ choice' existing last hread ↦ ?_
      cases hread
      refine ⟨Stored.refl _, hmiddle, ?_⟩
      dsimp only [Program.bind]
      split
      · exact history_throw
      next recorded hrecorded =>
      obtain ⟨stored, hstored, hvalue⟩ := Option.bind_eq_some_iff.mp hrecorded
      obtain ⟨hmem, hkey⟩ := lookup_mem hstored
      rw [hunwrap stored recorded hvalue] at hmem hkey
      split
      next hequivalent =>
        refine history_then (fun state ↦ wrap recorded ∈ state.store.records)
          ⟨trivial, fun answer ↦ uses_ofExcept answer⟩ (fun _ _ hstored ↦ hstored _) hmiddle hmem
          fun _ final _ hfinal ↦ ?_
        exact history_ret fun last _ hlast ↦ ⟨hlast _ hfinal, hkey, .inr hequivalent⟩
      next => exact history_throw
    | _ => exact history_throw

omit [Digests] in
theorem asIntent_eq_some {record : Record} {intent : ActionIntent} (h : asIntent record = some intent) :
    record = .actionIntent intent := by
  unfold asIntent at h
  split at h
  · cases h
    rfl
  · cases h

/-- An action that was written is stored, as it was asked for. -/
theorem writeAction_history {intent : ActionIntent} (hcanonical : CanonicalIntent intent) :
    HistorySafe thread (writeAction intent)
      (fun _ after ↦ ∃ recorded, .actionIntent recorded ∈ after.store.records ∧
        recorded.actionId = intent.actionId ∧ sameAction intent recorded = true) world := by
  refine history_ask (fun _ ↦ True) (fun _ _ _ _ ↦ trivial) trivial fun after hafter _ ↦ ?_
  split
  next row hrow =>
    obtain ⟨hstored, hid⟩ := hafter.action_eq_some hrow
    split
    next hsame => exact history_ret fun last _ hlast ↦ ⟨row.intent, hlast _ hstored, hid, hsame⟩
    next => exact history_throw
  next =>
  refine history_then (fun _ ↦ True) ?_ (fun _ _ _ _ ↦ trivial) hafter trivial
    fun _ middle hmiddle _ ↦ ?_
  · unfold requireOpenTask
    split
    · trivial
    · refine ⟨trivial, fun task ↦ ?_⟩
      dsimp only [Program.bind]
      split <;> trivial
  refine safe_bind ((appendAdopting_history (fun _ _ ↦ asIntent_eq_some) hcanonical).mono ?_
    fun _ _ _ _ ↦ trivial) hmiddle
  rintro ⟨created, recorded⟩ last hlast ⟨hstored, hkey, hsame⟩
  refine history_ret fun final _ hfinal ↦ ⟨recorded, hfinal _ hstored, ?_, ?_⟩
  · simp only [Record.key, ObjectKey.actionIntent.injEq] at hkey
    exact hkey.2
  · rcases hsame with rfl | hequivalent
    · simp [sameAction]
    · exact (Bool.and_eq_true_iff.mp hequivalent).1

end

end HarborHF.Control
