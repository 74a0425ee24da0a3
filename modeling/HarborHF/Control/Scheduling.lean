import HarborHF.Control.Reconciler

/-!
# What the reconciler picks up

A tick reads the oldest pending intents, at most `batchSize` of them, and only then skips those it
has nothing to do for: the commands of a Sandbox, which a worker's request carries out, and intents
whose time has not come (`Actionable`). The limit counts the skipped ones too, so the batch holds an
actionable intent only if few skipped ones are older (`batch_actionable_iff`).
-/

set_option autoImplicit false

namespace HarborHF.Control

open Async Program Relational

/-! ### The batch of a tick -/

/-- The reconciler has something to do for an intent: it executes the intent's kind, and the time of
the intent has come. -/
def Actionable (time : ℕ) (intent : ActionIntent) : Prop :=
  isDataAction intent.actionKind = false ∧
    (intent.payload.notBefore.any fun notBefore ↦ decide (time < notBefore)) = false

instance (time : ℕ) (intent : ActionIntent) : Decidable (Actionable time intent) :=
  inferInstanceAs (Decidable (_ ∧ _))

namespace Projection

/-- The actions without a receipt. -/
def pendingRows (P : Projection) : List ActionRow := P.actions.filter fun row ↦ row.receipt.isNone

/-- The first pending action the reconciler has something to do for. -/
def OldestActionable (P : Projection) (time : ℕ) (row : ActionRow) : Prop :=
  row ∈ P.pendingRows ∧ Actionable time row.intent ∧
    ∀ other ∈ P.pendingRows, Actionable time other.intent → Chronological actionTime actionKey row other

/-- The pending actions before an action that the reconciler skips. -/
def skippedBefore (P : Projection) (time : ℕ) (row : ActionRow) : List ActionRow :=
  (upTo (Chronological actionTime actionKey) P.pendingRows row).filter
    fun other ↦ ¬ Actionable time other.intent

variable {P : Projection} {time batchSize : ℕ} {row : ActionRow}

theorem mem_pendingRows : row ∈ P.pendingRows ↔ row ∈ P.actions ∧ row.receipt = none := by
  simp [pendingRows]

theorem mem_pendingActions (hkeyed : Keyed actionKey P.actions) {intent : ActionIntent} :
    intent ∈ P.pendingActions batchSize ↔
      ∃ row ∈ P.pendingRows, row.intent = intent ∧
        (upTo (Chronological actionTime actionKey) P.pendingRows row).length ≤ batchSize := by
  have hpending : Keyed actionKey P.pendingRows := hkeyed.sublist List.filter_sublist
  unfold pendingActions
  rw [List.mem_map]
  constructor
  · rintro ⟨row, hrow, rfl⟩
    obtain ⟨hmem, hcount⟩ :=
      (mem_take_insertionSort hpending.nodup (ordered_chronological hpending)).mp hrow
    exact ⟨row, hmem, rfl, hcount⟩
  · rintro ⟨row, hmem, rfl, hcount⟩
    exact ⟨row,
      (mem_take_insertionSort hpending.nodup (ordered_chronological hpending)).mpr ⟨hmem, hcount⟩, rfl⟩

/-- Before the oldest actionable action all pending ones are skipped. -/
theorem length_upTo_oldest (hkeyed : Keyed actionKey P.actions)
    (holdest : P.OldestActionable time row) :
    (upTo (Chronological actionTime actionKey) P.pendingRows row).length =
      (P.skippedBefore time row).length + 1 := by
  obtain ⟨hmem, hactionable, hfirst⟩ := holdest
  have hpending : Keyed actionKey P.pendingRows := hkeyed.sublist List.filter_sublist
  have hordered : Ordered (Chronological actionTime actionKey) P.pendingRows :=
    ordered_chronological hpending
  have hsplit := List.length_eq_length_filter_add (fun other ↦ decide (Actionable time other.intent))
    (l := upTo (Chronological actionTime actionKey) P.pendingRows row)
  have hself : ((upTo (Chronological actionTime actionKey) P.pendingRows row).filter
      fun other ↦ decide (Actionable time other.intent)).Perm [row] := by
    refine (List.perm_ext_iff_of_nodup ((nodup_upTo hpending.nodup row).filter _) (by simp)).mpr ?_
    intro other
    rw [List.mem_filter, mem_upTo, List.mem_singleton]
    constructor
    · rintro ⟨⟨hother, hbefore⟩, hkind⟩
      exact hordered other hother row hmem hbefore (hfirst other hother (of_decide_eq_true hkind))
    · rintro rfl
      exact ⟨⟨hmem, refl_of _ other⟩, decide_eq_true hactionable⟩
  have hone := hself.length_eq
  rw [List.length_singleton] at hone
  rw [hsplit, hone, Nat.add_comm]
  simp [skippedBefore]

/-- A batch holds an actionable action whenever there is one, exactly when fewer than `batchSize`
skipped actions are older than the oldest actionable one. -/
theorem batch_actionable_iff (P : Projection) (hkeyed : Keyed actionKey P.actions)
    (batchSize time : ℕ) : ((∃ row ∈ P.actions, row.receipt = none ∧ Actionable time row.intent) →
        ∃ intent ∈ P.pendingActions batchSize, Actionable time intent) ↔
      ∀ row, P.OldestActionable time row → (P.skippedBefore time row).length < batchSize := by
  constructor
  · intro hprogress row holdest
    obtain ⟨hmem, hactionable, hfirst⟩ := id holdest
    obtain ⟨hrow, hnone⟩ := mem_pendingRows.mp hmem
    obtain ⟨intent, hintent, hdue⟩ := hprogress ⟨row, hrow, hnone, hactionable⟩
    obtain ⟨other, hother, rfl, hcount⟩ := (mem_pendingActions hkeyed).mp hintent
    have hbefore := hfirst other hother hdue
    have hmono : (upTo (Chronological actionTime actionKey) P.pendingRows row).length ≤
        (upTo (Chronological actionTime actionKey) P.pendingRows other).length := by
      refine (List.monotone_filter_right _ fun third hthird ↦ ?_).length_le
      exact decide_eq_true (trans_of _ (of_decide_eq_true hthird) hbefore)
    have hlength := length_upTo_oldest hkeyed holdest
    omega
  · rintro hfew ⟨row, hrow, hnone, hactionable⟩
    have hmem : row ∈ P.pendingRows.filter fun other ↦ Actionable time other.intent :=
      List.mem_filter.mpr ⟨mem_pendingRows.mpr ⟨hrow, hnone⟩, decide_eq_true hactionable⟩
    obtain ⟨first, hfirst, hleast⟩ : ∃ first ∈ P.pendingRows.filter
        fun other ↦ Actionable time other.intent, ∀ other ∈ P.pendingRows.filter
          fun other ↦ Actionable time other.intent, Chronological actionTime actionKey first other :=
      exists_first hmem
    obtain ⟨hpending, hdue⟩ := List.mem_filter.mp hfirst
    have holdest : P.OldestActionable time first := by
      refine ⟨hpending, of_decide_eq_true hdue, fun other hother hother' ↦ ?_⟩
      exact hleast other (List.mem_filter.mpr ⟨hother, decide_eq_true hother'⟩)
    refine ⟨first.intent, (mem_pendingActions hkeyed).mpr ⟨first, hpending, rfl, ?_⟩,
      of_decide_eq_true hdue⟩
    rw [length_upTo_oldest hkeyed holdest]
    exact hfew first holdest

/-! ### A batch full of commands -/

/-- A Sandbox command that its worker has not finished. -/
def waitingCommand (time : ℕ) : ActionRow :=
  ⟨{ recordId := "exec-" ++ toString time
     createdAt := time
     actor := ⟨"worker:job", .service⟩
     actionId := "exec-" ++ toString time
     campaignId := "campaign"
     actionKind := .sandboxExec
     generation := 0
     target := "sandbox-exec:create:" ++ toString time
     payload := { taskId := some "task", sandboxCreateActionId := some "create" } }, none⟩

/-- A launch that waits for the reconciler. -/
def waitingLaunch (time : ℕ) : ActionRow :=
  ⟨{ recordId := "launch"
     createdAt := time
     actor := serviceActor
     actionId := "launch"
     campaignId := "campaign"
     actionKind := .jobLaunch
     generation := 0
     target := "campaign-tasks"
     payload := { taskIds := some ["task"] } }, none⟩

/-- Sixteen commands in flight, and a launch recorded after them. -/
def busyProjection : Projection :=
  { actions := (List.range 16).map waitingCommand ++ [waitingLaunch 16] }

theorem keyed_busyProjection : Keyed actionKey busyProjection.actions := by
  unfold Keyed
  decide +kernel

/-- With the default batch of sixteen the launch is not picked up while the commands run. -/
theorem launch_starved :
    (∃ row ∈ busyProjection.actions, row.receipt = none ∧ Actionable 1000 row.intent) ∧
      ¬ ∃ intent ∈ busyProjection.pendingActions 16, Actionable 1000 intent := by
  decide +kernel

/-- A batch of seventeen would hold the launch. -/
theorem launch_picked : Keyed actionKey busyProjection.actions ∧
    ∃ intent ∈ busyProjection.pendingActions 17, Actionable 1000 intent := by
  refine ⟨keyed_busyProjection,
    (batch_actionable_iff busyProjection keyed_busyProjection 17 1000).mpr ?_ (by decide +kernel)⟩
  have hfew : ∀ row ∈ busyProjection.pendingRows,
      (busyProjection.skippedBefore 1000 row).length < 17 := by
    decide +kernel
  exact fun row holdest ↦ hfew row holdest.1

end Projection

end HarborHF.Control
