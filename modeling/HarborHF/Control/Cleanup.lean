import HarborHF.Control.Encoding
import HarborHF.Control.Reconciler

/-!
# When a Sandbox is closed

The service counts a Sandbox as closed (`closedCreates`) and releases its reservation
(`finalization`) by one list of states, the reconciler stops closing it (`closeSandbox`) by another.
The lists differ in one word, so the two agree on a history of closes exactly when a close that ended
in that word is not alone (`closed_agree_iff`).
-/

set_option autoImplicit false

namespace HarborHF.Control

open Async Program

/-- The closes of a Sandbox among the actions of its campaign. -/
def closesOf (actions : List ActionRow) (createActionId : String) : List ActionRow :=
  actions.filter fun row ↦
    decide (row.intent.actionKind = .sandboxClose ∧
      row.intent.payload.sandboxCreateActionId = some createActionId)

/-- A completed close with the observed state in a list of words. -/
def endedIn (states : List String) (row : ActionRow) : Bool :=
  row.receipt.any fun receipt ↦
    decide (receipt.outcome = .completed) && states.contains (toUpperCase receipt.observedState)

/-- The receipt of an action makes the service release the reservation of a Sandbox. -/
def Releases (createActionId : String) (row : ActionRow) : Prop :=
  ∃ receipt reservation observed, row.receipt = some receipt ∧
    finalization row.intent receipt = .ok (some (createActionId, reservation, observed))

theorem mem_closesOf {actions : List ActionRow} {createActionId : String} {row : ActionRow} :
    row ∈ closesOf actions createActionId ↔
      row ∈ actions ∧ row.intent.actionKind = .sandboxClose ∧
        row.intent.payload.sandboxCreateActionId = some createActionId := by
  simp [closesOf]

theorem closeEnded_eq (row : ActionRow) : closeEnded row = endedIn terminalJobStates row := by
  unfold closeEnded endedIn ActionRow.outcome ActionRow.observedState jobStateIsTerminal
  cases row.receipt with
  | none => rfl
  | some receipt => simp

theorem mem_sandboxClosedStates (word : String) :
    word ∈ sandboxClosedStates ↔ word ∈ terminalJobStates ∨ word = "DELETED" := by
  simp only [sandboxClosedStates, terminalJobStates, List.mem_cons, List.not_mem_nil, or_false]
  tauto

theorem endedIn_closed (row : ActionRow) : endedIn sandboxClosedStates row = true ↔
      endedIn terminalJobStates row = true ∨ endedIn ["DELETED"] row = true := by
  unfold endedIn
  cases row.receipt with
  | none => simp
  | some receipt =>
    simp only [Option.any_some, Bool.and_eq_true, decide_eq_true_eq, List.contains_iff_mem,
      mem_sandboxClosedStates, List.mem_singleton]
    exact and_or_left

theorem mem_closedCreates {actions : List ActionRow} {createActionId : String} :
    createActionId ∈ closedCreates actions ↔
      ∃ row ∈ closesOf actions createActionId, endedIn sandboxClosedStates row = true := by
  unfold closedCreates
  simp only [List.mem_filterMap, List.mem_filter, Bool.and_eq_true, decide_eq_true_eq, mem_closesOf]
  constructor
  · rintro ⟨row, ⟨hrow, hkind, hended⟩, hcreate⟩
    exact ⟨row, ⟨hrow, hkind, hcreate⟩, hended⟩
  · rintro ⟨row, ⟨hrow, hkind, hcreate⟩, hended⟩
    exact ⟨row, ⟨hrow, hkind, hended⟩, hcreate⟩

/-- A close that releases its Sandbox ended in one of the service's words. -/
theorem endedIn_of_releases {actions : List ActionRow} {createActionId : String} {row : ActionRow}
    (hrow : row ∈ closesOf actions createActionId) (hreleases : Releases createActionId row) :
    endedIn sandboxClosedStates row = true := by
  obtain ⟨-, hkind, -⟩ := mem_closesOf.mp hrow
  obtain ⟨receipt, reservation, observed, hreceipt, hfinal⟩ := hreleases
  unfold finalization at hfinal
  rw [if_neg (by simp [hkind])] at hfinal
  split at hfinal
  next hclosed =>
    unfold endedIn
    rw [hreceipt]
    exact hclosed.2
  next => simp at hfinal

section

variable [Digests]

theorem closeSandbox_ended {campaignId : String} {actions : List ActionRow} {create : ActionRow}
    (h : (closesOf actions create.intent.actionId).any (endedIn terminalJobStates) = true) :
    closeSandbox campaignId actions create = .ret false := by
  unfold closeSandbox
  have hany : ((closesOf actions create.intent.actionId).any closeEnded) = true := by
    rw [funext closeEnded_eq]
    exact h
  exact if_pos hany

/-- The service and the reconciler agree on whether a Sandbox is closed, and the reconciler writes no
close of a Sandbox whose reservation was released, exactly when every close that ended in `DELETED`
stands beside one that ended in a word of the reconciler. -/
theorem closed_agree_iff (campaignId : String) (actions : List ActionRow) (create : ActionRow) :
    ((create.intent.actionId ∈ closedCreates actions ↔
        (closesOf actions create.intent.actionId).any closeEnded = true) ∧
      ((∃ row ∈ closesOf actions create.intent.actionId, Releases create.intent.actionId row) →
        closeSandbox campaignId actions create = .ret false)) ↔
      ((∃ row ∈ closesOf actions create.intent.actionId, endedIn ["DELETED"] row = true) →
        ∃ row ∈ closesOf actions create.intent.actionId, endedIn terminalJobStates row = true) := by
  have hreconciler : (closesOf actions create.intent.actionId).any closeEnded = true ↔
      ∃ row ∈ closesOf actions create.intent.actionId, endedIn terminalJobStates row = true := by
    rw [funext closeEnded_eq, List.any_eq_true]
  rw [mem_closedCreates, hreconciler]
  constructor
  · rintro ⟨hagree, -⟩ ⟨row, hrow, hdeleted⟩
    exact hagree.mp ⟨row, hrow, (endedIn_closed row).mpr (.inr hdeleted)⟩
  · intro hdeleted
    -- What the service counts as closed, the reconciler does too.
    have hclosed : (∃ row ∈ closesOf actions create.intent.actionId,
        endedIn sandboxClosedStates row = true) →
          ∃ row ∈ closesOf actions create.intent.actionId, endedIn terminalJobStates row = true := by
      rintro ⟨row, hrow, hended⟩
      rcases (endedIn_closed row).mp hended with hterminal | hword
      · exact ⟨row, hrow, hterminal⟩
      · exact hdeleted ⟨row, hrow, hword⟩
    refine ⟨⟨hclosed, ?_⟩, ?_⟩
    · rintro ⟨row, hrow, hterminal⟩
      exact ⟨row, hrow, (endedIn_closed row).mpr (.inl hterminal)⟩
    · rintro ⟨row, hrow, hreleases⟩
      have hended := hclosed ⟨row, hrow, endedIn_of_releases hrow hreleases⟩
      exact closeSandbox_ended (List.any_eq_true.mpr hended)

end

/-! ### A Sandbox that was deleted -/

section

local instance cleanupDigests : Digests := plainDigests

def deletedPolicy : SandboxPolicy := ⟨50, 4, 4, 60, 1024, 600, ["/work"], ""⟩

/-- An action of the sample campaign with its receipt. -/
def sampleRow (actionId : String) (kind : ActionKind) (target : String) (payload : ActionPayload)
    (outcome : ActionOutcome) (observedState : String) : ActionRow :=
  ⟨⟨actionId, 0, serviceActor, actionId, "c", kind, 0, target, payload⟩,
    some ⟨"receipt", 1, serviceActor, actionId, "c", outcome, some "job", observedState, none, none,
      none, none⟩⟩

/-- A Sandbox that was created. -/
def createdSandbox : ActionRow :=
  sampleRow "create" .sandboxCreate "sandbox:t"
    { taskId := some "t", sandbox := some deletedPolicy } .created "RUNNING"

/-- Its close, which found the Job deleted. -/
def deletedSandbox : ActionRow :=
  sampleRow "close" .sandboxClose "job"
    { taskId := some "t", sandboxCreateActionId := some "create", resourceId := some "job",
      sandbox := some deletedPolicy } .completed "DELETED"

/-- The projection of a campaign with these two actions. -/
def deletedWorld : World :=
  ⟨⟨[], [], []⟩, { actions := [createdSandbox, deletedSandbox] }, []⟩

/-- The service counts the deleted Sandbox as closed and releases its reservation; the reconciler does
not, and writes another close for it. -/
theorem deleted_closed_again : "create" ∈ closedCreates [createdSandbox, deletedSandbox] ∧
      (∃ row ∈ closesOf [createdSandbox, deletedSandbox] "create", Releases "create" row) ∧
      (closesOf [createdSandbox, deletedSandbox] "create").any closeEnded = false ∧
      ((machine.eval 0 {} (ensureSandboxCleanup "c") deletedWorld).2.projection.actions.map
        fun row ↦ (row.intent.actionKind, row.intent.generation)) =
          [(.sandboxCreate, 0), (.sandboxClose, 0), (.sandboxClose, 1)] := by
  refine ⟨by decide +kernel, ⟨deletedSandbox, by decide +kernel, ?_⟩, by decide +kernel,
    by decide +kernel⟩
  exact ⟨_, 50, 50, rfl, by decide +kernel⟩

end

end HarborHF.Control
