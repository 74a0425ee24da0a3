import HarborHF.Control.Rules

/-!
# Computing runs

A sync reads the listing of the store in path order. In a state whose tables hold the store it changes
nothing (`Synced.syncProjection`), so a run without writes of other instances can be computed on
`quickMachine`, which leaves the listing out.
-/

set_option autoImplicit false

namespace HarborHF.Control

open Async

section

variable [Digests]

/-- One operation of a thread in a state whose tables hold the store. -/
def World.quickPerform (thread : ℕ) : (op : Op) → Choice → World → Option (op.Ans × World)
  | .syncProjection, _, world =>
    some (.ok 0, { world with projection := { world.projection with ready := true } })
  | op, choice, world => World.perform thread op choice world

def quickMachine : Machine interface World Choice := ⟨World.quickPerform, World.restart⟩

/-- The operation writes nothing for another instance. -/
def writesOwn : Op → Bool
  | .remoteAppend _ => false
  | _ => true

theorem World.Synced.quickPerform {world : World} (h : world.Synced) (thread : ℕ) (op : Op)
    (choice : Choice) :
    World.quickPerform thread op choice world = World.perform thread op choice world := by
  cases op with
  | syncProjection => exact congrArg some h.syncProjection.symm
  | _ => rfl

theorem World.Synced.perform {world world' : World} {thread : ℕ} {op : Op} {choice : Choice}
    {answer : op.Ans} (h : world.Synced) (hop : writesOwn op = true)
    (hperform : World.perform thread op choice world = some (answer, world')) : world'.Synced := by
  rcases World.perform_cases h hperform with ⟨record, -, hfresh, rfl⟩ | ⟨record, rfl⟩ |
    ⟨queue, -, -, rfl⟩ | ⟨queue, -, rfl⟩ | ⟨hrecords, ⟨ready, hprojection⟩, -⟩
  · exact h.afterAppend hfresh
  · cases hop
  · exact ⟨h.keyed, h.objects⟩
  · exact ⟨h.keyed, h.objects⟩
  · refine ⟨hrecords ▸ h.keyed, ?_⟩
    rw [hprojection, hrecords]
    exact h.objects

variable {check : Config interface ServiceError ThreadRole World → ℕ → Op → Bool}
  {config config' : Config interface ServiceError ThreadRole World}

/-- A run of the control plane can be computed without the listings of its syncs. -/
theorem runChecked_of_quick (events : List (Event interface ServiceError ThreadRole Choice))
    (hsynced : config.state.Synced) (hrun : config.runChecked quickMachine ThreadRole.conflict
      (fun config thread op ↦ writesOwn op && check config thread op) events = some config') :
    config.runChecked machine ThreadRole.conflict check events = some config' := by
  refine runChecked_of_agree ?_ ?_ ?_ events hsynced hrun
  · intro config thread op hpasses hsynced choice answer state' hperform
    have hop := (Bool.and_eq_true_iff.mp hpasses).1
    have hperform : World.perform thread op choice config.state = some (answer, state') :=
      (hsynced.quickPerform thread op choice).symm.trans hperform
    exact ⟨hperform, hsynced.perform hop hperform⟩
  · exact fun state state' _ hrestart ↦ ⟨hrestart, World.synced_of_restart hrestart⟩
  · exact fun config thread op hpasses ↦ (Bool.and_eq_true_iff.mp hpasses).2

theorem run_of_quick (events : List (Event interface ServiceError ThreadRole Choice))
    (hsynced : config.state.Synced)
    (hrun : config.runChecked quickMachine ThreadRole.conflict (fun _ _ op ↦ writesOwn op) events =
      some config') : config.run machine ThreadRole.conflict events = some config' := by
  refine runChecked_of_quick events hsynced ?_
  simpa only [Bool.and_true] using hrun

end

end HarborHF.Control
