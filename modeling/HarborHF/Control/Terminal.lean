import HarborHF.Control.Evaluation
import HarborHF.Control.Runs

/-!
# Terminal tasks

A task has one terminal selection at most, it selects a stored attempt of the task, and no record of
the reconciler is refused because its task is terminal: this holds in every run. Nothing of a terminal
task changes afterwards, and no attempt is added to it, in every run whose attempts are `Undisturbed`
(`terminal_final`): between the last look of an attempt at its task and the append of its receipt the
reconciler writes no selection of the task.

The check and the append of an attempt hold the queue of the budget, which a selection does not take.
So a worker's attempt can be appended to a task that a cancellation has just closed
(`attempt_of_terminal_task`).
-/

set_option autoImplicit false

namespace HarborHF.Control

open Async Program Relational Projection

section

variable [Digests] {allowed : ReconcilerOptions → Prop} {ok : Pool → ℕ → Op → Prop}

/-! ### Refused selections -/

/-- The rows of tasks and attempts are those of the records. -/
structure Kempt (world : World) : Prop where
  synced : world.Synced
  roster : RosterOf world.store.records world.projection

omit [Digests] in
theorem Kempt.objects {world : World} (h : Kempt world) :
    RosterOf world.projection.objects world.projection :=
  h.roster.congr fun _ ↦ h.synced.objects.symm.mem_iff

/-- An append is never refused because a task is terminal. -/
theorem Kempt.append_answer {world world' : World} {record : Record}
    {answer : Except ServiceError Bool} (h : Kempt world) (h' : Kempt world')
    (happend : world.append record = (answer, world')) (taskId : String) :
    answer ≠ .error (.projection (.taskAlreadyTerminal taskId)) := by
  cases World.append_spec h.synced happend with
  | invalid | unverified | conflict | present | accepted => simp
  | @refused error _ _ _ happly =>
    have hne : (world.projection.apply record).2 ≠ some (.taskAlreadyTerminal taskId) := by
      have hmem : ∀ other, other ∈ world.projection.objects ++ [record] →
          other ∈ (world.afterAppend record).store.records := fun other hother ↦
        (List.mem_append.mp hother).elim
          (fun hold ↦ List.mem_append_left _ (h.synced.objects.mem_iff.mp hold))
          fun hnew ↦ List.mem_append_right _ hnew
      exact h.objects.apply_ne_terminal (fun first second hfirst hsecond ↦
        h'.roster.once first second (hmem _ hfirst) (hmem _ hsecond)) (List.mem_singleton_self record)
          taskId
    rw [happly] at hne
    simpa using hne
  | @poisoned error _ _ _ haccepts hverify =>
    have hne := verifyInvariants_ne_terminal (world.projection.extend record) taskId
    rw [hverify] at hne
    simpa using hne

theorem Tracked.kempt {state : World × Log} (h : Tracked allowed state) : Kempt state.1 :=
  ⟨h.history.synced, h.roster⟩

/-! ### What a step keeps -/

/-- What a state keeps of another's terminal tasks: the selections, and the attempts of the selected
tasks. -/
structure Finality (before after : World) : Prop where
  stored : Stored before after
  attempts : ∀ selection attempt, .terminalSelection selection ∈ before.store.records →
    .attemptReceipt attempt ∈ after.store.records → attempt.campaignId = selection.campaignId →
      attempt.taskId = selection.taskId → .attemptReceipt attempt ∈ before.store.records

omit [Digests] in
theorem Finality.of_records {before after : World}
    (h : after.store.records = before.store.records) : Finality before after :=
  ⟨fun _ hrecord ↦ h ▸ hrecord, fun _ _ _ hattempt _ _ ↦ h ▸ hattempt⟩

omit [Digests] in
theorem Finality.trans {first middle last : World} (h : Finality first middle)
    (h' : Finality middle last) : Finality first last where
  stored record hrecord := h'.stored record (h.stored record hrecord)
  attempts selection attempt hselection hattempt hcampaign htask :=
    h.attempts selection attempt hselection (h'.attempts selection attempt
      (h.stored _ hselection) hattempt hcampaign htask) hcampaign htask

omit [Digests] in
theorem Finality.of_final {before after : World} (hstored : Stored before after)
    (hfinal : Final before after) : Finality before after where
  stored := hstored
  attempts selection attempt hselection hattempt hcampaign htask := by
    by_contra hnew
    exact hfinal attempt hattempt hnew selection hselection ⟨hcampaign.symm, htask.symm⟩

/-- A step of a run whose attempts are undisturbed keeps the terminal tasks. -/
theorem JobRun.continues_final {config config' : Pool}
    (hok : ∀ config thread op, ok config thread op → Undisturbed thread config.trace op)
    (h : JobRun allowed ok config)
    (hcontinues : Continues machine ThreadRole.conflict (JobProgram allowed) ok config config') :
    Finality config.state config'.state := by
  induction hcontinues with
  | refl => exact .of_records rfl
  | @spawn middle last role program _ _ hstep ih =>
    simp only [Config.step] at hstep
    split at hstep
    · obtain rfl := Option.some.inj hstep
      exact ih
    · cases hstep
  | @run middle index role op resume choice answer state' hmiddle hthread hcondition hperform ih =>
    have hsound : middle.traced.Sound machine.traced ThreadRole.conflict (Tracked allowed)
        (fun _ _ ↦ True) (jobContract True) := JobRun.sound (fun _ ↦ hok) (h.continues hmiddle)
    have htraced : machine.traced.perform index op choice (middle.state, middle.trace) =
        some (answer, (state', ⟨index, op, answer⟩ :: middle.trace)) :=
      Machine.traced_perform.mpr ⟨hperform, rfl⟩
    obtain ⟨⟨hsteady, hfinal⟩, -⟩ := hsound.perform hthread (fun _ ↦ hok _ _ _ hcondition) htraced
    -- a thread that does not exist sees the step as one of its environment
    have hstored := (hsteady .api (index + 1) (by simp) (by cases role <;> rfl)).stored
    exact ih.trans (.of_final hstored (hfinal trivial))
  | @crash middle state' hmiddle hrestart ih =>
    have htracked := JobRun.tracked (h.continues hmiddle)
    have htraced : machine.traced.restart (middle.state, middle.trace) =
        some (state', middle.trace) := Machine.traced_restart.mpr ⟨hrestart, rfl⟩
    exact ih.trans (.of_records (htracked.restart htraced).2)

/-- The terminal tasks of a state: one selection for a task at most, of a stored attempt, and the row
of the task shows it. -/
structure Selected (world : World) : Prop where
  once : ∀ first second, .terminalSelection first ∈ world.store.records →
    .terminalSelection second ∈ world.store.records → SameTask first second → first = second
  attempt : ∀ selection, .terminalSelection selection ∈ world.store.records →
    ∃ attempt, .attemptReceipt attempt ∈ world.store.records ∧ Selects selection attempt
  shown : ∀ selection, .terminalSelection selection ∈ world.store.records →
    ∃ row ∈ world.projection.tasks, Closes selection row ∧
      row.terminalOutcome = some selection.outcome ∧ row.selectedAttemptId = some selection.attemptId
  accepted : ∀ taskId, world.syncProjection.1 ≠ .error (.projection (.taskAlreadyTerminal taskId))
  rebuilt : ∀ entries taskId, entries.Perm world.store.records →
    (rebuildFrom world.store entries).2 ≠ some (.taskAlreadyTerminal taskId)

theorem Kempt.selected {world : World} (h : Kempt world) : Selected world where
  once := h.roster.once
  attempt := h.roster.selected
  shown selection hselection := by
    obtain ⟨attempt, hattempt, hselects⟩ := h.roster.selected selection hselection
    obtain ⟨row, hrow, hkey⟩ := h.roster.attempted attempt hattempt
    have hcloses : Closes selection row := by
      obtain ⟨hcampaign, htask⟩ := Prod.mk.inj hkey
      exact ⟨by rw [hcampaign, hselects.campaign], by rw [htask, hselects.task]⟩
    exact ⟨row, hrow, hcloses, h.roster.closed row hrow selection hselection hcloses⟩
  accepted taskId := by
    rw [h.synced.syncProjection]
    simp
  rebuilt entries taskId hperm :=
    h.roster.rebuild_ne_terminal (fun _ ↦ hperm.mem_iff) taskId

/-- In every run whose attempts are undisturbed: a task has one terminal selection at most, it selects
a stored attempt of the task and the row shows it; whatever the run does afterwards, the selection and
the row stay and the task gets no attempt; and nothing is refused because a task is terminal. -/
theorem terminal_final {config : Pool}
    (h : JobRun (fun _ ↦ True) (fun config thread op ↦ Undisturbed thread config.trace op) config) :
    Selected config.state ∧
    (∀ config', Continues machine ThreadRole.conflict (JobProgram fun _ ↦ True)
      (fun config thread op ↦ Undisturbed thread config.trace op) config config' →
        Finality config.state config'.state ∧
          ∀ selection row, .terminalSelection selection ∈ config.state.store.records →
            row ∈ config'.state.projection.tasks → Closes selection row →
              row.terminalOutcome = some selection.outcome ∧
                row.selectedAttemptId = some selection.attemptId) ∧
    ∀ thread record taskId, (⟨thread, .append record,
      .error (.projection (.taskAlreadyTerminal taskId))⟩ : Performed interface) ∉ config.trace := by
  refine ⟨h.tracked.kempt.selected, ?_, ?_⟩
  · intro config' hcontinues
    have hfinal := h.continues_final (fun _ _ _ hok ↦ hok) hcontinues
    refine ⟨hfinal, fun selection row hselection hrow hcloses ↦ ?_⟩
    exact (JobRun.tracked (h.continues hcontinues)).roster.closed row hrow selection
      (hfinal.stored _ hselection) hcloses
  · intro thread record taskId hmem
    have hnever : ∀ performed ∈ config.trace, performed ≠ (⟨thread, .append record,
        .error (.projection (.taskAlreadyTerminal taskId))⟩ : Performed interface) := by
      refine reachable_trace (fun config h ↦ (JobRun.tracked h).kempt) ?_ h
      intro config index op choice answer state' hstate hstate' hperform heq
      cases heq
      exact hstate.append_answer hstate' (Option.some.inj hperform) taskId rfl
    exact hnever _ hmem rfl

end

/-! ### A cancelled campaign

The Job of a campaign has ended, its worker has uploaded its evidence, and the operator cancels the
campaign. The reconciler records the attempt of the cancellation; the worker's request finds its task
open; the reconciler selects its attempt; and the worker's attempt is appended. -/

section

local instance terminalDigests : Digests := plainDigests

/-- The operator's cancellation. -/
def cancelTrial : Act Unit :=
  served (campaignAction trialCampaign ⟨.cancel, none, none, true⟩ "key" trialActor)

/-- The worker's evidence. -/
def trialEvidence : StoredObject :=
  ⟨"", "sha256:e", 1, .manifest ⟨trialCampaign, trialLaunch, "t", []⟩⟩

def uploadTrial : Act Unit :=
  served (uploadEvidenceObject trialCampaign trialLaunch "t" "sha256:e" trialEvidence)

/-- The worker's attempt. -/
def trialAttempt : AttemptSubmission :=
  ⟨trialLaunch, .complete, false, "sha256:e",
    workerEvidenceObjectPath trialCampaign trialLaunch "t" "sha256:e", 0, [], 4⟩

def trialRequest : SandboxRequest :=
  ⟨⟨trialLaunch, trialCampaign, ["t"], "", []⟩, trialCampaign, "t", "a key of t"⟩

def attemptTrial : Act Unit := served (attemptRoute trialRequest [.attemptSubmit] trialAttempt)

/-- The receipt of the worker's attempt. -/
def lateAttempt : AttemptReceipt :=
  attemptRecord
    { campaignId := trialCampaign
      taskId := "t"
      attemptId := workerAttemptId trialCampaign "t" "a key of t"
      actionId := trialLaunch
      outcome := .complete
      replacementEligible := false
      evidenceDigest := trialAttempt.evidenceDigest
      evidencePath := trialAttempt.evidencePath
      costMicrousd := 0
      metrics := []
      completedAt := 4 } trialRequest.actor

/-- The Job of the campaign has ended, and the campaign is cancelled. -/
def cancelledRun : List (Event interface ServiceError ThreadRole Choice) :=
  launchedRun ++ (.spawn .reconciler (tick {}) :: List.replicate 18 (.run 2 (trialChoice 3 "COMPLETED"))) ++
    (.spawn .api uploadTrial :: List.replicate 3 (.run 3 (trialChoice 4 ""))) ++
      (.spawn .api cancelTrial :: List.replicate 7 (.run 4 (trialChoice 4 ""))) ++
        (.spawn .reconciler (tick {}) :: List.replicate 17 (.run 5 (trialChoice 5 "")))

/-- The reconciler selects the attempt of the cancellation. -/
def sealedRun : List (Event interface ServiceError ThreadRole Choice) :=
  cancelledRun ++ List.replicate 2 (.run 5 (trialChoice 5 ""))

/-- The worker's request has found its task open when the reconciler selects the attempt of the
cancellation. -/
def overtakenRun : List (Event interface ServiceError ThreadRole Choice) :=
  cancelledRun ++ (.spawn .api attemptTrial :: List.replicate 6 (.run 6 (trialChoice 5 ""))) ++
    List.replicate 2 (.run 5 (trialChoice 5 ""))

theorem cancelledRun_admitted :
    ∀ event ∈ cancelledRun, event.Admitted (JobProgram fun _ ↦ True) := by
  unfold cancelledRun
  simp only [List.forall_mem_append, List.forall_mem_cons]
  exact ⟨⟨⟨⟨launchedRun_admitted, .tick trivial, admitted_runs _ _ _⟩, .evidence _ _ _ _ _,
    admitted_runs _ _ _⟩, .operator _ _ _ _, admitted_runs _ _ _⟩, .tick trivial,
    admitted_runs _ _ _⟩

/-- The tasks of the terminal selections of a store. -/
def selectedTasks (records : List Record) : List (String × String) :=
  records.filterMap fun record ↦ match record with
    | .terminalSelection selection => some (selection.campaignId, selection.taskId)
    | _ => none

theorem mem_selectedTasks {records : List Record} {campaignId taskId : String}
    (h : (campaignId, taskId) ∈ selectedTasks records) :
    ∃ selection, .terminalSelection selection ∈ records ∧ selection.campaignId = campaignId ∧
      selection.taskId = taskId := by
  obtain ⟨record, hrecord, hsome⟩ := List.mem_filterMap.mp h
  split at hsome
  · next selection =>
    obtain ⟨hcampaign, htask⟩ := Prod.mk.inj (Option.some.inj hsome)
    exact ⟨selection, hrecord, hcampaign, htask⟩
  · cases hsome

/-- A worker's attempt is appended to a terminal task. -/
theorem attempt_of_terminal_task : ∃ (config config' : Pool) (selection : TerminalSelection),
    JobRun (fun _ ↦ True) (fun _ _ _ ↦ True) config ∧
      Continues machine ThreadRole.conflict (JobProgram fun _ ↦ True) (fun _ _ _ ↦ True) config config' ∧
        .terminalSelection selection ∈ config.state.store.records ∧
          lateAttempt.campaignId = selection.campaignId ∧ lateAttempt.taskId = selection.taskId ∧
            .attemptReceipt lateAttempt ∉ config.state.store.records ∧
              .attemptReceipt lateAttempt ∈ config'.state.store.records := by
  have hevents : ((Config.initial emptyWorld).runChecked quickMachine ThreadRole.conflict
      (fun _ _ op ↦ writesOwn op) overtakenRun).bind (fun config ↦
        (config.runChecked quickMachine ThreadRole.conflict (fun _ _ op ↦ writesOwn op)
          [.run 6 (trialChoice 5 "")]).map fun config' ↦
            (decide ((trialCampaign, "t") ∈ selectedTasks config.state.store.records),
              decide (.attemptReceipt lateAttempt ∉ config.state.store.records),
                decide (.attemptReceipt lateAttempt ∈ config'.state.store.records))) =
                  some (true, true, true) := by decide +kernel
  obtain ⟨config, hquick, hevents⟩ := Option.bind_eq_some_iff.mp hevents
  obtain ⟨config', hlast, hevents⟩ := Option.map_eq_some_iff.mp hevents
  simp only [Prod.mk.injEq, decide_eq_true_eq] at hevents
  obtain ⟨hselected, hfree, hstored⟩ := hevents
  have hadmitted : ∀ event ∈ overtakenRun, event.Admitted (JobProgram fun _ ↦ True) := by
    unfold overtakenRun
    simp only [List.forall_mem_append, List.forall_mem_cons]
    exact ⟨⟨cancelledRun_admitted, .attempt _ _ _, admitted_runs _ _ _⟩, admitted_runs _ _ _⟩
  have hrun : JobRun (fun _ ↦ True) (fun _ _ _ ↦ True) config :=
    reachable_of_run _ (.start emptyWorld_founding) hadmitted
      (run_of_quick _ emptyWorld_synced hquick)
  obtain ⟨selection, hselection, hcampaign, htask⟩ := mem_selectedTasks hselected
  refine ⟨config, config', selection, hrun, ?_, hselection, hcampaign.symm, htask.symm, hfree,
    hstored⟩
  refine continues_of_runChecked [.run 6 (trialChoice 5 "")] (fun _ _ _ _ ↦ trivial) ?_
    (run_of_quick _ hrun.tracked.history.synced hlast)
  exact admitted_runs 1 6 (trialChoice 5 "")

/-- The operation looks at a task for a thread. -/
def readsTask (thread : ℕ) (campaignId taskId : String) : Performed interface → Bool
  | ⟨reader, .query (.task campaign task), _⟩ =>
    decide (reader = thread ∧ campaign = campaignId ∧ task = taskId)
  | _ => false

/-- The operation appends a selection of a task. -/
def closesTask (campaignId taskId : String) : Performed interface → Bool
  | ⟨_, .append (.terminalSelection selection), _⟩ =>
    decide (selection.campaignId = campaignId ∧ selection.taskId = taskId)
  | _ => false

/-- Since an attempt's last look at its task, no selection of it was appended. -/
def undisturbed (thread : ℕ) (log : Log) : Op → Bool
  | .append (.attemptReceipt attempt) =>
    (log.takeWhile fun performed ↦
      !readsTask thread attempt.campaignId attempt.taskId performed).all fun performed ↦
        !closesTask attempt.campaignId attempt.taskId performed
  | _ => true

theorem readsTask_iff {thread : ℕ} {campaignId taskId : String} {performed : Performed interface} :
    readsTask thread campaignId taskId performed = true ↔
      ReadsTask thread campaignId taskId performed := by
  obtain ⟨reader, op, answer⟩ := performed
  unfold readsTask ReadsTask
  split
  · next heq =>
    cases heq
    simp only [decide_eq_true_eq]
    constructor
    · rintro ⟨rfl, rfl, rfl⟩
      exact ⟨rfl, rfl⟩
    · rintro ⟨rfl, hop⟩
      cases hop
      exact ⟨rfl, rfl, rfl⟩
  · next hother =>
    refine iff_of_false (by simp) ?_
    rintro ⟨-, hop⟩
    cases hop
    exact hother _ _ _ _ rfl

theorem closesTask_of {campaignId taskId : String} {performed : Performed interface}
    (h : ClosesTask campaignId taskId performed) : closesTask campaignId taskId performed = true := by
  obtain ⟨thread, op, answer⟩ := performed
  obtain ⟨selection, hop, hcampaign, htask⟩ := h
  cases hop
  exact decide_eq_true ⟨hcampaign, htask⟩

theorem undisturbed_spec {thread : ℕ} {log : Log} {op : Op}
    (h : undisturbed thread log op = true) : Undisturbed thread log op := by
  unfold undisturbed at h
  split at h
  · next attempt =>
    rintro later read earlier rfl hread hlater performed hperformed hcloses
    have hpast : ∀ other ∈ later,
        (!readsTask thread attempt.campaignId attempt.taskId other) = true := fun other hother ↦ by
      simpa using fun hreads ↦ hlater other hother (readsTask_iff.mp hreads)
    rw [List.takeWhile_append_of_pos hpast] at h
    have hall := List.all_eq_true.mp h performed (List.mem_append_left _ hperformed)
    rw [closesTask_of hcloses] at hall
    cases hall
  · next hother =>
    cases op with
    | append record =>
      cases record with
      | attemptReceipt attempt => exact absurd rfl (hother attempt)
      | _ => trivial
    | _ => trivial

/-- The cancellation of a campaign closes its task for good. -/
theorem trial_sealed : ∃ (config : Pool) (selection : TerminalSelection),
    JobRun (fun _ ↦ True) (fun config thread op ↦ Undisturbed thread config.trace op) config ∧
      .terminalSelection selection ∈ config.state.store.records ∧
        selection.campaignId = trialCampaign ∧ selection.taskId = "t" ∧ Selected config.state ∧
          ∀ config', Continues machine ThreadRole.conflict (JobProgram fun _ ↦ True)
            (fun config thread op ↦ Undisturbed thread config.trace op) config config' →
              Finality config.state config'.state := by
  have hevents : ((Config.initial emptyWorld).runChecked quickMachine ThreadRole.conflict
      (fun config thread op ↦ writesOwn op && undisturbed thread config.trace op) sealedRun).map
        (fun config ↦ decide ((trialCampaign, "t") ∈ selectedTasks config.state.store.records)) =
          some true := by decide +kernel
  obtain ⟨config, hquick, hselected⟩ := Option.map_eq_some_iff.mp hevents
  have hadmitted : ∀ event ∈ sealedRun, event.Admitted (JobProgram fun _ ↦ True) :=
    List.forall_mem_append.mpr ⟨cancelledRun_admitted, admitted_runs _ _ _⟩
  have hrun : JobRun (fun _ ↦ True) (fun config thread op ↦ Undisturbed thread config.trace op)
      config :=
    reachable_of_runChecked _ (fun _ _ _ ↦ undisturbed_spec) (.start emptyWorld_founding) hadmitted
      (runChecked_of_quick _ emptyWorld_synced hquick)
  obtain ⟨selection, hselection, hcampaign, htask⟩ := mem_selectedTasks (of_decide_eq_true hselected)
  have hfinal := terminal_final hrun
  exact ⟨config, selection, hrun, hselection, hcampaign, htask, hfinal.1,
    fun config' hcontinues ↦ (hfinal.2.1 config' hcontinues).1⟩

end

end HarborHF.Control
