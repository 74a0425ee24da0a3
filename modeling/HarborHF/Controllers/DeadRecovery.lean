import HarborHF.Controllers.Passes

/-!
# Recoveries that name an ended Job

A watchdog pass replaces the attempt of the last status, and adopts the Job that a receipt or a listing
has for the attempt after it, whether that Job has ended or not. So a pass names a Job that had ended in
its listing exactly when a Job of the attempt after the last status is in the listing: a controller that
ends before its first status is adopted by every later pass.
-/

set_option autoImplicit false

namespace HarborHF.Controllers

open Async Relational Hub

/-- In every run, the Job that a pass names had not ended in the listing of the pass exactly when the
listing shows no Job of the attempt after the one of the status that the pass has read. -/
theorem not_dead_iff_not_replaced (lockOf : String → CampaignLock)
    (config : Config supervisionInterface SupervisionError Unit World)
    (h : Supervised lockOf (fun _ _ ↦ True) config) :
    ∀ recovered ∈ config.state.recovered, ¬recovered.Dead ↔ ¬recovered.Replaced := by
  have hinv : Invariant False config.state := invariant_of_supervised (fun _ _ _ h ↦ h.elim) h
  exact fun recovered hrecovered ↦ not_congr (hinv.1.recovered recovered hrecovered)

/-! ### A controller that ends before its first status -/

def recoverableLock : CampaignLock :=
  { planDigest := "plan"
    inputDigest := "input"
    workerRevision := "worker"
    providers := []
    policy := some ⟨3, 1, Nat.one_pos⟩ }

def recoverableReservation : Reservation :=
  { campaignId := "campaign"
    planDigest := "plan"
    inputDigest := "input"
    attempt := 1
    inputUri := "hf://input"
    outputUri := "hf://output"
    workerRevision := "worker"
    reservedAt := 0 }

/-- Everything is carried out, a launch creates a running Job and one unit of time passes. -/
def carried (jobId : String) : WorldChoice :=
  { elapsed := 1
    fails := false
    carried := true
    fate := ⟨true, some (jobId, "RUNNING"), true⟩
    snapshot := (false, "commit")
    action := .finished .completed
    succeeded := true }

/-- The first Job writes its status and ends; a pass launches the second one, which ends before it has
written a status, and the next two passes name it. -/
def deadEvents : List (Event supervisionInterface SupervisionError Unit WorldChoice) :=
  [.spawn () (submitController recoverableReservation)] ++
  List.replicate 3 (.run 0 (carried "job-1")) ++
  [.spawn () (runController (fun _ ↦ recoverableLock) "job-1" 1)] ++
  List.replicate 7 (.run 1 (carried "job-1")) ++
  [.spawn () (perform none (.endJob "job-1" "ERROR")), .run 2 (carried "job-1"),
    .spawn () (watchdogPass recoverableLock "campaign" false)] ++
  List.replicate 13 (.run 3 (carried "job-2")) ++
  [.spawn () (perform none (.endJob "job-2" "ERROR")), .run 4 (carried "job-2"),
    .spawn () (watchdogPass recoverableLock "campaign" false)] ++
  List.replicate 13 (.run 5 (carried "job-3")) ++
  [.spawn () (watchdogPass recoverableLock "campaign" false)] ++
  List.replicate 13 (.run 6 (carried "job-3"))

def deadEnd : Option (Config supervisionInterface SupervisionError Unit World) :=
  Config.run supervisionMachine concurrent (.initial emptyWorld) deadEvents

theorem deadEnd_recovered : deadEnd.map (fun config ↦ config.state.recovered.map fun recovered ↦
    (recovered.jobId, recovered.listing.map fun job ↦ (job.jobId, job.terminal))) =
    some [("job-2", [("job-1", true)]),
      ("job-2", [("job-1", true), ("job-2", true)]),
      ("job-2", [("job-1", true), ("job-2", true)])] := by
  decide +kernel

theorem supervised_dead {config : Config supervisionInterface SupervisionError Unit World}
    (h : deadEnd = some config) : Supervised (fun _ ↦ recoverableLock) (fun _ _ ↦ True) config := by
  refine reachable_of_run deadEvents (.start empty_emptyWorld) ?_ h
  intro event hevent
  simp only [deadEvents, List.mem_append, List.mem_cons, List.not_mem_nil, or_false] at hevent
  rcases hevent with
    ((((((((rfl | h) | rfl) | h) | (rfl | rfl | rfl)) | h) | (rfl | rfl | rfl)) | h) | rfl) | h
  · exact .submit recoverableReservation
  · exact admitted_runs _ _ _ event h
  · exact .controller "job-1" 1
  · exact admitted_runs _ _ _ event h
  · exact .endJob "job-1" "ERROR"
  · trivial
  · exact .watchdog "campaign" false
  · exact admitted_runs _ _ _ event h
  · exact .endJob "job-2" "ERROR"
  · trivial
  · exact .watchdog "campaign" false
  · exact admitted_runs _ _ _ event h
  · exact .watchdog "campaign" false
  · exact admitted_runs _ _ _ event h

/-- A pass names a Job that had ended in its listing. -/
theorem exists_dead : ¬∀ (lockOf : String → CampaignLock)
    (config : Config supervisionInterface SupervisionError Unit World),
    Supervised lockOf (fun _ _ ↦ True) config →
      ∀ recovered ∈ config.state.recovered, ¬recovered.Dead := by
  intro hall
  obtain ⟨config, hend, hrecovered⟩ := Option.map_eq_some_iff.mp deadEnd_recovered
  have hmem : ("job-2", [("job-1", true), ("job-2", true)]) ∈
      config.state.recovered.map fun recovered ↦
        (recovered.jobId, recovered.listing.map fun job ↦ (job.jobId, job.terminal)) := by
    rw [hrecovered]
    simp
  obtain ⟨recovered, hmem, heq⟩ := List.mem_map.mp hmem
  obtain ⟨hjobId, hlisting⟩ := Prod.mk.inj heq
  have hjob : ("job-2", true) ∈ recovered.listing.map fun job ↦ (job.jobId, job.terminal) := by
    rw [hlisting]
    simp
  obtain ⟨job, hlisted, hended⟩ := List.mem_map.mp hjob
  obtain ⟨hsame, hterminal⟩ := Prod.mk.inj hended
  refine hall _ config (supervised_dead hend) recovered hmem ⟨job, hlisted, ?_, hterminal⟩
  rw [hsame, hjobId]

/-- Two Jobs, the second of which has ended before its first status. -/
theorem not_dead_iff_not_replaced_sample : ∃ config,
    Supervised (fun _ ↦ recoverableLock) (fun _ _ ↦ True) config ∧
      ∀ recovered ∈ config.state.recovered, ¬recovered.Dead ↔ ¬recovered.Replaced := by
  obtain ⟨config, hend, -⟩ := Option.map_eq_some_iff.mp deadEnd_recovered
  exact ⟨config, supervised_dead hend,
    not_dead_iff_not_replaced _ config (supervised_dead hend)⟩

end HarborHF.Controllers
