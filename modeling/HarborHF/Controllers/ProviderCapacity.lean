import HarborHF.Controllers.Passes

/-!
# The capacity of a provider

At most one running Job executes waves of a provider, and no claim is taken from a running Job, in every
run whose watchdog passes read a capacity claim of their campaign only of Jobs that their listing shows or
that have ended. A pass lists the Jobs before it reads the claim: the claim of a Job that was launched in
between looks abandoned, and is released while the Job runs.
-/

set_option autoImplicit false

namespace HarborHF.Controllers

open Async Relational Hub

/-- The capacity of a provider is exclusive in every run whose capacity reads are timely. -/
theorem exclusive_capacity (lockOf : String → CampaignLock)
    (config : Config supervisionInterface SupervisionError Unit World)
    (h : Supervised lockOf Timely config) :
    (∀ provider first second, (provider, first) ∈ config.state.executing →
      (provider, second) ∈ config.state.executing → config.state.isRunning first = true →
        config.state.isRunning second = true → first = second) ∧
      config.state.lost = [] := by
  have hinv : Invariant True config.state := invariant_of_supervised (fun _ _ h _ ↦ h) h
  have hexclusive := hinv.2 trivial
  refine ⟨fun provider first second hfirst hsecond hrunning hrunning' ↦ ?_, hexclusive.lost⟩
  obtain ⟨claim, hclaim, rfl⟩ := hexclusive.held provider first hfirst hrunning
  obtain ⟨other, hother, rfl⟩ := hexclusive.held provider second hsecond hrunning'
  rw [hclaim] at hother
  rw [Option.some.inj hother]

/-! ### Two campaigns on one provider -/

def sharedLock : CampaignLock :=
  { planDigest := "plan"
    inputDigest := "input"
    workerRevision := "worker"
    providers := ["provider"]
    policy := some ⟨3, 1, Nat.one_pos⟩ }

def firstReservation (campaignId : String) : Reservation :=
  { campaignId := campaignId
    planDigest := "plan"
    inputDigest := "input"
    attempt := 1
    inputUri := "hf://input"
    outputUri := "hf://output"
    workerRevision := "worker"
    reservedAt := 0 }

/-- Everything is carried out, a launch creates a running Job, and a controller finds waves to apply. -/
def wavesChoice (jobId : String) : WorldChoice :=
  { elapsed := 1
    fails := false
    carried := true
    fate := ⟨true, some (jobId, "RUNNING"), true⟩
    snapshot := (false, "commit")
    action := .waves "provider" "action"
    succeeded := true }

/-- A submission, and the controller it launches up to its waves. -/
def startWaves (campaignId jobId : String) (thread controllerSteps : ℕ) :
    List (Event supervisionInterface SupervisionError Unit WorldChoice) :=
  [.spawn () (submitController (firstReservation campaignId))] ++
  List.replicate 3 (.run thread (wavesChoice jobId)) ++
  [.spawn () (runController (fun _ ↦ sharedLock) jobId 2)] ++
  List.replicate controllerSteps (.run (thread + 1) (wavesChoice jobId))

theorem startWaves_admitted (campaignId jobId : String) (thread controllerSteps : ℕ) :
    ∀ event ∈ startWaves campaignId jobId thread controllerSteps,
      event.Admitted (fun _ ↦ Supervises fun _ ↦ sharedLock) := by
  intro event hevent
  simp only [startWaves, List.mem_append, List.mem_cons, List.not_mem_nil, or_false] at hevent
  rcases hevent with ((rfl | h) | rfl) | h
  · exact .submit _
  · exact admitted_runs _ _ _ event h
  · exact .controller jobId 2
  · exact admitted_runs _ _ _ event h

/-- A pass lists the Jobs of its campaign before the first one is launched, and reads the claim of that
Job when it executes waves; then another campaign starts its waves. -/
def staleEvents : List (Event supervisionInterface SupervisionError Unit WorldChoice) :=
  [.spawn () (watchdogPass sharedLock "campaign-a" false)] ++
  List.replicate 4 (.run 0 (wavesChoice "job-a")) ++
  startWaves "campaign-a" "job-a" 1 14 ++
  List.replicate 2 (.run 0 (wavesChoice "job-a")) ++
  startWaves "campaign-b" "job-b" 3 14

def staleEnd : Option (Config supervisionInterface SupervisionError Unit World) :=
  Config.run supervisionMachine concurrent
    (.initial emptyWorld) staleEvents

theorem staleEnd_executing : staleEnd.map (fun config ↦ (config.state.executing,
    config.state.isRunning "job-a", config.state.isRunning "job-b",
    config.state.lost.map CapacityClaim.jobId)) =
    some ([("provider", "job-a"), ("provider", "job-b")], true, true, ["job-a"]) := by
  decide +kernel

/-- Two running Jobs execute waves of one provider, the first of which has lost its claim. -/
theorem not_exclusive_capacity : ¬∀ (lockOf : String → CampaignLock)
    (config : Config supervisionInterface SupervisionError Unit World),
    Supervised lockOf (fun _ _ ↦ True) config →
      (∀ provider first second, (provider, first) ∈ config.state.executing →
        (provider, second) ∈ config.state.executing → config.state.isRunning first = true →
          config.state.isRunning second = true → first = second) ∧
        config.state.lost = [] := by
  intro hall
  obtain ⟨config, hend, hstate⟩ := Option.map_eq_some_iff.mp staleEnd_executing
  simp only [Prod.mk.injEq] at hstate
  obtain ⟨hexecuting, hfirst, hsecond, -⟩ := hstate
  have hrun : Supervised (fun _ ↦ sharedLock) (fun _ _ ↦ True) config := by
    refine reachable_of_run staleEvents (.start empty_emptyWorld) ?_ hend
    intro event hevent
    simp only [staleEvents, List.mem_append, List.mem_cons, List.not_mem_nil, or_false] at hevent
    rcases hevent with (((rfl | h) | h) | h) | h
    · exact .watchdog "campaign-a" false
    · exact admitted_runs _ _ _ event h
    · exact startWaves_admitted _ _ _ _ event h
    · exact admitted_runs _ _ _ event h
    · exact startWaves_admitted _ _ _ _ event h
  have hsame := (hall _ config hrun).1 "provider" "job-a" "job-b" (by rw [hexecuting]; simp)
    (by rw [hexecuting]; simp) hfirst hsecond
  exact absurd hsame (by decide)

/-- The check of a run whose capacity reads are timely. -/
def timely (world : World) : Call → Bool
  | .readCapacity provider campaignId listing =>
    (world.capacity.get? provider).all fun claim ↦ decide (claim.campaignId ≠ campaignId) ||
      decide (claim.jobId ∈ listing.map ControllerJob.jobId) ||
        world.jobs.any fun job ↦ decide (job.jobId = claim.jobId) && job.terminal
  | _ => true

theorem timely_spec {world : World} {call : Call} (h : timely world call = true) :
    Timely world call := by
  cases call with
  | readCapacity provider campaignId listing =>
    intro claim hclaim hcampaign
    rw [timely, hclaim, Option.all_some, Bool.or_eq_true, Bool.or_eq_true, decide_eq_true_eq,
      decide_eq_true_eq, List.any_eq_true] at h
    rcases h with (hother | hlisted) | ⟨job, hmem, hended⟩
    · exact absurd hcampaign hother
    · exact .inl hlisted
    · rw [Bool.and_eq_true, decide_eq_true_eq] at hended
      exact .inr ⟨job, hmem, hended⟩
  | _ => trivial

/-- A pass lists a Job that executes waves and keeps its claim, and another campaign waits. -/
def timelyEvents : List (Event supervisionInterface SupervisionError Unit WorldChoice) :=
  startWaves "campaign-a" "job-a" 0 14 ++
  [.spawn () (watchdogPass sharedLock "campaign-a" false)] ++
  List.replicate 6 (.run 2 (wavesChoice "job-a")) ++
  startWaves "campaign-b" "job-b" 3 12

def timelyEnd : Option (Config supervisionInterface SupervisionError Unit World) :=
  Config.runChecked supervisionMachine concurrent (fun config _ op ↦ timely config.state op.call)
    (.initial emptyWorld) timelyEvents

theorem timelyEnd_executing : timelyEnd.map (fun config ↦ (config.state.executing,
    config.state.isRunning "job-a", config.state.isRunning "job-b")) =
    some ([("provider", "job-a")], true, true) := by
  decide +kernel

theorem exclusive_capacity_sample : ∃ config, Supervised (fun _ ↦ sharedLock) Timely config ∧
    config.state.executing = [("provider", "job-a")] ∧ config.state.lost = [] := by
  obtain ⟨config, hend, hstate⟩ := Option.map_eq_some_iff.mp timelyEnd_executing
  have hrun : Supervised (fun _ ↦ sharedLock) Timely config := by
    refine reachable_of_runChecked timelyEvents (fun _ _ _ h ↦ timely_spec h)
      (.start empty_emptyWorld) ?_ hend
    intro event hevent
    simp only [timelyEvents, List.mem_append, List.mem_cons, List.not_mem_nil, or_false] at hevent
    rcases hevent with ((h | rfl) | h) | h
    · exact startWaves_admitted _ _ _ _ event h
    · exact .watchdog "campaign-a" false
    · exact admitted_runs _ _ _ event h
    · exact startWaves_admitted _ _ _ _ event h
  exact ⟨config, hrun, congrArg Prod.fst hstate, (exclusive_capacity _ config hrun).2⟩

end HarborHF.Controllers
