import Mathlib.Data.Finset.Card
import HarborHF.Control.Evaluation
import HarborHF.Control.Requests

/-!
# Runs of a campaign's Jobs

The runs of the control plane from a store that holds profiles and no campaign: ticks of the
reconciler, requests of operators and workers, and programs that write nothing of Jobs and tasks, in
any number, interleaved in any order, with crashes and restarts between any two steps. Every state of
such a run is `Tracked` (`JobRun.tracked`).

So every task is launched a bounded number of times (`launches_bounded`): once in its batch, and once
for each attempt of it that is replaced.
-/

set_option autoImplicit false

namespace HarborHF.Control

open Async Program Relational Projection

/-- The states of a pool of threads of the control plane. -/
abbrev Pool := Config interface ServiceError ThreadRole World

section

variable [Digests] {allowed : ReconcilerOptions → Prop} {strict : Prop}

/-! ### Programs and runs -/

/-- The programs of a run. The reconciler runs with allowed options. -/
inductive JobProgram (allowed : ReconcilerOptions → Prop) : ThreadRole → Act Unit → Prop
  | tick {options : ReconcilerOptions} (hallowed : allowed options) :
      JobProgram allowed .reconciler (tick options)
  | operator (campaignId : String) (input : CampaignActionInput) (idempotencyKey : String)
      (actor : Actor) :
      JobProgram allowed .api (served (campaignAction campaignId input idempotencyKey actor))
  | attempt (request : SandboxRequest) (submissions : List SubmissionOperation)
      (body : AttemptSubmission) :
      JobProgram allowed .api (served (attemptRoute request submissions body))
  | submit (space : String) (input : CampaignSubmission) (idempotencyKey : String) (actor : Actor) :
      JobProgram allowed .api (served (submit space input idempotencyKey actor))
  | sandbox {derive : PreparedPolicy} {request : SandboxRequest} {route : Act String}
      (hroute : SandboxRoute derive request route) : JobProgram allowed .api (served route)
  | evidence (campaignId actionId taskId expectedDigest : String) (object : StoredObject) :
      JobProgram allowed .api
        (served (uploadEvidenceObject campaignId actionId taskId expectedDigest object))
  | other {program : Act Unit} (hwrites : program.Uses (Writes [] CalmRecord)) :
      JobProgram allowed .api program

/-- The control plane has come up, and there is no campaign yet. -/
structure Founding (world : World) : Prop where
  booted : Booted world
  catalog : ∀ record ∈ world.store.records, isCatalog record = true

/-- The runs of these programs in which every operation meets a condition. -/
abbrev JobRun (allowed : ReconcilerOptions → Prop) (ok : Pool → ℕ → Op → Prop) : Pool → Prop :=
  Reachable machine ThreadRole.conflict Founding (JobProgram allowed) ok

theorem job_served {role : ThreadRole} {thread : ℕ} {α : Type} {request : Act α}
    {state : World × Log} {post : α → World × Log → Prop} (hinv : Tracked allowed state)
    (h : JobSafe allowed strict role thread request post state) :
    JobSafe allowed strict role thread (served request) (fun _ _ ↦ True) state :=
  job_bind hinv h fun _ _ _ _ ↦ job_done

theorem JobProgram.safe {role : ThreadRole} {thread : ℕ} {program : Act Unit} {state : World × Log}
    (h : JobProgram allowed role program) (hinv : Tracked allowed state) :
    JobSafe allowed strict role thread program (fun _ _ ↦ True) state := by
  have hcalm : ∀ {α : Type} {request : Act α}, request.Uses (Writes [] CalmRecord) →
      JobSafe allowed strict .api thread request (fun _ _ ↦ True) state :=
    fun huses ↦ job_calm huses enduring_true.guarded trivial
  cases h with
  | tick hallowed => exact tick_job hallowed hinv
  | operator campaignId input idempotencyKey actor =>
    exact job_served hinv (campaignAction_job input idempotencyKey actor)
  | attempt request submissions body =>
    exact job_served hinv (attemptRoute_job request submissions body hinv)
  | submit space input idempotencyKey actor =>
    exact job_served hinv (hcalm (writes_of_calm (submit_calm _ _ _ _)))
  | sandbox hroute => exact job_served hinv (hcalm hroute.writes)
  | evidence campaignId actionId taskId expectedDigest object =>
    exact job_served hinv (hcalm (uploadEvidence_writes _ _ _ _ _))
  | other hwrites => exact hcalm hwrites

theorem canonical_of_catalog {record : Record} (h : isCatalog record = true) : Canonical record := by
  cases record <;> trivial

theorem Founding.tracked {world : World} (h : Founding world) : Tracked allowed (world, []) := by
  obtain ⟨⟨stored, hrestart⟩, hcatalog⟩ := h
  have hroster := roster_of_restart hrestart
  obtain ⟨-, -, -, rfl⟩ := World.restart_eq_some.mp hrestart
  have hcanonical : ∀ record ∈ stored.store.records, Canonical record :=
    fun record hrecord ↦ canonical_of_catalog (hcatalog record hrecord)
  exact ⟨(history_of_restart hcanonical hrestart).1, fun _ _ _ h ↦ absurd h List.not_mem_nil, hroster,
    jobsOf_of_catalog hcatalog⟩

/-- A restart reads the tables back; the records stay, and so does what they rest on. -/
theorem Tracked.restart {before after : World × Log} (h : Tracked allowed before)
    (hrestart : machine.traced.restart before = some after) :
    Tracked allowed after ∧ after.1.store.records = before.1.store.records := by
  obtain ⟨world, log⟩ := before
  obtain ⟨world', log'⟩ := after
  obtain ⟨hworld, hlog⟩ := Machine.traced_restart.mp hrestart
  simp only at hworld hlog
  subst hlog
  have hworld : world.restart = some world' := hworld
  have hhistory := history_of_restart h.history.canonical hworld
  have hroster := roster_of_restart hworld
  obtain ⟨-, -, -, rfl⟩ := World.restart_eq_some.mp hworld
  exact ⟨⟨hhistory.1, fun _ _ _ h ↦ absurd h List.not_mem_nil, hroster, h.jobs⟩, rfl⟩

theorem job_compatible :
    Compatible machine.traced ThreadRole.conflict (Tracked allowed) (fun _ _ ↦ True)
      (jobContract strict) where
  symm role role' := by cases role <;> cases role' <;> rfl
  rely_of_guar hne hroles _ _ hguar := hguar.1 _ _ (Ne.symm hne) hroles
  idle_of_guar _ _ h := h
  restart hinv hrestart := ⟨(hinv.restart hrestart).1, fun _ h ↦ h⟩

/-- The threads of a run are sound; in a strict run every attempt is undisturbed. -/
theorem JobRun.sound {ok : Pool → ℕ → Op → Prop} {config : Pool}
    (hok : strict → ∀ config thread op, ok config thread op → Undisturbed thread config.trace op)
    (h : JobRun allowed ok config) :
    config.traced.Sound machine.traced ThreadRole.conflict (Tracked allowed) (fun _ _ ↦ True)
      (jobContract strict) := by
  refine reachable_sound job_compatible ?_ ?_ ?_ (reachable_traced h)
  · rintro ⟨world, log⟩ ⟨hfounding, hlog⟩
    simp only at hlog
    subst hlog
    exact ⟨hfounding.tracked, fun _ ↦ trivial⟩
  · exact fun role program hprogram index state hstate _ ↦ hprogram.safe hstate
  · rintro config index role op resume - ⟨hcondition, hlog⟩ hstrict
    rw [hlog]
    exact hok hstrict config.untraced index op hcondition

theorem JobRun.tracked {ok : Pool → ℕ → Op → Prop} {config : Pool} (h : JobRun allowed ok config) :
    Tracked allowed (config.state, config.trace) :=
  (JobRun.sound (fun hfalse ↦ hfalse.elim) h : config.traced.Sound machine.traced
    ThreadRole.conflict (Tracked allowed) (fun _ _ ↦ True) (jobContract False)).holds

/-! ### The launches of a task -/

omit [Digests] in
theorem mem_of_mem_batches {size fuel : ℕ} {taskIds batch : List String} {taskId : String}
    (hbatch : batch ∈ batches size fuel taskIds) (htask : taskId ∈ batch) : taskId ∈ taskIds := by
  induction fuel generalizing taskIds with
  | zero => simp [batches] at hbatch
  | succ fuel ih =>
    cases taskIds with
    | nil => simp [batches] at hbatch
    | cons first rest =>
      rcases List.mem_cons.mp hbatch with rfl | htail
      · exact List.mem_of_mem_take htask
      · exact List.mem_of_mem_drop (ih htail)

omit [Digests] in
/-- A task of a list without repetition is in one batch only. -/
theorem batches_unique {size fuel : ℕ} {taskIds first second : List String} {taskId : String}
    (hdistinct : taskIds.Nodup) (hfirst : first ∈ batches size fuel taskIds)
    (hsecond : second ∈ batches size fuel taskIds) (htask : taskId ∈ first)
    (htask' : taskId ∈ second) : first = second := by
  induction fuel generalizing taskIds with
  | zero => simp [batches] at hfirst
  | succ fuel ih =>
    cases taskIds with
    | nil => simp [batches] at hfirst
    | cons head rest =>
      have hapart := List.disjoint_take_drop (m := size) (n := size) hdistinct le_rfl
      rcases List.mem_cons.mp hfirst with rfl | hfirst <;>
        rcases List.mem_cons.mp hsecond with rfl | hsecond
      · rfl
      · exact absurd (mem_of_mem_batches hsecond htask') (hapart htask)
      · exact absurd (mem_of_mem_batches hfirst htask) (hapart htask')
      · exact ih (hdistinct.sublist (List.drop_sublist _ _)) hfirst hsecond

/-- The intent of a record that launches an execution Job for a task. -/
def executionLaunch (campaignId taskId : String) : Record → Option ActionIntent
  | .actionIntent intent =>
    if intent.actionKind = .jobLaunch ∧ intent.campaignId = campaignId ∧
        intent.payload.workerRole ≠ some .preparation ∧
          (intent.payload.taskIds.any fun taskIds ↦ decide (taskId ∈ taskIds)) = true then some intent
    else none
  | _ => none

/-- The stored launches of execution Jobs whose tasks contain a task. -/
def executionLaunches (records : List Record) (campaignId taskId : String) : List ActionIntent :=
  records.filterMap (executionLaunch campaignId taskId)

/-- What the schemas ask of the profiles and tasks that a lock holds: the tasks of a benchmark are
distinct, and a launch policy admits one attempt at least. -/
structure WellFormed (lock : CampaignLock) : Prop where
  distinct : (lock.tasks.map (·.taskId)).Nodup
  positive : ∀ policy, launchPolicyOf lock.profiles = .ok policy →
    1 ≤ policy.maxInfrastructureAttempts

omit [Digests] in
theorem executionLaunch_eq_some {campaignId taskId : String} {record : Record}
    {intent : ActionIntent} : executionLaunch campaignId taskId record = some intent ↔
      record = .actionIntent intent ∧ intent.actionKind = .jobLaunch ∧
        intent.campaignId = campaignId ∧ intent.payload.workerRole ≠ some .preparation ∧
          ∃ taskIds, intent.payload.taskIds = some taskIds ∧ taskId ∈ taskIds := by
  unfold executionLaunch
  split
  next stored =>
    simp only [Option.any_eq_true, decide_eq_true_eq, Option.ite_none_right_eq_some,
      Option.some.injEq, Record.actionIntent.injEq]
    constructor
    · rintro ⟨h, rfl⟩
      exact ⟨rfl, h⟩
    · rintro ⟨rfl, h⟩
      exact ⟨h, rfl⟩
  next hother =>
    refine iff_of_false (by simp) ?_
    rintro ⟨rfl, -⟩
    exact hother intent rfl

omit [Digests] in
theorem mem_executionLaunches {records : List Record} {campaignId taskId : String}
    {intent : ActionIntent} : intent ∈ executionLaunches records campaignId taskId ↔
      .actionIntent intent ∈ records ∧ intent.actionKind = .jobLaunch ∧
        intent.campaignId = campaignId ∧ intent.payload.workerRole ≠ some .preparation ∧
          ∃ taskIds, intent.payload.taskIds = some taskIds ∧ taskId ∈ taskIds := by
  simp only [executionLaunches, List.mem_filterMap, executionLaunch_eq_some]
  constructor
  · rintro ⟨record, hrecord, rfl, h⟩
    exact ⟨hrecord, h⟩
  · rintro ⟨hrecord, h⟩
    exact ⟨_, hrecord, rfl, h⟩

variable {state : World × Log} {campaignId taskId : String}

theorem Tracked.nodup_launches (h : Tracked allowed state) :
    (executionLaunches state.1.store.records campaignId taskId).Nodup := by
  refine List.Nodup.filterMap ?_ h.history.synced.keyed.of_map
  intro first second intent hfirst hsecond
  rw [(executionLaunch_eq_some.mp hfirst).1, (executionLaunch_eq_some.mp hsecond).1]

theorem Tracked.lock_unique (h : Tracked allowed state) {first second : CampaignLock}
    (hfirst : .campaignLock first ∈ state.1.store.records)
    (hsecond : .campaignLock second ∈ state.1.store.records)
    (hcampaign : first.campaignId = second.campaignId) : first = second := by
  have hsame := h.history.synced.keyed.eq_of_mem hfirst hsecond (by
    rw [Record.key, Record.key, hcampaign])
  exact Record.campaignLock.inj hsame

/-- A launch that replaces no attempt is the launch of a batch. -/
theorem Tracked.initial_spec (h : Tracked allowed state) {lock : CampaignLock}
    (hlock : .campaignLock lock ∈ state.1.store.records) {intent : ActionIntent}
    (hintent : intent ∈ executionLaunches state.1.store.records lock.campaignId taskId)
    (hinitial : intent.payload.priorAttemptId = none) :
    ∃ deployment taskIds, lockedDeployment lock = .ok (some deployment) ∧
      taskIds ∈ launchBatches lock deployment ∧ taskId ∈ taskIds ∧
        intent.target = batchTarget lock taskIds ∧ intent.generation = 0 := by
  obtain ⟨hstored, hkind, hcampaign, hrole, taskIds, htasks, hmem⟩ := mem_executionLaunches.mp hintent
  cases h.jobs.launched intent hstored hkind with
  | preparation hpreparation => exact absurd hpreparation hrole
  | replacement _ _ _ hprior => rw [hinitial] at hprior; cases hprior
  | @initial lock' deployment policy prepared batch hlock' hcampaign' hdeployment hbatch htarget
      hgeneration hpayload =>
    obtain rfl := h.lock_unique hlock hlock' (by rw [hcampaign', hcampaign])
    rw [hpayload] at htasks
    obtain rfl : batch = taskIds := Option.some.inj htasks
    exact ⟨deployment, batch, hdeployment, hbatch, hmem, htarget, hgeneration⟩

omit [Digests] in
theorem launchBatches_unique {lock : CampaignLock} {deployment : HfJobDeployment}
    {first second : List String} (hdistinct : (lock.tasks.map (·.taskId)).Nodup)
    (hfirst : first ∈ launchBatches lock deployment)
    (hsecond : second ∈ launchBatches lock deployment) (htask : taskId ∈ first)
    (htask' : taskId ∈ second) : first = second := by
  simp only [launchBatches] at hfirst hsecond
  split_ifs at hfirst hsecond
  · exact batches_unique hdistinct hfirst hsecond htask htask'
  · rw [List.mem_singleton.mp hfirst, List.mem_singleton.mp hsecond]

/-- Two launches of a task that replace no attempt are the launch of its batch. -/
theorem Tracked.initial_unique (h : Tracked allowed state) {lock : CampaignLock}
    (hlock : .campaignLock lock ∈ state.1.store.records) (hformed : WellFormed lock)
    {first second : ActionIntent}
    (hfirst : first ∈ executionLaunches state.1.store.records lock.campaignId taskId)
    (hsecond : second ∈ executionLaunches state.1.store.records lock.campaignId taskId)
    (hinitial : first.payload.priorAttemptId = none)
    (hinitial' : second.payload.priorAttemptId = none) : first = second := by
  obtain ⟨deployment, batch, hdeployment, hbatch, hmem, htarget, hgeneration⟩ :=
    h.initial_spec hlock hfirst hinitial
  obtain ⟨deployment', batch', hdeployment', hbatch', hmem', htarget', hgeneration'⟩ :=
    h.initial_spec hlock hsecond hinitial'
  obtain rfl : deployment = deployment' :=
    Option.some.inj (Except.ok.inj (hdeployment.symm.trans hdeployment'))
  obtain rfl := launchBatches_unique hformed.distinct hbatch hbatch' hmem hmem'
  obtain ⟨hstored, hkind, hcampaign, -⟩ := mem_executionLaunches.mp hfirst
  obtain ⟨hstored', hkind', hcampaign', -⟩ := mem_executionLaunches.mp hsecond
  have hcanonical : CanonicalIntent first := h.history.canonical _ hstored
  have hcanonical' : CanonicalIntent second := h.history.canonical _ hstored'
  refine h.intent_unique hstored hstored' ?_
  unfold CanonicalIntent at hcanonical hcanonical'
  rw [hcanonical, hcanonical', hkind, hkind', hcampaign, hcampaign', htarget, htarget', hgeneration,
    hgeneration']

theorem Tracked.replacement_mem (h : Tracked allowed state) {intent : ActionIntent}
    (hintent : intent ∈ executionLaunches state.1.store.records campaignId taskId)
    (hprior : intent.payload.priorAttemptId ≠ none) :
    intent ∈ replacementsOf state.1.store.records campaignId taskId := by
  obtain ⟨hstored, hkind, hcampaign, hrole, taskIds, htasks, hmem⟩ := mem_executionLaunches.mp hintent
  obtain ⟨attempt, -, -, htask, -⟩ := h.replaced hstored ⟨hkind, hprior⟩
  rw [htask] at htasks
  obtain rfl : [attempt.taskId] = taskIds := Option.some.inj htasks
  rw [← List.mem_singleton.mp hmem] at htask
  exact mem_replacementsOf.mpr ⟨hstored, ⟨hkind, hprior⟩, hcampaign, hrole, htask⟩

theorem Tracked.launches_le (h : Tracked allowed state) {lock : CampaignLock}
    (hlock : .campaignLock lock ∈ state.1.store.records) (hformed : WellFormed lock)
    {policy : LaunchPolicySpec} (hpolicy : launchPolicyOf lock.profiles = .ok policy) :
    (executionLaunches state.1.store.records lock.campaignId taskId).length ≤
      policy.maxInfrastructureAttempts := by
  have hbounded := h.jobs.bounded lock.campaignId taskId policy ⟨lock, hlock, rfl, hpolicy⟩
  have hpositive := hformed.positive policy hpolicy
  have hinitial : ((executionLaunches state.1.store.records lock.campaignId taskId).filter
      fun intent ↦ intent.payload.priorAttemptId.isNone).length ≤ 1 := by
    rw [← List.toFinset_card_of_nodup (h.nodup_launches.filter _)]
    refine Finset.card_le_one.mpr fun first hfirst second hsecond ↦ ?_
    obtain ⟨hmem, hnone⟩ := List.mem_filter.mp (List.mem_toFinset.mp hfirst)
    obtain ⟨hmem', hnone'⟩ := List.mem_filter.mp (List.mem_toFinset.mp hsecond)
    exact h.initial_unique hlock hformed hmem hmem' (Option.isNone_iff_eq_none.mp hnone)
      (Option.isNone_iff_eq_none.mp hnone')
  have hreplaced : ((executionLaunches state.1.store.records lock.campaignId taskId).filter
      fun intent ↦ !intent.payload.priorAttemptId.isNone).length ≤
        (replacementsOf state.1.store.records lock.campaignId taskId).length := by
    refine (List.subperm_of_subset (h.nodup_launches.filter _) fun intent hintent ↦ ?_).length_le
    obtain ⟨hmem, hprior⟩ := List.mem_filter.mp hintent
    refine h.replacement_mem hmem fun hnone ↦ ?_
    simp [hnone] at hprior
  have hsplit := List.length_eq_length_filter_add (l := executionLaunches state.1.store.records
    lock.campaignId taskId) fun intent ↦ intent.payload.priorAttemptId.isNone
  omega

/-- Every task of a campaign is launched at most as often as the policy of the campaign admits, its
batch included; an attempt is replaced by one launch, and a launch has one attempt of a task. -/
theorem launches_bounded {config : Pool} (h : JobRun (fun _ ↦ True) (fun _ _ _ ↦ True) config) :
    (∀ lock policy taskId, .campaignLock lock ∈ config.state.store.records → WellFormed lock →
      launchPolicyOf lock.profiles = .ok policy →
        (executionLaunches config.state.store.records lock.campaignId taskId).length ≤
          policy.maxInfrastructureAttempts) ∧
    (∀ first second, .actionIntent first ∈ config.state.store.records →
      .actionIntent second ∈ config.state.store.records → first.actionKind = .jobLaunch →
        second.actionKind = .jobLaunch → first.payload.priorAttemptId ≠ none →
          first.payload.priorAttemptId = second.payload.priorAttemptId → first = second) ∧
    ∀ first second, .attemptReceipt first ∈ config.state.store.records →
      .attemptReceipt second ∈ config.state.store.records → first.actionId = second.actionId →
        first.taskId = second.taskId → first = second := by
  have htracked := h.tracked
  refine ⟨?_, ?_, htracked.jobs.attemptedOnce⟩
  · exact fun lock policy taskId hlock hformed hpolicy ↦ htracked.launches_le hlock hformed hpolicy
  · intro first second hfirst hsecond hkind hkind' hprior hsame
    exact htracked.jobs.replacedOnce first second hfirst hsecond ⟨hkind, hprior⟩
      ⟨hkind', hsame ▸ hprior⟩ hsame

end

/-! ### A campaign of one task -/

section

local instance runDigests : Digests := plainDigests

/-- There is nothing in the store. -/
def emptyWorld : World := ⟨⟨[], [], []⟩, { ready := true }, []⟩

def trialActor : Actor := ⟨"u", .operator⟩

def trialPolicy : LaunchPolicySpec := ⟨2, 0, false, none, none, ""⟩

def trialDeployment : HfJobDeployment :=
  ⟨"", [], "", 1, true, none, false, "", none, none, none, false, none, none, ""⟩

/-- What the resolver returns: a benchmark of one task, and two attempts of it. -/
def trialResolution : Resolution :=
  ⟨[⟨.deployment, "d", "", .hfJob trialDeployment⟩, ⟨.launchPolicy, "p", "", .launchPolicy trialPolicy⟩,
    ⟨.benchmark, "b", "", .other ""⟩, ⟨.model, "m", "", .other ""⟩, ⟨.harness, "h", "", .other ""⟩],
    [⟨"t", "", none, none⟩], ""⟩

/-- The clock, and the state in which the port reports the resource `r`. -/
def trialChoice (now : ℕ) (observedState : String) : Choice :=
  { now := now
    resolution := .ok trialResolution
    port := .ok ⟨{ outcome := .completed, observedState, resourceId := some "r" }, ""⟩ }

def submitTrial : Act Unit :=
  served (submit "s" ⟨"b", "m", "h", none, "p", 100, true⟩ "k" trialActor)

def trialCampaign : String := campaignIdOf "s" trialActor "k"

def trialLaunch : String := actionIdOf trialCampaign .jobLaunch "campaign-tasks" 0

/-- The campaign is submitted, and a tick admits it and writes the launch of its Job. -/
def launchedRun : List (Event interface ServiceError ThreadRole Choice) :=
  (.spawn .api submitTrial :: List.replicate 12 (.run 0 (trialChoice 1 ""))) ++
    (.spawn .reconciler (tick {}) :: List.replicate 16 (.run 1 (trialChoice 2 "admitted")))

theorem emptyWorld_founding : Founding emptyWorld where
  booted := ⟨emptyWorld, by decide +kernel⟩
  catalog _ hrecord := absurd hrecord List.not_mem_nil

theorem emptyWorld_synced : emptyWorld.Synced := ⟨List.nodup_nil, .refl _⟩

theorem launchedRun_admitted : ∀ event ∈ launchedRun, event.Admitted (JobProgram fun _ ↦ True) := by
  unfold launchedRun
  simp only [List.forall_mem_append, List.forall_mem_cons]
  exact ⟨⟨.submit _ _ _ _, admitted_runs _ _ _⟩, .tick trivial, admitted_runs _ _ _⟩

def trialLock : CampaignLock :=
  { recordId := deterministicId "lock" [trialCampaign]
    createdAt := 1
    actor := trialActor
    campaignId := trialCampaign
    profiles := trialResolution.profiles
    tasks := trialResolution.tasks
    ceilingMicrousd := 100
    sourceRevision := "" }

theorem trialLock_wellFormed : WellFormed trialLock where
  distinct := by decide
  positive policy hpolicy := by
    have hsame : policy = trialPolicy := (Except.ok.inj hpolicy).symm
    rw [hsame]
    decide

/-- The task of a campaign that admits two attempts is launched once. -/
theorem trial_launched_once : ∃ config : Pool,
    JobRun (fun _ ↦ True) (fun _ _ _ ↦ True) config ∧
      .campaignLock trialLock ∈ config.state.store.records ∧ WellFormed trialLock ∧
        launchPolicyOf trialLock.profiles = .ok trialPolicy ∧
          (executionLaunches config.state.store.records trialCampaign "t").length = 1 ∧
            (executionLaunches config.state.store.records trialCampaign "t").length ≤
              trialPolicy.maxInfrastructureAttempts := by
  have hcount : ((Config.initial emptyWorld).runChecked quickMachine ThreadRole.conflict
      (fun _ _ op ↦ writesOwn op) launchedRun).map (fun config ↦
        (decide (.campaignLock trialLock ∈ config.state.store.records),
          (executionLaunches config.state.store.records trialCampaign "t").length)) =
            some (true, 1) := by decide +kernel
  obtain ⟨config, hquick, hcount⟩ := Option.map_eq_some_iff.mp hcount
  obtain ⟨hstored, hlength⟩ := Prod.mk.inj hcount
  have hrun : JobRun (fun _ ↦ True) (fun _ _ _ ↦ True) config :=
    reachable_of_run _ (.start emptyWorld_founding) launchedRun_admitted
      (run_of_quick _ emptyWorld_synced hquick)
  have hstored : .campaignLock trialLock ∈ config.state.store.records := of_decide_eq_true hstored
  exact ⟨config, hrun, hstored, trialLock_wellFormed, rfl, hlength,
    (launches_bounded hrun).1 trialLock trialPolicy "t" hstored trialLock_wellFormed rfl⟩

end

end HarborHF.Control
