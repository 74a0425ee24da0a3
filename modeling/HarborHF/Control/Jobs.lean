import HarborHF.Control.Fences
import HarborHF.Control.Tasks

/-!
# Where the records of Jobs come from

Every launch, observation, attempt and receipt that the service stores has a reason in the records
that were stored before it. A launch is that of a preparation, the first one of a batch of the
campaign's tasks, or the replacement of an attempt (`Launched`). An observation follows the receipt of
a launch or of the observation before it (`Observed`). An attempt is that of a worker, of a Job that
came to its end, or of a cancellation (`Attempted`). The receipt of an observation was written at a
time read after one at which the observation was due (`Timed`).

These reasons speak of stored records and of past operations only, so they stay true. `JobsOf` puts
them together with what does not follow from single records: a task and a launch have at most one
attempt, an attempt at most one replacement, and a task fewer replacements than its campaign's policy
has attempts. `JobsOf.append` is what a further record has to satisfy.
-/

set_option autoImplicit false

namespace HarborHF.Control

open Async Program Relational Projection

section

variable [Digests]

/-! ### Launches -/

/-- The launch policy that the stored lock of a campaign sets. -/
def PolicyOf (records : List Record) (campaignId : String) (policy : LaunchPolicySpec) : Prop :=
  ∃ lock, .campaignLock lock ∈ records ∧ lock.campaignId = campaignId ∧
    launchPolicyOf lock.profiles = .ok policy

/-- The batches in which the tasks of a lock are launched. -/
def launchBatches (lock : CampaignLock) (deployment : HfJobDeployment) : List (List String) :=
  let taskIds := lock.tasks.map (·.taskId)
  let maximum := deployment.workerMaxTasksPerJob.getD taskIds.length
  if maximum < taskIds.length then batches maximum taskIds.length taskIds else [taskIds]

/-- The target of the launch of a batch. -/
def batchTarget (lock : CampaignLock) (taskIds : List String) : String :=
  if taskIds.length = lock.tasks.length then "campaign-tasks"
  else "campaign-tasks-" ++ batchKey taskIds

/-- A payload is that of a preparation, or has the campaign's limit on attempts. -/
def Planned (records : List Record) (campaignId : String) (payload : ActionPayload) : Prop :=
  payload.workerRole = some .preparation ∨
    ∃ policy, PolicyOf records campaignId policy ∧
      payload.maxInfrastructureAttempts = some policy.maxInfrastructureAttempts

/-- A launch replaces an attempt. -/
def Replaces (intent : ActionIntent) : Prop :=
  intent.actionKind = .jobLaunch ∧ intent.payload.priorAttemptId ≠ none

/-- Where a launch comes from. -/
inductive Launched (records : List Record) (intent : ActionIntent) : Prop
  | preparation (hrole : intent.payload.workerRole = some .preparation)
      (hprior : intent.payload.priorAttemptId = none)
  | initial {lock : CampaignLock} {deployment : HfJobDeployment} {policy : LaunchPolicySpec}
      {prepared : Option PreparedJob} {taskIds : List String}
      (hlock : .campaignLock lock ∈ records) (hcampaign : lock.campaignId = intent.campaignId)
      (hdeployment : lockedDeployment lock = .ok (some deployment))
      (hbatch : taskIds ∈ launchBatches lock deployment)
      (htarget : intent.target = batchTarget lock taskIds) (hgeneration : intent.generation = 0)
      (hpayload : intent.payload = executionPayload deployment policy lock prepared taskIds)
  | replacement {attempt : AttemptReceipt} (hattempt : .attemptReceipt attempt ∈ records)
      (hcampaign : attempt.campaignId = intent.campaignId)
      (htask : intent.payload.taskIds = some [attempt.taskId])
      (hprior : intent.payload.priorAttemptId = some attempt.attemptId)

/-- The replacements of a task's attempts by execution Jobs. -/
def replacementOf (campaignId taskId : String) : Record → Option ActionIntent
  | .actionIntent intent =>
    if intent.actionKind = .jobLaunch ∧ intent.campaignId = campaignId ∧
        intent.payload.workerRole ≠ some .preparation ∧ intent.payload.priorAttemptId.isSome = true ∧
          intent.payload.taskIds = some [taskId] then some intent
    else none
  | _ => none

def replacementsOf (records : List Record) (campaignId taskId : String) : List ActionIntent :=
  records.filterMap (replacementOf campaignId taskId)

/-! ### Observations -/

/-- An observed Job has ended. -/
def Ended (receipt : ActionReceipt) : Prop :=
  receipt.outcome ≠ .failed ∧ jobStateIsTerminal (some (toUpperCase receipt.observedState)) = true

/-- An observed Job has stopped by itself. -/
def Stopped (receipt : ActionReceipt) : Prop :=
  Ended receipt ∧ (toUpperCase receipt.observedState = "STOPPED" ∨
    toUpperCase receipt.observedState = "COMPLETED")

/-- The payload of the observation after another one: later, or after the grace period that follows
the end of a Job. -/
inductive Again (options : ReconcilerOptions) (previous : ActionIntent) (receipt : ActionReceipt) :
    ActionPayload → Prop
  | later (hrunning : ¬ Ended receipt) :
      Again options previous receipt { previous.payload with
        notBefore := some (receipt.createdAt + options.observationIntervalMs) }
  | grace (hstopped : Stopped receipt) (hfirst : previous.payload.workerReceiptDeadline = none) :
      Again options previous receipt { previous.payload with
        notBefore := some (receipt.createdAt + options.workerReceiptGraceMs.getD 0)
        workerReceiptDeadline := some (receipt.createdAt + options.workerReceiptGraceMs.getD 0) }

/-- Where an observation comes from: the receipt of a launch, or of the observation before. -/
inductive Observed (allowed : ReconcilerOptions → Prop) (records : List Record) :
    ActionIntent → Prop
  | first {options : ReconcilerOptions} {launch : ActionIntent} {receipt : ActionReceipt}
      {resourceId : String} {createdAt : ℕ} (hlaunch : .actionIntent launch ∈ records)
      (hkind : launch.actionKind = .jobLaunch) (hreceipt : .actionReceipt receipt ∈ records)
      (haction : receipt.actionId = launch.actionId)
      (hresource : receipt.resourceId = some resourceId) :
      Observed allowed records (actionIntent launch.campaignId .jobObserve resourceId 0
        { launch.payload with
          resourceId := some resourceId
          launchActionId := some launch.actionId
          notBefore := some (receipt.createdAt + options.observationIntervalMs) }
        serviceActor createdAt)
  | again {options : ReconcilerOptions} {previous : ActionIntent} {receipt : ActionReceipt}
      {payload : ActionPayload} {createdAt : ℕ} (hallowed : allowed options)
      (hprevious : .actionIntent previous ∈ records) (hkind : previous.actionKind = .jobObserve)
      (hreceipt : .actionReceipt receipt ∈ records) (haction : receipt.actionId = previous.actionId)
      (hpayload : Again options previous receipt payload) :
      Observed allowed records (actionIntent previous.campaignId .jobObserve previous.target
        (previous.generation + 1) payload serviceActor createdAt)

/-- The receipt of an observation was written at a time that was read after the observation was
due. -/
def Due (log : Log) (intent : ActionIntent) (receipt : ActionReceipt) : Prop :=
  ∃ (thread time : ℕ) (later earlier : Log),
    log = later ++ ⟨thread, .now, (time : ℕ)⟩ :: earlier ∧
      (∀ notBefore, intent.payload.notBefore = some notBefore → notBefore ≤ time) ∧
        (⟨thread, .now, (receipt.createdAt : ℕ)⟩ : Performed interface) ∈ later

/-- A receipt belongs to another kind of action, or to an observation that was due. -/
def Timed (records : List Record) (log : Log) (receipt : ActionReceipt) : Prop :=
  (∃ kind target generation, kind ≠ .jobObserve ∧
    receipt.actionId = actionIdOf receipt.campaignId kind target generation) ∨
  ∃ intent, .actionIntent intent ∈ records ∧ receipt.actionId = intent.actionId ∧
    receipt.campaignId = intent.campaignId ∧ Due log intent receipt

/-! ### Attempts -/

/-- A Job's end was taken as the end of its tasks. A Job that stopped by itself was given its grace
period before, unless there is none. -/
def Concluded (allowed : ReconcilerOptions → Prop) (records : List Record) (intent : ActionIntent)
    (receipt : ActionReceipt) : Prop :=
  intent.actionKind = .jobObserve → Ended receipt ∧
    (Stopped receipt → intent.payload.workerRole = some .preparation ∨
      intent.payload.successWithoutWorkerReceipt = some true ∨
        intent.payload.workerReceiptDeadline ≠ none ∨
          (∃ options, allowed options ∧ options.workerReceiptGraceMs.getD 0 = 0) ∨
            ∃ cancel, .actionIntent cancel ∈ records ∧ cancel.campaignId = intent.campaignId ∧
              cancel.actionKind = .campaignCancel)

/-- The identity of an attempt that the service records for an action. -/
def fallbackId (campaignId taskId actionId : String) : String :=
  deterministicId "attempt" [campaignId, taskId, actionId]

/-- The identity of an attempt that a worker records. -/
def workerAttemptId (campaignId taskId idempotencyKey : String) : String :=
  deterministicId "worker-attempt" [campaignId, taskId, sha256 idempotencyKey]

/-- Where an attempt comes from. -/
inductive Attempted (allowed : ReconcilerOptions → Prop) (records : List Record)
    (attempt : AttemptReceipt) : Prop
  | worker {idempotencyKey : String}
      (hid : attempt.attemptId = workerAttemptId attempt.campaignId attempt.taskId idempotencyKey)
  | job {intent : ActionIntent} {receipt : ActionReceipt} (hintent : .actionIntent intent ∈ records)
      (hreceipt : .actionReceipt receipt ∈ records) (haction : receipt.actionId = intent.actionId)
      (hid : attempt.attemptId = fallbackId attempt.campaignId attempt.taskId intent.actionId)
      (htime : attempt.createdAt = receipt.createdAt)
      (hlaunch : launchActionOf intent = .ok attempt.actionId)
      (hconcluded : Concluded allowed records intent receipt)
  | cancelled {intent : ActionIntent} (hintent : .actionIntent intent ∈ records)
      (hkind : intent.actionKind = .campaignCancel)
      (hid : attempt.attemptId = fallbackId attempt.campaignId attempt.taskId intent.actionId)

/-- The action of an attempt. -/
def Eligible (records : List Record) (attempt : AttemptReceipt) : Prop :=
  ∃ intent, .actionIntent intent ∈ records ∧ intent.actionId = attempt.actionId ∧
    intent.campaignId = attempt.campaignId

/-! ### Reasons last -/

section

variable {allowed : ReconcilerOptions → Prop} {records records' : List Record} {log log' : Log}

omit [Digests] in
theorem PolicyOf.mono {campaignId : String} {policy : LaunchPolicySpec}
    (h : PolicyOf records campaignId policy) (hsubset : ∀ record ∈ records, record ∈ records') :
    PolicyOf records' campaignId policy := by
  obtain ⟨lock, hlock, hrest⟩ := h
  exact ⟨lock, hsubset _ hlock, hrest⟩

omit [Digests] in
theorem Planned.mono {campaignId : String} {payload : ActionPayload}
    (h : Planned records campaignId payload) (hsubset : ∀ record ∈ records, record ∈ records') :
    Planned records' campaignId payload := by
  rcases h with hrole | ⟨policy, hpolicy, hlimit⟩
  · exact .inl hrole
  · exact .inr ⟨policy, hpolicy.mono hsubset, hlimit⟩

theorem Launched.mono {intent : ActionIntent} (h : Launched records intent)
    (hsubset : ∀ record ∈ records, record ∈ records') : Launched records' intent := by
  cases h with
  | preparation hrole hprior => exact .preparation hrole hprior
  | initial hlock hcampaign hdeployment hbatch htarget hgeneration hpayload =>
    exact .initial (hsubset _ hlock) hcampaign hdeployment hbatch htarget hgeneration hpayload
  | replacement hattempt hcampaign htask hprior =>
    exact .replacement (hsubset _ hattempt) hcampaign htask hprior

theorem Observed.mono {intent : ActionIntent} (h : Observed allowed records intent)
    (hsubset : ∀ record ∈ records, record ∈ records') : Observed allowed records' intent := by
  cases h with
  | first hlaunch hkind hreceipt haction hresource =>
    exact .first (hsubset _ hlaunch) hkind (hsubset _ hreceipt) haction hresource
  | again hallowed hprevious hkind hreceipt haction hpayload =>
    exact .again hallowed (hsubset _ hprevious) hkind (hsubset _ hreceipt) haction hpayload

omit [Digests] in
theorem Concluded.mono {intent : ActionIntent} {receipt : ActionReceipt}
    (h : Concluded allowed records intent receipt)
    (hsubset : ∀ record ∈ records, record ∈ records') :
    Concluded allowed records' intent receipt := by
  intro hkind
  obtain ⟨hended, hstopped⟩ := h hkind
  refine ⟨hended, fun hstop ↦ ?_⟩
  rcases hstopped hstop with hrole | hsuccess | hdeadline | hgrace | ⟨cancel, hcancel, hrest⟩
  · exact .inl hrole
  · exact .inr (.inl hsuccess)
  · exact .inr (.inr (.inl hdeadline))
  · exact .inr (.inr (.inr (.inl hgrace)))
  · exact .inr (.inr (.inr (.inr ⟨cancel, hsubset _ hcancel, hrest⟩)))

theorem Attempted.mono {attempt : AttemptReceipt} (h : Attempted allowed records attempt)
    (hsubset : ∀ record ∈ records, record ∈ records') : Attempted allowed records' attempt := by
  cases h with
  | worker hid => exact .worker hid
  | job hintent hreceipt haction hid htime hlaunch hconcluded =>
    exact .job (hsubset _ hintent) (hsubset _ hreceipt) haction hid htime hlaunch
      (hconcluded.mono hsubset)
  | cancelled hintent hkind hid => exact .cancelled (hsubset _ hintent) hkind hid

omit [Digests] in
theorem Eligible.mono {attempt : AttemptReceipt} (h : Eligible records attempt)
    (hsubset : ∀ record ∈ records, record ∈ records') : Eligible records' attempt := by
  obtain ⟨intent, hintent, hrest⟩ := h
  exact ⟨intent, hsubset _ hintent, hrest⟩

theorem Timed.mono {receipt : ActionReceipt} (h : Timed records log receipt)
    (hsubset : ∀ record ∈ records, record ∈ records') (hlog : ∃ added, log' = added ++ log) :
    Timed records' log' receipt := by
  obtain ⟨added, rfl⟩ := hlog
  rcases h with hother | ⟨intent, hintent, haction, hcampaign, thread, time, later, earlier, rfl,
    hdue, hmem⟩
  · exact .inl hother
  · refine .inr ⟨intent, hsubset _ hintent, haction, hcampaign, thread, time, added ++ later, earlier,
      ?_, hdue, ?_⟩
    · rw [List.append_assoc]
    · exact List.mem_append_right added hmem

end

/-! ### The invariant of the records -/

/-- The records of Jobs have their reasons, each task and launch has one attempt, each attempt one
replacement, and each task fewer replacements than the policy has attempts. -/
structure JobsOf (allowed : ReconcilerOptions → Prop) (records : List Record) (log : Log) : Prop where
  launched : ∀ intent, .actionIntent intent ∈ records → intent.actionKind = .jobLaunch →
    Launched records intent
  planned : ∀ intent, .actionIntent intent ∈ records →
    intent.actionKind = .jobLaunch ∨ intent.actionKind = .jobObserve →
      Planned records intent.campaignId intent.payload
  observed : ∀ intent, .actionIntent intent ∈ records → intent.actionKind = .jobObserve →
    Observed allowed records intent
  attempted : ∀ attempt, .attemptReceipt attempt ∈ records → Attempted allowed records attempt
  eligible : ∀ attempt, .attemptReceipt attempt ∈ records → Eligible records attempt
  timed : ∀ receipt, .actionReceipt receipt ∈ records → Timed records log receipt
  attemptedOnce : ∀ first second, .attemptReceipt first ∈ records →
    .attemptReceipt second ∈ records → first.actionId = second.actionId →
      first.taskId = second.taskId → first = second
  replacedOnce : ∀ first second, .actionIntent first ∈ records → .actionIntent second ∈ records →
    Replaces first → Replaces second →
      first.payload.priorAttemptId = second.payload.priorAttemptId → first = second
  bounded : ∀ campaignId taskId policy, PolicyOf records campaignId policy →
    (replacementsOf records campaignId taskId).length < max 1 policy.maxInfrastructureAttempts

/-- What a launch has to satisfy before it is stored. -/
structure LaunchReady (records : List Record) (intent : ActionIntent) : Prop where
  launched : Launched records intent
  once : ∀ other, .actionIntent other ∈ records → Replaces other → Replaces intent →
    other.payload.priorAttemptId ≠ intent.payload.priorAttemptId
  room : ∀ taskId policy, (replacementOf intent.campaignId taskId (.actionIntent intent)).isSome →
    PolicyOf records intent.campaignId policy →
      (replacementsOf records intent.campaignId taskId).length + 1 < policy.maxInfrastructureAttempts

/-- What a record has to satisfy before it is stored. -/
def Founded (allowed : ReconcilerOptions → Prop) (records : List Record) (log : Log) : Record → Prop
  | .actionIntent intent =>
    (intent.actionKind = .jobLaunch → LaunchReady records intent) ∧
      (intent.actionKind = .jobObserve → Observed allowed records intent) ∧
        (intent.actionKind = .jobLaunch ∨ intent.actionKind = .jobObserve →
          Planned records intent.campaignId intent.payload)
  | .attemptReceipt attempt =>
    Attempted allowed records attempt ∧ Eligible records attempt ∧
      ∀ other, .attemptReceipt other ∈ records →
        ¬ (other.actionId = attempt.actionId ∧ other.taskId = attempt.taskId)
  | .actionReceipt receipt => Timed records log receipt
  | _ => True

section

variable {allowed : ReconcilerOptions → Prop} {records : List Record} {log log' : Log}
  {campaignId taskId : String}

/-- A record of the catalog: no campaign has it. -/
def isCatalog : Record → Bool
  | .profileObject _ => true
  | .profilePromotion _ => true
  | .operatorAcl _ => true
  | .migrationRecord _ => true
  | _ => false

theorem jobsOf_of_catalog (h : ∀ record ∈ records, isCatalog record = true) :
    JobsOf allowed records log where
  launched intent hintent := by cases h _ hintent
  planned intent hintent := by cases h _ hintent
  observed intent hintent := by cases h _ hintent
  attempted attempt hattempt := by cases h _ hattempt
  eligible attempt hattempt := by cases h _ hattempt
  timed receipt hreceipt := by cases h _ hreceipt
  attemptedOnce first second hfirst := by cases h _ hfirst
  replacedOnce first second hfirst := by cases h _ hfirst
  bounded campaignId taskId policy hpolicy := by
    obtain ⟨lock, hlock, -⟩ := hpolicy
    cases h _ hlock

theorem JobsOf.log_mono (h : JobsOf allowed records log) (hlog : ∃ added, log' = added ++ log) :
    JobsOf allowed records log' :=
  ⟨h.launched, h.planned, h.observed, h.attempted, h.eligible,
    fun receipt hreceipt ↦ (h.timed receipt hreceipt).mono (fun _ hmem ↦ hmem) hlog,
    h.attemptedOnce, h.replacedOnce, h.bounded⟩

omit [Digests] in
theorem replacementsOf_append (campaignId taskId : String) (record : Record) :
    replacementsOf (records ++ [record]) campaignId taskId =
      replacementsOf records campaignId taskId ++ (replacementOf campaignId taskId record).toList := by
  unfold replacementsOf
  rw [List.filterMap_append]
  cases hrecord : replacementOf campaignId taskId record <;> simp [hrecord]

omit [Digests] in
theorem replacementOf_eq_some {record : Record} {intent : ActionIntent} :
    replacementOf campaignId taskId record = some intent ↔
      record = .actionIntent intent ∧ Replaces intent ∧ intent.campaignId = campaignId ∧
        intent.payload.workerRole ≠ some .preparation ∧ intent.payload.taskIds = some [taskId] := by
  cases record with
  | actionIntent other =>
    simp only [replacementOf, Replaces, Option.ite_none_right_eq_some, Option.some.injEq,
      Record.actionIntent.injEq, Option.isSome_iff_ne_none]
    constructor
    · rintro ⟨⟨hkind, hcampaign, hrole, hprior, htask⟩, rfl⟩
      exact ⟨rfl, ⟨hkind, hprior⟩, hcampaign, hrole, htask⟩
    · rintro ⟨rfl, ⟨hkind, hprior⟩, hcampaign, hrole, htask⟩
      exact ⟨⟨hkind, hcampaign, hrole, hprior, htask⟩, rfl⟩
  | _ => simp [replacementOf]

omit [Digests] in
theorem mem_replacementsOf {intent : ActionIntent} :
    intent ∈ replacementsOf records campaignId taskId ↔
      .actionIntent intent ∈ records ∧ Replaces intent ∧ intent.campaignId = campaignId ∧
        intent.payload.workerRole ≠ some .preparation ∧ intent.payload.taskIds = some [taskId] := by
  unfold replacementsOf
  rw [List.mem_filterMap]
  constructor
  · rintro ⟨record, hrecord, hintent⟩
    obtain ⟨rfl, hrest⟩ := replacementOf_eq_some.mp hintent
    exact ⟨hrecord, hrest⟩
  · rintro ⟨hstored, hrest⟩
    exact ⟨_, hstored, replacementOf_eq_some.mpr ⟨rfl, hrest⟩⟩

variable {record : Record}

omit [Digests] in
theorem mem_append_record {other : Record} :
    other ∈ records ++ [record] ↔ other ∈ records ∨ record = other := by
  rw [List.mem_append, List.mem_singleton, eq_comm]

theorem JobsOf.policy_of_replacement (h : JobsOf allowed records log)
    {intent : ActionIntent} (hintent : intent ∈ replacementsOf records campaignId taskId) :
    ∃ policy, PolicyOf records campaignId policy := by
  obtain ⟨hstored, hreplaces, rfl, hrole, -⟩ := mem_replacementsOf.mp hintent
  rcases h.planned intent hstored (.inl hreplaces.1) with hpreparation | ⟨policy, hpolicy, -⟩
  · exact absurd hpreparation hrole
  · exact ⟨policy, hpolicy⟩

theorem JobsOf.bounded_append (h : JobsOf allowed records log)
    (hfresh : Free Record.key record.key records) (hfounded : Founded allowed records log record)
    {policy : LaunchPolicySpec} (hpolicy : PolicyOf (records ++ [record]) campaignId policy) :
    (replacementsOf (records ++ [record]) campaignId taskId).length <
      max 1 policy.maxInfrastructureAttempts := by
  obtain ⟨lock, hlock, hcampaign, hprofiles⟩ := hpolicy
  rw [replacementsOf_append]
  rcases mem_append_record.mp hlock with hold | hnew
  · have hpolicy : PolicyOf records campaignId policy := ⟨lock, hold, hcampaign, hprofiles⟩
    cases hrecord : replacementOf campaignId taskId record with
    | none => simpa using h.bounded campaignId taskId policy hpolicy
    | some intent =>
      obtain ⟨rfl, hreplaces, rfl, -⟩ := replacementOf_eq_some.mp hrecord
      have hroom := (hfounded.1 hreplaces.1).room taskId policy (by rw [hrecord]; rfl) hpolicy
      simp only [Option.toList_some, List.length_append, List.length_singleton]
      omega
  · -- a campaign that gets its lock has no replacements yet
    subst hnew
    have hnone : replacementsOf records campaignId taskId = [] := by
      refine List.eq_nil_iff_forall_not_mem.mpr fun intent hintent ↦ ?_
      obtain ⟨-, other, hother, hname, -⟩ := h.policy_of_replacement hintent
      exact hfresh _ hother (by rw [Record.key, Record.key, hname, hcampaign])
    rw [hnone]
    simp [replacementOf]

/-- A fresh record with its reason keeps the invariant. -/
theorem JobsOf.append (h : JobsOf allowed records log)
    (hfresh : Free Record.key record.key records) (hfounded : Founded allowed records log record) :
    JobsOf allowed (records ++ [record]) log := by
  have hsubset : ∀ other ∈ records, other ∈ records ++ [record] :=
    fun other hother ↦ List.mem_append_left _ hother
  constructor
  · intro intent hintent hkind
    rcases mem_append_record.mp hintent with hold | rfl
    · exact (h.launched intent hold hkind).mono hsubset
    · exact (hfounded.1 hkind).launched.mono hsubset
  · intro intent hintent hkind
    rcases mem_append_record.mp hintent with hold | rfl
    · exact (h.planned intent hold hkind).mono hsubset
    · exact (hfounded.2.2 hkind).mono hsubset
  · intro intent hintent hkind
    rcases mem_append_record.mp hintent with hold | rfl
    · exact (h.observed intent hold hkind).mono hsubset
    · exact (hfounded.2.1 hkind).mono hsubset
  · intro attempt hattempt
    rcases mem_append_record.mp hattempt with hold | rfl
    · exact (h.attempted attempt hold).mono hsubset
    · exact hfounded.1.mono hsubset
  · intro attempt hattempt
    rcases mem_append_record.mp hattempt with hold | rfl
    · exact (h.eligible attempt hold).mono hsubset
    · exact hfounded.2.1.mono hsubset
  · intro receipt hreceipt
    rcases mem_append_record.mp hreceipt with hold | rfl
    · exact (h.timed receipt hold).mono hsubset ⟨[], rfl⟩
    · exact Timed.mono hfounded hsubset ⟨[], rfl⟩
  · intro first second hfirst hsecond haction htask
    rcases mem_append_record.mp hfirst with hold | rfl
    · rcases mem_append_record.mp hsecond with hold' | rfl
      · exact h.attemptedOnce first second hold hold' haction htask
      · exact absurd ⟨haction, htask⟩ (hfounded.2.2 first hold)
    · rcases mem_append_record.mp hsecond with hold' | heq
      · exact absurd ⟨haction.symm, htask.symm⟩ (hfounded.2.2 second hold')
      · exact Record.attemptReceipt.inj heq
  · intro first second hfirst hsecond hreplaces hreplaces' hprior
    rcases mem_append_record.mp hfirst with hold | rfl
    · rcases mem_append_record.mp hsecond with hold' | rfl
      · exact h.replacedOnce first second hold hold' hreplaces hreplaces' hprior
      · exact absurd hprior ((hfounded.1 hreplaces'.1).once first hold hreplaces hreplaces')
    · rcases mem_append_record.mp hsecond with hold' | heq
      · exact absurd hprior.symm ((hfounded.1 hreplaces.1).once second hold' hreplaces' hreplaces)
      · exact Record.actionIntent.inj heq
  · exact fun campaignId taskId policy hpolicy ↦ h.bounded_append hfresh hfounded hpolicy

end

end

end HarborHF.Control
