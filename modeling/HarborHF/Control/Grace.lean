import HarborHF.Control.Evaluation
import HarborHF.Control.Runs

/-!
# The grace period of a worker

A Job that stops by itself is observed once more after a grace period, before the reconciler takes its
end for the end of its tasks: the first observation that finds it stopped writes the next one with a
deadline, and every later observation carries the deadline on. The observations of a launch form one
chain, so where the launch itself carries no deadline the tasks are given up only after the grace
period (`worker_grace`).

The Job that replaces an attempt takes over the payload of the observation that ended the Job before,
with its deadline. Such a launch has no grace period of its own (`replacement_without_grace`).
-/

set_option autoImplicit false

namespace HarborHF.Control

open Async Program Relational Projection

section

variable [Digests] {allowed : ReconcilerOptions → Prop} {state : World × Log}

/-! ### Identities -/

omit [Digests] in
theorem ActionKind.name_injective : Function.Injective ActionKind.name := by
  intro first second h
  cases first <;> cases second <;> first | rfl | exact absurd h (by decide)

theorem actionIdOf_inj {campaignId campaignId' target target' : String} {kind kind' : ActionKind}
    {generation generation' : ℕ} (h : actionIdOf campaignId kind target generation =
      actionIdOf campaignId' kind' target' generation') :
    campaignId = campaignId' ∧ kind = kind' ∧ target = target' := by
  unfold actionIdOf at h
  simp only [deterministicId_inj, List.cons.injEq] at h
  obtain ⟨-, hcampaign, hkind, htarget, -⟩ := h
  exact ⟨hcampaign, ActionKind.name_injective hkind, htarget⟩

/-- The receipt of an action is the only one. -/
theorem Tracked.receipt_unique (h : Tracked allowed state) {first second : ActionReceipt}
    (hfirst : .actionReceipt first ∈ state.1.store.records)
    (hsecond : .actionReceipt second ∈ state.1.store.records)
    (hid : first.actionId = second.actionId) : first = second := by
  have hidentity : ∀ receipt : ActionReceipt, .actionReceipt receipt ∈ state.1.store.records →
      ∃ kind target generation, receipt.actionId = actionIdOf receipt.campaignId kind target generation := by
    intro receipt hreceipt
    rcases h.jobs.timed receipt hreceipt with ⟨kind, target, generation, -, hid⟩ |
      ⟨intent, hintent, hid, hcampaign, -⟩
    · exact ⟨kind, target, generation, hid⟩
    · have hcanonical : CanonicalIntent intent := h.history.canonical _ hintent
      exact ⟨_, _, _, by rw [hid, hcampaign, hcanonical]⟩
  obtain ⟨_, _, _, hidFirst⟩ := hidentity first hfirst
  obtain ⟨_, _, _, hidSecond⟩ := hidentity second hsecond
  rw [hid, hidSecond] at hidFirst
  have hcampaign := (actionIdOf_inj hidFirst).1
  have hsame := h.history.synced.keyed.eq_of_mem hfirst hsecond (by
    rw [Record.key, Record.key, hcampaign, hid])
  exact Record.actionReceipt.inj hsame

/-! ### The chain of observations -/

/-- The clock of a log never goes back. -/
def Clocked (log : Log) : Prop :=
  ∀ (later earlier : Log) (thread time : ℕ), log = later ++ ⟨thread, .now, (time : ℕ)⟩ :: earlier →
    ∀ thread' time', (⟨thread', .now, (time' : ℕ)⟩ : Performed interface) ∈ later → time ≤ time'

/-- A stored observation of a launch's Job. -/
structure ObservationOf (records : List Record) (launch observation : ActionIntent) : Prop where
  stored : .actionIntent observation ∈ records
  kind : observation.actionKind = .jobObserve
  launch : observation.payload.launchActionId = some launch.actionId

/-- The receipt of a stored action. -/
structure ReceiptOf (records : List Record) (intent : ActionIntent) (receipt : ActionReceipt) :
    Prop where
  stored : .actionReceipt receipt ∈ records
  action : receipt.actionId = intent.actionId

/-- The observations before this one did not find the Job at its end. -/
def Running (records : List Record) (launch observation : ActionIntent) : Prop :=
  ∀ earlier receipt, ObservationOf records launch earlier → ReceiptOf records earlier receipt →
    earlier.generation < observation.generation → ¬ Ended receipt

/-- An observation after the one that found the Job stopped waits for the grace period. -/
structure Waits (records : List Record) (grace : ℕ) (launch observation : ActionIntent)
    (stop : ActionIntent) (receipt : ActionReceipt) : Prop where
  observed : ObservationOf records launch stop
  reported : ReceiptOf records stop receipt
  stopped : Stopped receipt
  first : stop.payload.workerReceiptDeadline = none
  earlier : stop.generation < observation.generation
  deadline : observation.payload.workerReceiptDeadline ≠ none
  due : ∃ notBefore, observation.payload.notBefore = some notBefore ∧
    receipt.createdAt + grace ≤ notBefore

/-- What an observation takes over from its launch, and where it stands in the chain. -/
structure Chained (records : List Record) (grace : ℕ) (launch observation : ActionIntent) : Prop where
  campaign : observation.campaignId = launch.campaignId
  resource : ∃ receipt, ReceiptOf records launch receipt ∧
    receipt.resourceId = some observation.target
  role : observation.payload.workerRole = launch.payload.workerRole
  success : observation.payload.successWithoutWorkerReceipt =
    launch.payload.successWithoutWorkerReceipt
  place : (observation.payload.workerReceiptDeadline = none ∧ Running records launch observation) ∨
    ∃ stop receipt, Waits records grace launch observation stop receipt

variable {grace : ℕ} {launch : ActionIntent}

/-- An observation that has its receipt was due. -/
theorem Tracked.observed_after (h : Tracked allowed state) (hclock : Clocked state.2)
    {observation : ActionIntent} {receipt : ActionReceipt}
    (hobservation : .actionIntent observation ∈ state.1.store.records)
    (hkind : observation.actionKind = .jobObserve)
    (hreceipt : ReceiptOf state.1.store.records observation receipt) {notBefore : ℕ}
    (hdue : observation.payload.notBefore = some notBefore) : notBefore ≤ receipt.createdAt := by
  rcases h.jobs.timed receipt hreceipt.stored with ⟨kind, target, generation, hother, hid⟩ |
    ⟨intent, hintent, hid, -, thread, time, later, earlier, hlog, hbefore, hmem⟩
  · have hcanonical : CanonicalIntent observation := h.history.canonical _ hobservation
    rw [hreceipt.action, hcanonical] at hid
    exact absurd ((actionIdOf_inj hid).2.1.symm.trans hkind) hother
  · have hsame := h.intent_unique hintent hobservation (by rw [← hid, hreceipt.action])
    rw [hsame] at hbefore
    calc notBefore ≤ time := hbefore notBefore hdue
      _ ≤ receipt.createdAt := hclock later earlier thread time hlog thread _ hmem

/-- Two observations of a launch in the same place of the chain are the same. -/
theorem Tracked.observation_unique (h : Tracked allowed state) {first second : ActionIntent}
    (hfirst : ObservationOf state.1.store.records launch first)
    (hsecond : ObservationOf state.1.store.records launch second)
    (hchained : Chained state.1.store.records grace launch first)
    (hchained' : Chained state.1.store.records grace launch second)
    (hgeneration : first.generation = second.generation) : first = second := by
  obtain ⟨receipt, hreceipt, hresource⟩ := hchained.resource
  obtain ⟨receipt', hreceipt', hresource'⟩ := hchained'.resource
  have hsame := h.receipt_unique hreceipt.stored hreceipt'.stored
    (by rw [hreceipt.action, hreceipt'.action])
  rw [hsame, hresource', Option.some.injEq] at hresource
  have hcanonical : CanonicalIntent first := h.history.canonical _ hfirst.stored
  have hcanonical' : CanonicalIntent second := h.history.canonical _ hsecond.stored
  refine h.intent_unique hfirst.stored hsecond.stored ?_
  unfold CanonicalIntent at hcanonical hcanonical'
  rw [hcanonical, hcanonical', hfirst.kind, hsecond.kind, hchained.campaign, hchained'.campaign,
    hresource, hgeneration]

omit [Digests] in
theorem Again.keeps {options : ReconcilerOptions} {previous : ActionIntent} {receipt : ActionReceipt}
    {payload : ActionPayload} (h : Again options previous receipt payload) :
    payload.launchActionId = previous.payload.launchActionId ∧
      payload.workerRole = previous.payload.workerRole ∧
        payload.successWithoutWorkerReceipt = previous.payload.successWithoutWorkerReceipt := by
  cases h <;> exact ⟨rfl, rfl, rfl⟩

/-- The first observation of a launch without a deadline has none. -/
theorem Tracked.chained_first (h : Tracked allowed state)
    (hlaunch : .actionIntent launch ∈ state.1.store.records)
    (hdeadline : launch.payload.workerReceiptDeadline = none) {observation : ActionIntent}
    (hobservation : ObservationOf state.1.store.records launch observation)
    (hgeneration : observation.generation = 0) :
    Chained state.1.store.records grace launch observation := by
  cases h.jobs.observed observation hobservation.stored hobservation.kind with
  | @first options source receipt resourceId createdAt hsource _ hreceipt haction hresource =>
    obtain rfl : source = launch :=
      h.intent_unique hsource hlaunch (Option.some.inj hobservation.launch)
    exact ⟨rfl, ⟨receipt, ⟨hreceipt, haction⟩, hresource⟩, rfl, rfl, .inl ⟨hdeadline,
      fun earlier _ _ _ hearlier ↦ absurd hearlier (Nat.not_lt_zero _)⟩⟩
  | again => exact absurd hgeneration (Nat.succ_ne_zero _)

/-- The next observation goes on where the one before left the chain. -/
theorem Tracked.chained_again (h : Tracked allowed state) (hclock : Clocked state.2)
    {options : ReconcilerOptions} (hgrace : options.workerReceiptGraceMs.getD 0 = grace)
    {previous : ActionIntent} {receipt : ActionReceipt} {payload : ActionPayload} {createdAt : ℕ}
    (hprevious : ObservationOf state.1.store.records launch previous)
    (hchained : Chained state.1.store.records grace launch previous)
    (hothers : ∀ other, ObservationOf state.1.store.records launch other →
      other.generation = previous.generation → Chained state.1.store.records grace launch other)
    (hreceipt : ReceiptOf state.1.store.records previous receipt)
    (hagain : Again options previous receipt payload) :
    Chained state.1.store.records grace launch (actionIntent previous.campaignId .jobObserve
      previous.target (previous.generation + 1) payload serviceActor createdAt) := by
  obtain ⟨-, hrole, hsuccess⟩ := hagain.keeps
  refine ⟨hchained.campaign, hchained.resource, hrole.trans hchained.role,
    hsuccess.trans hchained.success, ?_⟩
  cases hagain with
  | later hrunning =>
    rcases hchained.place with ⟨hnone, hpast⟩ | ⟨stop, stopReceipt, hwaits⟩
    · refine .inl ⟨hnone, fun earlier other hearlier hother hless ↦ ?_⟩
      rcases Nat.lt_succ_iff_lt_or_eq.mp hless with hless | hequal
      · exact hpast earlier other hearlier hother hless
      · -- the observation in the place before is the one that was just seen running
        obtain rfl := h.observation_unique hearlier hprevious (hothers earlier hearlier hequal)
          hchained hequal
        rwa [h.receipt_unique hother.stored hreceipt.stored (by rw [hother.action, hreceipt.action])]
    · obtain ⟨notBefore, hdue, hwait⟩ := hwaits.due
      have hobserved := h.observed_after hclock hprevious.stored hprevious.kind hreceipt hdue
      exact .inr ⟨stop, stopReceipt, { hwaits with
        earlier := Nat.lt_succ_of_lt hwaits.earlier
        deadline := hwaits.deadline
        due := ⟨_, rfl, by omega⟩ }⟩
  | grace hstopped hfirst =>
    exact .inr ⟨previous, receipt, hprevious, hreceipt, hstopped, hfirst, Nat.lt_succ_self _,
      Option.some_ne_none _, _, rfl, by rw [hgrace]⟩

/-- The observations of a launch without a deadline form a chain. The induction is on the place in the
chain: each observation but the first follows from the receipt of the one before. -/
theorem Tracked.chained (h : Tracked allowed state) (hclock : Clocked state.2)
    (hgrace : ∀ options, allowed options → options.workerReceiptGraceMs.getD 0 = grace)
    (hlaunch : .actionIntent launch ∈ state.1.store.records)
    (hdeadline : launch.payload.workerReceiptDeadline = none) (generation : ℕ) :
    ∀ observation, ObservationOf state.1.store.records launch observation →
      observation.generation = generation →
        Chained state.1.store.records grace launch observation := by
  induction generation with
  | zero =>
    exact fun observation hobservation ↦ h.chained_first hlaunch hdeadline hobservation
  | succ generation ih =>
    intro observation hobservation hgeneration
    cases h.jobs.observed observation hobservation.stored hobservation.kind with
    | first => cases hgeneration
    | @again options previous receipt payload createdAt hallowed hstored hkind hreceipt haction hagain =>
      have hprevious : ObservationOf state.1.store.records launch previous :=
        ⟨hstored, hkind, hagain.keeps.1.symm.trans hobservation.launch⟩
      have hplace : previous.generation = generation := Nat.succ.inj hgeneration
      exact h.chained_again hclock (hgrace options hallowed) hprevious (ih previous hprevious hplace)
        (fun other hother hsame ↦ ih other hother (hsame.trans hplace)) ⟨hreceipt, haction⟩ hagain

/-! ### Fallback attempts -/

/-- The first observation that found a launch's Job stopped, and its receipt. -/
structure FirstStop (records : List Record) (launch stop : ActionIntent) (receipt : ActionReceipt) :
    Prop where
  observed : ObservationOf records launch stop
  reported : ReceiptOf records stop receipt
  stopped : Stopped receipt
  first : ∀ other otherReceipt, ObservationOf records launch other →
    ReceiptOf records other otherReceipt → Stopped otherReceipt → stop.generation ≤ other.generation

/-- An attempt that the reconciler recorded from an observation of a launch's Job. -/
structure FallbackOf (records : List Record) (launch observation : ActionIntent)
    (receipt : ActionReceipt) (attempt : AttemptReceipt) : Prop where
  observed : ObservationOf records launch observation
  reported : ReceiptOf records observation receipt
  stored : .attemptReceipt attempt ∈ records
  identity : attempt.attemptId = fallbackId attempt.campaignId attempt.taskId observation.actionId

/-- A fallback attempt rests on the end of its Job. -/
theorem Tracked.fallback_concluded (h : Tracked allowed state) {observation : ActionIntent}
    {receipt : ActionReceipt} {attempt : AttemptReceipt}
    (hfallback : FallbackOf state.1.store.records launch observation receipt attempt) :
    Concluded allowed state.1.store.records observation receipt := by
  obtain ⟨hobserved, hreported, hstored, hidentity⟩ := hfallback
  cases h.jobs.attempted attempt hstored with
  | worker hid =>
    rw [hid] at hidentity
    simp [workerAttemptId, fallbackId] at hidentity
  | @job intent receipt' hintent hreceipt haction hid _ _ hconcluded =>
    rw [hid] at hidentity
    simp only [fallbackId, deterministicId_inj, List.cons.injEq, true_and, and_true] at hidentity
    obtain rfl := h.intent_unique hintent hobserved.stored hidentity
    rwa [h.receipt_unique hreported.stored hreceipt (by rw [hreported.action, haction])]
  | @cancelled intent hintent hkind hid =>
    rw [hid] at hidentity
    simp only [fallbackId, deterministicId_inj, List.cons.injEq, true_and, and_true] at hidentity
    obtain rfl := h.intent_unique hintent hobserved.stored hidentity
    rw [hobserved.kind] at hkind
    cases hkind

/-- A Job that the grace period is for: an execution Job that needs its worker's receipts, in a
campaign that is not being cancelled. -/
structure Graced (records : List Record) (launch : ActionIntent) : Prop where
  stored : .actionIntent launch ∈ records
  kind : launch.actionKind = .jobLaunch
  role : launch.payload.workerRole ≠ some .preparation
  receipts : launch.payload.successWithoutWorkerReceipt ≠ some true
  uncancelled : ∀ cancel, .actionIntent cancel ∈ records →
    cancel.campaignId = launch.campaignId → cancel.actionKind ≠ .campaignCancel

omit [Digests] in
/-- The end of a Job without a deadline is taken for the end of its tasks only when the Job failed. -/
theorem Graced.not_stopped {records : List Record} {observation : ActionIntent}
    {receipt : ActionReceipt} (h : Graced records launch)
    (hgrace : ∀ options, allowed options → options.workerReceiptGraceMs.getD 0 = grace)
    (hpositive : 0 < grace) (hchained : Chained records grace launch observation)
    (hkind : observation.actionKind = .jobObserve)
    (hnone : observation.payload.workerReceiptDeadline = none)
    (hconcluded : Concluded allowed records observation receipt) :
    Ended receipt ∧ ¬ Stopped receipt := by
  obtain ⟨hended, hreason⟩ := hconcluded hkind
  refine ⟨hended, fun hstopped ↦ ?_⟩
  rcases hreason hstopped with hrole | hsuccess | hdeadline | ⟨options, hallowed, hzero⟩ |
    ⟨cancel, hcancel, hcampaign, hkind'⟩
  · exact h.role (hchained.role ▸ hrole)
  · exact h.receipts (hchained.success ▸ hsuccess)
  · exact hdeadline hnone
  · rw [hgrace options hallowed] at hzero
    omega
  · exact h.uncancelled cancel hcancel (hcampaign.trans hchained.campaign) hkind'

/-- In every run of a clock that does not go back, with one grace period for all ticks: a launch that
carries no deadline gets no fallback attempt from an observation made before the grace period after
the first one that found its Job stopped. -/
theorem worker_grace {config : Pool}
    (h : JobRun (fun options ↦ options.workerReceiptGraceMs.getD 0 = grace) (fun _ _ _ ↦ True) config)
    (hclock : Clocked config.trace) (hpositive : 0 < grace)
    (hgraced : Graced config.state.store.records launch)
    (hdeadline : launch.payload.workerReceiptDeadline = none) {stop observation : ActionIntent}
    {stopReceipt receipt : ActionReceipt} {attempt : AttemptReceipt}
    (hstop : FirstStop config.state.store.records launch stop stopReceipt)
    (hfallback : FallbackOf config.state.store.records launch observation receipt attempt) :
    stopReceipt.createdAt + grace ≤ receipt.createdAt := by
  have htracked := h.tracked
  have hchain : ∀ other, ObservationOf config.state.store.records launch other →
      Chained config.state.store.records grace launch other := fun other hother ↦
    htracked.chained hclock (fun _ hallowed ↦ hallowed) hgraced.stored hdeadline other.generation
      other hother rfl
  have hconcluded := htracked.fallback_concluded hfallback
  have hchained := hchain observation hfallback.observed
  -- the chain before the first stop was running
  have hrunning : Running config.state.store.records launch stop := by
    rcases (hchain stop hstop.observed).place with ⟨-, hrunning⟩ | ⟨other, otherReceipt, hwaits⟩
    · exact hrunning
    · have := hstop.first other otherReceipt hwaits.observed hwaits.reported hwaits.stopped
      have := hwaits.earlier
      omega
  rcases hchained.place with ⟨hnone, hpast⟩ | ⟨other, otherReceipt, hwaits⟩
  · obtain ⟨hended, hnot⟩ := hgraced.not_stopped (fun _ hallowed ↦ hallowed) hpositive hchained
      hfallback.observed.kind hnone hconcluded
    -- a Job that failed at once was never seen stopped
    rcases Nat.lt_trichotomy stop.generation observation.generation with hless | hequal | hless
    · exact absurd hstop.stopped.1 (hpast stop stopReceipt hstop.observed hstop.reported hless)
    · have hsame := htracked.observation_unique hstop.observed hfallback.observed
        (hchain stop hstop.observed) hchained hequal
      have hreceipts := htracked.receipt_unique hstop.reported.stored hfallback.reported.stored
        (by rw [hstop.reported.action, hfallback.reported.action, hsame])
      exact absurd (hreceipts ▸ hstop.stopped) hnot
    · exact absurd hended
        (hrunning observation receipt hfallback.observed hfallback.reported hless)
  · -- the stop that set the deadline is the first one
    have hplace : stop.generation = other.generation := by
      refine Nat.le_antisymm
        (hstop.first other otherReceipt hwaits.observed hwaits.reported hwaits.stopped) ?_
      by_contra hless
      rcases (hchain other hwaits.observed).place with ⟨-, hpast⟩ | ⟨_, _, hlate⟩
      · exact hpast stop stopReceipt hstop.observed hstop.reported (Nat.lt_of_not_le hless)
          hstop.stopped.1
      · exact hlate.deadline hwaits.first
    have hsame := htracked.observation_unique hstop.observed hwaits.observed
      (hchain stop hstop.observed) (hchain other hwaits.observed) hplace
    have hreceipts := htracked.receipt_unique hstop.reported.stored hwaits.reported.stored
      (by rw [hstop.reported.action, hwaits.reported.action, hsame])
    obtain ⟨notBefore, hdue, hwait⟩ := hwaits.due
    calc stopReceipt.createdAt + grace = otherReceipt.createdAt + grace := by rw [hreceipts]
      _ ≤ notBefore := hwait
      _ ≤ receipt.createdAt := htracked.observed_after hclock hfallback.observed.stored
        hfallback.observed.kind hfallback.reported hdue

end

/-! ### A Job and its replacement

The Job `r` of a campaign stops without a receipt of its worker. Its task is given up after the grace
period and launched again as the Job `q`, and the task of `q` is given up with the first observation
that finds it stopped. -/

section

local instance graceDigests : Digests := plainDigests

/-- The clock, and the Job and its state that the port reports. -/
def jobChoice (now : ℕ) (observedState resourceId : String) : Choice :=
  { now := now
    port := .ok ⟨{ outcome := .completed, observedState, resourceId := some resourceId }, ""⟩ }

/-- A tick of the reconciler as a thread, with the number of its steps. -/
def tickEvents (thread steps : ℕ) (choice : Choice) :
    List (Event interface ServiceError ThreadRole Choice) :=
  .spawn .reconciler (tick {}) :: List.replicate steps (.run thread choice)

/-- The Job `r` is launched, observed stopped, and observed once more after the grace period. -/
def gracedRun : List (Event interface ServiceError ThreadRole Choice) :=
  launchedRun ++ tickEvents 2 18 (jobChoice 3 "RUNNING" "r") ++
    tickEvents 3 18 (jobChoice 6000 "COMPLETED" "r") ++
      tickEvents 4 34 (jobChoice 70000 "COMPLETED" "r")

/-- The Job `q` replaces it, and is observed stopped. -/
def hastyRun : List (Event interface ServiceError ThreadRole Choice) :=
  gracedRun ++ tickEvents 5 18 (jobChoice 70001 "RUNNING" "q") ++
    tickEvents 6 19 (jobChoice 80000 "COMPLETED" "q")

/-- The times that a log has read, the latest first. -/
def times (log : Log) : List ℕ :=
  log.filterMap fun performed ↦ match performed with
    | ⟨_, .now, time⟩ => some time
    | _ => none

theorem clocked_of_times {log : Log} (h : (times log).Pairwise (· ≥ ·)) : Clocked log := by
  rintro later earlier thread time rfl thread' time' hmem
  have hsplit : times (later ++ ⟨thread, .now, (time : ℕ)⟩ :: earlier) =
      times later ++ time :: times earlier := by
    simp [times]
  rw [hsplit, List.pairwise_append] at h
  exact h.2.2 time' (List.mem_filterMap.mpr ⟨_, hmem, rfl⟩) time List.mem_cons_self

/-- The first stored record of a kind with a property. -/
def firstStored {τ : Type} (records : List Record) (unwrap : Record → Option τ) (select : τ → Bool) :
    Option τ :=
  records.findSome? fun record ↦ (unwrap record).filter select

theorem firstStored_eq_some {τ : Type} {records : List Record} {unwrap : Record → Option τ}
    {wrap : τ → Record} (hunwrap : ∀ record value, unwrap record = some value → record = wrap value)
    {select : τ → Bool} {value : τ} (h : firstStored records unwrap select = some value) :
    wrap value ∈ records ∧ select value = true := by
  obtain ⟨record, hrecord, hsome⟩ := List.exists_of_findSome?_eq_some h
  obtain ⟨hvalue, hselect⟩ := Option.filter_eq_some_iff.mp hsome
  rw [hunwrap record value hvalue] at hrecord
  exact ⟨hrecord, hselect⟩

instance endedDecidable (receipt : ActionReceipt) : Decidable (Ended receipt) :=
  inferInstanceAs (Decidable (_ ∧ _))

instance stoppedDecidable (receipt : ActionReceipt) : Decidable (Stopped receipt) :=
  inferInstanceAs (Decidable (_ ∧ _))

/-- A launch with its fallback attempt, the observation this rests on, and the observation that found
the Job stopped. -/
structure LastLook where
  launch : ActionIntent
  stop : ActionIntent
  stopReceipt : ActionReceipt
  observation : ActionIntent
  receipt : ActionReceipt
  attempt : AttemptReceipt

/-- The end of the launch with an identity, by its observations in two places of the chain. -/
def lastLook (records : List Record) (launchId stopId observationId : String) : Option LastLook := do
  let launch ← firstStored records asIntent fun intent ↦ decide (intent.actionId = launchId)
  let stop ← firstStored records asIntent fun intent ↦ decide (intent.actionId = stopId)
  let stopReceipt ← firstStored records asReceipt fun receipt ↦ decide (receipt.actionId = stopId)
  let observation ← firstStored records asIntent fun intent ↦ decide (intent.actionId = observationId)
  let receipt ← firstStored records asReceipt fun receipt ↦ decide (receipt.actionId = observationId)
  let attempt ← firstStored records attemptOf fun attempt ↦ decide (attempt.attemptId =
    fallbackId attempt.campaignId attempt.taskId observationId)
  return ⟨launch, stop, stopReceipt, observation, receipt, attempt⟩

/-- The launch is graced, the first observation of its Job found it stopped, and there is no
cancellation. -/
def LastLook.Shows (records : List Record) (look : LastLook) : Prop :=
  (look.launch.actionKind = .jobLaunch ∧ look.launch.payload.workerRole ≠ some .preparation ∧
    look.launch.payload.successWithoutWorkerReceipt ≠ some true) ∧
  (look.stop.actionKind = .jobObserve ∧ look.stop.generation = 0 ∧
    look.stop.payload.launchActionId = some look.launch.actionId ∧ Stopped look.stopReceipt) ∧
  (look.observation.actionKind = .jobObserve ∧
    look.observation.payload.launchActionId = some look.launch.actionId) ∧
  ∀ intent ∈ records.filterMap asIntent, intent.actionKind ≠ .campaignCancel

instance showsDecidable (records : List Record) (look : LastLook) : Decidable (look.Shows records) :=
  inferInstanceAs (Decidable (_ ∧ _))

theorem lastLook_spec {records : List Record} {launchId stopId observationId : String}
    {look : LastLook} (h : lastLook records launchId stopId observationId = some look)
    (hshows : look.Shows records) :
    Graced records look.launch ∧ FirstStop records look.launch look.stop look.stopReceipt ∧
      FallbackOf records look.launch look.observation look.receipt look.attempt := by
  simp only [lastLook, Option.bind_eq_bind, Option.pure_def, Option.bind_eq_some_iff,
    Option.some.injEq] at h
  obtain ⟨launch, hlaunch, stop, hstop, stopReceipt, hstopReceipt, observation, hobservation, receipt,
    hreceipt, attempt, hattempt, rfl⟩ := h
  have hintents : ∀ record intent, asIntent record = some intent → record = .actionIntent intent :=
    fun _ _ ↦ asIntent_eq_some
  have hreceipts : ∀ record receipt, asReceipt record = some receipt →
      record = .actionReceipt receipt := fun _ _ ↦ asReceipt_eq_some
  have hattempts : ∀ record attempt, attemptOf record = some attempt →
      record = .attemptReceipt attempt := fun record attempt hsome ↦ by
    cases record <;> simp_all
  obtain ⟨hlaunch, -⟩ := firstStored_eq_some hintents hlaunch
  obtain ⟨hstop, hstopId⟩ := firstStored_eq_some hintents hstop
  obtain ⟨hobservation, hobservationId⟩ := firstStored_eq_some hintents hobservation
  obtain ⟨hstopReceipt, hstopReceiptId⟩ := firstStored_eq_some hreceipts hstopReceipt
  obtain ⟨hreceipt, hreceiptId⟩ := firstStored_eq_some hreceipts hreceipt
  obtain ⟨hattempt, hattemptId⟩ := firstStored_eq_some hattempts hattempt
  simp only [decide_eq_true_eq] at hstopId hobservationId hstopReceiptId hreceiptId hattemptId
  obtain ⟨⟨hkind, hrole, hsuccess⟩, ⟨hstopKind, hfirst, hstopLaunch, hstopped⟩,
    ⟨hobservationKind, hobservationLaunch⟩, huncancelled⟩ := hshows
  refine ⟨⟨hlaunch, hkind, hrole, hsuccess, fun cancel hcancel _ ↦ ?_⟩, ⟨⟨hstop, hstopKind,
    hstopLaunch⟩, ⟨hstopReceipt, by rw [hstopReceiptId, hstopId]⟩, hstopped, fun _ _ _ _ _ ↦ ?_⟩,
    ⟨hobservation, hobservationKind, hobservationLaunch⟩,
    ⟨hreceipt, by rw [hreceiptId, hobservationId]⟩, hattempt, ?_⟩
  · exact huncancelled cancel (List.mem_filterMap.mpr ⟨_, hcancel, rfl⟩)
  · exact hfirst.trans_le (Nat.zero_le _)
  · rw [hattemptId, hobservationId]

/-- The identity of an observation of a Job. -/
def observationId (resourceId : String) (generation : ℕ) : String :=
  actionIdOf trialCampaign .jobObserve resourceId generation

theorem tickEvents_admitted (thread steps : ℕ) (choice : Choice) :
    ∀ event ∈ tickEvents thread steps choice, event.Admitted
      (JobProgram fun options ↦ options.workerReceiptGraceMs.getD 0 = 60000) :=
  List.forall_mem_cons.mpr ⟨.tick rfl, admitted_runs _ _ _⟩

theorem gracedRun_admitted : ∀ event ∈ gracedRun, event.Admitted
    (JobProgram fun options ↦ options.workerReceiptGraceMs.getD 0 = 60000) := by
  unfold gracedRun launchedRun
  simp only [List.forall_mem_append, List.forall_mem_cons]
  exact ⟨⟨⟨⟨⟨.submit _ _ _ _, admitted_runs _ _ _⟩, .tick rfl, admitted_runs _ _ _⟩,
    tickEvents_admitted _ _ _⟩, tickEvents_admitted _ _ _⟩, tickEvents_admitted _ _ _⟩

/-- What a computed run with the grace period of a minute shows. -/
theorem run_shows {events : List (Event interface ServiceError ThreadRole Choice)}
    (launchId stopId observationId : String) (shows : LastLook → Bool)
    (hadmitted : ∀ event ∈ events, event.Admitted
      (JobProgram fun options ↦ options.workerReceiptGraceMs.getD 0 = 60000))
    (hrun : (((Config.initial emptyWorld).runChecked quickMachine ThreadRole.conflict
      (fun _ _ op ↦ writesOwn op) events).map fun config ↦
        ((lastLook config.state.store.records launchId stopId observationId).any fun look ↦
          decide (look.Shows config.state.store.records) && shows look) &&
            decide ((times config.trace).Pairwise (· ≥ ·))) = some true) :
    ∃ (config : Pool) (look : LastLook),
      JobRun (fun options ↦ options.workerReceiptGraceMs.getD 0 = 60000) (fun _ _ _ ↦ True) config ∧
        Clocked config.trace ∧ Graced config.state.store.records look.launch ∧
          FirstStop config.state.store.records look.launch look.stop look.stopReceipt ∧
            FallbackOf config.state.store.records look.launch look.observation look.receipt
              look.attempt ∧ shows look = true := by
  obtain ⟨config, hquick, hshown⟩ := Option.map_eq_some_iff.mp hrun
  obtain ⟨hlook, htimes⟩ := Bool.and_eq_true_iff.mp hshown
  obtain ⟨look, hsome, hlook⟩ := (Option.any_eq_true _ _).mp hlook
  obtain ⟨hshows, hextra⟩ := Bool.and_eq_true_iff.mp hlook
  obtain ⟨hgraced, hstop, hfallback⟩ := lastLook_spec hsome (of_decide_eq_true hshows)
  exact ⟨config, look, reachable_of_run _ (.start emptyWorld_founding) hadmitted
    (run_of_quick _ emptyWorld_synced hquick), clocked_of_times (of_decide_eq_true htimes), hgraced,
    hstop, hfallback, hextra⟩

/-- The task of the Job `r` is given up after the grace period. -/
theorem trial_graced : ∃ (config : Pool) (look : LastLook),
    JobRun (fun options ↦ options.workerReceiptGraceMs.getD 0 = 60000) (fun _ _ _ ↦ True) config ∧
      Graced config.state.store.records look.launch ∧
        FirstStop config.state.store.records look.launch look.stop look.stopReceipt ∧
          FallbackOf config.state.store.records look.launch look.observation look.receipt
            look.attempt ∧ look.stopReceipt.createdAt + 60000 ≤ look.receipt.createdAt := by
  obtain ⟨config, look, hrun, hclock, hgraced, hstop, hfallback, hnone⟩ := run_shows trialLaunch
    (observationId "r" 0) (observationId "r" 1)
    (fun look ↦ decide (look.launch.payload.workerReceiptDeadline = none)) gracedRun_admitted
    (by decide +kernel)
  exact ⟨config, look, hrun, hgraced, hstop, hfallback, worker_grace hrun hclock (by decide) hgraced
    (of_decide_eq_true hnone) hstop hfallback⟩

/-- The task of the Job `q` is given up by the first observation that finds it stopped. -/
theorem replacement_without_grace : ∃ (config : Pool) (look : LastLook),
    JobRun (fun options ↦ options.workerReceiptGraceMs.getD 0 = 60000) (fun _ _ _ ↦ True) config ∧
      Clocked config.trace ∧ Graced config.state.store.records look.launch ∧
        FirstStop config.state.store.records look.launch look.stop look.stopReceipt ∧
          FallbackOf config.state.store.records look.launch look.observation look.receipt
            look.attempt ∧ ¬ look.stopReceipt.createdAt + 60000 ≤ look.receipt.createdAt := by
  have hadmitted : ∀ event ∈ hastyRun, event.Admitted
      (JobProgram fun options ↦ options.workerReceiptGraceMs.getD 0 = 60000) := by
    unfold hastyRun
    simp only [List.forall_mem_append]
    exact ⟨⟨gracedRun_admitted, tickEvents_admitted _ _ _⟩, tickEvents_admitted _ _ _⟩
  obtain ⟨config, look, hrun, hclock, hgraced, hstop, hfallback, hhasty⟩ := run_shows
    (actionIdOf trialCampaign .jobLaunch "t" 1) (observationId "q" 0) (observationId "q" 0)
    (fun look ↦ !decide (look.stopReceipt.createdAt + 60000 ≤ look.receipt.createdAt)) hadmitted
    (by decide +kernel)
  refine ⟨config, look, hrun, hclock, hgraced, hstop, hfallback, ?_⟩
  simpa using hhasty

end

end HarborHF.Control
