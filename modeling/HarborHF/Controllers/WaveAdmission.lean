import Mathlib.Tactic.Linarith
import HarborHF.Campaign.Reconciler

/-!
# Admitting the next wave

A controller takes the time it has used from a monotonic clock. It starts some seconds after its
physical Job, so it sets the physical start as many whole seconds back as its wall clock shows
(`startedMonotonic`), and before each wave it compares what is left of the Job's timeout with its
reserve and the planned seconds of the wave (`decideRemainingTime`).

A monotonic clock counts from an arbitrary origin. The input of the comparison has to be a reading
that is not negative, and the physical start is one only if the clock had counted the bootstrap
seconds by the time the controller started. `steady_iff` says that this is what the decision for a
wave depends on: with two such readings it is the same decision, and with an earlier one the
controller ends as failed for good.
-/

set_option autoImplicit false

namespace HarborHF.WaveAdmission

open Campaign Relational

/-! ### Errors -/

/-- What the controller raises here: a `CampaignControllerError`, an input with invalid fields, an
input its own check rejects, or an error of the campaign code. -/
inductive ControllerError
  | controller (message : String)
  | invalidFields (fields : List String)
  | invalidInput (message : String)
  | campaign (error : CampaignError)
  deriving DecidableEq

/-- The states of a controller that raised. -/
inductive FailedState
  | failedInfrastructure | failedDeterministic
  deriving DecidableEq

/-- The state in which `run` ends for an error: a `ValueError`, as a validation error is, is
deterministic. -/
def failedState : ControllerError → FailedState
  | .invalidFields _ | .invalidInput _ | .campaign (.value _) => .failedDeterministic
  | .controller _ | .campaign _ => .failedInfrastructure

/-- The errors about the readings of the clock. -/
def ControllerError.OfClock : ControllerError → Prop
  | .invalidFields fields => "physical_started_monotonic" ∈ fields ∨ "monotonic_now" ∈ fields
  | .invalidInput message => message = "controller monotonic time moved backwards"
  | .controller _ | .campaign _ => False

/-! ### The physical start -/

/-- A point in time in seconds, with its distance from UTC if it has one. -/
structure DateTime where
  instant : ℚ
  utcoffset : Option ℤ
  deriving DecidableEq

/-- `_physical_start`. -/
def physicalStart (physicalStartedAt : Option DateTime) (controllerStartedAt : ℚ) :
    Except ControllerError ℚ :=
  let startedAt := physicalStartedAt.getD ⟨controllerStartedAt, some 0⟩
  if startedAt.utcoffset ≠ some 0 then .error (.controller "physical Job start must use UTC")
  else if controllerStartedAt < startedAt.instant then
    .error (.controller "physical Job start is in the future")
  else .ok startedAt.instant

/-- The seconds from the physical start to the controller's, rounded up. -/
def bootstrapSeconds (controllerStartedAt startedAt : ℚ) : ℤ := ⌈controllerStartedAt - startedAt⌉

/-- The monotonic reading of the physical start, from the reading at the controller's. -/
def startedMonotonic (physicalStartedAt : Option DateTime) (controllerStartedAt reading : ℚ) :
    Except ControllerError ℚ := do
  let startedAt ← physicalStart physicalStartedAt controllerStartedAt
  return reading - bootstrapSeconds controllerStartedAt startedAt

/-! ### The remaining time -/

/-- The integer part (`int`). -/
def truncate (x : ℚ) : ℤ := if 0 ≤ x then ⌊x⌋ else ⌈x⌉

/-- The whole seconds since a reading, and none before it. -/
def elapsedSeconds (started now : ℚ) : ℕ := (max 0 (truncate (now - started))).toNat

structure RemainingTimeFields where
  physicalStartedMonotonic : ℚ
  physicalTimeoutSeconds : ℕ
  monotonicNow : ℚ
  controllerReserveSeconds : ℕ
  plannedNextWaveSeconds : Option ℕ := none
  workRemaining : Bool
  activeCleanupRequired : Bool := false
  capacityAssumptionsValid : Bool := true
  policyAllowsWork : Bool := true
  deriving DecidableEq

/-- The fields out of their bounds. -/
def RemainingTimeFields.outOfBounds (fields : RemainingTimeFields) : List String :=
  (if fields.physicalStartedMonotonic < 0 then ["physical_started_monotonic"] else []) ++
  (if fields.physicalTimeoutSeconds < 1 then ["physical_timeout_seconds"] else []) ++
  (if fields.monotonicNow < 0 then ["monotonic_now"] else []) ++
  (if fields.controllerReserveSeconds < 1 then ["controller_reserve_seconds"] else []) ++
  (if fields.plannedNextWaveSeconds = some 0 then ["planned_next_wave_seconds"] else [])

/-- `RemainingTimeInput`: fields in their bounds, with a time that did not move backwards and a
planned wave exactly if work remains. -/
structure RemainingTimeInput extends RemainingTimeFields where
  inBounds : toRemainingTimeFields.outOfBounds = []
  forwards : physicalStartedMonotonic ≤ monotonicNow
  planned : workRemaining = plannedNextWaveSeconds.isSome

/-- Validate the fields of an input. -/
def RemainingTimeFields.validate (fields : RemainingTimeFields) :
    Except ControllerError RemainingTimeInput :=
  if hbounds : fields.outOfBounds = [] then
    if hforwards : fields.physicalStartedMonotonic ≤ fields.monotonicNow then
      if hplanned : fields.workRemaining = fields.plannedNextWaveSeconds.isSome then
        .ok ⟨fields, hbounds, hforwards, hplanned⟩
      else .error (.invalidInput "remaining work requires one planned next-wave duration")
    else .error (.invalidInput "controller monotonic time moved backwards")
  else .error (.invalidFields fields.outOfBounds)

inductive AdmissionDecision
  | admitted | wait | finalize | pauseCapacity | pausePolicy
  deriving DecidableEq

structure RemainingTimeAdmission where
  decision : AdmissionDecision
  elapsedSeconds : ℕ
  availableSeconds : ℕ
  requiredSeconds : ℕ
  reason : String
  deriving DecidableEq

def decideRemainingTime (value : RemainingTimeInput) : RemainingTimeAdmission :=
  let elapsed := elapsedSeconds value.physicalStartedMonotonic value.monotonicNow
  let available := value.physicalTimeoutSeconds - elapsed
  let reserve := value.controllerReserveSeconds
  let required := reserve + value.plannedNextWaveSeconds.getD 0
  if value.policyAllowsWork = false then ⟨.pausePolicy, elapsed, available, required, "policy block"⟩
  else if value.capacityAssumptionsValid = false then
    ⟨.pauseCapacity, elapsed, available, required,
      "observed throughput invalidated the locked duration bound"⟩
  else if value.activeCleanupRequired then
    ⟨.wait, elapsed, available, reserve, "active cleanup must finish before new work"⟩
  else if value.workRemaining = false then
    ⟨.finalize, elapsed, available, reserve, "no billable work remains"⟩
  else if required ≤ available then
    ⟨.admitted, elapsed, available, required, "next wave fits the physical deadline"⟩
  else
    ⟨.pauseCapacity, elapsed, available, required,
      "next wave does not fit the physical deadline with reserve"⟩

/-! ### Observed capacity -/

structure ControllerCapacityEvidence where
  completedTrialCount : ℕ
  elapsedSeconds : ℕ
  observedEffectiveConcurrency : ℕ
  p50TrialSeconds : ℚ
  p95TrialSeconds : ℚ
  maximumTrialSeconds : ℚ
  remainingTrials : ℕ
  projectedRemainingSeconds : ℕ
  availableSeconds : ℕ
  assumptionsValid : Bool
  deriving DecidableEq

/-- The nearest rank of a quantile in a sorted list. -/
def nearestRank (ordered : List ℚ) (quantile : ℚ) : ℚ :=
  ordered.getD (⌈quantile * ordered.length⌉.toNat - 1) 0

def assessObservedCapacity (durationsSeconds : List ℚ) (elapsedSeconds effectiveConcurrency
    remainingTrials remainingWaves availableSeconds : ℕ) (policy : CampaignControllerSpec) :
    Except CampaignError (Option ControllerCapacityEvidence) :=
  if durationsSeconds = [] then .ok none
  else if (durationsSeconds.any fun duration ↦ duration < 0) ∨ effectiveConcurrency < 1 then
    .error (.value "controller capacity evidence is invalid")
  else
    let ordered := durationsSeconds.insertionSort (· ≤ ·)
    let p95 := nearestRank ordered (95 / 100)
    let batches := (remainingTrials + effectiveConcurrency - 1) / effectiveConcurrency
    let projectedTrialSeconds := ⌈batches * p95 * policy.headroomFactor⌉.toNat
    let projected := projectedTrialSeconds + remainingWaves * policy.waveReserveSeconds +
      policy.controllerReserveSeconds
    let observedBound := policy.planningTrialSeconds * policy.headroomFactor
    .ok (some
      { completedTrialCount := ordered.length
        elapsedSeconds := elapsedSeconds
        observedEffectiveConcurrency := effectiveConcurrency
        p50TrialSeconds := nearestRank ordered (1 / 2)
        p95TrialSeconds := p95
        maximumTrialSeconds := ordered.getLastD 0
        remainingTrials := remainingTrials
        projectedRemainingSeconds := projected
        availableSeconds := availableSeconds
        assumptionsValid := decide (p95 ≤ observedBound) && decide (projected ≤ availableSeconds) })

/-- The statuses of trials with nothing left to run. -/
def settledStatuses : List TrialStatus := [.complete, .invalid, .failedInfrastructure, .cancelled]

/-- What the controller reads to admit the next action: the locked campaign and its projection, the
durations of the published executions, its Job's timeout and the action. -/
structure Iteration where
  lock : CampaignLock
  projection : RecoveryProjection
  publishedDurations : Except CampaignError (List ℚ)
  timeoutSeconds : ℕ
  action : Option ReconcileAction

/-- `_capacity_evidence`. The waves of a lock have trials. -/
def Iteration.capacityEvidence (iteration : Iteration) (started now : ℚ) :
    Except CampaignError (Option ControllerCapacityEvidence) :=
  match iteration.lock.controllerPolicy, iteration.lock.initialWaves with
  | none, _ | _, [] => .ok none
  | some policy, wave :: waves => do
    let elapsed := elapsedSeconds started now
    let remaining := (iteration.projection.trials.values.filter fun trial ↦
      trial.status ∉ settledStatuses).length
    let waveCapacity := (waves.map LockedInitialWave.trialCount).foldl max wave.trialCount
    let durations ← iteration.publishedDurations
    assessObservedCapacity durations elapsed
      ((waves.map LockedInitialWave.effectiveConcurrency).foldl min wave.effectiveConcurrency)
      remaining ((remaining + waveCapacity - 1) / waveCapacity) (iteration.timeoutSeconds - elapsed)
      policy

/-! ### Admission -/

inductive Admission
  | admitted | wait | finalize | pausedCapacity | pausedPolicy
  deriving DecidableEq

def AdmissionDecision.admission : AdmissionDecision → Admission
  | .admitted => .admitted
  | .wait => .wait
  | .finalize => .finalize
  | .pauseCapacity => .pausedCapacity
  | .pausePolicy => .pausedPolicy

/-- The billable kind of an action, if it is one. -/
def waveKind : ActionKind → Option WaveActionKind
  | .submitWave => some .submitWave
  | .retryShard => some .retryShard
  | _ => none

/-- An error of the lock, as `_planned_action_seconds` raises it. -/
def plannedError : CampaignError → ControllerError
  | .value message => .controller message
  | error => .campaign error

/-- `_planned_action_seconds`. -/
def plannedActionSeconds (lock : CampaignLock) (action : ReconcileAction) : Except ControllerError ℕ :=
  match waveKind action.kind with
  | none => .error (.controller "action is not billable provider work")
  | some kind =>
    (lockedProviderActionSeconds lock kind action.deploymentDigest action.shardIds
      action.trialIds.length).mapError plannedError

/-- The input of a wave's admission. -/
def Iteration.waveFields (iteration : Iteration) (policy : CampaignControllerSpec) (planned : ℕ)
    (capacity : Option ControllerCapacityEvidence) (started now : ℚ) : RemainingTimeFields :=
  { physicalStartedMonotonic := started
    physicalTimeoutSeconds := iteration.timeoutSeconds
    monotonicNow := now
    controllerReserveSeconds := policy.controllerReserveSeconds
    plannedNextWaveSeconds := some planned
    workRemaining := true
    capacityAssumptionsValid := capacity.all ControllerCapacityEvidence.assumptionsValid }

/-- `_admit_action`. -/
def Iteration.admitAction (iteration : Iteration) (capacity : Option ControllerCapacityEvidence)
    (started now : ℚ) : Except ControllerError Admission :=
  match iteration.action with
  | none => .ok .finalize
  | some action =>
    if waveKind action.kind = none then .ok .admitted
    else do
      let planned ← plannedActionSeconds iteration.lock action
      match iteration.lock.controllerPolicy with
      | none => .error (.controller "provider action has no controller policy")
      | some policy => do
        let value ← (iteration.waveFields policy planned capacity started now).validate
        return (decideRemainingTime value).decision.admission

/-- The start of a controller by the clocks: its Job's physical start and its own. -/
structure Start where
  physicalStartedAt : Option DateTime
  controllerStartedAt : ℚ

/-- What the controller decides about the next action of an iteration. Its monotonic clock read
`origin` at the start, and the capacity and the admission are read some seconds later. -/
def Iteration.decision (iteration : Iteration) (start : Start) (capacitySeconds admissionSeconds : ℚ)
    (origin : ℚ) : Except ControllerError Admission := do
  let started ← startedMonotonic start.physicalStartedAt start.controllerStartedAt origin
  let capacity ← (iteration.capacityEvidence started (origin + capacitySeconds)).mapError .campaign
  iteration.admitAction capacity started (origin + admissionSeconds)

/-! ### The origin of the clock -/

theorem elapsedSeconds_add (started seconds : ℚ) :
    elapsedSeconds started (started + seconds) = elapsedSeconds 0 seconds := by
  rw [elapsedSeconds, elapsedSeconds, add_sub_cancel_left, sub_zero]

theorem elapsedSeconds_of_nonneg {seconds : ℚ} (h : 0 ≤ seconds) :
    elapsedSeconds 0 seconds = ⌊seconds⌋₊ := by
  have hfloor : 0 ≤ ⌊seconds⌋ := Int.floor_nonneg.mpr h
  rw [elapsedSeconds, sub_zero, truncate, if_pos h, max_eq_right hfloor, Int.floor_toNat]

section Origin

variable {iteration : Iteration} {action : ReconcileAction} {start : Start} {startedAt : ℚ}
  {capacity : Option ControllerCapacityEvidence} {fields : RemainingTimeFields}

theorem capacityEvidence_add (started seconds : ℚ) :
    iteration.capacityEvidence started (started + seconds) =
      iteration.capacityEvidence 0 seconds := by
  unfold Iteration.capacityEvidence
  simp only [elapsedSeconds_add]

theorem validate_of_valid (hbounds : fields.outOfBounds = [])
    (hforwards : fields.physicalStartedMonotonic ≤ fields.monotonicNow)
    (hplanned : fields.workRemaining = fields.plannedNextWaveSeconds.isSome) :
    fields.validate = .ok ⟨fields, hbounds, hforwards, hplanned⟩ := by
  rw [RemainingTimeFields.validate, dif_pos hbounds, dif_pos hforwards, dif_pos hplanned]

theorem validate_of_outOfBounds (h : fields.outOfBounds ≠ []) :
    fields.validate = .error (.invalidFields fields.outOfBounds) := by
  rw [RemainingTimeFields.validate, dif_neg h]

theorem toFields_of_validate {value : RemainingTimeInput}
    (h : fields.validate = .ok value) : value.toRemainingTimeFields = fields := by
  unfold RemainingTimeFields.validate at h
  split_ifs at h
  exact Except.ok.inj h ▸ rfl

/-- Where an input starts does not matter as long as its start is not negative. -/
theorem validate_waveFields_add {policy : CampaignControllerSpec} {planned : ℕ}
    {started seconds : ℚ} (hstarted : 0 ≤ started) (hseconds : 0 ≤ seconds) :
    (iteration.waveFields policy planned capacity started
        (started + seconds)).validate.map decideRemainingTime =
      (iteration.waveFields policy planned capacity 0 seconds).validate.map decideRemainingTime := by
  have hnow : 0 ≤ started + seconds := add_nonneg hstarted hseconds
  have hforwards : started ≤ started + seconds := le_add_of_nonneg_right hseconds
  have hbounds : (iteration.waveFields policy planned capacity started
        (started + seconds)).outOfBounds =
      (iteration.waveFields policy planned capacity 0 seconds).outOfBounds := by
    unfold RemainingTimeFields.outOfBounds Iteration.waveFields
    dsimp only
    rw [if_neg (not_lt.mpr hstarted), if_neg (not_lt.mpr hnow), if_neg (lt_irrefl 0),
      if_neg (not_lt.mpr hseconds)]
  by_cases hnone : (iteration.waveFields policy planned capacity 0 seconds).outOfBounds = []
  · rw [validate_of_valid (hbounds.trans hnone) hforwards rfl, validate_of_valid hnone hseconds rfl]
    unfold Except.map decideRemainingTime Iteration.waveFields
    dsimp only
    rw [elapsedSeconds_add]
  · rw [validate_of_outOfBounds (hbounds ▸ hnone), validate_of_outOfBounds hnone, hbounds]

theorem validate_of_neg (h : fields.physicalStartedMonotonic < 0) :
    ∃ error : ControllerError, fields.validate = .error error ∧ error.OfClock := by
  have hmem : "physical_started_monotonic" ∈ fields.outOfBounds := by
    rw [RemainingTimeFields.outOfBounds, if_pos h]
    exact List.mem_cons_self
  refine ⟨.invalidFields fields.outOfBounds, ?_, .inl hmem⟩
  exact validate_of_outOfBounds (List.ne_nil_of_mem hmem)

theorem fits_of_admit {value : RemainingTimeInput}
    (h : (decideRemainingTime value).decision = .admitted) :
    value.controllerReserveSeconds + value.plannedNextWaveSeconds.getD 0 ≤
      value.physicalTimeoutSeconds -
        elapsedSeconds value.physicalStartedMonotonic value.monotonicNow := by
  unfold decideRemainingTime at h
  dsimp only at h
  split_ifs at h with hpolicy hcapacity hcleanup hwork hfits
  exact hfits

/-- The answer to the input of a wave. -/
def Iteration.answer (iteration : Iteration) (policy : CampaignControllerSpec) (planned : ℕ)
    (capacity : Option ControllerCapacityEvidence) (started now : ℚ) :
    Except ControllerError Admission :=
  ((iteration.waveFields policy planned capacity started now).validate.map decideRemainingTime).map
    fun answer ↦ answer.decision.admission

/-- An iteration with a wave to admit that has planned seconds. -/
structure Iteration.Plans (iteration : Iteration) (policy : CampaignControllerSpec) (planned : ℕ) :
    Prop where
  wave : ∃ action, iteration.action = some action ∧ waveKind action.kind ≠ none ∧
    plannedActionSeconds iteration.lock action = .ok planned
  policy : iteration.lock.controllerPolicy = some policy

variable {policy : CampaignControllerSpec} {planned : ℕ}

theorem Iteration.Plans.admitAction_eq (h : iteration.Plans policy planned) (started now : ℚ) :
    iteration.admitAction capacity started now =
      iteration.answer policy planned capacity started now := by
  obtain ⟨⟨action, haction, hwave, hplanned⟩, hpolicy⟩ := h
  simp only [Iteration.admitAction, haction, if_neg hwave, hplanned, hpolicy, Iteration.answer, bind,
    Except.bind]
  cases (iteration.waveFields policy planned capacity started now).validate <;> rfl

theorem exists_plans_of_admitAction (haction : iteration.action = some action)
    (hwave : waveKind action.kind ≠ none) {started now : ℚ} {admission : Admission}
    (h : iteration.admitAction capacity started now = .ok admission) :
    ∃ policy planned, iteration.Plans policy planned := by
  simp only [Iteration.admitAction, haction, if_neg hwave] at h
  cases hplanned : plannedActionSeconds iteration.lock action with
  | error error =>
    rw [hplanned] at h
    cases h
  | ok planned =>
    rw [hplanned] at h
    cases hpolicy : iteration.lock.controllerPolicy with
    | none =>
      rw [hpolicy] at h
      cases h
    | some policy => exact ⟨policy, planned, ⟨action, haction, hwave, hplanned⟩, hpolicy⟩

theorem answer_of_neg {started now : ℚ} (h : started < 0) : ∃ error : ControllerError,
      iteration.answer policy planned capacity started now = .error error ∧ error.OfClock := by
  have hneg : (iteration.waveFields policy planned capacity started
      now).physicalStartedMonotonic < 0 := h
  obtain ⟨error, herror, hclock⟩ := validate_of_neg hneg
  refine ⟨error, ?_, hclock⟩
  rw [Iteration.answer, herror]
  rfl

/-- An admitted wave fits the timeout, up to the second that the elapsed time is rounded by. -/
theorem fits_of_answer {seconds : ℚ} (hseconds : 0 ≤ seconds)
    (h : iteration.answer policy planned capacity 0 seconds = .ok .admitted) :
    seconds + policy.controllerReserveSeconds + planned < iteration.timeoutSeconds + 1 := by
  rw [Iteration.answer] at h
  cases hvalue : (iteration.waveFields policy planned capacity 0 seconds).validate with
  | error error =>
    rw [hvalue] at h
    cases h
  | ok value =>
    rw [hvalue] at h
    have hadmit : (decideRemainingTime value).decision = .admitted := by
      have hsame : (decideRemainingTime value).decision.admission = .admitted := Except.ok.inj h
      cases hdecision : (decideRemainingTime value).decision <;> rw [hdecision] at hsame <;>
        first | rfl | cases hsame
    have hfits := fits_of_admit hadmit
    have hbounds := value.inBounds
    rw [toFields_of_validate hvalue] at hfits hbounds
    change policy.controllerReserveSeconds + planned ≤
      iteration.timeoutSeconds - elapsedSeconds 0 seconds at hfits
    rw [elapsedSeconds_of_nonneg hseconds] at hfits
    -- The reserve is positive, so the timeout is not over.
    have hreserve : 1 ≤ policy.controllerReserveSeconds := by
      by_contra hzero
      have hmem : "controller_reserve_seconds" ∈
          (iteration.waveFields policy planned capacity 0 seconds).outOfBounds := by
        unfold RemainingTimeFields.outOfBounds Iteration.waveFields
        dsimp only
        rw [if_pos (not_le.mp hzero)]
        simp
      rw [hbounds] at hmem
      cases hmem
    have htotal : ⌊seconds⌋₊ + policy.controllerReserveSeconds + planned ≤
        iteration.timeoutSeconds := by omega
    have hfloor : seconds < ⌊seconds⌋₊ + 1 := Nat.lt_floor_add_one seconds
    have hcast : (⌊seconds⌋₊ : ℚ) + policy.controllerReserveSeconds + planned ≤
        iteration.timeoutSeconds := by exact_mod_cast htotal
    linarith

/-! ### Decisions -/

/-- The capacity evidence does not depend on the origin of the clock. -/
theorem decision_eq
    (hstart : physicalStart start.physicalStartedAt start.controllerStartedAt = .ok startedAt)
    (capacitySeconds admissionSeconds origin : ℚ) :
    iteration.decision start capacitySeconds admissionSeconds origin =
      (iteration.capacityEvidence 0
          (bootstrapSeconds start.controllerStartedAt startedAt + capacitySeconds)).mapError
        .campaign >>= fun capacity ↦
      iteration.admitAction capacity
        (origin - bootstrapSeconds start.controllerStartedAt startedAt)
        (origin + admissionSeconds) := by
  have hnow : origin + capacitySeconds =
      origin - bootstrapSeconds start.controllerStartedAt startedAt +
        (bootstrapSeconds start.controllerStartedAt startedAt + capacitySeconds) := by ring
  rw [Iteration.decision, startedMonotonic, hstart]
  simp only [bind, Except.bind, pure, Except.pure]
  rw [hnow, capacityEvidence_add]

/-- What is decided about a wave is what its input is answered, once the capacity is assessed. -/
theorem exists_answer_of_decision (haction : iteration.action = some action)
    (hwave : waveKind action.kind ≠ none)
    (hstart : physicalStart start.physicalStartedAt start.controllerStartedAt = .ok startedAt)
    {capacitySeconds admissionSeconds enough : ℚ} {admission : Admission}
    (h : iteration.decision start capacitySeconds admissionSeconds enough = .ok admission) :
    ∃ capacity policy planned, iteration.Plans policy planned ∧
      ∀ origin, iteration.decision start capacitySeconds admissionSeconds origin =
        iteration.answer policy planned capacity
          (origin - bootstrapSeconds start.controllerStartedAt startedAt)
          (origin + admissionSeconds) := by
  rw [decision_eq hstart] at h
  cases hcapacity : iteration.capacityEvidence 0
      (bootstrapSeconds start.controllerStartedAt startedAt + capacitySeconds) with
  | error error =>
    rw [hcapacity] at h
    cases h
  | ok capacity =>
    rw [hcapacity] at h
    obtain ⟨policy, planned, hplans⟩ := exists_plans_of_admitAction haction hwave h
    refine ⟨capacity, policy, planned, hplans, fun origin ↦ ?_⟩
    rw [decision_eq hstart, hcapacity]
    exact hplans.admitAction_eq _ _

theorem answer_sub {bootstrap : ℤ} {origin seconds : ℚ} (hbootstrap : bootstrap ≤ origin)
    (hseconds : 0 ≤ bootstrap + seconds) :
    iteration.answer policy planned capacity (origin - bootstrap) (origin + seconds) =
      iteration.answer policy planned capacity 0 (bootstrap + seconds) := by
  have hnow : origin + seconds = origin - bootstrap + (bootstrap + seconds) := by ring
  rw [hnow, Iteration.answer, Iteration.answer,
    validate_waveFields_add (sub_nonneg.mpr hbootstrap) hseconds]

end Origin

/-! ### Waves -/

/-- A decision about a wave that depends on the elapsed time only: it is the same with another
reading of the clock at the start, it raises nothing about the clock, and an admitted wave fits the
Job's timeout with the controller's reserve, up to a second. -/
structure Steady (iteration : Iteration) (start : Start) (startedAt capacitySeconds admissionSeconds
    origin other : ℚ) : Prop where
  same : iteration.decision start capacitySeconds admissionSeconds origin =
    iteration.decision start capacitySeconds admissionSeconds other
  unraised : ∀ error, iteration.decision start capacitySeconds admissionSeconds origin =
    .error error → ¬ error.OfClock
  fits : iteration.decision start capacitySeconds admissionSeconds origin = .ok .admitted →
    ∃ action policy planned, iteration.action = some action ∧
      plannedActionSeconds iteration.lock action = .ok planned ∧
      iteration.lock.controllerPolicy = some policy ∧
      start.controllerStartedAt - startedAt + admissionSeconds +
          policy.controllerReserveSeconds + planned < iteration.timeoutSeconds + 1

section Waves

variable {iteration : Iteration} {action : ReconcileAction} {start : Start} {startedAt : ℚ}
  {capacitySeconds admissionSeconds : ℚ}

theorem bootstrapSeconds_nonneg
    (hstart : physicalStart start.physicalStartedAt start.controllerStartedAt = .ok startedAt) :
    0 ≤ bootstrapSeconds start.controllerStartedAt startedAt := by
  unfold physicalStart at hstart
  dsimp only at hstart
  split_ifs at hstart with hutc hfuture
  rw [← Except.ok.inj hstart]
  exact Int.ceil_nonneg (sub_nonneg.mpr (not_lt.mp hfuture))

/-- A controller that decides about a wave with some reading of its monotonic clock decides the same
with any other reading if and only if the clock had counted the bootstrap seconds at both. -/
theorem steady_iff (haction : iteration.action = some action) (hwave : waveKind action.kind ≠ none)
    (hstart : physicalStart start.physicalStartedAt start.controllerStartedAt = .ok startedAt)
    (hdecided : ∃ enough admission,
      iteration.decision start capacitySeconds admissionSeconds enough = .ok admission)
    (hadmission : 0 ≤ admissionSeconds) {origin other : ℚ} :
    Steady iteration start startedAt capacitySeconds admissionSeconds origin other ↔
      bootstrapSeconds start.controllerStartedAt startedAt ≤ origin ∧
        bootstrapSeconds start.controllerStartedAt startedAt ≤ other := by
  obtain ⟨enough, admission, hdecided⟩ := hdecided
  obtain ⟨capacity, policy, planned, hplans, hanswer⟩ :=
    exists_answer_of_decision haction hwave hstart hdecided
  have hbootstrap := bootstrapSeconds_nonneg hstart
  have hage : 0 ≤ (bootstrapSeconds start.controllerStartedAt startedAt : ℚ) + admissionSeconds :=
    add_nonneg (by exact_mod_cast hbootstrap) hadmission
  -- An early reading is answered by an error about the clock.
  have hearly : ∀ reading : ℚ, reading < bootstrapSeconds start.controllerStartedAt startedAt →
      ∃ error : ControllerError, iteration.decision start capacitySeconds admissionSeconds reading =
        .error error ∧ error.OfClock := by
    intro reading hreading
    rw [hanswer]
    exact answer_of_neg (sub_neg.mpr hreading)
  have hlate : ∀ reading : ℚ, bootstrapSeconds start.controllerStartedAt startedAt ≤ reading →
      iteration.decision start capacitySeconds admissionSeconds reading =
        iteration.answer policy planned capacity 0
          (bootstrapSeconds start.controllerStartedAt startedAt + admissionSeconds) := by
    intro reading hreading
    rw [hanswer]
    exact answer_sub hreading hage
  constructor
  · intro hsteady
    have horigin : bootstrapSeconds start.controllerStartedAt startedAt ≤ origin := by
      by_contra hlt
      obtain ⟨error, herror, hclock⟩ := hearly origin (not_le.mp hlt)
      exact hsteady.unraised error herror hclock
    refine ⟨horigin, ?_⟩
    by_contra hlt
    obtain ⟨error, herror, hclock⟩ := hearly other (not_le.mp hlt)
    exact hsteady.unraised error (hsteady.same.trans herror) hclock
  · rintro ⟨horigin, hother⟩
    have henough : bootstrapSeconds start.controllerStartedAt startedAt ≤ enough := by
      by_contra hlt
      obtain ⟨error, herror, -⟩ := hearly enough (not_le.mp hlt)
      rw [hdecided] at herror
      cases herror
    refine ⟨(hlate origin horigin).trans (hlate other hother).symm, ?_, ?_⟩
    · intro error herror
      rw [hlate origin horigin, ← hlate enough henough, hdecided] at herror
      cases herror
    · intro hadmit
      rw [hlate origin horigin] at hadmit
      have hfits := fits_of_answer hage hadmit
      obtain ⟨⟨action, haction, -, hplanned⟩, hpolicy⟩ := hplans
      refine ⟨action, policy, planned, haction, hplanned, hpolicy, ?_⟩
      have hceil : start.controllerStartedAt - startedAt ≤
          bootstrapSeconds start.controllerStartedAt startedAt := Int.le_ceil _
      linarith

end Waves

/-- A campaign of one shard, with a controller policy and one locked wave of 90 seconds. -/
def waveLock : CampaignLock :=
  { campaignId := "campaign"
    planDigest := "plan"
    artifactPrefix := "campaigns/campaign"
    maxShardsPerWave := 1
    recoveryPolicy := {}
    controllerPolicy := some ⟨60, 1, 30, 600, 30, 90, 3⟩
    plannedCampaignDurationSeconds := some 690
    initialWaves := [⟨1, "deployment", ["shard"], 1, 1, 90⟩]
    runs := [⟨⟨"cell", "deployment", "model", "deployment", "agent", some "provider", some 1, none,
      none⟩, "run", [⟨"shard", "shard", [⟨"trial", "trial", "task", "task", 1⟩]⟩]⟩] }

/-- The submission of the wave. -/
def waveSubmission : ReconcileAction :=
  { kind := .submitWave
    deploymentDigest := "deployment"
    provider := "provider"
    shardIds := ["shard"]
    trialIds := ["trial"]
    targetIds := ["shard"]
    actionId := "act"
    actionKey := "key"
    campaignId := "campaign" }

/-- The iteration that admits the wave, with no execution published. -/
def oneWave : Iteration :=
  { lock := waveLock
    projection := ⟨⟨"campaign", "plan", .queued, 0, 0, []⟩, [], [], [("trial", ⟨"trial", "shard", 1,
      .planned, [], none, none⟩)], [], [], 0, ⟨1, 0, 0, 0, 0, 0, 0, 0⟩, none, none⟩
    publishedDurations := .ok []
    timeoutSeconds := 10800
    action := some waveSubmission }

/-- The controller starts two minutes after its Job. -/
def twoMinutes : Start := ⟨some ⟨0, some 0⟩, 120⟩

/-- The clock of a host that has been up for some minutes gives the decisions of any later origin. -/
theorem oneWave_steady : Steady oneWave twoMinutes 0 1 2 600 1000 := by
  have haction : oneWave.action = some waveSubmission := rfl
  have hdecided : oneWave.decision twoMinutes 1 2 1000 = .ok .admitted := by decide +kernel
  exact (steady_iff haction (by decide) (by decide +kernel) ⟨1000, .admitted, hdecided⟩
    (by norm_num)).mpr ⟨by decide +kernel, by decide +kernel⟩

/-- On a host that has been up for half a minute the wave is not admitted and the campaign fails. -/
theorem oneWave_unsteady :
    oneWave.decision twoMinutes 1 2 30 = .error (.invalidFields ["physical_started_monotonic"]) ∧
      failedState (.invalidFields ["physical_started_monotonic"]) = .failedDeterministic ∧
      oneWave.decision twoMinutes 1 2 1000 = .ok .admitted ∧
      ¬ Steady oneWave twoMinutes 0 1 2 30 1000 := by
  have hfails : oneWave.decision twoMinutes 1 2 30 =
      .error (.invalidFields ["physical_started_monotonic"]) := by decide +kernel
  exact ⟨hfails, rfl, by decide +kernel, fun h ↦ h.unraised _ hfails (.inl List.mem_cons_self)⟩

end HarborHF.WaveAdmission
