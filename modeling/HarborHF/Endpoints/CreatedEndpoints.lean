import Mathlib.Algebra.Order.Archimedean.Basic
import Mathlib.Tactic.Linarith
import HarborHF.Endpoints.Provisioning

/-!
# No created endpoint is abandoned

An endpoint that was created, or may have been, is billed until it is paused. Once it is known to be the
desired one, every failure to pause it is recorded as ambiguous or comes after the endpoint was seen
paused or absent. Before that an inspection or a pause that fails is recorded as a definite failure:
after an ambiguous create, and while a created endpoint of another configuration is paused.
-/

set_option autoImplicit false

namespace HarborHF.Endpoints

open Async Polling

/-! ### What is asked of a run -/

/-- An inspection that showed the endpoint paused with no ready replica, or absent. -/
def Call.showsSafe : Call → Bool
  | .inspect (.shows none) => true
  | .inspect (.shows (some snapshot)) => isPausedZeroReady snapshot
  | _ => false

def Call.isCreate : Call → Bool
  | .create _ => true
  | _ => false

/-- A create was called that may have taken effect. -/
def Issued (calls : Calls) : Prop :=
  ∃ answer, Call.create answer ∈ calls.log ∧ answer ≠ .fails

/-- The calls after the create. -/
def afterCreate (log : List Call) : List Call :=
  (log.dropWhile fun call ↦ !call.isCreate).drop 1

/-- A snapshot of the desired endpoint, paused with no ready replica, that was seen after the create; or
an error that is recorded as ambiguous, or came after the endpoint was seen paused or absent. -/
def NotAbandoned (desired : DesiredEndpoint) :
    Except EndpointError Behaviour.ProvisioningResult → Calls → Prop
  | .ok result, calls =>
    .inspect (.shows (some result.snapshot)) ∈ afterCreate calls.log ∧
      verifyExactEndpoint desired result.snapshot = .ok () ∧
      isPausedZeroReady result.snapshot = true
  | .error error, calls =>
    recordedOutcome error = .ambiguous ∨ ∃ call ∈ afterCreate calls.log, call.showsSafe = true

/-- The cleanup of a mismatching endpoint inspects it this often: it was present and not paused each
time before, and the deadline had not passed. -/
def Polled (behaviour : Behaviour) (timeoutSeconds : ℚ) (count : ℕ) : Prop :=
  ∀ earlier < count,
    (∃ snapshot, behaviour.inspect (1 + earlier) = .shows (some snapshot) ∧
      isPausedZeroReady snapshot = false) ∧
    behaviour.clock (1 + earlier) < behaviour.clock 0 + timeoutSeconds

/-- The first inspection after an ambiguous create does not fail, and shows the desired endpoint, one
that is paused with no ready replica, or none. -/
def FirstSafe (behaviour : Behaviour) (desired : DesiredEndpoint) : Prop :=
  behaviour.inspect 1 ≠ .fails ∧
    ∀ snapshot, behaviour.inspect 1 = .shows (some snapshot) →
      verifyExactEndpoint desired snapshot = .ok () ∨ isPausedZeroReady snapshot = true

/-- While a mismatching endpoint is cleaned up, neither the pause nor an inspection fails. -/
def CleanupSafe (behaviour : Behaviour) (timeoutSeconds : ℚ) : Prop :=
  behaviour.pause 0 ≠ .fails ∧
    ∀ count, Polled behaviour timeoutSeconds count → behaviour.inspect (1 + count) ≠ .fails

/-- The port does not fail where the create is not yet verified. -/
def Covered (behaviour : Behaviour) (desired : DesiredEndpoint) (timeoutSeconds : ℚ) : Prop :=
  match behaviour.create with
  | .fails => True
  | .ambiguous => FirstSafe behaviour desired
  | .returns snapshot =>
    verifyExactEndpoint desired snapshot = .ok () ∨ CleanupSafe behaviour timeoutSeconds

/-! ### Loops -/

variable {behaviour : Behaviour} {desired : DesiredEndpoint} {timeoutSeconds pollSeconds deadline : ℚ}
  {look : Provisioning (Option EndpointSnapshot)} {message : String} {calls base : Calls}
  {found : EndpointSnapshot → Calls → Prop} {failed : EndpointError → Calls → Prop}
  {error : EndpointError} {snapshot : EndpointSnapshot}

/-- The readings of the clock after one more. -/
def Calls.read (calls : Calls) : Calls := { calls with readings := calls.readings + 1 }

@[simp] theorem Calls.read_log : calls.read.log = calls.log := rfl
@[simp] theorem Calls.read_inspections : calls.read.inspections = calls.inspections := rfl
@[simp] theorem Calls.read_pauses : calls.read.pauses = calls.pauses := rfl
@[simp] theorem Calls.read_readings : calls.read.readings = calls.readings + 1 := rfl

/-- A loop ends at the latest with the reading that passes its deadline. -/
theorem gives_pollUntil (start looked : Calls → Prop)
    (hlook : ∀ calls, start calls → Gives look calls
      (fun snapshot after ↦ after.readings = calls.readings ∧
        match snapshot with
        | some snapshot => found snapshot after
        | none => looked after)
      failed)
    (hagain : ∀ calls, looked calls → behaviour.clock calls.readings < deadline → start calls.read)
    (hlate : ∀ calls, looked calls → deadline ≤ behaviour.clock calls.readings →
      failed (.verificationTimeout message) calls.read)
    (h : start calls) : Gives (behaviour.pollUntil deadline look message) calls found failed := by
  obtain ⟨last, hlast, hpassed⟩ := behaviour.passes deadline calls.readings
  refine gives_repeatUntil (fun measure calls ↦ start calls ∧ calls.readings + measure = last) ?_
    (last - calls.readings) ⟨h, by omega⟩
  rintro measure calls ⟨hstart, hmeasure⟩
  refine Gives.andThen (hlook calls hstart) ?_
  rintro (_ | snapshot) middle ⟨hreadings, hmiddle⟩
  · have hsleep : Gives (behaviour.sleepBeforeDeadline deadline) middle
        (fun again after ↦
          again = decide (0 < deadline - behaviour.clock middle.readings) ∧ after = middle.read)
        failed := gives_act ⟨rfl, rfl⟩
    refine Gives.andThen hsleep ?_
    rintro again _ ⟨hagain', rfl⟩
    by_cases hbefore : behaviour.clock middle.readings < deadline
    · have htrue : again = true := by
        rw [hagain', decide_eq_true_eq]
        linarith
      rw [htrue, if_pos rfl]
      have hneq : middle.readings ≠ last := fun heq ↦ absurd hpassed (by rw [← heq]; linarith)
      refine gives_pure ⟨measure - 1, by omega, hagain middle hmiddle hbefore, ?_⟩
      rw [Calls.read_readings]
      omega
    · have hfalse : again = false := by
        rw [hagain', decide_eq_false_iff_not]
        intro hpos
        exact hbefore (by linarith)
      rw [hfalse, if_neg (by decide)]
      exact gives_throw (hlate middle hmiddle (not_lt.mp hbefore))
  · exact gives_pure hmiddle

/-! ### Calls -/

/-- The calls after one more inspection. -/
def Behaviour.inspected (behaviour : Behaviour) (calls : Calls) : Calls :=
  { calls with
    inspections := calls.inspections + 1
    log := calls.log ++ [.inspect (behaviour.inspect calls.inspections)] }

/-- The calls after one more pause. -/
def Behaviour.paused (behaviour : Behaviour) (calls : Calls) : Calls :=
  { calls with
    pauses := calls.pauses + 1
    log := calls.log ++ [.pause (behaviour.pause calls.pauses)] }

theorem gives_inspectCall : Gives behaviour.inspectCall calls (fun snapshot after ↦
      behaviour.inspect calls.inspections = .shows snapshot ∧ after = behaviour.inspected calls)
    (fun error after ↦ behaviour.inspect calls.inspections = .fails ∧
      error = .provider "Hugging Face endpoint inspect failed" ∧ after = behaviour.inspected calls) := by
  refine gives_act ?_
  cases hinspect : behaviour.inspect calls.inspections with
  | shows snapshot => exact ⟨rfl, by rw [Behaviour.inspected, hinspect]⟩
  | fails => exact ⟨rfl, rfl, by rw [Behaviour.inspected, hinspect]⟩

theorem gives_verify : Gives (Polling.ofExcept (verifyExactEndpoint desired snapshot)) calls
      (fun _ after ↦ verifyExactEndpoint desired snapshot = .ok () ∧ after = calls)
      (fun error after ↦ verifyExactEndpoint desired snapshot = .error error ∧ after = calls) := by
  refine gives_ofExcept ?_
  cases verifyExactEndpoint desired snapshot with
  | ok value => exact ⟨rfl, rfl⟩
  | error error => exact ⟨rfl, rfl⟩

theorem gives_inspectExact : Gives (behaviour.inspectExact desired) calls
    (fun snapshot after ↦ behaviour.inspect calls.inspections = .shows snapshot ∧
      (∀ shown, snapshot = some shown → verifyExactEndpoint desired shown = .ok ()) ∧
      after = behaviour.inspected calls) (fun error after ↦ after = behaviour.inspected calls ∧
      (behaviour.inspect calls.inspections = .fails ∧
          error = .provider "Hugging Face endpoint inspect failed" ∨
        ∃ shown, behaviour.inspect calls.inspections = .shows (some shown) ∧
          verifyExactEndpoint desired shown = .error error)) := by
  refine Gives.andThen (gives_inspectCall.mono (fun _ _ h ↦ h) ?_) ?_
  · rintro error after ⟨hfails, herror, rfl⟩
    exact ⟨rfl, .inl ⟨hfails, herror⟩⟩
  · rintro (_ | shown) after ⟨hshows, rfl⟩
    · exact gives_pure ⟨hshows, by simp, rfl⟩
    · refine Gives.andThen (gives_verify.mono (fun _ _ h ↦ h) ?_) ?_
      · rintro error _ ⟨hverify, rfl⟩
        exact ⟨rfl, .inr ⟨shown, hshows, hverify⟩⟩
      · rintro _ _ ⟨hverify, rfl⟩
        refine gives_pure ⟨hshows, ?_, rfl⟩
        rintro _ ⟨rfl⟩
        exact hverify

theorem gives_suppressedPause : Gives behaviour.suppressedPause calls
    (fun _ after ↦ behaviour.pause calls.pauses ≠ .fails ∧ after = behaviour.paused calls)
    (fun error after ↦ behaviour.pause calls.pauses = .fails ∧
      error = .provider "Hugging Face endpoint pause failed" ∧ after = behaviour.paused calls) := by
  have hcall : Gives behaviour.pauseCall calls
      (fun _ after ↦ behaviour.pause calls.pauses ≠ .fails ∧ after = behaviour.paused calls)
      (fun error after ↦ after = behaviour.paused calls ∧
        (behaviour.pause calls.pauses = .fails ∧
            error = .provider "Hugging Face endpoint pause failed" ∨
          behaviour.pause calls.pauses ≠ .fails ∧ ∃ text, error = .ambiguousPause text)) := by
    refine gives_act ?_
    cases hpause : behaviour.pause calls.pauses with
    | returns snapshot => exact ⟨by simp, by rw [Behaviour.paused, hpause]⟩
    | fails => exact ⟨by rw [Behaviour.paused, hpause], .inl ⟨rfl, rfl⟩⟩
    | ambiguous => exact ⟨by rw [Behaviour.paused, hpause], .inr ⟨by simp, _, rfl⟩⟩
  refine Gives.handle hcall ?_
  rintro error _ ⟨rfl, ⟨hfails, rfl⟩ | ⟨hpause, text, rfl⟩⟩
  · exact gives_throw ⟨hfails, rfl, rfl⟩
  · exact gives_pure ⟨hpause, rfl⟩

theorem gives_validatedDeadline (htimeout : 0 < timeoutSeconds) (hpoll : 0 < pollSeconds) :
    Gives (behaviour.validatedDeadline timeoutSeconds pollSeconds) calls
      (fun deadline after ↦
        deadline = behaviour.clock calls.readings + timeoutSeconds ∧ after = calls.read)
      (fun _ _ ↦ False) := by
  unfold Behaviour.validatedDeadline
  rw [if_neg (by rw [not_or, not_le, not_le]; exact ⟨htimeout, hpoll⟩)]
  exact gives_act ⟨rfl, rfl⟩

/-! ### Pausing -/

/-- The calls made since. -/
def recent (base calls : Calls) : List Call := calls.log.drop base.log.length

/-- A snapshot seen since, paused with no ready replica. -/
def ShownPaused (base : Calls) (snapshot : EndpointSnapshot) (after : Calls) : Prop :=
  base.log <+: after.log ∧ .inspect (.shows (some snapshot)) ∈ recent base after ∧
    isPausedZeroReady snapshot = true

/-- A provisioning error after further calls. -/
def Provisioned (base : Calls) (error : EndpointError) (after : Calls) : Prop :=
  base.log <+: after.log ∧ error.isProvisioningError = true

/-- An error that leaves nothing behind: recorded as ambiguous, or raised after the endpoint was seen
paused or absent since. -/
def SafeError (base : Calls) (error : EndpointError) (after : Calls) : Prop :=
  base.log <+: after.log ∧
    (recordedOutcome error = .ambiguous ∨ ∃ call ∈ recent base after, call.showsSafe = true)

theorem prefix_inspected (h : base.log <+: calls.log) : base.log <+: (behaviour.inspected calls).log :=
  h.trans (List.prefix_append _ _)

theorem prefix_paused (h : base.log <+: calls.log) : base.log <+: (behaviour.paused calls).log :=
  h.trans (List.prefix_append _ _)

theorem recent_inspected (h : base.log <+: calls.log) : recent base (behaviour.inspected calls) =
      recent base calls ++ [.inspect (behaviour.inspect calls.inspections)] := by
  unfold recent Behaviour.inspected
  rw [List.drop_append_of_le_length h.length_le]

theorem mem_recent_inspected (h : base.log <+: calls.log) :
    .inspect (behaviour.inspect calls.inspections) ∈ recent base (behaviour.inspected calls) := by
  rw [recent_inspected h]
  simp

theorem gives_pausedIn {snapshot : Option EndpointSnapshot} {disappeared : String} :
    Gives (Polling.ofExcept (Behaviour.pausedIn disappeared snapshot)) calls
      (fun paused after ↦ after = calls ∧
        match paused with
        | some shown => snapshot = some shown ∧ isPausedZeroReady shown = true
        | none => ∃ shown, snapshot = some shown ∧ isPausedZeroReady shown = false)
      (fun error after ↦ after = calls ∧ snapshot = none ∧ error = .notFound disappeared) := by
  refine gives_ofExcept ?_
  unfold Behaviour.pausedIn
  cases snapshot with
  | none => exact ⟨rfl, rfl, rfl⟩
  | some shown =>
    by_cases hpaused : isPausedZeroReady shown = true
    · simp only [hpaused, if_true]
      exact ⟨rfl, rfl, hpaused⟩
    · rw [Bool.not_eq_true] at hpaused
      simp only [hpaused, Bool.false_eq_true, if_false]
      exact ⟨rfl, shown, rfl, hpaused⟩

/-- A loop that waits for a pause, however it inspects the endpoint. -/
theorem gives_wait {inspect : Provisioning (Option EndpointSnapshot)} {disappeared : String}
    (good : EndpointSnapshot → Prop)
    (hinspect : ∀ calls, base.log <+: calls.log → Gives inspect calls
      (fun snapshot after ↦ base.log <+: after.log ∧ after.readings = calls.readings ∧
        ∀ shown, snapshot = some shown → good shown ∧
          .inspect (.shows (some shown)) ∈ recent base after)
      (Provisioned base)) (h : base.log <+: calls.log) : Gives (behaviour.pollUntil deadline
        (do
          let snapshot ← inspect
          Polling.ofExcept (Behaviour.pausedIn disappeared snapshot)) message) calls
      (fun shown after ↦ ShownPaused base shown after ∧ good shown) (Provisioned base) := by
  refine gives_pollUntil (fun calls ↦ base.log <+: calls.log) (fun calls ↦ base.log <+: calls.log) ?_
    (fun _ h _ ↦ h) (fun _ h _ ↦ ⟨h, rfl⟩) h
  intro calls hcalls
  refine Gives.andThen (hinspect calls hcalls) ?_
  rintro snapshot after ⟨hafter, hreadings, hshown⟩
  refine gives_pausedIn.mono ?_ ?_
  · rintro (_ | shown) _ ⟨rfl, hpaused⟩
    · exact ⟨hreadings, hafter⟩
    · obtain ⟨rfl, hpaused⟩ := hpaused
      obtain ⟨hgood, hmem⟩ := hshown shown rfl
      exact ⟨hreadings, ⟨hafter, hmem, hpaused⟩, hgood⟩
  · rintro error _ ⟨rfl, -, rfl⟩
    exact ⟨hafter, rfl⟩

/-- `_pause_created_identity`. -/
theorem gives_pauseCreatedIdentity (htimeout : 0 < timeoutSeconds) (hpoll : 0 < pollSeconds)
    (h : base.log <+: calls.log) :
    Gives (behaviour.pauseCreatedIdentity timeoutSeconds pollSeconds) calls (ShownPaused base)
      (Provisioned base) := by
  refine Gives.andThen (gives_suppressedPause.mono (fun _ _ h ↦ h) ?_) ?_
  · rintro error _ ⟨-, rfl, rfl⟩
    exact ⟨prefix_paused h, rfl⟩
  rintro _ _ ⟨-, rfl⟩
  refine Gives.andThen ((gives_validatedDeadline htimeout hpoll).mono (fun _ _ h ↦ h)
    fun _ _ h ↦ h.elim) ?_
  rintro deadline _ ⟨rfl, rfl⟩
  have hbegins : base.log <+: (behaviour.paused calls).read.log := prefix_paused h
  refine (gives_wait (fun _ ↦ True) ?_ hbegins).mono (fun _ _ h ↦ h.1) fun _ _ h ↦ h
  intro calls hcalls
  refine gives_inspectCall.mono ?_ ?_
  · rintro snapshot _ ⟨hshows, rfl⟩
    refine ⟨prefix_inspected hcalls, rfl, ?_⟩
    rintro shown rfl
    exact ⟨trivial, hshows ▸ mem_recent_inspected hcalls⟩
  · rintro error _ ⟨-, rfl, rfl⟩
    exact ⟨prefix_inspected hcalls, rfl⟩

theorem isProvisioningError_of_verify (h : verifyExactEndpoint desired snapshot = .error error) :
    error.isProvisioningError = true ∧ error.isMismatch = true := by
  unfold verifyExactEndpoint at h
  split_ifs at h
  · cases h
    exact ⟨rfl, rfl⟩
  · split at h
    · cases h
    · cases h
      exact ⟨rfl, rfl⟩

/-- An exact inspection since. -/
theorem gives_inspectExact_since (h : base.log <+: calls.log) :
    Gives (behaviour.inspectExact desired) calls
      (fun snapshot after ↦ base.log <+: after.log ∧ after.readings = calls.readings ∧
        ∀ shown, snapshot = some shown → verifyExactEndpoint desired shown = .ok () ∧
          .inspect (.shows (some shown)) ∈ recent base after)
      (Provisioned base) := by
  refine gives_inspectExact.mono ?_ ?_
  · rintro snapshot _ ⟨hshows, hexact, rfl⟩
    refine ⟨prefix_inspected h, rfl, ?_⟩
    rintro shown rfl
    exact ⟨hexact shown rfl, hshows ▸ mem_recent_inspected h⟩
  · rintro error _ ⟨rfl, ⟨-, rfl⟩ | ⟨shown, -, hverify⟩⟩
    · exact ⟨prefix_inspected h, rfl⟩
    · exact ⟨prefix_inspected h, (isProvisioningError_of_verify hverify).1⟩

/-- `pause_and_verify`. -/
theorem gives_pauseAndVerify (htimeout : 0 < timeoutSeconds) (hpoll : 0 < pollSeconds)
    (h : base.log <+: calls.log) :
    Gives (behaviour.pauseAndVerify desired timeoutSeconds pollSeconds) calls
      (fun shown after ↦ ShownPaused base shown after ∧ verifyExactEndpoint desired shown = .ok ())
      (Provisioned base) := by
  refine Gives.andThen (gives_inspectExact_since h) ?_
  rintro (_ | current) middle ⟨hmiddle, -, hcurrent⟩
  · exact gives_throw ⟨hmiddle, rfl⟩
  obtain ⟨hexact, hmem⟩ := hcurrent current rfl
  by_cases hpaused : isPausedZeroReady current = true
  · dsimp only
    rw [if_pos hpaused]
    exact gives_pure ⟨⟨hmiddle, hmem, hpaused⟩, hexact⟩
  · dsimp only
    rw [if_neg hpaused]
    refine Gives.andThen (gives_suppressedPause.mono (fun _ _ h ↦ h) ?_) ?_
    · rintro error _ ⟨-, rfl, rfl⟩
      exact ⟨prefix_paused hmiddle, rfl⟩
    rintro _ _ ⟨-, rfl⟩
    refine Gives.andThen ((gives_validatedDeadline htimeout hpoll).mono (fun _ _ h ↦ h)
      fun _ _ h ↦ h.elim) ?_
    rintro deadline _ ⟨rfl, rfl⟩
    have hbegins : base.log <+: (behaviour.paused middle).read.log := prefix_paused hmiddle
    exact gives_wait _ (fun calls hcalls ↦ gives_inspectExact_since hcalls) hbegins

/-- `pause_and_verify` ends, whatever was called before: with the wanted endpoint as one of its own
inspections showed it, paused with no ready replica, or with a provisioning error. -/
theorem pauseAndVerify_shown (htimeout : 0 < timeoutSeconds) (hpoll : 0 < pollSeconds) :
    ∃ outcome after, Settles (behaviour.pauseAndVerify desired timeoutSeconds pollSeconds) calls
        outcome after ∧
      (∀ shown, outcome = .ok shown →
        .inspect (.shows (some shown)) ∈ after.log.drop calls.log.length ∧
          isPausedZeroReady shown = true ∧ verifyExactEndpoint desired shown = .ok ()) ∧
      ∀ error, outcome = .error error → error.isProvisioningError = true := by
  obtain ⟨outcome, after, hsettles, hends⟩ :=
    gives_pauseAndVerify htimeout hpoll (List.prefix_refl calls.log)
  refine ⟨outcome, after, hsettles, ?_, ?_⟩
  · rintro shown rfl
    exact ⟨hends.1.2.1, hends.1.2.2, hends.2⟩
  · rintro error rfl
    exact hends.2

theorem gives_ambiguousCleanup {cleanup : Provisioning EndpointSnapshot}
    (h : Gives cleanup calls found (Provisioned base)) :
    Gives (Behaviour.ambiguousCleanup cleanup) calls found (SafeError base) := by
  refine Gives.handle h ?_
  rintro error middle ⟨hmiddle, herror⟩
  rw [if_pos herror]
  exact gives_throw ⟨hmiddle, .inl rfl⟩

/-- Once the created endpoint is known, it is seen paused or an error leaves nothing behind. -/
theorem gives_pauseCreated (htimeout : 0 < timeoutSeconds) (hpoll : 0 < pollSeconds)
    (h : base.log <+: calls.log) :
    Gives (behaviour.pauseCreated desired timeoutSeconds pollSeconds) calls
      (fun shown after ↦ ShownPaused base shown after ∧ verifyExactEndpoint desired shown = .ok ())
      (SafeError base) := by
  refine Gives.handle (gives_pauseAndVerify htimeout hpoll h) ?_
  rintro error middle ⟨hmiddle, herror⟩
  have hcleanup : Gives (behaviour.pauseCreatedIdentity timeoutSeconds pollSeconds) middle
      (ShownPaused base) (Provisioned base) := gives_pauseCreatedIdentity htimeout hpoll hmiddle
  by_cases hmismatch : error.isMismatch = true
  · rw [if_pos hmismatch]
    refine Gives.andThen (gives_ambiguousCleanup hcleanup) ?_
    rintro shown after ⟨hafter, hmem, hpaused⟩
    exact gives_throw ⟨hafter, .inr ⟨_, hmem, hpaused⟩⟩
  · rw [if_neg hmismatch, if_pos herror]
    refine gives_ambiguousCleanup (Gives.andThen hcleanup ?_)
    intro shown after hshown
    refine Gives.andThen (gives_verify.mono (fun _ _ h ↦ h) ?_) ?_
    · rintro error _ ⟨hverify, rfl⟩
      exact ⟨hshown.1, (isProvisioningError_of_verify hverify).1⟩
    · rintro _ _ ⟨hverify, rfl⟩
      exact gives_pure ⟨hshown, hverify⟩

/-! ### Where the create is not yet verified -/

/-- The calls after the create, which follows an inspection. -/
def Behaviour.created (behaviour : Behaviour) : Calls :=
  ⟨1, 0, 0, [.inspect (behaviour.inspect 0), .create behaviour.create]⟩

/-- An error that leaves something behind: recorded as a failure, and since the create the endpoint was
not seen paused or absent. -/
def LostError (base : Calls) (error : EndpointError) (after : Calls) : Prop :=
  base.log <+: after.log ∧ recordedOutcome error = .failed ∧
    ∀ call ∈ recent base after, call.showsSafe = false

theorem forall_recent_inspected (h : base.log <+: calls.log)
    (hrecent : ∀ call ∈ recent base calls, call.showsSafe = false)
    (hinspect : (Call.inspect (behaviour.inspect calls.inspections)).showsSafe = false) :
    ∀ call ∈ recent base (behaviour.inspected calls), call.showsSafe = false := by
  intro call hcall
  rw [recent_inspected h, List.mem_append, List.mem_singleton] at hcall
  rcases hcall with hbefore | rfl
  · exact hrecent call hbefore
  · exact hinspect

/-- The cleanup ends with an inspection that does not fail. -/
theorem cleanupSafe_of_ended {count : ℕ} (hpause : behaviour.pause 0 ≠ .fails)
    (hpolled : Polled behaviour timeoutSeconds count) (hinspect : behaviour.inspect (1 + count) ≠ .fails)
    (hended : (∃ snapshot, behaviour.inspect (1 + count) = .shows (some snapshot) ∧
        isPausedZeroReady snapshot = false) →
      behaviour.clock 0 + timeoutSeconds ≤ behaviour.clock (1 + count)) :
    CleanupSafe behaviour timeoutSeconds := by
  refine ⟨hpause, fun other hother ↦ ?_⟩
  rcases Nat.lt_trichotomy other count with hless | rfl | hgreater
  · obtain ⟨⟨snapshot, hshows, -⟩, -⟩ := hpolled other hless
    rw [hshows]
    simp
  · exact hinspect
  · obtain ⟨hrunning, hclock⟩ := hother count hgreater
    exact absurd (hended hrunning) (not_le.mpr hclock)

/-- The cleanup of a mismatching endpoint. -/
theorem gives_cleanup (htimeout : 0 < timeoutSeconds) (hpoll : 0 < pollSeconds) :
    Gives (behaviour.pauseCreatedIdentity timeoutSeconds pollSeconds) behaviour.created
      (fun shown after ↦ CleanupSafe behaviour timeoutSeconds ∧
        ShownPaused behaviour.created shown after)
      (fun error after ↦
        CleanupSafe behaviour timeoutSeconds ∧ SafeError behaviour.created error after ∨
          ¬CleanupSafe behaviour timeoutSeconds ∧ LostError behaviour.created error after) := by
  have hbase : behaviour.created.log <+: behaviour.created.log := List.prefix_rfl
  refine Gives.andThen (gives_suppressedPause.mono (fun _ _ h ↦ h) ?_) ?_
  · rintro error _ ⟨hfails, rfl, rfl⟩
    refine .inr ⟨fun hsafe ↦ hsafe.1 hfails, prefix_paused hbase, rfl, ?_⟩
    simp [recent, Behaviour.paused, Behaviour.created, Call.showsSafe]
  rintro _ _ ⟨hpause, rfl⟩
  refine Gives.andThen ((gives_validatedDeadline htimeout hpoll).mono (fun _ _ h ↦ h)
    fun _ _ h ↦ h.elim) ?_
  rintro deadline _ ⟨rfl, rfl⟩
  -- the rounds before showed the endpoint present and not paused
  refine gives_pollUntil
    (fun calls ↦ ∃ count, calls.inspections = 1 + count ∧ calls.readings = 1 + count ∧
      behaviour.created.log <+: calls.log ∧
      (∀ call ∈ recent behaviour.created calls, call.showsSafe = false) ∧
      Polled behaviour timeoutSeconds count)
    (fun calls ↦ ∃ count, calls.inspections = 1 + (count + 1) ∧ calls.readings = 1 + count ∧
      behaviour.created.log <+: calls.log ∧
      (∀ call ∈ recent behaviour.created calls, call.showsSafe = false) ∧
      Polled behaviour timeoutSeconds count ∧
      ∃ snapshot, behaviour.inspect (1 + count) = .shows (some snapshot) ∧
        isPausedZeroReady snapshot = false)
    ?_ ?_ ?_ ?_
  · rintro calls ⟨count, hinspections, hreadings, hbegins, hrecent, hpolled⟩
    refine Gives.andThen (gives_inspectCall.mono (fun _ _ h ↦ h) ?_) ?_
    · rintro error _ ⟨hfails, rfl, rfl⟩
      refine .inr ⟨fun hsafe ↦ ?_, prefix_inspected hbegins, rfl, ?_⟩
      · rw [hinspections] at hfails
        exact hsafe.2 count hpolled hfails
      · exact forall_recent_inspected hbegins hrecent (by rw [hfails]; rfl)
    rintro snapshot _ ⟨hshows, rfl⟩
    have hcount : behaviour.inspect (1 + count) = .shows snapshot := hinspections ▸ hshows
    refine gives_pausedIn.mono ?_ ?_
    · rintro (_ | shown) _ ⟨rfl, hpaused⟩
      · obtain ⟨shown, rfl, hrunning⟩ := hpaused
        refine ⟨rfl, count, by simp [Behaviour.inspected, hinspections]; omega, hreadings,
          prefix_inspected hbegins, ?_, hpolled, shown, hcount, hrunning⟩
        exact forall_recent_inspected hbegins hrecent (by rw [hshows]; exact hrunning)
      · obtain ⟨rfl, hpaused⟩ := hpaused
        refine ⟨rfl, cleanupSafe_of_ended hpause hpolled (by rw [hcount]; simp) ?_,
          prefix_inspected hbegins, hshows ▸ mem_recent_inspected hbegins, hpaused⟩
        rintro ⟨other, hother, hrunning⟩
        rw [hcount] at hother
        cases hother
        rw [hpaused] at hrunning
        cases hrunning
    · rintro error _ ⟨rfl, rfl, rfl⟩
      refine .inl ⟨cleanupSafe_of_ended hpause hpolled (by rw [hcount]; simp) ?_,
        prefix_inspected hbegins, .inr ⟨_, hshows ▸ mem_recent_inspected hbegins, rfl⟩⟩
      rintro ⟨other, hother, -⟩
      rw [hcount] at hother
      cases hother
  · rintro calls ⟨count, hinspections, hreadings, hbegins, hrecent, hpolled, hrunning⟩ hclock
    refine ⟨count + 1, hinspections, by rw [Calls.read_readings, hreadings]; omega, hbegins,
      hrecent, fun earlier hearlier ↦ ?_⟩
    rcases Nat.lt_succ_iff_lt_or_eq.mp hearlier with hless | rfl
    · exact hpolled earlier hless
    · exact ⟨hrunning, hreadings ▸ hclock⟩
  · rintro calls ⟨count, hinspections, hreadings, hbegins, hrecent, hpolled, shown, hshows, hrunning⟩
      hclock
    refine .inl ⟨cleanupSafe_of_ended hpause hpolled (by rw [hshows]; simp) fun _ ↦ hreadings ▸ hclock,
      hbegins, .inl rfl⟩
  · refine ⟨0, rfl, rfl, prefix_paused hbase, ?_, fun earlier hearlier ↦ absurd hearlier (by omega)⟩
    simp [recent, Behaviour.paused, Behaviour.created, Calls.read, Call.showsSafe]

theorem recordedOutcome_of_verify
    (h : verifyExactEndpoint desired snapshot = .error error) : recordedOutcome error = .failed := by
  unfold verifyExactEndpoint at h
  split_ifs at h
  · cases h
    rfl
  · split at h
    · cases h
    · cases h
      rfl

/-- The search for the endpoint after an ambiguous create. -/
theorem gives_waitUntilPresent (htimeout : 0 < timeoutSeconds) (hpoll : 0 < pollSeconds) :
    Gives (behaviour.waitUntilPresent desired timeoutSeconds pollSeconds) behaviour.created
      (fun shown after ↦ FirstSafe behaviour desired ∧ behaviour.created.log <+: after.log ∧
        verifyExactEndpoint desired shown = .ok ())
      (fun error after ↦
        FirstSafe behaviour desired ∧ SafeError behaviour.created error after ∨
          ¬FirstSafe behaviour desired ∧ LostError behaviour.created error after) := by
  refine Gives.andThen ((gives_validatedDeadline htimeout hpoll).mono (fun _ _ h ↦ h)
    fun _ _ h ↦ h.elim) ?_
  rintro deadline _ ⟨rfl, rfl⟩
  -- after the first inspection the endpoint was seen absent
  refine gives_pollUntil
    (fun calls ↦ behaviour.created.log <+: calls.log ∧
      (calls.inspections = 1 ∧ recent behaviour.created calls = [] ∨
        FirstSafe behaviour desired ∧ .inspect (.shows none) ∈ recent behaviour.created calls))
    (fun calls ↦ behaviour.created.log <+: calls.log ∧ FirstSafe behaviour desired ∧
      .inspect (.shows none) ∈ recent behaviour.created calls)
    ?_ (fun calls h _ ↦ ⟨h.1, .inr h.2⟩) (fun calls h _ ↦ .inl ⟨h.2.1, h.1, .inl rfl⟩)
    ⟨List.prefix_rfl, .inl ⟨rfl, by simp [recent]⟩⟩
  rintro calls ⟨hbegins, ⟨hfirst, hrecent⟩ | ⟨hsafe, habsent⟩⟩
  · refine gives_inspectExact.mono ?_ ?_
    · rintro (_ | shown) _ ⟨hshows, hexact, rfl⟩
      · refine ⟨rfl, prefix_inspected hbegins, ?_, hshows ▸ mem_recent_inspected hbegins⟩
        rw [hfirst] at hshows
        simp [FirstSafe, hshows]
      · refine ⟨rfl, ?_, prefix_inspected hbegins, hexact shown rfl⟩
        rw [hfirst] at hshows
        refine ⟨by rw [hshows]; simp, fun other hother ↦ .inl ?_⟩
        rw [hshows] at hother
        cases hother
        exact hexact shown rfl
    · have hnone : ∀ call ∈ recent behaviour.created calls, call.showsSafe = false := by simp [hrecent]
      rintro error _ ⟨rfl, ⟨hfails, rfl⟩ | ⟨shown, hshows, hverify⟩⟩
      · refine .inr ⟨fun hsafe ↦ ?_, prefix_inspected hbegins, rfl, ?_⟩
        · rw [hfirst] at hfails
          exact hsafe.1 hfails
        · exact forall_recent_inspected hbegins hnone (by rw [hfails]; rfl)
      · have hshown : behaviour.inspect 1 = .shows (some shown) := hfirst ▸ hshows
        by_cases hpaused : isPausedZeroReady shown = true
        · refine .inl ⟨⟨by rw [hshown]; simp, fun other hother ↦ .inr ?_⟩, prefix_inspected hbegins,
            .inr ⟨.inspect (.shows (some shown)), hshows ▸ mem_recent_inspected hbegins, hpaused⟩⟩
          rw [hshown] at hother
          cases hother
          exact hpaused
        · refine .inr ⟨fun hsafe ↦ ?_, prefix_inspected hbegins, recordedOutcome_of_verify hverify, ?_⟩
          · rcases hsafe.2 shown hshown with hexact | hzero
            · rw [hexact] at hverify
              cases hverify
            · exact hpaused hzero
          · refine forall_recent_inspected hbegins hnone ?_
            rw [hshows]
            exact Bool.not_eq_true _ ▸ hpaused
  · have hstill : .inspect (.shows none) ∈ recent behaviour.created (behaviour.inspected calls) := by
      rw [recent_inspected hbegins]
      exact List.mem_append_left _ habsent
    refine gives_inspectExact.mono ?_ ?_
    · rintro (_ | shown) _ ⟨hshows, hexact, rfl⟩
      · exact ⟨rfl, prefix_inspected hbegins, hsafe, hstill⟩
      · exact ⟨rfl, hsafe, prefix_inspected hbegins, hexact shown rfl⟩
    · rintro error _ ⟨rfl, -⟩
      exact .inl ⟨hsafe, prefix_inspected hbegins, .inr ⟨_, hstill, rfl⟩⟩

/-! ### Runs -/

theorem afterCreate_eq (h : behaviour.created.log <+: calls.log) :
    afterCreate calls.log = recent behaviour.created calls := by
  obtain ⟨tail, htail⟩ := h
  unfold recent
  rw [← htail, List.drop_left]
  simp [afterCreate, Behaviour.created, Call.isCreate]

theorem notAbandoned_of_shown {action : Behaviour.ProvisioningAction} {shown : EndpointSnapshot}
    (h : ShownPaused behaviour.created shown calls)
    (hexact : verifyExactEndpoint desired shown = .ok ()) :
    NotAbandoned desired (.ok ⟨action, shown⟩) calls := by
  obtain ⟨hbegins, hmem, hpaused⟩ := h
  exact ⟨(afterCreate_eq hbegins).symm ▸ hmem, hexact, hpaused⟩

theorem notAbandoned_error_iff :
    NotAbandoned desired (.error error) calls ↔ recordedOutcome error = .ambiguous ∨
      ∃ call ∈ afterCreate calls.log, call.showsSafe = true := Iff.rfl

theorem notAbandoned_of_safe (h : SafeError behaviour.created error calls) :
    NotAbandoned desired (.error error) calls := by
  obtain ⟨hbegins, hsafe⟩ := h
  rwa [notAbandoned_error_iff, afterCreate_eq hbegins]

theorem not_notAbandoned_of_lost
    (h : LostError behaviour.created error calls) : ¬NotAbandoned desired (.error error) calls := by
  obtain ⟨hbegins, hfailed, hrecent⟩ := h
  rw [notAbandoned_error_iff, afterCreate_eq hbegins, hfailed]
  rintro (hambiguous | ⟨call, hcall, hshows⟩)
  · cases hambiguous
  · rw [hrecent call hcall] at hshows
    cases hshows

/-- What a run keeps exactly when the port does not fail where the create is not yet verified. -/
def Judged (behaviour : Behaviour) (desired : DesiredEndpoint) (timeoutSeconds : ℚ)
    (outcome : Except EndpointError Behaviour.ProvisioningResult) (calls : Calls) : Prop :=
  Issued calls → (NotAbandoned desired outcome calls ↔ Covered behaviour desired timeoutSeconds)

theorem gives_finish {action : Behaviour.ProvisioningAction} (htimeout : 0 < timeoutSeconds)
    (hpoll : 0 < pollSeconds) (hcovered : Covered behaviour desired timeoutSeconds)
    (h : behaviour.created.log <+: calls.log) : Gives (do
        let paused ← behaviour.pauseCreated desired timeoutSeconds pollSeconds
        return (⟨action, paused⟩ : Behaviour.ProvisioningResult)) calls
      (fun result ↦ Judged behaviour desired timeoutSeconds (.ok result))
      (fun error ↦ Judged behaviour desired timeoutSeconds (.error error)) := by
  refine Gives.andThen ((gives_pauseCreated htimeout hpoll h).mono (fun _ _ h ↦ h) ?_) ?_
  · exact fun error after hsafe _ ↦ iff_of_true (notAbandoned_of_safe hsafe) hcovered
  · rintro shown after ⟨hshown, hexact⟩
    exact gives_pure fun _ ↦ iff_of_true (notAbandoned_of_shown hshown hexact) hcovered

/-- From a create that returned an endpoint. -/
theorem gives_returned {action : Behaviour.ProvisioningAction}
    (htimeout : 0 < timeoutSeconds) (hpoll : 0 < pollSeconds)
    (hcreate : behaviour.create = .returns snapshot) : Gives (do
        behaviour.verifyCreated desired snapshot timeoutSeconds pollSeconds
        let paused ← behaviour.pauseCreated desired timeoutSeconds pollSeconds
        return (⟨action, paused⟩ : Behaviour.ProvisioningResult)) behaviour.created
      (fun result ↦ Judged behaviour desired timeoutSeconds (.ok result))
      (fun error ↦ Judged behaviour desired timeoutSeconds (.error error)) := by
  have hcovered : Covered behaviour desired timeoutSeconds ↔
      verifyExactEndpoint desired snapshot = .ok () ∨ CleanupSafe behaviour timeoutSeconds := by
    unfold Covered
    rw [hcreate]
  have hverified : Gives (behaviour.verifyCreated desired snapshot timeoutSeconds pollSeconds)
      behaviour.created
      (fun _ after ↦ verifyExactEndpoint desired snapshot = .ok () ∧ after = behaviour.created)
      (fun error ↦ Judged behaviour desired timeoutSeconds (.error error)) := by
    refine Gives.handle gives_verify ?_
    rintro error _ ⟨hverify, rfl⟩
    rw [if_pos (isProvisioningError_of_verify hverify).2]
    have hinexact : verifyExactEndpoint desired snapshot ≠ .ok () := by
      rw [hverify]
      simp
    refine Gives.andThen ((gives_cleanup htimeout hpoll).mono (fun _ _ h ↦ h) ?_) ?_
    · rintro cleanup after (⟨hsafe, herror⟩ | ⟨hrisky, hlost⟩)
      · exact fun _ ↦ iff_of_true (notAbandoned_of_safe herror) (hcovered.mpr (.inr hsafe))
      · refine fun _ ↦ iff_of_false (not_notAbandoned_of_lost hlost) fun h ↦ ?_
        exact (hcovered.mp h).elim hinexact hrisky
    · rintro shown after ⟨hsafe, hbegins, hmem, hpaused⟩
      refine gives_throw fun _ ↦ iff_of_true ?_ (hcovered.mpr (.inr hsafe))
      exact notAbandoned_of_safe ⟨hbegins, .inr ⟨_, hmem, hpaused⟩⟩
  refine Gives.andThen hverified ?_
  rintro _ _ ⟨hexact, rfl⟩
  exact gives_finish htimeout hpoll (hcovered.mpr (.inl hexact)) List.prefix_rfl

theorem settles_createCall (behaviour : Behaviour) :
    Settles behaviour.createCall ⟨1, 0, 0, [.inspect (behaviour.inspect 0)]⟩
      (match behaviour.create with
        | .returns snapshot => .ok snapshot
        | .fails => .error (.provider "Hugging Face endpoint create failed")
        | .ambiguous => .error (.ambiguousCreate "Hugging Face endpoint create outcome is ambiguous"))
      behaviour.created := settles_act _

theorem gives_create (htimeout : 0 < timeoutSeconds) (hpoll : 0 < pollSeconds)
    (hlog : calls = ⟨1, 0, 0, [.inspect (behaviour.inspect 0)]⟩) : Gives (do
        let (action, snapshot) ← behaviour.createOrFind desired timeoutSeconds pollSeconds
        behaviour.verifyCreated desired snapshot timeoutSeconds pollSeconds
        let paused ← behaviour.pauseCreated desired timeoutSeconds pollSeconds
        return (⟨action, paused⟩ : Behaviour.ProvisioningResult)) calls
      (fun result ↦ Judged behaviour desired timeoutSeconds (.ok result))
      (fun error ↦ Judged behaviour desired timeoutSeconds (.error error)) := by
  subst hlog
  have hcall := settles_createCall behaviour
  cases hcreate : behaviour.create with
  | returns snapshot =>
    rw [hcreate] at hcall
    have hpair : Settles (do
        let snapshot ← behaviour.createCall
        return (Behaviour.ProvisioningAction.created, snapshot))
        ⟨1, 0, 0, [.inspect (behaviour.inspect 0)]⟩ (.ok (.created, snapshot)) behaviour.created :=
      hcall.andThen (settles_pure _)
    have hfind : Gives (behaviour.createOrFind desired timeoutSeconds pollSeconds)
        ⟨1, 0, 0, [.inspect (behaviour.inspect 0)]⟩
        (fun pair after ↦ pair = (.created, snapshot) ∧ after = behaviour.created)
        (fun error ↦ Judged behaviour desired timeoutSeconds (.error error)) :=
      ⟨_, _, hpair.handle_ok, rfl, rfl⟩
    refine Gives.andThen hfind ?_
    rintro _ _ ⟨rfl, rfl⟩
    exact gives_returned htimeout hpoll hcreate
  | fails =>
    rw [hcreate] at hcall
    have hfind : Settles (behaviour.createOrFind desired timeoutSeconds pollSeconds)
        ⟨1, 0, 0, [.inspect (behaviour.inspect 0)]⟩
        (.error (.provider "Hugging Face endpoint create failed")) behaviour.created :=
      hcall.andThen_error.handle (settles_throw _)
    refine ⟨_, _, hfind.andThen_error, ?_⟩
    rintro ⟨answer, hanswer, hfails⟩
    rw [Behaviour.created, hcreate] at hanswer
    simp only [List.mem_cons, reduceCtorEq, Call.create.injEq, List.not_mem_nil, or_false,
      false_or] at hanswer
    exact absurd hanswer hfails
  | ambiguous =>
    rw [hcreate] at hcall
    have hcovered : Covered behaviour desired timeoutSeconds ↔ FirstSafe behaviour desired := by
      unfold Covered
      rw [hcreate]
    have hfind : Gives (behaviour.createOrFind desired timeoutSeconds pollSeconds)
        ⟨1, 0, 0, [.inspect (behaviour.inspect 0)]⟩
        (fun pair after ↦ FirstSafe behaviour desired ∧ behaviour.created.log <+: after.log ∧
          verifyExactEndpoint desired pair.2 = .ok ())
        (fun error ↦ Judged behaviour desired timeoutSeconds (.error error)) := by
      have hambiguous : Gives (do
          let snapshot ← behaviour.createCall
          return (Behaviour.ProvisioningAction.created, snapshot))
          ⟨1, 0, 0, [.inspect (behaviour.inspect 0)]⟩
          (fun pair after ↦ FirstSafe behaviour desired ∧ behaviour.created.log <+: after.log ∧
            verifyExactEndpoint desired pair.2 = .ok ())
          (fun error after ↦
            error = .ambiguousCreate "Hugging Face endpoint create outcome is ambiguous" ∧
              after = behaviour.created) := ⟨_, _, hcall.andThen_error, rfl, rfl⟩
      refine Gives.handle hambiguous ?_
      rintro _ _ ⟨rfl, rfl⟩
      refine Gives.andThen ((gives_waitUntilPresent htimeout hpoll).mono (fun _ _ h ↦ h) ?_) ?_
      · rintro error after (⟨hsafe, herror⟩ | ⟨hrisky, hlost⟩)
        · exact fun _ ↦ iff_of_true (notAbandoned_of_safe herror) (hcovered.mpr hsafe)
        · exact fun _ ↦ iff_of_false (not_notAbandoned_of_lost hlost) fun h ↦ hrisky (hcovered.mp h)
      · exact fun shown after hshown ↦ gives_pure hshown
    refine Gives.andThen hfind ?_
    rintro ⟨action, snapshot⟩ after ⟨hsafe, hbegins, hexact⟩
    have hverified : Gives (behaviour.verifyCreated desired snapshot timeoutSeconds pollSeconds) after
        (fun _ middle ↦ middle = after)
        (fun error ↦ Judged behaviour desired timeoutSeconds (.error error)) := by
      refine Gives.handle gives_verify ?_ |>.mono (fun _ _ h ↦ h.2) fun _ _ h ↦ h
      rintro error _ ⟨hverify, rfl⟩
      rw [hexact] at hverify
      cases hverify
    refine Gives.andThen hverified ?_
    rintro _ _ rfl
    exact gives_finish htimeout hpoll (hcovered.mpr hsafe) hbegins

/-- A run of `create_or_adopt` ends, and when it called a create that may have taken effect, it does not
abandon the endpoint exactly when the port does not fail where the create is not yet verified. -/
theorem createOrAdopt_notAbandoned_iff (behaviour : Behaviour) (desired : DesiredEndpoint)
    (timeoutSeconds pollSeconds : ℚ) (htimeout : 0 < timeoutSeconds) (hpoll : 0 < pollSeconds) :
    ∃ outcome calls,
      Settles (behaviour.createOrAdopt desired timeoutSeconds pollSeconds) Calls.none outcome calls ∧
        (Issued calls →
          (NotAbandoned desired outcome calls ↔ Covered behaviour desired timeoutSeconds)) := by
  have hgives : Gives (behaviour.createOrAdopt desired timeoutSeconds pollSeconds) Calls.none
      (fun result ↦ Judged behaviour desired timeoutSeconds (.ok result))
      (fun error ↦ Judged behaviour desired timeoutSeconds (.error error)) := by
    have hnone : ¬Issued (behaviour.inspected Calls.none) := by
      rintro ⟨answer, hanswer, -⟩
      simp [Behaviour.inspected, Calls.none] at hanswer
    refine Gives.andThen (gives_inspectExact.mono (fun _ _ h ↦ h) ?_) ?_
    · rintro error _ ⟨rfl, -⟩
      exact fun hissued ↦ absurd hissued hnone
    rintro (_ | existing) _ ⟨hshows, -, rfl⟩
    · exact gives_create htimeout hpoll rfl
    · have hrequired : Gives (Polling.ofExcept (requirePausedZeroReady existing))
          (behaviour.inspected Calls.none)
          (fun _ after ↦ after = behaviour.inspected Calls.none)
          (fun _ after ↦ after = behaviour.inspected Calls.none) := by
        refine gives_ofExcept ?_
        cases requirePausedZeroReady existing <;> rfl
      refine Gives.andThen (hrequired.mono (fun _ _ h ↦ h) ?_) ?_
      · rintro error _ rfl
        exact fun hissued ↦ absurd hissued hnone
      · rintro _ _ rfl
        exact gives_pure fun hissued ↦ absurd hissued hnone
  obtain ⟨outcome, calls, hsettles, hends⟩ := hgives
  refine ⟨outcome, calls, hsettles, ?_⟩
  cases outcome with
  | ok result => exact hends
  | error error => exact hends

/-! ### An ambiguous create -/

/-- An endpoint on the smallest instance. -/
def sampleDesired : DesiredEndpoint where
  identity := ⟨"evals", "harbor-hf-0", ["harbor-hf-managed"]⟩
  configuration :=
    { model := ⟨"org/model", "main", "custom", "text-generation", ⟨"image", "/health", none⟩, [], [],
        [], []⟩
      compute := ⟨"gpu", "x1", "nvidia-t4", ⟨1, 1, none, none, none⟩⟩
      provider := ⟨"aws", "us-east-1", none⟩
      accessType := "authenticated"
      route := ⟨none, none⟩
      cacheHttpResponses := false
      tags := ["harbor-hf-managed"] }

/-- A port whose create is ambiguous and whose inspections answer as given. -/
def ambiguousPort (inspect : ℕ → InspectAnswer) : Behaviour where
  create := .ambiguous
  inspect := inspect
  pause := fun _ ↦ .ambiguous
  clock := fun reading ↦ reading
  passes := by
    intro bound start
    obtain ⟨index, hindex⟩ := exists_nat_ge bound
    refine ⟨max start index, le_max_left _ _, hindex.trans ?_⟩
    exact_mod_cast le_max_right start index

theorem createOrAdopt_absent : ∃ outcome calls,
      Settles ((ambiguousPort fun _ ↦ .shows none).createOrAdopt sampleDesired 300 5) Calls.none
          outcome calls ∧
        (Issued calls →
          (NotAbandoned sampleDesired outcome calls ↔
            Covered (ambiguousPort fun _ ↦ .shows none) sampleDesired 300)) :=
  createOrAdopt_notAbandoned_iff _ sampleDesired 300 5 (by norm_num) (by norm_num)

theorem pauseAndVerify_absent : ∃ outcome after,
    Settles ((ambiguousPort fun _ ↦ .shows none).pauseAndVerify sampleDesired 300 5) Calls.none
        outcome after ∧ ∀ error, outcome = .error error → error.isProvisioningError = true := by
  obtain ⟨outcome, after, hsettles, -, herror⟩ :=
    @pauseAndVerify_shown (ambiguousPort fun _ ↦ .shows none) sampleDesired 300 5 Calls.none
      (by norm_num) (by norm_num)
  exact ⟨outcome, after, hsettles, herror⟩

/-- The first inspection after an ambiguous create fails: the action is recorded as failed, and nothing
was seen of the endpoint. -/
theorem not_notAbandoned :
    ¬∀ (behaviour : Behaviour) (desired : DesiredEndpoint) (timeoutSeconds pollSeconds : ℚ),
      0 < timeoutSeconds → 0 < pollSeconds → ∀ outcome calls,
        Settles (behaviour.createOrAdopt desired timeoutSeconds pollSeconds) Calls.none outcome calls →
          Issued calls → NotAbandoned desired outcome calls := by
  intro h
  let port := ambiguousPort fun count ↦ if count = 0 then .shows none else .fails
  have hsettles : Settles (port.createOrAdopt sampleDesired 300 5) Calls.none
      (.error (.provider "Hugging Face endpoint inspect failed"))
      ⟨2, 0, 1, [.inspect (.shows none), .create .ambiguous, .inspect .fails]⟩ := by
    refine ⟨1, fun rounds hrounds ↦ ?_⟩
    obtain ⟨fewer, rfl⟩ : ∃ fewer, rounds = fewer + 1 := ⟨rounds - 1, by omega⟩
    rfl
  have hkept := h port sampleDesired 300 5 (by norm_num) (by norm_num) _ _ hsettles
    ⟨.ambiguous, by simp, by simp⟩
  rw [notAbandoned_error_iff] at hkept
  revert hkept
  decide

end HarborHF.Endpoints
