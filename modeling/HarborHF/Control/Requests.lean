import HarborHF.Control.Reconciliation

/-!
# The requests of a campaign

What the API adds to the records of Jobs and tasks. An operator's retry replaces an attempt under the
checks of the reconciler (`campaignAction_job`): both hold the admission queue from their first look
at the replacements to their own, so that neither misses one of the other's. A worker's attempt
carries the identity of its request's key (`attemptRoute_job`). Every other request writes records
that no Job depends on: submissions, the Sandbox routes and the upload of evidence (`submit_calm`,
`SandboxRoute.writes`, `uploadEvidence_writes`).
-/

set_option autoImplicit false

namespace HarborHF.Control

open Async Program Relational Projection

section

variable [Digests] {allowed : ReconcilerOptions → Prop} {strict : Prop} {role : ThreadRole}
  {thread : ℕ} {state : World × Log} {campaignId : String} {hold : World × Log → Prop}
  {queues : List Queue}

/-! ### Operators -/

omit [Digests] in
theorem Guarded.imp {condition : Prop} (h : Guarded role thread queues hold) :
    Guarded role thread queues fun state ↦ condition → hold state where
  stable before after hsteady hbefore hcondition :=
    h.stable before after hsteady (hbefore hcondition)
  step before after hstep hbefore hcondition := h.step before after hstep (hbefore hcondition)

/-- The launch of an operator's retry replaces an attempt that the holder of the queue has
checked. -/
structure Retries (thread : ℕ) (campaignId : String) (asked : OperatorAction)
    (attempt : AttemptReceipt) (attemptIds : List String) (maximum : ℕ) (state : World × Log) :
    Prop where
  checked : RetryChecked thread attempt attemptIds state
  member : attempt.attemptId ∈ attemptIds
  below : attemptIds.length < maximum
  kind : asked.kind = .jobLaunch
  campaign : attempt.campaignId = campaignId
  task : asked.payload.taskIds = some [attempt.taskId]
  prior : asked.payload.priorAttemptId = some attempt.attemptId
  limit : asked.payload.maxInfrastructureAttempts = some maximum
  planned : Planned state.1.store.records campaignId asked.payload

/-- An operator's action launches and observes no Job, or it is a retry. -/
def Permitted (thread : ℕ) (campaignId : String) (asked : OperatorAction) (state : World × Log) :
    Prop :=
  (asked.kind ≠ .jobLaunch ∧ asked.kind ≠ .jobObserve) ∨
    ∃ attempt attemptIds maximum, Retries thread campaignId asked attempt attemptIds maximum state

omit [Digests] in
theorem guarded_permitted (asked : OperatorAction) :
    Guarded role thread [.retryAdmission] (Permitted thread campaignId asked) where
  stable before after hsteady h := by
    rcases h with hkind | ⟨attempt, attemptIds, maximum, h⟩
    · exact .inl hkind
    · exact .inr ⟨attempt, attemptIds, maximum, { h with
        checked := (guarded_retryChecked attempt attemptIds).stable before after hsteady h.checked
        planned := h.planned.mono hsteady.stored }⟩
  step before after hstep h := by
    rcases h with hkind | ⟨attempt, attemptIds, maximum, h⟩
    · exact .inl hkind
    · have hchecked : Guarded role thread [.retryAdmission] (RetryChecked thread attempt attemptIds) :=
        guarded_retryChecked attempt attemptIds
      exact .inr ⟨attempt, attemptIds, maximum, { h with
        checked := hchecked.step before after hstep h.checked
        planned := h.planned.mono hstep.stored }⟩

theorem Permitted.licensed {asked : OperatorAction} {generation createdAt : ℕ} {actor : Actor}
    (hinv : Tracked allowed state) (h : Permitted thread campaignId asked state) :
    Licensed allowed role thread state (.actionIntent (actionIntent campaignId asked.kind
      asked.target generation asked.payload actor createdAt)) := by
  rcases h with ⟨hlaunch, hobserve⟩ | ⟨attempt, attemptIds, maximum, h⟩
  · have hcalm : CalmRecord (.actionIntent (actionIntent campaignId asked.kind asked.target generation
        asked.payload actor createdAt)) :=
      ⟨canonical_actionIntent _ _ _ _ _ _ _, hlaunch, hobserve⟩
    have hfits : Fits allowed (fun _ ↦ True) _ := hcalm.fits
    exact hfits.licensed hinv trivial
  · exact hinv.licensed_replacement h.checked ⟨canonical_actionIntent _ _ _ _ _ _ _, h.kind,
      h.campaign, h.task, h.prior, h.limit, h.planned⟩ h.member h.below

theorem requirePrepared_writes (deployment : HfJobDeployment) :
    (requirePrepared deployment campaignId).Uses (Writes queues CalmRecord) := by
  unfold requirePrepared
  split_ifs
  · have hread : (preparedJob campaignId).Uses (Writes queues CalmRecord) :=
      ⟨trivial, fun _ ↦ trivial⟩
    refine uses_bind hread fun prepared ↦ ?_
    split <;> trivial
  · trivial

/-- A retry is checked against the attempts of its task and the replacements so far. -/
theorem retryAction_job {lock : CampaignLock} {taskId : String} {reason : Option String}
    (hcampaign : lock.campaignId = campaignId) (hlock : Locked lock state)
    (hheld : (.retryAdmission, thread) ∈ state.1.held) :
    JobSafe allowed strict role thread (retryAction campaignId lock taskId reason)
      (Permitted thread campaignId) state := by
  have hsealed : ∀ holds, Guarded role thread [.retryAdmission]
      (Sealed thread .retryAdmission holds) := fun holds ↦ guarded_sealed List.mem_cons_self
  have hkept : Guarded role thread [.retryAdmission] (Locked lock) := (enduring_mem _).guarded.within
  refine job_ask ((hsealed fun _ ↦ True).and hkept) ⟨⟨hheld, fun _ _ _ ↦ trivial⟩, hlock⟩ ?_
  rintro first hfirst ⟨⟨hheld, -⟩, hlock⟩
  split
  · exact job_throw
  next view hview =>
  obtain ⟨-, -, -, -, hattempts⟩ := task_eq_some hview
  have hamong : Sealed thread .retryAdmission
      (Among campaignId taskId (view.attempts.map AttemptReceipt.attemptId)) first :=
    ⟨hheld, hfirst.among fun attempt hattempt hcampaign htask ↦ (hattempts attempt).mpr
      ⟨(hfirst.roster.mem_attempts attempt).mpr hattempt, hcampaign, htask⟩⟩
  split_ifs
  · exact job_throw
  split
  · exact job_throw
  next prior hprior =>
  obtain ⟨hlast, -⟩ := Option.filter_eq_some_iff.mp hprior
  have hmem : prior ∈ view.attempts := List.mem_of_getLast? hlast
  obtain ⟨hpriorRow, rfl, rfl⟩ := (hattempts prior).mp hmem
  have hstored := (hfirst.roster.mem_attempts prior).mp hpriorRow
  refine job_ask ((hsealed _).and ((enduring_mem (.attemptReceipt prior)).guarded.within.and hkept))
    ⟨hamong, hstored, hlock⟩ ?_
  rintro second hsecond ⟨hamong, hstored, hlock⟩
  split_ifs with hnone
  · exact job_throw
  have hchecked : RetryChecked thread prior (view.attempts.map AttemptReceipt.attemptId) second :=
    ⟨⟨hamong.1, hsecond.spares hstored (Bool.eq_false_iff.mpr hnone)⟩, hamong, hstored⟩
  refine job_ofExcept fun deployment _ ↦ ?_
  split
  · exact job_throw
  next spec _ =>
  refine job_ofExcept fun policy hpolicy ↦ ?_
  split_ifs with hlimit
  · exact job_throw
  have hready : Guarded role thread [.retryAdmission] fun state ↦
      RetryChecked thread prior (view.attempts.map AttemptReceipt.attemptId) state ∧
        Locked lock state := (guarded_retryChecked prior _).and hkept
  refine job_bind hsecond (job_calm (requirePrepared_writes spec) hready ⟨hchecked, hlock⟩) ?_
  intro prepared third hthird hheld
  refine job_ret hready.stable hheld fun last _ hheld ↦ .inr ⟨prior, _, _, hheld.1,
    List.mem_map_of_mem hmem, ?_, rfl, rfl, rfl, rfl, rfl, .inr ⟨policy, ⟨lock, hheld.2, hcampaign,
      hpolicy⟩, rfl⟩⟩
  rw [List.length_map]
  exact Nat.lt_of_not_le hlimit

/-- The operator's queue is held whenever a Job may be launched. -/
abbrev Admitting (thread : ℕ) (input : CampaignActionInput) (state : World × Log) : Prop :=
  input.action = .retryInfrastructure → Sealed thread .retryAdmission (fun _ ↦ True) state

omit [Digests] in
theorem guarded_admitting (input : CampaignActionInput) :
    Guarded role thread [.retryAdmission] (Admitting thread input) :=
  (guarded_sealed List.mem_cons_self).imp

theorem operatorAction_job {view : CampaignView} {lock : CampaignLock} {input : CampaignActionInput}
    (hview : view.campaignId = campaignId) (hcampaign : lock.campaignId = campaignId)
    (hlock : Locked lock state) (hadmitting : Admitting thread input state) :
    JobSafe allowed strict role thread (operatorAction view lock input)
      (Permitted thread campaignId) state := by
  have hother : ∀ (asked : OperatorAction) (after : World × Log),
      asked.kind ≠ .jobLaunch → asked.kind ≠ .jobObserve →
        JobSafe allowed strict role thread (.ret asked) (Permitted thread campaignId) after :=
    fun asked after hlaunch hobserve ↦ job_ret enduring_true.stable trivial
      fun _ _ _ ↦ .inl ⟨hlaunch, hobserve⟩
  unfold operatorAction
  cases haction : input.action with
  | cancel => exact hother _ _ (by simp) (by simp)
  | publish =>
    dsimp only
    split_ifs
    · exact job_throw
    · exact job_throw
    · refine job_ask enduring_true.guarded trivial fun after _ _ ↦ ?_
      split_ifs
      · exact job_throw
      · exact hother _ _ (by simp) (by simp)
  | pauseEndpoint =>
    refine job_ask enduring_true.guarded trivial fun after _ _ ↦ ?_
    split
    · exact hother _ _ (by simp) (by simp)
    · exact job_throw
  | retryInfrastructure =>
    dsimp only
    split
    · exact job_throw
    next taskId _ =>
    rw [hview]
    exact retryAction_job hcampaign hlock (hadmitting haction).1

theorem recordedRetry_writes (input : CampaignActionInput) (generation : ℕ) :
    (recordedRetry campaignId input generation).Uses (Writes queues CalmRecord) := by
  unfold recordedRetry
  split
  · refine ⟨trivial, fun row ↦ ?_⟩
    dsimp only [Program.bind]
    split
    · trivial
    · split_ifs <;> trivial
  · trivial

theorem reserveRetry_writes (retry : Option (AttemptReceipt × ℕ)) :
    (reserveRetry campaignId retry).Uses (Writes [.retryAdmission] CalmRecord) := by
  unfold reserveRetry
  split
  · trivial
  · refine uses_bind reserveReplacement_writes fun reserved ↦ ?_
    split_ifs <;> trivial

theorem writeOperatorAction_job {asked : OperatorAction} {generation : ℕ} {actor : Actor}
    (hinv : Tracked allowed state) (h : Permitted thread campaignId asked state) :
    JobSafe allowed strict role thread (writeOperatorAction campaignId generation actor asked)
      (fun _ _ ↦ True) state := by
  refine job_bind hinv (job_calm (reserveRetry_writes _) (guarded_permitted asked) h) ?_
  intro _ first _ h
  refine job_now (guarded_permitted asked) h ?_
  rintro time - second - - h -
  refine job_ask (guarded_permitted asked) h fun third hthird h ↦ ?_
  refine job_bind hthird (writeAction_job (guarded_permitted asked) h ?_) fun _ _ _ _ ↦ job_done
  exact fun before hbefore h ↦ h.licensed hbefore

theorem campaignActionValidated_job {input : CampaignActionInput} {idempotencyKey : String}
    {actor : Actor} (hadmitting : Admitting thread input state) : JobSafe allowed strict role thread
      (campaignActionValidated campaignId input idempotencyKey actor) (fun _ _ ↦ True) state := by
  refine job_ask (guarded_admitting input) hadmitting fun first _ hadmitting ↦ ?_
  split
  · exact job_throw
  next view hview =>
  obtain ⟨row, -, hrow, rfl⟩ := campaign_eq_some hview
  refine job_ask (guarded_admitting input) hadmitting fun second hsecond hadmitting ↦ ?_
  split
  · exact job_throw
  next lock hlock =>
  obtain ⟨hstored, hcampaign⟩ := hsecond.history.campaignLock_eq_some.mp hlock
  refine job_bind hsecond (job_calm (recordedRetry_writes input _)
    ((guarded_admitting input).and (enduring_mem _).guarded.within) ⟨hadmitting, hstored⟩) ?_
  rintro recorded third hthird ⟨hadmitting, hstored⟩
  split
  · exact job_done
  · refine job_bind hthird (operatorAction_job ?_ hcampaign hstored hadmitting) ?_
    · exact hrow
    · exact fun asked fourth hfourth h ↦ writeOperatorAction_job hfourth h

theorem campaignAction_job (input : CampaignActionInput) (idempotencyKey : String) (actor : Actor) :
    JobSafe allowed strict role thread (campaignAction campaignId input idempotencyKey actor)
      (fun _ _ ↦ True) state := by
  refine job_ask enduring_true.guarded trivial fun first _ _ ↦ ?_
  split_ifs with hready hconfirmed hretry
  · exact job_throw
  · exact job_throw
  · refine job_withQueue enduring_true.stable trivial (fun _ ↦ enduring_true.guarded) ?_
    exact fun _ after _ _ _ hheld ↦
      campaignActionValidated_job fun _ ↦ ⟨hheld, fun _ _ _ ↦ trivial⟩
  · exact campaignActionValidated_job fun haction ↦ absurd haction hretry

/-! ### Workers -/

theorem attemptRoute_job (request : SandboxRequest) (submissions : List SubmissionOperation)
    (body : AttemptSubmission) (hinv : Tracked allowed state) :
    JobSafe allowed strict role thread (attemptRoute request submissions body) (fun _ _ ↦ True)
      state := by
  refine job_ofExcept fun idempotencyKey _ ↦ job_ofExcept fun _ _ ↦ ?_
  refine job_bind hinv (attemptWithStatus_job enduring_true.guarded (fun _ _ _ ↦ .worker rfl) trivial)
    fun _ _ _ _ ↦ job_done

/-! ### Submissions -/

theorem submissionProfiles_calm (existingLock : Option CampaignLock) :
    (submissionProfiles existingLock).Uses (Local CalmRecord) := by
  unfold submissionProfiles
  split
  · trivial
  · exact ⟨trivial, fun answer ↦ uses_ofExcept answer⟩

theorem checkSubmission_calm (input : CampaignSubmission) (resolution : Resolution) :
    (checkSubmission input resolution).Uses (Local CalmRecord) := by
  refine uses_ofExcept_bind fun deployment _ ↦ ?_
  split
  · trivial
  · refine uses_ofExcept_bind fun policy _ ↦ ?_
    split_ifs
    · trivial
    · refine ⟨trivial, fun refused ↦ ?_⟩
      dsimp only
      split <;> trivial

theorem submissionTime_calm (existingLock : Option CampaignLock)
    (existingRequest : Option CampaignRequest) :
    (submissionTime existingLock existingRequest).Uses (Local CalmRecord) := by
  unfold submissionTime
  split
  · trivial
  · trivial
  · exact uses_now

theorem appendSubmission_calm {records : SubmissionRecords}
    (h : CalmRecord (.actionIntent records.intent)) :
    (appendSubmission records).Uses (Local CalmRecord) := by
  refine uses_bind (uses_append trivial) fun _ ↦ uses_bind (uses_append trivial) fun _ ↦ ?_
  exact uses_bind (uses_append trivial) fun _ ↦ uses_bind (uses_append h) fun _ ↦ trivial

theorem submit_calm (space : String) (input : CampaignSubmission) (idempotencyKey : String)
    (actor : Actor) : (submit space input idempotencyKey actor).Uses (Local CalmRecord) := by
  refine uses_withQueue (uses_bind (uses_ask _) fun ready ↦ ?_)
  split_ifs
  · trivial
  · trivial
  · trivial
  refine uses_bind (uses_ask _) fun existingRequest ↦ uses_bind (uses_ask _) fun existingLock ↦ ?_
  refine uses_ofExcept_bind fun _ _ ↦ uses_ofExcept_bind fun _ _ ↦ ?_
  refine uses_bind (submissionProfiles_calm _) fun resolution ↦ ?_
  refine uses_bind (checkSubmission_calm _ _) fun _ ↦ ?_
  refine uses_bind (submissionTime_calm _ _) fun timestamp ↦ ?_
  refine uses_bind (appendSubmission_calm ?_) fun _ ↦ trivial
  exact ⟨canonical_actionIntent _ _ _ _ _ _ _, by simp [submissionRecords, actionIntent],
    by simp [submissionRecords, actionIntent]⟩

/-! ### Sandbox routes -/

/-- The kinds of a worker's Sandbox actions. -/
def routeKinds : List ActionKind :=
  [.sandboxCreate, .sandboxObserve, .sandboxExec, .sandboxWrite, .sandboxRead, .sandboxClose]

/-- An intent of a Sandbox route. -/
structure RouteIntent (intent : ActionIntent) : Prop where
  canonical : CanonicalIntent intent
  kind : intent.actionKind ∈ routeKinds

theorem RouteIntent.calm {intent : ActionIntent} (h : RouteIntent intent) :
    CalmRecord (.actionIntent intent) := by
  refine ⟨h.canonical, ?_, ?_⟩
  · rintro hkind
    have := h.kind
    rw [hkind] at this
    exact absurd this (by decide)
  · rintro hkind
    have := h.kind
    rw [hkind] at this
    exact absurd this (by decide)

theorem RouteIntent.receipt {intent : ActionIntent} (h : RouteIntent intent)
    (result : ExternalActionResult) (createdAt : ℕ) :
    CalmRecord (.actionReceipt (receiptRecord intent result createdAt)) :=
  calm_receipt h.canonical h.calm.2.2 result createdAt

theorem writes_of_calm {β : Type} {program : Act β} (h : program.Uses (Local CalmRecord)) :
    program.Uses (Writes [] CalmRecord) := h.mono Local.writes

theorem executeSandboxAction_writes {intent : ActionIntent} {replaySafe ownsDispatch : Bool}
    {execute : ActionIntent → Bool → Act SandboxOutput} (h : RouteIntent intent)
    (hexecute : ∀ adoptionOnly, (execute intent adoptionOnly).Uses (Writes [] CalmRecord)) :
    (executeSandboxAction intent replaySafe execute ownsDispatch).Uses (Writes [] CalmRecord) := by
  have hwrite := writes_of_calm (uses_writeAction h.calm)
  have hsettle : ∀ result, (settleAction intent result).Uses (Writes [] CalmRecord) :=
    fun result ↦ writes_of_calm (uses_settleAction books_calm (h.receipt result))
  refine uses_bind (writes_ask _) fun existing ↦ ⟨trivial, fun stored ↦ ?_⟩
  dsimp only [Program.bind]
  split
  · refine uses_bind hwrite fun _ ↦ ?_
    split_ifs
    · trivial
    · exact uses_bind (hsettle _) fun _ ↦ trivial
  split_ifs
  · trivial
  refine uses_bind (writes_ask _) fun dispatched ↦ uses_bind hwrite fun _ ↦ ?_
  split_ifs
  · trivial
  refine uses_bind writes_now fun time ↦ uses_bind (dispatchAction_writes _ _) fun _ ↦ ?_
  refine uses_bind (hexecute _) fun output ↦ uses_bind ?_ fun _ ↦ ?_
  · exact ⟨trivial, fun answer ↦ uses_ofExcept answer⟩
  · exact uses_bind (hsettle _) fun _ ↦ trivial

theorem writes_requestIntent {β : Type} {request : SandboxRequest} {kind : ActionKind}
    {target : String} {payload : ActionPayload} {next : ActionIntent → Act β}
    (hkind : kind ∈ routeKinds)
    (h : ∀ intent, RouteIntent intent → (next intent).Uses (Writes [] CalmRecord)) :
    (requestIntent request kind target payload >>= next).Uses (Writes [] CalmRecord) := by
  unfold requestIntent
  cases requireIdempotencyKey request with
  | error error => trivial
  | ok key =>
    change (now >>= fun timestamp ↦ next (actionIntent request.campaignId kind
      (target ++ ":" ++ keySuffix key) 0 payload request.actor timestamp)).Uses _
    exact uses_bind writes_now fun timestamp ↦ h _ ⟨canonical_actionIntent _ _ _ _ _ _ _, hkind⟩

theorem gatewayLifecycle_writes (intent : ActionIntent) (adoptionOnly : Bool) :
    (gatewayLifecycle intent adoptionOnly).Uses (Writes [] CalmRecord) := by
  refine callPort_writes fun answer ↦ ?_
  split <;> trivial

theorem gatewayData_writes (method : PortMethod) (observedState : String) (resourceId : Option String)
    (intent : ActionIntent) (adoptionOnly : Bool) :
    (gatewayData method observedState resourceId intent adoptionOnly).Uses (Writes [] CalmRecord) := by
  refine callPort_writes fun answer ↦ ?_
  split <;> trivial

/-- The Sandbox routes of the API. -/
inductive SandboxRoute (derive : PreparedPolicy) (request : SandboxRequest) : Act String → Prop
  | create : SandboxRoute derive request (createRoute derive request)
  | observe (sandboxId : String) : SandboxRoute derive request (observeRoute derive request sandboxId)
  | exec (sandboxId : String) (body : CommandBody) :
      SandboxRoute derive request (execRoute derive request sandboxId body)
  | write (sandboxId : String) (body : WriteBody) :
      SandboxRoute derive request (writeRoute derive request sandboxId body)
  | read (sandboxId path : String) :
      SandboxRoute derive request (readRoute derive request sandboxId path)
  | close (sandboxId : String) : SandboxRoute derive request (closeRoute derive request sandboxId)

/-- A Sandbox route writes the records of Sandbox actions only. -/
theorem SandboxRoute.writes {derive : PreparedPolicy} {request : SandboxRequest} {route : Act String}
    (h : SandboxRoute derive request route) : route.Uses (Writes [] CalmRecord) := by
  have hcontext : ∀ operation sandboxId, (loadSandboxContext derive request operation
      sandboxId).Uses (Writes [] CalmRecord) :=
    fun operation sandboxId ↦ writes_of_calm (uses_loadSandboxContext _ _ _ _)
  cases h with
  | create =>
    refine uses_bind (hcontext _ _) fun context ↦ ?_
    refine writes_requestIntent (by decide) fun candidate hcandidate ↦ uses_bind ?_ fun created ↦ ?_
    · exact writes_of_calm (uses_admitSandboxCreate _ books_calm hcandidate.calm hcandidate.receipt)
    · exact writes_requestIntent (by decide) fun intent hintent ↦
        executeSandboxAction_writes hintent fun _ ↦ gatewayLifecycle_writes _ _
  | observe sandboxId =>
    refine uses_bind (hcontext _ _) fun context ↦ ?_
    exact writes_requestIntent (by decide) fun intent hintent ↦
      executeSandboxAction_writes hintent fun _ ↦ gatewayLifecycle_writes _ _
  | exec sandboxId body =>
    refine uses_bind (hcontext _ _) fun context ↦ uses_ofExcept_bind fun _ _ ↦ ?_
    split_ifs
    · trivial
    refine writes_requestIntent (by decide) fun candidate hcandidate ↦ uses_bind ?_ fun _ ↦ ?_
    · exact writes_of_calm (uses_admitSandboxCommand _ hcandidate.calm)
    · exact writes_requestIntent (by decide) fun intent hintent ↦
        executeSandboxAction_writes hintent fun _ ↦ gatewayData_writes _ _ _ _ _
  | write sandboxId body =>
    refine uses_bind (hcontext _ _) fun context ↦ uses_ofExcept_bind fun _ _ ↦ ?_
    split_ifs
    · trivial
    · trivial
    · trivial
    exact writes_requestIntent (by decide) fun intent hintent ↦
      executeSandboxAction_writes hintent fun _ ↦ gatewayData_writes _ _ _ _ _
  | read sandboxId path =>
    refine uses_bind (hcontext _ _) fun context ↦ uses_ofExcept_bind fun _ _ ↦ ?_
    exact writes_requestIntent (by decide) fun intent hintent ↦
      executeSandboxAction_writes hintent fun _ ↦ gatewayData_writes _ _ _ _ _
  | close sandboxId =>
    refine uses_bind (hcontext _ _) fun context ↦ ?_
    exact writes_requestIntent (by decide) fun intent hintent ↦
      executeSandboxAction_writes hintent fun _ ↦ gatewayLifecycle_writes _ _

theorem uploadEvidence_writes (campaignId actionId taskId expectedDigest : String)
    (object : StoredObject) :
    (uploadEvidenceObject campaignId actionId taskId expectedDigest object).Uses
      (Writes [] CalmRecord) := by
  refine uses_bind (writes_ask _) fun action ↦ ?_
  split
  · trivial
  split
  · trivial
  refine uses_bind (writes_ask _) fun task ↦ ?_
  split_ifs
  · trivial
  · trivial
  · exact ⟨trivial, fun answer ↦ uses_ofExcept answer⟩

end

end HarborHF.Control
