import HarborHF.Control.Ceilings
import HarborHF.Control.History

/-!
# Repeated operator actions

An operator's request that succeeded has its intent stored (`campaignAction_history`), whatever else
the service was doing. When the request comes again with the same key, it is answered from that
intent if the request gets as far as looking for it. Cancellations and retries do, in every later
state. A publication or an endpoint pause is first checked against the present state of the campaign,
and that check must pass again (`repeated_action_iff`).
-/

set_option autoImplicit false

namespace HarborHF.Control

open Async Program Relational Projection

section

variable [Digests]

/-! ### What a request records -/

/-- The kind, target and payload of the intent that a request asks for. -/
def Asks (input : CampaignActionInput) (kind : ActionKind) (target : String)
    (payload : ActionPayload) : Prop :=
  match input.action with
  | .cancel => kind = .campaignCancel ∧ target = input.taskId.getD "campaign" ∧
      payload = { taskId := input.taskId, reason := input.reason }
  | .publish => kind = .publicationPublish ∧ target = "results" ∧ payload = {}
  | .pauseEndpoint => kind = .endpointPause ∧ payload = { endpointId := some target }
  | .retryInfrastructure => kind = .jobLaunch ∧ input.taskId = some target ∧
      payload.reason = input.reason

/-- A stored intent is the one that a result names. -/
structure Names (campaignId : String) (input : CampaignActionInput) (generation : ℕ)
    (result : SubmissionResult) (intent : ActionIntent) : Prop where
  campaign : intent.campaignId = campaignId
  identity : intent.actionId = actionIdOf campaignId intent.actionKind intent.target generation
  generation : input.action ≠ .retryInfrastructure → intent.generation = generation
  asks : Asks input intent.actionKind intent.target intent.payload
  result : ∃ adopted, result =
    ⟨campaignId, intent.actionId, "/api/v1/campaigns/" ++ campaignId, adopted⟩

/-- The result of a request names a stored intent. -/
def Filed (campaignId : String) (input : CampaignActionInput) (generation : ℕ)
    (result : SubmissionResult) (world : World) : Prop :=
  ∃ intent, .actionIntent intent ∈ world.store.records ∧
    Names campaignId input generation result intent

variable {world : World} {thread : ℕ} {campaignId : String} {input : CampaignActionInput}
  {generation : ℕ} {actor : Actor} {idempotencyKey : String}

theorem lasting_filed (result : SubmissionResult) :
    Lasting (Filed campaignId input generation result) := by
  rintro before after hstored ⟨intent, hintent, hnames⟩
  exact ⟨intent, hstored _ hintent, hnames⟩

omit [Digests] in
theorem lasting_true : Lasting fun _ ↦ True := fun _ _ _ _ ↦ trivial

theorem recordedRetry_history : HistorySafe thread (recordedRetry campaignId input generation)
      (fun found after ↦ ∀ result, found = some result →
        Filed campaignId input generation result after) world := by
  unfold recordedRetry
  split
  next taskId hkind htask =>
    refine history_ask (fun _ ↦ True) lasting_true trivial fun after hafter _ ↦ ?_
    split
    · exact history_ret fun _ _ _ _ hnone ↦ by cases hnone
    next row hrow =>
    obtain ⟨hstored, hid⟩ := hafter.action_eq_some hrow
    split
    · exact history_throw
    next hsame =>
    simp only [not_or, not_not] at hsame
    obtain ⟨hlaunch, htarget, hreason⟩ := hsame
    refine history_ret fun last _ hlast result hresult ↦ ?_
    cases hresult
    have hcanonical : CanonicalIntent row.intent := hafter.canonical _ hstored
    refine ⟨row.intent, hlast _ hstored, ?_, ?_, fun hne ↦ absurd hkind hne, ?_, ?_⟩
    · unfold CanonicalIntent actionIdOf at hcanonical
      rw [hcanonical, actionIdOf, deterministicId_inj] at hid
      exact (List.cons.inj hid.2).1
    · rw [hlaunch, htarget, hid]
    · unfold Asks
      rw [hkind]
      exact ⟨hlaunch, by rw [htask, htarget], hreason⟩
    · exact ⟨true, by rw [hid]⟩
  next => exact history_ret fun _ _ _ _ hnone ↦ by cases hnone

/-- The action of a retry launches a Job for its task. -/
theorem retryAction_history {lock : CampaignLock} {taskId : String} {reason : Option String} :
    HistorySafe thread (retryAction campaignId lock taskId reason)
      (fun asked _ ↦ asked.kind = .jobLaunch ∧ asked.target = taskId ∧
        asked.payload.reason = reason) world := by
  refine history_ask (fun _ ↦ True) lasting_true trivial fun after hafter _ ↦ ?_
  split
  · exact history_throw
  split
  · exact history_throw
  split
  · exact history_throw
  refine history_ask (fun _ ↦ True) lasting_true trivial fun middle hmiddle _ ↦ ?_
  split
  · exact history_throw
  refine history_then (fun _ ↦ True) (uses_ofExcept _) lasting_true hmiddle trivial
    fun deployment last hlast _ ↦ ?_
  split
  · exact history_throw
  refine history_then (fun _ ↦ True) (uses_ofExcept _) lasting_true hlast trivial
    fun policy final hfinal _ ↦ ?_
  split
  · exact history_throw
  refine history_then (fun _ ↦ True) ?_ lasting_true hfinal trivial fun prepared _ _ _ ↦ ?_
  · exact (uses_requirePrepared _ _).mono (Local.own fun _ h ↦ h)
  · exact history_ret fun _ _ _ ↦ ⟨rfl, rfl, rfl⟩

/-- The action a request asks for. -/
theorem operatorAction_history {view : CampaignView} {lock : CampaignLock} :
    HistorySafe thread (operatorAction view lock input)
      (fun asked _ ↦ Asks input asked.kind asked.target asked.payload) world := by
  unfold operatorAction Asks
  cases haction : input.action with
  | cancel => exact history_ret fun _ _ _ ↦ ⟨rfl, rfl, rfl⟩
  | publish =>
    dsimp only
    split
    · exact history_throw
    split
    · exact history_throw
    refine history_ask (fun _ ↦ True) lasting_true trivial fun after _ _ ↦ ?_
    split
    · exact history_throw
    · exact history_ret fun _ _ _ ↦ ⟨rfl, rfl, rfl⟩
  | pauseEndpoint =>
    refine history_ask (fun _ ↦ True) lasting_true trivial fun after _ _ ↦ ?_
    split
    · exact history_ret fun _ _ _ ↦ ⟨rfl, rfl⟩
    · exact history_throw
  | retryInfrastructure =>
    dsimp only
    split
    · exact history_throw
    next taskId htask =>
    refine retryAction_history.mono ?_ fun _ _ _ _ ↦ trivial
    rintro asked last _ ⟨hkind, htarget, hreason⟩
    exact ⟨hkind, by rw [htask, htarget], hreason⟩

theorem uses_reserveRetry (retry : Option (AttemptReceipt × ℕ)) :
    (reserveRetry campaignId retry).Uses Own := by
  unfold reserveRetry
  split
  · trivial
  · refine uses_bind ?_ fun reserved ↦ ?_
    · refine Uses.mono (uses_withQueue ?_) (Local.own fun record h ↦ h)
      unfold reserveReplacementSerialized
      split
      · trivial
      · exact uses_reserveSerialized (fun _ ↦ trivial) fun _ ↦ trivial
    · split <;> trivial

/-- Writing an operator's action leaves its intent stored. -/
theorem writeOperatorAction_history {asked : OperatorAction}
    (hasks : Asks input asked.kind asked.target asked.payload) (hinv : History world) :
    HistorySafe thread (writeOperatorAction campaignId generation actor asked)
      (Filed campaignId input generation) world := by
  refine history_then (fun _ ↦ True) (uses_reserveRetry _) lasting_true hinv trivial
    fun _ after hafter _ ↦ ?_
  refine history_then (fun _ ↦ True) ⟨trivial, fun _ ↦ trivial⟩ lasting_true hafter trivial
    fun timestamp middle _ _ ↦ ?_
  refine history_ask (fun _ ↦ True) lasting_true trivial fun last hlast _ ↦ ?_
  refine safe_bind ((writeAction_history (canonical_actionIntent _ _ _ _ _ _ _)).mono ?_
    fun _ _ _ _ ↦ trivial) hlast
  rintro _ final _ ⟨recorded, hstored, hid, hsame⟩
  refine history_ret fun later _ hlater ↦ ⟨recorded, hlater _ hstored, ?_⟩
  simp only [sameAction, decide_eq_true_eq] at hsame
  obtain ⟨hcampaign, hkind, hgeneration, htarget, hpayload⟩ := hsame
  refine ⟨hcampaign, ?_, fun _ ↦ hgeneration, ?_, ⟨_, by rw [hid]⟩⟩
  · rw [hid, hkind, htarget]
    rfl
  · rw [hkind, htarget, hpayload]
    exact hasks

/-- What a request leaves stored: its intent, and the lock it found. -/
def Answered (campaignId : String) (input : CampaignActionInput) (generation : ℕ)
    (result : SubmissionResult) (world : World) : Prop :=
  Filed campaignId input generation result world ∧
    ∃ lock, .campaignLock lock ∈ world.store.records ∧ lock.campaignId = campaignId

theorem lasting_answered (result : SubmissionResult) :
    Lasting (Answered campaignId input generation result) := by
  rintro before after hstored ⟨hfiled, lock, hlock, hcampaign⟩
  exact ⟨lasting_filed result before after hstored hfiled, lock, hstored _ hlock, hcampaign⟩

omit [Digests] in
theorem lasting_lock (lock : CampaignLock) :
    Lasting fun world ↦ .campaignLock lock ∈ world.store.records := fun _ _ hstored ↦ hstored _

theorem campaignActionValidated_history :
    HistorySafe thread (campaignActionValidated campaignId input idempotencyKey actor)
      (Answered campaignId input (generationOf idempotencyKey)) world := by
  refine history_ask (fun _ ↦ True) lasting_true trivial fun after hafter _ ↦ ?_
  split
  · exact history_throw
  refine history_ask (fun _ ↦ True) lasting_true trivial fun middle hmiddle _ ↦ ?_
  split
  · exact history_throw
  next lock hlock =>
  obtain ⟨hstored, hcampaign⟩ := hmiddle.campaignLock_eq_some.mp hlock
  refine history_bind _ (lasting_lock lock) hmiddle hstored recordedRetry_history
    fun recorded last hlast hrecorded hheld ↦ ?_
  cases recorded with
  | some result =>
    refine history_ret fun final _ hfinal ↦ ?_
    exact ⟨lasting_filed result last final hfinal (hrecorded result rfl),
      lock, hfinal _ hheld, hcampaign⟩
  | none =>
    refine history_bind _ (lasting_lock lock) hlast hheld operatorAction_history
      fun asked final hfinal hasks hheld' ↦ ?_
    refine ((writeOperatorAction_history hasks hfinal).frame (fun before after ↦ lasting_lock lock
      before after) (fun before after ↦ lasting_lock lock before after) hheld').mono ?_
        fun _ _ _ _ ↦ trivial
    exact fun result later _ hboth ↦ ⟨hboth.1, lock, hboth.2, hcampaign⟩

/-- A request that succeeds was confirmed, and leaves its intent stored. -/
theorem campaignAction_history :
    HistorySafe thread (campaignAction campaignId input idempotencyKey actor)
      (fun result after ↦ input.confirmed = true ∧
        Answered campaignId input (generationOf idempotencyKey) result after) world := by
  refine history_ask (fun _ ↦ True) lasting_true trivial fun after hafter _ ↦ ?_
  split
  · exact history_throw
  split
  · exact history_throw
  next hconfirmed =>
  have hconfirmed : input.confirmed = true := by simpa using hconfirmed
  have hvalidated : ∀ state, HistorySafe thread
      (campaignActionValidated campaignId input idempotencyKey actor)
      (fun result last ↦ input.confirmed = true ∧
        Answered campaignId input (generationOf idempotencyKey) result last) state :=
    fun state ↦ campaignActionValidated_history.mono
      (fun result last _ hanswered ↦ ⟨hconfirmed, hanswered⟩) fun _ _ _ _ ↦ trivial
  split
  · refine history_withQueue ?_ fun state _ ↦ hvalidated state
    intro result before last hstored hanswered
    exact ⟨hconfirmed, lasting_answered result before last hstored hanswered.2⟩
  · exact hvalidated after

/-! ### The request again -/

/-- The state of the campaign lets a request through to its recorded intent. -/
def Repeatable (campaignId : String) (input : CampaignActionInput) (generation : ℕ)
    (result : SubmissionResult) (P : Projection) : Prop :=
  match input.action with
  | .cancel => True
  | .retryInfrastructure => True
  | .publish => (∃ view, P.campaign campaignId = some view ∧ view.terminalTasks = view.totalTasks ∧
      view.pendingActions = 0 ∧ view.cleanupPending = false) ∧ P.campaignPublication campaignId = none
  | .pauseEndpoint => ∃ endpoint, (P.endpointsList 100).filter (fun row ↦
      decide (row.campaignId = campaignId) && !row.cleanupVerified) = [endpoint] ∧
        result.actionId = actionIdOf campaignId .endpointPause endpoint.endpointId generation

variable {choice : Choice} {result : SubmissionResult}

/-- A request whose intent is stored is answered with it, and writes nothing. -/
theorem eval_writeOperatorAction {asked : OperatorAction} {intent : ActionIntent}
    (h : History world) (hstored : .actionIntent intent ∈ world.store.records)
    (hcampaign : intent.campaignId = campaignId) (hkind : intent.actionKind = asked.kind)
    (hgeneration : intent.generation = generation) (htarget : intent.target = asked.target)
    (hpayload : intent.payload = asked.payload) (hretry : asked.retry = none) :
    machine.eval thread choice (writeOperatorAction campaignId generation actor asked) world =
      (some (.ok ⟨campaignId, intent.actionId, "/api/v1/campaigns/" ++ campaignId, true⟩),
        world) := by
  have hcanonical : CanonicalIntent intent := h.canonical _ hstored
  have hid : actionIdOf campaignId asked.kind asked.target generation = intent.actionId := by
    rw [hcanonical, hcampaign, hkind, htarget, hgeneration]
  obtain ⟨row, hrow, hintent⟩ := h.action_of_stored hstored
  have hsame : ∀ timestamp, sameAction (actionIntent campaignId asked.kind asked.target generation
      asked.payload actor timestamp) row.intent = true := by
    intro timestamp
    simp [sameAction, actionIntent, hintent, hcampaign, hkind, hgeneration, htarget, hpayload]
  have hanswer : (Query.action (actionIdOf campaignId asked.kind asked.target generation)).answer
      world.projection = some row := by
    rw [hid]
    exact hrow
  have hwrite : machine.eval thread choice (writeAction (actionIntent campaignId asked.kind
      asked.target generation asked.payload actor choice.now)) world = (some (.ok ()), world) := by
    refine (eval_ask_then hanswer).trans ?_
    change machine.eval thread choice (if sameAction _ row.intent = true then _ else _) world = _
    rw [if_pos (hsame choice.now)]
    rfl
  unfold writeOperatorAction
  rw [hretry]
  refine (eval_ask_then hanswer).trans ?_
  rw [Machine.eval_bind, hwrite]
  change (some (Except.ok (SubmissionResult.mk campaignId (actionIdOf campaignId asked.kind asked.target
    generation) ("/api/v1/campaigns/" ++ campaignId) true)), world) = _
  rw [hid]

theorem target_of_actionIdOf {kind : ActionKind} {first second : String}
    (h : actionIdOf campaignId kind first generation = actionIdOf campaignId kind second generation) :
    first = second := by
  unfold actionIdOf at h
  rw [deterministicId_inj] at h
  simp only [List.cons.injEq, true_and] at h
  exact h.1

/-- The result of a request names the identity of the action that was asked for. -/
theorem actionId_of_eval {asked : OperatorAction} {world' : World} (hretry : asked.retry = none)
    (h : machine.eval thread choice (writeOperatorAction campaignId generation actor asked) world =
      (some (.ok result), world')) :
    result.actionId = actionIdOf campaignId asked.kind asked.target generation := by
  unfold writeOperatorAction at h
  rw [hretry] at h
  have hwrite : machine.eval thread choice (writeAction (actionIntent campaignId asked.kind
      asked.target generation asked.payload actor choice.now) >>= fun _ ↦ .ret ⟨campaignId,
        actionIdOf campaignId asked.kind asked.target generation, "/api/v1/campaigns/" ++ campaignId,
        (world.projection.action
          (actionIdOf campaignId asked.kind asked.target generation)).isSome⟩) world =
      (some (.ok result), world') := h
  rw [Machine.eval_bind] at hwrite
  split at hwrite
  · cases hwrite
    rfl
  · cases hwrite
  · cases hwrite

theorem recordedRetry_none (hretry : input.action ≠ .retryInfrastructure) :
    recordedRetry campaignId input generation = .ret none := by
  unfold recordedRetry
  split
  next hkind _ => exact absurd hkind hretry
  next => rfl

/-- A retry whose intent is stored is answered with it. -/
theorem eval_recordedRetry {intent : ActionIntent} (h : History world)
    (hstored : .actionIntent intent ∈ world.store.records)
    (hnames : Names campaignId input generation result intent)
    (hretry : input.action = .retryInfrastructure) :
    machine.eval thread choice (recordedRetry campaignId input generation) world =
      (some (.ok (some { result with adopted := true })), world) := by
  have hasks := hnames.asks
  unfold Asks at hasks
  rw [hretry] at hasks
  obtain ⟨hkind, htask, hreason⟩ := hasks
  obtain ⟨adopted, rfl⟩ := hnames.result
  obtain ⟨row, hrow, hintent⟩ := h.action_of_stored hstored
  have hid : intent.actionId = actionIdOf campaignId .jobLaunch intent.target generation := by
    rw [hnames.identity, hkind]
  have hanswer : (Query.action (actionIdOf campaignId .jobLaunch intent.target generation)).answer
      world.projection = some row := by
    rw [← hid]
    exact hrow
  unfold recordedRetry
  rw [hretry, htask]
  refine (eval_ask_then hanswer).trans ?_
  dsimp only
  rw [if_neg]
  · rw [← hid]
    rfl
  · rw [hintent]
    simp [hkind, hreason]

/-- The action of a publication, run alone. -/
theorem eval_publish (world : World) (thread : ℕ) (choice : Choice) (view : CampaignView)
    (lock : CampaignLock) (hpublish : input.action = .publish) :
    machine.eval thread choice (operatorAction view lock input) world =
        (some (.ok ⟨.publicationPublish, "results", {}, none⟩), world) ∧
        view.terminalTasks = view.totalTasks ∧ view.pendingActions = 0 ∧
          view.cleanupPending = false ∧
            world.projection.campaignPublication view.campaignId = none ∨
      (∃ error, machine.eval thread choice (operatorAction view lock input) world =
        (some (.error error), world)) ∧
        ¬ (view.terminalTasks = view.totalTasks ∧ view.pendingActions = 0 ∧
          view.cleanupPending = false ∧
            world.projection.campaignPublication view.campaignId = none) := by
  unfold operatorAction
  rw [hpublish]
  dsimp only
  split
  next hterminal => exact .inr ⟨⟨_, rfl⟩, fun h ↦ hterminal h.1⟩
  next hterminal =>
  split
  next hpending =>
    refine .inr ⟨⟨_, rfl⟩, fun h ↦ ?_⟩
    rcases hpending with hpending | hcleanup
    · omega
    · rw [h.2.2.1] at hcleanup
      cases hcleanup
  next hpending =>
  simp only [not_or, Nat.not_lt, Nat.le_zero, Bool.not_eq_true] at hpending
  cases hpublication : world.projection.campaignPublication view.campaignId with
  | some receipt =>
    have hanswer : (Query.campaignPublication view.campaignId).answer world.projection =
        some receipt := hpublication
    exact .inr ⟨⟨_, eval_ask_then hanswer⟩, fun h ↦ by cases h.2.2.2⟩
  | none =>
    have hanswer : (Query.campaignPublication view.campaignId).answer world.projection = none :=
      hpublication
    exact .inl ⟨eval_ask_then hanswer, not_not.mp hterminal, hpending.1, hpending.2, rfl⟩

theorem eval_operatorAction_pause (world : World) (thread : ℕ) (choice : Choice) (view : CampaignView)
    (lock : CampaignLock) (hpause : input.action = .pauseEndpoint) :
    machine.eval thread choice (operatorAction view lock input) world =
      machine.eval thread choice (match (world.projection.endpointsList 100).filter (fun row ↦
          decide (row.campaignId = view.campaignId) && !row.cleanupVerified) with
        | [endpoint] => .ret ⟨.endpointPause, endpoint.endpointId,
            { endpointId := some endpoint.endpointId }, none⟩
        | others => policyError ("expected one active campaign endpoint, found " ++
            toString others.length)) world := by
  unfold operatorAction
  rw [hpause]
  rfl

/-- The action of an endpoint pause, run alone. -/
theorem eval_pauseEndpoint (world : World) (thread : ℕ) (choice : Choice) (view : CampaignView)
    (lock : CampaignLock) (hpause : input.action = .pauseEndpoint) :
    (∃ endpoint, (world.projection.endpointsList 100).filter (fun row ↦
        decide (row.campaignId = view.campaignId) && !row.cleanupVerified) = [endpoint] ∧
      machine.eval thread choice (operatorAction view lock input) world =
        (some (.ok ⟨.endpointPause, endpoint.endpointId,
          { endpointId := some endpoint.endpointId }, none⟩), world)) ∨
      (∃ error, machine.eval thread choice (operatorAction view lock input) world =
        (some (.error error), world)) ∧
        ∀ endpoint, (world.projection.endpointsList 100).filter (fun row ↦
          decide (row.campaignId = view.campaignId) && !row.cleanupVerified) ≠ [endpoint] := by
  rw [eval_operatorAction_pause world thread choice view lock hpause]
  split
  next endpoint hrows => exact .inl ⟨endpoint, hrows, rfl⟩
  next hrows => exact .inr ⟨⟨_, rfl⟩, fun endpoint ↦ hrows endpoint⟩

/-- What is left of a request once its campaign and its lock are found. -/
theorem eval_validated {view : CampaignView}
    {lock : CampaignLock} (hview : world.projection.campaign campaignId = some view)
    (hlock : world.projection.campaignLock campaignId = some lock)
    (hretry : input.action ≠ .retryInfrastructure) :
    machine.eval thread choice (campaignActionValidated campaignId input idempotencyKey actor) world =
      machine.eval thread choice (operatorAction view lock input >>=
        writeOperatorAction campaignId (generationOf idempotencyKey) actor) world := by
  have hcampaign : (Query.campaign campaignId).answer world.projection = some view := hview
  have hlocked : (Query.campaignLock campaignId).answer world.projection = some lock := hlock
  unfold campaignActionValidated
  refine (eval_ask_then hcampaign).trans ((eval_ask_then hlocked).trans ?_)
  dsimp only
  rw [recordedRetry_none hretry]
  rfl

/-- A request that was answered once is answered with the same action again, exactly when the state
of the campaign lets it through. -/
theorem eval_validated_iff (h : History world)
    (hanswered : Answered campaignId input (generationOf idempotencyKey) result world) :
    machine.eval thread choice (campaignActionValidated campaignId input idempotencyKey actor) world =
        (some (.ok { result with adopted := true }), world) ↔
      Repeatable campaignId input (generationOf idempotencyKey) result world.projection := by
  obtain ⟨⟨intent, hstored, hnames⟩, lock, hlockStored, rfl⟩ := hanswered
  obtain ⟨view, hview, hname⟩ := h.campaign_of_lock hlockStored
  have hlock : world.projection.campaignLock lock.campaignId = some lock :=
    h.campaignLock_eq_some.mpr ⟨hlockStored, rfl⟩
  obtain ⟨adopted, hresult⟩ := hnames.result
  have hasks := hnames.asks
  unfold Asks at hasks
  unfold Repeatable
  cases haction : input.action with
  | cancel =>
    rw [haction] at hasks
    obtain ⟨hkind, htarget, hpayload⟩ := hasks
    have hretry : input.action ≠ .retryInfrastructure := by simp [haction]
    simp only [iff_true]
    rw [eval_validated hview hlock hretry, Machine.eval_bind]
    unfold operatorAction
    rw [haction]
    simp only [Machine.eval_ret]
    rw [eval_writeOperatorAction h hstored hnames.campaign hkind (hnames.generation hretry) htarget
      hpayload rfl, hresult]
  | publish =>
    rw [haction] at hasks
    obtain ⟨hkind, htarget, hpayload⟩ := hasks
    have hretry : input.action ≠ .retryInfrastructure := by simp [haction]
    rw [eval_validated hview hlock hretry, Machine.eval_bind]
    rcases eval_publish world thread choice view lock haction with
      ⟨heval, hterminal, hpending, hcleanup, hpublication⟩ | ⟨⟨error, heval⟩, hfails⟩
    · have hwritten : machine.eval thread choice (writeOperatorAction lock.campaignId
          (generationOf idempotencyKey) actor ⟨.publicationPublish, "results", {}, none⟩) world = _ :=
        eval_writeOperatorAction h hstored hnames.campaign hkind (hnames.generation hretry) htarget
          hpayload rfl
      rw [heval]
      dsimp only
      rw [hwritten, hresult]
      rw [hname] at hpublication
      exact iff_of_true rfl ⟨⟨view, hview, hterminal, hpending, hcleanup⟩, hpublication⟩
    · rw [heval]
      refine iff_of_false (by simp) ?_
      rintro ⟨⟨other, hother, hterminal, hpending, hcleanup⟩, hpublication⟩
      rw [hview] at hother
      cases hother
      exact hfails ⟨hterminal, hpending, hcleanup, hname ▸ hpublication⟩
  | pauseEndpoint =>
    rw [haction] at hasks
    obtain ⟨hkind, hpayload⟩ := hasks
    have hretry : input.action ≠ .retryInfrastructure := by simp [haction]
    rw [eval_validated hview hlock hretry, Machine.eval_bind, ← hname]
    rcases eval_pauseEndpoint world thread choice view lock haction with
      ⟨endpoint, hrows, heval⟩ | ⟨⟨error, heval⟩, hfails⟩
    · rw [heval]
      dsimp only
      constructor
      · intro hanswer
        have hid := actionId_of_eval rfl hanswer
        exact ⟨endpoint, hrows, hid⟩
      · rintro ⟨other, hother, hid⟩
        cases hrows.symm.trans hother
        have htarget : intent.target = endpoint.endpointId := by
          rw [hresult] at hid
          rw [hnames.identity, hkind, hname] at hid
          exact target_of_actionIdOf hid
        rw [hname, eval_writeOperatorAction h hstored hnames.campaign hkind
          (hnames.generation hretry) htarget (by rw [hpayload, htarget]) rfl, hresult]
    · rw [heval]
      refine iff_of_false (by simp) ?_
      rintro ⟨endpoint, hrows, -⟩
      exact hfails endpoint hrows
  | retryInfrastructure =>
    have hcampaign : (Query.campaign lock.campaignId).answer world.projection = some view := hview
    have hlocked : (Query.campaignLock lock.campaignId).answer world.projection = some lock := hlock
    simp only [iff_true]
    unfold campaignActionValidated
    refine (eval_ask_then hcampaign).trans ((eval_ask_then hlocked).trans ?_)
    dsimp only
    rw [Machine.eval_bind, eval_recordedRetry h hstored hnames haction]
    rfl

omit [Digests] in
theorem World.hold_leave (queue : Queue) (hfree : ∀ other, (queue, other) ∉ world.held) :
    (world.hold queue thread).leave queue thread = world := by
  unfold World.hold World.leave
  have hkept : world.held.filter (fun entry ↦ entry ≠ (queue, thread)) = world.held := by
    refine List.filter_eq_self.mpr fun entry hentry ↦ decide_eq_true ?_
    rintro rfl
    exact hfree thread hentry
  rw [List.filter_cons_of_neg (by simp), hkept]

/-- The queue that a request waits for is free. -/
def Unblocked (input : CampaignActionInput) (world : World) : Prop :=
  input.action = .retryInfrastructure → ∀ other, (.retryAdmission, other) ∉ world.held

theorem eval_campaignAction (h : History world)
    (hconfirmed : input.confirmed = true) (hfree : Unblocked input world)
    (hanswered : Answered campaignId input (generationOf idempotencyKey) result world) :
    machine.eval thread choice (campaignAction campaignId input idempotencyKey actor) world =
        (some (.ok { result with adopted := true }), world) ↔
      Repeatable campaignId input (generationOf idempotencyKey) result world.projection := by
  have hready : (Query.ready).answer world.projection = true := h.ready
  have hchecked : machine.eval thread choice (campaignAction campaignId input idempotencyKey actor)
      world = machine.eval thread choice (if input.action = .retryInfrastructure then
        withQueue .retryAdmission (campaignActionValidated campaignId input idempotencyKey actor)
      else campaignActionValidated campaignId input idempotencyKey actor) world := by
    unfold campaignAction
    refine (eval_ask_then hready).trans ?_
    rw [hconfirmed]
    rfl
  rw [hchecked]
  by_cases hretry : input.action = .retryInfrastructure
  · have hnone : (world.held.any fun entry ↦ entry.1 = .retryAdmission) = false := by
      rw [List.any_eq_false]
      rintro ⟨queue, other⟩ hentry hqueue
      cases of_decide_eq_true hqueue
      exact hfree hretry other hentry
    have hheld : History (world.hold .retryAdmission thread) := h.of_held _
    have hrepeated : Repeatable campaignId input (generationOf idempotencyKey) result
        (world.hold .retryAdmission thread).projection := by
      unfold Repeatable
      rw [hretry]
      trivial
    have heval : machine.eval thread choice (campaignActionValidated campaignId input idempotencyKey
        actor) (world.hold .retryAdmission thread) = _ :=
      (eval_validated_iff hheld hanswered).mpr hrepeated
    rw [if_pos hretry, eval_withQueue, hnone]
    simp only [Bool.false_eq_true, if_false, heval]
    rw [World.hold_leave _ (hfree hretry)]
    exact iff_of_true rfl hrepeated
  · rw [if_neg hretry]
    exact eval_validated_iff h hanswered

/-- A request that succeeded comes again with the same key, at any later time. It is answered with
the same action, and nothing is written, exactly when the state of the campaign lets it through. -/
theorem repeated_action_iff {idempotencyKey : String} {actor : Actor} {first last : World}
    {thread' : ℕ} (hinv : History world) (hcall : machine.Call (machine.Steps Own) thread
      (campaignAction campaignId input idempotencyKey actor) world (.ok result) first)
    (hlater : machine.Later Own first last) (hfree : Unblocked input last) :
    machine.eval thread' choice (campaignAction campaignId input idempotencyKey actor) last =
        (some (.ok { result with adopted := true }), last) ↔
      Repeatable campaignId input (generationOf idempotencyKey) result last.projection := by
  obtain ⟨hfirst, hconfirmed, hanswered⟩ := hinv.call campaignAction_history hcall
  obtain ⟨hlast, hstored⟩ := hfirst.later hlater
  exact eval_campaignAction hlast hconfirmed hfree
    (lasting_answered result first last hstored hanswered)

end

/-! ### A campaign whose task is done

Its publication is asked for twice with the same key. The first request finds nothing pending and
records its intent; the second finds that intent pending. -/

section

local instance operatorDigests : Digests := plainDigests

def doneLaunch : ActionIntent :=
  actionIntent "c" .jobLaunch "campaign-tasks" 0 { taskIds := some ["t"] } serviceActor 2

def doneAttempt : AttemptReceipt :=
  attemptRecord { sampleAttempt "a" 10 with actionId := doneLaunch.actionId } serviceActor

/-- The records of a campaign whose Job has ended and whose task is terminal. -/
def doneRecords : List Record :=
  [.actionIntent doneLaunch,
    .actionReceipt (receiptRecord doneLaunch
      { outcome := .completed, observedState := "RUNNING", resourceId := some "j" } 3),
    .campaignLock sampleLock, .attemptReceipt doneAttempt,
    .terminalSelection (terminalRecord doneAttempt "valid terminal worker outcome" 6)]

def doneWorld : World :=
  ⟨⟨doneRecords, [⟨"e", "d", 1, .notJson⟩], []⟩,
    { extendAll doneRecords {} with ready := true }, []⟩

def cancellation : Record :=
  .actionIntent (actionIntent "c" .campaignCancel "campaign" 0 {} serviceActor 7)

/-- The campaign with a request to cancel it. -/
def cancellingWorld : World := (doneWorld.append cancellation).2

theorem doneWorld_restarts :
    doneWorld.restart = some doneWorld ∧ cancellingWorld.restart.isSome = true := by decide +kernel

theorem doneWorld_history : History doneWorld := by
  refine (history_of_restart ?_ doneWorld_restarts.1).1
  intro record hrecord
  simp only [doneWorld, doneRecords, List.mem_cons, List.not_mem_nil, or_false] at hrecord
  rcases hrecord with rfl | rfl | rfl | rfl | rfl
  · exact canonical_actionIntent _ _ _ _ _ _ _
  all_goals trivial

/-- An operator's request, run alone. -/
def request (action : CampaignActionKind) (world : World) :
    Option (Except ServiceError SubmissionResult) × World :=
  machine.eval 0 {} (campaignAction "c" ⟨action, none, none, true⟩ "a key of the operator"
    serviceActor) world

theorem call_of_request {action : CampaignActionKind} {result : SubmissionResult} {world : World}
    (h : (request action world).1 = some (.ok result)) :
    machine.Call (machine.Steps Own) 0 (campaignAction "c" ⟨action, none, none, true⟩
      "a key of the operator" serviceActor) world (.ok result) (request action world).2 :=
  Machine.call_of_eval (fun _ ↦ .refl) (Prod.ext h rfl)

/-- The identity of the action that a request asks for. -/
def requestedResult (kind : ActionKind) (target : String) : SubmissionResult :=
  ⟨"c", actionIdOf "c" kind target (generationOf "a key of the operator"), "/api/v1/campaigns/c",
    false⟩

/-- A cancellation that comes again is answered with the recorded one. -/
theorem cancelled_again :
    (request .cancel doneWorld).1 = some (.ok (requestedResult .campaignCancel "campaign")) ∧
      request .cancel (request .cancel doneWorld).2 =
        (some (.ok { requestedResult .campaignCancel "campaign" with adopted := true }),
          (request .cancel doneWorld).2) := by
  have hfirst : (request .cancel doneWorld).1 =
      some (.ok (requestedResult .campaignCancel "campaign")) := by decide +kernel
  exact ⟨hfirst, (repeated_action_iff doneWorld_history (call_of_request hfirst) .refl nofun).mpr
    trivial⟩

/-- A publication that comes again is refused: its own intent is pending. -/
theorem published_again :
    ∃ (world first : World) (input : CampaignActionInput) (result : SubmissionResult),
      History world ∧ machine.Call (machine.Steps Own) 0 (campaignAction "c" input
        "a key of the operator" serviceActor) world (.ok result) first ∧ Unblocked input first ∧
        (machine.eval 0 {} (campaignAction "c" input "a key of the operator" serviceActor) first).1 =
          some (.error (.policy
            "campaign cannot publish while actions or endpoint cleanup are pending")) := by
  have hfirst : (request .publish doneWorld).1 =
      some (.ok (requestedResult .publicationPublish "results")) := by decide +kernel
  refine ⟨doneWorld, (request .publish doneWorld).2, _, _, doneWorld_history,
    call_of_request hfirst, nofun, ?_⟩
  change (request .publish (request .publish doneWorld).2).1 = _
  decide +kernel

end

end HarborHF.Control
