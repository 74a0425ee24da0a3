import HarborHF.Campaign.Extension
import HarborHF.Campaign.OperatorEvents

/-!
# Requested retries

A derived trial has its executions in the order of their numbers, and can be derived from them again
(`TrialProjection.Numbered`, `exists_reread`). A request names the number of executions that a trial
has, so it reopens the trial: what the trial was recorded as is forgotten, and if its last execution
can be retried it is ready at the time of the request.
-/

set_option autoImplicit false

namespace HarborHF.Campaign

open Relational

/-! ### Executions -/

/-- Executions are kept by their identifiers, and one that runs or has completed has no category. -/
structure RecoveryState.Named (state : RecoveryState) : Prop where
  keys : state.executions.keys.Nodup
  named : ∀ id execution, state.executions.get? id = some execution → execution.executionId = id
  category : ∀ execution ∈ state.executions.values,
    execution.status = .active ∨ execution.status = .completed → execution.category = none

theorem RecoveryState.Named.step {state next : RecoveryState} {event : CampaignEvent}
    (h : state.Named) (hnext : state.applyEvent event = .ok next) : next.Named := by
  cases applied_of_applyEvent hnext with
  | started payload hbody hknown hnew hnumber =>
    refine ⟨Dict.nodup_keys_set h.keys, fun id execution hget ↦ ?_, fun execution hmem ↦ ?_⟩
    · rw [Dict.get?_set] at hget
      by_cases hid : id = event.subjectId
      · rw [if_pos hid] at hget
        cases hget
        exact hid.symm
      · rw [if_neg hid] at hget
        exact h.named id execution hget
    · rcases Dict.mem_values_set hmem with rfl | hmem
      · exact fun _ ↦ rfl
      · exact h.category execution hmem
  | finished outcome payload execution hbody hget hactive hidentity hcompleted hfailed =>
    refine ⟨Dict.nodup_keys_set h.keys, fun id other hother ↦ ?_, fun other hmem ↦ ?_⟩
    · rw [Dict.get?_set] at hother
      by_cases hid : id = event.subjectId
      · rw [if_pos hid] at hother
        cases hother
        rw [hid]
        exact h.named _ execution hget
      · rw [if_neg hid] at hother
        exact h.named id other hother
    · rcases Dict.mem_values_set hmem with rfl | hmem
      · intro hstatus
        refine hcompleted ?_
        cases outcome <;> simp_all [ExecutionOutcome.status]
      · exact h.category other hmem
  | resolved payload waves hbody hwaves => exact ⟨h.keys, h.named, h.category⟩
  | run status payload run hbody hget => exact ⟨h.keys, h.named, h.category⟩
  | shard status payload shard hbody hget => exact ⟨h.keys, h.named, h.category⟩
  | trial outcome payload trial hbody hget => exact ⟨h.keys, h.named, h.category⟩
  | wave status payload wave hbody hknown hwave => exact ⟨h.keys, h.named, h.category⟩
  | spend subjectType amount hbody => exact ⟨h.keys, h.named, h.category⟩
  | passed outcome payload execution hbody hget hended hsentinel => exact h
  | unread hsubject hresolution => exact h

theorem RecoveryState.Named.run {lock : CampaignLock} {state : RecoveryState}
    {events : List CampaignEvent}
    (h : events.foldlM RecoveryState.applyEvent (initialState lock) = .ok state) : state.Named := by
  refine foldlM_invariant (I := RecoveryState.Named) ?_ (fun _ _ _ _ hnamed hnext ↦
    hnamed.step hnext) h
  exact ⟨List.nodup_nil, by simp [initialState], by simp [initialState, Dict.values]⟩

theorem RecoveryState.Named.nodup {state : RecoveryState} (h : state.Named) (trialId : String) :
    ((executionsOf state.executions trialId).map ExecutionProjection.executionId).Nodup := by
  have hkeys : state.executions.values.map ExecutionProjection.executionId =
      state.executions.keys := by
    simp only [Dict.keys, Dict.values, List.map_map]
    refine List.map_congr_left ?_
    intro entry hentry
    exact h.named entry.1 entry.2 ((Dict.get?_eq_some_iff h.keys).mpr hentry)
  refine List.Nodup.sublist (List.filter_sublist.map _) ?_
  rw [hkeys]
  exact h.keys

/-- The executions of a dictionary are those it was made of. -/
theorem values_executionMap {executions : List ExecutionProjection}
    (h : (executions.map ExecutionProjection.executionId).Nodup) :
    (executionMap executions).values = executions := by
  induction executions using List.reverseRecOn with
  | nil => rfl
  | append_singleton rest latest ih =>
    rw [List.map_append, List.nodup_append] at h
    have hrest := ih h.1
    have hnew : (executionMap rest).get? latest.executionId = none := by
      rw [Dict.get?_eq_none_iff]
      intro hmem
      rw [← Dict.get?_isSome_iff] at hmem
      obtain ⟨other, hother⟩ := Option.isSome_iff_exists.mp hmem
      unfold executionMap at hother
      rw [Dict.get?_foldl_set] at hother
      simp only [Dict.get?_nil, Option.or_none, Option.map_eq_some_iff] at hother
      obtain ⟨found, hfound, -⟩ := hother
      obtain ⟨hfound, hid⟩ := List.mem_filter.mp (List.mem_of_getLast? hfound)
      exact h.2.2 _ (List.mem_map_of_mem hfound) latest.executionId (by simp) (by simpa using hid)
    have hset : executionMap (rest ++ [latest]) =
        (executionMap rest).set latest.executionId latest := by
      simp [executionMap, List.foldl_append]
    rw [hset, Dict.set_of_get?_eq_none hnew]
    simp only [Dict.values, List.map_append, List.map_cons, List.map_nil] at hrest ⊢
    rw [hrest]

/-! ### Trials -/

/-- The executions of a trial are numbered in their order, and nothing comes after a completed one. -/
structure TrialProjection.Numbered (trial : TrialProjection) : Prop where
  nodup : (trial.executions.values.map ExecutionProjection.executionId).Nodup
  map : trial.executions = executionMap trial.executions.values
  attempts : trial.executions.values.map ExecutionProjection.physicalAttempt =
    List.range' 1 trial.executions.values.length
  completed : ((trial.executions.values.dropLast.any fun execution ↦
    execution.status = .completed) &&
      !(trial.executions.values.getLast?.any fun execution ↦ execution.status = .completed)) = false

/-- A trial as its executions say. -/
def reread [Jitter] (lock : CampaignLock) (trial : TrialProjection) :
    Except CampaignError TrialProjection :=
  deriveTrial lock { trial with status := .planned, retryNotBefore := none, outcome := none }
    trial.executions.values

/-- The executions of a trial in the order of their numbers (`_derive_trial`). -/
def byAttempt (executions : List ExecutionProjection) : List ExecutionProjection :=
  executions.insertionSort fun first second ↦ first.physicalAttempt ≤ second.physicalAttempt

section Derived

variable [Jitter] {lock : CampaignLock} {trial derived : TrialProjection}
  {executions : List ExecutionProjection}

/-- A trial is derived of executions that are numbered and have nothing after a completed one. -/
theorem of_deriveTrial (h : deriveTrial lock trial executions = .ok derived) :
    (byAttempt executions).map ExecutionProjection.physicalAttempt =
        List.range' 1 (byAttempt executions).length ∧
      (((byAttempt executions).dropLast.any fun execution ↦ execution.status = .completed) &&
        !((byAttempt executions).getLast?.any fun execution ↦
          execution.status = .completed)) = false ∧
      (derived.executions = executionMap (byAttempt executions) ∨
        (byAttempt executions = [] ∧ derived = trial)) := by
  unfold deriveTrial at h
  dsimp only at h
  split at h
  · cases h
  rename_i hattempts
  split at h
  · cases h
  rename_i hcompleted
  refine ⟨not_not.mp hattempts, Bool.eq_false_of_not_eq_true hcompleted, ?_⟩
  split at h
  · cases h
    exact .inl rfl
  split at h
  · rename_i hnone
    cases h
    exact .inr ⟨List.getLast?_eq_none_iff.mp hnone, rfl⟩
  split at h
  · cases h
    exact .inl rfl
  split at h
  · cases h
    exact .inl rfl
  · cases h
    exact .inl rfl
  · obtain ⟨⟨status, retryAt⟩, -, hderived⟩ := bind_eq_ok.mp h
    cases hderived
    exact .inl rfl

omit [Jitter] in
theorem byAttempt_of_attempts
    (h : executions.map ExecutionProjection.physicalAttempt = List.range' 1 executions.length) :
    byAttempt executions = executions := by
  refine List.Pairwise.insertionSort_eq (List.pairwise_map.mp ?_)
  rw [h]
  exact List.pairwise_le_range' 1

/-- A failed execution settles its trial in some way. -/
theorem exists_failedTrialState (lock : CampaignLock) (execution : ExecutionProjection)
    (count : ℕ) : ∃ state, failedTrialState lock execution count = .ok state := by
  unfold failedTrialState
  split
  · exact ⟨_, rfl⟩
  · split_ifs with hagent hretryable hexhausted
    · exact ⟨_, rfl⟩
    · exact ⟨_, rfl⟩
    · exact ⟨_, rfl⟩
    · unfold retryDelaySeconds
      rw [if_neg hretryable]
      exact ⟨_, rfl⟩

theorem exists_deriveTrial (hattempts : executions.map ExecutionProjection.physicalAttempt =
      List.range' 1 executions.length)
    (hcompleted : ((executions.dropLast.any fun execution ↦ execution.status = .completed) &&
      !(executions.getLast?.any fun execution ↦ execution.status = .completed)) = false) :
    ∃ derived, deriveTrial lock trial executions = .ok derived := by
  have hsorted := byAttempt_of_attempts hattempts
  unfold byAttempt at hsorted
  unfold deriveTrial
  dsimp only
  rw [hsorted, if_neg (by simp [hattempts]), if_neg (by simp [hcompleted])]
  split
  · exact ⟨_, rfl⟩
  split
  · exact ⟨_, rfl⟩
  split
  · exact ⟨_, rfl⟩
  split
  · exact ⟨_, rfl⟩
  · exact ⟨_, rfl⟩
  · obtain ⟨state, hstate⟩ := exists_failedTrialState lock _ executions.length
    exact ⟨_, bind_eq_ok.mpr ⟨state, hstate, rfl⟩⟩

theorem TrialProjection.Numbered.of_deriveTrial
    (hnodup : (executions.map ExecutionProjection.executionId).Nodup)
    (hnone : trial.executions = []) (h : deriveTrial lock trial executions = .ok derived) :
    derived.Numbered ∧ derived.executions.values = byAttempt executions := by
  obtain ⟨hattempts, hcompleted, hexecutions⟩ := Campaign.of_deriveTrial h
  have hsorted : ((byAttempt executions).map ExecutionProjection.executionId).Nodup :=
    ((List.perm_insertionSort _ executions).map _).nodup_iff.mpr hnodup
  have hvalues : derived.executions.values = byAttempt executions := by
    rcases hexecutions with heq | ⟨hempty, rfl⟩
    · rw [heq, values_executionMap hsorted]
    · rw [hnone, hempty]
      rfl
  refine ⟨⟨?_, ?_, ?_, ?_⟩, hvalues⟩
  · rw [hvalues]
    exact hsorted
  · rw [hvalues]
    rcases hexecutions with heq | ⟨hempty, rfl⟩
    · exact heq
    · rw [hnone, hempty]
      rfl
  · rw [hvalues]
    exact hattempts
  · rw [hvalues]
    exact hcompleted

theorem TrialProjection.Numbered.exists_reread (h : trial.Numbered) (lock : CampaignLock) :
    ∃ derived, reread lock trial = .ok derived ∧ derived.executions = trial.executions := by
  obtain ⟨derived, hderived⟩ : ∃ derived, reread lock trial = .ok derived :=
    exists_deriveTrial h.attempts h.completed
  refine ⟨derived, hderived, ?_⟩
  obtain ⟨-, -, hexecutions⟩ := Campaign.of_deriveTrial hderived
  rw [byAttempt_of_attempts h.attempts] at hexecutions
  rcases hexecutions with heq | ⟨-, rfl⟩
  · rw [heq, ← h.map]
  · rfl

end Derived

/-! ### Requests -/

/-- The last of the generations of a trial for which a retry was requested. -/
def latestRequest (requestedAt : Dict (String × ℕ) ℕ) (trialId : String) : Option ℕ :=
  ((requestedAt.keys.filter fun key ↦ key.1 = trialId).map Prod.snd).max?

section Requests

variable {requestedAt requestedAt' : Dict (String × ℕ) ℕ} {trialId : String}

theorem latestRequest_eq_some {generation : ℕ} :
    latestRequest requestedAt trialId = some generation ↔
      (requestedAt.get? (trialId, generation)).isSome = true ∧
        ∀ other, (requestedAt.get? (trialId, other)).isSome = true → other ≤ generation := by
  have hmem (other : ℕ) :
      other ∈ (requestedAt.keys.filter fun key ↦ key.1 = trialId).map Prod.snd ↔
        (requestedAt.get? (trialId, other)).isSome = true := by
    rw [Dict.get?_isSome_iff]
    simp
  unfold latestRequest
  rw [List.max?_eq_some_iff, hmem]
  refine and_congr_right fun _ ↦ forall_congr' fun other ↦ ?_
  rw [hmem]

theorem latestRequest_eq_none : latestRequest requestedAt trialId = none ↔
      ∀ generation, requestedAt.get? (trialId, generation) = none := by
  unfold latestRequest
  rw [List.max?_eq_none_iff, List.map_eq_nil_iff, List.filter_eq_nil_iff]
  constructor
  · intro h generation
    rw [Dict.get?_eq_none_iff]
    intro hmem
    exact h _ hmem (by simp)
  · rintro h ⟨id, generation⟩ hmem hid
    simp only [decide_eq_true_eq] at hid
    subst hid
    exact Dict.get?_eq_none_iff.mp (h generation) hmem

theorem latestRequest_congr (h : ∀ generation, requestedAt.get? (trialId, generation) =
    requestedAt'.get? (trialId, generation)) :
    latestRequest requestedAt trialId = latestRequest requestedAt' trialId := by
  cases hlatest : latestRequest requestedAt' trialId with
  | none =>
    rw [latestRequest_eq_none] at hlatest ⊢
    intro generation
    rw [h, hlatest]
  | some generation =>
    rw [latestRequest_eq_some] at hlatest ⊢
    simpa only [h] using hlatest

/-- Request a retry of these generations. -/
def addRequest (time : ℕ) (generations : List (String × ℕ)) (requestedAt : Dict (String × ℕ) ℕ) :
    Dict (String × ℕ) ℕ :=
  generations.foldl (fun requestedAt entry ↦
    requestedAt.set entry (max ((requestedAt.get? entry).getD time) time)) requestedAt

theorem get?_addRequest {generations : List (String × ℕ)} {time : ℕ} (key : String × ℕ) :
    (addRequest time generations requestedAt).get? key =
      if key ∈ generations then some (max ((requestedAt.get? key).getD time) time)
      else requestedAt.get? key := by
  unfold addRequest
  induction generations generalizing requestedAt with
  | nil => simp
  | cons entry rest ih =>
    rw [List.foldl_cons, ih, Dict.get?_set]
    by_cases hentry : key = entry
    · subst hentry
      simp
    · simp [hentry]

end Requests

section Reopened

variable [Jitter] {lock : CampaignLock} {requestedAt : Dict (String × ℕ) ℕ}
  {trial next : TrialProjection} {trialId : String}

/-- A trial is reopened for its last request. -/
theorem reopenTrial_eq_ok : reopenTrial lock requestedAt trial trialId = .ok next ↔
    (latestRequest requestedAt trialId = none ∧ next = trial) ∨
      ∃ generation derived, latestRequest requestedAt trialId = some generation ∧
        generation ≤ trial.executions.length ∧ reread lock trial = .ok derived ∧
        next = if generation = trial.executions.length ∧ derived.status = .retryWait then
            { derived with retryNotBefore := requestedAt.get? (trialId, generation) }
          else derived := by
  unfold reopenTrial
  rw [show ((requestedAt.keys.filter fun key ↦ key.1 = trialId).map Prod.snd).max? =
    latestRequest requestedAt trialId from rfl]
  cases hlatest : latestRequest requestedAt trialId with
  | none => simp [eq_comm]
  | some generation =>
    by_cases hlength : trial.executions.length < generation
    · simp [hlength, Nat.not_le.mpr hlength]
    · simp only [if_neg hlength, bind_eq_ok]
      change (∃ derived, reread lock trial = .ok derived ∧ _) ↔ _
      simp [Nat.not_lt.mp hlength, pure, Except.pure, eq_comm]

omit [Jitter] in
theorem TrialProjection.Numbered.congr (h : trial.Numbered)
    (hsame : next.executions = trial.executions) : next.Numbered := by
  refine ⟨?_, ?_, ?_, ?_⟩
  · rw [hsame]
    exact h.nodup
  · rw [hsame]
    exact h.map
  · rw [hsame]
    exact h.attempts
  · rw [hsame]
    exact h.completed

theorem reread_congr (hsame : next.Same trial) (hexecutions : next.executions = trial.executions) :
    reread lock next = reread lock trial := by
  obtain ⟨hid, hshard, hattempt⟩ := hsame
  unfold reread
  rw [hid, hshard, hattempt, hexecutions]

theorem TrialProjection.Numbered.of_reread (h : trial.Numbered)
    (hderived : reread lock trial = .ok next) :
    next.Same trial ∧ next.executions = trial.executions := by
  obtain ⟨again, hagain, hexecutions⟩ := h.exists_reread lock
  rw [hderived] at hagain
  cases hagain
  obtain ⟨⟨hid, hshard, hattempt⟩, -⟩ :=
    supported_deriveTrial (.inl rfl) (fun _ hmem ↦ hmem) hderived
  exact ⟨⟨hid, hshard, hattempt⟩, hexecutions⟩

theorem TrialProjection.Numbered.of_reopenTrial (h : trial.Numbered)
    (hreopen : reopenTrial lock requestedAt trial trialId = .ok next) :
    next.Same trial ∧ next.executions = trial.executions := by
  rcases reopenTrial_eq_ok.mp hreopen with ⟨-, rfl⟩ | ⟨generation, derived, -, -, hderived, rfl⟩
  · exact ⟨⟨rfl, rfl, rfl⟩, rfl⟩
  · obtain ⟨⟨hid, hshard, hattempt⟩, hexecutions⟩ := h.of_reread hderived
    split_ifs
    · exact ⟨⟨hid, hshard, hattempt⟩, hexecutions⟩
    · exact ⟨⟨hid, hshard, hattempt⟩, hexecutions⟩

/-- A trial that a request reopens at a time. -/
def reopenedAt (lock : CampaignLock) (time : ℕ) (trial : TrialProjection) :
    Except CampaignError TrialProjection := do
  let derived ← reread lock trial
  return if derived.status = .retryWait then { derived with retryNotBefore := some time }
    else derived

/-- A request for the executions that a trial has reopens it. -/
theorem reopenTrial_of_request (h : trial.Numbered) {requestedAt' : Dict (String × ℕ) ℕ}
    {time : ℕ} (hreopen : reopenTrial lock requestedAt trial trialId = .ok next)
    (htime : requestedAt'.get? (trialId, trial.executions.length) = some time)
    (hothers : ∀ generation, generation ≠ trial.executions.length →
      requestedAt'.get? (trialId, generation) = requestedAt.get? (trialId, generation)) :
    reopenTrial lock requestedAt' trial trialId = reopenedAt lock time next := by
  have hbound : ∀ generation, (requestedAt.get? (trialId, generation)).isSome = true →
      generation ≤ trial.executions.length := by
    intro generation hsome
    rcases reopenTrial_eq_ok.mp hreopen with ⟨hnone, -⟩ | ⟨latest, derived, hlatest, hle, -⟩
    · rw [latestRequest_eq_none.mp hnone generation] at hsome
      cases hsome
    · exact ((latestRequest_eq_some.mp hlatest).2 generation hsome).trans hle
  have hlatest : latestRequest requestedAt' trialId = some trial.executions.length := by
    rw [latestRequest_eq_some, htime]
    refine ⟨rfl, fun generation hsome ↦ ?_⟩
    by_cases heq : generation = trial.executions.length
    · exact heq.le
    · rw [hothers generation heq] at hsome
      exact hbound generation hsome
  obtain ⟨hsame, hexecutions⟩ := h.of_reopenTrial hreopen
  obtain ⟨derived, hderived, -⟩ := h.exists_reread lock
  unfold reopenedAt
  rw [reread_congr hsame hexecutions, hderived]
  rw [reopenTrial_eq_ok.mpr (.inr ⟨_, derived, hlatest, le_rfl, hderived, rfl⟩), htime]
  simp [bind, Except.bind, pure, Except.pure]

end Reopened

/-! ### One more request -/

section Insert

variable {lock : CampaignLock} {trials : Dict String TrialProjection}
  {legacy legacy' : Dict String (Dict String ℕ)} {event request : CampaignEvent}
  {payload : ShardRetryPayload}

/-- The generations that a request is for. -/
def requestGenerations (lock : CampaignLock) (trials : Dict String TrialProjection)
    (legacy : Dict String (Dict String ℕ)) (event : CampaignEvent) (payload : ShardRetryPayload) :
    Except CampaignError (Dict String ℕ) :=
  if payload.trialGenerations.isEmpty then getItem legacy event.eventId
  else validatedRetryGenerations lock payload trials

theorem requestStep_eq {requestedAt : Dict (String × ℕ) ℕ}
    (hbody : event.body = .shardRetryRequested payload) :
    requestStep lock trials legacy requestedAt event =
      requestGenerations lock trials legacy event payload >>= fun generations ↦
        pure (addRequest event.observedAt generations requestedAt) := by
  unfold requestStep requestGenerations
  simp only [hbody]
  split
  · rfl
  · rfl

theorem requestStep_eq_ok {requestedAt next : Dict (String × ℕ) ℕ} :
    requestStep lock trials legacy requestedAt event = .ok next ↔
      (event.isRetryRequest = false ∧ next = requestedAt) ∨
        ∃ payload generations, event.body = .shardRetryRequested payload ∧
          requestGenerations lock trials legacy event payload = .ok generations ∧
          next = addRequest event.observedAt generations requestedAt := by
  cases hbody : event.body with
  | shardRetryRequested payload =>
    have hrequest : event.isRetryRequest = true := by simp [CampaignEvent.isRetryRequest, hbody]
    rw [requestStep_eq hbody, bind_eq_ok]
    constructor
    · rintro ⟨generations, hgenerations, hnext⟩
      cases hnext
      exact .inr ⟨payload, generations, rfl, hgenerations, rfl⟩
    · rintro (⟨hnot, -⟩ | ⟨other, generations, heq, hgenerations, rfl⟩)
      · rw [hrequest] at hnot
        cases hnot
      · cases heq
        exact ⟨generations, hgenerations, rfl⟩
  | _ =>
    simp [requestStep, hbody, CampaignEvent.isRetryRequest, eq_comm]

theorem requestGenerations_congr (h : legacy'.get? event.eventId = legacy.get? event.eventId) :
    requestGenerations lock trials legacy' event payload =
      requestGenerations lock trials legacy event payload := by
  unfold requestGenerations getItem
  rw [h]

/-- The table of a log with one more request, for these generations at this time. -/
def MoreRequested (generations : Dict String ℕ) (time : ℕ)
    (requestedAt requestedAt' : Dict (String × ℕ) ℕ) : Prop :=
  ∀ key, requestedAt'.get? key = if key ∈ generations then some time else requestedAt.get? key

/-- Earlier requests do not move a later one. -/
theorem MoreRequested.step {generations : Dict String ℕ} {time : ℕ}
    {requestedAt requestedAt' next : Dict (String × ℕ) ℕ}
    (h : MoreRequested generations time requestedAt requestedAt')
    (hlegacy : legacy'.get? event.eventId = legacy.get? event.eventId)
    (htime : event.observedAt ≤ time)
    (hnext : requestStep lock trials legacy requestedAt event = .ok next) :
    ∃ next', requestStep lock trials legacy' requestedAt' event = .ok next' ∧
      MoreRequested generations time next next' := by
  rcases requestStep_eq_ok.mp hnext with ⟨hnot, rfl⟩ | ⟨payload, found, hbody, hfound, rfl⟩
  · exact ⟨requestedAt', requestStep_eq_ok.mpr (.inl ⟨hnot, rfl⟩), h⟩
  · refine ⟨_, requestStep_eq_ok.mpr (.inr ⟨payload, found, hbody, ?_, rfl⟩), fun key ↦ ?_⟩
    · rw [requestGenerations_congr hlegacy, hfound]
    · rw [get?_addRequest, get?_addRequest, h key]
      by_cases hkey : key ∈ generations
      · simp [hkey, htime]
      · simp [hkey]

/-- No request in a log is later than the log. -/
theorem le_of_foldlM_requestStep {events : List CampaignEvent} {time : ℕ}
    (htime : ∀ other ∈ events, other.observedAt ≤ time) {requestedAt : Dict (String × ℕ) ℕ}
    (h : events.foldlM (requestStep lock trials legacy) [] = .ok requestedAt) :
    ∀ key requested, requestedAt.get? key = some requested → requested ≤ time := by
  refine foldlM_invariant (I := fun requestedAt : Dict (String × ℕ) ℕ ↦ ∀ key requested,
    requestedAt.get? key = some requested → requested ≤ time) (by simp) ?_ h
  intro current other next hother hcurrent hnext key requested hrequested
  rcases requestStep_eq_ok.mp hnext with ⟨-, rfl⟩ | ⟨payload, found, -, -, rfl⟩
  · exact hcurrent key requested hrequested
  · rw [get?_addRequest] at hrequested
    split_ifs at hrequested
    · cases hrequested
      refine max_le ?_ (htime other hother)
      cases hget : current.get? key with
      | none => exact htime other hother
      | some earlier => exact hcurrent key earlier hget
    · exact hcurrent key requested hrequested

/-- A request behind which no other was observed is the last for its generations. -/
theorem exists_foldlM_requestStep {before after : List CampaignEvent}
    {requestedAt : Dict (String × ℕ) ℕ}
    (h : (before ++ after).foldlM (requestStep lock trials legacy) [] = .ok requestedAt)
    (hlegacy : ∀ other ∈ before ++ after,
      legacy'.get? other.eventId = legacy.get? other.eventId)
    (htime : ∀ other ∈ before ++ after, other.observedAt ≤ request.observedAt)
    (hbody : request.body = .shardRetryRequested payload) {generations : Dict String ℕ}
    (hgenerations : requestGenerations lock trials legacy' request payload = .ok generations) :
    ∃ requestedAt', (before ++ request :: after).foldlM (requestStep lock trials legacy') [] =
        .ok requestedAt' ∧
      MoreRequested generations request.observedAt requestedAt requestedAt' := by
  obtain ⟨middle, hmiddle, hafter⟩ := foldlM_append_ok.mp h
  have hbefore {other : CampaignEvent} (hother : other ∈ before) : other ∈ before ++ after :=
    List.mem_append_left _ hother
  obtain ⟨middle', hmiddle', rfl⟩ : ∃ middle',
      before.foldlM (requestStep lock trials legacy') [] = .ok middle' ∧ middle = middle' := by
    refine foldlM_sim (R := Eq) rfl ?_ hmiddle
    rintro current other next _ hother rfl hnext
    refine ⟨next, ?_, rfl⟩
    rcases requestStep_eq_ok.mp hnext with hskip | ⟨found, generations, hbody, hfound, rfl⟩
    · exact requestStep_eq_ok.mpr (.inl hskip)
    · refine requestStep_eq_ok.mpr (.inr ⟨found, generations, hbody, ?_, rfl⟩)
      rw [requestGenerations_congr (hlegacy other (hbefore hother)), hfound]
  have hbound := le_of_foldlM_requestStep (fun other hother ↦ htime other (hbefore hother)) hmiddle
  -- the request itself
  have hstep : requestStep lock trials legacy' middle request =
      .ok (addRequest request.observedAt generations middle) :=
    requestStep_eq_ok.mpr (.inr ⟨payload, generations, hbody, hgenerations, rfl⟩)
  have hmore : MoreRequested generations request.observedAt middle
      (addRequest request.observedAt generations middle) := by
    intro key
    rw [get?_addRequest]
    by_cases hkey : key ∈ generations
    · rw [if_pos hkey, if_pos hkey]
      cases hget : middle.get? key with
      | none => simp
      | some earlier => simp [hbound key earlier hget]
    · rw [if_neg hkey, if_neg hkey]
  obtain ⟨last, hlast, hlater⟩ : ∃ last,
      after.foldlM (requestStep lock trials legacy')
        (addRequest request.observedAt generations middle) = .ok last ∧
        MoreRequested generations request.observedAt requestedAt last := by
    refine foldlM_sim hmore ?_ hafter
    intro current other next current' hother hrelated hnext
    exact hrelated.step (hlegacy other (List.mem_append_right _ hother))
      (htime other (List.mem_append_right _ hother)) hnext
  exact ⟨last, foldlM_append_ok.mpr ⟨middle, hmiddle', foldlM_cons_ok.mpr ⟨_, hstep, hlast⟩⟩,
    hlater⟩

/-! ### One more request before requests without generations -/

variable [Jitter]

/-- A step of the forward pass. -/
theorem legacyStep_eq_ok {progress next : RecoveryState × Dict String (Dict String ℕ)} :
    legacyStep lock progress event = .ok next ↔
      ∃ state, progress.1.applyEvent event = .ok state ∧
        ((event.isRetryRequest = false ∧ next = (state, progress.2)) ∨
          ∃ payload found, event.body = .shardRetryRequested payload ∧
            legacyGenerations lock progress.1 payload.shardId = .ok found ∧
            next = (state, progress.2.set event.eventId found)) := by
  unfold legacyStep
  cases hbody : event.body with
  | shardRetryRequested payload =>
    have hrequest : event.isRetryRequest = true := by simp [CampaignEvent.isRetryRequest, hbody]
    simp only [hrequest, Bool.true_eq_false, false_and, false_or]
    constructor
    · intro h
      obtain ⟨found, hfound, hrest⟩ := bind_eq_ok.mp h
      obtain ⟨generations, hset, hend⟩ := bind_eq_ok.mp hrest
      obtain ⟨state, hstate, hnext⟩ := bind_eq_ok.mp hend
      cases hset
      cases hnext
      exact ⟨state, hstate, payload, found, rfl, hfound, rfl⟩
    · rintro ⟨state, hstate, other, found, heq, hfound, rfl⟩
      cases heq
      exact bind_eq_ok.mpr ⟨found, hfound, bind_eq_ok.mpr ⟨_, rfl,
        bind_eq_ok.mpr ⟨state, hstate, rfl⟩⟩⟩
  | _ =>
    simp only [CampaignEvent.isRetryRequest, hbody, reduceCtorEq, true_and, false_and, exists_false,
      or_false]
    constructor
    · intro h
      obtain ⟨generations, hgenerations, hrest⟩ := bind_eq_ok.mp h
      obtain ⟨state, hstate, hnext⟩ := bind_eq_ok.mp hrest
      cases hgenerations
      cases hnext
      exact ⟨state, hstate, rfl⟩
    · rintro ⟨state, hstate, rfl⟩
      exact bind_eq_ok.mpr ⟨_, rfl, bind_eq_ok.mpr ⟨state, hstate, rfl⟩⟩

theorem foldlM_legacyStep_state {events : List CampaignEvent}
    {progress last : RecoveryState × Dict String (Dict String ℕ)}
    (h : events.foldlM (legacyStep lock) progress = .ok last) :
    events.foldlM RecoveryState.applyEvent progress.1 = .ok last.1 := by
  obtain ⟨state, hstate, rfl⟩ : ∃ state,
      events.foldlM RecoveryState.applyEvent progress.1 = .ok state ∧ last.1 = state := by
    refine foldlM_sim (R := fun progress state ↦ progress.1 = state) rfl ?_ h
    rintro current other next _ - rfl hnext
    exact ⟨next.1, applyEvent_of_legacyStep hnext, rfl⟩
  exact hstate

/-- Two passes that differ in one request. -/
def SamePass (id : String) (progress progress' : RecoveryState × Dict String (Dict String ℕ)) :
    Prop :=
  progress.1 = progress'.1 ∧ ∀ other ≠ id, progress'.2.get? other = progress.2.get? other

omit [Jitter] in
theorem SamePass.set {id : String} {progress progress' : RecoveryState × Dict String (Dict String ℕ)}
    (h : SamePass id progress progress') (state : RecoveryState) (key : String)
    (found : Dict String ℕ) :
    SamePass id (state, progress.2.set key found) (state, progress'.2.set key found) := by
  refine ⟨rfl, fun other hother ↦ ?_⟩
  rw [Dict.get?_set, Dict.get?_set, h.2 other hother]

theorem SamePass.step {id : String}
    {progress progress' next : RecoveryState × Dict String (Dict String ℕ)}
    (h : SamePass id progress progress') (hnext : legacyStep lock progress event = .ok next) :
    ∃ next', legacyStep lock progress' event = .ok next' ∧ SamePass id next next' := by
  obtain ⟨state, hstate, hcases⟩ := legacyStep_eq_ok.mp hnext
  rw [h.1] at hstate
  rcases hcases with ⟨hnot, rfl⟩ | ⟨payload, found, hbody, hfound, rfl⟩
  · exact ⟨_, legacyStep_eq_ok.mpr ⟨state, hstate, .inl ⟨hnot, rfl⟩⟩, rfl, h.2⟩
  · rw [h.1] at hfound
    exact ⟨_, legacyStep_eq_ok.mpr ⟨state, hstate, .inr ⟨payload, found, hbody, hfound, rfl⟩⟩,
      h.set state event.eventId found⟩

/-- The forward pass over one more request. -/
theorem exists_foldlM_legacyStep {before after : List CampaignEvent}
    {last : RecoveryState × Dict String (Dict String ℕ)} {middle : RecoveryState}
    (h : (before ++ after).foldlM (legacyStep lock) (initialState lock, []) = .ok last)
    (hmiddle : before.foldlM RecoveryState.applyEvent (initialState lock) = .ok middle)
    (hbody : request.body = .shardRetryRequested payload) :
    (∃ found last', legacyGenerations lock middle payload.shardId = .ok found ∧
        (before ++ request :: after).foldlM (legacyStep lock) (initialState lock, []) = .ok last' ∧
        SamePass request.eventId last last') ∨
      ((∀ last', (before ++ request :: after).foldlM (legacyStep lock) (initialState lock, []) ≠
        .ok last') ∧ ∀ found, legacyGenerations lock middle payload.shardId ≠ .ok found) := by
  obtain ⟨progress, hprogress, hafter⟩ := foldlM_append_ok.mp h
  have hstate : progress.1 = middle := by
    have hsame := foldlM_legacyStep_state hprogress
    rw [hmiddle] at hsame
    exact (Except.ok.inj hsame).symm
  cases hfound : legacyGenerations lock middle payload.shardId with
  | error error =>
    refine .inr ⟨fun last' hlast' ↦ ?_, nofun⟩
    obtain ⟨again, hagain, hrest⟩ := foldlM_append_ok.mp hlast'
    rw [hprogress] at hagain
    cases hagain
    obtain ⟨next, hnext, -⟩ := foldlM_cons_ok.mp hrest
    obtain ⟨state, -, ⟨hnot, -⟩ | ⟨other, found, hother, hagain, -⟩⟩ := legacyStep_eq_ok.mp hnext
    · simp [CampaignEvent.isRetryRequest, hbody] at hnot
    · rw [hbody] at hother
      cases hother
      rw [hstate, hfound] at hagain
      cases hagain
  | ok found =>
    refine .inl ?_
    have hrequest : legacyStep lock progress request =
        .ok (progress.1, progress.2.set request.eventId found) := by
      refine legacyStep_eq_ok.mpr ⟨progress.1, ?_, .inr ⟨payload, found, hbody, ?_, rfl⟩⟩
      · simp [RecoveryState.applyEvent, hbody]
      · rw [hstate, hfound]
    have hsame : SamePass request.eventId progress
        (progress.1, progress.2.set request.eventId found) :=
      ⟨rfl, fun other hother ↦ Dict.get?_set_of_ne hother⟩
    obtain ⟨last', hlast', hend⟩ : ∃ last', after.foldlM (legacyStep lock)
        (progress.1, progress.2.set request.eventId found) = .ok last' ∧
          SamePass request.eventId last last' :=
      foldlM_sim hsame (fun _ _ _ _ _ hpass hstep ↦ hpass.step hstep) hafter
    exact ⟨found, last', rfl, foldlM_append_ok.mpr ⟨progress, hprogress,
      foldlM_cons_ok.mpr ⟨_, hrequest, hlast'⟩⟩, hend⟩

/-- A trial after one more request for these generations. -/
def reopenNamed (lock : CampaignLock) (generations : Dict String ℕ) (time : ℕ)
    (entry : String × TrialProjection) : Except CampaignError TrialProjection :=
  if entry.1 ∈ generations.keys then reopenedAt lock time entry.2 else .ok entry.2

/-- The trials after one more request for these generations. -/
def reopenedTrials (lock : CampaignLock) (generations : Dict String ℕ) (time : ℕ)
    (trials : Dict String TrialProjection) : Except CampaignError (Dict String TrialProjection) :=
  trials.mapM fun entry ↦ do
    let trial ← reopenNamed lock generations time entry
    return (entry.1, trial)

/-- The trials that one more request leaves are those it found, with the named ones reopened. -/
theorem mapM_reopenTrial {requestedAt requestedAt' : Dict (String × ℕ) ℕ}
    {retried : Dict String TrialProjection} {generations : Dict String ℕ} {time : ℕ}
    (hnumbered : ∀ entry ∈ trials, entry.2.Numbered)
    (hexact : ∀ entry ∈ trials, ∀ generation, (entry.1, generation) ∈ generations →
      generation = entry.2.executions.length)
    (hmore : MoreRequested generations time requestedAt requestedAt')
    (h : (trials.mapM fun entry ↦ do
      let trial ← reopenTrial lock requestedAt entry.2 entry.1
      return (entry.1, trial)) = .ok retried) : (trials.mapM fun entry ↦ do
      let trial ← reopenTrial lock requestedAt' entry.2 entry.1
      return (entry.1, trial)) = reopenedTrials lock generations time retried := by
  refine mapM_of_mapM h ?_
  intro entry hentry reopened hreopened
  obtain ⟨next, hnext, hsame⟩ := bind_eq_ok.mp hreopened
  cases hsame
  unfold reopenNamed
  by_cases hnamed : entry.1 ∈ generations.keys
  · obtain ⟨⟨id, generation⟩, hmem, hid⟩ := List.mem_map.mp hnamed
    simp only at hid
    subst hid
    obtain rfl := hexact entry hentry generation hmem
    rw [reopenTrial_of_request (hnumbered entry hentry) hnext (by rw [hmore, if_pos hmem])
      (fun other hother ↦ by
        rw [hmore, if_neg fun hother' ↦ hother (hexact entry hentry other hother')]),
      if_pos hnamed]
  · -- nothing was requested for the trial
    have hunnamed (generation : ℕ) :
        requestedAt'.get? (entry.1, generation) = requestedAt.get? (entry.1, generation) := by
      rw [hmore, if_neg fun hmem ↦ hnamed (List.mem_map.mpr ⟨_, hmem, rfl⟩)]
    have hagain : reopenTrial lock requestedAt' entry.2 entry.1 = .ok next := by
      rw [reopenTrial_eq_ok] at hnext ⊢
      rw [latestRequest_congr hunnamed]
      simpa only [hunnamed] using hnext
    rw [hagain, if_neg hnamed]

/-- When one more request is accepted, and what it does to the trials. -/
theorem applyRetryRequests_insert {before after : List CampaignEvent} {middle : RecoveryState}
    {retried retried' : Dict String TrialProjection}
    (h : applyRetryRequests lock (before ++ after) trials = .ok retried)
    (hmiddle : before.foldlM RecoveryState.applyEvent (initialState lock) = .ok middle)
    (hbody : request.body = .shardRetryRequested payload) (hsome : payload.trialGenerations ≠ [])
    (hfresh : ∀ other ∈ before ++ after, other.eventId ≠ request.eventId)
    (htime : ∀ other ∈ before ++ after, other.observedAt ≤ request.observedAt)
    (hnumbered : ∀ entry ∈ trials, entry.2.Numbered)
    (hexact : ∀ entry ∈ trials, ∀ generation, (entry.1, generation) ∈ payload.trialGenerations →
      generation = entry.2.executions.length) :
    applyRetryRequests lock (before ++ request :: after) trials = .ok retried' ↔
      (∃ generations, validatedRetryGenerations lock payload trials = .ok generations) ∧
        ((before ++ after).any CampaignEvent.legacyRetry = true →
          ∃ found, legacyGenerations lock middle payload.shardId = .ok found) ∧
        reopenedTrials lock payload.trialGenerations request.observedAt retried = .ok retried' := by
  have hempty : payload.trialGenerations.isEmpty = false := by
    simpa [List.isEmpty_eq_false_iff] using hsome
  have hlegacy : request.legacyRetry = false := by
    simp [CampaignEvent.legacyRetry, hbody, hsome]
  have hany : (before ++ request :: after).any CampaignEvent.legacyRetry =
      (before ++ after).any CampaignEvent.legacyRetry := by
    simp [List.any_append, hlegacy]
  have hgenerations (legacy : Dict String (Dict String ℕ)) :
      requestGenerations lock trials legacy request payload =
        validatedRetryGenerations lock payload trials := by
    simp [requestGenerations, hempty]
  have hvalidated {generations : Dict String ℕ}
      (h : validatedRetryGenerations lock payload trials = .ok generations) :
      generations = payload.trialGenerations := by
    unfold validatedRetryGenerations at h
    split at h
    · cases h
    · split at h
      · cases h
      · cases h
        rfl
  rw [applyRetryRequests_eq] at h ⊢
  rw [hany]
  obtain ⟨legacy, hpass, hrest⟩ := bind_eq_ok.mp h
  obtain ⟨requestedAt, hrequested, hreopened⟩ := bind_eq_ok.mp hrest
  -- what is left once the pass over the old requests has its table
  have hremaining (legacy' : Dict String (Dict String ℕ))
      (hsame : ∀ other ∈ before ++ after,
        legacy'.get? other.eventId = legacy.get? other.eventId) :
      ((before ++ request :: after).foldlM (requestStep lock trials legacy') [] >>=
        fun requestedAt ↦ trials.mapM fun entry ↦ do
          let trial ← reopenTrial lock requestedAt entry.2 entry.1
          return (entry.1, trial)) = .ok retried' ↔
      (∃ generations, validatedRetryGenerations lock payload trials = .ok generations) ∧
        reopenedTrials lock payload.trialGenerations request.observedAt retried =
          .ok retried' := by
    constructor
    · intro hok
      obtain ⟨requestedAt', hrequested', hreopened'⟩ := bind_eq_ok.mp hok
      obtain ⟨middle', -, hrest'⟩ := foldlM_append_ok.mp hrequested'
      obtain ⟨next', hnext', -⟩ := foldlM_cons_ok.mp hrest'
      rw [requestStep_eq hbody, hgenerations] at hnext'
      obtain ⟨generations, hvalid, -⟩ := bind_eq_ok.mp hnext'
      refine ⟨⟨generations, hvalid⟩, ?_⟩
      obtain ⟨again, hagain, hmore⟩ := exists_foldlM_requestStep hrequested hsame htime hbody
        ((hgenerations legacy').trans hvalid)
      rw [hrequested'] at hagain
      cases hagain
      rw [hvalidated hvalid] at hmore
      rw [← mapM_reopenTrial hnumbered hexact hmore hreopened, hreopened']
    · rintro ⟨⟨generations, hvalid⟩, hreopened'⟩
      obtain ⟨requestedAt', hrequested', hmore⟩ := exists_foldlM_requestStep hrequested hsame htime
        hbody ((hgenerations legacy').trans hvalid)
      rw [hvalidated hvalid] at hmore
      rw [← mapM_reopenTrial hnumbered hexact hmore hreopened] at hreopened'
      exact bind_eq_ok.mpr ⟨requestedAt', hrequested', hreopened'⟩
  by_cases hold : (before ++ after).any CampaignEvent.legacyRetry = true
  · rw [if_pos hold] at hpass ⊢
    obtain ⟨progress, hprogress, hlast⟩ := bind_eq_ok.mp hpass
    cases hlast
    rcases exists_foldlM_legacyStep hprogress hmiddle hbody with
      ⟨found, last, hfound, hlast, hsame⟩ | ⟨hnone, hnot⟩
    · rw [legacyRetryGenerations, hlast]
      change ((before ++ request :: after).foldlM (requestStep lock trials last.2) [] >>=
        fun requestedAt ↦ _) = Except.ok retried' ↔ _
      rw [hremaining last.2 fun other hother ↦ hsame.2 _ (hfresh other hother)]
      simp [hfound]
    · constructor
      · intro hok
        obtain ⟨legacy', hlegacy', -⟩ := bind_eq_ok.mp hok
        obtain ⟨last, hlast, -⟩ := bind_eq_ok.mp hlegacy'
        exact absurd hlast (hnone last)
      · rintro ⟨-, hfound, -⟩
        obtain ⟨found, hfound⟩ := hfound hold
        exact absurd hfound (hnot found)
  · rw [if_neg hold] at hpass ⊢
    cases hpass
    change ((before ++ request :: after).foldlM (requestStep lock trials []) [] >>=
      fun requestedAt ↦ _) = Except.ok retried' ↔ _
    rw [hremaining [] fun _ _ ↦ rfl]
    simp [hold]

end Insert

end HarborHF.Campaign
