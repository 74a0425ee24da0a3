import HarborHF.Campaign.Consistency
import HarborHF.Campaign.Merging

/-!
# What a log records

A log that is projected says of each action whether it was reserved and whether it failed, and of each
wave who it is and whether it was closed. Both can be read off the set of events: an action has failed
when some event fails it (`ActionsOf`), and a wave is closed when some event closes it (`WavesOf`), at
whatever place of the log the event stands.
-/

set_option autoImplicit false

namespace HarborHF.Campaign

open Relational

namespace CampaignEvent

/-- The event records that an action has failed. -/
def failsAction (actionId : String) (event : CampaignEvent) : Bool :=
  match event.body with
  | .actionOutcome .failed payload => payload.actionId = actionId
  | _ => false

/-- The event closes a wave, or ends the manual recovery of it. -/
def closes (waveId : String) (event : CampaignEvent) : Bool :=
  match event.body with
  | .wave .closed _ => event.subjectId = waveId
  | .manualInterventionResolved payload => waveId ∈ payload.waveIds
  | _ => false

end CampaignEvent

/-! ### Actions -/

/-- The actions are those that the events reserve, and the failed ones are those that the events
fail. -/
structure ActionsOf (events : List CampaignEvent) (actions : Dict String ActionProjection) :
    Prop where
  keys : actions.keys.Nodup
  reserved : ∀ id action, actions.get? id = some action → ∃ event ∈ events, ∃ payload,
    event.body = .actionReserved payload ∧ payload.actionId = id ∧
      payload.actionKind = action.actionKind
  known : ∀ event ∈ events, ∀ payload, event.body = .actionReserved payload →
    ∃ action, actions.get? payload.actionId = some action
  failed : ∀ id action, actions.get? id = some action →
    (action.status = .failed ↔ ∃ event ∈ events, event.failsAction id = true)
  failing : ∀ event ∈ events, ∀ id, event.failsAction id = true →
    ∃ action, actions.get? id = some action

section Actions

variable {lock : CampaignLock} {state next : CampaignState} {event : CampaignEvent}
  {events : List CampaignEvent} {actions actions' : Dict String ActionProjection}

/-- What an event does to the actions. -/
theorem actions_campaignStep (h : campaignStep lock state event = .ok next) :
    (∃ payload, event.body = .actionReserved payload ∧
        applyReserved payload state.actions = .ok next.actions) ∨
      (∃ outcome payload, event.body = .actionOutcome outcome payload ∧
        applyOutcome outcome payload state.actions = .ok next.actions) ∨
      ((∀ payload, event.body ≠ .actionReserved payload) ∧
        (∀ id, event.failsAction id = false) ∧ next.actions = state.actions) := by
  unfold campaignStep at h
  split at h
  · cases h
  split at h
  · rename_i hsubject
    cases h
    refine .inr (.inr ⟨fun payload hbody ↦ ?_, fun id ↦ ?_, rfl⟩)
    · simp [CampaignEvent.subjectType, hbody] at hsubject
    · unfold CampaignEvent.failsAction
      split
      · simp [CampaignEvent.subjectType, *] at hsubject
      · rfl
  · obtain ⟨⟨status, after⟩, happly, hsame⟩ := bind_eq_ok.mp h
    cases hsame
    unfold applyCampaignEvent at happly
    split at happly
    · cases happly
    cases hbody : event.body with
    | actionReserved payload =>
      simp only [hbody] at happly
      obtain ⟨reserved, hreserved, hpair⟩ := bind_eq_ok.mp happly
      cases hpair
      exact .inl ⟨payload, rfl, hreserved⟩
    | actionOutcome outcome payload =>
      simp only [hbody] at happly
      obtain ⟨recorded, hrecorded, hpair⟩ := bind_eq_ok.mp happly
      cases hpair
      exact .inr (.inl ⟨outcome, payload, rfl, hrecorded⟩)
    | manualInterventionResolved payload =>
      simp only [hbody] at happly
      refine .inr (.inr ⟨by simp, by simp [CampaignEvent.failsAction, hbody], ?_⟩)
      split at happly
      · cases happly
        rfl
      · obtain ⟨resolved, -, hpair⟩ := bind_eq_ok.mp happly
        cases hpair
        rfl
    | campaignSubmitted digest => simp [hbody] at happly
    | _ =>
      simp only [hbody, Except.ok.injEq, Prod.mk.injEq, reduceCtorEq] at happly
      all_goals
        refine .inr (.inr ⟨by simp, by simp [CampaignEvent.failsAction, hbody], ?_⟩)
        exact happly.2.symm

namespace ActionsOf

theorem nil : ActionsOf [] [] where
  keys := List.nodup_nil
  reserved := by simp
  known := by simp
  failed := by simp
  failing := by simp

/-- An event that neither reserves nor fails an action leaves them as they are. -/
theorem other (h : ActionsOf events actions) (hreserve : ∀ payload, event.body ≠ .actionReserved payload)
    (hfail : ∀ id, event.failsAction id = false) : ActionsOf (events ++ [event]) actions where
  keys := h.keys
  reserved id action haction := by
    obtain ⟨first, hfirst, hbody⟩ := h.reserved id action haction
    exact ⟨first, List.mem_append_left _ hfirst, hbody⟩
  known first hfirst payload hbody := by
    rcases List.mem_append.mp hfirst with hmem | hmem
    · exact h.known first hmem payload hbody
    · obtain rfl := List.mem_singleton.mp hmem
      exact absurd hbody (hreserve payload)
  failed id action haction := by simp [h.failed id action haction, hfail, or_and_right, exists_or]
  failing first hfirst id hfails := by
    rcases List.mem_append.mp hfirst with hmem | hmem
    · exact h.failing first hmem id hfails
    · obtain rfl := List.mem_singleton.mp hmem
      rw [hfail] at hfails
      cases hfails

theorem applyReserved (h : ActionsOf events actions) {payload : ActionReservedPayload}
    (hbody : event.body = .actionReserved payload)
    (happly : Campaign.applyReserved payload actions = .ok actions') :
    ActionsOf (events ++ [event]) actions' := by
  unfold Campaign.applyReserved at happly
  split at happly
  · cases happly
  rename_i hnew
  cases happly
  have hfail : ∀ id, event.failsAction id = false := by simp [CampaignEvent.failsAction, hbody]
  have hnone : ∀ first ∈ events, first.failsAction payload.actionId = false := by
    intro first hfirst
    by_contra hfails
    obtain ⟨action, haction⟩ := h.failing first hfirst _ (by simpa using hfails)
    rw [hnew] at haction
    cases haction
  refine ⟨Dict.nodup_keys_set h.keys, ?_, ?_, ?_, ?_⟩
  · intro id action haction
    rw [Dict.get?_set] at haction
    split at haction
    · rename_i hid
      cases haction
      exact ⟨event, by simp, payload, hbody, hid.symm, rfl⟩
    · obtain ⟨first, hfirst, hreserved⟩ := h.reserved id action haction
      exact ⟨first, List.mem_append_left _ hfirst, hreserved⟩
  · intro first hfirst other hother
    rw [Dict.get?_set]
    split
    · exact ⟨_, rfl⟩
    · rename_i hne
      rcases List.mem_append.mp hfirst with hmem | hmem
      · exact h.known first hmem other hother
      · obtain rfl := List.mem_singleton.mp hmem
        rw [hbody] at hother
        cases hother
        exact absurd rfl hne
  · intro id action haction
    rw [Dict.get?_set] at haction
    split at haction
    · rename_i hid
      cases haction
      subst hid
      simp only [reduceCtorEq, false_iff]
      rintro ⟨first, hfirst, hfails⟩
      rcases List.mem_append.mp hfirst with hmem | hmem
      · rw [hnone first hmem] at hfails
        cases hfails
      · rw [List.mem_singleton.mp hmem, hfail] at hfails
        cases hfails
    · simp [h.failed id action haction, hfail, or_and_right, exists_or]
  · intro first hfirst id hfails
    rw [Dict.get?_set]
    split
    · exact ⟨_, rfl⟩
    · rcases List.mem_append.mp hfirst with hmem | hmem
      · exact h.failing first hmem id hfails
      · rw [List.mem_singleton.mp hmem, hfail] at hfails
        cases hfails

/-- An outcome changes the status of an action that has not failed, and nothing of what it is. -/
theorem applyOutcome_eq_ok {outcome : ActionOutcome} {payload : ActionOutcomePayload}
    (h : Campaign.applyOutcome outcome payload actions = .ok actions') :
    ∃ action recorded, actions.get? payload.actionId = some action ∧
      actions' = actions.set payload.actionId recorded ∧
      recorded.actionKind = action.actionKind ∧ action.status ≠ .failed ∧
      (recorded.status = .failed ↔ outcome = .failed) := by
  unfold Campaign.applyOutcome at h
  split at h
  · cases h
  rename_i action haction
  split_ifs at h with hended hagain hremote
  · cases h
    refine ⟨action, _, haction, rfl, rfl, ?_, ?_⟩
    · rw [hagain.1]
      decide
    · simp [hagain.1, hagain.2]
  · cases h
    refine ⟨action, _, haction, rfl, rfl, ?_, ?_⟩
    · intro hfailed
      exact hended (by simp [hfailed])
    · cases outcome <;> simp [ActionOutcome.status]

theorem applyOutcome (h : ActionsOf events actions) {outcome : ActionOutcome}
    {payload : ActionOutcomePayload} (hbody : event.body = .actionOutcome outcome payload)
    (happly : Campaign.applyOutcome outcome payload actions = .ok actions') :
    ActionsOf (events ++ [event]) actions' := by
  obtain ⟨action, recorded, haction, rfl, hkind, hopen, hstatus⟩ := applyOutcome_eq_ok happly
  have hfails : ∀ id, event.failsAction id = true ↔ outcome = .failed ∧ payload.actionId = id := by
    intro id
    cases outcome <;> simp [CampaignEvent.failsAction, hbody]
  refine ⟨Dict.nodup_keys_set h.keys, ?_, ?_, ?_, ?_⟩
  · intro id other hother
    rw [Dict.get?_set] at hother
    split at hother
    · rename_i hid
      cases hother
      obtain ⟨first, hfirst, reserved, hreserved, hsame, hfirstKind⟩ :=
        h.reserved payload.actionId action haction
      exact ⟨first, List.mem_append_left _ hfirst, reserved, hreserved, hsame.trans hid.symm,
        hfirstKind.trans hkind.symm⟩
    · obtain ⟨first, hfirst, hreserved⟩ := h.reserved id other hother
      exact ⟨first, List.mem_append_left _ hfirst, hreserved⟩
  · intro first hfirst other hother
    rw [Dict.get?_set]
    split
    · exact ⟨_, rfl⟩
    · rcases List.mem_append.mp hfirst with hmem | hmem
      · exact h.known first hmem other hother
      · rw [List.mem_singleton.mp hmem, hbody] at hother
        cases hother
  · intro id other hother
    rw [Dict.get?_set] at hother
    split at hother
    · rename_i hid
      cases hother
      subst hid
      have hnone : ¬ ∃ first ∈ events, first.failsAction payload.actionId = true :=
        fun hsome ↦ hopen ((h.failed _ action haction).mpr hsome)
      simp only [hstatus, List.mem_append, List.mem_singleton, or_and_right, exists_or,
        exists_eq_left, hnone, false_or, hfails, and_true]
    · rename_i hne
      have hnot : ¬ (outcome = .failed ∧ payload.actionId = id) := fun hboth ↦ hne hboth.2.symm
      simp [h.failed id other hother, or_and_right, exists_or, hfails, hnot]
  · intro first hfirst id hfirstFails
    rw [Dict.get?_set]
    split
    · exact ⟨_, rfl⟩
    · rename_i hne
      rcases List.mem_append.mp hfirst with hmem | hmem
      · exact h.failing first hmem id hfirstFails
      · rw [List.mem_singleton.mp hmem, hfails] at hfirstFails
        exact absurd hfirstFails.2.symm hne

theorem step (h : ActionsOf events state.actions) (hnext : campaignStep lock state event = .ok next) :
    ActionsOf (events ++ [event]) next.actions := by
  rcases actions_campaignStep hnext with ⟨payload, hbody, happly⟩ |
    ⟨outcome, payload, hbody, happly⟩ | ⟨hreserve, hfail, heq⟩
  · exact h.applyReserved hbody happly
  · exact h.applyOutcome hbody happly
  · rw [heq]
    exact h.other hreserve hfail

theorem run {rest : List CampaignEvent} (h : ActionsOf events state.actions)
    (hfold : rest.foldlM (campaignStep lock) state = .ok next) :
    ActionsOf (events ++ rest) next.actions := by
  induction rest generalizing events state with
  | nil =>
    cases hfold
    simpa using h
  | cons first rest ih =>
    obtain ⟨middle, hmiddle, hrest⟩ := foldlM_cons_ok.mp hfold
    simpa using ih (h.step hmiddle) hrest

theorem congr (h : ActionsOf events actions) {others : List CampaignEvent}
    (hmem : ∀ event, event ∈ events ↔ event ∈ others) : ActionsOf others actions := by
  obtain ⟨hkeys, hreserved, hknown, hfailed, hfailing⟩ := h
  simp only [hmem] at hreserved hknown hfailed hfailing
  exact ⟨hkeys, hreserved, hknown, hfailed, hfailing⟩

theorem of_projectCampaign {campaign : CampaignProjection}
    (h : projectCampaign lock events = .ok campaign) : ActionsOf events campaign.actions := by
  obtain ⟨ordered, hordered, -⟩ := bind_eq_ok.mp h
  obtain ⟨first, rest, state, rfl, hsubmits, hfold, rfl⟩ := (projectCampaign_eq_ok hordered).mp h
  have hfirst : ActionsOf [first] [] :=
    nil.other (by simp [hsubmits.1]) (by simp [CampaignEvent.failsAction, hsubmits.1])
  have hstart : ActionsOf [first] (⟨.queued, none, [], []⟩ : CampaignState).actions := hfirst
  exact (hstart.run hfold).congr (mem_orderedEvents hordered)

end ActionsOf

end Actions

/-! ### Waves -/

/-- The waves are those of the events, each with the identity that all its events give it, and the
closed ones are those that the events close. -/
structure WavesOf (events : List CampaignEvent) (waves : Dict String WaveProjection) : Prop where
  keys : waves.keys.Nodup
  observed : ∀ id wave, waves.get? id = some wave →
    wave.waveId = id ∧ ∃ event ∈ events, event.ofWave id = true
  known : ∀ event ∈ events, ∀ status payload, event.body = .wave status payload →
    ∃ wave, waves.get? event.subjectId = some wave ∧ wave.identity = payload
  closed : ∀ id wave, waves.get? id = some wave →
    (wave.status = .closed ↔ ∃ event ∈ events, event.closes id = true)
  closing : ∀ event ∈ events, ∀ id, event.closes id = true → ∃ wave, waves.get? id = some wave

section Waves

variable {lock : CampaignLock} {state next : RecoveryState} {event : CampaignEvent}
  {events : List CampaignEvent} {waves waves' : Dict String WaveProjection}

/-- Manual recovery closes the waves that it names. -/
theorem get?_foldlM_closeRecovered {waveIds : List String}
    (h : waveIds.foldlM RecoveryState.closeRecovered waves = .ok waves') (id : String) :
    (id ∈ waveIds → ∃ wave, waves.get? id = some wave) ∧
      waves'.get? id = (waves.get? id).map fun wave ↦
        if id ∈ waveIds then { wave with status := .closed } else wave := by
  induction waveIds generalizing waves with
  | nil =>
    cases h
    simp
  | cons waveId rest ih =>
    obtain ⟨middle, hmiddle, hrest⟩ := foldlM_cons_ok.mp h
    obtain ⟨hnamed, hget⟩ := ih hrest
    obtain ⟨wave, hwave, hmiddleGet⟩ : ∃ wave, waves.get? waveId = some wave ∧
        middle.get? id = if id = waveId then some { wave with status := .closed }
          else waves.get? id := by
      unfold RecoveryState.closeRecovered at hmiddle
      split at hmiddle
      · cases hmiddle
      rename_i wave hwave
      split_ifs at hmiddle with hfailed hclosed
      · cases hmiddle
        exact ⟨wave, hwave, Dict.get?_set⟩
      · cases hmiddle
        refine ⟨wave, hwave, ?_⟩
        split
        · rename_i hid
          rw [hid, hwave, ← hclosed]
        · rfl
    by_cases hid : id = waveId
    · subst hid
      refine ⟨fun _ ↦ ⟨wave, hwave⟩, ?_⟩
      rw [hget, hmiddleGet, hwave]
      simp
    · rw [if_neg hid] at hmiddleGet
      rw [hmiddleGet] at hnamed hget
      simp only [List.mem_cons, hid, false_or]
      exact ⟨hnamed, hget⟩

/-- An event of a wave keeps its identity, and the wave is closed behind it when it was closed or the
event closes it. -/
theorem nextWave_closed {waveId : String} {producer : Producer} {status : WaveStatus}
    {payload : WaveLifecyclePayload} {previous : Option WaveProjection} {wave : WaveProjection}
    (h : nextWave waveId producer status payload previous = .ok wave) :
    wave.identity = payload ∧ (∀ first, previous = some first → first.identity = payload) ∧
      (wave.status = .closed ↔
        status = .closed ∨ ∃ first, previous = some first ∧ first.status = .closed) := by
  cases previous with
  | none =>
    cases h
    exact ⟨rfl, nofun, by simp⟩
  | some first =>
    simp only [nextWave] at h
    split_ifs at h with hidentity hstale
    · cases h
      rw [ne_eq, not_not] at hidentity
      refine ⟨hidentity, by simpa using hidentity, ?_⟩
      have hopen : status ≠ .closed := by
        rintro rfl
        simp [staleReconcilerTransition] at hstale
      simp [hopen]
    · obtain ⟨_, hvalid, hwave⟩ := bind_eq_ok.mp h
      cases hwave
      rw [ne_eq, not_not] at hidentity
      refine ⟨rfl, by simpa using hidentity, ?_⟩
      unfold validateWaveTransition at hvalid
      split_ifs at hvalid with htransition
      constructor
      · exact .inl
      · rintro (hclosed | ⟨other, hother, hclosed⟩)
        · exact hclosed
        · cases hother
          by_contra hstatus
          exact htransition ⟨fun heq ↦ hstatus (heq.trans hclosed), by simp [hclosed, WaveStatus.next]⟩

namespace WavesOf

theorem nil : WavesOf [] [] where
  keys := List.nodup_nil
  observed := by simp
  known := by simp
  closed := by simp
  closing := by simp

/-- An event that is of no wave and closes none leaves the waves as they are. -/
theorem other (h : WavesOf events waves) (hwave : ∀ status payload, event.body ≠ .wave status payload)
    (hresolved : ∀ payload, event.body ≠ .manualInterventionResolved payload) :
    WavesOf (events ++ [event]) waves := by
  have hcloses : ∀ id, event.closes id = false := by
    intro id
    unfold CampaignEvent.closes
    split
    · rename_i payload hbody
      exact absurd hbody (hwave _ payload)
    · rename_i payload hbody
      exact absurd hbody (hresolved payload)
    · rfl
  refine ⟨h.keys, ?_, ?_, ?_, ?_⟩
  · intro id wave hget
    obtain ⟨hid, first, hfirst, hof⟩ := h.observed id wave hget
    exact ⟨hid, first, List.mem_append_left _ hfirst, hof⟩
  · intro first hfirst status payload hbody
    rcases List.mem_append.mp hfirst with hmem | hmem
    · exact h.known first hmem status payload hbody
    · rw [List.mem_singleton.mp hmem] at hbody
      exact absurd hbody (hwave status payload)
  · intro id wave hget
    simp [h.closed id wave hget, hcloses, or_and_right, exists_or]
  · intro first hfirst id hfirstCloses
    rcases List.mem_append.mp hfirst with hmem | hmem
    · exact h.closing first hmem id hfirstCloses
    · rw [List.mem_singleton.mp hmem, hcloses] at hfirstCloses
      cases hfirstCloses

theorem resolved (h : WavesOf events waves) {payload : ManualInterventionResolutionPayload}
    (hbody : event.body = .manualInterventionResolved payload)
    (hwaves : payload.waveIds.foldlM RecoveryState.closeRecovered waves = .ok waves') :
    WavesOf (events ++ [event]) waves' := by
  have hcloses : ∀ id, event.closes id = true ↔ id ∈ payload.waveIds := by
    simp [CampaignEvent.closes, hbody]
  refine ⟨by rw [keys_of_closeRecovered hwaves]; exact h.keys, ?_, ?_, ?_, ?_⟩
  · intro id wave hget
    obtain ⟨first, hfirst, hsame⟩ := get?_of_closeRecovered hwaves hget
    obtain ⟨hid, event', hevent, hof⟩ := h.observed id first hfirst
    exact ⟨by rw [hsame]; exact hid, event', List.mem_append_left _ hevent, hof⟩
  · intro first hfirst status other hother
    rcases List.mem_append.mp hfirst with hmem | hmem
    · obtain ⟨wave, hget, hidentity⟩ := h.known first hmem status other hother
      refine ⟨_, by rw [(get?_foldlM_closeRecovered hwaves _).2, hget]; rfl, ?_⟩
      split
      · exact hidentity
      · exact hidentity
    · rw [List.mem_singleton.mp hmem, hbody] at hother
      cases hother
  · intro id wave hget
    rw [(get?_foldlM_closeRecovered hwaves id).2, Option.map_eq_some_iff] at hget
    obtain ⟨first, hfirst, rfl⟩ := hget
    by_cases hnamed : id ∈ payload.waveIds
    · rw [if_pos hnamed]
      exact iff_of_true rfl ⟨event, by simp, (hcloses id).mpr hnamed⟩
    · rw [if_neg hnamed]
      simp [h.closed id first hfirst, hcloses, hnamed, or_and_right, exists_or]
  · intro first hfirst id hfirstCloses
    rw [(get?_foldlM_closeRecovered hwaves id).2]
    have hsome : ∃ wave, waves.get? id = some wave := by
      rcases List.mem_append.mp hfirst with hmem | hmem
      · exact h.closing first hmem id hfirstCloses
      · rw [List.mem_singleton.mp hmem, hcloses] at hfirstCloses
        exact (get?_foldlM_closeRecovered hwaves id).1 hfirstCloses
    obtain ⟨wave, hwave⟩ := hsome
    rw [hwave]
    exact ⟨_, rfl⟩

theorem wave (h : WavesOf events waves) {status : WaveStatus} {payload : WaveLifecyclePayload}
    {recorded : WaveProjection} (hbody : event.body = .wave status payload)
    (hnext : nextWave event.subjectId event.producer status payload (waves.get? event.subjectId) =
      .ok recorded) : WavesOf (events ++ [event]) (waves.set event.subjectId recorded) := by
  obtain ⟨hidentity, hprevious, hclosed⟩ := nextWave_closed hnext
  have hcloses : ∀ id, event.closes id = true ↔ status = .closed ∧ event.subjectId = id := by
    intro id
    cases status <;> simp [CampaignEvent.closes, hbody]
  refine ⟨Dict.nodup_keys_set h.keys, ?_, ?_, ?_, ?_⟩
  · intro id wave hget
    rw [Dict.get?_set] at hget
    split at hget
    · rename_i hid
      cases hget
      refine ⟨?_, event, by simp, by simp [CampaignEvent.ofWave, hbody, hid]⟩
      rcases (nextWave_eq_ok hnext).1 with hname | hsame
      · rw [hname, hid]
      · rw [hid]
        exact (h.observed _ _ hsame).1
    · obtain ⟨hid, first, hfirst, hof⟩ := h.observed id wave hget
      exact ⟨hid, first, List.mem_append_left _ hfirst, hof⟩
  · intro first hfirst other payload' hother
    rw [Dict.get?_set]
    rcases List.mem_append.mp hfirst with hmem | hmem
    · obtain ⟨wave, hget, hsame⟩ := h.known first hmem other payload' hother
      split
      · rename_i hid
        rw [hid] at hget
        exact ⟨recorded, rfl, by rw [hidentity, ← hprevious wave hget, hsame]⟩
      · exact ⟨wave, hget, hsame⟩
    · rw [List.mem_singleton.mp hmem] at hother ⊢
      rw [hbody] at hother
      cases hother
      exact ⟨recorded, if_pos rfl, hidentity⟩
  · intro id wave hget
    rw [Dict.get?_set] at hget
    split at hget
    · rename_i hid
      cases hget
      subst hid
      have hbefore : (∃ first, waves.get? event.subjectId = some first ∧ first.status = .closed) ↔
          ∃ first ∈ events, first.closes event.subjectId = true := by
        constructor
        · rintro ⟨first, hfirst, hstatus⟩
          exact (h.closed _ first hfirst).mp hstatus
        · rintro ⟨first, hfirst, hfirstCloses⟩
          obtain ⟨wave, hwave⟩ := h.closing first hfirst _ hfirstCloses
          exact ⟨wave, hwave, (h.closed _ wave hwave).mpr ⟨first, hfirst, hfirstCloses⟩⟩
      rw [hclosed, hbefore, or_comm]
      simp [or_and_right, exists_or, hcloses]
    · rename_i hne
      have hnot : ¬ (status = .closed ∧ event.subjectId = id) := fun hboth ↦ hne hboth.2.symm
      simp [h.closed id wave hget, or_and_right, exists_or, hcloses, hnot]
  · intro first hfirst id hfirstCloses
    rw [Dict.get?_set]
    split
    · exact ⟨_, rfl⟩
    · rename_i hne
      rcases List.mem_append.mp hfirst with hmem | hmem
      · exact h.closing first hmem id hfirstCloses
      · rw [List.mem_singleton.mp hmem, hcloses] at hfirstCloses
        exact absurd hfirstCloses.2.symm hne

theorem step (h : WavesOf events state.waves) (hnext : state.applyEvent event = .ok next) :
    WavesOf (events ++ [event]) next.waves := by
  cases RecoveryState.applied_of_applyEvent hnext with
  | resolved payload waves hbody hwaves => exact h.resolved hbody hwaves
  | wave status payload recorded hbody hknown hrecorded => exact h.wave hbody hrecorded
  | run status payload run hbody => exact h.other (by simp [hbody]) (by simp [hbody])
  | shard status payload shard hbody => exact h.other (by simp [hbody]) (by simp [hbody])
  | trial outcome payload trial hbody => exact h.other (by simp [hbody]) (by simp [hbody])
  | started payload hbody => exact h.other (by simp [hbody]) (by simp [hbody])
  | passed outcome payload execution hbody => exact h.other (by simp [hbody]) (by simp [hbody])
  | finished outcome payload execution hbody => exact h.other (by simp [hbody]) (by simp [hbody])
  | spend subjectType amount hbody => exact h.other (by simp [hbody]) (by simp [hbody])
  | unread hsubject hresolution =>
    refine h.other (fun status payload hbody ↦ ?_) hresolution
    simp [CampaignEvent.subjectType, hbody] at hsubject

theorem run {rest : List CampaignEvent} (h : WavesOf events state.waves)
    (hfold : rest.foldlM RecoveryState.applyEvent state = .ok next) :
    WavesOf (events ++ rest) next.waves := by
  induction rest generalizing events state with
  | nil =>
    cases hfold
    simpa using h
  | cons first rest ih =>
    obtain ⟨middle, hmiddle, hrest⟩ := foldlM_cons_ok.mp hfold
    simpa using ih (h.step hmiddle) hrest

theorem congr (h : WavesOf events waves) {others : List CampaignEvent}
    (hmem : ∀ event, event ∈ events ↔ event ∈ others) : WavesOf others waves := by
  obtain ⟨hkeys, hobserved, hknown, hclosed, hclosing⟩ := h
  simp only [hmem] at hobserved hknown hclosed hclosing
  exact ⟨hkeys, hobserved, hknown, hclosed, hclosing⟩

end WavesOf

end Waves

theorem records_of_projectRecovery [Jitter] {lock : CampaignLock} {events : List CampaignEvent}
    {projection : RecoveryProjection} (h : projectRecovery lock events = .ok projection) :
    ActionsOf events projection.campaign.actions ∧ WavesOf events projection.waves := by
  obtain ⟨ordered, hordered⟩ := exists_orderedEvents h
  obtain ⟨campaign, state, _, _, _, _, hcampaign, hstate, -, -, -, -, rfl⟩ :=
    (projectRecovery_eq_ok hordered).mp h
  have hactions : ActionsOf events campaign.actions := ActionsOf.of_projectCampaign hcampaign
  refine ⟨hactions, ?_⟩
  have hwaves : WavesOf [] (initialState lock).waves := WavesOf.nil
  exact (hwaves.run hstate).congr (mem_orderedEvents hordered)

/-- However a log grows, its failed actions stay failed, and its waves keep what they are and stay
closed. -/
theorem records_stay [Jitter] {lock : CampaignLock} {events later : List CampaignEvent}
    {projection next : RecoveryProjection} (h : projectRecovery lock events = .ok projection)
    (hlater : ∀ event ∈ events, event ∈ later) (hnext : projectRecovery lock later = .ok next) :
    (∀ id action, projection.campaign.actions.get? id = some action →
      ∃ kept, next.campaign.actions.get? id = some kept ∧
        (action.status = .failed → kept.status = .failed)) ∧
    ∀ id wave, projection.waves.get? id = some wave → ∃ kept, next.waves.get? id = some kept ∧
      kept.identity = wave.identity ∧ (wave.status = .closed → kept.status = .closed) := by
  obtain ⟨hactions, hwaves⟩ := records_of_projectRecovery h
  obtain ⟨hactions', hwaves'⟩ := records_of_projectRecovery hnext
  constructor
  · intro id action haction
    obtain ⟨event, hevent, payload, hbody, rfl, -⟩ := hactions.reserved id action haction
    obtain ⟨kept, hkept⟩ := hactions'.known event (hlater event hevent) payload hbody
    refine ⟨kept, hkept, fun hfailed ↦ (hactions'.failed _ kept hkept).mpr ?_⟩
    obtain ⟨failure, hfailure, hfails⟩ := (hactions.failed _ action haction).mp hfailed
    exact ⟨failure, hlater failure hfailure, hfails⟩
  · intro id wave hwave
    obtain ⟨-, event, hevent, hof⟩ := hwaves.observed id wave hwave
    unfold CampaignEvent.ofWave at hof
    split at hof
    next status payload hbody =>
      obtain rfl : event.subjectId = id := of_decide_eq_true hof
      obtain ⟨first, hfirst, hidentity⟩ := hwaves.known event hevent status payload hbody
      obtain ⟨kept, hkept, hsame⟩ := hwaves'.known event (hlater event hevent) status payload hbody
      obtain rfl : first = wave := Option.some.inj (hfirst.symm.trans hwave)
      refine ⟨kept, hkept, hsame.trans hidentity.symm, fun hclosed ↦ ?_⟩
      obtain ⟨closing, hclosing, hcloses⟩ := (hwaves.closed _ first hwave).mp hclosed
      exact (hwaves'.closed _ kept hkept).mpr ⟨closing, hlater closing hclosing, hcloses⟩
    next => cases hof

section Drained

local instance keptJitter : Jitter := ⟨fun _ ↦ 0, zero_lt_byte⟩

theorem records_stay_drained : ∃ projection next,
    projectRecovery endpointLock (sampleLog (drainedInTime.take 4)) = .ok projection ∧
    projectRecovery endpointLock (sampleLog drainedInTime) = .ok next ∧
    ∀ id wave, projection.waves.get? id = some wave → ∃ kept, next.waves.get? id = some kept ∧
      kept.identity = wave.identity ∧ (wave.status = .closed → kept.status = .closed) := by
  obtain ⟨projection, h⟩ := exists_ok_of_toBool
    (show (projectRecovery endpointLock (sampleLog (drainedInTime.take 4))).toBool = true by decide)
  obtain ⟨next, hnext⟩ := exists_ok_of_toBool
    (show (projectRecovery endpointLock (sampleLog drainedInTime)).toBool = true by decide)
  exact ⟨projection, next, h, hnext, (records_stay h (by decide) hnext).2⟩

end Drained

end HarborHF.Campaign
