import HarborHF.Campaign.Consistency

/-!
# A log with one more event

An event with a new identifier takes its place in the order of the log and moves no other event
(`orderedEvents_concat`). The status of the campaign after a request is another one, but the events
behind the request cannot tell: they read the requirements of manual intervention, the actions, and
whether the campaign has ended or is in a manual intervention (`CampaignState.view`). So a request is
accepted wherever the campaign has been submitted and has not ended (`exists_foldlM_insert`).
-/

set_option autoImplicit false

namespace HarborHF.Campaign

open Relational

/-! ### The place of the event -/

section Order

variable {events ordered : List CampaignEvent} {event : CampaignEvent}

theorem uniqueEvents_concat {unique : Dict String CampaignEvent}
    (h : uniqueEvents events = .ok unique)
    (hfresh : ∀ other ∈ events, other.eventId ≠ event.eventId) :
    uniqueEvents (events ++ [event]) = .ok (unique ++ [(event.eventId, event)]) := by
  have hcollected := collected h
  refine foldlM_append_ok.mpr ⟨unique, h, foldlM_cons_ok.mpr ⟨_, ?_, rfl⟩⟩
  refine uniqueStep_eq_ok.mpr (.inl ⟨?_, rfl⟩)
  rw [Dict.get?_eq_none_iff]
  intro hmem
  obtain ⟨entry, hentry, hid⟩ := List.mem_map.mp hmem
  have hvalue : entry.2 ∈ unique.values := List.mem_map.mpr ⟨entry, hentry, rfl⟩
  refine hfresh entry.2 ((hcollected.mem entry.2).mp hvalue) ?_
  rw [← hcollected.keys entry hentry, hid]

/-- A new event takes its place in the order. -/
theorem orderedEvents_concat (h : orderedEvents events = .ok ordered)
    (hfresh : ∀ other ∈ events, other.eventId ≠ event.eventId) :
    ∃ before after, ordered = before ++ after ∧
      orderedEvents (events ++ [event]) = .ok (before ++ event :: after) ∧
      (∀ other ∈ before, Earlier other event) ∧ ∀ other ∈ after, Earlier event other := by
  have hnot {other : CampaignEvent} (hother : other ∈ events) : other ≠ event := by
    rintro rfl
    exact hfresh other hother rfl
  obtain ⟨unique, hunique, -⟩ := orderedEvents_eq_ok.mp h
  obtain ⟨extended, hextended⟩ : ∃ extended, orderedEvents (events ++ [event]) = .ok extended :=
    ⟨_, orderedEvents_eq_ok.mpr ⟨_, uniqueEvents_concat hunique hfresh, rfl⟩⟩
  have hfilter := orderedEvents_filter (fun other ↦ decide (other ≠ event)) hextended
  have hkept : (events ++ [event]).filter (fun other ↦ decide (other ≠ event)) = events := by
    rw [List.filter_append, List.filter_cons_of_neg (by simp), List.filter_nil, List.append_nil,
      List.filter_eq_self]
    intro other hother
    simpa using hnot hother
  rw [hkept, h] at hfilter
  have hordered := Except.ok.inj hfilter
  obtain ⟨before, after, rfl⟩ :=
    List.append_of_mem ((mem_orderedEvents hextended event).mpr (by simp))
  have hsame (other : CampaignEvent) (hother : other ∈ before ∨ other ∈ after) :
      other ≠ event := by
    have hnodup := nodup_orderedEvents hextended
    rw [List.nodup_append, List.nodup_cons] at hnodup
    rintro rfl
    rcases hother with hbefore | hafter
    · exact hnodup.2.2 other hbefore other List.mem_cons_self rfl
    · exact hnodup.2.1.1 hafter
  have hsorted := List.pairwise_append.mp (pairwise_orderedEvents hextended)
  refine ⟨before, after, ?_, hextended, fun other hother ↦ ?_, fun other hother ↦ ?_⟩
  · rw [hordered, List.filter_append, List.filter_cons_of_neg (by simp), List.filter_eq_self.mpr,
      List.filter_eq_self.mpr]
    · intro other hother
      simpa using hsame other (.inr hother)
    · intro other hother
      simpa using hsame other (.inl hother)
  · exact hsorted.2.2 other hother event List.mem_cons_self
  · exact (List.pairwise_cons.mp hsorted.2.1).1 other hother

/-- A later event is the last one. -/
theorem orderedEvents_concat_last (h : orderedEvents events = .ok ordered)
    (hfresh : ∀ other ∈ events, other.eventId ≠ event.eventId)
    (hlate : ∀ other ∈ events, other.observedAt < event.observedAt) :
    orderedEvents (events ++ [event]) = .ok (ordered ++ [event]) := by
  obtain ⟨before, after, rfl, hextended, -, hlater⟩ := orderedEvents_concat h hfresh
  cases after with
  | nil => simpa using hextended
  | cons other rest =>
    have hother := hlate other ((mem_orderedEvents h other).mp (by simp))
    rcases hlater other List.mem_cons_self with hlt | ⟨heq, -⟩
    · omega
    · omega

theorem orderedEvents_concat_conflict {other : CampaignEvent} (hother : other ∈ events)
    (hid : other.eventId = event.eventId) (hne : other ≠ event) {extended : List CampaignEvent} :
    orderedEvents (events ++ [event]) ≠ .ok extended := by
  intro h
  have hmem := mem_orderedEvents h
  exact hne (eq_of_eventId_eq h ((hmem other).mpr (List.mem_append_left _ hother))
    ((hmem event).mpr (by simp)) hid)

end Order

/-! ### The status of the campaign -/

/-- Two states that further events cannot tell apart. -/
structure CampaignState.Alike (first second : CampaignState) : Prop where
  tracked : first.Tracked ∧ second.Tracked
  terminal : first.status.terminal = second.status.terminal
  requirements : first.requirements = second.requirements
  actions : first.actions = second.actions

/-- An operator's request about the campaign of a lock. -/
structure CampaignEvent.Requests (lock : CampaignLock) (event : CampaignEvent) : Prop where
  subject : event.subjectId = lock.campaignId
  body : (∃ reason, event.body = .cancelRequested reason) ∨
    ∃ payload, event.body = .shardRetryRequested payload

section Status

variable {lock : CampaignLock} {event : CampaignEvent}

/-- Whether an event is accepted depends on the status only in whether it is manual intervention. -/
theorem exists_applyCampaignEvent {status status' next : CampaignStatus}
    {previous previous' : Option CampaignStatus} {actions actions' : Dict String ActionProjection}
    {remaining : Bool} (hmanual : status = .manualIntervention ↔ status' = .manualIntervention)
    (h : applyCampaignEvent lock event status actions previous remaining = .ok (next, actions')) :
    ∃ next', applyCampaignEvent lock event status' actions previous' remaining =
      .ok (next', actions') := by
  unfold applyCampaignEvent at h ⊢
  split at h
  · cases h
  rename_i hsubject
  rw [if_neg hsubject]
  cases hbody : event.body with
  | manualInterventionResolved payload =>
    simp only [hbody] at h ⊢
    split at h
    · rename_i hremaining
      cases h
      exact ⟨_, by rw [if_pos hremaining]⟩
    · rename_i hremaining
      obtain ⟨resolved, hresolved, hsame⟩ := bind_eq_ok.mp h
      cases hsame
      rw [if_neg hremaining]
      have hstatus : status' = .manualIntervention := by
        rw [← hmanual]
        by_contra hne
        simp [resolveManualIntervention, hne] at hresolved
      have hagain : ∃ again, resolveManualIntervention status' previous' = .ok again := by
        unfold resolveManualIntervention
        rw [if_neg (by simp [hstatus])]
        split
        · exact ⟨_, rfl⟩
        · exact ⟨_, rfl⟩
        · exact ⟨_, rfl⟩
      obtain ⟨again, hagain⟩ := hagain
      exact ⟨again, bind_eq_ok.mpr ⟨again, hagain, rfl⟩⟩
  | actionReserved payload =>
    simp only [hbody] at h ⊢
    obtain ⟨reserved, hreserved, hsame⟩ := bind_eq_ok.mp h
    cases hsame
    exact ⟨_, bind_eq_ok.mpr ⟨_, hreserved, rfl⟩⟩
  | actionOutcome outcome payload =>
    simp only [hbody] at h ⊢
    obtain ⟨recorded, hrecorded, hsame⟩ := bind_eq_ok.mp h
    cases hsame
    exact ⟨_, bind_eq_ok.mpr ⟨_, hrecorded, rfl⟩⟩
  | _ =>
    simp only [hbody, Except.ok.injEq, Prod.mk.injEq, reduceCtorEq, exists_and_right,
      exists_eq'] at h ⊢
    all_goals exact ⟨trivial, h.2⟩

theorem CampaignState.Alike.step {state next state' : CampaignState} (h : state.Alike state')
    (hnext : campaignStep lock state event = .ok next) :
    ∃ next', campaignStep lock state' event = .ok next' ∧ next.Alike next' := by
  obtain ⟨hopen, hend⟩ := campaignStep_terminal hnext
  have hopen' : state'.status.terminal = false := by rw [← h.terminal, hopen]
  have hmanual : state.status = .manualIntervention ↔ state'.status = .manualIntervention := by
    rw [h.tracked.1 hopen, h.tracked.2 hopen', h.requirements]
  -- the rest follows from a step that reads the same requirements and actions
  suffices hstep : ∃ next', campaignStep lock state' event = .ok next' ∧
      next.requirements = next'.requirements ∧ next.actions = next'.actions by
    obtain ⟨next', hnext', hrequirements, hactions⟩ := hstep
    obtain ⟨-, hend'⟩ := campaignStep_terminal hnext'
    refine ⟨next', hnext', ⟨tracked_campaignStep hnext h.tracked.1,
      tracked_campaignStep hnext' h.tracked.2⟩, ?_, hrequirements, hactions⟩
    rw [Bool.eq_iff_iff, hend, hend']
  unfold campaignStep at hnext ⊢
  rw [if_neg (by simp [hopen])] at hnext
  rw [if_neg (by simp [hopen'])]
  split at hnext
  · rename_i hsubject
    cases hnext
    exact ⟨state', by rw [if_pos hsubject], h.requirements, h.actions⟩
  · rename_i hsubject
    rw [if_neg hsubject]
    obtain ⟨⟨status, actions⟩, happly, hsame⟩ := bind_eq_ok.mp hnext
    cases hsame
    rw [h.requirements, h.actions] at happly
    obtain ⟨status', happly'⟩ := exists_applyCampaignEvent hmanual happly
    exact ⟨_, bind_eq_ok.mpr ⟨_, happly', rfl⟩, by rw [h.requirements], rfl⟩

/-- A request is accepted until the campaign ends, and is forgotten by the events behind it. -/
theorem exists_campaignStep_request (hrequest : event.Requests lock) {state : CampaignState}
    (hopen : state.status.terminal = false) (htracked : state.Tracked) :
    ∃ next, campaignStep lock state event = .ok next ∧ state.Alike next := by
  obtain ⟨hsubject, hbody⟩ := hrequest
  have hcampaign : event.subjectType = .campaign := by
    rcases hbody with ⟨reason, hbody⟩ | ⟨payload, hbody⟩
    · simp [CampaignEvent.subjectType, hbody]
    · simp [CampaignEvent.subjectType, hbody]
  have hkind : event.isTerminal = false := by
    rcases hbody with ⟨reason, hbody⟩ | ⟨payload, hbody⟩
    · simp [CampaignEvent.isTerminal, hbody]
    · simp [CampaignEvent.isTerminal, hbody]
  have hrequirements : updateManualRequirements event state.requirements = state.requirements := by
    unfold updateManualRequirements
    rcases hbody with ⟨reason, hbody⟩ | ⟨payload, hbody⟩
    · simp only [hbody]
    · simp only [hbody]
  have happly (previous : Option CampaignStatus) (remaining : Bool) : ∃ status,
      applyCampaignEvent lock event state.status state.actions previous remaining =
        .ok (status, state.actions) := by
    unfold applyCampaignEvent
    rw [if_neg (by simp [hcampaign, hsubject])]
    rcases hbody with ⟨reason, hbody⟩ | ⟨payload, hbody⟩
    · simp only [hbody]
      exact ⟨_, rfl⟩
    · simp only [hbody]
      exact ⟨_, rfl⟩
  have hstep : ∃ next, campaignStep lock state event = .ok next ∧
      next.requirements = state.requirements ∧ next.actions = state.actions := by
    unfold campaignStep
    rw [if_neg (by simp [hopen]), if_neg (by simp [hcampaign])]
    obtain ⟨status, hstatus⟩ := happly (manualReturnStatus event state.status state.previous)
      (!(updateManualRequirements event state.requirements).isEmpty)
    exact ⟨_, bind_eq_ok.mpr ⟨_, hstatus, rfl⟩, hrequirements, rfl⟩
  obtain ⟨next, hnext, hrequirements, hactions⟩ := hstep
  obtain ⟨-, hend⟩ := campaignStep_terminal hnext
  refine ⟨next, hnext, ⟨htracked, tracked_campaignStep hnext htracked⟩, ?_, hrequirements.symm,
    hactions.symm⟩
  rw [hopen]
  simpa [hkind] using hend

/-- A request can be put into a log that is accepted, before the end of the campaign. -/
theorem exists_foldlM_insert (hrequest : event.Requests lock) {state last : CampaignState}
    (htracked : state.Tracked) (hopen : state.status.terminal = false)
    {before after : List CampaignEvent}
    (h : (before ++ after).foldlM (campaignStep lock) state = .ok last)
    (hbefore : ∀ other ∈ before, other.isTerminal = false) :
    ∃ last', (before ++ event :: after).foldlM (campaignStep lock) state = .ok last' := by
  obtain ⟨middle, hmiddle, hafter⟩ := foldlM_append_ok.mp h
  have hmiddle' : middle.status.terminal = false := by
    refine foldlM_invariant (I := fun state : CampaignState ↦ state.status.terminal = false) hopen
      ?_ hmiddle
    intro current other next hother _ hnext
    have hend := (campaignStep_terminal hnext).2
    simpa [hbefore other hother] using hend
  obtain ⟨next, hnext, halike⟩ :=
    exists_campaignStep_request hrequest hmiddle' (tracked_foldlM hmiddle htracked)
  obtain ⟨last', hlast', -⟩ : ∃ last', after.foldlM (campaignStep lock) next = .ok last' ∧
      last.Alike last' :=
    foldlM_sim halike (fun _ _ _ _ _ hstate hstep ↦ hstate.step hstep) hafter
  exact ⟨last', foldlM_append_ok.mpr ⟨middle, hmiddle, foldlM_cons_ok.mpr ⟨next, hnext, hlast'⟩⟩⟩

/-- The log may be extended by an event between the submission and the end of the campaign. -/
def Insertable (events : List CampaignEvent) (event : CampaignEvent) : Prop :=
  ∀ other ∈ events, (other.isSubmission = true → Earlier other event) ∧
    (other.isTerminal = true → Earlier event other)

theorem exists_projectCampaign_concat_iff {events : List CampaignEvent}
    {campaign : CampaignProjection} (h : projectCampaign lock events = .ok campaign)
    (hrequest : event.Requests lock) (hfresh : ∀ other ∈ events, other.eventId ≠ event.eventId) :
    (∃ extended, projectCampaign lock (events ++ [event]) = .ok extended) ↔
      Insertable events event := by
  obtain ⟨ordered, hordered, -⟩ := bind_eq_ok.mp h
  obtain ⟨before, after, rfl, hextended, hearlier, hlater⟩ := orderedEvents_concat hordered hfresh
  have hmem := mem_orderedEvents hordered
  -- an event on both sides of the new one has its identifier
  have hplace {other : CampaignEvent} (hother : other ∈ events) (hfirst : Earlier other event) :
      ¬ Earlier event other := fun hsecond ↦ hfresh other hother (hfirst.eventId_eq hsecond)
  have hnot : ¬ Submits lock event := by
    intro hsubmits
    rcases hrequest.body with ⟨reason, hbody⟩ | ⟨payload, hbody⟩
    · simp [Submits, hbody] at hsubmits
    · simp [Submits, hbody] at hsubmits
  obtain ⟨first, rest, state, hcons, hsubmits, hstate, -⟩ := (projectCampaign_eq_ok hordered).mp h
  constructor
  · rintro ⟨extended, hproject⟩ other hother
    obtain ⟨first', rest', state', hcons', hsubmits', hstate', -⟩ :=
      (projectCampaign_eq_ok hextended).mp hproject
    cases before with
    | nil =>
      obtain ⟨rfl, -⟩ := List.cons.inj hcons'
      exact absurd hsubmits' hnot
    | cons head before =>
      rw [List.cons_append] at hcons hcons'
      obtain ⟨rfl, rfl⟩ := List.cons.inj hcons
      obtain ⟨rfl, rfl⟩ := List.cons.inj hcons'
      rcases List.mem_cons.mp ((hmem other).mpr hother) with rfl | hrest
      · refine ⟨fun _ ↦ hearlier other List.mem_cons_self, fun hterminal ↦ ?_⟩
        simp [CampaignEvent.isTerminal, hsubmits.1] at hterminal
      · refine ⟨fun hsubmission ↦ ?_, fun hterminal ↦ ?_⟩
        · rw [isSubmission_eq_false hstate other hrest] at hsubmission
          cases hsubmission
        · rcases List.mem_append.mp hrest with hbefore | hafter
          · rw [isTerminal_eq_false_of_split hstate' other hbefore] at hterminal
            cases hterminal
          · exact hlater other hafter
  · intro hinsertable
    have hfirst : first ∈ before ++ after := by
      rw [hcons]
      exact List.mem_cons_self
    cases before with
    | nil =>
      refine absurd (hlater first hfirst) (hplace ((hmem first).mp hfirst) ?_)
      exact (hinsertable first ((hmem first).mp hfirst)).1 hsubmits.isSubmission
    | cons head before =>
      rw [List.cons_append] at hcons
      obtain ⟨rfl, rfl⟩ := List.cons.inj hcons
      obtain ⟨last, hlast⟩ := exists_foldlM_insert hrequest (by simp [CampaignState.Tracked]) rfl
        hstate (fun other hother ↦ by
          by_contra hterminal
          have hother' : other ∈ events := (hmem other).mp (by simp [hother])
          exact hplace hother' (hearlier other (List.mem_cons_of_mem _ hother))
            ((hinsertable other hother').2 (by simpa using hterminal)))
      exact ⟨_, (projectCampaign_eq_ok hextended).mpr ⟨head, _, last, rfl, hsubmits, hlast, rfl⟩⟩

end Status

end HarborHF.Campaign
