import HarborHF.Campaign.Records
import HarborHF.Campaign.Usage

/-!
# What a campaign stands at

A `Standing` is the log of a campaign with the records of its actions, and what a pass of the
reconciler that is under way still has to reserve. What it has in use is read off the records: a
billable record counts from when it is written until its action fails with no wave observed, or its
wave is closed (`ReconcileAction.counts`). The code counts waves of a projection and actions of a
projection instead, and computes the same (`count_buildAdmissionUsage`, `count_planned`), whatever of
a wave was observed: no wave is dropped or counted twice between its reservation and its evidence.
-/

set_option autoImplicit false

namespace HarborHF.Campaign

open Relational

/-! ### What events say of a wave -/

namespace CampaignEvent

/-- What the event tells of the wave. -/
def wavePayload? (waveId : String) (event : CampaignEvent) : Option WaveLifecyclePayload :=
  match event.body with
  | .wave _ payload => if event.subjectId = waveId then some payload else none
  | _ => none

theorem wavePayload?_eq_some {waveId : String} {event : CampaignEvent}
    {payload : WaveLifecyclePayload} : event.wavePayload? waveId = some payload ↔
      event.subjectId = waveId ∧ ∃ status, event.body = .wave status payload := by
  unfold wavePayload?
  split
  · rename_i status other hbody
    simp [hbody]
  · rename_i hbody
    simpa using fun _ status ↦ hbody status payload

end CampaignEvent

/-- What the first event of a wave tells of it. -/
def observedPayload (events : List CampaignEvent) (waveId : String) : Option WaveLifecyclePayload :=
  events.findSome? (CampaignEvent.wavePayload? waveId)

/-- The action has failed. -/
def hasFailed (events : List CampaignEvent) (actionId : String) : Bool :=
  events.any (CampaignEvent.failsAction actionId)

/-- The wave was closed. -/
def isClosed (events : List CampaignEvent) (waveId : String) : Bool :=
  events.any (CampaignEvent.closes waveId)

namespace ReconcileAction

/-- The action may have a wave: it has not failed, or its wave was observed. -/
def mayRun (events : List CampaignEvent) (action : ReconcileAction) : Bool :=
  action.kind.billable &&
    ((observedPayload events action.wave).isSome || !hasFailed events action.actionId)

/-- The action counts against the limits. -/
def counts (events : List CampaignEvent) (action : ReconcileAction) : Bool :=
  action.mayRun events && !isClosed events action.wave

/-- The action with the estimate of its wave, once the wave was observed. -/
def recorded (events : List CampaignEvent) (action : ReconcileAction) : ActiveAdmission :=
  { action.admission with
    estimatedCostMicrousd := ((observedPayload events action.wave).map
      WaveLifecyclePayload.estimatedCostMicrousd).getD (action.estimatedCostMicrousd.getD 0) }

/-- One, when the action counts in the scope. -/
def share (scope : Scope) (events : List CampaignEvent) (action : ReconcileAction) : ℕ :=
  if action.counts events && action.admission.within scope then 1 else 0

/-- What the action is estimated to cost, while it may run. -/
def cost (events : List CampaignEvent) (action : ReconcileAction) : ℕ :=
  if action.mayRun events then (action.recorded events).estimatedCostMicrousd else 0

end ReconcileAction

/-! ### Standings -/

/-- A campaign with a pass of the reconciler: the log, the records of the actions, what the pass still
has to reserve and the spend it was planned with. -/
structure Standing where
  events : List CampaignEvent
  reservations : Dict String ReconcileAction
  pending : List ReconcileAction := []
  spend : ℕ := 0
  deriving DecidableEq

namespace Standing

/-- What the records weigh together. -/
def total (weight : ReconcileAction → ℕ) (standing : Standing) : ℕ :=
  (standing.reservations.values.map weight).sum

/-- The waves in use that count in the scope. -/
def count (scope : Scope) (standing : Standing) : ℕ :=
  standing.total (ReconcileAction.share scope standing.events)

/-- The estimates of all waves and of the actions whose waves were not observed. -/
def estimates (standing : Standing) : ℕ := standing.total (ReconcileAction.cost standing.events)

end Standing

/-- How an action is named when it is planned. -/
structure ReconcileAction.Named (lock : CampaignLock) (action : ReconcileAction) : Prop where
  actionId : action.actionId = "act-" ++ action.actionKey
  wave : action.kind.billable = true → action.wave = waveIdOf action.actionKey
  provider : action.kind.billable = true → action.provider = waveProvider lock action.deploymentDigest

/-- The records are of the reserved actions, and the waves of the log are those of records. -/
structure Standing.Sound (lock : CampaignLock) (standing : Standing) : Prop where
  keys : standing.reservations.keys.Nodup
  named : ∀ id action, standing.reservations.get? id = some action →
    action.actionId = id ∧ action.Named lock
  reserved : ∀ id action, standing.reservations.get? id = some action →
    ∃ event ∈ standing.events, ∃ payload, event.body = .actionReserved payload ∧
      payload.actionId = id
  recorded : ∀ event ∈ standing.events, ∀ payload, event.body = .actionReserved payload →
    ∃ action, standing.reservations.get? payload.actionId = some action ∧
      action.kind = payload.actionKind
  waves : ∀ event ∈ standing.events, ∀ status payload, event.body = .wave status payload →
    ∃ id action, standing.reservations.get? id = some action ∧ action.kind.billable = true ∧
      action.wave = event.subjectId ∧ action.deploymentDigest = payload.deploymentDigest ∧
      action.provider = payload.provider

/-! ### Records and waves -/

section Facts

variable {events : List CampaignEvent} {waveId actionId : String} {payload : WaveLifecyclePayload}

theorem observedPayload_eq_some (h : observedPayload events waveId = some payload) :
    ∃ event ∈ events, event.subjectId = waveId ∧ ∃ status, event.body = .wave status payload := by
  obtain ⟨event, hevent, hpayload⟩ := List.exists_of_findSome?_eq_some h
  exact ⟨event, hevent, CampaignEvent.wavePayload?_eq_some.mp hpayload⟩

theorem observedPayload_isSome_iff : (observedPayload events waveId).isSome = true ↔
    ∃ event ∈ events, event.ofWave waveId = true := by
  unfold observedPayload
  rw [List.findSome?_isSome_iff]
  refine exists_congr fun event ↦ and_congr_right fun _ ↦ ?_
  unfold CampaignEvent.wavePayload? CampaignEvent.ofWave
  cases event.body <;> simp

theorem hasFailed_iff : hasFailed events actionId = true ↔
    ∃ event ∈ events, event.failsAction actionId = true := by
  simp [hasFailed]

theorem isClosed_iff : isClosed events waveId = true ↔
    ∃ event ∈ events, event.closes waveId = true := by
  simp [isClosed]

theorem waveIdOf_injective {first second : String} (h : waveIdOf first = waveIdOf second) :
    first = second := by
  have hlist := congrArg String.toList h
  simp only [waveIdOf, String.toList_append, List.append_cancel_left_eq] at hlist
  exact String.toList_inj.mp hlist

end Facts

namespace Standing.Sound

variable {lock : CampaignLock} {standing : Standing}

theorem record_inj (h : standing.Sound lock) {id id' : String} {action action' : ReconcileAction}
    (hget : standing.reservations.get? id = some action) (hbillable : action.kind.billable = true)
    (hget' : standing.reservations.get? id' = some action')
    (hbillable' : action'.kind.billable = true) (hwave : action.wave = action'.wave) :
    action = action' := by
  obtain ⟨rfl, hnamed⟩ := h.named id action hget
  obtain ⟨rfl, hnamed'⟩ := h.named id' action' hget'
  rw [hnamed.wave hbillable, hnamed'.wave hbillable'] at hwave
  rw [hnamed.actionId, waveIdOf_injective hwave, ← hnamed'.actionId, hget'] at hget
  exact (Option.some.inj hget).symm

theorem mem_values_iff (h : standing.Sound lock) {action : ReconcileAction} :
    action ∈ standing.reservations.values ↔
      standing.reservations.get? action.actionId = some action := by
  constructor
  · intro hmem
    obtain ⟨id, hget⟩ := Dict.exists_get?_of_mem_values h.keys hmem
    rw [(h.named id action hget).1]
    exact hget
  · exact Dict.mem_values_of_get?_eq_some

theorem value_inj (h : standing.Sound lock) {action action' : ReconcileAction}
    (hmem : action ∈ standing.reservations.values) (hbillable : action.kind.billable = true)
    (hmem' : action' ∈ standing.reservations.values) (hbillable' : action'.kind.billable = true)
    (hwave : action.wave = action'.wave) : action = action' :=
  h.record_inj (h.mem_values_iff.mp hmem) hbillable (h.mem_values_iff.mp hmem') hbillable' hwave

theorem nodup_values (h : standing.Sound lock) : standing.reservations.values.Nodup := by
  have hmap : standing.reservations.values.map ReconcileAction.actionId =
      standing.reservations.keys := by
    unfold Dict.values Dict.keys
    rw [List.map_map]
    refine List.map_congr_left fun entry hentry ↦ ?_
    exact (h.named entry.1 entry.2 ((Dict.get?_eq_some_iff h.keys).mpr hentry)).1
  exact List.Nodup.of_map ReconcileAction.actionId (hmap ▸ h.keys)

theorem nodup_waves (h : standing.Sound lock) {keep : ReconcileAction → Bool}
    (hkeep : ∀ action, keep action = true → action.kind.billable = true) :
    ((standing.reservations.values.filter keep).map ReconcileAction.wave).Nodup := by
  refine List.Nodup.map_on (fun action haction action' haction' hwave ↦ ?_)
    (h.nodup_values.filter keep)
  obtain ⟨hmem, hkept⟩ := List.mem_filter.mp haction
  obtain ⟨hmem', hkept'⟩ := List.mem_filter.mp haction'
  exact h.value_inj hmem (hkeep action hkept) hmem' (hkeep action' hkept') hwave

end Standing.Sound

/-! ### The waves of a projection -/

theorem sum_map_ite {α : Type} (keep : α → Bool) (weight : α → ℕ) (list : List α) :
    (list.map fun entry ↦ if keep entry then weight entry else 0).sum =
      ((list.filter keep).map weight).sum := by
  induction list with
  | nil => rfl
  | cons entry rest ih =>
    by_cases h : keep entry = true
    · simp [h, ih]
    · simp [h, ih]

variable {admissions : List ActiveAdmission}

theorem get?_uniqueAdmissions_eq {waveId : String} : (uniqueAdmissions admissions).get? waveId =
      (admissions.filter fun admission ↦ admission.waveId = waveId).getLast? := by
  have h := @Dict.get?_foldl_set String ActiveAdmission _ waveId [] ActiveAdmission
    ActiveAdmission.waveId id admissions
  rw [Option.map_id_fun, Dict.get?_nil, Option.or_none] at h
  exact h

/-- Waves that are listed once stay as they are listed. -/
theorem values_uniqueAdmissions (h : (admissions.map ActiveAdmission.waveId).Nodup) :
    (uniqueAdmissions admissions).values = admissions := by
  induction admissions using List.reverseRecOn with
  | nil => rfl
  | append_singleton rest last ih =>
    rw [List.map_append, List.map_singleton, List.nodup_append] at h
    obtain ⟨hrest, -, hlast⟩ := h
    have hnew : (uniqueAdmissions rest).get? last.waveId = none := by
      rw [get?_uniqueAdmissions_eq, List.filter_eq_nil_iff.mpr]
      · rfl
      · intro admission hadmission
        have hne := hlast _ (List.mem_map_of_mem hadmission) last.waveId (by simp)
        simpa using hne
    have hset : uniqueAdmissions (rest ++ [last]) =
        uniqueAdmissions rest ++ [(last.waveId, last)] := by
      rw [← Dict.set_of_get?_eq_none hnew]
      simp [uniqueAdmissions]
    rw [hset]
    simpa [Dict.values] using ih hrest

theorem get?_uniqueAdmissions {waveId : String} {admission : ActiveAdmission}
    (h : (uniqueAdmissions admissions).get? waveId = some admission) :
    admission ∈ admissions ∧ admission.waveId = waveId := by
  rw [get?_uniqueAdmissions_eq] at h
  simpa using List.mem_filter.mp (List.mem_of_getLast? h)

theorem exists_uniqueAdmission {admission : ActiveAdmission} (h : admission ∈ admissions) :
    ∃ other, (uniqueAdmissions admissions).get? admission.waveId = some other := by
  rw [get?_uniqueAdmissions_eq]
  have hmem : admission ∈ admissions.filter fun other ↦ other.waveId = admission.waveId := by
    simpa using h
  obtain ⟨other, hother⟩ := Option.isSome_iff_exists.mp
    (List.getLast?_isSome.mpr (List.ne_nil_of_mem hmem))
  exact ⟨other, hother⟩

section Projected

variable {lock : CampaignLock} {standing : Standing} {projection : RecoveryProjection}
  {admissions : List ActiveAdmission}

theorem observedPayload_eq (h : WavesOf standing.events projection.waves) {waveId : String}
    {wave : WaveProjection} (hget : projection.waves.get? waveId = some wave) :
    observedPayload standing.events waveId = some wave.identity := by
  obtain ⟨-, event, hevent, hof⟩ := h.observed waveId wave hget
  obtain ⟨payload, hpayload⟩ := Option.isSome_iff_exists.mp
    (observedPayload_isSome_iff.mpr ⟨event, hevent, hof⟩)
  obtain ⟨first, hfirst, hsubject, status, hbody⟩ := observedPayload_eq_some hpayload
  obtain ⟨same, hsame, hidentity⟩ := h.known first hfirst status _ hbody
  rw [hsubject, hget] at hsame
  rw [hpayload, Option.some.inj hsame, hidentity]

theorem observed_eq (h : WavesOf standing.events projection.waves) (waveId : String) :
    (observedPayload standing.events waveId).isSome = (projection.waves.get? waveId).isSome := by
  cases hget : projection.waves.get? waveId with
  | some wave => simp [observedPayload_eq h hget]
  | none =>
    rw [Option.isSome_none, ← Bool.not_eq_true, observedPayload_isSome_iff]
    rintro ⟨event, hevent, hof⟩
    obtain ⟨rfl, status, payload, hbody⟩ := CampaignEvent.exists_of_ofWave hof
    obtain ⟨wave, hwave, -⟩ := h.known event hevent status payload hbody
    rw [hget] at hwave
    cases hwave

theorem closed_eq (h : WavesOf standing.events projection.waves) (waveId : String) :
    ((projection.waves.get? waveId).any fun wave ↦ wave.status = .closed) =
      isClosed standing.events waveId := by
  rw [Bool.eq_iff_iff, isClosed_iff]
  cases hget : projection.waves.get? waveId with
  | some wave => simpa using h.closed waveId wave hget
  | none =>
    simp only [Option.any_none, Bool.false_eq_true, false_iff]
    rintro ⟨event, hevent, hcloses⟩
    obtain ⟨wave, hwave⟩ := h.closing event hevent waveId hcloses
    rw [hget] at hwave
    cases hwave

/-- An observed wave is that of a record, which names it as its events do. -/
theorem exists_record (hsound : standing.Sound lock)
    (h : WavesOf standing.events projection.waves) {waveId : String} {wave : WaveProjection}
    (hget : projection.waves.get? waveId = some wave) :
    ∃ action ∈ standing.reservations.values, action.kind.billable = true ∧ action.wave = waveId ∧
      action.recorded standing.events = wave.admission := by
  obtain ⟨hid, event, hevent, hof⟩ := h.observed waveId wave hget
  obtain ⟨hsubject, status, payload, hbody⟩ := CampaignEvent.exists_of_ofWave hof
  obtain ⟨same, hsame, hidentity⟩ := h.known event hevent status payload hbody
  rw [hsubject, hget] at hsame
  obtain rfl := Option.some.inj hsame
  obtain ⟨id, action, haction, hbillable, hwave, hdeployment, hprovider⟩ :=
    hsound.waves event hevent status payload hbody
  refine ⟨action, Dict.mem_values_of_get?_eq_some haction, hbillable, hwave.trans hsubject, ?_⟩
  simp [ReconcileAction.recorded, ReconcileAction.admission, WaveProjection.admission, hwave,
    hsubject, hid, observedPayload_eq h hget, hdeployment, hprovider, ← hidentity,
    WaveProjection.identity]

/-- The observed waves are those of the records whose waves were observed. -/
theorem waves_perm (hsound : standing.Sound lock) (h : WavesOf standing.events projection.waves) :
    (projection.waves.values.map WaveProjection.admission).Perm
      ((standing.reservations.values.filter fun action ↦ action.kind.billable &&
        (observedPayload standing.events action.wave).isSome).map
          (ReconcileAction.recorded standing.events)) := by
  have hkeys : (projection.waves.values.map WaveProjection.admission).map
      ActiveAdmission.waveId = projection.waves.keys := by
    unfold Dict.values Dict.keys
    rw [List.map_map, List.map_map]
    refine List.map_congr_left fun entry hentry ↦ ?_
    exact (h.observed entry.1 entry.2 ((Dict.get?_eq_some_iff h.keys).mpr hentry)).1
  have hwaves : (((standing.reservations.values.filter fun action ↦ action.kind.billable &&
      (observedPayload standing.events action.wave).isSome).map
        (ReconcileAction.recorded standing.events)).map ActiveAdmission.waveId).Nodup := by
    rw [List.map_map]
    exact hsound.nodup_waves fun action hkeep ↦ (Bool.and_eq_true_iff.mp hkeep).1
  refine (List.perm_ext_iff_of_nodup (List.Nodup.of_map ActiveAdmission.waveId (hkeys ▸ h.keys))
    (List.Nodup.of_map ActiveAdmission.waveId hwaves)).mpr fun admission ↦ ?_
  simp only [List.mem_map, List.mem_filter, Bool.and_eq_true]
  constructor
  · rintro ⟨wave, hwave, rfl⟩
    obtain ⟨id, hget⟩ := Dict.exists_get?_of_mem_values h.keys hwave
    obtain ⟨action, haction, hbillable, rfl, hrecorded⟩ := exists_record hsound h hget
    exact ⟨action, ⟨haction, hbillable, by rw [observed_eq h, hget]; rfl⟩, hrecorded⟩
  · rintro ⟨action, ⟨haction, hbillable, hobserved⟩, rfl⟩
    rw [observed_eq h] at hobserved
    obtain ⟨wave, hget⟩ := Option.isSome_iff_exists.mp hobserved
    obtain ⟨other, hother, hotherBillable, hwave, hrecorded⟩ := exists_record hsound h hget
    obtain rfl := hsound.value_inj hother hotherBillable haction hbillable hwave
    exact ⟨wave, Dict.mem_values_of_get?_eq_some hget, hrecorded.symm⟩

/-- The actions in use are those of the records that have not failed and whose waves are not
closed. -/
theorem activeActionAdmissions_perm (hsound : standing.Sound lock)
    (hactions : ActionsOf standing.events projection.campaign.actions)
    (h : WavesOf standing.events projection.waves)
    (hactive : activeActionAdmissions projection standing.reservations = .ok admissions) :
    admissions.Perm ((standing.reservations.values.filter fun action ↦
      action.kind.billable && !hasFailed standing.events action.actionId &&
        !isClosed standing.events action.wave).map ReconcileAction.admission) := by
  obtain ⟨actions, hmapped, hsame⟩ := bind_eq_ok.mp hactive
  cases hsame
  have hall := mapM_eq_ok.mp hmapped
  have hrecord : ∀ id action, reservationRecord standing.reservations id = .ok action ↔
      standing.reservations.get? id = some action := by
    intro id action
    unfold reservationRecord
    cases standing.reservations.get? id <;> simp
  simp only [hrecord] at hall
  have hnames : actions.map ReconcileAction.actionId = ((projection.campaign.actions.filter
      fun entry ↦ entry.2.actionKind.billable && entry.2.status.inUse).map Prod.fst) := by
    clear hmapped hactive
    generalize projection.campaign.actions.filter (fun entry ↦
      entry.2.actionKind.billable && entry.2.status.inUse) = entries at hall ⊢
    induction hall with
    | nil => rfl
    | cons hhead _ ih => rw [List.map_cons, List.map_cons, ih, (hsound.named _ _ hhead).1]
  have hnodup : actions.Nodup := by
    refine List.Nodup.of_map ReconcileAction.actionId ?_
    rw [hnames]
    exact hactions.keys.sublist (List.Sublist.map Prod.fst List.filter_sublist)
  -- the status of an action tells whether some event fails it
  have hstatus : ∀ id state, projection.campaign.actions.get? id = some state →
      state.status.inUse = !hasFailed standing.events id := by
    intro id state hstate
    rw [Bool.eq_iff_iff, Bool.not_eq_true', ← Bool.not_eq_true, hasFailed_iff,
      ← hactions.failed id state hstate]
    cases state.status <;> simp [ActionStatus.inUse]
  have hkind : ∀ id state, projection.campaign.actions.get? id = some state →
      ∀ action, standing.reservations.get? id = some action → action.kind = state.actionKind := by
    intro id state hstate action haction
    obtain ⟨event, hevent, payload, hbody, rfl, hsame⟩ := hactions.reserved id state hstate
    obtain ⟨other, hother, hkind⟩ := hsound.recorded event hevent payload hbody
    rw [haction] at hother
    rw [Option.some.inj hother, hkind, hsame]
  have hperm : actions.Perm (standing.reservations.values.filter fun action ↦
      action.kind.billable && !hasFailed standing.events action.actionId) := by
    refine (List.perm_ext_iff_of_nodup hnodup (hsound.nodup_values.filter _)).mpr fun action ↦ ?_
    simp only [List.mem_filter, Bool.and_eq_true]
    constructor
    · intro hmem
      obtain ⟨⟨id, state⟩, hentry, hget⟩ := exists_left_of_forall₂ hall hmem
      obtain ⟨hentry, hkeep⟩ := List.mem_filter.mp hentry
      have hstate := (Dict.get?_eq_some_iff hactions.keys).mpr hentry
      obtain ⟨hbillable, hinUse⟩ := Bool.and_eq_true_iff.mp hkeep
      refine ⟨Dict.mem_values_of_get?_eq_some hget, ?_, ?_⟩
      · rw [hkind id state hstate action hget]
        exact hbillable
      · rw [(hsound.named id action hget).1, ← hstatus id state hstate]
        exact hinUse
    · rintro ⟨hmem, hbillable, hunfailed⟩
      have hget := hsound.mem_values_iff.mp hmem
      obtain ⟨event, hevent, payload, hbody, hid⟩ := hsound.reserved _ action hget
      obtain ⟨state, hstate⟩ := hactions.known event hevent payload hbody
      rw [hid] at hstate
      have hentry : (action.actionId, state) ∈ projection.campaign.actions.filter
          fun entry ↦ entry.2.actionKind.billable && entry.2.status.inUse := by
        refine List.mem_filter.mpr ⟨Dict.mem_of_get?_eq_some hstate, ?_⟩
        rw [Bool.and_eq_true, ← hkind _ state hstate action hget, hstatus _ state hstate]
        exact ⟨hbillable, hunfailed⟩
      obtain ⟨other, hother, hsame⟩ := exists_right_of_forall₂ hall hentry
      rw [hget] at hsame
      rw [Option.some.inj hsame]
      exact hother
  refine List.Perm.map ReconcileAction.admission ?_
  rw [← List.filter_filter]
  simp only [closed_eq h]
  refine (hperm.filter _).trans (List.Perm.of_eq ?_)
  rw [List.filter_filter, List.filter_filter]
  exact List.filter_congr fun action _ ↦ Bool.and_comm _ _

/-- Every action in use has a record. -/
theorem exists_activeActionAdmissions (hsound : standing.Sound lock)
    (hactions : ActionsOf standing.events projection.campaign.actions) :
    ∃ admissions, activeActionAdmissions projection standing.reservations = .ok admissions := by
  obtain ⟨actions, hmapped⟩ : ∃ actions, (projection.campaign.actions.filter fun entry ↦
      entry.2.actionKind.billable && entry.2.status.inUse).mapM (fun entry ↦
        reservationRecord standing.reservations entry.1) = .ok actions := by
    refine exists_mapM fun entry hentry ↦ ?_
    have hget := (Dict.get?_eq_some_iff hactions.keys).mpr (List.mem_filter.mp hentry).1
    obtain ⟨event, hevent, payload, hbody, hid, -⟩ := hactions.reserved entry.1 entry.2 hget
    obtain ⟨action, haction, -⟩ := hsound.recorded event hevent payload hbody
    exact ⟨action, by rw [reservationRecord, ← hid, haction]⟩
  exact ⟨_, bind_eq_ok.mpr ⟨actions, hmapped, rfl⟩⟩

theorem nodup_activeActionAdmissions (hsound : standing.Sound lock)
    (hactions : ActionsOf standing.events projection.campaign.actions)
    (h : WavesOf standing.events projection.waves)
    (hactive : activeActionAdmissions projection standing.reservations = .ok admissions) :
    (admissions.map ActiveAdmission.waveId).Nodup := by
  have hperm := (activeActionAdmissions_perm hsound hactions h hactive).map ActiveAdmission.waveId
  rw [List.map_map] at hperm
  refine hperm.nodup_iff.mpr (hsound.nodup_waves fun action hkeep ↦ ?_)
  simp only [Bool.and_eq_true] at hkeep
  exact hkeep.1.1

/-- The unobserved waves in use are those of the records that were not observed. -/
theorem unobservedAdmissions_perm (hsound : standing.Sound lock)
    (hactions : ActionsOf standing.events projection.campaign.actions)
    (h : WavesOf standing.events projection.waves) {unobserved : List ActiveAdmission}
    (hunobserved : unobservedAdmissions projection standing.reservations = .ok unobserved) :
    unobserved.Perm ((standing.reservations.values.filter fun action ↦
        action.mayRun standing.events && !(observedPayload standing.events action.wave).isSome).map
          (ReconcileAction.recorded standing.events)) ∧
      (unobserved.map ActiveAdmission.waveId).Nodup := by
  obtain ⟨admissions, hactive, hsame⟩ := bind_eq_ok.mp hunobserved
  cases hsame
  constructor
  · refine ((activeActionAdmissions_perm hsound hactions h hactive).filter _).trans ?_
    rw [List.filter_map, List.filter_filter]
    refine List.Perm.of_eq ?_
    have hkeep : (standing.reservations.values.filter fun action ↦
          ((fun admission : ActiveAdmission ↦
            (projection.waves.get? admission.waveId).isNone) ∘ ReconcileAction.admission) action &&
          (action.kind.billable && !hasFailed standing.events action.actionId &&
            !isClosed standing.events action.wave)) =
        standing.reservations.values.filter fun action ↦ action.mayRun standing.events &&
          !(observedPayload standing.events action.wave).isSome := by
      refine List.filter_congr fun action _ ↦ ?_
      simp only [Function.comp_apply, ReconcileAction.admission, ReconcileAction.mayRun]
      rw [observed_eq h, ← closed_eq h]
      cases projection.waves.get? action.wave <;> simp
    rw [hkeep]
    refine List.map_congr_left fun action haction ↦ ?_
    obtain ⟨-, hnone⟩ := Bool.and_eq_true_iff.mp (List.mem_filter.mp haction).2
    simp only [Bool.not_eq_true', Option.isSome_eq_false_iff, Option.isNone_iff_eq_none] at hnone
    simp [ReconcileAction.recorded, ReconcileAction.admission, hnone]
  · exact (nodup_activeActionAdmissions hsound hactions h hactive).sublist
      (List.Sublist.map _ List.filter_sublist)

/-- The observed waves and the unobserved ones in use are those of the records that may run. -/
theorem mayRun_perm (hsound : standing.Sound lock)
    (hactions : ActionsOf standing.events projection.campaign.actions)
    (h : WavesOf standing.events projection.waves) {unobserved : List ActiveAdmission}
    (hunobserved : unobservedAdmissions projection standing.reservations = .ok unobserved) :
    (projection.waves.values.map WaveProjection.admission ++ unobserved).Perm
      ((standing.reservations.values.filter (ReconcileAction.mayRun standing.events)).map
        (ReconcileAction.recorded standing.events)) := by
  have hobserved : (standing.reservations.values.filter fun action ↦ action.kind.billable &&
        (observedPayload standing.events action.wave).isSome) =
      (standing.reservations.values.filter (ReconcileAction.mayRun standing.events)).filter
        fun action ↦ (observedPayload standing.events action.wave).isSome := by
    rw [List.filter_filter]
    refine List.filter_congr fun action _ ↦ ?_
    unfold ReconcileAction.mayRun
    cases (observedPayload standing.events action.wave).isSome <;> simp
  have hparts := (waves_perm hsound h).append
    (unobservedAdmissions_perm hsound hactions h hunobserved).1
  rw [hobserved, ← List.map_append] at hparts
  refine hparts.trans (List.Perm.map _ ?_)
  refine (List.Perm.append_left _ (List.Perm.of_eq ?_)).trans
    (List.filter_append_perm (fun action : ReconcileAction ↦
      (observedPayload standing.events action.wave).isSome) _)
  rw [List.filter_filter]
  exact List.filter_congr fun action _ ↦ Bool.and_comm _ _

/-- The open waves and the unobserved ones in use are those of the records that count. -/
theorem counts_perm (hsound : standing.Sound lock)
    (hactions : ActionsOf standing.events projection.campaign.actions)
    (h : WavesOf standing.events projection.waves) {unobserved : List ActiveAdmission}
    (hunobserved : unobservedAdmissions projection standing.reservations = .ok unobserved) :
    ((openWaves projection).map WaveProjection.admission ++ unobserved).Perm
      ((standing.reservations.values.filter (ReconcileAction.counts standing.events)).map
        (ReconcileAction.recorded standing.events)) := by
  have hopen : (projection.waves.values.map WaveProjection.admission).filter
      (fun admission ↦ !isClosed standing.events admission.waveId) =
        (openWaves projection).map WaveProjection.admission := by
    rw [List.filter_map, openWaves]
    congr 1
    refine List.filter_congr fun wave hwave ↦ ?_
    obtain ⟨id, hget⟩ := Dict.exists_get?_of_mem_values h.keys hwave
    simp [WaveProjection.admission, ← closed_eq h, (h.observed id wave hget).1, hget]
  have hstill : unobserved.filter
      (fun admission ↦ !isClosed standing.events admission.waveId) = unobserved := by
    obtain ⟨admissions, -, hsame⟩ := bind_eq_ok.mp hunobserved
    cases hsame
    rw [List.filter_filter]
    refine List.filter_congr fun admission _ ↦ ?_
    rw [← closed_eq h]
    cases projection.waves.get? admission.waveId <;> simp
  have hperm := (mayRun_perm hsound hactions h hunobserved).filter
    fun admission ↦ !isClosed standing.events admission.waveId
  rw [List.filter_append, hopen, hstill, List.filter_map, List.filter_filter] at hperm
  refine hperm.trans (List.Perm.of_eq ?_)
  congr 1
  exact List.filter_congr fun action _ ↦ Bool.and_comm _ _

/-- What counts in a scope are the records that count there. -/
theorem count_eq (scope : Scope) (standing : Standing) :
    standing.count scope = (((standing.reservations.values.filter
      (ReconcileAction.counts standing.events)).map
        (ReconcileAction.recorded standing.events)).filter (ActiveAdmission.within scope)).length := by
  unfold Standing.count Standing.total
  rw [List.filter_map, List.length_map, List.filter_filter]
  have hsum := sum_map_ite (fun action ↦ action.counts standing.events &&
    action.admission.within scope) (fun _ ↦ 1) standing.reservations.values
  have hone (list : List ReconcileAction) : (list.map fun _ ↦ 1).sum = list.length := by simp
  rw [hone] at hsum
  refine hsum.trans (congrArg List.length ?_)
  exact List.filter_congr fun action _ ↦ Bool.and_comm _ _

theorem estimates_eq (standing : Standing) :
    standing.estimates = (((standing.reservations.values.filter
      (ReconcileAction.mayRun standing.events)).map
        (ReconcileAction.recorded standing.events)).map
          ActiveAdmission.estimatedCostMicrousd).sum := by
  unfold Standing.estimates Standing.total
  rw [List.map_map]
  exact sum_map_ite (ReconcileAction.mayRun standing.events) _ standing.reservations.values

/-- The waves that are listed as active are those of the records that count. -/
theorem exists_counting (hsound : standing.Sound lock)
    (hactions : ActionsOf standing.events projection.campaign.actions)
    (h : WavesOf standing.events projection.waves)
    (hactive : activeActionAdmissions projection standing.reservations = .ok admissions)
    {admission : ActiveAdmission}
    (hmem : admission ∈ (openWaves projection).map WaveProjection.admission ++ admissions) :
    ∃ action ∈ standing.reservations.values, action.counts standing.events = true ∧
      action.wave = admission.waveId ∧
      ∀ scope, action.admission.within scope = admission.within scope := by
  rcases List.mem_append.mp hmem with hopen | haction
  · obtain ⟨wave, hwave, rfl⟩ := List.mem_map.mp hopen
    obtain ⟨hvalue, hstatus⟩ := List.mem_filter.mp hwave
    obtain ⟨id, hget⟩ := Dict.exists_get?_of_mem_values h.keys hvalue
    obtain ⟨action, haction, hbillable, rfl, hrecorded⟩ := exists_record hsound h hget
    refine ⟨action, haction, ?_, ((h.observed _ wave hget).1).symm, fun scope ↦ ?_⟩
    · have hobserved := observed_eq h action.wave
      have hclosed := closed_eq h action.wave
      rw [hget] at hobserved hclosed
      simp only [Option.any_some] at hclosed
      simp only [ReconcileAction.counts, ReconcileAction.mayRun, hbillable, hobserved, ← hclosed]
      simpa using hstatus
    · rw [← hrecorded]
      rfl
  · have hperm := activeActionAdmissions_perm hsound hactions h hactive
    obtain ⟨action, hkept, rfl⟩ := List.mem_map.mp (hperm.mem_iff.mp haction)
    obtain ⟨hvalue, hkeep⟩ := List.mem_filter.mp hkept
    refine ⟨action, hvalue, ?_, rfl, fun scope ↦ rfl⟩
    simp only [Bool.and_eq_true] at hkeep
    simp [ReconcileAction.counts, ReconcileAction.mayRun, hkeep.1.1, hkeep.1.2, hkeep.2]

theorem exists_listed (hsound : standing.Sound lock)
    (hactions : ActionsOf standing.events projection.campaign.actions)
    (h : WavesOf standing.events projection.waves)
    (hactive : activeActionAdmissions projection standing.reservations = .ok admissions)
    {action : ReconcileAction} (haction : action ∈ standing.reservations.values)
    (hcounts : action.counts standing.events = true) :
    ∃ admission ∈ (openWaves projection).map WaveProjection.admission ++ admissions,
      admission.waveId = action.wave := by
  obtain ⟨hmayRun, hopen⟩ := Bool.and_eq_true_iff.mp hcounts
  obtain ⟨hbillable, hpresent⟩ := Bool.and_eq_true_iff.mp hmayRun
  cases hget : projection.waves.get? action.wave with
  | some wave =>
    refine ⟨wave.admission, List.mem_append_left _ (List.mem_map_of_mem (List.mem_filter.mpr
      ⟨Dict.mem_values_of_get?_eq_some hget, ?_⟩)), (h.observed _ wave hget).1⟩
    rw [← closed_eq h, hget] at hopen
    simpa using hopen
  | none =>
    rw [observed_eq h, hget, Option.isSome_none, Bool.false_or] at hpresent
    refine ⟨action.admission, List.mem_append_right _ ?_, rfl⟩
    refine (activeActionAdmissions_perm hsound hactions h hactive).mem_iff.mpr
      (List.mem_map_of_mem (List.mem_filter.mpr ⟨haction, ?_⟩))
    simp only [Bool.and_eq_true]
    exact ⟨⟨hbillable, hpresent⟩, hopen⟩

/-- The usage of a campaign is what counts of it. -/
theorem count_buildAdmissionUsage [Jitter] (hsound : standing.Sound lock)
    (hprojection : projectRecovery lock standing.events = .ok projection) {usage : AdmissionUsage}
    (husage : buildAdmissionUsage lock.campaignId projection standing.reservations = .ok usage)
    (scope : Scope) : usage.count lock.campaignId scope = standing.count scope := by
  obtain ⟨hactions, hwaves⟩ := records_of_projectRecovery hprojection
  obtain ⟨admissions, hactive, hsame⟩ := bind_eq_ok.mp husage
  cases hsame
  rw [count_usageFromAdmissions, count_eq]
  generalize hlisted : (openWaves projection).map WaveProjection.admission ++ admissions = listed
  have hnames : (uniqueAdmissions listed).values.map ActiveAdmission.waveId =
      (uniqueAdmissions listed).keys := by
    unfold Dict.values Dict.keys
    rw [List.map_map]
    refine List.map_congr_left fun entry hentry ↦ ?_
    exact (get?_uniqueAdmissions ((Dict.get?_eq_some_iff
      (nodup_keys_uniqueAdmissions listed)).mpr hentry)).2
  have hunique : (((uniqueAdmissions listed).values.filter
      (ActiveAdmission.within scope)).map ActiveAdmission.waveId).Nodup := by
    refine List.Nodup.sublist (List.Sublist.map _ List.filter_sublist) ?_
    rw [hnames]
    exact nodup_keys_uniqueAdmissions listed
  have hrecords : ((((standing.reservations.values.filter
      (ReconcileAction.counts standing.events)).map (ReconcileAction.recorded
        standing.events)).filter (ActiveAdmission.within scope)).map
          ActiveAdmission.waveId).Nodup := by
    refine List.Nodup.sublist (List.Sublist.map _ List.filter_sublist) ?_
    rw [List.map_map]
    refine hsound.nodup_waves fun action hcounts ↦ ?_
    exact (Bool.and_eq_true_iff.mp (Bool.and_eq_true_iff.mp hcounts).1).1
  have hperm := (List.perm_ext_iff_of_nodup hunique hrecords).mpr fun waveId ↦ ?_
  · simpa using hperm.length_eq
  simp only [List.mem_map, List.mem_filter]
  constructor
  · rintro ⟨admission, ⟨hmem, hwithin⟩, rfl⟩
    obtain ⟨id, hget⟩ := Dict.exists_get?_of_mem_values (nodup_keys_uniqueAdmissions listed) hmem
    obtain ⟨action, haction, hcounts, hwave, hscope⟩ := exists_counting hsound hactions hwaves
      hactive (hlisted ▸ (get?_uniqueAdmissions hget).1)
    exact ⟨action.recorded standing.events, ⟨⟨action, ⟨haction, hcounts⟩, rfl⟩,
      (hscope scope).trans hwithin⟩, hwave⟩
  · rintro ⟨_, ⟨⟨action, ⟨haction, hcounts⟩, rfl⟩, hwithin⟩, rfl⟩
    obtain ⟨first, hfirst, hname⟩ := exists_listed hsound hactions hwaves hactive haction hcounts
    obtain ⟨admission, hget⟩ := exists_uniqueAdmission (hlisted ▸ hfirst)
    obtain ⟨hmem, hid⟩ := get?_uniqueAdmissions hget
    obtain ⟨other, hother, hotherCounts, hwave, hscope⟩ := exists_counting hsound hactions hwaves
      hactive (hlisted ▸ hmem)
    have hbillable : ∀ record : ReconcileAction, record.counts standing.events = true →
        record.kind.billable = true := fun record hrecord ↦
      (Bool.and_eq_true_iff.mp (Bool.and_eq_true_iff.mp hrecord).1).1
    obtain rfl := hsound.value_inj hother (hbillable _ hotherCounts) haction
      (hbillable _ hcounts) (hwave.trans (hid.trans hname))
    exact ⟨admission, ⟨Dict.mem_values_of_get?_eq_some hget, (hscope scope).symm.trans hwithin⟩,
      hwave.symm⟩

/-- A pass plans with its context and, on top of it, with what is in use. -/
theorem count_planned [Jitter] (hsound : standing.Sound lock) {context planned : ReconcileContext}
    (hprojection : projectRecovery lock standing.events = .ok projection)
    (hplanned : contextWithUnobservedActions lock standing.events standing.reservations context =
      .ok planned) : planned.limits = context.limits ∧ planned.deployments = context.deployments ∧
      (∀ scope, (initialUsage planned projection).count lock.campaignId scope =
        context.usage.count lock.campaignId scope + standing.count scope) ∧
      countOf (initialUsage planned projection).spend lock.campaignId =
        countOf context.usage.campaignSpendMicrousd lock.campaignId +
          (projection.spendMicrousd + standing.estimates) := by
  obtain ⟨hactions, hwaves⟩ := records_of_projectRecovery hprojection
  have hid := (Consistent.of_projectRecovery hprojection).campaignId
  unfold contextWithUnobservedActions at hplanned
  rw [hprojection] at hplanned
  obtain ⟨same, hread, hplanned⟩ := bind_eq_ok.mp hplanned
  obtain rfl : projection = same := Except.ok.inj hread
  obtain ⟨unobserved, hunobserved, hsame⟩ := bind_eq_ok.mp hplanned
  have hnodup := (unobservedAdmissions_perm hsound hactions hwaves hunobserved).2
  have hcounts := counts_perm hsound hactions hwaves hunobserved
  have hcosts := mayRun_perm hsound hactions hwaves hunobserved
  -- with nothing unobserved the context is used as it is
  obtain ⟨hlimits, hdeployments, husage, hspend⟩ : planned.limits = context.limits ∧
      planned.deployments = context.deployments ∧
      (∀ scope, planned.usage.count lock.campaignId scope =
        context.usage.count lock.campaignId scope +
          (unobserved.filter (ActiveAdmission.within scope)).length) ∧
      countOf planned.usage.campaignSpendMicrousd lock.campaignId =
        countOf context.usage.campaignSpendMicrousd lock.campaignId +
          (unobserved.map ActiveAdmission.estimatedCostMicrousd).sum := by
    split at hsame
    · rename_i hnone
      cases hsame
      simp [hnone]
    · cases hsame
      refine ⟨rfl, rfl, fun scope ↦ ?_, ?_⟩
      · simp only [combinedUsage, List.foldl_cons, List.foldl_nil]
        rw [count_addUsage, count_usageFromAdmissions, values_uniqueAdmissions hnodup]
      · simp only [combinedUsage, List.foldl_cons, List.foldl_nil]
        rw [spend_addUsage, spend_usageFromAdmissions, values_uniqueAdmissions hnodup, Nat.zero_add]
  refine ⟨hlimits, hdeployments, fun scope ↦ ?_, ?_⟩
  · have hopen : ((openWaves projection).filter fun wave ↦ wave.admission.within scope).length =
        (((openWaves projection).map WaveProjection.admission).filter
          (ActiveAdmission.within scope)).length := by
      rw [List.filter_map, List.length_map]
      rfl
    have hlength := (hcounts.filter (ActiveAdmission.within scope)).length_eq
    rw [List.filter_append, List.length_append] at hlength
    rw [← hid, count_initialUsage, hid, husage, hopen, count_eq, ← hlength]
    omega
  · have hsum := (hcosts.map ActiveAdmission.estimatedCostMicrousd).sum_eq
    rw [List.map_append, List.sum_append, List.map_map] at hsum
    have hestimates : waveEstimates projection = (projection.waves.values.map
        (ActiveAdmission.estimatedCostMicrousd ∘ WaveProjection.admission)).sum := rfl
    rw [← hid, spend_initialUsage, hid, hspend, hestimates, estimates_eq, ← hsum]
    omega

end Projected

end HarborHF.Campaign
