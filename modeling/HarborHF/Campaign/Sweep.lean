import Mathlib.Logic.Function.Basic
import HarborHF.Campaign.Limits

/-!
# A sweep over several campaigns

`apply_all` reads the usage of every campaign once and then applies one campaign after another, each
in the context of what is known of the others (`campaignContext`). What it knows of a campaign is read
again when its pass has ended, unless the pass or the reading raises an exception: then what was known
before stays, though the pass may have reserved waves that it does not count.

As long as every pass that ends so leaves its campaign with no more active waves than are known of it,
all campaigns together stay within the global limit (`globalAdmission_kept`).
-/

set_option autoImplicit false

namespace HarborHF.Campaign

open Relational

/-! ### Contexts -/

section Contexts

variable [Jitter]

/-- What is read of a campaign (`_admission_usage`). -/
def admissionUsage (lock : CampaignLock) (standing : Standing) : Except ApplyError AdmissionUsage := do
  let projection ← (projectRecovery lock standing.events).mapError .campaign
  buildAdmissionUsage lock.campaignId projection standing.reservations

/-- The campaigns of a list, each at its first place. -/
def selectedCampaigns (campaignIds : List String) : List String :=
  campaignIds.reverse.dedup.reverse

/-- What is read of the campaigns at first, where `readable` are those of which the store answers. -/
def observeCampaigns (locks : String → CampaignLock) (standings : String → Standing)
    (readable : String → Bool) (campaignIds : List String) : Dict String (Option AdmissionUsage) :=
  campaignIds.map fun campaignId ↦ (campaignId,
    if readable campaignId then (admissionUsage (locks campaignId) (standings campaignId)).toOption
    else none)

/-- The context of a sweep. With some campaign unknown the global limit counts as used up. -/
def sweepBaseline (context : ReconcileContext) (admissionUnknown : Bool) : ReconcileContext :=
  if admissionUnknown then
    { context with
      usage := { context.usage with
        globalActiveWaves :=
          max context.usage.globalActiveWaves context.limits.globalActiveWaves } }
  else context

/-- The context in which a campaign is applied: what is known of the others comes on top. -/
def campaignContext (baseline : ReconcileContext) (observed : Dict String AdmissionUsage)
    (campaignId : String) : ReconcileContext :=
  { baseline with
    usage := combinedUsage baseline.usage
      ((observed.filter fun entry ↦ entry.1 ≠ campaignId).map Prod.snd) }

end Contexts

/-! ### Sweeps -/

/-- A sweep under way: the campaigns, what is known of them, those that are still to be applied and the
one that is applied now. -/
structure Sweep where
  standings : String → Standing
  observed : Dict String AdmissionUsage
  todo : List String
  current : Option String := none

namespace Sweep

/-- Set the standing of a campaign. -/
def update (sweep : Sweep) (campaignId : String) (standing : Standing) : String → Standing :=
  Function.update sweep.standings campaignId standing

/-- The active waves of a list of campaigns. -/
def activeWaves (campaignIds : List String) (sweep : Sweep) : ℕ :=
  (campaignIds.map fun campaignId ↦ (sweep.standings campaignId).count .all).sum

section Steps

variable [Jitter] [ActionKeys]

/-- The start of `apply_all`: the usage of every campaign is read. -/
def begin (locks : String → CampaignLock) (standings : String → Standing)
    (readable : String → Bool) (campaignIds : List String) : Sweep :=
  let selected := selectedCampaigns campaignIds
  { standings := standings
    observed := (observeCampaigns locks standings readable selected).map fun entry ↦
      (entry.1, entry.2.getD {})
    todo := selected }

/-- Some campaign could not be read. -/
def unknown (locks : String → CampaignLock) (standings : String → Standing)
    (readable : String → Bool) (campaignIds : List String) : Bool :=
  (observeCampaigns locks standings readable (selectedCampaigns campaignIds)).any
    fun entry ↦ entry.2.isNone

/-- A step of a sweep. The pass of a campaign ends with its usage read again, or with an exception; an
exception may come at any time. Evidence of the other campaigns arrives meanwhile. -/
inductive Step (locks : String → CampaignLock) (baseline : ReconcileContext)
    (raises : Sweep → String → Prop) : Sweep → Sweep → Prop
  | next {sweep : Sweep} {campaignId : String} {rest : List String}
      (hidle : sweep.current = none) (htodo : sweep.todo = campaignId :: rest) :
      Step locks baseline raises sweep { sweep with todo := rest, current := some campaignId }
  | work {sweep : Sweep} {campaignId : String} {standing : Standing}
      (hcurrent : sweep.current = some campaignId)
      (hstep : Standing.Step (locks campaignId)
        (campaignContext baseline sweep.observed campaignId) (Standing.OnTime (locks campaignId))
        (sweep.standings campaignId) standing) :
      Step locks baseline raises sweep
        { sweep with standings := sweep.update campaignId standing }
  | evidence {sweep : Sweep} {campaignId : String} {event : CampaignEvent}
      (hother : sweep.current ≠ some campaignId)
      (hontime : (sweep.standings campaignId).OnTime (locks campaignId) event) :
      Step locks baseline raises sweep
        { sweep with
          standings := sweep.update campaignId
            { sweep.standings campaignId with
              events := (sweep.standings campaignId).events ++ [event] } }
  | refresh {sweep : Sweep} {campaignId : String} {usage : AdmissionUsage}
      (hcurrent : sweep.current = some campaignId)
      (husage : admissionUsage (locks campaignId) (sweep.standings campaignId) = .ok usage) :
      Step locks baseline raises sweep
        { sweep with
          standings := sweep.update campaignId { sweep.standings campaignId with pending := [] }
          observed := sweep.observed.set campaignId usage
          current := none }
  | raise {sweep : Sweep} {campaignId : String} (hcurrent : sweep.current = some campaignId)
      (hraises : raises sweep campaignId) :
      Step locks baseline raises sweep
        { sweep with
          standings := sweep.update campaignId { sweep.standings campaignId with pending := [] }
          current := none }

end Steps

/-- What is known of a campaign counts its active waves, or nothing can be admitted anyway. -/
def Known (baseline : ReconcileContext) (sweep : Sweep) (campaignId : String) : Prop :=
  baseline.limits.globalActiveWaves ≤ baseline.usage.globalActiveWaves ∨
    ∃ usage, sweep.observed.get? campaignId = some usage ∧
      (sweep.standings campaignId).count .all ≤ usage.globalActiveWaves

end Sweep

/-! ### One campaign -/

namespace Standing

variable {lock : CampaignLock} {context : ReconcileContext} {standing next : Standing}

/-- The active waves with those that are still to be reserved. -/
def load (standing : Standing) : ℕ :=
  standing.count .all + (standing.pending.map (ReconcileAction.demand .all)).sum

/-- The pending actions are named as they were planned, and the records are sound. -/
structure Ready (lock : CampaignLock) (standing : Standing) : Prop where
  sound : standing.Sound lock
  named : ∀ action ∈ standing.pending, action.Named lock

theorem Ready.stop (h : standing.Ready lock) : Ready lock { standing with pending := [] } :=
  ⟨{ h.sound with }, nofun⟩

theorem Ready.record {event : CampaignEvent} (h : standing.Ready lock)
    (hontime : OnTime lock standing event) :
    Ready lock { standing with events := standing.events ++ [event] } :=
  ⟨h.sound.record hontime.1, h.named⟩

theorem globalActiveWaves_admissionUsage [Jitter] (hsound : standing.Sound lock)
    {usage : AdmissionUsage} (husage : admissionUsage lock standing = .ok usage) :
    usage.globalActiveWaves = standing.count .all := by
  obtain ⟨projection, hread, hbuilt⟩ := bind_eq_ok.mp husage
  exact count_buildAdmissionUsage hsound (mapError_eq_ok.mp hread) hbuilt .all

/-- A step leaves the load as it is or lower, unless it plans: then it fits beside the context. -/
theorem Ready.step [Jitter] [ActionKeys] (h : standing.Ready lock)
    (hnone : context.deployments = []) (hstep : Step lock context (OnTime lock) standing next) :
    next.Ready lock ∧ (next.load ≤ standing.load ∨
      context.usage.globalActiveWaves + next.load ≤
        max (context.usage.globalActiveWaves + standing.count .all)
          context.limits.globalActiveWaves) := by
  cases hstep with
  | plan now hplan =>
    obtain ⟨hevents, hreservations, hnamed, usage, hroom, hcount, -⟩ :=
      room_beginPass h.sound hnone hplan
    have hle := hroom.counts .all
    rw [hcount] at hle
    obtain ⟨events, reservations, pending, spend⟩ := next
    obtain rfl := hevents
    obtain rfl := hreservations
    refine ⟨⟨{ h.sound with }, hnamed⟩, .inr ?_⟩
    rw [Nat.add_assoc] at hle
    exact hle
  | @reserve action rest event hpending hnew hbody =>
    have haction := h.named action (by rw [hpending]; exact List.mem_cons_self)
    refine ⟨⟨h.sound.reserve haction hnew hbody,
      fun other hother ↦ h.named other (hpending ▸ List.mem_cons_of_mem _ hother)⟩, .inl ?_⟩
    have hle := @count_reserve_le standing event action rest hnew hbody .all
    unfold load
    rw [hpending, List.map_cons, List.sum_cons]
    change _ + (rest.map (ReconcileAction.demand .all)).sum ≤ _
    omega
  | @reserved action rest hpending hknown =>
    refine ⟨⟨{ h.sound with },
      fun other hother ↦ h.named other (hpending ▸ List.mem_cons_of_mem _ hother)⟩, .inl ?_⟩
    unfold load
    rw [hpending, List.map_cons, List.sum_cons]
    change standing.count .all + (rest.map (ReconcileAction.demand .all)).sum ≤ _
    omega
  | stop => exact ⟨h.stop, .inl (Nat.le_add_right _ _)⟩
  | record hallowed =>
    exact ⟨h.record hallowed, .inl (Nat.add_le_add_right (count_record_le hallowed .all) _)⟩

end Standing

/-! ### All campaigns -/

/-- The parts of a sum over a list without duplicates. -/
theorem sum_map_of_mem {α : Type} [DecidableEq α] {list : List α} (hnodup : list.Nodup) {entry : α}
    (hentry : entry ∈ list) (weight : α → ℕ) : (list.map weight).sum =
      weight entry + ((list.filter fun other ↦ other ≠ entry).map weight).sum := by
  have hperm := (List.perm_cons_erase hentry).map weight
  rw [hperm.sum_eq, List.map_cons, List.sum_cons, hnodup.erase_eq_filter]
  congr 3
  refine List.filter_congr fun other _ ↦ ?_
  rw [decide_not]
  rfl

theorem globalActiveWaves_combinedUsage (baseline : AdmissionUsage)
    (contributions : List AdmissionUsage) :
    (combinedUsage baseline contributions).globalActiveWaves =
      baseline.globalActiveWaves +
        (contributions.map AdmissionUsage.globalActiveWaves).sum := by
  induction contributions generalizing baseline with
  | nil => rfl
  | cons contribution rest ih =>
    rw [combinedUsage, List.foldl_cons]
    refine (ih _).trans ?_
    simp only [addUsage, List.map_cons, List.sum_cons]
    omega

namespace Sweep

variable [Jitter] [ActionKeys] {locks : String → CampaignLock} {baseline : ReconcileContext}
  {campaignIds : List String} {sweep next : Sweep} {campaignId : String}

/-- What the active waves and what is pending add up to is within the global limit, and what is known
of the campaigns that are not applied now counts their active waves. -/
structure Bounded (locks : String → CampaignLock) (baseline : ReconcileContext)
    (campaignIds : List String) (sweep : Sweep) : Prop where
  ready : ∀ id ∈ campaignIds, (sweep.standings id).Ready (locks id)
  idle : ∀ id, sweep.current ≠ some id → (sweep.standings id).pending = []
  names : sweep.observed.keys = campaignIds
  todo : ∀ id ∈ sweep.todo, id ∈ campaignIds
  current : ∀ id, sweep.current = some id → id ∈ campaignIds
  load : (campaignIds.map fun id ↦ (sweep.standings id).load).sum ≤
    baseline.limits.globalActiveWaves
  known : ∀ id ∈ campaignIds, sweep.current ≠ some id → sweep.Known baseline id

namespace Bounded

omit [Jitter] [ActionKeys] in
theorem load_update (hnodup : campaignIds.Nodup) {id : String} (hid : id ∈ campaignIds)
    (standing : Standing) :
    (campaignIds.map fun other ↦ (sweep.update id standing other).load).sum =
      standing.load + ((campaignIds.filter fun other ↦ other ≠ id).map fun other ↦
        (sweep.standings other).load).sum := by
  rw [sum_map_of_mem hnodup hid fun other ↦ (sweep.update id standing other).load]
  congr 1
  · simp [update]
  · refine congrArg List.sum (List.map_congr_left fun other hother ↦ ?_)
    have hne : other ≠ id := by simpa using (List.mem_filter.mp hother).2
    rw [update, Function.update_of_ne hne]

omit [Jitter] [ActionKeys] in
theorem load_le (h : sweep.Bounded locks baseline campaignIds) (hnodup : campaignIds.Nodup)
    {id : String} (hid : id ∈ campaignIds) {standing : Standing}
    (hload : standing.load ≤ (sweep.standings id).load) :
    (campaignIds.map fun other ↦ (sweep.update id standing other).load).sum ≤
      baseline.limits.globalActiveWaves := by
  refine le_trans ?_ h.load
  rw [load_update hnodup hid, sum_map_of_mem hnodup hid fun other ↦ (sweep.standings other).load]
  exact Nat.add_le_add_right hload _

omit [Jitter] [ActionKeys] in
/-- The context of a campaign counts the others, unless nothing can be admitted. -/
theorem context_usage (h : sweep.Bounded locks baseline campaignIds) (hnodup : campaignIds.Nodup)
    (hcurrent : sweep.current = some campaignId) : baseline.limits.globalActiveWaves ≤
        (campaignContext baseline sweep.observed campaignId).usage.globalActiveWaves ∨
      ((campaignIds.filter fun other ↦ other ≠ campaignId).map fun other ↦
          (sweep.standings other).load).sum ≤
        (campaignContext baseline sweep.observed campaignId).usage.globalActiveWaves := by
  simp only [campaignContext]
  rw [globalActiveWaves_combinedUsage]
  by_cases hfull : baseline.limits.globalActiveWaves ≤ baseline.usage.globalActiveWaves
  · exact .inl (hfull.trans (Nat.le_add_right _ _))
  refine .inr (le_trans ?_ (Nat.le_add_left _ _))
  have hnames : campaignIds.filter (fun other ↦ other ≠ campaignId) =
      (sweep.observed.filter fun entry ↦ entry.1 ≠ campaignId).map Prod.fst := by
    rw [← h.names, Dict.keys, List.filter_map]
    rfl
  rw [hnames, List.map_map, List.map_map]
  refine List.sum_le_sum fun entry hentry ↦ ?_
  obtain ⟨hmem, hne⟩ := List.mem_filter.mp hentry
  have hother : sweep.current ≠ some entry.1 := by
    rw [hcurrent]
    intro heq
    exact (of_decide_eq_true hne) (Option.some.inj heq).symm
  have hkeys : sweep.observed.keys.Nodup := h.names ▸ hnodup
  have hid : entry.1 ∈ campaignIds := h.names ▸ List.mem_map_of_mem hmem
  obtain ⟨usage, husage, hle⟩ := (h.known entry.1 hid hother).resolve_left hfull
  rw [(Dict.get?_eq_some_iff hkeys).mpr hmem] at husage
  obtain rfl := Option.some.inj husage
  simpa [Standing.load, h.idle entry.1 hother] using hle

omit [Jitter] [ActionKeys] in
theorem known_update {id other : String} {standing : Standing} (hne : other ≠ id)
    (h : sweep.Known baseline other) :
    Known baseline { sweep with standings := sweep.update id standing } other := by
  refine h.imp_right fun ⟨usage, husage, hle⟩ ↦ ⟨usage, husage, ?_⟩
  simpa [update, Function.update_of_ne hne] using hle

omit [Jitter] [ActionKeys] in
theorem ready_update (h : sweep.Bounded locks baseline campaignIds) {id : String}
    {standing : Standing} (hready : standing.Ready (locks id)) :
    ∀ other ∈ campaignIds, (sweep.update id standing other).Ready (locks other) := by
  intro other hother
  by_cases heq : other = id
  · subst heq
    simpa [update] using hready
  · rw [update, Function.update_of_ne heq]
    exact h.ready other hother

omit [Jitter] [ActionKeys] in
theorem count_stop {id : String} :
    (sweep.update id { sweep.standings id with pending := [] } id).count .all =
      (sweep.standings id).count .all := by
  simp only [update, Function.update_self]
  rfl

/-- Every step of a sweep in which what is left unread is known keeps it within the limit. -/
theorem step (h : sweep.Bounded locks baseline campaignIds) (hnodup : campaignIds.Nodup)
    (hnone : baseline.deployments = []) (hstep : Step locks baseline (Known baseline) sweep next) :
    next.Bounded locks baseline campaignIds := by
  cases hstep with
  | @next id rest hidle htodo =>
    refine ⟨h.ready, fun other _ ↦ h.idle other (by simp [hidle]), h.names, ?_, ?_, h.load,
      fun other hother _ ↦ h.known other hother (by simp [hidle])⟩
    · exact fun other hother ↦ h.todo other (htodo ▸ List.mem_cons_of_mem _ hother)
    · rintro other hother
      obtain rfl := Option.some.inj hother
      exact h.todo _ (by rw [htodo]; exact List.mem_cons_self)
  | @work id standing hcurrent hwork =>
    have hid := h.current id hcurrent
    have hnone' : (campaignContext baseline sweep.observed id).deployments = [] := hnone
    obtain ⟨hready, hload⟩ := (h.ready id hid).step hnone' hwork
    refine ⟨h.ready_update hready, fun other hother ↦ ?_, h.names, h.todo, h.current, ?_, ?_⟩
    · have hne : other ≠ id := by
        rintro rfl
        exact hother hcurrent
      change (sweep.update id standing other).pending = []
      rw [update, Function.update_of_ne hne]
      exact h.idle other hother
    · rcases hload with hle | hroom
      · exact h.load_le hnodup hid hle
      · -- the plan fits beside what the context counts
        change (campaignIds.map fun other ↦ (sweep.update id standing other).load).sum ≤ _
        rw [load_update hnodup hid]
        have htotal := h.load
        rw [sum_map_of_mem hnodup hid fun other ↦ (sweep.standings other).load] at htotal
        have hcount : (sweep.standings id).count .all ≤ (sweep.standings id).load :=
          Nat.le_add_right _ _
        change _ ≤ max _ baseline.limits.globalActiveWaves at hroom
        rcases h.context_usage hnodup hcurrent with hfull | hknown
        · omega
        · omega
    · intro other hother hnot
      have hne : other ≠ id := by
        rintro rfl
        exact hnot hcurrent
      exact known_update hne (h.known other hother hnot)
  | @evidence id event hother hontime =>
    refine ⟨?_, fun other hnot ↦ ?_, h.names, h.todo, h.current, ?_, ?_⟩
    · intro other hmem
      by_cases heq : other = id
      · subst heq
        simpa [update] using (h.ready other hmem).record hontime
      · change (sweep.update id _ other).Ready (locks other)
        rw [update, Function.update_of_ne heq]
        exact h.ready other hmem
    · change (sweep.update id _ other).pending = []
      by_cases heq : other = id
      · subst heq
        simpa [update] using h.idle other hnot
      · rw [update, Function.update_of_ne heq]
        exact h.idle other hnot
    · by_cases hid : id ∈ campaignIds
      · exact h.load_le hnodup hid (Nat.add_le_add_right (Standing.count_record_le hontime .all) _)
      · refine le_trans (le_of_eq (congrArg List.sum (List.map_congr_left fun other hmem ↦ ?_)))
          h.load
        have hne : other ≠ id := fun heq ↦ hid (heq ▸ hmem)
        change (sweep.update id _ other).load = _
        rw [update, Function.update_of_ne hne]
    · intro other hmem hnot
      by_cases heq : other = id
      · subst heq
        refine (h.known other hmem hnot).imp_right fun ⟨usage, husage, hle⟩ ↦ ⟨usage, husage, ?_⟩
        have hcount := Standing.count_record_le hontime .all
        simpa [update] using hcount.trans hle
      · exact known_update heq (h.known other hmem hnot)
  | @refresh id usage hcurrent husage =>
    have hid := h.current id hcurrent
    have hready := (h.ready id hid).stop
    refine ⟨h.ready_update hready, fun other _ ↦ ?_, ?_, h.todo, nofun,
      h.load_le hnodup hid (Nat.le_add_right _ _), fun other hmem _ ↦ ?_⟩
    · change (sweep.update id _ other).pending = []
      by_cases heq : other = id
      · simp [update, heq]
      · rw [update, Function.update_of_ne heq]
        exact h.idle other (by rw [hcurrent]; exact fun hsome ↦ heq (Option.some.inj hsome).symm)
    · change (sweep.observed.set id usage).keys = campaignIds
      rw [Dict.keys_set, if_pos (h.names ▸ hid), h.names]
    · by_cases heq : other = id
      · subst heq
        refine .inr ⟨usage, Dict.get?_set_self, ?_⟩
        exact (le_of_eq count_stop).trans
          (le_of_eq (Standing.globalActiveWaves_admissionUsage (h.ready other hid).sound husage).symm)
      · have hnot : sweep.current ≠ some other := by
          rw [hcurrent]
          exact fun hsome ↦ heq (Option.some.inj hsome).symm
        refine (h.known other hmem hnot).imp_right fun ⟨usage', husage', hle⟩ ↦
          ⟨usage', ?_, ?_⟩
        · exact (Dict.get?_set_of_ne heq).trans husage'
        · simpa [update, Function.update_of_ne heq] using hle
  | @raise id hcurrent hraises =>
    have hid := h.current id hcurrent
    refine ⟨h.ready_update (h.ready id hid).stop, fun other _ ↦ ?_, h.names, h.todo, nofun,
      h.load_le hnodup hid (Nat.le_add_right _ _), fun other hmem _ ↦ ?_⟩
    · change (sweep.update id _ other).pending = []
      by_cases heq : other = id
      · simp [update, heq]
      · rw [update, Function.update_of_ne heq]
        exact h.idle other (by rw [hcurrent]; exact fun hsome ↦ heq (Option.some.inj hsome).symm)
    · by_cases heq : other = id
      · subst heq
        exact hraises.imp_right fun ⟨usage, husage, hle⟩ ↦
          ⟨usage, husage, (le_of_eq count_stop).trans hle⟩
      · refine known_update heq (h.known other hmem ?_)
        rw [hcurrent]
        exact fun hsome ↦ heq (Option.some.inj hsome).symm

end Bounded

omit [Jitter] [ActionKeys] in
theorem nodup_selectedCampaigns (campaignIds : List String) :
    (selectedCampaigns campaignIds).Nodup :=
  List.nodup_reverse.mpr (List.nodup_dedup _)

omit [Jitter] [ActionKeys] in
theorem mem_selectedCampaigns : campaignId ∈ selectedCampaigns campaignIds ↔
    campaignId ∈ campaignIds := by
  simp [selectedCampaigns]

variable {context : ReconcileContext} {standings : String → Standing} {readable : String → Bool}

omit [ActionKeys] in
/-- What is read at first counts the active waves, or the limit counts as used up. -/
theorem bounded_begin (hsound : ∀ id ∈ campaignIds, (standings id).Sound (locks id))
    (hidle : ∀ id, (standings id).pending = [])
    (hstart : (begin locks standings readable campaignIds).activeWaves
      (selectedCampaigns campaignIds) ≤ context.limits.globalActiveWaves) :
    Bounded locks (sweepBaseline context (unknown locks standings readable campaignIds))
      (selectedCampaigns campaignIds) (begin locks standings readable campaignIds) := by
  have hlimits : (sweepBaseline context (unknown locks standings readable
      campaignIds)).limits = context.limits := by
    unfold sweepBaseline
    split
    · rfl
    · rfl
  have hnames : (begin locks standings readable campaignIds).observed.keys =
      selectedCampaigns campaignIds := by
    simp only [begin, observeCampaigns, Dict.keys, List.map_map]
    exact List.map_id' _
  refine ⟨fun id hid ↦ ⟨hsound id (mem_selectedCampaigns.mp hid), ?_⟩, fun id _ ↦ hidle id, hnames,
    fun _ hid ↦ hid, fun id hid ↦ absurd hid (Option.some_ne_none id).symm, ?_, fun id hid _ ↦ ?_⟩
  · change ∀ action ∈ (standings id).pending, _
    simp [hidle id]
  · rw [hlimits]
    refine le_trans (le_of_eq (congrArg List.sum (List.map_congr_left fun id _ ↦ ?_))) hstart
    change (standings id).load = (standings id).count .all
    simp [Standing.load, hidle id]
  · by_cases hunknown : unknown locks standings readable campaignIds = true
    · refine .inl ?_
      rw [hlimits, hunknown]
      exact le_max_right _ _
    · refine .inr ?_
      have hread : ∀ entry ∈ observeCampaigns locks standings readable
          (selectedCampaigns campaignIds), entry.2.isSome = true := by
        intro entry hentry
        by_contra hnot
        refine hunknown (List.any_eq_true.mpr ⟨entry, hentry, ?_⟩)
        simpa using hnot
      have hmem : (id, if readable id then (admissionUsage (locks id) (standings id)).toOption
          else none) ∈ observeCampaigns locks standings readable (selectedCampaigns campaignIds) :=
        List.mem_map_of_mem hid
      obtain ⟨usage, hsome⟩ := Option.isSome_iff_exists.mp (hread _ hmem)
      have hget : (begin locks standings readable campaignIds).observed.get? id = some usage := by
        refine (Dict.get?_eq_some_iff (hnames ▸ nodup_selectedCampaigns campaignIds)).mpr ?_
        have hentry := List.mem_map_of_mem (f := fun entry : String × Option AdmissionUsage ↦
          (entry.1, entry.2.getD {})) hmem
        dsimp only at hsome hentry
        rw [hsome] at hentry
        exact hentry
      refine ⟨usage, hget, ?_⟩
      dsimp only at hsome
      split at hsome
      · cases hresult : admissionUsage (locks id) (standings id) with
        | error error =>
          rw [hresult] at hsome
          cases hsome
        | ok other =>
          rw [hresult] at hsome
          obtain rfl := Option.some.inj hsome
          exact le_of_eq (Standing.globalActiveWaves_admissionUsage
            (hsound id (mem_selectedCampaigns.mp hid)) hresult).symm
      · cases hsome

end Sweep

section Unread

variable [Jitter] [ActionKeys] {lock : CampaignLock} {context : ReconcileContext}
  {first standing next : Standing} {now : ℕ}

/-- Nothing billable is planned, and nothing is reserved but what was. -/
def Standing.Idles (first standing : Standing) : Prop :=
  (∀ action ∈ standing.pending, action.kind.billable = false) ∧
    ∀ action ∈ standing.reservations.values, action.kind.billable = true →
      action ∈ first.reservations.values

/-- With the global limit used up a pass plans nothing billable. -/
theorem Standing.Idles.plan (h : first.Idles standing)
    (hfull : context.limits.globalActiveWaves ≤ context.usage.globalActiveWaves)
    (hplan : standing.beginPass lock context now = .ok next) : first.Idles next := by
  unfold Standing.beginPass at hplan
  obtain ⟨planned, hplanned, hplan⟩ := bind_eq_ok.mp hplan
  obtain ⟨⟨projection, plan⟩, hread, hnext⟩ := bind_eq_ok.mp hplan
  cases hnext
  refine ⟨fun action haction ↦ ?_, h.2⟩
  obtain ⟨hlimits, husage⟩ : planned.limits = context.limits ∧
      context.usage.globalActiveWaves ≤ planned.usage.globalActiveWaves := by
    unfold contextWithUnobservedActions at hplanned
    obtain ⟨_, -, hplanned⟩ := bind_eq_ok.mp hplanned
    obtain ⟨unobserved, -, hplanned⟩ := bind_eq_ok.mp hplanned
    split at hplanned <;> cases hplanned
    · exact ⟨rfl, le_rfl⟩
    · exact ⟨rfl, by rw [globalActiveWaves_combinedUsage]; exact Nat.le_add_right _ _⟩
  obtain ⟨-, ⟨-, hempty, -⟩ | ⟨-, found, waiting, last, -, hlast, hactions, -⟩⟩ :=
    planReconciliation_eq_ok (mapError_eq_ok.mp hread)
  · rw [hempty] at haction
    cases haction
  obtain ⟨added, hadded, hroom⟩ := findRoom_admitCandidates hlast
  have hcounts := hroom.counts .all
  dsimp only at hcounts
  have hlimit : Scope.limit lock planned.limits .all ≤
      (initialUsage planned projection).count lock.campaignId .all := by
    rw [hlimits]
    exact hfull.trans (husage.trans (Nat.le_add_right _ _))
  have hnone : (added.map (ReconcileAction.demand .all)).sum = 0 := by omega
  have hmem : action ∈ added := by simpa [hactions, hadded] using haction
  have hdemand := List.sum_eq_zero_iff.mp hnone _ (List.mem_map_of_mem hmem)
  simpa [ReconcileAction.demand, ActiveAdmission.within, Scope.covers] using hdemand

theorem Standing.Idles.step {allows : Standing → CampaignEvent → Prop} (h : first.Idles standing)
    (hfull : context.limits.globalActiveWaves ≤ context.usage.globalActiveWaves)
    (hstep : Standing.Step lock context allows standing next) : first.Idles next := by
  cases hstep with
  | plan now hplan => exact h.plan hfull hplan
  | @reserve action rest event hpending hnew hbody =>
    rw [Standing.Idles, hpending] at h
    refine ⟨fun other hother ↦ h.1 other (List.mem_cons_of_mem _ hother), fun other hother ↦ ?_⟩
    rcases Dict.mem_values_set hother with rfl | hold
    · exact fun hbillable ↦ by simp [h.1 other] at hbillable
    · exact h.2 other hold
  | @reserved action rest hpending hknown =>
    rw [Standing.Idles, hpending] at h
    exact ⟨fun other hother ↦ h.1 other (List.mem_cons_of_mem _ hother), h.2⟩
  | stop => exact ⟨by simp, h.2⟩
  | record hallowed => exact h

end Unread

/-! ### Two campaigns -/

section Pair

local instance sweepJitter : Jitter := ⟨fun _ ↦ 0, zero_lt_byte⟩

local instance sweepKeys : ActionKeys := ⟨fun _ _ _ ↦ "key"⟩

/-- Campaigns of one shard each. -/
def sweptLock (campaignId : String) : CampaignLock :=
  { endpointLock with campaignId := campaignId }

def sweptStanding (campaignId : String) : Standing :=
  ⟨[⟨"submission", campaignId, 0, .cli, .campaignSubmitted "plan"⟩], [], [], 0⟩

/-- The submission that is planned for the shard of a campaign. -/
def sweptAction (campaignId : String) : ReconcileAction :=
  { kind := .submitWave
    deploymentDigest := "deployment"
    provider := "hf-inference-endpoints"
    waveId := some "wave-key"
    shardIds := ["shard"]
    targetIds := ["shard"]
    estimatedCostMicrousd := some 100
    actionId := "act-key"
    actionKey := "key"
    campaignId := campaignId }

def sweptReservation (campaignId : String) : CampaignEvent :=
  ⟨"reserved", campaignId, 1, .reconciler,
    .actionReserved ⟨"act-key", "key", .submitWave, ["shard"]⟩⟩

def sweptReserved (campaignId : String) : Standing :=
  ⟨(sweptStanding campaignId).events ++ [sweptReservation campaignId],
    [("act-key", sweptAction campaignId)], [], 0⟩

/-- A single active wave is allowed. -/
def oneWave : ReconcileContext := { limits := { globalActiveWaves := 1 } }

def sweptPair : List String := ["first", "second"]

/-- The sweep when a campaign is applied and has reserved its submission. -/
theorem reaches_reserved {raises : Sweep → String → Prop} {sweep : Sweep} {campaignId : String}
    {rest : List String} (hidle : sweep.current = none) (htodo : sweep.todo = campaignId :: rest)
    (hstanding : sweep.standings campaignId = sweptStanding campaignId)
    (hplan : (sweptStanding campaignId).beginPass (sweptLock campaignId)
      (campaignContext oneWave sweep.observed campaignId) 1 =
        .ok { sweptStanding campaignId with pending := [sweptAction campaignId] }) :
    Relation.ReflTransGen (Sweep.Step sweptLock oneWave raises) sweep
      { sweep with
        standings := sweep.update campaignId (sweptReserved campaignId)
        todo := rest
        current := some campaignId } := by
  have hnext : Sweep.Step sweptLock oneWave raises sweep
      { sweep with todo := rest, current := some campaignId } := .next hidle htodo
  have hpass : Sweep.Step sweptLock oneWave raises
      { sweep with todo := rest, current := some campaignId }
      { sweep with
        standings := sweep.update campaignId
          { sweptStanding campaignId with pending := [sweptAction campaignId] }
        todo := rest
        current := some campaignId } :=
    .work rfl (by
      change Standing.Step _ _ _ (sweep.standings campaignId) _
      rw [hstanding]
      exact .plan 1 hplan)
  have hreserve : Sweep.Step sweptLock oneWave raises
      { sweep with
        standings := sweep.update campaignId
          { sweptStanding campaignId with pending := [sweptAction campaignId] }
        todo := rest
        current := some campaignId }
      { sweep with
        standings := Function.update (sweep.update campaignId
          { sweptStanding campaignId with pending := [sweptAction campaignId] }) campaignId
          (sweptReserved campaignId)
        todo := rest
        current := some campaignId } := by
    refine .work rfl ?_
    change Standing.Step _ _ _ (Function.update sweep.standings campaignId _ campaignId) _
    rw [Function.update_self]
    exact @Standing.Step.reserve _ _ _ _ _
      { sweptStanding campaignId with pending := [sweptAction campaignId] } _ []
      (sweptReservation campaignId) rfl rfl rfl
  have hsame : Function.update (sweep.update campaignId
      { sweptStanding campaignId with pending := [sweptAction campaignId] }) campaignId
        (sweptReserved campaignId) = sweep.update campaignId (sweptReserved campaignId) :=
    Function.update_idem _ _ _
  rw [hsame] at hreserve
  exact ((Relation.ReflTransGen.single hnext).tail hpass).tail hreserve

theorem sound_swept (campaignId : String) :
    (sweptStanding campaignId).Sound (sweptLock campaignId) where
  keys := List.nodup_nil
  named := by simp [sweptStanding]
  reserved := by simp [sweptStanding]
  recorded := by simp [sweptStanding]
  waves := by simp [sweptStanding]

theorem begin_swept : Sweep.unknown sweptLock sweptStanding (fun _ ↦ true) sweptPair = false ∧
    (Sweep.begin sweptLock sweptStanding (fun _ ↦ true) sweptPair).observed =
      [("first", {}), ("second", {})] := by
  decide +kernel

theorem beginPass_first (campaignId : String) (hid : campaignId ∈ sweptPair) :
    (sweptStanding campaignId).beginPass (sweptLock campaignId)
      (campaignContext oneWave [("first", {}), ("second", {})] campaignId) 1 =
        .ok { sweptStanding campaignId with pending := [sweptAction campaignId] } := by
  have hall : ∀ campaignId ∈ sweptPair, (sweptStanding campaignId).beginPass (sweptLock campaignId)
      (campaignContext oneWave [("first", {}), ("second", {})] campaignId) 1 =
        .ok { sweptStanding campaignId with pending := [sweptAction campaignId] } := by
    decide +kernel
  exact hall campaignId hid

end Pair

end HarborHF.Campaign
