import HarborHF.Campaign.Apply

/-!
# What is in use

How the reconciler counts the waves that are active. A reserved action counts until it fails or its
wave is closed, and an observed wave counts until it is closed (`buildAdmissionUsage`); a wave that
is counted both ways counts once. A pass plans with the waves that its log shows and, on top of its
context, with the actions whose waves were not observed yet (`contextWithUnobservedActions`).

The limits are kept for all campaigns together, for each deployment, for each provider and for the
campaign. A `Scope` is one of them, so that what holds of every limit is stated once.
-/

set_option autoImplicit false

namespace HarborHF.Campaign

open Relational

/-! ### Active waves -/

/-- A wave as it counts against the limits. -/
structure ActiveAdmission where
  waveId : String
  deploymentDigest : String
  provider : String
  estimatedCostMicrousd : ℕ
  deriving DecidableEq

/-- The wave that an action is for. -/
def ReconcileAction.wave (action : ReconcileAction) : String :=
  (truthy action.waveId).getD (waveIdOf action.actionKey)

/-- An action that may have a wave. -/
def ActionStatus.inUse : ActionStatus → Bool
  | reserved | succeeded | ambiguous => true
  | failed => false

def ReconcileAction.admission (action : ReconcileAction) : ActiveAdmission :=
  ⟨action.wave, action.deploymentDigest, action.provider, action.estimatedCostMicrousd.getD 0⟩

def WaveProjection.admission (wave : WaveProjection) : ActiveAdmission :=
  ⟨wave.waveId, wave.deploymentDigest, wave.provider, wave.estimatedCostMicrousd⟩

/-- The record of a reserved action. -/
def reservationRecord (reservations : Dict String ReconcileAction) (actionId : String) :
    Except ApplyError ReconcileAction :=
  match reservations.get? actionId with
  | none => .error (.apply ("action event has no reservation record: " ++ actionId))
  | some action => .ok action

/-- The billable actions in use whose waves are not closed. -/
def activeActionAdmissions (projection : RecoveryProjection)
    (reservations : Dict String ReconcileAction) : Except ApplyError (List ActiveAdmission) := do
  let active := projection.campaign.actions.filter fun entry ↦
    entry.2.actionKind.billable && entry.2.status.inUse
  let actions ← active.mapM fun entry ↦ reservationRecord reservations entry.1
  return (actions.filter fun action ↦
    !(projection.waves.get? action.wave).any fun wave ↦ wave.status = .closed).map
      ReconcileAction.admission

/-! ### Usage -/

def uniqueAdmissions (admissions : List ActiveAdmission) : Dict String ActiveAdmission :=
  admissions.foldl (fun unique admission ↦ unique.set admission.waveId admission) []

def usageFromAdmissions (campaignId : String) (recordedSpend : ℕ)
    (admissions : List ActiveAdmission) : AdmissionUsage :=
  let unique := (uniqueAdmissions admissions).values
  let spend := recordedSpend + (unique.map ActiveAdmission.estimatedCostMicrousd).sum
  { globalActiveWaves := unique.length
    deploymentActiveWaves := unique.foldl
      (fun counts admission ↦ increase counts admission.deploymentDigest 1) []
    providerActiveWaves := unique.foldl
      (fun counts admission ↦ increase counts admission.provider 1) []
    campaignActiveWaves := if unique.length = 0 then [] else [(campaignId, unique.length)]
    campaignSpendMicrousd := if spend = 0 then [] else [(campaignId, spend)] }

/-- The loop `merge` of `_combined_usage`. -/
def mergeCounts (target source : Dict String ℕ) : Dict String ℕ :=
  source.foldl (fun counts entry ↦ increase counts entry.1 entry.2) target

def addUsage (usage contribution : AdmissionUsage) : AdmissionUsage :=
  { globalActiveWaves := usage.globalActiveWaves + contribution.globalActiveWaves
    deploymentActiveWaves :=
      mergeCounts usage.deploymentActiveWaves contribution.deploymentActiveWaves
    providerActiveWaves := mergeCounts usage.providerActiveWaves contribution.providerActiveWaves
    campaignActiveWaves := mergeCounts usage.campaignActiveWaves contribution.campaignActiveWaves
    campaignSpendMicrousd :=
      mergeCounts usage.campaignSpendMicrousd contribution.campaignSpendMicrousd }

def combinedUsage (baseline : AdmissionUsage) (contributions : List AdmissionUsage) :
    AdmissionUsage :=
  contributions.foldl addUsage baseline

/-- The usage of one campaign. -/
def buildAdmissionUsage (campaignId : String) (projection : RecoveryProjection)
    (reservations : Dict String ReconcileAction) : Except ApplyError AdmissionUsage := do
  let actions ← activeActionAdmissions projection reservations
  let closed := projection.waves.values.filter fun wave ↦ wave.status = .closed
  return usageFromAdmissions campaignId
    (projection.spendMicrousd + (closed.map WaveProjection.estimatedCostMicrousd).sum)
    ((openWaves projection).map WaveProjection.admission ++ actions)

/-- The active actions whose waves were not observed. -/
def unobservedAdmissions (projection : RecoveryProjection)
    (reservations : Dict String ReconcileAction) : Except ApplyError (List ActiveAdmission) := do
  let actions ← activeActionAdmissions projection reservations
  return actions.filter fun admission ↦ (projection.waves.get? admission.waveId).isNone

def contextWithUnobservedActions [Jitter] (lock : CampaignLock) (events : List CampaignEvent)
    (reservations : Dict String ReconcileAction) (baseline : ReconcileContext) :
    Except ApplyError ReconcileContext := do
  let projection ← (projectRecovery lock events).mapError .campaign
  let unobserved ← unobservedAdmissions projection reservations
  if unobserved = [] then return baseline
  else
    return { baseline with
      usage := combinedUsage baseline.usage [usageFromAdmissions lock.campaignId 0 unobserved] }

/-- The provider of the waves of a deployment. -/
def waveProvider (lock : CampaignLock) (deployment : String) : String :=
  (truthy ((lock.runs.find? fun run ↦ run.deploymentDigest = deployment).bind
    fun run ↦ run.provider)).getD "hf-inference-endpoints"

/-! ### Counts -/

/-- What a dictionary counts for a key. -/
def countOf (counts : Dict String ℕ) (key : String) : ℕ := (counts.get? key).getD 0

section Counts

variable {α : Type} {counts : Dict String ℕ} {key : String}

@[simp] theorem countOf_nil : countOf [] key = 0 := rfl

theorem countOf_increase (name : String) (amount : ℕ) : countOf (increase counts name amount) key =
      countOf counts key + if name = key then amount else 0 := by
  unfold countOf increase
  rw [Dict.get?_set]
  by_cases h : name = key
  · rw [if_pos h.symm, if_pos h, h]
    rfl
  · rw [if_neg (Ne.symm h), if_neg h, Nat.add_zero]

theorem countOf_foldl_increase (name : α → String) (amount : α → ℕ) (list : List α) :
    countOf (list.foldl (fun counts entry ↦ increase counts (name entry) (amount entry)) counts) key =
      countOf counts key + ((list.filter fun entry ↦ name entry = key).map amount).sum := by
  induction list generalizing counts with
  | nil => simp
  | cons entry rest ih =>
    rw [List.foldl_cons, ih, countOf_increase]
    by_cases h : name entry = key
    · simp [h, Nat.add_assoc]
    · simp [h]

theorem countOf_foldl_increase_one (name : α → String) (list : List α) :
    countOf (list.foldl (fun counts entry ↦ increase counts (name entry) 1) counts) key =
      countOf counts key + (list.filter fun entry ↦ name entry = key).length := by
  rw [countOf_foldl_increase name fun _ ↦ 1]
  simp

theorem nodup_keys_foldl_increase (name : α → String) (amount : α → ℕ) (list : List α)
    (h : counts.keys.Nodup) :
    (list.foldl (fun counts entry ↦ increase counts (name entry) (amount entry))
      counts).keys.Nodup := by
  induction list generalizing counts with
  | nil => exact h
  | cons entry rest ih => exact ih (Dict.nodup_keys_set h)

/-- In a dictionary the entries with a key are the one of the key. -/
theorem sum_of_key {source : Dict String ℕ} (h : source.keys.Nodup) :
    ((source.filter fun entry ↦ entry.1 = key).map Prod.snd).sum = countOf source key := by
  induction source with
  | nil => rfl
  | cons entry rest ih =>
    obtain ⟨name, amount⟩ := entry
    obtain ⟨hfirst, hrest⟩ := List.nodup_cons.mp h
    by_cases hname : name = key
    · have hnone : rest.filter (fun entry ↦ entry.1 = key) = [] := by
        rw [List.filter_eq_nil_iff]
        intro entry hentry
        have hne : entry.1 ≠ key := fun heq ↦
          hfirst (List.mem_map.mpr ⟨entry, hentry, heq.trans hname.symm⟩)
        simpa using hne
      simp [hname, hnone, countOf, Dict.get?]
    · rw [List.filter_cons_of_neg (by simpa using hname), ih hrest]
      simp [countOf, Dict.get?, hname]

theorem countOf_mergeCounts {source : Dict String ℕ} (h : source.keys.Nodup) :
    countOf (mergeCounts counts source) key = countOf counts key + countOf source key := by
  unfold mergeCounts
  rw [countOf_foldl_increase, sum_of_key h]

end Counts

/-! ### Scopes -/

/-- What a limit is for. -/
inductive Scope
  | all
  | deployment (digest : String)
  | provider (name : String)
  | campaign
  deriving DecidableEq

/-- The waves that count against the limit of a scope. -/
def Scope.covers (scope : Scope) (deploymentDigest provider : String) : Bool :=
  match scope with
  | .all | .campaign => true
  | .deployment digest => deploymentDigest = digest
  | .provider name => provider = name

def Scope.limit (lock : CampaignLock) (limits : AdmissionLimits) : Scope → ℕ
  | .all => limits.globalActiveWaves
  | .deployment _ => limits.deploymentActiveWaves
  | .provider _ => limits.providerActiveWaves
  | .campaign => min limits.campaignActiveWaves lock.recoveryPolicy.maxActiveWaves

def AdmissionUsage.count (usage : AdmissionUsage) (campaignId : String) : Scope → ℕ
  | .all => usage.globalActiveWaves
  | .deployment digest => countOf usage.deploymentActiveWaves digest
  | .provider name => countOf usage.providerActiveWaves name
  | .campaign => countOf usage.campaignActiveWaves campaignId

def MutableUsage.count (usage : MutableUsage) (campaignId : String) : Scope → ℕ
  | .all => usage.globalWaves
  | .deployment digest => countOf usage.deployments digest
  | .provider name => countOf usage.providers name
  | .campaign => countOf usage.campaigns campaignId

def ActiveAdmission.within (scope : Scope) (admission : ActiveAdmission) : Bool :=
  scope.covers admission.deploymentDigest admission.provider

section Scopes

variable {campaignId : String} {admissions : List ActiveAdmission} {scope : Scope}

theorem within_all : ActiveAdmission.within .all = fun _ ↦ true := rfl

theorem within_campaign : ActiveAdmission.within .campaign = fun _ ↦ true := rfl

theorem nodup_keys_uniqueAdmissions (admissions : List ActiveAdmission) :
    (uniqueAdmissions admissions).keys.Nodup :=
  Dict.nodup_keys_foldl_set List.nodup_nil

/-- What is used is what the waves use that count. -/
theorem count_usageFromAdmissions (recordedSpend : ℕ) :
    (usageFromAdmissions campaignId recordedSpend admissions).count campaignId scope =
      ((uniqueAdmissions admissions).values.filter (ActiveAdmission.within scope)).length := by
  cases scope with
  | all => simp [AdmissionUsage.count, usageFromAdmissions, within_all]
  | deployment digest =>
    simp only [AdmissionUsage.count, usageFromAdmissions]
    rw [countOf_foldl_increase_one, countOf_nil, Nat.zero_add]
    rfl
  | provider name =>
    simp only [AdmissionUsage.count, usageFromAdmissions]
    rw [countOf_foldl_increase_one, countOf_nil, Nat.zero_add]
    rfl
  | campaign =>
    simp only [AdmissionUsage.count, usageFromAdmissions]
    split
    · rename_i hnone
      rw [List.length_eq_zero_iff] at hnone
      simp [hnone]
    · simp [countOf, Dict.get?, within_campaign]

theorem spend_usageFromAdmissions (recordedSpend : ℕ) :
    countOf (usageFromAdmissions campaignId recordedSpend admissions).campaignSpendMicrousd
        campaignId =
      recordedSpend + ((uniqueAdmissions admissions).values.map
        ActiveAdmission.estimatedCostMicrousd).sum := by
  simp only [usageFromAdmissions]
  split
  · rename_i hzero
    simp [hzero]
  · simp [countOf, Dict.get?]

/-- The counts of a usage that one campaign contributes are dictionaries. -/
theorem count_addUsage (baseline : AdmissionUsage) (recordedSpend : ℕ) :
    (addUsage baseline (usageFromAdmissions campaignId recordedSpend admissions)).count
        campaignId scope =
      baseline.count campaignId scope +
        (usageFromAdmissions campaignId recordedSpend admissions).count campaignId scope := by
  cases scope with
  | all => rfl
  | deployment digest =>
    exact countOf_mergeCounts
      (nodup_keys_foldl_increase ActiveAdmission.deploymentDigest (fun _ ↦ 1) _ List.nodup_nil)
  | provider name =>
    exact countOf_mergeCounts
      (nodup_keys_foldl_increase ActiveAdmission.provider (fun _ ↦ 1) _ List.nodup_nil)
  | campaign =>
    refine countOf_mergeCounts ?_
    simp only [usageFromAdmissions]
    split <;> simp [Dict.keys]

theorem spend_addUsage (baseline : AdmissionUsage) (recordedSpend : ℕ) : countOf (addUsage baseline
        (usageFromAdmissions campaignId recordedSpend admissions)).campaignSpendMicrousd campaignId =
      countOf baseline.campaignSpendMicrousd campaignId +
        countOf (usageFromAdmissions campaignId recordedSpend admissions).campaignSpendMicrousd
          campaignId := by
  refine countOf_mergeCounts ?_
  simp only [usageFromAdmissions]
  split <;> simp [Dict.keys]

/-- The usage that a loop over the candidates starts from. -/
theorem count_initialUsage (context : ReconcileContext) (projection : RecoveryProjection) :
    (initialUsage context projection).count projection.campaign.campaignId scope =
      context.usage.count projection.campaign.campaignId scope +
        ((openWaves projection).filter fun wave ↦ wave.admission.within scope).length := by
  cases scope with
  | all =>
    simp [MutableUsage.count, AdmissionUsage.count, initialUsage, within_all]
  | deployment digest =>
    simp only [MutableUsage.count, AdmissionUsage.count, initialUsage]
    rw [countOf_foldl_increase_one WaveProjection.deploymentDigest]
    rfl
  | provider name =>
    simp only [MutableUsage.count, AdmissionUsage.count, initialUsage]
    rw [countOf_foldl_increase_one WaveProjection.provider]
    rfl
  | campaign =>
    simp only [MutableUsage.count, AdmissionUsage.count, initialUsage]
    rw [countOf_foldl_increase_one fun _ ↦ projection.campaign.campaignId]
    simp [within_campaign]

theorem spend_initialUsage (context : ReconcileContext) (projection : RecoveryProjection) :
    countOf (initialUsage context projection).spend projection.campaign.campaignId =
      countOf context.usage.campaignSpendMicrousd projection.campaign.campaignId +
        (projection.spendMicrousd + waveEstimates projection) := by
  simp only [initialUsage]
  rw [countOf_increase, if_pos rfl]

end Scopes

end HarborHF.Campaign
