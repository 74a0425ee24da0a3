import Mathlib.Computability.RegularExpressions
import HarborHF.Numbers.Rounding
import HarborHF.Prepared.ImageLocks
import HarborHF.Relational.Fold

/-!
# The Sandbox policy of a prepared trial

The policy of a task's Sandbox follows from the deployment's template and the prepared trial: the
cheapest flavor that is large enough, the time limits of the trial and the reservation for the whole
lifetime. The record schema checks templates, trials and policies apart, each field on its own.

The seconds and sizes are whole numbers far below `2 ^ 53` and exact as numbers of the language; a
price times a duration is not, so its product and quotient are rounded as those numbers are.
-/

set_option autoImplicit false

namespace HarborHF.Prepared

open Numbers Relational

/-! ### Records -/

inductive InferenceToken
  | forbidden | required
  deriving DecidableEq

inductive InferenceApi
  | chatCompletions | responses
  deriving DecidableEq

structure SandboxFlavor where
  hardware : String
  cpus : ℕ
  memoryMb : ℕ
  storageMb : ℕ
  gpus : ℕ
  activeHourlyCostMicrousd : ℕ
  deriving DecidableEq

/-- The fields a template passes on to its policies. -/
structure SandboxBase where
  maxSandboxes : ℕ
  maxCommands : ℕ
  maxCommandSeconds : ℕ
  maxTransferBytes : ℕ
  allowedRoots : List String
  inferenceToken : Option InferenceToken
  inferenceUpstream : Option String
  inferenceModel : Option String
  inferenceApi : Option InferenceApi
  inferenceMaxRequests : Option ℕ
  inferenceMaxConcurrency : Option ℕ
  inferenceTimeoutSeconds : Option ℕ
  inferenceMaxOutputTokens : Option ℕ
  rootBootstrapCommand : Option (List String)
  deriving DecidableEq

structure SandboxTemplate extends SandboxBase where
  flavors : List SandboxFlavor
  defaultCpus : ℕ
  defaultMemoryMb : ℕ
  defaultStorageMb : ℕ
  defaultGpus : ℕ
  maxTimeoutSeconds : ℕ
  lifetimeOverheadSeconds : ℕ
  idleTimeoutOverheadSeconds : ℕ
  deriving DecidableEq

structure SandboxPolicy extends SandboxBase where
  image : String
  hardware : String
  timeoutSeconds : ℕ
  idleTimeoutSeconds : ℕ
  reservationMicrousd : ℕ
  activeHourlyCostMicrousd : ℕ
  deriving DecidableEq

/-- The task of a prepared trial, its image, its resources and its time limits. -/
structure PreparedTrial where
  taskId : String
  image : String
  cpus : ℕ
  memoryMb : ℕ
  storageMb : ℕ
  gpus : ℕ
  agentTimeoutSeconds : ℕ
  verifierTimeoutSeconds : ℕ
  environmentBuildTimeoutSeconds : ℕ
  agentSetupTimeoutSeconds : ℕ
  deriving DecidableEq

/-- The route of a deployment, with the template of a Job deployment. -/
inductive DeploymentProfileSpec
  | hfJob (sandboxTemplate : Option SandboxTemplate)
  | imported
  deriving DecidableEq

/-! ### The record schema -/

/-- `minimum` and `maximum`. -/
def Within (low high value : ℕ) : Prop := low ≤ value ∧ value ≤ high

instance (low high value : ℕ) : Decidable (Within low high value) :=
  inferInstanceAs (Decidable (_ ∧ _))

/-- `^.+@sha256:[0-9a-f]{64}$`; the dot matches no line terminator. -/
def imageMatches (image : String) : Bool :=
  let chars := image.toList
  let name := chars.take (chars.length - 72)
  let digest := chars.drop (chars.length - 71)
  !name.isEmpty && name.all (fun char ↦ !(['\n', '\r', '\u2028', '\u2029'].contains char)) &&
    (chars.drop (chars.length - 72)).head? == some '@' && digestMatches digest

def oneOf (chars : String) : RegularExpression Char :=
  chars.toList.foldr (fun char rest ↦ .char char + rest) 0

def literal (text : String) : RegularExpression Char :=
  text.toList.foldr (fun char rest ↦ .char char * rest) 1

def oneOrMore (pattern : RegularExpression Char) : RegularExpression Char := pattern * pattern.star

def lowerLetters : String := "abcdefghijklmnopqrstuvwxyz"

def digits : String := "0123456789"

/-- The pattern of `inference_upstream`. -/
def upstreamPattern : RegularExpression Char :=
  let label := oneOrMore (oneOf (lowerLetters ++ digits ++ "-"))
  let scopes := oneOrMore (oneOf (lowerLetters.map Char.toUpper ++ lowerLetters ++ digits ++ "._~/-"))
  literal "https://" *
    (literal "router.huggingface.co" +
      label * (literal "." * label).star * literal ".endpoints.huggingface.cloud" +
      label * literal ".hf.jobs/scopes/" * scopes) *
    (literal "/v1" + 1)

/-- The checks that `SandboxTemplate` and `SandboxPolicy` share. -/
structure SandboxBase.Accepted (base : SandboxBase) : Prop where
  maxSandboxes : Within 1 1024 base.maxSandboxes
  maxCommands : Within 1 4096 base.maxCommands
  maxCommandSeconds : Within 1 86400 base.maxCommandSeconds
  maxTransferBytes : Within 1 67108864 base.maxTransferBytes
  allowedRootsCount : Within 1 32 base.allowedRoots.length
  allowedRootsUnique : base.allowedRoots.Nodup
  allowedRoots : ∀ root ∈ base.allowedRoots, root.toList.head? = some '/' ∧ root.length ≤ 512
  inferenceUpstream : ∀ upstream ∈ base.inferenceUpstream,
    upstreamPattern.rmatch upstream.toList = true ∧ upstream.length ≤ 1024
  inferenceModel : ∀ model ∈ base.inferenceModel, Within 1 512 model.length
  inferenceMaxRequests : ∀ count ∈ base.inferenceMaxRequests, Within 1 4096 count
  inferenceMaxConcurrency : ∀ count ∈ base.inferenceMaxConcurrency, Within 1 64 count
  inferenceTimeoutSeconds : ∀ seconds ∈ base.inferenceTimeoutSeconds, Within 1 3600 seconds
  inferenceMaxOutputTokens : ∀ count ∈ base.inferenceMaxOutputTokens, Within 1 1048576 count
  rootBootstrapCommand : ∀ command ∈ base.rootBootstrapCommand,
    Within 1 128 command.length ∧ ∀ word ∈ command, word.length ≤ 4096
  required : base.inferenceToken = some .required →
    base.inferenceUpstream.isSome ∧ base.inferenceModel.isSome ∧ base.inferenceApi.isSome ∧
      base.inferenceMaxRequests.isSome ∧ base.inferenceMaxConcurrency.isSome ∧
      base.inferenceTimeoutSeconds.isSome ∧ base.inferenceMaxOutputTokens.isSome ∧
      base.rootBootstrapCommand.isSome

structure SandboxFlavor.Accepted (flavor : SandboxFlavor) : Prop where
  hardware : Within 1 160 flavor.hardware.length
  cpus : Within 1 1024 flavor.cpus
  memoryMb : Within 1 4194304 flavor.memoryMb
  storageMb : Within 1 16777216 flavor.storageMb
  gpus : Within 0 64 flavor.gpus
  activeHourlyCostMicrousd : Within 0 1000000000000 flavor.activeHourlyCostMicrousd

structure SandboxTemplate.Accepted (template : SandboxTemplate) : Prop where
  base : template.toSandboxBase.Accepted
  flavorsCount : Within 1 32 template.flavors.length
  flavors : ∀ flavor ∈ template.flavors, flavor.Accepted
  defaultCpus : Within 1 1024 template.defaultCpus
  defaultMemoryMb : Within 1 4194304 template.defaultMemoryMb
  defaultStorageMb : Within 1 16777216 template.defaultStorageMb
  defaultGpus : Within 0 64 template.defaultGpus
  maxTimeoutSeconds : Within 60 86400 template.maxTimeoutSeconds
  lifetimeOverheadSeconds : Within 0 86400 template.lifetimeOverheadSeconds
  idleTimeoutOverheadSeconds : Within 0 86400 template.idleTimeoutOverheadSeconds

structure SandboxPolicy.Accepted (policy : SandboxPolicy) : Prop where
  base : policy.toSandboxBase.Accepted
  image : imageMatches policy.image = true ∧ policy.image.length ≤ 1024
  hardware : Within 1 160 policy.hardware.length
  timeoutSeconds : Within 60 86400 policy.timeoutSeconds
  idleTimeoutSeconds : Within 60 86400 policy.idleTimeoutSeconds
  reservationMicrousd : Within 0 1000000000000 policy.reservationMicrousd
  activeHourlyCostMicrousd : Within 0 1000000000000 policy.activeHourlyCostMicrousd

structure PreparedTrial.Accepted (trial : PreparedTrial) : Prop where
  image : imageMatches trial.image = true ∧ trial.image.length ≤ 1024
  cpus : Within 1 1024 trial.cpus
  memoryMb : Within 1 4194304 trial.memoryMb
  storageMb : Within 1 16777216 trial.storageMb
  gpus : Within 0 64 trial.gpus
  agentTimeoutSeconds : Within 1 86400 trial.agentTimeoutSeconds
  verifierTimeoutSeconds : Within 1 86400 trial.verifierTimeoutSeconds
  environmentBuildTimeoutSeconds : Within 1 86400 trial.environmentBuildTimeoutSeconds
  agentSetupTimeoutSeconds : Within 1 86400 trial.agentSetupTimeoutSeconds

/-! ### The policy -/

/-- The flavor offers at least what the trial asks for. -/
def SandboxFlavor.Fits (flavor : SandboxFlavor) (trial : PreparedTrial) : Prop :=
  trial.cpus ≤ flavor.cpus ∧ trial.memoryMb ≤ flavor.memoryMb ∧
    trial.storageMb ≤ flavor.storageMb ∧ trial.gpus ≤ flavor.gpus

instance (flavor : SandboxFlavor) (trial : PreparedTrial) : Decidable (flavor.Fits trial) :=
  inferInstanceAs (Decidable (_ ∧ _))

section Policy

variable (localeCompare : String → String → Ordering)

/-- By price, then by size, then by name. -/
def compareFlavors : SandboxFlavor → SandboxFlavor → Ordering :=
  compareLex (compareOn (·.activeHourlyCostMicrousd)) <| compareLex (compareOn (·.gpus)) <|
    compareLex (compareOn (·.cpus)) <| compareLex (compareOn (·.memoryMb)) <|
      compareLex (compareOn (·.storageMb)) fun left right ↦
        localeCompare left.hardware right.hardware

def selectFlavor (template : SandboxTemplate) (trial : PreparedTrial) :
    Except String SandboxFlavor :=
  let fitting := template.flavors.filter fun flavor ↦ flavor.Fits trial
  match (fitting.mergeSort fun left right ↦ (compareFlavors localeCompare left right).isLE).head? with
  | none => .error s!"no Sandbox flavor can run prepared task: {trial.taskId}"
  | some selected => .ok selected

/-- A number of the language: 53 bits of significand. -/
def toNumber (x : ℚ) : ℚ := roundTo 53 x

/-- `Math.ceil((activeHourlyCost * timeoutSeconds) / 3600)`. -/
def reservationMicrousd (activeHourlyCost timeoutSeconds : ℕ) : ℕ :=
  ⌈toNumber (toNumber (activeHourlyCost * timeoutSeconds) / 3600)⌉₊

def maxCommandSeconds (trial : PreparedTrial) : ℕ :=
  max trial.agentTimeoutSeconds (max trial.verifierTimeoutSeconds
    (max trial.environmentBuildTimeoutSeconds trial.agentSetupTimeoutSeconds))

def timeoutSeconds (template : SandboxTemplate) (trial : PreparedTrial) : ℕ :=
  trial.agentTimeoutSeconds + trial.verifierTimeoutSeconds + trial.environmentBuildTimeoutSeconds +
    trial.agentSetupTimeoutSeconds + template.lifetimeOverheadSeconds

/-- The policy of a trial on a flavor. -/
def policyFor (template : SandboxTemplate) (trial : PreparedTrial) (flavor : SandboxFlavor) :
    SandboxPolicy :=
  { template.toSandboxBase with
    image := trial.image
    hardware := flavor.hardware
    timeoutSeconds := timeoutSeconds template trial
    idleTimeoutSeconds := min (timeoutSeconds template trial)
      (maxCommandSeconds trial + template.idleTimeoutOverheadSeconds)
    reservationMicrousd :=
      reservationMicrousd flavor.activeHourlyCostMicrousd (timeoutSeconds template trial)
    activeHourlyCostMicrousd := flavor.activeHourlyCostMicrousd
    maxCommandSeconds := maxCommandSeconds trial }

def preparedSandboxPolicy (deployment : DeploymentProfileSpec) (trial : PreparedTrial) :
    Except String SandboxPolicy :=
  match deployment with
  | .hfJob (some template) => do
    let flavor ← selectFlavor localeCompare template trial
    if maxCommandSeconds trial > template.maxCommandSeconds ∨
        timeoutSeconds template trial > template.maxTimeoutSeconds then
      throw s!"prepared task time limits exceed deployment limits: {trial.taskId}"
    else return policyFor template trial flavor
  | _ => .error "deployment has no prepared Sandbox template"

end Policy

/-! ### The reservation -/

theorem toNumber_mono {x y : ℚ} (hx : 0 ≤ x) (h : x ≤ y) : toNumber x ≤ toNumber y :=
  roundTo_mono (by decide) hx h

theorem toNumber_natCast {n : ℕ} (h : n < 2 ^ 53) : toNumber n = n := by
  have hfits := roundTo_of_fits h 0
  rwa [zpow_zero, mul_one] at hfits

/-- A quotient above a whole number stays above it: between the two lies a number that fits, the whole
number and one part in `2 ^ 13`. -/
theorem lt_toNumber_div {count product : ℕ} (hcount : count ≤ 1000000000000)
    (h : count * 3600 < product) : (count : ℚ) < toNumber (product / 3600) := by
  have hlt : count * 2 ^ 13 + 1 < 2 ^ 53 := calc
    count * 2 ^ 13 + 1 ≤ 1000000000000 * 2 ^ 13 + 1 := by gcongr
    _ < 2 ^ 53 := by norm_num
  have hfits : toNumber ((count * 2 ^ 13 + 1 : ℕ) * 2 ^ (-13 : ℤ)) =
      (count * 2 ^ 13 + 1 : ℕ) * 2 ^ (-13 : ℤ) := by
    unfold toNumber
    exact roundTo_of_fits hlt (-13)
  have hpart : ((count * 2 ^ 13 + 1 : ℕ) : ℚ) * 2 ^ (-13 : ℤ) = count + 1 / 8192 := by
    push_cast
    norm_num
    ring
  have hle : (count : ℚ) + 1 / 8192 ≤ product / 3600 := by
    have hcast : (count : ℚ) * 3600 + 1 ≤ product := by exact_mod_cast h
    linarith
  have hmono := toNumber_mono (by positivity) hle
  rw [← hpart, hfits, hpart] at hmono
  linarith

theorem le_reservationMicrousd {hourly seconds : ℕ} (h : hourly * seconds ≤ 3600 * 1000000000000) :
    hourly * seconds ≤ reservationMicrousd hourly seconds * 3600 := by
  have hproduct : toNumber ((hourly : ℚ) * seconds) = (hourly * seconds : ℕ) := by
    rw [← Nat.cast_mul]
    exact toNumber_natCast (by omega)
  by_contra hlt
  have hsmall : reservationMicrousd hourly seconds ≤ 1000000000000 := by omega
  have hcount := lt_toNumber_div hsmall (not_le.mp hlt)
  rw [← hproduct] at hcount
  exact absurd (Nat.le_ceil _) (not_le.mpr hcount)

/-- The reservation is within the schema's bound exactly when the price of the lifetime is. -/
theorem reservationMicrousd_le_iff (hourly seconds : ℕ) :
    reservationMicrousd hourly seconds ≤ 1000000000000 ↔
      hourly * seconds ≤ 3600 * 1000000000000 := by
  have hlast : toNumber ((3600 * 1000000000000 + 1 : ℕ) : ℚ) = (3600 * 1000000000000 + 1 : ℕ) :=
    toNumber_natCast (by norm_num)
  unfold reservationMicrousd
  rw [Nat.ceil_le]
  constructor
  · intro h
    by_contra hlt
    have hproduct : ((3600 * 1000000000000 + 1 : ℕ) : ℚ) ≤ toNumber ((hourly : ℚ) * seconds) := by
      rw [← hlast, ← Nat.cast_mul]
      exact toNumber_mono (Nat.cast_nonneg _) (Nat.cast_le.mpr (by omega))
    have hquotient := toNumber_mono (by positivity)
      (div_le_div_of_nonneg_right hproduct (show (0 : ℚ) ≤ 3600 by norm_num))
    have hcount := lt_toNumber_div (le_refl 1000000000000)
      (show 1000000000000 * 3600 < 3600 * 1000000000000 + 1 by norm_num)
    exact absurd (hcount.trans_le hquotient) (not_lt.mpr h)
  · intro h
    have hproduct : toNumber ((hourly : ℚ) * seconds) = (hourly * seconds : ℕ) := by
      rw [← Nat.cast_mul]
      exact toNumber_natCast (by omega)
    have hle : ((hourly * seconds : ℕ) : ℚ) / 3600 ≤ (1000000000000 : ℕ) := by
      have hcast : ((hourly * seconds : ℕ) : ℚ) ≤ (3600 * 1000000000000 : ℕ) := Nat.cast_le.mpr h
      push_cast at hcast ⊢
      linarith
    have hmono := toNumber_mono (by positivity) hle
    rwa [toNumber_natCast (by norm_num), ← hproduct] at hmono

/-! ### The flavor -/

section Flavor

variable {localeCompare : String → String → Ordering} [Std.TransCmp localeCompare]
  {template : SandboxTemplate} {trial : PreparedTrial}

instance : Std.TransCmp (compareFlavors localeCompare) := by
  have hname : Std.TransCmp fun left right : SandboxFlavor ↦
      localeCompare left.hardware right.hardware :=
    { eq_swap := Std.OrientedCmp.eq_swap
      isLE_trans := Std.TransCmp.isLE_trans }
  unfold compareFlavors
  infer_instance

omit [Std.TransCmp localeCompare] in
theorem price_le_of_isLE {left right : SandboxFlavor}
    (h : (compareFlavors localeCompare left right).isLE = true) :
    left.activeHourlyCostMicrousd ≤ right.activeHourlyCostMicrousd := by
  unfold compareFlavors compareLex at h
  rw [Ordering.isLE_then_iff_and] at h
  exact Nat.isLE_compare.mp h.1

/-- The selected flavor fits, and no fitting flavor of the template has a lower price. -/
theorem cheapest_of_selectFlavor {flavor : SandboxFlavor}
    (h : selectFlavor localeCompare template trial = .ok flavor) :
    flavor ∈ template.flavors ∧ flavor.Fits trial ∧
      ∀ other ∈ template.flavors, other.Fits trial →
        flavor.activeHourlyCostMicrousd ≤ other.activeHourlyCostMicrousd := by
  have htrans : ∀ a b c : SandboxFlavor, (compareFlavors localeCompare a b).isLE = true →
      (compareFlavors localeCompare b c).isLE = true →
      (compareFlavors localeCompare a c).isLE = true :=
    fun _ _ _ ↦ Std.TransCmp.isLE_trans
  have htotal : ∀ a b : SandboxFlavor, ((compareFlavors localeCompare a b).isLE ||
      (compareFlavors localeCompare b a).isLE) = true := by
    intro a b
    have hswap : compareFlavors localeCompare b a = (compareFlavors localeCompare a b).swap :=
      Std.OrientedCmp.eq_swap
    rw [hswap]
    cases compareFlavors localeCompare a b <;> rfl
  have hsorted := List.pairwise_mergeSort htrans htotal
    (template.flavors.filter fun flavor ↦ flavor.Fits trial)
  have hmem : ∀ other : SandboxFlavor, other ∈ (template.flavors.filter fun flavor ↦
      flavor.Fits trial).mergeSort (fun left right ↦ (compareFlavors localeCompare left right).isLE) ↔
      other ∈ template.flavors ∧ other.Fits trial := by
    intro other
    rw [List.mem_mergeSort, List.mem_filter, decide_eq_true_eq]
  unfold selectFlavor at h
  dsimp only at h
  split at h
  · cases h
  · rename_i selected hhead
    cases h
    obtain ⟨rest, heq⟩ := List.head?_eq_some_iff.mp hhead
    rw [heq, List.pairwise_cons] at hsorted
    simp only [heq, List.mem_cons] at hmem
    have hflavor := (hmem flavor).mp (.inl rfl)
    refine ⟨hflavor.1, hflavor.2, fun other hother hfits ↦ ?_⟩
    rcases (hmem other).mpr ⟨hother, hfits⟩ with rfl | hrest
    · exact le_refl _
    · exact price_le_of_isLE (hsorted.1 other hrest)

omit [Std.TransCmp localeCompare] in
variable (localeCompare) in
/-- A fitting flavor is enough for a selection. -/
theorem exists_selectFlavor (h : ∃ flavor ∈ template.flavors, flavor.Fits trial) :
    ∃ flavor, selectFlavor localeCompare template trial = .ok flavor := by
  obtain ⟨flavor, hmem, hfits⟩ := h
  have hsorted : flavor ∈ (template.flavors.filter fun flavor ↦ flavor.Fits trial).mergeSort
      (fun left right ↦ (compareFlavors localeCompare left right).isLE) := by
    rw [List.mem_mergeSort, List.mem_filter, decide_eq_true_eq]
    exact ⟨hmem, hfits⟩
  unfold selectFlavor
  dsimp only
  split
  · rename_i hhead
    rw [List.head?_eq_none_iff.mp hhead] at hsorted
    exact absurd hsorted List.not_mem_nil
  · exact ⟨_, rfl⟩

end Flavor

/-! ### When the policy is sound -/

/-- The trial's task has a flavor, and its time limits are within the deployment's. -/
def Admitted (template : SandboxTemplate) (trial : PreparedTrial) : Prop :=
  (∃ flavor ∈ template.flavors, flavor.Fits trial) ∧
    maxCommandSeconds trial ≤ template.maxCommandSeconds ∧
      timeoutSeconds template trial ≤ template.maxTimeoutSeconds

/-- What a policy owes its template and its trial. -/
structure SandboxPolicy.Sound (policy : SandboxPolicy) (template : SandboxTemplate)
    (trial : PreparedTrial) : Prop where
  cheapest : ∃ flavor ∈ template.flavors, policy.hardware = flavor.hardware ∧
    policy.activeHourlyCostMicrousd = flavor.activeHourlyCostMicrousd ∧ flavor.Fits trial ∧
      ∀ other ∈ template.flavors, other.Fits trial →
        flavor.activeHourlyCostMicrousd ≤ other.activeHourlyCostMicrousd
  reserved : policy.activeHourlyCostMicrousd * policy.timeoutSeconds ≤
    policy.reservationMicrousd * 3600
  idle : policy.idleTimeoutSeconds ≤ policy.timeoutSeconds
  timeout : policy.timeoutSeconds ≤ template.maxTimeoutSeconds
  accepted : policy.Accepted

/-- The lifetime and the idle time of the trial reach the schema's minimum, and the lifetime on the
cheapest flavor stays within its bound on a reservation. -/
structure WithinSchema (template : SandboxTemplate) (trial : PreparedTrial) : Prop where
  lifetime : 60 ≤ timeoutSeconds template trial
  idle : 60 ≤ maxCommandSeconds trial + template.idleTimeoutOverheadSeconds
  price : ∀ flavor ∈ template.flavors, flavor.Fits trial →
    (∀ other ∈ template.flavors, other.Fits trial →
      flavor.activeHourlyCostMicrousd ≤ other.activeHourlyCostMicrousd) →
    flavor.activeHourlyCostMicrousd * timeoutSeconds template trial ≤ 3600 * 1000000000000

theorem preparedSandboxPolicy_eq_ok {localeCompare : String → String → Ordering}
    {deployment : DeploymentProfileSpec} {trial : PreparedTrial} {policy : SandboxPolicy} :
    preparedSandboxPolicy localeCompare deployment trial = .ok policy ↔
      ∃ template flavor, deployment = .hfJob (some template) ∧
        selectFlavor localeCompare template trial = .ok flavor ∧
        maxCommandSeconds trial ≤ template.maxCommandSeconds ∧
        timeoutSeconds template trial ≤ template.maxTimeoutSeconds ∧
        policy = policyFor template trial flavor := by
  constructor
  · intro h
    unfold preparedSandboxPolicy at h
    split at h
    · rename_i template
      obtain ⟨flavor, hflavor, h⟩ := bind_eq_ok.mp h
      split_ifs at h with hlimits
      rw [not_or, not_lt, not_lt] at hlimits
      exact ⟨template, flavor, rfl, hflavor, hlimits.1, hlimits.2, (Except.ok.inj h).symm⟩
    · cases h
  · rintro ⟨template, flavor, rfl, hflavor, hcommand, htimeout, rfl⟩
    have hlimits : ¬ (maxCommandSeconds trial > template.maxCommandSeconds ∨
        timeoutSeconds template trial > template.maxTimeoutSeconds) := by
      rw [not_or, not_lt, not_lt]
      exact ⟨hcommand, htimeout⟩
    exact bind_eq_ok.mpr ⟨flavor, hflavor, if_neg hlimits⟩

/-- Every check of the shared fields passes on from the template, the time limit of a command being
the trial's own. -/
theorem accepted_base {template : SandboxTemplate} {trial : PreparedTrial}
    (htemplate : template.Accepted) (htrial : trial.Accepted) (flavor : SandboxFlavor)
    (hcommand : maxCommandSeconds trial ≤ template.maxCommandSeconds) :
    (policyFor template trial flavor).toSandboxBase.Accepted := by
  have hmost := htemplate.base.maxCommandSeconds.2
  have hleast := htrial.agentTimeoutSeconds.1
  have hmax : trial.agentTimeoutSeconds ≤ maxCommandSeconds trial := le_max_left _ _
  exact { htemplate.base with maxCommandSeconds := ⟨hleast.trans hmax, hcommand.trans hmost⟩ }

/-- The schema accepts the policy exactly when the times and the price of the trial on its flavor are
within the schema's bounds. -/
theorem accepted_policyFor_iff {template : SandboxTemplate} {trial : PreparedTrial}
    {flavor : SandboxFlavor} (htemplate : template.Accepted) (htrial : trial.Accepted)
    (hflavor : flavor ∈ template.flavors)
    (hcommand : maxCommandSeconds trial ≤ template.maxCommandSeconds)
    (htimeout : timeoutSeconds template trial ≤ template.maxTimeoutSeconds) :
    (policyFor template trial flavor).Accepted ↔
      60 ≤ timeoutSeconds template trial ∧
        60 ≤ maxCommandSeconds trial + template.idleTimeoutOverheadSeconds ∧
          flavor.activeHourlyCostMicrousd * timeoutSeconds template trial ≤
            3600 * 1000000000000 := by
  have hmost : timeoutSeconds template trial ≤ 86400 := htimeout.trans htemplate.maxTimeoutSeconds.2
  have hpriced := htemplate.flavors flavor hflavor
  constructor
  · intro h
    have hidle : 60 ≤ min (timeoutSeconds template trial)
        (maxCommandSeconds trial + template.idleTimeoutOverheadSeconds) := h.idleTimeoutSeconds.1
    exact ⟨h.timeoutSeconds.1, (le_min_iff.mp hidle).2,
      (reservationMicrousd_le_iff _ _).mp h.reservationMicrousd.2⟩
  · rintro ⟨hlifetime, hidle, hprice⟩
    exact {
      base := accepted_base htemplate htrial flavor hcommand
      image := htrial.image
      hardware := hpriced.hardware
      timeoutSeconds := ⟨hlifetime, hmost⟩
      idleTimeoutSeconds := ⟨le_min hlifetime hidle, (min_le_left _ _).trans hmost⟩
      reservationMicrousd := ⟨Nat.zero_le _, (reservationMicrousd_le_iff _ _).mpr hprice⟩
      activeHourlyCostMicrousd := hpriced.activeHourlyCostMicrousd }

section Sound

variable (localeCompare : String → String → Ordering) [Std.TransCmp localeCompare]

/-- **The policy of a prepared trial is sound** exactly when the trial is refused or its times and the
price of its lifetime are within the bounds of the schema. -/
theorem preparedSandboxPolicy_sound_iff {template : SandboxTemplate} {trial : PreparedTrial}
    (htemplate : template.Accepted) (htrial : trial.Accepted) :
    (∀ policy, preparedSandboxPolicy localeCompare (.hfJob (some template)) trial = .ok policy →
      policy.Sound template trial) ↔
      (Admitted template trial → WithinSchema template trial) := by
  constructor
  · rintro h ⟨hfits, hcommand, htimeout⟩
    obtain ⟨selected, hselected⟩ := exists_selectFlavor localeCompare hfits
    obtain ⟨hmem, hfit, hcheapest⟩ := cheapest_of_selectFlavor hselected
    have hsound := h _ (preparedSandboxPolicy_eq_ok.mpr
      ⟨template, selected, rfl, hselected, hcommand, htimeout, rfl⟩)
    obtain ⟨hlifetime, hidle, hprice⟩ :=
      (accepted_policyFor_iff htemplate htrial hmem hcommand htimeout).mp hsound.accepted
    refine ⟨hlifetime, hidle, fun flavor hflavor hflavorFits hleast ↦ ?_⟩
    exact (Nat.mul_le_mul_right _ (hleast selected hmem hfit)).trans hprice
  · intro h policy hpolicy
    obtain ⟨_, flavor, htemplates, hselected, hcommand, htimeout, rfl⟩ :=
      preparedSandboxPolicy_eq_ok.mp hpolicy
    cases htemplates
    obtain ⟨hmem, hfit, hcheapest⟩ := cheapest_of_selectFlavor hselected
    have hwithin := h ⟨⟨flavor, hmem, hfit⟩, hcommand, htimeout⟩
    have hprice := hwithin.price flavor hmem hfit hcheapest
    exact {
      cheapest := ⟨flavor, hmem, rfl, rfl, hfit, hcheapest⟩
      reserved := le_reservationMicrousd hprice
      idle := min_le_left _ _
      timeout := htimeout
      accepted := (accepted_policyFor_iff htemplate htrial hmem hcommand htimeout).mpr
        ⟨hwithin.lifetime, hwithin.idle, hprice⟩ }

def sampleBase : SandboxBase :=
  { maxSandboxes := 4, maxCommands := 64, maxCommandSeconds := 3600, maxTransferBytes := 1048576
    allowedRoots := ["/work"], inferenceToken := none, inferenceUpstream := none
    inferenceModel := none, inferenceApi := none, inferenceMaxRequests := none
    inferenceMaxConcurrency := none, inferenceTimeoutSeconds := none
    inferenceMaxOutputTokens := none, rootBootstrapCommand := none }

def sampleFlavor : SandboxFlavor := ⟨"cpu-basic", 2, 16384, 51200, 0, 50000⟩

def sampleImage : String := String.ofList ("library/python@".toList ++ sampleDigest)

/-- A template with one flavor and the given overheads. -/
def sampleTemplate (overhead : ℕ) : SandboxTemplate :=
  { sampleBase with
    flavors := [sampleFlavor]
    defaultCpus := 1
    defaultMemoryMb := 1024
    defaultStorageMb := 1024
    defaultGpus := 0
    maxTimeoutSeconds := 7200
    lifetimeOverheadSeconds := overhead
    idleTimeoutOverheadSeconds := overhead }

/-- A trial with the same limit for each of its steps. -/
def sampleTrial (seconds : ℕ) : PreparedTrial :=
  ⟨"task-a", sampleImage, 1, 1024, 1024, 0, seconds, seconds, seconds, seconds⟩

theorem sampleBase_accepted : sampleBase.Accepted := by
  constructor <;> decide

theorem sampleTemplate_accepted {overhead : ℕ} (h : overhead ≤ 86400) :
    (sampleTemplate overhead).Accepted where
  base := sampleBase_accepted
  flavorsCount := show Within 1 32 1 by decide
  flavors := by
    intro flavor hflavor
    rw [List.mem_singleton.mp hflavor]
    constructor <;> decide
  defaultCpus := show Within 1 1024 1 by decide
  defaultMemoryMb := show Within 1 4194304 1024 by decide
  defaultStorageMb := show Within 1 16777216 1024 by decide
  defaultGpus := show Within 0 64 0 by decide
  maxTimeoutSeconds := show Within 60 86400 7200 by decide
  lifetimeOverheadSeconds := ⟨Nat.zero_le _, h⟩
  idleTimeoutOverheadSeconds := ⟨Nat.zero_le _, h⟩

theorem sampleTrial_accepted {seconds : ℕ} (hleast : 1 ≤ seconds) (hmost : seconds ≤ 86400) :
    (sampleTrial seconds).Accepted where
  image := show imageMatches sampleImage = true ∧ sampleImage.length ≤ 1024 by decide +kernel
  cpus := show Within 1 1024 1 by decide
  memoryMb := show Within 1 4194304 1024 by decide
  storageMb := show Within 1 16777216 1024 by decide
  gpus := show Within 0 64 0 by decide
  agentTimeoutSeconds := ⟨hleast, hmost⟩
  verifierTimeoutSeconds := ⟨hleast, hmost⟩
  environmentBuildTimeoutSeconds := ⟨hleast, hmost⟩
  agentSetupTimeoutSeconds := ⟨hleast, hmost⟩

theorem sample_withinSchema : WithinSchema (sampleTemplate 300) (sampleTrial 600) where
  lifetime := by decide
  idle := by decide
  price := by
    intro flavor hflavor _ _
    rw [List.mem_singleton.mp hflavor]
    decide

theorem sample_fits (overhead seconds : ℕ) :
    ∃ flavor ∈ (sampleTemplate overhead).flavors, flavor.Fits (sampleTrial seconds) :=
  ⟨sampleFlavor, List.mem_singleton_self _, show 1 ≤ 2 by decide, show 1024 ≤ 16384 by decide,
    show 1024 ≤ 51200 by decide, Nat.le_refl 0⟩

theorem preparedSandboxPolicy_sound_sample :
    ∃ policy, preparedSandboxPolicy compare (.hfJob (some (sampleTemplate 300)))
      (sampleTrial 600) = .ok policy ∧ policy.Sound (sampleTemplate 300) (sampleTrial 600) := by
  obtain ⟨flavor, hflavor⟩ := exists_selectFlavor compare (sample_fits 300 600)
  have hpolicy := preparedSandboxPolicy_eq_ok.mpr
    ⟨_, flavor, rfl, hflavor, by decide, by decide, rfl⟩
  exact ⟨_, hpolicy, (preparedSandboxPolicy_sound_iff compare (sampleTemplate_accepted (by decide))
    (sampleTrial_accepted (by decide) (by decide))).mpr (fun _ ↦ sample_withinSchema) _ hpolicy⟩

/-- Limits of one second each pass every check of the template and the trial, and give a policy whose
lifetime is below the least its own schema allows. -/
theorem exists_not_sound :
    ∃ (template : SandboxTemplate) (trial : PreparedTrial) (policy : SandboxPolicy),
      template.Accepted ∧ trial.Accepted ∧
        preparedSandboxPolicy compare (.hfJob (some template)) trial = .ok policy ∧
          ¬ policy.Sound template trial := by
  obtain ⟨flavor, hflavor⟩ := exists_selectFlavor compare (sample_fits 0 1)
  refine ⟨sampleTemplate 0, sampleTrial 1, policyFor (sampleTemplate 0) (sampleTrial 1) flavor,
    sampleTemplate_accepted (by decide), sampleTrial_accepted (by decide) (by decide),
    preparedSandboxPolicy_eq_ok.mpr ⟨_, flavor, rfl, hflavor, by decide, by decide, rfl⟩, ?_⟩
  intro hsound
  have hlifetime : 60 ≤ 4 := hsound.accepted.timeoutSeconds.1
  exact absurd hlifetime (by decide)

end Sound

end HarborHF.Prepared
