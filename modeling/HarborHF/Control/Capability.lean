import Mathlib.Data.List.Dedup
import HarborHF.Contracts.CanonicalJson
import HarborHF.Control.Records
import HarborHF.Encodings.Octets

/-!
# Worker capabilities

A launched Job gets a token that names its campaign, action, tasks and operations. The token is
`v1.`, the canonical text of these in base64url, a dot and the signature of what stands before.
`verifyWorkerCapability` reads a presented token back until it expires.

Minting has no limit of length and verifying has one, so the token of a launch verifies exactly if the
launch fits (`Launch.Fits`). A token whose signature part decodes to the right octets verifies in any
spelling, but what it says was minted.
-/

set_option autoImplicit false

namespace HarborHF.Capability

open Json Numeric Integers Encodings Contracts

inductive WorkerOperation
  | campaignRead | preparationSubmit | attemptSubmit | evidenceWrite | sandboxCreate
  | sandboxObserve | sandboxExec | sandboxWrite | sandboxRead | sandboxClose
  deriving DecidableEq

def workerOperations : List WorkerOperation :=
  [.campaignRead, .preparationSubmit, .attemptSubmit, .evidenceWrite, .sandboxCreate,
    .sandboxObserve, .sandboxExec, .sandboxWrite, .sandboxRead, .sandboxClose]

def WorkerOperation.name : WorkerOperation → Text
  | .campaignRead => word "campaign.read"
  | .preparationSubmit => word "preparation.submit"
  | .attemptSubmit => word "attempt.submit"
  | .evidenceWrite => word "evidence.write"
  | .sandboxCreate => word "sandbox.create"
  | .sandboxObserve => word "sandbox.observe"
  | .sandboxExec => word "sandbox.exec"
  | .sandboxWrite => word "sandbox.write"
  | .sandboxRead => word "sandbox.read"
  | .sandboxClose => word "sandbox.close"

/-- The operation of a name. -/
def WorkerOperation.ofName (name : Text) : Option WorkerOperation :=
  workerOperations.find? fun operation ↦ operation.name == name

/-- What a token grants, until a second since the epoch. -/
structure WorkerCapability where
  hubNamespace : Text
  campaignId : Text
  campaignLockDigest : Text
  actionId : Text
  taskIds : List Text
  operations : List WorkerOperation
  expiresAt : ℕ
  deriving DecidableEq

/-- The capability with its tasks and its operations as sorted sets. -/
def WorkerCapability.sorted (capability : WorkerCapability) : WorkerCapability :=
  { capability with
    taskIds := capability.taskIds.dedup.insertionSort (· ≤ ·)
    operations := capability.operations.dedup.insertionSort fun first second ↦
      first.name ≤ second.name }

/-- `createHmac("sha256", secret).update(text).digest()`. -/
class Hmac where
  hmac : Text → Text → List UInt8
  length_hmac : ∀ secret text, (hmac secret text).length = 32

section

variable (ν : Type) [Integers ν] (localeCompare : Text → Text → Ordering)

/-- The members of a capability's object. -/
def capabilityMembers (capability : WorkerCapability) : List (Text × Value ν) :=
  [(word "version", .number (ofNat 1)),
    (word "namespace", .string capability.hubNamespace),
    (word "campaign_id", .string capability.campaignId),
    (word "campaign_lock_digest", .string capability.campaignLockDigest),
    (word "action_id", .string capability.actionId),
    (word "task_ids", .array (capability.taskIds.map .string)),
    (word "operations", .array (capability.operations.map fun operation ↦ .string operation.name)),
    (word "expires_at", .number (ofNat capability.expiresAt))]

def capabilityValue (capability : WorkerCapability) : Value ν :=
  .object (capabilityMembers ν capability)

/-- The part of a token that is signed. -/
def mintedBody (capability : WorkerCapability) : Except String Text :=
  match canonicalJson localeCompare (capabilityValue ν capability.sorted) with
  | .ok text => .ok (base64url (utf8 text))
  | .error error => .error error.message

def signature [Hmac] (secret body : Text) : List UInt8 := Hmac.hmac secret (word "v1." ++ body)

def mintWorkerCapability [Hmac] (secret : Text) (capability : WorkerCapability) : Except String Text :=
  if secret = [] then .error "worker capability secret is missing"
  else
    match mintedBody ν localeCompare capability with
    | .ok body => .ok (word "v1." ++ (body ++ 46 :: base64url (signature secret body)))
    | .error message => .error message

variable {ν}

/-- A member of an object. -/
def field (members : List (Text × Value ν)) (name : String) : Option (Value ν) :=
  (members.find? fun member ↦ member.1 == word name).map Prod.snd

def asNumber : Value ν → Option ν
  | .number value => some value
  | _ => none

def asText : Value ν → Option Text
  | .string text => some text
  | _ => none

def asTexts : Value ν → Option (List Text)
  | .array items => items.mapM asText
  | _ => none

def isLowerHex (unit : UInt16) : Bool :=
  decide (48 ≤ unit ∧ unit ≤ 57) || decide (97 ≤ unit ∧ unit ≤ 102)

/-- `/^sha256:[0-9a-f]{64}$/`. -/
def isLockDigest (text : Text) : Bool :=
  (text.take 7 == word "sha256:") && text.length == 71 && (text.drop 7).all isLowerHex

/-- The capability an object stands for, in a namespace and at a time in milliseconds. -/
def checkCapability (members : List (Text × Value ν)) (hubNamespace : Text) (now : ℕ) :
    Option WorkerCapability := do
  let version ← (field members "version").bind asNumber
  let scope ← (field members "namespace").bind asText
  let campaignId ← (field members "campaign_id").bind asText
  let campaignLockDigest ← (field members "campaign_lock_digest").bind asText
  let actionId ← (field members "action_id").bind asText
  let taskIds ← (field members "task_ids").bind asTexts
  let names ← (field members "operations").bind asTexts
  let operations ← names.mapM WorkerOperation.ofName
  let expires ← (field members "expires_at").bind asNumber
  let expiresAt ← integer expires
  if integer version = some 1 ∧ scope = hubNamespace ∧ isLockDigest campaignLockDigest = true ∧
      taskIds ≠ [] ∧ taskIds.Nodup ∧ operations ≠ [] ∧ operations.Nodup ∧
      expiresAt ≤ maxSafeInteger ∧ ((now / 1000 : ℕ) : ℤ) ≤ expiresAt then
    return ⟨scope, campaignId, campaignLockDigest, actionId, taskIds, operations, expiresAt.toNat⟩
  else none

variable (ν)

def verifyWorkerCapability [Hmac] [Decoders] (secret token hubNamespace : Text) (now : ℕ) :
    Option WorkerCapability :=
  if secret = [] ∨ 4096 < token.length then none
  else
    match token.splitOn 46 with
    | [version, body, encodedSignature] =>
      if version ≠ word "v1" ∨ body = [] ∨ encodedSignature = [] then none
      else
        match (parse (Decoders.fromUtf8 (Decoders.fromBase64url body)) : Option (Value ν)) with
        | none => none
        | some value =>
          if Decoders.fromBase64url encodedSignature ≠ signature secret body then none
          else
            match value with
            | .object members => checkCapability members hubNamespace now
            | _ => none
    | _ => none

end

/-! ### Launches -/

/-- The fields of a launch that its capability is made from, within the bounds of the record schema. -/
structure Launch where
  campaignId : Text
  actionId : Text
  campaignLockDigest : Text
  taskIds : List Text
  role : Control.WorkerRole
  timeoutSeconds : ℕ
  /-- The time limit of the payload's Sandbox policy. -/
  sandbox : Option ℕ
  sandboxAuthorized : Bool
  sandboxTimeoutSeconds : Option ℕ
  isLockDigest_digest : isLockDigest campaignLockDigest = true
  taskIds_ne_nil : taskIds ≠ []
  nodup_taskIds : taskIds.Nodup
  timeoutSeconds_le : timeoutSeconds ≤ 604800
  sandbox_le : ∀ seconds ∈ sandbox, seconds ≤ 86400
  sandboxTimeoutSeconds_le : ∀ seconds ∈ sandboxTimeoutSeconds, seconds ≤ 86400

def sandboxOperations : List WorkerOperation :=
  [.sandboxCreate, .sandboxObserve, .sandboxExec, .sandboxWrite, .sandboxRead, .sandboxClose]

/-- What a launched worker may do, by its role. -/
def Launch.operations (launch : Launch) : List WorkerOperation :=
  match launch.role with
  | .preparation => [.campaignRead, .preparationSubmit]
  | .execution =>
    [.campaignRead, .attemptSubmit, .evidenceWrite] ++
      if launch.sandbox.isSome || launch.sandboxAuthorized then sandboxOperations else []

/-- The second at which the capability of a launch expires. -/
def Launch.expiresAt (launch : Launch) (now : ℕ) : ℕ :=
  now / 1000 + max (max launch.timeoutSeconds (launch.sandbox.getD 0))
    (launch.sandboxTimeoutSeconds.getD 0) + 3600

/-- The capability that is minted for a launch. -/
def launchCapability (hubNamespace : Text) (launch : Launch) (now : ℕ) : WorkerCapability :=
  { hubNamespace, campaignId := launch.campaignId, campaignLockDigest := launch.campaignLockDigest,
    actionId := launch.actionId, taskIds := launch.taskIds, operations := launch.operations,
    expiresAt := launch.expiresAt now }

/-! ### Reading a minted body back -/

section

variable {ν : Type} {localeCompare : Text → Text → Ordering} {capability : WorkerCapability}

theorem WorkerOperation.ofName_name (operation : WorkerOperation) :
    WorkerOperation.ofName operation.name = some operation := by
  cases operation <;> decide +kernel

theorem ofName_names (operations : List WorkerOperation) :
    (operations.map WorkerOperation.name).mapM WorkerOperation.ofName = some operations := by
  induction operations with
  | nil => rfl
  | cons operation rest ih =>
    rw [List.map_cons, List.mapM_cons, operation.ofName_name, ih]
    rfl

theorem asTexts_strings (texts : List Text) :
    asTexts (.array (texts.map .string) : Value ν) = some texts := by
  unfold asTexts
  dsimp only
  induction texts with
  | nil => rfl
  | cons text rest ih =>
    rw [List.map_cons, List.mapM_cons, ih]
    rfl

theorem length_sorted_ne_nil {α : Type} [DecidableEq α] {order : α → α → Prop} [DecidableRel order]
    {list : List α} : list.dedup.insertionSort order ≠ [] ↔ list ≠ [] := by
  rw [← List.length_pos_iff, List.length_insertionSort, List.length_pos_iff]
  exact not_congr (List.dedup_eq_nil list)

/-- The keys of a capability's object, none of which is an array index. -/
def capabilityKeys : List Text :=
  [word "version", word "namespace", word "campaign_id", word "campaign_lock_digest",
    word "action_id", word "task_ids", word "operations", word "expires_at"]

theorem capabilityKeys_nodup : capabilityKeys.Nodup := by decide +kernel

theorem pairwise_capabilityKeys : capabilityKeys.Pairwise Precedes := by
  have hnone : capabilityKeys.all (fun key ↦ (arrayIndex key).isNone) = true := by decide +kernel
  refine List.Pairwise.imp_of_mem (R := fun _ _ ↦ True) ?_ (List.pairwise_of_forall fun _ _ ↦ trivial)
  intro key key' _ hkey' _ index' hindex'
  have hindex := List.all_eq_true.mp hnone key' hkey'
  rw [hindex'] at hindex
  cases hindex

variable [Integers ν]

theorem map_fst_capabilityMembers (capability : WorkerCapability) :
    (capabilityMembers ν capability).map Prod.fst = capabilityKeys := rfl

theorem isJson_capabilityValue (h : capability.expiresAt ≤ maxSafeInteger) :
    IsJson (capabilityValue ν capability) := by
  refine .object capabilityKeys_nodup pairwise_capabilityKeys ?_
  simp only [capabilityMembers, List.forall_mem_cons, List.not_mem_nil, false_imp_iff, implies_true,
    and_true]
  refine ⟨.number (finite_ofNat 1 (by decide)), .string _, .string _, .string _, .string _,
    .array fun item hitem ↦ ?_, .array fun item hitem ↦ ?_, .number (finite_ofNat _ h)⟩
  · obtain ⟨taskId, -, rfl⟩ := List.mem_map.mp hitem
    exact .string taskId
  · obtain ⟨operation, -, rfl⟩ := List.mem_map.mp hitem
    exact .string operation.name

/-- Normalizing changes no member of a capability's object. -/
theorem normalMember_capabilityMembers (h : capability.expiresAt ≤ maxSafeInteger) :
    (capabilityMembers ν capability).map (normalMember localeCompare) =
      capabilityMembers ν capability := by
  have hnumber : ∀ value, value ≤ maxSafeInteger → unsigned (ofNat value : ν) = ofNat value := by
    intro value hvalue
    rw [unsigned, not_isNegativeZero_ofNat value hvalue, if_neg Bool.false_ne_true]
  have hstrings : ∀ texts : List Text,
      normal localeCompare (.array (texts.map .string) : Value ν) = .array (texts.map .string) := by
    intro texts
    rw [normal_array, List.map_map]
    rfl
  have hvalue : ∀ value : ν, normal localeCompare (.number value) = .number (unsigned value) :=
    fun _ ↦ rfl
  have hnames : capability.operations.map (fun operation ↦ (.string operation.name : Value ν)) =
      (capability.operations.map WorkerOperation.name).map .string := by
    rw [List.map_map]
    rfl
  unfold capabilityMembers
  rw [hnames]
  have htext : ∀ text : Text, normal localeCompare (.string text : Value ν) = .string text :=
    fun _ ↦ rfl
  simp only [List.map_cons, List.map_nil, normalMember, hstrings, htext, hvalue,
    hnumber 1 (by decide), hnumber _ h]

omit [Integers ν] in
theorem field_eq {members : List (Text × Value ν)} (hkeys : (members.map Prod.fst).Nodup)
    {name : String} {value : Value ν} (h : (word name, value) ∈ members) :
    field members name = some value := by
  unfold field
  cases hfind : members.find? fun member ↦ member.1 == word name with
  | none =>
    have hno := List.find?_eq_none.mp hfind _ h
    simp at hno
  | some member =>
    obtain ⟨key, value'⟩ := member
    have hkey : key = word name := by simpa using List.find?_some hfind
    rw [hkey] at hfind
    rw [value_unique hkeys h (List.mem_of_find?_eq_some hfind)]
    rfl

/-- What a capability must be to be accepted. -/
structure Accepted (capability : WorkerCapability) (hubNamespace : Text) (now : ℕ) : Prop where
  hubNamespace : capability.hubNamespace = hubNamespace
  isLockDigest : isLockDigest capability.campaignLockDigest = true
  taskIds : capability.taskIds ≠ []
  operations : capability.operations ≠ []
  expiresAt : now / 1000 ≤ capability.expiresAt

/-- An object with the members of a minted capability is this capability, if it is accepted. -/
theorem checkCapability_eq {members : List (Text × Value ν)} {hubNamespace : Text} {now : ℕ}
    (hkeys : (members.map Prod.fst).Nodup)
    (hmembers : ∀ member ∈ capabilityMembers ν capability.sorted, member ∈ members)
    (hexpires : capability.expiresAt ≤ maxSafeInteger) : (Accepted capability hubNamespace now →
      checkCapability members hubNamespace now = some capability.sorted) ∧
    ∀ found, checkCapability members hubNamespace now = some found →
      Accepted capability hubNamespace now ∧ found = capability.sorted := by
  simp only [capabilityMembers, List.forall_mem_cons, List.not_mem_nil, false_imp_iff, implies_true,
    and_true] at hmembers
  obtain ⟨hversion, hscope, hcampaign, hdigest, haction, htasks, hoperations, hexpiry⟩ := hmembers
  have hnames : asTexts (.array (capability.sorted.operations.map
      fun operation ↦ (.string operation.name : Value ν))) =
        some (capability.sorted.operations.map WorkerOperation.name) := by
    rw [← asTexts_strings (ν := ν), List.map_map]
    rfl
  have hnodup : capability.sorted.taskIds.Nodup :=
    (List.perm_insertionSort _ _).nodup_iff.mpr (List.nodup_dedup _)
  have hnodup' : capability.sorted.operations.Nodup :=
    (List.perm_insertionSort _ _).nodup_iff.mpr (List.nodup_dedup _)
  have hexpiresSorted : capability.sorted.expiresAt = capability.expiresAt := rfl
  unfold checkCapability
  rw [field_eq hkeys hversion, field_eq hkeys hscope, field_eq hkeys hcampaign,
    field_eq hkeys hdigest, field_eq hkeys haction, field_eq hkeys htasks,
    field_eq hkeys hoperations, field_eq hkeys hexpiry]
  simp only [Option.bind_some, asNumber, asText, asTexts_strings, hnames, ofName_names,
    Option.bind_eq_bind, integer_ofNat 1 (by decide : 1 ≤ maxSafeInteger), hexpiresSorted,
    integer_ofNat _ hexpires, Option.pure_def, Int.toNat_natCast]
  constructor
  · intro haccepted
    rw [if_pos]
    · rfl
    · refine ⟨rfl, haccepted.hubNamespace, haccepted.isLockDigest,
        length_sorted_ne_nil.mpr haccepted.taskIds, hnodup,
        length_sorted_ne_nil.mpr haccepted.operations, hnodup', ?_, ?_⟩
      · exact_mod_cast hexpires
      · exact_mod_cast haccepted.expiresAt
  · intro found hfound
    split_ifs at hfound with hall
    obtain ⟨-, hscope, hdigest, htasks, -, hoperations, -, -, hnow⟩ := hall
    exact ⟨⟨hscope, hdigest, length_sorted_ne_nil.mp htasks, length_sorted_ne_nil.mp hoperations,
      by exact_mod_cast hnow⟩, (Option.some.inj hfound).symm⟩

end

/-! ### Tokens -/

section

variable {ν : Type} [Integers ν] {localeCompare : Text → Text → Ordering}
  {capability : WorkerCapability} {secret token hubNamespace : Text} {now : ℕ}

variable (ν localeCompare) in
/-- The canonical text of a capability. -/
def capabilityText (capability : WorkerCapability) : Text :=
  stringify (.object (arrange localeCompare (capabilityMembers ν capability.sorted))) ++ [10]

theorem normal_capabilityValue (h : capability.expiresAt ≤ maxSafeInteger) :
    normal localeCompare (capabilityValue ν capability.sorted) =
      .object (arrange localeCompare (capabilityMembers ν capability.sorted)) := by
  unfold capabilityValue
  rw [normal_object, normalMember_capabilityMembers (show capability.sorted.expiresAt ≤ _ from h)]

theorem formed_arranged (h : capability.expiresAt ≤ maxSafeInteger) : Formed Printable
      (.object (arrange localeCompare (capabilityMembers ν capability.sorted)) : Value ν) := by
  rw [← normal_capabilityValue h]
  exact formed_normal _ (isJson_capabilityValue (show capability.sorted.expiresAt ≤ _ from h))

theorem mintedBody_eq (h : capability.expiresAt ≤ maxSafeInteger) :
    mintedBody ν localeCompare capability =
      .ok (base64url (utf8 (capabilityText ν localeCompare capability))) := by
  unfold mintedBody
  rw [canonicalJson_eq (isJson_capabilityValue (show capability.sorted.expiresAt ≤ _ from h)),
    normal_capabilityValue h]
  rfl

theorem paired_capabilityText (h : capability.expiresAt ≤ maxSafeInteger) :
    Paired (capabilityText ν localeCompare capability) :=
  (paired_stringify (formed_arranged h)).append (.whole (by decide) .nil)

theorem parse_capabilityText (h : capability.expiresAt ≤ maxSafeInteger) :
    parse (capabilityText ν localeCompare capability) =
      some (.object (arrange localeCompare (capabilityMembers ν capability.sorted))) :=
  parse_stringify (formed_arranged h)

theorem body_ne_nil (h : capability.expiresAt ≤ maxSafeInteger) :
    base64url (utf8 (capabilityText ν localeCompare capability)) ≠ [] := by
  intro hnil
  have hlength := congrArg List.length hnil
  rw [length_base64url, length_utf8 (paired_capabilityText h)] at hlength
  simp only [capabilityText, utf8Size_append, utf8Size_cons, List.length_nil] at hlength
  have hbreak : unitSize 10 = 1 := rfl
  omega

theorem splitOn_token {body tag : Text} (hbody : 46 ∉ body) (htag : 46 ∉ tag) :
    (word "v1." ++ (body ++ 46 :: tag)).splitOn 46 = [word "v1", body, tag] := by
  have hsplit : word "v1." ++ (body ++ 46 :: tag) = word "v1" ++ 46 :: (body ++ 46 :: tag) := rfl
  rw [hsplit, List.splitOn_append_cons_self_of_not_mem (by decide),
    List.splitOn_append_cons_self_of_not_mem hbody, List.splitOn_eq_singleton htag]

variable [Hmac]

variable (ν localeCompare) in
theorem mintWorkerCapability_eq (hsecret : secret ≠ []) (h : capability.expiresAt ≤ maxSafeInteger) :
    mintWorkerCapability ν localeCompare secret capability =
      .ok (word "v1." ++ (base64url (utf8 (capabilityText ν localeCompare capability)) ++
        46 :: base64url (signature secret
          (base64url (utf8 (capabilityText ν localeCompare capability)))))) := by
  unfold mintWorkerCapability
  rw [if_neg hsecret, mintedBody_eq h]

variable [Decoders]

/-- A token that carries the text of a capability and its signature, in any spelling, is read as the
object of the capability. -/
theorem verify_of_parts {tag : Text} (hsecret : secret ≠ []) (hlength : token.length ≤ 4096)
    (hexpires : capability.expiresAt ≤ maxSafeInteger) (hparts : token.splitOn 46 =
      [word "v1", base64url (utf8 (capabilityText ν localeCompare capability)), tag])
    (htag : Decoders.fromBase64url tag =
      signature secret (base64url (utf8 (capabilityText ν localeCompare capability)))) :
    verifyWorkerCapability ν secret token hubNamespace now =
      checkCapability (arrange localeCompare (capabilityMembers ν capability.sorted)) hubNamespace
        now := by
  have hne : tag ≠ [] := by
    rintro rfl
    have hempty := Decoders.fromBase64url_base64url []
    rw [show base64url [] = [] from rfl, htag] at hempty
    have hsize := Hmac.length_hmac secret
      (word "v1." ++ base64url (utf8 (capabilityText ν localeCompare capability)))
    unfold signature at hempty
    rw [hempty] at hsize
    cases hsize
  unfold verifyWorkerCapability
  rw [if_neg (not_or.mpr ⟨hsecret, by omega⟩), hparts]
  dsimp only
  rw [if_neg (by simp [hne, body_ne_nil hexpires]), Decoders.fromBase64url_base64url,
    Decoders.fromUtf8_utf8 _ (paired_capabilityText hexpires)]
  rw [parse_capabilityText hexpires]
  dsimp only
  rw [if_neg (not_not_intro htag)]

/-- A token that verifies has three parts, the last of which decodes to the signature of the
second. -/
theorem parts_of_verify {found : WorkerCapability}
    (h : verifyWorkerCapability ν secret token hubNamespace now = some found) :
    secret ≠ [] ∧ token.length ≤ 4096 ∧ ∃ body tag,
      token.splitOn 46 = [word "v1", body, tag] ∧
        Decoders.fromBase64url tag = signature secret body := by
  unfold verifyWorkerCapability at h
  split_ifs at h with hstart
  obtain ⟨hsecret, hlength⟩ := not_or.mp hstart
  split at h
  case h_2 => cases h
  case h_1 version body tag hparts =>
    by_cases hempty : version ≠ word "v1" ∨ body = [] ∨ tag = []
    · rw [if_pos hempty] at h
      cases h
    rw [if_neg hempty] at h
    cases hvalue : (parse (Decoders.fromUtf8 (Decoders.fromBase64url body)) : Option (Value ν)) with
    | none => simp [hvalue] at h
    | some value =>
      rw [hvalue] at h
      by_cases htag : Decoders.fromBase64url tag = signature secret body
      · refine ⟨hsecret, by omega, body, tag, ?_, htag⟩
        rw [hparts, not_not.mp (not_or.mp hempty).1]
      · simp [htag] at h

omit [Hmac] [Decoders] in
theorem checkCapability_arranged (hexpires : capability.expiresAt ≤ maxSafeInteger) :
    (Accepted capability hubNamespace now →
      checkCapability (arrange localeCompare (capabilityMembers ν capability.sorted)) hubNamespace
        now = some capability.sorted) ∧
    ∀ found, checkCapability (arrange localeCompare (capabilityMembers ν capability.sorted))
        hubNamespace now = some found →
      Accepted capability hubNamespace now ∧ found = capability.sorted := by
  refine checkCapability_eq ?_ (fun member hmember ↦ ?_) hexpires
  · rw [((arrange_perm _ _).map Prod.fst).nodup_iff, map_fst_capabilityMembers]
    exact capabilityKeys_nodup
  · exact (arrange_perm _ _).mem_iff.mpr hmember

end

/-! ### Sizes -/

section

variable {ν : Type}

/-- The octets of a text in quotation marks. -/
def textSize (text : Text) : ℕ := utf8Size (quote text)

/-- The octets of a list of texts in brackets, with commas. -/
def listSize (texts : List Text) : ℕ := 1 + (texts.map fun text ↦ textSize text + 1).sum

theorem utf8Size_commas {texts : List Text} (h : texts ≠ []) :
    utf8Size (commas texts) + 1 = (texts.map fun text ↦ utf8Size text + 1).sum := by
  induction texts using commas.induct with
  | case1 => exact absurd rfl h
  | case2 text => simp [commas]
  | case3 text next rest ih =>
    have hcomma : unitSize 44 = 1 := rfl
    have hrest := ih (List.cons_ne_nil _ _)
    rw [commas, utf8Size_append, utf8Size_cons, hcomma, List.map_cons, List.sum_cons, ← hrest]
    omega

variable [Numeric ν]

theorem size_strings {texts : List Text} (h : texts ≠ []) :
    utf8Size (stringify (.array (texts.map .string) : Value ν)) = listSize texts := by
  have hbrackets : unitSize 91 = 1 ∧ unitSize 93 = 1 := ⟨rfl, rfl⟩
  have htexts : (texts.map (Value.string (ν := ν))).map stringify = texts.map quote := by
    rw [List.map_map]
    exact List.map_congr_left fun _ _ ↦ rfl
  have hcommas := utf8Size_commas (show texts.map quote ≠ [] by simpa using h)
  rw [List.map_map] at hcommas
  have hsum : (texts.map ((fun text ↦ utf8Size text + 1) ∘ quote)).sum =
      (texts.map fun text ↦ textSize text + 1).sum := rfl
  rw [stringify, stringifyItems_eq, htexts, utf8Size_cons, utf8Size_append, utf8Size_cons,
    utf8Size_nil, hbrackets.1, hbrackets.2, listSize, ← hsum, ← hcommas]

theorem size_object {members : List (Text × Value ν)} (h : members ≠ []) :
    utf8Size (stringify (.object members)) =
      1 + (members.map fun member ↦ utf8Size (memberText member) + 1).sum := by
  have hbraces : unitSize 123 = 1 ∧ unitSize 125 = 1 := ⟨rfl, rfl⟩
  have hcommas := utf8Size_commas (show members.map memberText ≠ [] by simpa using h)
  rw [List.map_map] at hcommas
  have hsum : (members.map ((fun text ↦ utf8Size text + 1) ∘ memberText)).sum =
      (members.map fun member ↦ utf8Size (memberText member) + 1).sum := rfl
  rw [stringify, stringifyMembers_eq, utf8Size_cons, utf8Size_append, utf8Size_cons, utf8Size_nil,
    hbraces.1, hbraces.2, ← hsum, ← hcommas]

theorem size_member (key : Text) (value : Value ν) :
    utf8Size (memberText (key, value)) = textSize key + 1 + utf8Size (stringify value) := by
  have hcolon : unitSize 58 = 1 := rfl
  show utf8Size (quote key ++ 58 :: stringify value) = _
  rw [utf8Size_append, utf8Size_cons, hcolon, textSize, Nat.add_assoc]

theorem utf8Size_decimal (value : ℕ) : utf8Size (decimal value) = (decimal value).length := by
  have hone : ∀ unit ∈ decimal value, unitSize unit = 1 := by
    intro unit hunit
    have hnumber := isNumberUnit_of_mem value rfl unit hunit
    simp only [isNumberUnit, Bool.or_eq_true, decide_eq_true_eq, beq_iff_eq] at hnumber
    rcases hnumber with ((((⟨-, h⟩ | rfl) | rfl) | rfl) | rfl) | rfl
    · have hlt : unit.toNat < 0x80 :=
        lt_of_le_of_lt (UInt16.le_iff_toNat_le.mp h) (by decide)
      rw [unitSize, if_pos hlt]
    all_goals rfl
  unfold utf8Size
  rw [List.map_congr_left hone, List.map_const', List.sum_replicate_nat, Nat.mul_one]

/-- The octets of the text of a launch's capability: what is always there, the identifiers, the tasks,
the operations and the expiry. -/
def Launch.size (launch : Launch) (hubNamespace : Text) (now : ℕ) : ℕ :=
  119 + textSize hubNamespace + textSize launch.campaignId + textSize launch.campaignLockDigest +
    textSize launch.actionId + listSize launch.taskIds +
    listSize (launch.operations.map WorkerOperation.name) + (decimal (launch.expiresAt now)).length

/-- The text of the launch's capability is short enough for a token of 4096 units. -/
def Launch.Fits (launch : Launch) (hubNamespace : Text) (now : ℕ) : Prop :=
  launch.size hubNamespace now ≤ 3036

end

/-! ### Launches and their tokens -/

section

variable {ν : Type} [Integers ν] {localeCompare : Text → Text → Ordering}
  {secret token hubNamespace : Text} {now : ℕ} {launch : Launch}

/-- The greatest time of a clock, in milliseconds. -/
def maxTime : ℕ := 8640000000000000

theorem expiresAt_le (hubNamespace : Text) (launch : Launch) (h : now ≤ maxTime) :
    (launchCapability hubNamespace launch now).expiresAt ≤ maxSafeInteger := by
  have htimeout := launch.timeoutSeconds_le
  have hsandbox : launch.sandbox.getD 0 ≤ 86400 := by
    cases hseconds : launch.sandbox with
    | none => exact Nat.zero_le _
    | some seconds => exact launch.sandbox_le seconds hseconds
  have hsandboxTimeout : launch.sandboxTimeoutSeconds.getD 0 ≤ 86400 := by
    cases hseconds : launch.sandboxTimeoutSeconds with
    | none => exact Nat.zero_le _
    | some seconds => exact launch.sandboxTimeoutSeconds_le seconds hseconds
  simp only [launchCapability, Launch.expiresAt, maxSafeInteger, maxTime] at h ⊢
  omega

theorem Launch.operations_nodup (launch : Launch) : launch.operations.Nodup := by
  unfold Launch.operations
  cases launch.role with
  | preparation => exact (by decide : [WorkerOperation.campaignRead, .preparationSubmit].Nodup)
  | execution =>
    dsimp only
    split_ifs
    · decide
    · decide

theorem Launch.operations_ne_nil (launch : Launch) : launch.operations ≠ [] := by
  unfold Launch.operations
  cases launch.role <;> simp

theorem accepted_launchCapability {later : ℕ} (h : later / 1000 ≤ launch.expiresAt now) :
    Accepted (launchCapability hubNamespace launch now) hubNamespace later :=
  ⟨rfl, launch.isLockDigest_digest, launch.taskIds_ne_nil, launch.operations_ne_nil, h⟩

theorem listSize_sorted {α : Type} [DecidableEq α] (order : α → α → Prop) [DecidableRel order]
    {list : List α} (h : list.Nodup) (text : α → Text) :
    listSize ((list.dedup.insertionSort order).map text) = listSize (list.map text) := by
  have hperm := (List.perm_insertionSort order list.dedup).map text
  rw [List.dedup_eq_self.mpr h] at hperm ⊢
  exact congrArg (1 + ·) (hperm.map _).sum_nat

/-- The octets of the text of a capability with tasks and operations. -/
theorem utf8Size_capabilityText {capability : WorkerCapability}
    (htasks : capability.sorted.taskIds ≠ []) (hoperations : capability.sorted.operations ≠ [])
    (hexpires : capability.expiresAt ≤ maxSafeInteger) :
    utf8Size (capabilityText ν localeCompare capability) =
      119 + textSize capability.hubNamespace + textSize capability.campaignId +
        textSize capability.campaignLockDigest + textSize capability.actionId +
        listSize capability.sorted.taskIds +
        listSize (capability.sorted.operations.map WorkerOperation.name) +
        (decimal capability.expiresAt).length := by
  have hperm := arrange_perm localeCompare (capabilityMembers ν capability.sorted)
  have hsum := (hperm.map fun member ↦ utf8Size (memberText member) + 1).sum_nat
  have hne : arrange localeCompare (capabilityMembers ν capability.sorted) ≠ [] := by
    intro hnil
    rw [hnil] at hperm
    exact absurd hperm.symm.eq_nil (List.cons_ne_nil _ _)
  have hnames : capability.sorted.operations.map
      (fun operation ↦ (.string operation.name : Value ν)) =
        (capability.sorted.operations.map WorkerOperation.name).map .string := by
    rw [List.map_map]
    rfl
  have hnumber : ∀ value, value ≤ maxSafeInteger →
      utf8Size (stringify (.number (ofNat value) : Value ν)) = (decimal value).length := by
    intro value hvalue
    rw [stringify, toText_ofNat value hvalue, utf8Size_decimal]
  have hstring : ∀ text : Text, utf8Size (stringify (.string text : Value ν)) = textSize text :=
    fun _ ↦ rfl
  have hkeys : textSize (word "version") = 9 ∧ textSize (word "namespace") = 11 ∧
      textSize (word "campaign_id") = 13 ∧ textSize (word "campaign_lock_digest") = 22 ∧
      textSize (word "action_id") = 11 ∧ textSize (word "task_ids") = 10 ∧
      textSize (word "operations") = 12 ∧ textSize (word "expires_at") = 12 := by decide +kernel
  obtain ⟨hversion, hscope, hcampaign, hdigest, haction, htask, hoperation, hexpiry⟩ := hkeys
  have hbreak : unitSize 10 = 1 := rfl
  have hone : (decimal 1).length = 1 := rfl
  have hscopes : capability.sorted.hubNamespace = capability.hubNamespace ∧
      capability.sorted.campaignId = capability.campaignId ∧
      capability.sorted.campaignLockDigest = capability.campaignLockDigest ∧
      capability.sorted.actionId = capability.actionId ∧
      capability.sorted.expiresAt = capability.expiresAt := ⟨rfl, rfl, rfl, rfl, rfl⟩
  unfold capabilityText
  rw [utf8Size_append, size_object hne, hsum]
  simp only [capabilityMembers, List.map_cons, List.map_nil, List.sum_cons, List.sum_nil, size_member,
    hversion, hscope, hcampaign, hdigest, haction, htask, hoperation, hexpiry, hstring,
    hnumber 1 (by decide), hone, utf8Size_cons, utf8Size_nil, hbreak, hnames, size_strings htasks,
    size_strings (mt List.map_eq_nil_iff.mp hoperations), hscopes, hnumber _ hexpires]
  omega

theorem size_capabilityText (h : now ≤ maxTime) :
    utf8Size (capabilityText ν localeCompare (launchCapability hubNamespace launch now)) =
      launch.size hubNamespace now := by
  have htasks := listSize_sorted (· ≤ ·) launch.nodup_taskIds id
  rw [List.map_id, List.map_id] at htasks
  have hoperations := listSize_sorted (fun first second : WorkerOperation ↦
    first.name ≤ second.name) launch.operations_nodup WorkerOperation.name
  rw [utf8Size_capabilityText (length_sorted_ne_nil.mpr launch.taskIds_ne_nil)
    (length_sorted_ne_nil.mpr launch.operations_ne_nil) (expiresAt_le _ _ h)]
  unfold Launch.size
  rw [← htasks, ← hoperations]
  rfl

variable [Hmac]

theorem length_token (h : now ≤ maxTime) (hsecret : secret ≠ [])
    (htoken : mintWorkerCapability ν localeCompare secret
      (launchCapability hubNamespace launch now) = .ok token) :
    token.length = (4 * launch.size hubNamespace now + 2) / 3 + 47 := by
  rw [mintWorkerCapability_eq _ _ hsecret (expiresAt_le _ _ h)] at htoken
  rw [← Except.ok.inj htoken]
  have hversion : (word "v1.").length = 3 := rfl
  simp only [List.length_append, List.length_cons, length_base64url, length_utf8
    (paired_capabilityText (expiresAt_le hubNamespace launch h)), size_capabilityText h, hversion]
  unfold signature
  rw [Hmac.length_hmac]
  omega

variable [Decoders]

/-- The token of a launch yields its capability until it expires, exactly if the launch fits. -/
theorem minted_verifies_iff (h : now ≤ maxTime) (hsecret : secret ≠ [])
    (htoken : mintWorkerCapability ν localeCompare secret
      (launchCapability hubNamespace launch now) = .ok token) :
    (∀ later, later / 1000 ≤ launch.expiresAt now →
      verifyWorkerCapability ν secret token hubNamespace later =
        some (launchCapability hubNamespace launch now).sorted) ↔ launch.Fits hubNamespace now := by
  have hlength := length_token h hsecret htoken
  unfold Launch.Fits
  constructor
  · intro hverifies
    have hnow : now / 1000 ≤ launch.expiresAt now := by
      unfold Launch.expiresAt
      omega
    have hbound := (parts_of_verify (hverifies now hnow)).2.1
    omega
  · intro hfits later hlater
    have hbound : token.length ≤ 4096 := by omega
    rw [mintWorkerCapability_eq _ _ hsecret (expiresAt_le _ _ h)] at htoken
    rw [verify_of_parts hsecret hbound (expiresAt_le hubNamespace launch h)
      (by rw [← Except.ok.inj htoken]
          exact splitOn_token (notMem_base64url (.inl rfl) _) (notMem_base64url (.inl rfl) _))
      (Decoders.fromBase64url_base64url _)]
    exact (checkCapability_arranged (expiresAt_le _ _ h)).1 (accepted_launchCapability hlater)

variable (ν localeCompare) in
/-- Signatures are not forged: a token whose signature is right carries a body that was minted. -/
def Unforged (secret : Text) (issued : Set WorkerCapability) (token : Text) : Prop :=
  ∀ version body tag, token.splitOn 46 = [version, body, tag] →
    Decoders.fromBase64url tag = signature secret body →
      ∃ capability ∈ issued, mintedBody ν localeCompare capability = .ok body

/-- The signature part of the token is spelled as minting spells it. -/
def CanonicalTag (token : Text) : Prop :=
  ∀ version body tag, token.splitOn 46 = [version, body, tag] →
    base64url (Decoders.fromBase64url tag) = tag

/-- What was minted was not forged. -/
theorem unforged_of_mint {issued : Set WorkerCapability} {capability : WorkerCapability}
    (hmem : capability ∈ issued) (hsecret : secret ≠ [])
    (hexpires : capability.expiresAt ≤ maxSafeInteger)
    (htoken : mintWorkerCapability ν localeCompare secret capability = .ok token) :
    Unforged ν localeCompare secret issued token := by
  intro version body tag hparts _
  rw [mintWorkerCapability_eq _ _ hsecret hexpires] at htoken
  rw [← Except.ok.inj htoken, splitOn_token (notMem_base64url (.inl rfl) _)
    (notMem_base64url (.inl rfl) _)] at hparts
  refine ⟨capability, hmem, ?_⟩
  rw [mintedBody_eq hexpires]
  exact congrArg Except.ok (List.cons.inj (List.cons.inj hparts).2).1

/-- A token that verifies says what was minted for its namespace. It was minted itself exactly if its
signature part is canonical. -/
theorem minted_of_verify {issued : Set WorkerCapability} {found : WorkerCapability}
    (hissued : ∀ capability ∈ issued, capability.expiresAt ≤ maxSafeInteger)
    (hunforged : Unforged ν localeCompare secret issued token)
    (hverify : verifyWorkerCapability ν secret token hubNamespace now = some found) :
    (∃ capability ∈ issued, capability.hubNamespace = hubNamespace ∧ found = capability.sorted) ∧
      ((∃ capability ∈ issued, capability.hubNamespace = hubNamespace ∧
        mintWorkerCapability ν localeCompare secret capability = .ok token) ↔ CanonicalTag token) := by
  obtain ⟨hsecret, hlength, body, tag, hparts, htag⟩ := parts_of_verify hverify
  obtain ⟨capability, hmem, hbody⟩ := hunforged _ _ _ hparts htag
  have hexpires := hissued capability hmem
  have hmint := mintWorkerCapability_eq ν localeCompare hsecret hexpires
  rw [mintedBody_eq hexpires] at hbody
  have hbody := Except.ok.inj hbody
  rw [hbody] at hmint
  rw [← hbody] at hparts htag
  rw [verify_of_parts hsecret hlength hexpires hparts htag] at hverify
  obtain ⟨haccepted, hfound⟩ := (checkCapability_arranged hexpires).2 found hverify
  rw [hbody] at hparts htag
  refine ⟨⟨capability, hmem, haccepted.hubNamespace, hfound⟩, ?_, ?_⟩
  · rintro ⟨other, hother, -, htoken⟩ version body' tag' hparts'
    rw [mintWorkerCapability_eq _ _ hsecret (hissued other hother)] at htoken
    rw [← Except.ok.inj htoken, splitOn_token (notMem_base64url (.inl rfl) _)
      (notMem_base64url (.inl rfl) _)] at hparts'
    simp only [List.cons.injEq, and_true] at hparts'
    rw [← hparts'.2.2, Decoders.fromBase64url_base64url]
  · intro hcanonical
    refine ⟨capability, hmem, haccepted.hubNamespace, ?_⟩
    have hspelled := hcanonical _ _ _ hparts
    rw [htag] at hspelled
    have htoken : [46].intercalate (token.splitOn 46) = token := List.intercalate_splitOn 46
    have hversion : word "v1." = word "v1" ++ [46] := rfl
    rw [hparts] at htoken
    rw [hmint, hspelled, ← htoken, hversion]
    simp [List.intercalate_cons_cons]

variable (ν localeCompare) in
/-- The token minted for a launch yields the launch's capability until it expires exactly if the launch
fits, and a string that verifies says what was minted for its namespace and was minted exactly if its
signature part is canonical. -/
theorem capability_round_trip_iff (hsecret : secret ≠ []) :
    (∀ (launch : Launch) (hubNamespace : Text), ∀ now ≤ maxTime, ∃ token,
      mintWorkerCapability ν localeCompare secret (launchCapability hubNamespace launch now) =
          .ok token ∧
        ((∀ later, later / 1000 ≤ launch.expiresAt now →
          verifyWorkerCapability ν secret token hubNamespace later =
            some (launchCapability hubNamespace launch now).sorted) ↔
          launch.Fits hubNamespace now)) ∧
    ∀ issued : Set WorkerCapability,
      (∀ capability ∈ issued, capability.expiresAt ≤ maxSafeInteger) →
      ∀ (token hubNamespace : Text) (now : ℕ) (found : WorkerCapability),
        Unforged ν localeCompare secret issued token →
        verifyWorkerCapability ν secret token hubNamespace now = some found →
        (∃ capability ∈ issued, capability.hubNamespace = hubNamespace ∧ found = capability.sorted) ∧
          ((∃ capability ∈ issued, capability.hubNamespace = hubNamespace ∧
            mintWorkerCapability ν localeCompare secret capability = .ok token) ↔
            CanonicalTag token) := by
  constructor
  · intro launch hubNamespace now hnow
    have htoken := mintWorkerCapability_eq ν localeCompare hsecret
      (expiresAt_le hubNamespace launch hnow)
    exact ⟨_, htoken, minted_verifies_iff hnow hsecret htoken⟩
  · intro issued hissued token hubNamespace now found hunforged hverify
    exact minted_of_verify hissued hunforged hverify

end

/-! ### A campaign of one task and one of many -/

section

/-- A stand-in for the signature: the first 32 octets of the secret and the text. -/
instance : Hmac where
  hmac secret text := (utf8 secret ++ (utf8 text ++ List.replicate 32 0)).take 32
  length_hmac secret text := by
    simp only [List.length_take, List.length_append, List.length_replicate]
    omega

instance : Decoders := plainDecoders

/-- Texts are compared by their units. -/
def compareUnits : Text → Text → Ordering := compare

def sampleLaunch (taskIds : List Text) (hne : taskIds ≠ []) (hnodup : taskIds.Nodup) : Launch where
  campaignId := word "campaign-one"
  actionId := word "action-one"
  campaignLockDigest := word "sha256:" ++ List.replicate 64 97
  taskIds := taskIds
  role := .preparation
  timeoutSeconds := 3600
  sandbox := none
  sandboxAuthorized := false
  sandboxTimeoutSeconds := none
  isLockDigest_digest := by decide +kernel
  taskIds_ne_nil := hne
  nodup_taskIds := hnodup
  timeoutSeconds_le := by decide
  sandbox_le := by simp
  sandboxTimeoutSeconds_le := by simp

def shortLaunch : Launch := sampleLaunch [word "task-one"] (by simp) (by simp)

/-- Twenty-six tasks with the longest identifiers that the schema allows. -/
def longTasks : List Text :=
  (List.range 26).map fun letter ↦ List.replicate 160 (UInt16.ofNat (97 + letter))

theorem longTasks_nodup : longTasks.Nodup := by decide +kernel

def longLaunch : Launch := sampleLaunch longTasks (by decide +kernel) longTasks_nodup

theorem capability_round_trip_short : ∃ token,
    mintWorkerCapability ℕ compareUnits (word "secret")
        (launchCapability (word "example") shortLaunch 1900000000000) = .ok token ∧
      (∀ later, later / 1000 ≤ shortLaunch.expiresAt 1900000000000 →
        verifyWorkerCapability ℕ (word "secret") token (word "example") later =
          some (launchCapability (word "example") shortLaunch 1900000000000).sorted) ∧
      CanonicalTag token := by
  have hsecret : word "secret" ≠ [] := by decide
  have hround := capability_round_trip_iff ℕ compareUnits hsecret
  have hnow : 1900000000000 ≤ maxTime := by decide
  obtain ⟨token, htoken, hiff⟩ := hround.1 shortLaunch (word "example") _ hnow
  have hverify := hiff.mpr (show shortLaunch.size _ _ ≤ 3036 by decide +kernel)
  have hexpires := expiresAt_le (word "example") shortLaunch hnow
  have hcanonical := (hround.2 {launchCapability (word "example") shortLaunch 1900000000000}
    (by simpa using hexpires) token (word "example") 1900000000000 _
    (unforged_of_mint rfl hsecret hexpires htoken) (hverify _ (by decide +kernel))).2
  exact ⟨token, htoken, hverify, hcanonical.mp ⟨_, rfl, rfl, htoken⟩⟩

/-- The token of the long launch is refused from the start, and the token of the short one is accepted
with padding, though no token is minted so. -/
theorem exists_refused_and_respelled : (∃ token, mintWorkerCapability ℕ compareUnits (word "secret")
        (launchCapability (word "example") longLaunch 1900000000000) = .ok token ∧
      verifyWorkerCapability ℕ (word "secret") token (word "example") 1900000000000 = none) ∧
    ∃ token, (∀ capability : WorkerCapability, capability.expiresAt ≤ maxSafeInteger →
        mintWorkerCapability ℕ compareUnits (word "secret") capability ≠ .ok token) ∧
      verifyWorkerCapability ℕ (word "secret") token (word "example") 1900000000000 =
        some (launchCapability (word "example") shortLaunch 1900000000000).sorted := by
  have hsecret : word "secret" ≠ [] := by decide
  have hnow : 1900000000000 ≤ maxTime := by decide
  have hlong := expiresAt_le (word "example") longLaunch hnow
  have hshort := expiresAt_le (word "example") shortLaunch hnow
  constructor
  · have htoken := mintWorkerCapability_eq ℕ compareUnits hsecret hlong
    refine ⟨_, htoken, ?_⟩
    have hsize : 3036 < longLaunch.size (word "example") 1900000000000 := by decide +kernel
    have hlength := length_token hnow hsecret htoken
    rw [verifyWorkerCapability, if_pos (.inr (by omega))]
  · have htoken := mintWorkerCapability_eq ℕ compareUnits hsecret hshort
    have hsize : shortLaunch.size (word "example") 1900000000000 ≤ 3000 := by decide +kernel
    have hlength := length_token hnow hsecret htoken
    let body := base64url (utf8 (capabilityText ℕ compareUnits
      (launchCapability (word "example") shortLaunch 1900000000000)))
    let tag := base64url (signature (word "secret") body)
    have hparts : (word "v1." ++ (body ++ 46 :: (tag ++ [61]))).splitOn 46 =
        [word "v1", body, tag ++ [61]] :=
      splitOn_token (notMem_base64url (.inl rfl) _) (by simp [tag, notMem_base64url])
    have htag : Decoders.fromBase64url (tag ++ [61]) = signature (word "secret") body :=
      (readBase64_padding tag).trans (readBase64_base64url _)
    refine ⟨word "v1." ++ (body ++ 46 :: (tag ++ [61])), fun capability hexpires hmint ↦ ?_, ?_⟩
    · -- the signature part of a minted token is in the alphabet
      rw [mintWorkerCapability_eq _ _ hsecret hexpires] at hmint
      rw [← Except.ok.inj hmint, splitOn_token (notMem_base64url (.inl rfl) _)
        (notMem_base64url (.inl rfl) _)] at hparts
      have hspelled := (List.cons.inj (List.cons.inj (List.cons.inj hparts).2).2).1
      have hpadding : (61 : UInt16) ∈ tag ++ [61] := by simp
      rw [← hspelled] at hpadding
      exact notMem_base64url (.inr rfl) _ hpadding
    · rw [verify_of_parts hsecret ?_ hshort hparts htag]
      · exact (checkCapability_arranged hshort).1 (accepted_launchCapability (by decide +kernel))
      · have hpadded : (word "v1." ++ (body ++ 46 :: (tag ++ [61]))).length =
            (word "v1." ++ (body ++ 46 :: tag)).length + 1 := by
          simp only [List.length_append, List.length_cons, List.length_nil]
          omega
        rw [hpadded]
        have hminted : (word "v1." ++ (body ++ 46 :: tag)).length = _ := hlength
        omega

end

end HarborHF.Capability
