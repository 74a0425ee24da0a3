import HarborHF.Async.Revisions
import HarborHF.Relational.Dict

/-!
# Claims and controller leases

A claim is a file of the coordination repository whose contents name its owner. `HubClaimStore` takes
a claim that is free or has expired, `HubControllerStateStore` also renews one and takes it over only
from a Job that has ended. Every call reads the claim at the head and commits against that head, so a
claim has one owner after every commit, and what a call changes is what it has read
(`leases_exclusive`). A call of an owner that was replaced changes nothing. It fails, but for the
release of a controller whose replacement has released the claim itself: that one finds nothing to
release and returns (`release_returns`).
-/

set_option autoImplicit false

namespace HarborHF.Hub

open Async Relational

/-! ### `HubClaimStore` -/

/-- How `datetime.fromisoformat` reads a timestamp with a time zone. -/
class IsoTime where
  fromIso : String → Option ℕ

/-- The owner of a claim: the entries of its file, which are sorted by their keys. -/
structure Owner where
  entries : Dict String String
  sorted : entries.keys.Pairwise (· < ·)
  deriving DecidableEq

/-- When the claim expires, if its owner says so. -/
def Owner.expiresAt [IsoTime] (owner : Owner) : Option ℕ :=
  (owner.entries.get? "expires_at").bind IsoTime.fromIso

def claimExpired [IsoTime] (owner : Owner) (now : ℕ) : Bool :=
  owner.expiresAt.any fun expiresAt ↦ expiresAt ≤ now

/-- `ClaimConflict`, `CoordinationError` and the errors of the repository. -/
inductive ClaimError
  | conflict (message : String)
  | coordination (message : String)
  | interrupted
  deriving DecidableEq

namespace HubClaimStore

/-- One attempt of `acquire`. -/
def acquire [IsoTime] (path : String) (owner : Owner) (now : ℕ) (observed : Option Owner) :
    Verdict (Option Owner) ClaimError Unit :=
  match observed with
  | some held =>
    if claimExpired held now = false then .fail (.conflict ("claim is already held: " ++ path))
    else .put (some owner) ()
  | none => .put (some owner) ()

/-- One attempt of `release`. -/
def release (owner : Owner) (observed : Option Owner) : Verdict (Option Owner) ClaimError Unit :=
  match observed with
  | none => .fail (.coordination "claim no longer exists")
  | some held =>
    if held ≠ owner then .fail (.coordination "claim ownership cannot be verified")
    else .put none ()

end HubClaimStore

/-- A call of the claim store. -/
inductive ClaimCall
  | acquire (owner : Owner)
  | release (owner : Owner)

/-- Any number of calls about the claim at a path. -/
def claimCalls [IsoTime] {ι : Type} (path : String) (initial : Option Owner)
    (calls : ι → ClaimCall) : Calls ι ℕ (Option Owner) ClaimError Unit :=
  { initial := initial
    verdict := fun call now observed ↦ match calls call with
      | .acquire owner => HubClaimStore.acquire path owner now observed
      | .release owner => HubClaimStore.release owner observed
    attempts := 8
    contended := fun _ ↦ .coordination "coordination repository remained contended"
    interrupted := .interrupted }

/-! ### `HubControllerStateStore` -/

/-- The claim of a controller Job (`ControllerClaim`). -/
structure ControllerClaim where
  campaignId : String
  jobId : String
  planDigest : String
  attempt : ℕ
  acquiredAt : ℕ
  heartbeatAt : ℕ
  expiresAt : ℕ
  attempt_pos : 1 ≤ attempt
  ordered : acquiredAt ≤ heartbeatAt ∧ heartbeatAt < expiresAt
  deriving DecidableEq

/-- What a renewal keeps. -/
def ControllerClaim.identity (claim : ControllerClaim) : String × String × String × ℕ × ℕ :=
  (claim.campaignId, claim.jobId, claim.planDigest, claim.attempt, claim.acquiredAt)

/-- `ControllerOwnershipConflict`, `ControllerStatusError` and the errors of the repository. -/
inductive ControllerError
  | ownership (message : String)
  | status (message : String)
  | interrupted
  deriving DecidableEq

namespace HubControllerStateStore

/-- One attempt of `acquire`. -/
def acquire (claim : ControllerClaim) (priorJobTerminal : Bool)
    (observed : Option ControllerClaim) : Verdict (Option ControllerClaim) ControllerError Unit :=
  match observed with
  | none => .put (some claim) ()
  | some held =>
    if held = claim then .done ()
    else if ¬ held.expiresAt ≤ claim.acquiredAt ∨ priorJobTerminal = false then
      .fail (.ownership "another physical Job owns the campaign controller")
    else if claim.attempt ≠ held.attempt + 1 then
      .fail (.status "replacement controller attempt is not sequential")
    else .put (some claim) ()

/-- One attempt of `heartbeat`; the two claims are compared before anything is read. -/
def heartbeat (previous renewed : ControllerClaim) (observed : Option ControllerClaim) :
    Verdict (Option ControllerClaim) ControllerError Unit :=
  if previous.identity ≠ renewed.identity ∨ renewed.heartbeatAt ≤ previous.heartbeatAt then
    .fail (.status "controller heartbeat identity is invalid")
  else if observed ≠ some previous then .fail (.status "controller record changed concurrently")
  else .put (some renewed) ()

/-- One attempt of `release`. -/
def release (claim : ControllerClaim) (observed : Option ControllerClaim) :
    Verdict (Option ControllerClaim) ControllerError Unit :=
  match observed with
  | none => .done ()
  | some held =>
    if held ≠ claim then .fail (.status "controller claim ownership cannot be verified")
    else .put none ()

end HubControllerStateStore

/-- A call of the controller store. -/
inductive ControllerCall
  | acquire (claim : ControllerClaim) (priorJobTerminal : Bool)
  | heartbeat (previous renewed : ControllerClaim)
  | release (claim : ControllerClaim)

/-- Any number of calls about the controller of a campaign. -/
def controllerCalls {ι : Type} (initial : Option ControllerClaim) (calls : ι → ControllerCall) :
    Calls ι Unit (Option ControllerClaim) ControllerError Unit :=
  { initial := initial
    verdict := fun call _ observed ↦ match calls call with
      | .acquire claim priorJobTerminal =>
        HubControllerStateStore.acquire claim priorJobTerminal observed
      | .heartbeat previous renewed => HubControllerStateStore.heartbeat previous renewed observed
      | .release claim => HubControllerStateStore.release claim observed
    attempts := 8
    contended := fun call ↦ match calls call with
      | .heartbeat _ _ => .status "controller repository remained contended"
      | _ => .status "controller claim remained contended"
    interrupted := .interrupted }

/-! ### What a commit may change -/

/-- What a call of the claim store may make of a claim. -/
def ClaimCall.Lawful [IsoTime] (now : ℕ) (before after : Option Owner) : ClaimCall → Prop
  | acquire owner => after = some owner ∧ ∀ held, before = some held →
      ∃ expiresAt, held.expiresAt = some expiresAt ∧ expiresAt ≤ now
  | release owner => before = some owner ∧ after = none

/-- What a call of the controller store may make of a claim. -/
def ControllerCall.Lawful (before after : Option ControllerClaim) : ControllerCall → Prop
  | acquire claim priorJobTerminal => after = some claim ∧ ∀ held, before = some held →
      held.expiresAt ≤ claim.acquiredAt ∧ priorJobTerminal = true ∧
        claim.attempt = held.attempt + 1
  | heartbeat previous renewed => before = some previous ∧ after = some renewed ∧
      previous.identity = renewed.identity ∧ previous.heartbeatAt < renewed.heartbeatAt
  | release claim => before = some claim ∧ after = none

section Lawful

variable {before next : Option ControllerClaim}

theorem ControllerCall.lawful_of_put {ι : Type} {initial : Option ControllerClaim}
    {calls : ι → ControllerCall} {call : ι} {seen answer : Unit}
    (h : (controllerCalls initial calls).verdict call seen before = .put next answer) :
    (calls call).Lawful before next := by
  simp only [controllerCalls] at h
  cases hcall : calls call with
  | acquire claim priorJobTerminal =>
    simp only [hcall] at h
    unfold HubControllerStateStore.acquire at h
    cases hbefore : before with
    | none =>
      simp only [hbefore, Verdict.put.injEq, and_true] at h
      exact ⟨h.symm, nofun⟩
    | some held =>
      simp only [hbefore] at h
      split_ifs at h with hsame howned hattempt
      cases h
      refine ⟨rfl, fun other hother ↦ ?_⟩
      cases hother
      rw [not_or, not_not, Bool.not_eq_false] at howned
      exact ⟨howned.1, howned.2, not_not.mp hattempt⟩
  | heartbeat previous renewed =>
    simp only [hcall] at h
    unfold HubControllerStateStore.heartbeat at h
    split_ifs at h with hidentity hobserved
    cases h
    rw [not_or, not_not, not_le] at hidentity
    exact ⟨not_not.mp hobserved, rfl, hidentity.1, hidentity.2⟩
  | release claim =>
    simp only [hcall] at h
    unfold HubControllerStateStore.release at h
    cases hbefore : before with
    | none => simp [hbefore] at h
    | some held =>
      simp only [hbefore] at h
      split_ifs at h with hheld
      cases h
      exact ⟨by rw [not_not.mp hheld], rfl⟩

theorem ClaimCall.lawful_of_put [IsoTime] {ι : Type} {path : String} {initial : Option Owner}
    {calls : ι → ClaimCall} {call : ι} {now : ℕ} {answer : Unit} {before next : Option Owner}
    (h : (claimCalls path initial calls).verdict call now before = .put next answer) :
    (calls call).Lawful now before next := by
  simp only [claimCalls] at h
  cases hcall : calls call with
  | acquire owner =>
    simp only [hcall] at h
    unfold HubClaimStore.acquire at h
    cases hbefore : before with
    | none =>
      simp only [hbefore, Verdict.put.injEq, and_true] at h
      exact ⟨h.symm, nofun⟩
    | some held =>
      simp only [hbefore] at h
      split_ifs at h with hheld
      cases h
      refine ⟨rfl, fun other hother ↦ ?_⟩
      cases hother
      rw [Bool.not_eq_false] at hheld
      obtain ⟨expiresAt, hexpires, hle⟩ := (Option.any_eq_true _ _).mp hheld
      exact ⟨expiresAt, hexpires, by simpa using hle⟩
  | release owner =>
    simp only [hcall] at h
    unfold HubClaimStore.release at h
    cases hbefore : before with
    | none => simp [hbefore] at h
    | some held =>
      simp only [hbefore] at h
      split_ifs at h with hheld
      cases h
      exact ⟨by rw [not_not.mp hheld], rfl⟩

end Lawful

/-! ### Owners that were replaced -/

section Exclusive

variable {ι : Type} [DecidableEq ι]

/-- What holds of the claim at a path: a commit changes it lawfully, an owner that acquired it had
it, and the release of an owner that has it no more fails and commits nothing. -/
structure ClaimsExclusive [IsoTime] (path : String) (initial : Option Owner) (calls : ι → ClaimCall)
    (repository : Repository ι ℕ (Option Owner) ClaimError Unit) : Prop where
  lawful : ∀ before revision after, repository.revisions = before ++ revision :: after →
    match revision.author with
    | none => revision.contents = (claimCalls path initial calls).document before
    | some (call, now) =>
      (calls call).Lawful now ((claimCalls path initial calls).document before) revision.contents
  acquired : ∀ call owner, calls call = .acquire owner →
    repository.stage call = .finished (.ok ()) → ∃ before after,
      repository.revisions = before ++ after ∧
        (claimCalls path initial calls).document before = some owner
  replaced : ∀ later call owner attempts, (claimCalls path initial calls).Steps repository later →
    calls call = .release owner → repository.stage call = .idle attempts →
    (claimCalls path initial calls).document repository.revisions ≠ some owner →
    NoneBy (fun other ↦ calls other = .acquire owner) repository later →
      later.stage call ≠ .finished (.ok ()) ∧ NoneBy (fun other ↦ other = call) repository later

/-- The claim is of a lease. -/
def Leased (lease : String × String × String × ℕ × ℕ) (contents : Option ControllerClaim) : Prop :=
  ∃ held, contents = some held ∧ held.identity = lease

/-- The call takes a lease. -/
def ControllerCall.Takes (lease : String × String × String × ℕ × ℕ) (call : ControllerCall) : Prop :=
  ∃ claim priorJobTerminal, call = .acquire claim priorJobTerminal ∧ claim.identity = lease

/-- What holds of the controller of a campaign. The release of an owner that has the claim no more
may find that the claim is gone. -/
structure ControllersExclusive (initial : Option ControllerClaim) (calls : ι → ControllerCall)
    (repository : Repository ι Unit (Option ControllerClaim) ControllerError Unit) : Prop where
  lawful : ∀ before revision after, repository.revisions = before ++ revision :: after →
    match revision.author with
    | none => revision.contents = (controllerCalls initial calls).document before
    | some (call, _) =>
      (calls call).Lawful ((controllerCalls initial calls).document before) revision.contents
  acquired : ∀ call claim priorJobTerminal, calls call = .acquire claim priorJobTerminal →
    repository.stage call = .finished (.ok ()) → ∃ before after,
      repository.revisions = before ++ after ∧
        (controllerCalls initial calls).document before = some claim
  heartbeat : ∀ later call previous renewed attempts,
    (controllerCalls initial calls).Steps repository later →
    calls call = .heartbeat previous renewed → repository.stage call = .idle attempts →
    ¬ Leased previous.identity ((controllerCalls initial calls).document repository.revisions) →
    NoneBy (fun other ↦ (calls other).Takes previous.identity) repository later →
      later.stage call ≠ .finished (.ok ()) ∧ NoneBy (fun other ↦ other = call) repository later
  release : ∀ later call claim attempts, (controllerCalls initial calls).Steps repository later →
    calls call = .release claim → repository.stage call = .idle attempts →
    ¬ Leased claim.identity ((controllerCalls initial calls).document repository.revisions) →
    NoneBy (fun other ↦ (calls other).Takes claim.identity) repository later →
      (later.stage call = .finished (.ok ()) → ∃ before after,
        later.revisions = repository.revisions ++ before ++ after ∧
          (controllerCalls initial calls).document (repository.revisions ++ before) = none) ∧
        NoneBy (fun other ↦ other = call) repository later

section Claims

variable [IsoTime] {path : String} {initial : Option Owner} {calls : ι → ClaimCall}
  {repository : Repository ι ℕ (Option Owner) ClaimError Unit}

theorem claimsExclusive (h : (claimCalls path initial calls).Sound repository) :
    ClaimsExclusive path initial calls repository where
  lawful before revision after heq := by
    rcases h.lawful ClaimCall.lawful_of_put heq with ⟨hauthor, hlawful⟩ | ⟨_, _, hauthor, hlawful⟩
    · rwa [hauthor]
    · rwa [hauthor]
  acquired call owner hcall hfinished := by
    obtain ⟨before, after, now, heq, hdone | ⟨revision, rest, rfl, -, hput⟩⟩ :=
      h.answered call () hfinished
    · simp only [claimCalls, hcall, HubClaimStore.acquire] at hdone
      split at hdone
      · split_ifs at hdone
      · cases hdone
    · have hlawful := ClaimCall.lawful_of_put hput
      rw [hcall] at hlawful
      refine ⟨before ++ [revision], rest, by rw [heq, List.append_assoc]; rfl, ?_⟩
      rw [Calls.document_concat]
      exact hlawful.1
  replaced later call owner attempts hsteps hcall hidle hfree hnone := by
    have hstale : (claimCalls path initial calls).Stale (fun contents ↦ contents = some owner) call
        repository.revisions later := by
      refine h.stale hsteps ?_ ?_ hfree hidle hnone
      · intro other now contents next answer hother hnot hput
        have hlawful := ClaimCall.lawful_of_put hput
        cases hkind : calls other with
        | acquire taken =>
          rw [hkind] at hlawful
          rw [hlawful.1]
          intro heq
          cases heq
          exact hother hkind
        | release released =>
          rw [hkind] at hlawful
          rw [hlawful.2]
          exact nofun
      · intro now contents next answer hnot hput
        have hlawful := ClaimCall.lawful_of_put hput
        rw [hcall] at hlawful
        exact hnot hlawful.1
    refine ⟨fun hfinished ↦ ?_, hstale.noneBy⟩
    obtain ⟨now, before, after, -, hdone⟩ := hstale.answered () hfinished
    simp only [claimCalls, hcall, HubClaimStore.release] at hdone
    split at hdone
    · cases hdone
    · split_ifs at hdone

end Claims

section Controllers

variable {initial : Option ControllerClaim} {calls : ι → ControllerCall}
  {repository later : Repository ι Unit (Option ControllerClaim) ControllerError Unit}

/-- A heartbeat or a release of a lease that is not held is stale until the lease is taken. -/
theorem stale_controller (h : (controllerCalls initial calls).Sound repository)
    (hsteps : (controllerCalls initial calls).Steps repository later) {call : ι} {attempts : ℕ}
    {claim : ControllerClaim}
    (hcall : (∃ renewed, calls call = .heartbeat claim renewed) ∨ calls call = .release claim)
    (hidle : repository.stage call = .idle attempts) (hfree : ¬ Leased claim.identity
      ((controllerCalls initial calls).document repository.revisions))
    (hnone : NoneBy (fun other ↦ (calls other).Takes claim.identity) repository later) :
    (controllerCalls initial calls).Stale (Leased claim.identity) call repository.revisions
      later := by
  refine h.stale hsteps ?_ ?_ hfree hidle hnone
  · intro other seen contents next answer hother hnot hput
    have hlawful := ControllerCall.lawful_of_put hput
    cases hkind : calls other with
    | acquire taken priorJobTerminal =>
      rw [hkind] at hlawful
      rw [hlawful.1]
      rintro ⟨held, heq, hidentity⟩
      cases heq
      exact hother ⟨taken, priorJobTerminal, hkind, hidentity⟩
    | heartbeat previous renewed =>
      rw [hkind] at hlawful
      obtain ⟨hbefore, hafter, hidentity, -⟩ := hlawful
      rw [hafter]
      rintro ⟨held, heq, hlease⟩
      cases heq
      exact hnot ⟨previous, hbefore, hidentity.trans hlease⟩
    | release released =>
      rw [hkind] at hlawful
      rw [hlawful.2]
      rintro ⟨held, heq, -⟩
      cases heq
  · intro seen contents next answer hnot hput
    have hlawful := ControllerCall.lawful_of_put hput
    rcases hcall with ⟨renewed, hkind⟩ | hkind
    · rw [hkind] at hlawful
      exact hnot ⟨claim, hlawful.1, rfl⟩
    · rw [hkind] at hlawful
      exact hnot ⟨claim, hlawful.1, rfl⟩

theorem controllersExclusive (h : (controllerCalls initial calls).Sound repository) :
    ControllersExclusive initial calls repository where
  lawful before revision after heq := by
    rcases h.lawful ControllerCall.lawful_of_put heq with ⟨hauthor, hlawful⟩ | ⟨_, _, hauthor, hlawful⟩
    · rwa [hauthor]
    · rwa [hauthor]
  acquired call claim priorJobTerminal hcall hfinished := by
    obtain ⟨before, after, seen, heq, hdone | ⟨revision, rest, rfl, -, hput⟩⟩ :=
      h.answered call () hfinished
    · refine ⟨before, after, heq, ?_⟩
      simp only [controllerCalls, hcall, HubControllerStateStore.acquire] at hdone
      split at hdone
      · cases hdone
      · rename_i held hheld
        split_ifs at hdone with hsame
        rw [← hsame]
        exact hheld
    · have hlawful := ControllerCall.lawful_of_put hput
      rw [hcall] at hlawful
      refine ⟨before ++ [revision], rest, by rw [heq, List.append_assoc]; rfl, ?_⟩
      rw [Calls.document_concat]
      exact hlawful.1
  heartbeat later call previous renewed attempts hsteps hcall hidle hfree hnone := by
    have hstale := stale_controller h hsteps (.inl ⟨renewed, hcall⟩) hidle hfree hnone
    refine ⟨fun hfinished ↦ ?_, hstale.noneBy⟩
    obtain ⟨seen, before, after, -, hdone⟩ := hstale.answered () hfinished
    simp only [controllerCalls, hcall, HubControllerStateStore.heartbeat] at hdone
    split_ifs at hdone
  release later call claim attempts hsteps hcall hidle hfree hnone := by
    have hstale := stale_controller h hsteps (.inr hcall) hidle hfree hnone
    refine ⟨fun hfinished ↦ ?_, hstale.noneBy⟩
    obtain ⟨seen, before, after, heq, hdone⟩ := hstale.answered () hfinished
    refine ⟨before, after, heq, ?_⟩
    simp only [controllerCalls, hcall, HubControllerStateStore.release] at hdone
    split at hdone
    · assumption
    · split_ifs at hdone

end Controllers

/-- In every interleaving of any number of calls, the claim at a path and the controller of a
campaign have one owner, which only an acquisition that found them free or expired replaces, and a
replaced owner changes nothing. -/
theorem leases_exclusive [IsoTime] : (∀ path initial (calls : ι → ClaimCall) repository,
      (claimCalls path initial calls).Reachable repository →
        ClaimsExclusive path initial calls repository) ∧
      ∀ initial (calls : ι → ControllerCall) repository,
        (controllerCalls initial calls).Reachable repository →
          ControllersExclusive initial calls repository :=
  ⟨fun _ _ _ _ h ↦ claimsExclusive h.sound, fun _ _ _ h ↦ controllersExclusive h.sound⟩

end Exclusive

/-! ### A release after the takeover -/

section Takeover

/-- The first Job of a campaign. -/
def firstClaim : ControllerClaim :=
  ⟨"campaign", "job-1", "plan", 1, 0, 0, 10, by decide, by decide⟩

/-- The Job that replaces it once its claim has expired. -/
def secondClaim : ControllerClaim :=
  ⟨"campaign", "job-2", "plan", 2, 10, 10, 20, by decide, by decide⟩

/-- Both Jobs acquire the claim, the second releases it, and then the first does. -/
def takeoverCalls : ℕ → ControllerCall
  | 0 => .acquire firstClaim false
  | 1 => .acquire secondClaim true
  | 2 => .release secondClaim
  | _ => .release firstClaim

/-- The repository after the takeover. -/
def takenOver : Repository ℕ Unit (Option ControllerClaim) ControllerError Unit :=
  ⟨[⟨some (0, ()), some firstClaim⟩, ⟨some (1, ()), some secondClaim⟩],
    Function.update (Function.update (fun _ ↦ .idle 8) 0 (.finished (.ok ()))) 1
      (.finished (.ok ()))⟩

theorem reachable_takenOver : (controllerCalls none takeoverCalls).Reachable takenOver := by
  have hfirst : (controllerCalls none takeoverCalls).Steps
      (controllerCalls none takeoverCalls).start
      ⟨[⟨some (0, ()), some firstClaim⟩],
        Function.update (fun _ ↦ .idle 8) 0 (.finished (.ok ()))⟩ :=
    Calls.Steps.put (show _ = Stage.idle (7 + 1) from rfl) (by decide)
  exact hfirst.trans (Calls.Steps.put (show _ = Stage.idle (7 + 1) from rfl) (by decide))

/-- The release of the replaced Job returns, since the other Job has released the claim. -/
theorem release_returns : ∃ later,
    (controllerCalls none takeoverCalls).Reachable takenOver ∧
      (controllerCalls none takeoverCalls).document takenOver.revisions = some secondClaim ∧
      takeoverCalls 3 = .release firstClaim ∧ takenOver.stage 3 = .idle 8 ∧
      (controllerCalls none takeoverCalls).Steps takenOver later ∧
      NoneBy (fun other ↦ (takeoverCalls other).Takes firstClaim.identity) takenOver later ∧
      later.stage 3 = .finished (.ok ()) := by
  have hreleased : (controllerCalls none takeoverCalls).Steps takenOver
      ⟨takenOver.revisions ++ [⟨some (2, ()), none⟩],
        Function.update takenOver.stage 2 (.finished (.ok ()))⟩ :=
    Calls.Steps.put (show _ = Stage.idle (7 + 1) from rfl) (by decide)
  have hreturned : (controllerCalls none takeoverCalls).Steps
      ⟨takenOver.revisions ++ [⟨some (2, ()), none⟩],
        Function.update takenOver.stage 2 (.finished (.ok ()))⟩
      ⟨takenOver.revisions ++ [⟨some (2, ()), none⟩],
        Function.update (Function.update takenOver.stage 2 (.finished (.ok ()))) 3
          (.finished (.ok ()))⟩ :=
    Calls.Steps.done (show _ = Stage.idle (7 + 1) from rfl)
      (show (controllerCalls none takeoverCalls).verdict 3 () none = .done () by decide)
  refine ⟨_, reachable_takenOver, rfl, rfl, rfl, hreleased.trans hreturned, ?_, rfl⟩
  intro fresh hfresh revision hrevision author hauthor
  obtain rfl := List.append_cancel_left hfresh
  rw [List.mem_singleton] at hrevision
  subst hrevision
  cases hauthor
  rintro ⟨claim, priorJobTerminal, hcall, -⟩
  cases hcall

local instance takeoverIsoTime : IsoTime := ⟨fun text ↦ if text = "10" then some 10 else none⟩

/-- An owner whose claim expires at 10. -/
def expiringOwner (publisher : String) : Owner :=
  ⟨[("expires_at", "10"), ("publisher_id", publisher)],
    List.pairwise_pair.mpr (show "expires_at" < "publisher_id" by decide)⟩

/-- A claim that the second owner takes over from the first. -/
def takenClaim : Repository String ℕ (Option Owner) ClaimError Unit :=
  ⟨[⟨some ("first", 0), some (expiringOwner "first")⟩,
      ⟨some ("second", 10), some (expiringOwner "second")⟩],
    Function.update (Function.update (fun _ ↦ .idle 8) "first" (.finished (.ok ()))) "second"
      (.finished (.ok ()))⟩

theorem reachable_takenClaim :
    (claimCalls "claim" none fun owner ↦ .acquire (expiringOwner owner)).Reachable takenClaim := by
  have hfirst : (claimCalls "claim" none fun owner ↦ .acquire (expiringOwner owner)).Steps
      (claimCalls "claim" none fun owner ↦ .acquire (expiringOwner owner)).start
      ⟨[⟨some ("first", 0), some (expiringOwner "first")⟩],
        Function.update (fun _ ↦ .idle 8) "first" (.finished (.ok ()))⟩ :=
    Calls.Steps.put (show _ = Stage.idle (7 + 1) from rfl) rfl
  exact hfirst.trans (Calls.Steps.put (show _ = Stage.idle (7 + 1) from rfl) rfl)

/-- Repositories to which `leases_exclusive` applies. -/
theorem leases_exclusive_takenOver :
    ClaimsExclusive "claim" none (fun owner ↦ .acquire (expiringOwner owner)) takenClaim ∧
      ControllersExclusive none takeoverCalls takenOver :=
  ⟨leases_exclusive.1 _ _ _ _ reachable_takenClaim, leases_exclusive.2 _ _ _ reachable_takenOver⟩

end Takeover

end HarborHF.Hub
