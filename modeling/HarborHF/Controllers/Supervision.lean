import Mathlib.Data.List.Nodup
import HarborHF.Async.RelyGuarantee
import HarborHF.Controllers.Programs

/-!
# What controllers and watchdogs keep

The Jobs of a campaign are the attempts from one on, and all but the last have ended: a pass launches an
attempt only after a listing in which the Job of the attempt before it is there and every Job has ended.
Statuses, receipts and capacity claims name Jobs of their attempts. So a recovery names a Job that had
ended in its listing exactly when the listing shows a Job of the replacement attempt. Where a pass finds
no capacity claim of a Job that was launched after its listing, a Job that executes waves has the
capacity claim of the provider, and nobody takes a claim from a Job that has not ended.
-/

set_option autoImplicit false

namespace HarborHF.Controllers

open Async Relational Hub

/-! ### What holds of the world -/

namespace World

/-- There is a Job with an identifier, of an attempt of a campaign. -/
def Has (world : World) (jobId campaignId : String) (attempt : ℕ) : Prop :=
  ∃ job ∈ world.jobs, job.jobId = jobId ∧ job.campaignId = campaignId ∧ job.attempt = attempt

/-- There is a Job with an identifier, and it has ended. -/
def Ended (world : World) (jobId : String) : Prop :=
  ∃ job ∈ world.jobs, job.jobId = jobId ∧ job.terminal = true

/-- The Jobs of a campaign in the order in which they were launched, without their stages. -/
def launched (world : World) (campaignId : String) : List (String × ℕ) :=
  (world.listJobs campaignId).map fun job ↦ (job.jobId, job.attempt)

end World

/-- A recovery names a Job that had ended in its listing. -/
def Recovered.Dead (recovered : Recovered) : Prop :=
  ∃ job ∈ recovered.listing, job.jobId = recovered.jobId ∧ job.terminal = true

/-- A recovery is based on a listing with a Job of the attempt after the one of its status. -/
def Recovered.Replaced (recovered : Recovered) : Prop :=
  ∃ job ∈ recovered.listing, job.attempt = recovered.status.attempt + 1

/-- What holds in every run: the Jobs of each campaign are its attempts from one on, all but the last of
them have ended, and the records name Jobs of their attempts. -/
structure Kept (world : World) : Prop where
  identifiers : (world.jobs.map ControllerJob.jobId).Nodup
  attempts : ∀ campaignId, (world.listJobs campaignId).map ControllerJob.attempt =
    List.range' 1 (world.listJobs campaignId).length
  retired : ∀ job ∈ world.jobs, ∀ other ∈ world.jobs, job.campaignId = other.campaignId →
    job.attempt < other.attempt → job.terminal = true
  statuses : ∀ campaignId status, world.statuses.get? campaignId = some status →
    world.Has status.jobId campaignId status.attempt
  receipts : ∀ campaignId attempt receipt, world.receipts.get? (campaignId, attempt) = some receipt →
    world.Has receipt.jobId campaignId attempt
  capacity : ∀ provider claim, world.capacity.get? provider = some claim →
    claim.provider = provider ∧ world.Has claim.jobId claim.campaignId claim.attempt
  executing : ∀ provider jobId, (provider, jobId) ∈ world.executing →
    (∃ job ∈ world.jobs, job.jobId = jobId) ∧ (world.processes.get? jobId).isSome = true
  recovered : ∀ recovered ∈ world.recovered, recovered.Dead ↔ recovered.Replaced

/-- A running Job that executes waves has the capacity claim of the provider, and no claim was taken
from a running Job. -/
structure Exclusive (world : World) : Prop where
  held : ∀ provider jobId, (provider, jobId) ∈ world.executing → world.isRunning jobId = true →
    ∃ claim, world.capacity.get? provider = some claim ∧ claim.jobId = jobId
  lost : world.lost = []

/-- The invariant of a run, with the exclusion where the run is strict. -/
def Invariant (strict : Prop) (world : World) : Prop := Kept world ∧ (strict → Exclusive world)

/-! ### What a thread relies on -/

/-- What a thread relies on while others run: Jobs stay and end once, and the process of a Job is its
own, with the waves it executes and, in a strict run, the capacity claims it has until its Job ends. -/
structure Respected (strict : Prop) (thread : ℕ) (before after : World) : Prop where
  has : ∀ jobId campaignId attempt, before.Has jobId campaignId attempt →
    after.Has jobId campaignId attempt
  ended : ∀ jobId, before.Ended jobId → after.Ended jobId
  launched : ∀ campaignId, before.launched campaignId <+: after.launched campaignId
  process : ∀ jobId, before.processes.get? jobId = some thread →
    after.processes.get? jobId = some thread
  executing : ∀ jobId, before.processes.get? jobId = some thread → ∀ provider,
    (provider, jobId) ∈ after.executing ↔ (provider, jobId) ∈ before.executing
  capacity : strict → ∀ jobId, before.processes.get? jobId = some thread → ∀ provider claim,
    before.capacity.get? provider = some claim → claim.jobId = jobId →
      after.Ended jobId ∨ after.capacity.get? provider = some claim

variable {strict : Prop} {thread other : ℕ} {world before middle after : World}
  {jobId campaignId provider : String} {attempt : ℕ} {claim : CapacityClaim}

theorem Respected.refl : Respected strict thread world world :=
  ⟨fun _ _ _ h ↦ h, fun _ h ↦ h, fun _ ↦ List.prefix_rfl, fun _ h ↦ h, fun _ _ _ ↦ Iff.rfl,
    fun _ _ _ _ _ hclaim _ ↦ .inr hclaim⟩

theorem Respected.trans (h : Respected strict thread before middle)
    (h' : Respected strict thread middle after) : Respected strict thread before after where
  has := fun jobId campaignId attempt hhas ↦ h'.has _ _ _ (h.has _ _ _ hhas)
  ended := fun jobId hended ↦ h'.ended _ (h.ended _ hended)
  launched := fun campaignId ↦ (h.launched campaignId).trans (h'.launched campaignId)
  process := fun jobId hprocess ↦ h'.process _ (h.process _ hprocess)
  executing := fun jobId hprocess provider ↦
    (h'.executing jobId (h.process _ hprocess) provider).trans (h.executing jobId hprocess provider)
  capacity := by
    intro hstrict jobId hprocess provider claim hclaim hjob
    rcases h.capacity hstrict jobId hprocess provider claim hclaim hjob with hended | hkept
    · exact .inl (h'.ended _ hended)
    · exact h'.capacity hstrict jobId (h.process _ hprocess) provider claim hkept hjob

/-- A strict run reads a capacity claim only of Jobs that the listing before shows, or that have
ended. -/
def Timely (world : World) : Call → Prop
  | .readCapacity provider campaignId listing => ∀ claim,
    world.capacity.get? provider = some claim → claim.campaignId = campaignId →
      claim.jobId ∈ listing.map ControllerJob.jobId ∨ world.Ended claim.jobId
  | _ => True

/-- Each thread respects the others. -/
def supervisionContract (strict : Prop) (thread : ℕ) : Contract supervisionInterface World where
  rely := Respected strict thread
  guar before after := ∀ other, other ≠ thread → Respected strict other before after
  ok op world := strict → Timely world op.call
  rely_refl _ := Respected.refl
  rely_trans := Respected.trans

/-! ### Jobs -/

theorem job_of_mem {job : ControllerJob} (hnodup : (world.jobs.map ControllerJob.jobId).Nodup)
    (hmem : job ∈ world.jobs) : world.job job.jobId = some job := by
  unfold World.job
  generalize world.jobs = jobs at hnodup hmem
  induction jobs with
  | nil => cases hmem
  | cons first rest ih =>
    rw [List.map_cons, List.nodup_cons] at hnodup
    rcases List.mem_cons.mp hmem with rfl | hrest
    · rw [List.find?_cons_of_pos (by simp)]
    · have hne : first.jobId ≠ job.jobId := fun heq ↦ hnodup.1 (heq ▸ List.mem_map_of_mem hrest)
      rw [List.find?_cons_of_neg (by simpa using hne)]
      exact ih hnodup.2 hrest

theorem mem_of_job {job : ControllerJob} (h : world.job jobId = some job) :
    job ∈ world.jobs ∧ job.jobId = jobId := by
  unfold World.job at h
  exact ⟨List.mem_of_find?_eq_some h, by simpa using List.find?_some h⟩

theorem exists_of_isRunning (h : world.isRunning jobId = true) :
    ∃ job ∈ world.jobs, job.jobId = jobId ∧ job.terminal = false := by
  unfold World.isRunning at h
  obtain ⟨job, hjob, hrunning⟩ := (Option.any_eq_true _ _).mp h
  obtain ⟨hmem, heq⟩ := mem_of_job hjob
  exact ⟨job, hmem, heq, by simpa using hrunning⟩

namespace Kept

variable (h : Kept world)

include h

theorem eq_of_jobId {first second : ControllerJob} (hfirst : first ∈ world.jobs)
    (hsecond : second ∈ world.jobs) (heq : first.jobId = second.jobId) : first = second :=
  List.inj_on_of_nodup_map h.identifiers hfirst hsecond heq

theorem eq_of_attempt {first second : ControllerJob} (hfirst : first ∈ world.jobs)
    (hsecond : second ∈ world.jobs) (hcampaign : first.campaignId = second.campaignId)
    (hattempt : first.attempt = second.attempt) : first = second := by
  have hnodup : ((world.listJobs second.campaignId).map ControllerJob.attempt).Nodup := by
    rw [h.attempts]
    exact List.nodup_range'
  refine List.inj_on_of_nodup_map hnodup ?_ ?_ hattempt
  · exact List.mem_filter.mpr ⟨hfirst, by simpa using hcampaign⟩
  · exact List.mem_filter.mpr ⟨hsecond, by simp⟩

theorem not_ended_of_isRunning (hrunning : world.isRunning jobId = true) : ¬world.Ended jobId := by
  rintro ⟨job, hmem, heq, hterminal⟩
  obtain ⟨running, hmem', heq', hlive⟩ := exists_of_isRunning hrunning
  obtain rfl := h.eq_of_jobId hmem hmem' (heq.trans heq'.symm)
  rw [hterminal] at hlive
  cases hlive

theorem isRunning_of_not_ended (hhas : ∃ job ∈ world.jobs, job.jobId = jobId)
    (hended : ¬world.Ended jobId) : world.isRunning jobId = true := by
  obtain ⟨job, hmem, rfl⟩ := hhas
  unfold World.isRunning
  rw [job_of_mem h.identifiers hmem, Option.any_some, Bool.not_eq_true', Bool.eq_false_iff]
  exact fun hterminal ↦ hended ⟨job, hmem, rfl, hterminal⟩

theorem ended_of_lt {later : String} {next : ℕ} (hearly : world.Has jobId campaignId attempt)
    (hlate : world.Has later campaignId next) (hlt : attempt < next) : world.Ended jobId := by
  obtain ⟨job, hmem, rfl, rfl, rfl⟩ := hearly
  obtain ⟨other, hother, -, hcampaign, rfl⟩ := hlate
  exact ⟨job, hmem, rfl, h.retired job hmem other hother hcampaign.symm hlt⟩

end Kept

/-! ### Steps that change one thing -/

/-- What the invariant and the others read of the world. -/
def World.core (world : World) :=
  ((world.jobs, world.processes, world.executing, world.capacity),
    (world.lost, world.statuses, world.receipts, world.recovered))

theorem Kept.of_core (h : Kept world) (hcore : after.core = world.core) : Kept after := by
  cases world
  cases after
  simp only [World.core, Prod.mk.injEq] at hcore
  obtain ⟨⟨rfl, rfl, rfl, rfl⟩, rfl, rfl, rfl, rfl⟩ := hcore
  exact ⟨h.identifiers, h.attempts, h.retired, h.statuses, h.receipts, h.capacity, h.executing,
    h.recovered⟩

theorem Exclusive.of_core (h : Exclusive world) (hcore : after.core = world.core) :
    Exclusive after := by
  cases world
  cases after
  simp only [World.core, Prod.mk.injEq] at hcore
  obtain ⟨⟨rfl, rfl, rfl, rfl⟩, rfl, rfl, rfl, rfl⟩ := hcore
  exact ⟨h.held, h.lost⟩

theorem Invariant.of_core (h : Invariant strict world) (hcore : after.core = world.core) :
    Invariant strict after :=
  ⟨h.1.of_core hcore, fun hstrict ↦ (h.2 hstrict).of_core hcore⟩

theorem respected_of_same (hjobs : after.jobs = before.jobs)
    (hprocesses : after.processes = before.processes)
    (hexecuting : after.executing = before.executing) (hcapacity : after.capacity = before.capacity) :
    Respected strict thread before after := by
  cases before
  cases after
  dsimp only at hjobs hprocesses hexecuting hcapacity
  subst hjobs hprocesses hexecuting hcapacity
  exact ⟨fun _ _ _ h ↦ h, fun _ h ↦ h, fun _ ↦ List.prefix_rfl, fun _ h ↦ h, fun _ _ _ ↦ Iff.rfl,
    fun _ _ _ _ _ hclaim _ ↦ .inr hclaim⟩

theorem respected_of_core (hcore : after.core = before.core) :
    Respected strict thread before after := by
  simp only [World.core, Prod.mk.injEq] at hcore
  exact respected_of_same hcore.1.1 hcore.1.2.1 hcore.1.2.2.1 hcore.1.2.2.2

/-- What a step of a thread keeps: the invariant, and what the others rely on. -/
def Proper (strict : Prop) (thread : ℕ) (before after : World) : Prop :=
  Invariant strict after ∧ ∀ other, other ≠ thread → Respected strict other before after

theorem proper_of_core (h : Invariant strict before) (hcore : after.core = before.core) :
    Proper strict thread before after :=
  ⟨h.of_core hcore, fun _ _ ↦ respected_of_core hcore⟩

theorem proper_elapse (h : Proper strict thread before after) (elapsed : ℕ) :
    Proper strict thread before (after.elapse elapsed) :=
  ⟨h.1.of_core rfl, fun other hne ↦ (h.2 other hne).trans (respected_of_core rfl)⟩

theorem proper_settle {α : Type} {choice : WorldChoice} {settled : Outcome α × World}
    (hinv : Invariant strict before) (h : Proper strict thread before settled.2) :
    Proper strict thread before (choice.settle before settled).2 := by
  unfold WorldChoice.settle
  split_ifs
  · exact h
  · exact proper_of_core hinv rfl
  · exact h

/-! ### Records -/

theorem core_settleClaim (verdict : Verdict (Option ControllerClaim) ControllerError Unit) :
    (world.settleClaim campaignId verdict).2.core = world.core := by
  unfold World.settleClaim
  split <;> rfl

theorem core_acquire (claim : ControllerClaim) (priorJobTerminal : Bool) :
    (world.acquire claim priorJobTerminal).2.core = world.core := by
  unfold World.acquire
  dsimp only
  split
  · exact core_settleClaim _
  · exact core_settleClaim _

theorem core_heartbeat (staleAfter : ℕ) : (world.heartbeat staleAfter jobId).2.core = world.core := by
  unfold World.heartbeat
  split
  · rfl
  · dsimp only
    split
    · split
      · exact core_settleClaim _
      · exact core_settleClaim _
    · rfl

theorem core_release : (world.release jobId).2.core = world.core := by
  unfold World.release
  split
  · rfl
  · exact core_settleClaim _

theorem core_reserveAttempt (reservation : Reservation) :
    (world.reserveAttempt reservation).2.core = world.core := by
  unfold World.reserveAttempt
  dsimp only
  repeat' split
  all_goals rfl

theorem core_writeRecovery (decision : RecoveryDecision) :
    (world.writeRecovery decision).2.core = world.core := by
  unfold World.writeRecovery
  dsimp only
  repeat' split
  all_goals rfl

/-- A status is written for a Job that there is. -/
theorem proper_writeStatus {status : ControllerStatus} (h : Invariant strict world)
    (hhas : world.Has status.jobId status.campaignId status.attempt) :
    Proper strict thread world (world.writeStatus status).2 := by
  have hwritten : Proper strict thread world
      { world with statuses := world.statuses.set status.campaignId status } := by
    refine ⟨⟨⟨h.1.identifiers, h.1.attempts, h.1.retired, ?_, h.1.receipts, h.1.capacity,
      h.1.executing, h.1.recovered⟩, fun hstrict ↦ ⟨(h.2 hstrict).held, (h.2 hstrict).lost⟩⟩,
      fun _ _ ↦ respected_of_same rfl rfl rfl rfl⟩
    intro campaignId found hfound
    by_cases heq : campaignId = status.campaignId
    · rw [heq, Dict.get?_set_self] at hfound
      obtain rfl := Option.some.inj hfound
      exact heq ▸ hhas
    · rw [Dict.get?_set_of_ne heq] at hfound
      exact h.1.statuses campaignId found hfound
  unfold World.writeStatus
  dsimp only
  split
  · exact hwritten
  · split_ifs
    · exact proper_of_core h rfl
    · exact proper_of_core h rfl
    · exact hwritten

/-! ### Capacity claims -/

/-- A claim is acquired for a Job that there is, of a provider that has none. -/
theorem proper_acquireCapacity (h : Invariant strict world)
    (hhas : world.Has claim.jobId claim.campaignId claim.attempt) :
    Proper strict thread world (world.acquireCapacity claim).2 := by
  unfold World.acquireCapacity
  split
  · split_ifs
    · exact proper_of_core h rfl
    · exact proper_of_core h rfl
  · rename_i hnone
    have hne {provider : String} {found : CapacityClaim}
        (hfound : world.capacity.get? provider = some found) : provider ≠ claim.provider := by
      intro heq
      rw [heq, hnone] at hfound
      cases hfound
    refine ⟨⟨⟨h.1.identifiers, h.1.attempts, h.1.retired, h.1.statuses, h.1.receipts, ?_,
      h.1.executing, h.1.recovered⟩, fun hstrict ↦ ⟨?_, (h.2 hstrict).lost⟩⟩, fun other _ ↦
      ⟨fun _ _ _ h ↦ h, fun _ h ↦ h, fun _ ↦ List.prefix_rfl, fun _ h ↦ h, fun _ _ _ ↦ Iff.rfl, ?_⟩⟩
    · intro provider found hfound
      by_cases heq : provider = claim.provider
      · rw [heq, Dict.get?_set_self] at hfound
        obtain rfl := Option.some.inj hfound
        exact ⟨heq.symm, hhas⟩
      · rw [Dict.get?_set_of_ne heq] at hfound
        exact h.1.capacity provider found hfound
    · intro provider jobId hexecuting hrunning
      obtain ⟨found, hfound, hjob⟩ := (h.2 hstrict).held provider jobId hexecuting hrunning
      exact ⟨found, by rw [Dict.get?_set_of_ne (hne hfound)]; exact hfound, hjob⟩
    · intro _ jobId _ provider found hfound _
      exact .inr (by rw [Dict.get?_set_of_ne (hne hfound)]; exact hfound)

/-- Whoever deletes a capacity claim in a strict run: its Job has ended, or the process of the Job
deletes it itself and executes no waves under it. -/
def MayDrop (thread : ℕ) (actor : Option String) (claim : CapacityClaim) (world : World) : Prop :=
  world.Ended claim.jobId ∨ actor = some claim.jobId ∧
    world.processes.get? claim.jobId = some thread ∧ (claim.provider, claim.jobId) ∉ world.executing

theorem proper_dropCapacity {actor : Option String}
    (h : Invariant strict world) (hclaim : world.capacity.get? claim.provider = some claim)
    (hmay : strict → MayDrop thread actor claim world) :
    Proper strict thread world (world.dropCapacity actor claim) := by
  refine ⟨⟨⟨h.1.identifiers, h.1.attempts, h.1.retired, h.1.statuses, h.1.receipts, ?_,
    h.1.executing, h.1.recovered⟩, fun hstrict ↦ ⟨?_, ?_⟩⟩, fun other hne ↦
    ⟨fun _ _ _ h ↦ h, fun _ h ↦ h, fun _ ↦ List.prefix_rfl, fun _ h ↦ h, fun _ _ _ ↦ Iff.rfl, ?_⟩⟩
  · intro provider found hfound
    by_cases heq : provider = claim.provider
    · rw [World.dropCapacity, heq, Dict.get?_erase_self] at hfound
      cases hfound
    · rw [World.dropCapacity, Dict.get?_erase_of_ne heq] at hfound
      exact h.1.capacity provider found hfound
  · intro provider jobId hexecuting hrunning
    obtain ⟨found, hfound, hjob⟩ := (h.2 hstrict).held provider jobId hexecuting hrunning
    by_cases heq : provider = claim.provider
    · rw [heq, hclaim] at hfound
      obtain rfl := Option.some.inj hfound
      rcases hmay hstrict with hended | ⟨-, -, hidle⟩
      · exact absurd (hjob ▸ hended) (h.1.not_ended_of_isRunning hrunning)
      · refine absurd ?_ hidle
        rw [← heq, hjob]
        exact hexecuting
    · refine ⟨found, ?_, hjob⟩
      rw [World.dropCapacity, Dict.get?_erase_of_ne heq]
      exact hfound
  · rw [World.dropCapacity, if_neg, (h.2 hstrict).lost]
    rintro ⟨hactor, hrunning⟩
    rcases hmay hstrict with hended | ⟨heq, -, -⟩
    · exact h.1.not_ended_of_isRunning hrunning hended
    · exact hactor heq
  · intro hstrict jobId hprocess provider found hfound hjob
    by_cases heq : provider = claim.provider
    · rw [heq, hclaim] at hfound
      obtain rfl := Option.some.inj hfound
      rcases hmay hstrict with hended | ⟨-, hown, -⟩
      · exact .inl (hjob ▸ hended)
      · rw [hjob, hprocess] at hown
        exact absurd (Option.some.inj hown) hne
    · refine .inr ?_
      rw [World.dropCapacity, Dict.get?_erase_of_ne heq]
      exact hfound

theorem proper_releaseCapacity {actor : Option String}
    (h : Invariant strict world) (hmay : strict → MayDrop thread actor claim world) :
    Proper strict thread world (world.releaseCapacity actor claim).2 := by
  unfold World.releaseCapacity
  split
  · exact proper_of_core h rfl
  · rename_i observed hobserved
    split_ifs with hsame
    · exact proper_of_core h rfl
    · rw [not_not] at hsame
      exact proper_dropCapacity h (hsame ▸ hobserved) hmay

/-- A replacement deletes the claims of Jobs before it, which have ended. -/
theorem proper_recoverCapacity {replacement : ControllerClaim} {priorJobTerminal : Bool}
    (h : Invariant strict world)
    (hhas : world.Has replacement.jobId replacement.campaignId replacement.attempt) :
    Proper strict thread world (world.recoverCapacity provider replacement priorJobTerminal).2 := by
  unfold World.recoverCapacity
  split
  · exact proper_of_core h rfl
  · rename_i observed hobserved
    split_ifs with hown hcampaign hrisky
    · exact proper_of_core h rfl
    · exact proper_of_core h rfl
    · exact proper_of_core h rfl
    · obtain ⟨heq, hobservedHas⟩ := h.1.capacity provider observed hobserved
      rw [not_not] at hcampaign
      rw [not_or, Nat.not_le] at hrisky
      exact proper_dropCapacity h (by rw [heq]; exact hobserved)
        fun _ ↦ .inl (h.1.ended_of_lt hobservedHas (hcampaign ▸ hhas) hrisky.2)

/-! ### Jobs come and go -/

theorem World.Has.append {jobs : List ControllerJob} (h : world.Has jobId campaignId attempt) :
    { world with jobs := world.jobs ++ jobs }.Has jobId campaignId attempt := by
  obtain ⟨job, hmem, hjob⟩ := h
  exact ⟨job, List.mem_append_left _ hmem, hjob⟩

/-- An attempt may be launched: it is the first one, or its predecessor is there and, unless the attempt
is there too, every Job of the campaign has ended. -/
def LaunchReady (world : World) (campaignId : String) (attempt : ℕ) : Prop :=
  attempt = 1 ∨ 1 < attempt ∧ (∃ jobId, world.Has jobId campaignId (attempt - 1)) ∧
    ((∃ jobId, world.Has jobId campaignId attempt) ∨
      ∀ job ∈ world.listJobs campaignId, job.terminal = true)

theorem Kept.attempt_le (h : Kept world) (hhas : world.Has jobId campaignId attempt) :
    1 ≤ attempt ∧ attempt ≤ (world.listJobs campaignId).length := by
  obtain ⟨job, hmem, -, hcampaign, hattempt⟩ := hhas
  have hlisted : attempt ∈ (world.listJobs campaignId).map ControllerJob.attempt :=
    List.mem_map.mpr ⟨job, List.mem_filter.mpr ⟨hmem, by simpa using hcampaign⟩, hattempt⟩
  rw [h.attempts, List.mem_range'_1] at hlisted
  omega

/-- A missing attempt that may be launched comes after all others, which have ended. -/
theorem Kept.next_of_ready (h : Kept world) (hready : LaunchReady world campaignId attempt)
    (hnone : ∀ jobId, ¬world.Has jobId campaignId attempt) :
    attempt = (world.listJobs campaignId).length + 1 ∧
      ∀ job ∈ world.listJobs campaignId, job.terminal = true := by
  have hgap : ¬(1 ≤ attempt ∧ attempt ≤ (world.listJobs campaignId).length) := by
    rintro ⟨hpos, hle⟩
    have hlisted : attempt ∈ (world.listJobs campaignId).map ControllerJob.attempt := by
      rw [h.attempts, List.mem_range'_1]
      omega
    obtain ⟨job, hmem, hattempt⟩ := List.mem_map.mp hlisted
    obtain ⟨hjobs, hcampaign⟩ := List.mem_filter.mp hmem
    exact hnone job.jobId ⟨job, hjobs, rfl, by simpa using hcampaign, hattempt⟩
  rcases hready with rfl | ⟨hlt, ⟨before, hbefore⟩, ⟨jobId, hjob⟩ | hterminal⟩
  · have hlength : (world.listJobs campaignId).length = 0 := by omega
    refine ⟨by omega, fun job hmem ↦ ?_⟩
    rw [List.eq_nil_of_length_eq_zero hlength] at hmem
    cases hmem
  · exact absurd hjob (hnone jobId)
  · have hle := (h.attempt_le hbefore).2
    exact ⟨by omega, hterminal⟩

/-- A campaign gets its next Job once all others have ended. -/
theorem proper_addJob {job : ControllerJob} (h : Invariant strict world)
    (hnew : job.jobId ∉ world.jobs.map ControllerJob.jobId)
    (hattempt : job.attempt = (world.listJobs job.campaignId).length + 1)
    (hended : ∀ other ∈ world.listJobs job.campaignId, other.terminal = true) :
    Proper strict thread world { world with jobs := world.jobs ++ [job] } := by
  have hlist (campaignId : String) :
      { world with jobs := world.jobs ++ [job] }.listJobs campaignId =
        world.listJobs campaignId ++ if job.campaignId = campaignId then [job] else [] := by
    unfold World.listJobs
    rw [List.filter_append]
    by_cases heq : job.campaignId = campaignId
    · simp [heq]
    · simp [heq]
  refine ⟨⟨⟨?_, ?_, ?_, ?_, ?_, ?_, ?_, h.1.recovered⟩, fun hstrict ↦ ⟨?_, (h.2 hstrict).lost⟩⟩,
    fun other _ ↦ ⟨fun _ _ _ hhas ↦ hhas.append, ?_, ?_, fun _ h ↦ h, fun _ _ _ ↦ Iff.rfl,
      fun _ _ _ _ _ hclaim _ ↦ .inr hclaim⟩⟩
  · rw [List.map_append, List.map_singleton]
    refine List.nodup_append.mpr ⟨h.1.identifiers, List.nodup_singleton _, ?_⟩
    intro first hfirst second hsecond heq
    rw [heq, List.mem_singleton.mp hsecond] at hfirst
    exact hnew hfirst
  · intro campaignId
    rw [hlist]
    by_cases heq : job.campaignId = campaignId
    · rw [if_pos heq, List.map_append, h.1.attempts, List.length_append, List.length_singleton,
        List.range'_concat, List.map_singleton, hattempt, heq, Nat.one_mul, Nat.add_comm 1]
    · rw [if_neg heq, List.append_nil]
      exact h.1.attempts campaignId
  · intro first hfirst second hsecond hcampaign hlt
    rcases List.mem_append.mp hfirst with hold | hlast
    · rcases List.mem_append.mp hsecond with hold' | hlast'
      · exact h.1.retired first hold second hold' hcampaign hlt
      · obtain rfl := List.mem_singleton.mp hlast'
        exact hended first (List.mem_filter.mpr ⟨hold, by simpa using hcampaign⟩)
    · obtain rfl := List.mem_singleton.mp hlast
      rcases List.mem_append.mp hsecond with hold' | hlast'
      · have hle := (h.1.attempt_le ⟨second, hold', rfl, hcampaign.symm, rfl⟩).2
        omega
      · rw [List.mem_singleton.mp hlast'] at hlt
        exact absurd hlt (Nat.lt_irrefl _)
  · exact fun campaignId status hstatus ↦ (h.1.statuses campaignId status hstatus).append
  · exact fun campaignId attempt receipt hreceipt ↦
      (h.1.receipts campaignId attempt receipt hreceipt).append
  · intro provider claim hclaim
    obtain ⟨heq, hhas⟩ := h.1.capacity provider claim hclaim
    exact ⟨heq, hhas.append⟩
  · intro provider jobId hexecuting
    obtain ⟨⟨found, hmem, heq⟩, hprocess⟩ := h.1.executing provider jobId hexecuting
    exact ⟨⟨found, List.mem_append_left _ hmem, heq⟩, hprocess⟩
  · intro provider jobId hexecuting hrunning
    refine (h.2 hstrict).held provider jobId hexecuting ?_
    obtain ⟨found, hmem, rfl⟩ := (h.1.executing provider jobId hexecuting).1
    refine h.1.isRunning_of_not_ended ⟨found, hmem, rfl⟩ ?_
    rintro ⟨other, hother, heq, hterminal⟩
    unfold World.isRunning World.job at hrunning
    dsimp only at hrunning
    have hfound := job_of_mem h.1.identifiers hother
    rw [heq] at hfound
    unfold World.job at hfound
    rw [List.find?_append, hfound] at hrunning
    simp [hterminal] at hrunning
  · rintro jobId ⟨found, hmem, hfound⟩
    exact ⟨found, List.mem_append_left _ hmem, hfound⟩
  · intro campaignId
    unfold World.launched
    rw [hlist, List.map_append]
    exact List.prefix_append _ _

/-- A receipt names a Job of its attempt. -/
theorem proper_recordLaunch {reservation : AttemptReservation} (h : Invariant strict world)
    (hhas : world.Has jobId reservation.campaignId reservation.attempt) :
    Proper strict thread world (world.recordLaunch reservation jobId) := by
  refine ⟨⟨⟨h.1.identifiers, h.1.attempts, h.1.retired, h.1.statuses, ?_, h.1.capacity,
    h.1.executing, h.1.recovered⟩, fun hstrict ↦ ⟨(h.2 hstrict).held, (h.2 hstrict).lost⟩⟩,
    fun _ _ ↦ respected_of_same rfl rfl rfl rfl⟩
  intro campaignId attempt receipt hreceipt
  by_cases heq : (campaignId, attempt) = (reservation.campaignId, reservation.attempt)
  · rw [World.recordLaunch, heq, Dict.get?_set_self] at hreceipt
    obtain rfl := Option.some.inj hreceipt
    obtain ⟨rfl, rfl⟩ := Prod.mk.inj heq
    exact hhas
  · rw [World.recordLaunch, Dict.get?_set_of_ne heq] at hreceipt
    exact h.1.receipts campaignId attempt receipt hreceipt

theorem Proper.trans (h : Proper strict thread before middle) (h' : Proper strict thread middle after) :
    Proper strict thread before after :=
  ⟨h'.1, fun other hne ↦ (h.2 other hne).trans (h'.2 other hne)⟩

/-- The Job that a launch has found or created gets a receipt, if the write is carried out. -/
theorem proper_record {reservation : AttemptReservation} {recorded : Bool}
    (h : Invariant strict world)
    (hhas : world.Has jobId reservation.campaignId reservation.attempt) :
    let result : Outcome String × World :=
      if recorded = true then (.ok jobId, world.recordLaunch reservation jobId)
      else (.error .http, world)
    Proper strict thread world result.2 ∧ ∀ found, result.1 = .ok found →
      result.2.Has found reservation.campaignId reservation.attempt := by
  dsimp only
  split_ifs
  · refine ⟨proper_recordLaunch h hhas, fun found hfound ↦ ?_⟩
    obtain rfl := Except.ok.inj hfound
    exact hhas
  · exact ⟨proper_of_core h rfl, fun found hfound ↦ by cases hfound⟩

/-- A launch of an attempt that may be launched names a Job of the attempt. -/
theorem proper_launch {reservation : AttemptReservation} {fate : World.LaunchFate}
    (h : Invariant strict world)
    (hready : LaunchReady world reservation.campaignId reservation.attempt)
    (hnew : world.isNewJob fate = true) :
    Proper strict thread world (world.launch reservation fate).2 ∧
      ∀ found, (world.launch reservation fate).1 = .ok found →
        (world.launch reservation fate).2.Has found reservation.campaignId reservation.attempt := by
  unfold World.launch
  dsimp only
  split
  · rename_i receipt hreceipt
    have hhas := h.1.receipts _ _ receipt hreceipt
    unfold validatedLaunchReceipt
    dsimp only
    by_cases hcontract : (receipt.campaignId, receipt.planDigest, receipt.inputDigest,
        receipt.attempt) ≠ (reservation.campaignId, reservation.planDigest,
          reservation.inputDigest, reservation.attempt)
    · rw [if_pos hcontract]
      exact ⟨proper_of_core h rfl, fun found hfound ↦ by cases hfound⟩
    · rw [if_neg hcontract]
      refine ⟨proper_of_core h rfl, fun found hfound ↦ ?_⟩
      obtain rfl := Except.ok.inj hfound
      exact hhas
  · split
    · exact ⟨proper_of_core h rfl, fun found hfound ↦ by cases hfound⟩
    · rename_i job hlisted
      have hmem : job ∈ (world.listJobs reservation.campaignId).filter fun job ↦
          job.attempt = reservation.attempt := by
        rw [hlisted]
        exact List.mem_singleton.mpr rfl
      obtain ⟨hmem, hattempt⟩ := List.mem_filter.mp hmem
      obtain ⟨hjob, hcampaign⟩ := List.mem_filter.mp hmem
      exact proper_record h ⟨job, hjob, rfl, by simpa using hcampaign, by simpa using hattempt⟩
    · rename_i hlisted
      have hnone (jobId : String) :
          ¬world.Has jobId reservation.campaignId reservation.attempt := by
        rintro ⟨job, hjob, -, hcampaign, hattempt⟩
        refine List.filter_eq_nil_iff.mp hlisted job ?_ (by simpa using hattempt)
        exact List.mem_filter.mpr ⟨hjob, by simpa using hcampaign⟩
      by_cases hclaimed : fate.claimed = false
      · rw [if_pos hclaimed]
        exact ⟨proper_of_core h rfl, fun found hfound ↦ by cases hfound⟩
      · rw [if_neg hclaimed]
        split
        · exact ⟨proper_of_core h rfl, fun found hfound ↦ by cases hfound⟩
        · rename_i jobId stage hcreated
          obtain ⟨hattempt, hended⟩ := h.1.next_of_ready hready hnone
          have hadded : Proper strict thread world
              { world with
                jobs := world.jobs ++
                  [⟨jobId, reservation.campaignId, reservation.attempt, stage⟩] } := by
            refine proper_addJob h ?_ hattempt hended
            rw [World.isNewJob, hcreated] at hnew
            simpa using hnew
          have hhas : World.Has { world with
              jobs := world.jobs ++ [⟨jobId, reservation.campaignId, reservation.attempt, stage⟩] }
              jobId reservation.campaignId reservation.attempt :=
            ⟨_, List.mem_append_right _ (List.mem_singleton.mpr rfl), rfl, rfl, rfl⟩
          exact (proper_record hadded.1 hhas).imp_left hadded.trans

/-! ### Processes and waves -/

/-- The process of a Job starts once, and executes no waves before. -/
theorem proper_boot {job : ControllerJob} (h : Invariant strict world)
    (hboot : world.boot thread jobId = some (job, after)) :
    Proper strict thread world after ∧ after.Has jobId job.campaignId job.attempt ∧
      after.processes.get? jobId = some thread ∧ ∀ provider, (provider, jobId) ∉ after.executing := by
  unfold World.boot at hboot
  split at hboot
  · cases hboot
  · rename_i found hfound
    split_ifs at hboot with hblocked
    obtain ⟨rfl, rfl⟩ := Prod.mk.inj (Option.some.inj hboot)
    rw [not_or] at hblocked
    obtain ⟨hmem, heq⟩ := mem_of_job hfound
    refine ⟨⟨⟨⟨h.1.identifiers, h.1.attempts, h.1.retired, h.1.statuses, h.1.receipts,
      h.1.capacity, ?_, h.1.recovered⟩,
      fun hstrict ↦ ⟨(h.2 hstrict).held, (h.2 hstrict).lost⟩⟩, fun other _ ↦
      ⟨fun _ _ _ h ↦ h, fun _ h ↦ h, fun _ ↦ List.prefix_rfl, ?_, fun _ _ _ ↦ Iff.rfl,
        fun _ _ _ _ _ hclaim _ ↦ .inr hclaim⟩⟩,
      ⟨found, hmem, heq, rfl, rfl⟩, Dict.get?_set_self .., ?_⟩
    · intro provider running hexecuting
      obtain ⟨hjob, hprocess⟩ := h.1.executing provider running hexecuting
      refine ⟨hjob, ?_⟩
      show ((world.processes.set jobId thread).get? running).isSome = true
      by_cases hsame : running = jobId
      · rw [hsame, Dict.get?_set_self, Option.isSome_some]
      · rw [Dict.get?_set_of_ne hsame]
        exact hprocess
    · intro running hrunning
      have hne : running ≠ jobId := by
        rintro rfl
        exact hblocked.2 (Dict.get?_isSome_iff.mp (by rw [hrunning, Option.isSome_some]))
      show (world.processes.set jobId thread).get? running = some other
      rw [Dict.get?_set_of_ne hne]
      exact hrunning
    · intro provider hexecuting
      exact hblocked.2 (Dict.get?_isSome_iff.mp (h.1.executing provider jobId hexecuting).2)

/-- A Job ends, and keeps its identifier, campaign and attempt. -/
theorem proper_endJob {stage : String} (h : Invariant strict world) :
    Proper strict thread world (world.endJob jobId stage) := by
  let ended (job : ControllerJob) : ControllerJob :=
    if job.jobId = jobId ∧ job.terminal = false then { job with stage := stage } else job
  have hlabels (job : ControllerJob) : (ended job).jobId = job.jobId ∧
      (ended job).campaignId = job.campaignId ∧ (ended job).attempt = job.attempt := by
    by_cases hends : job.jobId = jobId ∧ job.terminal = false
    · simp [ended, hends]
    · simp [ended, hends]
  have hterminal (job : ControllerJob) (hjob : job.terminal = true) : ended job = job := by
    simp [ended, hjob]
  have hjobs : (world.endJob jobId stage).jobs = world.jobs.map ended := rfl
  have hlist (campaignId : String) :
      (world.endJob jobId stage).listJobs campaignId = (world.listJobs campaignId).map ended := by
    unfold World.listJobs
    rw [hjobs, List.filter_map]
    congr 1
    refine List.filter_congr fun job _ ↦ ?_
    simp [(hlabels job).2.1]
  have hhas {found campaignId : String} {attempt : ℕ} (hfound : world.Has found campaignId attempt) :
      (world.endJob jobId stage).Has found campaignId attempt := by
    obtain ⟨job, hmem, rfl, rfl, rfl⟩ := hfound
    exact ⟨ended job, List.mem_map_of_mem hmem, hlabels job⟩
  have hended (found : String) (hfound : world.Ended found) :
      (world.endJob jobId stage).Ended found := by
    obtain ⟨job, hmem, rfl, hjob⟩ := hfound
    exact ⟨job, hterminal job hjob ▸ List.mem_map_of_mem hmem, rfl, hjob⟩
  have hkept : Kept (world.endJob jobId stage) := by
    refine ⟨?_, ?_, ?_, fun _ _ hstatus ↦ hhas (h.1.statuses _ _ hstatus),
      fun _ _ _ hreceipt ↦ hhas (h.1.receipts _ _ _ hreceipt), ?_, ?_, h.1.recovered⟩
    · rw [hjobs, List.map_map, show ControllerJob.jobId ∘ ended = ControllerJob.jobId from
        funext fun job ↦ (hlabels job).1]
      exact h.1.identifiers
    · intro campaignId
      rw [hlist, List.map_map, List.length_map, show ControllerJob.attempt ∘ ended =
        ControllerJob.attempt from funext fun job ↦ (hlabels job).2.2]
      exact h.1.attempts campaignId
    · intro first hfirst second hsecond hcampaign hlt
      obtain ⟨job, hjob, rfl⟩ := List.mem_map.mp hfirst
      obtain ⟨other, hother, rfl⟩ := List.mem_map.mp hsecond
      rw [(hlabels job).2.1, (hlabels other).2.1] at hcampaign
      rw [(hlabels job).2.2, (hlabels other).2.2] at hlt
      have hretired := h.1.retired job hjob other hother hcampaign hlt
      show (ended job).terminal = true
      rw [hterminal job hretired]
      exact hretired
    · intro provider claim hclaim
      obtain ⟨heq, hfound⟩ := h.1.capacity provider claim hclaim
      exact ⟨heq, hhas hfound⟩
    · intro provider found hexecuting
      obtain ⟨⟨job, hmem, heq⟩, hprocess⟩ := h.1.executing provider found hexecuting
      exact ⟨⟨ended job, List.mem_map_of_mem hmem, (hlabels job).1.trans heq⟩, hprocess⟩
  refine ⟨⟨hkept, fun hstrict ↦ ⟨?_, (h.2 hstrict).lost⟩⟩, fun other _ ↦
    ⟨fun _ _ _ ↦ hhas, hended, ?_, fun _ h ↦ h, fun _ _ _ ↦ Iff.rfl,
      fun _ _ _ _ _ hclaim _ ↦ .inr hclaim⟩⟩
  · intro provider found hexecuting hrunning
    refine (h.2 hstrict).held provider found hexecuting ?_
    refine h.1.isRunning_of_not_ended (h.1.executing provider found hexecuting).1 fun hfound ↦ ?_
    exact hkept.not_ended_of_isRunning hrunning (hended found hfound)
  · intro campaignId
    unfold World.launched
    have hsame : ((world.listJobs campaignId).map ended).map (fun job ↦ (job.jobId, job.attempt)) =
        (world.listJobs campaignId).map fun job ↦ (job.jobId, job.attempt) := by
      rw [List.map_map]
      refine List.map_congr_left fun job _ ↦ ?_
      rw [Function.comp_apply, (hlabels job).1, (hlabels job).2.2]
    simp only [hlist, hsame, List.prefix_rfl]

/-- The process of a Job begins waves of a provider while the Job has the capacity claim. -/
theorem proper_beginWaves (h : Invariant strict world)
    (hjob : ∃ job ∈ world.jobs, job.jobId = claim.jobId)
    (hprocess : world.processes.get? claim.jobId = some thread)
    (hheld : strict → world.capacity.get? claim.provider = some claim) :
    Proper strict thread world (world.beginWaves claim) := by
  have hexecuting {provider jobId : String}
      (hmem : (provider, jobId) ∈ (world.beginWaves claim).executing) :
      (provider, jobId) ∈ world.executing ∨ provider = claim.provider ∧ jobId = claim.jobId := by
    rcases List.mem_append.mp hmem with hold | hnew
    · exact .inl hold
    · exact .inr (Prod.mk.inj (List.mem_singleton.mp hnew))
  refine ⟨⟨⟨h.1.identifiers, h.1.attempts, h.1.retired, h.1.statuses, h.1.receipts, h.1.capacity, ?_,
    h.1.recovered⟩, fun hstrict ↦ ⟨?_, (h.2 hstrict).lost⟩⟩, fun other hne ↦
    ⟨fun _ _ _ h ↦ h, fun _ h ↦ h, fun _ ↦ List.prefix_rfl, fun _ h ↦ h, ?_,
      fun _ _ _ _ _ hclaim _ ↦ .inr hclaim⟩⟩
  · intro provider jobId hmem
    rcases hexecuting hmem with hold | ⟨rfl, rfl⟩
    · exact h.1.executing provider jobId hold
    · refine ⟨hjob, ?_⟩
      show (world.processes.get? claim.jobId).isSome = true
      rw [hprocess, Option.isSome_some]
  · intro provider jobId hmem hrunning
    rcases hexecuting hmem with hold | ⟨rfl, rfl⟩
    · exact (h.2 hstrict).held provider jobId hold hrunning
    · exact ⟨claim, hheld hstrict, rfl⟩
  · intro jobId hother provider
    refine ⟨fun hmem ↦ ?_, fun hmem ↦ List.mem_append_left _ hmem⟩
    rcases hexecuting hmem with hold | ⟨-, rfl⟩
    · exact hold
    · rw [hprocess] at hother
      exact absurd (Option.some.inj hother).symm hne

theorem proper_endWaves (h : Invariant strict world)
    (hprocess : world.processes.get? claim.jobId = some thread) :
    Proper strict thread world (world.endWaves claim) := by
  have hexecuting {provider jobId : String} : (provider, jobId) ∈ (world.endWaves claim).executing ↔
      (provider, jobId) ∈ world.executing ∧ (provider, jobId) ≠ (claim.provider, claim.jobId) := by
    rw [World.endWaves, List.mem_filter, decide_eq_true_eq]
  refine ⟨⟨⟨h.1.identifiers, h.1.attempts, h.1.retired, h.1.statuses, h.1.receipts, h.1.capacity, ?_,
    h.1.recovered⟩, fun hstrict ↦ ⟨?_, (h.2 hstrict).lost⟩⟩, fun other hne ↦
    ⟨fun _ _ _ h ↦ h, fun _ h ↦ h, fun _ ↦ List.prefix_rfl, fun _ h ↦ h, ?_,
      fun _ _ _ _ _ hclaim _ ↦ .inr hclaim⟩⟩
  · exact fun provider jobId hmem ↦ h.1.executing provider jobId (hexecuting.mp hmem).1
  · exact fun provider jobId hmem ↦ (h.2 hstrict).held provider jobId (hexecuting.mp hmem).1
  · intro jobId hother provider
    refine ⟨fun hmem ↦ (hexecuting.mp hmem).1, fun hmem ↦ hexecuting.mpr ⟨hmem, ?_⟩⟩
    intro heq
    rw [(Prod.mk.inj heq).2, hprocess] at hother
    exact hne (Option.some.inj hother).symm

theorem proper_report {recovered : Recovered} (h : Invariant strict world)
    (hrecovered : recovered.Dead ↔ recovered.Replaced) :
    Proper strict thread world { world with recovered := world.recovered ++ [recovered] } := by
  refine ⟨⟨⟨h.1.identifiers, h.1.attempts, h.1.retired, h.1.statuses, h.1.receipts, h.1.capacity,
    h.1.executing, ?_⟩, fun hstrict ↦ ⟨(h.2 hstrict).held, (h.2 hstrict).lost⟩⟩,
    fun _ _ ↦ respected_of_same rfl rfl rfl rfl⟩
  intro found hfound
  rcases List.mem_append.mp hfound with hold | hnew
  · exact h.1.recovered found hold
  · rw [List.mem_singleton.mp hnew]
    exact hrecovered

/-! ### Calls -/

/-- Where a call is proper. -/
def Permitted (strict : Prop) (thread : ℕ) (actor : Option String) (world : World) : Call → Prop
  | .writeStatus status => world.Has status.jobId status.campaignId status.attempt
  | .acquireCapacity claim => world.Has claim.jobId claim.campaignId claim.attempt
  | .releaseCapacity claim => strict → MayDrop thread actor claim world
  | .recoverCapacity _ replacement _ =>
    world.Has replacement.jobId replacement.campaignId replacement.attempt
  | .launch reservation => LaunchReady world reservation.campaignId reservation.attempt
  | .beginWaves claim => (∃ job ∈ world.jobs, job.jobId = claim.jobId) ∧
      world.processes.get? claim.jobId = some thread ∧
        (strict → world.capacity.get? claim.provider = some claim)
  | .endWaves claim => world.processes.get? claim.jobId = some thread
  | .report recovered => recovered.Dead ↔ recovered.Replaced
  | _ => True

/-- A call that may fail returns what it does when it is carried out, or leaves the world or the one
after it with an error. -/
theorem settle_cases {α : Type} {choice : WorldChoice} {settled result : Outcome α × World}
    (h : choice.settle world settled = result) :
    result = settled ∨ ∃ error, result.1 = .error error ∧ (result.2 = world ∨ result.2 = settled.2) := by
  unfold WorldChoice.settle at h
  subst h
  split_ifs
  · exact .inr ⟨_, rfl, .inr rfl⟩
  · exact .inr ⟨_, rfl, .inl rfl⟩
  · exact .inl rfl

/-- A permitted call keeps the invariant and what the others rely on. -/
theorem proper_performCall {actor : Option String} {choice : WorldChoice} {call : Call}
    {answer : Outcome call.Answer} (h : Invariant strict before)
    (hpermitted : Permitted strict thread actor before call)
    (hperform : performCall thread actor choice before call = some (answer, after)) :
    Proper strict thread before after := by
  have hsettle {α : Type} {settled : Outcome α × World} {answer : Outcome α} {after : World}
      (hsettled : Proper strict thread before settled.2)
      (hsome : some (choice.settle before settled) = some (answer, after)) :
      Proper strict thread before after := by
    have hproper : Proper strict thread before (choice.settle before settled).2 :=
      proper_settle h hsettled
    rw [Option.some.inj hsome] at hproper
    exact hproper
  have hread {α : Type} {value : Outcome α} {answer : Outcome α} {after : World}
      (hsome : some (choice.settle before (value, before)) = some (answer, after)) :
      Proper strict thread before after :=
    hsettle (proper_of_core h rfl) hsome
  have hcore {α : Type} {settled : Outcome α × World} {answer : Outcome α} {after : World}
      (hsame : settled.2.core = before.core)
      (hsome : some (choice.settle before settled) = some (answer, after)) :
      Proper strict thread before after :=
    hsettle (proper_of_core h hsame) hsome
  cases call with
  | boot jobId =>
    obtain ⟨booted, hboot, heq⟩ := Option.map_eq_some_iff.mp hperform
    rw [← (Prod.mk.inj heq).2]
    exact (proper_boot h hboot).1
  | clock =>
    obtain ⟨-, rfl⟩ := Prod.mk.inj (Option.some.inj hperform)
    exact proper_of_core h rfl
  | loadSnapshot | nextAction | readStatus | readClaim | readCapacity | readAttempt | readRecovery
  | writeReceipt | listJobs => exact hread hperform
  | writeStatus status => exact hsettle (proper_writeStatus h hpermitted) hperform
  | acquire claim priorJobTerminal => exact hcore (core_acquire claim priorJobTerminal) hperform
  | heartbeat staleAfter jobId =>
    rw [performCall] at hperform
    split_ifs at hperform
    exact hcore (core_heartbeat staleAfter) hperform
  | release jobId => exact hcore core_release hperform
  | acquireCapacity claim => exact hsettle (proper_acquireCapacity h hpermitted) hperform
  | releaseCapacity claim => exact hsettle (proper_releaseCapacity h hpermitted) hperform
  | recoverCapacity provider replacement priorJobTerminal =>
    exact hsettle (proper_recoverCapacity h hpermitted) hperform
  | reserveAttempt reservation => exact hcore (core_reserveAttempt reservation) hperform
  | writeRecovery decision => exact hcore (core_writeRecovery decision) hperform
  | launch reservation =>
    rw [performCall] at hperform
    split_ifs at hperform with hnew
    exact hsettle (proper_launch h hpermitted hnew).1 hperform
  | beginWaves claim =>
    obtain ⟨-, rfl⟩ := Prod.mk.inj (Option.some.inj hperform)
    exact proper_beginWaves h hpermitted.1 hpermitted.2.1 hpermitted.2.2
  | endWaves claim =>
    obtain ⟨-, rfl⟩ := Prod.mk.inj (Option.some.inj hperform)
    exact proper_endWaves h hpermitted
  | report recovered =>
    obtain ⟨-, rfl⟩ := Prod.mk.inj (Option.some.inj hperform)
    exact proper_report h hpermitted
  | endJob jobId stage =>
    obtain ⟨-, rfl⟩ := Prod.mk.inj (Option.some.inj hperform)
    exact proper_endJob h

end HarborHF.Controllers
