import HarborHF.Async.Call
import HarborHF.Controllers.Supervision

/-!
# The runs of controllers and watchdogs

Every program of a submission, a watchdog pass, a controller or a Job that ends is safe under the
contract of its thread. What a pass has read stays true: a Job of an attempt, a Job that has ended, the
order of the Jobs it has listed. The process of a Job is the only one that begins and ends its waves.
-/

set_option autoImplicit false

namespace HarborHF.Controllers

open Async Relational Hub

/-! ### Rules -/

/-- A program is safe under the contract of its thread. -/
abbrev SafeAct {α : Type} (strict : Prop) (thread : ℕ) (program : Act α) (post : α → World → Prop)
    (fail : SupervisionError → World → Prop) (world : World) : Prop :=
  Safe supervisionMachine (Invariant strict) thread (supervisionContract strict thread) program post
    fail world

/-- What others leave of the world, a fact survives. -/
def Survives (strict : Prop) (thread : ℕ) (hold : World → Prop) : Prop :=
  ∀ before after, Respected strict thread before after → hold before → hold after

/-- A fact that nobody changes. -/
def Durable (strict : Prop) (hold : World → Prop) : Prop := ∀ thread, Survives strict thread hold

variable {α β : Type} {strict : Prop} {thread : ℕ} {world before after : World}
  {jobId campaignId provider : String} {attempt : ℕ} {jobs : List ControllerJob}
  {hold : World → Prop} {lock : CampaignLock}

theorem survives_const (fact : Prop) : Survives strict thread fun _ ↦ fact := fun _ _ _ h ↦ h

theorem survives_imp {fact : Prop} (h : fact → Survives strict thread hold) :
    Survives strict thread fun world ↦ fact → hold world :=
  fun before after hrespected hbefore hfact ↦ h hfact before after hrespected (hbefore hfact)

theorem durable_has : Durable strict fun world ↦ world.Has jobId campaignId attempt :=
  fun _ _ _ hrespected h ↦ hrespected.has _ _ _ h

theorem durable_ended : Durable strict fun world ↦ world.Ended jobId :=
  fun _ _ _ hrespected h ↦ hrespected.ended _ h

/-- A call is safe where it is permitted and its answers are as expected. -/
theorem safe_perform {actor : Option String} {call : Call} {post : call.Answer → World → Prop}
    {fail : SupervisionError → World → Prop} (hpost : ∀ value, Survives strict thread (post value))
    (hfail : ∀ error, Survives strict thread (fail error))
    (h : ∀ before, Respected strict thread world before → Invariant strict before →
      (strict → Timely before call) → before.mayCall thread actor = true →
        Permitted strict thread actor before call ∧
          ∀ choice answer after, performCall thread actor choice before call = some (answer, after) →
            Proper strict thread before after → Async.Ends post fail answer after) :
    SafeAct strict thread (perform actor call) post fail world := by
  refine safe_await fun before hrely hinv hok choice answer after hperform ↦ ?_
  have hmay : before.mayCall thread actor = true := by
    by_contra hblocked
    simp only [supervisionMachine, hblocked] at hperform
    cases hperform
  simp only [supervisionMachine, hmay] at hperform
  obtain ⟨⟨outcome, middle⟩, hcall, heq⟩ := Option.map_eq_some_iff.mp hperform
  obtain ⟨rfl, rfl⟩ := Prod.mk.inj heq
  obtain ⟨hpermitted, hanswer⟩ := h before hrely hinv hok hmay
  have hproper := proper_performCall hinv hpermitted hcall
  have hlater : Respected strict thread middle (middle.elapse choice.elapsed) :=
    respected_of_core rfl
  refine ⟨(proper_elapse hproper _).2, (proper_elapse hproper _).1, ?_⟩
  have hends := hanswer choice outcome middle hcall hproper
  cases outcome with
  | ok value => exact safe_ret fun last hlast _ ↦ hpost value middle last (hlater.trans hlast) hends
  | error error =>
    exact safe_throw fun last hlast _ ↦ hfail error middle last (hlater.trans hlast) hends

theorem SafeAct.keep {program : Act α} {post : α → World → Prop}
    (hdurable : Durable strict hold) (h : SafeAct strict thread program post (fun _ _ ↦ True) world)
    (hhold : hold world) :
    SafeAct strict thread program (fun value last ↦ post value last ∧ hold last)
      (fun _ _ ↦ True) world := by
  refine Safe.mono (Safe.frame h (hdurable thread) ?_ hhold) (fun _ _ _ hboth ↦ hboth)
    fun _ _ _ _ ↦ trivial
  intro before after hguar hbefore
  exact hdurable (thread + 1) before after (hguar (thread + 1) (Nat.succ_ne_self thread)) hbefore

theorem SafeAct.andThen {program : Act α} {next : α → Act β} {post : α → World → Prop}
    {post' : β → World → Prop} (hdurable : Durable strict hold)
    (h : SafeAct strict thread program post (fun _ _ ↦ True) world) (hinv : Invariant strict world)
    (hhold : hold world)
    (hnext : ∀ value last, Invariant strict last → post value last → hold last →
      SafeAct strict thread (next value) post' (fun _ _ ↦ True) last) :
    SafeAct strict thread (program >>= next) post' (fun _ _ ↦ True) world := by
  refine safe_bind (Safe.mono (h.keep hdurable hhold) ?_ fun _ _ _ _ ↦ trivial) hinv
  exact fun value last hlast hboth ↦ hnext value last hlast hboth.1 hboth.2

/-- What a call that may fail returns and leaves. -/
theorem ends_of_settle {choice : WorldChoice} {settled : Outcome α × World} {answer : Outcome α}
    {post : α → World → Prop} {fail : SupervisionError → World → Prop}
    (hsome : some (choice.settle before settled) = some (answer, after))
    (hpost : ∀ value, settled.1 = .ok value → post value settled.2)
    (hfail : ∀ error, fail error before ∧ fail error settled.2) :
    Async.Ends post fail answer after := by
  rcases settle_cases (Option.some.inj hsome) with rfl | ⟨error, herror, hworld⟩
  · cases answer with
    | ok value => exact hpost value rfl
    | error error => exact (hfail error).2
  · dsimp only at herror hworld
    subst herror
    rcases hworld with rfl | rfl
    · exact (hfail error).1
    · exact (hfail error).2

theorem safe_permitted {actor : Option String} {call : Call} (hdurable : Durable strict hold)
    (hpermitted : ∀ world, Invariant strict world → hold world →
      Permitted strict thread actor world call) (hhold : hold world) :
    SafeAct strict thread (perform actor call) (fun _ _ ↦ True) (fun _ _ ↦ True) world := by
  refine safe_perform (fun _ ↦ survives_const True) (fun _ ↦ survives_const True) ?_
  intro before hrely hinv _ _
  refine ⟨hpermitted before hinv (hdurable thread world before hrely hhold), ?_⟩
  intro choice answer after _ _
  cases answer with
  | ok value => trivial
  | error error => trivial

/-! ### A watchdog pass -/

/-- What a pass knows of the Jobs it has listed: their order, and which of them have ended. -/
def Listed (campaignId : String) (jobs : List ControllerJob) (world : World) : Prop :=
  (jobs.map fun job ↦ (job.jobId, job.attempt)) <+: world.launched campaignId ∧
    ∀ job ∈ jobs, job.terminal = true → world.Ended job.jobId

theorem durable_listed (jobs : List ControllerJob) : Durable strict (Listed campaignId jobs) :=
  fun _ _ _ hrespected h ↦ ⟨h.1.trans (hrespected.launched campaignId),
    fun job hjob hterminal ↦ hrespected.ended _ (h.2 job hjob hterminal)⟩

theorem listed_listJobs : Listed campaignId (world.listJobs campaignId) world :=
  ⟨List.prefix_rfl, fun job hjob hterminal ↦ ⟨job, (List.mem_filter.mp hjob).1, rfl, hterminal⟩⟩

theorem Listed.has {job : ControllerJob} (h : Listed campaignId jobs world)
    (hjob : job ∈ jobs) : world.Has job.jobId campaignId job.attempt := by
  obtain ⟨found, hfound, heq⟩ := List.mem_map.mp (h.1.subset (List.mem_map_of_mem hjob))
  obtain ⟨hmem, hcampaign⟩ := List.mem_filter.mp hfound
  obtain ⟨hjobId, hattempt⟩ := Prod.mk.inj heq
  exact ⟨found, hmem, hjobId, by simpa using hcampaign, hattempt⟩

/-- A status that was read before a listing names a listed Job. -/
theorem safe_controllerJobs {status : Option ControllerStatus} (hinv : Invariant strict world)
    (hstatus : ∀ found, status = some found → world.Has found.jobId campaignId found.attempt) :
    SafeAct strict thread (controllerJobs campaignId)
      (fun jobs world ↦ Listed campaignId jobs world ∧
        ∀ found, status = some found → ∃ job ∈ jobs, job.attempt = found.attempt)
      (fun _ _ ↦ True) world := by
  have hlist : SafeAct strict thread (perform none (.listJobs campaignId))
      (fun (jobs : List ControllerJob) world ↦ Listed campaignId jobs world ∧
        ∀ found, status = some found → ∃ job ∈ jobs, job.attempt = found.attempt)
      (fun _ _ ↦ True) world := by
    refine safe_perform ?_ (fun _ ↦ survives_const True) ?_
    · exact fun jobs before after hrespected h ↦
        ⟨durable_listed jobs thread before after hrespected h.1, h.2⟩
    · intro before hrely _ _ _
      refine ⟨trivial, fun choice answer after hperform _ ↦ ?_⟩
      refine ends_of_settle hperform (fun jobs hjobs ↦ ?_) fun _ ↦ ⟨trivial, trivial⟩
      obtain rfl := Except.ok.inj hjobs
      refine ⟨listed_listJobs, fun found hfound ↦ ?_⟩
      obtain ⟨job, hmem, -, hcampaign, hattempt⟩ := hrely.has _ _ _ (hstatus found hfound)
      exact ⟨job, List.mem_filter.mpr ⟨hmem, by simpa using hcampaign⟩, hattempt⟩
  refine safe_bind (hlist.mono (fun jobs last _ hjobs ↦ ?_) fun _ _ _ _ ↦ trivial) hinv
  split_ifs
  · exact safe_ret fun later hrely _ ↦ ⟨durable_listed jobs thread last later hrely hjobs.1, hjobs.2⟩
  · exact safe_throw fun _ _ _ ↦ trivial

/-- A pass releases the claims of Jobs that have ended, if it reads no claim of a later Job. -/
theorem safe_releaseAbandonedCapacity (hinv : Invariant strict world)
    (hlisted : Listed campaignId jobs world) :
    SafeAct strict thread (releaseAbandonedCapacity campaignId jobs provider)
      (fun _ _ ↦ True) (fun _ _ ↦ True) world := by
  have hread : SafeAct strict thread (perform none (.readCapacity provider campaignId jobs))
      (fun (found : Option CapacityClaim) world ↦ strict →
        ∀ claim, found = some claim → claim.campaignId = campaignId →
        claim.jobId ∈ jobs.map ControllerJob.jobId ∨ world.Ended claim.jobId)
      (fun _ _ ↦ True) world := by
    refine safe_perform ?_ (fun _ ↦ survives_const True) ?_
    · intro found before after hrespected h hstrict claim hclaim hcampaign
      exact (h hstrict claim hclaim hcampaign).imp_right (hrespected.ended _)
    · intro before _ _ htimely _
      refine ⟨trivial, fun choice answer after hperform _ ↦ ?_⟩
      refine ends_of_settle hperform (fun found hfound ↦ ?_) fun _ ↦ ⟨trivial, trivial⟩
      obtain rfl := Except.ok.inj hfound
      exact htimely
  refine SafeAct.andThen (durable_listed jobs) hread hinv hlisted
    fun found last hlast hfound hlisted ↦ ?_
  cases found with
  | none => exact safe_ret fun _ _ _ ↦ trivial
  | some claim =>
    show SafeAct strict thread (if capacityIsAbandoned (some claim) campaignId jobs = true then
      perform none (.releaseCapacity claim) else pure ()) _ _ last
    split_ifs with habandoned
    · have hended : strict → last.Ended claim.jobId := by
        intro hstrict
        simp only [capacityIsAbandoned, Option.any_some, Bool.and_eq_true, decide_eq_true_eq]
          at habandoned
        rcases hfound hstrict claim rfl habandoned.1 with hlistedJob | hended
        · obtain ⟨job, hjob, heq⟩ := List.mem_map.mp hlistedJob
          have hterminal : job.terminal = true := by
            by_contra hactive
            have hmem : job ∈ jobs.filter fun job ↦ !job.terminal :=
              List.mem_filter.mpr ⟨hjob, by simpa using hactive⟩
            exact habandoned.2 (List.mem_map.mpr ⟨job, hmem, heq⟩)
          exact heq ▸ hlisted.2 job hjob hterminal
        · exact hended
      have hdurable : Durable strict fun world ↦ strict → world.Ended claim.jobId :=
        fun thread ↦ survives_imp fun _ ↦ durable_ended thread
      exact safe_permitted hdurable (fun _ _ h hstrict ↦ .inl (h hstrict)) hended
    · exact safe_ret fun _ _ _ ↦ trivial

/-- After a listing with the Job of an attempt, in which every Job has ended, the attempt after it may
be launched: unless it is there already, no Job has come since. -/
theorem launchReady_of_listed (h : Kept world)
    (hlisted : Listed campaignId jobs world) (hterminal : ∀ job ∈ jobs, job.terminal = true)
    (hprior : ∃ job ∈ jobs, job.attempt = attempt) : LaunchReady world campaignId (attempt + 1) := by
  obtain ⟨prior, hmem, rfl⟩ := hprior
  have hhas := hlisted.has hmem
  have hpos := (h.attempt_le hhas).1
  refine .inr ⟨by omega, ⟨prior.jobId, hhas⟩, ?_⟩
  by_cases hnext : ∃ jobId, world.Has jobId campaignId (prior.attempt + 1)
  · exact .inl hnext
  refine .inr fun job hjob ↦ ?_
  obtain ⟨hjobs, hcampaign⟩ := List.mem_filter.mp hjob
  obtain ⟨rest, hrest⟩ := hlisted.1
  have hlabel : (job.jobId, job.attempt) ∈ world.launched campaignId := List.mem_map_of_mem hjob
  rw [← hrest, List.mem_append] at hlabel
  rcases hlabel with hold | hlater
  · obtain ⟨listed, hlistedJob, heq⟩ := List.mem_map.mp hold
    obtain ⟨ended, hended, hjobId, hstage⟩ := hlisted.2 listed hlistedJob (hterminal listed hlistedJob)
    obtain rfl := h.eq_of_jobId hended hjobs (hjobId.trans (Prod.mk.inj heq).1)
    exact hstage
  · -- a Job that has come since would have a later attempt, so that the next one would be there too
    refine absurd ?_ hnext
    have hattempts : (world.launched campaignId).map Prod.snd =
        List.range' 1 (world.listJobs campaignId).length := by
      rw [World.launched, List.map_map, ← h.attempts]
      rfl
    have hordered : ((world.launched campaignId).map Prod.snd).Pairwise (· < ·) := by
      rw [hattempts]
      exact List.pairwise_lt_range'
    rw [← hrest, List.map_append, List.pairwise_append] at hordered
    have hlt := hordered.2.2 prior.attempt
      (List.mem_map.mpr ⟨_, List.mem_map_of_mem hmem, rfl⟩) job.attempt
      (List.mem_map.mpr ⟨_, hlater, rfl⟩)
    have hle := (h.attempt_le ⟨job, hjobs, rfl, by simpa using hcampaign, rfl⟩).2
    have hlisted' : prior.attempt + 1 ∈
        (world.listJobs campaignId).map ControllerJob.attempt := by
      rw [h.attempts, List.mem_range'_1]
      omega
    obtain ⟨next, hnext, hattempt⟩ := List.mem_map.mp hlisted'
    obtain ⟨hnextJob, hnextCampaign⟩ := List.mem_filter.mp hnext
    exact ⟨next.jobId, next, hnextJob, rfl, by simpa using hnextCampaign, hattempt⟩

/-- A Job of the replacement attempt had ended in a listing whose Jobs have ended exactly when the
listing shows it. -/
theorem dead_iff_replaced {status : ControllerStatus} (h : Kept world)
    (hlisted : Listed campaignId jobs world) (hterminal : ∀ job ∈ jobs, job.terminal = true)
    (hhas : world.Has jobId campaignId (status.attempt + 1)) :
    (⟨status, jobs, jobId⟩ : Recovered).Dead ↔ (⟨status, jobs, jobId⟩ : Recovered).Replaced := by
  obtain ⟨launched, hlaunched, rfl, rfl, hnext⟩ := hhas
  constructor
  · rintro ⟨job, hjob, heq, -⟩
    obtain ⟨found, hfound, hjobId, -, hattempt⟩ := hlisted.has hjob
    obtain rfl := h.eq_of_jobId hfound hlaunched (hjobId.trans heq)
    exact ⟨job, hjob, hattempt.symm.trans hnext⟩
  · rintro ⟨job, hjob, heq⟩
    obtain ⟨found, hfound, hjobId, hcampaign, hattempt⟩ := hlisted.has hjob
    obtain rfl := h.eq_of_attempt hfound hlaunched hcampaign
      (hattempt.trans (heq.trans hnext.symm))
    exact ⟨job, hjob, hjobId.symm, hterminal job hjob⟩

/-- A pass that decides to recover has listed Jobs that have ended, and replaces the attempt of the
status it has read. -/
theorem planControllerWatchdog_recover {status : Option ControllerStatus}
    {claim : Option ControllerClaim} {campaignTerminal : Bool} {now : ℕ}
    (h : (planControllerWatchdog lock status claim jobs campaignTerminal now).action = .recover) :
    (∀ job ∈ jobs, job.terminal = true) ∧ ∀ found, status = some found →
      (planControllerWatchdog lock status claim jobs campaignTerminal now).replacementAttempt =
        some (found.attempt + 1) := by
  unfold planControllerWatchdog at h ⊢
  split at h
  · cases h
  · split_ifs at h with hdone hactive hvalid
    rw [if_neg hdone, if_neg hactive, if_neg hvalid]
    refine ⟨fun job hjob ↦ ?_, fun found hfound ↦ ?_⟩
    · by_contra hrunning
      exact hactive (List.any_eq_true.mpr ⟨job, hjob, by simpa using hrunning⟩)
    · subst hfound
      unfold statusRecoveryDecision at h ⊢
      dsimp only at h ⊢
      split_ifs at h with hpaused hlimit hretryable
      rw [if_neg hpaused, if_neg hlimit, if_neg (not_not.mpr hretryable)]

/-- What a result says of its recovery. -/
def WatchdogResult.Consistent (result : WatchdogResult) : Prop :=
  ∀ status jobId, result.status = some status → result.submission = some jobId →
    ((⟨status, result.listing, jobId⟩ : Recovered).Dead ↔
      (⟨status, result.listing, jobId⟩ : Recovered).Replaced)

/-- A launch of an attempt that stays ready names a Job of the attempt. -/
theorem safe_launch {reservation : AttemptReservation}
    (hdurable : Durable strict hold) (hready : ∀ world, Invariant strict world → hold world →
      LaunchReady world reservation.campaignId reservation.attempt) (hhold : hold world) :
    SafeAct strict thread (perform none (.launch reservation))
      (fun (jobId : String) world ↦ world.Has jobId reservation.campaignId reservation.attempt)
      (fun _ _ ↦ True) world := by
  refine safe_perform (fun _ ↦ durable_has thread) (fun _ ↦ survives_const True) ?_
  intro before hrely hinv _ _
  have hlaunch := hready before hinv (hdurable thread world before hrely hhold)
  refine ⟨hlaunch, fun choice answer after hperform _ ↦ ?_⟩
  rw [performCall] at hperform
  split_ifs at hperform with hnew
  have hproper : Proper strict thread before (before.launch reservation choice.fate).2 ∧ _ :=
    proper_launch hinv hlaunch hnew
  exact ends_of_settle hperform hproper.2 fun _ ↦ ⟨trivial, trivial⟩

theorem safe_always {actor : Option String} {call : Call}
    (h : ∀ world, Permitted strict thread actor world call) :
    SafeAct strict thread (perform actor call) (fun _ _ ↦ True) (fun _ _ ↦ True) world :=
  safe_permitted (fun _ ↦ survives_const True) (fun world _ _ ↦ h world) trivial

/-- The reserved attempt is launched for the campaign of the pass. -/
theorem safe_launchReservedController {reservation : Reservation}
    (hdurable : Durable strict hold) (hready : ∀ world, Invariant strict world → hold world →
      LaunchReady world campaignId reservation.attempt) (hhold : hold world) :
    SafeAct strict thread (launchReservedController lock campaignId reservation)
      (fun jobId world ↦ world.Has jobId campaignId reservation.attempt) (fun _ _ ↦ True) world := by
  unfold launchReservedController
  split_ifs with hcontract hlimit
  · exact safe_throw fun _ _ _ ↦ trivial
  · exact safe_throw fun _ _ _ ↦ trivial
  · simp only [not_or, not_not] at hcontract
    obtain rfl := hcontract.1
    exact safe_launch hdurable hready hhold

/-- A recovery is consistent with the listing of its pass. -/
theorem safe_recoverController {controlCommit : String}
    {status : ControllerStatus} {decision : WatchdogDecision}
    (hinv : Invariant strict world) (hlisted : Listed campaignId jobs world)
    (hterminal : ∀ job ∈ jobs, job.terminal = true)
    (hprior : ∃ job ∈ jobs, job.attempt = status.attempt) :
    SafeAct strict thread (recoverController lock campaignId controlCommit status
      (status.attempt + 1) decision jobs) (fun result _ ↦ result.Consistent) (fun _ _ ↦ True) world := by
  have hdurable : Durable strict (Listed campaignId jobs) := durable_listed jobs
  refine SafeAct.andThen hdurable (safe_always fun _ ↦ trivial) hinv hlisted
    fun prior world hinv _ hlisted ↦ ?_
  cases prior with
  | none => exact safe_throw fun _ _ _ ↦ trivial
  | some prior =>
    refine SafeAct.andThen hdurable (safe_always fun _ ↦ trivial) hinv hlisted
      fun existingRecovery world hinv _ hlisted ↦ ?_
    refine SafeAct.andThen hdurable (safe_always fun _ ↦ trivial) hinv hlisted
      fun existingReplacement world hinv _ hlisted ↦ ?_
    refine SafeAct.andThen hdurable (safe_always fun _ ↦ trivial) hinv hlisted
      fun now world hinv _ hlisted ↦ ?_
    dsimp only
    split_ifs
    · exact safe_throw fun _ _ _ ↦ trivial
    · exact safe_throw fun _ _ _ ↦ trivial
    · refine SafeAct.andThen hdurable (safe_always fun _ ↦ trivial) hinv hlisted
        fun _ world hinv _ hlisted ↦ ?_
      refine SafeAct.andThen hdurable (safe_always fun _ ↦ trivial) hinv hlisted
        fun _ world hinv _ hlisted ↦ ?_
      refine SafeAct.andThen hdurable (safe_launchReservedController hdurable
        (fun world hinv hlisted ↦ launchReady_of_listed hinv.1 hlisted hterminal hprior) hlisted)
        hinv hlisted fun jobId world hinv hhas hlisted ↦ ?_
      refine safe_ret fun last hrely hlast ↦ ?_
      intro found jobId hstatus hsubmission
      obtain rfl := Option.some.inj hstatus
      obtain rfl := Option.some.inj hsubmission
      exact dead_iff_replaced hinv.1 hlisted hterminal hhas

/-- A pass returns what is consistent with its listing. -/
theorem safe_runCampaignWatchdog {dryRun : Bool} (hinv : Invariant strict world) :
    SafeAct strict thread (runCampaignWatchdog lock campaignId dryRun)
      (fun result _ ↦ result.Consistent) (fun _ _ ↦ True) world := by
  have htrue : Durable strict fun _ ↦ True := fun _ ↦ survives_const True
  refine SafeAct.andThen htrue (safe_always fun _ ↦ trivial) hinv trivial
    fun snapshot world hinv _ _ ↦ ?_
  obtain ⟨campaignTerminal, controlCommit⟩ := snapshot
  have hread : SafeAct strict thread (perform none (.readStatus campaignId))
      (fun (status : Option ControllerStatus) world ↦ ∀ found, status = some found →
        world.Has found.jobId campaignId found.attempt) (fun _ _ ↦ True) world := by
    refine safe_perform ?_ (fun _ ↦ survives_const True) ?_
    · exact fun status before after hrespected h found hfound ↦ hrespected.has _ _ _ (h found hfound)
    · intro before _ hbefore _ _
      refine ⟨trivial, fun choice answer after hperform _ ↦ ?_⟩
      refine ends_of_settle hperform (fun status hstatus ↦ ?_) fun _ ↦ ⟨trivial, trivial⟩
      obtain rfl := Except.ok.inj hstatus
      exact fun found hfound ↦ hbefore.1.statuses campaignId found hfound
  refine SafeAct.andThen htrue hread hinv trivial
    fun (status : Option ControllerStatus) world hinv hstatus _ ↦ ?_
  have hstatusDurable : Durable strict fun world ↦ ∀ found, status = some found →
      world.Has found.jobId campaignId found.attempt :=
    fun _ _ _ hrespected h found hfound ↦ hrespected.has _ _ _ (h found hfound)
  refine SafeAct.andThen hstatusDurable (safe_always fun _ ↦ trivial) hinv hstatus
    fun claim world hinv _ hstatus ↦ ?_
  refine SafeAct.andThen htrue (safe_controllerJobs hinv hstatus) hinv trivial
    fun jobs world hinv hjobs _ ↦ ?_
  obtain ⟨hlisted, hprior⟩ := hjobs
  have hdurable : Durable strict (Listed campaignId jobs) := durable_listed jobs
  have hrelease : SafeAct strict thread
      (releaseAbandonedProviderCapacity lock campaignId jobs dryRun)
      (fun _ last ↦ Listed campaignId jobs last) (fun _ _ ↦ True) world := by
    unfold releaseAbandonedProviderCapacity
    split_ifs
    · exact safe_ret fun last hrely _ ↦ hdurable thread world last hrely hlisted
    · refine safe_forM (fun before after hrely _ ↦ hdurable thread before after hrely) ?_ hinv hlisted
      intro provider _ before hbefore hlisted
      exact ((safe_releaseAbandonedCapacity hbefore hlisted).keep hdurable hlisted).mono
        (fun _ _ _ hboth ↦ hboth.2) fun _ _ _ _ ↦ trivial
  refine SafeAct.andThen htrue hrelease hinv trivial fun _ world hinv hlisted _ ↦ ?_
  refine SafeAct.andThen hdurable (safe_always fun _ ↦ trivial) hinv hlisted
    fun now world hinv _ hlisted ↦ ?_
  dsimp only
  split_ifs with hstop
  · refine safe_ret fun last _ _ ↦ ?_
    intro found jobId _ hsubmission
    cases hsubmission
  · simp only [not_or, not_not] at hstop
    obtain ⟨hterminal, hreplacement⟩ := planControllerWatchdog_recover hstop.1
    cases status with
    | none => exact safe_throw fun _ _ _ ↦ trivial
    | some status =>
      have hattempt := hreplacement status rfl
      rw [hattempt]
      exact safe_recoverController hinv hlisted hterminal (hprior status rfl)

/-- Every program whose thread is safe, whatever it returns. -/
abbrev SafeThread (strict : Prop) (thread : ℕ) (program : Act Unit) : Prop :=
  ∀ world, Invariant strict world →
    SafeAct strict thread program (fun _ _ ↦ True) (fun _ _ ↦ True) world

theorem safe_watchdogPass (lock : CampaignLock) (campaignId : String) (dryRun : Bool) :
    SafeThread strict thread (watchdogPass lock campaignId dryRun) := by
  intro world hinv
  have htrue : Durable strict fun _ ↦ True := fun _ ↦ survives_const True
  refine SafeAct.andThen htrue (safe_runCampaignWatchdog hinv) hinv trivial
    fun result world hinv hconsistent _ ↦ ?_
  split
  · rename_i status jobId hstatus hsubmission
    exact safe_always fun _ ↦ hconsistent status jobId hstatus hsubmission
  · exact safe_ret fun _ _ _ ↦ trivial

/-! ### A submission -/

theorem safe_submitController (reservation : Reservation) :
    SafeThread strict thread (submitController reservation) := by
  intro world hinv
  have htrue : Durable strict fun _ ↦ True := fun _ ↦ survives_const True
  refine SafeAct.andThen htrue (safe_always fun _ ↦ trivial) hinv trivial
    fun existing world hinv _ _ ↦ ?_
  dsimp only
  split_ifs
  · exact safe_throw fun _ _ _ ↦ trivial
  · refine SafeAct.andThen htrue (safe_always fun _ ↦ trivial) hinv trivial
      fun _ world hinv _ _ ↦ ?_
    exact SafeAct.andThen htrue (safe_launch htrue (fun _ _ _ ↦ .inl rfl) trivial) hinv trivial
      fun _ _ _ _ _ ↦ safe_ret fun _ _ _ ↦ trivial

/-! ### The process of a Job -/

/-- What the process of a Job knows between its waves: the Job of its attempt is there, the process is
its own, and it executes no waves. -/
structure Owns (owner : Owner) (thread : ℕ) (world : World) : Prop where
  has : world.Has owner.jobId owner.campaignId owner.attempt
  process : world.processes.get? owner.jobId = some thread
  idle : ∀ provider, (provider, owner.jobId) ∉ world.executing

variable {owner : Owner}

theorem survives_owns : Survives strict thread (Owns owner thread) := by
  intro before after hrespected h
  refine ⟨hrespected.has _ _ _ h.has, hrespected.process _ h.process, fun provider hexecuting ↦ ?_⟩
  exact h.idle provider ((hrespected.executing _ h.process provider).mp hexecuting)

/-- A program that keeps a fact, whether it returns or throws. -/
def Keeps (strict : Prop) (thread : ℕ) (hold : World → Prop) (program : Act α) : Prop :=
  ∀ world, Invariant strict world → hold world →
    SafeAct strict thread program (fun _ last ↦ hold last) (fun _ last ↦ hold last) world

namespace Keeps

variable {hold : World → Prop} {program : Act α} {next : α → Act β}

theorem ret (hsurvives : Survives strict thread hold) (value : α) :
    Keeps strict thread hold (.ret value : Act α) :=
  fun world _ hhold ↦ safe_ret fun last hrely _ ↦ hsurvives world last hrely hhold

theorem throw (hsurvives : Survives strict thread hold) (error : SupervisionError) :
    Keeps strict thread hold (.throw error : Act α) :=
  fun world _ hhold ↦ safe_throw fun last hrely _ ↦ hsurvives world last hrely hhold

theorem ofExcept (hsurvives : Survives strict thread hold) (outcome : Outcome α) :
    Keeps strict thread hold (Program.ofExcept outcome) := by
  cases outcome with
  | ok value => exact ret hsurvives value
  | error error => exact throw hsurvives error

theorem bind (h : Keeps strict thread hold program)
    (hnext : ∀ value, Keeps strict thread hold (next value)) :
    Keeps strict thread hold (program >>= next) :=
  fun world hinv hhold ↦ safe_bind ((h world hinv hhold).mono
    (fun value last hlast hheld ↦ hnext value last hlast hheld) fun _ _ _ hheld ↦ hheld) hinv

theorem attempted (h : Keeps strict thread hold program) :
    Keeps strict thread hold (program.attempt : Act (Outcome α)) :=
  fun world hinv hhold ↦ safe_attempt (h world hinv hhold)

theorem forM {items : List β} {body : β → Act PUnit} (hsurvives : Survives strict thread hold)
    (h : ∀ item, Keeps strict thread hold (body item)) :
    Keeps strict thread hold (items.forM body) :=
  fun _ hinv hhold ↦ safe_forM (fun before after hrely _ ↦ hsurvives before after hrely)
    (fun item _ before hbefore hheld ↦ h item before hbefore hheld) hinv hhold

end Keeps

/-- The calls other than those that begin or end a process or its waves. -/
def Call.Plain : Call → Prop
  | .boot _ | .beginWaves _ | .endWaves _ => False
  | _ => True

/-- The processes of Jobs and the waves they execute. -/
def World.working (world : World) : Dict String ℕ × List (String × String) :=
  (world.processes, world.executing)

theorem working_of_core (h : after.core = before.core) : after.working = before.working := by
  simp only [World.core, Prod.mk.injEq] at h
  exact Prod.ext h.1.2.1 h.1.2.2.1

theorem working_launch (reservation : AttemptReservation) (fate : World.LaunchFate) :
    (world.launch reservation fate).2.working = world.working := by
  unfold World.launch
  dsimp only
  split
  · split <;> rfl
  · split
    · rfl
    · split_ifs <;> rfl
    · split_ifs with hclaimed
      · rfl
      · split
        · rfl
        · rfl
      · split
        · rfl
        · rfl

/-- A plain call leaves the processes and their waves. -/
theorem working_performCall {actor : Option String} {choice : WorldChoice} {call : Call}
    {answer : Outcome call.Answer} (hplain : call.Plain)
    (hperform : performCall thread actor choice before call = some (answer, after)) :
    after.working = before.working := by
  have hsettle {α : Type} {settled : Outcome α × World} {answer : Outcome α} {after : World}
      (hsame : settled.2.working = before.working)
      (hsome : some (choice.settle before settled) = some (answer, after)) :
      after.working = before.working := by
    rcases settle_cases (Option.some.inj hsome) with rfl | ⟨error, -, hworld | hworld⟩
    · exact hsame
    · exact congrArg World.working hworld
    · exact (congrArg World.working hworld).trans hsame
  cases call with
  | boot | beginWaves | endWaves => exact hplain.elim
  | clock | report | endJob =>
    obtain ⟨-, rfl⟩ := Prod.mk.inj (Option.some.inj hperform)
    rfl
  | loadSnapshot | nextAction | readStatus | readClaim | readCapacity | readAttempt | readRecovery
  | writeReceipt | listJobs => exact hsettle rfl hperform
  | writeStatus status =>
    refine hsettle ?_ hperform
    unfold World.writeStatus
    dsimp only
    repeat' split
    all_goals rfl
  | acquire claim priorJobTerminal =>
    exact hsettle (working_of_core (core_acquire claim priorJobTerminal)) hperform
  | heartbeat staleAfter jobId =>
    rw [performCall] at hperform
    split_ifs at hperform
    exact hsettle (working_of_core (core_heartbeat staleAfter)) hperform
  | release jobId => exact hsettle (working_of_core core_release) hperform
  | acquireCapacity claim =>
    refine hsettle ?_ hperform
    unfold World.acquireCapacity
    repeat' split
    all_goals rfl
  | releaseCapacity claim =>
    refine hsettle ?_ hperform
    unfold World.releaseCapacity
    repeat' split
    all_goals rfl
  | recoverCapacity provider replacement priorJobTerminal =>
    refine hsettle ?_ hperform
    unfold World.recoverCapacity
    repeat' split
    all_goals rfl
  | reserveAttempt reservation =>
    exact hsettle (working_of_core (core_reserveAttempt reservation)) hperform
  | writeRecovery decision =>
    exact hsettle (working_of_core (core_writeRecovery decision)) hperform
  | launch reservation =>
    rw [performCall] at hperform
    split_ifs at hperform
    exact hsettle (working_launch reservation choice.fate) hperform

/-- A call of the process of a Job that keeps a fact. -/
theorem keeps_perform {call : Call} (hsurvives : Survives strict thread hold)
    (hpermitted : ∀ world, hold world → Permitted strict thread (some owner.jobId) world call)
    (hkept : ∀ before choice answer after, hold before → Proper strict thread before after →
      performCall thread (some owner.jobId) choice before call = some (answer, after) → hold after) :
    Keeps strict thread hold (owner.perform call) := by
  intro world _ hhold
  refine safe_perform (fun _ ↦ hsurvives) (fun _ ↦ hsurvives) ?_
  intro before hrely _ _ _
  have hbefore := hsurvives world before hrely hhold
  refine ⟨hpermitted before hbefore, fun choice answer after hperform hproper ↦ ?_⟩
  have hafter := hkept before choice answer after hbefore hproper hperform
  cases answer with
  | ok value => exact hafter
  | error error => exact hafter

theorem Proper.has (h : Proper strict thread before after) (hhas : before.Has jobId campaignId attempt) :
    after.Has jobId campaignId attempt :=
  (h.2 (thread + 1) (Nat.succ_ne_self thread)).has _ _ _ hhas

theorem Proper.ended (h : Proper strict thread before after) (hended : before.Ended jobId) :
    after.Ended jobId :=
  (h.2 (thread + 1) (Nat.succ_ne_self thread)).ended _ hended

theorem Owns.of_working (h : Owns owner thread before) (hproper : Proper strict thread before after)
    (hworking : after.working = before.working) : Owns owner thread after := by
  obtain ⟨hprocesses, hexecuting⟩ := Prod.mk.inj hworking
  exact ⟨hproper.has h.has, hprocesses ▸ h.process, hexecuting ▸ h.idle⟩

theorem keeps_call {call : Call} (hplain : call.Plain)
    (hpermitted : ∀ world, Owns owner thread world →
      Permitted strict thread (some owner.jobId) world call) :
    Keeps strict thread (Owns owner thread) (owner.perform call) :=
  keeps_perform survives_owns hpermitted fun _ _ _ _ howns hproper hperform ↦
    howns.of_working hproper (working_performCall hplain hperform)

theorem keeps_writeStatus (state : ControllerState) :
    Keeps strict thread (Owns owner thread) (owner.writeStatus state) := by
  have hclock : Keeps strict thread (Owns owner thread) (owner.perform .clock) :=
    keeps_call trivial fun _ _ ↦ trivial
  exact hclock.bind fun _ ↦ keeps_call trivial fun _ howns ↦ howns.has

/-! ### Waves under a capacity claim -/

/-- The process of a Job has acquired a capacity claim, and executes no waves. In a strict run it has
the claim until its Job ends. -/
structure Claims (strict : Prop) (owner : Owner) (thread : ℕ) (claim : CapacityClaim)
    (world : World) : Prop extends Owns owner thread world where
  claimed : strict → world.Ended owner.jobId ∨ world.capacity.get? claim.provider = some claim

/-- The process of a Job executes waves of no other provider. -/
structure Executes (owner : Owner) (thread : ℕ) (provider : String) (world : World) : Prop where
  has : world.Has owner.jobId owner.campaignId owner.attempt
  process : world.processes.get? owner.jobId = some thread
  only : ∀ other, (other, owner.jobId) ∈ world.executing → other = provider

variable {claim : CapacityClaim}

theorem survives_claims (hjob : claim.jobId = owner.jobId) :
    Survives strict thread (Claims strict owner thread claim) := by
  intro before after hrespected h
  refine ⟨survives_owns before after hrespected h.toOwns, fun hstrict ↦ ?_⟩
  rcases h.claimed hstrict with hended | hclaim
  · exact .inl (hrespected.ended _ hended)
  · exact hrespected.capacity hstrict _ h.process _ claim hclaim hjob

theorem survives_executes : Survives strict thread (Executes owner thread provider) := by
  intro before after hrespected h
  refine ⟨hrespected.has _ _ _ h.has, hrespected.process _ h.process, fun other hexecuting ↦ ?_⟩
  exact h.only other ((hrespected.executing _ h.process other).mp hexecuting)

theorem capacity_writeStatus (status : ControllerStatus) :
    (world.writeStatus status).2.capacity = world.capacity := by
  unfold World.writeStatus
  dsimp only
  repeat' split
  all_goals rfl

theorem capacity_of_settle {choice : WorldChoice} {settled : Outcome α × World} {answer : Outcome α}
    (hsome : some (choice.settle before settled) = some (answer, after))
    (hsame : settled.2.capacity = before.capacity) : after.capacity = before.capacity := by
  rcases settle_cases (Option.some.inj hsome) with rfl | ⟨error, -, hworld | hworld⟩
  · exact hsame
  · exact congrArg World.capacity hworld
  · exact (congrArg World.capacity hworld).trans hsame

theorem keeps_writeStatus_claims (hjob : claim.jobId = owner.jobId) (state : ControllerState) :
    Keeps strict thread (Claims strict owner thread claim) (owner.writeStatus state) := by
  have hkept (call : Call) {choice : WorldChoice} {answer : Outcome call.Answer}
      {before after : World} (hplain : call.Plain) (h : Claims strict owner thread claim before)
      (hproper : Proper strict thread before after)
      (hperform : performCall thread (some owner.jobId) choice before call = some (answer, after))
      (hcapacity : after.capacity = before.capacity) : Claims strict owner thread claim after := by
    refine ⟨h.toOwns.of_working hproper (working_performCall hplain hperform), fun hstrict ↦ ?_⟩
    rw [hcapacity]
    exact (h.claimed hstrict).imp_left hproper.ended
  have hclock : Keeps strict thread (Claims strict owner thread claim) (owner.perform .clock) := by
    refine keeps_perform (survives_claims hjob) (fun _ _ ↦ trivial) ?_
    intro before choice answer after hclaims hproper hperform
    refine hkept .clock trivial hclaims hproper hperform ?_
    obtain ⟨-, rfl⟩ := Prod.mk.inj (Option.some.inj hperform)
    rfl
  refine hclock.bind fun now ↦ keeps_perform (survives_claims hjob) (fun _ h ↦ h.has) ?_
  intro before choice answer after hclaims hproper hperform
  exact hkept (.writeStatus _) trivial hclaims hproper hperform
    (capacity_of_settle hperform (capacity_writeStatus _))

/-- The process of a Job begins waves while the Job has the claim. -/
theorem safe_beginWaves (hjob : claim.jobId = owner.jobId)
    (h : Claims strict owner thread claim world) :
    SafeAct strict thread (owner.perform (.beginWaves claim))
      (fun _ last ↦ Executes owner thread claim.provider last)
      (fun _ last ↦ Owns owner thread last) world := by
  refine safe_perform (fun _ ↦ survives_executes) (fun _ ↦ survives_owns) ?_
  intro before hrely hinv _ hmay
  have hbefore := survives_claims hjob world before hrely h
  have hrunning : before.isRunning owner.jobId = true := by
    rw [World.mayCall, Option.all_some, Bool.and_eq_true] at hmay
    exact hmay.1
  have hclaimed : strict → before.capacity.get? claim.provider = some claim := fun hstrict ↦
    (hbefore.claimed hstrict).resolve_left (hinv.1.not_ended_of_isRunning hrunning)
  obtain ⟨job, hmem, heq, -⟩ := hbefore.has
  refine ⟨⟨⟨job, hmem, heq.trans hjob.symm⟩, hjob ▸ hbefore.process, hclaimed⟩, ?_⟩
  intro choice answer after hperform hproper
  obtain ⟨rfl, rfl⟩ := Prod.mk.inj (Option.some.inj hperform)
  refine ⟨hproper.has hbefore.has, hbefore.process, fun other hexecuting ↦ ?_⟩
  rcases List.mem_append.mp hexecuting with hold | hnew
  · exact absurd hold (hbefore.idle other)
  · exact (Prod.mk.inj (List.mem_singleton.mp hnew)).1

/-- Waves end, whatever comes of them. -/
theorem safe_endWaves (hjob : claim.jobId = owner.jobId)
    (h : Executes owner thread claim.provider world) :
    SafeAct strict thread (owner.perform (.endWaves claim))
      (fun _ last ↦ Owns owner thread last) (fun _ last ↦ Owns owner thread last) world := by
  refine safe_perform (fun _ ↦ survives_owns) (fun _ ↦ survives_owns) ?_
  intro before hrely _ _ _
  have hbefore := survives_executes world before hrely h
  refine ⟨hjob ▸ hbefore.process, fun choice answer after hperform hproper ↦ ?_⟩
  obtain ⟨-, rfl⟩ := Prod.mk.inj (Option.some.inj hperform)
  have hafter : Owns owner thread (before.endWaves claim) := by
    refine ⟨hproper.has hbefore.has, hbefore.process, fun other hexecuting ↦ ?_⟩
    obtain ⟨hmem, hne⟩ := List.mem_filter.mp hexecuting
    rw [hbefore.only other hmem, ← hjob] at hne
    simp at hne
  cases answer with
  | ok value => exact hafter
  | error error => exact hafter

theorem capacity_acquireCapacity (h : (world.acquireCapacity claim).1 = .ok ()) :
    (world.acquireCapacity claim).2.capacity.get? claim.provider = some claim := by
  unfold World.acquireCapacity at h ⊢
  split at h
  · rename_i observed hobserved
    split_ifs at h ⊢ with hsame
    rw [hobserved, hsame]
  · exact Dict.get?_set_self ..

theorem safe_acquireCapacity (hjob : claim.jobId = owner.jobId)
    (hcampaign : claim.campaignId = owner.campaignId) (hattempt : claim.attempt = owner.attempt)
    (h : Owns owner thread world) : SafeAct strict thread (owner.perform (.acquireCapacity claim))
      (fun _ last ↦ Claims strict owner thread claim last)
      (fun _ last ↦ Owns owner thread last) world := by
  refine safe_perform (fun _ ↦ survives_claims hjob) (fun _ ↦ survives_owns) ?_
  intro before hrely _ _ _
  have hbefore := survives_owns world before hrely h
  have hhas : before.Has claim.jobId claim.campaignId claim.attempt := by
    rw [hjob, hcampaign, hattempt]
    exact hbefore.has
  refine ⟨hhas, fun choice answer after hperform hproper ↦ ?_⟩
  have hplain : (Call.acquireCapacity claim).Plain := trivial
  have hafter := hbefore.of_working hproper (working_performCall hplain hperform)
  cases answer with
  | error error => exact hafter
  | ok value =>
    refine ⟨hafter, fun _ ↦ .inr ?_⟩
    rcases settle_cases (Option.some.inj hperform) with heq | ⟨error, herror, -⟩
    · have hacquired := capacity_acquireCapacity (congrArg Prod.fst heq).symm
      rw [← congrArg Prod.snd heq] at hacquired
      exact hacquired
    · cases herror

/-- Waves of a provider are executed under its capacity claim, which the process releases itself. -/
theorem keeps_applyWaves (provider actionId : String) :
    Keeps strict thread (Owns owner thread) (owner.applyWaves provider actionId) := by
  have hclock : Keeps strict thread (Owns owner thread) (owner.perform .clock) :=
    keeps_call trivial fun _ _ ↦ trivial
  refine hclock.bind fun acquiredAt ↦ ?_
  intro world hinv howns
  let claim : CapacityClaim :=
    { provider := provider
      campaignId := owner.campaignId
      planDigest := owner.planDigest
      jobId := owner.jobId
      attempt := owner.attempt
      actionId := actionId
      acquiredAt := acquiredAt }
  have hacquire : SafeAct strict thread (owner.perform (.acquireCapacity claim))
      (fun _ last ↦ Claims strict owner thread claim last)
      (fun _ last ↦ Owns owner thread last) world :=
    safe_acquireCapacity rfl rfl rfl howns
  have hattempt : SafeAct strict thread (owner.perform (.acquireCapacity claim)).attempt
      (Async.Ends (fun _ last ↦ Claims strict owner thread claim last)
        (fun _ last ↦ Owns owner thread last)) (fun _ last ↦ Owns owner thread last) world :=
    safe_attempt hacquire
  refine safe_bind (hattempt.mono (fun outcome last hlast hacquired ↦ ?_) fun _ _ _ h ↦ h) hinv
  cases outcome with
  | error error =>
    cases error with
    | unavailable message => exact keeps_writeStatus .waitingRetry last hlast hacquired
    | _ => exact Keeps.throw survives_owns _ last hlast hacquired
  | ok value =>
    let waves : Act PUnit := do
      owner.writeStatus .running
      owner.perform (.beginWaves claim)
      owner.perform (.endWaves claim)
    have hwaves : SafeAct strict thread waves
        (fun _ last ↦ Owns owner thread last) (fun _ last ↦ Owns owner thread last) last := by
      refine safe_bind ((keeps_writeStatus_claims rfl .running last hlast hacquired).mono
        (fun _ middle hmiddle hclaims ↦ ?_) fun _ _ _ hclaims ↦ hclaims.toOwns) hlast
      refine safe_bind ((safe_beginWaves rfl hclaims).mono
        (fun _ later hlater hexecutes ↦ ?_) fun _ _ _ howns ↦ howns) hmiddle
      exact safe_endWaves rfl hexecutes
    have happlied : SafeAct strict thread (waves.attempt : Act (Outcome PUnit))
        (fun _ last ↦ Owns owner thread last) (fun _ last ↦ Owns owner thread last) last :=
      safe_attempt hwaves
    refine safe_bind (happlied.mono (fun applied middle hmiddle howns ↦ ?_) fun _ _ _ h ↦ h) hlast
    have hrelease : Keeps strict thread (Owns owner thread) (owner.perform (.releaseCapacity claim)) :=
      keeps_call trivial fun _ howns _ ↦ .inr ⟨rfl, howns.process, howns.idle provider⟩
    exact (hrelease.bind fun _ ↦ Keeps.ofExcept survives_owns applied) middle hmiddle howns

theorem keeps_drive (rounds : ℕ) : Keeps strict thread (Owns owner thread) (owner.drive rounds) := by
  induction rounds with
  | zero => exact Keeps.throw survives_owns _
  | succ rounds ih =>
    have hnext : Keeps strict thread (Owns owner thread)
        (owner.perform (.nextAction owner.campaignId)) := keeps_call trivial fun _ _ ↦ trivial
    refine hnext.bind fun action ↦ ?_
    cases action with
    | finished state => exact Keeps.ret survives_owns state
    | apply state => exact (keeps_writeStatus state).bind fun _ ↦ ih
    | waves provider actionId => exact (keeps_applyWaves provider actionId).bind fun _ ↦ ih

theorem keeps_finish (state : ControllerState) :
    Keeps strict thread (Owns owner thread) (owner.finish state) := by
  have hreceipt : Keeps strict thread (Owns owner thread)
      (owner.perform (.writeReceipt owner.jobId)) := keeps_call trivial fun _ _ ↦ trivial
  have hrelease : Keeps strict thread (Owns owner thread) (owner.perform (.release owner.jobId)) :=
    keeps_call trivial fun _ _ ↦ trivial
  exact ((keeps_writeStatus state).bind fun _ ↦ hreceipt).attempted.bind fun written ↦
    hrelease.bind fun _ ↦ Keeps.ofExcept survives_owns written

theorem keeps_work {claim : ControllerClaim} {rounds : ℕ}
    (hjob : claim.jobId = owner.jobId) (hcampaign : claim.campaignId = owner.campaignId)
    (hattempt : claim.attempt = owner.attempt) :
    Keeps strict thread (Owns owner thread) (owner.work lock claim rounds) := by
  have hrecover (provider : String) : Keeps strict thread (Owns owner thread)
      (owner.perform (.recoverCapacity provider claim (decide (1 < owner.attempt)))) := by
    refine keeps_call trivial fun world howns ↦ ?_
    show world.Has claim.jobId claim.campaignId claim.attempt
    rw [hjob, hcampaign, hattempt]
    exact howns.has
  have hreceipt : Keeps strict thread (Owns owner thread)
      (owner.perform (.writeReceipt owner.jobId)) := keeps_call trivial fun _ _ ↦ trivial
  exact (Keeps.forM survives_owns hrecover).bind fun _ ↦ hreceipt.bind fun _ ↦
    (keeps_writeStatus .starting).bind fun _ ↦ keeps_drive rounds

/-- The process of a Job is safe from its start. -/
theorem safe_runController (lockOf : String → CampaignLock) (jobId : String) (rounds : ℕ) :
    SafeThread strict thread (runController lockOf jobId rounds) := by
  intro world hinv
  have hboot : SafeAct strict thread (perform none (.boot jobId))
      (fun (job : ControllerJob) last ↦ ∀ planDigest staleAfter,
        Owns ⟨jobId, job.campaignId, job.attempt, planDigest, staleAfter⟩ thread last)
      (fun _ _ ↦ True) world := by
    refine safe_perform ?_ (fun _ ↦ survives_const True) ?_
    · exact fun job before after hrespected h planDigest staleAfter ↦
        survives_owns before after hrespected (h planDigest staleAfter)
    · intro before _ hbefore _ _
      refine ⟨trivial, fun choice answer after hperform _ ↦ ?_⟩
      obtain ⟨⟨job, booted⟩, hbooted, heq⟩ := Option.map_eq_some_iff.mp hperform
      obtain ⟨rfl, rfl⟩ := Prod.mk.inj heq
      obtain ⟨-, hhas, hprocess, hidle⟩ := proper_boot hbefore hbooted
      exact fun planDigest staleAfter ↦ ⟨hhas, hprocess, hidle⟩
  refine safe_bind (hboot.mono (fun job world hinv howns ↦ ?_) fun _ _ _ _ ↦ trivial) hinv
  dsimp only
  split
  · exact safe_throw fun _ _ _ ↦ trivial
  · rename_i policy hpolicy
    by_cases hlimit : policy.maxAttempts < job.attempt
    · rw [if_pos hlimit]
      exact safe_throw fun _ _ _ ↦ trivial
    · rw [if_neg hlimit]
      let owner : Owner :=
        ⟨jobId, job.campaignId, job.attempt, (lockOf job.campaignId).planDigest, policy.staleAfter⟩
      have hread : Keeps strict thread (Owns owner thread)
          (owner.perform (.readAttempt job.campaignId job.attempt)) :=
        keeps_call trivial fun _ _ ↦ trivial
      have hclock : Keeps strict thread (Owns owner thread) (owner.perform .clock) :=
        keeps_call trivial fun _ _ ↦ trivial
      have hacquire (claim : ControllerClaim) (terminal : Bool) :
          Keeps strict thread (Owns owner thread) (owner.perform (.acquire claim terminal)) :=
        keeps_call trivial fun _ _ ↦ trivial
      refine Safe.mono (hread.bind (fun reservation ↦ ?_) world hinv (howns _ _))
        (fun _ _ _ _ ↦ trivial) fun _ _ _ _ ↦ trivial
      refine (Keeps.ofExcept survives_owns _).bind fun _ ↦ hclock.bind fun startedAt ↦ ?_
      split
      · refine (hacquire _ _).bind fun _ ↦ ?_
        exact (keeps_work rfl rfl rfl).attempted.bind fun worked ↦ keeps_finish _
      · exact Keeps.throw survives_owns _

/-! ### All programs -/

theorem safe_supervises {lockOf : String → CampaignLock} {program : Act Unit}
    (h : Supervises lockOf program) : SafeThread strict thread program := by
  cases h with
  | submit reservation => exact safe_submitController reservation
  | watchdog campaignId dryRun => exact safe_watchdogPass _ campaignId dryRun
  | controller jobId rounds => exact safe_runController lockOf jobId rounds
  | heartbeat staleAfter jobId => exact fun _ _ ↦ safe_always fun _ ↦ trivial
  | endJob jobId stage => exact fun _ _ ↦ safe_always fun _ ↦ trivial

/-- Nothing excludes anything else. -/
def concurrent (_ _ : Unit) : Bool := false

theorem compatible_supervision :
    Compatible supervisionMachine concurrent (Invariant strict) (fun _ _ ↦ True)
      fun _ ↦ supervisionContract strict where
  symm := fun _ _ ↦ rfl
  rely_of_guar := fun hne _ _ _ hguar ↦ hguar _ (Ne.symm hne)
  idle_of_guar := fun _ _ _ ↦ trivial
  restart := by
    intro before after hinv hrestart
    obtain rfl := Option.some.inj hrestart
    exact ⟨hinv, fun _ _ ↦ trivial⟩

/-- The runs from an empty world whose calls satisfy a condition. -/
abbrev Supervised (lockOf : String → CampaignLock) (condition : World → Call → Prop)
    (config : Config supervisionInterface SupervisionError Unit World) : Prop :=
  Reachable supervisionMachine concurrent World.Empty (fun _ ↦ Supervises lockOf)
    (fun config _ op ↦ condition config.state op.call) config

def emptyWorld : World := ⟨[], [], [], [], [], [], [], 0, [], [], [], [], []⟩

theorem empty_emptyWorld : emptyWorld.Empty := ⟨rfl, rfl, rfl, rfl, rfl, rfl, rfl, rfl⟩

theorem invariant_of_empty (h : world.Empty) : Invariant strict world := by
  obtain ⟨hstatuses, hreceipts, hcapacity, hjobs, -, hexecuting, hlost, hrecovered⟩ := h
  refine ⟨⟨?_, ?_, ?_, ?_, ?_, ?_, ?_, ?_⟩, fun _ ↦ ⟨?_, hlost⟩⟩
  · simp [hjobs]
  · simp [World.listJobs, hjobs]
  · simp [hjobs]
  · simp [hstatuses]
  · simp [hreceipts]
  · simp [hcapacity]
  · simp [hexecuting]
  · simp [hrecovered]
  · simp [hexecuting]

theorem invariant_of_supervised {lockOf : String → CampaignLock} {condition : World → Call → Prop}
    (hcondition : ∀ world call, condition world call → strict → Timely world call)
    {config : Config supervisionInterface SupervisionError Unit World}
    (h : Supervised lockOf condition config) : Invariant strict config.state := by
  have hsound : config.Sound supervisionMachine concurrent (Invariant strict) (fun _ _ ↦ True)
      fun _ ↦ supervisionContract strict := by
    refine reachable_sound compatible_supervision ?_ ?_ ?_ h
    · exact fun world hempty ↦ ⟨invariant_of_empty hempty, fun _ ↦ trivial⟩
    · exact fun _ program hprogram _ world hinv _ ↦ safe_supervises hprogram world hinv
    · exact fun _ _ _ _ _ _ hok ↦ hcondition _ _ hok
  exact hsound.holds

end HarborHF.Controllers