import Mathlib.Data.List.Nodup
import HarborHF.Async.RelyGuarantee
import HarborHF.Controllers.Launch

/-!
# One controller Job per attempt

A launch claim that has not expired stays with its launcher, since another launcher takes it over only
once it has. A launcher that holds the claim and has found neither a receipt nor a Job therefore runs
its command while no other launcher can, and a launcher that comes later finds the Job. Receipts name
the one Job, and so does what the launchers return.
-/

set_option autoImplicit false

namespace HarborHF.Controllers

open Async

/-! ### What holds between the operations -/

/-- The claim is of a launcher of the thread and is in the repository until it expires. -/
def Held (thread : ℕ) (claim : LaunchClaim) (world : LaunchWorld) : Prop :=
  (claim.launcherId, thread) ∈ world.identifiers ∧
    (world.now < claim.expiresAt → world.records.claim = some claim)

/-- The claim is held and there is no Job until it expires. -/
def Clear (thread : ℕ) (claim : LaunchClaim) (world : LaunchWorld) : Prop :=
  Held thread claim world ∧ (world.now < claim.expiresAt → world.jobs = [])

/-- At most one Job, which the receipt and the launchers name, and identifiers of one thread each. -/
structure Single (world : LaunchWorld) : Prop where
  jobs : world.jobs.length ≤ 1
  receipt : ∀ receipt, world.records.receipt = some receipt → world.jobs = [receipt.jobId]
  returned : ∀ jobId ∈ world.returned, world.jobs = [jobId]
  identifiers : (world.identifiers.map Prod.fst).Nodup

/-- What a thread relies on while others run. -/
structure Undisturbed (thread : ℕ) (before after : LaunchWorld) : Prop where
  now : before.now ≤ after.now
  head : before.head ≤ after.head
  records : after.head = before.head → after.records = before.records
  jobs : ∀ jobId, before.jobs = [jobId] → after.jobs = [jobId]
  identifiers : ∀ identifier, (identifier, thread) ∈ before.identifiers →
    (identifier, thread) ∈ after.identifiers
  held : ∀ claim, Held thread claim before → Held thread claim after
  clear : ∀ claim, Clear thread claim before → Clear thread claim after

variable {thread other : ℕ} {before middle after world : LaunchWorld}

theorem Undisturbed.refl : Undisturbed thread world world :=
  ⟨Nat.le_refl _, Nat.le_refl _, fun _ ↦ rfl, fun _ h ↦ h, fun _ h ↦ h, fun _ h ↦ h, fun _ h ↦ h⟩

theorem Undisturbed.trans (h : Undisturbed thread before middle)
    (h' : Undisturbed thread middle after) : Undisturbed thread before after where
  now := Nat.le_trans h.now h'.now
  head := Nat.le_trans h.head h'.head
  records := by
    intro heq
    have hmiddle : middle.head = before.head := Nat.le_antisymm (heq ▸ h'.head) h.head
    rw [h'.records (heq.trans hmiddle.symm), h.records hmiddle]
  jobs := fun jobId hjobs ↦ h'.jobs jobId (h.jobs jobId hjobs)
  identifiers := fun identifier hmem ↦ h'.identifiers identifier (h.identifiers identifier hmem)
  held := fun claim hheld ↦ h'.held claim (h.held claim hheld)
  clear := fun claim hclear ↦ h'.clear claim (h.clear claim hclear)

/-- Each thread leaves the others undisturbed, and its command is issued in time. -/
def launchContract (thread : ℕ) : Contract launchInterface LaunchWorld where
  rely := Undisturbed thread
  guar before after := ∀ other, other ≠ thread → Undisturbed other before after
  ok op world := InTime world op
  rely_refl _ := Undisturbed.refl
  rely_trans := Undisturbed.trans

/-- The programs of a thread that keep the invariant, with what holds where they return. -/
abbrev SafeLaunch {α : Type} (thread : ℕ) (program : LaunchProgram α) (post : α → LaunchWorld → Prop)
    (world : LaunchWorld) : Prop :=
  Safe launchMachine Single thread (launchContract thread) program post (fun _ _ ↦ True) world

/-! ### Steps -/

theorem undisturbed_elapse (elapsed : ℕ) : Undisturbed thread world (world.elapse elapsed) where
  now := Nat.le_add_right _ _
  head := Nat.le_refl _
  records := fun _ ↦ rfl
  jobs := fun _ h ↦ h
  identifiers := fun _ h ↦ h
  held := fun _ h ↦ ⟨h.1, fun hnow ↦ h.2 (Nat.lt_of_le_of_lt (Nat.le_add_right _ _) hnow)⟩
  clear := fun _ h ↦
    ⟨⟨h.1.1, fun hnow ↦ h.1.2 (Nat.lt_of_le_of_lt (Nat.le_add_right _ _) hnow)⟩,
      fun hnow ↦ h.2 (Nat.lt_of_le_of_lt (Nat.le_add_right _ _) hnow)⟩

theorem Single.elapse (h : Single world) (elapsed : ℕ) : Single (world.elapse elapsed) :=
  ⟨h.jobs, h.receipt, h.returned, h.identifiers⟩

theorem Single.unique {identifier : String} (h : Single world)
    (hthread : (identifier, thread) ∈ world.identifiers)
    (hother : (identifier, other) ∈ world.identifiers) : thread = other :=
  congrArg Prod.snd (List.inj_on_of_nodup_map h.identifiers hthread hother rfl)

/-- What a thread knows and the others cannot take from it. -/
def Stable (thread : ℕ) (hold : LaunchWorld → Prop) : Prop :=
  ∀ before after, Undisturbed thread before after → Single after → hold before → hold after

theorem Stable.and {first second : LaunchWorld → Prop} (h : Stable thread first)
    (h' : Stable thread second) : Stable thread fun world ↦ first world ∧ second world :=
  fun before after hrely hinv hhold ↦
    ⟨h before after hrely hinv hhold.1, h' before after hrely hinv hhold.2⟩

theorem Stable.or {first second : LaunchWorld → Prop} (h : Stable thread first)
    (h' : Stable thread second) : Stable thread fun world ↦ first world ∨ second world :=
  fun before after hrely hinv hhold ↦
    hhold.imp (h before after hrely hinv) (h' before after hrely hinv)

theorem Stable.exists {α : Type} {hold : α → LaunchWorld → Prop}
    (h : ∀ value, Stable thread (hold value)) :
    Stable thread fun world ↦ ∃ value, hold value world :=
  fun before after hrely hinv ⟨value, hhold⟩ ↦ ⟨value, h value before after hrely hinv hhold⟩

theorem stable_const (holds : Prop) : Stable thread fun _ ↦ holds := fun _ _ _ _ h ↦ h

theorem stable_jobs (jobId : String) : Stable thread fun world ↦ world.jobs = [jobId] :=
  fun _ _ hrely _ hjobs ↦ hrely.jobs jobId hjobs

theorem stable_held (claim : LaunchClaim) : Stable thread (Held thread claim) :=
  fun _ _ hrely _ hheld ↦ hrely.held claim hheld

theorem stable_clear (claim : LaunchClaim) : Stable thread (Clear thread claim) :=
  fun _ _ hrely _ hclear ↦ hrely.clear claim hclear

theorem stable_now (time : ℕ) : Stable thread fun world ↦ time ≤ world.now :=
  fun _ _ hrely _ htime ↦ Nat.le_trans htime hrely.now

theorem stable_identifier (identifier : String) :
    Stable thread fun world ↦ (identifier, thread) ∈ world.identifiers :=
  fun _ _ hrely _ hmem ↦ hrely.identifiers identifier hmem

theorem safeLaunch_pure {α : Type} {value : α} {post : α → LaunchWorld → Prop}
    (hstable : Stable thread (post value)) (hpost : post value world) :
    SafeLaunch thread (pure value) post world :=
  fun last hrely hinv ↦ hstable world last hrely hinv hpost

theorem safeLaunch_throw {α : Type} {error : LaunchError} {post : α → LaunchWorld → Prop} :
    SafeLaunch thread (.throw error) post world := fun _ _ _ ↦ trivial

/-- An operation that only lets time pass. -/
theorem safeLaunch_observe {α : Type} {op : launchInterface.Op} {post : α → LaunchWorld → Prop}
    {resume : launchInterface.Ans op → LaunchProgram α} {hold : LaunchWorld → Prop}
    {observed : LaunchWorld → launchInterface.Ans op}
    (hperform : ∀ choice world, launchMachine.perform thread op choice world =
      some (observed world, world.elapse choice.elapsed))
    (hstable : Stable thread hold) (hhold : hold world)
    (hresume : ∀ before, Single before → hold before → ∀ elapsed,
      SafeLaunch thread (resume (observed before)) post (before.elapse elapsed)) :
    SafeLaunch thread (.await op resume) post world := by
  intro before hrely hinv _ choice answer after hafter
  rw [hperform] at hafter
  obtain ⟨rfl, rfl⟩ := Prod.mk.inj (Option.some.inj hafter)
  exact ⟨fun _ _ ↦ undisturbed_elapse _, hinv.elapse _,
    hresume before hinv (hstable world before hrely hinv hhold) _⟩

/-! ### Calls of the state store -/

/-- The records after a commit. -/
def LaunchWorld.put (world : LaunchWorld) (next : LaunchRecords) : LaunchWorld :=
  { world with
    head := world.head + 1
    records := next }

/-- A call of the store keeps what each of its commits keeps. -/
theorem safeLaunch_retried {verdict : LaunchRecords → Verdict LaunchRecords LaunchError Unit}
    {contended : String} {hold post : LaunchWorld → Prop} (hstable : Stable thread hold)
    (hlasting : Stable thread post)
    (hdone : ∀ world, Single world → hold world → verdict world.records = .done () → post world)
    (hput : ∀ world next, Single world → hold world → verdict world.records = .put next () →
      Single (world.put next) ∧ (∀ other, other ≠ thread → Undisturbed other world (world.put next)) ∧
        post (world.put next)) (attempts : ℕ) (hhold : hold world) :
    SafeLaunch thread (StateStore.retried verdict contended attempts) (fun _ ↦ post) world := by
  induction attempts generalizing world with
  | zero => exact safeLaunch_throw
  | succ attempts ih =>
    refine safeLaunch_observe (fun _ _ ↦ rfl) hstable hhold fun before hinv hbefore elapsed ↦ ?_
    dsimp only [Program.bind]
    cases hverdict : verdict before.records with
    | done answer =>
      exact safeLaunch_pure hlasting (hlasting _ _ (undisturbed_elapse elapsed) (hinv.elapse elapsed)
        (hdone before hinv hbefore hverdict))
    | fail error => exact safeLaunch_throw
    | put next answer =>
      intro later hrely hinv' _ choice outcome after hperform
      have hlater : hold later := hstable _ _ hrely hinv' (hstable _ _ (undisturbed_elapse elapsed)
        (hinv.elapse elapsed) hbefore)
      obtain ⟨rfl, rfl⟩ := Prod.mk.inj (Option.some.inj hperform)
      by_cases hcommit : choice.carried ∧ later.head = before.head
      · -- the head is the one that was read, so the decision is about these records
        have hrecords : later.records = before.records := hrely.records hcommit.2
        obtain ⟨hsingle, hothers, hpost⟩ := hput later next hinv' hlater (hrecords ▸ hverdict)
        rw [LaunchWorld.commit, if_pos hcommit]
        refine ⟨fun other hne ↦ (hothers other hne).trans (undisturbed_elapse _),
          hsingle.elapse _, ?_⟩
        have hlast := hlasting _ _ (undisturbed_elapse choice.elapsed) (hsingle.elapse _) hpost
        cases choice.reported with
        | true => exact safeLaunch_pure hlasting hlast
        | false => exact safeLaunch_throw
      · rw [LaunchWorld.commit, if_neg hcommit]
        refine ⟨fun _ _ ↦ undisturbed_elapse _, hinv'.elapse _, ?_⟩
        cases choice.reported with
        | true => exact ih (hstable _ _ (undisturbed_elapse _) (hinv'.elapse _) hlater)
        | false => exact safeLaunch_throw

/-! ### Claims and receipts -/

theorem Single.put {next : LaunchRecords} (h : Single world)
    (hreceipt : ∀ receipt, next.receipt = some receipt → world.jobs = [receipt.jobId]) :
    Single (world.put next) :=
  ⟨h.jobs, hreceipt, h.returned, h.identifiers⟩

theorem undisturbed_put {next : LaunchRecords}
    (hclaim : ∀ claim, Held thread claim world → world.now < claim.expiresAt →
      next.claim = some claim) : Undisturbed thread world (world.put next) where
  now := Nat.le_refl _
  head := Nat.le_succ _
  records := fun heq ↦ absurd heq (Nat.succ_ne_self _)
  jobs := fun _ h ↦ h
  identifiers := fun _ h ↦ h
  held := fun claim h ↦ ⟨h.1, hclaim claim h⟩
  clear := fun claim h ↦ ⟨⟨h.1.1, hclaim claim h.1⟩, h.2⟩

/-- A claim is acquired when none is held: what another thread holds has not expired. -/
theorem safeLaunch_acquireLaunch {claim : LaunchClaim} (htime : claim.acquiredAt ≤ world.now)
    (hidentifier : (claim.launcherId, thread) ∈ world.identifiers) :
    SafeLaunch thread (acquireLaunch claim) (fun _ ↦ Held thread claim) world := by
  refine safeLaunch_retried ((stable_now claim.acquiredAt).and (stable_identifier claim.launcherId))
    (stable_held claim) ?_ ?_ _ ⟨htime, hidentifier⟩
  · intro world _ hhold hdone
    unfold StateStore.acquireLaunch at hdone
    split at hdone
    · cases hdone
    · rename_i observed hobserved
      split_ifs at hdone with heq
      rw [← heq]
      exact ⟨heq ▸ hhold.2, fun _ ↦ hobserved⟩
  · intro world next hinv hhold hput
    have hnext : next = { world.records with claim := some claim } ∧
        ∀ observed, world.records.claim = some observed → observed.expiresAt ≤ claim.acquiredAt := by
      unfold StateStore.acquireLaunch at hput
      split at hput
      · rename_i hnone
        refine ⟨(Verdict.put.inj hput).1.symm, fun observed hobserved ↦ ?_⟩
        rw [hnone] at hobserved
        cases hobserved
      · rename_i observed hobserved
        split_ifs at hput with heq hheld
        refine ⟨(Verdict.put.inj hput).1.symm, fun other hother ↦ ?_⟩
        rw [hobserved] at hother
        obtain rfl := Option.some.inj hother
        exact Nat.le_of_not_lt hheld
    obtain ⟨rfl, hexpired⟩ := hnext
    refine ⟨hinv.put hinv.receipt, fun other hne ↦ undisturbed_put fun held hheld hnow ↦ ?_,
      hhold.2, fun _ ↦ rfl⟩
    have hle := hexpired held (hheld.2 hnow)
    exact absurd (Nat.le_trans hle hhold.1) (Nat.not_le_of_lt hnow)

/-- A release takes away no claim but that of its thread. -/
theorem safeLaunch_releaseLaunch {claim : LaunchClaim} {jobId : String}
    (hidentifier : (claim.launcherId, thread) ∈ world.identifiers) (hjobs : world.jobs = [jobId]) :
    SafeLaunch thread (releaseLaunch claim) (fun _ last ↦ last.jobs = [jobId]) world := by
  refine safeLaunch_retried ((stable_identifier claim.launcherId).and (stable_jobs jobId))
    (stable_jobs jobId) (fun _ _ hhold _ ↦ hhold.2) ?_ _ ⟨hidentifier, hjobs⟩
  intro world next hinv hhold hput
  have hnext : next = { world.records with claim := none } ∧ world.records.claim = some claim := by
    unfold StateStore.releaseLaunch at hput
    split at hput
    · cases hput
    · rename_i observed hobserved
      split_ifs at hput with hne
      rw [not_not] at hne
      exact ⟨(Verdict.put.inj hput).1.symm, hne ▸ hobserved⟩
  obtain ⟨rfl, hclaim⟩ := hnext
  refine ⟨hinv.put hinv.receipt, fun other hne ↦ undisturbed_put fun held hheld hnow ↦ ?_, hhold.2⟩
  have hsame := hheld.2 hnow
  rw [hclaim] at hsame
  obtain rfl := Option.some.inj hsame
  exact absurd (hinv.unique hheld.1 hhold.1) hne

/-- What a thread knows besides the receipt of the attempt. -/
structure Lasting (thread : ℕ) (hold : LaunchWorld → Prop) : Prop where
  stable : Stable thread hold
  receipt : ∀ world receipt, hold world →
    hold (world.put { world.records with receipt := some receipt })

theorem lasting_true : Lasting thread fun _ ↦ True := ⟨stable_const True, fun _ _ _ ↦ trivial⟩

theorem lasting_held (claim : LaunchClaim) : Lasting thread (Held thread claim) :=
  ⟨stable_held claim, fun _ _ h ↦ h⟩

section

variable {reservation : AttemptReservation} {jobId : String} {hold : LaunchWorld → Prop}
  (hlasting : Lasting thread hold)

include hlasting

/-- A receipt is written for the Job there is. -/
theorem safeLaunch_recordControllerLaunch (hinv : Single world) (hjobs : world.jobs = [jobId])
    (hhold : hold world) : SafeLaunch thread (recordControllerLaunch reservation jobId)
      (fun recorded last ↦ last.jobs = [recorded] ∧ hold last) world := by
  have hstable : Stable thread fun world ↦ world.jobs = [jobId] ∧ hold world :=
    (stable_jobs jobId).and hlasting.stable
  refine safe_bind (Safe.mono (safeLaunch_retried hstable hstable (fun _ _ hhold _ ↦ hhold) ?_ _
    ⟨hjobs, hhold⟩) (fun _ _ _ hpost ↦ safeLaunch_pure hstable hpost) fun _ _ _ _ ↦ trivial) hinv
  intro world next hinv hhold hput
  obtain rfl : { world.records with
      receipt := some
        { campaignId := reservation.campaignId
          planDigest := reservation.planDigest
          inputDigest := reservation.inputDigest
          attempt := reservation.attempt
          jobId := jobId } } = next := by
    unfold StateStore.writeLaunch at hput
    split at hput
    · split_ifs at hput
    · exact (Verdict.put.inj hput).1
  refine ⟨hinv.put fun receipt hreceipt ↦ ?_, fun other _ ↦ undisturbed_put fun held hheld hnow ↦
    hheld.2 hnow, hhold.1, hlasting.receipt world _ hhold.2⟩
  obtain rfl := Option.some.inj hreceipt
  exact hhold.1

/-- A listing shows the one Job, or that there is none. -/
theorem safeLaunch_findControllerJobs {empty : LaunchWorld → Prop} (hempty : Stable thread empty)
    (hnone : ∀ world, hold world → world.jobs = [] → empty world) (hhold : hold world) :
    SafeLaunch thread findControllerJobs (fun found last ↦ hold last ∧
      (found = [] ∧ empty last ∨ ∃ jobId, found = [jobId] ∧ last.jobs = [jobId])) world := by
  have hstable (found : List String) : Stable thread fun last ↦ hold last ∧
      (found = [] ∧ empty last ∨ ∃ jobId, found = [jobId] ∧ last.jobs = [jobId]) :=
    hlasting.stable.and (((stable_const _).and hempty).or
      (Stable.exists fun jobId ↦ (stable_const _).and (stable_jobs jobId)))
  refine safeLaunch_observe (fun _ _ ↦ rfl) hlasting.stable hhold fun before hinv hbefore elapsed ↦ ?_
  have hlater := hlasting.stable _ _ (undisturbed_elapse elapsed) (hinv.elapse elapsed) hbefore
  show SafeLaunch thread (if before.jobs.all isJobId = false then _
    else if before.jobs.length > 1 then _ else pure before.jobs) _ _
  by_cases hvalid : before.jobs.all isJobId = false
  · rw [if_pos hvalid]
    exact safeLaunch_throw
  · rw [if_neg hvalid, if_neg (Nat.not_lt.mpr hinv.jobs)]
    refine safeLaunch_pure (hstable _) ⟨hlater, ?_⟩
    cases hjobs : before.jobs with
    | nil => exact .inl ⟨rfl, hnone _ hlater hjobs⟩
    | cons jobId rest =>
      have hone := hinv.jobs
      rw [hjobs, List.length_cons] at hone
      obtain rfl : rest = [] := List.eq_nil_of_length_eq_zero (by omega)
      exact .inr ⟨jobId, rfl, hjobs⟩

/-- What is adopted is the one Job, and nothing is when there is none. -/
theorem safeLaunch_existingControllerLaunch {empty : LaunchWorld → Prop}
    (hempty : Stable thread empty) (hnone : ∀ world, hold world → world.jobs = [] → empty world)
    (hhold : hold world) :
    SafeLaunch thread (existingControllerLaunch reservation) (fun adopted last ↦ hold last ∧
      (adopted = none ∧ empty last ∨ ∃ jobId, adopted = some jobId ∧ last.jobs = [jobId])) world := by
  have hstable (adopted : Option String) : Stable thread fun last ↦ hold last ∧
      (adopted = none ∧ empty last ∨ ∃ jobId, adopted = some jobId ∧ last.jobs = [jobId]) :=
    hlasting.stable.and (((stable_const _).and hempty).or
      (Stable.exists fun jobId ↦ (stable_const _).and (stable_jobs jobId)))
  refine safeLaunch_observe (fun _ _ ↦ rfl) hlasting.stable hhold fun before hinv hbefore elapsed ↦ ?_
  have hlater := hlasting.stable _ _ (undisturbed_elapse elapsed) (hinv.elapse elapsed) hbefore
  dsimp only [Program.bind, Program.pure_eq]
  cases hreceipt : before.records.receipt with
  | some recorded =>
    have hjobs := hinv.receipt recorded hreceipt
    dsimp only [validatedLaunchReceipt]
    split_ifs
    · exact safeLaunch_throw
    · exact safeLaunch_pure (hstable _) ⟨hlater, .inr ⟨_, rfl, hjobs⟩⟩
  | none =>
    refine safe_bind (Safe.mono (safeLaunch_findControllerJobs hlasting hempty hnone hlater) ?_
      fun _ _ _ _ ↦ trivial) (hinv.elapse elapsed)
    rintro found last hinv ⟨hlast, ⟨rfl, hclear⟩ | ⟨jobId, rfl, hjobs⟩⟩
    · exact safeLaunch_pure (hstable _) ⟨hlast, .inl ⟨rfl, hclear⟩⟩
    · refine safe_bind (Safe.mono (safeLaunch_recordControllerLaunch hlasting hinv hjobs hlast) ?_
        fun _ _ _ _ ↦ trivial) hinv
      intro recorded last _ hrecorded
      exact safeLaunch_pure (hstable _) ⟨hrecorded.2, .inr ⟨recorded, rfl, hrecorded.1⟩⟩

theorem safeLaunch_adoptControllerJob {error : LaunchError} (hinv : Single world)
    (hhold : hold world) : SafeLaunch thread (adoptControllerJob reservation error)
      (fun jobId last ↦ last.jobs = [jobId] ∧ hold last) world := by
  refine safe_bind (Safe.mono (safeLaunch_findControllerJobs hlasting (stable_const True)
    (fun _ _ _ ↦ trivial) hhold) ?_ fun _ _ _ _ ↦ trivial) hinv
  rintro found last hinv ⟨hlast, ⟨rfl, -⟩ | ⟨jobId, rfl, hjobs⟩⟩
  · exact safeLaunch_throw
  · exact safeLaunch_recordControllerLaunch hlasting hinv hjobs hlast

end

/-! ### The launch -/

variable {reservation : AttemptReservation} {claim : LaunchClaim}

/-- A command that a launcher runs under its claim, with no Job, creates the one Job or none. -/
theorem run_step {choice : LaunchChoice} {output : Option String} (hinv : Single before)
    (hclear : Clear thread claim before) (hnow : before.now < claim.expiresAt)
    (hrun : before.run choice = some (output, after)) :
    (∀ other, other ≠ thread → Undisturbed other before after) ∧ Single after ∧
      Held thread claim after ∧
      ∀ text, output = some text → ∀ jobId, findJobId text = some jobId → after.jobs = [jobId] := by
  unfold LaunchWorld.run at hrun
  split_ifs at hrun with hchoice
  obtain ⟨rfl, rfl⟩ := Prod.mk.inj (Option.some.inj hrun)
  have hnone : before.jobs = [] := hclear.2 hnow
  have hclaim := hclear.1.2 hnow
  refine ⟨fun other hne ↦ ?_, ?_, hclear.1, ?_⟩
  · constructor
    · exact Nat.le_refl _
    · exact Nat.le_refl _
    · exact fun _ ↦ rfl
    · intro jobId hjobs
      rw [hnone] at hjobs
      cases hjobs
    · exact fun _ h ↦ h
    · exact fun _ h ↦ h
    · intro held hheld
      refine ⟨hheld.1, fun hlast ↦ ?_⟩
      have hsame := hheld.1.2 hlast
      rw [hclaim] at hsame
      obtain rfl := Option.some.inj hsame
      exact absurd (hinv.unique hheld.1.1 hclear.1.1) hne
  · constructor
    · rw [hnone]
      cases choice.created <;> simp
    · intro receipt hreceipt
      have hjobs := hinv.receipt receipt hreceipt
      rw [hnone] at hjobs
      cases hjobs
    · intro jobId hreturned
      have hjobs := hinv.returned jobId hreturned
      rw [hnone] at hjobs
      cases hjobs
    · exact hinv.identifiers
  · intro text htext jobId hjob
    have hnamed := hchoice.2
    rw [htext, Option.bind_some, hjob, Option.all_some, decide_eq_true_eq] at hnamed
    show before.jobs ++ choice.created.toList = [jobId]
    rw [hnone, hnamed]
    rfl

theorem safeLaunch_runControllerLaunch (hclear : Clear thread claim world) :
    SafeLaunch thread (runControllerLaunch reservation claim)
      (fun jobId last ↦ last.jobs = [jobId] ∧ Held thread claim last) world := by
  intro before hrely hinv hnow choice answer after hperform
  obtain ⟨⟨output, created⟩, hrun, heq⟩ := Option.map_eq_some_iff.mp hperform
  obtain ⟨rfl, rfl⟩ := Prod.mk.inj heq
  obtain ⟨hothers, hsingle, hheld, hnamed⟩ :=
    run_step hinv (stable_clear claim _ _ hrely hinv hclear) hnow hrun
  refine ⟨fun other hne ↦ (hothers other hne).trans (undisturbed_elapse _),
    hsingle.elapse choice.elapsed, ?_⟩
  have hlater := stable_held claim _ _ (undisturbed_elapse choice.elapsed)
    (hsingle.elapse choice.elapsed) hheld
  cases output with
  | none => exact safeLaunch_adoptControllerJob (lasting_held claim) (hsingle.elapse _) hlater
  | some text =>
    cases hfound : findJobId text with
    | none =>
      dsimp only [Program.bind]
      rw [hfound]
      exact safeLaunch_adoptControllerJob (lasting_held claim) (hsingle.elapse _) hlater
    | some jobId =>
      dsimp only [Program.bind]
      rw [hfound]
      exact safeLaunch_recordControllerLaunch (lasting_held claim) (hsingle.elapse _)
        (hnamed text rfl jobId hfound) hlater

/-- Once the claim is acquired: the Job there is, or the one that is launched. -/
theorem safeLaunch_launchUnderClaim (hinv : Single world) (hheld : Held thread claim world) :
    SafeLaunch thread (launchUnderClaim reservation claim) (fun jobId last ↦ last.jobs = [jobId])
      world := by
  have hrelease (jobId : String) {last : LaunchWorld} (hinv : Single last)
      (hjobs : last.jobs = [jobId]) (hheld : Held thread claim last) :
      SafeLaunch thread (releaseLaunch claim >>= fun _ ↦ pure jobId)
        (fun jobId last ↦ last.jobs = [jobId]) last := by
    refine safe_bind (Safe.mono (safeLaunch_releaseLaunch hheld.1 hjobs) ?_
      fun _ _ _ _ ↦ trivial) hinv
    exact fun _ _ _ hpost ↦ safeLaunch_pure (stable_jobs jobId) hpost
  refine safe_bind (Safe.mono (safeLaunch_existingControllerLaunch (lasting_held claim)
    (stable_clear claim) (fun _ hheld hempty ↦ ⟨hheld, fun _ ↦ hempty⟩) hheld) ?_
    fun _ _ _ _ ↦ trivial) hinv
  rintro adopted last hinv ⟨hlast, ⟨rfl, hclear⟩ | ⟨jobId, rfl, hjobs⟩⟩
  · refine safe_bind (Safe.mono (safeLaunch_runControllerLaunch hclear) ?_ fun _ _ _ _ ↦ trivial) hinv
    exact fun jobId last hinv hpost ↦ hrelease jobId hinv hpost.1 hpost.2
  · exact hrelease jobId hinv hjobs hlast

theorem safeLaunch_attempt {α : Type} {program : LaunchProgram α} {post : α → LaunchWorld → Prop}
    (h : SafeLaunch thread program post world) :
    SafeLaunch thread (program.attempt : LaunchProgram (Except LaunchError α))
      (fun outcome last ↦ ∀ value, outcome = .ok value → post value last) world := by
  refine safe_attempt (Safe.mono h ?_ ?_)
  · intro value last _ hpost other heq
    obtain rfl := Except.ok.inj heq
    exact hpost
  · intro error last _ _ other heq
    cases heq

/-- A new identifier is of its thread alone. -/
theorem identifier_step (thread : ℕ) {identifier : String} (hinv : Single world)
    (hnew : identifier ∉ world.identifiers.map Prod.fst) :
    let after := { world with identifiers := world.identifiers ++ [(identifier, thread)] }
    Single after ∧ (∀ other, Undisturbed other world after) ∧
      (identifier, thread) ∈ after.identifiers := by
  refine ⟨⟨hinv.jobs, hinv.receipt, hinv.returned, ?_⟩, fun other ↦ ?_, by simp⟩
  · rw [List.map_append, List.map_singleton]
    refine List.nodup_append.mpr ⟨hinv.identifiers, List.nodup_singleton _, ?_⟩
    intro first hfirst second hsecond heq
    rw [heq, List.mem_singleton.mp hsecond] at hfirst
    exact hnew hfirst
  · constructor
    · exact Nat.le_refl _
    · exact Nat.le_refl _
    · exact fun _ ↦ rfl
    · exact fun _ h ↦ h
    · exact fun _ h ↦ List.mem_append_left _ h
    · exact fun _ h ↦ ⟨List.mem_append_left _ h.1, h.2⟩
    · exact fun _ h ↦ ⟨⟨List.mem_append_left _ h.1.1, h.1.2⟩, h.2⟩

/-- Whoever returns returns the one Job. -/
theorem safeLaunch_launchOrAdoptController (reservation : AttemptReservation) (hinv : Single world) :
    SafeLaunch thread (launchOrAdoptController reservation) (fun jobId last ↦ last.jobs = [jobId])
      world := by
  have hexisting (last : LaunchWorld) :
      SafeLaunch thread (existingControllerLaunch reservation) (fun adopted last ↦ True ∧
        (adopted = none ∧ True ∨ ∃ jobId, adopted = some jobId ∧ last.jobs = [jobId])) last :=
    safeLaunch_existingControllerLaunch lasting_true (stable_const True) (fun _ _ _ ↦ trivial) trivial
  refine safe_bind (Safe.mono (hexisting world) ?_ fun _ _ _ _ ↦ trivial) hinv
  rintro adopted last hinv ⟨-, ⟨rfl, -⟩ | ⟨jobId, rfl, hjobs⟩⟩
  · refine safeLaunch_observe (fun _ _ ↦ rfl) (stable_const True) trivial fun before hinv _ elapsed ↦ ?_
    have htime : before.now ≤ (before.elapse elapsed).now := Nat.le_add_right _ _
    intro later hrely hinv' _ choice identifier after hperform
    have htime' : before.now ≤ later.now := Nat.le_trans htime hrely.now
    simp only [launchMachine] at hperform
    split_ifs at hperform with hnew
    obtain ⟨rfl, rfl⟩ := Prod.mk.inj (Option.some.inj hperform)
    obtain ⟨hsingle, hothers, hidentifier⟩ := identifier_step thread hinv' hnew
    refine ⟨fun other _ ↦ (hothers other).trans (undisturbed_elapse _), hsingle.elapse _, ?_⟩
    let claim := launchClaim reservation choice.identifier before.now
    show SafeLaunch thread ((acquireLaunch claim).attempt >>= _) _ _
    refine safe_bind (Safe.mono (safeLaunch_attempt (safeLaunch_acquireLaunch
      (Nat.le_trans htime' (Nat.le_add_right _ _)) hidentifier)) ?_ fun _ _ _ _ ↦ trivial)
      (hsingle.elapse choice.elapsed)
    intro outcome last hinv hacquired
    cases outcome with
    | ok value => exact safeLaunch_launchUnderClaim hinv (hacquired value rfl)
    | error error =>
      cases error with
      | unavailable message =>
        refine safe_bind (Safe.mono (hexisting last) ?_ fun _ _ _ _ ↦ trivial) hinv
        rintro adopted last hinv ⟨-, ⟨rfl, -⟩ | ⟨jobId, rfl, hjobs⟩⟩
        · exact safeLaunch_throw
        · exact safeLaunch_pure (stable_jobs jobId) hjobs
      | _ => exact safeLaunch_throw
  · exact safeLaunch_pure (stable_jobs jobId) hjobs

/-- A launcher is safe from its start. -/
theorem safeLaunch_launcher (reservation : AttemptReservation) (hinv : Single world) :
    SafeLaunch thread (launcher reservation) (fun _ _ ↦ True) world := by
  refine safe_bind (Safe.mono (safeLaunch_launchOrAdoptController reservation hinv) ?_
    fun _ _ _ _ ↦ trivial) hinv
  intro jobId last _ hjobs before hrely hinv _ choice answer after hperform
  have hlater := hrely.jobs jobId hjobs
  obtain ⟨-, rfl⟩ := Prod.mk.inj (Option.some.inj hperform)
  refine ⟨fun other _ ↦ ?_, ⟨hinv.jobs, hinv.receipt, ?_, hinv.identifiers⟩,
    safeLaunch_pure (stable_const True) trivial⟩
  · have hreported : Undisturbed other before
        { before with returned := before.returned ++ [jobId] } :=
      ⟨Nat.le_refl _, Nat.le_refl _, fun _ ↦ rfl, fun _ h ↦ h, fun _ h ↦ h, fun _ h ↦ h, fun _ h ↦ h⟩
    exact hreported.trans (undisturbed_elapse _)
  · intro returned hreturned
    rcases List.mem_append.mp hreturned with hbefore | hnow
    · exact hinv.returned returned hbefore
    · rw [List.mem_singleton.mp hnow]
      exact hlater

/-! ### Any number of launchers -/

/-- Launchers do not exclude each other. -/
def independent (_ _ : AttemptReservation) : Bool := false

theorem compatible_launchers :
    Compatible launchMachine independent Single (fun _ _ ↦ True) fun _ ↦ launchContract where
  symm := fun _ _ ↦ rfl
  rely_of_guar := fun hne _ _ _ hguar ↦ hguar _ (Ne.symm hne)
  idle_of_guar := fun _ _ _ ↦ trivial
  restart := by
    intro before after hinv hrestart
    obtain rfl := Option.some.inj hrestart
    exact ⟨hinv, fun _ _ ↦ trivial⟩

/-- The runs of the launchers of one attempt in which commands are issued in time. -/
abbrev Launched (config : Config launchInterface LaunchError AttemptReservation LaunchWorld) : Prop :=
  Reachable launchMachine independent LaunchWorld.Fresh IsLauncher
    (fun config _ op ↦ InTime config.state op) config

/-- However many launchers of one attempt run at once and wherever they stop, at most one Job is ever
created, a receipt names it, and every launcher that returns returns it. -/
theorem single_job (config : Config launchInterface LaunchError AttemptReservation LaunchWorld)
    (h : Launched config) : config.state.jobs.length ≤ 1 ∧
      (∀ receipt, config.state.records.receipt = some receipt →
        config.state.jobs = [receipt.jobId]) ∧
      ∀ jobId ∈ config.state.returned, config.state.jobs = [jobId] := by
  have hsound : config.Sound launchMachine independent Single (fun _ _ ↦ True)
      fun _ ↦ launchContract := by
    refine reachable_sound compatible_launchers ?_ ?_ ?_ h
    · rintro world ⟨hrecords, hjobs, hidentifiers, hreturned⟩
      refine ⟨⟨?_, ?_, ?_, ?_⟩, fun _ ↦ trivial⟩
      · simp [hjobs]
      · simp [hrecords]
      · simp [hreturned]
      · simp [hidentifiers]
    · rintro reservation program rfl index world hinv -
      exact safeLaunch_launcher reservation hinv
    · exact fun _ _ _ _ _ _ hok ↦ hok
  exact ⟨hsound.holds.jobs, hsound.holds.receipt, hsound.holds.returned⟩

/-! ### Two launchers -/

/-- The check of a run whose commands are issued in time. -/
def inTime (world : LaunchWorld) : launchInterface.Op → Bool
  | .run claim => decide (world.now < claim.expiresAt)
  | _ => true

theorem inTime_spec {op : launchInterface.Op} (h : inTime world op = true) : InTime world op := by
  cases op with
  | run claim =>
    rw [inTime, decide_eq_true_eq] at h
    exact h
  | _ => trivial

def sampleReservation : AttemptReservation := ⟨"campaign-one", "plan", "input", 1⟩

def sampleJobId : String := "bbbbbbbbbbbbbbbbbbbbbbbb"

/-- Everything is carried out and reported, and a command creates the Job and names it. -/
def sampleChoice (identifier : String) : LaunchChoice :=
  ⟨1, true, true, some sampleJobId, some ("submitted " ++ sampleJobId), identifier⟩

/-- The first launcher has listed no Job when the second one launches it, finds the claim released and
adopts the Job under a claim of its own. -/
def sampleEvents : List (Event launchInterface LaunchError AttemptReservation LaunchChoice) :=
  [.spawn sampleReservation (launcher sampleReservation),
    .spawn sampleReservation (launcher sampleReservation)] ++
  List.replicate 2 (.run 0 (sampleChoice "first")) ++
  List.replicate 14 (.run 1 (sampleChoice "second")) ++
  List.replicate 8 (.run 0 (sampleChoice "first"))

def sampleEnd : Option (Config launchInterface LaunchError AttemptReservation LaunchWorld) :=
  Config.runChecked launchMachine independent (fun config _ op ↦ inTime config.state op)
    (.initial ⟨0, ⟨none, none⟩, [], 0, [], []⟩) sampleEvents

theorem sampleEnd_returned :
    sampleEnd.map (fun config ↦ config.state.returned) = some [sampleJobId, sampleJobId] := by
  decide +kernel

theorem single_job_sample : ∃ config, Launched config ∧
    config.state.returned = [sampleJobId, sampleJobId] ∧ config.state.jobs = [sampleJobId] := by
  obtain ⟨config, hend, hreturned⟩ := Option.map_eq_some_iff.mp sampleEnd_returned
  have hrun : Launched config := by
    refine reachable_of_runChecked sampleEvents (fun _ _ _ h ↦ inTime_spec h)
      (.start ⟨rfl, rfl, rfl, rfl⟩) ?_ hend
    intro event hevent
    simp only [sampleEvents, List.mem_append, List.mem_cons, List.not_mem_nil, or_false] at hevent
    rcases hevent with (((rfl | rfl) | h) | h) | h
    · rfl
    · rfl
    all_goals exact admitted_runs _ _ _ event h
  exact ⟨config, hrun, hreturned, (single_job config hrun).2.2 sampleJobId (by simp [hreturned])⟩

end HarborHF.Controllers
