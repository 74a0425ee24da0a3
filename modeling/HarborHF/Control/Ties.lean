import HarborHF.Control.Append
import HarborHF.Control.Encoding
import HarborHF.Control.Submission
import HarborHF.Relational.Ties

/-!
# Decisions and the order of ties

Two projections with the same records differ in the order of their rows, and a query that orders by
`created_at` alone leaves the order of rows with one time open. `campaignAttempts`, the attempts of
`task`, `campaignPublication` and `latestAcl` are such queries: `CampaignAttempts`, `TaskAttempts`,
`CampaignPublications` and `Acls` are the lists the database may return for them. The other queries
add the key of the row to the order.

`sameAnswers_iff_noTies` says when every projection of the same records gives the same answers, and with
them the same retries, worker attempts and published rows: exactly when no two attempts of a campaign
have one time and no two publications of a campaign and no two access lists share the latest one.
-/

set_option autoImplicit false

namespace HarborHF.Control.Projection

open Relational

/-- Rows in the order of their times alone. -/
def ByTime {α : Type} (time : α → ℕ) (first second : α) : Prop := time first ≤ time second

/-- Rows in the reverse order of their times alone. -/
def NewestFirst {α : Type} (time : α → ℕ) (first second : α) : Prop := time second ≤ time first

section

variable {α : Type} {time : α → ℕ}

instance : DecidableRel (ByTime time) :=
  fun first second ↦ inferInstanceAs (Decidable (time first ≤ time second))

instance : DecidableRel (NewestFirst time) :=
  fun first second ↦ inferInstanceAs (Decidable (time second ≤ time first))

instance : Std.Total (ByTime time) := ⟨fun first second ↦ Nat.le_total (time first) (time second)⟩

instance : Std.Total (NewestFirst time) :=
  ⟨fun first second ↦ Nat.le_total (time second) (time first)⟩

instance : IsTrans α (ByTime time) := ⟨fun _ _ _ h h' ↦ Nat.le_trans h h'⟩

instance : IsTrans α (NewestFirst time) := ⟨fun _ _ _ h h' ↦ Nat.le_trans h' h⟩

end

/-! ### What the database may answer -/

section

variable (P : Projection) (campaignId taskId : String)

/-- `campaignAttempts`. -/
def CampaignAttempts (answer : List AttemptReceipt) : Prop :=
  Answer (ByTime AttemptReceipt.createdAt)
    (P.attempts.filter fun row ↦ row.campaignId = campaignId) answer

/-- The attempts of `task`. -/
def TaskAttempts (answer : List AttemptReceipt) : Prop :=
  Answer (ByTime AttemptReceipt.createdAt)
    (P.attempts.filter fun row ↦ row.campaignId = campaignId ∧ row.taskId = taskId) answer

/-- The rows of which `campaignPublication` takes the first. -/
def CampaignPublications (answer : List PublicationReceipt) : Prop :=
  Answer (NewestFirst PublicationReceipt.createdAt)
    (P.publications.filter fun row ↦ row.campaignId = campaignId) answer

/-- The rows of which `latestAcl` takes the first. -/
def Acls (answer : List OperatorAcl) : Prop :=
  Answer (NewestFirst OperatorAcl.createdAt) P.acls answer

theorem task_answers {view : TaskView} (h : P.task campaignId taskId = some view) :
    P.TaskAttempts campaignId taskId view.attempts := by
  obtain ⟨row, -, rfl⟩ := Option.map_eq_some_iff.mp h
  exact answer_insertionSort _

end

/-! ### What depends on the answers -/

/-- A row of the published `executions` table. -/
structure ExecutionRow where
  campaignId : String
  taskId : String
  attemptId : String
  actionId : String
  outcome : AttemptOutcome
  replacementEligible : Bool
  costMicrousd : ℕ
  deriving DecidableEq

/-- A row of the published `artifacts` table. -/
structure ArtifactRow where
  campaignId : String
  attemptId : String
  evidencePath : String
  evidenceDigest : String
  deriving DecidableEq

def executionRows (campaignId : String) (attempts : List AttemptReceipt) : List ExecutionRow :=
  attempts.map fun attempt ↦ ⟨campaignId, attempt.taskId, attempt.attemptId, attempt.actionId,
    attempt.outcome, attempt.replacementEligible, attempt.costMicrousd⟩

def artifactRows (campaignId : String) (attempts : List AttemptReceipt) : List ArtifactRow :=
  attempts.map fun attempt ↦ ⟨campaignId, attempt.attemptId, attempt.evidencePath,
    attempt.evidenceDigest⟩

/-- The attempt of a worker that the reconciler completes a task with. -/
def workerAttempt (attempts : List AttemptReceipt) (taskId launchActionId : String) :
    Option AttemptReceipt :=
  (attempts.filter fun attempt ↦ attempt.taskId = taskId ∧ attempt.actionId = launchActionId).getLast?

/-- Two projections give the same answers, whatever the database does with ties, and so the same
decisions. -/
structure SameAnswers (P P' : Projection) : Prop where
  latest : ∀ campaignId taskId answer answer', P.TaskAttempts campaignId taskId answer →
    P'.TaskAttempts campaignId taskId answer' → answer.getLast? = answer'.getLast?
  attempts : ∀ campaignId answer answer', P.CampaignAttempts campaignId answer →
    P'.CampaignAttempts campaignId answer' → answer = answer'
  publication : ∀ campaignId answer answer', P.CampaignPublications campaignId answer →
    P'.CampaignPublications campaignId answer' → answer.head? = answer'.head?
  acl : ∀ answer answer', P.Acls answer → P'.Acls answer' → answer.head? = answer'.head?
  retry : ∀ campaignId taskId row row' answer answer', P.TaskAttempts campaignId taskId answer →
    P'.TaskAttempts campaignId taskId answer' →
      retryableAttempt ⟨row, answer⟩ = retryableAttempt ⟨row', answer'⟩
  worker : ∀ campaignId taskId launchActionId answer answer',
    P.CampaignAttempts campaignId answer → P'.CampaignAttempts campaignId answer' →
      workerAttempt answer taskId launchActionId = workerAttempt answer' taskId launchActionId
  published : ∀ campaignId answer answer', P.CampaignAttempts campaignId answer →
    P'.CampaignAttempts campaignId answer' →
      executionRows campaignId answer = executionRows campaignId answer' ∧
        artifactRows campaignId answer = artifactRows campaignId answer'

/-! ### The records of a projection -/

section

variable [Digests]

/-- A projection that ingested records one after the other. -/
inductive Ingested : List Record → Projection → Prop
  | empty : Ingested [] {}
  | ingest {records : List Record} {record : Record} {P P' : Projection}
      (hrecords : Ingested records P) (happly : P.apply record = (P', none)) :
      Ingested (records ++ [record]) P'
  | ready {records : List Record} {P : Projection} (hrecords : Ingested records P) (ready : Bool) :
      Ingested records { P with ready := ready }

/-- The tables the queries read are those of the records. -/
structure Tabulates (records : List Record) (P : Projection) : Prop where
  objects : P.objects = records
  attempts : P.attempts = records.filterMap attemptOf
  publications : P.publications = records.filterMap publicationOf
  acls : P.acls = records.filterMap aclOf
  keyed : Keyed Record.key records

omit [Digests] in
theorem filterMap_append_record {α : Type} (row : Record → Option α) (records : List Record)
    (record : Record) :
    (records ++ [record]).filterMap row = records.filterMap row ++ (row record).toList := by
  rw [List.filterMap_append]
  cases h : row record with
  | none => simp [h]
  | some added => simp [h]

theorem Ingested.tabulates {records : List Record} {P : Projection} (h : Ingested records P) :
    Tabulates records P := by
  induction h with
  | empty => exact ⟨rfl, rfl, rfl, rfl, List.nodup_nil⟩
  | ready _ _ ih => exact ⟨ih.objects, ih.attempts, ih.publications, ih.acls, ih.keyed⟩
  | @ingest records record P P' _ happly ih =>
    obtain ⟨haccepts, rfl⟩ := apply_eq_ok.mp happly
    have hfree : Free Record.key record.key records := ih.objects ▸ haccepts.1
    refine ⟨?_, ?_, ?_, ?_, ?_⟩
    · exact congrArg (· ++ [record]) ih.objects
    · show P.attempts ++ (attemptOf record).toList = _
      rw [ih.attempts, filterMap_append_record]
    · show P.publications ++ (publicationOf record).toList = _
      rw [ih.publications, filterMap_append_record]
    · show P.acls ++ (aclOf record).toList = _
      rw [ih.acls, filterMap_append_record]
    · exact ih.keyed.insertRow (insertRow_eq_some.mpr ⟨hfree, rfl⟩)

omit [Digests] in
theorem Tabulates.perm {records records' : List Record} {P P' : Projection}
    (h : Tabulates records P) (h' : Tabulates records' P')
    (hsame : ∀ record, record ∈ records' ↔ record ∈ records) : records'.Perm records :=
  (List.perm_ext_iff_of_nodup h'.keyed.nodup h.keyed.nodup).mpr hsame

omit [Digests] in
theorem nodup_filterMap {α : Type} {kind : α → Record} {row : Record → Option α}
    (hkind : ∀ record value, row record = some value ↔ kind value = record) {records : List Record}
    (hkeyed : Keyed Record.key records) : (records.filterMap row).Nodup :=
  hkeyed.nodup.filterMap fun first second value hfirst hsecond ↦
    ((hkind first value).mp hfirst).symm.trans ((hkind second value).mp hsecond)

end

/-! ### When the answers agree -/

/-- No two attempts of a campaign have one time, and no two publications of a campaign and no two
access lists share the latest one. -/
structure NoTies (records : List Record) : Prop where
  attempts : ∀ first second, .attemptReceipt first ∈ records → .attemptReceipt second ∈ records →
    first.campaignId = second.campaignId → first.createdAt = second.createdAt → first = second
  publications : ∀ first second, .publicationReceipt first ∈ records →
    .publicationReceipt second ∈ records → first.campaignId = second.campaignId →
      (∀ other, .publicationReceipt other ∈ records → other.campaignId = first.campaignId →
        other.createdAt ≤ first.createdAt ∧ other.createdAt ≤ second.createdAt) → first = second
  acls : ∀ first second, .operatorAcl first ∈ records → .operatorAcl second ∈ records →
    (∀ other, .operatorAcl other ∈ records →
      other.createdAt ≤ first.createdAt ∧ other.createdAt ≤ second.createdAt) → first = second

section

variable {records : List Record}

theorem publicationOf_eq_some (record : Record) (publication : PublicationReceipt) :
    publicationOf record = some publication ↔ .publicationReceipt publication = record := by
  cases record <;> simp [eq_comm]

theorem aclOf_eq_some (record : Record) (acl : OperatorAcl) :
    aclOf record = some acl ↔ .operatorAcl acl = record := by
  cases record <;> simp [eq_comm]

theorem mem_publications {publication : PublicationReceipt} :
    publication ∈ records.filterMap publicationOf ↔ .publicationReceipt publication ∈ records :=
  mem_filterMap_kind publicationOf_eq_some

theorem mem_acls {acl : OperatorAcl} : acl ∈ records.filterMap aclOf ↔ .operatorAcl acl ∈ records :=
  mem_filterMap_kind aclOf_eq_some

end

section

variable {records records' : List Record} {P P' : Projection}

theorem noTies_of_sameAnswers (h : Tabulates records P) (hsame : SameAnswers P P) :
    NoTies records := by
  refine ⟨?_, ?_, ?_⟩
  · intro first second hfirst hsecond hcampaign htime
    have hnodup : (P.attempts.filter fun row ↦ row.campaignId = second.campaignId).Nodup :=
      (h.attempts ▸ nodup_filterMap attemptOf_eq_some h.keyed).filter _
    refine (answers_agree_iff hnodup).mp (hsame.attempts second.campaignId) first ?_ second ?_
      htime.le htime.ge
    · rw [List.mem_filter, h.attempts, mem_filterMap_attemptOf]
      exact ⟨hfirst, decide_eq_true hcampaign⟩
    · rw [List.mem_filter, h.attempts, mem_filterMap_attemptOf]
      exact ⟨hsecond, decide_eq_true rfl⟩
  · intro first second hfirst hsecond hcampaign hlatest
    have hnodup : (P.publications.filter fun row ↦ row.campaignId = first.campaignId).Nodup :=
      (h.publications ▸ nodup_filterMap publicationOf_eq_some h.keyed).filter _
    have hrows : ∀ row, row ∈ (P.publications.filter fun row ↦
        row.campaignId = first.campaignId) ↔
        .publicationReceipt row ∈ records ∧ row.campaignId = first.campaignId := by
      intro row
      rw [List.mem_filter, h.publications, mem_publications, decide_eq_true_eq]
    refine (head_agrees_iff hnodup).mp (hsame.publication first.campaignId) first ?_ second ?_
      ?_ ?_
    · exact (hrows first).mpr ⟨hfirst, rfl⟩
    · exact (hrows second).mpr ⟨hsecond, hcampaign.symm⟩
    · intro other hother
      exact (hlatest other ((hrows other).mp hother).1 ((hrows other).mp hother).2).1
    · intro other hother
      exact (hlatest other ((hrows other).mp hother).1 ((hrows other).mp hother).2).2
  · intro first second hfirst hsecond hlatest
    have hnodup : P.acls.Nodup := h.acls ▸ nodup_filterMap aclOf_eq_some h.keyed
    have hrows : ∀ row, row ∈ P.acls ↔ .operatorAcl row ∈ records := by
      intro row
      rw [h.acls, mem_acls]
    refine (head_agrees_iff hnodup).mp hsame.acl first ((hrows first).mpr hfirst) second
      ((hrows second).mpr hsecond) ?_ ?_
    · exact fun other hother ↦ (hlatest other ((hrows other).mp hother)).1
    · exact fun other hother ↦ (hlatest other ((hrows other).mp hother)).2

/-- Two answers about the same attempts of a campaign agree. -/
theorem NoTies.attempts_agree (hties : NoTies records) (h : Tabulates records P)
    (h' : Tabulates records' P') (hperm : records'.Perm records) {campaignId : String}
    {among : AttemptReceipt → Bool} (hamong : ∀ row, among row = true → row.campaignId = campaignId)
    {answer answer' : List AttemptReceipt}
    (hanswer : Answer (ByTime AttemptReceipt.createdAt) (P.attempts.filter among) answer)
    (hanswer' : Answer (ByTime AttemptReceipt.createdAt) (P'.attempts.filter among) answer') :
    answer = answer' := by
  have htables : P'.attempts.Perm P.attempts := by
    rw [h.attempts, h'.attempts]
    exact hperm.filterMap _
  refine Answer.unique ?_ hanswer (hanswer'.of_perm (htables.filter _))
  intro first hfirst second hsecond hbefore hafter
  rw [List.mem_filter, h.attempts, mem_filterMap_attemptOf] at hfirst hsecond
  exact hties.attempts first second hfirst.1 hsecond.1
    ((hamong first hfirst.2).trans (hamong second hsecond.2).symm) (Nat.le_antisymm hbefore hafter)

theorem NoTies.campaignAttempts (hties : NoTies records) (h : Tabulates records P)
    (h' : Tabulates records' P') (hperm : records'.Perm records) {campaignId : String}
    {answer answer' : List AttemptReceipt} (hanswer : P.CampaignAttempts campaignId answer)
    (hanswer' : P'.CampaignAttempts campaignId answer') : answer = answer' :=
  hties.attempts_agree h h' hperm (fun _ hrow ↦ of_decide_eq_true hrow) hanswer hanswer'

theorem NoTies.taskAttempts (hties : NoTies records) (h : Tabulates records P)
    (h' : Tabulates records' P') (hperm : records'.Perm records) {campaignId taskId : String}
    {answer answer' : List AttemptReceipt} (hanswer : P.TaskAttempts campaignId taskId answer)
    (hanswer' : P'.TaskAttempts campaignId taskId answer') : answer = answer' :=
  hties.attempts_agree h h' hperm (fun _ hrow ↦ (of_decide_eq_true hrow).1) hanswer hanswer'

theorem NoTies.publication (hties : NoTies records) (h : Tabulates records P)
    (h' : Tabulates records' P') (hperm : records'.Perm records) {campaignId : String}
    {answer answer' : List PublicationReceipt} (hanswer : P.CampaignPublications campaignId answer)
    (hanswer' : P'.CampaignPublications campaignId answer') : answer.head? = answer'.head? := by
  have htables : P'.publications.Perm P.publications := by
    rw [h.publications, h'.publications]
    exact hperm.filterMap _
  have hnodup : (P.publications.filter fun row ↦ row.campaignId = campaignId).Nodup :=
    (h.publications ▸ nodup_filterMap publicationOf_eq_some h.keyed).filter _
  have hrows : ∀ row, row ∈ (P.publications.filter fun row ↦ row.campaignId = campaignId) ↔
      .publicationReceipt row ∈ records ∧ row.campaignId = campaignId := by
    intro row
    rw [List.mem_filter, h.publications, mem_publications, decide_eq_true_eq]
  refine (head_agrees_iff hnodup).mpr ?_ answer answer' hanswer (hanswer'.of_perm (htables.filter _))
  intro first hfirst second hsecond hlatest hlatest'
  obtain ⟨hfirst, hcampaign⟩ := (hrows first).mp hfirst
  obtain ⟨hsecond, hcampaign'⟩ := (hrows second).mp hsecond
  refine hties.publications first second hfirst hsecond (hcampaign.trans hcampaign'.symm) ?_
  intro other hother hsame
  have hmem := (hrows other).mpr ⟨hother, hsame.trans hcampaign⟩
  exact ⟨hlatest other hmem, hlatest' other hmem⟩

theorem NoTies.acl (hties : NoTies records) (h : Tabulates records P)
    (h' : Tabulates records' P') (hperm : records'.Perm records)
    {answer answer' : List OperatorAcl} (hanswer : P.Acls answer) (hanswer' : P'.Acls answer') :
    answer.head? = answer'.head? := by
  have htables : P'.acls.Perm P.acls := by
    rw [h.acls, h'.acls]
    exact hperm.filterMap _
  have hnodup : P.acls.Nodup := h.acls ▸ nodup_filterMap aclOf_eq_some h.keyed
  have hrows : ∀ row, row ∈ P.acls ↔ .operatorAcl row ∈ records := by
    intro row
    rw [h.acls, mem_acls]
  refine (head_agrees_iff hnodup).mpr ?_ answer answer' hanswer (hanswer'.of_perm htables)
  intro first hfirst second hsecond hlatest hlatest'
  refine hties.acls first second ((hrows first).mp hfirst) ((hrows second).mp hsecond) ?_
  intro other hother
  exact ⟨hlatest other ((hrows other).mpr hother), hlatest' other ((hrows other).mpr hother)⟩

theorem NoTies.sameAnswers (hties : NoTies records) (h : Tabulates records P)
    (h' : Tabulates records' P') (hperm : records'.Perm records) : SameAnswers P P' where
  latest := fun _ _ _ _ hanswer hanswer' ↦
    congrArg List.getLast? (hties.taskAttempts h h' hperm hanswer hanswer')
  attempts := fun _ _ _ hanswer hanswer' ↦ hties.campaignAttempts h h' hperm hanswer hanswer'
  publication := fun _ _ _ hanswer hanswer' ↦ hties.publication h h' hperm hanswer hanswer'
  acl := fun _ _ hanswer hanswer' ↦ hties.acl h h' hperm hanswer hanswer'
  retry := by
    intro _ _ row row' answer answer' hanswer hanswer'
    rw [hties.taskAttempts h h' hperm hanswer hanswer']
    rfl
  worker := by
    intro _ _ _ answer answer' hanswer hanswer'
    rw [hties.campaignAttempts h h' hperm hanswer hanswer']
  published := by
    intro _ answer answer' hanswer hanswer'
    rw [hties.campaignAttempts h h' hperm hanswer hanswer']
    exact ⟨rfl, rfl⟩

end

/-- Every two projections of the same records give the same answers and decisions, whatever the
database does with ties, exactly when there are no ties. -/
theorem sameAnswers_iff_noTies [Digests] {records : List Record} {P : Projection}
    (h : Ingested records P) :
    (∀ records' P', Ingested records' P' → (∀ record, record ∈ records' ↔ record ∈ records) →
      SameAnswers P P') ↔ NoTies records := by
  constructor
  · intro hsame
    exact noTies_of_sameAnswers h.tabulates (hsame records P h fun _ ↦ Iff.rfl)
  · intro hties records' P' h' hrecords
    exact hties.sameAnswers h.tabulates h'.tabulates (h.tabulates.perm h'.tabulates hrecords)

/-! Two attempts of one task that complete at the same time: a rebuild, or the database, may return
either as the last one, and only one of them admits a retry. -/

section

local instance tieDigests : Digests := plainDigests

def tieLock : CampaignLock :=
  { recordId := "lock"
    createdAt := 1
    actor := serviceActor
    campaignId := "campaign"
    profiles := []
    tasks := [⟨"task", "digest", none, none⟩]
    ceilingMicrousd := 10
    sourceRevision := "revision" }

/-- An attempt of the task, completed at a time. -/
def tieAttempt (attemptId actionId : String) (outcome : AttemptOutcome) (createdAt : ℕ) :
    AttemptReceipt :=
  { recordId := attemptId
    createdAt := createdAt
    actor := serviceActor
    campaignId := "campaign"
    taskId := "task"
    attemptId := attemptId
    actionId := actionId
    outcome := outcome
    replacementEligible := true
    evidenceDigest := "sha256:evidence"
    evidencePath := "evidence"
    costMicrousd := 0
    metrics := [] }

/-- The lock and two attempts, the second completed at a time. -/
def tieRecords (createdAt : ℕ) : List Record :=
  [.campaignLock tieLock,
    .attemptReceipt (tieAttempt "first" "launch" .infrastructure 5),
    .attemptReceipt (tieAttempt "second" "retry" .agent createdAt)]

def ingestAll : List Record → Projection → Option Projection
  | [], P => some P
  | record :: rest, P =>
    match P.apply record with
    | (P', none) => ingestAll rest P'
    | _ => none

theorem ingested_of_ingestAll {records records' : List Record} {P P' : Projection}
    (hrecords : Ingested records P) (h : ingestAll records' P = some P') :
    Ingested (records ++ records') P' := by
  induction records' generalizing records P with
  | nil =>
    cases h
    simpa using hrecords
  | cons record rest ih =>
    simp only [ingestAll] at h
    split at h
    · next next happly =>
      have hnext := ih (hrecords.ingest happly) h
      simpa using hnext
    · cases h

/-- The same records, with the attempts in the other order. -/
def tieRecordsRebuilt (createdAt : ℕ) : List Record :=
  [.campaignLock tieLock,
    .attemptReceipt (tieAttempt "second" "retry" .agent createdAt),
    .attemptReceipt (tieAttempt "first" "launch" .infrastructure 5)]

theorem tied_attempts_disagree : ∃ P P', Ingested (tieRecords 5) P ∧
    Ingested (tieRecordsRebuilt 5) P' ∧
    (∀ record, record ∈ tieRecordsRebuilt 5 ↔ record ∈ tieRecords 5) ∧
    (P.task "campaign" "task").map retryableAttempt = some none ∧
    (P'.task "campaign" "task").map retryableAttempt =
      some (some (tieAttempt "first" "launch" .infrastructure 5)) ∧ ¬ SameAnswers P P' := by
  have hlive : (ingestAll (tieRecords 5) {}).map
      (fun P ↦ (P.task "campaign" "task").map retryableAttempt) = some (some none) := by
    decide +kernel
  have hrebuilt : (ingestAll (tieRecordsRebuilt 5) {}).map
      (fun P ↦ (P.task "campaign" "task").map retryableAttempt) =
        some (some (some (tieAttempt "first" "launch" .infrastructure 5))) := by
    decide +kernel
  obtain ⟨P, hP, hretry⟩ := Option.map_eq_some_iff.mp hlive
  obtain ⟨P', hP', hretry'⟩ := Option.map_eq_some_iff.mp hrebuilt
  refine ⟨P, P', ingested_of_ingestAll .empty hP, ingested_of_ingestAll .empty hP', ?_, hretry,
    hretry', ?_⟩
  · intro record
    simp only [tieRecords, tieRecordsRebuilt, List.mem_cons, List.not_mem_nil, or_false]
    exact or_congr_right or_comm
  · intro hsame
    obtain ⟨view, hview, hnone⟩ := Option.map_eq_some_iff.mp hretry
    obtain ⟨view', hview', hsome⟩ := Option.map_eq_some_iff.mp hretry'
    have heq := hsame.retry "campaign" "task" view.task view'.task view.attempts view'.attempts
      (P.task_answers _ _ hview) (P'.task_answers _ _ hview')
    have hcontra : (none : Option AttemptReceipt) =
        some (tieAttempt "first" "launch" .infrastructure 5) := hnone.symm.trans (heq.trans hsome)
    cases hcontra

theorem noTies_tieRecords : NoTies (tieRecords 6) := by
  refine ⟨?_, ?_, ?_⟩
  · intro first second hfirst hsecond _ htime
    simp only [tieRecords, List.mem_cons, List.not_mem_nil, or_false, reduceCtorEq, false_or,
      Record.attemptReceipt.injEq] at hfirst hsecond
    rcases hfirst with rfl | rfl <;> rcases hsecond with rfl | rfl
    · rfl
    · exact absurd htime (by decide)
    · exact absurd htime (by decide)
    · rfl
  · intro first second hfirst
    simp [tieRecords] at hfirst
  · intro first second hfirst
    simp [tieRecords] at hfirst

theorem untied_attempts_agree : ∃ P, Ingested (tieRecords 6) P ∧
    ∀ records' P', Ingested records' P' →
      (∀ record, record ∈ records' ↔ record ∈ tieRecords 6) → SameAnswers P P' := by
  have hsome : (ingestAll (tieRecords 6) {}).isSome = true := by decide +kernel
  obtain ⟨P, hP⟩ := Option.isSome_iff_exists.mp hsome
  have hingested : Ingested (tieRecords 6) P := ingested_of_ingestAll .empty hP
  exact ⟨P, hingested, (sameAnswers_iff_noTies hingested).mpr noTies_tieRecords⟩

end

end HarborHF.Control.Projection
