import Mathlib.Data.List.Induction
import Mathlib.Data.List.TakeWhile
import HarborHF.Campaign.Recovery
import HarborHF.Relational.Fold

/-!
# The histories of a wave

A wave's worker and the reconciler both record its life, with clocks of their own. The worker's
evidence gives the wave active, then cleaning and closed, or active and a failed cleanup; the
reconciler records draining, cleaning and closed when it cancels or closes a wave, which may be before
any evidence of it was observed. The log is ordered by time, so the two histories interleave in any
way.

`InOrder` says which orders lead a wave to the status its worker and the reconciler left it in. The
worker's active event is the first of the wave, every close comes after the worker's report of its
cleanup, no drain falls between a cleaning and the close that follows, and a cleaning after a failed
cleanup is followed by a close.
-/

set_option autoImplicit false

namespace HarborHF.Campaign

open Relational

/-! ### The life of one wave -/

/-- What an event of a wave records, and who recorded it. -/
structure WaveMark where
  producer : Producer
  status : WaveStatus
  deriving DecidableEq

namespace WaveMark

/-- The status of a wave after a mark, `none` when the transition is refused. -/
def advance (previous : WaveStatus) (mark : WaveMark) : Option WaveStatus :=
  if staleReconcilerTransition mark.producer previous mark.status then some previous
  else if mark.status ≠ previous ∧ mark.status ∉ previous.next then none
  else some mark.status

/-- The first mark gives the status; the others advance it. -/
def follow : List WaveMark → Option WaveStatus
  | [] => none
  | first :: rest => rest.foldlM advance first.status

/-- The marks that follow the worker's active one. -/
def Tail (mark : WaveMark) : Prop :=
  (mark.producer = .reconciler ∧
      (mark.status = .draining ∨ mark.status = .cleaning ∨ mark.status = .closed)) ∨
    (mark.producer = .waveController ∧
      (mark.status = .cleaning ∨ mark.status = .closed ∨ mark.status = .cleanupFailed))

/-- The statuses of a wave once it is active. -/
def Begun (status : WaveStatus) : Prop :=
  status = .active ∨ status = .draining ∨ status = .cleaning ∨ status = .closed ∨
    status = .cleanupFailed

/-- The status after a mark that was not refused. -/
def update (status : WaveStatus) (mark : WaveMark) : WaveStatus :=
  match status, mark.status with
  | .closed, _ => .closed
  | status, .draining => if status = .active then .draining else status
  | _, other => other

/-- A begun wave refuses the worker's cleanup report once it is closed, a close while it is active
and a drain while it is cleaning. -/
def Refused (status : WaveStatus) (mark : WaveMark) : Prop :=
  (status = .closed ∧ mark.producer = .waveController ∧
      (mark.status = .cleaning ∨ mark.status = .cleanupFailed)) ∨
    (status = .active ∧ mark.status = .closed) ∨ (status = .cleaning ∧ mark.status = .draining)

variable {mark : WaveMark}

theorem begun_update {status : WaveStatus} (hstatus : Begun status)
    (hmark : mark.Tail) : Begun (update status mark) := by
  obtain ⟨producer, recorded⟩ := mark
  rcases hstatus with rfl | rfl | rfl | rfl | rfl <;> cases recorded <;>
    simp_all [Tail, Begun, update]

theorem advance_eq {status : WaveStatus} (hstatus : Begun status)
    (hmark : mark.Tail) {next : WaveStatus} :
    advance status mark = some next ↔ ¬ Refused status mark ∧ next = update status mark := by
  obtain ⟨producer, recorded⟩ := mark
  rcases hstatus with rfl | rfl | rfl | rfl | rfl <;>
    rcases hmark with ⟨rfl, rfl | rfl | rfl⟩ | ⟨rfl, rfl | rfl | rfl⟩ <;>
    simp [advance, staleReconcilerTransition, WaveStatus.next, Refused, update, eq_comm]

/-- The status after marks that were not refused. -/
def statusAfter (marks : List WaveMark) : WaveStatus := marks.foldl update .active

theorem statusAfter_append (marks : List WaveMark) (mark : WaveMark) :
    statusAfter (marks ++ [mark]) = update (statusAfter marks) mark := by
  simp [statusAfter]

variable {marks : List WaveMark}

theorem begun_statusAfter (h : ∀ mark ∈ marks, mark.Tail) : Begun (statusAfter marks) := by
  induction marks using List.reverseRecOn with
  | nil => exact .inl rfl
  | append_singleton marks mark ih =>
    rw [statusAfter_append]
    exact begun_update (ih fun other hother ↦ h other (List.mem_append_left _ hother))
      (h mark (List.mem_append_right _ List.mem_cons_self))

/-- An active wave follows marks that are not refused. -/
theorem foldlM_advance (h : ∀ mark ∈ marks, mark.Tail) {next : WaveStatus} :
    marks.foldlM advance WaveStatus.active = some next ↔
      (∀ before mark after, marks = before ++ mark :: after →
        ¬ Refused (statusAfter before) mark) ∧ next = statusAfter marks := by
  induction marks using List.reverseRecOn generalizing next with
  | nil => simp [statusAfter, eq_comm]
  | append_singleton marks mark ih =>
    have hmarks (other : WaveMark) (hother : other ∈ marks) : other.Tail :=
      h other (List.mem_append_left _ hother)
    have hmark := h mark (List.mem_append_right _ List.mem_cons_self)
    rw [List.foldlM_append, Option.bind_eq_bind, Option.bind_eq_some_iff]
    simp only [List.foldlM_cons, List.foldlM_nil, bind_pure, ih hmarks]
    constructor
    · rintro ⟨middle, ⟨hbefore, rfl⟩, hlast⟩
      obtain ⟨hrefused, rfl⟩ := (advance_eq (begun_statusAfter hmarks) hmark).mp hlast
      refine ⟨?_, (statusAfter_append marks mark).symm⟩
      intro before other after hsplit
      rcases List.eq_nil_or_concat after with rfl | ⟨rest, last, rfl⟩
      · obtain ⟨rfl, hsame⟩ := List.append_inj' hsplit rfl
        cases hsame
        exact hrefused
      · rw [List.concat_eq_append, ← List.cons_append, ← List.append_assoc] at hsplit
        exact hbefore before other rest (List.append_inj' hsplit rfl).1
    · rintro ⟨hbefore, rfl⟩
      refine ⟨statusAfter marks, ⟨?_, rfl⟩, ?_⟩
      · intro before other after hsplit
        exact hbefore before other (after ++ [mark]) (by rw [hsplit]; simp)
      · rw [advance_eq (begun_statusAfter hmarks) hmark]
        exact ⟨hbefore marks mark [] rfl, statusAfter_append marks mark⟩

/-! ### Reading the status off the order -/

/-- The status of the last cleaning or failed cleanup. -/
def lastCleanup (marks : List WaveMark) : Option WaveStatus :=
  (marks.filter fun mark ↦ mark.status = .cleaning ∨ mark.status = .cleanupFailed).getLast?.map
    WaveMark.status

theorem lastCleanup_append (marks : List WaveMark) (mark : WaveMark) :
    lastCleanup (marks ++ [mark]) =
      if mark.status = .cleaning ∨ mark.status = .cleanupFailed then some mark.status
      else lastCleanup marks := by
  unfold lastCleanup
  by_cases h : mark.status = .cleaning ∨ mark.status = .cleanupFailed
  · rw [if_pos h, List.filter_append, List.filter_cons_of_pos (by simpa using h)]
    simp
  · rw [if_neg h, List.filter_append, List.filter_cons_of_neg (by simpa using h), List.filter_nil,
      List.append_nil]

theorem statusAfter_eq_closed :
    statusAfter marks = .closed ↔ ∃ mark ∈ marks, mark.status = .closed := by
  induction marks using List.reverseRecOn with
  | nil => simp [statusAfter]
  | append_singleton marks mark ih =>
    have hupdate : update (statusAfter marks) mark = .closed ↔
        statusAfter marks = .closed ∨ mark.status = .closed := by
      cases hstatus : statusAfter marks <;> cases hmark : mark.status <;> simp [update, hmark]
    rw [statusAfter_append, hupdate, ih]
    simp [or_and_right, exists_or]

/-- A wave that is not closed is where its last cleanup put it. -/
theorem statusAfter_eq_cleanup (h : ∀ mark ∈ marks, mark.Tail)
    {status : WaveStatus} (hstatus : status = .cleaning ∨ status = .cleanupFailed) :
    statusAfter marks = status ↔
      (∀ mark ∈ marks, mark.status ≠ .closed) ∧ lastCleanup marks = some status := by
  induction marks using List.reverseRecOn with
  | nil => rcases hstatus with rfl | rfl <;> simp [statusAfter, lastCleanup]
  | append_singleton marks mark ih =>
    have hmarks (other : WaveMark) (hother : other ∈ marks) : other.Tail :=
      h other (List.mem_append_left _ hother)
    have hmark := h mark (List.mem_append_right _ List.mem_cons_self)
    have hupdate : update (statusAfter marks) mark = status ↔
        statusAfter marks ≠ .closed ∧ (mark.status = status ∨
          (mark.status = .draining ∧ statusAfter marks = status)) := by
      cases hbefore : statusAfter marks <;> cases hrecorded : mark.status <;>
        rcases hstatus with rfl | rfl <;> simp [update, hrecorded]
    have hopen : statusAfter marks ≠ .closed ↔ ∀ other ∈ marks, other.status ≠ .closed := by
      rw [ne_eq, statusAfter_eq_closed]
      simp
    have hall : (∀ other ∈ marks ++ [mark], other.status ≠ .closed) ↔
        (∀ other ∈ marks, other.status ≠ .closed) ∧ mark.status ≠ .closed := by
      simp [or_imp, forall_and]
    rw [statusAfter_append, hupdate, hopen, ih hmarks, lastCleanup_append, hall]
    obtain ⟨producer, recorded⟩ := mark
    rcases hmark with ⟨-, rfl | rfl | rfl⟩ | ⟨-, rfl | rfl | rfl⟩ <;>
      rcases hstatus with rfl | rfl <;> simp

theorem statusAfter_eq_active (h : ∀ mark ∈ marks, mark.Tail) :
    statusAfter marks = .active ↔ marks = [] := by
  rcases List.eq_nil_or_concat marks with rfl | ⟨rest, mark, rfl⟩
  · simp [statusAfter]
  · rw [List.concat_eq_append] at h ⊢
    have hbegun := begun_statusAfter fun other hother ↦ h other (List.mem_append_left _ hother)
    have hmark := h mark (List.mem_append_right _ List.mem_cons_self)
    obtain ⟨producer, recorded⟩ := mark
    rw [statusAfter_append]
    rcases hbegun with hstatus | hstatus | hstatus | hstatus | hstatus <;>
      rcases hmark with ⟨-, rfl | rfl | rfl⟩ | ⟨-, rfl | rfl | rfl⟩ <;> simp [update, hstatus]

/-! ### Accepted orders -/

/-- The order of a wave's events in the log. -/
structure InOrder (history : List WaveMark) : Prop where
  active_first : history.head? = some ⟨.waveController, .active⟩
  closed_late : ∀ before mark after, history = before ++ mark :: after → mark.status = .closed →
    ∃ report ∈ before, report.producer = .waveController ∧
      (report.status = .cleaning ∨ report.status = .cleanupFailed)
  drained_early : ∀ before mark after, history = before ++ mark :: after →
    mark.status = .draining → (∀ other ∈ before, other.status ≠ .closed) →
      lastCleanup before ≠ some .cleaning
  failure_closed : ∀ before mark after, history = before ++ mark :: after →
    mark.status = .cleanupFailed → (∃ other ∈ after, other.status = .cleaning) →
      ∃ other ∈ history, other.status = .closed

/-- The wave ends closed, unless its cleanup failed and it was not closed afterwards. -/
def expectedStatus (history : List WaveMark) : WaveStatus :=
  match history.dropWhile fun mark ↦ mark.status ≠ .cleanupFailed with
  | [] => .closed
  | _ :: later => if later.any fun mark ↦ mark.status = .closed then .closed else .cleanupFailed

/-- What the worker reports. -/
inductive WorkerMarks : List WaveMark → Prop
  | cleaned : WorkerMarks [⟨.waveController, .active⟩, ⟨.waveController, .cleaning⟩,
      ⟨.waveController, .closed⟩]
  | failed : WorkerMarks [⟨.waveController, .active⟩, ⟨.waveController, .cleanupFailed⟩]

/-- What the reconciler records. -/
def Synthetic (mark : WaveMark) : Prop :=
  mark.producer = .reconciler ∧
    (mark.status = .draining ∨ mark.status = .cleaning ∨ mark.status = .closed)

/-- The worker's report of its cleanup. -/
def Report (mark : WaveMark) : Prop :=
  mark.producer = .waveController ∧ (mark.status = .cleaning ∨ mark.status = .cleanupFailed)

instance (mark : WaveMark) : Decidable mark.Report := inferInstanceAs (Decidable (_ ∧ _))

/-- A wave that has left the active status does not return to it. -/
theorem active_notMem {status next : WaveStatus} (hstatus : Begun status) (hne : status ≠ .active)
    (hmarks : ∀ mark ∈ marks, mark.Tail ∨ mark = ⟨.waveController, .active⟩)
    (h : marks.foldlM advance status = some next) : ⟨.waveController, .active⟩ ∉ marks := by
  induction marks generalizing status with
  | nil => exact List.not_mem_nil
  | cons mark rest ih =>
    rw [List.foldlM_cons, Option.bind_eq_bind, Option.bind_eq_some_iff] at h
    obtain ⟨middle, hadvance, hrest⟩ := h
    rcases hmarks mark List.mem_cons_self with htail | rfl
    · obtain ⟨-, rfl⟩ := (advance_eq hstatus htail).mp hadvance
      have hnext : update status mark ≠ .active := by
        obtain ⟨producer, recorded⟩ := mark
        rcases hstatus with rfl | rfl | rfl | rfl | rfl <;>
          rcases htail with ⟨-, rfl | rfl | rfl⟩ | ⟨-, rfl | rfl | rfl⟩ <;> simp_all [update]
      have hnot := ih (begun_update hstatus htail) hnext
        (fun other hother ↦ hmarks other (List.mem_cons_of_mem mark hother)) hrest
      intro hmem
      rcases List.mem_cons.mp hmem with rfl | hmem
      · simp [Tail] at htail
      · exact hnot hmem
    · exfalso
      rcases hstatus with rfl | rfl | rfl | rfl | rfl <;>
        simp_all [advance, staleReconcilerTransition, WaveStatus.next]

/-- The facts about a merged history of a wave that do not depend on its order. -/
structure Merged (history : List WaveMark) : Prop where
  marks : ∀ mark ∈ history, mark.Tail ∨ mark = ⟨.waveController, .active⟩
  activeOnce : history.count ⟨.waveController, .active⟩ = 1
  reportOnce : (history.filter fun mark ↦ mark.Report).length = 1
  ended : (∃ mark ∈ history, mark.status = .closed) ∨
    ∃ mark ∈ history, mark.Report ∧ mark.status = .cleanupFailed

theorem Synthetic.tail (h : mark.Synthetic) : mark.Tail := .inl h

theorem Synthetic.not_report (h : mark.Synthetic) : ¬ mark.Report := by
  intro hreport
  rw [Report, h.1] at hreport
  cases hreport.1

theorem merged_of_perm {history worker synthetic : List WaveMark} (hworker : WorkerMarks worker)
    (hsynthetic : ∀ mark ∈ synthetic, mark.Synthetic)
    (hperm : history.Perm (worker ++ synthetic)) : Merged history := by
  have hactive : synthetic.count ⟨.waveController, .active⟩ = 0 := by
    refine List.count_eq_zero.mpr fun hmem ↦ ?_
    cases (hsynthetic _ hmem).1
  have hreports : synthetic.filter (fun mark ↦ mark.Report) = [] := by
    rw [List.filter_eq_nil_iff]
    intro mark hmark
    simpa using (hsynthetic mark hmark).not_report
  refine ⟨?_, ?_, ?_, ?_⟩
  · intro mark hmark
    rcases List.mem_append.mp (hperm.mem_iff.mp hmark) with hmem | hmem
    · cases hworker with
      | cleaned =>
        simp only [List.mem_cons, List.not_mem_nil, or_false] at hmem
        rcases hmem with rfl | rfl | rfl <;> simp [Tail]
      | failed =>
        simp only [List.mem_cons, List.not_mem_nil, or_false] at hmem
        rcases hmem with rfl | rfl <;> simp [Tail]
    · exact .inl (hsynthetic mark hmem).tail
  · rw [hperm.count_eq, List.count_append, hactive]
    cases hworker <;> decide
  · rw [(hperm.filter _).length_eq, List.filter_append, hreports, List.append_nil]
    cases hworker <;> decide
  · cases hworker with
    | cleaned =>
      exact .inl ⟨⟨.waveController, .closed⟩, hperm.mem_iff.mpr (by simp), rfl⟩
    | failed =>
      exact .inr ⟨⟨.waveController, .cleanupFailed⟩, hperm.mem_iff.mpr (by simp), by decide, rfl⟩

namespace Merged

variable {history rest : List WaveMark}

theorem active_mem (h : Merged history) : ⟨.waveController, .active⟩ ∈ history := by
  rw [← List.count_pos_iff, h.activeOnce]
  exact Nat.one_pos

theorem tail (h : Merged (⟨.waveController, .active⟩ :: rest)) : ∀ mark ∈ rest, mark.Tail := by
  intro mark hmark
  rcases h.marks mark (List.mem_cons_of_mem _ hmark) with htail | rfl
  · exact htail
  · have hcount := h.activeOnce
    rw [List.count_cons_self] at hcount
    have hpos := List.count_pos_iff.mpr hmark
    omega

theorem report_unique {before middle after : List WaveMark} {first second : WaveMark}
    (h : Merged (before ++ first :: (middle ++ second :: after))) (hfirst : first.Report) :
    ¬ second.Report := by
  intro hsecond
  have hlength := h.reportOnce
  rw [List.filter_append, List.filter_cons_of_pos (by simpa using hfirst), List.filter_append,
    List.filter_cons_of_pos (by simpa using hsecond)] at hlength
  simp only [List.length_append, List.length_cons] at hlength
  omega

theorem exists_report (h : Merged history) : ∃ mark ∈ history, mark.Report := by
  obtain ⟨mark, hmark⟩ := List.length_eq_one_iff.mp h.reportOnce
  have hmem : mark ∈ history.filter fun mark ↦ mark.Report := by
    rw [hmark]
    exact List.mem_cons_self
  obtain ⟨hhistory, hreport⟩ := List.mem_filter.mp hmem
  exact ⟨mark, hhistory, of_decide_eq_true hreport⟩

end Merged

theorem Tail.report (h : mark.Tail) (hstatus : mark.status = .cleanupFailed) : mark.Report := by
  rcases h with ⟨-, hother⟩ | ⟨hproducer, -⟩
  · rw [hstatus] at hother
    simp at hother
  · exact ⟨hproducer, .inr hstatus⟩

theorem lastCleanup_cons_active (marks : List WaveMark) :
    lastCleanup (⟨.waveController, .active⟩ :: marks) = lastCleanup marks := by
  unfold lastCleanup
  rw [List.filter_cons_of_neg (by decide)]

/-- A cleanup that is followed by no other is the last. -/
theorem lastCleanup_eq_of_last {before after : List WaveMark}
    (hmark : mark.status = .cleaning ∨ mark.status = .cleanupFailed)
    (hafter : ∀ other ∈ after, other.status ≠ .cleaning ∧ other.status ≠ .cleanupFailed) :
    lastCleanup (before ++ mark :: after) = some mark.status := by
  have hnone : after.filter
      (fun other ↦ other.status = .cleaning ∨ other.status = .cleanupFailed) = [] := by
    rw [List.filter_eq_nil_iff]
    intro other hother
    simpa using hafter other hother
  unfold lastCleanup
  rw [List.filter_append, List.filter_cons_of_pos (by simpa using hmark), hnone]
  simp

theorem exists_of_lastCleanup {status : WaveStatus}
    (h : lastCleanup marks = some status) : ∃ mark ∈ marks, mark.status = status := by
  obtain ⟨mark, hlast, hstatus⟩ := Option.map_eq_some_iff.mp h
  exact ⟨mark, (List.mem_filter.mp (List.mem_of_getLast? hlast)).1, hstatus⟩

theorem lastCleanup_append_of_mem {before after : List WaveMark}
    (hmem : mark ∈ after) (hmark : mark.status = .cleaning ∨ mark.status = .cleanupFailed) :
    lastCleanup (before ++ after) = lastCleanup after := by
  have hne : after.filter
      (fun other ↦ other.status = .cleaning ∨ other.status = .cleanupFailed) ≠ [] := by
    intro hnil
    have hmem' : mark ∈ ([] : List WaveMark) := by
      rw [← hnil]
      exact List.mem_filter.mpr ⟨hmem, by simpa using hmark⟩
    exact List.not_mem_nil hmem'
  unfold lastCleanup
  rw [List.filter_append, List.getLast?_append_of_ne_nil _ hne]

section Expected

variable {history : List WaveMark}

theorem expectedStatus_eq_closed (h : ∀ mark ∈ history, mark.status ≠ .cleanupFailed) :
    expectedStatus history = .closed := by
  have hdrop : history.dropWhile (fun mark ↦ mark.status ≠ .cleanupFailed) = [] := by
    rw [List.dropWhile_eq_nil_iff]
    intro mark hmark
    simpa using h mark hmark
  rw [expectedStatus, hdrop]

theorem expectedStatus_split {before after : List WaveMark} {mark : WaveMark}
    (hbefore : ∀ other ∈ before, other.status ≠ .cleanupFailed)
    (hmark : mark.status = .cleanupFailed) : expectedStatus (before ++ mark :: after) =
      if after.any fun other ↦ other.status = .closed then .closed else .cleanupFailed := by
  have hdrop : (before ++ mark :: after).dropWhile (fun other ↦ other.status ≠ .cleanupFailed) =
      mark :: after := by
    rw [List.dropWhile_append_of_pos (by simpa using hbefore), List.dropWhile_cons_of_neg]
    simpa using hmark
  rw [expectedStatus, hdrop]

end Expected

/-! ### The accepted orders are the ones in order -/

namespace Merged

variable {history : List WaveMark}

/-- The first mark of a history that is followed to its end is the worker's active one. -/
theorem exists_active (h : Merged history) {status : WaveStatus}
    (hfollow : follow history = some status) :
    ∃ rest, history = ⟨.waveController, .active⟩ :: rest := by
  cases history with
  | nil => simp [follow] at hfollow
  | cons first rest =>
    rcases h.marks first List.mem_cons_self with htail | rfl
    · have hbegun : Begun first.status := by
        rcases htail with ⟨-, hstatus⟩ | ⟨-, hstatus⟩ <;>
          rcases hstatus with hstatus | hstatus | hstatus <;> simp [Begun, hstatus]
      have hne : first.status ≠ .active := by
        rcases htail with ⟨-, hstatus⟩ | ⟨-, hstatus⟩ <;>
          rcases hstatus with hstatus | hstatus | hstatus <;> simp [hstatus]
      have hnot := active_notMem hbegun hne
        (fun mark hmark ↦ h.marks mark (List.mem_cons_of_mem first hmark)) hfollow
      rcases List.mem_cons.mp h.active_mem with rfl | hmem
      · exact absurd rfl hne
      · exact absurd hmem hnot
    · exact ⟨rest, rfl⟩

/-- A failed cleanup is the only report. -/
theorem failure_unique {before after : List WaveMark} {mark : WaveMark}
    (h : Merged (before ++ mark :: after)) (hmark : mark.status = .cleanupFailed) :
    (∀ other ∈ before, ¬ other.Report) ∧ ∀ other ∈ after, ¬ other.Report := by
  have hreport : mark.Report := by
    rcases h.marks mark (by simp) with htail | rfl
    · exact htail.report hmark
    · cases hmark
  constructor
  · intro other hother hbefore
    obtain ⟨first, second, rfl⟩ := List.append_of_mem hother
    rw [List.append_assoc, List.cons_append] at h
    exact h.report_unique hbefore hreport
  · intro other hother hafter
    obtain ⟨first, second, rfl⟩ := List.append_of_mem hother
    exact h.report_unique hreport hafter

theorem not_cleanupFailed_of_not_report (h : Merged history) {mark : WaveMark}
    (hmem : mark ∈ history) (hreport : ¬ mark.Report) : mark.status ≠ .cleanupFailed := by
  intro hstatus
  rcases h.marks mark hmem with htail | rfl
  · exact hreport (htail.report hstatus)
  · cases hstatus

/-- A history that closes the wave after the report of its cleanup is expected to end closed. -/
theorem expectedStatus_closed (h : Merged history)
    (hlate : ∀ before mark after, history = before ++ mark :: after → mark.status = .closed →
      ∃ report ∈ before, report.Report)
    (hclosed : ∃ mark ∈ history, mark.status = .closed) : expectedStatus history = .closed := by
  by_cases hfailed : ∃ mark ∈ history, mark.status = .cleanupFailed
  · obtain ⟨mark, hmem, hmark⟩ := hfailed
    obtain ⟨before, after, rfl⟩ := List.append_of_mem hmem
    obtain ⟨hbefore, -⟩ := h.failure_unique hmark
    have hno (other : WaveMark) (hother : other ∈ before) : other.status ≠ .cleanupFailed :=
      h.not_cleanupFailed_of_not_report (List.mem_append_left _ hother) (hbefore other hother)
    rw [expectedStatus_split hno hmark, if_pos]
    obtain ⟨closed, hmem, hstatus⟩ := hclosed
    rcases List.mem_append.mp hmem with hmem | hmem
    · -- a close before the failed cleanup has a report before it
      obtain ⟨first, second, rfl⟩ := List.append_of_mem hmem
      obtain ⟨report, hreport, hmade⟩ := hlate first closed (second ++ mark :: after) (by simp)
        hstatus
      exact absurd hmade (hbefore report (List.mem_append_left _ hreport))
    · rcases List.mem_cons.mp hmem with rfl | hmem
      · rw [hmark] at hstatus
        cases hstatus
      · simpa using ⟨closed, hmem, hstatus⟩
  · exact expectedStatus_eq_closed fun mark hmem hmark ↦ hfailed ⟨mark, hmem, hmark⟩

/-- A history without a close is expected to end in the failed cleanup. -/
theorem expectedStatus_cleanupFailed (h : Merged history)
    (hopen : ∀ mark ∈ history, mark.status ≠ .closed) :
    expectedStatus history = .cleanupFailed ∧ ∃ before mark after,
      history = before ++ mark :: after ∧ mark.status = .cleanupFailed := by
  rcases h.ended with ⟨mark, hmem, hclosed⟩ | ⟨mark, hmem, -, hmark⟩
  · exact absurd hclosed (hopen mark hmem)
  · obtain ⟨before, after, rfl⟩ := List.append_of_mem hmem
    obtain ⟨hbefore, -⟩ := h.failure_unique hmark
    have hno (other : WaveMark) (hother : other ∈ before) : other.status ≠ .cleanupFailed :=
      h.not_cleanupFailed_of_not_report (List.mem_append_left _ hother) (hbefore other hother)
    have hany : ¬ after.any (fun other ↦ other.status = .closed) = true := by
      simp only [List.any_eq_true, decide_eq_true_eq, not_exists, not_and]
      intro other hother
      exact hopen other (List.mem_append_right _ (List.mem_cons_of_mem mark hother))
    refine ⟨?_, before, mark, after, rfl, hmark⟩
    rw [expectedStatus_split hno hmark, if_neg hany]

/-- Marks that are followed to the expected status are in order. -/
theorem inOrder_of_follow (h : Merged history)
    (hfollow : follow history = some (expectedStatus history)) : InOrder history := by
  obtain ⟨rest, rfl⟩ := h.exists_active hfollow
  obtain ⟨haccepted, hstatus⟩ := (foldlM_advance h.tail).mp hfollow
  -- a mark that is not the first is behind the active one
  have hsplit {before after : List WaveMark} {mark : WaveMark}
      (heq : ⟨.waveController, .active⟩ :: rest = before ++ mark :: after)
      (hne : mark.status ≠ .active) :
      ∃ behind, before = ⟨.waveController, .active⟩ :: behind ∧
        rest = behind ++ mark :: after := by
    cases before with
    | nil =>
      obtain ⟨rfl, -⟩ := List.cons.inj heq
      exact absurd rfl hne
    | cons first behind =>
      obtain ⟨rfl, hrest⟩ := List.cons.inj heq
      exact ⟨behind, rfl, hrest⟩
  have hlate (before : List WaveMark) (mark : WaveMark) (after : List WaveMark)
      (heq : ⟨.waveController, .active⟩ :: rest = before ++ mark :: after)
      (hclosed : mark.status = .closed) : ∃ report ∈ before, report.Report := by
    by_contra hnone
    push Not at hnone
    obtain ⟨behind, rfl, hrest⟩ := hsplit heq (by simp [hclosed])
    obtain ⟨report, hmem, hreport⟩ := h.exists_report
    rw [heq] at hmem
    rcases List.mem_append.mp hmem with hmem | hmem
    · exact hnone report hmem hreport
    · rcases List.mem_cons.mp hmem with rfl | hmem
      · simp [Report, hclosed] at hreport
      · -- the report would arrive at a closed wave
        obtain ⟨first, second, rfl⟩ := List.append_of_mem hmem
        refine haccepted (behind ++ mark :: first) report second (by simp [hrest]) (.inl ⟨?_, hreport⟩)
        exact statusAfter_eq_closed.mpr ⟨mark, by simp, hclosed⟩
  refine ⟨rfl, hlate, ?_, ?_⟩
  · intro before mark after heq hdraining hopen hcleaning
    obtain ⟨behind, rfl, hrest⟩ := hsplit heq (by simp [hdraining])
    rw [lastCleanup_cons_active] at hcleaning
    refine haccepted behind mark after hrest (.inr (.inr ⟨?_, hdraining⟩))
    rw [statusAfter_eq_cleanup (fun other hother ↦ h.tail other (by simp [hrest, hother])) (.inl rfl)]
    exact ⟨fun other hother ↦ hopen other (List.mem_cons_of_mem _ hother), hcleaning⟩
  · intro before mark after heq hfailed hlater
    by_contra hnone
    push Not at hnone
    obtain ⟨hexpected, -⟩ := h.expectedStatus_cleanupFailed hnone
    rw [hexpected] at hstatus
    obtain ⟨-, hlast⟩ := (statusAfter_eq_cleanup h.tail (.inr rfl)).mp hstatus.symm
    obtain ⟨behind, rfl, hrest⟩ := hsplit heq (by simp [hfailed])
    obtain ⟨other, hother, hcleaning⟩ := hlater
    rw [hrest, List.append_cons, lastCleanup_append_of_mem hother (.inl hcleaning)] at hlast
    obtain ⟨last, hmem, hagain⟩ := exists_of_lastCleanup hlast
    rw [heq] at h
    have hreport := (h.failure_unique hfailed).2 last hmem
    exact h.not_cleanupFailed_of_not_report (by simp [hmem]) hreport hagain

/-- Marks in order are followed to the expected status. -/
theorem follow_of_inOrder (h : Merged history) (horder : InOrder history) :
    follow history = some (expectedStatus history) := by
  obtain ⟨rest, rfl⟩ : ∃ rest, history = ⟨.waveController, .active⟩ :: rest := by
    cases history with
    | nil => simpa using horder.active_first
    | cons first rest =>
      obtain rfl := Option.some.inj horder.active_first
      exact ⟨rest, rfl⟩
  rw [follow, foldlM_advance h.tail]
  constructor
  · intro before mark after heq hrefused
    rcases hrefused with ⟨hclosed, hreport⟩ | ⟨hactive, hclosed⟩ | ⟨hcleaning, hdraining⟩
    · obtain ⟨closed, hmem, hstatus⟩ := statusAfter_eq_closed.mp hclosed
      obtain ⟨first, second, rfl⟩ := List.append_of_mem hmem
      obtain ⟨report, hearlier, hmade⟩ := horder.closed_late (⟨.waveController, .active⟩ :: first)
        closed (second ++ mark :: after) (by simp [heq]) hstatus
      obtain ⟨left, right, hleft⟩ := List.append_of_mem hearlier
      have hhistory : ⟨.waveController, .active⟩ :: rest =
          left ++ report :: ((right ++ closed :: second) ++ mark :: after) := by
        rw [heq]
        simp only [List.append_assoc, List.cons_append]
        rw [← List.cons_append, hleft, List.append_assoc, List.cons_append]
      rw [hhistory] at h
      exact h.report_unique hmade hreport
    · have hbefore := (statusAfter_eq_active fun other hother ↦
        h.tail other (by simp [heq, hother])).mp hactive
      subst hbefore
      obtain ⟨report, hmem, hreport⟩ := horder.closed_late [⟨.waveController, .active⟩] mark after
        (by simp [heq]) hclosed
      obtain rfl := List.mem_singleton.mp hmem
      simp at hreport
    · obtain ⟨hopen, hlast⟩ := (statusAfter_eq_cleanup (fun other hother ↦
        h.tail other (by simp [heq, hother])) (.inl rfl)).mp hcleaning
      refine horder.drained_early (⟨.waveController, .active⟩ :: before) mark after (by simp [heq])
        hdraining ?_ (by rw [lastCleanup_cons_active, hlast])
      intro other hother
      rcases List.mem_cons.mp hother with rfl | hother
      · simp
      · exact hopen other hother
  · by_cases hclosed : ∃ mark ∈ (⟨.waveController, .active⟩ :: rest : List WaveMark),
      mark.status = .closed
    · rw [h.expectedStatus_closed horder.closed_late hclosed, eq_comm, statusAfter_eq_closed]
      obtain ⟨mark, hmem, hstatus⟩ := hclosed
      rcases List.mem_cons.mp hmem with rfl | hmem
      · cases hstatus
      · exact ⟨mark, hmem, hstatus⟩
    · push Not at hclosed
      obtain ⟨hexpected, before, mark, after, heq, hfailed⟩ :=
        h.expectedStatus_cleanupFailed hclosed
      rw [hexpected, eq_comm, statusAfter_eq_cleanup h.tail (.inr rfl)]
      refine ⟨fun other hother ↦ hclosed other (List.mem_cons_of_mem _ hother), ?_⟩
      rw [← lastCleanup_cons_active, heq, ← hfailed]
      refine lastCleanup_eq_of_last (.inr hfailed) fun other hother ↦ ⟨fun hcleaning ↦ ?_, ?_⟩
      · obtain ⟨closed, hmem, hstatus⟩ :=
          horder.failure_closed before mark after heq hfailed ⟨other, hother, hcleaning⟩
        exact hclosed closed hmem hstatus
      · rw [heq] at h
        exact h.not_cleanupFailed_of_not_report (by simp [hother])
          ((h.failure_unique hfailed).2 other hother)

end Merged

end WaveMark

end HarborHF.Campaign
