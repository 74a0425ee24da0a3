import Mathlib.Data.List.Induction
import Mathlib.Logic.Function.Basic
import Mathlib.Logic.Relation

/-!
# Calls that edit a versioned document

A document is a history of revisions. A call reads the document at the head, decides what becomes of
it, and commits on the condition that the head has not moved; otherwise it starts again, a bounded
number of times. Any number of calls run at once, other commits of the repository leave the document
alone, and a request may end in an error whether or not it was carried out. What a call has observed
besides the document, such as its clock, is chosen anew in each attempt.

`Repository.Sound` is what holds of every interleaving: a revision is what its author decided for the
document right before it. `invariant` carries what every decision keeps to every revision, and
`stale` is about a call that begins after the document was taken from it.
-/

set_option autoImplicit false

namespace Async

/-! ### Documents and calls -/

/-- What a call decides for the document it has read. -/
inductive Verdict (σ ε α : Type)
  | done (answer : α)
  | fail (error : ε)
  | put (next : σ) (answer : α)
  deriving DecidableEq

/-- A revision of the document, with the call that made it and what the call had observed. A commit
elsewhere in the repository has no author among the calls. -/
structure Revision (ι ω σ : Type) where
  author : Option (ι × ω)
  contents : σ

/-- Where a call is: about to read with some attempts left, about to commit what it decided for the
document after so many revisions, or at its end. -/
inductive Stage (ω σ ε α : Type)
  | idle (attempts : ℕ)
  | pending (attempts : ℕ) (head : ℕ) (seen : ω) (next : σ) (answer : α)
  | finished (result : Except ε α)

/-- The history of a document and the calls. -/
structure Repository (ι ω σ ε α : Type) where
  revisions : List (Revision ι ω σ)
  stage : ι → Stage ω σ ε α

/-- The calls, the document they begin with, and the errors of the repository itself. -/
structure Calls (ι ω σ ε α : Type) where
  initial : σ
  verdict : ι → ω → σ → Verdict σ ε α
  attempts : ℕ
  contended : ι → ε
  interrupted : ε

/-- No call of a kind made one of the revisions behind those of a repository. -/
def NoneBy {ι ω σ ε α : Type} (Kind : ι → Prop) (repository later : Repository ι ω σ ε α) : Prop :=
  ∀ fresh, later.revisions = repository.revisions ++ fresh → ∀ revision ∈ fresh, ∀ author,
    revision.author = some author → ¬ Kind author.1

namespace Calls

variable {ι ω σ ε α : Type} (C : Calls ι ω σ ε α)

/-- The document after some revisions. -/
def document (revisions : List (Revision ι ω σ)) : σ :=
  revisions.getLast?.elim C.initial Revision.contents

@[simp] theorem document_concat (revisions : List (Revision ι ω σ)) (revision : Revision ι ω σ) :
    C.document (revisions ++ [revision]) = revision.contents := by
  simp [document]

theorem document_append (revisions fresh : List (Revision ι ω σ)) :
    C.document (revisions ++ fresh) = C.document revisions ∨
      ∃ revision ∈ fresh, C.document (revisions ++ fresh) = revision.contents := by
  rcases List.eq_nil_or_concat fresh with rfl | ⟨rest, last, rfl⟩
  · exact .inl (by rw [List.append_nil])
  · refine .inr ⟨last, by simp, ?_⟩
    rw [List.concat_eq_append, ← List.append_assoc, document_concat]

variable [DecidableEq ι]

/-- The stage after reading the head. -/
def looked (call : ι) (attempts : ℕ) (seen : ω) (revisions : List (Revision ι ω σ)) :
    Stage ω σ ε α :=
  match C.verdict call seen (C.document revisions) with
  | .done answer => .finished (.ok answer)
  | .fail error => .finished (.error error)
  | .put next answer => .pending attempts revisions.length seen next answer

/-- The steps of a repository. -/
inductive Step : Repository ι ω σ ε α → Repository ι ω σ ε α → Prop
  | look (repository : Repository ι ω σ ε α) (call : ι) (attempts : ℕ) (seen : ω)
      (h : repository.stage call = .idle (attempts + 1)) :
      Step repository ⟨repository.revisions,
        Function.update repository.stage call
          (C.looked call attempts seen repository.revisions)⟩
  | giveUp (repository : Repository ι ω σ ε α) (call : ι) (h : repository.stage call = .idle 0) :
      Step repository ⟨repository.revisions,
        Function.update repository.stage call (.finished (.error (C.contended call)))⟩
  | commit (repository : Repository ι ω σ ε α) (call : ι) (attempts : ℕ) (seen : ω) (next : σ)
      (answer : α) (result : Except ε α)
      (hresult : result = .ok answer ∨ result = .error C.interrupted)
      (h : repository.stage call =
        .pending attempts repository.revisions.length seen next answer) :
      Step repository ⟨repository.revisions ++ [⟨some (call, seen), next⟩],
        Function.update repository.stage call (.finished result)⟩
  | conflict (repository : Repository ι ω σ ε α) (call : ι) (attempts head : ℕ) (seen : ω)
      (next : σ) (answer : α)
      (h : repository.stage call = .pending attempts head seen next answer) :
      Step repository ⟨repository.revisions,
        Function.update repository.stage call (.idle attempts)⟩
  | interrupt (repository : Repository ι ω σ ε α) (call : ι)
      (h : ∀ result, repository.stage call ≠ .finished result) :
      Step repository ⟨repository.revisions,
        Function.update repository.stage call (.finished (.error C.interrupted))⟩
  | elsewhere (repository : Repository ι ω σ ε α) :
      Step repository ⟨repository.revisions ++ [⟨none, C.document repository.revisions⟩],
        repository.stage⟩

/-- Some steps of a repository. -/
abbrev Steps : Repository ι ω σ ε α → Repository ι ω σ ε α → Prop :=
  Relation.ReflTransGen C.Step

/-- Before the first step there are no revisions and no call has begun. -/
def start : Repository ι ω σ ε α := ⟨[], fun _ ↦ .idle C.attempts⟩

/-- The repositories that are reached. -/
def Reachable (repository : Repository ι ω σ ε α) : Prop := C.Steps C.start repository

/-! ### What holds of every interleaving -/

/-- The revision is what its author decided for a document. -/
def Authored (before : σ) (revision : Revision ι ω σ) : Prop :=
  match revision.author with
  | none => revision.contents = before
  | some (call, seen) => ∃ answer, C.verdict call seen before = .put revision.contents answer

/-- Every revision is what its author decided for the document before it. -/
structure Sound (repository : Repository ι ω σ ε α) : Prop where
  authored : ∀ before revision after, repository.revisions = before ++ revision :: after →
    C.Authored (C.document before) revision
  pending : ∀ call attempts head seen next answer,
    repository.stage call = .pending attempts head seen next answer → ∃ before after,
      repository.revisions = before ++ after ∧ before.length = head ∧
        C.verdict call seen (C.document before) = .put next answer
  answered : ∀ call answer, repository.stage call = .finished (.ok answer) →
    ∃ before after seen, repository.revisions = before ++ after ∧
      (C.verdict call seen (C.document before) = .done answer ∨
        ∃ revision rest, after = revision :: rest ∧ revision.author = some (call, seen) ∧
          C.verdict call seen (C.document before) = .put revision.contents answer)

variable {C} {repository next later : Repository ι ω σ ε α}

omit [DecidableEq ι] in
theorem sound_start : C.Sound C.start := by
  refine ⟨?_, ?_, ?_⟩
  · intro before revision after heq
    simp [start] at heq
  · intro call attempts head seen next answer h
    cases h
  · intro call answer h
    cases h

/-- A step that leaves the history alone keeps it sound. -/
theorem Sound.of_stage (h : C.Sound repository) {call : ι} {stage : Stage ω σ ε α}
    (hpending : ∀ attempts head seen next answer,
      stage = .pending attempts head seen next answer → ∃ before after,
        repository.revisions = before ++ after ∧ before.length = head ∧
          C.verdict call seen (C.document before) = .put next answer)
    (hanswered : ∀ answer, stage = .finished (.ok answer) → ∃ seen,
      C.verdict call seen (C.document repository.revisions) = .done answer) :
    C.Sound ⟨repository.revisions, Function.update repository.stage call stage⟩ := by
  refine ⟨h.authored, ?_, ?_⟩
  · intro other attempts head seen next answer hother
    dsimp only at hother
    by_cases heq : other = call
    · subst heq
      rw [Function.update_self] at hother
      exact hpending attempts head seen next answer hother
    · rw [Function.update_of_ne heq] at hother
      exact h.pending other attempts head seen next answer hother
  · intro other answer hother
    dsimp only at hother
    by_cases heq : other = call
    · subst heq
      rw [Function.update_self] at hother
      obtain ⟨seen, hdone⟩ := hanswered answer hother
      exact ⟨repository.revisions, [], seen, by simp, .inl hdone⟩
    · rw [Function.update_of_ne heq] at hother
      exact h.answered other answer hother

omit [DecidableEq ι] in
/-- One more revision that its author decided for the head. -/
theorem Sound.of_revision (h : C.Sound repository) {revision : Revision ι ω σ}
    (hauthored : C.Authored (C.document repository.revisions) revision) {stage : ι → Stage ω σ ε α}
    (hstage : ∀ call, stage call = repository.stage call ∨
      ∃ seen answer result, revision.author = some (call, seen) ∧ stage call = .finished result ∧
        (∀ value, result = .ok value → value = answer) ∧
        C.verdict call seen (C.document repository.revisions) = .put revision.contents answer) :
    C.Sound ⟨repository.revisions ++ [revision], stage⟩ := by
  refine ⟨?_, ?_, ?_⟩
  · intro before other after heq
    rcases List.eq_nil_or_concat after with rfl | ⟨rest, last, rfl⟩
    · obtain ⟨rfl, hsame⟩ := List.append_inj' heq rfl
      cases hsame
      exact hauthored
    · rw [List.concat_eq_append, ← List.cons_append, ← List.append_assoc] at heq
      exact h.authored before other rest (List.append_inj' heq rfl).1
  · intro call attempts head seen next answer hcall
    dsimp only at hcall
    rcases hstage call with hsame | ⟨-, -, result, -, hfinished, -⟩
    · rw [hsame] at hcall
      obtain ⟨before, after, heq, hlength, hput⟩ :=
        h.pending call attempts head seen next answer hcall
      exact ⟨before, after ++ [revision], by rw [heq, List.append_assoc], hlength, hput⟩
    · rw [hfinished] at hcall
      cases hcall
  · intro call answer hcall
    dsimp only at hcall
    rcases hstage call with hsame | ⟨seen, given, result, hauthor, hfinished, hvalue, hput⟩
    · rw [hsame] at hcall
      obtain ⟨before, after, seen, heq, hread⟩ := h.answered call answer hcall
      refine ⟨before, after ++ [revision], seen, by rw [heq, List.append_assoc], ?_⟩
      rcases hread with hdone | ⟨first, rest, rfl, hauthor, hput⟩
      · exact .inl hdone
      · exact .inr ⟨first, rest ++ [revision], rfl, hauthor, hput⟩
    · rw [hfinished] at hcall
      cases hcall
      rw [hvalue answer rfl]
      exact ⟨repository.revisions, [revision], seen, rfl,
        .inr ⟨revision, [], rfl, hauthor, hput⟩⟩

omit [DecidableEq ι] in
/-- What a call decided for the head, if nothing was committed since. -/
theorem Sound.verdict_of_pending (h : C.Sound repository) {call : ι} {attempts : ℕ} {seen : ω}
    {contents : σ} {answer : α} (hstage : repository.stage call =
      .pending attempts repository.revisions.length seen contents answer) :
    C.verdict call seen (C.document repository.revisions) = .put contents answer := by
  obtain ⟨before, after, heq, hlength, hput⟩ := h.pending _ _ _ _ _ _ hstage
  have hafter : after = [] := by
    have hlengths := congrArg List.length heq
    rw [List.length_append, hlength] at hlengths
    exact List.length_eq_zero_iff.mp (by omega)
  rw [heq, hafter, List.append_nil]
  exact hput

/-- One step keeps the repository sound. -/
theorem Sound.step (h : C.Sound repository) (hstep : C.Step repository next) : C.Sound next := by
  cases hstep with
  | look call attempts seen hstage =>
    refine h.of_stage ?_ ?_
    · intro left head seen' contents answer heq
      unfold looked at heq
      split at heq
      · cases heq
      · cases heq
      · rename_i hput
        cases heq
        exact ⟨repository.revisions, [], by simp, rfl, hput⟩
    · intro answer heq
      unfold looked at heq
      split at heq
      · rename_i hdone
        cases heq
        exact ⟨seen, hdone⟩
      · cases heq
      · cases heq
  | giveUp call hstage => exact h.of_stage (by simp) (by simp)
  | commit call attempts seen contents answer result hresult hstage =>
    have hput := h.verdict_of_pending hstage
    have hauthored : C.Authored (C.document repository.revisions) ⟨some (call, seen), contents⟩ :=
      ⟨answer, hput⟩
    refine h.of_revision hauthored fun other ↦ ?_
    by_cases heq : other = call
    · subst heq
      refine .inr ⟨seen, answer, result, rfl, Function.update_self _ _ _, ?_, hput⟩
      rintro value rfl
      rcases hresult with hok | herror
      · exact Except.ok.inj hok
      · cases herror
    · exact .inl (Function.update_of_ne heq _ _)
  | conflict call attempts head seen contents answer hstage =>
    exact h.of_stage (by simp) (by simp)
  | interrupt call hstage => exact h.of_stage (by simp) (by simp)
  | elsewhere =>
    have hauthored : C.Authored (C.document repository.revisions)
        ⟨none, C.document repository.revisions⟩ := rfl
    exact h.of_revision hauthored fun _ ↦ .inl rfl

theorem Sound.steps (h : C.Sound repository) (hsteps : C.Steps repository later) :
    C.Sound later := by
  induction hsteps with
  | refl => exact h
  | tail _ hstep ih => exact ih.step hstep

theorem Reachable.sound (h : C.Reachable repository) : C.Sound repository :=
  sound_start.steps h

theorem Step.revisions (hstep : C.Step repository next) : next.revisions = repository.revisions ∨
      ∃ revision, next.revisions = repository.revisions ++ [revision] := by
  cases hstep with
  | look | giveUp | conflict | interrupt => exact .inl rfl
  | commit | elsewhere => exact .inr ⟨_, rfl⟩

/-- Steps only add revisions. -/
theorem Steps.revisions (hsteps : C.Steps repository later) :
    ∃ fresh, later.revisions = repository.revisions ++ fresh := by
  induction hsteps with
  | refl => exact ⟨[], by simp⟩
  | tail _ hstep ih =>
    obtain ⟨fresh, hfresh⟩ := ih
    rcases hstep.revisions with heq | ⟨revision, heq⟩
    · exact ⟨fresh, by rw [heq, hfresh]⟩
    · exact ⟨fresh ++ [revision], by rw [heq, hfresh, List.append_assoc]⟩

/-- An attempt that is not disturbed commits what it decides. -/
theorem Steps.put {call : ι} {attempts : ℕ} {seen : ω} {contents : σ} {answer : α}
    (hidle : repository.stage call = .idle (attempts + 1))
    (hput : C.verdict call seen (C.document repository.revisions) = .put contents answer) :
    C.Steps repository ⟨repository.revisions ++ [⟨some (call, seen), contents⟩],
      Function.update repository.stage call (.finished (.ok answer))⟩ := by
  have hlook := Step.look (C := C) repository call attempts seen hidle
  have hlooked : C.looked call attempts seen repository.revisions =
      .pending attempts repository.revisions.length seen contents answer := by
    simp [looked, hput]
  rw [hlooked] at hlook
  have hcommit := Step.commit (C := C) ⟨repository.revisions, Function.update repository.stage call
      (.pending attempts repository.revisions.length seen contents answer)⟩ call attempts seen
    contents answer (.ok answer) (.inl rfl) (Function.update_self _ _ _)
  rw [Function.update_idem] at hcommit
  exact (Relation.ReflTransGen.single hlook).tail hcommit

/-- An attempt that finds nothing to do returns. -/
theorem Steps.done {call : ι} {attempts : ℕ} {seen : ω} {answer : α}
    (hidle : repository.stage call = .idle (attempts + 1))
    (hdone : C.verdict call seen (C.document repository.revisions) = .done answer) :
    C.Steps repository ⟨repository.revisions,
      Function.update repository.stage call (.finished (.ok answer))⟩ := by
  have hlook := Step.look (C := C) repository call attempts seen hidle
  have hlooked : C.looked call attempts seen repository.revisions = .finished (.ok answer) := by
    simp [looked, hdone]
  rw [hlooked] at hlook
  exact Relation.ReflTransGen.single hlook

/-! ### Rules -/

omit [DecidableEq ι] in
/-- What every decision keeps holds of every revision from one of which it holds. -/
theorem Sound.invariant_from (h : C.Sound repository) {I : σ → Prop}
    (hput : ∀ call seen contents next answer, I contents →
      C.verdict call seen contents = .put next answer → I next) {base before after : List _}
    (hbase : I (C.document base)) (heq : repository.revisions = base ++ before ++ after) :
    I (C.document (base ++ before)) := by
  induction before using List.reverseRecOn generalizing after with
  | nil => exact (List.append_nil base).symm ▸ hbase
  | append_singleton before revision ih =>
    have hrevisions : repository.revisions = base ++ before ++ revision :: after := by
      rw [heq]
      simp
    have hbefore := ih hrevisions
    have hauthored := h.authored (base ++ before) revision after hrevisions
    unfold Authored at hauthored
    rw [← List.append_assoc, document_concat]
    split at hauthored
    · rw [hauthored]
      exact hbefore
    · obtain ⟨answer, hverdict⟩ := hauthored
      exact hput _ _ _ _ _ hbefore hverdict

omit [DecidableEq ι] in
/-- What is so of every decision of a call is so of its revisions. -/
theorem Sound.lawful (h : C.Sound repository) {Lawful : ι → ω → σ → σ → Prop}
    (hput : ∀ {call seen before next answer},
      C.verdict call seen before = .put next answer → Lawful call seen before next)
    {before after : List (Revision ι ω σ)} {revision : Revision ι ω σ}
    (heq : repository.revisions = before ++ revision :: after) :
    (revision.author = none ∧ revision.contents = C.document before) ∨
      ∃ call seen, revision.author = some (call, seen) ∧
        Lawful call seen (C.document before) revision.contents := by
  have hauthored := h.authored before revision after heq
  unfold Authored at hauthored
  split at hauthored
  · next hauthor => exact .inl ⟨hauthor, hauthored⟩
  · next call seen hauthor =>
    obtain ⟨answer, hverdict⟩ := hauthored
    exact .inr ⟨call, seen, hauthor, hput hverdict⟩

omit [DecidableEq ι] in
theorem Sound.invariant (h : C.Sound repository) {I : σ → Prop} (hinitial : I C.initial)
    (hput : ∀ call seen contents next answer, I contents →
      C.verdict call seen contents = .put next answer → I next) {before after : List _}
    (heq : repository.revisions = before ++ after) : I (C.document before) := by
  have hnil : repository.revisions = [] ++ before ++ after := heq
  have hempty : I (C.document []) := hinitial
  exact h.invariant_from hput hempty hnil

/-- A call about a document that is not held since `base` has committed nothing, and what it
answered it answered at once. -/
structure Stale (C : Calls ι ω σ ε α) (Held : σ → Prop) (call : ι)
    (base : List (Revision ι ω σ)) (repository : Repository ι ω σ ε α) : Prop where
  fresh : ∃ fresh, repository.revisions = base ++ fresh ∧ ∀ revision ∈ fresh,
    ¬ Held revision.contents ∧ ∀ author, revision.author = some author → author.1 ≠ call
  pending : ∀ attempts head seen next answer,
    repository.stage call ≠ .pending attempts head seen next answer
  answered : ∀ answer, repository.stage call = .finished (.ok answer) → ∃ seen before after,
    repository.revisions = base ++ before ++ after ∧
      C.verdict call seen (C.document (base ++ before)) = .done answer

namespace Stale

variable {Held : σ → Prop} {Takes : ι → Prop} {call : ι} {base : List (Revision ι ω σ)}

omit [DecidableEq ι] in
theorem not_held (h : C.Stale Held call base repository) (hfree : ¬ Held (C.document base)) :
    ¬ Held (C.document repository.revisions) := by
  obtain ⟨fresh, heq, hfresh⟩ := h.fresh
  rw [heq]
  rcases C.document_append base fresh with hsame | ⟨revision, hmem, hsame⟩
  · rw [hsame]
    exact hfree
  · rw [hsame]
    exact (hfresh revision hmem).1

theorem of_stage (h : C.Stale Held call base repository) {other : ι} {stage : Stage ω σ ε α}
    (hpending : other = call → ∀ attempts head seen next answer,
      stage ≠ .pending attempts head seen next answer)
    (hanswered : other = call → ∀ answer, stage = .finished (.ok answer) →
      ∃ seen, C.verdict call seen (C.document repository.revisions) = .done answer) :
    C.Stale Held call base ⟨repository.revisions, Function.update repository.stage other stage⟩ := by
  by_cases heq : other = call
  · subst heq
    refine ⟨h.fresh, ?_, ?_⟩
    · intro attempts head seen next answer
      dsimp only
      rw [Function.update_self]
      exact hpending rfl attempts head seen next answer
    · intro answer hfinished
      dsimp only at hfinished
      rw [Function.update_self] at hfinished
      obtain ⟨seen, hdone⟩ := hanswered rfl answer hfinished
      obtain ⟨fresh, hrevisions, -⟩ := h.fresh
      exact ⟨seen, fresh, [], by rw [List.append_nil, hrevisions], by rw [← hrevisions]; exact hdone⟩
  · have hsame : Function.update repository.stage other stage call = repository.stage call :=
      Function.update_of_ne (Ne.symm heq) _ _
    refine ⟨h.fresh, ?_, ?_⟩
    · dsimp only
      rw [hsame]
      exact h.pending
    · dsimp only
      rw [hsame]
      exact h.answered

omit [DecidableEq ι] in
theorem of_revision (h : C.Stale Held call base repository) {revision : Revision ι ω σ}
    {stage : ι → Stage ω σ ε α} (hheld : ¬ Held revision.contents)
    (hauthor : ∀ author, revision.author = some author → author.1 ≠ call)
    (hstage : stage call = repository.stage call) :
    C.Stale Held call base ⟨repository.revisions ++ [revision], stage⟩ := by
  obtain ⟨fresh, heq, hfresh⟩ := h.fresh
  refine ⟨⟨fresh ++ [revision], by rw [heq, List.append_assoc], ?_⟩, ?_, ?_⟩
  · intro other hother
    rcases List.mem_append.mp hother with hmem | hmem
    · exact hfresh other hmem
    · rw [List.mem_singleton.mp hmem]
      exact ⟨hheld, hauthor⟩
  · dsimp only
    rw [hstage]
    exact h.pending
  · intro answer hfinished
    dsimp only at hfinished
    rw [hstage] at hfinished
    obtain ⟨seen, before, after, hsplit, hdone⟩ := h.answered answer hfinished
    exact ⟨seen, before, after ++ [revision], by rw [hsplit, List.append_assoc], hdone⟩

/-- A step in which no other call takes the document keeps the call stale. -/
theorem step (h : C.Stale Held call base repository) (hsound : C.Sound repository)
    (hothers : ∀ other seen contents next answer, ¬ Takes other → ¬ Held contents →
      C.verdict other seen contents = .put next answer → ¬ Held next)
    (hcall : ∀ seen contents next answer, ¬ Held contents →
      C.verdict call seen contents ≠ .put next answer)
    (hfree : ¬ Held (C.document base)) (hstep : C.Step repository next)
    (hquiet : ∀ revision, next.revisions = repository.revisions ++ [revision] →
      ∀ author, revision.author = some author → ¬ Takes author.1) :
    C.Stale Held call base next := by
  have hdocument := h.not_held hfree
  cases hstep with
  | look other attempts seen hstage =>
    refine h.of_stage ?_ ?_
    · rintro rfl left head seen' next answer heq
      unfold looked at heq
      split at heq
      · cases heq
      · cases heq
      · rename_i hput
        exact hcall _ _ _ _ hdocument hput
    · rintro rfl answer heq
      unfold looked at heq
      split at heq
      · rename_i hdone
        cases heq
        exact ⟨seen, hdone⟩
      · cases heq
      · cases heq
  | giveUp other hstage => exact h.of_stage (by simp) (by simp)
  | commit other attempts seen contents answer result hresult hstage =>
    have hput := hsound.verdict_of_pending hstage
    have hne : other ≠ call := by
      rintro rfl
      exact h.pending _ _ _ _ _ hstage
    refine h.of_revision ?_ ?_ (Function.update_of_ne hne.symm _ _)
    · exact hothers other seen _ contents answer (hquiet _ rfl _ rfl) hdocument hput
    · rintro author hauthor
      cases hauthor
      exact hne
  | conflict other attempts head seen contents answer hstage => exact h.of_stage (by simp) (by simp)
  | interrupt other hstage => exact h.of_stage (by simp) (by simp)
  | elsewhere => exact h.of_revision hdocument (by simp) rfl

omit [DecidableEq ι] in
theorem noneBy (h : C.Stale Held call repository.revisions later) :
    NoneBy (fun other ↦ other = call) repository later := by
  obtain ⟨old, hold, hquiet⟩ := h.fresh
  intro fresh hfresh revision hrevision author hauthor
  rw [hold] at hfresh
  obtain rfl := List.append_cancel_left hfresh
  exact (hquiet revision hrevision).2 author hauthor

end Stale

/-- A call that begins while the document is not held stays stale until the document is taken. -/
theorem Sound.stale (h : C.Sound repository) (hsteps : C.Steps repository later)
    {Held : σ → Prop} {Takes : ι → Prop} {call : ι} {attempts : ℕ}
    (hothers : ∀ other seen contents next answer, ¬ Takes other → ¬ Held contents →
      C.verdict other seen contents = .put next answer → ¬ Held next)
    (hcall : ∀ seen contents next answer, ¬ Held contents →
      C.verdict call seen contents ≠ .put next answer)
    (hfree : ¬ Held (C.document repository.revisions))
    (hidle : repository.stage call = .idle attempts) (hquiet : NoneBy Takes repository later) :
    C.Stale Held call repository.revisions later := by
  induction hsteps with
  | refl =>
    refine ⟨⟨[], by simp, by simp⟩, ?_, ?_⟩
    · intro left head seen next answer heq
      rw [hidle] at heq
      cases heq
    · intro answer heq
      rw [hidle] at heq
      cases heq
  | @tail middle last hmiddle hstep ih =>
    obtain ⟨old, hold⟩ := Steps.revisions hmiddle
    have hstale := ih fun fresh hfresh revision hmem ↦ by
      rcases hstep.revisions with heq | ⟨extra, heq⟩
      · exact hquiet fresh (by rw [heq, hfresh]) revision hmem
      · exact hquiet (fresh ++ [extra]) (by rw [heq, hfresh, List.append_assoc]) revision
          (List.mem_append_left _ hmem)
    refine hstale.step (h.steps hmiddle) hothers hcall hfree hstep fun revision heq ↦ ?_
    exact hquiet (old ++ [revision]) (by rw [heq, hold, List.append_assoc]) revision (by simp)

end Calls

end Async
