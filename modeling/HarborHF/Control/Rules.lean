import HarborHF.Async.RelyGuarantee
import HarborHF.Control.Append
import HarborHF.Control.Service

/-!
# Rules for the awaited operations

The rules of `Safe` for the operations the service's methods are written with. A query leaves the
state alone, so the rest of the method continues from the state it was asked in; an append continues
from each of its outcomes; a method in a queue runs between the acquire and the release.
-/

set_option autoImplicit false

namespace HarborHF.Control

open Async Program

section

variable [Digests] {α β : Type} {inv : World → Prop} {thread : ℕ} {K : Contract interface World}
  {post : β → World → Prop} {fail : ServiceError → World → Prop} {world : World}

theorem safe_ask {question : Query} {next : question.Ans → Act β}
    (hrefl : ∀ state, inv state → K.guar state state) (h : ∀ state, K.rely world state → inv state →
      Safe machine inv thread K (next (question.answer state.projection)) post fail state) :
    Safe machine inv thread K (ask question >>= next) post fail world := by
  refine safe_await fun before hrely hinv _ choice answer after hperform ↦ ?_
  cases hperform
  exact ⟨hrefl before hinv, hinv, h before hrely hinv⟩

/-- An append, then the rest of the method or the error from each of its outcomes. -/
theorem safe_append {record : Record} {next : Bool → Act β}
    (h : ∀ before, K.rely world before → inv before → K.ok (.append record) before →
      ∀ answer after, before.append record = (answer, after) →
        K.guar before after ∧ inv after ∧
          (∀ created, answer = .ok created →
            Safe machine inv thread K (next created) post fail after) ∧
          ∀ error, answer = .error error → ∀ last, K.rely after last → inv last → fail error last) :
    Safe machine inv thread K (append record >>= next) post fail world := by
  refine safe_await fun before hrely hinv hok choice answer after hperform ↦ ?_
  obtain ⟨hguar, hafter, hnext, hfail⟩ :=
    h before hrely hinv hok answer after (Option.some.inj hperform)
  refine ⟨hguar, hafter, ?_⟩
  cases answer with
  | ok created => exact hnext created rfl
  | error error => exact hfail error rfl

/-- A method in a queue: it starts once the queue is taken, and leaves it at its end whether or not
it throws. -/
theorem safe_withQueue {queue : Queue} {method : Act β} (held : World → Prop)
    {post' : β → World → Prop} {fail' : ServiceError → World → Prop}
    (hacquire : ∀ before, K.rely world before → inv before →
      (∀ other, (queue, other) ∉ before.held) →
        let after : World := { before with held := (queue, thread) :: before.held }
        K.guar before after ∧ inv after ∧ held after)
    (hmethod : ∀ state, inv state → held state →
      Safe machine inv thread K method post' fail' state)
    (hrelease : ∀ before, inv before →
      let after : World :=
        { before with held := before.held.filter fun entry ↦ entry ≠ (queue, thread) }
      K.guar before after ∧ inv after ∧
        (∀ value, post' value before → ∀ last, K.rely after last → inv last → post value last) ∧
        ∀ error, fail' error before → ∀ last, K.rely after last → inv last → fail error last)
    (hstable : ∀ before after, K.rely before after → inv after →
      (∀ value, post' value before → post' value after) ∧
        ∀ error, fail' error before → fail' error after) :
    Safe machine inv thread K (withQueue queue method) post fail world := by
  refine safe_await fun before hrely hinv _ choice answer after hperform ↦ ?_
  have hperform : World.perform thread (.acquire queue) choice before = some (answer, after) :=
    hperform
  simp only [World.perform] at hperform
  split at hperform
  · cases hperform
  next hfree =>
  cases hperform
  obtain ⟨hguar, hafter, hheld⟩ := hacquire before hrely hinv fun other hother ↦
    hfree (List.any_eq_true.mpr ⟨(queue, other), hother, by simp⟩)
  refine ⟨hguar, hafter, safe_bind (safe_attempt ((hmethod _ hafter hheld).mono ?_ ?_)) hafter⟩
  · intro value last hlast hpost
    refine safe_await fun middle hmiddle hinvMiddle _ choice' answer' final hfinal ↦ ?_
    cases hfinal
    obtain ⟨hguar', hfinal, hvalue, -⟩ := hrelease middle hinvMiddle
    exact ⟨hguar', hfinal, hvalue value ((hstable last middle hmiddle hinvMiddle).1 value hpost)⟩
  · intro error last hlast hfail
    refine safe_await fun middle hmiddle hinvMiddle _ choice' answer' final hfinal ↦ ?_
    cases hfinal
    obtain ⟨hguar', hfinal, -, herror⟩ := hrelease middle hinvMiddle
    exact ⟨hguar', hfinal, herror error ((hstable last middle hmiddle hinvMiddle).2 error hfail)⟩

/-! ### Methods run alone -/

variable {choice : Choice}

theorem eval_ask_then {question : Query} {next : question.Ans → Act β} {answer : question.Ans}
    (h : question.answer world.projection = answer) :
    machine.eval thread choice (ask question >>= next) world =
      machine.eval thread choice (next answer) world := by
  subst h
  rfl

theorem eval_append (record : Record) : machine.eval thread choice (append record) world =
      (some (world.append record).1, (world.append record).2) := by
  change machine.eval thread choice (ofExcept (world.append record).1) (world.append record).2 = _
  cases (world.append record).1 with
  | ok created => rfl
  | error error => rfl

/-- The state in which a thread has taken a queue. -/
def World.hold (world : World) (queue : Queue) (thread : ℕ) : World :=
  { world with held := (queue, thread) :: world.held }

/-- The state in which a thread has left a queue. -/
def World.leave (world : World) (queue : Queue) (thread : ℕ) : World :=
  { world with held := world.held.filter fun entry ↦ entry ≠ (queue, thread) }

/-- A method in a queue, run alone: it is blocked while the queue is held. -/
theorem eval_withQueue (queue : Queue) (method : Act β) :
    machine.eval thread choice (withQueue queue method) world =
      if (world.held.any fun entry ↦ entry.1 = queue) = true then (none, world)
      else
        match machine.eval thread choice method (world.hold queue thread) with
        | (some outcome, state) => (some outcome, state.leave queue thread)
        | (none, state) => (none, state) := by
  split_ifs with hheld
  · refine Machine.eval_blocked machine ?_
    exact if_pos hheld
  · have hacquire : machine.perform thread (Op.acquire queue) choice world =
        some ((), world.hold queue thread) := if_neg hheld
    refine (Machine.eval_await machine hacquire).trans ?_
    rw [Machine.eval_bind, Machine.eval_attempt]
    cases machine.eval thread choice method (world.hold queue thread) with
    | mk outcome state =>
      cases outcome with
      | none => rfl
      | some outcome =>
        cases outcome with
        | ok value => rfl
        | error error => rfl

end

end HarborHF.Control
