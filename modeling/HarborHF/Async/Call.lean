import HarborHF.Async.RelyGuarantee
import Mathlib.Logic.Relation

/-!
# One call among others

A `Call` is a program that one thread runs to its end, with work of the others before each of its
operations. `Steps` is such work, any number of allowed operations of any threads, and `Later` also
crashes and restarts; both keep what each operation keeps (`Steps.keeps`, `Later.keeps`).

`Safe.call` reads the postcondition of a safe program off its calls, and `Machine.call_of_eval` is
the call of a program that runs alone.
-/

set_option autoImplicit false

namespace Async

variable {I : Interface} {ε σ χ α β : Type}

/-- One allowed operation of some thread. -/
def Machine.Step (M : Machine I σ χ) (allowed : I.Op → Prop) (before after : σ) : Prop :=
  ∃ (thread : ℕ) (op : I.Op) (choice : χ) (answer : I.Ans op),
    allowed op ∧ M.perform thread op choice before = some (answer, after)

/-- Any number of allowed operations. -/
def Machine.Steps (M : Machine I σ χ) (allowed : I.Op → Prop) : σ → σ → Prop :=
  Relation.ReflTransGen (M.Step allowed)

/-- Any number of allowed operations and restarts. -/
def Machine.Later (M : Machine I σ χ) (allowed : I.Op → Prop) : σ → σ → Prop :=
  Relation.ReflTransGen fun before after ↦
    M.Step allowed before after ∨ M.restart before = some after

/-- A program run to its end by one thread, with work of the others in between. -/
inductive Machine.Call (M : Machine I σ χ) (others : σ → σ → Prop) (thread : ℕ) :
    Program I ε α → σ → Except ε α → σ → Prop
  | ret {value : α} {state : σ} : Call M others thread (.ret value) state (.ok value) state
  | throw {error : ε} {state : σ} : Call M others thread (.throw error) state (.error error) state
  | await {op : I.Op} {resume : I.Ans op → Program I ε α} {state before after last : σ} {choice : χ}
      {answer : I.Ans op} {outcome : Except ε α} (hothers : others state before)
      (hperform : M.perform thread op choice before = some (answer, after))
      (hrest : Call M others thread (resume answer) after outcome last) :
      Call M others thread (.await op resume) state outcome last

variable {M : Machine I σ χ} {allowed : I.Op → Prop} {inv : σ → Prop} {before after : σ}

/-- What each operation keeps, and what it relates to the state before, holds after any number of
them. -/
theorem Machine.Steps.keeps {grows : σ → σ → Prop} (hrefl : ∀ state, grows state state)
    (htrans : ∀ {first middle last}, grows first middle → grows middle last → grows first last)
    (hstep : ∀ {first last}, inv first → M.Step allowed first last → inv last ∧ grows first last)
    (h : M.Steps allowed before after) (hinv : inv before) : inv after ∧ grows before after := by
  induction h with
  | refl => exact ⟨hinv, hrefl before⟩
  | tail _ hlast ih =>
    obtain ⟨hnext, hgrows⟩ := hstep ih.1 hlast
    exact ⟨hnext, htrans ih.2 hgrows⟩

theorem Machine.Later.keeps {grows : σ → σ → Prop} (hrefl : ∀ state, grows state state)
    (htrans : ∀ {first middle last}, grows first middle → grows middle last → grows first last)
    (hstep : ∀ {first last}, inv first → M.Step allowed first last → inv last ∧ grows first last)
    (hrestart : ∀ {first last}, inv first → M.restart first = some last →
      inv last ∧ grows first last)
    (h : M.Later allowed before after) (hinv : inv before) : inv after ∧ grows before after := by
  induction h with
  | refl => exact ⟨hinv, hrefl before⟩
  | tail _ hlast ih =>
    rcases hlast with hlast | hlast
    · obtain ⟨hnext, hgrows⟩ := hstep ih.1 hlast
      exact ⟨hnext, htrans ih.2 hgrows⟩
    · obtain ⟨hnext, hgrows⟩ := hrestart ih.1 hlast
      exact ⟨hnext, htrans ih.2 hgrows⟩

/-- A program that is run alone is a call without other work. -/
theorem Machine.call_of_eval {others : σ → σ → Prop} (hrefl : ∀ state, others state state)
    {thread : ℕ} {choice : χ} {program : Program I ε α} {state last : σ} {outcome : Except ε α}
    (h : M.eval thread choice program state = (some outcome, last)) :
    M.Call others thread program state outcome last := by
  induction program generalizing state with
  | ret value =>
    cases h
    exact .ret
  | throw error =>
    cases h
    exact .throw
  | await op resume ih =>
    cases hperform : M.perform thread op choice state with
    | none =>
      rw [Machine.eval_blocked M hperform] at h
      cases h
    | some result =>
      obtain ⟨answer, after⟩ := result
      rw [Machine.eval_await M hperform] at h
      exact .await (hrefl state) hperform (ih answer h)

/-- The outcome of a program satisfies its postconditions. -/
def Ends (post : α → σ → Prop) (fail : ε → σ → Prop) : Except ε α → σ → Prop
  | .ok value, state => post value state
  | .error error, state => fail error state

/-- The outcome of a call of a safe program satisfies its postcondition. -/
theorem Safe.call {thread : ℕ} {K : Contract I σ} {others : σ → σ → Prop} {program : Program I ε α}
    {post : α → σ → Prop} {fail : ε → σ → Prop} {state last : σ} {outcome : Except ε α}
    (hothers : ∀ {first middle}, inv first → others first middle →
      inv middle ∧ K.rely first middle) (hok : ∀ op state, K.ok op state)
    (hsafe : Safe M inv thread K program post fail state) (hinv : inv state)
    (hcall : M.Call others thread program state outcome last) :
    inv last ∧ Ends post fail outcome last := by
  induction hcall with
  | ret => exact ⟨hinv, hsafe _ (K.rely_refl _) hinv⟩
  | throw => exact ⟨hinv, hsafe _ (K.rely_refl _) hinv⟩
  | await hwork hperform _ ih =>
    obtain ⟨hbefore, hrely⟩ := hothers hinv hwork
    obtain ⟨-, hafter, hrest⟩ := hsafe _ hrely hbefore (hok _ _) _ _ _ hperform
    exact ih hrest hafter

end Async
