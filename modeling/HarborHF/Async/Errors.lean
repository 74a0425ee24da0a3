import HarborHF.Async.RelyGuarantee

/-!
# The errors of a program

Which errors a program can throw, if the errors among its answers are of an allowed kind
(`Throws`). This is a fact about the text of the program; a run that is safe throws such errors only
(`Safe.throws`).
-/

set_option autoImplicit false

namespace Async

variable {I : Interface} {ε ε' α β σ χ : Type}

namespace Program

/-- Every error the program throws is allowed, if each answer it gets is an expected one. -/
def Throws (answered : (op : I.Op) → I.Ans op → Prop) (allowed : ε → Prop) : Program I ε α → Prop
  | .ret _ => True
  | .throw error => allowed error
  | .await op resume => ∀ answer, answered op answer → (resume answer).Throws answered allowed

variable {answered : (op : I.Op) → I.Ans op → Prop} {allowed : ε → Prop}

theorem throws_bind {program : Program I ε α} {next : α → Program I ε β}
    (hprogram : program.Throws answered allowed)
    (hnext : ∀ value, (next value).Throws answered allowed) :
    (program >>= next).Throws answered allowed := by
  induction program with
  | ret value => exact hnext value
  | throw error => exact hprogram
  | await op resume ih => exact fun answer hanswer ↦ ih answer (hprogram answer hanswer)

/-- What follows a caught program sees its value or an allowed error. -/
theorem throws_attempt_bind {program : Program I ε α} {allowed' : ε' → Prop}
    {next : Except ε α → Program I ε' β} (hprogram : program.Throws answered allowed)
    (hok : ∀ value, (next (.ok value)).Throws answered allowed')
    (herror : ∀ error, allowed error → (next (.error error)).Throws answered allowed') :
    ((program.attempt : Program I ε' (Except ε α)) >>= next).Throws answered allowed' := by
  induction program with
  | ret value => exact hok value
  | throw error => exact herror error hprogram
  | await op resume ih => exact fun answer hanswer ↦ ih answer (hprogram answer hanswer)

theorem throws_ofExcept {outcome : Except ε α} (h : ∀ error, outcome = .error error → allowed error) :
    (ofExcept outcome : Program I ε α).Throws answered allowed := by
  cases outcome with
  | ok value => trivial
  | error error => exact h error rfl

end Program

variable {M : Machine I σ χ} {inv : σ → Prop} {thread : ℕ} {K : Contract I σ}
  {answered : (op : I.Op) → I.Ans op → Prop} {allowed : ε → Prop} {post : α → σ → Prop}
  {fail : ε → σ → Prop}

/-- A safe program throws allowed errors, where the machine gives expected answers. -/
theorem Safe.throws {program : Program I ε α} {state : σ}
    (h : Safe M inv thread K program post fail state) (hthrows : program.Throws answered allowed)
    (hanswered : ∀ op before choice answer after, inv before →
      M.perform thread op choice before = some (answer, after) → answered op answer) :
    Safe M inv thread K program post (fun error last ↦ fail error last ∧ allowed error) state := by
  induction program generalizing state with
  | ret value => exact h
  | throw error => exact fun last hrely hinv ↦ ⟨h last hrely hinv, hthrows⟩
  | await op resume ih =>
    intro before hrely hinv hok choice answer after hperform
    obtain ⟨hguar, hafter, hrest⟩ := h before hrely hinv hok choice answer after hperform
    exact ⟨hguar, hafter,
      ih answer hrest (hthrows answer (hanswered op before choice answer after hinv hperform))⟩

end Async
