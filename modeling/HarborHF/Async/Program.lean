import Mathlib.Logic.Basic

/-!
# Programs that await operations

An asynchronous function is a tree of awaited operations: it returns, throws, or awaits one
operation and resumes with the answer. `Program I ε α` is that tree over an interface `I`, a family
of operations each with its own type of answers. Nothing is said here about what an operation does;
`Pool` gives it a meaning on a shared state and interleaves many programs.

`bind` is sequencing and `attempt` is `try … catch`. `Uses` is the footprint of a program: every
operation it can reach, whatever the answers were, satisfies a predicate. It is closed under
sequencing, catching and iteration (`uses_bind`, `uses_attempt`, `uses_forM`), so the footprint of a
large program is read off its parts.
-/

set_option autoImplicit false

namespace Async

/-- A family of operations, each with the type of its answers. -/
structure Interface where
  Op : Type
  Ans : Op → Type

/-- A program over an interface: it returns a value, throws an error, or awaits an operation and
resumes with the answer. -/
inductive Program (I : Interface) (ε α : Type) : Type
  | ret (value : α)
  | throw (error : ε)
  | await (op : I.Op) (resume : I.Ans op → Program I ε α)

namespace Program

variable {I : Interface} {ε ε' α β γ : Type}

/-- Run a program, then the program chosen by its value; an error ends both. -/
def bind : Program I ε α → (α → Program I ε β) → Program I ε β
  | ret value, next => next value
  | throw error, _ => throw error
  | await op resume, next => await op fun answer ↦ (resume answer).bind next

instance : Monad (Program I ε) where
  pure := ret
  bind := bind

/-- The outcome of a program as a value, so that the caller can go on after an error. -/
def attempt : Program I ε α → Program I ε' (Except ε α)
  | ret value => ret (.ok value)
  | throw error => ret (.error error)
  | await op resume => await op fun answer ↦ (resume answer).attempt

/-- Return the value of an outcome, or throw its error. -/
def ofExcept : Except ε α → Program I ε α
  | .ok value => ret value
  | .error error => throw error

@[simp] theorem pure_eq (value : α) : (pure value : Program I ε α) = ret value := rfl

@[simp] theorem await_bind (op : I.Op) (resume : I.Ans op → Program I ε α)
    (next : α → Program I ε β) :
    (await op resume >>= next) = await op fun answer ↦ resume answer >>= next := rfl

theorem bind_assoc' (program : Program I ε α) (first : α → Program I ε β)
    (second : β → Program I ε γ) :
    ((program >>= first) >>= second) = program >>= fun value ↦ first value >>= second := by
  induction program with
  | ret value => rfl
  | throw error => rfl
  | await op resume ih =>
    simp only [await_bind]
    congr 1
    funext answer
    exact ih answer

theorem bind_ret (program : Program I ε α) : (program >>= ret) = program := by
  induction program with
  | ret value => rfl
  | throw error => rfl
  | await op resume ih =>
    simp only [await_bind]
    congr 1
    funext answer
    exact ih answer

instance : LawfulMonad (Program I ε) :=
  LawfulMonad.mk' (Program I ε) bind_ret (fun _ _ ↦ rfl) bind_assoc'

/-! ### Footprints -/

/-- Every operation the program can reach, whatever the answers were, satisfies `allowed`. -/
def Uses (allowed : I.Op → Prop) : Program I ε α → Prop
  | ret _ => True
  | throw _ => True
  | await op resume => allowed op ∧ ∀ answer, (resume answer).Uses allowed

variable {allowed : I.Op → Prop}

@[simp] theorem uses_ofExcept (outcome : Except ε α) :
    (ofExcept outcome : Program I ε α).Uses allowed := by
  cases outcome <;> trivial

theorem uses_bind {program : Program I ε α} {next : α → Program I ε β}
    (hfirst : program.Uses allowed) (hnext : ∀ value, (next value).Uses allowed) :
    (program >>= next).Uses allowed := by
  induction program with
  | ret value => exact hnext value
  | throw error => trivial
  | await op resume ih => exact ⟨hfirst.1, fun answer ↦ ih answer (hfirst.2 answer)⟩

theorem uses_ofExcept_bind {outcome : Except ε α} {next : α → Program I ε β}
    (h : ∀ value, outcome = .ok value → (next value).Uses allowed) :
    (ofExcept outcome >>= next).Uses allowed := by
  cases outcome with
  | ok value => exact h value rfl
  | error error => trivial

theorem uses_attempt {program : Program I ε α} (h : program.Uses allowed) :
    (program.attempt : Program I ε' (Except ε α)).Uses allowed := by
  induction program with
  | ret value => trivial
  | throw error => trivial
  | await op resume ih => exact ⟨h.1, fun answer ↦ ih answer (h.2 answer)⟩

theorem uses_forM {items : List β} {body : β → Program I ε PUnit}
    (h : ∀ item ∈ items, (body item).Uses allowed) : (items.forM body).Uses allowed := by
  induction items with
  | nil => trivial
  | cons item rest ih =>
    refine uses_bind (h item List.mem_cons_self) fun _ ↦ ih fun other hother ↦ ?_
    exact h other (List.mem_cons_of_mem item hother)

theorem Uses.mono {weaker : I.Op → Prop} {program : Program I ε α} (h : program.Uses allowed)
    (himplies : ∀ op, allowed op → weaker op) : program.Uses weaker := by
  induction program with
  | ret value => trivial
  | throw error => trivial
  | await op resume ih => exact ⟨himplies op h.1, fun answer ↦ ih answer (h.2 answer)⟩

end Program

end Async
