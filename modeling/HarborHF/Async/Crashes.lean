import Mathlib.Data.Nat.Notation
import Mathlib.Logic.Relation

/-!
# Procedures that may be stopped

A procedure reads a state and changes it by steps, and may be stopped before any of them (`crash`).
`Meets` is the rule of such procedures: a property of every state in which it may be stopped, and of
the state at its end. What every attempt keeps at every point holds after any number of attempts
(`Attempts.invariant`).
-/

set_option autoImplicit false

namespace Async

/-- A procedure over a state: it returns, raises an error, reads the state or changes it. -/
inductive Procedure (σ ε α : Type)
  | ret (value : α)
  | raise (error : ε)
  | read (next : σ → Procedure σ ε α)
  | write (change : σ → σ) (next : Procedure σ ε α)

namespace Procedure

variable {σ ε α β ι : Type}

def bind : Procedure σ ε α → (α → Procedure σ ε β) → Procedure σ ε β
  | ret value, next => next value
  | raise error, _ => raise error
  | read rest, next => read fun state ↦ (rest state).bind next
  | write change rest, next => write change (rest.bind next)

instance : Monad (Procedure σ ε) where
  pure := ret
  bind := bind

/-- The state. -/
def fetch : Procedure σ ε σ := read ret

/-- One change of the state. -/
def modify (change : σ → σ) : Procedure σ ε Unit := write change (ret ())

/-- A result that does not depend on the state. -/
def ofExcept : Except ε α → Procedure σ ε α
  | .ok value => ret value
  | .error error => raise error

/-- Goes on with the handler where the procedure raises an error. -/
def tryCatch : Procedure σ ε α → (ε → Procedure σ ε α) → Procedure σ ε α
  | ret value, _ => ret value
  | raise error, handler => handler error
  | read next, handler => read fun state ↦ (next state).tryCatch handler
  | write change next, handler => write change (next.tryCatch handler)

/-- A whole run. -/
def exec : Procedure σ ε α → σ → Except ε α × σ
  | ret value, state => (.ok value, state)
  | raise error, state => (.error error, state)
  | read next, state => (next state).exec state
  | write change next, state => next.exec (change state)

/-- The state that is left if the procedure is stopped after so many changes. -/
def crash : Procedure σ ε α → ℕ → σ → σ
  | ret _, _, state => state
  | raise _, _, state => state
  | read next, count, state => (next state).crash count state
  | write _ _, 0, state => state
  | write change next, count + 1, state => next.crash count (change state)

/-- Wherever the procedure is stopped the state has a property, and when it returns or raises an error
it has another one. -/
def Meets (Stopped : σ → Prop) (Returned : α → σ → Prop) (Raised : ε → σ → Prop) :
    Procedure σ ε α → σ → Prop
  | ret value, state => Stopped state ∧ Returned value state
  | raise error, state => Stopped state ∧ Raised error state
  | read next, state => Meets Stopped Returned Raised (next state) state
  | write change next, state => Stopped state ∧ Meets Stopped Returned Raised next (change state)

variable {Stopped Stopped' : σ → Prop} {Returned Returned' : α → σ → Prop} {Raised Raised' : ε → σ → Prop}
  {procedure : Procedure σ ε α} {state : σ}

/-! ### What a procedure meets -/

theorem Meets.crash (h : procedure.Meets Stopped Returned Raised state) (count : ℕ) :
    Stopped (procedure.crash count state) := by
  induction procedure generalizing count state with
  | ret value => exact h.1
  | raise error => exact h.1
  | read next ih => exact ih state h count
  | write change next ih =>
    cases count with
    | zero => exact h.1
    | succ count => exact ih h.2 count

theorem Meets.exec (h : procedure.Meets Stopped Returned Raised state) :
    match (procedure.exec state).1 with
    | .ok value => Returned value (procedure.exec state).2
    | .error error => Raised error (procedure.exec state).2 := by
  induction procedure generalizing state with
  | ret value => exact h.2
  | raise error => exact h.2
  | read next ih => exact ih state h
  | write change next ih => exact ih h.2

/-- A procedure that cannot raise an error returns. -/
theorem Meets.exec_ok (h : procedure.Meets Stopped Returned (fun _ _ ↦ False) state) :
    ∃ value, (procedure.exec state).1 = .ok value ∧ Returned value (procedure.exec state).2 := by
  have hexec := h.exec
  cases hresult : (procedure.exec state).1 with
  | ok value =>
    rw [hresult] at hexec
    exact ⟨value, rfl, hexec⟩
  | error error =>
    rw [hresult] at hexec
    exact hexec.elim

theorem Meets.mono (h : procedure.Meets Stopped Returned Raised state)
    (hstopped : ∀ state, Stopped state → Stopped' state)
    (hreturned : ∀ value state, Returned value state → Returned' value state)
    (hraised : ∀ error state, Raised error state → Raised' error state) :
    procedure.Meets Stopped' Returned' Raised' state := by
  induction procedure generalizing state with
  | ret value => exact ⟨hstopped state h.1, hreturned value state h.2⟩
  | raise error => exact ⟨hstopped state h.1, hraised error state h.2⟩
  | read next ih => exact ih state h
  | write change next ih => exact ⟨hstopped state h.1, ih h.2⟩

/-! ### Rules -/

theorem meets_pure {value : α} (hstopped : Stopped state) (h : Returned value state) :
    (pure value : Procedure σ ε α).Meets Stopped Returned Raised state := ⟨hstopped, h⟩

/-- A procedure that goes on with the state. -/
theorem meets_fetch_bind {next : σ → Procedure σ ε α} :
    (fetch >>= next).Meets Stopped Returned Raised state ↔
      (next state).Meets Stopped Returned Raised state := Iff.rfl

theorem meets_ret_bind {value : α} {next : α → Procedure σ ε β} {Returned : β → σ → Prop} :
    ((ret value : Procedure σ ε α) >>= next).Meets Stopped Returned Raised state ↔
      (next value).Meets Stopped Returned Raised state := Iff.rfl

theorem meets_modify {change : σ → σ} {Returned : Unit → σ → Prop} (hstopped : Stopped state)
    (hstopped' : Stopped (change state)) (h : Returned () (change state)) :
    (modify change : Procedure σ ε Unit).Meets Stopped Returned Raised state :=
  ⟨hstopped, hstopped', h⟩

theorem meets_ofExcept {result : Except ε α} (hstopped : Stopped state)
    (hok : ∀ value, result = .ok value → Returned value state)
    (herror : ∀ error, result = .error error → Raised error state) :
    (ofExcept result : Procedure σ ε α).Meets Stopped Returned Raised state := by
  cases result with
  | ok value => exact ⟨hstopped, hok value rfl⟩
  | error error => exact ⟨hstopped, herror error rfl⟩

/-- One procedure after another. -/
theorem Meets.bind {next : α → Procedure σ ε β} {Returned' : β → σ → Prop}
    (h : procedure.Meets Stopped Returned Raised state)
    (hnext : ∀ value state, Stopped state → Returned value state →
      (next value).Meets Stopped Returned' Raised state) :
    (procedure >>= next).Meets Stopped Returned' Raised state := by
  induction procedure generalizing state with
  | ret value => exact hnext value state h.1 h.2
  | raise error => exact h
  | read rest ih => exact ih state h
  | write change rest ih => exact ⟨h.1, ih h.2⟩

/-- A procedure with a handler of its errors. -/
theorem Meets.tryCatch {handler : ε → Procedure σ ε α}
    (h : procedure.Meets Stopped Returned Raised state)
    (hhandler : ∀ error state, Stopped state → Raised error state →
      (handler error).Meets Stopped Returned Raised' state) :
    (procedure.tryCatch handler).Meets Stopped Returned Raised' state := by
  induction procedure generalizing state with
  | ret value => exact h
  | raise error => exact hhandler error state h.1 h.2
  | read rest ih => exact ih state h
  | write change rest ih => exact ⟨h.1, ih h.2⟩

/-- A loop that has done some rounds keeps what one round keeps. -/
theorem meets_forM_from {list : List β} {body : β → Procedure σ ε PUnit}
    (Inv : List β → σ → Prop) {done : List β} (hstart : Inv done state)
    (hstopped : ∀ done state, Inv done state → Stopped state)
    (hbody : ∀ before item after, list = before ++ item :: after → ∀ state,
      Inv (done ++ before) state →
        (body item).Meets Stopped (fun _ ↦ Inv (done ++ before ++ [item])) Raised state) :
    (list.forM body).Meets Stopped (fun _ ↦ Inv (done ++ list)) Raised state := by
  induction list generalizing done state with
  | nil =>
    rw [List.append_nil]
    exact ⟨hstopped done state hstart, hstart⟩
  | cons item rest ih =>
    have hfirst := hbody [] item rest rfl state (by rwa [List.append_nil])
    rw [List.append_nil] at hfirst
    refine hfirst.bind fun _ state _ hstate ↦ ?_
    have hrest := ih hstate fun before other after heq state hinv ↦ ?_
    · rw [List.append_assoc, List.singleton_append] at hrest
      exact hrest
    · have hother := hbody (item :: before) other after (by rw [heq, List.cons_append]) state
        (by simpa using hinv)
      simpa using hother

/-- A loop keeps what one round keeps, with what was done before. -/
theorem meets_forM {list : List β} {body : β → Procedure σ ε PUnit} (Inv : List β → σ → Prop)
    (hstart : Inv [] state) (hstopped : ∀ done state, Inv done state → Stopped state)
    (hbody : ∀ before item after, list = before ++ item :: after → ∀ state, Inv before state →
      (body item).Meets Stopped (fun _ ↦ Inv (before ++ [item])) Raised state) :
    (list.forM body).Meets Stopped (fun _ ↦ Inv list) Raised state :=
  meets_forM_from Inv hstart hstopped hbody

/-! ### What a procedure keeps -/

/-- From states with a property the procedure leaves states with it, wherever it is stopped. -/
def Keeps (Inv : σ → Prop) (procedure : Procedure σ ε α) : Prop :=
  ∀ state, Inv state → procedure.Meets Inv (fun _ ↦ Inv) (fun _ _ ↦ True) state

variable {Inv : σ → Prop}

theorem keeps_pure {value : α} : (pure value : Procedure σ ε α).Keeps Inv :=
  fun _ hinv ↦ ⟨hinv, hinv⟩

theorem keeps_raise {error : ε} : (raise error : Procedure σ ε α).Keeps Inv :=
  fun _ hinv ↦ ⟨hinv, trivial⟩

theorem keeps_fetch : (fetch : Procedure σ ε σ).Keeps Inv := fun _ hinv ↦ ⟨hinv, hinv⟩

theorem keeps_ofExcept {result : Except ε α} : (ofExcept result : Procedure σ ε α).Keeps Inv :=
  fun _ hinv ↦ meets_ofExcept hinv (fun _ _ ↦ hinv) fun _ _ ↦ trivial

theorem keeps_modify {change : σ → σ} (h : ∀ state, Inv state → Inv (change state)) :
    (modify change : Procedure σ ε Unit).Keeps Inv :=
  fun state hinv ↦ ⟨hinv, h state hinv, h state hinv⟩

theorem Keeps.bind {next : α → Procedure σ ε β} (h : procedure.Keeps Inv)
    (hnext : ∀ value, (next value).Keeps Inv) : (procedure >>= next).Keeps Inv :=
  fun state hinv ↦ (h state hinv).bind fun value later _ hlater ↦ hnext value later hlater

theorem keeps_forM {list : List β} {body : β → Procedure σ ε PUnit}
    (h : ∀ item ∈ list, (body item).Keeps Inv) : (list.forM body).Keeps Inv := by
  induction list with
  | nil => exact keeps_pure
  | cons item rest ih =>
    exact (h item List.mem_cons_self).bind fun _ ↦
      ih fun other hother ↦ h other (List.mem_cons_of_mem item hother)

/-! ### Attempts -/

/-- Any number of attempts, each stopped somewhere. -/
def Attempts (procedure : ι → Procedure σ ε α) : σ → σ → Prop :=
  Relation.ReflTransGen fun state later ↦
    ∃ attempt count, later = (procedure attempt).crash count state

/-- What every attempt keeps wherever it is stopped, the attempts keep. -/
theorem Attempts.invariant {procedure : ι → Procedure σ ε α} {later : σ}
    (h : Attempts procedure state later) (Inv : σ → Prop) (hstart : Inv state)
    (hcrash : ∀ attempt count state, Inv state → Inv ((procedure attempt).crash count state)) :
    Inv later := by
  induction h with
  | refl => exact hstart
  | tail _ hstep ih =>
    obtain ⟨attempt, count, rfl⟩ := hstep
    exact hcrash attempt count _ ih

end Procedure

end Async
