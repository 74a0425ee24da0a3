import Mathlib.Tactic.Common

/-!
# Programs that poll

A program over a state may throw, may catch what another throws, and may repeat a round until the
round has a value. How many rounds a loop may make is an argument of the program; a program settles
from a state when every sufficiently large number gives the same outcome. Settling follows the
structure of the program, so that a run is composed of the runs of its parts.
-/

set_option autoImplicit false

namespace Async

/-- A program over a state with a bound on the rounds of its loops: its outcome and the state after it,
unless a loop exceeds the bound. -/
def Polling (σ ε α : Type) : Type := ℕ → σ → Option (Except ε α × σ)

namespace Polling

variable {σ ε α β : Type}

/-- One step on the state. -/
def act (step : σ → Except ε α × σ) : Polling σ ε α := fun _ state ↦ some (step state)

def andThen (program : Polling σ ε α) (next : α → Polling σ ε β) : Polling σ ε β :=
  fun rounds state ↦
    match program rounds state with
    | none => none
    | some (.error error, state) => some (.error error, state)
    | some (.ok value, state) => next value rounds state

def handle (program : Polling σ ε α) (handler : ε → Polling σ ε α) : Polling σ ε α :=
  fun rounds state ↦
    match program rounds state with
    | none => none
    | some (.error error, state) => handler error rounds state
    | some (.ok value, state) => some (.ok value, state)

instance : Monad (Polling σ ε) where
  pure value := act fun state ↦ (.ok value, state)
  bind := andThen

instance : MonadExcept ε (Polling σ ε) where
  throw error := act fun state ↦ (.error error, state)
  tryCatch := handle

/-- The outcome of a check that has no effect. -/
def ofExcept (outcome : Except ε α) : Polling σ ε α := act fun state ↦ (outcome, state)

/-- The value of the first round that has one. -/
def repeatUntil (round : Polling σ ε (Option α)) : Polling σ ε α
  | 0, _ => none
  | rounds + 1, state =>
    match round rounds state with
    | none => none
    | some (.error error, state) => some (.error error, state)
    | some (.ok (some value), state) => some (.ok value, state)
    | some (.ok none, state) => repeatUntil round rounds state

/-- With enough rounds the program has this outcome and leaves this state. -/
def Settles (program : Polling σ ε α) (state : σ) (outcome : Except ε α) (after : σ) : Prop :=
  ∃ enough, ∀ rounds ≥ enough, program rounds state = some (outcome, after)

variable {program : Polling σ ε α} {next : α → Polling σ ε β} {handler : ε → Polling σ ε α}
  {round : Polling σ ε (Option α)} {state middle after : σ} {value : α} {error : ε}
  {outcome : Except ε α} {last : Except ε β}

theorem settles_act (step : σ → Except ε α × σ) :
    Settles (act step) state (step state).1 (step state).2 :=
  ⟨0, fun _ _ ↦ rfl⟩

theorem settles_pure (value : α) : Settles (pure value : Polling σ ε α) state (.ok value) state :=
  ⟨0, fun _ _ ↦ rfl⟩

theorem settles_throw (error : ε) :
    Settles (throw error : Polling σ ε α) state (.error error) state :=
  ⟨0, fun _ _ ↦ rfl⟩

theorem settles_ofExcept (outcome : Except ε α) :
    Settles (ofExcept outcome : Polling σ ε α) state outcome state :=
  ⟨0, fun _ _ ↦ rfl⟩

theorem Settles.andThen (h : Settles program state (.ok value) middle)
    (hnext : Settles (next value) middle last after) : Settles (program >>= next) state last after := by
  obtain ⟨first, hfirst⟩ := h
  obtain ⟨second, hsecond⟩ := hnext
  refine ⟨max first second, fun rounds hrounds ↦ ?_⟩
  show Polling.andThen program next rounds state = some (last, after)
  rw [Polling.andThen, hfirst rounds (by omega)]
  exact hsecond rounds (by omega)

theorem Settles.andThen_error (h : Settles program state (.error error) after) :
    Settles (program >>= next) state (.error error) after := by
  obtain ⟨enough, henough⟩ := h
  refine ⟨enough, fun rounds hrounds ↦ ?_⟩
  show Polling.andThen program next rounds state = some (.error error, after)
  rw [Polling.andThen, henough rounds hrounds]

theorem Settles.handle (h : Settles program state (.error error) middle)
    (hhandler : Settles (handler error) middle outcome after) :
    Settles (tryCatch program handler) state outcome after := by
  obtain ⟨first, hfirst⟩ := h
  obtain ⟨second, hsecond⟩ := hhandler
  refine ⟨max first second, fun rounds hrounds ↦ ?_⟩
  show Polling.handle program handler rounds state = some (outcome, after)
  rw [Polling.handle, hfirst rounds (by omega)]
  exact hsecond rounds (by omega)

theorem Settles.handle_ok (h : Settles program state (.ok value) after) :
    Settles (tryCatch program handler) state (.ok value) after := by
  obtain ⟨enough, henough⟩ := h
  refine ⟨enough, fun rounds hrounds ↦ ?_⟩
  show Polling.handle program handler rounds state = some (.ok value, after)
  rw [Polling.handle, henough rounds hrounds]

theorem Settles.repeatUntil_some (h : Settles round state (.ok (some value)) after) :
    Settles (repeatUntil round) state (.ok value) after := by
  obtain ⟨enough, henough⟩ := h
  refine ⟨enough + 1, fun rounds hrounds ↦ ?_⟩
  obtain ⟨fewer, rfl⟩ : ∃ fewer, rounds = fewer + 1 := ⟨rounds - 1, by omega⟩
  rw [repeatUntil, henough fewer (by omega)]

theorem Settles.repeatUntil_error (h : Settles round state (.error error) after) :
    Settles (repeatUntil round) state (.error error) after := by
  obtain ⟨enough, henough⟩ := h
  refine ⟨enough + 1, fun rounds hrounds ↦ ?_⟩
  obtain ⟨fewer, rfl⟩ : ∃ fewer, rounds = fewer + 1 := ⟨rounds - 1, by omega⟩
  rw [repeatUntil, henough fewer (by omega)]

/-- A round without a value, and then the loop again. -/
theorem Settles.repeatUntil_none (h : Settles round state (.ok none) middle)
    (hrest : Settles (repeatUntil round) middle outcome after) :
    Settles (repeatUntil round) state outcome after := by
  obtain ⟨first, hfirst⟩ := h
  obtain ⟨second, hsecond⟩ := hrest
  refine ⟨max first second + 1, fun rounds hrounds ↦ ?_⟩
  obtain ⟨fewer, rfl⟩ : ∃ fewer, rounds = fewer + 1 := ⟨rounds - 1, by omega⟩
  rw [repeatUntil, hfirst fewer (by omega)]
  exact hsecond fewer (by omega)

/-! ### What a program gives -/

/-- The outcome meets one condition on values or another on errors. -/
def Ends (found : α → σ → Prop) (failed : ε → σ → Prop) : Except ε α → σ → Prop
  | .ok value, state => found value state
  | .error error, state => failed error state

/-- The program settles, with a value or an error that meets its condition. -/
def Gives (program : Polling σ ε α) (state : σ) (found : α → σ → Prop) (failed : ε → σ → Prop) :
    Prop :=
  ∃ outcome after, Settles program state outcome after ∧ Ends found failed outcome after

variable {found found' : α → σ → Prop} {failed failed' : ε → σ → Prop} {foundNext : β → σ → Prop}

theorem gives_act {step : σ → Except ε α × σ} (h : Ends found failed (step state).1 (step state).2) :
    Gives (act step) state found failed :=
  ⟨_, _, settles_act step, h⟩

theorem gives_pure {value : α} (h : found value state) :
    Gives (pure value : Polling σ ε α) state found failed :=
  ⟨_, _, settles_pure value, h⟩

theorem gives_throw {error : ε} (h : failed error state) :
    Gives (throw error : Polling σ ε α) state found failed :=
  ⟨_, _, settles_throw error, h⟩

theorem gives_ofExcept {outcome : Except ε α} (h : Ends found failed outcome state) :
    Gives (ofExcept outcome : Polling σ ε α) state found failed :=
  ⟨_, _, settles_ofExcept outcome, h⟩

theorem Gives.mono (h : Gives program state found failed)
    (hfound : ∀ value after, found value after → found' value after)
    (hfailed : ∀ error after, failed error after → failed' error after) :
    Gives program state found' failed' := by
  obtain ⟨outcome, after, hsettles, hends⟩ := h
  refine ⟨outcome, after, hsettles, ?_⟩
  cases outcome with
  | ok value => exact hfound value after hends
  | error error => exact hfailed error after hends

theorem Gives.andThen (h : Gives program state found failed)
    (hnext : ∀ value middle, found value middle → Gives (next value) middle foundNext failed) :
    Gives (program >>= next) state foundNext failed := by
  obtain ⟨outcome, middle, hsettles, hends⟩ := h
  cases outcome with
  | error error => exact ⟨_, _, hsettles.andThen_error, hends⟩
  | ok value =>
    obtain ⟨last, after, hlast, hends'⟩ := hnext value middle hends
    exact ⟨last, after, hsettles.andThen hlast, hends'⟩

theorem Gives.handle (h : Gives program state found failed)
    (hhandler : ∀ error middle, failed error middle → Gives (handler error) middle found failed') :
    Gives (tryCatch program handler) state found failed' := by
  obtain ⟨outcome, middle, hsettles, hends⟩ := h
  cases outcome with
  | ok value => exact ⟨_, _, hsettles.handle_ok, hends⟩
  | error error =>
    obtain ⟨last, after, hlast, hends'⟩ := hhandler error middle hends
    exact ⟨last, after, hsettles.handle hlast, hends'⟩

/-- A loop whose rounds keep a condition, and whose number of rounds a measure bounds. -/
theorem gives_repeatUntil (start : ℕ → σ → Prop)
    (hround : ∀ measure state, start measure state → Gives round state
      (fun value after ↦ match value with
        | some value => found value after
        | none => ∃ smaller < measure, start smaller after)
      failed)
    (measure : ℕ) (h : start measure state) : Gives (repeatUntil round) state found failed := by
  induction measure using Nat.strongRecOn generalizing state with
  | ind measure ih =>
    obtain ⟨outcome, middle, hsettles, hends⟩ := hround measure state h
    cases outcome with
    | error error => exact ⟨_, _, hsettles.repeatUntil_error, hends⟩
    | ok value =>
      cases value with
      | some value => exact ⟨_, _, hsettles.repeatUntil_some, hends⟩
      | none =>
        obtain ⟨smaller, hsmaller, hstart⟩ := hends
        obtain ⟨outcome, after, hrest, hends'⟩ := ih smaller hsmaller hstart
        exact ⟨outcome, after, hsettles.repeatUntil_none hrest, hends'⟩

end Polling

end Async
