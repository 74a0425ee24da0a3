import HarborHF.Async.Program
import Mathlib.Data.List.Basic
import Mathlib.Tactic.Common

/-!
# Pools of programs over a shared state

A `Machine` gives the operations of an interface their meaning on a shared state. An operation is
one atomic step: it may be blocked, and what it does may depend on a choice of the environment (the
clock, the answer of a remote service). A `Config` is a state, the threads that run on it and the
trace of the operations performed so far. Threads interleave at every awaited operation, new threads
may be spawned, and a crash discards every thread and restarts from what the state keeps.

`Config.step` executes one `Event` and is a function, so that a run given by its list of events can
be evaluated. `Reachable` is the closure under steps whose spawned programs satisfy `entry` and whose
operations satisfy `ok` where they are performed; `reachable_of_run` leads from the first to the
second.

Two threads whose roles conflict never live at once: a spawn waits until the earlier one has ended.
-/

set_option autoImplicit false

namespace Async

/-- The meaning of the operations of an interface on a shared state: `perform` is one atomic step of
a thread, `none` when the step is blocked, and `restart` is the state after a crash, `none` when the
system does not come up again. -/
structure Machine (I : Interface) (σ χ : Type) where
  perform : ℕ → (op : I.Op) → χ → σ → Option (I.Ans op × σ)
  restart : σ → Option σ

/-- A thread: the role it was spawned with and what remains of its program. -/
structure Thread (I : Interface) (ε ρ : Type) where
  role : ρ
  program : Program I ε Unit

/-- One performed operation: the thread, the operation and its answer. -/
structure Performed (I : Interface) where
  thread : ℕ
  op : I.Op
  answer : I.Ans op

/-- A state with the threads that run on it, numbered in the order they were spawned, and the
operations performed so far, the latest first. -/
structure Config (I : Interface) (ε ρ σ : Type) where
  state : σ
  threads : List (Thread I ε ρ)
  trace : List (Performed I)

/-- What can happen next: a spawn, the next operation of a thread, or a crash. -/
inductive Event (I : Interface) (ε ρ χ : Type)
  | spawn (role : ρ) (program : Program I ε Unit)
  | run (thread : ℕ) (choice : χ)
  | crash

section

variable {I : Interface} {ε ρ σ χ α : Type}

namespace Program

/-- A program that still awaits an operation. -/
def live : Program I ε α → Bool
  | await _ _ => true
  | _ => false

end Program

namespace Thread

/-- A thread after a crash: it keeps its number and never runs again. -/
def dead (thread : Thread I ε ρ) : Thread I ε ρ := { thread with program := .ret () }

end Thread

namespace Machine

variable (M : Machine I σ χ)

/-- Run a program alone to its end, with one choice of the environment throughout. The outcome is
`none` when an operation is blocked. -/
def eval (thread : ℕ) (choice : χ) : Program I ε α → σ → Option (Except ε α) × σ
  | .ret value, state => (some (.ok value), state)
  | .throw error, state => (some (.error error), state)
  | .await op resume, state =>
    match M.perform thread op choice state with
    | some (answer, state') => eval thread choice (resume answer) state'
    | none => (none, state)

@[simp] theorem eval_ret (thread : ℕ) (choice : χ) (value : α) (state : σ) :
    M.eval thread choice (.ret value : Program I ε α) state = (some (.ok value), state) := rfl

theorem eval_await {thread : ℕ} {choice : χ} {op : I.Op} {resume : I.Ans op → Program I ε α}
    {state state' : σ} {answer : I.Ans op}
    (h : M.perform thread op choice state = some (answer, state')) :
    M.eval thread choice (.await op resume) state = M.eval thread choice (resume answer) state' := by
  simp only [eval, h]

theorem eval_blocked {thread : ℕ} {choice : χ} {op : I.Op} {resume : I.Ans op → Program I ε α}
    {state : σ} (h : M.perform thread op choice state = none) :
    M.eval thread choice (.await op resume) state = (none, state) := by
  simp only [eval, h]

/-- A sequence ends with its first part, unless that returns a value. -/
theorem eval_bind {β : Type} (thread : ℕ) (choice : χ) (program : Program I ε α)
    (following : α → Program I ε β) (state : σ) :
    M.eval thread choice (program >>= following) state =
      match M.eval thread choice program state with
      | (some (.ok value), state') => M.eval thread choice (following value) state'
      | (some (.error error), state') => (some (.error error), state')
      | (none, state') => (none, state') := by
  induction program generalizing state with
  | ret value => rfl
  | throw error => rfl
  | await op resume ih =>
    simp only [Program.await_bind, eval]
    cases M.perform thread op choice state with
    | none => rfl
    | some result => exact ih result.1 result.2

theorem eval_attempt {ε' : Type} (thread : ℕ) (choice : χ) (program : Program I ε α) (state : σ) :
    M.eval thread choice (program.attempt : Program I ε' (Except ε α)) state =
      match M.eval thread choice program state with
      | (some outcome, state') => (some (.ok outcome), state')
      | (none, state') => (none, state') := by
  induction program generalizing state with
  | ret value => rfl
  | throw error => rfl
  | await op resume ih =>
    simp only [Program.attempt, eval]
    cases M.perform thread op choice state with
    | none => rfl
    | some result => exact ih result.1 result.2

end Machine

namespace Config

/-- A configuration in which nothing has happened yet. -/
def initial (state : σ) : Config I ε ρ σ := ⟨state, [], []⟩

variable (M : Machine I σ χ) (conflict : ρ → ρ → Bool)

/-- One event of a pool, `none` when it cannot happen. -/
def step (config : Config I ε ρ σ) : Event I ε ρ χ → Option (Config I ε ρ σ)
  | .spawn role program =>
    if config.threads.all fun thread ↦ !(thread.program.live && conflict thread.role role) then
      some { config with threads := config.threads ++ [⟨role, program⟩] }
    else none
  | .run index choice =>
    match config.threads[index]? with
    | some ⟨role, .await op resume⟩ =>
      match M.perform index op choice config.state with
      | some (answer, state') => some
          { state := state'
            threads := config.threads.set index ⟨role, resume answer⟩
            trace := ⟨index, op, answer⟩ :: config.trace }
      | none => none
    | _ => none
  | .crash =>
    match M.restart config.state with
    | some state' => some { config with state := state', threads := config.threads.map Thread.dead }
    | none => none

/-- The operation that an event performs passes a check. -/
def passes (check : Config I ε ρ σ → ℕ → I.Op → Bool) (config : Config I ε ρ σ) :
    Event I ε ρ χ → Bool
  | .run index _ =>
    match config.threads[index]? with
    | some ⟨_, .await op _⟩ => check config index op
    | _ => true
  | _ => true

/-- A list of events, one after the other, whose operations all pass a check. -/
def runChecked (check : Config I ε ρ σ → ℕ → I.Op → Bool) :
    Config I ε ρ σ → List (Event I ε ρ χ) → Option (Config I ε ρ σ)
  | config, [] => some config
  | config, event :: events =>
    if config.passes check event = true then
      match config.step M conflict event with
      | some config' => config'.runChecked check events
      | none => none
    else none

/-- A list of events, one after the other. -/
def run (config : Config I ε ρ σ) (events : List (Event I ε ρ χ)) : Option (Config I ε ρ σ) :=
  config.runChecked M conflict (fun _ _ _ ↦ true) events

end Config

/-- The configurations reached from a state satisfying `start` by events whose spawned programs
satisfy `entry` and whose performed operations satisfy `ok` in the configuration they run in. -/
inductive Reachable (M : Machine I σ χ) (conflict : ρ → ρ → Bool) (start : σ → Prop)
    (entry : ρ → Program I ε Unit → Prop) (ok : Config I ε ρ σ → ℕ → I.Op → Prop) :
    Config I ε ρ σ → Prop
  | start {state : σ} (hstate : start state) :
      Reachable M conflict start entry ok (.initial state)
  | spawn {config config' : Config I ε ρ σ} {role : ρ} {program : Program I ε Unit}
      (hconfig : Reachable M conflict start entry ok config) (hentry : entry role program)
      (hstep : config.step M conflict (.spawn role program) = some config') :
      Reachable M conflict start entry ok config'
  | run {config : Config I ε ρ σ} {index : ℕ} {role : ρ} {op : I.Op}
      {resume : I.Ans op → Program I ε Unit} {choice : χ} {answer : I.Ans op} {state' : σ}
      (hconfig : Reachable M conflict start entry ok config)
      (hthread : config.threads[index]? = some ⟨role, .await op resume⟩)
      (hok : ok config index op)
      (hperform : M.perform index op choice config.state = some (answer, state')) :
      Reachable M conflict start entry ok
        { state := state'
          threads := config.threads.set index ⟨role, resume answer⟩
          trace := ⟨index, op, answer⟩ :: config.trace }
  | crash {config : Config I ε ρ σ} {state' : σ}
      (hconfig : Reachable M conflict start entry ok config)
      (hrestart : M.restart config.state = some state') :
      Reachable M conflict start entry ok
        { config with state := state', threads := config.threads.map Thread.dead }

variable {M : Machine I σ χ} {conflict : ρ → ρ → Bool} {start : σ → Prop}
  {entry : ρ → Program I ε Unit → Prop} {ok : Config I ε ρ σ → ℕ → I.Op → Prop}
  {config config' : Config I ε ρ σ}

/-- A reachable configuration stays reachable under fewer conditions on the run. -/
theorem Reachable.mono {start' : σ → Prop} {entry' : ρ → Program I ε Unit → Prop}
    {ok' : Config I ε ρ σ → ℕ → I.Op → Prop} (hstart : ∀ state, start state → start' state)
    (hentry : ∀ role program, entry role program → entry' role program)
    (hok : ∀ config index op, ok config index op → ok' config index op) {config : Config I ε ρ σ}
    (h : Reachable M conflict start entry ok config) :
    Reachable M conflict start' entry' ok' config := by
  induction h with
  | start hstate => exact .start (hstart _ hstate)
  | spawn _ hprogram hstep ih => exact .spawn ih (hentry _ _ hprogram) hstep
  | run _ hthread hcondition hperform ih => exact .run ih hthread (hok _ _ _ hcondition) hperform
  | crash _ hrestart ih => exact .crash ih hrestart

/-- A run goes on from a configuration. -/
inductive Continues (M : Machine I σ χ) (conflict : ρ → ρ → Bool)
    (entry : ρ → Program I ε Unit → Prop) (ok : Config I ε ρ σ → ℕ → I.Op → Prop)
    (first : Config I ε ρ σ) : Config I ε ρ σ → Prop
  | refl : Continues M conflict entry ok first first
  | spawn {config config' : Config I ε ρ σ} {role : ρ} {program : Program I ε Unit}
      (hconfig : Continues M conflict entry ok first config) (hentry : entry role program)
      (hstep : config.step M conflict (.spawn role program) = some config') :
      Continues M conflict entry ok first config'
  | run {config : Config I ε ρ σ} {index : ℕ} {role : ρ} {op : I.Op}
      {resume : I.Ans op → Program I ε Unit} {choice : χ} {answer : I.Ans op} {state' : σ}
      (hconfig : Continues M conflict entry ok first config)
      (hthread : config.threads[index]? = some ⟨role, .await op resume⟩)
      (hok : ok config index op)
      (hperform : M.perform index op choice config.state = some (answer, state')) :
      Continues M conflict entry ok first
        { state := state'
          threads := config.threads.set index ⟨role, resume answer⟩
          trace := ⟨index, op, answer⟩ :: config.trace }
  | crash {config : Config I ε ρ σ} {state' : σ}
      (hconfig : Continues M conflict entry ok first config)
      (hrestart : M.restart config.state = some state') :
      Continues M conflict entry ok first
        { config with state := state', threads := config.threads.map Thread.dead }

theorem Continues.trans {first middle last : Config I ε ρ σ}
    (h : Continues M conflict entry ok first middle)
    (h' : Continues M conflict entry ok middle last) : Continues M conflict entry ok first last := by
  induction h' with
  | refl => exact h
  | spawn _ hprogram hstep ih => exact .spawn ih hprogram hstep
  | run _ hthread hcondition hperform ih => exact .run ih hthread hcondition hperform
  | crash _ hrestart ih => exact .crash ih hrestart

theorem Reachable.continues (h : Reachable M conflict start entry ok config)
    (hcontinues : Continues M conflict entry ok config config') :
    Reachable M conflict start entry ok config' := by
  induction hcontinues with
  | refl => exact h
  | spawn _ hprogram hstep ih => exact .spawn ih hprogram hstep
  | run _ hthread hcondition hperform ih => exact .run ih hthread hcondition hperform
  | crash _ hrestart ih => exact .crash ih hrestart

/-- An event whose spawned program satisfies `entry`. -/
def Event.Admitted (entry : ρ → Program I ε Unit → Prop) : Event I ε ρ χ → Prop
  | .spawn role program => entry role program
  | .run _ _ => True
  | .crash => True

theorem admitted_runs (count thread : ℕ) (choice : χ) :
    ∀ event ∈ List.replicate count (.run thread choice : Event I ε ρ χ), event.Admitted entry := by
  intro event hevent
  rw [(List.mem_replicate.mp hevent).2]
  trivial

/-- One event of a run whose operation satisfies the condition of the run. -/
theorem continues_step {event : Event I ε ρ χ} {check : Config I ε ρ σ → ℕ → I.Op → Bool}
    (hcheck : ∀ config index op, check config index op = true → ok config index op)
    (hadmitted : event.Admitted entry) (hpasses : config.passes check event = true)
    (hstep : config.step M conflict event = some config') :
    Continues M conflict entry ok config config' := by
  cases event with
  | spawn role program => exact .spawn .refl hadmitted hstep
  | run index choice =>
    simp only [Config.step] at hstep
    split at hstep
    · next role op resume hthread =>
      split at hstep
      · next answer state' hperform =>
        cases hstep
        simp only [Config.passes, hthread] at hpasses
        exact .run .refl hthread (hcheck _ _ _ hpasses) hperform
      · cases hstep
    · cases hstep
  | crash =>
    simp only [Config.step] at hstep
    split at hstep
    · next state' hrestart =>
      cases hstep
      exact .crash .refl hrestart
    · cases hstep

/-- A checked run given by its list of events reaches its last configuration. -/
theorem continues_of_runChecked (events : List (Event I ε ρ χ))
    {check : Config I ε ρ σ → ℕ → I.Op → Bool}
    (hcheck : ∀ config index op, check config index op = true → ok config index op)
    (hadmitted : ∀ event ∈ events, event.Admitted entry)
    (hrun : config.runChecked M conflict check events = some config') :
    Continues M conflict entry ok config config' := by
  induction events generalizing config with
  | nil =>
    cases hrun
    exact .refl
  | cons event rest ih =>
    simp only [Config.runChecked] at hrun
    split at hrun
    · next hpasses =>
      split at hrun
      · next middle hstep =>
        exact (continues_step hcheck (hadmitted event List.mem_cons_self) hpasses hstep).trans
          (ih (fun other hother ↦ hadmitted other (List.mem_cons_of_mem event hother)) hrun)
      · cases hrun
    · cases hrun

theorem reachable_of_runChecked (events : List (Event I ε ρ χ))
    {check : Config I ε ρ σ → ℕ → I.Op → Bool}
    (hcheck : ∀ config index op, check config index op = true → ok config index op)
    (h : Reachable M conflict start entry ok config)
    (hadmitted : ∀ event ∈ events, event.Admitted entry)
    (hrun : config.runChecked M conflict check events = some config') :
    Reachable M conflict start entry ok config' :=
  h.continues (continues_of_runChecked events hcheck hadmitted hrun)

theorem reachable_of_run (events : List (Event I ε ρ χ))
    (h : Reachable M conflict start entry (fun _ _ _ ↦ True) config)
    (hadmitted : ∀ event ∈ events, event.Admitted entry)
    (hrun : config.run M conflict events = some config') :
    Reachable M conflict start entry (fun _ _ _ ↦ True) config' :=
  reachable_of_runChecked events (fun _ _ _ _ ↦ trivial) h hadmitted hrun

theorem Config.passes_mono {check check' : Config I ε ρ σ → ℕ → I.Op → Bool}
    (hcheck : ∀ config index op, check config index op = true → check' config index op = true)
    {config : Config I ε ρ σ} {event : Event I ε ρ χ} (h : config.passes check event = true) :
    config.passes check' event = true := by
  cases event with
  | spawn role program => rfl
  | crash => rfl
  | run index choice =>
    simp only [Config.passes] at h ⊢
    split
    · next hthread =>
      simp only [hthread] at h
      exact hcheck _ _ _ h
    · rfl

section

variable {M' : Machine I σ χ} {inv : σ → Prop} {check : Config I ε ρ σ → ℕ → I.Op → Bool}
  (hperform : ∀ (config : Config I ε ρ σ) index op, check config index op = true →
    inv config.state → ∀ choice answer state',
      M.perform index op choice config.state = some (answer, state') →
        M'.perform index op choice config.state = some (answer, state') ∧ inv state')
  (hrestart : ∀ state state', inv state → M.restart state = some state' →
    M'.restart state = some state' ∧ inv state')

include hperform hrestart

/-- A step of one machine is a step of another that agrees with it on the states of an invariant. -/
theorem Config.step_of_agree {config config' : Config I ε ρ σ} {event : Event I ε ρ χ}
    (hinv : inv config.state) (hpasses : config.passes check event = true)
    (hstep : config.step M conflict event = some config') :
    config.step M' conflict event = some config' ∧ inv config'.state := by
  cases event with
  | spawn role program =>
    simp only [Config.step] at hstep ⊢
    split at hstep
    · next hfree =>
      obtain rfl := Option.some.inj hstep
      exact ⟨if_pos hfree, hinv⟩
    · cases hstep
  | run index choice =>
    simp only [Config.step] at hstep ⊢
    split at hstep
    · next role op resume hthread =>
      simp only [Config.passes, hthread] at hpasses
      split at hstep
      · next answer state' hstate =>
        obtain ⟨hsame, hinv'⟩ := hperform config index op hpasses hinv choice answer state' hstate
        obtain rfl := Option.some.inj hstep
        exact ⟨by simp only [hsame], hinv'⟩
      · cases hstep
    · cases hstep
  | crash =>
    simp only [Config.step] at hstep ⊢
    split at hstep
    · next state' hstate =>
      obtain ⟨hsame, hinv'⟩ := hrestart _ _ hinv hstate
      obtain rfl := Option.some.inj hstep
      exact ⟨by simp only [hsame], hinv'⟩
    · cases hstep

/-- A run can be computed on another machine that agrees with the first on the states of an
invariant. -/
theorem runChecked_of_agree {check' : Config I ε ρ σ → ℕ → I.Op → Bool}
    (hcheck : ∀ config index op, check config index op = true → check' config index op = true)
    {config config' : Config I ε ρ σ} (events : List (Event I ε ρ χ)) (hinv : inv config.state)
    (hrun : config.runChecked M conflict check events = some config') :
    config.runChecked M' conflict check' events = some config' := by
  induction events generalizing config with
  | nil => exact hrun
  | cons event rest ih =>
    simp only [Config.runChecked] at hrun ⊢
    split at hrun
    · next hpasses =>
      split at hrun
      · next middle hstep =>
        obtain ⟨hsame, hinv'⟩ := Config.step_of_agree hperform hrestart hinv hpasses hstep
        rw [if_pos (Config.passes_mono hcheck hpasses), hsame]
        exact ih hinv' hrun
      · cases hrun
    · cases hrun

end

end

end Async
