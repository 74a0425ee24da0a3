import HarborHF.Async.Pool

/-!
# Rely and guarantee for awaiting programs

Between two operations of a thread every other thread may run, so a fact about the shared state is
of use to a thread only when it survives what the others do. A `Contract` names, for one thread,
what the others may do to the state between its operations (`rely`), what each of its own operations
does (`guar`), and where it performs them (`ok`). `Safe` is the weakest precondition of a program
under such a contract: wherever the others leave the state, each operation keeps the invariant and
the guarantee, and the value returned satisfies the postcondition. It is defined by recursion on the
program, and its rules follow the program's structure (`safe_bind`, `safe_attempt`, `safe_forM`,
`safe_await`, `safe_of_uses`).

`reachable_sound` puts the threads together. When the guarantee of each thread implies what the
others rely on, every reachable configuration of a pool satisfies the invariant and every thread in
it is safe from where it stands; `Config.Sound.perform` is the guarantee of its next operation.
`Machine.traced` makes the trace part of the state, for invariants about the order of operations.
-/

set_option autoImplicit false

namespace Async

/-- What one thread relies on from the others between its operations, what it guarantees of each of
its own operations, and the states in which it performs them. -/
structure Contract (I : Interface) (σ : Type) where
  rely : σ → σ → Prop
  guar : σ → σ → Prop
  ok : I.Op → σ → Prop
  rely_refl : ∀ state, rely state state
  rely_trans : ∀ {first middle last}, rely first middle → rely middle last → rely first last

section

variable {I : Interface} {ε ε' ρ σ χ α β : Type}

/-- The weakest precondition of a program under a contract: each operation, performed wherever the
others may have left the state, keeps the invariant and the guarantee, a value returned satisfies
`post` and an error thrown satisfies `fail`. -/
def Safe (M : Machine I σ χ) (inv : σ → Prop) (thread : ℕ) (K : Contract I σ) :
    Program I ε α → (α → σ → Prop) → (ε → σ → Prop) → σ → Prop
  | .ret value, post, _, state => ∀ state', K.rely state state' → inv state' → post value state'
  | .throw error, _, fail, state => ∀ state', K.rely state state' → inv state' → fail error state'
  | .await op resume, post, fail, state =>
    ∀ before, K.rely state before → inv before → K.ok op before →
      ∀ choice answer after, M.perform thread op choice before = some (answer, after) →
        K.guar before after ∧ inv after ∧ Safe M inv thread K (resume answer) post fail after

variable {M : Machine I σ χ} {inv : σ → Prop} {thread : ℕ} {K : Contract I σ}
  {post : α → σ → Prop} {fail : ε → σ → Prop} {program : Program I ε α} {state : σ}

/-- What is safe now is safe wherever the others may take the state. -/
theorem Safe.stable {state state' : σ}
    (h : Safe M inv thread K program post fail state) (hrely : K.rely state state') :
    Safe M inv thread K program post fail state' := by
  cases program with
  | ret value => exact fun last hlast ↦ h last (K.rely_trans hrely hlast)
  | throw error => exact fun last hlast ↦ h last (K.rely_trans hrely hlast)
  | await op resume => exact fun before hbefore ↦ h before (K.rely_trans hrely hbefore)

theorem Safe.mono {post' : α → σ → Prop}
    {fail' : ε → σ → Prop} (h : Safe M inv thread K program post fail state)
    (hpost : ∀ value last, inv last → post value last → post' value last)
    (hfail : ∀ error last, inv last → fail error last → fail' error last) :
    Safe M inv thread K program post' fail' state := by
  induction program generalizing state with
  | ret value => exact fun last hrely hinv ↦ hpost value last hinv (h last hrely hinv)
  | throw error => exact fun last hrely hinv ↦ hfail error last hinv (h last hrely hinv)
  | await op resume ih =>
    intro before hrely hinv hok choice answer after hperform
    obtain ⟨hguar, hafter, hrest⟩ := h before hrely hinv hok choice answer after hperform
    exact ⟨hguar, hafter, ih answer hrest⟩

/-- A fact that neither the others nor the program itself can break holds at its end too. -/
theorem Safe.frame {hold : σ → Prop} (h : Safe M inv thread K program post fail state)
    (hrely : ∀ before after, K.rely before after → hold before → hold after)
    (hguar : ∀ before after, K.guar before after → hold before → hold after) (hstate : hold state) :
    Safe M inv thread K program (fun value last ↦ post value last ∧ hold last)
      (fun error last ↦ fail error last ∧ hold last) state := by
  induction program generalizing state with
  | ret value => exact fun last hlast hinv ↦ ⟨h last hlast hinv, hrely state last hlast hstate⟩
  | throw error => exact fun last hlast hinv ↦ ⟨h last hlast hinv, hrely state last hlast hstate⟩
  | await op resume ih =>
    intro before hbefore hinv hok choice answer after hperform
    obtain ⟨hdone, hafter, hrest⟩ := h before hbefore hinv hok choice answer after hperform
    exact ⟨hdone, hafter,
      ih answer hrest (hguar before after hdone (hrely state before hbefore hstate))⟩

/-- A value returned with a postcondition the others cannot break. -/
theorem safe_ret {value : α} (h : ∀ state', K.rely state state' → inv state' → post value state') :
    Safe M inv thread K (.ret value : Program I ε α) post fail state := h

theorem safe_throw {error : ε}
    (h : ∀ state', K.rely state state' → inv state' → fail error state') :
    Safe M inv thread K (.throw error : Program I ε α) post fail state := h

theorem safe_bind {next : α → Program I ε β} {post' : β → σ → Prop} (h : Safe M inv thread K program
      (fun value last ↦ Safe M inv thread K (next value) post' fail last) fail state)
    (hinv : inv state) : Safe M inv thread K (program >>= next) post' fail state := by
  induction program generalizing state with
  | ret value => exact h state (K.rely_refl state) hinv
  | throw error => exact h
  | await op resume ih =>
    intro before hrely hbefore hok choice answer after hperform
    obtain ⟨hguar, hafter, hrest⟩ := h before hrely hbefore hok choice answer after hperform
    exact ⟨hguar, hafter, ih answer hrest hafter⟩

theorem safe_attempt {fail' : ε' → σ → Prop} {post' : Except ε α → σ → Prop}
    (h : Safe M inv thread K program (fun value last ↦ post' (.ok value) last)
      (fun error last ↦ post' (.error error) last) state) :
    Safe M inv thread K (program.attempt : Program I ε' _) post' fail' state := by
  induction program generalizing state with
  | ret value => exact h
  | throw error => exact h
  | await op resume ih =>
    intro before hrely hbefore hok choice answer after hperform
    obtain ⟨hguar, hafter, hrest⟩ := h before hrely hbefore hok choice answer after hperform
    exact ⟨hguar, hafter, ih answer hrest⟩

/-- One operation, then the rest of the program from the state it leaves. -/
theorem safe_await {op : I.Op} {resume : I.Ans op → Program I ε α}
    (h : ∀ before, K.rely state before → inv before → K.ok op before →
      ∀ choice answer after, M.perform thread op choice before = some (answer, after) →
        K.guar before after ∧ inv after ∧ Safe M inv thread K (resume answer) post fail after) :
    Safe M inv thread K (.await op resume) post fail state := h

/-- Iteration keeps an assertion that each round keeps and the others cannot break. -/
theorem safe_forM {items : List β} {body : β → Program I ε PUnit} {hold : σ → Prop}
    (hstable : ∀ before after, K.rely before after → inv after → hold before → hold after)
    (hbody : ∀ item ∈ items, ∀ before, inv before → hold before →
      Safe M inv thread K (body item) (fun _ last ↦ hold last) fail before)
    (hinv : inv state) (hstate : hold state) :
    Safe M inv thread K (items.forM body) (fun _ last ↦ hold last) fail state := by
  induction items generalizing state with
  | nil => exact fun last hrely hlast ↦ hstable state last hrely hlast hstate
  | cons item rest ih =>
    refine safe_bind ((hbody item List.mem_cons_self state hinv hstate).mono ?_ ?_) hinv
    · intro _ last hlast hheld
      exact ih (fun other hother ↦ hbody other (List.mem_cons_of_mem item hother)) hlast hheld
    · exact fun _ _ _ hfailed ↦ hfailed

/-- A program all of whose operations keep the invariant and the guarantee wherever they are
performed is safe, with an assertion neither it nor the others can break. -/
theorem safe_of_uses {allowed : I.Op → Prop} {hold : σ → Prop} (huses : program.Uses allowed)
    (hstable : ∀ before after, K.rely before after → inv after → hold before → hold after)
    (hop : ∀ op, allowed op → ∀ before, inv before → K.ok op before → hold before →
      ∀ choice answer after, M.perform thread op choice before = some (answer, after) →
        K.guar before after ∧ inv after ∧ hold after) (hstate : hold state) :
    Safe M inv thread K program (fun _ last ↦ hold last) (fun _ last ↦ hold last) state := by
  induction program generalizing state with
  | ret value => exact fun last hrely hlast ↦ hstable state last hrely hlast hstate
  | throw error => exact fun last hrely hlast ↦ hstable state last hrely hlast hstate
  | await op resume ih =>
    intro before hrely hbefore hok choice answer after hperform
    obtain ⟨hguar, hafter, hheld⟩ := hop op huses.1 before hbefore hok
      (hstable state before hrely hbefore hstate) choice answer after hperform
    exact ⟨hguar, hafter, ih answer (huses.2 answer) hheld⟩

/-! ### Pools of threads with contracts -/

variable {conflict : ρ → ρ → Bool} {idle : ℕ → σ → Prop} {start : σ → Prop}
  {entry : ρ → Program I ε Unit → Prop} {ok : Config I ε ρ σ → ℕ → I.Op → Prop}
  {contracts : ρ → ℕ → Contract I σ} {config : Config I ε ρ σ}

/-- Contracts for every role and thread that fit together: the guarantee of one thread implies what
every other thread relies on, unless their roles exclude each other. `idle` is what the state says of
a thread that has not been spawned, and no other thread changes it. -/
structure Compatible (M : Machine I σ χ) (conflict : ρ → ρ → Bool) (inv : σ → Prop)
    (idle : ℕ → σ → Prop) (K : ρ → ℕ → Contract I σ) : Prop where
  symm : ∀ role role', conflict role role' = conflict role' role
  rely_of_guar : ∀ {role role' : ρ} {index index' : ℕ} {before after : σ}, index ≠ index' →
    conflict role role' = false → inv before → inv after → (K role index).guar before after →
      (K role' index').rely before after
  idle_of_guar : ∀ {role : ρ} {index index' : ℕ} {before after : σ}, index ≠ index' →
    (K role index).guar before after → idle index' before → idle index' after
  restart : ∀ {before after : σ}, inv before → M.restart before = some after →
    inv after ∧ ∀ index, idle index before → idle index after

/-- A configuration whose state satisfies the invariant, whose threads are safe, no two of whose live
threads have conflicting roles, and whose further threads are idle. -/
structure Config.Sound (M : Machine I σ χ) (conflict : ρ → ρ → Bool) (inv : σ → Prop)
    (idle : ℕ → σ → Prop) (K : ρ → ℕ → Contract I σ) (config : Config I ε ρ σ) : Prop where
  holds : inv config.state
  idle : ∀ index, config.threads.length ≤ index → idle index config.state
  safe : ∀ (index : ℕ) (thread : Thread I ε ρ), config.threads[index]? = some thread →
    Safe M inv index (K thread.role index) thread.program (fun _ _ ↦ True) (fun _ _ ↦ True)
      config.state
  apart : ∀ (index index' : ℕ) (thread thread' : Thread I ε ρ), index ≠ index' →
    config.threads[index]? = some thread → config.threads[index']? = some thread' →
      thread.program.live = true → thread'.program.live = true →
        conflict thread.role thread'.role = false

/-- A program that has ended is safe whatever happens. -/
theorem safe_of_not_live (h : program.live = false) :
    Safe M inv thread K program (fun _ _ ↦ True) (fun _ _ ↦ True) state := by
  cases program with
  | ret value => exact fun _ _ _ ↦ trivial
  | throw error => exact fun _ _ _ ↦ trivial
  | await op resume => cases h

theorem Config.Sound.spawn {config config' : Config I ε ρ σ}
    {role : ρ} {program : Program I ε Unit} (hcompatible : Compatible M conflict inv idle contracts)
    (h : config.Sound M conflict inv idle contracts)
    (hsafe : ∀ index state, inv state → idle index state →
      Safe M inv index (contracts role index) program (fun _ _ ↦ True) (fun _ _ ↦ True) state)
    (hstep : config.step M conflict (.spawn role program) = some config') :
    config'.Sound M conflict inv idle contracts := by
  simp only [Config.step] at hstep
  split at hstep
  · next hfree =>
    cases hstep
    have happend : ∀ (index : ℕ) (thread : Thread I ε ρ),
        (config.threads ++ [⟨role, program⟩])[index]? = some thread →
          config.threads[index]? = some thread ∨
            (index = config.threads.length ∧ thread = ⟨role, program⟩) := by
      intro index thread hthread
      rw [List.getElem?_append] at hthread
      split at hthread
      · exact .inl hthread
      · next hlength =>
        obtain ⟨hbound, hvalue⟩ := List.getElem?_eq_some_iff.mp hthread
        simp only [List.length_singleton] at hbound
        have hindex : index = config.threads.length := by omega
        subst hindex
        simp only [Nat.sub_self, List.getElem_cons_zero] at hvalue
        exact .inr ⟨rfl, hvalue.symm⟩
    have hapart : ∀ (index : ℕ) (thread : Thread I ε ρ), config.threads[index]? = some thread →
        thread.program.live = true → conflict thread.role role = false := by
      intro index thread hthread hlive
      have hmember := List.mem_of_getElem? hthread
      have hcheck := List.all_eq_true.mp hfree thread hmember
      simpa [hlive] using hcheck
    refine ⟨h.holds, fun index hindex ↦ h.idle index ?_, ?_, ?_⟩
    · simp only [List.length_append, List.length_singleton] at hindex
      omega
    · intro index thread hthread
      rcases happend index thread hthread with hold | ⟨rfl, rfl⟩
      · exact h.safe index thread hold
      · exact hsafe _ _ h.holds (h.idle _ (Nat.le_refl _))
    · intro index index' thread thread' hne hthread hthread' hlive hlive'
      rcases happend index thread hthread with hold | ⟨rfl, rfl⟩
      · rcases happend index' thread' hthread' with hold' | ⟨rfl, rfl⟩
        · exact h.apart index index' thread thread' hne hold hold' hlive hlive'
        · exact hapart index thread hold hlive
      · rcases happend index' thread' hthread' with hold' | ⟨rfl, rfl⟩
        · rw [hcompatible.symm]
          exact hapart index' thread' hold' hlive'
        · exact absurd rfl hne
  · cases hstep

/-- The guarantee of the next operation of a thread, and the safety of what remains. -/
theorem Config.Sound.perform
    {index : ℕ} {role : ρ} {op : I.Op} {resume : I.Ans op → Program I ε Unit} {choice : χ}
    {answer : I.Ans op} {state' : σ} (h : config.Sound M conflict inv idle contracts)
    (hthread : config.threads[index]? = some ⟨role, .await op resume⟩)
    (hok : (contracts role index).ok op config.state)
    (hperform : M.perform index op choice config.state = some (answer, state')) :
    (contracts role index).guar config.state state' ∧ inv state' ∧
      Safe M inv index (contracts role index) (resume answer) (fun _ _ ↦ True) (fun _ _ ↦ True)
        state' :=
  h.safe index _ hthread config.state ((contracts role index).rely_refl _) h.holds hok choice answer
    state' hperform

theorem Config.Sound.run
    {index : ℕ} {role : ρ} {op : I.Op} {resume : I.Ans op → Program I ε Unit} {choice : χ}
    {answer : I.Ans op} {state' : σ} (hcompatible : Compatible M conflict inv idle contracts)
    (h : config.Sound M conflict inv idle contracts)
    (hthread : config.threads[index]? = some ⟨role, .await op resume⟩)
    (hok : (contracts role index).ok op config.state)
    (hperform : M.perform index op choice config.state = some (answer, state')) :
    Config.Sound M conflict inv idle contracts
      { state := state'
        threads := config.threads.set index ⟨role, resume answer⟩
        trace := ⟨index, op, answer⟩ :: config.trace } := by
  obtain ⟨hguar, hinv', hrest⟩ := h.perform hthread hok hperform
  have hset : ∀ (other : ℕ) (thread : Thread I ε ρ),
      (config.threads.set index ⟨role, resume answer⟩)[other]? = some thread →
        (other = index ∧ thread = ⟨role, resume answer⟩) ∨
          (other ≠ index ∧ config.threads[other]? = some thread) := by
    intro other thread hother
    rw [List.getElem?_set] at hother
    split at hother
    · next heq =>
      split at hother
      · exact .inl ⟨heq.symm, (Option.some.inj hother).symm⟩
      · cases hother
    · next hne => exact .inr ⟨fun heq ↦ hne heq.symm, hother⟩
  refine ⟨hinv', ?_, ?_, ?_⟩
  · intro other hother
    rw [List.length_set] at hother
    have hbound := (List.getElem?_eq_some_iff.mp hthread).1
    exact hcompatible.idle_of_guar (by omega) hguar (h.idle other hother)
  · intro other thread hother
    rcases hset other thread hother with ⟨rfl, rfl⟩ | ⟨hne, hold⟩
    · exact hrest
    · cases hlive : thread.program.live with
      | false => exact safe_of_not_live hlive
      | true =>
        have hroles := h.apart index other _ thread (Ne.symm hne) hthread hold rfl hlive
        exact (h.safe other thread hold).stable
          (hcompatible.rely_of_guar (Ne.symm hne) hroles h.holds hinv' hguar)
  · intro first second thread thread' hne hfirst hsecond hlive hlive'
    rcases hset first thread hfirst with ⟨rfl, rfl⟩ | ⟨hneFirst, holdFirst⟩
    · rcases hset second thread' hsecond with ⟨rfl, rfl⟩ | ⟨hneSecond, holdSecond⟩
      · exact absurd rfl hne
      · exact h.apart first second ⟨role, .await op resume⟩ thread' hne hthread holdSecond rfl hlive'
    · rcases hset second thread' hsecond with ⟨rfl, rfl⟩ | ⟨hneSecond, holdSecond⟩
      · exact h.apart first second thread ⟨role, .await op resume⟩ hne holdFirst hthread hlive rfl
      · exact h.apart first second thread thread' hne holdFirst holdSecond hlive hlive'

theorem Config.Sound.crash {state' : σ} (hcompatible : Compatible M conflict inv idle contracts)
    (h : config.Sound M conflict inv idle contracts)
    (hrestart : M.restart config.state = some state') : Config.Sound M conflict inv idle contracts
      { config with state := state', threads := config.threads.map Thread.dead } := by
  have hdead : ∀ (index : ℕ) (thread : Thread I ε ρ),
      (config.threads.map Thread.dead)[index]? = some thread → thread.program.live = false := by
    intro index thread hthread
    simp only [List.getElem?_map, Option.map_eq_some_iff] at hthread
    obtain ⟨old, -, rfl⟩ := hthread
    rfl
  obtain ⟨hinv', hidle'⟩ := hcompatible.restart h.holds hrestart
  refine ⟨hinv', fun index hindex ↦ hidle' index (h.idle index ?_), ?_, ?_⟩
  · simpa using hindex
  · exact fun index thread hthread ↦ safe_of_not_live (hdead index thread hthread)
  · intro index index' thread thread' _ hthread _ hlive
    rw [hdead index thread hthread] at hlive
    cases hlive

/-- Threads with compatible contracts keep every reachable configuration sound. -/
theorem reachable_sound (hcompatible : Compatible M conflict inv idle contracts)
    (hstart : ∀ state, start state → inv state ∧ ∀ index, idle index state)
    (hentry : ∀ role program, entry role program → ∀ index state, inv state → idle index state →
      Safe M inv index (contracts role index) program (fun _ _ ↦ True) (fun _ _ ↦ True) state)
    (hok : ∀ config index role op (resume : I.Ans op → Program I ε Unit),
      config.threads[index]? = some ⟨role, .await op resume⟩ → ok config index op →
        (contracts role index).ok op config.state)
    (h : Reachable M conflict start entry ok config) :
    config.Sound M conflict inv idle contracts := by
  induction h with
  | start hstate =>
    exact ⟨(hstart _ hstate).1, fun index _ ↦ (hstart _ hstate).2 index,
      fun _ _ hthread ↦ by simp [Config.initial] at hthread,
      fun _ _ _ _ _ hthread ↦ by simp [Config.initial] at hthread⟩
  | spawn _ hprogram hstep ih => exact ih.spawn hcompatible (hentry _ _ hprogram) hstep
  | run _ hthread hcondition hperform ih =>
    exact ih.run hcompatible hthread (hok _ _ _ _ _ hthread hcondition) hperform
  | crash _ hrestart ih => exact ih.crash hcompatible hrestart

/-- A thread that ends with none but certain errors goes on to do so, whatever runs beside it. -/
theorem Config.Sound.continues (hcompatible : Compatible M conflict inv idle contracts)
    (hentry : ∀ role program, entry role program → ∀ index state, inv state → idle index state →
      Safe M inv index (contracts role index) program (fun _ _ ↦ True) (fun _ _ ↦ True) state)
    (hok : ∀ config index role op (resume : I.Ans op → Program I ε Unit),
      config.threads[index]? = some ⟨role, .await op resume⟩ → ok config index op →
        (contracts role index).ok op config.state)
    {first last : Config I ε ρ σ} (hfirst : first.Sound M conflict inv idle contracts)
    (h : Continues M conflict entry ok first last) {index : ℕ} {role : ρ}
    {program : Program I ε Unit} {raises : ε → Prop}
    (hthread : first.threads[index]? = some ⟨role, program⟩)
    (hsafe : Safe M inv index (contracts role index) program (fun _ _ ↦ True)
      (fun error _ ↦ raises error) first.state) :
    last.Sound M conflict inv idle contracts ∧ ∃ rest, last.threads[index]? = some ⟨role, rest⟩ ∧
      Safe M inv index (contracts role index) rest (fun _ _ ↦ True) (fun error _ ↦ raises error)
        last.state := by
  induction h with
  | refl => exact ⟨hfirst, program, hthread, hsafe⟩
  | spawn _ hprogram hstep ih =>
    obtain ⟨hsound, rest, hrest, hheld⟩ := ih
    refine ⟨hsound.spawn hcompatible (hentry _ _ hprogram) hstep, rest, ?_⟩
    simp only [Config.step] at hstep
    split at hstep
    · cases hstep
      exact ⟨(List.getElem?_append_left (List.getElem?_eq_some_iff.mp hrest).1).trans hrest, hheld⟩
    · cases hstep
  | @run config other otherRole op resume choice answer state' _ hother hcondition hperform ih =>
    obtain ⟨hsound, rest, hrest, hheld⟩ := ih
    have hallowed := hok _ _ _ _ _ hother hcondition
    refine ⟨hsound.run hcompatible hother hallowed hperform, ?_⟩
    by_cases heq : other = index
    · subst heq
      obtain ⟨rfl, rfl⟩ := Thread.mk.inj (Option.some.inj (hother.symm.trans hrest))
      obtain ⟨-, -, hlater⟩ :=
        hheld _ ((contracts _ _).rely_refl _) hsound.holds hallowed _ _ _ hperform
      exact ⟨_, List.getElem?_set_self (List.getElem?_eq_some_iff.mp hother).1, hlater⟩
    · refine ⟨rest, (List.getElem?_set_ne heq).trans hrest, ?_⟩
      cases rest with
      | ret value => exact fun _ _ _ ↦ trivial
      | throw error => exact fun _ _ _ ↦ hheld _ ((contracts _ _).rely_refl _) hsound.holds
      | await otherOp later =>
        obtain ⟨hguar, hinv', -⟩ := hsound.perform hother hallowed hperform
        have hroles := hsound.apart other index _ _ heq hother hrest rfl rfl
        exact hheld.stable (hcompatible.rely_of_guar heq hroles hsound.holds hinv' hguar)
  | crash _ hrestart ih =>
    obtain ⟨hsound, rest, hrest, -⟩ := ih
    refine ⟨hsound.crash hcompatible hrestart, .ret (), ?_, fun _ _ _ ↦ trivial⟩
    rw [List.getElem?_map, hrest]
    rfl

/-- A fact about every step between states with the invariant is one about the whole trace. -/
theorem reachable_trace {allowed : Performed I → Prop}
    (hinv : ∀ config : Config I ε ρ σ, Reachable M conflict start entry ok config →
      inv config.state)
    (hstep : ∀ (config : Config I ε ρ σ) (index : ℕ) (op : I.Op) (choice : χ) (answer : I.Ans op)
      (state' : σ), inv config.state → inv state' →
        M.perform index op choice config.state = some (answer, state') →
          allowed ⟨index, op, answer⟩) (h : Reachable M conflict start entry ok config) :
    ∀ performed ∈ config.trace, allowed performed := by
  induction h with
  | start _ => exact fun _ hmem ↦ absurd hmem List.not_mem_nil
  | @spawn config config' role program _ _ hspawn ih =>
    have htrace : config'.trace = config.trace := by
      simp only [Config.step] at hspawn
      split at hspawn
      · cases hspawn
        rfl
      · cases hspawn
    rw [htrace]
    exact ih
  | run hconfig hthread hok hperform ih =>
    intro performed hmem
    rcases List.mem_cons.mp hmem with rfl | hold
    · exact hstep _ _ _ _ _ _ (hinv _ hconfig) (hinv _ (.run hconfig hthread hok hperform)) hperform
    · exact ih performed hold
  | crash _ _ ih => exact ih

/-! ### Machines with a history

For facts about the order of operations the trace is made part of the state, so that an invariant and
a contract can speak of it. -/

/-- The machine that keeps the performed operations beside its state. -/
def Machine.traced (M : Machine I σ χ) : Machine I (σ × List (Performed I)) χ where
  perform thread op choice state :=
    match M.perform thread op choice state.1 with
    | some (answer, state') => some (answer, state', ⟨thread, op, answer⟩ :: state.2)
    | none => none
  restart state :=
    match M.restart state.1 with
    | some state' => some (state', state.2)
    | none => none

theorem Machine.traced_perform {op : I.Op} {choice : χ} {state state' : σ × List (Performed I)}
    {answer : I.Ans op} : M.traced.perform thread op choice state = some (answer, state') ↔
      M.perform thread op choice state.1 = some (answer, state'.1) ∧
        state'.2 = ⟨thread, op, answer⟩ :: state.2 := by
  obtain ⟨last, trace⟩ := state'
  simp only [Machine.traced]
  cases hperform : M.perform thread op choice state.1 with
  | none => simp
  | some result =>
    simp only [Option.some.injEq, Prod.mk.injEq]
    constructor
    · rintro ⟨rfl, rfl, rfl⟩
      exact ⟨rfl, rfl⟩
    · rintro ⟨rfl, rfl⟩
      exact ⟨rfl, rfl, rfl⟩

theorem Machine.traced_restart {state state' : σ × List (Performed I)} :
    M.traced.restart state = some state' ↔
      M.restart state.1 = some state'.1 ∧ state'.2 = state.2 := by
  obtain ⟨last, trace⟩ := state'
  simp only [Machine.traced]
  cases hrestart : M.restart state.1 with
  | none => simp
  | some result =>
    simp only [Option.some.injEq, Prod.mk.injEq]
    exact and_congr_right fun _ ↦ eq_comm

/-- A configuration with its trace in the state. -/
def Config.traced (config : Config I ε ρ σ) : Config I ε ρ (σ × List (Performed I)) :=
  ⟨(config.state, config.trace), config.threads, config.trace⟩

/-- A configuration without the trace in its state. -/
def Config.untraced (config : Config I ε ρ (σ × List (Performed I))) : Config I ε ρ σ :=
  ⟨config.state.1, config.threads, config.trace⟩

/-- A run is a run of the machine with its history. -/
theorem reachable_traced (h : Reachable M conflict start entry ok config) :
    Reachable M.traced conflict (fun state ↦ start state.1 ∧ state.2 = []) entry
      (fun config index op ↦ ok config.untraced index op ∧ config.state.2 = config.trace)
        config.traced := by
  induction h with
  | start hstate => exact .start ⟨hstate, rfl⟩
  | @spawn config config' role program _ hprogram hstep ih =>
    refine .spawn ih hprogram ?_
    simp only [Config.step] at hstep ⊢
    split at hstep
    · next hfree =>
      cases hstep
      exact if_pos hfree
    · cases hstep
  | run _ hthread hcondition hperform ih =>
    exact .run ih hthread ⟨hcondition, rfl⟩ (Machine.traced_perform.mpr ⟨hperform, rfl⟩)
  | crash _ hrestart ih => exact .crash ih (Machine.traced_restart.mpr ⟨hrestart, rfl⟩)

end

end Async
