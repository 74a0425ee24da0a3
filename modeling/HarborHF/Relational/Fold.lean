import Mathlib.Data.List.Sort
import Mathlib.Tactic.Common

/-!
# Replaying a log

A log is replayed by folding a step that may refuse an entry. The lemmas say when entries may be left
out of a log (`foldlM_filter`), that sorting a log and selecting some of its entries commute
(`filter_insertionSort`), and how an invariant is carried along a replay. `Separate` is the case of a
log whose entries fall into two parts that act on different components of the state: the log can be
replayed if and only if its parts can, in whatever way they are interleaved.
-/

set_option autoImplicit false

namespace Relational

variable {α σ ε : Type}

/-! ### Folds that may fail -/

section

variable {step : σ → α → Except ε σ} {keep : α → Bool} {I : σ → Prop}

theorem bind_eq_ok {β γ : Type} {action : Except ε β} {next : β → Except ε γ} {result : γ} :
    action >>= next = .ok result ↔ ∃ value, action = .ok value ∧ next value = .ok result := by
  cases action with
  | error error => simp [bind, Except.bind]
  | ok value => simp [bind, Except.bind]

theorem foldlM_cons_ok {state last : σ} {entry : α} {rest : List α} :
    (entry :: rest).foldlM step state = .ok last ↔
      ∃ next, step state entry = .ok next ∧ rest.foldlM step next = .ok last := by
  rw [List.foldlM_cons]
  cases hstep : step state entry with
  | error error => simp [bind, Except.bind]
  | ok next => simp [bind, Except.bind]

theorem foldlM_append_ok {state last : σ} {first second : List α} :
    (first ++ second).foldlM step state = .ok last ↔
      ∃ middle, first.foldlM step state = .ok middle ∧ second.foldlM step middle = .ok last := by
  rw [List.foldlM_append]
  cases hfirst : first.foldlM step state with
  | error error => simp [bind, Except.bind]
  | ok middle => simp [bind, Except.bind]

/-- A list is mapped if each of its entries is. -/
theorem mapM_eq_ok {β : Type} {f : α → Except ε β} {list : List α} {result : List β} :
    list.mapM f = .ok result ↔ List.Forall₂ (fun entry value ↦ f entry = .ok value) list result := by
  induction list generalizing result with
  | nil => simp [pure, Except.pure, eq_comm]
  | cons entry rest ih =>
    rw [List.mapM_cons, bind_eq_ok, List.forall₂_cons_left_iff]
    constructor
    · rintro ⟨value, hvalue, h⟩
      obtain ⟨values, hvalues, hresult⟩ := bind_eq_ok.mp h
      cases hresult
      exact ⟨value, values, hvalue, ih.mp hvalues, rfl⟩
    · rintro ⟨value, values, hvalue, hvalues, rfl⟩
      exact ⟨value, hvalue, bind_eq_ok.mpr ⟨values, ih.mpr hvalues, rfl⟩⟩

/-- A loop of checks passes exactly when each of them does. -/
theorem forM_eq_ok {check : α → Except ε PUnit} {items : List α} :
    items.forM check = .ok ⟨⟩ ↔ ∀ item ∈ items, check item = .ok ⟨⟩ := by
  induction items with
  | nil => exact ⟨fun _ _ h ↦ by simp at h, fun _ ↦ rfl⟩
  | cons item rest ih =>
    rw [List.forall_mem_cons, ← ih]
    change (check item >>= fun _ ↦ rest.forM check) = .ok ⟨⟩ ↔ _
    cases check item with
    | error error => simp [bind, Except.bind]
    | ok _ => simp [bind, Except.bind]

theorem mapError_eq_ok {ω ε' : Type} {f : ε → ε'} {result : Except ε ω} {value : ω} :
    result.mapError f = .ok value ↔ result = .ok value := by
  cases result with
  | error error => simp [Except.mapError]
  | ok other => simp [Except.mapError]

/-- A list that can be mapped entry by entry can be mapped. -/
theorem exists_mapM {β : Type} {f : α → Except ε β} {list : List α}
    (h : ∀ entry ∈ list, ∃ value, f entry = .ok value) : ∃ result, list.mapM f = .ok result := by
  induction list with
  | nil => exact ⟨[], rfl⟩
  | cons entry rest ih =>
    obtain ⟨value, hvalue⟩ := h entry List.mem_cons_self
    obtain ⟨values, hvalues⟩ := ih fun other hother ↦ h other (List.mem_cons_of_mem entry hother)
    exact ⟨value :: values,
      mapM_eq_ok.mpr (.cons hvalue (mapM_eq_ok.mp hvalues))⟩

/-- Mapping a list that was mapped before. -/
theorem mapM_of_mapM {β γ : Type} {f : α → Except ε β} {g : α → Except ε γ} {k : β → Except ε γ}
    {list : List α} {result : List β} (h : list.mapM f = .ok result)
    (heq : ∀ entry ∈ list, ∀ value, f entry = .ok value → g entry = k value) :
    list.mapM g = result.mapM k := by
  induction list generalizing result with
  | nil =>
    cases h
    rfl
  | cons entry rest ih =>
    rw [List.mapM_cons] at h
    obtain ⟨value, hvalue, h⟩ := bind_eq_ok.mp h
    obtain ⟨values, hvalues, hresult⟩ := bind_eq_ok.mp h
    cases hresult
    rw [List.mapM_cons, List.mapM_cons, heq entry List.mem_cons_self value hvalue,
      ih hvalues fun other hother ↦ heq other (List.mem_cons_of_mem entry hother)]

/-- Every entry on the right of two related lists has one on the left, and the other way round. -/
theorem exists_left_of_forall₂ {β : Type} {R : α → β → Prop} {first : List α} {second : List β}
    (h : List.Forall₂ R first second) {value : β} (hvalue : value ∈ second) :
    ∃ entry ∈ first, R entry value := by
  induction h with
  | nil => cases hvalue
  | cons hhead _ ih =>
    rcases List.mem_cons.mp hvalue with rfl | hrest
    · exact ⟨_, List.mem_cons_self, hhead⟩
    · obtain ⟨entry, hentry, hrel⟩ := ih hrest
      exact ⟨entry, List.mem_cons_of_mem _ hentry, hrel⟩

theorem exists_right_of_forall₂ {β : Type} {R : α → β → Prop} {first : List α} {second : List β}
    (h : List.Forall₂ R first second) {entry : α} (hentry : entry ∈ first) :
    ∃ value ∈ second, R entry value :=
  exists_left_of_forall₂ h.flip hentry

/-- An invariant that every step keeps holds at the end of a replay. -/
theorem foldlM_invariant {entries : List α} {state last : σ} (hstate : I state)
    (hstep : ∀ state entry next, entry ∈ entries → I state → step state entry = .ok next → I next)
    (h : entries.foldlM step state = .ok last) : I last := by
  induction entries generalizing state with
  | nil =>
    cases h
    exact hstate
  | cons entry rest ih =>
    obtain ⟨next, hnext, hrest⟩ := foldlM_cons_ok.mp h
    exact ih (hstep state entry next List.mem_cons_self hstate hnext)
      (fun state other next hother ↦ hstep state other next (List.mem_cons_of_mem entry hother))
      hrest

/-- A replay can be followed from a related state by a step that keeps the states related. -/
theorem foldlM_sim {τ : Type} {step' : τ → α → Except ε τ} {R : σ → τ → Prop} {entries : List α}
    {state last : σ} {state' : τ} (hstate : R state state')
    (hstep : ∀ state entry next state', entry ∈ entries → R state state' →
      step state entry = .ok next → ∃ next', step' state' entry = .ok next' ∧ R next next')
    (h : entries.foldlM step state = .ok last) :
    ∃ last', entries.foldlM step' state' = .ok last' ∧ R last last' := by
  induction entries generalizing state state' with
  | nil =>
    cases h
    exact ⟨state', rfl, hstate⟩
  | cons entry rest ih =>
    obtain ⟨next, hnext, hrest⟩ := foldlM_cons_ok.mp h
    obtain ⟨next', hnext', hrelated⟩ := hstep state entry next state' List.mem_cons_self hstate hnext
    obtain ⟨last', hlast', hend⟩ := ih hrelated
      (fun state other next state' hother ↦
        hstep state other next state' (List.mem_cons_of_mem entry hother)) hrest
    exact ⟨last', foldlM_cons_ok.mpr ⟨next', hnext', hlast'⟩, hend⟩

/-- Entries that change nothing may be left out of a log. -/
theorem foldlM_filter {entries : List α} {state : σ} (hstate : I state)
    (hstep : ∀ state entry next, entry ∈ entries → I state → step state entry = .ok next → I next)
    (hskip : ∀ state entry, entry ∈ entries → I state → keep entry = false →
      step state entry = .ok state) :
    entries.foldlM step state = (entries.filter keep).foldlM step state := by
  induction entries generalizing state with
  | nil => rfl
  | cons entry rest ih =>
    have hrest (next : σ) (hnext : I next) : rest.foldlM step next =
        (rest.filter keep).foldlM step next :=
      ih hnext
        (fun state other next hother ↦ hstep state other next (List.mem_cons_of_mem entry hother))
        (fun state other hother ↦ hskip state other (List.mem_cons_of_mem entry hother))
    by_cases hkeep : keep entry = true
    · rw [List.filter_cons_of_pos hkeep, List.foldlM_cons, List.foldlM_cons]
      cases hnext : step state entry with
      | error error => rfl
      | ok next => exact hrest next (hstep state entry next List.mem_cons_self hstate hnext)
    · have hdrop : keep entry = false := by simpa using hkeep
      rw [List.filter_cons_of_neg hkeep, List.foldlM_cons,
        hskip state entry List.mem_cons_self hstate hdrop]
      exact hrest state hstate

/-- An entry that is passed over may be put anywhere. -/
theorem foldlM_insert_of_skip {before after : List α} {entry : α} {state : σ}
    (hskip : ∀ state, step state entry = .ok state) :
    (before ++ entry :: after).foldlM step state = (before ++ after).foldlM step state := by
  rw [List.foldlM_append, List.foldlM_append]
  congr 1
  funext middle
  rw [List.foldlM_cons, hskip]
  rfl

/-- Every entry of a log that is replayed is accepted in a state with the invariant. -/
theorem exists_step_of_mem {entries : List α} {state last : σ} (hstate : I state)
    (hstep : ∀ state entry next, entry ∈ entries → I state → step state entry = .ok next → I next)
    (h : entries.foldlM step state = .ok last) {entry : α} (hmem : entry ∈ entries) :
    ∃ before next, I before ∧ step before entry = .ok next := by
  induction entries generalizing state with
  | nil => cases hmem
  | cons first rest ih =>
    obtain ⟨next, hnext, hrest⟩ := foldlM_cons_ok.mp h
    rcases List.mem_cons.mp hmem with rfl | htail
    · exact ⟨state, next, hstate, hnext⟩
    · exact ih (hstep state first next List.mem_cons_self hstate hnext)
        (fun state other next hother ↦ hstep state other next (List.mem_cons_of_mem first hother))
        hrest htail

end

/-! ### Logs of two parts -/

section

variable {σ₁ σ₂ : Type}

/-- The kept entries of a log act on the first view of the state and the others on the second, while
an invariant holds. -/
structure Separate (step : σ → α → Except ε σ) (keep : α → Bool) (I : σ → Prop) (entries : List α)
    (first : σ → σ₁) (step₁ : σ₁ → α → Except ε σ₁) (second : σ → σ₂)
    (step₂ : σ₂ → α → Except ε σ₂) : Prop where
  invariant : ∀ state entry next, entry ∈ entries → I state → step state entry = .ok next → I next
  kept : ∀ state entry, entry ∈ entries → I state → keep entry = true →
    (step state entry).map first = step₁ (first state) entry
  kept_frame : ∀ state entry next, entry ∈ entries → I state → keep entry = true →
    step state entry = .ok next → second next = second state
  dropped : ∀ state entry, entry ∈ entries → I state → keep entry = false →
    (step state entry).map second = step₂ (second state) entry
  dropped_frame : ∀ state entry next, entry ∈ entries → I state → keep entry = false →
    step state entry = .ok next → first next = first state

namespace Separate

variable {step : σ → α → Except ε σ} {keep : α → Bool} {I : σ → Prop} {entry : α}
  {entries : List α} {first : σ → σ₁} {step₁ : σ₁ → α → Except ε σ₁} {second : σ → σ₂}
  {step₂ : σ₂ → α → Except ε σ₂}

theorem tail (h : Separate step keep I (entry :: entries) first step₁ second step₂) :
    Separate step keep I entries first step₁ second step₂ where
  invariant state other next hother := h.invariant state other next (List.mem_cons_of_mem _ hother)
  kept state other hother := h.kept state other (List.mem_cons_of_mem _ hother)
  kept_frame state other next hother :=
    h.kept_frame state other next (List.mem_cons_of_mem _ hother)
  dropped state other hother := h.dropped state other (List.mem_cons_of_mem _ hother)
  dropped_frame state other next hother :=
    h.dropped_frame state other next (List.mem_cons_of_mem _ hother)

/-- A replay of the whole log replays each part. -/
theorem parts {state last : σ} (h : Separate step keep I entries first step₁ second step₂)
    (hstate : I state) (hlast : entries.foldlM step state = .ok last) :
    (entries.filter keep).foldlM step₁ (first state) = .ok (first last) ∧
      (entries.filter fun entry ↦ !keep entry).foldlM step₂ (second state) =
        .ok (second last) := by
  induction entries generalizing state with
  | nil =>
    cases hlast
    exact ⟨rfl, rfl⟩
  | cons entry rest ih =>
    obtain ⟨next, hnext, hrest⟩ := foldlM_cons_ok.mp hlast
    obtain ⟨hfirst, hsecond⟩ :=
      ih h.tail (h.invariant state entry next List.mem_cons_self hstate hnext) hrest
    by_cases hkeep : keep entry = true
    · have hview := h.kept state entry List.mem_cons_self hstate hkeep
      have hframe := h.kept_frame state entry next List.mem_cons_self hstate hkeep hnext
      rw [hnext] at hview
      rw [List.filter_cons_of_pos hkeep, List.filter_cons_of_neg (by simp [hkeep])]
      exact ⟨foldlM_cons_ok.mpr ⟨first next, hview.symm, hfirst⟩, hframe ▸ hsecond⟩
    · have hdrop : keep entry = false := by simpa using hkeep
      have hview := h.dropped state entry List.mem_cons_self hstate hdrop
      have hframe := h.dropped_frame state entry next List.mem_cons_self hstate hdrop hnext
      rw [hnext] at hview
      rw [List.filter_cons_of_neg hkeep, List.filter_cons_of_pos (by simp [hdrop])]
      exact ⟨hframe ▸ hfirst, foldlM_cons_ok.mpr ⟨second next, hview.symm, hsecond⟩⟩

/-- A log whose parts can be replayed can be replayed. -/
theorem merge {state : σ} {last₁ : σ₁} {last₂ : σ₂}
    (h : Separate step keep I entries first step₁ second step₂) (hstate : I state)
    (hfirst : (entries.filter keep).foldlM step₁ (first state) = .ok last₁)
    (hsecond : (entries.filter fun entry ↦ !keep entry).foldlM step₂ (second state) = .ok last₂) :
    ∃ last, entries.foldlM step state = .ok last ∧ first last = last₁ ∧ second last = last₂ := by
  induction entries generalizing state with
  | nil =>
    cases hfirst
    cases hsecond
    exact ⟨state, rfl, rfl, rfl⟩
  | cons entry rest ih =>
    by_cases hkeep : keep entry = true
    · have hview := h.kept state entry List.mem_cons_self hstate hkeep
      rw [List.filter_cons_of_pos hkeep] at hfirst
      rw [List.filter_cons_of_neg (by simp [hkeep])] at hsecond
      obtain ⟨middle, hmiddle, hfirst⟩ := foldlM_cons_ok.mp hfirst
      cases hnext : step state entry with
      | error error =>
        rw [hnext, hmiddle] at hview
        cases hview
      | ok next =>
        rw [hnext, hmiddle] at hview
        obtain rfl := Except.ok.inj hview
        have hframe := h.kept_frame state entry next List.mem_cons_self hstate hkeep hnext
        obtain ⟨last, hlast, hviews⟩ :=
          ih h.tail (h.invariant state entry next List.mem_cons_self hstate hnext) hfirst
            (hframe ▸ hsecond)
        exact ⟨last, foldlM_cons_ok.mpr ⟨next, hnext, hlast⟩, hviews⟩
    · have hdrop : keep entry = false := by simpa using hkeep
      have hview := h.dropped state entry List.mem_cons_self hstate hdrop
      rw [List.filter_cons_of_neg hkeep] at hfirst
      rw [List.filter_cons_of_pos (by simp [hdrop])] at hsecond
      obtain ⟨middle, hmiddle, hsecond⟩ := foldlM_cons_ok.mp hsecond
      cases hnext : step state entry with
      | error error =>
        rw [hnext, hmiddle] at hview
        cases hview
      | ok next =>
        rw [hnext, hmiddle] at hview
        obtain rfl := Except.ok.inj hview
        have hframe := h.dropped_frame state entry next List.mem_cons_self hstate hdrop hnext
        obtain ⟨last, hlast, hviews⟩ :=
          ih h.tail (h.invariant state entry next List.mem_cons_self hstate hnext)
            (hframe ▸ hfirst) hsecond
        exact ⟨last, foldlM_cons_ok.mpr ⟨next, hnext, hlast⟩, hviews⟩

end Separate

end

/-! ### Sorted logs -/

section

variable {order : α → α → Prop} [DecidableRel order] [Std.Total order] [IsTrans α order]
  {keep : α → Bool}

omit [Std.Total order] in
theorem filter_orderedInsert {entry : α} {list : List α} (hsorted : list.Pairwise order) :
    (list.orderedInsert order entry).filter keep =
      if keep entry then (list.filter keep).orderedInsert order entry else list.filter keep := by
  induction list with
  | nil =>
    by_cases hkeep : keep entry = true
    · simp [hkeep]
    · simp [hkeep]
  | cons head rest ih =>
    obtain ⟨hhead, hrest⟩ := List.pairwise_cons.mp hsorted
    by_cases hbefore : order entry head
    · rw [List.orderedInsert_cons, if_pos hbefore]
      by_cases hkeep : keep entry = true
      · -- everything that is kept comes after the new entry
        have hfirst : ∀ other ∈ (head :: rest).filter keep, order entry other := by
          intro other hother
          rcases List.mem_cons.mp (List.mem_of_mem_filter hother) with rfl | hmem
          · exact hbefore
          · exact trans_of order hbefore (hhead other hmem)
        rw [List.filter_cons_of_pos hkeep, if_pos hkeep]
        cases hfilter : (head :: rest).filter keep with
        | nil => rfl
        | cons first others =>
          rw [List.orderedInsert_cons, if_pos (hfirst first (hfilter ▸ List.mem_cons_self))]
      · rw [List.filter_cons_of_neg hkeep, if_neg hkeep]
    · rw [List.orderedInsert_cons, if_neg hbefore]
      by_cases hhead : keep head = true
      · rw [List.filter_cons_of_pos hhead, List.filter_cons_of_pos hhead, ih hrest]
        by_cases hkeep : keep entry = true
        · rw [if_pos hkeep, if_pos hkeep, List.orderedInsert_cons, if_neg hbefore]
        · rw [if_neg hkeep, if_neg hkeep]
      · rw [List.filter_cons_of_neg hhead, List.filter_cons_of_neg hhead, ih hrest]

/-- Selecting entries of a sorted log is sorting the selected entries. -/
theorem filter_insertionSort (list : List α) :
    (list.insertionSort order).filter keep = (list.filter keep).insertionSort order := by
  induction list with
  | nil => rfl
  | cons entry rest ih =>
    rw [List.insertionSort_cons, filter_orderedInsert (List.pairwise_insertionSort order rest), ih]
    by_cases hkeep : keep entry = true
    · rw [if_pos hkeep, List.filter_cons_of_pos hkeep, List.insertionSort_cons]
    · rw [if_neg hkeep, List.filter_cons_of_neg hkeep]

end

end Relational
