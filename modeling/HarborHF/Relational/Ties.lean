import HarborHF.Relational.Order
import Mathlib.Logic.Equiv.Basic

/-!
# Rows that tie

A query that orders its rows leaves open the order of the rows that tie. `Answer` is any list it may
return. Its answers agree exactly when the order decides between any two rows (`answers_agree_iff`),
the last row of its answers exactly when one row is behind all others (`last_agrees_iff`), and the
first row exactly when one row is before all others (`head_agrees_iff`): where two rows tie,
exchanging them turns one answer into another (`Answer.swap`).
-/

set_option autoImplicit false

namespace Relational

variable {α : Type} {order : α → α → Prop} {table table' answer answer' : List α}

/-- An answer of a query that orders a table. -/
def Answer (order : α → α → Prop) (table answer : List α) : Prop :=
  answer.Perm table ∧ answer.Pairwise order

theorem Answer.of_perm (h : Answer order table answer) (hperm : table.Perm table') :
    Answer order table' answer := ⟨h.1.trans hperm, h.2⟩

theorem Answer.unique (hordered : Ordered order table) (h : Answer order table answer)
    (h' : Answer order table answer') : answer = answer' := by
  refine List.Perm.eq_of_pairwise ?_ h.2 h'.2 (h.1.trans h'.1.symm)
  intro first second hfirst hsecond
  exact hordered first (h.1.mem_iff.mp hfirst) second (h'.1.mem_iff.mp hsecond)

section

variable [DecidableRel order] [Std.Total order] [IsTrans α order]

theorem answer_insertionSort (table : List α) : Answer order table (table.insertionSort order) :=
  ⟨List.perm_insertionSort order table, List.pairwise_insertionSort order table⟩

omit [DecidableRel order] [IsTrans α order] in
/-- The last row of an answer is behind every row. -/
theorem Answer.last (h : Answer order table answer) {row : α} (hrow : answer.getLast? = some row) :
    row ∈ table ∧ ∀ other ∈ table, order other row := by
  obtain ⟨first, rfl⟩ := List.getLast?_eq_some_iff.mp hrow
  refine ⟨h.1.mem_iff.mp (by simp), fun other hother ↦ ?_⟩
  rcases List.mem_append.mp (h.1.mem_iff.mpr hother) with hfirst | hlast
  · exact (List.pairwise_append.mp h.2).2.2 other hfirst row (by simp)
  · rw [List.mem_singleton.mp hlast]
    exact refl_of order row

variable [DecidableEq α]

omit [DecidableRel order] in
/-- Two rows that tie may be exchanged. -/
theorem Answer.swap (hnodup : table.Nodup) (h : Answer order table answer) {first second : α}
    (hfirst : first ∈ table) (hsecond : second ∈ table) (hbefore : order first second)
    (hafter : order second first) : Answer order table (answer.map (Equiv.swap first second)) := by
  have htie : ∀ row, order (Equiv.swap first second row) row ∧
      order row (Equiv.swap first second row) := by
    intro row
    by_cases hrow : row = first
    · subst hrow
      rw [Equiv.swap_apply_left]
      exact ⟨hafter, hbefore⟩
    · by_cases hrow' : row = second
      · subst hrow'
        rw [Equiv.swap_apply_right]
        exact ⟨hbefore, hafter⟩
      · rw [Equiv.swap_apply_of_ne_of_ne hrow hrow']
        exact ⟨refl_of order row, refl_of order row⟩
  have hmem : ∀ row, Equiv.swap first second row ∈ table ↔ row ∈ table := by
    intro row
    by_cases hrow : row = first
    · subst hrow
      rw [Equiv.swap_apply_left]
      exact iff_of_true hsecond hfirst
    · by_cases hrow' : row = second
      · subst hrow'
        rw [Equiv.swap_apply_right]
        exact iff_of_true hfirst hsecond
      · rw [Equiv.swap_apply_of_ne_of_ne hrow hrow']
  refine ⟨?_, ?_⟩
  · rw [List.perm_ext_iff_of_nodup ?_ hnodup]
    · intro row
      rw [List.mem_map]
      constructor
      · rintro ⟨other, hother, rfl⟩
        exact (hmem other).mpr (h.1.mem_iff.mp hother)
      · intro hrow
        refine ⟨Equiv.swap first second row, h.1.mem_iff.mpr ((hmem row).mpr hrow), ?_⟩
        exact congrArg (fun swaps : α ≃ α ↦ swaps row) (Equiv.swap_swap first second)
    · exact (h.1.nodup_iff.mpr hnodup).map (Equiv.swap first second).injective
  · rw [List.pairwise_map]
    refine h.2.imp fun {row other} hrow ↦ ?_
    exact trans_of order (trans_of order (htie row).1 hrow) (htie other).2

/-- The answers of a query agree exactly when its order decides between any two rows. -/
theorem answers_agree_iff (hnodup : table.Nodup) :
    (∀ answer answer', Answer order table answer → Answer order table answer' →
      answer = answer') ↔ Ordered order table := by
  constructor
  · intro hagree first hfirst second hsecond hbefore hafter
    have hanswer : Answer order table (table.insertionSort order) := answer_insertionSort table
    have hswap := hagree _ _ hanswer (hanswer.swap hnodup hfirst hsecond hbefore hafter)
    have hfixed : Equiv.swap first second first = first := by
      obtain ⟨index, hbound, hindex⟩ := List.mem_iff_getElem.mp (hanswer.1.mem_iff.mpr hfirst)
      have hget := congrArg (fun rows ↦ rows[index]?) hswap
      simp only [List.getElem?_map, List.getElem?_eq_getElem hbound, hindex,
        Option.map_some, Option.some.injEq] at hget
      exact hget.symm
    rw [Equiv.swap_apply_left] at hfixed
    exact hfixed.symm
  · exact fun hordered _ _ h h' ↦ h.unique hordered h'

/-- The last rows of the answers agree exactly when one row is behind all others. -/
theorem last_agrees_iff (hnodup : table.Nodup) :
    (∀ answer answer', Answer order table answer → Answer order table answer' →
      answer.getLast? = answer'.getLast?) ↔
    ∀ first ∈ table, ∀ second ∈ table, (∀ other ∈ table, order other first) →
      (∀ other ∈ table, order other second) → first = second := by
  constructor
  · intro hagree
    -- an answer's last row ties with every row that is behind all others
    have hlast : ∀ row ∈ table, (∀ other ∈ table, order other row) →
        (table.insertionSort order).getLast? = some row := by
      intro row hrow hbehind
      have hanswer : Answer order table (table.insertionSort order) := answer_insertionSort table
      cases hcase : (table.insertionSort order).getLast? with
      | none =>
        have hempty := List.getLast?_eq_none_iff.mp hcase
        have hmem := hanswer.1.mem_iff.mpr hrow
        rw [hempty] at hmem
        cases hmem
      | some last =>
        obtain ⟨hmem, hlast⟩ := hanswer.last hcase
        have hswap := hagree _ _ hanswer
          (hanswer.swap hnodup hmem hrow (hbehind last hmem) (hlast row hrow))
        rw [List.getLast?_map, hcase, Option.map_some, Equiv.swap_apply_left] at hswap
        exact hswap
    intro first hfirst second hsecond hbehind hbehind'
    exact Option.some.inj ((hlast first hfirst hbehind).symm.trans (hlast second hsecond hbehind'))
  · intro hunique answer answer' h h'
    cases hlast : answer.getLast? with
    | none =>
      have hempty := List.getLast?_eq_none_iff.mp hlast
      subst hempty
      have hnil : answer' = [] := (h'.1.trans h.1.symm).eq_nil
      rw [hnil]
      rfl
    | some row =>
      cases hlast' : answer'.getLast? with
      | none =>
        have hempty := List.getLast?_eq_none_iff.mp hlast'
        subst hempty
        have hnil : answer = [] := (h.1.trans h'.1.symm).eq_nil
        rw [hnil] at hlast
        cases hlast
      | some row' =>
        obtain ⟨hmem, hbehind⟩ := h.last hlast
        obtain ⟨hmem', hbehind'⟩ := h'.last hlast'
        rw [hunique row hmem row' hmem' hbehind hbehind']

/-- The first rows of the answers agree exactly when one row is before all others. -/
theorem head_agrees_iff (hnodup : table.Nodup) :
    (∀ answer answer', Answer order table answer → Answer order table answer' →
      answer.head? = answer'.head?) ↔
    ∀ first ∈ table, ∀ second ∈ table, (∀ other ∈ table, order first other) →
      (∀ other ∈ table, order second other) → first = second := by
  let back : α → α → Prop := fun first second ↦ order second first
  have : DecidableRel back := fun first second ↦ inferInstanceAs (Decidable (order second first))
  have : Std.Total back := ⟨fun first second ↦ total_of order second first⟩
  have : IsTrans α back := ⟨fun _ _ _ h h' ↦ trans_of order h' h⟩
  have hback : ∀ {answer}, Answer order table answer → Answer back table answer.reverse :=
    fun h ↦ ⟨(List.reverse_perm _).trans h.1, List.pairwise_reverse.mpr h.2⟩
  have hforth : ∀ {answer}, Answer back table answer → Answer order table answer.reverse :=
    fun h ↦ ⟨(List.reverse_perm _).trans h.1, List.pairwise_reverse.mpr h.2⟩
  refine Iff.trans ?_ (last_agrees_iff hnodup : _ ↔ ∀ first ∈ table, ∀ second ∈ table,
    (∀ other ∈ table, back other first) → (∀ other ∈ table, back other second) → first = second)
  constructor
  · intro hagree answer answer' h h'
    simpa only [List.head?_reverse] using hagree _ _ (hforth h) (hforth h')
  · intro hagree answer answer' h h'
    simpa only [List.getLast?_reverse] using hagree _ _ (hback h) (hback h')

end

end Relational
