import Mathlib.Data.List.Sort
import Mathlib.Data.List.Nodup
import Mathlib.Tactic.Common

/-!
# Rows in order

A query that orders its rows and takes the first few of them (`ORDER BY … LIMIT`). In a list without
repetitions that is sorted by an antisymmetric order, the rows up to a row are the prefix that ends
with it (`filter_order_eq`), so a row is among the first `n` exactly when at most `n` rows are up to
it (`mem_take_insertionSort`), whatever the order in which the table held them, and a prefix of the
sorted table holds the rows up to its last one (`perm_upTo_of_prefix`).
-/

set_option autoImplicit false

namespace Relational

variable {α : Type} {order : α → α → Prop}

/-- The order decides between two different rows of the table. -/
def Ordered (order : α → α → Prop) (table : List α) : Prop :=
  ∀ first ∈ table, ∀ second ∈ table, order first second → order second first → first = second

theorem Ordered.of_perm {table table' : List α} (h : Ordered order table)
    (hperm : table.Perm table') : Ordered order table' := by
  intro first hfirst second hsecond
  exact h first (hperm.mem_iff.mpr hfirst) second (hperm.mem_iff.mpr hsecond)

variable [DecidableRel order]

/-- The rows of a table up to a row. -/
def upTo (order : α → α → Prop) [DecidableRel order] (table : List α) (row : α) : List α :=
  table.filter fun other ↦ order other row

theorem mem_upTo {table : List α} {row other : α} :
    other ∈ upTo order table row ↔ other ∈ table ∧ order other row := by
  simp [upTo]

theorem nodup_upTo {table : List α} (h : table.Nodup) (row : α) : (upTo order table row).Nodup :=
  h.filter _

/-- In a sorted table the rows up to a row are the prefix that ends with it. -/
theorem filter_order_eq {first second : List α} {row : α}
    (hsorted : (first ++ row :: second).Pairwise order) (hnodup : (first ++ row :: second).Nodup)
    (hordered : Ordered order (first ++ row :: second)) (hrefl : order row row) :
    upTo order (first ++ row :: second) row = first ++ [row] := by
  obtain ⟨-, hrest, hcross⟩ := List.pairwise_append.mp hsorted
  obtain ⟨hafter, -⟩ := List.pairwise_cons.mp hrest
  have hfirst : first.filter (fun other ↦ decide (order other row)) = first := by
    rw [List.filter_eq_self]
    intro other hother
    exact decide_eq_true (hcross other hother row List.mem_cons_self)
  have hsecond : second.filter (fun other ↦ decide (order other row)) = [] := by
    rw [List.filter_eq_nil_iff]
    intro other hother hbefore
    have heq := hordered row (by simp) other (by simp [hother]) (hafter other hother)
      (of_decide_eq_true hbefore)
    rw [List.nodup_append] at hnodup
    exact (List.nodup_cons.mp hnodup.2.1).1 (heq ▸ hother)
  unfold upTo
  rw [List.filter_append, List.filter_cons, hfirst, hsecond, if_pos (decide_eq_true hrefl)]

theorem mem_take_of_split {first second : List α} {row : α} {limit : ℕ}
    (hnodup : (first ++ row :: second).Nodup) :
    row ∈ (first ++ row :: second).take limit ↔ first.length < limit := by
  rw [List.nodup_append] at hnodup
  obtain ⟨-, -, hdisjoint⟩ := hnodup
  have hfree : row ∉ first := fun hmem ↦ hdisjoint row hmem row List.mem_cons_self rfl
  by_cases hlimit : first.length < limit
  · obtain ⟨extra, rfl⟩ := Nat.exists_eq_add_of_lt hlimit
    rw [Nat.add_assoc, List.take_length_add_append]
    simp
  · rw [List.take_append_of_le_length (by omega)]
    simp only [hlimit, iff_false]
    exact fun hmem ↦ hfree (List.mem_of_mem_take hmem)

theorem exists_prefix_of_mem {table : List α} {row : α} (hrow : row ∈ table) :
    ∃ first, first ++ [row] <+: table.insertionSort order := by
  have hsort := List.perm_insertionSort order table
  obtain ⟨first, second, hsplit⟩ := List.append_of_mem (hsort.mem_iff.mpr hrow)
  refine ⟨first, second, ?_⟩
  rw [hsplit, List.append_assoc, List.singleton_append]

section

variable [Std.Total order] [IsTrans α order] {table : List α} {row : α}

/-- A row is among the first rows of the sorted table exactly when few rows are up to it. -/
theorem mem_take_insertionSort (hnodup : table.Nodup) (hordered : Ordered order table) {limit : ℕ} :
    row ∈ (table.insertionSort order).take limit ↔
      row ∈ table ∧ (upTo order table row).length ≤ limit := by
  have hperm := List.perm_insertionSort order table
  have hcount : (upTo order (table.insertionSort order) row).length =
      (upTo order table row).length := (hperm.filter _).length_eq
  by_cases hmem : row ∈ table
  · obtain ⟨first, second, hsplit⟩ := List.append_of_mem (hperm.mem_iff.mpr hmem)
    have hsorted := List.pairwise_insertionSort order table
    have hnodup' := hperm.nodup_iff.mpr hnodup
    have hordered' := hordered.of_perm hperm.symm
    rw [← hcount]
    rw [hsplit] at hsorted hnodup' hordered' ⊢
    rw [mem_take_of_split hnodup', filter_order_eq hsorted hnodup' hordered' (refl_of order row)]
    rw [List.length_append, List.length_singleton, Nat.lt_iff_add_one_le]
    exact (and_iff_right hmem).symm
  · have hout : row ∉ (table.insertionSort order).take limit :=
      fun h ↦ hmem (hperm.mem_iff.mp (List.mem_of_mem_take h))
    simp [hmem, hout]

/-- A table that is not empty has a first row. -/
theorem exists_first (hrow : row ∈ table) :
    ∃ first ∈ table, ∀ other ∈ table, order first other := by
  have hsort := List.perm_insertionSort order table
  have hsorted := List.pairwise_insertionSort order table
  cases hlist : table.insertionSort order with
  | nil => exact absurd (hsort.mem_iff.mpr hrow) (by simp [hlist])
  | cons first rest =>
    rw [hlist] at hsort hsorted
    refine ⟨first, hsort.mem_iff.mp List.mem_cons_self, fun other hother ↦ ?_⟩
    rcases List.mem_cons.mp (hsort.mem_iff.mpr hother) with rfl | hrest
    · exact refl_of order other
    · exact (List.pairwise_cons.mp hsorted).1 other hrest

/-- A prefix of the sorted table holds the rows up to its last row. -/
theorem perm_upTo_of_prefix (hnodup : table.Nodup) (hordered : Ordered order table) {first : List α}
    (h : first ++ [row] <+: table.insertionSort order) :
    (first ++ [row]).Perm (upTo order table row) := by
  have hsort := List.perm_insertionSort order table
  have hsorted := List.pairwise_insertionSort order table
  have hnodup' := hsort.nodup_iff.mpr hnodup
  have hordered' := hordered.of_perm hsort.symm
  have hfilter := hsort.filter fun other ↦ decide (order other row)
  obtain ⟨second, hsplit⟩ := h
  rw [List.append_assoc, List.singleton_append] at hsplit
  rw [← hsplit] at hsorted hnodup' hordered' hfilter
  have heq := filter_order_eq hsorted hnodup' hordered' (refl_of order row)
  exact heq ▸ hfilter

/-- A page that leaves a row out is full, and what is on it comes before that row. -/
theorem mem_page_or_full (hrow : row ∈ table) (limit : ℕ) :
    row ∈ (table.insertionSort order).take limit ∨
      (((table.insertionSort order).take limit).length = limit ∧
        ∀ other ∈ (table.insertionSort order).take limit, order other row) := by
  have hsorted := List.pairwise_insertionSort order table
  have hmem := (List.perm_insertionSort order table).mem_iff.mpr hrow
  rw [← List.take_append_drop limit (table.insertionSort order)] at hsorted hmem
  rcases List.mem_append.mp hmem with htake | hdrop
  · exact .inl htake
  · right
    have hlength := List.length_pos_of_mem hdrop
    rw [List.length_drop] at hlength
    refine ⟨?_, fun other hother ↦ (List.pairwise_append.mp hsorted).2.2 other hother row hdrop⟩
    rw [List.length_take]
    omega

end

end Relational
