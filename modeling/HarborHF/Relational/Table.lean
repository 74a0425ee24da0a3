import Mathlib.Data.List.Nodup
import Mathlib.Data.List.Perm.Subperm
import Mathlib.Tactic.Common

/-!
# Tables with a primary key

A table is a list of rows in the order of insertion, with a key read off each row. `insertRow`
refuses a row whose key is taken, `lookup` finds the row of a key and `Keyed` says that no two rows
share one. The lemmas say what insertion keeps, that lookup in a keyed table is membership, and that
a keyed table is determined up to order by its members (`Keyed.perm`).
-/

set_option autoImplicit false

namespace Relational

variable {α κ : Type} {key : α → κ} {row : α} {table table' : List α}

/-- No two rows of the table share a key. -/
def Keyed (key : α → κ) (table : List α) : Prop := (table.map key).Nodup

theorem Keyed.eq_of_mem (h : Keyed key table) {first second : α} (hfirst : first ∈ table)
    (hsecond : second ∈ table) (hkey : key first = key second) : first = second :=
  List.inj_on_of_nodup_map h hfirst hsecond hkey

theorem Keyed.nodup (h : Keyed key table) : table.Nodup := List.Nodup.of_map key h

theorem Keyed.of_perm (h : Keyed key table) (hperm : table.Perm table') : Keyed key table' :=
  (hperm.map key).nodup_iff.mp h

theorem Keyed.sublist (h : Keyed key table) (hsublist : table'.Sublist table) : Keyed key table' :=
  List.Nodup.sublist (hsublist.map key) h

theorem Keyed.perm (h : Keyed key table) (h' : Keyed key table')
    (hmem : ∀ row, row ∈ table ↔ row ∈ table') : table.Perm table' :=
  (List.perm_ext_iff_of_nodup h.nodup h'.nodup).mpr hmem

/-- A keyed table is no longer than one that has all its keys. -/
theorem Keyed.length_le (h : Keyed key table)
    (hmem : ∀ row ∈ table, ∃ other ∈ table', key other = key row) :
    table.length ≤ table'.length := by
  have hsubset : table.map key ⊆ table'.map key := by
    intro k hk
    obtain ⟨row, hrow, rfl⟩ := List.mem_map.mp hk
    obtain ⟨other, hother, hkey⟩ := hmem row hrow
    exact List.mem_map.mpr ⟨other, hother, hkey⟩
  have hlength := (List.subperm_of_subset h hsubset).length_le
  rwa [List.length_map, List.length_map] at hlength

variable [DecidableEq κ]

/-- Insert a row, unless its key is taken. -/
def insertRow (key : α → κ) (row : α) (table : List α) : Option (List α) :=
  if table.any fun other ↦ key other = key row then none else some (table ++ [row])

/-- The row of a key. -/
def lookup (key : α → κ) (k : κ) (table : List α) : Option α := table.find? fun row ↦ key row = k

theorem insertRow_eq_some : insertRow key row table = some table' ↔
      (∀ other ∈ table, key other ≠ key row) ∧ table' = table ++ [row] := by
  unfold insertRow
  split_ifs with h
  · simp only [List.any_eq_true, decide_eq_true_eq] at h
    obtain ⟨other, hother, hkey⟩ := h
    constructor
    · intro hnone
      cases hnone
    · rintro ⟨hfree, -⟩
      exact absurd hkey (hfree other hother)
  · simp only [List.any_eq_true, decide_eq_true_eq, not_exists, not_and] at h
    exact ⟨fun hsome ↦ ⟨h, (Option.some.inj hsome).symm⟩, fun hfree ↦ by rw [hfree.2]⟩

theorem insertRow_eq_none :
    insertRow key row table = none ↔ ∃ other ∈ table, key other = key row := by
  unfold insertRow
  split_ifs with h
  · simpa using h
  · simpa using h

theorem Keyed.insertRow (h : Keyed key table) (hinsert : insertRow key row table = some table') :
    Keyed key table' := by
  obtain ⟨hfree, rfl⟩ := insertRow_eq_some.mp hinsert
  unfold Keyed at h ⊢
  rw [List.map_append, List.nodup_append]
  refine ⟨h, by simp, ?_⟩
  intro k hk k' hk'
  obtain ⟨other, hother, rfl⟩ := List.mem_map.mp hk
  simp only [List.map_cons, List.map_nil, List.mem_singleton] at hk'
  rw [hk']
  exact hfree other hother

theorem lookup_mem {k : κ} (h : lookup key k table = some row) : row ∈ table ∧ key row = k := by
  unfold lookup at h
  exact ⟨List.mem_of_find?_eq_some h, by simpa using List.find?_some h⟩

theorem lookup_eq_none {k : κ} : lookup key k table = none ↔ ∀ row ∈ table, key row ≠ k := by
  unfold lookup
  simp

theorem Keyed.lookup_eq_some (h : Keyed key table) {k : κ} :
    lookup key k table = some row ↔ row ∈ table ∧ key row = k := by
  constructor
  · exact lookup_mem
  · rintro ⟨hmem, rfl⟩
    cases hfind : lookup key (key row) table with
    | none => exact absurd rfl (lookup_eq_none.mp hfind row hmem)
    | some other =>
      obtain ⟨hother, hkey⟩ := lookup_mem hfind
      rw [h.eq_of_mem hother hmem hkey]

theorem Keyed.lookup_perm (h : Keyed key table) (hperm : table.Perm table') (k : κ) :
    lookup key k table = lookup key k table' := by
  cases hfind : lookup key k table with
  | none =>
    symm
    rw [lookup_eq_none] at hfind ⊢
    exact fun row hrow ↦ hfind row (hperm.mem_iff.mpr hrow)
  | some row =>
    symm
    rw [(h.of_perm hperm).lookup_eq_some]
    obtain ⟨hmem, hkey⟩ := lookup_mem hfind
    exact ⟨hperm.mem_iff.mp hmem, hkey⟩

end Relational
