import Mathlib.Data.List.Nodup
import Mathlib.Tactic.Common

/-!
# Chunks of a list

`chunks size list` cuts a list into pieces of `size` elements, the last of which may be shorter: the
slices at the offsets `0, size, 2 * size, …`.
-/

set_option autoImplicit false

namespace Relational

variable {α : Type}

/-- The slices of a list at the multiples of a size. -/
def chunks (size : ℕ) (list : List α) : List (List α) :=
  (List.range ((list.length + size - 1) / size)).map fun index ↦ (list.drop (index * size)).take size

theorem flatten_map_take_drop (size : ℕ) (list : List α) (count : ℕ) :
    ((List.range count).map fun index ↦ (list.drop (index * size)).take size).flatten =
      list.take (count * size) := by
  induction count with
  | zero => simp
  | succ count ih =>
    rw [List.range_succ, List.map_append, List.flatten_append, ih, List.map_singleton,
      List.flatten_singleton, Nat.succ_mul, List.take_add]

/-- The chunks together are the list. -/
theorem flatten_chunks {size : ℕ} (hsize : 0 < size) (list : List α) :
    (chunks size list).flatten = list := by
  unfold chunks
  rw [flatten_map_take_drop]
  refine List.take_of_length_le ?_
  have hdiv := Nat.div_add_mod (list.length + size - 1) size
  have hmod := Nat.mod_lt (list.length + size - 1) hsize
  rw [Nat.mul_comm]
  omega

/-- No chunk is empty. -/
theorem ne_nil_of_mem_chunks {size : ℕ} {list chunk : List α} (h : chunk ∈ chunks size list) :
    chunk ≠ [] := by
  obtain ⟨index, hindex, rfl⟩ := List.mem_map.mp h
  have hlt := List.mem_range.mp hindex
  have hsize : 0 < size := by
    rcases Nat.eq_zero_or_pos size with hzero | hpos
    · simp [hzero] at hlt
    · exact hpos
  have hle := (Nat.le_div_iff_mul_le hsize).mp (Nat.succ_le_of_lt hlt)
  rw [Nat.succ_mul] at hle
  rw [← List.length_pos_iff, List.length_take, List.length_drop]
  omega

end Relational
