import Mathlib.Tactic.Common
import Mathlib.Data.Int.Order.Basic

/-!
# The last number that is accepted

A bisection of a range of integers that keeps something for the last number it has accepted. Where
no number is accepted above one that is not, it ends with the greatest number of the range that is
accepted (`search_of_accepted`), and with what it began with where none is (`search_of_rejected`).
-/

set_option autoImplicit false

namespace Bisection

variable {α : Type}

/-- The search from `low` to `high`, both included. -/
def search (accept : ℤ → Bool) (keep : ℤ → α) (low high : ℤ) (selected : α) : α :=
  if low ≤ high then
    if accept ((low + high) / 2) then
      search accept keep ((low + high) / 2 + 1) high (keep ((low + high) / 2))
    else search accept keep low ((low + high) / 2 - 1) selected
  else selected
termination_by (high + 1 - low).toNat
decreasing_by
  all_goals omega

variable {accept : ℤ → Bool} {keep : ℤ → α} {low high : ℤ} {selected : α}

theorem search_of_rejected (h : ∀ count, low ≤ count → count ≤ high → accept count = false) :
    search accept keep low high selected = selected := by
  fun_induction search accept keep low high selected with
  | case1 low high selected hle haccept ih =>
    have hmiddle := h ((low + high) / 2) (by omega) (by omega)
    rw [hmiddle] at haccept
    cases haccept
  | case2 low high selected hle haccept ih =>
    exact ih fun count hlow hhigh ↦ h count hlow (by omega)
  | case3 => rfl

/-- The search keeps the greatest number of its range that is accepted, if nothing is accepted above
a number of the range that is not. -/
theorem search_of_accepted {greatest : ℤ} (hlow : low ≤ greatest) (hhigh : greatest ≤ high)
    (haccept : ∀ count, low ≤ count → count ≤ high → (accept count = true ↔ count ≤ greatest)) :
    search accept keep low high selected = keep greatest := by
  fun_induction search accept keep low high selected with
  | case1 low high selected hle hmiddle ih =>
    have hbelow : (low + high) / 2 ≤ greatest := (haccept _ (by omega) (by omega)).mp hmiddle
    rcases lt_or_eq_of_le hbelow with hlt | heq
    · exact ih (by omega) hhigh fun count hfrom hto ↦ haccept count (by omega) hto
    · -- the middle is the last one accepted, so nothing more is found above it
      rw [search_of_rejected, heq]
      intro count hfrom hto
      exact Bool.eq_false_iff.mpr fun hcount ↦ by
        have hcount := (haccept count (by omega) hto).mp hcount
        omega
  | case2 low high selected hle hmiddle ih =>
    have habove : ¬(low + high) / 2 ≤ greatest :=
      fun hbelow ↦ hmiddle ((haccept _ (by omega) (by omega)).mpr hbelow)
    exact ih hlow (by omega) fun count hfrom hto ↦ haccept count hfrom (by omega)
  | case3 low high selected hempty => omega

end Bisection
