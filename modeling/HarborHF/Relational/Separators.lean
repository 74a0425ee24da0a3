import Mathlib.Data.List.TakeWhile
import Mathlib.Tactic.Common

/-!
# Cutting a list at a separator

The part of a list before the first occurrence of a separator and the part from it on; the parts
before and after its last occurrence. A list without the separator is all before the first and all
after the last.
-/

set_option autoImplicit false

namespace Relational

variable {α : Type} [DecidableEq α]

def beforeFirst (sep : α) (list : List α) : List α := list.takeWhile (· ≠ sep)

def fromFirst (sep : α) (list : List α) : List α := list.dropWhile (· ≠ sep)

def afterLast (sep : α) (list : List α) : List α := (list.reverse.takeWhile (· ≠ sep)).reverse

/-- Nothing when the separator does not occur. -/
def beforeLast (sep : α) (list : List α) : List α :=
  ((list.reverse.dropWhile (· ≠ sep)).drop 1).reverse

section First

variable (sep : α)

@[simp] theorem beforeFirst_append_fromFirst (list : List α) :
    beforeFirst sep list ++ fromFirst sep list = list :=
  List.takeWhile_append_dropWhile

theorem notMem_beforeFirst (list : List α) : sep ∉ beforeFirst sep list := by
  intro h
  simpa using List.mem_takeWhile_imp h

theorem beforeFirst_of_notMem {list : List α} (h : sep ∉ list) : beforeFirst sep list = list := by
  refine List.takeWhile_eq_self_iff.mpr fun item hitem ↦ ?_
  have hne : item ≠ sep := fun heq ↦ h (heq ▸ hitem)
  simpa using hne

theorem beforeFirst_append_cons {first : List α} (h : sep ∉ first) (rest : List α) :
    beforeFirst sep (first ++ sep :: rest) = first := by
  have hfirst : ∀ item ∈ first, decide (item ≠ sep) = true := by
    intro item hitem
    have hne : item ≠ sep := fun heq ↦ h (heq ▸ hitem)
    simpa using hne
  unfold beforeFirst
  rw [List.takeWhile_append_of_pos hfirst]
  simp

theorem fromFirst_append_cons {first : List α} (h : sep ∉ first) (rest : List α) :
    fromFirst sep (first ++ sep :: rest) = sep :: rest := by
  have hsplit := beforeFirst_append_fromFirst sep (first ++ sep :: rest)
  rw [beforeFirst_append_cons sep h] at hsplit
  exact List.append_cancel_left hsplit

theorem beforeFirst_append_sep (list rest : List α) :
    beforeFirst sep (list ++ sep :: rest) = beforeFirst sep list := by
  by_cases h : sep ∈ list
  · obtain ⟨first, tail, rfl, hfirst⟩ := List.eq_append_cons_of_mem h
    rw [List.append_assoc, List.cons_append, beforeFirst_append_cons sep hfirst,
      beforeFirst_append_cons sep hfirst]
  · rw [beforeFirst_append_cons sep h, beforeFirst_of_notMem sep h]

theorem beforeFirst_append {first : List α} (h : sep ∉ first) (list : List α) :
    beforeFirst sep (first ++ list) = first ++ beforeFirst sep list := by
  refine List.takeWhile_append_of_pos fun item hitem ↦ ?_
  have hne : item ≠ sep := fun heq ↦ h (heq ▸ hitem)
  simpa using hne

/-- Either the separator does not occur, or the list is cut at its first occurrence. -/
theorem fromFirst_eq_nil_or (list : List α) :
    fromFirst sep list = [] ∨ ∃ rest, fromFirst sep list = sep :: rest := by
  by_cases h : sep ∈ list
  · obtain ⟨first, rest, rfl, hfirst⟩ := List.eq_append_cons_of_mem h
    exact .inr ⟨rest, fromFirst_append_cons sep hfirst rest⟩
  · refine .inl (List.dropWhile_eq_nil_iff.mpr fun item hitem ↦ ?_)
    have hne : item ≠ sep := fun heq ↦ h (heq ▸ hitem)
    simpa using hne

theorem append_cons_of_mem {list : List α} (h : sep ∈ list) :
    list = beforeFirst sep list ++ sep :: (fromFirst sep list).drop 1 := by
  obtain ⟨first, rest, rfl, hfirst⟩ := List.eq_append_cons_of_mem h
  rw [beforeFirst_append_cons sep hfirst, fromFirst_append_cons sep hfirst, List.drop_one,
    List.tail_cons]

end First

section Last

variable (sep : α) {list : List α}

omit [DecidableEq α] in
theorem exists_last (h : sep ∈ list) : ∃ front back, list = front ++ sep :: back ∧ sep ∉ back := by
  obtain ⟨back, front, hreverse, hback⟩ := List.eq_append_cons_of_mem (List.mem_reverse.mpr h)
  refine ⟨front.reverse, back.reverse, ?_, by simpa using hback⟩
  rw [← List.reverse_reverse list, hreverse]
  simp

theorem afterLast_append_cons (front : List α) {back : List α} (h : sep ∉ back) :
    afterLast sep (front ++ sep :: back) = back := by
  have hback : beforeFirst sep (back.reverse ++ sep :: front.reverse) = back.reverse :=
    beforeFirst_append_cons sep (by simpa using h) front.reverse
  have hreverse : (front ++ sep :: back).reverse = back.reverse ++ sep :: front.reverse := by simp
  unfold afterLast
  rw [hreverse]
  unfold beforeFirst at hback
  rw [hback, List.reverse_reverse]

theorem beforeLast_append_cons (front : List α) {back : List α} (h : sep ∉ back) :
    beforeLast sep (front ++ sep :: back) = front := by
  have hback : fromFirst sep (back.reverse ++ sep :: front.reverse) = sep :: front.reverse :=
    fromFirst_append_cons sep (by simpa using h) front.reverse
  have hreverse : (front ++ sep :: back).reverse = back.reverse ++ sep :: front.reverse := by simp
  unfold beforeLast
  rw [hreverse]
  unfold fromFirst at hback
  rw [hback, List.drop_one, List.tail_cons, List.reverse_reverse]

theorem afterLast_of_notMem (h : sep ∉ list) : afterLast sep list = list := by
  have hlist : beforeFirst sep list.reverse = list.reverse :=
    beforeFirst_of_notMem sep (by simpa using h)
  unfold beforeFirst at hlist
  unfold afterLast
  rw [hlist, List.reverse_reverse]

theorem beforeLast_append_afterLast (h : sep ∈ list) :
    beforeLast sep list ++ sep :: afterLast sep list = list := by
  obtain ⟨front, back, rfl, hback⟩ := exists_last sep h
  rw [beforeLast_append_cons sep front hback, afterLast_append_cons sep front hback]

/-- Only the part after a separator decides what is after the last. -/
theorem afterLast_append_sep (front list : List α) :
    afterLast sep (front ++ sep :: list) = afterLast sep list := by
  by_cases h : sep ∈ list
  · obtain ⟨middle, back, rfl, hback⟩ := exists_last sep h
    have hassoc : front ++ sep :: (middle ++ sep :: back) =
        (front ++ sep :: middle) ++ sep :: back := by simp
    rw [hassoc, afterLast_append_cons sep _ hback, afterLast_append_cons sep _ hback]
  · rw [afterLast_append_cons sep front h, afterLast_of_notMem sep h]

/-- A part without the separator stays at the end. -/
theorem afterLast_append (list : List α) {back : List α} (h : sep ∉ back) :
    afterLast sep (list ++ back) = afterLast sep list ++ back := by
  by_cases hmem : sep ∈ list
  · obtain ⟨front, tail, rfl, htail⟩ := exists_last sep hmem
    have hnot : sep ∉ tail ++ back := by simp [htail, h]
    rw [List.append_assoc, List.cons_append, afterLast_append_cons sep front hnot,
      afterLast_append_cons sep front htail]
  · have hnot : sep ∉ list ++ back := by simp [hmem, h]
    rw [afterLast_of_notMem sep hnot, afterLast_of_notMem sep hmem]

theorem beforeLast_append_of_mem (front : List α) (h : sep ∈ list) :
    beforeLast sep (front ++ list) = front ++ beforeLast sep list := by
  obtain ⟨middle, back, rfl, hback⟩ := exists_last sep h
  rw [← List.append_assoc, beforeLast_append_cons sep _ hback, beforeLast_append_cons sep _ hback]

theorem beforeLast_append_of_notMem {list back : List α} (h : sep ∈ list) (hback : sep ∉ back) :
    beforeLast sep (list ++ back) = beforeLast sep list := by
  obtain ⟨front, tail, rfl, htail⟩ := exists_last sep h
  have hnot : sep ∉ tail ++ back := by simp [htail, hback]
  rw [List.append_assoc, List.cons_append, beforeLast_append_cons sep front hnot,
    beforeLast_append_cons sep front htail]

theorem mem_of_mem_beforeLast {item : α} (h : item ∈ beforeLast sep list) : item ∈ list := by
  unfold beforeLast at h
  rw [List.mem_reverse] at h
  exact List.mem_reverse.mp (List.dropWhile_sublist _ |>.mem (List.mem_of_mem_drop h))

theorem mem_of_mem_afterLast {item : α} (h : item ∈ afterLast sep list) : item ∈ list := by
  unfold afterLast at h
  rw [List.mem_reverse] at h
  exact List.mem_reverse.mp (List.takeWhile_sublist _ |>.mem h)

theorem length_beforeLast_lt (h : sep ∈ list) : (beforeLast sep list).length < list.length := by
  have hsplit := congrArg List.length (beforeLast_append_afterLast sep h)
  rw [List.length_append, List.length_cons] at hsplit
  omega

end Last

section Infix

variable {sep : α} {part first rest : List α}

end Infix

end Relational
