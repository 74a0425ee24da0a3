import Mathlib.Order.Lattice
import Mathlib.Data.List.Lex
import Mathlib.Data.List.Infix

/-!
# The order of paths and the order of their texts

A path is a list of parts, and its text the parts with a separator between them. Paths are ordered by
their first different parts. The order of their texts is the same (`joined_lt_joined_iff`) unless the
smaller of these parts begins the other, the smaller path goes on behind it, and the other part goes on
with a letter below the separator (`Swapped`).
-/

set_option autoImplicit false

namespace Relational

section

variable {α : Type} (sep : α)

/-- The parts of a path behind the first, each after a separator. -/
def joinedRest : List (List α) → List α
  | [] => []
  | part :: rest => sep :: (part ++ joinedRest rest)

/-- The text of a path. -/
def joined : List (List α) → List α
  | [] => []
  | part :: rest => part ++ joinedRest sep rest

/-- A path of parts that are not empty and do not hold the separator. -/
def Proper (path : List (List α)) : Prop := ∀ part ∈ path, part ≠ [] ∧ sep ∉ part

variable {sep} {path : List (List α)}

@[simp] theorem joined_cons (part : List α) (rest : List (List α)) :
    joined sep (part :: rest) = part ++ joinedRest sep rest := rfl

theorem joinedRest_cons_eq (part : List α) (rest : List (List α)) :
    joinedRest sep (part :: rest) = sep :: joined sep (part :: rest) := rfl

theorem joinedRest_of_ne_nil (h : path ≠ []) : joinedRest sep path = sep :: joined sep path := by
  cases path with
  | nil => exact absurd rfl h
  | cons part rest => rfl

theorem mem_joined {letter : α} (h : letter ∈ joined sep path) :
    letter = sep ∨ ∃ part ∈ path, letter ∈ part := by
  induction path with
  | nil => cases h
  | cons part rest ih =>
    rcases List.mem_append.mp h with hpart | hrest
    · exact .inr ⟨part, List.mem_cons_self, hpart⟩
    · cases rest with
      | nil => cases hrest
      | cons next rest =>
        rcases List.mem_cons.mp hrest with rfl | hrest
        · exact .inl rfl
        · rcases ih hrest with rfl | ⟨other, hother, hletter⟩
          · exact .inl rfl
          · exact .inr ⟨other, List.mem_cons_of_mem _ hother, hletter⟩

theorem Proper.of_cons {part : List α} (h : Proper sep (part :: path)) :
    (part ≠ [] ∧ sep ∉ part) ∧ Proper sep path := List.forall_mem_cons.mp h

theorem joined_ne_nil (h : Proper sep path) (hne : path ≠ []) : joined sep path ≠ [] := by
  obtain ⟨part, rest, rfl⟩ := List.exists_cons_of_ne_nil hne
  intro hnil
  exact h.of_cons.1.1 (List.append_eq_nil_iff.mp hnil).1

theorem mem_joined_iff {letter : α} (hsep : letter ≠ sep) :
    letter ∈ joined sep path ↔ ∃ part ∈ path, letter ∈ part := by
  refine ⟨fun h ↦ (mem_joined h).resolve_left hsep, ?_⟩
  rintro ⟨part, hpart, hletter⟩
  induction path with
  | nil => cases hpart
  | cons first rest ih =>
    rw [joined_cons]
    rcases List.mem_cons.mp hpart with rfl | hrest
    · exact List.mem_append_left _ hletter
    · rw [joinedRest_of_ne_nil (List.ne_nil_of_mem hrest)]
      exact List.mem_append_right _ (List.mem_cons_of_mem _ (ih hrest))

/-- Splitting the text at the separators gives the parts back. -/
theorem splitOn_joined [DecidableEq α] (h : Proper sep path) (hne : path ≠ []) :
    (joined sep path).splitOn sep = path := by
  induction path with
  | nil => exact absurd rfl hne
  | cons part rest ih =>
    obtain ⟨⟨-, hsep⟩, hrest⟩ := h.of_cons
    rw [joined_cons]
    cases rest with
    | nil => rw [joinedRest, List.append_nil, List.splitOn_eq_singleton hsep]
    | cons next rest =>
      rw [joinedRest_cons_eq, List.splitOn_append_cons_self_of_not_mem hsep,
        ih hrest (List.cons_ne_nil _ _)]

end

section Order

variable {α : Type} [LinearOrder α] {sep : α} {path other : List (List α)}

/-- A list that neither begins a greater list stays below it whatever follows the two. -/
theorem append_lt_append_of_lt {first second : List α} (hlt : first < second)
    (hbegins : ¬first <+: second) (rest rest' : List α) : first ++ rest < second ++ rest' := by
  induction first generalizing second with
  | nil => exact absurd (List.nil_prefix) hbegins
  | cons letter first ih =>
    cases second with
    | nil => exact absurd hlt (List.not_lt_nil _)
    | cons letter' second =>
      rw [List.cons_append, List.cons_append, List.cons_lt_cons_iff]
      rcases List.cons_lt_cons_iff.mp hlt with hletter | ⟨rfl, htail⟩
      · exact .inl hletter
      · refine .inr ⟨rfl, ih htail fun h ↦ hbegins ?_⟩
        exact List.cons_prefix_cons.mpr ⟨rfl, h⟩

theorem append_lt_append_iff (shared first second : List α) :
    shared ++ first < shared ++ second ↔ first < second := by
  induction shared with
  | nil => rfl
  | cons letter shared ih => simp [ih]

/-- The two paths share their first parts, then one goes through a part to further parts and the other
through a part that goes on with a letter below the separator. -/
def Swapped (sep : α) (path other : List (List α)) : Prop :=
  ∃ shared part next more letter tail rest, path = shared ++ part :: next :: more ∧
    other = shared ++ (part ++ letter :: tail) :: rest ∧ letter < sep

theorem Swapped.lt (h : Swapped sep path other) : path < other := by
  obtain ⟨shared, part, next, more, letter, tail, rest, rfl, rfl, -⟩ := h
  rw [append_lt_append_iff, List.cons_lt_cons_iff]
  have hpart : part ++ [] < part ++ letter :: tail :=
    (append_lt_append_iff _ _ _).mpr (List.nil_lt_cons _ _)
  rw [List.append_nil] at hpart
  exact .inl hpart

theorem swapped_cons_iff {part : List α} :
    Swapped sep (part :: path) (part :: other) ↔ Swapped sep path other := by
  constructor
  · rintro ⟨shared, part', next, more, letter, tail, rest, hpath, hother, hletter⟩
    cases shared with
    | nil =>
      have hpart := (List.cons.inj hpath).1.symm.trans (List.cons.inj hother).1
      simp at hpart
    | cons first shared =>
      exact ⟨shared, part', next, more, letter, tail, rest, (List.cons.inj hpath).2,
        (List.cons.inj hother).2, hletter⟩
  · rintro ⟨shared, part', next, more, letter, tail, rest, rfl, rfl, hletter⟩
    exact ⟨part :: shared, part', next, more, letter, tail, rest, rfl, rfl, hletter⟩

theorem swapped_cons_of_ne {part part' : List α} (hne : part ≠ part') :
    Swapped sep (part :: path) (part' :: other) ↔
      path ≠ [] ∧ ∃ letter tail, part' = part ++ letter :: tail ∧ letter < sep := by
  constructor
  · rintro ⟨shared, first, next, more, letter, tail, rest, hpath, hother, hletter⟩
    cases shared with
    | nil =>
      obtain ⟨rfl, rfl⟩ := List.cons.inj hpath
      exact ⟨List.cons_ne_nil _ _, letter, tail, (List.cons.inj hother).1, hletter⟩
    | cons begin shared =>
      exact absurd ((List.cons.inj hpath).1.trans (List.cons.inj hother).1.symm) hne
  · rintro ⟨hpath, letter, tail, rfl, hletter⟩
    obtain ⟨next, more, rfl⟩ := List.exists_cons_of_ne_nil hpath
    exact ⟨[], part, next, more, letter, tail, other, rfl, rfl, hletter⟩

/-- The texts of two different paths are ordered as the paths are, or the other way if they are
swapped. -/
theorem joined_lt_or_gt (hpath : Proper sep path) (hother : Proper sep other) (hlt : path < other) :
    (¬Swapped sep path other ∧ joined sep path < joined sep other) ∨
      (Swapped sep path other ∧ joined sep other < joined sep path) := by
  induction path generalizing other with
  | nil =>
    have hne : other ≠ [] := by
      rintro rfl
      exact lt_irrefl _ hlt
    obtain ⟨letter, text, htext⟩ := List.exists_cons_of_ne_nil (joined_ne_nil hother hne)
    refine .inl ⟨?_, htext ▸ List.nil_lt_cons _ _⟩
    rintro ⟨shared, part, next, more, letter, tail, rest, hnil, -, -⟩
    simp at hnil
  | cons part path ih =>
    cases other with
    | nil => exact absurd hlt (List.not_lt_nil _)
    | cons part' other =>
      obtain ⟨-, hrest⟩ := hpath.of_cons
      obtain ⟨⟨-, hsep⟩, hrest'⟩ := hother.of_cons
      rcases List.cons_lt_cons_iff.mp hlt with hpart | ⟨rfl, htail⟩
      · rw [swapped_cons_of_ne hpart.ne, joined_cons, joined_cons]
        by_cases hbegins : part <+: part'
        · obtain ⟨tail, rfl⟩ := hbegins
          cases tail with
          | nil => simp at hpart
          | cons letter tail =>
            have hletter : letter ≠ sep := by
              rintro rfl
              exact hsep (by simp)
            rw [List.append_assoc, append_lt_append_iff, append_lt_append_iff, List.cons_append]
            cases path with
            | nil => exact .inl ⟨by simp, List.nil_lt_cons _ _⟩
            | cons next path =>
              rw [joinedRest, List.cons_lt_cons_iff, List.cons_lt_cons_iff]
              rcases lt_or_gt_of_ne hletter with hbelow | habove
              · exact .inr ⟨⟨List.cons_ne_nil _ _, letter, tail, rfl, hbelow⟩, .inl hbelow⟩
              · refine .inl ⟨?_, .inl habove⟩
                rintro ⟨-, letter', tail', hsplit, hbelow⟩
                have hcons := List.append_cancel_left hsplit
                rw [(List.cons.inj hcons).1] at habove
                exact lt_asymm hbelow habove
        · refine .inl ⟨?_, append_lt_append_of_lt hpart hbegins _ _⟩
          rintro ⟨-, letter, tail, rfl, -⟩
          exact hbegins (List.prefix_append _ _)
      · rw [swapped_cons_iff, joined_cons, joined_cons, append_lt_append_iff, append_lt_append_iff]
        have hne : other ≠ [] := by
          rintro rfl
          exact absurd htail (List.not_lt_nil _)
        rw [joinedRest_of_ne_nil hne]
        cases path with
        | nil =>
          refine .inl ⟨?_, List.nil_lt_cons _ _⟩
          rintro ⟨shared, part, next, more, letter, tail, rest, hnil, -, -⟩
          simp at hnil
        | cons next path =>
          rw [joinedRest_cons_eq]
          simpa [List.cons_lt_cons_iff] using ih hrest hrest' htail

theorem joined_lt_joined_iff (hpath : Proper sep path)
    (hother : Proper sep other) (hlt : path < other) :
    joined sep path < joined sep other ↔ ¬Swapped sep path other := by
  rcases joined_lt_or_gt hpath hother hlt with ⟨hnot, horder⟩ | ⟨hswapped, horder⟩
  · exact ⟨fun _ ↦ hnot, fun _ ↦ horder⟩
  · exact ⟨fun h ↦ absurd h (lt_asymm horder), fun h ↦ absurd hswapped h⟩

/-- Different paths have different texts. -/
theorem joined_injective (hpath : Proper sep path)
    (hother : Proper sep other) (h : joined sep path = joined sep other) : path = other := by
  rcases lt_trichotomy path other with hlt | heq | hgt
  · rcases joined_lt_or_gt hpath hother hlt with ⟨-, horder⟩ | ⟨-, horder⟩
    · exact absurd h horder.ne
    · exact absurd h horder.ne'
  · exact heq
  · rcases joined_lt_or_gt hother hpath hgt with ⟨-, horder⟩ | ⟨-, horder⟩
    · exact absurd h horder.ne'
    · exact absurd h horder.ne

end Order

end Relational
