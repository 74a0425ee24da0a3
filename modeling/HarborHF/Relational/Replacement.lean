import Mathlib.Data.List.Infix
import Mathlib.Tactic.Common

/-!
# Replacement in a text

`replaceAll needle mark text` replaces the occurrences of a needle from the left, none of which
overlaps the one before. A text that comes in pieces is replaced with what may still begin an
occurrence carried over. What is known of a text after replacements of several needles is stated of an
annotated text, whose inserted words are kept apart from its own letters.
-/

set_option autoImplicit false

namespace Relational

variable {α : Type} [DecidableEq α]

/-! ### Occurrences -/

/-- The first position of a needle. -/
def position (needle : List α) : List α → Option ℕ
  | [] => if needle = [] then some 0 else none
  | letter :: text =>
    if needle <+: letter :: text then some 0 else (position needle text).map (· + 1)

/-- The text with the occurrences of a needle replaced, the first letters skipped. -/
def replaceFrom (needle mark : List α) : ℕ → List α → List α
  | _, [] => []
  | skipped + 1, _ :: text => replaceFrom needle mark skipped text
  | 0, letter :: text =>
    if needle <+: letter :: text then
      mark ++ replaceFrom needle mark (needle.length - 1) text
    else letter :: replaceFrom needle mark 0 text

/-- The text with the occurrences of a needle replaced from the left. -/
def replaceAll (needle mark text : List α) : List α :=
  replaceFrom needle mark 0 text

variable {needle mark text rest : List α} {index count : ℕ}

omit [DecidableEq α] in
theorem infix_iff_prefix_drop : needle <:+: text ↔ ∃ index, needle <+: text.drop index := by
  constructor
  · rintro ⟨before, after, rfl⟩
    refine ⟨before.length, after, ?_⟩
    rw [List.append_assoc, List.drop_left]
  · rintro ⟨index, hbegins⟩
    exact hbegins.isInfix.trans (List.drop_suffix index text).isInfix

omit [DecidableEq α] in
theorem length_add_le_of_prefix_drop (hneedle : needle ≠ []) (h : needle <+: text.drop index) :
    index + needle.length ≤ text.length := by
  have hle := h.length_le
  have hpos := List.length_pos_iff.mpr hneedle
  rw [List.length_drop] at hle
  omega

omit [DecidableEq α] in
theorem prefix_drop_append_iff (hle : index + needle.length ≤ text.length) :
    needle <+: (text ++ rest).drop index ↔ needle <+: text.drop index := by
  rw [List.drop_append_of_le_length (by omega)]
  refine ⟨fun h ↦ ?_, fun h ↦ h.trans (List.prefix_append _ _)⟩
  exact List.prefix_of_prefix_length_le h (List.prefix_append _ _)
    (by rw [List.length_drop]; omega)

theorem position_eq_none_iff : position needle text = none ↔ ¬needle <:+: text := by
  induction text with
  | nil =>
    unfold position
    split_ifs with hnil
    · simp [hnil]
    · simpa using hnil
  | cons letter text ih =>
    unfold position
    rw [List.infix_cons_iff]
    split_ifs with hbegins
    · simp [hbegins]
    · simp [hbegins, ih]

/-- The position found is that of an occurrence, and none begins before. -/
theorem position_eq_some (h : position needle text = some index) :
    needle <+: text.drop index ∧ ∀ earlier < index, ¬needle <+: text.drop earlier := by
  induction text generalizing index with
  | nil =>
    unfold position at h
    split_ifs at h with hnil
    obtain rfl := Option.some.inj h
    exact ⟨by simp [hnil], by simp⟩
  | cons letter text ih =>
    unfold position at h
    split_ifs at h with hbegins
    · obtain rfl := Option.some.inj h
      exact ⟨hbegins, by simp⟩
    · obtain ⟨found, hfound, rfl⟩ := Option.map_eq_some_iff.mp h
      obtain ⟨hoccurs, hbefore⟩ := ih hfound
      refine ⟨hoccurs, fun earlier hearlier ↦ ?_⟩
      cases earlier with
      | zero => exact hbegins
      | succ earlier => exact hbefore earlier (by omega)

/-! ### What a replacement gives -/

omit [DecidableEq α] in
/-- A text is read from the left: an occurrence at once, or a letter that begins none. -/
theorem replacement_induction (hneedle : needle ≠ []) {motive : List α → Prop} (nil : motive [])
    (occurrence : ∀ rest, motive rest → motive (needle ++ rest))
    (letter : ∀ letter rest, ¬needle <+: letter :: rest → motive rest → motive (letter :: rest))
    (text : List α) : motive text := by
  induction hlength : text.length using Nat.strong_induction_on generalizing text with
  | _ length ih =>
    subst hlength
    by_cases hbegins : needle <+: text
    · obtain ⟨rest, rfl⟩ := hbegins
      have hpos := List.length_pos_iff.mpr hneedle
      exact occurrence rest (ih rest.length (by rw [List.length_append]; omega) rest rfl)
    · cases text with
      | nil => exact nil
      | cons first rest => exact letter first rest hbegins (ih rest.length (by simp) rest rfl)

theorem replaceFrom_eq_drop (skipped : ℕ) :
    replaceFrom needle mark skipped text = replaceAll needle mark (text.drop skipped) := by
  induction text generalizing skipped with
  | nil => simp [replaceFrom, replaceAll]
  | cons letter text ih =>
    cases skipped with
    | zero => rfl
    | succ skipped => exact ih skipped

theorem replaceAll_cons (letter : α) (h : ¬needle <+: letter :: text) :
    replaceAll needle mark (letter :: text) = letter :: replaceAll needle mark text := by
  rw [replaceAll, replaceFrom, if_neg h, replaceAll]

@[simp]
theorem replaceAll_nil : replaceAll needle mark [] = [] := rfl

theorem replaceAll_append (hneedle : needle ≠ []) :
    replaceAll needle mark (needle ++ text) = mark ++ replaceAll needle mark text := by
  obtain ⟨letter, tail, rfl⟩ := List.exists_cons_of_ne_nil hneedle
  rw [replaceAll, List.cons_append, replaceFrom, if_pos (by simp), replaceFrom_eq_drop]
  simp

/-- A beginning in which no occurrence begins is left as it is. -/
theorem replaceAll_eq_take_append (h : ∀ earlier < count, ¬needle <+: text.drop earlier) :
    replaceAll needle mark text = text.take count ++ replaceAll needle mark (text.drop count) := by
  induction count generalizing text with
  | zero => simp
  | succ count ih =>
    cases text with
    | nil => simp
    | cons letter text =>
      have htail : ∀ earlier < count, ¬needle <+: text.drop earlier :=
        fun earlier hearlier ↦ h (earlier + 1) (by omega)
      rw [replaceAll_cons letter (h 0 (by omega)), ih htail]
      simp

theorem replaceAll_of_not_infix (h : ¬needle <:+: text) : replaceAll needle mark text = text := by
  have hnone : ∀ earlier < text.length, ¬needle <+: text.drop earlier :=
    fun earlier _ hbegins ↦ h (infix_iff_prefix_drop.mpr ⟨earlier, hbegins⟩)
  rw [replaceAll_eq_take_append hnone]
  simp

/-- Up to the end of the first occurrence. -/
theorem replaceAll_of_position (hneedle : needle ≠ []) (h : position needle text = some index) :
    replaceAll needle mark (text ++ rest) =
      text.take index ++ mark ++ replaceAll needle mark (text.drop (index + needle.length) ++ rest) := by
  obtain ⟨hoccurs, hbefore⟩ := position_eq_some h
  have hle := length_add_le_of_prefix_drop hneedle hoccurs
  have hnone : ∀ earlier < index, ¬needle <+: (text ++ rest).drop earlier := by
    intro earlier hearlier hbegins
    exact hbefore earlier hearlier ((prefix_drop_append_iff (by omega)).mp hbegins)
  obtain ⟨after, hafter⟩ := hoccurs
  have hdrop : text.drop (index + needle.length) = after := by
    rw [← List.drop_drop, ← hafter, List.drop_left]
  rw [replaceAll_eq_take_append hnone, List.take_append_of_le_length (by omega),
    List.drop_append_of_le_length (by omega), ← hafter, List.append_assoc,
    replaceAll_append hneedle, hdrop, List.append_assoc]

/-! ### A text in pieces -/

/-- The occurrences within what was read are replaced: what is written, and what is left. -/
def drain (needle mark : List α) : ℕ → List α → List α × List α
  | 0, carry => ([], carry)
  | fuel + 1, carry =>
    match position needle carry with
    | none => ([], carry)
    | some found =>
      let (written, kept) := drain needle mark fuel (carry.drop (found + needle.length))
      (carry.take found ++ mark ++ written, kept)

/-- The text that is written while the pieces are read. -/
def replacePieces (needle mark : List α) : List α → List (List α) → List α
  | carry, [] => carry
  | carry, piece :: pieces =>
    let (written, kept) := drain needle mark (carry ++ piece).length (carry ++ piece)
    let flushed := kept.length + 1 - needle.length
    written ++ kept.take flushed ++ replacePieces needle mark (kept.drop flushed) pieces

/-- Some piece, with what is carried over, has the needle. -/
def occursInPieces (needle : List α) : List α → List (List α) → Bool
  | _, [] => false
  | carry, piece :: pieces =>
    if needle <:+: carry ++ piece then true
    else
      occursInPieces needle
        ((carry ++ piece).drop ((carry ++ piece).length - (needle.length - 1))) pieces

theorem drain_spec (mark : List α) (hneedle : needle ≠ []) {fuel : ℕ} {carry : List α}
    (hfuel : carry.length ≤ fuel) : ¬needle <:+: (drain needle mark fuel carry).2 ∧
      ∀ rest, replaceAll needle mark (carry ++ rest) =
        (drain needle mark fuel carry).1 ++
          replaceAll needle mark ((drain needle mark fuel carry).2 ++ rest) := by
  have hpos := List.length_pos_iff.mpr hneedle
  induction fuel generalizing carry with
  | zero =>
    have hnil : carry = [] := List.eq_nil_of_length_eq_zero (by omega)
    subst hnil
    exact ⟨by simpa [drain] using hneedle, fun rest ↦ by simp [drain]⟩
  | succ fuel ih =>
    unfold drain
    cases hposition : position needle carry with
    | none => exact ⟨position_eq_none_iff.mp hposition, fun rest ↦ by simp⟩
    | some found =>
      have hle := length_add_le_of_prefix_drop hneedle (position_eq_some hposition).1
      have hshorter : (carry.drop (found + needle.length)).length ≤ fuel := by
        rw [List.length_drop]
        omega
      obtain ⟨hkept, hwritten⟩ := ih hshorter
      refine ⟨hkept, fun rest ↦ ?_⟩
      rw [replaceAll_of_position hneedle hposition, hwritten rest]
      simp only [List.append_assoc]

/-- However a text is cut, reading it in pieces replaces the same occurrences. -/
theorem replacePieces_eq (hneedle : needle ≠ []) (carry : List α) (pieces : List (List α))
    (hcarry : ¬needle <:+: carry) :
    replacePieces needle mark carry pieces = replaceAll needle mark (carry ++ pieces.flatten) := by
  induction pieces generalizing carry with
  | nil => simp [replacePieces, replaceAll_of_not_infix hcarry]
  | cons piece pieces ih =>
    obtain ⟨hkept, hwritten⟩ := drain_spec mark hneedle (le_refl (carry ++ piece).length)
    unfold replacePieces
    generalize drain needle mark (carry ++ piece).length (carry ++ piece) = drained at hkept hwritten
    obtain ⟨written, kept⟩ := drained
    dsimp only at hkept hwritten ⊢
    have hnone : ∀ earlier < kept.length + 1 - needle.length,
        ¬needle <+: (kept ++ pieces.flatten).drop earlier := by
      intro earlier hearlier hbegins
      have hwithin := (prefix_drop_append_iff (by omega)).mp hbegins
      exact hkept (infix_iff_prefix_drop.mpr ⟨earlier, hwithin⟩)
    have hflushed : kept.length + 1 - needle.length ≤ kept.length := by
      have hpos := List.length_pos_iff.mpr hneedle
      omega
    have hshort : ¬needle <:+: kept.drop (kept.length + 1 - needle.length) :=
      fun hinside ↦ hkept (hinside.trans (List.drop_suffix _ _).isInfix)
    rw [ih _ hshort, List.flatten_cons, ← List.append_assoc carry, hwritten,
      replaceAll_eq_take_append hnone, List.take_append_of_le_length hflushed,
      List.drop_append_of_le_length hflushed, List.append_assoc]

/-- However a text is cut, an occurrence is found. -/
theorem occursInPieces_iff (hneedle : needle ≠ []) (carry : List α) (pieces : List (List α))
    (hcarry : carry.length < needle.length) :
    occursInPieces needle carry pieces = true ↔ needle <:+: carry ++ pieces.flatten := by
  induction pieces generalizing carry with
  | nil =>
    simp only [occursInPieces, Bool.false_eq_true, List.flatten_nil, List.append_nil, false_iff]
    exact fun hinside ↦ absurd hinside.length_le (by omega)
  | cons piece pieces ih =>
    unfold occursInPieces
    rw [List.flatten_cons, ← List.append_assoc]
    generalize carry ++ piece = read
    split_ifs with hread
    · simp only [true_iff]
      exact hread.trans (List.prefix_append _ _).isInfix
    · have hpos := List.length_pos_iff.mpr hneedle
      rw [ih _ (by rw [List.length_drop]; omega)]
      constructor
      · intro hinside
        refine hinside.trans ?_
        rw [← List.drop_append_of_le_length (by omega)]
        exact (List.drop_suffix _ _).isInfix
      · intro hinside
        obtain ⟨index, hbegins⟩ := infix_iff_prefix_drop.mp hinside
        by_cases hend : index + needle.length ≤ read.length
        · exact absurd (infix_iff_prefix_drop.mpr ⟨index, (prefix_drop_append_iff hend).mp hbegins⟩)
            hread
        · refine infix_iff_prefix_drop.mpr
            ⟨index - (read.length - (needle.length - 1)), ?_⟩
          rw [← List.drop_append_of_le_length (by omega), List.drop_drop]
          rwa [Nat.add_sub_cancel' (by omega)]

end Relational
