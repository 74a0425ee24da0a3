import HarborHF.Relational.Replacement

/-!
# Annotated texts

A text whose inserted words are kept apart from its own letters. An occurrence of a needle is the
text's own when it has no letter of an inserted word. Where every occurrence is the text's own,
replacing the needle in what is read is replacing it in the annotated text; and there no occurrence of
its own is left, by this replacement or by a later one.
-/

set_option autoImplicit false

namespace Relational

variable {α : Type}

/-- Letters of the text, and inserted words. -/
abbrev Annotated (α : Type) := List (α ⊕ List α)

namespace Annotated

/-- A text without insertions. -/
def plain (text : List α) : Annotated α :=
  text.map .inl

/-- What is read. -/
def fill (text : Annotated α) : List α :=
  text.flatMap fun piece ↦ piece.elim (fun letter ↦ [letter]) id

/-- The occurrences of a needle in what is read are the text's own. -/
def OwnOnly (needle : List α) (text : Annotated α) : Prop :=
  ∀ before after, text.fill = before ++ needle ++ after →
    ∃ own rest, text = own ++ plain needle ++ rest ∧ fill own = before

variable {needle other mark letters : List α} {text first second : Annotated α}

@[simp] theorem fill_nil : fill ([] : Annotated α) = [] := rfl

@[simp] theorem fill_inl (letter : α) : fill (.inl letter :: text) = letter :: text.fill := rfl

@[simp] theorem fill_inr (word : List α) : fill (.inr word :: text) = word ++ text.fill := rfl

theorem fill_cons (piece : α ⊕ List α) : fill (piece :: text) = fill [piece] ++ fill text :=
  by simp only [fill, List.flatMap_cons, List.flatMap_nil, List.append_nil]

@[simp]
theorem fill_append : fill (first ++ second) = first.fill ++ second.fill :=
  List.flatMap_append

@[simp]
theorem fill_plain : fill (plain letters) = letters := by
  induction letters with
  | nil => rfl
  | cons letter letters ih => exact congrArg _ ih

@[simp] theorem plain_nil : plain ([] : List α) = [] := rfl

@[simp]
theorem plain_cons (letter : α) : plain (letter :: letters) = .inl letter :: plain letters := rfl

@[simp]
theorem plain_append (more : List α) : plain (letters ++ more) = plain letters ++ plain more :=
  List.map_append

theorem plain_ne_nil (hneedle : needle ≠ []) : plain needle ≠ [] := by
  unfold plain
  simpa using hneedle

theorem ownOnly_plain : OwnOnly needle (plain letters) := by
  intro before after hread
  rw [fill_plain] at hread
  exact ⟨plain before, plain after, by rw [hread, plain_append, plain_append], fill_plain⟩

theorem infix_fill_of_plain (h : plain needle <:+: text) : needle <:+: text.fill := by
  obtain ⟨own, rest, rfl⟩ := h
  exact ⟨fill own, fill rest, by simp⟩

theorem OwnOnly.infix_iff (h : OwnOnly needle text) : needle <:+: text.fill ↔ plain needle <:+: text := by
  refine ⟨?_, infix_fill_of_plain⟩
  rintro ⟨before, after, hread⟩
  obtain ⟨own, rest, hown, -⟩ := h before after hread.symm
  exact ⟨own, rest, hown.symm⟩

/-- What is read of no letter at all begins no occurrence of its own. -/
theorem eq_nil_of_fill_eq_nil {rest : Annotated α} (hfill : fill first = [])
    (hbegins : first ++ second = plain needle ++ rest) (hneedle : needle ≠ []) : first = [] := by
  obtain ⟨letter, tail, rfl⟩ := List.exists_cons_of_ne_nil hneedle
  cases first with
  | nil => rfl
  | cons piece first =>
    rw [plain_cons, List.cons_append, List.cons_append] at hbegins
    rw [(List.cons.inj hbegins).1] at hfill
    exact absurd hfill (by simp)

/-- The occurrences of an end are its own with those of the whole. -/
theorem OwnOnly.of_append (hneedle : needle ≠ []) (h : OwnOnly needle (first ++ second)) :
    OwnOnly needle second := by
  intro before after hread
  obtain ⟨own, rest, hown, hbefore⟩ := h (first.fill ++ before) after (by simp [hread])
  rw [List.append_assoc] at hown
  rcases List.append_eq_append_iff.mp hown with ⟨between, rfl, hsecond⟩ | ⟨between, rfl, hneedles⟩
  · rw [fill_append] at hbefore
    exact ⟨between, rest, by rw [hsecond, List.append_assoc], List.append_cancel_left hbefore⟩
  · have hlengths := congrArg List.length hbefore
    simp only [fill_append, List.length_append] at hlengths
    have hbetween : fill between = [] := List.eq_nil_of_length_eq_zero (by omega)
    have hnil := eq_nil_of_fill_eq_nil hbetween hneedles.symm hneedle
    subst hnil
    refine ⟨[], rest, by simpa using hneedles.symm, ?_⟩
    exact (List.eq_nil_of_length_eq_zero (by omega)).symm

/-- At a letter or a word that begins no occurrence of its own, none is read that begins there. -/
theorem OwnOnly.not_prefix_drop {piece : α ⊕ List α} (hown : OwnOnly needle (piece :: text)) (h : ¬plain needle <+: piece :: text) {index : ℕ}
    (hindex : index < (fill [piece]).length) : ¬needle <+: (fill (piece :: text)).drop index := by
  rintro ⟨after, hafter⟩
  have hread : fill (piece :: text) = (fill (piece :: text)).take index ++ needle ++ after := by
    rw [List.append_assoc, hafter, List.take_append_drop]
  obtain ⟨own, rest, heq, hbefore⟩ := hown _ _ hread
  cases own with
  | nil => exact h ⟨rest, heq.symm⟩
  | cons other own =>
    obtain rfl : piece = other := (List.cons.inj (by simpa using heq)).1
    have hlengths := congrArg List.length hbefore
    rw [fill_cons, List.length_append, List.length_take] at hlengths
    omega

/-! ### Joined texts -/

/-- Texts with a separator between them. -/
def joined (separator : List α) (texts : List (Annotated α)) : Annotated α :=
  List.intercalate [.inr separator] texts

theorem fill_joined {separator : List α} {texts : List (Annotated α)} :
    fill (joined separator texts) = separator.intercalate (texts.map fill) := by
  unfold joined
  induction texts with
  | nil => rfl
  | cons text texts ih =>
    cases texts with
    | nil => simp
    | cons next texts =>
      rw [List.intercalate_cons_cons, List.map_cons, List.map_cons, List.intercalate_cons_cons,
        ← List.map_cons, ← ih, fill_append, fill_append, fill_inr, fill_nil, List.append_nil]

/-- The letters at a beginning stand before the first inserted word. -/
theorem prefix_of_prefix_append (first : Annotated α) {word : List α}
    (h : plain letters <+: first ++ .inr word :: second) : plain letters <+: first := by
  induction first generalizing letters with
  | nil =>
    cases letters with
    | nil => exact List.nil_prefix
    | cons letter letters => simp at h
  | cons piece first ih =>
    cases letters with
    | nil => exact List.nil_prefix
    | cons letter letters =>
      rw [plain_cons, List.cons_append, List.cons_prefix_cons] at h
      rw [plain_cons, List.cons_prefix_cons]
      exact ⟨h.1, ih h.2⟩

/-- Letters that stand together stand on one side of an inserted word. -/
theorem infix_or_infix {word : List α} (hneedle : needle ≠ [])
    (h : plain needle <:+: first ++ .inr word :: second) :
    plain needle <:+: first ∨ plain needle <:+: second := by
  induction first with
  | nil =>
    rw [List.nil_append, List.infix_cons_iff] at h
    refine .inr (h.resolve_left fun hbegins ↦ hneedle ?_)
    have hnil := prefix_of_prefix_append [] hbegins
    simpa [plain] using hnil
  | cons piece first ih =>
    rw [List.cons_append, List.infix_cons_iff] at h
    rcases h with hbegins | htail
    · exact .inl (prefix_of_prefix_append (piece :: first) hbegins).isInfix
    · exact (ih htail).imp_left List.infix_cons

/-- Letters that stand together in joined texts stand in one of them. -/
theorem exists_infix_of_joined {separator : List α} {texts : List (Annotated α)}
    (hneedle : needle ≠ []) (h : plain needle <:+: joined separator texts) :
    ∃ text ∈ texts, plain needle <:+: text := by
  unfold joined at h
  induction texts with
  | nil => exact absurd (List.eq_nil_of_infix_nil h) (plain_ne_nil hneedle)
  | cons text texts ih =>
    cases texts with
    | nil => exact ⟨text, by simp, by simpa using h⟩
    | cons next texts =>
      rw [List.intercalate_cons_cons, List.append_assoc] at h
      rcases infix_or_infix hneedle h with hfirst | hrest
      · exact ⟨text, by simp, hfirst⟩
      · obtain ⟨found, hfound, hinside⟩ := ih hrest
        exact ⟨found, List.mem_cons_of_mem text hfound, hinside⟩

/-! ### Replacement -/

variable [DecidableEq α]

/-- The replacement of the text's own occurrences by an inserted mark. -/
def redact (mark needle : List α) (text : Annotated α) : Annotated α :=
  replaceAll (plain needle) [.inr mark] text

theorem redact_append (hneedle : needle ≠ []) :
    redact mark needle (plain needle ++ text) = .inr mark :: redact mark needle text :=
  replaceAll_append (plain_ne_nil hneedle)

/-- The replacement in what is read. -/
theorem replaceAll_fill (hneedle : needle ≠ []) (hown : OwnOnly needle text) :
    replaceAll needle mark text.fill = (redact mark needle text).fill := by
  induction text using replacement_induction (plain_ne_nil hneedle) with
  | nil => rfl
  | occurrence rest ih =>
    rw [redact_append hneedle, fill_append, fill_plain, replaceAll_append hneedle,
      ih (hown.of_append hneedle), fill_inr]
  | letter piece rest hbegins ih =>
    have hnone : ∀ earlier < (fill [piece]).length,
        ¬needle <+: (fill (piece :: rest)).drop earlier :=
      fun earlier hearlier ↦ hown.not_prefix_drop hbegins hearlier
    have htail : OwnOnly needle ([piece] ++ rest) := hown
    have hread : fill (piece :: rest) = fill [piece] ++ fill rest := fill_cons piece
    rw [redact, replaceAll_cons piece hbegins, replaceAll_eq_take_append hnone, hread,
      List.take_left, List.drop_left, ih (htail.of_append hneedle)]
    exact (fill_cons piece).symm

/-- A beginning of letters after a replacement was one before. -/
theorem prefix_of_prefix_redact (hneedle : needle ≠ [])
    (h : plain letters <+: redact mark needle text) : plain letters <+: text := by
  induction text generalizing letters with
  | nil => exact h
  | cons piece rest ih =>
    cases letters with
    | nil => exact List.nil_prefix
    | cons letter letters =>
      by_cases hbegins : plain needle <+: piece :: rest
      · obtain ⟨after, hafter⟩ := hbegins
        rw [← hafter, redact_append hneedle] at h
        simp at h
      · rw [redact, replaceAll_cons piece hbegins, plain_cons, List.cons_prefix_cons] at h
        rw [plain_cons, List.cons_prefix_cons]
        exact ⟨h.1, ih h.2⟩

/-- The letters that stand together after a replacement stood together before. -/
theorem infix_of_infix_redact (hneedle : needle ≠ [])
    (h : plain letters <:+: redact mark needle text) : plain letters <:+: text := by
  cases letters with
  | nil => exact List.nil_infix
  | cons letter letters =>
    induction text using replacement_induction (plain_ne_nil hneedle) with
    | nil => exact h
    | occurrence rest ih =>
      rw [redact_append hneedle, List.infix_cons_iff] at h
      have htail := h.resolve_left (by simp)
      exact (ih htail).trans (List.suffix_append _ _).isInfix
    | letter piece rest hbegins ih =>
      have hredact : redact mark needle (piece :: rest) = piece :: redact mark needle rest :=
        replaceAll_cons piece hbegins
      rw [hredact, List.infix_cons_iff, ← hredact] at h
      rcases h with hfirst | htail
      · exact (prefix_of_prefix_redact hneedle hfirst).isInfix
      · exact List.infix_cons (ih htail)

/-- After the replacement the text has no occurrence of its own. -/
theorem not_infix_redact (hneedle : needle ≠ []) : ¬plain needle <:+: redact mark needle text := by
  induction text using replacement_induction (plain_ne_nil hneedle) with
  | nil => simpa [redact] using plain_ne_nil hneedle
  | occurrence rest ih =>
    rw [redact_append hneedle, List.infix_cons_iff]
    rintro (hfirst | htail)
    · obtain ⟨letter, tail, rfl⟩ := List.exists_cons_of_ne_nil hneedle
      simp at hfirst
    · exact ih htail
  | letter piece rest hbegins ih =>
    have hredact : redact mark needle (piece :: rest) = piece :: redact mark needle rest :=
      replaceAll_cons piece hbegins
    rw [hredact, List.infix_cons_iff, ← hredact]
    rintro (hfirst | htail)
    · exact hbegins (prefix_of_prefix_redact hneedle hfirst)
    · exact ih htail

/-! ### Several needles -/

/-- The replacements of several needles, one after another. -/
def redactAll (mark : List α) (needles : List (List α)) (text : Annotated α) : Annotated α :=
  needles.foldl (fun text needle ↦ redact mark needle text) text

/-- At its turn no needle is read with letters of a mark inserted before. -/
def Undisturbed (mark : List α) : List (List α) → Annotated α → Prop
  | [], _ => True
  | needle :: needles, text =>
    OwnOnly needle text ∧ Undisturbed mark needles (redact mark needle text)

variable {needles : List (List α)}

/-- The replacements of several needles in what is read. -/
theorem foldl_replaceAll_fill (hneedles : ∀ needle ∈ needles, needle ≠ [])
    (h : Undisturbed mark needles text) :
    needles.foldl (fun letters needle ↦ replaceAll needle mark letters) text.fill =
      (redactAll mark needles text).fill := by
  induction needles generalizing text with
  | nil => rfl
  | cons needle needles ih =>
    obtain ⟨hown, hrest⟩ := h
    rw [List.foldl_cons, replaceAll_fill (hneedles needle (by simp)) hown,
      ih (fun other hother ↦ hneedles other (by simp [hother])) hrest]
    rfl

theorem infix_of_infix_redactAll (hneedles : ∀ needle ∈ needles, needle ≠ [])
    (h : plain letters <:+: redactAll mark needles text) : plain letters <:+: text := by
  induction needles generalizing text with
  | nil => exact h
  | cons needle needles ih =>
    have hrest := ih (fun other hother ↦ hneedles other (by simp [hother])) h
    exact infix_of_infix_redact (hneedles needle (by simp)) hrest

/-- After all replacements no needle is left among the text's own letters. -/
theorem not_infix_redactAll (hneedles : ∀ needle ∈ needles, needle ≠ []) (hmem : needle ∈ needles) :
    ¬plain needle <:+: redactAll mark needles text := by
  induction needles generalizing text with
  | nil => simp at hmem
  | cons first needles ih =>
    have hothers : ∀ other ∈ needles, other ≠ [] := fun other hother ↦ hneedles other (by simp [hother])
    rcases List.mem_cons.mp hmem with rfl | hlater
    · exact fun h ↦ not_infix_redact (hneedles needle (by simp)) (infix_of_infix_redactAll hothers h)
    · exact ih hothers hlater

/-- After all replacements a needle is read only with letters of a mark. -/
theorem not_infix_fill_redactAll_iff (hneedles : ∀ needle ∈ needles, needle ≠ [])
    (hmem : needle ∈ needles) :
    ¬needle <:+: (redactAll mark needles text).fill ↔ OwnOnly needle (redactAll mark needles text) := by
  constructor
  · intro h before after hread
    exact absurd ⟨before, after, hread.symm⟩ h
  · intro h
    rw [h.infix_iff]
    exact not_infix_redactAll hneedles hmem

end Annotated

end Relational
