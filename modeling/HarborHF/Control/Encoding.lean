import HarborHF.Control.Records

/-!
# Digests that can be computed

The control plane works with any injective `deterministicId`. `plainDigests` is one that evaluates: an
identity spells out its prefix and parts, each part closed by a bar and bars in it escaped by a tilde,
and the other digests are labelled copies of what they digest. With it a run of the control plane can
be computed.
-/

set_option autoImplicit false

namespace HarborHF.Control

/-- A character of a part: the bar and the tilde are escaped. -/
def markedChar (character : Char) : List Char :=
  if character = '|' ∨ character = '~' then ['~', character] else [character]

/-- A part with its end closed. -/
def markedPart (part : List Char) : List Char := part.flatMap markedChar ++ ['|']

/-- The parts of an identity, one after the other. -/
def markedParts (parts : List String) : List Char := parts.flatMap fun part ↦ markedPart part.toList

theorem markedChar_ne_bar (character : Char) (rest rest' : List Char) :
    markedChar character ++ rest ≠ '|' :: rest' := by
  unfold markedChar
  split_ifs with hspecial
  · simp
  · intro h
    exact hspecial (.inl (List.cons.inj h).1)

theorem markedChar_append_inj {first second : Char} {rest rest' : List Char}
    (h : markedChar first ++ rest = markedChar second ++ rest') : first = second ∧ rest = rest' := by
  unfold markedChar at h
  split_ifs at h with hfirst hsecond hsecond
  · simpa using h
  · exact absurd (.inr (List.cons.inj h).1.symm) hsecond
  · exact absurd (.inr (List.cons.inj h).1) hfirst
  · simpa using h

theorem markedPart_append_inj {first second rest rest' : List Char}
    (h : markedPart first ++ rest = markedPart second ++ rest') : first = second ∧ rest = rest' := by
  unfold markedPart at h
  induction first generalizing second with
  | nil =>
    cases second with
    | nil => exact ⟨rfl, by simpa using h⟩
    | cons character second =>
      simp only [List.flatMap_cons, List.append_assoc] at h
      exact absurd h.symm (markedChar_ne_bar _ _ _)
  | cons character first ih =>
    cases second with
    | nil =>
      simp only [List.flatMap_cons, List.append_assoc] at h
      exact absurd h (markedChar_ne_bar _ _ _)
    | cons character' second =>
      simp only [List.flatMap_cons, List.append_assoc] at h
      obtain ⟨rfl, htail⟩ := markedChar_append_inj h
      obtain ⟨rfl, hrest⟩ := ih (by simpa using htail)
      exact ⟨rfl, hrest⟩

theorem markedParts_inj {first second : List String} (h : markedParts first = markedParts second) :
    first = second := by
  have hne : ∀ part : List Char, markedPart part ≠ [] := fun part ↦ by simp [markedPart]
  induction first generalizing second with
  | nil =>
    cases second with
    | nil => rfl
    | cons part second =>
      simp only [markedParts, List.flatMap_nil, List.flatMap_cons] at h
      exact absurd (List.append_eq_nil_iff.mp h.symm).1 (hne _)
  | cons part first ih =>
    cases second with
    | nil =>
      simp only [markedParts, List.flatMap_nil, List.flatMap_cons] at h
      exact absurd (List.append_eq_nil_iff.mp h).1 (hne _)
    | cons part' second =>
      simp only [markedParts, List.flatMap_cons] at h
      obtain ⟨hpart, hrest⟩ := markedPart_append_inj h
      rw [String.toList_inj.mp hpart, ih hrest]

/-- Digests that spell out what they digest. -/
@[reducible] def plainDigests : Digests where
  deterministicId label parts := String.ofList (markedParts (label :: parts))
  deterministicId_injective := by
    intro label label' parts parts' h
    have hlists := markedParts_inj (String.ofList_injective h)
    exact List.cons.inj hlists
  sha256 text := "sha256:" ++ text
  canonicalJson record := record.key.path
  canonicalStrings texts := String.ofList (markedParts texts)

end HarborHF.Control
