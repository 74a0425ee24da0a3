import Mathlib.Data.List.Basic
import Mathlib.Data.String.Basic

/-!
# Pairs and octets as texts

Texts that spell out what they are made of stand in for digests where a digest is only compared: a
pair of texts, and a text for a list of octets.
-/

set_option autoImplicit false

namespace Encodings

/-- A pair of texts as one: every character of the first behind a `0`, then a `1` and the second. -/
def pairText (first second : String) : String :=
  String.ofList (first.toList.flatMap (fun char ↦ ['0', char]) ++ '1' :: second.toList)

theorem pairText_injective {first first' second second' : String}
    (h : pairText first second = pairText first' second') : first = first' ∧ second = second' := by
  have hlists : ∀ chars chars' rest rest' : List Char,
      chars.flatMap (fun char ↦ ['0', char]) ++ '1' :: rest =
        chars'.flatMap (fun char ↦ ['0', char]) ++ '1' :: rest' → chars = chars' ∧ rest = rest' := by
    intro chars
    induction chars with
    | nil =>
      intro chars' rest rest' heq
      cases chars' with
      | nil => simpa using heq
      | cons char chars' => simp at heq
    | cons char chars ih =>
      intro chars' rest rest' heq
      cases chars' with
      | nil => simp at heq
      | cons char' chars' =>
        simp only [List.flatMap_cons, List.cons_append, List.nil_append, List.cons.injEq,
          true_and] at heq
        obtain ⟨hchars, hrest⟩ := ih chars' rest rest' heq.2
        exact ⟨by rw [heq.1, hchars], hrest⟩
  obtain ⟨hfirst, hsecond⟩ := hlists _ _ _ _ (String.ofList_injective h)
  exact ⟨String.toList_injective hfirst, String.toList_injective hsecond⟩

/-- A list of octets as the text of their code points. -/
def octetText (octets : List UInt8) : String :=
  String.ofList (octets.map fun octet ↦ Char.ofNat octet.toNat)

theorem octetText_injective : Function.Injective octetText := by
  have hvalid : ∀ octet : UInt8, (Char.ofNat octet.toNat).toNat = octet.toNat := by
    intro octet
    have hlt : octet.toNat < 256 := octet.toNat_lt
    have hchar : octet.toNat.isValidChar := .inl (by omega)
    rw [Char.toNat, Char.ofNat, dif_pos hchar]
    rfl
  have hchar : Function.Injective fun octet : UInt8 ↦ Char.ofNat octet.toNat := by
    intro first second h
    have hnat := congrArg Char.toNat h
    dsimp only at hnat
    rw [hvalid, hvalid] at hnat
    exact UInt8.toNat_inj.mp hnat
  exact fun first second h ↦ List.map_injective_iff.mpr hchar (String.ofList_injective h)

end Encodings
