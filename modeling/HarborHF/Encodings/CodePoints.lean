import Mathlib.Algebra.GroupWithZero.Nat
import Mathlib.Data.List.DropRight
import Mathlib.Data.Nat.Notation

/-!
# Texts of code points

A text is a list of code points, surrogates among them. UTF-8 takes those without surrogates, and
reads back what it has encoded (`decode_encode`). White space is what a regular expression and
`strip` call so.
-/

set_option autoImplicit false

namespace CodePoints

abbrev CodePoint : Type := Fin 0x110000

abbrev Text : Type := List CodePoint

theorem toNat_lt (letter : Char) : letter.toNat < 0x110000 := by
  rcases letter.valid with h | h
  · exact Nat.lt_trans h (by decide)
  · exact h.2

def point (letter : Char) : CodePoint := ⟨letter.toNat, toNat_lt letter⟩

/-- The code points of some letters. -/
def text (letters : String) : Text := letters.toList.map point

/-! ### UTF-8 -/

def isScalar (point : CodePoint) : Bool := decide (point.val < 0xD800 ∨ 0xDFFF < point.val)

theorem point_ofNat {code : CodePoint} (h : isScalar code = true) :
    point (Char.ofNat code.val) = code := by
  have hvalid : code.val.isValidChar :=
    (of_decide_eq_true h).imp_right fun hhigh ↦ ⟨hhigh, code.isLt⟩
  have hvalue : (Char.ofNat code.val).toNat = code.val := by
    rw [Char.ofNat, dif_pos hvalid]
    rfl
  exact Fin.ext hvalue

/-- `str.encode("utf-8")`: there is none for a surrogate. -/
def encode (value : Text) : Option ByteArray :=
  if value.all isScalar then
    some (String.ofList (value.map fun code ↦ Char.ofNat code.val)).toByteArray
  else none

/-- `bytes.decode("utf-8")`. -/
def decode (octets : ByteArray) : Option Text :=
  octets.utf8Decode?.map fun letters ↦ letters.toList.map point

variable {value : Text}

theorem decode_encode {octets : ByteArray} (h : encode value = some octets) :
    decode octets = some value := by
  unfold encode at h
  split_ifs at h with hscalar
  rw [← Option.some.inj h, decode, String.toByteArray_ofList, List.utf8Decode?_utf8Encode,
    Option.map_some]
  refine congrArg some ?_
  show ((value.map fun code ↦ Char.ofNat code.val).map point) = value
  rw [List.map_map]
  refine (List.map_congr_left fun code hcode ↦ ?_).trans (List.map_id value)
  exact point_ofNat (List.all_eq_true.mp hscalar code hcode)

/-- The octets of a code point. -/
def width (code : CodePoint) : ℕ := (Char.ofNat code.val).utf8Size

theorem size_of_encode {octets : ByteArray} (h : encode value = some octets) :
    octets.size = (value.map width).sum := by
  unfold encode at h
  split_ifs at h with hscalar
  rw [← Option.some.inj h, String.toByteArray_ofList]
  clear h hscalar
  induction value with
  | nil => rfl
  | cons code rest ih =>
    rw [List.map_cons, List.utf8Encode_cons, ByteArray.size_append, ih, List.map_cons,
      List.sum_cons, List.utf8Encode_singleton, List.size_toByteArray, String.length_utf8EncodeChar]
    rfl

/-! ### White space -/

/-- `str.isspace` of one code point. -/
def isSpace (code : CodePoint) : Bool :=
  decide (9 ≤ code.val ∧ code.val ≤ 13 ∨ 28 ≤ code.val ∧ code.val ≤ 32 ∨
    0x2000 ≤ code.val ∧ code.val ≤ 0x200A ∨
      code.val ∈ [0x85, 0xA0, 0x1680, 0x2028, 0x2029, 0x202F, 0x205F, 0x3000])

def lstrip (value : Text) : Text := value.dropWhile isSpace

def rstrip (value : Text) : Text := value.rdropWhile isSpace

def strip (value : Text) : Text := rstrip (lstrip value)

/-- A text without white space at its ends. -/
def Trimmed (value : Text) : Prop :=
  (∀ code ∈ value.head?, isSpace code = false) ∧ ∀ code ∈ value.getLast?, isSpace code = false

theorem lstrip_eq_self (h : ∀ code ∈ value.head?, isSpace code = false) : lstrip value = value := by
  cases value with
  | nil => rfl
  | cons code rest =>
    rw [lstrip, List.dropWhile_cons_of_neg]
    rw [h code rfl]
    exact Bool.false_ne_true

theorem rstrip_eq_self (h : ∀ code ∈ value.getLast?, isSpace code = false) :
    rstrip value = value := by
  refine List.rdropWhile_eq_self_iff.mpr fun hne ↦ ?_
  rw [h _ (List.getLast?_eq_getLast_of_ne_nil hne)]
  exact Bool.false_ne_true

theorem Trimmed.strip_eq (h : Trimmed value) : strip value = value := by
  rw [strip, lstrip_eq_self h.1, rstrip_eq_self h.2]

theorem length_rstrip_le (value : Text) : (rstrip value).length ≤ value.length :=
  (List.rdropWhile_prefix isSpace value).length_le

/-- A text that stripping leaves alone is trimmed. -/
theorem trimmed_of_strip_eq (h : strip value = value) : Trimmed value := by
  have hleft : lstrip value = value := by
    refine (List.dropWhile_sublist isSpace).eq_of_length_le ?_
    have hlength := length_rstrip_le (lstrip value)
    rw [← strip, h] at hlength
    exact hlength
  have hright : rstrip value = value := by rwa [strip, hleft] at h
  constructor
  · intro code hcode
    have hhead := List.head?_dropWhile_not isSpace value
    rw [← lstrip, hleft, Option.mem_def.mp hcode] at hhead
    exact hhead
  · intro code hcode
    obtain ⟨hne, rfl⟩ := List.mem_getLast?_eq_getLast hcode
    exact Bool.eq_false_iff.mpr (List.rdropWhile_eq_self_iff.mp hright hne)

theorem rstrip_append_space (h : ∀ code ∈ value.getLast?, isSpace code = false)
    {code : CodePoint} (hcode : isSpace code = true) : rstrip (value ++ [code]) = value := by
  rw [rstrip, List.rdropWhile_concat_pos _ _ _ hcode]
  exact rstrip_eq_self h

end CodePoints
