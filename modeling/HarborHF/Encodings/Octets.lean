import Mathlib.Algebra.GroupWithZero.Nat
import HarborHF.Json.Text

/-!
# Texts as octets

`utf8` and `base64url` are the two encodings between texts, as lists of UTF-16 code units, and
octets. Their decoders accept more than what is encoded: UTF-8 replaces what is malformed, and
base64url skips what is not in its alphabet. `Decoders` asks of them that they read back what was
encoded, a text being one without lone surrogates.

A JSON text has no lone surrogates (`paired_stringify`), whatever the strings in its value.
-/

set_option autoImplicit false

namespace Encodings

open Json

/-! ### Texts without lone surrogates -/

/-- A unit that is no half of a surrogate pair. -/
def isWhole (unit : UInt16) : Bool := !isLead unit && !isTrail unit

inductive Paired : Text → Prop
  | nil : Paired []
  | whole {unit : UInt16} {rest : Text} (hunit : isWhole unit = true) (h : Paired rest) :
      Paired (unit :: rest)
  | pair {lead trail : UInt16} {rest : Text} (hlead : isLead lead = true)
      (htrail : isTrail trail = true) (h : Paired rest) : Paired (lead :: trail :: rest)

theorem Paired.append {first second : Text} (hfirst : Paired first) (hsecond : Paired second) :
    Paired (first ++ second) := by
  induction hfirst with
  | nil => exact hsecond
  | whole hunit h ih => exact .whole hunit ih
  | pair hlead htrail h ih => exact .pair hlead htrail ih

theorem paired_of_whole {text : Text} (h : ∀ unit ∈ text, isWhole unit = true) : Paired text := by
  induction text with
  | nil => exact .nil
  | cons unit rest ih =>
    obtain ⟨hunit, hrest⟩ := List.forall_mem_cons.mp h
    exact .whole hunit (ih hrest)

variable {unit : UInt16}

theorem isWhole_of_lt (h : unit < 0xD800) : isWhole unit = true := by
  simp only [isWhole, isLead, isTrail, Bool.and_eq_true, Bool.not_eq_true', decide_eq_false_iff_not,
    not_and, UInt16.lt_iff_toNat_lt, UInt16.le_iff_toNat_le] at h ⊢
  simp only [UInt16.toNat_ofNat] at h ⊢
  omega

/-! ### UTF-8 -/

def octet (value : ℕ) : UInt8 := UInt8.ofNat value

/-- The octets of a unit that is not in a pair. A lone surrogate is replaced. -/
def utf8Unit (unit : UInt16) : List UInt8 :=
  let value := unit.toNat
  if value < 0x80 then [octet value]
  else if value < 0x800 then [octet (0xC0 + value / 64), octet (0x80 + value % 64)]
  else if isWhole unit then
    [octet (0xE0 + value / 4096), octet (0x80 + value / 64 % 64), octet (0x80 + value % 64)]
  else [0xEF, 0xBF, 0xBD]

/-- The octets of the character above the units that a pair stands for. -/
def utf8Pair (lead trail : UInt16) : List UInt8 :=
  let value := 0x10000 + (lead.toNat - 0xD800) * 0x400 + (trail.toNat - 0xDC00)
  [octet (0xF0 + value / 262144), octet (0x80 + value / 4096 % 64), octet (0x80 + value / 64 % 64),
    octet (0x80 + value % 64)]

def utf8 : Text → List UInt8
  | [] => []
  | [unit] => utf8Unit unit
  | unit :: next :: rest =>
    if isLead unit && isTrail next then utf8Pair unit next ++ utf8 rest
    else utf8Unit unit ++ utf8 (next :: rest)

/-- How many octets a unit takes. The two halves of a pair take four together. -/
def unitSize (unit : UInt16) : ℕ :=
  if unit.toNat < 0x80 then 1 else if unit.toNat < 0x800 then 2 else if isWhole unit then 3 else 2

def utf8Size (text : Text) : ℕ := (text.map unitSize).sum

@[simp] theorem utf8Size_nil : utf8Size [] = 0 := rfl

@[simp] theorem utf8Size_cons (unit : UInt16) (text : Text) :
    utf8Size (unit :: text) = unitSize unit + utf8Size text := by
  simp [utf8Size]

@[simp] theorem utf8Size_append (first second : Text) :
    utf8Size (first ++ second) = utf8Size first + utf8Size second := by
  simp [utf8Size]

theorem utf8_whole (h : isWhole unit = true) (rest : Text) :
    utf8 (unit :: rest) = utf8Unit unit ++ utf8 rest := by
  simp only [isWhole, Bool.and_eq_true, Bool.not_eq_true'] at h
  cases rest with
  | nil => simp [utf8]
  | cons next rest => rw [utf8, h.1, Bool.false_and, if_neg Bool.false_ne_true]

theorem utf8_pair {lead trail : UInt16} (hlead : isLead lead = true) (htrail : isTrail trail = true)
    (rest : Text) : utf8 (lead :: trail :: rest) = utf8Pair lead trail ++ utf8 rest := by
  rw [utf8, hlead, htrail, Bool.and_self, if_pos rfl]

theorem length_utf8Unit (h : isWhole unit = true) : (utf8Unit unit).length = unitSize unit := by
  unfold utf8Unit unitSize
  dsimp only
  split_ifs <;> rfl

theorem unitSize_of_not_whole (h : isWhole unit = false) : unitSize unit = 2 := by
  have hlarge : ¬unit.toNat < 0x800 := by
    intro hlt
    rw [isWhole_of_lt (UInt16.lt_iff_toNat_lt.mpr (lt_of_lt_of_le hlt (by decide)))] at h
    cases h
  rw [unitSize, if_neg (by omega), if_neg hlarge, h, if_neg Bool.false_ne_true]

theorem length_utf8 {text : Text} (h : Paired text) : (utf8 text).length = utf8Size text := by
  induction h with
  | nil => rfl
  | whole hunit h ih =>
    rw [utf8_whole hunit, List.length_append, length_utf8Unit hunit, ih, utf8Size_cons]
  | pair hlead htrail h ih =>
    rw [utf8_pair hlead htrail, List.length_append, ih, utf8Size_cons, utf8Size_cons,
      unitSize_of_not_whole (by simp [isWhole, hlead]),
      unitSize_of_not_whole (by simp [isWhole, htrail]), ← Nat.add_assoc]
    rfl

/-! ### Base64url -/

/-- The letter of six bits. -/
def base64Letter (value : ℕ) : UInt16 :=
  if value < 26 then UInt16.ofNat (65 + value)
  else if value < 52 then UInt16.ofNat (71 + value)
  else if value < 62 then UInt16.ofNat (value - 4)
  else if value = 62 then 45
  else 95

/-- Base64 without padding, in the alphabet for addresses and file names. -/
def base64url : List UInt8 → Text
  | [] => []
  | [first] => [base64Letter (first.toNat / 4), base64Letter (first.toNat % 4 * 16)]
  | [first, second] =>
    [base64Letter (first.toNat / 4), base64Letter (first.toNat % 4 * 16 + second.toNat / 16),
      base64Letter (second.toNat % 16 * 4)]
  | first :: second :: third :: rest =>
    base64Letter (first.toNat / 4) :: base64Letter (first.toNat % 4 * 16 + second.toNat / 16) ::
      base64Letter (second.toNat % 16 * 4 + third.toNat / 64) :: base64Letter (third.toNat % 64) ::
      base64url rest

theorem length_base64url (octets : List UInt8) :
    (base64url octets).length = (4 * octets.length + 2) / 3 := by
  induction octets using base64url.induct with
  | case1 => rfl
  | case2 first => simp [base64url]
  | case3 first second => simp [base64url]
  | case4 first second third rest ih =>
    simp only [base64url, List.length_cons, ih]
    omega

theorem base64Letter_ne (h : unit = 46 ∨ unit = 61) (value : ℕ) : base64Letter value ≠ unit := by
  unfold base64Letter
  rcases h with rfl | rfl
  all_goals
    split_ifs <;> simp only [ne_eq, ← UInt16.toNat_inj, UInt16.toNat_ofNat, UInt16.toNat_ofNat'] <;>
      omega

theorem notMem_base64url (h : unit = 46 ∨ unit = 61) (octets : List UInt8) :
    unit ∉ base64url octets := by
  induction octets using base64url.induct with
  | case1 => exact List.not_mem_nil
  | case2 first => simp [base64url, (base64Letter_ne h _).symm]
  | case3 first second => simp [base64url, (base64Letter_ne h _).symm]
  | case4 first second third rest ih =>
    simp [base64url, (base64Letter_ne h _).symm, ih]

/-! ### Reading octets back -/

/-- The text of well-formed UTF-8. A sequence that is cut off is replaced. -/
def readUtf8 : List UInt8 → Text
  | [] => []
  | first :: rest =>
    if first.toNat < 0x80 then UInt16.ofNat first.toNat :: readUtf8 rest
    else
      match rest with
      | [] => [0xFFFD]
      | second :: rest =>
        if first.toNat < 0xE0 then
          UInt16.ofNat ((first.toNat - 0xC0) * 64 + (second.toNat - 0x80)) :: readUtf8 rest
        else
          match rest with
          | [] => [0xFFFD]
          | third :: rest =>
            if first.toNat < 0xF0 then
              UInt16.ofNat ((first.toNat - 0xE0) * 4096 + (second.toNat - 0x80) * 64 +
                (third.toNat - 0x80)) :: readUtf8 rest
            else
              match rest with
              | [] => [0xFFFD]
              | fourth :: rest =>
                let value := (first.toNat - 0xF0) * 262144 + (second.toNat - 0x80) * 4096 +
                  (third.toNat - 0x80) * 64 + (fourth.toNat - 0x80) - 0x10000
                UInt16.ofNat (0xD800 + value / 0x400) :: UInt16.ofNat (0xDC00 + value % 0x400) ::
                  readUtf8 rest

theorem toNat_octet {value : ℕ} (h : value < 256) : (octet value).toNat = value :=
  UInt8.toNat_ofNat_of_lt' h

theorem readUtf8_unit (h : isWhole unit = true) (rest : List UInt8) :
    readUtf8 (utf8Unit unit ++ rest) = unit :: readUtf8 rest := by
  have hlt := unit.toNat_lt
  unfold utf8Unit
  dsimp only
  split_ifs with hone htwo
  · rw [List.cons_append, List.nil_append, readUtf8.eq_def]
    dsimp only
    rw [toNat_octet (by omega), if_pos hone, UInt16.ofNat_toNat]
  · rw [List.cons_append, List.cons_append, List.nil_append, readUtf8.eq_def]
    dsimp only
    rw [toNat_octet (by omega), if_neg (by omega), if_pos (by omega), toNat_octet (by omega)]
    have hvalue : (0xC0 + unit.toNat / 64 - 0xC0) * 64 + (0x80 + unit.toNat % 64 - 0x80) =
        unit.toNat := by omega
    rw [hvalue, UInt16.ofNat_toNat]
  · rw [List.cons_append, List.cons_append, List.cons_append, List.nil_append, readUtf8.eq_def]
    dsimp only
    rw [toNat_octet (by omega), if_neg (by omega), if_neg (by omega), if_pos (by omega),
      toNat_octet (by omega), toNat_octet (by omega)]
    have hvalue : (0xE0 + unit.toNat / 4096 - 0xE0) * 4096 +
        (0x80 + unit.toNat / 64 % 64 - 0x80) * 64 + (0x80 + unit.toNat % 64 - 0x80) =
          unit.toNat := by omega
    rw [hvalue, UInt16.ofNat_toNat]

theorem readUtf8_pair {lead trail : UInt16} (hlead : isLead lead = true)
    (htrail : isTrail trail = true) (rest : List UInt8) :
    readUtf8 (utf8Pair lead trail ++ rest) = lead :: trail :: readUtf8 rest := by
  obtain ⟨hlow, hhigh⟩ := of_decide_eq_true hlead
  obtain ⟨hlow', hhigh'⟩ := of_decide_eq_true htrail
  rw [UInt16.le_iff_toNat_le] at hlow hhigh hlow' hhigh'
  simp only [UInt16.reduceToNat] at hlow hhigh hlow' hhigh'
  unfold utf8Pair
  dsimp only
  rw [List.cons_append, List.cons_append, List.cons_append, List.cons_append, List.nil_append,
    readUtf8.eq_def]
  dsimp only
  rw [toNat_octet (by omega), if_neg (by omega), if_neg (by omega), if_neg (by omega),
    toNat_octet (by omega), toNat_octet (by omega), toNat_octet (by omega)]
  generalize hvalue : 0x10000 + (lead.toNat - 0xD800) * 0x400 + (trail.toNat - 0xDC00) = value
  have hback : (0xF0 + value / 262144 - 0xF0) * 262144 + (0x80 + value / 4096 % 64 - 0x80) * 4096 +
      (0x80 + value / 64 % 64 - 0x80) * 64 + (0x80 + value % 64 - 0x80) - 0x10000 =
        (lead.toNat - 0xD800) * 0x400 + (trail.toNat - 0xDC00) := by omega
  rw [hback]
  have hfirst : 0xD800 + ((lead.toNat - 0xD800) * 0x400 + (trail.toNat - 0xDC00)) / 0x400 =
      lead.toNat := by omega
  have hsecond : 0xDC00 + ((lead.toNat - 0xD800) * 0x400 + (trail.toNat - 0xDC00)) % 0x400 =
      trail.toNat := by omega
  rw [hfirst, hsecond, UInt16.ofNat_toNat, UInt16.ofNat_toNat]

theorem readUtf8_utf8 {text : Text} (h : Paired text) : readUtf8 (utf8 text) = text := by
  induction h with
  | nil => rfl
  | whole hunit h ih => rw [utf8_whole hunit, readUtf8_unit hunit, ih]
  | pair hlead htrail h ih => rw [utf8_pair hlead htrail, readUtf8_pair hlead htrail, ih]

/-- The six bits of a letter, in both alphabets. -/
def sextet (unit : UInt16) : Option ℕ :=
  let value := unit.toNat
  if 65 ≤ value ∧ value ≤ 90 then some (value - 65)
  else if 97 ≤ value ∧ value ≤ 122 then some (value - 71)
  else if 48 ≤ value ∧ value ≤ 57 then some (value + 4)
  else if value = 45 ∨ value = 43 then some 62
  else if value = 95 ∨ value = 47 then some 63
  else none

def readSextets : List ℕ → List UInt8
  | first :: second :: third :: fourth :: rest =>
    octet (first * 4 + second / 16) :: octet (second % 16 * 16 + third / 4) ::
      octet (third % 4 * 64 + fourth) :: readSextets rest
  | [first, second, third] => [octet (first * 4 + second / 16), octet (second % 16 * 16 + third / 4)]
  | [first, second] => [octet (first * 4 + second / 16)]
  | _ => []

/-- The octets of base64, without the units that are no letters. -/
def readBase64 (text : Text) : List UInt8 := readSextets (text.filterMap sextet)

theorem sextet_base64Letter {value : ℕ} (h : value < 64) : sextet (base64Letter value) = some value := by
  have hall : ∀ value < 64, sextet (base64Letter value) = some value := by decide
  exact hall value h

theorem octet_toNat (value : UInt8) : octet value.toNat = value := UInt8.ofNat_toNat

theorem readBase64_base64url (octets : List UInt8) : readBase64 (base64url octets) = octets := by
  unfold readBase64
  induction octets using base64url.induct with
  | case1 => rfl
  | case2 first =>
    have hfirst := first.toNat_lt
    have hvalue : first.toNat / 4 * 4 + first.toNat % 4 * 16 / 16 = first.toNat := by omega
    rw [base64url, List.filterMap_cons_some (sextet_base64Letter (by omega)),
      List.filterMap_cons_some (sextet_base64Letter (by omega)), List.filterMap_nil, readSextets,
      hvalue, octet_toNat]
  | case3 first second =>
    have hfirst := first.toNat_lt
    have hsecond := second.toNat_lt
    have hvalue : first.toNat / 4 * 4 + (first.toNat % 4 * 16 + second.toNat / 16) / 16 =
        first.toNat := by omega
    have hvalue' : (first.toNat % 4 * 16 + second.toNat / 16) % 16 * 16 +
        second.toNat % 16 * 4 / 4 = second.toNat := by omega
    rw [base64url, List.filterMap_cons_some (sextet_base64Letter (by omega)),
      List.filterMap_cons_some (sextet_base64Letter (by omega)),
      List.filterMap_cons_some (sextet_base64Letter (by omega)), List.filterMap_nil, readSextets,
      hvalue, hvalue', octet_toNat, octet_toNat]
  | case4 first second third rest ih =>
    have hfirst := first.toNat_lt
    have hsecond := second.toNat_lt
    have hthird := third.toNat_lt
    have hvalue : first.toNat / 4 * 4 + (first.toNat % 4 * 16 + second.toNat / 16) / 16 =
        first.toNat := by omega
    have hvalue' : (first.toNat % 4 * 16 + second.toNat / 16) % 16 * 16 +
        (second.toNat % 16 * 4 + third.toNat / 64) / 4 = second.toNat := by omega
    have hvalue'' : (second.toNat % 16 * 4 + third.toNat / 64) % 4 * 64 + third.toNat % 64 =
        third.toNat := by omega
    rw [base64url, List.filterMap_cons_some (sextet_base64Letter (by omega)),
      List.filterMap_cons_some (sextet_base64Letter (by omega)), List.filterMap_cons_some
      (sextet_base64Letter (by omega)), List.filterMap_cons_some (sextet_base64Letter (by omega)),
      readSextets, ih, hvalue, hvalue', hvalue'', octet_toNat, octet_toNat, octet_toNat]

/-- What reads octets back: of texts without lone surrogates, and of all octets. -/
class Decoders where
  fromUtf8 : List UInt8 → Text
  fromBase64url : Text → List UInt8
  fromUtf8_utf8 : ∀ text, Paired text → fromUtf8 (utf8 text) = text
  fromBase64url_base64url : ∀ octets, fromBase64url (base64url octets) = octets

theorem readBase64_padding (text : Text) : readBase64 (text ++ [61]) = readBase64 text := by
  have hpadding : sextet 61 = none := rfl
  simp [readBase64, List.filterMap_append, hpadding]

/-- Decoders of well-formed octets. -/
abbrev plainDecoders : Decoders where
  fromUtf8 := readUtf8
  fromBase64url := readBase64
  fromUtf8_utf8 _ := readUtf8_utf8
  fromBase64url_base64url := readBase64_base64url

/-! ### JSON texts -/

section

variable {ν : Type} [Numeric ν]

theorem isWhole_of_isNumberUnit {unit : UInt16} (h : isNumberUnit unit = true) :
    isWhole unit = true := by
  apply isWhole_of_lt
  simp only [isNumberUnit, Bool.or_eq_true, decide_eq_true_eq, beq_iff_eq] at h
  rcases h with ((((⟨-, h⟩ | rfl) | rfl) | rfl) | rfl) | rfl
  · exact UInt16.lt_of_le_of_lt h (by decide)
  all_goals decide

theorem isWhole_hexDigit {digit : ℕ} (h : digit < 16) : isWhole (hexDigit digit) = true := by
  have hall : ∀ digit < 16, isWhole (hexDigit digit) = true := by decide
  exact hall digit h

theorem paired_word {letters : String} (h : (word letters).all isWhole = true) :
    Paired (word letters) := paired_of_whole (List.all_eq_true.mp h)

theorem paired_quoteUnit (unit : UInt16) : Paired (quoteUnit unit) := by
  unfold quoteUnit
  cases hshort : shortEscape unit with
  | some letter =>
    have hall : ∀ entry ∈ escapes, isWhole entry.2 = true := by
      simp only [escapes, List.forall_mem_cons, List.not_mem_nil, false_imp_iff, implies_true,
        and_true]
      decide
    obtain ⟨entry, hfind, rfl⟩ := Option.map_eq_some_iff.mp hshort
    exact .whole (by decide) (.whole (hall entry (List.mem_of_find?_eq_some hfind)) .nil)
  | none =>
    dsimp only
    split_ifs with hescaped
    · have hlt := unit.toNat_lt
      refine .whole (by decide) (.whole (by decide) (paired_of_whole fun other hother ↦ ?_))
      simp only [hexDigits, List.mem_cons, List.not_mem_nil, or_false] at hother
      rcases hother with rfl | rfl | rfl | rfl <;> exact isWhole_hexDigit (by omega)
    · simp only [Bool.or_eq_true, not_or, Bool.not_eq_true] at hescaped
      exact .whole (by simp [isWhole, hescaped.1.2, hescaped.2]) .nil

theorem paired_quote (text : Text) : Paired (quote text) := by
  have hunits : Paired (quoteUnits text) := by
    induction text using quoteUnits.induct with
    | case1 => exact .nil
    | case2 unit => exact paired_quoteUnit unit
    | case3 unit next rest hpair ih =>
      rw [quoteUnits, if_pos hpair]
      obtain ⟨hlead, htrail⟩ := Bool.and_eq_true_iff.mp hpair
      exact .pair hlead htrail ih
    | case4 unit next rest hpair ih =>
      rw [quoteUnits, if_neg hpair]
      exact (paired_quoteUnit unit).append ih
  exact .whole (by decide) (hunits.append (.whole (by decide) .nil))

theorem paired_commas {texts : List Text} (h : ∀ text ∈ texts, Paired text) :
    Paired (commas texts) := by
  induction texts using commas.induct with
  | case1 => exact .nil
  | case2 text => exact h text (List.mem_singleton_self text)
  | case3 text next rest ih =>
    obtain ⟨htext, hrest⟩ := List.forall_mem_cons.mp h
    exact htext.append (.whole (by decide) (ih hrest))

/-- The text of a value has no lone surrogates. -/
theorem paired_stringify {value : Value ν} (h : Formed Printable value) :
    Paired (stringify value) := by
  induction h with
  | null => exact paired_word rfl
  | boolean value => cases value <;> exact paired_word rfl
  | number hgood =>
    exact paired_of_whole fun unit hunit ↦
      isWhole_of_isNumberUnit (Numeric.isNumberUnit_of_mem _ hgood.1 unit hunit)
  | string text => exact paired_quote text
  | @array items hitems ih =>
    rw [stringify, stringifyItems_eq]
    refine .whole (by decide) ((paired_commas fun text htext ↦ ?_).append (.whole (by decide) .nil))
    obtain ⟨item, hitem, rfl⟩ := List.mem_map.mp htext
    exact ih item hitem
  | @object members hkeys horder hmembers ih =>
    rw [stringify, stringifyMembers_eq]
    refine .whole (by decide) ((paired_commas fun text htext ↦ ?_).append (.whole (by decide) .nil))
    obtain ⟨member, hmember, rfl⟩ := List.mem_map.mp htext
    exact (paired_quote member.1).append (.whole (by decide) (ih member hmember))

end

end Encodings
