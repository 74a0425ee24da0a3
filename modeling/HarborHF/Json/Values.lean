import Mathlib.Algebra.Group.Nat.Defs
import Mathlib.Data.List.Perm.Basic
import Mathlib.Data.List.Sort
import Mathlib.Tactic.Common

/-!
# JSON values

A text is a list of UTF-16 code units. An object lists its members in the order of its properties:
first the keys that are array indices, from the lowest, then the other keys in the order in which
they were defined (`fromEntries`). Numbers are a parameter, with the text that the language gives
them.

`Formed` are the values a JSON text can have, and `Same` is equality up to the order of members.
-/

set_option autoImplicit false

namespace Json

abbrev Text := List UInt16

/-- The units of a number's text: digits, signs, the point and the letters of an exponent. -/
def isNumberUnit (unit : UInt16) : Bool :=
  decide (48 ≤ unit ∧ unit ≤ 57) || unit == 43 || unit == 45 || unit == 46 || unit == 69 || unit == 101

/-- The units a number's text starts with: a digit or a minus sign. -/
def startsNumber (unit : UInt16) : Bool := decide (48 ≤ unit ∧ unit ≤ 57) || unit == 45

/-- The numbers of the language. The text of a finite number reads back as the number, and the text
of negative zero as zero. -/
class Numeric (ν : Type) where
  finite : ν → Bool
  zero : ν
  isNegativeZero : ν → Bool
  toText : ν → Text
  ofText : Text → Option ν
  finite_zero : finite zero = true
  not_isNegativeZero_zero : isNegativeZero zero = false
  startsNumber_of_toText : ∀ value, finite value = true →
    ∃ first rest, toText value = first :: rest ∧ startsNumber first = true
  isNumberUnit_of_mem : ∀ value, finite value = true → ∀ unit ∈ toText value, isNumberUnit unit = true
  ofText_toText : ∀ value, finite value = true →
    ofText (toText value) = some (if isNegativeZero value then zero else value)

/-- A number in decimal. -/
def decimal (value : ℕ) : Text := (Nat.toDigits 10 value).map fun digit ↦ digit.val.toUInt16

/-- The greatest number up to which all integers are numbers of the language. -/
def maxSafeInteger : ℕ := 2 ^ 53 - 1

/-- Numbers with the safe natural numbers among them. -/
class Integers (ν : Type) extends Numeric ν where
  ofNat : ℕ → ν
  integer : ν → Option ℤ
  integer_ofNat : ∀ value, value ≤ maxSafeInteger → integer (ofNat value) = some (value : ℤ)
  finite_ofNat : ∀ value, value ≤ maxSafeInteger → finite (ofNat value) = true
  not_isNegativeZero_ofNat : ∀ value, value ≤ maxSafeInteger → isNegativeZero (ofNat value) = false
  toText_ofNat : ∀ value, value ≤ maxSafeInteger → toText (ofNat value) = decimal value

open Numeric

variable {ν : Type}

/-- Zero for negative zero. Numbers are equal when this makes them the same. -/
def unsigned [Numeric ν] (value : ν) : ν := if isNegativeZero value then zero else value

section

variable [Numeric ν]

@[simp] theorem unsigned_unsigned (value : ν) : unsigned (unsigned value) = unsigned value := by
  by_cases h : isNegativeZero value = true
  · simp [unsigned, h, not_isNegativeZero_zero]
  · simp [unsigned, h]

theorem finite_unsigned {value : ν} (h : finite value = true) : finite (unsigned value) = true := by
  unfold unsigned
  split_ifs
  · exact finite_zero
  · exact h

end

/-- The types of values that JSON has no text for, by their names. -/
inductive Unsupported
  | undefined
  | bigint
  | symbol
  | function
  deriving DecidableEq

inductive Value (ν : Type)
  | null
  | boolean (value : Bool)
  | number (value : ν)
  | string (text : Text)
  | array (items : List (Value ν))
  | object (members : List (Text × Value ν))
  | other (type : Unsupported)

/-- Induction over a value: arrays from their items, objects from the values of their members. -/
@[elab_as_elim]
theorem Value.induction {motive : Value ν → Prop} (null : motive .null)
    (boolean : ∀ value, motive (.boolean value)) (number : ∀ value, motive (.number value))
    (string : ∀ text, motive (.string text))
    (array : ∀ items, (∀ item ∈ items, motive item) → motive (.array items))
    (object : ∀ members, (∀ member ∈ members, motive member.2) → motive (.object members))
    (other : ∀ type, motive (.other type)) (value : Value ν) : motive value := by
  cases value with
  | null => exact null
  | boolean value => exact boolean value
  | number value => exact number value
  | string text => exact string text
  | array items =>
    exact array items fun item _ ↦
      Value.induction null boolean number string array object other item
  | object members =>
    exact object members fun member _ ↦
      Value.induction null boolean number string array object other member.2
  | other type => exact other type
termination_by value
decreasing_by
  · have := List.sizeOf_lt_of_mem ‹_ ∈ _›
    simp only [Value.array.sizeOf_spec]
    omega
  · have := List.sizeOf_lt_of_mem ‹_ ∈ _›
    obtain ⟨key, value⟩ := member
    simp only [Value.object.sizeOf_spec, Prod.mk.sizeOf_spec] at this ⊢
    omega

/-! ### The order of properties -/

/-- The array index a key stands for: the number below the greatest length whose decimal it is. -/
def arrayIndex (key : Text) : Option ℕ :=
  let index := key.foldl (fun sum unit ↦ 10 * sum + (unit.toNat - 48)) 0
  if decimal index = key ∧ index < 2 ^ 32 - 1 then some index else none

theorem arrayIndex_injective {key key' : Text} {index : ℕ} (h : arrayIndex key = some index)
    (h' : arrayIndex key' = some index) : key = key' := by
  unfold arrayIndex at h h'
  dsimp only at h h'
  split_ifs at h h' with hkey hkey'
  rw [← hkey.1, ← hkey'.1, Option.some.inj h, Option.some.inj h']

/-- The order in which properties are listed: indices from the lowest, then the other keys. -/
def Precedes (key key' : Text) : Prop :=
  ∀ index', arrayIndex key' = some index' → ∃ index, arrayIndex key = some index ∧ index < index'

variable {α : Type}

/-- An entry under an array index. -/
def isIndexed (entry : Text × α) : Bool := (arrayIndex entry.1).isSome

/-- The order of entries under array indices. -/
def IndexLE (entry entry' : Text × α) : Prop :=
  (arrayIndex entry.1).getD 0 ≤ (arrayIndex entry'.1).getD 0

instance : DecidableRel (IndexLE : Text × α → Text × α → Prop) :=
  fun _ _ ↦ inferInstanceAs (Decidable (_ ≤ _))

instance : IsTrans (Text × α) IndexLE := ⟨fun _ _ _ ↦ Nat.le_trans⟩

instance : Std.Total (IndexLE : Text × α → Text × α → Prop) := ⟨fun _ _ ↦ Nat.le_total _ _⟩

/-- `Object.fromEntries` for entries with different keys: the entries in the order of properties. -/
def fromEntries (entries : List (Text × α)) : List (Text × α) :=
  (entries.filter isIndexed).insertionSort IndexLE ++ entries.filter fun entry ↦ !isIndexed entry

variable {entries entries' : List (Text × α)}

theorem fromEntries_perm (entries : List (Text × α)) : (fromEntries entries).Perm entries :=
  ((List.perm_insertionSort _ _).append_right _).trans (List.filter_append_perm _ _)

theorem precedes_of_not_indexed {entry : Text × α} (h : (!isIndexed entry) = true) (key : Text) :
    Precedes key entry.1 := by
  intro index' hindex'
  simp [isIndexed, hindex'] at h

/-- Entries of different keys come in the order of properties. -/
theorem pairwise_fromEntries (hkeys : (entries.map Prod.fst).Nodup) :
    ((fromEntries entries).map Prod.fst).Pairwise Precedes := by
  have hnodup : ((fromEntries entries).map Prod.fst).Nodup :=
    ((fromEntries_perm entries).map Prod.fst).nodup_iff.mpr hkeys
  have hindexed : ∀ entry ∈ (entries.filter isIndexed).insertionSort IndexLE,
      isIndexed entry = true := by
    intro entry hentry
    exact (List.mem_filter.mp ((List.mem_insertionSort _).mp hentry)).2
  unfold fromEntries at hnodup ⊢
  rw [List.map_append] at hnodup ⊢
  rw [List.nodup_append] at hnodup
  refine List.pairwise_append.mpr ⟨?_, ?_, ?_⟩
  · have hstrict := (List.pairwise_insertionSort IndexLE (entries.filter isIndexed)).and
      (List.pairwise_map.mp hnodup.1)
    refine List.pairwise_map.mpr (hstrict.imp_of_mem ?_)
    rintro first second hfirst hsecond ⟨hle, hne⟩ index' hindex'
    obtain ⟨index, hindex⟩ := Option.isSome_iff_exists.mp (hindexed first hfirst)
    refine ⟨index, hindex, ?_⟩
    simp only [IndexLE, hindex, hindex', Option.getD_some] at hle
    by_contra hlt
    have heq : index = index' := by omega
    exact hne (arrayIndex_injective hindex (heq ▸ hindex'))
  · refine List.pairwise_map.mpr (List.Pairwise.imp_of_mem ?_
      (List.pairwise_of_forall fun _ _ ↦ trivial))
    exact fun _ hsecond _ ↦ precedes_of_not_indexed (List.mem_filter.mp hsecond).2 _
  · intro key hkey key' hkey'
    obtain ⟨entry, hentry, rfl⟩ := List.mem_map.mp hkey'
    exact precedes_of_not_indexed (List.mem_filter.mp hentry).2 key

/-- Entries of different keys are listed by their other keys: the indices have only one order. -/
theorem fromEntries_congr (hkeys : (entries.map Prod.fst).Nodup) (hperm : entries.Perm entries')
    (hothers : (entries.filter fun entry ↦ !isIndexed entry) =
      entries'.filter fun entry ↦ !isIndexed entry) : fromEntries entries = fromEntries entries' := by
  have hindices : (entries.filter isIndexed).insertionSort IndexLE =
      (entries'.filter isIndexed).insertionSort IndexLE := by
    have hsorted := ((List.perm_insertionSort IndexLE (entries.filter isIndexed)).trans
      (hperm.filter isIndexed)).trans (List.perm_insertionSort IndexLE _).symm
    refine hsorted.eq_of_pairwise ?_ (List.pairwise_insertionSort _ _)
      (List.pairwise_insertionSort _ _)
    intro entry entry' hentry hentry' hle hge
    obtain ⟨hmem, hindexed⟩ := List.mem_filter.mp ((List.mem_insertionSort _).mp hentry)
    obtain ⟨hmem', hindexed'⟩ := List.mem_filter.mp ((List.mem_insertionSort _).mp hentry')
    obtain ⟨index, hindex⟩ := Option.isSome_iff_exists.mp hindexed
    obtain ⟨index', hindex'⟩ := Option.isSome_iff_exists.mp hindexed'
    simp only [IndexLE, hindex, hindex', Option.getD_some] at hle hge
    obtain rfl : index = index' := by omega
    exact List.inj_on_of_nodup_map hkeys hmem (hperm.mem_iff.mpr hmem')
      (arrayIndex_injective hindex hindex')
  unfold fromEntries
  rw [hindices, hothers]

/-- A list whose marked elements come first is its marked elements and then the others. -/
theorem filter_append_filter {β : Type} {mark : β → Bool} {list : List β}
    (h : list.Pairwise fun first second ↦ mark second = true → mark first = true) :
    list.filter mark ++ list.filter (fun element ↦ !mark element) = list := by
  induction list with
  | nil => rfl
  | cons first rest ih =>
    obtain ⟨hfirst, hrest⟩ := List.pairwise_cons.mp h
    by_cases hmark : mark first = true
    · simpa [hmark] using ih hrest
    · have hnone : rest.filter mark = [] :=
        List.filter_eq_nil_iff.mpr fun element helement hmarked ↦
          hmark (hfirst element helement hmarked)
      have hih := ih hrest
      rw [hnone, List.nil_append] at hih
      simp [hmark, hnone, hih]

/-- Entries in the order of properties stay as they are. -/
theorem fromEntries_of_pairwise (h : (entries.map Prod.fst).Pairwise Precedes) :
    fromEntries entries = entries := by
  have hentries := List.pairwise_map.mp h
  have hsorted : (entries.filter isIndexed).Pairwise IndexLE := by
    refine (hentries.sublist List.filter_sublist).imp_of_mem fun {first second} _ hsecond hlt ↦ ?_
    obtain ⟨index', hindex'⟩ := Option.isSome_iff_exists.mp (List.mem_filter.mp hsecond).2
    obtain ⟨index, hindex, hlt⟩ := hlt index' hindex'
    simp only [IndexLE, hindex, hindex', Option.getD_some]
    omega
  unfold fromEntries
  rw [hsorted.insertionSort_eq]
  refine filter_append_filter (hentries.imp fun {first second} hprecedes hindexed ↦ ?_)
  obtain ⟨index', hindex'⟩ := Option.isSome_iff_exists.mp hindexed
  obtain ⟨index, hindex, -⟩ := hprecedes index' hindex'
  simp [isIndexed, hindex]

/-! ### Values of texts -/

/-- The values of JSON texts: numbers of a given kind, and objects whose keys differ and come in the
order of properties. -/
inductive Formed (good : ν → Prop) : Value ν → Prop
  | null : Formed good .null
  | boolean (value : Bool) : Formed good (.boolean value)
  | number {value : ν} (h : good value) : Formed good (.number value)
  | string (text : Text) : Formed good (.string text)
  | array {items : List (Value ν)} (h : ∀ item ∈ items, Formed good item) :
      Formed good (.array items)
  | object {members : List (Text × Value ν)} (hkeys : (members.map Prod.fst).Nodup)
      (horder : (members.map Prod.fst).Pairwise Precedes)
      (h : ∀ member ∈ members, Formed good member.2) : Formed good (.object members)

/-- A value within a value. -/
inductive Inside : Value ν → Value ν → Prop
  | refl (value : Value ν) : Inside value value
  | item {inner item : Value ν} {items : List (Value ν)} (hmem : item ∈ items)
      (h : Inside inner item) : Inside inner (.array items)
  | member {inner : Value ν} {member : Text × Value ν} {members : List (Text × Value ν)}
      (hmem : member ∈ members) (h : Inside inner member.2) : Inside inner (.object members)

theorem value_unique {members : List (Text × α)} (hkeys : (members.map Prod.fst).Nodup) {key : Text}
    {value value' : α} (h : (key, value) ∈ members) (h' : (key, value') ∈ members) :
    value = value' := by
  have hinjective := List.inj_on_of_nodup_map hkeys h h' rfl
  exact (Prod.mk.inj hinjective).2

section Same

variable [Numeric ν]

/-- Equality of values up to the order of members. -/
inductive Same : Value ν → Value ν → Prop
  | null : Same .null .null
  | boolean (value : Bool) : Same (.boolean value) (.boolean value)
  | number {value value' : ν} (h : unsigned value = unsigned value') :
      Same (.number value) (.number value')
  | string (text : Text) : Same (.string text) (.string text)
  | array {items items' : List (Value ν)} (hlength : items.length = items'.length)
      (h : ∀ (index : ℕ) (item item' : Value ν), items[index]? = some item →
        items'[index]? = some item' → Same item item') : Same (.array items) (.array items')
  | object {members members' : List (Text × Value ν)}
      (hkeys : ∀ key, key ∈ members.map Prod.fst ↔ key ∈ members'.map Prod.fst)
      (h : ∀ key value value', (key, value) ∈ members → (key, value') ∈ members' →
        Same value value') : Same (.object members) (.object members')

variable {good : ν → Prop} {first second third : Value ν}

theorem Same.refl (h : Formed good first) : Same first first := by
  induction h with
  | null => exact .null
  | boolean value => exact .boolean value
  | number h => exact .number rfl
  | string text => exact .string text
  | array h ih =>
    refine .array rfl fun index item item' hitem hitem' ↦ ?_
    rw [hitem] at hitem'
    obtain rfl := Option.some.inj hitem'
    exact ih item (List.mem_of_getElem? hitem)
  | object hkeys horder h ih =>
    refine .object (fun _ ↦ Iff.rfl) fun key value value' hvalue hvalue' ↦ ?_
    obtain rfl := value_unique hkeys hvalue hvalue'
    exact ih _ hvalue

theorem Same.symm (h : Same first second) : Same second first := by
  induction h with
  | null => exact .null
  | boolean value => exact .boolean value
  | number h => exact .number h.symm
  | string text => exact .string text
  | array hlength h ih =>
    exact .array hlength.symm fun index item item' hitem hitem' ↦ ih index item' item hitem' hitem
  | object hkeys h ih =>
    exact .object (fun key ↦ (hkeys key).symm) fun key value value' hvalue hvalue' ↦
      ih key value' value hvalue' hvalue

theorem Same.trans (h : Same first second) (h' : Same second third) : Same first third := by
  induction h generalizing third with
  | null => exact h'
  | boolean value => exact h'
  | number h =>
    cases h' with
    | number h' => exact .number (h.trans h')
  | string text => exact h'
  | array hlength h ih =>
    cases h' with
    | array hlength' h' =>
      refine .array (hlength.trans hlength') fun index item last hitem hlast ↦ ?_
      have hbound := (List.getElem?_eq_some_iff.mp hitem).1
      have hmiddle := List.getElem?_eq_getElem (hlength ▸ hbound)
      exact ih index item _ hitem hmiddle (h' index _ last hmiddle hlast)
  | object hkeys h ih =>
    cases h' with
    | object hkeys' h' =>
      refine .object (fun key ↦ (hkeys key).trans (hkeys' key)) fun key value last hvalue hlast ↦ ?_
      obtain ⟨⟨_, middle⟩, hmiddle, rfl⟩ :=
        List.mem_map.mp ((hkeys key).mp (List.mem_map.mpr ⟨_, hvalue, rfl⟩))
      exact ih _ value middle hvalue hmiddle (h' _ middle last hmiddle hlast)

end Same

/-! ### Natural numbers -/

theorem digit_unit {digit : Char} (h : digit.isDigit = true) :
    (48 ≤ digit.val.toUInt16 ∧ digit.val.toUInt16 ≤ 57) ∧
      Char.ofNat digit.val.toUInt16.toNat = digit := by
  simp only [Char.isDigit, Bool.and_eq_true, decide_eq_true_eq, ge_iff_le, UInt32.le_iff_toNat_le] at h
  have hnat : digit.val.toUInt16.toNat = digit.toNat := by
    rw [UInt32.toNat_toUInt16]
    show digit.val.toNat % 65536 = digit.val.toNat
    have : digit.val.toNat ≤ 57 := h.2
    omega
  refine ⟨?_, ?_⟩
  · rw [UInt16.le_iff_toNat_le, UInt16.le_iff_toNat_le, hnat]
    exact h
  · rw [hnat, Char.ofNat_toNat]

/-- Natural numbers, whose texts are decimals. -/
instance : Numeric ℕ where
  finite _ := true
  zero := 0
  isNegativeZero _ := false
  toText := decimal
  ofText text :=
    if text.all (fun unit ↦ decide (48 ≤ unit ∧ unit ≤ 57)) && !text.isEmpty then
      some (Nat.ofDigitChars 10 (text.map fun unit ↦ Char.ofNat unit.toNat) 0)
    else none
  finite_zero := rfl
  not_isNegativeZero_zero := rfl
  startsNumber_of_toText value _ := by
    have hne : Nat.toDigits 10 value ≠ [] := Nat.toDigits_ne_nil
    obtain ⟨first, rest, hdigits⟩ := List.exists_cons_of_ne_nil hne
    have hfirst := Nat.isDigit_of_mem_toDigits (by decide) (by decide)
      (hdigits ▸ List.mem_cons_self : first ∈ Nat.toDigits 10 value)
    refine ⟨_, _, by rw [decimal, hdigits, List.map_cons], ?_⟩
    simp [startsNumber, (digit_unit hfirst).1]
  isNumberUnit_of_mem value _ unit hunit := by
    obtain ⟨digit, hdigit, rfl⟩ := List.mem_map.mp hunit
    have hfirst := Nat.isDigit_of_mem_toDigits (by decide) (by decide) hdigit
    simp [isNumberUnit, (digit_unit hfirst).1]
  ofText_toText value _ := by
    have hdigits : ∀ digit ∈ Nat.toDigits 10 value, digit.isDigit = true :=
      fun digit ↦ Nat.isDigit_of_mem_toDigits (by decide) (by decide)
    have hall : (decimal value).all (fun unit ↦ decide (48 ≤ unit ∧ unit ≤ 57)) = true := by
      rw [List.all_eq_true]
      intro unit hunit
      obtain ⟨digit, hdigit, rfl⟩ := List.mem_map.mp hunit
      exact decide_eq_true (digit_unit (hdigits digit hdigit)).1
    have hback : (decimal value).map (fun unit ↦ Char.ofNat unit.toNat) = Nat.toDigits 10 value := by
      rw [decimal, List.map_map]
      exact (List.map_congr_left fun digit hdigit ↦ (digit_unit (hdigits digit hdigit)).2).trans
        (List.map_id _)
    have hne : (decimal value).isEmpty = false := by
      simp [decimal, Nat.toDigits_ne_nil]
    rw [hall, hback, hne, Nat.ofDigitChars_ten_toDigits]
    rfl

instance : Integers ℕ where
  ofNat value := value
  integer value := some value
  integer_ofNat _ _ := rfl
  finite_ofNat _ _ := rfl
  not_isNegativeZero_ofNat _ _ := rfl
  toText_ofNat _ _ := rfl

end Json
