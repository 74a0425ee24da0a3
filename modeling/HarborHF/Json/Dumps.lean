import Mathlib.Data.List.Lex
import HarborHF.Encodings.Octets

/-!
# JSON texts of Python

`dumps` is the text that `json.dumps` writes without spaces, with sorted keys and with escapes for all
but printable ASCII. Of a value whose texts are plain it is the text that `stringify` writes of the value
with its members in this order.
-/

set_option autoImplicit false

namespace Json

open Encodings

/-! ### Code points -/

/-- The code points of a text, where a lone surrogate is one of its own. -/
def codePoints : Text → List ℕ
  | [] => []
  | [unit] => [unit.toNat]
  | unit :: next :: rest =>
    if isLead unit && isTrail next then
      (0x10000 + (unit.toNat - 0xD800) * 0x400 + (next.toNat - 0xDC00)) :: codePoints rest
    else unit.toNat :: codePoints (next :: rest)

/-! ### Texts -/

/-- What `json.dumps` writes of a unit. -/
def dumpsUnit (unit : UInt16) : Text :=
  match shortEscape unit with
  | some letter => [92, letter]
  | none => if 32 ≤ unit ∧ unit ≤ 126 then [unit] else 92 :: 117 :: hexDigits unit

def dumpsText (text : Text) : Text := 34 :: (text.flatMap dumpsUnit ++ [34])

/-- Printable ASCII without the quote and the backslash. -/
def isPlain (unit : UInt16) : Bool :=
  decide (32 ≤ unit ∧ unit ≤ 126) && unit != 34 && unit != 92

abbrev PlainText (text : Text) : Prop := ∀ unit ∈ text, isPlain unit = true

theorem plain_of_all {texts : List Text} (h : (texts.all fun text ↦ text.all isPlain) = true) :
    ∀ text ∈ texts, PlainText text := fun text htext ↦
  List.all_eq_true.mp (List.all_eq_true.mp h text htext)

variable {text : Text} {unit : UInt16}

theorem isWhole_of_isPlain (h : isPlain unit = true) : isWhole unit = true := by
  apply isWhole_of_lt
  simp only [isPlain, Bool.and_eq_true, decide_eq_true_eq] at h
  exact UInt16.lt_of_le_of_lt h.1.1.2 (by decide)

theorem shortEscape_of_isPlain (h : isPlain unit = true) : shortEscape unit = none := by
  have hescapes : ∀ entry ∈ escapes, isPlain entry.1 = false := by
    simp only [escapes, List.forall_mem_cons, List.not_mem_nil, false_imp_iff, implies_true,
      and_true]
    decide
  unfold shortEscape
  rw [Option.map_eq_none_iff, List.find?_eq_none]
  intro entry hentry heq
  have hplain := hescapes entry hentry
  rw [beq_iff_eq.mp heq, h] at hplain
  cases hplain

theorem dumpsUnit_of_isPlain (h : isPlain unit = true) : dumpsUnit unit = [unit] := by
  have hrange : 32 ≤ unit ∧ unit ≤ 126 := by
    simp only [isPlain, Bool.and_eq_true, decide_eq_true_eq] at h
    exact h.1.1
  unfold dumpsUnit
  rw [shortEscape_of_isPlain h]
  exact if_pos hrange

theorem dumpsText_of_plain (h : PlainText text) : dumpsText text = 34 :: (text ++ [34]) := by
  have hunits : text.flatMap dumpsUnit = text := by
    induction text with
    | nil => rfl
    | cons unit rest ih =>
      obtain ⟨hunit, hrest⟩ := List.forall_mem_cons.mp h
      rw [List.flatMap_cons, dumpsUnit_of_isPlain hunit, ih hrest, List.singleton_append]
  rw [dumpsText, hunits]

theorem quoteUnit_of_isPlain (h : isPlain unit = true) : quoteUnit unit = [unit] := by
  have hwhole := isWhole_of_isPlain h
  simp only [isWhole, Bool.and_eq_true, Bool.not_eq_true'] at hwhole
  have hlow : ¬unit < 32 := by
    simp only [isPlain, Bool.and_eq_true, decide_eq_true_eq] at h
    exact UInt16.not_lt.mpr h.1.1.1
  unfold quoteUnit
  rw [shortEscape_of_isPlain h]
  simp [hlow, hwhole.1, hwhole.2]

theorem quote_of_plain (h : PlainText text) : quote text = 34 :: (text ++ [34]) := by
  have hunits : quoteUnits text = text := by
    induction text with
    | nil => rfl
    | cons unit rest ih =>
      obtain ⟨hunit, hrest⟩ := List.forall_mem_cons.mp h
      cases rest with
      | nil => exact quoteUnit_of_isPlain hunit
      | cons next rest =>
        have hwhole := isWhole_of_isPlain hunit
        simp only [isWhole, Bool.and_eq_true, Bool.not_eq_true'] at hwhole
        rw [quoteUnits, hwhole.1, Bool.false_and, if_neg Bool.false_ne_true,
          quoteUnit_of_isPlain hunit, ih hrest, List.singleton_append]
  rw [quote, hunits]

/-! ### Values -/

section

variable {α : Type}

/-- The order of keys in Python. -/
def PointLE (entry entry' : Text × α) : Prop := codePoints entry.1 ≤ codePoints entry'.1

instance : DecidableRel (PointLE : Text × α → Text × α → Prop) :=
  fun _ _ ↦ inferInstanceAs (Decidable (_ ≤ _))

def sortKeys (entries : List (Text × α)) : List (Text × α) := entries.insertionSort PointLE

variable {entries entries' : List (Text × α)}

theorem sortKeys_perm (entries : List (Text × α)) : (sortKeys entries).Perm entries :=
  List.perm_insertionSort _ _

instance : IsTrans (Text × α) PointLE := ⟨fun _ _ _ ↦ le_trans⟩

instance : Std.Total (PointLE : Text × α → Text × α → Prop) := ⟨fun _ _ ↦ le_total _ _⟩

/-- Entries are sorted into the order in which their keys ascend. -/
theorem sortKeys_eq (hperm : entries.Perm entries')
    (h : (entries'.map fun entry ↦ codePoints entry.1).Pairwise (· < ·)) :
    sortKeys entries = entries' := by
  have hsorted : entries'.Pairwise PointLE := by
    refine (List.pairwise_map.mp h).imp fun {entry entry'} hlt ↦ ?_
    exact le_of_lt (show codePoints entry.1 < codePoints entry'.1 from hlt)
  have hnodup : (entries'.map fun entry ↦ codePoints entry.1).Nodup := by
    refine h.imp ?_
    rintro first _ hlt rfl
    exact lt_irrefl _ hlt
  have hmem := (sortKeys_perm entries).trans hperm
  refine hmem.eq_of_pairwise ?_ (List.pairwise_insertionSort _ _) hsorted
  intro entry entry' hentry hentry' hle hge
  exact List.inj_on_of_nodup_map hnodup (hmem.mem_iff.mp hentry) hentry' (le_antisymm hle hge)

end

variable {ν : Type} [Numeric ν]

/-- The text of a member whose value has a text. -/
def dumpsMember (member : Text × Text) : Text := dumpsText member.1 ++ 58 :: member.2

mutual

/-- `json.dumps` with sorted keys and without spaces. -/
def dumps : Value ν → Text
  | .null => word "null"
  | .boolean true => word "true"
  | .boolean false => word "false"
  | .number value => Numeric.toText value
  | .string text => dumpsText text
  | .array items => 91 :: (commas (dumpsItems items) ++ [93])
  | .object members => 123 :: (commas ((sortKeys (dumpsMembers members)).map dumpsMember) ++ [125])
  | .other _ => []

def dumpsItems : List (Value ν) → List Text
  | [] => []
  | item :: rest => dumps item :: dumpsItems rest

def dumpsMembers : List (Text × Value ν) → List (Text × Text)
  | [] => []
  | (key, value) :: rest => (key, dumps value) :: dumpsMembers rest

end

theorem dumpsItems_eq (items : List (Value ν)) : dumpsItems items = items.map dumps := by
  induction items with
  | nil => rfl
  | cons item rest ih => rw [dumpsItems, ih, List.map_cons]

theorem dumpsMembers_eq (members : List (Text × Value ν)) :
    dumpsMembers members = members.map fun member ↦ (member.1, dumps member.2) := by
  induction members with
  | nil => rfl
  | cons member rest ih => rw [dumpsMembers, ih, List.map_cons]

theorem dumps_array (items : List (Value ν)) :
    dumps (.array items) = 91 :: (commas (items.map dumps) ++ [93]) := by
  rw [dumps, dumpsItems_eq]

/-- An object whose keys are plain, by its sorted members. -/
theorem dumps_object (members sorted : List (Text × Value ν)) (keys : List Text)
    (hlength : members.length = sorted.length) (hsubset : ∀ member ∈ sorted, member ∈ members)
    (hkeys : sorted.map Prod.fst = keys) (hsorted : (keys.map codePoints).Pairwise (· < ·))
    (hplain : ∀ key ∈ keys, PlainText key) : dumps (.object members) =
      123 :: (commas (sorted.map fun member ↦ quote member.1 ++ 58 :: dumps member.2) ++ [125]) := by
  subst hkeys
  rw [List.map_map] at hsorted
  have hdifferent : (sorted.map (codePoints ∘ Prod.fst)).Nodup := by
    refine hsorted.imp ?_
    rintro first _ hlt rfl
    exact lt_irrefl _ hlt
  have hnodup : sorted.Nodup := List.Nodup.of_map _ hdifferent
  have hperm : members.Perm sorted :=
    ((List.subperm_of_subset hnodup hsubset).perm_of_length_le hlength.le).symm
  have hsort : sortKeys (dumpsMembers members) =
      sorted.map fun member ↦ (member.1, dumps member.2) := by
    rw [dumpsMembers_eq]
    refine sortKeys_eq (hperm.map _) ?_
    rw [List.map_map]
    exact hsorted
  rw [dumps, hsort, List.map_map]
  have hmember : ∀ member ∈ sorted, (dumpsMember ∘ fun member : Text × Value ν ↦
      (member.1, dumps member.2)) member = quote member.1 ++ 58 :: dumps member.2 := by
    intro member hmember
    have hkey := hplain member.1 (List.mem_map_of_mem hmember)
    rw [quote_of_plain hkey, ← dumpsText_of_plain hkey]
    rfl
  rw [List.map_congr_left hmember]

/-! ### ASCII -/

/-- ASCII texts, which have one octet for each unit. -/
abbrev AsciiText (text : Text) : Prop := ∀ unit ∈ text, unit.toNat < 128

theorem utf8_of_ascii {text : Text} (h : AsciiText text) :
    utf8 text = text.map fun unit ↦ octet unit.toNat := by
  induction text with
  | nil => rfl
  | cons unit rest ih =>
    obtain ⟨hunit, hrest⟩ := List.forall_mem_cons.mp h
    have hwhole : isWhole unit = true := isWhole_of_lt (by
      rw [UInt16.lt_iff_toNat_lt]
      exact lt_of_lt_of_le hunit (by decide))
    rw [utf8_whole hwhole, ih hrest, utf8Unit]
    simp [hunit]

theorem length_utf8_of_ascii {text : Text} (h : AsciiText text) : (utf8 text).length = text.length := by
  rw [utf8_of_ascii h, List.length_map]

theorem ascii_of_all {text : Text} (h : (text.all fun unit ↦ decide (unit.toNat < 128)) = true) :
    AsciiText text := fun unit hunit ↦ of_decide_eq_true (List.all_eq_true.mp h unit hunit)

theorem ascii_append {first second : Text} (hfirst : AsciiText first) (hsecond : AsciiText second) :
    AsciiText (first ++ second) :=
  List.forall_mem_append.mpr ⟨hfirst, hsecond⟩

theorem ascii_commas {texts : List Text} (h : ∀ text ∈ texts, AsciiText text) :
    AsciiText (commas texts) := by
  induction texts using commas.induct with
  | case1 => exact List.forall_mem_nil _
  | case2 text => exact h text (List.mem_singleton_self text)
  | case3 text next rest ih =>
    obtain ⟨htext, hrest⟩ := List.forall_mem_cons.mp h
    exact ascii_append htext (List.forall_mem_cons.mpr ⟨by decide, ih hrest⟩)

theorem ascii_dumpsUnit (unit : UInt16) : AsciiText (dumpsUnit unit) := by
  unfold dumpsUnit
  cases hshort : shortEscape unit with
  | some letter =>
    have hall : ∀ entry ∈ escapes, entry.2.toNat < 128 := by
      simp only [escapes, List.forall_mem_cons, List.not_mem_nil, false_imp_iff, implies_true,
        and_true]
      decide
    obtain ⟨entry, hfind, rfl⟩ := Option.map_eq_some_iff.mp hshort
    exact List.forall_mem_cons.mpr ⟨by decide, List.forall_mem_cons.mpr
      ⟨hall entry (List.mem_of_find?_eq_some hfind), List.forall_mem_nil _⟩⟩
  | none =>
    dsimp only
    split_ifs with hrange
    · have hle := UInt16.le_iff_toNat_le.mp hrange.2
      refine List.forall_mem_cons.mpr ⟨lt_of_le_of_lt hle (by decide), List.forall_mem_nil _⟩
    · have hdigit : ∀ digit < 16, (hexDigit digit).toNat < 128 := by decide
      have hlt := unit.toNat_lt
      simp only [hexDigits, List.forall_mem_cons, List.not_mem_nil, false_imp_iff, implies_true,
        and_true]
      exact ⟨by decide, by decide, hdigit _ (by omega), hdigit _ (by omega), hdigit _ (by omega),
        hdigit _ (by omega)⟩

theorem ascii_dumpsText (text : Text) : AsciiText (dumpsText text) := by
  refine List.forall_mem_cons.mpr ⟨by decide, ascii_append ?_ (ascii_of_all (by decide))⟩
  exact List.forall_mem_flatMap.mpr fun unit _ ↦ ascii_dumpsUnit unit

theorem ascii_of_isNumberUnit {unit : UInt16} (h : isNumberUnit unit = true) : unit.toNat < 128 := by
  simp only [isNumberUnit, Bool.or_eq_true, decide_eq_true_eq, beq_iff_eq] at h
  rcases h with ((((⟨-, h⟩ | rfl) | rfl) | rfl) | rfl) | rfl
  · exact lt_of_le_of_lt (UInt16.le_iff_toNat_le.mp h) (by decide)
  all_goals decide

/-- The texts of Python are ASCII. -/
theorem ascii_dumps (value : Value ℕ) : AsciiText (dumps value) := by
  induction value using Value.induction with
  | null => exact ascii_of_all (by rw [dumps]; decide)
  | boolean value => cases value <;> exact ascii_of_all (by rw [dumps]; decide)
  | number value =>
    intro unit hunit
    rw [dumps] at hunit
    exact ascii_of_isNumberUnit (Numeric.isNumberUnit_of_mem value rfl unit hunit)
  | string text =>
    rw [dumps]
    exact ascii_dumpsText text
  | array items ih =>
    rw [dumps_array]
    refine List.forall_mem_cons.mpr
      ⟨by decide, ascii_append (ascii_commas ?_) (ascii_of_all (by decide))⟩
    exact List.forall_mem_map.mpr ih
  | object members ih =>
    rw [dumps]
    refine List.forall_mem_cons.mpr
      ⟨by decide, ascii_append (ascii_commas ?_) (ascii_of_all (by decide))⟩
    refine List.forall_mem_map.mpr fun member hmember ↦ ?_
    rw [(sortKeys_perm _).mem_iff, dumpsMembers_eq] at hmember
    obtain ⟨entry, hentry, rfl⟩ := List.mem_map.mp hmember
    exact ascii_append (ascii_dumpsText entry.1) (List.forall_mem_cons.mpr ⟨by decide, ih entry hentry⟩)
  | other type =>
    rw [dumps]
    exact List.forall_mem_nil _

end Json
