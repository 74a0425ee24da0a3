import HarborHF.Json.Values

/-!
# JSON texts

`stringify` is the text of a value without spaces, `parse` the value of a text. Parsing recurses on
fuel, for which the length of the text is always enough: `parse_stringify` reads back every value
whose numbers are finite and not negative zero.
-/

set_option autoImplicit false

namespace Json

open Numeric

/-- The units of an ASCII word. -/
def word (letters : String) : Text := letters.toList.map fun letter ↦ letter.val.toUInt16

/-! ### Strings -/

/-- The units that a backslash and a letter stand for, with their letters. -/
def escapes : List (UInt16 × UInt16) :=
  [(8, 98), (9, 116), (10, 110), (12, 102), (13, 114), (34, 34), (92, 92)]

def shortEscape (unit : UInt16) : Option UInt16 :=
  (escapes.find? fun entry ↦ entry.1 == unit).map Prod.snd

/-- A slash may be escaped, too. -/
def unescape (letter : UInt16) : Option UInt16 :=
  (((47, 47) :: escapes).find? fun entry ↦ entry.2 == letter).map Prod.fst

def hexDigit (digit : ℕ) : UInt16 :=
  if digit < 10 then UInt16.ofNat (48 + digit) else UInt16.ofNat (87 + digit)

def hexValue (unit : UInt16) : Option ℕ :=
  if 48 ≤ unit ∧ unit ≤ 57 then some (unit.toNat - 48)
  else if 97 ≤ unit ∧ unit ≤ 102 then some (unit.toNat - 87)
  else if 65 ≤ unit ∧ unit ≤ 70 then some (unit.toNat - 55)
  else none

/-- The four hexadecimal digits of a unit. -/
def hexDigits (unit : UInt16) : Text :=
  [hexDigit (unit.toNat / 4096), hexDigit (unit.toNat / 256 % 16), hexDigit (unit.toNat / 16 % 16),
    hexDigit (unit.toNat % 16)]

def readHex (first second third fourth : UInt16) : Option UInt16 := do
  let first ← hexValue first
  let second ← hexValue second
  let third ← hexValue third
  let fourth ← hexValue fourth
  return UInt16.ofNat (first * 4096 + second * 256 + third * 16 + fourth)

/-- The first half of a surrogate pair. -/
def isLead (unit : UInt16) : Bool := decide (0xD800 ≤ unit ∧ unit ≤ 0xDBFF)

/-- The second half of a surrogate pair. -/
def isTrail (unit : UInt16) : Bool := decide (0xDC00 ≤ unit ∧ unit ≤ 0xDFFF)

/-- A unit in a quoted text: control characters and lone surrogates are escaped. -/
def quoteUnit (unit : UInt16) : Text :=
  match shortEscape unit with
  | some letter => [92, letter]
  | none => if unit < 32 || isLead unit || isTrail unit then 92 :: 117 :: hexDigits unit else [unit]

/-- The units of a quoted text. A surrogate pair stays as it is. -/
def quoteUnits : Text → Text
  | [] => []
  | [unit] => quoteUnit unit
  | unit :: next :: rest =>
    if isLead unit && isTrail next then unit :: next :: quoteUnits rest
    else quoteUnit unit ++ quoteUnits (next :: rest)

/-- A text in quotation marks. -/
def quote (text : Text) : Text := 34 :: (quoteUnits text ++ [34])

/-- The text up to the closing quotation mark, and what follows it. -/
def parseString : Text → Option (Text × Text)
  | [] => none
  | unit :: rest =>
    if unit = 34 then some ([], rest)
    else if unit = 92 then
      match rest with
      | [] => none
      | letter :: rest =>
        if letter = 117 then
          match rest with
          | first :: second :: third :: fourth :: rest => do
            let value ← readHex first second third fourth
            let (text, last) ← parseString rest
            return (value :: text, last)
          | _ => none
        else do
          let value ← unescape letter
          let (text, last) ← parseString rest
          return (value :: text, last)
    else if unit < 32 then none
    else do
      let (text, last) ← parseString rest
      return (unit :: text, last)

theorem hexValue_hexDigit {digit : ℕ} (h : digit < 16) : hexValue (hexDigit digit) = some digit := by
  revert digit
  decide

theorem readHex_hexDigits (unit : UInt16) :
    readHex (hexDigit (unit.toNat / 4096)) (hexDigit (unit.toNat / 256 % 16))
      (hexDigit (unit.toNat / 16 % 16)) (hexDigit (unit.toNat % 16)) = some unit := by
  have hunit := unit.toNat_lt
  unfold readHex
  rw [hexValue_hexDigit (by omega), hexValue_hexDigit (by omega), hexValue_hexDigit (by omega),
    hexValue_hexDigit (by omega)]
  have hsum : unit.toNat / 4096 * 4096 + unit.toNat / 256 % 16 * 256 + unit.toNat / 16 % 16 * 16 +
      unit.toNat % 16 = unit.toNat := by omega
  show some (UInt16.ofNat (unit.toNat / 4096 * 4096 + unit.toNat / 256 % 16 * 256 +
    unit.toNat / 16 % 16 * 16 + unit.toNat % 16)) = some unit
  rw [hsum, UInt16.ofNat_toNat]

theorem unescape_of_shortEscape {unit letter : UInt16} (h : shortEscape unit = some letter) :
    letter ≠ 117 ∧ unescape letter = some unit := by
  have htable : ∀ entry ∈ escapes, entry.2 ≠ 117 ∧ unescape entry.2 = some entry.1 := by
    simp only [escapes, List.forall_mem_cons, List.not_mem_nil, false_imp_iff, implies_true, and_true]
    decide
  obtain ⟨entry, hfind, rfl⟩ := Option.map_eq_some_iff.mp h
  have hunit : entry.1 = unit := by simpa using List.find?_some hfind
  rw [← hunit]
  exact htable entry (List.mem_of_find?_eq_some hfind)

@[simp] theorem parseString_close (rest : Text) : parseString (34 :: rest) = some ([], rest) := by
  rw [parseString.eq_def]
  exact if_pos rfl

theorem parseString_cons {unit : UInt16} (hquote : unit ≠ 34) (hescape : unit ≠ 92)
    (hcontrol : ¬ unit < 32) (rest : Text) :
    parseString (unit :: rest) = (parseString rest).map fun result ↦ (unit :: result.1, result.2) := by
  rw [parseString.eq_def]
  dsimp only
  rw [if_neg hquote, if_neg hescape, if_neg hcontrol]
  cases parseString rest <;> rfl

theorem parseString_quoteUnit (unit : UInt16) (rest : Text) : parseString (quoteUnit unit ++ rest) =
      (parseString rest).map fun result ↦ (unit :: result.1, result.2) := by
  unfold quoteUnit
  split
  next letter hletter =>
    obtain ⟨hne, hunescape⟩ := unescape_of_shortEscape hletter
    show parseString (92 :: letter :: rest) = _
    rw [parseString.eq_def]
    dsimp only
    rw [if_neg (by decide), if_pos rfl, if_neg hne, hunescape]
    cases parseString rest <;> rfl
  next hnone =>
    by_cases hhex : (unit < 32 || isLead unit || isTrail unit) = true
    · rw [if_pos hhex]
      show parseString (92 :: 117 :: hexDigit _ :: hexDigit _ :: hexDigit _ :: hexDigit _ :: rest) = _
      rw [parseString.eq_def]
      dsimp only
      rw [if_neg (by decide), if_pos rfl, if_pos rfl, readHex_hexDigits]
      cases parseString rest <;> rfl
    · rw [if_neg hhex]
      simp only [Bool.or_eq_true, decide_eq_true_eq, not_or] at hhex
      refine parseString_cons ?_ ?_ hhex.1.1 rest
      · rintro rfl
        exact absurd hnone (by decide)
      · rintro rfl
        exact absurd hnone (by decide)

/-- A quoted text reads back. -/
theorem parseString_quoteUnits (text rest : Text) :
    parseString (quoteUnits text ++ 34 :: rest) = some (text, rest) := by
  induction text using quoteUnits.induct with
  | case1 => rw [quoteUnits, List.nil_append, parseString_close]
  | case2 unit =>
    rw [quoteUnits, parseString_quoteUnit, parseString_close]
    rfl
  | case3 unit next tail hpair ih =>
    rw [quoteUnits, if_pos hpair]
    obtain ⟨hlead, htrail⟩ := Bool.and_eq_true_iff.mp hpair
    have hlarge : ∀ half : UInt16, 0xD800 ≤ half → half ≠ 34 ∧ half ≠ 92 ∧ ¬ half < 32 := by
      intro half hhalf
      refine ⟨?_, ?_, ?_⟩
      · rintro rfl
        exact absurd hhalf (by decide)
      · rintro rfl
        exact absurd hhalf (by decide)
      · rw [UInt16.le_iff_toNat_le] at hhalf
        rw [UInt16.lt_iff_toNat_lt]
        simp at hhalf ⊢
        omega
    have hfirst := hlarge unit (of_decide_eq_true hlead).1
    have hsecond := hlarge next
      (UInt16.le_trans (by decide) (of_decide_eq_true htrail).1)
    rw [List.cons_append, List.cons_append, parseString_cons hfirst.1 hfirst.2.1 hfirst.2.2,
      parseString_cons hsecond.1 hsecond.2.1 hsecond.2.2, ih]
    rfl
  | case4 unit next tail hpair ih =>
    rw [quoteUnits, if_neg hpair, List.append_assoc, parseString_quoteUnit, ih]
    rfl

/-! ### Values -/

section

variable {ν : Type} [Numeric ν]

/-- Texts with commas between them. -/
def commas : List Text → Text
  | [] => []
  | [text] => text
  | text :: next :: rest => text ++ 44 :: commas (next :: rest)

mutual

/-- The text of a value. `JSON.stringify` has none for a value of another type. -/
def stringify : Value ν → Text
  | .null => word "null"
  | .boolean true => word "true"
  | .boolean false => word "false"
  | .number value => toText value
  | .string text => quote text
  | .array items => 91 :: (commas (stringifyItems items) ++ [93])
  | .object members => 123 :: (commas (stringifyMembers members) ++ [125])
  | .other _ => []

def stringifyItems : List (Value ν) → List Text
  | [] => []
  | item :: rest => stringify item :: stringifyItems rest

def stringifyMembers : List (Text × Value ν) → List Text
  | [] => []
  | (key, value) :: rest => (quote key ++ 58 :: stringify value) :: stringifyMembers rest

end

theorem stringifyItems_eq (items : List (Value ν)) : stringifyItems items = items.map stringify := by
  induction items with
  | nil => rfl
  | cons item rest ih => rw [stringifyItems, ih, List.map_cons]

/-- The text of a member. -/
def memberText (member : Text × Value ν) : Text := quote member.1 ++ 58 :: stringify member.2

theorem stringifyMembers_eq (members : List (Text × Value ν)) :
    stringifyMembers members = members.map memberText := by
  induction members with
  | nil => rfl
  | cons member rest ih => rw [stringifyMembers, ih, List.map_cons, memberText]

def isSpace (unit : UInt16) : Bool := unit == 32 || unit == 9 || unit == 10 || unit == 13

def skipSpaces (text : Text) : Text := text.dropWhile isSpace

/-- The members of an object that is read: of two with one key the value of the last is kept. -/
def overwrite {α : Type} (members : List (Text × α)) : List (Text × α) :=
  members.foldl (fun kept entry ↦
    if kept.any fun member ↦ member.1 == entry.1 then
      kept.map fun member ↦ if member.1 = entry.1 then entry else member
    else kept ++ [entry]) []

/-- A word or a number. -/
def parseScalar (text : Text) : Option (Value ν × Text) :=
  if (word "null").isPrefixOf text then some (.null, text.drop 4)
  else if (word "true").isPrefixOf text then some (.boolean true, text.drop 4)
  else if (word "false").isPrefixOf text then some (.boolean false, text.drop 5)
  else (ofText (text.takeWhile isNumberUnit)).map fun value ↦
    (.number value, text.dropWhile isNumberUnit)

mutual

/-- The value a text starts with, and what follows it. -/
def parseValue : ℕ → Text → Option (Value ν × Text)
  | 0, _ => none
  | fuel + 1, text =>
    match skipSpaces text with
    | [] => none
    | unit :: rest =>
      if unit = 34 then do
        let (text, last) ← parseString rest
        return (.string text, last)
      else if unit = 91 then
        match skipSpaces rest with
        | [] => none
        | next :: tail =>
          if next = 93 then some (.array [], tail)
          else do
            let (items, last) ← parseItems fuel (next :: tail)
            return (.array items, last)
      else if unit = 123 then
        match skipSpaces rest with
        | [] => none
        | next :: tail =>
          if next = 125 then some (.object [], tail)
          else do
            let (members, last) ← parseMembers fuel (next :: tail)
            return (.object (fromEntries (overwrite members)), last)
      else parseScalar (unit :: rest)

/-- The items of an array up to its bracket. -/
def parseItems : ℕ → Text → Option (List (Value ν) × Text)
  | 0, _ => none
  | fuel + 1, text => do
    let (item, rest) ← parseValue fuel text
    match skipSpaces rest with
    | [] => none
    | unit :: rest =>
      if unit = 44 then do
        let (items, last) ← parseItems fuel rest
        return (item :: items, last)
      else if unit = 93 then return ([item], rest)
      else none

/-- The members of an object up to its brace. -/
def parseMembers : ℕ → Text → Option (List (Text × Value ν) × Text)
  | 0, _ => none
  | fuel + 1, text =>
    match skipSpaces text with
    | [] => none
    | unit :: rest =>
      if unit ≠ 34 then none
      else do
        let (key, rest) ← parseString rest
        match skipSpaces rest with
        | [] => none
        | unit :: rest =>
          if unit ≠ 58 then none
          else do
            let (value, rest) ← parseValue fuel rest
            match skipSpaces rest with
            | [] => none
            | unit :: rest =>
              if unit = 44 then do
                let (members, last) ← parseMembers fuel rest
                return ((key, value) :: members, last)
              else if unit = 125 then return ([(key, value)], rest)
              else none

end

/-- The value of a text, if it has one. -/
def parse (text : Text) : Option (Value ν) := do
  let (value, rest) ← parseValue (text.length + 1) text
  if skipSpaces rest = [] then return value else none

/-! ### Reading back -/

/-- What may follow a value, so that a number does not go on. -/
def Ends (rest : Text) : Prop := ∀ unit ∈ rest.head?, isNumberUnit unit = false

/-- The numbers that their texts give back. -/
def Printable (value : ν) : Prop := finite value = true ∧ unsigned value = value

theorem skipSpaces_cons {unit : UInt16} (h : isSpace unit = false) (rest : Text) :
    skipSpaces (unit :: rest) = unit :: rest := by
  simp [skipSpaces, h]

/-- Members with different keys are all kept. -/
theorem overwrite_of_nodup {α : Type} {members : List (Text × α)}
    (h : (members.map Prod.fst).Nodup) : overwrite members = members := by
  have hall : ∀ kept : List (Text × α), ((kept ++ members).map Prod.fst).Nodup →
      members.foldl (fun kept entry ↦
        if kept.any fun member ↦ member.1 == entry.1 then
          kept.map fun member ↦ if member.1 = entry.1 then entry else member
        else kept ++ [entry]) kept = kept ++ members := by
    clear h
    induction members with
    | nil => simp
    | cons entry rest ih =>
      intro kept hnodup
      have hfree : (kept.any fun member ↦ member.1 == entry.1) = false := by
        rw [List.any_eq_false]
        intro member hmember heq
        rw [List.map_append, List.nodup_append] at hnodup
        exact hnodup.2.2 member.1 (List.mem_map_of_mem hmember) entry.1 (by simp) (by simpa using heq)
      rw [List.foldl_cons, if_neg (by simp [hfree]), ih _ (by simpa using hnodup)]
      simp
  exact hall [] (by simpa using h)

theorem parseScalar_null (rest : Text) :
    parseScalar (word "null" ++ rest) = some ((.null : Value ν), rest) := rfl

theorem parseScalar_true (rest : Text) :
    parseScalar (word "true" ++ rest) = some ((.boolean true : Value ν), rest) := rfl

theorem parseScalar_false (rest : Text) :
    parseScalar (word "false" ++ rest) = some ((.boolean false : Value ν), rest) := rfl

/-- What a number's text starts with starts nothing else. -/
theorem startsNumber_other {unit : UInt16} (h : startsNumber unit = true) :
    isSpace unit = false ∧ unit ≠ 34 ∧ unit ≠ 91 ∧ unit ≠ 93 ∧ unit ≠ 123 ∧ unit ≠ 110 ∧
      unit ≠ 116 ∧ unit ≠ 102 := by
  have hall : ∀ other ∈ ([32, 9, 10, 13, 34, 91, 93, 123, 110, 116, 102] : Text),
      startsNumber other = false := by
    simp only [List.forall_mem_cons, List.not_mem_nil, false_imp_iff, implies_true, and_true]
    decide
  have hne : ∀ other ∈ ([32, 9, 10, 13, 34, 91, 93, 123, 110, 116, 102] : Text), unit ≠ other := by
    rintro other hother rfl
    rw [hall unit hother] at h
    cases h
  simp only [List.forall_mem_cons, List.not_mem_nil, false_imp_iff, implies_true, and_true] at hne
  obtain ⟨hspace, htab, hline, hreturn, hrest⟩ := hne
  refine ⟨?_, hrest⟩
  simp [isSpace, hspace, htab, hline, hreturn]

theorem parseScalar_number {value : ν} (h : Printable value) {rest : Text} (hends : Ends rest) :
    parseScalar (toText value ++ rest) = some (.number value, rest) := by
  obtain ⟨first, tail, htext, hfirst⟩ := startsNumber_of_toText value h.1
  obtain ⟨-, -, -, -, -, hnull, htrue, hfalse⟩ := startsNumber_other hfirst
  have hunits := isNumberUnit_of_mem value h.1
  have hstop : rest.takeWhile isNumberUnit = [] ∧ rest.dropWhile isNumberUnit = rest := by
    cases rest with
    | nil => exact ⟨rfl, rfl⟩
    | cons unit rest =>
      have hunit : isNumberUnit unit = false := hends unit rfl
      exact ⟨List.takeWhile_cons_of_neg (by simp [hunit]), List.dropWhile_cons_of_neg (by simp [hunit])⟩
  have htake : (toText value ++ rest).takeWhile isNumberUnit = toText value := by
    rw [List.takeWhile_append_of_pos hunits, hstop.1, List.append_nil]
  have hdrop : (toText value ++ rest).dropWhile isNumberUnit = rest := by
    rw [List.dropWhile_append_of_pos hunits, hstop.2]
  have hword : ∀ (letter : UInt16) (letters : Text), first ≠ letter →
      (letter :: letters).isPrefixOf (toText value ++ rest) = false := by
    intro letter letters hne
    rw [htext]
    simp [List.isPrefixOf, hne.symm]
  unfold parseScalar
  rw [if_neg (by rw [show word "null" = 110 :: [117, 108, 108] from rfl, hword _ _ hnull]; decide),
    if_neg (by rw [show word "true" = 116 :: [114, 117, 101] from rfl, hword _ _ htrue]; decide),
    if_neg (by rw [show word "false" = 102 :: [97, 108, 115, 101] from rfl, hword _ _ hfalse]; decide),
    htake, hdrop, ofText_toText value h.1]
  show some (Value.number (unsigned value), rest) = _
  rw [h.2]

theorem parseValue_scalar {unit : UInt16} (hspace : isSpace unit = false) (hquote : unit ≠ 34)
    (hbracket : unit ≠ 91) (hbrace : unit ≠ 123) (fuel : ℕ) (rest : Text) :
    parseValue (fuel + 1) (unit :: rest) = (parseScalar (unit :: rest) : Option (Value ν × Text)) := by
  rw [parseValue, skipSpaces_cons hspace]
  dsimp only
  rw [if_neg hquote, if_neg hbracket, if_neg hbrace]

/-- The first unit of a value's text. -/
theorem stringify_eq_cons {good : ν → Prop} (hgood : ∀ value, good value → finite value = true)
    {value : Value ν} (h : Formed good value) :
    ∃ unit rest, stringify value = unit :: rest ∧ isSpace unit = false ∧ unit ≠ 93 := by
  cases h with
  | null => exact ⟨_, _, rfl, by decide, by decide⟩
  | boolean value =>
    cases value with
    | true => exact ⟨_, _, rfl, by decide, by decide⟩
    | false => exact ⟨_, _, rfl, by decide, by decide⟩
  | number hnumber =>
    obtain ⟨first, tail, htext, hfirst⟩ := startsNumber_of_toText _ (hgood _ hnumber)
    obtain ⟨hspace, -, -, hne, -⟩ := startsNumber_other hfirst
    exact ⟨first, tail, htext, hspace, hne⟩
  | string text => exact ⟨_, _, rfl, by decide, by decide⟩
  | array hitems => exact ⟨_, _, rfl, by decide, by decide⟩
  | object hkeys horder hmembers => exact ⟨_, _, rfl, by decide, by decide⟩

/-- A value is read back from its text, whatever follows it, with fuel for its length. -/
def Reads (value : Value ν) : Prop :=
  ∀ (fuel : ℕ) (rest : Text), (stringify value).length + 1 ≤ fuel → Ends rest →
    parseValue fuel (stringify value ++ rest) = some (value, rest)

theorem parseItems_stringify {items : List (Value ν)} (hne : items ≠ [])
    (hreads : ∀ item ∈ items, Reads item) {fuel : ℕ} (rest : Text)
    (hfuel : (commas (items.map stringify)).length + 2 ≤ fuel) :
    parseItems fuel (commas (items.map stringify) ++ 93 :: rest) = some (items, rest) := by
  induction items generalizing fuel with
  | nil => exact absurd rfl hne
  | cons item tail ih =>
    obtain ⟨less, rfl⟩ : ∃ less, fuel = less + 1 := ⟨fuel - 1, by omega⟩
    have hitem := hreads item List.mem_cons_self
    have hcomma : Ends (44 :: (commas (tail.map stringify) ++ 93 :: rest)) := by
      intro unit hunit
      cases hunit
      decide
    have hbracket : Ends (93 :: rest) := by
      intro unit hunit
      cases hunit
      decide
    cases tail with
    | nil =>
      simp only [List.map_cons, List.map_nil, commas] at hfuel ⊢
      rw [parseItems, hitem less (93 :: rest) (by omega) hbracket]
      simp [skipSpaces_cons (show isSpace 93 = false by decide)]
    | cons next tail =>
      simp only [List.map_cons, commas, List.length_append, List.length_cons] at hfuel ih hcomma ⊢
      rw [List.append_assoc, List.cons_append, parseItems, hitem less _ (by omega) hcomma]
      have hless : (commas (stringify next :: tail.map stringify)).length + 2 ≤ less := by omega
      have hrest := ih (List.cons_ne_nil _ _)
        (fun other hother ↦ hreads other (List.mem_cons_of_mem _ hother)) hless
      simp only [Option.bind_eq_bind, Option.bind_some,
        skipSpaces_cons (show isSpace 44 = false by decide), if_true, hrest]
      rfl

theorem parseMembers_stringify {members : List (Text × Value ν)} (hne : members ≠ [])
    (hreads : ∀ member ∈ members, Reads member.2) {fuel : ℕ} (rest : Text)
    (hfuel : (commas (members.map memberText)).length + 2 ≤ fuel) :
    parseMembers fuel (commas (members.map memberText) ++ 125 :: rest) = some (members, rest) := by
  induction members generalizing fuel with
  | nil => exact absurd rfl hne
  | cons member tail ih =>
    obtain ⟨less, rfl⟩ : ∃ less, fuel = less + 1 := ⟨fuel - 1, by omega⟩
    obtain ⟨key, value⟩ := member
    have hvalue : Reads value := hreads _ List.mem_cons_self
    -- the key and the colon, up to the value
    have hstart : ∀ after : Text, memberText (key, value) ++ after =
        34 :: (quoteUnits key ++ 34 :: 58 :: (stringify value ++ after)) := by
      intro after
      simp [memberText, quote]
    have hsize : (stringify value).length + 3 ≤ (memberText (key, value)).length := by
      simp only [memberText, quote, List.length_append, List.length_cons, List.length_nil]
      omega
    cases tail with
    | nil =>
      simp only [List.map_cons, List.map_nil, commas] at hfuel ⊢
      have hbrace : Ends (125 :: rest) := by
        intro unit hunit
        cases hunit
        decide
      rw [hstart, parseMembers, skipSpaces_cons (by decide)]
      dsimp only
      rw [if_neg (by decide), parseString_quoteUnits]
      simp only [Option.bind_eq_bind, Option.bind_some,
        skipSpaces_cons (show isSpace 58 = false by decide), ne_eq, not_true_eq_false, if_false]
      rw [hvalue less _ (by omega) hbrace]
      simp [skipSpaces_cons (show isSpace 125 = false by decide)]
    | cons next tail =>
      simp only [List.map_cons, commas, List.length_append, List.length_cons] at hfuel ih ⊢
      have hless : (commas (memberText next :: tail.map memberText)).length + 2 ≤ less := by omega
      have hrest := ih (List.cons_ne_nil _ _)
        (fun other hother ↦ hreads other (List.mem_cons_of_mem _ hother)) hless
      have hcomma : Ends (44 :: (commas (memberText next :: tail.map memberText) ++ 125 :: rest)) := by
        intro unit hunit
        cases hunit
        decide
      rw [List.append_assoc, List.cons_append, hstart, parseMembers, skipSpaces_cons (by decide)]
      dsimp only
      rw [if_neg (by decide), parseString_quoteUnits]
      simp only [Option.bind_eq_bind, Option.bind_some,
        skipSpaces_cons (show isSpace 58 = false by decide), ne_eq, not_true_eq_false, if_false]
      rw [hvalue less _ (by omega) hcomma]
      simp only [Option.bind_some, skipSpaces_cons (show isSpace 44 = false by decide), if_true, hrest]
      rfl

/-- Every value of printable numbers is read back. -/
theorem reads_of_formed {value : Value ν} (h : Formed Printable value) : Reads value := by
  induction h with
  | null =>
    intro fuel rest hfuel hends
    obtain ⟨less, rfl⟩ : ∃ less, fuel = less + 1 := ⟨fuel - 1, by omega⟩
    exact (parseValue_scalar (by decide) (by decide) (by decide) (by decide) less _).trans
      (parseScalar_null rest)
  | boolean value =>
    intro fuel rest hfuel hends
    obtain ⟨less, rfl⟩ : ∃ less, fuel = less + 1 := ⟨fuel - 1, by omega⟩
    cases value with
    | true =>
      exact (parseValue_scalar (by decide) (by decide) (by decide) (by decide) less _).trans
        (parseScalar_true rest)
    | false =>
      exact (parseValue_scalar (by decide) (by decide) (by decide) (by decide) less _).trans
        (parseScalar_false rest)
  | @number value hnumber =>
    intro fuel rest hfuel hends
    obtain ⟨less, rfl⟩ : ∃ less, fuel = less + 1 := ⟨fuel - 1, by omega⟩
    obtain ⟨first, tail, htext, hfirst⟩ := startsNumber_of_toText value hnumber.1
    obtain ⟨hspace, hquote, hbracket, -, hbrace, -⟩ := startsNumber_other hfirst
    have hscalar := parseScalar_number hnumber hends
    show parseValue (less + 1) (toText value ++ rest) = _
    rw [htext, List.cons_append] at hscalar ⊢
    rw [parseValue_scalar hspace hquote hbracket hbrace, hscalar]
  | string text =>
    intro fuel rest hfuel hends
    obtain ⟨less, rfl⟩ : ∃ less, fuel = less + 1 := ⟨fuel - 1, by omega⟩
    have hstart : stringify (.string text : Value ν) ++ rest =
        34 :: (quoteUnits text ++ 34 :: rest) := by
      simp [stringify, quote]
    rw [hstart, parseValue, skipSpaces_cons (by decide)]
    dsimp only
    rw [if_pos rfl, parseString_quoteUnits]
    rfl
  | @array items hitems ih =>
    intro fuel rest hfuel hends
    obtain ⟨less, rfl⟩ : ∃ less, fuel = less + 1 := ⟨fuel - 1, by omega⟩
    simp only [stringify, stringifyItems_eq, List.length_cons, List.length_append,
      List.length_nil] at hfuel
    have hstart : stringify (.array items) ++ rest =
        91 :: (commas (items.map stringify) ++ 93 :: rest) := by
      simp [stringify, stringifyItems_eq]
    rw [hstart, parseValue, skipSpaces_cons (by decide)]
    dsimp only
    rw [if_neg (by decide), if_pos rfl]
    by_cases hnil : items = []
    · subst hnil
      rfl
    · -- the first item starts with neither a space nor a bracket
      obtain ⟨unit, tail, hunit, hspace, hclose⟩ : ∃ unit tail,
          commas (items.map stringify) ++ 93 :: rest = unit :: tail ∧ isSpace unit = false ∧
            unit ≠ 93 := by
        obtain ⟨item, others, rfl⟩ := List.exists_cons_of_ne_nil hnil
        obtain ⟨unit, tail, htext, hspace, hclose⟩ :=
          stringify_eq_cons (fun _ h ↦ h.1) (hitems item List.mem_cons_self)
        cases others with
        | nil => exact ⟨unit, _, by rw [List.map_cons, List.map_nil, commas, htext]; rfl, hspace, hclose⟩
        | cons next others =>
          exact ⟨unit, _, by rw [List.map_cons, List.map_cons, commas, htext]; rfl, hspace, hclose⟩
      have hread := parseItems_stringify hnil ih rest (show _ ≤ less by omega)
      rw [hunit] at hread ⊢
      rw [skipSpaces_cons hspace]
      dsimp only
      rw [if_neg hclose, hread]
      rfl
  | @object members hkeys horder hmembers ih =>
    intro fuel rest hfuel hends
    obtain ⟨less, rfl⟩ : ∃ less, fuel = less + 1 := ⟨fuel - 1, by omega⟩
    simp only [stringify, stringifyMembers_eq, List.length_cons, List.length_append,
      List.length_nil] at hfuel
    have hstart : stringify (.object members) ++ rest =
        123 :: (commas (members.map memberText) ++ 125 :: rest) := by
      simp [stringify, stringifyMembers_eq]
    rw [hstart, parseValue, skipSpaces_cons (by decide)]
    dsimp only
    rw [if_neg (by decide), if_neg (by decide), if_pos rfl]
    by_cases hnil : members = []
    · subst hnil
      rfl
    · obtain ⟨tail, htail⟩ : ∃ tail, commas (members.map memberText) ++ 125 :: rest = 34 :: tail := by
        obtain ⟨member, others, rfl⟩ := List.exists_cons_of_ne_nil hnil
        cases others with
        | nil => exact ⟨_, rfl⟩
        | cons next others => exact ⟨_, rfl⟩
      have hread := parseMembers_stringify hnil ih rest (show _ ≤ less by omega)
      rw [htail] at hread ⊢
      rw [skipSpaces_cons (by decide)]
      dsimp only
      rw [if_neg (by decide), hread]
      simp only [Option.bind_eq_bind, Option.bind_some, overwrite_of_nodup hkeys,
        fromEntries_of_pairwise horder]
      rfl

theorem parse_stringify {value : Value ν} (h : Formed Printable value) :
    parse (stringify value ++ [10]) = some value := by
  have hends : Ends [10] := by
    intro unit hunit
    cases hunit
    decide
  unfold parse
  rw [reads_of_formed h _ _ (by simp) hends]
  rfl

end

end Json
