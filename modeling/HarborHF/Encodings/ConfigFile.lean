import HarborHF.Encodings.CodePoints
import HarborHF.Relational.Dict
import HarborHF.Relational.Fold

/-!
# Configuration files

Sections of options, as `configparser` writes them and reads them, strictly and without
interpolation. Sections of one option each are read back as they were written
(`readString_write`), if the names and the values are each on a line of their own.
-/

set_option autoImplicit false

namespace ConfigFile

open CodePoints Relational

def newline : CodePoint := point '\n'

/-- The lines of a text, without their ends. -/
def lines : Text → List Text
  | [] => []
  | code :: rest =>
    if code = newline then [] :: lines rest
    else match lines rest with
      | [] => [[code]]
      | line :: others => (code :: line) :: others

theorem lines_append {line : Text} (h : newline ∉ line) (rest : Text) :
    lines (line ++ newline :: rest) = line :: lines rest := by
  induction line with
  | nil => rw [List.nil_append, lines, if_pos rfl]
  | cons code line ih =>
    obtain ⟨hcode, hline⟩ := List.ne_and_not_mem_of_not_mem_cons h
    rw [List.cons_append, lines, if_neg (Ne.symm hcode), ih hline]

/-! ### Reading -/

inductive ConfigError
  | missingHeader
  | duplicateSection (name : Text)
  | duplicateOption (name option : Text)
  | parsing (line : Text)
  deriving DecidableEq

def defaultSection : Text := text "DEFAULT"

/-- What has been read: the lines of the values, the section and the option that are open, and how
far the last header or option was indented. -/
structure Reading where
  defaults : Dict Text (List Text)
  sections : Dict Text (Dict Text (List Text))
  current : Option Text
  option : Option Text
  indent : ℕ

def Reading.options (reading : Reading) (name : Text) : Dict Text (List Text) :=
  if name = defaultSection then reading.defaults else (reading.sections.get? name).getD []

def Reading.setOptions (reading : Reading) (name : Text) (options : Dict Text (List Text)) :
    Reading :=
  if name = defaultSection then { reading with defaults := options }
  else { reading with sections := reading.sections.set name options }

/-- Another line of the value of an option. -/
def Reading.append (reading : Reading) (name option line : Text) : Reading :=
  reading.setOptions name ((reading.options name).set option
    (((reading.options name).get? option).getD [] ++ [line]))

/-- The name in a header: what stands between the first bracket and the last one. -/
def header? : Text → Option Text
  | [] => none
  | first :: rest =>
    if first = point '[' then
      match rest.reverse.dropWhile fun code ↦ code ≠ point ']' with
      | [] => none
      | [_] => none
      | _ :: before => some before.reverse
    else none

def isDelimiter (code : CodePoint) : Bool := decide (code = point '=' ∨ code = point ':')

/-- An option and its value, at the first delimiter. -/
def option? (value : Text) : Option (Text × Text) :=
  match value.dropWhile fun code ↦ !isDelimiter code with
  | [] => none
  | _ :: after => some (rstrip (value.takeWhile fun code ↦ !isDelimiter code), strip after)

def isComment (line : Text) : Bool :=
  (strip line).head?.any fun code ↦ decide (code = point '#' ∨ code = point ';')

/-- A header or an option. -/
def readEntry (reading : Reading) (value : Text) (indent : ℕ) : Except ConfigError Reading :=
  match header? value with
  | some name =>
    if name = defaultSection then
      .ok { reading with current := some name, option := none, indent := indent }
    else if (reading.sections.get? name).isSome then .error (.duplicateSection name)
    else .ok { reading with
      sections := reading.sections.set name []
      current := some name
      option := none
      indent := indent }
  | none =>
    match reading.current with
    | none => .error .missingHeader
    | some name =>
      match option? value with
      | none => .error (.parsing value)
      | some (option, first) =>
        if option = [] then .error (.parsing value)
        else if ((reading.options name).get? option).isSome then
          .error (.duplicateOption name option)
        else .ok { reading.setOptions name ((reading.options name).set option [first]) with
          option := some option
          indent := indent }

/-- `_read` of a line: nothing, another line of the last value, or a header or an option. -/
def readLine (reading : Reading) (line : Text) : Except ConfigError Reading :=
  let comment := isComment line
  let value := if comment then [] else strip line
  let indent := (line.takeWhile isSpace).length
  match reading.current, reading.option with
  | some name, some option =>
    if value = [] then
      if comment then .ok reading else .ok (reading.append name option [])
    else if reading.indent < indent then .ok (reading.append name option value)
    else readEntry reading value indent
  | _, _ => if value = [] then .ok reading else readEntry reading value indent

/-- The sections of a file, with the values of their options. -/
structure Config where
  defaults : Dict Text Text
  sections : Dict Text (Dict Text Text)
  deriving DecidableEq

/-- `_join_multiline_values`. -/
def joinValues (options : Dict Text (List Text)) : Dict Text Text :=
  options.map fun option ↦ (option.1, rstrip ([newline].intercalate option.2))

/-- `read_string`. -/
def readString (content : Text) : Except ConfigError Config := do
  let reading ← (lines content).foldlM readLine ⟨[], [], none, none, 0⟩
  return ⟨joinValues reading.defaults,
    reading.sections.map fun section' ↦ (section'.1, joinValues section'.2)⟩

/-! ### Writing -/

/-- A line end within a value is followed by a tabulator. -/
def indentLines (value : Text) : Text :=
  value.flatMap fun code ↦ if code = newline then [newline, point '\t'] else [code]

/-- `_write_section`. -/
def writeSection (name : Text) (options : Dict Text Text) : Text :=
  point '[' :: name ++ [point ']', newline] ++
    (options.flatMap fun option ↦
      option.1 ++ text " = " ++ indentLines option.2 ++ [newline]) ++ [newline]

/-- `write` without defaults. -/
def write (sections : Dict Text (Dict Text Text)) : Text :=
  sections.flatMap fun section' ↦ writeSection section'.1 section'.2

/-! ### What is written is read back -/

/-- A name of a section that stands on a line of its own. -/
structure SectionName (name : Text) : Prop where
  nonempty : name ≠ []
  notDefault : name ≠ defaultSection
  oneLine : newline ∉ name

/-- An option that stands before a delimiter. -/
structure OptionName (option : Text) : Prop where
  nonempty : option ≠ []
  trimmed : Trimmed option
  oneLine : newline ∉ option
  notHeader : option.head? ≠ some (point '[')
  notComment : ∀ code ∈ option.head?, code ≠ point '#' ∧ code ≠ point ';'
  noDelimiter : ∀ code ∈ option, isDelimiter code = false

/-- A value on the line of its option. -/
structure OptionValue (value : Text) : Prop where
  nonempty : value ≠ []
  trimmed : Trimmed value
  oneLine : newline ∉ value

theorem indentLines_eq_self {value : Text} (h : newline ∉ value) : indentLines value = value := by
  induction value with
  | nil => rfl
  | cons code rest ih =>
    obtain ⟨hcode, hrest⟩ := List.ne_and_not_mem_of_not_mem_cons h
    have hstep : indentLines (code :: rest) = code :: indentLines rest := by
      rw [indentLines, List.flatMap_cons, if_neg (Ne.symm hcode)]
      rfl
    rw [hstep, ih hrest]

/-- The line of a header. -/
def headerLine (name : Text) : Text := point '[' :: name ++ [point ']']

theorem header?_headerLine {name : Text} (h : name ≠ []) :
    header? (headerLine name) = some name := by
  rw [headerLine, List.cons_append, header?, if_pos rfl, List.reverse_append, List.reverse_singleton,
    List.singleton_append, List.dropWhile_cons_of_neg (by simp)]
  cases hname : name.reverse with
  | nil => exact (h (List.reverse_eq_nil_iff.mp hname)).elim
  | cons code rest =>
    show some (code :: rest).reverse = some name
    rw [← hname, List.reverse_reverse]

/-- The line of an option and its value. -/
def optionLine (option value : Text) : Text := option ++ text " = " ++ value

theorem option?_optionLine {option value : Text} (ho : OptionName option)
    (hv : OptionValue value) : option? (optionLine option value) = some (option, value) := by
  have hnone : ∀ code ∈ option ++ [point ' '], (!isDelimiter code) = true := by
    intro code hcode
    rcases List.mem_append.mp hcode with hmem | hmem
    · rw [ho.noDelimiter code hmem]
      rfl
    · rw [List.mem_singleton.mp hmem]
      decide
  have hsplit : optionLine option value = (option ++ [point ' ']) ++ point '=' ::
      (point ' ' :: value) := by
    simp [optionLine, text]
  rw [option?, hsplit, List.dropWhile_append_of_pos hnone, List.takeWhile_append_of_pos hnone]
  have hstrip : strip (point ' ' :: value) = value := by
    rw [strip, lstrip, List.dropWhile_cons_of_pos (by decide), ← lstrip, ← strip,
      hv.trimmed.strip_eq]
  show some (rstrip (option ++ [point ' '] ++ []), strip (point ' ' :: value)) = _
  rw [List.append_nil, hstrip, rstrip_append_space ho.trimmed.2 (by decide)]

/-- A line that is not indented is no other line of the last value. -/
theorem readLine_eq {reading : Reading} {line : Text} (hne : line ≠ []) (htrimmed : Trimmed line)
    (hcomment : ∀ code ∈ line.head?, code ≠ point '#' ∧ code ≠ point ';') :
    readLine reading line = readEntry reading line 0 := by
  have hplain : isComment line = false := by
    rw [isComment, htrimmed.strip_eq, Option.any_eq_false]
    intro code hcode
    obtain ⟨hhash, hsemicolon⟩ := hcomment code hcode
    exact decide_eq_false (not_or.mpr ⟨hhash, hsemicolon⟩)
  have hindent : (line.takeWhile isSpace).length = 0 := by
    cases line with
    | nil => exact (hne rfl).elim
    | cons code rest =>
      rw [List.takeWhile_cons_of_neg]
      · rfl
      · rw [htrimmed.1 code rfl]
        exact Bool.false_ne_true
  unfold readLine
  simp only [hplain, htrimmed.strip_eq, hindent, hne, Nat.not_lt_zero, if_false, Bool.false_eq_true]
  split <;> rfl

theorem readLine_blank {reading : Reading} {name option : Text}
    (hcurrent : reading.current = some name) (hoption : reading.option = some option) :
    readLine reading [] = .ok (reading.append name option []) := by
  unfold readLine
  rw [hcurrent, hoption]
  rfl

/-- The sections of one option each as they have been read. -/
def readSections (option : Text) (entries : Dict Text Text) : Dict Text (Dict Text (List Text)) :=
  entries.map fun entry ↦ (entry.1, [(option, [entry.2, []])])

variable {entries : Dict Text Text}

theorem get?_readSections {option name : Text}
    (h : name ∉ entries.keys) : (readSections option entries).get? name = none := by
  rw [Dict.get?_eq_none_iff, Dict.keys, readSections, List.map_map]
  exact h

theorem get?_readSections_append {option name : Text}
    (h : name ∉ entries.keys) (options : Dict Text (List Text)) :
    Dict.get? (readSections option entries ++ [(name, options)]) name = some options := by
  rw [Dict.get?_append, get?_readSections h, Option.none_or, Dict.get?, if_pos rfl]

theorem header?_eq_none {line : Text} (h : line.head? ≠ some (point '[')) :
    header? line = none := by
  cases line with
  | nil => rfl
  | cons code rest => rw [header?, if_neg fun heq ↦ h (congrArg some heq)]

theorem trimmed_append {first last : Text} (hfirst : first ≠ []) (hlast : last ≠ [])
    (hhead : ∀ code ∈ first.head?, isSpace code = false)
    (htail : ∀ code ∈ last.getLast?, isSpace code = false) : Trimmed (first ++ last) := by
  rw [Trimmed, List.head?_append_of_ne_nil _ hfirst, List.getLast?_append_of_ne_nil _ hlast]
  exact ⟨hhead, htail⟩

section Single

variable {option name value : Text} {entries : Dict Text Text} {reading : Reading}

theorem readLine_header (hn : SectionName name) (hfresh : name ∉ entries.keys)
    (hsections : reading.sections = readSections option entries) :
    readLine reading (headerLine name) =
      .ok ⟨reading.defaults, readSections option entries ++ [(name, [])], some name, none, 0⟩ := by
  have htrimmed : Trimmed (headerLine name) := by
    refine trimmed_append (List.cons_ne_nil _ _) (List.cons_ne_nil _ _) ?_ ?_ <;>
      rintro code ⟨⟩ <;> decide
  have hcomment : ∀ code ∈ (headerLine name).head?, code ≠ point '#' ∧
      code ≠ point ';' := by
    rintro code ⟨⟩
    decide
  have hne : headerLine name ≠ [] := List.cons_ne_nil _ _
  rw [readLine_eq hne htrimmed hcomment, readEntry, header?_headerLine hn.nonempty]
  dsimp only
  rw [if_neg hn.notDefault, hsections, Dict.set_of_get?_eq_none (get?_readSections hfresh),
    get?_readSections hfresh]
  rfl

theorem readLine_option (ho : OptionName option) (hn : SectionName name) (hv : OptionValue value)
    (hfresh : name ∉ entries.keys) :
    readLine ⟨[], readSections option entries ++ [(name, [])], some name, none, 0⟩
        (optionLine option value) =
      .ok ⟨[], readSections option entries ++ [(name, [(option, [value])])], some name,
        some option, 0⟩ := by
  have hline : optionLine option value = option ++ (text " = " ++ value) := List.append_assoc _ _ _
  have hhead : (optionLine option value).head? = option.head? := by
    rw [hline, List.head?_append_of_ne_nil _ ho.nonempty]
  have htrimmed : Trimmed (optionLine option value) := by
    refine hline ▸ trimmed_append ho.nonempty (by simp [text]) ho.trimmed.1 ?_
    rw [List.getLast?_append_of_ne_nil _ hv.nonempty]
    exact hv.trimmed.2
  have hne : optionLine option value ≠ [] := by
    rw [hline]
    exact List.append_ne_nil_of_left_ne_nil ho.nonempty _
  rw [readLine_eq hne htrimmed (hhead ▸ ho.notComment), readEntry,
    header?_eq_none (hhead ▸ ho.notHeader)]
  dsimp only
  rw [option?_optionLine ho hv]
  dsimp only
  rw [if_neg ho.nonempty]
  simp only [Reading.options, Reading.setOptions, if_neg hn.notDefault, get?_readSections_append
    hfresh, Option.getD_some, Dict.set_append_of_get?_eq_none (get?_readSections hfresh)]
  rfl

/-- The three lines of a section with one option. -/
theorem foldlM_section (ho : OptionName option) (hn : SectionName name) (hv : OptionValue value)
    (hfresh : name ∉ entries.keys) (hdefaults : reading.defaults = [])
    (hsections : reading.sections = readSections option entries) (rest : List Text) :
    (headerLine name :: optionLine option value :: [] :: rest).foldlM readLine
        reading =
      rest.foldlM readLine
        ⟨[], readSections option (entries ++ [(name, value)]), some name, some option, 0⟩ := by
  have hblank : readLine ⟨[], readSections option entries ++ [(name, [(option, [value])])],
      some name, some option, 0⟩ [] =
        .ok ⟨[], readSections option (entries ++ [(name, value)]), some name, some option, 0⟩ := by
    rw [readLine_blank rfl rfl, Reading.append]
    simp only [Reading.options, Reading.setOptions, if_neg hn.notDefault, get?_readSections_append
      hfresh, Option.getD_some, Dict.set_append_of_get?_eq_none (get?_readSections hfresh)]
    have hvalues : Dict.set [(option, [value])] option
        ((Dict.get? [(option, [value])] option).getD [] ++ [[]]) = [(option, [value, []])] := by
      rw [Dict.get?, if_pos rfl, Dict.set, if_pos rfl]
      rfl
    rw [hvalues, readSections, readSections, List.map_append]
    rfl
  rw [List.foldlM_cons, readLine_header hn hfresh hsections, hdefaults]
  change (optionLine option value :: [] :: rest).foldlM readLine
    ⟨[], readSections option entries ++ [(name, [])], some name, none, 0⟩ = _
  rw [List.foldlM_cons, readLine_option ho hn hv hfresh]
  change ([] :: rest).foldlM readLine ⟨[], readSections option entries ++
    [(name, [(option, [value])])], some name, some option, 0⟩ = _
  rw [List.foldlM_cons, hblank]
  rfl

end Single

/-- Sections of one option each. -/
def singleSections (option : Text) (entries : Dict Text Text) : Dict Text (Dict Text Text) :=
  entries.map fun entry ↦ (entry.1, [(option, entry.2)])

theorem lines_writeSection {option name value : Text} (ho : OptionName option)
    (hn : SectionName name) (hv : OptionValue value) (rest : Text) :
    lines (writeSection name [(option, value)] ++ rest) =
      headerLine name :: optionLine option value :: [] :: lines rest := by
  have hheader : newline ∉ headerLine name := by
    simp only [headerLine, List.cons_append, List.mem_cons, List.mem_append, List.not_mem_nil,
      or_false, not_or]
    exact ⟨by decide, hn.oneLine, by decide⟩
  have hoption : newline ∉ optionLine option value := by
    simp only [optionLine, List.mem_append, not_or]
    exact ⟨⟨ho.oneLine, by decide⟩, hv.oneLine⟩
  have hsplit : writeSection name [(option, value)] ++ rest =
      headerLine name ++ newline ::
        (optionLine option value ++ newline :: ([] ++ newline :: rest)) := by
    simp [writeSection, headerLine, optionLine, indentLines_eq_self hv.oneLine]
  rw [hsplit, lines_append hheader, lines_append hoption, lines_append List.not_mem_nil]

/-- Lines of sections of one option each. -/
theorem foldlM_write {option : Text} (ho : OptionName option) (before : Dict Text Text)
    (hnodup : (before ++ entries).keys.Nodup) (hnames : ∀ entry ∈ entries, SectionName entry.1)
    (hvalues : ∀ entry ∈ entries, OptionValue entry.2) {reading : Reading}
    (hdefaults : reading.defaults = []) (hsections : reading.sections = readSections option before) :
    ∃ last, (lines (write (singleSections option entries))).foldlM readLine reading = .ok last ∧
      last.defaults = [] ∧ last.sections = readSections option (before ++ entries) := by
  induction entries generalizing before reading with
  | nil => exact ⟨reading, rfl, hdefaults, (List.append_nil before).symm ▸ hsections⟩
  | cons entry rest ih =>
    obtain ⟨name, value⟩ := entry
    obtain ⟨hname, hnames⟩ := List.forall_mem_cons.mp hnames
    obtain ⟨hvalue, hvalues⟩ := List.forall_mem_cons.mp hvalues
    have hfresh : name ∉ before.keys := by
      rw [Dict.keys, List.map_append, List.map_cons] at hnodup
      exact fun hmem ↦ (List.nodup_append.mp hnodup).2.2 _ hmem _ List.mem_cons_self rfl
    have hsplit : before ++ (name, value) :: rest = before ++ [(name, value)] ++ rest := by
      rw [List.append_assoc, List.singleton_append]
    have hwrite : write (singleSections option ((name, value) :: rest)) =
        writeSection name [(option, value)] ++ write (singleSections option rest) := rfl
    rw [hwrite, lines_writeSection ho hname hvalue,
      foldlM_section ho hname hvalue hfresh hdefaults hsections, hsplit]
    exact ih _ (hsplit ▸ hnodup) hnames hvalues rfl rfl

/-- Sections of one option each are read back as they were written. -/
theorem readString_write {option : Text} (ho : OptionName option)
    (hnodup : entries.keys.Nodup) (hnames : ∀ entry ∈ entries, SectionName entry.1)
    (hvalues : ∀ entry ∈ entries, OptionValue entry.2) :
    readString (write (singleSections option entries)) =
      .ok ⟨[], singleSections option entries⟩ := by
  have hread : ∃ last, (lines (write (singleSections option entries))).foldlM readLine
      ⟨[], [], none, none, 0⟩ = .ok last ∧ last.defaults = [] ∧
        last.sections = readSections option ([] ++ entries) :=
    foldlM_write ho [] hnodup hnames hvalues rfl rfl
  obtain ⟨last, hlast, hdefaults, hsections⟩ := hread
  have hjoined : (readSections option entries).map (fun section' ↦
      (section'.1, joinValues section'.2)) = singleSections option entries := by
    rw [readSections, List.map_map]
    refine List.map_congr_left fun entry hentry ↦ ?_
    have hjoin : rstrip ([newline].intercalate [entry.2, []]) = entry.2 := by
      have hlines : [newline].intercalate [entry.2, []] = entry.2 ++ [newline] := by
        simp [List.intercalate]
      rw [hlines, rstrip_append_space (hvalues entry hentry).trimmed.2 (by decide)]
    exact congrArg (fun value ↦ (entry.1, [(option, value)])) hjoin
  refine bind_eq_ok.mpr ⟨last, hlast, ?_⟩
  rw [hdefaults, hsections, List.nil_append, hjoined]
  rfl

end ConfigFile
