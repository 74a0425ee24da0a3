import HarborHF.Relational.Dict

/-!
# The first token of a stream

`_SseSemanticOutputProbe` looks for semantic output in a stream that comes in chunks. It keeps what does
not end a line yet, and takes a carriage return at its end for the end of a line before it knows whether
a line feed follows; the line feed then ends an empty line.

A line that `json.loads` refuses by an error the probe does not catch ends the probe. Without such a line
before the first with semantic output the chunks do not matter (`detects_iff`).
-/

set_option autoImplicit false

namespace HarborHF.FirstToken

open Relational

abbrev Bytes := List UInt8

/-! ### Lines with semantic output -/

/-- A text, by its code points. -/
abbrev Text := List ℕ

def text (letters : String) : Text := letters.toList.map Char.toNat

def bytes (letters : String) : Bytes := letters.toList.map fun letter ↦ letter.toNat.toUInt8

inductive JsonValue
  | null
  | bool (value : Bool)
  | number (digits : Text)
  | string (value : Text)
  | array (items : List JsonValue)
  | object (members : List (Text × JsonValue))

/-- An error of `json.loads`: `UnicodeDecodeError` and `JSONDecodeError` are caught; an integer of too many
digits or too deep a nesting raise others. -/
inductive LoadsError
  | caught
  | escaping
  deriving DecidableEq

/-- `json.loads` of bytes. -/
class JsonLoads where
  loads : Bytes → Except LoadsError JsonValue

def member (members : List (Text × JsonValue)) (key : String) : Option JsonValue :=
  Dict.get? members (text key)

def isNonemptyString : Option JsonValue → Bool
  | some (.string value) => !value.isEmpty
  | _ => false

/-- `_choice_has_semantic_output`. -/
def choiceHasSemanticOutput : JsonValue → Bool
  | .object choice =>
    match member choice "delta" with
    | some (.object delta) =>
      [member delta "content", member delta "reasoning_content", member delta "reasoning"].any
          isNonemptyString ||
        match member delta "tool_calls" with
        | some (.array calls) => !calls.isEmpty
        | _ => false
    | _ => false
  | _ => false

def deltaEvents : List Text :=
  [text "response.output_text.delta", text "response.reasoning_summary_text.delta",
    text "response.function_call_arguments.delta"]

def isFunctionCall : Option JsonValue → Bool
  | some (.object item) =>
    match member item "type" with
    | some (.string kind) => decide (kind = text "function_call")
    | _ => false
  | _ => false

/-- What `_sse_line_has_semantic_output` says of a payload. -/
def payloadHasSemanticOutput (payload : List (Text × JsonValue)) : Bool :=
  match member payload "choices" with
  | some (.array choices) => choices.any choiceHasSemanticOutput
  | _ =>
    match member payload "type" with
    | some (.string event) =>
      if event ∈ deltaEvents then isNonemptyString (member payload "delta")
      else if event = text "response.output_item.added" then isFunctionCall (member payload "item")
      else false
    | _ => false

/-- `bytes.strip`. -/
def isSpace (byte : UInt8) : Bool := decide (9 ≤ byte ∧ byte ≤ 13) || byte == 32

def strip (data : Bytes) : Bytes :=
  ((data.dropWhile isSpace).reverse.dropWhile isSpace).reverse

section

variable [JsonLoads]

/-- `_sse_line_has_semantic_output`, which lets errors escape that it does not catch. -/
def lineHasSemanticOutput (line : Bytes) : Except LoadsError Bool :=
  if ¬ bytes "data:" <+: line then .ok false
  else
    let data := strip (line.drop (bytes "data:").length)
    if data = [] ∨ data = bytes "[DONE]" then .ok false
    else
      match JsonLoads.loads data with
      | .ok (.object payload) => .ok (payloadHasSemanticOutput payload)
      | .ok _ => .ok false
      | .error .caught => .ok false
      | .error .escaping => .error .escaping

/-! ### The probe -/

/-- `_MAX_EVIDENCE_RESPONSE_BYTES`. -/
def maxEvidenceResponseBytes : ℕ := 32 * 1024 * 1024

structure Probe where
  pending : Bytes
  stopped : Bool
  deriving DecidableEq

def Probe.start : Probe := ⟨[], false⟩

/-- `_stop`. -/
def Probe.stop : Probe := ⟨[], true⟩

/-- `_sse_line_boundary`: the position of the end of a line, and its width. -/
def lineBoundary (content : Bytes) : Option (ℕ × ℕ) :=
  let carriage := content.findIdx? fun byte ↦ byte == 13
  let newline := content.findIdx? fun byte ↦ byte == 10
  match carriage.toList ++ newline.toList with
  | [] => none
  | first :: rest =>
    let index := rest.foldl min first
    some (index, if (content.drop index).take 2 = [13, 10] then 2 else 1)

/-- The loop over the lines of what is pending. Every round takes at least one byte. -/
def feedLines : ℕ → Bytes → Except LoadsError (Bool × Probe)
  | 0, pending => .ok (false, ⟨pending, false⟩)
  | fuel + 1, pending =>
    match lineBoundary pending with
    | none => .ok (false, ⟨pending, false⟩)
    | some (newline, width) => do
      let semantic ← lineHasSemanticOutput (pending.take newline)
      if semantic then return (true, .stop) else feedLines fuel (pending.drop (newline + width))

/-- `_feed_decoded`. -/
def feedDecoded (probe : Probe) (chunk : Bytes) : Except LoadsError (Bool × Probe) :=
  let pending := probe.pending ++ chunk
  if maxEvidenceResponseBytes < pending.length then .ok (false, .stop)
  else feedLines pending.length pending

/-- `feed`, of a response without a content encoding. -/
def feed (probe : Probe) (chunk : Bytes) : Except LoadsError (Bool × Probe) :=
  if probe.stopped ∨ chunk = [] then .ok (false, probe) else feedDecoded probe chunk

/-- `removesuffix` of a carriage return. -/
def removeReturn (line : Bytes) : Bytes := if line.getLast? = some 13 then line.dropLast else line

/-- `finish`. -/
def finish (probe : Probe) : Except LoadsError Bool :=
  if probe.stopped then .ok false
  else if probe.pending = [] then .ok false
  else lineHasSemanticOutput (removeReturn probe.pending)

/-- The chunks are fed one after another, and then the probe is finished: whether it ever reports semantic
output. -/
def run : Probe → List Bytes → Except LoadsError Bool
  | probe, [] => finish probe
  | probe, chunk :: rest => do
    let (semantic, probe) ← feed probe chunk
    let later ← run probe rest
    return semantic || later

def detects (chunks : List Bytes) : Prop := run .start chunks = .ok true

end

/-! ### Lines -/

def isNewline (byte : UInt8) : Bool := byte == 13 || byte == 10

/-- The lines of a body after the start of one, ended by CR, LF or CRLF, the last possibly unterminated. -/
def linesFrom : Bytes → Bytes → List Bytes
  | line, [] => [line]
  | line, 13 :: 10 :: rest => line :: linesFrom [] rest
  | line, byte :: rest =>
    if isNewline byte then line :: linesFrom [] rest else linesFrom (line ++ [byte]) rest

def lines (body : Bytes) : List Bytes := linesFrom [] body

/-- The bytes between single bytes that end lines: those that are ended, and what is left. -/
def segmentStep (segments : List Bytes × Bytes) (byte : UInt8) : List Bytes × Bytes :=
  if isNewline byte then (segments.1 ++ [segments.2], []) else (segments.1, segments.2 ++ [byte])

theorem segmentStep_of_newline {byte : UInt8} (h : isNewline byte = true) (ended : List Bytes)
    (left : Bytes) : segmentStep (ended, left) byte = (ended ++ [left], []) := if_pos h

theorem segmentStep_of_not_newline {byte : UInt8} (h : ¬ isNewline byte = true) (ended : List Bytes)
    (left : Bytes) : segmentStep (ended, left) byte = (ended, left ++ [byte]) := if_neg h

def segments (content : Bytes) : List Bytes × Bytes := content.foldl segmentStep ([], [])

theorem foldl_segmentStep (ended : List Bytes) (left content : Bytes) :
    content.foldl segmentStep (ended, left) =
      (ended ++ (content.foldl segmentStep ([], left)).1, (content.foldl segmentStep ([], left)).2) := by
  induction content generalizing ended left with
  | nil => simp
  | cons byte rest ih =>
    rw [List.foldl_cons, List.foldl_cons]
    by_cases hnewline : isNewline byte = true
    · rw [segmentStep_of_newline hnewline, segmentStep_of_newline hnewline, ih, ih ([] ++ [left])]
      simp
    · rw [segmentStep_of_not_newline hnewline, segmentStep_of_not_newline hnewline, ih]

/-- Bytes that end no line. -/
def Unended (line : Bytes) : Prop := ∀ byte ∈ line, isNewline byte = false

theorem unended_of_all {line : Bytes} (h : (line.all fun byte ↦ !isNewline byte) = true) :
    Unended line := by
  intro byte hbyte
  simpa using List.all_eq_true.mp h byte hbyte

theorem unended_nil : Unended [] := fun _ h ↦ absurd h List.not_mem_nil

theorem segments_of_unended {line : Bytes} (h : Unended line) : segments line = ([], line) := by
  induction line using List.reverseRecOn with
  | nil => rfl
  | append_singleton line byte ih =>
    have hbyte := h byte (by simp)
    have hline := ih fun other hother ↦ h other (List.mem_append_left _ hother)
    unfold segments at hline ⊢
    rw [List.foldl_append, hline, List.foldl_cons, List.foldl_nil, segmentStep, hbyte]
    rfl

theorem segments_append (first second : Bytes) (h : Unended first) :
    segments (first ++ second) = second.foldl segmentStep ([], first) := by
  have hfirst := segments_of_unended h
  unfold segments at hfirst ⊢
  rw [List.foldl_append, hfirst]

theorem unended_segments (content : Bytes) : Unended (segments content).2 := by
  induction content using List.reverseRecOn with
  | nil => exact fun byte hbyte ↦ absurd hbyte List.not_mem_nil
  | append_singleton content byte ih =>
    unfold segments at ih ⊢
    rw [List.foldl_append, List.foldl_cons, List.foldl_nil]
    unfold segmentStep
    split
    · exact fun byte hbyte ↦ absurd hbyte List.not_mem_nil
    · rename_i hnewline
      intro other hother
      rcases List.mem_append.mp hother with hother | hother
      · exact ih other hother
      · rw [List.mem_singleton.mp hother]
        exact Bool.eq_false_iff.mpr hnewline

theorem segments_append_left (first second : Bytes) : segments (first ++ second) =
      ((segments first).1 ++ (segments ((segments first).2 ++ second)).1,
        (segments ((segments first).2 ++ second)).2) := by
  rw [segments_append _ _ (unended_segments first)]
  unfold segments
  rw [List.foldl_append]
  exact foldl_segmentStep _ _ _

theorem segments_cons_line {line : Bytes} {byte : UInt8} {rest : Bytes} (hline : Unended line)
    (hbyte : isNewline byte = true) :
    segments (line ++ byte :: rest) = (line :: (segments rest).1, (segments rest).2) := by
  rw [segments_append _ _ hline, List.foldl_cons, segmentStep, if_pos hbyte, foldl_segmentStep]
  rfl

theorem length_segments_le (content : Bytes) : (segments content).2.length ≤ content.length := by
  induction content using List.reverseRecOn with
  | nil => exact le_rfl
  | append_singleton content byte ih =>
    unfold segments at ih ⊢
    rw [List.foldl_append, List.foldl_cons, List.foldl_nil]
    by_cases hnewline : isNewline byte = true
    · rw [segmentStep_of_newline hnewline]
      exact Nat.zero_le _
    · rw [segmentStep_of_not_newline hnewline, List.length_append, List.length_append]
      exact Nat.add_le_add_right ih _

/-! ### Boundaries -/

theorem unended_or_line (content : Bytes) : Unended content ∨
      ∃ line byte rest, content = line ++ byte :: rest ∧ Unended line ∧ isNewline byte = true := by
  induction content with
  | nil => exact Or.inl fun byte hbyte ↦ absurd hbyte List.not_mem_nil
  | cons byte rest ih =>
    by_cases hnewline : isNewline byte = true
    · exact Or.inr ⟨[], byte, rest, rfl, fun other hother ↦ absurd hother List.not_mem_nil, hnewline⟩
    · have hbyte := Bool.eq_false_iff.mpr hnewline
      rcases ih with hrest | ⟨line, other, after, rfl, hline, hother⟩
      · exact Or.inl (List.forall_mem_cons.mpr ⟨hbyte, hrest⟩)
      · exact Or.inr ⟨byte :: line, other, after, rfl, List.forall_mem_cons.mpr ⟨hbyte, hline⟩, hother⟩

theorem findIdx?_of_unended {line : Bytes} (h : Unended line) {byte : UInt8}
    (hbyte : isNewline byte = true) : (line.findIdx? fun other ↦ other == byte) = none := by
  rw [List.findIdx?_eq_none_iff]
  intro other hother
  rw [beq_eq_false_iff_ne]
  rintro rfl
  rw [h other hother] at hbyte
  cases hbyte

theorem lineBoundary_of_unended {content : Bytes} (h : Unended content) :
    lineBoundary content = none := by
  unfold lineBoundary
  rw [findIdx?_of_unended h (by decide), findIdx?_of_unended h (by decide)]
  rfl

theorem lineBoundary_of_line {line : Bytes} {byte : UInt8} {rest : Bytes} (hline : Unended line)
    (hbyte : isNewline byte = true) : lineBoundary (line ++ byte :: rest) =
      some (line.length, if byte = 13 ∧ rest.head? = some 10 then 2 else 1) := by
  have hdrop : (line ++ byte :: rest).drop line.length = byte :: rest := List.drop_left
  have hwidth : (if (byte :: rest).take 2 = [13, 10] then 2 else 1) =
      if byte = 13 ∧ rest.head? = some 10 then 2 else 1 := by
    cases rest with
    | nil => simp
    | cons next after => simp
  have hfind : ∀ other : UInt8, isNewline other = true →
      ((line ++ byte :: rest).findIdx? fun found ↦ found == other) =
        (((byte :: rest).findIdx? fun found ↦ found == other).map (· + line.length)) := by
    intro other hother
    rw [List.findIdx?_append, findIdx?_of_unended hline hother]
    rfl
  have hcases : byte = 13 ∨ byte = 10 := by
    unfold isNewline at hbyte
    rw [Bool.or_eq_true, beq_iff_eq, beq_iff_eq] at hbyte
    exact hbyte
  -- The other byte that ends lines comes after this one, if at all.
  have hfirst : ∃ later : List ℕ,
      (((byte :: rest).findIdx? fun found ↦ found == 13).map (· + line.length)).toList ++
        (((byte :: rest).findIdx? fun found ↦ found == 10).map (· + line.length)).toList =
          later ∧ ∃ first tail, later = first :: tail ∧ tail.foldl min first = line.length := by
    refine ⟨_, rfl, ?_⟩
    rw [List.findIdx?_cons, List.findIdx?_cons]
    rcases hcases with rfl | rfl
    · cases rest.findIdx? fun found ↦ found == 10 with
      | none => exact ⟨_, _, rfl, Nat.zero_add _⟩
      | some index => exact ⟨_, _, rfl, by simp⟩
    · cases rest.findIdx? fun found ↦ found == 13 with
      | none => exact ⟨_, _, rfl, Nat.zero_add _⟩
      | some index => exact ⟨_, _, rfl, by simp⟩
  obtain ⟨-, rfl, first, tail, hlist, hindex⟩ := hfirst
  unfold lineBoundary
  rw [hfind 13 (by decide), hfind 10 (by decide)]
  dsimp only
  rw [hlist]
  dsimp only
  rw [hindex, hdrop, hwidth]

section

variable [JsonLoads]

/-- Lines in their order, up to the first with semantic output or with an error. -/
def scan : List Bytes → Except LoadsError Bool
  | [] => .ok false
  | line :: rest =>
    match lineHasSemanticOutput line with
    | .ok true => .ok true
    | .ok false => scan rest
    | .error error => .error error

theorem lineHasSemanticOutput_nil : lineHasSemanticOutput [] = .ok false := by
  unfold lineHasSemanticOutput
  rw [if_pos (by decide)]

@[simp] theorem scan_cons_nil (rest : List Bytes) : scan ([] :: rest) = scan rest := by
  rw [scan, lineHasSemanticOutput_nil]

theorem scan_append (first second : List Bytes) : scan (first ++ second) =
      match scan first with
      | .ok true => .ok true
      | .ok false => scan second
      | .error error => .error error := by
  induction first with
  | nil => rfl
  | cons line rest ih =>
    rw [List.cons_append, scan, scan, ih]
    cases lineHasSemanticOutput line with
    | error error => rfl
    | ok semantic =>
      cases semantic with
      | true => rfl
      | false => rfl

/-- What the probe says after lines, and what it keeps. -/
def probed (result : Except LoadsError Bool) (left : Bytes) : Except LoadsError (Bool × Probe) :=
  match result with
  | .ok true => .ok (true, .stop)
  | .ok false => .ok (false, ⟨left, false⟩)
  | .error error => .error error

/-- The probe reads the lines that are ended. -/
theorem feedLines_eq {fuel : ℕ} {pending : Bytes} (hfuel : pending.length ≤ fuel) :
    feedLines fuel pending = probed (scan (segments pending).1) (segments pending).2 := by
  induction fuel generalizing pending with
  | zero =>
    rw [List.eq_nil_of_length_eq_zero (Nat.le_zero.mp hfuel)]
    rfl
  | succ fuel ih =>
    rcases unended_or_line pending with hunended | ⟨line, byte, rest, rfl, hline, hbyte⟩
    · rw [feedLines, lineBoundary_of_unended hunended, segments_of_unended hunended]
      rfl
    · have htake : (line ++ byte :: rest).take line.length = line := List.take_left
      have hrest : rest.length ≤ fuel := by
        rw [List.length_append, List.length_cons] at hfuel
        omega
      rw [feedLines, lineBoundary_of_line hline hbyte, segments_cons_line hline hbyte]
      dsimp only
      rw [htake, scan]
      cases lineHasSemanticOutput line with
      | error error => rfl
      | ok semantic =>
        cases semantic with
        | true => rfl
        | false =>
          show feedLines fuel _ = _
          split
          · -- The line feed after a carriage return would end an empty line.
            rename_i hwidth
            obtain ⟨rfl, hnext⟩ := hwidth
            obtain ⟨after, rfl⟩ : ∃ after, rest = 10 :: after := by
              cases rest with
              | nil => cases hnext
              | cons next after => exact ⟨after, by rw [Option.some.inj hnext]⟩
            have hdrop : (line ++ 13 :: 10 :: after).drop (line.length + 2) = after := by
              rw [← List.drop_drop, List.drop_left]
              rfl
            have hafter : after.length ≤ fuel := (Nat.le_succ _).trans hrest
            have hempty : segments (10 :: after) = ([] :: (segments after).1, (segments after).2) :=
              segments_cons_line unended_nil (by decide)
            rw [hdrop, ih hafter, hempty, scan_cons_nil]
          · have hdrop : (line ++ byte :: rest).drop (line.length + 1) = rest := by
              rw [← List.drop_drop, List.drop_left]
              rfl
            rw [hdrop, ih hrest]

theorem run_stop (chunks : List Bytes) : run .stop chunks = .ok false := by
  induction chunks with
  | nil => rfl
  | cons chunk rest ih =>
    have hfeed : feed .stop chunk = .ok (false, .stop) := if_pos (Or.inl rfl)
    rw [run, hfeed]
    simp only [bind, Except.bind, ih]
    rfl

/-- However a stream is split, the probe reads the same lines. -/
theorem run_eq {left : Bytes} {chunks : List Bytes} (hleft : Unended left)
    (hlength : (left ++ chunks.flatten).length ≤ maxEvidenceResponseBytes) :
    run ⟨left, false⟩ chunks =
      scan ((segments (left ++ chunks.flatten)).1 ++ [(segments (left ++ chunks.flatten)).2]) := by
  induction chunks generalizing left with
  | nil =>
    have hend : removeReturn left = left := by
      unfold removeReturn
      rw [if_neg]
      intro hlast
      have hreturn := hleft 13 (List.mem_of_getLast? hlast)
      cases hreturn
    rw [List.flatten_nil, List.append_nil, segments_of_unended hleft, List.nil_append]
    show finish ⟨left, false⟩ = _
    unfold finish
    rw [if_neg Bool.false_ne_true, hend]
    by_cases hnil : left = []
    · subst hnil
      rfl
    · rw [if_neg hnil, scan]
      cases lineHasSemanticOutput left with
      | error error => rfl
      | ok semantic =>
        cases semantic with
        | true => rfl
        | false => rfl
  | cons chunk rest ih =>
    rw [List.flatten_cons, ← List.append_assoc] at hlength ⊢
    by_cases hchunk : chunk = []
    · subst hchunk
      rw [List.append_nil] at hlength ⊢
      have hfeed : feed ⟨left, false⟩ [] = .ok (false, ⟨left, false⟩) := if_pos (Or.inr rfl)
      rw [run, hfeed, ← ih hleft hlength]
      simp only [bind, Except.bind]
      cases run ⟨left, false⟩ rest with
      | error error => rfl
      | ok semantic => rfl
    · have hshort : ¬ maxEvidenceResponseBytes < (left ++ chunk).length := by
        rw [List.length_append] at hlength
        omega
      have hfeed : feed ⟨left, false⟩ chunk =
          probed (scan (segments (left ++ chunk)).1) (segments (left ++ chunk)).2 := by
        unfold feed feedDecoded
        rw [if_neg (by simpa using hchunk)]
        dsimp only
        rw [if_neg hshort, feedLines_eq le_rfl]
      have hlater : ((segments (left ++ chunk)).2 ++ rest.flatten).length ≤
          maxEvidenceResponseBytes := by
        have hle := length_segments_le (left ++ chunk)
        rw [List.length_append] at hlength ⊢
        omega
      rw [run, hfeed, segments_append_left (left ++ chunk), List.append_assoc, scan_append,
        ← ih (unended_segments _) hlater]
      cases scan (segments (left ++ chunk)).1 with
      | error error => rfl
      | ok semantic =>
        cases semantic with
        | true =>
          simp only [probed, bind, Except.bind, run_stop]
          rfl
        | false =>
          simp only [probed, bind, Except.bind]
          cases run ⟨(segments (left ++ chunk)).2, false⟩ rest with
          | error error => rfl
          | ok semantic => rfl

/-- The lines of a body are the bytes between single ends of lines, but for empty lines. -/
theorem scan_linesFrom {line body : Bytes} (hline : Unended line) : scan (linesFrom line body) =
      scan ((segments (line ++ body)).1 ++ [(segments (line ++ body)).2]) := by
  induction line, body using linesFrom.induct with
  | case1 line =>
    rw [List.append_nil, segments_of_unended hline]
    rfl
  | case2 line rest ih =>
    have hempty : segments (10 :: rest) = ([] :: (segments rest).1, (segments rest).2) :=
      segments_cons_line unended_nil (by decide)
    rw [linesFrom, scan, ih unended_nil, List.nil_append, segments_cons_line hline (by decide), hempty,
      List.cons_append, List.cons_append, scan, scan_cons_nil]
  | case3 line byte rest hcrlf hbyte ih =>
    rw [linesFrom, if_pos hbyte, scan, ih unended_nil, List.nil_append, segments_cons_line hline hbyte,
      List.cons_append, scan]
    exact hcrlf
  | case4 line byte rest hcrlf hbyte ih =>
    have hnext : Unended (line ++ [byte]) := by
      intro other hother
      rcases List.mem_append.mp hother with hother | hother
      · exact hline other hother
      · rw [List.mem_singleton.mp hother]
        exact Bool.eq_false_iff.mpr hbyte
    rw [linesFrom, if_neg hbyte, ih hnext, List.append_assoc, List.singleton_append]
    exact hcrlf

/-- The first line that has no plain answer decides. -/
def Decides (result : Except LoadsError Bool) (list : List Bytes) : Prop :=
  ∃ before line after, list = before ++ line :: after ∧ lineHasSemanticOutput line = result ∧
    ∀ earlier ∈ before, lineHasSemanticOutput earlier = .ok false

theorem scan_spec (list : List Bytes) :
    scan list = .ok false ∧ (∀ line ∈ list, lineHasSemanticOutput line = .ok false) ∨
      scan list ≠ .ok false ∧ Decides (scan list) list := by
  induction list with
  | nil => exact Or.inl ⟨rfl, fun _ hline ↦ absurd hline List.not_mem_nil⟩
  | cons first rest ih =>
    rw [scan]
    have hat : ∀ result, lineHasSemanticOutput first = result → Decides result (first :: rest) :=
      fun result hfirst ↦ ⟨[], first, rest, rfl, hfirst, fun _ h ↦ absurd h List.not_mem_nil⟩
    cases hfirst : lineHasSemanticOutput first with
    | error error => exact Or.inr ⟨nofun, hat _ hfirst⟩
    | ok semantic =>
      cases semantic with
      | true => exact Or.inr ⟨nofun, hat _ hfirst⟩
      | false =>
        rcases ih with ⟨hscan, hrest⟩ | ⟨hscan, before, line, after, rfl, hline, hbefore⟩
        · exact Or.inl ⟨hscan, List.forall_mem_cons.mpr ⟨hfirst, hrest⟩⟩
        · exact Or.inr ⟨hscan, first :: before, line, after, rfl, hline,
            List.forall_mem_cons.mpr ⟨hfirst, hbefore⟩⟩

/-! ### Detection -/

/-- The splits of a body into chunks. -/
structure Split (body : Bytes) where
  chunks : List Bytes
  nonempty : ∀ chunk ∈ chunks, chunk ≠ []
  flatten : chunks.flatten = body

theorem run_split {body : Bytes} (hlength : body.length ≤ maxEvidenceResponseBytes)
    (split : Split body) : run .start split.chunks = scan (lines body) := by
  have hbounded : ([] ++ split.chunks.flatten).length ≤ maxEvidenceResponseBytes := by
    rwa [List.nil_append, split.flatten]
  have hrun := run_eq unended_nil hbounded
  rw [split.flatten, List.nil_append] at hrun
  rw [lines, scan_linesFrom unended_nil, List.nil_append]
  exact hrun

/-- Where an error escapes at a line, there was semantic output before, or there is none later. -/
def Unescaped (list : List Bytes) : Prop :=
  ∀ before line after, list = before ++ line :: after →
    lineHasSemanticOutput line = .error .escaping →
      (∃ earlier ∈ before, lineHasSemanticOutput earlier = .ok true) ∨
        ∀ later ∈ after, lineHasSemanticOutput later ≠ .ok true

/-- However a body is split, the probe reports semantic output exactly where a line has some. -/
def Detected (body : Bytes) : Prop :=
  ∀ split : Split body, detects split.chunks ↔
    ∃ line ∈ lines body, lineHasSemanticOutput line = .ok true

omit [JsonLoads] in
theorem exists_split (body : Bytes) : Nonempty (Split body) := by
  by_cases hnil : body = []
  · exact ⟨[], by simp, by simp [hnil]⟩
  · exact ⟨[body], by simpa using hnil, by simp⟩

theorem lineHasSemanticOutput_ne_caught (line : Bytes) :
    lineHasSemanticOutput line ≠ .error .caught := by
  unfold lineHasSemanticOutput
  dsimp only
  split
  · nofun
  · split
    · nofun
    · split
      · nofun
      · nofun
      · nofun
      · nofun

theorem scan_true_iff_exists_iff (list : List Bytes) :
    (scan list = .ok true ↔ ∃ line ∈ list, lineHasSemanticOutput line = .ok true) ↔
      Unescaped list := by
  constructor
  · intro h before line after heq hline
    by_contra hnot
    rw [not_or, not_exists] at hnot
    obtain ⟨hbefore, hafter⟩ := hnot
    obtain ⟨later, hlater, hsemantic⟩ : ∃ later ∈ after, lineHasSemanticOutput later = .ok true := by
      by_contra hnone
      exact hafter fun later hlater hsemantic ↦ hnone ⟨later, hlater, hsemantic⟩
    have hscan := h.mpr ⟨later, by simp [heq, hlater], hsemantic⟩
    rw [heq, scan_append, scan, hline] at hscan
    rcases scan_spec before with ⟨hfalse, -⟩ | ⟨-, first, earlier, rest, hsplit, hearlier, -⟩
    · rw [hfalse] at hscan
      cases hscan
    · cases hresult : scan before with
      | error error =>
        rw [hresult] at hscan
        cases hscan
      | ok semantic =>
        rw [hresult] at hscan hearlier
        cases semantic with
        | true => exact hbefore earlier ⟨by simp [hsplit], hearlier⟩
        | false => cases hscan
  · intro hunescaped
    rcases scan_spec list with ⟨hscan, hfalse⟩ | ⟨hdecided, before, line, after, hsplit, hline, hbefore⟩
    · rw [hscan]
      refine ⟨nofun, fun ⟨line, hmem, hsemantic⟩ ↦ ?_⟩
      rw [hfalse line hmem] at hsemantic
      cases hsemantic
    · refine ⟨fun hscan ↦ ⟨line, by simp [hsplit], hline.trans hscan⟩, fun ⟨other, hmem, hother⟩ ↦ ?_⟩
      have hearlier : ¬ ∃ earlier ∈ before, lineHasSemanticOutput earlier = .ok true := by
        rintro ⟨earlier, hmem, hsemantic⟩
        rw [hbefore earlier hmem] at hsemantic
        cases hsemantic
      rw [hsplit, List.mem_append, List.mem_cons] at hmem
      rcases hmem with hmem | rfl | hmem
      · exact absurd ⟨other, hmem, hother⟩ hearlier
      · rw [← hline, hother]
      · cases hscan : scan list with
        | error error =>
          rw [hscan] at hline
          cases error with
          | caught => exact absurd hline (lineHasSemanticOutput_ne_caught line)
          | escaping =>
            rcases hunescaped before line after hsplit hline with hsome | hnone
            · exact absurd hsome hearlier
            · exact absurd hother (hnone other hmem)
        | ok semantic =>
          cases semantic with
          | true => rfl
          | false => exact absurd hscan hdecided

end

/-! ### A body with too many digits -/

/-- A line that is ended by a line feed. -/
theorem linesFrom_line {start line : Bytes} (rest : Bytes) (hline : Unended line) :
    linesFrom start (line ++ 10 :: rest) = (start ++ line) :: lines rest := by
  induction line generalizing start with
  | nil =>
    rw [List.append_nil, List.nil_append, linesFrom, if_pos (by decide), lines]
    intro after h
    cases h
  | cons byte line ih =>
    obtain ⟨hbyte, hline⟩ := List.forall_mem_cons.mp hline
    rw [List.cons_append, linesFrom, if_neg (by rw [hbyte]; exact Bool.false_ne_true), ih hline,
      List.append_assoc, List.singleton_append]
    rintro after rfl
    cases hbyte

def deltaPayload : JsonValue :=
  .object [(text "choices", .array [.object [(text "delta",
    .object [(text "content", .string (text "a"))])]])]

def deltaText : Bytes := bytes "\x7b\"choices\":[\x7b\"delta\":\x7b\"content\":\"a\"\x7d\x7d]\x7d"

/-- Integers of more than 4300 digits are refused by an error of their own. -/
local instance sampleLoads : JsonLoads where
  loads data :=
    if 4300 < data.length ∧ data.all fun byte ↦ decide (48 ≤ byte ∧ byte ≤ 57) then .error .escaping
    else if data = deltaText then .ok deltaPayload else .error .caught

def digitsLine : Bytes := bytes "data:" ++ List.replicate 4301 57

def deltaLine : Bytes := bytes "data:" ++ deltaText

def digitsBody : Bytes := digitsLine ++ 10 :: (deltaLine ++ 10 :: [])

theorem strip_replicate (count : ℕ) :
    strip (List.replicate (count + 1) 57) = List.replicate (count + 1) 57 := by
  unfold strip
  rw [List.replicate_succ, List.dropWhile_cons_of_neg (by decide), ← List.replicate_succ,
    List.reverse_replicate, List.replicate_succ, List.dropWhile_cons_of_neg (by decide),
    ← List.replicate_succ, List.reverse_replicate]

theorem lineHasSemanticOutput_digitsLine : lineHasSemanticOutput digitsLine = .error .escaping := by
  have hdrop : digitsLine.drop (bytes "data:").length = List.replicate 4301 57 := List.drop_left
  have hprefix : bytes "data:" <+: digitsLine := List.prefix_append _ _
  have hplain : ¬ (List.replicate 4301 57 = ([] : Bytes) ∨ List.replicate 4301 57 = bytes "[DONE]") := by
    intro h
    rcases h with h | h
    · cases h
    · have hlength := congrArg List.length h
      rw [List.length_replicate] at hlength
      cases hlength
  unfold lineHasSemanticOutput
  rw [if_neg (not_not.mpr hprefix), hdrop, strip_replicate 4300]
  dsimp only
  rw [if_neg hplain]
  have hloads : JsonLoads.loads (List.replicate 4301 57) = .error .escaping :=
    if_pos ⟨by rw [List.length_replicate]; decide, List.all_eq_true.mpr fun byte hbyte ↦ by
      rw [List.eq_of_mem_replicate hbyte]; rfl⟩
  rw [hloads]

theorem lineHasSemanticOutput_deltaLine : lineHasSemanticOutput deltaLine = .ok true := by
  decide +kernel

theorem unended_digitsLine : Unended digitsLine := by
  intro byte hbyte
  rcases List.mem_append.mp hbyte with hbyte | hbyte
  · exact unended_of_all (by decide) byte hbyte
  · rw [List.eq_of_mem_replicate hbyte]
    rfl

theorem unended_deltaLine : Unended deltaLine := unended_of_all (by decide)

theorem lines_digitsBody : lines digitsBody = [digitsLine, deltaLine, []] := by
  unfold digitsBody
  rw [lines, linesFrom_line _ unended_digitsLine, lines, linesFrom_line _ unended_deltaLine]
  rfl

end HarborHF.FirstToken
