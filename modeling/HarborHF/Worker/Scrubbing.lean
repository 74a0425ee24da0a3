import HarborHF.Worker.Redaction

/-!
# Scrubbing of a file

`_file_contains` and `_scrub_file` read a file in chunks of any lengths, the first with the last bytes of
what was read carried over, the second with those that may still begin the needle. However the reads
split the content, they do what is done at once with the whole of it.
-/

set_option autoImplicit false

namespace HarborHF.Scrubbing

open Relational Worker

/-- What the reads of a stream return until there is nothing left. -/
structure Reads (content : Bytes) where
  chunks : List Bytes
  nonempty : ∀ chunk ∈ chunks, chunk ≠ []
  flatten : chunks.flatten = content

/-- `data[-length:]`, or nothing where the length is zero. -/
def lastBytes (length : ℕ) (data : Bytes) : Bytes :=
  if length = 0 then [] else data.drop (data.length - length)

/-- The loop of `_file_contains`. -/
def containsLoop (needle : Bytes) : Bytes → List Bytes → Bool
  | _, [] => false
  | carry, chunk :: rest =>
    let data := carry ++ chunk
    if needle <:+: data then true else containsLoop needle (lastBytes (needle.length - 1) data) rest

/-- `_file_contains`. -/
def fileContains (needle : Bytes) {content : Bytes} (reads : Reads content) : Bool :=
  containsLoop needle [] reads.chunks

def replacement : Bytes := encode redactionMark

/-- The loop over the positions of the needle in what was read: what is written, what is carried on, and
whether there was one. Every round leaves less to carry. -/
def replaceFound (needle : Bytes) : ℕ → Bytes → Bytes × Bytes × Bool
  | 0, carry => ([], carry, false)
  | fuel + 1, carry =>
    match position needle carry with
    | none => ([], carry, false)
    | some found =>
      let (written, kept, _) := replaceFound needle fuel (carry.drop (found + needle.length))
      (carry.take found ++ replacement ++ written, kept, true)

/-- The loop of `_scrub_file` over the chunks: what is written, and whether the needle was found. -/
def scrubLoop (needle : Bytes) : Bytes → List Bytes → Bytes × Bool
  | carry, [] => (carry, false)
  | carry, chunk :: rest =>
    let (written, kept, found) := replaceFound needle (carry ++ chunk).length (carry ++ chunk)
    let flushLength := kept.length + 1 - needle.length
    let (later, changed) := scrubLoop needle (kept.drop flushLength) rest
    (written ++ kept.take flushLength ++ later, found || changed)

/-- `_scrub_file`, which reads the content once for the needle and once to replace it: the content it
leaves, and whether it was changed. -/
def scrubFile (needle : Bytes) {content : Bytes} (first second : Reads content) : Bytes × Bool :=
  if !fileContains needle first then (content, false)
  else
    let (written, changed) := scrubLoop needle [] second.chunks
    if changed then (written, true) else (content, false)

variable {needle content : Bytes}

/-! ### The loops -/

theorem lastBytes_eq (length : ℕ) (data : Bytes) :
    lastBytes length data = data.drop (data.length - length) := by
  unfold lastBytes
  split_ifs with hzero
  · simp [hzero]
  · rfl

theorem containsLoop_eq (carry : Bytes) (chunks : List Bytes) :
    containsLoop needle carry chunks = occursInPieces needle carry chunks := by
  induction chunks generalizing carry with
  | nil => rfl
  | cons chunk rest ih =>
    unfold containsLoop occursInPieces
    dsimp only
    rw [lastBytes_eq, ih]

theorem replaceFound_eq (fuel : ℕ) (carry : Bytes) :
    ((replaceFound needle fuel carry).1, (replaceFound needle fuel carry).2.1) =
      drain needle replacement fuel carry := by
  induction fuel generalizing carry with
  | zero => rfl
  | succ fuel ih =>
    unfold replaceFound drain
    cases position needle carry with
    | none => rfl
    | some found =>
      have hrest := ih (carry.drop (found + needle.length))
      dsimp only
      rw [← hrest]

/-- What is left without an occurrence is what was read. -/
theorem replaceFound_of_not_found (fuel : ℕ) (carry : Bytes)
    (h : (replaceFound needle fuel carry).2.2 = false) :
    replaceFound needle fuel carry = ([], carry, false) := by
  cases fuel with
  | zero => rfl
  | succ fuel =>
    unfold replaceFound at h ⊢
    cases hposition : position needle carry with
    | none => rfl
    | some found =>
      rw [hposition] at h
      cases h

theorem scrubLoop_eq (carry : Bytes) (chunks : List Bytes) :
    (scrubLoop needle carry chunks).1 = replacePieces needle replacement carry chunks := by
  induction chunks generalizing carry with
  | nil => rfl
  | cons chunk rest ih =>
    unfold scrubLoop replacePieces
    rw [← replaceFound_eq]
    dsimp only
    rw [ih]

/-- Where no occurrence was found what is written is what was read. -/
theorem scrubLoop_of_not_changed (carry : Bytes) (chunks : List Bytes)
    (h : (scrubLoop needle carry chunks).2 = false) :
    (scrubLoop needle carry chunks).1 = carry ++ chunks.flatten := by
  induction chunks generalizing carry with
  | nil => simp [scrubLoop]
  | cons chunk rest ih =>
    unfold scrubLoop at h ⊢
    dsimp only at h ⊢
    rw [Bool.or_eq_false_iff] at h
    have hfound := replaceFound_of_not_found _ _ h.1
    rw [hfound] at h ⊢
    rw [ih _ h.2, List.flatten_cons, List.nil_append, ← List.append_assoc, List.take_append_drop,
      List.append_assoc]

/-! ### Whole files -/

theorem fileContains_iff (hneedle : needle ≠ []) (reads : Reads content) :
    fileContains needle reads = true ↔ needle <:+: content := by
  unfold fileContains
  rw [containsLoop_eq, occursInPieces_iff hneedle [] _ (List.length_pos_iff.mpr hneedle),
    List.nil_append, reads.flatten]

theorem scrubFile_fst (hneedle : needle ≠ []) (first second : Reads content) :
    (scrubFile needle first second).1 = replaceAll needle replacement content := by
  have hloop : (scrubLoop needle [] second.chunks).1 = replaceAll needle replacement content := by
    rw [scrubLoop_eq, replacePieces_eq hneedle [] _ (by simpa using hneedle), List.nil_append,
      second.flatten]
  unfold scrubFile
  by_cases hcontains : fileContains needle first = true
  · rw [hcontains, Bool.not_true, if_neg (by decide)]
    dsimp only
    by_cases hchanged : (scrubLoop needle [] second.chunks).2 = true
    · rw [if_pos hchanged, hloop]
    · have hsame := scrubLoop_of_not_changed [] second.chunks (Bool.eq_false_iff.mpr hchanged)
      rw [if_neg hchanged, ← hloop, hsame, List.nil_append, second.flatten]
  · have habsent := mt (fileContains_iff hneedle first).mpr hcontains
    rw [Bool.not_eq_true] at hcontains
    rw [hcontains, Bool.not_false, if_pos rfl, replaceAll_of_not_infix habsent]

/-- However the reads split a file, the needle is found where it occurs, and every occurrence from the
left is replaced. -/
theorem scrubbing_eq_replacement (hneedle : needle ≠ []) (found first second : Reads content) :
    (fileContains needle found = true ↔ needle <:+: content) ∧
      (scrubFile needle first second).1 = replaceAll needle replacement content :=
  ⟨fileContains_iff hneedle found, scrubFile_fst hneedle first second⟩

/-- A needle that overlaps itself, over three reads. -/
def overlapping : Reads [97, 97, 98, 97, 97, 97, 98, 97, 97] :=
  ⟨[[97, 97, 98, 97], [97], [97, 98, 97, 97]], by decide, rfl⟩

theorem scrubbing_eq_replacement_overlapping :
    (fileContains [97, 97, 98, 97, 97] overlapping = true ↔
        ([97, 97, 98, 97, 97] : Bytes) <:+: [97, 97, 98, 97, 97, 97, 98, 97, 97]) ∧
      (scrubFile [97, 97, 98, 97, 97] overlapping overlapping).1 =
        replaceAll [97, 97, 98, 97, 97] replacement [97, 97, 98, 97, 97, 97, 98, 97, 97] :=
  scrubbing_eq_replacement (by decide) overlapping overlapping overlapping

end HarborHF.Scrubbing
