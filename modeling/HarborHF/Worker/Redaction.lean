import Mathlib.Data.List.Sort
import HarborHF.Relational.Annotated
import HarborHF.Relational.Chunks
import HarborHF.Relational.Fold
import HarborHF.Relational.Renaming
import HarborHF.Worker.Evidence

/-!
# Redaction of evidence

Secrets are taken out of an evidence directory one after another: first out of the names of its entries,
the deepest first, and then out of the bytes of its files, which are read in pieces. At the end no
secret may stand in a path or in a file.

A secret may still be read there, with letters of a mark or with a separator of two names. Where no
secret meets, at its turn, a mark that was inserted before it, that is the only way it can.
-/

set_option autoImplicit false

namespace HarborHF.Worker

open Relational

/-! ### Evidence directories -/

/-- The directories, and the files with their bytes, of an evidence directory. -/
abbrev Entries := Dict Path (Option Bytes)

/-- An evidence directory without symbolic links and special files. -/
structure EvidenceTree where
  entries : Entries
  rooted : Rooted entries.keys
  directory : ∀ above name, above ++ [name] ∈ entries.keys → above ≠ [] → (above, none) ∈ entries

/-- The bytes of a text in UTF-8. -/
def encode (text : String) : Bytes :=
  text.toList.flatMap String.utf8EncodeChar

def redactionMark : String := "[REDACTED]"

/-- `_STREAM_CHUNK_SIZE`. -/
def streamChunkSize : ℕ := 1024 * 1024

/-- The values that are not empty, each once (`_secret_values`). -/
def secretValues (secrets : List String) : List String :=
  (secrets.filter fun value ↦ value ≠ "").eraseDups

/-- The paths of all entries (`_evidence_paths`). -/
def evidencePaths (root : Entries) : List Path :=
  root.keys.mergeSort fun first second ↦ decide (first ≤ second)

/-- The path as a text. -/
def relativeText (path : Path) : String :=
  "/".intercalate path

def containsText (secret text : String) : Bool :=
  decide (secret.toList <:+: text.toList)

/-- `_file_contains`. -/
def fileContains (needle content : Bytes) : Bool :=
  occursInPieces needle [] (chunks streamChunkSize content)

/-- `assert_secret_absent`. -/
def assertSecretAbsent (root : Entries) (secrets : List String) : Except WorkerError Unit :=
  (secretValues secrets).forM fun secret ↦
    (evidencePaths root).forM fun path ↦
      if containsText secret (relativeText path) then
        .error (.runtime "secret value found in artifact path")
      else
        match root.get? path with
        | some (some content) =>
          if fileContains (encode secret) content then
            .error (.runtime ("secret value found in artifact " ++ relativeText path))
          else .ok ()
        | _ => .ok ()

/-! ### Scrubbing -/

def redactName (secret name : String) : String :=
  String.ofList (replaceAll secret.toList redactionMark.toList name.toList)

local instance : LawfulBEq Path := inferInstance

/-- One path of `scrub_secret_paths`. -/
def scrubPath (secret : String) (state : Entries × ℕ) (path : Path) :
    Except WorkerError (Entries × ℕ) :=
  match path.getLast? with
  | none => .ok state
  | some name =>
    if !containsText secret name then .ok state
    else
      let destination := path.dropLast ++ [redactName secret name]
      if destination ∈ state.1.keys then
        .error (.runtime "secret path redaction would overwrite an artifact")
      else .ok (rename path destination state.1, state.2 + 1)

/-- The paths of all entries, the deepest first. -/
def deepestFirst (root : Entries) : List Path :=
  (evidencePaths root).mergeSort fun first second ↦ decide (second.length ≤ first.length)

def scrubPathsOf (state : Entries × ℕ) (secret : String) : Except WorkerError (Entries × ℕ) :=
  (deepestFirst state.1).foldlM (scrubPath secret) state

/-- `scrub_secret_paths`: the entries, and how many were renamed. -/
def scrubSecretPaths (root : Entries) (secrets : List String) : Except WorkerError (Entries × ℕ) :=
  (secretValues secrets).foldlM scrubPathsOf (root, 0)

/-- What `_scrub_file` leaves of a file. -/
def scrubFile (needle content : Bytes) : Bytes :=
  if !fileContains needle content then content
  else replacePieces needle (encode redactionMark) [] (chunks streamChunkSize content)

/-- The files that have a needle, which `_scrub_file` changes. -/
def changedFiles (needle : Bytes) (root : Entries) : List String :=
  ((evidencePaths root).filter fun path ↦
    match root.get? path with
    | some (some content) => fileContains needle content
    | _ => false).map relativeText

def scrubSecretOf (state : Entries × List String) (secret : String) : Entries × List String :=
  (state.1.map fun entry ↦ (entry.1, entry.2.map (scrubFile (encode secret))),
    state.2 ++ (changedFiles (encode secret) state.1).filter (· ∉ state.2))

/-- `scrub_secret`: the entries, and the files that were changed. -/
def scrubSecret (root : Entries) (secrets : List String) : Entries × List String :=
  let (scrubbed, changed) := (secretValues secrets).foldl scrubSecretOf (root, [])
  (scrubbed, changed.mergeSort fun first second ↦ decide (first ≤ second))

/-- The scrubs of a unit of evidence (`_redact_unit`). -/
def scrub (root : Entries) (secrets : List String) : Except WorkerError Entries := do
  let (renamed, _) ← scrubSecretPaths root secrets
  return (scrubSecret renamed secrets).1

/-! ### What the checks find -/

variable {root after : Entries} {secrets : List String} {secret name : String} {needle content : Bytes}
  {path : Path}

theorem mem_evidencePaths_iff : path ∈ evidencePaths root ↔ path ∈ root.keys :=
  List.mem_mergeSort

theorem mem_secretValues_iff : secret ∈ secretValues secrets ↔ secret ∈ secrets ∧ secret ≠ "" := by
  rw [secretValues, List.mem_eraseDups, List.mem_filter, decide_eq_true_eq]

theorem toList_ne_nil_of_mem (h : secret ∈ secretValues secrets) : secret.toList ≠ [] := by
  simpa using (mem_secretValues_iff.mp h).2

theorem encode_ne_nil_of_mem (h : secret ∈ secretValues secrets) : encode secret ≠ [] := by
  obtain ⟨letter, rest, heq⟩ := List.exists_cons_of_ne_nil (toList_ne_nil_of_mem h)
  rw [encode, heq, List.flatMap_cons]
  simp [String.utf8EncodeChar_ne_nil]

theorem flatten_stream (content : Bytes) : (chunks streamChunkSize content).flatten = content :=
  flatten_chunks (by decide) content

theorem fileContains_iff (hneedle : needle ≠ []) :
    fileContains needle content = true ↔ needle <:+: content := by
  unfold fileContains
  rw [occursInPieces_iff hneedle [] _ (List.length_pos_iff.mpr hneedle), List.nil_append,
    flatten_stream]

theorem scrubFile_eq (hneedle : needle ≠ []) :
    scrubFile needle content = replaceAll needle (encode redactionMark) content := by
  unfold scrubFile
  by_cases hcontains : fileContains needle content = true
  · rw [hcontains, Bool.not_true, if_neg (by decide),
      replacePieces_eq hneedle [] _ (by simpa using hneedle), List.nil_append, flatten_stream]
  · have habsent := mt (fileContains_iff hneedle).mpr hcontains
    rw [Bool.not_eq_true] at hcontains
    rw [hcontains, Bool.not_false, if_pos rfl, replaceAll_of_not_infix habsent]

/-- No secret stands in a path or in a file. -/
theorem assertSecretAbsent_eq_ok_iff (hnodup : root.keys.Nodup) :
    assertSecretAbsent root secrets = .ok () ↔
      ∀ secret ∈ secretValues secrets, ∀ entry ∈ root,
        ¬secret.toList <:+: (relativeText entry.1).toList ∧
          ∀ content ∈ entry.2, ¬encode secret <:+: content := by
  unfold assertSecretAbsent
  rw [forM_eq_ok]
  refine forall₂_congr fun secret hsecret ↦ ?_
  rw [forM_eq_ok]
  constructor
  · intro h entry hentry
    have hget : root.get? entry.1 = some entry.2 := (Dict.get?_eq_some_iff hnodup).mpr hentry
    have hchecked := h entry.1 (mem_evidencePaths_iff.mpr (List.mem_map.mpr ⟨entry, hentry, rfl⟩))
    rw [hget] at hchecked
    split_ifs at hchecked with hpath
    refine ⟨fun hinside ↦ hpath (decide_eq_true hinside), fun content hcontent hinside ↦ ?_⟩
    rw [Option.mem_def.mp hcontent] at hchecked
    dsimp only at hchecked
    rw [if_pos ((fileContains_iff (encode_ne_nil_of_mem hsecret)).mpr hinside)] at hchecked
    cases hchecked
  · intro h path hpath
    obtain ⟨node, hentry⟩ : ∃ node, (path, node) ∈ root := by
      simpa [Dict.keys] using mem_evidencePaths_iff.mp hpath
    obtain ⟨htext, hbytes⟩ := h (path, node) hentry
    have hget : root.get? path = some node := (Dict.get?_eq_some_iff hnodup).mpr hentry
    rw [hget, if_neg (by simpa [containsText] using htext)]
    cases node with
    | none => rfl
    | some content =>
      have habsent := mt (fileContains_iff (encode_ne_nil_of_mem hsecret)).mp (hbytes content rfl)
      exact if_neg habsent

/-! ### What the scrubs leave -/

theorem redactName_of_not_contains (h : containsText secret name = false) :
    redactName secret name = name := by
  have habsent : ¬secret.toList <:+: name.toList := by simpa [containsText] using h
  rw [redactName, replaceAll_of_not_infix habsent, String.ofList_toList]

theorem mem_deepestFirst_iff : path ∈ deepestFirst root ↔ path ∈ root.keys :=
  List.mem_mergeSort.trans mem_evidencePaths_iff

theorem pairwise_deepestFirst :
    (deepestFirst root).Pairwise fun first second ↦ second.length ≤ first.length := by
  have hsorted := @List.pairwise_mergeSort _ (fun first second : Path ↦
    decide (second.length ≤ first.length)) (by simp; omega) (by simp; omega) (evidencePaths root)
  simpa [deepestFirst] using hsorted

theorem nodup_deepestFirst (hrooted : Rooted root.keys) : (deepestFirst root).Nodup := by
  have hperm : (deepestFirst root).Perm root.keys :=
    (List.mergeSort_perm _ _).trans (List.mergeSort_perm _ _)
  exact hperm.nodup_iff.mpr hrooted.nodup

/-- One path of those left, one of the deepest. -/
theorem renamed_scrubPath {done : List Path} {state next : Entries × ℕ} (hrooted : Rooted root.keys)
    (h : Renamed (redactName secret) done root state.1) (hmem : path ∈ root.keys)
    (hdone : ∀ other ∈ done, path.length ≤ other.length) (hnew : path ∉ done)
    (hstep : scrubPath secret state path = .ok next) :
    Renamed (redactName secret) (path :: done) root next.1 := by
  rcases List.eq_nil_or_concat path with rfl | ⟨above, name, rfl⟩
  · exact absurd hmem hrooted.ne_nil
  · rw [List.concat_eq_append] at *
    simp only [scrubPath, List.getLast?_concat, List.dropLast_concat] at hstep
    split_ifs at hstep with hcontains hexists
    · obtain rfl := Except.ok.inj hstep
      exact h.skip (redactName_of_not_contains (by simpa using hcontains))
    · obtain rfl := Except.ok.inj hstep
      refine h.rename hrooted hmem (fun other hother ↦ ?_) hnew hexists
      have hle := hdone other hother
      rw [List.length_append, List.length_singleton] at hle
      omega

theorem renamed_scrubPaths {paths done : List Path} {state last : Entries × ℕ}
    (hrooted : Rooted root.keys) (h : Renamed (redactName secret) done root state.1)
    (hmem : ∀ path ∈ paths, path ∈ root.keys)
    (hsorted : paths.Pairwise fun first second ↦ second.length ≤ first.length)
    (hnodup : paths.Nodup) (hdone : ∀ other ∈ done, ∀ path ∈ paths, path.length ≤ other.length)
    (hnew : ∀ path ∈ paths, path ∉ done) (hrun : paths.foldlM (scrubPath secret) state = .ok last) :
    Renamed (redactName secret) (paths.reverse ++ done) root last.1 := by
  induction paths generalizing done state with
  | nil =>
    cases hrun
    exact h
  | cons path paths ih =>
    obtain ⟨next, hstep, hrest⟩ := foldlM_cons_ok.mp hrun
    obtain ⟨hfirst, hsorted⟩ := List.pairwise_cons.mp hsorted
    obtain ⟨hnotMem, hnodup⟩ := List.nodup_cons.mp hnodup
    have hnext := renamed_scrubPath hrooted h (hmem path (by simp))
      (fun other hother ↦ hdone other hother path (by simp)) (hnew path (by simp)) hstep
    have hall := ih hnext (fun other hother ↦ hmem other (by simp [hother])) hsorted hnodup
      (by
        intro other hother later hlater
        rcases List.mem_cons.mp hother with rfl | hother
        · exact hfirst later hlater
        · exact hdone other hother later (by simp [hlater]))
      (by
        intro later hlater hmem'
        rcases List.mem_cons.mp hmem' with rfl | hmem'
        · exact hnotMem hlater
        · exact hnew later (by simp [hlater]) hmem')
      hrest
    simpa using hall

theorem scrubPathsOf_eq_ok {state last : Entries × ℕ} (hrooted : Rooted state.1.keys)
    (h : scrubPathsOf state secret = .ok last) :
    last.1 = (state.1.map fun entry ↦ (entry.1.map (redactName secret), entry.2)) ∧
      Rooted last.1.keys := by
  have hall := renamed_scrubPaths hrooted Renamed.nil (fun path hpath ↦ mem_deepestFirst_iff.mp hpath)
    pairwise_deepestFirst (nodup_deepestFirst hrooted) (by simp) (by simp) h
  exact hall.all hrooted fun path hpath ↦ by simpa using mem_deepestFirst_iff.mpr hpath

def redactNameAll (secrets : List String) (name : String) : String :=
  secrets.foldl (fun name secret ↦ redactName secret name) name

theorem redactNameAll_cons (values : List String) (name : String) :
    redactNameAll (secret :: values) name = redactNameAll values (redactName secret name) := by
  unfold redactNameAll
  rw [List.foldl_cons]

theorem scrubPaths_eq_ok {values : List String} {state last : Entries × ℕ}
    (hrooted : Rooted state.1.keys) (h : values.foldlM scrubPathsOf state = .ok last) :
    last.1 = (state.1.map fun entry ↦ (entry.1.map (redactNameAll values), entry.2)) ∧
      Rooted last.1.keys := by
  induction values generalizing state with
  | nil =>
    cases h
    refine ⟨?_, hrooted⟩
    have hself : redactNameAll [] = id := rfl
    simp [hself]
  | cons secret values ih =>
    obtain ⟨next, hstep, hrest⟩ := foldlM_cons_ok.mp h
    obtain ⟨hnext, hrooted'⟩ := scrubPathsOf_eq_ok hrooted hstep
    obtain ⟨hlast, hrooted''⟩ := ih hrooted' hrest
    refine ⟨?_, hrooted''⟩
    rw [hlast, hnext, List.map_map]
    refine List.map_congr_left fun entry _ ↦ ?_
    simp only [Function.comp_apply, List.map_map]
    rfl

def redactBytesAll (secrets : List String) (content : Bytes) : Bytes :=
  secrets.foldl (fun content secret ↦ scrubFile (encode secret) content) content

theorem redactBytesAll_cons (values : List String) (content : Bytes) :
    redactBytesAll (secret :: values) content =
      redactBytesAll values (scrubFile (encode secret) content) := by
  unfold redactBytesAll
  rw [List.foldl_cons]

theorem foldl_scrubSecretOf (values : List String) (state : Entries × List String) :
    (values.foldl scrubSecretOf state).1 =
      state.1.map fun entry ↦ (entry.1, entry.2.map (redactBytesAll values)) := by
  induction values generalizing state with
  | nil =>
    have hself : redactBytesAll [] = id := rfl
    simp [hself]
  | cons secret values ih =>
    rw [List.foldl_cons, ih, scrubSecretOf, List.map_map]
    refine List.map_congr_left fun entry _ ↦ ?_
    simp only [Function.comp_apply, Option.map_map]
    rfl

/-- What both scrubs leave: every name and every file with its secrets replaced in turn. -/
theorem scrub_eq_ok (hrooted : Rooted root.keys) (h : scrub root secrets = .ok after) :
    after = (root.map fun entry ↦ (entry.1.map (redactNameAll (secretValues secrets)),
      entry.2.map (redactBytesAll (secretValues secrets)))) ∧ after.keys.Nodup := by
  obtain ⟨⟨renamed, count⟩, hrenamed, hafter⟩ := bind_eq_ok.mp h
  obtain ⟨hentries, hrooted'⟩ := scrubPaths_eq_ok hrooted hrenamed
  dsimp only at hentries hrooted'
  cases hafter
  have hscrubbed : (scrubSecret renamed secrets).1 =
      renamed.map fun entry ↦ (entry.1, entry.2.map (redactBytesAll (secretValues secrets))) :=
    foldl_scrubSecretOf _ _
  rw [hscrubbed]
  constructor
  · rw [hentries, List.map_map]
    rfl
  · have hkeys : Dict.keys (renamed.map fun entry ↦
        (entry.1, entry.2.map (redactBytesAll (secretValues secrets)))) = renamed.keys := by
      unfold Dict.keys
      rw [List.map_map]
      rfl
    rw [hkeys]
    exact hrooted'.nodup

/-! ### Whether a secret is left -/

section Annotations

open Annotated

/-- A name with its secrets replaced in turn, the marks kept apart. -/
def redactedName (secrets : List String) (name : String) : Annotated Char :=
  redactAll redactionMark.toList ((secretValues secrets).map String.toList) (plain name.toList)

/-- A file with its secrets replaced in turn, the marks kept apart. -/
def redactedBytes (secrets : List String) (content : Bytes) : Annotated UInt8 :=
  redactAll (encode redactionMark) ((secretValues secrets).map encode) (plain content)

/-- A path of such names, the separators kept apart too. -/
def redactedPath (secrets : List String) (path : Path) : Annotated Char :=
  joined ['/'] (path.map (redactedName secrets))

/-- At its turn no secret is read with letters of a mark inserted before, in a name or in a file. -/
def SecretsUndisturbed (secrets : List String) (root : Entries) : Prop :=
  ∀ entry ∈ root,
    (∀ name ∈ entry.1, Undisturbed redactionMark.toList ((secretValues secrets).map String.toList)
      (plain name.toList)) ∧
    ∀ content ∈ entry.2, Undisturbed (encode redactionMark) ((secretValues secrets).map encode)
      (plain content)

/-- At the end no secret is read with letters of a mark or with a separator. -/
def MarksUnread (secrets : List String) (root : Entries) : Prop :=
  ∀ secret ∈ secretValues secrets, ∀ entry ∈ root,
    OwnOnly secret.toList (redactedPath secrets entry.1) ∧
      ∀ content ∈ entry.2, OwnOnly (encode secret) (redactedBytes secrets content)

theorem toList_redactNameAll (values : List String) (name : String) :
    (redactNameAll values name).toList =
      (values.map String.toList).foldl
        (fun letters needle ↦ replaceAll needle redactionMark.toList letters) name.toList := by
  induction values generalizing name with
  | nil => rfl
  | cons secret values ih =>
    have hone : (redactName secret name).toList =
        replaceAll secret.toList redactionMark.toList name.toList := String.toList_ofList
    rw [redactNameAll_cons, List.map_cons, List.foldl_cons, ← hone, ih]

theorem redactBytesAll_eq {values : List String} (hvalues : ∀ value ∈ values, encode value ≠ [])
    (content : Bytes) : redactBytesAll values content =
      (values.map encode).foldl
        (fun letters needle ↦ replaceAll needle (encode redactionMark) letters) content := by
  induction values generalizing content with
  | nil => rfl
  | cons secret values ih =>
    rw [redactBytesAll_cons, List.map_cons, List.foldl_cons,
      ih (fun value hvalue ↦ hvalues value (by simp [hvalue])),
      scrubFile_eq (hvalues secret (by simp))]

theorem letters_ne_nil : ∀ needle ∈ (secretValues secrets).map String.toList, needle ≠ [] := by
  intro needle hneedle
  obtain ⟨secret, hsecret, rfl⟩ := List.mem_map.mp hneedle
  exact toList_ne_nil_of_mem hsecret

theorem bytes_ne_nil : ∀ needle ∈ (secretValues secrets).map encode, needle ≠ [] := by
  intro needle hneedle
  obtain ⟨secret, hsecret, rfl⟩ := List.mem_map.mp hneedle
  exact encode_ne_nil_of_mem hsecret

theorem toList_relativeText
    (h : ∀ name ∈ path, Undisturbed redactionMark.toList ((secretValues secrets).map String.toList)
      (plain name.toList)) :
    (relativeText (path.map (redactNameAll (secretValues secrets)))).toList =
      fill (redactedPath secrets path) := by
  rw [relativeText, String.toList_intercalate, redactedPath, fill_joined, List.map_map, List.map_map]
  refine congrArg _ (List.map_congr_left fun name hname ↦ ?_)
  rw [Function.comp_apply, Function.comp_apply, toList_redactNameAll, redactedName,
    ← foldl_replaceAll_fill letters_ne_nil (h name hname), fill_plain]

theorem fill_redactedBytes
    (h : Undisturbed (encode redactionMark) ((secretValues secrets).map encode) (plain content)) :
    redactBytesAll (secretValues secrets) content = fill (redactedBytes secrets content) := by
  rw [redactBytesAll_eq fun value hvalue ↦ encode_ne_nil_of_mem hvalue, redactedBytes,
    ← foldl_replaceAll_fill bytes_ne_nil h, fill_plain]

/-- A secret stands in a scrubbed path only with letters of a mark or a separator. -/
theorem not_infix_redactedPath_iff (hsecret : secret ∈ secretValues secrets) :
    ¬secret.toList <:+: fill (redactedPath secrets path) ↔
      OwnOnly secret.toList (redactedPath secrets path) := by
  constructor
  · intro h before after hread
    exact absurd ⟨before, after, hread.symm⟩ h
  · intro h
    rw [h.infix_iff]
    intro hinside
    obtain ⟨name, hname, hown⟩ := exists_infix_of_joined (toList_ne_nil_of_mem hsecret) hinside
    obtain ⟨original, -, rfl⟩ := List.mem_map.mp hname
    exact not_infix_redactAll letters_ne_nil (List.mem_map.mpr ⟨secret, hsecret, rfl⟩) hown

/-- A directory with one file. -/
def singleFile (name content : String) : EvidenceTree where
  entries := [([name], some (encode content))]
  rooted := by
    refine ⟨by simp [Dict.keys], by simp [Dict.keys], fun above last hmem hne ↦ ?_⟩
    obtain rfl : above = [] := by simpa [Dict.keys] using congrArg List.dropLast (List.mem_singleton.mp hmem)
    exact absurd rfl hne
  directory := by
    intro above last hmem hne
    obtain rfl : above = [] := by simpa [Dict.keys] using congrArg List.dropLast (List.mem_singleton.mp hmem)
    exact absurd rfl hne

end Annotations

end HarborHF.Worker
