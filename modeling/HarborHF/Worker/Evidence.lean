import Mathlib.Data.List.Find
import Mathlib.Data.List.Sort
import Mathlib.Data.String.Basic
import HarborHF.Relational.Dict

/-!
# Evidence trees

The files of an evidence directory by their paths below it, which are kept as their parts. A unit of
evidence has a manifest of checksums, which has every file besides itself and the markers, and a
terminal marker.
-/

set_option autoImplicit false

namespace HarborHF.Worker

open Relational

abbrev Bytes := List UInt8

/-- The parts of a path. -/
abbrev Path := List String

/-- The files of a directory. -/
abbrev Tree := Dict Path Bytes

/-- The digests of files, and how a manifest of checksums is read. -/
class Checksums where
  sha256 : Bytes → String
  manifest : Bytes → Option (Dict Path String)

/-- `WorkerError`, and the errors of the checks of evidence. -/
inductive WorkerError
  | runtime (message : String)
  | worker (message : String)
  deriving DecidableEq

/-! ### Directories -/

/-- The files below a directory. -/
def below (directory : Path) (tree : Tree) : Tree :=
  tree.filterMap fun entry ↦
    if directory <+: entry.1 ∧ directory ≠ entry.1 then
      some (entry.1.drop directory.length, entry.2)
    else none

def terminalMarkerNames : List String := ["_SUCCESS", "_FAILED", "_CANCELLED"]

/-- The terminal markers of a directory (`_terminal_markers`). -/
def terminalMarkers (root : Tree) : List String :=
  terminalMarkerNames.filter fun name ↦ (root.get? [name]).isSome

/-! ### Checksums -/

/-- What a manifest of checksums does not have. -/
def excludedNames : List String :=
  ["checksums.json", "_SUCCESS", "_FAILED", "_CANCELLED", "_SELECTED"]

/-- The files that a manifest of checksums has. -/
def expectedPaths (root : Tree) : List Path :=
  root.keys.filter fun path ↦ path ∉ excludedNames.map fun name ↦ [name]

/-- The keys of a manifest are those of the files. -/
def covers (manifest : Dict Path String) (root : Tree) : Bool :=
  (manifest.keys.all fun path ↦ decide (path ∈ expectedPaths root)) &&
    (expectedPaths root).all fun path ↦ decide (path ∈ manifest.keys)

def verifyChecksums [Checksums] (root : Tree) : Except WorkerError Unit :=
  match (root.get? ["checksums.json"]).map Checksums.manifest with
  | none => .error (.runtime "evidence has no valid checksum manifest")
  | some none => .error (.runtime "evidence checksum manifest is malformed")
  | some (some manifest) =>
    if !covers manifest root then
      .error (.runtime "evidence checksum manifest does not cover exact contents")
    else
      match manifest.find? fun entry ↦ (root.get? entry.1).map Checksums.sha256 ≠ some entry.2 with
      | some entry => .error (.runtime ("evidence checksum mismatch: " ++ "/".intercalate entry.1))
      | none => .ok ()

/-- The files of two directories have the same paths and digests (`_trees_match`). -/
def treesMatch [Checksums] (first second : Tree) : Bool :=
  (first.keys ++ second.keys).all fun path ↦
    (first.get? path).map Checksums.sha256 = (second.get? path).map Checksums.sha256

/-! ### What is read of a tree -/

variable {first second tree : Tree} {directory path : Path} {name : String}

theorem mem_keys_iff : path ∈ tree.keys ↔ (tree.get? path).isSome = true :=
  Dict.get?_isSome_iff.symm

/-- A file below a directory. -/
theorem get?_below (hpath : path ≠ []) :
    (below directory tree).get? path = tree.get? (directory ++ path) := by
  induction tree with
  | nil => rfl
  | cons entry rest ih =>
    obtain ⟨key, bytes⟩ := entry
    by_cases hbelow : directory <+: key ∧ directory ≠ key
    · obtain ⟨⟨tail, rfl⟩, hne⟩ := hbelow
      have hentry : below directory ((directory ++ tail, bytes) :: rest) =
          (tail, bytes) :: below directory rest := by
        simp only [below, List.filterMap_cons]
        rw [if_pos ⟨List.prefix_append directory tail, hne⟩, List.drop_left]
      rw [hentry]
      simp only [Dict.get?, List.append_cancel_left_eq, ih]
    · have hentry : below directory ((key, bytes) :: rest) = below directory rest := by
        simp only [below, List.filterMap_cons]
        rw [if_neg hbelow]
      have hkey : key ≠ directory ++ path := by
        rintro rfl
        refine hbelow ⟨List.prefix_append directory path, fun heq ↦ hpath ?_⟩
        exact List.append_right_eq_self.mp heq.symm
      rw [hentry, ih]
      simp only [Dict.get?, if_neg hkey]

theorem get?_below_nil : (below directory tree).get? [] = none := by
  rw [Dict.get?_eq_none_iff]
  intro hmem
  obtain ⟨entry, hentry, hkey⟩ := List.mem_map.mp hmem
  obtain ⟨⟨key, bytes⟩, -, hbelow⟩ := List.mem_filterMap.mp hentry
  split_ifs at hbelow with hbegins
  obtain ⟨⟨tail, rfl⟩, hne⟩ := hbegins
  cases hbelow
  simp only [List.drop_left] at hkey
  rw [hkey, List.append_nil] at hne
  exact hne rfl

theorem mem_terminalMarkers_iff : name ∈ terminalMarkers tree ↔
    name ∈ terminalMarkerNames ∧ (tree.get? [name]).isSome = true := by
  unfold terminalMarkers
  rw [List.mem_filter]

theorem terminalMarkers_eq_nil_iff : terminalMarkers tree = [] ↔
    ∀ name ∈ terminalMarkerNames, tree.get? [name] = none := by
  simp [terminalMarkers, List.filter_eq_nil_iff]

theorem terminalMarkers_congr (h : ∀ name ∈ terminalMarkerNames, first.get? [name] = second.get? [name]) :
    terminalMarkers first = terminalMarkers second := by
  unfold terminalMarkers
  exact List.filter_congr fun name hname ↦ by rw [h name hname]

/-! ### What a manifest of checksums depends on -/

theorem mem_expectedPaths_iff : path ∈ expectedPaths tree ↔
    (tree.get? path).isSome = true ∧ ∀ name ∈ excludedNames, [name] ≠ path := by
  unfold expectedPaths
  rw [List.mem_filter, mem_keys_iff]
  simp only [decide_eq_true_eq, List.mem_map, not_exists, not_and, ne_eq]

theorem covers_iff {manifest : Dict Path String} : covers manifest tree = true ↔
    ∀ path, path ∈ manifest.keys ↔ path ∈ expectedPaths tree := by
  simp only [covers, Bool.and_eq_true, List.all_eq_true, decide_eq_true_eq]
  exact ⟨fun h path ↦ ⟨h.1 path, h.2 path⟩,
    fun h ↦ ⟨fun path ↦ (h path).mp, fun path ↦ (h path).mpr⟩⟩

variable [Checksums]

/-- The checks do not depend on the markers. -/
theorem verifyChecksums_congr
    (h : ∀ path, (∀ name ∈ terminalMarkerNames, [name] ≠ path) → first.get? path = second.get? path) :
    verifyChecksums first = verifyChecksums second := by
  have hmarker : terminalMarkerNames ⊆ excludedNames := by decide
  have hexpected (path : Path) : path ∈ expectedPaths first ↔ path ∈ expectedPaths second := by
    rw [mem_expectedPaths_iff, mem_expectedPaths_iff]
    refine and_congr_left fun hexcluded ↦ ?_
    rw [h path fun name hname ↦ hexcluded name (hmarker hname)]
  have hcovers (manifest : Dict Path String) : covers manifest first = covers manifest second := by
    rw [Bool.eq_iff_iff, covers_iff, covers_iff]
    exact forall_congr' fun path ↦ by rw [hexpected]
  unfold verifyChecksums
  rw [h ["checksums.json"] (by decide)]
  cases (second.get? ["checksums.json"]).map Checksums.manifest with
  | none => rfl
  | some manifest =>
    cases manifest with
    | none => rfl
    | some manifest =>
      simp only [hcovers]
      by_cases hcovered : covers manifest second = true
      · simp only [hcovered, Bool.not_true, Bool.false_eq_true, if_false]
        have hfind : manifest.find? (fun entry ↦
            (first.get? entry.1).map Checksums.sha256 ≠ some entry.2) =
            manifest.find? fun entry ↦
              (second.get? entry.1).map Checksums.sha256 ≠ some entry.2 := by
          refine List.find?_congr fun entry hentry ↦ ?_
          have hpath : entry.1 ∈ expectedPaths second :=
            (covers_iff.mp hcovered entry.1).mp (List.mem_map_of_mem hentry)
          rw [h entry.1 fun name hname ↦ (mem_expectedPaths_iff.mp hpath).2 name (hmarker hname)]
        rw [hfind]
      · simp [hcovered]

end HarborHF.Worker
