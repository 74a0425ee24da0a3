import Mathlib.Data.List.Dedup
import HarborHF.Async.Crashes
import HarborHF.Worker.Evidence

/-!
# Evidence publication

A finalized unit of evidence is published file by file, its terminal marker last. An attempt first
removes what an interrupted one has left, but for the child executions that carry a marker: those
are compared with the source and kept. The markers of child executions come after all other files.
-/

set_option autoImplicit false

namespace HarborHF.Worker

open Async Relational

/-! ### Attempts -/

/-- The files of a directory: none of them has files below it. -/
structure Directory where
  files : Tree
  proper : ∀ path ∈ files.keys, ∀ other ∈ files.keys, path <+: other → path = other

/-- The temporary file beside a file. -/
def temporary (uuid : Path → String) (path : Path) : Path :=
  path.dropLast ++ [".harbor-hf-" ++ (uuid path ++ ("-" ++ (path.getLastD "" ++ ".tmp")))]

/-- What an attempt to publish a directory takes from its surroundings: identifiers that are new,
and the order in which files are listed. -/
structure Surroundings (source : Directory) where
  uuid : Path → String
  fresh : ∀ path ∈ source.files.keys, ∀ other ∈ source.files.keys, ¬ temporary uuid path <+: other
  listing : List Path → List Path
  perm : ∀ paths, (listing paths).Perm paths

variable [Checksums]

/-! ### What an interrupted attempt has left -/

def verifyTerminalExecution (execution : Tree) (markers : List String) : Except WorkerError Unit :=
  if markers.length ≠ 1 then
    .error (.worker "terminal execution evidence has conflicting markers")
  else
    match verifyChecksums execution with
    | .error _ => .error (.worker "terminal execution evidence failed checksum validation")
    | .ok () => .ok ()

/-- The names of the directories of executions. -/
def executionNames (root : Tree) : List String :=
  ((root.keys.filterMap fun path ↦
    match path with
    | "executions" :: name :: _ :: _ => some name
    | _ => none).dedup).insertionSort (· ≤ ·)

/-- One round of the loop over the executions. -/
def addTerminalExecution (root : Tree) (terminal : List (String × String)) (name : String) :
    Except WorkerError (List (String × String)) :=
  let execution := below ["executions", name] root
  match terminalMarkers execution with
  | [] => .ok terminal
  | marker :: others => do
    verifyTerminalExecution execution (marker :: others)
    return terminal ++ [(name, marker)]

/-- The executions with a marker, each with it. -/
def terminalExecutionDirectories (root : Tree) : Except WorkerError (List (String × String)) :=
  if (root.get? ["executions"]).isSome then
    .error (.worker "partial execution publication is invalid")
  else (executionNames root).foldlM (addTerminalExecution root) []

def requireMatchingExecution (source : Directory) (name : String) (observed : Tree) (marker : String) :
    Except WorkerError Unit :=
  let expected := below ["executions", name] source.files
  if expected.isEmpty then
    .error (.worker "terminal execution evidence cannot be overwritten")
  else do
    verifyTerminalExecution expected (terminalMarkers expected)
    if terminalMarkers expected ≠ [marker] ∨ ¬ treesMatch observed expected then
      .error (.worker "terminal execution evidence cannot be overwritten")

/-- The path is in one of the executions. -/
def isProtected (executions : List String) : Path → Bool
  | "executions" :: name :: _ => decide (name ∈ executions)
  | _ => false

variable {source : Directory}

def removeUnprotectedDestination (surroundings : Surroundings source) (executions : List String) :
    Procedure Tree WorkerError PUnit := do
  let destination ← Procedure.fetch
  ((surroundings.listing destination.keys).filter fun path ↦ !isProtected executions path).forM
    fun path ↦ Procedure.modify fun destination ↦ destination.erase path

/-- Removes what was interrupted, and returns the child executions that are kept. -/
def recoverPartialPublication (surroundings : Surroundings source) :
    Procedure Tree WorkerError (List String) := do
  let destination ← Procedure.fetch
  let terminal ← Procedure.ofExcept (terminalExecutionDirectories destination)
  Procedure.ofExcept (terminal.forM fun entry ↦
    requireMatchingExecution source entry.1 (below ["executions", entry.1] destination) entry.2)
  removeUnprotectedDestination surroundings (terminal.map Prod.fst)
  return terminal.map Prod.fst

/-! ### Files -/

/-- `shutil.copyfile`: the bytes appear one after the other. -/
def copyFile (content : Bytes) (target : Path) : Procedure Tree WorkerError PUnit :=
  (List.range (content.length + 1)).forM fun count ↦
    Procedure.modify fun destination ↦ destination.set target (content.take count)

/-- `os.replace`. -/
def replaceFile (file target : Path) : Procedure Tree WorkerError Unit :=
  Procedure.modify fun destination ↦ (destination.get? file).elim destination fun content ↦
    (destination.erase file).set target content

def publishImmutableFile (uuid : Path → String) (content : Bytes) (path : Path) :
    Procedure Tree WorkerError Unit := do
  let destination ← Procedure.fetch
  match destination.get? path with
  | some observed =>
    if observed ≠ content then
      Procedure.raise (.worker ("evidence path already has different contents: " ++
        "/".intercalate path))
    else return ()
  | none => do
    copyFile content (temporary uuid path)
    replaceFile (temporary uuid path) path

/-! ### Units -/

/-- Nested markers are published from the deepest ones on, and by their paths. -/
def Deeper (first second : Path) : Prop :=
  second.length < first.length ∨
    (second.length = first.length ∧ "/".intercalate first ≤ "/".intercalate second)

instance : DecidableRel Deeper := fun _ _ ↦ inferInstanceAs (Decidable (_ ∨ _))

/-- The path is that of a marker besides the marker of the unit. -/
def isNestedMarker (marker : String) (path : Path) : Bool :=
  decide (path ≠ [marker]) && terminalMarkerNames.contains (path.getLastD "")

/-- The files of a unit without its marker, in the order in which they are published. -/
def ordered (source : Directory) (marker : String) : List Path :=
  (source.files.keys.filter fun path ↦
      decide (path ≠ [marker]) && !isNestedMarker marker path).insertionSort
    (fun first second ↦ "/".intercalate first ≤ "/".intercalate second) ++
  (source.files.keys.filter (isNestedMarker marker)).insertionSort Deeper

/-- `_publish_unit`. -/
def publishUnit (source : Directory) (surroundings : Surroundings source) :
    Procedure Tree WorkerError Unit :=
  match terminalMarkers source.files with
  | [marker] => do
    Procedure.ofExcept (verifyChecksums source.files)
    let destination ← Procedure.fetch
    if terminalMarkers destination ≠ [] then
      Procedure.raise (.worker "terminal evidence destination cannot be overwritten")
    else do
      let executions ← recoverPartialPublication surroundings
      ((ordered source marker).filter fun path ↦ !isProtected executions path).forM fun path ↦
        publishImmutableFile surroundings.uuid ((source.files.get? path).getD []) path
      let published ← Procedure.fetch
      Procedure.ofExcept (verifyChecksums published)
      publishImmutableFile surroundings.uuid ((source.files.get? [marker]).getD []) [marker]
      let complete ← Procedure.fetch
      Procedure.ofExcept (verifyChecksums complete)
  | _ => Procedure.raise (.worker "finalized wave evidence must have one terminal marker")

end HarborHF.Worker
