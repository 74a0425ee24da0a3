import HarborHF.Async.Crashes
import HarborHF.Worker.Evidence

/-!
# Publication of direct runs

A direct run reserves its destination by a file `_RESERVED`. `publishEvidence` copies the source into it,
removes the reservation and gives the destination the terminal marker by renaming a temporary file; after
an error it makes the reservation again and copies once more. Every operation on a file may fail, and
then it has no effect, but for the bytes that a copy has written before.
-/

set_option autoImplicit false

namespace HarborHF.DirectRun

open Async Relational Worker

/-! ### Files -/

inductive Entry
  | directory
  | file (content : Bytes)
  deriving DecidableEq

/-- A directory with what is in it, by paths; its own path is empty. -/
abbrev Files := Dict Path Entry

def isFile (files : Files) (path : Path) : Bool :=
  match files.get? path with
  | some (.file _) => true
  | _ => false

/-- The entries of a directory in the order of a traversal, directories before what is in them. -/
structure Source where
  entries : Files
  nodup : entries.keys.Nodup
  nonempty : ∀ path ∈ entries.keys, path ≠ []
  parents : ∀ path ∈ entries.keys, path.dropLast ≠ [] →
    entries.get? path.dropLast = some .directory
  ordered : entries.keys.Pairwise fun first second ↦ ¬ second <+: first

inductive PublishError
  | worker (message : String)
  | value (message : String)
  | fileExists
  | os
  deriving DecidableEq

/-- An operation that has succeeded. -/
inductive Operation
  | makeDirectory (path : Path)
  | write (path : Path)
  | copyAttributes (path : Path)
  | removeEntry (name : String)
  | removeReservation
  | renameMarker
  | restoreReservation
  deriving DecidableEq

/-- The destination, the number of operations tried so far, and those that have succeeded. -/
structure World where
  destination : Files
  tried : ℕ
  log : List Operation

def World.start (destination : Files) : World := { destination, tried := 0, log := [] }

def reserved : Path := ["_RESERVED"]

def temporaryMarker : Path := ["harbor-hf-terminal.tmp"]

def markerNames : List String := ["_FAILED", "_SUCCESS"]

section

variable (fails : ℕ → Bool)

/-- An operation, which fails where the file system does not allow it or by chance. -/
def perform (operation : Operation) (allowed : Files → Bool) (change : Files → Files) :
    Procedure World PublishError PUnit := do
  let world ← Procedure.fetch
  if fails world.tried || !allowed world.destination then do
    Procedure.modify fun world ↦ { world with tried := world.tried + 1 }
    Procedure.raise .os
  else
    Procedure.modify fun world ↦
      { destination := change world.destination, tried := world.tried + 1,
        log := world.log ++ [operation] }

/-- `os.makedirs` of a directory that may exist. -/
def makeDirectory (path : Path) : Procedure World PublishError PUnit :=
  perform fails (.makeDirectory path) (fun files ↦ !isFile files path) fun files ↦
    files.set path .directory

/-- `shutil.copyfile`: the file is emptied, and the bytes appear one after the other. -/
def copyFile (content : Bytes) (path : Path) : Procedure World PublishError PUnit :=
  (List.range (content.length + 1)).forM fun count ↦
    perform fails (.write path) (fun files ↦ decide (files.get? path ≠ some .directory)) fun files ↦
      files.set path (.file (content.take count))

def copyAttributes (path : Path) : Procedure World PublishError PUnit :=
  perform fails (.copyAttributes path) (fun _ ↦ true) id

/-- `shutil.copy2`, which puts the file into a directory that is in its place. -/
def copy2 (content : Bytes) (path : Path) : Procedure World PublishError PUnit := do
  let world ← Procedure.fetch
  let target := if world.destination.get? path = some .directory then path ++ path.getLast?.toList
    else path
  copyFile fails content target
  copyAttributes fails target

def copyEntry (entry : Path × Entry) : Procedure World PublishError PUnit :=
  match entry.2 with
  | .directory => makeDirectory fails entry.1
  | .file content => copy2 fails content entry.1

/-- Copies entries one after the other and returns those that failed; what is in a directory that
failed is left out. -/
def copyEntries : List (Path × Entry) → List Path → Procedure World PublishError (List Path)
  | [], failed => return failed
  | entry :: rest, failed =>
    if failed.any fun path ↦ decide (path <+: entry.1) then copyEntries rest failed
    else do
      let failed ← Procedure.tryCatch (do copyEntry fails entry; return failed) fun _ ↦
        return entry.1 :: failed
      copyEntries rest failed

/-- The attributes of directories, which are copied after what is in them. -/
def copyDirectoryAttributes : List Path → List Path → Procedure World PublishError (List Path)
  | [], failed => return failed
  | path :: rest, failed =>
    if failed.any fun other ↦ decide (other <+: path) then copyDirectoryAttributes rest failed
    else do
      let failed ← Procedure.tryCatch (do copyAttributes fails path; return failed) fun _ ↦
        return path :: failed
      copyDirectoryAttributes rest failed

/-- `shutil.copytree` into a directory that may exist: every entry is tried before an error is raised. -/
def copyTree (entries : List (Path × Entry)) : Procedure World PublishError PUnit := do
  makeDirectory fails []
  let failed ← copyEntries fails entries []
  let directories := entries.filterMap fun entry ↦
    if entry.2 = .directory then some entry.1 else none
  let failed ← copyDirectoryAttributes fails (directories.reverse ++ [[]]) failed
  if failed ≠ [] then Procedure.raise .os

/-! ### Publication -/

/-- The terminal markers of the source. -/
def Source.markers (source : Source) : List String :=
  markerNames.filter fun name ↦ isFile source.entries [name]

/-- The names that `copytree` ignores, with what is below them. -/
def ignored (path : Path) : Bool := path.head?.any fun name ↦ markerNames.contains name

def copied (source : Source) : List (Path × Entry) :=
  source.entries.filter fun entry ↦ !ignored entry.1

def markerContent (source : Source) (terminal : String) : Bytes :=
  match source.entries.get? [terminal] with
  | some (.file content) => content
  | _ => []

/-- `os.replace` of the temporary marker. -/
def renameMarker (terminal : String) : Procedure World PublishError PUnit :=
  perform fails .renameMarker
    (fun files ↦ isFile files temporaryMarker && decide (files.get? [terminal] ≠ some .directory))
    fun files ↦ (files.get? temporaryMarker).elim files fun entry ↦
      (files.erase temporaryMarker).set [terminal] entry

/-- One round of the loop of `_publish_evidence`. -/
def publishAttempt (source : Source) (terminal : String) : Procedure World PublishError PUnit := do
  copyTree fails (copied source)
  copyFile fails (markerContent source terminal) temporaryMarker
  perform fails .removeReservation (fun files ↦ isFile files reserved) fun files ↦
    files.erase reserved
  renameMarker fails terminal

/-- `Path.touch` of the reservation. -/
def touchReserved : Procedure World PublishError PUnit :=
  perform fails .restoreReservation (fun _ ↦ true) fun files ↦
    if (files.get? reserved).isSome then files else files.set reserved (.file [])

/-- The loop of `_publish_evidence` with so many attempts left. -/
def publishAttempts (source : Source) (terminal : String) : ℕ → Procedure World PublishError PUnit
  | 0 => return ()
  | left + 1 => Procedure.tryCatch (publishAttempt fails source terminal) fun error ↦ do
    let world ← Procedure.fetch
    if !isFile world.destination [terminal] then touchReserved fails
    if left = 0 then Procedure.raise error else publishAttempts source terminal left

/-- `_publish_evidence`. -/
def publishEvidence (source : Source) (attempts : ℤ) : Procedure World PublishError PUnit :=
  match source.markers with
  | [terminal] => do
    let world ← Procedure.fetch
    if !isFile world.destination reserved then
      Procedure.raise (.worker "run evidence destination is not reserved")
    else if attempts < 1 then
      Procedure.raise (.value "publication attempts must be positive")
    else publishAttempts fails source terminal attempts.toNat
  | _ => Procedure.raise (.worker "finalized evidence must have exactly one terminal marker")

/-- The names in the destination. -/
def names (files : Files) : List String :=
  files.keys.filterMap fun path ↦
    match path with
    | [name] => some name
    | _ => none

/-- `_prepare_evidence_destination`, for a destination whose parent exists. -/
def prepareEvidenceDestination (adoptReserved : Bool) : Procedure World PublishError PUnit := do
  let world ← Procedure.fetch
  if (world.destination.get? []).isSome then
    if adoptReserved && isFile world.destination reserved &&
        markerNames.all fun name ↦ (world.destination.get? [name]).isNone then
      ((names world.destination).filter fun name ↦ name ≠ "_RESERVED").forM fun name ↦
        perform fails (.removeEntry name) (fun _ ↦ true) fun files ↦
          files.filter fun entry ↦ ¬ [name] <+: entry.1
    else Procedure.raise .fileExists
  else do
    perform fails (.makeDirectory []) (fun files ↦ (files.get? []).isNone) fun files ↦
      files.set [] .directory
    Procedure.tryCatch (copyFile fails [10] reserved) fun error ↦ do
      perform fails (.removeEntry "") (fun files ↦ decide (files.keys = [[]])) fun files ↦
        files.erase []
      Procedure.raise error

end

end HarborHF.DirectRun
