import HarborHF.Relational.Elimination
import HarborHF.Relational.Fold

/-!
# Workspace symlinks

A packaged workspace may have symlinks. `validateWorkspaceSymlinkGraph` resolves each of them, which must
lead to a node inside, and then eliminates the directories of the workspace one after the other, whose
edges are those to children and those of the links to directories.

`resolve` follows links inside links, so many deep at most as there are links: more is a loop.
-/

set_option autoImplicit false

namespace HarborHF.Workspace

open Relational

/-! ### File trees -/

abbrev Text := List Char

/-- The names of a path. -/
abbrev Path := List Text

inductive Node
  | directory
  | file
  | symlink (target : Text)
  deriving DecidableEq

/-- The nodes of a file system by their paths from its root. -/
structure FileTree where
  nodes : Dict Path Node
  nodup : nodes.keys.Nodup
  root : nodes.get? [] = some .directory
  parents : ∀ path ∈ nodes.keys, path ≠ [] → nodes.get? path.dropLast = some .directory
  names : ∀ path ∈ nodes.keys, ∀ name ∈ path, name ≠ [] ∧ name ≠ ['.'] ∧ name ≠ ['.', '.'] ∧ '/' ∉ name

/-- `PurePosixPath.is_absolute`. -/
def isAbsolute (target : Text) : Bool := target.head? = some '/'

/-- The parts of a target. -/
def components (target : Text) : List Text := target.splitOn '/'

/-- Where the target of a link in a directory starts. -/
def linkStart (directory : Path) (target : Text) : Path :=
  if isAbsolute target then [] else directory

section

variable (nodes : Dict Path Node)

/-- One part of a path; the function says where a link leads. -/
def enter (followLink : Path → List Text → Option Path) (current : Path) (name : Text) : Option Path :=
  if nodes.get? current ≠ some .directory then none
  else if name = [] ∨ name = ['.'] then some current
  else if name = ['.', '.'] then some current.dropLast
  else
    match nodes.get? (current ++ [name]) with
    | none => none
    | some (.symlink target) => followLink (linkStart current target) (components target)
    | some _ => some (current ++ [name])

/-- Follows a path through fewer links inside links than so many. -/
def follow : ℕ → Path → List Text → Option Path
  | 0, _, _ => none
  | depth + 1, current, names => names.foldlM (enter nodes (follow depth)) current

/-- The paths of the links. -/
def links : List Path :=
  nodes.filterMap fun entry ↦
    match entry.2 with
    | .symlink _ => some entry.1
    | _ => none

/-- `Path.resolve` of an absolute path, with `strict`. -/
def resolve (path : Path) : Option Path := follow nodes ((links nodes).length + 1) [] path

end

/-! ### The check -/

inductive FileType
  | directory | file | symlink
  deriving DecidableEq

structure WorkspaceFile where
  path : Path
  type : FileType
  target : Option Text

/-- `_workspace_entry`, for a path below the snapshot. -/
def workspaceEntry (path : Path) : Node → WorkspaceFile
  | .directory => { path, type := .directory, target := none }
  | .file => { path, type := .file, target := none }
  | .symlink target => { path, type := .symlink, target := some target }

/-- `_workspace_entries`: the snapshot and what is below it. -/
def workspaceEntries (tree : FileTree) (snapshot : Path) : List WorkspaceFile :=
  { path := [], type := .directory, target := none } ::
    tree.nodes.filterMap fun entry ↦
      if snapshot <+: entry.1 ∧ snapshot ≠ entry.1 then
        some (workspaceEntry (entry.1.drop snapshot.length) entry.2)
      else none

structure TrialEvidenceError where
  message : String
  deriving DecidableEq

section

variable (tree : FileTree) (snapshot : Path)

/-- `_safe_workspace_symlink_target`. -/
def safeWorkspaceSymlinkTarget (entry : WorkspaceFile) : Except TrialEvidenceError Path :=
  if isAbsolute (entry.target.getD []) then
    .error ⟨"workspace symlink target must be relative"⟩
  else
    match resolve tree.nodes (snapshot ++ entry.path) with
    | none => .error ⟨"workspace symlink target is dangling or cyclic"⟩
    | some resolved =>
      if ¬snapshot <+: resolved then .error ⟨"workspace symlink target escapes /app"⟩
      else .ok resolved

/-- `graph.setdefault(parent, set()).add(child)`. -/
def addEdge (graph : Graph Path) (parent child : Path) : Graph Path :=
  let children := graph.targets parent
  graph.set parent (if child ∈ children then children else children ++ [child])

/-- One round of the loop over the symlinks. -/
def addLink (graph : Graph Path) (entry : WorkspaceFile) : Except TrialEvidenceError (Graph Path) :=
  if entry.type ≠ .symlink then .ok graph
  else do
    let resolved ← safeWorkspaceSymlinkTarget tree snapshot entry
    return if tree.nodes.get? resolved = some .directory then
      addEdge graph entry.path.dropLast (resolved.drop snapshot.length)
    else graph

/-- The edges to children. -/
def childGraph (directories : List Path) : Graph Path :=
  (directories.filter fun path ↦ path ≠ []).foldl (fun graph path ↦ addEdge graph path.dropLast path)
    (directories.foldl (fun graph path ↦ graph.set path []) [])

/-- `_workspace_directory_graph`. -/
def workspaceDirectoryGraph (entries : List WorkspaceFile) :
    Except TrialEvidenceError (Graph Path) :=
  let directories := (entries.filter fun entry ↦ entry.type = .directory).map WorkspaceFile.path
  entries.foldlM (addLink tree snapshot) (childGraph directories)

/-- `_require_acyclic_directory_graph`. -/
def requireAcyclicDirectoryGraph (graph : Graph Path) : Except TrialEvidenceError Unit :=
  let indegree := graph.indegrees
  if graph.eliminate indegree.keys.length indegree (Graph.sources indegree) 0 ≠
      some indegree.keys.length then
    .error ⟨"workspace symlink graph contains a cycle"⟩
  else .ok ()

/-- `_validate_workspace_symlink_graph`. -/
def validateWorkspaceSymlinkGraph (entries : List WorkspaceFile) : Except TrialEvidenceError Unit := do
  let graph ← workspaceDirectoryGraph tree snapshot entries
  requireAcyclicDirectoryGraph graph

end

end HarborHF.Workspace
