import Mathlib.Data.String.Basic
import HarborHF.Async.Optimistic
import HarborHF.Async.Revisions
import HarborHF.Relational.Ranking

/-!
# The index Dataset

Published runs are listed in windows of 1 to 2048 rows, newest first: one family of windows for the
index, and two for the catalog, of which the audit windows have every publication and the primary
windows the final ones that no decision has withdrawn. A publication puts its rows into the windows
that it reads at the head, a decision rebuilds the primary windows, and both commit against that
head. So after every commit a window holds one row for each run, in order, and is a prefix of the
larger ones, the primary windows have no publication that is not final or was withdrawn last, and
the latest decision of a publication is its newest (`catalog_sound`).
-/

set_option autoImplicit false

namespace HarborHF.Hub

open Async Relational

/-! ### Rows -/

inductive PublicationRole
  | final | component | diagnostic
  deriving DecidableEq

inductive CatalogScope
  | primary | audit
  deriving DecidableEq

inductive CatalogDecisionAction
  | promote | withdraw
  deriving DecidableEq

/-- A row of the index or of the catalog: what the publisher reads of it, where its results are, and
its other columns. -/
structure Row (ρ : Type) where
  publicationId : String
  runId : String
  publicationRole : PublicationRole
  completedAt : ℕ
  resultDataset : String
  resultRevision : String
  columns : ρ
  deriving DecidableEq

namespace Row

variable {ρ : Type} {first second third : Row ρ}

/-- The order of a window: newer rows first, then by publication. -/
def Newer (first second : Row ρ) : Prop :=
  second.completedAt < first.completedAt ∨
    (second.completedAt = first.completedAt ∧ second.publicationId ≤ first.publicationId)

instance : DecidableRel (@Newer ρ) := fun _ _ ↦ inferInstanceAs (Decidable (_ ∨ _))

instance : Std.Total (@Newer ρ) where
  total first second := by
    rcases Nat.lt_trichotomy second.completedAt first.completedAt with hlt | heq | hlt
    · exact .inl (.inl hlt)
    · rcases Std.Total.total (r := (· ≤ ·)) second.publicationId first.publicationId with hle | hle
      · exact .inl (.inr ⟨heq, hle⟩)
      · exact .inr (.inr ⟨heq.symm, hle⟩)
    · exact .inr (.inl hlt)

instance : IsTrans (Row ρ) Newer where
  trans first second third := by
    rintro (hfirst | ⟨hfirst, hle⟩) (hsecond | ⟨hsecond, hle'⟩)
    · exact .inl (hsecond.trans hfirst)
    · exact .inl (hsecond ▸ hfirst)
    · exact .inl (hfirst ▸ hsecond)
    · exact .inr ⟨hsecond.trans hfirst, hle'.trans hle⟩

theorem publicationId_eq (h : Newer first second) (h' : Newer second first) :
    first.publicationId = second.publicationId := by
  rcases h with hlt | ⟨heq, hle⟩
  · rcases h' with hlt' | ⟨heq', -⟩
    · omega
    · omega
  · rcases h' with hlt' | ⟨-, hle'⟩
    · omega
    · exact le_antisymm hle' hle

end Row

/-! ### The Dataset -/

structure CatalogDecision where
  decisionId : String
  publicationId : String
  action : CatalogDecisionAction
  actor : String
  reason : String
  createdAt : ℕ
  deriving DecidableEq

structure IndexReceipt where
  publicationId : String
  resultDataset : String
  resultRevision : String
  indexPath : String
  indexSha256 : String
  deriving DecidableEq

/-- The files of the index Dataset: the windows by their sizes, the file of each publication by its
path, and by their subjects the receipts, the lookups and the decisions. -/
structure IndexDataset (ρ κ : Type) where
  indexWindows : Dict ℕ (List (Row ρ)) := []
  catalogWindows : Dict (CatalogScope × ℕ) (List (Row κ)) := []
  indexFiles : Dict String (List (Row ρ)) := []
  receipts : Dict String IndexReceipt := []
  runLookups : Dict String (List (Row κ)) := []
  publicationLookups : Dict String (List (Row κ)) := []
  decisionEvents : Dict String CatalogDecision := []
  latestDecisions : Dict String CatalogDecision := []
  deriving DecidableEq

/-- `PublicationConflict`, `DatasetPublicationError`, the errors of a row that cannot be built, and
those of the repository. -/
inductive PublisherError
  | conflict (message : String)
  | publication (message : String)
  | invalid (message : String)
  | interrupted
  deriving DecidableEq

structure DatasetFile where
  path : String
  content : String
  deriving DecidableEq

/-- What the publisher reads of a publication: its run, the other columns of the index row, the
projection manifest among its files, and the other columns of the catalog row, if there can be one. -/
structure ResultPublication (ρ κ : Type) where
  publicationId : String
  runId : String
  publicationRole : PublicationRole
  completedAt : ℕ
  indexColumns : ρ
  projection : Option DatasetFile
  catalogColumns : DatasetFile → Except String κ

/-- The digest of a Parquet file of rows. -/
class RowDigest (ρ : Type) where
  sha256 : List (Row ρ) → String

/-! ### Windows -/

def indexWindowSizes : List ℕ := (List.range 12).map fun power ↦ 2 ^ power

def largestIndexWindow : ℕ := 2 ^ 11

section Windows

variable {ρ κ τ : Type}

/-- The windows of some rows, under their keys. -/
def windowFiles (key : ℕ → τ) (ordered : List (Row ρ)) : List (τ × List (Row ρ)) :=
  indexWindowSizes.map fun size ↦ (key size, ordered.take size)

/-- The files have the contents. -/
def filesMatch [DecidableEq τ] [DecidableEq ρ] (files : Dict τ (List (Row ρ)))
    (updates : List (τ × List (Row ρ))) : Bool :=
  updates.all fun update ↦ files.get? update.1 = some update.2

namespace IndexDataset

variable (dataset : IndexDataset ρ κ)

def individualIndexRows : List (Row ρ) := dataset.indexFiles.values.flatten

/-- The rows that are indexed. -/
def existingIndexRows : List (Row ρ) :=
  (dataset.indexWindows.get? largestIndexWindow).getD dataset.individualIndexRows

/-- The windows of the index with a row (`_index_windows`). -/
def indexWindowsWith (row : Row ρ) : List (ℕ × List (Row ρ)) :=
  windowFiles id (top Row.Newer largestIndexWindow
    (replace Row.runId Row.Newer dataset.existingIndexRows row))

def latestCatalogDecision (publicationId : String) : Option CatalogDecisionAction :=
  (dataset.latestDecisions.get? publicationId).map CatalogDecision.action

/-- The row enters the windows of the scope. -/
def enters (row : Row κ) : CatalogScope → Bool
  | .audit => true
  | .primary => decide (row.publicationRole = .final) &&
      decide (dataset.latestCatalogDecision row.publicationId ≠ some .withdraw)

/-- The windows of the catalog with a row (`_catalog_windows`). -/
def catalogWindowsWith (row : Row κ) (scope : CatalogScope) :
    Except PublisherError (List ((CatalogScope × ℕ) × List (Row κ))) := do
  let existing ← match dataset.catalogWindows.get? (scope, largestIndexWindow) with
    | some rows => .ok rows
    | none =>
      if dataset.existingIndexRows.isEmpty then .ok []
      else .error (.publication "canonical catalog snapshot is required before publication")
  let byRun := if dataset.enters row scope then replace Row.runId Row.Newer existing row
    else byName Row.runId existing
  return windowFiles (fun size ↦ (scope, size)) (top Row.Newer largestIndexWindow byRun)

end IndexDataset

end Windows

/-! ### Publications -/

section Publications

variable {ρ κ : Type}

def indexPath (publicationId : String) : String :=
  "data/index/schema=v1/" ++ (publicationId ++ ".parquet")

def buildGlobalIndexRow (publication : ResultPublication ρ κ)
    (resultDataset resultRevision : String) : Row ρ :=
  ⟨publication.publicationId, publication.runId, publication.publicationRole,
    publication.completedAt, resultDataset, resultRevision, publication.indexColumns⟩

def buildCatalogRow (publication : ResultPublication ρ κ) (resultDataset resultRevision : String)
    (projection : DatasetFile) : Except PublisherError (Row κ) :=
  match publication.catalogColumns projection with
  | .error message => .error (.invalid message)
  | .ok columns => .ok ⟨publication.publicationId, publication.runId, publication.publicationRole,
      publication.completedAt, resultDataset, resultRevision, columns⟩

def projectionFile (publication : ResultPublication ρ κ) : Except PublisherError DatasetFile :=
  match publication.projection with
  | none => .error (.publication "canonical result publication has no projection manifest")
  | some projection => .ok projection

def indexReceipt [RowDigest ρ] (row : Row ρ) : IndexReceipt :=
  { publicationId := row.publicationId
    resultDataset := row.resultDataset
    resultRevision := row.resultRevision
    indexPath := indexPath row.publicationId
    indexSha256 := RowDigest.sha256 [row] }

namespace IndexDataset

variable (dataset : IndexDataset ρ κ)

/-- The row that a receipt is for (`_adopt_index` and `_read_index_row`). -/
def adoptIndex [RowDigest ρ] (publicationId resultDataset : String) (receipt : IndexReceipt) :
    Except PublisherError (Row ρ) :=
  if receipt.publicationId ≠ publicationId ∨ receipt.resultDataset ≠ resultDataset then
    .error (.conflict "global index receipt conflicts")
  else
    match dataset.indexFiles.get? receipt.indexPath with
    | none => .error (.publication "global index receipt is incomplete")
    | some rows =>
      if RowDigest.sha256 rows ≠ receipt.indexSha256 then
        .error (.publication "global index file is corrupted")
      else
        match rows with
        | [row] => .ok row
        | _ => .error (.publication "global index publication must contain exactly one row")

/-- The receipt of a publication that was indexed before. -/
def adopted [RowDigest ρ] [DecidableEq ρ] (publication : ResultPublication ρ κ)
    (resultDataset : String) : Except PublisherError (Option IndexReceipt) :=
  match dataset.receipts.get? publication.publicationId with
  | none => .ok none
  | some receipt => do
    let row ← dataset.adoptIndex publication.publicationId resultDataset receipt
    if row ≠ buildGlobalIndexRow publication resultDataset receipt.resultRevision then
      .error (.conflict "global index row conflicts")
    else .ok (some receipt)

/-- The Dataset with the rows of a publication. -/
def indexed [RowDigest ρ] (receipt : Option IndexReceipt) (row : Row ρ) (catalog : Row κ)
    (windows : List (ℕ × List (Row ρ)))
    (catalogWindows : List ((CatalogScope × ℕ) × List (Row κ))) : IndexDataset ρ κ :=
  { dataset with
    indexWindows := addFiles dataset.indexWindows windows
    catalogWindows := addFiles dataset.catalogWindows catalogWindows
    runLookups := dataset.runLookups.set catalog.runId [catalog]
    publicationLookups := dataset.publicationLookups.set catalog.publicationId [catalog]
    indexFiles := if receipt.isSome then dataset.indexFiles
      else dataset.indexFiles.set (indexPath row.publicationId) [row]
    receipts := if receipt.isSome then dataset.receipts
      else dataset.receipts.set row.publicationId (indexReceipt row) }

/-- One attempt of `_publish_index`: the revision of the results that is indexed, and the Dataset
with it unless nothing changes. -/
def publishIndex [RowDigest ρ] [DecidableEq ρ] [DecidableEq κ]
    (publication : ResultPublication ρ κ) (resultDataset resultRevision : String) :
    Except PublisherError (String × Option (IndexDataset ρ κ)) := do
  let projection ← projectionFile publication
  let receipt ← dataset.adopted publication resultDataset
  let indexedRevision := (receipt.map IndexReceipt.resultRevision).getD resultRevision
  let row := buildGlobalIndexRow publication resultDataset indexedRevision
  let windows := dataset.indexWindowsWith row
  let catalog ← buildCatalogRow publication resultDataset indexedRevision projection
  let audit ← dataset.catalogWindowsWith catalog .audit
  let primary ← dataset.catalogWindowsWith catalog .primary
  let unchanged := receipt.isSome && filesMatch dataset.indexWindows windows &&
    filesMatch dataset.catalogWindows (audit ++ primary) &&
    decide (dataset.runLookups.get? catalog.runId = some [catalog]) &&
    decide (dataset.publicationLookups.get? catalog.publicationId = some [catalog])
  return (indexedRevision, if unchanged then none
    else some (dataset.indexed receipt row catalog windows (audit ++ primary)))

/-! ### Decisions -/

def readCatalogPublication (publicationId : String) : Except PublisherError (Row κ) :=
  match dataset.publicationLookups.get? publicationId with
  | none => .error (.publication "catalog decision publication is unknown")
  | some [row] =>
    if row.publicationId ≠ publicationId then
      .error (.publication "catalog publication lookup is inconsistent")
    else .ok row
  | some _ => .error (.publication "catalog publication lookup is inconsistent")

def readCatalogWindow (scope : CatalogScope) : Except PublisherError (List (Row κ)) :=
  match dataset.catalogWindows.get? (scope, largestIndexWindow) with
  | none => .error (.publication "canonical catalog snapshot is required")
  | some rows => .ok rows

/-- The primary windows after a decision (`_catalog_decision_windows`). -/
def catalogDecisionWindows (decision : CatalogDecision) :
    Except PublisherError (List ((CatalogScope × ℕ) × List (Row κ))) := do
  let target ← dataset.readCatalogPublication decision.publicationId
  if decision.action = .promote ∧ target.publicationRole ≠ .final then
    .error (.publication "only final publications can be promoted")
  else do
    let window ← dataset.readCatalogWindow .primary
    let primary := byName Row.runId window
    let byRun := match decision.action with
      | .withdraw => primary.filter fun entry ↦ entry.2.publicationId ≠ decision.publicationId
      | .promote => replace Row.runId Row.Newer primary.values target
    return windowFiles (fun size ↦ (CatalogScope.primary, size))
      (top Row.Newer largestIndexWindow byRun)

/-- One attempt of `_record_catalog_decision`. -/
def recordCatalogDecision (decision : CatalogDecision) :
    Except PublisherError (Option (IndexDataset ρ κ)) :=
  match dataset.decisionEvents.get? decision.decisionId with
  | some recorded =>
    if recorded ≠ decision then .error (.conflict "catalog decision ID conflicts") else .ok none
  | none =>
    if (dataset.latestDecisions.get? decision.publicationId).any
        fun latest ↦ decision.createdAt ≤ latest.createdAt then
      .error (.conflict "catalog decision is not newer than latest")
    else do
      let windows ← dataset.catalogDecisionWindows decision
      return some { dataset with
        decisionEvents := dataset.decisionEvents.set decision.decisionId decision
        latestDecisions := dataset.latestDecisions.set decision.publicationId decision
        catalogWindows := addFiles dataset.catalogWindows windows }

end IndexDataset

/-- A call about the index Dataset: the index part of a publication, whose results are at a revision
of their Dataset, or a decision. -/
inductive CatalogCall (ρ κ : Type)
  | publish (publication : ResultPublication ρ κ) (resultDataset resultRevision : String)
  | decide (decision : CatalogDecision)

/-- What a call returns: the revision of the results that is indexed, or nothing. -/
inductive CatalogAnswer
  | indexed (resultRevision : String)
  | decided
  deriving DecidableEq

/-- What a call decides for the Dataset it reads. -/
def CatalogCall.verdict [RowDigest ρ] [DecidableEq ρ] [DecidableEq κ] (call : CatalogCall ρ κ)
    (dataset : IndexDataset ρ κ) : Verdict (IndexDataset ρ κ) PublisherError CatalogAnswer :=
  match call with
  | publish publication resultDataset resultRevision =>
    match dataset.publishIndex publication resultDataset resultRevision with
    | .error error => .fail error
    | .ok (revision, none) => .done (.indexed revision)
    | .ok (revision, some next) => .put next (.indexed revision)
  | decide decision =>
    match dataset.recordCatalogDecision decision with
    | .error error => .fail error
    | .ok none => .done .decided
    | .ok (some next) => .put next .decided

/-- Any number of calls about an index Dataset that is empty at first. -/
def catalogCalls {ι : Type} [RowDigest ρ] [DecidableEq ρ] [DecidableEq κ]
    (calls : ι → CatalogCall ρ κ) : Calls ι Unit (IndexDataset ρ κ) PublisherError CatalogAnswer :=
  { initial := {}
    verdict := fun call _ dataset ↦ (calls call).verdict dataset
    attempts := 8
    contended := fun call ↦ match calls call with
      | .publish _ _ _ => .publication "global index Dataset remained contended"
      | .decide _ => .publication "catalog Dataset remained contended"
    interrupted := .interrupted }

end Publications

/-! ### What windows are like -/

section Windows

variable {ρ κ τ : Type}

/-- Windows of some rows: those of the sizes are there, and no others. -/
def Windowed (ordered : List (Row ρ)) (windows : ℕ → Option (List (Row ρ))) : Prop :=
  ∀ size, windows size = if size ∈ indexWindowSizes then some (ordered.take size) else none

/-- There are no windows, or they are those of a ranking. -/
def Snapshot (windows : ℕ → Option (List (Row ρ))) : Prop :=
  (∀ size, windows size = none) ∨
    ∃ ordered, Ranked Row.runId Row.Newer largestIndexWindow ordered ∧ Windowed ordered windows

/-- A window has one row for each run, newest first, and at most its size, and a smaller window is a
prefix of a larger one. -/
structure WindowsSound (windows : ℕ → Option (List (Row ρ))) : Prop where
  ranked : ∀ size rows, windows size = some rows → Ranked Row.runId Row.Newer size rows
  prefixes : ∀ small large first second, small ≤ large → windows small = some first →
    windows large = some second → first <+: second

theorem largest_mem : largestIndexWindow ∈ indexWindowSizes := by decide

theorem Windowed.eq_some {ordered : List (Row ρ)} {windows : ℕ → Option (List (Row ρ))}
    (h : Windowed ordered windows) {size : ℕ} {rows : List (Row ρ)}
    (hrows : windows size = some rows) : size ∈ indexWindowSizes ∧ rows = ordered.take size := by
  rw [h size] at hrows
  split_ifs at hrows with hsize
  exact ⟨hsize, (Option.some.inj hrows).symm⟩

theorem Snapshot.sound {windows : ℕ → Option (List (Row ρ))} (h : Snapshot windows) :
    WindowsSound windows := by
  rcases h with hnone | ⟨ordered, hranked, hwindowed⟩
  · exact ⟨fun size rows hrows ↦ by simp [hnone] at hrows,
      fun small large first second _ hfirst _ ↦ by simp [hnone] at hfirst⟩
  · refine ⟨fun size rows hrows ↦ ?_, fun small large first second hle hfirst hsecond ↦ ?_⟩
    · rw [(hwindowed.eq_some hrows).2]
      exact hranked.take size
    · rw [(hwindowed.eq_some hfirst).2, (hwindowed.eq_some hsecond).2]
      exact List.take_prefix_take_left hle

variable [DecidableEq τ] {files : Dict τ (List (Row ρ))} {key : ℕ → τ} {ordered : List (Row ρ)}

theorem get?_windowFiles (hkey : Function.Injective key) {size : ℕ}
    (hsize : size ∈ indexWindowSizes) :
    (addFiles files (windowFiles key ordered)).get? (key size) = some (ordered.take size) := by
  have hnodup : ((windowFiles key ordered).map Prod.fst).Nodup := by
    rw [windowFiles, List.map_map]
    exact (show indexWindowSizes.Nodup by decide).map hkey
  exact Dict.get?_foldl_set_of_nodup hnodup (List.mem_map.mpr ⟨size, hsize, rfl⟩)

theorem get?_windowFiles_of_ne {other : τ} (h : ∀ size ∈ indexWindowSizes, key size ≠ other) :
    (addFiles files (windowFiles key ordered)).get? other = files.get? other := by
  have hnone : (windowFiles key ordered).filter (fun entry ↦ entry.1 = other) = [] := by
    rw [List.filter_eq_nil_iff]
    intro entry hentry
    obtain ⟨size, hsize, rfl⟩ := List.mem_map.mp hentry
    simpa using h size hsize
  rw [get?_addFiles, hnone]
  rfl

/-- Windows that are written where there was a snapshot are those of the rows. -/
theorem windowed_windowFiles (hkey : Function.Injective key)
    (h : Snapshot fun size ↦ files.get? (key size)) :
    Windowed ordered fun size ↦ (addFiles files (windowFiles key ordered)).get? (key size) := by
  intro size
  dsimp only
  by_cases hsize : size ∈ indexWindowSizes
  · rw [if_pos hsize, get?_windowFiles hkey hsize]
  · have hother : ∀ other ∈ indexWindowSizes, key other ≠ key size := by
      rintro other hother heq
      obtain rfl := hkey heq
      exact hsize hother
    rw [if_neg hsize, get?_windowFiles_of_ne hother]
    rcases h with hnone | ⟨rows, -, hwindowed⟩
    · exact hnone size
    · exact (hwindowed size).trans (if_neg hsize)

theorem snapshot_windowFiles (hkey : Function.Injective key)
    (h : Snapshot fun size ↦ files.get? (key size)) {byRun : Dict String (Row ρ)}
    (hnamed : byRun.Named Row.runId) : Snapshot fun size ↦ (addFiles files
      (windowFiles key (top Row.Newer largestIndexWindow byRun))).get? (key size) :=
  .inr ⟨_, .top hnamed, windowed_windowFiles hkey h⟩

end Windows

/-! ### What calls do -/

section Verdicts

variable {ρ κ : Type} {dataset next : IndexDataset ρ κ}

theorem scope_injective (scope : CatalogScope) : Function.Injective fun size : ℕ ↦ (scope, size) :=
  fun _ _ h ↦ congrArg Prod.snd h

namespace IndexDataset

/-- The rows of the largest window of a scope. -/
def catalogRows (dataset : IndexDataset ρ κ) (scope : CatalogScope) : List (Row κ) :=
  (dataset.catalogWindows.get? (scope, largestIndexWindow)).getD []

/-- The rows that a publication leaves in a scope. -/
def catalogByRun (dataset : IndexDataset ρ κ) (row : Row κ) (scope : CatalogScope) :
    Dict String (Row κ) :=
  if dataset.enters row scope then replace Row.runId Row.Newer (dataset.catalogRows scope) row
  else byName Row.runId (dataset.catalogRows scope)

theorem named_catalogByRun (row : Row κ) (scope : CatalogScope) :
    (dataset.catalogByRun row scope).Named Row.runId := by
  unfold catalogByRun
  split
  · exact named_replace
  · exact named_byName

theorem mem_catalogByRun {row other : Row κ} {scope : CatalogScope}
    (h : other ∈ (dataset.catalogByRun row scope).values) :
    other ∈ dataset.catalogRows scope ∨ (other = row ∧ dataset.enters row scope = true) := by
  unfold catalogByRun at h
  split at h
  · rename_i henters
    rcases mem_values_replace h with rfl | hold
    · exact .inr ⟨rfl, henters⟩
    · exact .inl hold.1
  · exact .inl (mem_values_byName h)

theorem catalogWindowsWith_eq_ok {row : Row κ} {scope : CatalogScope}
    {windows : List ((CatalogScope × ℕ) × List (Row κ))}
    (h : dataset.catalogWindowsWith row scope = .ok windows) :
    windows = windowFiles (fun size ↦ (scope, size))
      (top Row.Newer largestIndexWindow (dataset.catalogByRun row scope)) := by
  unfold catalogWindowsWith at h
  unfold catalogByRun catalogRows
  cases hget : dataset.catalogWindows.get? (scope, largestIndexWindow) with
  | none =>
    by_cases hempty : dataset.existingIndexRows.isEmpty = true
    · simp only [hget, hempty, if_true] at h
      exact (Except.ok.inj h).symm
    · simp only [hget, hempty] at h
      cases h
  | some rows =>
    simp only [hget] at h
    exact (Except.ok.inj h).symm

end IndexDataset

variable [RowDigest ρ] [DecidableEq ρ] [DecidableEq κ]

/-- The row that a publication puts into the windows of the index. -/
def publishedRow (publication : ResultPublication ρ κ) (resultDataset resultRevision : String)
    (receipt : Option IndexReceipt) : Row ρ :=
  buildGlobalIndexRow publication resultDataset
    ((receipt.map IndexReceipt.resultRevision).getD resultRevision)

/-- What a publication that commits has read and built. -/
structure Publishes (publication : ResultPublication ρ κ) (resultDataset resultRevision : String)
    (dataset next : IndexDataset ρ κ) (receipt : Option IndexReceipt) (catalog : Row κ) : Prop where
  adopted : dataset.adopted publication resultDataset = .ok receipt
  built : ∃ projection, projectionFile publication = .ok projection ∧
    buildCatalogRow publication resultDataset
      ((receipt.map IndexReceipt.resultRevision).getD resultRevision) projection = .ok catalog
  next_eq : next = dataset.indexed receipt
    (publishedRow publication resultDataset resultRevision receipt) catalog
    (dataset.indexWindowsWith (publishedRow publication resultDataset resultRevision receipt))
    (windowFiles (fun size ↦ (CatalogScope.audit, size))
        (top Row.Newer largestIndexWindow (dataset.catalogByRun catalog .audit)) ++
      windowFiles (fun size ↦ (CatalogScope.primary, size))
        (top Row.Newer largestIndexWindow (dataset.catalogByRun catalog .primary)))

theorem publishes_of_put {publication : ResultPublication ρ κ}
    {resultDataset resultRevision : String} {answer : CatalogAnswer}
    (h : (CatalogCall.publish publication resultDataset resultRevision).verdict dataset =
      .put next answer) : ∃ receipt catalog,
      Publishes publication resultDataset resultRevision dataset next receipt catalog := by
  simp only [CatalogCall.verdict] at h
  cases hpublish : dataset.publishIndex publication resultDataset resultRevision with
  | error error => simp [hpublish] at h
  | ok result =>
    obtain ⟨revision, changed⟩ := result
    rw [hpublish] at h
    cases changed with
    | none => cases h
    | some written =>
      cases h
      obtain ⟨projection, hprojection, hpublish⟩ := bind_eq_ok.mp hpublish
      obtain ⟨receipt, hreceipt, hpublish⟩ := bind_eq_ok.mp hpublish
      obtain ⟨catalog, hcatalog, hpublish⟩ := bind_eq_ok.mp hpublish
      obtain ⟨audit, haudit, hpublish⟩ := bind_eq_ok.mp hpublish
      obtain ⟨primary, hprimary, hpublish⟩ := bind_eq_ok.mp hpublish
      have hresult := congrArg Prod.snd (Except.ok.inj hpublish)
      dsimp only at hresult
      split_ifs at hresult
      rw [IndexDataset.catalogWindowsWith_eq_ok haudit,
        IndexDataset.catalogWindowsWith_eq_ok hprimary] at hresult
      exact ⟨receipt, catalog, hreceipt, ⟨projection, hprojection, hcatalog⟩,
        (Option.some.inj hresult).symm⟩

theorem records_of_put {decision : CatalogDecision} {answer : CatalogAnswer}
    (h : (CatalogCall.decide decision).verdict dataset = .put next answer) :
    dataset.recordCatalogDecision decision = .ok (some next) := by
  simp only [CatalogCall.verdict] at h
  cases hdecides : dataset.recordCatalogDecision decision with
  | error error => simp [hdecides] at h
  | ok changed =>
    rw [hdecides] at h
    cases changed with
    | none => cases h
    | some written =>
      cases h
      rfl

omit [RowDigest ρ] [DecidableEq ρ] [DecidableEq κ] in
/-- What a decision that commits has read. -/
theorem decides_of_put {decision : CatalogDecision}
    (h : dataset.recordCatalogDecision decision = .ok (some next)) :
    dataset.decisionEvents.get? decision.decisionId = none ∧
      (∀ latest, dataset.latestDecisions.get? decision.publicationId = some latest →
        latest.createdAt < decision.createdAt) ∧
      ∃ byRun : Dict String (Row κ), byRun.Named Row.runId ∧
        (∀ row ∈ byRun.values, (row ∈ dataset.catalogRows .primary ∧
            (row.publicationId = decision.publicationId → decision.action = .promote)) ∨
          (dataset.publicationLookups.get? decision.publicationId = some [row] ∧
            row.publicationId = decision.publicationId ∧ row.publicationRole = .final ∧
            decision.action = .promote)) ∧
        next.indexWindows = dataset.indexWindows ∧
        next.catalogWindows = addFiles dataset.catalogWindows
          (windowFiles (fun size ↦ (CatalogScope.primary, size))
            (top Row.Newer largestIndexWindow byRun)) ∧
        next.decisionEvents = dataset.decisionEvents.set decision.decisionId decision ∧
        next.latestDecisions = dataset.latestDecisions.set decision.publicationId decision ∧
        next.indexFiles = dataset.indexFiles ∧ next.receipts = dataset.receipts ∧
        next.publicationLookups = dataset.publicationLookups := by
  unfold IndexDataset.recordCatalogDecision at h
  cases hevent : dataset.decisionEvents.get? decision.decisionId with
  | some recorded =>
    simp only [hevent] at h
    split_ifs at h
    cases h
  | none =>
    simp only [hevent] at h
    split_ifs at h with hnewer
    obtain ⟨windows, hwindows, hnext⟩ := bind_eq_ok.mp h
    refine ⟨rfl, fun latest hlatest ↦ ?_, ?_⟩
    · by_contra hle
      exact hnewer (by simp [hlatest, not_lt.mp hle])
    · obtain ⟨target, htarget, hwindows⟩ := bind_eq_ok.mp hwindows
      split_ifs at hwindows with hrole
      obtain ⟨window, hwindow, hwindows⟩ := bind_eq_ok.mp hwindows
      have hrows : window = dataset.catalogRows .primary := by
        unfold IndexDataset.readCatalogWindow at hwindow
        unfold IndexDataset.catalogRows
        cases hget : dataset.catalogWindows.get? (.primary, largestIndexWindow) with
        | none => simp [hget] at hwindow
        | some rows =>
          simp only [hget] at hwindow
          exact (Except.ok.inj hwindow).symm
      have hid : dataset.publicationLookups.get? decision.publicationId = some [target] ∧
          target.publicationId = decision.publicationId := by
        unfold IndexDataset.readCatalogPublication at htarget
        split at htarget
        · cases htarget
        · rename_i hlookup
          split_ifs at htarget with hsame
          obtain rfl := Except.ok.inj htarget
          exact ⟨hlookup, not_not.mp hsame⟩
        · cases htarget
      have hnamed : (byName Row.runId window).Named Row.runId := named_byName
      obtain rfl := Except.ok.inj hwindows
      cases haction : decision.action with
      | withdraw =>
        simp only [haction] at hnext
        obtain rfl := Option.some.inj (Except.ok.inj hnext)
        refine ⟨(byName Row.runId window).filter fun entry ↦
          entry.2.publicationId ≠ decision.publicationId, hnamed.filter _, fun row hrow ↦ ?_,
          rfl, by dsimp only, rfl, rfl, rfl, rfl, rfl⟩
        obtain ⟨key, hentry⟩ := Dict.mem_values_iff.mp hrow
        obtain ⟨hmem, hkept⟩ := List.mem_filter.mp hentry
        have hvalue : row ∈ (byName Row.runId window).values := Dict.mem_values_iff.mpr ⟨key, hmem⟩
        refine .inl ⟨hrows ▸ mem_values_byName hvalue, fun heq ↦ ?_⟩
        simp [heq] at hkept
      | promote =>
        simp only [haction] at hnext
        obtain rfl := Option.some.inj (Except.ok.inj hnext)
        refine ⟨replace Row.runId Row.Newer (byName Row.runId window).values target,
          named_replace, fun row hrow ↦ ?_, rfl, by dsimp only, rfl, rfl, rfl, rfl, rfl⟩
        rcases mem_values_replace hrow with rfl | ⟨hold, -⟩
        · refine .inr ⟨hid.1, hid.2, ?_, rfl⟩
          by_contra hfinal
          exact hrole ⟨haction, hfinal⟩
        · exact .inl ⟨hrows ▸ mem_values_byName hold, fun _ ↦ rfl⟩

end Verdicts

/-! ### Every commit -/

section Sound

variable {ρ κ : Type} {dataset next : IndexDataset ρ κ}

/-- A row that the primary windows may have. -/
def IndexDataset.Eligible (dataset : IndexDataset ρ κ) (row : Row κ) : Prop :=
  row.publicationRole = .final ∧
    dataset.latestCatalogDecision row.publicationId ≠ some .withdraw

theorem IndexDataset.eligible_congr (h : next.latestDecisions = dataset.latestDecisions)
    (row : Row κ) : next.Eligible row ↔ dataset.Eligible row := by
  unfold Eligible latestCatalogDecision
  rw [h]

/-- What holds of the windows and of the decisions after every commit. -/
structure CatalogSound (dataset : IndexDataset ρ κ) : Prop where
  index : WindowsSound fun size ↦ dataset.indexWindows.get? size
  catalog : ∀ scope, WindowsSound fun size ↦ dataset.catalogWindows.get? (scope, size)
  primary : ∀ size rows, dataset.catalogWindows.get? (.primary, size) = some rows →
    ∀ row ∈ rows, dataset.Eligible row
  latest : ∀ publicationId latest, dataset.latestDecisions.get? publicationId = some latest →
    latest.publicationId = publicationId ∧
      dataset.decisionEvents.get? latest.decisionId = some latest
  greatest : ∀ decisionId decision, dataset.decisionEvents.get? decisionId = some decision →
    decision.decisionId = decisionId ∧
      ∃ latest, dataset.latestDecisions.get? decision.publicationId = some latest ∧
        (decision = latest ∨ decision.createdAt < latest.createdAt)

/-- The invariant of the commits: the windows are those of rankings. -/
structure CatalogKept (dataset : IndexDataset ρ κ) : Prop where
  index : Snapshot fun size ↦ dataset.indexWindows.get? size
  catalog : ∀ scope, Snapshot fun size ↦ dataset.catalogWindows.get? (scope, size)
  primary : ∀ row ∈ dataset.catalogRows .primary, dataset.Eligible row
  latest : ∀ publicationId latest, dataset.latestDecisions.get? publicationId = some latest →
    latest.publicationId = publicationId ∧
      dataset.decisionEvents.get? latest.decisionId = some latest
  greatest : ∀ decisionId decision, dataset.decisionEvents.get? decisionId = some decision →
    decision.decisionId = decisionId ∧
      ∃ latest, dataset.latestDecisions.get? decision.publicationId = some latest ∧
        (decision = latest ∨ decision.createdAt < latest.createdAt)

theorem CatalogKept.empty : CatalogKept ({} : IndexDataset ρ κ) where
  index := .inl fun _ ↦ rfl
  catalog _ := .inl fun _ ↦ rfl
  primary := nofun
  latest := nofun
  greatest := nofun

theorem CatalogKept.sound (h : CatalogKept dataset) : CatalogSound dataset where
  index := h.index.sound
  catalog scope := (h.catalog scope).sound
  primary size rows hrows row hrow := by
    refine h.primary row ?_
    rcases h.catalog .primary with hnone | ⟨ordered, hranked, hwindowed⟩
    · rw [show dataset.catalogWindows.get? (.primary, size) = none from hnone size] at hrows
      cases hrows
    · obtain ⟨-, rfl⟩ := hwindowed.eq_some hrows
      have hlargest : dataset.catalogWindows.get? (.primary, largestIndexWindow) =
          some (ordered.take largestIndexWindow) :=
        (hwindowed largestIndexWindow).trans (if_pos largest_mem)
      rw [IndexDataset.catalogRows, hlargest, Option.getD_some,
        List.take_of_length_le hranked.length_le]
      exact List.mem_of_mem_take hrow
  latest := h.latest
  greatest := h.greatest

theorem get?_other_scope {files : Dict (CatalogScope × ℕ) (List (Row κ))}
    {scope other : CatalogScope} (h : scope ≠ other) (size : ℕ) (ordered : List (Row κ)) :
    (addFiles files (windowFiles (fun size ↦ (scope, size)) ordered)).get? (other, size) =
      files.get? (other, size) :=
  get?_windowFiles_of_ne fun _ _ heq ↦ h (congrArg Prod.fst heq)

theorem mem_values_of_mem_written {files : Dict (CatalogScope × ℕ) (List (Row κ))}
    {byRun : Dict String (Row κ)} {row : Row κ} (hwritten : dataset.catalogWindows = addFiles files
      (windowFiles (fun size ↦ (CatalogScope.primary, size))
        (top Row.Newer largestIndexWindow byRun)))
    (h : row ∈ dataset.catalogRows .primary) : row ∈ byRun.values := by
  unfold IndexDataset.catalogRows at h
  rw [hwritten, get?_windowFiles (scope_injective .primary) largest_mem, Option.getD_some] at h
  exact mem_values_of_mem_top (List.mem_of_mem_take h)

theorem addFiles_append {ν τ : Type} [DecidableEq τ] (files : Dict τ ν)
    (first second : List (τ × ν)) :
    addFiles files (first ++ second) = addFiles (addFiles files first) second :=
  List.foldl_append

section Publish

variable [RowDigest ρ] [DecidableEq ρ]

/-- The files that a publication writes, and those that it leaves. -/
theorem Publishes.files {publication : ResultPublication ρ κ}
    {resultDataset resultRevision : String} {receipt : Option IndexReceipt} {catalog : Row κ}
    (h : Publishes publication resultDataset resultRevision dataset next receipt catalog) :
    next.indexWindows = addFiles dataset.indexWindows (windowFiles id
        (top Row.Newer largestIndexWindow (replace Row.runId Row.Newer dataset.existingIndexRows
          (publishedRow publication resultDataset resultRevision receipt)))) ∧
      next.catalogWindows = addFiles (addFiles dataset.catalogWindows
        (windowFiles (fun size ↦ (CatalogScope.audit, size))
          (top Row.Newer largestIndexWindow (dataset.catalogByRun catalog .audit))))
        (windowFiles (fun size ↦ (CatalogScope.primary, size))
          (top Row.Newer largestIndexWindow (dataset.catalogByRun catalog .primary))) ∧
      next.publicationLookups = dataset.publicationLookups.set catalog.publicationId [catalog] ∧
      next.latestDecisions = dataset.latestDecisions ∧
      next.decisionEvents = dataset.decisionEvents := by
  obtain rfl := h.next_eq
  rw [← addFiles_append]
  refine ⟨?_, ?_, rfl, rfl, rfl⟩
  · simp only [IndexDataset.indexed, IndexDataset.indexWindowsWith]
  · simp only [IndexDataset.indexed]

/-- A publication keeps the invariant. -/
theorem CatalogKept.publish (h : CatalogKept dataset) {publication : ResultPublication ρ κ}
    {resultDataset resultRevision : String} {receipt : Option IndexReceipt} {catalog : Row κ}
    (hpublishes : Publishes publication resultDataset resultRevision dataset next receipt catalog) :
    CatalogKept next := by
  obtain ⟨hindex, hcatalog, -, hlatest, hevents⟩ := hpublishes.files
  refine ⟨?_, ?_, ?_, ?_, ?_⟩
  · rw [hindex]
    exact snapshot_windowFiles Function.injective_id h.index named_replace
  · intro scope
    have hnamed : (dataset.catalogByRun catalog scope).Named Row.runId :=
      IndexDataset.named_catalogByRun catalog scope
    rw [hcatalog]
    cases scope with
    | audit =>
      have haudit := snapshot_windowFiles (scope_injective .audit) (h.catalog .audit) hnamed
      refine Eq.mp (congrArg Snapshot (funext fun size ↦ ?_)) haudit
      exact (get?_other_scope (by decide) size _).symm
    | primary =>
      refine snapshot_windowFiles (scope_injective .primary) ?_ hnamed
      refine Eq.mp (congrArg Snapshot (funext fun size ↦ ?_)) (h.catalog .primary)
      exact (get?_other_scope (by decide) size _).symm
  · intro other hother
    rw [IndexDataset.eligible_congr hlatest]
    rcases IndexDataset.mem_catalogByRun (mem_values_of_mem_written hcatalog hother) with
      hold | ⟨rfl, henters⟩
    · exact h.primary other hold
    · simpa [IndexDataset.enters, IndexDataset.Eligible] using henters
  · rw [hlatest, hevents]
    exact h.latest
  · rw [hlatest, hevents]
    exact h.greatest

end Publish

/-- A decision keeps the invariant. -/
theorem CatalogKept.decide (h : CatalogKept dataset) {decision : CatalogDecision}
    (hdecides : dataset.recordCatalogDecision decision = .ok (some next)) : CatalogKept next := by
  obtain ⟨hevent, hnewer, byRun, hnamed, hrows, hindex, hcatalog, hevents, hlatests, -⟩ :=
    decides_of_put hdecides
  refine ⟨hindex ▸ h.index, ?_, ?_, ?_, ?_⟩
  · intro scope
    rw [hcatalog]
    cases scope with
    | audit =>
      refine Eq.mp (congrArg Snapshot (funext fun size ↦ ?_)) (h.catalog .audit)
      exact (get?_other_scope (by decide) size _).symm
    | primary => exact snapshot_windowFiles (scope_injective .primary) (h.catalog .primary) hnamed
  · intro row hrow
    unfold IndexDataset.Eligible IndexDataset.latestCatalogDecision
    rw [hlatests, Dict.get?_set]
    rcases hrows row (mem_values_of_mem_written hcatalog hrow) with
      ⟨hold, hpromote⟩ | ⟨-, hid, hfinal, hpromote⟩
    · obtain ⟨hrole, hlatest⟩ := h.primary row hold
      refine ⟨hrole, ?_⟩
      by_cases hid : row.publicationId = decision.publicationId
      · rw [if_pos hid]
        simp [hpromote hid]
      · rw [if_neg hid]
        exact hlatest
    · rw [if_pos hid]
      exact ⟨hfinal, by simp [hpromote]⟩
  · intro publicationId latest hlatest
    rw [hevents, Dict.get?_set]
    rw [hlatests, Dict.get?_set] at hlatest
    by_cases hid : publicationId = decision.publicationId
    · rw [if_pos hid] at hlatest
      obtain rfl := Option.some.inj hlatest
      refine ⟨hid.symm, ?_⟩
      rw [if_pos rfl]
    · rw [if_neg hid] at hlatest
      obtain ⟨hsame, hrecorded⟩ := h.latest publicationId latest hlatest
      refine ⟨hsame, ?_⟩
      rw [if_neg]
      · exact hrecorded
      · intro heq
        rw [heq, hevent] at hrecorded
        cases hrecorded
  · intro decisionId recorded hrecorded
    rw [hlatests]
    rw [hevents, Dict.get?_set] at hrecorded
    by_cases hid : decisionId = decision.decisionId
    · rw [if_pos hid] at hrecorded
      obtain rfl := Option.some.inj hrecorded
      refine ⟨hid.symm, decision, ?_, .inl rfl⟩
      rw [Dict.get?_set, if_pos rfl]
    · rw [if_neg hid] at hrecorded
      obtain ⟨hsame, latest, hlatest, hle⟩ := h.greatest decisionId recorded hrecorded
      refine ⟨hsame, ?_⟩
      rw [Dict.get?_set]
      by_cases hpublication : recorded.publicationId = decision.publicationId
      · rw [if_pos hpublication]
        have hlt := hnewer latest (hpublication ▸ hlatest)
        refine ⟨decision, rfl, .inr ?_⟩
        rcases hle with rfl | hlt'
        · exact hlt
        · exact hlt'.trans hlt
      · rw [if_neg hpublication]
        exact ⟨latest, hlatest, hle⟩

variable [RowDigest ρ] [DecidableEq ρ] [DecidableEq κ]

theorem CatalogKept.put (h : CatalogKept dataset) {call : CatalogCall ρ κ} {answer : CatalogAnswer}
    (hput : call.verdict dataset = .put next answer) : CatalogKept next := by
  cases call with
  | publish publication resultDataset resultRevision =>
    obtain ⟨receipt, catalog, hpublishes⟩ := publishes_of_put hput
    exact h.publish hpublishes
  | decide decision => exact h.decide (records_of_put hput)

/-- In every interleaving of any number of publications and decisions, the windows and the decisions
are sound after every commit. -/
theorem catalog_sound {ι : Type} [DecidableEq ι] (calls : ι → CatalogCall ρ κ)
    (repository : Repository ι Unit (IndexDataset ρ κ) PublisherError CatalogAnswer)
    (h : (catalogCalls calls).Reachable repository) :
    ∀ before after, repository.revisions = before ++ after →
      CatalogSound ((catalogCalls calls).document before) := by
  intro before after heq
  refine CatalogKept.sound (h.sound.invariant CatalogKept.empty ?_ heq)
  intro call seen contents next answer hkept hput
  exact hkept.put hput

end Sound

section Withdrawn

local instance unitRowDigest : RowDigest Unit := ⟨fun rows ↦ if rows.isEmpty then "" else "digest"⟩

def finalPublication : ResultPublication Unit Unit :=
  { publicationId := "publication"
    runId := "run"
    publicationRole := .final
    completedAt := 1
    indexColumns := ()
    projection := some ⟨"projection.json", "{}"⟩
    catalogColumns := fun _ ↦ .ok () }

def finalRow : Row Unit := ⟨"publication", "run", .final, 1, "dataset", "revision", ()⟩

def withdrawal : CatalogDecision :=
  ⟨"decision", "publication", .withdraw, "operator", "invalid", 2⟩

/-- A publication and its withdrawal. -/
def withdrawnCalls : Bool → CatalogCall Unit Unit
  | false => .publish finalPublication "dataset" "revision"
  | true => .decide withdrawal

/-- The index Dataset with the publication. -/
def publishedDataset : IndexDataset Unit Unit :=
  ({} : IndexDataset Unit Unit).indexed none finalRow finalRow
    (windowFiles id [finalRow])
    (windowFiles (fun size ↦ (CatalogScope.audit, size)) [finalRow] ++
      windowFiles (fun size ↦ (CatalogScope.primary, size)) [finalRow])

/-- The index Dataset after the withdrawal. -/
def withdrawnDataset : IndexDataset Unit Unit :=
  { publishedDataset with
    decisionEvents := [("decision", withdrawal)]
    latestDecisions := [("publication", withdrawal)]
    catalogWindows := addFiles publishedDataset.catalogWindows
      (windowFiles (fun size ↦ (CatalogScope.primary, size)) []) }

def withdrawnRepository : Repository Bool Unit (IndexDataset Unit Unit) PublisherError CatalogAnswer :=
  ⟨[⟨some (false, ()), publishedDataset⟩, ⟨some (true, ()), withdrawnDataset⟩],
    Function.update (Function.update (fun _ ↦ .idle 8) false
      (.finished (.ok (.indexed "revision")))) true (.finished (.ok .decided))⟩

theorem reachable_withdrawnRepository :
    (catalogCalls withdrawnCalls).Reachable withdrawnRepository := by
  have hpublished : (withdrawnCalls false).verdict {} = .put publishedDataset (.indexed "revision") :=
    by decide +kernel
  have hwithdrawn : (withdrawnCalls true).verdict publishedDataset = .put withdrawnDataset .decided :=
    by decide +kernel
  have hfirst : (catalogCalls withdrawnCalls).Steps (catalogCalls withdrawnCalls).start
      ⟨[⟨some (false, ()), publishedDataset⟩],
        Function.update (fun _ ↦ .idle 8) false (.finished (.ok (.indexed "revision")))⟩ :=
    Calls.Steps.put (show _ = Stage.idle (7 + 1) from rfl) hpublished
  exact hfirst.trans (Calls.Steps.put (show _ = Stage.idle (7 + 1) from rfl) hwithdrawn)

/-- A repository to which `catalog_sound` applies. -/
theorem catalog_sound_withdrawn : CatalogSound publishedDataset ∧ CatalogSound withdrawnDataset :=
  ⟨catalog_sound withdrawnCalls _ reachable_withdrawnRepository
      [⟨some (false, ()), publishedDataset⟩] [⟨some (true, ()), withdrawnDataset⟩] rfl,
    catalog_sound withdrawnCalls _ reachable_withdrawnRepository _ [] (List.append_nil _).symm⟩

end Withdrawn

end HarborHF.Hub
