import HarborHF.Hub.Catalog

/-!
# Publishing again

A publication that was indexed is adopted: its receipt, its file and its row stay. But the windows
are computed anew with its row put in, so that publishing it again commits unless its row has
remained in every window that it enters, or would be cut from it, and is the row of the lookups
(`Current`, `republish_noop_iff`). After another publication of the same run it puts the older row
back (`republish_replaces`).
-/

set_option autoImplicit false

namespace HarborHF.Hub

open Async Relational

variable {ρ κ τ : Type}

/-! ### Windows that stay -/

/-- The row is in the window, or the window is full of rows of other runs that come before it. -/
def Stays (window : List (Row ρ)) (row : Row ρ) : Prop :=
  row ∈ window ∨ ((∀ other ∈ window, other.runId ≠ row.runId) ∧
    window.length = largestIndexWindow ∧ ∀ other ∈ window, Row.Newer other row)

/-- Windows of a snapshot match those of some rows exactly when the largest does. -/
theorem filesMatch_windowFiles_iff [DecidableEq τ] [DecidableEq ρ] {files : Dict τ (List (Row ρ))}
    {key : ℕ → τ} {rows ordered : List (Row ρ)} (h : Snapshot fun size ↦ files.get? (key size))
    (hrows : files.get? (key largestIndexWindow) = some rows)
    (hlength : ordered.length ≤ largestIndexWindow) :
    filesMatch files (windowFiles key ordered) = true ↔ ordered = rows := by
  have hall : filesMatch files (windowFiles key ordered) = true ↔
      ∀ size ∈ indexWindowSizes, files.get? (key size) = some (ordered.take size) := by
    simp [filesMatch, windowFiles]
  rw [hall]
  rcases h with hnone | ⟨base, hranked, hwindowed⟩
  · rw [show files.get? (key largestIndexWindow) = none from hnone _] at hrows
    cases hrows
  · have hbase : rows = base := by
      rw [(hwindowed.eq_some hrows).2]
      exact List.take_of_length_le hranked.length_le
    constructor
    · intro hmatch
      have hlargest := hmatch largestIndexWindow largest_mem
      rw [hrows, List.take_of_length_le hlength] at hlargest
      exact (Option.some.inj hlargest).symm
    · rintro rfl size hsize
      rw [hbase]
      exact (hwindowed size).trans (if_pos hsize)

theorem filesMatch_append [DecidableEq τ] [DecidableEq ρ] {files : Dict τ (List (Row ρ))}
    {first second : List (τ × List (Row ρ))} :
    filesMatch files (first ++ second) = (filesMatch files first && filesMatch files second) :=
  List.all_append

theorem Snapshot.ranked {windows : ℕ → Option (List (Row ρ))} (h : Snapshot windows)
    {rows : List (Row ρ)} (hrows : windows largestIndexWindow = some rows) :
    Ranked Row.runId Row.Newer largestIndexWindow rows := by
  rcases h with hnone | ⟨ordered, hranked, hwindowed⟩
  · rw [hnone] at hrows
    cases hrows
  · rw [(hwindowed.eq_some hrows).2]
    exact hranked.take _

/-- Putting a row into a ranking in which publications tell the runs leaves it exactly when the row
stays. -/
theorem top_replace_eq_iff_stays {rows : List (Row ρ)} {row : Row ρ}
    (h : Ranked Row.runId Row.Newer largestIndexWindow rows)
    (hruns : ∀ first ∈ row :: rows, ∀ second ∈ row :: rows,
      first.publicationId = second.publicationId → first.runId = second.runId) :
    top Row.Newer largestIndexWindow (replace Row.runId Row.Newer rows row) = rows ↔
      Stays rows row := by
  refine top_replace_eq_iff h ?_
  intro first hfirst second hsecond hle hle'
  have hmem (other : Row ρ)
      (hother : other ∈ row :: rows.filter fun other ↦ decide (other.runId ≠ row.runId)) :
      other ∈ row :: rows :=
    List.cons_subset_cons row (List.filter_subset_self rows) hother
  have hrun : first.runId = second.runId :=
    hruns first (hmem first hfirst) second (hmem second hsecond) (Row.publicationId_eq hle hle')
  rcases List.mem_cons.mp hfirst with rfl | hfirst
  · rcases List.mem_cons.mp hsecond with rfl | hsecond
    · rfl
    · have hne := (List.mem_filter.mp hsecond).2
      simp [hrun] at hne
  · obtain ⟨hfirst, hne⟩ := List.mem_filter.mp hfirst
    rcases List.mem_cons.mp hsecond with rfl | hsecond
    · simp [hrun] at hne
    · exact List.inj_on_of_nodup_map h.names hfirst (List.mem_filter.mp hsecond).1 hrun

/-! ### Indexed publications -/

section Indexed

variable [RowDigest ρ] {dataset next : IndexDataset ρ κ}

namespace IndexDataset

/-- The row has its receipt and its file. -/
def IndexedRow (dataset : IndexDataset ρ κ) (row : Row ρ) : Prop :=
  dataset.receipts.get? row.publicationId = some (indexReceipt row) ∧
    dataset.indexFiles.get? (indexPath row.publicationId) = some [row]

/-- The publication is indexed under the run. -/
def IndexedRun (dataset : IndexDataset ρ κ) (publicationId runId : String) : Prop :=
  ∃ row, dataset.IndexedRow row ∧ row.publicationId = publicationId ∧ row.runId = runId

theorem IndexedRun.unique {publicationId first second : String}
    (h : dataset.IndexedRun publicationId first) (h' : dataset.IndexedRun publicationId second) :
    first = second := by
  obtain ⟨row, ⟨-, hfile⟩, rfl, rfl⟩ := h
  obtain ⟨other, ⟨-, hfile'⟩, hid, rfl⟩ := h'
  rw [hid, hfile] at hfile'
  rw [(List.cons.inj (Option.some.inj hfile')).1]

end IndexDataset

theorem indexPath_injective : Function.Injective indexPath := by
  intro first second h
  exact (String.append_left_inj _).mp ((String.append_right_inj _).mp h)

/-- The receipts have the rows of the index files, and the windows and lookups have rows of indexed
publications under their runs. -/
structure Filed (dataset : IndexDataset ρ κ) : Prop where
  receipts : ∀ publicationId receipt, dataset.receipts.get? publicationId = some receipt →
    ∃ row, dataset.IndexedRow row ∧ row.publicationId = publicationId ∧ receipt = indexReceipt row
  files : ∀ rows ∈ dataset.indexFiles.values, ∀ row ∈ rows,
    dataset.IndexedRun row.publicationId row.runId
  index : ∀ rows, dataset.indexWindows.get? largestIndexWindow = some rows →
    ∀ row ∈ rows, dataset.IndexedRun row.publicationId row.runId
  catalog : ∀ scope, ∀ row ∈ dataset.catalogRows scope,
    dataset.IndexedRun row.publicationId row.runId
  lookups : ∀ publicationId row, dataset.publicationLookups.get? publicationId = some [row] →
    dataset.IndexedRun row.publicationId row.runId
  windows : ∀ publicationId receipt, dataset.receipts.get? publicationId = some receipt →
    (∃ rows, dataset.indexWindows.get? largestIndexWindow = some rows) ∧
      ∀ scope, ∃ rows, dataset.catalogWindows.get? (scope, largestIndexWindow) = some rows

theorem Filed.empty : Filed ({} : IndexDataset ρ κ) where
  receipts := nofun
  files := nofun
  index := nofun
  catalog _ := nofun
  lookups := nofun
  windows := nofun

theorem Filed.existing (h : Filed dataset) {row : Row ρ} (hrow : row ∈ dataset.existingIndexRows) :
    dataset.IndexedRun row.publicationId row.runId := by
  unfold IndexDataset.existingIndexRows at hrow
  cases hrows : dataset.indexWindows.get? largestIndexWindow with
  | some rows =>
    rw [hrows, Option.getD_some] at hrow
    exact h.index rows hrows row hrow
  | none =>
    rw [hrows, Option.getD_none] at hrow
    obtain ⟨rows, hvalue, hmem⟩ := List.mem_flatten.mp hrow
    exact h.files rows hvalue row hmem

omit [RowDigest ρ] in
theorem catalogRow_eq {publication : ResultPublication ρ κ} {resultDataset resultRevision : String}
    {projection : DatasetFile} {catalog : Row κ}
    (h : buildCatalogRow publication resultDataset resultRevision projection = .ok catalog) :
    catalog.publicationId = publication.publicationId ∧ catalog.runId = publication.runId := by
  unfold buildCatalogRow at h
  split at h
  · cases h
  · obtain rfl := Except.ok.inj h
    exact ⟨rfl, rfl⟩

theorem adoptIndex_indexReceipt {row : Row ρ} (h : dataset.IndexedRow row) :
    dataset.adoptIndex row.publicationId row.resultDataset (indexReceipt row) = .ok row := by
  have hfile : dataset.indexFiles.get? (indexReceipt row).indexPath = some [row] := h.2
  simp only [IndexDataset.adoptIndex, hfile]
  simp [indexReceipt]

variable [DecidableEq ρ] {publication : ResultPublication ρ κ}
  {resultDataset resultRevision : String}

/-- An indexed row is adopted. -/
theorem adopted_of_indexedRow
    (h : dataset.IndexedRow (buildGlobalIndexRow publication resultDataset resultRevision)) :
    dataset.adopted publication resultDataset =
      .ok (some (indexReceipt (buildGlobalIndexRow publication resultDataset resultRevision))) := by
  have hadopt : dataset.adoptIndex publication.publicationId resultDataset
      (indexReceipt (buildGlobalIndexRow publication resultDataset resultRevision)) =
      .ok (buildGlobalIndexRow publication resultDataset resultRevision) :=
    adoptIndex_indexReceipt h
  unfold IndexDataset.adopted
  rw [show dataset.receipts.get? publication.publicationId = _ from h.1]
  dsimp only
  rw [hadopt]
  exact if_neg (by simp [indexReceipt, buildGlobalIndexRow])

theorem get?_receipts_of_adopted_none (h : dataset.adopted publication resultDataset = .ok none) :
    dataset.receipts.get? publication.publicationId = none := by
  unfold IndexDataset.adopted at h
  cases hreceipt : dataset.receipts.get? publication.publicationId with
  | none => rfl
  | some receipt =>
    simp only [hreceipt] at h
    obtain ⟨row, -, h⟩ := bind_eq_ok.mp h
    split_ifs at h
    cases h

/-- What is adopted is the row of the publication. -/
theorem indexedRow_of_adopted (hfiled : Filed dataset) {receipt : IndexReceipt}
    (h : dataset.adopted publication resultDataset = .ok (some receipt)) : dataset.IndexedRow
      (buildGlobalIndexRow publication resultDataset receipt.resultRevision) := by
  unfold IndexDataset.adopted at h
  cases hreceipt : dataset.receipts.get? publication.publicationId with
  | none =>
    simp only [hreceipt] at h
    cases h
  | some found =>
    simp only [hreceipt] at h
    obtain ⟨row, hadopt, h⟩ := bind_eq_ok.mp h
    split_ifs at h with hrow
    obtain rfl := Option.some.inj (Except.ok.inj h)
    obtain ⟨indexed, hindexed, hid, rfl⟩ := hfiled.receipts _ _ hreceipt
    have hdataset : indexed.resultDataset = resultDataset := by
      by_contra hne
      simp [IndexDataset.adoptIndex, indexReceipt, hne] at hadopt
    subst hdataset
    rw [← hid, adoptIndex_indexReceipt hindexed] at hadopt
    obtain rfl := Except.ok.inj hadopt
    rw [← not_not.mp hrow]
    exact hindexed

variable {receipt : Option IndexReceipt} {catalog : Row κ}

/-- Indexed rows stay as they are. -/
theorem IndexDataset.IndexedRow.publish {row : Row ρ} (h : dataset.IndexedRow row)
    (hpublishes : Publishes publication resultDataset resultRevision dataset next receipt catalog) :
    next.IndexedRow row := by
  obtain ⟨hadopted, -, rfl⟩ := hpublishes
  cases receipt with
  | some receipt => exact h
  | none =>
    have hfree := get?_receipts_of_adopted_none hadopted
    have hne : row.publicationId ≠ publication.publicationId := by
      intro heq
      rw [← heq, h.1] at hfree
      cases hfree
    refine ⟨?_, ?_⟩
    · exact (Dict.get?_set_of_ne hne).trans h.1
    · exact (Dict.get?_set_of_ne fun heq ↦ hne (indexPath_injective heq)).trans h.2

theorem Publishes.indexedRow (hfiled : Filed dataset)
    (hpublishes : Publishes publication resultDataset resultRevision dataset next receipt catalog) :
    next.IndexedRow (publishedRow publication resultDataset resultRevision receipt) := by
  cases receipt with
  | some receipt => exact (indexedRow_of_adopted hfiled hpublishes.adopted).publish hpublishes
  | none =>
    obtain ⟨-, -, rfl⟩ := hpublishes
    exact ⟨Dict.get?_set_self, Dict.get?_set_self⟩

omit [DecidableEq ρ] in
theorem IndexDataset.IndexedRun.mono {publicationId runId : String}
    (h : dataset.IndexedRun publicationId runId)
    (hkept : ∀ row, dataset.IndexedRow row → next.IndexedRow row) :
    next.IndexedRun publicationId runId := by
  obtain ⟨row, hrow, hid, hrun⟩ := h
  exact ⟨row, hkept row hrow, hid, hrun⟩

/-- A publication keeps what is filed. -/
theorem Filed.publish (h : Filed dataset)
    (hpublishes : Publishes publication resultDataset resultRevision dataset next receipt catalog) :
    Filed next := by
  have hrow := hpublishes.indexedRow h
  have hrun : next.IndexedRun publication.publicationId publication.runId := ⟨_, hrow, rfl, rfl⟩
  have hkept {publicationId runId : String} (hold : dataset.IndexedRun publicationId runId) :
      next.IndexedRun publicationId runId := hold.mono fun _ hrow ↦ hrow.publish hpublishes
  obtain ⟨projection, -, hbuilt⟩ := hpublishes.built
  obtain ⟨hid, hrunId⟩ := catalogRow_eq hbuilt
  have hcatalogRun : next.IndexedRun catalog.publicationId catalog.runId := by
    rw [hid, hrunId]
    exact hrun
  obtain ⟨hindex, hcatalog, hlookups, -, -⟩ := hpublishes.files
  have hwritten : next.indexWindows.get? largestIndexWindow = some ((top Row.Newer
      largestIndexWindow (replace Row.runId Row.Newer dataset.existingIndexRows
        (publishedRow publication resultDataset resultRevision receipt))).take
          largestIndexWindow) := by
    rw [hindex]
    exact get?_windowFiles Function.injective_id largest_mem
  have hlargest (scope : CatalogScope) :
      next.catalogWindows.get? (scope, largestIndexWindow) =
        some ((top Row.Newer largestIndexWindow (dataset.catalogByRun catalog scope)).take
          largestIndexWindow) := by
    rw [hcatalog]
    cases scope with
    | audit =>
      rw [get?_other_scope (by decide), get?_windowFiles (scope_injective .audit) largest_mem]
    | primary => exact get?_windowFiles (scope_injective .primary) largest_mem
  refine ⟨?_, ?_, ?_, ?_, ?_, ?_⟩
  · intro publicationId found hfound
    by_cases hid : publicationId = publication.publicationId
    · refine ⟨_, hrow, hid.symm, ?_⟩
      rw [hid, show next.receipts.get? publication.publicationId = _ from hrow.1] at hfound
      exact (Option.some.inj hfound).symm
    · have hold : dataset.receipts.get? publicationId = some found := by
        obtain rfl := hpublishes.next_eq
        cases receipt with
        | some receipt => exact hfound
        | none => exact (Dict.get?_set_of_ne hid).symm.trans hfound
      obtain ⟨row, hindexed, hrowId, heq⟩ := h.receipts publicationId found hold
      exact ⟨row, hindexed.publish hpublishes, hrowId, heq⟩
  · intro rows hvalue row hmem
    obtain rfl := hpublishes.next_eq
    cases receipt with
    | some receipt => exact hkept (h.files rows hvalue row hmem)
    | none =>
      rcases Dict.mem_values_set hvalue with rfl | hold
      · obtain rfl := List.mem_singleton.mp hmem
        exact hrun
      · exact hkept (h.files rows hold row hmem)
  · intro rows hrows row hmem
    obtain rfl := Option.some.inj (hwritten.symm.trans hrows)
    rcases mem_values_replace (mem_values_of_mem_top (List.mem_of_mem_take hmem)) with
      rfl | ⟨hold, -⟩
    · exact hrun
    · exact hkept (h.existing hold)
  · intro scope row hmem
    unfold IndexDataset.catalogRows at hmem
    rw [hlargest, Option.getD_some] at hmem
    rcases IndexDataset.mem_catalogByRun (mem_values_of_mem_top (List.mem_of_mem_take hmem)) with
      hold | ⟨rfl, -⟩
    · exact hkept (h.catalog scope row hold)
    · exact hcatalogRun
  · intro publicationId row hlookup
    rw [hlookups, Dict.get?_set] at hlookup
    split_ifs at hlookup
    · obtain rfl := (List.cons.inj (Option.some.inj hlookup)).1
      exact hcatalogRun
    · exact hkept (h.lookups publicationId row hlookup)
  · intro publicationId found _
    exact ⟨⟨_, hwritten⟩, fun scope ↦ ⟨_, hlargest scope⟩⟩

omit [DecidableEq ρ] in
theorem indexedRow_iff_of_decides {decision : CatalogDecision} {row : Row ρ}
    (hdecides : dataset.recordCatalogDecision decision = .ok (some next)) :
    next.IndexedRow row ↔ dataset.IndexedRow row := by
  obtain ⟨-, -, byRun, -, -, -, -, -, -, hfiles, hreceipts, -⟩ := decides_of_put hdecides
  unfold IndexDataset.IndexedRow
  rw [hfiles, hreceipts]

omit [DecidableEq ρ] in
/-- A decision keeps what is filed. -/
theorem Filed.decide (h : Filed dataset) {decision : CatalogDecision}
    (hdecides : dataset.recordCatalogDecision decision = .ok (some next)) : Filed next := by
  have hrow (row : Row ρ) : next.IndexedRow row ↔ dataset.IndexedRow row :=
    indexedRow_iff_of_decides hdecides
  have hkept {publicationId runId : String} (hold : dataset.IndexedRun publicationId runId) :
      next.IndexedRun publicationId runId := hold.mono fun row ↦ (hrow row).mpr
  obtain ⟨-, -, byRun, -, hrows, hindex, hcatalog, -, -, hfiles, hreceipts, hlookups⟩ :=
    decides_of_put hdecides
  have haudit (size : ℕ) : next.catalogWindows.get? (.audit, size) =
      dataset.catalogWindows.get? (.audit, size) := by
    rw [hcatalog]
    exact get?_other_scope (by decide) size _
  refine ⟨?_, ?_, ?_, ?_, ?_, ?_⟩
  · rw [hreceipts]
    intro publicationId receipt hreceipt
    obtain ⟨row, hindexed, hid⟩ := h.receipts publicationId receipt hreceipt
    exact ⟨row, (hrow row).mpr hindexed, hid⟩
  · rw [hfiles]
    exact fun rows hvalue row hmem ↦ hkept (h.files rows hvalue row hmem)
  · rw [hindex]
    exact fun rows hget row hmem ↦ hkept (h.index rows hget row hmem)
  · intro scope row hmem
    cases scope with
    | audit =>
      unfold IndexDataset.catalogRows at hmem
      rw [haudit] at hmem
      exact hkept (h.catalog .audit row hmem)
    | primary =>
      rcases hrows row (mem_values_of_mem_written hcatalog hmem) with hold | ⟨htarget, -⟩
      · exact hkept (h.catalog .primary row hold.1)
      · exact hkept (h.lookups _ row htarget)
  · rw [hlookups]
    exact fun publicationId row hlookup ↦ hkept (h.lookups publicationId row hlookup)
  · rw [hreceipts]
    intro publicationId receipt hreceipt
    obtain ⟨⟨rows, hget⟩, hscopes⟩ := h.windows publicationId receipt hreceipt
    refine ⟨⟨rows, hindex ▸ hget⟩, fun scope ↦ ?_⟩
    cases scope with
    | audit =>
      rw [haudit]
      exact hscopes .audit
    | primary =>
      rw [hcatalog]
      exact ⟨_, get?_windowFiles (scope_injective .primary) largest_mem⟩

variable [DecidableEq κ] {call : CatalogCall ρ κ} {answer : CatalogAnswer}

theorem Filed.put (h : Filed dataset) (hput : call.verdict dataset = .put next answer) :
    Filed next := by
  cases call with
  | publish publication resultDataset resultRevision =>
    obtain ⟨receipt, catalog, hpublishes⟩ := publishes_of_put hput
    exact h.publish hpublishes
  | decide decision => exact h.decide (records_of_put hput)

theorem IndexDataset.IndexedRow.put {row : Row ρ} (h : dataset.IndexedRow row)
    (hput : call.verdict dataset = .put next answer) : next.IndexedRow row := by
  cases call with
  | publish publication resultDataset resultRevision =>
    obtain ⟨receipt, catalog, hpublishes⟩ := publishes_of_put hput
    exact h.publish hpublishes
  | decide decision => exact (indexedRow_iff_of_decides (records_of_put hput)).mpr h

end Indexed

/-! ### The condition -/

section Current

variable [RowDigest ρ] [DecidableEq ρ] [DecidableEq κ] {dataset next : IndexDataset ρ κ}

/-- The publication is indexed at a revision of its results, under its row and that of the catalog. -/
structure IndexedAs (dataset : IndexDataset ρ κ) (publication : ResultPublication ρ κ)
    (resultDataset resultRevision : String) (catalog : Row κ) : Prop where
  row : dataset.IndexedRow (buildGlobalIndexRow publication resultDataset resultRevision)
  catalog : ∃ projection, projectionFile publication = .ok projection ∧
    buildCatalogRow publication resultDataset resultRevision projection = .ok catalog

/-- The rows of a publication are those of the lookups, and stay in the windows that they enter. -/
structure Current (dataset : IndexDataset ρ κ) (row : Row ρ) (catalog : Row κ) : Prop where
  run : dataset.runLookups.get? catalog.runId = some [catalog]
  publication : dataset.publicationLookups.get? catalog.publicationId = some [catalog]
  index : Stays dataset.existingIndexRows row
  audit : Stays (dataset.catalogRows .audit) catalog
  primary : dataset.enters catalog .primary = true → Stays (dataset.catalogRows .primary) catalog

omit [RowDigest ρ] [DecidableEq ρ] [DecidableEq κ] in
theorem catalogWindowsWith_of_window {row : Row κ} {scope : CatalogScope} {rows : List (Row κ)}
    (h : dataset.catalogWindows.get? (scope, largestIndexWindow) = some rows) :
    dataset.catalogWindowsWith row scope = .ok (windowFiles (fun size ↦ (scope, size))
      (top Row.Newer largestIndexWindow (dataset.catalogByRun row scope))) := by
  unfold IndexDataset.catalogWindowsWith IndexDataset.catalogByRun IndexDataset.catalogRows
  simp only [h]
  rfl

omit [DecidableEq κ] in
/-- The windows of the index match exactly when the row stays. -/
theorem filesMatch_indexWindowsWith_iff (hkept : CatalogKept dataset) (hfiled : Filed dataset)
    {row : Row ρ} (h : dataset.IndexedRow row) :
    filesMatch dataset.indexWindows (dataset.indexWindowsWith row) = true ↔
      Stays dataset.existingIndexRows row := by
  obtain ⟨⟨rows, hrows⟩, -⟩ := hfiled.windows _ _ h.1
  have hexisting : dataset.existingIndexRows = rows := by
    rw [IndexDataset.existingIndexRows, hrows, Option.getD_some]
  have hmatch : filesMatch dataset.indexWindows (dataset.indexWindowsWith row) = true ↔
      top Row.Newer largestIndexWindow
        (replace Row.runId Row.Newer dataset.existingIndexRows row) = rows :=
    filesMatch_windowFiles_iff hkept.index hrows (List.length_take_le _ _)
  rw [hmatch, ← hexisting]
  refine top_replace_eq_iff_stays (hexisting ▸ hkept.index.ranked hrows) ?_
  have hrun (other : Row ρ) (hother : other ∈ row :: dataset.existingIndexRows) :
      dataset.IndexedRun other.publicationId other.runId := by
    rcases List.mem_cons.mp hother with rfl | hother
    · exact ⟨_, h, rfl, rfl⟩
    · exact hfiled.existing hother
  intro first hfirst second hsecond hid
  exact (hrun first hfirst).unique (hid ▸ hrun second hsecond)

omit [DecidableEq ρ] in
/-- The windows of a scope match exactly when the row stays, if it enters them. -/
theorem filesMatch_catalogByRun_iff (hkept : CatalogKept dataset) (hfiled : Filed dataset)
    {row : Row κ} (h : dataset.IndexedRun row.publicationId row.runId) {scope : CatalogScope}
    {rows : List (Row κ)}
    (hrows : dataset.catalogWindows.get? (scope, largestIndexWindow) = some rows) :
    filesMatch dataset.catalogWindows (windowFiles (fun size ↦ (scope, size))
        (top Row.Newer largestIndexWindow (dataset.catalogByRun row scope))) = true ↔
      (dataset.enters row scope = true → Stays (dataset.catalogRows scope) row) := by
  have hcatalog : dataset.catalogRows scope = rows := by
    rw [IndexDataset.catalogRows, hrows, Option.getD_some]
  have hranked : Ranked Row.runId Row.Newer largestIndexWindow (dataset.catalogRows scope) :=
    hcatalog ▸ (hkept.catalog scope).ranked hrows
  have hmatch : filesMatch dataset.catalogWindows (windowFiles (fun size ↦ (scope, size))
      (top Row.Newer largestIndexWindow (dataset.catalogByRun row scope))) = true ↔
      top Row.Newer largestIndexWindow (dataset.catalogByRun row scope) = rows :=
    filesMatch_windowFiles_iff (hkept.catalog scope) hrows (List.length_take_le _ _)
  rw [hmatch, ← hcatalog]
  unfold IndexDataset.catalogByRun
  by_cases henters : dataset.enters row scope = true
  · simp only [henters, if_true, true_imp_iff]
    refine top_replace_eq_iff_stays hranked ?_
    have hrun (other : Row κ) (hother : other ∈ row :: dataset.catalogRows scope) :
        dataset.IndexedRun other.publicationId other.runId := by
      rcases List.mem_cons.mp hother with rfl | hother
      · exact h
      · exact hfiled.catalog scope other hother
    intro first hfirst second hsecond hid
    exact (hrun first hfirst).unique (hid ▸ hrun second hsecond)
  · rw [if_neg henters]
    exact ⟨fun _ hin ↦ absurd hin henters, fun _ ↦ hranked.top_byName⟩

/-- An attempt to publish what is indexed changes nothing if its rows are current, and otherwise
commits. -/
theorem publishIndex_of_indexedAs (hkept : CatalogKept dataset) (hfiled : Filed dataset)
    {publication : ResultPublication ρ κ} {resultDataset resultRevision : String} {catalog : Row κ}
    (h : IndexedAs dataset publication resultDataset resultRevision catalog) (given : String) :
    ∃ next, dataset.publishIndex publication resultDataset given = .ok (resultRevision, next) ∧
      (next = none ↔
        Current dataset (buildGlobalIndexRow publication resultDataset resultRevision) catalog) := by
  obtain ⟨projection, hprojection, hbuilt⟩ := h.catalog
  obtain ⟨hid, hrunId⟩ := catalogRow_eq hbuilt
  have hrun : dataset.IndexedRun catalog.publicationId catalog.runId := by
    rw [hid, hrunId]
    exact ⟨_, h.row, rfl, rfl⟩
  obtain ⟨-, hscopes⟩ := hfiled.windows _ _ h.row.1
  obtain ⟨audit, haudit⟩ := hscopes .audit
  obtain ⟨primary, hprimary⟩ := hscopes .primary
  have hindex := filesMatch_indexWindowsWith_iff hkept hfiled h.row
  have hauditIff := filesMatch_catalogByRun_iff hkept hfiled hrun haudit
  have hprimaryIff := filesMatch_catalogByRun_iff hkept hfiled hrun hprimary
  unfold IndexDataset.publishIndex
  rw [hprojection, adopted_of_indexedRow h.row]
  simp only [bind, Except.bind, Option.map_some, Option.getD_some]
  rw [show (indexReceipt (buildGlobalIndexRow publication resultDataset resultRevision)).resultRevision
    = resultRevision from rfl, hbuilt]
  dsimp only
  rw [catalogWindowsWith_of_window haudit, catalogWindowsWith_of_window hprimary]
  refine ⟨_, rfl, ?_⟩
  -- what the attempt compares, file by file
  simp only [Option.isSome_some, Bool.true_and, ite_eq_left_iff, reduceCtorEq, imp_false, not_not,
    Bool.and_eq_true, decide_eq_true_eq, filesMatch_append, hindex, hauditIff, hprimaryIff]
  constructor
  · rintro ⟨⟨⟨hstays, haudits, hprimaries⟩, hrunLookup⟩, hlookup⟩
    exact ⟨hrunLookup, hlookup, hstays, haudits rfl, hprimaries⟩
  · intro hcurrent
    exact ⟨⟨⟨hcurrent.index, fun _ ↦ hcurrent.audit, hcurrent.primary⟩, hcurrent.run⟩,
      hcurrent.publication⟩

omit [DecidableEq κ] in
theorem Publishes.indexedAs (hfiled : Filed dataset) {publication : ResultPublication ρ κ}
    {resultDataset resultRevision : String} {receipt : Option IndexReceipt} {catalog : Row κ}
    (h : Publishes publication resultDataset resultRevision dataset next receipt catalog) :
    IndexedAs next publication resultDataset
      ((receipt.map IndexReceipt.resultRevision).getD resultRevision) catalog :=
  ⟨h.indexedRow hfiled, h.built⟩

variable {ι : Type} {calls : ι → CatalogCall ρ κ} {publication : ResultPublication ρ κ}
  {resultDataset : String}

/-- A call that publishes the publication made the revision. -/
def PublishedBy (calls : ι → CatalogCall ρ κ) (publication : ResultPublication ρ κ)
    (resultDataset : String) (revision : Revision ι Unit (IndexDataset ρ κ)) : Prop :=
  ∃ call resultRevision, revision.author = some (call, ()) ∧
    calls call = .publish publication resultDataset resultRevision

/-- What a call that publishes decided for the Dataset before its revision. -/
theorem PublishedBy.verdict {revision : Revision ι Unit (IndexDataset ρ κ)}
    (h : PublishedBy calls publication resultDataset revision)
    (hauthored : (catalogCalls calls).Authored dataset revision) :
    ∃ resultRevision answer, (CatalogCall.publish publication resultDataset resultRevision).verdict
      dataset = .put revision.contents answer := by
  obtain ⟨call, resultRevision, hauthor, hcall⟩ := h
  unfold Calls.Authored at hauthored
  rw [hauthor] at hauthored
  obtain ⟨answer, hverdict⟩ := hauthored
  refine ⟨resultRevision, answer, ?_⟩
  rw [← hcall]
  exact hverdict

variable {repository : Repository ι Unit (IndexDataset ρ κ) PublisherError CatalogAnswer}
  {before after : List (Revision ι Unit (IndexDataset ρ κ))}

theorem Filed.document (h : (catalogCalls calls).Sound repository)
    (heq : repository.revisions = before ++ after) :
    Filed ((catalogCalls calls).document before) := by
  refine h.invariant Filed.empty ?_ heq
  intro call seen contents next answer hfiled hput
  exact hfiled.put hput

theorem CatalogKept.document (h : (catalogCalls calls).Sound repository)
    (heq : repository.revisions = before ++ after) :
    CatalogKept ((catalogCalls calls).document before) := by
  refine h.invariant CatalogKept.empty ?_ heq
  intro call seen contents next answer hkept hput
  exact hkept.put hput

/-- What was published once is indexed ever after. -/
theorem exists_indexedAs (h : (catalogCalls calls).Sound repository)
    (heq : repository.revisions = before ++ after)
    (hpublished : ∃ revision ∈ before, PublishedBy calls publication resultDataset revision) :
    ∃ indexedRevision catalog, IndexedAs ((catalogCalls calls).document before) publication
      resultDataset indexedRevision catalog := by
  obtain ⟨revision, hmem, hby⟩ := hpublished
  obtain ⟨first, rest, rfl⟩ := List.append_of_mem hmem
  have hfirst : repository.revisions = first ++ revision :: (rest ++ after) := by
    rw [heq]
    simp
  obtain ⟨resultRevision, answer, hput⟩ := hby.verdict (h.authored first revision _ hfirst)
  obtain ⟨receipt, catalog, hpublishes⟩ := publishes_of_put hput
  have hindexed := hpublishes.indexedAs (Filed.document h hfirst)
  rw [← (catalogCalls calls).document_concat first revision] at hindexed
  have hrest : repository.revisions = first ++ [revision] ++ rest ++ after := by
    rw [heq]
    simp
  rw [show first ++ revision :: rest = first ++ [revision] ++ rest by simp]
  have hput (call : ι) (seen : Unit) (contents next : IndexDataset ρ κ) (answer : CatalogAnswer)
      (hkept : IndexedAs contents publication resultDataset
        ((receipt.map IndexReceipt.resultRevision).getD resultRevision) catalog)
      (hverdict : (catalogCalls calls).verdict call seen contents = .put next answer) :
      IndexedAs next publication resultDataset
        ((receipt.map IndexReceipt.resultRevision).getD resultRevision) catalog :=
    ⟨hkept.row.put hverdict, hkept.catalog⟩
  exact ⟨_, catalog, h.invariant_from hput hindexed hrest⟩

/-- In every interleaving, publishing again what was published commits nothing exactly when its rows
are current, and the revisions of calls that publish it again are where they were not. -/
theorem republish_noop_iff [DecidableEq ι] (calls : ι → CatalogCall ρ κ)
    (repository : Repository ι Unit (IndexDataset ρ κ) PublisherError CatalogAnswer)
    (h : (catalogCalls calls).Reachable repository)
    (before after : List (Revision ι Unit (IndexDataset ρ κ)))
    (heq : repository.revisions = before ++ after) (publication : ResultPublication ρ κ)
    (resultDataset : String)
    (hpublished : ∃ revision ∈ before, PublishedBy calls publication resultDataset revision) :
    ∃ indexedRevision catalog,
      IndexedAs ((catalogCalls calls).document before) publication resultDataset indexedRevision
        catalog ∧
      (∀ resultRevision,
        (∀ next answer, (CatalogCall.publish publication resultDataset resultRevision).verdict
          ((catalogCalls calls).document before) ≠ .put next answer) ↔
        Current ((catalogCalls calls).document before)
          (buildGlobalIndexRow publication resultDataset indexedRevision) catalog) ∧
      ∀ revision rest, after = revision :: rest →
        PublishedBy calls publication resultDataset revision →
        ¬ Current ((catalogCalls calls).document before)
          (buildGlobalIndexRow publication resultDataset indexedRevision) catalog := by
  have hsound := h.sound
  obtain ⟨indexedRevision, catalog, hindexed⟩ := exists_indexedAs hsound heq hpublished
  have hiff (resultRevision : String) :
      (∀ next answer, (CatalogCall.publish publication resultDataset resultRevision).verdict
        ((catalogCalls calls).document before) ≠ .put next answer) ↔
      Current ((catalogCalls calls).document before)
        (buildGlobalIndexRow publication resultDataset indexedRevision) catalog := by
    obtain ⟨next, hpublish, hnone⟩ := publishIndex_of_indexedAs (CatalogKept.document hsound heq)
      (Filed.document hsound heq) hindexed resultRevision
    rw [← hnone]
    simp only [CatalogCall.verdict, hpublish]
    cases next with
    | none => simp
    | some next => simp
  refine ⟨indexedRevision, catalog, hindexed, hiff, ?_⟩
  rintro revision rest rfl hby hcurrent
  obtain ⟨resultRevision, answer, hput⟩ := hby.verdict (hsound.authored before revision rest heq)
  exact (hiff resultRevision).mpr hcurrent _ _ hput

end Current

section Replaced

local instance replacedRowDigest : RowDigest Unit :=
  ⟨fun rows ↦ if rows.isEmpty then "" else "digest"⟩

/-- A publication of the run. -/
def runPublication (publicationId : String) (completedAt : ℕ) : ResultPublication Unit Unit :=
  { publicationId
    runId := "run"
    publicationRole := .final
    completedAt
    indexColumns := ()
    projection := some ⟨"projection.json", "{}"⟩
    catalogColumns := fun _ ↦ .ok () }

def olderRow : Row Unit := ⟨"older", "run", .final, 1, "dataset", "revision", ()⟩

def newerRow : Row Unit := ⟨"newer", "run", .final, 2, "dataset", "revision", ()⟩

/-- A publication and a newer one of the same run. -/
def replacedCalls : Bool → CatalogCall Unit Unit
  | false => .publish (runPublication "older" 1) "dataset" "revision"
  | true => .publish (runPublication "newer" 2) "dataset" "revision"

/-- The index Dataset with the row in all windows. -/
def withRow (dataset : IndexDataset Unit Unit) (receipt : Option IndexReceipt) (row : Row Unit) :
    IndexDataset Unit Unit :=
  dataset.indexed receipt row row (windowFiles id [row])
    (windowFiles (fun size ↦ (CatalogScope.audit, size)) [row] ++
      windowFiles (fun size ↦ (CatalogScope.primary, size)) [row])

def olderDataset : IndexDataset Unit Unit := withRow {} none olderRow

def newerDataset : IndexDataset Unit Unit := withRow olderDataset none newerRow

def replacedRepository : Repository Bool Unit (IndexDataset Unit Unit) PublisherError CatalogAnswer :=
  ⟨[⟨some (false, ()), olderDataset⟩, ⟨some (true, ()), newerDataset⟩],
    Function.update (Function.update (fun _ ↦ .idle 8) false
      (.finished (.ok (.indexed "revision")))) true (.finished (.ok (.indexed "revision")))⟩

theorem reachable_replacedRepository :
    (catalogCalls replacedCalls).Reachable replacedRepository := by
  have holder : (replacedCalls false).verdict {} = .put olderDataset (.indexed "revision") := by
    decide +kernel
  have hnewer : (replacedCalls true).verdict olderDataset = .put newerDataset (.indexed "revision") :=
    by decide +kernel
  have hfirst : (catalogCalls replacedCalls).Steps (catalogCalls replacedCalls).start
      ⟨[⟨some (false, ()), olderDataset⟩],
        Function.update (fun _ ↦ .idle 8) false (.finished (.ok (.indexed "revision")))⟩ :=
    Calls.Steps.put (show _ = Stage.idle (7 + 1) from rfl) holder
  exact hfirst.trans (Calls.Steps.put (show _ = Stage.idle (7 + 1) from rfl) hnewer)

/-- A state to which `republish_noop_iff` applies: the older publication, before the newer one. -/
theorem republish_noop_iff_older : ∃ indexedRevision catalog,
      IndexedAs olderDataset (runPublication "older" 1) "dataset" indexedRevision catalog ∧
      ∀ resultRevision,
        (∀ next answer, (CatalogCall.publish (runPublication "older" 1) "dataset"
          resultRevision).verdict olderDataset ≠ .put next answer) ↔
        Current olderDataset
          (buildGlobalIndexRow (runPublication "older" 1) "dataset" indexedRevision) catalog := by
  obtain ⟨indexedRevision, catalog, hindexed, hiff, -⟩ := republish_noop_iff replacedCalls _
    reachable_replacedRepository [⟨some (false, ()), olderDataset⟩]
    [⟨some (true, ()), newerDataset⟩] rfl (runPublication "older" 1) "dataset"
    ⟨_, List.mem_singleton_self _, false, "revision", rfl, rfl⟩
  exact ⟨indexedRevision, catalog, hindexed, hiff⟩

/-- After the newer publication of the run, publishing the older one again commits and puts its row
in the place of the newer one. -/
theorem republish_replaces : (catalogCalls replacedCalls).Reachable replacedRepository ∧
      (∃ revision ∈ replacedRepository.revisions,
        PublishedBy replacedCalls (runPublication "older" 1) "dataset" revision) ∧
      (catalogCalls replacedCalls).document replacedRepository.revisions = newerDataset ∧
      newerDataset.catalogRows .primary = [newerRow] ∧
      ∃ next, (CatalogCall.publish (runPublication "older" 1) "dataset" "revision").verdict
          newerDataset = .put next (.indexed "revision") ∧
        next.catalogRows .primary = [olderRow] := by
  refine ⟨reachable_replacedRepository,
    ⟨_, List.mem_cons_self, false, "revision", rfl, rfl⟩, rfl, by decide +kernel,
    withRow newerDataset (some (indexReceipt olderRow)) olderRow, ?_, ?_⟩
  · decide +kernel
  · decide +kernel

end Replaced

end HarborHF.Hub
