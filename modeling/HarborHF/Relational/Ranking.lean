import HarborHF.Relational.Dict
import HarborHF.Relational.Order

/-!
# Rankings

A ranking holds the first rows of an order, one for each name. It is rebuilt from the ranking before:
its rows go into a dictionary under their names, a row is put in the place of the row with its name,
and the first `n` values are taken (`Ranked.top`). Where the order tells the rows apart, putting a
row into a ranking leaves it as it is exactly when it has the row already, or is full of other rows
that come before it (`top_replace_eq_iff`).
-/

set_option autoImplicit false

namespace Relational

variable {α κ : Type} [DecidableEq κ] {name : α → κ} {order : α → α → Prop} [DecidableRel order]

namespace Dict

variable {υ : Type} {key : κ} {value : υ} {dict : Dict κ υ}

/-- Setting a key moves its entry at most. -/
theorem perm_set (h : dict.keys.Nodup) :
    (dict.set key value).Perm ((key, value) :: dict.erase key) := by
  induction dict with
  | nil => exact .refl _
  | cons entry rest ih =>
    obtain ⟨first, old⟩ := entry
    simp only [keys, List.map_cons, List.nodup_cons] at h
    by_cases hkey : first = key
    · subst hkey
      have hrest : erase rest first = rest := by
        refine erase_of_get?_eq_none (get?_eq_none_iff.mpr ?_)
        exact h.1
      simp only [set, if_pos]
      rw [show erase ((first, old) :: rest) first = erase rest first by simp [erase], hrest]
    · simp only [set, if_neg hkey]
      rw [show erase ((first, old) :: rest) key = (first, old) :: erase rest key by
        simp [erase, hkey]]
      exact ((ih h.2).cons _).trans (.swap _ _ _)

/-- The rows of the dictionary are under their names. -/
structure Named (name : α → κ) (dict : Dict κ α) : Prop where
  keys : dict.keys.Nodup
  names : ∀ entry ∈ dict, entry.1 = name entry.2

variable {rows : Dict κ α} {row : α}

omit [DecidableEq κ] in
theorem Named.nil : Named name ([] : Dict κ α) := ⟨List.nodup_nil, nofun⟩

theorem Named.set (h : Named name rows) : Named name (rows.set (name row) row) := by
  refine ⟨nodup_keys_set h.keys, fun entry hentry ↦ ?_⟩
  rcases List.mem_cons.mp ((perm_set h.keys).mem_iff.mp hentry) with rfl | hold
  · rfl
  · exact h.names entry (List.mem_of_mem_filter hold)

omit [DecidableEq κ] in
theorem Named.filter (h : Named name rows) (keep : κ × α → Bool) :
    Named name (List.filter keep rows) where
  keys := h.keys.sublist (List.filter_sublist.map Prod.fst)
  names entry hentry := h.names entry (List.mem_of_mem_filter hentry)

omit [DecidableEq κ] in
theorem Named.map_values (h : Named name rows) : rows.values.map name = rows.keys := by
  simp only [values, Dict.keys, List.map_map]
  exact List.map_congr_left fun entry hentry ↦ (h.names entry hentry).symm

theorem Named.values_erase (h : Named name rows) :
    (rows.erase key).values = rows.values.filter fun row ↦ decide (name row ≠ key) := by
  simp only [values, erase, List.filter_map]
  congr 1
  refine List.filter_congr fun entry hentry ↦ ?_
  simp [h.names entry hentry]

omit [DecidableEq κ] in
theorem Named.nodup (h : Named name rows) : (rows.values.map name).Nodup :=
  h.map_values ▸ h.keys

end Dict

/-! ### Rankings -/

/-- At most `n` rows in their order, one for each name. -/
structure Ranked (name : α → κ) (order : α → α → Prop) (n : ℕ) (rows : List α) : Prop where
  sorted : rows.Pairwise order
  names : (rows.map name).Nodup
  length_le : rows.length ≤ n

omit [DecidableEq κ] [DecidableRel order] in
theorem Ranked.take {n : ℕ} {rows : List α} (h : Ranked name order n rows) (size : ℕ) :
    Ranked name order size (rows.take size) where
  sorted := h.sorted.sublist (List.take_sublist size rows)
  names := h.names.sublist ((List.take_sublist size rows).map name)
  length_le := List.length_take_le size rows

/-- The rows by their names. -/
def byName (name : α → κ) (rows : List α) : Dict κ α :=
  rows.foldl (fun dict row ↦ dict.set (name row) row) []

/-- The first values of a dictionary. -/
def top (order : α → α → Prop) [DecidableRel order] (n : ℕ) (dict : Dict κ α) : List α :=
  (dict.values.insertionSort order).take n

/-- The rows by their names with a row in the place of the one with its name; of rows with one name
the first in the order stays. -/
def replace (name : α → κ) (order : α → α → Prop) [DecidableRel order] (rows : List α) (row : α) :
    Dict κ α :=
  (byName name (rows.insertionSort fun first second ↦ order second first)).set (name row) row

variable {n : ℕ} {rows : List α} {row other : α} {dict : Dict κ α}

theorem named_foldl_set (h : dict.Named name) :
    (rows.foldl (fun dict row ↦ dict.set (name row) row) dict).Named name := by
  induction rows generalizing dict with
  | nil => exact h
  | cons row rest ih => exact ih h.set

theorem named_byName : (byName name rows).Named name := named_foldl_set Dict.Named.nil

theorem named_replace : (replace name order rows row).Named name := named_byName.set

/-- Rows with different names stay as they are listed. -/
theorem values_byName (h : (rows.map name).Nodup) : (byName name rows).values = rows := by
  induction rows using List.reverseRecOn with
  | nil => rfl
  | append_singleton rest last ih =>
    rw [List.map_append, List.map_singleton, List.nodup_append] at h
    obtain ⟨hrest, -, hlast⟩ := h
    have hkeys : (byName name rest).keys = rest.map name := by
      rw [← named_byName.map_values, ih hrest]
    have hnew : (byName name rest).get? (name last) = none := by
      rw [Dict.get?_eq_none_iff, hkeys]
      intro hmem
      exact hlast _ hmem _ (by simp) rfl
    have hset : byName name (rest ++ [last]) = byName name rest ++ [(name last, last)] := by
      rw [← Dict.set_of_get?_eq_none hnew]
      simp [byName]
    rw [hset]
    have hvalues := ih hrest
    simp only [Dict.values] at hvalues ⊢
    simp [hvalues]

/-- A value of the dictionary is one of the rows. -/
theorem mem_values_byName (h : row ∈ (byName name rows).values) : row ∈ rows := by
  induction rows using List.reverseRecOn with
  | nil => exact h
  | append_singleton rest last ih =>
    have hset : byName name (rest ++ [last]) = (byName name rest).set (name last) last := by
      simp [byName]
    rw [hset] at h
    rcases Dict.mem_values_set h with rfl | hold
    · simp
    · exact List.mem_append_left _ (ih hold)

theorem get?_byName {key : κ} (h : (byName name rows).get? key = some row) :
    row ∈ rows ∧ name row = key :=
  ⟨mem_values_byName (Dict.mem_values_of_get?_eq_some h),
    (named_byName.names _ (Dict.mem_of_get?_eq_some h)).symm⟩

/-- No row is lost exactly when the names differ. -/
theorem nodup_of_length_byName (h : (byName name rows).length = rows.length) :
    (rows.map name).Nodup := by
  have hnamed : (byName name rows).Named name := named_byName
  have hsubset : (byName name rows).keys ⊆ rows.map name := by
    rw [← hnamed.map_values]
    intro key hkey
    obtain ⟨row, hrow, rfl⟩ := List.mem_map.mp hkey
    exact List.mem_map_of_mem (mem_values_byName hrow)
  have hlength : (byName name rows).keys.length = (rows.map name).length := by
    simpa [Dict.keys] using h
  have hperm : (byName name rows).keys.Perm (rows.map name) :=
    (List.subperm_of_subset hnamed.keys hsubset).perm_of_length_le hlength.ge
  exact hperm.nodup_iff.mp hnamed.keys

/-- What is put with the row are other rows. -/
theorem mem_values_replace (h : other ∈ (replace name order rows row).values) :
    other = row ∨ (other ∈ rows ∧ name other ≠ name row) := by
  obtain ⟨key, hentry⟩ := Dict.mem_values_iff.mp h
  have hperm : (replace name order rows row).Perm _ := Dict.perm_set named_byName.keys
  rcases List.mem_cons.mp (hperm.mem_iff.mp hentry) with heq | hold
  · cases heq
    exact .inl rfl
  · obtain ⟨hmem, hkey⟩ := List.mem_filter.mp hold
    have hvalue : other ∈ (byName name
        (rows.insertionSort fun first second ↦ order second first)).values :=
      Dict.mem_values_iff.mpr ⟨key, hmem⟩
    have hname : key = name other := named_byName.names _ hmem
    refine .inr ⟨(List.mem_insertionSort _).mp (mem_values_byName hvalue), ?_⟩
    rw [← hname]
    simpa using hkey

omit [DecidableEq κ] in
theorem mem_values_of_mem_top (h : row ∈ top order n dict) : row ∈ dict.values :=
  (List.mem_insertionSort _).mp (List.mem_of_mem_take h)

section Top

variable [Std.Total order] [IsTrans α order]

omit [DecidableEq κ] in
theorem Ranked.top (h : dict.Named name) : Ranked name order n (top order n dict) where
  sorted := (List.pairwise_insertionSort order _).sublist (List.take_sublist n _)
  names := by
    have hall : ((dict.values.insertionSort order).map name).Nodup :=
      ((List.perm_insertionSort order _).map name).nodup_iff.mpr h.nodup
    exact hall.sublist ((List.take_sublist n _).map name)
  length_le := List.length_take_le n _

omit [Std.Total order] [IsTrans α order] in
theorem Ranked.top_byName (h : Ranked name order n rows) :
    Relational.top order n (byName name rows) = rows := by
  unfold Relational.top
  rw [values_byName h.names, h.sorted.insertionSort_eq, List.take_of_length_le h.length_le]

omit [Std.Total order] [IsTrans α order] in
theorem perm_values_replace (h : (rows.map name).Nodup) : (replace name order rows row).values.Perm
      (row :: rows.filter fun other ↦ decide (name other ≠ name row)) := by
  have hperm := List.perm_insertionSort (fun first second ↦ order second first) rows
  have hnames : ((rows.insertionSort fun first second ↦ order second first).map name).Nodup :=
    (hperm.map name).nodup_iff.mpr h
  have hset : (replace name order rows row).Perm _ := Dict.perm_set named_byName.keys
  have herased : (Dict.erase (byName name
      (rows.insertionSort fun first second ↦ order second first)) (name row)).values =
      (rows.insertionSort fun first second ↦ order second first).filter
        fun other ↦ decide (name other ≠ name row) := by
    rw [named_byName.values_erase, values_byName hnames]
  refine (hset.map Prod.snd).trans ?_
  rw [List.map_cons]
  have hrest := herased ▸ hperm.filter fun other ↦ decide (name other ≠ name row)
  exact hrest.cons row

/-- A row leaves the ranking as it is exactly when it is there, or when the ranking is full of rows
of other names that come before it. -/
theorem top_replace_eq_iff (h : Ranked name order n rows)
    (hordered : Ordered order (row :: rows.filter fun other ↦ decide (name other ≠ name row))) :
    Relational.top order n (replace name order rows row) = rows ↔
      row ∈ rows ∨ ((∀ other ∈ rows, name other ≠ name row) ∧ rows.length = n ∧
        ∀ other ∈ rows, order other row) := by
  have hperm : (replace name order rows row).values.Perm _ := perm_values_replace h.names
  have hsorted := List.pairwise_insertionSort order (replace name order rows row).values
  have hsame : ((replace name order rows row).values.insertionSort order).Perm _ :=
    (List.perm_insertionSort order _).trans hperm
  constructor
  · intro htop
    by_cases hrow : row ∈ rows
    · exact .inl hrow
    · refine .inr ?_
      have hfirst (other : α) (hother : other ∈ rows) :
          other ∈ Relational.top order n (replace name order rows row) := by
        rw [htop]
        exact hother
      have hmem : row ∈ (replace name order rows row).values.insertionSort order :=
        hsame.mem_iff.mpr List.mem_cons_self
      -- the row comes behind the first rows
      rw [← List.take_append_drop n ((replace name order rows row).values.insertionSort order)]
        at hmem hsorted
      have hdrop : row ∈ ((replace name order rows row).values.insertionSort order).drop n := by
        rcases List.mem_append.mp hmem with htake | hdrop
        · exact absurd (htop ▸ htake) hrow
        · exact hdrop
      refine ⟨fun other hother ↦ ?_, ?_, fun other hother ↦ ?_⟩
      · have hvalue : other ∈ (replace name order rows row).values :=
          mem_values_of_mem_top (hfirst other hother)
        rcases mem_values_replace hvalue with rfl | hne
        · exact absurd hother hrow
        · exact hne.2
      · have hlength : n < ((replace name order rows row).values.insertionSort order).length := by
          have hpos := List.length_pos_of_mem hdrop
          rw [List.length_drop] at hpos
          omega
        rw [← htop]
        exact List.length_take_of_le hlength.le
      · exact (List.pairwise_append.mp hsorted).2.2 other (hfirst other hother) row hdrop
  · intro hcases
    unfold Relational.top
    have hunique {target : List α} (htarget : target.Pairwise order)
        (htargetPerm : target.Perm
          (row :: rows.filter fun other ↦ decide (name other ≠ name row))) :
        (replace name order rows row).values.insertionSort order = target :=
      (hsame.trans htargetPerm.symm).eq_of_pairwise
        (fun first second hfirst hsecond ↦ hordered first (hsame.mem_iff.mp hfirst) second
          (htargetPerm.mem_iff.mp hsecond)) hsorted htarget
    rcases hcases with hrow | ⟨hothers, hlength, hbefore⟩
    · -- the row is there, and the rows of other names are the others
      have hrows : rows.Perm
          (row :: rows.filter fun other ↦ decide (name other ≠ name row)) := by
        obtain ⟨before, after, rfl⟩ := List.append_of_mem hrow
        have hnames := h.names
        rw [List.map_append, List.map_cons, List.nodup_append, List.nodup_cons] at hnames
        have hkeep (others : List α) (hne : ∀ other ∈ others, name other ≠ name row) :
            others.filter (fun other ↦ decide (name other ≠ name row)) = others := by
          rw [List.filter_eq_self]
          exact fun other hother ↦ decide_eq_true (hne other hother)
        have hbefore := hkeep before fun other hother ↦
          hnames.2.2 _ (List.mem_map_of_mem hother) _ List.mem_cons_self
        have hafter := hkeep after fun other hother hsame ↦
          hnames.2.1.1 (hsame ▸ List.mem_map_of_mem hother)
        rw [List.filter_append, List.filter_cons_of_neg (by simp), hbefore, hafter]
        exact List.perm_middle
      rw [hunique h.sorted hrows, List.take_of_length_le h.length_le]
    · have hfilter : rows.filter (fun other ↦ decide (name other ≠ name row)) = rows := by
        rw [List.filter_eq_self]
        exact fun other hother ↦ decide_eq_true (hothers other hother)
      have hlast : (rows ++ [row]).Pairwise order := by
        rw [List.pairwise_append]
        refine ⟨h.sorted, List.pairwise_singleton _ _, fun other hother last hlast ↦ ?_⟩
        rw [List.mem_singleton.mp hlast]
        exact hbefore other hother
      rw [hunique hlast (by rw [hfilter]; exact List.perm_append_singleton row rows), ← hlength,
        List.take_left]

end Top

end Relational
