import Mathlib.Data.List.Induction
import Mathlib.Data.List.Nodup
import Mathlib.Tactic.Common
import HarborHF.Relational.Fold

/-!
# Dictionaries in insertion order

A `Dict` maps keys to values and remembers the order in which its keys were first set. Setting a key
that is there changes its value in place, so a loop over the values sees them in a fixed order. The
lemmas say what `set` and `erase` do to a lookup and to the keys, and that they commute at different
keys.
-/

set_option autoImplicit false

namespace Relational

/-- A dictionary: its entries in the order in which their keys were first set. -/
abbrev Dict (κ υ : Type) := List (κ × υ)

namespace Dict

variable {κ υ : Type} [DecidableEq κ] {key other : κ} {value : υ} {dict : Dict κ υ}

/-- The value of a key. -/
def get? : Dict κ υ → κ → Option υ
  | [], _ => none
  | (first, value) :: rest, key => if first = key then some value else get? rest key

/-- Set a key, in place if it is there. -/
def set : Dict κ υ → κ → υ → Dict κ υ
  | [], key, value => [(key, value)]
  | (first, old) :: rest, key, value =>
    if first = key then (key, value) :: rest else (first, old) :: set rest key value

/-- Remove a key. -/
def erase (dict : Dict κ υ) (key : κ) : Dict κ υ := dict.filter fun entry ↦ entry.1 ≠ key

/-- The keys in their order. -/
def keys (dict : Dict κ υ) : List κ := dict.map Prod.fst

/-- The values in the order of their keys. -/
def values (dict : Dict κ υ) : List υ := dict.map Prod.snd

@[simp] theorem get?_nil : get? ([] : Dict κ υ) key = none := rfl

@[simp] theorem get?_set_self : (dict.set key value).get? key = some value := by
  induction dict with
  | nil => simp [set, get?]
  | cons entry rest ih =>
    obtain ⟨first, old⟩ := entry
    by_cases h : first = key
    · simp [set, get?, h]
    · simp [set, get?, h, ih]

theorem get?_set_of_ne (h : other ≠ key) : (dict.set key value).get? other = dict.get? other := by
  induction dict with
  | nil => simp [set, get?, h.symm]
  | cons entry rest ih =>
    obtain ⟨first, old⟩ := entry
    by_cases hfirst : first = key
    · subst hfirst
      simp [set, get?, h.symm]
    · simp only [set, if_neg hfirst, get?, ih]

@[simp] theorem get?_erase_self : (dict.erase key).get? key = none := by
  induction dict with
  | nil => rfl
  | cons entry rest ih =>
    by_cases h : entry.1 = key
    · simpa [erase, h] using ih
    · simpa [erase, h, get?] using ih

theorem get?_erase_of_ne (h : other ≠ key) : (dict.erase key).get? other = dict.get? other := by
  induction dict with
  | nil => rfl
  | cons entry rest ih =>
    obtain ⟨first, old⟩ := entry
    by_cases hfirst : first = key
    · subst hfirst
      simpa [erase, get?, h.symm] using ih
    · by_cases hother : first = other
      · simp [erase, get?, hother, h]
      · simpa [erase, get?, hfirst, hother] using ih

theorem erase_set_self : (dict.set key value).erase key = dict.erase key := by
  induction dict with
  | nil => simp [set, erase]
  | cons entry rest ih =>
    obtain ⟨first, old⟩ := entry
    by_cases h : first = key
    · simp [set, erase, h]
    · simpa [set, erase, h] using ih

theorem erase_set_of_ne (h : other ≠ key) :
    (dict.set other value).erase key = (dict.erase key).set other value := by
  induction dict with
  | nil => simp [set, erase, h]
  | cons entry rest ih =>
    obtain ⟨first, old⟩ := entry
    by_cases hother : first = other
    · subst hother
      simp [set, erase, h]
    · by_cases hkey : first = key
      · subst hkey
        simpa [set, erase, hother] using ih
      · simpa [set, erase, hother, hkey] using ih

theorem get?_isSome_iff : (dict.get? key).isSome = true ↔ key ∈ dict.keys := by
  induction dict with
  | nil => simp [keys]
  | cons entry rest ih =>
    obtain ⟨first, old⟩ := entry
    by_cases h : first = key
    · simp [get?, keys, h]
    · simp only [get?, if_neg h, keys, List.map_cons, List.mem_cons, Ne.symm h, false_or]
      exact ih

theorem get?_eq_none_iff : dict.get? key = none ↔ key ∉ dict.keys := by
  rw [← get?_isSome_iff, Option.not_isSome_iff_eq_none]

theorem mem_of_get?_eq_some (h : dict.get? key = some value) : (key, value) ∈ dict := by
  induction dict with
  | nil => cases h
  | cons entry rest ih =>
    obtain ⟨first, old⟩ := entry
    by_cases hfirst : first = key
    · simp only [get?, if_pos hfirst, Option.some.injEq] at h
      rw [hfirst, h]
      exact List.mem_cons_self
    · simp only [get?, if_neg hfirst] at h
      exact List.mem_cons_of_mem _ (ih h)

theorem keys_set :
    (dict.set key value).keys = if key ∈ dict.keys then dict.keys else dict.keys ++ [key] := by
  induction dict with
  | nil => simp [set, keys]
  | cons entry rest ih =>
    obtain ⟨first, old⟩ := entry
    by_cases h : first = key
    · simp [set, keys, h]
    · simp only [keys] at ih
      simp only [set, if_neg h, keys, List.map_cons, List.mem_cons, Ne.symm h, false_or, ih]
      by_cases hmem : key ∈ rest.map Prod.fst
      · simp [hmem]
      · simp [hmem]

/-- Setting a key keeps the keys different. -/
theorem nodup_keys_set (h : dict.keys.Nodup) : (dict.set key value).keys.Nodup := by
  rw [keys_set]
  by_cases hmem : key ∈ dict.keys
  · rwa [if_pos hmem]
  · rw [if_neg hmem]
    exact List.nodup_append.mpr ⟨h, List.nodup_singleton key, by
      intro first hfirst second hsecond heq
      rw [List.mem_singleton] at hsecond
      exact hmem (hsecond ▸ heq ▸ hfirst)⟩

theorem get?_eq_some_iff (h : dict.keys.Nodup) :
    dict.get? key = some value ↔ (key, value) ∈ dict := by
  refine ⟨mem_of_get?_eq_some, fun hmem ↦ ?_⟩
  induction dict with
  | nil => cases hmem
  | cons entry rest ih =>
    obtain ⟨first, old⟩ := entry
    obtain ⟨hfirst, hrest⟩ := List.nodup_cons.mp h
    rcases List.mem_cons.mp hmem with heq | htail
    · obtain ⟨rfl, rfl⟩ := Prod.mk.injEq .. ▸ heq
      simp [get?]
    · have hne : first ≠ key := by
        have hkey : key ∈ rest.map Prod.fst := List.mem_map.mpr ⟨_, htail, rfl⟩
        intro heq
        exact hfirst (heq ▸ hkey)
      simp only [get?, if_neg hne]
      exact ih hrest htail

theorem set_of_get?_eq_none (h : dict.get? key = none) :
    dict.set key value = dict ++ [(key, value)] := by
  induction dict with
  | nil => rfl
  | cons entry rest ih =>
    obtain ⟨first, old⟩ := entry
    by_cases hfirst : first = key
    · simp [get?, hfirst] at h
    · simp only [get?, if_neg hfirst] at h
      simp only [set, if_neg hfirst, List.cons_append, ih h]

theorem get?_append (first second : Dict κ υ) (key : κ) :
    get? (first ++ second) key = (first.get? key).or (second.get? key) := by
  induction first with
  | nil => rfl
  | cons entry rest ih =>
    obtain ⟨name, former⟩ := entry
    by_cases hname : name = key
    · simp [get?, hname]
    · simp only [List.cons_append, get?, if_neg hname, ih]

theorem set_append_of_get?_eq_none {old : υ} (h : dict.get? key = none) :
    set (dict ++ [(key, old)]) key value = dict ++ [(key, value)] := by
  induction dict with
  | nil => simp [set]
  | cons entry rest ih =>
    obtain ⟨name, former⟩ := entry
    by_cases hname : name = key
    · simp [get?, hname] at h
    · simp only [get?, if_neg hname] at h
      simp only [List.cons_append, set, if_neg hname, ih h]

theorem set_of_get?_eq_some (h : dict.get? key = some value) : dict.set key value = dict := by
  induction dict with
  | nil => cases h
  | cons entry rest ih =>
    obtain ⟨first, old⟩ := entry
    by_cases hfirst : first = key
    · simp only [get?, if_pos hfirst, Option.some.injEq] at h
      simp [set, hfirst, h]
    · simp only [get?, if_neg hfirst] at h
      simp only [set, if_neg hfirst, ih h]

theorem erase_of_get?_eq_none (h : dict.get? key = none) : dict.erase key = dict := by
  rw [get?_eq_none_iff] at h
  unfold erase
  rw [List.filter_eq_self]
  intro entry hentry
  have hne : entry.1 ≠ key := fun heq ↦ h (heq ▸ List.mem_map.mpr ⟨entry, hentry, rfl⟩)
  simpa using hne

theorem get?_set :
    (dict.set key value).get? other = if other = key then some value else dict.get? other := by
  by_cases h : other = key
  · rw [if_pos h, h, get?_set_self]
  · rw [if_neg h, get?_set_of_ne h]

theorem keys_set_of_get?_eq_some {old : υ} (h : dict.get? key = some old) :
    (dict.set key value).keys = dict.keys := by
  rw [keys_set, if_pos (get?_isSome_iff.mp (by rw [h]; rfl))]

omit [DecidableEq κ] in
theorem mem_values_iff : value ∈ dict.values ↔ ∃ key, (key, value) ∈ dict := by
  simp [values]

theorem mem_values_of_get?_eq_some (h : dict.get? key = some value) : value ∈ dict.values :=
  mem_values_iff.mpr ⟨key, mem_of_get?_eq_some h⟩

theorem mem_values_set {value' : υ} (h : value' ∈ (dict.set key value).values) :
    value' = value ∨ value' ∈ dict.values := by
  induction dict with
  | nil =>
    simp only [set, values, List.map_cons, List.map_nil, List.mem_singleton] at h
    exact .inl h
  | cons entry rest ih =>
    obtain ⟨first, old⟩ := entry
    by_cases hfirst : first = key
    · simp only [set, if_pos hfirst, values, List.map_cons, List.mem_cons] at h
      exact h.imp id (List.mem_cons_of_mem _)
    · simp only [set, if_neg hfirst, values, List.map_cons, List.mem_cons] at h
      rcases h with rfl | hrest
      · exact .inr List.mem_cons_self
      · exact (ih hrest).imp id (List.mem_cons_of_mem _)

theorem exists_get?_of_mem_values (h : dict.keys.Nodup) (hvalue : value ∈ dict.values) :
    ∃ key, dict.get? key = some value := by
  obtain ⟨key, hkey⟩ := mem_values_iff.mp hvalue
  exact ⟨key, (get?_eq_some_iff h).mpr hkey⟩

/-! ### Dictionaries that are built or mapped entry by entry -/

/-- Setting a key exchanges its value for another in a count of the values. -/
theorem countP_set (dict : Dict κ υ) (key : κ) (value : υ) (p : υ → Bool) :
    (dict.set key value).countP (fun entry ↦ p entry.2) +
        (if (dict.get? key).any p then 1 else 0) =
      dict.countP (fun entry ↦ p entry.2) + if p value then 1 else 0 := by
  induction dict with
  | nil => simp [set, List.countP_cons]
  | cons entry rest ih =>
    obtain ⟨first, before⟩ := entry
    by_cases hfirst : first = key
    · rw [get?, if_pos hfirst, set, if_pos hfirst, List.countP_cons, List.countP_cons,
        Option.any_some]
      dsimp only
      omega
    · rw [get?, if_neg hfirst, set, if_neg hfirst, List.countP_cons, List.countP_cons]
      omega

section

variable {α : Type} {name : α → κ} {record : α → υ} {list : List α}

theorem nodup_keys_foldl_set (h : dict.keys.Nodup) :
    (list.foldl (fun dict entry ↦ dict.set (name entry) (record entry)) dict).keys.Nodup := by
  induction list generalizing dict with
  | nil => exact h
  | cons entry rest ih => exact ih (nodup_keys_set h)

/-- The value of a key is that of the last entry with it. -/
theorem get?_foldl_set :
    (list.foldl (fun dict entry ↦ dict.set (name entry) (record entry)) dict).get? key =
      ((list.filter fun entry ↦ name entry = key).getLast?.map record).or (dict.get? key) := by
  induction list using List.reverseRecOn with
  | nil => simp
  | append_singleton list entry ih =>
    rw [List.foldl_append, List.foldl_cons, List.foldl_nil, get?_set, ih, List.filter_append]
    by_cases h : name entry = key
    · simp [h]
    · simp [h, Ne.symm h]

omit [DecidableEq κ] in
/-- With different names the other entries have other names. -/
theorem exists_append_of_nodup (h : (list.map name).Nodup) {entry : α} (hentry : entry ∈ list) :
    ∃ before after, list = before ++ entry :: after ∧
      (∀ other ∈ before, name other ≠ name entry) ∧ ∀ other ∈ after, name other ≠ name entry := by
  obtain ⟨before, after, rfl⟩ := List.append_of_mem hentry
  rw [List.map_append, List.map_cons, List.nodup_append, List.nodup_cons] at h
  obtain ⟨-, ⟨hafter, -⟩, hbefore⟩ := h
  refine ⟨before, after, rfl, fun other hother ↦ ?_, fun other hother heq ↦ ?_⟩
  · exact hbefore (name other) (List.mem_map_of_mem hother) (name entry) List.mem_cons_self
  · exact hafter (heq ▸ List.mem_map_of_mem hother)

theorem filter_name_of_nodup (h : (list.map name).Nodup) {entry : α} (hentry : entry ∈ list) :
    (list.filter fun other ↦ name other = name entry) = [entry] := by
  obtain ⟨before, after, rfl, hbefore, hafter⟩ := exists_append_of_nodup h hentry
  have hnone (others : List α) (hothers : ∀ other ∈ others, name other ≠ name entry) :
      (others.filter fun other ↦ name other = name entry) = [] := by
    rw [List.filter_eq_nil_iff]
    simpa using hothers
  rw [List.filter_append, List.filter_cons_of_pos (by simp), hnone before hbefore,
    hnone after hafter]
  rfl

omit [DecidableEq κ] in
/-- What only one name has rows for are the rows of its entry. -/
theorem flatMap_of_nodup (h : (list.map name).Nodup) {entry : α} (hentry : entry ∈ list)
    {rows : α → List υ} (hrows : ∀ other ∈ list, name other ≠ name entry → rows other = []) :
    list.flatMap rows = rows entry := by
  obtain ⟨before, after, rfl, hbefore, hafter⟩ := exists_append_of_nodup h hentry
  have hnone (others : List α) (hsub : ∀ other ∈ others, other ∈ before ++ entry :: after)
      (hothers : ∀ other ∈ others, name other ≠ name entry) : others.flatMap rows = [] := by
    rw [List.flatMap_eq_nil_iff]
    exact fun other hother ↦ hrows other (hsub other hother) (hothers other hother)
  rw [List.flatMap_append, List.flatMap_cons, hnone before (fun other hother ↦ List.mem_append_left
    _ hother) hbefore, hnone after (fun other hother ↦ List.mem_append_right _ (List.mem_cons_of_mem
    _ hother)) hafter, List.nil_append, List.append_nil]

theorem get?_foldl_set_of_nodup (h : (list.map name).Nodup) {entry : α} (hentry : entry ∈ list) :
    (list.foldl (fun dict entry ↦ dict.set (name entry) (record entry)) dict).get? (name entry) =
      some (record entry) := by
  rw [get?_foldl_set, filter_name_of_nodup h hentry]
  rfl

end

section

variable {ε ω : Type} {f : κ × υ → Except ε ω} {next : Dict κ ω} {result : ω}

omit [DecidableEq κ] in
/-- Mapping the values keeps the keys. -/
theorem keys_of_mapM
    (h : dict.mapM (fun entry ↦ do let result ← f entry; return (entry.1, result)) = .ok next) :
    next.keys = dict.keys := by
  have hall := mapM_eq_ok.mp h
  clear h
  induction hall with
  | nil => rfl
  | cons hhead _ ih =>
    obtain ⟨result, -, hresult⟩ := bind_eq_ok.mp hhead
    cases hresult
    simp only [keys] at ih
    simp [keys, ih]

/-- A value after mapping comes from the value before. -/
theorem get?_of_mapM
    (h : dict.mapM (fun entry ↦ do let result ← f entry; return (entry.1, result)) = .ok next) :
    next.get? key = some result ↔ ∃ value, dict.get? key = some value ∧ f (key, value) = .ok result := by
  have hall := mapM_eq_ok.mp h
  clear h
  induction hall with
  | nil => simp
  | @cons entry value rest values hhead _ ih =>
    obtain ⟨first, old⟩ := entry
    obtain ⟨mapped, hmapped, hvalue⟩ := bind_eq_ok.mp hhead
    cases hvalue
    by_cases hkey : first = key
    · subst hkey
      simp [get?, hmapped]
    · simpa [get?, hkey] using ih

end

end Dict

end Relational
