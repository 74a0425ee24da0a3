import Mathlib.Data.List.Infix
import HarborHF.Relational.Dict

/-!
# Renaming the entries of a directory tree

A directory tree as a dictionary by paths, which are lists of names. Renaming a path moves what is
below it. When the names of all paths are rewritten one path at a time, the deepest first and none over
an existing one, the tree has every name of every path rewritten.
-/

set_option autoImplicit false

namespace Relational

variable {κ υ : Type} [DecidableEq κ]

/-- The tree with a path, and what is below it, moved. -/
def rename (source destination : List κ) (tree : Dict (List κ) υ) : Dict (List κ) υ :=
  tree.map fun entry ↦
    if source <+: entry.1 then (destination ++ entry.1.drop source.length, entry.2) else entry

/-- A path after its names were rewritten at the paths that are done. -/
def moved (rewrite : κ → κ) (done : List (List κ)) : List κ → List κ → List κ
  | _, [] => []
  | before, name :: rest =>
    (if before ++ [name] ∈ done then rewrite name else name) ::
      moved rewrite done (before ++ [name]) rest

/-- The paths of a tree: each once, each with the directories above it. -/
structure Rooted (paths : List (List κ)) : Prop where
  nodup : paths.Nodup
  ne_nil : [] ∉ paths
  parent : ∀ above name, above ++ [name] ∈ paths → above ≠ [] → above ∈ paths

/-- The tree after the names were rewritten at the paths that are done, no two of them to one path. -/
structure Renamed (rewrite : κ → κ) (done : List (List κ)) (before after : Dict (List κ) υ) :
    Prop where
  entries : after = before.map fun entry ↦ (moved rewrite done [] entry.1, entry.2)
  injective : ∀ path ∈ before.keys, ∀ other ∈ before.keys,
    moved rewrite done [] path = moved rewrite done [] other → path = other

variable {rewrite : κ → κ} {done : List (List κ)} {above path other rest source : List κ} {name : κ}
  {before after : Dict (List κ) υ}

omit [DecidableEq κ] in
theorem Rooted.of_prefix {paths : List (List κ)} (hrooted : Rooted paths) (hmem : path ∈ paths)
    (hbegins : above <+: path) (hne : above ≠ []) : above ∈ paths := by
  obtain ⟨tail, rfl⟩ := hbegins
  induction tail using List.reverseRecOn with
  | nil => simpa using hmem
  | append_singleton tail name ih =>
    refine ih (hrooted.parent (above ++ tail) name (by simpa using hmem) ?_)
    simp [hne]

theorem length_moved (above path : List κ) :
    (moved rewrite done above path).length = path.length := by
  induction path generalizing above with
  | nil => rfl
  | cons name path ih => rw [moved, List.length_cons, List.length_cons, ih]

theorem moved_append (above path rest : List κ) : moved rewrite done above (path ++ rest) =
      moved rewrite done above path ++ moved rewrite done (above ++ path) rest := by
  induction path generalizing above with
  | nil => simp [moved]
  | cons name path ih => simp [moved, ih]

theorem take_moved (count : ℕ) (path : List κ) :
    (moved rewrite done [] path).take count = moved rewrite done [] (path.take count) := by
  conv_lhs => rw [← List.take_append_drop count path, moved_append]
  by_cases hle : count ≤ path.length
  · have hlength : (moved rewrite done [] (path.take count)).length = count := by
      rw [length_moved, List.length_take, Nat.min_eq_left hle]
    exact List.take_left' hlength
  · rw [List.drop_of_length_le (by omega), moved, List.append_nil, List.take_of_length_le]
    rw [length_moved, List.length_take]
    omega

/-- Names are kept where no path is done. -/
theorem moved_eq_self (h : ∀ part ≠ [], part <+: path → above ++ part ∉ done) :
    moved rewrite done above path = path := by
  induction path generalizing above with
  | nil => rfl
  | cons name path ih =>
    have hhead : above ++ [name] ∉ done := h [name] (by simp) (by simp)
    have htail : ∀ part ≠ [], part <+: path → (above ++ [name]) ++ part ∉ done := by
      intro part _ hpart
      rw [List.append_assoc]
      exact h ([name] ++ part) (by simp) (by simpa using hpart)
    rw [moved, if_neg hhead, ih htail]

/-- Names are rewritten where all paths are done. -/
theorem moved_eq_map (h : ∀ part ≠ [], part <+: path → above ++ part ∈ done) :
    moved rewrite done above path = path.map rewrite := by
  induction path generalizing above with
  | nil => rfl
  | cons name path ih =>
    have hhead : above ++ [name] ∈ done := h [name] (by simp) (by simp)
    have htail : ∀ part ≠ [], part <+: path → (above ++ [name]) ++ part ∈ done := by
      intro part _ hpart
      rw [List.append_assoc]
      exact h ([name] ++ part) (by simp) (by simpa using hpart)
    rw [moved, if_pos hhead, ih htail, List.map_cons]

/-- One more path done makes a difference at that path alone. -/
theorem moved_cons_of_not_prefix (above path : List κ)
    (h : ∀ part ≠ [], part <+: path → above ++ part ≠ source) :
    moved rewrite (source :: done) above path = moved rewrite done above path := by
  induction path generalizing above with
  | nil => rfl
  | cons name path ih =>
    have hhead : above ++ [name] ≠ source := h [name] (by simp) (by simp)
    have htail : ∀ part ≠ [], part <+: path → (above ++ [name]) ++ part ≠ source := by
      intro part _ hpart
      rw [List.append_assoc]
      exact h ([name] ++ part) (by simp) (by simpa using hpart)
    rw [moved, moved, ih _ htail]
    simp only [List.mem_cons, hhead, false_or]

/-- What is below the path of one more name. -/
theorem moved_cons_append (rewrite : κ → κ) (hdone : ∀ path ∈ done, above.length < path.length)
    (hnew : above ++ [name] ∉ done) (rest : List κ) :
    moved rewrite done [] (above ++ [name] ++ rest) =
        above ++ [name] ++ moved rewrite done (above ++ [name]) rest ∧
      moved rewrite ((above ++ [name]) :: done) [] (above ++ [name] ++ rest) =
        above ++ [rewrite name] ++ moved rewrite done (above ++ [name]) rest := by
  have habove : ∀ done' : List (List κ), (∀ path ∈ done', above.length < path.length) →
      moved rewrite done' [] above = above := by
    intro done' hdone'
    refine moved_eq_self fun part _ hpart hmem ↦ ?_
    have hlt := hdone' _ hmem
    have hle := hpart.length_le
    rw [List.nil_append] at hlt
    omega
  have hrest : moved rewrite ((above ++ [name]) :: done) (above ++ [name]) rest =
      moved rewrite done (above ++ [name]) rest := by
    refine moved_cons_of_not_prefix _ _ fun part hpart _ heq ↦ hpart ?_
    exact List.append_right_eq_self.mp heq
  constructor
  · rw [moved_append, moved_append, habove done hdone]
    simp [moved, hnew]
  · have hmore : ∀ path ∈ (above ++ [name]) :: done, above.length < path.length := by
      simpa using hdone
    rw [moved_append, moved_append, habove _ hmore, List.nil_append, List.nil_append, hrest]
    simp [moved]

/-- Nothing is done at first. -/
theorem Renamed.nil : Renamed rewrite [] before before where
  entries := by
    have hself (path : List κ) : moved rewrite [] [] path = path :=
      moved_eq_self fun _ _ _ ↦ List.not_mem_nil
    simp [hself]
  injective := by
    intro path _ other _ heq
    rwa [moved_eq_self fun _ _ _ ↦ List.not_mem_nil, moved_eq_self fun _ _ _ ↦ List.not_mem_nil]
      at heq

/-- A name that rewriting leaves. -/
theorem Renamed.skip (h : Renamed rewrite done before after) (hfixed : rewrite name = name) :
    Renamed rewrite ((above ++ [name]) :: done) before after := by
  have hsame (start path : List κ) :
      moved rewrite ((above ++ [name]) :: done) start path = moved rewrite done start path := by
    induction path generalizing start with
    | nil => rfl
    | cons first path ih =>
      rw [moved, moved, ih]
      by_cases heq : start ++ [first] = above ++ [name]
      · obtain ⟨-, hfirst⟩ := List.append_inj' heq rfl
        obtain rfl := List.singleton_inj.mp hfirst
        simp [hfixed]
      · simp only [List.mem_cons, heq, false_or]
  refine ⟨?_, ?_⟩
  · simpa only [hsame] using h.entries
  · simpa only [hsame] using h.injective

theorem Renamed.keys_eq (h : Renamed rewrite done before after) :
    after.keys = before.keys.map (moved rewrite done []) := by
  rw [h.entries]
  unfold Dict.keys
  rw [List.map_map, List.map_map]
  rfl

/-- A path whose beginning stands at an untouched path is below it. -/
theorem Renamed.prefix_of_prefix (hrooted : Rooted before.keys)
    (h : Renamed rewrite done before after) (hmem : path ∈ before.keys)
    (hother : other ∈ before.keys) (hself : moved rewrite done [] path = path)
    (hbegins : path <+: moved rewrite done [] other) : path <+: other := by
  have hne : path ≠ [] := fun hnil ↦ hrooted.ne_nil (hnil ▸ hmem)
  have hlength := hbegins.length_le
  rw [length_moved] at hlength
  have htake : moved rewrite done [] (other.take path.length) = moved rewrite done [] path := by
    rw [← take_moved, hself]
    exact (List.prefix_iff_eq_take.mp hbegins).symm
  have hpart : other.take path.length ∈ before.keys := by
    refine hrooted.of_prefix hother (List.take_prefix _ _) fun hnil ↦ ?_
    have hzero := congrArg List.length hnil
    have hpos := List.length_pos_iff.mpr hne
    rw [List.length_take] at hzero
    simp only [List.length_nil] at hzero
    omega
  exact List.prefix_iff_eq_take.mpr (h.injective _ hpart _ hmem htake).symm

/-- One more path, of those left one of the deepest, renamed to a path that is free. -/
theorem Renamed.rename (hrooted : Rooted before.keys) (h : Renamed rewrite done before after)
    (hmem : above ++ [name] ∈ before.keys) (hdone : ∀ path ∈ done, above.length < path.length)
    (hnew : above ++ [name] ∉ done) (hfree : above ++ [rewrite name] ∉ after.keys) :
    Renamed rewrite ((above ++ [name]) :: done) before
      (rename (above ++ [name]) (above ++ [rewrite name]) after) := by
  have hself : moved rewrite done [] (above ++ [name]) = above ++ [name] := by
    have hboth := (moved_cons_append rewrite hdone hnew []).1
    simpa [moved] using hboth
  -- a path that is not below stays where it is, and there is nothing at the destination
  have houtside {path : List κ} (hpath : ¬above ++ [name] <+: path) :
      moved rewrite ((above ++ [name]) :: done) [] path = moved rewrite done [] path := by
    refine moved_cons_of_not_prefix _ _ fun part _ hpart heq ↦ hpath ?_
    rw [List.nil_append] at heq
    rwa [← heq]
  have hapart {path rest : List κ} (hpath : path ∈ before.keys) :
      moved rewrite done [] path ≠ above ++ [rewrite name] ++ rest := by
    intro heq
    refine hfree ?_
    rw [h.keys_eq]
    refine List.mem_map.mpr ⟨path.take (above.length + 1), ?_, ?_⟩
    · have hlength := congrArg List.length heq
      simp only [length_moved, List.length_append, List.length_singleton] at hlength
      refine hrooted.of_prefix hpath (List.take_prefix _ _) fun hnil ↦ ?_
      have hzero := congrArg List.length hnil
      rw [List.length_take] at hzero
      simp only [List.length_nil] at hzero
      omega
    · rw [← take_moved, heq]
      exact List.take_left' (by simp)
  constructor
  · rw [h.entries]
    unfold Relational.rename
    rw [List.map_map]
    refine List.map_congr_left fun entry hentry ↦ ?_
    have hkey : entry.1 ∈ before.keys := List.mem_map.mpr ⟨entry, hentry, rfl⟩
    by_cases hbelow : above ++ [name] <+: entry.1
    · obtain ⟨rest, hrest⟩ := hbelow
      obtain ⟨hold, hmoved⟩ := moved_cons_append rewrite hdone hnew rest
      rw [hrest] at hold hmoved
      simp only [Function.comp_apply, hold, hmoved]
      rw [if_pos (List.prefix_append _ _), List.drop_left]
    · have hstays : ¬above ++ [name] <+: moved rewrite done [] entry.1 :=
        fun hbegins ↦ hbelow (h.prefix_of_prefix hrooted hmem hkey hself hbegins)
      simp only [Function.comp_apply, if_neg hstays, houtside hbelow]
  · intro path hpath other hother heq
    by_cases hbelow : above ++ [name] <+: path
    · obtain ⟨rest, rfl⟩ := hbelow
      obtain ⟨hold, hmoved⟩ := moved_cons_append rewrite hdone hnew rest
      by_cases hbelow' : above ++ [name] <+: other
      · obtain ⟨rest', rfl⟩ := hbelow'
        obtain ⟨hold', hmoved'⟩ := moved_cons_append rewrite hdone hnew rest'
        rw [hmoved, hmoved'] at heq
        refine h.injective _ hpath _ hother ?_
        rw [hold, hold', List.append_cancel_left heq]
      · rw [hmoved, houtside hbelow'] at heq
        exact absurd heq.symm (hapart hother)
    · by_cases hbelow' : above ++ [name] <+: other
      · obtain ⟨rest', rfl⟩ := hbelow'
        obtain ⟨-, hmoved'⟩ := moved_cons_append rewrite hdone hnew rest'
        rw [hmoved', houtside hbelow] at heq
        exact absurd heq (hapart hpath)
      · rw [houtside hbelow, houtside hbelow'] at heq
        exact h.injective _ hpath _ hother heq

/-- All paths done: every name is rewritten, and the paths are those of a tree. -/
theorem Renamed.all (hrooted : Rooted before.keys) (h : Renamed rewrite done before after)
    (hdone : ∀ path ∈ before.keys, path ∈ done) :
    after = (before.map fun entry ↦ (entry.1.map rewrite, entry.2)) ∧ Rooted after.keys := by
  have hmoved {path : List κ} (hpath : path ∈ before.keys) :
      moved rewrite done [] path = path.map rewrite :=
    moved_eq_map fun part hpart hbegins ↦ hdone part (hrooted.of_prefix hpath hbegins hpart)
  have hkeys : after.keys = before.keys.map fun path ↦ path.map rewrite := by
    rw [h.keys_eq]
    exact List.map_congr_left fun path hpath ↦ hmoved hpath
  refine ⟨?_, ?_, ?_, ?_⟩
  · rw [h.entries]
    refine List.map_congr_left fun entry hentry ↦ ?_
    rw [hmoved (List.mem_map.mpr ⟨entry, hentry, rfl⟩)]
  · rw [h.keys_eq]
    exact List.Nodup.map_on (fun path hpath other hother ↦ h.injective path hpath other hother)
      hrooted.nodup
  · rw [hkeys]
    simpa using hrooted.ne_nil
  · intro above name hmem hne
    rw [hkeys] at hmem ⊢
    obtain ⟨path, hpath, heq⟩ := List.mem_map.mp hmem
    obtain ⟨front, last, rfl, hfront, -⟩ := List.map_eq_append_iff.mp heq
    refine List.mem_map.mpr ⟨front, ?_, hfront⟩
    refine hrooted.of_prefix hpath (List.prefix_append _ _) fun hnil ↦ hne ?_
    rw [← hfront, hnil, List.map_nil]

end Relational
