import Mathlib.Data.Fintype.Card
import Mathlib.Data.List.Count
import Mathlib.Data.Set.Finite.Basic
import Mathlib.Logic.Relation
import Mathlib.Order.WellFounded
import HarborHF.Relational.Dict

/-!
# Topological elimination

A graph has a list of targets for each of its keys. `eliminate` visits the nodes that no node left has
as a target, one after the other, and counts them: it comes to all nodes exactly when no node reaches
itself (`eliminate_eq_length_iff`).
-/

set_option autoImplicit false

namespace Relational

variable {κ : Type} [DecidableEq κ]

abbrev Graph (κ : Type) := Dict κ (List κ)

namespace Graph

variable (graph : Graph κ)

def targets (key : κ) : List κ := (graph.get? key).getD []

def Edge (first second : κ) : Prop := second ∈ graph.targets first

/-- Counts the occurrences of the targets. -/
def countTargets (degrees : Dict κ ℤ) (targets : List κ) : Dict κ ℤ :=
  targets.foldl (fun degrees target ↦ degrees.set target ((degrees.get? target).getD 0 + 1)) degrees

/-- How often each node is a target. -/
def indegrees : Dict κ ℤ :=
  countTargets (graph.keys.foldl (fun degrees key ↦ degrees.set key 0) []) graph.values.flatten

/-- One target less: a node that no node left has as a target is to be visited. -/
def release (state : Dict κ ℤ × List κ) (target : κ) : Dict κ ℤ × List κ :=
  let degree := (state.1.get? target).getD 0 - 1
  (state.1.set target degree, if degree = 0 then state.2 ++ [target] else state.2)

/-- Visits pending nodes until there are none, and returns how many nodes were visited. -/
def eliminate : ℕ → Dict κ ℤ → List κ → ℕ → Option ℕ
  | _, _, [], visited => some visited
  | 0, _, _ :: _, _ => none
  | fuel + 1, degrees, current :: pending, visited =>
    let next := (graph.targets current).foldl release (degrees, pending)
    eliminate fuel next.1 next.2 (visited + 1)

/-- The nodes with no edge to them. -/
def sources (degrees : Dict κ ℤ) : List κ :=
  degrees.keys.filter fun key ↦ degrees.get? key = some 0

variable {graph} {degrees : Dict κ ℤ} {pending visited list : List κ} {key other target : κ}

/-! ### Degrees -/

def degree (degrees : Dict κ ℤ) (key : κ) : ℤ := (degrees.get? key).getD 0

theorem degree_set (value : ℤ) :
    degree (degrees.set key value) other = if other = key then value else degree degrees other := by
  rw [degree, Dict.get?_set]
  split_ifs
  · rfl
  · rfl

theorem degree_countTargets :
    degree (countTargets degrees list) key = degree degrees key + list.count key := by
  induction list generalizing degrees with
  | nil => simp [countTargets]
  | cons target rest ih =>
    have hstep : countTargets degrees (target :: rest) =
        countTargets (degrees.set target (degree degrees target + 1)) rest := rfl
    rw [hstep, ih, degree_set, List.count_cons]
    by_cases h : key = target
    · subst h
      simp
      omega
    · simp [h, Ne.symm h]

theorem mem_keys_set {υ : Type} {dict : Dict κ υ} {value : υ} :
    other ∈ (dict.set key value).keys ↔ other = key ∨ other ∈ dict.keys := by
  rw [Dict.keys_set]
  split_ifs with h
  · exact ⟨.inr, fun hother ↦ hother.elim (fun heq ↦ heq ▸ h) id⟩
  · rw [List.mem_append, List.mem_singleton, or_comm]

theorem mem_keys_countTargets :
    key ∈ (countTargets degrees list).keys ↔ key ∈ degrees.keys ∨ key ∈ list := by
  induction list generalizing degrees with
  | nil => simp [countTargets]
  | cons target rest ih =>
    have hstep : countTargets degrees (target :: rest) =
        countTargets (degrees.set target (degree degrees target + 1)) rest := rfl
    rw [hstep, ih, mem_keys_set, List.mem_cons, or_comm (a := key = target), or_assoc]

theorem nodup_keys_countTargets (h : degrees.keys.Nodup) :
    (countTargets degrees list).keys.Nodup := by
  induction list generalizing degrees with
  | nil => exact h
  | cons target rest ih => exact ih (Dict.nodup_keys_set h)

/-- A node: a key or a target. -/
def Node (graph : Graph κ) (key : κ) : Prop := key ∈ graph.keys ∨ key ∈ graph.values.flatten

theorem mem_keys_indegrees : key ∈ graph.indegrees.keys ↔ Node graph key := by
  have hzero (keys : List κ) (dict : Dict κ ℤ) :
      key ∈ (keys.foldl (fun degrees key ↦ degrees.set key 0) dict).keys ↔
        key ∈ dict.keys ∨ key ∈ keys := by
    induction keys generalizing dict with
    | nil => simp
    | cons first rest ih =>
      rw [List.foldl_cons, ih, mem_keys_set, List.mem_cons, or_comm (a := key = first), or_assoc]
  rw [indegrees, mem_keys_countTargets, hzero]
  simp [Node, Dict.keys]

theorem nodup_keys_indegrees : graph.indegrees.keys.Nodup := by
  have hzero : (graph.keys.foldl (fun (degrees : Dict κ ℤ) key ↦ degrees.set key 0) []).keys.Nodup :=
    Dict.nodup_keys_foldl_set List.nodup_nil
  exact nodup_keys_countTargets hzero

theorem degree_indegrees : degree graph.indegrees key = graph.values.flatten.count key := by
  have hzero (keys : List κ) (dict : Dict κ ℤ) (hdict : degree dict key = 0) :
      degree (keys.foldl (fun degrees key ↦ degrees.set key 0) dict) key = 0 := by
    induction keys generalizing dict with
    | nil => exact hdict
    | cons first rest ih =>
      refine ih _ ?_
      rw [degree_set]
      split_ifs
      · rfl
      · exact hdict
  rw [indegrees, degree_countTargets, hzero _ _ rfl, Int.zero_add]

/-! ### Rounds -/

/-- The targets of the keys that are not visited. -/
def remaining (graph : Graph κ) (visited : List κ) : List κ :=
  (Dict.values (graph.filter fun entry ↦ entry.1 ∉ visited)).flatten

theorem remaining_cons {entry : κ × List κ} : remaining (entry :: graph) visited =
      if entry.1 ∈ visited then remaining graph visited else entry.2 ++ remaining graph visited := by
  unfold remaining
  split_ifs with h
  · rw [List.filter_cons_of_neg (by simp [h])]
  · rw [List.filter_cons_of_pos (by simp [h])]
    rfl

/-- Visiting a node takes its targets away. -/
theorem count_remaining (h : graph.keys.Nodup) (hvisited : key ∉ visited) :
    (remaining graph visited).count other =
      (graph.targets key).count other + (remaining graph (visited ++ [key])).count other := by
  induction graph with
  | nil => simp [remaining, targets, Dict.get?, Dict.values]
  | cons entry rest ih =>
    obtain ⟨first, list⟩ := entry
    obtain ⟨hfirst, hrest⟩ := List.nodup_cons.mp h
    have hcount := ih hrest
    rw [remaining_cons, remaining_cons]
    by_cases heq : first = key
    · subst heq
      have hnone : targets rest first = [] := by
        rw [targets, Dict.get?_eq_none_iff.mpr hfirst]
        rfl
      have hhead : targets ((first, list) :: rest) first = list := by simp [targets, Dict.get?]
      rw [hnone] at hcount
      rw [if_neg hvisited, if_pos (by simp), hhead, List.count_append, hcount]
      simp
    · have htail : targets ((first, list) :: rest) key = targets rest key := by
        simp [targets, Dict.get?, heq]
      rw [htail]
      by_cases hmem : first ∈ visited
      · rw [if_pos hmem, if_pos (List.mem_append_left _ hmem), hcount]
      · rw [if_neg hmem, if_neg (by simp [hmem, heq]), List.count_append, List.count_append, hcount]
        omega

/-- An edge from a key that is not visited is one of those that remain. -/
theorem mem_remaining (h : graph.keys.Nodup) :
    other ∈ remaining graph visited ↔ ∃ key, key ∉ visited ∧ graph.Edge key other := by
  constructor
  · intro hmem
    obtain ⟨list, hlist, hother⟩ := List.mem_flatten.mp hmem
    obtain ⟨key, hentry⟩ := Dict.mem_values_iff.mp hlist
    obtain ⟨hgraph, hvisited⟩ := List.mem_filter.mp hentry
    refine ⟨key, by simpa using hvisited, ?_⟩
    rw [Edge, targets, (Dict.get?_eq_some_iff h).mpr hgraph]
    exact hother
  · rintro ⟨key, hvisited, hedge⟩
    rw [Edge, targets] at hedge
    cases hget : graph.get? key with
    | none =>
      rw [hget] at hedge
      cases hedge
    | some list =>
      rw [hget] at hedge
      refine List.mem_flatten.mpr ⟨list, Dict.mem_values_iff.mpr ⟨key, ?_⟩, hedge⟩
      exact List.mem_filter.mpr ⟨Dict.mem_of_get?_eq_some hget, by simpa using hvisited⟩

theorem node_of_edge (h : graph.keys.Nodup) (hedge : graph.Edge key other) :
    Node graph key ∧ Node graph other := by
  refine ⟨.inl (Classical.byContradiction fun hkey ↦ ?_), .inr ?_⟩
  · rw [Edge, targets, Dict.get?_eq_none_iff.mpr hkey] at hedge
    cases hedge
  · have hmem : other ∈ remaining graph [] := (mem_remaining h).mpr ⟨key, List.not_mem_nil, hedge⟩
    simpa [remaining] using hmem

/-- What releasing targets does to the degrees, and which nodes become pending. -/
theorem foldl_release {state : Dict κ ℤ × List κ}
    (h : ∀ key, (list.count key : ℤ) ≤ degree state.1 key) :
    ∃ freed, (list.foldl release state).2 = state.2 ++ freed ∧ freed.Nodup ∧
      (∀ key, key ∈ freed ↔ key ∈ list ∧ degree state.1 key = list.count key) ∧
      ∀ key, degree (list.foldl release state).1 key = degree state.1 key - list.count key := by
  induction list generalizing state with
  | nil => exact ⟨[], by simp⟩
  | cons target rest ih =>
    have hdegree (key : κ) : degree (release state target).1 key =
        degree state.1 key - if key = target then 1 else 0 := by
      rw [release, degree_set]
      split_ifs with heq
      · rw [heq]
        rfl
      · omega
    have hcount (key : κ) : ((target :: rest).count key : ℤ) =
        rest.count key + if key = target then 1 else 0 := by
      rw [List.count_cons]
      by_cases heq : key = target
      · simp [heq]
      · simp [heq, Ne.symm heq]
    have hle (key : κ) : (rest.count key : ℤ) ≤ degree (release state target).1 key := by
      have hkey := h key
      rw [hcount] at hkey
      rw [hdegree]
      omega
    obtain ⟨freed, hpending, hnodup, hfreed, hresult⟩ := ih hle
    have hdegrees (key : κ) : degree ((target :: rest).foldl release state).1 key =
        degree state.1 key - (target :: rest).count key := by
      rw [List.foldl_cons, hresult, hdegree, hcount]
      omega
    have hrest (key : κ) (hkey : key ≠ target) :
        (key ∈ rest ∧ degree (release state target).1 key = rest.count key ↔
          key ∈ target :: rest ∧ degree state.1 key = (target :: rest).count key) := by
      have hequal : degree (release state target).1 key = rest.count key ↔
          degree state.1 key = (target :: rest).count key := by
        rw [hdegree, hcount, if_neg hkey]
        omega
      rw [hequal, List.mem_cons, or_iff_right hkey]
    have hself : target ∈ target :: rest ∧ degree state.1 target = (target :: rest).count target ↔
        degree (release state target).1 target = rest.count target := by
      rw [hdegree, hcount, if_pos rfl, and_iff_right List.mem_cons_self]
      omega
    by_cases hzero : (state.1.get? target).getD 0 - 1 = 0
    · -- the target has no occurrence left, so that it is not freed again
      have hnone : rest.count target = 0 := by
        have hbound := hle target
        rw [hdegree, if_pos rfl, degree, hzero] at hbound
        omega
      have hnew : target ∉ freed := fun hmem ↦
        List.count_eq_zero.mp hnone ((hfreed target).mp hmem).1
      refine ⟨target :: freed, ?_, List.nodup_cons.mpr ⟨hnew, hnodup⟩, fun key ↦ ?_, hdegrees⟩
      · rw [List.foldl_cons, hpending]
        simp [release, hzero]
      · by_cases hkey : key = target
        · subst hkey
          rw [hself, hnone, hdegree, if_pos rfl, degree, hzero]
          simp
        · rw [List.mem_cons, or_iff_right hkey, hfreed, hrest key hkey]
    · refine ⟨freed, ?_, hnodup, fun key ↦ ?_, hdegrees⟩
      · rw [List.foldl_cons, hpending]
        simp [release, hzero]
      · by_cases hkey : key = target
        · subst hkey
          rw [hself, hfreed, and_iff_right_iff_imp]
          intro hequal
          refine List.count_pos_iff.mp (Nat.pos_of_ne_zero fun hnone ↦ hzero ?_)
          rw [hdegree, if_pos rfl, degree, hnone] at hequal
          simpa using hequal
        · rw [hfreed, hrest key hkey]

/-! ### The elimination -/

/-- The state of an elimination: the degrees count what remains, and the nodes without a degree are
visited or pending. -/
structure Eliminating (graph : Graph κ) (visited : List κ) (degrees : Dict κ ℤ) (pending : List κ) :
    Prop where
  degrees : ∀ key, degree degrees key = (remaining graph visited).count key
  nodup : (visited ++ pending).Nodup
  mem_iff : ∀ key, key ∈ visited ++ pending ↔ Node graph key ∧ key ∉ remaining graph visited
  acyclic : ∀ key ∈ visited ++ pending, ¬ Relation.TransGen graph.Edge key key

theorem exists_edge_of_cycle (h : Relation.TransGen graph.Edge key key) :
    ∃ before, graph.Edge before key ∧ Relation.TransGen graph.Edge before before := by
  obtain ⟨before, hreaches, hedge⟩ := Relation.TransGen.tail'_iff.mp h
  exact ⟨before, hedge, Relation.TransGen.head' hedge hreaches⟩

theorem remaining_nil : remaining graph [] = graph.values.flatten := by
  simp [remaining]

theorem Eliminating.start (h : graph.keys.Nodup) :
    Eliminating graph [] graph.indegrees (sources graph.indegrees) := by
  have hdegrees (key : κ) : degree graph.indegrees key = (remaining graph []).count key := by
    rw [degree_indegrees, remaining_nil]
  have hmem (key : κ) : key ∈ [] ++ sources graph.indegrees ↔
      Node graph key ∧ key ∉ remaining graph [] := by
    rw [List.nil_append, sources, List.mem_filter, mem_keys_indegrees, decide_eq_true_eq,
      ← List.count_eq_zero]
    refine and_congr_right fun hnode ↦ ?_
    obtain ⟨value, hvalue⟩ := Option.isSome_iff_exists.mp
      (Dict.get?_isSome_iff.mpr (mem_keys_indegrees.mpr hnode))
    have hdegree := hdegrees key
    rw [degree, hvalue, Option.getD_some] at hdegree
    rw [hvalue, Option.some_inj, hdegree]
    omega
  refine ⟨hdegrees, ?_, hmem, fun key hkey hcycle ↦ ?_⟩
  · rw [List.nil_append]
    exact nodup_keys_indegrees.filter _
  · obtain ⟨before, hedge, -⟩ := exists_edge_of_cycle hcycle
    exact ((hmem key).mp hkey).2 ((mem_remaining h).mpr ⟨before, List.not_mem_nil, hedge⟩)

theorem Eliminating.step (h : graph.keys.Nodup) {current : κ}
    (hstate : Eliminating graph visited degrees (current :: pending)) :
    Eliminating graph (visited ++ [current])
      ((graph.targets current).foldl release (degrees, pending)).1
      ((graph.targets current).foldl release (degrees, pending)).2 := by
  have hcurrent : current ∉ visited := fun hmem ↦
    (List.nodup_append.mp hstate.nodup).2.2 current hmem current List.mem_cons_self rfl
  have hcount (key : κ) : (remaining graph visited).count key =
      (graph.targets current).count key + (remaining graph (visited ++ [current])).count key :=
    count_remaining h hcurrent
  have hle (key : κ) : ((graph.targets current).count key : ℤ) ≤ degree (degrees, pending).1 key := by
    rw [hstate.degrees, hcount]
    omega
  obtain ⟨freed, hpending, hnodup, hfreed, hdegrees⟩ := foldl_release hle
  have hsplit : (visited ++ [current]) ++ (pending ++ freed) =
      (visited ++ current :: pending) ++ freed := by simp
  have hremaining (key : κ) : key ∉ remaining graph visited ↔
      key ∉ graph.targets current ∧ key ∉ remaining graph (visited ++ [current]) := by
    rw [← List.count_eq_zero, ← List.count_eq_zero, ← List.count_eq_zero, hcount]
    omega
  have hnew (key : κ) : key ∈ freed ↔
      key ∈ graph.targets current ∧ key ∉ remaining graph (visited ++ [current]) := by
    rw [hfreed, ← List.count_eq_zero, hstate.degrees, hcount]
    refine and_congr_right fun _ ↦ ?_
    omega
  have hmem (key : κ) : key ∈ (visited ++ [current]) ++ (pending ++ freed) ↔
      Node graph key ∧ key ∉ remaining graph (visited ++ [current]) := by
    rw [hsplit, List.mem_append, hstate.mem_iff, hnew, hremaining]
    by_cases htarget : key ∈ graph.targets current
    · have hnode : Node graph key := (node_of_edge h htarget).2
      simp [htarget, hnode]
    · simp [htarget]
  rw [hpending]
  refine ⟨fun key ↦ ?_, ?_, hmem, ?_⟩
  · rw [hdegrees, hstate.degrees, hcount]
    omega
  · rw [hsplit]
    refine List.nodup_append.mpr ⟨hstate.nodup, hnodup, ?_⟩
    rintro key hkey _ hother rfl
    exact ((hremaining key).mp ((hstate.mem_iff key).mp hkey).2).1 ((hnew key).mp hother).1
  · intro key hkey hcycle
    obtain ⟨before, hedge, hbefore⟩ := exists_edge_of_cycle hcycle
    -- the node before it has been visited, and does not reach itself
    have hvisited : before ∈ visited ++ [current] := Classical.byContradiction fun hnot ↦
      ((hmem key).mp hkey).2 ((mem_remaining h).mpr ⟨before, hnot, hedge⟩)
    refine hstate.acyclic before ?_ hbefore
    rcases List.mem_append.mp hvisited with hold | hlast
    · exact List.mem_append_left _ hold
    · exact List.mem_append_right _ (List.mem_singleton.mp hlast ▸ List.mem_cons_self)

/-- With enough fuel the elimination ends, without pending nodes. -/
theorem exists_eliminate (h : graph.keys.Nodup) {fuel : ℕ}
    (hstate : Eliminating graph visited degrees pending)
    (hfuel : graph.indegrees.keys.length ≤ visited.length + fuel) :
    ∃ visited' degrees', eliminate graph fuel degrees pending visited.length = some visited'.length ∧
      Eliminating graph visited' degrees' [] := by
  induction fuel generalizing visited degrees pending with
  | zero =>
    cases pending with
    | nil => exact ⟨visited, degrees, by rw [eliminate], hstate⟩
    | cons current rest =>
      -- all nodes are visited, so that none is pending
      have hsubset : visited ++ current :: rest ⊆ graph.indegrees.keys := fun key hkey ↦
        mem_keys_indegrees.mpr ((hstate.mem_iff key).mp hkey).1
      have hlength := (List.subperm_of_subset hstate.nodup hsubset).length_le
      rw [List.length_append, List.length_cons] at hlength
      omega
  | succ fuel ih =>
    cases pending with
    | nil => exact ⟨visited, degrees, by rw [eliminate], hstate⟩
    | cons current rest =>
      obtain ⟨visited', degrees', heq, hfinal⟩ := ih (hstate.step h) (by
        rw [List.length_append, List.length_singleton]
        omega)
      rw [List.length_append, List.length_singleton] at heq
      exact ⟨visited', degrees', heq, hfinal⟩

/-- A graph in which no node reaches itself has a node that is not visited and has only visited nodes
before it. -/
theorem exists_free (h : graph.keys.Nodup)
    (hacyclic : ∀ key, ¬ Relation.TransGen graph.Edge key key)
    (hkey : Node graph key ∧ key ∉ visited) :
    ∃ free, Node graph free ∧ free ∉ visited ∧ free ∉ remaining graph visited := by
  let before : {node // node ∈ graph.indegrees.keys} → {node // node ∈ graph.indegrees.keys} → Prop :=
    fun first second ↦ Relation.TransGen graph.Edge first second
  have htrans : IsTrans _ before := ⟨fun _ _ _ ↦ Relation.TransGen.trans⟩
  have hirrefl : Std.Irrefl before := ⟨fun node ↦ hacyclic node⟩
  have hfinite : Finite {node // node ∈ graph.indegrees.keys} :=
    (List.finite_toSet graph.indegrees.keys).to_subtype
  have hwf : WellFounded before := Finite.wellFounded_of_trans_of_irrefl before
  obtain ⟨free, hfree, hmin⟩ := hwf.has_min {node | node.1 ∉ visited}
    ⟨⟨key, mem_keys_indegrees.mpr hkey.1⟩, hkey.2⟩
  refine ⟨free, mem_keys_indegrees.mp free.2, hfree, fun hremaining ↦ ?_⟩
  obtain ⟨first, hfirst, hedge⟩ := (mem_remaining h).mp hremaining
  exact hmin ⟨first, mem_keys_indegrees.mpr (node_of_edge h hedge).1⟩ hfirst (.single hedge)

/-- The elimination comes to all nodes exactly when no node reaches itself. -/
theorem eliminate_eq_length_iff (h : graph.keys.Nodup) {fuel : ℕ}
    (hfuel : graph.indegrees.keys.length ≤ fuel) :
    ∃ visited, eliminate graph fuel graph.indegrees (sources graph.indegrees) 0 = some visited ∧
      (visited = graph.indegrees.keys.length ↔
        ∀ key, ¬ Relation.TransGen graph.Edge key key) := by
  have hstart : graph.indegrees.keys.length ≤ ([] : List κ).length + fuel := by
    rwa [List.length_nil, Nat.zero_add]
  obtain ⟨visited, degrees, heq, hfinal⟩ := exists_eliminate h (Eliminating.start h) hstart
  have hvisited (key : κ) : key ∈ visited ↔ Node graph key ∧ key ∉ remaining graph visited := by
    rw [← hfinal.mem_iff, List.append_nil]
  have hnodup : visited.Nodup := by
    have hall := hfinal.nodup
    rwa [List.append_nil] at hall
  have hsubset : visited ⊆ graph.indegrees.keys := fun key hkey ↦
    mem_keys_indegrees.mpr ((hvisited key).mp hkey).1
  refine ⟨visited.length, heq, fun hlength key hcycle ↦ ?_, fun hacyclic ↦ ?_⟩
  · have hperm : visited.Perm graph.indegrees.keys :=
      (List.subperm_of_subset hnodup hsubset).perm_of_length_le hlength.ge
    obtain ⟨before, hedge, -⟩ := exists_edge_of_cycle hcycle
    have hkey : key ∈ visited := hperm.mem_iff.mpr (mem_keys_indegrees.mpr (node_of_edge h hedge).2)
    exact hfinal.acyclic key (List.mem_append_left _ hkey) hcycle
  · refine le_antisymm (List.subperm_of_subset hnodup hsubset).length_le ?_
    refine (List.subperm_of_subset nodup_keys_indegrees fun key hkey ↦ ?_).length_le
    refine Classical.byContradiction fun hnot ↦ ?_
    obtain ⟨free, hnode, hfree, hremaining⟩ :=
      exists_free h hacyclic ⟨mem_keys_indegrees.mp hkey, hnot⟩
    exact hfree ((hvisited free).mpr ⟨hnode, hremaining⟩)

end Graph

end Relational
