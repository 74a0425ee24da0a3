import Mathlib.Data.Set.Finite.Basic
import Mathlib.Data.Set.Finite.Lattice
import Mathlib.Logic.Relation
import Mathlib.Order.WellFoundedSet

/-!
# Traversals

A traversal goes from node to node by named steps, and a path of it is the list of their names. Where
only finitely many nodes have steps, and finitely many each, a traversal has finitely many paths exactly
when no node reaches itself (`finite_paths_iff`).
-/

set_option autoImplicit false

namespace Relational

open Relation

variable {α ν : Type} {step : α → ν → α → Prop} {first second last : α} {names others : List ν}

/-- A walk by the names of its steps. -/
inductive Walk (step : α → ν → α → Prop) : α → List ν → α → Prop
  | nil (node : α) : Walk step node [] node
  | cons {first second last : α} {name : ν} {names : List ν} :
      step first name second → Walk step second names last → Walk step first (name :: names) last

/-- A step of any name. -/
def Next (step : α → ν → α → Prop) (first second : α) : Prop := ∃ name, step first name second

/-- The paths that a traversal visits. -/
def paths (step : α → ν → α → Prop) (first : α) : Set (List ν) :=
  {names | ∃ last, Walk step first names last}

theorem Walk.append (h : Walk step first names second) (h' : Walk step second others last) :
    Walk step first (names ++ others) last := by
  induction h with
  | nil => exact h'
  | cons hstep _ ih => exact .cons hstep (ih h')

theorem exists_walk (h : ReflTransGen (Next step) first last) : ∃ names, Walk step first names last := by
  induction h with
  | refl => exact ⟨[], .nil first⟩
  | tail _ hnext ih =>
    obtain ⟨names, hwalk⟩ := ih
    obtain ⟨name, hstep⟩ := hnext
    exact ⟨names ++ [name], hwalk.append (.cons hstep (.nil _))⟩

theorem exists_walk_of_cycle (h : TransGen (Next step) first first) :
    ∃ names, names ≠ [] ∧ Walk step first names first := by
  obtain ⟨second, ⟨name, hstep⟩, hrest⟩ := TransGen.head'_iff.mp h
  obtain ⟨names, hwalk⟩ := exists_walk hrest
  exact ⟨name :: names, List.cons_ne_nil _ _, .cons hstep hwalk⟩

theorem Walk.replicate (h : Walk step first names first) (count : ℕ) :
    Walk step first (List.replicate count names).flatten first := by
  induction count with
  | zero => exact .nil first
  | succ count ih =>
    rw [List.replicate_succ, List.flatten_cons]
    exact h.append ih

/-- A node that reaches itself is visited by infinitely many paths. -/
theorem infinite_paths (hreach : ReflTransGen (Next step) first last)
    (hcycle : TransGen (Next step) last last) : (paths step first).Infinite := by
  obtain ⟨before, hbefore⟩ := exists_walk hreach
  obtain ⟨round, hround, hwalk⟩ := exists_walk_of_cycle hcycle
  refine Set.infinite_of_injective_forall_mem
    (f := fun count ↦ before ++ (List.replicate count round).flatten) (fun count other heq ↦ ?_)
    fun count ↦ ⟨last, hbefore.append (hwalk.replicate count)⟩
  have hlength := congrArg List.length heq
  simp only [List.length_append, List.length_flatten, List.map_replicate, List.sum_replicate_nat,
    Nat.add_left_cancel_iff] at hlength
  exact Nat.eq_of_mul_eq_mul_right (List.length_pos_iff.mpr hround) hlength

/-- Steps back from node to node come to an end where no node reaches itself. -/
theorem wellFounded_next (hnodes : {node | ∃ other, Next step node other}.Finite)
    (hacyclic : ∀ node, ¬ TransGen (Next step) node node) :
    WellFounded fun second first ↦ Next step first second := by
  have horder : IsStrictOrder α fun second first ↦ TransGen (Next step) first second :=
    { irrefl := hacyclic, trans := fun _ _ _ hfirst hsecond ↦ hsecond.trans hfirst }
  have hwf := Set.wellFoundedOn_iff.mp (hnodes.wellFoundedOn
    (r := fun second first ↦ TransGen (Next step) first second))
  have hlast (node : α) (hnode : ¬ ∃ other, Next step node other) :
      Acc (fun second first ↦ Next step first second) node :=
    Acc.intro node fun other hnext ↦ absurd ⟨other, hnext⟩ hnode
  refine ⟨fun node ↦ ?_⟩
  induction node using hwf.induction with
  | _ node ih =>
    refine Acc.intro node fun other hnext ↦ ?_
    by_cases hother : ∃ further, Next step other further
    · exact ih other ⟨.single hnext, hother, ⟨other, hnext⟩⟩
    · exact hlast other hother

theorem finite_paths (hwf : WellFounded fun second first ↦ Next step first second)
    (hbranch : ∀ node, {pair : ν × α | step node pair.1 pair.2}.Finite) (first : α) :
    (paths step first).Finite := by
  induction first using hwf.induction with
  | _ first ih =>
    have hrest : (⋃ pair ∈ {pair : ν × α | step first pair.1 pair.2},
        List.cons pair.1 '' paths step pair.2).Finite :=
      (hbranch first).biUnion fun pair hpair ↦ (ih pair.2 ⟨pair.1, hpair⟩).image _
    refine ((Set.finite_singleton []).union hrest).subset ?_
    rintro names ⟨last, hwalk⟩
    cases hwalk with
    | nil => exact .inl rfl
    | cons hstep hwalk =>
      exact .inr (Set.mem_biUnion (x := (_, _)) hstep ⟨_, ⟨last, hwalk⟩, rfl⟩)

theorem finite_paths_iff (hnodes : {node | ∃ other, Next step node other}.Finite)
    (hbranch : ∀ node, {pair : ν × α | step node pair.1 pair.2}.Finite)
    (hreach : ∀ node other, Next step node other → ReflTransGen (Next step) first node) :
    (paths step first).Finite ↔ ∀ node, ¬ TransGen (Next step) node node := by
  refine ⟨fun hfinite node hcycle ↦ ?_, fun hacyclic ↦
    finite_paths (wellFounded_next hnodes hacyclic) hbranch first⟩
  obtain ⟨other, hnext, -⟩ := TransGen.head'_iff.mp hcycle
  exact infinite_paths (hreach node other hnext) hcycle hfinite

end Relational
