import Mathlib.Data.Finite.Prod
import HarborHF.Relational.Traversals
import HarborHF.Trials.Workspace

/-!
# What the check of symlinks decides

A path resolves by a derivation (`Resolves`), in which links may lead through links. `resolve` finds what
a path resolves to (`resolve_eq_some_iff`), since a derivation never goes through a link inside itself.

The check accepts a workspace exactly when every link has a relative target that resolves to a node
inside, and a traversal that follows directories and links to directories visits finitely many paths
(`validateWorkspaceSymlinkGraph_eq_ok_iff`).
-/

set_option autoImplicit false

namespace HarborHF.Workspace

open Relational Relation

/-! ### Resolution -/

section

variable {nodes : Dict Path Node} {current next last path : Path} {name target : Text}
  {names : List Text} {depth : ℕ}

/-- From a directory the names lead to a path, through the targets of links. -/
inductive Resolves (nodes : Dict Path Node) : Path → List Text → Path → Prop
  | nil (current : Path) : Resolves nodes current [] current
  | stay {current last : Path} {name : Text} {rest : List Text}
      (hdirectory : nodes.get? current = some .directory) (hname : name = [] ∨ name = ['.'])
      (hrest : Resolves nodes current rest last) : Resolves nodes current (name :: rest) last
  | parent {current last : Path} {rest : List Text}
      (hdirectory : nodes.get? current = some .directory)
      (hrest : Resolves nodes current.dropLast rest last) :
      Resolves nodes current (['.', '.'] :: rest) last
  | descend {current last : Path} {name : Text} {rest : List Text} {node : Node}
      (hdirectory : nodes.get? current = some .directory)
      (hname : name ≠ [] ∧ name ≠ ['.'] ∧ name ≠ ['.', '.'])
      (hnode : nodes.get? (current ++ [name]) = some node) (hlink : ∀ target, node ≠ .symlink target)
      (hrest : Resolves nodes (current ++ [name]) rest last) :
      Resolves nodes current (name :: rest) last
  | link {current next last : Path} {name target : Text} {rest : List Text}
      (hdirectory : nodes.get? current = some .directory)
      (hname : name ≠ [] ∧ name ≠ ['.'] ∧ name ≠ ['.', '.'])
      (hnode : nodes.get? (current ++ [name]) = some (.symlink target))
      (htarget : Resolves nodes (linkStart current target) (components target) next)
      (hrest : Resolves nodes next rest last) : Resolves nodes current (name :: rest) last

theorem follow_cons : follow nodes (depth + 1) current (name :: names) =
    (enter nodes (follow nodes depth) current name).bind fun next ↦
      follow nodes (depth + 1) next names := rfl

/-- What a part of a path leads to. -/
theorem enter_eq_some {followLink : Path → List Text → Option Path}
    (h : enter nodes followLink current name = some next) : nodes.get? current = some .directory ∧
      ((name = [] ∨ name = ['.']) ∧ next = current ∨
        name = ['.', '.'] ∧ next = current.dropLast ∨
        (name ≠ [] ∧ name ≠ ['.'] ∧ name ≠ ['.', '.']) ∧
          ((∃ target, nodes.get? (current ++ [name]) = some (.symlink target) ∧
              followLink (linkStart current target) (components target) = some next) ∨
            ∃ node, nodes.get? (current ++ [name]) = some node ∧
              (∀ target, node ≠ .symlink target) ∧ next = current ++ [name])) := by
  unfold enter at h
  split_ifs at h with hdirectory hstay hparent
  · cases h
    exact ⟨not_not.mp hdirectory, .inl ⟨hstay, rfl⟩⟩
  · cases h
    exact ⟨not_not.mp hdirectory, .inr (.inl ⟨hparent, rfl⟩)⟩
  · obtain ⟨hempty, hdot⟩ := not_or.mp hstay
    refine ⟨not_not.mp hdirectory, .inr (.inr ⟨⟨hempty, hdot, hparent⟩, ?_⟩)⟩
    split at h
    · cases h
    · next target hnode => exact .inl ⟨target, hnode, h⟩
    · next node hlink hnode =>
      cases h
      exact .inr ⟨node, hnode, hlink, rfl⟩

theorem enter_mono {first second : Path → List Text → Option Path}
    (hmono : ∀ current names last, first current names = some last → second current names = some last)
    (h : enter nodes first current name = some next) : enter nodes second current name = some next := by
  unfold enter at h ⊢
  split_ifs at h ⊢ with hdirectory hstay hparent
  · exact h
  · exact h
  · cases hnode : nodes.get? (current ++ [name]) with
    | none =>
      rw [hnode] at h
      cases h
    | some node =>
      cases node with
      | directory => simpa only [hnode] using h
      | file => simpa only [hnode] using h
      | symlink target =>
        simp only [hnode] at h ⊢
        exact hmono _ _ _ h

theorem follow_succ (h : follow nodes depth current names = some last) :
    follow nodes (depth + 1) current names = some last := by
  induction depth generalizing current names last with
  | zero => cases h
  | succ depth ih =>
    induction names generalizing current with
    | nil => exact h
    | cons name rest ihrest =>
      rw [follow_cons] at h ⊢
      obtain ⟨next, hnext, hrest⟩ := Option.bind_eq_some_iff.mp h
      exact Option.bind_eq_some_iff.mpr ⟨next, enter_mono (fun _ _ _ ↦ ih) hnext, ihrest hrest⟩

theorem follow_of_le {more : ℕ} (hle : depth ≤ more)
    (h : follow nodes depth current names = some last) :
    follow nodes more current names = some last := by
  induction hle with
  | refl => exact h
  | step _ ih => exact follow_succ ih

/-- What is followed is a derivation, through some number of links. -/
theorem resolves_of_follow (h : follow nodes depth current names = some last) :
    Resolves nodes current names last := by
  induction depth generalizing current names last with
  | zero => cases h
  | succ depth ih =>
    induction names generalizing current with
    | nil =>
      cases h
      exact .nil _
    | cons name rest ihrest =>
      rw [follow_cons] at h
      obtain ⟨next, hnext, hrest⟩ := Option.bind_eq_some_iff.mp h
      have hlast := ihrest hrest
      obtain ⟨hdirectory, ⟨hname, rfl⟩ | ⟨rfl, rfl⟩ |
        ⟨hname, ⟨target, hnode, hlink⟩ | ⟨node, hnode, hlink, rfl⟩⟩⟩ := enter_eq_some hnext
      · exact .stay hdirectory hname hlast
      · exact .parent hdirectory hlast
      · exact .link hdirectory hname hnode (ih hlink) hlast
      · exact .descend hdirectory hname hnode hlink hlast

theorem exists_follow_cons (depth : ℕ) {more : ℕ}
    (henter : enter nodes (follow nodes depth) current name = some next)
    (h : follow nodes more next names = some last) :
    ∃ depth, follow nodes depth current (name :: names) = some last := by
  refine ⟨max depth more + 1, ?_⟩
  rw [follow_cons]
  have hnext := enter_mono (fun _ _ _ ↦ follow_of_le (le_max_left depth more)) henter
  exact Option.bind_eq_some_iff.mpr
    ⟨next, hnext, follow_of_le ((le_max_right depth more).trans (Nat.le_succ _)) h⟩

/-- A derivation is followed through enough links. -/
theorem exists_follow (h : Resolves nodes current names last) :
    ∃ depth, follow nodes depth current names = some last := by
  induction h with
  | nil current => exact ⟨1, rfl⟩
  | stay hdirectory hname _ ih =>
    obtain ⟨more, hmore⟩ := ih
    exact exists_follow_cons 0 (by simp [enter, hdirectory, hname]) hmore
  | parent hdirectory _ ih =>
    obtain ⟨more, hmore⟩ := ih
    exact exists_follow_cons 0 (by simp [enter, hdirectory]) hmore
  | @descend current last name rest node hdirectory hname hnode hlink _ ih =>
    obtain ⟨more, hmore⟩ := ih
    refine exists_follow_cons 0 ?_ hmore
    cases node with
    | directory => simp [enter, hdirectory, hname, hnode]
    | file => simp [enter, hdirectory, hname, hnode]
    | symlink target => exact absurd rfl (hlink target)
  | link hdirectory hname hnode _ _ ihtarget ihrest =>
    obtain ⟨depth, hdepth⟩ := ihtarget
    obtain ⟨more, hmore⟩ := ihrest
    exact exists_follow_cons depth (by simp [enter, hdirectory, hname, hnode, hdepth]) hmore

/-- Where one more link makes the difference, there is a link whose target needs so many. -/
theorem exists_link_of_follow (h : follow nodes (depth + 2) current names = some last)
    (hless : follow nodes (depth + 1) current names = none) :
    ∃ path target, nodes.get? path = some (.symlink target) ∧
      (follow nodes (depth + 1) (linkStart path.dropLast target) (components target)).isSome = true ∧
      follow nodes depth (linkStart path.dropLast target) (components target) = none := by
  induction names generalizing current with
  | nil => cases hless
  | cons name rest ih =>
    rw [follow_cons] at h hless
    obtain ⟨next, hnext, hrest⟩ := Option.bind_eq_some_iff.mp h
    cases hfirst : enter nodes (follow nodes depth) current name with
    | some other =>
      have hsame := enter_mono (fun _ _ _ ↦ follow_succ) hfirst
      obtain rfl : other = next := Option.some.inj (hsame.symm.trans hnext)
      rw [hfirst, Option.bind_some] at hless
      exact ih hrest hless
    | none =>
      -- the names are the same, so that the part is a link
      unfold enter at hfirst hnext
      split_ifs at hfirst hnext
      cases hnode : nodes.get? (current ++ [name]) with
      | none =>
        rw [hnode] at hnext
        cases hnext
      | some node =>
        cases node with
        | directory =>
          rw [hnode] at hfirst
          cases hfirst
        | file =>
          rw [hnode] at hfirst
          cases hfirst
        | symlink target =>
          simp only [hnode] at hfirst hnext
          refine ⟨current ++ [name], target, hnode, ?_, ?_⟩
          · rw [List.dropLast_concat, hnext]
            rfl
          · rw [List.dropLast_concat, hfirst]

theorem mem_links (h : nodes.get? path = some (.symlink target)) : path ∈ links nodes :=
  List.mem_filterMap.mpr ⟨(path, .symlink target), Dict.mem_of_get?_eq_some h, rfl⟩

/-- The link needs so many links inside links. -/
def Needs (nodes : Dict Path Node) (path : Path) (depth : ℕ) : Prop :=
  ∃ target, nodes.get? path = some (.symlink target) ∧
    (follow nodes (depth + 1) (linkStart path.dropLast target) (components target)).isSome = true ∧
    follow nodes depth (linkStart path.dropLast target) (components target) = none

theorem Needs.unique {first second : ℕ} (h : Needs nodes path first) (h' : Needs nodes path second) :
    first = second := by
  obtain ⟨target, hnode, hsome, hnone⟩ := h
  obtain ⟨other, hother, hsome', hnone'⟩ := h'
  obtain rfl : target = other := by simpa using hnode.symm.trans hother
  obtain ⟨last, hlast⟩ := Option.isSome_iff_exists.mp hsome
  obtain ⟨last', hlast'⟩ := Option.isSome_iff_exists.mp hsome'
  refine le_antisymm (not_lt.mp fun hlt ↦ ?_) (not_lt.mp fun hlt ↦ ?_)
  · rw [follow_of_le hlt hlast'] at hnone
    cases hnone
  · rw [follow_of_le hlt hlast] at hnone'
    cases hnone'

/-- A link that needs one more goes through one that needs as many. -/
theorem exists_needs (h : follow nodes (depth + 1) current names = some last)
    (hless : follow nodes depth current names = none) :
    ∀ count < depth, ∃ path, Needs nodes path count := by
  induction depth generalizing current names last with
  | zero => exact fun count hcount ↦ absurd hcount (Nat.not_lt_zero count)
  | succ depth ih =>
    obtain ⟨path, target, hnode, hsome, hnone⟩ := exists_link_of_follow h hless
    intro count hcount
    rcases Nat.lt_succ_iff_lt_or_eq.mp hcount with hlt | rfl
    · obtain ⟨other, hother⟩ := Option.isSome_iff_exists.mp hsome
      exact ih hother hnone count hlt
    · exact ⟨path, target, hnode, hsome, hnone⟩

/-- A derivation is followed through as many links inside links as there are. -/
theorem follow_links (h : Resolves nodes current names last) :
    follow nodes ((links nodes).length + 1) current names = some last := by
  classical
  have hexists := exists_follow h
  have hfind := Nat.find_spec hexists
  by_cases hle : Nat.find hexists ≤ (links nodes).length + 1
  · exact follow_of_le hle hfind
  · -- more links inside links than there are links
    exfalso
    obtain ⟨depth, hdepth⟩ : ∃ depth, Nat.find hexists = depth + 1 :=
      Nat.exists_eq_add_one_of_ne_zero (by omega)
    rw [hdepth] at hfind
    have hless : follow nodes depth current names = none := by
      cases hresult : follow nodes depth current names with
      | none => rfl
      | some other =>
        have hsame := follow_succ hresult
        rw [hfind] at hsame
        cases hsame
        exact absurd hresult (Nat.find_min hexists (by omega))
    choose! path hpath using exists_needs hfind hless
    have hnodup : ((List.range depth).map path).Nodup := by
      refine List.Nodup.map_on (fun first hfirst second hsecond heq ↦ ?_) List.nodup_range
      have hneeds := hpath second (List.mem_range.mp hsecond)
      rw [← heq] at hneeds
      exact (hpath first (List.mem_range.mp hfirst)).unique hneeds
    have hsubset : (List.range depth).map path ⊆ links nodes := by
      intro link hlink
      obtain ⟨count, hcount, rfl⟩ := List.mem_map.mp hlink
      obtain ⟨target, hnode, -⟩ := hpath count (List.mem_range.mp hcount)
      exact mem_links hnode
    have hlength := (List.subperm_of_subset hnodup hsubset).length_le
    rw [List.length_map, List.length_range] at hlength
    omega

theorem resolve_eq_some_iff : resolve nodes path = some last ↔ Resolves nodes [] path last :=
  ⟨resolves_of_follow, follow_links⟩

end

/-! ### Links of a tree -/

variable {tree : FileTree} {snapshot path directory resolved first second : Path} {name target : Text}
  {names : List Text} {entry : WorkspaceFile} {entries : List WorkspaceFile} {graph : Graph Path}

theorem get?_of_append (hnames : names ≠ []) (h : directory ++ names ∈ tree.nodes.keys) :
    tree.nodes.get? directory = some .directory := by
  induction names using List.reverseRecOn with
  | nil => exact absurd rfl hnames
  | append_singleton names last ih =>
    have hparent := tree.parents _ h (by simp)
    rw [← List.append_assoc, List.dropLast_concat] at hparent
    by_cases hnil : names = []
    · rwa [hnil, List.append_nil] at hparent
    · exact ih hnil (Dict.get?_isSome_iff.mp (by rw [hparent]; rfl))

theorem mem_keys {node : Node} (h : tree.nodes.get? path = some node) : path ∈ tree.nodes.keys :=
  Dict.get?_isSome_iff.mp (by rw [h]; rfl)

/-- The path of a directory leads to it. -/
theorem resolves_append_iff {node : Node} (h : tree.nodes.get? (directory ++ path) = some node)
    (hnode : node = .directory) : Resolves tree.nodes directory (path ++ names) resolved ↔
      Resolves tree.nodes (directory ++ path) names resolved := by
  induction path generalizing directory with
  | nil => rw [List.append_nil, List.nil_append]
  | cons name rest ih =>
    have hsplit : directory ++ name :: rest = (directory ++ [name]) ++ rest := by simp
    have hdirectory : tree.nodes.get? directory = some .directory :=
      get?_of_append (List.cons_ne_nil name rest) (mem_keys h)
    have hname := tree.names _ (mem_keys h) name (by simp)
    rw [hsplit] at h ⊢
    have hnext : tree.nodes.get? (directory ++ [name]) = some .directory := by
      by_cases hrest : rest = []
      · rw [hrest, List.append_nil, hnode] at h
        exact h
      · exact get?_of_append hrest (mem_keys h)
    rw [← ih h, List.cons_append]
    constructor
    · intro hresolves
      cases hresolves with
      | stay _ hdot => exact absurd hdot (not_or.mpr ⟨hname.1, hname.2.1⟩)
      | parent => exact absurd rfl hname.2.2.1
      | descend _ _ _ _ hrest => exact hrest
      | link _ _ hlink =>
        rw [hnext] at hlink
        cases hlink
    · exact fun hrest ↦ .descend hdirectory ⟨hname.1, hname.2.1, hname.2.2.1⟩ hnext (by simp) hrest

/-- The path of a link leads to where its target does. -/
theorem resolves_link_iff (h : tree.nodes.get? (directory ++ [name]) = some (.symlink target)) :
    Resolves tree.nodes [] (directory ++ [name]) resolved ↔
      Resolves tree.nodes (linkStart directory target) (components target) resolved := by
  have hdirectory : tree.nodes.get? ([] ++ directory) = some .directory :=
    get?_of_append (List.cons_ne_nil name []) (mem_keys h)
  have hname := tree.names _ (mem_keys h) name (by simp)
  rw [resolves_append_iff hdirectory rfl, List.nil_append]
  constructor
  · intro hresolves
    cases hresolves with
    | stay _ hdot => exact absurd hdot (not_or.mpr ⟨hname.1, hname.2.1⟩)
    | parent => exact absurd rfl hname.2.2.1
    | descend _ _ hnode hlink =>
      rw [h, Option.some_inj] at hnode
      exact absurd hnode.symm (hlink target)
    | link _ _ hnode htarget hrest =>
      rw [h, Option.some_inj, Node.symlink.injEq] at hnode
      subst hnode
      cases hrest
      exact htarget
  · exact fun hresolves ↦
      .link hdirectory ⟨hname.1, hname.2.1, hname.2.2.1⟩ h hresolves (.nil _)

/-- What is resolved from a node exists. -/
theorem Resolves.isSome (h : Resolves tree.nodes directory names resolved)
    (hdirectory : (tree.nodes.get? directory).isSome = true) :
    (tree.nodes.get? resolved).isSome = true := by
  induction h with
  | nil => exact hdirectory
  | stay _ _ _ ih => exact ih hdirectory
  | @parent current last rest hcurrent _ ih =>
    refine ih ?_
    by_cases hnil : current = []
    · rw [hnil, List.dropLast_nil, tree.root]
      rfl
    · rw [tree.parents current (mem_keys hcurrent) hnil]
      rfl
  | descend _ _ hnode _ _ ih => exact ih (by rw [hnode]; rfl)
  | @link current next last name target rest hcurrent _ _ _ _ ihtarget ihrest =>
    refine ihrest (ihtarget ?_)
    unfold linkStart
    split_ifs
    · rw [tree.root]
      rfl
    · rw [hcurrent]
      rfl

/-- The link has a relative target that leads to a node inside. -/
def LinkResolves (tree : FileTree) (snapshot path : Path) (target : Text) : Prop :=
  isAbsolute target = false ∧ ∃ resolved,
    Resolves tree.nodes path.dropLast (components target) resolved ∧
      snapshot <+: resolved ∧ (tree.nodes.get? resolved).isSome = true

/-- A step of a traversal from a directory: to a child, or to where a link leads. -/
def Step (tree : FileTree) (snapshot : Path) (directory : Path) (name : Text) (next : Path) : Prop :=
  tree.nodes.get? (snapshot ++ next) = some .directory ∧
    (next = directory ++ [name] ∨
      ∃ target, tree.nodes.get? (snapshot ++ directory ++ [name]) = some (.symlink target) ∧
        Resolves tree.nodes (linkStart (snapshot ++ directory) target) (components target)
          (snapshot ++ next))

/-- The paths that a traversal visits, which follows the links to directories. -/
def visitedPaths (tree : FileTree) (snapshot : Path) : Set (List Text) :=
  {names | names ∈ paths (Step tree snapshot) [] ∨
    ∃ before directory name, names = before ++ [name] ∧ Walk (Step tree snapshot) [] before directory ∧
      (tree.nodes.get? (snapshot ++ directory ++ [name])).isSome = true}

/-! ### The graph -/

theorem targets_addEdge {parent child : Path} : Graph.targets (addEdge graph parent child) first =
    if first = parent then
      if child ∈ graph.targets parent then graph.targets parent else graph.targets parent ++ [child]
    else graph.targets first := by
  rw [Graph.targets, addEdge, Dict.get?_set]
  by_cases hfirst : first = parent
  · rw [if_pos hfirst, if_pos hfirst]
    rfl
  · rw [if_neg hfirst, if_neg hfirst]
    rfl

theorem edge_addEdge {parent child : Path} : Graph.Edge (addEdge graph parent child) first second ↔
      graph.Edge first second ∨ (first = parent ∧ second = child) := by
  rw [Graph.Edge, Graph.Edge, targets_addEdge]
  by_cases hfirst : first = parent
  · rw [if_pos hfirst, hfirst]
    by_cases hchild : child ∈ graph.targets parent
    · rw [if_pos hchild]
      refine ⟨.inl, fun hedge ↦ ?_⟩
      rcases hedge with hold | ⟨-, rfl⟩
      · exact hold
      · exact hchild
    · simp [hchild]
  · simp [hfirst]

theorem nodup_keys_addEdge {parent child : Path} (h : graph.keys.Nodup) :
    (addEdge graph parent child).keys.Nodup :=
  Dict.nodup_keys_set h

theorem edge_childGraph {directories : List Path} : (childGraph directories).Edge first second ↔
      second ∈ directories ∧ second ≠ [] ∧ first = second.dropLast := by
  have hempty (list : List Path) (graph : Graph Path) (hgraph : ∀ first, graph.targets first = []) :
      ∀ first, Graph.targets (list.foldl (fun graph path ↦ graph.set path []) graph) first = [] := by
    induction list generalizing graph with
    | nil => exact hgraph
    | cons path rest ih =>
      refine ih _ fun first ↦ ?_
      have hfirst := hgraph first
      simp only [Graph.targets, Dict.get?_set] at hfirst ⊢
      split_ifs
      · rfl
      · exact hfirst
  have hfold (list : List Path) (graph : Graph Path) :
      Graph.Edge (list.foldl (fun graph path ↦ addEdge graph path.dropLast path) graph) first second ↔
        graph.Edge first second ∨ (second ∈ list ∧ first = second.dropLast) := by
    induction list generalizing graph with
    | nil => simp
    | cons path rest ih =>
      rw [List.foldl_cons, ih, edge_addEdge, List.mem_cons]
      constructor
      · rintro ((hold | ⟨rfl, rfl⟩) | ⟨hrest, rfl⟩)
        · exact .inl hold
        · exact .inr ⟨.inl rfl, rfl⟩
        · exact .inr ⟨.inr hrest, rfl⟩
      · rintro (hold | ⟨rfl | hrest, rfl⟩)
        · exact .inl (.inl hold)
        · exact .inl (.inr ⟨rfl, rfl⟩)
        · exact .inr ⟨hrest, rfl⟩
  have hstart :
      ¬ Graph.Edge (directories.foldl (fun graph path ↦ graph.set path []) []) first second := by
    rw [Graph.Edge, hempty directories [] (fun _ ↦ rfl)]
    exact List.not_mem_nil
  rw [childGraph, hfold, List.mem_filter, decide_eq_true_eq]
  simp only [hstart, false_or, and_assoc]

theorem nodup_keys_childGraph {directories : List Path} : (childGraph directories).keys.Nodup := by
  have hfold (list : List Path) (graph : Graph Path) (hgraph : graph.keys.Nodup) :
      (list.foldl (fun graph path ↦ addEdge graph path.dropLast path) graph).keys.Nodup := by
    induction list generalizing graph with
    | nil => exact hgraph
    | cons path rest ih => exact ih _ (nodup_keys_addEdge hgraph)
  exact hfold _ _ (Dict.nodup_keys_foldl_set List.nodup_nil)

/-- The edge of a link to a directory. -/
def LinkEdge (tree : FileTree) (snapshot first second : Path) (entry : WorkspaceFile) : Prop :=
  entry.type = .symlink ∧ ∃ resolved, safeWorkspaceSymlinkTarget tree snapshot entry = .ok resolved ∧
    tree.nodes.get? resolved = some .directory ∧ first = entry.path.dropLast ∧
    second = resolved.drop snapshot.length

theorem addLink_eq_ok {next : Graph Path} (h : addLink tree snapshot graph entry = .ok next) :
    (entry.type = .symlink → ∃ resolved, safeWorkspaceSymlinkTarget tree snapshot entry = .ok resolved) ∧
      (graph.keys.Nodup → next.keys.Nodup) ∧
      ∀ first second, next.Edge first second ↔
        graph.Edge first second ∨ LinkEdge tree snapshot first second entry := by
  unfold addLink at h
  split_ifs at h with htype
  · cases h
    exact ⟨fun heq ↦ absurd heq htype, id, fun first second ↦ by simp [LinkEdge, htype]⟩
  · obtain ⟨resolved, hresolved, hnext⟩ := bind_eq_ok.mp h
    refine ⟨fun _ ↦ ⟨resolved, hresolved⟩, ?_⟩
    by_cases hdirectory : tree.nodes.get? resolved = some .directory
    · rw [if_pos hdirectory] at hnext
      cases hnext
      refine ⟨nodup_keys_addEdge, fun first second ↦ ?_⟩
      rw [edge_addEdge]
      simp [LinkEdge, not_not.mp htype, hresolved, hdirectory]
    · rw [if_neg hdirectory] at hnext
      cases hnext
      refine ⟨id, fun first second ↦ ?_⟩
      simp [LinkEdge, hresolved, hdirectory]

/-- What the loop over the links makes of a graph. -/
theorem foldlM_addLink {result : Graph Path}
    (h : entries.foldlM (addLink tree snapshot) graph = .ok result) :
    (∀ entry ∈ entries, entry.type = .symlink →
        ∃ resolved, safeWorkspaceSymlinkTarget tree snapshot entry = .ok resolved) ∧
      (graph.keys.Nodup → result.keys.Nodup) ∧
      ∀ first second, result.Edge first second ↔ graph.Edge first second ∨
        ∃ entry ∈ entries, LinkEdge tree snapshot first second entry := by
  induction entries generalizing graph with
  | nil =>
    cases h
    simp
  | cons entry rest ih =>
    obtain ⟨next, hnext, hrest⟩ := foldlM_cons_ok.mp h
    obtain ⟨hsafe, hnodup, hedge⟩ := addLink_eq_ok hnext
    obtain ⟨hsafeRest, hnodupRest, hedgeRest⟩ := ih hrest
    refine ⟨List.forall_mem_cons.mpr ⟨hsafe, hsafeRest⟩, hnodupRest ∘ hnodup,
      fun first second ↦ ?_⟩
    rw [hedgeRest, hedge, List.exists_mem_cons_iff, or_assoc]

theorem exists_foldlM_addLink (h : ∀ entry ∈ entries, entry.type = .symlink →
    ∃ resolved, safeWorkspaceSymlinkTarget tree snapshot entry = .ok resolved) (graph : Graph Path) :
    ∃ result, entries.foldlM (addLink tree snapshot) graph = .ok result := by
  induction entries generalizing graph with
  | nil => exact ⟨graph, rfl⟩
  | cons entry rest ih =>
    obtain ⟨hentry, hrest⟩ := List.forall_mem_cons.mp h
    obtain ⟨next, hnext⟩ : ∃ next, addLink tree snapshot graph entry = .ok next := by
      unfold addLink
      split_ifs with htype
      · exact ⟨graph, rfl⟩
      · obtain ⟨resolved, hresolved⟩ := hentry (not_not.mp htype)
        exact ⟨_, bind_eq_ok.mpr ⟨resolved, hresolved, rfl⟩⟩
    obtain ⟨result, hresult⟩ := ih hrest next
    exact ⟨result, foldlM_cons_ok.mpr ⟨next, hnext, hresult⟩⟩

/-! ### Entries -/

theorem mem_workspaceEntries : entry ∈ workspaceEntries tree snapshot ↔
    entry = { path := [], type := .directory, target := none } ∨
      ∃ path node, path ≠ [] ∧ tree.nodes.get? (snapshot ++ path) = some node ∧
        entry = workspaceEntry path node := by
  rw [workspaceEntries, List.mem_cons, List.mem_filterMap]
  refine or_congr Iff.rfl ⟨?_, ?_⟩
  · rintro ⟨⟨path, node⟩, hmem, hentry⟩
    split_ifs at hentry with hbelow
    obtain ⟨⟨rest, rfl⟩, hne⟩ := hbelow
    cases hentry
    rw [List.drop_left]
    refine ⟨rest, node, ?_, (Dict.get?_eq_some_iff tree.nodup).mpr hmem, rfl⟩
    rintro rfl
    exact hne (List.append_nil snapshot).symm
  · rintro ⟨path, node, hpath, hnode, rfl⟩
    refine ⟨(snapshot ++ path, node), Dict.mem_of_get?_eq_some hnode, ?_⟩
    rw [if_pos ⟨List.prefix_append _ _, by simpa using hpath.symm⟩, List.drop_left]

/-- The targets that the check of one link accepts. -/
theorem safeWorkspaceSymlinkTarget_eq_ok_iff (hpath : path ≠ [])
    (hnode : tree.nodes.get? (snapshot ++ path) = some (.symlink target)) :
    safeWorkspaceSymlinkTarget tree snapshot (workspaceEntry path (.symlink target)) = .ok resolved ↔
      isAbsolute target = false ∧
        Resolves tree.nodes (snapshot ++ path).dropLast (components target) resolved ∧
        snapshot <+: resolved := by
  obtain ⟨directory, name, rfl⟩ : ∃ directory name, path = directory ++ [name] :=
    ⟨_, _, (List.dropLast_concat_getLast hpath).symm⟩
  rw [← List.append_assoc] at hnode
  rw [← List.append_assoc, List.dropLast_concat]
  unfold safeWorkspaceSymlinkTarget workspaceEntry
  dsimp only [Option.getD]
  by_cases habsolute : isAbsolute target = true
  · simp [habsolute]
  · have hstart : linkStart (snapshot ++ directory) target = snapshot ++ directory := by
      simp [linkStart, habsolute]
    have hresolve (last : Path) : resolve tree.nodes (snapshot ++ (directory ++ [name])) = some last ↔
        Resolves tree.nodes (snapshot ++ directory) (components target) last := by
      rw [← List.append_assoc, resolve_eq_some_iff, resolves_link_iff hnode, hstart]
    rw [if_neg habsolute, and_iff_right (by simpa using habsolute), ← hresolve]
    cases hresult : resolve tree.nodes (snapshot ++ (directory ++ [name])) with
    | none => simp
    | some last =>
      by_cases hinside : snapshot <+: last
      · simp only [if_neg (not_not.mpr hinside), Except.ok.injEq, Option.some_inj]
        refine ⟨fun heq ↦ ⟨heq, heq ▸ hinside⟩, And.left⟩
      · simp only [if_pos hinside, reduceCtorEq, false_iff, Option.some_inj]
        rintro ⟨rfl, hprefix⟩
        exact hinside hprefix

/-- The links of the workspace lead inside. -/
def LinksResolve (tree : FileTree) (snapshot : Path) : Prop :=
  ∀ path target, tree.nodes.get? (snapshot ++ path) = some (.symlink target) →
    LinkResolves tree snapshot (snapshot ++ path) target

/-- Every link is accepted exactly when the links lead inside. -/
theorem forall_safe_iff (hsnapshot : tree.nodes.get? snapshot = some .directory)
    (hentries : entries.Perm (workspaceEntries tree snapshot)) :
    (∀ entry ∈ entries, entry.type = .symlink →
        ∃ resolved, safeWorkspaceSymlinkTarget tree snapshot entry = .ok resolved) ↔
      LinksResolve tree snapshot := by
  constructor
  · intro hsafe path target hnode
    have hpath : path ≠ [] := by
      rintro rfl
      rw [List.append_nil, hsnapshot] at hnode
      cases hnode
    obtain ⟨resolved, hresolved⟩ := hsafe (workspaceEntry path (.symlink target))
      (hentries.mem_iff.mpr (mem_workspaceEntries.mpr (.inr ⟨path, _, hpath, hnode, rfl⟩))) rfl
    obtain ⟨hrelative, hresolves, hinside⟩ :=
      (safeWorkspaceSymlinkTarget_eq_ok_iff hpath hnode).mp hresolved
    refine ⟨hrelative, resolved, hresolves, hinside, hresolves.isSome ?_⟩
    rw [tree.parents _ (mem_keys hnode) (by simp [hpath])]
    rfl
  · intro hlinks entry hentry htype
    obtain rfl | ⟨path, node, hpath, hnode, rfl⟩ := mem_workspaceEntries.mp (hentries.mem_iff.mp hentry)
    · cases htype
    · cases node with
      | directory => cases htype
      | file => cases htype
      | symlink target =>
        obtain ⟨hrelative, resolved, hresolves, hinside, -⟩ := hlinks path target hnode
        exact ⟨resolved, (safeWorkspaceSymlinkTarget_eq_ok_iff hpath hnode).mpr
          ⟨hrelative, hresolves, hinside⟩⟩

/-- The edges of the links are the steps through links. -/
theorem exists_linkEdge_iff (hentries : entries.Perm (workspaceEntries tree snapshot))
    (hlinks : LinksResolve tree snapshot) :
    (∃ entry ∈ entries, LinkEdge tree snapshot first second entry) ↔
      ∃ name target, tree.nodes.get? (snapshot ++ first ++ [name]) = some (.symlink target) ∧
        Resolves tree.nodes (linkStart (snapshot ++ first) target) (components target)
          (snapshot ++ second) ∧
        tree.nodes.get? (snapshot ++ second) = some .directory := by
  constructor
  · rintro ⟨entry, hentry, htype, resolved, hresolved, hdirectory, rfl, rfl⟩
    obtain rfl | ⟨path, node, hpath, hnode, rfl⟩ := mem_workspaceEntries.mp (hentries.mem_iff.mp hentry)
    · cases htype
    · cases node with
      | directory => cases htype
      | file => cases htype
      | symlink target =>
        obtain ⟨hrelative, hresolves, rest, rfl⟩ :=
          (safeWorkspaceSymlinkTarget_eq_ok_iff hpath hnode).mp hresolved
        obtain ⟨directory, name, rfl⟩ : ∃ directory name, path = directory ++ [name] :=
          ⟨_, _, (List.dropLast_concat_getLast hpath).symm⟩
        rw [← List.append_assoc, List.dropLast_concat] at hresolves
        refine ⟨name, target, ?_, ?_, ?_⟩
        · simpa [workspaceEntry] using hnode
        · simpa [workspaceEntry, linkStart, hrelative] using hresolves
        · rwa [List.drop_left]
  · rintro ⟨name, target, hnode, hresolves, hdirectory⟩
    rw [List.append_assoc] at hnode
    have hpath : first ++ [name] ≠ [] := by simp
    have hrelative := (hlinks _ _ hnode).1
    refine ⟨workspaceEntry (first ++ [name]) (.symlink target),
      hentries.mem_iff.mpr (mem_workspaceEntries.mpr (.inr ⟨_, _, hpath, hnode, rfl⟩)), rfl,
      snapshot ++ second, (safeWorkspaceSymlinkTarget_eq_ok_iff hpath hnode).mpr
        ⟨hrelative, ?_, List.prefix_append _ _⟩, hdirectory, ?_, ?_⟩
    · rw [← List.append_assoc, List.dropLast_concat]
      simpa [linkStart, hrelative] using hresolves
    · simp [workspaceEntry]
    · rw [List.drop_left]

/-- The edges of the graph are the steps of a traversal. -/
theorem edge_iff_next (hentries : entries.Perm (workspaceEntries tree snapshot))
    (hlinks : LinksResolve tree snapshot) {result : Graph Path}
    (h : workspaceDirectoryGraph tree snapshot entries = .ok result) :
    result.Edge first second ↔ Next (Step tree snapshot) first second := by
  have hdirectory : second ≠ [] → (second ∈ (entries.filter fun entry ↦
      entry.type = .directory).map WorkspaceFile.path ↔
        tree.nodes.get? (snapshot ++ second) = some .directory) := by
    intro hsecond
    rw [List.mem_map]
    constructor
    · rintro ⟨entry, hentry, rfl⟩
      obtain ⟨hmem, htype⟩ := List.mem_filter.mp hentry
      obtain rfl | ⟨path, node, hpath, hnode, rfl⟩ :=
        mem_workspaceEntries.mp (hentries.mem_iff.mp hmem)
      · exact absurd rfl hsecond
      · cases node with
        | directory => exact hnode
        | file => simp [workspaceEntry] at htype
        | symlink target => simp [workspaceEntry] at htype
    · intro hnode
      exact ⟨workspaceEntry second .directory, List.mem_filter.mpr ⟨hentries.mem_iff.mpr
        (mem_workspaceEntries.mpr (.inr ⟨second, _, hsecond, hnode, rfl⟩)), rfl⟩, rfl⟩
  rw [(foldlM_addLink h).2.2, edge_childGraph, exists_linkEdge_iff hentries hlinks]
  constructor
  · rintro (⟨hmem, hsecond, rfl⟩ | ⟨name, target, hnode, hresolves, hnext⟩)
    · exact ⟨_, (hdirectory hsecond).mp hmem, .inl (List.dropLast_concat_getLast hsecond).symm⟩
    · exact ⟨name, hnext, .inr ⟨target, hnode, hresolves⟩⟩
  · rintro ⟨name, hnext, rfl | ⟨target, hnode, hresolves⟩⟩
    · exact .inl ⟨(hdirectory (by simp)).mpr hnext, by simp, by rw [List.dropLast_concat]⟩
    · exact .inr ⟨name, target, hnode, hresolves, hnext⟩

/-! ### Traversals -/

theorem finite_keys (tree : FileTree) (before : Path) :
    {path | before ++ path ∈ tree.nodes.keys}.Finite :=
  (List.finite_toSet tree.nodes.keys).preimage (List.append_right_injective before).injOn

theorem Step.starts (h : Step tree snapshot first name second) :
    tree.nodes.get? (snapshot ++ first) = some .directory := by
  obtain ⟨hsecond, rfl | ⟨target, hnode, -⟩⟩ := h
  · rw [← List.append_assoc] at hsecond
    exact get?_of_append (List.cons_ne_nil name []) (mem_keys hsecond)
  · exact get?_of_append (List.cons_ne_nil name []) (mem_keys hnode)

theorem reaches_directory (h : tree.nodes.get? (snapshot ++ path) = some .directory) :
    ReflTransGen (Next (Step tree snapshot)) [] path := by
  induction path using List.reverseRecOn with
  | nil => exact .refl
  | append_singleton rest name ih =>
    have hrest : tree.nodes.get? (snapshot ++ rest) = some .directory := by
      rw [← List.append_assoc] at h
      exact get?_of_append (List.cons_ne_nil name []) (mem_keys h)
    exact (ih hrest).tail ⟨name, h, .inl rfl⟩

/-- A traversal visits finitely many paths exactly when no directory reaches itself. -/
theorem finite_visitedPaths_iff : (visitedPaths tree snapshot).Finite ↔
    ∀ directory, ¬ TransGen (Next (Step tree snapshot)) directory directory := by
  have hnames : {name : Text | ∃ path, path ++ [name] ∈ tree.nodes.keys}.Finite := by
    refine ((List.finite_toSet tree.nodes.keys).image fun path ↦ path.getLastD []).subset ?_
    rintro name ⟨path, hpath⟩
    exact ⟨path ++ [name], hpath, by simp⟩
  have hnodes : {node | ∃ other, Next (Step tree snapshot) node other}.Finite := by
    refine Set.Finite.subset (finite_keys tree snapshot) ?_
    rintro node ⟨other, name, hstep⟩
    exact mem_keys (Step.starts hstep)
  have hbranch (node : Path) :
      {pair : Text × Path | Step tree snapshot node pair.1 pair.2}.Finite := by
    refine Set.Finite.subset (hnames.prod (finite_keys tree snapshot)) ?_
    rintro ⟨name, next⟩ ⟨hnext, hchild | ⟨target, hnode, -⟩⟩
    · refine ⟨⟨snapshot ++ node, ?_⟩, mem_keys hnext⟩
      rw [List.append_assoc]
      exact hchild ▸ mem_keys hnext
    · exact ⟨⟨_, mem_keys hnode⟩, mem_keys hnext⟩
  have hreach (node other : Path) (hnext : Next (Step tree snapshot) node other) :
      ReflTransGen (Next (Step tree snapshot)) [] node := by
    obtain ⟨name, hstep⟩ := hnext
    exact reaches_directory (Step.starts hstep)
  rw [← finite_paths_iff hnodes hbranch hreach]
  refine ⟨fun hvisited ↦ hvisited.subset fun _ ↦ .inl, fun hpaths ↦ ?_⟩
  refine (hpaths.union (hpaths.image2 (fun before name ↦ before ++ [name]) hnames)).subset ?_
  rintro names (hnames | ⟨before, directory, name, rfl, hwalk, hnode⟩)
  · exact .inl hnames
  · exact .inr ⟨before, ⟨directory, hwalk⟩, name, ⟨_, Dict.get?_isSome_iff.mp hnode⟩, rfl⟩

theorem requireAcyclicDirectoryGraph_eq_ok_iff (h : graph.keys.Nodup) :
    requireAcyclicDirectoryGraph graph = .ok () ↔ ∀ key, ¬ TransGen graph.Edge key key := by
  obtain ⟨visited, heliminate, hvisited⟩ := Graph.eliminate_eq_length_iff h le_rfl
  unfold requireAcyclicDirectoryGraph
  simp only [heliminate, ne_eq, Option.some_inj]
  rw [← hvisited]
  split_ifs with hlength
  · simp [hlength]
  · simp [hlength]

/-- A workspace with a directory and a link at its root. -/
def sampleTree (target : Text) : FileTree where
  nodes :=
    [([], .directory), ([['w']], .directory), ([['w'], ['a']], .directory),
      ([['w'], ['a'], ['x']], .file), ([['w'], ['l']], .symlink target)]
  nodup :=
    show ([[], [['w']], [['w'], ['a']], [['w'], ['a'], ['x']], [['w'], ['l']]] : List Path).Nodup by
      decide
  root := rfl
  parents := by
    simp only [Dict.keys, List.map_cons, List.map_nil, List.forall_mem_cons]
    exact ⟨fun h ↦ absurd rfl h, fun _ ↦ rfl, fun _ ↦ rfl, fun _ ↦ rfl, fun _ ↦ rfl, by simp⟩
  names := by
    simp only [Dict.keys, List.map_cons, List.map_nil]
    decide

end HarborHF.Workspace
