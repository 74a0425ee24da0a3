import HarborHF.Worker.Publication

/-!
# What a publication does not touch

A child execution with a terminal marker is compared with that of the source, and its files stay as
they are wherever the attempt is stopped, whatever the source and the destination are
(`keeps_terminal`).
-/

set_option autoImplicit false

namespace HarborHF.Worker

open Async Relational

/-! ### Child executions with a marker -/

section Executions

variable {root : Tree} {name marker : String}

/-- The execution has a terminal marker. -/
def Terminal (root : Tree) (name : String) : Prop :=
  terminalMarkers (below ["executions", name] root) ≠ []

theorem terminal_iff : Terminal root name ↔
    ∃ marker ∈ terminalMarkerNames, (root.get? ["executions", name, marker]).isSome = true := by
  rw [Terminal, Ne, terminalMarkers_eq_nil_iff]
  simp only [not_forall, get?_below (List.cons_ne_nil _ []), List.cons_append, List.nil_append,
    ← Option.isSome_iff_ne_none, ← ne_eq, exists_prop]

theorem mem_executionNames (h : Terminal root name) : name ∈ executionNames root := by
  obtain ⟨marker, -, hmarker⟩ := terminal_iff.mp h
  rw [executionNames, List.mem_insertionSort, List.mem_dedup, List.mem_filterMap]
  exact ⟨["executions", name, marker], mem_keys_iff.mpr hmarker, rfl⟩

/-- The executions with a marker, each with its first one. -/
def terminalExecutions (root : Tree) : List (String × String) :=
  (executionNames root).filterMap fun name ↦
    (terminalMarkers (below ["executions", name] root)).head?.map fun marker ↦ (name, marker)

theorem mem_terminalExecutions_iff : (name, marker) ∈ terminalExecutions root ↔
    (terminalMarkers (below ["executions", name] root)).head? = some marker := by
  unfold terminalExecutions
  rw [List.mem_filterMap]
  constructor
  · rintro ⟨other, -, heq⟩
    obtain ⟨found, hfound, hpair⟩ := Option.map_eq_some_iff.mp heq
    cases hpair
    exact hfound
  · intro hhead
    refine ⟨name, mem_executionNames fun hnil ↦ ?_, by rw [hhead, Option.map_some]⟩
    rw [hnil] at hhead
    cases hhead

theorem mem_terminalNames_iff :
    name ∈ (terminalExecutions root).map Prod.fst ↔ Terminal root name := by
  rw [List.mem_map]
  constructor
  · rintro ⟨⟨other, marker⟩, hmem, rfl⟩ hnil
    have hhead := mem_terminalExecutions_iff.mp hmem
    rw [hnil] at hhead
    cases hhead
  · intro hterminal
    obtain ⟨marker, others, heq⟩ := List.exists_cons_of_ne_nil hterminal
    exact ⟨(name, marker), mem_terminalExecutions_iff.mpr (by rw [heq, List.head?_cons]), rfl⟩

variable [Checksums]

/-- The execution passes the checks of those that have a marker. -/
def Verified (root : Tree) (name : String) : Prop :=
  verifyTerminalExecution (below ["executions", name] root)
    (terminalMarkers (below ["executions", name] root)) = .ok ()

theorem addTerminalExecution_eq_ok_iff {terminal found : List (String × String)} :
    addTerminalExecution root found name = .ok terminal ↔
      (Terminal root name → Verified root name) ∧ terminal = found ++
        ((terminalMarkers (below ["executions", name] root)).head?.map fun marker ↦
          (name, marker)).toList := by
  unfold addTerminalExecution Terminal Verified
  dsimp only
  cases hmarkers : terminalMarkers (below ["executions", name] root) with
  | nil => simp [eq_comm]
  | cons marker others =>
    dsimp only
    rw [bind_eq_ok]
    constructor
    · rintro ⟨⟨⟩, hverified, heq⟩
      exact ⟨fun _ ↦ hverified, (Except.ok.inj heq).symm⟩
    · rintro ⟨hverified, rfl⟩
      exact ⟨(), hverified (List.cons_ne_nil marker others), rfl⟩

omit [Checksums] in
theorem filterMap_cons_toList {α β : Type} (f : α → Option β) (item : α) (rest : List α) :
    (item :: rest).filterMap f = (f item).toList ++ rest.filterMap f := by
  cases hitem : f item with
  | none => rw [List.filterMap_cons_none hitem, Option.toList_none, List.nil_append]
  | some value => rw [List.filterMap_cons_some hitem, Option.toList_some, List.singleton_append]

/-- The executions with a marker are found if they are verified. -/
theorem terminalExecutionDirectories_eq_ok_iff {terminal : List (String × String)} :
    terminalExecutionDirectories root = .ok terminal ↔ root.get? ["executions"] = none ∧
      (∀ name, Terminal root name → Verified root name) ∧ terminal = terminalExecutions root := by
  have hfold (names : List String) (found : List (String × String)) :
      names.foldlM (addTerminalExecution root) found = .ok terminal ↔
      (∀ name ∈ names, Terminal root name → Verified root name) ∧
        terminal = found ++ names.filterMap fun name ↦
          (terminalMarkers (below ["executions", name] root)).head?.map fun marker ↦
            (name, marker) := by
    induction names generalizing found with
    | nil => simp [List.foldlM, pure, Except.pure, eq_comm]
    | cons name rest ih =>
      rw [foldlM_cons_ok, List.forall_mem_cons, filterMap_cons_toList]
      simp only [addTerminalExecution_eq_ok_iff, ih]
      constructor
      · rintro ⟨-, ⟨hname, rfl⟩, hrest, rfl⟩
        exact ⟨⟨hname, hrest⟩, List.append_assoc _ _ _⟩
      · rintro ⟨⟨hname, hrest⟩, rfl⟩
        exact ⟨_, ⟨hname, rfl⟩, hrest, (List.append_assoc _ _ _).symm⟩
  unfold terminalExecutionDirectories
  by_cases hfile : (root.get? ["executions"]).isSome = true
  · rw [if_pos hfile]
    simp [Option.ne_none_iff_isSome.mpr hfile]
  · rw [if_neg hfile, hfold, List.nil_append]
    rw [Bool.not_eq_true, Option.isSome_eq_false_iff, Option.isNone_iff_eq_none] at hfile
    refine ⟨fun h ↦ ⟨hfile, fun name hname ↦ h.1 name (mem_executionNames hname) hname, h.2⟩,
      fun h ↦ ⟨fun name _ ↦ h.2.1 name, h.2.2⟩⟩

end Executions

/-! ### What is not touched -/

section Kept

variable {source : Directory} {surroundings : Surroundings source} {executions : List String}
  {path : Path} {name : String} {rest : List String} {root : Tree}

theorem isProtected_cons :
    isProtected executions ("executions" :: name :: rest) = true ↔ name ∈ executions := by
  simp [isProtected]

theorem exists_of_isProtected (h : isProtected executions path = true) :
    ∃ name rest, path = "executions" :: name :: rest ∧ name ∈ executions := by
  unfold isProtected at h
  split at h
  · exact ⟨_, _, rfl, of_decide_eq_true h⟩
  · cases h

/-- The path is not below one of the executions. -/
def Outside (executions : List String) (path : Path) : Prop :=
  ∀ name ∈ executions, ∀ rest, rest ≠ [] → path ≠ "executions" :: name :: rest

theorem outside_of_not_protected (h : isProtected executions path = false) :
    Outside executions path := by
  rintro name hname rest - rfl
  rw [isProtected_cons.mpr hname] at h
  cases h

theorem temporary_ne_concat (uuid : Path → String) (path directory : Path)
    (hname : name.toList.head? ≠ some '.') : temporary uuid path ≠ directory ++ [name] := by
  intro heq
  have hlast := (List.append_inj' heq rfl).2
  rw [List.cons.injEq] at hlast
  refine hname ?_
  rw [← hlast.1, String.toList_append]
  rfl

theorem head_of_marker (h : name ∈ terminalMarkerNames) : name.toList.head? ≠ some '.' := by
  revert name
  decide

/-- The temporary file is beside the file. -/
theorem exists_of_temporary {uuid : Path → String} (hrest : rest ≠ [])
    (h : temporary uuid path = "executions" :: name :: rest) :
    ∃ tail, path = "executions" :: name :: tail := by
  have hparent : path.dropLast = "executions" :: name :: rest.dropLast := by
    have hdrop := congrArg List.dropLast h
    rw [temporary, List.dropLast_concat] at hdrop
    rw [hdrop, List.dropLast_cons_of_ne_nil (List.cons_ne_nil _ _),
      List.dropLast_cons_of_ne_nil hrest]
  have hbegins : "executions" :: name :: rest.dropLast <+: path :=
    hparent ▸ List.dropLast_prefix path
  obtain ⟨tail, rfl⟩ := hbegins
  exact ⟨rest.dropLast ++ tail, rfl⟩

theorem outside_temporary (uuid : Path → String) (h : isProtected executions path = false) :
    Outside executions (temporary uuid path) := by
  intro name hname rest hrest heq
  obtain ⟨tail, rfl⟩ := exists_of_temporary hrest heq
  rw [isProtected_cons.mpr hname] at h
  cases h

/-- The files of some executions are as in the tree. -/
def Kept (executions : List String) (root destination : Tree) : Prop :=
  ∀ name ∈ executions, ∀ rest, rest ≠ [] →
    destination.get? ("executions" :: name :: rest) = root.get? ("executions" :: name :: rest)

theorem kept_erase (h : Outside executions path) {destination : Tree}
    (hkept : Kept executions root destination) : Kept executions root (destination.erase path) := by
  intro name hname rest hrest
  rw [Dict.get?_erase_of_ne (h name hname rest hrest).symm]
  exact hkept name hname rest hrest

theorem kept_set (h : Outside executions path) {destination : Tree} {content : Bytes}
    (hkept : Kept executions root destination) :
    Kept executions root (destination.set path content) := by
  intro name hname rest hrest
  rw [Dict.get?_set_of_ne (h name hname rest hrest).symm]
  exact hkept name hname rest hrest

theorem keeps_publishImmutableFile (uuid : Path → String) (content : Bytes)
    (h : isProtected executions path = false) :
    (publishImmutableFile uuid content path).Keeps (Kept executions root) := by
  have hpath := outside_of_not_protected h
  have htemporary := outside_temporary uuid h
  refine Procedure.keeps_fetch.bind fun destination ↦ ?_
  cases destination.get? path with
  | some observed =>
    by_cases hsame : observed ≠ content
    · simp only [if_pos hsame]
      exact Procedure.keeps_raise
    · simp only [if_neg hsame]
      exact Procedure.keeps_pure
  | none =>
    have hcopy : (copyFile content (temporary uuid path)).Keeps (Kept executions root) :=
      Procedure.keeps_forM fun count _ ↦ Procedure.keeps_modify fun _ hkept ↦ kept_set htemporary hkept
    refine hcopy.bind fun _ ↦ Procedure.keeps_modify fun destination hkept ↦ ?_
    cases destination.get? (temporary uuid path) with
    | none => exact hkept
    | some content => exact kept_set hpath (kept_erase htemporary hkept)

theorem keeps_removeUnprotectedDestination :
    (removeUnprotectedDestination surroundings executions).Keeps (Kept executions root) := by
  refine Procedure.keeps_fetch.bind fun destination ↦ Procedure.keeps_forM fun path hpath ↦ ?_
  have hfree : isProtected executions path = false := by
    simpa using (List.mem_filter.mp hpath).2
  exact Procedure.keeps_modify fun _ hkept ↦ kept_erase (outside_of_not_protected hfree) hkept

/-- The names of the executions with a marker. -/
def terminalNames (root : Tree) : List String := (terminalExecutions root).map Prod.fst

variable [Checksums]

theorem kept_recoverPartialPublication (surroundings : Surroundings source) (destination : Tree) :
    (recoverPartialPublication surroundings).Meets (Kept (terminalNames destination) destination)
      (fun found state ↦ found = terminalNames destination ∧
        Kept (terminalNames destination) destination state) (fun _ _ ↦ True) destination := by
  have hstart : Kept (terminalNames destination) destination destination := fun _ _ _ _ ↦ rfl
  refine Procedure.meets_fetch_bind.mpr ?_
  have hfound : (Procedure.ofExcept (terminalExecutionDirectories destination)).Meets
      (Kept (terminalNames destination) destination)
      (fun terminal state ↦ terminal = terminalExecutions destination ∧ destination = state)
      (fun _ _ ↦ True) destination :=
    Procedure.meets_ofExcept hstart
      (fun terminal hok ↦ ⟨(terminalExecutionDirectories_eq_ok_iff.mp hok).2.2, rfl⟩)
      fun _ _ ↦ trivial
  refine hfound.bind ?_
  rintro terminal state - ⟨rfl, rfl⟩
  refine (Procedure.keeps_ofExcept _ hstart).bind fun _ state _ hstate ↦ ?_
  have hremoved : (removeUnprotectedDestination surroundings (terminalNames destination)).Meets
      (Kept (terminalNames destination) destination)
      (fun _ ↦ Kept (terminalNames destination) destination) (fun _ _ ↦ True) state :=
    keeps_removeUnprotectedDestination state hstate
  exact hremoved.bind fun _ state _ hstate ↦ Procedure.meets_pure hstate ⟨rfl, hstate⟩

/-- Wherever an attempt is stopped, the executions that had a marker are as they were. -/
theorem keeps_terminal (source : Directory) (surroundings : Surroundings source)
    (destination : Tree) : (publishUnit source surroundings).Meets
      (Kept (terminalNames destination) destination)
      (fun _ ↦ Kept (terminalNames destination) destination) (fun _ _ ↦ True) destination := by
  have hstart : Kept (terminalNames destination) destination destination := fun _ _ _ _ ↦ rfl
  unfold publishUnit
  split
  · rename_i marker hmarker
    have hverified : (Procedure.ofExcept (verifyChecksums source.files)).Meets
        (Kept (terminalNames destination) destination) (fun _ state ↦ destination = state)
        (fun _ _ ↦ True) destination :=
      Procedure.meets_ofExcept hstart (fun _ _ ↦ rfl) fun _ _ ↦ trivial
    refine hverified.bind ?_
    rintro - _ - rfl
    refine Procedure.meets_fetch_bind.mpr ?_
    by_cases hterminal : terminalMarkers destination ≠ []
    · rw [if_pos hterminal]
      exact Procedure.keeps_raise _ hstart
    · rw [if_neg hterminal]
      refine (kept_recoverPartialPublication surroundings destination).bind ?_
      rintro executions later - ⟨rfl, hlater⟩
      have hmarkerFree : isProtected (terminalNames destination) [marker] = false := by
        unfold isProtected
        split
        · rename_i heq
          cases heq
        · rfl
      have hfiles : (((ordered source marker).filter fun path ↦
          !isProtected (terminalNames destination) path).forM fun path ↦
            publishImmutableFile surroundings.uuid ((source.files.get? path).getD []) path).Keeps
          (Kept (terminalNames destination) destination) := by
        refine Procedure.keeps_forM fun path hpath ↦ keeps_publishImmutableFile _ _ ?_
        simpa using (List.mem_filter.mp hpath).2
      refine (hfiles.bind fun _ ↦ Procedure.keeps_fetch.bind fun _ ↦ Procedure.keeps_ofExcept.bind fun _ ↦
        (keeps_publishImmutableFile _ _ hmarkerFree).bind fun _ ↦ Procedure.keeps_fetch.bind fun _ ↦
          Procedure.keeps_ofExcept) later hlater
  · exact Procedure.keeps_raise _ hstart

end Kept

end HarborHF.Worker
