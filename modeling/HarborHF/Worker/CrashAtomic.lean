import HarborHF.Worker.Executions

/-!
# Publication across crashes

An attempt to publish a unit may be stopped anywhere, and the next one begins where it was stopped.
What such attempts leave is interrupted: there is no marker of the unit, and a child execution that
has a marker is that of the source (`Interrupted`). Every attempt keeps that or completes the unit,
and a whole one completes it (`publishUnit_meets`).
-/

set_option autoImplicit false

namespace HarborHF.Worker

open Async Relational

/-! ### What attempts leave -/

section Interrupted

variable {source : Directory} {destination : Tree} {name marker : String}

/-- What interrupted attempts leave: there is no marker of the unit, and each child execution with a
marker is that of the source. -/
structure Interrupted (source : Directory) (destination : Tree) : Prop where
  marker : terminalMarkers destination = []
  executions : destination.get? ["executions"] = none
  terminal : ∀ name, Terminal destination name → ∀ rest,
    destination.get? ("executions" :: name :: rest) =
      source.files.get? ("executions" :: name :: rest)

/-- The unit is there with all its files, and nothing else. -/
def Complete (source : Directory) (destination : Tree) : Prop :=
  ∀ path, destination.get? path = source.files.get? path

/-- A unit of evidence: its checksums are valid, it has one terminal marker, and its child
executions that have a marker are verified ones. -/
structure SourceUnit [Checksums] (source : Directory) : Prop where
  marker : ∃ marker, terminalMarkers source.files = [marker]
  checksums : verifyChecksums source.files = .ok ()
  executions : source.files.get? ["executions"] = none
  children : ∀ name, Terminal source.files name → Verified source.files name

theorem interrupted_empty : Interrupted source [] where
  marker := rfl
  executions := rfl
  terminal name h := absurd (terminal_iff.mp h) (by simp)

variable [Checksums]

theorem exists_marker_of_verified {root : Tree} (h : Verified root name) :
    ∃ marker, terminalMarkers (below ["executions", name] root) = [marker] := by
  unfold Verified verifyTerminalExecution at h
  split_ifs at h with hlength
  exact List.length_eq_one_iff.mp (not_not.mp hlength)

/-- A child execution with a marker in the destination passes the checks and matches the source. -/
theorem Interrupted.matches (h : Interrupted source destination) (hunit : SourceUnit source)
    (hterminal : Terminal destination name) : Verified destination name ∧
      requireMatchingExecution source name (below ["executions", name] destination)
        ((terminalMarkers (below ["executions", name] destination)).headD "") = .ok () := by
  have hbelow (path : Path) : (below ["executions", name] destination).get? path =
      (below ["executions", name] source.files).get? path := by
    by_cases hpath : path = []
    · rw [hpath, get?_below_nil, get?_below_nil]
    · rw [get?_below hpath, get?_below hpath]
      exact h.terminal name hterminal path
  have hmarkers : terminalMarkers (below ["executions", name] destination) =
      terminalMarkers (below ["executions", name] source.files) :=
    terminalMarkers_congr fun _ _ ↦ hbelow _
  have hsource : Terminal source.files name := by
    unfold Terminal at hterminal ⊢
    rwa [← hmarkers]
  have hverified := hunit.children name hsource
  have hchecks : verifyChecksums (below ["executions", name] destination) =
      verifyChecksums (below ["executions", name] source.files) :=
    verifyChecksums_congr fun path _ ↦ hbelow path
  have hmatch : treesMatch (below ["executions", name] destination)
      (below ["executions", name] source.files) = true := by
    simp only [treesMatch, List.all_eq_true, decide_eq_true_eq]
    exact fun path _ ↦ by rw [hbelow path]
  obtain ⟨marker, hone⟩ := exists_marker_of_verified hverified
  refine ⟨?_, ?_⟩
  · unfold Verified verifyTerminalExecution
    rw [hmarkers, hchecks]
    exact hverified
  · have hexpected : (below ["executions", name] source.files).isEmpty = false := by
      rw [List.isEmpty_eq_false_iff]
      rintro hnil
      rw [Terminal, hnil] at hsource
      exact hsource rfl
    unfold requireMatchingExecution
    simp only [hexpected, Bool.false_eq_true, if_false]
    rw [show verifyTerminalExecution (below ["executions", name] source.files)
      (terminalMarkers (below ["executions", name] source.files)) = .ok () from hverified,
      hmarkers, hone]
    exact if_neg (by simp [hmatch])

/-- Some files are gone, none of them of a child execution with a marker. -/
structure Erased (destination : Tree) (gone : List Path) (later : Tree) : Prop where
  get? : ∀ path, later.get? path = if path ∈ gone then none else destination.get? path
  unprotected : ∀ path ∈ gone, isProtected (terminalNames destination) path = false

omit [Checksums] in
/-- What is left of what was interrupted was interrupted. -/
theorem Interrupted.of_erased (h : Interrupted source destination) {later : Tree} {gone : List Path}
    (herased : Erased destination gone later) : Interrupted source later := by
  obtain ⟨hlater, hgone⟩ := herased
  have hsome {path : Path} (hpath : (later.get? path).isSome = true) :
      (destination.get? path).isSome = true := by
    rw [hlater] at hpath
    by_cases hmem : path ∈ gone
    · rw [if_pos hmem] at hpath
      cases hpath
    · rwa [if_neg hmem] at hpath
  refine ⟨?_, ?_, ?_⟩
  · have hmarker := h.marker
    rw [terminalMarkers_eq_nil_iff] at hmarker ⊢
    intro name hname
    rw [hlater, hmarker name hname, ite_self]
  · rw [hlater, h.executions, ite_self]
  · intro name hterminal rest
    have hbefore : Terminal destination name := by
      obtain ⟨marker, hmarker, hfile⟩ := terminal_iff.mp hterminal
      exact terminal_iff.mpr ⟨marker, hmarker, hsome hfile⟩
    have hkept : "executions" :: name :: rest ∉ gone := by
      intro hmem
      have hin : name ∈ terminalNames destination := mem_terminalNames_iff.mpr hbefore
      have hfree := hgone _ hmem
      rw [isProtected_cons.mpr hin] at hfree
      cases hfree
    rw [hlater, if_neg hkept]
    exact h.terminal name hbefore rest

/-- The recovery leaves the child executions that have a marker, and nothing else. -/
theorem meets_recoverPartialPublication (hunit : SourceUnit source)
    (h : Interrupted source destination) (surroundings : Surroundings source) :
    (recoverPartialPublication surroundings).Meets (Interrupted source)
      (fun executions state ↦ executions = terminalNames destination ∧
        ∀ path, state.get? path =
          if isProtected (terminalNames destination) path then source.files.get? path else none)
      (fun _ _ ↦ False) destination := by
  refine Procedure.meets_fetch_bind.mpr ?_
  have hfound : terminalExecutionDirectories destination = .ok (terminalExecutions destination) :=
    terminalExecutionDirectories_eq_ok_iff.mpr
      ⟨h.executions, fun name hname ↦ (h.matches hunit hname).1, rfl⟩
  have hchecked : (terminalExecutions destination).forM (fun entry ↦
      requireMatchingExecution source entry.1 (below ["executions", entry.1] destination) entry.2) =
      .ok ⟨⟩ := by
    refine forM_eq_ok.mpr ?_
    rintro ⟨name, marker⟩ hmem
    have hhead := mem_terminalExecutions_iff.mp hmem
    have hmatches := (h.matches hunit (mem_terminalNames_iff.mp (List.mem_map_of_mem hmem))).2
    rw [List.headD_eq_head?_getD, hhead, Option.getD_some] at hmatches
    exact hmatches
  rw [hfound]
  refine Procedure.meets_ret_bind.mpr ?_
  rw [hchecked]
  refine Procedure.meets_ret_bind.mpr ?_
  have hremoved : (removeUnprotectedDestination surroundings (terminalNames destination)).Meets
      (Interrupted source) (fun _ state ↦ ∀ path, state.get? path =
        if isProtected (terminalNames destination) path then source.files.get? path else none)
      (fun _ _ ↦ False) destination := by
    refine Procedure.meets_fetch_bind.mpr ?_
    refine Procedure.Meets.mono (Procedure.meets_forM (Erased destination) ⟨fun _ ↦ rfl, nofun⟩
      (fun _ _ herased ↦ h.of_erased herased) fun before path after heq state herased ↦ ?_)
      (fun _ hstopped ↦ hstopped) (fun _ state herased path ↦ ?_) fun _ _ hfalse ↦ hfalse
    · have hfree : isProtected (terminalNames destination) path = false := by
        have hmem : path ∈ (surroundings.listing destination.keys).filter fun path ↦
            !isProtected (terminalNames destination) path := heq ▸ List.mem_append_right _ (by simp)
        simpa using (List.mem_filter.mp hmem).2
      have hnext : Erased destination (before ++ [path]) (state.erase path) := by
        refine ⟨fun other ↦ ?_, fun other hother ↦ ?_⟩
        · by_cases hsame : other = path
          · rw [hsame, Dict.get?_erase_self, if_pos (by simp)]
          · rw [Dict.get?_erase_of_ne hsame, herased.get?]
            simp [hsame]
        · rcases List.mem_append.mp hother with hbefore | hpath
          · exact herased.unprotected other hbefore
          · rw [List.mem_singleton.mp hpath]
            exact hfree
      exact Procedure.meets_modify (h.of_erased herased) (h.of_erased hnext) hnext
    · by_cases hpath : isProtected (terminalNames destination) path = true
      · obtain ⟨name, rest, rfl, hname⟩ := exists_of_isProtected hpath
        have hkept : "executions" :: name :: rest ∉
            (surroundings.listing destination.keys).filter fun path ↦
              !isProtected (terminalNames destination) path := by
          simp [hpath]
        rw [if_pos hpath, herased.get?, if_neg hkept]
        exact h.terminal name (mem_terminalNames_iff.mp hname) rest
      · rw [if_neg hpath, herased.get?]
        split_ifs with hgone
        · rfl
        · rw [Dict.get?_eq_none_iff]
          intro hmem
          refine hgone (List.mem_filter.mpr ⟨(surroundings.perm _).mem_iff.mpr hmem, ?_⟩)
          simpa using hpath
  exact hremoved.bind fun _ state hstopped hstate ↦ ⟨hstopped, rfl, hstate⟩

/-! ### Copying -/

/-- The files of the source at some paths are there, and nothing else. -/
def Copied (source : Directory) (paths : Path → Prop) (destination : Tree) : Prop :=
  ∀ path, (paths path → destination.get? path = source.files.get? path) ∧
    (¬ paths path → destination.get? path = none)

/-- The files at some paths are there, and at most the temporary file beside another. -/
def CopiedBeside (source : Directory) (paths : Path → Prop) (beside : Path) (destination : Tree) :
    Prop :=
  ∀ other, other ≠ beside →
    (paths other → destination.get? other = source.files.get? other) ∧
      (¬ paths other → destination.get? other = none)

/-- Where a marker of a child execution is among the paths, so are all files of the execution. -/
structure Closed (source : Directory) (paths : Path → Prop) : Prop where
  marker : ∀ name ∈ terminalMarkerNames, ¬ paths [name]
  executions : ∀ name, ∀ marker ∈ terminalMarkerNames, paths ["executions", name, marker] →
    ["executions", name, marker] ∈ source.files.keys → ∀ rest,
      "executions" :: name :: rest ∈ source.files.keys → paths ("executions" :: name :: rest)

omit [Checksums] in
/-- What was copied may be left, also with a temporary file beside a file that was not. -/
theorem interrupted_of_copied (hunit : source.files.get? ["executions"] = none)
    {paths : Path → Prop} (hclosed : Closed source paths) (surroundings : Surroundings source)
    {path : Path} (hpath : path ∈ source.files.keys) (hnew : ¬ paths path)
    (hcopied : CopiedBeside source paths (temporary surroundings.uuid path) destination) :
    Interrupted source destination := by
  refine ⟨?_, ?_, ?_⟩
  · rw [terminalMarkers_eq_nil_iff]
    intro name hname
    have hne : temporary surroundings.uuid path ≠ [name] :=
      temporary_ne_concat _ _ [] (head_of_marker hname)
    exact (hcopied [name] hne.symm).2 (hclosed.marker name hname)
  · have hne : temporary surroundings.uuid path ≠ ["executions"] :=
      temporary_ne_concat _ _ [] (by decide)
    by_cases hpaths : paths ["executions"]
    · rw [(hcopied ["executions"] hne.symm).1 hpaths, hunit]
    · exact (hcopied ["executions"] hne.symm).2 hpaths
  · intro name hterminal rest
    obtain ⟨marker, hmarker, hfile⟩ := terminal_iff.mp hterminal
    have hne : temporary surroundings.uuid path ≠ ["executions", name, marker] :=
      temporary_ne_concat _ _ ["executions", name] (head_of_marker hmarker)
    have hin : paths ["executions", name, marker] := by
      by_contra hout
      rw [(hcopied _ hne.symm).2 hout] at hfile
      cases hfile
    have hsource : ["executions", name, marker] ∈ source.files.keys := by
      rw [mem_keys_iff, ← (hcopied _ hne.symm).1 hin]
      exact hfile
    have hall := hclosed.executions name marker hmarker hin hsource
    have hother : "executions" :: name :: rest ≠ temporary surroundings.uuid path := by
      intro heq
      by_cases hrest : rest = []
      · -- the temporary file would be the directory
        refine surroundings.fresh path hpath _ hsource ⟨[marker], ?_⟩
        rw [← heq, hrest]
        rfl
      · -- the file beside it would be below the execution
        obtain ⟨tail, rfl⟩ := exists_of_temporary hrest heq.symm
        exact hnew (hall tail hpath)
    by_cases hpaths : paths ("executions" :: name :: rest)
    · exact (hcopied _ hother).1 hpaths
    · rw [(hcopied _ hother).2 hpaths, eq_comm, Dict.get?_eq_none_iff]
      exact fun hmem ↦ hpaths (hall rest hmem)

omit [Checksums] in
/-- A file that is not there is copied beside its place and moved there. -/
theorem meets_publishImmutableFile (surroundings : Surroundings source) {paths : Path → Prop}
    {Stopped : Tree → Prop} {path : Path} {content : Bytes}
    (hcopied : Copied source paths destination) (hcontent : source.files.get? path = some content)
    (hnew : ¬ paths path)
    (hbeside : ∀ state, CopiedBeside source paths (temporary surroundings.uuid path) state →
      Stopped state)
    (hafter : ∀ state, Copied source (fun other ↦ paths other ∨ other = path) state →
      Stopped state) : (publishImmutableFile surroundings.uuid content path).Meets Stopped
      (fun _ ↦ Copied source fun other ↦ paths other ∨ other = path) (fun _ _ ↦ False)
      destination := by
  have hpath : path ∈ source.files.keys := mem_keys_iff.mpr (by rw [hcontent, Option.isSome_some])
  have hfresh : source.files.get? (temporary surroundings.uuid path) = none := by
    rw [Dict.get?_eq_none_iff]
    exact fun hmem ↦ surroundings.fresh path hpath _ hmem (List.prefix_refl _)
  refine Procedure.meets_fetch_bind.mpr ?_
  rw [(hcopied path).2 hnew]
  have hcopy : (copyFile content (temporary surroundings.uuid path)).Meets Stopped
      (fun _ state ↦ CopiedBeside source paths (temporary surroundings.uuid path) state ∧
        state.get? (temporary surroundings.uuid path) = some content)
      (fun _ _ ↦ False) destination := by
    refine Procedure.Meets.mono (Procedure.meets_forM (fun done state ↦
        CopiedBeside source paths (temporary surroundings.uuid path) state ∧
          ∀ count, done.getLast? = some count →
            state.get? (temporary surroundings.uuid path) = some (content.take count))
        ⟨fun other _ ↦ hcopied other, nofun⟩ (fun _ state hinv ↦ hbeside state hinv.1)
        fun before count after _ state hinv ↦ ?_) (fun _ hstopped ↦ hstopped)
      (fun _ state hinv ↦ ⟨hinv.1, ?_⟩) fun _ _ hfalse ↦ hfalse
    · have hnext : CopiedBeside source paths (temporary surroundings.uuid path)
          (state.set (temporary surroundings.uuid path) (content.take count)) := by
        intro other hother
        rw [Dict.get?_set_of_ne hother]
        exact hinv.1 other hother
      refine Procedure.meets_modify (hbeside _ hinv.1) (hbeside _ hnext) ⟨hnext, ?_⟩
      intro last hlast
      rw [List.getLast?_append, List.getLast?_singleton, Option.some_or] at hlast
      rw [← Option.some.inj hlast, Dict.get?_set_self]
    · rw [hinv.2 content.length (by simp [List.range_succ]), List.take_length]
  refine hcopy.bind fun _ state hstopped hstate ↦ ?_
  obtain ⟨hstate, htemporary⟩ := hstate
  have hmoved : Copied source (fun other ↦ paths other ∨ other = path)
      ((state.erase (temporary surroundings.uuid path)).set path content) := by
    intro other
    by_cases hsame : other = path
    · rw [hsame, Dict.get?_set_self, hcontent]
      exact ⟨fun _ ↦ rfl, fun hnot ↦ absurd (.inr rfl) hnot⟩
    · rw [Dict.get?_set_of_ne hsame]
      by_cases hbesides : other = temporary surroundings.uuid path
      · rw [hbesides, Dict.get?_erase_self, hfresh]
        exact ⟨fun _ ↦ rfl, fun _ ↦ rfl⟩
      · rw [Dict.get?_erase_of_ne hbesides]
        refine ⟨fun hin ↦ ?_, fun hout ↦ (hstate other hbesides).2 fun hold ↦ hout (.inl hold)⟩
        rcases hin with hold | hnew
        · exact (hstate other hbesides).1 hold
        · exact absurd hnew hsame
  refine Procedure.meets_modify hstopped ?_ ?_
  · rw [htemporary]
    exact hafter _ hmoved
  · rw [htemporary]
    exact hmoved

/-! ### The order of the files -/

instance : Std.Total Deeper where
  total first second := by
    rcases Nat.lt_trichotomy first.length second.length with hlt | heq | hlt
    · exact .inr (.inl hlt)
    · rcases Std.Total.total (r := (· ≤ ·)) ("/".intercalate first) ("/".intercalate second) with
        hle | hle
      · exact .inl (.inr ⟨heq.symm, hle⟩)
      · exact .inr (.inr ⟨heq, hle⟩)
    · exact .inl (.inl hlt)

instance : IsTrans Path Deeper where
  trans first second third := by
    rintro (hfirst | ⟨hfirst, hle⟩) (hsecond | ⟨hsecond, hle'⟩)
    · exact .inl (hsecond.trans hfirst)
    · exact .inl (hsecond ▸ hfirst)
    · exact .inl (hfirst ▸ hsecond)
    · exact .inr ⟨hsecond.trans hfirst, hle.trans hle'⟩

omit [Checksums] in
theorem mem_ordered_iff {path : Path} :
    path ∈ ordered source marker ↔ path ∈ source.files.keys ∧ path ≠ [marker] := by
  unfold ordered
  rw [List.mem_append, List.mem_insertionSort, List.mem_insertionSort, List.mem_filter,
    List.mem_filter]
  by_cases hnested : isNestedMarker marker path = true
  · have hne : path ≠ [marker] := by
      unfold isNestedMarker at hnested
      rw [Bool.and_eq_true, decide_eq_true_eq] at hnested
      exact hnested.1
    simp [hnested, hne]
  · simp [hnested]

omit [Checksums] in
/-- Behind a nested marker there are only nested markers that are not deeper. -/
theorem pairwise_ordered (source : Directory) (marker : String) :
    (ordered source marker).Pairwise fun first second ↦ isNestedMarker marker first = true →
      isNestedMarker marker second = true ∧ Deeper first second := by
  unfold ordered
  have hordinary (path : Path) (hpath : path ∈ (source.files.keys.filter fun path ↦
      decide (path ≠ [marker]) && !isNestedMarker marker path).insertionSort
        fun first second ↦ "/".intercalate first ≤ "/".intercalate second) :
      isNestedMarker marker path = false := by
    rw [List.mem_insertionSort] at hpath
    simpa using (Bool.and_eq_true_iff.mp (List.mem_filter.mp hpath).2).2
  have hnested (path : Path)
      (hpath : path ∈ (source.files.keys.filter (isNestedMarker marker)).insertionSort Deeper) :
      isNestedMarker marker path = true := by
    rw [List.mem_insertionSort] at hpath
    exact (List.mem_filter.mp hpath).2
  refine List.pairwise_append.mpr ⟨?_, ?_, ?_⟩
  · refine List.pairwise_of_forall_mem_list fun first hfirst second _ hfalse ↦ ?_
    rw [hordinary first hfirst] at hfalse
    cases hfalse
  · exact (List.pairwise_insertionSort Deeper _).imp_of_mem fun _ hsecond hdeeper _ ↦
      ⟨hnested _ hsecond, hdeeper⟩
  · intro first hfirst second _ hfalse
    rw [hordinary first hfirst] at hfalse
    cases hfalse

/-- The marker of a child execution comes behind all other files of the execution. -/
theorem closed_of_done (hunit : SourceUnit source) (hmarker : terminalMarkers source.files = [marker])
    {executions : List String} {done rest : List Path}
    (heq : (ordered source marker).filter (fun path ↦ !isProtected executions path) = done ++ rest) :
    Closed source fun path ↦ isProtected executions path = true ∨ path ∈ done := by
  have hdone {path : Path} (hpath : path ∈ done) : path ∈ source.files.keys ∧ path ≠ [marker] := by
    have hmem : path ∈ (ordered source marker).filter fun path ↦ !isProtected executions path :=
      heq ▸ List.mem_append_left rest hpath
    exact mem_ordered_iff.mp (List.mem_filter.mp hmem).1
  refine ⟨?_, ?_⟩
  · rintro name hname (hprotected | hmem)
    · obtain ⟨_, _, hcons, -⟩ := exists_of_isProtected hprotected
      cases hcons
    · obtain ⟨hkey, hne⟩ := hdone hmem
      have hone : name ∈ terminalMarkers source.files :=
        mem_terminalMarkers_iff.mpr ⟨hname, mem_keys_iff.mp hkey⟩
      rw [hmarker, List.mem_singleton] at hone
      exact hne (by rw [hone])
  · intro name other hother hin hkey tail htail
    by_cases hexecution : name ∈ executions
    · exact .inl (isProtected_cons.mpr hexecution)
    · refine .inr ?_
      have hmem : ["executions", name, other] ∈ done := by
        rcases hin with hprotected | hmem
        · exact absurd (isProtected_cons.mp hprotected) hexecution
        · exact hmem
      have hlisted : "executions" :: name :: tail ∈ done ++ rest := by
        rw [← heq, List.mem_filter, mem_ordered_iff]
        have hfree : isProtected executions ("executions" :: name :: tail) = false := by
          rw [← Bool.not_eq_true, isProtected_cons]
          exact hexecution
        exact ⟨⟨htail, by simp⟩, by rw [hfree, Bool.not_false]⟩
      by_contra hlater
      have hrest : "executions" :: name :: tail ∈ rest := by
        rcases List.mem_append.mp hlisted with hearly | hrest
        · exact absurd hearly hlater
        · exact hrest
      have hpairwise := (pairwise_ordered source marker).filter
        fun path ↦ !isProtected executions path
      rw [heq] at hpairwise
      have hnested : isNestedMarker marker ["executions", name, other] = true := by
        simpa [isNestedMarker] using hother
      obtain ⟨hnestedTail, hdeeper⟩ :=
        (List.pairwise_append.mp hpairwise).2.2 _ hmem _ hrest hnested
      -- the other marker is not deeper, so it is beside the first, or in its place
      have hlength : tail.length ≤ 1 := by
        rcases hdeeper with hlt | ⟨heq, -⟩
        · simp at hlt
          omega
        · simp at heq
          omega
      have hfile (found : String) (hfound : found ∈ terminalMarkerNames)
          (hfoundKey : ["executions", name, found] ∈ source.files.keys) :
          found ∈ terminalMarkers (below ["executions", name] source.files) := by
        rw [mem_terminalMarkers_iff, get?_below (List.cons_ne_nil found [])]
        exact ⟨hfound, mem_keys_iff.mp hfoundKey⟩
      have hterminal : Terminal source.files name := List.ne_nil_of_mem (hfile other hother hkey)
      obtain ⟨one, hone⟩ := exists_marker_of_verified (hunit.children name hterminal)
      match tail, hlength with
      | [], _ =>
        have hsame := source.proper _ htail _ hkey (List.prefix_append ["executions", name] [other])
        simp at hsame
      | [second], _ =>
        have hsecond : second ∈ terminalMarkerNames := by
          simpa [isNestedMarker] using hnestedTail
        have hfirst := hfile other hother hkey
        have hlast := hfile second hsecond htail
        rw [hone, List.mem_singleton] at hfirst hlast
        rw [hlast, ← hfirst] at hlater
        exact hlater hmem

/-! ### Attempts -/

omit [Checksums] in
theorem Copied.congr {paths others : Path → Prop} (h : Copied source paths destination)
    (hiff : ∀ path ∈ source.files.keys, paths path ↔ others path) :
    Copied source others destination := by
  intro path
  by_cases hkey : path ∈ source.files.keys
  · rw [← hiff path hkey]
    exact h path
  · have hnone : source.files.get? path = none := Dict.get?_eq_none_iff.mpr hkey
    have hdestination : destination.get? path = none := by
      by_cases hpath : paths path
      · rw [(h path).1 hpath, hnone]
      · exact (h path).2 hpath
    exact ⟨fun _ ↦ by rw [hdestination, hnone], fun _ ↦ hdestination⟩

/-- All files but the marker of the unit. -/
def Unmarked (source : Directory) (marker : String) (path : Path) : Prop :=
  path ∈ source.files.keys ∧ path ≠ [marker]

omit [Checksums] in
theorem closed_unmarked (hmarker : terminalMarkers source.files = [marker]) :
    Closed source (Unmarked source marker) := by
  refine ⟨?_, ?_⟩
  · rintro name hname ⟨hkey, hne⟩
    have hone : name ∈ terminalMarkers source.files :=
      mem_terminalMarkers_iff.mpr ⟨hname, mem_keys_iff.mp hkey⟩
    rw [hmarker, List.mem_singleton] at hone
    exact hne (by rw [hone])
  · intro name other _ _ _ rest hkey
    exact ⟨hkey, by simp⟩

/-- The loop over the files. -/
theorem meets_publishFiles (hunit : SourceUnit source)
    (hmarker : terminalMarkers source.files = [marker]) (surroundings : Surroundings source)
    {executions : List String}
    (hcopied : Copied source (fun path ↦ isProtected executions path = true) destination) :
    (((ordered source marker).filter fun path ↦ !isProtected executions path).forM fun path ↦
      publishImmutableFile surroundings.uuid ((source.files.get? path).getD []) path).Meets
      (Interrupted source) (fun _ ↦ Copied source (Unmarked source marker)) (fun _ _ ↦ False)
      destination := by
  have hkey : [marker] ∈ source.files.keys := by
    have hmem : marker ∈ terminalMarkers source.files := by rw [hmarker, List.mem_singleton]
    exact mem_keys_iff.mpr (mem_terminalMarkers_iff.mp hmem).2
  have hname : marker ∈ terminalMarkerNames := by
    have hmem : marker ∈ terminalMarkers source.files := by rw [hmarker, List.mem_singleton]
    exact (mem_terminalMarkers_iff.mp hmem).1
  have hstopped {done rest : List Path} {state : Tree}
      (heq : (ordered source marker).filter (fun path ↦ !isProtected executions path) =
        done ++ rest)
      (hstate : Copied source (fun path ↦ isProtected executions path = true ∨ path ∈ done) state) :
      Interrupted source state := by
    have hclosed := closed_of_done hunit hmarker heq
    exact interrupted_of_copied hunit.executions hclosed surroundings hkey
      (hclosed.marker marker hname) fun other _ ↦ hstate other
  refine Procedure.Meets.mono (Procedure.meets_forM (fun done state ↦
      (∃ rest, (ordered source marker).filter (fun path ↦ !isProtected executions path) =
        done ++ rest) ∧
      Copied source (fun path ↦ isProtected executions path = true ∨ path ∈ done) state)
    ⟨⟨_, rfl⟩, hcopied.congr fun path _ ↦ by simp⟩
    (fun done state hinv ↦ hstopped hinv.1.choose_spec hinv.2)
    fun before path after heq state hinv ↦ ?_) (fun _ hinterrupted ↦ hinterrupted)
    (fun _ state hinv ↦ hinv.2.congr fun path hpath ↦ ?_) fun _ _ hfalse ↦ hfalse
  · obtain ⟨⟨rest, hrest⟩, hstate⟩ := hinv
    have hmem : path ∈ (ordered source marker).filter fun path ↦ !isProtected executions path :=
      heq ▸ List.mem_append_right before List.mem_cons_self
    obtain ⟨hlisted, hfree⟩ := List.mem_filter.mp hmem
    have hfree : isProtected executions path = false := by simpa using hfree
    obtain ⟨content, hcontent⟩ :=
      Option.isSome_iff_exists.mp (mem_keys_iff.mp (mem_ordered_iff.mp hlisted).1)
    have hnext : (ordered source marker).filter (fun path ↦ !isProtected executions path) =
        before ++ [path] ++ after := by rw [heq, List.append_assoc, List.singleton_append]
    have hiff (other : Path) : (isProtected executions other = true ∨ other ∈ before) ∨
        other = path ↔ isProtected executions other = true ∨ other ∈ before ++ [path] := by
      rw [List.mem_append, List.mem_singleton, or_assoc]
    rw [hcontent, Option.getD_some]
    by_cases hold : path ∈ before
    · -- the file was listed twice
      refine Procedure.meets_fetch_bind.mpr ?_
      rw [(hstate path).1 (.inr hold), hcontent]
      dsimp only
      rw [if_neg (by simp)]
      have hsame : Copied source
          (fun other ↦ isProtected executions other = true ∨ other ∈ before ++ [path]) state := by
        refine hstate.congr fun other _ ↦ ?_
        rw [List.mem_append, List.mem_singleton]
        refine or_congr_right ⟨.inl, fun hin ↦ ?_⟩
        rcases hin with hbefore | rfl
        · exact hbefore
        · exact hold
      exact Procedure.meets_pure (hstopped hnext hsame) ⟨⟨after, hnext⟩, hsame⟩
    · have hcase := meets_publishImmutableFile surroundings hstate hcontent
        (by rw [hfree]; simp [hold])
        (fun state hbeside ↦ interrupted_of_copied hunit.executions
          (closed_of_done hunit hmarker heq) surroundings (mem_ordered_iff.mp hlisted).1
          (by rw [hfree]; simp [hold]) hbeside)
        (fun state hafter ↦ hstopped hnext (hafter.congr fun other _ ↦ hiff other))
      exact hcase.mono (fun _ hinterrupted ↦ hinterrupted)
        (fun _ state hafter ↦ ⟨⟨after, hnext⟩, hafter.congr fun other _ ↦ hiff other⟩)
        fun _ _ hfalse ↦ hfalse
  · unfold Unmarked
    rw [List.mem_filter, mem_ordered_iff]
    by_cases hprotected : isProtected executions path = true
    · have hne : path ≠ [marker] := by
        rintro rfl
        obtain ⟨_, _, hcons, -⟩ := exists_of_isProtected hprotected
        cases hcons
      simp [hprotected, hpath, hne]
    · simp [hprotected, hpath]

/-- An attempt on what was interrupted leaves what was interrupted or the complete unit, and a whole
one returns with the complete unit. -/
theorem publishUnit_meets (hunit : SourceUnit source) (h : Interrupted source destination)
    (surroundings : Surroundings source) : (publishUnit source surroundings).Meets
      (fun state ↦ Interrupted source state ∨ Complete source state)
      (fun _ ↦ Complete source) (fun _ _ ↦ False) destination := by
  obtain ⟨marker, hmarker⟩ := hunit.marker
  unfold publishUnit
  rw [hmarker]
  dsimp only
  rw [hunit.checksums]
  refine Procedure.meets_ret_bind.mpr (Procedure.meets_fetch_bind.mpr ?_)
  rw [if_neg (not_not.mpr h.marker)]
  have hmem : marker ∈ terminalMarkers source.files := by rw [hmarker, List.mem_singleton]
  obtain ⟨hname, hfile⟩ := mem_terminalMarkers_iff.mp hmem
  obtain ⟨content, hcontent⟩ := Option.isSome_iff_exists.mp hfile
  have hkey : [marker] ∈ source.files.keys := mem_keys_iff.mpr hfile
  have hinterrupted (state : Tree) (hstate : Interrupted source state) :
      Interrupted source state ∨ Complete source state := .inl hstate
  have hrecovered := (meets_recoverPartialPublication hunit h surroundings).mono hinterrupted
    (fun _ _ hreturned ↦ hreturned) fun _ _ hfalse ↦ hfalse
  refine hrecovered.bind ?_
  rintro executions state - ⟨rfl, hstate⟩
  have hcopied : Copied source
      (fun path ↦ isProtected (terminalNames destination) path = true) state := by
    intro path
    rw [hstate]
    exact ⟨fun hin ↦ if_pos hin, fun hout ↦ if_neg hout⟩
  have hfiles := (meets_publishFiles hunit hmarker surroundings hcopied).mono hinterrupted
    (fun _ _ hreturned ↦ hreturned) fun _ _ hfalse ↦ hfalse
  refine hfiles.bind fun _ published hpublished hunmarked ↦ ?_
  have hverified : verifyChecksums published = .ok () := by
    rw [← hunit.checksums]
    refine verifyChecksums_congr fun path hpath ↦ ?_
    have hall : Copied source (fun path ↦ path ≠ [marker]) published :=
      hunmarked.congr fun path hpath ↦ ⟨fun hin ↦ hin.2, fun hne ↦ ⟨hpath, hne⟩⟩
    exact (hall path).1 (hpath marker hname).symm
  refine Procedure.meets_fetch_bind.mpr ?_
  rw [hverified, hcontent, Option.getD_some]
  refine Procedure.meets_ret_bind.mpr ?_
  have hcomplete {state : Tree}
      (hstate : Copied source (fun path ↦ Unmarked source marker path ∨ path = [marker]) state) :
      Complete source state := by
    intro path
    have hall : Copied source (fun _ ↦ True) state := by
      refine hstate.congr fun path hpath ↦ ⟨fun _ ↦ trivial, fun _ ↦ ?_⟩
      by_cases hsame : path = [marker]
      · exact .inr hsame
      · exact .inl ⟨hpath, hsame⟩
    exact (hall path).1 trivial
  have hmarked := meets_publishImmutableFile surroundings hunmarked hcontent
    (fun hin ↦ hin.2 rfl)
    (fun state hbeside ↦ hinterrupted state (interrupted_of_copied hunit.executions
      (closed_unmarked hmarker) surroundings hkey (fun hin ↦ hin.2 rfl) hbeside))
    (fun state hafter ↦ .inr (hcomplete hafter))
  refine hmarked.bind fun _ complete hstopped hafter ↦ ?_
  have hagain : verifyChecksums complete = .ok () := by
    rw [← hunit.checksums]
    exact verifyChecksums_congr fun path _ ↦ hcomplete hafter path
  refine Procedure.meets_fetch_bind.mpr ?_
  rw [hagain]
  exact Procedure.meets_pure hstopped (hcomplete hafter)

/-- A unit that is there is not published again. -/
theorem publishUnit_of_marker (hunit : SourceUnit source) (h : terminalMarkers destination ≠ [])
    (surroundings : Surroundings source) :
    (publishUnit source surroundings).Meets (fun state ↦ state = destination) (fun _ _ ↦ False)
      (fun error state ↦ state = destination ∧
        error = .worker "terminal evidence destination cannot be overwritten") destination := by
  obtain ⟨marker, hmarker⟩ := hunit.marker
  unfold publishUnit
  rw [hmarker]
  dsimp only
  rw [hunit.checksums]
  refine Procedure.meets_ret_bind.mpr (Procedure.meets_fetch_bind.mpr ?_)
  rw [if_pos h]
  exact ⟨rfl, rfl, rfl⟩

theorem Complete.marked (hunit : SourceUnit source) (h : Complete source destination) :
    terminalMarkers destination ≠ [] := by
  obtain ⟨marker, hmarker⟩ := hunit.marker
  rw [terminalMarkers_congr fun name _ ↦ h [name], hmarker]
  exact List.cons_ne_nil marker []

theorem left_of_attempts (hunit : SourceUnit source) {first : Tree}
    (hfirst : Interrupted source first)
    (hleft : Procedure.Attempts (publishUnit source) first destination) :
    Interrupted source destination ∨ Complete source destination := by
  refine hleft.invariant (fun state ↦ Interrupted source state ∨ Complete source state)
    (.inl hfirst) fun surroundings count state hstate ↦ ?_
  rcases hstate with hinterrupted | hcomplete
  · exact (publishUnit_meets hunit hinterrupted surroundings).crash count
  · refine .inr ?_
    rw [(publishUnit_of_marker hunit (hcomplete.marked hunit) surroundings).crash count]
    exact hcomplete

/-- After any interrupted attempts to publish a unit, and wherever the next one is stopped, the
destination has a marker only if it is complete, and a whole attempt ends with the complete unit. A
child execution with a marker is never touched. -/
theorem publication_crash_atomic (source : Directory) (hunit : SourceUnit source)
    (first destination : Tree) (hfirst : Interrupted source first)
    (hleft : Procedure.Attempts (publishUnit source) first destination) : (∀ surroundings count,
      terminalMarkers ((publishUnit source surroundings).crash count destination) ≠ [] →
        Complete source ((publishUnit source surroundings).crash count destination)) ∧
    (∀ surroundings,
      Complete source ((publishUnit source surroundings).exec destination).2 ∧
        (terminalMarkers destination = [] →
          ((publishUnit source surroundings).exec destination).1 = .ok ())) ∧
    ∀ (other : Directory) (surroundings : Surroundings other) (state : Tree) (count : ℕ)
      (name : String), Terminal state name → ∀ path content,
        (below ["executions", name] state).get? path = some content →
          (below ["executions", name]
            ((publishUnit other surroundings).crash count state)).get? path = some content := by
  refine ⟨?_, ?_, ?_⟩
  · intro surroundings count hmarked
    have hlater : Procedure.Attempts (publishUnit source) first
        ((publishUnit source surroundings).crash count destination) :=
      hleft.tail ⟨surroundings, count, rfl⟩
    rcases left_of_attempts hunit hfirst hlater with hinterrupted | hcomplete
    · exact absurd hinterrupted.marker hmarked
    · exact hcomplete
  · intro surroundings
    rcases left_of_attempts hunit hfirst hleft with hinterrupted | hcomplete
    · obtain ⟨_, hreturned, hdone⟩ := (publishUnit_meets hunit hinterrupted surroundings).exec_ok
      exact ⟨hdone, fun _ ↦ hreturned⟩
    · have hmarked := hcomplete.marked hunit
      have hraised := (publishUnit_of_marker hunit hmarked surroundings).exec
      refine ⟨?_, fun hnone ↦ absurd hnone hmarked⟩
      cases hresult : ((publishUnit source surroundings).exec destination).1 with
      | ok value =>
        rw [hresult] at hraised
        exact hraised.elim
      | error error =>
        rw [hresult] at hraised
        rw [hraised.1]
        exact hcomplete
  · intro other surroundings state count name hterminal path content hcontent
    by_cases hpath : path = []
    · rw [hpath, get?_below_nil] at hcontent
      cases hcontent
    · rw [get?_below hpath] at hcontent ⊢
      have hkept := (keeps_terminal other surroundings state).crash count
      exact (hkept name (mem_terminalNames_iff.mpr hterminal) path hpath).trans hcontent

end Interrupted

section Witnesses

/-- Manifests of an empty directory, of one with a child execution, and of one whose child execution
has no manifest. -/
local instance listedChecksums : Checksums where
  sha256 _ := "digest"
  manifest
    | [0] => some []
    | [1] => some [(["executions", "one", "_SUCCESS"], "digest"),
        (["executions", "one", "checksums.json"], "digest")]
    | [2] => some [(["executions", "one", "_SUCCESS"], "digest")]
    | _ => none

/-- A trial with one execution. -/
def trialDirectory : Directory where
  files := [(["_SUCCESS"], []), (["checksums.json"], [1]),
    (["executions", "one", "_SUCCESS"], []), (["executions", "one", "checksums.json"], [0])]
  proper := by decide

def trialSurroundings : Surroundings trialDirectory where
  uuid _ := "0"
  fresh := by decide
  listing := id
  perm := List.Perm.refl

theorem sourceUnit_trialDirectory : SourceUnit trialDirectory where
  marker := ⟨"_SUCCESS", by decide⟩
  checksums := by decide
  executions := by decide
  children name hterminal := by
    obtain ⟨marker, -, hfile⟩ := terminal_iff.mp hterminal
    have hmem : ["executions", name, marker] ∈ trialDirectory.files.keys := mem_keys_iff.mpr hfile
    have hname : name = "one" := by
      simp only [trialDirectory, Dict.keys, List.map_cons, List.map_nil, List.mem_cons,
        List.cons.injEq, List.not_mem_nil] at hmem
      tauto
    rw [hname]
    show verifyTerminalExecution _ _ = _
    decide

/-- A publication that was interrupted before the marker of the execution, and the next one. -/
theorem publication_crash_atomic_trial :
    Complete trialDirectory ((publishUnit trialDirectory trialSurroundings).exec
      ((publishUnit trialDirectory trialSurroundings).crash 6 [])).2 :=
  ((publication_crash_atomic trialDirectory sourceUnit_trialDirectory []
    ((publishUnit trialDirectory trialSurroundings).crash 6 []) interrupted_empty
    (.single ⟨trialSurroundings, 6, rfl⟩)).2.1 trialSurroundings).1

/-- A trial with an execution that has a marker and no manifest. -/
def unlistedDirectory : Directory where
  files := [(["_SUCCESS"], []), (["checksums.json"], [2]), (["executions", "one", "_SUCCESS"], [])]
  proper := by decide

def unlistedSurroundings : Surroundings unlistedDirectory where
  uuid _ := "0"
  fresh := by decide
  listing := id
  perm := List.Perm.refl

/-- If its publication is interrupted after the marker of the execution, it is never completed. -/
theorem publication_stuck : verifyChecksums unlistedDirectory.files = .ok () ∧
      terminalMarkers unlistedDirectory.files = ["_SUCCESS"] ∧
      ∃ left, left = (publishUnit unlistedDirectory unlistedSurroundings).crash 5 [] ∧
        (publishUnit unlistedDirectory unlistedSurroundings).exec left =
          (.error (.worker "terminal execution evidence failed checksum validation"), left) ∧
        ¬ Complete unlistedDirectory left := by
  refine ⟨by decide, by decide, _, rfl, rfl, fun hcomplete ↦ ?_⟩
  have hmarker := hcomplete ["_SUCCESS"]
  revert hmarker
  decide

end Witnesses

end HarborHF.Worker
