import HarborHF.Worker.DirectRun

/-!
# Direct runs that are stopped

At any moment of a publication the destination is reserved, exposed or published (`stage`): the
reservation stands, or it has been removed, or the marker has come. An exposed destination carries
neither the marker nor the reservation, so that no later worker takes it over; it stays so if the worker
is stopped then, or if the reservation cannot be made again. A published destination is complete for
sources that leave the names of the publication alone (`survives_crash_iff`).
-/

set_option autoImplicit false

namespace HarborHF.DirectRun

open Async Relational Worker

/-! ### What is to survive -/

/-- The files have every entry of the source. -/
def Complete (source : Source) (files : Files) : Prop :=
  ∀ path entry, source.entries.get? path = some entry → files.get? path = some entry

/-- The files have a terminal marker only with all of the source, and without one they are reserved, so
that a later worker adopts them. -/
structure Survives (source : Source) (files : Files) : Prop where
  complete : ∀ name ∈ markerNames, isFile files [name] = true → Complete source files
  reserved : (∀ name ∈ markerNames, isFile files [name] = false) →
    isFile files reserved = true ∧
      ((prepareEvidenceDestination (fun _ ↦ false) true).exec (World.start files)).1 = .ok ()

/-- A directory that is reserved for a run. -/
structure Reserved (files : Files) : Prop where
  exists_root : files.get? [] = some .directory
  reservation : isFile files reserved = true
  unmarked : ∀ name ∈ markerNames, files.get? [name] = none

inductive Stage
  | reserved | exposed | published
  deriving DecidableEq

def Stage.next : Stage → Operation → Stage
  | _, .removeReservation => exposed
  | _, .renameMarker => published
  | _, .restoreReservation => reserved
  | stage, _ => stage

/-- What the operations have made of a reserved destination. -/
def stage (log : List Operation) : Stage := log.foldl Stage.next .reserved

/-- The source has no files with names of the publication and no directory with the name of a marker,
and the destination has no directory in the place of one of its files. -/
structure Plain (source : Source) (start : Files) : Prop where
  names : ∀ path ∈ [reserved, temporaryMarker], ∀ content,
    source.entries.get? path ≠ some (.file content)
  markers : ∀ name ∈ markerNames, source.entries.get? [name] ≠ some .directory
  start : ∀ path content, source.entries.get? path = some (.file content) →
    start.get? path ≠ some .directory

variable {source : Source} {start files : Files} {log : List Operation} {path : Path}
  {content : Bytes} {terminal name : String} {fails : ℕ → Bool} {operation : Operation}

/-! ### Files -/

theorem isFile_iff : isFile files path = true ↔ ∃ content, files.get? path = some (.file content) := by
  unfold isFile
  split
  · next content h => simp [h]
  · next h =>
    refine iff_of_false (by simp) ?_
    rintro ⟨content, hcontent⟩
    exact h content hcontent

theorem isFile_set_file (other : Path) (h : isFile files path = true) :
    isFile (files.set other (.file content)) path = true := by
  rw [isFile_iff] at h ⊢
  obtain ⟨old, hold⟩ := h
  rw [Dict.get?_set]
  split_ifs with heq
  · exact ⟨content, rfl⟩
  · exact ⟨old, hold⟩

theorem stage_append : stage (log ++ [operation]) = (stage log).next operation := by
  rw [stage, List.foldl_append]
  rfl

/-! ### Operations -/

variable {Stopped : World → Prop} {Returned : PUnit → World → Prop}
  {Raised : PublishError → World → Prop} {world : World} {allowed : Files → Bool}
  {change : Files → Files}

/-- An operation has its effect or none. -/
theorem meets_perform (hnow : Stopped world)
    (herror : ∀ tried, Stopped { world with tried } ∧ Raised .os { world with tried })
    (hdone : allowed world.destination = true → ∀ tried,
      Stopped { destination := change world.destination, tried, log := world.log ++ [operation] } ∧
        Returned ⟨⟩
          { destination := change world.destination, tried, log := world.log ++ [operation] }) :
    (perform fails operation allowed change).Meets Stopped Returned Raised world := by
  unfold perform
  refine Procedure.meets_fetch_bind.mpr ?_
  by_cases hfails : (fails world.tried || !allowed world.destination) = true
  · rw [if_pos hfails]
    exact ⟨hnow, herror _⟩
  · rw [if_neg hfails]
    have hallowed : allowed world.destination = true := by
      cases hvalue : allowed world.destination with
      | true => rfl
      | false => exact absurd (by simp [hvalue]) hfails
    exact ⟨hnow, hdone hallowed _⟩

/-! ### Before the marker -/

/-- A destination before the marker comes. -/
structure Unpublished (source : Source) (start files : Files) (log : List Operation) : Prop where
  unpublished : stage log ≠ .published
  reservation : stage log = .reserved → isFile files reserved = true
  removed : stage log = .exposed → files.get? reserved = none
  unmarked : ∀ name ∈ markerNames, files.get? [name] = none
  directories : ∀ path, start.get? path = some .directory → files.get? path = some .directory
  clear : Plain source start → ∀ path content, source.entries.get? path = some (.file content) →
    files.get? path ≠ some .directory

/-- A reserved destination that has some of the entries. -/
structure Copying (source : Source) (start : Files) (done : List (Path × Entry)) (files : Files)
    (log : List Operation) : Prop where
  base : Unpublished source start files log
  stands : stage log = .reserved
  copied : Plain source start → ∀ entry ∈ done, files.get? entry.1 = some entry.2

variable {done : List (Path × Entry)} {entry : Path × Entry}

theorem Copying.nil (h : Copying source start done files log) : Copying source start [] files log :=
  ⟨h.base, h.stands, fun _ _ hentry ↦ nomatch hentry⟩

theorem Copying.isFile_reserved (h : Copying source start done files log) :
    isFile files reserved = true := h.base.reservation h.stands

theorem Copying.append (h : Copying source start done files log)
    (hentry : Plain source start → files.get? entry.1 = some entry.2) :
    Copying source start (done ++ [entry]) files log := by
  refine ⟨h.base, h.stands, fun hplain other hother ↦ ?_⟩
  rcases List.mem_append.mp hother with hold | hnew
  · exact h.copied hplain other hold
  · rw [List.mem_singleton.mp hnew]
    exact hentry hplain

theorem Copying.left {more : List (Path × Entry)} (h : Copying source start (done ++ more) files log) :
    Copying source start done files log :=
  ⟨h.base, h.stands, fun hplain entry hentry ↦ h.copied hplain entry (List.mem_append_left _ hentry)⟩

/-- A directory of the source is made. -/
theorem Copying.makeDirectory (h : Copying source start done files log)
    (hdone : ∀ entry ∈ done, source.entries.get? entry.1 = some entry.2)
    (hallowed : isFile files path = false) (hignored : ignored path = false)
    (hpath : ∀ entry, source.entries.get? path = some entry → entry = .directory) :
    Copying source start done (files.set path .directory) (log ++ [.makeDirectory path]) := by
  have hstage : stage (log ++ [.makeDirectory path]) = .reserved := by
    rw [stage_append, h.stands]
    rfl
  have hne : reserved ≠ path := by
    rintro rfl
    rw [h.isFile_reserved] at hallowed
    cases hallowed
  refine ⟨⟨by simp [hstage], fun _ ↦ ?_, by simp [hstage], fun name hname ↦ ?_,
    fun other hother ↦ ?_, fun hplain other content hother ↦ ?_⟩, hstage, fun hplain entry hentry ↦ ?_⟩
  · obtain ⟨content, hcontent⟩ := isFile_iff.mp h.isFile_reserved
    exact isFile_iff.mpr ⟨content, by rw [Dict.get?_set_of_ne hne, hcontent]⟩
  · rw [Dict.get?_set, if_neg, h.base.unmarked name hname]
    rintro rfl
    simp [ignored, hname] at hignored
  · rw [Dict.get?_set]
    split_ifs
    · rfl
    · exact h.base.directories other hother
  · rw [Dict.get?_set]
    split_ifs with heq
    · subst heq
      cases hpath _ hother
    · exact h.base.clear hplain other content hother
  · rw [Dict.get?_set]
    split_ifs with heq
    · rw [hpath entry.2 (heq ▸ hdone entry hentry)]
    · exact h.copied hplain entry hentry

/-- Bytes are written to a file. -/
theorem Copying.write (h : Copying source start done files log)
    (hallowed : files.get? path ≠ some .directory) (hunmarked : ∀ name ∈ markerNames, path ≠ [name])
    (hdone : Plain source start → ∀ entry ∈ done, entry.1 = path → entry.2 = .directory) :
    Copying source start done (files.set path (.file content)) (log ++ [.write path]) := by
  have hstage : stage (log ++ [.write path]) = .reserved := by
    rw [stage_append, h.stands]
    rfl
  refine ⟨⟨by simp [hstage], fun _ ↦ isFile_set_file path h.isFile_reserved, by simp [hstage],
    fun name hname ↦ ?_, fun other hother ↦ ?_, fun hplain other content hother ↦ ?_⟩, hstage,
    fun hplain entry hentry ↦ ?_⟩
  · rw [Dict.get?_set_of_ne (hunmarked name hname).symm, h.base.unmarked name hname]
  · have hold := h.base.directories other hother
    rw [Dict.get?_set_of_ne, hold]
    rintro rfl
    exact hallowed hold
  · rw [Dict.get?_set]
    split_ifs
    · simp
    · exact h.base.clear hplain other content hother
  · have hold := h.copied hplain entry hentry
    rw [Dict.get?_set_of_ne, hold]
    intro heq
    rw [heq, hdone hplain entry hentry heq] at hold
    exact hallowed hold

theorem Copying.copyAttributes (h : Copying source start done files log) :
    Copying source start done files (log ++ [.copyAttributes path]) := by
  have hstage : stage (log ++ [.copyAttributes path]) = .reserved := by
    rw [stage_append, h.stands]
    rfl
  exact ⟨⟨by simp [hstage], fun _ ↦ h.isFile_reserved, by simp [hstage], h.base.unmarked,
    h.base.directories, h.base.clear⟩, hstage, h.copied⟩

/-! ### Copies -/

/-- A world in which the entries have been copied. -/
def During (source : Source) (start : Files) (done : List (Path × Entry)) (world : World) : Prop :=
  Copying source start done world.destination world.log

theorem meets_makeDirectory (h : During source start done world)
    (hdone : ∀ entry ∈ done, source.entries.get? entry.1 = some entry.2)
    (hignored : ignored path = false)
    (hpath : ∀ entry, source.entries.get? path = some entry → entry = .directory) :
    (makeDirectory fails path).Meets (During source start done)
      (fun _ world ↦ During source start done world ∧
        world.destination.get? path = some .directory)
      (fun _ ↦ During source start done) world := by
  refine meets_perform h (fun _ ↦ ⟨h, h⟩) fun hallowed _ ↦ ?_
  have hnext := Copying.makeDirectory h hdone (by simpa using hallowed) hignored hpath
  exact ⟨hnext, hnext, Dict.get?_set_self⟩

theorem meets_copyFile (h : During source start done world)
    (hunmarked : ∀ name ∈ markerNames, path ≠ [name])
    (hdone : Plain source start → ∀ entry ∈ done, entry.1 = path → entry.2 = .directory) :
    (copyFile fails content path).Meets (During source start done)
      (fun _ world ↦ During source start done world ∧
        world.destination.get? path = some (.file content))
      (fun _ ↦ During source start done) world := by
  refine Procedure.Meets.mono (Procedure.meets_forM (fun counts world ↦ During source start done world ∧
    ∀ count ∈ counts.getLast?, world.destination.get? path = some (.file (content.take count)))
    ⟨h, by simp⟩ (fun _ _ h ↦ h.1) fun before count after _ world hworld ↦ ?_) (fun _ h ↦ h)
    (fun _ world hworld ↦ ⟨hworld.1, ?_⟩) fun _ _ h ↦ h
  · refine meets_perform hworld.1 (fun _ ↦ ⟨hworld.1, hworld.1⟩) fun hallowed _ ↦ ?_
    have hnext : Copying source start done
        (world.destination.set path (.file (content.take count))) (world.log ++ [.write path]) :=
      Copying.write hworld.1 (by simpa using hallowed) hunmarked hdone
    refine ⟨hnext, hnext, fun last hlast ↦ ?_⟩
    obtain rfl : count = last := by simpa using hlast
    exact Dict.get?_set_self
  · have hlast := hworld.2 content.length (by simp [List.getLast?_range])
    rwa [List.take_length] at hlast

theorem meets_copyAttributes (h : During source start done world) :
    (copyAttributes fails path).Meets (During source start done) (fun _ ↦ During source start done)
      (fun _ ↦ During source start done) world :=
  meets_perform h (fun _ ↦ ⟨h, h⟩) fun _ _ ↦ ⟨h.copyAttributes, h.copyAttributes⟩

/-- A file of the source is copied, in its place if the destination has no directory there. -/
theorem meets_copy2 (h : During source start done world)
    (hsource : source.entries.get? path = some (.file content)) (hignored : ignored path = false)
    (hdone : ∀ entry ∈ done, entry.1 ≠ path) :
    (copy2 fails content path).Meets (During source start done)
      (fun _ ↦ During source start (done ++ [(path, .file content)]))
      (fun _ ↦ During source start done) world := by
  have hnonempty : path ≠ [] := source.nonempty path (Dict.get?_isSome_iff.mp (by rw [hsource]; rfl))
  have hunmarked : ∀ name ∈ markerNames, path ≠ [name] := by
    rintro name hname rfl
    simp [ignored, hname] at hignored
  have hattributes (target : Path) (world : World)
      (hworld : During source start (done ++ [(path, .file content)]) world) :
      (copyAttributes fails target).Meets (During source start done)
        (fun _ ↦ During source start (done ++ [(path, .file content)]))
        (fun _ ↦ During source start done) world :=
    (meets_copyAttributes hworld).mono (fun _ h ↦ h.left) (fun _ _ h ↦ h) fun _ _ h ↦ h.left
  unfold copy2
  refine Procedure.meets_fetch_bind.mpr ?_
  by_cases hdirectory : world.destination.get? path = some .directory
  · have hplain : ¬ Plain source start := fun hplain ↦ h.base.clear hplain path content hsource hdirectory
    simp only [if_pos hdirectory]
    refine (meets_copyFile h (fun name _ heq ↦ ?_) fun hclear ↦ absurd hclear hplain).bind
      fun _ world _ hworld ↦ hattributes _ world (hworld.1.append fun hclear ↦ absurd hclear hplain)
    have hlength := congrArg List.length heq
    rw [List.getLast?_eq_some_getLast hnonempty] at hlength
    have hpositive := List.length_pos_iff.mpr hnonempty
    simp only [Option.toList_some, List.length_append, List.length_singleton] at hlength
    omega
  · simp only [if_neg hdirectory]
    exact (meets_copyFile h hunmarked fun _ entry hentry heq ↦ absurd heq (hdone entry hentry)).bind
      fun _ world _ hworld ↦ hattributes _ world (hworld.1.append fun _ ↦ hworld.2)

theorem meets_copyEntry (h : During source start done world)
    (hsource : source.entries.get? entry.1 = some entry.2) (hignored : ignored entry.1 = false)
    (hdone : ∀ other ∈ done, source.entries.get? other.1 = some other.2 ∧ other.1 ≠ entry.1) :
    (copyEntry fails entry).Meets (During source start done)
      (fun _ ↦ During source start (done ++ [entry])) (fun _ ↦ During source start done) world := by
  obtain ⟨path, node⟩ := entry
  cases node with
  | directory =>
    refine (meets_makeDirectory h (fun other hother ↦ (hdone other hother).1) hignored
      fun other hother ↦ ?_).mono (fun _ h ↦ h) (fun _ _ hworld ↦ hworld.1.append fun _ ↦ hworld.2)
      fun _ _ h ↦ h
    exact (Option.some.inj (hsource.symm.trans hother)).symm
  | file content => exact meets_copy2 h hsource hignored fun other hother ↦ (hdone other hother).2

/-- An entry is copied, or its path fails. -/
theorem meets_tryEntry {failed : List Path} (h : During source start done world)
    (hsource : source.entries.get? entry.1 = some entry.2) (hignored : ignored entry.1 = false)
    (hdone : ∀ other ∈ done, source.entries.get? other.1 = some other.2 ∧ other.1 ≠ entry.1) :
    (Procedure.tryCatch (do copyEntry fails entry; return failed) fun _ ↦
      return entry.1 :: failed).Meets (During source start [])
      (fun failed' world ↦ During source start [] world ∧
        (failed' = [] → failed = [] ∧ During source start (done ++ [entry]) world))
      (fun _ _ ↦ False) world := by
  have hentry : Procedure.Meets (During source start done)
      (fun failed' world ↦ During source start (done ++ [entry]) world ∧ failed' = failed)
      (fun _ ↦ During source start done) (do copyEntry fails entry; return failed) world :=
    (meets_copyEntry h hsource hignored hdone).bind fun _ _ hstopped hworld ↦
      ⟨hstopped, hworld, rfl⟩
  refine Procedure.Meets.tryCatch (hentry.mono (fun _ h ↦ h.nil) (fun failed' world hworld ↦ ?_)
    fun _ _ h ↦ h) fun _ world _ hworld ↦ ?_
  · exact ⟨hworld.1.nil, fun hnil ↦ ⟨hworld.2 ▸ hnil, hworld.1⟩⟩
  · exact ⟨hworld.nil, hworld.nil, fun hnil ↦ nomatch hnil⟩

/-- Every entry is copied, or some path has failed. -/
theorem meets_copyEntries {entries : List (Path × Entry)} {failed : List Path}
    (hentries : ∀ entry ∈ entries, source.entries.get? entry.1 = some entry.2 ∧ ignored entry.1 = false)
    (hdone : ∀ entry ∈ done, source.entries.get? entry.1 = some entry.2)
    (hdistinct : ((done ++ entries).map Prod.fst).Nodup)
    (h : During source start [] world) (hcopied : failed = [] → During source start done world) :
    (copyEntries fails entries failed).Meets (During source start [])
      (fun failed' world ↦ During source start [] world ∧
        (failed' = [] → failed = [] ∧ During source start (done ++ entries) world))
      (fun _ _ ↦ False) world := by
  induction entries generalizing done failed world with
  | nil =>
    rw [List.append_nil]
    exact ⟨h, h, fun hfailed ↦ ⟨hfailed, hcopied hfailed⟩⟩
  | cons entry rest ih =>
    have hrest := fun other hother ↦ hentries other (List.mem_cons_of_mem entry hother)
    have hsplit : done ++ entry :: rest = (done ++ [entry]) ++ rest := by simp
    rw [hsplit] at hdistinct ⊢
    have hnext : ∀ other ∈ done ++ [entry], source.entries.get? other.1 = some other.2 := by
      intro other hother
      rcases List.mem_append.mp hother with hold | hnew
      · exact hdone other hold
      · rw [List.mem_singleton.mp hnew]
        exact (hentries entry List.mem_cons_self).1
    rw [copyEntries]
    split_ifs with hskip
    · -- a failed path leaves nothing to be said about the copies
      have hfailed : failed ≠ [] := by
        rintro rfl
        simp at hskip
      exact ih hrest hnext hdistinct h fun hnil ↦ absurd hnil hfailed
    · obtain ⟨hsource, hignored⟩ := hentries entry List.mem_cons_self
      have hnew : ∀ other ∈ done, other.1 ≠ entry.1 := by
        intro other hother heq
        rw [List.map_append, List.map_append, List.append_assoc, List.nodup_append] at hdistinct
        exact hdistinct.2.2 _ (List.mem_map_of_mem hother) _
          (List.mem_append_left _ (List.mem_map_of_mem (List.mem_singleton_self entry))) heq
      by_cases hfailed : failed = []
      · refine (meets_tryEntry (hcopied hfailed) hsource hignored
          fun other hother ↦ ⟨hdone other hother, hnew other hother⟩).bind
            fun failed' world _ hworld ↦ ?_
        refine (ih hrest hnext hdistinct hworld.1 fun hnil ↦ (hworld.2 hnil).2).mono (fun _ h ↦ h)
          (fun _ world hlater ↦ ⟨hlater.1, fun hnil ↦ ?_⟩) fun _ _ h ↦ h
        exact ⟨hfailed, (hlater.2 hnil).2⟩
      · refine (meets_tryEntry h hsource hignored fun _ hother ↦ nomatch hother).bind
          fun failed' world _ hworld ↦ ?_
        have hfailed' : failed' ≠ [] := fun hnil ↦ hfailed (hworld.2 hnil).1
        refine (ih hrest hnext hdistinct hworld.1 fun hnil ↦ absurd hnil hfailed').mono (fun _ h ↦ h)
          (fun _ world hlater ↦ ⟨hlater.1, fun hnil ↦ ?_⟩) fun _ _ h ↦ h
        exact absurd (hlater.2 hnil).1 hfailed'

theorem meets_copyDirectoryAttributes {directories failed : List Path}
    (h : During source start [] world) (hcopied : failed = [] → During source start done world) :
    (copyDirectoryAttributes fails directories failed).Meets (During source start [])
      (fun failed' world ↦ During source start [] world ∧
        (failed' = [] → During source start done world))
      (fun _ _ ↦ False) world := by
  induction directories generalizing failed world with
  | nil => exact ⟨h, h, hcopied⟩
  | cons path rest ih =>
    have htry (base : List (Path × Entry)) (hbase : During source start base world) :
        (Procedure.tryCatch (do copyAttributes fails path; return failed) fun _ ↦
          return path :: failed).Meets (During source start [])
          (fun failed' world ↦ During source start base world ∧ (failed' = [] → failed = []))
          (fun _ _ ↦ False) world := by
      have hattributes : Procedure.Meets (During source start base)
          (fun failed' world ↦ During source start base world ∧ failed' = failed)
          (fun _ ↦ During source start base) (do copyAttributes fails path; return failed) world :=
        (meets_copyAttributes hbase).bind fun _ _ hstopped _ ↦ ⟨hstopped, hstopped, rfl⟩
      refine Procedure.Meets.tryCatch (hattributes.mono (fun _ h ↦ h.nil)
        (fun failed' world hworld ↦ ⟨hworld.1, fun hnil ↦ hworld.2 ▸ hnil⟩) fun _ _ h ↦ h)
        fun _ world _ hworld ↦ ?_
      exact ⟨hworld.nil, hworld, fun hnil ↦ nomatch hnil⟩
    rw [copyDirectoryAttributes]
    split_ifs
    · exact ih h hcopied
    · by_cases hfailed : failed = []
      · exact (htry done (hcopied hfailed)).bind fun _ _ _ hworld ↦
          ih hworld.1.nil fun _ ↦ hworld.1
      · exact (htry [] h).bind fun _ _ _ hworld ↦
          ih hworld.1 fun hnil ↦ absurd (hworld.2 hnil) hfailed

/-- A copy of the source has every entry that is not ignored. -/
theorem meets_copyTree (h : During source start [] world) :
    (copyTree fails (copied source)).Meets (During source start [])
      (fun _ ↦ During source start (copied source)) (fun _ ↦ During source start []) world := by
  have hroot : ∀ entry, source.entries.get? [] = some entry → entry = .directory := fun entry hentry ↦
    absurd rfl (source.nonempty [] (Dict.get?_isSome_iff.mp (by rw [hentry]; rfl)))
  have hentries : ∀ entry ∈ copied source,
      source.entries.get? entry.1 = some entry.2 ∧ ignored entry.1 = false := by
    intro entry hentry
    obtain ⟨hmem, hignored⟩ := List.mem_filter.mp hentry
    exact ⟨(Dict.get?_eq_some_iff source.nodup).mpr hmem, by simpa using hignored⟩
  have hdistinct : ((copied source).map Prod.fst).Nodup :=
    (List.filter_sublist.map _).nodup source.nodup
  unfold copyTree
  refine (meets_makeDirectory h (fun _ hentry ↦ nomatch hentry) rfl hroot).bind
    fun _ world _ hworld ↦ ?_
  have hcopy : (copyEntries fails (copied source) []).Meets (During source start [])
      (fun failed world ↦ During source start [] world ∧
        (failed = [] → ([] : List Path) = [] ∧ During source start ([] ++ copied source) world))
      (fun _ _ ↦ False) world :=
    meets_copyEntries hentries (fun _ hentry ↦ nomatch hentry) hdistinct hworld.1 fun _ ↦ hworld.1
  refine (hcopy.mono (fun _ h ↦ h) (fun _ _ h ↦ h) fun _ _ h ↦ h.elim).bind
    fun failed world _ hworld ↦ ?_
  refine ((meets_copyDirectoryAttributes hworld.1 fun hnil ↦ (hworld.2 hnil).2).mono (fun _ h ↦ h)
    (fun _ _ h ↦ h) fun _ _ h ↦ h.elim).bind fun failed world hstopped hworld ↦ ?_
  split_ifs with hfailed
  · exact ⟨hstopped, hstopped⟩
  · exact ⟨hstopped, hworld.2 (not_not.mp hfailed)⟩

/-! ### The marker -/

/-- A destination without its reservation that has all but the marker. -/
structure Exposing (source : Source) (terminal : String) (start files : Files)
    (log : List Operation) : Prop where
  base : Unpublished source start files log
  exposed : stage log = .exposed
  marker : files.get? temporaryMarker = some (.file (markerContent source terminal))
  copied : Plain source start → ∀ entry ∈ copied source, files.get? entry.1 = some entry.2

/-- A destination with its marker. -/
structure Published (source : Source) (terminal : String) (start files : Files)
    (log : List Operation) : Prop where
  published : stage log = .published
  marked : isFile files [terminal] = true
  complete : Complete source files ↔ Plain source start

theorem markerNames_ne (hname : name ∈ markerNames) :
    [name] ≠ reserved ∧ [name] ≠ temporaryMarker := by
  simp only [markerNames, List.mem_cons, List.not_mem_nil, or_false] at hname
  rcases hname with rfl | rfl
  · decide
  · decide

/-- The reservation is removed. -/
theorem Copying.remove (h : Copying source start (DirectRun.copied source) files log)
    (hmarker : files.get? temporaryMarker = some (.file (markerContent source terminal))) :
    Exposing source terminal start (files.erase DirectRun.reserved)
      (log ++ [.removeReservation]) := by
  have hstage : stage (log ++ [.removeReservation]) = .exposed := by
    rw [stage_append, h.stands]
    rfl
  obtain ⟨content, hcontent⟩ := isFile_iff.mp h.isFile_reserved
  have hkept {path : Path} {entry : Entry} (hpath : files.get? path = some entry)
      (hentry : path = DirectRun.reserved → entry ≠ .file content) :
      (files.erase DirectRun.reserved).get? path = some entry := by
    rw [Dict.get?_erase_of_ne, hpath]
    intro heq
    rw [heq, hcontent] at hpath
    exact hentry heq (Option.some.inj hpath).symm
  refine ⟨⟨by simp [hstage], by simp [hstage], fun _ ↦ Dict.get?_erase_self, fun name hname ↦ ?_,
    fun path hpath ↦ hkept (h.base.directories path hpath) (by simp),
    fun hplain path other hother ↦ ?_⟩, hstage,
    hkept hmarker fun heq ↦ absurd heq (by decide),
    fun hplain entry hentry ↦ hkept (h.copied hplain entry hentry) ?_⟩
  · rw [Dict.get?_erase_of_ne (markerNames_ne hname).1, h.base.unmarked name hname]
  · by_cases heq : path = DirectRun.reserved
    · rw [heq, Dict.get?_erase_self]
      simp
    · rw [Dict.get?_erase_of_ne heq]
      exact h.base.clear hplain path other hother
  · intro heq hfile
    have hsource := (Dict.get?_eq_some_iff source.nodup).mpr (List.mem_of_mem_filter hentry)
    rw [heq, hfile] at hsource
    exact hplain.names _ List.mem_cons_self content hsource

/-- What is below a name is in a directory of that name. -/
theorem get?_root {rest : Path} (hrest : rest ≠ []) (hpath : name :: rest ∈ source.entries.keys) :
    source.entries.get? [name] = some .directory := by
  induction rest using List.reverseRecOn with
  | nil => exact absurd rfl hrest
  | append_singleton rest last ih =>
    have hdrop : (name :: (rest ++ [last])).dropLast = name :: rest := by
      rw [← List.cons_append, List.dropLast_concat]
    have hparent := source.parents _ hpath (by rw [hdrop]; simp)
    rw [hdrop] at hparent
    by_cases hnil : rest = []
    · rw [hnil] at hparent
      exact hparent
    · exact ih hnil (Dict.get?_isSome_iff.mp (by rw [hparent]; rfl))

/-- The marker comes. -/
theorem Exposing.rename (h : Exposing source terminal start files log)
    (hmarkers : source.markers = [terminal]) : Published source terminal start
      ((files.erase temporaryMarker).set [terminal] (.file (markerContent source terminal)))
      (log ++ [.renameMarker]) := by
  have hmem (name : String) : name ∈ markerNames ∧ isFile source.entries [name] = true ↔
      name = terminal := by
    have hlist : name ∈ source.markers ↔ name = terminal := by rw [hmarkers, List.mem_singleton]
    rwa [Source.markers, List.mem_filter] at hlist
  obtain ⟨hterminal, hfile⟩ := (hmem terminal).mpr rfl
  obtain ⟨hreserved, htemporary⟩ := markerNames_ne hterminal
  have hkept {path : Path} (hmarker : path ≠ [terminal]) (hpath : path ≠ temporaryMarker) :
      ((files.erase temporaryMarker).set [terminal]
        (.file (markerContent source terminal))).get? path = files.get? path := by
    rw [Dict.get?_set_of_ne hmarker, Dict.get?_erase_of_ne hpath]
  refine ⟨by rw [stage_append]; rfl, isFile_iff.mpr ⟨_, Dict.get?_set_self⟩,
    fun hcomplete ↦ ⟨fun path hpath content hcontent ↦ ?_, fun name hname hdirectory ↦ ?_,
      fun path content hcontent hstart ↦ ?_⟩, fun hplain path entry hentry ↦ ?_⟩
  · have hfound := hcomplete path _ hcontent
    simp only [List.mem_cons, List.not_mem_nil, or_false] at hpath
    rcases hpath with rfl | rfl
    · rw [hkept hreserved.symm (by decide), h.base.removed h.exposed] at hfound
      cases hfound
    · rw [Dict.get?_set_of_ne htemporary.symm, Dict.get?_erase_self] at hfound
      cases hfound
  · have hfound := hcomplete _ _ hdirectory
    by_cases heq : [name] = [terminal]
    · rw [heq, Dict.get?_set_self] at hfound
      cases hfound
    · rw [hkept heq (markerNames_ne hname).2, h.base.unmarked name hname] at hfound
      cases hfound
  · have hfound := hcomplete _ _ hcontent
    have hdirectory := h.base.directories path hstart
    rw [hkept, hdirectory] at hfound
    · cases hfound
    · rintro rfl
      rw [h.base.unmarked terminal hterminal] at hdirectory
      cases hdirectory
    · rintro rfl
      rw [h.marker] at hdirectory
      cases hdirectory
  · cases hignored : ignored path with
    | true =>
      cases path with
      | nil => cases hignored
      | cons name rest =>
        have hname : name ∈ markerNames := by simpa [ignored] using hignored
        by_cases hrest : rest = []
        · subst hrest
          cases entry with
          | directory => exact absurd hentry (hplain.markers name hname)
          | file content =>
            obtain rfl := (hmem name).mp ⟨hname, isFile_iff.mpr ⟨content, hentry⟩⟩
            rw [Dict.get?_set_self, markerContent, hentry]
        · have hroot := get?_root hrest (Dict.get?_isSome_iff.mp (by rw [hentry]; rfl))
          exact absurd hroot (hplain.markers name hname)
    | false =>
      have hcopied := h.copied hplain (path, entry) (List.mem_filter.mpr
        ⟨(Dict.get?_eq_some_iff source.nodup).mp hentry, by simpa using hignored⟩)
      rw [hkept, hcopied]
      · rintro rfl
        simp [ignored, hterminal] at hignored
      · rintro rfl
        rw [h.marker] at hcopied
        cases hcopied
        exact hplain.names _ (by simp) _ hentry

/-! ### Publications -/

/-- What holds at every moment of a publication. -/
def Follows (source : Source) (terminal : String) (start : Files) (world : World) : Prop :=
  Unpublished source start world.destination world.log ∨
    Published source terminal start world.destination world.log

theorem meets_publishAttempt (hmarkers : source.markers = [terminal])
    (h : During source start [] world) :
    (publishAttempt fails source terminal).Meets (Follows source terminal start)
      (fun _ world ↦ Published source terminal start world.destination world.log)
      (fun _ world ↦ Unpublished source start world.destination world.log) world := by
  have hunmarked : ∀ name ∈ markerNames, temporaryMarker ≠ [name] := fun name hname ↦
    (markerNames_ne hname).2.symm
  unfold publishAttempt
  refine ((meets_copyTree h).mono (fun _ h ↦ .inl h.base) (fun _ _ h ↦ h) fun _ _ h ↦ h.base).bind
    fun _ world _ hworld ↦ ?_
  have hmarker : Plain source start → ∀ entry ∈ copied source, entry.1 = temporaryMarker →
      entry.2 = .directory := by
    intro hplain entry hentry heq
    have hsource := (Dict.get?_eq_some_iff source.nodup).mpr (List.mem_of_mem_filter hentry)
    cases hnode : entry.2 with
    | directory => rfl
    | file content =>
      rw [heq, hnode] at hsource
      exact absurd hsource (hplain.names _ (by simp) content)
  refine ((meets_copyFile hworld hunmarked hmarker).mono (fun _ h ↦ .inl h.base) (fun _ _ h ↦ h)
    fun _ _ h ↦ h.base).bind fun _ world _ hworld ↦ ?_
  have hremove : (perform fails .removeReservation (fun files ↦ isFile files reserved) fun files ↦
      files.erase reserved).Meets (Follows source terminal start)
      (fun _ world ↦ Exposing source terminal start world.destination world.log)
      (fun _ world ↦ Unpublished source start world.destination world.log) world := by
    refine meets_perform (.inl hworld.1.base) (fun _ ↦ ⟨.inl hworld.1.base, hworld.1.base⟩)
      fun _ _ ↦ ?_
    have hnext := Copying.remove hworld.1 hworld.2
    exact ⟨.inl hnext.base, hnext⟩
  refine hremove.bind fun _ world _ hworld ↦ ?_
  refine meets_perform (.inl hworld.base) (fun _ ↦ ⟨.inl hworld.base, hworld.base⟩) fun _ _ ↦ ?_
  have hnext := hworld.rename hmarkers
  rw [hworld.marker, Option.elim_some]
  exact ⟨.inr hnext, hnext⟩

/-- The reservation is made again where the marker has not come. -/
theorem Unpublished.touch (h : Unpublished source start files log) : Copying source start []
      (if (files.get? reserved).isSome then files else files.set reserved (.file []))
      (log ++ [.restoreReservation]) := by
  have hstage : stage (log ++ [.restoreReservation]) = .reserved := by
    rw [stage_append]
    rfl
  cases hreserved : files.get? reserved with
  | none =>
    rw [if_neg (by simp)]
    refine ⟨⟨by simp [hstage], fun _ ↦ isFile_iff.mpr ⟨[], Dict.get?_set_self⟩, by simp [hstage],
      fun name hname ↦ ?_, fun path hpath ↦ ?_, fun hplain path content hcontent ↦ ?_⟩, hstage,
      fun _ _ hentry ↦ nomatch hentry⟩
    · rw [Dict.get?_set_of_ne (markerNames_ne hname).1, h.unmarked name hname]
    · have hold := h.directories path hpath
      rw [Dict.get?_set_of_ne, hold]
      rintro rfl
      rw [hold] at hreserved
      cases hreserved
    · rw [Dict.get?_set]
      split_ifs
      · simp
      · exact h.clear hplain path content hcontent
  | some entry =>
    rw [if_pos (by simp)]
    refine ⟨⟨by simp [hstage], fun _ ↦ ?_, by simp [hstage], h.unmarked, h.directories, h.clear⟩,
      hstage, fun _ _ hentry ↦ nomatch hentry⟩
    cases hnow : stage log with
    | reserved => exact h.reservation hnow
    | exposed =>
      rw [h.removed hnow] at hreserved
      cases hreserved
    | published => exact absurd hnow h.unpublished

theorem meets_publishAttempts (hmarkers : source.markers = [terminal]) {left : ℕ}
    (h : During source start [] world) :
    (publishAttempts fails source terminal left).Meets (Follows source terminal start)
      (fun _ _ ↦ True) (fun _ _ ↦ True) world := by
  have hterminal : terminal ∈ markerNames :=
    List.mem_of_mem_filter (hmarkers ▸ List.mem_singleton_self terminal)
  induction left generalizing world with
  | zero => exact ⟨.inl h.base, trivial⟩
  | succ left ih =>
    refine ((meets_publishAttempt hmarkers h).mono (fun _ h ↦ h) (fun _ _ _ ↦ trivial)
      fun _ _ h ↦ h).tryCatch fun error world _ hworld ↦ ?_
    refine Procedure.meets_fetch_bind.mpr ?_
    have hunmarked : isFile world.destination [terminal] = false := by
      rw [isFile, hworld.unmarked terminal hterminal]
    have htouch : (touchReserved fails).Meets (Follows source terminal start)
        (fun _ ↦ During source start []) (fun _ _ ↦ True) world :=
      meets_perform (.inl hworld) (fun _ ↦ ⟨.inl hworld, trivial⟩) fun _ _ ↦
        ⟨.inl hworld.touch.base, hworld.touch⟩
    simp only [hunmarked, Bool.not_false, if_true]
    refine htouch.bind fun _ world hstopped hworld ↦ ?_
    split_ifs
    · exact ⟨hstopped, trivial⟩
    · exact ih hworld

/-- At every moment the destination of a publication is reserved, exposed or published. -/
theorem follows_crash (hmarkers : source.markers = [terminal]) (hstart : Reserved start)
    (attempts : ℤ) (count : ℕ) : Follows source terminal start
      ((publishEvidence fails source attempts).crash count (World.start start)) := by
  have hfirst : Unpublished source start start [] := by
    exact ⟨by decide, fun _ ↦ hstart.reservation, fun hexposed ↦ absurd hexposed (by decide),
      hstart.unmarked, fun _ h ↦ h, fun hplain ↦ hplain.start⟩
  have hduring : During source start [] (World.start start) :=
    ⟨hfirst, rfl, fun _ _ hentry ↦ nomatch hentry⟩
  have hmeets : (publishEvidence fails source attempts).Meets (Follows source terminal start)
      (fun _ _ ↦ True) (fun _ _ ↦ True) (World.start start) := by
    unfold publishEvidence
    rw [hmarkers]
    refine Procedure.meets_fetch_bind.mpr ?_
    split_ifs
    · exact ⟨.inl hfirst, trivial⟩
    · exact ⟨.inl hfirst, trivial⟩
    · exact meets_publishAttempts hmarkers hduring
  exact hmeets.crash count

/-- A worker that may adopt a reserved destination without a marker does. -/
theorem prepare_of_reserved (hroot : files.get? [] = some .directory)
    (hreserved : isFile files reserved = true)
    (hunmarked : ∀ name ∈ markerNames, files.get? [name] = none) :
    ((prepareEvidenceDestination (fun _ ↦ false) true).exec (World.start files)).1 = .ok () := by
  have hmeets : (prepareEvidenceDestination (fun _ ↦ false) true).Meets (fun _ ↦ True)
      (fun _ _ ↦ True) (fun _ _ ↦ False) (World.start files) := by
    unfold prepareEvidenceDestination
    refine Procedure.meets_fetch_bind.mpr ?_
    rw [if_pos (by rw [World.start, hroot]; rfl), if_pos]
    · refine Procedure.meets_forM (fun _ _ ↦ True) trivial (fun _ _ _ ↦ trivial)
        fun _ name _ _ world _ ↦ ?_
      exact ⟨trivial, trivial, trivial⟩
    · simp only [World.start, hreserved, Bool.true_and, List.all_eq_true]
      intro name hname
      rw [hunmarked name hname]
      rfl
  obtain ⟨value, hvalue, -⟩ := hmeets.exec_ok
  exact hvalue

/-- Wherever a publication is stopped, the destination is in order exactly when it is not exposed, and
published only from a source that leaves the names of the publication alone. -/
theorem survives_crash_iff (hmarkers : source.markers = [terminal]) (hstart : Reserved start)
    (fails : ℕ → Bool) (attempts : ℤ) (count : ℕ) : Survives source
        ((publishEvidence fails source attempts).crash count (World.start start)).destination ↔
      stage ((publishEvidence fails source attempts).crash count (World.start start)).log ≠ .exposed ∧
        (stage ((publishEvidence fails source attempts).crash count (World.start start)).log =
          .published → Plain source start) := by
  have hfollows : Follows source terminal start
      ((publishEvidence fails source attempts).crash count (World.start start)) :=
    follows_crash hmarkers hstart attempts count
  have hterminal : terminal ∈ markerNames :=
    List.mem_of_mem_filter (hmarkers ▸ List.mem_singleton_self terminal)
  generalize (publishEvidence fails source attempts).crash count (World.start start) = world
    at hfollows ⊢
  rcases hfollows with h | h
  · have hunmarked : ∀ name ∈ markerNames, isFile world.destination [name] = false := by
      intro name hname
      rw [isFile, h.unmarked name hname]
    constructor
    · refine fun hsurvives ↦ ⟨fun hexposed ↦ ?_, fun hpublished ↦ absurd hpublished h.unpublished⟩
      have hreserved := (hsurvives.reserved hunmarked).1
      rw [isFile, h.removed hexposed] at hreserved
      cases hreserved
    · rintro ⟨hexposed, -⟩
      have hreserved : isFile world.destination reserved = true := by
        cases hstage : stage world.log with
        | reserved => exact h.reservation hstage
        | exposed => exact absurd hstage hexposed
        | published => exact absurd hstage h.unpublished
      refine ⟨fun name hname hfile ↦ ?_, fun _ ↦ ⟨hreserved, prepare_of_reserved
        (h.directories [] hstart.exists_root) hreserved h.unmarked⟩⟩
      rw [hunmarked name hname] at hfile
      cases hfile
  · have hstage := h.published
    constructor
    · intro hsurvives
      refine ⟨by simp [hstage], fun _ ↦ ?_⟩
      exact h.complete.mp (hsurvives.complete terminal hterminal h.marked)
    · rintro ⟨-, hplain⟩
      refine ⟨fun _ _ _ ↦ h.complete.mpr (hplain hstage), fun hunmarked ↦ ?_⟩
      exact absurd h.marked (by simp [hunmarked terminal hterminal])

/-- A source that has succeeded without other evidence. -/
def markerSource : Source where
  entries := [(["_SUCCESS"], .file [10])]
  nodup := by decide
  nonempty := by decide
  parents := by decide
  ordered := by decide

/-- A destination as it is prepared. -/
def preparedFiles : Files := [([], .directory), (reserved, .file [10])]

theorem reserved_preparedFiles : Reserved preparedFiles := ⟨by decide, by decide, by decide⟩

/-- A worker that is stopped before it renames the marker leaves a destination that no later one takes
over. -/
theorem not_survives_crash_unreserved :
    markerSource.markers = ["_SUCCESS"] ∧ Reserved preparedFiles ∧
      ¬ Survives markerSource ((publishEvidence (fun _ ↦ false) markerSource 3).crash 5
        (World.start preparedFiles)).destination ∧
      ((prepareEvidenceDestination (fun _ ↦ false) true).exec (World.start
        ((publishEvidence (fun _ ↦ false) markerSource 3).crash 5
          (World.start preparedFiles)).destination)).1 = .error .fileExists := by
  refine ⟨by decide, reserved_preparedFiles, fun hsurvives ↦ ?_, rfl⟩
  have hreserved := (hsurvives.reserved (by decide +kernel)).1
  revert hreserved
  decide +kernel

theorem plain_markerSource : Plain markerSource preparedFiles := by
  have hfile (path : Path) (content : Bytes)
      (h : markerSource.entries.get? path = some (.file content)) : path = ["_SUCCESS"] := by
    have hentry := Dict.mem_of_get?_eq_some h
    simp only [markerSource, List.mem_singleton, Prod.mk.injEq] at hentry
    exact hentry.1
  refine ⟨fun path hpath content hcontent ↦ ?_, by decide, fun path content hcontent ↦ ?_⟩
  · rw [hfile path content hcontent] at hpath
    revert hpath
    decide
  · rw [hfile path content hcontent]
    decide

theorem survives_crash_iff_published :
    stage ((publishEvidence (fun _ ↦ false) markerSource 3).crash 6 (World.start preparedFiles)).log =
        .published ∧
      Survives markerSource ((publishEvidence (fun _ ↦ false) markerSource 3).crash 6
        (World.start preparedFiles)).destination := by
  have hstage : stage ((publishEvidence (fun _ ↦ false) markerSource 3).crash 6
      (World.start preparedFiles)).log = .published := by
    decide +kernel
  have hmarkers : markerSource.markers = ["_SUCCESS"] := by decide
  exact ⟨hstage, (survives_crash_iff hmarkers reserved_preparedFiles _ _ _).mpr
    ⟨by simp [hstage], fun _ ↦ plain_markerSource⟩⟩

end HarborHF.DirectRun
