import Mathlib.Data.List.Dedup
import Mathlib.Data.List.Sort
import HarborHF.Relational.PathOrder
import HarborHF.Relational.Separators

/-!
# The file lists of a trial's evidence

The files below the agent directory of a trial are sorted into sessions, trajectories and logs, and
the files below its verifier directory that have no role of their own are logs, too. The lists are
collected in the order of paths and checked in the order of their texts.

A session is recognised by the whole path of the file, with the place where the trial lies, and by a
name without `trajectory` in lower case; a trajectory by its name in any case. `Plain` is what a tree
must be for each file to be in one list at every place and for the lists to be accepted.
-/

set_option autoImplicit false

namespace HarborHF.Trials

open Relational

/-- A text as its code points. An undecodable octet of a file name is one in the range of surrogates. -/
abbrev Name := List ℕ

def ascii (text : String) : Name := text.toList.map Char.toNat

/-- A letter in lower case, if it is an ASCII letter. -/
def lowerLetter (letter : ℕ) : ℕ := if 65 ≤ letter ∧ letter ≤ 90 then letter + 32 else letter

/-- `str.lower`. A slash ends the context that the lower case of a letter may depend on. -/
class Lowercase where
  lower : Name → Name
  lower_append_slash : ∀ text rest, lower (text ++ 47 :: rest) = lower text ++ 47 :: lower rest
  lower_ascii : ∀ text, (∀ letter ∈ text, letter < 128) → lower text = text.map lowerLetter

/-- A regular file by its path below the trial root, with its size. -/
structure File where
  path : List Name
  size : ℕ
  deriving DecidableEq

def File.name (file : File) : Name := file.path.getLast?.getD []

/-- `path.relative_to(trial_root).as_posix()`. -/
def File.text (file : File) : Name := joined 47 file.path

/-- `PurePath.suffix`: the last dot and what follows it, if neither side of the dot is empty. -/
def suffix (name : Name) : Name :=
  if beforeLast 46 name ≠ [] ∧ afterLast 46 name ≠ [] then 46 :: afterLast 46 name else []

/-- `path.as_posix()` for a trial root with a given path, or for one that is the current directory. -/
def fullPath (root : Option Name) (file : File) : Name :=
  match root with
  | none => file.text
  | some place => place ++ 47 :: file.text

/-- The names of a file system: not empty, without slashes and NUL, neither `.` nor `..`. -/
def IsName (name : Name) : Prop :=
  name ≠ [] ∧ 47 ∉ name ∧ 0 ∉ name ∧ name ≠ [46] ∧ name ≠ [46, 46]

instance (name : Name) : Decidable (IsName name) := inferInstanceAs (Decidable (_ ∧ _))

/-- The regular files of a trial's agent and verifier directories, and which of the latter are the
scorecard and the reward. -/
structure TrialTree where
  agent : List File
  verifier : List File
  scorecard : List Name
  reward : List Name
  path_ne_nil : ∀ file ∈ agent ++ verifier, file.path ≠ []
  isName : ∀ file ∈ agent ++ verifier, ∀ name ∈ file.path, IsName name
  nodup_agent : (agent.map File.path).Nodup
  nodup_verifier : (verifier.map File.path).Nodup

/-! ### Collecting -/

section

variable [Lowercase]

def isSession (root : Option Name) (file : File) : Prop :=
  suffix file.name = ascii ".jsonl" ∧
    ascii "session" <:+: Lowercase.lower (fullPath root file) ∧
    ¬ascii "trajectory" <:+: file.name

def isTrajectory (file : File) : Prop := ascii "trajectory" <:+: Lowercase.lower file.name

instance (root : Option Name) : DecidablePred (isSession root) :=
  fun _ ↦ inferInstanceAs (Decidable (_ ∧ _))

instance : DecidablePred isTrajectory := fun _ ↦ inferInstanceAs (Decidable (_ <:+: _))

/-- `sorted(root.rglob("*"))`, the regular files of it: in the order of paths. -/
def ordered (files : List File) : List File :=
  files.insertionSort fun first second ↦ first.path ≤ second.path

def sessions (root : Option Name) (files : List File) : List File :=
  (ordered files).filter fun file ↦ isSession root file

def trajectories (files : List File) : List File := (ordered files).filter fun file ↦ isTrajectory file

local instance : LawfulBEq Name := inferInstance

/-- The files whose paths are retained in neither of the two lists. -/
def logs (root : Option Name) (files : List File) : List File :=
  (ordered files).filter fun file ↦
    file.text ∉ (sessions root files ++ trajectories files).map File.text

end

/-- The files of a verifier directory with a role of their own. -/
def knownFiles (tree : TrialTree) : List (List Name) :=
  [tree.scorecard, tree.reward, [ascii "verifier", ascii "test-stdout.txt"],
    [ascii "verifier", ascii "test-stderr.txt"], [ascii "verifier", ascii "judge-selection.json"]]

def verifierLogs (tree : TrialTree) : List File :=
  (ordered tree.verifier).filter fun file ↦ file.path ∉ knownFiles tree

/-! ### The checks of the evidence -/

/-- `_safe_relative_path`: the parts of the text, without empty ones and `.`, give the text again. -/
def SafeRelativePath (value : Name) : Prop :=
  let parts := (value.splitOn 47).filter fun part ↦ part ≠ [] ∧ part ≠ [46]
  value ≠ [] ∧ value ≠ [46] ∧ value.head? ≠ some 47 ∧ joined 47 parts = value ∧ [46, 46] ∉ parts ∧
    92 ∉ value ∧ 0 ∉ value

instance (value : Name) : Decidable (SafeRelativePath value) :=
  inferInstanceAs (Decidable (_ ∧ _))

/-- A text that is no text of characters is refused by every text field. -/
def Decoded (value : Name) : Prop := ∀ letter ∈ value, ¬(0xD800 ≤ letter ∧ letter ≤ 0xDFFF)

instance (value : Name) : Decidable (Decoded value) := inferInstanceAs (Decidable (∀ _ ∈ _, _))

structure FileReference where
  path : Name
  sizeBytes : ℕ
  deriving DecidableEq

inductive EvidenceError
  | trialEvidence (message : String)
  | value (message : String)
  deriving DecidableEq

/-- `_reference`, with the checks of a file reference. -/
def reference (file : File) : Except EvidenceError FileReference :=
  if Decoded file.text then
    if SafeRelativePath file.text then .ok ⟨file.text, file.size⟩
    else .error (.value "evidence path must be normalized and relative")
  else .error (.value "Input should be a valid string")

/-- `_require_sorted_unique`. -/
def requireSortedUnique (references : List FileReference) : Except EvidenceError Unit :=
  let paths := references.map FileReference.path
  if paths ≠ paths.insertionSort (· ≤ ·) ∨ paths.length ≠ paths.dedup.length then
    .error (.value "file references must be sorted and unique")
  else .ok ()

structure AgentEvidence where
  sessions : List FileReference
  trajectories : List FileReference
  logs : List FileReference
  deriving DecidableEq

/-- `_collect_agent_evidence`. -/
def collectAgentEvidence [Lowercase] (root : Option Name) (files : List File) :
    Except EvidenceError AgentEvidence := do
  let sessionFiles ← (sessions root files).mapM reference
  let trajectoryFiles ← (trajectories files).mapM reference
  if sessionFiles = [] ∨ ∃ item ∈ sessionFiles, item.sizeBytes = 0 then
    .error (.trialEvidence "agent execution has no session JSONL with content")
  if trajectoryFiles = [] ∨ ∃ item ∈ trajectoryFiles, item.sizeBytes = 0 then
    .error (.trialEvidence "agent trajectory is missing or empty")
  let logFiles ← (logs root files).mapM reference
  requireSortedUnique sessionFiles
  requireSortedUnique trajectoryFiles
  requireSortedUnique logFiles
  return ⟨sessionFiles, trajectoryFiles, logFiles⟩

/-! ### Accepted lists -/

/-- The references of the files are built, and accepted as a list. -/
def Accepted (files : List File) : Prop :=
  ∃ references, files.mapM reference = .ok references ∧ requireSortedUnique references = .ok ()

/-- The path of a file: names of a file system, at least one. -/
def ProperFile (file : File) : Prop := file.path ≠ [] ∧ ∀ name ∈ file.path, IsName name

theorem ProperFile.proper {file : File} (h : ProperFile file) : Proper 47 file.path :=
  fun name hname ↦ ⟨(h.2 name hname).1, (h.2 name hname).2.1⟩

theorem safeRelativePath_text {file : File} (h : ProperFile file) :
    SafeRelativePath file.text ↔ 92 ∉ file.text := by
  have hsplit : (file.text.splitOn 47) = file.path := splitOn_joined h.proper h.1
  have hparts : (file.path.filter fun part ↦ part ≠ [] ∧ part ≠ [46]) = file.path := by
    refine List.filter_eq_self.mpr fun name hname ↦ ?_
    have hvalid := h.2 name hname
    simp [hvalid.1, hvalid.2.2.2.1]
  have hnil : file.text ≠ [] := joined_ne_nil h.proper h.1
  have hdot : file.text ≠ [46] := by
    intro heq
    rw [heq] at hsplit
    exact (h.2 [46] (hsplit ▸ List.mem_singleton_self _)).2.2.2.1 rfl
  have hslash : file.text.head? ≠ some 47 := by
    obtain ⟨name, rest, hpath⟩ := List.exists_cons_of_ne_nil h.1
    have hname := h.2 name (hpath ▸ List.mem_cons_self)
    obtain ⟨letter, text, rfl⟩ := List.exists_cons_of_ne_nil hname.1
    rw [File.text, hpath, joined_cons]
    intro hhead
    obtain rfl := Option.some.inj hhead
    exact hname.2.1 List.mem_cons_self
  have hup : [46, 46] ∉ file.path := fun hmem ↦ (h.2 _ hmem).2.2.2.2 rfl
  have hnul : 0 ∉ file.text := by
    unfold File.text
    rw [mem_joined_iff (by decide)]
    rintro ⟨name, hname, hzero⟩
    exact (h.2 name hname).2.2.1 hzero
  unfold SafeRelativePath
  rw [hsplit, hparts]
  exact ⟨fun hsafe ↦ hsafe.2.2.2.2.2.1, fun hback ↦ ⟨hnil, hdot, hslash, rfl, hup, hback, hnul⟩⟩

/-- No name of the path is refused by the check of references. -/
def Writable (file : File) : Prop := ∀ name ∈ file.path, 92 ∉ name ∧ Decoded name

theorem reference_eq_ok_iff {file : File} (h : ProperFile file) {item : FileReference} :
    reference file = .ok item ↔ Writable file ∧ item = ⟨file.text, file.size⟩ := by
  have hback : 92 ∉ file.text ↔ ∀ name ∈ file.path, 92 ∉ name := by
    unfold File.text
    rw [mem_joined_iff (by decide)]
    simp
  have hdecoded : Decoded file.text ↔ ∀ name ∈ file.path, Decoded name := by
    constructor
    · intro hall name hname letter hletter
      by_cases hslash : letter = 47
      · rw [hslash]
        decide
      · exact hall letter ((mem_joined_iff hslash).mpr ⟨name, hname, hletter⟩)
    · intro hall letter hletter
      rcases mem_joined hletter with rfl | ⟨name, hname, hletter⟩
      · decide
      · exact hall name hname letter hletter
  have hwritable : Writable file ↔ 92 ∉ file.text ∧ Decoded file.text := by
    rw [hback, hdecoded]
    exact ⟨fun hall ↦ ⟨fun name hname ↦ (hall name hname).1, fun name hname ↦ (hall name hname).2⟩,
      fun hall name hname ↦ ⟨hall.1 name hname, hall.2 name hname⟩⟩
  unfold reference
  rw [hwritable]
  by_cases hdec : Decoded file.text
  · by_cases hsafe : SafeRelativePath file.text
    · have hclean := (safeRelativePath_text h).mp hsafe
      rw [if_pos hdec, if_pos hsafe]
      simp [hclean, hdec, eq_comm]
    · have hclean := mt (safeRelativePath_text h).mpr hsafe
      rw [if_pos hdec, if_neg hsafe]
      simp [not_not.mp hclean]
  · rw [if_neg hdec]
    simp [hdec]

theorem mapM_reference_eq_ok_iff {files : List File} (h : ∀ file ∈ files, ProperFile file)
    {items : List FileReference} : files.mapM reference = .ok items ↔
      (∀ file ∈ files, Writable file) ∧ items = files.map fun file ↦ ⟨file.text, file.size⟩ := by
  induction files generalizing items with
  | nil => simp [pure, Except.pure, eq_comm]
  | cons file rest ih =>
    obtain ⟨hfile, hrest⟩ := List.forall_mem_cons.mp h
    rw [List.mapM_cons, List.forall_mem_cons, List.map_cons]
    constructor
    · intro hok
      cases hreference : reference file with
      | error error =>
        rw [hreference] at hok
        cases hok
      | ok item =>
        rw [hreference] at hok
        cases hothers : rest.mapM reference with
        | error error =>
          rw [hothers] at hok
          cases hok
        | ok others =>
          rw [hothers] at hok
          obtain ⟨hwritable, rfl⟩ := (reference_eq_ok_iff hfile).mp hreference
          obtain ⟨hall, rfl⟩ := (ih hrest).mp hothers
          exact ⟨⟨hwritable, hall⟩, (Except.ok.inj hok).symm⟩
    · rintro ⟨⟨hwritable, hall⟩, rfl⟩
      rw [(reference_eq_ok_iff hfile).mpr ⟨hwritable, rfl⟩, (ih hrest).mpr ⟨hall, rfl⟩]
      rfl

theorem requireSortedUnique_eq_ok_iff {items : List FileReference} :
    requireSortedUnique items = .ok () ↔ (items.map FileReference.path).Pairwise (· < ·) := by
  have hsorted : items.map FileReference.path =
      (items.map FileReference.path).insertionSort (· ≤ ·) ↔
        (items.map FileReference.path).Pairwise (· ≤ ·) := by
    constructor
    · intro heq
      rw [heq]
      exact List.pairwise_insertionSort _ _
    · exact fun h ↦ h.insertionSort_eq.symm
  have hunique : (items.map FileReference.path).length =
      (items.map FileReference.path).dedup.length ↔ (items.map FileReference.path).Nodup := by
    rw [eq_comm, (List.dedup_sublist _).length_eq, List.dedup_eq_self]
  have hstrict : (items.map FileReference.path).Pairwise (· < ·) ↔
      (items.map FileReference.path).Pairwise (· ≤ ·) ∧ (items.map FileReference.path).Nodup := by
    rw [List.nodup_iff_pairwise_ne, ← List.pairwise_and_iff]
    exact ⟨fun h ↦ h.imp lt_iff_le_and_ne.mp, fun h ↦ h.imp lt_iff_le_and_ne.mpr⟩
  unfold requireSortedUnique
  dsimp only
  rw [hstrict, ← hsorted, ← hunique]
  split_ifs with h
  · simp only [false_iff, not_and]
    rcases h with hne | hne
    · exact fun heq ↦ absurd heq hne
    · exact fun _ ↦ hne
  · simpa [not_or] using h

/-- Files in the order of their paths are accepted exactly if each name is and no two are swapped. -/
theorem accepted_iff {files : List File} (h : ∀ file ∈ files, ProperFile file)
    (hsorted : files.Pairwise fun first second ↦ first.path < second.path) :
    Accepted files ↔ (∀ file ∈ files, Writable file) ∧
      ∀ first ∈ files, ∀ second ∈ files, ¬Swapped 47 first.path second.path := by
  have hpaths : (files.map fun file ↦ (⟨file.text, file.size⟩ : FileReference)).map
      FileReference.path = files.map File.text := by
    rw [List.map_map]
    rfl
  have horder : (files.map File.text).Pairwise (· < ·) ↔
      ∀ first ∈ files, ∀ second ∈ files, ¬Swapped 47 first.path second.path := by
    rw [List.pairwise_map]
    constructor
    · intro htexts first hfirst second hsecond hswapped
      have hall := List.Pairwise.forall_of_forall_of_flip
        (R := fun one other : File ↦ one.path < other.path → one.text < other.text)
        (fun _ _ hlt ↦ absurd hlt (lt_irrefl _))
        (htexts.imp fun {one other} htext (_ : one.path < other.path) ↦ htext)
        (hsorted.imp fun hlt hgt ↦ absurd hgt (lt_asymm hlt))
      have htext := hall hfirst hsecond hswapped.lt
      exact (joined_lt_joined_iff (h first hfirst).proper (h second hsecond).proper
        hswapped.lt).mp htext hswapped
    · intro hnone
      refine hsorted.imp_of_mem fun {first second} hfirst hsecond hlt ↦ ?_
      exact (joined_lt_joined_iff (h first hfirst).proper (h second hsecond).proper hlt).mpr
        (hnone first hfirst second hsecond)
  constructor
  · rintro ⟨items, hitems, haccepted⟩
    obtain ⟨hwritable, rfl⟩ := (mapM_reference_eq_ok_iff h).mp hitems
    rw [requireSortedUnique_eq_ok_iff, hpaths] at haccepted
    exact ⟨hwritable, horder.mp haccepted⟩
  · rintro ⟨hwritable, hnone⟩
    refine ⟨_, (mapM_reference_eq_ok_iff h).mpr ⟨hwritable, rfl⟩, ?_⟩
    rw [requireSortedUnique_eq_ok_iff, hpaths]
    exact horder.mpr hnone

/-! ### One list for each file -/

/-- The three lists of agent evidence. -/
inductive Kind
  | session
  | trajectory
  | log
  deriving DecidableEq

section

variable [Lowercase] {tree : TrialTree} {files : List File} {root : Option Name} {file : File}

/-- A session by its path below the trial root. -/
def RelativeSession (file : File) : Prop :=
  suffix file.name = ascii ".jsonl" ∧ ascii "session" <:+: Lowercase.lower file.text ∧
    ¬ascii "trajectory" <:+: file.name

instance : DecidablePred RelativeSession := fun _ ↦ inferInstanceAs (Decidable (_ ∧ _))

/-- The list a file belongs to by its path below the trial root. -/
def kind (file : File) : Kind :=
  if isTrajectory file then .trajectory else if RelativeSession file then .session else .log

/-- Each file is in one list, whatever the place of the trial, the place does not matter, and the lists
are accepted. -/
structure Canonical (tree : TrialTree) : Prop where
  exactlyOne : ∀ root, ∀ file ∈ tree.agent,
    file ∈ sessions root tree.agent ∧ file ∉ trajectories tree.agent ∧ file ∉ logs root tree.agent ∨
    file ∉ sessions root tree.agent ∧ file ∈ trajectories tree.agent ∧ file ∉ logs root tree.agent ∨
    file ∉ sessions root tree.agent ∧ file ∉ trajectories tree.agent ∧ file ∈ logs root tree.agent
  placed : ∀ root root', sessions root tree.agent = sessions root' tree.agent ∧
    logs root tree.agent = logs root' tree.agent
  accepted : ∀ root, Accepted (sessions root tree.agent) ∧ Accepted (trajectories tree.agent) ∧
    Accepted (logs root tree.agent) ∧ Accepted (verifierLogs tree)

/-- What the names of a tree must be. -/
structure Plain (tree : TrialTree) : Prop where
  writable : ∀ file ∈ tree.agent ++ verifierLogs tree, Writable file
  decided : ∀ file ∈ tree.agent, suffix file.name = ascii ".jsonl" →
    ¬ascii "trajectory" <:+: file.name →
      ¬isTrajectory file ∧ ascii "session" <:+: Lowercase.lower file.text
  unswapped : ∀ first ∈ tree.agent, ∀ second ∈ tree.agent, kind first = kind second →
    ¬Swapped 47 first.path second.path
  unswapped_verifier : ∀ first ∈ verifierLogs tree, ∀ second ∈ verifierLogs tree,
    ¬Swapped 47 first.path second.path

omit [Lowercase] in
theorem mem_ordered : file ∈ ordered files ↔ file ∈ files := List.mem_insertionSort _

omit [Lowercase] in
theorem pairwise_ordered (h : (files.map File.path).Nodup) :
    (ordered files).Pairwise fun first second ↦ first.path < second.path := by
  have hsorted : (ordered files).Pairwise fun first second ↦ first.path ≤ second.path :=
    List.pairwise_insertionSort _ _
  have hnodup : (ordered files).Pairwise fun first second ↦ first.path ≠ second.path := by
    have hperm := ((List.perm_insertionSort (fun first second : File ↦ first.path ≤ second.path)
      files).map File.path).nodup_iff.mpr h
    exact List.pairwise_map.mp hperm
  exact (hsorted.and hnodup).imp fun h ↦ lt_of_le_of_ne h.1 h.2

theorem isSession_place (h : suffix file.name = ascii ".jsonl")
    (hname : ¬ascii "trajectory" <:+: file.name) : isSession (some (ascii "/session")) file := by
  refine ⟨h, ?_, hname⟩
  have hlower : Lowercase.lower (ascii "/session") = ascii "/session" :=
    (Lowercase.lower_ascii _ (by decide)).trans (by decide)
  rw [fullPath, Lowercase.lower_append_slash, hlower]
  exact List.infix_append_of_infix_left (by decide)

theorem isSession_of_relative (h : RelativeSession file) (root : Option Name) :
    isSession root file := by
  refine ⟨h.1, ?_, h.2.2⟩
  cases root with
  | none => exact h.2.1
  | some place =>
    rw [fullPath, Lowercase.lower_append_slash]
    exact List.infix_append_of_infix_right (List.infix_cons h.2.1)

omit [Lowercase] in
theorem text_injOn (h : ∀ file ∈ files, ProperFile file) (hnodup : (files.map File.path).Nodup)
    {first second : File} (hfirst : first ∈ files) (hsecond : second ∈ files)
    (heq : first.text = second.text) : first = second :=
  List.inj_on_of_nodup_map hnodup hfirst hsecond
    (joined_injective (h first hfirst).proper (h second hsecond).proper heq)

/-- A log is in neither of the two other lists. -/
theorem mem_logs_iff (h : ∀ file ∈ files, ProperFile file) (hnodup : (files.map File.path).Nodup)
    (hfile : file ∈ files) :
    file ∈ logs root files ↔ file ∉ sessions root files ∧ file ∉ trajectories files := by
  have hmem : file.text ∈ (sessions root files ++ trajectories files).map File.text ↔
      file ∈ sessions root files ++ trajectories files := by
    constructor
    · intro htext
      obtain ⟨other, hother, heq⟩ := List.mem_map.mp htext
      have hotherMem : other ∈ files := by
        rcases List.mem_append.mp hother with hmem | hmem
        · exact mem_ordered.mp (List.mem_filter.mp hmem).1
        · exact mem_ordered.mp (List.mem_filter.mp hmem).1
      rw [← text_injOn h hnodup hotherMem hfile heq]
      exact hother
    · exact List.mem_map_of_mem
  unfold logs
  rw [List.mem_filter, decide_eq_true_eq, hmem, List.mem_append, not_or, mem_ordered]
  exact ⟨fun hlog ↦ hlog.2, fun hlog ↦ ⟨hfile, hlog⟩⟩

/-- Where the names decide, the three lists hold the files of the three kinds, at every place. -/
theorem lists_of_decided (h : ∀ file ∈ files, ProperFile file) (hnodup : (files.map File.path).Nodup)
    (hdecided : ∀ file ∈ files, suffix file.name = ascii ".jsonl" →
      ¬ascii "trajectory" <:+: file.name →
        ¬isTrajectory file ∧ ascii "session" <:+: Lowercase.lower file.text) (root : Option Name) :
    sessions root files = (ordered files).filter (fun file ↦ kind file = .session) ∧
      trajectories files = (ordered files).filter (fun file ↦ kind file = .trajectory) ∧
      logs root files = (ordered files).filter fun file ↦ kind file = .log := by
  have hsession : ∀ file ∈ files, isSession root file ↔ kind file = .session := by
    intro file hfile
    unfold kind
    constructor
    · rintro ⟨hsuffix, -, hname⟩
      obtain ⟨htrajectory, htext⟩ := hdecided file hfile hsuffix hname
      rw [if_neg htrajectory, if_pos ⟨hsuffix, htext, hname⟩]
    · intro hkind
      split_ifs at hkind with htrajectory hrelative
      exact isSession_of_relative hrelative root
  have htrajectory : ∀ file, isTrajectory file ↔ kind file = .trajectory := by
    intro file
    unfold kind
    split_ifs <;> simp [*]
  have hsessions : sessions root files =
      (ordered files).filter fun file ↦ kind file = .session :=
    List.filter_congr fun file hfile ↦ by
      rw [decide_eq_decide]
      exact hsession file (mem_ordered.mp hfile)
  have htrajectories : trajectories files =
      (ordered files).filter fun file ↦ kind file = .trajectory :=
    List.filter_congr fun file _ ↦ by
      rw [decide_eq_decide]
      exact htrajectory file
  refine ⟨hsessions, htrajectories, List.filter_congr fun file hfile ↦ ?_⟩
  have hmem := mem_ordered.mp hfile
  have hlogs : file ∈ logs root files ↔ _ := mem_logs_iff h hnodup hmem
  rw [hsessions, htrajectories, List.mem_filter, List.mem_filter, decide_eq_true_eq,
    decide_eq_true_eq, logs, List.mem_filter] at hlogs
  rw [Bool.eq_iff_iff, decide_eq_true_eq, decide_eq_true_eq]
  rw [decide_eq_true_eq, and_iff_right hfile, and_iff_right hfile, and_iff_right hfile] at hlogs
  rw [hlogs]
  cases kind file <;> simp

omit [Lowercase] in
theorem TrialTree.proper_agent (tree : TrialTree) : ∀ file ∈ tree.agent, ProperFile file :=
  fun file hfile ↦ ⟨tree.path_ne_nil file (List.mem_append_left _ hfile),
    tree.isName file (List.mem_append_left _ hfile)⟩

omit [Lowercase] in
theorem TrialTree.proper_verifier (tree : TrialTree) : ∀ file ∈ tree.verifier, ProperFile file :=
  fun file hfile ↦ ⟨tree.path_ne_nil file (List.mem_append_right _ hfile),
    tree.isName file (List.mem_append_right _ hfile)⟩

omit [Lowercase] in
/-- A list of selected files is accepted exactly if their names are and no two are swapped. -/
theorem accepted_filter_iff (h : ∀ file ∈ files, ProperFile file)
    (hnodup : (files.map File.path).Nodup) (keep : File → Bool) :
    Accepted ((ordered files).filter keep) ↔
      (∀ file ∈ files, keep file = true → Writable file) ∧
        ∀ first ∈ files, ∀ second ∈ files, keep first = true → keep second = true →
          ¬Swapped 47 first.path second.path := by
  rw [accepted_iff (fun file hfile ↦ h file (mem_ordered.mp (List.mem_filter.mp hfile).1))
    ((pairwise_ordered hnodup).sublist List.filter_sublist)]
  simp only [List.mem_filter, mem_ordered, and_imp]
  constructor
  · rintro ⟨hwritable, hnone⟩
    exact ⟨hwritable, fun first hfirst second hsecond hkeep hkeep' ↦
      hnone first hfirst hkeep second hsecond hkeep'⟩
  · rintro ⟨hwritable, hnone⟩
    exact ⟨hwritable, fun first hfirst hkeep second hsecond hkeep' ↦
      hnone first hfirst second hsecond hkeep hkeep'⟩

theorem Canonical.decided (h : Canonical tree) : ∀ file ∈ tree.agent,
    suffix file.name = ascii ".jsonl" → ¬ascii "trajectory" <:+: file.name →
      ¬isTrajectory file ∧ ascii "session" <:+: Lowercase.lower file.text := by
  intro file hfile hsuffix hname
  have hmem : file ∈ sessions (some (ascii "/session")) tree.agent :=
    List.mem_filter.mpr ⟨mem_ordered.mpr hfile, decide_eq_true (isSession_place hsuffix hname)⟩
  constructor
  · intro htrajectory
    have htrajectories : file ∈ trajectories tree.agent :=
      List.mem_filter.mpr ⟨mem_ordered.mpr hfile, decide_eq_true htrajectory⟩
    rcases h.exactlyOne (some (ascii "/session")) file hfile with
      ⟨-, hnot, -⟩ | ⟨hnot, -, -⟩ | ⟨hnot, -, -⟩
    · exact hnot htrajectories
    · exact hnot hmem
    · exact hnot hmem
  · rw [(h.placed _ none).1] at hmem
    exact (of_decide_eq_true (List.mem_filter.mp hmem).2).2.1

/-- The lists of a tree are what they should be at every place exactly if the names of the tree are
plain. -/
theorem canonical_lists_iff (tree : TrialTree) : Canonical tree ↔ Plain tree := by
  have hagent := accepted_filter_iff tree.proper_agent tree.nodup_agent
  have hverifier : Accepted (verifierLogs tree) ↔
      (∀ file ∈ verifierLogs tree, Writable file) ∧ ∀ first ∈ verifierLogs tree,
        ∀ second ∈ verifierLogs tree, ¬Swapped 47 first.path second.path :=
    accepted_iff (fun file hfile ↦ tree.proper_verifier file
        (mem_ordered.mp (List.mem_filter.mp hfile).1))
      ((pairwise_ordered tree.nodup_verifier).sublist List.filter_sublist)
  constructor
  · intro h
    obtain ⟨hsessions, htrajectories, hlogs⟩ :=
      lists_of_decided tree.proper_agent tree.nodup_agent h.decided none
    obtain ⟨hsession, htrajectory, hlog, hverifierLogs⟩ := h.accepted none
    rw [hsessions, hagent] at hsession
    rw [htrajectories, hagent] at htrajectory
    rw [hlogs, hagent] at hlog
    rw [hverifier] at hverifierLogs
    simp only [decide_eq_true_eq] at hsession htrajectory hlog
    refine ⟨fun file hfile ↦ ?_, h.decided, fun first hfirst second hsecond hkinds ↦ ?_,
      hverifierLogs.2⟩
    · rcases List.mem_append.mp hfile with hfile | hfile
      · cases hkind : kind file with
        | session => exact hsession.1 file hfile hkind
        | trajectory => exact htrajectory.1 file hfile hkind
        | log => exact hlog.1 file hfile hkind
      · exact hverifierLogs.1 file hfile
    · cases hkind : kind first with
      | session => exact hsession.2 first hfirst second hsecond hkind (hkinds ▸ hkind)
      | trajectory => exact htrajectory.2 first hfirst second hsecond hkind (hkinds ▸ hkind)
      | log => exact hlog.2 first hfirst second hsecond hkind (hkinds ▸ hkind)
  · intro h
    have hlists := lists_of_decided tree.proper_agent tree.nodup_agent h.decided
    refine ⟨fun root file hfile ↦ ?_, fun root root' ↦ ?_, fun root ↦ ?_⟩
    · obtain ⟨hsessions, htrajectories, hlogs⟩ := hlists root
      rw [hsessions, htrajectories, hlogs]
      simp only [List.mem_filter, mem_ordered, hfile, true_and, decide_eq_true_eq]
      cases kind file <;> simp
    · rw [(hlists root).1, (hlists root').1, (hlists root).2.2, (hlists root').2.2]
      exact ⟨rfl, rfl⟩
    · obtain ⟨hsessions, htrajectories, hlogs⟩ := hlists root
      have hkept : ∀ which, Accepted ((ordered tree.agent).filter fun file ↦ kind file = which) := by
        intro which
        refine (hagent _).mpr ⟨fun file hfile _ ↦ h.writable file (List.mem_append_left _ hfile),
          fun first hfirst second hsecond hkind hkind' ↦ ?_⟩
        exact h.unswapped first hfirst second hsecond
          ((of_decide_eq_true hkind).trans (of_decide_eq_true hkind').symm)
      rw [hsessions, htrajectories, hlogs]
      exact ⟨hkept _, hkept _, hkept _, hverifier.mpr
        ⟨fun file hfile ↦ h.writable file (List.mem_append_right _ hfile), h.unswapped_verifier⟩⟩

/-- The references of a list. -/
def references (files : List File) : List FileReference :=
  files.map fun file ↦ ⟨file.text, file.size⟩

omit [Lowercase] in
theorem Accepted.eq (haccepted : Accepted files) (h : ∀ file ∈ files, ProperFile file) :
    files.mapM reference = .ok (references files) ∧
      requireSortedUnique (references files) = .ok () := by
  obtain ⟨items, hitems, hok⟩ := haccepted
  obtain ⟨-, rfl⟩ := (mapM_reference_eq_ok_iff h).mp hitems
  exact ⟨hitems, hok⟩

/-- The evidence of accepted lists is refused only for want of a session or a trajectory with content. -/
theorem collectAgentEvidence_eq (h : Canonical tree) (root : Option Name) :
    collectAgentEvidence root tree.agent =
      if references (sessions root tree.agent) = [] ∨
          ∃ item ∈ references (sessions root tree.agent), item.sizeBytes = 0 then
        .error (.trialEvidence "agent execution has no session JSONL with content")
      else if references (trajectories tree.agent) = [] ∨
          ∃ item ∈ references (trajectories tree.agent), item.sizeBytes = 0 then
        .error (.trialEvidence "agent trajectory is missing or empty")
      else .ok ⟨references (sessions root tree.agent), references (trajectories tree.agent),
        references (logs root tree.agent)⟩ := by
  have hproper : ∀ keep : File → Bool, ∀ file ∈ (ordered tree.agent).filter keep, ProperFile file :=
    fun keep file hfile ↦ tree.proper_agent file (mem_ordered.mp (List.mem_filter.mp hfile).1)
  obtain ⟨hsessions, htrajectories, hlogs, -⟩ := h.accepted root
  obtain ⟨hsessions, hsession⟩ := hsessions.eq (hproper _)
  obtain ⟨htrajectories, htrajectory⟩ := htrajectories.eq (hproper _)
  obtain ⟨hlogs, hlog⟩ := hlogs.eq (hproper _)
  unfold collectAgentEvidence
  rw [hsessions, htrajectories]
  simp only [bind, Except.bind, hlogs, hsession, htrajectory, hlog]
  split_ifs <;> rfl

end

/-! ### A session beside its directory -/

section

/-- Lower case of texts without letters beyond ASCII. -/
instance : Lowercase where
  lower text := text.map lowerLetter
  lower_append_slash text rest := by simp [lowerLetter]
  lower_ascii _ _ := rfl

/-- A session with a directory for what it started, named after it. -/
def besideTree : TrialTree where
  agent :=
    [⟨[ascii "agent", ascii "sessions", ascii "main.jsonl"], 10⟩,
      ⟨[ascii "agent", ascii "sessions", ascii "main", ascii "helper.jsonl"], 10⟩,
      ⟨[ascii "agent", ascii "trajectory.json"], 10⟩]
  verifier := []
  scorecard := [ascii "verifier", ascii "scorecard.json"]
  reward := [ascii "verifier", ascii "reward.txt"]
  path_ne_nil := by decide +kernel
  isName := by decide +kernel
  nodup_agent := by decide +kernel
  nodup_verifier := by decide +kernel

/-- The evidence of this tree is refused although its files have content. -/
theorem besideTree_refused : ¬Canonical besideTree ∧
    collectAgentEvidence none besideTree.agent =
      .error (.value "file references must be sorted and unique") := by
  have hrefused : collectAgentEvidence none besideTree.agent =
      .error (.value "file references must be sorted and unique") := by decide +kernel
  refine ⟨fun h ↦ ?_, hrefused⟩
  rw [collectAgentEvidence_eq h] at hrefused
  split_ifs at hrefused
  all_goals cases hrefused

end

end HarborHF.Trials
